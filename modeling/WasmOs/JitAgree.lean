import WasmOs.JitSem
import WasmOs.InterpSpec

/-!
# Compiled and interpreted code

The interpreter, run on a body that the compiler accepts, computes what the stack machine computes on
low halves. Compiled code computes what it computes on whole slots, so the two agree as long as every
`i32` operation fits.
-/

namespace WasmOs

open Hoare (wp wp_bind wp_pure wp_throw wp_get wp_set wp_modify wp_ite)

/-! ## Reading a body -/

/-- The operation at `ip`, with the position after it. -/
inductive OpAt (body : List UInt8) (ip : Nat) : JitOp → Nat → Prop
  | i32Const {v : BitVec 32} {sz : Nat} : body[ip]? = some 0x41 →
    readI32Leb128 (body.drop (ip + 1)) = some (v, sz) →
      OpAt body ip (.const (v.signExtend 64)) (ip + 1 + sz)
  | i64Const {v : BitVec 64} {sz : Nat} : body[ip]? = some 0x42 →
    readI64Leb128 (body.drop (ip + 1)) = some (v, sz) →
      OpAt body ip (.const v) (ip + 1 + sz)
  | localGet {idx sz : Nat} : body[ip]? = some 0x20 → readU32Leb128 (body.drop (ip + 1)) = some (idx, sz) →
      OpAt body ip (.localGet idx) (ip + 1 + sz)
  | localSet {idx sz : Nat} : body[ip]? = some 0x21 → readU32Leb128 (body.drop (ip + 1)) = some (idx, sz) →
      OpAt body ip (.localSet idx) (ip + 1 + sz)
  | localTee {idx sz : Nat} : body[ip]? = some 0x22 → readU32Leb128 (body.drop (ip + 1)) = some (idx, sz) →
      OpAt body ip (.localTee idx) (ip + 1 + sz)
  | drop : body[ip]? = some 0x1A → OpAt body ip .drop (ip + 1)
  | nop : body[ip]? = some 0x01 → OpAt body ip .nop (ip + 1)
  | bin {op : UInt8} {b : JitBin} : body[ip]? = some op → JitBin.ofOpcode op = some b →
    OpAt body ip (.bin b) (ip + 1)

/-- The end of the code: a `return`, the last `end` or the end of the bytes. -/
def StopAt (body : List UInt8) (ip : Nat) : Prop :=
  body[ip]? = none ∨ body[ip]? = some 0x0F ∨ body[ip]? = some 0x0B ∧ ip + 1 = body.length

theorem OpAt.lt {body : List UInt8} {ip ip' : Nat} {op : JitOp} (h : OpAt body ip op ip') : ip < ip' := by
  cases h <;> omega

theorem jitOps_cases {body : List UInt8} {fuel ip : Nat} {ops : List JitOp}
    (h : jitOps.loop body (fuel + 1) ip = some ops) :
    (ops = [] ∧ StopAt body ip) ∨
    ∃ op ip' ops', OpAt body ip op ip' ∧ jitOps.loop body fuel ip' = some ops' ∧ ops = op :: ops' := by
  have hcons : ∀ {op ip'}, OpAt body ip op ip' → (jitOps.loop body fuel ip').map (op :: ·) = some ops →
      ∃ op ip' ops', OpAt body ip op ip' ∧ jitOps.loop body fuel ip' = some ops' ∧ ops = op :: ops' := by
    intro op ip' hat hloop
    obtain ⟨ops', hops', heq⟩ := Option.map_eq_some_iff.mp hloop
    exact ⟨op, ip', ops', hat, hops', heq.symm⟩
  unfold jitOps.loop at h
  cases hb : body[ip]? with
  | none => rw [hb] at h; cases h; exact .inl ⟨rfl, .inl hb⟩
  | some b =>
    rw [hb] at h
    simp only at h
    by_cases h41 : b = 0x41
    · rw [if_pos h41] at h
      obtain ⟨⟨v, sz⟩, hr, h⟩ := Option.bind_eq_some_iff.mp h
      exact .inr (hcons (.i32Const (h41 ▸ hb) hr) h)
    rw [if_neg h41] at h
    by_cases h42 : b = 0x42
    · rw [if_pos h42] at h
      obtain ⟨⟨v, sz⟩, hr, h⟩ := Option.bind_eq_some_iff.mp h
      exact .inr (hcons (.i64Const (h42 ▸ hb) hr) h)
    rw [if_neg h42] at h
    by_cases h20 : b = 0x20
    · rw [if_pos h20] at h
      obtain ⟨⟨idx, sz⟩, hr, h⟩ := Option.bind_eq_some_iff.mp h
      exact .inr (hcons (.localGet (h20 ▸ hb) hr) h)
    rw [if_neg h20] at h
    by_cases h21 : b = 0x21
    · rw [if_pos h21] at h
      obtain ⟨⟨idx, sz⟩, hr, h⟩ := Option.bind_eq_some_iff.mp h
      exact .inr (hcons (.localSet (h21 ▸ hb) hr) h)
    rw [if_neg h21] at h
    by_cases h22 : b = 0x22
    · rw [if_pos h22] at h
      obtain ⟨⟨idx, sz⟩, hr, h⟩ := Option.bind_eq_some_iff.mp h
      exact .inr (hcons (.localTee (h22 ▸ hb) hr) h)
    rw [if_neg h22] at h
    by_cases h1A : b = 0x1A
    · rw [if_pos h1A] at h
      exact .inr (hcons (.drop (h1A ▸ hb)) h)
    rw [if_neg h1A] at h
    by_cases h0F : b = 0x0F
    · rw [if_pos h0F] at h
      cases h
      exact .inl ⟨rfl, .inr (.inl (h0F ▸ hb))⟩
    rw [if_neg h0F] at h
    by_cases h0B : b = 0x0B
    · rw [if_pos h0B] at h
      split at h
      · cases h
        exact .inl ⟨rfl, .inr (.inr ⟨h0B ▸ hb, ‹_›⟩)⟩
      · cases h
    rw [if_neg h0B] at h
    by_cases h01 : b = 0x01
    · rw [if_pos h01] at h
      exact .inr (hcons (.nop (h01 ▸ hb)) h)
    rw [if_neg h01] at h
    obtain ⟨bin, hbin, h⟩ := Option.bind_eq_some_iff.mp h
    exact .inr (hcons (.bin hb hbin) h)

/-! ## The interpreter on a body -/

/-- The operand stack in the value stack, the bottom in slot `base`. -/
def InSlots (base : Nat) (vstack : Nat → BitVec 64) : List (BitVec 64) → Prop
  | [] => True
  | v :: st => vstack (base + st.length) = v ∧ InSlots base vstack st

theorem InSlots.upd {base : Nat} {vstack : Nat → BitVec 64} (i : Nat) (v : BitVec 64) : ∀ {st : List (BitVec 64)},
    base + st.length ≤ i → InSlots base vstack st → InSlots base (upd vstack i v) st
  | [], _, _ => trivial
  | _ :: st, hi, ⟨hv, hst⟩ => by
    simp only [List.length_cons] at hi
    exact ⟨by rw [upd_of_ne _ _ (by omega)]; exact hv, hst.upd i v (by omega)⟩

theorem InSlots.push {base : Nat} {vstack : Nat → BitVec 64} {st : List (BitVec 64)}
    (h : InSlots base vstack st) (v : BitVec 64) :
    InSlots base (WasmOs.upd vstack (base + st.length) v) (v :: st) :=
  ⟨upd_self .., h.upd _ v (Nat.le_refl _)⟩

theorem decodeOp_bin {F : FloatOps} {op : UInt8} {b : JitBin} (h : JitBin.ofOpcode op = some b) :
    decodeOp F op = .num (.bin fun x y => .ok (b.eval32 x y)) := by
  obtain ⟨n, hn⟩ : ∃ n, op.toNat = n := ⟨_, rfl⟩
  obtain rfl : op = UInt8.ofNat n := by rw [← hn, UInt8.ofNat_toNat]
  unfold JitBin.ofOpcode at h
  rw [hn] at h
  split at h <;> cases h <;> rfl

/-- What stands behind an opcode is inside the body. -/
theorem readAt_immediate {α : Type} {read : List UInt8 → Option (α × Nat)} {body : List UInt8} {b : UInt8} {v : α}
    {ip sz : Nat} (hread : Within read) (hfit : Fits body) (hb : body[ip]? = some b)
    (hr : read (body.drop (ip + 1)) = some (v, sz)) :
    readAt read body InterpError.malformedCode (ip + 1) = .ok (v, ip + 1 + sz) :=
  (readAt_eq_ok hread hfit).mpr ⟨(List.getElem?_eq_some_iff.mp hb).1, _, hr, rfl⟩

section
variable {ω : Type} (s₀ : State ω) (bodyIdx localCount resultCount base : Nat)

def bodyFrame (ip : Nat) (locals : Nat → BitVec 64) : Frame :=
  { bodyIdx, pc := ip, locals, localCount, ctrlBase := s₀.ctrlDepth, vspBase := base, resultCount }

/-- The interpreter between two operations of a function that was called from outside. -/
def inBody (ip : Nat) (c : Config) (vstack : Nat → BitVec 64) : State ω :=
  { s₀ with
    vstack, vsp := base + c.stack.length
    frames := [bodyFrame s₀ bodyIdx localCount resultCount base ip c.locals] }

variable {s₀ bodyIdx localCount resultCount base} {code : Code (HostFn ω)} {F : FloatOps} {body : List UInt8}
  (hy : s₀.yieldRequested = false) (hbody : code.bodies[bodyIdx]? = some body) (hidx : bodyIdx < MAX_FUNCS)
    (hfit : Fits body)
include hy hbody hidx hfit

/-- The interpreter does on low halves what the operation says. -/
theorem step_op {op : JitOp} {ip ip' : Nat} {c c' : Config} {vstack : Nat → BitVec 64} (hat : OpAt body ip op ip')
    (heval : op.eval JitBin.eval32 c = some c') (hst : InSlots base vstack c.stack)
    (hd : base + c.stack.length ≤ STACK_DEPTH)
    (hd' : base + c'.stack.length ≤ STACK_DEPTH) (hlocal : ∀ idx ∈ op.local?, idx < localCount)
    (hmax : localCount ≤ MAX_LOCALS) :
    wp (step code F) (fun _ s => ∃ vstack', InSlots base vstack' c'.stack ∧
        s = inBody s₀ bodyIdx localCount resultCount base ip' c' vstack') (fun _ _ => False)
      (inBody s₀ bodyIdx localCount resultCount base ip c vstack) := by
  obtain ⟨ls, st⟩ := c
  have hidle : (inBody s₀ bodyIdx localCount resultCount base ip ⟨ls, st⟩ vstack).yieldRequested = false := hy
  cases hat with
  | i32Const hb hr =>
    cases heval
    refine wp_step hidle rfl hbody hidx hb
      ((wp_bind _).mpr ((wp_bind _).mpr ((wp_lift_ok (readAt_immediate readI32Leb128_bounds hfit hb hr)).mpr ?_)))
    refine (wp_bind _).mpr (wp_vPush.mpr ⟨fun hfull => ?_, fun _ => wp_seq rfl ⟨_, hst.push _, rfl⟩⟩)
    exact absurd (Nat.lt_of_lt_of_le (Nat.lt_succ_self _) hd') (Nat.not_lt.mpr hfull)
  | i64Const hb hr =>
    cases heval
    refine wp_step hidle rfl hbody hidx hb
      ((wp_bind _).mpr ((wp_bind _).mpr ((wp_lift_ok (readAt_immediate readI64Leb128_bounds hfit hb hr)).mpr ?_)))
    refine (wp_bind _).mpr (wp_vPush.mpr ⟨fun hfull => ?_, fun _ => wp_seq rfl ⟨_, hst.push _, rfl⟩⟩)
    exact absurd (Nat.lt_of_lt_of_le (Nat.lt_succ_self _) hd') (Nat.not_lt.mpr hfull)
  | @localGet idx _ hb hr =>
    cases heval
    have hlt := hlocal idx rfl
    refine wp_step hidle rfl hbody hidx hb ((wp_bind _).mpr ((wp_bind _).mpr
      ((wp_lift_ok (readAt_immediate (fun h => (readU32Leb128_bounds h).2.2) hfit hb hr)).mpr ?_)))
    refine wp_ite.mpr ⟨fun hbad => absurd hlt (Nat.not_lt.mpr hbad), fun _ =>
      wp_ite.mpr ⟨fun hbad => by omega, fun _ => ?_⟩⟩
    refine (wp_bind _).mpr (wp_vPush.mpr ⟨fun hfull => ?_, fun _ => wp_seq rfl ⟨_, hst.push _, rfl⟩⟩)
    exact absurd (Nat.lt_of_lt_of_le (Nat.lt_succ_self _) hd') (Nat.not_lt.mpr hfull)
  | @localSet idx _ hb hr =>
    match st, heval, hst with
    | v :: st, heval, ⟨hv, hst⟩ =>
      cases heval
      have hlt := hlocal idx rfl
      refine wp_step hidle rfl hbody hidx hb ((wp_bind _).mpr ((wp_bind _).mpr
        ((wp_lift_ok (readAt_immediate (fun h => (readU32Leb128_bounds h).2.2) hfit hb hr)).mpr ?_)))
      refine wp_ite.mpr ⟨fun hbad => absurd hlt (Nat.not_lt.mpr hbad), fun _ =>
        (wp_bind _).mpr ((wp_vPop hd).mpr ⟨nofun, ?_⟩)⟩
      rintro _ ⟨⟩
      refine wp_ite.mpr ⟨fun hbad => by omega, fun _ => ?_⟩
      exact (wp_bind _).mpr ((wp_setFrame rfl).mpr (wp_seq rfl ⟨_, hst, by rw [← hv]; rfl⟩))
  | @localTee idx _ hb hr =>
    match st, heval, hst with
    | v :: st, heval, ⟨hv, hst⟩ =>
      cases heval
      have hlt := hlocal idx rfl
      refine wp_step hidle rfl hbody hidx hb ((wp_bind _).mpr ((wp_bind _).mpr
        ((wp_lift_ok (readAt_immediate (fun h => (readU32Leb128_bounds h).2.2) hfit hb hr)).mpr ?_)))
      refine wp_ite.mpr ⟨fun hbad => absurd hlt (Nat.not_lt.mpr hbad), fun _ => (wp_bind _).mpr (wp_get.mpr ?_)⟩
      refine wp_ite.mpr ⟨nofun, fun _ => wp_ite.mpr ⟨fun hbad => ?_, fun _ => ?_⟩⟩
      · rcases hbad with hbad | hbad
        · exact absurd hd (Nat.not_le.mpr hbad)
        · omega
      · exact (wp_bind _).mpr ((wp_setFrame rfl).mpr (wp_seq rfl ⟨_, ⟨hv, hst⟩, by rw [← hv]; rfl⟩))
  | drop hb =>
    match st, heval, hst with
    | v :: st, heval, ⟨hv, hst⟩ =>
      cases heval
      refine wp_step hidle rfl hbody hidx hb ((wp_bind _).mpr ((wp_bind _).mpr ((wp_vPop hd).mpr ⟨nofun, ?_⟩)))
      rintro _ ⟨⟩
      exact wp_seq rfl ⟨_, hst, rfl⟩
  | nop hb =>
    cases heval
    exact wp_step hidle rfl hbody hidx hb ((wp_bind _).mpr (wp_seq rfl ⟨_, hst, rfl⟩))
  | @bin b op hb hop =>
    match st, heval, hst with
    | y :: x :: st, heval, ⟨hy', hx, hst⟩ =>
      cases heval
      refine wp_step hidle rfl hbody hidx hb ?_
      rw [decodeOp_bin hop]
      refine (wp_bind _).mpr ((wp_bind _).mpr ((wp_bind _).mpr ((wp_vPop hd).mpr ⟨nofun, ?_⟩)))
      rintro _ ⟨⟩
      refine (wp_bind _).mpr ((wp_vPop (Nat.le_of_succ_le hd)).mpr ⟨nofun, ?_⟩)
      rintro _ ⟨⟩
      refine wp_vPush.mpr ⟨fun hfull => ?_, fun _ => wp_seq rfl ⟨_, hst.push _, ?_⟩⟩
      · exact absurd (Nat.lt_of_lt_of_le (Nat.lt_succ_self _) hd') (Nat.not_lt.mpr hfull)
      · rw [← hy', ← hx]
        rfl

omit hfit in
theorem step_stop {ip : Nat} {c : Config} {vstack : Nat → BitVec 64} (hstop : StopAt body ip)
    (hd : base + c.stack.length ≤ STACK_DEPTH) (hrc : resultCount ≤ c.stack.length) :
    wp (step code F) (fun _ s => s = { s₀ with
        vstack := copyUp vstack base (base + c.stack.length - resultCount) resultCount
        vsp := base + resultCount, frames := [] }) (fun _ _ => False)
      (inBody s₀ bodyIdx localCount resultCount base ip c vstack) := by
  have hreturn : wp doReturn (fun _ s => s = { s₀ with
        vstack := copyUp vstack base (base + c.stack.length - resultCount) resultCount
        vsp := base + resultCount, frames := [] }) (fun _ _ => False)
      (inBody s₀ bodyIdx localCount resultCount base ip c vstack) := by
    refine (wp_bind _).mpr (wp_get.mpr (wp_ite.mpr ⟨fun hbad => ?_, fun _ => rfl⟩))
    simp only [bodyFrame, inBody] at hbad
    omega
  rcases hstop with hb | hb | ⟨hb, _⟩
  · exact (Hoare.wp_congr (step_end (s := inBody s₀ bodyIdx localCount resultCount base ip c vstack) hy
      rfl hbody hidx
      (List.getElem?_eq_none_iff.mp hb))).mpr hreturn
  · exact (Hoare.wp_congr (step_dispatch (s := inBody s₀ bodyIdx localCount resultCount base ip c vstack) hy
      rfl hbody hidx hb)).mpr
      ((wp_bind _).mpr hreturn)
  · refine (Hoare.wp_congr (step_dispatch (s := inBody s₀ bodyIdx localCount resultCount base ip c vstack) hy
      rfl hbody hidx hb)).mpr
      ((wp_bind _).mpr ((wp_bind _).mpr (wp_get.mpr (wp_ite.mpr ⟨fun hbad => ?_, fun _ => hreturn⟩))))
    exact absurd hbad (Nat.lt_irrefl _)

variable (s₀ resultCount) in
theorem run_body (hmax : localCount ≤ MAX_LOCALS) :
    ∀ {fuel ip : Nat} {ops : List JitOp} {c c' : Config} {vstack : Nat → BitVec 64},
    jitOps.loop body fuel ip = some ops → body.length ≤ ip + fuel → InSlots base vstack c.stack →
    evalOps JitBin.eval32 ops c = some c' → StackFits (STACK_DEPTH - base) c.stack.length ops → base ≤ STACK_DEPTH →
    (∀ op ∈ ops, ∀ idx ∈ op.local?, idx < localCount) → resultCount ≤ c'.stack.length →
    ∃ n vstack', InSlots base vstack' c'.stack ∧
    runLoop code F n (inBody s₀ bodyIdx localCount resultCount base ip c vstack) =
      .ok true { s₀ with
        vstack := copyUp vstack' base (base + c'.stack.length - resultCount) resultCount
        vsp := base + resultCount, frames := [] } := by
  intro fuel
  have hdone : ∀ {ip : Nat} {c : Config} {vstack : Nat → BitVec 64}, StopAt body ip → InSlots base vstack c.stack →
      base + c.stack.length ≤ STACK_DEPTH → resultCount ≤ c.stack.length →
      ∃ n vstack', InSlots base vstack' c.stack ∧
      runLoop code F n (inBody s₀ bodyIdx localCount resultCount base ip c vstack) =
        .ok true { s₀ with
          vstack := copyUp vstack' base (base + c.stack.length - resultCount) resultCount
          vsp := base + resultCount, frames := [] } := by
    intro ip c vstack hstop hst hd hrc
    obtain ⟨_, s', hstep, rfl⟩ := Hoare.exists_ok_of_wp (step_stop (F := F) hy hbody hidx hstop hd hrc)
    exact ⟨1, vstack, hst, Hoare.bind_ok (m := step code F) hstep⟩
  induction fuel with
  | zero =>
    intro ip ops c c' vstack hops hlen hst heval hfits hbase _ hrc
    cases hops
    cases heval
    have := hfits.le
    exact hdone (.inl (List.getElem?_eq_none (by omega))) hst (by omega) hrc
  | succ fuel ih =>
    intro ip ops c c' vstack hops hlen hst heval hfits hbase hlocals hrc
    rcases jitOps_cases hops with ⟨rfl, hstop⟩ | ⟨op, ip', ops', hat, hops', rfl⟩
    · cases heval
      have := hfits.le
      exact hdone hstop hst (by omega) hrc
    · obtain ⟨c₁, he, heval⟩ := Option.bind_eq_some_iff.mp heval
      have hfits₁ : StackFits (STACK_DEPTH - base) c₁.stack.length ops' := by rw [(eval_length he).2]; exact hfits.2
      have hd := hfits.le
      have hd₁ := hfits₁.le
      have hop : wp (step code F) _ _ (inBody s₀ bodyIdx localCount resultCount base ip c vstack) :=
        step_op hy hbody hidx hfit hat he hst (by omega) (by omega) (hlocals op List.mem_cons_self) hmax
      obtain ⟨_, s', hstep, vstack₁, hst₁, rfl⟩ := Hoare.exists_ok_of_wp hop
      obtain ⟨n, vstack', hst', hrun⟩ := ih hops' (by have := hat.lt; omega) hst₁ heval hfits₁ hbase
        (fun op' hop' => hlocals op' (List.mem_cons_of_mem _ hop')) hrc
      exact ⟨n + 1, vstack', hst', (Hoare.bind_ok (m := step code F) hstep).trans hrun⟩

end

/-! ## Agreement -/

/-- Once no frame is left, more rounds change nothing. -/
theorem runLoop_mono {ω : Type} {code : Code (HostFn ω)} {F : FloatOps} : ∀ {n k : Nat} {s s' : State ω},
    runLoop code F n s = .ok true s' → runLoop code F (n + k) s = .ok true s'
  | 0, k, s, s', h => by
    have hs : s.frames.isEmpty = true ∧ s = s' := by
      simpa [runLoop, bind, EStateM.bind, Hoare.get_run, pure, EStateM.pure] using h
    obtain ⟨hempty, rfl⟩ := hs
    cases k with
    | zero => exact h
    | succ k => rw [Nat.zero_add, runLoop, Hoare.get_bind, if_pos hempty]; rfl
  | n + 1, k, s, s', h => by
    rw [Nat.add_right_comm, runLoop, Hoare.get_bind]
    rw [runLoop, Hoare.get_bind] at h
    by_cases hempty : s.frames.isEmpty = true
    · rwa [if_pos hempty] at h ⊢
    rw [if_neg hempty] at h ⊢
    cases hstep : step code F s with
    | error e s₁ => rw [Hoare.bind_error hstep] at h; cases h
    | ok u s₁ =>
      rw [Hoare.bind_ok hstep] at h ⊢
      exact runLoop_mono h

theorem call_mono {ω : Type} {code : Code (HostFn ω)} {F : FloatOps} {bodyIdx n k : Nat} {s s' : State ω}
    (h : (pushFrame code bodyIdx >>= fun _ => run code F n) s = .ok true s') :
    (pushFrame code bodyIdx >>= fun _ => run code F (n + k)) s = .ok true s' := by
  cases hp : pushFrame code bodyIdx s with
  | error e s₁ => rw [Hoare.bind_error hp] at h; cases h
  | ok u s₁ =>
    rw [Hoare.bind_ok hp] at h ⊢
    exact runLoop_mono (s := { s₁ with activeMem := s₁.currentPages * PAGE_SIZE }) h

/-- What validation promises of a body that the compiler accepts, types aside: its operations find their
operands, the result is there at the end and the locals exist. -/
structure ValidOps (body : List UInt8) (localCount resultCount : Nat) (ops : List JitOp) : Prop where
  reads : jitOps body = some ops
  stack : StackOk resultCount 0 ops
  locals : ∀ op ∈ ops, ∀ idx ∈ op.local?, idx < localCount

section
variable {ω : Type}

/-- The interpreter, with the arguments of a body in the slots from `base` on and no other frame, and the
machine, called with the same arguments, end with the same result, and neither changes linear memory or
globals: `Elsewhere` is everything but the locals buffer and the stack under the call. -/
def Agrees (code : Code (HostFn ω)) (F : FloatOps) (bodyIdx base : Nat) (jit : List UInt8) (s : State ω)
    (m : X86.Machine) : Prop :=
  ∃ fuel s' fuel' m', (pushFrame code bodyIdx >>= fun _ => run code F fuel) s = .ok true s' ∧
    X86.run fuel' jit m = some m' ∧
    s'.vsp = base + (bodyArity code bodyIdx).2 ∧ s'.mem = s.mem ∧ s'.globals = s.globals ∧
    (∀ a, Elsewhere (7 + STACK_DEPTH) (m.regs .rsp) (m.regs .rdx) a → m'.mem a = m.mem a) ∧
    ((bodyArity code bodyIdx).2 = 1 → m'.regs .rax = s'.vstack (s'.vsp - 1))

variable {code : Code (HostFn ω)} {F : FloatOps} {bodyIdx base : Nat} {body jit : List UInt8}
  {ops : List JitOp} {s : State ω}
  {m : X86.Machine} {c c' : Config} (hbody : code.bodies[bodyIdx]? = some body) (hidx : bodyIdx < MAX_FUNCS)
    (hfit : Fits body)
  (hv : ValidOps body (calleeFrame code bodyIdx base s).localCount (bodyArity code bodyIdx).2 ops)
  (hy : s.yieldRequested = false) (hframes : s.frames = []) (hvsp : s.vsp = base + (bodyArity code bodyIdx).1)
  (hdepth : s.vsp ≤ STACK_DEPTH)
  (hmax : (calleeFrame code bodyIdx base s).localCount ≤ MAX_LOCALS) (hroom : StackFits (STACK_DEPTH - base) 0 ops)
  (hc' : evalOps JitBin.eval32 ops ⟨(calleeFrame code bodyIdx base s).locals, []⟩ = some c')
include hbody hidx hfit hv hy hframes hvsp hdepth hmax hroom hc'

/-- The interpreter returns what the stack machine computes on low halves. -/
theorem interp_run : ∃ n s', (∀ k, (pushFrame code bodyIdx >>= fun _ => run code F (n + k)) s = .ok true s') ∧
    s'.vsp = base + (bodyArity code bodyIdx).2 ∧ s'.mem = s.mem ∧ s'.globals = s.globals ∧
    ((bodyArity code bodyIdx).2 = 1 → c'.stack.head? = some (s'.vstack base)) := by
  have hrc := evalOps_result hv.stack hc'
  -- the state that `run` starts from, with the limit of the memory computed
  have hst₀ : InSlots base s.vstack (Config.mk (calleeFrame code bodyIdx base s).locals []).stack := trivial
  obtain ⟨n, vstack, hst, hrun⟩ := run_body (F := F) { s with vsp := base, activeMem := s.currentPages * PAGE_SIZE }
    (bodyArity code bodyIdx).2 hy hbody hidx hfit hmax hv.reads (by omega) hst₀ hc' hroom (by omega) hv.locals hrc
  have hcall := pushFrame_run code hidx hdepth hvsp (by rw [hframes]; decide) hmax
  rw [hframes] at hcall
  refine ⟨n, _, fun k => (Hoare.bind_ok hcall).trans (runLoop_mono hrun), rfl, rfl, rfl, fun hone => ?_⟩
  obtain ⟨ls, st⟩ := c'
  rw [hone] at hrc
  match st, hrc, hst with
  | v :: st, _, ⟨hv, _⟩ =>
    simp only [hone, copyUp, List.length_cons, Nat.add_zero, upd_self, List.head?_cons, Option.some.injEq]
    exact hv.symm

variable (hjit : jitCompileBody body (calleeFrame code bodyIdx base s).localCount (bodyArity code bodyIdx).2
  MAX_FN_BYTES = some jit)
  (hwhole : (codeBytes (opsCode ops (bodyArity code bodyIdx).2) ++ emitRet).length ≤ MAX_FN_BYTES)
  (hentry : Entry (calleeFrame code bodyIdx base s).locals m)
  (hc : evalOps JitBin.eval64 ops ⟨(calleeFrame code bodyIdx base s).locals, []⟩ = some c)
include hjit hwhole hentry hc

theorem agrees_iff :
    Agrees code F bodyIdx base jit s m ↔ ((bodyArity code bodyIdx).2 = 1 → c.stack.head? = c'.stack.head?) := by
  have hrc := evalOps_result hv.stack hc
  obtain ⟨f, m₁, hm₁, hrax, _, helse⟩ :=
    jit_called hjit hv.reads hwhole hentry.called hc (hroom.mono (Nat.sub_le _ _))
    fun op hop idx hi => Nat.lt_of_lt_of_le (hv.locals op hop idx hi) hmax
  obtain ⟨n, s₁, hs₁, hvsp₁, hmem, hglobals, htop⟩ :=
    interp_run (F := F) hbody hidx hfit hv hy hframes hvsp hdepth hmax hroom hc'
  have hslot : (bodyArity code bodyIdx).2 = 1 → s₁.vsp - 1 = base := fun hone => by omega
  have hhead : (bodyArity code bodyIdx).2 = 1 → c.stack.head? = some (m₁.regs .rax) := by
    intro hone
    rw [hone] at hrc
    match hst : c.stack, hrc with
    | v :: st, _ => rw [hrax v st hone hst]; rfl
  have hsame : (bodyArity code bodyIdx).2 = 1 →
      (m₁.regs .rax = s₁.vstack (s₁.vsp - 1) ↔ c.stack.head? = c'.stack.head?) := by
    intro hone
    rw [hhead hone, htop hone, hslot hone, Option.some.injEq]
  constructor
  · rintro ⟨fuel, s₂, fuel', m₂, hs₂, hm₂, _, _, _, _, heq⟩ hone
    -- both runs are over, so more fuel does not change their ends
    have hm : m₂ = m₁ := by
      have h1 := X86.run_mono (k := fuel') hm₁
      rw [Nat.add_comm, X86.run_mono hm₂] at h1
      exact Option.some.inj h1
    have hs : s₂ = s₁ := by
      have h1 := hs₁ fuel
      rw [Nat.add_comm, call_mono hs₂] at h1
      cases h1
      rfl
    rw [hm, hs] at heq
    exact (hsame hone).mp (heq hone)
  · intro h
    exact ⟨n, s₁, f, m₁, hs₁ 0, hm₁, hvsp₁, hmem, hglobals, helse, fun hone => (hsame hone).mpr (h hone)⟩

end

section
variable {ω : Type}

/-- Compiled and interpreted code agree on every body in which every `i32` operation fits, if the
interpreter has room for the locals and the operands; on the body of a single operation they agree only
then. -/
theorem jit_agrees (code : Code (HostFn ω)) (F : FloatOps) (bodyIdx base : Nat) (body jit : List UInt8)
    (ops : List JitOp)
    (s : State ω) (m : X86.Machine) (hbody : code.bodies[bodyIdx]? = some body) (hidx : bodyIdx < MAX_FUNCS)
    (hfit : Fits body)
    (hv : ValidOps body (calleeFrame code bodyIdx base s).localCount (bodyArity code bodyIdx).2 ops)
    (hjit : jitCompileBody body (calleeFrame code bodyIdx base s).localCount (bodyArity code bodyIdx).2
      MAX_FN_BYTES = some jit)
    (hwhole : (codeBytes (opsCode ops (bodyArity code bodyIdx).2) ++ emitRet).length ≤ MAX_FN_BYTES)
    (hy : s.yieldRequested = false) (hframes : s.frames = []) (hvsp : s.vsp = base + (bodyArity code bodyIdx).1)
    (hdepth : s.vsp ≤ STACK_DEPTH) (hentry : Entry (calleeFrame code bodyIdx base s).locals m)
    (hmax : (calleeFrame code bodyIdx base s).localCount ≤ MAX_LOCALS)
    (hroom : StackFits (STACK_DEPTH - base) 0 ops) :
    (((bodyArity code bodyIdx).2 = 1 → AllFit ops ⟨(calleeFrame code bodyIdx base s).locals, []⟩) →
      Agrees code F bodyIdx base jit s m) ∧
    ∀ b, ops = [.localGet 0, .localGet 1, .bin b] → (bodyArity code bodyIdx).2 = 1 →
      (Agrees code F bodyIdx base jit s m ↔
        b.Fits ((calleeFrame code bodyIdx base s).locals 0) ((calleeFrame code bodyIdx base s).locals 1)) := by
  obtain ⟨c, hc, _⟩ := evalOps_some JitBin.eval64 (c := ⟨(calleeFrame code bodyIdx base s).locals, []⟩) hv.stack
  obtain ⟨c', hc', _⟩ := evalOps_some JitBin.eval32 (c := ⟨(calleeFrame code bodyIdx base s).locals, []⟩) hv.stack
  have hiff := agrees_iff (F := F) hbody hidx hfit hv hy hframes hvsp hdepth hmax hroom hc' hjit hwhole hentry hc
  refine ⟨fun hall => hiff.mpr fun hone => ?_, fun b hops hone => ?_⟩
  · rw [evalOps_agree (hall hone), hc'] at hc
    cases hc
    rfl
  · subst hops
    cases hc
    cases hc'
    rw [hiff, ← eval64_eq_eval32]
    exact ⟨fun h => Option.some.inj (h hone), fun h _ => congrArg some h⟩

end

/-- A module with one function of type `() -> i32`, without locals. -/
def oneFunctionResult (body : List UInt8) : List UInt8 :=
  [0x00, 0x61, 0x73, 0x6D, 0x01, 0x00, 0x00, 0x00, 0x01, 0x05, 0x01, 0x60, 0x00, 0x01, 0x7F, 0x03, 0x02, 0x01,
    0x00, 0x0A] ++
    UInt8.ofNat (body.length + 3) :: 0x01 :: UInt8.ofNat (body.length + 1) :: 0x00 :: body

/-- A machine with empty memory, its stack below the locals. -/
def blankMachine : X86.Machine :=
  ⟨fun r => if r = .rsp then 0x10000 else if r = .rdx then 0x20000 else 0, fun _ => 0⟩

theorem blankMachine_entry : Entry (fun _ => 0) blankMachine := by
  have hread : ∀ a, X86.read64 (fun _ => 0) a = 0 := by
    intro a
    simp [X86.read64, List.range_succ]
  exact ⟨fun k _ => hread _, roomApart_of_below (by decide) (by decide) (by decide)⟩

section
variable (body : List UInt8)

/-- An instance of such a module with the facts about its function. -/
structure ConstFunction (inst : Instance (HostFn Unit)) : Prop where
  spawned : instantiate (fun _ _ => none) (oneFunctionResult body) = .ok inst
  bodies : inst.code.bodies[0]? = some body
  arity : bodyArity inst.code 0 = (0, 1)
  localCounts : inst.code.localCounts.getD 0 0 = 0

variable {body} {inst : Instance (HostFn Unit)} (h : ConstFunction body inst)
include h

theorem ConstFunction.localCount : (calleeFrame inst.code 0 0 (inst.initial ())).localCount = 0 := by
  simp only [calleeFrame, h.arity, h.localCounts]

theorem ConstFunction.locals : (calleeFrame inst.code 0 0 (inst.initial ())).locals = fun _ => 0 := by
  simp only [calleeFrame, h.arity, Nat.not_lt_zero, if_false]

end

theorem jit_agrees_const : ∃ inst jit, ConstFunction [0x41, 0x02, 0x41, 0x03, 0x6A, 0x0B] inst ∧
    jitCompileBody [0x41, 0x02, 0x41, 0x03, 0x6A, 0x0B] 0 1 MAX_FN_BYTES = some jit ∧
      Agrees inst.code default 0 0 jit (inst.initial ()) blankMachine := by
  have hc : ∃ jit, jitCompileBody [0x41, 0x02, 0x41, 0x03, 0x6A, 0x0B] 0 1 MAX_FN_BYTES = some jit :=
    Option.isSome_iff_exists.mp (by decide)
  have hi : ∃ inst, ConstFunction [0x41, 0x02, 0x41, 0x03, 0x6A, 0x0B] inst := ⟨_, rfl, rfl, rfl, rfl⟩
  obtain ⟨jit, hjit⟩ := hc
  obtain ⟨inst, h⟩ := hi
  refine ⟨inst, jit, h, hjit, ?_⟩
  refine (jit_agrees inst.code default 0 0 _ jit [.const 2, .const 3, .bin .add] _ blankMachine h.bodies (by decide)
    (by unfold Fits; decide) ?_ ?_ ?_ rfl rfl ?_ (Nat.zero_le _) ?_ ?_ ?_).1 ?_
  all_goals try simp only [h.arity, h.localCount, h.locals]
  · exact ⟨rfl, by simp [StackOk, JitOp.arity], by simp [JitOp.local?]⟩
  · exact hjit
  · decide
  · rfl
  · exact blankMachine_entry
  · exact Nat.zero_le _
  · simp [StackFits, JitOp.arity, STACK_DEPTH]
  · refine fun _ => ⟨trivial, fun c₁ h₁ => ?_⟩
    cases h₁
    refine ⟨trivial, fun c₂ h₂ => ?_⟩
    cases h₂
    refine ⟨?_, fun _ _ => trivial⟩
    show IsI32 _
    decide

/-- `0x7FFFFFFF + 1` is `-2147483648` for the interpreter and `2147483648` for compiled code. -/
theorem jit_add_overflow :
    ¬ ∀ (code : Code (HostFn Unit)) (F : FloatOps) (bodyIdx base : Nat) (body jit : List UInt8)
    (ops : List JitOp) (s : State Unit) (m : X86.Machine), code.bodies[bodyIdx]? = some body →
    bodyIdx < MAX_FUNCS → Fits body →
    ValidOps body (calleeFrame code bodyIdx base s).localCount (bodyArity code bodyIdx).2 ops →
    jitCompileBody body (calleeFrame code bodyIdx base s).localCount (bodyArity code bodyIdx).2 MAX_FN_BYTES =
    some jit →
    (codeBytes (opsCode ops (bodyArity code bodyIdx).2) ++ emitRet).length ≤ MAX_FN_BYTES →
    s.yieldRequested = false → s.frames = [] → s.vsp = base + (bodyArity code bodyIdx).1 → s.vsp ≤ STACK_DEPTH →
    Entry (calleeFrame code bodyIdx base s).locals m → Agrees code F bodyIdx base jit s m := by
  intro hall
  have hc : ∃ jit, jitCompileBody [0x41, 0xFF, 0xFF, 0xFF, 0xFF, 0x07, 0x41, 0x01, 0x6A, 0x0B] 0 1
      MAX_FN_BYTES = some jit :=
    Option.isSome_iff_exists.mp (by decide)
  have hi : ∃ inst, ConstFunction [0x41, 0xFF, 0xFF, 0xFF, 0xFF, 0x07, 0x41, 0x01, 0x6A, 0x0B] inst :=
    ⟨_, rfl, rfl, rfl, rfl⟩
  obtain ⟨jit, hjit⟩ := hc
  obtain ⟨inst, h⟩ := hi
  have hv : ValidOps [0x41, 0xFF, 0xFF, 0xFF, 0xFF, 0x07, 0x41, 0x01, 0x6A, 0x0B]
      (calleeFrame inst.code 0 0 (inst.initial ())).localCount (bodyArity inst.code 0).2
      [.const 0x7FFFFFFF, .const 1, .bin .add] := by
    rw [h.arity]
    exact ⟨rfl, by simp [StackOk, JitOp.arity], by simp [JitOp.local?]⟩
  have hjit' : jitCompileBody [0x41, 0xFF, 0xFF, 0xFF, 0xFF, 0x07, 0x41, 0x01, 0x6A, 0x0B]
      (calleeFrame inst.code 0 0 (inst.initial ())).localCount (bodyArity inst.code 0).2 MAX_FN_BYTES =
      some jit := by
    rw [h.arity, h.localCount]
    exact hjit
  have hwhole : (codeBytes (opsCode [.const 0x7FFFFFFF, .const 1, .bin .add] (bodyArity inst.code 0).2) ++
      emitRet).length ≤
      MAX_FN_BYTES := by
    rw [h.arity]
    decide
  have hvsp : (inst.initial ()).vsp = 0 + (bodyArity inst.code 0).1 := by
    rw [h.arity]
    rfl
  have hentry : Entry (calleeFrame inst.code 0 0 (inst.initial ())).locals blankMachine := by
    rw [h.locals]
    exact blankMachine_entry
  have hmax : (calleeFrame inst.code 0 0 (inst.initial ())).localCount ≤ MAX_LOCALS := by
    rw [h.localCount]
    exact Nat.zero_le _
  have hagree := hall inst.code default 0 0 _ jit _ (inst.initial ()) blankMachine h.bodies (by decide)
    (by unfold Fits; decide)
    hv hjit' hwhole rfl rfl hvsp (Nat.zero_le _) hentry
  have htop := (agrees_iff h.bodies (by decide) (by unfold Fits; decide) hv rfl rfl hvsp (Nat.zero_le _) hmax
    (by simp [StackFits, JitOp.arity, STACK_DEPTH]) rfl hjit' hwhole hentry rfl).mp hagree (by rw [h.arity])
  exact absurd (Option.some.inj htop) (by decide)

end WasmOs
