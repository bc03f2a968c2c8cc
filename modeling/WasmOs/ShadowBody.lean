import WasmOs.Shadow

/-!
# Shadow runs of compiled bodies

The operations of a compiled body take their operands from the value stack, also those of the caller if their own
are used up. A slot of the caller keeps its value if the last write to it puts that value back.
-/

namespace WasmOs

open Hoare (wp wp_bind wp_pure wp_get wp_set wp_ite wp_mono)

/-! ## What the operations do to the caller -/

/-- What an operation that leaves `c` stores in slot `i` of the value stack: its result, if that slot is the top. -/
def JitOp.stores (op : JitOp) (c : Config) (i : Nat) : Option (BitVec 64) :=
  if 0 < op.arity.2 ∧ i + 1 = c.stack.length then c.stack.head? else none

/-- What the operations store in slot `i` by their last write to it, if there is one. -/
def lastWritten (i : Nat) : List JitOp → Config → Option (BitVec 64)
  | [], _ => none
  | op :: ops, c => do
    let c' ← op.eval JitBin.eval32 c
    (lastWritten i ops c').or (op.stores c' i)

/-- The first `n` slots of the value stack as operands, the last one on top. -/
def operands (vstack : Nat → BitVec 64) : Nat → List (BitVec 64)
  | 0 => []
  | n + 1 => vstack n :: operands vstack n

/-- No slot of the caller is last written with another value than it had. -/
def KeepsCaller (vsp : Nat) (vstack : Nat → BitVec 64) (params : List (BitVec 64)) (ops : List JitOp) : Prop :=
  ∀ i < vsp, ∀ v ∈ lastWritten i ops ⟨fun k => params.getD k 0, operands vstack vsp⟩, v = vstack i

/-- `drop`, `i32.const 7` puts 7 in the place of the caller's 5. -/
example : ¬ KeepsCaller 1 (fun _ => 5) [] [.drop, .const 7] := fun h => absurd (h 0 Nat.one_pos 7 rfl) (by decide)

/-- The locals of the operations exist, and with `d` operands on the stack there is room for all that they push. -/
def OpsFit (localCount room d : Nat) (ops : List JitOp) : Prop :=
  (∀ op ∈ ops, ∀ idx ∈ op.local?, idx < localCount) ∧ StackFits room d ops

/-- With `d` values on the value stack no operation fails. -/
def OpsRun (localCount d : Nat) (ops : List JitOp) : Prop := StackOk 0 d ops ∧ OpsFit localCount STACK_DEPTH d ops

def OpRuns (localCount d : Nat) (op : JitOp) : Prop :=
  (∀ idx ∈ op.local?, idx < localCount) ∧ op.arity.1 ≤ d ∧ d - op.arity.1 + op.arity.2 ≤ STACK_DEPTH

theorem length_operands (vstack : Nat → BitVec 64) : ∀ n, (operands vstack n).length = n
  | 0 => rfl
  | n + 1 => congrArg Nat.succ (length_operands vstack n)

theorem inSlots_operands (vstack : Nat → BitVec 64) : ∀ n, InSlots 0 vstack (operands vstack n)
  | 0 => trivial
  | n + 1 => ⟨by rw [length_operands, Nat.zero_add], inSlots_operands vstack n⟩

theorem opsRun_nil {localCount d : Nat} : OpsRun localCount d [] ↔ d ≤ STACK_DEPTH := by
  simp [OpsRun, OpsFit, StackOk, StackFits]

theorem opsRun_cons {localCount d : Nat} {op : JitOp} {ops : List JitOp} (hd : d ≤ STACK_DEPTH) :
    OpsRun localCount d (op :: ops) ↔
      OpRuns localCount d op ∧ OpsRun localCount (d - op.arity.1 + op.arity.2) ops := by
  unfold OpsRun OpRuns OpsFit
  rw [List.forall_mem_cons]
  constructor
  · rintro ⟨⟨hargs, hok⟩, ⟨hlocal, hlocals⟩, -, hfits⟩
    exact ⟨⟨hlocal, hargs, hfits.le⟩, hok, hlocals, hfits⟩
  · rintro ⟨⟨hlocal, hargs, -⟩, hok, hlocals, hfits⟩
    exact ⟨⟨hargs, hok⟩, ⟨hlocal, hlocals⟩, hd, hfits⟩

theorem upd_back (vstack : Nat → BitVec 64) (i : Nat) : upd vstack i (vstack i) = vstack := by
  funext k
  by_cases hk : k = i
  · subst hk
    exact upd_self ..
  · exact upd_of_ne _ _ hk

section
variable {op : JitOp} {c : Config} {vstack : Nat → BitVec 64} {st : List (BitVec 64)} {v : BitVec 64}

theorem InSlots.top (h : InSlots 0 vstack (v :: st)) : vstack st.length = v := by
  have hv := h.1
  rwa [Nat.zero_add] at hv

theorem InSlots.pushed (h : InSlots 0 vstack st) (v : BitVec 64) :
    InSlots 0 (WasmOs.upd vstack st.length v) (v :: st) := by
  have hpush := h.push v
  rwa [Nat.zero_add] at hpush

theorem upd_stores (hop : 0 < op.arity.2) (hc : c.stack = v :: st) (i : Nat) :
    upd vstack st.length v i = (op.stores c i).getD (vstack i) := by
  unfold JitOp.stores
  rw [hc, List.length_cons, List.head?_cons]
  by_cases hi : i = st.length
  · subst hi
    rw [if_pos ⟨hop, rfl⟩, upd_self]
    rfl
  · rw [if_neg (by omega), upd_of_ne _ _ hi]
    rfl

theorem stores_none (hop : op.arity.2 = 0) (i : Nat) : (op.stores c i).getD (vstack i) = vstack i := by
  unfold JitOp.stores
  rw [if_neg (by omega)]
  rfl

end

/-! ## The run of the callee -/

section
variable {ω : Type} {code : Code (HostFn ω)} {F : FloatOps}

/-- The interpreter between two operations of the callee `fr`, called from `s₀`. -/
def inCallee (s₀ : State ω) (fr : Frame) (ip : Nat) (c : Config) (vstack : Nat → BitVec 64) : State ω :=
  { s₀ with vstack, vsp := c.stack.length, frames := { fr with pc := ip, locals := c.locals } :: s₀.frames }

variable {s₀ : State ω} {fr : Frame} {body : List UInt8} {ip ip' : Nat} {op : JitOp} {c : Config}
  {vstack : Nat → BitVec 64}

/-- The operation takes its operands from the value stack, whoever has put them there. -/
theorem step_inCallee (hy : s₀.yieldRequested = false) (hbody : code.bodies[fr.bodyIdx]? = some body)
    (hidx : fr.bodyIdx < MAX_FUNCS)
    (hfit : Fits body) (hmax : fr.localCount ≤ MAX_LOCALS) (hat : OpAt body ip op ip')
    (hst : InSlots 0 vstack c.stack) (hd : c.stack.length ≤ STACK_DEPTH) :
    wp (step code F)
      (fun _ s' => OpRuns fr.localCount c.stack.length op ∧ ∃ c' vstack', op.eval JitBin.eval32 c = some c' ∧
        InSlots 0 vstack' c'.stack ∧ (∀ i, vstack' i = (op.stores c' i).getD (vstack i)) ∧
        s' = inCallee s₀ fr ip' c' vstack')
      (fun e _ => ¬ OpRuns fr.localCount c.stack.length op ∧ ∃ err, e = .err err) (inCallee s₀ fr ip c vstack) := by
  obtain ⟨ls, st⟩ := c
  have hidle : (inCallee s₀ fr ip ⟨ls, st⟩ vstack).yieldRequested = false := hy
  have hnone : ∀ {op : JitOp} {n : Nat}, st.length < n → op.arity.1 = n → ¬ OpRuns fr.localCount st.length op := by
    rintro op n hlt rfl ⟨-, hargs, -⟩
    omega
  -- what a push leads to
  have hpush : ∀ {op : JitOp} {ls : Nat → BitVec 64} {st' : List (BitVec 64)} {v : BitVec 64}, 0 < op.arity.2 →
      op.eval JitBin.eval32 ⟨ls, st⟩ = some ⟨ls, v :: st'⟩ → InSlots 0 vstack st' →
      ∃ c' vstack', op.eval JitBin.eval32 ⟨ls, st⟩ = some c' ∧ InSlots 0 vstack' c'.stack ∧
        (∀ i, vstack' i = (op.stores c' i).getD (vstack i)) ∧
        inCallee s₀ fr ip' ⟨ls, v :: st'⟩ (upd vstack st'.length v) = inCallee s₀ fr ip' c' vstack' :=
    fun hop heval hst' => ⟨_, _, heval, hst'.pushed _, upd_stores hop rfl, rfl⟩
  have hfull : ∀ {op : JitOp}, op.arity = (0, 1) → STACK_DEPTH ≤ st.length →
      ¬ OpRuns fr.localCount st.length op := by
    rintro op hop hle ⟨-, -, hroom⟩
    rw [hop] at hroom
    simp only at hroom
    omega
  cases hat with
  | i32Const hb hr =>
    refine wp_step hidle rfl hbody hidx hb
      ((wp_bind _).mpr ((wp_bind _).mpr ((wp_lift_ok (readAt_immediate readI32Leb128_bounds hfit hb hr)).mpr ?_)))
    refine (wp_bind _).mpr (wp_vPush.mpr ⟨fun hle => ⟨hfull rfl hle, _, rfl⟩, fun hlt =>
      wp_seq rfl ⟨⟨nofun, Nat.zero_le _, hlt⟩, ?_⟩⟩)
    exact hpush Nat.one_pos rfl hst
  | i64Const hb hr =>
    refine wp_step hidle rfl hbody hidx hb
      ((wp_bind _).mpr ((wp_bind _).mpr ((wp_lift_ok (readAt_immediate readI64Leb128_bounds hfit hb hr)).mpr ?_)))
    refine (wp_bind _).mpr (wp_vPush.mpr ⟨fun hle => ⟨hfull rfl hle, _, rfl⟩, fun hlt =>
      wp_seq rfl ⟨⟨nofun, Nat.zero_le _, hlt⟩, ?_⟩⟩)
    exact hpush Nat.one_pos rfl hst
  | @localGet idx _ hb hr =>
    refine wp_step hidle rfl hbody hidx hb ((wp_bind _).mpr ((wp_bind _).mpr
      ((wp_lift_ok (readAt_immediate (fun h => (readU32Leb128_bounds h).2.2) hfit hb hr)).mpr ?_)))
    refine wp_ite.mpr ⟨fun hbad => ⟨fun hok => ?_, _, rfl⟩, fun hlocal => wp_ite.mpr ⟨fun hbad => ?_, fun _ => ?_⟩⟩
    · exact absurd (hok.1 idx rfl) (Nat.not_lt.mpr hbad)
    · simp only at hlocal
      omega
    refine (wp_bind _).mpr (wp_vPush.mpr ⟨fun hle => ⟨hfull rfl hle, _, rfl⟩, fun hlt =>
      wp_seq rfl ⟨⟨?_, Nat.zero_le _, hlt⟩, ?_⟩⟩)
    · rintro _ ⟨⟩
      exact Nat.lt_of_not_le hlocal
    · exact hpush Nat.one_pos rfl hst
  | @localSet idx _ hb hr =>
    refine wp_step hidle rfl hbody hidx hb ((wp_bind _).mpr ((wp_bind _).mpr
      ((wp_lift_ok (readAt_immediate (fun h => (readU32Leb128_bounds h).2.2) hfit hb hr)).mpr ?_)))
    refine wp_ite.mpr ⟨fun hbad => ⟨fun hok => absurd (hok.1 idx rfl) (Nat.not_lt.mpr hbad), _, rfl⟩,
      fun hlocal => ?_⟩
    refine (wp_bind _).mpr
      ((wp_vPop hd).mpr ⟨fun h0 => ⟨hnone (Nat.lt_of_le_of_lt (Nat.le_of_eq h0) Nat.one_pos) rfl, _, rfl⟩,
      fun n hn => ?_⟩)
    refine wp_ite.mpr ⟨fun hbad => ?_, fun _ => ?_⟩
    · simp only at hlocal
      omega
    match st, hst, hd, hn with
    | v :: st, hst, hd, hn =>
      obtain rfl : st.length = n := Nat.succ.inj hn
      have hlocal' : ∀ i ∈ (JitOp.localSet idx).local?, i < fr.localCount := by
        rintro _ ⟨⟩
        exact Nat.lt_of_not_le hlocal
      refine (wp_bind _).mpr ((wp_setFrame rfl).mpr (wp_seq rfl ⟨⟨hlocal', Nat.succ_pos _, ?_⟩, ?_⟩))
      · exact Nat.le_of_succ_le hd
      · exact ⟨⟨upd ls idx v, st⟩, vstack, rfl, hst.2, fun i => (stores_none rfl i).symm, by rw [← hst.top]; rfl⟩
  | @localTee idx _ hb hr =>
    refine wp_step hidle rfl hbody hidx hb ((wp_bind _).mpr ((wp_bind _).mpr
      ((wp_lift_ok (readAt_immediate (fun h => (readU32Leb128_bounds h).2.2) hfit hb hr)).mpr ?_)))
    refine wp_ite.mpr ⟨fun hbad => ⟨fun hok => absurd (hok.1 idx rfl) (Nat.not_lt.mpr hbad), _, rfl⟩,
      fun hlocal => ?_⟩
    refine (wp_bind _).mpr
      (wp_get.mpr (wp_ite.mpr ⟨fun h0 => ⟨hnone (Nat.lt_of_le_of_lt (Nat.le_of_eq h0) Nat.one_pos) rfl, _,
      rfl⟩, fun h0 => ?_⟩))
    refine wp_ite.mpr ⟨fun hbad => ?_, fun _ => ?_⟩
    · rcases hbad with hbad | hbad
      · exact absurd hd (Nat.not_le.mpr hbad)
      · simp only at hlocal
        omega
    match st, hst, hd, h0 with
    | [], _, _, h0 => exact absurd rfl h0
    | v :: st, hst, hd, _ =>
      have hlocal' : ∀ i ∈ (JitOp.localTee idx).local?, i < fr.localCount := by
        rintro _ ⟨⟩
        exact Nat.lt_of_not_le hlocal
      refine (wp_bind _).mpr ((wp_setFrame rfl).mpr (wp_seq rfl ⟨⟨hlocal', Nat.succ_pos _, hd⟩, ?_⟩))
      refine ⟨⟨upd ls idx v, v :: st⟩, vstack, rfl, hst, fun i => ?_, by rw [← hst.top]; rfl⟩
      -- the value is written back to where it is
      have hone : 0 < (JitOp.localTee idx).arity.2 := Nat.one_pos
      rw [← upd_stores (c := ⟨upd ls idx v, v :: st⟩) hone rfl i, ← hst.top]
      exact (congrFun (upd_back vstack st.length) i).symm
  | drop hb =>
    refine wp_step hidle rfl hbody hidx hb ((wp_bind _).mpr ((wp_bind _).mpr ((wp_vPop hd).mpr
      ⟨fun h0 => ⟨hnone (Nat.lt_of_le_of_lt (Nat.le_of_eq h0) Nat.one_pos) rfl, _, rfl⟩, fun n hn => ?_⟩)))
    match st, hst, hd, hn with
    | v :: st, hst, hd, hn =>
      obtain rfl : st.length = n := Nat.succ.inj hn
      refine wp_seq rfl ⟨⟨nofun, Nat.succ_pos _, Nat.le_of_succ_le hd⟩, ⟨ls, st⟩, vstack, rfl, hst.2, ?_, rfl⟩
      exact fun i => (stores_none rfl i).symm
  | nop hb =>
    refine wp_step hidle rfl hbody hidx hb
      ((wp_bind _).mpr (wp_seq rfl ⟨⟨nofun, Nat.zero_le _, hd⟩, ⟨ls, st⟩, vstack, rfl, hst, ?_, rfl⟩))
    exact fun i => (stores_none rfl i).symm
  | @bin _ b hb hop =>
    refine wp_step hidle rfl hbody hidx hb ?_
    rw [decodeOp_bin hop]
    refine (wp_bind _).mpr ((wp_bind _).mpr ((wp_bind _).mpr ((wp_vPop hd).mpr
      ⟨fun h0 => ⟨hnone (Nat.lt_of_le_of_lt (Nat.le_of_eq h0) Nat.two_pos) rfl, _, rfl⟩, fun n hn => ?_⟩)))
    refine (wp_bind _).mpr ((wp_vPop (Nat.le_of_succ_le (hn.symm.trans_le hd))).mpr
      ⟨fun h0 => ⟨hnone (Nat.lt_of_le_of_lt (Nat.le_of_eq (hn.trans (congrArg Nat.succ h0))) Nat.one_lt_two)
      rfl, _, rfl⟩, fun k hk => ?_⟩)
    match st, hst, hd, hn with
    | y :: x :: st, hst, hd, hn =>
      obtain rfl : (x :: st).length = n := Nat.succ.inj hn
      obtain rfl : st.length = k := Nat.succ.inj hk
      refine wp_vPush.mpr ⟨fun hfull => ?_, fun _ => wp_seq rfl ⟨⟨nofun, Nat.le_add_left 2 _, ?_⟩, ?_⟩⟩
      · simp only [List.length_cons] at hfull hd
        omega
      · exact Nat.le_of_succ_le hd
      · refine ⟨⟨ls, b.eval32 x y :: st⟩, _, rfl, hst.2.2.pushed _, upd_stores Nat.one_pos rfl, ?_⟩
        rw [← hst.top, ← InSlots.top hst.2]
        rfl

/-- The callee returns, with what is on top of the stack, or panics because there is no room for its result. -/
theorem step_returned (hy : s₀.yieldRequested = false) (hbody : code.bodies[fr.bodyIdx]? = some body)
    (hidx : fr.bodyIdx < MAX_FUNCS)
    (hctrl : fr.ctrlBase = s₀.ctrlDepth) (hbase : fr.vspBase ≤ STACK_DEPTH) (hstop : StopAt body ip)
    (hd : c.stack.length ≤ STACK_DEPTH) :
    wp (step code F)
      (fun _ s' => fr.vspBase + fr.resultCount ≤ STACK_DEPTH ∧ ∃ vstack', (∀ i < fr.vspBase, vstack' i = vstack i) ∧
        s' = { s₀ with vstack := vstack', vsp := fr.vspBase + fr.resultCount })
      (fun e _ => ¬ fr.vspBase + fr.resultCount ≤ STACK_DEPTH ∧ e = .panic) (inCallee s₀ fr ip c vstack) := by
  have hreturn : wp doReturn
      (fun _ s' => fr.vspBase + fr.resultCount ≤ STACK_DEPTH ∧ ∃ vstack', (∀ i < fr.vspBase, vstack' i = vstack i) ∧
        s' = { s₀ with vstack := vstack', vsp := fr.vspBase + fr.resultCount })
      (fun e _ => ¬ fr.vspBase + fr.resultCount ≤ STACK_DEPTH ∧ e = .panic) (inCallee s₀ fr ip c vstack) := by
    refine (wp_bind _).mpr (wp_get.mpr (wp_ite.mpr ⟨fun hbad => ⟨?_, rfl⟩, fun hroom => (wp_set _).mpr ⟨?_, ?_⟩⟩))
    · have hsrc : (inCallee s₀ fr ip c vstack).vsp ≤ STACK_DEPTH := hd
      simp only at hbad
      omega
    · simp only at hroom
      omega
    · exact ⟨_, fun i hi => copyUp_below vstack hi _, by rw [← hctrl]; rfl⟩
  rcases hstop with hb | hb | ⟨hb, _⟩
  · exact (Hoare.wp_congr (step_end (s := inCallee s₀ fr ip c vstack) hy rfl hbody hidx
      (List.getElem?_eq_none_iff.mp hb))).mpr hreturn
  · exact (Hoare.wp_congr (step_dispatch (s := inCallee s₀ fr ip c vstack) hy rfl hbody hidx hb)).mpr
      ((wp_bind _).mpr hreturn)
  · refine (Hoare.wp_congr (step_dispatch (s := inCallee s₀ fr ip c vstack) hy rfl hbody hidx hb)).mpr
      ((wp_bind _).mpr ((wp_bind _).mpr (wp_get.mpr (wp_ite.mpr ⟨fun hbad => ?_, fun _ => hreturn⟩))))
    have hlt : s₀.ctrlDepth < s₀.ctrlDepth := hctrl ▸ hbad
    exact absurd hlt (Nat.lt_irrefl _)

/-- The operations of a body run to the return if none of them fails and there is room for the result. A slot
of the caller then has what was last written to it. -/
theorem runToStop_compiled (hy : s₀.yieldRequested = false) (hbody : code.bodies[fr.bodyIdx]? = some body)
    (hidx : fr.bodyIdx < MAX_FUNCS)
    (hfit : Fits body) (hmax : fr.localCount ≤ MAX_LOCALS) (hctrl : fr.ctrlBase = s₀.ctrlDepth)
    (hbase : fr.vspBase ≤ STACK_DEPTH) :
    ∀ {fuel ip : Nat} {ops : List JitOp} {c : Config} {vstack : Nat → BitVec 64},
    jitOps.loop body fuel ip = some ops →
    body.length ≤ ip + fuel → InSlots 0 vstack c.stack → c.stack.length ≤ STACK_DEPTH →
    ∃ n, wp (runToStop code F n)
      (fun done t => done = true ∧
        (OpsRun fr.localCount c.stack.length ops ∧ fr.vspBase + fr.resultCount ≤ STACK_DEPTH) ∧
        ∃ vstack', (∀ i < fr.vspBase, vstack' i = (lastWritten i ops c).getD (vstack i)) ∧
          t.interp = { s₀ with vstack := vstack', vsp := fr.vspBase + fr.resultCount })
      (fun e _ => ¬ OpsRun fr.localCount c.stack.length ops ∧ (∃ err, e = .err err) ∨
        OpsRun fr.localCount c.stack.length ops ∧ ¬ fr.vspBase + fr.resultCount ≤ STACK_DEPTH ∧ e = .panic)
      ⟨inCallee s₀ fr ip c vstack, s₀.frames.length⟩ := by
  intro fuel
  -- one round, if the frame of the callee is there
  have hround : ∀ {n ip : Nat} {c : Config} {vstack : Nat → BitVec 64} {Q E},
      wp (step code F) (fun _ s' => wp (runToStop code F n) Q E ⟨s', s₀.frames.length⟩)
      (fun e s' => E e ⟨s', s₀.frames.length⟩)
        (inCallee s₀ fr ip c vstack) →
      wp (runToStop code F (n + 1)) Q E ⟨inCallee s₀ fr ip c vstack, s₀.frames.length⟩ := by
    intro n ip c vstack Q E h
    refine (wp_bind _).mpr (wp_get.mpr (wp_ite.mpr ⟨fun hbad => ?_, fun _ => (wp_bind _).mpr (wp_onInterp.mpr h)⟩))
    exact absurd hbad (Nat.not_succ_le_self _)
  have hlast : ∀ {ip : Nat} {c : Config} {vstack : Nat → BitVec 64}, StopAt body ip → c.stack.length ≤ STACK_DEPTH →
      ∃ n, wp (runToStop code F n)
        (fun done t => done = true ∧
          (OpsRun fr.localCount c.stack.length [] ∧ fr.vspBase + fr.resultCount ≤ STACK_DEPTH) ∧
          ∃ vstack', (∀ i < fr.vspBase, vstack' i = (lastWritten i [] c).getD (vstack i)) ∧
            t.interp = { s₀ with vstack := vstack', vsp := fr.vspBase + fr.resultCount })
        (fun e _ => ¬ OpsRun fr.localCount c.stack.length [] ∧ (∃ err, e = .err err) ∨
          OpsRun fr.localCount c.stack.length [] ∧ ¬ fr.vspBase + fr.resultCount ≤ STACK_DEPTH ∧ e = .panic)
        ⟨inCallee s₀ fr ip c vstack, s₀.frames.length⟩ := by
    intro ip c vstack hstop hd
    refine ⟨1, hround (wp_mono (fun _ s' hret => ?_) (fun _ _ h => .inr ⟨opsRun_nil.mpr hd, h⟩)
      (step_returned hy hbody hidx hctrl hbase hstop hd))⟩
    obtain ⟨hroom, vstack', hbelow, rfl⟩ := hret
    refine (wp_bind _).mpr
      (wp_get.mpr ((wp_pure _).mpr ⟨decide_eq_true (Nat.le_refl _), ⟨opsRun_nil.mpr hd, hroom⟩, ?_⟩))
    exact ⟨vstack', hbelow, rfl⟩
  induction fuel with
  | zero =>
    intro ip ops c vstack hops hlen hst hd
    cases hops
    exact hlast (.inl (List.getElem?_eq_none (by omega))) hd
  | succ fuel ih =>
    intro ip ops c vstack hops hlen hst hd
    rcases jitOps_cases hops with ⟨rfl, hstop⟩ | ⟨op, ip', ops', hat, hops', rfl⟩
    · exact hlast hstop hd
    have hstep := step_inCallee (F := F) hy hbody hidx hfit hmax hat hst hd
    rw [opsRun_cons hd]
    cases hr : step code F (inCallee s₀ fr ip c vstack) with
    | error e s' =>
      obtain ⟨hno, herr⟩ := Hoare.wp_error hstep hr
      refine ⟨1, hround ?_⟩
      unfold wp
      rw [hr]
      exact .inl ⟨fun h => hno h.1, herr⟩
    | ok _ s' =>
      obtain ⟨hruns, c', vstack', heval, hst', hslots, rfl⟩ := Hoare.wp_ok hstep hr
      obtain ⟨-, hlength⟩ := eval_length heval
      obtain ⟨n, hn⟩ := ih hops' (by have := hat.lt; omega) hst' (by rw [hlength]; exact hruns.2.2)
      rw [hlength] at hn
      refine ⟨n + 1, hround ?_⟩
      unfold wp
      rw [hr]
      refine wp_mono (fun done t h => ?_) (fun e t h => ?_) hn
      · obtain ⟨hdone, ⟨hrest, hroom⟩, vstack'', hkept, hback⟩ := h
        refine ⟨hdone, ⟨⟨hruns, hrest⟩, hroom⟩, vstack'', fun i hi => ?_, hback⟩
        have hlater : lastWritten i (op :: ops') c = (lastWritten i ops' c').or (op.stores c' i) := by
          rw [lastWritten, heval]
          rfl
        rw [hkept i hi, hslots i, hlater]
        cases lastWritten i ops' c' <;> rfl
      · exact h.imp (fun h => ⟨fun hall => h.1 hall.2, h.2⟩) fun h => ⟨⟨hruns, h.1⟩, h.2⟩

/-- The callee, called from `s`, runs to its return if no yield is requested, none of its operations fails and
there is room for its result. -/
theorem callee_runs {calleeBody base : Nat} {s : State ω} {ops : List JitOp} (hidx : calleeBody < MAX_FUNCS)
    (hbase : base ≤ STACK_DEPTH)
    (hbody : code.bodies[calleeBody]? = some body) (hfit : Fits body) (hops : jitOps body = some ops)
    (hmax : localsOf code calleeBody ≤ MAX_LOCALS) :
    ∃ n, wp (runToStop code F n)
      (fun done t => done = true ∧ (s.yieldRequested = false ∧ OpsRun (localsOf code calleeBody) base ops ∧
          base + (bodyArity code calleeBody).2 ≤ STACK_DEPTH) ∧
        ∃ vstack', (∀ i < base, vstack' i =
            (lastWritten i ops ⟨(calleeFrame code calleeBody base s).locals, operands s.vstack base⟩).getD
            (s.vstack i)) ∧
          t.interp = { s with
            vstack := vstack', vsp := base + (bodyArity code calleeBody).2,
            activeMem := s.currentPages * PAGE_SIZE })
      (fun e _ => ¬ (s.yieldRequested = false ∧ OpsRun (localsOf code calleeBody) base ops) ∧
        (∃ err, e = .err err) ∨
        OpsRun (localsOf code calleeBody) base ops ∧ ¬ base + (bodyArity code calleeBody).2 ≤ STACK_DEPTH ∧
        e = .panic)
      ⟨{ s with vsp := base, frames := calleeFrame code calleeBody base s :: s.frames,
                activeMem := s.currentPages * PAGE_SIZE },
        s.frames.length⟩ := by
  have hlength := length_operands s.vstack base
  have hstart : ({ s with
      vsp := base, frames := calleeFrame code calleeBody base s :: s.frames,
      activeMem := s.currentPages * PAGE_SIZE } : State ω) =
      inCallee { s with activeMem := s.currentPages * PAGE_SIZE } (calleeFrame code calleeBody base s) 0
        ⟨(calleeFrame code calleeBody base s).locals, operands s.vstack base⟩ s.vstack := by
    unfold inCallee
    rw [hlength]
    rfl
  by_cases hy : s.yieldRequested = false
  · -- the run of the callee, from its first operation on
    have hy' : ({ s with activeMem := s.currentPages * PAGE_SIZE } : State ω).yieldRequested = false := hy
    have hfr : code.bodies[(calleeFrame code calleeBody base s).bodyIdx]? = some body := hbody
    obtain ⟨n, hn⟩ :=
      runToStop_compiled (F := F) (c := ⟨(calleeFrame code calleeBody base s).locals, operands s.vstack base⟩)
        hy' hfr hidx
      hfit hmax rfl hbase hops (by omega) (inSlots_operands s.vstack base) (hlength.trans_le hbase)
    rw [hlength, ← hstart] at hn
    refine ⟨n, wp_mono (fun done t h => ⟨h.1, ⟨hy, h.2.1⟩, h.2.2⟩) (fun e t h => ?_) hn⟩
    exact h.imp (fun h => ⟨fun hall => h.1 hall.2, h.2⟩) id
  · -- the first round finds the request to yield
    let s₁ : State ω :=
      { s with vsp := base, frames := calleeFrame code calleeBody base s :: s.frames,
               activeMem := s.currentPages * PAGE_SIZE }
    have hyield : step code F s₁ = .error (.err .yielded) { s₁ with yieldRequested := false } :=
      Hoare.eq_of_wp ((wp_bind _).mpr
        (wp_get.mpr (wp_ite.mpr ⟨fun _ => rfl, fun hno => absurd (Bool.eq_false_iff.mpr hno) hy⟩)))
    refine ⟨1, (wp_bind _).mpr
      (wp_get.mpr (wp_ite.mpr ⟨fun hbad => ?_, fun _ => (wp_bind _).mpr (wp_onInterp.mpr ?_)⟩))⟩
    · exact absurd hbad (Nat.not_succ_le_self _)
    · unfold wp
      rw [hyield]
      exact .inl ⟨fun h => hy h.1, .yielded, rfl⟩

end

/-! ## Bodies that keep to their operands -/

section
variable {rc n base : Nat}

/-- Operands that the operations find above `base` they find on the whole stack. -/
theorem StackOk.above (base : Nat) : ∀ {ops : List JitOp} {d : Nat}, StackOk rc d ops → StackOk 0 (base + d) ops
  | [], _, _ => Nat.zero_le _
  | op :: ops, d, ⟨hargs, hok⟩ => by
    have hrest := StackOk.above base hok
    refine ⟨Nat.le_add_left_of_le hargs, ?_⟩
    rwa [show base + d - op.arity.1 + op.arity.2 = base + (d - op.arity.1 + op.arity.2) by omega]

theorem stackFits_above : ∀ {ops : List JitOp} {d : Nat}, StackOk rc d ops → base ≤ n →
    (StackFits n (base + d) ops ↔ StackFits (n - base) d ops)
  | [], d, _, hbase => by
    unfold StackFits
    omega
  | op :: ops, d, ⟨hargs, hok⟩, hbase => by
    have hrest := stackFits_above hok hbase
    unfold StackFits
    rw [← hrest, show base + d - op.arity.1 + op.arity.2 = base + (d - op.arity.1 + op.arity.2) by omega]
    refine and_congr_left' ?_
    omega

theorem room_of_fits : ∀ {ops : List JitOp} {d : Nat}, StackOk rc d ops → StackFits n d ops → rc ≤ n
  | [], _, hok, hfits => Nat.le_trans hok hfits
  | _ :: _, _, hok, hfits => room_of_fits hok.2 hfits.2

theorem lastWritten_below {i : Nat} (hi : i < base) :
    ∀ {ops : List JitOp} {c : Config} {d : Nat}, StackOk rc d ops →
    c.stack.length = base + d → lastWritten i ops c = none
  | [], _, _, _, _ => rfl
  | op :: ops, c, d, ⟨hargs, hok⟩, hc => by
    unfold lastWritten
    cases heval : op.eval JitBin.eval32 c with
    | none => rfl
    | some c' =>
      have hlength := (eval_length heval).2
      have hstores : op.stores c' i = none := if_neg fun ⟨hpos, htop⟩ => by omega
      have hrest := lastWritten_below (c := c') hi hok (by omega)
      show (lastWritten i ops c').or (op.stores c' i) = none
      rw [hrest, hstores]
      rfl

theorem opsRun_iff {localCount : Nat} {ops : List JitOp} (hok : StackOk rc 0 ops) (hbase : base ≤ STACK_DEPTH) :
    OpsRun localCount base ops ↔ OpsFit localCount (STACK_DEPTH - base) 0 ops := by
  have habove := hok.above base
  have hfits := stackFits_above hok hbase
  rw [Nat.add_zero] at habove hfits
  unfold OpsRun OpsFit
  rw [hfits, and_iff_right habove]

theorem keepsCaller_of_ok {ops : List JitOp} (hok : StackOk rc 0 ops) (vsp : Nat) (vstack : Nat → BitVec 64)
    (params : List (BitVec 64)) :
    KeepsCaller vsp vstack params ops := by
  intro i hi v hv
  rw [lastWritten_below hi hok (length_operands vstack vsp)] at hv
  cases hv

end

theorem operands_congr {v w : Nat → BitVec 64} : ∀ {n : Nat}, (∀ i < n, v i = w i) → operands v n = operands w n
  | 0, _ => rfl
  | n + 1, h => by
    rw [operands, operands, h n (Nat.lt_succ_self n), operands_congr fun i hi => h i (Nat.lt_succ_of_lt hi)]

/-! ## The shadow run -/

section
variable {ω : Type} {code : Code (HostFn ω)} {F : FloatOps} {body : List UInt8} {ops : List JitOp}
  {calleeBody : Nat}

theorem callee_ends {base : Nat} {s : State ω} (hidx : calleeBody < MAX_FUNCS) (hbase : base ≤ STACK_DEPTH)
    (hbody : code.bodies[calleeBody]? = some body) (hfit : Fits body) (hops : jitOps body = some ops)
    (hok : StackOk (bodyArity code calleeBody).2 0 ops) (hmax : localsOf code calleeBody ≤ MAX_LOCALS) :
    ∃ n, wp (runToStop code F n)
      (fun done t => done = true ∧ t.interp.vsp ≤ STACK_DEPTH ∧ t.interp.vsp = base + (bodyArity code calleeBody).2)
      (fun e _ => ∃ err, e = .err err)
      ⟨{ s with vsp := base, frames := calleeFrame code calleeBody base s :: s.frames,
                activeMem := s.currentPages * PAGE_SIZE },
        s.frames.length⟩ := by
  obtain ⟨n, hn⟩ := callee_runs (F := F) (s := s) hidx hbase hbody hfit hops hmax
  refine ⟨n, wp_mono (fun done t h => ?_) (fun e t h => ?_) hn⟩
  · obtain ⟨hdone, ⟨-, -, hroom⟩, vstack', -, hback⟩ := h
    rw [hback]
    exact ⟨hdone, hroom, rfl⟩
  · obtain ⟨-, herr⟩ | ⟨hruns, hno, -⟩ := h
    · exact herr
    · have hfits := (opsRun_iff hok hbase).mp hruns
      have hroom := room_of_fits hok hfits.2
      omega

variable {params : List (BitVec 64)} {t : Shadowed ω}

theorem neutral_of_entered (hidx : calleeBody < MAX_FUNCS) (hv : t.interp.vsp ≤ STACK_DEPTH)
    (hbody : code.bodies[calleeBody]? = some body)
    (hfit : Fits body) (hops : jitOps body = some ops) (hone : (bodyArity code calleeBody).2 ≤ 1)
    (hparams : params.length = (bodyArity code calleeBody).1)
    (hnot : ¬ NotEntered code calleeBody params t.interp) :
    Neutral code F calleeBody params (bodyArity code calleeBody).2 t ↔
      t.interp.yieldRequested = false ∧ OpsRun (localsOf code calleeBody) t.interp.vsp ops ∧
        t.interp.vsp + (bodyArity code calleeBody).2 ≤ STACK_DEPTH ∧
        KeepsCaller t.interp.vsp t.interp.vstack params ops := by
  obtain ⟨vstack, fr, base, hsame, hvalues, hbase, hfr, hmax, henter, hfinish⟩ :=
    runShadow_entered (F := F) hidx hv hnot
  obtain rfl : t.interp.vsp = base := by omega
  subst hfr
  -- the callee starts from the parameters and the values of the caller
  have hlocals : (calleeFrame code calleeBody t.interp.vsp
      { t.interp with vstack, vsp := t.interp.vsp + params.length }).locals =
      fun k => params.getD k 0 := by
    funext k
    unfold calleeFrame
    by_cases hk : k < (bodyArity code calleeBody).1
    · exact (if_pos hk).trans (hvalues k (by omega))
    · refine (if_neg hk).trans ?_
      rw [List.getD_eq_getElem?_getD, List.getElem?_eq_none (by omega)]
      rfl
  have hoperands : operands vstack t.interp.vsp = operands t.interp.vstack t.interp.vsp := operands_congr hsame
  obtain ⟨n, hn⟩ := callee_runs (F := F) (s := { t.interp with vstack, vsp := t.interp.vsp + params.length })
    hidx hv hbody hfit hops hmax
  rw [hlocals] at hn
  simp only [hoperands] at hn
  cases hrun : runToStop code F n ⟨{ t.interp with
      vstack, vsp := t.interp.vsp, activeMem := t.interp.currentPages * PAGE_SIZE
      frames := calleeFrame code calleeBody t.interp.vsp
        { t.interp with vstack, vsp := t.interp.vsp + params.length } :: t.interp.frames },
      t.interp.frames.length⟩ with
  | error e t' =>
    obtain ⟨hno, err, rfl⟩ | ⟨-, hno, rfl⟩ := Hoare.wp_error hn hrun
    · exact iff_of_false (not_neutral_of_traps hidx hv ⟨_, n, err, t', henter, hrun⟩) fun h => hno ⟨h.1, h.2.1⟩
    · exact iff_of_false (not_neutral_of_panic hidx hv henter hrun) fun h => hno h.2.2.1
  | ok done t' =>
    obtain ⟨rfl, ⟨hy, hruns, hroom⟩, vstack', hkept, hback⟩ := Hoare.wp_ok hn hrun
    have hvsp : t'.interp.vsp = t.interp.vsp + (bodyArity code calleeBody).2 := by
      rw [hback]
    obtain ⟨r, _, hfin⟩ := finish_of_ok t (bodyArity code calleeBody).2
      (t := ⟨{ t.interp with vstack,
                             frames := calleeFrame code calleeBody t.interp.vsp _ :: t.interp.frames },
                               t.interp.frames.length⟩)
      _ rfl hrun (hvsp.trans_le hroom) hvsp hone
    have hends := (hfinish (bodyArity code calleeBody).2 n).trans hfin
    rw [hback] at hends
    have hlast : ∀ i < t.interp.vsp, vstack' i =
        (lastWritten i ops ⟨fun k => params.getD k 0, operands t.interp.vstack t.interp.vsp⟩).getD
        (t.interp.vstack i) :=
      fun i hi => (hkept i hi).trans (congrArg _ (hsame i hi))
    constructor
    · rintro ⟨fuel, r', t₂, hrun₂, hunchanged⟩
      obtain ⟨-, -, -, -, -, heq⟩ := ran_of_ends hidx hv henter hrun₂ fun t' h => by
        rw [hrun] at h
        cases h
      obtain ⟨r₂, _, hfin₂⟩ := finish_of_ok t (bodyArity code calleeBody).2
        (t := ⟨{ t.interp with vstack,
                               frames := calleeFrame code calleeBody t.interp.vsp _ :: t.interp.frames },
                                 t.interp.frames.length⟩)
        _ rfl (heq.trans hrun) (hvsp.trans_le hroom) hvsp hone
      rw [hfinish, hfin₂, hback] at hrun₂
      cases hrun₂
      refine ⟨hy, hruns, hroom, fun i hi v hv => ?_⟩
      have hvalue : vstack' i = t.interp.vstack i := hunchanged.values i hi
      rw [hlast i hi, hv] at hvalue
      exact hvalue
    · rintro ⟨-, -, -, hkeeps⟩
      refine ⟨n, r, _, hends, rfl, fun i hi => (hlast i hi).trans ?_, rfl, rfl, rfl, rfl, rfl, rfl, rfl⟩
      cases hw : lastWritten i ops ⟨fun k => params.getD k 0, operands t.interp.vstack t.interp.vsp⟩ with
      | none => rfl
      | some v => exact hkeeps i hi v hw

end

section
variable {ω : Type}

/-- A shadow run that does not enter the callee is neutral, and one in which the callee fails is not, whatever
the callee is. That of a compiled body is neutral exactly if the callee is not entered, or no yield is
requested, no operation fails, the result fits and no slot of the caller ends up with another value.
Operations that keep to their own operands need room only. -/
theorem runShadow_neutral_iff (code : Code (HostFn ω)) (F : FloatOps) (calleeBody : Nat)
    (params : List (BitVec 64)) (t : Shadowed ω)
    (hidx : calleeBody < MAX_FUNCS) (hv : t.interp.vsp ≤ STACK_DEPTH) :
    (∀ nResults, NotEntered code calleeBody params t.interp → Neutral code F calleeBody params nResults t) ∧
    (∀ nResults, Traps code F calleeBody params t → ¬ Neutral code F calleeBody params nResults t) ∧
    ∀ body native ops, code.bodies[calleeBody]? = some body → Fits body →
      jitCompileBody body (localsOf code calleeBody) (resultsOf code calleeBody) MAX_FN_BYTES = some native →
      jitOps body = some ops →
      params.length = (bodyArity code calleeBody).1 →
      (Neutral code F calleeBody params (resultsOf code calleeBody) t ↔ NotEntered code calleeBody params t.interp ∨
        t.interp.yieldRequested = false ∧ OpsRun (localsOf code calleeBody) t.interp.vsp ops ∧
          t.interp.vsp + resultsOf code calleeBody ≤ STACK_DEPTH ∧
          KeepsCaller t.interp.vsp t.interp.vstack params ops) ∧
      (StackOk (resultsOf code calleeBody) 0 ops →
        (Neutral code F calleeBody params (resultsOf code calleeBody) t ↔
          NotEntered code calleeBody params t.interp ∨
          t.interp.yieldRequested = false ∧
          OpsFit (localsOf code calleeBody) (STACK_DEPTH - t.interp.vsp) 0 ops)) := by
  have hout : ∀ nResults, NotEntered code calleeBody params t.interp →
      Neutral code F calleeBody params nResults t := by
    intro nResults h
    obtain ⟨t', hrun, hsame⟩ := runShadow_notEntered (F := F) hidx hv h nResults 0
    exact ⟨0, none, t', hrun, hsame⟩
  refine ⟨hout, fun nResults h => not_neutral_of_traps hidx hv h, ?_⟩
  intro body native ops hbody hfit hjit hops hparams
  have hone : resultsOf code calleeBody ≤ 1 := by
    rw [jitCompileBody_eq] at hjit
    split at hjit
    · cases hjit
    · omega
  by_cases hnot : NotEntered code calleeBody params t.interp
  · exact ⟨iff_of_true (hout _ hnot) (.inl hnot), fun _ => iff_of_true (hout _ hnot) (.inl hnot)⟩
  have hneutral : Neutral code F calleeBody params (resultsOf code calleeBody) t ↔ _ :=
    neutral_of_entered hidx hv hbody hfit hops hone hparams hnot
  rw [or_iff_right hnot, or_iff_right hnot]
  refine ⟨hneutral, fun hok => hneutral.trans (and_congr_right fun _ => ?_)⟩
  rw [← opsRun_iff hok hv]
  refine and_iff_left_of_imp fun hruns => ⟨?_, keepsCaller_of_ok hok _ _ _⟩
  have hroom := room_of_fits hok ((opsRun_iff hok hv).mp hruns).2
  show t.interp.vsp + resultsOf code calleeBody ≤ STACK_DEPTH
  omega

end

/-- Two functions `() -> ()`: the first calls the second, whose body is `i32.const 0`, `drop`. -/
def callsCompiled : List UInt8 :=
  [0x00, 0x61, 0x73, 0x6D, 1, 0, 0, 0] ++ [0x01, 4, 1, 0x60, 0, 0] ++ [0x03, 3, 2, 0, 0] ++
    [0x0A, 12, 2, 4, 0, 0x10, 1, 0x0B, 5, 0, 0x41, 0, 0x1A, 0x0B]

/-- The first function at its call, with `vsp` values on the stack. -/
def atCall (inst : Instance (HostFn Unit)) (vsp : Nat) : Shadowed Unit :=
  ⟨{ inst.initial () with vsp, frames := [⟨0, 2, fun _ => 0, 0, 0, 0, 0⟩] }, 0⟩

theorem runShadow_neutral_call :
    ∃ inst : Instance (HostFn Unit), instantiate (fun _ _ => none) callsCompiled = .ok inst ∧
    Neutral inst.code default 1 [] 0 (atCall inst 1) := by
  obtain ⟨inst, hinst, hbody, hres, hloc, harity⟩ :
      ∃ inst : Instance (HostFn Unit), instantiate (fun _ _ => none) callsCompiled = .ok inst ∧
      inst.code.bodies[1]? = some [0x41, 0, 0x1A, 0x0B] ∧ resultsOf inst.code 1 = 0 ∧ localsOf inst.code 1 = 0 ∧
      (bodyArity inst.code 1).1 = 0 := ⟨_, rfl, rfl, rfl, rfl, rfl⟩
  obtain ⟨native, hnative⟩ : ∃ native, jitCompileBody [0x41, 0, 0x1A, 0x0B] 0 0 MAX_FN_BYTES = some native :=
    Option.isSome_iff_exists.mp (by decide)
  refine ⟨inst, hinst, ?_⟩
  have hiff :=
    ((runShadow_neutral_iff inst.code default 1 [] (atCall inst 1) (by decide)
      (show 1 ≤ STACK_DEPTH by decide)).2.2 _ native
    [.const 0, .drop] hbody (show _ < _ by decide) (by rw [hres, hloc]; exact hnative) rfl harity.symm).1
  rw [hres] at hiff
  refine hiff.mpr (.inr ⟨rfl, ?_, show 1 ≤ STACK_DEPTH by decide, ?_⟩)
  · simp [OpsRun, OpsFit, StackOk, StackFits, JitOp.arity, JitOp.local?, atCall, STACK_DEPTH]
  · rintro i hi v hv
    obtain rfl : i = 0 := Nat.lt_one_iff.mp hi
    cases hv

/-- With a full stack the shadow run ends at the constant, and leaves the frame of the callee behind. -/
theorem runShadow_leaves_frame : ∃ (inst : Instance (HostFn Unit)) (t' : Shadowed Unit),
    instantiate (fun _ _ => none) callsCompiled = .ok inst ∧
    runShadow inst.code default 1 [] 0 1 (atCall inst STACK_DEPTH) = .ok (some none) t' ∧
    (atCall inst STACK_DEPTH).interp.frames.length = 1 ∧ t'.interp.frames.length = 2 ∧
    ¬ Neutral inst.code default 1 [] 0 (atCall inst STACK_DEPTH) := by
  obtain ⟨inst, t', hinst, hrun, hframes, htraps⟩ : ∃ (inst : Instance (HostFn Unit)) (t' : Shadowed Unit),
      instantiate (fun _ _ => none) callsCompiled = .ok inst ∧
      runShadow inst.code default 1 [] 0 1 (atCall inst STACK_DEPTH) = .ok (some none) t' ∧
      t'.interp.frames.length = 2 ∧
      Traps inst.code default 1 [] (atCall inst STACK_DEPTH) :=
    ⟨_, _, rfl, rfl, rfl, _, 1, _, _, rfl, rfl⟩
  exact ⟨inst, t', hinst, hrun, rfl, hframes, not_neutral_of_traps (by decide) (Nat.le_refl _) htraps⟩

end WasmOs
