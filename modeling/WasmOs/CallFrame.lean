import WasmOs.InterpSpec
import WasmOs.Resume

/-!
# Calls and returns

All frames share one value stack and one control stack, and a return restores both from what its frame
saved at the call. `Held` follows the part of the stack below the running frame through an instruction;
a round then either stays in its frame, or calls, or returns.
-/

namespace WasmOs

open Hoare

/-! ## The copy of a return -/

/-- An upward copy to a lower place moves the values unchanged. -/
theorem copyUp_apply {α : Type} (a : Nat → α) {dst src : Nat} (h : dst ≤ src) : ∀ (n k : Nat),
    copyUp a dst src n k = if dst ≤ k ∧ k < dst + n then a (src + (k - dst)) else a k
  | 0, k => by rw [if_neg (by omega)]; rfl
  | n + 1, k => by
    unfold copyUp
    by_cases hk : k = dst + n
    · subst hk
      rw [upd_self, copyUp_apply a h n, if_neg (by omega), if_pos (by omega)]
      congr 1
      omega
    · rw [upd_of_ne _ _ hk, copyUp_apply a h n]
      by_cases hin : dst ≤ k ∧ k < dst + n
      · rw [if_pos hin, if_pos (by omega)]
      · rw [if_neg hin, if_neg (by omega)]

/-! ## Operands -/

/-- How many operands an instruction takes from the stack, before a call or a return. -/
def Opc.pops (body : List UInt8) (pc : Nat) : Opc → Nat
  | .if_ | .brIf | .brTable | .callIndirect | .drop | .localSet | .localTee | .globalSet | .load _
    _ | .memoryGrow => 1
  | .store _ => 2
  | .select => 3
  | .num op => op.arity.1
  | .bulk =>
    match readU32 body InterpError.malformedCode pc with
    | .ok (sub, _) => if sub < 8 then 1 else if sub = 8 ∨ sub = 10 ∨ sub = 11 then 3 else 0
    | .error _ => 0
  | _ => 0

section
variable {ω : Type}

/-- Frame `fr` runs on top of `rest`, at least `k` operands are its own, and the stack below them is `v`. -/
structure Held (fr : Frame) (rest : List Frame) (v : Nat → BitVec 64) (k : Nat) (s : State ω) : Prop where
  frames : ∃ fr', s.frames = fr' :: rest ∧ fr'.sig = fr.sig
  below : ∀ i < fr.vspBase, s.vstack i = v i
  enough : fr.vspBase + k ≤ s.vsp

variable {fr : Frame} {rest : List Frame} {v : Nat → BitVec 64} {k : Nat}

theorem Held.congr {s s' : State ω} (h : Held fr rest v k s) (hf : s'.frames = s.frames) (hv : s'.vstack = s.vstack)
    (hp : s'.vsp = s.vsp) : Held fr rest v k s' :=
  ⟨by rw [hf]; exact h.frames, by rw [hv]; exact h.below, by rw [hp]; exact h.enough⟩

theorem Held.mono {s : State ω} {j : Nat} (h : Held fr rest v k s) (hj : j ≤ k) : Held fr rest v j s :=
  ⟨h.frames, h.below, by have := h.enough; omega⟩

/-- The computation takes `k` of the frame's operands and leaves `j`. -/
abbrev Takes {α : Type} (fr : Frame) (rest : List Frame) (v : Nat → BitVec 64) (k j : Nat)
    (m : Interp ω α) : Prop :=
  Triple (Held fr rest v k) m fun _ => Held fr rest v j

theorem takes_vPush (x : BitVec 64) : Takes (ω := ω) fr rest v k (k + 1) (vPush x) :=
  triple_get fun s hs => triple_ite triple_throw <| triple_set <| by
    refine ⟨hs.frames, fun i hi => ?_, ?_⟩
    · have := hs.enough
      show upd s.vstack s.vsp x i = v i
      rw [upd_of_ne _ _ (by omega), hs.below i hi]
    · have := hs.enough
      show fr.vspBase + (k + 1) ≤ s.vsp + 1
      omega

theorem takes_vPop : Takes (ω := ω) fr rest v (k + 1) k vPop :=
  triple_get fun s hs => triple_ite triple_throw <| triple_ite triple_throw <|
    triple_bind (triple_set (Q := fun _ => Held fr rest v k) (by
      refine ⟨hs.frames, hs.below, ?_⟩
      have := hs.enough
      show fr.vspBase + k ≤ s.vsp - 1
      omega)) fun _ => triple_pure fun _ h => h

theorem takes_lift {α : Type} {m : Rust InterpError α} : Takes (ω := ω) fr rest v k k (lift m) := by
  intro s hs
  unfold wp lift
  cases m with
  | ok a => exact hs
  | error e => trivial

theorem takes_pure {α : Type} {a : α} : Takes (ω := ω) fr rest v k k (pure a) := triple_pure fun _ h => h

theorem takes_ctrlPush (cf : CtrlFrame) : Takes (ω := ω) fr rest v k k (ctrlPush cf) :=
  triple_get fun _ hs => triple_ite triple_throw (triple_set (hs.congr rfl rfl rfl))

theorem takes_setFrame {f : Frame → Frame} (hf : ∀ fr, (f fr).sig = fr.sig) :
    Takes (ω := ω) fr rest v k k (setFrame f) :=
  triple_get fun s hs => by
    obtain ⟨fr', hfr, hsig⟩ := hs.frames
    rw [hfr]
    exact triple_set ⟨⟨f fr', rfl, by rw [hf, hsig]⟩, hs.below, hs.enough⟩

end

section
variable {ω : Type} {code : Code (HostFn ω)} {F : FloatOps} {body : List UInt8} {pc : Nat}
variable {fr : Frame} {rest : List Frame} {v : Nat → BitVec 64} {k : Nat}

theorem takes_memSlice (lo hi : Nat) : Takes fr rest v k k (memSlice code lo hi) :=
  triple_ite takes_pure triple_throw

theorem takes_set {s s' : State ω} (hs : Held fr rest v k s) (hf : s'.frames = s.frames) (hv : s'.vstack = s.vstack)
    (hp : s'.vsp = s.vsp) : Takes fr rest v k k (set s' : Interp ω Unit) :=
  triple_set (hs.congr hf hv hp)

theorem takes_execLoad (w : Nat) (ext : Nat → BitVec 64) :
    Takes fr rest v (k + 1) (k + 1) (execLoad code body pc w ext) :=
  triple_bind takes_lift fun _ => triple_bind takes_vPop fun _ => triple_get fun _ _ => triple_ite triple_throw <|
    triple_bind (takes_memSlice _ _) fun _ => triple_bind (takes_vPush _) fun _ => takes_pure

theorem takes_execStore (w : Nat) : Takes fr rest v (k + 2) k (execStore code body pc w) :=
  triple_bind takes_lift fun _ => triple_bind takes_vPop fun _ => triple_bind takes_vPop fun _ =>
    triple_get fun _ hs => triple_ite triple_throw <| triple_bind (takes_memSlice _ _) fun _ =>
      triple_bind (takes_set hs rfl rfl rfl) fun _ => takes_pure

theorem takes_execMemoryGrow : Takes fr rest v (k + 1) (k + 1) (execMemoryGrow code) :=
  triple_bind takes_vPop fun _ => triple_get fun _ hs => triple_ite
    (triple_bind (takes_memSlice _ _) fun _ => triple_bind (takes_set hs rfl rfl rfl) fun _ => takes_vPush _)
    (takes_vPush _)

theorem takes_execMemoryCopy : Takes fr rest v (k + 3) k (execMemoryCopy code) :=
  triple_bind takes_vPop fun _ => triple_bind takes_vPop fun _ => triple_bind takes_vPop fun _ =>
    triple_get fun _ hs => triple_ite triple_throw <| triple_bind (takes_memSlice _ _) fun _ =>
      triple_bind (takes_memSlice _ _) fun _ => takes_set hs rfl rfl rfl

theorem takes_execMemoryFill : Takes fr rest v (k + 3) k (execMemoryFill code) :=
  triple_bind takes_vPop fun _ => triple_bind takes_vPop fun _ => triple_bind takes_vPop fun _ =>
    triple_get fun _ hs => triple_ite triple_throw <| triple_bind (takes_memSlice _ _) fun _ =>
      takes_set hs rfl rfl rfl

theorem takes_pushResult (r : Except NumTrap (BitVec 64)) : Takes (ω := ω) fr rest v k (k + 1) (pushResult r) := by
  cases r with
  | ok x => exact takes_vPush x
  | error t => exact triple_throw

theorem takes_drop {α : Type} {j : Nat} {m : Interp ω α} (h : Takes fr rest v k j m) : Takes fr rest v k 0 m :=
  triple_weaken h (fun _ hs => hs) fun _ _ hs => hs.mono (Nat.zero_le _)

theorem takes_execNum (op : NumOp) : Takes (ω := ω) fr rest v op.arity.1 0 (execNum op) := by
  cases op with
  | un f => exact takes_drop (triple_bind takes_vPop fun _ => takes_pushResult _)
  | bin f => exact takes_drop (triple_bind takes_vPop fun _ => triple_bind takes_vPop fun _ => takes_pushResult _)

theorem takes_execBulk : Takes fr rest v (Opc.pops body pc .bulk) 0 (execBulk code F body pc) := by
  intro s hs
  unfold execBulk
  cases hr : (readU32 body InterpError.malformedCode pc : Rust InterpError (Nat × Nat)) with
  | error e => exact (wp_bind _).mpr trivial
  | ok p =>
    obtain ⟨sub, pc'⟩ := p
    rw [wp_bind, wp_lift_ok rfl]
    have hpops : Opc.pops body pc .bulk = if sub < 8 then 1 else if sub = 8 ∨ sub = 10 ∨
        sub = 11 then 3 else 0 := by
      simp only [Opc.pops, hr]
    rw [hpops] at hs
    revert s hs
    show Takes fr rest v _ 0 _
    dsimp only
    by_cases h8 : sub < 8
    · rw [if_pos h8, if_pos h8]
      exact takes_drop (triple_bind takes_vPop fun _ => triple_bind (takes_vPush _) fun _ => takes_pure)
    · rw [if_neg h8, if_neg h8]
      by_cases hinit : sub = 8
      · rw [if_pos hinit, if_pos (.inl hinit)]
        exact triple_bind takes_lift fun _ => triple_bind takes_vPop fun _ => triple_bind takes_vPop fun _ =>
          triple_bind takes_vPop fun _ => triple_ite triple_throw takes_pure
      · rw [if_neg hinit]
        by_cases hdrop : sub = 9
        · rw [if_pos hdrop, if_neg (by omega)]
          exact triple_bind takes_lift fun _ => takes_pure
        · rw [if_neg hdrop]
          by_cases hcopy : sub = 10
          · rw [if_pos hcopy, if_pos (by omega)]
            exact triple_bind takes_execMemoryCopy fun _ => takes_pure
          · rw [if_neg hcopy]
            by_cases hfill : sub = 11
            · rw [if_pos hfill, if_pos (by omega)]
              exact triple_bind takes_execMemoryFill fun _ => takes_pure
            · rw [if_neg hfill]
              exact triple_throw

theorem takes_dispatch {fr' : Frame} (op : Opc) :
    Takes fr rest v (op.pops body pc) 0 (dispatch code F fr' body pc op) := by
  cases op with
  | nop => exact takes_pure
  | unreachable => exact triple_throw
  | block kind => exact triple_bind takes_lift fun _ => triple_bind (takes_ctrlPush _) fun _ => takes_pure
  | if_ =>
    exact triple_bind takes_lift fun _ => triple_bind takes_vPop fun _ =>
      triple_ite (triple_bind (takes_ctrlPush _) fun _ => takes_pure) <|
        triple_ite (triple_bind (takes_ctrlPush _) fun _ => takes_pure) takes_pure
  | else_ =>
    exact triple_get fun _ hs => triple_ite triple_throw <| triple_bind (takes_set hs rfl rfl rfl)
      fun _ => takes_pure
  | end_ =>
    exact triple_get fun _ hs => triple_ite (triple_bind (takes_set hs rfl rfl rfl) fun _ =>
      takes_pure) takes_pure
  | br => exact triple_bind takes_lift fun _ => takes_pure
  | brIf => exact triple_bind takes_lift fun _ => triple_bind takes_vPop fun _ => triple_ite takes_pure takes_pure
  | brTable =>
    exact triple_bind takes_lift fun _ => triple_bind takes_vPop fun _ => triple_bind takes_lift fun _ => takes_pure
  | return_ => exact takes_pure
  | call => exact triple_bind takes_lift fun _ => takes_pure
  | callIndirect =>
    exact triple_bind takes_lift fun _ => triple_bind takes_lift fun _ => triple_bind takes_vPop fun _ =>
      triple_ite triple_throw <| triple_ite triple_throw <| triple_ite triple_throw <|
        triple_ite triple_throw takes_pure
  | drop => exact triple_bind takes_vPop fun _ => takes_pure
  | select =>
    exact takes_drop (triple_bind takes_vPop fun _ => triple_bind takes_vPop fun _ =>
      triple_bind takes_vPop fun _ =>
      triple_bind (takes_vPush _) fun _ => takes_pure)
  | localGet =>
    exact takes_drop (triple_bind takes_lift fun _ => triple_ite triple_throw <| triple_ite triple_throw <|
      triple_bind (takes_vPush _) fun _ => takes_pure)
  | localSet =>
    exact triple_bind takes_lift fun _ => triple_ite triple_throw <| triple_bind takes_vPop fun _ =>
      triple_ite triple_throw <| triple_bind (takes_setFrame fun _ => rfl) fun _ => takes_pure
  | localTee =>
    exact takes_drop (triple_bind takes_lift fun _ => triple_ite triple_throw <| triple_get fun _ _ =>
      triple_ite triple_throw <| triple_ite triple_throw <| triple_bind (takes_setFrame fun _ => rfl)
        fun _ => takes_pure)
  | globalGet =>
    exact takes_drop (triple_bind takes_lift fun _ => triple_ite triple_throw <| triple_ite triple_throw <|
      triple_get fun _ _ => triple_bind (takes_vPush _) fun _ => takes_pure)
  | globalSet =>
    exact triple_bind takes_lift fun _ => triple_ite triple_throw <| triple_bind takes_lift fun _ =>
      triple_ite triple_throw <| triple_bind takes_vPop fun _ =>
        triple_bind (triple_modify fun _ hs => ⟨hs.frames, hs.below, hs.enough⟩) fun _ => takes_pure
  | load w ext => exact takes_drop (triple_bind (takes_execLoad w ext) fun _ => takes_pure)
  | store w => exact triple_bind (takes_execStore w) fun _ => takes_pure
  | memorySize => exact takes_drop (triple_get fun _ _ => triple_bind (takes_vPush _) fun _ => takes_pure)
  | memoryGrow => exact takes_drop (triple_bind takes_execMemoryGrow fun _ => takes_pure)
  | i32Const => exact takes_drop (triple_bind takes_lift fun _ => triple_bind (takes_vPush _) fun _ => takes_pure)
  | i64Const => exact takes_drop (triple_bind takes_lift fun _ => triple_bind (takes_vPush _) fun _ => takes_pure)
  | floatConst w => exact takes_drop (triple_ite triple_throw <| triple_bind (takes_vPush _) fun _ => takes_pure)
  | num op => exact triple_bind (takes_execNum op) fun _ => takes_pure
  | bulk => exact triple_bind takes_execBulk fun _ => takes_pure
  | unknown => exact triple_throw

end

theorem dispatch_held {ω : Type} {code : Code (HostFn ω)} {F : FloatOps} {body : List UInt8} {pc : Nat}
    {fr fr' : Frame} {rest : List Frame} {v : Nat → BitVec 64} {op : Opc} {next : Next} {s s' : State ω}
    (hs : Held fr rest v (op.pops body pc) s) (h : dispatch code F fr' body pc op s = .ok next s') :
    Held fr rest v 0 s' := by
  have ht : wp (dispatch code F fr' body pc op) (fun _ t => Held fr rest v 0 t) (fun _ _ => True) s :=
    takes_dispatch op s hs
  exact (wp_ok ht h :)

/-! ## Rounds -/

section
variable {ω : Type}

def Frame.saved (fr : Frame) : Nat × Nat × Nat := (fr.vspBase, fr.ctrlBase, fr.resultCount)

theorem saved_of_sig {fr fr' : Frame} (h : fr'.sig = fr.sig) : fr'.saved = fr.saved := by
  obtain ⟨-, -, -, hc, hv, hr⟩ := Frame.sig_eq h
  unfold Frame.saved
  rw [hc, hv, hr]

/-- A call takes its arguments from the caller's operands, and a host function leaves what lies below them. -/
structure CallStaysAbove (code : Code (HostFn ω)) (base : Nat) (s : State ω) (callee : Nat) : Prop where
  host : callee < code.importCount → ∀ h, code.hostFns callee = some h → ∀ v',
    (h code.memLen s.view = .ok () v' ∨ h code.memLen s.view = .error (.err .yielded) v') →
    ∀ i < base, v'.vstack i = s.vstack i
  args : ¬ callee < code.importCount → base + (bodyArity code (callee - code.importCount)).1 ≤ s.vsp

/-- The rest of a round takes no operand below the frame's own: a return takes the results. -/
def Next.StaysAbove (code : Code (HostFn ω)) (fr : Frame) (s : State ω) : Next → Prop
  | .seq _ => True
  | .br _ n => s.ctrlDepth - fr.ctrlBase ≤ n → fr.vspBase + fr.resultCount ≤ s.vsp
  | .ret => fr.vspBase + fr.resultCount ≤ s.vsp
  | .call _ callee => CallStaysAbove code fr.vspBase s callee

/-- The round from `s` never pops below the operands of the frame that runs. -/
def StaysAbove (code : Code (HostFn ω)) (F : FloatOps) (s : State ω) : Prop :=
  ∀ fr rest, s.frames = fr :: rest →
    match (code.bodies.getD fr.bodyIdx [])[fr.pc]? with
    | none => fr.vspBase + fr.resultCount ≤ s.vsp
    | some b =>
      fr.vspBase + (decodeOp F b).pops (code.bodies.getD fr.bodyIdx []) (fr.pc + 1) ≤ s.vsp ∧
      ∀ next s', dispatch code F fr (code.bodies.getD fr.bodyIdx []) (fr.pc + 1) (decodeOp F b) s = .ok next s' →
        next.StaysAbove code fr s'

/-- The round from `s` returns from the running function, and `u` is the state it returns from: the body is
at its end, an `end` or `return` was read, or a branch leaves the outermost block. -/
inductive ReturnsFrom (code : Code (HostFn ω)) (F : FloatOps) (s u : State ω) : Prop
  | off {fr : Frame} {rest : List Frame} (hfr : s.frames = fr :: rest)
      (hoff : (code.bodies.getD fr.bodyIdx [])[fr.pc]? = none) (hu : u = s)
  | ret {fr : Frame} {rest : List Frame} {b : UInt8} (hfr : s.frames = fr :: rest)
      (hb : (code.bodies.getD fr.bodyIdx [])[fr.pc]? = some b)
      (hd : dispatch code F fr (code.bodies.getD fr.bodyIdx []) (fr.pc + 1) (decodeOp F b) s = .ok .ret u)
  | br {fr fr' : Frame} {rest : List Frame} {b : UInt8} {pc n : Nat} {t : State ω} (hfr : s.frames = fr :: rest)
      (hb : (code.bodies.getD fr.bodyIdx [])[fr.pc]? = some b)
      (hd : dispatch code F fr (code.bodies.getD fr.bodyIdx []) (fr.pc + 1) (decodeOp F b) s = .ok (.br pc n) t)
      (ht : t.frames = fr' :: rest) (hn : t.ctrlDepth - fr'.ctrlBase ≤ n)
      (hu : u = { t with frames := { fr' with pc } :: rest })

/-- Everything a round can do to the frames and to the stack below the operands of the running frame. -/
inductive Round (code : Code (HostFn ω)) (F : FloatOps) (s : State ω) (fr : Frame) (rest : List Frame)
    (s' : State ω) : Prop
  | stay {fr' : Frame} (hf : s'.frames = fr' :: rest) (hfr : fr'.saved = fr.saved)
      (hb : ∀ i < fr.vspBase, s'.vstack i = s.vstack i)
  | call {fr' g : Frame} (hf : s'.frames = g :: fr' :: rest) (hfr : fr'.saved = fr.saved)
    (hg : fr.vspBase ≤ g.vspBase)
      (hb : ∀ i < fr.vspBase, s'.vstack i = s.vstack i)
  | ret {u : State ω} (hu : ReturnsFrom code F s u) (hres : fr.vspBase + fr.resultCount ≤ u.vsp)
      (hb : ∀ i < fr.vspBase, u.vstack i = s.vstack i)
      (hs : s' = { u with
        vstack := copyUp u.vstack fr.vspBase (u.vsp - fr.resultCount) fr.resultCount
        vsp := fr.vspBase + fr.resultCount, ctrlDepth := fr.ctrlBase, frames := rest })

/-! ### The parts of a round -/

theorem doReturn_ok {s s' : State ω} {fr : Frame} {rest : List Frame} (hfr : s.frames = fr :: rest)
    (h : doReturn s = .ok () s') : s' = { s with
      vstack := copyUp s.vstack fr.vspBase (s.vsp - fr.resultCount) fr.resultCount
      vsp := fr.vspBase + fr.resultCount, ctrlDepth := fr.ctrlBase, frames := rest } := by
  unfold doReturn at h
  rw [get_bind, hfr] at h
  dsimp only at h
  split at h
  · cases h
  · cases h; rfl

theorem doBr_ok {s s' : State ω} {fr : Frame} {rest : List Frame} {n : Nat} (hfr : s.frames = fr :: rest)
    (h : doBr n s = .ok () s') : (s.ctrlDepth - fr.ctrlBase ≤ n ∧ doReturn s = .ok () s') ∨
      (s'.vstack = s.vstack ∧ ∃ pc, s'.frames = { fr with pc } :: rest) := by
  unfold doBr at h
  rw [get_bind, hfr] at h
  dsimp only at h
  split at h
  · cases h
  · split at h
    · rename_i hn; exact .inl ⟨hn, h⟩
    · split at h
      · cases h
      · cases hk : (s.ctrl (s.ctrlDepth - 1 - n)).kind <;> simp only [hk] at h <;> cases h <;>
          exact .inr ⟨rfl, _, rfl⟩

theorem vPop_ok {s s' : State ω} {x : BitVec 64} (h : vPop s = .ok x s') :
    s.vsp = s'.vsp + 1 ∧ s' = { s with vsp := s'.vsp } := by
  unfold vPop at h
  rw [get_bind] at h
  split at h
  · cases h
  · split at h
    · cases h
    · cases h
      exact ⟨by simp only; omega, rfl⟩

theorem popParams_ok : ∀ {n : Nat} {locals locals' : Nat → BitVec 64} {s s' : State ω},
    popParams n locals s = .ok locals' s' → s.vsp = s'.vsp + n ∧ s' = { s with vsp := s'.vsp }
  | 0, _, _, _, _, h => by cases h; exact ⟨rfl, rfl⟩
  | n + 1, locals, locals', s, s', h => by
    unfold popParams at h
    cases hp : vPop s with
    | error e t => rw [Hoare.bind_error hp] at h; cases h
    | ok x t =>
      rw [Hoare.bind_ok hp] at h
      obtain ⟨hv, ht⟩ := vPop_ok hp
      split at h
      · cases h
      · obtain ⟨hv', hs'⟩ := popParams_ok h
        refine ⟨by omega, ?_⟩
        rw [hs', ht]

theorem popParams_moves (n : Nat) (locals : Nat → BitVec 64) (s : State ω) :
    wp (popParams n locals) (fun _ t => s.vsp = t.vsp + n ∧ t = { s with vsp := t.vsp }) (fun _ _ => True) s := by
  unfold wp
  cases h : popParams n locals s with
  | ok a t => exact popParams_ok h
  | error e t => trivial

theorem pushFrame_ok {code : Code (HostFn ω)} {bodyIdx : Nat} {s s' : State ω}
    (h : pushFrame code bodyIdx s = .ok () s') :
    ∃ g, g.saved = (s'.vsp, s.ctrlDepth, (bodyArity code bodyIdx).2) ∧ s.vsp = s'.vsp + (bodyArity code bodyIdx).1 ∧
      s'.frames = g :: s.frames ∧ s'.vstack = s.vstack ∧ s'.ctrlDepth = s.ctrlDepth := by
  have htab : ∀ (xs : List Nat) (i : Nat), (tableAt MAX_FUNCS xs 0 bodyIdx : Rust InterpError Nat) = .ok i →
      i = xs.getD bodyIdx 0 := by
    intro xs i hi
    unfold tableAt at hi
    split at hi
    · cases hi; rfl
    · cases hi
  have h' : wp (pushFrame code bodyIdx) (fun _ t => ∃ g, g.saved =
      (t.vsp, s.ctrlDepth, (bodyArity code bodyIdx).2) ∧
      s.vsp = t.vsp + (bodyArity code bodyIdx).1 ∧ t.frames = g :: s.frames ∧ t.vstack = s.vstack ∧
      t.ctrlDepth = s.ctrlDepth) (fun _ _ => True) s := by
    refine (wp_bind _).mpr (wp_get.mpr (wp_ite.mpr ⟨fun _ => trivial, fun _ => ?_⟩))
    refine (wp_bind _).mpr (wp_lift.mpr ⟨fun typeIdx ht => ?_, fun _ _ => trivial⟩)
    refine (wp_bind _).mpr (wp_lift.mpr ⟨fun declCount hd => ?_, fun _ _ => trivial⟩)
    refine wp_ite.mpr ⟨fun _ => trivial, fun _ => (wp_bind _).mpr ?_⟩
    rw [htab _ _ ht]
    refine wp_mono (fun locals t ht' => ?_) (fun _ _ _ => trivial) (popParams_moves _ _ s)
    obtain ⟨hv, hs⟩ := ht'
    refine (wp_modify _).mpr ⟨⟨bodyIdx, 0, locals, (bodyArity code bodyIdx).1 + declCount, t.ctrlDepth, t.vsp,
      (bodyArity code bodyIdx).2⟩, ?_, hv, ?_, ?_, ?_⟩
    · show (t.vsp, t.ctrlDepth, _) = _
      rw [hs]
    · show _ :: t.frames = _
      rw [hs]
      rfl
    · show t.vstack = _
      rw [hs]
    · show t.ctrlDepth = _
      rw [hs]
  exact wp_ok h' h

variable {code : Code (HostFn ω)} {F : FloatOps} {s s' : State ω} {fr : Frame} {rest : List Frame}

theorem step_ok_cases (hfr : s.frames = fr :: rest) (h : step code F s = .ok () s') :
    ((code.bodies.getD fr.bodyIdx [])[fr.pc]? = none ∧ doReturn s = .ok () s') ∨
    ∃ b next t, (code.bodies.getD fr.bodyIdx [])[fr.pc]? = some b ∧
      dispatch code F fr (code.bodies.getD fr.bodyIdx []) (fr.pc + 1) (decodeOp F b) s = .ok next t ∧
      finish code next t = .ok () s' := by
  have htop : topFrame s = .ok fr s := by
    unfold topFrame
    rw [get_bind, hfr]
    rfl
  unfold step at h
  rw [get_bind] at h
  split at h
  · cases h
  · rw [Hoare.bind_ok htop] at h
    cases ht : (tableAt MAX_FUNCS code.bodies [] fr.bodyIdx : Rust InterpError (List UInt8)) with
    | error e =>
      have hl : lift (tableAt MAX_FUNCS code.bodies [] fr.bodyIdx) s = .error e s := by rw [ht]; rfl
      rw [Hoare.bind_error hl] at h
      cases h
    | ok body =>
      have hbody : body = code.bodies.getD fr.bodyIdx [] := by
        unfold tableAt at ht
        split at ht
        · cases ht; rfl
        · cases ht
      have hl : lift (tableAt MAX_FUNCS code.bodies [] fr.bodyIdx) s = .ok body s := by rw [ht]; rfl
      rw [Hoare.bind_ok hl, hbody] at h
      cases hb : (code.bodies.getD fr.bodyIdx [])[fr.pc]? with
      | none => rw [hb] at h; exact .inl ⟨rfl, h⟩
      | some b =>
        rw [hb] at h
        replace h : (dispatch code F fr (code.bodies.getD fr.bodyIdx []) (fr.pc + 1) (decodeOp F b) >>=
          finish code) s =
          .ok () s' := h
        cases hd : dispatch code F fr (code.bodies.getD fr.bodyIdx []) (fr.pc + 1) (decodeOp F b) s with
        | error e t => rw [Hoare.bind_error hd] at h; cases h
        | ok next t => rw [Hoare.bind_ok hd] at h; exact .inr ⟨b, next, t, rfl, hd, h⟩

theorem callHost_ok {host : HostFn ω} (h : callHost code host s = .ok () s') :
    ∃ v', host code.memLen s.view = .ok () v' ∧ s' = s.withView v' := by
  unfold callHost at h
  split at h
  · rename_i v' hr; cases h; exact ⟨v', hr, rfl⟩
  · cases h

theorem invoke_round {t : State ω} {callee : Nat} {v : Nat → BitVec 64} (ht : t.frames = fr :: rest)
    (hstay : CallStaysAbove code fr.vspBase t callee) (hv : ∀ i < fr.vspBase, t.vstack i = v i)
    (h : invoke code callee t = .ok () s') :
    (s'.frames = fr :: rest ∧ ∀ i < fr.vspBase, s'.vstack i = v i) ∨
    ∃ g, s'.frames = g :: fr :: rest ∧ fr.vspBase ≤ g.vspBase ∧ ∀ i < fr.vspBase, s'.vstack i = v i := by
  by_cases hc : callee < code.importCount
  · by_cases hm : callee < MAX_FUNCS
    · rw [invoke_import hc hm] at h
      cases hh : code.hostFns callee with
      | none => rw [hh] at h; cases h
      | some host =>
        rw [hh] at h
        obtain ⟨v', hr, rfl⟩ := callHost_ok h
        refine .inl ⟨ht, fun i hi => ?_⟩
        exact (hstay.host hc host hh v' (.inl hr) i hi).trans (hv i hi)
    · rw [invoke_import_panic hc (Nat.le_of_not_lt hm)] at h
      cases h
  · have hargs := hstay.args hc
    rw [invoke_defined hc] at h
    split at h
    · cases h
    · obtain ⟨g, hsaved, hvsp, hf, hvs, -⟩ := pushFrame_ok h
      refine .inr ⟨g, by rw [hf, ht], ?_, fun i hi => by rw [hvs, hv i hi]⟩
      have hg : g.vspBase = s'.vsp := congrArg Prod.fst hsaved
      rw [hg]
      omega

theorem setPc_bind {α : Type} {t : State ω} {pc : Nat} {f : Unit → Interp ω α} (ht : t.frames = fr :: rest) :
    (setPc pc >>= f) t = f () { t with frames := { fr with pc } :: rest } := Hoare.bind_ok (setPc_run ht)

theorem step_round (hfr : s.frames = fr :: rest) (hstay : StaysAbove code F s) (h : step code F s = .ok () s') :
    Round code F s fr rest s' := by
  have hst := hstay fr rest hfr
  obtain ⟨hoff, hret⟩ | ⟨b, next, t, hb, hd, hfin⟩ := step_ok_cases hfr h
  · rw [hoff] at hst
    exact .ret (.off hfr hoff rfl) hst (fun _ _ => rfl) (doReturn_ok hfr hret)
  · rw [hb] at hst
    obtain ⟨hpops, hnext⟩ := hst
    have hheld : Held fr rest s.vstack 0 t := dispatch_held ⟨⟨fr, hfr, rfl⟩, fun _ _ => rfl, hpops⟩ hd
    obtain ⟨fr', hfr', hsig⟩ := hheld.frames
    have hsaved := saved_of_sig hsig
    have hbase : fr'.vspBase = fr.vspBase := congrArg Prod.fst hsaved
    have hctrl : fr'.ctrlBase = fr.ctrlBase := congrArg (·.2.1) hsaved
    have hres : fr'.resultCount = fr.resultCount := congrArg (·.2.2) hsaved
    have hstay' := hnext next t hd
    cases next with
    | seq pc =>
      rw [finish, setPc_run hfr'] at hfin
      cases hfin
      exact .stay rfl hsaved hheld.below
    | ret =>
      have hs' := doReturn_ok hfr' hfin
      rw [hbase, hctrl, hres] at hs'
      exact .ret (.ret hfr hb hd) hstay' hheld.below hs'
    | br pc n =>
      rw [finish, setPc_bind hfr'] at hfin
      obtain ⟨hn, hret⟩ | ⟨hvs, pc', hf⟩ := doBr_ok rfl hfin
      · have hs' := doReturn_ok rfl hret
        dsimp only at hs' hn
        rw [hbase, hctrl, hres] at hs'
        refine .ret (.br hfr hb hd hfr' hn rfl) ?_ hheld.below hs'
        exact hstay' (by rw [← hctrl]; exact hn)
      · exact .stay hf hsaved fun i hi => by rw [hvs]; exact hheld.below i hi
    | call pc callee =>
      rw [finish, setPc_bind hfr'] at hfin
      have hcall : CallStaysAbove code ({ fr' with pc } : Frame).vspBase
          { t with frames := { fr' with pc } :: rest } callee := by
        show CallStaysAbove code fr'.vspBase _ _
        rw [hbase]
        exact ⟨hstay'.host, hstay'.args⟩
      obtain ⟨hf, hv⟩ | ⟨g, hf, hg, hv⟩ := invoke_round rfl hcall (fun _ _ => rfl) hfin
      · refine .stay hf hsaved fun i hi => ?_
        rw [hv i (by rw [← hbase] at hi; exact hi)]
        exact hheld.below i hi
      · refine .call hf hsaved (by rw [← hbase]; exact hg) fun i hi => ?_
        rw [hv i (by rw [← hbase] at hi; exact hi)]
        exact hheld.below i hi

/-! ### Suspended rounds -/

theorem StaysAbove.unyield (h : StaysAbove code F s) : StaysAbove code.unyield F s := by
  intro fr rest hfr
  have hst := h fr rest hfr
  show (match (code.bodies.getD fr.bodyIdx [])[fr.pc]? with | none => _ | some b => _)
  cases hb : (code.bodies.getD fr.bodyIdx [])[fr.pc]? with
  | none => rw [hb] at hst; exact hst
  | some b =>
    rw [hb] at hst
    refine ⟨hst.1, fun next t hd => ?_⟩
    have hnext := hst.2 next t (by rw [← hd]; exact (congrFun (dispatch_unyield _) s).symm)
    cases next with
    | call pc callee =>
      refine ⟨fun hc host hh v' hv' => ?_, hnext.args⟩
      have hmap : (code.hostFns callee).map HostFn.unyield = some host := hh
      obtain ⟨h₀, hh₀, rfl⟩ := Option.map_eq_some_iff.mp hmap
      apply hnext.host hc h₀ hh₀ v'
      obtain hv' | hv' := hv'
      · exact unyield_ok hv'
      · exact absurd rfl (unyield_final hv')
    | _ => exact hnext

theorem ReturnsFrom.of_unyield {u : State ω} (h : ReturnsFrom code.unyield F s u) : ReturnsFrom code F s u := by
  cases h with
  | off hfr hoff hu => exact .off hfr hoff hu
  | ret hfr hb hd => exact .ret hfr hb (by rw [← hd]; exact (congrFun (dispatch_unyield _) s).symm)
  | br hfr hb hd ht hn hu => exact .br hfr hb (by rw [← hd]; exact (congrFun (dispatch_unyield _) s).symm) ht hn hu

theorem yield_round (hs : Steady s) (hfr : s.frames = fr :: rest) (hstay : StaysAbove code F s)
    (h : step code F s = .error (.err .yielded) s') : Round code F s fr rest s' := by
  have hu : step code.unyield F s = .ok () s' := by rw [step_unyield hs, h]; rfl
  cases step_round hfr hstay.unyield hu with
  | stay hf hfr' hb => exact .stay hf hfr' hb
  | call hf hfr' hg hb => exact .call hf hfr' hg hb
  | ret hu hres hb hs' => exact .ret hu.of_unyield hres hb hs'

/-! ## The run of a call -/

/-- The states between the entry of a call at `s₁`, made from a stack of `d` frames, and its return. No round
pops below the operands of its frame. A suspended task is resumed. -/
inductive Inside (code : Code (HostFn ω)) (F : FloatOps) (d : Nat) (s₁ : State ω) : State ω → Prop
  | enter : Inside code F d s₁ s₁
  | round {s s' : State ω} (hin : Inside code F d s₁ s) (hd : d < s.frames.length) (hstay : StaysAbove code F s)
      (h : step code F s = .ok () s') : Inside code F d s₁ s'
  | resume {s s' : State ω} (hin : Inside code F d s₁ s) (hd : d < s.frames.length) (hstay : StaysAbove code F s)
      (hs : Steady s) (h : step code F s = .error (.err .yielded) s') :
      Inside code F d s₁ { s' with activeMem := s'.currentPages * PAGE_SIZE }

/-- `s'` comes right after `s`: a round leads there, or the resumption of the task that the round suspends. -/
inductive Leads (code : Code (HostFn ω)) (F : FloatOps) (s : State ω) : State ω → Prop
  | round {s' : State ω} (h : step code F s = .ok () s') : Leads code F s s'
  | resume {s' : State ω} (hs : Steady s) (h : step code F s = .error (.err .yielded) s') :
      Leads code F s { s' with activeMem := s'.currentPages * PAGE_SIZE }

/-- A call made with the frames `caller` is running: its frame lies right above them, and no frame reaches
below its base. -/
def InCall (caller : List Frame) (base ctrl n : Nat) (v : Nat → BitVec 64) (s : State ω) : Prop :=
  ∃ stack g, s.frames = stack ++ g :: caller ∧ g.saved = (base, ctrl, n) ∧ (∀ f ∈ stack, base ≤ f.vspBase) ∧
    ∀ i < base, s.vstack i = v i

/-- The call has returned from `u` with `n` results. -/
structure Returned (caller : List Frame) (base ctrl n : Nat) (v : Nat → BitVec 64) (u s : State ω) : Prop where
  frames : s.frames = caller
  ctrlDepth : s.ctrlDepth = ctrl
  vsp : s.vsp = base + n
  below : ∀ i < base, s.vstack i = v i
  enough : base + n ≤ u.vsp
  results : ∀ i < n, s.vstack (base + i) = u.vstack (u.vsp - n + i)

section
variable {caller : List Frame} {base ctrl n d : Nat} {v : Nat → BitVec 64} {s₁ : State ω}

theorem copyUp_below {α : Type} (a : Nat → α) {dst src i : Nat} (hi : i < dst) :
    ∀ m : Nat, copyUp a dst src m i = a i
  | 0 => rfl
  | m + 1 => by
    unfold copyUp
    rw [upd_of_ne _ _ (by omega)]
    exact copyUp_below a hi m

theorem round_inCall (hin : InCall caller base ctrl n v s) (hround : ∀ fr rest, s.frames = fr :: rest →
      Round code F s fr rest s') :
    InCall caller base ctrl n v s' ∨ ∃ u, ReturnsFrom code F s u ∧ Returned caller base ctrl n v u s' := by
  obtain ⟨stack, g, hframes, hsaved, hstack, hbelow⟩ := hin
  have hbase : g.vspBase = base := congrArg Prod.fst hsaved
  have hctrl : g.ctrlBase = ctrl := congrArg (·.2.1) hsaved
  have hres : g.resultCount = n := congrArg (·.2.2) hsaved
  cases stack with
  | nil =>
    -- the frame of the call itself runs
    cases hround g caller hframes with
    | stay hf hfr hb =>
      exact .inl ⟨[], _, hf, hfr.trans hsaved, nofun, fun i hi => (hb i (hbase ▸ hi)).trans (hbelow i hi)⟩
    | @call fr' g' hf hfr hg hb =>
      refine .inl ⟨[g'], fr', hf, hfr.trans hsaved, ?_, fun i hi => (hb i (hbase ▸ hi)).trans (hbelow i hi)⟩
      intro f hmem
      rw [List.mem_singleton.mp hmem, ← hbase]
      exact hg
    | @ret u hu hn hb hs =>
      rw [hbase, hres] at hn
      rw [hbase, hctrl, hres] at hs
      rw [hbase] at hb
      have hle : base ≤ u.vsp - n := by omega
      subst hs
      refine .inr ⟨u, hu, rfl, rfl, rfl, fun i hi => ?_, hn, fun i hi => ?_⟩
      · exact (copyUp_below _ hi _).trans ((hb i hi).trans (hbelow i hi))
      · show copyUp u.vstack base (u.vsp - n) n (base + i) = _
        rw [copyUp_apply _ hle, if_pos (by omega), Nat.add_sub_cancel_left]
  | cons f stack =>
    have hf0 : base ≤ f.vspBase := hstack f (.head _)
    have hrest : ∀ f ∈ stack, base ≤ f.vspBase := fun f hf => hstack f (.tail _ hf)
    refine .inl ?_
    cases hround f (stack ++ g :: caller) hframes with
    | @stay fr' hf hfr hb =>
      refine ⟨fr' :: stack, g, hf, hsaved, ?_, fun i hi => (hb i (by omega)).trans (hbelow i hi)⟩
      have hfr' : fr'.vspBase = f.vspBase := congrArg Prod.fst hfr
      exact List.forall_mem_cons.mpr ⟨by omega, hrest⟩
    | @call fr' g' hf hfr hg hb =>
      refine ⟨g' :: fr' :: stack, g, hf, hsaved, ?_, fun i hi => (hb i (by omega)).trans (hbelow i hi)⟩
      have hfr' : fr'.vspBase = f.vspBase := congrArg Prod.fst hfr
      exact List.forall_mem_cons.mpr ⟨by omega, List.forall_mem_cons.mpr ⟨by omega, hrest⟩⟩
    | @ret u hu hn hb hs =>
      subst hs
      refine ⟨stack, g, rfl, hsaved, hrest, fun i hi => ?_⟩
      exact (copyUp_below _ (by omega) _).trans ((hb i (by omega)).trans (hbelow i hi))

theorem InCall.frames_ne (h : InCall caller base ctrl n v s) : caller.length < s.frames.length := by
  obtain ⟨stack, g, hf, -⟩ := h
  rw [hf, List.length_append, List.length_cons]
  omega

theorem inside_cases (h₁ : InCall caller base ctrl n v s₁) (h : Inside code F caller.length s₁ s) :
    InCall caller base ctrl n v s ∨
      ∃ s' u, Inside code F caller.length s₁ s' ∧ Leads code F s' s ∧ ReturnsFrom code F s' u ∧
        Returned caller base ctrl n v u s := by
  induction h with
  | enter => exact .inl h₁
  | @round s s' hin hd hstay h ih =>
    obtain ih | ⟨_, _, _, _, _, hret⟩ := ih
    · obtain hc | ⟨u, hu, hr⟩ := round_inCall ih fun fr rest hfr => step_round hfr hstay h
      · exact .inl hc
      · exact .inr ⟨s, u, hin, .round h, hu, hr⟩
    · rw [hret.frames] at hd
      exact absurd hd (Nat.lt_irrefl _)
  | @resume s s' hin hd hstay hs h ih =>
    obtain ih | ⟨_, _, _, _, _, hret⟩ := ih
    · obtain hc | ⟨u, hu, hr⟩ := round_inCall ih fun fr rest hfr => yield_round hs hfr hstay h
      · exact .inl hc
      · exact .inr ⟨s, u, hin, .resume hs h, hu, hr.frames, hr.ctrlDepth, hr.vsp, hr.below, hr.enough, hr.results⟩
    · rw [hret.frames] at hd
      exact absurd hd (Nat.lt_irrefl _)

end

/-- In `s` the running frame is about to call `callee`; `pc` is the position behind the instruction and `t` the
state without the table index of `call_indirect`, if it is one. -/
inductive CallAt (code : Code (HostFn ω)) (F : FloatOps) (s : State ω) (fr : Frame) : Nat → Nat → State ω → Prop
  | direct {b : UInt8} {pc callee : Nat} (hb : (code.bodies.getD fr.bodyIdx [])[fr.pc]? = some b)
    (hop : decodeOp F b = .call)
      (hr : readU32 (code.bodies.getD fr.bodyIdx []) InterpError.malformedCode (fr.pc + 1) = .ok (callee, pc)) :
      CallAt code F s fr pc callee s
  | indirect {b : UInt8} {type table pc' pc n : Nat} (hb : (code.bodies.getD fr.bodyIdx [])[fr.pc]? = some b)
      (hop : decodeOp F b = .callIndirect)
      (hr : readU32 (code.bodies.getD fr.bodyIdx []) InterpError.malformedCode (fr.pc + 1) = .ok (type, pc'))
      (hr' : readU32 (code.bodies.getD fr.bodyIdx []) InterpError.malformedCode pc' = .ok (table, pc))
        (hn : s.vsp = n + 1) :
      CallAt code F s fr pc (code.table.entry (lo32 (s.vstack n)).toNat) { s with vsp := n }

theorem CallAt.dispatch_eq {pc callee : Nat} {next : Next} {t t' : State ω} {b : UInt8}
    (h : CallAt code F s fr pc callee t) (hb : (code.bodies.getD fr.bodyIdx [])[fr.pc]? = some b)
    (hd : dispatch code F fr (code.bodies.getD fr.bodyIdx []) (fr.pc + 1) (decodeOp F b) s = .ok next t') :
    next = .call pc callee ∧ t' = t := by
  cases h with
  | direct hb' hop hr =>
    cases hb.symm.trans hb'
    rw [hop] at hd
    have hwp : wp (dispatch code F fr (code.bodies.getD fr.bodyIdx []) (fr.pc + 1) .call)
        (fun next t => next = .call pc callee ∧ t = s) (fun _ _ => True) s :=
      (wp_bind _).mpr ((wp_lift_ok hr).mpr ⟨rfl, rfl⟩)
    exact (wp_ok hwp hd :)
  | @indirect _ type table pc' _ n hb' hop hr hr' hn =>
    cases hb.symm.trans hb'
    rw [hop] at hd
    have hwp : wp (dispatch code F fr (code.bodies.getD fr.bodyIdx []) (fr.pc + 1) .callIndirect)
        (fun next t => next = .call pc (code.table.entry (lo32 (s.vstack n)).toNat) ∧ t = { s with vsp := n })
        (fun _ _ => True) s := by
      refine (wp_bind _).mpr ((wp_lift_ok hr).mpr ((wp_bind _).mpr ((wp_lift_ok hr').mpr ((wp_bind _).mpr ?_))))
      by_cases hv : s.vsp ≤ STACK_DEPTH
      · refine (wp_vPop hv).mpr ⟨fun _ => trivial, fun m hm => ?_⟩
        obtain rfl : n = m := by omega
        refine wp_ite.mpr ⟨fun _ => trivial, fun _ => wp_ite.mpr ⟨fun _ => trivial, fun _ => ?_⟩⟩
        exact wp_ite.mpr ⟨fun _ => trivial, fun _ => wp_ite.mpr ⟨fun _ => trivial, fun _ => ⟨rfl, rfl⟩⟩⟩
      · -- a pointer above the stack is a panic at once
        refine (wp_bind _).mpr (wp_get.mpr (wp_ite.mpr ⟨fun _ => trivial, fun _ => ?_⟩))
        exact wp_ite.mpr ⟨fun _ => trivial, fun hv' => absurd (Nat.lt_of_not_le hv) hv'⟩
    exact (wp_ok hwp hd :)

/-- A call of a defined function that returns, and in which no function pops below its own operands, leaves the
caller's frame just behind the call, the depth of both stacks and all values below the arguments as they were,
and puts in place of the arguments the results: the topmost values of the callee's stack at its return, which is
the last round of the call. -/
theorem call_framing {pc callee : Nat} {t s₁ s₂ : State ω} (hfr : s.frames = fr :: rest)
    (hcall : CallAt code F s fr pc callee t) (hdef : ¬ callee < code.importCount)
    (henter : step code F s = .ok () s₁)
    (hin : Inside code F (rest.length + 1) s₁ s₂) (hret : s₂.frames.length ≤ rest.length + 1) :
    ∃ base s' u, t.vsp = base + (bodyArity code (callee - code.importCount)).1 ∧
      Inside code F (rest.length + 1) s₁ s' ∧ Leads code F s' s₂ ∧ ReturnsFrom code F s' u ∧
      Returned ({ fr with pc } :: rest) base s.ctrlDepth (bodyArity code (callee - code.importCount)).2
      s.vstack u s₂ := by
  have ht : t.frames = fr :: rest ∧ t.vstack = s.vstack ∧ t.ctrlDepth = s.ctrlDepth := by
    cases hcall with
    | direct => exact ⟨hfr, rfl, rfl⟩
    | indirect => exact ⟨hfr, rfl, rfl⟩
  have hfin : finish code (.call pc callee) t = .ok () s₁ := by
    obtain ⟨hoff, -⟩ | ⟨b, next, t', hb, hd, hfin⟩ := step_ok_cases hfr henter
    · cases hcall with
      | direct hb => rw [hoff] at hb; cases hb
      | indirect hb => rw [hoff] at hb; cases hb
    · obtain ⟨rfl, rfl⟩ := hcall.dispatch_eq hb hd
      exact hfin
  rw [finish, setPc_bind ht.1, invoke_defined hdef] at hfin
  split at hfin
  · cases hfin
  · obtain ⟨g, hsaved, hvsp, hf, hv, -⟩ := pushFrame_ok hfin
    have hentry : InCall ({ fr with pc } :: rest) s₁.vsp s.ctrlDepth
        (bodyArity code (callee - code.importCount)).2 s.vstack s₁ := by
      refine ⟨[], g, hf, ?_, nofun, fun i _ => ?_⟩
      · rw [hsaved]
        show (s₁.vsp, t.ctrlDepth, _) = _
        rw [ht.2.2]
      · rw [hv]
        exact congrFun ht.2.1 i
    obtain hrun | ⟨s', u, hin', hlast, hu, hr⟩ := inside_cases hentry hin
    · exact absurd hrun.frames_ne (Nat.not_lt.mpr hret)
    · exact ⟨s₁.vsp, s', u, hvsp, hin', hlast, hu, hr⟩

end

/-- Two functions of type `() -> i32`; the first calls the second, which returns the constant 7. -/
def twoFunctions : Code (HostFn Unit) :=
  { bodies := [[0x10, 0x01, 0x0B], [0x41, 0x07, 0x0B]], localCounts := [0, 0], types := [(0, 1)],
    funcTypeIndices := [0, 0]
    importTypes := [], importCount := 0, table := .blank, globalMutable := [], hostFns := fun _ => none
    jumpTable := fun _ => ⟨0, 0, 0, 0⟩, memLen := 0 }

def firstFrame : Frame := ⟨0, 0, fun _ => 0, 0, 0, 0, 1⟩

def beforeCall : State Unit :=
  { vstack := fun _ => 0, vsp := 0, frames := [firstFrame], ctrl := fun _ => BLANK_CTRL, ctrlDepth := 0
    globals := fun _ => 0, mem := fun _ => 0, currentPages := 0, activeMem := 0, yieldRequested := false,
    world := () }

theorem call_framing_const : ∃ s₁ s₂ : State Unit, step twoFunctions default beforeCall = .ok () s₁ ∧
    Inside twoFunctions default 1 s₁ s₂ ∧ s₂.vstack 0 = 7 ∧
    ∃ base s' u, beforeCall.vsp = base + 0 ∧ Inside twoFunctions default 1 s₁ s' ∧
    Leads twoFunctions default s' s₂ ∧
      ReturnsFrom twoFunctions default s' u ∧
      Returned [{ firstFrame with pc := 2 }] base 0 1 beforeCall.vstack u s₂ := by
  obtain ⟨s₁, h₁⟩ : ∃ s₁, step twoFunctions default beforeCall = .ok () s₁ := ⟨_, rfl⟩
  obtain ⟨s₂, h₂⟩ : ∃ s₂, step twoFunctions default s₁ = .ok () s₂ := by cases h₁; exact ⟨_, rfl⟩
  obtain ⟨s₃, h₃⟩ : ∃ s₃, step twoFunctions default s₂ = .ok () s₃ := by cases h₁; cases h₂; exact ⟨_, rfl⟩
  have hin : Inside twoFunctions default 1 s₁ s₃ := by
    refine .round (.round .enter ?_ ?_ h₂) ?_ ?_ h₃
    · cases h₁; decide
    · cases h₁
      rintro fr rest ⟨⟩
      exact ⟨by decide, fun next s' hd => by cases hd; trivial⟩
    · cases h₁; cases h₂; decide
    · cases h₁; cases h₂
      rintro fr rest ⟨⟩
      exact ⟨by decide, fun next s' hd => by cases hd; exact Nat.le_refl 1⟩
  refine ⟨s₁, s₃, h₁, hin, ?_, ?_⟩
  · cases h₁; cases h₂; cases h₃; rfl
  · have hcall : CallAt twoFunctions default beforeCall firstFrame 2 1 beforeCall := .direct rfl rfl rfl
    have hfr : beforeCall.frames = firstFrame :: [] := rfl
    have hret : s₃.frames.length ≤ 1 := by
      cases h₁; cases h₂; cases h₃
      decide
    exact call_framing hfr hcall (by decide) h₁ hin hret

end WasmOs
