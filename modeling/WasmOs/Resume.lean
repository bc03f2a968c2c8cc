import WasmOs.Interp

/-!
# Yield and resume

A host function suspends a task by failing with `Yielded`, and `resume` enters the dispatch loop again.
By then the position behind the call stands in the frame, and what `run` keeps in locals can be computed
from the state, so the suspension leaves no trace: draining all yields gives what one run gives whose
host functions return where they yielded.
-/

namespace WasmOs

open Hoare

section
variable {ω α β : Type}

/-- The host function that has the same effect and returns where `h` yields. -/
def HostFn.unyield (h : HostFn ω) : HostFn ω := fun memLen v =>
  match h memLen v with
  | .error (.err .yielded) v' => .ok () v'
  | r => r

def Code.unyield (code : Code (HostFn ω)) : Code (HostFn ω) :=
  { code with hostFns := fun i => (code.hostFns i).map HostFn.unyield }

/-- The locals of `run` agree with the state, and no suspension is asked for. -/
structure Steady (s : State ω) : Prop where
  yieldRequested : s.yieldRequested = false
  activeMem : s.activeMem = s.currentPages * PAGE_SIZE

def Final (e : Fault InterpError) : Prop := e ≠ .err .yielded

/-- The computation never suspends the task. -/
abbrev Quiet (m : Interp ω α) : Prop := Hoare.Within Steady Final m

/-! ## Only a host function suspends -/

def NoYield (m : Rust InterpError α) : Prop := m ≠ .error (.err .yielded)

theorem noYield_bind {m : Rust InterpError α} {f : α → Rust InterpError β} (hm : NoYield m)
    (hf : ∀ a, NoYield (f a)) :
    NoYield (m >>= f) := by
  cases m with
  | ok a => exact hf a
  | error e => intro h; exact hm (by cases h; rfl)

theorem noYield_ok {a : α} : NoYield (.ok a) := by simp [NoYield]

theorem noYield_readAt {read : List UInt8 → Option (α × Nat)} {body : List UInt8} {pc : Nat} :
    NoYield (readAt read body InterpError.malformedCode pc) := by
  unfold readAt
  apply noYield_bind
  · unfold sliceFrom NoYield
    split <;> simp
  · intro rest
    apply noYield_bind
    · unfold okOr NoYield
      split <;> simp
    · rintro ⟨v, n⟩
      apply noYield_bind
      · unfold uadd NoYield
        split <;> simp
      · exact fun _ => noYield_ok

theorem noYield_readMemarg {body : List UInt8} {pc : Nat} : NoYield (readMemarg body pc) :=
  noYield_bind noYield_readAt fun _ => noYield_readAt

theorem noYield_tableAt {cap i : Nat} {xs : List α} {d : α} : NoYield (tableAt cap xs d i) := by
  unfold tableAt NoYield
  split <;> simp

theorem noYield_blockTargets {code : Code (HostFn ω)} {bodyIdx pc : Nat} {body : List UInt8} :
    NoYield (blockTargets code bodyIdx body pc) := by
  unfold blockTargets
  apply noYield_bind
  · unfold NoYield mapErr
    split <;> simp
    rename_i e _
    exact e.elim
  · intro o
    cases o with
    | some t => exact noYield_ok
    | none => unfold NoYield mapErr; dsimp only; split <;> simp

theorem noYield_brTable {body : List UInt8} {sel : Nat} : ∀ (n : Nat) (x : Nat × Nat × Nat),
    NoYield (iter (brTable.step body sel) n x)
  | 0, _ => noYield_ok
  | n + 1, (k, pos, target) => by
    unfold iter brTable.step
    exact noYield_bind (noYield_bind noYield_readAt fun _ => noYield_ok) fun x => noYield_brTable n x

theorem within_lift {I : State ω → Prop} {m : Rust InterpError α} (h : NoYield m) :
    Hoare.Within I Final (lift m) := by
  intro s hs
  unfold wp lift
  cases m with
  | ok a => exact hs
  | error e => intro he; exact h (by rw [he])

/-! ### The stacks -/

theorem Steady.congr {s s' : State ω} (h : Steady s) (hy : s'.yieldRequested = s.yieldRequested)
    (ha : s'.activeMem = s.activeMem) (hp : s'.currentPages = s.currentPages) : Steady s' :=
  ⟨by rw [hy, h.yieldRequested], by rw [ha, hp, h.activeMem]⟩

theorem final_err {e : InterpError} (h : e ≠ .yielded) : Final (.err e) := fun he => h (by cases he; rfl)

theorem final_panic : Final .panic := fun h => by cases h

theorem quiet_vPush (v : BitVec 64) : Quiet (ω := ω) (vPush v) :=
  within_get fun _ hs => within_ite (within_throw (final_err (by decide))) (within_set (hs.congr rfl rfl rfl))

theorem within_vPop {I : State ω → Prop} (hI : ∀ s n, I s → I { s with vsp := n }) : Hoare.Within I Final vPop :=
  within_get fun s hs => within_ite (within_throw (final_err (by decide)))
    (within_ite (within_throw final_panic) (within_bind (within_set (hI s _ hs)) fun _ => within_pure _))

theorem quiet_vPop : Quiet (ω := ω) vPop := within_vPop fun _ _ hs => hs.congr rfl rfl rfl

theorem quiet_ctrlPush (cf : CtrlFrame) : Quiet (ω := ω) (ctrlPush cf) :=
  within_get fun _ hs => within_ite (within_throw (final_err (by decide))) (within_set (hs.congr rfl rfl rfl))

theorem quiet_topFrame : Quiet (ω := ω) topFrame :=
  within_get fun s _ => by
    cases s.frames with
    | nil => exact within_throw final_panic
    | cons fr rest => exact within_pure fr

theorem quiet_setFrame (f : Frame → Frame) : Quiet (ω := ω) (setFrame f) :=
  within_get fun s hs => by
    cases s.frames with
    | nil => exact within_throw final_panic
    | cons fr rest => exact within_set (hs.congr rfl rfl rfl)

theorem within_popParams {I : State ω → Prop} (hI : ∀ s n, I s → I { s with vsp := n }) :
    ∀ (n : Nat) (locals : Nat → BitVec 64), Hoare.Within I Final (popParams n locals)
  | 0, locals => within_pure locals
  | n + 1, _ => within_bind (within_vPop hI) fun _ =>
    within_ite (within_throw final_panic) (within_popParams hI n _)

theorem quiet_doReturn : Quiet (ω := ω) doReturn :=
  within_get fun s hs => by
    cases s.frames with
    | nil => exact within_throw final_panic
    | cons fr rest => exact within_ite (within_throw final_panic) (within_set (hs.congr rfl rfl rfl))

theorem quiet_doBr (n : Nat) : Quiet (ω := ω) (doBr n) :=
  within_get fun s hs => by
    cases s.frames with
    | nil => exact within_throw final_panic
    | cons fr rest =>
      refine within_ite (within_throw final_panic)
        (within_ite quiet_doReturn (within_ite (within_throw final_panic) ?_))
      dsimp only
      split
      · exact within_set (hs.congr rfl rfl rfl)
      · exact within_set (hs.congr rfl rfl rfl)

end

section
variable {ω : Type} {code : Code (HostFn ω)} {F : FloatOps} {body : List UInt8} {pc : Nat}

/-! ### Instructions -/

theorem within_pushFrame {I : State ω → Prop} (hI : ∀ s n, I s → I { s with vsp := n })
    (hF : ∀ s frames, I s → I { s with frames := frames }) (bodyIdx : Nat) :
    Hoare.Within I Final (pushFrame code bodyIdx) :=
  within_get fun _ _ => within_ite (within_throw (final_err (by decide))) <|
    within_bind (within_lift noYield_tableAt) fun _ =>
      within_bind (within_lift noYield_tableAt) fun _ => within_ite (within_throw (final_err (by decide))) <|
        within_bind (within_popParams hI _ _) fun _ => within_modify fun s hs => hF s _ hs

theorem quiet_pushFrame (bodyIdx : Nat) : Quiet (pushFrame code bodyIdx) :=
  within_pushFrame (fun _ _ hs => hs.congr rfl rfl rfl) (fun _ _ hs => hs.congr rfl rfl rfl) bodyIdx

theorem quiet_memSlice (lo hi : Nat) : Quiet (memSlice code lo hi) :=
  within_ite (within_pure _) (within_throw final_panic)

theorem quiet_execLoad (w : Nat) (ext : Nat → BitVec 64) : Quiet (execLoad code body pc w ext) :=
  within_bind (within_lift noYield_readMemarg) fun _ => within_bind quiet_vPop fun _ => within_get fun s _ =>
    within_ite (within_throw (final_err (by decide))) <| within_bind (quiet_memSlice _ _) fun _ =>
      within_bind (quiet_vPush _) fun _ => within_pure _

theorem quiet_execStore (w : Nat) : Quiet (execStore code body pc w) :=
  within_bind (within_lift noYield_readMemarg) fun _ => within_bind quiet_vPop fun _ =>
    within_bind quiet_vPop fun _ =>
    within_get fun s hs => within_ite (within_throw (final_err (by decide))) <|
      within_bind (quiet_memSlice _ _) fun _ => within_bind (within_set (hs.congr rfl rfl rfl)) fun _ =>
        within_pure _

/-- `memory.grow` moves the page count and the accessible bytes together. -/
theorem quiet_execMemoryGrow : Quiet (execMemoryGrow code) :=
  within_bind quiet_vPop fun _ => within_get fun _ hs =>
    within_ite (within_bind (quiet_memSlice _ _) fun _ =>
      within_bind (within_set ⟨hs.yieldRequested, rfl⟩) fun _ => quiet_vPush _) (quiet_vPush _)

theorem quiet_execMemoryCopy : Quiet (execMemoryCopy code) :=
  within_bind quiet_vPop fun _ => within_bind quiet_vPop fun _ => within_bind quiet_vPop fun _ =>
    within_get fun _ hs => within_ite (within_throw (final_err (by decide))) <|
      within_bind (quiet_memSlice _ _) fun _ => within_bind (quiet_memSlice _ _) fun _ =>
        within_set (hs.congr rfl rfl rfl)

theorem quiet_execMemoryFill : Quiet (execMemoryFill code) :=
  within_bind quiet_vPop fun _ => within_bind quiet_vPop fun _ => within_bind quiet_vPop fun _ =>
    within_get fun _ hs => within_ite (within_throw (final_err (by decide))) <|
      within_bind (quiet_memSlice _ _) fun _ => within_set (hs.congr rfl rfl rfl)

theorem quiet_execBulk : Quiet (execBulk code F body pc) := by
  unfold execBulk
  refine within_bind (within_lift noYield_readAt) fun p => ?_
  refine within_ite ?_ (within_ite ?_ (within_ite ?_ (within_ite ?_ (within_ite ?_ ?_))))
  · exact within_bind quiet_vPop fun _ => within_bind (quiet_vPush _) fun _ => within_pure _
  · exact within_bind (within_lift noYield_readAt) fun _ => within_bind quiet_vPop fun _ =>
      within_bind quiet_vPop fun _ =>
      within_bind quiet_vPop fun _ => within_ite (within_throw (final_err (by simp))) (within_pure _)
  · exact within_bind (within_lift noYield_readAt) fun _ => within_pure _
  · exact within_bind quiet_execMemoryCopy fun _ => within_pure _
  · exact within_bind quiet_execMemoryFill fun _ => within_pure _
  · exact within_throw (final_err (by simp))

theorem quiet_pushResult (r : Except NumTrap (BitVec 64)) : Quiet (ω := ω) (pushResult r) := by
  cases r with
  | ok v => exact quiet_vPush v
  | error t => cases t <;> exact within_throw (final_err (by decide))

theorem quiet_execNum (op : NumOp) : Quiet (ω := ω) (execNum op) := by
  cases op with
  | un f => exact within_bind quiet_vPop fun a => quiet_pushResult _
  | bin f => exact within_bind quiet_vPop fun b => within_bind quiet_vPop fun a => quiet_pushResult _

theorem quiet_execCallIndirect : Quiet (execCallIndirect code body pc) :=
  within_bind (within_lift noYield_readAt) fun _ => within_bind (within_lift noYield_readAt) fun _ =>
    within_bind quiet_vPop fun _ => within_ite (within_throw (final_err (by decide))) <|
      within_ite (within_throw final_panic) <| within_ite (within_throw (final_err (by decide))) <|
        within_ite (within_throw (final_err (by decide))) (within_pure _)

theorem quiet_execIf (bodyIdx : Nat) : Quiet (execIf code bodyIdx body pc) :=
  within_bind (within_lift noYield_blockTargets) fun _ => within_bind quiet_vPop fun _ =>
    within_ite (within_bind (quiet_ctrlPush _) fun _ => within_pure _) <|
      within_ite (within_bind (quiet_ctrlPush _) fun _ => within_pure _) (within_pure _)

theorem quiet_dispatch {fr : Frame} (op : Opc) : Quiet (dispatch code F fr body pc op) := by
  have read {α : Type} {read : List UInt8 → Option (α × Nat)} :
      Quiet (ω := ω) (lift (readAt read body .malformedCode pc)) := within_lift noYield_readAt
  have refuse {e : InterpError} {α : Type} (h : e ≠ .yielded) : Quiet (ω := ω) (α := α) (throw (.err e)) :=
    within_throw (final_err h)
  have crash {α : Type} : Quiet (ω := ω) (α := α) (throw .panic) := within_throw final_panic
  cases op with
  | nop => exact within_pure _
  | unreachable => exact refuse (by decide)
  | block kind =>
    exact within_bind (within_lift noYield_blockTargets) fun _ => within_bind (quiet_ctrlPush _) fun _ =>
      within_pure _
  | if_ => exact quiet_execIf _
  | else_ =>
    exact within_get fun _ hs => within_ite crash <| within_bind (within_set (hs.congr rfl rfl rfl)) fun _ =>
      within_pure _
  | end_ =>
    exact within_get fun _ hs => within_ite (within_bind (within_set (hs.congr rfl rfl rfl)) fun _ =>
      within_pure _) (within_pure _)
  | br => exact within_bind read fun _ => within_pure _
  | brIf =>
    exact within_bind read fun _ => within_bind quiet_vPop fun _ => within_ite (within_pure _) (within_pure _)
  | brTable =>
    exact within_bind read fun _ => within_bind quiet_vPop fun _ =>
      within_bind (within_lift (noYield_brTable _ _)) fun _ => within_pure _
  | return_ => exact within_pure _
  | call => exact within_bind read fun _ => within_pure _
  | callIndirect => exact quiet_execCallIndirect
  | drop => exact within_bind quiet_vPop fun _ => within_pure _
  | select =>
    exact within_bind quiet_vPop fun _ => within_bind quiet_vPop fun _ => within_bind quiet_vPop fun _ =>
      within_bind (quiet_vPush _) fun _ => within_pure _
  | localGet =>
    exact within_bind read fun _ => within_ite (refuse (by decide)) <| within_ite crash <|
      within_bind (quiet_vPush _) fun _ => within_pure _
  | localSet =>
    exact within_bind read fun _ => within_ite (refuse (by decide)) <| within_bind quiet_vPop fun _ =>
      within_ite crash <|
      within_bind (quiet_setFrame _) fun _ => within_pure _
  | localTee =>
    exact within_bind read fun _ => within_ite (refuse (by decide)) <| within_get fun _ _ =>
      within_ite (refuse (by decide)) <|
      within_ite crash <| within_bind (quiet_setFrame _) fun _ => within_pure _
  | globalGet =>
    exact within_bind read fun _ => within_ite (refuse (by decide)) <| within_ite crash <| within_get fun _ _ =>
      within_bind (quiet_vPush _) fun _ => within_pure _
  | globalSet =>
    exact within_bind read fun _ => within_ite (refuse (by decide)) <|
      within_bind (within_lift noYield_tableAt) fun _ =>
      within_ite (refuse (by decide)) <| within_bind quiet_vPop fun _ =>
        within_bind (within_modify fun _ hs => hs.congr rfl rfl rfl) fun _ => within_pure _
  | load w ext => exact within_bind (quiet_execLoad w ext) fun _ => within_pure _
  | store w => exact within_bind (quiet_execStore w) fun _ => within_pure _
  | memorySize => exact within_get fun _ _ => within_bind (quiet_vPush _) fun _ => within_pure _
  | memoryGrow => exact within_bind quiet_execMemoryGrow fun _ => within_pure _
  | i32Const => exact within_bind read fun _ => within_bind (quiet_vPush _) fun _ => within_pure _
  | i64Const => exact within_bind read fun _ => within_bind (quiet_vPush _) fun _ => within_pure _
  | floatConst w => exact within_ite (refuse (by decide)) <| within_bind (quiet_vPush _) fun _ => within_pure _
  | num op => exact within_bind (quiet_execNum op) fun _ => within_pure _
  | bulk => exact within_bind quiet_execBulk fun _ => within_pure _
  | unknown => exact refuse (by simp)

/-! ## One round -/

/-- A suspension taken as a normal end. -/
def settle : EStateM.Result (Fault InterpError) (State ω) Unit → EStateM.Result (Fault InterpError) (State ω) Unit
  | .error (.err .yielded) s => .ok () s
  | r => r

theorem settle_of_final {e : Fault InterpError} {s : State ω} (h : Final e) : settle (.error e s) = .error e s := by
  unfold settle
  split
  · rename_i heq; cases heq; exact absurd rfl h
  · rfl

theorem settle_bind {α : Type} {m : Interp ω α} {f f' : α → Interp ω Unit} {s : State ω} (hm : Quiet m)
    (hs : Steady s)
    (hf : ∀ a s', Steady s' → f' a s' = settle (f a s')) : (m >>= f') s = settle ((m >>= f) s) := by
  have h := hm s hs
  unfold wp at h
  cases hr : m s with
  | ok a s' => rw [hr] at h; rw [Hoare.bind_ok hr, Hoare.bind_ok hr]; exact hf a s' h
  | error e s' => rw [hr] at h; rw [Hoare.bind_error hr, Hoare.bind_error hr, settle_of_final h]

theorem settle_quiet {m : Interp ω Unit} {s : State ω} (hm : Quiet m) (hs : Steady s) : m s = settle (m s) := by
  have h := hm s hs
  unfold wp at h
  cases hr : m s with
  | ok a s' => rfl
  | error e s' => rw [hr] at h; rw [settle_of_final h]

theorem unyield_of_final {h : HostFn ω} {memLen : Nat} {v v' : HostView ω} {e : Fault InterpError}
    (hr : h memLen v = .error e v') (he : Final e) : h.unyield memLen v = .error e v' := by
  unfold HostFn.unyield
  rw [hr]
  split
  · rename_i heq; cases heq; exact absurd rfl he
  · rfl

theorem callHost_unyield (h : HostFn ω) (s : State ω) :
    callHost code.unyield h.unyield s = settle (callHost code h s) := by
  unfold callHost
  cases hr : h code.memLen s.view with
  | ok a v =>
    have : h.unyield code.unyield.memLen s.view = .ok a v := by
      show h.unyield code.memLen s.view = _
      unfold HostFn.unyield
      rw [hr]
    rw [this]
    rfl
  | error e v =>
    by_cases he : Final e
    · have : h.unyield code.unyield.memLen s.view = .error e v := unyield_of_final hr he
      rw [this, settle_of_final he]
    · have hy : e = .err .yielded := Classical.not_not.mp he
      subst hy
      have : h.unyield code.unyield.memLen s.view = .ok () v := by
        show h.unyield code.memLen s.view = _
        unfold HostFn.unyield
        rw [hr]
      rw [this]
      rfl

theorem invoke_import {callee : Nat} (hc : callee < code.importCount) (hm : callee < MAX_FUNCS) :
    invoke code callee =
    match code.hostFns callee with
    | none => throw (.err .importNotFound)
    | some h => callHost code h := by
  have hwhole : invoke code callee = _ := if_pos hc
  exact hwhole.trans (if_neg (Nat.not_le_of_lt hm))

theorem invoke_import_panic {callee : Nat} (hc : callee < code.importCount) (hm : MAX_FUNCS ≤ callee) :
    invoke code callee = throw .panic := by
  unfold invoke
  rw [if_pos hc, if_pos hm]

theorem invoke_defined {callee : Nat} (hc : ¬ callee < code.importCount) : invoke code callee =
    if code.bodies.length ≤ callee - code.importCount then throw (.err .funcIndexOutOfRange)
    else pushFrame code (callee - code.importCount) := by
  unfold invoke
  rw [if_neg hc]

theorem dispatch_unyield {fr : Frame} (op : Opc) :
    dispatch code.unyield F fr body pc op = dispatch code F fr body pc op := by
  cases op <;> rfl

theorem invoke_unyield (callee : Nat) {s : State ω} (hs : Steady s) :
    invoke code.unyield callee s = settle (invoke code callee s) := by
  by_cases hc : callee < code.importCount
  · have hc' : callee < code.unyield.importCount := hc
    by_cases hm : callee < MAX_FUNCS
    · rw [invoke_import hc hm, invoke_import hc' hm]
      have hh : code.unyield.hostFns callee = (code.hostFns callee).map HostFn.unyield := rfl
      rw [hh]
      cases code.hostFns callee with
      | none => rfl
      | some h => exact callHost_unyield h s
    · rw [invoke_import_panic hc (Nat.le_of_not_lt hm), invoke_import_panic hc' (Nat.le_of_not_lt hm)]
      rfl
  · have hc' : ¬ callee < code.unyield.importCount := hc
    have heq : invoke code.unyield callee = invoke code callee :=
      (invoke_defined hc').trans (invoke_defined hc).symm
    rw [heq, invoke_defined hc]
    split
    · rfl
    · exact settle_quiet (quiet_pushFrame _) hs

theorem finish_unyield (next : Next) {s : State ω} (hs : Steady s) :
    finish code.unyield next s = settle (finish code next s) := by
  cases next with
  | seq pc => exact settle_quiet (quiet_setFrame _) hs
  | br pc n => exact settle_quiet (within_bind (quiet_setFrame _) fun _ => quiet_doBr n) hs
  | ret => exact settle_quiet quiet_doReturn hs
  | call pc callee => exact settle_bind (quiet_setFrame _) hs fun _ _ hs' => invoke_unyield callee hs'

/-- The round of the host functions that return is the round of those that yield, with the suspension taken
as a normal end. -/
theorem step_unyield {s : State ω} (hs : Steady s) : step code.unyield F s = settle (step code F s) := by
  have hy : ¬ s.yieldRequested = true := by rw [hs.yieldRequested]; decide
  unfold step
  rw [get_bind, get_bind, if_neg hy, if_neg hy]
  refine settle_bind quiet_topFrame hs fun fr s' hs' => ?_
  refine settle_bind (within_lift noYield_tableAt) hs' fun body s'' hs'' => ?_
  cases body[fr.pc]? with
  | none => exact settle_quiet quiet_doReturn hs''
  | some op =>
    simp only [dispatch_unyield]
    exact settle_bind (quiet_dispatch _) hs'' fun next t ht => finish_unyield next ht

theorem unyield_final {h : HostFn ω} {memLen : Nat} {v v' : HostView ω} {e : Fault InterpError}
    (hr : h.unyield memLen v = .error e v') : Final e := by
  unfold HostFn.unyield at hr
  split at hr
  · cases hr
  · rename_i hne
    rintro rfl
    exact hne v' hr

theorem unyield_ok {h : HostFn ω} {memLen : Nat} {v v' : HostView ω} (hr : h.unyield memLen v = .ok () v') :
    h memLen v = .ok () v' ∨ h memLen v = .error (.err .yielded) v' := by
  unfold HostFn.unyield at hr
  split at hr
  · rename_i heq; cases hr; exact .inr heq
  · exact .inl hr

theorem quiet_callHost_unyield (h : HostFn ω) : Quiet (callHost code.unyield h.unyield) := by
  intro s hs
  unfold wp callHost
  cases hr : h.unyield code.unyield.memLen s.view with
  | ok a v => exact hs.congr rfl rfl rfl
  | error e v => exact unyield_final hr

theorem quiet_invoke_unyield (callee : Nat) : Quiet (invoke code.unyield callee) := by
  by_cases hc : callee < code.unyield.importCount
  · by_cases hm : callee < MAX_FUNCS
    · rw [invoke_import hc hm]
      have hh : code.unyield.hostFns callee = (code.hostFns callee).map HostFn.unyield := rfl
      rw [hh]
      cases code.hostFns callee with
      | none => exact within_throw (final_err (by decide))
      | some h => exact quiet_callHost_unyield h
    · rw [invoke_import_panic hc (Nat.le_of_not_lt hm)]
      exact within_throw final_panic
  · rw [invoke_defined hc]
    exact within_ite (within_throw (final_err (by decide))) (quiet_pushFrame _)

theorem quiet_finish_unyield (next : Next) : Quiet (finish code.unyield next) := by
  cases next with
  | seq pc => exact quiet_setFrame _
  | br pc n => exact within_bind (quiet_setFrame _) fun _ => quiet_doBr n
  | ret => exact quiet_doReturn
  | call pc callee => exact within_bind (quiet_setFrame _) fun _ => quiet_invoke_unyield callee

theorem quiet_step_unyield : Quiet (step code.unyield F) := by
  refine within_get fun s hs => ?_
  have hy : ¬ s.yieldRequested = true := by rw [hs.yieldRequested]; decide
  rw [if_neg hy]
  refine within_bind quiet_topFrame fun fr => within_bind (within_lift noYield_tableAt) fun body => ?_
  cases body[fr.pc]? with
  | none => exact quiet_doReturn
  | some op => exact within_bind (quiet_dispatch _) fun next => quiet_finish_unyield next

/-! ## Runs -/

theorem runLoop_empty {s : State ω} (h : s.frames.isEmpty = true) (n : Nat) : runLoop code F n s = .ok true s := by
  cases n with
  | zero => unfold runLoop; rw [get_bind, h]; rfl
  | succ n => unfold runLoop; rw [get_bind, if_pos h]; rfl

theorem runLoop_zero {s : State ω} (h : ¬ s.frames.isEmpty = true) : runLoop code F 0 s = .ok false s := by
  have : s.frames.isEmpty = false := by simpa using h
  unfold runLoop
  rw [get_bind, this]
  rfl

theorem runLoop_ok {s s' : State ω} (h : ¬ s.frames.isEmpty = true) (hs : step code F s = .ok () s') (n : Nat) :
    runLoop code F (n + 1) s = runLoop code F n s' := by
  rw [runLoop, get_bind, if_neg h, Hoare.bind_ok hs]

theorem runLoop_error {s s' : State ω} {e : Fault InterpError} (h : ¬ s.frames.isEmpty = true)
    (hs : step code F s = .error e s') (n : Nat) : runLoop code F (n + 1) s = .error e s' := by
  rw [runLoop, get_bind, if_neg h, Hoare.bind_error hs]

/-- The result is one a run ends with: the fuel was enough, and the task is not suspended. -/
def Ended : EStateM.Result (Fault InterpError) (State ω) Bool → Prop
  | .ok done _ => done = true
  | .error e _ => Final e

/-- `r` is what `resume` leads to in the end from the result of a run. -/
inductive Drains (code : Code (HostFn ω)) (F : FloatOps) :
    EStateM.Result (Fault InterpError) (State ω) Bool → EStateM.Result (Fault InterpError) (State ω) Bool → Prop
  | ended {r : EStateM.Result (Fault InterpError) (State ω) Bool} (h : Ended r) : Drains code F r r
  | resume {s : State ω} {r : EStateM.Result (Fault InterpError) (State ω) Bool} (fuel : Nat)
      (h : Drains code F (run code F fuel s) r) : Drains code F (.error (.err .yielded) s) r

theorem run_steady {s : State ω} (hs : Steady s) (fuel : Nat) : run code F fuel s = runLoop code F fuel s := by
  have : { s with activeMem := s.currentPages * PAGE_SIZE } = s := by
    rw [← hs.activeMem]
  show runLoop code F fuel { s with activeMem := s.currentPages * PAGE_SIZE } = _
  rw [this]

theorem round_cases (code : Code (HostFn ω)) (F : FloatOps) {s : State ω} (hs : Steady s) :
    (∃ s', Steady s' ∧ (step code F s = .ok () s' ∨ step code F s = .error (.err .yielded) s') ∧
      step code.unyield F s = .ok () s') ∨
    (∃ e s', Final e ∧ step code F s = .error e s' ∧ step code.unyield F s = .error e s') := by
  have hu : step code.unyield F s = settle (step code F s) := step_unyield hs
  have hq : wp (step code.unyield F) (fun _ => Steady) (fun e _ => Final e) s := quiet_step_unyield s hs
  cases hr : step code F s with
  | ok a s' =>
    rw [hr] at hu
    exact .inl ⟨s', wp_ok hq hu, .inl rfl, hu⟩
  | error e s' =>
    rw [hr] at hu
    by_cases he : Final e
    · rw [settle_of_final he] at hu
      exact .inr ⟨e, s', he, rfl, hu⟩
    · have hy : e = .err .yielded := Classical.not_not.mp he
      subst hy
      exact .inl ⟨s', wp_ok hq hu, .inr rfl, hu⟩

/-- Up to its first suspension a run goes the same way on both machines. -/
theorem runLoop_ended : ∀ (n : Nat) {s : State ω}, Steady s → Ended (runLoop code F n s) →
    runLoop code.unyield F n s = runLoop code F n s
  | n, s, hs, he => by
    by_cases hf : s.frames.isEmpty = true
    · rw [runLoop_empty hf, runLoop_empty hf]
    · cases n with
      | zero => rw [runLoop_zero hf, runLoop_zero hf]
      | succ n =>
        obtain ⟨s', hs', hr | hr, hu⟩ | ⟨e, s', -, hr, hu⟩ := round_cases code F hs
        · rw [runLoop_ok hf hr] at he ⊢
          rw [runLoop_ok hf hu]
          exact runLoop_ended n hs' he
        · rw [runLoop_error hf hr] at he
          exact absurd rfl he
        · rw [runLoop_error hf hr, runLoop_error hf hu]

theorem runLoop_yields : ∀ (n : Nat) {s t : State ω}, Steady s → runLoop code F n s = .error (.err .yielded) t →
    Steady t ∧ ∃ k, ∀ m, runLoop code.unyield F (k + m) s = runLoop code.unyield F m t
  | n, s, t, hs, hy => by
    by_cases hf : s.frames.isEmpty = true
    · rw [runLoop_empty hf] at hy
      cases hy
    · cases n with
      | zero => rw [runLoop_zero hf] at hy; cases hy
      | succ n =>
        obtain ⟨s', hs', hr | hr, hu⟩ | ⟨e, s', he, hr, -⟩ := round_cases code F hs
        · rw [runLoop_ok hf hr] at hy
          obtain ⟨ht, k, hk⟩ := runLoop_yields n hs' hy
          refine ⟨ht, k + 1, fun m => ?_⟩
          rw [Nat.add_right_comm, runLoop_ok hf hu, hk]
        · rw [runLoop_error hf hr] at hy
          cases hy
          refine ⟨hs', 1, fun m => ?_⟩
          rw [Nat.add_comm, runLoop_ok hf hu]
        · rw [runLoop_error hf hr] at hy
          cases hy
          exact absurd rfl he

/-- Whatever resuming leads to, one run without suspensions leads to as well. -/
theorem unyield_of_drains {x r : EStateM.Result (Fault InterpError) (State ω) Bool} (h : Drains code F x r) :
    ∀ {n : Nat} {s : State ω}, Steady s → x = runLoop code F n s →
    Ended r ∧ ∃ m, runLoop code.unyield F m s = r := by
  induction h with
  | ended he =>
    intro n s hs hx
    refine ⟨he, n, ?_⟩
    rw [runLoop_ended n hs (hx ▸ he), hx]
  | @resume t r fuel h ih =>
    intro n s hs hx
    obtain ⟨ht, k, hk⟩ := runLoop_yields n hs hx.symm
    obtain ⟨he, m, hm⟩ := ih ht (run_steady ht fuel)
    exact ⟨he, k + m, by rw [hk, hm]⟩

/-- Whatever a run without suspensions leads to, resuming leads to as well. -/
theorem drains_of_unyield : ∀ (m : Nat) {s : State ω}, Steady s → Ended (runLoop code.unyield F m s) →
    ∃ n, Drains code F (runLoop code F n s) (runLoop code.unyield F m s)
  | m, s, hs, he => by
    by_cases hf : s.frames.isEmpty = true
    · refine ⟨0, ?_⟩
      rw [runLoop_empty hf, runLoop_empty hf]
      exact .ended rfl
    · cases m with
      | zero =>
        rw [runLoop_zero hf] at he
        cases he
      | succ m =>
        obtain ⟨s', hs', hr | hr, hu⟩ | ⟨e, s', hfin, hr, hu⟩ := round_cases code F hs
        · rw [runLoop_ok hf hu] at he ⊢
          obtain ⟨n, hn⟩ := drains_of_unyield m hs' he
          exact ⟨n + 1, by rw [runLoop_ok hf hr]; exact hn⟩
        · rw [runLoop_ok hf hu] at he ⊢
          obtain ⟨n, hn⟩ := drains_of_unyield m hs' he
          refine ⟨1, ?_⟩
          rw [runLoop_error hf hr]
          exact .resume n (by rw [run_steady hs']; exact hn)
        · refine ⟨1, ?_⟩
          rw [runLoop_error hf hr, runLoop_error hf hu]
          exact .ended hfin

theorem within_beginCall (funcIdx : Nat) :
    Hoare.Within (fun s : State ω => s.yieldRequested = false) Final (beginCall code funcIdx) :=
  within_ite (within_throw (final_err (by decide))) <| within_ite (within_throw (final_err (by decide))) <|
    within_pushFrame (fun _ _ h => h) (fun _ _ h => h) _

/-- Calling a function and resuming it until it is not suspended any more ends with a result exactly when
one call ends with that result in which every host function returns where it yielded. The result is the
outcome together with the whole state. -/
theorem call_resume_transparent {s : State ω} (hs : s.yieldRequested = false) (funcIdx : Nat)
    (r : EStateM.Result (Fault InterpError) (State ω) Bool) :
    (∃ fuel, Drains code F (call code F funcIdx fuel s) r) ↔
      Ended r ∧ ∃ fuel, call code.unyield F funcIdx fuel s = r := by
  have hb : wp (beginCall code funcIdx) (fun _ t => t.yieldRequested = false) (fun e _ => Final e) s :=
    within_beginCall funcIdx s hs
  cases hc : beginCall code funcIdx s with
  | error e t =>
    have hfin := wp_error hb hc
    have h₁ : ∀ fuel, call code F funcIdx fuel s = .error e t := fun fuel => Hoare.bind_error hc
    have h₂ : ∀ fuel, call code.unyield F funcIdx fuel s = .error e t := fun fuel => Hoare.bind_error hc
    simp only [h₁, h₂]
    constructor
    · rintro ⟨-, h⟩
      cases h with
      | ended he => exact ⟨he, 0, rfl⟩
      | resume fuel h => exact absurd rfl hfin
    · rintro ⟨he, -, rfl⟩
      exact ⟨0, .ended he⟩
  | ok _ t =>
    have hy := wp_ok hb hc
    have ht : Steady { t with activeMem := t.currentPages * PAGE_SIZE } := ⟨hy, rfl⟩
    have h₁ : ∀ fuel, call code F funcIdx fuel s =
        runLoop code F fuel { t with activeMem := t.currentPages * PAGE_SIZE } :=
      fun fuel => Hoare.bind_ok hc
    have h₂ : ∀ fuel, call code.unyield F funcIdx fuel s =
        runLoop code.unyield F fuel { t with activeMem := t.currentPages * PAGE_SIZE } :=
      fun fuel => Hoare.bind_ok hc
    simp only [h₁, h₂]
    constructor
    · rintro ⟨fuel, h⟩
      exact unyield_of_drains h ht rfl
    · rintro ⟨he, fuel, rfl⟩
      exact drains_of_unyield fuel ht he

end

/-- A module that imports `env.yield` and whose only function calls it. -/
def yieldModule : List UInt8 :=
  [0x00, 0x61, 0x73, 0x6D, 0x01, 0x00, 0x00, 0x00, 0x01, 0x04, 0x01, 0x60, 0x00, 0x00,
    0x02, 0x0D, 0x01, 0x03, 0x65, 0x6E, 0x76, 0x05, 0x79, 0x69, 0x65, 0x6C, 0x64, 0x00, 0x00,
    0x03, 0x02, 0x01, 0x00, 0x0A, 0x06, 0x01, 0x04, 0x00, 0x10, 0x00, 0x0B]

def returned : EStateM.Result (Fault InterpError) (State Unit) Bool → Bool
  | .ok done t => done && t.frames.isEmpty
  | .error _ _ => false

theorem call_resume_transparent_yield : ∃ inst : Instance (HostFn Unit),
    instantiate (fun _ _ => some hostYield) yieldModule = .ok inst ∧
    ∃ r fuel, returned r ∧ Drains inst.code default (call inst.code default 1 fuel (inst.initial ())) r := by
  have hrun : ∃ inst : Instance (HostFn Unit), instantiate (fun _ _ => some hostYield) yieldModule = .ok inst ∧
      returned (call inst.code.unyield default 1 2 (inst.initial ())) = true := ⟨_, rfl, by decide +kernel⟩
  obtain ⟨inst, hinst, hret⟩ := hrun
  have hended : Ended (call inst.code.unyield default 1 2 (inst.initial ())) := by
    cases hr : call inst.code.unyield default 1 2 (inst.initial ()) with
    | ok done t => rw [hr] at hret; exact (Bool.and_eq_true_iff.mp hret).1
    | error e t => rw [hr] at hret; cases hret
  obtain ⟨fuel, hd⟩ := (call_resume_transparent rfl 1 _).mpr ⟨hended, 2, rfl⟩
  exact ⟨inst, hinst, _, fuel, hret, hd⟩

end WasmOs
