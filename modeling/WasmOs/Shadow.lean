import WasmOs.CallFrame
import WasmOs.JitAgree
import WasmOs.JitInstall
import WasmOs.MemoryGrow

/-!
# Shadow runs

A build with `jit_shadow` runs the body of a compiled function once more in the interpreter, on the
stacks of the caller. Of the four exits of `run_shadow` the one after a failed run restores the value
stack pointer but leaves the frames and the control stack of the callee where they are.
-/

namespace WasmOs

open Hoare (wp wp_bind wp_pure wp_throw wp_get wp_set wp_modify wp_ite wp_mono Keeps keeps_pure keeps_bind)

/-! ## The code -/

/-- An interpreter with the depth of frames at which `run` stops. -/
structure Shadowed (ω : Type) where
  interp : State ω
  shadowStopFdepth : Nat

abbrev ShadowM (ω : Type) := EStateM (Fault InterpError) (Shadowed ω)

section
variable {ω α : Type}

def onInterp (m : Interp ω α) : ShadowM ω α := fun t =>
  match m t.interp with
  | .ok a s => .ok a { t with interp := s }
  | .error e s => .error e { t with interp := s }

def attempt (m : ShadowM ω α) : ShadowM ω (Except InterpError α) := fun t =>
  match m t with
  | .ok a t => .ok (.ok a) t
  | .error (.err e) t => .ok (.error e) t
  | .error e t => .error e t

/-- `for &p in params { v_push(p)?; }` -/
def pushParams : List (BitVec 64) → Interp ω Unit
  | [] => pure ()
  | p :: params => do
    vPush p
    pushParams params

def restoreStop (saved : Shadowed ω) : ShadowM ω Unit :=
  modify fun t => { t with shadowStopFdepth := saved.shadowStopFdepth }

def restoreVsp (saved : Shadowed ω) : ShadowM ω Unit :=
  modify fun t => { t with interp := { t.interp with vsp := saved.interp.vsp } }

variable (code : Code (HostFn ω)) (F : FloatOps)

/-- At most `fuel` rounds; `true` if the frames are down to `shadow_stop_fdepth`. -/
def runToStop : Nat → ShadowM ω Bool
  | 0 => do
    let t ← get
    pure (t.interp.frames.length ≤ t.shadowStopFdepth)
  | fuel + 1 => do
    let t ← get
    if t.interp.frames.length ≤ t.shadowStopFdepth then pure true else
    onInterp (step code F)
    runToStop fuel

/-- `run` inside another run, which has its own local for the number of accessible bytes. -/
def runInner (fuel : Nat) : ShadowM ω (Except InterpError Bool) := do
  let outer ← get
  onInterp enterRun
  let ended ← attempt (runToStop code F fuel)
  modify fun t => { t with interp := { t.interp with activeMem := outer.interp.activeMem } }
  pure ended

/-- The end of `run_shadow`, with the frame of the callee in place; `none` if the fuel is used up. -/
def runShadow.finish (saved : Shadowed ω) (nResults fuel : Nat) : ShadowM ω (Option (Option (BitVec 64))) := do
  match ← runInner code F fuel with
  | .ok false => pure none
  | .error _ =>
    restoreStop saved
    restoreVsp saved
    pure (some none)
  | .ok true =>
    restoreStop saved
    let t ← get
    if 0 < nResults ∧ saved.interp.vsp < t.interp.vsp then
      if STACK_DEPTH < t.interp.vsp then throw .panic else
      set { t with interp := { t.interp with vsp := t.interp.vsp - 1 } }
      pure (some (some (t.interp.vstack (t.interp.vsp - 1))))
    else do
      restoreVsp saved
      pure (some (some 0))

def runShadow (calleeBody : Nat) (params : List (BitVec 64)) (nResults fuel : Nat) :
    ShadowM ω (Option (Option (BitVec 64))) := do
  let saved ← get
  set { saved with shadowStopFdepth := saved.interp.frames.length }
  match ← attempt (onInterp (pushParams params)) with
  | .error _ =>
    restoreStop saved
    restoreVsp saved
    pure (some none)
  | .ok _ =>
  match ← attempt (onInterp (pushFrame code calleeBody)) with
  | .error _ =>
    restoreStop saved
    restoreVsp saved
    pure (some none)
  | .ok _ => runShadow.finish code F saved nResults fuel

end

/-! ## Being neutral -/

section
variable {ω : Type}

structure Unchanged (t t' : Shadowed ω) : Prop where
  vsp : t'.interp.vsp = t.interp.vsp
  values : ∀ i < t.interp.vsp, t'.interp.vstack i = t.interp.vstack i
  frames : t'.interp.frames = t.interp.frames
  ctrlDepth : t'.interp.ctrlDepth = t.interp.ctrlDepth
  ctrl : t'.interp.ctrl = t.interp.ctrl
  stop : t'.shadowStopFdepth = t.shadowStopFdepth
  globals : t'.interp.globals = t.interp.globals
  mem : t'.interp.mem = t.interp.mem
  currentPages : t'.interp.currentPages = t.interp.currentPages

/-- The shadow run of a body ends and leaves everything as it was. -/
def Neutral (code : Code (HostFn ω)) (F : FloatOps) (calleeBody : Nat) (params : List (BitVec 64))
    (nResults : Nat) (t : Shadowed ω) : Prop :=
  ∃ fuel r t', runShadow code F calleeBody params nResults fuel t = .ok (some r) t' ∧ Unchanged t t'

/-- The parameters or the frame of the callee do not fit. -/
def NotEntered (code : Code (HostFn ω)) (calleeBody : Nat) (params : List (BitVec 64)) (s : State ω) : Prop :=
  STACK_DEPTH < s.vsp + params.length ∨ CALL_DEPTH ≤ s.frames.length ∨ MAX_LOCALS < localsOf code calleeBody ∨
    s.vsp + params.length < (bodyArity code calleeBody).1

/-- The interpreter at the first round of the callee. -/
def enterShadow (code : Code (HostFn ω)) (calleeBody : Nat) (params : List (BitVec 64)) : ShadowM ω Unit := do
  modify fun t => { t with shadowStopFdepth := t.interp.frames.length }
  onInterp (pushParams params)
  onInterp (pushFrame code calleeBody)
  onInterp enterRun

/-- The callee is entered and a round of it, or of a function it calls, fails. -/
def Traps (code : Code (HostFn ω)) (F : FloatOps) (calleeBody : Nat) (params : List (BitVec 64))
    (t : Shadowed ω) : Prop :=
  ∃ t₁ fuel e t₂, enterShadow code calleeBody params t = .ok () t₁ ∧ runToStop code F fuel t₁ = .error (.err e) t₂

end

/-! ## Failed rounds -/

section
variable {ω : Type} {code : Code (HostFn ω)} {F : FloatOps}

theorem depth_shapeOnly (n : Nat) : ShapeOnly fun s : State ω => s.frames.length = n :=
  fun _ _ hf _ _ _ h => hf.trans h

theorem depth_execMemoryGrow (n : Nat) : Keeps (fun s : State ω => s.frames.length = n) (execMemoryGrow code) := by
  have hI := depth_shapeOnly (ω := ω) n
  refine keeps_bind (size_vPop hI) fun delta => Hoare.keeps_get fun s h => ?_
  refine wp_ite.mpr ⟨fun _ => (wp_bind _).mpr (wp_ite.mpr ⟨fun _ => ?_, fun _ => h⟩), fun _ => size_vPush hI _ s h⟩
  exact (wp_pure _).mpr ((wp_bind _).mpr ((wp_set _).mpr (size_vPush hI _ _ h)))

theorem depth_dispatch (n : Nat) (fr : Frame) (body : List UInt8) (pc : Nat) (op : Opc) :
    Keeps (fun s : State ω => s.frames.length = n) (dispatch code F fr body pc op) := by
  by_cases hop : op = .memoryGrow
  · subst hop
    exact keeps_bind (depth_execMemoryGrow n) fun _ => keeps_pure _
  · exact size_dispatch (depth_shapeOnly n) hop

theorem doReturn_error (s : State ω) : wp doReturn (fun _ _ => True) (fun _ s' => s' = s) s := by
  refine (wp_bind _).mpr (wp_get.mpr ?_)
  cases s.frames with
  | nil => exact rfl
  | cons fr rest => exact wp_ite.mpr ⟨fun _ => rfl, fun _ => trivial⟩

theorem doBr_error (n : Nat) (s : State ω) : wp (doBr n) (fun _ _ => True) (fun _ s' => s' = s) s := by
  refine (wp_bind _).mpr (wp_get.mpr ?_)
  cases s.frames with
  | nil => exact rfl
  | cons fr rest =>
    refine wp_ite.mpr ⟨fun _ => rfl, fun _ => wp_ite.mpr ⟨fun _ => doReturn_error s, fun _ =>
      wp_ite.mpr ⟨fun _ => rfl, fun _ => ?_⟩⟩⟩
    simp only
    split <;> exact trivial

theorem pushFrame_error (bodyIdx : Nat) (s : State ω) :
    wp (pushFrame code bodyIdx) (fun _ _ => True) (fun _ s' => s'.frames.length = s.frames.length) s := by
  have hI := depth_shapeOnly (ω := ω) s.frames.length
  refine (wp_bind _).mpr (wp_get.mpr (wp_ite.mpr ⟨fun _ => rfl, fun _ => ?_⟩))
  refine (wp_bind _).mpr (wp_mono (fun typeIdx s₁ h₁ => ?_) (fun _ _ h => h)
    (size_lift (I := fun s' : State ω => s'.frames.length = s.frames.length) _ s rfl))
  refine (wp_bind _).mpr (wp_mono (fun declared s₂ h₂ => ?_) (fun _ _ h => h)
    (size_lift (I := fun s' : State ω => s'.frames.length = s.frames.length) _ s₁ h₁))
  refine wp_ite.mpr ⟨fun _ => h₂, fun _ => ?_⟩
  exact (wp_bind _).mpr (wp_mono (fun locals s₃ _ => trivial) (fun _ _ h => h) (size_popParams hI _ _ s₂ h₂))

theorem invoke_error (callee : Nat) (s : State ω) :
    wp (invoke code callee) (fun _ _ => True) (fun _ s' => s'.frames.length = s.frames.length) s := by
  refine wp_ite.mpr ⟨fun _ => wp_ite.mpr ⟨fun _ => rfl, fun _ => ?_⟩, fun _ =>
    wp_ite.mpr ⟨fun _ => rfl, fun _ => pushFrame_error _ s⟩⟩
  cases code.hostFns callee with
  | none => exact rfl
  | some f =>
    exact wp_mono (fun _ _ _ => trivial) (fun _ _ h => h)
      (size_callHost (depth_shapeOnly s.frames.length) f s rfl)

theorem finish_error (next : Next) (s : State ω) :
    wp (finish code next) (fun _ _ => True) (fun _ s' => s'.frames.length = s.frames.length) s := by
  have hset : ∀ pc, wp (setPc pc) (fun _ s' => s'.frames.length = s.frames.length)
      (fun _ s' => s'.frames.length = s.frames.length) s :=
    fun pc => size_setFrame (depth_shapeOnly s.frames.length) _ s rfl
  cases next with
  | seq pc => exact wp_mono (fun _ _ _ => trivial) (fun _ _ h => h) (hset pc)
  | br pc n =>
    refine (wp_bind _).mpr (wp_mono (fun _ s₁ h₁ => ?_) (fun _ _ h => h) (hset pc))
    exact wp_mono (fun _ _ h => h) (fun _ s' h => by rw [h]; exact h₁) (doBr_error n s₁)
  | ret => exact wp_mono (fun _ _ h => h) (fun _ s' h => by rw [h]) (doReturn_error s)
  | call pc callee =>
    refine (wp_bind _).mpr (wp_mono (fun _ s₁ h₁ => ?_) (fun _ _ h => h) (hset pc))
    exact wp_mono (fun _ _ h => h) (fun _ s' h => h.trans h₁) (invoke_error callee s₁)

/-- A round that fails has as many frames at its end as at its start. -/
theorem step_error {s : State ω} {n : Nat} (hn : s.frames.length = n) :
    wp (step code F) (fun _ _ => True) (fun _ s' => s'.frames.length = n) s := by
  refine (wp_bind _).mpr (wp_get.mpr (wp_ite.mpr ⟨fun _ => (wp_bind _).mpr ((wp_set _).mpr hn), fun _ => ?_⟩))
  refine (wp_bind _).mpr ((wp_bind _).mpr (wp_get.mpr ?_))
  cases s.frames with
  | nil => exact hn
  | cons fr rest =>
    refine (wp_pure _).mpr ((wp_bind _).mpr (wp_lift.mpr ⟨fun body _ => ?_, fun _ _ => hn⟩))
    cases body[fr.pc]? with
    | none => exact wp_mono (fun _ _ h => h) (fun _ s' h => by rw [h]; exact hn) (doReturn_error s)
    | some b =>
      refine (wp_bind _).mpr (wp_mono (fun next s₁ h₁ => ?_) (fun _ _ h => h) (depth_dispatch n fr body _ _ s hn))
      exact wp_mono (fun _ _ h => h) (fun _ s' h => h.trans h₁) (finish_error next s₁)

/-! ## The exits -/

variable {α : Type}

theorem wp_onInterp {m : Interp ω α} {Q : α → Shadowed ω → Prop} {E : Fault InterpError → Shadowed ω → Prop}
    {t : Shadowed ω} :
    wp (onInterp m) Q E t ↔
    wp m (fun a s => Q a { t with interp := s }) (fun e s => E e { t with interp := s }) t.interp := by
  unfold wp onInterp
  cases m t.interp <;> rfl

theorem onInterp_ok {m : Interp ω α} {a : α} {s' : State ω} {t : Shadowed ω} (h : m t.interp = .ok a s') :
    onInterp m t = .ok a { t with interp := s' } := by
  unfold onInterp
  rw [h]

/-- A run that is over or has failed is not changed by more fuel. -/
theorem runToStop_mono : ∀ {n : Nat} {t : Shadowed ω}, (∀ t', runToStop code F n t ≠ .ok false t') →
    ∀ k, runToStop code F (n + k) t = runToStop code F n t
  | 0, t, h, k => by
    by_cases hstop : t.interp.frames.length ≤ t.shadowStopFdepth
    · have hzero : runToStop code F 0 t = .ok true t := by
        show EStateM.Result.ok (decide _) t = _
        rw [decide_eq_true hstop]
      rw [hzero, Nat.zero_add]
      cases k with
      | zero => exact hzero
      | succ k =>
        rw [runToStop, Hoare.get_bind, if_pos hstop]
        rfl
    · refine absurd ?_ (h t)
      show EStateM.Result.ok (decide _) t = _
      rw [decide_eq_false hstop]
  | n + 1, t, h, k => by
    rw [Nat.add_right_comm, runToStop, runToStop, Hoare.get_bind, Hoare.get_bind]
    rw [runToStop, Hoare.get_bind] at h
    by_cases hstop : t.interp.frames.length ≤ t.shadowStopFdepth
    · rw [if_pos hstop, if_pos hstop]
    rw [if_neg hstop] at h ⊢
    rw [if_neg hstop]
    cases hstep : onInterp (step code F) t with
    | error e t₁ => rw [Hoare.bind_error hstep, Hoare.bind_error hstep]
    | ok u t₁ =>
      rw [Hoare.bind_ok hstep] at h
      rw [Hoare.bind_ok hstep, Hoare.bind_ok hstep]
      exact runToStop_mono h k

theorem runToStop_agree {n k : Nat} {t : Shadowed ω} (h₁ : ∀ t', runToStop code F n t ≠ .ok false t')
    (h₂ : ∀ t', runToStop code F k t ≠ .ok false t') : runToStop code F n t = runToStop code F k t := by
  rw [← runToStop_mono h₁ k, Nat.add_comm, runToStop_mono h₂ n]

theorem runToStop_error : ∀ (n : Nat) (t : Shadowed ω), wp (runToStop code F n) (fun _ _ => True)
    (fun _ t' => t.shadowStopFdepth < t'.interp.frames.length) t
  | 0, t => trivial
  | n + 1, t => by
    refine (wp_bind _).mpr
      (wp_get.mpr (wp_ite.mpr ⟨fun _ => trivial, fun hstop => (wp_bind _).mpr (wp_onInterp.mpr ?_)⟩))
    refine wp_mono (fun _ s' _ => ?_) (fun _ s' h => ?_) (step_error rfl)
    · exact runToStop_error n { t with interp := s' }
    · show t.shadowStopFdepth < s'.frames.length
      omega

/-- The end of a shadow run from the end of the run inside it: after a failed one, only the stop and the stack
pointer are restored. -/
theorem finish_of_error (saved : Shadowed ω) (nResults : Nat) {t t' : Shadowed ω} {fuel : Nat}
    {e : InterpError} (s₁ : State ω) (hs : enterRun t.interp = .ok () s₁)
    (h : runToStop code F fuel { t with interp := s₁ } = .error (.err e) t') :
    ∃ t₂, runShadow.finish code F saved nResults fuel t = .ok (some none) t₂ ∧
      t₂.interp.frames = t'.interp.frames := by
  have hinner : runInner code F fuel t =
      .ok (.error e) { t' with interp := { t'.interp with activeMem := t.interp.activeMem } } := by
    have hattempt : attempt (runToStop code F fuel) { t with interp := s₁ } = .ok (.error e) t' := by
      unfold attempt
      rw [h]
    rw [runInner, Hoare.get_bind, Hoare.bind_ok (onInterp_ok hs), Hoare.bind_ok hattempt]
    rfl
  exact ⟨_, Hoare.bind_ok hinner, rfl⟩

theorem finish_of_panic (saved : Shadowed ω) (nResults : Nat) {t t' : Shadowed ω} {fuel : Nat} (s₁ : State ω)
    (hs : enterRun t.interp = .ok () s₁)
    (h : runToStop code F fuel { t with interp := s₁ } = .error .panic t') :
    runShadow.finish code F saved nResults fuel t = .error .panic t' := by
  have hattempt : attempt (runToStop code F fuel) { t with interp := s₁ } = .error .panic t' := by
    unfold attempt
    rw [h]
  have hinner : runInner code F fuel t = .error .panic t' := by
    rw [runInner, Hoare.get_bind, Hoare.bind_ok (onInterp_ok hs), Hoare.bind_error hattempt]
  exact Hoare.bind_error hinner

theorem finish_of_ok (saved : Shadowed ω) (nResults : Nat) {t t' : Shadowed ω} {fuel : Nat} (s₁ : State ω)
    (hs : enterRun t.interp = .ok () s₁)
    (h : runToStop code F fuel { t with interp := s₁ } = .ok true t') (hv : t'.interp.vsp ≤ STACK_DEPTH)
    (hsaved : t'.interp.vsp = saved.interp.vsp + nResults) (hone : nResults ≤ 1) :
    ∃ r, (nResults = 1 → r = some (t'.interp.vstack (t'.interp.vsp - 1))) ∧
      runShadow.finish code F saved nResults fuel t = .ok (some r) ⟨{ t'.interp with
        activeMem := t.interp.activeMem, vsp := saved.interp.vsp }, saved.shadowStopFdepth⟩ := by
  have hinner : runInner code F fuel t =
      .ok (.ok true) { t' with interp := { t'.interp with activeMem := t.interp.activeMem } } := by
    have hattempt : attempt (runToStop code F fuel) { t with interp := s₁ } = .ok (.ok true) t' := by
      unfold attempt
      rw [h]
    rw [runInner, Hoare.get_bind, Hoare.bind_ok (onInterp_ok hs), Hoare.bind_ok hattempt]
    rfl
  by_cases hzero : nResults = 0
  · refine ⟨some 0, fun hpos => by omega, (Hoare.bind_ok hinner).trans ?_⟩
    exact Hoare.eq_of_wp ((wp_bind _).mpr ((wp_modify _).mpr ((wp_bind _).mpr (wp_get.mpr (wp_ite.mpr
      ⟨fun hpos => by omega, fun _ => rfl⟩)))))
  · refine ⟨some (t'.interp.vstack (t'.interp.vsp - 1)), fun _ => rfl, (Hoare.bind_ok hinner).trans ?_⟩
    refine Hoare.eq_of_wp
      ((wp_bind _).mpr ((wp_modify _).mpr
      ((wp_bind _).mpr (wp_get.mpr (wp_ite.mpr ⟨fun _ => ?_, fun hneg => ?_⟩)))))
    · refine wp_ite.mpr ⟨fun hbad => absurd hv (Nat.not_le.mpr hbad), fun _ => ?_⟩
      refine (wp_bind _).mpr ((wp_set _).mpr ((wp_pure _).mpr ?_))
      have hvsp : saved.interp.vsp = t'.interp.vsp - 1 := by omega
      rw [hvsp]
    · exact absurd ⟨by omega, by show _ < t'.interp.vsp; omega⟩ hneg

/-- A shadow run that ends has seen the end of the run inside it. -/
theorem finish_ended {saved t t' : Shadowed ω} {nResults fuel : Nat} {r : Option (BitVec 64)} (s₁ : State ω)
    (hs : enterRun t.interp = .ok () s₁)
    (h : runShadow.finish code F saved nResults fuel t = .ok (some r) t') :
    ∀ t₂, runToStop code F fuel { t with interp := s₁ } ≠ .ok false t₂ := by
  intro t₂ hrun
  have hinner : runInner code F fuel t =
      .ok (.ok false) { t₂ with interp := { t₂.interp with activeMem := t.interp.activeMem } } := by
    have hattempt : attempt (runToStop code F fuel) { t with interp := s₁ } = .ok (.ok false) t₂ := by
      unfold attempt
      rw [hrun]
    rw [runInner, Hoare.get_bind, Hoare.bind_ok (onInterp_ok hs), Hoare.bind_ok hattempt]
    rfl
  have hnone : runShadow.finish code F saved nResults fuel t = .ok none _ := Hoare.bind_ok hinner
  rw [hnone] at h
  cases h

/-! ## The entry -/

theorem pushParams_wp : ∀ (params : List (BitVec 64)) (s : State ω), s.vsp ≤ STACK_DEPTH →
    wp (pushParams params)
      (fun _ s' => s.vsp + params.length ≤ STACK_DEPTH ∧ ∃ vstack, (∀ i < s.vsp, vstack i = s.vstack i) ∧
        (∀ k < params.length, vstack (s.vsp + k) = params.getD k 0) ∧
        s' = { s with vstack, vsp := s.vsp + params.length })
      (fun e s' => e = .err .stackOverflow ∧ STACK_DEPTH < s.vsp + params.length ∧ ∃ vstack vsp,
        (∀ i < s.vsp, vstack i = s.vstack i) ∧ s' = { s with vstack, vsp }) s
  | [], s, hv => ⟨hv, s.vstack, fun _ _ => rfl, nofun, rfl⟩
  | p :: params, s, hv => by
    refine (wp_bind _).mpr (wp_vPush.mpr ⟨fun hfull => ⟨rfl, ?_, s.vstack, s.vsp, fun _ _ => rfl, rfl⟩,
      fun hroom => ?_⟩)
    · rw [List.length_cons]
      omega
    · have hlen : s.vsp + 1 + params.length = s.vsp + (p :: params).length := by
        rw [List.length_cons]
        omega
      have hbelow : ∀ i < s.vsp, upd s.vstack s.vsp p i = s.vstack i := fun i hi => upd_of_ne _ _ (by omega)
      refine wp_mono ?_ ?_ (pushParams_wp params { s with vstack := upd s.vstack s.vsp p, vsp := s.vsp + 1 }
        (by simp only; omega))
      · rintro _ s' ⟨hle, vstack, hsame, hparams, rfl⟩
        refine ⟨hlen ▸ hle, vstack, fun i hi => ?_, fun k hk => ?_, by simp only [hlen]⟩
        · exact (hsame i (Nat.lt_succ_of_lt hi)).trans (hbelow i hi)
        · cases k with
          | zero => exact (hsame s.vsp (Nat.lt_succ_self _)).trans (upd_self ..)
          | succ k =>
            rw [← Nat.succ_add_eq_add_succ]
            exact hparams k (Nat.lt_of_succ_lt_succ hk)
      · rintro e s' ⟨rfl, hlt, vstack, vsp, hsame, rfl⟩
        refine ⟨rfl, hlen ▸ hlt, vstack, vsp, fun i hi => ?_, rfl⟩
        exact (hsame i (Nat.lt_succ_of_lt hi)).trans (hbelow i hi)

theorem attempt_ok {m : ShadowM ω α} {a : α} {t t' : Shadowed ω} (h : m t = .ok a t') :
    attempt m t = .ok (.ok a) t' := by
  unfold attempt
  rw [h]

theorem attempt_error {m : ShadowM ω α} {e : InterpError} {t t' : Shadowed ω} (h : m t = .error (.err e) t') :
    attempt m t = .ok (.error e) t' := by
  unfold attempt
  rw [h]

theorem onInterp_error {m : Interp ω α} {e : Fault InterpError} {s' : State ω} {t : Shadowed ω}
    (h : m t.interp = .error e s') :
    onInterp m t = .error e { t with interp := s' } := by
  unfold onInterp
  rw [h]

theorem pushFrame_err {bodyIdx : Nat} {s s' : State ω} {e : Fault InterpError} (hidx : bodyIdx < MAX_FUNCS)
    (hv : s.vsp ≤ STACK_DEPTH) (h : pushFrame code bodyIdx s = .error e s') : ∃ err, e = .err err := by
  obtain ⟨_, rfl | rfl | ⟨rfl, _⟩⟩ := Hoare.wp_error (pushFrame_wp code hidx hv) h
  · exact ⟨_, rfl⟩
  · exact ⟨_, rfl⟩
  · exact ⟨_, rfl⟩

variable {calleeBody : Nat} {params : List (BitVec 64)} {t : Shadowed ω} (hidx : calleeBody < MAX_FUNCS)
  (hv : t.interp.vsp ≤ STACK_DEPTH)
include hidx hv

omit hv in
theorem entered_of_pushes {s s₁ s₂ : State ω} (hv : s.vsp ≤ STACK_DEPTH) (hp : pushParams params s = .ok () s₁)
    (hf : pushFrame code calleeBody s₁ = .ok () s₂) : ¬ NotEntered code calleeBody params s := by
  obtain ⟨hfits, vstack, hsame, -, rfl⟩ := Hoare.wp_ok (pushParams_wp params _ hv) hp
  obtain ⟨base, hbase, hdepth, hlocals, _⟩ := Hoare.wp_ok (pushFrame_wp code hidx hfits) hf
  have hlocals : localsOf code calleeBody ≤ MAX_LOCALS := hlocals
  simp only at hbase hdepth
  intro h
  rcases h with h | h | h | h <;> omega

/-- The two exits before the run restore everything. -/
theorem runShadow_notEntered (h : NotEntered code calleeBody params t.interp) (nResults fuel : Nat) :
    ∃ t', runShadow code F calleeBody params nResults fuel t = .ok (some none) t' ∧ Unchanged t t' := by
  cases hp : pushParams params t.interp with
  | error e s₁ =>
    obtain ⟨rfl, _, vstack, vsp, hsame, rfl⟩ := Hoare.wp_error (pushParams_wp params _ hv) hp
    have hattempt : attempt (onInterp (pushParams params))
        { t with shadowStopFdepth := t.interp.frames.length } = .ok (.error _) _ :=
      attempt_error (onInterp_error hp)
    exact ⟨_, Hoare.bind_ok hattempt, ⟨rfl, hsame, rfl, rfl, rfl, rfl, rfl, rfl, rfl⟩⟩
  | ok _ s₁ =>
    obtain ⟨hfits, vstack, hsame, -, rfl⟩ := Hoare.wp_ok (pushParams_wp params _ hv) hp
    have hattempt : attempt (onInterp (pushParams params))
        { t with shadowStopFdepth := t.interp.frames.length } = .ok (.ok _) _ :=
      attempt_ok (onInterp_ok hp)
    cases hf : pushFrame code calleeBody { t.interp with vstack, vsp := t.interp.vsp + params.length } with
    | error e s₂ =>
      obtain ⟨⟨m, _, rfl⟩, _⟩ := Hoare.wp_error (pushFrame_wp code hidx hfits) hf
      obtain ⟨err, rfl⟩ := pushFrame_err hidx hfits hf
      refine ⟨_, (Hoare.bind_ok hattempt).trans (Hoare.bind_ok (attempt_error (onInterp_error hf))), ?_⟩
      exact ⟨rfl, hsame, rfl, rfl, rfl, rfl, rfl, rfl, rfl⟩
    | ok _ s₂ => exact absurd h (entered_of_pushes hidx hv hp hf)

theorem runShadow_entered (h : ¬ NotEntered code calleeBody params t.interp) :
    ∃ vstack fr base, (∀ i < t.interp.vsp, vstack i = t.interp.vstack i) ∧
    (∀ k < params.length, vstack (t.interp.vsp + k) = params.getD k 0) ∧
    t.interp.vsp + params.length = base + (bodyArity code calleeBody).1 ∧
    fr = calleeFrame code calleeBody base { t.interp with vstack, vsp := t.interp.vsp + params.length } ∧
    fr.localCount ≤ MAX_LOCALS ∧
    let s₁ := { t.interp with vstack, vsp := base, frames := fr :: t.interp.frames }
    enterShadow code calleeBody params t =
      .ok () ⟨{ s₁ with activeMem := s₁.currentPages * PAGE_SIZE }, t.interp.frames.length⟩ ∧
    ∀ nResults fuel, runShadow code F calleeBody params nResults fuel t =
      runShadow.finish code F t nResults fuel ⟨s₁, t.interp.frames.length⟩ := by
  obtain ⟨hfits, hdepth, hlocals, hargs⟩ : t.interp.vsp + params.length ≤ STACK_DEPTH ∧
      t.interp.frames.length < CALL_DEPTH ∧
      localsOf code calleeBody ≤ MAX_LOCALS ∧ (bodyArity code calleeBody).1 ≤ t.interp.vsp + params.length := by
    refine ⟨?_, ?_, ?_, ?_⟩
    · exact Nat.le_of_not_lt fun hbad => h (.inl hbad)
    · exact Nat.lt_of_not_le fun hbad => h (.inr (.inl hbad))
    · exact Nat.le_of_not_lt fun hbad => h (.inr (.inr (.inl hbad)))
    · exact Nat.le_of_not_lt fun hbad => h (.inr (.inr (.inr hbad)))
  cases hp : pushParams params t.interp with
  | error e s₁ =>
    obtain ⟨_, hbad, _⟩ := Hoare.wp_error (pushParams_wp params _ hv) hp
    omega
  | ok _ s₁ =>
    obtain ⟨_, vstack, hsame, hvalues, rfl⟩ := Hoare.wp_ok (pushParams_wp params _ hv) hp
    obtain ⟨base, hbase⟩ : ∃ base, t.interp.vsp + params.length = base + (bodyArity code calleeBody).1 :=
      ⟨_, (Nat.sub_add_cancel hargs).symm⟩
    have hf := pushFrame_run code (s := { t.interp with vstack, vsp := t.interp.vsp + params.length }) hidx
      hfits hbase hdepth hlocals
    have hparams : onInterp (pushParams params) { t with shadowStopFdepth := t.interp.frames.length } =
      .ok _ _ := onInterp_ok hp
    refine ⟨vstack, _, base, hsame, hvalues, hbase, rfl, hlocals, ?_, fun nResults fuel => ?_⟩
    · exact (Hoare.bind_ok hparams).trans (Hoare.bind_ok (onInterp_ok hf))
    · exact (Hoare.bind_ok (attempt_ok hparams)).trans (Hoare.bind_ok (attempt_ok (onInterp_ok hf)))

theorem entered_of_enterShadow {t₁ : Shadowed ω} (h : enterShadow code calleeBody params t = .ok () t₁) :
    ¬ NotEntered code calleeBody params t.interp := by
  cases hp : pushParams params t.interp with
  | error e s₁ =>
    have hfail : enterShadow code calleeBody params t = .error e _ :=
      (Hoare.bind_error (onInterp_error (t := { t with shadowStopFdepth := t.interp.frames.length }) hp)).trans rfl
    rw [hfail] at h
    cases h
  | ok _ s₁ =>
    cases hf : pushFrame code calleeBody s₁ with
    | error e s₂ =>
      have hfail : enterShadow code calleeBody params t = .error e _ :=
        (Hoare.bind_ok (onInterp_ok (t := { t with shadowStopFdepth := t.interp.frames.length }) hp)).trans
          (Hoare.bind_error (onInterp_error hf))
      rw [hfail] at h
      cases h
    | ok _ s₂ => exact entered_of_pushes hidx hv hp hf

/-- A shadow run that ends is decided by the first run of the callee that ends. -/
theorem ran_of_ends {nResults fuel n : Nat} {r : Option (BitVec 64)} {t₁ t' : Shadowed ω}
    (henter : enterShadow code calleeBody params t = .ok () t₁)
    (hrun : runShadow code F calleeBody params nResults fuel t = .ok (some r) t')
    (hn : ∀ t', runToStop code F n t₁ ≠ .ok false t') :
    t₁.shadowStopFdepth = t.interp.frames.length ∧ ∃ t₂ : Shadowed ω, { t₂ with interp := t₁.interp } = t₁ ∧
    enterRun t₂.interp = .ok () t₁.interp ∧
      runShadow.finish code F t nResults fuel t₂ = .ok (some r) t' ∧
      runToStop code F fuel t₁ = runToStop code F n t₁ := by
  have hnot := entered_of_enterShadow hidx hv henter
  obtain ⟨vstack, fr, base, _, _, _, _, _, hentered, hfinish⟩ := runShadow_entered (F := F) hidx hv hnot
  rw [hentered] at henter
  cases henter
  rw [hfinish] at hrun
  exact ⟨rfl, _, rfl, rfl, hrun, runToStop_agree (finish_ended _ rfl hrun) hn⟩

/-- After a failed run the frame of the callee is still there. -/
theorem not_neutral_of_traps {nResults : Nat} (h : Traps code F calleeBody params t) :
    ¬ Neutral code F calleeBody params nResults t := by
  rintro ⟨fuel, r, t', hrun, hsame⟩
  obtain ⟨t₁, n, e, t₂, henter, htrap⟩ := h
  obtain ⟨hstop, t₃, hstart, hs, hfinish, heq⟩ := ran_of_ends hidx hv henter hrun fun t' h => by
    rw [htrap] at h
    cases h
  rw [htrap, ← hstart] at heq
  obtain ⟨t₄, hfin, hframes⟩ := finish_of_error t nResults _ hs heq
  rw [hfin] at hfinish
  cases hfinish
  have hdeep := Hoare.wp_error (runToStop_error n _) htrap
  rw [← hframes, hsame.frames, hstop] at hdeep
  exact absurd hdeep (Nat.lt_irrefl _)

theorem not_neutral_of_panic {nResults n : Nat} {t₁ t₂ : Shadowed ω}
    (henter : enterShadow code calleeBody params t = .ok () t₁)
    (hpanic : runToStop code F n t₁ = .error .panic t₂) : ¬ Neutral code F calleeBody params nResults t := by
  rintro ⟨fuel, r, t', hrun, -⟩
  obtain ⟨-, t₃, hstart, hs, hfinish, heq⟩ := ran_of_ends hidx hv henter hrun fun t' h => by
    rw [hpanic] at h
    cases h
  rw [hpanic, ← hstart] at heq
  rw [finish_of_panic t nResults _ hs heq] at hfinish
  cases hfinish

end

end WasmOs
