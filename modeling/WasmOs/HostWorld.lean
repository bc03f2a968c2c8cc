import WasmOs.Isolation
import WasmOs.Resume

/-!
# What a run does to the rest of the kernel

Only host functions change it. `InWorld P B` follows a run: the rest of the kernel satisfies `P` as long
as nothing fails, and `B` of the error once a host function has.
-/

namespace WasmOs

open Hoare

/-! ## Rounds -/

section
variable {ω α β : Type} {code : Code (HostFn ω)} {F : FloatOps} {P : ω → Prop} {B : Fault InterpError → ω → Prop}

def InWorld (P : ω → Prop) (B : Fault InterpError → ω → Prop) (m : Interp ω α) : Prop :=
  ∀ s, P s.world → wp m (fun _ s => P s.world) (fun e s => B e s.world) s

theorem inWorld_bind {m : Interp ω α} {f : α → Interp ω β} (hm : InWorld P B m) (hf : ∀ a, InWorld P B (f a)) :
    InWorld P B (m >>= f) :=
  fun s hs => (wp_bind _).mpr (wp_mono (fun a s' hs' => hf a s' hs') (fun _ _ he => he) (hm s hs))

variable (hPB : ∀ e w, P w → B e w)
include hPB

theorem inWorld_throw (e : Fault InterpError) : InWorld P B (throw e : Interp ω α) := fun _ hs => hPB e _ hs

theorem inWorld_of_blind {m : Interp ω α} (h : ∀ w, Blind w w m) : InWorld P B m := by
  intro s hs
  refine wp_mono (fun _ s' hw => ?_) (fun e s' hw => ?_) (world_of_blind (h s.world))
  · rw [hw]
    exact hs
  · rw [hw]
    exact hPB e _ hs

omit hPB in
theorem inWorld_callHost {h : HostFn ω}
    (hh : ∀ v, P v.world → wp (h code.memLen) (fun _ v => P v.world) (fun e v => B e v.world) v) :
    InWorld P B (callHost code h) := by
  intro s hs
  have hv := hh s.view hs
  unfold wp at hv
  unfold wp callHost
  cases hr : h code.memLen s.view with
  | ok a v =>
    rw [hr] at hv
    exact hv
  | error e v =>
    rw [hr] at hv
    exact hv

variable (hhost : ∀ i h, code.hostFns i = some h →
  ∀ v, P v.world → wp (h code.memLen) (fun _ v => P v.world) (fun e v => B e v.world) v)
include hhost

theorem inWorld_invoke (callee : Nat) : InWorld P B (invoke code callee) := by
  by_cases himp : callee < code.importCount
  · by_cases hmax : MAX_FUNCS ≤ callee
    · rw [invoke_import_panic himp hmax]
      exact inWorld_throw hPB _
    · rw [invoke_import himp (Nat.lt_of_not_le hmax)]
      cases hh : code.hostFns callee with
      | none => exact inWorld_throw hPB _
      | some h => exact inWorld_callHost (hhost callee h hh)
  · rw [invoke_defined himp]
    exact inWorld_of_blind hPB fun w => twin_ite (blind_throw _) (blind_pushFrame _)

theorem inWorld_finish (next : Next) : InWorld P B (finish code next) := by
  cases next with
  | seq pc => exact inWorld_of_blind hPB fun w => blind_setFrame _
  | br pc n => exact inWorld_of_blind hPB fun w => twin_bind (blind_setFrame _) fun _ => blind_doBr n
  | ret => exact inWorld_of_blind hPB fun w => blind_doReturn
  | call pc callee =>
    exact inWorld_bind (inWorld_of_blind hPB fun w => blind_setFrame _) fun _ => inWorld_invoke hPB hhost callee

theorem inWorld_step : InWorld P B (step code F) := by
  intro s hs
  cases hy : s.yieldRequested with
  | true =>
    have hstop : step code F s = .error (.err .yielded) { s with yieldRequested := false } := by
      unfold step
      rw [get_bind, if_pos hy]
      rfl
    unfold wp
    rw [hstop]
    exact hPB _ _ hs
  | false =>
    have hfetch : InWorld P B (fetch code F >>= finish code) :=
      inWorld_bind (inWorld_of_blind hPB fun w => blind_fetch) fun next => inWorld_finish hPB hhost next
    exact (wp_congr (step_fetch hy)).mpr (hfetch s hs)

theorem inWorld_runLoop : ∀ fuel, InWorld P B (runLoop code F fuel)
  | 0 => fun _ hs => (wp_bind _).mpr (wp_get.mpr hs)
  | fuel + 1 => fun s hs => by
    refine (wp_bind _).mpr (wp_get.mpr ?_)
    by_cases hempty : s.frames.isEmpty = true
    · rw [if_pos hempty]
      exact hs
    · rw [if_neg hempty]
      exact inWorld_bind (inWorld_step hPB hhost) (fun _ => inWorld_runLoop fuel) s hs

theorem inWorld_run (fuel : Nat) : InWorld P B (run code F fuel) :=
  inWorld_bind (fun _ hs => hs) fun _ => inWorld_runLoop hPB hhost fuel

end

/-! ## Instances -/

section
variable {ω : Type} {lookupHost : List UInt8 → List UInt8 → Option (HostFn (Sys ω))} {F : FloatOps} {fuel : Nat}
variable {P : Sys ω → Prop} {B : Fault InterpError → Sys ω → Prop} {live : Live ω}

theorem instantiate_hostFns {bytes : List UInt8} {inst : Instance (HostFn (Sys ω))}
    (h : instantiate lookupHost bytes = .ok inst)
    {i : Nat} {f : HostFn (Sys ω)} (hf : inst.code.hostFns i = some f) :
    ∃ mod name, lookupHost mod name = some f := by
  obtain ⟨m, pages, importCount, names, inst', hm, _, _, hnames, hnew, hcode, _, _⟩ := instantiate_inv h
  obtain ⟨_, _, _, _, _, _, _, _, _, _, _, _, _, _, _, _, rfl⟩ := interpreterNew_inv hnew
  rw [hcode] at hf
  simp only [resolveImports] at hf
  split at hf
  · obtain ⟨p, _, hlook⟩ := Option.bind_eq_some_iff.mp hf
    exact ⟨p.1, p.2, hlook⟩
  · cases hf

/-- The rest of the kernel after a run of the instance: as some error of a host function leaves it, and
as `Yielded` does only if the run has yielded. -/
def RanIn (B : Fault InterpError → Sys ω → Prop) (live : Live ω) (r : Except (Fault RunError) TaskResult)
    (x : Live ω × Sys ω) : Prop :=
  x.1.code = live.code ∧ ∃ e, B e x.2 ∧ (e = .err .yielded → r = .ok .yielded)

theorem finish_ranIn (hPB : ∀ e w, P w → B e w) {m : Interp (Sys ω) Bool} {s : State (Sys ω)}
    (hm : wp m (fun _ s => P s.world) (fun e s => B e s.world) s) :
    RanIn B live (taskResult (m s)) ({ live with state := (after (m s)).withWorld () }, (after (m s)).world) := by
  unfold wp at hm
  refine ⟨rfl, ?_⟩
  cases hr : m s with
  | ok b t =>
    rw [hr] at hm
    exact ⟨.panic, hPB _ _ hm, nofun⟩
  | error e t =>
    rw [hr] at hm
    refine ⟨e, hm, fun he => ?_⟩
    subst he
    rfl

theorem withState_wp {σ α : Type} {ε : Type} {r : Except ε α} {x s : σ} {C : Except ε α → σ → Prop} (h : C r x) :
    wp (fun _ => withState r x) (fun a x => C (.ok a) x) (fun e x => C (.error e) x) s := by
  unfold wp withState
  cases r with
  | ok a => exact h
  | error e => exact h

variable (hPB : ∀ e w, P w → B e w) (hhost : ∀ i h, live.code.hostFns i = some h →
  ∀ v, P v.world → wp (h live.code.memLen) (fun _ v => P v.world) (fun e v => B e v.world) v)
include hPB hhost

theorem startTask_ranIn (entry : List UInt8) (args : List (BitVec 32)) {sys : Sys ω} (hs : P sys) :
    wp ((interpExec lookupHost F fuel).startTask entry args) (fun r => RanIn B live (.ok r))
    (fun e => RanIn B live (.error e))
      (live, sys) := by
  cases he : findEntry live.bytes entry with
  | error e =>
    have heq : (interpExec lookupHost F fuel).startTask entry args (live, sys) = .error e (live, sys) := by
      simp only [interpExec, he]
    unfold wp
    rw [heq]
    exact ⟨rfl, .panic, hPB _ _ hs, by simp⟩
  | ok funcIdx =>
    have heq : (interpExec lookupHost F fuel).startTask entry args (live, sys) =
        live.finish ((do beginTask live.code funcIdx args; run live.code F fuel) (live.state.withWorld sys)) := by
      simp only [interpExec, he]
    have hrun : InWorld P B (do beginTask live.code funcIdx args; run live.code F fuel) :=
      inWorld_bind (inWorld_of_blind hPB fun w => blind_beginTask funcIdx args) fun _ => inWorld_run hPB hhost fuel
    exact (wp_congr heq).mpr (withState_wp (finish_ranIn hPB (hrun (live.state.withWorld sys) hs)))

theorem resumeTask_ranIn {sys : Sys ω} (hs : P sys) :
    wp (interpExec lookupHost F fuel).resumeTask (fun r => RanIn B live (.ok r))
    (fun e => RanIn B live (.error e)) (live, sys) := by
  have heq : (interpExec lookupHost F fuel).resumeTask (live, sys) =
      live.finish (run live.code F fuel (live.state.withWorld sys)) := by
    simp only [interpExec]
  exact (wp_congr heq).mpr
    (withState_wp (finish_ranIn hPB (inWorld_run hPB hhost fuel (live.state.withWorld sys) hs)))

end

/-! ## The pool and the engine -/

/-- The engine keeps `Q` of its instances and `P` of the rest of the kernel. -/
structure Exec.Maintains {I ω : Type} (E : Exec I ω) (Q : I → Prop) (P : ω → Prop) : Prop where
  instantiate : ∀ bytes sys, P sys.rest →
    wp (E.instantiate bytes) (fun inst sys => Q inst ∧ P sys.rest) (fun _ sys => P sys.rest) sys
  startTask : ∀ entry args, Keeps (fun x : I × Sys ω => Q x.1 ∧ P x.2.rest) (E.startTask entry args)
  resumeTask : Keeps (fun x : I × Sys ω => Q x.1 ∧ P x.2.rest) E.resumeTask

namespace Kernel

section
variable {I ω : Type} {E : Exec I ω} {Q : I → Prop} {P : ω → Prop} {k k' : Kernel I ω}

/-- `Q` of every instance in the pool and `P` of the rest of the kernel. -/
structure Maintained (Q : I → Prop) (P : ω → Prop) (k : Kernel I ω) : Prop where
  pool : ∀ slot inst, k.pool slot = .active inst → Q inst
  rest : P k.sys.rest

theorem Maintained.setSlot (h : Maintained Q P k) {slot : Nat} {p : PoolSlot I}
    (hp : ∀ inst, p = .active inst → Q inst)
    {sys : Sys ω} (hsys : P sys.rest) : Maintained Q P { k.setSlot slot p with sys } where
  pool := by
    intro i inst hi
    by_cases hs : i = slot
    · rw [hs] at hi
      exact hp inst ((upd_self _ _ _).symm.trans hi)
    · exact h.pool i inst ((upd_of_ne _ _ hs).symm.trans hi)
  rest := hsys

theorem Maintained.destroy (h : Maintained Q P k) (handle : Nat) : Maintained Q P (k.destroy handle) := by
  unfold Kernel.destroy
  split
  · exact h
  · split
    · exact h
    · exact h.setSlot (fun _ heq => by cases heq) h.rest

theorem Maintained.setTask (h : Maintained Q P k) (id : Nat) (t : Option Task) :
    Maintained Q P (k.setTask id t) := ⟨h.pool, h.rest⟩

variable (hE : E.Maintains Q P)
include hE

theorem Maintained.spawn (h : Maintained Q P k) {junk : Nat → UInt8} {bytes : List UInt8} {r : Except RunError Nat}
    (hs : k.spawn E junk bytes = .ok (r, k')) : Maintained Q P k' := by
  have hinst := hE.instantiate bytes k.sys h.rest
  obtain ⟨rfl, rfl⟩ | ⟨slot, m, _, _, ⟨e, sys, he, rfl, rfl⟩ | ⟨inst, sys, hi, rfl, rfl⟩⟩ := spawn_ok hs
  · exact h
  · exact h.setSlot (fun _ heq => by cases heq) (wp_error hinst he)
  · obtain ⟨hq, hp⟩ := wp_ok hinst hi
    refine h.setSlot (fun i heq => ?_) hp
    cases heq
    exact hq

omit hE in
theorem Maintained.onInstance (h : Maintained Q P k) {handle : Nat}
    {m : EStateM (Fault RunError) (I × Sys ω) TaskResult}
    (hm : Keeps (fun x : I × Sys ω => Q x.1 ∧ P x.2.rest) m) {r : Except RunError TaskResult}
    (hs : k.onInstance handle m = .ok (r, k')) : Maintained Q P k' := by
  unfold Kernel.onInstance at hs
  split at hs
  · cases hs
    exact h
  · split at hs
    · cases hs
      exact h
    · rename_i inst hinst
      have hrun := hm (inst, k.sys) ⟨h.pool handle inst hinst, h.rest⟩
      split at hs
      · rename_i r inst' sys hr
        cases hs
        obtain ⟨hq, hp⟩ := wp_ok hrun hr
        exact h.setSlot (fun i heq => by cases heq; exact hq) hp
      · rename_i e inst' sys hr
        cases hs
        obtain ⟨hq, hp⟩ := wp_error hrun hr
        exact h.setSlot (fun i heq => by cases heq; exact hq) hp
      · cases hs
      · cases hs

theorem Maintained.drain {handle : Nat} : ∀ {fuel : Nat} {x : Except RunError TaskResult × Kernel I ω}
    {r : Except RunError (Option (BitVec 64))}, Maintained Q P x.2 →
    Kernel.drain E handle fuel x = .ok (r, k') → Maintained Q P k'
  | _, (.error e, k), r, h, hs => by unfold Kernel.drain at hs; cases hs; exact h
  | _, (.ok (.completed v), k), r, h, hs => by unfold Kernel.drain at hs; cases hs; exact h
  | 0, (.ok .yielded, k), r, h, hs => by cases hs
  | fuel + 1, (.ok .yielded, k), r, h, hs => by
    unfold Kernel.drain at hs
    obtain ⟨⟨r₁, k₁⟩, hres, hs⟩ := bind_eq_ok.mp hs
    unfold Kernel.resumeTask at hres
    exact Maintained.drain (Maintained.onInstance h hE.resumeTask hres) hs

theorem Maintained.run (h : Maintained Q P k) {junk : Nat → UInt8} {bytes entry : List UInt8}
    {args : List (BitVec 32)} {fuel : Nat}
    {r : Except RunError (Option (BitVec 64))} (hs : k.run E junk bytes entry args fuel = .ok (r, k')) :
    Maintained Q P k' := by
  unfold Kernel.run at hs
  obtain ⟨⟨r₁, k₁⟩, hspawn, hs⟩ := bind_eq_ok.mp hs
  have h₁ := h.spawn hE hspawn
  cases r₁ with
  | error e => cases hs; exact h₁
  | ok handle =>
    obtain ⟨⟨r₂, k₂⟩, hstart, hs⟩ := bind_eq_ok.mp hs
    obtain ⟨⟨r₃, k₃⟩, hdrain, hs⟩ := bind_eq_ok.mp hs
    cases hs
    unfold Kernel.startTask at hstart
    exact (Maintained.drain hE (h₁.onInstance (hE.startTask entry args) hstart) hdrain).destroy handle

theorem Maintained.taskSpawn (h : Maintained Q P k) {junk : Nat → UInt8} {bytes : List UInt8}
    {args : List (BitVec 32)}
    {r : Except RunError Nat} (hs : k.taskSpawn E junk bytes args = .ok (r, k')) : Maintained Q P k' := by
  unfold Kernel.taskSpawn at hs
  split at hs
  · cases hs
    exact h
  · obtain ⟨⟨r₁, k₁⟩, hspawn, hs⟩ := bind_eq_ok.mp hs
    have h₁ := h.spawn hE hspawn
    cases r₁ with
    | error e => cases hs; exact h₁
    | ok handle => cases hs; exact h₁.setTask _ _

omit hE in
theorem Maintained.taskKill (h : Maintained Q P k) (id : Nat) : Maintained Q P (k.taskKill id) := by
  unfold Kernel.taskKill
  split
  · exact h
  · split
    · exact h
    · exact (h.setTask _ _).destroy _

omit hE in
theorem Maintained.settleTask (h : Maintained Q P k) (id : Nat) (t : Task) (later : Nat)
    (r : Except RunError TaskResult) :
    Maintained Q P (k.settleTask id t later r) := by
  rcases r with e | v | _
  · exact (h.destroy _).setTask _ _
  · exact (h.destroy _).setTask _ _
  · exact Maintained.setTask (k := k.takePendingSleepMs.2) ⟨h.pool, h.rest⟩ _ _

theorem Maintained.stepAwake (h : Maintained Q P k) {id later : Nat} {t : Task}
    {r : Option (Except RunError TaskResult)}
    (hs : k.stepAwake E id t later = .ok (r, k')) : Maintained Q P k' := by
  unfold Kernel.stepAwake at hs
  dsimp only at hs
  split at hs
  · obtain ⟨⟨r₁, k₁⟩, hrun, hs⟩ := bind_eq_ok.mp hs
    cases hs
    unfold Kernel.startTask at hrun
    exact ((h.setTask _ _).onInstance (hE.startTask _ _) hrun).settleTask _ _ _ _
  · obtain ⟨⟨r₁, k₁⟩, hrun, hs⟩ := bind_eq_ok.mp hs
    cases hs
    unfold Kernel.resumeTask at hrun
    exact ((h.setTask _ _).onInstance hE.resumeTask hrun).settleTask _ _ _ _
  · cases hs
    exact h

theorem Maintained.taskStep (h : Maintained Q P k) {id now later : Nat} {r : Option (Except RunError TaskResult)}
    (hs : k.taskStep E id now later = .ok (r, k')) : Maintained Q P k' := by
  unfold Kernel.taskStep at hs
  split at hs
  · cases hs
    exact h
  · split at hs
    · cases hs
      exact h
    · split at hs
      · split at hs
        · exact (h.setTask _ _).stepAwake hE hs
        · cases hs
          exact h
      · exact h.stepAwake hE hs

end

end Kernel

/-! ## The queue -/

namespace Kernel

section
variable {ω : Type} {E : Exec (Live ω) ω} {k k' : Kernel (Live ω) ω}

theorem spawn_taskQueue {junk : Nat → UInt8} {bytes : List UInt8} {r : Except RunError Nat}
    (hs : k.spawn E junk bytes = .ok (r, k')) :
    k'.taskQueue = k.taskQueue := by
  obtain ⟨rfl, rfl⟩ | ⟨slot, m, _, _, ⟨e, sys, he, rfl, rfl⟩ | ⟨inst, sys, hi, rfl, rfl⟩⟩ := spawn_ok hs
  · rfl
  · rfl
  · rfl

theorem onInstance_taskQueue {handle : Nat} {m : EStateM (Fault RunError) (Live ω × Sys ω) TaskResult}
    {r : Except RunError TaskResult}
    (hs : k.onInstance handle m = .ok (r, k')) : k'.taskQueue = k.taskQueue := by
  unfold onInstance at hs
  split at hs
  · cases hs
    rfl
  · split at hs
    · cases hs
      rfl
    · split at hs
      · cases hs
        rfl
      · cases hs
        rfl
      · cases hs
      · cases hs

theorem drain_taskQueue {handle : Nat} : ∀ {fuel : Nat} {x : Except RunError TaskResult × Kernel (Live ω) ω}
    {r : Except RunError (Option (BitVec 64))}, drain E handle fuel x = .ok (r, k') → k'.taskQueue = x.2.taskQueue
  | _, (.error e, k), r, hs => by unfold drain at hs; cases hs; rfl
  | _, (.ok (.completed v), k), r, hs => by unfold drain at hs; cases hs; rfl
  | 0, (.ok .yielded, k), r, hs => by cases hs
  | fuel + 1, (.ok .yielded, k), r, hs => by
    unfold drain at hs
    obtain ⟨⟨r₁, k₁⟩, hres, hs⟩ := bind_eq_ok.mp hs
    exact (drain_taskQueue hs).trans (onInstance_taskQueue hres)

theorem run_taskQueue {junk : Nat → UInt8} {bytes entry : List UInt8} {args : List (BitVec 32)} {fuel : Nat}
    {r : Except RunError (Option (BitVec 64))} (hs : k.run E junk bytes entry args fuel = .ok (r, k')) :
    k'.taskQueue = k.taskQueue := by
  unfold run at hs
  obtain ⟨⟨r₁, k₁⟩, hspawn, hs⟩ := bind_eq_ok.mp hs
  have h₁ := spawn_taskQueue hspawn
  cases r₁ with
  | error e => cases hs; exact h₁
  | ok handle =>
    obtain ⟨⟨r₂, k₂⟩, hstart, hs⟩ := bind_eq_ok.mp hs
    obtain ⟨⟨r₃, k₃⟩, hdrain, hs⟩ := bind_eq_ok.mp hs
    cases hs
    rw [destroy_taskQueue, drain_taskQueue hdrain]
    exact (onInstance_taskQueue hstart).trans h₁

theorem taskSpawn_taskQueue {junk : Nat → UInt8} {bytes : List UInt8} {args : List (BitVec 32)}
    {r : Except RunError Nat} (hs : k.taskSpawn E junk bytes args = .ok (r, k')) :
    (∃ e, r = .error e ∧ k'.taskQueue = k.taskQueue) ∨ ∃ id t, r = .ok id ∧ k'.taskQueue = upd k.taskQueue id
    (some t) := by
  unfold taskSpawn at hs
  split at hs
  · cases hs
    exact .inl ⟨_, rfl, rfl⟩
  · obtain ⟨⟨r₁, k₁⟩, hspawn, hs⟩ := bind_eq_ok.mp hs
    have h₁ := spawn_taskQueue hspawn
    cases r₁ with
    | error e => cases hs; exact .inl ⟨e, rfl, h₁⟩
    | ok handle =>
      cases hs
      exact .inr ⟨_, _, rfl, congrArg (fun queue => upd queue _ _) h₁⟩

def Fewer (k k' : Kernel (Live ω) ω) : Prop := ∀ id t, k'.taskQueue id = some t → ∃ u, k.taskQueue id = some u

theorem fewer_of_eq (h : k'.taskQueue = k.taskQueue) : Fewer k k' := fun _ t ht => ⟨t, h ▸ ht⟩

theorem fewer_of_upd {i : Nat} {t u : Option Task} (hu : u.isSome → t.isSome) (ht : k.taskQueue i = t)
    (h : k'.taskQueue = upd k.taskQueue i u) : Fewer k k' := by
  intro id v hv
  rw [h] at hv
  by_cases hid : id = i
  · rw [hid, upd_self] at hv
    rw [hid, ht]
    exact Option.isSome_iff_exists.mp (hu (by rw [hv]; rfl))
  · rw [upd_of_ne _ _ hid] at hv
    exact ⟨v, hv⟩

theorem taskKill_fewer (id : Nat) : Fewer k (k.taskKill id) := by
  unfold taskKill
  split
  · exact fewer_of_eq rfl
  · split
    · exact fewer_of_eq rfl
    · rename_i t ht
      refine fewer_of_upd (i := id) (t := some t) (u := none) (fun h => by cases h) ht ?_
      rw [destroy_taskQueue]
      rfl

theorem taskStep_fewer (hk : Consistent k) {id now later : Nat} {r : Option (Except RunError TaskResult)}
    (hs : k.taskStep E id now later = .ok (r, k')) : Fewer k k' := by
  obtain ⟨_, hnone⟩ | ⟨_, t, ht, hran⟩ := taskStep_cases (E := E) hk id now later
  · rw [hnone] at hs
    cases hs
    exact fewer_of_eq rfl
  · obtain ⟨_, ⟨t', inst, _, _, _, hq⟩ | ⟨m, _, hq⟩⟩ := hran _ _ hs
    · exact fewer_of_upd (fun _ => rfl) ht hq
    · exact fewer_of_upd (fun h => by cases h) ht hq

end

end Kernel

end WasmOs
