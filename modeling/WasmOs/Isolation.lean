import WasmOs.Blind
import WasmOs.InstanceSpec
import WasmOs.TaskPool

/-!
# Tasks do not see each other

What a task that imports nothing but `env.yield` returns, step by step, and what its memory and its
globals are in between is what it would be with nothing else in the pool. The other tasks may be of any
kind, and the slot may have been used before.
-/

namespace WasmOs

open Hoare

/-! ## The interpreter as an engine -/

/-- An instance in the pool; it has no part in the rest of the kernel. -/
structure Live (ω : Type) where
  bytes : List UInt8
  code : Code (HostFn (Sys ω))
  state : State Unit

def State.top {ω ε : Type} (s : State ω) : Rust ε (Option (BitVec 64)) :=
  if s.vsp = 0 then .ok none else
  if STACK_DEPTH < s.vsp then .error .panic else .ok (some (s.vstack (s.vsp - 1)))

section
variable {ω : Type}

/-- The `match` on the result of `call` and `resume`; a run that has not ended goes on for ever. -/
def taskResult : EStateM.Result (Fault InterpError) (State (Sys ω)) Bool → Rust RunError TaskResult
  | .ok true s => do
    let v ← s.top
    .ok (.completed v)
  | .ok false _ => .error .hang
  | .error (.err .yielded) _ => .ok .yielded
  | .error (.err .exited) _ => .ok (.completed none)
  | .error (.err e) _ => .error (.err (.interp e))
  | .error .panic _ => .error .panic
  | .error .hang _ => .error .hang

def withState {ε σ α : Type} (r : Except ε α) (s : σ) : EStateM.Result ε σ α :=
  match r with
  | .ok a => .ok a s
  | .error e => .error e s

def Live.finish (live : Live ω) (r : EStateM.Result (Fault InterpError) (State (Sys ω)) Bool) :
    EStateM.Result (Fault RunError) (Live ω × Sys ω) TaskResult :=
  withState (taskResult r) ({ live with state := (after r).withWorld () }, (after r).world)

def findEntry (bytes entry : List UInt8) : Rust RunError Nat := do
  let m ← mapErr .load (load bytes)
  let idx ← findExport m entry
  okOr idx .entryNotFound

variable (lookupHost : List UInt8 → List UInt8 → Option (HostFn (Sys ω))) (F : FloatOps) (fuel : Nat)

/-- The engine without compiled functions; a step that takes more than `fuel` rounds does not come back. -/
def interpExec : Exec (Live ω) ω where
  instantiate bytes := fun sys =>
    match instantiate lookupHost bytes with
    | .ok inst => .ok ⟨bytes, inst.code, (inst.initial sys).withWorld ()⟩ sys
    | .error e => .error e sys
  startTask entry args := fun (live, sys) =>
    match findEntry live.bytes entry with
    | .ok funcIdx =>
      live.finish ((do beginTask live.code funcIdx args; run live.code F fuel) (live.state.withWorld sys))
    | .error e => .error e (live, sys)
  resumeTask := fun (live, sys) => live.finish (run live.code F fuel (live.state.withWorld sys))

/-- `"env"` and `"yield"` -/
def YIELD_IMPORT : List UInt8 × List UInt8 := ([0x65, 0x6E, 0x76], [0x79, 0x69, 0x65, 0x6C, 0x64])

/-- A host registry with `env.yield` and any other functions. -/
def registry (others : List UInt8 → List UInt8 → Option (HostFn (Sys ω))) (mod name : List UInt8) :
    Option (HostFn (Sys ω)) :=
  if (mod, name) = YIELD_IMPORT then some hostYield else others mod name

/-- The only function the module imports is `env.yield`. -/
def ImportsOnlyYield (bytes : List UInt8) : Prop :=
  ∀ m names, load bytes = .ok m → parseIf m.importSection [] (forEachFuncImport (ε := RunError)) = .ok names →
    ∀ p ∈ names, p = YIELD_IMPORT

variable {lookupHost F fuel}

theorem instantiate_yieldOnly {others : List UInt8 → List UInt8 → Option (HostFn (Sys ω))} {bytes : List UInt8}
    {inst : Instance (HostFn (Sys ω))} (honly : ImportsOnlyYield bytes)
    (h : instantiate (registry others) bytes = .ok inst) :
    YieldOnly inst.code := by
  obtain ⟨m, pages, importCount, names, inst', hm, _, _, hnames, hnew, hcode, _, _⟩ := instantiate_inv h
  obtain ⟨_, _, _, _, _, _, _, _, _, _, _, _, _, _, _, _, rfl⟩ := interpreterNew_inv hnew
  rw [hcode]
  intro i h hh
  simp only [resolveImports] at hh
  split at hh
  · obtain ⟨p, hp, hlook⟩ := Option.bind_eq_some_iff.mp hh
    have hyield := honly m names hm hnames p (List.mem_of_getElem? hp)
    unfold registry at hlook
    rw [if_pos hyield] at hlook
    exact (Option.some.inj hlook).symm
  · cases hh

/-! ## The engine without the rest of the kernel -/

/-- What the engine does with the instance does not depend on the rest of the kernel, and leaves it alone. -/
def Unseen (m : EStateM (Fault RunError) (Live ω × Sys ω) TaskResult) (live : Live ω) : Prop :=
  ∀ sys sys', ∃ out u, m (live, sys) = withState out ({ live with state := u }, sys) ∧
    m (live, sys') = withState out ({ live with state := u }, sys')

theorem finish_apart {sys sys' : Sys ω} {r r' : EStateM.Result (Fault InterpError) (State (Sys ω)) Bool}
    (live : Live ω) (h : Alike (fun a b s t => a = b ∧ Apart sys sys' s t) (fun _ => Apart sys sys') r r') :
    ∃ out u, live.finish r = withState out ({ live with state := u }, sys) ∧
      live.finish r' = withState out ({ live with state := u }, sys') := by
  cases r with
  | ok a s =>
    cases r' with
    | ok b t =>
      obtain ⟨rfl, u, rfl, rfl⟩ := h
      refine ⟨taskResult (.ok a (u.withWorld sys)), u, rfl, ?_⟩
      cases a <;> rfl
    | error e t => exact h.elim
  | error e s =>
    cases r' with
    | ok b t => exact h.elim
    | error e' t =>
      obtain ⟨rfl, u, rfl, rfl⟩ := h
      refine ⟨taskResult (.error e (u.withWorld sys)), u, rfl, ?_⟩
      cases e with
      | err e => cases e <;> rfl
      | panic => rfl
      | hang => rfl

theorem apart_withWorld (u : State Unit) (w w' : Sys ω) : Apart w w' (u.withWorld w) (u.withWorld w') :=
  ⟨u, rfl, rfl⟩

theorem start_unseen {live : Live ω} (hcode : YieldOnly live.code) (entry : List UInt8) (args : List (BitVec 32)) :
    Unseen ((interpExec lookupHost F fuel).startTask entry args) live := by
  intro sys sys'
  simp only [interpExec]
  cases findEntry live.bytes entry with
  | error e => exact ⟨.error e, live.state, rfl, rfl⟩
  | ok funcIdx =>
    exact finish_apart live
      (twin_bind (blind_beginTask funcIdx args) (fun _ => blind_run hcode fuel) _ _
        (apart_withWorld live.state sys sys'))

theorem resume_unseen {live : Live ω} (hcode : YieldOnly live.code) :
    Unseen (interpExec lookupHost F fuel).resumeTask live := by
  intro sys sys'
  exact finish_apart live (blind_run hcode fuel _ _ (apart_withWorld live.state sys sys'))

end

namespace Kernel

section
variable {ω : Type} {E : Exec (Live ω) ω} {k k' : Kernel (Live ω) ω} {id : Nat} {live : Live ω}

/-! ## One task in the pool -/

/-- What the next step of a task does: it starts `main`, or it goes on. -/
def nextRun (E : Exec (Live ω) ω) : Option (List (BitVec 32)) → EStateM (Fault RunError) (Live ω × Sys ω) TaskResult
  | some args => E.startTask MAIN args
  | none => E.resumeTask

/-- A task that is to be started with `args`, or one that has yielded. -/
def Waits (t : Task) : Option (List (BitVec 32)) → Prop
  | some args => t.state = .ready ∧ t.wasmArgs = args
  | none => t.state = .suspended ∨ ∃ wake, t.state = .sleeping wake

/-- Task `id` has the instance `live` and waits for its next run. -/
def Holds (k : Kernel (Live ω) ω) (id : Nat) (c : Option (List (BitVec 32))) (live : Live ω) : Prop :=
  ∃ t, k.taskQueue id = some t ∧ k.pool t.inst = .active live ∧ Waits t c

def reply : Rust RunError TaskResult → Rust Empty (Except RunError TaskResult)
  | .ok r => .ok (.ok r)
  | .error (.err e) => .ok (.error e)
  | .error .panic => .error .panic
  | .error .hang => .error .hang

theorem onInstance_eq {handle : Nat} {m : EStateM (Fault RunError) (Live ω × Sys ω) TaskResult}
    {out : Rust RunError TaskResult}
    {live' : Live ω} {sys : Sys ω} (hlt : handle < MAX_INSTANCES) (hp : k.pool handle = .active live)
    (hm : m (live, k.sys) = withState out (live', sys)) : k.onInstance handle m =
      (reply out).map fun r => (r, { k.setSlot handle (.active live') with sys }) := by
  unfold onInstance
  rw [if_neg (Nat.not_le.mpr hlt), hp]
  simp only [hm]
  rcases out with (e | _ | _) | r <;> rfl

/-- The kernel when the run of task `id` is over. -/
def ranTask (k : Kernel (Live ω) ω) (id : Nat) (t : Task) (live : Live ω) (sys : Sys ω) : Kernel (Live ω) ω :=
  { (k.setTask id (some { t with state := .running })).setSlot t.inst (.active live) with sys }

theorem stepAwake_eq {c : Option (List (BitVec 32))} {t : Task} {later : Nat} {out : Rust RunError TaskResult}
    {live' : Live ω}
    {sys : Sys ω} (hlt : t.inst < MAX_INSTANCES) (hp : k.pool t.inst = .active live) (hw : Waits t c)
    (hs : ∀ wake, t.state ≠ .sleeping wake) (hm : nextRun E c (live, k.sys) = withState out (live', sys)) :
    k.stepAwake E id t later = (reply out).map fun r =>
      (some r, (k.ranTask id t live' sys).settleTask id { t with state := .running } later r) := by
  have hrun := onInstance_eq (k := k.setTask id (some { t with state := .running })) hlt hp hm
  unfold stepAwake
  cases c with
  | some args =>
    obtain ⟨hready, rfl⟩ := hw
    rw [hready]
    simp only [startTask]
    simp only [nextRun] at hrun
    rw [hrun]
    cases reply out <;> rfl
  | none =>
    have hsusp : t.state = .suspended := hw.resolve_right fun ⟨wake, h⟩ => hs wake h
    rw [hsusp]
    simp only [resumeTask]
    simp only [nextRun] at hrun
    rw [hrun]
    cases reply out <;> rfl

theorem setTask_setTask (k : Kernel (Live ω) ω) (id : Nat) (t u : Option Task) :
    (k.setTask id t).setTask id u = k.setTask id u := by
  unfold setTask
  simp only [upd_upd]

theorem taskStep_eq (hk : Consistent k) {c : Option (List (BitVec 32))} {t : Task} {now later : Nat}
    {out : Rust RunError TaskResult}
    {live' : Live ω} {sys : Sys ω} (ht : k.taskQueue id = some t) (hp : k.pool t.inst = .active live)
    (hw : Waits t c)
    (hrun : k.isTaskRunnable id now = true) (hm : nextRun E c (live, k.sys) = withState out (live', sys)) :
    k.taskStep E id now later = (reply out).map fun r =>
      (some r, (k.ranTask id t live' sys).settleTask id { t with state := .running } later r) := by
  have hlt := hk.inst_lt ht
  have hid : ¬ MAX_TASKS ≤ id := Nat.not_le.mpr (hk.id_lt ht)
  unfold isTaskRunnable at hrun
  unfold taskStep
  rw [if_neg hid, ht] at hrun ⊢
  simp only
  split
  · rename_i wake hwake
    simp only [Option.map_some, hwake, decide_eq_true_eq] at hrun
    rw [if_pos hrun]
    let awake : Task := { t with state := .suspended }
    have hc : c = none := by
      cases c with
      | none => rfl
      | some args => rw [hw.1] at hwake; cases hwake
    have hwaits : Waits awake c := by rw [hc]; exact .inl rfl
    have hnot : ∀ wake, awake.state ≠ .sleeping wake := fun _ => by simp [awake]
    have hstep : (k.setTask id (some awake)).stepAwake E id awake later = _ := stepAwake_eq hlt hp hwaits hnot hm
    rw [hstep]
    simp only [ranTask, setTask_setTask, awake]
  · rename_i hsleep
    exact stepAwake_eq hlt hp hw hsleep hm

theorem settleTask_yielded (k : Kernel (Live ω) ω) (id : Nat) (t : Task) (later : Nat) (live' : Live ω)
    (sys : Sys ω) :
    let k' := (k.ranTask id t live' sys).settleTask id { t with state := .running } later (.ok .yielded)
    Holds k' id none live' ∧ k'.sys = { sys with pendingSleepMs := 0 } ∧
      (sys.pendingSleepMs = 0 → k'.taskQueue id = some { t with state := .suspended }) := by
  intro k'
  let state : TaskState := if 0 < sys.pendingSleepMs then .sleeping (later + (sys.pendingSleepMs + 9) / 10)
    else .suspended
  have hq : k'.taskQueue id = some { t with state } := upd_self _ _ _
  refine ⟨⟨{ t with state }, hq, upd_self _ _ _, ?_⟩, rfl, fun h => ?_⟩
  · by_cases hms : 0 < sys.pendingSleepMs
    · exact .inr ⟨_, if_pos hms⟩
    · exact .inl (if_neg hms)
  · have hstate : state = .suspended := if_neg (by rw [h]; exact Nat.lt_irrefl 0)
    rw [hq, hstate]

theorem destroy_sys (k : Kernel (Live ω) ω) (handle : Nat) : (k.destroy handle).sys = k.sys := by
  unfold destroy
  split
  · rfl
  · split <;> rfl

theorem destroy_taskQueue (k : Kernel (Live ω) ω) (handle : Nat) : (k.destroy handle).taskQueue = k.taskQueue := by
  unfold destroy
  split
  · rfl
  · split <;> rfl

theorem settleTask_ended (k : Kernel (Live ω) ω) (id : Nat) (t : Task) (later : Nat) (live' : Live ω) (sys : Sys ω)
    {r : Except RunError TaskResult} (hr : r ≠ .ok .yielded) :
    let k' := (k.ranTask id t live' sys).settleTask id { t with state := .running } later r
    k'.taskQueue id = none ∧ k'.sys = sys := by
  rcases r with e | v | _
  · exact ⟨upd_self _ _ _, destroy_sys _ _⟩
  · exact ⟨upd_self _ _ _, destroy_sys _ _⟩
  · exact absurd rfl hr

theorem Change.holds {op : Op ω} {c : Option (List (BitVec 32))} (hk : Consistent k) (h : Change k op k')
    (hop : op.target ≠ some id) (hh : Holds k id c live) : Holds k' id c live := by
  obtain ⟨t, ht, hp, hw⟩ := hh
  suffices hkeep : k'.taskQueue id = some t ∧ k'.pool t.inst = .active live from ⟨t, hkeep.1, hkeep.2, hw⟩
  have hown : ∀ {i u}, k.taskQueue i = some u → i ≠ id → t.inst ≠ u.inst := by
    intro i u hu hi heq
    exact hi (hk.owns.inj (owner_eq hu) (by rw [owner_eq ht, heq]))
  have hfree : ∀ {slot m}, k.pool slot = .free m → t.inst ≠ slot := by
    intro slot m hm heq
    rw [heq, hm] at hp
    cases hp
  cases h with
  | none hpool hq => rw [hq, hpool]; exact ⟨ht, hp⟩
  | cleared slot m m' hm hpool hq =>
    rw [hq, hpool, upd_of_ne _ _ (hfree hm)]
    exact ⟨ht, hp⟩
  | spawned i slot m inst args hi hnone hslot hm hpool hq =>
    have hne : id ≠ i := by
      rintro rfl
      rw [hnone] at ht
      cases ht
    rw [hq, hpool, upd_of_ne _ _ (hfree hm), upd_of_ne _ _ hne]
    exact ⟨ht, hp⟩
  | stepped i u u' inst htarget hu hinst hidle hpool hq =>
    have hne : i ≠ id := fun h => hop (h ▸ htarget)
    rw [hq, hpool, upd_of_ne _ _ (hown hu hne), upd_of_ne _ _ (Ne.symm hne)]
    exact ⟨ht, hp⟩
  | ended i u m htarget hu hpool hq =>
    have hne : i ≠ id := fun h => hop (h ▸ htarget)
    rw [hq, hpool, upd_of_ne _ _ (hown hu hne), upd_of_ne _ _ (Ne.symm hne)]
    exact ⟨ht, hp⟩

/-! ## What can be seen of a task -/

/-- The size of the memory, its bytes and the globals of the instance of task `id`. -/
def view (k : Kernel (Live ω) ω) (id : Nat) : Option (Nat × List UInt8 × (Nat → BitVec 64)) :=
  match k.taskQueue id with
  | none => none
  | some t =>
    match k.pool t.inst with
    | .free _ => none
    | .active live =>
      some (live.state.currentPages, slice live.state.mem 0 (live.state.currentPages * PAGE_SIZE),
        live.state.globals)

/-- What a step of a task returns, and what is there when it is over. -/
structure Obs where
  result : Except RunError TaskResult
  view : Option (Nat × List UInt8 × (Nat → BitVec 64))

/-- The call of `task_step` that an operation makes on task `id`. -/
def observed (E : Exec (Live ω) ω) (k k' : Kernel (Live ω) ω) (id : Nat) : Op ω → List (Option Obs)
  | .taskStep i now later =>
    if i = id then
      match k.taskStep E i now later with
      | .ok (r, _) => [r.map (⟨·, k'.view id⟩)]
      | .error _ => []
    else []
  | _ => []

/-- The calls of `task_step` on task `id` along a run, as long as the task is there. -/
def trace (E : Exec (Live ω) ω) (id : Nat) : Kernel (Live ω) ω → List (Op ω) → List (Option Obs)
  | _, [] => []
  | k, op :: ops =>
    match step E k op with
    | .error _ => []
    | .ok k' => observed E k k' id op ++ if (k'.taskQueue id).isSome then trace E id k' ops else []

theorem view_of_holds {c : Option (List (BitVec 32))} (hh : Holds k id c live) : k.view id =
    some (live.state.currentPages, slice live.state.mem 0 (live.state.currentPages * PAGE_SIZE),
      live.state.globals) := by
  obtain ⟨t, ht, hp, _⟩ := hh
  unfold view
  simp only [ht, hp]

theorem view_none (h : k.taskQueue id = none) : k.view id = none := by
  unfold view
  rw [h]

theorem trace_cons {op : Op ω} (ops : List (Op ω)) (h : step E k op = .ok k') :
    trace E id k (op :: ops) = observed E k k' id op ++ if (k'.taskQueue id).isSome then trace E id k' ops
    else [] := by
  simp only [trace, h]

theorem step_taskStep {now later : Nat} {r : Option (Except RunError TaskResult)}
    (h : k.taskStep E id now later = .ok (r, k')) :
    step E k (.taskStep id now later) = .ok k' := by
  simp only [step, h]
  rfl

theorem trace_taskStep {now later : Nat} {r : Option (Except RunError TaskResult)} (ops : List (Op ω))
    (h : k.taskStep E id now later = .ok (r, k')) : trace E id k (.taskStep id now later :: ops) =
      r.map (⟨·, k'.view id⟩) :: if (k'.taskQueue id).isSome then trace E id k' ops else [] := by
  rw [trace_cons ops (step_taskStep h)]
  simp only [observed, if_true, h, List.cons_append, List.nil_append]

theorem trace_other {op : Op ω} (ops : List (Op ω)) (hop : op.target ≠ some id) (h : step E k op = .ok k')
    (hq : (k'.taskQueue id).isSome = true) : trace E id k (op :: ops) = trace E id k' ops := by
  have hobs : observed E k k' id op = [] := by
    cases op with
    | taskStep i now later => exact if_neg fun hi => hop (congrArg some hi)
    | taskSpawn junk bytes args => rfl
    | taskKill i => rfl
    | run junk bytes entry args fuel => rfl
    | other world => rfl
  rw [trace_cons ops h, hobs, if_pos hq, List.nil_append]

theorem Holds.isSome {c : Option (List (BitVec 32))} (hh : Holds k id c live) : (k.taskQueue id).isSome = true := by
  obtain ⟨t, ht, _⟩ := hh
  rw [ht]
  rfl

theorem taskKill_none {t : Task} (hk : Consistent k) (ht : k.taskQueue id = some t) :
    (k.taskKill id).taskQueue id = none := by
  unfold taskKill
  rw [if_neg (Nat.not_le.mpr (hk.id_lt ht)), ht]
  show ((k.setTask id none).destroy t.inst).taskQueue id = none
  rw [destroy_taskQueue]
  exact upd_self _ _ _

/-- What is the same of a task in two pools: its instance and what it waits for. In the second one it is
never asleep. -/
structure Matches (k : Kernel (Live ω) ω) (id : Nat) (k₂ : Kernel (Live ω) ω) (id₂ : Nat) : Prop where
  left : Consistent k
  right : Consistent k₂
  calm : k₂.sys.pendingSleepMs = 0
  same : ∃ c live, YieldOnly live.code ∧ Holds k id c live ∧ Holds k₂ id₂ c live ∧ k₂.isTaskRunnable id₂ 0 = true

theorem isTaskRunnable_of_state {t : Task} (hk : Consistent k) (ht : k.taskQueue id = some t)
    (hs : t.state = .ready ∨ t.state = .suspended) (now : Nat) : k.isTaskRunnable id now = true := by
  unfold isTaskRunnable
  rw [if_neg (Nat.not_le.mpr (hk.id_lt ht)), ht]
  rcases hs with hs | hs <;> simp [hs]

end

section
variable {ω : Type} (lookupHost : List UInt8 → List UInt8 → Option (HostFn (Sys ω))) (F : FloatOps) (fuel : Nat)
variable {k k' k₂ : Kernel (Live ω) ω} {id id₂ : Nat}

theorem nextRun_unseen {live : Live ω} (hcode : YieldOnly live.code) (c : Option (List (BitVec 32))) :
    Unseen (nextRun (interpExec lookupHost F fuel) c) live := by
  cases c with
  | some args => exact start_unseen hcode MAIN args
  | none => exact resume_unseen hcode

variable {lookupHost F fuel}

theorem Matches.taskStep (h : Matches k id k₂ id₂) {now later : Nat} {r : Except RunError TaskResult}
    (hstep : k.taskStep (interpExec lookupHost F fuel) id now later = .ok (some r, k')) :
    ∃ k₂', k₂.taskStep (interpExec lookupHost F fuel) id₂ 0 0 = .ok (some r, k₂') ∧ k'.view id = k₂'.view id₂ ∧
      (k'.taskQueue id = none ∧ k₂'.taskQueue id₂ = none ∨ Matches k' id k₂' id₂) := by
  obtain ⟨hk, hk₂, hcalm, c, live, hcode, ⟨t, ht, hp, hw⟩, ⟨t₂, ht₂, hp₂, hw₂⟩, hrun₂⟩ := h
  have hrun : k.isTaskRunnable id now = true := ((hk.runnableExact id now later).2 _ _ hstep).symm
  -- the engine does the same in both pools
  obtain ⟨out, u, hm, hm₂⟩ := nextRun_unseen lookupHost F fuel hcode c k.sys k₂.sys
  have heq : k.taskStep _ id now later = _ := taskStep_eq hk ht hp hw hrun hm
  have heq₂ : k₂.taskStep _ id₂ 0 0 = _ := taskStep_eq hk₂ ht₂ hp₂ hw₂ hrun₂ hm₂
  rw [heq] at hstep
  cases hout : reply out with
  | error f => rw [hout] at hstep; cases hstep
  | ok r' =>
    rw [hout] at heq heq₂ hstep
    cases hstep
    have hck := (step_change hk (step_taskStep heq)).consistent hk
    have hck₂ := (step_change hk₂ (step_taskStep heq₂)).consistent hk₂
    refine ⟨_, heq₂, ?_⟩
    by_cases hr : r = .ok .yielded
    · subst hr
      obtain ⟨hh, _, _⟩ := settleTask_yielded k id t later { live with state := u } k.sys
      obtain ⟨hh₂, hsys₂, hsusp₂⟩ := settleTask_yielded k₂ id₂ t₂ 0 { live with state := u } k₂.sys
      refine ⟨(view_of_holds hh).trans (view_of_holds hh₂).symm,
        .inr ⟨hck, hck₂, ?_, none, { live with state := u }, hcode, hh, hh₂, ?_⟩⟩
      · rw [hsys₂]
      · exact isTaskRunnable_of_state hck₂ (hsusp₂ hcalm) (.inr rfl) 0
    · obtain ⟨hq, _⟩ := settleTask_ended k id t later { live with state := u } k.sys hr
      obtain ⟨hq₂, _⟩ := settleTask_ended k₂ id₂ t₂ 0 { live with state := u } k₂.sys hr
      exact ⟨(view_none hq).trans (view_none hq₂).symm, .inl ⟨hq, hq₂⟩⟩

/-- The results of a task, without the calls that found it asleep, are those of as many steps in the second pool. -/
theorem trace_of_matches (h : Matches k id k₂ id₂) (ops : List (Op ω)) :
    let results := (trace (interpExec lookupHost F fuel) id k ops).reduceOption
    results.map some = trace (interpExec lookupHost F fuel) id₂ k₂
      (List.replicate results.length (.taskStep id₂ 0 0)) := by
  induction ops generalizing k k₂ with
  | nil => rfl
  | cons op ops ih =>
    intro results
    cases hstep : step (interpExec lookupHost F fuel) k op with
    | error f =>
      have hnil : results = [] := by simp only [results, trace, hstep]; rfl
      rw [hnil]
      rfl
    | ok k' =>
      have hck := (step_change h.left hstep).consistent h.left
      obtain ⟨c, live, hcode, hh, hh₂, hrun₂⟩ := h.same
      by_cases hop : op.target = some id
      · cases op with
        | taskKill i =>
          obtain rfl : i = id := Option.some.inj hop
          cases hstep
          obtain ⟨t, ht, _, _⟩ := hh
          have hnil : results = [] := by
            simp only [results, trace_cons ops (show step _ k (.taskKill i) = .ok _ from rfl),
              taskKill_none h.left ht]
            rfl
          rw [hnil]
          rfl
        | taskStep i now later =>
          obtain rfl : i = id := Option.some.inj hop
          obtain ⟨⟨r, k₁⟩, hts, hk₁⟩ := bind_eq_ok.mp hstep
          cases hk₁
          cases r with
          | none =>
            -- not its turn yet: the kernel is as it was
            have hsame : k' = k := by
              obtain ⟨_, hnone⟩ | ⟨_, t, _, hran⟩ :=
                taskStep_cases (E := interpExec lookupHost F fuel) h.left i now later
              · rw [hnone] at hts
                cases hts
                rfl
              · exact absurd (hran _ _ hts).1 (by simp)
            have htail : results = (trace (interpExec lookupHost F fuel) i k' ops).reduceOption := by
              simp only [results, trace_taskStep ops hts, hsame, hh.isSome, if_true]
              rfl
            rw [htail]
            exact ih (hsame ▸ h)
          | some r =>
            obtain ⟨k₂', hts₂, hview, ⟨hq, hq₂⟩ | hm⟩ := h.taskStep hts
            · have hone : results = [⟨r, k'.view i⟩] := by
                simp only [results, trace_taskStep ops hts, hq]
                rfl
              rw [hone]
              show _ = trace _ id₂ k₂ [.taskStep id₂ 0 0]
              rw [trace_taskStep [] hts₂, hq₂, hview]
              rfl
            · obtain ⟨c', live', _, hh', hh₂', _⟩ := hm.same
              have htail : results = ⟨r, k'.view i⟩ ::
                  (trace (interpExec lookupHost F fuel) i k' ops).reduceOption := by
                simp only [results, trace_taskStep ops hts, hh'.isSome, if_true]
                rfl
              rw [htail, List.length_cons, List.replicate_succ, trace_taskStep _ hts₂, hh₂'.isSome,
                if_pos rfl, hview, List.map_cons,
                ih hm]
              rfl
        | taskSpawn junk bytes args => cases hop
        | run junk bytes entry args fuel => cases hop
        | other world => cases hop
      · have hh' := (step_change h.left hstep).holds h.left hop hh
        have htail : results = (trace (interpExec lookupHost F fuel) id k' ops).reduceOption := by
          simp only [results, trace_other ops hop hstep hh'.isSome]
        rw [htail]
        exact ih ⟨hck, h.right, h.calm, c, live, hcode, hh', hh₂, hrun₂⟩

/-! ## A pool of such tasks -/

def fresh (bytes : List UInt8) (inst : Instance (HostFn (Sys ω))) (world : Sys ω) : Live ω :=
  ⟨bytes, inst.code, (inst.initial world).withWorld ()⟩

theorem instantiate_ok {bytes : List UInt8} {sys sys' : Sys ω} {live : Live ω}
    (h : (interpExec lookupHost F fuel).instantiate bytes sys = .ok live sys') :
    sys' = sys ∧ ∃ inst, instantiate lookupHost bytes = .ok inst ∧ live = fresh bytes inst sys := by
  simp only [interpExec] at h
  split at h
  · rename_i inst hi
    cases h
    exact ⟨rfl, inst, hi, rfl⟩
  · cases h

theorem instantiate_error {bytes : List UInt8} {sys sys' : Sys ω} {e : Fault RunError}
    (h : (interpExec lookupHost F fuel).instantiate bytes sys = .error e sys') : sys' = sys := by
  simp only [interpExec] at h
  split at h
  · cases h
  · cases h
    rfl

theorem taskSpawn_holds {junk : Nat → UInt8} {bytes : List UInt8} {args : List (BitVec 32)}
    (h : k.taskSpawn (interpExec lookupHost F fuel) junk bytes args = .ok (.ok id, k')) :
    ∃ inst, instantiate lookupHost bytes = .ok inst ∧
    Holds k' id (some (args.take MAX_TASK_ARGS)) (fresh bytes inst k.sys) := by
  unfold taskSpawn at h
  split at h
  · cases h
  rename_i i hi
  obtain ⟨⟨r₁, k₁⟩, hspawn, hrest⟩ := bind_eq_ok.mp h
  obtain ⟨rfl, rfl⟩ | ⟨slot, m, hslot, hm, ⟨e, sys, _, rfl, rfl⟩ | ⟨live, sys, hlive, rfl, rfl⟩⟩ := spawn_ok hspawn
  · cases hrest
  · cases hrest
  · cases hrest
    obtain ⟨rfl, inst, hinst, rfl⟩ := instantiate_ok hlive
    exact ⟨inst, hinst, _, upd_self _ _ _, upd_self _ _ _, rfl, rfl⟩

/-- No sleep is asked for, and every instance can only yield. -/
structure Calm (k : Kernel (Live ω) ω) : Prop where
  pending : k.sys.pendingSleepMs = 0
  yieldOnly : ∀ slot live, k.pool slot = .active live → YieldOnly live.code
  awake : ∀ id t, k.taskQueue id = some t → t.state = .ready ∨ t.state = .suspended

/-- Only modules that import nothing but `env.yield` are spawned. -/
def Op.OnlyYields : Op ω → Prop
  | .taskSpawn _ bytes _ => ImportsOnlyYield bytes
  | .run .. => False
  | _ => True

theorem Calm.setSlot (h : Calm k) {slot : Nat} {p : PoolSlot (Live ω)} (hp : ∀ live, p = .active live →
      YieldOnly live.code) :
    Calm (k.setSlot slot p) where
  pending := h.pending
  yieldOnly := by
    intro slot' live hl
    by_cases hs : slot' = slot
    · rw [hs] at hl
      exact hp live ((upd_self _ _ _).symm.trans hl)
    · exact h.yieldOnly slot' live ((upd_of_ne _ _ hs).symm.trans hl)
  awake := h.awake

theorem Calm.setTask (h : Calm k) {i : Nat} {t : Option Task} (ht : ∀ u, t = some u → u.state = .ready ∨
      u.state = .suspended) :
    Calm (k.setTask i t) where
  pending := h.pending
  yieldOnly := h.yieldOnly
  awake := by
    intro j u hu
    by_cases hj : j = i
    · rw [hj] at hu
      exact ht u ((upd_self _ _ _).symm.trans hu)
    · exact h.awake j u ((upd_of_ne _ _ hj).symm.trans hu)

theorem Calm.congr (h : Calm k) (hp : k'.pool = k.pool) (hq : k'.taskQueue = k.taskQueue)
    (hs : k'.sys.pendingSleepMs = 0) : Calm k' :=
  ⟨hs, by rw [hp]; exact h.yieldOnly, by rw [hq]; exact h.awake⟩

theorem Calm.destroy (h : Calm k) (handle : Nat) : Calm (k.destroy handle) := by
  unfold Kernel.destroy
  split
  · exact h
  · split
    · exact h
    · exact h.setSlot nofun

theorem Calm.taskSpawn {others : List UInt8 → List UInt8 → Option (HostFn (Sys ω))} (hc : Calm k)
    {junk : Nat → UInt8}
    {bytes : List UInt8} {args : List (BitVec 32)} {r : Except RunError Nat} (honly : ImportsOnlyYield bytes)
    (h : k.taskSpawn (interpExec (registry others) F fuel) junk bytes args = .ok (r, k')) : Calm k' := by
  unfold Kernel.taskSpawn at h
  split at h
  · cases h
    exact hc
  obtain ⟨⟨r₁, k₁⟩, hspawn, hrest⟩ := bind_eq_ok.mp h
  obtain ⟨rfl, rfl⟩ | ⟨slot, m, hslot, hm, ⟨e, sys, he, rfl, rfl⟩ | ⟨live, sys, hlive, rfl, rfl⟩⟩ := spawn_ok hspawn
  · cases hrest
    exact hc
  · cases hrest
    rw [instantiate_error he]
    exact hc.setSlot nofun
  · cases hrest
    obtain ⟨rfl, inst, hinst, rfl⟩ := instantiate_ok hlive
    refine Calm.setTask (k := k.setSlot slot (.active (fresh bytes inst k.sys))) (hc.setSlot ?_) ?_
    · intro live hl
      cases hl
      exact instantiate_yieldOnly honly hinst
    · intro u hu
      cases hu
      exact .inl rfl

theorem Calm.taskStep (hk : Consistent k) (hc : Calm k) {now later : Nat} {r : Option (Except RunError TaskResult)}
    (h : k.taskStep (interpExec lookupHost F fuel) id now later = .ok (r, k')) : Calm k' := by
  obtain ⟨_, hnone⟩ | ⟨hrun, t, ht, _⟩ := taskStep_cases (E := interpExec lookupHost F fuel) hk id now later
  · rw [hnone] at h
    cases h
    exact hc
  obtain ⟨live, hp⟩ := hk.active ht
  have hcode := hc.yieldOnly t.inst live hp
  obtain ⟨c, hw⟩ : ∃ c, Waits t c := by
    rcases hc.awake id t ht with hs | hs
    · exact ⟨some t.wasmArgs, hs, rfl⟩
    · exact ⟨none, .inl hs⟩
  obtain ⟨out, u, hm, _⟩ := nextRun_unseen lookupHost F fuel hcode c k.sys k.sys
  rw [taskStep_eq hk ht hp hw hrun hm] at h
  cases hout : reply out with
  | error f => rw [hout] at h; cases h
  | ok r' =>
    rw [hout] at h
    cases h
    let live' : Live ω := { live with state := u }
    have hset : Calm (k.setSlot t.inst (.active live')) := by
      refine hc.setSlot fun l hl => ?_
      cases hl
      exact hcode
    have hactive : (k.ranTask id t live' k.sys).pool t.inst = .active live' := upd_self _ _ _
    have hend : Calm (((k.ranTask id t live' k.sys).destroy t.inst).setTask id none) := by
      refine (Calm.setTask (i := id) (t := none) (hset.destroy t.inst) nofun).congr ?_ ?_ ?_
      · rw [destroy_active (k := k.setSlot t.inst (.active live')) (hk.inst_lt ht) (upd_self _ _ _)]
        simp only [Kernel.setTask, destroy_active (hk.inst_lt ht) hactive]
        rfl
      · simp only [Kernel.setTask, destroy_taskQueue]
        exact upd_upd _ _ _ _
      · show ((k.ranTask id t live' k.sys).destroy t.inst).sys.pendingSleepMs = 0
        rw [destroy_sys]
        exact hc.pending
    rcases r' with e | v | _
    · exact hend
    · exact hend
    · have hsusp : Calm ((k.setSlot t.inst (.active live')).setTask id (some { t with state := .suspended })) := by
        refine hset.setTask fun v hv => ?_
        cases hv
        exact .inr rfl
      refine hsusp.congr rfl ?_ rfl
      simp only [settleTask, takePendingSleepMs, ranTask, Kernel.setTask, Kernel.setSlot, upd_upd, hc.pending,
        Nat.lt_irrefl, if_false]

theorem Calm.step {others : List UInt8 → List UInt8 → Option (HostFn (Sys ω))} (hk : Consistent k)
    (hc : Calm k) {op : Op ω}
    (hop : op.OnlyYields) (h : step (interpExec (registry others) F fuel) k op = .ok k') : Calm k' := by
  cases op with
  | taskSpawn junk bytes args =>
    obtain ⟨⟨r, k₁⟩, hop', h⟩ := bind_eq_ok.mp h
    cases h
    exact hc.taskSpawn hop hop'
  | taskKill i =>
    cases h
    unfold taskKill
    split
    · exact hc
    · split
      · exact hc
      · exact Calm.destroy (hc.setTask (t := none) nofun) _
  | taskStep i now later =>
    obtain ⟨⟨r, k₁⟩, hop', h⟩ := bind_eq_ok.mp h
    cases h
    exact hc.taskStep hk hop'
  | run junk bytes entry args fuel => exact hop.elim
  | other world =>
    cases h
    exact hc.congr rfl rfl hc.pending

theorem Calm.runAll {others : List UInt8 → List UInt8 → Option (HostFn (Sys ω))} {ops : List (Op ω)}
    (hops : ∀ op ∈ ops, op.OnlyYields) (hk : Consistent k) (hc : Calm k)
    (h : Runs.runAll (Kernel.step (interpExec (registry others) F fuel)) k ops = .ok k') : Calm k' := by
  induction ops generalizing k with
  | nil => cases h; exact hc
  | cons op ops ih =>
    obtain ⟨k₁, hop, h⟩ := bind_eq_ok.mp h
    exact ih (fun o ho => hops o (.tail _ ho)) ((step_change hk hop).consistent hk)
      (hc.step hk (hops op (.head _)) hop) h

theorem boot_calm (mem : Nat → Nat → UInt8) (world : ω) : Calm (boot (I := Live ω) mem world) := ⟨rfl, nofun, nofun⟩

/-- Among tasks that only yield, every call of `task_step` runs the task. -/
theorem none_not_mem_trace {others : List UInt8 → List UInt8 → Option (HostFn (Sys ω))} {ops : List (Op ω)}
    (hops : ∀ op ∈ ops, op.OnlyYields) (hk : Consistent k) (hc : Calm k) (hid : (k.taskQueue id).isSome = true) :
    none ∉ trace (interpExec (registry others) F fuel) id k ops := by
  induction ops generalizing k with
  | nil => simp [trace]
  | cons op ops ih =>
    cases hstep : step (interpExec (registry others) F fuel) k op with
    | error f => simp [trace, hstep]
    | ok k' =>
      have hk' := (step_change hk hstep).consistent hk
      have hc' := hc.step hk (hops op (.head _)) hstep
      have htail : none ∉ if (k'.taskQueue id).isSome then
          trace (interpExec (registry others) F fuel) id k' ops else [] := by
        split
        · rename_i hsome
          exact ih (fun o ho => hops o (.tail _ ho)) hk' hc' hsome
        · simp
      rw [trace_cons ops hstep, List.mem_append, not_or]
      refine ⟨?_, htail⟩
      cases op with
      | taskStep i now later =>
        by_cases hi : i = id
        · obtain ⟨⟨r, k₁⟩, hts, _⟩ := bind_eq_ok.mp hstep
          obtain ⟨t, ht⟩ := Option.isSome_iff_exists.mp hid
          subst hi
          have hrun := isTaskRunnable_of_state hk ht (hc.awake i t ht) now
          have hsome := (hk.runnableExact i now later).2 _ _ hts
          rw [hrun] at hsome
          obtain ⟨v, rfl⟩ := Option.isSome_iff_exists.mp hsome
          simp [observed, hts]
        · simp [observed, hi]
      | taskSpawn junk bytes args => simp [observed]
      | taskKill i => simp [observed]
      | run junk bytes entry args fuel => simp [observed]
      | other world => simp [observed]

/-- A task that imports nothing but `env.yield`, spawned and stepped among others of any kind, returns
what it returns in a pool of its own, and its memory and its globals are the same after every step. If the
others only yield too, it is never found asleep. -/
theorem task_noninterference (others : List UInt8 → List UInt8 → Option (HostFn (Sys ω))) (F : FloatOps)
    (fuel : Nat) (mem : Nat → Nat → UInt8) (world : ω) (ops₀ : List (Op ω)) {k k₁ : Kernel (Live ω) ω}
    (h₀ : Runs.runAll (step (interpExec (registry others) F fuel)) (boot mem world) ops₀ = .ok k)
    {junk : Nat → UInt8} {bytes : List UInt8} {args : List (BitVec 32)} {id : Nat} (honly : ImportsOnlyYield bytes)
    (h₁ : k.taskSpawn (interpExec (registry others) F fuel) junk bytes args = .ok (.ok id, k₁))
    (mem' : Nat → Nat → UInt8) (world' : ω) (junk' : Nat → UInt8) :
    ∃ k₂, (boot mem' world').taskSpawn (interpExec (registry others) F fuel) junk' bytes args = .ok (.ok 0, k₂) ∧
      ∀ ops, let calls := trace (interpExec (registry others) F fuel) id k₁ ops
        calls.reduceOption.map some =
          trace (interpExec (registry others) F fuel) 0 k₂
          (List.replicate calls.reduceOption.length (.taskStep 0 0 0)) ∧
        ((∀ op ∈ ops₀ ++ ops, op.OnlyYields) → none ∉ calls) := by
  have hk : Consistent k := ((pool_consistent _ mem world ops₀).last h₀).1
  have hk₁ : Consistent k₁ := (step_spawn h₁).consistent hk
  obtain ⟨inst, hinst, hh₁⟩ := taskSpawn_holds h₁
  have hsolo : ∃ k₂, (boot mem' world').taskSpawn (interpExec (registry others) F fuel) junk' bytes args =
      .ok (.ok 0, k₂) := by
    simp only [taskSpawn, spawn, interpExec, hinst]
    exact ⟨_, rfl⟩
  obtain ⟨k₂, hk₂⟩ := hsolo
  obtain ⟨inst₂, hinst₂, hh₂⟩ := taskSpawn_holds hk₂
  obtain rfl : inst₂ = inst := by
    rw [hinst] at hinst₂
    cases hinst₂
    rfl
  have hcon₂ : Consistent k₂ := (step_spawn hk₂).consistent (boot_consistent mem' world')
  have hcalm₂ : Calm k₂ := (boot_calm mem' world').taskSpawn honly hk₂
  refine ⟨k₂, hk₂, fun ops => ⟨trace_of_matches ?_ ops, fun hops => ?_⟩⟩
  · have hh₂' := hh₂
    obtain ⟨t₂, ht₂, _⟩ := hh₂'
    exact ⟨hk₁, hcon₂, hcalm₂.pending, _, _, instantiate_yieldOnly honly hinst, hh₁, hh₂,
      isTaskRunnable_of_state hcon₂ ht₂ (hcalm₂.awake 0 t₂ ht₂) 0⟩
  · have hcalm : Calm k := (boot_calm mem world).runAll (fun op h => hops op (List.mem_append_left _ h))
      (boot_consistent mem world) h₀
    exact none_not_mem_trace (fun op h => hops op (List.mem_append_right _ h)) hk₁
      (hcalm.taskSpawn honly h₁) hh₁.isSome

end

/-- A module whose `main` calls its one import, `env.yield`. -/
def yielder : List UInt8 :=
  [0x00, 0x61, 0x73, 0x6D, 0x01, 0x00, 0x00, 0x00, 0x01, 0x04, 0x01, 0x60, 0x00, 0x00,
    0x02, 0x0D, 0x01, 0x03, 0x65, 0x6E, 0x76, 0x05, 0x79, 0x69, 0x65, 0x6C, 0x64, 0x00, 0x00, 0x03,
    0x02, 0x01, 0x00, 0x07, 0x08, 0x01, 0x04, 0x6D, 0x61, 0x69, 0x6E, 0x00, 0x01, 0x0A, 0x06, 0x01,
    0x04, 0x00, 0x10, 0x00, 0x0B]

theorem yielder_onlyYield : ImportsOnlyYield yielder := by
  intro m names hm hn p hp
  obtain ⟨m', hm', hn'⟩ : ∃ m', load yielder = .ok m' ∧
      parseIf m'.importSection [] (forEachFuncImport (ε := RunError)) = .ok [YIELD_IMPORT] := ⟨_, rfl, by decide⟩
  rw [hm'] at hm
  cases hm
  rw [hn'] at hn
  cases hn
  exact List.mem_singleton.mp hp

/-- Stepped twice in a pool whose memory was left full of `0xFF`. -/
theorem task_noninterference_yielder : ∃ k₁ k₂ : Kernel (Live Unit) Unit,
    (boot (fun _ _ => 0xFF) ()).taskSpawn (interpExec (registry fun _ _ => none) default 9)
    (fun _ => 0) yielder [] = .ok (.ok 0, k₁) ∧
    (boot (fun _ _ => 0) ()).taskSpawn (interpExec (registry fun _ _ => none) default 9) (fun _ => 0) yielder
    [] = .ok (.ok 0, k₂) ∧
    let calls := trace (interpExec (registry fun _ _ => none) default 9) 0 k₁ [.taskStep 0 0 0, .taskStep 0 0 0]
    calls.reduceOption.map some =
      trace (interpExec (registry fun _ _ => none) default 9) 0 k₂
      (List.replicate calls.reduceOption.length (.taskStep 0 0 0)) := by
  obtain ⟨k₁, h₁⟩ : ∃ k₁ : Kernel (Live Unit) Unit, (boot (fun _ _ => 0xFF) ()).taskSpawn
      (interpExec (registry fun _ _ => none) default 9) (fun _ => 0) yielder [] = .ok (.ok 0, k₁) := ⟨_, rfl⟩
  obtain ⟨k₂, h₂, h⟩ :=
    task_noninterference (fun _ _ => none) default 9 (fun _ _ => 0xFF) () [] rfl yielder_onlyYield h₁
    (fun _ _ => 0) () (fun _ => 0)
  exact ⟨k₁, k₂, h₁, h₂, (h _).1⟩

end Kernel

end WasmOs
