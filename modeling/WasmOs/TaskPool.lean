import Mathlib.Order.BooleanAlgebra.Set
import WasmOs.Owner
import WasmOs.Task

/-!
# The pool and the queue agree

`Change` says what an operation can do to the two tables: it clears a slot that no task has, adds a
task with a slot that was free, runs the instance of a task, or removes a task and frees its slot.
-/

namespace WasmOs.Kernel

open Owner

section
variable {I ω : Type} {E : Exec I ω} {k k' : Kernel I ω}

def owner (k : Kernel I ω) (id : Nat) : Option Nat := (k.taskQueue id).map Task.inst

def activeSlots (k : Kernel I ω) : Set Nat := { slot | (k.pool slot).isActive = true }

/-- The tasks have a slot each, the active slots are theirs, and none of them is half way through a step. -/
structure Consistent (k : Kernel I ω) : Prop where
  owns : Owns k.owner k.activeSlots
  id_lt : ∀ {id t}, k.taskQueue id = some t → id < MAX_TASKS
  inst_lt : ∀ {id t}, k.taskQueue id = some t → t.inst < MAX_INSTANCES
  idle : ∀ {id t}, k.taskQueue id = some t → t.state ≠ .running ∧ t.state ≠ .done

def Op.target : Op ω → Option Nat
  | .taskKill id => some id
  | .taskStep id _ _ => some id
  | _ => none

inductive Change (k : Kernel I ω) (op : Op ω) (k' : Kernel I ω) : Prop
  | none : k'.pool = k.pool → k'.taskQueue = k.taskQueue → Change k op k'
  | cleared (slot : Nat) (m m' : Nat → UInt8) : k.pool slot = .free m → k'.pool = upd k.pool slot (.free m') →
      k'.taskQueue = k.taskQueue → Change k op k'
  | spawned (id slot : Nat) (m : Nat → UInt8) (inst : I) (args : List (BitVec 32)) :
    id < MAX_TASKS → k.taskQueue id = .none →
      slot < MAX_INSTANCES → k.pool slot = .free m → k'.pool = upd k.pool slot (.active inst) →
      k'.taskQueue = upd k.taskQueue id (some ⟨.ready, slot, args⟩) → Change k op k'
  | stepped (id : Nat) (t t' : Task) (inst : I) : op.target = some id → k.taskQueue id = some t → t'.inst = t.inst →
      t'.state ≠ .running ∧ t'.state ≠ .done → k'.pool = upd k.pool t.inst (.active inst) →
      k'.taskQueue = upd k.taskQueue id (some t') → Change k op k'
  | ended (id : Nat) (t : Task) (m : Nat → UInt8) : op.target = some id → k.taskQueue id = some t →
      k'.pool = upd k.pool t.inst (.free m) → k'.taskQueue = upd k.taskQueue id .none → Change k op k'

/-! ## What a change keeps -/

theorem owner_eq {id : Nat} {t : Task} (ht : k.taskQueue id = some t) : k.owner id = some t.inst := by
  unfold owner
  rw [ht]
  rfl

theorem owner_none {id : Nat} (ht : k.taskQueue id = none) : k.owner id = none := by
  unfold owner
  rw [ht]
  rfl

theorem owner_upd {id : Nat} {t : Option Task} (hq : k'.taskQueue = upd k.taskQueue id t) :
    k'.owner = Function.update k.owner id (t.map Task.inst) := by
  funext i
  unfold owner
  rw [hq]
  by_cases hi : i = id
  · rw [hi, upd_self, Function.update_self]
  · rw [upd_of_ne _ _ hi, Function.update_of_ne hi]

theorem activeSlots_active {slot : Nat} {inst : I} (hp : k'.pool = upd k.pool slot (.active inst)) :
    k'.activeSlots = insert slot k.activeSlots := by
  ext h
  rw [Set.mem_insert_iff]
  unfold activeSlots
  rw [Set.mem_ofPred_eq, Set.mem_ofPred_eq, hp]
  by_cases hh : h = slot
  · simp [hh, PoolSlot.isActive]
  · simp [hh, upd_of_ne]

theorem activeSlots_free {slot : Nat} {m : Nat → UInt8} (hp : k'.pool = upd k.pool slot (.free m)) :
    k'.activeSlots = k.activeSlots \ {slot} := by
  ext h
  rw [Set.mem_sdiff, Set.mem_singleton_iff]
  unfold activeSlots
  rw [Set.mem_ofPred_eq, Set.mem_ofPred_eq, hp]
  by_cases hh : h = slot
  · simp [hh, PoolSlot.isActive]
  · simp [hh, upd_of_ne]

theorem not_mem_activeSlots {slot : Nat} {m : Nat → UInt8} (hm : k.pool slot = .free m) : slot ∉ k.activeSlots := by
  unfold activeSlots
  simp [hm, PoolSlot.isActive]

theorem Consistent.active (hk : Consistent k) {id : Nat} {t : Task} (ht : k.taskQueue id = some t) :
    ∃ inst, k.pool t.inst = .active inst := by
  have hact : (k.pool t.inst).isActive = true := hk.owns.mem (owner_eq ht)
  cases hp : k.pool t.inst with
  | free m => rw [hp] at hact; cases hact
  | active inst => exact ⟨inst, rfl⟩

theorem Change.owns {op : Op ω} (hk : Consistent k) (h : Change k op k') : Owns k'.owner k'.activeSlots := by
  cases h with
  | none hp hq =>
    have ho : k'.owner = k.owner := by unfold owner; rw [hq]
    have ha : k'.activeSlots = k.activeSlots := by unfold activeSlots; rw [hp]
    rw [ho, ha]
    exact hk.owns
  | cleared slot m m' hm hp hq =>
    have ho : k'.owner = k.owner := by unfold owner; rw [hq]
    rw [ho, activeSlots_free hp, Set.sdiff_singleton_eq_self (not_mem_activeSlots hm)]
    exact hk.owns
  | spawned id slot m inst args hid hnone hslot hm hp hq =>
    rw [owner_upd hq, activeSlots_active hp]
    exact hk.owns.insert (owner_none hnone) (not_mem_activeSlots hm)
  | stepped id t t' inst htarget ht hinst hidle hp hq =>
    have hown := owner_eq ht
    rw [owner_upd hq, activeSlots_active hp, Option.map_some, hinst, ← hown, Function.update_eq_self,
      Set.insert_eq_of_mem (hk.owns.mem hown)]
    exact hk.owns
  | ended id t m htarget ht hp hq =>
    rw [owner_upd hq, activeSlots_free hp]
    exact hk.owns.erase (owner_eq ht)

theorem Change.forall_task {op : Op ω} {P : Nat → Task → Prop} (h : Change k op k')
    (hk : ∀ id t, k.taskQueue id = some t → P id t)
    (hspawn : ∀ id slot args, id < MAX_TASKS → slot < MAX_INSTANCES → P id ⟨.ready, slot, args⟩)
    (hstep : ∀ id t t', P id t → t'.inst = t.inst → t'.state ≠ .running ∧ t'.state ≠ .done → P id t') :
    ∀ id t, k'.taskQueue id = some t → P id t := by
  intro i u hu
  cases h with
  | none hp hq => rw [hq] at hu; exact hk i u hu
  | cleared slot m m' hm hp hq => rw [hq] at hu; exact hk i u hu
  | spawned id slot m inst args hid hnone hslot hm hp hq =>
    rw [hq] at hu
    by_cases hi : i = id
    · rw [hi, upd_self] at hu
      cases hu
      rw [hi]
      exact hspawn id slot args hid hslot
    · rw [upd_of_ne _ _ hi] at hu
      exact hk i u hu
  | stepped id t t' inst htarget ht hinst hidle hp hq =>
    rw [hq] at hu
    by_cases hi : i = id
    · rw [hi, upd_self] at hu
      cases hu
      rw [hi]
      exact hstep id t u (hk id t ht) hinst hidle
    · rw [upd_of_ne _ _ hi] at hu
      exact hk i u hu
  | ended id t m htarget ht hp hq =>
    rw [hq] at hu
    by_cases hi : i = id
    · rw [hi, upd_self] at hu
      cases hu
    · rw [upd_of_ne _ _ hi] at hu
      exact hk i u hu

theorem Change.consistent {op : Op ω} (hk : Consistent k) (h : Change k op k') : Consistent k' where
  owns := h.owns hk
  id_lt := fun {id t} => h.forall_task (P := fun id _ => id < MAX_TASKS) (fun _ _ => hk.id_lt)
    (fun _ _ _ hid _ => hid)
    (fun _ _ _ hid _ _ => hid) id t
  inst_lt := fun {id t} => h.forall_task (P := fun _ t => t.inst < MAX_INSTANCES) (fun _ _ => hk.inst_lt)
    (fun _ _ _ _ hslot => hslot) (fun _ _ _ ht heq _ => heq ▸ ht) id t
  idle := fun {id t} => h.forall_task (P := fun _ t => t.state ≠ .running ∧ t.state ≠ .done) (fun _ _ => hk.idle)
    (fun _ _ _ _ _ => ⟨by simp, by simp⟩) (fun _ _ _ _ _ hidle => hidle) id t

/-! ## The operations -/

theorem freeSlot_some {slot : Nat} (h : k.freeSlot = some slot) :
    slot < MAX_INSTANCES ∧ ∃ m, k.pool slot = .free m := by
  have hfree := List.find?_some h
  refine ⟨List.mem_range.mp (List.mem_of_find?_eq_some h), ?_⟩
  cases hp : k.pool slot with
  | free m => exact ⟨m, rfl⟩
  | active inst => rw [hp] at hfree; cases hfree

theorem freeTask_some {id : Nat} (h : k.freeTask = some id) : id < MAX_TASKS ∧ k.taskQueue id = none := by
  have hnone := List.find?_some h
  exact ⟨List.mem_range.mp (List.mem_of_find?_eq_some h), Option.isNone_iff_eq_none.mp hnone⟩

theorem spawn_ok {junk : Nat → UInt8} {bytes : List UInt8} {r : Except RunError Nat}
    (h : k.spawn E junk bytes = .ok (r, k')) :
    (r = .error .poolFull ∧ k' = k) ∨
    ∃ slot m, slot < MAX_INSTANCES ∧ k.pool slot = .free m ∧
      ((∃ e sys, E.instantiate bytes k.sys = .error (.err e) sys ∧ r = .error e ∧
        k' = { k.setSlot slot (.free junk) with sys }) ∨
        ∃ inst sys, E.instantiate bytes k.sys = .ok inst sys ∧ r = .ok slot ∧
        k' = { k.setSlot slot (.active inst) with sys }) := by
  unfold spawn at h
  split at h
  · cases h
    exact .inl ⟨rfl, rfl⟩
  · rename_i slot hslot
    obtain ⟨hlt, m, hm⟩ := freeSlot_some hslot
    refine .inr ⟨slot, m, hlt, hm, ?_⟩
    split at h
    · rename_i inst sys hi
      cases h
      exact .inr ⟨inst, sys, hi, rfl, rfl⟩
    · rename_i e sys hi
      cases h
      exact .inl ⟨e, sys, hi, rfl, rfl⟩
    · cases h
    · cases h

theorem onInstance_ok {handle : Nat} {inst : I} {m : EStateM (Fault RunError) (I × Sys ω) TaskResult}
    {r : Except RunError TaskResult}
    (hlt : handle < MAX_INSTANCES) (hp : k.pool handle = .active inst) (h : k.onInstance handle m = .ok (r, k')) :
    ∃ inst' sys, k' = { k.setSlot handle (.active inst') with sys } := by
  unfold onInstance at h
  rw [if_neg (Nat.not_le.mpr hlt), hp] at h
  split at h
  · rename_i hf
    cases hf
  · rename_i i hi
    cases hi
    split at h
    · rename_i inst' sys _
      cases h
      exact ⟨inst', sys, rfl⟩
    · rename_i inst' sys _
      cases h
      exact ⟨inst', sys, rfl⟩
    · cases h
    · cases h

theorem destroy_active {handle : Nat} {inst : I} (hlt : handle < MAX_INSTANCES)
    (hp : k.pool handle = .active inst) :
    k.destroy handle = k.setSlot handle (.free fun _ => 0) := by
  unfold destroy
  rw [if_neg (Nat.not_le.mpr hlt), hp]

theorem upd_upd {α : Type} (a : Nat → α) (i : Nat) (p q : α) : upd (upd a i p) i q = upd a i q := by
  funext j
  by_cases hj : j = i
  · rw [hj, upd_self, upd_self]
  · rw [upd_of_ne _ _ hj, upd_of_ne _ _ hj, upd_of_ne _ _ hj]

/-- The loop of `run` only changes the instance it resumes. -/
theorem drain_ok {handle : Nat} (hlt : handle < MAX_INSTANCES) :
    ∀ {fuel : Nat} {x : Except RunError TaskResult × Kernel I ω}
    {inst : I} {r : Except RunError (Option (BitVec 64))}, x.2.pool handle = .active inst →
    drain E handle fuel x = .ok (r, k') →
    ∃ inst', k'.pool = upd x.2.pool handle (.active inst') ∧ k'.taskQueue = x.2.taskQueue := by
  have hstop : ∀ {k : Kernel I ω} {inst : I}, k.pool handle = .active inst →
      k.pool = upd k.pool handle (.active inst) := by
    intro k inst hp
    funext j
    by_cases hj : j = handle
    · rw [hj, upd_self, hp]
    · rw [upd_of_ne _ _ hj]
  intro fuel
  induction fuel with
  | zero =>
    intro x inst r hp h
    rcases x with ⟨e | v | _, k⟩ <;> cases h <;> exact ⟨inst, hstop hp, rfl⟩
  | succ fuel ih =>
    intro x inst r hp h
    rcases x with ⟨e | v | _, k⟩
    · cases h; exact ⟨inst, hstop hp, rfl⟩
    · cases h; exact ⟨inst, hstop hp, rfl⟩
    · obtain ⟨⟨r', k₁⟩, hres, h⟩ := bind_eq_ok.mp h
      obtain ⟨inst₁, sys, rfl⟩ := onInstance_ok hlt hp hres
      obtain ⟨inst', hpool, hqueue⟩ := ih (upd_self _ _ _) h
      exact ⟨inst', hpool.trans (upd_upd _ _ _ _), hqueue⟩

theorem step_spawn {junk : Nat → UInt8} {bytes : List UInt8} {args : List (BitVec 32)} {r : Except RunError Nat}
    (h : k.taskSpawn E junk bytes args = .ok (r, k')) : Change k (.taskSpawn junk bytes args) k' := by
  unfold taskSpawn at h
  split at h
  · cases h
    exact .none rfl rfl
  rename_i id hid
  obtain ⟨hid, hnone⟩ := freeTask_some hid
  obtain ⟨⟨r₁, k₁⟩, hspawn, hrest⟩ := bind_eq_ok.mp h
  obtain ⟨rfl, rfl⟩ | ⟨slot, m, hslot, hm, ⟨e, sys, _, rfl, rfl⟩ | ⟨inst, sys, _, rfl, rfl⟩⟩ := spawn_ok hspawn
  · cases hrest
    exact .none rfl rfl
  · cases hrest
    exact .cleared slot m junk hm rfl rfl
  · cases hrest
    exact .spawned id slot m inst _ hid hnone hslot hm rfl rfl

theorem step_run {junk : Nat → UInt8} {bytes entry : List UInt8} {args : List (BitVec 32)} {fuel : Nat}
    {r : Except RunError (Option (BitVec 64))} (h : k.run E junk bytes entry args fuel = .ok (r, k')) :
    Change k (.run junk bytes entry args fuel) k' := by
  unfold run at h
  obtain ⟨⟨r₁, k₁⟩, hspawn, hrest⟩ := bind_eq_ok.mp h
  obtain ⟨rfl, rfl⟩ | ⟨slot, m, hslot, hm, ⟨e, sys, _, rfl, rfl⟩ | ⟨inst, sys, _, rfl, rfl⟩⟩ := spawn_ok hspawn
  · cases hrest
    exact .none rfl rfl
  · cases hrest
    exact .cleared slot m junk hm rfl rfl
  · obtain ⟨⟨r₂, k₂⟩, hstart, hrest⟩ := bind_eq_ok.mp hrest
    obtain ⟨inst₂, sys₂, rfl⟩ := onInstance_ok hslot (upd_self _ _ _) hstart
    obtain ⟨⟨r₃, k₃⟩, hdrain, hrest⟩ := bind_eq_ok.mp hrest
    obtain ⟨inst₃, hpool, hqueue⟩ := drain_ok hslot (upd_self _ _ _) hdrain
    have hpool : k₃.pool = upd k.pool slot (.active inst₃) := by
      rw [hpool]
      exact (upd_upd _ _ _ _).trans (upd_upd _ _ _ _)
    have hactive : k₃.pool slot = .active inst₃ := by rw [hpool, upd_self]
    cases hrest
    refine .cleared slot m (fun _ => 0) hm ?_ ?_
    · rw [destroy_active hslot hactive]
      show upd k₃.pool slot _ = _
      rw [hpool, upd_upd]
    · rw [destroy_active hslot hactive]
      exact hqueue

theorem step_kill (hk : Consistent k) (id : Nat) : Change k (.taskKill id) (k.taskKill id) := by
  unfold taskKill
  by_cases hid : MAX_TASKS ≤ id
  · rw [if_pos hid]
    exact .none rfl rfl
  rw [if_neg hid]
  cases ht : k.taskQueue id with
  | none => exact .none rfl rfl
  | some t =>
    obtain ⟨inst, hp⟩ := hk.active ht
    have hd := destroy_active (k := k.setTask id none) (hk.inst_lt ht) hp
    refine .ended id t (fun _ => 0) rfl ht ?_ ?_
    · show ((k.setTask id none).destroy t.inst).pool = _
      rw [hd]
      rfl
    · show ((k.setTask id none).destroy t.inst).taskQueue = _
      rw [hd]
      rfl

/-- Task `id` ran and is suspended, or it is over. -/
def Ran (k : Kernel I ω) (id : Nat) (t : Task) (k' : Kernel I ω) : Prop :=
  (∃ t' inst, t'.inst = t.inst ∧ (t'.state ≠ .running ∧ t'.state ≠ .done) ∧
    k'.pool = upd k.pool t.inst (.active inst) ∧
    k'.taskQueue = upd k.taskQueue id (some t')) ∨
  ∃ m, k'.pool = upd k.pool t.inst (.free m) ∧ k'.taskQueue = upd k.taskQueue id none

theorem settleTask_ran {k₁ : Kernel I ω} {id later : Nat} {t : Task} {u : Option Task} {inst : I}
    (hlt : t.inst < MAX_INSTANCES)
    (hp : k₁.pool = upd k.pool t.inst (.active inst)) (hq : k₁.taskQueue = upd k.taskQueue id u)
    (r : Except RunError TaskResult) : Ran k id t (k₁.settleTask id t later r) := by
  have hq' : ∀ v, upd k₁.taskQueue id v = upd k.taskQueue id v := fun v => by rw [hq, upd_upd]
  have hend : Ran k id t ((k₁.destroy t.inst).setTask id none) := by
    have hactive : k₁.pool t.inst = .active inst := by rw [hp, upd_self]
    rw [destroy_active hlt hactive]
    refine .inr ⟨fun _ => 0, ?_, hq' none⟩
    show upd k₁.pool t.inst _ = _
    rw [hp, upd_upd]
  rcases r with e | v | _
  · exact hend
  · exact hend
  · let state : TaskState :=
      if 0 < k₁.sys.pendingSleepMs then .sleeping (later + (k₁.sys.pendingSleepMs + 9) / 10) else .suspended
    have hidle : state ≠ .running ∧ state ≠ .done := by
      unfold state
      split <;> simp
    exact .inl ⟨{ t with state }, inst, rfl, hidle, hp, hq' _⟩

theorem stepAwake_ran {id later : Nat} {t : Task} {inst : I} {r : Option (Except RunError TaskResult)}
    (hlt : t.inst < MAX_INSTANCES) (hp : k.pool t.inst = .active inst) (hs : t.state = .ready ∨
      t.state = .suspended)
    (h : k.stepAwake E id t later = .ok (r, k')) : r.isSome = true ∧ Ran k id t k' := by
  unfold stepAwake at h
  rcases hs with hs | hs
  all_goals
    rw [hs] at h
    obtain ⟨⟨r₁, k₁⟩, hrun, hrest⟩ := bind_eq_ok.mp h
    obtain ⟨inst₁, sys₁, rfl⟩ := onInstance_ok (k := k.setTask id (some { t with state := .running })) hlt hp hrun
    cases hrest
    exact ⟨rfl, settleTask_ran (t := { t with state := .running }) hlt rfl rfl r₁⟩

theorem Ran.of_setTask {id : Nat} {t : Task} {u : Option Task} (h : Ran (k.setTask id u) id t k') :
    Ran k id t k' := by
  rcases h with ⟨t', inst, hinst, hidle, hp, hq⟩ | ⟨m, hp, hq⟩
  · exact .inl ⟨t', inst, hinst, hidle, hp, hq.trans (upd_upd _ _ _ _)⟩
  · exact .inr ⟨m, hp, hq.trans (upd_upd _ _ _ _)⟩

/-- A task that is not runnable is left alone, and one that is runnable is run. -/
theorem taskStep_cases (hk : Consistent k) (id now later : Nat) :
    (k.isTaskRunnable id now = false ∧ k.taskStep E id now later = .ok (none, k)) ∨
    (k.isTaskRunnable id now = true ∧ ∃ t, k.taskQueue id = some t ∧
      ∀ r k', k.taskStep E id now later = .ok (r, k') → r.isSome = true ∧ Ran k id t k') := by
  unfold isTaskRunnable taskStep
  by_cases hid : MAX_TASKS ≤ id
  · rw [if_pos hid, if_pos hid]
    exact .inl ⟨rfl, rfl⟩
  rw [if_neg hid, if_neg hid]
  cases ht : k.taskQueue id with
  | none => exact .inl ⟨rfl, rfl⟩
  | some t =>
    obtain ⟨inst, hp⟩ := hk.active ht
    have hlt := hk.inst_lt ht
    obtain ⟨hrun, hdone⟩ := hk.idle ht
    cases hs : t.state with
    | running => exact absurd hs hrun
    | done => exact absurd hs hdone
    | ready =>
      refine .inr ⟨by simp [hs], t, rfl, fun r k' h => ?_⟩
      simp only [hs] at h
      exact stepAwake_ran hlt hp (.inl hs) h
    | suspended =>
      refine .inr ⟨by simp [hs], t, rfl, fun r k' h => ?_⟩
      simp only [hs] at h
      exact stepAwake_ran hlt hp (.inr hs) h
    | sleeping wake =>
      by_cases hw : wake ≤ now
      · refine .inr ⟨by simp [hs, hw], t, rfl, fun r k' h => ?_⟩
        simp only [hs, if_pos hw] at h
        let awake : Task := { t with state := .suspended }
        obtain ⟨hsome, hran⟩ := stepAwake_ran (k := k.setTask id (some awake)) (t := awake) hlt hp (.inr rfl) h
        exact ⟨hsome, Ran.of_setTask hran⟩
      · exact .inl ⟨by simp [hs, hw], by simp only [hs, if_neg hw]⟩

theorem step_change (hk : Consistent k) {op : Op ω} (h : step E k op = .ok k') : Change k op k' := by
  cases op with
  | taskSpawn junk bytes args =>
    obtain ⟨⟨r, k₁⟩, hop, h⟩ := bind_eq_ok.mp h
    cases h
    exact step_spawn hop
  | taskKill id =>
    cases h
    exact step_kill hk id
  | taskStep id now later =>
    obtain ⟨⟨r, k₁⟩, hop, h⟩ := bind_eq_ok.mp h
    cases h
    obtain ⟨_, hnone⟩ | ⟨_, t, ht, hran⟩ := taskStep_cases (E := E) hk id now later
    · rw [hnone] at hop
      cases hop
      exact .none rfl rfl
    · obtain ⟨_, ⟨t', inst, hinst, hidle, hp, hq⟩ | ⟨m, hp, hq⟩⟩ := hran _ _ hop
      · exact .stepped id t t' inst rfl ht hinst hidle hp hq
      · exact .ended id t m rfl ht hp hq
  | run junk bytes entry args fuel =>
    obtain ⟨⟨r, k₁⟩, hop, h⟩ := bind_eq_ok.mp h
    cases h
    exact step_run hop
  | other world =>
    cases h
    exact .none rfl rfl

theorem boot_consistent (mem : Nat → Nat → UInt8) (world : ω) : Consistent (boot (I := I) mem world) where
  owns := by
    have hactive : (boot (I := I) mem world).activeSlots = ∅ := by
      ext slot
      simp [activeSlots, boot, PoolSlot.isActive]
    rw [hactive]
    exact Owns.none_of_empty fun _ => rfl
  id_lt := nofun
  inst_lt := nofun
  idle := nofun

/-- `is_task_runnable` says whether `task_step` at that tick runs the task. -/
def RunnableExact (E : Exec I ω) (k : Kernel I ω) : Prop :=
  ∀ id now later, (k.isTaskRunnable id now = false → k.taskStep E id now later = .ok (none, k)) ∧
    ∀ r k', k.taskStep E id now later = .ok (r, k') → r.isSome = k.isTaskRunnable id now

theorem Consistent.runnableExact (hk : Consistent k) : RunnableExact E k := by
  intro id now later
  obtain ⟨hrun, hnone⟩ | ⟨hrun, t, ht, hran⟩ := taskStep_cases (E := E) hk id now later
  · refine ⟨fun _ => hnone, fun r k' h => ?_⟩
    rw [hnone] at h
    cases h
    exact hrun.symm
  · refine ⟨fun hf => ?_, fun r k' h => ?_⟩
    · rw [hrun] at hf
      cases hf
    · rw [hrun]
      exact (hran r k' h).1

/-- Between the operations of any run of the kernel, the pool and the queue agree. -/
theorem pool_consistent (E : Exec I ω) (mem : Nat → Nat → UInt8) (world : ω) (ops : List (Op ω)) :
    Runs.Always (step E) (fun k => Consistent k ∧ RunnableExact E k) (boot mem world) ops := by
  suffices h : ∀ k, Consistent k → Runs.Always (step E) (fun k => Consistent k ∧ RunnableExact E k) k ops from
    h _ (boot_consistent mem world)
  induction ops with
  | nil => exact fun k hk => ⟨hk, hk.runnableExact⟩
  | cons op ops ih =>
    exact fun k hk => ⟨⟨hk, hk.runnableExact⟩, fun k' h => ih k' ((step_change hk h).consistent hk)⟩

end

end WasmOs.Kernel
