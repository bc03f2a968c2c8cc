import Mathlib.Data.List.Find
import WasmOs.RoundRobin
import WasmOs.TaskPool

/-!
# The scheduler

The loop of `scheduler.rs`: in each iteration the network and the shell do what they do, then one task that
can run is stepped, the first behind `CURSOR` in the circle of the queue. No task that can run waits longer
than one turn for each entry of the queue.
-/

namespace WasmOs.Scheduler

open Kernel Runs

/-- What one call of `run_next_task` saw and did: which tasks it would have found runnable, each at the tick when
it is looked at, which one it stepped, and how that ended. -/
structure Turn where
  runnable : Nat → Bool
  stepped : Option Nat
  result : Option (Except RunError TaskResult)

structure Sched (I ω : Type) where
  kernel : Kernel I ω
  cursor : Nat
  turns : List Turn

/-- One iteration of `run`. `ops` is what the receive pump and the shell do with the tasks; `clock` gives the
tick at each look of `run_next_task` and, behind the last one, when the task starts; `later` is the tick when it
stops. -/
structure Round (ω : Type) where
  ops : List (Op ω)
  clock : Nat → Nat
  clock_mono : ∀ i j, i ≤ j → clock i ≤ clock j
  later : Nat

section
variable {I ω : Type} (E : Exec I ω)

def Sched.boot (mem : Nat → Nat → UInt8) (world : ω) : Sched I ω := ⟨.boot mem world, 0, []⟩

/-- The task that a turn looks at in place `i`. -/
def Sched.lookedAt (s : Sched I ω) (i : Nat) : Nat :=
  let start := (s.cursor + 1) % MAX_TASKS
  (start + i) % MAX_TASKS

def runNextTask (s : Sched I ω) (clock : Nat → Nat) (later : Nat) : Rust Empty (Sched I ω) :=
  let runnable := fun id => s.kernel.isTaskRunnable id (clock (RoundRobin.distance MAX_TASKS s.cursor id))
  match (List.range MAX_TASKS).find? fun i => s.kernel.isTaskRunnable (s.lookedAt i) (clock i) with
  | some i => do
    let id := s.lookedAt i
    let (result, kernel) ← s.kernel.taskStep E id (clock (i + 1)) later
    .ok ⟨kernel, id, s.turns ++ [⟨runnable, some id, result⟩]⟩
  | none => .ok { s with turns := s.turns ++ [⟨runnable, none, none⟩] }

def round (s : Sched I ω) (r : Round ω) : Rust Empty (Sched I ω) := do
  let kernel ← runAll (Kernel.step E) s.kernel r.ops
  runNextTask E { s with kernel := kernel } r.clock r.later

end

/-! ## Turns -/

section
variable {I ω : Type} {E : Exec I ω} {s s' : Sched I ω}

theorem MAX_TASKS_pos : 0 < MAX_TASKS := by decide

theorem isTaskRunnable_later {k : Kernel I ω} {id now later : Nat} (hle : now ≤ later)
    (h : k.isTaskRunnable id now = true) :
    k.isTaskRunnable id later = true := by
  unfold Kernel.isTaskRunnable at *
  split at h
  · cases h
  · rename_i hid
    rw [if_neg hid]
    split at h
    · rfl
    · rfl
    · exact decide_eq_true (Nat.le_trans (of_decide_eq_true h) hle)
    · cases h

/-- The turn takes the slot that round robin takes. -/
theorem find_turn (s : Sched I ω) (clock : Nat → Nat) :
    ((List.range MAX_TASKS).find? fun i => s.kernel.isTaskRunnable (s.lookedAt i) (clock i)).map s.lookedAt =
      RoundRobin.turn MAX_TASKS s.cursor fun id => s.kernel.isTaskRunnable id
      (clock (RoundRobin.distance MAX_TASKS s.cursor id)) := by
  unfold RoundRobin.turn
  rw [List.find?_map]
  congr 1
  apply List.find?_congr
  intro i hi
  show _ = s.kernel.isTaskRunnable (RoundRobin.slotAt MAX_TASKS s.cursor i)
    (clock (RoundRobin.distance MAX_TASKS s.cursor (RoundRobin.slotAt MAX_TASKS s.cursor i)))
  rw [RoundRobin.distance_slotAt (List.mem_range.mp hi)]
  rfl

structure Sched.Inv (s : Sched I ω) : Prop where
  consistent : Consistent s.kernel
  stepped : s.turns.map Turn.stepped = RoundRobin.run MAX_TASKS 0 (s.turns.map Turn.runnable)
  cursor : s.cursor = RoundRobin.cursorAfter MAX_TASKS 0 (s.turns.map Turn.runnable)
  cursor_lt : s.cursor < MAX_TASKS
  ran : ∀ t ∈ s.turns, t.result.isSome = t.stepped.isSome

theorem boot_inv (mem : Nat → Nat → UInt8) (world : ω) : (Sched.boot (I := I) mem world).Inv :=
  ⟨boot_consistent mem world, rfl, rfl, MAX_TASKS_pos, fun t ht => by cases ht⟩

theorem ops_consistent : ∀ {ops : List (Op ω)} {k k' : Kernel I ω}, Consistent k →
    runAll (Kernel.step E) k ops = .ok k' → Consistent k'
  | [], _, _, hk, h => by cases h; exact hk
  | op :: ops, k, k', hk, h => by
    unfold runAll at h
    obtain ⟨k₁, h₁, h⟩ := bind_eq_ok.mp h
    exact ops_consistent ((step_change hk h₁).consistent hk) h

theorem runNextTask_inv (h : s.Inv) {clock : Nat → Nat} (hclock : ∀ i j, i ≤ j → clock i ≤ clock j) {later : Nat}
    (hs : runNextTask E s clock later = .ok s') : s'.Inv := by
  have hturn := find_turn s clock
  unfold runNextTask at hs
  dsimp only at hs
  generalize hready :
    (fun id => s.kernel.isTaskRunnable id (clock (RoundRobin.distance MAX_TASKS s.cursor id))) = ready at hs hturn
  have hrun : ∀ o, RoundRobin.turn MAX_TASKS s.cursor ready = o →
      RoundRobin.run MAX_TASKS 0 (s.turns.map Turn.runnable ++ [ready]) = s.turns.map Turn.stepped ++ [o] := by
    rintro o rfl
    rw [RoundRobin.run_append, ← h.cursor, ← h.stepped]
    rfl
  have hafter : RoundRobin.cursorAfter MAX_TASKS 0 (s.turns.map Turn.runnable ++ [ready]) =
      (RoundRobin.turn MAX_TASKS s.cursor ready).getD s.cursor := by
    rw [RoundRobin.cursorAfter_append, ← h.cursor]
    rfl
  cases hfind : (List.range MAX_TASKS).find? fun i => s.kernel.isTaskRunnable (s.lookedAt i) (clock i) with
  | none =>
    rw [hfind] at hs hturn
    cases hs
    refine ⟨h.consistent, ?_, ?_, h.cursor_lt, fun t ht => ?_⟩
    · rw [List.map_append, List.map_append, List.map_singleton, List.map_singleton, hrun _ hturn.symm]
      rfl
    · rw [List.map_append, List.map_singleton, hafter, ← hturn]
      rfl
    · rcases List.mem_append.mp ht with ht | ht
      · exact h.ran t ht
      · rw [List.mem_singleton.mp ht]
        rfl
  | some i =>
    rw [hfind] at hs hturn
    obtain ⟨⟨result, kernel⟩, hstep, hs⟩ := bind_eq_ok.mp hs
    cases hs
    have hlooked : s.kernel.isTaskRunnable (s.lookedAt i) (clock i) = true :=
      List.find?_some (p := fun i => s.kernel.isTaskRunnable (s.lookedAt i) (clock i)) hfind
    -- the clock has not gone back when the task starts, so the step is not refused
    have hnow := isTaskRunnable_later (hclock i (i + 1) (Nat.le_succ i)) hlooked
    have hsome : result.isSome = true := by
      rw [(h.consistent.runnableExact (E := E) _ _ _).2 _ _ hstep]
      exact hnow
    have hone : Kernel.step E s.kernel (.taskStep (s.lookedAt i) (clock (i + 1)) later) = .ok kernel := by
      show (do let (_, k) ← s.kernel.taskStep E _ _ _; .ok k : Rust Empty (Kernel I ω)) = _
      rw [hstep]
      rfl
    refine ⟨(step_change h.consistent hone).consistent h.consistent, ?_, ?_, ?_, fun t ht => ?_⟩
    · rw [List.map_append, List.map_append, List.map_singleton, List.map_singleton, hrun _ hturn.symm]
      rfl
    · rw [List.map_append, List.map_singleton, hafter, ← hturn]
      rfl
    · exact RoundRobin.slotAt_lt MAX_TASKS_pos _ _
    · rcases List.mem_append.mp ht with ht | ht
      · exact h.ran t ht
      · rw [List.mem_singleton.mp ht]
        exact hsome

theorem round_inv (h : s.Inv) {r : Round ω} (hs : round E s r = .ok s') : s'.Inv := by
  obtain ⟨kernel, hops, hs⟩ := bind_eq_ok.mp hs
  have hops' : Sched.Inv { s with kernel := kernel } :=
    ⟨ops_consistent h.consistent hops, h.stepped, h.cursor, h.cursor_lt, h.ran⟩
  exact runNextTask_inv hops' r.clock_mono hs

/-- In a stretch of turns the stepped tasks are those that round robin takes from where the cursor was. -/
theorem Sched.Inv.window (h : s.Inv) {before window after : List Turn}
    (hturns : s.turns = before ++ window ++ after) :
    ∃ cursor, window.map Turn.stepped = RoundRobin.run MAX_TASKS cursor (window.map Turn.runnable) := by
  have hstepped := h.stepped
  rw [hturns, List.map_append, List.map_append, List.map_append, List.map_append, RoundRobin.run_append,
    RoundRobin.run_append] at hstepped
  refine ⟨RoundRobin.cursorAfter MAX_TASKS 0 (before.map Turn.runnable), ?_⟩
  obtain ⟨hleft, -⟩ := List.append_inj hstepped (by simp [RoundRobin.run_length])
  exact (List.append_inj hleft (by simp [RoundRobin.run_length])).2

/-- In every run of the loop, whatever the shell does with the tasks in between: a turn idles only if no task can
run, a turn that takes a task does step it, and a task that can run in `MAX_TASKS` turns in a row is stepped in
one of them. -/
theorem scheduler_fair (E : Exec I ω) (mem : Nat → Nat → UInt8) (world : ω) (rounds : List (Round ω)) :
    Always (round E) (fun s => s.cursor < MAX_TASKS ∧
      (∀ t ∈ s.turns, (t.stepped = none ↔ ∀ id < MAX_TASKS, t.runnable id = false) ∧
        ∀ id, t.stepped = some id → t.runnable id = true ∧ t.result.isSome) ∧
      ∀ before window after, s.turns = before ++ window ++ after → window.length = MAX_TASKS →
        ∀ id < MAX_TASKS, (∀ t ∈ window, t.runnable id = true) → ∃ t ∈ window, t.stepped = some id)
      (Sched.boot mem world) rounds := by
  have hrun : Always (round E) Sched.Inv (Sched.boot mem world) rounds :=
    AllSteps.always (fun _ _ _ h _ hs => round_inv h hs) (boot_inv mem world)
      (allSteps_of_forall (fun _ _ _ => trivial))
  refine hrun.mono fun s h => ⟨h.cursor_lt, fun t ht => ?_, fun before window after hturns hlen id hid hall => ?_⟩
  · obtain ⟨before, after, hturns⟩ := List.append_of_mem ht
    have hsplit : s.turns = before ++ [t] ++ after := by rw [hturns, List.append_assoc]; rfl
    obtain ⟨cursor, hwindow⟩ := h.window hsplit
    have hturn : t.stepped = RoundRobin.turn MAX_TASKS cursor t.runnable := (List.cons.inj hwindow).1
    refine ⟨?_, fun id hid => ?_⟩
    · rw [hturn]
      exact RoundRobin.turn_none
    · refine ⟨(RoundRobin.turn_spec (hturn.symm.trans hid)).2.1, ?_⟩
      rw [h.ran t ht, hid]
      rfl
  · obtain ⟨cursor, hwindow⟩ := h.window hturns
    have htaken : some id ∈ RoundRobin.run MAX_TASKS cursor (window.map Turn.runnable) := by
      apply RoundRobin.run_fair hid
      · intro ready hready
        obtain ⟨t, ht, rfl⟩ := List.mem_map.mp hready
        exact hall t ht
      · rw [List.length_map, hlen]
        exact RoundRobin.distance_lt MAX_TASKS_pos _ _
    rw [← hwindow] at htaken
    obtain ⟨t, ht, hstepped⟩ := List.mem_map.mp htaken
    exact ⟨t, ht, hstepped⟩

end

end WasmOs.Scheduler
