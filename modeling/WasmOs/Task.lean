import WasmOs.Interp
import WasmOs.Runs

/-!
# Tasks and the instance pool

`engine.rs` keeps the instances in a pool of `MAX_INSTANCES` slots, `task.rs` the tasks in a queue of
as many entries; a task has the number of its slot. Nothing here depends on how an instance runs its
code: `Exec` has what the pool needs of it, with or without compiled functions. Names are left out.
-/

namespace WasmOs

def MAX_INSTANCES : Nat := 4

def MAX_TASKS : Nat := MAX_INSTANCES

def MAX_TASK_ARGS : Nat := 8

inductive TaskState where
  | ready | running | suspended
  | sleeping (wake : Nat)
  | done
  deriving DecidableEq, Repr

structure Task where
  state : TaskState
  /-- The task's slot in the pool. -/
  inst : Nat
  wasmArgs : List (BitVec 32)

inductive TaskResult where
  | completed (value : Option (BitVec 64))
  | yielded
  deriving DecidableEq, Repr

/-- What a host function reaches outside the instance; `ω` is the kernel without the pool and the queue. -/
structure Sys (ω : Type) where
  pendingSleepMs : Nat
  rest : ω

/-- A slot is free, with the bytes its memory was left with, or it has an instance. -/
inductive PoolSlot (I : Type) where
  | free (mem : Nat → UInt8)
  | active (inst : I)

def PoolSlot.isActive {I : Type} : PoolSlot I → Bool
  | .free _ => false
  | .active _ => true

/-- The engine on one instance. A run that does not come back is a `panic` or a `hang`. -/
structure Exec (I ω : Type) where
  /-- `spawn` once a slot is found and its memory is zeroed. -/
  instantiate : List UInt8 → EStateM (Fault RunError) (Sys ω) I
  startTask : List UInt8 → List (BitVec 32) → EStateM (Fault RunError) (I × Sys ω) TaskResult
  resumeTask : EStateM (Fault RunError) (I × Sys ω) TaskResult

structure Kernel (I ω : Type) where
  pool : Nat → PoolSlot I
  taskQueue : Nat → Option Task
  sys : Sys ω

namespace Kernel

section
variable {I ω : Type}

/-- The kernel after boot; nothing is known of the memory of the slots. -/
def boot (mem : Nat → Nat → UInt8) (world : ω) : Kernel I ω := ⟨fun i => .free (mem i), fun _ => none, ⟨0, world⟩⟩

def setSlot (k : Kernel I ω) (slot : Nat) (p : PoolSlot I) : Kernel I ω := { k with pool := upd k.pool slot p }

def setTask (k : Kernel I ω) (id : Nat) (t : Option Task) : Kernel I ω :=
  { k with taskQueue := upd k.taskQueue id t }

def freeSlot (k : Kernel I ω) : Option Nat := (List.range MAX_INSTANCES).find? fun i => !(k.pool i).isActive

def freeTask (k : Kernel I ω) : Option Nat := (List.range MAX_TASKS).find? fun i => (k.taskQueue i).isNone

/-! ## The pool -/

variable (E : Exec I ω)

/-- `junk` is what a failed instantiation leaves in the memory of the slot. -/
def spawn (k : Kernel I ω) (junk : Nat → UInt8) (bytes : List UInt8) :
    Rust Empty (Except RunError Nat × Kernel I ω) :=
  match k.freeSlot with
  | none => .ok (.error .poolFull, k)
  | some slot =>
    match E.instantiate bytes k.sys with
    | .ok inst sys => .ok (.ok slot, { k.setSlot slot (.active inst) with sys })
    | .error (.err e) sys => .ok (.error e, { k.setSlot slot (.free junk) with sys })
    | .error .panic _ => .error .panic
    | .error .hang _ => .error .hang

def destroy (k : Kernel I ω) (handle : Nat) : Kernel I ω :=
  if MAX_INSTANCES ≤ handle then k else
  match k.pool handle with
  | .free _ => k
  | .active _ => k.setSlot handle (.free fun _ => 0)

def onInstance (k : Kernel I ω) (handle : Nat) (m : EStateM (Fault RunError) (I × Sys ω) TaskResult) :
    Rust Empty (Except RunError TaskResult × Kernel I ω) :=
  if MAX_INSTANCES ≤ handle then .ok (.error .entryNotFound, k) else
  match k.pool handle with
  | .free _ => .ok (.error .entryNotFound, k)
  | .active inst =>
    match m (inst, k.sys) with
    | .ok r (inst, sys) => .ok (.ok r, { k.setSlot handle (.active inst) with sys })
    | .error (.err e) (inst, sys) => .ok (.error e, { k.setSlot handle (.active inst) with sys })
    | .error .panic _ => .error .panic
    | .error .hang _ => .error .hang

def startTask (k : Kernel I ω) (handle : Nat) (entry : List UInt8) (args : List (BitVec 32)) :
    Rust Empty (Except RunError TaskResult × Kernel I ω) :=
  k.onInstance handle (E.startTask entry args)

def resumeTask (k : Kernel I ω) (handle : Nat) : Rust Empty (Except RunError TaskResult × Kernel I ω) :=
  k.onInstance handle E.resumeTask

/-- `while let Ok(Yielded) = result { result = resume_task(handle); }`, at most `fuel` times. -/
def drain (handle : Nat) : Nat → Except RunError TaskResult × Kernel I ω →
    Rust Empty (Except RunError (Option (BitVec 64)) × Kernel I ω)
  | _, (.error e, k) => .ok (.error e, k)
  | _, (.ok (.completed v), k) => .ok (.ok v, k)
  | 0, (.ok .yielded, _) => .error .hang
  | fuel + 1, (.ok .yielded, k) => do
    let x ← k.resumeTask E handle
    drain handle fuel x

/-- `engine::run`, which is also what the shell's `run` does. -/
def run (k : Kernel I ω) (junk : Nat → UInt8) (bytes entry : List UInt8) (args : List (BitVec 32)) (fuel : Nat) :
    Rust Empty (Except RunError (Option (BitVec 64)) × Kernel I ω) := do
  let (handle, k) ← k.spawn E junk bytes
  match handle with
  | .error e => .ok (.error e, k)
  | .ok handle =>
    let x ← k.startTask E handle entry args
    let (result, k) ← drain E handle fuel x
    .ok (result, k.destroy handle)

def takePendingSleepMs (k : Kernel I ω) : Nat × Kernel I ω :=
  (k.sys.pendingSleepMs, { k with sys := { k.sys with pendingSleepMs := 0 } })

/-! ## The queue -/

def taskSpawn (k : Kernel I ω) (junk : Nat → UInt8) (bytes : List UInt8) (args : List (BitVec 32)) :
    Rust Empty (Except RunError Nat × Kernel I ω) :=
  match k.freeTask with
  | none => .ok (.error .poolFull, k)
  | some slot => do
    let (inst, k) ← k.spawn E junk bytes
    match inst with
    | .error e => .ok (.error e, k)
    | .ok inst => .ok (.ok slot, k.setTask slot (some ⟨.ready, inst, args.take MAX_TASK_ARGS⟩))

def taskKill (k : Kernel I ω) (id : Nat) : Kernel I ω :=
  if MAX_TASKS ≤ id then k else
  match k.taskQueue id with
  | none => k
  | some t => (k.setTask id none).destroy t.inst

/-- `b"main"` -/
def MAIN : List UInt8 := [0x6D, 0x61, 0x69, 0x6E]

/-- The end of `task_step`, after task `id` ran. -/
def settleTask (k : Kernel I ω) (id : Nat) (t : Task) (later : Nat) : Except RunError TaskResult → Kernel I ω
  | .ok (.completed _) => (k.destroy t.inst).setTask id none
  | .ok .yielded =>
    let (sleepMs, k) := k.takePendingSleepMs
    -- 100 ticks a second
    k.setTask id (some
      { t with state := if 0 < sleepMs then .sleeping (later + (sleepMs + 9) / 10) else .suspended })
  | .error _ => (k.destroy t.inst).setTask id none

/-- `task_step` of a task that is not asleep; `later` is the tick when its run is over. -/
def stepAwake (k : Kernel I ω) (id : Nat) (t : Task) (later : Nat) :
    Rust Empty (Option (Except RunError TaskResult) × Kernel I ω) := do
  let running : Task := { t with state := .running }
  match t.state with
  | .ready =>
    let (result, k) ← (k.setTask id (some running)).startTask E t.inst MAIN t.wasmArgs
    .ok (some result, k.settleTask id running later result)
  | .suspended =>
    let (result, k) ← (k.setTask id (some running)).resumeTask E t.inst
    .ok (some result, k.settleTask id running later result)
  | _ => .ok (none, k)

def taskStep (k : Kernel I ω) (id now later : Nat) :
    Rust Empty (Option (Except RunError TaskResult) × Kernel I ω) :=
  if MAX_TASKS ≤ id then .ok (none, k) else
  match k.taskQueue id with
  | none => .ok (none, k)
  | some t =>
    match t.state with
    | .sleeping wake =>
      if wake ≤ now then
        let t := { t with state := .suspended }
        (k.setTask id (some t)).stepAwake E id t later
      else .ok (none, k)
    | _ => k.stepAwake E id t later

def isTaskRunnable (k : Kernel I ω) (id now : Nat) : Bool :=
  if MAX_TASKS ≤ id then false else
  match (k.taskQueue id).map Task.state with
  | some .ready | some .suspended => true
  | some (.sleeping wake) => wake ≤ now
  | _ => false

end

/-- One operation on the tasks, or the rest of the kernel at work. -/
inductive Op (ω : Type) where
  | taskSpawn (junk : Nat → UInt8) (bytes : List UInt8) (args : List (BitVec 32))
  | taskKill (id : Nat)
  | taskStep (id now later : Nat)
  | run (junk : Nat → UInt8) (bytes entry : List UInt8) (args : List (BitVec 32)) (fuel : Nat)
  | other (world : ω)

def step {I ω : Type} (E : Exec I ω) (k : Kernel I ω) : Op ω → Rust Empty (Kernel I ω)
  | .taskSpawn junk bytes args => do
    let (_, k) ← k.taskSpawn E junk bytes args
    .ok k
  | .taskKill id => .ok (k.taskKill id)
  | .taskStep id now later => do
    let (_, k) ← k.taskStep E id now later
    .ok k
  | .run junk bytes entry args fuel => do
    let (_, k) ← k.run E junk bytes entry args fuel
    .ok k
  | .other world => .ok { k with sys := { k.sys with rest := world } }

end Kernel

end WasmOs
