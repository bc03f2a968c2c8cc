import WasmOs.Isolation

/-!
# Arguments of programs

`ARGS_BUF` of `engine.rs`, which `task-run` and `run` fill when they launch a program and `args_get`
reads when the program asks. There is one buffer for all programs.
-/

namespace WasmOs

def ARGS_CAP : Nat := 128

/-- `ARGS_BUF` and `ARGS_LEN` -/
structure ArgsBuf where
  buf : Nat → UInt8
  len : Nat

namespace ArgsBuf

def empty : ArgsBuf := ⟨fun _ => 0, 0⟩

def setArgs (a : ArgsBuf) (args : List UInt8) : ArgsBuf :=
  let len := min args.length ARGS_CAP
  ⟨blit a.buf 0 (args.take len), len⟩

/-- `&ARGS_BUF[..ARGS_LEN]` -/
def text (a : ArgsBuf) : List UInt8 := slice a.buf 0 a.len

end ArgsBuf

/-- The kernel with the buffer; `calls` keeps what each `args_get` has read from it. -/
structure WithArgs (ω : Type) where
  args : ArgsBuf
  calls : List (List UInt8)
  rest : ω

section
variable {ω : Type}

/-! ## The host functions -/

def ArgsBuf.hostArgsGet : HostFn (Sys (WithArgs ω)) := fun memLen => do
  let v ← get
  if v.vsp < 2 then throw (.err .stackUnderflow) else
  if STACK_DEPTH < v.vsp then throw .panic else
  let cap := (v.vstack (v.vsp - 1)).toNat
  let ptr := (v.vstack (v.vsp - 2)).toNat
  let text := v.world.rest.args.text
  let world := { v.world with rest := { v.world.rest with calls := text :: v.world.rest.calls } }
  if memLen < satAdd ptr text.length ∨ cap < text.length then
    set { v with vstack := upd v.vstack (v.vsp - 2) (-1), vsp := v.vsp - 1, world := world }
  else
    set { v with
      vstack := upd v.vstack (v.vsp - 2) (BitVec.ofNat 64 text.length), vsp := v.vsp - 1
      mem := blit v.mem ptr text, world := world }

/-- A host function other than `args_get`, none of which knows of the buffer. -/
def HostFn.beside (h : HostFn (Sys ω)) : HostFn (Sys (WithArgs ω)) := fun memLen v =>
  let put (u : HostView (Sys ω)) : HostView (Sys (WithArgs ω)) :=
    ⟨u.vstack, u.vsp, u.mem, ⟨u.world.pendingSleepMs, { v.world.rest with rest := u.world.rest }⟩⟩
  match h memLen ⟨v.vstack, v.vsp, v.mem, ⟨v.world.pendingSleepMs, v.world.rest.rest⟩⟩ with
  | .ok a u => .ok a (put u)
  | .error e u => .error e (put u)

/-- `"env"` and `"args_get"` -/
def ARGS_GET_IMPORT : List UInt8 × List UInt8 :=
  ([0x65, 0x6E, 0x76], [0x61, 0x72, 0x67, 0x73, 0x5F, 0x67, 0x65, 0x74])

/-- The host registry: `env.args_get` and any other functions. -/
def argsRegistry (others : List UInt8 → List UInt8 → Option (HostFn (Sys ω))) (mod name : List UInt8) :
    Option (HostFn (Sys (WithArgs ω))) :=
  if (mod, name) = ARGS_GET_IMPORT then some ArgsBuf.hostArgsGet else (others mod name).map HostFn.beside

/-! ## Command lines -/

/-- The loop that joins the arguments with spaces, in a buffer of `ARGS_CAP` bytes. -/
def joinLoop : List UInt8 → Bool → List (List UInt8) → List UInt8
  | raw, _, [] => raw
  | raw, first, s :: args =>
    let raw := if !first ∧ raw.length < ARGS_CAP then raw ++ [0x20] else raw
    joinLoop (raw ++ s.take (ARGS_CAP - raw.length)) false args

def joinArgs (args : List (List UInt8)) : List UInt8 := joinLoop [] true args

/-- `val.checked_mul(10)?.checked_add(digit)?`, digit by digit. -/
def parseDigits : Nat → List UInt8 → Option Nat
  | val, [] => some val
  | val, b :: bytes =>
    if b < 0x30 ∨ 0x39 < b then none
    else
      let val := 10 * val + (b - 0x30).toNat
      if 2 ^ 31 ≤ val then none else parseDigits val bytes

def parseI32 (bytes : List UInt8) : Option (BitVec 32) :=
  match bytes with
  | [] => none
  | b :: rest =>
    if b = 0x2D then
      if rest = [] then none else (parseDigits 0 rest).map fun val => -BitVec.ofNat 32 val
    else (parseDigits 0 (b :: rest)).map (BitVec.ofNat 32)

/-- The values for `main`: of at most eight arguments, all of them numbers. -/
def parseArgs (args : List (List UInt8)) : Option (List (BitVec 32)) := (args.take MAX_TASK_ARGS).mapM parseI32

/-! ## Launching a program -/

abbrev ArgsKernel (ω : Type) := Kernel (Live (WithArgs ω)) (WithArgs ω)

namespace Kernel

def onArgs (k : ArgsKernel ω) (f : WithArgs ω → WithArgs ω) : ArgsKernel ω :=
  { k with sys := { k.sys with rest := f k.sys.rest } }

/-- `set_args`, if what was joined is a string. -/
def setArgs (k : ArgsKernel ω) (raw : List UInt8) : ArgsKernel ω :=
  if validUtf8 raw then k.onArgs fun w => { w with args := w.args.setArgs raw } else k

variable (E : Exec (Live (WithArgs ω)) (WithArgs ω)) (findFile : ω → List UInt8 → Option (List UInt8))

/-- `task_run_with`, and the task it has spawned. -/
def taskRunWith (k : ArgsKernel ω) (junk : Nat → UInt8) (name : List UInt8) (args : List (List UInt8)) :
    Rust Empty (Option Nat × ArgsKernel ω) :=
  let k := k.setArgs (joinArgs args)
  match parseArgs args with
  | none => .ok (none, k)
  | some wasmArgs =>
    match findFile k.sys.rest.rest name with
    | none => .ok (none, k)
    | some data => do
      let (id, k) ← k.taskSpawn E junk data wasmArgs
      .ok (id.toOption, k)

/-- The shell's `run`. -/
def runWith (k : ArgsKernel ω) (junk : Nat → UInt8) (name : List UInt8) (args : List (List UInt8)) (fuel : Nat) :
    Rust Empty (ArgsKernel ω) :=
  match findFile k.sys.rest.rest name with
  | none => .ok k
  | some data =>
    match parseArgs args with
    | none => .ok k
    | some wasmArgs => do
      let (_, k) ← (k.setArgs (joinArgs args)).run E junk data MAIN wasmArgs fuel
      .ok k

end Kernel

/-! ## A session -/

inductive Cmd (ω : Type) where
  | taskRun (junk : Nat → UInt8) (name : List UInt8) (args : List (List UInt8))
  | run (junk : Nat → UInt8) (name : List UInt8) (args : List (List UInt8)) (fuel : Nat)
  | taskStep (id now later : Nat)
  | taskKill (id : Nat)
  /-- the rest of the kernel at work -/
  | other (world : ω)

/-- The kernel; the argument string each task was launched with; and for each `args_get` in a task the
string of that task and the string it has read. -/
structure Session (ω : Type) where
  kernel : ArgsKernel ω
  launched : Nat → List UInt8
  answers : List (List UInt8 × List UInt8)

def Session.boot (mem : Nat → Nat → UInt8) (world : ω) : Session ω :=
  ⟨.boot mem ⟨.empty, [], world⟩, fun _ => [], []⟩

def Session.step (E : Exec (Live (WithArgs ω)) (WithArgs ω)) (findFile : ω → List UInt8 → Option (List UInt8))
    (s : Session ω) (cmd : Cmd ω) : Rust Empty (Session ω) :=
  let k := s.kernel.onArgs fun w => { w with calls := [] }
  match cmd with
  | .taskRun junk name args => do
    let (id, k) ← k.taskRunWith E findFile junk name args
    match id with
    | none => .ok { s with kernel := k }
    | some id => .ok { s with kernel := k, launched := upd s.launched id (joinArgs args) }
  | .run junk name args fuel => do
    let k ← k.runWith E findFile junk name args fuel
    .ok { s with kernel := k }
  | .taskStep id now later => do
    let (_, k) ← k.taskStep E id now later
    .ok { s with kernel := k, answers := k.sys.rest.calls.map (fun text => (s.launched id, text)) ++ s.answers }
  | .taskKill id => .ok { s with kernel := k.taskKill id }
  | .other world => .ok { s with kernel := k.onArgs fun w => { w with rest := world } }

end

end WasmOs
