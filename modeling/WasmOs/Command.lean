import WasmOs.Args
import WasmOs.FileTable
import WasmOs.LineEditor
import WasmOs.ShellTokenizer
import WasmOs.Wire

/-!
# Running a command line

`run_command` copies a line into the history and its first word into a buffer for the name of a module;
`task_run_with` copies the other words into buffers for the arguments. Every copy and index is checked.
-/

namespace WasmOs.Shell

def MAX_LINE : Nat := 128

def HISTORY_LEN : Nat := 16

/-! ## History -/

structure HistoryBuf where
  lines : List (List UInt8)
  lens : List Nat
  head : Nat
  len : Nat

namespace HistoryBuf

def new : HistoryBuf := ⟨List.replicate HISTORY_LEN (List.replicate MAX_LINE 0), List.replicate HISTORY_LEN 0, 0, 0⟩

def push {ε : Type} (h : HistoryBuf) (bytes : List UInt8) : Rust ε HistoryBuf := do
  let copyLen := min bytes.length MAX_LINE
  let slot ← index h.lines h.head
  let src ← sliceRange bytes 0 copyLen
  let slot ← copyInto slot 0 copyLen src
  let lines ← setAt h.lines h.head slot
  let lens ← setAt h.lens h.head copyLen
  .ok ⟨lines, lens, (h.head + 1) % HISTORY_LEN, if h.len < HISTORY_LEN then h.len + 1 else h.len⟩

def get {ε : Type} (h : HistoryBuf) (i : Nat) : Rust ε (List UInt8) := do
  let start := if h.len < HISTORY_LEN then 0 else h.head
  let sum ← uadd start i
  let idx := sum % HISTORY_LEN
  let len ← index h.lens idx
  let slot ← index h.lines idx
  let bytes ← sliceRange slot 0 len
  .ok (if validUtf8 bytes then bytes else [])

inductive Reachable : HistoryBuf → Prop
  | new : Reachable new
  | push {h h' : HistoryBuf} (hr : Reachable h) (line : List UInt8) (hp : (h.push line : Rust Empty _) =
    .ok h') : Reachable h'

end HistoryBuf

def historyLen (h : HistoryBuf) : Nat := h.len

def historyGet {ε : Type} (h : HistoryBuf) (i : Nat) : Rust ε (List UInt8) := h.get i

/-! ## Arguments -/

/-- A space before every argument but the first, where the buffer has room. -/
def joinRaw.space {ε : Type} (first : Bool) (rawBuf : List UInt8) (rawLen : Nat) : Rust ε (List UInt8 × Nat) :=
  if !first ∧ rawLen < rawBuf.length then do
    let rawBuf ← setAt rawBuf rawLen 0x20
    .ok (rawBuf, rawLen + 1)
  else .ok (rawBuf, rawLen)

/-- The loop that joins the arguments; `rawLen` bytes of the buffer are in use. -/
def joinRaw.loop {ε : Type} : List (List UInt8) → Bool → List UInt8 → Nat → Rust ε (List UInt8 × Nat)
  | [], _, rawBuf, rawLen => .ok (rawBuf, rawLen)
  | s :: args, first, rawBuf, rawLen => do
    let (rawBuf, rawLen) ← joinRaw.space first rawBuf rawLen
    let room ← usub rawBuf.length rawLen
    let copy := min s.length room
    let src ← sliceRange s 0 copy
    let rawBuf ← copyInto rawBuf rawLen (rawLen + copy) src
    joinRaw.loop args false rawBuf (rawLen + copy)

/-- `raw_buf[..raw_len]` -/
def joinRaw {ε : Type} (args : List (List UInt8)) : Rust ε (List UInt8) := do
  let (rawBuf, rawLen) ← joinRaw.loop args true (List.replicate 128 0) 0
  sliceRange rawBuf 0 rawLen

/-- The values for `main`, or the first argument that is no number. -/
def wasmArgs.loop {ε : Type} :
    List (List UInt8) → List (BitVec 32) → Nat → Rust ε (List (BitVec 32) × Nat ⊕ List UInt8)
  | [], values, argc => .ok (.inl (values, argc))
  | s :: args, values, argc =>
    if 8 ≤ argc then .ok (.inl (values, argc))
    else match parseI32 s with
      | some n => do
        let values ← setAt values argc n
        wasmArgs.loop args values (argc + 1)
      | none => .ok (.inr s)

/-- What `task_run_with` comes to. -/
inductive TaskRun where
  | invalidArg (s : List UInt8)
  | notFound (name : List UInt8)
  | spawn (name data : List UInt8) (args : List (BitVec 32))

/-- The string handed to `set_args`, if there is one, and what follows. -/
def taskRunWith {ε : Type} (files : Fs.FileTable) (name : List UInt8) (args : List (List UInt8)) :
    Rust ε (Option (List UInt8) × TaskRun) := do
  let raw ← joinRaw args
  let set := if validUtf8 raw then some raw else none
  let parsed ← wasmArgs.loop args (List.replicate 8 0) 0
  match parsed with
  | .inr s => .ok (set, .invalidArg s)
  | .inl (values, argc) =>
    match files.findFile name with
    | none => .ok (set, .notFound name)
    | some data => do
      let values ← sliceRange values 0 argc
      .ok (set, .spawn name data values)

/-! ## Commands -/

inductive Outcome where
  | ignored | tooManyArgs | noCommand | usage
  | builtin (name : List UInt8) (args : List (List UInt8))
  | task (set : Option (List UInt8)) (run : TaskRun)
  | unknown (name : List UInt8)

def builtinNames : List (List UInt8) := builtins.map fun name => utf8 (String.ofList name)

/-- `"<name>.wasm"` in a buffer of `MAX_LINE + 5` bytes. -/
def wasmName {ε : Type} (name : List UInt8) : Rust ε (List UInt8) := do
  let wasmBuf ← copyInto (List.replicate (MAX_LINE + 5) 0) 0 name.length name
  let wasmBuf ← copyInto wasmBuf name.length (name.length + 5) (utf8 ".wasm")
  let bytes ← sliceRange wasmBuf 0 (name.length + 5)
  .ok (if validUtf8 bytes then bytes else [])

/-- The command `task-run` is told apart from the other ones because it runs a task. -/
def dispatch {ε : Type} (files : Fs.FileTable) (name : List UInt8) (args : List (List UInt8)) : Rust ε Outcome :=
  if name ∈ builtinNames then
    if name = utf8 "task-run" then
      match args with
      | n :: args => if n ≠ [] then do
          let (set, run) ← taskRunWith files n args
          .ok (.task set run)
        else .ok .usage
      | [] => .ok .usage
    else .ok (.builtin name args)
  else do
    let wasm ← wasmName name
    if wasm ≠ [] ∧ (files.findFile wasm).isSome then do
      let (set, run) ← taskRunWith files wasm args
      .ok (.task set run)
    else .ok (.unknown name)

def runCommand (files : Fs.FileTable) (h : HistoryBuf) (line : List UInt8) : Rust Empty (Outcome × HistoryBuf) :=
  if line = [] ∨ line.head? = some 0x23 then .ok (.ignored, h)
  else do
    let h ← h.push line
    match tokenize line with
    | .error (.err .tooManyArgs) => .ok (.tooManyArgs, h)
    | .error .panic => .error .panic
    | .error .hang => .error .hang
    | .ok [] => .ok (.noCommand, h)
    | .ok (name :: args) => do
      let out ← dispatch files name args
      .ok (out, h)

end WasmOs.Shell
