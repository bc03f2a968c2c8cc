import WasmOs.Fault

/-!
# The line editor of the shell

`CommandLineEditor` with the decoders that feed it. Positions are byte positions in a `String`; here the
text is its characters, and a position that falls inside one makes `insert` and `remove` panic. Positions
are bounded by the buffer, whose length no `usize` addition exceeds.
-/

namespace WasmOs.Shell

/-! ## Text -/

abbrev Text := List Char

/-- `s.len()` -/
def byteLen (s : Text) : Nat := (s.map Char.utf8Size).sum

/-- The two parts at a byte position, if it is a character boundary. -/
def splitBytes : Text → Nat → Option (Text × Text)
  | s, 0 => some ([], s)
  | [], _ + 1 => none
  | c :: s, n + 1 =>
    if c.utf8Size ≤ n + 1 then (splitBytes s (n + 1 - c.utf8Size)).map fun p => (c :: p.1, p.2) else none

/-- `s.insert(idx, c)` -/
def strInsert (s : Text) (idx : Nat) (c : Char) : Rust Unit Text :=
  match splitBytes s idx with
  | some (pre, post) => .ok (pre ++ c :: post)
  | none => .error .panic

/-- `s.remove(idx)` -/
def strRemove (s : Text) (idx : Nat) : Rust Unit Text :=
  match splitBytes s idx with
  | some (pre, _ :: post) => .ok (pre ++ post)
  | _ => .error .panic

/-! ## Keys -/

inductive Key where
  | char (c : Char)
  | backspace | enter | arrowLeft | arrowRight | arrowUp | arrowDown | delete | home | «end» | tab | unknown
  deriving DecidableEq, Repr

def serialByteToKey (b : UInt8) : Key :=
  if b = 0x08 ∨ b = 0x7F then .backspace
  else if b = 0x0D ∨ b = 0x0A then .enter
  else if 0x20 ≤ b ∧ b ≤ 0x7E then .char (Char.ofNat b.toNat)
  else .unknown

def scancodes : List (UInt8 × Char × Char) :=
  [(0x02, '1', '!'), (0x03, '2', '@'), (0x04, '3', '#'), (0x05, '4', '$'), (0x06, '5', '%'), (0x07, '6', '^'),
   (0x08, '7', '&'), (0x09, '8', '*'), (0x0A, '9', '('), (0x0B, '0', ')'), (0x0C, '-', '_'), (0x0D, '=', '+'),
   (0x10, 'q', 'Q'), (0x11, 'w', 'W'), (0x12, 'e', 'E'), (0x13, 'r', 'R'), (0x14, 't', 'T'), (0x15, 'y', 'Y'),
   (0x16, 'u', 'U'), (0x17, 'i', 'I'), (0x18, 'o', 'O'), (0x19, 'p', 'P'), (0x1A, '[', '{'), (0x1B, ']', '}'),
   (0x1E, 'a', 'A'), (0x1F, 's', 'S'), (0x20, 'd', 'D'), (0x21, 'f', 'F'), (0x22, 'g', 'G'), (0x23, 'h', 'H'),
   (0x24, 'j', 'J'), (0x25, 'k', 'K'), (0x26, 'l', 'L'), (0x27, ';', ':'), (0x28, '\x27', '\x22'),
   (0x29, '\x60', '~'),
   (0x2B, '\x5C', '|'), (0x2C, 'z', 'Z'), (0x2D, 'x', 'X'), (0x2E, 'c', 'C'), (0x2F, 'v', 'V'), (0x30, 'b', 'B'),
   (0x31, 'n', 'N'), (0x32, 'm', 'M'), (0x33, ',', '<'), (0x34, '.', '>'), (0x35, '/', '?'), (0x39, ' ', ' ')]

def scancodeToChar (sc : UInt8) (shift : Bool) : Option Char :=
  (scancodes.lookup sc).map fun p => if shift then p.2 else p.1

/-- `try_next_key` on a scancode, with the state of the shift keys before and after. -/
def tryNextKey (shift : Bool) (sc : UInt8) : Option Key × Bool :=
  if sc = 0x2A ∨ sc = 0x36 then (none, true)
  else if sc = 0xAA ∨ sc = 0xB6 then (none, false)
  else if sc &&& 0x80 ≠ 0 then (none, shift)
  else
    (some (if sc = 0x0E then .backspace
      else if sc = 0x1C then .enter
      else if sc = 0x4B then .arrowLeft
      else if sc = 0x4D then .arrowRight
      else if sc = 0x48 then .arrowUp
      else if sc = 0x50 then .arrowDown
      else if sc = 0x53 then .delete
      else if sc = 0x47 then .home
      else if sc = 0x4F then .end
      else if sc = 0x0F then .tab
      else match scancodeToChar sc shift with
        | some c => .char c
        | none => .unknown), shift)

/-! ## The editor -/

/-- `screen` is the line `render` drew last, with its cursor. -/
structure CommandLineEditor where
  buffer : Text
  cursorPos : Nat
  history : List Text
  historyIndex : Nat
  needsRender : Bool
  screen : Option (Text × Nat)

/-- The commands of `define_commands!`. -/
def builtins : List Text :=
  ["help", "echo", "history", "clear", "ls", "rm", "save", "write", "edit", "asm", "cat", "cd", "mkdir", "df",
    "info", "run",
    "ps", "task-run", "task-kill", "tasks"].map String.toList

/-- The commands and the stems of the registered `.wasm` files. -/
def commandNames (files : List Text) : List Text :=
  builtins ++ (files.filter fun name => ".wasm".toList.isSuffixOf name).map fun name => name.take (name.length - 5)

namespace CommandLineEditor

def new : CommandLineEditor := ⟨[], 0, [], 0, true, none⟩

def render (e : CommandLineEditor) : CommandLineEditor :=
  if e.needsRender then { e with needsRender := false, screen := some (e.buffer, e.cursorPos) } else e

def insertChar (e : CommandLineEditor) (c : Char) : Rust Unit CommandLineEditor := do
  let buffer ← if e.cursorPos < byteLen e.buffer then strInsert e.buffer e.cursorPos c else .ok (e.buffer ++ [c])
  .ok { e with buffer := buffer, cursorPos := e.cursorPos + 1, needsRender := true }

def moveLeft (e : CommandLineEditor) : CommandLineEditor :=
  if 0 < e.cursorPos then { e with cursorPos := e.cursorPos - 1, needsRender := true } else e

def moveRight (e : CommandLineEditor) : CommandLineEditor :=
  if e.cursorPos < byteLen e.buffer then { e with cursorPos := e.cursorPos + 1, needsRender := true } else e

def deleteLeft (e : CommandLineEditor) : Rust Unit CommandLineEditor :=
  if 0 < e.cursorPos then do
    let buffer ← strRemove e.buffer (e.cursorPos - 1)
    .ok { e with buffer := buffer, cursorPos := e.cursorPos - 1, needsRender := true }
  else .ok e

def deleteRight (e : CommandLineEditor) : Rust Unit CommandLineEditor :=
  if e.cursorPos < byteLen e.buffer then do
    let buffer ← strRemove e.buffer e.cursorPos
    .ok { e with buffer := buffer, needsRender := true }
  else .ok e

def moveHome (e : CommandLineEditor) : CommandLineEditor :=
  if e.cursorPos ≠ 0 then { e with cursorPos := 0, needsRender := true } else e

def moveEnd (e : CommandLineEditor) : CommandLineEditor :=
  if e.cursorPos ≠ byteLen e.buffer then { e with cursorPos := byteLen e.buffer, needsRender := true } else e

/-- Another line takes the place of the buffer, with the cursor behind it. -/
def setBuffer (e : CommandLineEditor) (line : Text) : CommandLineEditor :=
  { e with buffer := line, cursorPos := byteLen line, needsRender := true }

def navigateHistoryUp (e : CommandLineEditor) : Rust Unit CommandLineEditor :=
  if e.history ≠ [] ∧ 0 < e.historyIndex then do
    let line ← index e.history (e.historyIndex - 1)
    .ok ({ e with historyIndex := e.historyIndex - 1 }.setBuffer line)
  else .ok e

def navigateHistoryDown (e : CommandLineEditor) : Rust Unit CommandLineEditor :=
  if e.historyIndex < e.history.length then
    if e.historyIndex + 1 < e.history.length then do
      let line ← index e.history (e.historyIndex + 1)
      .ok ({ e with historyIndex := e.historyIndex + 1 }.setBuffer line)
    else .ok ({ e with historyIndex := e.historyIndex + 1 }.setBuffer [])
  else .ok e

/-- More than one match is listed, one is taken, and with none nothing is drawn. -/
def autoComplete (e : CommandLineEditor) (files : List Text) : CommandLineEditor :=
  match (commandNames files).filter fun command => e.buffer.isPrefixOf command with
  | [] => e
  | [completion] => (e.setBuffer completion).render
  | _ => { e with needsRender := true }.render

def handleKey (e : CommandLineEditor) (files : List Text) : Key → Rust Unit CommandLineEditor
  | .char c => e.insertChar c
  | .arrowLeft => .ok e.moveLeft
  | .arrowRight => .ok e.moveRight
  | .backspace => e.deleteLeft
  | .delete => e.deleteRight
  | .home => .ok e.moveHome
  | .end => .ok e.moveEnd
  | .arrowUp => e.navigateHistoryUp
  | .arrowDown => e.navigateHistoryDown
  | .tab => .ok (e.autoComplete files)
  | .enter => .ok e
  | .unknown => .ok e

/-- `get_input` once a key is there. -/
def getInput (e : CommandLineEditor) (files : List Text) (key : Key) :
    Rust Unit (CommandLineEditor × Option Text) :=
  if key = .enter then
    if e.buffer ≠ [] then
      let history := e.history ++ [e.buffer]
      .ok ({ e with history := history, historyIndex := history.length, buffer := [], cursorPos := 0,
                    needsRender := true }, some e.buffer)
    else .ok (e, none)
  else do
    let e ← e.handleKey files key
    .ok (e, none)

end CommandLineEditor

/-! ## The shell -/

/-- `answers` are the lines `get_input` returned, each with the line on the screen at that moment. -/
structure ShellState where
  editor : CommandLineEditor
  shift : Bool
  answers : List (Text × Option Text)

/-- What the scheduler does with the shell. A round finds a byte at the serial port, a scancode at the
keyboard or neither; `files` are the registered names at that time. -/
inductive ShellEvent where
  | serial (b : UInt8) (files : List Text)
  | keyboard (sc : UInt8) (files : List Text)
  | idle
  | requestRender
  deriving DecidableEq, Repr

namespace ShellState

def new : ShellState := ⟨.new, false, []⟩

def decode (st : ShellState) : ShellEvent → Option (Key × List Text) × Bool
  | .serial b files => (some (serialByteToKey b, files), st.shift)
  | .keyboard sc files => ((tryNextKey st.shift sc).1.map fun key => (key, files), (tryNextKey st.shift sc).2)
  | .idle | .requestRender => (none, st.shift)

/-- `poll_once` with a key: the command runs when a line is returned, and the prompt is drawn again. -/
def pollKey (st : ShellState) (files : List Text) (key : Key) : Rust Unit ShellState := do
  match ← st.editor.getInput files key with
  | (e, some line) =>
    .ok { st with
      editor := { e with needsRender := true }.render
      answers := st.answers ++ [(line, st.editor.screen.map Prod.fst)] }
  | (e, none) => .ok { st with editor := e.render }

def step (st : ShellState) (ev : ShellEvent) : Rust Unit ShellState :=
  match st.decode ev with
  | (some (key, files), shift) => { st with shift := shift }.pollKey files key
  | (none, shift) =>
    .ok { st with
      shift := shift
      editor := if ev = .requestRender then { st.editor with needsRender := true } else st.editor.render }

end ShellState

end WasmOs.Shell
