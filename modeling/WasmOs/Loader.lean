import WasmOs.Fault
import WasmOs.Leb

/-!
# The binary loader

`load` checks the header and splits a binary into section slices. The walkers over the sections read
LEB-128 counts from unvalidated bytes, so each of them is written with the slice and overflow checks
the compiled code performs.
-/

namespace WasmOs

def utf8 (s : String) : List UInt8 := s.toUTF8.data.toList

/-- `core::str::from_utf8(bytes).is_ok()` -/
def validUtf8 : List UInt8 → Bool
  | [] => true
  | b :: rest =>
    if b < 0x80 then validUtf8 rest else
    match rest with
    | [] => false
    | c :: rest =>
      if 0xC2 ≤ b ∧ b ≤ 0xDF then decide (0x80 ≤ c ∧ c ≤ 0xBF) && validUtf8 rest else
      match rest with
      | [] => false
      | d :: rest =>
        if 0xE0 ≤ b ∧ b ≤ 0xEF then
          decide ((if b = 0xE0 then 0xA0 else 0x80) ≤ c ∧ c ≤ (if b = 0xED then 0x9F else 0xBF)) &&
            decide (0x80 ≤ d ∧ d ≤ 0xBF) && validUtf8 rest
        else
        match rest with
        | [] => false
        | e :: rest =>
          if 0xF0 ≤ b ∧ b ≤ 0xF4 then
            decide ((if b = 0xF0 then 0x90 else 0x80) ≤ c ∧ c ≤ (if b = 0xF4 then 0x8F else 0xBF)) &&
              decide (0x80 ≤ d ∧ d ≤ 0xBF) && decide (0x80 ≤ e ∧ e ≤ 0xBF) && validUtf8 rest
          else false

/-! ## Unsigned LEB-128 -/

def readU32Leb128.loop : List UInt8 → BitVec 32 → Nat → Nat → Option (BitVec 32 × Nat)
  | [], _, _, _ => none
  | byte :: bytes, result, shift, i =>
    if 35 ≤ shift then none else
    let result := result ||| (BitVec.ofNat 32 (byte &&& 0x7F).toNat <<< shift)
    if byte &&& 0x80 = 0 then some (result, i + 1)
    else readU32Leb128.loop bytes result (shift + 7) (i + 1)

def readU32Leb128 (bytes : List UInt8) : Option (Nat × Nat) :=
  (readU32Leb128.loop bytes 0 0 0).map fun p => (p.1.toNat, p.2)

/-- `let (v, n) = read(&bytes[cur..]).ok_or(e)?; cur += n;` -/
def readAt {ε α : Type} (read : List UInt8 → Option (α × Nat)) (bytes : List UInt8) (e : ε) (cur : Nat) :
    Rust ε (α × Nat) := do
  let (v, n) ← okOr (read (← sliceFrom bytes cur)) e
  let cur ← uadd cur n
  .ok (v, cur)

def readU32 {ε : Type} (bytes : List UInt8) (e : ε) (cur : Nat) : Rust ε (Nat × Nat) :=
  readAt readU32Leb128 bytes e cur

/-! ## Sections -/

inductive LoadError where
  | tooShort | badMagic | badVersion | invalidLeb128 | unexpectedEof
  deriving DecidableEq, Repr

structure Module where
  typeSection : Option (List UInt8) := none
  importSection : Option (List UInt8) := none
  functionSection : Option (List UInt8) := none
  tableSection : Option (List UInt8) := none
  memorySection : Option (List UInt8) := none
  globalSection : Option (List UInt8) := none
  exportSection : Option (List UInt8) := none
  elementSection : Option (List UInt8) := none
  codeSection : Option (List UInt8) := none
  dataSection : Option (List UInt8) := none
  deriving DecidableEq, Repr

def MAGIC : List UInt8 := [0x00, 0x61, 0x73, 0x6D]

def VERSION : List UInt8 := [0x01, 0x00, 0x00, 0x00]

/-- Record the payload of a known section; other ids are skipped. -/
def Module.record (m : Module) (sectionId : UInt8) (data : List UInt8) : Module :=
  match sectionId.toNat with
  | 1 => { m with typeSection := some data }
  | 2 => { m with importSection := some data }
  | 3 => { m with functionSection := some data }
  | 4 => { m with tableSection := some data }
  | 5 => { m with memorySection := some data }
  | 6 => { m with globalSection := some data }
  | 7 => { m with exportSection := some data }
  | 9 => { m with elementSection := some data }
  | 10 => { m with codeSection := some data }
  | 11 => { m with dataSection := some data }
  | _ => m

-- A round reads at least two bytes, so `bytes.length` rounds end past the last section.
def load.loop (bytes : List UInt8) : Nat → Nat → Module → Rust LoadError Module
  | 0, _, m => .ok m
  | fuel + 1, cursor, m =>
    if bytes.length ≤ cursor then .ok m else do
    let sectionId ← index bytes cursor
    let cursor ← uadd cursor 1
    let (size, cursor) ← readU32 bytes .invalidLeb128 cursor
    let stop ← uadd cursor size
    if bytes.length < stop then .error (.err .unexpectedEof) else
    load.loop bytes fuel stop (m.record sectionId ((bytes.drop cursor).take size))

def load (bytes : List UInt8) : Rust LoadError Module :=
  if bytes.length < 8 then .error (.err .tooShort)
  else if bytes.take 4 ≠ MAGIC then .error (.err .badMagic)
  else if (bytes.drop 4).take 4 ≠ VERSION then .error (.err .badVersion)
  else load.loop bytes bytes.length 8 {}

/-! ## Exports -/

def findExport.loop (bytes name : List UInt8) : Nat → Nat → Rust (Option Nat) (Option Nat)
  | 0, _ => .ok none
  | k + 1, cur => do
    let (nameLen, cur) ← readU32 bytes none cur
    let nameEnd ← uadd cur nameLen
    if bytes.length < nameEnd then .error (.err none) else
    let exportName := (bytes.drop cur).take nameLen
    if validUtf8 exportName = false then .error (.err none) else
    let kind ← okOr bytes[nameEnd]? none
    let cur ← uadd nameEnd 1
    let (idx, cur) ← readU32 bytes none cur
    if kind = 0 ∧ exportName = name then .ok (some idx) else
    findExport.loop bytes name k cur

def findExport {ε : Type} (m : Module) (name : List UInt8) : Rust ε (Option Nat) :=
  match m.exportSection with
  | none => .ok none
  | some bytes => orReturn <| mapErr .inr do
    let (count, cur) ← readU32 bytes none 0
    findExport.loop bytes name count cur

/-! ## Imports -/

/-- The limits of a table or memory import: a flag, a minimum and, if the flag is set, a maximum. -/
def skipLimits {ε : Type} (bytes : List UInt8) (e : ε) (cur : Nat) : Rust ε Nat := do
  let flag ← okOr bytes[cur]? e
  let cur ← uadd cur 1
  let (_, cur) ← readU32 bytes e cur
  if flag = 0 then .ok cur else
  let (_, cur) ← readU32 bytes e cur
  .ok cur

/-- The import description of a table, a memory or a global after its kind byte. -/
def skipImportDesc {ε : Type} (bytes : List UInt8) (e : ε) (kind : UInt8) (cur : Nat) : Rust ε Nat := do
  if kind = 1 then
    let cur ← uadd cur 1
    skipLimits bytes e cur
  else if kind = 2 then skipLimits bytes e cur
  else if kind = 3 then uadd cur 2
  else .error (.err e)

abbrev ImportNames := List (List UInt8 × List UInt8)

def forEachFuncImport.step {ε : Type} (bytes : List UInt8) :
    Nat × ImportNames → Rust (ε ⊕ Nat × ImportNames) (Nat × ImportNames)
  | (cur, acc) => do
    let stop : ε ⊕ Nat × ImportNames := .inr (cur, acc)
    let (ml, cur) ← readU32 bytes stop cur
    let modEnd ← uadd cur ml
    if bytes.length < modEnd then .error (.err stop) else
    let modName := (bytes.drop cur).take ml
    if validUtf8 modName = false then .error (.err stop) else
    let (nl, cur) ← readU32 bytes stop modEnd
    let nameEnd ← uadd cur nl
    if bytes.length < nameEnd then .error (.err stop) else
    let funcName := (bytes.drop cur).take nl
    if validUtf8 funcName = false then .error (.err stop) else
    let kind ← okOr bytes[nameEnd]? stop
    let cur ← uadd nameEnd 1
    if kind = 0 then
      let (_, cur) ← readU32 bytes stop cur
      .ok (cur, acc ++ [(modName, funcName)])
    else
      let cur ← skipImportDesc bytes stop kind cur
      .ok (cur, acc)

/-- The names `for_each_func_import` passes to its callback, in order. -/
def forEachFuncImport {ε : Type} (bytes : List UInt8) : Rust ε ImportNames := do
  let (_, names) ← orReturn do
    let (count, cur) ← readU32 bytes (.inr (0, [])) 0
    iter (forEachFuncImport.step bytes) count (cur, [])
  .ok names

/-! ## Memory -/

def readMemoryMinPages {ε : Type} (bytes : List UInt8) : Rust ε Nat :=
  orReturn do
    let (count, cur) ← readU32 bytes (.inr 0) 0
    if count = 0 then .ok 0 else
    if bytes.length ≤ cur then .error (.err (.inr 0)) else
    let cur ← uadd cur 1
    let (min, _) ← readU32 bytes (.inr 0) cur
    .ok min

end WasmOs
