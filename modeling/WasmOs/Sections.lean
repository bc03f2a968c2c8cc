import WasmOs.Loader
import WasmOs.Bytes

/-!
# Section parsers of the interpreter

`Interpreter::new` reads the type, function, code, global, import and element sections with one
cursor parser each. A parser keeps a cursor and the entries read so far; a fixed table of the
interpreter is the list of its entries, followed by its default.
-/

namespace WasmOs

/-! ## Capacity limits -/

def MAX_FUNCS : Nat := 512
def MAX_TYPES : Nat := 128
def MAX_LOCALS : Nat := 64
def MAX_GLOBALS : Nat := 64
def MAX_TABLE : Nat := 512
def MAX_CTRL_DEPTH : Nat := 128
def STACK_DEPTH : Nat := 256
def CALL_DEPTH : Nat := 128
def PAGE_SIZE : Nat := 65536

/-- Sentinel of an uninitialised table entry. -/
def NULL_FUNC : Nat := 2 ^ 32 - 1

inductive InterpError where
  | noCodeSection | malformedCode | tooManyFuncs | tooManyTypes | tooManyLocals | tooManyGlobals
  | ctrlStackOverflow | funcIndexOutOfRange | localIndexOutOfRange | globalIndexOutOfRange
  | globalImmutable | indirectCallNull | indirectCallTypeMismatch | importNotFound | unreachable
  | stackOverflow | stackUnderflow | callStackOverflow | memOutOfBounds | divisionByZero
  | invalidConversion | unknownOpcode (op : UInt8) | yielded | exited
  deriving DecidableEq, Repr

/-! ## Signed LEB-128 -/

def readI64Leb128.loop : List UInt8 → BitVec 64 → Nat → Nat → Option (BitVec 64 × Nat)
  | [], _, _, _ => none
  | byte :: bytes, result, shift, i =>
    if 70 ≤ shift then none else
    let result := result ||| (BitVec.ofNat 64 (byte &&& 0x7F).toNat <<< shift)
    let shift := shift + 7
    if byte &&& 0x80 = 0 then
      some (if shift < 64 ∧ byte &&& 0x40 ≠ 0 then result ||| (BitVec.allOnes 64 <<< shift) else result, i + 1)
    else readI64Leb128.loop bytes result shift (i + 1)

def readI64Leb128 (bytes : List UInt8) : Option (BitVec 64 × Nat) := readI64Leb128.loop bytes 0 0 0

def readI32Leb128.loop : List UInt8 → BitVec 32 → Nat → Nat → Option (BitVec 32 × Nat)
  | [], _, _, _ => none
  | byte :: bytes, result, shift, i =>
    if 35 ≤ shift then none else
    let result := result ||| (BitVec.ofNat 32 (byte &&& 0x7F).toNat <<< shift)
    let shift := shift + 7
    if byte &&& 0x80 = 0 then
      some (if shift < 32 ∧ byte &&& 0x40 ≠ 0 then result ||| (BitVec.allOnes 32 <<< shift) else result, i + 1)
    else readI32Leb128.loop bytes result shift (i + 1)

def readI32Leb128 (bytes : List UInt8) : Option (BitVec 32 × Nat) := readI32Leb128.loop bytes 0 0 0

/-- `v as usize` for an `i32`: sign extension to 64 bits. -/
def i32AsUsize (v : BitVec 32) : Nat := (v.signExtend 64).toNat

def readI32 {ε : Type} (bytes : List UInt8) (e : ε) (cur : Nat) : Rust ε (BitVec 32 × Nat) :=
  readAt readI32Leb128 bytes e cur

def readI64 {ε : Type} (bytes : List UInt8) (e : ε) (cur : Nat) : Rust ε (BitVec 64 × Nat) :=
  readAt readI64Leb128 bytes e cur

/-! ## Types and functions -/

/-- One type entry; what is kept of it are its numbers of parameters and results. -/
def parseTypeSection.step (bytes : List UInt8) : Nat × List (Nat × Nat) → Rust InterpError (Nat × List (Nat × Nat))
  | (cur, types) => do
    if bytes.length ≤ cur then .error (.err .malformedCode) else
    let cur ← uadd cur 1
    let (paramCount, cur) ← readU32 bytes .malformedCode cur
    let cur ← uadd cur paramCount
    let (resultCount, cur) ← readU32 bytes .malformedCode cur
    let cur ← uadd cur resultCount
    .ok (cur, types ++ [(paramCount, resultCount)])

def parseTypeSection (bytes : List UInt8) : Rust InterpError (List (Nat × Nat)) := do
  let (count, cur) ← readU32 bytes .malformedCode 0
  if MAX_TYPES < count then .error (.err .tooManyTypes) else
  let (_, types) ← iter (parseTypeSection.step bytes) count (cur, [])
  .ok types

def parseFunctionSection.step (bytes : List UInt8) : Nat × List Nat → Rust InterpError (Nat × List Nat)
  | (cur, out) => do
    let (typeIdx, cur) ← readU32 bytes .malformedCode cur
    .ok (cur, out ++ [typeIdx])

def parseFunctionSection (bytes : List UInt8) : Rust InterpError (List Nat) := do
  let (count, cur) ← readU32 bytes .malformedCode 0
  if MAX_FUNCS < count then .error (.err .tooManyFuncs) else
  let (_, out) ← iter (parseFunctionSection.step bytes) count (cur, [])
  .ok out

/-! ## Code -/

/-- One local group: the cursor `lc` and the number of locals declared so far. -/
def parseLocals.step (entry : List UInt8) : Nat × Nat → Rust InterpError (Nat × Nat)
  | (lc, total) => do
    let (groupCount, n) ← okOr (readU32Leb128 (← sliceFrom entry lc)) .malformedCode
    let skip ← uadd n 1
    let lc ← uadd lc skip
    let total ← uadd total groupCount
    .ok (lc, total)

/-- One code entry: its instruction bytes and its number of declared locals. -/
def parseCodeEntry (entry : List UInt8) : Rust InterpError (List UInt8 × Nat) := do
  let (localGroups, lc) ← readU32 entry .malformedCode 0
  let (lc, total) ← iter (parseLocals.step entry) localGroups (lc, 0)
  if entry.length < lc then .error (.err .malformedCode) else
  .ok (entry.drop lc, total)

def parseCodeSection.step (bytes : List UInt8) :
    Nat × List (List UInt8 × Nat) → Rust InterpError (Nat × List (List UInt8 × Nat))
  | (cur, bodies) => do
    let (bodySize, entryStart) ← readU32 bytes .malformedCode cur
    let entryEnd ← uadd entryStart bodySize
    if bytes.length < entryEnd then .error (.err .malformedCode) else
    let e ← parseCodeEntry ((bytes.drop entryStart).take bodySize)
    .ok (entryEnd, bodies ++ [e])

def parseCodeSection (bytes : List UInt8) : Rust InterpError (List (List UInt8 × Nat)) := do
  let (count, cur) ← readU32 bytes .malformedCode 0
  if MAX_FUNCS < count then .error (.err .tooManyFuncs) else
  let (_, bodies) ← iter (parseCodeSection.step bytes) count (cur, [])
  .ok bodies

/-! ## Imports -/

def parseImportFuncTypes.step (bytes : List UInt8) : Nat × List Nat → Rust InterpError (Nat × List Nat)
  | (cur, out) => do
    let (modLen, cur) ← readU32 bytes .malformedCode cur
    let cur ← uadd cur modLen
    let (nameLen, cur) ← readU32 bytes .malformedCode cur
    let cur ← uadd cur nameLen
    let kind ← okOr bytes[cur]? .malformedCode
    let cur ← uadd cur 1
    if kind = 0 then
      let (typeIdx, cur) ← readU32 bytes .malformedCode cur
      .ok (cur, out ++ [typeIdx])
    else
      let cur ← skipImportDesc bytes .malformedCode kind cur
      .ok (cur, out)

/-- Type indices of the function imports; the caller's table keeps the first `MAX_FUNCS` of them. -/
def parseImportFuncTypes (bytes : List UInt8) : Rust InterpError (List Nat) := do
  let (count, cur) ← readU32 bytes .malformedCode 0
  let (_, out) ← iter (parseImportFuncTypes.step bytes) count (cur, [])
  .ok out

/-! ## Elements -/

structure Table where
  entry : Nat → Nat
  size : Nat

def Table.blank : Table := ⟨fun _ => NULL_FUNC, 0⟩

def Table.put (t : Table) (ti funcIdx : Nat) : Table :=
  if ti < MAX_TABLE then ⟨upd t.entry ti funcIdx, max t.size (ti + 1)⟩ else t

/-- One element of a segment: the cursor, the number of elements before it and the table. -/
def parseElements.step {ε : Type} (bytes : List UInt8) (e : ε) (base : Nat) :
    Nat × Nat × Table → Rust ε (Nat × Nat × Table)
  | (cur, j, t) => do
    let (funcIdx, cur) ← readU32 bytes e cur
    let ti ← uadd base j
    .ok (cur, j + 1, t.put ti funcIdx)

/-- `i32.const offset end`, the only initialiser the segment parsers read. -/
def parseOffset {ε : Type} (bytes : List UInt8) (e : ε) (cur : Nat) : Rust ε (BitVec 32 × Nat) := do
  if bytes[cur]? ≠ some 0x41 then .error (.err e) else
  let cur ← uadd cur 1
  let (offset, cur) ← readI32 bytes e cur
  if bytes[cur]? ≠ some 0x0B then .error (.err e) else
  let cur ← uadd cur 1
  .ok (offset, cur)

def parseElementSection.step (bytes : List UInt8) :
    Nat × Table → Rust (InterpError ⊕ Nat × Table) (Nat × Table)
  | (cur, t) => do
    let (kind, cur) ← readU32 bytes (.inl .malformedCode) cur
    -- an unsupported segment kind ends the walk without an error
    if kind ≠ 0 then .error (.err (.inr (cur, t))) else
    let (offset, cur) ← parseOffset bytes (.inl .malformedCode) cur
    let (elemCount, cur) ← readU32 bytes (.inl .malformedCode) cur
    let (cur, _, t) ← iter (parseElements.step bytes (.inl .malformedCode) (i32AsUsize offset))
      elemCount (cur, 0, t)
    .ok (cur, t)

def parseElementSection (bytes : List UInt8) : Rust InterpError Table := do
  let (segCount, cur) ← readU32 bytes .malformedCode 0
  let (_, t) ← orReturn (iter (parseElementSection.step bytes) segCount (cur, .blank))
  .ok t

/-! ## Globals -/

/-- The initialiser of a global: `i32.const` or `i64.const`. -/
def parseInitExpr (bytes : List UInt8) (cur : Nat) : Rust InterpError (BitVec 64 × Nat) := do
  let initOp ← okOr bytes[cur]? .malformedCode
  let cur ← uadd cur 1
  if initOp = 0x41 then
    let (v, cur) ← readI32 bytes .malformedCode cur
    .ok (v.signExtend 64, cur)
  else if initOp = 0x42 then readI64 bytes .malformedCode cur
  else .error (.err .malformedCode)

def parseGlobalSection.step (bytes : List UInt8) :
    Nat × List (BitVec 64 × Bool) → Rust InterpError (Nat × List (BitVec 64 × Bool))
  | (cur, globals) => do
    let next ← uadd cur 2
    if bytes.length < next then .error (.err .malformedCode) else
    let cur ← uadd cur 1
    let mutability ← index bytes cur
    let cur ← uadd cur 1
    let (val, cur) ← parseInitExpr bytes cur
    if bytes[cur]? ≠ some 0x0B then .error (.err .malformedCode) else
    let cur ← uadd cur 1
    .ok (cur, globals ++ [(val, mutability == 0x01)])

def parseGlobalSection (bytes : List UInt8) : Rust InterpError (List (BitVec 64 × Bool)) := do
  let (count, cur) ← readU32 bytes .malformedCode 0
  if MAX_GLOBALS < count then .error (.err .tooManyGlobals) else
  let (_, globals) ← iter (parseGlobalSection.step bytes) count (cur, [])
  .ok globals

end WasmOs
