import WasmOs.ScanTotal

/-!
# Instantiation

`engine::spawn` from the bytes of a module to an instance: the loader, the import walkers, the
section parsers, the jump pre-scan and the data segments, in the order the kernel runs them.
-/

namespace WasmOs

/-- Maximum number of WASM pages a module may request. -/
def MAX_MEM_PAGES : Nat := 32

inductive RunError where
  | load (e : LoadError)
  | interp (e : InterpError)
  | entryNotFound | memoryTooLarge | poolFull | importNotFound
  deriving DecidableEq, Repr

/-! ## Imports -/

def countFuncImports.step {ε : Type} (bytes : List UInt8) : Nat × Nat → Rust (ε ⊕ Nat × Nat) (Nat × Nat)
  | (cur, funcCount) => do
    let stop : ε ⊕ Nat × Nat := .inr (cur, funcCount)
    let (modLen, cur) ← readU32 bytes stop cur
    let cur ← uadd cur modLen
    if bytes.length < cur then .error (.err stop) else
    let (nameLen, cur) ← readU32 bytes stop cur
    let cur ← uadd cur nameLen
    let kind ← okOr bytes[cur]? stop
    let cur ← uadd cur 1
    if kind = 0 then
      let (_, cur) ← readU32 bytes stop cur
      let funcCount ← uadd funcCount 1
      .ok (cur, funcCount)
    else
      let cur ← skipImportDesc bytes stop kind cur
      .ok (cur, funcCount)

/-- The number of function imports; a malformed section counts up to the malformed entry. -/
def countFuncImports {ε : Type} (bytes : List UInt8) : Rust ε Nat := do
  let (_, funcCount) ← orReturn do
    let (count, cur) ← readU32 bytes (.inr (0, 0)) 0
    iter (countFuncImports.step bytes) count (cur, 0)
  .ok funcCount

/-! ## Data segments -/

/-- One data segment; only active ones are copied. -/
def initMemory.step (bytes : List UInt8) (memLen : Nat) : Nat × (Nat → UInt8) → Rust Unit (Nat × (Nat → UInt8))
  | (cur, mem) => do
    let (kind, cur) ← readU32 bytes () cur
    if kind ≠ 0 then .ok (cur, mem) else
    let (offset, cur) ← parseOffset bytes () cur
    let (dataLen, cur) ← readU32 bytes () cur
    let next ← uadd cur dataLen
    if bytes.length < next then .error (.err ()) else
    let dst := i32AsUsize offset
    let dstEnd := min (satAdd dst dataLen) memLen
    let copyLen ← usub dstEnd dst
    .ok (next, blit mem dst ((bytes.drop cur).take copyLen))

/-- `init_memory`, with `false` as the error. -/
def initMemory (bytes : List UInt8) (memLen : Nat) (mem : Nat → UInt8) : Rust Unit (Nat → UInt8) := do
  let (count, cur) ← readU32 bytes () 0
  let (_, mem) ← iter (initMemory.step bytes memLen) count (cur, mem)
  .ok mem

/-! ## The interpreter -/

/-- The tables of an interpreter that no instruction changes. -/
structure Code (H : Type) where
  bodies : List (List UInt8)
  localCounts : List Nat
  types : List (Nat × Nat)
  funcTypeIndices : List Nat
  importTypes : List Nat
  importCount : Nat
  table : Table
  globalMutable : List Bool
  hostFns : Nat → Option H
  jumpTable : Nat → JumpSlot
  memLen : Nat

/-- A live module: its tables, its globals and its memory. -/
structure Instance (H : Type) where
  code : Code H
  globals : Nat → BitVec 64
  mem : Nat → UInt8
  currentPages : Nat

/-- Run a parser on a section if the section is there. -/
def parseIf {ε α : Type} (sec : Option (List UInt8)) (default : α) (parse : List UInt8 → Rust ε α) : Rust ε α :=
  match sec with
  | none => .ok default
  | some bytes => parse bytes

section
variable {H : Type}

/-- `Interpreter::new` -/
def Interpreter.new (m : Module) (importCount memLen : Nat) (hostFns : Nat → Option H) (initialPages : Nat) :
    Rust InterpError (Instance H) := do
  let types ← parseIf m.typeSection [] parseTypeSection
  let funcTypeIndices ← parseIf m.functionSection [] parseFunctionSection
  let codeBytes ← okOr m.codeSection .noCodeSection
  let bodies ← parseCodeSection codeBytes
  let globals ← parseIf m.globalSection [] parseGlobalSection
  let importTypes ← parseIf m.importSection [] parseImportFuncTypes
  let table ← parseIf m.elementSection .blank parseElementSection
  let jumpTable ← buildJumpTable.checked (bodies.map Prod.fst)
  .ok
    { code :=
        { bodies := bodies.map Prod.fst
          localCounts := bodies.map Prod.snd
          types, funcTypeIndices, importTypes, importCount, table
          globalMutable := globals.map Prod.snd
          hostFns, jumpTable, memLen }
      globals := fun i => (globals[i]?.map Prod.fst).getD 0
      mem := fun _ => 0
      currentPages := initialPages }

/-- `host_fns`: the first `MAX_FUNCS` function imports, looked up in the host registry. -/
def resolveImports (lookupHost : List UInt8 → List UInt8 → Option H) (names : ImportNames) (i : Nat) : Option H :=
  if i < MAX_FUNCS then names[i]?.bind fun p => lookupHost p.1 p.2 else none

/-- `spawn` once a pool slot is found. -/
def instantiate (lookupHost : List UInt8 → List UInt8 → Option H) (bytes : List UInt8) :
    Rust RunError (Instance H) := do
  let m ← mapErr .load (load bytes)
  let minPages ← parseIf m.memorySection 0 readMemoryMinPages
  if MAX_MEM_PAGES < minPages then .error (.err .memoryTooLarge) else
  let importCount ← parseIf m.importSection 0 countFuncImports
  let names ← parseIf m.importSection [] forEachFuncImport
  if (names.take MAX_FUNCS).any fun p => (lookupHost p.1 p.2).isNone then .error (.err .importNotFound) else
  let inst ← mapErr .interp
    (Interpreter.new m importCount (MAX_MEM_PAGES * PAGE_SIZE) (resolveImports lookupHost names) minPages)
  let mem ← parseIf m.dataSection inst.mem fun bytes =>
    mapErr (fun _ => .interp .malformedCode) (initMemory bytes inst.code.memLen inst.mem)
  .ok { inst with mem }

end

end WasmOs
