import WasmOs.Opcode

/-!
# The assembler's emitter

The intermediate form the `asm` command parses WAT text into, and `WasmEmitter`, which writes it as
a binary. An emitter only appends to its buffer, so a function that emits something is the bytes it
appends.
-/

namespace WasmOs.Asm

inductive ValType where
  | i32 | i64 | f32 | f64
  deriving DecidableEq, Repr

def ValType.byte : ValType → UInt8
  | i32 => 0x7F
  | i64 => 0x7E
  | f32 => 0x7D
  | f64 => 0x7C

structure FuncType where
  params : List ValType
  results : List ValType

structure Local where
  ty : ValType

/-- An `f32` is its bits. -/
inductive Instr where
  | unreachable | nop | «return» | drop
  | localGet (i : UInt32) | localSet (i : UInt32) | localTee (i : UInt32)
  | i32Const (n : BitVec 32) | i64Const (n : BitVec 32) | f32Const (f : BitVec 32) | f64Const (f : BitVec 32)
  | i32Add | i32Sub | i32Mul | i32DivS | i32DivU | i32RemS | i32RemU
  | i32And | i32Or | i32Xor | i32Shl | i32ShrS | i32ShrU
  | i32Eqz | i32Eq | i32Ne | i32LtS | i32LtU | i32GtS | i32GtU | i32LeS | i32LeU | i32GeS | i32GeU
  | i64Add | i64Sub | i64Mul | i64And | i64Or | i64Xor | i64Eqz | i64Eq | i64Ne
  | f32Add | f32Sub | f32Mul | f32Div | f64Add | f64Sub | f64Mul | f64Div
  | i32Load (offset align : UInt32) | i32Store (offset align : UInt32)
  | i32Load8S (offset align : UInt32) | i32Load8U (offset align : UInt32) | i32Store8 (offset align : UInt32)
  | call (idx : UInt32)
  | «if» (blockTy : UInt8) | «else» | loop (blockTy : UInt8) | block (blockTy : UInt8)
  | br (l : UInt32) | brIf (l : UInt32) | «end» | select

structure FuncDef where
  typeIdx : UInt32
  locals : List Local
  body : List Instr

structure Import where
  module : List UInt8
  name : List UInt8
  typeIdx : UInt32

structure Export where
  name : List UInt8
  kind : UInt8
  index : UInt32

structure Memory where
  min : UInt32
  max : Option UInt32

structure DataSeg where
  offset : BitVec 32
  bytes : List UInt8

structure Module where
  types : List FuncType := []
  imports : List Import := []
  funcs : List FuncDef := []
  memories : List Memory := []
  exports : List Export := []
  data : List DataSeg := []

/-! ## Numbers and lengths -/

-- Five groups of seven bits hold 32 bits, so neither loop takes a sixth round.
def writeLeb128U32.loop : Nat → UInt32 → List UInt8
  | 0, _ => []
  | fuel + 1, val =>
    let byte := (val &&& 0x7F).toUInt8
    let val := val >>> 7
    if val = 0 then [byte] else (byte ||| 0x80) :: writeLeb128U32.loop fuel val

def writeLeb128U32 (val : UInt32) : List UInt8 := writeLeb128U32.loop 5 val

def writeLeb128I32.loop : Nat → BitVec 32 → List UInt8
  | 0, _ => []
  | fuel + 1, val =>
    let byte := UInt8.ofBitVec ((val &&& 0x7F).setWidth 8)
    let val := val.sshiftRight 6
    let more := val ≠ 0 ∧ val ≠ -1
    if ¬ more then [byte &&& 0x7F] else (byte ||| 0x80) :: writeLeb128I32.loop fuel (val.sshiftRight 1)

def writeLeb128I32 (val : BitVec 32) : List UInt8 := writeLeb128I32.loop 5 val

/-- `write_leb128_u32(xs.len() as u32)` -/
def writeLen {α : Type} (xs : List α) : List UInt8 := writeLeb128U32 (UInt32.ofNat xs.length)

def writeBytes (bytes : List UInt8) : List UInt8 := writeLen bytes ++ bytes

def writeAll {α : Type} (emit : α → List UInt8) (xs : List α) : List UInt8 := writeLen xs ++ xs.flatMap emit

def emitSection (id : UInt8) (inner : List UInt8) : List UInt8 := id :: writeBytes inner

/-! ## Instructions -/

def emitInstr (F : FloatOps) : Instr → List UInt8
  | .unreachable => [0x00]
  | .nop => [0x01]
  | .return => [0x0F]
  | .drop => [0x1A]
  | .select => [0x1B]
  | .end => [0x0B]
  | .else => [0x05]
  | .block blockTy => [0x02, blockTy]
  | .loop blockTy => [0x03, blockTy]
  | .if blockTy => [0x04, blockTy]
  | .br l => 0x0C :: writeLeb128U32 l
  | .brIf l => 0x0D :: writeLeb128U32 l
  | .call idx => 0x10 :: writeLeb128U32 idx
  | .localGet i => 0x20 :: writeLeb128U32 i
  | .localSet i => 0x21 :: writeLeb128U32 i
  | .localTee i => 0x22 :: writeLeb128U32 i
  | .i32Const n => 0x41 :: writeLeb128I32 n
  | .i64Const n => 0x42 :: writeLeb128I32 n
  | .f32Const f => 0x43 :: leBytes f.toNat 4
  | .f64Const f => 0x44 :: leBytes (F.promote f).toNat 8
  | .i32Load offset align => 0x28 :: (writeLeb128U32 align ++ writeLeb128U32 offset)
  | .i32Store offset align => 0x36 :: (writeLeb128U32 align ++ writeLeb128U32 offset)
  | .i32Load8S offset align => 0x2C :: (writeLeb128U32 align ++ writeLeb128U32 offset)
  | .i32Load8U offset align => 0x2D :: (writeLeb128U32 align ++ writeLeb128U32 offset)
  | .i32Store8 offset align => 0x3A :: (writeLeb128U32 align ++ writeLeb128U32 offset)
  | .i32Add => [0x6A]
  | .i32Sub => [0x6B]
  | .i32Mul => [0x6C]
  | .i32DivS => [0x6D]
  | .i32DivU => [0x6E]
  | .i32RemS => [0x6F]
  | .i32RemU => [0x70]
  | .i32And => [0x71]
  | .i32Or => [0x72]
  | .i32Xor => [0x73]
  | .i32Shl => [0x74]
  | .i32ShrS => [0x75]
  | .i32ShrU => [0x76]
  | .i32Eqz => [0x45]
  | .i32Eq => [0x46]
  | .i32Ne => [0x47]
  | .i32LtS => [0x48]
  | .i32LtU => [0x49]
  | .i32GtS => [0x4A]
  | .i32GtU => [0x4B]
  | .i32LeS => [0x4C]
  | .i32LeU => [0x4D]
  | .i32GeS => [0x4E]
  | .i32GeU => [0x4F]
  | .i64Add => [0x7C]
  | .i64Sub => [0x7D]
  | .i64Mul => [0x7E]
  | .i64And => [0x83]
  | .i64Or => [0x84]
  | .i64Xor => [0x85]
  | .i64Eqz => [0x50]
  | .i64Eq => [0x51]
  | .i64Ne => [0x52]
  | .f32Add => [0x92]
  | .f32Sub => [0x93]
  | .f32Mul => [0x94]
  | .f32Div => [0x95]
  | .f64Add => [0xA0]
  | .f64Sub => [0xA1]
  | .f64Mul => [0xA2]
  | .f64Div => [0xA3]

def compressLocals.step (groups : List (UInt32 × ValType)) (l : Local) : List (UInt32 × ValType) :=
  match groups.getLast? with
  | some (count, ty) => if ty = l.ty then groups.dropLast ++ [(count + 1, ty)] else groups ++ [(1, l.ty)]
  | none => groups ++ [(1, l.ty)]

def compressLocals (locals : List Local) : List (UInt32 × ValType) := locals.foldl compressLocals.step []

/-! ## Sections -/

def emitFuncType (ft : FuncType) : List UInt8 :=
  0x60 :: (writeAll (fun vt => [vt.byte]) ft.params ++ writeAll (fun vt => [vt.byte]) ft.results)

def emitImport (imp : Import) : List UInt8 :=
  writeBytes imp.module ++ (writeBytes imp.name ++ 0x00 :: writeLeb128U32 imp.typeIdx)

def emitMemory (mem : Memory) : List UInt8 :=
  match mem.max with
  | some max => 0x01 :: (writeLeb128U32 mem.min ++ writeLeb128U32 max)
  | none => 0x00 :: writeLeb128U32 mem.min

def emitExport (exp : Export) : List UInt8 := writeBytes exp.name ++ exp.kind :: writeLeb128U32 exp.index

/-- The instruction bytes of a function, with the `end` the emitter adds. -/
def FuncDef.code (F : FloatOps) (func : FuncDef) : List UInt8 := func.body.flatMap (emitInstr F) ++ [0x0B]

def emitGroup (g : UInt32 × ValType) : List UInt8 := writeLeb128U32 g.1 ++ [g.2.byte]

/-- A code entry: the local groups and the instructions. -/
def emitBody (F : FloatOps) (func : FuncDef) : List UInt8 :=
  writeAll emitGroup (compressLocals func.locals) ++ func.code F

def emitFunction (func : FuncDef) : List UInt8 := writeLeb128U32 func.typeIdx

def emitCode (F : FloatOps) (func : FuncDef) : List UInt8 := writeBytes (emitBody F func)

def emitSegment (seg : DataSeg) : List UInt8 :=
  0x00 :: 0x41 :: (writeLeb128I32 seg.offset ++ 0x0B :: writeBytes seg.bytes)

def emitTypeSection (m : Module) : List UInt8 := emitSection 0x01 (writeAll emitFuncType m.types)

def emitImportSection (m : Module) : List UInt8 := emitSection 0x02 (writeAll emitImport m.imports)

def emitFunctionSection (m : Module) : List UInt8 := emitSection 0x03 (writeAll emitFunction m.funcs)

def emitMemorySection (m : Module) : List UInt8 := emitSection 0x05 (writeAll emitMemory m.memories)

def emitExportSection (m : Module) : List UInt8 := emitSection 0x07 (writeAll emitExport m.exports)

def emitDataCountSection (m : Module) : List UInt8 := emitSection 0x0C (writeLen m.data)

def emitCodeSection (F : FloatOps) (m : Module) : List UInt8 := emitSection 0x0A (writeAll (emitCode F) m.funcs)

def emitDataSection (m : Module) : List UInt8 := emitSection 0x0B (writeAll emitSegment m.data)

def emitModule (F : FloatOps) (m : Module) : List UInt8 :=
  [0x00, 0x61, 0x73, 0x6D] ++ ([0x01, 0x00, 0x00, 0x00] ++
    ((if !m.types.isEmpty then emitTypeSection m else []) ++
    ((if !m.imports.isEmpty then emitImportSection m else []) ++
    ((if !m.funcs.isEmpty then emitFunctionSection m else []) ++
    ((if !m.memories.isEmpty then emitMemorySection m else []) ++
    ((if !m.exports.isEmpty then emitExportSection m else []) ++
    ((if !m.data.isEmpty && !m.memories.isEmpty then emitDataCountSection m else []) ++
    ((if !m.funcs.isEmpty then emitCodeSection F m else []) ++
    (if !m.data.isEmpty then emitDataSection m else [])))))))))

end WasmOs.Asm
