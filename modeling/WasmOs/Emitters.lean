import WasmOs.Jit
import WasmOs.JitCode
import WasmOs.X64

/-!
# The instruction emitters

Every emitter of `CodeBuf` that takes operands: the bytes it appends, and the instruction its comment documents.
-/

namespace WasmOs

open X86 (Reg)
open X64 (Encodes Instr Size Loc Loc8 Mem)

/-! ## The emitters the compiler does not use -/

/-- `neg reg` -/
def emitNeg (reg : Reg) : List UInt8 := [0x48, 0xF7, 0xD8 ||| enc reg]

inductive Cond where
  | E | NE | L | LE | G | GE | B | BE | A | AE
  deriving DecidableEq, Repr

def Cond.code : Cond → UInt8
  | .E => 0x4 | .NE => 0x5 | .L => 0xC | .LE => 0xE | .G => 0xF | .GE => 0xD | .B => 0x2 | .BE => 0x6 | .A =>
    0x7 | .AE => 0x3

/-- `setcc cond, reg` -/
def emitSetcc (cond : Cond) (reg : Reg) : List UInt8 :=
  (if needsRex reg then [(0x40 : UInt8) ||| (enc reg >>> 3)] else []) ++ [0x0F, 0x90 ||| cond.code] ++
    emitModrmRr reg .rax

/-- `movzx dst8, src8` -/
def emitMovzxR32R8 (dst src : Reg) : List UInt8 :=
  (if needsRex dst || needsRex src then
      [(0x40 : UInt8) ||| (if needsRex dst then 0x4 else 0) ||| (if needsRex src then 0x1 else 0)] else []) ++
    [0x0F, 0xB6] ++ emitModrmRr dst src

/-- `movsx dst, [base + offset]` -/
def emitMovsxR32Mem8 (dst base : Reg) (offset : BitVec 32) : List UInt8 :=
  emitRexRr dst base ++ 0x0F :: 0xBE :: emitMemModrm dst base offset

/-- `movzx dst, [base + offset]` -/
def emitMovzxR32Mem8 (dst base : Reg) (offset : BitVec 32) : List UInt8 :=
  emitRexRr dst base ++ 0x0F :: 0xB6 :: emitMemModrm dst base offset

/-- `[base + offset_reg]` -/
def emitIndexed (reg base offsetReg : Reg) : List UInt8 :=
  if offsetReg = .rax then [(0x00 : UInt8) ||| (enc reg <<< 3) ||| enc base]
  else [(0x04 : UInt8) ||| (enc reg <<< 3), (enc offsetReg <<< 3) ||| enc base]

/-- `mov dst, [base + offset_reg]` -/
def emitMemLoadU64 (dst base offsetReg : Reg) : List UInt8 :=
  emitRexRr dst base ++ 0x8B :: emitIndexed dst base offsetReg

/-- `mov [base + offset_reg], src` -/
def emitMemStoreU64 (src base offsetReg : Reg) : List UInt8 :=
  emitRexRr src base ++ 0x89 :: emitIndexed src base offsetReg

/-- `test reg, reg` -/
def emitTestRr (reg : Reg) : List UInt8 := emitRexRr reg reg ++ 0x85 :: emitModrmRr reg reg

/-- `cmp reg, imm32` -/
def emitCmpRi32 (reg : Reg) (imm : BitVec 32) : List UInt8 :=
  (if needsRex reg then 0x49 else 0x48) :: 0x81 :: (0xF8 ||| enc reg) :: emitU32 imm

/-- `call *reg` -/
def emitCallR (reg : Reg) : List UInt8 := (if needsRex reg then [0x41] else []) ++ [0xFF, 0xD0 ||| enc reg]

/-! ## An emitter with its operands -/

inductive Emit where
  | movRr (dst src : Reg)
  | movRi64 (dst : Reg) (imm : BitVec 64)
  | movRi32 (dst : Reg) (imm : BitVec 32)
  | push (reg : Reg)
  | pop (reg : Reg)
  | addRr (dst src : Reg)
  | subRr (dst src : Reg)
  | andRr (dst src : Reg)
  | orRr (dst src : Reg)
  | xorRr (dst src : Reg)
  | imulRr (dst src : Reg)
  | loadMem (dst base : Reg) (byteOffset : BitVec 32)
  | storeMem (src base : Reg) (byteOffset : BitVec 32)
  | addRspI8 (imm : UInt8)
  | subRspI8 (imm : UInt8)
  | sarRcx (reg : Reg)
  | shlRcx (reg : Reg)
  | shrRcx (reg : Reg)
  | neg (reg : Reg)
  | setcc (cond : Cond) (reg : Reg)
  | movzxR32R8 (dst src : Reg)
  | movsxR32Mem8 (dst base : Reg) (offset : BitVec 32)
  | movzxR32Mem8 (dst base : Reg) (offset : BitVec 32)
  | memLoadU64 (dst base offsetReg : Reg)
  | memStoreU64 (src base offsetReg : Reg)
  | testRr (reg : Reg)
  | cmpRi32 (reg : Reg) (imm : BitVec 32)
  | callR (reg : Reg)

def Emit.bytes : Emit → List UInt8
  | .movRr dst src => emitMovRr dst src
  | .movRi64 dst imm => emitMovRi64 dst imm
  | .movRi32 dst imm => emitMovRi32 dst imm
  | .push reg => emitPush reg
  | .pop reg => emitPop reg
  | .addRr dst src => emitAddRr dst src
  | .subRr dst src => emitSubRr dst src
  | .andRr dst src => emitAndRr dst src
  | .orRr dst src => emitOrRr dst src
  | .xorRr dst src => emitXorRr dst src
  | .imulRr dst src => emitImulRr dst src
  | .loadMem dst base byteOffset => emitLoadMem dst base byteOffset
  | .storeMem src base byteOffset => emitStoreMem src base byteOffset
  | .addRspI8 imm => emitAddRspI8 imm
  | .subRspI8 imm => emitSubRspI8 imm
  | .sarRcx reg => emitSarRcx reg
  | .shlRcx reg => emitShlRcx reg
  | .shrRcx reg => emitShrRcx reg
  | .neg reg => emitNeg reg
  | .setcc cond reg => emitSetcc cond reg
  | .movzxR32R8 dst src => emitMovzxR32R8 dst src
  | .movsxR32Mem8 dst base offset => emitMovsxR32Mem8 dst base offset
  | .movzxR32Mem8 dst base offset => emitMovzxR32Mem8 dst base offset
  | .memLoadU64 dst base offsetReg => emitMemLoadU64 dst base offsetReg
  | .memStoreU64 src base offsetReg => emitMemStoreU64 src base offsetReg
  | .testRr reg => emitTestRr reg
  | .cmpRi32 reg imm => emitCmpRi32 reg imm
  | .callR reg => emitCallR reg

def Cond.documented : Cond → X64.Cond
  | .E => .e | .NE => .ne | .L => .l | .LE => .le | .G => .g | .GE => .ge | .B => .b | .BE => .be | .A =>
    .a | .AE => .ae

/-- `[base + offset]` -/
def atOffset (base : Reg) (offset : BitVec 32) : Mem := ⟨.reg base, none, offset.signExtend 64⟩

/-- `[base + index]` -/
def atIndex (base offsetReg : Reg) : Mem := ⟨.reg base, some (offsetReg, 1), 0⟩

def Emit.documented : Emit → Instr
  | .movRr dst src => .mov .b64 (.reg dst) (.reg src)
  | .movRi64 dst imm => .movImm64 dst imm
  | .movRi32 dst imm => .movImm32 dst imm
  | .push reg => .push reg
  | .pop reg => .pop reg
  | .addRr dst src => .alu .add .b64 dst (.reg src)
  | .subRr dst src => .alu .sub .b64 dst (.reg src)
  | .andRr dst src => .alu .and .b64 dst (.reg src)
  | .orRr dst src => .alu .or .b64 dst (.reg src)
  | .xorRr dst src => .alu .xor .b64 dst (.reg src)
  | .imulRr dst src => .imul .b64 dst (.reg src)
  | .loadMem dst base byteOffset => .mov .b64 (.reg dst) (.mem (atOffset base byteOffset))
  | .storeMem src base byteOffset => .mov .b64 (.mem (atOffset base byteOffset)) (.reg src)
  | .addRspI8 imm => .aluImm .add .b64 (.reg .rsp) (X86.sext 8 imm.toNat)
  | .subRspI8 imm => .aluImm .sub .b64 (.reg .rsp) (X86.sext 8 imm.toNat)
  | .sarRcx reg => .shiftCl .sar .b64 (.reg reg)
  | .shlRcx reg => .shiftCl .shl .b64 (.reg reg)
  | .shrRcx reg => .shiftCl .shr .b64 (.reg reg)
  | .neg reg => .neg .b64 (.reg reg)
  | .setcc cond reg => .setcc cond.documented (.reg (.low reg))
  | .movzxR32R8 dst src => .movzx8 .b32 dst (.reg (.low src))
  | .movsxR32Mem8 dst base offset => .movsx8 .b32 dst (.mem (atOffset base offset))
  | .movzxR32Mem8 dst base offset => .movzx8 .b32 dst (.mem (atOffset base offset))
  | .memLoadU64 dst base offsetReg => .mov .b64 (.reg dst) (.mem (atIndex base offsetReg))
  | .memStoreU64 src base offsetReg => .mov .b64 (.mem (atIndex base offsetReg)) (.reg src)
  | .testRr reg => .test .b64 (.reg reg) reg
  | .cmpRi32 reg imm => .aluImm .cmp .b64 (.reg reg) (imm.signExtend 64)
  | .callR reg => .call (.reg reg)

def NoSib (base : Reg) : Prop := base ≠ .rsp ∧ base ≠ .r12

/-- Registers that the ModRM and SIB bytes of an indexed access name. -/
def Indexable (base offsetReg : Reg) : Prop :=
  base ≠ .rbp ∧ base ≠ .r13 ∧ needsRex offsetReg = false ∧ offsetReg ≠ .rax ∧ offsetReg ≠ .rsp

def Emit.Good : Emit → Prop
  | .loadMem _ base _ => NoSib base
  | .storeMem _ base _ => NoSib base
  | .neg reg => needsRex reg = false
  | .setcc _ reg => reg = .rax
  | .movzxR32R8 dst src => needsRex dst ∨ needsRex src ∨ src ∉ [Reg.rsp, .rbp, .rsi, .rdi]
  | .movsxR32Mem8 _ _ _ => False
  | .movzxR32Mem8 _ _ _ => False
  | .memLoadU64 _ base offsetReg => Indexable base offsetReg
  | .memStoreU64 _ base offsetReg => Indexable base offsetReg
  | _ => True

end WasmOs
