import WasmOs.X86

/-!
# Instruction encodings of x86-64

REX prefix, opcode, ModRM, SIB and displacement with all their forms: registers and memory operands of 32 and
64 bits, byte registers, addresses with base, index and displacement and relative to the instruction pointer.
The opcodes are those of two-operand arithmetic, moves, extensions, shifts, the stack and indirect calls.
-/

namespace X64

open X86 (Reg Dec byte fail le sext bind_apply)

inductive Size where
  | b32 | b64
  deriving DecidableEq, Repr

/-- A byte register: the low byte of a register, or the second byte of one of the first four. -/
inductive Reg8 where
  | low (r : Reg)
  | high (r : Reg)
  deriving DecidableEq, Repr

inductive Base where
  | reg (r : Reg)
  | rip
  | none
  deriving DecidableEq, Repr

/-- `[base + scale * index + disp]` -/
structure Mem where
  base : Base
  index : Option (Reg × Nat)
  disp : BitVec 64
  deriving DecidableEq, Repr

inductive Loc where
  | reg (r : Reg)
  | mem (m : Mem)
  deriving DecidableEq, Repr

inductive Loc8 where
  | reg (r : Reg8)
  | mem (m : Mem)
  deriving DecidableEq, Repr

inductive AluOp where
  | add | or | adc | sbb | and | sub | xor | cmp
  deriving DecidableEq, Repr

def AluOp.ofNum : Nat → AluOp
  | 0 => .add | 1 => .or | 2 => .adc | 3 => .sbb | 4 => .and | 5 => .sub | 6 => .xor | _ => .cmp

inductive ShiftOp where
  | rol | ror | rcl | rcr | shl | shr | sar
  deriving DecidableEq, Repr

inductive Cond where
  | o | no | b | ae | e | ne | be | a | s | ns | p | np | l | ge | le | g
  deriving DecidableEq, Repr

def Cond.ofNum : Nat → Cond
  | 0 => .o | 1 => .no | 2 => .b | 3 => .ae | 4 => .e | 5 => .ne | 6 => .be | 7 => .a
  | 8 => .s | 9 => .ns | 10 => .p | 11 => .np | 12 => .l | 13 => .ge | 14 => .le | _ => .g

inductive Instr where
  | mov (size : Size) (dst src : Loc)
  | movImm32 (dst : Reg) (imm : BitVec 32)
  | movImm64 (dst : Reg) (imm : BitVec 64)
  | push (r : Reg)
  | pop (r : Reg)
  | alu (op : AluOp) (size : Size) (dst : Reg) (src : Loc)
  | aluImm (op : AluOp) (size : Size) (dst : Loc) (imm : BitVec 64)
  | imul (size : Size) (dst : Reg) (src : Loc)
  | shiftCl (op : ShiftOp) (size : Size) (dst : Loc)
  | not (size : Size) (dst : Loc)
  | neg (size : Size) (dst : Loc)
  | test (size : Size) (a : Loc) (b : Reg)
  | setcc (cond : Cond) (dst : Loc8)
  | movzx8 (size : Size) (dst : Reg) (src : Loc8)
  | movsx8 (size : Size) (dst : Reg) (src : Loc8)
  | call (target : Loc)
  | jmp (target : Loc)
  | ret
  deriving DecidableEq, Repr

/-! ## Decoding -/

/-- `0100WRXB`, with the high bits of the register fields in their place. -/
structure Rex where
  given : Bool
  w : Bool
  r : Nat
  x : Nat
  b : Nat

def Rex.none : Rex := ⟨false, false, 0, 0, 0⟩

def Rex.ofByte (p : Nat) : Rex := ⟨true, p / 8 % 2 = 1, p / 4 % 2 * 8, p / 2 % 2 * 8, p % 2 * 8⟩

def Rex.size (rex : Rex) : Size := if rex.w then .b64 else .b32

/-- The `r/m` operand; what a register number means is up to the opcode. -/
inductive RM where
  | reg (n : Nat)
  | mem (m : Mem)

def RM.loc : RM → Loc
  | .reg n => .reg (.ofNum n)
  | .mem m => .mem m

/-- Without a REX prefix the numbers 4 to 7 are `ah`, `ch`, `dh` and `bh`. -/
def Reg8.ofNum (given : Bool) (n : Nat) :
    Reg8 := if given = false ∧ 4 ≤ n then .high (.ofNum (n - 4)) else .low (.ofNum n)

def RM.loc8 (rex : Rex) : RM → Loc8
  | .reg n => .reg (.ofNum rex.given n)
  | .mem m => .mem m

def disp : Nat → Dec (BitVec 64)
  | 0 => pure 0
  | 1 => do
    let d ← le 1
    pure (sext 8 d)
  | _ => do
    let d ← le 4
    pure (sext 32 d)

/-- The index field 4 with no high bit means that there is no index. -/
def index (rex : Rex) (sib : Nat) : Option (Reg × Nat) :=
  if rex.x + sib / 8 % 8 = 4 then none else some (.ofNum (rex.x + sib / 8 % 8), 2 ^ (sib / 64))

def memory (rex : Rex) (mod rm : Nat) : Dec Mem :=
  if rm = 4 then do
    let sib ← byte
    if sib.toNat % 8 = 5 ∧ mod = 0 then do
      let d ← le 4
      pure ⟨.none, index rex sib.toNat, sext 32 d⟩
    else do
      let d ← disp mod
      pure ⟨.reg (.ofNum (rex.b + sib.toNat % 8)), index rex sib.toNat, d⟩
  else if rm = 5 ∧ mod = 0 then do
    let d ← le 4
    pure ⟨.rip, none, sext 32 d⟩
  else do
    let d ← disp mod
    pure ⟨.reg (.ofNum (rex.b + rm)), none, d⟩

/-- The `reg` field and the `r/m` operand. -/
def modrm (rex : Rex) : Dec (Nat × RM) := do
  let m ← byte
  if m.toNat / 64 = 3 then pure (m.toNat / 8 % 8, .reg (rex.b + m.toNat % 8))
  else do
    let a ← memory rex (m.toNat / 64) (m.toNat % 8)
    pure (m.toNat / 8 % 8, .mem a)

def Rex.reg (rex : Rex) (field : Nat) : Reg := .ofNum (rex.r + field)

def aluOf (op : AluOp) (rex : Rex) : Dec Instr := do
  let (field, rm) ← modrm rex
  pure (.alu op rex.size (rex.reg field) rm.loc)

/-- An immediate of `n` bytes, sign-extended. -/
def aluImmOf (n : Nat) (rex : Rex) : Dec Instr := do
  let (field, rm) ← modrm rex
  let i ← le n
  pure (.aluImm (.ofNum field) rex.size rm.loc (sext (8 * n) i))

/-! Groups of opcodes that the `reg` field tells apart. -/

def shiftOf (rex : Rex) : Nat × RM → Dec Instr
  | (0, rm) => pure (.shiftCl .rol rex.size rm.loc)
  | (1, rm) => pure (.shiftCl .ror rex.size rm.loc)
  | (2, rm) => pure (.shiftCl .rcl rex.size rm.loc)
  | (3, rm) => pure (.shiftCl .rcr rex.size rm.loc)
  | (4, rm) => pure (.shiftCl .shl rex.size rm.loc)
  | (5, rm) => pure (.shiftCl .shr rex.size rm.loc)
  | (7, rm) => pure (.shiftCl .sar rex.size rm.loc)
  | _ => fail

def unaryOf (rex : Rex) : Nat × RM → Dec Instr
  | (2, rm) => pure (.not rex.size rm.loc)
  | (3, rm) => pure (.neg rex.size rm.loc)
  | _ => fail

def branchOf : Nat × RM → Dec Instr
  | (2, rm) => pure (.call rm.loc)
  | (4, rm) => pure (.jmp rm.loc)
  | _ => fail

def decode0F (rex : Rex) : Dec Instr := do
  let op ← byte
  if 0x90 ≤ op.toNat ∧ op.toNat < 0xA0 then do
    -- the `reg` field is not used
    let (_, rm) ← modrm rex
    pure (.setcc (.ofNum (op.toNat - 0x90)) (rm.loc8 rex))
  else match op.toNat with
  | 0xAF => do
    let (field, rm) ← modrm rex
    pure (.imul rex.size (rex.reg field) rm.loc)
  | 0xB6 => do
    let (field, rm) ← modrm rex
    pure (.movzx8 rex.size (rex.reg field) (rm.loc8 rex))
  | 0xBE => do
    let (field, rm) ← modrm rex
    pure (.movsx8 rex.size (rex.reg field) (rm.loc8 rex))
  | _ => fail

def decodeOp (rex : Rex) (op : Nat) : Dec Instr :=
  if 0x50 ≤ op ∧ op < 0x58 then pure (.push (.ofNum (rex.b + (op - 0x50))))
  else if 0x58 ≤ op ∧ op < 0x60 then pure (.pop (.ofNum (rex.b + (op - 0x58))))
  else if 0xB8 ≤ op ∧ op < 0xC0 then
    if rex.w then do
      let v ← le 8
      pure (.movImm64 (.ofNum (rex.b + (op - 0xB8))) (BitVec.ofNat 64 v))
    else do
      let v ← le 4
      pure (.movImm32 (.ofNum (rex.b + (op - 0xB8))) (BitVec.ofNat 32 v))
  else match op with
  | 0x03 => aluOf .add rex
  | 0x0B => aluOf .or rex
  | 0x0F => decode0F rex
  | 0x13 => aluOf .adc rex
  | 0x1B => aluOf .sbb rex
  | 0x23 => aluOf .and rex
  | 0x2B => aluOf .sub rex
  | 0x33 => aluOf .xor rex
  | 0x3B => aluOf .cmp rex
  | 0x81 => aluImmOf 4 rex
  | 0x83 => aluImmOf 1 rex
  | 0x85 => do
    let (field, rm) ← modrm rex
    pure (.test rex.size rm.loc (rex.reg field))
  | 0x89 => do
    let (field, rm) ← modrm rex
    pure (.mov rex.size rm.loc (.reg (rex.reg field)))
  | 0x8B => do
    let (field, rm) ← modrm rex
    pure (.mov rex.size (.reg (rex.reg field)) rm.loc)
  | 0xC3 => pure .ret
  | 0xD3 => modrm rex >>= shiftOf rex
  | 0xF7 => modrm rex >>= unaryOf rex
  | 0xFF => modrm rex >>= branchOf
  | _ => fail

def decode : Dec Instr := do
  let b ← byte
  if 0x40 ≤ b.toNat ∧ b.toNat < 0x50 then do
    let op ← byte
    decodeOp (.ofByte b.toNat) op.toNat
  else decodeOp .none b.toNat

/-- `bs` decodes to `i`, whatever follows it. -/
def Encodes (bs : List UInt8) (i : Instr) : Prop := ∀ rest, decode (bs ++ rest) = some (i, rest)

end X64
