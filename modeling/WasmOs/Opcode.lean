import WasmOs.Syntax
import WasmOs.Sections

/-!
# Opcodes

The opcodes `run` dispatches on. Straight-line numeric instructions are functions on 64-bit stack
slots, one line per opcode: an `i32` is the low half of its slot. Floating point is done by the
processor and by `libm` and is a parameter, `FloatOps`, on bit patterns.
-/

namespace WasmOs

inductive FCmp where
  | eq | ne | lt | gt | le | ge
  deriving DecidableEq, Repr

inductive FUn where
  | abs | neg | ceil | floor | trunc | nearest | sqrt
  deriving DecidableEq, Repr

inductive FBin where
  | add | sub | mul | div | min | max | copysign
  deriving DecidableEq, Repr

structure FloatOps where
  f32Cmp : FCmp → BitVec 32 → BitVec 32 → Bool
  f64Cmp : FCmp → BitVec 64 → BitVec 64 → Bool
  f32Un : FUn → BitVec 32 → BitVec 32
  f64Un : FUn → BitVec 64 → BitVec 64
  f32Bin : FBin → BitVec 32 → BitVec 32 → BitVec 32
  f64Bin : FBin → BitVec 64 → BitVec 64 → BitVec 64
  /-- To an integer of `w` bits; `none` for NaN and for what is out of range. -/
  truncF32 : (signed : Bool) → (w : Nat) → BitVec 32 → Option (BitVec w)
  truncF64 : (signed : Bool) → (w : Nat) → BitVec 64 → Option (BitVec w)
  truncSatF32 : (signed : Bool) → (w : Nat) → BitVec 32 → BitVec w
  truncSatF64 : (signed : Bool) → (w : Nat) → BitVec 64 → BitVec w
  convertF32 : (signed : Bool) → (w : Nat) → BitVec w → BitVec 32
  convertF64 : (signed : Bool) → (w : Nat) → BitVec w → BitVec 64
  demote : BitVec 64 → BitVec 32
  promote : BitVec 32 → BitVec 64
  deriving Inhabited

/-! ## Stack slots -/

/-- `v as i32`, `v as u32` -/
def lo32 (v : BitVec 64) : BitVec 32 := v.setWidth 32

/-- `v as i64` for an `i32` -/
def sx (v : BitVec 32) : BitVec 64 := v.signExtend 64

/-- `v as i64` for a `u32` -/
def zx (v : BitVec 32) : BitVec 64 := v.setWidth 64

theorem lo32_sx (v : BitVec 32) : lo32 (sx v) = v := by
  apply BitVec.eq_of_getLsbD_eq
  intro i hi
  rw [lo32, sx, BitVec.getLsbD_setWidth, BitVec.getLsbD_signExtend]
  simp [hi, show i < 64 by omega]

theorem lo32_zx (v : BitVec 32) : lo32 (zx v) = v := by
  rw [lo32, zx, BitVec.setWidth_setWidth_of_le _ (by decide), BitVec.setWidth_eq]

def flag (b : Bool) : BitVec 64 := if b then 1 else 0

inductive NumTrap where
  | divisionByZero | invalidConversion
  deriving DecidableEq, Repr

def NumTrap.error : NumTrap → InterpError
  | .divisionByZero => .divisionByZero
  | .invalidConversion => .invalidConversion

/-- What a numeric instruction computes from its operands. -/
inductive NumOp where
  | un (f : BitVec 64 → Except NumTrap (BitVec 64))
  | bin (f : BitVec 64 → BitVec 64 → Except NumTrap (BitVec 64))

/-! Shapes of numeric instructions. -/

def un32 (f : BitVec 32 → BitVec 64) : NumOp := .un fun a => .ok (f (lo32 a))
def un64 (f : BitVec 64 → BitVec 64) : NumOp := .un fun a => .ok (f a)
def bin32 (f : BitVec 32 → BitVec 32 → BitVec 64) : NumOp := .bin fun a b => .ok (f (lo32 a) (lo32 b))
def bin64 (f : BitVec 64 → BitVec 64 → BitVec 64) : NumOp := .bin fun a b => .ok (f a b)

def div32 (f : BitVec 32 → BitVec 32 → BitVec 64) : NumOp := .bin fun a b =>
  if lo32 b = 0 then .error .divisionByZero else .ok (f (lo32 a) (lo32 b))

def div64 (f : BitVec 64 → BitVec 64 → BitVec 64) : NumOp := .bin fun a b =>
  if b = 0 then .error .divisionByZero else .ok (f a b)

/-- `i64.div_s` also refuses the quotient that overflows. -/
def divS64 : NumOp := .bin fun a b =>
  if b = 0 then .error .divisionByZero
  else if a = BitVec.intMin 64 ∧ b = -1 then .error .divisionByZero
  else .ok (a.sdiv b)

def trunc (o : Option (BitVec 64)) : Except NumTrap (BitVec 64) :=
  match o with
  | some v => .ok v
  | none => .error .invalidConversion

section
variable (F : FloatOps)

def numOp (op : UInt8) : Option NumOp :=
  match op.toNat with
  -- i32 comparisons
  | 0x45 => some (un32 fun a => flag (a == 0))
  | 0x46 => some (bin32 fun a b => flag (a == b))
  | 0x47 => some (bin32 fun a b => flag (a != b))
  | 0x48 => some (bin32 fun a b => flag (a.slt b))
  | 0x49 => some (bin32 fun a b => flag (a.ult b))
  | 0x4A => some (bin32 fun a b => flag (b.slt a))
  | 0x4B => some (bin32 fun a b => flag (b.ult a))
  | 0x4C => some (bin32 fun a b => flag (a.sle b))
  | 0x4D => some (bin32 fun a b => flag (a.ule b))
  | 0x4E => some (bin32 fun a b => flag (b.sle a))
  | 0x4F => some (bin32 fun a b => flag (b.ule a))
  -- i64 comparisons
  | 0x50 => some (un64 fun a => flag (a == 0))
  | 0x51 => some (bin64 fun a b => flag (a == b))
  | 0x52 => some (bin64 fun a b => flag (a != b))
  | 0x53 => some (bin64 fun a b => flag (a.slt b))
  | 0x54 => some (bin64 fun a b => flag (a.ult b))
  | 0x55 => some (bin64 fun a b => flag (b.slt a))
  | 0x56 => some (bin64 fun a b => flag (b.ult a))
  | 0x57 => some (bin64 fun a b => flag (a.sle b))
  | 0x58 => some (bin64 fun a b => flag (a.ule b))
  | 0x59 => some (bin64 fun a b => flag (b.sle a))
  | 0x5A => some (bin64 fun a b => flag (b.ule a))
  -- f32 and f64 comparisons
  | 0x5B => some (bin32 fun a b => flag (F.f32Cmp .eq a b))
  | 0x5C => some (bin32 fun a b => flag (F.f32Cmp .ne a b))
  | 0x5D => some (bin32 fun a b => flag (F.f32Cmp .lt a b))
  | 0x5E => some (bin32 fun a b => flag (F.f32Cmp .gt a b))
  | 0x5F => some (bin32 fun a b => flag (F.f32Cmp .le a b))
  | 0x60 => some (bin32 fun a b => flag (F.f32Cmp .ge a b))
  | 0x61 => some (bin64 fun a b => flag (F.f64Cmp .eq a b))
  | 0x62 => some (bin64 fun a b => flag (F.f64Cmp .ne a b))
  | 0x63 => some (bin64 fun a b => flag (F.f64Cmp .lt a b))
  | 0x64 => some (bin64 fun a b => flag (F.f64Cmp .gt a b))
  | 0x65 => some (bin64 fun a b => flag (F.f64Cmp .le a b))
  | 0x66 => some (bin64 fun a b => flag (F.f64Cmp .ge a b))
  -- i32 arithmetic
  | 0x67 => some (un32 fun a => zx a.clz)
  | 0x68 => some (un32 fun a => zx a.ctz)
  | 0x69 => some (un32 fun a => zx a.cpop)
  | 0x6A => some (bin32 fun a b => sx (a + b))
  | 0x6B => some (bin32 fun a b => sx (a - b))
  | 0x6C => some (bin32 fun a b => sx (a * b))
  | 0x6D => some (div32 fun a b => sx (a.sdiv b))
  | 0x6E => some (div32 fun a b => zx (a / b))
  | 0x6F => some (div32 fun a b => sx (a.srem b))
  | 0x70 => some (div32 fun a b => zx (a % b))
  | 0x71 => some (bin32 fun a b => sx (a &&& b))
  | 0x72 => some (bin32 fun a b => sx (a ||| b))
  | 0x73 => some (bin32 fun a b => sx (a ^^^ b))
  | 0x74 => some (bin32 fun a b => sx (a <<< (b.toNat % 32)))
  | 0x75 => some (bin32 fun a b => sx (a.sshiftRight (b.toNat % 32)))
  -- the unsigned shift is pushed as a `u32`
  | 0x76 => some (bin32 fun a b => zx (a >>> (b.toNat % 32)))
  | 0x77 => some (bin32 fun a b => sx (a.rotateLeft (b.toNat % 32)))
  | 0x78 => some (bin32 fun a b => sx (a.rotateRight (b.toNat % 32)))
  -- i64 arithmetic
  | 0x79 => some (un64 fun a => a.clz)
  | 0x7A => some (un64 fun a => a.ctz)
  | 0x7B => some (un64 fun a => a.cpop)
  | 0x7C => some (bin64 fun a b => a + b)
  | 0x7D => some (bin64 fun a b => a - b)
  | 0x7E => some (bin64 fun a b => a * b)
  | 0x7F => some divS64
  | 0x80 => some (div64 fun a b => a / b)
  | 0x81 => some (div64 fun a b => a.srem b)
  | 0x82 => some (div64 fun a b => a % b)
  | 0x83 => some (bin64 fun a b => a &&& b)
  | 0x84 => some (bin64 fun a b => a ||| b)
  | 0x85 => some (bin64 fun a b => a ^^^ b)
  | 0x86 => some (bin64 fun a b => a <<< (b.toNat % 64))
  | 0x87 => some (bin64 fun a b => a.sshiftRight (b.toNat % 64))
  | 0x88 => some (bin64 fun a b => a >>> (b.toNat % 64))
  | 0x89 => some (bin64 fun a b => a.rotateLeft (b.toNat % 64))
  | 0x8A => some (bin64 fun a b => a.rotateRight (b.toNat % 64))
  -- f32 arithmetic
  | 0x8B => some (un32 fun a => zx (F.f32Un .abs a))
  | 0x8C => some (un32 fun a => zx (F.f32Un .neg a))
  | 0x8D => some (un32 fun a => zx (F.f32Un .ceil a))
  | 0x8E => some (un32 fun a => zx (F.f32Un .floor a))
  | 0x8F => some (un32 fun a => zx (F.f32Un .trunc a))
  | 0x90 => some (un32 fun a => zx (F.f32Un .nearest a))
  | 0x91 => some (un32 fun a => zx (F.f32Un .sqrt a))
  | 0x92 => some (bin32 fun a b => zx (F.f32Bin .add a b))
  | 0x93 => some (bin32 fun a b => zx (F.f32Bin .sub a b))
  | 0x94 => some (bin32 fun a b => zx (F.f32Bin .mul a b))
  | 0x95 => some (bin32 fun a b => zx (F.f32Bin .div a b))
  | 0x96 => some (bin32 fun a b => zx (F.f32Bin .min a b))
  | 0x97 => some (bin32 fun a b => zx (F.f32Bin .max a b))
  | 0x98 => some (bin32 fun a b => zx (F.f32Bin .copysign a b))
  -- f64 arithmetic
  | 0x99 => some (un64 fun a => F.f64Un .abs a)
  | 0x9A => some (un64 fun a => F.f64Un .neg a)
  | 0x9B => some (un64 fun a => F.f64Un .ceil a)
  | 0x9C => some (un64 fun a => F.f64Un .floor a)
  | 0x9D => some (un64 fun a => F.f64Un .trunc a)
  | 0x9E => some (un64 fun a => F.f64Un .nearest a)
  | 0x9F => some (un64 fun a => F.f64Un .sqrt a)
  | 0xA0 => some (bin64 fun a b => F.f64Bin .add a b)
  | 0xA1 => some (bin64 fun a b => F.f64Bin .sub a b)
  | 0xA2 => some (bin64 fun a b => F.f64Bin .mul a b)
  | 0xA3 => some (bin64 fun a b => F.f64Bin .div a b)
  | 0xA4 => some (bin64 fun a b => F.f64Bin .min a b)
  | 0xA5 => some (bin64 fun a b => F.f64Bin .max a b)
  | 0xA6 => some (bin64 fun a b => F.f64Bin .copysign a b)
  -- conversions between integers
  | 0xA7 => some (un32 sx)
  | 0xAC => some (un32 sx)
  | 0xAD => some (un32 zx)
  -- float to integer
  | 0xA8 => some (.un fun a => trunc ((F.truncF32 true 32 (lo32 a)).map sx))
  | 0xA9 => some (.un fun a => trunc ((F.truncF32 false 32 (lo32 a)).map zx))
  | 0xAA => some (.un fun a => trunc ((F.truncF64 true 32 a).map sx))
  | 0xAB => some (.un fun a => trunc ((F.truncF64 false 32 a).map zx))
  | 0xAE => some (.un fun a => trunc (F.truncF32 true 64 (lo32 a)))
  | 0xAF => some (.un fun a => trunc (F.truncF32 false 64 (lo32 a)))
  | 0xB0 => some (.un fun a => trunc (F.truncF64 true 64 a))
  | 0xB1 => some (.un fun a => trunc (F.truncF64 false 64 a))
  -- integer to float
  | 0xB2 => some (un32 fun a => zx (F.convertF32 true 32 a))
  | 0xB3 => some (un32 fun a => zx (F.convertF32 false 32 a))
  | 0xB4 => some (un64 fun a => zx (F.convertF32 true 64 a))
  | 0xB5 => some (un64 fun a => zx (F.convertF32 false 64 a))
  | 0xB6 => some (un64 fun a => zx (F.demote a))
  | 0xB7 => some (un32 fun a => F.convertF64 true 32 a)
  | 0xB8 => some (un32 fun a => F.convertF64 false 32 a)
  | 0xB9 => some (un64 fun a => F.convertF64 true 64 a)
  | 0xBA => some (un64 fun a => F.convertF64 false 64 a)
  | 0xBB => some (un32 fun a => F.promote a)
  -- i32.reinterpret_f32: the bytes folded big-endian and swapped back
  | 0xBC => some (un32 zx)
  -- sign extension
  | 0xC0 => some (un32 fun a => sx ((a.setWidth 8).signExtend 32))
  | 0xC1 => some (un32 fun a => sx ((a.setWidth 16).signExtend 32))
  | 0xC2 => some (un64 fun a => (a.setWidth 8).signExtend 64)
  | 0xC3 => some (un64 fun a => (a.setWidth 16).signExtend 64)
  | 0xC4 => some (un64 fun a => (a.setWidth 32).signExtend 64)
  | _ => none

/-- The saturating truncations, `0xFC 0` to `0xFC 7`. -/
def truncSat (sub : Nat) (a : BitVec 64) : BitVec 64 :=
  match sub with
  | 0 => sx (F.truncSatF32 true 32 (lo32 a))
  | 1 => zx (F.truncSatF32 false 32 (lo32 a))
  | 2 => sx (F.truncSatF64 true 32 a)
  | 3 => zx (F.truncSatF64 false 32 a)
  | 4 => F.truncSatF32 true 64 (lo32 a)
  | 5 => F.truncSatF32 false 64 (lo32 a)
  | 6 => F.truncSatF64 true 64 a
  | _ => F.truncSatF64 false 64 a

end

/-! ## Memory accesses -/

/-- Width of a load and what it pushes for the little-endian number it reads. -/
def loadOp (op : UInt8) : Option (Nat × (Nat → BitVec 64)) :=
  match op.toNat with
  | 0x28 => some (4, fun v => sx (BitVec.ofNat 32 v))
  | 0x29 => some (8, fun v => BitVec.ofNat 64 v)
  | 0x2A => some (4, fun v => zx (BitVec.ofNat 32 v))
  | 0x2B => some (8, fun v => BitVec.ofNat 64 v)
  | 0x2C => some (1, fun v => sx ((BitVec.ofNat 8 v).signExtend 32))
  | 0x2D => some (1, fun v => (BitVec.ofNat 8 v).setWidth 64)
  | 0x2E => some (2, fun v => sx ((BitVec.ofNat 16 v).signExtend 32))
  | 0x2F => some (2, fun v => (BitVec.ofNat 16 v).setWidth 64)
  | 0x30 => some (1, fun v => (BitVec.ofNat 8 v).signExtend 64)
  | 0x31 => some (1, fun v => (BitVec.ofNat 8 v).setWidth 64)
  | 0x32 => some (2, fun v => (BitVec.ofNat 16 v).signExtend 64)
  | 0x33 => some (2, fun v => (BitVec.ofNat 16 v).setWidth 64)
  | 0x34 => some (4, fun v => (BitVec.ofNat 32 v).signExtend 64)
  | 0x35 => some (4, fun v => (BitVec.ofNat 32 v).setWidth 64)
  | _ => none

def storeOp (op : UInt8) : Option Nat :=
  match op.toNat with
  | 0x36 => some 4
  | 0x37 => some 8
  | 0x38 => some 4
  | 0x39 => some 8
  | 0x3A => some 1
  | 0x3B => some 2
  | 0x3C => some 1
  | 0x3D => some 2
  | 0x3E => some 4
  | _ => none

/-! ## Dispatch -/

/-- What `run` does on an opcode byte. -/
inductive Opc where
  | nop | unreachable
  | block (kind : BlockKind)
  | if_ | else_ | end_
  | br | brIf | brTable | return_
  | call | callIndirect
  | drop | select
  | localGet | localSet | localTee
  | globalGet | globalSet
  | load (w : Nat) (ext : Nat → BitVec 64)
  | store (w : Nat)
  | memorySize | memoryGrow
  | i32Const | i64Const
  | floatConst (w : Nat)
  | num (op : NumOp)
  | bulk
  | unknown

/-- Memory accesses and numeric instructions. -/
def decodeRest (F : FloatOps) (op : UInt8) : Opc :=
  match loadOp op with
  | some (w, ext) => .load w ext
  | none =>
    match storeOp op with
    | some w => .store w
    | none =>
      match numOp F op with
      | some f => .num f
      | none => .unknown

def decodeOp (F : FloatOps) (op : UInt8) : Opc :=
  match op.toNat with
  | 0x00 => .unreachable
  | 0x01 => .nop
  | 0x02 => .block .block
  | 0x03 => .block .loop
  | 0x04 => .if_
  | 0x05 => .else_
  | 0x0B => .end_
  | 0x0C => .br
  | 0x0D => .brIf
  | 0x0E => .brTable
  | 0x0F => .return_
  | 0x10 => .call
  | 0x11 => .callIndirect
  | 0x1A => .drop
  | 0x1B => .select
  | 0x20 => .localGet
  | 0x21 => .localSet
  | 0x22 => .localTee
  | 0x23 => .globalGet
  | 0x24 => .globalSet
  | 0x3F => .memorySize
  | 0x40 => .memoryGrow
  | 0x41 => .i32Const
  | 0x42 => .i64Const
  | 0x43 => .floatConst 4
  | 0x44 => .floatConst 8
  -- the bits of a reinterpretation are already right
  | 0xBD | 0xBE | 0xBF => .nop
  | 0xFC => .bulk
  | _ => decodeRest F op

end WasmOs
