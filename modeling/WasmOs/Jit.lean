import WasmOs.Sections
import WasmOs.X86

/-!
# The JIT compiler

`CodeBuf` appends bytes until its slice is full and drops the rest. `jitCompileBody` translates a
straight-line body in one pass, with the WASM operand stack on the machine stack and the locals in a
buffer of the caller at `[r13]`.
-/

namespace WasmOs

open X86 (Reg)

/-! ## The emitter -/

/-- A write cursor over a slice of `cap` bytes: the bytes written so far. -/
structure CodeBuf where
  cap : Nat
  bytes : List UInt8
  within : bytes.length ≤ cap

def CodeBuf.new (cap : Nat) : CodeBuf := ⟨cap, [], Nat.zero_le cap⟩

/-- A byte past the end is ignored. -/
def CodeBuf.emitU8 (buf : CodeBuf) (b : UInt8) : CodeBuf :=
  if h : buf.bytes.length < buf.cap then
    { cap := buf.cap, bytes := buf.bytes ++ [b],
      within := by simp only [List.length_append, List.length_singleton]; omega }
  else buf

def CodeBuf.emit (buf : CodeBuf) (bs : List UInt8) : CodeBuf := bs.foldl CodeBuf.emitU8 buf

/-- Low three bits of the register number. -/
def enc (r : Reg) : UInt8 := UInt8.ofNat (r.num % 8)

def needsRex (r : Reg) : Bool := 8 ≤ r.num

def emitU32 (v : BitVec 32) : List UInt8 := leBytes v.toNat 4

def emitU64 (v : BitVec 64) : List UInt8 := leBytes v.toNat 8

def emitRexRr (reg rm : Reg) : List UInt8 :=
  [0x48 ||| (if needsRex reg then 0x04 else 0) ||| (if needsRex rm then 0x01 else 0)]

def emitModrmRr (reg rm : Reg) : List UInt8 := [(0xC0 : UInt8) ||| (enc reg <<< 3) ||| enc rm]

/-- `mov dst, src` -/
def emitMovRr (dst src : Reg) : List UInt8 := emitRexRr src dst ++ 0x89 :: emitModrmRr src dst

/-- `mov dst, imm64` -/
def emitMovRi64 (dst : Reg) (imm : BitVec 64) : List UInt8 :=
  (if needsRex dst then 0x49 else 0x48) :: (0xB8 ||| enc dst) :: emitU64 imm

/-- `mov dst, imm32`, zero-extended -/
def emitMovRi32 (dst : Reg) (imm : BitVec 32) : List UInt8 :=
  (if needsRex dst then [0x41] else []) ++ (0xB8 ||| enc dst) :: emitU32 imm

/-- An opcode with the register in its low bits, after REX.B if needed. -/
def emitShort (op : UInt8) (r : Reg) : List UInt8 := (if needsRex r then [0x41] else []) ++ [op ||| enc r]

def emitPush (r : Reg) : List UInt8 := emitShort 0x50 r

def emitPop (r : Reg) : List UInt8 := emitShort 0x58 r

/-- A 64-bit operation `dst op= src` with its opcode bytes. -/
def emitOpRr (op : List UInt8) (dst src : Reg) : List UInt8 := emitRexRr dst src ++ op ++ emitModrmRr dst src

def emitAddRr (dst src : Reg) : List UInt8 := emitOpRr [0x03] dst src
def emitSubRr (dst src : Reg) : List UInt8 := emitOpRr [0x2B] dst src
def emitAndRr (dst src : Reg) : List UInt8 := emitOpRr [0x23] dst src
def emitOrRr (dst src : Reg) : List UInt8 := emitOpRr [0x0B] dst src
def emitXorRr (dst src : Reg) : List UInt8 := emitOpRr [0x33] dst src
def emitImulRr (dst src : Reg) : List UInt8 := emitOpRr [0x0F, 0xAF] dst src

/-- `[base + offset]` with the shortest displacement. -/
def emitMemModrm (reg base : Reg) (offset : BitVec 32) : List UInt8 :=
  if offset = 0 ∧ enc base ≠ 5 then [(0x00 : UInt8) ||| (enc reg <<< 3) ||| enc base]
  else if -128 ≤ offset.toInt ∧ offset.toInt ≤ 127 then
    [(0x40 : UInt8) ||| (enc reg <<< 3) ||| enc base, UInt8.ofNat (offset.toNat % 256)]
  else ((0x80 : UInt8) ||| (enc reg <<< 3) ||| enc base) :: emitU32 offset

/-- `mov dst, [base + offset]` -/
def emitLoadMem (dst base : Reg) (offset : BitVec 32) : List UInt8 :=
  emitRexRr dst base ++ 0x8B :: emitMemModrm dst base offset

/-- `mov [base + offset], src` -/
def emitStoreMem (src base : Reg) (offset : BitVec 32) : List UInt8 :=
  emitRexRr src base ++ 0x89 :: emitMemModrm src base offset

/-- `add rsp, imm8` -/
def emitAddRspI8 (imm : UInt8) : List UInt8 := [0x48, 0x83, 0xC4, imm]

/-- `sub rsp, imm8` -/
def emitSubRspI8 (imm : UInt8) : List UInt8 := [0x48, 0x83, 0xEC, imm]

/-- A shift of `reg` by `cl`; `ext` is its ModRM byte for `rax`. -/
def emitShiftRcx (ext : UInt8) (reg : Reg) : List UInt8 := emitRexRr .rcx reg ++ [0xD3, ext ||| enc reg]

def emitSarRcx (reg : Reg) : List UInt8 := emitShiftRcx 0xF8 reg
def emitShlRcx (reg : Reg) : List UInt8 := emitShiftRcx 0xE0 reg
def emitShrRcx (reg : Reg) : List UInt8 := emitShiftRcx 0xE8 reg

def emitRet : List UInt8 := [0xC3]

def emitPrologue : List UInt8 :=
  emitPush .rbp ++ emitMovRr .rbp .rsp ++ emitPush .rbx ++ emitPush .r12 ++ emitPush .r13 ++ emitPush .r14 ++
    emitPush .r15 ++ emitSubRspI8 8

def emitEpilogue : List UInt8 :=
  emitAddRspI8 8 ++ emitPop .r15 ++ emitPop .r14 ++ emitPop .r13 ++ emitPop .r12 ++ emitPop .rbx ++
    emitPop .rbp ++ emitRet

/-! ## The compiler -/

/-- The entry sequence: saved registers, then memory, globals and locals base and the operand-stack base. -/
def emitEntry : List UInt8 :=
  emitPrologue ++ emitMovRr .r15 .rdi ++ emitMovRr .r14 .rsi ++ emitMovRr .r13 .rdx ++ emitMovRr .r12 .rsp

/-- The result to RAX, the operand stack unwound, the epilogue. -/
def emitReturn (resultCount : Nat) : List UInt8 :=
  (if 0 < resultCount then emitPop .rax else []) ++ emitMovRr .rsp .r12 ++
    (if resultCount = 0 then emitMovRi32 .rax 0 else []) ++ emitEpilogue

/-- `(idx as usize).wrapping_mul(8) as i32` -/
def localOffset (idx : Nat) : BitVec 32 := BitVec.ofNat 32 (idx * 8)

/-- The binary i32 opcodes that are compiled. -/
inductive JitBin where
  | add | sub | mul | and | or | xor | shl | shrS | shrU
  deriving DecidableEq, Repr

def JitBin.ofOpcode (op : UInt8) : Option JitBin :=
  match op.toNat with
  | 0x6A => some .add
  | 0x6B => some .sub
  | 0x6C => some .mul
  | 0x71 => some .and
  | 0x72 => some .or
  | 0x73 => some .xor
  | 0x74 => some .shl
  | 0x75 => some .shrS
  | 0x76 => some .shrU
  | _ => none

/-- The instruction of a binary opcode on RAX and RCX. -/
def JitBin.emit : JitBin → List UInt8
  | .add => emitAddRr .rax .rcx
  | .sub => emitSubRr .rax .rcx
  | .mul => emitImulRr .rax .rcx
  | .and => emitAndRr .rax .rcx
  | .or => emitOrRr .rax .rcx
  | .xor => emitXorRr .rax .rcx
  | .shl => emitShlRcx .rax
  | .shrS => emitSarRcx .rax
  | .shrU => emitShrRcx .rax

-- `ip` grows in every round, so `body.length` rounds leave the body.
def jitCompileBody.loop (body : List UInt8) (resultCount : Nat) : Nat → Nat → CodeBuf → Option CodeBuf
  | 0, _, buf => some (buf.emit (emitReturn resultCount))
  | fuel + 1, ip, buf =>
    match body[ip]? with
    -- fell off the end without `end`
    | none => some (buf.emit (emitReturn resultCount))
    | some op =>
      if op = 0x41 then do
        let (val, sz) ← readI32Leb128 (body.drop (ip + 1))
        jitCompileBody.loop body resultCount fuel (ip + 1 + sz)
          ((buf.emit (emitMovRi64 .rax (val.signExtend 64))).emit (emitPush .rax))
      else if op = 0x42 then do
        let (val, sz) ← readI64Leb128 (body.drop (ip + 1))
        jitCompileBody.loop body resultCount fuel (ip + 1 + sz)
          ((buf.emit (emitMovRi64 .rax val)).emit (emitPush .rax))
      else if op = 0x20 then do
        let (idx, sz) ← readU32Leb128 (body.drop (ip + 1))
        jitCompileBody.loop body resultCount fuel (ip + 1 + sz)
          ((buf.emit (emitLoadMem .rax .r13 (localOffset idx))).emit (emitPush .rax))
      else if op = 0x21 then do
        let (idx, sz) ← readU32Leb128 (body.drop (ip + 1))
        jitCompileBody.loop body resultCount fuel (ip + 1 + sz)
          ((buf.emit (emitPop .rax)).emit (emitStoreMem .rax .r13 (localOffset idx)))
      else if op = 0x22 then do
        let (idx, sz) ← readU32Leb128 (body.drop (ip + 1))
        jitCompileBody.loop body resultCount fuel (ip + 1 + sz)
          (((buf.emit (emitPop .rax)).emit (emitPush .rax)).emit (emitStoreMem .rax .r13 (localOffset idx)))
      else if op = 0x1A then jitCompileBody.loop body resultCount fuel (ip + 1) (buf.emit (emitAddRspI8 8))
      else if op = 0x0F then some (buf.emit (emitReturn resultCount))
      else if op = 0x0B then
        -- only the `end` of the function is compiled
        if ip + 1 = body.length then some (buf.emit (emitReturn resultCount)) else none
      else if op = 0x01 then jitCompileBody.loop body resultCount fuel (ip + 1) buf
      else do
        let b ← JitBin.ofOpcode op
        jitCompileBody.loop body resultCount fuel (ip + 1)
          ((((buf.emit (emitPop .rcx)).emit (emitPop .rax)).emit b.emit).emit (emitPush .rax))

/-- The code for a function body in a buffer of `cap` bytes; `none` if the body is not compiled. -/
def jitCompileBody (body : List UInt8) (_localsCount resultCount cap : Nat) : Option (List UInt8) :=
  if 1 < resultCount then none else
  (jitCompileBody.loop body resultCount body.length 0 ((CodeBuf.new cap).emit emitEntry)).map CodeBuf.bytes

/-- `MAX_FN_BYTES` of `compile_jit`. -/
def MAX_FN_BYTES : Nat := 4096

end WasmOs
