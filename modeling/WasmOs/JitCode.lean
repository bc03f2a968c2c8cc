import WasmOs.Jit

/-!
# What the compiler emits

The code of a body as a list of instructions. A body is first read as a list of operations
(`jitOps`); the compiled code is the entry sequence, the code of every operation and the return
sequence, cut off at the end of the buffer.
-/

namespace WasmOs

open X86 (Reg Instr Encodes)

structure Emitted where
  bytes : List UInt8
  instr : Instr
  enc : Encodes bytes instr

def codeBytes (es : List Emitted) : List UInt8 := es.flatMap Emitted.bytes

theorem codeBytes_nil : codeBytes [] = [] := rfl

theorem codeBytes_cons (e : Emitted) (es : List Emitted) : codeBytes (e :: es) = e.bytes ++ codeBytes es := rfl

theorem codeBytes_append (es fs : List Emitted) : codeBytes (es ++ fs) = codeBytes es ++ codeBytes fs :=
  List.flatMap_append ..

/-! ## Encodings -/

theorem le_leBytes : ∀ (n v : Nat) (rest : List UInt8), X86.le n (leBytes v n ++ rest) = some (v % 256 ^ n, rest)
  | 0, v, rest => by simp [X86.le, leBytes, Nat.mod_one]; rfl
  | n + 1, v, rest => by
    have hbyte : (UInt8.ofNat (v % 256)).toNat = v % 256 := by simp
    show (X86.le n (leBytes (v / 256) n ++ rest)).bind
      (fun p => some ((UInt8.ofNat (v % 256)).toNat + 256 * p.1, p.2)) = _
    rw [le_leBytes n, hbyte, Option.bind_some, Nat.pow_succ, Nat.mul_comm (256 ^ n) 256, Nat.mod_mul]

section
variable {bs rest : List UInt8} {v : Nat}

theorem decode_rex {b : UInt8} (h : 0x40 ≤ b.toNat ∧ b.toNat < 0x50) (op : UInt8) :
    X86.decode (b :: op :: bs) = X86.decodeOp (.ofByte b.toNat) op.toNat bs := by
  unfold X86.decode
  rw [X86.bind_apply, X86.byte_cons, Option.bind_some, if_pos h, X86.bind_apply, X86.byte_cons, Option.bind_some]

theorem decode_plain {op : UInt8} (h : ¬ (0x40 ≤ op.toNat ∧ op.toNat < 0x50)) :
    X86.decode (op :: bs) = X86.decodeOp .none op.toNat bs := by
  unfold X86.decode
  rw [X86.bind_apply, X86.byte_cons, Option.bind_some, if_neg h]

theorem decode_movImm64 (h : X86.le 8 bs = some (v, rest)) :
    X86.decode (0x48 :: 0xB8 :: bs) = some (.movImm .rax (BitVec.ofNat 64 v), rest) := by
  have hw : (X86.Rex.ofByte 0x48).w = true := rfl
  rw [decode_rex (by decide)]
  show X86.decodeOp (.ofByte 0x48) 0xB8 bs = _
  unfold X86.decodeOp
  rw [if_neg (by decide), if_neg (by decide), if_pos (by decide), if_pos hw, X86.bind_apply, h]
  rfl

theorem decode_movImm32 (h : X86.le 4 bs = some (v, rest)) :
    X86.decode (0xB8 :: bs) = some (.movImm .rax (BitVec.ofNat 64 v), rest) := by
  rw [decode_plain (by decide)]
  show X86.decodeOp .none 0xB8 bs = _
  unfold X86.decodeOp
  rw [if_neg (by decide), if_neg (by decide), if_pos (by decide), if_neg (by decide), X86.bind_apply, h]
  rfl

/-! `[r13 + d]` with one and with four bytes of displacement. -/

theorem base_r13 : X86.base (.ofByte 0x49) 5 = pure .r13 := rfl

theorem modrm64_r13 {n : Nat} {m : UInt8}
    (hm : X86.modrm (.ofByte 0x49) (m :: bs) = some ((0, .mem .r13 (X86.sext n v)), rest)) :
    X86.modrm64 (.ofByte 0x49) (m :: bs) = some ((.rax, .mem .r13 (X86.sext n v)), rest) := by
  have hw : (X86.Rex.ofByte 0x49).w = true := rfl
  unfold X86.modrm64
  rw [if_pos hw, X86.bind_apply, hm]
  rfl

theorem modrm_r13_8 (h : X86.le 1 bs = some (v, rest)) :
    X86.modrm64 (.ofByte 0x49) (0x45 :: bs) = some ((.rax, .mem .r13 (X86.sext 8 v)), rest) := by
  have hmod : (0x45 : UInt8).toNat / 64 = 1 := rfl
  have hreg : (0x45 : UInt8).toNat / 8 % 8 = 0 := rfl
  have hrm : (0x45 : UInt8).toNat % 8 = 5 := rfl
  refine modrm64_r13 ?_
  unfold X86.modrm
  rw [X86.bind_apply, X86.byte_cons, Option.bind_some]
  dsimp only
  rw [hmod, hreg, hrm]
  show (X86.base (.ofByte 0x49) 5 >>= fun b => X86.le 1 >>= fun d => pure (0, X86.RM.mem b (X86.sext 8 d))) bs = _
  rw [base_r13, pure_bind, X86.bind_apply, h]
  rfl

theorem modrm_r13_32 (h : X86.le 4 bs = some (v, rest)) :
    X86.modrm64 (.ofByte 0x49) (0x85 :: bs) = some ((.rax, .mem .r13 (X86.sext 32 v)), rest) := by
  have hmod : (0x85 : UInt8).toNat / 64 = 2 := rfl
  have hreg : (0x85 : UInt8).toNat / 8 % 8 = 0 := rfl
  have hrm : (0x85 : UInt8).toNat % 8 = 5 := rfl
  refine modrm64_r13 ?_
  unfold X86.modrm
  rw [X86.bind_apply, X86.byte_cons, Option.bind_some]
  dsimp only
  rw [hmod, hreg, hrm]
  show (X86.base (.ofByte 0x49) 5 >>= fun b => X86.le 4 >>= fun d => pure (0, X86.RM.mem b (X86.sext 32 d))) bs = _
  rw [base_r13, pure_bind, X86.bind_apply, h]
  rfl

theorem decode_load {r b : Reg} {d : BitVec 64} (h : X86.modrm64 (.ofByte 0x49) bs = some ((r, .mem b d), rest)) :
    X86.decode (0x49 :: 0x8B :: bs) = some (.load r b d, rest) := by
  rw [decode_rex (by decide)]
  show X86.decodeOp (.ofByte 0x49) 0x8B bs = _
  unfold X86.decodeOp
  rw [if_neg (by decide), if_neg (by decide), if_neg (by decide)]
  show (X86.modrm64 (.ofByte 0x49) bs).bind _ = _
  rw [h]
  rfl

theorem decode_store {r b : Reg} {d : BitVec 64} (h : X86.modrm64 (.ofByte 0x49) bs = some ((r, .mem b d), rest)) :
    X86.decode (0x49 :: 0x89 :: bs) = some (.store r b d, rest) := by
  rw [decode_rex (by decide)]
  show X86.decodeOp (.ofByte 0x49) 0x89 bs = _
  unfold X86.decodeOp
  rw [if_neg (by decide), if_neg (by decide), if_neg (by decide)]
  show (X86.modrm64 (.ofByte 0x49) bs).bind _ = _
  rw [h]
  rfl

end

theorem movRi64_encodes (imm : BitVec 64) : Encodes (emitMovRi64 .rax imm) (.movImm .rax imm) := by
  intro rest
  have h := decode_movImm64 (le_leBytes 8 imm.toNat rest)
  rw [Nat.mod_eq_of_lt (show imm.toNat < 256 ^ 8 from imm.isLt), BitVec.ofNat_toNat, BitVec.setWidth_eq] at h
  exact h

theorem movRi32_encodes : Encodes (emitMovRi32 .rax 0) (.movImm .rax 0) := by
  intro rest
  exact decode_movImm32 (le_leBytes 4 0 rest)

/-- A displacement that fits a byte is that byte, sign-extended. -/
theorem sext8_eq (offset : BitVec 32) (h : -128 ≤ offset.toInt ∧ offset.toInt ≤ 127) :
    X86.sext 8 (offset.toNat % 256) = offset.signExtend 64 := by
  have hlt := offset.isLt
  rw [X86.sext]
  apply BitVec.eq_of_toInt_eq
  rw [BitVec.toInt_signExtend_of_le (by omega), BitVec.toInt_signExtend_of_le (by omega)]
  rw [BitVec.toInt_eq_toNat_cond] at h ⊢
  rw [BitVec.toInt_eq_toNat_cond, BitVec.toNat_ofNat]
  split at h <;> split <;> omega

theorem mem_r13 (offset : BitVec 32) (rest : List UInt8) :
    X86.modrm64 (.ofByte 0x49) (emitMemModrm .rax .r13 offset ++ rest) =
      some ((.rax, .mem .r13 (offset.signExtend 64)), rest) := by
  unfold emitMemModrm
  rw [if_neg (by simp [enc, Reg.num])]
  split
  · rename_i h
    rw [← sext8_eq offset h]
    have h1 := le_leBytes 1 (offset.toNat % 256) rest
    rw [Nat.pow_one, Nat.mod_mod, leBytes, leBytes, Nat.mod_mod] at h1
    exact modrm_r13_8 h1
  · have h4 := le_leBytes 4 offset.toNat rest
    rw [Nat.mod_eq_of_lt (show offset.toNat < 256 ^ 4 from offset.isLt)] at h4
    have := modrm_r13_32 h4
    rwa [X86.sext, BitVec.ofNat_toNat, BitVec.setWidth_eq] at this

theorem loadMem_encodes (offset : BitVec 32) :
    Encodes (emitLoadMem .rax .r13 offset) (.load .rax .r13 (offset.signExtend 64)) :=
  fun rest => decode_load (mem_r13 offset rest)

theorem storeMem_encodes (offset : BitVec 32) :
    Encodes (emitStoreMem .rax .r13 offset) (.store .rax .r13 (offset.signExtend 64)) :=
  fun rest => decode_store (mem_r13 offset rest)

/-! ## Operations -/

def JitBin.instr : JitBin → Instr
  | .add => .alu .add .rax .rcx
  | .sub => .alu .sub .rax .rcx
  | .mul => .alu .imul .rax .rcx
  | .and => .alu .and .rax .rcx
  | .or => .alu .or .rax .rcx
  | .xor => .alu .xor .rax .rcx
  | .shl => .shift .shl .rax
  | .shrS => .shift .sar .rax
  | .shrU => .shift .shr .rax

def JitBin.emitted (b : JitBin) : Emitted := ⟨b.emit, b.instr, fun _ => by cases b <;> rfl⟩

/-- What the compiler translates, one operation of the body at a time. -/
inductive JitOp where
  | const (v : BitVec 64)
  | localGet (idx : Nat)
  | localSet (idx : Nat)
  | localTee (idx : Nat)
  | bin (op : JitBin)
  | drop
  | nop

def pushRax : Emitted := ⟨emitPush .rax, .push .rax, fun _ => rfl⟩
def popRax : Emitted := ⟨emitPop .rax, .pop .rax, fun _ => rfl⟩
def popRcx : Emitted := ⟨emitPop .rcx, .pop .rcx, fun _ => rfl⟩

def loadLocal (idx : Nat) : Emitted := ⟨_, _, loadMem_encodes (localOffset idx)⟩
def storeLocal (idx : Nat) : Emitted := ⟨_, _, storeMem_encodes (localOffset idx)⟩

def JitOp.code : JitOp → List Emitted
  | .const v => [⟨_, _, movRi64_encodes v⟩, pushRax]
  | .localGet idx => [loadLocal idx, pushRax]
  | .localSet idx => [popRax, storeLocal idx]
  | .localTee idx => [popRax, pushRax, storeLocal idx]
  | .bin op => [popRcx, popRax, op.emitted, pushRax]
  | .drop => [⟨emitAddRspI8 8, .addImm .rsp 8, fun _ => rfl⟩]
  | .nop => []

def entryCode : List Emitted :=
  [⟨emitPush .rbp, .push .rbp, fun _ => rfl⟩, ⟨emitMovRr .rbp .rsp, .mov .rbp .rsp, fun _ => rfl⟩,
    ⟨emitPush .rbx, .push .rbx, fun _ => rfl⟩, ⟨emitPush .r12, .push .r12, fun _ => rfl⟩,
    ⟨emitPush .r13, .push .r13, fun _ => rfl⟩, ⟨emitPush .r14, .push .r14, fun _ => rfl⟩,
    ⟨emitPush .r15, .push .r15, fun _ => rfl⟩, ⟨emitSubRspI8 8, .subImm .rsp 8, fun _ => rfl⟩,
    ⟨emitMovRr .r15 .rdi, .mov .r15 .rdi, fun _ => rfl⟩, ⟨emitMovRr .r14 .rsi, .mov .r14 .rsi, fun _ => rfl⟩,
    ⟨emitMovRr .r13 .rdx, .mov .r13 .rdx, fun _ => rfl⟩, ⟨emitMovRr .r12 .rsp, .mov .r12 .rsp, fun _ => rfl⟩]

/-- The epilogue, `ret` excepted. -/
def restoreCode : List Emitted :=
  [⟨emitAddRspI8 8, .addImm .rsp 8, fun _ => rfl⟩, ⟨emitPop .r15, .pop .r15, fun _ => rfl⟩,
    ⟨emitPop .r14, .pop .r14, fun _ => rfl⟩, ⟨emitPop .r13, .pop .r13, fun _ => rfl⟩,
    ⟨emitPop .r12, .pop .r12, fun _ => rfl⟩, ⟨emitPop .rbx, .pop .rbx, fun _ => rfl⟩,
    ⟨emitPop .rbp, .pop .rbp, fun _ => rfl⟩]

def unwind : Emitted := ⟨emitMovRr .rsp .r12, .mov .rsp .r12, fun _ => rfl⟩
def clearRax : Emitted := ⟨emitMovRi32 .rax 0, .movImm .rax 0, movRi32_encodes⟩

/-- Everything after the last operation, `ret` excepted. -/
def exitCode (resultCount : Nat) : List Emitted :=
  (if 0 < resultCount then [popRax, unwind] else [unwind, clearRax]) ++ restoreCode

/-- The operations of a body up to its first `return`, its final `end` or its last byte; `none` if one
of them is not supported. -/
def jitOps.loop (body : List UInt8) : Nat → Nat → Option (List JitOp)
  | 0, _ => some []
  | fuel + 1, ip =>
    match body[ip]? with
    | none => some []
    | some op =>
      if op = 0x41 then do
        let (val, sz) ← readI32Leb128 (body.drop (ip + 1))
        (jitOps.loop body fuel (ip + 1 + sz)).map (.const (val.signExtend 64) :: ·)
      else if op = 0x42 then do
        let (val, sz) ← readI64Leb128 (body.drop (ip + 1))
        (jitOps.loop body fuel (ip + 1 + sz)).map (.const val :: ·)
      else if op = 0x20 then do
        let (idx, sz) ← readU32Leb128 (body.drop (ip + 1))
        (jitOps.loop body fuel (ip + 1 + sz)).map (.localGet idx :: ·)
      else if op = 0x21 then do
        let (idx, sz) ← readU32Leb128 (body.drop (ip + 1))
        (jitOps.loop body fuel (ip + 1 + sz)).map (.localSet idx :: ·)
      else if op = 0x22 then do
        let (idx, sz) ← readU32Leb128 (body.drop (ip + 1))
        (jitOps.loop body fuel (ip + 1 + sz)).map (.localTee idx :: ·)
      else if op = 0x1A then (jitOps.loop body fuel (ip + 1)).map (.drop :: ·)
      else if op = 0x0F then some []
      else if op = 0x0B then if ip + 1 = body.length then some [] else none
      else if op = 0x01 then (jitOps.loop body fuel (ip + 1)).map (.nop :: ·)
      else do
        let b ← JitBin.ofOpcode op
        (jitOps.loop body fuel (ip + 1)).map (.bin b :: ·)

def jitOps (body : List UInt8) : Option (List JitOp) := jitOps.loop body body.length 0

/-- The whole code of a list of operations, `ret` excepted. -/
def opsCode (ops : List JitOp) (resultCount : Nat) : List Emitted :=
  entryCode ++ (ops.flatMap JitOp.code ++ exitCode resultCount)

/-! ## The buffer -/

theorem emit_append (buf : CodeBuf) (a b : List UInt8) : (buf.emit a).emit b = buf.emit (a ++ b) :=
  (List.foldl_append ..).symm

/-- The buffer keeps the first `cap` bytes. -/
theorem emit_bytes (bs : List UInt8) : ∀ buf : CodeBuf, (buf.emit bs).bytes = (buf.bytes ++ bs).take buf.cap := by
  induction bs with
  | nil => intro buf; simp [CodeBuf.emit, List.take_of_length_le buf.within]
  | cons b bs ih =>
    intro buf
    show ((buf.emitU8 b).emit bs).bytes = _
    rw [ih, CodeBuf.emitU8]
    split
    · simp
    · have : buf.bytes.length = buf.cap := by have := buf.within; omega
      rw [List.take_append_of_le_length (by omega), List.take_append_of_le_length (by omega)]

theorem emitReturn_eq (resultCount : Nat) :
    emitReturn resultCount = codeBytes (exitCode resultCount) ++ emitRet := by
  unfold emitReturn exitCode
  by_cases h : 0 < resultCount
  · rw [if_pos h, if_neg (by omega), if_pos h]; rfl
  · rw [if_neg h, if_pos (by omega), if_neg h]; rfl

theorem jit_loop_eq {body : List UInt8} {rc : Nat} : ∀ (fuel ip : Nat) (buf : CodeBuf),
    jitCompileBody.loop body rc fuel ip buf =
      (jitOps.loop body fuel ip).map fun ops => buf.emit (codeBytes (ops.flatMap JitOp.code) ++ emitReturn rc)
  | 0, _, _ => rfl
  | fuel + 1, ip, buf => by
    -- the code of one operation, then the rest
    have hcons : ∀ (op : JitOp) (i : Nat) (bs : List UInt8), bs = codeBytes op.code →
        jitCompileBody.loop body rc fuel i (buf.emit bs) =
          ((jitOps.loop body fuel i).map (op :: ·)).map
            fun ops => buf.emit (codeBytes (ops.flatMap JitOp.code) ++ emitReturn rc) := by
      rintro op i bs rfl
      rw [jit_loop_eq fuel i, Option.map_map]
      congr 1
      funext ops
      simp only [Function.comp_apply, List.flatMap_cons, codeBytes, List.flatMap_append, emit_append,
        List.append_assoc]
    unfold jitCompileBody.loop jitOps.loop
    cases body[ip]? with
    | none => rfl
    | some op =>
      simp only [emit_append]
      by_cases h41 : op = 0x41
      · rw [if_pos h41, if_pos h41]
        cases readI32Leb128 (body.drop (ip + 1)) with
        | none => rfl
        | some p =>
          exact hcons _ _ _ (by simp only [JitOp.code, codeBytes_cons, codeBytes_nil, List.append_nil]; rfl)
      rw [if_neg h41, if_neg h41]
      by_cases h42 : op = 0x42
      · rw [if_pos h42, if_pos h42]
        cases readI64Leb128 (body.drop (ip + 1)) with
        | none => rfl
        | some p =>
          exact hcons _ _ _ (by simp only [JitOp.code, codeBytes_cons, codeBytes_nil, List.append_nil]; rfl)
      rw [if_neg h42, if_neg h42]
      by_cases h20 : op = 0x20
      · rw [if_pos h20, if_pos h20]
        cases readU32Leb128 (body.drop (ip + 1)) with
        | none => rfl
        | some p =>
          exact hcons _ _ _ (by simp only [JitOp.code, codeBytes_cons, codeBytes_nil, List.append_nil]; rfl)
      rw [if_neg h20, if_neg h20]
      by_cases h21 : op = 0x21
      · rw [if_pos h21, if_pos h21]
        cases readU32Leb128 (body.drop (ip + 1)) with
        | none => rfl
        | some p =>
          exact hcons _ _ _ (by simp only [JitOp.code, codeBytes_cons, codeBytes_nil, List.append_nil]; rfl)
      rw [if_neg h21, if_neg h21]
      by_cases h22 : op = 0x22
      · rw [if_pos h22, if_pos h22]
        cases readU32Leb128 (body.drop (ip + 1)) with
        | none => rfl
        | some p =>
          exact hcons _ _ _ (by
            simp only [JitOp.code, codeBytes_cons, codeBytes_nil, List.append_nil, List.append_assoc]; rfl)
      rw [if_neg h22, if_neg h22]
      by_cases h1A : op = 0x1A
      · rw [if_pos h1A, if_pos h1A]
        exact hcons .drop _ _ rfl
      rw [if_neg h1A, if_neg h1A]
      by_cases h0F : op = 0x0F
      · rw [if_pos h0F, if_pos h0F]; rfl
      rw [if_neg h0F, if_neg h0F]
      by_cases h0B : op = 0x0B
      · rw [if_pos h0B, if_pos h0B]
        split <;> rfl
      rw [if_neg h0B, if_neg h0B]
      by_cases h01 : op = 0x01
      · rw [if_pos h01, if_pos h01]
        exact hcons .nop _ [] rfl
      rw [if_neg h01, if_neg h01]
      cases JitBin.ofOpcode op with
      | none => rfl
      | some b =>
        exact hcons (.bin b) _ _
          (by simp only [JitOp.code, codeBytes_cons, codeBytes_nil, List.append_nil, List.append_assoc]; rfl)

/-- The code of a body is that of its operations, cut off at the end of the buffer. -/
theorem jitCompileBody_eq (body : List UInt8) (lc rc cap : Nat) : jitCompileBody body lc rc cap =
    if 1 < rc then none
    else (jitOps body).map fun ops => (codeBytes (opsCode ops rc) ++ emitRet).take cap := by
  unfold jitCompileBody
  split
  · rfl
  rw [jit_loop_eq, Option.map_map]
  congr 1
  funext ops
  simp only [Function.comp_apply, emit_append, emit_bytes, emitReturn_eq]
  show ((CodeBuf.new cap).bytes ++ _).take cap = _
  congr 1
  simp only [CodeBuf.new, opsCode, codeBytes, List.flatMap_append, List.append_assoc, List.nil_append]
  rfl

end WasmOs
