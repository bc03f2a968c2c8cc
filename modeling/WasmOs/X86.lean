import Mathlib.Algebra.Group.Int.Defs
import Mathlib.Algebra.GroupWithZero.Nat
import Mathlib.Tactic.Common

/-!
# A subset of x86-64

Straight-line 64-bit code: register moves, the stack, two-operand arithmetic, shifts by `cl` and
8-byte loads and stores with a base register. The decoder reads REX prefix, opcode, ModRM, SIB and
displacement of the encodings in the subset and fails on everything else. Memory is bytes, addresses
wrap, and code is not part of memory.
-/

namespace X86

inductive Reg where
  | rax | rcx | rdx | rbx | rsp | rbp | rsi | rdi | r8 | r9 | r10 | r11 | r12 | r13 | r14 | r15
  deriving DecidableEq, Repr

def Reg.num : Reg → Nat
  | .rax => 0 | .rcx => 1 | .rdx => 2 | .rbx => 3 | .rsp => 4 | .rbp => 5 | .rsi => 6 | .rdi => 7
  | .r8 => 8 | .r9 => 9 | .r10 => 10 | .r11 => 11 | .r12 => 12 | .r13 => 13 | .r14 => 14 | .r15 => 15

def Reg.ofNum : Nat → Reg
  | 0 => .rax | 1 => .rcx | 2 => .rdx | 3 => .rbx | 4 => .rsp | 5 => .rbp | 6 => .rsi | 7 => .rdi
  | 8 => .r8 | 9 => .r9 | 10 => .r10 | 11 => .r11 | 12 => .r12 | 13 => .r13 | 14 => .r14 | _ => .r15

inductive AluOp where
  | add | sub | and | or | xor | imul
  deriving DecidableEq, Repr

inductive ShiftOp where
  | shl | shr | sar
  deriving DecidableEq, Repr

inductive Instr where
  | mov (dst src : Reg)
  | movImm (dst : Reg) (imm : BitVec 64)
  | push (r : Reg)
  | pop (r : Reg)
  | alu (op : AluOp) (dst src : Reg)
  | addImm (dst : Reg) (imm : BitVec 64)
  | subImm (dst : Reg) (imm : BitVec 64)
  | shift (op : ShiftOp) (r : Reg)
  | load (dst base : Reg) (disp : BitVec 64)
  | store (src base : Reg) (disp : BitVec 64)
  | ret
  deriving DecidableEq, Repr

/-! ## Decoding -/

abbrev Dec := StateT (List UInt8) Option

def byte : Dec UInt8 := fun bs =>
  match bs with
  | [] => none
  | b :: bs => some (b, bs)

def fail {α : Type} : Dec α := fun _ => none

/-- `n` bytes, least significant first. -/
def le : Nat → Dec Nat
  | 0 => pure 0
  | n + 1 => do
    let b ← byte
    let v ← le n
    pure (b.toNat + 256 * v)

/-- The value of a number of `n` bits, sign-extended to 64. -/
def sext (n v : Nat) : BitVec 64 := (BitVec.ofNat n v).signExtend 64

/-- The REX prefix: operand size and the high bits of the register fields. -/
structure Rex where
  w : Bool
  r : Nat
  b : Nat

def Rex.none : Rex := ⟨false, 0, 0⟩

/-- `0100WRXB`; an index register is outside the subset, so `X` is not kept. -/
def Rex.ofByte (p : Nat) : Rex := ⟨p / 8 % 2 = 1, p / 4 % 2 * 8, p % 2 * 8⟩

inductive RM where
  | reg (r : Reg)
  | mem (base : Reg) (disp : BitVec 64)

/-- The base register of a memory operand: `rm = 4` announces a SIB byte, of which only the form
without index is in the subset. -/
def base (rex : Rex) (rm : Nat) : Dec Reg :=
  if rm = 4 then do
    let sib ← byte
    if sib.toNat / 8 % 8 = 4 then pure (.ofNum (rex.b + sib.toNat % 8)) else fail
  else pure (.ofNum (rex.b + rm))

/-- ModRM with what follows it: the `reg` field and the `r/m` operand. -/
def modrm (rex : Rex) : Dec (Nat × RM) := do
  let m ← byte
  let reg := m.toNat / 8 % 8
  let rm := m.toNat % 8
  match m.toNat / 64 with
  | 3 => pure (reg, .reg (.ofNum (rex.b + rm)))
  | 0 =>
    -- `rm = 5` and a SIB base of 5 mean other addressing modes here
    if rm = 5 then fail else do
    let b ← base rex rm
    if b = .rbp ∨ b = .r13 then fail else pure (reg, .mem b 0)
  | 1 => do
    let b ← base rex rm
    let d ← le 1
    pure (reg, .mem b (sext 8 d))
  | _ => do
    let b ← base rex rm
    let d ← le 4
    pure (reg, .mem b (sext 32 d))

/-- The register of `reg` and the operand of a 64-bit instruction. -/
def modrm64 (rex : Rex) : Dec (Reg × RM) :=
  if rex.w then do
    let (reg, rm) ← modrm rex
    pure (.ofNum (rex.r + reg), rm)
  else fail

def rmReg : RM → Dec Reg
  | .reg r => pure r
  | .mem _ _ => fail

def aluOf (op : AluOp) (rex : Rex) : Dec Instr := do
  let (dst, rm) ← modrm64 rex
  let src ← rmReg rm
  pure (.alu op dst src)

def decodeOp (rex : Rex) (op : Nat) : Dec Instr :=
  if 0x50 ≤ op ∧ op < 0x58 then pure (.push (.ofNum (rex.b + (op - 0x50))))
  else if 0x58 ≤ op ∧ op < 0x60 then pure (.pop (.ofNum (rex.b + (op - 0x58))))
  else if 0xB8 ≤ op ∧ op < 0xC0 then
    if rex.w then do
      let v ← le 8
      pure (.movImm (.ofNum (rex.b + (op - 0xB8))) (BitVec.ofNat 64 v))
    else do
      let v ← le 4
      pure (.movImm (.ofNum (rex.b + (op - 0xB8))) (BitVec.ofNat 64 v))
  else match op with
  | 0x89 => do
    let (r, rm) ← modrm64 rex
    match rm with
    | .reg dst => pure (.mov dst r)
    | .mem b d => pure (.store r b d)
  | 0x8B => do
    let (r, rm) ← modrm64 rex
    match rm with
    | .reg src => pure (.mov r src)
    | .mem b d => pure (.load r b d)
  | 0x03 => aluOf .add rex
  | 0x2B => aluOf .sub rex
  | 0x23 => aluOf .and rex
  | 0x0B => aluOf .or rex
  | 0x33 => aluOf .xor rex
  | 0x0F => do
    let op2 ← byte
    if op2 = 0xAF then aluOf .imul rex else fail
  | 0x83 =>
    if rex.w then do
      let (ext, rm) ← modrm rex
      let dst ← rmReg rm
      let i ← le 1
      match ext with
      | 0 => pure (.addImm dst (sext 8 i))
      | 5 => pure (.subImm dst (sext 8 i))
      | _ => fail
    else fail
  | 0xD3 =>
    if rex.w then do
      let (ext, rm) ← modrm rex
      let dst ← rmReg rm
      match ext with
      | 4 => pure (.shift .shl dst)
      | 5 => pure (.shift .shr dst)
      | 7 => pure (.shift .sar dst)
      | _ => fail
    else fail
  | 0xC3 => pure .ret
  | _ => fail

def decode : Dec Instr := do
  let b ← byte
  if 0x40 ≤ b.toNat ∧ b.toNat < 0x50 then do
    let op ← byte
    decodeOp (.ofByte b.toNat) op.toNat
  else decodeOp .none b.toNat

theorem bind_apply {α β : Type} (p : Dec α) (f : α → Dec β) (bs : List UInt8) :
    (p >>= f) bs = (p bs).bind fun q => f q.1 q.2 := rfl

theorem byte_cons (b : UInt8) (bs : List UInt8) : byte (b :: bs) = some (b, bs) := rfl

/-! ## A decoder reads a prefix of its input

What it read decides the result, whatever follows. -/

def Stable {α : Type} (p : Dec α) : Prop :=
  ∀ bs a rest, p bs = some (a, rest) → ∃ pre, bs = pre ++ rest ∧ ∀ rest', p (pre ++ rest') = some (a, rest')

theorem Stable.pure {α : Type} (a : α) : Stable (pure a : Dec α) := by
  intro bs a' rest h
  cases h
  exact ⟨[], rfl, fun _ => rfl⟩

theorem Stable.fail {α : Type} : Stable (fail : Dec α) := by
  intro bs a rest h
  cases h

theorem Stable.bind {α β : Type} {p : Dec α} {f : α → Dec β} (hp : Stable p) (hf : ∀ a, Stable (f a)) :
    Stable (p >>= f) := by
  intro bs b rest h
  obtain ⟨⟨a, mid⟩, ha, hb⟩ := Option.bind_eq_some_iff.mp h
  obtain ⟨pre, rfl, hpre⟩ := hp bs a mid ha
  obtain ⟨pre', rfl, hpre'⟩ := hf a mid b rest hb
  refine ⟨pre ++ pre', by rw [List.append_assoc], fun rest' => ?_⟩
  show (p ((pre ++ pre') ++ rest')).bind (fun x => f x.1 x.2) = _
  rw [List.append_assoc, hpre]
  exact hpre' rest'

theorem Stable.byte : Stable byte := by
  intro bs b rest h
  cases bs with
  | nil => cases h
  | cons c bs => cases h; exact ⟨[b], rfl, fun _ => rfl⟩

theorem Stable.le : ∀ n, Stable (le n)
  | 0 => .pure 0
  | n + 1 => .bind .byte fun _ => .bind (Stable.le n) fun _ => .pure _

theorem Stable.ite {α : Type} {P : Prop} [Decidable P] {p q : Dec α} (hp : Stable p) (hq : Stable q) :
    Stable (if P then p else q) := by
  split
  · exact hp
  · exact hq

theorem Stable.base (rex : Rex) (rm : Nat) : Stable (base rex rm) :=
  .ite (.bind .byte fun _ => .ite (.pure _) .fail) (.pure _)

theorem Stable.modrm (rex : Rex) : Stable (modrm rex) := by
  refine .bind .byte fun m => ?_
  simp only
  split
  · exact .pure _
  · exact .ite .fail (.bind (.base _ _) fun _ => .ite .fail (.pure _))
  · exact .bind (.base _ _) fun _ => .bind (.le 1) fun _ => .pure _
  · exact .bind (.base _ _) fun _ => .bind (.le 4) fun _ => .pure _

theorem Stable.rmReg (rm : RM) : Stable (rmReg rm) := by
  cases rm with
  | reg r => exact .pure r
  | mem b d => exact .fail

theorem Stable.modrm64 (rex : Rex) : Stable (modrm64 rex) := .ite (.bind (.modrm rex) fun _ => .pure _) .fail

theorem Stable.aluOf (op : AluOp) (rex : Rex) : Stable (aluOf op rex) :=
  .bind (.modrm64 rex) fun _ => .bind (.rmReg _) fun _ => .pure _

theorem Stable.decodeOp (rex : Rex) (op : Nat) : Stable (decodeOp rex op) := by
  unfold X86.decodeOp
  refine .ite (.pure _) (.ite (.pure _) (.ite (.ite ?_ ?_) ?_))
  · exact .bind (.le 8) fun _ => .pure _
  · exact .bind (.le 4) fun _ => .pure _
  split
  · refine .bind (.modrm64 rex) fun ⟨r, rm⟩ => ?_
    cases rm <;> exact .pure _
  · refine .bind (.modrm64 rex) fun ⟨r, rm⟩ => ?_
    cases rm <;> exact .pure _
  · exact .aluOf _ _
  · exact .aluOf _ _
  · exact .aluOf _ _
  · exact .aluOf _ _
  · exact .aluOf _ _
  · exact .bind .byte fun _ => .ite (.aluOf _ _) .fail
  · refine .ite (.bind (.modrm rex) fun ⟨ext, rm⟩ => .bind (.rmReg rm) fun _ => .bind (.le 1) fun _ => ?_) .fail
    split
    · exact .pure _
    · exact .pure _
    · exact .fail
  · refine .ite (.bind (.modrm rex) fun ⟨ext, rm⟩ => .bind (.rmReg rm) fun _ => ?_) .fail
    split
    · exact .pure _
    · exact .pure _
    · exact .pure _
    · exact .fail
  · exact .pure _
  · exact .fail

theorem Stable.decode : Stable decode :=
  .bind .byte fun _ => .ite (.bind .byte fun _ => .decodeOp _ _) (.decodeOp _ _)

/-- `bs` encodes `i`: it decodes to `i`, whatever follows it. -/
def Encodes (bs : List UInt8) (i : Instr) : Prop := ∀ rest, decode (bs ++ rest) = some (i, rest)

theorem decode_cut {pre post : List UInt8} {i : Instr} (h : Encodes (pre ++ post) i) (hpost : post ≠ []) :
    decode pre = none := by
  cases hp : decode pre with
  | none => rfl
  | some p =>
    obtain ⟨pre', hpre, hrest⟩ := Stable.decode pre p.1 p.2 hp
    have h1 := hrest (p.2 ++ post)
    rw [← List.append_assoc, ← hpre] at h1
    have h2 := h []
    rw [List.append_nil, h1] at h2
    simp only [Option.some.injEq, Prod.mk.injEq, List.append_eq_nil_iff] at h2
    exact absurd h2.2.2 hpost

/-! ## Execution -/

structure Machine where
  regs : Reg → BitVec 64
  mem : BitVec 64 → UInt8

def Machine.set (m : Machine) (r : Reg) (v : BitVec 64) :
    Machine := { m with regs := fun q => if q = r then v else m.regs q }

/-- The 8 bytes at `a`. -/
def read64 (mem : BitVec 64 → UInt8) (a : BitVec 64) : BitVec 64 :=
  BitVec.ofNat 64 ((List.range 8).foldr (fun k v => (mem (a + BitVec.ofNat 64 k)).toNat + 256 * v) 0)

def write64 (mem : BitVec 64 → UInt8) (a v : BitVec 64) : BitVec 64 → UInt8 := fun b =>
  if (b - a).toNat < 8 then UInt8.ofNat (v.toNat / 256 ^ (b - a).toNat % 256) else mem b

def AluOp.eval : AluOp → BitVec 64 → BitVec 64 → BitVec 64
  | .add, x, y => x + y
  | .sub, x, y => x - y
  | .and, x, y => x &&& y
  | .or, x, y => x ||| y
  | .xor, x, y => x ^^^ y
  | .imul, x, y => x * y

/-- A 64-bit shift uses the low six bits of `cl`. -/
def ShiftOp.eval : ShiftOp → BitVec 64 → BitVec 64 → BitVec 64
  | .shl, x, c => x <<< (c.toNat % 64)
  | .shr, x, c => x >>> (c.toNat % 64)
  | .sar, x, c => x.sshiftRight (c.toNat % 64)

/-- The effect of an instruction; `ret` pops the return address, which the caller of `exec` reads. -/
def exec (i : Instr) (m : Machine) : Machine :=
  match i with
  | .mov dst src => m.set dst (m.regs src)
  | .movImm dst imm => m.set dst imm
  | .push r =>
    let a := m.regs .rsp - 8
    { (m.set .rsp a) with mem := write64 m.mem a (m.regs r) }
  | .pop r =>
    let v := read64 m.mem (m.regs .rsp)
    (m.set .rsp (m.regs .rsp + 8)).set r v
  | .alu op dst src => m.set dst (op.eval (m.regs dst) (m.regs src))
  | .addImm dst imm => m.set dst (m.regs dst + imm)
  | .subImm dst imm => m.set dst (m.regs dst - imm)
  | .shift op r => m.set r (op.eval (m.regs r) (m.regs .rcx))
  | .load dst b d => m.set dst (read64 m.mem (m.regs b + d))
  | .store src b d => { m with mem := write64 m.mem (m.regs b + d) (m.regs src) }
  | .ret => m.set .rsp (m.regs .rsp + 8)

/-- Run code to its `ret`; `none` if the code ends before. -/
def run : Nat → List UInt8 → Machine → Option Machine
  | 0, _, _ => none
  | fuel + 1, code, m =>
    match decode code with
    | none => none
    | some (i, rest) => if i = .ret then some (exec i m) else run fuel rest (exec i m)

theorem run_mono : ∀ {fuel k : Nat} {code : List UInt8} {m m' : Machine}, run fuel code m = some m' →
    run (fuel + k) code m = some m'
  | 0, _, _, _, _, h => by cases h
  | fuel + 1, k, code, m, m', h => by
    rw [Nat.add_right_comm, run]
    rw [run] at h
    cases hd : decode code with
    | none => rw [hd] at h; cases h
    | some p =>
      rw [hd] at h
      simp only at h ⊢
      split
      · rename_i hi; rwa [if_pos hi] at h
      · rename_i hi; rw [if_neg hi] at h; exact run_mono h

/-! ## Memory -/

/-- The 8 bytes at `a` are none of the 8 bytes at `w`. -/
def Apart (w a : BitVec 64) : Prop := ∀ k < 8, 8 ≤ (a + BitVec.ofNat 64 k - w).toNat

theorem read64_congr {mem mem' : BitVec 64 → UInt8} {a : BitVec 64}
    (h : ∀ k < 8, mem (a + BitVec.ofNat 64 k) = mem' (a + BitVec.ofNat 64 k)) : read64 mem a = read64 mem' a := by
  have hfold : ∀ ks : List Nat, (∀ k ∈ ks, k < 8) →
      ks.foldr (fun k v => (mem (a + BitVec.ofNat 64 k)).toNat + 256 * v) 0 =
        ks.foldr (fun k v => (mem' (a + BitVec.ofNat 64 k)).toNat + 256 * v) 0 := by
    intro ks hks
    induction ks with
    | nil => rfl
    | cons k ks ih =>
      rw [List.foldr_cons, List.foldr_cons, ih fun k' hk' => hks k' (List.mem_cons_of_mem _ hk'),
        h k (hks k List.mem_cons_self)]
  rw [read64, read64, hfold _ fun k hk => List.mem_range.mp hk]

theorem read64_write64_apart {mem : BitVec 64 → UInt8} {w a v : BitVec 64} (h : Apart w a) :
    read64 (write64 mem w v) a = read64 mem a :=
  read64_congr fun k hk => if_neg (Nat.not_lt.mpr (h k hk))

theorem read64_write64_self (mem : BitVec 64 → UInt8) (a v : BitVec 64) : read64 (write64 mem a v) a = v := by
  have hbyte : ∀ k, k < 8 → (write64 mem a v (a + BitVec.ofNat 64 k)).toNat = v.toNat / 256 ^ k % 256 := by
    intro k hk
    have hoff : (a + BitVec.ofNat 64 k - a).toNat = k := by
      rw [BitVec.add_comm, BitVec.add_sub_cancel, BitVec.toNat_ofNat]
      exact Nat.mod_eq_of_lt (by omega)
    rw [write64, if_pos (by omega), hoff]
    simp
  have hv := v.isLt
  rw [read64]
  simp only [List.range_succ_eq_map, List.range_zero, List.map_nil, List.map_cons, List.foldr_cons, List.foldr_nil,
    Nat.succ_eq_add_one, Nat.zero_add, Nat.reduceAdd]
  rw [hbyte 0 (by decide), hbyte 1 (by decide), hbyte 2 (by decide), hbyte 3 (by decide), hbyte 4 (by decide),
    hbyte 5 (by decide), hbyte 6 (by decide), hbyte 7 (by decide)]
  apply BitVec.eq_of_toNat_eq
  rw [BitVec.toNat_ofNat]
  omega

end X86
