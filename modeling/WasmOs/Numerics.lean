import Mathlib.Data.Nat.Bitwise
import Mathlib.Algebra.Group.Int.Defs
import Mathlib.Algebra.GroupWithZero.Nat
import Mathlib.Tactic.Common

/-!
# Integer instructions

The integer instructions of WebAssembly as its numerics define them: functions on numbers below `2 ^ N`
that are undefined where the instruction traps. Each agrees with an operation on bit vectors.
-/

namespace Numerics

/-! ## Operations -/

def signed (N i : Nat) : Int := if i < 2 ^ (N - 1) then i else i - 2 ^ N

/-- The inverse of `signed`, and reduction modulo `2 ^ N`. -/
def unsigned (N : Nat) (j : Int) : Nat := (j % 2 ^ N).toNat

/-- How often `p` holds from zero on before it first fails. -/
def run (N : Nat) (p : Nat → Bool) : Nat := ((List.range N).takeWhile p).length

def iclz (N i : Nat) : Nat := run N fun k => !i.testBit (N - 1 - k)

def ictz (N i : Nat) : Nat := run N fun k => !i.testBit k

def ipopcnt (N i : Nat) : Nat := (List.range N).countP i.testBit

def iextendS (N M i : Nat) : Nat := unsigned N (signed M (i % 2 ^ M))

def iadd (N i j : Nat) : Nat := (i + j) % 2 ^ N

def isub (N i j : Nat) : Nat := (2 ^ N + i - j) % 2 ^ N

def imul (N i j : Nat) : Nat := i * j % 2 ^ N

def idivU (i j : Nat) : Option Nat := if j = 0 then none else some (i / j)

/-- Undefined also where the quotient is not representable. -/
def idivS (N i j : Nat) : Option Nat :=
  if j = 0 then none
  else if (signed N i).tdiv (signed N j) = 2 ^ (N - 1) then none
  else some (unsigned N ((signed N i).tdiv (signed N j)))

def iremU (i j : Nat) : Option Nat := if j = 0 then none else some (i % j)

/-- The remainder has the sign of the dividend. -/
def iremS (N i j : Nat) : Option Nat :=
  if j = 0 then none else some (unsigned N ((signed N i).tmod (signed N j)))

def ishl (N i j : Nat) : Nat := i * 2 ^ (j % N) % 2 ^ N

def ishrU (N i j : Nat) : Nat := i / 2 ^ (j % N)

def ishrS (N i j : Nat) : Nat := unsigned N (signed N i / 2 ^ (j % N))

/-- Bit `k` of the result is bit `k - j` of the operand, modulo the width. -/
def irotl (N i j : Nat) : Nat := Nat.ofBits fun k : Fin N => i.testBit ((k + (N - j % N)) % N)

def irotr (N i j : Nat) : Nat := Nat.ofBits fun k : Fin N => i.testBit ((k + j % N) % N)

/-! ## Instructions -/

inductive Sx where
  | u | s
  deriving DecidableEq, Repr

inductive UnOp where
  | clz | ctz | popcnt
  | extendS (M : Nat)
  deriving DecidableEq, Repr

inductive BinOp where
  | add | sub | mul
  | div (sx : Sx)
  | rem (sx : Sx)
  | and | or | xor | shl
  | shr (sx : Sx)
  | rotl | rotr
  deriving DecidableEq, Repr

inductive RelOp where
  | eq | ne
  | lt (sx : Sx)
  | gt (sx : Sx)
  | le (sx : Sx)
  | ge (sx : Sx)
  deriving DecidableEq, Repr

inductive Width where
  | w32 | w64
  deriving DecidableEq, Repr

def Width.bits : Width → Nat
  | .w32 => 32
  | .w64 => 64

inductive Instr where
  | eqz (w : Width)
  | rel (w : Width) (op : RelOp)
  | un (w : Width) (op : UnOp)
  | bin (w : Width) (op : BinOp)
  | wrap
  | extend (sx : Sx)
  deriving DecidableEq, Repr

def UnOp.eval (N i : Nat) : UnOp → Nat
  | .clz => iclz N i
  | .ctz => ictz N i
  | .popcnt => ipopcnt N i
  | .extendS M => iextendS N M i

def BinOp.eval (N i j : Nat) : BinOp → Option Nat
  | .add => some (iadd N i j)
  | .sub => some (isub N i j)
  | .mul => some (imul N i j)
  | .div .u => idivU i j
  | .div .s => idivS N i j
  | .rem .u => iremU i j
  | .rem .s => iremS N i j
  | .and => some (i &&& j)
  | .or => some (i ||| j)
  | .xor => some (i ^^^ j)
  | .shl => some (ishl N i j)
  | .shr .u => some (ishrU N i j)
  | .shr .s => some (ishrS N i j)
  | .rotl => some (irotl N i j)
  | .rotr => some (irotr N i j)

def RelOp.eval (N i j : Nat) : RelOp → Bool
  | .eq => i = j
  | .ne => i ≠ j
  | .lt .u => i < j
  | .lt .s => signed N i < signed N j
  | .gt .u => j < i
  | .gt .s => signed N j < signed N i
  | .le .u => i ≤ j
  | .le .s => signed N i ≤ signed N j
  | .ge .u => j ≤ i
  | .ge .s => signed N j ≤ signed N i

def Instr.width : Instr → Width
  | .eqz w | .rel w _ | .un w _ | .bin w _ => w
  | .wrap => .w64
  | .extend _ => .w32

def Instr.resultWidth : Instr → Width
  | .eqz _ | .rel _ _ | .wrap => .w32
  | .un w _ | .bin w _ => w
  | .extend _ => .w64

def Instr.operands : Instr → Nat
  | .rel _ _ | .bin _ _ => 2
  | _ => 1

/-- The result on operands `i` and `j`, the last of which an instruction with one operand ignores. -/
def Instr.eval (i j : Nat) : Instr → Option Nat
  | .eqz _ => some (if i = 0 then 1 else 0)
  | .rel w op => some (if op.eval w.bits i j then 1 else 0)
  | .un w op => some (op.eval w.bits i)
  | .bin w op => op.eval w.bits i j
  | .wrap => some (i % 2 ^ 32)
  | .extend .u => some i
  | .extend .s => some (unsigned 64 (signed 32 i))

/-! ## Agreement with bit vectors -/

theorem run_eq {N c : Nat} {p : Nat → Bool} (hc : c ≤ N) (hbelow : ∀ k < c, p k = true)
    (hat : c < N → p c = false) : run N p = c := by
  have hhead : ∀ k ∈ List.range c, p k = true := fun k hk => hbelow k (List.mem_range.mp hk)
  obtain ⟨n, rfl⟩ : ∃ n, N = c + n := ⟨N - c, by omega⟩
  rw [run, List.range_add, List.takeWhile_append_of_pos hhead]
  cases n with
  | zero => simp
  | succ n =>
    rw [List.range_succ_eq_map]
    simp [hat (by omega)]

theorem two_pow_cast (N : Nat) : ((2 ^ N : Nat) : Int) = 2 ^ N := by push_cast; rfl

section
variable {N : Nat} (x y : BitVec N)

theorem toInt_eq_signed (hN : 0 < N) : x.toInt = signed N x.toNat := by
  have h2 : 2 ^ N = 2 * 2 ^ (N - 1) := by
    obtain ⟨n, rfl⟩ : ∃ n, N = n + 1 := ⟨N - 1, by omega⟩
    rw [Nat.pow_succ, Nat.mul_comm, Nat.add_sub_cancel]
  rw [BitVec.toInt_eq_toNat_cond, signed]
  by_cases h : x.toNat < 2 ^ (N - 1)
  · rw [if_pos (by omega), if_pos h]
  · rw [if_neg (by omega), if_neg h, two_pow_cast]

theorem toNat_eq_unsigned : x.toNat = unsigned N x.toInt := by
  rw [unsigned, ← two_pow_cast, ← BitVec.toNat_ofInt, BitVec.ofInt_toInt]

theorem unsigned_bmod (j : Int) : unsigned N (j.bmod (2 ^ N)) = unsigned N j := by
  rw [unsigned, unsigned, ← two_pow_cast, Int.bmod_emod]

theorem clz_eq (hN : 0 < N) : x.clz.toNat = iclz N x.toNat := by
  have hle : x.clz.toNat ≤ N := by
    have h := BitVec.le_def.mp (BitVec.clz_le (x := x))
    simpa using h
  refine (run_eq hle (fun k hk => ?_) fun hlt => ?_).symm
  · have hlt := BitVec.toNat_lt_two_pow_sub_clz (x := x)
    have hpow : 2 ^ (N - x.clz.toNat) ≤ 2 ^ (N - 1 - k) := Nat.pow_le_pow_right Nat.two_pos (by omega)
    rw [Nat.testBit_lt_two_pow (Nat.lt_of_lt_of_le hlt hpow), Bool.not_false]
  · have hne : x ≠ 0#N := by
      intro h0
      have h := (BitVec.clz_eq_iff_eq_zero (x := x)).mpr h0
      rw [h] at hlt
      simp at hlt
    have h := BitVec.getLsbD_true_clz_of_ne_zero hN hne
    rw [BitVec.getLsbD] at h
    rw [h, Bool.not_true]

theorem ctz_eq : x.ctz.toNat = ictz N x.toNat := by
  have hle : x.ctz.toNat ≤ N := by
    have h := BitVec.le_def.mp (BitVec.clz_le (x := x.reverse))
    simpa [BitVec.ctz] using h
  refine (run_eq hle (fun k hk => ?_) fun hlt => ?_).symm
  · have h := BitVec.getLsbD_false_of_lt_ctz hk
    rw [BitVec.getLsbD] at h
    rw [h, Bool.not_false]
  · have hne : x ≠ 0#N := by
      intro h0
      subst h0
      have hrev : (0#N).reverse = 0#N := BitVec.reverse_eq_zero_iff.mpr rfl
      rw [BitVec.ctz, hrev, (BitVec.clz_eq_iff_eq_zero (x := 0#N)).mpr rfl] at hlt
      simp at hlt
    have h := BitVec.getLsbD_true_ctz_of_ne_zero hne
    rw [BitVec.getLsbD] at h
    rw [h, Bool.not_true]

theorem cpopNatRec_eq_countP : ∀ n acc, x.cpopNatRec n acc = acc + (List.range n).countP x.toNat.testBit
  | 0, acc => by simp
  | n + 1, acc => by
    rw [BitVec.cpopNatRec_succ, cpopNatRec_eq_countP n, List.range_succ, List.countP_append, BitVec.getLsbD]
    cases h : x.toNat.testBit n
    · simp [h]
    · simp [h]; omega

theorem cpop_eq : x.cpop.toNat = ipopcnt N x.toNat := by
  rw [BitVec.toNat_cpop, cpopNatRec_eq_countP, Nat.zero_add, ipopcnt]

theorem signExtend_eq {M : Nat} (hM : 0 < M) (hMN : M ≤ N) :
    ((x.setWidth M).signExtend N).toNat = iextendS N M x.toNat := by
  rw [toNat_eq_unsigned, BitVec.toInt_signExtend_of_le hMN, toInt_eq_signed _ hM, BitVec.toNat_setWidth, iextendS]

theorem sub_eq : (x - y).toNat = isub N x.toNat y.toNat := by
  have := y.isLt
  rw [BitVec.toNat_sub, isub]
  congr 1
  omega

theorem eq_zero_iff : y = 0 ↔ y.toNat = 0 := by
  rw [← BitVec.toNat_inj]
  simp

theorem sdiv_overflow_iff (hN : 1 < N) :
    (signed N x.toNat).tdiv (signed N y.toNat) = 2 ^ (N - 1) ↔ x = BitVec.intMin N ∧ y = -1 := by
  rw [← toInt_eq_signed x (by omega), ← toInt_eq_signed y (by omega)]
  constructor
  · intro hq
    by_contra hne
    have hne' : x ≠ BitVec.intMin N ∨ y ≠ -1#N := by
      by_cases hx : x = BitVec.intMin N
      · exact .inr fun hy => hne ⟨hx, hy⟩
      · exact .inl hx
    have hlt := BitVec.toInt_lt (x := x.sdiv y)
    rw [BitVec.toInt_sdiv_of_ne_or_ne x y hne', hq] at hlt
    exact Int.lt_irrefl _ hlt
  · rintro ⟨rfl, rfl⟩
    have hy : (-1 : BitVec N).toInt = -1 := by
      have h1 : (-1 : BitVec N) = BitVec.allOnes N := BitVec.neg_one_eq_allOnes
      rw [h1, BitVec.toInt_allOnes, if_pos (by omega)]
    rw [hy, BitVec.toInt_intMin_of_pos (by omega), Int.tdiv_neg, Int.neg_tdiv, Int.neg_neg, Int.tdiv_one]

theorem sdiv_eq (hN : 0 < N) : (x.sdiv y).toNat = unsigned N ((signed N x.toNat).tdiv (signed N y.toNat)) := by
  rw [toNat_eq_unsigned, BitVec.toInt_sdiv, unsigned_bmod, toInt_eq_signed _ hN, toInt_eq_signed _ hN]

theorem srem_eq (hN : 0 < N) : (x.srem y).toNat = unsigned N ((signed N x.toNat).tmod (signed N y.toNat)) := by
  rw [toNat_eq_unsigned, BitVec.toInt_srem, toInt_eq_signed _ hN, toInt_eq_signed _ hN]

theorem shl_eq (j : Nat) : (x <<< (j % N)).toNat = ishl N x.toNat j := by
  rw [BitVec.toNat_shiftLeft, Nat.shiftLeft_eq, ishl]

theorem ushr_eq (j : Nat) : (x >>> (j % N)).toNat = ishrU N x.toNat j := by
  rw [BitVec.toNat_ushiftRight, Nat.shiftRight_eq_div_pow, ishrU]

theorem sshr_eq (hN : 0 < N) (j : Nat) : (x.sshiftRight (j % N)).toNat = ishrS N x.toNat j := by
  rw [toNat_eq_unsigned, BitVec.toInt_sshiftRight, Int.shiftRight_eq_div_pow, toInt_eq_signed _ hN, ishrS,
    two_pow_cast]

theorem toNat_eq_ofBits {f : Fin N → Bool} (h : ∀ k (hk : k < N), x.getLsbD k = f ⟨k, hk⟩) :
    x.toNat = Nat.ofBits f := by
  apply Nat.eq_of_testBit_eq
  intro k
  by_cases hk : k < N
  · rw [Nat.testBit_ofBits_lt f k hk, ← h k hk, BitVec.getLsbD]
  · rw [Nat.testBit_ofBits_ge f k (by omega), ← BitVec.getLsbD, BitVec.getLsbD_of_ge _ _ (by omega)]

theorem rotl_eq (j : Nat) : (x.rotateLeft (j % N)).toNat = irotl N x.toNat j := by
  refine toNat_eq_ofBits _ fun k hk => ?_
  have hr : j % N < N := Nat.mod_lt _ (by omega)
  rw [BitVec.getLsbD_rotateLeft, Nat.mod_mod]
  by_cases hlt : k < j % N
  · rw [decide_eq_true hlt, cond_true, Nat.mod_eq_of_lt (by omega : k + (N - j % N) < N), Nat.add_comm,
      BitVec.getLsbD]
  · have hwrap : (k + (N - j % N)) % N = k - j % N := by
      rw [show k + (N - j % N) = k - j % N + N by omega, Nat.add_mod_right, Nat.mod_eq_of_lt (by omega)]
    rw [decide_eq_false hlt, cond_false, decide_eq_true hk, Bool.true_and, hwrap, BitVec.getLsbD]

theorem rotr_eq (j : Nat) : (x.rotateRight (j % N)).toNat = irotr N x.toNat j := by
  refine toNat_eq_ofBits _ fun k hk => ?_
  have hr : j % N < N := Nat.mod_lt _ (by omega)
  rw [BitVec.getLsbD_rotateRight, Nat.mod_mod]
  by_cases hlt : k < N - j % N
  · rw [decide_eq_true hlt, cond_true, Nat.mod_eq_of_lt (by omega : k + j % N < N), Nat.add_comm, BitVec.getLsbD]
  · have hwrap : (k + j % N) % N = k - (N - j % N) := by
      rw [show k + j % N = k - (N - j % N) + N by omega, Nat.add_mod_right, Nat.mod_eq_of_lt (by omega)]
    rw [decide_eq_false hlt, cond_false, decide_eq_true hk, Bool.true_and, hwrap, BitVec.getLsbD]

theorem slt_eq (hN : 0 < N) : x.slt y = decide (signed N x.toNat < signed N y.toNat) := by
  rw [BitVec.slt_eq_decide, toInt_eq_signed _ hN, toInt_eq_signed _ hN]

theorem sle_eq (hN : 0 < N) : x.sle y = decide (signed N x.toNat ≤ signed N y.toNat) := by
  rw [BitVec.sle_eq_decide, toInt_eq_signed _ hN, toInt_eq_signed _ hN]

end

/-! The instructions on bit vectors. -/

section
variable {N : Nat} (x y : BitVec N)

def RelOp.bool : RelOp → Bool
  | .eq => x == y
  | .ne => x != y
  | .lt .u => x.ult y
  | .lt .s => x.slt y
  | .gt .u => y.ult x
  | .gt .s => y.slt x
  | .le .u => x.ule y
  | .le .s => x.sle y
  | .ge .u => y.ule x
  | .ge .s => y.sle x

def UnOp.bits : UnOp → BitVec N
  | .clz => x.clz
  | .ctz => x.ctz
  | .popcnt => x.cpop
  | .extendS M => (x.setWidth M).signExtend N

def BinOp.bits : BinOp → BitVec N
  | .add => x + y
  | .sub => x - y
  | .mul => x * y
  | .div .u => x / y
  | .div .s => x.sdiv y
  | .rem .u => x % y
  | .rem .s => x.srem y
  | .and => x &&& y
  | .or => x ||| y
  | .xor => x ^^^ y
  | .shl => x <<< (y.toNat % N)
  | .shr .u => x >>> (y.toNat % N)
  | .shr .s => x.sshiftRight (y.toNat % N)
  | .rotl => x.rotateLeft (y.toNat % N)
  | .rotr => x.rotateRight (y.toNat % N)

def BinOp.Traps : BinOp → Prop
  | .div .s => y = 0 ∨ x = BitVec.intMin N ∧ y = -1
  | .div .u | .rem _ => y = 0
  | _ => False

theorem RelOp.eval_eq (hN : 0 < N) (op : RelOp) : op.eval N x.toNat y.toNat = op.bool x y := by
  cases op with
  | eq => simp [RelOp.eval, RelOp.bool, BitVec.toNat_inj, beq_eq_decide]
  | ne => simp [RelOp.eval, RelOp.bool, BitVec.toNat_inj, bne, beq_eq_decide]
  | lt sx => cases sx with
    | u => rfl
    | s => exact (slt_eq x y hN).symm
  | gt sx => cases sx with
    | u => rfl
    | s => exact (slt_eq y x hN).symm
  | le sx => cases sx with
    | u => rfl
    | s => exact (sle_eq x y hN).symm
  | ge sx => cases sx with
    | u => rfl
    | s => exact (sle_eq y x hN).symm

theorem UnOp.eval_eq (hN : 0 < N) {op : UnOp} (hop : ∀ M, op = .extendS M → 0 < M ∧ M ≤ N) :
    op.eval N x.toNat = (op.bits x).toNat := by
  cases op with
  | clz => exact (clz_eq x hN).symm
  | ctz => exact (ctz_eq x).symm
  | popcnt => exact (cpop_eq x).symm
  | extendS M => exact (signExtend_eq x (hop M rfl).1 (hop M rfl).2).symm

theorem BinOp.eval_trap (hN : 1 < N) {op : BinOp} (h : op.Traps x y) : op.eval N x.toNat y.toNat = none := by
  cases op with
  | div sx => cases sx with
    | u => exact if_pos ((eq_zero_iff y).mp h)
    | s =>
      show idivS N x.toNat y.toNat = none
      unfold idivS
      by_cases h0 : y = 0
      · rw [if_pos ((eq_zero_iff y).mp h0)]
      · rw [if_neg (mt (eq_zero_iff y).mpr h0), if_pos ((sdiv_overflow_iff x y hN).mpr (h.resolve_left h0))]
  | rem sx => cases sx <;> exact if_pos ((eq_zero_iff y).mp h)
  | _ => exact h.elim

theorem BinOp.eval_eq (hN : 1 < N) {op : BinOp} (h : ¬ op.Traps x y) :
    op.eval N x.toNat y.toNat = some (op.bits x y).toNat := by
  have hN0 : 0 < N := by omega
  cases op with
  | add => rfl
  | sub => exact congrArg some (sub_eq x y).symm
  | mul => rfl
  | div sx =>
    cases sx with
    | u => exact (if_neg (mt (eq_zero_iff y).mpr h)).trans (congrArg some BitVec.toNat_udiv.symm)
    | s =>
      obtain ⟨h0, hover⟩ := not_or.mp h
      show idivS N x.toNat y.toNat = _
      unfold idivS
      rw [if_neg (mt (eq_zero_iff y).mpr h0), if_neg (mt (sdiv_overflow_iff x y hN).mp hover), ← sdiv_eq x y hN0]
      rfl
  | rem sx =>
    cases sx with
    | u => exact (if_neg (mt (eq_zero_iff y).mpr h)).trans (congrArg some BitVec.toNat_umod.symm)
    | s => exact (if_neg (mt (eq_zero_iff y).mpr h)).trans (congrArg some (srem_eq x y hN0).symm)
  | and => rfl
  | or => rfl
  | xor => rfl
  | shl => exact congrArg some (shl_eq x _).symm
  | shr sx =>
    cases sx with
    | u => exact congrArg some (ushr_eq x _).symm
    | s => exact congrArg some (sshr_eq x hN0 _).symm
  | rotl => exact congrArg some (rotl_eq x _).symm
  | rotr => exact congrArg some (rotr_eq x _).symm

end

end Numerics
