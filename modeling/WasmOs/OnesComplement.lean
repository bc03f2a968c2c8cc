import Mathlib.Algebra.Group.Int.Defs
import Mathlib.Algebra.GroupWithZero.Nat
import Mathlib.Tactic.Common

/-!
# One's-complement sums

The internet checksum adds 16-bit words and adds every carry out of the top back in at the bottom. The
words of a byte list are big endian; a last odd byte is the high half of its word. `canon n` is the
number between 0 and `0xFFFF` such an addition ends in when the plain sum is `n`.
-/

namespace OnesComplement

/-- The plain sum of the 16-bit words of a byte list. -/
def sum16 : List UInt8 → Nat
  | [] => 0
  | [a] => 256 * a.toNat
  | a :: b :: rest => 256 * a.toNat + b.toNat + sum16 rest

def words : List UInt8 → List Nat
  | [] => []
  | [a] => [256 * a.toNat]
  | a :: b :: rest => (256 * a.toNat + b.toNat) :: words rest

/-- Addition of two 16-bit words with the carry added back in. -/
def add (a b : Nat) : Nat := if a + b > 0xFFFF then a + b - 0xFFFF else a + b

/-- The one's-complement 16-bit sum of a byte list. -/
def total (bytes : List UInt8) : Nat := (words bytes).foldl add 0

/-- `n` reduced modulo `0xFFFF`, with `0xFFFF` and not 0 for the positive multiples. -/
def canon (n : Nat) : Nat := if n = 0 then 0 else (n - 1) % 0xFFFF + 1

/-! ## Sums of pieces -/

theorem sum16_append : ∀ {xs : List UInt8} (ys : List UInt8), xs.length % 2 = 0 →
    sum16 (xs ++ ys) = sum16 xs + sum16 ys
  | [], ys, _ => by simp [sum16]
  | [a], ys, h => by simp at h
  | a :: b :: rest, ys, h => by
    have hrest : rest.length % 2 = 0 := by
      simp only [List.length_cons] at h
      omega
    simp only [List.cons_append, sum16]
    rw [sum16_append ys hrest]
    omega

theorem sum16_le : ∀ bytes : List UInt8, sum16 bytes ≤ 0xFFFF * ((bytes.length + 1) / 2)
  | [] => by simp [sum16]
  | [a] => by
    have := a.toNat_lt
    simp only [sum16, List.length_cons, List.length_nil]
    omega
  | a :: b :: rest => by
    have := a.toNat_lt
    have := b.toNat_lt
    have := sum16_le rest
    simp only [sum16, List.length_cons]
    omega

/-! ## Canonical forms -/

theorem canon_le (n : Nat) : canon n ≤ 0xFFFF := by
  unfold canon
  split
  · omega
  · have := Nat.mod_lt (n - 1) (show 0 < 0xFFFF by omega)
    omega

theorem canon_of_le {n : Nat} (h : n ≤ 0xFFFF) : canon n = n := by
  unfold canon
  split
  · omega
  · rw [Nat.mod_eq_of_lt (by omega)]
    omega

/-- Folding carries back in does not change the canonical form. -/
theorem canon_sub_mul {n k : Nat} (h : k * 0xFFFF < n) : canon (n - k * 0xFFFF) = canon n := by
  unfold canon
  rw [if_neg (by omega), if_neg (by omega)]
  have hn : n - 1 = n - k * 0xFFFF - 1 + k * 0xFFFF := by omega
  rw [hn, Nat.add_mul_mod_self_right]

theorem canon_add_canon (a b : Nat) : canon (canon a + b) = canon (a + b) := by
  by_cases ha : a = 0
  · simp [ha, canon]
  · have hdiv := Nat.div_add_mod (a - 1) 0xFFFF
    have hc : canon a = a - (a - 1) / 0xFFFF * 0xFFFF := by
      unfold canon
      rw [if_neg ha]
      omega
    have hlt : (a - 1) / 0xFFFF * 0xFFFF < a + b := by omega
    rw [hc, ← canon_sub_mul hlt]
    congr 1
    omega

theorem add_eq_canon {a b : Nat} (ha : a ≤ 0xFFFF) (hb : b ≤ 0xFFFF) : add a b = canon (a + b) := by
  unfold add
  split
  · rename_i h
    have hlt : 1 * 0xFFFF < a + b := by omega
    rw [← canon_sub_mul hlt, canon_of_le (by omega)]
  · rw [canon_of_le (by omega)]

/-- The one's-complement sum is the canonical form of the plain sum. -/
theorem total_eq_canon (bytes : List UInt8) : total bytes = canon (sum16 bytes) := by
  have key : ∀ (bytes : List UInt8) (acc : Nat), acc ≤ 0xFFFF →
      (words bytes).foldl add acc = canon (acc + sum16 bytes) := by
    intro bytes
    induction bytes using words.induct with
    | case1 =>
      intro acc hacc
      simp [words, sum16, canon_of_le hacc]
    | case2 a =>
      intro acc hacc
      have := a.toNat_lt
      simp only [words, sum16, List.foldl_cons, List.foldl_nil]
      exact add_eq_canon hacc (by omega)
    | case3 a b rest ih =>
      intro acc hacc
      have := a.toNat_lt
      have := b.toNat_lt
      simp only [words, sum16, List.foldl_cons]
      rw [add_eq_canon hacc (by omega), ih _ (canon_le _), canon_add_canon]
      congr 1
      omega
  have := key bytes 0 (by omega)
  simpa [total] using this

/-! ## Checksums -/

theorem canon_carry {n : Nat} (h : 0xFFFF < n) : canon (n % 0x10000 + n / 0x10000) = canon n := by
  have hdiv := Nat.div_add_mod n 0x10000
  have heq : n % 0x10000 + n / 0x10000 = n - n / 0x10000 * 0xFFFF := by omega
  rw [heq]
  exact canon_sub_mul (by omega)

/-- The complement of a sum fills it up to `0xFFFF`. -/
theorem canon_add_complement (n : Nat) : canon (n + (0xFFFF - canon n)) = 0xFFFF := by
  have hle := canon_le n
  rw [← canon_add_canon, canon_of_le (by omega)]
  omega

end OnesComplement
