import Mathlib.Algebra.Group.Int.Defs
import Mathlib.Algebra.GroupWithZero.Nat
import Mathlib.Tactic.Common

/-!
# Arrays as functions

A fixed-size array is a function on indices; the size is checked where the code indexes, so the
function itself is total. `upd`, `blit` and `fillRange` are the three ways the code writes one.
-/

namespace WasmOs

section
variable {α : Type}

/-- `a[i] = v` -/
def upd (a : Nat → α) (i : Nat) (v : α) : Nat → α := fun k => if k = i then v else a k

/-- `a[i .. i + vs.len()].copy_from_slice(vs)` -/
def blit (a : Nat → α) (i : Nat) (vs : List α) : Nat → α := fun k =>
  if i ≤ k then (vs[k - i]?).getD (a k) else a k

/-- `a[lo..hi].fill(v)` -/
def fillRange (a : Nat → α) (lo hi : Nat) (v : α) : Nat → α := fun k =>
  if lo ≤ k ∧ k < hi then v else a k

/-- `a[lo .. lo + n]` -/
def slice (a : Nat → α) (lo n : Nat) : List α := (List.range n).map fun k => a (lo + k)

@[simp] theorem upd_self (a : Nat → α) (i : Nat) (v : α) : upd a i v i = v := if_pos rfl

theorem upd_of_ne (a : Nat → α) {i k : Nat} (v : α) (h : k ≠ i) : upd a i v k = a k := if_neg h

theorem blit_apply (a : Nat → α) (i : Nat) (vs : List α) (k : Nat) :
    blit a i vs k = if h : i ≤ k ∧ k < i + vs.length then vs.get ⟨k - i, by omega⟩ else a k := by
  unfold blit
  by_cases hlo : i ≤ k
  · by_cases hhi : k - i < vs.length
    · rw [if_pos hlo, dif_pos ⟨hlo, by omega⟩, List.getElem?_eq_getElem hhi]; rfl
    · rw [if_pos hlo, dif_neg (by omega), List.getElem?_eq_none (by omega)]; rfl
  · rw [if_neg hlo, dif_neg (by omega)]

@[simp] theorem slice_length (a : Nat → α) (lo n : Nat) : (slice a lo n).length = n := by simp [slice]

@[simp] theorem slice_getElem (a : Nat → α) (lo n j : Nat) (h : j < (slice a lo n).length) :
    (slice a lo n)[j] = a (lo + j) := by
  simp [slice]

/-- Writing behind the first `n` elements appends to them. -/
theorem slice_blit_end (a : Nat → α) (n : Nat) (vs : List α) :
    slice (blit a n vs) 0 (n + vs.length) = slice a 0 n ++ vs := by
  apply List.ext_getElem
  · simp
  · intro j hj _
    have hj' : j < n + vs.length := by simpa using hj
    rw [slice_getElem, blit_apply, Nat.zero_add]
    by_cases hn : n ≤ j
    · rw [dif_pos ⟨hn, hj'⟩, List.getElem_append_right (by simpa using hn)]
      simp
    · rw [dif_neg (by omega), List.getElem_append_left (by simp; omega), slice_getElem, Nat.zero_add]

theorem blit_add {α : Type} (a : Nat → α) (i : Nat) {xs : List α} {k : Nat} (h : k < xs.length) :
    blit a i xs (i + k) = xs[k] := by
  rw [blit_apply, dif_pos ⟨by omega, by omega⟩]
  simp

end

/-! ## Little endian -/

/-- The number whose `w` bytes at `i` are `a[i], a[i + 1], …`, least significant first. -/
def leNat (a : Nat → UInt8) (i : Nat) : Nat → Nat
  | 0 => 0
  | w + 1 => (a i).toNat + 256 * leNat a (i + 1) w

/-- The `w` low bytes of `v`, least significant first. -/
def leBytes (v : Nat) : Nat → List UInt8
  | 0 => []
  | w + 1 => UInt8.ofNat (v % 256) :: leBytes (v / 256) w

@[simp] theorem leBytes_length (v w : Nat) : (leBytes v w).length = w := by
  induction w generalizing v with
  | zero => rfl
  | succ w ih => simp [leBytes, ih]

theorem leNat_lt (a : Nat → UInt8) (i w : Nat) : leNat a i w < 256 ^ w := by
  induction w generalizing i with
  | zero => simp [leNat]
  | succ w ih =>
    have := ih (i + 1)
    have := (a i).toNat_lt
    simp only [leNat, Nat.pow_succ]
    omega

/-- Byte `j` of `leBytes`. -/
theorem leBytes_getElem (v w j : Nat) (h : j < (leBytes v w).length) :
    (leBytes v w)[j] = UInt8.ofNat (v / 256 ^ j % 256) := by
  induction w generalizing v j with
  | zero => simp at h
  | succ w ih =>
    cases j with
    | zero => simp [leBytes]
    | succ j =>
      simp only [leBytes, List.getElem_cons_succ]
      rw [ih, Nat.div_div_eq_div_mul, Nat.pow_succ, Nat.mul_comm 256]

theorem leNat_of_bytes : ∀ {w i v : Nat} {a : Nat → UInt8}, (∀ j < w, a (i + j) = UInt8.ofNat (v / 256 ^ j % 256)) →
    leNat a i w = v % 256 ^ w
  | 0, _, _, _, _ => by simp [leNat, Nat.mod_one]
  | w + 1, i, v, a, h => by
    have h0 := h 0 (by omega)
    have hrest : leNat a (i + 1) w = v / 256 % 256 ^ w := by
      refine leNat_of_bytes fun j hj => ?_
      rw [Nat.div_div_eq_div_mul, show i + 1 + j = i + (j + 1) by omega, h (j + 1) (by omega), Nat.pow_succ,
        Nat.mul_comm 256]
    rw [Nat.add_zero, Nat.pow_zero, Nat.div_one] at h0
    rw [leNat, hrest, h0, UInt8.toNat_ofNat', Nat.pow_succ' (n := w), Nat.mod_mul]
    omega

theorem leNat_congr {a b : Nat → UInt8} :
    ∀ {w i : Nat}, (∀ j < w, a (i + j) = b (i + j)) → leNat a i w = leNat b i w
  | 0, _, _ => rfl
  | w + 1, i, h => by
    have h0 := h 0 (by omega)
    have hrest : leNat a (i + 1) w = leNat b (i + 1) w := by
      refine leNat_congr fun j hj => ?_
      rw [show i + 1 + j = i + (j + 1) by omega]
      exact h (j + 1) (by omega)
    rw [Nat.add_zero] at h0
    rw [leNat, leNat, h0, hrest]

end WasmOs
