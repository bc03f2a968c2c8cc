import Mathlib.Algebra.Group.Int.Defs
import Mathlib.Algebra.GroupWithZero.Nat
import Mathlib.Tactic.Common

/-!
# Ring buffers

A ring of `cap` slots keeps the last `cap` of the values that were pushed: the `j`-th of them is in slot
`j % cap` until `cap` more have come.
-/

namespace RingBuffer

variable {α : Type} {cap : Nat} {slot slot' : Nat → Option α} {xs : List α}

def Holds (cap : Nat) (slot : Nat → Option α) (xs : List α) : Prop :=
  ∀ j x, xs[j]? = some x → xs.length ≤ j + cap → slot (j % cap) = some x

/-- The slot of the oldest value, after `n` pushes. -/
def start (cap n : Nat) : Nat := if n < cap then 0 else n % cap

theorem holds_nil (cap : Nat) (slot : Nat → Option α) : Holds cap slot [] := by
  intro j x hx
  cases hx

/-- Two values that are both kept are in different slots. -/
theorem mod_ne {j n : Nat} (hlt : j < n) (hle : n + 1 ≤ j + cap) : j % cap ≠ n % cap := by
  intro heq
  have hzero : (n - j) % cap = 0 := Nat.sub_mod_eq_zero_of_mod_eq heq.symm
  rw [Nat.mod_eq_of_lt (by omega)] at hzero
  omega

/-- A push replaces the oldest value of a full ring, and no other. -/
theorem Holds.push (h : Holds cap slot xs) {x : α} (hnew : slot' (xs.length % cap) = some x)
    (hold : ∀ k, k ≠ xs.length % cap → slot' k = slot k) : Holds cap slot' (xs ++ [x]) := by
  intro j y hy hle
  rw [List.length_append, List.length_singleton] at hle
  by_cases hj : j < xs.length
  · rw [List.getElem?_append_left hj] at hy
    rw [hold _ (mod_ne hj hle)]
    exact h j y hy (by omega)
  · rw [List.getElem?_append_right (by omega)] at hy
    obtain ⟨hlt, rfl⟩ := List.getElem?_eq_some_iff.mp hy
    rw [List.length_singleton] at hlt
    have hj' : j = xs.length := by omega
    rw [List.getElem_singleton, hj', hnew]

/-- The `i`-th slot from the start on is that of the `i`-th value that is kept. -/
theorem start_add (i n : Nat) : (start cap n + i) % cap = (n - min n cap + i) % cap := by
  unfold start
  by_cases hn : n < cap
  · rw [if_pos hn, Nat.min_eq_left (Nat.le_of_lt hn), Nat.sub_self]
  · have hback : n + i = n - cap + i + cap := by omega
    rw [if_neg hn, Nat.min_eq_right (by omega), Nat.mod_add_mod, hback, Nat.add_mod_right]

theorem Holds.get (h : Holds cap slot xs) {i : Nat} (hi : i < min xs.length cap) :
    slot ((start cap xs.length + i) % cap) = xs[xs.length - min xs.length cap + i]? := by
  have hlt : xs.length - min xs.length cap + i < xs.length := by omega
  rw [start_add, List.getElem?_eq_getElem hlt]
  exact h _ _ (List.getElem?_eq_getElem hlt) (by omega)

end RingBuffer
