import Mathlib.Algebra.Group.Int.Defs
import Mathlib.Algebra.GroupWithZero.Nat
import Mathlib.Tactic.Common

/-!
# Decimal numerals

A number in base ten as ASCII bytes, and the number that a text of digits stands for. The digits are
those of `Nat.toDigits`, so a text is what `toString` gives.
-/

namespace Decimal

def IsDigit (c : UInt8) : Prop := 0x30 ≤ c ∧ c ≤ 0x39

instance (c : UInt8) : Decidable (IsDigit c) := inferInstanceAs (Decidable (_ ∧ _))

def bytes (cs : List Char) : List UInt8 := cs.map fun c => UInt8.ofNat c.toNat

def digit (d : Nat) : UInt8 := UInt8.ofNat (0x30 + d)

def digits (n : Nat) : List UInt8 := bytes (Nat.toDigits 10 n)

def significant (n : Nat) : List UInt8 := if n = 0 then [] else digits n

def text (n : Int) : List UInt8 := if n < 0 then 0x2D :: digits n.natAbs else digits n.natAbs

/-- The number that digits stand for behind those of `acc`. -/
def value (acc : Nat) (ds : List UInt8) : Nat := ds.foldl (fun v c => v * 10 + (c.toNat - 0x30)) acc

/-- An optional minus sign and at least one digit. -/
inductive Numeral : List UInt8 → Int → Prop
  | pos {ds : List UInt8} (hne : ds ≠ []) (hds : ∀ c ∈ ds, IsDigit c) : Numeral ds (value 0 ds)
  | neg {ds : List UInt8} (hne : ds ≠ []) (hds : ∀ c ∈ ds, IsDigit c) : Numeral (0x2D :: ds) (-(value 0 ds : Int))

def NoLeadingZero (s : List UInt8) : Prop :=
  s = [0x30] ∨ ∃ c ds, (s = c :: ds ∨ s = 0x2D :: c :: ds) ∧ IsDigit c ∧ c ≠ 0x30

/-! ## Digits -/

theorem toNat_digit {d : Nat} (h : d < 10) : (digit d).toNat = 0x30 + d := by
  rw [digit, UInt8.toNat_ofNat']
  omega

theorem isDigit_iff {c : UInt8} : IsDigit c ↔ 0x30 ≤ c.toNat ∧ c.toNat ≤ 0x39 := by
  rw [IsDigit, UInt8.le_iff_toNat_le, UInt8.le_iff_toNat_le]
  exact Iff.rfl

theorem isDigit_digit {d : Nat} (h : d < 10) : IsDigit (digit d) := by
  rw [isDigit_iff, toNat_digit h]
  omega

theorem digits_of_lt {n : Nat} (h : n < 10) : digits n = [digit n] := by
  rw [digits, Nat.toDigits_of_lt_base h, digit, ← Nat.toNat_digitChar_of_lt_ten h]
  rfl

theorem digits_of_le {n : Nat} (h : 10 ≤ n) : digits n = digits (n / 10) ++ [digit (n % 10)] := by
  have hmod : n % 10 < 10 := Nat.mod_lt n (by decide)
  rw [digits, Nat.toDigits_of_base_le (by decide) h, digit, ← Nat.toNat_digitChar_of_lt_ten hmod]
  exact List.map_append

theorem significant_succ {n : Nat} (h : n ≠ 0) : significant n = significant (n / 10) ++ [digit (n % 10)] := by
  rw [significant, if_neg h, significant]
  by_cases hlt : n < 10
  · rw [if_pos (Nat.div_eq_of_lt hlt), digits_of_lt hlt, Nat.mod_eq_of_lt hlt]
    rfl
  · rw [if_neg (by omega), digits_of_le (by omega)]

theorem digits_ne_nil (n : Nat) : digits n ≠ [] := by
  intro h
  exact Nat.toDigits_ne_nil (List.map_eq_nil_iff.mp h)

theorem length_digits_le {n k : Nat} (hk : 0 < k) (h : n < 10 ^ k) : (digits n).length ≤ k := by
  rw [digits, bytes, List.length_map]
  exact (Nat.length_toDigits_le_iff (by decide) hk).mpr h

theorem significant_of_ne {n : Nat} (h : n ≠ 0) : significant n = digits n := if_neg h

theorem length_significant_le {n k : Nat} (hk : 0 < k) (h : n < 10 ^ k) : (significant n).length ≤ k := by
  unfold significant
  split
  · exact Nat.zero_le _
  · exact length_digits_le hk h

theorem isDigit_digits (n : Nat) : ∀ c ∈ digits n, IsDigit c := by
  induction n using Nat.strongRecOn with
  | ind n ih =>
    intro c hc
    by_cases h : n < 10
    · rw [digits_of_lt h, List.mem_singleton] at hc
      rw [hc]
      exact isDigit_digit h
    · rw [digits_of_le (by omega)] at hc
      rcases List.mem_append.mp hc with hc | hc
      · exact ih (n / 10) (by omega) c hc
      · rw [List.mem_singleton.mp hc]
        exact isDigit_digit (Nat.mod_lt n (by decide))

theorem head_digits {n : Nat} (h : 0 < n) : ∃ c ds, digits n = c :: ds ∧ IsDigit c ∧ c ≠ 0x30 := by
  induction n using Nat.strongRecOn with
  | ind n ih =>
    by_cases hlt : n < 10
    · refine ⟨digit n, [], digits_of_lt hlt, isDigit_digit hlt, fun heq => ?_⟩
      have := congrArg UInt8.toNat heq
      rw [toNat_digit hlt, show (0x30 : UInt8).toNat = 0x30 from rfl] at this
      omega
    · obtain ⟨c, ds, hds, hc⟩ := ih (n / 10) (by omega) (by omega)
      refine ⟨c, ds ++ [digit (n % 10)], ?_, hc⟩
      rw [digits_of_le (by omega), hds, List.cons_append]

/-! ## Values -/

theorem value_cons (acc : Nat) (c : UInt8) (ds : List UInt8) :
    value acc (c :: ds) = value (acc * 10 + (c.toNat - 0x30)) ds := by
  unfold value
  exact List.foldl_cons

theorem value_append (acc : Nat) (s t : List UInt8) : value acc (s ++ t) = value (value acc s) t :=
  List.foldl_append

theorem value_digit (acc : Nat) {d : Nat} (h : d < 10) : value acc [digit d] = acc * 10 + d := by
  change acc * 10 + ((digit d).toNat - 0x30) = _
  rw [toNat_digit h, Nat.add_sub_cancel_left]

/-- More digits never make a number smaller. -/
theorem le_value (acc : Nat) (ds : List UInt8) : acc ≤ value acc ds := by
  induction ds generalizing acc with
  | nil => exact Nat.le_refl _
  | cons c cs ih => exact Nat.le_trans (by omega) (ih (acc * 10 + (c.toNat - 0x30)))

theorem value_digits (n : Nat) : value 0 (digits n) = n := by
  induction n using Nat.strongRecOn with
  | ind n ih =>
    by_cases h : n < 10
    · rw [digits_of_lt h, value_digit 0 h]
      omega
    · rw [digits_of_le (by omega), value_append, ih (n / 10) (by omega), value_digit _ (Nat.mod_lt n (by decide))]
      omega

/-! ## Texts -/

theorem numeral_text (n : Int) : Numeral (text n) n := by
  unfold text
  by_cases h : n < 0
  · have hn : n = -(value 0 (digits n.natAbs) : Int) := by
      rw [value_digits]
      omega
    rw [if_pos h]
    conv => arg 2; rw [hn]
    exact .neg (digits_ne_nil _) (isDigit_digits _)
  · have hn : n = (value 0 (digits n.natAbs) : Int) := by
      rw [value_digits]
      omega
    rw [if_neg h]
    conv => arg 2; rw [hn]
    exact .pos (digits_ne_nil _) (isDigit_digits _)

theorem Numeral.ascii {s : List UInt8} {n : Int} (h : Numeral s n) : ∀ c ∈ s, c < 0x80 := by
  have hascii : ∀ c, IsDigit c → c < 0x80 := fun c hc => UInt8.lt_of_le_of_lt hc.2 (by decide)
  cases h with
  | pos _ hds => exact fun c hc => hascii c (hds c hc)
  | neg _ hds =>
    intro c hc
    rcases List.mem_cons.mp hc with rfl | hc
    · decide
    · exact hascii c (hds c hc)

theorem Numeral.unique {s : List UInt8} {m n : Int} (hm : Numeral s m) (hn : Numeral s n) : m = n := by
  have hminus : ¬ IsDigit 0x2D := by decide
  cases hm with
  | pos _ hds =>
    cases hn with
    | pos => rfl
    | neg => exact absurd (hds _ (List.mem_cons_self ..)) hminus
  | neg _ _ =>
    cases hn with
    | pos _ hds => exact absurd (hds _ (List.mem_cons_self ..)) hminus
    | neg => rfl

theorem text_noLeadingZero (n : Int) : NoLeadingZero (text n) := by
  unfold text
  by_cases hz : n = 0
  · subst hz
    exact .inl rfl
  · obtain ⟨c, ds, hds, hc⟩ := head_digits (show 0 < n.natAbs by omega)
    refine .inr ⟨c, ds, ?_, hc⟩
    rw [hds]
    by_cases h : n < 0
    · rw [if_pos h]
      exact .inr rfl
    · rw [if_neg h]
      exact .inl rfl

end Decimal
