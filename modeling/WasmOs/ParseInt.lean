import WasmOs.Args
import WasmOs.Host
import WasmOs.Lexemes

/-!
# Numbers read from text

The shell's `parse_i32` rejects what is no number, the assembler's skips it; both add up the digits in an
`i32` and negate at the end. Of the numbers that fit only the smallest is out of reach for them: its
digits alone make a number that does not fit.
-/

namespace WasmOs

/-! ## The shell -/

theorem not_isDigit {c : UInt8} : (c < 0x30 ∨ 0x39 < c) ↔ ¬ Decimal.IsDigit c := by
  rw [Decimal.IsDigit, Classical.not_and_iff_not_or_not, UInt8.not_le, UInt8.not_le]

/-- The sum is taken digit by digit, and given up at the first one that is none or that does not fit. -/
theorem parseDigits_eq_some {bytes : List UInt8} {acc n : Nat} (hacc : acc < 2 ^ 31) :
    parseDigits acc bytes = some n ↔ (∀ c ∈ bytes, Decimal.IsDigit c) ∧ Decimal.value acc bytes = n ∧
    n < 2 ^ 31 := by
  induction bytes generalizing acc with
  | nil =>
    constructor
    · intro h
      cases h
      exact ⟨nofun, rfl, hacc⟩
    · intro ⟨_, h, _⟩
      rw [← h]
      rfl
  | cons c cs ih =>
    unfold parseDigits
    by_cases hc : Decimal.IsDigit c
    · have hval : 10 * acc + (c - 0x30).toNat = acc * 10 + (c.toNat - 0x30) := by
        rw [UInt8.toNat_sub_of_le _ _ hc.1, Nat.mul_comm]
        rfl
      rw [if_neg (not_isDigit.not.mpr (not_not_intro hc)), hval]
      dsimp only
      by_cases hfit : acc * 10 + (c.toNat - 0x30) < 2 ^ 31
      · rw [if_neg (Nat.not_le_of_lt hfit), ih hfit, Decimal.value_cons, List.forall_mem_cons, and_assoc]
        exact ⟨fun h => ⟨hc, h⟩, And.right⟩
      · rw [if_pos (Nat.le_of_not_lt hfit)]
        have hle := Decimal.le_value (acc * 10 + (c.toNat - 0x30)) cs
        refine ⟨nofun, fun ⟨_, hv, hn⟩ => ?_⟩
        rw [Decimal.value_cons] at hv
        omega
    · rw [if_pos (not_isDigit.mpr hc)]
      exact ⟨nofun, fun h => absurd (h.1 c (List.mem_cons_self ..)) hc⟩

theorem parseDigits_digits {ds : List UInt8} (hds : ∀ c ∈ ds, Decimal.IsDigit c) :
    parseDigits 0 ds = if Decimal.value 0 ds < 2 ^ 31 then some (Decimal.value 0 ds) else none := by
  by_cases hfit : Decimal.value 0 ds < 2 ^ 31
  · rw [if_pos hfit]
    exact (parseDigits_eq_some (by decide)).mpr ⟨hds, rfl, hfit⟩
  · rw [if_neg hfit]
    apply Option.eq_none_iff_forall_ne_some.mpr
    intro n hn
    obtain ⟨-, rfl, hlt⟩ := (parseDigits_eq_some (by decide)).mp hn
    exact hfit hlt

theorem ofInt_neg_value (n : Nat) : BitVec.ofInt 32 (-(n : Int)) = -BitVec.ofNat 32 n := by
  rw [BitVec.ofInt_neg, BitVec.ofInt_natCast]

/-- Of the numerals the shell takes those whose digits fit. -/
theorem parseI32_numeral {s : List UInt8} {v : Int} (h : Decimal.Numeral s v) :
    parseI32 s = if v.natAbs < 2 ^ 31 then some (BitVec.ofInt 32 v) else none := by
  cases h with
  | @pos ds hne hds =>
    obtain ⟨b, rest, rfl⟩ := List.exists_cons_of_ne_nil hne
    have hb : b ≠ 0x2D := by
      intro hb
      exact absurd (hds b (List.mem_cons_self ..)) (by rw [hb]; decide)
    unfold parseI32
    dsimp only
    rw [if_neg hb, parseDigits_digits hds, Int.natAbs_natCast, BitVec.ofInt_natCast]
    split
    · rfl
    · rfl
  | @neg ds hne hds =>
    unfold parseI32
    dsimp only
    rw [if_pos rfl, if_neg hne, parseDigits_digits hds, Int.natAbs_neg, Int.natAbs_natCast, ofInt_neg_value]
    split
    · rfl
    · rfl

theorem numeral_of_parseI32 {s : List UInt8} {n : BitVec 32} (h : parseI32 s = some n) :
    ∃ v, Decimal.Numeral s v := by
  cases s with
  | nil => cases h
  | cons b rest =>
    unfold parseI32 at h
    dsimp only at h
    by_cases hb : b = 0x2D
    · rw [if_pos hb] at h
      by_cases hrest : rest = []
      · rw [if_pos hrest] at h
        cases h
      · rw [if_neg hrest] at h
        obtain ⟨m, hm, -⟩ := Option.map_eq_some_iff.mp h
        have hds := ((parseDigits_eq_some (by decide)).mp hm).1
        rw [hb]
        exact ⟨_, .neg hrest hds⟩
    · rw [if_neg hb] at h
      obtain ⟨m, hm, -⟩ := Option.map_eq_some_iff.mp h
      exact ⟨_, .pos (List.cons_ne_nil b rest) ((parseDigits_eq_some (by decide)).mp hm).1⟩

/-! ## The assembler -/

theorem isAsciiDigit_iff {c : UInt8} : Asm.isAsciiDigit c = true ↔ Decimal.IsDigit c := by
  rw [Asm.isAsciiDigit, Bool.and_eq_true, decide_eq_true_eq, decide_eq_true_eq]
  exact Iff.rfl

/-- The assembler overflows where the shell gives up. -/
theorem asm_parseI32_numeral {s : List UInt8} {v : Int} (h : Decimal.Numeral s v) :
    (Asm.parseI32 s : Rust Empty _) = if v.natAbs < 2 ^ 31 then .ok (BitVec.ofInt 32 v) else .error .panic := by
  cases h with
  | pos _ hds =>
    rw [Int.natAbs_natCast, BitVec.ofInt_natCast]
    exact Asm.Tokenizer.parseI32_digits fun c hc => isAsciiDigit_iff.mpr (hds c hc)
  | neg _ hds =>
    rw [Int.natAbs_neg, Int.natAbs_natCast, ofInt_neg_value]
    exact Asm.Tokenizer.parseI32_neg fun c hc => isAsciiDigit_iff.mpr (hds c hc)

/-! ## The whole range -/

/-- Both functions read back what is printed for a number. -/
def ReadBack (n : BitVec 32) : Prop :=
  parseI32 (Decimal.text n.toInt) = some n ∧ (Asm.parseI32 (Decimal.text n.toInt) : Rust Empty _) = .ok n

/-- The shell rejects a text exactly when it is no numeral or does not fit. -/
def RejectsRight (s : List UInt8) : Prop :=
  parseI32 s = none ↔ ¬ ∃ v, Decimal.Numeral s v ∧ -2 ^ 31 ≤ v ∧ v < 2 ^ 31

theorem readBack_iff (n : BitVec 32) : ReadBack n ↔ n ≠ BitVec.intMin 32 := by
  have hmin : n = BitVec.intMin 32 ↔ n.toInt = -2 ^ 31 := by
    rw [← BitVec.toInt_inj]
    exact Iff.rfl
  have := n.toInt_lt
  have := n.le_toInt
  have hnum := Decimal.numeral_text n.toInt
  rw [ReadBack, parseI32_numeral hnum, asm_parseI32_numeral hnum, BitVec.ofInt_toInt, ne_eq, hmin]
  by_cases hfit : n.toInt.natAbs < 2 ^ 31
  · rw [if_pos hfit, if_pos hfit]
    exact iff_of_true ⟨rfl, rfl⟩ (by omega)
  · rw [if_neg hfit]
    exact iff_of_false (fun h => Option.some_ne_none n h.1.symm) (not_not_intro (by omega))

theorem rejectsRight_iff (s : List UInt8) : RejectsRight s ↔ ¬ Decimal.Numeral s (-2 ^ 31) := by
  constructor
  · intro h hmin
    have hnone : parseI32 s = none := parseI32_numeral hmin
    exact h.mp hnone ⟨_, hmin, by decide, by decide⟩
  · intro hmin
    constructor
    · intro hnone ⟨v, hv, hlo, hhi⟩
      have hne : v ≠ -2 ^ 31 := fun heq => hmin (heq ▸ hv)
      rw [parseI32_numeral hv, if_pos (by omega)] at hnone
      cases hnone
    · intro hno
      apply Option.eq_none_iff_forall_ne_some.mpr
      intro n hn
      obtain ⟨v, hv⟩ := numeral_of_parseI32 hn
      refine hno ⟨v, hv, ?_⟩
      by_contra hfit
      rw [parseI32_numeral hv, if_neg (by omega)] at hn
      cases hn

/-- Every number but the smallest is read back, and every text but those of the smallest number is rejected
or read as it should be. -/
theorem parse_range_iff (n : BitVec 32) (s : List UInt8) :
    (ReadBack n ↔ n ≠ BitVec.intMin 32) ∧ (RejectsRight s ↔ ¬ Decimal.Numeral s (-2 ^ 31)) :=
  ⟨readBack_iff n, rejectsRight_iff s⟩

/-- `-2147483648` fits, is rejected by the shell, and overflows in the assembler. -/
theorem minimum_rejected :
    Decimal.text (BitVec.intMin 32).toInt = ascii "-2147483648" ∧ parseI32 (ascii "-2147483648") = none ∧
    (Asm.parseI32 (ascii "-2147483648") : Rust Empty _) = .error .panic ∧ ¬ ReadBack (BitVec.intMin 32) ∧
    ¬ RejectsRight (ascii "-2147483648") := by
  have htext : Decimal.text (BitVec.intMin 32).toInt = ascii "-2147483648" := by decide
  have hnone : parseI32 (ascii "-2147483648") = none := by decide
  have hpanic : (Asm.parseI32 (ascii "-2147483648") : Rust Empty _) = .error .panic := by rfl
  refine ⟨htext, hnone, hpanic, fun h => ?_, fun h => ?_⟩
  · have hsome := h.1
    rw [htext, hnone] at hsome
    cases hsome
  · have hnum := Decimal.numeral_text (BitVec.intMin 32).toInt
    rw [htext] at hnum
    exact h.mp hnone ⟨_, hnum, by decide, by decide⟩

end WasmOs
