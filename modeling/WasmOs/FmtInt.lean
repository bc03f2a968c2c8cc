import WasmOs.Decimal
import WasmOs.Host
import WasmOs.Utf8
import WasmOs.Wire

/-!
# Numbers as text

`fmt_i32` and `fmt_i64` write the digits of a number into a buffer from its end, and print what is
behind the last position. `fmtInt` keeps only the part of the buffer that is written.
-/

namespace WasmOs

/-! ## The buffer -/

/-- `-n`, with the overflow check. -/
def checkedNeg {w : Nat} (n : BitVec w) : Rust Empty (BitVec w) :=
  if n = BitVec.intMin w then .error .panic else .ok (-n)

/-- `if n == MIN { … } else if negative { (-n) as u32 } else { n as u32 }` -/
def fmtVal {w : Nat} (minVal : Nat) (n : BitVec w) : Rust Empty Nat :=
  if n = BitVec.intMin w then .ok minVal
  else if n.slt 0 then do
    let m ← checkedNeg n
    .ok m.toNat
  else .ok n.toNat

/-- `while val > 0 { pos -= 1; buf[pos] = b'0' + (val % 10) as u8; val /= 10; }` -/
def fmtDigits : Nat → Nat → Nat → List UInt8 → Rust Empty (Nat × List UInt8)
  | 0, _, _, _ => .error .hang
  | fuel + 1, val, pos, buf =>
    if 0 < val then do
      let pos ← usub pos 1
      let buf ← setAt buf pos (0x30 + UInt8.ofNat (val % 10))
      fmtDigits fuel (val / 10) pos buf
    else .ok (pos, buf)

/-- `if negative { pos -= 1; buf[pos] = b'-'; }` -/
def fmtSign (negative : Bool) (pos : Nat) (buf : List UInt8) : Rust Empty (Nat × List UInt8) :=
  if negative then do
    let pos ← usub pos 1
    let buf ← setAt buf pos 0x2D
    .ok (pos, buf)
  else .ok (pos, buf)

/-- What a number of `w` bits prints, with a buffer of `cap` bytes. -/
def fmtNumber {w : Nat} (cap minVal : Nat) (n : BitVec w) : Rust Empty (List UInt8) := do
  let buf := List.replicate cap 0
  let val ← fmtVal minVal n
  if val = 0 then .ok (ascii "0\n")
  else do
    let (pos, buf) ← fmtDigits 64 val buf.length buf
    let (pos, buf) ← fmtSign (n.slt 0) pos buf
    let s ← sliceFrom buf pos
    .ok (if validUtf8 s then s ++ ascii "\n" else [])

def fmtI32 (n : BitVec 32) : Rust Empty (List UInt8) := fmtNumber 11 2147483648 n

def fmtI64 (n : BitVec 64) : Rust Empty (List UInt8) := fmtNumber 20 9223372036854775808 n

/-! ## The part that is written -/

theorem fmtVal_eq {w : Nat} (hw : 0 < w) (n : BitVec w) : fmtVal (2 ^ (w - 1)) n = .ok n.toInt.natAbs := by
  unfold fmtVal
  by_cases hmin : n = BitVec.intMin w
  · rw [if_pos hmin, hmin, BitVec.toInt_intMin_of_pos hw, Int.natAbs_neg, Int.natAbs_pow]
    rfl
  · rw [if_neg hmin, show n.slt 0 = n.msb from BitVec.slt_zero_eq_msb]
    cases hneg : n.msb with
    | true =>
      rw [if_pos rfl, checkedNeg, if_neg hmin, bind_ok, BitVec.toInt_eq_neg_toNat_neg_of_msb_true hneg,
        Int.natAbs_neg, Int.natAbs_natCast]
    | false =>
      rw [if_neg Bool.false_ne_true, BitVec.toInt_eq_toNat_of_msb hneg, Int.natAbs_natCast]

theorem drop_set_pred {α : Type} {buf : List α} {pos : Nat} (h0 : 0 < pos) (h : pos ≤ buf.length) (c : α) :
    (buf.set (pos - 1) c).drop (pos - 1) = c :: buf.drop pos := by
  have hlt : pos - 1 < (buf.set (pos - 1) c).length := by
    rw [List.length_set]
    omega
  rw [List.drop_eq_getElem_cons hlt, List.getElem_set_self, List.drop_set_of_lt (by omega), Nat.sub_add_cancel h0]

/-- The written part of the buffer is what `digits` keeps. -/
theorem fmtDigits_of_digits {fuel val pos pos' : Nat} {buf text' : List UInt8} (hpos : pos ≤ buf.length)
    (h : digits fuel val pos (buf.drop pos) = .ok (pos', text')) :
    ∃ buf', fmtDigits fuel val pos buf = .ok (pos', buf') ∧ buf'.drop pos' = text' ∧
    buf'.length = buf.length ∧ pos' ≤ pos := by
  induction fuel generalizing val pos buf with
  | zero => cases h
  | succ fuel ih =>
    unfold digits at h
    unfold fmtDigits
    by_cases hz : val = 0
    · rw [if_pos hz] at h
      cases h
      rw [if_neg (by omega)]
      exact ⟨buf, rfl, rfl, rfl, Nat.le_refl _⟩
    · rw [if_neg hz] at h
      obtain ⟨p, hp, h⟩ := bind_eq_ok.mp h
      obtain ⟨hle, rfl⟩ := usub_eq_ok.mp hp
      have hlt : pos - 1 < buf.length := by omega
      rw [if_pos (Nat.pos_of_ne_zero hz), hp, bind_ok, setAt_of_lt hlt, bind_ok]
      rw [UInt8.ofNat_add, ← drop_set_pred hle hpos] at h
      obtain ⟨buf', hbuf, hdrop, hlen, hle'⟩ := ih (by rw [List.length_set]; exact Nat.le_of_lt hlt) h
      rw [List.length_set] at hlen
      exact ⟨buf', hbuf, hdrop, hlen, Nat.le_trans hle' (Nat.sub_le ..)⟩

theorem fmtSign_ok (negative : Bool) {pos : Nat} {buf : List UInt8} (h0 : 0 < pos) (hle : pos ≤ buf.length) :
    ∃ pos' buf', fmtSign negative pos buf = .ok (pos', buf') ∧ pos' ≤ buf'.length ∧
      buf'.drop pos' = if negative then 0x2D :: buf.drop pos else buf.drop pos := by
  unfold fmtSign
  cases negative with
  | true =>
    refine ⟨pos - 1, buf.set (pos - 1) 0x2D, ?_, ?_, drop_set_pred h0 hle _⟩
    · rw [if_pos rfl, usub, if_pos (Nat.succ_le_of_lt h0), bind_ok, setAt_of_lt (by omega), bind_ok]
    · rw [List.length_set]
      omega
  | false => exact ⟨pos, buf, rfl, hle, rfl⟩

/-! ## The digits -/

/-- Digits are written as long as some are left, and a position for each is needed. -/
theorem digits_eq {fuel val pos : Nat} (text : List UInt8) (hpos : (Decimal.significant val).length ≤ pos)
    (hfuel : (Decimal.significant val).length < fuel) :
    digits fuel val pos text = .ok (pos - (Decimal.significant val).length, Decimal.significant val ++ text) := by
  induction fuel generalizing val pos text with
  | zero => exact absurd hfuel (Nat.not_lt_zero _)
  | succ fuel ih =>
    unfold digits
    by_cases hz : val = 0
    · subst hz
      rfl
    · have hsig := Decimal.significant_succ hz
      have hlen : (Decimal.significant val).length = (Decimal.significant (val / 10)).length + 1 := by
        rw [hsig, List.length_append]
        rfl
      rw [if_neg hz, usub, if_pos (by omega), bind_ok, ih _ (by omega) (by omega), hsig,
        List.append_assoc, ← hsig, hlen,
        Nat.sub_sub, Nat.add_comm 1]
      rfl

/-- A buffer of one byte more than a number can have digits is long enough. -/
theorem fmtInt_eq {cap : Nat} {n : Int} (h0 : 0 < cap) (hn : n.natAbs < 10 ^ cap) (hcap : cap < 64) :
    fmtInt (cap + 1) n = .ok (Decimal.text n ++ ascii "\n") := by
  have hlen := Decimal.length_significant_le h0 hn
  unfold fmtInt
  by_cases hz : n = 0
  · rw [if_pos hz, hz]
    rfl
  · rw [if_neg hz, digits_eq [] (by omega) (by omega), bind_ok, Decimal.significant_of_ne (by omega),
      List.append_nil, Decimal.text]
    rw [Decimal.significant_of_ne (by omega)] at hlen
    dsimp only
    by_cases hneg : n < 0
    · rw [if_pos hneg, if_pos hneg, usub, if_pos (by omega), bind_ok]
      rfl
    · rw [if_neg hneg, if_neg hneg]

/-! ## What is printed -/

/-- The digits fill the end of the buffer, the sign is in front of them. -/
theorem fmtNumber_eq {w cap : Nat} (hw : 0 < w) (n : BitVec w) (h0 : 0 < cap) (hn : n.toInt.natAbs < 10 ^ cap)
    (hcap : cap < 64) :
    fmtNumber (cap + 1) (2 ^ (w - 1)) n = .ok (Decimal.text n.toInt ++ ascii "\n") := by
  have hlen := Decimal.length_significant_le h0 hn
  have hvalid := validUtf8_of_ascii (Decimal.numeral_text n.toInt).ascii
  have hbuf : (List.replicate (cap + 1) (0 : UInt8)).length = cap + 1 := List.length_replicate
  unfold fmtNumber
  dsimp only
  rw [fmtVal_eq hw, bind_ok, hbuf]
  by_cases hz : n.toInt = 0
  · rw [hz]
    rfl
  · have hne : n.toInt.natAbs ≠ 0 := by omega
    have hsig := Decimal.significant_of_ne hne
    rw [hsig] at hlen
    have hempty : (List.replicate (cap + 1) (0 : UInt8)).drop (cap + 1) = [] :=
      List.drop_eq_nil_of_le (Nat.le_of_eq hbuf)
    have hwritten : digits 64 n.toInt.natAbs (cap + 1) [] =
        .ok (cap + 1 - (Decimal.digits n.toInt.natAbs).length, Decimal.digits n.toInt.natAbs) := by
      rw [digits_eq [] (by rw [hsig]; omega) (by rw [hsig]; omega), hsig, List.append_nil]
    rw [← hempty] at hwritten
    obtain ⟨buf, hloop, hdrop, hlen', -⟩ := fmtDigits_of_digits (Nat.le_of_eq hbuf.symm) hwritten
    rw [hbuf] at hlen'
    have hneg : n.slt 0 = decide (n.toInt < 0) := congrArg (fun m => decide (n.toInt < m)) BitVec.toInt_zero
    obtain ⟨pos', buf', hsign, hle, hdrop'⟩ := fmtSign_ok (decide (n.toInt < 0))
      (show 0 < cap + 1 - (Decimal.digits n.toInt.natAbs).length by omega)
      (show cap + 1 - (Decimal.digits n.toInt.natAbs).length ≤ buf.length by omega)
    have htext : buf'.drop pos' = Decimal.text n.toInt := by
      rw [hdrop', hdrop, Decimal.text]
      simp only [decide_eq_true_eq]
    rw [if_neg hne, hloop, bind_ok, hneg]
    dsimp only
    rw [hsign, bind_ok]
    dsimp only
    rw [sliceFrom, if_pos hle, bind_ok, htext, if_pos hvalid]

theorem natAbs_i32 (n : BitVec 32) : n.toInt.natAbs < 10 ^ 10 := by
  have := n.toInt_lt
  have := n.le_toInt
  omega

theorem natAbs_i64 (n : BitVec 64) : n.toInt.natAbs < 10 ^ 19 := by
  have := n.toInt_lt
  have := n.le_toInt
  omega

/-- The text that the host functions print is the one that is written into the buffers. -/
theorem fmtInt_written : (∀ n, fmtInt 11 n.toInt = fmtI32 n) ∧ ∀ n, fmtInt 20 n.toInt = fmtI64 n := by
  constructor
  · intro n
    rw [fmtInt_eq (by decide) (natAbs_i32 n) (by decide)]
    exact (fmtNumber_eq (by decide) n (by decide) (natAbs_i32 n) (by decide)).symm
  · intro n
    rw [fmtInt_eq (by decide) (natAbs_i64 n) (by decide)]
    exact (fmtNumber_eq (by decide) n (by decide) (natAbs_i64 n) (by decide)).symm

/-- What is printed for `n` is its decimal representation, and a new line. -/
def PrintsDecimal (printed : Rust Empty (List UInt8)) (n : Int) : Prop :=
  ∃ s, printed = .ok (s ++ ascii "\n") ∧ s = Decimal.text n ∧ Decimal.Numeral s n ∧ Decimal.NoLeadingZero s

/-- Every number is printed exactly, and the writes stay inside the buffers. -/
theorem fmt_exact : (∀ n : BitVec 32, PrintsDecimal (fmtI32 n) n.toInt) ∧
    ∀ n : BitVec 64, PrintsDecimal (fmtI64 n) n.toInt := by
  constructor
  · intro n
    refine ⟨Decimal.text n.toInt, ?_, rfl, Decimal.numeral_text _, Decimal.text_noLeadingZero _⟩
    exact fmtNumber_eq (by decide) n (by decide) (natAbs_i32 n) (by decide)
  · intro n
    refine ⟨Decimal.text n.toInt, ?_, rfl, Decimal.numeral_text _, Decimal.text_noLeadingZero _⟩
    exact fmtNumber_eq (by decide) n (by decide) (natAbs_i64 n) (by decide)

end WasmOs
