import WasmOs.Scan
import WasmOs.Syntax

/-!
# The LEB-128 readers on well-formed encodings

Each reader consumes exactly the bytes of a well-formed encoding, whatever follows it.
-/

namespace WasmOs

theorem or_shift_toNat {w : Nat} (r : BitVec w) (v s : Nat) (hr : r.toNat < 2 ^ s)
    (hv : r.toNat + v * 2 ^ s < 2 ^ w) :
    (r ||| (BitVec.ofNat w v <<< s)).toNat = r.toNat + v * 2 ^ s := by
  have hvs : v * 2 ^ s < 2 ^ w := by omega
  have hvw : v < 2 ^ w := Nat.lt_of_le_of_lt (Nat.le_mul_of_pos_right v (Nat.two_pow_pos s)) hvs
  rw [BitVec.toNat_or, BitVec.toNat_shiftLeft, BitVec.toNat_ofNat, Nat.mod_eq_of_lt hvw, Nat.shiftLeft_eq,
    Nat.mod_eq_of_lt hvs, Nat.or_comm, Nat.mul_comm, ← Nat.two_pow_add_eq_or_of_lt hr, Nat.add_comm]

theorem and_0x7f_of_cont {b : UInt8} (h : 128 ≤ b.toNat) : (b &&& 0x7F).toNat = b.toNat - 128 := by
  have := b.toNat_lt
  rw [and_0x7f_toNat]; omega

theorem and_0x7f_of_last {b : UInt8} (h : b.toNat < 128) : (b &&& 0x7F).toNat = b.toNat := by
  rw [and_0x7f_toNat]; omega

/-- The `u32` reader in the middle of a number: `s` bits are read, `r` is their value. -/
theorem readU32_loop {N v : Nat} {raw : List UInt8} (h : ULeb N raw v) :
    ∀ (rest : List UInt8) (r : BitVec 32) (s i : Nat),
    s + N = 32 → r.toNat < 2 ^ s →
    readU32Leb128.loop (raw ++ rest) r s i = some (BitVec.ofNat 32 (r.toNat + v * 2 ^ s), i + raw.length) := by
  induction h with
  | @last N b hb hN =>
    intro rest r s i hs hr
    have hN' : b.toNat * 2 ^ s < 2 ^ 32 - 2 ^ s + 1 := by
      have h1 : (b.toNat + 1) * 2 ^ s ≤ 2 ^ N * 2 ^ s := Nat.mul_le_mul_right _ hN
      rw [← Nat.pow_add, Nat.add_comm N, hs, Nat.add_mul] at h1
      omega
    have hlt : r.toNat + b.toNat * 2 ^ s < 2 ^ 32 := by omega
    have hor := or_shift_toNat r b.toNat s hr hlt
    unfold readU32Leb128.loop
    rw [List.singleton_append]
    simp only [and_0x7f_of_last hb, (and_0x80_eq_zero b).mpr hb, if_true, List.length_singleton]
    rw [if_neg (by omega),
      show r ||| (BitVec.ofNat 32 b.toNat <<< s) = BitVec.ofNat 32 (r.toNat + b.toNat * 2 ^ s) from
      BitVec.eq_of_toNat_eq (by rw [hor, BitVec.toNat_ofNat, Nat.mod_eq_of_lt hlt])]
  | @more N v b bs hb hN hbs ih =>
    intro rest r s i hs hr
    have hb8 := b.toNat_lt
    have h7 : (b.toNat - 128) * 2 ^ s + 2 ^ s ≤ 2 ^ (s + 7) := by
      rw [Nat.pow_add, show (2 : Nat) ^ 7 = 127 + 1 from rfl, Nat.mul_add, Nat.mul_one, Nat.mul_comm]
      exact Nat.add_le_add_right (Nat.mul_le_mul_left _ (by omega)) _
    have hp : (2 : Nat) ^ (s + 7) ≤ 2 ^ 32 := Nat.pow_le_pow_right (by decide) (by omega)
    have hlt : r.toNat + (b.toNat - 128) * 2 ^ s < 2 ^ 32 := by omega
    have hor := or_shift_toNat r (b.toNat - 128) s hr hlt
    unfold readU32Leb128.loop
    rw [List.cons_append]
    simp only [and_0x7f_of_cont hb, and_0x80_eq_zero, show ¬ b.toNat < 128 by omega, if_false, List.length_cons]
    rw [if_neg (by omega), ih rest _ (s + 7) (i + 1) (by omega) (by omega), hor]
    congr 2
    · congr 1
      rw [Nat.pow_add, Nat.add_mul, show (2 : Nat) ^ 7 = 128 from rfl, ← Nat.mul_assoc,
        Nat.mul_right_comm, Nat.mul_comm v 128]
      omega
    · omega

theorem readU32_append (u : U32) (rest : List UInt8) :
    readU32Leb128 (u.raw ++ rest) = some (u.val, u.raw.length) := by
  unfold readU32Leb128
  rw [readU32_loop u.wf rest 0 0 0 rfl (by simp)]
  simp only [Option.map_some, BitVec.toNat_ofNat, Nat.pow_zero, Nat.mul_one, Nat.zero_add,
    show BitVec.toNat (0 : BitVec 32) = 0 from rfl, Nat.mod_eq_of_lt u.wf.lt]

theorem readI32_loop_length {raw : List UInt8} (h : LebShape raw) (rest : List UInt8) :
    ∀ (r : BitVec 32) (s i : Nat), s + 7 * raw.length < 42 →
      ∃ w, readI32Leb128.loop (raw ++ rest) r s i = some (w, i + raw.length) := by
  induction raw with
  | nil => exact h.elim
  | cons b bs ih =>
    intro r s i hs
    simp only [List.length_cons] at hs
    rw [List.cons_append, readI32Leb128.loop, if_neg (by omega)]
    cases bs with
    | nil =>
      simp only [(and_0x80_eq_zero b).mpr h, if_true]
      exact ⟨_, rfl⟩
    | cons c cs =>
      obtain ⟨hb, hcs⟩ := h
      simp only [and_0x80_eq_zero, show ¬ b.toNat < 128 by omega, if_false]
      obtain ⟨w, hw⟩ := ih hcs (r ||| (BitVec.ofNat 32 (b &&& 0x7F).toNat <<< s)) (s + 7) (i + 1) (by omega)
      exact ⟨w, by rw [hw]; simp only [List.length_cons]; congr 2; omega⟩

theorem readI32_append (c : S32) (rest : List UInt8) :
    ∃ w, readI32Leb128 (c.raw ++ rest) = some (w, c.raw.length) := by
  have := c.wf.length_le
  obtain ⟨w, hw⟩ := readI32_loop_length c.wf.shape rest 0 0 0 (by omega)
  exact ⟨w, by rw [readI32Leb128, hw, Nat.zero_add]⟩

/-- The `i32` reader on a number that is not negative. -/
theorem readI32_loop_nonneg {N : Nat} {v : Int} {raw : List UInt8} (h : SLeb N raw v) :
    0 ≤ v → ∀ (rest : List UInt8) (r : BitVec 32) (s i : Nat), s + N = 32 → r.toNat < 2 ^ s →
    readI32Leb128.loop (raw ++ rest) r s i = some (BitVec.ofNat 32 (r.toNat + v.toNat * 2 ^ s),
      i + raw.length) := by
  induction h with
  | @pos N b hb hN =>
    intro _ rest r s i hs hr
    have hlt : r.toNat + b.toNat * 2 ^ s < 2 ^ 32 := by
      have h1 : (b.toNat + 1) * 2 ^ s ≤ 2 ^ N * 2 ^ s :=
        Nat.mul_le_mul_right _ (Nat.le_trans hN (Nat.pow_le_pow_right (by decide) (Nat.sub_le N 1)))
      rw [← Nat.pow_add, Nat.add_comm N, hs, Nat.add_mul] at h1
      omega
    have hor := or_shift_toNat r b.toNat s hr hlt
    have h40 : b &&& 0x40 = 0 := (and_0x40_eq_zero b).mpr (by omega)
    have hs35 : s < 35 := by omega
    unfold readI32Leb128.loop
    rw [List.singleton_append]
    simp only [and_0x7f_of_last (b := b) (by omega), (and_0x80_eq_zero b).mpr (by omega), h40, if_true, ne_eq,
      not_true_eq_false, and_false, if_false, List.length_singleton, Int.toNat_natCast]
    rw [if_neg (by omega),
      show r ||| (BitVec.ofNat 32 b.toNat <<< s) = BitVec.ofNat 32 (r.toNat + b.toNat * 2 ^ s) from
      BitVec.eq_of_toNat_eq (by rw [hor, BitVec.toNat_ofNat, Nat.mod_eq_of_lt hlt])]
  | neg h1 h2 _ => intro hv; omega
  | @more N v b bs hb hN hbs ih =>
    intro hv rest r s i hs hr
    have hb8 := b.toNat_lt
    have hv' : 0 ≤ v := by omega
    have h7 : (b.toNat - 128) * 2 ^ s + 2 ^ s ≤ 2 ^ (s + 7) := by
      rw [Nat.pow_add, show (2 : Nat) ^ 7 = 127 + 1 from rfl, Nat.mul_add, Nat.mul_one, Nat.mul_comm]
      exact Nat.add_le_add_right (Nat.mul_le_mul_left _ (by omega)) _
    have hp : (2 : Nat) ^ (s + 7) ≤ 2 ^ 32 := Nat.pow_le_pow_right (by decide) (by omega)
    have hor := or_shift_toNat r (b.toNat - 128) s hr (by omega)
    have hval : (128 * v + ((b.toNat : Int) - 128)).toNat = 128 * v.toNat + (b.toNat - 128) := by omega
    unfold readI32Leb128.loop
    rw [List.cons_append, hval]
    simp only [and_0x7f_of_cont hb, and_0x80_eq_zero, show ¬ b.toNat < 128 by omega, if_false, List.length_cons]
    rw [if_neg (by omega), ih hv' rest _ (s + 7) (i + 1) (by omega) (by omega), hor]
    congr 2
    · congr 1
      rw [Nat.pow_add, Nat.add_mul, show (2 : Nat) ^ 7 = 128 from rfl, ← Nat.mul_assoc,
        Nat.mul_right_comm, Nat.mul_comm v.toNat 128]
      omega
    · omega

theorem readI32_nonneg (c : S32) (hc : 0 ≤ c.val) (rest : List UInt8) :
    readI32Leb128 (c.raw ++ rest) = some (BitVec.ofNat 32 c.val.toNat, c.raw.length) := by
  rw [readI32Leb128, readI32_loop_nonneg c.wf hc rest 0 0 0 rfl (by simp)]
  simp

theorem readI64_loop_length {raw : List UInt8} (h : LebShape raw) (rest : List UInt8) :
    ∀ (r : BitVec 64) (s i : Nat), s + 7 * raw.length < 77 →
      ∃ w, readI64Leb128.loop (raw ++ rest) r s i = some (w, i + raw.length) := by
  induction raw with
  | nil => exact h.elim
  | cons b bs ih =>
    intro r s i hs
    simp only [List.length_cons] at hs
    rw [List.cons_append, readI64Leb128.loop, if_neg (by omega)]
    cases bs with
    | nil =>
      simp only [(and_0x80_eq_zero b).mpr h, if_true]
      exact ⟨_, rfl⟩
    | cons c cs =>
      obtain ⟨hb, hcs⟩ := h
      simp only [and_0x80_eq_zero, show ¬ b.toNat < 128 by omega, if_false]
      obtain ⟨w, hw⟩ := ih hcs (r ||| (BitVec.ofNat 64 (b &&& 0x7F).toNat <<< s)) (s + 7) (i + 1) (by omega)
      exact ⟨w, by rw [hw]; simp only [List.length_cons]; congr 2; omega⟩

theorem readI64_append (c : S64) (rest : List UInt8) :
    ∃ w, readI64Leb128 (c.raw ++ rest) = some (w, c.raw.length) := by
  have := c.wf.length_le
  obtain ⟨w, hw⟩ := readI64_loop_length c.wf.shape rest 0 0 0 (by omega)
  exact ⟨w, by rw [readI64Leb128, hw, Nat.zero_add]⟩

/-! ## Skipping -/

theorem skip_loop_append {raw : List UInt8} (h : LebShape raw) (rest : List UInt8) (n : Nat) :
    skipLeb128.loop (raw ++ rest) n = some (n + raw.length) := by
  induction raw generalizing n with
  | nil => exact h.elim
  | cons b bs ih =>
    unfold skipLeb128.loop
    cases bs with
    | nil => simp [(and_0x80_eq_zero b).mpr h]
    | cons c cs =>
      obtain ⟨hb, hs⟩ := h
      simp only [List.cons_append, and_0x80_eq_zero, show ¬ b.toNat < 128 by omega, if_false]
      rw [← List.cons_append, ih hs]
      simp only [List.length_cons]; congr 1; omega

section
variable {body raw rest : List UInt8} {i : Nat} (hraw : LebShape raw) (h : body.drop i = raw ++ rest)
include h

theorem drop_append_length : body.drop (i + raw.length) = rest := by
  rw [← List.drop_drop, h, List.drop_left]

theorem getElem?_of_drop {b : UInt8} {bs : List UInt8} (hb : raw ++ rest = b :: bs) : body[i]? = some b := by
  have := congrArg (·[0]?) h
  simpa [hb] using this

include hraw

theorem skipLeb128_append : skipLeb128 body i = some raw.length := by
  rw [skipLeb128, h, skip_loop_append hraw, Nat.zero_add]

theorem skipLebs_one : skipLebs body 1 i = some (i + raw.length) := by
  simp [skipLebs, skipLeb128_append hraw h]

end

theorem skipLebs_labels : ∀ (labels : List U32) (body rest : List UInt8) (i : Nat),
    body.drop i = labels.flatMap U32.raw ++ rest →
    skipLebs body labels.length i = some (i + (labels.flatMap U32.raw).length)
  | [], _, _, _, _ => rfl
  | u :: us, body, rest, i, h => by
    rw [List.flatMap_cons, List.append_assoc] at h
    have := skipLebs_labels us body rest (i + u.raw.length) (drop_append_length h)
    simp only [List.length_cons, skipLebs, skipLeb128_append u.wf.shape h, Option.bind_some, this,
      List.flatMap_cons, List.length_append]
    congr 1; omega

end WasmOs
