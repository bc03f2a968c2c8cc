import WasmOs.AsmSound
import Mathlib.Tactic.Ring

/-!
# The LEB-128 readers on any bytes

What the bytes at the front encode, whether it fits or not, and what the three readers make of it: they
take the encoded integer modulo the width of their type. The readers are instances of one loop whose
shifts are checked.
-/

namespace WasmOs

/-! ## Encoded integers -/

/-- The bytes up to the first one without a continuation bit. -/
def lebPrefix : List UInt8 → Option (List UInt8)
  | [] => none
  | b :: bytes => if b.toNat < 128 then some [b] else (lebPrefix bytes).map (b :: ·)

/-- Seven bits of each byte, the lowest first; in a signed number the highest bit of all counts negatively. -/
def lebValue (signed : Bool) : List UInt8 → Int
  | [] => 0
  | [b] => if signed ∧ 64 ≤ b.toNat % 128 then (b.toNat % 128 : Nat) - 128 else (b.toNat % 128 : Nat)
  | b :: bytes => (b.toNat % 128 : Nat) + 128 * lebValue signed bytes

/-- The integer encoded by at most `max` bytes at the front, and how many they are. -/
def encoded (signed : Bool) (max : Nat) (bytes : List UInt8) : Option (Int × Nat) :=
  (lebPrefix bytes).bind fun enc => if enc.length ≤ max then some (lebValue signed enc, enc.length) else none

theorem lebPrefix_append {bytes enc : List UInt8} (h : lebPrefix bytes = some enc) :
    LebShape enc ∧ ∃ rest, bytes = enc ++ rest := by
  induction bytes generalizing enc with
  | nil => cases h
  | cons b bytes ih =>
    unfold lebPrefix at h
    by_cases hb : b.toNat < 128
    · rw [if_pos hb] at h
      cases h
      exact ⟨hb, bytes, rfl⟩
    · rw [if_neg hb, Option.map_eq_some_iff] at h
      obtain ⟨tail, htail, rfl⟩ := h
      obtain ⟨hshape, rest, rfl⟩ := ih htail
      exact ⟨.cons (Nat.le_of_not_lt hb) hshape, rest, rfl⟩

theorem lebPrefix_of_shape {enc : List UInt8} (h : LebShape enc) (rest : List UInt8) :
    lebPrefix (enc ++ rest) = some enc := by
  induction enc with
  | nil => exact h.elim
  | cons b enc ih =>
    rw [List.cons_append, lebPrefix]
    cases enc with
    | nil => rw [if_pos (show b.toNat < 128 from h)]
    | cons c enc =>
      obtain ⟨hb, hshape⟩ := h
      rw [if_neg (Nat.not_lt.mpr hb), ih hshape, Option.map_some]

theorem ULeb.value {N v : Nat} {enc : List UInt8} (h : ULeb N enc v) : lebValue false enc = v := by
  induction h with
  | @last N b hb hN => simp [lebValue, Nat.mod_eq_of_lt hb]
  | @more N v b bs hb hN hbs ih =>
    have hlt := b.toNat_lt
    have hne := hbs.shape.ne_nil
    cases bs with
    | nil => exact absurd rfl hne
    | cons c bs =>
      rw [lebValue, ih]
      · omega
      · exact nofun

theorem SLeb.value {N : Nat} {v : Int} {enc : List UInt8} (h : SLeb N enc v) : lebValue true enc = v := by
  induction h with
  | @pos N b hb hN =>
    have hmod : b.toNat % 128 = b.toNat := Nat.mod_eq_of_lt (by omega)
    simp only [lebValue, hmod]
    rw [if_neg (by omega)]
  | @neg N b hb hlt hN =>
    have hmod : b.toNat % 128 = b.toNat := Nat.mod_eq_of_lt hlt
    simp only [lebValue, hmod]
    rw [if_pos ⟨trivial, hb⟩]
  | @more N v b bs hb hN hbs ih =>
    have hlt := b.toNat_lt
    have hne := hbs.shape.ne_nil
    cases bs with
    | nil => exact absurd rfl hne
    | cons c bs =>
      rw [lebValue, ih]
      · omega
      · exact nofun

/-! ## The loop of the readers -/

/-- `x << shift`; a shift by the width or more panics. -/
def shl {ε : Type} {w : Nat} (x : BitVec w) (shift : Nat) : Rust ε (BitVec w) :=
  if shift < w then .ok (x <<< shift) else .error .panic

/-- The loop of the three readers, for a type of `w` bits of which `limit` are read. -/
def lebLoop {ε : Type} (w limit : Nat) (signed : Bool) :
    List UInt8 → BitVec w → Nat → Nat → Rust ε (Option (BitVec w × Nat))
  | [], _, _, _ => .ok none
  | byte :: bytes, result, shift, i =>
    if limit ≤ shift then .ok none
    else do
      let part ← shl (BitVec.ofNat w (byte &&& 0x7F).toNat) shift
      let result := result ||| part
      let shift := shift + 7
      if byte &&& 0x80 = 0 then
        if signed ∧ shift < w ∧ byte &&& 0x40 ≠ 0 then do
          let ones ← shl (BitVec.allOnes w) shift
          .ok (some (result ||| ones, i + 1))
        else .ok (some (result, i + 1))
      else lebLoop w limit signed bytes result shift (i + 1)

section
variable {w : Nat}

theorem or_shift_eq_add (r x : BitVec w) {s : Nat} (hr : r.toNat < 2 ^ s) : r ||| (x <<< s) = r + x <<< s := by
  refine (BitVec.add_eq_or_of_and_eq_zero r (x <<< s) ?_).symm
  apply BitVec.eq_of_getLsbD_eq
  intro i hi
  rw [BitVec.getLsbD_and, BitVec.getLsbD_shiftLeft, BitVec.getLsbD_zero]
  by_cases his : i < s
  · simp [his]
  · have hzero : r.getLsbD i = false := by
      rw [BitVec.getLsbD, Nat.testBit_lt_two_pow
        (Nat.lt_of_lt_of_le hr (Nat.pow_le_pow_right (by decide) (Nat.le_of_not_lt his)))]
    simp [hzero]

theorem shiftLeft_ofInt (n : Int) (s : Nat) : BitVec.ofInt w n <<< s = BitVec.ofInt w (n * 2 ^ s) := by
  have htwo : BitVec.twoPow w s = BitVec.ofInt w (2 ^ s) := by
    apply BitVec.eq_of_toNat_eq
    rw [BitVec.toNat_twoPow, BitVec.toNat_ofInt]
    norm_cast
  rw [BitVec.shiftLeft_eq_mul_twoPow, htwo, BitVec.ofInt_mul]

theorem or_shift_ofInt (r : BitVec w) (n : Int) {s : Nat} (hr : r.toNat < 2 ^ s) :
    r ||| (BitVec.ofInt w n <<< s) = BitVec.ofInt w (r.toNat + n * 2 ^ s) := by
  have hint : BitVec.ofInt w r.toNat = r := by simp
  rw [or_shift_eq_add r _ hr, shiftLeft_ofInt, BitVec.ofInt_add, hint]

theorem ofInt_congr {m n k : Int} (h : m = n + k * 2 ^ w) : BitVec.ofInt w m = BitVec.ofInt w n := by
  apply BitVec.eq_of_toNat_eq
  rw [BitVec.toNat_ofInt, BitVec.toNat_ofInt, h]
  congr 1
  push_cast
  exact Int.add_mul_emod_self_right ..

end

theorem lebPrefix_length {bytes enc : List UInt8} (h : lebPrefix bytes = some enc) : 0 < enc.length :=
  List.length_pos_iff.mpr (lebPrefix_append h).1.ne_nil

theorem lebPrefix_last {b : UInt8} (hb : b.toNat < 128) (bytes : List UInt8) :
    lebPrefix (b :: bytes) = some [b] := if_pos hb

theorem lebPrefix_more {b : UInt8} (hb : ¬ b.toNat < 128) (bytes : List UInt8) :
    lebPrefix (b :: bytes) = (lebPrefix bytes).map (b :: ·) := if_neg hb

theorem lebValue_cons (signed : Bool) (b : UInt8) {enc : List UInt8} (h : enc ≠ []) :
    lebValue signed (b :: enc) = (b.toNat % 128 : Nat) + 128 * lebValue signed enc := by
  cases enc with
  | nil => exact absurd rfl h
  | cons c enc => rfl

theorem lebValue_last (signed : Bool) (b : UInt8) :
    lebValue signed [b] = if signed ∧ 64 ≤ b.toNat % 128 then ((b.toNat % 128 : Nat) : Int) - 128 else
      (b.toNat % 128 : Nat) := rfl

/-! ## One group of seven bits -/

section
variable {w : Nat}

theorem group_lt {r d s : Nat} (hr : r < 2 ^ s) (hd : d < 128) : r + d * 2 ^ s < 2 ^ (s + 7) := by
  have hmul : d * 2 ^ s ≤ 127 * 2 ^ s := Nat.mul_le_mul_right _ (by omega)
  rw [Nat.pow_add, show (2 : Nat) ^ 7 = 128 from rfl]
  omega

theorem group_toNat {r d s : Nat} (hlt : r + d * 2 ^ s < 2 ^ (s + 7)) (hw : s + 7 < w) :
    (BitVec.ofInt w ((r : Int) + (d : Int) * 2 ^ s)).toNat = r + d * 2 ^ s := by
  have hpow : (2 : Nat) ^ (s + 7) ≤ 2 ^ w := Nat.pow_le_pow_right (by decide) (Nat.le_of_lt hw)
  have hcast : ((r : Int) + (d : Int) * 2 ^ s) = ((r + d * 2 ^ s : Nat) : Int) := by
    push_cast
    rfl
  rw [hcast, BitVec.ofInt_natCast, BitVec.toNat_ofNat, Nat.mod_eq_of_lt (by omega)]

/-- Ones above the last group make it negative. -/
theorem group_signed {r d s : Nat} (hlt : r + d * 2 ^ s < 2 ^ (s + 7)) (hw : s + 7 < w) :
    BitVec.ofInt w ((r : Int) + (d : Int) * 2 ^ s) ||| (BitVec.allOnes w <<< (s + 7)) =
    BitVec.ofInt w (r + ((d : Int) - 128) * 2 ^ s) := by
  have hones : BitVec.allOnes w = BitVec.ofInt w (-1) := by
    rw [BitVec.ofInt_neg, ← BitVec.neg_one_eq_allOnes]
    rfl
  rw [hones, or_shift_ofInt _ _ (by rw [group_toNat hlt hw]; exact hlt), group_toNat hlt hw]
  congr 1
  push_cast
  ring

theorem group_wraps (r d : Nat) {s : Nat} (hw : ¬ s + 7 < w) :
    BitVec.ofInt w ((r : Int) + (d : Int) * 2 ^ s) = BitVec.ofInt w (r + ((d : Int) - 128) * 2 ^ s) := by
  apply ofInt_congr (k := 2 ^ (s + 7 - w))
  rw [← Int.pow_add, Nat.sub_add_cancel (Nat.le_of_not_lt hw), Int.pow_add]
  ring

/-- The value of an encoding that ends with `b`. -/
theorem lebLast_eq {ε : Type} {signed : Bool} {b : UInt8} {r s : Nat} (hr : r < 2 ^ s) (i : Nat) :
    (if signed ∧ s + 7 < w ∧ b &&& 0x40 ≠ 0 then do
        let ones ← shl (BitVec.allOnes w) (s + 7)
        .ok (some (BitVec.ofInt w (r + (b.toNat % 128 : Nat) * 2 ^ s) ||| ones, i))
      else .ok (some (BitVec.ofInt w (r + (b.toNat % 128 : Nat) * 2 ^ s), i)) : Rust ε _) =
      .ok (some (BitVec.ofInt w (r + lebValue signed [b] * 2 ^ s), i)) := by
  have hlt : r + b.toNat % 128 * 2 ^ s < 2 ^ (s + 7) := group_lt hr (Nat.mod_lt _ (by decide))
  rw [lebValue_last]
  by_cases hneg : signed = true ∧ 64 ≤ b.toNat % 128
  · have h40 : b &&& 0x40 ≠ 0 := by
      rw [ne_eq, and_0x40_eq_zero]
      exact Nat.not_lt.mpr hneg.2
    rw [if_pos hneg]
    by_cases hw : s + 7 < w
    · rw [if_pos ⟨hneg.1, hw, h40⟩, shl, if_pos hw, bind_ok, group_signed hlt hw]
    · rw [if_neg (fun h => hw h.2.1), group_wraps _ _ hw]
  · have hplain : ¬ (signed = true ∧ s + 7 < w ∧ b &&& 0x40 ≠ 0) := by
      intro ⟨hsigned, _, h40⟩
      rw [ne_eq, and_0x40_eq_zero] at h40
      exact hneg ⟨hsigned, by omega⟩
    rw [if_neg hneg, if_neg hplain]

end

/-- What the loop makes of the bytes ahead of it: the encoded integer, modulo the width, above the bits it has. -/
theorem lebLoop_eq {ε : Type} {w limit : Nat} {signed : Bool} (hlimit : limit < w + 7) (bytes : List UInt8)
    (r : BitVec w) (s i : Nat) (hr : s < w → r.toNat < 2 ^ s) (hs : ∃ k, limit = s + 7 * k) :
    (lebLoop w limit signed bytes r s i : Rust ε _) = .ok ((lebPrefix bytes).bind fun enc =>
      if s + 7 * enc.length ≤ limit then some (BitVec.ofInt w (r.toNat + lebValue signed enc * 2 ^ s),
        i + enc.length) else none) := by
  induction bytes generalizing r s i with
  | nil => rfl
  | cons b bytes ih =>
    obtain ⟨k, hk⟩ := hs
    unfold lebLoop
    by_cases hend : limit ≤ s
    · rw [if_pos hend]
      cases henc : lebPrefix (b :: bytes) with
      | none => rfl
      | some enc =>
        have hpos := lebPrefix_length henc
        rw [Option.bind_some, if_neg (by omega)]
    have hsw : s < w := by omega
    have hbyte : BitVec.ofNat w (b &&& 0x7F).toNat = BitVec.ofInt w (b.toNat % 128 : Nat) := by
      rw [and_0x7f_toNat, BitVec.ofInt_natCast]
    have hor := or_shift_ofInt r (b.toNat % 128 : Nat) (hr hsw)
    rw [if_neg hend, shl, if_pos hsw, bind_ok, hbyte, hor]
    by_cases hlast : b.toNat < 128
    · have hguard : s + 7 * [b].length ≤ limit := by
        rw [List.length_singleton]
        omega
      rw [if_pos ((and_0x80_eq_zero b).mpr hlast), lebPrefix_last hlast, Option.bind_some, if_pos hguard,
        List.length_singleton]
      exact lebLast_eq (hr hsw) (i + 1)
    · have hlt : r.toNat + b.toNat % 128 * 2 ^ s < 2 ^ (s + 7) := group_lt (hr hsw) (Nat.mod_lt _ (by decide))
      rw [if_neg (mt (and_0x80_eq_zero b).mp hlast), lebPrefix_more hlast]
      rw [ih _ (s + 7) (i + 1) (fun hw => by rw [group_toNat hlt hw]; exact hlt) ⟨k - 1, by omega⟩]
      cases henc : lebPrefix bytes with
      | none => rfl
      | some enc =>
        have hpos := lebPrefix_length henc
        rw [Option.map_some, Option.bind_some, Option.bind_some, List.length_cons]
        by_cases hfits : s + 7 + 7 * enc.length ≤ limit
        · rw [if_pos hfits, if_pos (by omega), lebValue_cons signed b (List.length_pos_iff.mp hpos),
            group_toNat hlt (by omega)]
          congr 3
          · congr 1
            push_cast
            rw [Int.pow_add]
            ring
          · omega
        · rw [if_neg hfits, if_neg (by omega)]

/-- A reader with these rounds gives what its loop with checked shifts gives, if no shift is out of range. -/
theorem reader_of_checked {ε : Type} {w limit : Nat} {signed : Bool} {f : List UInt8 → BitVec w → Nat → Nat →
      Option (BitVec w × Nat)}
    (hnil : ∀ r s i, f [] r s i = none) (hcons : ∀ b bytes r s i, f (b :: bytes) r s i =
      if limit ≤ s then none
      else if b &&& 0x80 = 0 then
        some (if signed ∧ s + 7 < w ∧ b &&& 0x40 ≠ 0 then
          (r ||| (BitVec.ofNat w (b &&& 0x7F).toNat <<< s)) ||| (BitVec.allOnes w <<< (s + 7))
          else r ||| (BitVec.ofNat w (b &&& 0x7F).toNat <<< s), i + 1)
      else f bytes (r ||| (BitVec.ofNat w (b &&& 0x7F).toNat <<< s)) (s + 7) (i + 1))
    (bytes : List UInt8) (r : BitVec w) (s i : Nat) {o : Option (BitVec w × Nat)}
    (h : (lebLoop w limit signed bytes r s i : Rust ε _) = .ok o) : f bytes r s i = o := by
  induction bytes generalizing r s i with
  | nil => rw [hnil, Except.ok.inj h]
  | cons b bytes ih =>
    unfold lebLoop at h
    rw [hcons]
    by_cases hend : limit ≤ s
    · rw [if_pos hend] at h ⊢
      exact Except.ok.inj h
    rw [if_neg hend] at h ⊢
    obtain ⟨part, hpart, h⟩ := bind_eq_ok.mp h
    have heq : part = BitVec.ofNat w (b &&& 0x7F).toNat <<< s := by
      unfold shl at hpart
      split at hpart
      · exact (Except.ok.inj hpart).symm
      · cases hpart
    rw [← heq]
    by_cases hlast : b &&& 0x80 = 0
    · rw [if_pos hlast] at h ⊢
      by_cases hneg : signed = true ∧ s + 7 < w ∧ b &&& 0x40 ≠ 0
      · rw [if_pos hneg] at h
        rw [if_pos hneg]
        rw [shl, if_pos hneg.2.1, bind_ok] at h
        exact Except.ok.inj h
      · rw [if_neg hneg] at h
        rw [if_neg hneg]
        exact Except.ok.inj h
    · rw [if_neg hlast] at h ⊢
      exact ih (r ||| part) (s + 7) (i + 1) h

/-! ## The three readers -/

def readU32Checked {ε : Type} (bytes : List UInt8) : Rust ε (Option (BitVec 32 × Nat)) :=
  lebLoop 32 35 false bytes 0 0 0

def readI32Checked {ε : Type} (bytes : List UInt8) : Rust ε (Option (BitVec 32 × Nat)) :=
  lebLoop 32 35 true bytes 0 0 0

def readI64Checked {ε : Type} (bytes : List UInt8) : Rust ε (Option (BitVec 64 × Nat)) :=
  lebLoop 64 70 true bytes 0 0 0

/-- From the start the loop gives the encoded integer modulo the width. -/
theorem lebLoop_start {ε : Type} {w n : Nat} {signed : Bool} (hn : 7 * n < w + 7) (bytes : List UInt8) :
    (lebLoop w (7 * n) signed bytes 0 0 0 : Rust ε _) =
      .ok ((encoded signed n bytes).map fun p => (BitVec.ofInt w p.1, p.2)) := by
  rw [lebLoop_eq hn bytes 0 0 0 (fun _ => by simp) ⟨n, by omega⟩]
  congr 1
  unfold encoded
  cases lebPrefix bytes with
  | none => rfl
  | some enc =>
    rw [Option.bind_some, Option.bind_some]
    by_cases hlen : enc.length ≤ n
    · rw [if_pos hlen, if_pos (by omega), Option.map_some]
      simp
    · rw [if_neg hlen, if_neg (by omega), Option.map_none]

section
variable {ε : Type}

theorem readU32_loop_eq (bytes : List UInt8) :
    readU32Leb128.loop bytes 0 0 0 = (encoded false 5 bytes).map fun p => (BitVec.ofInt 32 p.1, p.2) := by
  have hchecked : (readU32Checked bytes : Rust Empty _) = _ := lebLoop_start (n := 5) (by decide) bytes
  refine reader_of_checked (fun _ _ _ => rfl) (fun b bytes r s i => ?_) bytes 0 0 0 hchecked
  rw [readU32Leb128.loop]
  simp

theorem readI32_eq (bytes : List UInt8) :
    readI32Leb128 bytes = (encoded true 5 bytes).map fun p => (BitVec.ofInt 32 p.1, p.2) := by
  have hchecked : (readI32Checked bytes : Rust Empty _) = _ := lebLoop_start (n := 5) (by decide) bytes
  refine reader_of_checked (fun _ _ _ => rfl) (fun b bytes r s i => ?_) bytes 0 0 0 hchecked
  rw [readI32Leb128.loop]
  simp

theorem readI64_eq (bytes : List UInt8) :
    readI64Leb128 bytes = (encoded true 10 bytes).map fun p => (BitVec.ofInt 64 p.1, p.2) := by
  have hchecked : (readI64Checked bytes : Rust Empty _) = _ := lebLoop_start (n := 10) (by decide) bytes
  refine reader_of_checked (fun _ _ _ => rfl) (fun b bytes r s i => ?_) bytes 0 0 0 hchecked
  rw [readI64Leb128.loop]
  simp

theorem readU32_checked (bytes : List UInt8) :
    (readU32Checked bytes : Rust ε _) = .ok (readU32Leb128.loop bytes 0 0 0) := by
  rw [readU32_loop_eq]
  exact lebLoop_start (n := 5) (by decide) bytes

theorem readI32_checked (bytes : List UInt8) : (readI32Checked bytes : Rust ε _) = .ok (readI32Leb128 bytes) := by
  rw [readI32_eq]
  exact lebLoop_start (n := 5) (by decide) bytes

theorem readI64_checked (bytes : List UInt8) : (readI64Checked bytes : Rust ε _) = .ok (readI64Leb128 bytes) := by
  rw [readI64_eq]
  exact lebLoop_start (n := 10) (by decide) bytes

end

theorem readU32_eq (bytes : List UInt8) :
    readU32Leb128 bytes = (encoded false 5 bytes).map fun p => ((BitVec.ofInt 32 p.1).toNat, p.2) := by
  rw [readU32Leb128, readU32_loop_eq, Option.map_map]
  rfl

/-! ## What does not fit -/

/-- Integers of a type; the others are rejected. -/
def fitting (lo hi : Int) (o : Option (Int × Nat)) : Option (Int × Nat) := o.filter fun p => lo ≤ p.1 ∧ p.1 < hi

/-- Reading modulo the width is rejecting what does not fit exactly when everything fits. -/
theorem modulo_eq_fitting_iff {f : Int → Int} {lo hi : Int} (hf : ∀ n, lo ≤ n → n < hi → f n = n)
    (o : Option (Int × Nat)) :
    o.map (fun p => (f p.1, p.2)) = fitting lo hi o ↔ ∀ p, o = some p → lo ≤ p.1 ∧ p.1 < hi := by
  cases o with
  | none => exact ⟨fun _ => nofun, fun _ => rfl⟩
  | some p =>
    obtain ⟨n, len⟩ := p
    unfold fitting
    rw [Option.map_some, Option.filter_some]
    by_cases hfits : lo ≤ n ∧ n < hi
    · rw [if_pos (by simpa using hfits), hf n hfits.1 hfits.2]
      exact ⟨fun _ p hp => by cases hp; exact hfits, fun _ => rfl⟩
    · rw [if_neg (by simpa using hfits)]
      exact ⟨nofun, fun h => absurd (h _ rfl) hfits⟩

theorem encoded_nonneg {max : Nat} {bytes : List UInt8} {p : Int × Nat}
    (h : encoded false max bytes = some p) : 0 ≤ p.1 := by
  have hvalue : ∀ enc : List UInt8, 0 ≤ lebValue false enc := by
    intro enc
    induction enc with
    | nil => exact Int.le_refl 0
    | cons b enc ih =>
      cases enc with
      | nil =>
        rw [lebValue_last, if_neg nofun]
        exact Int.natCast_nonneg _
      | cons c enc =>
        rw [lebValue_cons false b (List.cons_ne_nil _ _)]
        omega
  obtain ⟨enc, -, h⟩ := Option.bind_eq_some_iff.mp h
  split at h
  · cases h
    exact hvalue enc
  · cases h

theorem lebReaders_reject_iff (bytes : List UInt8) :
    ((readU32Leb128 bytes).map (fun p => ((p.1 : Int), p.2)) = fitting 0 (2 ^ 32) (encoded false 5 bytes) ↔
      ∀ p, encoded false 5 bytes = some p → p.1 < 2 ^ 32) ∧
    ((readI32Leb128 bytes).map (fun p => (p.1.toInt, p.2)) = fitting (-2 ^ 31) (2 ^ 31) (encoded true 5 bytes) ↔
      ∀ p, encoded true 5 bytes = some p → -2 ^ 31 ≤ p.1 ∧ p.1 < 2 ^ 31) ∧
    ((readI64Leb128 bytes).map (fun p => (p.1.toInt, p.2)) = fitting (-2 ^ 63) (2 ^ 63) (encoded true 10 bytes) ↔
      ∀ p, encoded true 10 bytes = some p → -2 ^ 63 ≤ p.1 ∧ p.1 < 2 ^ 63) ∧
    (readU32Checked bytes : Rust Empty _) = .ok (readU32Leb128.loop bytes 0 0 0) ∧
    (readI32Checked bytes : Rust Empty _) = .ok (readI32Leb128 bytes) ∧
    (readI64Checked bytes : Rust Empty _) = .ok (readI64Leb128 bytes) := by
  refine ⟨?_, ?_, ?_, readU32_checked bytes, readI32_checked bytes, readI64_checked bytes⟩
  · have hmod : ∀ n : Int, 0 ≤ n → n < 2 ^ 32 → ((BitVec.ofInt 32 n).toNat : Int) = n := by
      intro n hlo hhi
      rw [BitVec.toNat_ofInt]
      omega
    rw [readU32_eq, Option.map_map]
    refine (modulo_eq_fitting_iff hmod (encoded false 5 bytes)).trans ⟨fun h p hp => (h p hp).2, fun h p hp =>
      ⟨encoded_nonneg hp, h p hp⟩⟩
  · have hmod : ∀ n : Int, -2 ^ 31 ≤ n → n < 2 ^ 31 → (BitVec.ofInt 32 n).toInt = n := by
      intro n hlo hhi
      rw [BitVec.toInt_ofInt_eq_self (by decide) hlo hhi]
    rw [readI32_eq, Option.map_map]
    exact modulo_eq_fitting_iff hmod (encoded true 5 bytes)
  · have hmod : ∀ n : Int, -2 ^ 63 ≤ n → n < 2 ^ 63 → (BitVec.ofInt 64 n).toInt = n := by
      intro n hlo hhi
      rw [BitVec.toInt_ofInt_eq_self (by decide) hlo hhi]
    rw [readI64_eq, Option.map_map]
    exact modulo_eq_fitting_iff hmod (encoded true 10 bytes)

/-- Five groups of ones are 2^35 - 1. -/
theorem lebReaders_keep_overflow : encoded false 5 [0xFF, 0xFF, 0xFF, 0xFF, 0x7F] = some (2 ^ 35 - 1, 5) ∧
    readU32Leb128 [0xFF, 0xFF, 0xFF, 0xFF, 0x7F] = some (2 ^ 32 - 1, 5) ∧
    (readU32Leb128 [0xFF, 0xFF, 0xFF, 0xFF, 0x7F]).map (fun p => ((p.1 : Int), p.2)) ≠
      fitting 0 (2 ^ 32) (encoded false 5 [0xFF, 0xFF, 0xFF, 0xFF, 0x7F]) := by
  decide

/-! ## What the assembler writes -/

theorem encoded_of_shape {enc : List UInt8} (h : LebShape enc) (signed : Bool) {max : Nat}
    (hmax : enc.length ≤ max) (rest : List UInt8) :
    encoded signed max (enc ++ rest) = some (lebValue signed enc, enc.length) := by
  rw [encoded, lebPrefix_of_shape h, Option.bind_some, if_pos hmax]

theorem encoded_write (v : BitVec 32) {max : Nat} (hmax : 5 ≤ max) (rest : List UInt8) :
    encoded true max (Asm.writeLeb128I32 v ++ rest) = some (v.toInt, (Asm.writeLeb128I32 v).length) := by
  have hwf : SLeb 32 (Asm.writeLeb128I32 v) v.toInt := (Asm.s32Of v).wf
  have hlen := hwf.length_le
  rw [encoded_of_shape hwf.shape true (by omega), hwf.value]

theorem readI32_write (v : BitVec 32) (rest : List UInt8) :
    readI32Leb128 (Asm.writeLeb128I32 v ++ rest) = some (v, (Asm.writeLeb128I32 v).length) := by
  rw [readI32_eq, encoded_write v (by decide), Option.map_some, BitVec.ofInt_toInt]

theorem readI64_write (v : BitVec 32) (rest : List UInt8) :
    readI64Leb128 (Asm.writeLeb128I32 v ++ rest) = some (v.signExtend 64, (Asm.writeLeb128I32 v).length) := by
  rw [readI64_eq, encoded_write v (by decide), Option.map_some, BitVec.signExtend]

theorem lebValue_bound (enc : List UInt8) (hne : enc ≠ []) : lebValue false enc < 128 ^ enc.length ∧
    -(64 * 128 ^ (enc.length - 1)) ≤ lebValue true enc ∧ lebValue true enc < 64 * 128 ^ (enc.length - 1) := by
  induction enc with
  | nil => exact absurd rfl hne
  | cons b enc ih =>
    cases enc with
    | nil =>
      rw [lebValue_last, lebValue_last, if_neg (fun h : false = true ∧ _ => nomatch h.1)]
      refine ⟨by simp; omega, ?_⟩
      split
      · simp
        omega
      · next h => simp at h ⊢; omega
    | cons c enc =>
      obtain ⟨hun, hlo, hhi⟩ := ih (List.cons_ne_nil c enc)
      rw [lebValue_cons false b (List.cons_ne_nil _ _), lebValue_cons true b (List.cons_ne_nil _ _)]
      rw [List.length_cons, Nat.add_sub_cancel] at hlo hhi
      have hlen : (b :: c :: enc).length - 1 = enc.length + 1 := rfl
      rw [hlen, Int.pow_succ, List.length_cons]
      refine ⟨?_, ?_, ?_⟩
      · rw [Int.pow_succ]
        omega
      · omega
      · omega

theorem writeU32_loop_length {n : Nat} (hn : 0 < n) (fuel : Nat) (val : UInt32) (h : val.toNat < 128 ^ n) :
    (Asm.writeLeb128U32.loop fuel val).length ≤ n := by
  induction fuel generalizing n val with
  | zero => exact Nat.zero_le n
  | succ fuel ih =>
    unfold Asm.writeLeb128U32.loop
    dsimp only
    have hshift : (val >>> 7).toNat = val.toNat / 128 := by simp [Nat.shiftRight_eq_div_pow]
    by_cases hz : val >>> 7 = 0
    · rw [if_pos hz]
      exact hn
    · rw [if_neg hz, List.length_cons]
      obtain ⟨k, rfl⟩ := Nat.exists_eq_succ_of_ne_zero (Nat.ne_of_gt hn)
      have hlt : (val >>> 7).toNat < 128 ^ k := by
        rw [hshift, Nat.div_lt_iff_lt_mul (by decide), ← Nat.pow_succ]
        exact h
      have hpos : 0 < k := by
        refine Nat.pos_of_ne_zero fun hk => hz ?_
        subst hk
        apply UInt32.toNat_inj.mp
        simpa using hlt
      exact Nat.succ_le_succ (ih hpos _ hlt)

theorem writeI32_loop_length {n : Nat} (hn : 0 < n) (fuel : Nat) (val : BitVec 32)
    (hlo : -(64 * 128 ^ (n - 1)) ≤ val.toInt)
    (hhi : val.toInt < 64 * 128 ^ (n - 1)) : (Asm.writeLeb128I32.loop fuel val).length ≤ n := by
  induction fuel generalizing n val with
  | zero => exact Nat.zero_le n
  | succ fuel ih =>
    unfold Asm.writeLeb128I32.loop
    dsimp only
    by_cases hm : ¬ (val.sshiftRight 6 ≠ 0 ∧ val.sshiftRight 6 ≠ -1)
    · rw [if_pos hm]
      exact hn
    · rw [if_neg hm, List.length_cons]
      have hbig := mt (Asm.not_more_iff val).mpr hm
      obtain ⟨k, rfl⟩ := Nat.exists_eq_succ_of_ne_zero (Nat.ne_of_gt hn)
      rw [Nat.succ_eq_add_one, Nat.add_sub_cancel] at hlo hhi
      have hpos : 0 < k := by
        refine Nat.pos_of_ne_zero fun hk => hbig ?_
        subst hk
        simpa [and_comm] using And.intro hhi hlo
      obtain ⟨j, rfl⟩ := Nat.exists_eq_succ_of_ne_zero (Nat.ne_of_gt hpos)
      have hdiv : ((val.sshiftRight 6).sshiftRight 1).toInt = val.toInt / 128 := by
        rw [Asm.sshiftRight_toInt, Asm.sshiftRight_toInt]
        omega
      rw [Nat.succ_eq_add_one, Int.pow_succ] at hlo hhi
      refine Nat.succ_le_succ (ih hpos _ ?_ ?_)
      · rw [hdiv, Nat.succ_eq_add_one, Nat.add_sub_cancel]
        omega
      · rw [hdiv, Nat.succ_eq_add_one, Nat.add_sub_cancel]
        omega

theorem skipLeb128_eq (bytes : List UInt8) (start : Nat) :
    skipLeb128 bytes start = (lebPrefix (bytes.drop start)).map List.length := by
  have hloop : ∀ (bs : List UInt8) (n : Nat), skipLeb128.loop bs n = (lebPrefix bs).map fun enc =>
      n + enc.length := by
    intro bs
    induction bs with
    | nil => exact fun _ => rfl
    | cons b bs ih =>
      intro n
      unfold skipLeb128.loop
      by_cases hb : b.toNat < 128
      · rw [if_pos ((and_0x80_eq_zero b).mpr hb), lebPrefix_last hb]
        rfl
      · rw [if_neg (mt (and_0x80_eq_zero b).mp hb), lebPrefix_more hb, ih, Option.map_map]
        congr 1
        funext enc
        simp only [Function.comp, List.length_cons]
        omega
  rw [skipLeb128, hloop]
  simp

theorem encoded_eq_some {signed : Bool} {max : Nat} {bytes : List UInt8} {v : Int} {n : Nat}
    (h : encoded signed max bytes = some (v, n)) :
    ∃ enc, lebPrefix bytes = some enc ∧ v = lebValue signed enc ∧ n = enc.length := by
  obtain ⟨enc, henc, h⟩ := Option.bind_eq_some_iff.mp h
  split at h
  · cases h
    exact ⟨enc, henc, rfl, rfl⟩
  · cases h

theorem skip_of_encoded {signed : Bool} {max start : Nat} {bytes : List UInt8} {v : Int} {n : Nat}
    (h : encoded signed max (bytes.drop start) = some (v, n)) : skipLeb128 bytes start = some n := by
  obtain ⟨enc, henc, -, rfl⟩ := encoded_eq_some h
  rw [skipLeb128_eq, henc, Option.map_some]

theorem leb_roundtrip :
    (∀ (v : UInt32) (suffix : List UInt8),
      readU32Leb128 (Asm.writeLeb128U32 v ++ suffix) = some (v.toNat, (Asm.writeLeb128U32 v).length)) ∧
    (∀ (v : BitVec 32) (suffix : List UInt8),
      readI32Leb128 (Asm.writeLeb128I32 v ++ suffix) = some (v, (Asm.writeLeb128I32 v).length) ∧
      readI64Leb128 (Asm.writeLeb128I32 v ++ suffix) = some (v.signExtend 64, (Asm.writeLeb128I32 v).length)) ∧
    (∀ (v : UInt32) (max : Nat) (bytes : List UInt8) (n : Nat),
      encoded false max bytes = some ((v.toNat : Int), n) → (Asm.writeLeb128U32 v).length ≤ n) ∧
    (∀ (v : BitVec 32) (max : Nat) (bytes : List UInt8) (n : Nat),
      encoded true max bytes = some (v.toInt, n) → (Asm.writeLeb128I32 v).length ≤ n) ∧
    (∀ (bytes : List UInt8) (start n : Nat),
      (∀ v, readU32Leb128 (bytes.drop start) = some (v, n) → skipLeb128 bytes start = some n) ∧
      (∀ v, readI32Leb128 (bytes.drop start) = some (v, n) → skipLeb128 bytes start = some n) ∧
      (∀ v, readI64Leb128 (bytes.drop start) = some (v, n) → skipLeb128 bytes start = some n)) := by
  refine ⟨Asm.readU32_write, fun v suffix => ⟨readI32_write v suffix, readI64_write v suffix⟩, ?_, ?_,
    fun bytes start n => ⟨?_, ?_, ?_⟩⟩
  · intro v max bytes n h
    obtain ⟨enc, henc, hv, rfl⟩ := encoded_eq_some h
    have hpos := lebPrefix_length henc
    have hbound := (lebValue_bound enc (List.length_pos_iff.mp hpos)).1
    refine writeU32_loop_length hpos 5 v ?_
    rw [← hv] at hbound
    exact_mod_cast hbound
  · intro v max bytes n h
    obtain ⟨enc, henc, hv, rfl⟩ := encoded_eq_some h
    have hpos := lebPrefix_length henc
    obtain ⟨-, hlo, hhi⟩ := lebValue_bound enc (List.length_pos_iff.mp hpos)
    rw [← hv] at hlo hhi
    exact writeI32_loop_length hpos 5 v hlo hhi
  · intro v h
    rw [readU32_eq, Option.map_eq_some_iff] at h
    obtain ⟨p, hp, heq⟩ := h
    cases heq
    exact skip_of_encoded hp
  · intro v h
    rw [readI32_eq, Option.map_eq_some_iff] at h
    obtain ⟨p, hp, heq⟩ := h
    cases heq
    exact skip_of_encoded hp
  · intro v h
    rw [readI64_eq, Option.map_eq_some_iff] at h
    obtain ⟨p, hp, heq⟩ := h
    cases heq
    exact skip_of_encoded hp

end WasmOs
