import Mathlib.Data.List.TakeWhile
import WasmOs.Decimal
import WasmOs.TokenStream
import WasmOs.Utf8

/-!
# Where the tokenizer of the assembler panics

The tokenizer takes single bytes for characters: `0x85` and `0xA0` are white space to it, and some bytes
from `0x80` on are letters. A word that ends at such a byte may end inside a character, and the slice of it
panics. Numbers panic when they leave `i32`.
-/

namespace WasmOs.Asm

/-! ## Lexemes -/

def isIdentifierByte (c : UInt8) : Bool := isAlphanumeric c || c == 0x5F || c == 0x2D || c == 0x2E

def isNumberByte (c : UInt8) : Bool := c == 0x2E || isAsciiDigit c

def isKeywordByte (c : UInt8) : Bool := !(isWhitespace c || c == 0x28 || c == 0x29)

/-- No byte that `p` takes comes next. -/
def Stops (p : UInt8 → Bool) (rest : List UInt8) : Prop := ∀ b, rest.head? = some b → p b = false

/-- A piece of text that makes a token. -/
inductive Lexeme where
  | lparen | rparen
  | identifier (w : List UInt8)
  | string (w : List UInt8)
  | openString (w : List UInt8)
  | number (b : UInt8) (w : List UInt8)
  | keyword (b : UInt8) (w : List UInt8)

namespace Lexeme

def bytes : Lexeme → List UInt8
  | lparen => [0x28]
  | rparen => [0x29]
  | identifier w => 0x24 :: w
  | string w => 0x22 :: (w ++ [0x22])
  | openString w => 0x22 :: w
  | number b w => b :: w
  | keyword b w => b :: w

/-- The lexeme is the longest one that starts here; `rest` is what follows. -/
def Before : Lexeme → List UInt8 → Prop
  | lparen, _ | rparen, _ => True
  | identifier w, rest => (∀ c ∈ w, isIdentifierByte c = true) ∧ Stops isIdentifierByte rest
  | string w, _ => 0x22 ∉ w
  | openString w, rest => 0x22 ∉ w ∧ rest = []
  | number b w, rest => (isAsciiDigit b = true ∨ b = 0x2D) ∧ (∀ c ∈ w, isNumberByte c = true) ∧
    Stops isNumberByte rest
  | keyword b w, rest => (b ≠ 0x24 ∧ b ≠ 0x22 ∧ isAsciiDigit b = false ∧ b ≠ 0x2D) ∧
    (∀ c ∈ b :: w, isKeywordByte c = true) ∧
    Stops isKeywordByte rest

def intPart (s : List UInt8) : List UInt8 := (s.dropWhile (· == 0x2D)).takeWhile (· != 0x2E)

def decimal (n : Nat) (digits : List UInt8) : Nat := digits.foldl (fun v c => v * 10 + (c.toNat - 0x30)) n

/-- Words are whole characters, and numbers fit. -/
def Good : Lexeme → Prop
  | identifier w => validUtf8 w = true
  | keyword b w => validUtf8 (b :: w) = true
  | number b w => decimal 0 (intPart (b :: w)) < 2 ^ 31
  | _ => True

end Lexeme

/-- White space and comments, up to the next lexeme. -/
inductive Gap : List UInt8 → List UInt8 → Prop
  | nil {rest : List UInt8} (hblank : Stops isWhitespace rest) (hcomment : ¬ [0x3B, 0x3B] <+: rest) : Gap [] rest
  | blank {b : UInt8} {g rest : List UInt8} (hb : isWhitespace b = true) (h : Gap g rest) : Gap (b :: g) rest
  | comment {c g rest : List UInt8} (hc : 0x0A ∉ c) (hend : Stops (· != 0x0A) (g ++ rest)) (h : Gap g rest) :
      Gap (0x3B :: 0x3B :: (c ++ g)) rest

inductive Lexemes : List UInt8 → List Lexeme → Prop
  | nil {g : List UInt8} (h : Gap g []) : Lexemes g []
  | cons {g rest : List UInt8} {l : Lexeme} {ls : List Lexeme} (hg : Gap g (l.bytes ++ rest))
    (hl : l.Before rest) (h : Lexemes rest ls) :
      Lexemes (g ++ (l.bytes ++ rest)) (l :: ls)

section
variable {p : UInt8 → Bool} {s w rest : List UInt8}

theorem dropWhile_stops : Stops p (s.dropWhile p) := by
  intro b hb
  have hhead := List.head?_dropWhile_not p s
  rw [hb] at hhead
  exact Bool.eq_false_iff.mpr fun h => absurd h (by simpa using hhead)

end

theorem exists_gap (s : List UInt8) : ∃ g rest, s = g ++ rest ∧ Gap g rest := by
  induction hn : s.length using Nat.strongRecOn generalizing s with
  | ind n ih =>
    by_cases hblank : Stops isWhitespace s
    · by_cases hcomment : [0x3B, 0x3B] <+: s
      · obtain ⟨tail, rfl⟩ := hcomment
        have hlen : (tail.dropWhile (· != 0x0A)).length < n := by
          have := (List.dropWhile_sublist (· != 0x0A) (l := tail)).length_le
          rw [← hn, List.length_append]
          exact Nat.lt_of_le_of_lt this (Nat.lt_add_of_pos_left (by decide))
        obtain ⟨g, rest, heq, hg⟩ := ih _ hlen _ rfl
        refine ⟨_, rest, ?_, .comment (c := tail.takeWhile (· != 0x0A)) (fun hmem => ?_) (heq ▸ dropWhile_stops) hg⟩
        · have hsplit := List.takeWhile_append_dropWhile (p := (· != 0x0A)) (l := tail)
          rw [heq, ← List.append_assoc] at hsplit
          exact congrArg ([0x3B, 0x3B] ++ ·) hsplit.symm
        · exact absurd (List.mem_takeWhile_imp hmem) (by decide)
      · exact ⟨[], s, rfl, .nil hblank hcomment⟩
    · cases s with
      | nil => exact absurd (fun b hb => nomatch hb) hblank
      | cons b tail =>
        have hb : isWhitespace b = true := by
          by_contra hne
          exact hblank fun c hc => by cases hc; exact Bool.eq_false_iff.mpr hne
        obtain ⟨g, rest, rfl, hg⟩ := ih tail.length (by rw [← hn]; exact Nat.lt_succ_self _) tail rfl
        exact ⟨b :: g, rest, rfl, .blank hb hg⟩

theorem exists_lexeme {b : UInt8} {s : List UInt8} (hb : isWhitespace b = false) :
    ∃ l rest, b :: s = Lexeme.bytes l ++ rest ∧ l.Before rest := by
  by_cases hl : b = 0x28
  · exact ⟨.lparen, s, by rw [hl]; rfl, trivial⟩
  by_cases hr : b = 0x29
  · exact ⟨.rparen, s, by rw [hr]; rfl, trivial⟩
  by_cases hi : b = 0x24
  · refine ⟨.identifier (s.takeWhile isIdentifierByte), s.dropWhile isIdentifierByte, ?_, fun _ =>
      List.mem_takeWhile_imp, dropWhile_stops⟩
    rw [hi, Lexeme.bytes, List.cons_append, List.takeWhile_append_dropWhile]
  by_cases hq : b = 0x22
  · have hw : 0x22 ∉ s.takeWhile (· != 0x22) := fun hmem => absurd (List.mem_takeWhile_imp hmem) (by decide)
    have hsplit := List.takeWhile_append_dropWhile (p := (· != 0x22)) (l := s)
    cases hdrop : s.dropWhile (· != 0x22) with
    | nil =>
      rw [hdrop, List.append_nil] at hsplit
      exact ⟨.openString s, [], by rw [hq, Lexeme.bytes, List.append_nil], hsplit ▸ hw, rfl⟩
    | cons c tail =>
      have hc : c = 0x22 := by simpa using dropWhile_stops (p := (· != 0x22)) (s := s) c (by rw [hdrop]; rfl)
      refine ⟨.string (s.takeWhile (· != 0x22)), tail, ?_, hw⟩
      rw [hdrop, hc] at hsplit
      rw [hq, Lexeme.bytes, List.cons_append, List.append_assoc, List.singleton_append, hsplit]
  by_cases hd : isAsciiDigit b = true ∨ b = 0x2D
  · refine ⟨.number b (s.takeWhile isNumberByte), s.dropWhile isNumberByte, ?_, hd, fun _ =>
      List.mem_takeWhile_imp, dropWhile_stops⟩
    rw [Lexeme.bytes, List.cons_append, List.takeWhile_append_dropWhile]
  · rw [not_or] at hd
    refine ⟨.keyword b (s.takeWhile isKeywordByte), s.dropWhile isKeywordByte, ?_,
      ⟨hi, hq, Bool.eq_false_iff.mpr hd.1, hd.2⟩, fun c hc => ?_,
      dropWhile_stops⟩
    · rw [Lexeme.bytes, List.cons_append, List.takeWhile_append_dropWhile]
    · rcases List.mem_cons.mp hc with rfl | hc
      · simp [isKeywordByte, hb, hl, hr]
      · exact List.mem_takeWhile_imp hc

theorem Gap.stops {g rest : List UInt8} (h : Gap g rest) : Stops isWhitespace rest := by
  induction h with
  | nil hblank _ => exact hblank
  | blank _ _ ih => exact ih
  | comment _ _ _ ih => exact ih

theorem exists_lexemes (s : List UInt8) : ∃ ls, Lexemes s ls := by
  induction hn : s.length using Nat.strongRecOn generalizing s with
  | ind n ih =>
    obtain ⟨g, x, rfl, hg⟩ := exists_gap s
    cases x with
    | nil => exact ⟨[], by rw [List.append_nil]; exact .nil hg⟩
    | cons b x =>
      obtain ⟨l, rest, heq, hl⟩ := exists_lexeme (s := x) (hg.stops b rfl)
      have hpos : 0 < l.bytes.length := by cases l <;> exact Nat.succ_pos _
      obtain ⟨ls, hls⟩ := ih rest.length (by rw [← hn, List.length_append, heq, List.length_append]; omega) rest rfl
      rw [heq] at hg ⊢
      exact ⟨l :: ls, .cons hg hl hls⟩

/-! ## The tokenizer at a place -/

namespace Tokenizer

/-- The tokenizer of a text that has read `pre` and has `ahead` before it. -/
def between (pre ahead : List UInt8) : Tokenizer := ⟨pre ++ ahead, pre.length⟩

variable {ε : Type} {pre w rest : List UInt8} {p : UInt8 → Bool}

theorem between_get (pre ahead : List UInt8) : (between pre ahead).src[(between pre ahead).pos]? = ahead.head? := by
  change (pre ++ ahead)[pre.length]? = _
  rw [List.getElem?_append_right (Nat.le_refl _), Nat.sub_self, ← List.head?_eq_getElem?]

theorem between_append (pre w rest : List UInt8) :
    (⟨pre ++ (w ++ rest), pre.length + w.length⟩ : Tokenizer) = between (pre ++ w) rest := by
  rw [between, List.append_assoc, List.length_append]

theorem between_advance (pre : List UInt8) (b : UInt8) (rest : List UInt8) :
    (between pre (b :: rest)).advance 1 = between (pre ++ [b]) rest :=
  between_append pre [b] rest

theorem between_get_succ (pre : List UInt8) (b : UInt8) (rest : List UInt8) :
    (between pre (b :: rest)).src[(between pre (b :: rest)).pos + 1]? = rest.head? := by
  have h := between_get (pre ++ [b]) rest
  rw [← between_advance] at h
  exact h

theorem between_scan (pre w rest : List UInt8) (hw : ∀ c ∈ w, p c = true) (hend : Stops p rest) :
    (between pre (w ++ rest)).scan p = between (pre ++ w) rest := by
  rw [← between_append]
  change (⟨pre ++ (w ++ rest), pre.length + (((pre ++ (w ++ rest)).drop pre.length).takeWhile p).length⟩ :
    Tokenizer) = _
  rw [List.drop_left, takeWhile_append_stops hw hend]

/-- What was read since `pre` is sliced out, if it is whole characters. -/
theorem between_slice (pre w rest : List UInt8) (hvalid : validUtf8 (w ++ rest) = true) :
    ((between (pre ++ w) rest).slice pre.length : Rust ε _) = if validUtf8 w then .ok w else .error .panic := by
  have hstart : isCharBoundary (pre ++ (w ++ rest)) pre.length = true := boundary_append hvalid (boundary_zero _)
  have hend : isCharBoundary (pre ++ (w ++ rest)) (pre.length + w.length) = true ↔ validUtf8 w = true :=
    (boundary_append_iff hvalid).trans (validUtf8_split hvalid)
  rw [← between_append]
  change strSlice (pre ++ (w ++ rest)) pre.length (pre.length + w.length) = _
  by_cases hw : validUtf8 w = true
  · rw [if_pos hw, strSlice_ok (Nat.le_add_right ..) (by simp) hstart (hend.mpr hw)]
    simp [List.take_append]
  · rw [if_neg hw, strSlice, if_neg fun h => hw (hend.mp h.2.2.2)]

/-- White space and comments are passed over. -/
theorem skip_loop_gap {g rest : List UInt8} (h : Gap g rest) (pre : List UInt8) (fuel : Nat)
    (hfuel : g.length < fuel) :
    skipWhitespaceAndComments.loop fuel (between pre (g ++ rest)) = between (pre ++ g) rest := by
  induction h generalizing pre fuel with
  | @nil rest hblank hcomment =>
    cases fuel with
    | zero => cases hfuel
    | succ fuel =>
      rw [skipWhitespaceAndComments.loop, between_get, List.append_nil, List.nil_append]
      cases rest with
      | nil => rfl
      | cons b rest =>
        dsimp only [List.head?_cons]
        rw [hblank b rfl, if_neg Bool.false_ne_true, between_get_succ, if_neg]
        rintro ⟨rfl, hnext⟩
        cases rest with
        | nil => cases hnext
        | cons c rest =>
          cases hnext
          exact hcomment ⟨rest, rfl⟩
  | @blank b g rest hb _ ih =>
    cases fuel with
    | zero => cases hfuel
    | succ fuel =>
      rw [skipWhitespaceAndComments.loop, between_get]
      dsimp only [List.cons_append, List.head?_cons]
      rw [if_pos hb, between_advance, ih _ _ (Nat.lt_of_succ_lt_succ hfuel), List.append_assoc]
      rfl
  | @comment c g rest hc hend _ ih =>
    cases fuel with
    | zero => cases hfuel
    | succ fuel =>
      have hskip : (between pre (0x3B :: 0x3B :: (c ++ (g ++ rest)))).advance 2 =
          between (pre ++ [0x3B, 0x3B]) (c ++ (g ++ rest)) :=
        between_append pre [0x3B, 0x3B] _
      have hscan := between_scan (p := (· != 0x0A)) (pre ++ [0x3B, 0x3B]) c (g ++ rest)
        (fun d hd => by simpa using fun h : d = 0x0A => hc (h ▸ hd)) hend
      have hlen : g.length < fuel := by
        rw [List.length_cons, List.length_cons, List.length_append] at hfuel
        omega
      rw [List.cons_append, List.cons_append, List.append_assoc, skipWhitespaceAndComments.loop, between_get]
      dsimp only [List.head?_cons]
      rw [if_neg (by decide), between_get_succ, if_pos ⟨rfl, rfl⟩, hskip, hscan, ih _ _ hlen]
      simp only [List.append_assoc]
      rfl

theorem skip_gap {g rest : List UInt8} (h : Gap g rest) (pre : List UInt8) :
    (between pre (g ++ rest)).skipWhitespaceAndComments = between (pre ++ g) rest := by
  apply skip_loop_gap h
  change g.length < (pre ++ (g ++ rest)).length + 1
  rw [List.length_append, List.length_append]
  omega

/-! ## Numbers -/

theorem digits_eq {cs : List UInt8} (hcs : ∀ c ∈ cs, isAsciiDigit c = true) {n : Nat} (hn : n < 2 ^ 31) :
    (parseI32.digits cs n : Rust ε Nat) = if Lexeme.decimal n cs < 2 ^ 31 then .ok (Lexeme.decimal n cs) else
      .error .panic := by
  induction cs generalizing n with
  | nil => exact (if_pos hn).symm
  | cons c cs ih =>
    have hle : n * 10 + (c.toNat - 0x30) ≤ Lexeme.decimal n (c :: cs) :=
      Decimal.le_value (n * 10 + (c.toNat - 0x30)) cs
    unfold parseI32.digits i32Fits
    rw [if_pos (hcs c (List.mem_cons_self ..))]
    by_cases hten : n * 10 < 2 ^ 31
    · rw [if_pos hten, bind_ok]
      by_cases hsum : n * 10 + (c.toNat - 0x30) < 2 ^ 31
      · rw [if_pos hsum, bind_ok]
        exact ih (fun d hd => hcs d (List.mem_cons_of_mem c hd)) hsum
      · rw [if_neg hsum, bind_error, if_neg (by omega)]
    · rw [if_neg hten, bind_error, if_neg (by omega)]

theorem parseI32_digits {cs : List UInt8} (hcs : ∀ c ∈ cs, isAsciiDigit c = true) :
    (parseI32 cs : Rust ε _) = if Lexeme.decimal 0 cs < 2 ^ 31 then
      .ok (BitVec.ofNat 32 (Lexeme.decimal 0 cs)) else .error .panic := by
  have heq : (parseI32 cs : Rust ε _) = parseI32.digits cs 0 >>= fun res => .ok (BitVec.ofNat 32 res) := by
    unfold parseI32
    split
    · exact absurd (hcs _ (List.mem_cons_self ..)) (by decide)
    · rfl
  rw [heq, digits_eq hcs (by decide)]
  by_cases hfit : Lexeme.decimal 0 cs < 2 ^ 31
  · rw [if_pos hfit, if_pos hfit, bind_ok]
  · rw [if_neg hfit, if_neg hfit, bind_error]

theorem parseI32_neg {cs : List UInt8} (hcs : ∀ c ∈ cs, isAsciiDigit c = true) :
    (parseI32 (0x2D :: cs) : Rust ε _) = if Lexeme.decimal 0 cs < 2 ^ 31 then
      .ok (-BitVec.ofNat 32 (Lexeme.decimal 0 cs)) else .error .panic := by
  change parseI32.digits cs 0 >>= (fun res => .ok (-BitVec.ofNat 32 res)) = _
  rw [digits_eq hcs (by decide)]
  by_cases hfit : Lexeme.decimal 0 cs < 2 ^ 31
  · rw [if_pos hfit, if_pos hfit, bind_ok]
  · rw [if_neg hfit, if_neg hfit, bind_error]

theorem frac_ok (F : FloatOps) {cs : List UInt8} (hcs : ∀ c ∈ cs, isAsciiDigit c = true) (f d : BitVec 32) :
    ∃ v, (parseF32.frac F cs f d : Rust ε _) = .ok v := by
  induction cs generalizing f d with
  | nil => exact ⟨f, rfl⟩
  | cons c cs ih =>
    have hge : 0x30 ≤ c.toNat := by
      have hc := hcs c (List.mem_cons_self ..)
      simp only [isAsciiDigit, Bool.and_eq_true, decide_eq_true_eq] at hc
      exact UInt8.le_iff_toNat_le.mp hc.1
    unfold parseF32.frac
    rw [usub, if_pos hge, bind_ok]
    exact ih (fun d hd => hcs d (List.mem_cons_of_mem c hd)) _ _

/-- The text of a number: perhaps a sign, then digits and points. -/
def NumberText (s : List UInt8) : Prop :=
  ∃ b w, s = b :: w ∧ (isAsciiDigit b = true ∨ b = 0x2D) ∧ ∀ c ∈ w, isNumberByte c = true

theorem digit_of_number {c : UInt8} (h : isNumberByte c = true) (hc : c ≠ 0x2E) : isAsciiDigit c = true := by
  simpa [isNumberByte, hc] using h

theorem number_of_digit {c : UInt8} (h : isAsciiDigit c = true) : isNumberByte c = true ∧ c ≠ 0x2D ∧ c ≠ 0x2E := by
  refine ⟨by simp [isNumberByte, h], ?_, ?_⟩
  · rintro rfl
    exact absurd h (by decide)
  · rintro rfl
    exact absurd h (by decide)

theorem number_not_sign {c : UInt8} (h : isNumberByte c = true) : c ≠ 0x2D := by
  rintro rfl
  exact absurd h (by decide)

/-- Behind the sign there are digits and points. -/
theorem NumberText.body {s : List UInt8} (h : NumberText s) :
    (s = s.dropWhile (· == 0x2D) ∨ s = 0x2D :: s.dropWhile (· == 0x2D)) ∧
    ∀ c ∈ s.dropWhile (· == 0x2D), isNumberByte c = true := by
  obtain ⟨b, w, rfl, hb, hw⟩ := h
  have hbody : ∀ {w : List UInt8}, (∀ c ∈ w, isNumberByte c = true) → w.dropWhile (· == 0x2D) = w := by
    intro w hw
    cases w with
    | nil => rfl
    | cons c w => exact List.dropWhile_cons_of_neg (by simpa using number_not_sign (hw c (List.mem_cons_self ..)))
  obtain hd | rfl := hb
  · have hall : ∀ c ∈ b :: w, isNumberByte c = true := List.forall_mem_cons.mpr ⟨(number_of_digit hd).1, hw⟩
    rw [hbody hall]
    exact ⟨.inl rfl, hall⟩
  · rw [List.dropWhile_cons_of_pos (by rfl), hbody hw]
    exact ⟨.inr rfl, hw⟩

theorem NumberText.intPart {s : List UInt8} (h : NumberText s) : ∀ c ∈ Lexeme.intPart s, isAsciiDigit c = true := by
  intro c hc
  have hmem := (List.takeWhile_sublist _).mem hc
  exact digit_of_number (h.body.2 c hmem) (by simpa using List.mem_takeWhile_imp hc)

/-- A number without a point is read exactly when it fits. -/
theorem parseI32_eq {s : List UInt8} (h : NumberText s) (hpoint : 0x2E ∉ s) :
    if Lexeme.decimal 0 (Lexeme.intPart s) < 2 ^ 31 then ∃ v, (parseI32 s : Rust ε _) = .ok v else
      (parseI32 s : Rust ε _) = .error .panic := by
  obtain ⟨hsign, -⟩ := h.body
  have hmem : 0x2E ∉ s.dropWhile (· == 0x2D) := fun hmem => hpoint ((List.dropWhile_sublist _).mem hmem)
  have hint : Lexeme.intPart s = s.dropWhile (· == 0x2D) := by
    have htake := takeWhile_append_stops (p := (· != 0x2E)) (w := s.dropWhile (· == 0x2D))
      (fun c hc => by simpa using fun h : c = 0x2E => hmem (h ▸ hc)) (show Stops _ [] from fun _ h => nomatch h)
    rw [List.append_nil] at htake
    exact htake
  have hdigits := h.intPart
  rw [hint] at hdigits ⊢
  obtain hs | hs := hsign
  · have heq := parseI32_digits (ε := ε) hdigits
    rw [← hs] at heq ⊢
    by_cases hfit : Lexeme.decimal 0 s < 2 ^ 31
    · rw [if_pos hfit] at heq ⊢
      exact ⟨_, heq⟩
    · rw [if_neg hfit] at heq ⊢
      exact heq
  · have heq := parseI32_neg (ε := ε) hdigits
    rw [← hs] at heq
    by_cases hfit : Lexeme.decimal 0 (s.dropWhile (· == 0x2D)) < 2 ^ 31
    · rw [if_pos hfit] at heq ⊢
      exact ⟨_, heq⟩
    · rw [if_neg hfit] at heq ⊢
      exact heq

/-- A number with a point is read exactly when its integer part fits. -/
theorem parseF32_eq (F : FloatOps) {s : List UInt8} (h : NumberText s) :
    if Lexeme.decimal 0 (Lexeme.intPart s) < 2 ^ 31 then ∃ v, (parseF32 F s : Rust ε _) = .ok v else
      (parseF32 F s : Rust ε _) = .error .panic := by
  have hint := parseI32_digits (ε := ε) h.intPart
  have hfrac : ∀ c part, (s.dropWhile (· == 0x2D)).dropWhile (· != 0x2E) = c :: part →
      ∃ v, (parseF32.frac F (part.takeWhile (· != 0x2E)) 0 0x41200000 : Rust ε _) = .ok v := by
    intro c part hdrop
    refine frac_ok F (fun d hd => ?_) 0 0x41200000
    have hmem : d ∈ (s.dropWhile (· == 0x2D)).dropWhile (· != 0x2E) := by
      rw [hdrop]
      exact List.mem_cons_of_mem c ((List.takeWhile_sublist _).mem hd)
    exact digit_of_number (h.body.2 d ((List.dropWhile_sublist _).mem hmem))
      (by simpa using List.mem_takeWhile_imp hd)
  unfold parseF32
  dsimp only
  by_cases hfit : Lexeme.decimal 0 (Lexeme.intPart s) < 2 ^ 31
  · rw [if_pos hfit] at hint ⊢
    rw [show parseI32 ((s.dropWhile (· == 0x2D)).takeWhile (· != 0x2E)) = _ from hint, bind_ok]
    cases hdrop : (s.dropWhile (· == 0x2D)).dropWhile (· != 0x2E) with
    | nil => exact ⟨_, rfl⟩
    | cons c part =>
      obtain ⟨v, hv⟩ := hfrac c part hdrop
      dsimp only
      rw [hv, bind_ok]
      exact ⟨_, rfl⟩
  · rw [if_neg hfit] at hint ⊢
    rw [show parseI32 ((s.dropWhile (· == 0x2D)).takeWhile (· != 0x2E)) = _ from hint, bind_error]

/-! ## Reading a lexeme -/

theorem readIdentifier_between (pre : List UInt8) (hw : ∀ c ∈ w, isIdentifierByte c = true)
    (hend : Stops isIdentifierByte rest) (hvalid : validUtf8 (0x24 :: (w ++ rest)) = true) :
    ((between pre (0x24 :: (w ++ rest))).readIdentifier : Rust ε _) =
      if validUtf8 w then .ok (.identifier (0x24 :: w), between (pre ++ 0x24 :: w) rest) else .error .panic := by
  have hscan := between_scan (pre ++ [0x24]) w rest hw hend
  have hslice := between_slice (ε := ε) pre (0x24 :: w) rest hvalid
  rw [List.append_assoc] at hscan
  rw [validUtf8_ascii (by decide)] at hslice
  unfold readIdentifier
  dsimp only
  rw [between_advance, show (between (pre ++ [0x24]) (w ++ rest)).scan (fun c => isAlphanumeric c ||
    c == 0x5F || c == 0x2D || c == 0x2E) = _ from hscan,
    show slice (between (pre ++ ([0x24] ++ w)) rest) (between pre (0x24 :: (w ++ rest))).pos = _ from hslice]
  by_cases hw : validUtf8 w = true
  · rw [if_pos hw, if_pos hw, bind_ok]
    rfl
  · rw [if_neg hw, if_neg hw, bind_error]

theorem readKeyword_between (pre : List UInt8) (hw : ∀ c ∈ w, isKeywordByte c = true)
    (hend : Stops isKeywordByte rest) (hvalid : validUtf8 (w ++ rest) = true) :
    ((between pre (w ++ rest)).readKeyword : Rust ε _) = if validUtf8 w then
      .ok (.keyword w, between (pre ++ w) rest) else .error .panic := by
  have hscan := between_scan pre w rest hw hend
  have hslice := between_slice (ε := ε) pre w rest hvalid
  unfold readKeyword
  dsimp only
  rw [show (between pre (w ++ rest)).scan (fun c => !(isWhitespace c || c == 0x28 || c == 0x29)) = _ from hscan,
    show slice (between (pre ++ w) rest) (between pre (w ++ rest)).pos = _ from hslice]
  by_cases hw : validUtf8 w = true
  · rw [if_pos hw, if_pos hw, bind_ok]
  · rw [if_neg hw, if_neg hw, bind_error]

theorem not_quote (hw : 0x22 ∉ w) : ∀ c ∈ w, (c != 0x22) = true :=
  fun c hc => by simpa using fun h : c = 0x22 => hw (h ▸ hc)

theorem readString_between (pre : List UInt8) (hw : 0x22 ∉ w)
    (hvalid : validUtf8 (0x22 :: (w ++ 0x22 :: rest)) = true) :
    ((between pre (0x22 :: (w ++ 0x22 :: rest))).readString : Rust ε _) = .ok
    (.stringLiteral w, between (pre ++ 0x22 :: (w ++ [0x22])) rest) := by
  rw [validUtf8_ascii (by decide)] at hvalid
  have hwhole : validUtf8 w = true := by
    refine (validUtf8_split hvalid).mp (boundary_of_ascii (c := 0x22) ?_ (by decide))
    rw [List.getElem?_append_right (Nat.le_refl _), Nat.sub_self]
    rfl
  have hscan := between_scan (pre ++ [0x22]) w (0x22 :: rest) (not_quote hw) fun b hb => by cases hb; rfl
  have hslice := between_slice (ε := ε) (pre ++ [0x22]) w (0x22 :: rest) hvalid
  rw [if_pos hwhole] at hslice
  have hlt : (between (pre ++ [0x22] ++ w) (0x22 :: rest)).pos <
      (between (pre ++ [0x22] ++ w) (0x22 :: rest)).src.length := by
    change (pre ++ [0x22] ++ w).length < (pre ++ [0x22] ++ w ++ 0x22 :: rest).length
    refine Nat.lt_of_lt_of_eq ?_ List.length_append.symm
    exact Nat.lt_add_of_pos_right (Nat.succ_pos _)
  unfold readString
  dsimp only
  rw [between_advance, hscan, show slice _ (between (pre ++ [0x22]) (w ++ 0x22 :: rest)).pos = _ from hslice,
    bind_ok, if_pos hlt, between_advance]
  simp only [List.append_assoc]
  rfl

theorem readString_open (hw : 0x22 ∉ w) (hvalid : validUtf8 (0x22 :: w) = true) :
    ((between pre (0x22 :: w)).readString : Rust ε _) = .ok (.stringLiteral w, between (pre ++ 0x22 :: w) []) := by
  rw [validUtf8_ascii (by decide)] at hvalid
  have hscan := between_scan (pre ++ [0x22]) w [] (not_quote hw) (fun _ h => nomatch h)
  have hslice := between_slice (ε := ε) (pre ++ [0x22]) w [] (by rw [List.append_nil]; exact hvalid)
  rw [if_pos hvalid] at hslice
  rw [List.append_nil] at hscan
  have hlt : ¬ (between (pre ++ [0x22] ++ w) []).pos < (between (pre ++ [0x22] ++ w) []).src.length := by
    change ¬ (pre ++ [0x22] ++ w).length < (pre ++ [0x22] ++ w ++ []).length
    rw [List.append_nil]
    exact Nat.lt_irrefl _
  unfold readString
  dsimp only
  rw [between_advance, hscan, show slice _ (between (pre ++ [0x22]) w).pos = _ from hslice, bind_ok,
    if_neg hlt, List.append_assoc]
  rfl

theorem number_ascii {c : UInt8} (h : isNumberByte c = true) : c < 0x80 :=
  byte_forall (P := fun c => isNumberByte c = true → c < 0x80) (by decide +kernel) c h

theorem number_valid {b : UInt8} (hb : isAsciiDigit b = true ∨ b = 0x2D)
    (hw : ∀ c ∈ w, isNumberByte c = true) : validUtf8 (b :: w) = true := by
  refine validUtf8_of_ascii (List.forall_mem_cons.mpr ⟨?_, fun c hc => number_ascii (hw c hc)⟩)
  rcases hb with hb | rfl
  · exact number_ascii (number_of_digit hb).1
  · decide

theorem readNumber_between (F : FloatOps) (pre : List UInt8) {b : UInt8} (hb : isAsciiDigit b = true ∨
      b = 0x2D) (hw : ∀ c ∈ w, isNumberByte c = true)
    (hend : Stops isNumberByte rest) (hvalid : validUtf8 (b :: (w ++ rest)) = true) :
    if Lexeme.decimal 0 (Lexeme.intPart (b :: w)) < 2 ^ 31
    then ∃ tok, ((between pre (b :: (w ++ rest))).readNumber F : Rust ε _) = .ok (tok, between (pre ++ b :: w) rest)
    else ((between pre (b :: (w ++ rest))).readNumber F : Rust ε _) = .error .panic := by
  have htext : NumberText (b :: w) := ⟨b, w, rfl, hb, hw⟩
  have hwhole := number_valid hb hw
  have hslice := between_slice (ε := ε) pre (b :: w) rest hvalid
  rw [if_pos hwhole] at hslice
  -- the sign is passed over, and the scan ends behind the number
  obtain ⟨u, v, hu, hv, hscan, hfloat⟩ :
      ∃ u v, (if (between pre (b :: (w ++ rest))).src[(between pre (b :: (w ++ rest))).pos]? = some 0x2D
        then (between pre (b :: (w ++ rest))).advance 1 else between pre (b :: (w ++ rest))) = u ∧
      (u.src.drop u.pos).takeWhile isNumberByte = v ∧ u.scan isNumberByte = between (pre ++ b :: w) rest ∧
      (0x2E ∈ v ↔ 0x2E ∈ b :: w) := by
    have hdrop : ∀ pre ahead, (between pre ahead).src.drop (between pre ahead).pos = ahead :=
      fun _ _ => List.drop_left
    rw [between_get, List.head?_cons]
    by_cases hsign : b = 0x2D
    · rw [if_pos (congrArg some hsign), between_advance]
      refine ⟨_, w, rfl, ?_, ?_, ?_⟩
      · rw [hdrop, takeWhile_append_stops hw hend]
      · rw [between_scan _ _ _ hw hend, List.append_assoc]
        rfl
      · rw [List.mem_cons, hsign]
        exact ⟨.inr, fun h => h.resolve_left (by decide)⟩
    · have hall : ∀ c ∈ b :: w, isNumberByte c = true :=
        List.forall_mem_cons.mpr ⟨(number_of_digit (hb.resolve_right hsign)).1, hw⟩
      rw [if_neg fun h => hsign (Option.some.inj h)]
      refine ⟨_, b :: w, rfl, ?_, between_scan pre (b :: w) rest hall hend, Iff.rfl⟩
      rw [hdrop]
      exact takeWhile_append_stops (w := b :: w) hall hend
  unfold readNumber
  dsimp only
  rw [hu, show u.scan (fun c => c == 0x2E || isAsciiDigit c) = _ from hscan,
    show (u.src.drop u.pos).takeWhile (fun c => c == 0x2E || isAsciiDigit c) = v from hv,
    show slice (between (pre ++ b :: w) rest) (between pre (b :: (w ++ rest))).pos = _ from hslice, bind_ok]
  by_cases hpoint : 0x2E ∈ b :: w
  · have hparse := parseF32_eq (ε := ε) F htext
    rw [if_pos (List.contains_iff_mem.mpr (hfloat.mpr hpoint))]
    by_cases hfit : Lexeme.decimal 0 (Lexeme.intPart (b :: w)) < 2 ^ 31
    · rw [if_pos hfit] at hparse ⊢
      obtain ⟨f, hf⟩ := hparse
      rw [hf, bind_ok]
      exact ⟨_, rfl⟩
    · rw [if_neg hfit] at hparse ⊢
      rw [hparse, bind_error]
  · have hparse := parseI32_eq (ε := ε) htext hpoint
    rw [if_neg fun h => hpoint (hfloat.mp (List.contains_iff_mem.mp h))]
    by_cases hfit : Lexeme.decimal 0 (Lexeme.intPart (b :: w)) < 2 ^ 31
    · rw [if_pos hfit] at hparse ⊢
      obtain ⟨n, hn⟩ := hparse
      rw [hn, bind_ok]
      exact ⟨_, rfl⟩
    · rw [if_neg hfit] at hparse ⊢
      rw [hparse, bind_error]

theorem nextToken_gap (F : FloatOps) {g x : List UInt8} (hg : Gap g x) (pre : List UInt8) {b : UInt8}
    (hb : x.head? = some b) :
    ((between pre (g ++ x)).nextToken F : Rust ε _) =
      if b = 0x28 then .ok (some .lparen, (between (pre ++ g) x).advance 1)
      else if b = 0x29 then .ok (some .rparen, (between (pre ++ g) x).advance 1)
      else (if b = 0x24 then (between (pre ++ g) x).readIdentifier
        else if b = 0x22 then (between (pre ++ g) x).readString
        else if isAsciiDigit b ∨ b = 0x2D then (between (pre ++ g) x).readNumber F
        else (between (pre ++ g) x).readKeyword).map fun r => (some r.1, r.2) := by
  unfold nextToken
  rw [skip_gap hg]
  dsimp only
  rw [between_get, hb]

theorem nextToken_end_gap (F : FloatOps) {g : List UInt8} (hg : Gap g []) (pre : List UInt8) :
    ((between pre g).nextToken F : Rust ε _) = .ok (none, between (pre ++ g) []) := by
  have hskip := skip_gap hg pre
  rw [List.append_nil] at hskip
  unfold nextToken
  rw [hskip]
  dsimp only
  rw [between_get]
  rfl

/-- A good lexeme is read whole, a bad one panics. -/
theorem nextToken_lexeme (F : FloatOps) {g rest : List UInt8} {l : Lexeme} (hg : Gap g (l.bytes ++ rest))
    (hl : l.Before rest) (hvalid : validUtf8 (l.bytes ++ rest) = true) (pre : List UInt8) :
    (l.Good → ∃ tok, ((between pre (g ++ (l.bytes ++ rest))).nextToken F : Rust ε _) =
      .ok (some tok, between (pre ++ g ++ l.bytes) rest)) ∧
      (¬ l.Good → ((between pre (g ++ (l.bytes ++ rest))).nextToken F : Rust ε _) = .error .panic) := by
  cases l with
  | lparen =>
    refine ⟨fun _ => ⟨.lparen, ?_⟩, fun h => absurd trivial h⟩
    rw [nextToken_gap F hg pre rfl, if_pos rfl]
    exact congrArg (fun t => Except.ok (some Token.lparen, t)) (between_advance ..)
  | rparen =>
    refine ⟨fun _ => ⟨.rparen, ?_⟩, fun h => absurd trivial h⟩
    rw [nextToken_gap F hg pre rfl, if_neg (by decide), if_pos rfl]
    exact congrArg (fun t => Except.ok (some Token.rparen, t)) (between_advance ..)
  | identifier w =>
    have hread := readIdentifier_between (ε := ε) (pre ++ g) hl.1 hl.2 hvalid
    rw [nextToken_gap F hg pre rfl, if_neg (by decide), if_neg (by decide), if_pos rfl,
      show readIdentifier (between (pre ++ g) (Lexeme.bytes (.identifier w) ++ rest)) = _ from hread]
    refine ⟨fun (hgood : validUtf8 w = true) => ⟨.identifier (0x24 :: w), ?_⟩,
      fun (hbad : ¬ validUtf8 w = true) => ?_⟩
    · rw [if_pos hgood]
      rfl
    · rw [if_neg hbad]
      rfl
  | string w =>
    have hbytes : Lexeme.bytes (.string w) ++ rest = 0x22 :: (w ++ 0x22 :: rest) := by simp [Lexeme.bytes]
    have hread :=
      readString_between (ε := ε) (pre ++ g) hl
        (show validUtf8 (_ :: (_ ++ _ :: rest)) = true from hbytes ▸ hvalid)
    refine ⟨fun _ => ⟨.stringLiteral w, ?_⟩, fun h => absurd trivial h⟩
    rw [nextToken_gap F hg pre rfl, if_neg (by decide), if_neg (by decide), if_neg (by decide), if_pos rfl,
      hbytes, hread]
    rfl
  | openString w =>
    obtain ⟨hw, rfl⟩ := hl
    rw [List.append_nil] at hg hvalid ⊢
    refine ⟨fun _ => ⟨.stringLiteral w, ?_⟩, fun h => absurd trivial h⟩
    rw [nextToken_gap F hg pre rfl, if_neg (by decide), if_neg (by decide), if_neg (by decide), if_pos rfl,
      show readString (between (pre ++ g) (Lexeme.bytes (.openString w))) = _ from readString_open hw hvalid]
    rfl
  | number b w =>
    obtain ⟨hb, hw, hend⟩ := hl
    have hread := readNumber_between (ε := ε) F (pre ++ g) hb hw hend hvalid
    have hne : ∀ c : UInt8, isAsciiDigit c = false → c ≠ 0x2D → b ≠ c := by
      rintro c hc hminus rfl
      obtain hd | hd := hb
      · rw [hc] at hd
        cases hd
      · exact hminus hd
    rw [nextToken_gap F hg pre rfl, if_neg (hne _ rfl (by decide)), if_neg (hne _ rfl (by decide)),
      if_neg (hne _ rfl (by decide)),
      if_neg (hne _ rfl (by decide)), if_pos hb]
    refine ⟨fun hgood => ?_, fun hbad => ?_⟩
    · rw [if_pos (show Lexeme.decimal 0 (Lexeme.intPart (b :: w)) < 2 ^ 31 from hgood)] at hread
      obtain ⟨tok, htok⟩ := hread
      refine ⟨tok, ?_⟩
      rw [show readNumber F (between (pre ++ g) (Lexeme.bytes (.number b w) ++ rest)) = _ from htok]
      rfl
    · rw [if_neg (show ¬ Lexeme.decimal 0 (Lexeme.intPart (b :: w)) < 2 ^ 31 from hbad)] at hread
      rw [show readNumber F (between (pre ++ g) (Lexeme.bytes (.number b w) ++ rest)) = _ from hread]
      rfl
  | keyword b w =>
    obtain ⟨⟨hi, hq, hd, hminus⟩, hw, hend⟩ := hl
    have hread := readKeyword_between (ε := ε) (pre ++ g) hw hend hvalid
    have hb := hw b (List.mem_cons_self ..)
    have hl : b ≠ 0x28 := by rintro rfl; cases hb
    have hr : b ≠ 0x29 := by rintro rfl; cases hb
    rw [nextToken_gap F hg pre rfl, if_neg hl, if_neg hr, if_neg hi, if_neg hq, if_neg (by simp [hd, hminus]),
      show readKeyword (between (pre ++ g) (Lexeme.bytes (.keyword b w) ++ rest)) = _ from hread]
    refine ⟨fun (hgood : validUtf8 (b :: w) = true) => ⟨.keyword (b :: w), ?_⟩,
      fun (hbad : ¬ validUtf8 (b :: w) = true) => ?_⟩
    · rw [if_pos hgood]
      rfl
    · rw [if_neg hbad]
      rfl

end Tokenizer

/-! ## What follows is whole characters too -/

theorem whitespace_ascii (b : UInt8) : isWhitespace b = true → isContinuation b = false → b < 0x80 :=
  byte_forall (P := fun b => isWhitespace b = true → isContinuation b = false → b < 0x80) (by decide +kernel) b

theorem Gap.valid {g rest : List UInt8} (h : Gap g rest) (hvalid : validUtf8 (g ++ rest) = true) :
    validUtf8 rest = true := by
  induction h with
  | nil _ _ => exact hvalid
  | @blank b g rest hb _ ih =>
    obtain ⟨c, tail, r, heq, hlead, -⟩ := validUtf8_first hvalid (List.cons_ne_nil _ _)
    obtain ⟨rfl, -⟩ := List.cons.inj heq
    rw [List.cons_append, validUtf8_ascii (whitespace_ascii b hb hlead)] at hvalid
    exact ih hvalid
  | @comment c g rest hc hend _ ih =>
    rw [List.cons_append, List.cons_append, List.append_assoc, validUtf8_ascii (by decide),
      validUtf8_ascii (by decide)] at hvalid
    have hbound : isCharBoundary (c ++ (g ++ rest)) c.length = true := by
      cases hx : g ++ rest with
      | nil =>
        rw [List.append_nil]
        exact boundary_length c
      | cons b x =>
        have hb : b = 0x0A := by simpa using hend b (by rw [hx]; rfl)
        refine boundary_of_ascii (c := b) ?_ (by rw [hb]; decide)
        rw [List.getElem?_append_right (Nat.le_refl _), Nat.sub_self]
        rfl
    rw [validUtf8_append ((validUtf8_split hvalid).mp hbound)] at hvalid
    exact ih hvalid

theorem Lexeme.rest_valid {l : Lexeme} {rest : List UInt8} (hl : l.Before rest) (hgood : l.Good)
    (hvalid : validUtf8 (l.bytes ++ rest) = true) :
    validUtf8 rest = true := by
  have hbytes : validUtf8 l.bytes = true := by
    cases l with
    | lparen => rfl
    | rparen => rfl
    | identifier w => exact (validUtf8_ascii (by decide) w).trans hgood
    | string w =>
      have hclose : (Lexeme.bytes (.string w) ++ rest)[w.length + 1]? = some 0x22 := by
        simp [Lexeme.bytes]
      have hlen : (Lexeme.bytes (.string w)).length = w.length + 1 + 1 := by simp [Lexeme.bytes]
      apply (validUtf8_split hvalid).mp
      rw [hlen]
      exact boundary_succ hvalid hclose (by decide)
    | openString w =>
      obtain ⟨-, rfl⟩ := hl
      rw [List.append_nil] at hvalid
      exact hvalid
    | number b w =>
      obtain ⟨hb, hw, -⟩ := hl
      exact Tokenizer.number_valid hb hw
    | keyword b w => exact hgood
  rw [validUtf8_append hbytes] at hvalid
  exact hvalid

def Tokenizer.Reads (F : FloatOps) : Tokenizer → List Token → Prop
  | t, [] => ∃ t', t.nextToken F = (.ok (none, t') : Parse _)
  | t, tok :: ts => ∃ t', t.nextToken F = (.ok (some tok, t') : Parse _) ∧ t.pos < t'.pos ∧ Reads F t' ts

theorem lexemes_read_iff (F : FloatOps) {s : List UInt8} {ls : List Lexeme} (h : Lexemes s ls)
    (hvalid : validUtf8 s = true) (pre : List UInt8) :
    (∃ ts, (Tokenizer.between pre s).Reads F ts) ↔ ∀ l ∈ ls, l.Good := by
  induction h generalizing pre with
  | nil hg => exact ⟨fun _ => nofun, fun _ => ⟨[], _, Tokenizer.nextToken_end_gap F hg pre⟩⟩
  | @cons g rest l ls hg hl _ ih =>
    have hbytes := hg.valid hvalid
    obtain ⟨hok, hpanic⟩ := Tokenizer.nextToken_lexeme (ε := ParseError) F hg hl hbytes pre
    by_cases hgood : l.Good
    · obtain ⟨tok, htok⟩ := hok hgood
      have hrest := ih (Lexeme.rest_valid hl hgood hbytes) (pre ++ g ++ l.bytes)
      rw [List.forall_mem_cons, ← hrest]
      constructor
      · rintro ⟨ts, hts⟩
        refine ⟨hgood, ?_⟩
        cases ts with
        | nil =>
          obtain ⟨t', ht'⟩ := hts
          cases htok.symm.trans ht'
        | cons tok' ts =>
          obtain ⟨t', ht', -, hts⟩ := hts
          cases htok.symm.trans ht'
          exact ⟨ts, hts⟩
      · rintro ⟨-, ts, hts⟩
        exact ⟨tok :: ts, _, htok, (Tokenizer.nextToken_moved htok).2.1, hts⟩
    · refine ⟨fun ⟨ts, hts⟩ => ?_, fun hall => absurd (hall l (List.mem_cons_self ..)) hgood⟩
      cases ts with
      | nil =>
        obtain ⟨t', ht'⟩ := hts
        cases (hpanic hgood).symm.trans ht'
      | cons tok ts =>
        obtain ⟨t', ht', -⟩ := hts
        cases (hpanic hgood).symm.trans ht'

/-- A text is read to its end exactly when its words are whole characters and its numbers fit. -/
theorem tokenizer_total_iff (F : FloatOps) {src : List UInt8} (hvalid : validUtf8 src = true) :
    (∃ ts, Tokenizer.Reads F ⟨src, 0⟩ ts) ↔ ∃ ls, Lexemes src ls ∧ ∀ l ∈ ls, l.Good := by
  constructor
  · intro hreads
    obtain ⟨ls, hls⟩ := exists_lexemes src
    exact ⟨ls, hls, (lexemes_read_iff F hls hvalid []).mp hreads⟩
  · rintro ⟨ls, hls, hgood⟩
    exact (lexemes_read_iff F hls hvalid []).mpr hgood

theorem tokenizer_total_module : ∃ ls, Lexemes (utf8 "(module $m 42 \"s\") ;; end") ls ∧ ∀ l ∈ ls, l.Good :=
  (tokenizer_total_iff default (by decide)).mp ⟨[.lparen, .keyword (utf8 "module"), .identifier (utf8 "$m"),
    .int 42, .stringLiteral (utf8 "s"),
    .rparen], _, rfl, by decide, _, rfl, by decide, _, rfl, by decide, _, rfl, by decide, _, rfl, by
      decide, _, rfl, by decide, _, rfl⟩

theorem Tokenizer.not_reads {F : FloatOps} {t : Tokenizer} (h : t.nextToken F = (.error .panic : Parse _)) :
    ¬ ∃ ts, t.Reads F ts := by
  rintro ⟨ts, hts⟩
  cases ts with
  | nil =>
    obtain ⟨t', ht'⟩ := hts
    cases h.symm.trans ht'
  | cons tok ts =>
    obtain ⟨t', ht', -⟩ := hts
    cases h.symm.trans ht'

/-- A word that ends inside `à`, an identifier that ends inside `é`, and the least `i32`. -/
theorem tokenizer_panics : (validUtf8 [0xC3, 0xA0] = true ∧ ¬ ∃ ts, Tokenizer.Reads default ⟨[0xC3, 0xA0], 0⟩ ts) ∧
    (validUtf8 [0x24, 0xC3, 0xA9] = true ∧ ¬ ∃ ts, Tokenizer.Reads default ⟨[0x24, 0xC3, 0xA9], 0⟩ ts) ∧
    validUtf8 (utf8 "-2147483648") = true ∧ ¬ ∃ ts, Tokenizer.Reads default ⟨utf8 "-2147483648", 0⟩ ts :=
  ⟨⟨by decide, Tokenizer.not_reads rfl⟩, ⟨by decide, Tokenizer.not_reads rfl⟩, by decide, Tokenizer.not_reads rfl⟩

end WasmOs.Asm
