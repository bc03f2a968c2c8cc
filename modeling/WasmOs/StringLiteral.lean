import WasmOs.Tokenizer

/-!
# String literals

The spellings of a byte string as a WAT literal, and which of them the assembler reads back. `read_string`
stops at the first quote, also at one behind a backslash, and `unescape_wat_string` takes `\0` for a whole
escape, so `\0d` is two bytes.
-/

namespace WasmOs.Asm

/-- Printable ASCII other than the quote and the backslash. -/
def Printable (b : UInt8) : Prop := 0x20 ≤ b ∧ b ≤ 0x7E ∧ b ≠ 0x22 ∧ b ≠ 0x5C

instance (b : UInt8) : Decidable (Printable b) := inferInstanceAs (Decidable (_ ∧ _))

/-- How one byte is spelled; `hex` has the two digits and whether each is upper case. -/
inductive Piece where
  | plain (b : UInt8) (h : Printable b)
  | hex (hi lo : Fin 16) (hiUpper loUpper : Bool)
  | newline | tab | carriageReturn | quote | backslash

namespace Piece

def byte : Piece → UInt8
  | plain b _ => b
  | hex hi lo _ _ => UInt8.ofNat (16 * hi + lo)
  | newline => 0x0A
  | tab => 0x09
  | carriageReturn => 0x0D
  | quote => 0x22
  | backslash => 0x5C

def hexChar (d : Fin 16) (upper : Bool) : UInt8 :=
  if d < 10 then UInt8.ofNat (0x30 + d) else if upper then UInt8.ofNat (0x37 + d) else UInt8.ofNat (0x57 + d)

def text : Piece → List UInt8
  | plain b _ => [b]
  | hex hi lo hiUpper loUpper => [0x5C, hexChar hi hiUpper, hexChar lo loUpper]
  | newline => [0x5C, 0x6E]
  | tab => [0x5C, 0x74]
  | carriageReturn => [0x5C, 0x72]
  | quote => [0x5C, 0x22]
  | backslash => [0x5C, 0x5C]

/-- No escaped quote, and no byte below 16 in hexadecimal. -/
def Safe : Piece → Prop
  | quote => False
  | hex hi _ _ _ => hi ≠ 0
  | _ => True

def decoded : Piece → List UInt8
  | hex hi lo hiUpper loUpper => if hi = 0 then [0, hexChar lo loUpper] else [(hex hi lo hiUpper loUpper).byte]
  | p => [p.byte]

end Piece

def literalText (ps : List Piece) : List UInt8 := ps.flatMap Piece.text

def literal (ps : List Piece) : List UInt8 := 0x22 :: (literalText ps ++ [0x22])

/-! ## Unescaping -/

theorem hexChar_digit : ∀ d u, isAsciiHexdigit (Piece.hexChar d u) = true := by decide

theorem hexChar_value : ∀ d u, (hexDigit (Piece.hexChar d u)).toNat = d := by decide

theorem hexChar_ne_backslash : ∀ d u, Piece.hexChar d u ≠ 0x5C := by decide

/-- A digit is taken for none of the other escapes, but for `\0`. -/
theorem hexChar_not_named : ∀ d u, Piece.hexChar d u ≠ 0x6E ∧ Piece.hexChar d u ≠ 0x74 ∧ Piece.hexChar d u ≠ 0x72 ∧
    Piece.hexChar d u ≠ 0x22 ∧ (Piece.hexChar d u = 0x30 ↔ d = 0) := by decide

theorem nibbles (hi lo : Fin 16) {h l : UInt8} (hh : h.toNat = hi) (hl : l.toNat = lo) :
    (h <<< 4) ||| l = UInt8.ofNat (16 * hi + lo) := by
  have hall : ∀ hi lo : Fin 16, (UInt8.ofNat hi <<< 4) ||| UInt8.ofNat lo = UInt8.ofNat (16 * hi + lo) := by decide
  rw [← hall, ← hh, ← hl, UInt8.ofNat_toNat, UInt8.ofNat_toNat]

theorem unescape_plain {b : UInt8} (h : b ≠ 0x5C) (rest : List UInt8) :
    unescapeWatString (b :: rest) = b :: unescapeWatString rest := by
  rw [unescapeWatString.eq_def]
  simp only [h, if_false]

theorem unescape_hex (hi lo : Fin 16) (hu lu : Bool) (rest : List UInt8) :
    unescapeWatString ((Piece.hex hi lo hu lu).text ++ rest) = (Piece.hex hi lo hu lu).decoded ++
    unescapeWatString rest := by
  obtain ⟨hn, ht, hr, hq, hzero⟩ := hexChar_not_named hi hu
  have hb := hexChar_ne_backslash hi hu
  unfold Piece.decoded
  rw [Piece.text, List.cons_append, List.cons_append, List.cons_append, unescapeWatString, if_pos rfl]
  dsimp only
  rw [if_neg hn, if_neg ht, if_neg hr, if_neg hq, if_neg hb]
  by_cases h : hi = 0
  · rw [if_pos (hzero.mpr h), if_pos h, unescape_plain (hexChar_ne_backslash lo lu)]
    rfl
  · rw [if_neg fun h0 => h (hzero.mp h0), if_neg h, if_pos ⟨hexChar_digit hi hu, hexChar_digit lo lu⟩,
      nibbles hi lo (hexChar_value hi hu) (hexChar_value lo lu)]
    rfl

theorem unescape_piece (p : Piece) (rest : List UInt8) :
    unescapeWatString (p.text ++ rest) = p.decoded ++ unescapeWatString rest := by
  cases p with
  | plain b h => exact unescape_plain h.2.2.2 rest
  | hex hi lo hu lu => exact unescape_hex hi lo hu lu rest
  | newline | tab | carriageReturn | quote | backslash =>
    rw [Piece.text, List.cons_append, List.cons_append, unescapeWatString.eq_def]
    rfl

theorem unescape_literalText (ps : List Piece) : unescapeWatString (literalText ps) = ps.flatMap Piece.decoded := by
  induction ps with
  | nil => rfl
  | cons p ps ih =>
    have htext : literalText (p :: ps) = p.text ++ literalText ps := List.flatMap_cons
    rw [htext, unescape_piece, ih, List.flatMap_cons]

/-- A byte spelled `\0X` becomes two, so nothing after it can make up for it. -/
theorem decoded_eq_iff (ps : List Piece) :
    ps.flatMap Piece.decoded = ps.map Piece.byte ↔ ∀ p ∈ ps, p.decoded = [p.byte] := by
  have hlen : ∀ p : Piece, 1 ≤ p.decoded.length := by
    intro p
    cases p with
    | hex hi lo hu lu =>
      unfold Piece.decoded
      by_cases h : hi = 0
      · simp [h]
      · simp [h]
    | _ => exact Nat.le_refl 1
  have hsum : ∀ ps : List Piece, ps.length ≤ (ps.flatMap Piece.decoded).length := by
    intro ps
    induction ps with
    | nil => exact Nat.le_refl 0
    | cons p ps ih =>
      rw [List.flatMap_cons, List.length_append, List.length_cons]
      have := hlen p
      omega
  induction ps with
  | nil => simp
  | cons p ps ih =>
    rw [List.flatMap_cons, List.map_cons, List.forall_mem_cons]
    constructor
    · intro h
      have hl := congrArg List.length h
      rw [List.length_append, List.length_cons, List.length_map] at hl
      have h1 : p.decoded.length = 1 := by
        have := hlen p
        have := hsum ps
        omega
      have h : p.decoded ++ ps.flatMap Piece.decoded = [p.byte] ++ ps.map Piece.byte := h
      obtain ⟨hp, hps⟩ := List.append_inj h h1
      exact ⟨hp, ih.mp hps⟩
    · rintro ⟨hp, hps⟩
      rw [hp, ih.mpr hps]
      rfl

/-! ## Finding the closing quote -/

theorem quote_mem_text {p : Piece} : 0x22 ∈ p.text ↔ p = .quote := by
  cases p with
  | plain b h =>
    simp only [Piece.text, List.mem_singleton, reduceCtorEq, iff_false]
    exact fun hb => h.2.2.1 hb.symm
  | hex hi lo hu lu =>
    have hhi := (hexChar_not_named hi hu).2.2.2.1
    have hlo := (hexChar_not_named lo lu).2.2.2.1
    simp [Piece.text, Ne.symm hhi, Ne.symm hlo]
  | newline | tab | carriageReturn | quote | backslash => simp [Piece.text]

theorem ascii_text {p : Piece} : ∀ c ∈ p.text, isContinuation c = false := by
  cases p with
  | plain b h =>
    intro c hc
    rw [List.mem_singleton.mp hc]
    have := h.2.1
    simp only [isContinuation, Bool.and_eq_false_imp, decide_eq_true_eq]
    intro h80
    exact absurd (UInt8.le_trans h80 this) (by decide)
  | hex hi lo hu lu =>
    have hall : ∀ d u, isContinuation (Piece.hexChar d u) = false := by decide
    intro c hc
    simp only [Piece.text, List.mem_cons, List.not_mem_nil, or_false] at hc
    obtain rfl | rfl | rfl := hc
    · rfl
    · exact hall hi hu
    · exact hall lo lu
  | newline | tab | carriageReturn | quote | backslash => decide +kernel

section
variable (pre : List UInt8) (ps : List Piece) (suffix : List UInt8)

def before : Tokenizer := ⟨pre ++ (literal ps ++ suffix), pre.length⟩

theorem before_ahead : (before pre ps suffix).src.drop (pre.length + 1) = literalText ps ++ 0x22 :: suffix := by
  have hsrc : (before pre ps suffix).src = pre ++ 0x22 :: (literalText ps ++ 0x22 :: suffix) := by
    simp [before, literal]
  rw [hsrc, List.drop_append, List.drop_of_length_le (Nat.le_succ _), Nat.add_sub_cancel_left]
  rfl

theorem nextToken_before {ε : Type} (F : FloatOps) :
    (before pre ps suffix).nextToken F = ((before pre ps suffix).readString : Rust ε _).map fun r =>
    (some r.1, r.2) := by
  have hat : (before pre ps suffix).src[(before pre ps suffix).pos]? = some 0x22 := by
    simp [before, literal]
  have hskip : (before pre ps suffix).skipWhitespaceAndComments = before pre ps suffix := by
    unfold Tokenizer.skipWhitespaceAndComments Tokenizer.skipWhitespaceAndComments.loop
    rw [hat]
    rfl
  unfold Tokenizer.nextToken
  rw [hskip]
  dsimp only
  rw [hat]
  rfl

def upToQuote (bytes : List UInt8) : List UInt8 := bytes.takeWhile (· != 0x22)

theorem upToQuote_of_not_mem {bytes : List UInt8} (h : 0x22 ∉ bytes) (rest : List UInt8) :
    upToQuote (bytes ++ 0x22 :: rest) = bytes := by
  have hall : ∀ c ∈ bytes, (c != 0x22) = true := by
    intro c hc
    rw [bne_iff_ne]
    rintro rfl
    exact h hc
  unfold upToQuote
  rw [List.takeWhile_append_of_pos hall, List.takeWhile_cons_of_neg (by simp), List.append_nil]

theorem upToQuote_length_lt {bytes : List UInt8} (h : 0x22 ∈ bytes) (rest : List UInt8) :
    (upToQuote (bytes ++ rest)).length < bytes.length := by
  induction bytes with
  | nil => cases h
  | cons c bytes ih =>
    unfold upToQuote at *
    rw [List.cons_append, List.length_cons]
    by_cases hc : c = 0x22
    · rw [hc, List.takeWhile_cons_of_neg (by simp)]
      exact Nat.succ_pos _
    · rw [List.takeWhile_cons_of_pos (by simpa using hc), List.length_cons]
      exact Nat.succ_lt_succ (ih ((List.mem_cons.mp h).resolve_left (Ne.symm hc)))

theorem readString_pos {ε : Type} {s : Token} {t : Tokenizer}
    (h : (before pre ps suffix).readString = (.ok (s, t) : Rust ε _)) :
    t.pos ≤ pre.length + (upToQuote (literalText ps ++ 0x22 :: suffix)).length + 2 := by
  unfold Tokenizer.readString at h
  obtain ⟨slice, -, h⟩ := bind_eq_ok.mp h
  cases h
  have hscan : (((before pre ps suffix).advance 1).scan (· != 0x22)).pos =
      pre.length + 1 + (upToQuote (literalText ps ++ 0x22 :: suffix)).length := by
    unfold upToQuote
    rw [← before_ahead pre ps suffix]
    rfl
  split
  · change (Tokenizer.scan _ _).pos + 1 ≤ _
    rw [hscan]
    omega
  · rw [hscan]
    omega

theorem boundary_of_ahead {bytes ahead : List UInt8} {i : Nat} {c : UInt8} (h : bytes.drop i = c :: ahead)
    (hc : isContinuation c = false) : isCharBoundary bytes i = true := by
  have hi : bytes[i]? = some c := by
    rw [← Nat.add_zero i, ← List.getElem?_drop, h]
    rfl
  unfold isCharBoundary
  rw [hi]
  simp [hc]

theorem readString_literal {ε : Type} (h : 0x22 ∉ literalText ps) :
    (before pre ps suffix).readString =
      (.ok (.stringLiteral (literalText ps), ⟨(before pre ps suffix).src, pre.length + (literal ps).length⟩) :
        Rust ε _) := by
  have hahead := before_ahead pre ps suffix
  have hlen : (before pre ps suffix).src.length =
      pre.length + 1 + ((literalText ps).length + (suffix.length + 1)) := by
    simp [before, literal]
    omega
  have hend : (before pre ps suffix).src.drop (pre.length + 1 + (literalText ps).length) = 0x22 :: suffix := by
    rw [← List.drop_drop, hahead, List.drop_left]
  have hscan : ((before pre ps suffix).advance 1).scan (· != 0x22) =
      ⟨(before pre ps suffix).src, pre.length + 1 + (literalText ps).length⟩ := by
    have hup := upToQuote_of_not_mem h suffix
    unfold upToQuote at hup
    rw [← hahead] at hup
    exact congrArg (fun l : List UInt8 => (⟨(before pre ps suffix).src, pre.length + 1 + l.length⟩ : Tokenizer)) hup
  have hstart : isCharBoundary (before pre ps suffix).src (pre.length + 1) = true := by
    cases htext : literalText ps with
    | nil =>
      rw [htext] at hahead
      exact boundary_of_ahead hahead (by decide)
    | cons c cs =>
      obtain ⟨p, -, hp⟩ := List.mem_flatMap.mp (htext ▸ List.mem_cons_self : c ∈ literalText ps)
      rw [htext] at hahead
      exact boundary_of_ahead hahead (ascii_text c hp)
  have hlt : pre.length + 1 + (literalText ps).length < (before pre ps suffix).src.length := by
    rw [hlen]
    omega
  have hslice : (⟨(before pre ps suffix).src, pre.length + 1 + (literalText ps).length⟩ : Tokenizer).slice
      (pre.length + 1) =
      (.ok (literalText ps) : Rust ε _) := by
    unfold Tokenizer.slice strSlice
    rw [if_pos ⟨Nat.le_add_right .., Nat.le_of_lt hlt, hstart, boundary_of_ahead hend (by decide)⟩, List.drop_take,
      hahead, Nat.add_sub_cancel_left, List.take_left]
  have hpos : pre.length + (literal ps).length = pre.length + 1 + (literalText ps).length + 1 := by
    simp [literal]
    omega
  unfold Tokenizer.readString
  dsimp only
  rw [hscan]
  change (Tokenizer.slice _ (pre.length + 1) >>= _) = _
  rw [hslice, bind_ok, if_pos hlt, hpos]
  rfl

/-- The literal is one token, up to its closing quote, and stands for the bytes. -/
def ReadsBack (F : FloatOps) : Prop :=
  ∃ s t, (before pre ps suffix).nextToken F = (.ok (some (.stringLiteral s), t) : Rust Unit _) ∧
    t.pos = pre.length + (literal ps).length ∧ unescapeWatString s = ps.map Piece.byte

end

theorem not_mem_literalText_iff (ps : List Piece) : 0x22 ∉ literalText ps ↔ ∀ p ∈ ps, p ≠ .quote := by
  unfold literalText
  rw [List.mem_flatMap]
  constructor
  · intro h p hp hq
    exact h ⟨p, hp, quote_mem_text.mpr hq⟩
  · rintro h ⟨p, hp, hq⟩
    exact h p hp (quote_mem_text.mp hq)

theorem safe_iff (p : Piece) : p.Safe ↔ p ≠ .quote ∧ p.decoded = [p.byte] := by
  cases p with
  | hex hi lo hu lu =>
    unfold Piece.Safe Piece.decoded
    by_cases h : hi = 0
    · simp [h]
    · simp [h]
  | quote => simp [Piece.Safe]
  | _ => simp [Piece.Safe, Piece.decoded]

/-- A spelling is read back exactly when it has no escaped quote and spells no byte below 16 in hexadecimal. -/
theorem string_literal_iff (F : FloatOps) (pre : List UInt8) (ps : List Piece) (suffix : List UInt8) :
    ReadsBack pre ps suffix F ↔ ∀ p ∈ ps, p.Safe := by
  have hsplit : (∀ p ∈ ps, p.Safe) ↔ 0x22 ∉ literalText ps ∧ unescapeWatString (literalText ps) =
      ps.map Piece.byte := by
    rw [not_mem_literalText_iff, unescape_literalText, decoded_eq_iff, ← forall₂_and]
    exact forall₂_congr fun p _ => safe_iff p
  unfold ReadsBack
  rw [hsplit, nextToken_before]
  constructor
  · rintro ⟨s, t, hnext, hpos, hbytes⟩
    have hread : (before pre ps suffix).readString = (.ok (.stringLiteral s, t) : Rust Unit _) := by
      cases hr : ((before pre ps suffix).readString : Rust Unit _) with
      | error e => rw [hr] at hnext; cases hnext
      | ok r =>
        obtain ⟨tok, t'⟩ := r
        rw [hr] at hnext
        cases hnext
        rfl
    have hquote : 0x22 ∉ literalText ps := by
      intro hmem
      have hlt := upToQuote_length_lt hmem (0x22 :: suffix)
      have hle := readString_pos pre ps suffix hread
      have hlen : (literal ps).length = (literalText ps).length + 2 := by simp [literal]
      omega
    rw [readString_literal pre ps suffix hquote] at hread
    cases hread
    exact ⟨hquote, hbytes⟩
  · rintro ⟨hquote, hbytes⟩
    rw [readString_literal pre ps suffix hquote]
    exact ⟨_, _, rfl, rfl, hbytes⟩

/-- `\0d\0a`, the line end of the server's response. -/
theorem string_literal_crlf : ¬ ∀ (F : FloatOps) (pre : List UInt8) (ps : List Piece) (suffix : List UInt8),
    ReadsBack pre ps suffix F := by
  intro h
  obtain ⟨s, t, hnext, -, hbytes⟩ := h default [] [.hex 0 13 false false, .hex 0 10 false false] []
  have hs : s = utf8 "\\0d\\0a" := by
    have : ((before [] [.hex 0 13 false false, .hex 0 10 false false] []).nextToken default).map Prod.fst =
        (.ok (some (.stringLiteral (utf8 "\\0d\\0a"))) : Rust Unit _) := by rfl
    rw [hnext] at this
    cases this
    rfl
  rw [hs] at hbytes
  exact absurd hbytes (by decide)

end WasmOs.Asm
