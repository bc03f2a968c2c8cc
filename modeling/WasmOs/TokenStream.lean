import WasmOs.WatParser

/-!
# The tokens ahead of the parser

The tokens a text consists of, the tokens a parser still has to read, and what its smallest steps do to
them. Every token takes at least a byte of the text, so the parser's loops do not run out of fuel.
-/

namespace WasmOs.Asm

/-! ## The tokenizer moves on -/

namespace Tokenizer

variable {t t' : Tokenizer}

theorem takeWhile_drop_le (t : Tokenizer) (h : t.pos ≤ t.src.length) (p : UInt8 → Bool) :
    (t.scan p).pos ≤ t.src.length := by
  have hle := (List.takeWhile_sublist p (l := t.src.drop t.pos)).length_le
  rw [List.length_drop] at hle
  change t.pos + _ ≤ _
  omega

theorem scan_lt {c : UInt8} {p : UInt8 → Bool} (hc : t.src[t.pos]? = some c) (hp : p c = true) :
    t.pos < (t.scan p).pos := by
  obtain ⟨hlt, hget⟩ := List.getElem?_eq_some_iff.mp hc
  have hdrop : t.src.drop t.pos = c :: t.src.drop (t.pos + 1) := by rw [List.drop_eq_getElem_cons hlt, hget]
  change t.pos < t.pos + _
  rw [hdrop, List.takeWhile_cons_of_pos hp, List.length_cons]
  omega

theorem skip_loop_stops (fuel : Nat) (hfuel : t.src.length < fuel + t.pos) :
    let t' := skipWhitespaceAndComments.loop fuel t
    t'.src = t.src ∧ t.pos ≤ t'.pos ∧ ∀ c, t'.src[t'.pos]? = some c → isWhitespace c = false := by
  induction fuel generalizing t with
  | zero =>
    refine ⟨rfl, Nat.le_refl _, fun c hc => ?_⟩
    obtain ⟨hlt, -⟩ := List.getElem?_eq_some_iff.mp hc
    change t.pos < t.src.length at hlt
    omega
  | succ fuel ih =>
    unfold skipWhitespaceAndComments.loop
    cases hc : t.src[t.pos]? with
    | none =>
      refine ⟨rfl, Nat.le_refl _, fun c hc' => ?_⟩
      rw [hc] at hc'
      cases hc'
    | some c =>
      dsimp only
      by_cases hw : isWhitespace c = true
      · rw [if_pos hw]
        obtain ⟨hsrc, hle, hstop⟩ := ih (t := t.advance 1) (show t.src.length < fuel + (t.pos + 1) by omega)
        exact ⟨hsrc, Nat.le_trans (Nat.le_succ _) hle, hstop⟩
      · rw [if_neg hw]
        by_cases hcomment : c = 0x3B ∧ t.src[t.pos + 1]? = some 0x3B
        · rw [if_pos hcomment]
          have hmoved : t.pos + 2 ≤ ((t.advance 2).scan (· != 0x0A)).pos := Nat.le_add_right ..
          obtain ⟨hsrc, hle, hstop⟩ := ih (t := (t.advance 2).scan (· != 0x0A))
            (show t.src.length < fuel + ((t.advance 2).scan (· != 0x0A)).pos by omega)
          exact ⟨hsrc, by omega, hstop⟩
        · rw [if_neg hcomment]
          refine ⟨rfl, Nat.le_refl _, fun d hd => ?_⟩
          rw [hc] at hd
          cases hd
          exact Bool.eq_false_iff.mpr hw

/-- Behind white space and comments stands something else, or the text ends. -/
theorem skip_stops (t : Tokenizer) :
    t.skipWhitespaceAndComments.src = t.src ∧ t.pos ≤ t.skipWhitespaceAndComments.pos ∧
    ∀ c, t.skipWhitespaceAndComments.src[t.skipWhitespaceAndComments.pos]? = some c → isWhitespace c = false :=
  skip_loop_stops (t.src.length + 1) (by omega)

/-- A token ends behind the place it was looked for, inside the text. -/
def Moved (t t' : Tokenizer) : Prop := t'.src = t.src ∧ t.pos < t'.pos ∧ t'.pos ≤ t.src.length

section
variable {tok : Token} {c : UInt8}

theorem readIdentifier_moved (hc : t.src[t.pos]? = some c)
    (h : (t.readIdentifier : Parse _) = .ok (tok, t')) : Moved t t' := by
  obtain ⟨hlt, -⟩ := List.getElem?_eq_some_iff.mp hc
  obtain ⟨s, -, h⟩ := bind_eq_ok.mp h
  cases h
  exact ⟨rfl, Nat.le_add_right (t.pos + 1) _, takeWhile_drop_le (t.advance 1) hlt _⟩

theorem readString_moved (hc : t.src[t.pos]? = some c) (h : (t.readString : Parse _) = .ok (tok, t')) :
    Moved t t' := by
  obtain ⟨hlt, -⟩ := List.getElem?_eq_some_iff.mp hc
  obtain ⟨s, -, h⟩ := bind_eq_ok.mp h
  cases h
  have hle := takeWhile_drop_le (t.advance 1) hlt (· != 0x22)
  have hge : t.pos + 1 ≤ ((t.advance 1).scan (· != 0x22)).pos := Nat.le_add_right ..
  split
  · next hend => exact ⟨rfl, Nat.lt_succ_of_le (Nat.le_of_succ_le hge), hend⟩
  · exact ⟨rfl, hge, hle⟩

theorem readKeyword_moved (hc : t.src[t.pos]? = some c) (hw : isWhitespace c = false) (hl : c ≠ 0x28)
    (hr : c ≠ 0x29) (h : (t.readKeyword : Parse _) = .ok (tok, t')) : Moved t t' := by
  obtain ⟨hlt, -⟩ := List.getElem?_eq_some_iff.mp hc
  obtain ⟨s, -, h⟩ := bind_eq_ok.mp h
  cases h
  exact ⟨rfl, scan_lt hc (by simp [hw, hl, hr]), takeWhile_drop_le t (Nat.le_of_lt hlt) _⟩

theorem readNumber_moved {F : FloatOps} (hc : t.src[t.pos]? = some c) (hd : isAsciiDigit c = true ∨ c = 0x2D)
    (h : (t.readNumber F : Parse _) = .ok (tok, t')) : Moved t t' := by
  obtain ⟨hlt, -⟩ := List.getElem?_eq_some_iff.mp hc
  have hscan : Moved t ((if t.src[t.pos]? = some 0x2D then t.advance 1 else t).scan fun c => c == 0x2E ||
      isAsciiDigit c) := by
    by_cases hneg : t.src[t.pos]? = some 0x2D
    · rw [if_pos hneg]
      exact ⟨rfl, Nat.le_add_right (t.pos + 1) _, takeWhile_drop_le (t.advance 1) hlt _⟩
    · rw [if_neg hneg]
      have hdigit : isAsciiDigit c = true := by
        refine hd.resolve_right fun heq => hneg ?_
        rw [hc, heq]
      exact ⟨rfl, scan_lt hc (by simp [hdigit]), takeWhile_drop_le t (Nat.le_of_lt hlt) _⟩
  unfold readNumber at h
  dsimp only at h
  generalize (if t.src[t.pos]? = some 0x2D then t.advance 1 else t) = u at h hscan
  obtain ⟨s, -, h⟩ := bind_eq_ok.mp h
  split at h
  · obtain ⟨f, -, h⟩ := bind_eq_ok.mp h
    cases h
    exact hscan
  · obtain ⟨n, -, h⟩ := bind_eq_ok.mp h
    cases h
    exact hscan

end

theorem nextToken_moved {F : FloatOps} {tok : Token} (h : t.nextToken F = (.ok (some tok, t') : Parse _)) :
    Moved t t' := by
  obtain ⟨hsrc, hle, hstop⟩ := skip_stops t
  have hfrom : ∀ {u}, Moved t.skipWhitespaceAndComments u → Moved t u := by
    rintro u ⟨hu, hlt, hend⟩
    rw [hsrc] at hu hend
    exact ⟨hu, Nat.lt_of_le_of_lt hle hlt, hend⟩
  unfold nextToken at h
  dsimp only at h
  cases hc : t.skipWhitespaceAndComments.src[t.skipWhitespaceAndComments.pos]? with
  | none =>
    rw [hc] at h
    cases h
  | some c =>
    rw [hc] at h
    dsimp only at h
    obtain ⟨hlt, -⟩ := List.getElem?_eq_some_iff.mp hc
    have hparen : Moved t.skipWhitespaceAndComments (t.skipWhitespaceAndComments.advance 1) :=
      ⟨rfl, Nat.lt_succ_self _, hlt⟩
    by_cases hl : c = 0x28
    · rw [if_pos hl] at h
      cases h
      exact hfrom hparen
    rw [if_neg hl] at h
    by_cases hr : c = 0x29
    · rw [if_pos hr] at h
      cases h
      exact hfrom hparen
    rw [if_neg hr] at h
    have hread : ∀ {r : Parse (Token × Tokenizer)}, (r.map fun r => (some r.1, r.2)) = .ok (some tok, t') →
        r = .ok (tok, t') := by
      rintro (e | ⟨k, u⟩) hr
      · cases hr
      · cases hr
        rfl
    replace h := hread h
    split at h
    · exact hfrom (readIdentifier_moved hc h)
    · split at h
      · exact hfrom (readString_moved hc h)
      · split at h
        · next hd => exact hfrom (readNumber_moved hc hd h)
        · exact hfrom (readKeyword_moved hc (hstop c hc) hl hr h)

theorem nextToken_end {F : FloatOps} (h : t.nextToken F = (.ok (none, t') : Parse _)) :
    t'.nextToken F = (.ok (none, t') : Parse _) := by
  have hat : t' = t.skipWhitespaceAndComments ∧
      t.skipWhitespaceAndComments.src[t.skipWhitespaceAndComments.pos]? = none := by
    unfold nextToken at h
    dsimp only at h
    cases hc : t.skipWhitespaceAndComments.src[t.skipWhitespaceAndComments.pos]? with
    | none =>
      rw [hc] at h
      cases h
      exact ⟨rfl, rfl⟩
    | some c =>
      rw [hc] at h
      dsimp only at h
      have hread : ∀ r : Parse (Token × Tokenizer), (r.map fun r => (some r.1, r.2)) ≠ .ok (none, t') := by
        rintro (e | ⟨k, u⟩) hr
        · cases hr
        · cases hr
      split at h
      · cases h
      · split at h
        · cases h
        · exact absurd h (hread _)
  obtain ⟨rfl, hend⟩ := hat
  generalize t.skipWhitespaceAndComments = u at hend
  have hskip : u.skipWhitespaceAndComments = u := by
    unfold skipWhitespaceAndComments skipWhitespaceAndComments.loop
    rw [hend]
  unfold nextToken
  rw [hskip]
  dsimp only
  rw [hend]

def Supplies (F : FloatOps) : Tokenizer → List Token → Prop
  | t, [] => ∃ t', t.nextToken F = (.ok (none, t') : Parse _)
  | t, tok :: ts => ∃ t', t.nextToken F = (.ok (some tok, t') : Parse _) ∧ Supplies F t' ts

theorem Supplies.length_le {F : FloatOps} {ts : List Token} (h : t.Supplies F ts) :
    ts.length ≤ t.src.length - t.pos := by
  induction ts generalizing t with
  | nil => exact Nat.zero_le _
  | cons tok ts ih =>
    obtain ⟨t', htok, hrest⟩ := h
    obtain ⟨hsrc, hlt, hend⟩ := nextToken_moved htok
    have hle := ih hrest
    rw [hsrc] at hle
    rw [List.length_cons]
    omega

theorem Supplies.unique {F : FloatOps} {ts ts' : List Token} (h : t.Supplies F ts) (h' : t.Supplies F ts') :
    ts = ts' := by
  induction ts generalizing t ts' with
  | nil =>
    cases ts' with
    | nil => rfl
    | cons tok ts' =>
      obtain ⟨u, hu⟩ := h
      obtain ⟨u', hu', -⟩ := h'
      cases hu.symm.trans hu'
  | cons tok ts ih =>
    obtain ⟨u, hu, hrest⟩ := h
    cases ts' with
    | nil =>
      obtain ⟨u', hu'⟩ := h'
      cases hu.symm.trans hu'
    | cons tok' ts' =>
      obtain ⟨u', hu', hrest'⟩ := h'
      cases hu.symm.trans hu'
      rw [ih hrest hrest']

def tokens (F : FloatOps) : Nat → Tokenizer → Parse (List Token)
  | 0, _ => .error .hang
  | fuel + 1, t => do
    let (tok, t) ← t.nextToken F
    match tok with
    | some tok => do
      let ts ← tokens F fuel t
      .ok (tok :: ts)
    | none => .ok []

theorem supplies_of_tokens {F : FloatOps} (fuel : Nat) {ts : List Token} (h : t.tokens F fuel = .ok ts) :
    t.Supplies F ts := by
  induction fuel generalizing t ts with
  | zero => cases h
  | succ fuel ih =>
    obtain ⟨⟨tok, t'⟩, htok, h⟩ := bind_eq_ok.mp h
    cases tok with
    | none =>
      cases h
      exact ⟨t', htok⟩
    | some tok =>
      obtain ⟨rest, hrest, h⟩ := bind_eq_ok.mp h
      cases h
      exact ⟨t', htok, ih hrest⟩

end Tokenizer

/-! ## The parser -/

structure Names where
  func : NameTable
  type : NameTable
  loc : NameTable

namespace Parser

variable {F : FloatOps} {p q : Parser} {ts : List Token} {ns : Names} {tok : Token}

def names (p : Parser) : Names := ⟨p.funcNames, p.typeNames, p.localNames⟩

/-- The parser is in front of these tokens, the last ones of the text, and knows these names. -/
structure At (F : FloatOps) (p : Parser) (ts : List Token) (ns : Names) : Prop where
  ahead : match p.unget with
    | none => p.lookahead = ts.head? ∧ p.tokenizer.Supplies F ts.tail
    | some tok => ∃ la rest, p.lookahead = some la ∧ ts = la :: tok :: rest ∧ p.tokenizer.Supplies F rest
  names : p.names = ns

theorem At.lookahead (h : p.At F ts ns) : p.lookahead = ts.head? := by
  have hahead := h.ahead
  split at hahead
  · exact hahead.1
  · obtain ⟨la, rest, hla, rfl, -⟩ := hahead
    exact hla

theorem At.fuel (h : p.At F ts ns) : 2 * ts.length + 4 ≤ p.fuel := by
  unfold Parser.fuel
  have hahead := h.ahead
  split at hahead
  · have hle := hahead.2.length_le
    rw [List.length_tail] at hle
    omega
  · obtain ⟨la, rest, -, rfl, hrest⟩ := hahead
    have hle := hrest.length_le
    rw [List.length_cons, List.length_cons]
    omega

/-- The parser reads the token ahead; the slot for another one is empty then. -/
theorem At.bump (h : p.At F (tok :: ts) ns) : ∃ q, p.bump F = .ok q ∧ q.At F ts ns ∧ q.unget = none := by
  have hahead := h.ahead
  have hnames := h.names
  unfold Parser.bump
  cases hu : p.unget with
  | some k =>
    rw [hu] at hahead
    obtain ⟨la, rest, -, heq, hrest⟩ := hahead
    cases heq
    exact ⟨_, rfl, ⟨⟨rfl, hrest⟩, hnames⟩, rfl⟩
  | none =>
    rw [hu] at hahead
    obtain ⟨-, hsup⟩ := hahead
    rw [List.tail_cons] at hsup
    cases ts with
    | nil =>
      obtain ⟨t', ht'⟩ := hsup
      refine ⟨{ p with lookahead := none, tokenizer := t', unget := none }, ?_, ⟨?_, hnames⟩, rfl⟩
      · dsimp only
        rw [ht']
        rfl
      · exact ⟨rfl, t', Tokenizer.nextToken_end ht'⟩
    | cons k ts =>
      obtain ⟨t', ht', hrest⟩ := hsup
      refine ⟨{ p with lookahead := some k, tokenizer := t', unget := none }, ?_, ⟨?_, hnames⟩, rfl⟩
      · dsimp only
        rw [ht']
        rfl
      · exact ⟨rfl, hrest⟩

theorem At.ungetLparen (h : p.At F ts ns) (hu : p.unget = none) : p.ungetLparen.At F (.lparen :: ts) ns := by
  have hahead := h.ahead
  rw [hu] at hahead
  obtain ⟨hla, hsup⟩ := hahead
  refine ⟨?_, h.names⟩
  cases ts with
  | nil =>
    have hslot : p.ungetLparen.unget = none := hla
    rw [hslot]
    exact ⟨rfl, hsup⟩
  | cons tok ts =>
    have hslot : p.ungetLparen.unget = some tok := hla
    rw [hslot]
    exact ⟨.lparen, ts, rfl, rfl, hsup⟩

theorem At.unique {ts' : List Token} {ns' : Names} (h : p.At F ts ns) (h' : p.At F ts' ns') : ts = ts' := by
  have hahead := h.ahead
  have hahead' := h'.ahead
  cases hu : p.unget with
  | some k =>
    rw [hu] at hahead hahead'
    obtain ⟨la, rest, hla, rfl, hrest⟩ := hahead
    obtain ⟨la', rest', hla', rfl, hrest'⟩ := hahead'
    cases hla.symm.trans hla'
    rw [hrest.unique hrest']
  | none =>
    rw [hu] at hahead hahead'
    obtain ⟨hla, hsup⟩ := hahead
    obtain ⟨hla', hsup'⟩ := hahead'
    have htail := hsup.unique hsup'
    have hhead : ts.head? = ts'.head? := hla.symm.trans hla'
    cases ts with
    | nil =>
      cases ts' with
      | nil => rfl
      | cons tok ts' => cases hhead
    | cons tok ts =>
      cases ts' with
      | nil => cases hhead
      | cons tok' ts' =>
        cases hhead
        rw [show ts = ts' from htail]

theorem new_at {src : List UInt8} (h : Tokenizer.Supplies F ⟨src, 0⟩ ts) :
    ∃ p, Parser.new F src = .ok p ∧ p.At F ts ⟨[], [], []⟩ := by
  unfold Parser.new
  cases ts with
  | nil =>
    obtain ⟨t', ht'⟩ := h
    rw [ht', bind_ok]
    exact ⟨_, rfl, ⟨⟨rfl, t', Tokenizer.nextToken_end ht'⟩, rfl⟩⟩
  | cons tok ts =>
    obtain ⟨t', ht', hrest⟩ := h
    rw [ht', bind_ok]
    exact ⟨_, rfl, ⟨⟨rfl, hrest⟩, rfl⟩⟩

theorem At.expectLparen (h : p.At F (.lparen :: ts) ns) : ∃ q, p.expectLparen F = .ok q ∧ q.At F ts ns := by
  obtain ⟨q, hq, hat, -⟩ := h.bump
  rw [Parser.expectLparen, if_pos (show p.lookahead = some .lparen from h.lookahead)]
  exact ⟨q, hq, hat⟩

theorem At.expectRparen (h : p.At F (.rparen :: ts) ns) : ∃ q, p.expectRparen F = .ok q ∧ q.At F ts ns := by
  obtain ⟨q, hq, hat, -⟩ := h.bump
  rw [Parser.expectRparen, if_pos (show p.lookahead = some .rparen from h.lookahead)]
  exact ⟨q, hq, hat⟩

theorem At.expectKeyword {kw : List UInt8} (h : p.At F (.keyword kw :: ts) ns) :
    ∃ q, p.expectKeyword F kw = .ok q ∧ q.At F ts ns := by
  obtain ⟨q, hq, hat, -⟩ := h.bump
  rw [Parser.expectKeyword, if_pos (show p.lookahead = some (.keyword kw) from h.lookahead)]
  exact ⟨q, hq, hat⟩

end Parser

end WasmOs.Asm
