import WasmOs.FuncParse

/-!
# Parsing a module

Each field is read up to its own closing parenthesis, or the parser stops or stands elsewhere. The fields
that are read are those of which the parser knows the whole form; a module is read to its end exactly when
all of its fields are.
-/

namespace WasmOs.Asm

variable {F : FloatOps} {ts us rest : List Token} {ns : Names} {p : Parser} {m : Module}

def DataMemory.isIndex : DataMemory → Bool
  | index _ => true
  | list _ => false

/-- A number without `offset` around it. -/
def DataOffset.isPlain : DataOffset → Bool
  | folded (.const _) => true
  | _ => false

/-- The parser takes the whole of the field, whatever stands behind it. -/
def Field.Kept : Field F → Prop
  | type .. => True
  | .import _ _ (.func ..) => True
  | .import _ _ (.other ..) => False
  | func f => f.Indexed
  | funcImport _ _ _ _ ref groups => ref = none ∧ groups = []
  | memory _ inline limits => inline.length ≤ 1 ∧ ∀ i ∈ inline, i.inside.Shallow ∧
    (i.kw = utf8 "import" → limits = none)
  | .export .. => True
  | data name mem offset _ => name = none ∧ mem.all DataMemory.isIndex = true ∧ offset.all DataOffset.isPlain = true
  | skipped _ _ inside => inside.Shallow

theorem DataOffset.of_isPlain {e : DataOffset} (h : e.isPlain = true) : ∃ n, e = .folded (.const n) := by
  cases e with
  | folded e =>
    cases e with
    | const n => exact ⟨n, rfl⟩
    | global ref => cases h
  | wrapped e => cases h
  | wrappedFlat e => cases h

instance : DecidablePred (Field.Kept : Field F → Prop)
  | .type .. => .isTrue trivial
  | .import _ _ (.func ..) => .isTrue trivial
  | .import _ _ (.other ..) => .isFalse id
  | .func f => Nat.decLt (f.params.length + f.localTys.length) (2 ^ 32)
  | .funcImport _ _ _ _ ref groups => inferInstanceAs (Decidable (ref = none ∧ groups = []))
  | .memory _ inline limits =>
    inferInstanceAs (Decidable (inline.length ≤ 1 ∧ ∀ i ∈ inline, i.inside.nesting + 1 < 2 ^ 31 ∧
      (i.kw = utf8 "import" → limits = none)))
  | .export .. => .isTrue trivial
  | .data name mem offset _ =>
    inferInstanceAs (Decidable (name = none ∧ mem.all DataMemory.isIndex = true ∧
      offset.all DataOffset.isPlain = true))
  | .skipped _ _ inside => Nat.decLt (inside.nesting + 1) (2 ^ 31)

/-- What a field parser does in front of the tokens of a field. -/
def Reads (F : FloatOps) (m : Module) (kept : Prop) (r : Parse (Module × Parser))
    (o : Option (Module × Names)) (rest : List Token) : Prop :=
  (kept → Gives F r o rest) ∧ (¬ kept → Strays F m r rest)

theorem Reads.of_gives {kept : Prop} {r : Parse (Module × Parser)} {o : Option (Module × Names)}
    (h : Gives F r o rest) (hkept : kept) :
    Reads F m kept r o rest := by
  constructor
  · intro _
    exact h
  · intro hno
    exact absurd hkept hno

theorem Reads.of_strays {kept : Prop} {r : Parse (Module × Parser)} {o : Option (Module × Names)}
    (h : Strays F m r rest) (hno : ¬ kept) :
    Reads F m kept r o rest := by
  constructor
  · intro hkept
    exact absurd hkept hno
  · intro _
    exact h

theorem skip_keyword {kw : List UInt8} (inside : Sexps)
    (hp : p.At F (.keyword kw :: (inside.tokens ++ .rparen :: rest)) ns) :
    (inside.Shallow → ∃ q, p.skipRestOfList F = .ok q ∧ q.At F rest ns) ∧
    (¬ inside.Shallow → ∃ e, p.skipRestOfList F = .error e) :=
  skip_rest (.atom (.keyword kw) (by simp) inside) hp

/-! ## Types and imports -/

theorem type_read (name : Option Name) (groups : List Group)
    (hp : p.At F (.keyword (utf8 "type") :: ((Field.type name groups : Field F).inside ++ .rparen :: rest)) ns) :
    Gives F (p.parseTypeDef F m) ((Field.type name groups : Field F).denote Names.resolver m ns) rest := by
  have htokens : (Field.type name groups : Field F).inside ++ .rparen :: rest =
      labelTokens name ++
      (.lparen :: .keyword (utf8 "func") :: (groups.flatMap Group.tokens ++ .rparen :: .rparen :: rest)) := by
    simp [Field.inside, parens, closed]
  rw [htokens] at hp
  obtain ⟨q₁, h₁, hat₁, -⟩ := hp.bump
  obtain ⟨q₂, h₂, hat₂⟩ := tryIdentifier_label name hat₁ (by simp)
  obtain ⟨q₃, h₃, hat₃⟩ := hat₂.expectLparen
  obtain ⟨q₄, h₄, hat₄⟩ := hat₃.expectKeyword
  obtain ⟨q₅, h₅, hat₅⟩ := parseFuncTypeFields_at groups hat₄
  obtain ⟨q₆, h₆, hat₆⟩ := hat₅.expectRparen
  have hnamed : Parser.At F (q₆.nameType name (UInt32.ofNat m.types.length)) (.rparen :: rest) _ :=
    hat₆.rename ⟨rfl, rfl, rfl⟩
  obtain ⟨q₇, h₇, hat₇⟩ := hnamed.expectRparen
  refine ⟨q₇, ?_, ?_⟩
  · rw [Parser.parseTypeDef, h₁, bind_ok, h₂, bind_ok]
    dsimp only
    rw [h₃, bind_ok, h₄, bind_ok, h₅, bind_ok]
    dsimp only
    rw [h₆, bind_ok, h₇, bind_ok]
  · rw [← hat₆.names]
    exact hat₇

theorem typeUse_noName (ref : Option Ref) (groups : List Group) :
    NoName (typeRefTokens ref ++ (groups.flatMap Group.tokens ++ .rparen :: rest)) := by
  refine noName_typeRef ref (noName_lists (fun g => ?_) ?_)
  · rw [g.tokens_eq]
    rfl
  · intro id h
    cases h

def Parser.importDesc (F : FloatOps) (p : Parser) (m : Module) (modBytes nameBytes : List UInt8) :
    Parse (Module × Parser) :=
  if p.lookahead = some (.keyword (utf8 "func")) then do
    let p ← p.bump F
    let (name, p) ← p.tryIdentifier F
    let p := p.nameFunc name (UInt32.ofNat m.imports.length)
    let ((types, typeIdx), p) ← p.parseTypeUse F m.types
    let p ← p.expectRparen F
    let p ← p.expectRparen F
    .ok ({ m with types := types, imports := m.imports ++ [⟨modBytes, nameBytes, typeIdx⟩] }, p)
  else do
    let p ← p.skipRestOfList F
    .ok (m, p)

theorem import_start (mod name : List UInt8) (desc : List Token)
    (hp : p.At F (.keyword (utf8 "import") :: .stringLiteral mod :: .stringLiteral name :: .lparen :: desc) ns) :
    ∃ q : Parser, q.At F desc ns ∧ p.parseImport F m = q.importDesc F m (unescapeWatString mod)
    (unescapeWatString name) := by
  obtain ⟨q₁, h₁, hat₁, -⟩ := hp.bump
  obtain ⟨q₂, h₂, hat₂⟩ := hat₁.expectString
  obtain ⟨q₃, h₃, hat₃⟩ := hat₂.expectString
  obtain ⟨q₄, h₄, hat₄⟩ := hat₃.expectLparen
  refine ⟨q₄, hat₄, ?_⟩
  rw [Parser.parseImport, h₁, bind_ok, h₂, bind_ok]
  dsimp only
  rw [h₃, bind_ok]
  dsimp only
  rw [h₄, bind_ok]
  rfl

theorem importFunc_read (mod name : List UInt8) (id : Option Name) (ref : Option Ref) (groups : List Group)
    (hp : p.At F (.keyword (utf8 "import") ::
      ((Field.import mod name (.func id ref groups) : Field F).inside ++ .rparen :: rest)) ns) :
    Gives F (p.parseImport F m) ((Field.import mod name (.func id ref groups) : Field F).denote Names.resolver
      m ns) rest := by
  have htokens : (Field.import mod name (.func id ref groups) : Field F).inside ++ .rparen :: rest =
      .stringLiteral mod :: .stringLiteral name :: .lparen :: .keyword (utf8 "func") ::
        (labelTokens id ++ (typeRefTokens ref ++ (groups.flatMap Group.tokens ++ .rparen :: .rparen :: rest))) := by
    simp [Field.inside, ImportDesc.tokens, parens, closed]
  rw [htokens] at hp
  obtain ⟨q, hat, hparse⟩ := import_start (m := m) mod name _ hp
  have hla : q.lookahead = some (.keyword (utf8 "func")) := hat.lookahead
  obtain ⟨q₁, h₁, hat₁, -⟩ := hat.bump
  obtain ⟨q₂, h₂, hat₂⟩ := tryIdentifier_label id hat₁ (typeUse_noName ref groups)
  have hnamed : Parser.At F (q₂.nameFunc id (UInt32.ofNat m.imports.length)) _ _ := hat₂.rename ⟨rfl, rfl, rfl⟩
  rw [← List.append_assoc] at hnamed
  have huse := parseTypeUse_at ref groups m.types hnamed
  have hnames : (q₂.nameFunc id (UInt32.ofNat m.imports.length)).names =
      { ns with func := ns.func.note id (UInt32.ofNat m.imports.length) } := by
    rw [← hat₂.names]
    rfl
  rw [hnames] at huse
  rw [hparse, Parser.importDesc, if_pos hla, h₁, bind_ok, h₂, bind_ok]
  dsimp only
  refine huse.gives fun use q₃ hat₃ => ?_
  obtain ⟨q₄, h₄, hat₄⟩ := hat₃.expectRparen
  obtain ⟨q₅, h₅, hat₅⟩ := hat₄.expectRparen
  obtain ⟨types, typeIdx⟩ := use
  refine ⟨q₅, ?_, hat₅⟩
  dsimp only
  rw [h₄, bind_ok, h₅, bind_ok]

theorem importOther_strays (mod name : List UInt8) {kw : List UInt8} (kind : kw ≠ utf8 "func") (inside : Sexps)
    (hp : p.At F (.keyword (utf8 "import") ::
      ((Field.import mod name (.other kw kind inside) : Field F).inside ++ .rparen :: rest)) ns) :
    Strays F m (p.parseImport F m) rest := by
  have htokens : (Field.import mod name (.other kw kind inside) : Field F).inside ++ .rparen :: rest =
      .stringLiteral mod :: .stringLiteral name :: .lparen :: .keyword kw ::
      (inside.tokens ++ .rparen :: .rparen :: rest) := by
    simp [Field.inside, ImportDesc.tokens, parens, closed]
  rw [htokens] at hp
  obtain ⟨q, hat, hparse⟩ := import_start (m := m) mod name _ hp
  have hla : q.lookahead = some (.keyword kw) := hat.lookahead
  have hother : ¬ q.lookahead = some (.keyword (utf8 "func")) := by
    rw [hla]
    intro heq
    exact kind (Token.keyword.inj (Option.some.inj heq))
  rw [hparse, Parser.importDesc, if_neg hother]
  obtain ⟨hskip, hpanics⟩ := skip_keyword inside hat
  by_cases hshallow : inside.Shallow
  · obtain ⟨q', h', hat'⟩ := hskip hshallow
    rw [h', bind_ok]
    exact Strays.ok hat' (by simp) (by simp) rfl
  · obtain ⟨e, he⟩ := hpanics hshallow
    rw [he, bind_error]
    exact Strays.error

/-! ## Functions that are imported -/

theorem funcImport_read (name : Option Name) (exports : List (List UInt8)) (mod field : List UInt8)
    (ref : Option Ref) (groups : List FuncGroup) (hp : p.At F (.keyword (utf8 "func") ::
      ((Field.funcImport name exports mod field ref groups : Field F).inside ++ .rparen :: rest)) ns) :
    Reads F m (ref = none ∧ groups = []) (p.parseFuncDef F m)
      ((Field.funcImport name exports mod field ref groups : Field F).denote Names.resolver m ns) rest := by
  have htokens : (Field.funcImport name exports mod field ref groups : Field F).inside ++ .rparen :: rest =
      labelTokens name ++
      (exportTokens exports ++ (.lparen :: .keyword (utf8 "import") :: .stringLiteral mod ::
        .stringLiteral field :: .rparen ::
        (typeRefTokens ref ++ (groups.flatMap FuncGroup.tokens ++ .rparen :: rest)))) := by
    simp [Field.inside, parens, closed]
  rw [htokens] at hp
  have hopens : NoName (exportTokens exports ++ (.lparen :: .keyword (utf8 "import") :: .stringLiteral mod ::
      .stringLiteral field :: .rparen ::
      (typeRefTokens ref ++ (groups.flatMap FuncGroup.tokens ++ .rparen :: rest)))) := by
    refine noName_lists (fun _ => rfl) fun id h => ?_
    cases h
  obtain ⟨q, hat, hparse⟩ := func_start name m hopens hp
  obtain ⟨q₀, k₀, hat₀, hk₀, h₀⟩ :=
    (exports_read m.nextFunc m exports hat hat.room (h := ⟨false, 0, [], [], [], 0⟩)).1 trivial
  obtain ⟨k, rfl⟩ : ∃ k, k₀ = k + 1 := ⟨k₀ - 1, by omega⟩
  have hla : q₀.lookahead = some .lparen := hat₀.lookahead
  obtain ⟨q₁, h₁, hat₁, -⟩ := hat₀.bump
  have hla₁ : q₁.lookahead = some (.keyword (utf8 "import")) := hat₁.lookahead
  obtain ⟨q₂, h₂, hat₂, -⟩ := hat₁.bump
  obtain ⟨q₃, h₃, hat₃⟩ := hat₂.expectString
  obtain ⟨q₄, h₄, hat₄⟩ := hat₃.expectString
  obtain ⟨q₅, h₅, hat₅⟩ := hat₄.expectRparen
  have hround : p.parseFuncDef F m = (q₅.expectRparen F >>= fun p => .ok ({ m.addExports exports m.nextFunc with
      types := (Parser.internType m.types ⟨[], []⟩).1,
      imports := m.imports ++
        [⟨unescapeWatString mod, unescapeWatString field, (Parser.internType m.types ⟨[], []⟩).2⟩] }, p)) := by
    rw [hparse, h₀]
    dsimp only
    rw [Parser.parseFuncDef.loop, if_pos hla, h₁, bind_ok, if_neg (by rw [hla₁]; decide), if_pos hla₁, h₂,
      bind_ok, h₃, bind_ok]
    dsimp only
    rw [h₄, bind_ok]
    dsimp only
    rw [h₅, bind_ok]
    rfl
  rw [hround]
  have hothers : ¬ (ref = none ∧ groups = []) → q₅.lookahead = some .lparen := by
    intro hno
    rw [hat₅.lookahead]
    cases ref with
    | some r => rfl
    | none =>
      cases groups with
      | nil => exact absurd ⟨rfl, rfl⟩ hno
      | cons g groups =>
        rw [List.flatMap_cons, List.append_assoc, typeRefTokens]
        cases g with
        | param d => rfl
        | result tys => rfl
  constructor
  · intro hkept
    obtain ⟨rfl, rfl⟩ := hkept
    change q₅.At F (.rparen :: rest) _ at hat₅
    obtain ⟨q₆, h₆, hat₆⟩ := hat₅.expectRparen
    refine ⟨q₆, ?_, hat₆⟩
    rw [h₆, bind_ok]
    rfl
  · intro hno
    rw [Parser.expectRparen_error (by rw [hothers hno]; decide), bind_error]
    exact Strays.error

/-! ## Memories -/

theorem tryInt_int {n : BitVec 32} (hp : p.At F (.int n :: ts) ns) :
    ∃ q, p.tryInt F = .ok (some (asU32 n), q) ∧ q.At F ts ns := by
  have hla : p.lookahead = some (.int n) := hp.lookahead
  obtain ⟨q, hq, hat, -⟩ := hp.bump
  refine ⟨q, ?_, hat⟩
  rw [Parser.tryInt, hla]
  dsimp only
  rw [hq, bind_ok]

theorem tryInt_none (h : ∀ n, p.lookahead ≠ some (.int n)) : p.tryInt F = .ok (none, p) := by
  unfold Parser.tryInt
  split
  · next n hla => exact absurd hla (h n)
  · rfl

theorem limits_read (limits : Option Limits)
    (hp : p.At F ((limits.map Limits.tokens).getD [] ++ .rparen :: rest) ns) :
    ∃ q, p.parseMemoryLimits F m = .ok ({ m with memories := m.memories ++
      [⟨asU32 ((limits.map Limits.min).getD 0), (limits.bind Limits.max).map asU32⟩] }, q) ∧ q.At F rest ns := by
  unfold Parser.parseMemoryLimits
  cases limits with
  | none =>
    change p.At F (.rparen :: rest) ns at hp
    have hla : p.lookahead = some .rparen := hp.lookahead
    have hnone : p.tryInt F = .ok (none, p) := tryInt_none (by simp [hla])
    obtain ⟨q, hq, hat⟩ := hp.expectRparen
    refine ⟨q, ?_, hat⟩
    rw [hnone, bind_ok]
    dsimp only
    rw [hnone, bind_ok]
    dsimp only
    rw [hq, bind_ok]
    rfl
  | some l =>
    obtain ⟨min, max⟩ := l
    change p.At F (.int min :: ((max.map Token.int).toList ++ .rparen :: rest)) ns at hp
    obtain ⟨q₁, h₁, hat₁⟩ := tryInt_int hp
    rw [h₁, bind_ok]
    dsimp only
    cases max with
    | none =>
      change q₁.At F (.rparen :: rest) ns at hat₁
      have hla : q₁.lookahead = some .rparen := hat₁.lookahead
      have hnone : q₁.tryInt F = .ok (none, q₁) := tryInt_none (by simp [hla])
      obtain ⟨q, hq, hat⟩ := hat₁.expectRparen
      refine ⟨q, ?_, hat⟩
      rw [hnone, bind_ok]
      dsimp only
      rw [hq, bind_ok]
      rfl
    | some max =>
      change q₁.At F (.int max :: .rparen :: rest) ns at hat₁
      obtain ⟨q₂, h₂, hat₂⟩ := tryInt_int hat₁
      obtain ⟨q, hq, hat⟩ := hat₂.expectRparen
      refine ⟨q, ?_, hat⟩
      rw [h₂, bind_ok]
      dsimp only
      rw [hq, bind_ok]
      rfl

theorem limits_error (h : p.lookahead = some .lparen) :
    p.parseMemoryLimits F m = .error (.err .expectedRparen) := by
  have hnone : p.tryInt F = .ok (none, p) := tryInt_none (by simp [h])
  rw [Parser.parseMemoryLimits, hnone, bind_ok]
  dsimp only
  rw [hnone, bind_ok]
  dsimp only
  rw [Parser.expectRparen_error (by rw [h]; decide), bind_error]

theorem limits_noName (limits : Option Limits) :
    NoName ((limits.map Limits.tokens).getD [] ++ .rparen :: rest) := by
  intro id h
  cases limits with
  | none => cases h
  | some l => cases h

theorem memoryField_read (name : Option Name) (inline : List Inline) (limits : Option Limits)
    (hp : p.At F (.keyword (utf8 "memory") :: ((Field.memory name inline limits : Field F).inside ++
      .rparen :: rest)) ns) :
    Reads F m (Field.memory name inline limits : Field F).Kept (p.parseMemory F m)
      ((Field.memory name inline limits : Field F).denote Names.resolver m ns) rest := by
  have htokens : (Field.memory name inline limits : Field F).inside ++ .rparen :: rest =
      labelTokens name ++
      (inline.flatMap Inline.tokens ++ ((limits.map Limits.tokens).getD [] ++ .rparen :: rest)) := by
    simp [Field.inside]
  rw [htokens] at hp
  obtain ⟨q₁, h₁, hat₁, -⟩ := hp.bump
  obtain ⟨q₂, h₂, hat₂⟩ := tryIdentifier_label name hat₁ (noName_lists (fun _ => rfl) (limits_noName limits))
  rw [Parser.parseMemory, h₁, bind_ok, h₂, bind_ok]
  dsimp only
  cases inline with
  | nil =>
    obtain ⟨q, hq, hat⟩ := limits_read (m := m) limits hat₂
    have hla : ¬ q₂.lookahead = some .lparen := by
      rw [hat₂.lookahead]
      cases limits with
      | none => simp
      | some l => simp [Limits.tokens]
    rw [if_neg hla]
    refine Reads.of_gives ⟨q, hq, hat⟩ ?_
    simp [Field.Kept]
  | cons i inline =>
    have hlist : (i :: inline).flatMap Inline.tokens ++ ((limits.map Limits.tokens).getD [] ++ .rparen :: rest) =
        .lparen :: .keyword i.kw :: (i.inside.tokens ++ .rparen ::
          (inline.flatMap Inline.tokens ++ ((limits.map Limits.tokens).getD [] ++ .rparen :: rest))) := by
      simp [Inline.tokens, parens, closed]
    rw [hlist] at hat₂
    have hla : q₂.lookahead = some .lparen := hat₂.lookahead
    obtain ⟨q₃, h₃, hat₃, -⟩ := hat₂.bump
    have hla₃ : q₃.lookahead = some (.keyword i.kw) := hat₃.lookahead
    obtain ⟨hskip, hpanics⟩ := skip_keyword i.inside hat₃
    rw [if_pos hla, h₃, bind_ok]
    by_cases hshallow : i.inside.Shallow
    · obtain ⟨q₄, h₄, hat₄⟩ := hskip hshallow
      rw [h₄, bind_ok, bind_ok]
      cases inline with
      | nil =>
        by_cases himport : i.kw = utf8 "import"
        · rw [if_pos (by rw [hla₃, himport])]
          cases limits with
          | none =>
            change q₄.At F (.rparen :: rest) ns at hat₄
            obtain ⟨q, hq, hat⟩ := hat₄.expectRparen
            have hdenote : (Field.memory name [i] none : Field F).denote Names.resolver m ns = some (m, ns) := by
              simp [Field.denote, himport]
            rw [hq, bind_ok, hdenote]
            refine Reads.of_gives ⟨q, rfl, hat⟩ ?_
            simp [Field.Kept, hshallow]
          | some l =>
            have hla₄ : q₄.lookahead = some (.int l.min) := hat₄.lookahead
            rw [Parser.expectRparen_error (by rw [hla₄]; simp), bind_error]
            refine Reads.of_strays Strays.error ?_
            simp [Field.Kept, himport]
        · rw [if_neg (by rw [hla₃]; simpa using himport)]
          obtain ⟨q, hq, hat⟩ := limits_read (m := m) limits hat₄
          have hdenote : (Field.memory name [i] limits : Field F).denote Names.resolver m ns =
              some ({ m with memories := m.memories ++
              [⟨asU32 ((limits.map Limits.min).getD 0), (limits.bind Limits.max).map asU32⟩] }, ns) := by
            simp [Field.denote, himport]
          rw [hq, hdenote]
          refine Reads.of_gives ⟨q, rfl, hat⟩ ?_
          simp [Field.Kept, hshallow, himport]
      | cons j inline =>
        have hla₄ : q₄.lookahead = some .lparen := hat₄.lookahead
        refine Reads.of_strays ?_ (by simp [Field.Kept])
        rw [limits_error hla₄, Parser.expectRparen_error (by rw [hla₄]; decide), bind_error]
        split
        · exact Strays.error
        · exact Strays.error
    · obtain ⟨e, he⟩ := hpanics hshallow
      rw [he, bind_error, bind_error]
      refine Reads.of_strays ?_ ?_
      · split
        · exact Strays.error
        · exact Strays.error
      · simp [Field.Kept, hshallow]

/-! ## Exports -/

theorem exportKinds_lookup (kind : ExportKind) : Parser.exportKinds.lookup kind.kw = some kind.byte := by
  cases kind with
  | func => rfl
  | memory => rfl
  | table => rfl
  | global => rfl

theorem parseFuncIdx_at (r : Ref) (hp : p.At F (r.token :: ts) ns) :
    ∃ q idx, r.func ns.resolver = some idx ∧ p.parseFuncIdx F = .ok (idx, q) ∧ q.At F ts ns := by
  obtain ⟨q, hq, hat, -⟩ := hp.bump
  unfold Parser.parseFuncIdx
  cases r with
  | index n =>
    have hla : p.lookahead = some (.int n) := hp.lookahead
    refine ⟨q, asU32 n, rfl, ?_, hat⟩
    rw [hla]
    dsimp only
    rw [hq, bind_ok]
  | name id =>
    have hla : p.lookahead = some (.identifier id) := hp.lookahead
    refine ⟨q, _, rfl, ?_, hat⟩
    rw [hla]
    dsimp only
    rw [hq, bind_ok, ← hat.names]
    rfl

theorem export_read (name : List UInt8) (kind : ExportKind) (ref : Ref)
    (hp : p.At F (.keyword (utf8 "export") :: ((Field.export name kind ref : Field F).inside ++ .rparen ::
      rest)) ns) :
    Gives F (p.parseExport F m) ((Field.export name kind ref : Field F).denote Names.resolver m ns) rest := by
  have htokens : (Field.export name kind ref : Field F).inside ++ .rparen :: rest =
      .stringLiteral name :: .lparen :: .keyword kind.kw :: ref.token :: .rparen :: .rparen :: rest := by
    simp [Field.inside, parens, closed]
  rw [htokens] at hp
  obtain ⟨q₁, h₁, hat₁, -⟩ := hp.bump
  obtain ⟨q₂, h₂, hat₂⟩ := hat₁.expectString
  obtain ⟨q₃, h₃, hat₃⟩ := hat₂.expectLparen
  have hla : q₃.lookahead = some (.keyword kind.kw) := hat₃.lookahead
  have hkind : q₃.exportKind = some kind.byte := by
    rw [Parser.exportKind, hla]
    exact exportKinds_lookup kind
  obtain ⟨q₄, h₄, hat₄, -⟩ := hat₃.bump
  obtain ⟨q₅, idx, hidx, h₅, hat₅⟩ := parseFuncIdx_at ref hat₄
  obtain ⟨q₆, h₆, hat₆⟩ := hat₅.expectRparen
  obtain ⟨q₇, h₇, hat₇⟩ := hat₆.expectRparen
  have hdenote : (Field.export name kind ref : Field F).denote Names.resolver m ns =
      some ({ m with exports := m.exports ++ [⟨unescapeWatString name, kind.byte, idx⟩] }, ns) := by
    cases kind <;> simp only [Field.denote, hidx] <;> rfl
  rw [hdenote]
  refine ⟨q₇, ?_, hat₇⟩
  rw [Parser.parseExport, h₁, bind_ok, h₂, bind_ok]
  dsimp only
  rw [h₃, bind_ok, hkind]
  dsimp only
  rw [h₄, bind_ok, h₅, bind_ok]
  dsimp only
  rw [h₆, bind_ok, h₇, bind_ok]

/-! ## Data -/

namespace Parser

/-- The offset of a data segment, with the closing parenthesis of what holds it. -/
def dataOffset (F : FloatOps) (p : Parser) : Parse (BitVec 32 × Parser) :=
  if p.lookahead = some .lparen then do
    let p ← p.bump F
    let p ← if p.lookahead = some (.keyword (utf8 "offset")) then do
        let p ← p.bump F
        p.bump F
      else .ok p
    let p ← p.expectKeyword F (utf8 "i32.const")
    let (n, p) ← p.parseInt F
    let p ← p.expectRparen F
    .ok (n, p)
  else .ok (0, p)

def dataStrings (F : FloatOps) (p : Parser) (m : Module) (offset : BitVec 32) : Parse (Module × Parser) := do
  let (bytes, p) ← strings.loop F p.fuel p
  let p ← p.expectRparen F
  .ok ({ m with data := m.data ++ [⟨offset, bytes⟩] }, p)

end Parser

theorem strings_read (strings : List (List UInt8)) {fuel : Nat}
    (hp : p.At F (strings.map Token.stringLiteral ++ .rparen :: rest) ns)
    (hfuel : strings.length < fuel) :
    ∃ q, Parser.strings.loop F fuel p = .ok (strings.flatMap unescapeWatString, q) ∧
    q.At F (.rparen :: rest) ns := by
  induction strings generalizing fuel p with
  | nil =>
    obtain ⟨k, rfl⟩ : ∃ k, fuel = k + 1 := ⟨fuel - 1, by omega⟩
    have hla : p.lookahead = some .rparen := hp.lookahead
    refine ⟨p, ?_, hp⟩
    rw [Parser.strings.loop, hla]
    rfl
  | cons s strings ih =>
    obtain ⟨k, rfl⟩ : ∃ k, fuel = k + 1 := ⟨fuel - 1, by omega⟩
    change p.At F (.stringLiteral s :: (strings.map Token.stringLiteral ++ .rparen :: rest)) ns at hp
    have hla : p.lookahead = some (.stringLiteral s) := hp.lookahead
    obtain ⟨q, hq, hat⟩ := hp.expectString
    obtain ⟨r, hr, hat'⟩ := ih hat (Nat.lt_of_succ_lt_succ hfuel)
    refine ⟨r, ?_, hat'⟩
    rw [Parser.strings.loop, hla]
    dsimp only
    rw [hq, bind_ok]
    dsimp only
    rw [hr, bind_ok]
    rfl

theorem dataStrings_read (strings : List (List UInt8)) (offset : BitVec 32)
    (hp : p.At F (strings.map Token.stringLiteral ++ .rparen :: rest) ns) :
    ∃ q, p.dataStrings F m offset =
    .ok ({ m with data := m.data ++ [⟨offset, strings.flatMap unescapeWatString⟩] }, q) ∧ q.At F rest ns := by
  have hfuel := hp.fuel
  rw [List.length_append, List.length_map] at hfuel
  obtain ⟨q, hq, hat⟩ := strings_read strings hp (show strings.length < p.fuel by omega)
  obtain ⟨r, hr, hat'⟩ := hat.expectRparen
  refine ⟨r, ?_, hat'⟩
  rw [Parser.dataStrings, hq, bind_ok]
  dsimp only
  rw [hr, bind_ok]

theorem parseInt_at {n : BitVec 32} (hp : p.At F (.int n :: ts) ns) :
    ∃ q, p.parseInt F = .ok (n, q) ∧ q.At F ts ns := by
  have hla : p.lookahead = some (.int n) := hp.lookahead
  obtain ⟨q, hq, hat, -⟩ := hp.bump
  refine ⟨q, ?_, hat⟩
  rw [Parser.parseInt, hla]
  dsimp only
  rw [hq, bind_ok]

theorem dataConst_read {n : BitVec 32} (hp : p.At F (.keyword (utf8 "i32.const") :: .int n :: .rparen :: ts) ns) :
    ∃ q, (p.expectKeyword F (utf8 "i32.const") >>= fun p => p.parseInt F >>= fun r =>
      r.2.expectRparen F >>= fun p =>
      (.ok (r.1, p) : Parse (BitVec 32 × Parser))) = .ok (n, q) ∧ q.At F ts ns := by
  obtain ⟨q₁, h₁, hat₁⟩ := hp.expectKeyword
  obtain ⟨q₂, h₂, hat₂⟩ := parseInt_at hat₁
  obtain ⟨q₃, h₃, hat₃⟩ := hat₂.expectRparen
  refine ⟨q₃, ?_, hat₃⟩
  rw [h₁, bind_ok, h₂, bind_ok]
  dsimp only
  rw [h₃, bind_ok]

theorem dataOffset_folded {n : BitVec 32}
    (hp : p.At F (.lparen :: .keyword (utf8 "i32.const") :: .int n :: .rparen :: ts) ns) :
    ∃ q, p.dataOffset F = .ok (n, q) ∧ q.At F ts ns := by
  have hla : p.lookahead = some .lparen := hp.lookahead
  obtain ⟨q₁, h₁, hat₁, -⟩ := hp.bump
  have hla₁ : q₁.lookahead = some (.keyword (utf8 "i32.const")) := hat₁.lookahead
  obtain ⟨q, hq, hat⟩ := dataConst_read hat₁
  refine ⟨q, ?_, hat⟩
  rw [Parser.dataOffset, if_pos hla, h₁, bind_ok, if_neg (by rw [hla₁]; decide), bind_ok]
  exact hq

theorem dataOffset_folded_error {kw : List UInt8} (hp : p.At F (.lparen :: .keyword kw :: ts) ns)
    (hoffset : kw ≠ utf8 "offset") (hconst : kw ≠ utf8 "i32.const") : ∃ e, p.dataOffset F = .error e := by
  have hla : p.lookahead = some .lparen := hp.lookahead
  obtain ⟨q₁, h₁, hat₁, -⟩ := hp.bump
  have hla₁ : q₁.lookahead = some (.keyword kw) := hat₁.lookahead
  refine ⟨.err (.expectedKeyword (utf8 "i32.const")), ?_⟩
  rw [Parser.dataOffset, if_pos hla, h₁, bind_ok, if_neg (by rw [hla₁]; simpa using hoffset), bind_ok]
  dsimp only
  rw [Parser.expectKeyword_error (by rw [hla₁]; simpa using hconst), bind_error]

/-- Behind `offset` one token is dropped, whatever it is. -/
theorem dataOffset_wrapped {tok : Token} (hp : p.At F (.lparen :: .keyword (utf8 "offset") :: tok :: ts) ns) :
    ∃ q : Parser, q.At F ts ns ∧ p.dataOffset F = (q.expectKeyword F (utf8 "i32.const") >>= fun p =>
      p.parseInt F >>= fun r => r.2.expectRparen F >>= fun p =>
      .ok (r.1, p)) := by
  have hla : p.lookahead = some .lparen := hp.lookahead
  obtain ⟨q₁, h₁, hat₁, -⟩ := hp.bump
  have hla₁ : q₁.lookahead = some (.keyword (utf8 "offset")) := hat₁.lookahead
  obtain ⟨q₂, h₂, hat₂, -⟩ := hat₁.bump
  obtain ⟨q₃, h₃, hat₃, -⟩ := hat₂.bump
  refine ⟨q₃, hat₃, ?_⟩
  rw [Parser.dataOffset, if_pos hla, h₁, bind_ok, if_pos hla₁, h₂, bind_ok, h₃, bind_ok]

/-- The memory of a data segment is read if it is a number or left out. -/
theorem data_start (mem : Option DataMemory) (hmem : mem.all DataMemory.isIndex = true)
    (hno : ∀ n, ts.head? ≠ some (.int n))
    (hp : p.At F (.keyword (utf8 "data") :: ((mem.map DataMemory.tokens).getD [] ++ ts)) ns) :
    ∃ q : Parser, q.At F ts ns ∧ p.parseData F m = (q.dataOffset F >>= fun r => r.2.dataStrings F m r.1) := by
  obtain ⟨q₁, h₁, hat₁, -⟩ := hp.bump
  have hmemory : ∃ x q, q₁.tryInt F = .ok (x, q) ∧ q.At F ts ns := by
    cases mem with
    | none =>
      refine ⟨none, q₁, tryInt_none fun n => ?_, hat₁⟩
      rw [hat₁.lookahead]
      exact hno n
    | some mem =>
      cases mem with
      | index n =>
        change q₁.At F (.int n :: ts) ns at hat₁
        obtain ⟨q, hq, hat⟩ := tryInt_int hat₁
        exact ⟨_, q, hq, hat⟩
      | list ref => cases hmem
  obtain ⟨x, q₂, h₂, hat₂⟩ := hmemory
  refine ⟨q₂, hat₂, ?_⟩
  rw [Parser.parseData, h₁, bind_ok, h₂, bind_ok, Parser.dataOffset]
  dsimp only
  by_cases hl : q₂.lookahead = some .lparen
  · rw [if_pos hl, if_pos hl, bind_assoc]
    refine bind_congr fun q => ?_
    by_cases hoffset : q.lookahead = some (.keyword (utf8 "offset"))
    · rw [if_pos hoffset, if_pos hoffset]
      simp only [bind_assoc]
      rfl
    · rw [if_neg hoffset, if_neg hoffset]
      simp only [bind_assoc]
      rfl
  · rw [if_neg hl, if_neg hl]
    rfl

theorem strings_not_int (strings : List (List UInt8)) (n : BitVec 32) :
    (strings.map Token.stringLiteral ++ .rparen :: rest).head? ≠ some (.int n) := by
  cases strings with
  | nil => simp
  | cons s strings => simp

theorem strings_not_lparen (strings : List (List UInt8)) :
    (strings.map Token.stringLiteral ++ .rparen :: rest).head? ≠ some .lparen := by
  cases strings with
  | nil => simp
  | cons s strings => simp

/-- The tokens of a data segment behind its name and its memory. -/
def dataTail (offset : Option DataOffset) (strings : List (List UInt8)) (rest : List Token) : List Token :=
  (offset.map DataOffset.tokens).getD [] ++ (strings.map Token.stringLiteral ++ .rparen :: rest)

theorem dataTail_not_int (offset : Option DataOffset) (strings : List (List UInt8)) (n : BitVec 32) :
    (dataTail offset strings rest).head? ≠ some (.int n) := by
  cases offset with
  | none => exact strings_not_int strings n
  | some offset =>
    cases offset with
    | folded e => simp [dataTail, DataOffset.tokens, parens]
    | wrapped e => simp [dataTail, DataOffset.tokens, parens]
    | wrappedFlat e => simp [dataTail, DataOffset.tokens, parens]

/-- An offset that is not a number right behind the parenthesis: with `offset` around it the parenthesis of
the number closes the segment. -/
theorem dataOffset_strays {offset : Option DataOffset} {strings : List (List UInt8)}
    (hno : ¬ offset.all DataOffset.isPlain = true) (hp : p.At F (dataTail offset strings rest) ns) :
    Strays F m (p.dataOffset F >>= fun r => r.2.dataStrings F m r.1) rest := by
  cases offset with
  | none => exact absurd rfl hno
  | some offset =>
    cases offset with
    | folded e =>
      cases e with
      | const n => exact absurd rfl hno
      | global ref =>
        have htokens : dataTail (some (.folded (.global ref))) strings rest =
            .lparen :: .keyword (utf8 "global.get") :: ref.token :: .rparen ::
            (strings.map Token.stringLiteral ++ .rparen :: rest) := rfl
        rw [htokens] at hp
        obtain ⟨e, he⟩ := dataOffset_folded_error hp (by decide) (by decide)
        rw [he, bind_error]
        exact Strays.error
    | wrapped e =>
      have htokens : dataTail (some (.wrapped e)) strings rest = .lparen :: .keyword (utf8 "offset") ::
          .lparen :: .keyword e.kw :: e.token ::
          .rparen :: .rparen :: (strings.map Token.stringLiteral ++ .rparen :: rest) := by
        simp [dataTail, DataOffset.tokens, parens, closed]
      rw [htokens] at hp
      obtain ⟨q, hat, hparse⟩ := dataOffset_wrapped hp
      rw [hparse]
      cases e with
      | const n =>
        obtain ⟨q₁, h₁, hat₁⟩ := dataConst_read hat
        obtain ⟨q₂, h₂, hat₂⟩ := dataStrings_read (m := m) [] n hat₁
        rw [h₁, bind_ok]
        dsimp only
        rw [h₂]
        refine Strays.ok hat₂ (fun heq => ?_) (strings_not_lparen strings) rfl
        have hlength := congrArg List.length heq
        simp only [List.length_append, List.length_map, List.length_cons] at hlength
        omega
      | global ref =>
        have hla : q.lookahead = some (.keyword (utf8 "global.get")) := hat.lookahead
        rw [Parser.expectKeyword_error (by rw [hla]; decide), bind_error, bind_error]
        exact Strays.error
    | wrappedFlat e =>
      have htokens : dataTail (some (.wrappedFlat e)) strings rest = .lparen :: .keyword (utf8 "offset") ::
          .keyword e.kw :: e.token ::
          .rparen :: (strings.map Token.stringLiteral ++ .rparen :: rest) := by
        simp [dataTail, DataOffset.tokens, parens, closed]
      rw [htokens] at hp
      obtain ⟨q, hat, hparse⟩ := dataOffset_wrapped hp
      have hla : q.lookahead = some e.token := hat.lookahead
      have hno : q.lookahead ≠ some (.keyword (utf8 "i32.const")) := by
        rw [hla]
        cases e with
        | const n => simp [OffsetExpr.token]
        | global ref =>
          cases ref with
          | index n => simp [OffsetExpr.token, Ref.token]
          | name id => simp [OffsetExpr.token, Ref.token]
      rw [hparse, Parser.expectKeyword_error hno, bind_error, bind_error]
      exact Strays.error

theorem data_strays (name : Option Name) (mem : Option DataMemory) (offset : Option DataOffset)
    (strings : List (List UInt8)) (hp : p.At F (.keyword (utf8 "data") ::
      (labelTokens name ++ ((mem.map DataMemory.tokens).getD [] ++ dataTail offset strings rest))) ns)
    (hno : ¬ (Field.data name mem offset strings : Field F).Kept) : Strays F m (p.parseData F m) rest := by
  cases name with
  | some id =>
    obtain ⟨q, hat, hparse⟩ := data_start (m := m) none rfl (by simp) hp
    have hla : q.lookahead = some (.identifier id) := hat.lookahead
    have hfuel := hat.fuel
    obtain ⟨k, hk⟩ : ∃ k, q.fuel = k + 1 := ⟨q.fuel - 1, by omega⟩
    rw [hparse, Parser.dataOffset, if_neg (by rw [hla]; simp), bind_ok, Parser.dataStrings]
    dsimp only
    rw [hk, Parser.strings.loop, hla]
    dsimp only
    rw [bind_ok, Parser.expectRparen_error (by rw [hla]; simp), bind_error]
    exact Strays.error
  | none =>
    by_cases hlist : ∃ ref, mem = some (.list ref)
    · obtain ⟨ref, rfl⟩ := hlist
      have htokens : labelTokens none ++ (((some (DataMemory.list ref)).map DataMemory.tokens).getD [] ++
          dataTail offset strings rest) =
          .lparen :: .keyword (utf8 "memory") :: ref.token :: .rparen :: dataTail offset strings rest := rfl
      rw [htokens] at hp
      obtain ⟨q, hat, hparse⟩ := data_start (m := m) none rfl (by simp) hp
      obtain ⟨e, he⟩ := dataOffset_folded_error hat (by decide) (by decide)
      rw [hparse, he, bind_error]
      exact Strays.error
    · have hmem : mem.all DataMemory.isIndex = true := by
        cases mem with
        | none => rfl
        | some mem =>
          cases mem with
          | index n => rfl
          | list ref => exact absurd ⟨ref, rfl⟩ hlist
      obtain ⟨q, hat, hparse⟩ := data_start (m := m) mem hmem (dataTail_not_int offset strings) hp
      rw [hparse]
      refine dataOffset_strays (fun hoffset => hno ?_) hat
      exact ⟨rfl, hmem, hoffset⟩

theorem dataField_read (name : Option Name) (mem : Option DataMemory) (offset : Option DataOffset)
    (strings : List (List UInt8))
    (hp : p.At F (.keyword (utf8 "data") :: ((Field.data name mem offset strings : Field F).inside ++
      .rparen :: rest)) ns) :
    Reads F m (Field.data name mem offset strings : Field F).Kept (p.parseData F m)
      ((Field.data name mem offset strings : Field F).denote Names.resolver m ns) rest := by
  have htokens : (Field.data name mem offset strings : Field F).inside ++ .rparen :: rest =
      labelTokens name ++ ((mem.map DataMemory.tokens).getD [] ++ dataTail offset strings rest) := by
    simp [Field.inside, dataTail]
  rw [htokens] at hp
  refine ⟨fun hkept => ?_, data_strays name mem offset strings hp⟩
  obtain ⟨rfl, hmem, hoffset⟩ := hkept
  cases offset with
  | none =>
    obtain ⟨q, hat, hparse⟩ := data_start (m := m) mem hmem (strings_not_int strings) hp
    have hla : ¬ q.lookahead = some .lparen := by
      rw [hat.lookahead]
      exact strings_not_lparen strings
    obtain ⟨r, hr, hat'⟩ := dataStrings_read (m := m) strings 0 hat
    refine ⟨r, ?_, hat'⟩
    rw [hparse, Parser.dataOffset, if_neg hla, bind_ok]
    exact hr
  | some e =>
    obtain ⟨n, rfl⟩ := DataOffset.of_isPlain hoffset
    obtain ⟨q, hat, hparse⟩ := data_start (m := m) mem hmem (dataTail_not_int _ strings) hp
    obtain ⟨q₁, h₁, hat₁⟩ := dataOffset_folded hat
    obtain ⟨r, hr, hat'⟩ := dataStrings_read (m := m) strings n hat₁
    refine ⟨r, ?_, hat'⟩
    rw [hparse, h₁, bind_ok]
    exact hr

/-! ## Fields -/

theorem skipped_read {kw : List UInt8} (kind : kw ∉ fieldKeywords) (inside : Sexps)
    (hp : p.At F (.keyword kw :: (inside.tokens ++ .rparen :: rest)) ns) :
    Reads F m inside.Shallow (p.parseField F m) (some (m, ns)) rest := by
  have hla : p.lookahead = some (.keyword kw) := hp.lookahead
  have hne : ∀ kw' ∈ fieldKeywords, ¬ p.lookahead = some (.keyword kw') := by
    intro kw' hin heq
    rw [hla] at heq
    cases heq
    exact kind hin
  obtain ⟨q, hq, hat, -⟩ := hp.bump
  rw [Parser.parseField, if_neg (hne _ (by decide)), if_neg (hne _ (by decide)), if_neg (hne _ (by decide)),
    if_neg (hne _ (by decide)),
    if_neg (hne _ (by decide)), if_neg (hne _ (by decide)), hq, bind_ok]
  have hreads : ∀ q, (inside.Shallow → ∃ r, Parser.skipRestOfList F q = .ok r ∧ r.At F rest ns) ∧
      (¬ inside.Shallow → ∃ e, Parser.skipRestOfList F q = .error e) →
      Reads F m inside.Shallow (q.skipRestOfList F >>= fun p => .ok (m, p)) (some (m, ns)) rest := by
    intro q hskip
    constructor
    · intro hshallow
      obtain ⟨r, hr, hat'⟩ := hskip.1 hshallow
      exact ⟨r, by rw [hr, bind_ok], hat'⟩
    · intro hno
      obtain ⟨e, he⟩ := hskip.2 hno
      rw [he, bind_error]
      exact Strays.error
  split
  · exact hreads q (skip_rest inside hat)
  · exact hreads p (skip_keyword inside hp)

theorem parseField_reads (f : Field F) (hp : p.At F (.keyword f.kw :: (f.inside ++ .rparen :: rest)) ns) :
    Reads F m f.Kept (p.parseField F m) (f.denote Names.resolver m ns) rest := by
  have hla : p.lookahead = some (.keyword f.kw) := hp.lookahead
  cases f with
  | type name groups =>
    change p.lookahead = some (.keyword (utf8 "type")) at hla
    rw [Parser.parseField, if_pos hla]
    exact Reads.of_gives (type_read name groups hp) trivial
  | «import» mod name desc =>
    change p.lookahead = some (.keyword (utf8 "import")) at hla
    rw [Parser.parseField, if_neg (by rw [hla]; decide), if_pos hla]
    cases desc with
    | func id ref groups => exact Reads.of_gives (importFunc_read mod name id ref groups hp) trivial
    | other kw kind inside => exact Reads.of_strays (importOther_strays mod name kind inside hp) id
  | func f =>
    change p.lookahead = some (.keyword (utf8 "func")) at hla
    rw [Parser.parseField, if_neg (by rw [hla]; decide), if_neg (by rw [hla]; decide), if_pos hla]
    obtain ⟨hgives, hpanics⟩ := func_read f m hp
    refine ⟨hgives, fun hno => ?_⟩
    obtain ⟨e, he⟩ := hpanics hno
    rw [he]
    exact Strays.error
  | funcImport name exports mod field ref groups =>
    change p.lookahead = some (.keyword (utf8 "func")) at hla
    rw [Parser.parseField, if_neg (by rw [hla]; decide), if_neg (by rw [hla]; decide), if_pos hla]
    exact funcImport_read name exports mod field ref groups hp
  | memory name inline limits =>
    change p.lookahead = some (.keyword (utf8 "memory")) at hla
    rw [Parser.parseField, if_neg (by rw [hla]; decide), if_neg (by rw [hla]; decide),
      if_neg (by rw [hla]; decide), if_pos hla]
    exact memoryField_read name inline limits hp
  | «export» name kind ref =>
    change p.lookahead = some (.keyword (utf8 "export")) at hla
    rw [Parser.parseField, if_neg (by rw [hla]; decide), if_neg (by rw [hla]; decide),
      if_neg (by rw [hla]; decide), if_neg (by rw [hla]; decide),
      if_pos hla]
    exact Reads.of_gives (export_read name kind ref hp) trivial
  | data name mem offset strings =>
    change p.lookahead = some (.keyword (utf8 "data")) at hla
    rw [Parser.parseField, if_neg (by rw [hla]; decide), if_neg (by rw [hla]; decide),
      if_neg (by rw [hla]; decide), if_neg (by rw [hla]; decide),
      if_neg (by rw [hla]; decide), if_pos hla]
    exact dataField_read name mem offset strings hp
  | skipped kw kind inside => exact skipped_read kind inside hp

/-! ## The module -/

/-- The fields are read one after the other, each parser ending behind the parenthesis of its field. -/
inductive ReadsFields (F : FloatOps) (rest : List Token) :
    List (Field F) → Parser → Module → Parser → Module → Prop where
  | nil (p : Parser) (m : Module) : ReadsFields F rest [] p m p m
  | cons {f : Field F} {fields : List (Field F)} {p q p' p'' : Parser} {m m' m'' : Module} {ns : Names}
    (hopen : p.expectLparen F = .ok q)
      (hfield : q.parseField F m = .ok (m', p'))
        (hbehind : p'.At F (fields.flatMap Field.tokens ++ .rparen :: rest) ns)
      (hfields : ReadsFields F rest fields p' m' p'' m'') : ReadsFields F rest (f :: fields) p m p'' m''

theorem fieldTokens_eq (f : Field F) (ts : List Token) :
    f.tokens ++ ts = .lparen :: .keyword f.kw :: (f.inside ++ .rparen :: ts) := by
  simp [Field.tokens, parens, closed]

theorem fields_read_iff (fields : List (Field F))
    (hp : p.At F (fields.flatMap Field.tokens ++ .rparen :: rest) ns) :
    (∃ q m' ns', ReadsFields F rest fields p m q m' ∧ q.At F (.rparen :: rest) ns' ∧
      denoteFields Names.resolver m ns fields = some (m', ns')) ↔
      (∀ f ∈ fields, f.Kept) ∧ (denoteFields Names.resolver m ns fields).isSome := by
  induction fields generalizing p m ns with
  | nil =>
    constructor
    · intro _
      exact ⟨by simp, rfl⟩
    · intro _
      exact ⟨p, m, ns, .nil p m, hp, rfl⟩
  | cons f fields ih =>
    rw [List.flatMap_cons, List.append_assoc, fieldTokens_eq] at hp
    obtain ⟨q, hq, hat⟩ := hp.expectLparen
    obtain ⟨hgives, hstrays⟩ := parseField_reads (m := m) f hat
    constructor
    · rintro ⟨p'', m'', ns'', hreads, hend, hdenote⟩
      cases hreads with
      | cons hopen hfield hbehind hfields =>
        cases hq.symm.trans hopen
        have hkept : f.Kept := by
          refine Classical.byContradiction fun hno => ?_
          exact (hstrays hno).not_at hfield hbehind
        have hfieldGives := hgives hkept
        cases hone : f.denote Names.resolver m ns with
        | none =>
          rw [hone] at hfieldGives
          obtain ⟨e, he⟩ := hfieldGives
          cases hfield.symm.trans he
        | some one =>
          rw [hone] at hfieldGives
          obtain ⟨r, hr, hat'⟩ := hfieldGives
          cases hfield.symm.trans hr
          have hmore : denoteFields Names.resolver m ns (f :: fields) =
              denoteFields Names.resolver one.1 one.2 fields := by
            rw [denoteFields, hone]
            rfl
          rw [hmore] at hdenote ⊢
          obtain ⟨hall, hsome⟩ := (ih hat').mp ⟨p'', m'', ns'', hfields, hend, hdenote⟩
          exact ⟨List.forall_mem_cons.mpr ⟨hkept, hall⟩, hsome⟩
    · rintro ⟨hall, hsome⟩
      obtain ⟨hkept, hall⟩ := List.forall_mem_cons.mp hall
      have hfieldGives := hgives hkept
      cases hone : f.denote Names.resolver m ns with
      | none =>
        rw [denoteFields, hone] at hsome
        cases hsome
      | some one =>
        rw [hone] at hfieldGives
        obtain ⟨r, hr, hat'⟩ := hfieldGives
        have hmore : denoteFields Names.resolver m ns (f :: fields) =
            denoteFields Names.resolver one.1 one.2 fields := by
          rw [denoteFields, hone]
          rfl
        rw [hmore] at hsome ⊢
        obtain ⟨p'', m'', ns'', hfields, hend, hdenote⟩ := (ih hat').mpr ⟨hall, hsome⟩
        exact ⟨p'', m'', ns'', .cons hq hr hat' hfields, hend, hdenote⟩

/-- The parenthesis and the keyword of the module, its fields, and the parenthesis behind them. -/
structure ReadsModule (F : FloatOps) (rest : List Token) (name : Option Name) (fields : List (Field F))
    (p : Parser) (m : Module) (q : Parser) :
    Prop where
  run : ∃ p₁ p₂ p₃ q₁, p.expectLparen F = .ok p₁ ∧ p₁.expectKeyword F (utf8 "module") = .ok p₂ ∧
    p₂.tryIdentifier F = .ok (name, p₃) ∧
    ReadsFields F rest fields p₃ {} q₁ m ∧ q₁.expectRparen F = .ok q
  parsed : p.parseModule F = .ok (m, q)

theorem ReadsFields.loop {fields : List (Field F)} {q : Parser} {m' : Module}
    (h : ReadsFields F rest fields p m q m')
    (hend : q.lookahead ≠ some .lparen) {fuel : Nat} (hfuel : fields.length < fuel) :
    Parser.parseModule.loop F fuel p m = .ok (m', q) := by
  induction h generalizing fuel with
  | nil p m =>
    obtain ⟨k, rfl⟩ : ∃ k, fuel = k + 1 := ⟨fuel - 1, by omega⟩
    rw [Parser.parseModule.loop, if_neg hend]
  | cons hopen hfield hbehind hfields ih =>
    rw [List.length_cons] at hfuel
    obtain ⟨k, rfl⟩ : ∃ k, fuel = k + 1 := ⟨fuel - 1, by omega⟩
    rw [Parser.parseModule.loop, if_pos (Parser.expectLparen_ok hopen), hopen, bind_ok, hfield, bind_ok]
    exact ih hend (Nat.lt_of_succ_lt_succ hfuel)

theorem ReadsFields.at_end {fields : List (Field F)} {q : Parser} {m' : Module}
    (h : ReadsFields F rest fields p m q m')
    (hp : p.At F (fields.flatMap Field.tokens ++ .rparen :: rest) ns) : ∃ ns', q.At F (.rparen :: rest) ns' := by
  induction h generalizing ns with
  | nil p m => exact ⟨ns, hp⟩
  | cons hopen hfield hbehind hfields ih => exact ih hbehind

theorem fields_length_le (fields : List (Field F)) : fields.length ≤ (fields.flatMap Field.tokens).length := by
  induction fields with
  | nil => simp
  | cons f fields ih =>
    rw [List.flatMap_cons, List.length_append, List.length_cons]
    simp only [Field.tokens, parens, List.length_cons]
    omega

theorem module_start (name : Option Name) (fields : List (Field F))
    (hp : p.At F (moduleTokens name fields ++ rest) ns) :
    ∃ p₁ p₂ p₃, p.expectLparen F = .ok p₁ ∧ p₁.expectKeyword F (utf8 "module") = .ok p₂ ∧
    p₂.tryIdentifier F = .ok (name, p₃) ∧
      p₃.At F (fields.flatMap Field.tokens ++ .rparen :: rest) ns := by
  have htokens : moduleTokens name fields ++ rest =
      .lparen :: .keyword (utf8 "module") ::
      (labelTokens name ++ (fields.flatMap Field.tokens ++ .rparen :: rest)) := by
    simp [moduleTokens, parens, closed]
  rw [htokens] at hp
  obtain ⟨p₁, h₁, hat₁⟩ := hp.expectLparen
  obtain ⟨p₂, h₂, hat₂⟩ := hat₁.expectKeyword
  have hfields : NoName (fields.flatMap Field.tokens ++ .rparen :: rest) := by
    refine noName_lists (fun _ => rfl) fun id h => ?_
    cases h
  obtain ⟨p₃, h₃, hat₃⟩ := tryIdentifier_label name hat₂ hfields
  exact ⟨p₁, p₂, p₃, h₁, h₂, h₃, hat₃⟩

/-- Every field is read up to its own parenthesis and appears in the module exactly when the parser knows the
form of each field and the names in types and bodies have a meaning. -/
theorem fields_kept_iff (name : Option Name) (fields : List (Field F))
    (hp : p.At F (moduleTokens name fields ++ rest) ⟨[], [], []⟩) :
    (∃ m q ns, ReadsModule F rest name fields p m q ∧ q.At F rest ns ∧
      denoteFields Names.resolver {} ⟨[], [], []⟩ fields = some (m, ns)) ↔
      (∀ f ∈ fields, f.Kept) ∧ (denoteFields Names.resolver {} ⟨[], [], []⟩ fields).isSome := by
  obtain ⟨p₁, p₂, p₃, h₁, h₂, h₃, hat₃⟩ := module_start name fields hp
  rw [← fields_read_iff fields hat₃]
  constructor
  · rintro ⟨m, q, ns, hreads, hat, hdenote⟩
    obtain ⟨p₁', p₂', p₃', q₁, h₁', h₂', h₃', hfields, hclose⟩ := hreads.run
    cases h₁.symm.trans h₁'
    cases h₂.symm.trans h₂'
    cases h₃.symm.trans h₃'
    obtain ⟨ns₁, hat₁⟩ := hfields.at_end hat₃
    obtain ⟨q', hq', hat'⟩ := hat₁.expectRparen
    cases hclose.symm.trans hq'
    have hnames : ns₁ = ns := hat'.names.symm.trans hat.names
    rw [hnames] at hat₁
    exact ⟨q₁, m, ns, hfields, hat₁, hdenote⟩
  · rintro ⟨q₁, m, ns, hfields, hat₁, hdenote⟩
    obtain ⟨q, hq, hat⟩ := hat₁.expectRparen
    refine ⟨m, q, ns, ⟨⟨p₁, p₂, p₃, q₁, h₁, h₂, h₃, hfields, hq⟩, ?_⟩, hat, hdenote⟩
    have hend : q₁.lookahead ≠ some .lparen := by
      rw [hat₁.lookahead]
      simp
    have hroom : fields.length < p₃.fuel := by
      have hle := fields_length_le fields
      have hlt := hat₃.room
      rw [List.length_append] at hlt
      omega
    rw [Parser.parseModule, h₁, bind_ok, h₂, bind_ok, h₃, bind_ok]
    dsimp only
    rw [hfields.loop hend hroom, bind_ok]
    dsimp only
    rw [hq, bind_ok]

theorem fields_kept_import :
    ∃ p m q, Parser.new default
    (utf8 "(module (import \"m\" \"n\" (func)) (memory 1) (func (export \"e\")))") = .ok p ∧
    p.parseModule default = .ok (m, q) ∧ m.imports.length = 1 ∧ m.memories.length = 1 ∧ m.funcs.length = 1 ∧
    m.exports.length = 1 := by
  let fields : List (Field default) :=
    [.import (utf8 "m") (utf8 "n") (.func none none []), .memory none [] (some ⟨1, none⟩),
    .func ⟨none, [utf8 "e"], none, [], [], .nil, trivial⟩]
  have htokens : Tokenizer.Supplies default
      ⟨utf8 "(module (import \"m\" \"n\" (func)) (memory 1) (func (export \"e\")))", 0⟩
      (moduleTokens none fields ++ []) :=
    Tokenizer.supplies_of_tokens 40 (by rfl)
  obtain ⟨p, hp, hat⟩ := Parser.new_at htokens
  have hkept : ∀ f ∈ fields, f.Kept := by
    simp [fields, Field.Kept, Func.Indexed, Func.params, Func.localTys]
  obtain ⟨m, q, ns, hreads, -, hdenote⟩ := (fields_kept_iff none fields hat).mpr ⟨hkept, by rfl⟩
  have hsizes : (denoteFields Names.resolver {} ⟨[], [], []⟩ fields).map
      (fun r => (r.1.imports.length, r.1.memories.length, r.1.funcs.length, r.1.exports.length)) =
        some (1, 1, 1, 1) := by rfl
  rw [hdenote] at hsizes
  simp only [Option.map_some, Option.some.injEq, Prod.mk.injEq] at hsizes
  exact ⟨p, m, q, hp, hreads.parsed, hsizes⟩

def importMemory : List (Field default) :=
  [.import (utf8 "m") (utf8 "n") (.other (utf8 "memory") (by decide) (.atom (.int 1) (by simp) .nil)),
    .func ⟨none, [], none, [], [], .nil, trivial⟩]

theorem import_memory_ends_module :
    ∃ p, Parser.new default (utf8 "(module (import \"m\" \"n\" (memory 1)) (func))") = .ok p ∧
    p.At default (moduleTokens none importMemory ++ []) ⟨[], [], []⟩ ∧
    (∃ m q, p.parseModule default = .ok (m, q) ∧ m.funcs = []) ∧
    ¬ ∃ m q ns, ReadsModule default [] none importMemory p m q ∧ q.At default [] ns ∧
      denoteFields Names.resolver {} ⟨[], [], []⟩ importMemory = some (m, ns) := by
  have htokens : Tokenizer.Supplies default ⟨utf8 "(module (import \"m\" \"n\" (memory 1)) (func))", 0⟩
      (moduleTokens none importMemory ++ []) :=
    Tokenizer.supplies_of_tokens 40 (by rfl)
  obtain ⟨p, hp, hat⟩ := Parser.new_at htokens
  have hparsed : (Parser.new default (utf8 "(module (import \"m\" \"n\" (memory 1)) (func))") >>= fun p =>
      p.parseModule default).map
      (fun r => r.1.funcs) = .ok [] := by rfl
  rw [hp, bind_ok] at hparsed
  have hfuncs : ∃ m q, p.parseModule default = .ok (m, q) ∧ m.funcs = [] := by
    cases hr : p.parseModule default with
    | error e =>
      rw [hr] at hparsed
      cases hparsed
    | ok r =>
      rw [hr] at hparsed
      exact ⟨r.1, r.2, rfl, Except.ok.inj hparsed⟩
  refine ⟨p, hp, hat, hfuncs, ?_⟩
  rintro ⟨m, q, ns, hreads, -, hdenote⟩
  obtain ⟨m', q', hm', hempty⟩ := hfuncs
  cases hm'.symm.trans hreads.parsed
  have hone : (denoteFields Names.resolver {} ⟨[], [], []⟩ importMemory).map (fun r => r.1.funcs.length) =
      some 1 := by rfl
  rw [hdenote, Option.map_some, hempty] at hone
  cases hone

end WasmOs.Asm
