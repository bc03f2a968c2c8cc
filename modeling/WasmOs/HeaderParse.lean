import WasmOs.ModuleText
import WasmOs.ParserFuel

/-!
# Parsing the fields of a module: lists, types and headers

What the parser makes of the parts of a field up to the body of a function. Each part stands in front of
any other tokens; the parser takes its tokens and no more.
-/

namespace WasmOs.Asm

variable {F : FloatOps} {α β γ : Type} {ts us rest : List Token} {ns ns' : Names} {p : Parser}

/-! ## Ways to go on -/

/-- The parser is behind what these tokens follow and goes on from there, if the condition holds; otherwise it
stops with an error. -/
def Goes (F : FloatOps) (ok : Prop) (r : Parse β) (next : Nat → Parser → Parse β) (ts : List Token)
    (ns : Names) : Prop :=
  (ok → ∃ q fuel, q.At F ts ns ∧ ts.length < fuel ∧ r = next fuel q) ∧ (¬ ok → ∃ e, r = .error e)

theorem Goes.trans {ok ok' : Prop} {r : Parse β} {next next' : Nat → Parser → Parse β} (h : Goes F ok r next ts ns)
    (h' : ∀ q fuel, q.At F ts ns → ts.length < fuel → Goes F ok' (next fuel q) next' us ns') :
    Goes F (ok ∧ ok') r next' us ns' := by
  constructor
  · intro hok
    obtain ⟨q, fuel, hq, hfuel, heq⟩ := h.1 hok.1
    rw [heq]
    exact (h' q fuel hq hfuel).1 hok.2
  · intro hok
    by_cases hfirst : ok
    · obtain ⟨q, fuel, hq, hfuel, heq⟩ := h.1 hfirst
      rw [heq]
      exact (h' q fuel hq hfuel).2 fun hsecond => hok ⟨hfirst, hsecond⟩
    · exact h.2 hfirst

theorem Goes.congr {ok ok' : Prop} {r : Parse β} {next : Nat → Parser → Parse β} (h : Goes F ok r next ts ns)
    (hiff : ok ↔ ok') :
    Goes F ok' r next ts ns := by
  rw [Goes, ← hiff]
  exact h

theorem Goes.here (next : Nat → Parser → Parse β) {fuel : Nat} (hp : p.At F ts ns) (hfuel : ts.length < fuel) :
    Goes F True (next fuel p) next ts ns := by
  constructor
  · intro _
    exact ⟨p, fuel, hp, hfuel, rfl⟩
  · intro h
    exact absurd trivial h

/-- A parsing function gives this value and knows these names in front of these tokens; without a value it
stops with an error. -/
def Gives (F : FloatOps) (r : Parse (α × Parser)) (o : Option (α × Names)) (ts : List Token) : Prop :=
  match o with
  | some x => ∃ q, r = .ok (x.1, q) ∧ q.At F ts x.2
  | none => ∃ e, r = .error e

theorem Outcome.gives {r : Parse (α × Parser)} {f : α × Parser → Parse (β × Parser)} {o : Option α}
    {g : α → Option (β × Names)}
    (h : Outcome F r o us ns) (hf : ∀ x q, q.At F us ns → Gives F (f (x, q)) (g x) ts) :
    Gives F (r >>= f) (o >>= g) ts := by
  cases o with
  | none =>
    obtain ⟨e, rfl, -⟩ := h
    exact ⟨e, rfl⟩
  | some x =>
    obtain ⟨q, rfl, hq⟩ := h
    exact hf x q hq

/-- If a field parser returns, it stands neither in front of these tokens nor in front of a field, and it has
added no function. -/
def Strays (F : FloatOps) (m : Module) (r : Parse (Module × Parser)) (ts : List Token) : Prop :=
  ∀ m' q, r = .ok (m', q) → m'.functions = m.functions ∧ ∃ us ns, q.At F us ns ∧ us ≠ ts ∧ us.head? ≠ some .lparen

section
variable {m m' : Module}

theorem Strays.error {e : Fault ParseError} : Strays F m (.error e) ts := by
  intro m' q h
  cases h

theorem Strays.ok (hp : p.At F us ns) (hne : us ≠ ts) (hhead : us.head? ≠ some .lparen)
    (hsame : m'.functions = m.functions) :
    Strays F m (.ok (m', p)) ts := by
  intro m'' q h
  cases h
  exact ⟨hsame, us, ns, hp, hne, hhead⟩

theorem Strays.not_at {r : Parse (Module × Parser)} (h : Strays F m r ts) (hr : r = .ok (m', p)) :
    ¬ p.At F ts ns := by
  intro hat
  obtain ⟨-, us, ns', hat', hne, -⟩ := h m' p hr
  exact hne (hat'.unique hat)

end

/-! ## Single tokens -/

namespace Parser

theorem At.room (h : p.At F ts ns) : ts.length < p.fuel := by
  have hfuel := h.fuel
  omega

theorem At.expectString {s : List UInt8} (h : p.At F (.stringLiteral s :: ts) ns) :
    ∃ q, p.expectString F = .ok (unescapeWatString s, q) ∧ q.At F ts ns := by
  obtain ⟨q, hq, hat, -⟩ := h.bump
  have hla : p.lookahead = some (.stringLiteral s) := h.lookahead
  refine ⟨q, ?_, hat⟩
  rw [Parser.expectString, hla]
  dsimp only
  rw [hq, bind_ok]

theorem expectLparen_ok {q : Parser} (h : p.expectLparen F = .ok q) : p.lookahead = some .lparen := by
  unfold Parser.expectLparen at h
  split at h
  · assumption
  · cases h

theorem expectRparen_error (h : p.lookahead ≠ some .rparen) :
    p.expectRparen F = .error (.err .expectedRparen) := if_neg h

theorem expectKeyword_error {kw : List UInt8} (h : p.lookahead ≠ some (.keyword kw)) :
    p.expectKeyword F kw = .error (.err (.expectedKeyword kw)) :=
  if_neg h

end Parser

/-! ## Lists that are skipped -/

theorem i32Fits_eq {n : Nat} (h : n < 2 ^ 31) : (i32Fits n : Parse Nat) = .ok n := if_pos h

theorem i32Fits_panics {n : Nat} (h : ¬ n < 2 ^ 31) : (i32Fits n : Parse Nat) = .error .panic := if_neg h

theorem skip_tokens (s : Sexps) {depth fuel : Nat} (hdepth : depth ≠ 0) (hfits : depth < 2 ^ 31)
    (hp : p.At F (s.tokens ++ us) ns) (hfuel : (s.tokens ++ us).length < fuel) :
    Goes F (s.nesting + depth < 2 ^ 31) (Parser.skipRestOfList.loop F fuel depth p)
    (fun k q => Parser.skipRestOfList.loop F k depth q) us ns := by
  induction s generalizing depth fuel p us with
  | nil =>
    refine (Goes.here (fun k q => Parser.skipRestOfList.loop F k depth q) hp hfuel).congr ?_
    simp only [Sexps.nesting, Nat.zero_add, hfits]
  | atom tok plain rest ih =>
    obtain ⟨k, rfl⟩ : ∃ k, fuel = k + 1 := ⟨fuel - 1, by omega⟩
    have hla : p.lookahead = some tok := hp.lookahead
    obtain ⟨q, hq, hat, -⟩ := hp.bump
    have hloop : Parser.skipRestOfList.loop F (k + 1) depth p = Parser.skipRestOfList.loop F k depth q := by
      rw [Parser.skipRestOfList.loop, if_neg hdepth]
      split
      · next h => exact absurd (Option.some.inj (hla.symm.trans h)) plain.1
      · next h => exact absurd (Option.some.inj (hla.symm.trans h)) plain.2
      · rw [hq, bind_ok]
      · next h => cases hla.symm.trans h
    rw [hloop]
    exact ih hdepth hfits hat (Nat.lt_of_succ_lt_succ hfuel)
  | list inside rest ihInside ihRest =>
    obtain ⟨k, rfl⟩ : ∃ k, fuel = k + 1 := ⟨fuel - 1, by omega⟩
    have htokens : (Sexps.list inside rest).tokens ++ us =
        .lparen :: (inside.tokens ++ .rparen :: (rest.tokens ++ us)) := by
      simp [Sexps.tokens]
    rw [htokens] at hp hfuel
    have hla : p.lookahead = some .lparen := hp.lookahead
    obtain ⟨q, hq, hat, -⟩ := hp.bump
    have hloop : Parser.skipRestOfList.loop F (k + 1) depth p =
        (i32Fits (depth + 1) >>= fun d => Parser.skipRestOfList.loop F k d q) := by
      rw [Parser.skipRestOfList.loop, if_neg hdepth, hla]
      dsimp only
      rw [hq]
      rfl
    rw [hloop]
    by_cases hdeeper : depth + 1 < 2 ^ 31
    · rw [i32Fits_eq hdeeper, bind_ok]
      have hin := ihInside (Nat.succ_ne_zero depth) hdeeper hat (Nat.lt_of_succ_lt_succ hfuel)
      have hboth : Goes F (inside.nesting + (depth + 1) < 2 ^ 31 ∧ rest.nesting + depth < 2 ^ 31) _
          (fun k q => Parser.skipRestOfList.loop F k depth q) us ns := hin.trans fun q' k' hq' hk' => by
        obtain ⟨j, rfl⟩ : ∃ j, k' = j + 1 := ⟨k' - 1, by omega⟩
        have hla : q'.lookahead = some .rparen := hq'.lookahead
        obtain ⟨r, hr, hat', -⟩ := hq'.bump
        have hclose : Parser.skipRestOfList.loop F (j + 1) (depth + 1) q' =
            Parser.skipRestOfList.loop F j depth r := by
          rw [Parser.skipRestOfList.loop, if_neg (Nat.succ_ne_zero depth), hla]
          dsimp only
          rw [hr, bind_ok, Nat.add_sub_cancel]
        rw [hclose]
        exact ihRest hdepth hfits hat' (Nat.lt_of_succ_lt_succ hk')
      refine hboth.congr ?_
      simp only [Sexps.nesting]
      omega
    · rw [i32Fits_panics hdeeper, bind_error]
      constructor
      · intro hok
        simp only [Sexps.nesting] at hok
        omega
      · intro _
        exact ⟨_, rfl⟩

/-- The depth the parser counts to fits its `i32`. -/
def Sexps.Shallow (s : Sexps) : Prop := s.nesting + 1 < 2 ^ 31

theorem skip_rest (s : Sexps) (hp : p.At F (s.tokens ++ .rparen :: rest) ns) :
    (s.Shallow → ∃ q, p.skipRestOfList F = .ok q ∧ q.At F rest ns) ∧
    (¬ s.Shallow → ∃ e, p.skipRestOfList F = .error e) := by
  obtain ⟨hgoes, hstops⟩ := skip_tokens s Nat.one_ne_zero (by decide) hp hp.room
  refine ⟨fun hshallow => ?_, hstops⟩
  obtain ⟨q, k, hq, hk, heq⟩ := hgoes hshallow
  obtain ⟨j, rfl⟩ : ∃ j, k = j + 2 := by
    rw [List.length_cons] at hk
    exact ⟨k - 2, by omega⟩
  have hla : q.lookahead = some .rparen := hq.lookahead
  obtain ⟨r, hr, hat, -⟩ := hq.bump
  have hstop : Parser.skipRestOfList.loop F (j + 1) 0 r = .ok r := by rw [Parser.skipRestOfList.loop, if_pos rfl]
  refine ⟨r, ?_, hat⟩
  rw [show p.skipRestOfList F = Parser.skipRestOfList.loop F (j + 2) 1 q from heq, Parser.skipRestOfList.loop,
    if_neg Nat.one_ne_zero, hla]
  dsimp only
  rw [hr, bind_ok]
  exact hstop

/-! ## Types -/

theorem valTypes_read (tys : List ValType) {fuel : Nat} (hp : p.At F (valTypeTokens tys ++ .rparen :: rest) ns)
    (hfuel : (valTypeTokens tys ++ .rparen :: rest).length < fuel) :
    ∃ q, Parser.valTypes.loop F fuel p = .ok (tys, q) ∧ q.At F (.rparen :: rest) ns := by
  induction tys generalizing fuel p with
  | nil =>
    obtain ⟨k, rfl⟩ : ∃ k, fuel = k + 1 := ⟨fuel - 1, by omega⟩
    have hla : p.lookahead = some .rparen := hp.lookahead
    refine ⟨p, ?_, hp⟩
    rw [Parser.valTypes.loop, hla]
  | cons ty tys ih =>
    obtain ⟨k, rfl⟩ : ∃ k, fuel = k + 1 := ⟨fuel - 1, by omega⟩
    have hla : p.lookahead = some (.keyword ty.kw) := hp.lookahead
    obtain ⟨q, hq, hat, -⟩ := hp.bump
    obtain ⟨r, hr, hat'⟩ := ih hat (Nat.lt_of_succ_lt_succ hfuel)
    refine ⟨r, ?_, hat'⟩
    rw [Parser.valTypes.loop, hla]
    dsimp only
    rw [fromKw_kw]
    dsimp only
    rw [hq, bind_ok, hr, bind_ok]

theorem valTypes_at (tys : List ValType) (hp : p.At F (valTypeTokens tys ++ .rparen :: rest) ns) :
    ∃ q, p.valTypes F = .ok (tys, q) ∧ q.At F (.rparen :: rest) ns :=
  valTypes_read tys hp hp.room

theorem valTypeTokens_not_identifier (tys : List ValType) (id : List UInt8) :
    (valTypeTokens tys ++ .rparen :: rest).head? ≠ some (.identifier id) := by
  cases tys with
  | nil => simp [valTypeTokens]
  | cons ty tys => simp [valTypeTokens]

/-- What stands in a group, behind its opening parenthesis. -/
def Group.inside : Group → List Token
  | param name tys => closed (utf8 "param") (labelTokens name ++ valTypeTokens tys)
  | result tys => closed (utf8 "result") (valTypeTokens tys)

theorem Group.tokens_eq (g : Group) : g.tokens = .lparen :: g.inside := by
  cases g with
  | param name tys => rfl
  | result tys => rfl

theorem parseGroup_at (g : Group) (ft : FuncType) (hp : p.At F (g.inside ++ rest) ns) :
    ∃ q, p.parseParamOrResultGroup F ft = .ok (g.add ft, q) ∧ q.At F rest ns := by
  unfold Parser.parseParamOrResultGroup
  cases g with
  | param name tys =>
    have htokens : (Group.param name tys).inside ++ rest =
        .keyword (utf8 "param") :: (labelTokens name ++ (valTypeTokens tys ++ .rparen :: rest)) := by
      simp [Group.inside, closed]
    rw [htokens] at hp
    have hla : p.lookahead = some (.keyword (utf8 "param")) := hp.lookahead
    obtain ⟨q₁, h₁, hat₁, -⟩ := hp.bump
    obtain ⟨q₂, h₂, hat₂⟩ := tryIdentifier_label name hat₁ (valTypeTokens_not_identifier tys)
    obtain ⟨q₃, h₃, hat₃⟩ := valTypes_at tys hat₂
    obtain ⟨q₄, h₄, hat₄⟩ := hat₃.expectRparen
    refine ⟨q₄, ?_, hat₄⟩
    rw [if_pos hla, h₁, bind_ok, h₂, bind_ok]
    dsimp only
    rw [h₃, bind_ok]
    dsimp only
    rw [h₄, bind_ok]
    rfl
  | result tys =>
    have htokens : (Group.result tys).inside ++ rest = .keyword (utf8 "result") ::
        (valTypeTokens tys ++ .rparen :: rest) := by
      simp [Group.inside, closed]
    rw [htokens] at hp
    have hla : p.lookahead = some (.keyword (utf8 "result")) := hp.lookahead
    obtain ⟨q₁, h₁, hat₁, -⟩ := hp.bump
    obtain ⟨q₂, h₂, hat₂⟩ := valTypes_at tys hat₁
    obtain ⟨q₃, h₃, hat₃⟩ := hat₂.expectRparen
    refine ⟨q₃, ?_, hat₃⟩
    rw [if_neg (by rw [hla]; decide), if_pos hla, h₁, bind_ok, h₂, bind_ok]
    dsimp only
    rw [h₃, bind_ok]
    rfl

theorem groups_read (groups : List Group) (ft : FuncType) {fuel : Nat}
    (hp : p.At F (groups.flatMap Group.tokens ++ .rparen :: rest) ns)
    (hfuel : (groups.flatMap Group.tokens ++ .rparen :: rest).length < fuel) :
    ∃ q, Parser.typeGroups.loop F fuel p ft = .ok (groups.foldl Group.add ft, q) ∧ q.At F (.rparen :: rest) ns := by
  induction groups generalizing fuel p ft with
  | nil =>
    obtain ⟨k, rfl⟩ : ∃ k, fuel = k + 1 := ⟨fuel - 1, by omega⟩
    have hla : p.lookahead = some .rparen := hp.lookahead
    refine ⟨p, ?_, hp⟩
    rw [Parser.typeGroups.loop, if_neg (by rw [hla]; decide)]
    rfl
  | cons g groups ih =>
    obtain ⟨k, rfl⟩ : ∃ k, fuel = k + 1 := ⟨fuel - 1, by omega⟩
    rw [List.flatMap_cons, List.append_assoc, g.tokens_eq, List.cons_append] at hp hfuel
    have hla : p.lookahead = some .lparen := hp.lookahead
    obtain ⟨q, hq, hat⟩ := hp.expectLparen
    obtain ⟨r, hr, hat'⟩ := parseGroup_at g ft hat
    have hrest : (groups.flatMap Group.tokens ++ .rparen :: rest).length < k := by
      rw [List.length_cons, List.length_append] at hfuel
      omega
    obtain ⟨s, hs, hat''⟩ := ih (g.add ft) hat' hrest
    refine ⟨s, ?_, hat''⟩
    rw [Parser.typeGroups.loop, if_pos hla, hq, bind_ok, hr, bind_ok]
    dsimp only
    rw [hs]
    rfl

theorem parseFuncTypeFields_at (groups : List Group)
    (hp : p.At F (groups.flatMap Group.tokens ++ .rparen :: rest) ns) :
    ∃ q, p.parseFuncTypeFields F = .ok (groups.foldl Group.add ⟨[], []⟩, q) ∧ q.At F (.rparen :: rest) ns :=
  groups_read groups ⟨[], []⟩ hp hp.room

/-- A name without an entry is a number that may be too large. -/
theorem parseTypeIndex_at (r : Ref) (hp : p.At F (r.token :: rest) ns) :
    Outcome F (p.parseTypeIndex F) (r.type ns.type) rest ns := by
  obtain ⟨q, hq, hat, -⟩ := hp.bump
  unfold Parser.parseTypeIndex
  cases r with
  | index n =>
    have hla : p.lookahead = some (.int n) := hp.lookahead
    refine ⟨q, ?_, hat⟩
    rw [hla]
    dsimp only
    rw [hq, bind_ok]
  | name id =>
    have hla : p.lookahead = some (.identifier id) := hp.lookahead
    have hnames : q.typeNames = ns.type := by rw [← hat.names]; rfl
    rw [hla]
    dsimp only
    rw [hq, bind_ok, Parser.resolveTypeName, hnames]
    simp only [Ref.type]
    cases ns.type.lookup id with
    | some idx => exact ⟨q, rfl, hat⟩
    | none =>
      dsimp only
      cases hname : numericName id with
      | ok idx => exact ⟨q, rfl, hat⟩
      | error e =>
        refine ⟨e, rfl, ?_⟩
        intro he
        rw [he] at hname
        exact numericName_ne_hang id hname

theorem parseTypeUse_at (ref : Option Ref) (groups : List Group) (types : List FuncType)
    (hp : p.At F (typeRefTokens ref ++ groups.flatMap Group.tokens ++ .rparen :: rest) ns) :
    Outcome F (p.parseTypeUse F types) (typeUse ns.type types ref (groups.foldl Group.add ⟨[], []⟩))
    (.rparen :: rest) ns := by
  unfold Parser.parseTypeUse
  cases ref with
  | some r =>
    have htokens : typeRefTokens (some r) ++ groups.flatMap Group.tokens ++ .rparen :: rest =
        .lparen :: .keyword (utf8 "type") :: r.token :: .rparen ::
        (groups.flatMap Group.tokens ++ .rparen :: rest) := by
      simp [typeRefTokens, parens, closed]
    rw [htokens] at hp
    have hla : p.lookahead = some .lparen := hp.lookahead
    obtain ⟨q₁, h₁, hat₁⟩ := hp.expectLparen
    have hla₁ : q₁.lookahead = some (.keyword (utf8 "type")) := hat₁.lookahead
    obtain ⟨q₂, h₂, hat₂, -⟩ := hat₁.bump
    rw [if_pos hla, h₁, bind_ok, if_pos hla₁, h₂, bind_ok]
    have hfinish : ∀ idx q, Parser.At F q (.rparen :: (groups.flatMap Group.tokens ++ .rparen :: rest)) ns →
        Outcome F (q.expectRparen F >>= fun p => p.parseFuncTypeFields F >>= fun r =>
        .ok ((types, idx), r.2) : Parse ((List FuncType × UInt32) × Parser))
          (some (types, idx)) (.rparen :: rest) ns := by
      intro idx q hq
      obtain ⟨q₃, h₃, hat₃⟩ := hq.expectRparen
      obtain ⟨q₄, h₄, hat₄⟩ := parseFuncTypeFields_at groups hat₃
      refine ⟨q₄, ?_, hat₄⟩
      rw [h₃, bind_ok, h₄, bind_ok]
    have hbind : Outcome F (q₂.parseTypeIndex F >>= fun r => r.2.expectRparen F >>= fun p =>
        p.parseFuncTypeFields F >>= fun s =>
        .ok ((types, r.1), s.2)) (r.type ns.type >>= fun idx => some (types, idx)) (.rparen :: rest) ns :=
      (parseTypeIndex_at r hat₂).bind fun idx q hq => hfinish idx q hq
    have htype : typeUse ns.type types (some r) (groups.foldl Group.add ⟨[], []⟩) =
        (r.type ns.type >>= fun idx => some (types, idx)) := by
      simp only [typeUse]
      cases r.type ns.type with
      | none => rfl
      | some idx => rfl
    rw [htype]
    exact hbind
  | none =>
    have htokens : typeRefTokens none ++ groups.flatMap Group.tokens ++ .rparen :: rest =
        groups.flatMap Group.tokens ++ .rparen :: rest := rfl
    rw [htokens] at hp
    cases groups with
    | nil =>
      have hla : p.lookahead = some .rparen := hp.lookahead
      refine ⟨p, ?_, hp⟩
      rw [if_neg (by rw [hla]; decide)]
      rfl
    | cons g groups =>
      rw [List.flatMap_cons, List.append_assoc, g.tokens_eq, List.cons_append] at hp
      have hla : p.lookahead = some .lparen := hp.lookahead
      obtain ⟨q₁, h₁, hat₁⟩ := hp.expectLparen
      have hla₁ : q₁.lookahead ≠ some (.keyword (utf8 "type")) := by
        rw [hat₁.lookahead]
        cases g with
        | param name tys => exact fun h => absurd (Token.keyword.inj (Option.some.inj h)) (by decide)
        | result tys => exact fun h => absurd (Token.keyword.inj (Option.some.inj h)) (by decide)
      obtain ⟨q₂, h₂, hat₂⟩ := parseGroup_at g ⟨[], []⟩ hat₁
      obtain ⟨q₃, h₃, hat₃⟩ := groups_read groups (g.add ⟨[], []⟩) hat₂ hat₂.room
      refine ⟨q₃, ?_, hat₃⟩
      rw [if_pos hla, h₁, bind_ok, if_neg hla₁, Parser.finishInlineFuncTypeAfterLparen, h₂, bind_ok]
      dsimp only
      rw [h₃, bind_ok]
      rfl

end WasmOs.Asm
