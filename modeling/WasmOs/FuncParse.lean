import WasmOs.HeaderParse

/-!
# Parsing a function

The header of a function, group by group, and its body. The locals are read with the names of the
parameters before them, and the index of each fits a `u32` or the parser panics.
-/

namespace WasmOs.Asm

variable {F : FloatOps} {ts us rest : List Token} {ns : Names} {p : Parser}

/-! ## Parameters and locals -/

theorem nextU32_eq {n : Nat} (h : n + 1 < 2 ^ 32) : Parser.nextU32 n = .ok (n + 1) := if_pos h

theorem nextU32_panics {n : Nat} (h : ¬ n + 1 < 2 ^ 32) : Parser.nextU32 n = .error .panic := if_neg h

theorem unnamed_read (tys : List ValType) {next fuel : Nat} (hnext : next < 2 ^ 32)
    (hp : p.At F (valTypeTokens tys ++ .rparen :: rest) ns)
    (hfuel : (valTypeTokens tys ++ .rparen :: rest).length < fuel) :
    (next + tys.length < 2 ^ 32 → ∃ q, Parser.unnamed.loop F fuel p next = .ok ((tys, next + tys.length), q) ∧
      q.At F (.rparen :: rest) ns) ∧
      (¬ next + tys.length < 2 ^ 32 → ∃ e, Parser.unnamed.loop F fuel p next = .error e) := by
  induction tys generalizing next fuel p with
  | nil =>
    obtain ⟨k, rfl⟩ : ∃ k, fuel = k + 1 := ⟨fuel - 1, by omega⟩
    have hla : p.lookahead = some .rparen := hp.lookahead
    constructor
    · intro _
      refine ⟨p, ?_, hp⟩
      rw [Parser.unnamed.loop, hla]
      rfl
    · intro h
      exact absurd hnext h
  | cons ty tys ih =>
    obtain ⟨k, rfl⟩ : ∃ k, fuel = k + 1 := ⟨fuel - 1, by omega⟩
    have hla : p.lookahead = some (.keyword ty.kw) := hp.lookahead
    obtain ⟨q, hq, hat, -⟩ := hp.bump
    have hloop : Parser.unnamed.loop F (k + 1) p next =
        (Parser.nextU32 next >>= fun n => Parser.unnamed.loop F k q n >>= fun r =>
        .ok ((ty :: r.1.1, r.1.2), r.2)) := by
      rw [Parser.unnamed.loop, hla]
      dsimp only
      rw [fromKw_kw]
      dsimp only
      rw [hq]
      rfl
    rw [hloop, List.length_cons]
    by_cases hfits : next + 1 < 2 ^ 32
    · obtain ⟨hok, hpanics⟩ := ih hfits hat (Nat.lt_of_succ_lt_succ hfuel)
      rw [nextU32_eq hfits, bind_ok]
      constructor
      · intro hall
        obtain ⟨r, hr, hat'⟩ := hok (by omega)
        refine ⟨r, ?_, hat'⟩
        rw [hr, bind_ok]
        dsimp only
        rw [Nat.add_assoc, Nat.add_comm 1]
      · intro hall
        obtain ⟨e, he⟩ := hpanics (by omega)
        exact ⟨e, by rw [he, bind_error]⟩
    · rw [nextU32_panics hfits, bind_error]
      constructor
      · intro hall
        omega
      · intro _
        exact ⟨_, rfl⟩

theorem declared_read (d : Declared) {next : Nat} (hnext : next < 2 ^ 32)
    (hp : p.At F (d.tokens ++ .rparen :: rest) ns) :
    (next + d.tys.length < 2 ^ 32 → ∃ q, p.parseDeclared F next = .ok ((d.tys, next + d.tys.length), q) ∧
      q.At F (.rparen :: rest) { ns with loc := ns.loc ++ d.names next }) ∧
      (¬ next + d.tys.length < 2 ^ 32 → ∃ e, p.parseDeclared F next = .error e) := by
  unfold Parser.parseDeclared
  cases d with
  | named x ty =>
    have hla : p.lookahead = some (.identifier x) := hp.lookahead
    obtain ⟨q, hq, hat, -⟩ := hp.bump
    have hname : p.tryIdentifier F = .ok (some x, q) := by
      rw [Parser.tryIdentifier, hla]
      dsimp only
      rw [hq, bind_ok]
    have hla' : q.lookahead = some (.keyword ty.kw) := hat.lookahead
    have hnamed : Parser.At F { q with localNames := q.localNames ++ [(x, UInt32.ofNat next)] } _ _ :=
      hat.rename ⟨rfl, rfl, rfl⟩
    obtain ⟨r, hr, hat', -⟩ := hnamed.bump
    rw [hname, bind_ok]
    dsimp only
    rw [hla']
    dsimp only
    rw [fromKw_kw]
    dsimp only
    rw [hla'] at hr
    rw [hr]
    by_cases hfits : next + 1 < 2 ^ 32
    · rw [nextU32_eq hfits, bind_ok, bind_ok]
      constructor
      · intro _
        refine ⟨r, rfl, ?_⟩
        rw [← hat.names]
        exact hat'
      · intro h
        exact absurd hfits h
    · rw [nextU32_panics hfits, bind_error]
      constructor
      · intro h
        exact absurd h hfits
      · intro _
        exact ⟨_, rfl⟩
  | unnamed tys =>
    change p.At F (valTypeTokens tys ++ .rparen :: rest) ns at hp
    obtain ⟨q, hq, hat⟩ := tryIdentifier_label none hp (valTypeTokens_not_identifier tys)
    change q.At F (valTypeTokens tys ++ .rparen :: rest) ns at hat
    obtain ⟨hok, hpanics⟩ := unnamed_read tys hnext hat hat.room
    rw [hq, bind_ok]
    dsimp only
    refine ⟨fun h => ?_, hpanics⟩
    obtain ⟨r, hr, hat'⟩ := hok h
    refine ⟨r, hr, ?_⟩
    rw [Declared.names, List.append_nil]
    exact hat'

/-! ## Groups of the header -/

section
variable (fidx : UInt32) (m : Module) {h : Parser.FuncHeader} {fuel : Nat}

theorem exports_read (exports : List (List UInt8)) (hp : p.At F (exportTokens exports ++ us) ns)
    (hfuel : (exportTokens exports ++ us).length < fuel) :
    Goes F True (Parser.parseFuncDef.loop F fidx fuel p m h)
      (fun k q => Parser.parseFuncDef.loop F fidx k q (m.addExports exports fidx) h) us ns := by
  induction exports generalizing fuel p m with
  | nil =>
    have hsame : m.addExports [] fidx = m := by simp [Module.addExports]
    rw [hsame]
    exact Goes.here (fun k q => Parser.parseFuncDef.loop F fidx k q m h) hp hfuel
  | cons e exports ih =>
    have htokens : exportTokens (e :: exports) ++ us =
        .lparen :: .keyword (utf8 "export") :: .stringLiteral e :: .rparen :: (exportTokens exports ++ us) := by
      simp [exportTokens, parens, closed]
    rw [htokens] at hp hfuel
    obtain ⟨k, rfl⟩ : ∃ k, fuel = k + 1 := ⟨fuel - 1, by omega⟩
    have hla : p.lookahead = some .lparen := hp.lookahead
    obtain ⟨q₁, h₁, hat₁, -⟩ := hp.bump
    have hla₁ : q₁.lookahead = some (.keyword (utf8 "export")) := hat₁.lookahead
    obtain ⟨q₂, h₂, hat₂, -⟩ := hat₁.bump
    obtain ⟨q₃, h₃, hat₃⟩ := hat₂.expectString
    obtain ⟨q₄, h₄, hat₄⟩ := hat₃.expectRparen
    have hround : Parser.parseFuncDef.loop F fidx (k + 1) p m h = Parser.parseFuncDef.loop F fidx k q₄
        (m.addExports [e] fidx) h := by
      rw [Parser.parseFuncDef.loop, if_pos hla, h₁, bind_ok, if_pos hla₁, h₂, bind_ok, h₃, bind_ok]
      dsimp only
      rw [h₄, bind_ok]
      rfl
    have hall : (m.addExports [e] fidx).addExports exports fidx = m.addExports (e :: exports) fidx := by
      simp [Module.addExports]
    rw [hround, ← hall]
    simp only [List.length_cons] at hfuel
    exact ih (m.addExports [e] fidx) hat₄ (by omega)

def Parser.FuncHeader.typed (h : Parser.FuncHeader) (types : NameTable) : Option Ref → Parser.FuncHeader
  | none => h
  | some r => { h with typeParsed := true, typeIdx := (r.type types).getD 0 }

theorem typeRef_read (ref : Option Ref) (hp : p.At F (typeRefTokens ref ++ us) ns)
    (hfuel : (typeRefTokens ref ++ us).length < fuel) :
    Goes F (∀ r, ref = some r → (r.type ns.type).isSome) (Parser.parseFuncDef.loop F fidx fuel p m h)
      (fun k q => Parser.parseFuncDef.loop F fidx k q m (h.typed ns.type ref)) us ns := by
  cases ref with
  | none =>
    refine (Goes.here (fun k q => Parser.parseFuncDef.loop F fidx k q m h) hp hfuel).congr ?_
    simp
  | some r =>
    have htokens : typeRefTokens (some r) ++ us = .lparen :: .keyword (utf8 "type") :: r.token ::
        .rparen :: us := by
      simp [typeRefTokens, parens, closed]
    rw [htokens] at hp hfuel
    obtain ⟨k, rfl⟩ : ∃ k, fuel = k + 1 := ⟨fuel - 1, by omega⟩
    have hla : p.lookahead = some .lparen := hp.lookahead
    obtain ⟨q₁, h₁, hat₁, -⟩ := hp.bump
    have hla₁ : q₁.lookahead = some (.keyword (utf8 "type")) := hat₁.lookahead
    obtain ⟨q₂, h₂, hat₂, -⟩ := hat₁.bump
    have hround : Parser.parseFuncDef.loop F fidx (k + 1) p m h =
        (q₂.parseTypeIndex F >>= fun r => r.2.expectRparen F >>= fun p =>
        Parser.parseFuncDef.loop F fidx k p m { h with typeIdx := r.1, typeParsed := true }) := by
      rw [Parser.parseFuncDef.loop, if_pos hla, h₁, bind_ok, if_neg (by rw [hla₁]; decide),
        if_neg (by rw [hla₁]; decide), if_pos hla₁, h₂,
        bind_ok]
    have hindex := parseTypeIndex_at r hat₂
    rw [hround]
    simp only [List.length_cons] at hfuel
    constructor
    · intro hok
      obtain ⟨idx, hidx⟩ := Option.isSome_iff_exists.mp (hok r rfl)
      rw [hidx] at hindex
      obtain ⟨q₃, h₃, hat₃⟩ := hindex
      obtain ⟨q₄, h₄, hat₄⟩ := hat₃.expectRparen
      refine ⟨q₄, k, hat₄, by omega, ?_⟩
      rw [h₃, bind_ok, h₄, bind_ok]
      simp only [Parser.FuncHeader.typed, hidx, Option.getD_some]
    · intro hno
      have hnone : r.type ns.type = none := by
        cases hidx : r.type ns.type with
        | none => rfl
        | some idx =>
          refine absurd ?_ hno
          intro r' hr'
          cases hr'
          rw [hidx]
          rfl
      rw [hnone] at hindex
      obtain ⟨e, he, -⟩ := hindex
      exact ⟨e, by rw [he, bind_error]⟩

def Parser.FuncHeader.grouped (h : Parser.FuncHeader) (groups : List FuncGroup) : Parser.FuncHeader :=
  { h with
    params := h.params ++ groups.flatMap FuncGroup.params
    results := h.results ++ groups.flatMap FuncGroup.results
    nextLocal := h.nextLocal + (groups.flatMap FuncGroup.params).length }

theorem group_read (g : FuncGroup) (hnext : h.nextLocal < 2 ^ 32) (hp : p.At F (g.tokens ++ us) ns)
    (hfuel : (g.tokens ++ us).length < fuel) :
    Goes F (h.nextLocal + g.params.length < 2 ^ 32) (Parser.parseFuncDef.loop F fidx fuel p m h)
      (fun k q => Parser.parseFuncDef.loop F fidx k q m (h.grouped [g])) us
      { ns with loc := ns.loc ++ g.names h.nextLocal } := by
  obtain ⟨k, rfl⟩ : ∃ k, fuel = k + 1 := ⟨fuel - 1, by omega⟩
  cases g with
  | param d =>
    have htokens : (FuncGroup.param d).tokens ++ us = .lparen :: .keyword (utf8 "param") ::
        (d.tokens ++ .rparen :: us) := by
      simp [FuncGroup.tokens, parens, closed]
    rw [htokens] at hp hfuel
    have hla : p.lookahead = some .lparen := hp.lookahead
    obtain ⟨q₁, h₁, hat₁, -⟩ := hp.bump
    have hla₁ : q₁.lookahead = some (.keyword (utf8 "param")) := hat₁.lookahead
    obtain ⟨q₂, h₂, hat₂, -⟩ := hat₁.bump
    have hround : Parser.parseFuncDef.loop F fidx (k + 1) p m h =
        (q₂.parseDeclared F h.nextLocal >>= fun r => r.2.expectRparen F >>= fun p =>
        Parser.parseFuncDef.loop F fidx k p m { h with params := h.params ++ r.1.1, nextLocal := r.1.2 }) := by
      rw [Parser.parseFuncDef.loop, if_pos hla, h₁, bind_ok, if_neg (by rw [hla₁]; decide),
        if_neg (by rw [hla₁]; decide),
        if_neg (by rw [hla₁]; decide), if_pos hla₁, h₂, bind_ok]
    obtain ⟨hok, hpanics⟩ := declared_read d hnext hat₂
    rw [hround]
    simp only [List.length_cons, List.length_append] at hfuel
    constructor
    · intro hfits
      obtain ⟨q₃, h₃, hat₃⟩ := hok hfits
      obtain ⟨q₄, h₄, hat₄⟩ := hat₃.expectRparen
      refine ⟨q₄, k, hat₄, by omega, ?_⟩
      rw [h₃, bind_ok, h₄, bind_ok]
      simp [Parser.FuncHeader.grouped, FuncGroup.params, FuncGroup.results]
    · intro hno
      obtain ⟨e, he⟩ := hpanics hno
      exact ⟨e, by rw [he, bind_error]⟩
  | result tys =>
    have htokens : (FuncGroup.result tys).tokens ++ us = .lparen :: .keyword (utf8 "result") ::
        (valTypeTokens tys ++ .rparen :: us) := by
      simp [FuncGroup.tokens, parens, closed]
    rw [htokens] at hp hfuel
    have hla : p.lookahead = some .lparen := hp.lookahead
    obtain ⟨q₁, h₁, hat₁, -⟩ := hp.bump
    have hla₁ : q₁.lookahead = some (.keyword (utf8 "result")) := hat₁.lookahead
    obtain ⟨q₂, h₂, hat₂, -⟩ := hat₁.bump
    obtain ⟨q₃, h₃, hat₃⟩ := valTypes_at tys hat₂
    obtain ⟨q₄, h₄, hat₄⟩ := hat₃.expectRparen
    have hround : Parser.parseFuncDef.loop F fidx (k + 1) p m h = Parser.parseFuncDef.loop F fidx k q₄ m
        (h.grouped [.result tys]) := by
      rw [Parser.parseFuncDef.loop, if_pos hla, h₁, bind_ok, if_neg (by rw [hla₁]; decide),
        if_neg (by rw [hla₁]; decide),
        if_neg (by rw [hla₁]; decide), if_neg (by rw [hla₁]; decide), if_pos hla₁, h₂, bind_ok, h₃, bind_ok]
      dsimp only
      rw [h₄, bind_ok]
      simp [Parser.FuncHeader.grouped, FuncGroup.params, FuncGroup.results]
    have hnames : ({ ns with loc := ns.loc ++ (FuncGroup.result tys).names h.nextLocal } : Names) = ns := by
      simp [FuncGroup.names]
    rw [hround, hnames]
    simp only [List.length_cons, List.length_append] at hfuel
    refine (Goes.here (fun k q => Parser.parseFuncDef.loop F fidx k q m (h.grouped [.result tys])) hat₄
      (by omega)).congr ?_
    simp only [FuncGroup.params, List.length_nil, Nat.add_zero, hnext]

theorem groups_go (groups : List FuncGroup) (hnext : h.nextLocal < 2 ^ 32)
    (hp : p.At F (groups.flatMap FuncGroup.tokens ++ us) ns)
    (hfuel : (groups.flatMap FuncGroup.tokens ++ us).length < fuel) :
    Goes F (h.nextLocal + (groups.flatMap FuncGroup.params).length < 2 ^ 32)
    (Parser.parseFuncDef.loop F fidx fuel p m h)
      (fun k q => Parser.parseFuncDef.loop F fidx k q m (h.grouped groups)) us
      { ns with loc := ns.loc ++ FuncGroup.table h.nextLocal groups } := by
  induction groups generalizing fuel p ns h with
  | nil =>
    have hsame : h.grouped [] = h := by simp [Parser.FuncHeader.grouped]
    have hnames : ({ ns with loc := ns.loc ++ FuncGroup.table h.nextLocal [] } : Names) = ns := by
      simp [FuncGroup.table]
    rw [hsame, hnames]
    refine (Goes.here (fun k q => Parser.parseFuncDef.loop F fidx k q m h) hp hfuel).congr ?_
    simpa using hnext
  | cons g groups ih =>
    rw [List.flatMap_cons, List.append_assoc] at hp hfuel
    have hall : (h.grouped [g]).grouped groups = h.grouped (g :: groups) := by
      simp [Parser.FuncHeader.grouped, Nat.add_assoc]
    have hcount : (h.grouped [g]).nextLocal = h.nextLocal + g.params.length := by simp [Parser.FuncHeader.grouped]
    by_cases hfits : h.nextLocal + g.params.length < 2 ^ 32
    · have htrans : Goes F (h.nextLocal + g.params.length < 2 ^ 32 ∧
          (h.grouped [g]).nextLocal + (groups.flatMap FuncGroup.params).length < 2 ^ 32)
          (Parser.parseFuncDef.loop F fidx fuel p m h) (fun k q => Parser.parseFuncDef.loop F fidx k q m
            (h.grouped (g :: groups))) us
          { ns with loc := ns.loc ++ FuncGroup.table h.nextLocal (g :: groups) } :=
        (group_read fidx m g hnext hp hfuel).trans fun q k hq hk => by
          have hnext' : (h.grouped [g]).nextLocal < 2 ^ 32 := by rw [hcount]; exact hfits
          have hrest := ih hnext' hq hk
          rw [hall, hcount, List.append_assoc] at hrest
          rw [hcount]
          exact hrest
      refine htrans.congr ?_
      rw [hcount, List.flatMap_cons, List.length_append]
      omega
    · constructor
      · intro hok
        rw [List.flatMap_cons, List.length_append] at hok
        omega
      · intro _
        exact (group_read fidx m g hnext hp hfuel).2 hfits

end

/-! ## The body -/

def OpensInstr (ts : List Token) : Prop :=
  ∀ us, ts = .lparen :: us → ∃ kw x, us.head? = some (.keyword kw) ∧ operators.lookup kw = some x

theorem opensInstr_keyword {kw : List UInt8} : OpensInstr (.keyword kw :: ts) := by
  intro us h
  cases h

theorem opensInstr_folded {kw : List UInt8} {x : Operator} (h : operators.lookup kw = some x) :
    OpensInstr (.lparen :: .keyword kw :: ts) := by
  intro us heq
  cases heq
  exact ⟨kw, x, rfl, h⟩

theorem Body.opensInstr (b : Body F) (h : OpensInstr rest) : OpensInstr (b.tokens ++ rest) := by
  induction b generalizing rest with
  | nil => exact h
  | op flat o args tail ihArgs ihTail =>
    obtain ⟨x, hx, -⟩ := o.lookup
    cases flat with
    | true =>
      simp only [Body.tokens, if_pos, List.append_assoc]
      exact ihArgs opensInstr_keyword
    | false => exact opensInstr_folded hx
  | block flat isLoop label ty body tail ihBody ihTail =>
    cases flat with
    | true => exact opensInstr_keyword
    | false => exact opensInstr_folded (blockKw_opener isLoop)
  | cond flat label ty test thn els tail ihTest ihThn ihEls ihTail =>
    cases flat with
    | true =>
      simp only [Body.tokens, if_pos, List.append_assoc]
      exact ihTest opensInstr_keyword
    | false => exact opensInstr_folded lookup_if

def headerKeywords : List (List UInt8) :=
  [utf8 "export", utf8 "import", utf8 "type", utf8 "param", utf8 "result", utf8 "local"]

theorem headerKeyword_not_operator : ∀ kw ∈ headerKeywords, operators.lookup kw = none := by decide

/-- A folded instruction and those after it, read with the fuel of the places they stand at. -/
theorem instrs_split {fuel : Nat} (hp : p.At F (.lparen :: us) ns)
    (hfuel : 2 * (Token.lparen :: us).length < fuel) :
    ∃ q, p.bump F = .ok q ∧ q.At F us ns ∧ Parser.parseInstrs F fuel p =
      (Parser.parseFoldedInstr F q.fuel q >>= fun r => Parser.parseInstrs F r.2.fuel r.2 >>= fun s =>
        .ok (r.1 ++ s.1, s.2)) := by
  have hla : p.lookahead = some .lparen := hp.lookahead
  obtain ⟨q, hq, hat, -⟩ := hp.bump
  have hroom := hat.fuel
  rw [List.length_cons] at hfuel
  refine ⟨q, hq, hat, ?_⟩
  have hsame : Parser.parseInstrs F fuel p = Parser.parseInstrs F (q.fuel + 1) p :=
    (Parser.instrs_fuel hp (by rw [List.length_cons]; omega)).trans
      (Parser.instrs_fuel hp (by rw [List.length_cons]; omega)).symm
  rw [hsame, Parser.parseInstrs, hla]
  dsimp only
  rw [hq, bind_ok]
  cases hr : Parser.parseFoldedInstr F q.fuel q with
  | error e => rw [bind_error, bind_error]
  | ok r =>
    obtain ⟨vs, ns', hat', hsub⟩ := (Parser.parseFoldedInstr_ends False.elim hat False.elim).left r hr
    have hle := hsub.length_le
    have hroom' := hat'.fuel
    have hfolded : Parser.parseInstrs F q.fuel r.2 = Parser.parseInstrs F r.2.fuel r.2 :=
      (Parser.instrs_fuel hat' (by omega)).trans (Parser.instrs_fuel hat' (by omega)).symm
    rw [bind_ok, bind_ok, ← hfolded]

section
variable (fidx : UInt32) (m : Module) {h : Parser.FuncHeader} {fuel : Nat}

def Parser.FuncHeader.define (h : Parser.FuncHeader) (m : Module) (locals : List ValType)
    (body : List Instr) : Module :=
  { (h.intern m).2 with
    funcs := (h.intern m).2.funcs ++
      [⟨(h.intern m).1.typeIdx, (h.intern m).1.locals ++ locals.map Local.mk, body⟩] }

theorem finishFunc_at (header : Parser.FuncHeader) (instrs : List Instr) (hp : p.At F (.rparen :: rest) ns) :
    ∃ q, p.finishFunc F m header instrs =
    .ok ({ m with funcs := m.funcs ++ [⟨header.typeIdx, header.locals, instrs⟩] }, q) ∧ q.At F rest ns := by
  obtain ⟨q, hq, hat⟩ := hp.expectRparen
  refine ⟨q, ?_, hat⟩
  rw [Parser.finishFunc, hq, bind_ok]

theorem body_read {b : Body F} (hb : b.WellFormed) (hp : p.At F (b.tokens ++ .rparen :: rest) ns)
    (hfuel : (b.tokens ++ .rparen :: rest).length < fuel) :
    Gives F (Parser.parseFuncDef.loop F fidx fuel p m h) ((b.emit ns.resolver []).map fun instrs =>
      (h.define m [] instrs, ns)) rest := by
  obtain ⟨k, rfl⟩ : ∃ k, fuel = k + 1 := ⟨fuel - 1, by omega⟩
  have hroom := hp.fuel
  have hbody := parse_body hb [] p.fuel hp (by omega)
  have hloop : Parser.parseFuncDef.loop F fidx (k + 1) p m h =
      (Parser.parseInstrs F p.fuel p >>= fun r => r.2.finishFunc F (h.intern m).2 (h.intern m).1 r.1) := by
    rw [Parser.parseFuncDef.loop]
    generalize h.intern m = interned
    obtain ⟨header, m'⟩ := interned
    by_cases hl : p.lookahead = some .lparen
    · obtain ⟨us, hus⟩ := hp.cons hl
      have hclose : OpensInstr (.rparen :: rest) := by
        intro vs hvs
        cases hvs
      obtain ⟨kw, x, hkw, hx⟩ := b.opensInstr hclose us hus
      rw [hus] at hp
      have hsplitRoom : 2 * (Token.lparen :: us).length < p.fuel := by
        rw [hus] at hroom
        omega
      obtain ⟨q, hq, hat, hsplit⟩ := instrs_split hp hsplitRoom
      have hla : q.lookahead = some (.keyword kw) := hat.lookahead.trans hkw
      have hne : ∀ kw' ∈ headerKeywords, ¬ q.lookahead = some (.keyword kw') := by
        intro kw' hin heq
        have hsame : kw = kw' := Token.keyword.inj (Option.some.inj (hla.symm.trans heq))
        rw [hsame, headerKeyword_not_operator kw' hin] at hx
        cases hx
      rw [if_pos hl, hq, bind_ok, if_neg (hne _ (by decide)), if_neg (hne _ (by decide)),
        if_neg (hne _ (by decide)), if_neg (hne _ (by decide)),
        if_neg (hne _ (by decide)), if_neg (hne _ (by decide)), hsplit]
      dsimp only
      cases Parser.parseFoldedInstr F q.fuel q with
      | error e => rw [bind_error, bind_error, bind_error]
      | ok r =>
        obtain ⟨folded, r⟩ := r
        rw [bind_ok, bind_ok]
        dsimp only
        cases Parser.parseInstrs F r.fuel r with
        | error e => rw [bind_error, bind_error, bind_error]
        | ok s => rw [bind_ok, bind_ok, bind_ok]
    · rw [if_neg hl]
  rw [hloop]
  have hgives : Gives F (Parser.parseInstrs F p.fuel p >>= fun r => r.2.finishFunc F (h.intern m).2
      (h.intern m).1 r.1)
      (b.emit ns.resolver [] >>= fun instrs => some (h.define m [] instrs, ns)) rest :=
        hbody.gives fun instrs q hq => by
    obtain ⟨q', hq', hat'⟩ := finishFunc_at (h.intern m).2 (h.intern m).1 instrs hq
    refine ⟨q', ?_, hat'⟩
    rw [hq']
    simp [Parser.FuncHeader.define]
  cases hemit : b.emit ns.resolver [] with
  | none =>
    rw [hemit] at hgives
    exact hgives
  | some instrs =>
    rw [hemit] at hgives
    exact hgives

theorem intern_typeParsed (h : Parser.FuncHeader) : (h.intern m).1.typeParsed = true := by
  unfold Parser.FuncHeader.intern
  by_cases hparsed : h.typeParsed = true
  · rw [if_pos hparsed]
    exact hparsed
  · rw [if_neg hparsed]

theorem intern_of_typeParsed (hparsed : h.typeParsed = true) : h.intern m = (h, m) := if_pos hparsed

/-- The locals a group declares come behind those there are, and the type is noted before the first of them. -/
theorem define_local (d : Declared) (locals : List ValType) (body : List Instr) (next : Nat) :
    ({ (h.intern m).1 with locals := (h.intern m).1.locals ++ d.tys.map Local.mk,
                           nextLocal := next } : Parser.FuncHeader).define (h.intern m).2 locals
      body = h.define m (d.tys ++ locals) body := by
  have hparsed := intern_typeParsed m h
  unfold Parser.FuncHeader.define
  generalize h.intern m = interned at hparsed
  obtain ⟨header, m'⟩ := interned
  dsimp only at hparsed ⊢
  have hkept : ({ header with locals := header.locals ++ d.tys.map Local.mk,
                              nextLocal := next } : Parser.FuncHeader).intern m' = (_, m') :=
    intern_of_typeParsed m' hparsed
  rw [hkept]
  simp

theorem localTokens_eq (d : Declared) (ds : List Declared) (ts : List Token) :
    (d :: ds).flatMap (fun d => parens (utf8 "local") d.tokens) ++ ts = .lparen :: .keyword (utf8 "local") ::
      (d.tokens ++ .rparen :: (ds.flatMap (fun d => parens (utf8 "local") d.tokens) ++ ts)) := by
  simp [parens, closed]

theorem locals_body_read {b : Body F} (hb : b.WellFormed) (ds : List Declared) (hnext : h.nextLocal < 2 ^ 32)
    (hp : p.At F (ds.flatMap (fun d => parens (utf8 "local") d.tokens) ++ (b.tokens ++ .rparen :: rest)) ns)
    (hfuel : (ds.flatMap (fun d => parens (utf8 "local") d.tokens) ++ (b.tokens ++ .rparen :: rest)).length <
      fuel) :
    (h.nextLocal + (ds.flatMap Declared.tys).length < 2 ^ 32 → Gives F (Parser.parseFuncDef.loop F fidx fuel p m h)
      ((b.emit { ns with loc := ns.loc ++ Declared.table h.nextLocal ds : Names }.resolver []).map fun instrs =>
        (h.define m (ds.flatMap Declared.tys) instrs,
          { ns with loc := ns.loc ++ Declared.table h.nextLocal ds })) rest) ∧
      (¬ h.nextLocal + (ds.flatMap Declared.tys).length < 2 ^ 32 →
        ∃ e, Parser.parseFuncDef.loop F fidx fuel p m h = .error e) := by
  induction ds generalizing fuel p ns m h with
  | nil =>
    have hnames : ({ ns with loc := ns.loc ++ Declared.table h.nextLocal [] } : Names) = ns := by
      simp [Declared.table]
    rw [hnames]
    constructor
    · intro _
      exact body_read fidx m hb hp hfuel
    · intro hno
      exact absurd hnext hno
  | cons d ds ih =>
    obtain ⟨k, rfl⟩ : ∃ k, fuel = k + 1 := ⟨fuel - 1, by omega⟩
    rw [localTokens_eq] at hp hfuel
    have hla : p.lookahead = some .lparen := hp.lookahead
    obtain ⟨q₁, h₁, hat₁, -⟩ := hp.bump
    have hla₁ : q₁.lookahead = some (.keyword (utf8 "local")) := hat₁.lookahead
    obtain ⟨q₂, h₂, hat₂, -⟩ := hat₁.bump
    have hround : Parser.parseFuncDef.loop F fidx (k + 1) p m h =
        (q₂.parseDeclared F (h.intern m).1.nextLocal >>= fun r => r.2.expectRparen F >>= fun p =>
        Parser.parseFuncDef.loop F fidx k p (h.intern m).2
          { (h.intern m).1 with locals := (h.intern m).1.locals ++ r.1.1.map Local.mk, nextLocal := r.1.2 }) := by
      rw [Parser.parseFuncDef.loop, if_pos hla, h₁, bind_ok, if_neg (by rw [hla₁]; decide),
        if_neg (by rw [hla₁]; decide),
        if_neg (by rw [hla₁]; decide), if_neg (by rw [hla₁]; decide), if_neg (by rw [hla₁]; decide), if_pos hla₁]
      generalize h.intern m = interned
      obtain ⟨header, m'⟩ := interned
      dsimp only
      rw [h₂, bind_ok]
    obtain ⟨hok, hpanics⟩ := declared_read d hnext hat₂
    rw [hround, Parser.intern_nextLocal, List.flatMap_cons, List.length_append]
    simp only [List.length_cons, List.length_append] at hfuel
    by_cases hfits : h.nextLocal + d.tys.length < 2 ^ 32
    · obtain ⟨q₃, h₃, hat₃⟩ := hok hfits
      obtain ⟨q₄, h₄, hat₄⟩ := hat₃.expectRparen
      have hroom : (ds.flatMap (fun d => parens (utf8 "local") d.tokens) ++
          (b.tokens ++ .rparen :: rest)).length < k := by
        simp only [List.length_cons, List.length_append]
        omega
      have hrest := ih (h.intern m).2 (h := { (h.intern m).1 with
        locals := (h.intern m).1.locals ++ d.tys.map Local.mk, nextLocal := h.nextLocal + d.tys.length })
          hfits hat₄ hroom
      simp only [define_local, List.append_assoc] at hrest
      rw [h₃, bind_ok, h₄, bind_ok, ← Nat.add_assoc]
      exact hrest
    · obtain ⟨e, he⟩ := hpanics hfits
      rw [he, bind_error]
      constructor
      · intro hall
        omega
      · intro _
        exact ⟨e, rfl⟩

end

/-! ## Whole functions -/

def NoName (ts : List Token) : Prop := ∀ id, ts.head? ≠ some (.identifier id)

theorem noName_lists {α : Type} {l : List α} {tokens : α → List Token}
    (hl : ∀ a, (tokens a).head? = some .lparen) (h : NoName us) :
    NoName (l.flatMap tokens ++ us) := by
  cases l with
  | nil => exact h
  | cons a l =>
    intro id heq
    rw [List.flatMap_cons, List.append_assoc, List.head?_append, hl a] at heq
    cases heq

theorem noName_typeRef (ref : Option Ref) (h : NoName us) : NoName (typeRefTokens ref ++ us) := by
  cases ref with
  | none => exact h
  | some r =>
    intro id heq
    cases heq

theorem funcGroup_head (g : FuncGroup) : g.tokens.head? = some .lparen := by
  cases g with
  | param d => rfl
  | result tys => rfl

theorem func_start (name : Option Name) (m : Module) (hus : NoName us)
    (hp : p.At F (.keyword (utf8 "func") :: (labelTokens name ++ us)) ns) :
    ∃ q, q.At F us ⟨ns.func.note name m.nextFunc, ns.type, []⟩ ∧
      p.parseFuncDef F m = Parser.parseFuncDef.loop F m.nextFunc q.fuel q m ⟨false, 0, [], [], [], 0⟩ := by
  obtain ⟨q₁, h₁, hat₁, -⟩ := hp.bump
  obtain ⟨q₂, h₂, hat₂⟩ := tryIdentifier_label name hat₁ hus
  have hnamed : Parser.At F { q₂.nameFunc name m.nextFunc with localNames := [] } us _ :=
    hat₂.rename ⟨rfl, rfl, rfl⟩
  refine ⟨{ q₂.nameFunc name m.nextFunc with localNames := [] }, ?_, ?_⟩
  · rw [← hat₂.names]
    exact hnamed
  · rw [Parser.parseFuncDef, h₁, bind_ok, h₂, bind_ok]
    rfl

def startHeader (types : NameTable) (ref : Option Ref) (groups : List FuncGroup) : Parser.FuncHeader :=
  ((⟨false, 0, [], [], [], 0⟩ : Parser.FuncHeader).typed types ref).grouped groups

theorem startHeader_define {types : NameTable} {ref : Option Ref} {groups : List FuncGroup} {m : Module}
    {use : List FuncType × UInt32}
    (huse : typeUse types m.types ref ⟨groups.flatMap FuncGroup.params, groups.flatMap FuncGroup.results⟩ =
      some use) (locals : List ValType)
    (body : List Instr) : (startHeader types ref groups).define m locals body =
      { m with types := use.1, funcs := m.funcs ++ [⟨use.2, locals.map Local.mk, body⟩] } := by
  cases ref with
  | some r =>
    simp only [typeUse, Option.map_eq_some_iff] at huse
    obtain ⟨idx, hidx, rfl⟩ := huse
    simp [startHeader, Parser.FuncHeader.typed, Parser.FuncHeader.grouped, Parser.FuncHeader.define,
      Parser.FuncHeader.intern, hidx]
  | none =>
    simp only [typeUse, Option.some.injEq] at huse
    simp [startHeader, Parser.FuncHeader.typed, Parser.FuncHeader.grouped, Parser.FuncHeader.define,
      Parser.FuncHeader.intern, huse]

/-- The indices of the parameters and locals fit a `u32`. -/
def Func.Indexed (f : Func F) : Prop := f.params.length + f.localTys.length < 2 ^ 32

theorem typeUse_isSome {types : NameTable} {mtypes : List FuncType} {ref : Option Ref} {ft : FuncType} :
    (typeUse types mtypes ref ft).isSome ↔ ∀ r, ref = some r → (r.type types).isSome := by
  cases ref with
  | none => simp [typeUse]
  | some r => simp [typeUse]

theorem Func.denote_eq {f : Func F} {m : Module} {use : List FuncType × UInt32} {R : Names → Resolver}
    (huse : typeUse ns.type m.types f.type ⟨f.params, f.results⟩ = some use) : (Field.func f).denote R m ns =
      (f.body.emit (R (f.names ns m.nextFunc)) []).map fun instrs =>
        ((startHeader ns.type f.type f.groups).define (m.addExports f.exports m.nextFunc) f.localTys instrs,
          f.names ns m.nextFunc) := by
  have hdefine : ∀ instrs, (startHeader ns.type f.type f.groups).define (m.addExports f.exports m.nextFunc)
      f.localTys instrs =
      { m.addExports f.exports m.nextFunc with types := use.1,
                                               funcs := m.funcs ++ [⟨use.2, f.localTys.map Local.mk, instrs⟩] } :=
    fun instrs => startHeader_define (m := m.addExports f.exports m.nextFunc) huse f.localTys instrs
  simp only [hdefine, Field.denote, huse]
  cases f.body.emit (R (f.names ns m.nextFunc)) [] with
  | none => rfl
  | some instrs => rfl

theorem Func.denote_none {f : Func F} {m : Module} {R : Names → Resolver}
    (huse : typeUse ns.type m.types f.type ⟨f.params, f.results⟩ = none) : (Field.func f).denote R m ns = none := by
  simp only [Field.denote, huse]
  rfl

theorem typed_nextLocal (types : NameTable) (ref : Option Ref) (h : Parser.FuncHeader) :
    (h.typed types ref).nextLocal = h.nextLocal := by
  cases ref with
  | none => rfl
  | some r => rfl

theorem func_read (f : Func F) (m : Module)
    (hp : p.At F (.keyword (utf8 "func") :: (f.headerTokens ++ f.body.tokens ++ .rparen :: rest)) ns) :
    (f.Indexed → Gives F (p.parseFuncDef F m) ((Field.func f).denote Names.resolver m ns) rest) ∧
      (¬ f.Indexed → ∃ e, p.parseFuncDef F m = .error e) := by
  have htokens : f.headerTokens ++ f.body.tokens ++ .rparen :: rest = labelTokens f.name ++
      (exportTokens f.exports ++ (typeRefTokens f.type ++
      (f.groups.flatMap FuncGroup.tokens ++ (f.locals.flatMap (fun d => parens (utf8 "local") d.tokens) ++
      (f.body.tokens ++ .rparen :: rest))))) := by
    simp [Func.headerTokens]
  rw [htokens] at hp
  have hbody : NoName (f.body.tokens ++ .rparen :: rest) :=
    (f.body.fresh (show Fresh (.rparen :: rest) from trivial)).not_identifier
  have hlocals : NoName (f.locals.flatMap (fun d => parens (utf8 "local") d.tokens) ++
      (f.body.tokens ++ .rparen :: rest)) :=
    noName_lists (fun _ => rfl) hbody
  have hgroups := noName_lists (l := f.groups) funcGroup_head hlocals
  have hexports : NoName (exportTokens f.exports ++ _) :=
    noName_lists (fun _ => rfl) (noName_typeRef f.type hgroups)
  obtain ⟨q, hat, hparse⟩ := func_start f.name m hexports hp
  let start : Parser.FuncHeader := ⟨false, 0, [], [], [], 0⟩
  have hstart : start.nextLocal < 2 ^ 32 := by decide
  obtain ⟨q₁, k₁, hat₁, hk₁, h₁⟩ := (exports_read m.nextFunc m f.exports hat hat.room (h := start)).1 trivial
  have htype := typeRef_read m.nextFunc (m.addExports f.exports m.nextFunc) f.type hat₁ hk₁ (h := start)
  rw [hparse, h₁]
  dsimp only at htype ⊢
  cases huse : typeUse ns.type m.types f.type ⟨f.params, f.results⟩ with
  | none =>
    have hno : ¬ ∀ r, f.type = some r → (r.type ns.type).isSome := by
      intro hall
      have hsome : (typeUse ns.type m.types f.type ⟨f.params, f.results⟩).isSome := typeUse_isSome.mpr hall
      rw [huse] at hsome
      cases hsome
    obtain ⟨e, he⟩ := htype.2 hno
    rw [he, Func.denote_none huse]
    exact ⟨fun _ => ⟨e, rfl⟩, fun _ => ⟨e, rfl⟩⟩
  | some use =>
    have hyes : ∀ r, f.type = some r → (r.type ns.type).isSome := typeUse_isSome.mp (Option.isSome_of_eq_some huse)
    obtain ⟨q₂, k₂, hat₂, hk₂, h₂⟩ := htype.1 hyes
    have hnext : (start.typed ns.type f.type).nextLocal = 0 := typed_nextLocal ns.type f.type start
    have hparams :=
      groups_go m.nextFunc (m.addExports f.exports m.nextFunc) f.groups (by rw [hnext]; decide) hat₂ hk₂
    rw [hnext, Nat.zero_add] at hparams
    rw [h₂, Func.denote_eq huse]
    dsimp only
    by_cases hfits : f.params.length < 2 ^ 32
    · obtain ⟨q₃, k₃, hat₃, hk₃, h₃⟩ := hparams.1 hfits
      rw [h₃]
      dsimp only
      have hcount : (startHeader ns.type f.type f.groups).nextLocal = f.params.length := by
        simp [startHeader, Parser.FuncHeader.grouped, typed_nextLocal, Func.params]
      have hend := locals_body_read m.nextFunc (m.addExports f.exports m.nextFunc) f.wellFormed f.locals
        (by rw [hcount]; exact hfits) hat₃ hk₃
      rw [hcount] at hend
      exact hend
    · obtain ⟨e, he⟩ := hparams.2 hfits
      rw [he]
      refine ⟨fun h => ?_, fun _ => ⟨e, rfl⟩⟩
      unfold Func.Indexed at h
      omega

end WasmOs.Asm
