import WasmOs.BodyParse
import WasmOs.ParserCalls

/-!
# The parser of the assembler ends

Every round of the parser's loops takes a token, so it ends on every finite list of tokens: with a module,
with a rejection, or with a panic of its arithmetic. The arithmetic is that of numbers inside keywords and
identifiers, of the depth of a list that is skipped, and of the index of the next local.
-/

namespace WasmOs.Asm

/-! ## Tokens the arithmetic can do with -/

def Token.isValType : Token → Bool
  | .keyword kw => (ValType.fromKw kw).isSome
  | _ => false

/-- No nesting and no function is too large for the arithmetic of the parser. -/
structure Small (ts : List Token) : Prop where
  depth : ts.count .lparen + 1 < 2 ^ 31
  locals : ts.countP Token.isValType < 2 ^ 32

theorem Small.of_suffix {ts us : List Token} (h : Small ts) (hsub : us <:+ ts) : Small us := by
  have hcount : us.count .lparen ≤ ts.count .lparen := hsub.sublist.count_le .lparen
  have hcountP : us.countP Token.isValType ≤ ts.countP Token.isValType := hsub.sublist.countP_le
  have hdepth := h.depth
  exact ⟨by omega, Nat.lt_of_le_of_lt hcountP h.locals⟩

theorem Fits.numericName {id : List UInt8} (h : Fits (id.dropWhile (· == 0x24))) : ∃ n, numericName id = .ok n := by
  obtain ⟨n, hn⟩ := h.parseI32 (ε := ParseError)
  exact ⟨asU32 n, by rw [Asm.numericName, hn, bind_ok]⟩

/-! ## What a function leaves -/

namespace Parser

variable {F : FloatOps} {S : Prop} {α β : Type} {ts us : List Token} {ns : Names} {p q : Parser}

theorem At.bump_nil (h : p.At F [] ns) : ∃ q, p.bump F = .ok q ∧ q.At F [] ns := by
  have hahead := h.ahead
  unfold Parser.bump
  cases hu : p.unget with
  | some k =>
    rw [hu] at hahead
    obtain ⟨la, rest, -, heq, -⟩ := hahead
    cases heq
  | none =>
    rw [hu] at hahead
    obtain ⟨-, t', ht'⟩ := hahead
    dsimp only
    rw [ht', bind_ok]
    exact ⟨_, rfl, ⟨⟨rfl, t', Tokenizer.nextToken_end ht'⟩, h.names⟩⟩

theorem left (hsmall : S → Small ts) (hsub : us <:+ ts) : S → Small us := fun s => (hsmall s).of_suffix hsub

/-- The computation ends. It does not panic where `S` holds, and it takes none or more of `ts`. -/
structure Ends (F : FloatOps) (S : Prop) (ts : List Token) (parser : α → Parser) (m : Parse α) : Prop where
  ends : m ≠ .error .hang
  safe : S → m ≠ .error .panic
  left : ∀ a, m = .ok a → ∃ us ns, (parser a).At F us ns ∧ us <:+ ts

theorem Ends.bind_eq {parser : α → Parser} {parser' : β → Parser} {m : Parse α} {f : α → Parse β}
    (hm : Ends F S ts parser m)
    (hf : ∀ a us ns, m = .ok a → (parser a).At F us ns → us <:+ ts → Ends F S us parser' (f a)) :
    Ends F S ts parser' (m >>= f) := by
  obtain ⟨hends, htame, hleft⟩ := hm
  cases m with
  | error e => exact ⟨fun h => hends (by cases h; rfl), fun ht h => htame ht (by cases h; rfl), nofun⟩
  | ok a =>
    obtain ⟨us, ns, hat, hsub⟩ := hleft a rfl
    obtain ⟨hends', htame', hleft'⟩ := hf a us ns rfl hat hsub
    refine ⟨hends', htame', fun b hb => ?_⟩
    obtain ⟨us', ns', hat', hsub'⟩ := hleft' b hb
    exact ⟨us', ns', hat', hsub'.trans hsub⟩

theorem Ends.bind {parser : α → Parser} {parser' : β → Parser} {m : Parse α} {f : α → Parse β}
    (hm : Ends F S ts parser m)
    (hf : ∀ a us ns, (parser a).At F us ns → us <:+ ts → Ends F S us parser' (f a)) :
    Ends F S ts parser' (m >>= f) :=
  hm.bind_eq fun a us ns _ => hf a us ns

theorem Ends.mono {parser : α → Parser} {m : Parse α} (hm : Ends F S us parser m) (hsub : us <:+ ts) :
    Ends F S ts parser m := by
  refine ⟨hm.ends, hm.safe, fun a ha => ?_⟩
  obtain ⟨us', ns, hat, hsub'⟩ := hm.left a ha
  exact ⟨us', ns, hat, hsub'.trans hsub⟩

theorem Ends.ok {parser : α → Parser} {a : α} (h : (parser a).At F ts ns) : Ends F S ts parser (.ok a) :=
  ⟨nofun, fun _ => nofun, fun b hb => by cases hb; exact ⟨ts, ns, h, List.suffix_refl ts⟩⟩

theorem Ends.err {parser : α → Parser} (e : ParseError) : Ends F S ts parser (.error (.err e)) :=
  ⟨nofun, fun _ => nofun, nofun⟩

theorem Ends.step {parser : β → Parser} {m : Parse α} {f : α → Parse β} (hends : m ≠ .error .hang)
    (htame : S → ∃ a, m = .ok a)
    (hf : ∀ a, m = .ok a → Ends F S ts parser (f a)) : Ends F S ts parser (m >>= f) := by
  cases m with
  | ok a => exact hf a rfl
  | error e =>
    refine ⟨fun h => hends (by cases h; rfl), fun h => ?_, nofun⟩
    obtain ⟨a, ha⟩ := htame h
    cases ha

theorem i32Fits_ne_hang (n : Nat) : (i32Fits n : Parse Nat) ≠ .error .hang := by
  unfold i32Fits
  split
  · exact nofun
  · exact nofun

theorem bump_ends (h : p.At F ts ns) : Ends F S ts id (p.bump F) := by
  cases ts with
  | nil =>
    obtain ⟨q, hq, hat⟩ := h.bump_nil
    rw [hq]
    exact .ok hat
  | cons tok ts =>
    obtain ⟨q, hq, hat, -⟩ := h.bump
    rw [hq]
    exact (Ends.ok hat).mono (List.suffix_cons tok ts)

theorem expectLparen_ends (h : p.At F ts ns) : Ends F S ts id (p.expectLparen F) := by
  unfold expectLparen
  split
  · exact bump_ends h
  · exact .err _

theorem expectRparen_ends (h : p.At F ts ns) : Ends F S ts id (p.expectRparen F) := by
  unfold expectRparen
  split
  · exact bump_ends h
  · exact .err _

theorem expectKeyword_ends (h : p.At F ts ns) (kw : List UInt8) : Ends F S ts id (p.expectKeyword F kw) := by
  unfold expectKeyword
  split
  · exact bump_ends h
  · exact .err _

theorem tryIdentifier_ends (h : p.At F ts ns) : Ends F S ts Prod.snd (p.tryIdentifier F) := by
  unfold tryIdentifier
  split
  · exact (bump_ends h).bind fun q us ns hat _ => .ok hat
  · exact .ok h

theorem expectString_ends (h : p.At F ts ns) : Ends F S ts Prod.snd (p.expectString F) := by
  unfold expectString
  split
  · exact (bump_ends h).bind fun q us ns hat _ => .ok hat
  · exact .err _

theorem At.cons {tok : Token} (h : p.At F ts ns) (hla : p.lookahead = some tok) : ∃ us, ts = tok :: us := by
  rw [h.lookahead] at hla
  exact List.head?_eq_some_iff.mp hla

/-! ## Loops over tokens -/

theorem skip_loop_ends (fuel depth : Nat) (h : p.At F ts ns) (hfuel : ts.length < fuel)
    (hdepth : S → depth + ts.count .lparen < 2 ^ 31) : Ends F S ts id (skipRestOfList.loop F fuel depth p) := by
  induction fuel generalizing ts p depth with
  | zero => cases hfuel
  | succ fuel ih =>
    unfold skipRestOfList.loop
    by_cases hzero : depth = 0
    · rw [if_pos hzero]
      exact .ok h
    rw [if_neg hzero]
    split
    · next hla =>
      obtain ⟨us, rfl⟩ := h.cons hla
      obtain ⟨q, hq, hat, -⟩ := h.bump
      rw [List.count_cons_self] at hdepth
      refine Ends.step (i32Fits_ne_hang _) (fun hs => ⟨depth + 1, if_pos ?_⟩) fun d hd => ?_
      · have := hdepth hs
        omega
      · unfold i32Fits at hd
        split at hd
        · cases hd
          rw [hq, bind_ok]
          refine (ih (depth + 1) hat (Nat.lt_of_succ_lt_succ hfuel) fun hs => ?_).mono
            (List.suffix_cons _ us)
          have := hdepth hs
          omega
        · cases hd
    · next hla =>
      obtain ⟨us, rfl⟩ := h.cons hla
      obtain ⟨q, hq, hat, -⟩ := h.bump
      rw [hq, bind_ok]
      refine (ih (depth - 1) hat (Nat.lt_of_succ_lt_succ hfuel) fun hs => ?_).mono
        (List.suffix_cons _ us)
      have := hdepth hs
      rw [List.count_cons_of_ne (by decide)] at this
      omega
    · next tok hlp _ hla =>
      obtain ⟨us, rfl⟩ := h.cons hla
      obtain ⟨q, hq, hat, -⟩ := h.bump
      rw [hq, bind_ok]
      refine (ih depth hat (Nat.lt_of_succ_lt_succ hfuel) fun hs => ?_).mono (List.suffix_cons _ us)
      have := hdepth hs
      rw [List.count_cons_of_ne fun heq : tok = .lparen => hlp (heq ▸ rfl)] at this
      exact this
    · exact .err _

theorem skip_ends (hsmall : S → Small ts) (h : p.At F ts ns) : Ends F S ts id (p.skipRestOfList F) := by
  have hfuel := h.fuel
  refine skip_loop_ends p.fuel 1 h (by omega) fun hs => ?_
  have := (hsmall hs).depth
  omega

theorem valTypes_loop_ends (fuel : Nat) (h : p.At F ts ns) (hfuel : ts.length < fuel) :
    Ends F S ts Prod.snd (valTypes.loop F fuel p) := by
  induction fuel generalizing ts p with
  | zero => cases hfuel
  | succ fuel ih =>
    unfold valTypes.loop
    split
    · next kw hla =>
      split
      · obtain ⟨us, rfl⟩ := h.cons hla
        obtain ⟨q, hq, hat, -⟩ := h.bump
        rw [hq, bind_ok]
        refine Ends.mono (Ends.bind (ih hat (Nat.lt_of_succ_lt_succ hfuel)) fun ⟨vts, r⟩ vs ns hat _ => ?_)
          (List.suffix_cons _ us)
        exact .ok hat
      · exact .ok h
    · exact .ok h

theorem valTypes_ends (h : p.At F ts ns) : Ends F S ts Prod.snd (p.valTypes F) :=
  valTypes_loop_ends p.fuel h (by have := h.fuel; omega)

theorem strings_loop_ends (fuel : Nat) (h : p.At F ts ns) (hfuel : ts.length < fuel) :
    Ends F S ts Prod.snd (strings.loop F fuel p) := by
  induction fuel generalizing ts p with
  | zero => cases hfuel
  | succ fuel ih =>
    unfold strings.loop
    split
    · next s hla =>
      obtain ⟨us, rfl⟩ := h.cons hla
      obtain ⟨q, hq, hat, -⟩ := h.bump
      have hstring : p.expectString F = .ok (unescapeWatString s, q) := by
        unfold expectString
        rw [hla]
        dsimp only
        rw [hq, bind_ok]
      rw [hstring, bind_ok]
      refine Ends.mono (Ends.bind (ih hat (Nat.lt_of_succ_lt_succ hfuel)) fun ⟨bytes, r⟩ vs ns hat _ => ?_)
        (List.suffix_cons _ us)
      exact .ok hat
    · exact .ok h

/-! ## Immediates -/

theorem parseInt_ends (h : p.At F ts ns) : Ends F S ts Prod.snd (p.parseInt F) := by
  unfold parseInt
  split
  · exact (bump_ends h).bind fun q us ns hat _ => .ok hat
  · exact .ok h

theorem parseFloat_ends (h : p.At F ts ns) : Ends F S ts Prod.snd (p.parseFloat F) := by
  unfold parseFloat
  split
  · exact (bump_ends h).bind fun q us ns hat _ => .ok hat
  · exact (bump_ends h).bind fun q us ns hat _ => .ok hat
  · exact .ok h

theorem parseLabelIdx_ends (h : p.At F ts ns) : Ends F S ts Prod.snd (p.parseLabelIdx F) := by
  unfold parseLabelIdx
  split
  · exact (bump_ends h).bind fun q us ns hat _ => .ok hat
  · exact (bump_ends h).bind fun q us ns hat _ => .ok hat
  · exact .ok h

theorem parseFuncIdx_ends (h : p.At F ts ns) : Ends F S ts Prod.snd (p.parseFuncIdx F) := by
  unfold parseFuncIdx
  split
  · exact (bump_ends h).bind fun q us ns hat _ => .ok hat
  · exact (bump_ends h).bind fun q us ns hat _ => .ok hat
  · exact .ok h

theorem tryInt_ends (h : p.At F ts ns) : Ends F S ts Prod.snd (p.tryInt F) := by
  unfold tryInt
  split
  · exact (bump_ends h).bind fun q us ns hat _ => .ok hat
  · exact .ok h

theorem parseLocalOrFuncIdx_ends {kw : List UInt8} {instr : UInt32 → Instr}
    (hop : operators.lookup kw = some (.local instr))
    (h : p.At F ts ns) (hsafe : S → Safe F (.build p kw)) : Ends F S ts Prod.snd (p.parseLocalOrFuncIdx F) := by
  unfold parseLocalOrFuncIdx
  split
  · exact (bump_ends h).bind fun q us ns hat _ => .ok hat
  · next id hla =>
    refine (bump_ends h).bind_eq fun q us ns hq hat _ => ?_
    split
    · exact .ok hat
    · next hname =>
      exact Ends.step (numericName_ne_hang id)
        (fun hs => ((hsafe hs).fits (.localName hop hla hq hname)).numericName) fun idx _ => .ok hat
  · exact .ok h

theorem parseTypeIndex_ends (h : p.At F ts ns) (hsafe : S → Safe F (.typeIndex p)) :
    Ends F S ts Prod.snd (p.parseTypeIndex F) := by
  unfold parseTypeIndex
  split
  · next id hla =>
    refine (bump_ends h).bind_eq fun q us ns hq hat _ => ?_
    unfold resolveTypeName
    split
    · exact .ok hat
    · next hname =>
      exact Ends.step (numericName_ne_hang id)
        (fun hs => ((hsafe hs).fits (.typeName hla hq hname)).numericName) fun idx _ => .ok hat
  · exact (bump_ends h).bind fun q us ns hat _ => .ok hat
  · exact .err _

theorem parseMemarg_loop_ends (fuel : Nat) (offset align : UInt32) (h : p.At F ts ns) (hfuel : ts.length < fuel)
    (hsafe : S → Safe F (.memarg fuel p offset align)) :
    Ends F S ts Prod.snd (parseMemarg.loop F fuel p offset align) := by
  induction fuel generalizing ts p offset align with
  | zero => cases hfuel
  | succ fuel ih =>
    unfold parseMemarg.loop
    split
    · next kw hla =>
      obtain ⟨us, rfl⟩ := h.cons hla
      obtain ⟨q, hq, hat, -⟩ := h.bump
      have hfuel' : us.length < fuel := Nat.lt_of_succ_lt_succ hfuel
      split
      · next digits hoffset =>
        have htext : memargText kw = some digits := by rw [memargText, hoffset]; rfl
        refine Ends.step (parseI32_ne_hang digits) (fun hs => ((hsafe hs).fits (.memarg hla htext)).parseI32)
          fun n hn => ?_
        rw [hq, bind_ok]
        exact (ih _ _ hat hfuel' fun hs => (hsafe hs).call (.offset hla hoffset hn hq)).mono (List.suffix_cons _ us)
      · next digits hoffset halign =>
        have htext : memargText kw = some digits := by rw [memargText, hoffset, halign]; rfl
        refine Ends.step (parseI32_ne_hang digits) (fun hs => ((hsafe hs).fits (.memarg hla htext)).parseI32)
          fun n hn => ?_
        rw [hq, bind_ok]
        exact (ih _ _ hat hfuel' fun hs => (hsafe hs).call (.align hla hoffset halign hn hq)).mono
          (List.suffix_cons _ us)
      · exact .ok h
    · exact .ok h

theorem parseBlockType_ends (h : p.At F ts ns) : Ends F S ts Prod.snd (p.parseBlockType F) := by
  unfold parseBlockType
  by_cases hl : p.lookahead = some .lparen
  · obtain ⟨us, rfl⟩ := h.cons hl
    obtain ⟨q, hq, hat, hu⟩ := h.bump
    rw [if_pos hl, hq, bind_ok]
    by_cases hresult : q.lookahead = some (.keyword (utf8 "result"))
    · rw [if_pos hresult]
      refine Ends.mono ?_ (List.suffix_cons _ us)
      refine (bump_ends hat).bind fun r vs ns hat _ => ?_
      refine (bump_ends hat).bind fun r vs ns hat _ => ?_
      exact (expectRparen_ends hat).bind fun r vs ns hat _ => .ok hat
    · -- the parenthesis is put back
      rw [if_neg hresult]
      exact .ok (hat.ungetLparen hu)
  · rw [if_neg hl]
    exact .ok h

/-! ## Instructions -/

theorem buildInstr_ends {kw : List UInt8} (h : p.At F ts ns) (hsafe : S → Safe F (.build p kw)) :
    Ends F S ts Prod.snd (p.buildInstr F kw) := by
  unfold buildInstr
  split
  · exact .ok h
  · exact .ok h
  · exact (parseInt_ends h).bind fun ⟨n, q⟩ us ns hat _ => .ok hat
  · exact (parseFloat_ends h).bind fun ⟨f, q⟩ us ns hat _ => .ok hat
  · next hop => exact (parseLocalOrFuncIdx_ends hop h hsafe).bind fun ⟨idx, q⟩ us ns hat _ => .ok hat
  · exact (parseFuncIdx_ends h).bind fun ⟨idx, q⟩ us ns hat _ => .ok hat
  · exact (parseLabelIdx_ends h).bind fun ⟨l, q⟩ us ns hat _ => .ok hat
  · next hop =>
    have hfuel := h.fuel
    have hloop := parseMemarg_loop_ends p.fuel 0 0 h (by omega) fun hs => (hsafe hs).call (.memarg hop)
    exact hloop.bind fun ⟨⟨offset, align⟩, q⟩ us ns hat _ => .ok hat
  · exact (parseBlockType_ends h).bind fun ⟨bt, q⟩ us ns hat _ => .ok hat

/-- The mutually recursive functions end with this much fuel. -/
structure InstrEnds (F : FloatOps) (S : Prop) (fuel : Nat) : Prop where
  instrs : ∀ {p ts ns}, (S → Small ts) → (S → Safe F (.instrs fuel p)) → p.At F ts ns → 2 * ts.length < fuel →
    Ends F S ts Prod.snd (parseInstrs F fuel p)
  folded : ∀ {p ts ns}, (S → Small ts) → (S → Safe F (.folded fuel p)) → p.At F ts ns → 2 * ts.length + 1 < fuel →
    Ends F S ts Prod.snd (parseFoldedInstr F fuel p)
  operands : ∀ {p ts ns}, (S → Small ts) → (S → Safe F (.operands fuel p)) → p.At F ts ns → 2 * ts.length < fuel →
    Ends F S ts Prod.snd (parseOperands F fuel p)
  condition : ∀ {p ts ns}, (S → Small ts) → (S → Safe F (.condition fuel p)) → p.At F ts ns → 2 * ts.length < fuel →
    Ends F S ts Prod.snd (parseCondition F fuel p)
  foldedIf : ∀ {p tok ts ns}, (S → Small (tok :: ts)) → (S → Safe F (.foldedIf fuel p)) →
    p.At F (tok :: ts) ns → 2 * ts.length + 1 < fuel →
    Ends F S (tok :: ts) Prod.snd (parseFoldedIf F fuel p)
  foldedBlock : ∀ {p tok ts ns}, (S → Small (tok :: ts)) → (S → Safe F (.foldedBlock fuel p)) →
    p.At F (tok :: ts) ns →
    2 * ts.length + 1 < fuel → Ends F S (tok :: ts) Prod.snd (parseFoldedBlockOrLoop F fuel p)

namespace InstrEnds

variable {fuel : Nat} (ih : InstrEnds F S fuel)
include ih

theorem instrs_succ (hsmall : S → Small ts) (hsafe : S → Safe F (.instrs (fuel + 1) p))
    (h : p.At F ts ns) (hfuel : 2 * ts.length < fuel + 1) : Ends F S ts Prod.snd (parseInstrs F (fuel + 1) p) := by
  unfold parseInstrs
  split
  · exact .ok h
  · exact .ok h
  · next hla =>
    obtain ⟨us, rfl⟩ := h.cons hla
    obtain ⟨q, hq, hat, -⟩ := h.bump
    have hsmall' : S → Small us := left hsmall (List.suffix_cons _ us)
    rw [List.length_cons] at hfuel
    rw [hq, bind_ok]
    refine Ends.mono ?_ (List.suffix_cons _ us)
    have hfolded := ih.folded hsmall' (fun hs => (hsafe hs).call (.instrsFolded hla hq)) hat (by omega)
    refine hfolded.bind_eq fun s vs ns heq hat hvs => ?_
    obtain ⟨folded, r⟩ := s
    have hle := hvs.length_le
    have hinstrs :=
      ih.instrs (left hsmall' hvs) (fun hs => (hsafe hs).call (.behindFolded hla hq heq)) hat (by omega)
    exact hinstrs.bind fun s vs ns hat _ => .ok hat
  · next kw hla =>
    obtain ⟨us, rfl⟩ := h.cons hla
    obtain ⟨q, hq, hat, -⟩ := h.bump
    have hsmall' : S → Small us := left hsmall (List.suffix_cons _ us)
    rw [List.length_cons] at hfuel
    unfold parsePlainInstr
    rw [hla]
    dsimp only
    rw [hq, bind_ok]
    refine Ends.mono ?_ (List.suffix_cons _ us)
    have hbuild := buildInstr_ends hat fun hs => (hsafe hs).call (.instrsPlain hla hq)
    refine hbuild.bind_eq fun s vs ns heq hat hvs => ?_
    obtain ⟨instr, r⟩ := s
    have hle := hvs.length_le
    have hinstrs :=
      ih.instrs (left hsmall' hvs) (fun hs => (hsafe hs).call (.behindPlain hla hq heq)) hat (by omega)
    exact hinstrs.bind fun s vs ns hat _ => .ok hat
  · next tok hlparen hrparen hkeyword hla =>
    obtain ⟨us, rfl⟩ := h.cons hla
    obtain ⟨q, hq, hat, -⟩ := h.bump
    rw [List.length_cons] at hfuel
    rw [hq, bind_ok]
    have hcall : Calls F (.instrs (fuel + 1) p) (.instrs fuel q) := by
      refine .behindOther hla ?_ ?_ (fun kw heq => ?_) hq
      · rintro rfl
        exact hrparen rfl
      · rintro rfl
        exact hlparen rfl
      · subst heq
        exact hkeyword kw rfl
    exact (ih.instrs (left hsmall (List.suffix_cons _ us)) (fun hs => (hsafe hs).call hcall) hat
      (by omega)).mono (List.suffix_cons _ us)

theorem folded_succ (hsmall : S → Small ts) (hsafe : S → Safe F (.folded (fuel + 1) p))
    (h : p.At F ts ns) (hfuel : 2 * ts.length + 1 < fuel + 1) :
    Ends F S ts Prod.snd (parseFoldedInstr F (fuel + 1) p) := by
  unfold parseFoldedInstr
  split
  · next kw hla =>
    obtain ⟨us, rfl⟩ := h.cons hla
    rw [List.length_cons] at hfuel
    by_cases hif : kw = utf8 "if"
    · subst hif
      rw [if_pos rfl]
      exact ih.foldedIf hsmall (fun hs => (hsafe hs).call (.ifFolded hla)) h (by omega)
    rw [if_neg hif]
    by_cases hblock : kw = utf8 "block" ∨ kw = utf8 "loop"
    · rw [if_pos hblock]
      exact ih.foldedBlock hsmall (fun hs => (hsafe hs).call (.block hla hif hblock)) h (by omega)
    rw [if_neg hblock]
    obtain ⟨q, hq, hat, -⟩ := h.bump
    rw [hq, bind_ok]
    refine Ends.mono ?_ (List.suffix_cons _ us)
    have hbuild := buildInstr_ends hat fun hs => (hsafe hs).call (.foldedPlain hla hif hblock hq)
    refine hbuild.bind_eq fun s vs ns heq hat hvs => ?_
    obtain ⟨op, r⟩ := s
    have hle := hvs.length_le
    have hsmall' : S → Small vs := left hsmall (hvs.trans (List.suffix_cons _ us))
    have hoperands :=
      ih.operands hsmall' (fun hs => (hsafe hs).call (.operands hla hif hblock hq heq)) hat (by omega)
    refine hoperands.bind fun s vs ns hat _ => ?_
    obtain ⟨sub, r⟩ := s
    exact (expectRparen_ends hat).bind fun r vs ns hat _ => .ok hat
  · exact (skip_ends hsmall h).bind fun r vs ns hat _ => .ok hat

theorem operands_succ (hsmall : S → Small ts) (hsafe : S → Safe F (.operands (fuel + 1) p))
    (h : p.At F ts ns) (hfuel : 2 * ts.length < fuel + 1) :
    Ends F S ts Prod.snd (parseOperands F (fuel + 1) p) := by
  unfold parseOperands
  by_cases hl : p.lookahead = some .lparen
  · obtain ⟨us, rfl⟩ := h.cons hl
    obtain ⟨q, hq, hat, -⟩ := h.bump
    have hsmall' : S → Small us := left hsmall (List.suffix_cons _ us)
    rw [List.length_cons] at hfuel
    rw [if_pos hl, hq, bind_ok]
    refine Ends.mono ?_ (List.suffix_cons _ us)
    have hfolded := ih.folded hsmall' (fun hs => (hsafe hs).call (.operand hl hq)) hat (by omega)
    refine hfolded.bind_eq fun s vs ns heq hat hvs => ?_
    obtain ⟨si, r⟩ := s
    have hle := hvs.length_le
    have hoperands :=
      ih.operands (left hsmall' hvs) (fun hs => (hsafe hs).call (.nextOperand hl hq heq)) hat (by omega)
    exact hoperands.bind fun s vs ns hat _ => .ok hat
  · rw [if_neg hl]
    exact .ok h

theorem condition_succ (hsmall : S → Small ts) (hsafe : S → Safe F (.condition (fuel + 1) p))
    (h : p.At F ts ns) (hfuel : 2 * ts.length < fuel + 1) :
    Ends F S ts Prod.snd (parseCondition F (fuel + 1) p) := by
  unfold parseCondition
  by_cases hl : p.lookahead = some .lparen
  · obtain ⟨us, rfl⟩ := h.cons hl
    obtain ⟨q, hq, hat, -⟩ := h.bump
    have hsmall' : S → Small us := left hsmall (List.suffix_cons _ us)
    rw [List.length_cons] at hfuel
    rw [if_pos hl, hq, bind_ok]
    refine Ends.mono ?_ (List.suffix_cons _ us)
    by_cases hthen : q.lookahead = some (.keyword (utf8 "then"))
    · rw [if_pos hthen]
      refine (bump_ends hat).bind_eq fun r vs ns hr hat hvs => ?_
      have hle := hvs.length_le
      have hinstrs :=
        ih.instrs (left hsmall' hvs) (fun hs => (hsafe hs).call (.thenBody hl hq hthen hr)) hat (by omega)
      refine hinstrs.bind fun s vs ns hat _ => ?_
      obtain ⟨thenInstrs, r⟩ := s
      exact (expectRparen_ends hat).bind fun r vs ns hat _ => .ok hat
    · rw [if_neg hthen]
      have hfolded :=
        ih.folded hsmall' (fun hs => (hsafe hs).call (.conditionFolded hl hq hthen)) hat (by omega)
      refine hfolded.bind_eq fun s vs ns heq hat hvs => ?_
      obtain ⟨sub, r⟩ := s
      have hle := hvs.length_le
      have hcondition :=
        ih.condition (left hsmall' hvs) (fun hs => (hsafe hs).call (.nextCondition hl hq hthen heq))
          hat (by omega)
      exact hcondition.bind fun s vs ns hat _ => .ok hat
  · rw [if_neg hl]
    exact .ok h

theorem foldedIf_succ {tok : Token} (hsmall : S → Small (tok :: ts)) (hsafe : S → Safe F (.foldedIf (fuel + 1) p))
    (h : p.At F (tok :: ts) ns) (hfuel : 2 * ts.length + 1 < fuel + 1) :
    Ends F S (tok :: ts) Prod.snd (parseFoldedIf F (fuel + 1) p) := by
  obtain ⟨q, hq, hat, -⟩ := h.bump
  have hsmall' : S → Small ts := left hsmall (List.suffix_cons _ ts)
  unfold parseFoldedIf
  rw [hq, bind_ok]
  refine Ends.mono ?_ (List.suffix_cons _ ts)
  refine (tryIdentifier_ends hat).bind_eq fun s us ns hname hat hus => ?_
  obtain ⟨name, r⟩ := s
  refine (parseBlockType_ends hat).bind_eq fun s vs ns hbt hat hvs => ?_
  obtain ⟨bt, r⟩ := s
  have hle := (hvs.trans hus).length_le
  have hcondition :=
    ih.condition (left hsmall' (hvs.trans hus)) (fun hs => (hsafe hs).call (.condition hq hname hbt))
      hat (by omega)
  refine hcondition.bind_eq fun s ws ns hcond hat hws => ?_
  obtain ⟨⟨cond, thenInstrs⟩, r⟩ := s
  have hsmall' : S → Small ws := left hsmall' (hws.trans (hvs.trans hus))
  have hle := (hws.trans (hvs.trans hus)).length_le
  dsimp only
  by_cases hl : r.lookahead = some .lparen
  · obtain ⟨xs, rfl⟩ := hat.cons hl
    obtain ⟨t, ht, hat, -⟩ := hat.bump
    have hsmall' : S → Small xs := left hsmall' (List.suffix_cons _ xs)
    rw [List.length_cons] at hle
    rw [if_pos hl, ht, bind_ok]
    refine Ends.mono ?_ (List.suffix_cons _ xs)
    by_cases helse : t.lookahead = some (.keyword (utf8 "else"))
    · rw [if_pos helse]
      refine (bump_ends hat).bind_eq fun u us ns hu hat hus => ?_
      have hle := hus.length_le
      have hcall : Calls F (.foldedIf (fuel + 1) p) (.instrs fuel u) :=
        .elseBody hq hname hbt hcond hl ht helse hu
      refine (ih.instrs (left hsmall' hus) (fun hs => (hsafe hs).call hcall) hat (by omega)).bind
        fun s us ns hat _ => ?_
      obtain ⟨elseInstrs, r⟩ := s
      refine (expectRparen_ends hat).bind fun r us ns hat _ => ?_
      exact (expectRparen_ends hat).bind fun r us ns hat _ => .ok hat
    · rw [if_neg helse]
      refine (skip_ends hsmall' hat).bind fun r us ns hat _ => ?_
      exact (expectRparen_ends hat).bind fun r us ns hat _ => .ok hat
  · rw [if_neg hl]
    exact (expectRparen_ends hat).bind fun r us ns hat _ => .ok hat

theorem foldedBlock_succ {tok : Token} (hsmall : S → Small (tok :: ts))
    (hsafe : S → Safe F (.foldedBlock (fuel + 1) p))
    (h : p.At F (tok :: ts) ns) (hfuel : 2 * ts.length + 1 < fuel + 1) :
    Ends F S (tok :: ts) Prod.snd (parseFoldedBlockOrLoop F (fuel + 1) p) := by
  obtain ⟨q, hq, hat, -⟩ := h.bump
  have hsmall' : S → Small ts := left hsmall (List.suffix_cons _ ts)
  unfold parseFoldedBlockOrLoop
  dsimp only
  rw [hq, bind_ok]
  refine Ends.mono ?_ (List.suffix_cons _ ts)
  refine (tryIdentifier_ends hat).bind_eq fun s us ns hname hat hus => ?_
  obtain ⟨name, r⟩ := s
  refine (parseBlockType_ends hat).bind_eq fun s vs ns hbt hat hvs => ?_
  obtain ⟨bt, r⟩ := s
  have hle := (hvs.trans hus).length_le
  have hinstrs :=
    ih.instrs (left hsmall' (hvs.trans hus)) (fun hs => (hsafe hs).call (.blockBody hq hname hbt))
      hat (by omega)
  refine hinstrs.bind fun s ws ns hat _ => ?_
  obtain ⟨body, r⟩ := s
  exact (expectRparen_ends hat).bind fun r vs ns hat _ => .ok hat

end InstrEnds

theorem instr_ends (F : FloatOps) (S : Prop) (fuel : Nat) : InstrEnds F S fuel := by
  induction fuel with
  | zero =>
    exact ⟨fun _ _ _ h => absurd h (Nat.not_lt_zero _), fun _ _ _ h => absurd h (Nat.not_lt_zero _),
      fun _ _ _ h => absurd h (Nat.not_lt_zero _), fun _ _ _ h => absurd h (Nat.not_lt_zero _),
      fun _ _ _ h => absurd h (Nat.not_lt_zero _), fun _ _ _ h => absurd h (Nat.not_lt_zero _)⟩
  | succ fuel ih =>
    exact ⟨ih.instrs_succ, ih.folded_succ, ih.operands_succ, ih.condition_succ, ih.foldedIf_succ,
      ih.foldedBlock_succ⟩

/-! ## Types -/

theorem At.rename (h : p.At F ts ns) (ahead : q.lookahead = p.lookahead ∧ q.unget = p.unget ∧
      q.tokenizer = p.tokenizer) :
    q.At F ts q.names := by
  obtain ⟨hla, hu, ht⟩ := ahead
  refine ⟨?_, rfl⟩
  rw [hla, hu, ht]
  exact h.ahead

theorem parseParamOrResultGroup_ends (hsmall : S → Small ts) (h : p.At F ts ns) (ft : FuncType) :
    Ends F S ts Prod.snd (p.parseParamOrResultGroup F ft) := by
  unfold parseParamOrResultGroup
  by_cases hparam : p.lookahead = some (.keyword (utf8 "param"))
  · rw [if_pos hparam]
    refine (bump_ends h).bind fun q us ns hat _ => ?_
    refine (tryIdentifier_ends hat).bind fun ⟨_, q⟩ us ns hat _ => ?_
    refine (valTypes_ends hat).bind fun ⟨vts, q⟩ us ns hat _ => ?_
    exact (expectRparen_ends hat).bind fun q us ns hat _ => .ok hat
  rw [if_neg hparam]
  by_cases hresult : p.lookahead = some (.keyword (utf8 "result"))
  · rw [if_pos hresult]
    refine (bump_ends h).bind fun q us ns hat _ => ?_
    refine (valTypes_ends hat).bind fun ⟨vts, q⟩ us ns hat _ => ?_
    exact (expectRparen_ends hat).bind fun q us ns hat _ => .ok hat
  rw [if_neg hresult]
  exact (skip_ends hsmall h).bind fun q us ns hat _ => .ok hat

theorem typeGroups_loop_ends (fuel : Nat) (hsmall : S → Small ts) (h : p.At F ts ns)
    (hfuel : ts.length < fuel) (ft : FuncType) :
    Ends F S ts Prod.snd (typeGroups.loop F fuel p ft) := by
  induction fuel generalizing ts p ns ft with
  | zero => cases hfuel
  | succ fuel ih =>
    unfold typeGroups.loop
    by_cases hl : p.lookahead = some .lparen
    · obtain ⟨us, rfl⟩ := h.cons hl
      obtain ⟨q, hq, hat⟩ := h.expectLparen
      have hsmall' : S → Small us := left hsmall (List.suffix_cons _ us)
      rw [List.length_cons] at hfuel
      rw [if_pos hl, hq, bind_ok]
      refine Ends.mono ?_ (List.suffix_cons _ us)
      refine (parseParamOrResultGroup_ends hsmall' hat ft).bind fun ⟨ft, r⟩ vs ns hat hvs => ?_
      have hle := hvs.length_le
      exact ih (left hsmall' hvs) hat (by omega) ft
    · rw [if_neg hl]
      exact .ok h

theorem parseFuncTypeFields_ends (hsmall : S → Small ts) (h : p.At F ts ns) :
    Ends F S ts Prod.snd (p.parseFuncTypeFields F) :=
  typeGroups_loop_ends p.fuel hsmall h (by have := h.fuel; omega) _

theorem finishInline_ends (hsmall : S → Small ts) (h : p.At F ts ns) :
    Ends F S ts Prod.snd (p.finishInlineFuncTypeAfterLparen F) := by
  unfold finishInlineFuncTypeAfterLparen
  refine (parseParamOrResultGroup_ends hsmall h _).bind fun ⟨ft, q⟩ us ns hat hus => ?_
  have hfuel : 2 * us.length + 4 ≤ q.fuel := hat.fuel
  exact typeGroups_loop_ends q.fuel (left hsmall hus) hat (by omega) ft

theorem parseTypeUse_ends (hsmall : S → Small ts) (h : p.At F ts ns) (types : List FuncType)
    (hsafe : S → Safe F (.typeUse p types)) :
    Ends F S ts Prod.snd (p.parseTypeUse F types) := by
  unfold parseTypeUse
  by_cases hl : p.lookahead = some .lparen
  · rw [if_pos hl]
    refine (expectLparen_ends h).bind_eq fun q us ns hq hat hus => ?_
    by_cases htype : q.lookahead = some (.keyword (utf8 "type"))
    · rw [if_pos htype]
      refine (bump_ends hat).bind_eq fun r vs ns hr hat hvs => ?_
      refine (parseTypeIndex_ends hat fun hs => (hsafe hs).call (.typeUse hl hq htype hr)).bind
        fun ⟨idx, q⟩ ws ns hat hws => ?_
      refine (expectRparen_ends hat).bind fun q xs ns hat hxs => ?_
      have hsmall' : S → Small xs := left hsmall (hxs.trans (hws.trans (hvs.trans hus)))
      exact (parseFuncTypeFields_ends hsmall' hat).bind fun ⟨_, q⟩ us ns hat _ => .ok hat
    · rw [if_neg htype]
      exact (finishInline_ends (left hsmall hus) hat).bind fun ⟨ft, q⟩ us ns hat _ => .ok hat
  · rw [if_neg hl]
    exact .ok h

theorem parseTypeDef_ends (hsmall : S → Small ts) (h : p.At F ts ns) (m : Module) :
    Ends F S ts Prod.snd (p.parseTypeDef F m) := by
  unfold parseTypeDef
  refine (bump_ends h).bind fun q us ns hat hus => ?_
  refine (tryIdentifier_ends hat).bind fun ⟨name, q⟩ vs ns hat hvs => ?_
  refine (expectLparen_ends hat).bind fun q ws ns hat hws => ?_
  refine (expectKeyword_ends hat _).bind fun q xs ns hat hxs => ?_
  have hsmall' : S → Small xs := left hsmall (hxs.trans (hws.trans (hvs.trans hus)))
  refine (parseFuncTypeFields_ends hsmall' hat).bind fun ⟨ft, q⟩ us ns hat _ => ?_
  refine (expectRparen_ends hat).bind fun q us ns hat _ => ?_
  have hnamed : (q.nameType name (UInt32.ofNat m.types.length)).At F us _ := hat.rename ⟨rfl, rfl, rfl⟩
  exact (expectRparen_ends hnamed).bind fun q us ns hat _ => .ok hat

theorem parseImport_ends (hsmall : S → Small ts) (h : p.At F ts ns) (m : Module)
    (hkw : p.lookahead = some (.keyword (utf8 "import")))
    (hsafe : S → Safe F (.field p m)) : Ends F S ts Prod.snd (p.parseImport F m) := by
  unfold parseImport
  refine (bump_ends h).bind_eq fun q us ns h₁ hat hus => ?_
  refine (expectString_ends hat).bind_eq fun ⟨modBytes, q⟩ vs ns h₂ hat hvs => ?_
  refine (expectString_ends hat).bind_eq fun ⟨nameBytes, q⟩ ws ns h₃ hat hws => ?_
  refine (expectLparen_ends hat).bind_eq fun q xs ns h₄ hat hxs => ?_
  have hsmall' : S → Small xs := left hsmall (hxs.trans (hws.trans (hvs.trans hus)))
  by_cases hfunc : q.lookahead = some (.keyword (utf8 "func"))
  · rw [if_pos hfunc]
    refine (bump_ends hat).bind_eq fun q us ns h₅ hat hus => ?_
    refine (tryIdentifier_ends hat).bind_eq fun ⟨name, q⟩ vs ns h₆ hat hvs => ?_
    have hnamed : (q.nameFunc name (UInt32.ofNat m.imports.length)).At F vs _ := hat.rename ⟨rfl, rfl, rfl⟩
    have huse := parseTypeUse_ends (left hsmall' (hvs.trans hus)) hnamed m.types fun hs =>
      (hsafe hs).call (.importType hkw h₁ h₂ h₃ h₄ hfunc h₅ h₆)
    refine huse.bind fun ⟨⟨types, typeIdx⟩, q⟩ us ns hat _ => ?_
    refine (expectRparen_ends hat).bind fun q us ns hat _ => ?_
    exact (expectRparen_ends hat).bind fun q us ns hat _ => .ok hat
  · rw [if_neg hfunc]
    exact (skip_ends hsmall' hat).bind fun q us ns hat _ => .ok hat

/-! ## Memories, exports and data -/

theorem parseMemoryLimits_ends (h : p.At F ts ns) (m : Module) :
    Ends F S ts Prod.snd (p.parseMemoryLimits F m) := by
  unfold parseMemoryLimits
  refine (tryInt_ends h).bind fun ⟨min, q⟩ us ns hat _ => ?_
  refine (tryInt_ends hat).bind fun ⟨max, q⟩ us ns hat _ => ?_
  exact (expectRparen_ends hat).bind fun q us ns hat _ => .ok hat

theorem parseMemory_ends (hsmall : S → Small ts) (h : p.At F ts ns) (m : Module) :
    Ends F S ts Prod.snd (p.parseMemory F m) := by
  unfold parseMemory
  refine (bump_ends h).bind fun q us ns hat hus => ?_
  refine (tryIdentifier_ends hat).bind fun ⟨_, q⟩ vs ns hat hvs => ?_
  have hsmall' : S → Small vs := left hsmall (hvs.trans hus)
  dsimp only
  by_cases hl : q.lookahead = some .lparen
  · rw [if_pos hl]
    refine (bump_ends hat).bind fun q us ns hat hus => ?_
    by_cases himport : q.lookahead = some (.keyword (utf8 "import"))
    · rw [if_pos himport]
      refine (skip_ends (left hsmall' hus) hat).bind fun q us ns hat _ => ?_
      exact (expectRparen_ends hat).bind fun q us ns hat _ => .ok hat
    · rw [if_neg himport]
      exact (skip_ends (left hsmall' hus) hat).bind fun q us ns hat _ => parseMemoryLimits_ends hat m
  · rw [if_neg hl]
    exact parseMemoryLimits_ends hat m

theorem parseExport_ends (hsmall : S → Small ts) (h : p.At F ts ns) (m : Module) :
    Ends F S ts Prod.snd (p.parseExport F m) := by
  unfold parseExport
  refine (bump_ends h).bind fun q us ns hat hus => ?_
  refine (expectString_ends hat).bind fun ⟨nameBytes, q⟩ vs ns hat hvs => ?_
  refine (expectLparen_ends hat).bind fun q ws ns hat hws => ?_
  split
  · refine (bump_ends hat).bind fun q us ns hat _ => ?_
    refine (parseFuncIdx_ends hat).bind fun ⟨index, q⟩ us ns hat _ => ?_
    refine (expectRparen_ends hat).bind fun q us ns hat _ => ?_
    exact (expectRparen_ends hat).bind fun q us ns hat _ => .ok hat
  · refine (skip_ends (left hsmall (hws.trans (hvs.trans hus))) hat).bind fun q us ns hat _ => ?_
    exact (expectRparen_ends hat).bind fun q us ns hat _ => .ok hat

theorem dataStrings_ends (h : p.At F ts ns) (m : Module) (offset : BitVec 32) : Ends F S ts Prod.snd (do
      let (bytes, p) ← strings.loop F p.fuel p
      let p ← p.expectRparen F
      .ok ({ m with data := m.data ++ [⟨offset, bytes⟩] }, p) : Parse (Module × Parser)) := by
  have hfuel := h.fuel
  refine (strings_loop_ends p.fuel h (by omega)).bind fun r us ns hat _ => ?_
  exact (expectRparen_ends hat).bind fun q us ns hat _ => .ok hat

theorem dataConst_ends (h : p.At F ts ns) (m : Module) : Ends F S ts Prod.snd (do
      let p ← p.expectKeyword F (utf8 "i32.const")
      let (n, p) ← p.parseInt F
      let p ← p.expectRparen F
      let (bytes, p) ← strings.loop F p.fuel p
      let p ← p.expectRparen F
      .ok ({ m with data := m.data ++ [⟨n, bytes⟩] }, p) : Parse (Module × Parser)) := by
  refine (expectKeyword_ends h _).bind fun q us ns hat _ => ?_
  refine (parseInt_ends hat).bind fun r us ns hat _ => ?_
  exact (expectRparen_ends hat).bind fun q us ns hat _ => dataStrings_ends hat m r.1

theorem parseData_ends (h : p.At F ts ns) (m : Module) : Ends F S ts Prod.snd (p.parseData F m) := by
  unfold parseData
  refine (bump_ends h).bind fun q us ns hat _ => ?_
  refine (tryInt_ends hat).bind fun r us ns hat _ => ?_
  obtain ⟨_, q⟩ := r
  dsimp only
  by_cases hl : q.lookahead = some .lparen
  · rw [if_pos hl]
    refine (bump_ends hat).bind fun q us ns hat _ => ?_
    by_cases hoffset : q.lookahead = some (.keyword (utf8 "offset"))
    · rw [if_pos hoffset]
      refine (bump_ends hat).bind fun q us ns hat _ => ?_
      exact (bump_ends hat).bind fun q us ns hat _ => dataConst_ends hat m
    · rw [if_neg hoffset]
      exact dataConst_ends hat m
  · rw [if_neg hl]
    exact dataStrings_ends hat m 0

/-! ## Functions -/

theorem nextU32_ne_hang (n : Nat) : nextU32 n ≠ .error .hang := by
  unfold nextU32
  split
  · exact nofun
  · exact nofun

theorem nextU32_eq_ok {n next : Nat} (h : nextU32 n = .ok next) : next = n + 1 := by
  unfold nextU32 at h
  split at h
  · cases h
    rfl
  · cases h

/-- The types ahead are enough for the indices that will be given out. -/
def LocalsLeft (S : Prop) (ts : List Token) (next : Nat) : Prop := S → next + ts.countP Token.isValType < 2 ^ 32

theorem LocalsLeft.of_suffix {next : Nat} (h : LocalsLeft S ts next) (hsub : us <:+ ts) : LocalsLeft S us next := by
  intro hs
  have hcount : us.countP Token.isValType ≤ ts.countP Token.isValType := hsub.sublist.countP_le
  have := h hs
  omega

theorem LocalsLeft.next {kw : List UInt8} {next next' : Nat} (h : LocalsLeft S (.keyword kw :: ts) next)
    (hkw : (ValType.fromKw kw).isSome) (hnext : nextU32 next = .ok next') : LocalsLeft S ts next' := by
  intro hs
  have hlt := h hs
  rw [List.countP_cons_of_pos (show Token.isValType (.keyword kw) = true from hkw)] at hlt
  rw [nextU32_eq_ok hnext]
  omega

theorem LocalsLeft.nextU32 {kw : List UInt8} {next : Nat} (h : LocalsLeft S (.keyword kw :: ts) next)
    (hkw : (ValType.fromKw kw).isSome) (hs : S) : ∃ next', nextU32 next = .ok next' := by
  have hlt := h hs
  rw [List.countP_cons_of_pos (show Token.isValType (.keyword kw) = true from hkw)] at hlt
  exact ⟨next + 1, if_pos (by omega)⟩

/-- What reads the types of a group leaves enough of them for the indices after it. -/
structure Declares (F : FloatOps) (S : Prop) (ts : List Token) (m : Parse ((List ValType × Nat) × Parser)) :
    Prop extends Ends F S ts Prod.snd m where
  locals : ∀ {vts next q us ns}, m = .ok ((vts, next), q) → q.At F us ns → LocalsLeft S us next

theorem Declares.ok (h : p.At F ts ns) {vts : List ValType} {next : Nat} (hleft : LocalsLeft S ts next) :
    Declares F S ts (.ok ((vts, next), p)) := by
  refine ⟨.ok h, fun heq hat => ?_⟩
  cases heq
  rw [← h.unique hat]
  exact hleft

theorem unnamed_loop_declares (fuel next : Nat) (h : p.At F ts ns) (hfuel : ts.length < fuel)
    (hleft : LocalsLeft S ts next) :
    Declares F S ts (unnamed.loop F fuel p next) := by
  induction fuel generalizing ts p next with
  | zero => cases hfuel
  | succ fuel ih =>
    unfold unnamed.loop
    split
    · next kw hla =>
      split
      · next vt hvt =>
        have hkw : (ValType.fromKw kw).isSome := Option.isSome_of_eq_some hvt
        obtain ⟨us, rfl⟩ := h.cons hla
        obtain ⟨q, hq, hat, -⟩ := h.bump
        have hrest : ∀ n, nextU32 next = .ok n → Declares F S us (unnamed.loop F fuel q n) := fun n hn =>
          ih n hat (Nat.lt_of_succ_lt_succ hfuel) (hleft.next hkw hn)
        rw [hq]
        refine ⟨Ends.step (nextU32_ne_hang next) (hleft.nextU32 hkw) fun n hn => ?_, fun heq hat => ?_⟩
        · exact Ends.mono ((hrest n hn).bind fun ⟨⟨vts, n⟩, r⟩ vs ns hat _ => .ok hat) (List.suffix_cons _ us)
        · obtain ⟨n, hn, heq⟩ := bind_eq_ok.mp heq
          rw [bind_ok] at heq
          obtain ⟨⟨⟨vts', n'⟩, r'⟩, hloop, heq⟩ := bind_eq_ok.mp heq
          cases heq
          exact (hrest n hn).locals hloop hat
      · exact .ok h hleft
    · exact .ok h hleft

theorem named_declares (name : Option (List UInt8)) (h : p.At F ts ns) {next : Nat} (hleft : LocalsLeft S ts next) :
    Declares F S ts (match name with
      | some name =>
        match p.lookahead with
        | some (.keyword kw) =>
          match ValType.fromKw kw with
          | some vt => do
            let p := { p with localNames := p.localNames ++ [(name, UInt32.ofNat next)] }
            let next ← nextU32 next
            let p ← p.bump F
            .ok (([vt], next), p)
          | none => .ok (([], next), p)
        | _ => .ok (([], next), p)
      | none => unnamed.loop F p.fuel p next) := by
  split
  · next name =>
    split
    · next kw hla =>
      split
      · next vt hvt =>
        have hkw : (ValType.fromKw kw).isSome := Option.isSome_of_eq_some hvt
        obtain ⟨vs, rfl⟩ := h.cons hla
        have hnamed : Parser.At F { p with localNames := p.localNames ++ [(name, UInt32.ofNat next)] } _ _ :=
          h.rename ⟨rfl, rfl, rfl⟩
        obtain ⟨r, hr, hat, -⟩ := hnamed.bump
        dsimp only
        rw [hr]
        refine ⟨Ends.step (nextU32_ne_hang next) (hleft.nextU32 hkw) fun n hn => ?_, fun heq hat' => ?_⟩
        · exact (Ends.ok hat).mono (List.suffix_cons _ vs)
        · obtain ⟨n, hn, heq⟩ := bind_eq_ok.mp heq
          cases heq
          rw [← hat.unique hat']
          exact hleft.next hkw hn
      · exact .ok h hleft
    · exact .ok h hleft
  · have hfuel := h.fuel
    exact unnamed_loop_declares p.fuel next h (by omega) hleft

theorem parseDeclared_declares (h : p.At F ts ns) {next : Nat} (hleft : LocalsLeft S ts next) :
    Declares F S ts (p.parseDeclared F next) := by
  have hid : Ends F S ts Prod.snd (p.tryIdentifier F) := tryIdentifier_ends h
  unfold parseDeclared
  refine ⟨hid.bind fun r us ns hat hus => (named_declares r.1 hat (hleft.of_suffix hus)).toEnds, fun heq hat => ?_⟩
  obtain ⟨⟨name, q⟩, hq, heq⟩ := bind_eq_ok.mp heq
  obtain ⟨us, ns, hat', hus⟩ := hid.left _ hq
  exact (named_declares name hat' (hleft.of_suffix hus)).locals heq hat

theorem finishFunc_ends (h : p.At F ts ns) (m : Module) (header : FuncHeader) (body : List Instr) :
    Ends F S ts Prod.snd (p.finishFunc F m header body) := by
  unfold finishFunc
  exact (expectRparen_ends h).bind fun q us ns hat _ => .ok hat

theorem intern_nextLocal (header : FuncHeader) (m : Module) : (header.intern m).1.nextLocal = header.nextLocal := by
  unfold FuncHeader.intern
  split
  · rfl
  · rfl

theorem parseInstrs_ends (hsmall : S → Small ts) (h : p.At F ts ns) (hsafe : S → Safe F (.instrs p.fuel p)) :
    Ends F S ts Prod.snd (parseInstrs F p.fuel p) :=
  (instr_ends F S p.fuel).instrs hsmall hsafe h (by have := h.fuel; omega)

theorem parseFoldedInstr_ends (hsmall : S → Small ts) (h : p.At F ts ns) (hsafe : S → Safe F (.folded p.fuel p)) :
    Ends F S ts Prod.snd (parseFoldedInstr F p.fuel p) :=
  (instr_ends F S p.fuel).folded hsmall hsafe h (by have := h.fuel; omega)

theorem parseFuncDef_loop_ends (fidx : UInt32) (fuel : Nat) (hsmall : S → Small ts) (h : p.At F ts ns)
    (hfuel : ts.length < fuel) (m : Module) (header : FuncHeader) (hleft : LocalsLeft S ts header.nextLocal)
    (hsafe : S → Safe F (.header fidx fuel p m header)) :
    Ends F S ts Prod.snd (parseFuncDef.loop F fidx fuel p m header) := by
  induction fuel generalizing ts p ns m header with
  | zero => cases hfuel
  | succ fuel ih =>
    unfold parseFuncDef.loop
    by_cases hl : p.lookahead = some .lparen
    · obtain ⟨us, rfl⟩ := h.cons hl
      obtain ⟨q, hq, hat, -⟩ := h.bump
      have hsmall' : S → Small us := left hsmall (List.suffix_cons _ us)
      have hleft' := hleft.of_suffix (List.suffix_cons _ us)
      rw [List.length_cons] at hfuel
      rw [if_pos hl, hq, bind_ok]
      refine Ends.mono ?_ (List.suffix_cons _ us)
      -- a later round begins at a suffix of the tokens behind the parenthesis
      have hround : ∀ {r vs ns} m' header', vs <:+ us → Parser.At F r vs ns → LocalsLeft S vs header'.nextLocal →
          Calls F (.header fidx (fuel + 1) p m header) (.header fidx fuel r m' header') →
          Ends F S vs Prod.snd (parseFuncDef.loop F fidx fuel r m' header') := by
        intro r vs ns m' header' hvs hat hleft hcall
        have hle := hvs.length_le
        exact ih (left hsmall' hvs) hat (by omega) m' header' hleft fun hs => (hsafe hs).call hcall
      by_cases hexport : q.lookahead = some (.keyword (utf8 "export"))
      · rw [if_pos hexport]
        refine (bump_ends hat).bind_eq fun r vs ns h₂ hat hvs => ?_
        refine (expectString_ends hat).bind_eq fun v ws ns h₃ hat hws => ?_
        obtain ⟨exportName, r⟩ := v
        refine (expectRparen_ends hat).bind_eq fun r xs ns h₄ hat hxs => ?_
        have hsuffix := hxs.trans (hws.trans hvs)
        exact hround _ header hsuffix hat (hleft'.of_suffix hsuffix) (.headerExport hl hq hexport h₂ h₃ h₄)
      rw [if_neg hexport]
      by_cases himport : q.lookahead = some (.keyword (utf8 "import"))
      · rw [if_pos himport]
        refine (bump_ends hat).bind fun q vs ns hat _ => ?_
        refine (expectString_ends hat).bind fun v ws ns hat _ => ?_
        obtain ⟨modBytes, q⟩ := v
        refine (expectString_ends hat).bind fun v ws ns hat _ => ?_
        obtain ⟨nameBytes, q⟩ := v
        refine (expectRparen_ends hat).bind fun q xs ns hat _ => ?_
        exact (expectRparen_ends hat).bind fun q us ns hat _ => .ok hat
      rw [if_neg himport]
      by_cases htype : q.lookahead = some (.keyword (utf8 "type"))
      · rw [if_pos htype]
        refine (bump_ends hat).bind_eq fun r vs ns h₂ hat hvs => ?_
        have hindex := parseTypeIndex_ends hat fun hs => (hsafe hs).call (.headerType hl hq htype h₂)
        refine hindex.bind_eq fun v ws ns h₃ hat hws => ?_
        obtain ⟨idx, r⟩ := v
        refine (expectRparen_ends hat).bind_eq fun r xs ns h₄ hat hxs => ?_
        have hsuffix := hxs.trans (hws.trans hvs)
        exact hround m _ hsuffix hat (hleft'.of_suffix hsuffix) (.typed hl hq htype h₂ h₃ h₄)
      rw [if_neg htype]
      by_cases hparam : q.lookahead = some (.keyword (utf8 "param"))
      · rw [if_pos hparam]
        refine (bump_ends hat).bind_eq fun r vs ns h₂ hat hvs => ?_
        have hdecl := parseDeclared_declares hat (hleft'.of_suffix hvs)
        refine hdecl.bind_eq fun v ws ns h₃ hat hws => ?_
        obtain ⟨⟨vts, next⟩, r⟩ := v
        refine (expectRparen_ends hat).bind_eq fun r' xs ns' h₄ hat' hxs => ?_
        exact hround m _ (hxs.trans (hws.trans hvs)) hat' ((hdecl.locals h₃ hat).of_suffix hxs)
          (.headerParam hl hq hparam h₂ h₃ h₄)
      rw [if_neg hparam]
      by_cases hresult : q.lookahead = some (.keyword (utf8 "result"))
      · rw [if_pos hresult]
        refine (bump_ends hat).bind_eq fun r vs ns h₂ hat hvs => ?_
        refine (valTypes_ends hat).bind_eq fun v ws ns h₃ hat hws => ?_
        obtain ⟨vts, r⟩ := v
        refine (expectRparen_ends hat).bind_eq fun r xs ns h₄ hat hxs => ?_
        have hsuffix := hxs.trans (hws.trans hvs)
        exact hround m _ hsuffix hat (hleft'.of_suffix hsuffix) (.headerResult hl hq hresult h₂ h₃ h₄)
      rw [if_neg hresult]
      have hnext := intern_nextLocal header m
      cases hintern : header.intern m with
      | mk header' m' =>
      rw [hintern] at hnext
      change header'.nextLocal = header.nextLocal at hnext
      by_cases hlocal : q.lookahead = some (.keyword (utf8 "local"))
      · rw [if_pos hlocal]
        refine (bump_ends hat).bind_eq fun r vs ns h₂ hat hvs => ?_
        rw [← hnext] at hleft'
        have hdecl := parseDeclared_declares hat (hleft'.of_suffix hvs)
        refine hdecl.bind_eq fun v ws ns h₃ hat hws => ?_
        obtain ⟨⟨vts, next⟩, r⟩ := v
        refine (expectRparen_ends hat).bind_eq fun r' xs ns' h₄ hat' hxs => ?_
        exact hround m' _ (hxs.trans (hws.trans hvs)) hat' ((hdecl.locals h₃ hat).of_suffix hxs)
          (.headerLocal hl hq hlocal hintern h₂ h₃ h₄)
      rw [if_neg hlocal]
      have hbody : ∀ kw ∈ ["export", "import", "type", "param", "result", "local"], q.lookahead ≠
          some (.keyword (utf8 kw)) := by
        simp only [List.forall_mem_cons]
        exact ⟨hexport, himport, htype, hparam, hresult, hlocal, List.forall_mem_nil _⟩
      have hfolded := parseFoldedInstr_ends hsmall' hat fun hs => (hsafe hs).call (.bodyFolded hl hq hbody)
      refine hfolded.bind_eq fun v vs ns h₂ hat hvs => ?_
      obtain ⟨folded, r⟩ := v
      have hinstrs := parseInstrs_ends (left hsmall' hvs) hat fun hs => (hsafe hs).call (.bodyRest hl hq hbody h₂)
      refine hinstrs.bind fun v ws ns hat _ => ?_
      obtain ⟨instrs, r⟩ := v
      exact finishFunc_ends hat m' header' (folded ++ instrs)
    · rw [if_neg hl]
      have hinstrs := parseInstrs_ends hsmall h fun hs => (hsafe hs).call (.body hl)
      exact hinstrs.bind fun v us ns hat _ => finishFunc_ends hat _ _ v.1

theorem parseFuncDef_ends (hsmall : S → Small ts) (h : p.At F ts ns) (m : Module)
    (hkw : p.lookahead = some (.keyword (utf8 "func")))
    (hsafe : S → Safe F (.field p m)) : Ends F S ts Prod.snd (p.parseFuncDef F m) := by
  unfold parseFuncDef
  refine (bump_ends h).bind_eq fun q us ns h₁ hat hus => ?_
  refine (tryIdentifier_ends hat).bind_eq fun ⟨name, q⟩ vs ns h₂ hat hvs => ?_
  have hnamed : Parser.At F { q.nameFunc name (UInt32.ofNat (m.imports.length + m.funcs.length)) with
      localNames := [] } vs _ :=
    hat.rename ⟨rfl, rfl, rfl⟩
  have hfuel := hnamed.fuel
  have hsmall' : S → Small vs := left hsmall (hvs.trans hus)
  refine parseFuncDef_loop_ends _ _ hsmall' hnamed (by omega) m _ (fun hs => ?_) fun hs =>
    (hsafe hs).call (.func hkw h₁ h₂ rfl)
  rw [Nat.zero_add]
  exact (hsmall' hs).locals

/-! ## The module -/

theorem parseField_ends (hsmall : S → Small ts) (h : p.At F ts ns) (m : Module) (hsafe : S → Safe F (.field p m)) :
    Ends F S ts Prod.snd (p.parseField F m) := by
  unfold parseField
  split
  · exact parseTypeDef_ends hsmall h m
  split
  · next hkw => exact parseImport_ends hsmall h m hkw hsafe
  split
  · next hkw => exact parseFuncDef_ends hsmall h m hkw hsafe
  split
  · exact parseMemory_ends hsmall h m
  split
  · exact parseExport_ends hsmall h m
  split
  · exact parseData_ends h m
  split
  · refine (bump_ends h).bind fun q us ns hat hus => ?_
    exact (skip_ends (left hsmall hus) hat).bind fun q us ns hat _ => .ok hat
  · exact (skip_ends hsmall h).bind fun q us ns hat _ => .ok hat

theorem parseModule_loop_ends (fuel : Nat) (hsmall : S → Small ts) (h : p.At F ts ns)
    (hfuel : ts.length < fuel) (m : Module)
    (hsafe : S → Safe F (.fields fuel p m)) : Ends F S ts Prod.snd (parseModule.loop F fuel p m) := by
  induction fuel generalizing ts p ns m with
  | zero => cases hfuel
  | succ fuel ih =>
    unfold parseModule.loop
    by_cases hl : p.lookahead = some .lparen
    · obtain ⟨us, rfl⟩ := h.cons hl
      obtain ⟨q, hq, hat⟩ := h.expectLparen
      have hsmall' : S → Small us := left hsmall (List.suffix_cons _ us)
      rw [List.length_cons] at hfuel
      rw [if_pos hl, hq, bind_ok]
      refine Ends.mono ?_ (List.suffix_cons _ us)
      refine (parseField_ends hsmall' hat m fun hs => (hsafe hs).call (.field hl hq)).bind_eq
        fun v vs ns hr hat hvs => ?_
      obtain ⟨m, r⟩ := v
      have hle := hvs.length_le
      exact ih (left hsmall' hvs) hat (by omega) m fun hs => (hsafe hs).call (.nextField hl hq hr)
    · rw [if_neg hl]
      exact .ok h

theorem parseModule_ends (hsmall : S → Small ts) (h : p.At F ts ns) (hsafe : S → Safe F (.module p)) :
    Ends F S ts Prod.snd (p.parseModule F) := by
  unfold parseModule
  refine (expectLparen_ends h).bind_eq fun q us ns h₁ hat hus => ?_
  refine (expectKeyword_ends hat _).bind_eq fun q vs ns h₂ hat hvs => ?_
  refine (tryIdentifier_ends hat).bind_eq fun ⟨_, q⟩ ws ns h₃ hat hws => ?_
  have hfuel : 2 * ws.length + 4 ≤ q.fuel := hat.fuel
  have hsmall' : S → Small ws := left hsmall (hws.trans (hvs.trans hus))
  have hloop := parseModule_loop_ends q.fuel hsmall' hat (by omega) {} fun hs => (hsafe hs).call (.fields h₁ h₂ h₃)
  refine hloop.bind fun ⟨m, q⟩ us ns hat _ => ?_
  exact (expectRparen_ends hat).bind fun q us ns hat _ => .ok hat

/-- In front of `ts` each loop is over after a round for every token, and each of the functions that call one
another after two calls for every token. -/
structure LoopsEnd (F : FloatOps) (p : Parser) (ts : List Token) : Prop where
  skip : ∀ depth fuel, ts.length < fuel → skipRestOfList.loop F fuel depth p ≠ .error .hang
  valTypes : ∀ fuel, ts.length < fuel → valTypes.loop F fuel p ≠ .error .hang
  strings : ∀ fuel, ts.length < fuel → strings.loop F fuel p ≠ .error .hang
  memarg : ∀ offset align fuel, ts.length < fuel → parseMemarg.loop F fuel p offset align ≠ .error .hang
  instrs : ∀ fuel, 2 * ts.length < fuel → parseInstrs F fuel p ≠ .error .hang
  folded : ∀ fuel, 2 * ts.length + 1 < fuel → parseFoldedInstr F fuel p ≠ .error .hang
  types : ∀ ft fuel, ts.length < fuel → typeGroups.loop F fuel p ft ≠ .error .hang
  locals : ∀ next fuel, ts.length < fuel → unnamed.loop F fuel p next ≠ .error .hang
  header : ∀ fidx m header fuel, ts.length < fuel → parseFuncDef.loop F fidx fuel p m header ≠ .error .hang
  fields : ∀ m fuel, ts.length < fuel → parseModule.loop F fuel p m ≠ .error .hang

theorem At.loopsEnd (h : p.At F ts ns) : LoopsEnd F p ts where
  skip depth fuel hfuel := (skip_loop_ends fuel depth h hfuel False.elim).ends
  valTypes fuel hfuel := (valTypes_loop_ends fuel h hfuel : Ends F False ts _ _).ends
  strings fuel hfuel := (strings_loop_ends fuel h hfuel : Ends F False ts _ _).ends
  memarg offset align fuel hfuel := (parseMemarg_loop_ends fuel offset align h hfuel False.elim).ends
  instrs fuel hfuel := ((instr_ends F False fuel).instrs False.elim False.elim h hfuel).ends
  folded fuel hfuel := ((instr_ends F False fuel).folded False.elim False.elim h hfuel).ends
  types ft fuel hfuel := (typeGroups_loop_ends fuel False.elim h hfuel ft).ends
  locals next fuel hfuel := (unnamed_loop_declares fuel next h hfuel False.elim).ends
  header fidx m header fuel hfuel :=
    (parseFuncDef_loop_ends fidx fuel False.elim h hfuel m header False.elim False.elim).ends
  fields m fuel hfuel := (parseModule_loop_ends fuel False.elim h hfuel m False.elim).ends

/-- The parser ends in any case; with a module or a rejection if and only if every number it converts fits. -/
theorem parseModule_total (h : p.At F ts ns) :
    LoopsEnd F p ts ∧ p.parseModule F ≠ .error .hang ∧ (Small ts →
      (((∃ m q, p.parseModule F = .ok (m, q)) ∨ ∃ e, p.parseModule F = .error (.err e)) ↔ Safe F (.module p))) := by
  refine ⟨h.loopsEnd, (parseModule_ends False.elim h False.elim).ends, fun hsmall =>
    ⟨fun hm => ?_, fun hsafe => ?_⟩⟩
  · refine safe_of_not_panics fun hp => ?_
    obtain ⟨m, q, hm⟩ | ⟨e, he⟩ := hm
    · cases hm.symm.trans (show _ = _ from hp)
    · cases he.symm.trans (show _ = _ from hp)
  · have hends := parseModule_ends (fun _ : True => hsmall) h fun _ => hsafe
    cases hm : p.parseModule F with
    | ok r => exact .inl ⟨r.1, r.2, rfl⟩
    | error e =>
      cases e with
      | err e => exact .inr ⟨e, rfl⟩
      | panic => exact absurd hm (hends.safe trivial)
      | hang => exact absurd hm hends.ends

/-- The name of the type is known where it is used, and nothing of it is converted. -/
theorem parseModule_total_known : ∃ p m q,
    Parser.new default
    (utf8 "(module (type $t2147483648 (func)) (func (type $t2147483648) i32.load offset=4))") = .ok p ∧
    p.parseModule default = .ok (m, q) ∧ Safe default (.module p) := by
  let ts : List Token :=
    [.lparen, .keyword (utf8 "module"), .lparen, .keyword (utf8 "type"), .identifier (utf8 "$t2147483648"),
    .lparen, .keyword (utf8 "func"), .rparen, .rparen, .lparen, .keyword (utf8 "func"), .lparen,
    .keyword (utf8 "type"),
    .identifier (utf8 "$t2147483648"), .rparen, .keyword (utf8 "i32.load"), .keyword (utf8 "offset=4"),
    .rparen, .rparen]
  have htokens : Tokenizer.Supplies default
      ⟨utf8 "(module (type $t2147483648 (func)) (func (type $t2147483648) i32.load offset=4))", 0⟩ ts :=
    Tokenizer.supplies_of_tokens 40 (by rfl)
  obtain ⟨p, hp, hat⟩ := Parser.new_at htokens
  obtain ⟨-, -, htotal⟩ := parseModule_total hat
  have hparsed : (Parser.new default
      (utf8 "(module (type $t2147483648 (func)) (func (type $t2147483648) i32.load offset=4))") >>=
      fun p => p.parseModule default).isOk = true := by rfl
  rw [hp, bind_ok] at hparsed
  cases hm : p.parseModule default with
  | error e =>
    rw [hm] at hparsed
    cases hparsed
  | ok r => exact ⟨p, r.1, r.2, hp, hm, (htotal ⟨by decide, by decide⟩).mp (.inl ⟨r.1, r.2, hm⟩)⟩

theorem parseModule_panics : ∃ p, Parser.new default (utf8 "(module (func i32.load offset=2147483648))") = .ok p ∧
    p.parseModule default = .error .panic := ⟨_, rfl, by rfl⟩

end Parser

end WasmOs.Asm
