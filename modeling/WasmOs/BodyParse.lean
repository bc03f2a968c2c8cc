import Mathlib.Data.Option.Basic
import WasmOs.Body
import WasmOs.TokenStream

/-!
# Parsing a body

The parser reads the tokens of a tree and gives the instructions the tree stands for under the parser's own
reading of names. The induction is over the tree; a loop of the parser is described by what is left of it
once it has read some of the tokens, so that flat nodes can be followed by anything.
-/

namespace WasmOs.Asm

variable {F : FloatOps} {α β : Type} {ts rest : List Token} {ns : Names} {p : Parser}

/-- A parsing function gives this value and is in front of these tokens; without a value it panics. -/
def Outcome (F : FloatOps) (r : Parse (α × Parser)) (o : Option α) (ts : List Token) (ns : Names) : Prop :=
  match o with
  | some x => ∃ q, r = .ok (x, q) ∧ q.At F ts ns
  | none => ∃ e, r = .error e ∧ e ≠ .hang

theorem Outcome.bind {r : Parse (α × Parser)} {f : α × Parser → Parse (β × Parser)} {o : Option α}
    {g : α → Option β} {ts' : List Token} {ns' : Names} (h : Outcome F r o ts ns)
    (hf : ∀ x q, q.At F ts ns → Outcome F (f (x, q)) (g x) ts' ns') : Outcome F (r >>= f) (o >>= g) ts' ns' := by
  cases o with
  | none =>
    obtain ⟨e, rfl, he⟩ := h
    exact ⟨e, rfl, he⟩
  | some x =>
    obtain ⟨q, rfl, hq⟩ := h
    exact hf x q hq

theorem Outcome.map {r : Parse (α × Parser)} {o : Option α} (f : α → β) (h : Outcome F r o ts ns) :
    Outcome F (r >>= fun x => .ok (f x.1, x.2)) (o.map f) ts ns := by
  cases o with
  | none =>
    obtain ⟨e, rfl, he⟩ := h
    exact ⟨e, rfl, he⟩
  | some x =>
    obtain ⟨q, rfl, hq⟩ := h
    exact ⟨q, rfl, hq⟩

/-! ## What the parser makes of names -/

theorem parseI32_ne_hang (s : List UInt8) : (parseI32 s : Parse _) ≠ .error .hang := by
  have hfits : ∀ n : Nat, (i32Fits n : Parse Nat) ≠ .error .hang := by
    intro n
    unfold i32Fits
    split
    · simp
    · simp
  have hdigits : ∀ (cs : List UInt8) (n : Nat), (parseI32.digits cs n : Parse Nat) ≠ .error .hang := by
    intro cs
    induction cs with
    | nil =>
      intro n
      simp [parseI32.digits]
    | cons c cs ih =>
      intro n h
      unfold parseI32.digits at h
      split at h
      · rcases bind_eq_error.mp h with h | ⟨a, -, h⟩
        · exact hfits _ h
        · rcases bind_eq_error.mp h with h | ⟨b, -, h⟩
          · exact hfits _ h
          · exact ih b h
      · exact ih n h
  intro h
  unfold parseI32 at h
  split at h
  · rcases bind_eq_error.mp h with h | ⟨a, -, h⟩
    · exact hdigits _ _ h
    · cases h
  · rcases bind_eq_error.mp h with h | ⟨a, -, h⟩
    · exact hdigits _ _ h
    · cases h

theorem numericName_ne_hang (id : Name) : numericName id ≠ .error .hang := by
  intro h
  unfold numericName at h
  rcases bind_eq_error.mp h with h | ⟨a, -, h⟩
  · exact parseI32_ne_hang _ h
  · cases h

/-- Every label is 0, a function without an entry is 0, and a local without one is the number in its name. -/
def Names.resolver (ns : Names) : Resolver where
  label _ _ := some 0
  func f := some ((ns.func.lookup f).getD 0)
  loc x := match ns.loc.lookup x with
    | some idx => some idx
    | none => (numericName x).toOption
  opens flat label ty := !(flat && label.isSome && ty.isSome)

/-! ## Keywords -/

/-- None of the tokens is taken for an immediate or a block type of an instruction before them. -/
def Fresh : List Token → Prop
  | .keyword kw :: _ => Parser.stripPrefix (utf8 "offset=") kw = none ∧ Parser.stripPrefix (utf8 "align=") kw = none
  | .lparen :: ts => ts.head? ≠ some (.keyword (utf8 "result"))
  | .rparen :: _ => True
  | [] => True
  | _ => False

theorem operators_fresh : ∀ e ∈ operators, Parser.stripPrefix (utf8 "offset=") e.1 = none ∧
    Parser.stripPrefix (utf8 "align=") e.1 = none ∧
    e.1 ≠ utf8 "result" ∧ e.1 ≠ utf8 "then" := by decide

theorem operator_fresh {kw : List UInt8} {x : Operator} (h : operators.lookup kw = some x) :
    Parser.stripPrefix (utf8 "offset=") kw = none ∧ Parser.stripPrefix (utf8 "align=") kw = none ∧
    kw ≠ utf8 "result" ∧ kw ≠ utf8 "then" := by
  have hsome : (operators.lookup kw).isSome := by rw [h]; rfl
  obtain ⟨e, he, hkw⟩ := List.lookup_isSome_iff.mp hsome
  rw [eq_of_beq hkw]
  exact operators_fresh e he

theorem lookup_if : operators.lookup (utf8 "if") = some (.opener .if) := by rfl

theorem lookup_block : operators.lookup (utf8 "block") = some (.opener .block) := by rfl

theorem lookup_loop : operators.lookup (utf8 "loop") = some (.opener .loop) := by rfl

theorem lookup_else : operators.lookup (utf8 "else") = some (.plain .else) := by rfl

theorem lookup_end : operators.lookup (utf8 "end") = some (.plain .end) := by rfl

theorem lookup_result : operators.lookup (utf8 "result") = none := by rfl

theorem Op.lookup (o : Op F) : ∃ x, operators.lookup o.kw = some x ∧ ∀ f, x ≠ .opener f := by
  cases o with
  | spelled kw imm instr spells operator =>
    cases spells with
    | plain h => exact ⟨_, h, fun _ => nofun⟩
    | int n h => exact ⟨_, h, fun _ => nofun⟩
    | float f h => exact ⟨_, h, fun _ => nofun⟩
    | floatInt n h => exact ⟨_, h, fun _ => nofun⟩
    | loc n h => exact ⟨_, h, fun _ => nofun⟩
    | func n h => exact ⟨_, h, fun _ => nofun⟩
    | label n h => exact ⟨_, h, fun _ => nofun⟩
    | memarg fields h => exact ⟨_, h, fun _ => nofun⟩
  | branch conditional l =>
    cases conditional with
    | true => exact ⟨.label .brIf, by rfl, fun _ => nofun⟩
    | false => exact ⟨.label .br, by rfl, fun _ => nofun⟩
  | call f => exact ⟨.func .call, by rfl, fun _ => nofun⟩
  | «local» kw instr h x => exact ⟨_, h, fun _ => nofun⟩

theorem Op.kw_ne_opener (o : Op F) : o.kw ≠ utf8 "if" ∧ o.kw ≠ utf8 "block" ∧ o.kw ≠ utf8 "loop" := by
  obtain ⟨x, hx, hne⟩ := o.lookup
  refine ⟨fun h => ?_, fun h => ?_, fun h => ?_⟩
  · rw [h, lookup_if] at hx
    exact hne _ (Option.some.inj hx).symm
  · rw [h, lookup_block] at hx
    exact hne _ (Option.some.inj hx).symm
  · rw [h, lookup_loop] at hx
    exact hne _ (Option.some.inj hx).symm

theorem fresh_operator {kw : List UInt8} {x : Operator} (h : operators.lookup kw = some x) :
    Fresh (.keyword kw :: ts) :=
  ⟨(operator_fresh h).1, (operator_fresh h).2.1⟩

theorem fresh_folded {kw : List UInt8} {x : Operator} (h : operators.lookup kw = some x) :
    Fresh (.lparen :: .keyword kw :: ts) := by
  intro heq
  exact (operator_fresh h).2.2.1 (Token.keyword.inj (Option.some.inj heq))

theorem blockKw_opener (isLoop : Bool) :
    operators.lookup (Body.blockKw isLoop) = some (.opener fun bt => if isLoop then .loop bt else .block bt) := by
  cases isLoop with
  | true => exact lookup_loop
  | false => exact lookup_block

/-- What follows a body is not taken for a part of the instruction before it. -/
theorem Body.fresh (b : Body F) (h : Fresh rest) : Fresh (b.tokens ++ rest) := by
  induction b generalizing rest with
  | nil => exact h
  | op flat o args tail ihArgs ihTail =>
    obtain ⟨x, hx, -⟩ := o.lookup
    cases flat with
    | true =>
      simp only [Body.tokens, if_pos, List.append_assoc]
      exact ihArgs (fresh_operator hx)
    | false => exact fresh_folded hx
  | block flat isLoop label ty body tail ihBody ihTail =>
    cases flat with
    | true => exact fresh_operator (blockKw_opener isLoop)
    | false => exact fresh_folded (blockKw_opener isLoop)
  | cond flat label ty test thn els tail ihTest ihThn ihEls ihTail =>
    cases flat with
    | true =>
      simp only [Body.tokens, if_pos, List.append_assoc]
      exact ihTest (fresh_operator lookup_if)
    | false => exact fresh_folded lookup_if

/-! ## Immediates -/

theorem stripPrefix_append (pre digits : List UInt8) : Parser.stripPrefix pre (pre ++ digits) = some digits := by
  unfold Parser.stripPrefix
  rw [if_pos (List.prefix_append ..), List.drop_left]

theorem stripPrefix_offset_align (digits : List UInt8) :
    Parser.stripPrefix (utf8 "offset=") (utf8 "align=" ++ digits) = none := by
  unfold Parser.stripPrefix
  rw [if_neg]
  rintro ⟨tail, h⟩
  have hhead : (utf8 "offset=").head? = (utf8 "align=").head? := by
    have := congrArg List.head? h
    exact this
  exact absurd hhead (by decide)

/-- Without a part of a memory argument ahead the loop ends. -/
theorem memarg_loop_fresh (hp : p.At F ts ns) (hfresh : Fresh ts) (fuel : Nat) (offset align : UInt32) :
    Parser.parseMemarg.loop F (fuel + 1) p offset align = .ok ((offset, align), p) := by
  unfold Parser.parseMemarg.loop
  rw [hp.lookahead]
  cases ts with
  | nil => rfl
  | cons tok ts =>
    cases tok with
    | keyword kw =>
      obtain ⟨hoffset, halign⟩ := hfresh
      simp only [List.head?_cons, hoffset, halign]
    | lparen => rfl
    | rparen => rfl
    | identifier id => rfl
    | int n => rfl
    | float f => rfl
    | stringLiteral s => rfl

theorem memarg_loop_fields (fields : List MemField) (arg : UInt32 × UInt32) (fuel : Nat)
    (hfuel : fields.length < fuel)
    (hp : p.At F (fields.map MemField.token ++ rest) ns) (hfresh : Fresh rest) :
    ∃ q, Parser.parseMemarg.loop F fuel p arg.1 arg.2 = .ok (fields.foldl MemField.set arg, q) ∧
    q.At F rest ns := by
  induction fields generalizing p arg fuel with
  | nil =>
    obtain ⟨k, rfl⟩ := Nat.exists_eq_succ_of_ne_zero (Nat.ne_of_gt hfuel)
    exact ⟨p, memarg_loop_fresh hp hfresh k arg.1 arg.2, hp⟩
  | cons field fields ih =>
    obtain ⟨k, rfl⟩ := Nat.exists_eq_succ_of_ne_zero (Nat.ne_of_gt (Nat.lt_of_le_of_lt (Nat.zero_le _) hfuel))
    have hk : fields.length < k := Nat.lt_of_succ_lt_succ hfuel
    have hla := hp.lookahead
    obtain ⟨q, hq, hat, -⟩ := hp.bump
    obtain ⟨q', hq', hat'⟩ := ih (MemField.set arg field) k hk hat
    refine ⟨q', ?_, hat'⟩
    unfold Parser.parseMemarg.loop
    rw [hla, List.foldl_cons, ← hq']
    cases field with
    | offset digits n value =>
      simp only [List.map_cons, List.cons_append, List.head?_cons, MemField.token, stripPrefix_append, value,
        bind_ok, hq]
      rfl
    | align digits n value =>
      simp only [List.map_cons, List.cons_append, List.head?_cons, MemField.token, stripPrefix_append,
        stripPrefix_offset_align,
        value, bind_ok, hq]
      rfl

theorem buildInstr_op (o : Op F) (labels : List (Option Name)) (hp : p.At F (o.imm ++ rest) ns)
    (hfresh : Fresh rest) :
    Outcome F (p.buildInstr F o.kw) ((o.instr ns.resolver labels).map some) rest ns := by
  have hfuel := hp.fuel
  have hla := hp.lookahead
  cases o with
  | spelled kw imm instr spells operator =>
    change p.At F (imm ++ rest) ns at hp
    change Outcome F (p.buildInstr F kw) (some (some instr)) rest ns
    unfold Parser.buildInstr
    cases spells with
    | plain h =>
      rw [h]
      exact ⟨p, rfl, hp⟩
    | int n h =>
      obtain ⟨q, hq, hat, -⟩ := hp.bump
      refine ⟨q, ?_, hat⟩
      simp only [h, Parser.parseInt, hp.lookahead, List.cons_append, List.head?_cons, hq, bind_ok]
    | float f h =>
      obtain ⟨q, hq, hat, -⟩ := hp.bump
      refine ⟨q, ?_, hat⟩
      simp only [h, Parser.parseFloat, hp.lookahead, List.cons_append, List.head?_cons, hq, bind_ok]
    | floatInt n h =>
      obtain ⟨q, hq, hat, -⟩ := hp.bump
      refine ⟨q, ?_, hat⟩
      simp only [h, Parser.parseFloat, hp.lookahead, List.cons_append, List.head?_cons, hq, bind_ok]
    | loc n h =>
      obtain ⟨q, hq, hat, -⟩ := hp.bump
      refine ⟨q, ?_, hat⟩
      simp only [h, Parser.parseLocalOrFuncIdx, hp.lookahead, List.cons_append, List.head?_cons, hq, bind_ok]
    | func n h =>
      obtain ⟨q, hq, hat, -⟩ := hp.bump
      refine ⟨q, ?_, hat⟩
      simp only [h, Parser.parseFuncIdx, hp.lookahead, List.cons_append, List.head?_cons, hq, bind_ok]
    | label n h =>
      obtain ⟨q, hq, hat, -⟩ := hp.bump
      refine ⟨q, ?_, hat⟩
      simp only [h, Parser.parseLabelIdx, hp.lookahead, List.cons_append, List.head?_cons, hq, bind_ok]
    | memarg fields h =>
      have hlt : fields.length < p.fuel := by
        have hfuel := hp.fuel
        rw [List.length_append, List.length_map] at hfuel
        omega
      obtain ⟨q, hq, hat⟩ := memarg_loop_fields fields (0, 0) p.fuel hlt hp hfresh
      refine ⟨q, ?_, hat⟩
      simp only [h, Parser.parseMemarg, hq, bind_ok]
  | branch conditional l =>
    obtain ⟨q, hq, hat, -⟩ := hp.bump
    have hlabel : p.parseLabelIdx F = .ok (0, q) := by
      simp only [Parser.parseLabelIdx, hla, Op.imm, List.cons_append, List.head?_cons, hq, bind_ok]
    refine ⟨q, ?_, hat⟩
    unfold Parser.buildInstr
    cases conditional with
    | true =>
      rw [show operators.lookup (Op.branch true l : Op F).kw = some (.label .brIf) by rfl]
      dsimp only
      rw [hlabel]
      rfl
    | false =>
      rw [show operators.lookup (Op.branch false l : Op F).kw = some (.label .br) by rfl]
      dsimp only
      rw [hlabel]
      rfl
  | call f =>
    obtain ⟨q, hq, hat, -⟩ := hp.bump
    have hfunc : p.parseFuncIdx F = .ok ((ns.func.lookup f).getD 0, q) := by
      simp only [Parser.parseFuncIdx, hla, Op.imm, List.cons_append, List.head?_cons, hq, bind_ok]
      rw [← hat.names]
      rfl
    refine ⟨q, ?_, hat⟩
    unfold Parser.buildInstr
    rw [show operators.lookup (Op.call f : Op F).kw = some (.func .call) by rfl]
    dsimp only
    rw [hfunc]
    rfl
  | «local» kw instr h x =>
    obtain ⟨q, hq, hat, -⟩ := hp.bump
    have hloc : ns.loc = q.localNames := by rw [← hat.names]; rfl
    unfold Parser.buildInstr
    rw [show operators.lookup (Op.local kw instr h x : Op F).kw = some (.local instr) from h]
    dsimp only
    have hidx : Outcome F (p.parseLocalOrFuncIdx F) (ns.resolver.loc x) rest ns := by
      simp only [Parser.parseLocalOrFuncIdx, hla, Op.imm, List.cons_append, List.head?_cons, hq, bind_ok,
        Names.resolver, hloc]
      cases q.localNames.lookup x with
      | some idx => exact ⟨q, rfl, hat⟩
      | none =>
        cases hname : numericName x with
        | ok idx => exact ⟨q, rfl, hat⟩
        | error e => exact ⟨e, rfl, fun he => numericName_ne_hang x (he ▸ hname)⟩
    have hmap := hidx.map fun idx => some (instr idx)
    rw [Op.instr, Option.map_map]
    exact hmap

/-! ## Openers -/

theorem fromKw_kw (t : ValType) : ValType.fromKw t.kw = some t := by
  cases t <;> rfl

/-- A `(result t)` is taken; without one nothing is. -/
theorem parseBlockType_at (ty : Option ValType) (hp : p.At F (typeTokens ty ++ rest) ns) (hfresh : Fresh rest) :
    ∃ q, p.parseBlockType F = .ok (blockTypeByte ty, q) ∧ q.At F rest ns := by
  unfold Parser.parseBlockType
  cases ty with
  | some t =>
    have hla : p.lookahead = some .lparen := hp.lookahead
    obtain ⟨p₁, h₁, hp₁, -⟩ := hp.bump
    have hla₁ : p₁.lookahead = some (.keyword (utf8 "result")) := hp₁.lookahead
    obtain ⟨p₂, h₂, hp₂, -⟩ := hp₁.bump
    have hla₂ : p₂.lookahead = some (.keyword t.kw) := hp₂.lookahead
    obtain ⟨p₃, h₃, hp₃, -⟩ := hp₂.bump
    obtain ⟨q, h₄, hq⟩ := hp₃.expectRparen
    refine ⟨q, ?_, hq⟩
    rw [if_pos hla, h₁, bind_ok, if_pos hla₁, h₂, bind_ok, hla₂]
    dsimp only
    rw [fromKw_kw, h₃, bind_ok, h₄, bind_ok]
    rfl
  | none =>
    change p.At F rest ns at hp
    by_cases hla : p.lookahead = some .lparen
    · have hhead : rest.head? = some .lparen := hp.lookahead ▸ hla
      obtain ⟨ts, rfl⟩ : ∃ ts, rest = .lparen :: ts := by
        cases rest with
        | nil => cases hhead
        | cons tok ts =>
          cases hhead
          exact ⟨ts, rfl⟩
      obtain ⟨p₁, h₁, hp₁, hunget⟩ := hp.bump
      have hother : ¬ p₁.lookahead = some (.keyword (utf8 "result")) := by
        rw [hp₁.lookahead]
        exact hfresh
      refine ⟨p₁.ungetLparen, ?_, hp₁.ungetLparen hunget⟩
      rw [if_pos hla, h₁, bind_ok, if_neg hother]
      rfl
    · exact ⟨p, if_neg hla, hp⟩

theorem tryIdentifier_label (label : Option Name) (hp : p.At F (labelTokens label ++ rest) ns)
    (hrest : ∀ id, rest.head? ≠ some (.identifier id)) :
    ∃ q, p.tryIdentifier F = .ok (label, q) ∧ q.At F rest ns := by
  unfold Parser.tryIdentifier
  cases label with
  | some id =>
    have hla : p.lookahead = some (.identifier id) := hp.lookahead
    obtain ⟨q, hq, hat, -⟩ := hp.bump
    refine ⟨q, ?_, hat⟩
    rw [hla]
    dsimp only
    rw [hq]
    rfl
  | none =>
    change p.At F rest ns at hp
    refine ⟨p, ?_, hp⟩
    have hla := hp.lookahead
    split
    · next id hid => exact absurd (hla.symm.trans hid) (hrest id)
    · rfl

theorem Fresh.not_identifier (h : Fresh ts) (id : List UInt8) : ts.head? ≠ some (.identifier id) := by
  intro heq
  cases ts with
  | nil => cases heq
  | cons tok ts =>
    cases heq
    exact h

theorem typeTokens_not_identifier (ty : Option ValType) (h : Fresh rest) (id : List UInt8) :
    (typeTokens ty ++ rest).head? ≠ some (.identifier id) := by
  cases ty with
  | some t => exact nofun
  | none => exact h.not_identifier id

theorem folded_opener (label : Option Name) (ty : Option ValType)
    (hp : p.At F (labelTokens label ++ typeTokens ty ++ rest) ns) (hfresh : Fresh rest) :
    ∃ q q', p.tryIdentifier F = .ok (label, q) ∧ q.parseBlockType F = .ok (blockTypeByte ty, q') ∧
    q'.At F rest ns := by
  rw [List.append_assoc] at hp
  obtain ⟨q, hq, hat⟩ := tryIdentifier_label label hp (typeTokens_not_identifier ty hfresh)
  obtain ⟨q', hq', hat'⟩ := parseBlockType_at ty hat hfresh
  exact ⟨q, q', hq, hq', hat'⟩

/-! ## Loops -/

/-- The loop has read what gives these instructions and goes on in front of these tokens, with fuel for them. -/
def Continues (F : FloatOps) (add : List Instr → β → β) (loop : Nat → Parser → Parse (β × Parser))
    (fuel : Nat) (p : Parser) (o : Option (List Instr)) (ts : List Token) (ns : Names) : Prop :=
  match o with
  | some instrs => ∃ q fuel', q.At F ts ns ∧ 2 * ts.length + 1 ≤ fuel' ∧
      loop fuel p = (loop fuel' q >>= fun r => .ok (add instrs r.1, r.2))
  | none => ∃ e, loop fuel p = .error e ∧ e ≠ .hang

def both (o z : Option (List Instr)) : Option (List Instr) := do
  let xs ← o
  let ys ← z
  some (xs ++ ys)

def opened (R : Resolver) (flat : Bool) (label : Option Name) (ty : Option ValType) (instr : Instr) :
    Option (List Instr) := do
  guard (R.opens flat label ty)
  some [instr]

section
variable {add : List Instr → β → β} {loop : Nat → Parser → Parse (β × Parser)} {fuel : Nat}
  {o z : Option (List Instr)}

theorem Continues.nil (hadd : ∀ x, add [] x = x) (hp : p.At F ts ns) (hfuel : 2 * ts.length + 1 ≤ fuel) :
    Continues F add loop fuel p (some []) ts ns := by
  refine ⟨p, fuel, hp, hfuel, ?_⟩
  cases loop fuel p with
  | error e => rfl
  | ok r =>
    rw [bind_ok, hadd]

theorem Continues.append (hadd : ∀ xs ys x, add xs (add ys x) = add (xs ++ ys) x)
    (h : Continues F add loop fuel p o ts ns)
    (h' : ∀ q fuel', q.At F ts ns → 2 * ts.length + 1 ≤ fuel' → Continues F add loop fuel' q z rest ns) :
    Continues F add loop fuel p (both o z) rest ns := by
  cases o with
  | none => exact h
  | some xs =>
    obtain ⟨q, fuel', hq, hfuel', heq⟩ := h
    have hnext := h' q fuel' hq hfuel'
    cases z with
    | none =>
      obtain ⟨e, he, hne⟩ := hnext
      refine ⟨e, ?_, hne⟩
      rw [heq, he]
      rfl
    | some ys =>
      obtain ⟨q', fuel'', hq', hfuel'', heq'⟩ := hnext
      refine ⟨q', fuel'', hq', hfuel'', ?_⟩
      rw [heq, heq']
      cases loop fuel'' q' with
      | error e => rfl
      | ok r =>
        simp only [bind_ok, hadd]

theorem Continues.round {m : Parse (List Instr × Parser)} {k : Nat} (hm : Outcome F m o ts ns)
    (hloop : loop fuel p = (m >>= fun r => loop k r.2 >>= fun s => .ok (add r.1 s.1, s.2)))
    (hk : 2 * ts.length + 1 ≤ k) :
    Continues F add loop fuel p o ts ns := by
  cases o with
  | none =>
    obtain ⟨e, he, hne⟩ := hm
    refine ⟨e, ?_, hne⟩
    rw [hloop, he]
    rfl
  | some instrs =>
    obtain ⟨q, hq, hat⟩ := hm
    refine ⟨q, k, hat, hk, ?_⟩
    rw [hloop, hq]
    rfl

theorem Continues.outcome {x : Option β} (h : Continues F add loop fuel p o ts ns)
    (hlast : ∀ q fuel', q.At F ts ns → 2 * ts.length + 1 ≤ fuel' → Outcome F (loop fuel' q) x rest ns) :
    Outcome F (loop fuel p) (do
      let xs ← o
      let x ← x
      some (add xs x)) rest ns := by
  cases o with
  | none => exact h
  | some xs =>
    obtain ⟨q, fuel', hq, hfuel', heq⟩ := h
    rw [heq]
    have hmap := (hlast q fuel' hq hfuel').map (add xs)
    cases x with
    | none => exact hmap
    | some x => exact hmap

end

/-! ## The rounds of `parse_instrs` -/

section
variable {fuel : Nat}

theorem instrs_keyword {kw : List UInt8} {o : Option Instr} (hp : p.At F (.keyword kw :: ts) ns)
    (hbuild : ∀ q : Parser, q.At F ts ns → Outcome F (q.buildInstr F kw) (o.map some) rest ns)
    (hle : rest.length ≤ ts.length) (hfuel : 2 * ts.length + 3 ≤ fuel) :
    Continues F (· ++ ·) (Parser.parseInstrs F) fuel p (o.map ([·])) rest ns := by
  obtain ⟨k, rfl⟩ : ∃ k, fuel = k + 1 := ⟨fuel - 1, by omega⟩
  have hla : p.lookahead = some (.keyword kw) := hp.lookahead
  obtain ⟨q, hq, hat, -⟩ := hp.bump
  have hplain : p.parsePlainInstr F = q.buildInstr F kw := by
    unfold Parser.parsePlainInstr
    rw [hla]
    dsimp only
    rw [hq, bind_ok]
  have hm := (hbuild q hat).map Option.toList
  rw [Option.map_map] at hm
  refine Continues.round (k := k) hm ?_ (by omega)
  rw [Parser.parseInstrs, hla]
  dsimp only
  rw [hplain]
  cases q.buildInstr F kw with
  | error e => rfl
  | ok r => rfl

theorem instrs_identifier {id : List UInt8} (hp : p.At F (.identifier id :: ts) ns)
    (hfuel : 2 * ts.length + 3 ≤ fuel) :
    Continues F (· ++ ·) (Parser.parseInstrs F) fuel p (some []) ts ns := by
  obtain ⟨k, rfl⟩ : ∃ k, fuel = k + 1 := ⟨fuel - 1, by omega⟩
  have hla : p.lookahead = some (.identifier id) := hp.lookahead
  obtain ⟨q, hq, hat, -⟩ := hp.bump
  refine ⟨q, k, hat, by omega, ?_⟩
  rw [Parser.parseInstrs, hla]
  dsimp only
  rw [hq, bind_ok]
  cases Parser.parseInstrs F k q with
  | error e => rfl
  | ok r => rfl

theorem instrs_lparen {o : Option (List Instr)} (hp : p.At F (.lparen :: ts) ns)
    (hfolded : ∀ q k, q.At F ts ns → 2 * ts.length + 2 ≤ k → Outcome F (Parser.parseFoldedInstr F k q) o rest ns)
    (hle : rest.length ≤ ts.length) (hfuel : 2 * ts.length + 3 ≤ fuel) :
    Continues F (· ++ ·) (Parser.parseInstrs F) fuel p o rest ns := by
  obtain ⟨k, rfl⟩ : ∃ k, fuel = k + 1 := ⟨fuel - 1, by omega⟩
  have hla : p.lookahead = some .lparen := hp.lookahead
  obtain ⟨q, hq, hat, -⟩ := hp.bump
  refine Continues.round (k := k) (hfolded q k hat (by omega)) ?_ (by omega)
  rw [Parser.parseInstrs, hla]
  dsimp only
  rw [hq, bind_ok]

theorem operands_lparen {o : Option (List Instr)} (hp : p.At F (.lparen :: ts) ns)
    (hfolded : ∀ q k, q.At F ts ns → 2 * ts.length + 2 ≤ k → Outcome F (Parser.parseFoldedInstr F k q) o rest ns)
    (hle : rest.length ≤ ts.length) (hfuel : 2 * ts.length + 3 ≤ fuel) :
    Continues F (· ++ ·) (Parser.parseOperands F) fuel p o rest ns := by
  obtain ⟨k, rfl⟩ : ∃ k, fuel = k + 1 := ⟨fuel - 1, by omega⟩
  have hla : p.lookahead = some .lparen := hp.lookahead
  obtain ⟨q, hq, hat, -⟩ := hp.bump
  refine Continues.round (k := k) (hfolded q k hat (by omega)) ?_ (by omega)
  rw [Parser.parseOperands, if_pos hla, hq, bind_ok]

def addFst (xs : List Instr) (x : List Instr × List Instr) : List Instr × List Instr := (xs ++ x.1, x.2)

/-- The same in the condition of a folded `if`. -/
theorem condition_lparen {o : Option (List Instr)} (hp : p.At F (.lparen :: ts) ns)
    (hthen : ts.head? ≠ some (.keyword (utf8 "then")))
    (hfolded : ∀ q k, q.At F ts ns → 2 * ts.length + 2 ≤ k → Outcome F (Parser.parseFoldedInstr F k q) o rest ns)
    (hle : rest.length ≤ ts.length) (hfuel : 2 * ts.length + 3 ≤ fuel) :
    Continues F addFst (Parser.parseCondition F) fuel p o rest ns := by
  obtain ⟨k, rfl⟩ : ∃ k, fuel = k + 1 := ⟨fuel - 1, by omega⟩
  have hla : p.lookahead = some .lparen := hp.lookahead
  obtain ⟨q, hq, hat, -⟩ := hp.bump
  have hother : ¬ q.lookahead = some (.keyword (utf8 "then")) := by
    rw [hat.lookahead]
    exact hthen
  refine Continues.round (k := k) (hfolded q k hat (by omega)) ?_ (by omega)
  rw [Parser.parseCondition, if_pos hla, hq, bind_ok, if_neg hother]
  rfl

theorem instrs_rparen (hp : p.At F (.rparen :: ts) ns) (hfuel : 1 ≤ fuel) :
    Parser.parseInstrs F fuel p = .ok ([], p) := by
  obtain ⟨k, rfl⟩ : ∃ k, fuel = k + 1 := ⟨fuel - 1, by omega⟩
  have hla : p.lookahead = some .rparen := hp.lookahead
  rw [Parser.parseInstrs, hla]

theorem operands_rparen (hp : p.At F (.rparen :: ts) ns) (hfuel : 1 ≤ fuel) :
    Parser.parseOperands F fuel p = .ok ([], p) := by
  obtain ⟨k, rfl⟩ : ∃ k, fuel = k + 1 := ⟨fuel - 1, by omega⟩
  have hla : p.lookahead = some .rparen := hp.lookahead
  rw [Parser.parseOperands, if_neg (by rw [hla]; decide)]

/-- A folded block type that is taken for an instruction: the keyword of the type stands where a parenthesis
is expected. -/
theorem folded_result_rejected {t : ValType}
    (hp : p.At F (.keyword (utf8 "result") :: .keyword t.kw :: ts) ns) (hfuel : 2 ≤ fuel) :
    Outcome F (Parser.parseFoldedInstr F fuel p) none rest ns := by
  obtain ⟨k, rfl⟩ : ∃ k, fuel = k + 2 := ⟨fuel - 2, by omega⟩
  have hla : p.lookahead = some (.keyword (utf8 "result")) := hp.lookahead
  obtain ⟨q, hq, hat, -⟩ := hp.bump
  have hty : q.lookahead = some (.keyword t.kw) := hat.lookahead
  have hbuild : q.buildInstr F (utf8 "result") = .ok (none, q) := by
    unfold Parser.buildInstr
    rw [lookup_result]
  have hoperands : Parser.parseOperands F (k + 1) q = .ok ([], q) := by
    rw [Parser.parseOperands, if_neg (by rw [hty]; simp)]
  have hclose : q.expectRparen F = .error (.err .expectedRparen) := by
    rw [Parser.expectRparen, if_neg (by rw [hty]; simp)]
  refine ⟨.err .expectedRparen, ?_, by simp⟩
  rw [Parser.parseFoldedInstr, hla]
  dsimp only
  rw [if_neg (by decide), if_neg (by decide), hq, bind_ok, hbuild, bind_ok]
  dsimp only
  rw [hoperands, bind_ok]
  dsimp only
  rw [hclose, bind_error]

/-- A flat opener. With a label before a `(result t)` the parenthesis is taken for an instruction that is not
closed. -/
theorem instrs_opener {kw : List UInt8} {f : UInt8 → Instr} (hkw : operators.lookup kw = some (.opener f))
    (label : Option Name) (ty : Option ValType) (hp : p.At F (openerTokens kw label ty ++ rest) ns)
    (hfresh : Fresh rest) (hfuel : 2 * (openerTokens kw label ty ++ rest).length + 1 ≤ fuel) :
    Continues F (· ++ ·) (Parser.parseInstrs F) fuel p
    (opened ns.resolver true label ty (f (blockTypeByte ty))) rest ns := by
  have hbuild : ∀ {ty : Option ValType} {q : Parser} {ts : List Token}, q.At F (typeTokens ty ++ ts) ns → Fresh ts →
      Outcome F (q.buildInstr F kw) (some (some (f (blockTypeByte ty)))) ts ns := by
    intro ty q ts hq hts
    obtain ⟨q', hq', hat'⟩ := parseBlockType_at ty hq hts
    refine ⟨q', ?_, hat'⟩
    unfold Parser.buildInstr
    rw [hkw]
    dsimp only
    rw [hq', bind_ok]
  cases label with
  | none =>
    have hp' : p.At F (.keyword kw :: (typeTokens ty ++ rest)) ns := hp
    refine instrs_keyword (o := some (f (blockTypeByte ty))) hp' (fun q hq => hbuild hq hfresh) ?_ hfuel
    rw [List.length_append]
    exact Nat.le_add_left ..
  | some id =>
    have hp' : p.At F (.keyword kw :: .identifier id :: (typeTokens ty ++ rest)) ns := hp
    -- the block type is not found behind the label
    have hopener : Continues F (· ++ ·) (Parser.parseInstrs F) fuel p (some [f 0x40])
        (.identifier id :: (typeTokens ty ++ rest)) ns := by
      refine instrs_keyword (o := some (f 0x40)) hp' (fun q hq => ⟨q, ?_, hq⟩) (Nat.le_refl _) hfuel
      have hla : q.lookahead = some (.identifier id) := hq.lookahead
      unfold Parser.buildInstr Parser.parseBlockType
      rw [hkw]
      dsimp only
      rw [if_neg (by rw [hla]; simp), bind_ok]
    have hlabel : Continues F (· ++ ·) (Parser.parseInstrs F) fuel p (some [f 0x40]) (typeTokens ty ++ rest) ns :=
      hopener.append (fun xs ys x => (List.append_assoc xs ys x).symm) fun q k hq hk => instrs_identifier hq hk
    cases ty with
    | none => exact hlabel
    | some t =>
      refine hlabel.append (z := none) (fun xs ys x => (List.append_assoc xs ys x).symm) fun q k hq hk => ?_
      exact instrs_lparen hq (fun q' k' hq' hk' => folded_result_rejected hq' (Nat.le_of_add_left_le hk'))
        (show rest.length ≤ rest.length + 3 from Nat.le_add_right ..) hk

end

/-! ## Nodes -/

/-- The three loops that read a body give what it stands for. -/
structure Parses (b : Body F) : Prop where
  instrs : ∀ labels fuel p rest ns, Parser.At F p (b.tokens ++ rest) ns → Fresh rest →
    2 * (b.tokens ++ rest).length + 1 ≤ fuel →
    Continues F (· ++ ·) (Parser.parseInstrs F) fuel p (b.emit ns.resolver labels) rest ns
  operands : b.Folded → ∀ labels fuel p rest ns, Parser.At F p (b.tokens ++ rest) ns →
    2 * (b.tokens ++ rest).length + 1 ≤ fuel →
    Continues F (· ++ ·) (Parser.parseOperands F) fuel p (b.emit ns.resolver labels) rest ns
  condition : b.Folded → ∀ labels fuel p rest ns, Parser.At F p (b.tokens ++ rest) ns →
    2 * (b.tokens ++ rest).length + 1 ≤ fuel →
    Continues F addFst (Parser.parseCondition F) fuel p (b.emit ns.resolver labels) rest ns

theorem append_add (xs ys x : List Instr) : xs ++ (ys ++ x) = xs ++ ys ++ x := (List.append_assoc xs ys x).symm

theorem addFst_add (xs ys : List Instr) (x : List Instr × List Instr) :
    addFst xs (addFst ys x) = addFst (xs ++ ys) x := by
  simp [addFst]

theorem parses_nil : Parses (.nil : Body F) where
  instrs _ _ _ _ _ hp _ hfuel := .nil List.nil_append hp hfuel
  operands _ _ _ _ _ _ hp hfuel := .nil List.nil_append hp hfuel
  condition _ _ _ _ _ _ hp hfuel := .nil (fun _ => rfl) hp hfuel

theorem Parses.append {b n tail : Body F} (hn : Parses n) (htail : Parses tail)
    (htokens : b.tokens = n.tokens ++ tail.tokens)
    (hemit : ∀ R labels, b.emit R labels = both (n.emit R labels) (tail.emit R labels))
    (hfolded : b.Folded → n.Folded ∧ tail.Folded) : Parses b where
  instrs labels fuel p rest ns hp hfresh hfuel := by
    rw [htokens, List.append_assoc] at hp hfuel
    rw [hemit]
    exact (hn.instrs labels fuel p _ ns hp (tail.fresh hfresh) hfuel).append append_add
      fun q k hq hk => htail.instrs labels k q rest ns hq hfresh hk
  operands h labels fuel p rest ns hp hfuel := by
    rw [htokens, List.append_assoc] at hp hfuel
    rw [hemit]
    exact (hn.operands (hfolded h).1 labels fuel p _ ns hp hfuel).append append_add
      fun q k hq hk => htail.operands (hfolded h).2 labels k q rest ns hq hk
  condition h labels fuel p rest ns hp hfuel := by
    rw [htokens, List.append_assoc] at hp hfuel
    rw [hemit]
    exact (hn.condition (hfolded h).1 labels fuel p _ ns hp hfuel).append addFst_add
      fun q k hq hk => htail.condition (hfolded h).2 labels k q rest ns hq hk

/-- A folded node: all three loops leave it to `parse_folded_instr`. -/
theorem Parses.of_folded {n : Body F} (ts : List Token) (htokens : n.tokens = .lparen :: ts)
    (hthen : ∀ rest, (ts ++ rest).head? ≠ some (.keyword (utf8 "then")))
    (h : ∀ labels fuel p rest ns, Parser.At F p (ts ++ rest) ns → 2 * (ts ++ rest).length + 2 ≤ fuel →
      Outcome F (Parser.parseFoldedInstr F fuel p) (n.emit ns.resolver labels) rest ns) : Parses n := by
  have hle : ∀ rest : List Token, rest.length ≤ (ts ++ rest).length := by
    intro rest
    rw [List.length_append]
    exact Nat.le_add_left ..
  constructor
  · intro labels fuel p rest ns hp hfresh hfuel
    rw [htokens] at hp hfuel
    exact instrs_lparen hp (fun q k hq hk => h labels k q rest ns hq hk) (hle rest) hfuel
  · intro _ labels fuel p rest ns hp hfuel
    rw [htokens] at hp hfuel
    exact operands_lparen hp (fun q k hq hk => h labels k q rest ns hq hk) (hle rest) hfuel
  · intro _ labels fuel p rest ns hp hfuel
    rw [htokens] at hp hfuel
    exact condition_lparen hp (hthen rest) (fun q k hq hk => h labels k q rest ns hq hk) (hle rest) hfuel

/-- A flat node is read by `parse_instrs` only. -/
theorem Parses.of_flat {n : Body F} (hflat : ¬ n.Folded)
    (h : ∀ labels fuel p rest ns, Parser.At F p (n.tokens ++ rest) ns → Fresh rest →
      2 * (n.tokens ++ rest).length + 1 ≤ fuel →
      Continues F (· ++ ·) (Parser.parseInstrs F) fuel p (n.emit ns.resolver labels) rest ns) : Parses n :=
  ⟨h, fun hf => absurd hf hflat, fun hf => absurd hf hflat⟩

section
variable {args body test thn els : Body F} {label : Option Name} {ty : Option ValType}

theorem parses_op_flat (o : Op F) (hargs : Parses args) : Parses (.op true o args .nil) := by
  refine .of_flat (fun h => absurd h.1 nofun) fun labels fuel p rest ns hp hfresh hfuel => ?_
  obtain ⟨x, hx, -⟩ := o.lookup
  have htokens : (Body.op true o args .nil).tokens ++ rest = args.tokens ++ (.keyword o.kw :: (o.imm ++ rest)) := by
    simp [Body.tokens, Op.tokens]
  have hemit : (Body.op true o args .nil).emit ns.resolver labels =
      both (args.emit ns.resolver labels) ((o.instr ns.resolver labels).map ([·])) := by
    simp only [Body.emit]
    cases args.emit ns.resolver labels with
    | none => rfl
    | some xs =>
      cases o.instr ns.resolver labels with
      | none => rfl
      | some i => rfl
  rw [htokens] at hp hfuel
  rw [hemit]
  refine (hargs.instrs labels fuel p _ ns hp (fresh_operator hx) hfuel).append append_add fun q k hq hk => ?_
  refine instrs_keyword hq (fun q' hq' => buildInstr_op o labels hq' hfresh) ?_ hk
  rw [List.length_append]
  exact Nat.le_add_left ..

/-- The `end` of a flat block. -/
theorem instrs_end {fuel : Nat} (hp : p.At F (.keyword (utf8 "end") :: rest) ns)
    (hfuel : 2 * rest.length + 3 ≤ fuel) :
    Continues F (· ++ ·) (Parser.parseInstrs F) fuel p (some [.end]) rest ns := by
  refine instrs_keyword (o := some .end) hp (fun q hq => ⟨q, ?_, hq⟩) (Nat.le_refl _) hfuel
  unfold Parser.buildInstr
  rw [lookup_end]

theorem parses_block_flat (isLoop : Bool) (hbody : Parses body) :
    Parses (.block true isLoop label ty body .nil) := by
  refine .of_flat (fun h => absurd h.1 nofun) fun labels fuel p rest ns hp hfresh hfuel => ?_
  have htokens : (Body.block true isLoop label ty body .nil).tokens ++ rest =
      openerTokens (Body.blockKw isLoop) label ty ++ (body.tokens ++ (.keyword (utf8 "end") :: rest)) := by
    simp [Body.tokens]
  have hemit : (Body.block true isLoop label ty body .nil).emit ns.resolver labels =
      both (opened ns.resolver true label ty (blockInstr isLoop ty))
        (both (body.emit ns.resolver (label :: labels)) (some [.end])) := by
    simp only [Body.emit, opened]
    cases ns.resolver.opens true label ty with
    | false => rfl
    | true =>
      cases body.emit ns.resolver (label :: labels) with
      | none => rfl
      | some inside => rfl
  have hend : Fresh (.keyword (utf8 "end") :: rest) := fresh_operator lookup_end
  rw [htokens] at hp hfuel
  rw [hemit]
  refine (instrs_opener (blockKw_opener isLoop) label ty hp (body.fresh hend) hfuel).append append_add
    fun q k hq hk => ?_
  exact (hbody.instrs (label :: labels) k q _ ns hq hend hk).append append_add fun q' k' hq' hk' =>
    instrs_end hq' hk'

theorem emit_isEmpty {R : Resolver} {labels : List (Option Name)} {xs : List Instr}
    (h : els.emit R labels = some xs) :
    xs.isEmpty = els.isNil := by
  cases els with
  | nil =>
    cases h
    rfl
  | op flat o args tail =>
    simp only [Body.emit, Option.bind_eq_bind, Option.bind_eq_some_iff] at h
    obtain ⟨_, -, _, -, _, -, heq⟩ := h
    cases heq
    simp [Body.isNil]
  | block flat isLoop label ty body tail =>
    simp only [Body.emit, Option.bind_eq_bind, Option.bind_eq_some_iff] at h
    obtain ⟨_, -, _, -, _, -, heq⟩ := h
    cases heq
    rfl
  | cond flat label ty test thn els tail =>
    simp only [Body.emit, Option.bind_eq_bind, Option.bind_eq_some_iff] at h
    obtain ⟨_, -, _, -, _, -, _, -, _, -, heq⟩ := h
    cases heq
    simp [Body.isNil]

/-- An else branch with its keyword; an empty one is left out. -/
def elsePart (els : Body F) (R : Resolver) (labels : List (Option Name)) : Option (List Instr) :=
  if els.isNil then some [] else both (some [.else]) (els.emit R labels)

theorem elsePart_eq (els : Body F) (R : Resolver) (labels : List (Option Name)) :
    elsePart els R labels = (els.emit R labels).map fun xs => if xs.isEmpty then [] else .else :: xs := by
  unfold elsePart
  cases hemit : els.emit R labels with
  | none =>
    by_cases hnil : els.isNil = true
    · cases els with
      | nil => cases hemit
      | _ => cases hnil
    · rw [if_neg hnil]
      rfl
  | some xs =>
    rw [← emit_isEmpty hemit, Option.map_some]
    split
    · rfl
    · rfl

theorem emit_cond (flat : Bool) (R : Resolver) (labels : List (Option Name)) :
    (Body.cond flat label ty test thn els .nil).emit R labels =
      both (test.emit R labels) (both (opened R flat label ty (.if (blockTypeByte ty)))
        (both (thn.emit R (label :: labels)) (both (elsePart els R (label :: labels)) (some [.end])))) := by
  rw [elsePart_eq]
  simp only [Body.emit, opened]
  cases test.emit R labels with
  | none => rfl
  | some condition =>
    cases R.opens flat label ty with
    | false => rfl
    | true =>
      cases thn.emit R (label :: labels) with
      | none => rfl
      | some thenInstrs =>
        cases els.emit R (label :: labels) with
        | none => rfl
        | some elseInstrs => simp [both, guard]

theorem parses_cond_flat (htest : Parses test) (hthn : Parses thn) (hels : Parses els) :
    Parses (.cond true label ty test thn els .nil) := by
  refine .of_flat (fun h => absurd h.1 nofun) fun labels fuel p rest ns hp hfresh hfuel => ?_
  have hend : Fresh (.keyword (utf8 "end") :: rest) := fresh_operator lookup_end
  have htokens : (Body.cond true label ty test thn els .nil).tokens ++ rest =
      test.tokens ++ (openerTokens (utf8 "if") label ty ++ (thn.tokens ++
        ((if els.isNil then [] else .keyword (utf8 "else") :: els.tokens) ++
        (.keyword (utf8 "end") :: rest)))) := by
    simp [Body.tokens]
  -- the else branch, if there is one
  have helse : ∀ q k, Parser.At F q ((if els.isNil then [] else .keyword (utf8 "else") :: els.tokens) ++
      (.keyword (utf8 "end") :: rest)) ns →
      2 * ((if els.isNil then [] else .keyword (utf8 "else") :: els.tokens) ++
      (.keyword (utf8 "end") :: rest)).length + 1 ≤ k →
      Continues F (· ++ ·) (Parser.parseInstrs F) k q (elsePart els ns.resolver (label :: labels))
      (.keyword (utf8 "end") :: rest) ns := by
    intro q k hq hk
    unfold elsePart
    by_cases hnil : els.isNil = true
    · rw [if_pos hnil, List.nil_append] at hq hk
      rw [if_pos hnil]
      exact .nil List.nil_append hq hk
    · rw [if_neg hnil, List.cons_append] at hq hk
      rw [if_neg hnil]
      refine Continues.append append_add (o := some [.else]) ?_
        fun q' k' hq' hk' => hels.instrs (label :: labels) k' q' _ ns hq' hend hk'
      refine instrs_keyword (o := some .else) hq (fun q' hq' => ⟨q', ?_, hq'⟩) (Nat.le_refl _) hk
      unfold Parser.buildInstr
      rw [lookup_else]
  have hafter : Fresh ((if els.isNil then [] else .keyword (utf8 "else") :: els.tokens) ++
      (.keyword (utf8 "end") :: rest)) := by
    by_cases hnil : els.isNil = true
    · rw [if_pos hnil]
      exact hend
    · rw [if_neg hnil]
      exact fresh_operator lookup_else
  rw [htokens] at hp hfuel
  rw [emit_cond]
  refine (htest.instrs labels fuel p _ ns hp (fresh_operator lookup_if) hfuel).append append_add fun q k hq hk => ?_
  refine (instrs_opener lookup_if label ty hq (thn.fresh hafter) hk).append append_add fun q k hq hk => ?_
  refine (hthn.instrs (label :: labels) k q _ ns hq hafter hk).append append_add fun q k hq hk => ?_
  exact (helse q k hq hk).append append_add fun q k hq hk => instrs_end hq hk

/-! ## Folded nodes -/

theorem parses_op_folded (o : Op F) (hfolded : args.Folded) (hargs : Parses args) :
    Parses (.op false o args .nil) := by
  obtain ⟨x, hx, -⟩ := o.lookup
  obtain ⟨hif, hblock, hloop⟩ := o.kw_ne_opener
  refine .of_folded (o.tokens ++ args.tokens ++ [.rparen]) (by simp [Body.tokens]) (fun rest heq => ?_)
    fun labels fuel p rest ns hp hfuel => ?_
  · exact (operator_fresh hx).2.2.2 (Token.keyword.inj (Option.some.inj heq))
  · have htokens : o.tokens ++ args.tokens ++ [.rparen] ++ rest = .keyword o.kw ::
        (o.imm ++ (args.tokens ++ (.rparen :: rest))) := by
      simp [Op.tokens]
    rw [htokens] at hp hfuel
    obtain ⟨k, rfl⟩ : ∃ k, fuel = k + 1 := ⟨fuel - 1, by omega⟩
    have hla : p.lookahead = some (.keyword o.kw) := hp.lookahead
    obtain ⟨q, hq, hat, -⟩ := hp.bump
    have hclose : Fresh (.rparen :: rest) := trivial
    have hk : 2 * (args.tokens ++ (.rparen :: rest)).length + 1 ≤ k := by
      rw [List.length_cons, List.length_append] at hfuel
      omega
    have hrun : Outcome F (Parser.parseFoldedInstr F (k + 1) p) (do
        let op ← (o.instr ns.resolver labels).map some
        let operands ← (do
          let xs ← args.emit ns.resolver labels
          let ys ← some []
          some (xs ++ ys))
        some (operands ++ op.toList)) rest ns := by
      rw [Parser.parseFoldedInstr, hla]
      dsimp only
      rw [if_neg hif, if_neg (not_or.mpr ⟨hblock, hloop⟩), hq, bind_ok]
      refine (buildInstr_op o labels hat (args.fresh hclose)).bind fun op q hq => ?_
      refine ((hargs.operands hfolded labels k q _ ns hq hk).outcome (x := some [])
        fun q k hq hk => ⟨q, operands_rparen hq (by omega), hq⟩).bind fun operands q hq => ?_
      obtain ⟨q', hq', hat'⟩ := hq.expectRparen
      refine ⟨q', ?_, hat'⟩
      dsimp only
      rw [hq', bind_ok]
    have hemit : (Body.op false o args .nil).emit ns.resolver labels = (do
        let op ← (o.instr ns.resolver labels).map some
        let operands ← (do
          let xs ← args.emit ns.resolver labels
          let ys ← some []
          some (xs ++ ys))
        some (operands ++ op.toList)) := by
      simp only [Body.emit]
      cases o.instr ns.resolver labels with
      | none =>
        cases args.emit ns.resolver labels with
        | none => rfl
        | some xs => rfl
      | some i =>
        cases args.emit ns.resolver labels with
        | none => rfl
        | some xs => simp
    rw [hemit]
    exact hrun

/-- A list of instructions up to its closing parenthesis, which is read. -/
theorem Parses.list (hbody : Parses body) (labels : List (Option Name)) (fuel : Nat)
    (hp : p.At F (body.tokens ++ (.rparen :: rest)) ns)
    (hfuel : 2 * (body.tokens ++ (.rparen :: rest)).length + 1 ≤ fuel) :
    Outcome F (Parser.parseInstrs F fuel p >>= fun r => r.2.expectRparen F >>= fun q => .ok (r.1, q))
      (body.emit ns.resolver labels) rest ns := by
  have hloop := (hbody.instrs labels fuel p _ ns hp trivial hfuel).outcome (x := some [])
    fun q k hq hk => ⟨q, instrs_rparen hq (by omega), hq⟩
  have hclose : ∀ (xs : List Instr) (q : Parser), q.At F (.rparen :: rest) ns →
      Outcome F (q.expectRparen F >>= fun q => .ok (xs, q)) (some xs) rest ns := by
    intro xs q hq
    obtain ⟨q', hq', hat'⟩ := hq.expectRparen
    exact ⟨q', by rw [hq', bind_ok], hat'⟩
  have hemit : body.emit ns.resolver labels = ((do
      let xs ← body.emit ns.resolver labels
      let x ← some []
      some (xs ++ x)) >>= some) := by
    cases body.emit ns.resolver labels with
    | none => rfl
    | some xs => simp
  rw [hemit]
  exact hloop.bind hclose

theorem blockKw_result (isLoop : Bool) : Body.blockKw isLoop ≠ utf8 "if" ∧
    (Body.blockKw isLoop = utf8 "block" ∨ Body.blockKw isLoop = utf8 "loop") ∧
    (Body.blockKw isLoop = utf8 "loop" ↔ isLoop = true) := by
  cases isLoop <;> decide

theorem parses_block_folded (isLoop : Bool) (hbody : Parses body) :
    Parses (.block false isLoop label ty body .nil) := by
  obtain ⟨hif, hblock, hloop⟩ := blockKw_result isLoop
  refine .of_folded (openerTokens (Body.blockKw isLoop) label ty ++ body.tokens ++ [.rparen])
    (by simp [Body.tokens])
    (fun rest heq => ?_) fun labels fuel p rest ns hp hfuel => ?_
  · exact (operator_fresh (blockKw_opener isLoop)).2.2.2 (Token.keyword.inj (Option.some.inj heq))
  · have htokens : openerTokens (Body.blockKw isLoop) label ty ++ body.tokens ++ [.rparen] ++ rest =
        .keyword (Body.blockKw isLoop) ::
        (labelTokens label ++ typeTokens ty ++ (body.tokens ++ (.rparen :: rest))) := by
      simp [openerTokens]
    rw [htokens] at hp hfuel
    obtain ⟨k, rfl⟩ : ∃ k, fuel = k + 2 := ⟨fuel - 2, by omega⟩
    have hla : p.lookahead = some (.keyword (Body.blockKw isLoop)) := hp.lookahead
    have hkind : (p.lookahead = some (.keyword (utf8 "loop"))) = (isLoop = true) := by
      rw [hla]
      simp only [Option.some.injEq, Token.keyword.injEq, hloop]
    obtain ⟨q, hq, hat, -⟩ := hp.bump
    have hfresh : Fresh (body.tokens ++ (.rparen :: rest)) := body.fresh trivial
    obtain ⟨q₁, q₂, hlabel, hty, hat₂⟩ := folded_opener label ty hat hfresh
    have hk : 2 * (body.tokens ++ (.rparen :: rest)).length + 1 ≤ k := by
      rw [List.length_cons, List.length_append] at hfuel
      omega
    have hemit : (Body.block false isLoop label ty body .nil).emit ns.resolver labels =
        (body.emit ns.resolver (label :: labels)).map fun inside => blockInstr isLoop ty :: inside ++ [.end] := by
      simp only [Body.emit, show ns.resolver.opens false label ty = true by rfl]
      cases body.emit ns.resolver (label :: labels) with
      | none => rfl
      | some inside => rfl
    have hmap := (hbody.list (label :: labels) k hat₂ hk).map fun inside => blockInstr isLoop ty :: inside ++ [.end]
    rw [hemit]
    rw [Parser.parseFoldedInstr, hla]
    dsimp only
    rw [if_neg hif, if_pos hblock, Parser.parseFoldedBlockOrLoop]
    simp only [hkind, hq, bind_ok, hlabel, hty]
    simp only [bind_assoc, bind_ok] at hmap
    exact hmap

/-- The `(then …)` ends the condition. -/
theorem condition_then (hthn : Parses thn) (labels : List (Option Name)) {fuel : Nat}
    (hp : p.At F (.lparen :: .keyword (utf8 "then") :: (thn.tokens ++ (.rparen :: rest))) ns)
    (hfuel : 2 * (thn.tokens ++ (.rparen :: rest)).length + 2 ≤ fuel) :
    Outcome F (Parser.parseCondition F fuel p) ((thn.emit ns.resolver labels).map fun xs => ([], xs)) rest ns := by
  obtain ⟨k, rfl⟩ : ∃ k, fuel = k + 1 := ⟨fuel - 1, by omega⟩
  have hla : p.lookahead = some .lparen := hp.lookahead
  obtain ⟨q, hq, hat, -⟩ := hp.bump
  have hla' : q.lookahead = some (.keyword (utf8 "then")) := hat.lookahead
  obtain ⟨q', hq', hat', -⟩ := hat.bump
  have hmap := (hthn.list labels k hat' (by omega)).map fun xs => (([] : List Instr), xs)
  rw [Parser.parseCondition, if_pos hla, hq, bind_ok, if_pos hla', hq', bind_ok]
  simp only [bind_assoc, bind_ok] at hmap
  exact hmap

def foldedElse (els : Body F) : List Token :=
  if els.isNil then [] else .lparen :: .keyword (utf8 "else") :: els.tokens ++ [.rparen]

theorem parses_cond_folded (hfolded : test.Folded) (htest : Parses test) (hthn : Parses thn) (hels : Parses els) :
    Parses (.cond false label ty test thn els .nil) := by
  refine .of_folded (openerTokens (utf8 "if") label ty ++ test.tokens ++ .lparen :: .keyword (utf8 "then") ::
    thn.tokens ++
      .rparen :: foldedElse els ++ [.rparen]) (by simp [Body.tokens, foldedElse]) (fun rest heq => ?_)
    fun labels fuel p rest ns hp hfuel => ?_
  · exact (operator_fresh lookup_if).2.2.2 (Token.keyword.inj (Option.some.inj heq))
  have htokens : openerTokens (utf8 "if") label ty ++ test.tokens ++ .lparen :: .keyword (utf8 "then") ::
      thn.tokens ++
      .rparen :: foldedElse els ++ [.rparen] ++ rest =
        .keyword (utf8 "if") :: (labelTokens label ++ typeTokens ty ++ (test.tokens ++
          .lparen :: .keyword (utf8 "then") ::
          (thn.tokens ++ .rparen :: (foldedElse els ++ .rparen :: rest)))) := by
    simp [openerTokens]
  rw [htokens] at hp hfuel
  obtain ⟨k, rfl⟩ : ∃ k, fuel = k + 2 := ⟨fuel - 2, by omega⟩
  rw [List.length_cons, List.length_append] at hfuel
  have hfresh : Fresh (test.tokens ++ .lparen :: .keyword (utf8 "then") ::
      (thn.tokens ++ .rparen :: (foldedElse els ++ .rparen :: rest))) :=
    test.fresh (fun heq => absurd (Token.keyword.inj (Option.some.inj heq)) (by decide))
  have hla : p.lookahead = some (.keyword (utf8 "if")) := hp.lookahead
  obtain ⟨q, hq, hat, -⟩ := hp.bump
  obtain ⟨q₁, q₂, hlabel, hty, hat₂⟩ := folded_opener label ty hat hfresh
  have hcondition := (htest.condition hfolded labels k q₂ _ ns hat₂ (by omega)).outcome
    fun q' k' hq' hk' => condition_then hthn (label :: labels) hq'
      (by rw [List.length_cons, List.length_cons] at hk'; omega)
  have hk : 2 * (foldedElse els ++ .rparen :: rest).length + 1 ≤ k := by
    simp only [List.length_append, List.length_cons] at hfuel ⊢
    omega
  have hrun : Outcome F (Parser.parseFoldedInstr F (k + 2) p) (do
      let c ← (do
        let xs ← test.emit ns.resolver labels
        let x ← (thn.emit ns.resolver (label :: labels)).map fun xs => ([], xs)
        some (addFst xs x))
      let elseInstrs ← els.emit ns.resolver (label :: labels)
      some (c.1 ++ .if (blockTypeByte ty) :: c.2 ++ (if elseInstrs.isEmpty then [] else
        .else :: elseInstrs) ++ [.end])) rest ns := by
    rw [Parser.parseFoldedInstr, hla]
    dsimp only
    rw [if_pos rfl, Parser.parseFoldedIf]
    simp only [hq, bind_ok, hlabel, hty]
    refine hcondition.bind fun c q hq => ?_
    dsimp only
    have hclose : ∀ (elseInstrs : List Instr) (q : Parser), q.At F (.rparen :: rest) ns →
        Outcome F (q.expectRparen F >>= fun q => .ok (c.1 ++ .if (blockTypeByte ty) :: c.2 ++
          (if elseInstrs.isEmpty then [] else .else :: elseInstrs) ++ [.end], q))
          (some (c.1 ++ .if (blockTypeByte ty) :: c.2 ++ (if elseInstrs.isEmpty then [] else
              .else :: elseInstrs) ++ [.end]))
          rest ns := by
      intro elseInstrs q hq
      obtain ⟨q', hq', hat'⟩ := hq.expectRparen
      exact ⟨q', by rw [hq', bind_ok], hat'⟩
    by_cases hnil : els.isNil = true
    · rw [foldedElse, if_pos hnil, List.nil_append] at hq
      have hla : q.lookahead = some .rparen := hq.lookahead
      obtain rfl : els = .nil := by
        cases els with
        | nil => rfl
        | _ => cases hnil
      rw [if_neg (by rw [hla]; decide)]
      exact hclose [] q hq
    · have helse : foldedElse els ++ .rparen :: rest = .lparen :: .keyword (utf8 "else") ::
          (els.tokens ++ .rparen :: .rparen :: rest) := by
        simp [foldedElse, hnil]
      rw [helse] at hq
      rw [helse, List.length_cons, List.length_cons] at hk
      have hla : q.lookahead = some .lparen := hq.lookahead
      obtain ⟨q₃, hq₃, hat₃, -⟩ := hq.bump
      have hla₃ : q₃.lookahead = some (.keyword (utf8 "else")) := hat₃.lookahead
      obtain ⟨q₄, hq₄, hat₄, -⟩ := hat₃.bump
      have hlist := (hels.list (label :: labels) k hat₄ (by omega)).bind
        (f := fun r => r.2.expectRparen F >>= fun q => .ok (c.1 ++ .if (blockTypeByte ty) :: c.2 ++
          (if r.1.isEmpty then [] else .else :: r.1) ++ [.end], q)) hclose
      rw [if_pos hla, hq₃, bind_ok, if_pos hla₃, hq₄, bind_ok]
      simp only [bind_assoc, bind_ok] at hlist
      exact hlist
  have hemit : (Body.cond false label ty test thn els .nil).emit ns.resolver labels = (do
      let c ← (do
        let xs ← test.emit ns.resolver labels
        let x ← (thn.emit ns.resolver (label :: labels)).map fun xs => ([], xs)
        some (addFst xs x))
      let elseInstrs ← els.emit ns.resolver (label :: labels)
      some (c.1 ++ .if (blockTypeByte ty) :: c.2 ++ (if elseInstrs.isEmpty then [] else
        .else :: elseInstrs) ++ [.end])) := by
    simp only [Body.emit, show ns.resolver.opens false label ty = true by rfl]
    cases test.emit ns.resolver labels with
    | none => rfl
    | some condition =>
      cases thn.emit ns.resolver (label :: labels) with
      | none => rfl
      | some thenInstrs =>
        cases els.emit ns.resolver (label :: labels) with
        | none => rfl
        | some elseInstrs => simp [addFst, guard]
  rw [hemit]
  exact hrun

end

/-! ## The whole body -/

theorem Body.parses (b : Body F) (h : b.WellFormed) : Parses b := by
  induction b with
  | nil => exact parses_nil
  | op flat o args tail ihArgs ihTail =>
    obtain ⟨hfolded, hargs, htail⟩ := h
    have hnode : Parses (.op flat o args .nil) := by
      cases flat with
      | true => exact parses_op_flat o (ihArgs hargs)
      | false => exact parses_op_folded o (hfolded rfl) (ihArgs hargs)
    refine hnode.append (ihTail htail) ?_ (fun R labels => ?_) fun hf => ⟨⟨hf.1, trivial⟩, hf.2⟩
    · simp [Body.tokens]
    · simp only [Body.emit, both]
      cases args.emit R labels with
      | none => rfl
      | some operands =>
        cases o.instr R labels with
        | none => rfl
        | some instr => cases tail.emit R labels <;> simp
  | block flat isLoop label ty body tail ihBody ihTail =>
    obtain ⟨hbody, htail⟩ := h
    have hnode : Parses (.block flat isLoop label ty body .nil) := by
      cases flat with
      | true => exact parses_block_flat isLoop (ihBody hbody)
      | false => exact parses_block_folded isLoop (ihBody hbody)
    refine hnode.append (ihTail htail) ?_ (fun R labels => ?_) fun hf => ⟨⟨hf.1, trivial⟩, hf.2⟩
    · simp [Body.tokens]
    · simp only [Body.emit, both]
      cases R.opens flat label ty with
      | false => rfl
      | true =>
        cases body.emit R (label :: labels) with
        | none => rfl
        | some inside => cases tail.emit R labels <;> simp [guard]
  | cond flat label ty test thn els tail ihTest ihThn ihEls ihTail =>
    obtain ⟨hfolded, htest, hthn, hels, htail⟩ := h
    have hnode : Parses (.cond flat label ty test thn els .nil) := by
      cases flat with
      | true => exact parses_cond_flat (ihTest htest) (ihThn hthn) (ihEls hels)
      | false => exact parses_cond_folded (hfolded rfl) (ihTest htest) (ihThn hthn) (ihEls hels)
    refine hnode.append (ihTail htail) ?_ (fun R labels => ?_) fun hf => ⟨⟨hf.1, trivial⟩, hf.2⟩
    · simp [Body.tokens]
    · simp only [Body.emit, both]
      cases test.emit R labels with
      | none => rfl
      | some condition =>
        cases R.opens flat label ty with
        | false => rfl
        | true =>
          cases thn.emit R (label :: labels) with
          | none => rfl
          | some thenInstrs =>
            cases els.emit R (label :: labels) with
            | none => rfl
            | some elseInstrs => cases tail.emit R labels <;> simp [guard]

theorem parse_body {b : Body F} (hb : b.WellFormed) (labels : List (Option Name)) (fuel : Nat)
    (hp : p.At F (b.tokens ++ .rparen :: rest) ns) (hfuel : 2 * (b.tokens ++ .rparen :: rest).length + 1 ≤ fuel) :
    Outcome F (Parser.parseInstrs F fuel p) (b.emit ns.resolver labels) (.rparen :: rest) ns := by
  have hloop := ((b.parses hb).instrs labels fuel p _ ns hp trivial hfuel).outcome (x := some [])
    fun q k hq hk => ⟨q, instrs_rparen hq (by omega), hq⟩
  cases hemit : b.emit ns.resolver labels with
  | none =>
    rw [hemit] at hloop
    exact hloop
  | some xs =>
    rw [hemit] at hloop
    obtain ⟨q, hq, hat⟩ := hloop
    exact ⟨q, by rw [hq, List.append_nil], hat⟩

end WasmOs.Asm
