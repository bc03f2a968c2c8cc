import WasmOs.BodyParse

/-!
# Folded and flat forms

A tree of instructions without names has one list of instructions, whether it is written folded throughout
or flat throughout.
-/

namespace WasmOs.Asm

variable {F : FloatOps}

/-- Instructions with their operands, blocks, loops and branches, and what follows them. -/
inductive Tree (F : FloatOps) where
  | nil
  | op (kw : List UInt8) (imm : List Token) (instr : Instr) (spells : Spells F kw imm instr)
      (operator : instr ≠ .else ∧ instr ≠ .end) (args rest : Tree F)
  | block (isLoop : Bool) (ty : Option ValType) (body rest : Tree F)
  | cond (ty : Option ValType) (test thn els rest : Tree F)

namespace Tree

def form (flat : Bool) : Tree F → Body F
  | nil => .nil
  | op kw imm instr spells operator args rest =>
    .op flat (.spelled kw imm instr spells operator) (args.form flat) (rest.form flat)
  | block isLoop ty body rest => .block flat isLoop none ty (body.form flat) (rest.form flat)
  | cond ty test thn els rest => .cond flat none ty (test.form flat) (thn.form flat) (els.form flat)
    (rest.form flat)

def folded (t : Tree F) : List Token := (t.form false).tokens

def flat (t : Tree F) : List Token := (t.form true).tokens

def isNil : Tree F → Bool
  | nil => true
  | _ => false

/-- The operands before the instruction; what is inside a block between its opener and `end`. -/
def postOrder : Tree F → List Instr
  | nil => []
  | op _ _ instr _ _ args rest => args.postOrder ++ instr :: rest.postOrder
  | block isLoop ty body rest => blockInstr isLoop ty :: body.postOrder ++ .end :: rest.postOrder
  | cond ty test thn els rest =>
    test.postOrder ++ .if (blockTypeByte ty) :: thn.postOrder ++
      (if els.isNil then [] else .else :: els.postOrder) ++ .end :: rest.postOrder

theorem postOrder_isEmpty (t : Tree F) : t.postOrder.isEmpty = t.isNil := by
  cases t with
  | nil => rfl
  | op kw imm instr spells operator args rest => simp [postOrder, isNil]
  | block isLoop ty body rest => rfl
  | cond ty test thn els rest => simp [postOrder, isNil]

theorem form_folded (t : Tree F) : (t.form false).Folded := by
  induction t with
  | nil => trivial
  | op kw imm instr spells operator args rest _ ihRest => exact ⟨rfl, ihRest⟩
  | block isLoop ty body rest _ ihRest => exact ⟨rfl, ihRest⟩
  | cond ty test thn els rest _ _ _ ihRest => exact ⟨rfl, ihRest⟩

theorem form_wellFormed (t : Tree F) (flat : Bool) : (t.form flat).WellFormed := by
  have hfolded : ∀ s : Tree F, flat = false → (s.form flat).Folded := by
    rintro s rfl
    exact s.form_folded
  induction t with
  | nil => trivial
  | op kw imm instr spells operator args rest ihArgs ihRest => exact ⟨hfolded args, ihArgs, ihRest⟩
  | block isLoop ty body rest ihBody ihRest => exact ⟨ihBody, ihRest⟩
  | cond ty test thn els rest ihTest ihThn ihEls ihRest => exact ⟨hfolded test, ihTest, ihThn, ihEls, ihRest⟩

/-- Without names there is nothing to resolve, and no opener has a label. -/
theorem form_emit (t : Tree F) (flat : Bool) (ns : Names) (labels : List (Option Name)) :
    (t.form flat).emit ns.resolver labels = some t.postOrder := by
  have hopens : ∀ ty, ns.resolver.opens flat none ty = true := by
    intro ty
    simp [Names.resolver]
  induction t generalizing labels with
  | nil => rfl
  | op kw imm instr spells operator args rest ihArgs ihRest =>
    simp only [form, Body.emit, ihArgs, ihRest, Op.instr]
    rfl
  | block isLoop ty body rest ihBody ihRest =>
    simp only [form, Body.emit, ihBody, ihRest, hopens]
    rfl
  | cond ty test thn els rest ihTest ihThn ihEls ihRest =>
    simp only [form, Body.emit, ihTest, ihThn, ihEls, ihRest, hopens, postOrder, ← postOrder_isEmpty els]
    rfl

end Tree

/-- Either form is read up to the parenthesis that closes the list, and gives the instructions of the tree. -/
theorem parse_tree (t : Tree F) (flat : Bool) {p : Parser} {rest : List Token} {ns : Names}
    (hp : p.At F ((t.form flat).tokens ++ .rparen :: rest) ns) :
    ∃ q, p.parseInstrs F p.fuel = .ok (t.postOrder, q) ∧ q.At F (.rparen :: rest) ns := by
  have hfuel := hp.fuel
  have hout := parse_body (t.form_wellFormed flat) [] p.fuel hp (by omega)
  rw [t.form_emit] at hout
  exact hout

theorem folded_flat_agree (t : Tree F) {p p' : Parser} {rest rest' : List Token} {ns ns' : Names}
    (hfolded : p.At F (t.folded ++ .rparen :: rest) ns) (hflat : p'.At F (t.flat ++ .rparen :: rest') ns') :
    ∃ q q', p.parseInstrs F p.fuel = .ok (t.postOrder, q) ∧ p'.parseInstrs F p'.fuel = .ok (t.postOrder, q') ∧
      q.At F (.rparen :: rest) ns ∧ q'.At F (.rparen :: rest') ns' := by
  obtain ⟨q, hq, hat⟩ := parse_tree t false hfolded
  obtain ⟨q', hq', hat'⟩ := parse_tree t true hflat
  exact ⟨q, q', hq, hq', hat, hat'⟩

/-- The block type is looked for and the condition comes instead. -/
theorem folded_flat_agree_if : ∃ p p' q q',
    Parser.new default (utf8 "(if (i32.eqz (local.get 0)) (then (nop)) (else (drop (i32.const 2)))))") = .ok p ∧
    Parser.new default (utf8 "local.get 0 i32.eqz if nop else i32.const 2 drop end)") = .ok p' ∧
    p.parseInstrs default p.fuel =
    .ok ([.localGet 0, .i32Eqz, .if 0x40, .nop, .else, .i32Const 2, .drop, .end], q) ∧
    p'.parseInstrs default p'.fuel =
    .ok ([.localGet 0, .i32Eqz, .if 0x40, .nop, .else, .i32Const 2, .drop, .end], q') := by
  let leaf : Tree default := .op (utf8 "local.get") [.int 0] (.localGet 0) (.loc 0 rfl) ⟨nofun, nofun⟩ .nil .nil
  let test : Tree default := .op (utf8 "i32.eqz") [] .i32Eqz (.plain rfl) ⟨nofun, nofun⟩ leaf .nil
  let thn : Tree default := .op (utf8 "nop") [] .nop (.plain rfl) ⟨nofun, nofun⟩ .nil .nil
  let two : Tree default := .op (utf8 "i32.const") [.int 2] (.i32Const 2) (.int 2 rfl) ⟨nofun, nofun⟩ .nil .nil
  let els : Tree default := .op (utf8 "drop") [] .drop (.plain rfl) ⟨nofun, nofun⟩ two .nil
  let t : Tree default := .cond none test thn els .nil
  have hfolded : Tokenizer.Supplies default
      ⟨utf8 "(if (i32.eqz (local.get 0)) (then (nop)) (else (drop (i32.const 2)))))", 0⟩
      (t.folded ++ [.rparen]) := Tokenizer.supplies_of_tokens 40 (by rfl)
  have hflat : Tokenizer.Supplies default ⟨utf8 "local.get 0 i32.eqz if nop else i32.const 2 drop end)", 0⟩
      (t.flat ++ [.rparen]) := Tokenizer.supplies_of_tokens 40 (by rfl)
  obtain ⟨p, hp, hat⟩ := Parser.new_at hfolded
  obtain ⟨p', hp', hat'⟩ := Parser.new_at hflat
  obtain ⟨q, q', hq, hq', -⟩ := folded_flat_agree t hat hat'
  exact ⟨p, p', q, q', hp, hp', hq, hq'⟩

end WasmOs.Asm
