import WasmOs.BodyParse

/-!
# What names stand for

Two readings of the names of a body give the same instructions exactly when they agree at every instruction
and opener. The reading the text has is compared with the one the parser uses.
-/

namespace WasmOs.Asm

variable {F : FloatOps}

/-! ## Agreement -/

/-- A property of every instruction, with the labels of the blocks around it, and of every opener. -/
def Body.All (onOp : List (Option Name) → Op F → Prop) (onOpener : Bool → Option Name → Option ValType → Prop) :
    List (Option Name) → Body F → Prop
  | _, nil => True
  | labels, op _ o args rest => args.All onOp onOpener labels ∧ onOp labels o ∧ rest.All onOp onOpener labels
  | labels, block flat _ label ty body rest =>
    onOpener flat label ty ∧ body.All onOp onOpener (label :: labels) ∧ rest.All onOp onOpener labels
  | labels, cond flat label ty test thn els rest =>
    test.All onOp onOpener labels ∧ onOpener flat label ty ∧ thn.All onOp onOpener (label :: labels) ∧
      els.All onOp onOpener (label :: labels) ∧ rest.All onOp onOpener labels

section
variable {labels : List (Option Name)} {onOp onOp' guardOp : List (Option Name) → Op F → Prop}
  {onOpener onOpener' guardOpener : Bool → Option Name → Option ValType → Prop}

theorem Body.All.congr {b : Body F} (h : b.All guardOp guardOpener labels)
    (hop : ∀ labels o, guardOp labels o → (onOp labels o ↔ onOp' labels o))
    (hopener : ∀ flat label ty, guardOpener flat label ty → (onOpener flat label ty ↔ onOpener' flat label ty)) :
    b.All onOp onOpener labels ↔ b.All onOp' onOpener' labels := by
  induction b generalizing labels with
  | nil => exact Iff.rfl
  | op flat o args rest ihArgs ihRest =>
    obtain ⟨hargs, ho, hrest⟩ := h
    exact and_congr (ihArgs hargs) (and_congr (hop labels o ho) (ihRest hrest))
  | block flat isLoop label ty body rest ihBody ihRest =>
    obtain ⟨ho, hbody, hrest⟩ := h
    exact and_congr (hopener flat label ty ho) (and_congr (ihBody hbody) (ihRest hrest))
  | cond flat label ty test thn els rest ihTest ihThn ihEls ihRest =>
    obtain ⟨htest, ho, hthn, hels, hrest⟩ := h
    exact and_congr (ihTest htest) (and_congr (hopener flat label ty ho)
      (and_congr (ihThn hthn) (and_congr (ihEls hels) (ihRest hrest))))

end

def Body.Resolved (R : Resolver) (labels : List (Option Name)) (b : Body F) : Prop :=
  b.All (fun labels o => (o.instr R labels).isSome) (fun flat label ty => R.opens flat label ty = true) labels

def Body.Agrees (R R' : Resolver) (labels : List (Option Name)) (b : Body F) : Prop :=
  b.All (fun labels o => o.instr R labels = o.instr R' labels) (fun flat label ty => R.opens flat label ty =
    true) labels

section
variable {R R' : Resolver} {labels : List (Option Name)} {xs ys : List Instr}

theorem Body.emit_op_iff {flat : Bool} {o : Op F} {args rest : Body F} :
    (Body.op flat o args rest).emit R labels = some xs ↔
    ∃ operands instr instrs, args.emit R labels = some operands ∧ o.instr R labels = some instr ∧
      rest.emit R labels = some instrs ∧ xs = operands ++ instr :: instrs := by
  simp only [Body.emit, Option.bind_eq_bind, Option.bind_eq_some_iff, Option.some.injEq]
  constructor
  · rintro ⟨operands, hargs, instr, ho, instrs, hrest, rfl⟩
    exact ⟨operands, instr, instrs, hargs, ho, hrest, rfl⟩
  · rintro ⟨operands, instr, instrs, hargs, ho, hrest, rfl⟩
    exact ⟨operands, hargs, instr, ho, instrs, hrest, rfl⟩

theorem Body.emit_block_iff {flat isLoop : Bool} {label : Option Name} {ty : Option ValType} {body rest : Body F} :
    (Body.block flat isLoop label ty body rest).emit R labels = some xs ↔
      ∃ inside instrs, R.opens flat label ty = true ∧ body.emit R (label :: labels) = some inside ∧
        rest.emit R labels = some instrs ∧ xs = blockInstr isLoop ty :: inside ++ .end :: instrs := by
  simp only [Body.emit, Option.bind_eq_bind, Option.bind_eq_some_iff, Option.some.injEq, Option.guard_eq_some']
  constructor
  · rintro ⟨-, hopens, inside, hbody, instrs, hrest, rfl⟩
    exact ⟨inside, instrs, hopens, hbody, hrest, rfl⟩
  · rintro ⟨inside, instrs, hopens, hbody, hrest, rfl⟩
    exact ⟨(), hopens, inside, hbody, instrs, hrest, rfl⟩

theorem Body.emit_cond_iff {flat : Bool} {label : Option Name} {ty : Option ValType} {test thn els rest : Body F} :
    (Body.cond flat label ty test thn els rest).emit R labels = some xs ↔
      ∃ condition thenInstrs elseInstrs instrs, test.emit R labels = some condition ∧ R.opens flat label ty = true ∧
        thn.emit R (label :: labels) = some thenInstrs ∧ els.emit R (label :: labels) = some elseInstrs ∧
        rest.emit R labels = some instrs ∧ xs = condition ++ .if (blockTypeByte ty) :: thenInstrs ++
          (if els.isNil then [] else .else :: elseInstrs) ++ .end :: instrs := by
  simp only [Body.emit, Option.bind_eq_bind, Option.bind_eq_some_iff, Option.some.injEq, Option.guard_eq_some']
  constructor
  · rintro ⟨condition, htest, -, hopens, thenInstrs, hthn, elseInstrs, hels, instrs, hrest, rfl⟩
    exact ⟨condition, thenInstrs, elseInstrs, instrs, htest, hopens, hthn, hels, hrest, by rw [emit_isEmpty hels]⟩
  · rintro ⟨condition, thenInstrs, elseInstrs, instrs, htest, hopens, hthn, hels, hrest, rfl⟩
    exact ⟨condition, htest, (), hopens, thenInstrs, hthn, elseInstrs, hels, instrs,
      hrest, by rw [emit_isEmpty hels]⟩

theorem else_length (empty : Bool) (h : xs.length = ys.length) :
    (if empty then [] else Instr.else :: xs).length = (if empty then [] else Instr.else :: ys).length := by
  split
  · rfl
  · rw [List.length_cons, List.length_cons, h]

theorem Body.emit_length {b : Body F} (h : b.emit R labels = some xs) (h' : b.emit R' labels = some ys) :
    xs.length = ys.length := by
  induction b generalizing labels xs ys with
  | nil =>
    cases h
    cases h'
    rfl
  | op flat o args rest ihArgs ihRest =>
    obtain ⟨a, i, r, ha, -, hr, rfl⟩ := emit_op_iff.mp h
    obtain ⟨a', i', r', ha', -, hr', rfl⟩ := emit_op_iff.mp h'
    simp only [List.length_append, List.length_cons, ihArgs ha ha', ihRest hr hr']
  | block flat isLoop label ty body rest ihBody ihRest =>
    obtain ⟨a, r, -, ha, hr, rfl⟩ := emit_block_iff.mp h
    obtain ⟨a', r', -, ha', hr', rfl⟩ := emit_block_iff.mp h'
    simp only [List.length_append, List.length_cons, ihBody ha ha', ihRest hr hr']
  | cond flat label ty test thn els rest ihTest ihThn ihEls ihRest =>
    obtain ⟨c, t, e, r, hc, -, ht, he, hr, rfl⟩ := emit_cond_iff.mp h
    obtain ⟨c', t', e', r', hc', -, ht', he', hr', rfl⟩ := emit_cond_iff.mp h'
    simp only [List.length_append, List.length_cons, ihTest hc hc', ihThn ht ht', ihRest hr hr',
      else_length els.isNil (ihEls he he')]

theorem Body.emit_resolved {b : Body F} (h : b.emit R labels = some xs) : b.Resolved R labels := by
  induction b generalizing labels xs with
  | nil => trivial
  | op flat o args rest ihArgs ihRest =>
    obtain ⟨a, i, r, ha, hi, hr, rfl⟩ := emit_op_iff.mp h
    exact ⟨ihArgs ha, Option.isSome_of_eq_some hi, ihRest hr⟩
  | block flat isLoop label ty body rest ihBody ihRest =>
    obtain ⟨a, r, hopens, ha, hr, rfl⟩ := emit_block_iff.mp h
    exact ⟨hopens, ihBody ha, ihRest hr⟩
  | cond flat label ty test thn els rest ihTest ihThn ihEls ihRest =>
    obtain ⟨c, t, e, r, hc, hopens, ht, he, hr, rfl⟩ := emit_cond_iff.mp h
    exact ⟨ihTest hc, hopens, ihThn ht, ihEls he, ihRest hr⟩

/-- The instructions are the same exactly where every name and opener is read the same way. -/
theorem Body.emit_iff_agrees {b : Body F} (h : b.emit R' labels = some xs) :
    b.emit R labels = some xs ↔ b.Agrees R R' labels := by
  induction b generalizing labels xs with
  | nil => exact ⟨fun _ => trivial, fun _ => h⟩
  | op flat o args rest ihArgs ihRest =>
    obtain ⟨a, i, r, ha, hi, hr, rfl⟩ := emit_op_iff.mp h
    rw [emit_op_iff]
    constructor
    · rintro ⟨a', i', r', ha', hi', hr', heq⟩
      obtain ⟨rfl, htail⟩ := List.append_inj heq (emit_length ha ha')
      cases htail
      exact ⟨(ihArgs ha).mp ha', hi'.trans hi.symm, (ihRest hr).mp hr'⟩
    · rintro ⟨hargs, ho, hrest⟩
      exact ⟨a, i, r, (ihArgs ha).mpr hargs, ho.trans hi, (ihRest hr).mpr hrest, rfl⟩
  | block flat isLoop label ty body rest ihBody ihRest =>
    obtain ⟨a, r, -, ha, hr, rfl⟩ := emit_block_iff.mp h
    rw [emit_block_iff]
    constructor
    · rintro ⟨a', r', hopens, ha', hr', heq⟩
      obtain ⟨rfl, htail⟩ := List.append_inj (List.cons.inj heq).2 (emit_length ha ha')
      cases htail
      exact ⟨hopens, (ihBody ha).mp ha', (ihRest hr).mp hr'⟩
    · rintro ⟨hopens, hbody, hrest⟩
      exact ⟨a, r, hopens, (ihBody ha).mpr hbody, (ihRest hr).mpr hrest, rfl⟩
  | cond flat label ty test thn els rest ihTest ihThn ihEls ihRest =>
    obtain ⟨c, t, e, r, hc, -, ht, he, hr, rfl⟩ := emit_cond_iff.mp h
    rw [emit_cond_iff]
    constructor
    · rintro ⟨c', t', e', r', hc', hopens, ht', he', hr', heq⟩
      have hlc := emit_length hc' hc
      have hlt := emit_length ht' ht
      have hle := else_length els.isNil (emit_length he' he)
      obtain ⟨hfront, hend⟩ :=
        List.append_inj heq.symm (by simp only [List.length_append, List.length_cons, hlc, hlt, hle])
      obtain ⟨hfront, helse⟩ :=
        List.append_inj hfront (by simp only [List.length_append, List.length_cons, hlc, hlt])
      obtain ⟨rfl, hthen⟩ := List.append_inj hfront hlc
      cases hend
      cases hthen
      have hels : els.emit R (label :: labels) = some e := by
        cases hnil : els.isNil with
        | true =>
          have hempty := List.isEmpty_iff.mp ((emit_isEmpty he).trans hnil)
          have hempty' := List.isEmpty_iff.mp ((emit_isEmpty he').trans hnil)
          rw [he', hempty, hempty']
        | false =>
          rw [hnil] at helse
          rw [he', (List.cons.inj helse).2]
      exact ⟨(ihTest hc).mp hc', hopens, (ihThn ht).mp ht', (ihEls he).mp hels, (ihRest hr).mp hr'⟩
    · rintro ⟨htest, hopens, hthn, hels, hrest⟩
      exact ⟨c, t, e, r, (ihTest hc).mpr htest, hopens, (ihThn ht).mpr hthn, (ihEls he).mpr hels,
        (ihRest hr).mpr hrest, rfl⟩

end

/-! ## Labels -/

/-- The number of labels between a branch and the innermost block of this name. -/
def labelDepth (labels : List (Option Name)) (l : Name) : Option Nat := labels.findIdx? (· = some l)

/-- The reading the text has: a label is its depth, and an opener with a label is like one without. -/
def Names.scoped (ns : Names) : Resolver where
  label labels l := (labelDepth labels l).bind fun d => if d < 2 ^ 32 then some (UInt32.ofNat d) else none
  func := ns.resolver.func
  loc := ns.resolver.loc
  opens _ _ _ := true

/-- A branch by name leads to the block it stands in. -/
def Op.Innermost (labels : List (Option Name)) : Op F → Prop
  | branch _ l => labels.head? = some (some l)
  | _ => True

/-- Branches by name lead to the innermost block, and no flat opener has both a label and a result. -/
def Body.Simple (b : Body F) : Prop :=
  b.All Op.Innermost (fun flat label ty => ¬(flat = true ∧ label.isSome = true ∧ ty.isSome = true)) []

theorem labelDepth_eq_zero {labels : List (Option Name)} {l : Name} :
    labelDepth labels l = some 0 ↔ labels.head? = some (some l) := by
  cases labels with
  | nil => simp [labelDepth]
  | cons label labels => simp [labelDepth, List.findIdx?_cons]

theorem scoped_label_zero (ns : Names) {labels : List (Option Name)} {l : Name} :
    ns.scoped.label labels l = some 0 ↔ labels.head? = some (some l) := by
  rw [← labelDepth_eq_zero, Names.scoped, Option.bind_eq_some_iff]
  constructor
  · rintro ⟨d, hd, hzero⟩
    split at hzero
    · next hlt =>
      have hval : d % 2 ^ 32 = 0 := congrArg UInt32.toNat (Option.some.inj hzero)
      rw [Nat.mod_eq_of_lt hlt] at hval
      rw [hd, hval]
    · cases hzero
  · intro hd
    exact ⟨0, hd, rfl⟩

theorem Op.agrees_iff {ns : Names} {labels : List (Option Name)} {o : Op F}
    (h : (o.instr ns.scoped labels).isSome) :
    o.instr ns.resolver labels = o.instr ns.scoped labels ↔ o.Innermost labels := by
  cases o with
  | spelled kw imm instr spells operator => exact ⟨fun _ => trivial, fun _ => rfl⟩
  | call f => exact ⟨fun _ => trivial, fun _ => rfl⟩
  | «local» kw instr keyword x => exact ⟨fun _ => trivial, fun _ => rfl⟩
  | branch conditional l =>
    obtain ⟨d, hd⟩ : ∃ d, ns.scoped.label labels l = some d := by
      rw [Op.instr, Option.isSome_map] at h
      exact Option.isSome_iff_exists.mp h
    change some _ = Option.map _ _ ↔ labels.head? = some (some l)
    rw [← scoped_label_zero ns, hd, Option.map_some, Option.some.injEq, Option.some.injEq]
    cases conditional with
    | true => simp [eq_comm]
    | false => simp [eq_comm]

theorem Outcome.iff_eq {α : Type} {r : Parse (α × Parser)} {o : Option α} {ts : List Token} {ns : Names}
    {x : α} (h : Outcome F r o ts ns) :
    (∃ q, r = .ok (x, q) ∧ q.At F ts ns) ↔ o = some x := by
  cases o with
  | none =>
    obtain ⟨e, rfl, -⟩ := h
    constructor
    · rintro ⟨q, hq, -⟩
      cases hq
    · exact nofun
  | some y =>
    obtain ⟨q, rfl, hat⟩ := h
    constructor
    · rintro ⟨q', hq, -⟩
      cases hq
      rfl
    · intro heq
      cases heq
      exact ⟨q, rfl, hat⟩

theorem labels_resolved_iff {b : Body F} {p : Parser} {rest : List Token} {ns : Names} {xs : List Instr}
    (hb : b.WellFormed) (hp : p.At F (b.tokens ++ .rparen :: rest) ns) (hxs : b.emit ns.scoped [] = some xs) :
    (∃ q, p.parseInstrs F p.fuel = .ok (xs, q) ∧ q.At F (.rparen :: rest) ns) ↔ b.Simple := by
  have hfuel := hp.fuel
  have hout := parse_body hb [] p.fuel hp (by omega)
  rw [hout.iff_eq, Body.emit_iff_agrees hxs]
  refine (Body.emit_resolved hxs).congr (fun labels o ho => Op.agrees_iff ho) fun flat label ty _ => ?_
  cases flat <;> cases label <;> cases ty <;> simp [Names.resolver]

theorem labels_resolved_loop : ∃ p q, Parser.new default (utf8 "(loop $l (br_if $l (i32.const 1))))") = .ok p ∧
    p.parseInstrs default p.fuel = .ok ([.loop 0x40, .i32Const 1, .brIf 0, .end], q) := by
  let one : Body default :=
    .op false (.spelled (utf8 "i32.const") [.int 1] (.i32Const 1) (.int 1 rfl) ⟨nofun, nofun⟩) .nil .nil
  let b : Body default :=
    .block false true (some (utf8 "$l")) none (.op false (.branch true (utf8 "$l")) one .nil) .nil
  have htokens : Tokenizer.Supplies default ⟨utf8 "(loop $l (br_if $l (i32.const 1))))", 0⟩
      (b.tokens ++ [.rparen]) :=
    Tokenizer.supplies_of_tokens 20 (by rfl)
  obtain ⟨p, hp, hat⟩ := Parser.new_at htokens
  have hb : b.WellFormed := ⟨⟨fun _ => ⟨rfl, trivial⟩, ⟨fun _ => trivial, trivial, trivial⟩, trivial⟩, trivial⟩
  have hsimple : b.Simple := ⟨by decide, ⟨⟨trivial, trivial, trivial⟩, rfl, trivial⟩, trivial⟩
  have hxs : b.emit (Names.scoped ⟨[], [], []⟩) [] = some [.loop 0x40, .i32Const 1, .brIf 0, .end] := rfl
  obtain ⟨q, hq, -⟩ := (labels_resolved_iff hb hat hxs).mpr hsimple
  exact ⟨p, q, hp, hq⟩

def outerBranch : Body default :=
  .block false false (some (utf8 "$a")) none
    (.block false false (some (utf8 "$b")) none (.op false (.branch false (utf8 "$a")) .nil .nil) .nil) .nil

theorem outer_branch_inner : ∃ p q, Parser.new default (utf8 "(block $a (block $b (br $a))))") = .ok p ∧
    p.At default (outerBranch.tokens ++ [.rparen]) ⟨[], [], []⟩ ∧
    outerBranch.emit (Names.scoped ⟨[], [], []⟩) [] = some [.block 0x40, .block 0x40, .br 1, .end, .end] ∧
    p.parseInstrs default p.fuel = .ok ([.block 0x40, .block 0x40, .br 0, .end, .end], q) := by
  have htokens : Tokenizer.Supplies default ⟨utf8 "(block $a (block $b (br $a))))", 0⟩
      (outerBranch.tokens ++ [.rparen]) :=
    Tokenizer.supplies_of_tokens 20 (by rfl)
  obtain ⟨p, hp, hat⟩ := Parser.new_at htokens
  have hb : outerBranch.WellFormed := ⟨⟨⟨fun _ => trivial, trivial, trivial⟩, trivial⟩, trivial⟩
  have hfuel := hat.fuel
  have hout := parse_body hb [] p.fuel hat (by omega)
  obtain ⟨q, hq, -⟩ := hout
  exact ⟨p, q, hp, hat, rfl, hq⟩

end WasmOs.Asm
