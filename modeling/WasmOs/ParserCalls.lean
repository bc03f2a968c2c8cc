import Mathlib.Logic.Relation
import WasmOs.Lexemes
import WasmOs.WatModule

/-!
# What the parser of the assembler converts

`parse_i32` is called for `offset=…` and `align=…` behind a memory instruction and for a name that the parser looks
up and does not know. Which of them it comes to depends on the calls before: a name may be known by then, a list may
be skipped, and nothing is parsed behind a rejection.
-/

namespace WasmOs.Asm

/-! ## Numbers -/

/-- The digits in a text make a number below `2 ^ 31`. -/
def Fits (text : List UInt8) : Prop := Lexeme.decimal 0 (text.filter isAsciiDigit) < 2 ^ 31

theorem fits_minus {cs : List UInt8} : Fits (0x2D :: cs) ↔ Fits cs := by
  unfold Fits
  rw [List.filter_cons_of_neg (by decide)]

theorem digits_filter {ε : Type} (cs : List UInt8) (n : Nat) :
    (parseI32.digits cs n : Rust ε Nat) = parseI32.digits (cs.filter isAsciiDigit) n := by
  induction cs generalizing n with
  | nil => rfl
  | cons c cs ih =>
    by_cases hc : isAsciiDigit c = true
    · rw [List.filter_cons_of_pos hc, parseI32.digits, parseI32.digits, if_pos hc, if_pos hc]
      simp only [ih]
    · rw [List.filter_cons_of_neg hc, parseI32.digits, if_neg hc, ih]

theorem digits_text {ε : Type} (text : List UInt8) : (parseI32.digits text 0 : Rust ε Nat) =
    if Lexeme.decimal 0 (text.filter isAsciiDigit) < 2 ^ 31 then .ok (Lexeme.decimal 0 (text.filter isAsciiDigit))
    else .error .panic := by
  rw [digits_filter]
  exact Tokenizer.digits_eq (fun c hc => (List.mem_filter.mp hc).2) (by decide)

theorem Fits.digits {ε : Type} {text : List UInt8} (h : Fits text) :
    (parseI32.digits text 0 : Rust ε Nat) = .ok (Lexeme.decimal 0 (text.filter isAsciiDigit)) :=
  (digits_text text).trans (if_pos h)

theorem digits_panics {ε : Type} {text : List UInt8} (h : ¬ Fits text) :
    (parseI32.digits text 0 : Rust ε Nat) = .error .panic :=
  (digits_text text).trans (if_neg h)

theorem Fits.parseI32 {ε : Type} {text : List UInt8} (h : Fits text) : ∃ n, (parseI32 text : Rust ε _) = .ok n := by
  unfold Asm.parseI32
  split
  · rw [(fits_minus.mp h).digits, bind_ok]
    exact ⟨_, rfl⟩
  · rw [h.digits, bind_ok]
    exact ⟨_, rfl⟩

theorem parseI32_panics {ε : Type} {text : List UInt8} (h : ¬ Fits text) :
    (parseI32 text : Rust ε _) = .error .panic := by
  unfold Asm.parseI32
  split
  · rw [digits_panics (mt fits_minus.mpr h)]
    rfl
  · rw [digits_panics h]
    rfl

/-- The number in `offset=…` or `align=…`. -/
def memargText (kw : List UInt8) : Option (List UInt8) :=
  (Parser.stripPrefix (utf8 "offset=") kw).or (Parser.stripPrefix (utf8 "align=") kw)

namespace Parser

/-- The functions that may come to a conversion, with their arguments. -/
inductive Call where
  | module (p : Parser)
  | fields (fuel : Nat) (p : Parser) (m : Module)
  | field (p : Parser) (m : Module)
  | typeUse (p : Parser) (types : List FuncType)
  | typeIndex (p : Parser)
  | header (fidx : UInt32) (fuel : Nat) (p : Parser) (m : Module) (h : FuncHeader)
  | instrs (fuel : Nat) (p : Parser)
  | folded (fuel : Nat) (p : Parser)
  | operands (fuel : Nat) (p : Parser)
  | condition (fuel : Nat) (p : Parser)
  | foldedIf (fuel : Nat) (p : Parser)
  | foldedBlock (fuel : Nat) (p : Parser)
  | build (p : Parser) (kw : List UInt8)
  | memarg (fuel : Nat) (p : Parser) (offset align : UInt32)

section
variable (F : FloatOps)

/-- One call leads to another, at its end or on the way. -/
inductive Calls : Call → Call → Prop
  | fields {p p₁ p₂ p₃ name} : p.expectLparen F = .ok p₁ → p₁.expectKeyword F (utf8 "module") = .ok p₂ →
      p₂.tryIdentifier F = .ok (name, p₃) → Calls (.module p) (.fields p₃.fuel p₃ {})
  | field {fuel p p₁ m} : p.lookahead = some .lparen → p.expectLparen F = .ok p₁ →
    Calls (.fields (fuel + 1) p m) (.field p₁ m)
  | nextField {fuel p p₁ p₂ m m'} : p.lookahead = some .lparen → p.expectLparen F = .ok p₁ →
    p₁.parseField F m = .ok (m', p₂) →
      Calls (.fields (fuel + 1) p m) (.fields fuel p₂ m')
  | importType {p p₁ p₂ p₃ p₄ p₅ p₆ m modBytes nameBytes name} :
    p.lookahead = some (.keyword (utf8 "import")) → p.bump F = .ok p₁ →
      p₁.expectString F = .ok (modBytes, p₂) → p₂.expectString F = .ok (nameBytes, p₃) →
      p₃.expectLparen F = .ok p₄ →
      p₄.lookahead = some (.keyword (utf8 "func")) → p₄.bump F = .ok p₅ → p₅.tryIdentifier F = .ok (name, p₆) →
      Calls (.field p m) (.typeUse (p₆.nameFunc name (UInt32.ofNat m.imports.length)) m.types)
  | func {p p₁ p₂ q m name} : p.lookahead = some (.keyword (utf8 "func")) → p.bump F = .ok p₁ →
    p₁.tryIdentifier F = .ok (name, p₂) →
      q = { p₂.nameFunc name (UInt32.ofNat (m.imports.length + m.funcs.length)) with localNames := [] } →
      Calls (.field p m) (.header (UInt32.ofNat (m.imports.length + m.funcs.length)) q.fuel q m
      ⟨false, 0, [], [], [], 0⟩)
  | typeUse {p p₁ p₂ types} : p.lookahead = some .lparen → p.expectLparen F = .ok p₁ →
    p₁.lookahead = some (.keyword (utf8 "type")) →
      p₁.bump F = .ok p₂ → Calls (.typeUse p types) (.typeIndex p₂)
  | headerExport {fidx fuel p p₁ p₂ p₃ p₄ m h exportName} : p.lookahead = some .lparen → p.bump F = .ok p₁ →
      p₁.lookahead = some (.keyword (utf8 "export")) → p₁.bump F = .ok p₂ →
      p₂.expectString F = .ok (exportName, p₃) →
      p₃.expectRparen F = .ok p₄ →
      Calls (.header fidx (fuel + 1) p m h)
      (.header fidx fuel p₄ { m with exports := m.exports ++ [⟨exportName, 0x00, fidx⟩] } h)
  | headerType {fidx fuel p p₁ p₂ m h} : p.lookahead = some .lparen → p.bump F = .ok p₁ →
      p₁.lookahead = some (.keyword (utf8 "type")) → p₁.bump F = .ok p₂ →
      Calls (.header fidx (fuel + 1) p m h) (.typeIndex p₂)
  | typed {fidx fuel p p₁ p₂ p₃ p₄ m h typeIdx} : p.lookahead = some .lparen → p.bump F = .ok p₁ →
      p₁.lookahead = some (.keyword (utf8 "type")) → p₁.bump F = .ok p₂ → p₂.parseTypeIndex F = .ok (typeIdx, p₃) →
      p₃.expectRparen F = .ok p₄ →
      Calls (.header fidx (fuel + 1) p m h)
      (.header fidx fuel p₄ m { h with typeIdx := typeIdx, typeParsed := true })
  | headerParam {fidx fuel p p₁ p₂ p₃ p₄ m h vts next} : p.lookahead = some .lparen → p.bump F = .ok p₁ →
      p₁.lookahead = some (.keyword (utf8 "param")) → p₁.bump F = .ok p₂ →
      p₂.parseDeclared F h.nextLocal = .ok ((vts, next), p₃) →
      p₃.expectRparen F = .ok p₄ →
      Calls (.header fidx (fuel + 1) p m h)
      (.header fidx fuel p₄ m { h with params := h.params ++ vts, nextLocal := next })
  | headerResult {fidx fuel p p₁ p₂ p₃ p₄ m h vts} : p.lookahead = some .lparen → p.bump F = .ok p₁ →
      p₁.lookahead = some (.keyword (utf8 "result")) → p₁.bump F = .ok p₂ → p₂.valTypes F = .ok (vts, p₃) →
      p₃.expectRparen F = .ok p₄ →
      Calls (.header fidx (fuel + 1) p m h) (.header fidx fuel p₄ m { h with results := h.results ++ vts })
  | headerLocal {fidx fuel p p₁ p₂ p₃ p₄ m m' h h' vts next} : p.lookahead = some .lparen → p.bump F = .ok p₁ →
      p₁.lookahead = some (.keyword (utf8 "local")) → h.intern m = (h', m') → p₁.bump F = .ok p₂ →
      p₂.parseDeclared F h'.nextLocal = .ok ((vts, next), p₃) → p₃.expectRparen F = .ok p₄ →
      Calls (.header fidx (fuel + 1) p m h)
        (.header fidx fuel p₄ m' { h' with locals := h'.locals ++ vts.map Local.mk, nextLocal := next })
  | bodyFolded {fidx fuel p p₁ m h} : p.lookahead = some .lparen → p.bump F = .ok p₁ →
      (∀ kw ∈ ["export", "import", "type", "param", "result", "local"], p₁.lookahead ≠ some (.keyword (utf8 kw))) →
      Calls (.header fidx (fuel + 1) p m h) (.folded p₁.fuel p₁)
  | bodyRest {fidx fuel p p₁ p₂ m h folded} : p.lookahead = some .lparen → p.bump F = .ok p₁ →
      (∀ kw ∈ ["export", "import", "type", "param", "result", "local"], p₁.lookahead ≠ some (.keyword (utf8 kw))) →
      parseFoldedInstr F p₁.fuel p₁ = .ok (folded, p₂) → Calls (.header fidx (fuel + 1) p m h) (.instrs p₂.fuel p₂)
  | body {fidx fuel p m h} : p.lookahead ≠ some .lparen → Calls (.header fidx (fuel + 1) p m h) (.instrs p.fuel p)
  | instrsFolded {fuel p p₁} : p.lookahead = some .lparen → p.bump F = .ok p₁ →
    Calls (.instrs (fuel + 1) p) (.folded fuel p₁)
  | behindFolded {fuel p p₁ p₂ folded} : p.lookahead = some .lparen → p.bump F = .ok p₁ →
      parseFoldedInstr F fuel p₁ = .ok (folded, p₂) → Calls (.instrs (fuel + 1) p) (.instrs fuel p₂)
  | instrsPlain {fuel p p₁ kw} : p.lookahead = some (.keyword kw) → p.bump F = .ok p₁ →
    Calls (.instrs (fuel + 1) p) (.build p₁ kw)
  | behindPlain {fuel p p₁ p₂ kw instr} : p.lookahead = some (.keyword kw) → p.bump F = .ok p₁ →
    p₁.buildInstr F kw = .ok (instr, p₂) →
      Calls (.instrs (fuel + 1) p) (.instrs fuel p₂)
  | behindOther {fuel p p₁ tok} : p.lookahead = some tok → tok ≠ .lparen → tok ≠ .rparen →
    (∀ kw, tok ≠ .keyword kw) →
      p.bump F = .ok p₁ → Calls (.instrs (fuel + 1) p) (.instrs fuel p₁)
  | ifFolded {fuel p} : p.lookahead = some (.keyword (utf8 "if")) → Calls (.folded (fuel + 1) p) (.foldedIf fuel p)
  | block {fuel p kw} : p.lookahead = some (.keyword kw) → kw ≠ utf8 "if" → kw = utf8 "block" ∨ kw = utf8 "loop" →
      Calls (.folded (fuel + 1) p) (.foldedBlock fuel p)
  | foldedPlain {fuel p p₁ kw} : p.lookahead = some (.keyword kw) → kw ≠ utf8 "if" →
    ¬ (kw = utf8 "block" ∨ kw = utf8 "loop") →
      p.bump F = .ok p₁ → Calls (.folded (fuel + 1) p) (.build p₁ kw)
  | operands {fuel p p₁ p₂ kw op} : p.lookahead = some (.keyword kw) → kw ≠ utf8 "if" →
    ¬ (kw = utf8 "block" ∨ kw = utf8 "loop") →
      p.bump F = .ok p₁ → p₁.buildInstr F kw = .ok (op, p₂) → Calls (.folded (fuel + 1) p) (.operands fuel p₂)
  | operand {fuel p p₁} : p.lookahead = some .lparen → p.bump F = .ok p₁ →
    Calls (.operands (fuel + 1) p) (.folded fuel p₁)
  | nextOperand {fuel p p₁ p₂ si} : p.lookahead = some .lparen → p.bump F = .ok p₁ →
    parseFoldedInstr F fuel p₁ = .ok (si, p₂) →
      Calls (.operands (fuel + 1) p) (.operands fuel p₂)
  | thenBody {fuel p p₁ p₂} : p.lookahead = some .lparen → p.bump F = .ok p₁ →
    p₁.lookahead = some (.keyword (utf8 "then")) →
      p₁.bump F = .ok p₂ → Calls (.condition (fuel + 1) p) (.instrs fuel p₂)
  | conditionFolded {fuel p p₁} : p.lookahead = some .lparen → p.bump F = .ok p₁ →
    p₁.lookahead ≠ some (.keyword (utf8 "then")) →
      Calls (.condition (fuel + 1) p) (.folded fuel p₁)
  | nextCondition {fuel p p₁ p₂ sub} : p.lookahead = some .lparen → p.bump F = .ok p₁ →
    p₁.lookahead ≠ some (.keyword (utf8 "then")) →
      parseFoldedInstr F fuel p₁ = .ok (sub, p₂) → Calls (.condition (fuel + 1) p) (.condition fuel p₂)
  | condition {fuel p p₁ p₂ p₃ name bt} : p.bump F = .ok p₁ → p₁.tryIdentifier F = .ok (name, p₂) →
      p₂.parseBlockType F = .ok (bt, p₃) → Calls (.foldedIf (fuel + 1) p) (.condition fuel p₃)
  | elseBody {fuel p p₁ p₂ p₃ p₄ p₅ p₆ name bt cond} : p.bump F = .ok p₁ → p₁.tryIdentifier F = .ok (name, p₂) →
      p₂.parseBlockType F = .ok (bt, p₃) → parseCondition F fuel p₃ = .ok (cond, p₄) → p₄.lookahead = some .lparen →
      p₄.bump F = .ok p₅ → p₅.lookahead = some (.keyword (utf8 "else")) → p₅.bump F = .ok p₆ →
      Calls (.foldedIf (fuel + 1) p) (.instrs fuel p₆)
  | blockBody {fuel p p₁ p₂ p₃ name bt} : p.bump F = .ok p₁ → p₁.tryIdentifier F = .ok (name, p₂) →
      p₂.parseBlockType F = .ok (bt, p₃) → Calls (.foldedBlock (fuel + 1) p) (.instrs fuel p₃)
  | memarg {p kw instr} : operators.lookup kw = some (.memarg instr) → Calls (.build p kw) (.memarg p.fuel p 0 0)
  | offset {fuel p p₁ kw text n offset align} : p.lookahead = some (.keyword kw) →
    stripPrefix (utf8 "offset=") kw = some text →
      (parseI32 text : Parse _) = .ok n → p.bump F = .ok p₁ →
      Calls (.memarg (fuel + 1) p offset align) (.memarg fuel p₁ (asU32 n) align)
  | align {fuel p p₁ kw text n offset align} : p.lookahead = some (.keyword kw) →
    stripPrefix (utf8 "offset=") kw = none →
      stripPrefix (utf8 "align=") kw = some text → (parseI32 text : Parse _) = .ok n → p.bump F = .ok p₁ →
      Calls (.memarg (fuel + 1) p offset align) (.memarg fuel p₁ offset (asU32 n))

/-- What a call gives to `parse_i32` itself. -/
inductive Converts : Call → List UInt8 → Prop
  | typeName {p q id} : p.lookahead = some (.identifier id) → p.bump F = .ok q → q.typeNames.lookup id = none →
      Converts (.typeIndex p) (id.dropWhile (· == 0x24))
  | localName {p q kw instr id} : operators.lookup kw = some (.local instr) →
    p.lookahead = some (.identifier id) → p.bump F = .ok q →
      q.localNames.lookup id = none → Converts (.build p kw) (id.dropWhile (· == 0x24))
  | memarg {fuel p offset align kw text} : p.lookahead = some (.keyword kw) → memargText kw = some text →
      Converts (.memarg (fuel + 1) p offset align) text

/-- All numbers that are converted in a call fit. -/
def Safe (c : Call) : Prop := ∀ c' text, Relation.ReflTransGen (Calls F) c c' → Converts F c' text → Fits text

/-- The call panics. -/
def Call.Panics : Call → Prop
  | .module p => p.parseModule F = .error .panic
  | .fields fuel p m => parseModule.loop F fuel p m = .error .panic
  | .field p m => p.parseField F m = .error .panic
  | .typeUse p types => p.parseTypeUse F types = .error .panic
  | .typeIndex p => p.parseTypeIndex F = .error .panic
  | .header fidx fuel p m h => parseFuncDef.loop F fidx fuel p m h = .error .panic
  | .instrs fuel p => parseInstrs F fuel p = .error .panic
  | .folded fuel p => parseFoldedInstr F fuel p = .error .panic
  | .operands fuel p => parseOperands F fuel p = .error .panic
  | .condition fuel p => parseCondition F fuel p = .error .panic
  | .foldedIf fuel p => parseFoldedIf F fuel p = .error .panic
  | .foldedBlock fuel p => parseFoldedBlockOrLoop F fuel p = .error .panic
  | .build p kw => p.buildInstr F kw = .error .panic
  | .memarg fuel p offset align => parseMemarg.loop F fuel p offset align = .error .panic

end

variable {F : FloatOps} {c c' : Call}

theorem Calls.panics (h : Calls F c c') (hp : c'.Panics F) : c.Panics F := by
  cases h with
  | fields h₁ h₂ h₃ => simp [Call.Panics, parseModule, h₁, h₂, h₃, show _ = _ from hp]
  | field hla h₁ => simp [Call.Panics, parseModule.loop, hla, h₁, show _ = _ from hp]
  | nextField hla h₁ h₂ => simp [Call.Panics, parseModule.loop, hla, h₁, h₂, show _ = _ from hp]
  | importType hla h₁ h₂ h₃ h₄ hfunc h₅ h₆ =>
    simp +decide [Call.Panics, parseField, parseImport, hla, h₁, h₂, h₃, h₄, hfunc, h₅, h₆, show _ = _ from hp]
  | func hla h₁ h₂ hq =>
    subst hq
    have hloop : parseFuncDef.loop F _ _ _ _ _ = _ := hp
    simp +decide [Call.Panics, parseField, parseFuncDef, hla, h₁, h₂, hloop, -UInt32.ofNat_add]
  | typeUse hla h₁ htype h₂ => simp [Call.Panics, parseTypeUse, hla, h₁, htype, h₂, show _ = _ from hp]
  | headerExport hla h₁ hkw h₂ h₃ h₄ =>
    simp [Call.Panics, parseFuncDef.loop, hla, h₁, hkw, h₂, h₃, h₄, show _ = _ from hp]
  | headerType hla h₁ hkw h₂ => simp +decide [Call.Panics, parseFuncDef.loop, hla, h₁, hkw, h₂, show _ = _ from hp]
  | typed hla h₁ hkw h₂ h₃ h₄ =>
    simp +decide [Call.Panics, parseFuncDef.loop, hla, h₁, hkw, h₂, h₃, h₄, show _ = _ from hp]
  | headerParam hla h₁ hkw h₂ h₃ h₄ =>
    simp +decide [Call.Panics, parseFuncDef.loop, hla, h₁, hkw, h₂, h₃, h₄, show _ = _ from hp]
  | headerResult hla h₁ hkw h₂ h₃ h₄ =>
    simp +decide [Call.Panics, parseFuncDef.loop, hla, h₁, hkw, h₂, h₃, h₄, show _ = _ from hp]
  | headerLocal hla h₁ hkw hintern h₂ h₃ h₄ =>
    simp +decide [Call.Panics, parseFuncDef.loop, hla, h₁, hkw, hintern, h₂, h₃, h₄, show _ = _ from hp]
  | bodyFolded hla h₁ hno => simp_all [Call.Panics, parseFuncDef.loop]
  | bodyRest hla h₁ hno h₂ => simp_all [Call.Panics, parseFuncDef.loop]
  | body hla => simp [Call.Panics, parseFuncDef.loop, hla, show _ = _ from hp]
  | instrsFolded hla h₁ => simp [Call.Panics, parseInstrs, hla, h₁, show _ = _ from hp]
  | behindFolded hla h₁ h₂ => simp [Call.Panics, parseInstrs, hla, h₁, h₂, show _ = _ from hp]
  | instrsPlain hla h₁ => simp [Call.Panics, parseInstrs, parsePlainInstr, hla, h₁, show _ = _ from hp]
  | behindPlain hla h₁ h₂ => simp [Call.Panics, parseInstrs, parsePlainInstr, hla, h₁, h₂, show _ = _ from hp]
  | @behindOther fuel p p₁ tok hla hl hr hkw h₁ =>
    cases tok with
    | lparen => exact absurd rfl hl
    | rparen => exact absurd rfl hr
    | keyword kw => exact absurd rfl (hkw kw)
    | _ => simp [Call.Panics, parseInstrs, hla, h₁, show _ = _ from hp]
  | ifFolded hla => simp [Call.Panics, parseFoldedInstr, hla, show _ = _ from hp]
  | block hla hif hblock => simp [Call.Panics, parseFoldedInstr, hla, hif, hblock, show _ = _ from hp]
  | foldedPlain hla hif hblock h₁ => simp [Call.Panics, parseFoldedInstr, hla, hif, hblock, h₁, show _ = _ from hp]
  | operands hla hif hblock h₁ h₂ =>
    simp [Call.Panics, parseFoldedInstr, hla, hif, hblock, h₁, h₂, show _ = _ from hp]
  | operand hla h₁ => simp [Call.Panics, parseOperands, hla, h₁, show _ = _ from hp]
  | nextOperand hla h₁ h₂ => simp [Call.Panics, parseOperands, hla, h₁, h₂, show _ = _ from hp]
  | thenBody hla h₁ hthen h₂ => simp [Call.Panics, parseCondition, hla, h₁, hthen, h₂, show _ = _ from hp]
  | conditionFolded hla h₁ hthen => simp [Call.Panics, parseCondition, hla, h₁, hthen, show _ = _ from hp]
  | nextCondition hla h₁ hthen h₂ => simp [Call.Panics, parseCondition, hla, h₁, hthen, h₂, show _ = _ from hp]
  | condition h₁ h₂ h₃ => simp [Call.Panics, parseFoldedIf, h₁, h₂, h₃, show _ = _ from hp]
  | elseBody h₁ h₂ h₃ h₄ hla h₅ helse h₆ =>
    simp [Call.Panics, parseFoldedIf, h₁, h₂, h₃, h₄, hla, h₅, helse, h₆, show _ = _ from hp]
  | blockBody h₁ h₂ h₃ => simp [Call.Panics, parseFoldedBlockOrLoop, h₁, h₂, h₃, show _ = _ from hp]
  | memarg hop => simp [Call.Panics, buildInstr, parseMemarg, hop, show _ = _ from hp]
  | offset hla htext hn h₁ => simp [Call.Panics, parseMemarg.loop, hla, htext, hn, h₁, show _ = _ from hp]
  | align hla hno htext hn h₁ => simp [Call.Panics, parseMemarg.loop, hla, hno, htext, hn, h₁, show _ = _ from hp]

theorem Converts.panics {text : List UInt8} (h : Converts F c text) (htext : ¬ Fits text) : c.Panics F := by
  have hparse : (parseI32 text : Parse _) = _ := parseI32_panics htext
  cases h with
  | typeName hla hq hname =>
    simp [Call.Panics, parseTypeIndex, resolveTypeName, numericName, hla, hq, hname, hparse]
  | localName hop hla hq hname =>
    simp [Call.Panics, buildInstr, parseLocalOrFuncIdx, numericName, hop, hla, hq, hname, hparse]
  | @memarg fuel p offset align kw _ hla hkw =>
    unfold memargText at hkw
    cases hoffset : stripPrefix (utf8 "offset=") kw with
    | some digits =>
      rw [hoffset] at hkw
      cases hkw
      simp [Call.Panics, parseMemarg.loop, hla, hoffset, hparse]
    | none =>
      rw [hoffset] at hkw
      simp [Call.Panics, parseMemarg.loop, hla, hoffset,
        show stripPrefix (utf8 "align=") kw = some text from hkw, hparse]

theorem Safe.call (hs : Safe F c) (h : Calls F c c') : Safe F c' := fun c'' text hc => hs c'' text (.head h hc)

theorem Safe.fits {text : List UInt8} (hs : Safe F c) (h : Converts F c text) : Fits text := hs c text .refl h

theorem safe_of_not_panics (h : ¬ c.Panics F) : Safe F c := by
  intro c' text hcalls hconverts
  by_contra htext
  induction hcalls using Relation.ReflTransGen.head_induction_on with
  | refl => exact h (hconverts.panics htext)
  | head hcall _ ih => exact ih fun hp => h (hcall.panics hp)

end Parser

end WasmOs.Asm
