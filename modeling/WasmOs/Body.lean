import WasmOs.WatParser

/-!
# Function bodies as trees

A body as a tree of instructions with their operands, blocks and branches, each written flat or folded; its
tokens; and the instructions it stands for, given what its names mean.
-/

namespace WasmOs.Asm

abbrev Name := List UInt8

/-! ## Single instructions -/

/-- A part of a memory argument, with its digits. -/
inductive MemField where
  | offset (digits : List UInt8) (n : BitVec 32) (value : (parseI32 digits : Parse _) = .ok n)
  | align (digits : List UInt8) (n : BitVec 32) (value : (parseI32 digits : Parse _) = .ok n)

namespace MemField

def token : MemField → Token
  | offset digits _ _ => .keyword (utf8 "offset=" ++ digits)
  | align digits _ _ => .keyword (utf8 "align=" ++ digits)

/-- A later part replaces an earlier one. -/
def set (arg : UInt32 × UInt32) : MemField → UInt32 × UInt32
  | offset _ n _ => (asU32 n, arg.2)
  | align _ n _ => (arg.1, asU32 n)

end MemField

inductive Spells (F : FloatOps) (kw : List UInt8) : List Token → Instr → Prop
  | plain {instr : Instr} (h : operators.lookup kw = some (.plain instr)) : Spells F kw [] instr
  | int {instr : BitVec 32 → Instr} (n : BitVec 32) (h : operators.lookup kw = some (.int instr)) :
      Spells F kw [.int n] (instr n)
  | float {instr : BitVec 32 → Instr} (f : BitVec 32) (h : operators.lookup kw = some (.float instr)) :
      Spells F kw [.float f] (instr f)
  | floatInt {instr : BitVec 32 → Instr} (n : BitVec 32) (h : operators.lookup kw = some (.float instr)) :
      Spells F kw [.int n] (instr (F.convertF32 true 32 n))
  | loc {instr : UInt32 → Instr} (n : BitVec 32) (h : operators.lookup kw = some (.local instr)) :
      Spells F kw [.int n] (instr (asU32 n))
  | func {instr : UInt32 → Instr} (n : BitVec 32) (h : operators.lookup kw = some (.func instr)) :
      Spells F kw [.int n] (instr (asU32 n))
  | label {instr : UInt32 → Instr} (n : BitVec 32) (h : operators.lookup kw = some (.label instr)) :
      Spells F kw [.int n] (instr (asU32 n))
  | memarg {instr : UInt32 → UInt32 → Instr} (fields : List MemField)
      (h : operators.lookup kw = some (.memarg instr)) :
      Spells F kw (fields.map MemField.token)
      (instr (fields.foldl MemField.set (0, 0)).1 (fields.foldl MemField.set (0, 0)).2)

/-- An instruction of the tree. `else` and `end` belong to the branches and blocks. -/
inductive Op (F : FloatOps) where
  | spelled (kw : List UInt8) (imm : List Token) (instr : Instr) (spells : Spells F kw imm instr)
      (operator : instr ≠ .else ∧ instr ≠ .end)
  | branch (conditional : Bool) (label : Name)
  | call (f : Name)
  | «local» (kw : List UInt8)
      (instr : UInt32 → Instr) (keyword : operators.lookup kw = some (.local instr)) (x : Name)

namespace Op

variable {F : FloatOps}

def kw : Op F → List UInt8
  | spelled kw _ _ _ _ => kw
  | branch conditional _ => if conditional then utf8 "br_if" else utf8 "br"
  | call _ => utf8 "call"
  | «local» kw _ _ _ => kw

def imm : Op F → List Token
  | spelled _ imm _ _ _ => imm
  | branch _ label => [.identifier label]
  | call f => [.identifier f]
  | «local» _ _ _ x => [.identifier x]

def tokens (o : Op F) : List Token := .keyword o.kw :: o.imm

end Op

/-! ## Trees -/

def ValType.kw : ValType → List UInt8
  | i32 => utf8 "i32"
  | i64 => utf8 "i64"
  | f32 => utf8 "f32"
  | f64 => utf8 "f64"

/-- A node and what follows it. A flat node comes after its operands, a folded one has them inside its
parentheses. -/
inductive Body (F : FloatOps) where
  | nil
  | op (flat : Bool) (o : Op F) (args rest : Body F)
  | block (flat isLoop : Bool) (label : Option Name) (ty : Option ValType) (body rest : Body F)
  | cond (flat : Bool) (label : Option Name) (ty : Option ValType) (test thn els rest : Body F)

def labelTokens (label : Option Name) : List Token := (label.map Token.identifier).toList

def typeTokens : Option ValType → List Token
  | some t => [.lparen, .keyword (utf8 "result"), .keyword t.kw, .rparen]
  | none => []

def openerTokens (kw : List UInt8) (label : Option Name) (ty : Option ValType) : List Token :=
  .keyword kw :: (labelTokens label ++ typeTokens ty)

namespace Body

variable {F : FloatOps}

def isNil : Body F → Bool
  | nil => true
  | _ => false

def blockKw (isLoop : Bool) : List UInt8 := if isLoop then utf8 "loop" else utf8 "block"

def tokens : Body F → List Token
  | nil => []
  | op flat o args rest =>
    (if flat then args.tokens ++ o.tokens else .lparen :: o.tokens ++ args.tokens ++ [.rparen]) ++ rest.tokens
  | block flat isLoop label ty body rest =>
    (if flat then openerTokens (blockKw isLoop) label ty ++ body.tokens ++ [.keyword (utf8 "end")]
      else .lparen :: openerTokens (blockKw isLoop) label ty ++ body.tokens ++ [.rparen]) ++ rest.tokens
  | cond flat label ty test thn els rest =>
    (if flat then
        test.tokens ++ openerTokens (utf8 "if") label ty ++ thn.tokens ++
          (if els.isNil then [] else .keyword (utf8 "else") :: els.tokens) ++ [.keyword (utf8 "end")]
      else
        .lparen :: openerTokens (utf8 "if") label ty ++ test.tokens ++
          .lparen :: .keyword (utf8 "then") :: thn.tokens ++ .rparen ::
          (if els.isNil then [] else .lparen :: .keyword (utf8 "else") :: els.tokens ++ [.rparen]) ++
          [.rparen]) ++ rest.tokens

def Folded : Body F → Prop
  | nil => True
  | op flat _ _ rest => flat = false ∧ rest.Folded
  | block flat _ _ _ _ rest => flat = false ∧ rest.Folded
  | cond flat _ _ _ _ _ rest => flat = false ∧ rest.Folded

/-- The operands inside parentheses are folded. -/
def WellFormed : Body F → Prop
  | nil => True
  | op flat _ args rest => (flat = false → args.Folded) ∧ args.WellFormed ∧ rest.WellFormed
  | block _ _ _ _ body rest => body.WellFormed ∧ rest.WellFormed
  | cond flat _ _ test thn els rest =>
    (flat = false → test.Folded) ∧ test.WellFormed ∧ thn.WellFormed ∧ els.WellFormed ∧ rest.WellFormed

end Body

/-! ## Their instructions -/

/-- What names stand for, and which openers are accepted. Labels are those of the blocks around, the innermost
first. -/
structure Resolver where
  label : List (Option Name) → Name → Option UInt32
  func : Name → Option UInt32
  loc : Name → Option UInt32
  opens : (flat : Bool) → Option Name → Option ValType → Bool

def Op.instr {F : FloatOps} (R : Resolver) (labels : List (Option Name)) : Op F → Option Instr
  | spelled _ _ instr _ _ => some instr
  | branch conditional l => (R.label labels l).map fun n => if conditional then .brIf n else .br n
  | call f => (R.func f).map Instr.call
  | «local» _ instr _ x => (R.loc x).map instr

def blockTypeByte : Option ValType → UInt8
  | some t => t.byte
  | none => 0x40

def blockInstr (isLoop : Bool) (ty : Option ValType) : Instr :=
  if isLoop then .loop (blockTypeByte ty) else .block (blockTypeByte ty)

/-- The operands, then the instruction; a block or branch between its opener and `end`. -/
def Body.emit {F : FloatOps} (R : Resolver) : List (Option Name) → Body F → Option (List Instr)
  | _, nil => some []
  | labels, op _ o args rest => do
    let operands ← args.emit R labels
    let instr ← o.instr R labels
    let instrs ← rest.emit R labels
    some (operands ++ instr :: instrs)
  | labels, block flat isLoop label ty body rest => do
    guard (R.opens flat label ty)
    let inside ← body.emit R (label :: labels)
    let instrs ← rest.emit R labels
    some (blockInstr isLoop ty :: inside ++ .end :: instrs)
  | labels, cond flat label ty test thn els rest => do
    let condition ← test.emit R labels
    guard (R.opens flat label ty)
    let thenInstrs ← thn.emit R (label :: labels)
    let elseInstrs ← els.emit R (label :: labels)
    let instrs ← rest.emit R labels
    some (condition ++ .if (blockTypeByte ty) :: thenInstrs ++
      (if elseInstrs.isEmpty then [] else .else :: elseInstrs) ++ .end :: instrs)

end WasmOs.Asm
