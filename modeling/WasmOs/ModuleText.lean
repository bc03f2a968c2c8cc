import WasmOs.BodyParse
import WasmOs.WatModule

/-!
# Module texts

The fields of a module as trees, their tokens, and what they add to the module under a reading of its names.
A function body is a `Body`; lists that the assembler passes over are kept as they are.
-/

namespace WasmOs.Asm

/-! ## Parts -/

/-- Tokens and lists up to a closing parenthesis. -/
inductive Sexps where
  | nil
  | atom (tok : Token) (plain : tok ≠ .lparen ∧ tok ≠ .rparen) (rest : Sexps)
  | list (inside rest : Sexps)

namespace Sexps

def tokens : Sexps → List Token
  | nil => []
  | atom tok _ rest => tok :: rest.tokens
  | list inside rest => .lparen :: inside.tokens ++ .rparen :: rest.tokens

def nesting : Sexps → Nat
  | nil => 0
  | atom _ _ rest => rest.nesting
  | list inside rest => max (inside.nesting + 1) rest.nesting

end Sexps

/-- A list with a keyword in front, behind its opening parenthesis. -/
def closed (kw : List UInt8) (ts : List Token) : List Token := .keyword kw :: ts ++ [.rparen]

def parens (kw : List UInt8) (ts : List Token) : List Token := .lparen :: closed kw ts

inductive Ref where
  | index (n : BitVec 32)
  | name (id : Name)

namespace Ref

def token : Ref → Token
  | index n => .int n
  | name id => .identifier id

def type (types : NameTable) : Ref → Option UInt32
  | index n => some (asU32 n)
  | name id => match types.lookup id with
    | some idx => some idx
    | none => (numericName id).toOption

def func (R : Resolver) : Ref → Option UInt32
  | index n => some (asU32 n)
  | name id => R.func id

end Ref

def typeRefTokens (ref : Option Ref) : List Token := (ref.map fun r => parens (utf8 "type") [r.token]).getD []

def valTypeTokens (tys : List ValType) : List Token := tys.map fun t => .keyword t.kw

inductive Group where
  | param (name : Option Name) (tys : List ValType)
  | result (tys : List ValType)

namespace Group

def tokens : Group → List Token
  | param name tys => parens (utf8 "param") (labelTokens name ++ valTypeTokens tys)
  | result tys => parens (utf8 "result") (valTypeTokens tys)

def add (ft : FuncType) : Group → FuncType
  | param _ tys => ⟨ft.params ++ tys, ft.results⟩
  | result tys => ⟨ft.params, ft.results ++ tys⟩

end Group

/-- Parameters or locals of a function; one with a name stands alone. -/
inductive Declared where
  | named (x : Name) (ty : ValType)
  | unnamed (tys : List ValType)

namespace Declared

def tokens : Declared → List Token
  | named x ty => [.identifier x, .keyword ty.kw]
  | unnamed tys => valTypeTokens tys

def tys : Declared → List ValType
  | named _ ty => [ty]
  | unnamed tys => tys

def names (next : Nat) : Declared → NameTable
  | named x _ => [(x, UInt32.ofNat next)]
  | unnamed _ => []

end Declared

inductive FuncGroup where
  | param (d : Declared)
  | result (tys : List ValType)

namespace FuncGroup

def tokens : FuncGroup → List Token
  | param d => parens (utf8 "param") d.tokens
  | result tys => parens (utf8 "result") (valTypeTokens tys)

def params : FuncGroup → List ValType
  | param d => d.tys
  | result _ => []

def results : FuncGroup → List ValType
  | param _ => []
  | result tys => tys

def names (next : Nat) : FuncGroup → NameTable
  | param d => d.names next
  | result _ => []

def table : Nat → List FuncGroup → NameTable
  | _, [] => []
  | next, g :: groups => g.names next ++ table (next + g.params.length) groups

end FuncGroup

def Declared.table : Nat → List Declared → NameTable
  | _, [] => []
  | next, d :: ds => d.names next ++ table (next + d.tys.length) ds

/-! ## Fields -/

inductive ImportDesc where
  | func (name : Option Name) (ref : Option Ref) (groups : List Group)
  | other (kw : List UInt8) (kind : kw ≠ utf8 "func") (inside : Sexps)

structure Func (F : FloatOps) where
  name : Option Name
  exports : List (List UInt8)
  type : Option Ref
  groups : List FuncGroup
  locals : List Declared
  body : Body F
  wellFormed : body.WellFormed

inductive ExportKind where
  | func | memory | table | global

/-- A list inside a memory: an export, an import or its data. -/
structure Inline where
  kw : List UInt8
  inside : Sexps

structure Limits where
  min : BitVec 32
  max : Option (BitVec 32)

inductive DataMemory where
  | index (n : BitVec 32)
  | list (ref : Ref)

inductive OffsetExpr where
  | const (n : BitVec 32)
  | global (ref : Ref)

inductive DataOffset where
  | folded (e : OffsetExpr)
  | wrapped (e : OffsetExpr)
  | wrappedFlat (e : OffsetExpr)

def fieldKeywords : List (List UInt8) :=
  [utf8 "type", utf8 "import", utf8 "func", utf8 "memory", utf8 "export", utf8 "data"]

inductive Field (F : FloatOps) where
  | type (name : Option Name) (groups : List Group)
  | import (mod name : List UInt8) (desc : ImportDesc)
  | func (f : Func F)
  | funcImport (name : Option Name) (exports : List (List UInt8)) (mod field : List UInt8) (ref : Option Ref)
    (groups : List FuncGroup)
  | memory (name : Option Name) (inline : List Inline) (limits : Option Limits)
  | export (name : List UInt8) (kind : ExportKind) (ref : Ref)
  | data (name : Option Name) (mem : Option DataMemory) (offset : Option DataOffset) (strings : List (List UInt8))
  | skipped (kw : List UInt8) (kind : kw ∉ fieldKeywords) (inside : Sexps)

/-! ## Tokens -/

def exportTokens (exports : List (List UInt8)) : List Token :=
  exports.flatMap fun e => parens (utf8 "export") [.stringLiteral e]

def ImportDesc.tokens : ImportDesc → List Token
  | func name ref groups =>
    parens (utf8 "func") (labelTokens name ++ typeRefTokens ref ++ groups.flatMap Group.tokens)
  | other kw _ inside => parens kw inside.tokens

namespace ExportKind

def kw : ExportKind → List UInt8
  | func => utf8 "func"
  | memory => utf8 "memory"
  | table => utf8 "table"
  | global => utf8 "global"

def byte : ExportKind → UInt8
  | func => 0x00
  | table => 0x01
  | memory => 0x02
  | global => 0x03

end ExportKind

def Inline.tokens (i : Inline) : List Token := parens i.kw i.inside.tokens

def Limits.tokens (l : Limits) : List Token := .int l.min :: (l.max.map Token.int).toList

def DataMemory.tokens : DataMemory → List Token
  | index n => [.int n]
  | list ref => parens (utf8 "memory") [ref.token]

namespace OffsetExpr

def kw : OffsetExpr → List UInt8
  | const _ => utf8 "i32.const"
  | global _ => utf8 "global.get"

def token : OffsetExpr → Token
  | const n => .int n
  | global ref => ref.token

end OffsetExpr

def DataOffset.tokens : DataOffset → List Token
  | folded e => parens e.kw [e.token]
  | wrapped e => parens (utf8 "offset") (parens e.kw [e.token])
  | wrappedFlat e => parens (utf8 "offset") [.keyword e.kw, e.token]

def Func.headerTokens {F : FloatOps} (f : Func F) : List Token :=
  labelTokens f.name ++ exportTokens f.exports ++ typeRefTokens f.type ++ f.groups.flatMap FuncGroup.tokens ++
    f.locals.flatMap fun d => parens (utf8 "local") d.tokens

namespace Field

variable {F : FloatOps}

def kw : Field F → List UInt8
  | type .. => utf8 "type"
  | .import .. => utf8 "import"
  | func .. | funcImport .. => utf8 "func"
  | memory .. => utf8 "memory"
  | .export .. => utf8 "export"
  | data .. => utf8 "data"
  | skipped kw .. => kw

def inside : Field F → List Token
  | type name groups => labelTokens name ++ parens (utf8 "func") (groups.flatMap Group.tokens)
  | .import mod name desc => .stringLiteral mod :: .stringLiteral name :: desc.tokens
  | func f => f.headerTokens ++ f.body.tokens
  | funcImport name exports mod field ref groups =>
    labelTokens name ++ exportTokens exports ++ parens (utf8 "import") [.stringLiteral mod, .stringLiteral field] ++
      typeRefTokens ref ++ groups.flatMap FuncGroup.tokens
  | memory name inline limits =>
    labelTokens name ++ inline.flatMap Inline.tokens ++ (limits.map Limits.tokens).getD []
  | .export name kind ref => .stringLiteral name :: parens kind.kw [ref.token]
  | data name mem offset strings =>
    labelTokens name ++ (mem.map DataMemory.tokens).getD [] ++ (offset.map DataOffset.tokens).getD [] ++
      strings.map Token.stringLiteral
  | skipped _ _ inside => inside.tokens

def tokens (f : Field F) : List Token := parens f.kw f.inside

end Field

def moduleTokens {F : FloatOps} (name : Option Name) (fields : List (Field F)) : List Token :=
  parens (utf8 "module") (labelTokens name ++ fields.flatMap Field.tokens)

/-! ## What the fields add -/

/-- The type of an import or function, referred to or written out. -/
def typeUse (names : NameTable) (types : List FuncType) (ref : Option Ref) (ft : FuncType) :
    Option (List FuncType × UInt32) :=
  match ref with
  | some r => (r.type names).map fun idx => (types, idx)
  | none => some (Parser.internType types ft)

def NameTable.note (table : NameTable) (name : Option Name) (idx : UInt32) :
    NameTable := table ++ (name.map fun n => (n, idx)).toList

/-- The index the next function gets while the text is read. -/
def Module.nextFunc (m : Module) : UInt32 := UInt32.ofNat (m.imports.length + m.funcs.length)

def Module.functions (m : Module) : List Import × List FuncDef × List Export :=
  (m.imports, m.funcs, m.exports.filter fun e => e.kind == 0x00)

def Module.addExports (m : Module) (exports : List (List UInt8)) (idx : UInt32) : Module :=
  { m with exports := m.exports ++ exports.map fun e => ⟨unescapeWatString e, 0x00, idx⟩ }

namespace Func

variable {F : FloatOps} (f : Func F)

def params : List ValType := f.groups.flatMap FuncGroup.params

def results : List ValType := f.groups.flatMap FuncGroup.results

def localTys : List ValType := f.locals.flatMap Declared.tys

def names (ns : Names) (idx : UInt32) : Names :=
  ⟨ns.func.note f.name idx, ns.type, FuncGroup.table 0 f.groups ++ Declared.table f.params.length f.locals⟩

end Func

def DataOffset.value : DataOffset → Option (BitVec 32)
  | folded (.const n) | wrapped (.const n) | wrappedFlat (.const n) => some n
  | _ => none

/-- What a field adds to the module and to the names, if its own names mean something. -/
def Field.denote {F : FloatOps} (R : Names → Resolver) (m : Module) (ns : Names) : Field F → Option (Module × Names)
  | type name groups =>
    some ({ m with types := m.types ++ [groups.foldl Group.add ⟨[], []⟩] },
      { ns with type := ns.type.note name (UInt32.ofNat m.types.length) })
  | .import mod name (.func id ref groups) => do
    let (types, typeIdx) ← typeUse ns.type m.types ref (groups.foldl Group.add ⟨[], []⟩)
    some ({ m with types := types,
                   imports := m.imports ++ [⟨unescapeWatString mod, unescapeWatString name, typeIdx⟩] },
      { ns with func := ns.func.note id (UInt32.ofNat m.imports.length) })
  | .import _ _ (.other ..) => some (m, ns)
  | func f => do
    let ns' := f.names ns m.nextFunc
    let (types, typeIdx) ← typeUse ns.type m.types f.type ⟨f.params, f.results⟩
    let body ← f.body.emit (R ns') []
    some ({ m.addExports f.exports m.nextFunc with
      types := types, funcs := m.funcs ++ [⟨typeIdx, f.localTys.map Local.mk, body⟩] }, ns')
  | funcImport name exports mod field ref groups => do
    let (types, typeIdx) ← typeUse ns.type m.types ref ⟨groups.flatMap FuncGroup.params,
      groups.flatMap FuncGroup.results⟩
    some ({ m.addExports exports m.nextFunc with
      types := types, imports := m.imports ++ [⟨unescapeWatString mod, unescapeWatString field, typeIdx⟩] },
      ⟨ns.func.note name m.nextFunc, ns.type, []⟩)
  | memory _ inline limits =>
    if inline.any fun i => i.kw = utf8 "import" then some (m, ns)
    else some ({ m with
      memories := m.memories ++
        [⟨asU32 ((limits.map Limits.min).getD 0), (limits.bind Limits.max).map asU32⟩] }, ns)
  | .export name kind ref => do
    let index ← ref.func (match kind with
      | .func => R ns
      | _ => ns.resolver)
    some ({ m with exports := m.exports ++ [⟨unescapeWatString name, kind.byte, index⟩] }, ns)
  | data _ _ offset strings =>
    some ({ m with
      data := m.data ++ [⟨(offset.bind DataOffset.value).getD 0, strings.flatMap unescapeWatString⟩] }, ns)
  | skipped .. => some (m, ns)

/-- What a module text stands for, from the fields read so far on. -/
def denoteFields {F : FloatOps} (R : Names → Resolver) : Module → Names → List (Field F) → Option (Module × Names)
  | m, ns, [] => some (m, ns)
  | m, ns, f :: fields => do
    let (m, ns) ← f.denote R m ns
    denoteFields R m ns fields

end WasmOs.Asm
