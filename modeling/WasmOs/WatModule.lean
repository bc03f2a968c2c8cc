import WasmOs.WatParser

/-!
# The fields of a module

The top level of the assembler's parser: `parse_module` and the parsers of the fields it knows. Each is
called after the opening parenthesis of its field and has to take the closing one.
-/

namespace WasmOs.Asm

namespace Parser

section
variable (F : FloatOps)

/-! ## Types -/

def internType (types : List FuncType) (ft : FuncType) : List FuncType × UInt32 :=
  match types.findIdx? fun t => t.params = ft.params ∧ t.results = ft.results with
  | some i => (types, UInt32.ofNat i)
  | none => (types ++ [ft], UInt32.ofNat types.length)

def resolveTypeName (p : Parser) (id : List UInt8) : Parse UInt32 :=
  match p.typeNames.lookup id with
  | some idx => .ok idx
  | none => numericName id

/-- What stands behind the keyword `type` of a reference. -/
def parseTypeIndex (p : Parser) : Parse (UInt32 × Parser) :=
  match p.lookahead with
  | some (.identifier id) => do
    let p ← p.bump F
    let idx ← p.resolveTypeName id
    .ok (idx, p)
  | some (.int n) => do
    let p ← p.bump F
    .ok (asU32 n, p)
  | _ => .error (.err .expectedTypeIndex)

/-- After the opening parenthesis of the group. -/
def parseParamOrResultGroup (p : Parser) (ft : FuncType) : Parse (FuncType × Parser) :=
  if p.lookahead = some (.keyword (utf8 "param")) then do
    let p ← p.bump F
    let (_, p) ← p.tryIdentifier F
    let (vts, p) ← p.valTypes F
    let p ← p.expectRparen F
    .ok (⟨ft.params ++ vts, ft.results⟩, p)
  else if p.lookahead = some (.keyword (utf8 "result")) then do
    let p ← p.bump F
    let (vts, p) ← p.valTypes F
    let p ← p.expectRparen F
    .ok (⟨ft.params, ft.results ++ vts⟩, p)
  else do
    let p ← p.skipRestOfList F
    .ok (ft, p)

/-- `while let Some(Token::LParen) = self.lookahead { … }` over such groups. -/
def typeGroups.loop : Nat → Parser → FuncType → Parse (FuncType × Parser)
  | 0, _, _ => .error .hang
  | fuel + 1, p, ft =>
    if p.lookahead = some .lparen then do
      let p ← p.expectLparen F
      let (ft, p) ← p.parseParamOrResultGroup F ft
      typeGroups.loop fuel p ft
    else .ok (ft, p)

def parseFuncTypeFields (p : Parser) : Parse (FuncType × Parser) := typeGroups.loop F p.fuel p ⟨[], []⟩

def finishInlineFuncTypeAfterLparen (p : Parser) : Parse (FuncType × Parser) := do
  let (ft, p) ← p.parseParamOrResultGroup F ⟨[], []⟩
  typeGroups.loop F p.fuel p ft

def parseTypeUse (p : Parser) (types : List FuncType) : Parse ((List FuncType × UInt32) × Parser) :=
  if p.lookahead = some .lparen then do
    let p ← p.expectLparen F
    if p.lookahead = some (.keyword (utf8 "type")) then do
      let p ← p.bump F
      let (idx, p) ← p.parseTypeIndex F
      let p ← p.expectRparen F
      let (_, p) ← p.parseFuncTypeFields F
      .ok ((types, idx), p)
    else do
      let (ft, p) ← p.finishInlineFuncTypeAfterLparen F
      .ok (internType types ft, p)
  else .ok (internType types ⟨[], []⟩, p)

def nameType (p : Parser) (name : Option (List UInt8)) (idx : UInt32) : Parser :=
  { p with typeNames := p.typeNames ++ (name.map fun n => (n, idx)).toList }

def nameFunc (p : Parser) (name : Option (List UInt8)) (idx : UInt32) : Parser :=
  { p with funcNames := p.funcNames ++ (name.map fun n => (n, idx)).toList }

def parseTypeDef (p : Parser) (m : Module) : Parse (Module × Parser) := do
  let p ← p.bump F
  let (name, p) ← p.tryIdentifier F
  let p ← p.expectLparen F
  let p ← p.expectKeyword F (utf8 "func")
  let (ft, p) ← p.parseFuncTypeFields F
  let p ← p.expectRparen F
  let p := p.nameType name (UInt32.ofNat m.types.length)
  let p ← p.expectRparen F
  .ok ({ m with types := m.types ++ [ft] }, p)

/-! ## Imports -/

/-- An import that is no function is left after the parenthesis of its description. -/
def parseImport (p : Parser) (m : Module) : Parse (Module × Parser) := do
  let p ← p.bump F
  let (modBytes, p) ← p.expectString F
  let (nameBytes, p) ← p.expectString F
  let p ← p.expectLparen F
  if p.lookahead = some (.keyword (utf8 "func")) then do
    let p ← p.bump F
    let (name, p) ← p.tryIdentifier F
    let p := p.nameFunc name (UInt32.ofNat m.imports.length)
    let ((types, typeIdx), p) ← p.parseTypeUse F m.types
    let p ← p.expectRparen F
    let p ← p.expectRparen F
    .ok ({ m with types := types, imports := m.imports ++ [⟨modBytes, nameBytes, typeIdx⟩] }, p)
  else do
    let p ← p.skipRestOfList F
    .ok (m, p)

/-! ## Functions -/

structure FuncHeader where
  typeParsed : Bool
  typeIdx : UInt32
  params : List ValType
  results : List ValType
  locals : List Local
  nextLocal : Nat

/-- `next_local += 1` on a `u32` -/
def nextU32 (n : Nat) : Parse Nat := if n + 1 < 2 ^ 32 then .ok (n + 1) else .error .panic

/-- `if !type_parsed { … }` -/
def FuncHeader.intern (h : FuncHeader) (m : Module) : FuncHeader × Module :=
  if h.typeParsed then (h, m)
  else
    let (types, idx) := internType m.types ⟨h.params, h.results⟩
    ({ h with typeParsed := true, typeIdx := idx }, { m with types := types })

/-- The types of a `param` or `local` without a name. -/
def unnamed.loop : Nat → Parser → Nat → Parse ((List ValType × Nat) × Parser)
  | 0, _, _ => .error .hang
  | fuel + 1, p, next =>
    match p.lookahead with
    | some (.keyword kw) =>
      match ValType.fromKw kw with
      | some vt => do
        let next ← nextU32 next
        let p ← p.bump F
        let ((vts, next), p) ← unnamed.loop fuel p next
        .ok ((vt :: vts, next), p)
      | none => .ok (([], next), p)
    | _ => .ok (([], next), p)

/-- The types of a `param` or `local`; a named one has one type. -/
def parseDeclared (p : Parser) (next : Nat) : Parse ((List ValType × Nat) × Parser) := do
  let (name, p) ← p.tryIdentifier F
  match name with
  | some name =>
    match p.lookahead with
    | some (.keyword kw) =>
      match ValType.fromKw kw with
      | some vt => do
        let p := { p with localNames := p.localNames ++ [(name, UInt32.ofNat next)] }
        let next ← nextU32 next
        let p ← p.bump F
        .ok (([vt], next), p)
      | none => .ok (([], next), p)
    | _ => .ok (([], next), p)
  | none => unnamed.loop F p.fuel p next

/-- The body is the rest of the function. -/
def finishFunc (p : Parser) (m : Module) (h : FuncHeader) (body : List Instr) : Parse (Module × Parser) := do
  let p ← p.expectRparen F
  .ok ({ m with funcs := m.funcs ++ [⟨h.typeIdx, h.locals, body⟩] }, p)

def parseFuncDef.loop (fidx : UInt32) : Nat → Parser → Module → FuncHeader → Parse (Module × Parser)
  | 0, _, _, _ => .error .hang
  | fuel + 1, p, m, h =>
    if p.lookahead = some .lparen then do
      let p ← p.bump F
      if p.lookahead = some (.keyword (utf8 "export")) then do
        let p ← p.bump F
        let (exportName, p) ← p.expectString F
        let p ← p.expectRparen F
        parseFuncDef.loop fidx fuel p { m with exports := m.exports ++ [⟨exportName, 0x00, fidx⟩] } h
      else if p.lookahead = some (.keyword (utf8 "import")) then do
        let p ← p.bump F
        let (modBytes, p) ← p.expectString F
        let (nameBytes, p) ← p.expectString F
        let p ← p.expectRparen F
        let (types, ti) := internType m.types ⟨h.params, h.results⟩
        let p ← p.expectRparen F
        .ok ({ m with types := types, imports := m.imports ++ [⟨modBytes, nameBytes, ti⟩] }, p)
      else if p.lookahead = some (.keyword (utf8 "type")) then do
        let p ← p.bump F
        let (typeIdx, p) ← p.parseTypeIndex F
        let p ← p.expectRparen F
        parseFuncDef.loop fidx fuel p m { h with typeIdx := typeIdx, typeParsed := true }
      else if p.lookahead = some (.keyword (utf8 "param")) then do
        let p ← p.bump F
        let ((vts, next), p) ← p.parseDeclared F h.nextLocal
        let p ← p.expectRparen F
        parseFuncDef.loop fidx fuel p m { h with params := h.params ++ vts, nextLocal := next }
      else if p.lookahead = some (.keyword (utf8 "result")) then do
        let p ← p.bump F
        let (vts, p) ← p.valTypes F
        let p ← p.expectRparen F
        parseFuncDef.loop fidx fuel p m { h with results := h.results ++ vts }
      else if p.lookahead = some (.keyword (utf8 "local")) then do
        let (h, m) := h.intern m
        let p ← p.bump F
        let ((vts, next), p) ← p.parseDeclared F h.nextLocal
        let p ← p.expectRparen F
        parseFuncDef.loop fidx fuel p m { h with locals := h.locals ++ vts.map Local.mk, nextLocal := next }
      else do
        let (h, m) := h.intern m
        let (folded, p) ← parseFoldedInstr F p.fuel p
        let (instrs, p) ← parseInstrs F p.fuel p
        p.finishFunc F m h (folded ++ instrs)
    else do
      let (h, m) := h.intern m
      let (body, p) ← parseInstrs F p.fuel p
      p.finishFunc F m h body

def parseFuncDef (p : Parser) (m : Module) : Parse (Module × Parser) := do
  let p ← p.bump F
  let (name, p) ← p.tryIdentifier F
  let fidx := UInt32.ofNat (m.imports.length + m.funcs.length)
  let p := { p.nameFunc name fidx with localNames := [] }
  parseFuncDef.loop F fidx p.fuel p m ⟨false, 0, [], [], [], 0⟩

/-! ## Memories, exports and data -/

def tryInt (p : Parser) : Parse (Option UInt32 × Parser) :=
  match p.lookahead with
  | some (.int n) => do
    let p ← p.bump F
    .ok (some (asU32 n), p)
  | _ => .ok (none, p)

def parseMemoryLimits (p : Parser) (m : Module) : Parse (Module × Parser) := do
  let (min, p) ← p.tryInt F
  let (max, p) ← p.tryInt F
  let p ← p.expectRparen F
  .ok ({ m with memories := m.memories ++ [⟨min.getD 0, max⟩] }, p)

def parseMemory (p : Parser) (m : Module) : Parse (Module × Parser) := do
  let p ← p.bump F
  let (_, p) ← p.tryIdentifier F
  if p.lookahead = some .lparen then do
    let p ← p.bump F
    if p.lookahead = some (.keyword (utf8 "import")) then do
      let p ← p.skipRestOfList F
      let p ← p.expectRparen F
      .ok (m, p)
    else do
      let p ← p.skipRestOfList F
      p.parseMemoryLimits F m
  else p.parseMemoryLimits F m

def exportKinds : List (List UInt8 × UInt8) :=
  [(utf8 "func", 0x00), (utf8 "memory", 0x02), (utf8 "table", 0x01), (utf8 "global", 0x03)]

def exportKind (p : Parser) : Option UInt8 :=
  match p.lookahead with
  | some (.keyword kw) => exportKinds.lookup kw
  | _ => none

/-- A name is looked up among the functions, whatever the kind. -/
def parseExport (p : Parser) (m : Module) : Parse (Module × Parser) := do
  let p ← p.bump F
  let (nameBytes, p) ← p.expectString F
  let p ← p.expectLparen F
  match p.exportKind with
  | some kind => do
    let p ← p.bump F
    let (index, p) ← p.parseFuncIdx F
    let p ← p.expectRparen F
    let p ← p.expectRparen F
    .ok ({ m with exports := m.exports ++ [⟨nameBytes, kind, index⟩] }, p)
  | none => do
    let p ← p.skipRestOfList F
    let p ← p.expectRparen F
    .ok (m, p)

def strings.loop : Nat → Parser → Parse (List UInt8 × Parser)
  | 0, _ => .error .hang
  | fuel + 1, p =>
    match p.lookahead with
    | some (.stringLiteral _) => do
      let (b, p) ← p.expectString F
      let (bytes, p) ← strings.loop fuel p
      .ok (b ++ bytes, p)
    | _ => .ok ([], p)

/-- With `(offset …)` the closing parenthesis of the inner list is taken for that of the outer one. -/
def parseData (p : Parser) (m : Module) : Parse (Module × Parser) := do
  let p ← p.bump F
  let (_, p) ← p.tryInt F
  let (offset, p) ← if p.lookahead = some .lparen then do
      let p ← p.bump F
      let p ← if p.lookahead = some (.keyword (utf8 "offset")) then do
          let p ← p.bump F
          p.bump F
        else .ok p
      let p ← p.expectKeyword F (utf8 "i32.const")
      let (n, p) ← p.parseInt F
      let p ← p.expectRparen F
      .ok (n, p)
    else .ok (0, p)
  let (bytes, p) ← strings.loop F p.fuel p
  let p ← p.expectRparen F
  .ok ({ m with data := m.data ++ [⟨offset, bytes⟩] }, p)

/-! ## The module -/

def parseField (p : Parser) (m : Module) : Parse (Module × Parser) :=
  if p.lookahead = some (.keyword (utf8 "type")) then p.parseTypeDef F m
  else if p.lookahead = some (.keyword (utf8 "import")) then p.parseImport F m
  else if p.lookahead = some (.keyword (utf8 "func")) then p.parseFuncDef F m
  else if p.lookahead = some (.keyword (utf8 "memory")) then p.parseMemory F m
  else if p.lookahead = some (.keyword (utf8 "export")) then p.parseExport F m
  else if p.lookahead = some (.keyword (utf8 "data")) then p.parseData F m
  else if p.lookahead = some (.keyword (utf8 "table")) ∨ p.lookahead = some (.keyword (utf8 "elem")) ∨
      p.lookahead = some (.keyword (utf8 "global")) ∨ p.lookahead = some (.keyword (utf8 "start")) then do
    let p ← p.bump F
    let p ← p.skipRestOfList F
    .ok (m, p)
  else do
    let p ← p.skipRestOfList F
    .ok (m, p)

def parseModule.loop : Nat → Parser → Module → Parse (Module × Parser)
  | 0, _, _ => .error .hang
  | fuel + 1, p, m =>
    if p.lookahead = some .lparen then do
      let p ← p.expectLparen F
      let (m, p) ← p.parseField F m
      parseModule.loop fuel p m
    else .ok (m, p)

def parseModule (p : Parser) : Parse (Module × Parser) := do
  let p ← p.expectLparen F
  let p ← p.expectKeyword F (utf8 "module")
  let (_, p) ← p.tryIdentifier F
  let (m, p) ← parseModule.loop F p.fuel p {}
  let p ← p.expectRparen F
  .ok (m, p)

end

end Parser

end WasmOs.Asm
