import WasmOs.Asm
import WasmOs.Tokenizer

/-!
# The assembler's parser

`Parser` of `asm.rs`: a recursive descent over the tokens with one token of lookahead and a slot for one
more, which is used when a block type is looked for and something else comes. Names are resolved while
the text is read, from the tables built so far.
-/

namespace WasmOs.Asm

inductive ParseError where
  | expectedLparen | expectedRparen
  | expectedKeyword (kw : List UInt8)
  | expectedString | expectedTypeIndex | unexpectedEof
  deriving DecidableEq, Repr

def ValType.fromKw (kw : List UInt8) : Option ValType :=
  [(utf8 "i32", .i32), (utf8 "i64", .i64), (utf8 "f32", .f32), (utf8 "f64", .f64)].lookup kw

abbrev NameTable := List (List UInt8 × UInt32)

structure Parser where
  tokenizer : Tokenizer
  lookahead : Option Token
  unget : Option Token
  funcNames : NameTable
  typeNames : NameTable
  localNames : NameTable

abbrev Parse := Rust ParseError

/-! ## Instructions by keyword -/

/-- What follows a keyword, and the instruction made of it. -/
inductive Operator where
  | plain (instr : Instr)
  | int (instr : BitVec 32 → Instr)
  | float (instr : BitVec 32 → Instr)
  | «local» (instr : UInt32 → Instr)
  | func (instr : UInt32 → Instr)
  | label (instr : UInt32 → Instr)
  | memarg (instr : UInt32 → UInt32 → Instr)
  | opener (instr : UInt8 → Instr)

def operators : List (List UInt8 × Operator) :=
  [(utf8 "i32.const", .int .i32Const), (utf8 "i64.const", .int .i64Const),
   (utf8 "f32.const", .float .f32Const), (utf8 "f64.const", .float .f64Const),
   (utf8 "local.get", .local .localGet), (utf8 "get_local", .local .localGet),
   (utf8 "local.set", .local .localSet), (utf8 "set_local", .local .localSet),
   (utf8 "local.tee", .local .localTee), (utf8 "tee_local", .local .localTee),
   (utf8 "call", .func .call), (utf8 "br", .label .br), (utf8 "br_if", .label .brIf),
   (utf8 "i32.load", .memarg .i32Load), (utf8 "i32.store", .memarg .i32Store),
   (utf8 "i32.load8_s", .memarg .i32Load8S), (utf8 "i32.load8_u", .memarg .i32Load8U),
   (utf8 "i32.store8", .memarg .i32Store8),
   (utf8 "if", .opener .if), (utf8 "else", .plain .else), (utf8 "end", .plain .end),
   (utf8 "loop", .opener .loop), (utf8 "block", .opener .block),
   (utf8 "return", .plain .return), (utf8 "drop", .plain .drop), (utf8 "select", .plain .select),
   (utf8 "unreachable", .plain .unreachable), (utf8 "nop", .plain .nop),
   (utf8 "i32.add", .plain .i32Add), (utf8 "i32.sub", .plain .i32Sub), (utf8 "i32.mul", .plain .i32Mul),
   (utf8 "i32.div_s", .plain .i32DivS), (utf8 "i32.div_u", .plain .i32DivU),
   (utf8 "i32.rem_s", .plain .i32RemS), (utf8 "i32.rem_u", .plain .i32RemU),
   (utf8 "i32.and", .plain .i32And), (utf8 "i32.or", .plain .i32Or), (utf8 "i32.xor", .plain .i32Xor),
   (utf8 "i32.shl", .plain .i32Shl), (utf8 "i32.shr_s", .plain .i32ShrS), (utf8 "i32.shr_u", .plain .i32ShrU),
   (utf8 "i32.eqz", .plain .i32Eqz), (utf8 "i32.eq", .plain .i32Eq), (utf8 "i32.ne", .plain .i32Ne),
   (utf8 "i32.lt_s", .plain .i32LtS), (utf8 "i32.lt_u", .plain .i32LtU),
   (utf8 "i32.gt_s", .plain .i32GtS), (utf8 "i32.gt_u", .plain .i32GtU),
   (utf8 "i32.le_s", .plain .i32LeS), (utf8 "i32.le_u", .plain .i32LeU),
   (utf8 "i32.ge_s", .plain .i32GeS), (utf8 "i32.ge_u", .plain .i32GeU),
   (utf8 "i64.add", .plain .i64Add), (utf8 "i64.sub", .plain .i64Sub), (utf8 "i64.mul", .plain .i64Mul),
   (utf8 "i64.and", .plain .i64And), (utf8 "i64.or", .plain .i64Or), (utf8 "i64.xor", .plain .i64Xor),
   (utf8 "i64.eqz", .plain .i64Eqz), (utf8 "i64.eq", .plain .i64Eq), (utf8 "i64.ne", .plain .i64Ne),
   (utf8 "f32.add", .plain .f32Add), (utf8 "f32.sub", .plain .f32Sub),
   (utf8 "f32.mul", .plain .f32Mul), (utf8 "f32.div", .plain .f32Div),
   (utf8 "f64.add", .plain .f64Add), (utf8 "f64.sub", .plain .f64Sub),
   (utf8 "f64.mul", .plain .f64Mul), (utf8 "f64.div", .plain .f64Div)]

/-- `n as u32` -/
def asU32 (n : BitVec 32) : UInt32 := UInt32.ofBitVec n

/-- `parse_i32(id.trim_start_matches('$')) as u32` -/
def numericName (id : List UInt8) : Parse UInt32 := do
  let n ← parseI32 (id.dropWhile (· == 0x24))
  .ok (asU32 n)

namespace Parser

section
variable (F : FloatOps)

def new (src : List UInt8) : Parse Parser := do
  let (la, t) ← Tokenizer.nextToken F ⟨src, 0⟩
  .ok ⟨t, la, none, [], [], []⟩

/-! ## Tokens -/

def bump (p : Parser) : Parse Parser :=
  match p.unget with
  | some tok => .ok { p with lookahead := some tok, unget := none }
  | none => do
    let (la, t) ← p.tokenizer.nextToken F
    .ok { p with lookahead := la, tokenizer := t }

def ungetLparen (p : Parser) : Parser := { p with unget := p.lookahead, lookahead := some .lparen }

def expectLparen (p : Parser) : Parse Parser :=
  if p.lookahead = some .lparen then p.bump F else .error (.err .expectedLparen)

def expectRparen (p : Parser) : Parse Parser :=
  if p.lookahead = some .rparen then p.bump F else .error (.err .expectedRparen)

def expectKeyword (p : Parser) (kw : List UInt8) : Parse Parser :=
  if p.lookahead = some (.keyword kw) then p.bump F else .error (.err (.expectedKeyword kw))

def tryIdentifier (p : Parser) : Parse (Option (List UInt8) × Parser) :=
  match p.lookahead with
  | some (.identifier id) => do
    let p ← p.bump F
    .ok (some id, p)
  | _ => .ok (none, p)

def expectString (p : Parser) : Parse (List UInt8 × Parser) :=
  match p.lookahead with
  | some (.stringLiteral s) => do
    let p ← p.bump F
    .ok (unescapeWatString s, p)
  | _ => .error (.err .expectedString)

/-- A round takes a token, and a token is at least a byte; two are in `lookahead` and `unget`. -/
def fuel (p : Parser) : Nat := 2 * p.tokenizer.src.length + 8

/-- `depth` is an `i32`. -/
def skipRestOfList.loop : Nat → Nat → Parser → Parse Parser
  | 0, _, _ => .error .hang
  | fuel + 1, depth, p =>
    if depth = 0 then .ok p
    else match p.lookahead with
      | some .lparen => do
        let depth ← i32Fits (depth + 1)
        let p ← p.bump F
        skipRestOfList.loop fuel depth p
      | some .rparen => do
        let p ← p.bump F
        skipRestOfList.loop fuel (depth - 1) p
      | some _ => do
        let p ← p.bump F
        skipRestOfList.loop fuel depth p
      | none => .error (.err .unexpectedEof)

def skipRestOfList (p : Parser) : Parse Parser := skipRestOfList.loop F p.fuel 1 p

/-- `while let Some(Token::Keyword(kw)) = self.lookahead { … }` over value types. -/
def valTypes.loop : Nat → Parser → Parse (List ValType × Parser)
  | 0, _ => .error .hang
  | fuel + 1, p =>
    match p.lookahead with
    | some (.keyword kw) =>
      match ValType.fromKw kw with
      | some vt => do
        let p ← p.bump F
        let (vts, p) ← valTypes.loop fuel p
        .ok (vt :: vts, p)
      | none => .ok ([], p)
    | _ => .ok ([], p)

def valTypes (p : Parser) : Parse (List ValType × Parser) := valTypes.loop F p.fuel p

/-! ## Immediates -/

def parseInt (p : Parser) : Parse (BitVec 32 × Parser) :=
  match p.lookahead with
  | some (.int n) => do
    let p ← p.bump F
    .ok (n, p)
  | _ => .ok (0, p)

def parseFloat (p : Parser) : Parse (BitVec 32 × Parser) :=
  match p.lookahead with
  | some (.float f) => do
    let p ← p.bump F
    .ok (f, p)
  | some (.int n) => do
    let p ← p.bump F
    .ok (F.convertF32 true 32 n, p)
  | _ => .ok (0, p)

def parseLabelIdx (p : Parser) : Parse (UInt32 × Parser) :=
  match p.lookahead with
  | some (.int n) => do
    let p ← p.bump F
    .ok (asU32 n, p)
  | some (.identifier _) => do
    let p ← p.bump F
    .ok (0, p)
  | _ => .ok (0, p)

def parseLocalOrFuncIdx (p : Parser) : Parse (UInt32 × Parser) :=
  match p.lookahead with
  | some (.int n) => do
    let p ← p.bump F
    .ok (asU32 n, p)
  | some (.identifier id) => do
    let p ← p.bump F
    match p.localNames.lookup id with
    | some idx => .ok (idx, p)
    | none => do
      let idx ← numericName id
      .ok (idx, p)
  | _ => .ok (0, p)

def parseFuncIdx (p : Parser) : Parse (UInt32 × Parser) :=
  match p.lookahead with
  | some (.int n) => do
    let p ← p.bump F
    .ok (asU32 n, p)
  | some (.identifier id) => do
    let p ← p.bump F
    .ok ((p.funcNames.lookup id).getD 0, p)
  | _ => .ok (0, p)

/-- `kw.starts_with(pre)`, and what follows it. -/
def stripPrefix (pre kw : List UInt8) : Option (List UInt8) :=
  if pre <+: kw then some (kw.drop pre.length) else none

def parseMemarg.loop : Nat → Parser → UInt32 → UInt32 → Parse ((UInt32 × UInt32) × Parser)
  | 0, _, _, _ => .error .hang
  | fuel + 1, p, offset, align =>
    match p.lookahead with
    | some (.keyword kw) =>
      match stripPrefix (utf8 "offset=") kw, stripPrefix (utf8 "align=") kw with
      | some digits, _ => do
        let n ← parseI32 digits
        let p ← p.bump F
        parseMemarg.loop fuel p (asU32 n) align
      | none, some digits => do
        let n ← parseI32 digits
        let p ← p.bump F
        parseMemarg.loop fuel p offset (asU32 n)
      | none, none => .ok ((offset, align), p)
    | _ => .ok ((offset, align), p)

def parseMemarg (p : Parser) : Parse ((UInt32 × UInt32) × Parser) := parseMemarg.loop F p.fuel p 0 0

/-- Takes a `(result t)` only; any other parenthesis is put back. -/
def parseBlockType (p : Parser) : Parse (UInt8 × Parser) :=
  if p.lookahead = some .lparen then do
    let p ← p.bump F
    if p.lookahead = some (.keyword (utf8 "result")) then do
      let p ← p.bump F
      let bt := match p.lookahead with
        | some (.keyword kw) => ((ValType.fromKw kw).map ValType.byte).getD 0x40
        | _ => 0x40
      let p ← p.bump F
      let p ← p.expectRparen F
      .ok (bt, p)
    else .ok (0x40, p.ungetLparen)
  else .ok (0x40, p)

/-! ## Instructions -/

def buildInstr (p : Parser) (kw : List UInt8) : Parse (Option Instr × Parser) :=
  match operators.lookup kw with
  | none => .ok (none, p)
  | some (.plain instr) => .ok (some instr, p)
  | some (.int instr) => do
    let (n, p) ← p.parseInt F
    .ok (some (instr n), p)
  | some (.float instr) => do
    let (f, p) ← p.parseFloat F
    .ok (some (instr f), p)
  | some (.local instr) => do
    let (idx, p) ← p.parseLocalOrFuncIdx F
    .ok (some (instr idx), p)
  | some (.func instr) => do
    let (idx, p) ← p.parseFuncIdx F
    .ok (some (instr idx), p)
  | some (.label instr) => do
    let (l, p) ← p.parseLabelIdx F
    .ok (some (instr l), p)
  | some (.memarg instr) => do
    let ((offset, align), p) ← p.parseMemarg F
    .ok (some (instr offset align), p)
  | some (.opener instr) => do
    let (bt, p) ← p.parseBlockType F
    .ok (some (instr bt), p)

def parsePlainInstr (p : Parser) : Parse (Option Instr × Parser) :=
  match p.lookahead with
  | some (.keyword kw) => do
    let p ← p.bump F
    p.buildInstr F kw
  | _ => .ok (none, p)

mutual

/-- Up to a closing parenthesis. -/
def parseInstrs : Nat → Parser → Parse (List Instr × Parser)
  | 0, _ => .error .hang
  | fuel + 1, p =>
    match p.lookahead with
    | some .rparen => .ok ([], p)
    | none => .ok ([], p)
    | some .lparen => do
      let p ← p.bump F
      let (folded, p) ← parseFoldedInstr fuel p
      let (instrs, p) ← parseInstrs fuel p
      .ok (folded ++ instrs, p)
    | some (.keyword _) => do
      let (instr, p) ← p.parsePlainInstr F
      let (instrs, p) ← parseInstrs fuel p
      .ok (instr.toList ++ instrs, p)
    | some _ => do
      let p ← p.bump F
      parseInstrs fuel p

/-- After the opening parenthesis. -/
def parseFoldedInstr : Nat → Parser → Parse (List Instr × Parser)
  | 0, _ => .error .hang
  | fuel + 1, p =>
    match p.lookahead with
    | some (.keyword kw) =>
      if kw = utf8 "if" then parseFoldedIf fuel p
      else if kw = utf8 "block" ∨ kw = utf8 "loop" then parseFoldedBlockOrLoop fuel p
      else do
        let p ← p.bump F
        let (op, p) ← p.buildInstr F kw
        let (subInstrs, p) ← parseOperands fuel p
        let p ← p.expectRparen F
        .ok (subInstrs ++ op.toList, p)
    | _ => do
      let p ← p.skipRestOfList F
      .ok ([], p)

def parseOperands : Nat → Parser → Parse (List Instr × Parser)
  | 0, _ => .error .hang
  | fuel + 1, p =>
    if p.lookahead = some .lparen then do
      let p ← p.bump F
      let (si, p) ← parseFoldedInstr fuel p
      let (subInstrs, p) ← parseOperands fuel p
      .ok (si ++ subInstrs, p)
    else .ok ([], p)

/-- The condition of a folded `if`, and its `(then …)` if there is one. -/
def parseCondition : Nat → Parser → Parse ((List Instr × List Instr) × Parser)
  | 0, _ => .error .hang
  | fuel + 1, p =>
    if p.lookahead = some .lparen then do
      let p ← p.bump F
      if p.lookahead = some (.keyword (utf8 "then")) then do
        let p ← p.bump F
        let (thenInstrs, p) ← parseInstrs fuel p
        let p ← p.expectRparen F
        .ok (([], thenInstrs), p)
      else do
        let (sub, p) ← parseFoldedInstr fuel p
        let ((cond, thenInstrs), p) ← parseCondition fuel p
        .ok ((sub ++ cond, thenInstrs), p)
    else .ok (([], []), p)

def parseFoldedIf : Nat → Parser → Parse (List Instr × Parser)
  | 0, _ => .error .hang
  | fuel + 1, p => do
    let p ← p.bump F
    let (_, p) ← p.tryIdentifier F
    let (bt, p) ← p.parseBlockType F
    let ((cond, thenInstrs), p) ← parseCondition fuel p
    let (elseInstrs, p) ← if p.lookahead = some .lparen then do
        let p ← p.bump F
        if p.lookahead = some (.keyword (utf8 "else")) then do
          let p ← p.bump F
          let (elseInstrs, p) ← parseInstrs fuel p
          let p ← p.expectRparen F
          .ok (elseInstrs, p)
        else do
          let p ← p.skipRestOfList F
          .ok ([], p)
      else .ok ([], p)
    let p ← p.expectRparen F
    .ok (cond ++ .if bt :: thenInstrs ++ (if elseInstrs.isEmpty then [] else .else :: elseInstrs) ++ [.end], p)

def parseFoldedBlockOrLoop : Nat → Parser → Parse (List Instr × Parser)
  | 0, _ => .error .hang
  | fuel + 1, p => do
    let isLoop := p.lookahead = some (.keyword (utf8 "loop"))
    let p ← p.bump F
    let (_, p) ← p.tryIdentifier F
    let (bt, p) ← p.parseBlockType F
    let (body, p) ← parseInstrs fuel p
    let p ← p.expectRparen F
    .ok ((if isLoop then .loop bt else .block bt) :: body ++ [.end], p)

end

end

end Parser

end WasmOs.Asm
