import WasmOs.Fault
import WasmOs.Loader
import WasmOs.Opcode

/-!
# The assembler's tokenizer

`Tokenizer` of `asm.rs` reads WAT text by bytes and hands out slices of it. A slice that does not begin
and end at a character panics, and so does a number that leaves `i32`.
-/

namespace WasmOs.Asm

/-- An `f32` is its bits. -/
inductive Token where
  | lparen | rparen
  | keyword (kw : List UInt8)
  | identifier (id : List UInt8)
  | int (n : BitVec 32)
  | float (f : BitVec 32)
  | stringLiteral (s : List UInt8)
  deriving DecidableEq, Repr

/-! ## Characters -/

/-- `(b as char).is_whitespace()` -/
def isWhitespace (c : UInt8) : Bool := (9 ≤ c && c ≤ 13) || c == 0x20 || c == 0x85 || c == 0xA0

def isAsciiDigit (c : UInt8) : Bool := 0x30 ≤ c && c ≤ 0x39

def isAsciiHexdigit (c : UInt8) : Bool := isAsciiDigit c || (0x61 ≤ c && c ≤ 0x66) || (0x41 ≤ c && c ≤ 0x46)

/-- `(b as char).is_alphanumeric()`; from `0x80` on a byte is taken for a Latin-1 character. -/
def isAlphanumeric (c : UInt8) : Bool :=
  isAsciiDigit c || (0x61 ≤ c && c ≤ 0x7A) || (0x41 ≤ c && c ≤ 0x5A) ||
    [0xAA, 0xB2, 0xB3, 0xB5, 0xB9, 0xBA, 0xBC, 0xBD, 0xBE].contains c || (0xC0 ≤ c && c != 0xD7 && c != 0xF7)

def isContinuation (c : UInt8) : Bool := 0x80 ≤ c && c < 0xC0

/-- `s.is_char_boundary(i)` -/
def isCharBoundary (s : List UInt8) (i : Nat) : Bool :=
  i == 0 || i == s.length || s[i]?.any fun c => !isContinuation c

section
variable {ε : Type}

/-- `&s[lo..hi]` on a `str` -/
def strSlice (s : List UInt8) (lo hi : Nat) : Rust ε (List UInt8) :=
  if lo ≤ hi ∧ hi ≤ s.length ∧ isCharBoundary s lo ∧ isCharBoundary s hi then .ok ((s.take hi).drop lo) else
      .error .panic

/-! ## Numbers -/

/-- What an `i32` sum or product of this value gives. -/
def i32Fits (n : Nat) : Rust ε Nat := if n < 2 ^ 31 then .ok n else .error .panic

def parseI32.digits : List UInt8 → Nat → Rust ε Nat
  | [], res => .ok res
  | c :: cs, res =>
    if isAsciiDigit c then do
      let res ← i32Fits (res * 10)
      let res ← i32Fits (res + (c.toNat - 0x30))
      parseI32.digits cs res
    else parseI32.digits cs res

/-- Whatever is no digit is passed over. -/
def parseI32 (s : List UInt8) : Rust ε (BitVec 32) :=
  match s with
  | 0x2D :: cs => do
    let res ← parseI32.digits cs 0
    .ok (-BitVec.ofNat 32 res)
  | cs => do
    let res ← parseI32.digits cs 0
    .ok (BitVec.ofNat 32 res)

section
variable (F : FloatOps)

def parseF32.frac : List UInt8 → BitVec 32 → BitVec 32 → Rust ε (BitVec 32)
  | [], f, _ => .ok f
  | c :: cs, f, div => do
    let digit ← usub c.toNat 0x30
    let f := F.f32Bin .add f (F.f32Bin .div (F.convertF32 false 32 (BitVec.ofNat 32 digit)) div)
    parseF32.frac cs f (F.f32Bin .mul div 0x41200000)

/-- `parts` is what stands between the points. -/
def parseF32 (s : List UInt8) : Rust ε (BitVec 32) := do
  let neg := s.head? == some 0x2D
  let body := s.dropWhile (· == 0x2D)
  let intPart ← parseI32 (body.takeWhile (· != 0x2E))
  let frac ← match body.dropWhile (· != 0x2E) with
    | [] => .ok 0
    | _ :: part => parseF32.frac F (part.takeWhile (· != 0x2E)) 0 0x41200000
  let result := F.f32Bin .add (F.convertF32 true 32 intPart) frac
  .ok (if neg then F.f32Un .neg result else result)

end

end

/-! ## The tokenizer -/

structure Tokenizer where
  src : List UInt8
  pos : Nat

namespace Tokenizer

variable {ε : Type}

/-- `while self.pos < self.src.len() { if !p(c) { break; } self.pos += 1; }` -/
def scan (t : Tokenizer) (p : UInt8 → Bool) : Tokenizer :=
  { t with pos := t.pos + ((t.src.drop t.pos).takeWhile p).length }

def advance (t : Tokenizer) (n : Nat) : Tokenizer := { t with pos := t.pos + n }

/-- Every round but the last moves on, so there are at most as many as there are bytes. -/
def skipWhitespaceAndComments.loop : Nat → Tokenizer → Tokenizer
  | 0, t => t
  | fuel + 1, t =>
    match t.src[t.pos]? with
    | none => t
    | some c =>
      if isWhitespace c then skipWhitespaceAndComments.loop fuel (t.advance 1)
      else if c = 0x3B ∧ t.src[t.pos + 1]? = some 0x3B then
        skipWhitespaceAndComments.loop fuel ((t.advance 2).scan (· != 0x0A))
      else t

def skipWhitespaceAndComments (t : Tokenizer) : Tokenizer := skipWhitespaceAndComments.loop (t.src.length + 1) t

/-- The text between two positions. -/
def slice (t : Tokenizer) (start : Nat) : Rust ε (List UInt8) := strSlice t.src start t.pos

def readIdentifier (t : Tokenizer) : Rust ε (Token × Tokenizer) := do
  let start := t.pos
  let t := (t.advance 1).scan fun c => isAlphanumeric c || c == 0x5F || c == 0x2D || c == 0x2E
  let s ← t.slice start
  .ok (.identifier s, t)

def readString (t : Tokenizer) : Rust ε (Token × Tokenizer) := do
  let t := t.advance 1
  let start := t.pos
  let t := t.scan (· != 0x22)
  let s ← t.slice start
  .ok (.stringLiteral s, if t.pos < t.src.length then t.advance 1 else t)

def readNumber (F : FloatOps) (t : Tokenizer) : Rust ε (Token × Tokenizer) := do
  let start := t.pos
  let t := if t.src[t.pos]? = some 0x2D then t.advance 1 else t
  let isFloat := ((t.src.drop t.pos).takeWhile fun c => c == 0x2E || isAsciiDigit c).contains 0x2E
  let t := t.scan fun c => c == 0x2E || isAsciiDigit c
  let s ← t.slice start
  if isFloat then do
    let f ← parseF32 F s
    .ok (.float f, t)
  else do
    let n ← parseI32 s
    .ok (.int n, t)

def readKeyword (t : Tokenizer) : Rust ε (Token × Tokenizer) := do
  let start := t.pos
  let t := t.scan fun c => !(isWhitespace c || c == 0x28 || c == 0x29)
  let s ← t.slice start
  .ok (.keyword s, t)

def nextToken (F : FloatOps) (t : Tokenizer) : Rust ε (Option Token × Tokenizer) :=
  let t := t.skipWhitespaceAndComments
  match t.src[t.pos]? with
  | none => .ok (none, t)
  | some c =>
    if c = 0x28 then .ok (some .lparen, t.advance 1)
    else if c = 0x29 then .ok (some .rparen, t.advance 1)
    else (if c = 0x24 then t.readIdentifier
      else if c = 0x22 then t.readString
      else if isAsciiDigit c ∨ c = 0x2D then t.readNumber F
      else t.readKeyword).map fun r => (some r.1, r.2)

end Tokenizer

/-! ## String literals -/

def hexDigit (b : UInt8) : UInt8 :=
  if isAsciiDigit b then b - 0x30
  else if 0x61 ≤ b ∧ b ≤ 0x66 then b - 0x61 + 10
  else if 0x41 ≤ b ∧ b ≤ 0x46 then b - 0x41 + 10
  else 0

/-- The escapes are tried in the order of the source: `\0` comes before two hexadecimal digits. -/
def unescapeWatString : List UInt8 → List UInt8
  | [] => []
  | b :: bs =>
    if b = 0x5C then
      match bs with
      | [] => [b]
      | c :: cs =>
        if c = 0x6E then 0x0A :: unescapeWatString cs
        else if c = 0x74 then 0x09 :: unescapeWatString cs
        else if c = 0x72 then 0x0D :: unescapeWatString cs
        else if c = 0x22 then 0x22 :: unescapeWatString cs
        else if c = 0x5C then 0x5C :: unescapeWatString cs
        else if c = 0x30 then 0 :: unescapeWatString cs
        else
          match cs with
          | [] => b :: unescapeWatString [c]
          | d :: ds =>
            if isAsciiHexdigit c ∧ isAsciiHexdigit d then ((hexDigit c <<< 4) ||| hexDigit d) ::
              unescapeWatString ds
            else b :: unescapeWatString (c :: d :: ds)
    else b :: unescapeWatString bs

end WasmOs.Asm
