import WasmOs.Leb

/-!
# Instruction sequences of the binary format

An instruction carries the bytes of its own immediates, so a sequence has exactly one encoding and
"every well-formed body" is "every `Expr`". Block types are single bytes. The instructions are those
of the MVP, the sign extensions, the saturating truncations and the bulk memory operations.
-/

namespace WasmOs

/-- An instruction without nested instructions. -/
inductive Plain where
  | op (b : UInt8)
  | idx (b : UInt8) (i : U32)
  | brTable (count : U32) (labels : List U32) (default : U32)
  | callIndirect (type table : U32)
  | mem (b : UInt8) (align offset : U32)
  | memPages (b : UInt8)
  | i32Const (c : S32)
  | i64Const (c : S64)
  | f32Const (c : List UInt8)
  | f64Const (c : List UInt8)
  | truncSat (sub : U32)
  | memoryInit (sub seg : U32)
  | dataDrop (sub seg : U32)
  | memoryCopy (sub : U32)
  | memoryFill (sub : U32)

/-- The opcodes without immediates: `unreachable`, `nop`, `return`, `drop`, `select` and the numeric
instructions. -/
def opcodes : List UInt8 := [0x00, 0x01, 0x0F, 0x1A, 0x1B]

/-- The opcodes with one index: `br`, `br_if`, `call` and the variable instructions. -/
def idxOpcodes : List UInt8 := [0x0C, 0x0D, 0x10, 0x20, 0x21, 0x22, 0x23, 0x24]

def Plain.WF : Plain → Prop
  | .op b => b ∈ opcodes ∨ 0x45 ≤ b.toNat ∧ b.toNat ≤ 0xC4
  | .idx b _ => b ∈ idxOpcodes
  | .brTable count labels _ => labels.length = count.val
  | .mem b _ _ => 0x28 ≤ b.toNat ∧ b.toNat ≤ 0x3E
  | .memPages b => b = 0x3F ∨ b = 0x40
  | .f32Const c => c.length = 4
  | .f64Const c => c.length = 8
  | .truncSat sub => sub.val < 8
  | .memoryInit sub _ => sub.val = 8
  | .dataDrop sub _ => sub.val = 9
  | .memoryCopy sub => sub.val = 10
  | .memoryFill sub => sub.val = 11
  | _ => True

def Plain.bytes : Plain → List UInt8
  | .op b => [b]
  | .idx b i => b :: i.raw
  | .brTable count labels default => 0x0E :: (count.raw ++ (labels.flatMap U32.raw ++ default.raw))
  | .callIndirect type table => 0x11 :: (type.raw ++ table.raw)
  | .mem b align offset => b :: (align.raw ++ offset.raw)
  | .memPages b => [b, 0x00]
  | .i32Const c => 0x41 :: c.raw
  | .i64Const c => 0x42 :: c.raw
  | .f32Const c => 0x43 :: c
  | .f64Const c => 0x44 :: c
  | .truncSat sub => 0xFC :: sub.raw
  | .memoryInit sub seg => 0xFC :: (sub.raw ++ (seg.raw ++ [0x00]))
  | .dataDrop sub seg => 0xFC :: (sub.raw ++ seg.raw)
  | .memoryCopy sub => 0xFC :: (sub.raw ++ [0x00, 0x00])
  | .memoryFill sub => 0xFC :: (sub.raw ++ [0x00])

inductive BlockKind where
  | block | loop | if_
  deriving DecidableEq, Repr

def BlockKind.opcode : BlockKind → UInt8
  | .block => 0x02
  | .loop => 0x03
  | .if_ => 0x04

/-- An instruction sequence: its first instruction and the rest `k`. An `if` without `else` is a
`block` of kind `if_`. -/
inductive Expr where
  | nil
  | plain (p : Plain) (k : Expr)
  | block (kind : BlockKind) (bt : UInt8) (body k : Expr)
  | ifElse (bt : UInt8) (thn els k : Expr)

def Expr.bytes : Expr → List UInt8
  | .nil => []
  | .plain p k => p.bytes ++ k.bytes
  | .block kind bt body k => kind.opcode :: bt :: (body.bytes ++ 0x0B :: k.bytes)
  | .ifElse bt thn els k => 0x04 :: bt :: (thn.bytes ++ 0x05 :: (els.bytes ++ 0x0B :: k.bytes))

/-- Every plain instruction of the sequence, at any depth, satisfies `P`. -/
def Expr.All (P : Plain → Prop) : Expr → Prop
  | .nil => True
  | .plain p k => P p ∧ k.All P
  | .block _ _ body k => body.All P ∧ k.All P
  | .ifElse _ thn els k => thn.All P ∧ els.All P ∧ k.All P

/-- The bytes of a function body: its instructions and the final `end`. -/
def Expr.body (e : Expr) : List UInt8 := e.bytes ++ [0x0B]

/-- A block, loop or if: what it holds, where its contents start and where its `end` and `else` stand. -/
structure BlockPos where
  kind : BlockKind
  thn : Expr
  els : Option Expr
  start : Nat
  endPos : Nat
  elsePos : Option Nat

/-- The blocks of a sequence whose first byte is at `o`, at any nesting depth. -/
inductive BlockAt : Expr → Nat → BlockPos → Prop
  | block {kind : BlockKind} {bt : UInt8} {body k : Expr} {o : Nat} :
      BlockAt (.block kind bt body k) o ⟨kind, body, none, o + 2, o + 2 + body.bytes.length, none⟩
  | ifElse {bt : UInt8} {thn els k : Expr} {o : Nat} :
      BlockAt (.ifElse bt thn els k) o ⟨.if_, thn, some els, o + 2,
        o + 2 + thn.bytes.length + 1 + els.bytes.length, some (o + 2 + thn.bytes.length)⟩
  | inBlock {kind : BlockKind} {bt : UInt8} {body k : Expr} {o : Nat} {q : BlockPos} :
      BlockAt body (o + 2) q → BlockAt (.block kind bt body k) o q
  | inThn {bt : UInt8} {thn els k : Expr} {o : Nat} {q : BlockPos} :
      BlockAt thn (o + 2) q → BlockAt (.ifElse bt thn els k) o q
  | inEls {bt : UInt8} {thn els k : Expr} {o : Nat} {q : BlockPos} :
      BlockAt els (o + 2 + thn.bytes.length + 1) q → BlockAt (.ifElse bt thn els k) o q
  | afterPlain {p : Plain} {k : Expr} {o : Nat} {q : BlockPos} :
      BlockAt k (o + p.bytes.length) q → BlockAt (.plain p k) o q
  | afterBlock {kind : BlockKind} {bt : UInt8} {body k : Expr} {o : Nat} {q : BlockPos} :
      BlockAt k (o + 2 + body.bytes.length + 1) q → BlockAt (.block kind bt body k) o q
  | afterIfElse {bt : UInt8} {thn els k : Expr} {o : Nat} {q : BlockPos} :
      BlockAt k (o + 2 + thn.bytes.length + 1 + els.bytes.length + 1) q → BlockAt (.ifElse bt thn els k) o q

end WasmOs
