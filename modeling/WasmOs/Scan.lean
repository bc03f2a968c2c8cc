import WasmOs.Sections
import WasmOs.Probe

/-!
# Block matching and the jump table

`scanBlockEnd` finds the `end` (and `else`) of a block by skipping the immediates of every
instruction in between. `preScanBodyJumps` runs it once for every block of a body and keeps the
results in an open-addressing hash table that `jumpLookup` probes at run time.
-/

namespace WasmOs

def NO_ELSE : Nat := usizeMax

/-- How the two scanners step over an opcode. -/
inductive ScanClass where
  | structured | else_ | end_ | leb1 | leb2 | brTable | reserved | const4 | const8 | pre | plain
  deriving DecidableEq, Repr

def scanClass (op : UInt8) : ScanClass :=
  if op = 0x02 ∨ op = 0x03 ∨ op = 0x04 then .structured
  else if op = 0x05 then .else_
  else if op = 0x0B then .end_
  else if op = 0x0C ∨ op = 0x0D ∨ op = 0x10 ∨ op = 0x20 ∨ op = 0x21 ∨ op = 0x22 ∨ op = 0x23 ∨ op = 0x24 ∨
      op = 0x41 ∨ op = 0x42 then .leb1
  else if op = 0x11 then .leb2
  else if op = 0x0E then .brTable
  else if 0x28 ≤ op ∧ op ≤ 0x3E then .leb2
  else if op = 0x3F ∨ op = 0x40 then .reserved
  else if op = 0x43 then .const4
  else if op = 0x44 then .const8
  else if op = 0xFC then .pre
  else .plain

def skipLeb128.loop : List UInt8 → Nat → Option Nat
  | [], _ => none
  | b :: bytes, n => if b &&& 0x80 = 0 then some (n + 1) else skipLeb128.loop bytes (n + 1)

/-- The number of bytes of the LEB-128 value at `start`. -/
def skipLeb128 (bytes : List UInt8) (start : Nat) : Option Nat := skipLeb128.loop (bytes.drop start) 0

/-- `count` LEB-128 values from `i` on; the position after them. -/
def skipLebs (body : List UInt8) : Nat → Nat → Option Nat
  | 0, i => some i
  | k + 1, i => (skipLeb128 body i).bind fun n => skipLebs body k (i + n)

/-- The position after the immediates of a non-structural opcode whose immediates start at `i`. -/
def skipImmediates (body : List UInt8) (i : Nat) : ScanClass → Option Nat
  | .leb1 => skipLebs body 1 i
  | .leb2 => skipLebs body 2 i
  | .brTable => (readU32Leb128 (body.drop i)).bind fun p => skipLebs body (p.1 + 1) (i + p.2)
  | .reserved => some (i + 1)
  | .const4 => some (i + 4)
  | .const8 => some (i + 8)
  | .pre => skipLebs body 1 i
  | _ => some i

theorem skipLebs_ge {body : List UInt8} : ∀ {k i j : Nat}, skipLebs body k i = some j → i ≤ j
  | 0, i, j, h => by cases h; exact Nat.le_refl i
  | k + 1, i, j, h => by
    obtain ⟨n, _, h⟩ := Option.bind_eq_some_iff.mp h
    have := skipLebs_ge h
    omega

theorem skipImmediates_ge {body : List UInt8} {i j : Nat} {c : ScanClass} (h : skipImmediates body i c = some j) :
    i ≤ j := by
  cases c with
  | leb1 => exact skipLebs_ge h
  | leb2 => exact skipLebs_ge h
  | pre => exact skipLebs_ge h
  | brTable =>
    obtain ⟨p, _, h⟩ := Option.bind_eq_some_iff.mp h
    have := skipLebs_ge h
    omega
  | _ => simp only [skipImmediates, Option.some.injEq] at h; omega

-- `i` grows in every round, so `body.length` rounds leave the body.
def scanBlockEnd.loop (body : List UInt8) : Nat → Nat → Nat → Nat → Option (Nat × Nat)
  | 0, _, _, _ => none
  | fuel + 1, i, depth, elsePc =>
    match body[i]? with
    | none => none
    | some op =>
      match scanClass op with
      | .structured => scanBlockEnd.loop body fuel (i + 2) (depth + 1) elsePc
      | .else_ => scanBlockEnd.loop body fuel (i + 1) depth (if depth = 1 then i else elsePc)
      | .end_ => if depth = 1 then some (i, elsePc) else scanBlockEnd.loop body fuel (i + 1) (depth - 1) elsePc
      | c => (skipImmediates body (i + 1) c).bind fun i => scanBlockEnd.loop body fuel i depth elsePc

/-- Positions of the matching `end` and of the `else` (`NO_ELSE` if absent). -/
def scanBlockEnd (body : List UInt8) (start : Nat) : Option (Nat × Nat) :=
  scanBlockEnd.loop body body.length start 1 NO_ELSE

/-! ## The jump table -/

def JUMP_SLOTS : Nat := 4096
def u16Max : Nat := 2 ^ 16 - 1
def u32Max : Nat := 2 ^ 32 - 1

structure JumpSlot where
  keyBody : Nat
  keyPc : Nat
  endPc : Nat
  elsePc : Nat
  deriving DecidableEq, Repr

def EMPTY_JUMP_SLOT : JumpSlot := ⟨u16Max, 0, 0, u32Max⟩

def jumpHash (bodyIdx scanStart : Nat) : Nat :=
  let h := (BitVec.ofNat 64 bodyIdx * 2654435761) ^^^ (BitVec.ofNat 64 scanStart * 2246822519)
  (h ^^^ (h >>> 16)).toNat % JUMP_SLOTS

def JumpSlot.empty (s : JumpSlot) : Bool := s.keyBody == u16Max

/-- Store one entry in the first empty slot after its hash; a full table drops it. -/
def jumpInsert (table : Nat → JumpSlot) (bodyIdx scanStart endPc elsePc : Nat) : Nat → JumpSlot :=
  if u16Max ≤ bodyIdx then table else
  match probe JUMP_SLOTS (fun i => (table i).empty) JUMP_SLOTS (jumpHash bodyIdx scanStart) with
  | none => table
  | some i => upd table i
    { keyBody := bodyIdx % 2 ^ 16
      keyPc := scanStart % 2 ^ 32
      endPc := endPc % 2 ^ 32
      elsePc := if elsePc = NO_ELSE then u32Max else elsePc % 2 ^ 32 }

/-- The labels of a `br_table`: a truncated one counts for one byte. -/
def preScanLabels (body : List UInt8) : Nat → Nat → Nat
  | 0, i => i
  | k + 1, i => preScanLabels body k (i + (skipLeb128 body i).getD 1)

/-- One round of the pre-scan at position `i`: the scan start of the block found there, if any, and
the next position; `none` ends the walk. -/
def preScanStep (body : List UInt8) (i : Nat) : Option (Option Nat × Nat) :=
  match body[i]? with
  | none => none
  | some op =>
    match scanClass op with
    | .structured => if body.length ≤ i + 1 then none else some (some (i + 2), i + 2)
    | .brTable =>
      match readU32Leb128 (body.drop (i + 1)) with
      | none => none
      | some (count, n) =>
        some (none, preScanLabels body (count + 1) (i + 1 + n))
    | .leb2 =>
      let i := i + 1 + (skipLeb128 body (i + 1)).getD 0
      some (none, i + (skipLeb128 body i).getD 0)
    | .leb1 | .pre => some (none, i + 1 + (skipLeb128 body (i + 1)).getD 0)
    | .reserved => some (none, i + 2)
    | .const4 => some (none, i + 5)
    | .const8 => some (none, i + 9)
    | .else_ | .end_ | .plain => some (none, i + 1)

def preScanBodyJumps.loop (body : List UInt8) (bodyIdx : Nat) : Nat → Nat → (Nat → JumpSlot) → (Nat → JumpSlot)
  | 0, _, table => table
  | fuel + 1, i, table =>
    match preScanStep body i with
    | none => table
    | some (none, i) => preScanBodyJumps.loop body bodyIdx fuel i table
    | some (some scanStart, i) =>
      match scanBlockEnd body scanStart with
      | none => preScanBodyJumps.loop body bodyIdx fuel i table
      | some (endPc, elsePc) =>
        preScanBodyJumps.loop body bodyIdx fuel i (jumpInsert table bodyIdx scanStart endPc elsePc)

def preScanBodyJumps (body : List UInt8) (bodyIdx : Nat) (table : Nat → JumpSlot) : Nat → JumpSlot :=
  preScanBodyJumps.loop body bodyIdx body.length 0 table

/-- The table built by `Interpreter::new` from all function bodies. -/
def buildJumpTable (bodies : List (List UInt8)) : Nat → JumpSlot :=
  bodies.zipIdx.foldl (fun t p => preScanBodyJumps p.1 p.2 t) fun _ => EMPTY_JUMP_SLOT

/-- Probe until an empty slot or a hit. A full table without a hit is probed for ever. -/
def jumpLookup (table : Nat → JumpSlot) (bodyIdx scanStart : Nat) : Rust Empty (Option (Nat × Nat)) :=
  match probe JUMP_SLOTS (fun i => (table i).empty ||
    ((table i).keyBody == bodyIdx && (table i).keyPc == scanStart))
    JUMP_SLOTS (jumpHash bodyIdx scanStart) with
  | none => .error .hang
  | some i =>
    let s := table i
    if s.empty then .ok none
    else .ok (some (s.endPc, if s.elsePc = u32Max then NO_ELSE else s.elsePc))

end WasmOs
