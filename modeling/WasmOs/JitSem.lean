import WasmOs.JitConfine
import WasmOs.Opcode

/-!
# What compiled code computes

A straight-line body is a program for a stack machine with locals. The machine is run with two
meanings of the `i32` operations: on whole slots, which is what the compiled instructions do, and on
the low halves, which is what the interpreter does. `JitBin.Fits` says exactly when the two agree.
-/

namespace WasmOs

open X86 (Reg Instr Machine exec)

/-! ## The stack machine -/

/-- Locals and operand stack, the top first. -/
structure Config where
  locals : Nat → BitVec 64
  stack : List (BitVec 64)

/-- One operation; `none` if an operand is missing. -/
def JitOp.eval (f : JitBin → BitVec 64 → BitVec 64 → BitVec 64) (op : JitOp) (c : Config) : Option Config :=
  match op, c.stack with
  | .const v, st => some { c with stack := v :: st }
  | .localGet idx, st => some { c with stack := c.locals idx :: st }
  | .localSet idx, v :: st => some ⟨upd c.locals idx v, st⟩
  | .localTee idx, v :: st => some ⟨upd c.locals idx v, v :: st⟩
  | .bin b, y :: x :: st => some { c with stack := f b x y :: st }
  | .drop, _ :: st => some { c with stack := st }
  | .nop, _ => some c
  | _, _ => none

def JitOp.local? : JitOp → Option Nat
  | .localGet idx | .localSet idx | .localTee idx => some idx
  | _ => none

def evalOps (f : JitBin → BitVec 64 → BitVec 64 → BitVec 64) : List JitOp → Config → Option Config
  | [], c => some c
  | op :: ops, c => (op.eval f c).bind (evalOps f ops)

/-- With `d` operands on the stack the operations never have more than `n`. -/
def StackFits (n : Nat) : Nat → List JitOp → Prop
  | d, [] => d ≤ n
  | d, op :: ops => d ≤ n ∧ StackFits n (d - op.arity.1 + op.arity.2) ops

theorem StackFits.le {n d : Nat} {ops : List JitOp} (h : StackFits n d ops) : d ≤ n := by
  cases ops with
  | nil => exact h
  | cons op ops => exact h.1

theorem StackFits.mono {n n' : Nat} (hn : n ≤ n') :
    ∀ {ops : List JitOp} {d : Nat}, StackFits n d ops → StackFits n' d ops
  | [], _, h => Nat.le_trans h hn
  | _ :: _, _, h => ⟨Nat.le_trans h.1 hn, h.2.mono hn⟩

theorem eval_length {f : JitBin → BitVec 64 → BitVec 64 → BitVec 64} {op : JitOp} {c c' : Config}
    (h : op.eval f c = some c') :
    op.arity.1 ≤ c.stack.length ∧ c'.stack.length = c.stack.length - op.arity.1 + op.arity.2 := by
  unfold JitOp.eval at h
  split at h <;> cases h <;> simp_all [JitOp.arity]

theorem eval_some {f : JitBin → BitVec 64 → BitVec 64 → BitVec 64} {op : JitOp} {c : Config}
    (h : op.arity.1 ≤ c.stack.length) :
    ∃ c', op.eval f c = some c' := by
  obtain ⟨ls, st⟩ := c
  match op, st, h with
  | .const _, _, _ | .localGet _, _, _ | .nop, _, _ => exact ⟨_, rfl⟩
  | .localSet _, _ :: _, _ | .localTee _, _ :: _, _ | .drop, _ :: _, _ => exact ⟨_, rfl⟩
  | .bin _, _ :: _ :: _, _ => exact ⟨_, rfl⟩

/-- On whole slots; a shift uses the low six bits of its count. -/
def JitBin.eval64 : JitBin → BitVec 64 → BitVec 64 → BitVec 64
  | .add, x, y => x + y
  | .sub, x, y => x - y
  | .mul, x, y => x * y
  | .and, x, y => x &&& y
  | .or, x, y => x ||| y
  | .xor, x, y => x ^^^ y
  | .shl, x, y => x <<< (y.toNat % 64)
  | .shrS, x, y => x.sshiftRight (y.toNat % 64)
  | .shrU, x, y => x >>> (y.toNat % 64)

/-- On the low halves, with a shift count modulo 32. -/
def JitBin.eval32 : JitBin → BitVec 64 → BitVec 64 → BitVec 64
  | .add, x, y => sx (lo32 x + lo32 y)
  | .sub, x, y => sx (lo32 x - lo32 y)
  | .mul, x, y => sx (lo32 x * lo32 y)
  | .and, x, y => sx (lo32 x &&& lo32 y)
  | .or, x, y => sx (lo32 x ||| lo32 y)
  | .xor, x, y => sx (lo32 x ^^^ lo32 y)
  | .shl, x, y => sx (lo32 x <<< ((lo32 y).toNat % 32))
  | .shrS, x, y => sx ((lo32 x).sshiftRight ((lo32 y).toNat % 32))
  | .shrU, x, y => zx (lo32 x >>> ((lo32 y).toNat % 32))

/-! ## Where the two meanings agree -/

/-- A slot that holds an `i32` sign-extended. -/
def IsI32 (v : BitVec 64) : Prop := -2 ^ 31 ≤ v.toInt ∧ v.toInt < 2 ^ 31

instance (v : BitVec 64) : Decidable (IsI32 v) := inferInstanceAs (Decidable (_ ∧ _))

def hi32 (v : BitVec 64) : BitVec 32 := (v >>> 32).setWidth 32

/-- The operation does not notice that it works on 64 bits: its result is in the range of an `i32`, a
shift to the right starts from a slot without other high bits than its own, and a count whose sixth bit
is set shifts out everything that the halves do not have in common. -/
def JitBin.Fits (b : JitBin) (x y : BitVec 64) : Prop :=
  let k := y.toNat % 64
  match b with
  | .shl => if k < 32 then IsI32 (x <<< k) else lo32 x <<< (k - 32) = 0
  | .shrS => if k < 32 then IsI32 x else (hi32 x).sshiftRight (k - 32) = (lo32 x).sshiftRight (k - 32)
  | .shrU => if k < 32 then x.toNat < 2 ^ 32 else hi32 x >>> (k - 32) = lo32 x >>> (k - 32)
  | b => IsI32 (b.eval64 x y)

theorem lo32_toInt (v : BitVec 64) : ∃ q : Int, v.toInt = (lo32 v).toInt + 2 ^ 32 * q ∧
    -2 ^ 31 ≤ (lo32 v).toInt ∧ (lo32 v).toInt < 2 ^ 31 := by
  have hv := v.isLt
  have hlo : (lo32 v).toNat = v.toNat % 2 ^ 32 := BitVec.toNat_setWidth ..
  rw [BitVec.toInt_eq_toNat_cond, BitVec.toInt_eq_toNat_cond, hlo]
  by_cases h1 : 2 * v.toNat < 2 ^ 64 <;> by_cases h2 :
    2 * (v.toNat % 2 ^ 32) < 2 ^ 32 <;> simp only [h1, h2, if_true, if_false]
  · exact ⟨v.toNat / 2 ^ 32, by omega⟩
  · exact ⟨v.toNat / 2 ^ 32 + 1, by omega⟩
  · exact ⟨v.toNat / 2 ^ 32 - 2 ^ 32, by omega⟩
  · exact ⟨v.toNat / 2 ^ 32 - 2 ^ 32 + 1, by omega⟩

theorem toInt_sx (v : BitVec 32) : (sx v).toInt = v.toInt := BitVec.toInt_signExtend_of_le (by decide)

theorem sx_lo32 {v : BitVec 64} : sx (lo32 v) = v ↔ IsI32 v := by
  obtain ⟨q, hq, hlo⟩ := lo32_toInt v
  rw [← BitVec.toInt_inj, toInt_sx, IsI32]
  omega

/-- An operation whose low half depends on the low halves only. -/
theorem eq_sx_iff {v : BitVec 64} {w : BitVec 32} (h : lo32 v = w) : v = sx w ↔ IsI32 v := by
  rw [← h, eq_comm, sx_lo32]

theorem shiftCount (y : BitVec 64) : (lo32 y).toNat % 32 = y.toNat % 64 % 32 := by
  have hlo : (lo32 y).toNat = y.toNat % 2 ^ 32 := BitVec.toNat_setWidth ..
  omega

theorem high_count {y : BitVec 64} (h : ¬ y.toNat % 64 < 32) : ∃ j, y.toNat % 64 = 32 + j ∧ y.toNat % 64 % 32 = j :=
  ⟨y.toNat % 64 - 32, by omega⟩

theorem lo32_shl {x : BitVec 64} {k : Nat} : lo32 (x <<< k) = lo32 x <<< k := by
  apply BitVec.eq_of_toNat_eq
  simp only [lo32, BitVec.toNat_setWidth, BitVec.toNat_shiftLeft, Nat.shiftLeft_eq]
  rw [Nat.mod_mod_of_dvd _ (by decide : 2 ^ 32 ∣ 2 ^ 64), Nat.mod_mul_mod]

theorem shl_high {x : BitVec 64} {j : Nat} : x <<< (32 + j) = sx (lo32 x <<< j) ↔ lo32 x <<< j = 0 := by
  constructor
  · intro h
    have := congrArg lo32 h
    rw [lo32_sx] at this
    rw [← this, lo32_shl]
    exact BitVec.shiftLeft_eq_zero (by omega)
  · intro h
    rw [h]
    have h := congrArg BitVec.toNat h
    simp only [lo32, BitVec.toNat_setWidth, BitVec.toNat_shiftLeft, Nat.shiftLeft_eq, Nat.mod_mul_mod] at h
    apply BitVec.eq_of_toNat_eq
    rw [BitVec.toNat_shiftLeft, Nat.shiftLeft_eq, Nat.pow_add, Nat.mul_left_comm,
      show (2:Nat) ^ 64 = 2 ^ 32 * 2 ^ 32 from rfl, Nat.mul_mod_mul_left, h]
    rfl

theorem sshr_low {x : BitVec 64} {k : Nat} (hk : k < 32) :
    x.sshiftRight k = sx ((lo32 x).sshiftRight k) ↔ IsI32 x := by
  obtain ⟨q, hq, hlo⟩ := lo32_toInt x
  rw [← BitVec.toInt_inj, toInt_sx, BitVec.toInt_sshiftRight, BitVec.toInt_sshiftRight,
    Int.shiftRight_eq_div_pow, Int.shiftRight_eq_div_pow]
  have hpow : (2 : Int) ^ 32 = ((2 ^ k : Nat) : Int) * 2 ^ (32 - k) := by
    rw [Int.natCast_pow, show ((2 : Nat) : Int) = 2 from rfl, ← Int.pow_add, Nat.add_sub_cancel' (by omega)]
  have hdiv : x.toInt / ((2 ^ k : Nat) : Int) = (lo32 x).toInt / ((2 ^ k : Nat) : Int) + 2 ^ (32 - k) * q := by
    rw [hq, hpow, Int.mul_assoc, Int.add_mul_ediv_left _ _ (by have := Nat.two_pow_pos k; omega)]
  have hne : (2 : Int) ^ (32 - k) ≠ 0 := Int.pow_ne_zero (by decide)
  have hzero : x.toInt / ((2 ^ k : Nat) : Int) = (lo32 x).toInt / ((2 ^ k : Nat) : Int) ↔ q = 0 := by
    rw [hdiv]
    refine ⟨fun h => ?_, fun h => by rw [h]; omega⟩
    have : (2 : Int) ^ (32 - k) * q = 0 := by omega
    exact (Int.mul_eq_zero.mp this).resolve_left hne
  rw [hzero, IsI32]
  omega

theorem sshr_high {x : BitVec 64} {j : Nat} : x.sshiftRight (32 + j) = sx ((hi32 x).sshiftRight j) := by
  have hhi : (hi32 x).toInt = x.toInt / 2 ^ 32 := by
    have hx := x.isLt
    have hn : (hi32 x).toNat = x.toNat / 2 ^ 32 := by
      simp only [hi32, BitVec.toNat_setWidth, BitVec.toNat_ushiftRight, Nat.shiftRight_eq_div_pow]
      omega
    rw [BitVec.toInt_eq_toNat_cond, BitVec.toInt_eq_toNat_cond, hn]
    split <;> split <;> omega
  apply BitVec.eq_of_toInt_eq
  rw [toInt_sx, BitVec.toInt_sshiftRight, BitVec.toInt_sshiftRight, Int.shiftRight_eq_div_pow,
    Int.shiftRight_eq_div_pow, hhi,
    Int.ediv_ediv_of_nonneg (by decide)]
  congr 1
  rw [Nat.pow_add, Int.natCast_mul]
  rfl

theorem ushr_low {x : BitVec 64} {k : Nat} (hk : k < 32) : x >>> k = zx (lo32 x >>> k) ↔ x.toNat < 2 ^ 32 := by
  rw [← BitVec.toNat_inj]
  simp only [zx, lo32, BitVec.toNat_setWidth, BitVec.toNat_ushiftRight, Nat.shiftRight_eq_div_pow]
  have hlt : x.toNat % 2 ^ 32 / 2 ^ k < 2 ^ 64 := Nat.lt_of_le_of_lt (Nat.div_le_self _ _) (by omega)
  rw [Nat.mod_eq_of_lt hlt]
  constructor
  · intro h
    have hpow : 2 ^ 32 = 2 ^ k * 2 ^ (32 - k) := by rw [← Nat.pow_add, Nat.add_sub_cancel' (by omega)]
    have hsmall : x.toNat / 2 ^ k < 2 ^ (32 - k) := by
      rw [h]
      exact Nat.div_lt_of_lt_mul (by rw [← hpow]; omega)
    rw [hpow, Nat.mul_comm]
    exact Nat.lt_mul_of_div_lt hsmall (Nat.two_pow_pos k)
  · intro h
    rw [Nat.mod_eq_of_lt h]

theorem ushr_high {x : BitVec 64} {j : Nat} : x >>> (32 + j) = zx (hi32 x >>> j) := by
  have hx := x.isLt
  apply BitVec.eq_of_toNat_eq
  simp only [zx, hi32, BitVec.toNat_setWidth, BitVec.toNat_ushiftRight, Nat.shiftRight_eq_div_pow, Nat.pow_add,
    ← Nat.div_div_eq_div_mul]
  have h1 : x.toNat / 2 ^ 32 < 2 ^ 32 := by omega
  have h2 : x.toNat / 2 ^ 32 / 2 ^ j < 2 ^ 64 := Nat.lt_of_le_of_lt (Nat.div_le_self _ _) (by omega)
  rw [Nat.mod_eq_of_lt h1, Nat.mod_eq_of_lt h2]

theorem sx_inj {v w : BitVec 32} : sx v = sx w ↔ v = w :=
  ⟨fun h => by rw [← lo32_sx v, h, lo32_sx], fun h => by rw [h]⟩

theorem zx_inj {v w : BitVec 32} : zx v = zx w ↔ v = w := by
  have hlo : ∀ v : BitVec 32, lo32 (zx v) = v := fun v => by simp [lo32, zx]
  exact ⟨fun h => by rw [← hlo v, h, hlo], fun h => by rw [h]⟩

/-- The two meanings agree exactly where the operation fits. -/
theorem eval64_eq_eval32 (b : JitBin) (x y : BitVec 64) : b.eval64 x y = b.eval32 x y ↔ b.Fits x y := by
  have hcount := shiftCount y
  cases b with
  | add => exact eq_sx_iff (BitVec.setWidth_add _ _ (by decide))
  | sub =>
    refine eq_sx_iff (BitVec.eq_of_toNat_eq ?_)
    have hx := x.isLt
    have hy := y.isLt
    simp only [JitBin.eval64, lo32, BitVec.toNat_sub, BitVec.toNat_setWidth]
    omega
  | mul => exact eq_sx_iff (BitVec.setWidth_mul _ _ (by decide))
  | and => exact eq_sx_iff BitVec.setWidth_and
  | or => exact eq_sx_iff BitVec.setWidth_or
  | xor => exact eq_sx_iff BitVec.setWidth_xor
  | shl =>
    simp only [JitBin.eval64, JitBin.eval32, JitBin.Fits, hcount]
    split
    · rename_i hk
      rw [Nat.mod_eq_of_lt hk]
      exact eq_sx_iff lo32_shl
    · obtain ⟨j, hj, hmod⟩ := high_count ‹_›
      rw [hmod, hj, Nat.add_sub_cancel_left]
      exact shl_high
  | shrS =>
    simp only [JitBin.eval64, JitBin.eval32, JitBin.Fits, hcount]
    split
    · rename_i hk
      rw [Nat.mod_eq_of_lt hk]
      exact sshr_low hk
    · obtain ⟨j, hj, hmod⟩ := high_count ‹_›
      rw [hmod, hj, Nat.add_sub_cancel_left, sshr_high, sx_inj]
  | shrU =>
    simp only [JitBin.eval64, JitBin.eval32, JitBin.Fits, hcount]
    split
    · rename_i hk
      rw [Nat.mod_eq_of_lt hk]
      exact ushr_low hk
    · obtain ⟨j, hj, hmod⟩ := high_count ‹_›
      rw [hmod, hj, Nat.add_sub_cancel_left, ushr_high, zx_inj]

/-- The operation fits on the operands it finds. -/
def JitOp.FitsAt : JitOp → Config → Prop
  | .bin b, ⟨_, y :: x :: _⟩ => b.Fits x y
  | _, _ => True

/-- Every operation of a body fits when the interpreter gets to it. -/
def AllFit : List JitOp → Config → Prop
  | [], _ => True
  | op :: ops, c => op.FitsAt c ∧ ∀ c', op.eval JitBin.eval32 c = some c' → AllFit ops c'

theorem eval_agree {op : JitOp} {c : Config} (h : op.FitsAt c) :
    op.eval JitBin.eval64 c = op.eval JitBin.eval32 c := by
  obtain ⟨ls, st⟩ := c
  cases op with
  | bin b =>
    match st, h with
    | [], _ | [_], _ => rfl
    | y :: x :: st, h =>
      simp only [JitOp.eval]
      rw [(eval64_eq_eval32 b x y).mpr h]
  | _ => cases st <;> rfl

theorem evalOps_agree : ∀ {ops : List JitOp} {c : Config}, AllFit ops c →
    evalOps JitBin.eval64 ops c = evalOps JitBin.eval32 ops c
  | [], _, _ => rfl
  | op :: ops, c, ⟨h, hrest⟩ => by
    rw [evalOps, evalOps, eval_agree h]
    cases he : op.eval JitBin.eval32 c with
    | none => rfl
    | some c' => exact evalOps_agree (hrest c' he)

/-- The operations run if no operand is missing, whatever the `i32` operations mean. -/
theorem evalOps_some (f : JitBin → BitVec 64 → BitVec 64 → BitVec 64) {rc : Nat} :
    ∀ {ops : List JitOp} {c : Config},
    StackOk rc c.stack.length ops → ∃ c', evalOps f ops c = some c' ∧ rc ≤ c'.stack.length
  | [], c, h => ⟨c, rfl, h⟩
  | op :: ops, c, h => by
    obtain ⟨c₁, he⟩ := eval_some (f := f) h.1
    have h₂ := h.2
    rw [← (eval_length he).2] at h₂
    obtain ⟨c', he', hrc⟩ := evalOps_some f h₂
    exact ⟨c', by rw [evalOps, he]; exact he', hrc⟩

theorem evalOps_result {f : JitBin → BitVec 64 → BitVec 64 → BitVec 64} {rc : Nat} {ops : List JitOp}
    {c c' : Config}
    (h : StackOk rc c.stack.length ops) (he : evalOps f ops c = some c') : rc ≤ c'.stack.length := by
  obtain ⟨c₁, he₁, hrc⟩ := evalOps_some f h
  obtain rfl := Option.some.inj (he₁.symm.trans he)
  exact hrc

/-! ## Compiled code -/

def execAll (es : List Emitted) (m : Machine) : Machine := es.foldl (fun m e => exec e.instr m) m

theorem run_execAll {es : List Emitted} (hret : ∀ e ∈ es, e.instr ≠ .ret) {rest : List UInt8} {fuel : Nat} :
    ∀ {m : Machine},
    X86.run (es.length + fuel) (codeBytes es ++ rest) m = X86.run fuel rest (execAll es m) := by
  induction es with
  | nil => intro m; simp [codeBytes, execAll]
  | cons e es ih =>
    intro m
    have hlen : (e :: es).length + fuel = (es.length + fuel) + 1 := by simp only [List.length_cons]; omega
    rw [hlen, X86.run, codeBytes_cons, List.append_assoc, e.enc]
    simp only [if_neg (hret e List.mem_cons_self)]
    exact ih fun e' he' => hret e' (List.mem_cons_of_mem _ he')

/-- The operand stack on the machine stack, the top in the lowest slot. -/
def OnStack (base : BitVec 64) (mem : BitVec 64 → UInt8) : List (BitVec 64) → Prop
  | [] => True
  | v :: st => X86.read64 mem (slot base (st.length + 1)) = v ∧ OnStack base mem st

/-- The `n` slots under `sp` are none of the locals. -/
def RoomApart (n : Nat) (sp locals : BitVec 64) : Prop :=
  ∀ k < MAX_LOCALS, ∀ d, 1 ≤ d → d ≤ n →
    X86.Apart (locals + BitVec.ofNat 64 (8 * k)) (slot sp d) ∧
    X86.Apart (slot sp d) (locals + BitVec.ofNat 64 (8 * k))

/-- A stack that grows down from under the locals, as it does when they are a local array of the caller. -/
theorem roomApart_of_below {n : Nat} {sp locals : BitVec 64} (hsp : 8 * n ≤ sp.toNat)
    (hle : sp.toNat ≤ locals.toNat)
    (hl : locals.toNat + 8 * MAX_LOCALS ≤ 2 ^ 64) : RoomApart n sp locals := by
  unfold MAX_LOCALS at hl
  intro k hk d h1 hd
  unfold MAX_LOCALS at hk
  have hslot : (slot sp d).toNat = sp.toNat - 8 * d := by
    have := sp.isLt
    simp only [slot, BitVec.toNat_sub, BitVec.toNat_ofNat]
    omega
  have hvar : (locals + BitVec.ofNat 64 (8 * k)).toNat = locals.toNat + 8 * k := by
    simp only [BitVec.toNat_add, BitVec.toNat_ofNat]
    omega
  have hlt := (slot sp d).isLt
  refine ⟨fun j hj => ?_, fun j hj => ?_⟩
  · rw [BitVec.toNat_sub, hvar, BitVec.toNat_add, BitVec.toNat_ofNat, hslot]
    omega
  · rw [BitVec.toNat_sub, hslot, BitVec.toNat_add, hvar, BitVec.toNat_ofNat]
    omega

/-- A byte that is neither in the locals nor in the `n` slots under `sp`. -/
def Elsewhere (n : Nat) (sp locals a : BitVec 64) : Prop :=
  (∀ k < MAX_LOCALS, 8 ≤ (a - (locals + BitVec.ofNat 64 (8 * k))).toNat) ∧ ∀ d, 1 ≤ d → d ≤ n →
    8 ≤ (a - slot sp d).toNat

/-- The machine between two operations holds a configuration; outside of `n` slots for operands nothing else
has changed since `mem₀`. -/
structure Holds (n : Nat) (base locals : BitVec 64) (mem₀ : BitVec 64 → UInt8) (c : Config) (m : Machine) :
    Prop where
  between : Between base locals c.stack.length m
  stack : OnStack base m.mem c.stack
  vars : ∀ k < MAX_LOCALS, X86.read64 m.mem (locals + BitVec.ofNat 64 (8 * k)) = c.locals k
  frame : ∀ a, Elsewhere n base locals a → m.mem a = mem₀ a

theorem OnStack.congr {base : BitVec 64} {mem mem' : BitVec 64 → UInt8} : ∀ {st : List (BitVec 64)},
    (∀ d, 1 ≤ d → d ≤ st.length → X86.read64 mem' (slot base d) = X86.read64 mem (slot base d)) →
    OnStack base mem st → OnStack base mem' st
  | [], _, _ => trivial
  | _ :: st, h, ⟨hv, hst⟩ =>
    ⟨(h (st.length + 1) (Nat.succ_le_succ (Nat.zero_le _)) (Nat.le_refl _)).trans hv, hst.congr fun d h1 hd =>
      h d h1 (Nat.le_succ_of_le hd)⟩

theorem localOffset_signExtend :
    ∀ idx < MAX_LOCALS, (localOffset idx).signExtend 64 = BitVec.ofNat 64 (8 * idx) := by
  decide

theorem apart_locals {locals : BitVec 64} {i j : Nat} (hi : i < MAX_LOCALS) (hj : j < MAX_LOCALS) (hij : i ≠ j) :
    X86.Apart (locals + BitVec.ofNat 64 (8 * i)) (locals + BitVec.ofNat 64 (8 * j)) := by
  unfold MAX_LOCALS at hi hj
  intro k hk
  have := locals.isLt
  simp only [BitVec.toNat_sub, BitVec.toNat_add, BitVec.toNat_ofNat]
  omega

section
variable {n : Nat} {base locals : BitVec 64} {mem₀ : BitVec 64 → UInt8}
  {ls : Nat → BitVec 64} {st : List (BitVec 64)} {m : Machine}

theorem holds_set (h : Holds n base locals mem₀ ⟨ls, st⟩ m) {r : Reg} (v : BitVec 64) (hr : r = .rax ∨ r = .rcx) :
    Holds n base locals mem₀ ⟨ls, st⟩ (m.set r v) :=
  ⟨between_set h.between v hr, h.stack, h.vars, h.frame⟩

theorem holds_pop {v : BitVec 64} (h : Holds n base locals mem₀ ⟨ls, v :: st⟩ m) {r : Reg}
    (hr : r = .rax ∨ r = .rcx) :
    Holds n base locals mem₀ ⟨ls, st⟩ (exec (.pop r) m) ∧ (exec (.pop r) m).regs r = v := by
  refine ⟨⟨between_pop h.between hr (Nat.succ_le_succ (Nat.zero_le _)), h.stack.2, h.vars, h.frame⟩, ?_⟩
  have hval : X86.read64 m.mem (m.regs .rsp) = v := by rw [h.between.rsp]; exact h.stack.1
  exact (if_pos rfl).trans hval

variable (hroom : RoomApart n base locals) (hsmall : n < 2 ^ 58)
include hroom hsmall

theorem holds_push (h : Holds n base locals mem₀ ⟨ls, st⟩ m) (hd : st.length < n) {r : Reg} {v : BitVec 64}
    (hv : m.regs r = v) : Holds n base locals mem₀ ⟨ls, v :: st⟩ (exec (.push r) m) := by
  subst hv
  have haddr : m.regs .rsp - 8 = slot base (st.length + 1) := by rw [h.between.rsp, slot_push]
  have hmem : (exec (.push r) m).mem = X86.write64 m.mem (slot base (st.length + 1)) (m.regs r) := by
    rw [← haddr]; rfl
  refine ⟨between_push h.between r, ⟨?_, OnStack.congr (fun d h1 hle => ?_) h.stack⟩, fun k hk => ?_,
    fun a ha => ?_⟩
  · rw [hmem, X86.read64_write64_self]
  · rw [hmem]
    exact X86.read64_write64_apart (apart_slots (by omega) (by omega) (by omega))
  · rw [hmem, X86.read64_write64_apart (hroom k hk _ (by omega) hd).2]
    exact h.vars k hk
  · rw [hmem]
    exact (if_neg (Nat.not_lt.mpr (ha.2 _ (by omega) hd))).trans (h.frame a ha)

omit hsmall in
theorem holds_store (h : Holds n base locals mem₀ ⟨ls, st⟩ m) (hd : st.length ≤ n) {idx : Nat}
    (hidx : idx < MAX_LOCALS) {v : BitVec 64} (hv : m.regs .rax = v) :
    Holds n base locals mem₀ ⟨upd ls idx v, st⟩ (exec (storeLocal idx).instr m) := by
  subst hv
  have hmem : (exec (storeLocal idx).instr m).mem = X86.write64 m.mem (locals + BitVec.ofNat 64 (8 * idx))
      (m.regs .rax) := by
    rw [← localOffset_signExtend idx hidx, ← h.between.r13]; rfl
  refine ⟨between_store h.between idx, OnStack.congr (fun d h1 hle => ?_) h.stack, fun k hk => ?_, fun a ha => ?_⟩
  · rw [hmem]
    exact X86.read64_write64_apart (hroom idx hidx d h1 (Nat.le_trans hle hd)).1
  · rw [hmem]
    by_cases hki : k = idx
    · subst hki
      rw [X86.read64_write64_self]
      exact (upd_self ..).symm
    · rw [X86.read64_write64_apart (apart_locals hidx hk (Ne.symm hki)), h.vars k hk]
      exact (upd_of_ne _ _ hki).symm
  · rw [hmem]
    exact (if_neg (Nat.not_lt.mpr (ha.1 idx hidx))).trans (h.frame a ha)

omit hroom hsmall in
theorem load_local (h : Holds n base locals mem₀ ⟨ls, st⟩ m) {idx : Nat} (hidx : idx < MAX_LOCALS) :
    (exec (loadLocal idx).instr m).regs .rax = ls idx := by
  refine Eq.trans ?_ (h.vars idx hidx)
  rw [← localOffset_signExtend idx hidx, ← h.between.r13]
  rfl

/-- The code of an operation does what the operation does on whole slots. -/
theorem holds_op (op : JitOp) {c c' : Config} (h : Holds n base locals mem₀ c m)
    (he : op.eval JitBin.eval64 c = some c')
    (hd : c.stack.length ≤ n) (hd' : c'.stack.length ≤ n) (hidx : ∀ idx ∈ op.local?, idx < MAX_LOCALS) :
    Holds n base locals mem₀ c' (execAll op.code m) := by
  obtain ⟨ls, st⟩ := c
  cases op with
  | const v =>
    cases he
    exact holds_push hroom hsmall (holds_set h v (.inl rfl)) hd' rfl
  | localGet idx =>
    cases he
    have h1 : Holds n base locals mem₀ ⟨ls, st⟩ (exec (loadLocal idx).instr m) := holds_set h _ (.inl rfl)
    exact holds_push hroom hsmall h1 hd' (load_local h (hidx idx rfl))
  | localSet idx =>
    cases st with
    | nil => cases he
    | cons v st =>
      cases he
      obtain ⟨h1, hv⟩ := holds_pop h (.inl rfl)
      exact holds_store hroom h1 hd' (hidx idx rfl) hv
  | localTee idx =>
    cases st with
    | nil => cases he
    | cons v st =>
      cases he
      obtain ⟨h1, hv⟩ := holds_pop h (.inl rfl)
      have h2 := holds_push hroom hsmall h1 hd hv
      exact holds_store hroom h2 hd (hidx idx rfl) hv
  | bin b =>
    match st, he with
    | y :: x :: st, he =>
      cases he
      obtain ⟨h1, hy⟩ := holds_pop h (.inr rfl)
      obtain ⟨h2, hx⟩ := holds_pop h1 (.inl rfl)
      have hrcx : (exec (.pop .rax) (exec (.pop .rcx) m)).regs .rcx = y := hy
      have hbin : exec b.emitted.instr (exec (.pop .rax) (exec (.pop .rcx) m)) =
          (exec (.pop .rax) (exec (.pop .rcx) m)).set .rax (b.eval64 x y) := by
        rw [← hx, ← hrcx]
        cases b <;> rfl
      have hcode : execAll (JitOp.bin b).code m =
          exec (.push .rax) (exec b.emitted.instr (exec (.pop .rax) (exec (.pop .rcx) m))) := rfl
      rw [hcode, hbin]
      exact holds_push hroom hsmall (holds_set h2 (b.eval64 x y) (.inl rfl)) hd' rfl
  | drop =>
    cases st with
    | nil => cases he
    | cons v st =>
      cases he
      exact ⟨between_up h.between (Nat.succ_le_succ (Nat.zero_le _)), h.stack.2, h.vars, h.frame⟩
  | nop => cases he; exact h

/-- The code of a whole body, between entry and return. -/
theorem holds_ops : ∀ {ops : List JitOp} {c c' : Config} {m : Machine}, Holds n base locals mem₀ c m →
    evalOps JitBin.eval64 ops c = some c' → StackFits n c.stack.length ops →
    (∀ op ∈ ops, ∀ idx ∈ op.local?, idx < MAX_LOCALS) →
    Holds n base locals mem₀ c' (execAll (ops.flatMap JitOp.code) m)
  | [], c, c', m, h, he, _, _ => by cases he; exact h
  | op :: ops, c, c', m, h, he, hd, hidx => by
    obtain ⟨c₁, he₁, he⟩ := Option.bind_eq_some_iff.mp he
    have hlen := (eval_length he₁).2
    have hd₁ : StackFits n c₁.stack.length ops := by rw [hlen]; exact hd.2
    have h₁ := holds_op hroom hsmall op h he₁ hd.1 hd₁.le (hidx op List.mem_cons_self)
    have h₂ := holds_ops h₁ he hd₁ fun op' hop' => hidx op' (List.mem_cons_of_mem _ hop')
    rw [List.flatMap_cons, execAll, List.foldl_append]
    exact h₂

end

/-! ## Whole functions -/

/-- The machine at the call of a compiled function: the arguments and zeros are in the locals buffer, which
lies away from the stack that the function uses. -/
structure Entry (args : Nat → BitVec 64) (m : Machine) : Prop where
  vars : ∀ k < MAX_LOCALS, X86.read64 m.mem (m.regs .rdx + BitVec.ofNat 64 (8 * k)) = args k
  room : RoomApart (7 + STACK_DEPTH) (m.regs .rsp) (m.regs .rdx)

/-- The same, with room for `n` operands. -/
structure Called (n : Nat) (args : Nat → BitVec 64) (m : Machine) : Prop where
  vars : ∀ k < MAX_LOCALS, X86.read64 m.mem (m.regs .rdx + BitVec.ofNat 64 (8 * k)) = args k
  room : RoomApart (7 + n) (m.regs .rsp) (m.regs .rdx)
  small : n < 2 ^ 58

theorem slot_slot (sp : BitVec 64) (i d : Nat) : slot (slot sp i) d = slot sp (i + d) := by
  apply BitVec.eq_of_toNat_eq
  have := sp.isLt
  simp only [slot, BitVec.toNat_sub, BitVec.toNat_ofNat]
  omega

section
variable {n : Nat} {m : Machine} {args : Nat → BitVec 64}

theorem Entry.called (h : Entry args m) : Called STACK_DEPTH args m := ⟨h.vars, h.room, by decide⟩

theorem Called.inner (h : Called n args m) : RoomApart n (slot (m.regs .rsp) 7) (m.regs .rdx) := by
  intro k hk d h1 hd
  rw [slot_slot]
  exact h.room k hk (7 + d) (by omega) (by omega)

/-- The entry sequence leaves the locals and everything outside its slots alone. -/
theorem Called.holds (h : Called n args m) :
    Holds n (slot (m.regs .rsp) 7) (m.regs .rdx) (entered m).mem ⟨args, []⟩ (entered m) := by
  refine ⟨entered_between m, trivial, fun k hk => ?_, fun _ _ => rfl⟩
  have hap : ∀ {d}, 1 ≤ d → d ≤ 6 → ∀ mem v, X86.read64 (X86.write64 mem (slot (m.regs .rsp) d) v)
      (m.regs .rdx + BitVec.ofNat 64 (8 * k)) = X86.read64 mem (m.regs .rdx + BitVec.ofNat 64 (8 * k)) :=
        fun h1 h6 mem v =>
    X86.read64_write64_apart (h.room k hk _ h1 (by omega)).2
  rw [entered_mem, hap, hap, hap, hap, hap, hap]
  · exact h.vars k hk
  all_goals decide

theorem entered_frame {a : BitVec 64} {n : Nat} (hn : 6 ≤ n)
    (ha : Elsewhere n (m.regs .rsp) (m.regs .rdx) a) : (entered m).mem a = m.mem a := by
  have hw : ∀ {d}, 1 ≤ d → d ≤ 6 → ∀ mem v, X86.write64 mem (slot (m.regs .rsp) d) v a = mem a := fun h1 h6 mem v =>
    if_neg (Nat.not_lt.mpr (ha.2 _ h1 (Nat.le_trans h6 hn)))
  rw [entered_mem, hw, hw, hw, hw, hw, hw] <;> decide

/-- The return sequence: the top of the stack to RAX, and no memory written. -/
theorem exit_rax {base locals v : BitVec 64} {mem₀ : BitVec 64 → UInt8} {ls : Nat → BitVec 64}
    {st : List (BitVec 64)}
    (h : Holds n base locals mem₀ ⟨ls, v :: st⟩ m) : (execAll (exitCode 1) m).regs .rax = v :=
  (holds_pop h (.inl rfl)).2

theorem exit_mem {rc : Nat} : (execAll (exitCode rc) m).mem = m.mem := by
  unfold exitCode
  split <;> rfl

/-- A compiled body whose code fits the buffer computes what the stack machine computes on whole slots, and
leaves its locals in the locals buffer. -/
theorem jit_called {body code : List UInt8} {ops : List JitOp} {lc rc cap : Nat} {c : Config}
    (h : jitCompileBody body lc rc cap = some code) (hops : jitOps body = some ops)
    (hcap : (codeBytes (opsCode ops rc) ++ emitRet).length ≤ cap) (hcalled : Called n args m)
    (heval : evalOps JitBin.eval64 ops ⟨args, []⟩ = some c) (hd : StackFits n 0 ops)
    (hidx : ∀ op ∈ ops, ∀ idx ∈ op.local?, idx < MAX_LOCALS) : ∃ fuel m', X86.run fuel code m = some m' ∧
      (∀ v st, rc = 1 → c.stack = v :: st → m'.regs .rax = v) ∧
      (∀ k < MAX_LOCALS, X86.read64 m'.mem (m.regs .rdx + BitVec.ofNat 64 (8 * k)) = c.locals k) ∧
      ∀ a, Elsewhere (7 + n) (m.regs .rsp) (m.regs .rdx) a → m'.mem a = m.mem a := by
  rw [jitCompileBody_eq, hops] at h
  split at h
  · cases h
  simp only [Option.map_some, List.take_of_length_le hcap, Option.some.injEq] at h
  subst h
  have hholds := holds_ops hcalled.inner hcalled.small hcalled.holds heval hd hidx
  have hall : execAll (opsCode ops rc) m =
      execAll (exitCode rc) (execAll (ops.flatMap JitOp.code) (entered m)) := by
    rw [opsCode, execAll, List.foldl_append, List.foldl_append]
    rfl
  have hmem : (exec .ret (execAll (opsCode ops rc) m)).mem =
      (execAll (ops.flatMap JitOp.code) (entered m)).mem := by
    show (execAll (opsCode ops rc) m).mem = _
    rw [hall, exit_mem]
  refine ⟨(opsCode ops rc).length + 1, exec .ret (execAll (opsCode ops rc) m), ?_, ?_, fun k hk => ?_,
    fun a ha => ?_⟩
  · rw [run_execAll opsCode_no_ret]
    rfl
  · rintro v st rfl hc
    obtain ⟨ls, st'⟩ := c
    obtain rfl : st' = v :: st := hc
    have hret : ∀ m : Machine, (exec .ret m).regs .rax = m.regs .rax := fun _ => rfl
    rw [hall, hret]
    exact exit_rax hholds
  · rw [hmem]
    exact hholds.vars k hk
  · have hin : Elsewhere n (slot (m.regs .rsp) 7) (m.regs .rdx) a :=
      ⟨ha.1, fun d h1 hd => by rw [slot_slot]; exact ha.2 (7 + d) (by omega) (by omega)⟩
    rw [hmem, hholds.frame a hin]
    exact entered_frame (by omega) ha

end

end WasmOs
