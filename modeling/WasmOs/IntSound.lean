import WasmOs.InterpSpec
import WasmOs.Numerics

/-!
# Integer instructions of the interpreter

The arms of the integer opcodes against the numerics of WebAssembly. They trap and compute as specified,
except for `i32.div_s`: it divides the least number by minus one, where `i64.div_s` traps.
-/

namespace WasmOs

open Hoare Numerics

def intInstr (op : UInt8) : Option Instr :=
  match op.toNat with
  | 0x45 => some (.eqz .w32)
  | 0x46 => some (.rel .w32 .eq)
  | 0x47 => some (.rel .w32 .ne)
  | 0x48 => some (.rel .w32 (.lt .s))
  | 0x49 => some (.rel .w32 (.lt .u))
  | 0x4A => some (.rel .w32 (.gt .s))
  | 0x4B => some (.rel .w32 (.gt .u))
  | 0x4C => some (.rel .w32 (.le .s))
  | 0x4D => some (.rel .w32 (.le .u))
  | 0x4E => some (.rel .w32 (.ge .s))
  | 0x4F => some (.rel .w32 (.ge .u))
  | 0x50 => some (.eqz .w64)
  | 0x51 => some (.rel .w64 .eq)
  | 0x52 => some (.rel .w64 .ne)
  | 0x53 => some (.rel .w64 (.lt .s))
  | 0x54 => some (.rel .w64 (.lt .u))
  | 0x55 => some (.rel .w64 (.gt .s))
  | 0x56 => some (.rel .w64 (.gt .u))
  | 0x57 => some (.rel .w64 (.le .s))
  | 0x58 => some (.rel .w64 (.le .u))
  | 0x59 => some (.rel .w64 (.ge .s))
  | 0x5A => some (.rel .w64 (.ge .u))
  | 0x67 => some (.un .w32 .clz)
  | 0x68 => some (.un .w32 .ctz)
  | 0x69 => some (.un .w32 .popcnt)
  | 0x6A => some (.bin .w32 .add)
  | 0x6B => some (.bin .w32 .sub)
  | 0x6C => some (.bin .w32 .mul)
  | 0x6D => some (.bin .w32 (.div .s))
  | 0x6E => some (.bin .w32 (.div .u))
  | 0x6F => some (.bin .w32 (.rem .s))
  | 0x70 => some (.bin .w32 (.rem .u))
  | 0x71 => some (.bin .w32 .and)
  | 0x72 => some (.bin .w32 .or)
  | 0x73 => some (.bin .w32 .xor)
  | 0x74 => some (.bin .w32 .shl)
  | 0x75 => some (.bin .w32 (.shr .s))
  | 0x76 => some (.bin .w32 (.shr .u))
  | 0x77 => some (.bin .w32 .rotl)
  | 0x78 => some (.bin .w32 .rotr)
  | 0x79 => some (.un .w64 .clz)
  | 0x7A => some (.un .w64 .ctz)
  | 0x7B => some (.un .w64 .popcnt)
  | 0x7C => some (.bin .w64 .add)
  | 0x7D => some (.bin .w64 .sub)
  | 0x7E => some (.bin .w64 .mul)
  | 0x7F => some (.bin .w64 (.div .s))
  | 0x80 => some (.bin .w64 (.div .u))
  | 0x81 => some (.bin .w64 (.rem .s))
  | 0x82 => some (.bin .w64 (.rem .u))
  | 0x83 => some (.bin .w64 .and)
  | 0x84 => some (.bin .w64 .or)
  | 0x85 => some (.bin .w64 .xor)
  | 0x86 => some (.bin .w64 .shl)
  | 0x87 => some (.bin .w64 (.shr .s))
  | 0x88 => some (.bin .w64 (.shr .u))
  | 0x89 => some (.bin .w64 .rotl)
  | 0x8A => some (.bin .w64 .rotr)
  | 0xA7 => some .wrap
  | 0xAC => some (.extend .s)
  | 0xAD => some (.extend .u)
  | 0xC0 => some (.un .w32 (.extendS 8))
  | 0xC1 => some (.un .w32 (.extendS 16))
  | 0xC2 => some (.un .w64 (.extendS 8))
  | 0xC3 => some (.un .w64 (.extendS 16))
  | 0xC4 => some (.un .w64 (.extendS 32))
  | _ => none

/-! ## The arms by instruction -/

/-- How the result of an `i32` instruction fills its slot: unsigned results are zero-extended. -/
def UnOp.ext : UnOp → BitVec 32 → BitVec 64
  | .extendS _ => sx
  | _ => zx

def BinOp.ext : BinOp → BitVec 32 → BitVec 64
  | .div .u | .rem .u | .shr .u => zx
  | _ => sx

def intArm : Instr → NumOp
  | .eqz .w32 => un32 fun a => flag (a == 0)
  | .eqz .w64 => un64 fun a => flag (a == 0)
  | .rel .w32 op => bin32 fun a b => flag (op.bool a b)
  | .rel .w64 op => bin64 fun a b => flag (op.bool a b)
  | .un .w32 op => un32 fun a => UnOp.ext op (op.bits a)
  | .un .w64 op => un64 fun a => op.bits a
  | .bin .w32 (.div sx) => div32 fun a b => BinOp.ext (.div sx) (BinOp.bits a b (.div sx))
  | .bin .w32 (.rem sx) => div32 fun a b => BinOp.ext (.rem sx) (BinOp.bits a b (.rem sx))
  | .bin .w32 op => bin32 fun a b => BinOp.ext op (op.bits a b)
  | .bin .w64 (.div .s) => divS64
  | .bin .w64 (.div .u) => div64 fun a b => BinOp.bits a b (.div .u)
  | .bin .w64 (.rem sx) => div64 fun a b => BinOp.bits a b (.rem sx)
  | .bin .w64 op => bin64 fun a b => op.bits a b
  | .wrap => un32 sx
  | .extend .s => un32 sx
  | .extend .u => un32 zx

theorem decodeOp_int {F : FloatOps} {op : UInt8} {d : Instr} (h : intInstr op = some d) :
    decodeOp F op = .num (intArm d) := by
  obtain ⟨n, hn⟩ : ∃ n, op.toNat = n := ⟨_, rfl⟩
  obtain rfl : op = UInt8.ofNat n := by rw [← hn, UInt8.ofNat_toNat]
  unfold intInstr at h
  rw [hn] at h
  split at h <;> cases h <;> rfl

def Sized : Instr → Prop
  | .un w (.extendS M) => 0 < M ∧ M ≤ w.bits
  | _ => True

theorem intInstr_sized {op : UInt8} {d : Instr} (h : intInstr op = some d) : Sized d := by
  unfold intInstr at h
  split at h <;> cases h <;> first | exact trivial | exact ⟨by decide, by decide⟩

/-! ## Results -/

def NumOp.apply (a b : BitVec 64) : NumOp → Except NumTrap (BitVec 64)
  | .un f => f a
  | .bin f => f a b

theorem intArm_operands (d : Instr) : (intArm d).arity = (d.operands, 1) := by
  cases d with
  | eqz w => cases w <;> rfl
  | rel w op => cases w <;> rfl
  | un w op => cases w <;> rfl
  | bin w op =>
    cases w with
    | w32 => cases op <;> rfl
    | w64 => cases op with
      | div sx => cases sx <;> rfl
      | _ => rfl
  | wrap => rfl
  | extend sx => cases sx <;> rfl

/-- The outcome is a trap where the instruction is undefined and else its result in the low bits of the slot. -/
def Meets (d : Instr) (a b : BitVec 64) (r : Except NumTrap (BitVec 64)) : Prop :=
  match d.eval (a.toNat % 2 ^ d.width.bits) (b.toNat % 2 ^ d.width.bits) with
  | none => ∃ t, r = .error t
  | some n => ∃ v, r = .ok v ∧ v.toNat % 2 ^ d.resultWidth.bits = n

theorem meets_some {d : Instr} {a b v : BitVec 64} {n : Nat}
    (h : d.eval (a.toNat % 2 ^ d.width.bits) (b.toNat % 2 ^ d.width.bits) = some n)
    (hv : v.toNat % 2 ^ d.resultWidth.bits = n) :
    Meets d a b (.ok v) := by
  unfold Meets
  rw [h]
  exact ⟨v, rfl, hv⟩

theorem meets_none {d : Instr} {a b : BitVec 64} {t : NumTrap}
    (h : d.eval (a.toNat % 2 ^ d.width.bits) (b.toNat % 2 ^ d.width.bits) = none) : Meets d a b (.error t) := by
  unfold Meets
  rw [h]
  exact ⟨t, rfl⟩

theorem Meets.trap {d : Instr} {a b : BitVec 64} {r : Except NumTrap (BitVec 64)} (hm : Meets d a b r)
    (h : d.eval (a.toNat % 2 ^ d.width.bits) (b.toNat % 2 ^ d.width.bits) = none) : ∃ t, r = .error t := by
  unfold Meets at hm
  rw [h] at hm
  exact hm

theorem toNat_lo32 (a : BitVec 64) : (lo32 a).toNat = a.toNat % 2 ^ 32 := BitVec.toNat_setWidth ..

theorem lo32_ext (op : BinOp) (v : BitVec 32) : lo32 (BinOp.ext op v) = v := by
  unfold BinOp.ext
  split
  · exact lo32_zx v
  · exact lo32_zx v
  · exact lo32_zx v
  · exact lo32_sx v

theorem lo32_unExt (op : UnOp) (v : BitVec 32) : lo32 (UnOp.ext op v) = v := by
  unfold UnOp.ext
  split
  · exact lo32_sx v
  · exact lo32_zx v

theorem toNat_of_lo32 {v : BitVec 64} {x : BitVec 32} (h : lo32 v = x) : v.toNat % 2 ^ 32 = x.toNat := by
  rw [← toNat_lo32, h]

theorem toNat_flag (p : Bool) : (flag p).toNat % 2 ^ 32 = if p then 1 else 0 := by cases p <;> rfl

theorem beq_zero {N : Nat} (x : BitVec N) : (x == 0) = decide (x.toNat = 0) := by
  rw [beq_eq_decide]
  exact decide_eq_decide.mpr (eq_zero_iff x)

/-! ## Every instruction but `i32.div_s` -/

section
variable (a b : BitVec 64)

theorem meets_eqz (w : Width) : Meets (.eqz w) a b ((intArm (.eqz w)).apply a b) := by
  cases w with
  | w32 =>
    refine meets_some ?_ (toNat_flag (lo32 a == 0))
    rw [beq_zero, toNat_lo32]
    simp only [decide_eq_true_eq]
    rfl
  | w64 =>
    refine meets_some ?_ (toNat_flag (a == 0))
    rw [beq_zero]
    simp only [decide_eq_true_eq]
    exact congrArg (fun n => some (if n = 0 then 1 else 0)) (BitVec.toNat_mod_cancel a)

theorem meets_rel (w : Width) (op : RelOp) : Meets (.rel w op) a b ((intArm (.rel w op)).apply a b) := by
  cases w with
  | w32 =>
    refine meets_some ?_ (toNat_flag (op.bool (lo32 a) (lo32 b)))
    rw [← RelOp.eval_eq _ _ (by decide), toNat_lo32, toNat_lo32]
    rfl
  | w64 =>
    refine meets_some ?_ (toNat_flag (op.bool a b))
    rw [← RelOp.eval_eq _ _ (by decide)]
    show some (if op.eval 64 (a.toNat % 2 ^ 64) (b.toNat % 2 ^ 64) then 1 else 0) = _
    rw [BitVec.toNat_mod_cancel, BitVec.toNat_mod_cancel]

theorem meets_un (w : Width) (op : UnOp) (h : Sized (.un w op)) :
    Meets (.un w op) a b ((intArm (.un w op)).apply a b) := by
  have hsize : ∀ M, op = .extendS M → 0 < M ∧ M ≤ w.bits := fun M hM => by subst hM; exact h
  cases w with
  | w32 =>
    refine meets_some ?_ (toNat_of_lo32 (lo32_unExt op (op.bits (lo32 a))))
    rw [← UnOp.eval_eq (lo32 a) (by decide) hsize, toNat_lo32]
    rfl
  | w64 =>
    refine meets_some ?_ (BitVec.toNat_mod_cancel (op.bits a))
    rw [← UnOp.eval_eq a (by decide) hsize]
    exact congrArg (fun n => some (op.eval 64 n)) (BitVec.toNat_mod_cancel a)

theorem meets_wrap : Meets .wrap a b ((intArm .wrap).apply a b) := by
  refine meets_some ?_ (toNat_of_lo32 (lo32_sx (lo32 a)))
  rw [toNat_lo32]
  exact congrArg (fun n => some (n % 2 ^ 32)) (BitVec.toNat_mod_cancel a)

theorem meets_extend (sx : Sx) : Meets (.extend sx) a b ((intArm (.extend sx)).apply a b) := by
  cases sx with
  | u =>
    refine meets_some ?_ (BitVec.toNat_mod_cancel _)
    rw [zx, BitVec.toNat_setWidth_of_le (by decide), toNat_lo32]
    rfl
  | s =>
    refine meets_some ?_ (BitVec.toNat_mod_cancel _)
    rw [WasmOs.sx, toNat_eq_unsigned (BitVec.signExtend _ _), BitVec.toInt_signExtend_of_le (by decide),
      toInt_eq_signed _ (by decide), toNat_lo32]
    rfl

/-- The operands on which `i32.div_s` does not trap though its quotient overflows. -/
def DivOverflows (d : Instr) (a b : BitVec 64) : Prop :=
  d = .bin .w32 (.div .s) ∧ lo32 a = BitVec.intMin 32 ∧ lo32 b = -1

/-- A binary instruction of the interpreter that makes the specified checks. -/
theorem meets_bin32 {op : BinOp} (h : ¬ op.Traps (lo32 a) (lo32 b)) :
    Meets (.bin .w32 op) a b (.ok (BinOp.ext op (op.bits (lo32 a) (lo32 b)))) := by
  refine meets_some ?_ (toNat_of_lo32 (lo32_ext op _))
  rw [← BinOp.eval_eq _ _ (by decide) h, toNat_lo32, toNat_lo32]
  rfl

theorem meets_bin64 {op : BinOp} (h : ¬ op.Traps a b) : Meets (.bin .w64 op) a b (.ok (op.bits a b)) := by
  refine meets_some ?_ (BitVec.toNat_mod_cancel _)
  rw [← BinOp.eval_eq _ _ (by decide) h]
  show op.eval 64 (a.toNat % 2 ^ 64) (b.toNat % 2 ^ 64) = _
  rw [BitVec.toNat_mod_cancel, BitVec.toNat_mod_cancel]

theorem meets_trap32 {op : BinOp} {t : NumTrap} (h : op.Traps (lo32 a) (lo32 b)) :
    Meets (.bin .w32 op) a b (.error t) := by
  refine meets_none ?_
  rw [← BinOp.eval_trap _ _ (by decide) h, toNat_lo32, toNat_lo32]
  rfl

theorem meets_trap64 {op : BinOp} {t : NumTrap} (h : op.Traps a b) : Meets (.bin .w64 op) a b (.error t) := by
  refine meets_none ?_
  rw [← BinOp.eval_trap _ _ (by decide) h]
  show op.eval 64 (a.toNat % 2 ^ 64) (b.toNat % 2 ^ 64) = _
  rw [BitVec.toNat_mod_cancel, BitVec.toNat_mod_cancel]

theorem meets_div32 {op : BinOp} (h : op.Traps (lo32 a) (lo32 b) ↔ lo32 b = 0) :
    Meets (.bin .w32 op) a b ((div32 fun a b => BinOp.ext op (op.bits a b)).apply a b) := by
  show Meets _ a b (if lo32 b = 0 then .error .divisionByZero else .ok _)
  by_cases h0 : lo32 b = 0
  · rw [if_pos h0]
    exact meets_trap32 a b (h.mpr h0)
  · rw [if_neg h0]
    exact meets_bin32 a b (mt h.mp h0)

theorem meets_div64 {op : BinOp} (h : op.Traps a b ↔ b = 0) :
    Meets (.bin .w64 op) a b ((div64 fun a b => op.bits a b).apply a b) := by
  show Meets _ a b (if b = 0 then .error .divisionByZero else .ok _)
  by_cases h0 : b = 0
  · rw [if_pos h0]
    exact meets_trap64 a b (h.mpr h0)
  · rw [if_neg h0]
    exact meets_bin64 a b (mt h.mp h0)

theorem meets_divS64 : Meets (.bin .w64 (.div .s)) a b (divS64.apply a b) := by
  show Meets _ a b (if b = 0 then .error .divisionByZero
    else if a = BitVec.intMin 64 ∧ b = -1 then .error .divisionByZero else .ok (a.sdiv b))
  by_cases h0 : b = 0
  · rw [if_pos h0]
    exact meets_trap64 a b (.inl h0)
  rw [if_neg h0]
  by_cases hover : a = BitVec.intMin 64 ∧ b = -1
  · rw [if_pos hover]
    exact meets_trap64 a b (.inr hover)
  · rw [if_neg hover]
    exact meets_bin64 a b (not_or.mpr ⟨h0, hover⟩)

/-- `i32.div_s` misses the second check of `i64.div_s`. -/
theorem meets_divS32_iff : Meets (.bin .w32 (.div .s)) a b ((intArm (.bin .w32 (.div .s))).apply a b) ↔
    ¬ (lo32 a = BitVec.intMin 32 ∧ lo32 b = -1) := by
  constructor
  · rintro hm ⟨ha, hb⟩
    have htrap : BinOp.Traps (lo32 a) (lo32 b) (.div .s) := .inr ⟨ha, hb⟩
    have hnone := BinOp.eval_trap _ _ (by decide) htrap
    rw [toNat_lo32, toNat_lo32] at hnone
    obtain ⟨t, ht⟩ := hm.trap hnone
    have harm : (intArm (.bin .w32 (.div .s))).apply a b = .ok (sx ((lo32 a).sdiv (lo32 b))) :=
      if_neg (by rw [hb]; decide)
    rw [harm] at ht
    cases ht
  · intro hover
    exact meets_div32 a b ⟨fun h => h.resolve_right hover, .inl⟩

theorem meets_iff {d : Instr} (h : Sized d) : Meets d a b ((intArm d).apply a b) ↔ ¬ DivOverflows d a b := by
  by_cases hd : d = .bin .w32 (.div .s)
  · subst hd
    rw [meets_divS32_iff]
    simp [DivOverflows]
  refine iff_of_true ?_ fun hover => hd hover.1
  cases d with
  | eqz w => exact meets_eqz a b w
  | rel w op => exact meets_rel a b w op
  | un w op => exact meets_un a b w op h
  | wrap => exact meets_wrap a b
  | extend sx => exact meets_extend a b sx
  | bin w op =>
    cases w with
    | w32 =>
      cases op with
      | div sx =>
        cases sx with
        | s => exact absurd rfl hd
        | u => exact meets_div32 a b Iff.rfl
      | rem sx => exact meets_div32 a b Iff.rfl
      | _ => exact meets_bin32 a b id
    | w64 =>
      cases op with
      | div sx =>
        cases sx with
        | s => exact meets_divS64 a b
        | u => exact meets_div64 a b Iff.rfl
      | rem sx => exact meets_div64 a b Iff.rfl
      | _ => exact meets_bin64 a b id

end

/-! ## A round on an integer instruction -/

section
variable {ω : Type} {code : Code (HostFn ω)} {F : FloatOps} {s : State ω} {fr : Frame} {rest : List Frame}
  {body : List UInt8}
  {op : UInt8} {d : Instr}

def operand (s : State ω) (d : Instr) : BitVec 64 := s.vstack (s.vsp - d.operands)

def lastOperand (s : State ω) : BitVec 64 := s.vstack (s.vsp - 1)

/-- The state after an instruction that replaced its operands by `v`. -/
def State.replaced (s : State ω) (fr : Frame) (rest : List Frame) (n : Nat) (v : BitVec 64) : State ω :=
  { s with
    vstack := upd s.vstack (s.vsp - n) v
    vsp := s.vsp - n + 1
    frames := { fr with pc := fr.pc + 1 } :: rest }

/-- The round traps where the specification says so and else replaces the operands by the specified result. -/
def Executes (code : Code (HostFn ω)) (F : FloatOps) (s : State ω) (fr : Frame) (rest : List Frame)
    (d : Instr) : Prop :=
  match d.eval ((operand s d).toNat % 2 ^ d.width.bits) ((lastOperand s).toNat % 2 ^ d.width.bits) with
  | none => ∃ err s', step code F s = .error (.err err) s' ∧ err.IsTrap
  | some n => ∃ v, v.toNat % 2 ^ d.resultWidth.bits = n ∧ step code F s = .ok () (s.replaced fr rest d.operands v)

theorem execNum_run (hdepth : s.vsp ≤ STACK_DEPTH) (hops : d.operands ≤ s.vsp) :
    execNum (intArm d) s = pushResult ((intArm d).apply (operand s d) (lastOperand s))
    { s with vsp := s.vsp - d.operands } := by
  have harity := congrArg Prod.fst (intArm_operands d)
  unfold operand lastOperand
  cases hop : intArm d with
  | un f =>
    rw [hop] at harity
    rw [← show 1 = d.operands from harity] at hops ⊢
    exact Hoare.bind_ok (vPop_run (by omega) hdepth)
  | bin f =>
    rw [hop] at harity
    rw [← show 2 = d.operands from harity] at hops ⊢
    have hpop : vPop { s with vsp := s.vsp - 1 } = .ok (s.vstack (s.vsp - 2)) { s with vsp := s.vsp - 2 } :=
      vPop_run (s := { s with vsp := s.vsp - 1 }) (show s.vsp - 1 = s.vsp - 2 + 1 by omega)
        (show s.vsp - 1 ≤ _ by omega)
    exact (Hoare.bind_ok (vPop_run (show s.vsp = s.vsp - 1 + 1 by omega) hdepth)).trans (Hoare.bind_ok hpop)

theorem intInstr_divS32 (hd : intInstr op = some d) : d = .bin .w32 (.div .s) ↔ op = 0x6D := by
  obtain ⟨n, hn⟩ : ∃ n, op.toNat = n := ⟨_, rfl⟩
  obtain rfl : op = UInt8.ofNat n := by rw [← hn, UInt8.ofNat_toNat]
  unfold intInstr at hd
  rw [hn] at hd
  split at hd <;> cases hd <;> decide

section
variable (hy : s.yieldRequested = false) (hfr : s.frames = fr :: rest)
  (hbody : code.bodies[fr.bodyIdx]? = some body)
  (hidx : fr.bodyIdx < MAX_FUNCS) (hop : body[fr.pc]? = some op) (hd : intInstr op = some d)
    (hdepth : s.vsp ≤ STACK_DEPTH)
  (hops : d.operands ≤ s.vsp)
include hy hfr hbody hidx hop hd hdepth hops

theorem step_int_ok {v : BitVec 64} (hr : (intArm d).apply (operand s d) (lastOperand s) = .ok v) :
    step code F s = .ok () (s.replaced fr rest d.operands v) := by
  have hpos : 0 < d.operands := by cases d <;> exact Nat.succ_pos _
  have hpush : vPush v { s with vsp := s.vsp - d.operands } =
      .ok () { s with vstack := upd s.vstack (s.vsp - d.operands) v, vsp := s.vsp - d.operands + 1 } :=
    Hoare.eq_of_wp (wp_vPush.mpr ⟨fun hfull => by simp only at hfull; omega, fun _ => rfl⟩)
  have hnum : execNum (intArm d) s =
      .ok () { s with vstack := upd s.vstack (s.vsp - d.operands) v, vsp := s.vsp - d.operands + 1 } := by
    rw [execNum_run hdepth hops, hr]
    exact hpush
  have hdisp : dispatch code F fr body (fr.pc + 1) (.num (intArm d)) s = .ok (.seq (fr.pc + 1)) _ :=
    Hoare.bind_ok hnum
  rw [step_dispatch hy hfr hbody hidx hop, decodeOp_int hd, Hoare.bind_ok hdisp]
  exact setPc_run hfr

theorem step_int_trap {t : NumTrap} (hr : (intArm d).apply (operand s d) (lastOperand s) = .error t) :
    step code F s = .error (.err t.error) { s with vsp := s.vsp - d.operands } := by
  have hnum : execNum (intArm d) s = .error (.err t.error) { s with vsp := s.vsp - d.operands } := by
    rw [execNum_run hdepth hops, hr]
    rfl
  rw [step_dispatch hy hfr hbody hidx hop, decodeOp_int hd]
  exact Hoare.bind_error (Hoare.bind_error hnum)

theorem executes_iff : Executes code F s fr rest d ↔
    Meets d (operand s d) (lastOperand s) ((intArm d).apply (operand s d) (lastOperand s)) := by
  unfold Executes Meets
  cases hr : (intArm d).apply (operand s d) (lastOperand s) with
  | ok v =>
    rw [step_int_ok hy hfr hbody hidx hop hd hdepth hops hr]
    split
    · simp
    · constructor
      · rintro ⟨v', hv', hstep⟩
        have hstack := congrArg (fun r => (Hoare.after r).vstack (s.vsp - d.operands)) hstep
        simp only [Hoare.after, State.replaced, upd_self] at hstack
        exact ⟨v, rfl, hstack ▸ hv'⟩
      · rintro ⟨v', hv', hn⟩
        cases hv'
        exact ⟨v, hn, rfl⟩
  | error t =>
    rw [step_int_trap hy hfr hbody hidx hop hd hdepth hops hr]
    split
    · exact iff_of_true ⟨_, _, rfl, by cases t <;> trivial⟩ ⟨t, rfl⟩
    · simp

/-- The integer opcodes trap and compute as specified, but for the one quotient. -/
theorem integer_semantics_iff :
    Executes code F s fr rest d ↔
    ¬ (op = 0x6D ∧ lo32 (operand s d) = BitVec.intMin 32 ∧ lo32 (lastOperand s) = -1) := by
  rw [executes_iff hy hfr hbody hidx hop hd hdepth hops, meets_iff _ _ (intInstr_sized hd), DivOverflows,
    intInstr_divS32 hd]

end

end

/-! ## The quotient that overflows -/

def oneInstr (op : UInt8) : Code (HostFn Unit) :=
  { bodies := [[op, 0x0B]], localCounts := [0], types := [(2, 1)], funcTypeIndices := [0]
    importTypes := [], importCount := 0, table := .blank, globalMutable := [], hostFns := fun _ => none
    jumpTable := fun _ => ⟨0, 0, 0, 0⟩, memLen := 0 }

def oneFrame : Frame := ⟨0, 0, fun _ => 0, 0, 0, 0, 1⟩

/-- About to execute the instruction on `a` and `b`. -/
def onOperands (a b : BitVec 64) : State Unit :=
  { vstack := fun i => if i = 0 then a else b, vsp := 2, frames := [oneFrame], ctrl := fun _ => BLANK_CTRL,
    ctrlDepth := 0
    globals := fun _ => 0, mem := fun _ => 0, currentPages := 0, activeMem := 0, yieldRequested := false,
    world := () }

theorem oneInstr_body (op : UInt8) : (oneInstr op).bodies[oneFrame.bodyIdx]? = some [op, 0x0B] := rfl

theorem integer_semantics_rem :
    Executes (oneInstr 0x6F) default (onOperands (-7) 2) oneFrame [] (.bin .w32 (.rem .s)) := by
  have hfetch : ([0x6F, 0x0B] : List UInt8)[oneFrame.pc]? = some 0x6F := rfl
  apply (integer_semantics_iff rfl rfl (oneInstr_body 0x6F) (by decide) hfetch rfl (by decide) (by decide)).mpr
  exact fun h => absurd h.1 (by decide)

theorem divS32_overflow_no_trap :
    ¬ ∀ (code : Code (HostFn Unit)) (F : FloatOps) (s : State Unit) (fr : Frame) (rest : List Frame)
    (body : List UInt8) (op : UInt8) (d : Instr), s.yieldRequested = false → s.frames = fr :: rest →
    code.bodies[fr.bodyIdx]? = some body → fr.bodyIdx < MAX_FUNCS → body[fr.pc]? = some op → intInstr op = some d →
    s.vsp ≤ STACK_DEPTH → d.operands ≤ s.vsp → Executes code F s fr rest d := by
  intro h
  have hex := h (oneInstr 0x6D) default (onOperands 0xFFFFFFFF80000000 (-1)) oneFrame [] [0x6D, 0x0B] 0x6D
    (.bin .w32 (.div .s))
    rfl rfl rfl (by decide) rfl rfl (by decide) (by decide)
  have hfetch : ([0x6D, 0x0B] : List UInt8)[oneFrame.pc]? = some 0x6D := rfl
  have hm := (executes_iff rfl rfl (oneInstr_body 0x6D) (by decide) hfetch rfl (by decide) (by decide)).mp hex
  exact (meets_divS32_iff _ _).mp hm ⟨by decide, by decide⟩

end WasmOs
