import WasmOs.JitCode

/-!
# Confinement of compiled code

Compiled code runs with its operand stack on the machine stack. A monitor watches it from
`mov r12, rsp`, which saves the base of the operand stack, to `mov rsp, r12`, which restores it: in
between every slot that is popped or written lies below the base and every other access goes to one
of the `MAX_LOCALS` slots at `[r13]`. Code that leaves its own bytes is not confined either.
-/

namespace WasmOs

open X86 (Reg Instr Machine exec decode Encodes)

/-! ## The monitor -/

/-- The 8 bytes at `a` lie below `base`. -/
def Below (base a : BitVec 64) : Prop := (a - base).toInt ≤ -8

/-- `a` is `[r13 + k * 8]` for some `k < MAX_LOCALS`. -/
def InLocals (m : Machine) (a : BitVec 64) : Prop := ∃ k < MAX_LOCALS, a = m.regs .r13 + BitVec.ofNat 64 (8 * k)

/-- What an instruction may do while the operand stack has the given base. -/
def Allowed (base : BitVec 64) (m : Machine) : Instr → Prop
  | .push _ => Below base (m.regs .rsp - 8)
  | .pop _ => Below base (m.regs .rsp)
  -- the stack pointer passes over slots it drops
  | .addImm dst imm => dst = .rsp → (m.regs .rsp + imm - base).toInt ≤ 0
  | .load _ b d => InLocals m (m.regs b + d)
  | .store _ b d => InLocals m (m.regs b + d)
  | .ret => False
  | _ => True

instance (base a : BitVec 64) : Decidable (Below base a) := inferInstanceAs (Decidable (_ ≤ _))

instance (m : Machine) (a : BitVec 64) : Decidable (InLocals m a) :=
  inferInstanceAs (Decidable (∃ k < MAX_LOCALS, _))

instance (base : BitVec 64) (m : Machine) : ∀ i, Decidable (Allowed base m i)
  | .push _ => inferInstanceAs (Decidable (Below _ _))
  | .pop _ => inferInstanceAs (Decidable (Below _ _))
  | .addImm dst _ => inferInstanceAs (Decidable (dst = .rsp → _ ≤ _))
  | .load _ _ _ => inferInstanceAs (Decidable (InLocals _ _))
  | .store _ _ _ => inferInstanceAs (Decidable (InLocals _ _))
  | .ret => inferInstanceAs (Decidable False)
  | .mov _ _ | .movImm _ _ | .alu _ _ _ | .subImm _ _ | .shift _ _ => inferInstanceAs (Decidable True)

def nextBase (base : Option (BitVec 64)) (m : Machine) (i : Instr) : Option (BitVec 64) :=
  if i = .mov .r12 .rsp then some (m.regs .rsp)
  else if i = .mov .rsp .r12 then none
  else base

def guarded (base : Option (BitVec 64)) (m : Machine) (i : Instr) : Bool :=
  match base with
  | none => true
  | some b => decide (Allowed b m i)

/-- Run code to its `ret` under the monitor; `none` if it breaks a rule or leaves the code. -/
def guardedRun : Nat → List UInt8 → Option (BitVec 64) → Machine → Option Machine
  | 0, _, _, _ => none
  | fuel + 1, code, base, m =>
    match decode code with
    | none => none
    | some (i, rest) =>
      if guarded base m i then
        if i = .ret then some (exec i m) else guardedRun fuel rest (nextBase base m i) (exec i m)
      else none

/-- Called from anywhere, the code returns without breaking a rule. -/
def Confined (code : List UInt8) : Prop := ∀ m, ∃ fuel m', guardedRun fuel code none m = some m'

theorem guarded_some {base : BitVec 64} {m : Machine} {i : Instr} :
    guarded (some base) m i = true ↔ Allowed base m i :=
  decide_eq_true_iff

/-! ## From bytes to instructions -/

def guardedExec : List Emitted → Option (BitVec 64) → Machine → Option (Option (BitVec 64) × Machine)
  | [], base, m => some (base, m)
  | e :: es, base, m =>
    if guarded base m e.instr then guardedExec es (nextBase base m e.instr) (exec e.instr m) else none

theorem guardedExec_cons (e : Emitted) (es : List Emitted) (base : Option (BitVec 64)) (m : Machine) :
    guardedExec (e :: es) base m =
      if guarded base m e.instr then guardedExec es (nextBase base m e.instr) (exec e.instr m) else none := rfl

theorem guardedExec_append {es fs : List Emitted} : ∀ {base : Option (BitVec 64)} {m : Machine},
    guardedExec (es ++ fs) base m = (guardedExec es base m).bind fun p => guardedExec fs p.1 p.2 := by
  induction es with
  | nil => intro base m; rfl
  | cons e es ih =>
    intro base m
    simp only [List.cons_append, guardedExec]
    split
    · exact ih
    · rfl

section
variable {es : List Emitted} (hret : ∀ e ∈ es, e.instr ≠ .ret)
include hret

theorem guardedRun_exec {rest : List UInt8} {fuel : Nat} : ∀ {base : Option (BitVec 64)} {m : Machine},
    guardedRun (es.length + fuel) (codeBytes es ++ rest) base m =
      (guardedExec es base m).bind fun p => guardedRun fuel rest p.1 p.2 := by
  induction es with
  | nil => intro base m; simp [codeBytes, guardedExec]
  | cons e es ih =>
    intro base m
    have hlen : (e :: es).length + fuel = (es.length + fuel) + 1 := by simp only [List.length_cons]; omega
    rw [hlen, guardedRun, codeBytes_cons, List.append_assoc, e.enc]
    simp only [guardedExec, if_neg (hret e List.mem_cons_self)]
    split
    · exact ih fun e' he' => hret e' (List.mem_cons_of_mem _ he')
    · rfl

theorem guardedRun_inv {rest : List UInt8} {m' : Machine} :
    ∀ {fuel : Nat} {base : Option (BitVec 64)} {m : Machine},
    guardedRun fuel (codeBytes es ++ rest) base m = some m' →
      ∃ base' m₁ fuel', guardedExec es base m = some (base', m₁) ∧ guardedRun fuel' rest base' m₁ = some m' := by
  induction es with
  | nil => intro fuel base m h; exact ⟨base, m, fuel, rfl, h⟩
  | cons e es ih =>
    intro fuel base m h
    cases fuel with
    | zero => cases h
    | succ fuel =>
      rw [guardedRun, codeBytes_cons, List.append_assoc, e.enc] at h
      simp only [if_neg (hret e List.mem_cons_self)] at h
      split at h
      · rename_i hg
        obtain ⟨base', m₁, fuel', hex, hrun⟩ := ih (fun e' he' => hret e' (List.mem_cons_of_mem _ he')) h
        exact ⟨base', m₁, fuel', by rw [guardedExec, if_pos hg]; exact hex, hrun⟩
      · cases h

/-- Code that is cut off does not come to its `ret`. -/
theorem guardedRun_truncated {n : Nat} (hn : n < (codeBytes es ++ emitRet).length) : ∀ {fuel : Nat}
    {base : Option (BitVec 64)} {m : Machine}, guardedRun fuel
    ((codeBytes es ++ emitRet).take n) base m = none := by
  induction es generalizing n with
  | nil =>
    intro fuel base m
    obtain rfl : n = 0 := by simp [codeBytes, emitRet] at hn; omega
    cases fuel <;> rfl
  | cons e es ih =>
    intro fuel base m
    cases fuel with
    | zero => rfl
    | succ fuel =>
      rw [codeBytes_cons, List.append_assoc] at hn ⊢
      rw [guardedRun]
      by_cases hcut : n < e.bytes.length
      · have hpre : decode (List.take n (e.bytes ++ (codeBytes es ++ emitRet))) = none := by
          rw [List.take_append_of_le_length (by omega)]
          have henc : Encodes (e.bytes.take n ++ e.bytes.drop n) e.instr := by
            rw [List.take_append_drop]
            exact e.enc
          refine X86.decode_cut henc ?_
          · intro h; rw [List.drop_eq_nil_iff] at h; omega
        rw [hpre]
      · rw [List.take_append, List.take_of_length_le (by omega), e.enc]
        simp only [if_neg (hret e List.mem_cons_self)]
        split
        · refine ih (fun e' he' => hret e' (List.mem_cons_of_mem _ he')) ?_
          simp only [List.length_append] at hn ⊢
          omega
        · rfl

end

/-! ## The operand stack -/

/-- The stack pointer with `d` slots on the operand stack. -/
def slot (base : BitVec 64) (d : Nat) : BitVec 64 := base - BitVec.ofNat 64 (8 * d)

theorem slot_sub_base (base : BitVec 64) {d : Nat} (hd : d < 2 ^ 59) :
    (slot base d - base).toInt = -(8 * d : Int) := by
  have h : slot base d - base = -BitVec.ofNat 64 (8 * d) := by
    apply BitVec.eq_of_toNat_eq
    have := base.isLt
    simp only [slot, BitVec.toNat_sub, BitVec.toNat_neg, BitVec.toNat_ofNat]
    omega
  rw [h, BitVec.toInt_eq_toNat_cond, BitVec.toNat_neg, BitVec.toNat_ofNat]
  split <;> omega

theorem slot_push (base : BitVec 64) (d : Nat) : slot base d - 8 = slot base (d + 1) := by
  apply BitVec.eq_of_toNat_eq
  simp only [slot, BitVec.toNat_sub, BitVec.toNat_ofNat, show (8 : BitVec 64).toNat = 8 from rfl]
  omega

theorem slot_pop (base : BitVec 64) (d : Nat) : slot base (d + 1) + 8 = slot base d := by
  rw [← slot_push, BitVec.sub_add_cancel]

theorem slot_zero (base : BitVec 64) : slot base 0 = base := by simp [slot]

theorem below_slot {base : BitVec 64} {d : Nat} (hd : d < 2 ^ 59) : Below base (slot base d) ↔ 1 ≤ d := by
  rw [Below, slot_sub_base base hd]
  omega

theorem drop_slot {base : BitVec 64} {d : Nat} (hd : d < 2 ^ 59) : (slot base d + 8 - base).toInt ≤ 0 ↔ 1 ≤ d := by
  cases d with
  | zero =>
    have : slot base 0 + 8 - base = 8 := by rw [slot_zero, BitVec.add_comm, BitVec.add_sub_cancel]
    rw [this]
    decide
  | succ d =>
    rw [slot_pop, slot_sub_base base (by omega)]
    omega

theorem local_slot {idx : Nat} {m : Machine} :
    InLocals m (m.regs .r13 + (localOffset idx).signExtend 64) ↔ idx % 2 ^ 29 < MAX_LOCALS := by
  have hsum : ∀ x y : BitVec 64, m.regs .r13 + x = m.regs .r13 + y ↔ x = y := fun x y => BitVec.add_right_inj _
  have hoff : (localOffset idx).toNat = 8 * (idx % 2 ^ 29) := by
    simp only [localOffset, BitVec.toNat_ofNat]; omega
  simp only [InLocals, hsum]
  have hext : ((localOffset idx).signExtend 64).toNat =
      if idx % 2 ^ 29 < 2 ^ 28 then 8 * (idx % 2 ^ 29) else 2 ^ 64 - 2 ^ 32 + 8 * (idx % 2 ^ 29) := by
    rw [BitVec.toNat_signExtend, BitVec.msb_eq_decide, BitVec.toNat_setWidth, hoff]
    split <;> split <;> simp_all <;> omega
  constructor
  · rintro ⟨k, hk, h⟩
    have h := congrArg BitVec.toNat h
    rw [hext, BitVec.toNat_ofNat] at h
    simp only [MAX_LOCALS] at hk ⊢
    split at h <;> omega
  · intro h
    refine ⟨idx % 2 ^ 29, h, BitVec.eq_of_toNat_eq ?_⟩
    simp only [MAX_LOCALS] at h
    have hk : 8 * (idx % 2 ^ 29) < 2 ^ 64 := by omega
    rw [hext, if_pos (by omega), BitVec.toNat_ofNat, Nat.mod_eq_of_lt hk]

/-! ## One operation -/

/-- The registers between two operations: `d` slots on the operand stack. -/
structure Between (base locals : BitVec 64) (d : Nat) (m : Machine) : Prop where
  rsp : m.regs .rsp = slot base d
  r12 : m.regs .r12 = base
  r13 : m.regs .r13 = locals

/-- How many operands an operation pops and how many results it pushes. -/
def JitOp.arity : JitOp → Nat × Nat
  | .const _ => (0, 1)
  | .localGet _ => (0, 1)
  | .localSet _ => (1, 0)
  | .localTee _ => (1, 1)
  | .bin _ => (2, 1)
  | .drop => (1, 0)
  | .nop => (0, 0)

/-- The local index, as far as it survives the 32-bit displacement, is in the buffer. -/
def JitOp.LocalOk : JitOp → Prop
  | .localGet idx | .localSet idx | .localTee idx => idx % 2 ^ 29 < MAX_LOCALS
  | _ => True

/-- With `d` operands on the stack the operations pop no more than there are, return included. -/
def StackOk (resultCount : Nat) : Nat → List JitOp → Prop
  | d, [] => resultCount ≤ d
  | d, op :: ops => op.arity.1 ≤ d ∧ StackOk resultCount (d - op.arity.1 + op.arity.2) ops

section
variable {base locals : BitVec 64} {d : Nat} {m : Machine} (hm : Between base locals d m) (hd : d < 2 ^ 58)
include hm hd

theorem guarded_push (r : Reg) : guarded (some base) m (.push r) = true := by
  rw [guarded_some]
  show Below base (m.regs .rsp - 8)
  rw [hm.rsp, slot_push, below_slot (by omega)]
  omega

omit hd in
theorem between_push (r : Reg) : Between base locals (d + 1) (exec (.push r) m) := by
  refine ⟨?_, hm.r12, hm.r13⟩
  show m.regs .rsp - 8 = _
  rw [hm.rsp, slot_push]

theorem guarded_pop (r : Reg) : guarded (some base) m (.pop r) = true ↔ 1 ≤ d := by
  rw [guarded_some]
  show Below base (m.regs .rsp) ↔ _
  rw [hm.rsp, below_slot (by omega)]

theorem guarded_drop : guarded (some base) m (.addImm .rsp 8) = true ↔ 1 ≤ d := by
  rw [guarded_some]
  show (Reg.rsp = .rsp → (m.regs .rsp + 8 - base).toInt ≤ 0) ↔ _
  rw [hm.rsp, drop_slot (by omega)]
  exact ⟨fun h => h rfl, fun h _ => h⟩

omit hd

theorem between_set {r : Reg} (v : BitVec 64) (hr : r = .rax ∨ r = .rcx) : Between base locals d (m.set r v) := by
  rcases hr with rfl | rfl <;> exact ⟨hm.rsp, hm.r12, hm.r13⟩

theorem between_up (hd1 : 1 ≤ d) : Between base locals (d - 1) (m.set .rsp (m.regs .rsp + 8)) := by
  refine ⟨?_, hm.r12, hm.r13⟩
  obtain ⟨e, rfl⟩ : ∃ e, d = e + 1 := ⟨d - 1, by omega⟩
  show m.regs .rsp + 8 = _
  rw [hm.rsp, slot_pop, Nat.add_sub_cancel]

theorem between_pop {r : Reg} (hr : r = .rax ∨ r = .rcx) (hd1 : 1 ≤ d) :
    Between base locals (d - 1) (exec (.pop r) m) :=
  between_set (between_up hm hd1) _ hr

omit hm in
theorem guarded_load (idx : Nat) :
    guarded (some base) m (loadLocal idx).instr = true ↔ idx % 2 ^ 29 < MAX_LOCALS := by
  rw [guarded_some]
  exact local_slot

omit hm in
theorem guarded_store (idx : Nat) :
    guarded (some base) m (storeLocal idx).instr = true ↔ idx % 2 ^ 29 < MAX_LOCALS := by
  rw [guarded_some]
  exact local_slot

theorem between_store (idx : Nat) : Between base locals d (exec (storeLocal idx).instr m) :=
  ⟨hm.rsp, hm.r12, hm.r13⟩

theorem between_load (idx : Nat) : Between base locals d (exec (loadLocal idx).instr m) :=
  between_set hm _ (.inl rfl)

omit hm in
theorem guarded_bin (b : JitBin) : guarded (some base) m b.emitted.instr = true := by cases b <;> rfl

theorem between_bin (b : JitBin) : Between base locals d (exec b.emitted.instr m) := by
  cases b <;> exact between_set hm _ (.inl rfl)

omit hm in
theorem guardedExec_step {e : Emitted} {es : List Emitted} (hnext : nextBase (some base) m e.instr = some base)
    (hg : guarded (some base) m e.instr = true) :
    guardedExec (e :: es) (some base) m = guardedExec es (some base) (exec e.instr m) := by
  rw [guardedExec, if_pos hg, hnext]

omit hm in
theorem guardedExec_stop {e : Emitted} {es : List Emitted} (hg : ¬ guarded (some base) m e.instr = true) :
    guardedExec (e :: es) (some base) m = none := by
  rw [guardedExec, if_neg hg]

include hd

/-- An operation runs under the monitor exactly if its operands are there and its local is in the buffer. -/
theorem guardedExec_op (op : JitOp) :
    (op.arity.1 ≤ d ∧ op.LocalOk → ∃ m', guardedExec op.code (some base) m = some (some base, m') ∧
      Between base locals (d - op.arity.1 + op.arity.2) m') ∧
    (¬ (op.arity.1 ≤ d ∧ op.LocalOk) → guardedExec op.code (some base) m = none) := by
  cases op with
  | const v =>
    have h1 := between_set hm v (.inl rfl)
    refine ⟨fun _ => ⟨_, ?_, between_push h1 .rax⟩, fun h => absurd ⟨Nat.zero_le _, trivial⟩ h⟩
    exact (guardedExec_step rfl rfl).trans (guardedExec_step rfl (guarded_push h1 hd .rax))
  | localGet idx =>
    have h1 := between_load hm idx
    refine ⟨fun ⟨_, h⟩ => ⟨_, ?_, between_push h1 .rax⟩, fun h => ?_⟩
    · exact (guardedExec_step rfl ((guarded_load idx).mpr h)).trans (guardedExec_step rfl (guarded_push h1 hd .rax))
    · exact guardedExec_stop fun hg => h ⟨Nat.zero_le _, (guarded_load idx).mp hg⟩
  | localSet idx =>
    by_cases hd1 : 1 ≤ d
    · have h1 := between_pop hm (.inl rfl) hd1
      have hpop := (guarded_pop hm hd .rax).mpr hd1
      refine ⟨fun ⟨_, h⟩ => ⟨_, ?_, between_store h1 idx⟩, fun h => ?_⟩
      · exact (guardedExec_step rfl hpop).trans (guardedExec_step rfl ((guarded_store idx).mpr h))
      · exact (guardedExec_step rfl hpop).trans (guardedExec_stop fun hg => h ⟨hd1, (guarded_store idx).mp hg⟩)
    · exact ⟨fun h => absurd h.1 hd1, fun _ => guardedExec_stop fun hg => hd1 ((guarded_pop hm hd .rax).mp hg)⟩
  | localTee idx =>
    by_cases hd1 : 1 ≤ d
    · have h1 := between_pop hm (.inl rfl) hd1
      have h2 := between_push h1 .rax
      have hpop := (guarded_pop hm hd .rax).mpr hd1
      have hpush := guarded_push h1 (by omega) .rax
      refine ⟨fun ⟨_, h⟩ => ⟨_, ?_, between_store h2 idx⟩, fun h => ?_⟩
      · exact ((guardedExec_step rfl hpop).trans (guardedExec_step rfl hpush)).trans
          (guardedExec_step rfl ((guarded_store idx).mpr h))
      · exact ((guardedExec_step rfl hpop).trans (guardedExec_step rfl hpush)).trans
          (guardedExec_stop fun hg => h ⟨hd1, (guarded_store idx).mp hg⟩)
    · exact ⟨fun h => absurd h.1 hd1, fun _ => guardedExec_stop fun hg => hd1 ((guarded_pop hm hd .rax).mp hg)⟩
  | bin b =>
    by_cases hd1 : 1 ≤ d
    · have h1 := between_pop hm (.inr rfl) hd1
      have hpop := (guarded_pop hm hd .rcx).mpr hd1
      by_cases hd2 : 2 ≤ d
      · have h2 := between_pop h1 (.inl rfl) (by omega)
        have h3 := between_bin h2 b
        have hpop2 := (guarded_pop h1 (by omega) .rax).mpr (by omega)
        refine ⟨fun _ => ⟨_, ?_, between_push h3 .rax⟩, fun h => absurd ⟨hd2, trivial⟩ h⟩
        have hnext : ∀ m', nextBase (some base) m' b.emitted.instr = some base := by intro m'; cases b <;> rfl
        exact ((guardedExec_step rfl hpop).trans (guardedExec_step rfl hpop2)).trans
          ((guardedExec_step (hnext _) (guarded_bin b)).trans
            (guardedExec_step rfl (guarded_push h3 (by omega) .rax)))
      · refine ⟨fun h => absurd h.1 hd2, fun _ => (guardedExec_step rfl hpop).trans (guardedExec_stop fun hg => ?_)⟩
        have := (guarded_pop h1 (by omega) .rax).mp hg
        omega
    · refine ⟨fun h => absurd (Nat.le_of_succ_le h.1) hd1, fun _ => guardedExec_stop fun hg => ?_⟩
      exact hd1 ((guarded_pop hm hd .rcx).mp hg)
  | drop =>
    by_cases hd1 : 1 ≤ d
    · exact ⟨fun _ => ⟨_, guardedExec_step rfl ((guarded_drop hm hd).mpr hd1), between_up hm hd1⟩,
        fun h => absurd ⟨hd1, trivial⟩ h⟩
    · exact ⟨fun h => absurd h.1 hd1, fun _ => guardedExec_stop fun hg => hd1 ((guarded_drop hm hd).mp hg)⟩
  | nop => exact ⟨fun _ => ⟨m, rfl, hm⟩, fun h => absurd ⟨Nat.zero_le _, trivial⟩ h⟩

end

/-! ## Whole bodies -/

/-- An operation that pushes more than it pops takes at least four bytes of code. -/
theorem op_bytes_length (op : JitOp) : 4 * op.arity.2 ≤ 4 * op.arity.1 + (codeBytes op.code).length := by
  have hpush : pushRax.bytes.length = 1 := rfl
  cases op with
  | const v =>
    simp only [JitOp.arity, JitOp.code, codeBytes_cons, codeBytes_nil, emitMovRi64, emitU64, List.length_append,
      List.length_cons, leBytes_length, hpush]
    omega
  | localGet idx =>
    have : 1 ≤ (emitMemModrm .rax .r13 (localOffset idx)).length := by
      unfold emitMemModrm
      split
      · simp
      · split <;> simp
    simp only [JitOp.arity, JitOp.code, codeBytes_cons, codeBytes_nil, loadLocal, emitLoadMem, emitRexRr,
      List.length_append, List.length_cons, List.length_nil, hpush]
    omega
  | _ => simp only [JitOp.arity]; omega

theorem guardedExec_exit {base locals : BitVec 64} {d rc : Nat} {m : Machine} (hm : Between base locals d m)
    (hd : d < 2 ^ 58) (hrc : rc ≤ 1) :
    (rc ≤ d → ∃ m', guardedExec (exitCode rc) (some base) m = some (none, m')) ∧
    (¬ rc ≤ d → guardedExec (exitCode rc) (some base) m = none) := by
  obtain rfl | rfl : rc = 0 ∨ rc = 1 := by omega
  · exact ⟨fun _ => ⟨_, rfl⟩, fun h => absurd (Nat.zero_le d) h⟩
  · refine ⟨fun hd1 => ?_, fun hd1 => guardedExec_stop fun hg => hd1 ((guarded_pop hm hd .rax).mp hg)⟩
    have : guardedExec (exitCode 1) (some base) m = guardedExec (exitCode 1).tail (some base)
        (exec (.pop .rax) m) :=
      guardedExec_step rfl ((guarded_pop hm hd .rax).mpr hd1)
    rw [this]
    exact ⟨_, rfl⟩

/-- The monitor lets operations and return pass exactly if no operand is missing and no local is outside
the buffer. -/
theorem guardedExec_ops {base locals : BitVec 64} {rc : Nat} (hrc : rc ≤ 1) :
    ∀ (ops : List JitOp) {d : Nat} {m : Machine},
    Between base locals d m → 4 * d + (codeBytes (ops.flatMap JitOp.code)).length < 2 ^ 60 →
    (StackOk rc d ops ∧ (∀ op ∈ ops, op.LocalOk) →
      ∃ m', guardedExec (ops.flatMap JitOp.code ++ exitCode rc) (some base) m = some (none, m')) ∧
    (¬ (StackOk rc d ops ∧ ∀ op ∈ ops, op.LocalOk) →
      guardedExec (ops.flatMap JitOp.code ++ exitCode rc) (some base) m = none)
  | [], d, m, hm, hlen => by
    rw [List.flatMap_nil, List.nil_append]
    simpa [StackOk] using guardedExec_exit hm (by omega) hrc
  | op :: ops, d, m, hm, hlen => by
    rw [List.flatMap_cons, codeBytes_append, List.length_append] at hlen
    have hgrow := op_bytes_length op
    rw [List.flatMap_cons, List.append_assoc, guardedExec_append]
    obtain ⟨hok, hbad⟩ := guardedExec_op hm (by omega) op
    by_cases h : op.arity.1 ≤ d ∧ op.LocalOk
    · obtain ⟨m', hex, hm'⟩ := hok h
      rw [hex, Option.bind_some]
      have ih := guardedExec_ops hrc ops hm' (by omega)
      simpa only [StackOk, List.forall_mem_cons, h.1, h.2, true_and] using ih
    · rw [hbad h]
      refine ⟨fun hs => ?_, fun _ => rfl⟩
      simp only [StackOk, List.forall_mem_cons] at hs
      exact absurd ⟨hs.1.1, hs.2.1⟩ h

def entered (m : Machine) : Machine := entryCode.foldl (fun m e => exec e.instr m) m

theorem guardedExec_entry (m : Machine) :
    guardedExec entryCode none m = some (some (slot (m.regs .rsp) 7), entered m) := by
  have : slot (m.regs .rsp) 7 = m.regs .rsp - 8 - 8 - 8 - 8 - 8 - 8 - 8 := by
    simp only [← slot_push, slot_zero]
  rw [this]; rfl

theorem entered_between (m : Machine) : Between (slot (m.regs .rsp) 7) (m.regs .rdx) 0 (entered m) := by
  have : slot (m.regs .rsp) 7 = m.regs .rsp - 8 - 8 - 8 - 8 - 8 - 8 - 8 := by
    simp only [← slot_push, slot_zero]
  rw [this]
  exact ⟨(slot_zero _).symm, rfl, rfl⟩

/-- The condition under which compiled code is confined. -/
def Confinable (body : List UInt8) (rc cap : Nat) : Prop :=
  ∃ ops, jitOps body = some ops ∧ (codeBytes (opsCode ops rc) ++ emitRet).length ≤ cap ∧
    StackOk rc 0 ops ∧ ∀ op ∈ ops, op.LocalOk

theorem opsCode_no_ret {ops : List JitOp} {rc : Nat} : ∀ e ∈ opsCode ops rc, e.instr ≠ .ret := by
  have hentry : ∀ e ∈ entryCode, e.instr ≠ .ret := by simp [entryCode]
  have hexit : ∀ e ∈ exitCode rc, e.instr ≠ .ret := by
    unfold exitCode
    split <;> simp [popRax, unwind, clearRax, restoreCode]
  have hops : ∀ op : JitOp, ∀ e ∈ op.code, e.instr ≠ .ret := by
    intro op
    cases op with
    | bin b => cases b <;> simp [JitOp.code, popRax, popRcx, pushRax, JitBin.emitted, JitBin.instr]
    | _ => simp [JitOp.code, popRax, pushRax, loadLocal, storeLocal]
  intro e he
  simp only [opsCode, List.mem_append, List.mem_flatMap] at he
  rcases he with he | ⟨op, _, he⟩ | he
  · exact hentry e he
  · exact hops op e he
  · exact hexit e he

theorem guardedExec_opsCode {ops : List JitOp} {rc : Nat} (hrc : rc ≤ 1)
    (hlen : (codeBytes (ops.flatMap JitOp.code)).length < 2 ^ 60) (m : Machine) :
    (StackOk rc 0 ops ∧ (∀ op ∈ ops, op.LocalOk) → ∃ m', guardedExec (opsCode ops rc) none m = some (none, m')) ∧
    (¬ (StackOk rc 0 ops ∧ ∀ op ∈ ops, op.LocalOk) → guardedExec (opsCode ops rc) none m = none) := by
  rw [opsCode, guardedExec_append, guardedExec_entry, Option.bind_some]
  exact guardedExec_ops hrc ops (entered_between m) (by omega)

theorem codeBytes_ops_le {ops : List JitOp} {rc cap : Nat}
    (h : (codeBytes (opsCode ops rc) ++ emitRet).length ≤ cap) :
    (codeBytes (ops.flatMap JitOp.code)).length ≤ cap := by
  rw [opsCode, codeBytes_append, codeBytes_append] at h
  simp only [List.length_append] at h
  omega

theorem confined_iff {body : List UInt8} {lc rc cap : Nat} {code : List UInt8} (hcap : cap < 2 ^ 60)
    (h : jitCompileBody body lc rc cap = some code) : Confined code ↔ Confinable body rc cap := by
  rw [jitCompileBody_eq] at h
  split at h
  · cases h
  rename_i hrc
  obtain ⟨ops, hops, rfl⟩ := Option.map_eq_some_iff.mp h
  by_cases hfit : (codeBytes (opsCode ops rc) ++ emitRet).length ≤ cap
  · rw [List.take_of_length_le hfit]
    have hlen := codeBytes_ops_le hfit
    constructor
    · intro hconf
      refine ⟨ops, hops, hfit, ?_⟩
      obtain ⟨fuel, m', hrun⟩ := hconf ⟨fun _ => 0, fun _ => 0⟩
      obtain ⟨base, m₁, fuel', hex, _⟩ := guardedRun_inv opsCode_no_ret hrun
      by_contra hbad
      rw [(guardedExec_opsCode (by omega) (by omega) _).2 hbad] at hex
      cases hex
    · rintro ⟨ops', hops', _, hok⟩ m
      rw [hops] at hops'
      cases hops'
      obtain ⟨m', hex⟩ := (guardedExec_opsCode (by omega) (by omega) m).1 hok
      refine ⟨(opsCode ops rc).length + 1, exec .ret m', ?_⟩
      rw [guardedRun_exec opsCode_no_ret, hex]
      rfl
  · refine ⟨fun hconf => ?_, fun ⟨ops', hops', hfit', _⟩ => ?_⟩
    · obtain ⟨fuel, m', hrun⟩ := hconf ⟨fun _ => 0, fun _ => 0⟩
      rw [guardedRun_truncated opsCode_no_ret (by omega)] at hrun
      cases hrun
    · rw [hops] at hops'
      cases hops'
      exact absurd hfit' hfit

/-! ## The frame of the caller

What lies at or above the base and outside the locals buffer is not written under the monitor. -/

/-- The instruction keeps the locals base and the monitored phase. -/
def Inner (i : Instr) : Prop := ∀ m, (exec i m).regs .r13 = m.regs .r13 ∧ ∀ b, nextBase b m i = b

theorem op_inner (op : JitOp) : ∀ e ∈ op.code, Inner e.instr := by
  intro e he
  cases op with
  | bin b =>
    simp only [JitOp.code, List.mem_cons, List.not_mem_nil, or_false] at he
    rcases he with rfl | rfl | rfl | rfl
    · exact fun m => ⟨rfl, fun b => rfl⟩
    · exact fun m => ⟨rfl, fun b => rfl⟩
    · cases b <;> exact fun m => ⟨rfl, fun b => rfl⟩
    · exact fun m => ⟨rfl, fun b => rfl⟩
  | nop => cases he
  | _ =>
    simp only [JitOp.code, List.mem_cons, List.not_mem_nil, or_false] at he
    rcases he with rfl | rfl | rfl <;> exact fun m => ⟨rfl, fun b => rfl⟩

theorem apart_of_below {base w a : BitVec 64} (hw : Below base w) (ha : (a - base).toNat < 2 ^ 62) :
    X86.Apart w a := by
  intro k hk
  have hsum : a + BitVec.ofNat 64 k - w = (a - base) + BitVec.ofNat 64 k - (w - base) := by
    apply BitVec.eq_of_toNat_eq
    have := a.isLt; have := w.isLt; have := base.isLt
    simp only [BitVec.toNat_sub, BitVec.toNat_add, BitVec.toNat_ofNat]
    omega
  rw [hsum]
  rw [Below, BitVec.toInt_eq_toNat_cond] at hw
  have := (w - base).isLt
  simp only [BitVec.toNat_sub (a - base + _), BitVec.toNat_add (a - base), BitVec.toNat_ofNat]
  split at hw <;> omega

section
variable {base locals a : BitVec 64} (ha : (a - base).toNat < 2 ^ 62)
  (hl : ∀ k < MAX_LOCALS, X86.Apart (locals + BitVec.ofNat 64 (8 * k)) a)
include ha hl

theorem exec_frame {m : Machine} {i : Instr} (hg : guarded (some base) m i = true) (hr13 : m.regs .r13 = locals) :
    X86.read64 (exec i m).mem a = X86.read64 m.mem a := by
  rw [guarded_some] at hg
  cases i with
  | push r => exact X86.read64_write64_apart (apart_of_below hg ha)
  | store src b d =>
    obtain ⟨k, hk, haddr⟩ := hg
    show X86.read64 (X86.write64 m.mem (m.regs b + d) _) a = _
    rw [haddr, hr13]
    exact X86.read64_write64_apart (hl k hk)
  | _ => rfl

theorem guardedExec_frame :
    ∀ {es : List Emitted} {m m' : Machine} {b : Option (BitVec 64)}, (∀ e ∈ es, Inner e.instr) →
    m.regs .r13 = locals → guardedExec es (some base) m = some (b, m') → X86.read64 m'.mem a = X86.read64 m.mem a
  | [], m, m', b, _, _, h => by cases h; rfl
  | e :: es, m, m', b, hin, hr13, h => by
    rw [guardedExec] at h
    split at h
    · rename_i hg
      obtain ⟨hr, hb⟩ := hin e List.mem_cons_self m
      rw [hb] at h
      rw [guardedExec_frame (fun e' he' => hin e' (List.mem_cons_of_mem _ he')) (hr.trans hr13) h,
        exec_frame ha hl hg hr13]
    · cases h

end

/-- The operations alone, before the exit sequence. -/
theorem guardedExec_ops_between {base locals : BitVec 64} {rc : Nat} : ∀ (ops : List JitOp) {d : Nat} {m : Machine},
    Between base locals d m → 4 * d + (codeBytes (ops.flatMap JitOp.code)).length < 2 ^ 60 → StackOk rc d ops →
    (∀ op ∈ ops, op.LocalOk) → ∃ d' m', guardedExec (ops.flatMap JitOp.code) (some base) m = some (some base, m') ∧
      Between base locals d' m'
  | [], d, m, hm, _, _, _ => ⟨d, m, rfl, hm⟩
  | op :: ops, d, m, hm, hlen, hs, hl => by
    rw [List.flatMap_cons, codeBytes_append, List.length_append] at hlen
    have hgrow := op_bytes_length op
    obtain ⟨m', hex, hm'⟩ := (guardedExec_op hm (by omega) op).1 ⟨hs.1, hl op List.mem_cons_self⟩
    obtain ⟨d'', m'', hex', hm''⟩ := guardedExec_ops_between ops hm' (by have := hs.1; omega) hs.2
      fun op' hop' => hl op' (List.mem_cons_of_mem _ hop')
    exact ⟨d'', m'', by rw [List.flatMap_cons, guardedExec_append, hex]; exact hex', hm''⟩

theorem apart_slots {s : BitVec 64} {i j : Nat} (hi : i < 2 ^ 58) (hj : j < 2 ^ 58) (hij : i ≠ j) :
    X86.Apart (slot s i) (slot s j) := by
  intro k hk
  have := s.isLt
  simp only [slot, BitVec.toNat_sub, BitVec.toNat_add, BitVec.toNat_ofNat]
  omega

/-- What the entry sequence saves in the slots under the return address. -/
def savedReg : Nat → Reg
  | 1 => .rbp
  | 2 => .rbx
  | 3 => .r12
  | 4 => .r13
  | 5 => .r14
  | _ => .r15

/-- The entry sequence pushes six registers, one slot after the other. -/
theorem entered_mem (m : Machine) :
    (entered m).mem = X86.write64 (X86.write64 (X86.write64 (X86.write64 (X86.write64
    (X86.write64 m.mem (slot (m.regs .rsp) 1) (m.regs .rbp)) (slot (m.regs .rsp) 2) (m.regs .rbx))
    (slot (m.regs .rsp) 3)
    (m.regs .r12)) (slot (m.regs .rsp) 4) (m.regs .r13)) (slot (m.regs .rsp) 5) (m.regs .r14))
    (slot (m.regs .rsp) 6) (m.regs .r15) := by
  simp only [← slot_push, slot_zero]
  rfl

theorem entered_saved (m : Machine) :
    X86.read64 (entered m).mem (slot (m.regs .rsp) 0) = X86.read64 m.mem (slot (m.regs .rsp) 0) ∧
    ∀ j, 1 ≤ j → j ≤ 6 → X86.read64 (entered m).mem (slot (m.regs .rsp) j) = m.regs (savedReg j) := by
  have hmem := entered_mem m
  generalize m.regs .rsp = s at hmem ⊢
  have hap : ∀ {i j}, i ≤ 6 → j ≤ 6 → i ≠ j → ∀ mem v, X86.read64 (X86.write64 mem (slot s i) v) (slot s j) =
      X86.read64 mem (slot s j) :=
      fun hi hj hij mem v => X86.read64_write64_apart (apart_slots (by omega) (by omega) hij)
  rw [hmem]
  refine ⟨?_, fun j h1 h6 => ?_⟩
  · rw [hap, hap, hap, hap, hap, hap] <;> decide
  · obtain rfl | rfl | rfl | rfl | rfl | rfl : j = 1 ∨ j = 2 ∨ j = 3 ∨ j = 4 ∨ j = 5 ∨ j = 6 := by omega
    · rw [hap, hap, hap, hap, hap, X86.read64_write64_self] <;> first | rfl | decide
    · rw [hap, hap, hap, hap, X86.read64_write64_self] <;> first | rfl | decide
    · rw [hap, hap, hap, X86.read64_write64_self] <;> first | rfl | decide
    · rw [hap, hap, X86.read64_write64_self] <;> first | rfl | decide
    · rw [hap, X86.read64_write64_self] <;> first | rfl | decide
    · rw [X86.read64_write64_self]; rfl

/-- The epilogue reloads the saved registers from the slots above the base and changes no memory. -/
theorem restore_saved {s : BitVec 64} {m m' : Machine} {b : Option (BitVec 64)} (hrsp : m.regs .rsp = slot s 7)
    (h : guardedExec restoreCode none m = some (b, m')) :
    m'.mem = m.mem ∧ m'.regs .rsp = s ∧ ∀ j, 1 ≤ j → j ≤ 6 →
    m'.regs (savedReg j) = X86.read64 m.mem (slot s j) := by
  cases h
  refine ⟨rfl, ?_, fun j h1 h6 => ?_⟩
  · show m.regs .rsp + 8 + 8 + 8 + 8 + 8 + 8 + 8 = s
    simp only [hrsp, slot_pop, slot_zero]
  · obtain rfl | rfl | rfl | rfl | rfl | rfl : j = 1 ∨ j = 2 ∨ j = 3 ∨ j = 4 ∨ j = 5 ∨ j = 6 := by omega
    · show X86.read64 m.mem (m.regs .rsp + 8 + 8 + 8 + 8 + 8 + 8) = _
      simp only [hrsp, slot_pop]
    · show X86.read64 m.mem (m.regs .rsp + 8 + 8 + 8 + 8 + 8) = _
      simp only [hrsp, slot_pop]
    · show X86.read64 m.mem (m.regs .rsp + 8 + 8 + 8 + 8) = _
      simp only [hrsp, slot_pop]
    · show X86.read64 m.mem (m.regs .rsp + 8 + 8 + 8) = _
      simp only [hrsp, slot_pop]
    · show X86.read64 m.mem (m.regs .rsp + 8 + 8) = _
      simp only [hrsp, slot_pop]
    · show X86.read64 m.mem (m.regs .rsp + 8) = _
      simp only [hrsp, slot_pop]

theorem exit_restores {s base : BitVec 64} {m m' : Machine} {b : Option (BitVec 64)} {rc : Nat} (hrc : rc ≤ 1)
    (hr12 : m.regs .r12 = slot s 7) (h : guardedExec (exitCode rc) (some base) m = some (b, m')) :
    m'.mem = m.mem ∧ m'.regs .rsp = s ∧ ∀ j, 1 ≤ j → j ≤ 6 →
    m'.regs (savedReg j) = X86.read64 m.mem (slot s j) := by
  obtain ⟨e₁, e₂, hcode, hmem, hrsp, hbase⟩ : ∃ e₁ e₂ : Emitted, exitCode rc = e₁ :: e₂ :: restoreCode ∧
      (exec e₂.instr (exec e₁.instr m)).mem = m.mem ∧ (exec e₂.instr (exec e₁.instr m)).regs .rsp = slot s 7 ∧
      nextBase (nextBase (some base) m e₁.instr) (exec e₁.instr m) e₂.instr = none := by
    obtain rfl | rfl : rc = 0 ∨ rc = 1 := by omega
    · exact ⟨unwind, clearRax, rfl, rfl, hr12, rfl⟩
    · exact ⟨popRax, unwind, rfl, rfl, hr12, rfl⟩
  rw [hcode, guardedExec_cons, guardedExec_cons, hbase] at h
  split at h
  · split at h
    · rw [← hmem]
      exact restore_saved hrsp h
    · cases h
  · cases h

/-- No local slot overlaps the return address or a saved register. -/
def LocalsApart (m : Machine) : Prop :=
  ∀ k < MAX_LOCALS, ∀ j < 7, X86.Apart (m.regs .rdx + BitVec.ofNat 64 (8 * k)) (slot (m.regs .rsp) j)

theorem slot_above {s : BitVec 64} {j : Nat} (hj : j < 7) : (slot s j - slot s 7).toNat < 2 ^ 62 := by
  have := s.isLt
  simp only [slot, BitVec.toNat_sub, BitVec.toNat_ofNat]
  omega

/-- Confined code gives its caller back the callee-saved registers, the stack pointer and the return address. -/
theorem confinable_intact {body code : List UInt8} {lc rc cap : Nat} (hcap : cap < 2 ^ 60)
    (h : jitCompileBody body lc rc cap = some code) (hconf : Confinable body rc cap) (m : Machine)
    (hap : LocalsApart m) :
    ∃ fuel m', guardedRun fuel code none m = some m' ∧ m'.regs .rsp = m.regs .rsp + 8 ∧
      (∀ j, 1 ≤ j → j ≤ 6 → m'.regs (savedReg j) = m.regs (savedReg j)) ∧
      X86.read64 m'.mem (m.regs .rsp) = X86.read64 m.mem (m.regs .rsp) := by
  obtain ⟨ops, hops, hfit, hstack, hlocal⟩ := hconf
  rw [jitCompileBody_eq, hops] at h
  split at h
  · cases h
  rename_i hrc
  simp only [Option.map_some, List.take_of_length_le hfit, Option.some.injEq] at h
  subst h
  have hlen := codeBytes_ops_le hfit
  generalize hs : m.regs .rsp = s
  have hbetween := entered_between m
  rw [hs] at hbetween
  obtain ⟨d, m₁, hex, hm₁⟩ := guardedExec_ops_between ops hbetween (by omega) hstack hlocal
  obtain ⟨m₂, hall⟩ := (guardedExec_opsCode (by omega) (by omega) m).1 ⟨hstack, hlocal⟩
  have hexit : guardedExec (exitCode rc) (some (slot s 7)) m₁ = some (none, m₂) := by
    rw [opsCode, guardedExec_append, guardedExec_entry, Option.bind_some, guardedExec_append, hs, hex] at hall
    exact hall
  obtain ⟨hmem, hrsp, hregs⟩ := exit_restores (by omega) hm₁.r12 hexit
  have hinner : ∀ e ∈ ops.flatMap JitOp.code, Inner e.instr := by
    intro e he
    obtain ⟨op, _, he⟩ := List.mem_flatMap.mp he
    exact op_inner op e he
  -- the slots above the base hold after the operations what the entry sequence left there
  have hframe : ∀ j < 7, X86.read64 m₁.mem (slot s j) = X86.read64 (entered m).mem (slot s j) := fun j hj =>
    guardedExec_frame (slot_above hj) (fun k hk => by rw [← hs]; exact hap k hk j hj) hinner hbetween.r13 hex
  obtain ⟨hret, hsaved⟩ := entered_saved m
  rw [hs] at hret hsaved
  refine ⟨(opsCode ops rc).length + 1, exec .ret m₂, ?_, ?_, fun j h1 h6 => ?_, ?_⟩
  · rw [guardedRun_exec opsCode_no_ret, hall]; rfl
  · show m₂.regs .rsp + 8 = _
    rw [hrsp]
  · have hne : savedReg j ≠ .rsp := by
      obtain rfl | rfl | rfl | rfl | rfl | rfl : j = 1 ∨ j = 2 ∨ j = 3 ∨ j = 4 ∨ j = 5 ∨ j = 6 := by omega
      all_goals decide
    have : (exec .ret m₂).regs (savedReg j) = m₂.regs (savedReg j) := if_neg hne
    rw [this, hregs j h1 h6, hframe j (by omega), hsaved j h1 h6]
  · show X86.read64 m₂.mem s = _
    rw [hmem, ← slot_zero s, hframe 0 (by omega), hret]

/-- Compiled code is confined exactly if it fits its buffer, never pops more operands than it pushed and
uses only locals whose 32-bit displacement stays in the caller's buffer; the caller's frame is then
intact at the `ret`. -/
theorem jit_confined (body : List UInt8) (localsCount resultCount cap : Nat) (code : List UInt8)
    (hcap : cap < 2 ^ 60) (h : jitCompileBody body localsCount resultCount cap = some code) :
    (Confined code ↔ Confinable body resultCount cap) ∧
    (Confinable body resultCount cap → ∀ m, LocalsApart m →
      ∃ fuel m', guardedRun fuel code none m = some m' ∧ m'.regs .rsp = m.regs .rsp + 8 ∧
        (∀ j, 1 ≤ j → j ≤ 6 → m'.regs (savedReg j) = m.regs (savedReg j)) ∧
        X86.read64 m'.mem (m.regs .rsp) = X86.read64 m.mem (m.regs .rsp)) :=
  ⟨confined_iff hcap h, fun hconf m hap => confinable_intact hcap h hconf m hap⟩

theorem jit_confined_add :
    ∃ code, jitCompileBody [0x20, 0x00, 0x20, 0x01, 0x6A, 0x0B] 2 1 MAX_FN_BYTES = some code ∧
    Confined code := by
  have hc : ∃ code, jitCompileBody [0x20, 0x00, 0x20, 0x01, 0x6A, 0x0B] 2 1 MAX_FN_BYTES = some code :=
    Option.isSome_iff_exists.mp (by decide)
  obtain ⟨code, h⟩ := hc
  refine ⟨code, h, (jit_confined _ _ _ _ code (by decide) h).1.2
    ⟨[.localGet 0, .localGet 1, .bin .add], by rfl, by decide, ?_, ?_⟩⟩
  · simp [StackOk, JitOp.arity]
  · simp [JitOp.LocalOk, MAX_LOCALS]

/-- `drop` on the empty operand stack moves the stack pointer past the base. -/
theorem jit_drop_not_confined : ¬ ∀ (body : List UInt8) (localsCount resultCount : Nat) (code : List UInt8),
    jitCompileBody body localsCount resultCount MAX_FN_BYTES = some code → Confined code := by
  intro h
  have hc : ∃ code, jitCompileBody [0x1A, 0x0B] 0 0 MAX_FN_BYTES = some code :=
    Option.isSome_iff_exists.mp (by decide)
  obtain ⟨code, hcode⟩ := hc
  obtain ⟨ops, hops, -, hstack, -⟩ := (confined_iff (by decide) hcode).1 (h _ _ _ code hcode)
  cases hops
  simp [StackOk, JitOp.arity] at hstack

end WasmOs
