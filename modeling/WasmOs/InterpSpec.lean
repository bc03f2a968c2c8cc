import WasmOs.Interp
import WasmOs.Cursor

/-!
# What instructions do to the stacks

A straight-line instruction pops some slots, pushes some slots and leaves what lies below, the
control stack and the frames alone. `Eff` says so of two states, `Straight` of an instruction.
-/

namespace WasmOs

open Hoare (wp wp_bind wp_pure wp_throw wp_get wp_set wp_modify wp_ite)

/-- The errors that stand for traps of the WebAssembly semantics. -/
def InterpError.IsTrap : InterpError → Prop
  | .unreachable | .indirectCallNull | .indirectCallTypeMismatch | .memOutOfBounds | .divisionByZero
  | .invalidConversion => True
  | _ => False

/-! ## Rules -/

section
variable {ω α : Type} {s : State ω} {E : Fault InterpError → State ω → Prop}

theorem wp_lift {m : Rust InterpError α} {Q : α → State ω → Prop} :
    wp (lift m) Q E s ↔ (∀ a, m = .ok a → Q a s) ∧ ∀ e, m = .error e → E e s := by
  unfold wp lift
  cases m <;> simp

theorem wp_lift_ok {m : Rust InterpError α} {Q : α → State ω → Prop} {a : α} (h : m = .ok a) :
    wp (lift m) Q E s ↔ Q a s := by
  subst h; exact Iff.rfl

theorem wp_vPush {Q : Unit → State ω → Prop} {v : BitVec 64} : wp (vPush v) Q E s ↔
    (STACK_DEPTH ≤ s.vsp → E (.err .stackOverflow) s) ∧
    (s.vsp < STACK_DEPTH → Q () { s with vstack := upd s.vstack s.vsp v, vsp := s.vsp + 1 }) := by
  simp only [vPush, wp_bind, wp_get, wp_ite, wp_throw, wp_set, Nat.not_le]

theorem wp_vPop {Q : BitVec 64 → State ω → Prop} (h : s.vsp ≤ STACK_DEPTH) : wp vPop Q E s ↔
    (s.vsp = 0 → E (.err .stackUnderflow) s) ∧ ∀ n, s.vsp = n + 1 → Q (s.vstack n) { s with vsp := n } := by
  simp only [vPop, wp_bind, wp_get, wp_ite, wp_throw, wp_set, wp_pure]
  refine and_congr_right fun _ => ⟨fun hq n hn => ?_, fun hq hn => ⟨fun hlt => by omega, fun _ => ?_⟩⟩
  · have := (hq (by omega)).2 (by omega)
    rwa [hn] at this
  · exact hq (s.vsp - 1) (by omega)

end

/-! ## Runs -/

section
variable {ω : Type} {s : State ω}

theorem vPop_run {n : Nat} (hn : s.vsp = n + 1) (hd : s.vsp ≤ STACK_DEPTH) :
    vPop s = .ok (s.vstack n) { s with vsp := n } := by
  refine Hoare.eq_of_wp ((wp_vPop hd).mpr ⟨fun h0 => by omega, fun k hk => ?_⟩)
  obtain rfl : n = k := by omega
  rfl

theorem setPc_run {pc : Nat} {fr : Frame} {rest : List Frame} (hfr : s.frames = fr :: rest) :
    setPc pc s = .ok () { s with frames := { fr with pc } :: rest } := by
  simp only [setPc, setFrame, bind, EStateM.bind, Hoare.get_run, hfr]
  rfl

end

/-! ## Effects -/

def Frame.sig (fr : Frame) : Frame := { fr with locals := fun _ => 0 }

theorem Frame.sig_eq {fr fr' : Frame} (h : fr'.sig = fr.sig) : fr'.bodyIdx = fr.bodyIdx ∧ fr'.pc = fr.pc ∧
    fr'.localCount = fr.localCount ∧ fr'.ctrlBase = fr.ctrlBase ∧ fr'.vspBase = fr.vspBase ∧
    fr'.resultCount = fr.resultCount := by
  simpa [Frame.sig, Frame.mk.injEq] using h

/-- From `s₀` to `s`, `p` slots were popped and `q` slots pushed in their place. -/
structure Eff {ω : Type} (memLen : Nat) (s₀ : State ω) (p q : Nat) (s : State ω) : Prop where
  enough : p ≤ s₀.vsp
  vsp : s.vsp + p = s₀.vsp + q
  depth : s.vsp ≤ STACK_DEPTH
  below : ∀ i < s₀.vsp - p, s.vstack i = s₀.vstack i
  frames : s.frames.map Frame.sig = s₀.frames.map Frame.sig
  ctrl : s.ctrl = s₀.ctrl
  ctrlDepth : s.ctrlDepth = s₀.ctrlDepth
  yieldRequested : s.yieldRequested = s₀.yieldRequested
  pages : s.currentPages = s₀.currentPages ∧ s.activeMem = s₀.activeMem ∨
    s.currentPages * PAGE_SIZE ≤ memLen ∧ s.activeMem = s.currentPages * PAGE_SIZE

/-- From `s₀` an instruction with `p` operands failed: for a trap, for lack of room or of operands. -/
def Fails {ω : Type} (memLen : Nat) (s₀ : State ω) (p : Nat) (e : Fault InterpError) (s : State ω) : Prop :=
  ∃ err, e = .err err ∧ (∃ p' q', Eff memLen s₀ p' q' s) ∧
    (err.IsTrap ∨ err = .stackOverflow ∨ err = .stackUnderflow ∧ s₀.vsp < p)

/-- An instruction that pops `p` slots and pushes `q`. -/
def Straight {ω α : Type} (memLen : Nat) (s₀ : State ω) (p q : Nat) (m : Interp ω α) (Q : α → Prop) : Prop :=
  wp m (fun a s => Eff memLen s₀ p q s ∧ Q a) (Fails memLen s₀ p) s₀

section
variable {ω α β : Type} {memLen : Nat} {s₀ s : State ω} {p q : Nat}

theorem Eff.refl (h : s₀.vsp ≤ STACK_DEPTH) : Eff memLen s₀ 0 0 s₀ :=
  ⟨Nat.zero_le _, rfl, h, fun _ _ => rfl, rfl, rfl, rfl, rfl, .inl ⟨rfl, rfl⟩⟩

theorem Eff.trap (h : Eff memLen s₀ p q s) (err : InterpError) (ht : err.IsTrap) (P : Nat) :
    Fails memLen s₀ P (.err err) s := ⟨err, rfl, ⟨p, q, h⟩, .inl ht⟩

theorem Eff.vPush {P : Nat} {Q : Unit → State ω → Prop} {v : BitVec 64} (h : Eff memLen s₀ p q s)
    (hQ : ∀ s', Eff memLen s₀ p (q + 1) s' → Q () s') : wp (vPush v) Q (Fails memLen s₀ P) s := by
  refine wp_vPush.mpr ⟨fun _ => ⟨_, rfl, ⟨p, q, h⟩, .inr (.inl rfl)⟩, fun hlt => hQ _ ?_⟩
  refine ⟨h.enough, ?_, hlt, fun i hi => ?_, h.frames, h.ctrl, h.ctrlDepth, h.yieldRequested, h.pages⟩
  · have := h.vsp; simp only; omega
  · have := h.vsp
    simp only
    rw [upd_of_ne _ _ (by omega), h.below i hi]

theorem Eff.vPop {P : Nat} {Q : BitVec 64 → State ω → Prop} (h : Eff memLen s₀ p 0 s) (hP : p < P)
    (hQ : ∀ v s', Eff memLen s₀ (p + 1) 0 s' → Q v s') : wp vPop Q (Fails memLen s₀ P) s := by
  have hv := h.vsp
  have he := h.enough
  refine (wp_vPop h.depth).mpr ⟨fun h0 => ?_, fun n hn => hQ _ _ ?_⟩
  · exact ⟨_, rfl, ⟨p, 0, h⟩, .inr (.inr ⟨rfl, by omega⟩)⟩
  · exact ⟨by omega, by simp only; omega, by have := h.depth; simp only; omega, fun i hi =>
      h.below i (by omega), h.frames,
      h.ctrl, h.ctrlDepth, h.yieldRequested, h.pages⟩

theorem Eff.set_mem (h : Eff memLen s₀ p q s) (mem : Nat → UInt8) : Eff memLen s₀ p q { s with mem } :=
  ⟨h.enough, h.vsp, h.depth, h.below, h.frames, h.ctrl, h.ctrlDepth, h.yieldRequested, h.pages⟩

end

/-! ## Straight-line instructions -/

/-- The accessible memory is a number of pages of the linear memory. -/
structure PagesOk {ω : Type} (memLen : Nat) (s : State ω) : Prop where
  active : s.activeMem = s.currentPages * PAGE_SIZE
  within : s.currentPages * PAGE_SIZE ≤ memLen

theorem Eff.pagesOk {ω : Type} {memLen p q : Nat} {s₀ s : State ω} (h : Eff memLen s₀ p q s)
    (h₀ : PagesOk memLen s₀) :
    PagesOk memLen s := by
  rcases h.pages with ⟨hp, ha⟩ | ⟨hw, ha⟩
  · exact ⟨by rw [ha, hp]; exact h₀.active, by rw [hp]; exact h₀.within⟩
  · exact ⟨ha, hw⟩

section
variable {ω : Type} {code : Code (HostFn ω)}

theorem wp_pushResult {memLen p P : Nat} {s₀ s : State ω} (he : Eff memLen s₀ p 0 s)
    (r : Except NumTrap (BitVec 64)) :
    wp (pushResult r) (fun _ s => Eff memLen s₀ p 1 s ∧ True) (Fails memLen s₀ P) s := by
  cases r with
  | ok v => exact he.vPush fun s' hs' => ⟨hs', trivial⟩
  | error t => exact he.trap _ (by cases t <;> exact trivial) P

theorem wp_memSlice {lo hi : Nat} {s : State ω} {Q : Unit → State ω → Prop} {E : Fault InterpError → State ω → Prop}
    (hlo : lo ≤ hi) (hhi : hi ≤ code.memLen) : wp (memSlice code lo hi) Q E s ↔ Q () s := by
  rw [memSlice, if_pos ⟨hlo, hhi⟩, wp_pure]

/-- An access that passes the bounds check lies in the accessible memory. -/
theorem le_of_inBounds {w ea active : Nat} (hb : ¬ outOfBounds w ea active = true) : ea + w ≤ active := by
  unfold outOfBounds at hb
  split at hb <;> simp at hb <;> omega

/-- A range that passes the saturating check lies in the accessible memory. -/
theorem add_le_of_satAdd {a n active : Nat} (hlt : active < usizeMax) (hb : ¬ active < satAdd a n) :
    a + n ≤ active := by
  unfold satAdd at hb
  omega

end

/-- Operands and results of a numeric instruction. -/
def NumOp.arity : NumOp → Nat × Nat
  | .un _ => (1, 1)
  | .bin _ => (2, 1)

section
variable {ω : Type} {code : Code (HostFn ω)} {s₀ : State ω} (h : s₀.vsp ≤ STACK_DEPTH)
include h

theorem straight_num (op : NumOp) : Straight code.memLen s₀ op.arity.1 op.arity.2 (execNum op) fun _ => True := by
  cases op with
  | un f =>
    refine (wp_bind _).mpr ((Eff.refl h).vPop Nat.one_pos fun a s hs => ?_)
    exact wp_pushResult hs (f a)
  | bin f =>
    refine (wp_bind _).mpr ((Eff.refl h).vPop Nat.two_pos fun b s hs => ?_)
    refine (wp_bind _).mpr (hs.vPop Nat.one_lt_two fun a s hs => ?_)
    exact wp_pushResult hs (f a b)

theorem straight_memoryGrow (hlen : code.memLen < 2 ^ 47) :
    Straight code.memLen s₀ 1 1 (execMemoryGrow code) fun _ => True := by
  refine (wp_bind _).mpr ((Eff.refl h).vPop (by decide) fun delta s hs => ?_)
  refine (wp_bind _).mpr (wp_get.mpr (wp_ite.mpr ⟨fun hmax => ?_, fun _ => hs.vPush fun s' hs' => ⟨hs', trivial⟩⟩))
  have hin : (s.currentPages + (lo32 delta).toNat) * PAGE_SIZE ≤ code.memLen := by
    have hdiv : code.memLen / PAGE_SIZE < 2 ^ 31 := Nat.div_lt_of_lt_mul hlen
    have hmin : s.currentPages + (lo32 delta).toNat ≤ code.memLen / PAGE_SIZE := by
      rw [Nat.min_def, u32Max] at hmax
      split at hmax <;> omega
    exact (Nat.le_div_iff_mul_le (by decide)).mp hmin
  refine (wp_bind _).mpr ((wp_memSlice (Nat.mul_le_mul_right _ (Nat.le_add_right _ _)) hin).mpr ?_)
  refine (wp_bind _).mpr ((wp_set _).mpr (Eff.vPush (p := 1) (q := 0) ?_ fun s' hs' => ⟨hs', trivial⟩))
  exact ⟨hs.enough, hs.vsp, hs.depth, hs.below, hs.frames, hs.ctrl, hs.ctrlDepth, hs.yieldRequested,
    .inr ⟨hin, rfl⟩⟩

variable (hp : PagesOk code.memLen s₀)
include hp

theorem straight_load {body : List UInt8} {pc w offset pc' : Nat} {ext : Nat → BitVec 64}
    (hr : readMemarg body pc = .ok (offset, pc')) :
    Straight code.memLen s₀ 1 1 (execLoad code body pc w ext) (· = pc') := by
  refine (wp_bind _).mpr ((wp_lift_ok hr).mpr ((wp_bind _).mpr ((Eff.refl h).vPop (by decide) fun addr s hs => ?_)))
  refine (wp_bind _).mpr (wp_get.mpr (wp_ite.mpr ⟨fun _ => hs.trap .memOutOfBounds trivial 1, fun hb => ?_⟩))
  have hin := le_of_inBounds hb
  have hps := hs.pagesOk hp
  rw [hps.active] at hin
  refine (wp_bind _).mpr ((wp_memSlice (by omega) (Nat.le_trans hin hps.within)).mpr ?_)
  exact (wp_bind _).mpr (hs.vPush fun s' hs' => wp_pure _ |>.mpr ⟨hs', rfl⟩)

theorem straight_store {body : List UInt8} {pc w offset pc' : Nat} (hr : readMemarg body pc = .ok (offset, pc')) :
    Straight code.memLen s₀ 2 0 (execStore code body pc w) (· = pc') := by
  refine (wp_bind _).mpr ((wp_lift_ok hr).mpr ((wp_bind _).mpr ((Eff.refl h).vPop (by decide) fun val s hs => ?_)))
  refine (wp_bind _).mpr (hs.vPop (by decide) fun addr s hs => ?_)
  refine (wp_bind _).mpr (wp_get.mpr (wp_ite.mpr ⟨fun _ => hs.trap .memOutOfBounds trivial 2, fun hb => ?_⟩))
  have hin := le_of_inBounds hb
  have hps := hs.pagesOk hp
  rw [hps.active] at hin
  refine (wp_bind _).mpr ((wp_memSlice (by omega) (Nat.le_trans hin hps.within)).mpr ?_)
  exact (wp_bind _).mpr ((wp_set _).mpr (wp_pure _ |>.mpr ⟨hs.set_mem _, rfl⟩))

variable (hlen : code.memLen < 2 ^ 47)
include hlen

theorem straight_memoryCopy : Straight code.memLen s₀ 3 0 (execMemoryCopy code) fun _ => True := by
  refine (wp_bind _).mpr ((Eff.refl h).vPop (by decide) fun n s hs => ?_)
  refine (wp_bind _).mpr (hs.vPop (by decide) fun src s hs => ?_)
  refine (wp_bind _).mpr (hs.vPop (by decide) fun dst s hs => ?_)
  refine (wp_bind _).mpr (wp_get.mpr (wp_ite.mpr ⟨fun _ => hs.trap .memOutOfBounds trivial 3, fun hb => ?_⟩))
  have hps := hs.pagesOk hp
  have hactive : s.activeMem ≤ code.memLen := hps.active ▸ hps.within
  rw [not_or] at hb
  have hsrc := add_le_of_satAdd (by unfold usizeMax; omega) hb.1
  have hdst := add_le_of_satAdd (by unfold usizeMax; omega) hb.2
  refine (wp_bind _).mpr ((wp_memSlice (by omega) (by omega)).mpr ?_)
  refine (wp_bind _).mpr ((wp_memSlice (by omega) (by omega)).mpr ?_)
  exact (wp_set _).mpr ⟨hs.set_mem _, trivial⟩

theorem straight_memoryFill : Straight code.memLen s₀ 3 0 (execMemoryFill code) fun _ => True := by
  refine (wp_bind _).mpr ((Eff.refl h).vPop (by decide) fun n s hs => ?_)
  refine (wp_bind _).mpr (hs.vPop (by decide) fun val s hs => ?_)
  refine (wp_bind _).mpr (hs.vPop (by decide) fun dst s hs => ?_)
  refine (wp_bind _).mpr (wp_get.mpr (wp_ite.mpr ⟨fun _ => hs.trap .memOutOfBounds trivial 3, fun hb => ?_⟩))
  have hps := hs.pagesOk hp
  have hactive : s.activeMem ≤ code.memLen := hps.active ▸ hps.within
  have hdst := add_le_of_satAdd (by unfold usizeMax; omega) hb
  refine (wp_bind _).mpr ((wp_memSlice (by omega) (by omega)).mpr ?_)
  exact (wp_set _).mpr ⟨hs.set_mem _, trivial⟩

end

/-! ## Dispatch -/

/-- The straight-line instructions with their immediates: opcode, position after the instruction,
operands and results. -/
inductive Straightline {ω : Type} (code : Code (HostFn ω)) (fr : Frame) (body : List UInt8) (pc : Nat) :
    Opc → Nat → Nat → Nat → Prop
  | nop : Straightline code fr body pc .nop pc 0 0
  | drop : Straightline code fr body pc .drop pc 1 0
  | select : Straightline code fr body pc .select pc 3 1
  | localGet {idx pc' : Nat} : readU32 body InterpError.malformedCode pc = .ok (idx, pc') → idx < fr.localCount →
      Straightline code fr body pc .localGet pc' 0 1
  | localSet {idx pc' : Nat} : readU32 body InterpError.malformedCode pc = .ok (idx, pc') → idx < fr.localCount →
      Straightline code fr body pc .localSet pc' 1 0
  | localTee {idx pc' : Nat} : readU32 body InterpError.malformedCode pc = .ok (idx, pc') → idx < fr.localCount →
      Straightline code fr body pc .localTee pc' 1 1
  | globalGet {idx pc' : Nat} : readU32 body InterpError.malformedCode pc = .ok (idx, pc') →
      idx < code.globalMutable.length → Straightline code fr body pc .globalGet pc' 0 1
  | globalSet {idx pc' : Nat} : readU32 body InterpError.malformedCode pc = .ok (idx, pc') →
      code.globalMutable[idx]? = some true → Straightline code fr body pc .globalSet pc' 1 0
  | load {w offset pc' : Nat} {ext : Nat → BitVec 64} : readMemarg body pc = .ok (offset, pc') →
      Straightline code fr body pc (.load w ext) pc' 1 1
  | store {w offset pc' : Nat} : readMemarg body pc = .ok (offset, pc') →
      Straightline code fr body pc (.store w) pc' 2 0
  | memorySize : Straightline code fr body pc .memorySize (pc + 1) 0 1
  | memoryGrow : Straightline code fr body pc .memoryGrow (pc + 1) 1 1
  | i32Const {v : BitVec 32} {pc' : Nat} : readI32 body InterpError.malformedCode pc = .ok (v, pc') →
      Straightline code fr body pc .i32Const pc' 0 1
  | i64Const {v : BitVec 64} {pc' : Nat} : readI64 body InterpError.malformedCode pc = .ok (v, pc') →
      Straightline code fr body pc .i64Const pc' 0 1
  | floatConst {w : Nat} : pc + w ≤ body.length → Straightline code fr body pc (.floatConst w) (pc + w) 0 1
  | num (op : NumOp) : Straightline code fr body pc (.num op) pc op.arity.1 op.arity.2
  | truncSat {sub pc' : Nat} : readU32 body InterpError.malformedCode pc = .ok (sub, pc') → sub < 8 →
      Straightline code fr body pc .bulk pc' 1 1
  | dataDrop {seg pc' pc'' : Nat} : readU32 body InterpError.malformedCode pc = .ok (9, pc') →
      readU32 body InterpError.malformedCode pc' = .ok (seg, pc'') → Straightline code fr body pc .bulk pc'' 0 0
  | memoryCopy {pc' : Nat} : readU32 body InterpError.malformedCode pc = .ok (10, pc') →
      Straightline code fr body pc .bulk (pc' + 2) 3 0
  | memoryFill {pc' : Nat} : readU32 body InterpError.malformedCode pc = .ok (11, pc') →
      Straightline code fr body pc .bulk (pc' + 1) 3 0

section
variable {body : List UInt8} {pc : Nat} (hfit : Fits body)
include hfit

theorem readMemarg_cases (hpc : pc ≤ body.length) : readMemarg body pc = .error (.err .malformedCode) ∨
    ∃ offset pc', readMemarg body pc = .ok (offset, pc') := by
  unfold readMemarg
  rcases readU32_cases (e := InterpError.malformedCode) hfit hpc with hr | ⟨_, pc', hr, hpc'⟩
  · exact .inl (by rw [hr]; rfl)
  rw [hr]
  rcases readU32_cases (e := InterpError.malformedCode) hfit hpc' with hr' | ⟨offset, pc'', hr', _⟩
  · exact .inl hr'
  · exact .inr ⟨offset, pc'', hr'⟩

theorem blockTargets_cases {ω : Type} {code : Code (HostFn ω)} {bodyIdx : Nat}
    (hj : jumpLookup code.jumpTable bodyIdx pc ≠ .error .hang) :
    blockTargets code bodyIdx body pc = .error (.err .malformedCode) ∨
    ∃ t, blockTargets code bodyIdx body pc = .ok t := by
  unfold blockTargets
  cases hl : jumpLookup code.jumpTable bodyIdx pc with
  | error e =>
    cases e with
    | err e => exact e.elim
    | hang => exact absurd hl hj
    | panic =>
      unfold jumpLookup at hl
      split at hl
      · cases hl
      · simp only at hl
        split at hl <;> cases hl
  | ok r =>
    cases r with
    | some t => exact .inr ⟨t, rfl⟩
    | none =>
      rw [mapErr_ok, bind_ok, scanBlockEnd_checked hfit]
      cases scanBlockEnd body pc with
      | none => exact .inl rfl
      | some t => exact .inr ⟨t, rfl⟩

theorem brTable_cases {sel : Nat} : ∀ (n k pos target : Nat), pos ≤ body.length →
    iter (brTable.step body sel) n (k, pos, target) = .error (.err .malformedCode) ∨
    ∃ r, iter (brTable.step body sel) n (k, pos, target) = .ok r
  | 0, k, pos, target, _ => .inr ⟨_, rfl⟩
  | n + 1, k, pos, target, hpos => by
    rw [iter, brTable.step]
    rcases readU32_cases (e := InterpError.malformedCode) hfit hpos with hr | ⟨label, pos', hr, hpos'⟩
    · exact .inl (by rw [hr]; rfl)
    · rw [hr, bind_ok]
      exact brTable_cases n (k + 1) pos' _ hpos'

end

section
variable {ω α β : Type} {memLen p q : Nat} {s₀ s : State ω}

theorem Straight.bind {m : Interp ω α} {Q : α → Prop} {f : α → β} {R : β → Prop} (h : Straight memLen s₀ p q m Q)
    (hf : ∀ a, Q a → R (f a)) : Straight memLen s₀ p q (m >>= fun a => pure (f a)) R := by
  refine (wp_bind _).mpr (Hoare.wp_mono ?_ (fun _ _ he => he) h)
  exact fun a s ⟨hs, ha⟩ => wp_pure _ |>.mpr ⟨hs, hf a ha⟩

theorem Eff.setFrame_locals {Q : Unit → State ω → Prop} {E : Fault InterpError → State ω → Prop}
    (h : Eff memLen s₀ p q s) (hne : s₀.frames ≠ []) (f : Frame → (Nat → BitVec 64))
    (hQ : ∀ s', Eff memLen s₀ p q s' → Q () s') : wp (setFrame fun fr => { fr with locals := f fr }) Q E s := by
  have hfr := h.frames
  refine (wp_bind _).mpr (wp_get.mpr ?_)
  cases hs : s.frames with
  | nil =>
    rw [hs] at hfr
    exact absurd (List.map_eq_nil_iff.mp hfr.symm) hne
  | cons fr rest =>
    rw [hs] at hfr
    exact (wp_set _).mpr (hQ _ ⟨h.enough, h.vsp, h.depth, h.below, hfr, h.ctrl, h.ctrlDepth,
      h.yieldRequested, h.pages⟩)

end

section
variable {ω : Type} {code : Code (HostFn ω)} {F : FloatOps} {fr : Frame} {body : List UInt8} {pc : Nat}
  {s₀ : State ω}
variable (h : s₀.vsp ≤ STACK_DEPTH) (hp : PagesOk code.memLen s₀) (hlen : code.memLen < 2 ^ 47)
include h hp hlen

theorem dispatch_straight (hne : s₀.frames ≠ []) (hl : fr.localCount ≤ MAX_LOCALS)
    (hg : code.globalMutable.length ≤ MAX_GLOBALS) {op : Opc} {pc' p q : Nat}
    (hop : Straightline code fr body pc op pc' p q) :
    Straight code.memLen s₀ p q (dispatch code F fr body pc op) (· = .seq pc') := by
  have h0 : Eff code.memLen s₀ 0 0 s₀ := Eff.refl h
  cases hop with
  | nop => exact ⟨h0, rfl⟩
  | drop => exact (wp_bind _).mpr (h0.vPop (by decide) fun _ s hs => wp_pure _ |>.mpr ⟨hs, rfl⟩)
  | select =>
    refine (wp_bind _).mpr (h0.vPop (by decide) fun cond s hs => ?_)
    refine (wp_bind _).mpr (hs.vPop (by decide) fun b s hs => ?_)
    refine (wp_bind _).mpr (hs.vPop (by decide) fun a s hs => ?_)
    exact (wp_bind _).mpr (hs.vPush fun s hs => wp_pure _ |>.mpr ⟨hs, rfl⟩)
  | @localGet idx _ hr hi =>
    refine (wp_bind _).mpr ((wp_lift_ok hr).mpr (wp_ite.mpr ⟨fun hc => by omega, fun _ => ?_⟩))
    refine wp_ite.mpr ⟨fun hc => by omega, fun _ => ?_⟩
    exact (wp_bind _).mpr (h0.vPush fun s hs => wp_pure _ |>.mpr ⟨hs, rfl⟩)
  | @localSet idx _ hr hi =>
    refine (wp_bind _).mpr ((wp_lift_ok hr).mpr (wp_ite.mpr ⟨fun hc => by omega, fun _ => ?_⟩))
    refine (wp_bind _).mpr (h0.vPop (by decide) fun v s hs => ?_)
    refine wp_ite.mpr ⟨fun hc => by omega, fun _ => ?_⟩
    exact (wp_bind _).mpr (hs.setFrame_locals hne _ fun s hs => wp_pure _ |>.mpr ⟨hs, rfl⟩)
  | @localTee idx _ hr hi =>
    refine (wp_bind _).mpr ((wp_lift_ok hr).mpr (wp_ite.mpr ⟨fun hc => by omega, fun _ => ?_⟩))
    refine (wp_bind _).mpr (wp_get.mpr (wp_ite.mpr ⟨fun hc => ?_, fun hc => ?_⟩))
    · exact ⟨_, rfl, ⟨0, 0, h0⟩, .inr (.inr ⟨rfl, by omega⟩)⟩
    refine wp_ite.mpr ⟨fun hc' => by omega, fun _ => ?_⟩
    -- the slot on top is read in place: popped and pushed back
    have h1 : Eff code.memLen s₀ 1 1 s₀ :=
      ⟨by omega, rfl, h, fun _ _ => rfl, rfl, rfl, rfl, rfl, .inl ⟨rfl, rfl⟩⟩
    exact (wp_bind _).mpr (h1.setFrame_locals hne _ fun s hs => wp_pure _ |>.mpr ⟨hs, rfl⟩)
  | @globalGet idx _ hr hi =>
    refine (wp_bind _).mpr ((wp_lift_ok hr).mpr (wp_ite.mpr ⟨fun hc => by omega, fun _ => ?_⟩))
    refine wp_ite.mpr ⟨fun hc => by omega, fun _ => (wp_bind _).mpr (wp_get.mpr ?_)⟩
    exact (wp_bind _).mpr (h0.vPush fun s hs => wp_pure _ |>.mpr ⟨hs, rfl⟩)
  | @globalSet idx _ hr hm =>
    have hi : idx < code.globalMutable.length := by
      by_contra hc
      rw [List.getElem?_eq_none (by omega)] at hm
      cases hm
    have ht : (tableAt MAX_GLOBALS code.globalMutable false idx : Rust InterpError Bool) = .ok true := by
      rw [tableAt, if_pos (by omega), List.getD_eq_getElem?_getD, hm]; rfl
    refine (wp_bind _).mpr ((wp_lift_ok hr).mpr (wp_ite.mpr ⟨fun hc => by omega, fun _ => ?_⟩))
    refine (wp_bind _).mpr ((wp_lift_ok ht).mpr (wp_ite.mpr ⟨fun hc => absurd rfl hc, fun _ => ?_⟩))
    refine (wp_bind _).mpr (h0.vPop (by decide) fun v s hs => ?_)
    exact (wp_bind _).mpr ((wp_modify _).mpr (wp_pure _ |>.mpr ⟨⟨hs.enough, hs.vsp, hs.depth, hs.below, hs.frames,
      hs.ctrl, hs.ctrlDepth, hs.yieldRequested, hs.pages⟩, rfl⟩))
  | load hr => exact (straight_load h hp hr).bind fun _ => congrArg Next.seq
  | store hr => exact (straight_store h hp hr).bind fun _ => congrArg Next.seq
  | memorySize =>
    refine (wp_bind _).mpr (wp_get.mpr ?_)
    exact (wp_bind _).mpr (h0.vPush fun s hs => wp_pure _ |>.mpr ⟨hs, rfl⟩)
  | memoryGrow => exact (straight_memoryGrow h hlen).bind fun _ _ => rfl
  | i32Const hr =>
    refine (wp_bind _).mpr ((wp_lift_ok hr).mpr ?_)
    exact (wp_bind _).mpr (h0.vPush fun s hs => wp_pure _ |>.mpr ⟨hs, rfl⟩)
  | i64Const hr =>
    refine (wp_bind _).mpr ((wp_lift_ok hr).mpr ?_)
    exact (wp_bind _).mpr (h0.vPush fun s hs => wp_pure _ |>.mpr ⟨hs, rfl⟩)
  | floatConst hw =>
    refine wp_ite.mpr ⟨fun hc => by omega, fun _ => ?_⟩
    exact (wp_bind _).mpr (h0.vPush fun s hs => wp_pure _ |>.mpr ⟨hs, rfl⟩)
  | num op => exact (straight_num h op).bind fun _ _ => rfl
  | truncSat hr hsub =>
    refine Straight.bind (Q := (· = pc')) ?_ fun _ => congrArg Next.seq
    refine (wp_bind _).mpr ((wp_lift_ok hr).mpr (wp_ite.mpr ⟨fun _ => ?_, fun hc => absurd hsub hc⟩))
    refine (wp_bind _).mpr (h0.vPop (by decide) fun a s hs => ?_)
    exact (wp_bind _).mpr (hs.vPush fun s hs => wp_pure _ |>.mpr ⟨hs, rfl⟩)
  | dataDrop hr hr' =>
    refine Straight.bind (Q := (· = pc')) ?_ fun _ => congrArg Next.seq
    refine (wp_bind _).mpr ((wp_lift_ok hr).mpr ?_)
    exact (wp_bind _).mpr ((wp_lift_ok hr').mpr (wp_pure _ |>.mpr ⟨h0, rfl⟩))
  | @memoryCopy n hr =>
    refine Straight.bind (Q := (· = n + 2)) ?_ fun _ => congrArg Next.seq
    exact (wp_bind _).mpr ((wp_lift_ok hr).mpr ((straight_memoryCopy h hp hlen).bind fun _ _ => rfl))
  | @memoryFill n hr =>
    refine Straight.bind (Q := (· = n + 1)) ?_ fun _ => congrArg Next.seq
    exact (wp_bind _).mpr ((wp_lift_ok hr).mpr ((straight_memoryFill h hp hlen).bind fun _ _ => rfl))

omit hp hlen in
/-- `memory.init` pops its operands; with a length other than zero it is not supported. -/
theorem dispatch_memoryInit {seg pc' pc'' : Nat} (hr : readU32 body InterpError.malformedCode pc = .ok (8, pc'))
    (hr' : readU32 body InterpError.malformedCode pc' = .ok (seg, pc'')) :
    wp (dispatch code F fr body pc .bulk) (fun next s => Eff code.memLen s₀ 3 0 s ∧ next = .seq (pc'' + 1))
      (fun e s => ∃ err, e = .err err ∧ ∃ p q, Eff code.memLen s₀ p q s) s₀ := by
  have hfail : ∀ e s, Fails code.memLen s₀ 3 e s → ∃ err, e = .err err ∧ ∃ p q, Eff code.memLen s₀ p q s :=
    fun e s ⟨err, he, heff, _⟩ => ⟨err, he, heff⟩
  have h0 : Eff code.memLen s₀ 0 0 s₀ := Eff.refl h
  refine (wp_bind _).mpr
    ((wp_bind _).mpr ((wp_lift_ok hr).mpr (wp_ite.mpr ⟨fun hlt => absurd hlt (by decide), fun _ => ?_⟩)))
  refine wp_ite.mpr ⟨fun _ => (wp_bind _).mpr ((wp_lift_ok hr').mpr ((wp_bind _).mpr ?_)), fun hne =>
    absurd rfl hne⟩
  refine Hoare.wp_mono (fun _ _ h => h) hfail (h0.vPop (by decide) fun count s hs => (wp_bind _).mpr ?_)
  refine Hoare.wp_mono (fun _ _ h => h) hfail (hs.vPop (by decide) fun _ s hs => (wp_bind _).mpr ?_)
  refine Hoare.wp_mono (fun _ _ h => h) hfail (hs.vPop (by decide) fun _ s hs =>
    wp_ite.mpr ⟨fun _ => ?_, fun _ => ?_⟩)
  · exact ⟨_, rfl, 3, 0, hs⟩
  · exact wp_pure _ |>.mpr ⟨hs, rfl⟩

end

/-! ## Calls -/

section
variable {ω : Type}

theorem popParams_wp : ∀ (n : Nat) (s : State ω) (locals : Nat → BitVec 64), s.vsp ≤ STACK_DEPTH → n ≤ MAX_LOCALS →
    wp (popParams n locals)
      (fun locals' s' => ∃ m, s.vsp = m + n ∧ s' = { s with vsp := m } ∧
        locals' = fun i => if i < n then s.vstack (m + i) else locals i)
      (fun e s' => e = .err .stackUnderflow ∧ s.vsp < n ∧ ∃ m ≤ s.vsp, s' = { s with vsp := m }) s
  | 0, s, locals, _, _ => ⟨s.vsp, rfl, rfl, by simp⟩
  | n + 1, s, locals, hv, hn => by
    refine (wp_bind _).mpr ((wp_vPop hv).mpr ⟨fun h0 => ⟨rfl, by omega, s.vsp, Nat.le_refl _, rfl⟩, fun k hk => ?_⟩)
    refine wp_ite.mpr ⟨fun hbad => by omega, fun _ => ?_⟩
    refine Hoare.wp_mono ?_ ?_ (popParams_wp n { s with vsp := k } _ (by simp only; omega) (by omega))
    · rintro locals' s' ⟨m, hm, rfl, rfl⟩
      simp only at hm
      refine ⟨m, by omega, rfl, funext fun i => ?_⟩
      by_cases hi : i < n
      · rw [if_pos hi, if_pos (by omega)]
      · by_cases hin : i = n
        · subst hin
          rw [if_neg hi, if_pos (by omega), upd_self, hm]
        · rw [if_neg hi, if_neg (by omega), upd_of_ne _ _ hin]
    · rintro e s' ⟨rfl, hlt, m, hm, rfl⟩
      simp only at hlt hm
      exact ⟨rfl, by omega, m, by omega, rfl⟩

variable (code : Code (HostFn ω))

/-- Parameters and results of a body, zero for a type that is not there. -/
def bodyArity (bodyIdx : Nat) : Nat × Nat := code.types.getD (code.funcTypeIndices.getD bodyIdx 0) (0, 0)

/-- The frame of a call with the first argument in slot `base`. -/
def calleeFrame (bodyIdx base : Nat) (s : State ω) : Frame :=
  { bodyIdx, pc := 0
    locals := fun i => if i < (bodyArity code bodyIdx).1 then s.vstack (base + i) else 0
    localCount := (bodyArity code bodyIdx).1 + code.localCounts.getD bodyIdx 0
    ctrlBase := s.ctrlDepth, vspBase := base, resultCount := (bodyArity code bodyIdx).2 }

theorem pushFrame_wp {bodyIdx : Nat} {s : State ω} (hidx : bodyIdx < MAX_FUNCS) (hv : s.vsp ≤ STACK_DEPTH) :
    wp (pushFrame code bodyIdx)
      (fun _ s' => ∃ base, s.vsp = base + (bodyArity code bodyIdx).1 ∧ s.frames.length < CALL_DEPTH ∧
        (calleeFrame code bodyIdx base s).localCount ≤ MAX_LOCALS ∧
        s' = { s with vsp := base, frames := calleeFrame code bodyIdx base s :: s.frames })
      (fun e s' => (∃ m ≤ s.vsp, s' = { s with vsp := m }) ∧
        (e = .err .callStackOverflow ∨ e = .err .tooManyLocals ∨
        e = .err .stackUnderflow ∧ s.vsp < (bodyArity code bodyIdx).1)) s := by
  have htab : ∀ xs : List Nat, (tableAt MAX_FUNCS xs 0 bodyIdx : Rust InterpError Nat) = .ok (xs.getD bodyIdx 0) :=
    fun xs => if_pos hidx
  have hsame : ∃ m ≤ s.vsp, s = { s with vsp := m } := ⟨s.vsp, Nat.le_refl _, rfl⟩
  refine (wp_bind _).mpr (wp_get.mpr (wp_ite.mpr ⟨fun _ => ⟨hsame, .inl rfl⟩, fun hdepth => ?_⟩))
  refine (wp_bind _).mpr ((wp_lift_ok (htab _)).mpr ((wp_bind _).mpr ((wp_lift_ok (htab _)).mpr ?_)))
  refine wp_ite.mpr ⟨fun _ => ⟨hsame, .inr (.inl rfl)⟩, fun hlocals => (wp_bind _).mpr ?_⟩
  refine Hoare.wp_mono ?_ ?_ (popParams_wp _ s _ hv (by omega))
  · rintro locals s' ⟨base, hbase, rfl, rfl⟩
    exact (wp_modify _).mpr ⟨base, hbase, by omega, Nat.le_of_not_lt hlocals, rfl⟩
  · rintro e s' ⟨rfl, hlt, hm⟩
    exact ⟨hm, .inr (.inr ⟨rfl, hlt⟩)⟩

theorem pushFrame_run {bodyIdx base : Nat} {s : State ω} (hidx : bodyIdx < MAX_FUNCS) (hv : s.vsp ≤ STACK_DEPTH)
    (hbase : s.vsp = base + (bodyArity code bodyIdx).1) (hdepth : s.frames.length < CALL_DEPTH)
    (hmax : (calleeFrame code bodyIdx base s).localCount ≤ MAX_LOCALS) :
    pushFrame code bodyIdx s =
    .ok () { s with vsp := base, frames := calleeFrame code bodyIdx base s :: s.frames } := by
  have htab : ∀ xs : List Nat, (tableAt MAX_FUNCS xs 0 bodyIdx : Rust InterpError Nat) = .ok (xs.getD bodyIdx 0) :=
    fun xs => if_pos hidx
  refine Hoare.eq_of_wp ((wp_bind _).mpr (wp_get.mpr (wp_ite.mpr ⟨fun hfull => by omega, fun _ => ?_⟩)))
  refine (wp_bind _).mpr ((wp_lift_ok (htab _)).mpr ((wp_bind _).mpr ((wp_lift_ok (htab _)).mpr ?_)))
  refine wp_ite.mpr ⟨fun hbad => absurd hmax (Nat.not_le.mpr hbad), fun hlocals => (wp_bind _).mpr ?_⟩
  refine Hoare.wp_mono ?_ ?_ (popParams_wp _ s _ hv (by omega))
  · rintro locals s' ⟨m, hm, rfl, rfl⟩
    obtain rfl : m = base := Nat.add_right_cancel (hm.symm.trans hbase)
    rfl
  · rintro e s' ⟨rfl, hlt, _⟩
    exact absurd hlt (Nat.not_lt.mpr (by rw [hbase]; exact Nat.le_add_left _ _))

theorem wp_callHost {h : HostFn ω} {Q : Unit → State ω → Prop} {E : Fault InterpError → State ω → Prop}
    {s : State ω} :
    wp (callHost code h) Q E s ↔
      wp (h code.memLen) (fun _ v => Q () (s.withView v)) (fun e v => E e (s.withView v)) s.view := by
  unfold wp callHost
  cases h code.memLen s.view <;> rfl

end

/-! ## Rounds -/

section
variable {ω : Type} {code : Code (HostFn ω)} {F : FloatOps} {s : State ω} {fr : Frame} {rest : List Frame}

theorem wp_setFrame {Q : Unit → State ω → Prop} {E : Fault InterpError → State ω → Prop} {f : Frame → Frame}
    (hfr : s.frames = fr :: rest) : wp (setFrame f) Q E s ↔ Q () { s with frames := f fr :: rest } := by
  unfold setFrame
  simp only [wp_bind, wp_get, hfr, wp_set]

theorem wp_setPc {Q : Unit → State ω → Prop} {E : Fault InterpError → State ω → Prop} {pc : Nat}
    (hfr : s.frames = fr :: rest) : wp (setPc pc) Q E s ↔ Q () { s with frames := { fr with pc } :: rest } :=
  wp_setFrame hfr

theorem wp_seq {Q : Unit → State ω → Prop} {E : Fault InterpError → State ω → Prop} {pc : Nat}
    (hfr : s.frames = fr :: rest) (h : Q () { s with frames := { fr with pc } :: rest }) :
    wp (pure (Next.seq pc)) (fun next s' => wp (finish code next) Q E s') E s :=
  (wp_setPc hfr).mpr h

variable {body : List UInt8} (hy : s.yieldRequested = false) (hfr : s.frames = fr :: rest)
  (hbody : code.bodies[fr.bodyIdx]? = some body) (hidx : fr.bodyIdx < MAX_FUNCS)
include hy hfr hbody hidx

theorem step_dispatch {b : UInt8} (hop : body[fr.pc]? = some b) :
    step code F s = (dispatch code F fr body (fr.pc + 1) (decodeOp F b) >>= finish code) s := by
  have htab : (tableAt MAX_FUNCS code.bodies [] fr.bodyIdx : Rust InterpError (List UInt8)) = .ok body := by
    rw [tableAt, if_pos hidx, List.getD_eq_getElem?_getD, hbody]; rfl
  simp only [step, topFrame, bind, EStateM.bind, Hoare.get_run, hy, Bool.false_eq_true,
    if_false, hfr, pure, EStateM.pure, lift, htab, hop]

theorem wp_step {b : UInt8} {Q : Unit → State ω → Prop} {E : Fault InterpError → State ω → Prop}
    (hop : body[fr.pc]? = some b)
    (h : wp (dispatch code F fr body (fr.pc + 1) (decodeOp F b) >>= finish code) Q E s) : wp (step code F) Q E s :=
  (Hoare.wp_congr (step_dispatch hy hfr hbody hidx hop)).mpr h

theorem step_end (hop : body.length ≤ fr.pc) : step code F s = doReturn s := by
  have htab : (tableAt MAX_FUNCS code.bodies [] fr.bodyIdx : Rust InterpError (List UInt8)) = .ok body := by
    rw [tableAt, if_pos hidx, List.getD_eq_getElem?_getD, hbody]; rfl
  simp only [step, topFrame, bind, EStateM.bind, Hoare.get_run, hy, Bool.false_eq_true,
    if_false, hfr, pure, EStateM.pure, lift, htab, List.getElem?_eq_none hop]

end

end WasmOs
