import WasmOs.Sandbox
import Mathlib.Tactic.IntervalCases

/-!
# Linear memory

Loads, stores, `memory.copy` and `memory.fill` against what the instructions are for: a range of
bytes given by unsigned 32-bit operands that traps as a whole if it leaves the current pages.
-/

namespace WasmOs

open Hoare (wp wp_bind wp_pure wp_throw wp_get wp_set wp_modify wp_ite wp_mono Keeps keeps_pure
  keeps_throw keeps_bind
  keeps_ite keeps_get keeps_modify)

/-! ## The cached limit

`run` compares addresses with a local that it computes once and that only `memory.grow` updates. No
round, whatever its bytes, lets that local and the current pages come apart. -/

section
variable {ω : Type} {code : Code (HostFn ω)} {F : FloatOps}

/-- What every round keeps, also a round that panics. -/
structure MemSafe (code : Code (HostFn ω)) (s : State ω) : Prop where
  vsp : s.vsp ≤ STACK_DEPTH
  frames : ∀ fr ∈ s.frames, fr.bodyIdx < code.bodies.length ∧ fr.vspBase ≤ STACK_DEPTH
  pages : PagesOk code.memLen s
  yieldRequested : s.yieldRequested = false

structure MemReady (code : Code (HostFn ω)) (s : State ω) : Prop where
  vsp : s.vsp ≤ STACK_DEPTH
  pages : PagesOk code.memLen s
  yieldRequested : s.yieldRequested = false

theorem MemSafe.ready {s : State ω} (h : MemSafe code s) : MemReady code s := ⟨h.vsp, h.pages, h.yieldRequested⟩

/-- What instantiation guarantees of the bodies, whatever the host functions do. -/
structure BodiesOk (code : Code (HostFn ω)) : Prop where
  bodies : code.bodies.length ≤ MAX_FUNCS
  fits : ∀ b ∈ code.bodies, Fits b
  memLen : code.memLen < 2 ^ 47

theorem instantiate_bodiesOk {lookupHost : List UInt8 → List UInt8 → Option (HostFn ω)} {bytes : List UInt8}
    {inst : Instance (HostFn ω)}
    (hfit : Fits bytes) (h : instantiate lookupHost bytes = .ok inst) : BodiesOk inst.code := by
  obtain ⟨hbodies, hfits, _, _, hmem, _⟩ := instantiate_limits hfit h
  exact ⟨hbodies, hfits, by rw [hmem]; decide⟩

theorem MemSafe.set_mem {s : State ω} (h : MemSafe code s) (mem : Nat → UInt8) : MemSafe code { s with mem } :=
  ⟨h.vsp, h.frames, ⟨h.pages.active, h.pages.within⟩, h.yieldRequested⟩

theorem keeps_lift {α : Type} (m : Rust InterpError α) : Keeps (MemSafe code) (lift m) :=
  fun _ h => wp_lift.mpr ⟨fun _ _ => h, fun _ _ => h⟩

theorem keeps_vPush (v : BitVec 64) : Keeps (MemSafe code) (vPush v) := fun _ h =>
  wp_vPush.mpr ⟨fun _ => h, fun hlt => ⟨hlt, h.frames, ⟨h.pages.active, h.pages.within⟩, h.yieldRequested⟩⟩

theorem keeps_vPop : Keeps (MemSafe code) vPop := fun s h =>
  (wp_vPop h.vsp).mpr ⟨fun _ => h, fun n hn => ⟨by have := h.vsp; simp only; omega, h.frames,
    ⟨h.pages.active, h.pages.within⟩, h.yieldRequested⟩⟩

theorem keeps_ctrlPush (cf : CtrlFrame) : Keeps (MemSafe code) (ctrlPush cf) :=
  keeps_get fun _ h =>
    wp_ite.mpr ⟨fun _ => h, fun _ => ⟨h.vsp, h.frames, ⟨h.pages.active, h.pages.within⟩, h.yieldRequested⟩⟩

theorem keeps_setFrame {f : Frame → Frame} (hf : ∀ fr, (f fr).bodyIdx = fr.bodyIdx ∧ (f fr).vspBase = fr.vspBase) :
    Keeps (MemSafe code) (setFrame f) := by
  refine keeps_get fun s h => ?_
  cases hfr : s.frames with
  | nil => exact h
  | cons fr rest =>
    obtain ⟨hvsp, hframes, hpages, hyield⟩ := h
    rw [hfr] at hframes
    refine (wp_set _).mpr ⟨hvsp, fun fr' hfr' => ?_, ⟨hpages.active, hpages.within⟩, hyield⟩
    rcases List.mem_cons.mp hfr' with rfl | hmem
    · rw [(hf fr).1, (hf fr).2]
      exact hframes fr List.mem_cons_self
    · exact hframes fr' (List.mem_cons_of_mem _ hmem)

theorem keeps_setPc (pc : Nat) : Keeps (MemSafe code) (setPc pc) := keeps_setFrame fun _ => ⟨rfl, rfl⟩

theorem keeps_memSlice (lo hi : Nat) : Keeps (MemSafe code) (memSlice code lo hi) :=
  keeps_ite (fun _ => keeps_pure _) fun _ => keeps_throw _

theorem keeps_doReturn : Keeps (MemSafe code) doReturn := by
  refine keeps_get fun s h => ?_
  cases hfr : s.frames with
  | nil => exact h
  | cons fr rest =>
    refine wp_ite.mpr ⟨fun _ => h, fun hin => (wp_set _).mpr ?_⟩
    obtain ⟨hvsp, hframes, hpages, hyield⟩ := h
    rw [hfr] at hframes
    have hbase := (hframes fr List.mem_cons_self).2
    exact ⟨by simp only; omega, fun fr' hfr' => hframes fr' (List.mem_cons_of_mem _ hfr'), 
      ⟨hpages.active, hpages.within⟩, hyield⟩

theorem keeps_doBr (n : Nat) : Keeps (MemSafe code) (doBr n) := by
  refine keeps_get fun s h => ?_
  cases hfr : s.frames with
  | nil => exact h
  | cons fr rest =>
    have hset : ∀ (pc d : Nat), MemSafe code { s with ctrlDepth := d, frames := { fr with pc } :: rest } := by
      intro pc d
      obtain ⟨hvsp, hframes, hpages, hyield⟩ := h
      rw [hfr] at hframes
      refine ⟨hvsp, fun fr' hfr' => ?_, ⟨hpages.active, hpages.within⟩, hyield⟩
      rcases List.mem_cons.mp hfr' with rfl | hmem
      · exact hframes fr List.mem_cons_self
      · exact hframes fr' (List.mem_cons_of_mem _ hmem)
    refine wp_ite.mpr ⟨fun _ => h, fun _ => wp_ite.mpr ⟨fun _ => keeps_doReturn s h, fun _ =>
      wp_ite.mpr ⟨fun _ => h, fun _ => ?_⟩⟩⟩
    simp only
    split
    · exact (wp_set _).mpr (hset _ _)
    · exact (wp_set _).mpr (hset _ _)

theorem keeps_pushResult (r : Except NumTrap (BitVec 64)) : Keeps (MemSafe code) (pushResult r) := by
  cases r with
  | ok v => exact keeps_vPush v
  | error t => exact keeps_throw _

theorem keeps_execNum (op : NumOp) : Keeps (MemSafe code) (execNum op) := by
  cases op with
  | un f => exact keeps_bind keeps_vPop fun a => keeps_pushResult (f a)
  | bin f => exact keeps_bind keeps_vPop fun b => keeps_bind keeps_vPop fun a => keeps_pushResult (f a b)

theorem keeps_execLoad (body : List UInt8) (pc w : Nat) (ext : Nat → BitVec 64) :
    Keeps (MemSafe code) (execLoad code body pc w ext) := by
  refine keeps_bind (keeps_lift _) fun ⟨offset, pc'⟩ => keeps_bind keeps_vPop fun addr => keeps_get fun s h => ?_
  exact keeps_ite (fun _ => keeps_throw _) (fun _ => keeps_bind (keeps_memSlice _ _) fun _ =>
    keeps_bind (keeps_vPush _) fun _ => keeps_pure _) s h

theorem keeps_execStore (body : List UInt8) (pc w : Nat) : Keeps (MemSafe code) (execStore code body pc w) := by
  refine keeps_bind (keeps_lift _) fun ⟨offset, pc'⟩ => keeps_bind keeps_vPop fun val =>
    keeps_bind keeps_vPop fun addr =>
    keeps_get fun s h => ?_
  refine wp_ite.mpr ⟨fun _ => h, fun _ => (wp_bind _).mpr (wp_ite.mpr ⟨fun _ => ?_, fun _ => h⟩)⟩
  exact (wp_pure _).mpr ((wp_bind _).mpr ((wp_set _).mpr (h.set_mem _)))

theorem keeps_execMemoryGrow : Keeps (MemSafe code) (execMemoryGrow code) := by
  refine keeps_bind keeps_vPop fun delta => keeps_get fun s h => ?_
  refine wp_ite.mpr ⟨fun _ => (wp_bind _).mpr (wp_ite.mpr ⟨fun hin => ?_, fun _ => h⟩), fun _ => keeps_vPush _ s h⟩
  refine (wp_pure _).mpr ((wp_bind _).mpr ((wp_set _).mpr (keeps_vPush _ _ ?_)))
  exact ⟨h.vsp, h.frames, ⟨rfl, hin.2⟩, h.yieldRequested⟩

theorem keeps_execMemoryCopy : Keeps (MemSafe code) (execMemoryCopy code) := by
  refine keeps_bind keeps_vPop fun n => keeps_bind keeps_vPop fun src => keeps_bind keeps_vPop fun dst =>
    keeps_get fun s h => ?_
  refine wp_ite.mpr ⟨fun _ => h, fun _ => (wp_bind _).mpr (wp_ite.mpr ⟨fun _ => ?_, fun _ => h⟩)⟩
  refine (wp_pure _).mpr ((wp_bind _).mpr (wp_ite.mpr ⟨fun _ => (wp_pure _).mpr ?_, fun _ => h⟩))
  exact (wp_set _).mpr (h.set_mem _)

theorem keeps_execMemoryFill : Keeps (MemSafe code) (execMemoryFill code) := by
  refine keeps_bind keeps_vPop fun n => keeps_bind keeps_vPop fun val => keeps_bind keeps_vPop fun dst =>
    keeps_get fun s h => ?_
  refine wp_ite.mpr ⟨fun _ => h, fun _ => (wp_bind _).mpr (wp_ite.mpr ⟨fun _ => (wp_pure _).mpr ?_, fun _ => h⟩)⟩
  exact (wp_set _).mpr (h.set_mem _)

theorem keeps_execBulk (body : List UInt8) (pc : Nat) : Keeps (MemSafe code) (execBulk code F body pc) := by
  refine keeps_bind (keeps_lift _) fun ⟨sub, pc'⟩ => ?_
  refine keeps_ite (fun _ => keeps_bind keeps_vPop fun a => keeps_bind (keeps_vPush _) fun _ => keeps_pure _)
    fun _ => ?_
  refine keeps_ite (fun _ => keeps_bind (keeps_lift _) fun ⟨_, pc''⟩ => ?_) fun _ => ?_
  · exact keeps_bind keeps_vPop fun _ => keeps_bind keeps_vPop fun _ => keeps_bind keeps_vPop fun _ =>
      keeps_ite (fun _ => keeps_throw _) fun _ => keeps_pure _
  refine keeps_ite (fun _ => keeps_bind (keeps_lift _) fun ⟨_, pc''⟩ => keeps_pure _) fun _ => ?_
  refine keeps_ite (fun _ => keeps_bind keeps_execMemoryCopy fun _ => keeps_pure _) fun _ => ?_
  exact keeps_ite (fun _ => keeps_bind keeps_execMemoryFill fun _ => keeps_pure _) fun _ => keeps_throw _

theorem keeps_execIf (bodyIdx : Nat) (body : List UInt8) (pc : Nat) :
    Keeps (MemSafe code) (execIf code bodyIdx body pc) := by
  refine keeps_bind (keeps_lift _) fun ⟨endPc, elsePc⟩ => keeps_bind keeps_vPop fun cond => ?_
  refine keeps_ite (fun _ => keeps_bind (keeps_ctrlPush _) fun _ => keeps_pure _) fun _ => ?_
  exact keeps_ite (fun _ => keeps_bind (keeps_ctrlPush _) fun _ => keeps_pure _) fun _ => keeps_pure _

theorem keeps_execCallIndirect (body : List UInt8) (pc : Nat) :
    Keeps (MemSafe code) (execCallIndirect code body pc) := by
  refine keeps_bind (keeps_lift _) fun ⟨_, pc'⟩ => keeps_bind (keeps_lift _) fun ⟨_, pc''⟩ =>
    keeps_bind keeps_vPop fun i => ?_
  refine keeps_ite (fun _ => keeps_throw _) fun _ => keeps_ite (fun _ => keeps_throw _) fun _ => ?_
  exact keeps_ite (fun _ => keeps_throw _) fun _ => keeps_ite (fun _ => keeps_throw _) fun _ => keeps_pure _

theorem keeps_dispatch (fr : Frame) (body : List UInt8) (pc : Nat) (op : Opc) :
    Keeps (MemSafe code) (dispatch code F fr body pc op) := by
  have hctrl : ∀ {s : State ω} (d : Nat), MemSafe code s → MemSafe code { s with ctrlDepth := d } := fun d h =>
    ⟨h.vsp, h.frames, ⟨h.pages.active, h.pages.within⟩, h.yieldRequested⟩
  cases op with
  | nop => exact keeps_pure _
  | unreachable => exact keeps_throw _
  | unknown => exact keeps_throw _
  | return_ => exact keeps_pure _
  | block kind => exact keeps_bind (keeps_lift _) fun ⟨_, _⟩ => keeps_bind (keeps_ctrlPush _) fun _ => keeps_pure _
  | if_ => exact keeps_execIf _ _ _
  | else_ =>
    refine keeps_get fun s h => wp_ite.mpr ⟨fun _ => h, fun _ => ?_⟩
    exact (wp_bind _).mpr ((wp_set _).mpr (hctrl _ h))
  | end_ =>
    refine keeps_get fun s h => wp_ite.mpr ⟨fun _ => ?_, fun _ => h⟩
    exact (wp_bind _).mpr ((wp_set _).mpr (hctrl _ h))
  | br => exact keeps_bind (keeps_lift _) fun ⟨_, _⟩ => keeps_pure _
  | brIf =>
    exact keeps_bind (keeps_lift _) fun ⟨_, _⟩ => keeps_bind keeps_vPop fun _ =>
      keeps_ite (fun _ => keeps_pure _) fun _ => keeps_pure _
  | brTable =>
    exact keeps_bind (keeps_lift _) fun ⟨_, _⟩ => keeps_bind keeps_vPop fun _ =>
      keeps_bind (keeps_lift _) fun ⟨_, _, _⟩ => keeps_pure _
  | call => exact keeps_bind (keeps_lift _) fun ⟨_, _⟩ => keeps_pure _
  | callIndirect => exact keeps_execCallIndirect _ _
  | drop => exact keeps_bind keeps_vPop fun _ => keeps_pure _
  | select =>
    exact keeps_bind keeps_vPop fun _ => keeps_bind keeps_vPop fun _ => keeps_bind keeps_vPop fun _ =>
      keeps_bind (keeps_vPush _) fun _ => keeps_pure _
  | localGet =>
    exact keeps_bind (keeps_lift _) fun ⟨_, _⟩ => keeps_ite (fun _ => keeps_throw _) fun _ =>
      keeps_ite (fun _ => keeps_throw _) fun _ => keeps_bind (keeps_vPush _) fun _ => keeps_pure _
  | localSet =>
    exact keeps_bind (keeps_lift _) fun ⟨_, _⟩ => keeps_ite (fun _ => keeps_throw _) fun _ =>
      keeps_bind keeps_vPop fun _ => keeps_ite (fun _ => keeps_throw _) fun _ =>
      keeps_bind (keeps_setFrame fun _ => ⟨rfl, rfl⟩) fun _ => keeps_pure _
  | localTee =>
    refine keeps_bind (keeps_lift _) fun ⟨_, _⟩ => keeps_ite (fun _ => keeps_throw _) fun _ =>
      keeps_get fun s h => ?_
    refine wp_ite.mpr ⟨fun _ => h, fun _ => wp_ite.mpr ⟨fun _ => h, fun _ => ?_⟩⟩
    refine keeps_bind (keeps_setFrame ?_) (fun _ => keeps_pure _) s h
    exact fun _ => ⟨rfl, rfl⟩
  | globalGet =>
    refine keeps_bind (keeps_lift _) fun ⟨_, _⟩ => keeps_ite (fun _ => keeps_throw _) fun _ =>
      keeps_ite (fun _ => keeps_throw _) fun _ => keeps_get fun s h => ?_
    exact keeps_bind (keeps_vPush _) (fun _ => keeps_pure _) s h
  | globalSet =>
    refine keeps_bind (keeps_lift _) fun ⟨_, _⟩ => keeps_ite (fun _ => keeps_throw _) fun _ =>
      keeps_bind (keeps_lift _) fun _ => ?_
    refine keeps_ite (fun _ => keeps_throw _) fun _ => keeps_bind keeps_vPop fun _ =>
      keeps_bind (keeps_modify fun s h => ?_) fun _ => keeps_pure _
    exact ⟨h.vsp, h.frames, ⟨h.pages.active, h.pages.within⟩, h.yieldRequested⟩
  | load w ext => exact keeps_bind (keeps_execLoad _ _ _ _) fun _ => keeps_pure _
  | store w => exact keeps_bind (keeps_execStore _ _ _) fun _ => keeps_pure _
  | memorySize => exact keeps_get fun s h => keeps_bind (keeps_vPush _) (fun _ => keeps_pure _) s h
  | memoryGrow => exact keeps_bind keeps_execMemoryGrow fun _ => keeps_pure _
  | i32Const => exact keeps_bind (keeps_lift _) fun ⟨_, _⟩ => keeps_bind (keeps_vPush _) fun _ => keeps_pure _
  | i64Const => exact keeps_bind (keeps_lift _) fun ⟨_, _⟩ => keeps_bind (keeps_vPush _) fun _ => keeps_pure _
  | floatConst w =>
    exact keeps_ite (fun _ => keeps_throw _) fun _ => keeps_bind (keeps_vPush _) fun _ => keeps_pure _
  | num op => exact keeps_bind (keeps_execNum op) fun _ => keeps_pure _
  | bulk => exact keeps_bind (keeps_execBulk _ _) fun _ => keeps_pure _

section
variable (hc : CodeOk code)
include hc

theorem keeps_pushFrame {bodyIdx : Nat} (hidx : bodyIdx < code.bodies.length) :
    Keeps (MemSafe code) (pushFrame code bodyIdx) := by
  intro s h
  refine wp_mono ?_ ?_ (pushFrame_wp code (Nat.lt_of_lt_of_le hidx hc.bodies) h.vsp)
  · rintro _ s' ⟨base, hbase, _, _, rfl⟩
    have hv := h.vsp
    refine ⟨by simp only; omega, fun fr' hfr' => ?_, ⟨h.pages.active, h.pages.within⟩, h.yieldRequested⟩
    rcases List.mem_cons.mp hfr' with rfl | hmem
    · exact ⟨hidx, by simp only [calleeFrame]; omega⟩
    · exact h.frames fr' hmem
  · rintro e s' ⟨⟨m, hm, rfl⟩, _⟩
    exact ⟨Nat.le_trans hm h.vsp, h.frames, ⟨h.pages.active, h.pages.within⟩, h.yieldRequested⟩

theorem keeps_invoke (callee : Nat) : Keeps (MemSafe code) (invoke code callee) := by
  refine keeps_ite (fun _ => keeps_ite (fun _ => keeps_throw _) fun _ => ?_) fun _ =>
    keeps_ite (fun _ => keeps_throw _) fun hidx => keeps_pushFrame hc (by omega)
  cases hh : code.hostFns callee with
  | none => exact keeps_throw _
  | some f =>
    intro s h
    refine (wp_callHost code).mpr (wp_mono ?_ ?_ (hc.hosts callee f hh s.view h.vsp))
    · exact fun _ v hv => ⟨hv, h.frames, ⟨h.pages.active, h.pages.within⟩, h.yieldRequested⟩
    · exact fun _ v hv => ⟨hv, h.frames, ⟨h.pages.active, h.pages.within⟩, h.yieldRequested⟩

theorem keeps_finish (next : Next) : Keeps (MemSafe code) (finish code next) := by
  cases next with
  | seq pc => exact keeps_setPc pc
  | br pc n => exact keeps_bind (keeps_setPc pc) fun _ => keeps_doBr n
  | ret => exact keeps_doReturn
  | call pc callee => exact keeps_bind (keeps_setPc pc) fun _ => keeps_invoke hc callee

theorem keeps_step : Keeps (MemSafe code) (step code F) := by
  refine keeps_get fun s h => wp_ite.mpr ⟨fun hy => ?_, fun _ => ?_⟩
  · rw [h.yieldRequested] at hy
    cases hy
  refine keeps_bind (keeps_get fun s h => ?_) (fun fr => keeps_bind (keeps_lift _) fun body => ?_) s h
  · cases hfr : s.frames with
    | nil => exact h
    | cons fr rest => exact h
  · cases hop : body[fr.pc]? with
    | none => exact keeps_doReturn
    | some b => exact keeps_bind (keeps_dispatch fr body _ _) fun next => keeps_finish hc next

theorem keeps_beginTask (funcIdx : Nat) (args : List (BitVec 32)) :
    Keeps (MemSafe code) (beginTask code funcIdx args) := by
  have hargs : ∀ args : List (BitVec 32), Keeps (MemSafe code) (pushArgs args) := by
    intro args
    induction args with
    | nil => exact keeps_pure _
    | cons arg args ih => exact keeps_bind (keeps_vPush _) fun _ => ih
  refine keeps_bind (keeps_modify fun s h => ?_) fun _ => keeps_bind (hargs args) fun _ => ?_
  · exact ⟨Nat.zero_le _, nofun, ⟨h.pages.active, h.pages.within⟩, rfl⟩
  · exact keeps_ite (fun _ => keeps_throw _) fun _ => keeps_ite (fun _ => keeps_throw _) fun hidx =>
      keeps_pushFrame hc (by omega)

theorem reach_memSafe {s₀ s : State ω} (h₀ : MemSafe code s₀) {Ok : State ω → Prop} (hr : Reach code F Ok s₀ s) :
    MemSafe code s := by
  have henter : Keeps (MemSafe code) (enterRun (ω := ω)) :=
    keeps_modify fun s h => ⟨h.vsp, h.frames, ⟨rfl, h.pages.within⟩, h.yieldRequested⟩
  induction hr with
  | spawn => exact h₀
  | @start s funcIdx args _ ih =>
    exact Hoare.wp_after (keeps_bind (keeps_beginTask hc funcIdx args) (fun _ => henter) s ih)
  | @resume s _ ih => exact Hoare.wp_after (henter s ih)
  | @round s _ _ _ ih => exact Hoare.wp_after (keeps_step hc s ih)
  | @kernel s world _ ih => exact ⟨ih.vsp, ih.frames, ⟨ih.pages.active, ih.pages.within⟩, ih.yieldRequested⟩

end

end

/-! ## What the instructions are for -/

/-- The number of bytes that a load or store of WebAssembly accesses. -/
def accessWidth (op : UInt8) : Nat :=
  match op.toNat with
  | 0x2C | 0x2D | 0x30 | 0x31 | 0x3A | 0x3C => 1
  | 0x2E | 0x2F | 0x32 | 0x33 | 0x3B | 0x3D => 2
  | 0x29 | 0x2B | 0x37 | 0x39 => 8
  | _ => 4

/-- The loads whose value is signed; a slot holds an `i32` sign-extended. -/
def signExtends (op : UInt8) : Bool := op.toNat ∈ [0x28, 0x2C, 0x2E, 0x30, 0x32, 0x34]

/-- The slot for the little-endian number `v` that a load has read. -/
def loadValue (op : UInt8) (v : Nat) : BitVec 64 :=
  if signExtends op then (BitVec.ofNat (8 * accessWidth op) v).signExtend 64 else BitVec.ofNat 64 v

inductive MemInstr where
  | load (op : UInt8) (offset : Nat)
  | store (op : UInt8) (offset : Nat)
  | copy
  | fill

/-- The instruction at `pc`, with the position after it. -/
inductive MemAt (body : List UInt8) (pc : Nat) : MemInstr → Nat → Prop
  | load {op : UInt8} {offset pc' : Nat} : body[pc]? = some op → 0x28 ≤ op.toNat → op.toNat ≤ 0x35 →
      readMemarg body (pc + 1) = .ok (offset, pc') → MemAt body pc (.load op offset) pc'
  | store {op : UInt8} {offset pc' : Nat} : body[pc]? = some op → 0x36 ≤ op.toNat → op.toNat ≤ 0x3E →
      readMemarg body (pc + 1) = .ok (offset, pc') → MemAt body pc (.store op offset) pc'
  | copy {pc' : Nat} : body[pc]? = some 0xFC → readU32 body InterpError.malformedCode (pc + 1) = .ok (10, pc') →
      MemAt body pc .copy (pc' + 2)
  | fill {pc' : Nat} : body[pc]? = some 0xFC → readU32 body InterpError.malformedCode (pc + 1) = .ok (11, pc') →
      MemAt body pc .fill (pc' + 1)

/-- A stack slot as an unsigned 32-bit operand. -/
def u32 (v : BitVec 64) : Nat := v.toNat % 2 ^ 32

namespace MemInstr

/-- The operands, the deepest first: `addr`, `addr val`, `dst src n` and `dst val n`. -/
def operands : MemInstr → Nat
  | .load _ _ => 1
  | .store _ _ => 2
  | .copy | .fill => 3

/-- Start and length of the ranges that an instruction reads or writes. -/
def ranges (x : Nat → BitVec 64) : MemInstr → List (Nat × Nat)
  | .load op offset | .store op offset => [(u32 (x 0) + offset, accessWidth op)]
  | .copy => [(u32 (x 1), u32 (x 2)), (u32 (x 0), u32 (x 2))]
  | .fill => [(u32 (x 0), u32 (x 2))]

/-- Some range ends beyond `size`. -/
def traps (x : Nat → BitVec 64) (size : Nat) (i : MemInstr) : Bool := (i.ranges x).any fun r => size < r.1 + r.2

/-- Byte `k` of the memory after the instruction. -/
def byteAfter (x : Nat → BitVec 64) (mem : Nat → UInt8) (i : MemInstr) (k : Nat) : UInt8 :=
  match i with
  | .load _ _ => mem k
  | .store op offset =>
    let ea := u32 (x 0) + offset
    if ea ≤ k ∧ k < ea + accessWidth op then UInt8.ofNat ((x 1).toNat / 256 ^ (k - ea) % 256) else mem k
  | .copy => if u32 (x 0) ≤ k ∧ k < u32 (x 0) + u32 (x 2) then mem (u32 (x 1) + (k - u32 (x 0))) else mem k
  | .fill => if u32 (x 0) ≤ k ∧ k < u32 (x 0) + u32 (x 2) then UInt8.ofNat ((x 1).toNat % 256) else mem k

section
variable {ω : Type}

/-- The value stack after the instruction: a load puts its value in the place of the address. -/
def stackAfter (base : Nat) (s : State ω) : MemInstr → (Nat → BitVec 64) × Nat
  | .load op offset =>
    (upd s.vstack base (loadValue op (leNat s.mem (u32 (s.vstack base) + offset) (accessWidth op))), base + 1)
  | _ => (s.vstack, base)

/-- What the instruction is to do in `s`, with its operands in the slots from `base` on. -/
def outcome (base pc' : Nat) (fr : Frame) (rest : List Frame) (s : State ω) (i : MemInstr) :
    EStateM.Result (Fault InterpError) (State ω) Unit :=
  let x := fun k => s.vstack (base + k)
  if i.traps x (s.currentPages * PAGE_SIZE) then .error (.err .memOutOfBounds) { s with vsp := base }
  else .ok () { s with
    vstack := (i.stackAfter base s).1
    vsp := (i.stackAfter base s).2
    mem := i.byteAfter x s.mem
    frames := { fr with pc := pc' } :: rest }

end

/-- `memory.copy` and `memory.fill` take whole slots for their 32-bit operands; that is right if the range
does not fit anyway, or if the slots have nothing above their low half. -/
def Narrow (x : Nat → BitVec 64) (size : Nat) (i : MemInstr) : Prop :=
  match i with
  | .load _ _ | .store _ _ => True
  | .copy => i.traps x size ∨ (x 0).toNat < 2 ^ 32 ∧ (x 1).toNat < 2 ^ 32 ∧ (x 2).toNat < 2 ^ 32
  | .fill => i.traps x size ∨ (x 0).toNat < 2 ^ 32 ∧ (x 2).toNat < 2 ^ 32

end MemInstr

/-! ## The code's tables -/

section
variable {F : FloatOps} {op : UInt8}

theorem uint8_eq {n : Nat} (h : op.toNat = n) : op = UInt8.ofNat n := by
  rw [← h, UInt8.ofNat_toNat]

theorem decodeOp_load (hlo : 0x28 ≤ op.toNat) (hhi : op.toNat ≤ 0x35) :
    ∃ ext, decodeOp F op = .load (accessWidth op) ext ∧
    ∀ v < 256 ^ accessWidth op, ext v = loadValue op v := by
  obtain ⟨n, hn⟩ : ∃ n, op.toNat = n := ⟨_, rfl⟩
  obtain rfl := uint8_eq hn
  rw [hn] at hlo hhi
  have hsigned : ∀ {w : Nat} (x : BitVec w), w ≤ 32 → sx (x.signExtend 32) = x.signExtend 64 := by
    intro w x hw
    refine BitVec.eq_of_toInt_eq ?_
    rw [sx, BitVec.toInt_signExtend_of_le (by decide), BitVec.toInt_signExtend_of_le hw,
      BitVec.toInt_signExtend_of_le (by omega)]
  have hunsigned : ∀ w v : Nat, w ≤ 64 → v < 2 ^ w → (BitVec.ofNat w v).setWidth 64 = BitVec.ofNat 64 v :=
    fun w v hw hv =>
    BitVec.setWidth_ofNat_of_le_of_lt hw hv
  interval_cases n
  all_goals refine ⟨_, rfl, fun v hv => ?_⟩
  all_goals first | rfl | exact hsigned _ (by decide) | exact hunsigned _ _ (by decide) hv

theorem decodeOp_store (hlo : 0x36 ≤ op.toNat) (hhi : op.toNat ≤ 0x3E) :
    decodeOp F op = .store (accessWidth op) := by
  obtain ⟨n, hn⟩ : ∃ n, op.toNat = n := ⟨_, rfl⟩
  obtain rfl := uint8_eq hn
  rw [hn] at hlo hhi
  interval_cases n <;> rfl

end

/-! ## The code on its operands -/

theorem effectiveAddr_eq {addr : BitVec 64} {offset : Nat} (h : offset < 2 ^ 32) :
    effectiveAddr addr offset = u32 addr + offset := by
  have hlt : u32 addr < 2 ^ 32 := Nat.mod_lt _ (by decide)
  rw [effectiveAddr, lo32, BitVec.toNat_setWidth]
  exact Nat.mod_eq_of_lt (by unfold u32 at hlt; omega)

theorem readMemarg_lt {body : List UInt8} {pc offset pc' : Nat} (hfit : Fits body)
    (hr : readMemarg body pc = .ok (offset, pc')) :
    offset < 2 ^ 32 := by
  obtain ⟨_, _, hr⟩ := bind_eq_ok.mp hr
  exact (readU32_bounds hfit hr).1

theorem outOfBounds_eq {w ea active : Nat} : outOfBounds w ea active = decide (active < ea + w) := by
  unfold outOfBounds
  split
  · rename_i hw
    subst hw
    exact decide_eq_decide.mpr Nat.lt_succ_iff.symm
  · rfl

section
variable {ω : Type} {code : Code (HostFn ω)} {s : State ω} {base : Nat} (hs : MemReady code s)
include hs

theorem execLoad_run {body : List UInt8} {pc w offset pc' : Nat} {ext : Nat → BitVec 64} (hfit : Fits body)
    (hr : readMemarg body pc = .ok (offset, pc')) (hv : s.vsp = base + 1) :
    execLoad code body pc w ext s =
      if s.currentPages * PAGE_SIZE < u32 (s.vstack base) + offset + w then
        .error (.err .memOutOfBounds) { s with vsp := base }
      else .ok pc' { s with
        vstack := upd s.vstack base (ext (leNat s.mem (u32 (s.vstack base) + offset) w)), vsp := base + 1 } := by
  have hoffset := readMemarg_lt hfit hr
  refine Hoare.eq_of_wp
    ((wp_bind _).mpr ((wp_lift_ok hr).mpr ((wp_bind _).mpr ((wp_vPop hs.vsp).mpr ⟨fun h0 => by omega, ?_⟩))))
  intro n hn
  obtain rfl : n = base := by omega
  simp only [effectiveAddr_eq hoffset]
  refine (wp_bind _).mpr (wp_get.mpr (wp_ite.mpr ⟨fun hb => ?_, fun hb => ?_⟩))
  · rw [outOfBounds_eq, decide_eq_true_iff, hs.pages.active] at hb
    exact if_pos hb
  rw [outOfBounds_eq, decide_eq_true_iff, hs.pages.active] at hb
  refine (wp_bind _).mpr ((wp_memSlice (by omega) (by have := hs.pages.within; omega)).mpr
    ((wp_bind _).mpr (wp_vPush.mpr ⟨?_, ?_⟩)))
  · intro hfull
    have := hs.vsp
    simp only at hfull
    omega
  · intro _
    exact if_neg hb

theorem execStore_run {body : List UInt8} {pc w offset pc' : Nat} (hfit : Fits body)
    (hr : readMemarg body pc = .ok (offset, pc')) (hv : s.vsp = base + 2) :
    execStore code body pc w s =
      if s.currentPages * PAGE_SIZE < u32 (s.vstack base) + offset + w then
        .error (.err .memOutOfBounds) { s with vsp := base }
      else .ok pc' { s with
        vsp := base, mem := blit s.mem (u32 (s.vstack base) + offset)
          (leBytes (s.vstack (base + 1)).toNat w) } := by
  have hoffset := readMemarg_lt hfit hr
  refine Hoare.eq_of_wp
    ((wp_bind _).mpr ((wp_lift_ok hr).mpr ((wp_bind _).mpr ((wp_vPop hs.vsp).mpr ⟨fun h0 => by omega, ?_⟩))))
  intro n hn
  obtain rfl : n = base + 1 := by omega
  have hv1 : base + 1 ≤ STACK_DEPTH := by have := hs.vsp; omega
  refine (wp_bind _).mpr ((wp_vPop hv1).mpr ⟨nofun, ?_⟩)
  rintro _ ⟨⟩
  simp only [effectiveAddr_eq hoffset]
  refine (wp_bind _).mpr (wp_get.mpr (wp_ite.mpr ⟨fun hb => ?_, fun hb => ?_⟩))
  · rw [outOfBounds_eq, decide_eq_true_iff, hs.pages.active] at hb
    exact if_pos hb
  rw [outOfBounds_eq, decide_eq_true_iff, hs.pages.active] at hb
  refine (wp_bind _).mpr ((wp_memSlice (by omega) (by have := hs.pages.within; omega)).mpr
    ((wp_bind _).mpr ((wp_set _).mpr ?_)))
  exact if_neg hb

/-- Three operands are popped, then the rest of the instruction runs. -/
theorem pop3_run {α : Type} (hv : s.vsp = base + 3) (f : BitVec 64 → BitVec 64 → BitVec 64 → Interp ω α) :
    (do let c ← vPop; let b ← vPop; let a ← vPop; f a b c : Interp ω α) s =
      f (s.vstack base) (s.vstack (base + 1)) (s.vstack (base + 2)) { s with vsp := base } := by
  have hd := hs.vsp
  rw [Hoare.bind_ok (vPop_run hv hd), Hoare.bind_ok (vPop_run rfl (by simp only; omega)),
    Hoare.bind_ok (vPop_run rfl (by simp only; omega))]

variable (hlen : code.memLen < 2 ^ 47)
include hlen

/-- The accessible memory ends far below the point where a sum saturates. -/
theorem lt_satAdd_iff (a n : Nat) : s.activeMem < satAdd a n ↔ s.currentPages * PAGE_SIZE < a + n := by
  have hwithin := hs.pages.within
  rw [hs.pages.active, satAdd]
  unfold usizeMax
  omega

theorem execMemoryCopy_run (hv : s.vsp = base + 3) :
    execMemoryCopy code s =
      let dst := (s.vstack base).toNat
      let src := (s.vstack (base + 1)).toNat
      let n := (s.vstack (base + 2)).toNat
      if s.currentPages * PAGE_SIZE < src + n ∨ s.currentPages * PAGE_SIZE < dst + n then
        .error (.err .memOutOfBounds) { s with vsp := base }
      else .ok () { s with vsp := base, mem := blit s.mem dst (slice s.mem src n) } := by
  have hwithin := hs.pages.within
  rw [execMemoryCopy, pop3_run hs hv]
  refine Hoare.eq_of_wp ((wp_bind _).mpr (wp_get.mpr (wp_ite.mpr ⟨fun hb => ?_, fun hb => ?_⟩)))
  · rw [lt_satAdd_iff hs hlen, lt_satAdd_iff hs hlen] at hb
    exact if_pos hb
  rw [lt_satAdd_iff hs hlen, lt_satAdd_iff hs hlen] at hb
  refine (wp_bind _).mpr ((wp_memSlice (by omega) (by omega)).mpr ?_)
  refine (wp_bind _).mpr ((wp_memSlice (by omega) (by omega)).mpr ?_)
  exact if_neg hb

theorem execMemoryFill_run (hv : s.vsp = base + 3) :
    execMemoryFill code s =
      let dst := (s.vstack base).toNat
      let n := (s.vstack (base + 2)).toNat
      if s.currentPages * PAGE_SIZE < dst + n then .error (.err .memOutOfBounds) { s with vsp := base }
      else .ok () { s with
        vsp := base, mem := fillRange s.mem dst (dst + n)
          (UInt8.ofBitVec ((s.vstack (base + 1)).setWidth 8)) } := by
  have hwithin := hs.pages.within
  rw [execMemoryFill, pop3_run hs hv]
  refine Hoare.eq_of_wp ((wp_bind _).mpr (wp_get.mpr (wp_ite.mpr ⟨fun hb => ?_, fun hb => ?_⟩)))
  · rw [lt_satAdd_iff hs hlen] at hb
    exact if_pos hb
  rw [lt_satAdd_iff hs hlen] at hb
  exact (wp_bind _).mpr ((wp_memSlice (by omega) (by omega)).mpr (if_neg hb))

end

/-! ## Bytes written -/

theorem u32_le (v : BitVec 64) : u32 v ≤ v.toNat := Nat.mod_le _ _

theorem u32_eq {v : BitVec 64} (h : v.toNat < 2 ^ 32) : u32 v = v.toNat := Nat.mod_eq_of_lt h

theorem blit_leBytes (mem : Nat → UInt8) (ea v w : Nat) : blit mem ea (leBytes v w) =
    fun k => if ea ≤ k ∧ k < ea + w then UInt8.ofNat (v / 256 ^ (k - ea) % 256) else mem k := by
  funext k
  rw [blit_apply]
  simp only [leBytes_length, List.get_eq_getElem, leBytes_getElem, dite_eq_ite]

theorem blit_slice (mem : Nat → UInt8) (dst src n : Nat) : blit mem dst (slice mem src n) =
    fun k => if dst ≤ k ∧ k < dst + n then mem (src + (k - dst)) else mem k := by
  funext k
  rw [blit_apply]
  simp only [slice_length, List.get_eq_getElem, slice_getElem, dite_eq_ite]

theorem ofBitVec_setWidth (v : BitVec 64) : UInt8.ofBitVec (v.setWidth 8) = UInt8.ofNat (v.toNat % 256) := by
  refine UInt8.toNat_inj.mp ?_
  rw [UInt8.toNat_ofBitVec, BitVec.toNat_setWidth, UInt8.toNat_ofNat', Nat.mod_mod]

/-! ## Rounds -/

section
variable {ω : Type} {code : Code (HostFn ω)} {F : FloatOps} {s : State ω} {fr : Frame} {rest : List Frame}

theorem seq_ok {m : Interp ω Nat} {pc' : Nat} {s' : State ω} (hm : m s = .ok pc' s')
    (hfr : s'.frames = fr :: rest) :
    ((m >>= fun pc => pure (Next.seq pc)) >>= finish code) s = .ok ()
    { s' with frames := { fr with pc := pc' } :: rest } := by
  have hseq : (m >>= fun pc => pure (Next.seq pc)) s = .ok (Next.seq pc') s' := Hoare.bind_ok hm
  rw [Hoare.bind_ok hseq]
  exact setPc_run hfr

theorem seq_error {m : Interp ω Nat} {e : Fault InterpError} {s' : State ω} (hm : m s = .error e s') :
    ((m >>= fun pc => pure (Next.seq pc)) >>= finish code) s = .error e s' :=
  Hoare.bind_error (Hoare.bind_error hm)

theorem execBulk_copy {body : List UInt8} {pc pc' : Nat}
    (hr : readU32 body InterpError.malformedCode pc = .ok (10, pc')) :
    execBulk code F body pc s = (execMemoryCopy code >>= fun _ => pure (pc' + 2)) s := by
  rw [execBulk, hr]
  rfl

theorem execBulk_fill {body : List UInt8} {pc pc' : Nat}
    (hr : readU32 body InterpError.malformedCode pc = .ok (11, pc')) :
    execBulk code F body pc s = (execMemoryFill code >>= fun _ => pure (pc' + 1)) s := by
  rw [execBulk, hr]
  rfl

variable {base pc' : Nat} {body : List UInt8} (hc : BodiesOk code) (hbody : code.bodies[fr.bodyIdx]? = some body)
include hc hbody

theorem body_ok : fr.bodyIdx < MAX_FUNCS ∧ Fits body :=
  ⟨Nat.lt_of_lt_of_le (List.getElem?_eq_some_iff.mp hbody).1 hc.bodies, hc.fits body (List.mem_of_getElem? hbody)⟩

variable (hs : MemReady code s) (hfr : s.frames = fr :: rest)
include hs hfr

theorem step_load {op : UInt8} {offset : Nat} (hat : MemAt body fr.pc (.load op offset) pc')
    (hv : s.vsp = base + 1) :
    step code F s = (MemInstr.load op offset).outcome base pc' fr rest s := by
  obtain ⟨hidx, hfits⟩ := body_ok hc hbody
  obtain ⟨hop, hlo, hhi, hr⟩ := hat
  obtain ⟨ext, hdec, hext⟩ := decodeOp_load (F := F) hlo hhi
  rw [step_dispatch hs.yieldRequested hfr hbody hidx hop, hdec]
  have hrun : execLoad code body (fr.pc + 1) (accessWidth op) ext s = _ := execLoad_run hs hfits hr hv
  by_cases htrap : s.currentPages * PAGE_SIZE < u32 (s.vstack base) + offset + accessWidth op
  · rw [if_pos htrap] at hrun
    rw [MemInstr.outcome, if_pos (by simpa [MemInstr.traps, MemInstr.ranges] using htrap)]
    exact seq_error hrun
  · rw [if_neg htrap, hext _ (leNat_lt _ _ _)] at hrun
    rw [MemInstr.outcome, if_neg (by simpa [MemInstr.traps, MemInstr.ranges] using htrap)]
    exact seq_ok hrun hfr

theorem step_store {op : UInt8} {offset : Nat} (hat : MemAt body fr.pc (.store op offset) pc')
    (hv : s.vsp = base + 2) :
    step code F s = (MemInstr.store op offset).outcome base pc' fr rest s := by
  obtain ⟨hidx, hfits⟩ := body_ok hc hbody
  cases hat with | store hop hlo hhi hr
  rw [step_dispatch hs.yieldRequested hfr hbody hidx hop, decodeOp_store hlo hhi]
  have hrun := execStore_run (w := accessWidth op) hs hfits hr hv
  by_cases htrap : s.currentPages * PAGE_SIZE < u32 (s.vstack base) + offset + accessWidth op
  · rw [if_pos htrap] at hrun
    rw [MemInstr.outcome, if_pos (by simpa [MemInstr.traps, MemInstr.ranges] using htrap)]
    exact seq_error hrun
  · rw [if_neg htrap, blit_leBytes] at hrun
    rw [MemInstr.outcome, if_neg (by simpa [MemInstr.traps, MemInstr.ranges] using htrap)]
    exact seq_ok hrun hfr

variable (hlen : code.memLen < 2 ^ 32)
include hlen

theorem step_copy (hat : MemAt body fr.pc .copy pc') (hv : s.vsp = base + 3) :
    step code F s = MemInstr.copy.outcome base pc' fr rest s ↔
      MemInstr.copy.Narrow (fun k => s.vstack (base + k)) (s.currentPages * PAGE_SIZE) := by
  obtain ⟨hidx, hfits⟩ := body_ok hc hbody
  cases hat with | copy hop hr
  have hwithin := hs.pages.within
  have hcopy := execMemoryCopy_run hs hc.memLen hv
  have htraps : MemInstr.copy.traps (fun k => s.vstack (base + k)) (s.currentPages * PAGE_SIZE) = true ↔
      s.currentPages * PAGE_SIZE < u32 (s.vstack (base + 1)) + u32 (s.vstack (base + 2)) ∨
      s.currentPages * PAGE_SIZE < u32 (s.vstack base) + u32 (s.vstack (base + 2)) := by
    simp [MemInstr.traps, MemInstr.ranges]
  have hle0 := u32_le (s.vstack base)
  have hle1 := u32_le (s.vstack (base + 1))
  have hle2 := u32_le (s.vstack (base + 2))
  rw [step_dispatch hs.yieldRequested hfr hbody hidx hop, MemInstr.Narrow, MemInstr.outcome]
  simp only [htraps, Nat.add_zero]
  by_cases htrap : s.currentPages * PAGE_SIZE < u32 (s.vstack (base + 1)) + u32 (s.vstack (base + 2)) ∨
      s.currentPages * PAGE_SIZE < u32 (s.vstack base) + u32 (s.vstack (base + 2))
  · -- the range of the whole slots is out of bounds as well
    rw [if_pos htrap]
    rw [if_pos (by omega)] at hcopy
    exact iff_of_true (seq_error ((execBulk_copy hr).trans (Hoare.bind_error hcopy))) (.inl htrap)
  rw [if_neg htrap]
  by_cases hnarrow : (s.vstack base).toNat < 2 ^ 32 ∧ (s.vstack (base + 1)).toNat < 2 ^ 32 ∧
    (s.vstack (base + 2)).toNat < 2 ^ 32
  · rw [u32_eq hnarrow.1, u32_eq hnarrow.2.1, u32_eq hnarrow.2.2] at htrap
    rw [if_neg htrap, blit_slice] at hcopy
    have hbytes : MemInstr.copy.byteAfter (fun k => s.vstack (base + k)) s.mem = fun k =>
        if (s.vstack base).toNat ≤ k ∧ k < (s.vstack base).toNat + (s.vstack (base + 2)).toNat then
          s.mem ((s.vstack (base + 1)).toNat + (k - (s.vstack base).toNat)) else s.mem k := by
      funext k
      simp only [MemInstr.byteAfter, Nat.add_zero, u32_eq hnarrow.1, u32_eq hnarrow.2.1, u32_eq hnarrow.2.2]
    rw [hbytes]
    exact iff_of_true (seq_ok ((execBulk_copy hr).trans (Hoare.bind_ok hcopy)) hfr) (.inr hnarrow)
  · rw [if_pos (by omega)] at hcopy
    refine iff_of_false (fun heq => ?_) fun h => h.elim htrap hnarrow
    have := (seq_error ((execBulk_copy hr).trans (Hoare.bind_error hcopy))).symm.trans heq
    cases this

theorem step_fill (hat : MemAt body fr.pc .fill pc') (hv : s.vsp = base + 3) :
    step code F s = MemInstr.fill.outcome base pc' fr rest s ↔
      MemInstr.fill.Narrow (fun k => s.vstack (base + k)) (s.currentPages * PAGE_SIZE) := by
  obtain ⟨hidx, hfits⟩ := body_ok hc hbody
  cases hat with | fill hop hr
  have hwithin := hs.pages.within
  have hfill := execMemoryFill_run hs hc.memLen hv
  have htraps : MemInstr.fill.traps (fun k => s.vstack (base + k)) (s.currentPages * PAGE_SIZE) = true ↔
      s.currentPages * PAGE_SIZE < u32 (s.vstack base) + u32 (s.vstack (base + 2)) := by
    simp [MemInstr.traps, MemInstr.ranges]
  have hle0 := u32_le (s.vstack base)
  have hle2 := u32_le (s.vstack (base + 2))
  rw [step_dispatch hs.yieldRequested hfr hbody hidx hop, MemInstr.Narrow, MemInstr.outcome]
  simp only [htraps, Nat.add_zero]
  by_cases htrap : s.currentPages * PAGE_SIZE < u32 (s.vstack base) + u32 (s.vstack (base + 2))
  · rw [if_pos htrap]
    rw [if_pos (by omega)] at hfill
    exact iff_of_true (seq_error ((execBulk_fill hr).trans (Hoare.bind_error hfill))) (.inl htrap)
  rw [if_neg htrap]
  by_cases hnarrow : (s.vstack base).toNat < 2 ^ 32 ∧ (s.vstack (base + 2)).toNat < 2 ^ 32
  · rw [u32_eq hnarrow.1, u32_eq hnarrow.2] at htrap
    rw [if_neg htrap] at hfill
    have hbytes : MemInstr.fill.byteAfter (fun k => s.vstack (base + k)) s.mem =
        fillRange s.mem (s.vstack base).toNat
        ((s.vstack base).toNat + (s.vstack (base + 2)).toNat)
          (UInt8.ofBitVec ((s.vstack (base + 1)).setWidth 8)) := by
      funext k
      simp only [MemInstr.byteAfter, fillRange, Nat.add_zero, u32_eq hnarrow.1, u32_eq hnarrow.2, ofBitVec_setWidth]
    rw [hbytes]
    exact iff_of_true (seq_ok ((execBulk_fill hr).trans (Hoare.bind_ok hfill)) hfr) (.inr hnarrow)
  · rw [if_pos (by omega)] at hfill
    refine iff_of_false (fun heq => ?_) fun h => h.elim htrap hnarrow
    have := (seq_error ((execBulk_fill hr).trans (Hoare.bind_error hfill))).symm.trans heq
    cases this

end

section
variable {ω : Type}

/-- In every state of every run a memory instruction does what it is for, if and only if it is `Narrow`. -/
theorem linearMemory_sandbox (F : FloatOps) (lookupHost : List UInt8 → List UInt8 → Option (HostFn ω))
    (bytes : List UInt8)
    (inst : Instance (HostFn ω)) (hfit : Fits bytes) (h : instantiate lookupHost bytes = .ok inst)
    (hhost : ∀ mod name f, lookupHost mod name = some f → f.Keeps (MAX_MEM_PAGES * PAGE_SIZE)) (world : ω)
    (s : State ω)
    (hr : Reach inst.code F (fun _ => True) (inst.initial world) s) (fr : Frame) (rest : List Frame)
    (hfr : s.frames = fr :: rest) (body : List UInt8) (hbody : inst.code.bodies[fr.bodyIdx]? = some body)
    (i : MemInstr) (pc' : Nat) (hat : MemAt body fr.pc i pc') (base : Nat) (hv : s.vsp = base + i.operands) :
    step inst.code F s = i.outcome base pc' fr rest s ↔
      i.Narrow (fun k => s.vstack (base + k)) (s.currentPages * PAGE_SIZE) := by
  obtain ⟨hc, hinit⟩ := instantiate_codeOk hfit h hhost
  have hsafe := hinit world
  have hs : MemSafe inst.code s := reach_memSafe hc ⟨hsafe.vsp, nofun, hsafe.pages, rfl⟩ hr
  have hlen : inst.code.memLen < 2 ^ 32 := by
    rw [(instantiate_limits hfit h).2.2.2.2.1]
    decide
  have hb := instantiate_bodiesOk hfit h
  cases i with
  | load op offset => exact iff_of_true (step_load hb hbody hs.ready hfr hat hv) trivial
  | store op offset => exact iff_of_true (step_store hb hbody hs.ready hfr hat hv) trivial
  | copy => exact step_copy hb hbody hs.ready hfr hlen hat hv
  | fill => exact step_fill hb hbody hs.ready hfr hlen hat hv

end

/-- A module with one page of memory and one function of type `() -> ()`, without locals. -/
def oneFunctionMemory (body : List UInt8) : List UInt8 :=
  [0x00, 0x61, 0x73, 0x6D, 0x01, 0x00, 0x00, 0x00, 0x01, 0x04, 0x01, 0x60, 0x00, 0x00, 0x03, 0x02, 0x01, 0x00,
    0x05, 0x03, 0x01, 0x00, 0x01, 0x0A] ++
    UInt8.ofNat (body.length + 3) :: 0x01 :: UInt8.ofNat (body.length + 1) :: 0x00 :: body

/-- Four bytes copied from 0 to 8, behind a call of a host function. -/
theorem linearMemory_sandbox_copy :
    ∃ inst : Instance (HostFn Unit), instantiate (fun _ _ => some hostYield)
      (yieldFunction [0x10, 0x00, 0x41, 0x08, 0x41, 0x00, 0x41, 0x04, 0xFC, 0x0A, 0x00, 0x00, 0x0B]) = .ok inst ∧
    ∃ s fr, Reach inst.code default (fun _ => True) (inst.initial ()) s ∧ s.frames = [fr] ∧
      step inst.code default s = MemInstr.copy.outcome 0 12 fr [] s := by
  have hhost : ∀ (mod name : List UInt8) (f : HostFn Unit), some hostYield = some f →
      f.Keeps (MAX_MEM_PAGES * PAGE_SIZE) := by
    intro mod name f hf
    cases hf
    exact hostYield_keeps _
  refine ⟨_, rfl, _, _,
    .round (.round (.round (.resume (.round (.start 1 [] .spawn) nofun trivial)) nofun trivial) nofun trivial)
    nofun
    trivial, rfl, ?_⟩
  refine (linearMemory_sandbox default (fun _ _ => some hostYield)
    (yieldFunction [0x10, 0x00, 0x41, 0x08, 0x41, 0x00, 0x41, 0x04, 0xFC, 0x0A, 0x00, 0x00, 0x0B]) _
    (by unfold Fits; decide) rfl hhost ()
    _ (.round (.round (.round (.resume (.round (.start 1 [] .spawn) nofun trivial)) nofun trivial) nofun
    trivial) nofun trivial) _ [] rfl
    _ rfl .copy 12 (.copy rfl rfl) 0 rfl).mpr (.inr ⟨?_, ?_, ?_⟩)
  · decide
  · decide
  · decide

/-- Nothing to copy, from address 0: the code takes the whole slot `2 ^ 32` for the address and traps. -/
theorem memoryCopy_wide_slot : ¬ ∀ (F : FloatOps) (lookupHost : List UInt8 → List UInt8 → Option (HostFn Unit))
    (bytes : List UInt8) (inst : Instance (HostFn Unit)), Fits bytes → instantiate lookupHost bytes = .ok inst →
    (∀ mod name f, lookupHost mod name = some f → f.Keeps (MAX_MEM_PAGES * PAGE_SIZE)) → ∀ s : State Unit,
    Reach inst.code F (fun _ => True) (inst.initial ()) s → ∀ (fr : Frame) (rest : List Frame), s.frames =
    fr :: rest →
    ∀ body : List UInt8, inst.code.bodies[fr.bodyIdx]? = some body →
    ∀ (i : MemInstr) (pc' : Nat), MemAt body fr.pc i pc' →
    ∀ base : Nat, s.vsp = base + i.operands → step inst.code F s = i.outcome base pc' fr rest s := by
  intro h
  have := h default (fun _ _ => none)
    (oneFunctionMemory [0x41, 0x00, 0x42, 0x80, 0x80, 0x80, 0x80, 0x10, 0x41, 0x00, 0xFC, 0x0A, 0x00, 0x00, 0x0B]) _
    (by unfold Fits; decide) rfl nofun
    _ (.round (.round (.round (.start 0 [] .spawn) nofun trivial) nofun trivial) nofun trivial) _ [] rfl _
      rfl .copy 14
    (.copy rfl rfl) 0 rfl
  exact EStateM.Result.noConfusion rfl rfl rfl (heq_of_eq this)

end WasmOs
