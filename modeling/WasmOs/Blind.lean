import WasmOs.Interp
import WasmOs.Sim

/-!
# Code that does not see the kernel

A module that imports nothing but `env.yield` runs without a look at the rest of the kernel: a round
is the same whatever the kernel's state is, and it leaves that state alone.
-/

namespace WasmOs

open Hoare

def State.withWorld {ω ω' : Type} (s : State ω) (w : ω') : State ω' :=
  { vstack := s.vstack, vsp := s.vsp, frames := s.frames, ctrl := s.ctrl, ctrlDepth := s.ctrlDepth,
    globals := s.globals
    mem := s.mem, currentPages := s.currentPages, activeMem := s.activeMem,
    yieldRequested := s.yieldRequested, world := w }

/-! ## A round without the world -/

section
variable {ω α : Type} {w w' : ω}

def Apart (w w' : ω) (s t : State ω) : Prop := ∃ u : State Unit, s = u.withWorld w ∧ t = u.withWorld w'

/-- Two computations do the same, each in its world. -/
abbrev Twin (w w' : ω) (m m' : Interp ω α) : Prop :=
  Sim (Apart w w') m m' (fun a b s t => a = b ∧ Apart w w' s t) fun _ => Apart w w'

abbrev Blind (w w' : ω) (m : Interp ω α) : Prop := Twin w w' m m

theorem blind_pure (a : α) : Blind w w' (pure a) := sim_pure fun _ _ h => ⟨rfl, h⟩

theorem blind_throw (e : Fault InterpError) : Blind w w' (throw e : Interp ω α) := sim_throw fun _ _ h => h

theorem twin_bind {β : Type} {m m' : Interp ω α} {f f' : α → Interp ω β} (hm : Twin w w' m m')
    (hf : ∀ a, Twin w w' (f a) (f' a)) :
    Twin w w' (m >>= f) (m' >>= f') := by
  refine sim_bind hm fun a b => ?_
  intro s t h
  obtain ⟨rfl, h⟩ := h
  exact hf a s t h

theorem twin_ite {p : Prop} [Decidable p] {m m' n n' : Interp ω α} (hm : Twin w w' m m') (hn : Twin w w' n n') :
    Twin w w' (if p then m else n) (if p then m' else n') :=
  sim_ite Iff.rfl (fun _ => hm) (fun _ => hn)

theorem blind_get {f : State ω → Interp ω α}
    (hf : ∀ u : State Unit, Twin w w' (f (u.withWorld w)) (f (u.withWorld w'))) :
    Blind w w' (get >>= f) := by
  refine sim_get fun s t h => ?_
  obtain ⟨u, rfl, rfl⟩ := h
  exact hf u

theorem twin_set (u : State Unit) : Twin w w' (set (u.withWorld w)) (set (u.withWorld w')) :=
  sim_set ⟨rfl, u, rfl, rfl⟩

theorem blind_lift (m : Rust InterpError α) : Blind w w' (lift m : Interp ω α) := by
  intro s t h
  cases m with
  | ok a => exact ⟨rfl, h⟩
  | error e => exact ⟨rfl, h⟩

theorem blind_modify {f : State ω → State ω} (hf : ∀ u : State Unit, ∃ u' : State Unit,
    f (u.withWorld w) = u'.withWorld w ∧ f (u.withWorld w') = u'.withWorld w') : Blind w w' (modify f :
    Interp ω Unit) := by
  refine sim_modify fun s t h => ?_
  obtain ⟨u, rfl, rfl⟩ := h
  exact ⟨rfl, hf u⟩

theorem blind_vPush (v : BitVec 64) : Blind w w' (vPush v) :=
  blind_get fun u => twin_ite (blind_throw _) (twin_set { u with vstack := upd u.vstack u.vsp v, vsp := u.vsp + 1 })

theorem blind_vPop : Blind w w' vPop :=
  blind_get fun u => twin_ite (blind_throw _) <| twin_ite (blind_throw _) <|
    twin_bind (twin_set { u with vsp := u.vsp - 1 }) fun _ => blind_pure _

theorem blind_ctrlPush (cf : CtrlFrame) : Blind w w' (ctrlPush cf) :=
  blind_get fun u => twin_ite (blind_throw _)
    (twin_set { u with ctrl := upd u.ctrl u.ctrlDepth cf, ctrlDepth := u.ctrlDepth + 1 })

theorem blind_topFrame : Blind w w' topFrame := by
  refine blind_get fun u => ?_
  cases hf : u.frames with
  | nil => simp only [State.withWorld, hf]; exact blind_throw _
  | cons fr rest => simp only [State.withWorld, hf]; exact blind_pure _

theorem blind_setFrame (f : Frame → Frame) : Blind w w' (setFrame f) := by
  refine blind_get fun u => ?_
  cases hf : u.frames with
  | nil => simp only [State.withWorld, hf]; exact blind_throw _
  | cons fr rest => simp only [State.withWorld, hf]; exact twin_set { u with frames := f fr :: rest }

theorem blind_popParams : ∀ (n : Nat) (locals : Nat → BitVec 64), Blind w w' (popParams n locals)
  | 0, _ => blind_pure _
  | n + 1, _ => twin_bind blind_vPop fun _ => twin_ite (blind_throw _) (blind_popParams n _)

theorem blind_doReturn : Blind w w' doReturn := by
  refine blind_get fun u => ?_
  cases hf : u.frames with
  | nil => simp only [State.withWorld, hf]; exact blind_throw _
  | cons fr rest =>
    simp only [State.withWorld, hf]
    refine twin_ite (blind_throw _) (twin_set { u with
      vstack := copyUp u.vstack fr.vspBase (u.vsp - fr.resultCount) fr.resultCount
      vsp := fr.vspBase + fr.resultCount, ctrlDepth := fr.ctrlBase, frames := rest })

theorem blind_doBr (n : Nat) : Blind w w' (doBr n) := by
  refine blind_get fun u => ?_
  cases hf : u.frames with
  | nil => simp only [State.withWorld, hf]; exact blind_throw _
  | cons fr rest =>
    simp only [State.withWorld, hf]
    refine twin_ite (blind_throw _) <| twin_ite blind_doReturn <| twin_ite (blind_throw _) ?_
    let target := u.ctrlDepth - 1 - n
    let cf := u.ctrl target
    cases hk : (u.ctrl (u.ctrlDepth - 1 - n)).kind with
    | loop => exact twin_set { u with ctrlDepth := target + 1, frames := { fr with pc := cf.pcStart } :: rest }
    | block => exact twin_set { u with ctrlDepth := target, frames := { fr with pc := cf.endPc + 1 } :: rest }
    | if_ => exact twin_set { u with ctrlDepth := target, frames := { fr with pc := cf.endPc + 1 } :: rest }

end

section
variable {ω : Type} {w w' : ω} {code : Code (HostFn ω)} {F : FloatOps} {body : List UInt8} {pc : Nat}

theorem blind_pushFrame (bodyIdx : Nat) : Blind w w' (pushFrame code bodyIdx) :=
  blind_get fun _ => twin_ite (blind_throw _) <| twin_bind (blind_lift _) fun _ => twin_bind (blind_lift _) fun _ =>
    twin_ite (blind_throw _) <| twin_bind (blind_popParams _ _) fun _ => blind_modify fun u =>
      ⟨{ u with frames := _ }, rfl, rfl⟩

theorem blind_memSlice (lo hi : Nat) : Blind w w' (memSlice code lo hi) := twin_ite (blind_pure _) (blind_throw _)

theorem blind_execLoad (n : Nat) (ext : Nat → BitVec 64) : Blind w w' (execLoad code body pc n ext) :=
  twin_bind (blind_lift _) fun _ => twin_bind blind_vPop fun _ => blind_get fun _ => twin_ite (blind_throw _) <|
    twin_bind (blind_memSlice _ _) fun _ => twin_bind (blind_vPush _) fun _ => blind_pure _

theorem blind_execStore (n : Nat) : Blind w w' (execStore code body pc n) :=
  twin_bind (blind_lift _) fun _ => twin_bind blind_vPop fun _ => twin_bind blind_vPop fun _ => blind_get fun u =>
    twin_ite (blind_throw _) <| twin_bind (blind_memSlice _ _) fun _ =>
      twin_bind (twin_set { u with mem := _ }) fun _ => blind_pure _

theorem blind_execMemoryGrow : Blind w w' (execMemoryGrow code) := by
  refine twin_bind blind_vPop fun delta => blind_get fun u => twin_ite ?_ (blind_vPush _)
  refine twin_bind (blind_memSlice _ _) fun _ => ?_
  have hset := @twin_set _ w w'
    { u with
      mem := fillRange u.mem (u.currentPages * PAGE_SIZE) ((u.currentPages + (lo32 delta).toNat) * PAGE_SIZE) 0
      currentPages := u.currentPages + (lo32 delta).toNat
      activeMem := (u.currentPages + (lo32 delta).toNat) * PAGE_SIZE }
  exact twin_bind hset fun _ => blind_vPush _

theorem blind_execMemoryCopy : Blind w w' (execMemoryCopy code) :=
  twin_bind blind_vPop fun _ => twin_bind blind_vPop fun _ => twin_bind blind_vPop fun _ => blind_get fun u =>
    twin_ite (blind_throw _) <| twin_bind (blind_memSlice _ _) fun _ => twin_bind (blind_memSlice _ _) fun _ =>
      twin_set { u with mem := _ }

theorem blind_execMemoryFill : Blind w w' (execMemoryFill code) :=
  twin_bind blind_vPop fun _ => twin_bind blind_vPop fun _ => twin_bind blind_vPop fun _ => blind_get fun u =>
    twin_ite (blind_throw _) <| twin_bind (blind_memSlice _ _) fun _ => twin_set { u with mem := _ }

theorem blind_execBulk : Blind w w' (execBulk code F body pc) := by
  refine twin_bind (blind_lift _) fun x => ?_
  refine twin_ite (twin_bind blind_vPop fun _ => twin_bind (blind_vPush _) fun _ => blind_pure _) ?_
  refine twin_ite ?_ ?_
  · exact twin_bind (blind_lift _) fun _ => twin_bind blind_vPop fun _ => twin_bind blind_vPop fun _ =>
      twin_bind blind_vPop fun _ => twin_ite (blind_throw _) (blind_pure _)
  refine twin_ite (twin_bind (blind_lift _) fun _ => blind_pure _) ?_
  refine twin_ite (twin_bind blind_execMemoryCopy fun _ => blind_pure _) ?_
  exact twin_ite (twin_bind blind_execMemoryFill fun _ => blind_pure _) (blind_throw _)

theorem blind_pushResult (r : Except NumTrap (BitVec 64)) : Blind w w' (pushResult r) := by
  cases r with
  | ok v => exact blind_vPush v
  | error t => exact blind_throw _

theorem blind_execNum (op : NumOp) : Blind w w' (execNum op) := by
  cases op with
  | un f => exact twin_bind blind_vPop fun _ => blind_pushResult _
  | bin f => exact twin_bind blind_vPop fun _ => twin_bind blind_vPop fun _ => blind_pushResult _

theorem blind_execCallIndirect : Blind w w' (execCallIndirect code body pc) :=
  twin_bind (blind_lift _) fun _ => twin_bind (blind_lift _) fun _ => twin_bind blind_vPop fun _ =>
    twin_ite (blind_throw _) <|
    twin_ite (blind_throw _) <| twin_ite (blind_throw _) <| twin_ite (blind_throw _) (blind_pure _)

theorem blind_execIf (bodyIdx : Nat) : Blind w w' (execIf code bodyIdx body pc) :=
  twin_bind (blind_lift _) fun _ => twin_bind blind_vPop fun _ =>
    twin_ite (twin_bind (blind_ctrlPush _) fun _ => blind_pure _) <|
      twin_ite (twin_bind (blind_ctrlPush _) fun _ => blind_pure _) (blind_pure _)

theorem blind_dispatch {fr : Frame} (op : Opc) : Blind w w' (dispatch code F fr body pc op) := by
  cases op with
  | nop => exact blind_pure _
  | unreachable => exact blind_throw _
  | block kind => exact twin_bind (blind_lift _) fun _ => twin_bind (blind_ctrlPush _) fun _ => blind_pure _
  | if_ => exact blind_execIf _
  | else_ =>
    exact blind_get fun u => twin_ite (blind_throw _) <| twin_bind (twin_set { u with ctrlDepth := _ })
      fun _ => blind_pure _
  | end_ =>
    exact blind_get fun u => twin_ite (twin_bind (twin_set { u with ctrlDepth := _ }) fun _ => blind_pure _)
      (blind_pure _)
  | br => exact twin_bind (blind_lift _) fun _ => blind_pure _
  | brIf =>
    exact twin_bind (blind_lift _) fun _ => twin_bind blind_vPop fun _ => twin_ite (blind_pure _) (blind_pure _)
  | brTable =>
    exact twin_bind (blind_lift _) fun _ => twin_bind blind_vPop fun _ => twin_bind (blind_lift _) fun _ =>
      blind_pure _
  | return_ => exact blind_pure _
  | call => exact twin_bind (blind_lift _) fun _ => blind_pure _
  | callIndirect => exact blind_execCallIndirect
  | drop => exact twin_bind blind_vPop fun _ => blind_pure _
  | select =>
    exact twin_bind blind_vPop fun _ => twin_bind blind_vPop fun _ => twin_bind blind_vPop fun _ =>
      twin_bind (blind_vPush _) fun _ => blind_pure _
  | localGet =>
    exact twin_bind (blind_lift _) fun _ => twin_ite (blind_throw _) <| twin_ite (blind_throw _) <|
      twin_bind (blind_vPush _) fun _ => blind_pure _
  | localSet =>
    exact twin_bind (blind_lift _) fun _ => twin_ite (blind_throw _) <| twin_bind blind_vPop fun _ =>
      twin_ite (blind_throw _) <| twin_bind (blind_setFrame _) fun _ => blind_pure _
  | localTee =>
    exact twin_bind (blind_lift _) fun _ => twin_ite (blind_throw _) <| blind_get fun _ =>
      twin_ite (blind_throw _) <|
      twin_ite (blind_throw _) <| twin_bind (blind_setFrame _) fun _ => blind_pure _
  | globalGet =>
    exact twin_bind (blind_lift _) fun _ => twin_ite (blind_throw _) <| twin_ite (blind_throw _) <|
      blind_get fun _ =>
      twin_bind (blind_vPush _) fun _ => blind_pure _
  | globalSet =>
    exact twin_bind (blind_lift _) fun _ => twin_ite (blind_throw _) <| twin_bind (blind_lift _) fun _ =>
      twin_ite (blind_throw _) <| twin_bind blind_vPop fun _ =>
        twin_bind (blind_modify fun u => ⟨{ u with globals := _ }, rfl, rfl⟩) fun _ => blind_pure _
  | load n ext => exact twin_bind (blind_execLoad n ext) fun _ => blind_pure _
  | store n => exact twin_bind (blind_execStore n) fun _ => blind_pure _
  | memorySize => exact blind_get fun _ => twin_bind (blind_vPush _) fun _ => blind_pure _
  | memoryGrow => exact twin_bind blind_execMemoryGrow fun _ => blind_pure _
  | i32Const => exact twin_bind (blind_lift _) fun _ => twin_bind (blind_vPush _) fun _ => blind_pure _
  | i64Const => exact twin_bind (blind_lift _) fun _ => twin_bind (blind_vPush _) fun _ => blind_pure _
  | floatConst n => exact twin_ite (blind_throw _) <| twin_bind (blind_vPush _) fun _ => blind_pure _
  | num op => exact twin_bind (blind_execNum op) fun _ => blind_pure _
  | bulk => exact twin_bind blind_execBulk fun _ => blind_pure _
  | unknown => exact blind_throw _

/-- Every host function of the module is `env.yield`. -/
def YieldOnly (code : Code (HostFn ω)) : Prop := ∀ i h, code.hostFns i = some h → h = hostYield

variable (hcode : YieldOnly code)
include hcode

theorem blind_invoke (callee : Nat) : Blind w w' (invoke code callee) := by
  unfold invoke
  refine twin_ite (twin_ite (blind_throw _) ?_) (twin_ite (blind_throw _) (blind_pushFrame _))
  cases hh : code.hostFns callee with
  | none => exact blind_throw _
  | some h =>
    rw [hcode callee h hh]
    intro s t hst
    obtain ⟨u, rfl, rfl⟩ := hst
    exact ⟨rfl, u, rfl, rfl⟩

theorem blind_finish (next : Next) : Blind w w' (finish code next) := by
  cases next with
  | seq pc => exact blind_setFrame _
  | br pc n => exact twin_bind (blind_setFrame _) fun _ => blind_doBr n
  | ret => exact blind_doReturn
  | call pc callee => exact twin_bind (blind_setFrame _) fun _ => blind_invoke hcode callee

theorem blind_step : Blind w w' (step code F) := by
  refine blind_get fun u => twin_ite (twin_bind (twin_set { u with yieldRequested := _ }) fun _ => blind_throw _) ?_
  refine twin_bind blind_topFrame fun fr => twin_bind (blind_lift _) fun body => ?_
  cases body[fr.pc]? with
  | none => exact blind_doReturn
  | some op => exact twin_bind (blind_dispatch _) fun next => blind_finish hcode next

theorem blind_runLoop : ∀ fuel : Nat, Blind w w' (runLoop code F fuel)
  | 0 => blind_get fun _ => blind_pure _
  | fuel + 1 => blind_get fun _ =>
    twin_ite (blind_pure _) (twin_bind (blind_step hcode) fun _ => blind_runLoop fuel)

theorem blind_run (fuel : Nat) : Blind w w' (run code F fuel) :=
  twin_bind (blind_modify fun u => ⟨{ u with activeMem := _ }, rfl, rfl⟩) fun _ => blind_runLoop hcode fuel

omit hcode

theorem blind_pushArgs : ∀ args : List (BitVec 32), Blind w w' (pushArgs args)
  | [] => blind_pure _
  | _ :: args => twin_bind (blind_vPush _) fun _ => blind_pushArgs args

theorem blind_beginTask (funcIdx : Nat) (args : List (BitVec 32)) : Blind w w' (beginTask code funcIdx args) := by
  refine twin_bind (blind_modify fun u =>
    ⟨{ u with vsp := _, frames := _, ctrlDepth := _, yieldRequested := _ }, rfl, rfl⟩) fun _ => ?_
  refine twin_bind (blind_pushArgs args) fun _ => ?_
  exact twin_ite (blind_throw _) (twin_ite (blind_throw _) (blind_pushFrame _))

end

/-! ## A round up to its host call -/

section
variable {ω α : Type}

/-- An instruction is fetched and run up to the end of the round. -/
def fetch (code : Code (HostFn ω)) (F : FloatOps) : Interp ω Next := do
  let fr ← topFrame
  let body ← lift (tableAt MAX_FUNCS code.bodies [] fr.bodyIdx)
  match body[fr.pc]? with
  | none => pure .ret
  | some op => dispatch code F fr body (fr.pc + 1) (decodeOp F op)

variable {code : Code (HostFn ω)} {F : FloatOps} {s : State ω}

theorem step_fetch (hy : s.yieldRequested = false) : step code F s = (fetch code F >>= finish code) s := by
  unfold step fetch
  rw [get_bind, if_neg (by rw [hy]; exact Bool.false_ne_true)]
  simp only [bind_assoc]
  refine congrFun (congrArg _ (funext fun fr => congrArg _ (funext fun body => ?_))) s
  cases body[fr.pc]? with
  | none => rfl
  | some op => rfl

theorem world_of_blind {m : Interp ω α} (h : Blind s.world s.world m) :
    wp m (fun _ s' => s'.world = s.world) (fun _ s' => s'.world = s.world) s := by
  have hs : Apart s.world s.world s s := ⟨s.withWorld (), rfl, rfl⟩
  have ha := h s s hs
  unfold wp
  cases hr : m s with
  | ok a s' =>
    rw [hr] at ha
    obtain ⟨_, u, hu, _⟩ := ha
    rw [hu]
    rfl
  | error e s' =>
    rw [hr] at ha
    obtain ⟨_, u, hu, _⟩ := ha
    rw [hu]
    rfl

theorem blind_fetch {w w' : ω} : Blind w w' (fetch code F) := by
  refine twin_bind blind_topFrame fun fr => twin_bind (blind_lift _) fun body => ?_
  cases body[fr.pc]? with
  | none => exact blind_pure _
  | some op => exact blind_dispatch _

end

end WasmOs
