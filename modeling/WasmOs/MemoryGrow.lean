import WasmOs.LinearMemory

/-!
# `memory.grow`

The size of the memory is the page count and the limit that `run` keeps in a local. Only `memory.grow`
changes them, and it changes both, so that whatever runs later is checked against the new size.
-/

namespace WasmOs

open Hoare (wp wp_bind wp_pure wp_throw wp_get wp_set wp_modify wp_ite wp_mono Keeps keeps_pure
  keeps_throw keeps_bind
  keeps_ite keeps_get keeps_modify)

/-! ## Everything else leaves the size alone -/

section
variable {ω : Type}

def SizeOnly (I : State ω → Prop) : Prop := ∀ s s' : State ω, s'.currentPages = s.currentPages →
    s'.activeMem = s.activeMem →
  s'.yieldRequested = s.yieldRequested → I s → I s'

def ShapeOnly (I : State ω → Prop) : Prop := ∀ s s' : State ω, s'.frames.length = s.frames.length →
    s'.currentPages = s.currentPages →
  s'.activeMem = s.activeMem → s'.yieldRequested = s.yieldRequested → I s → I s'

theorem SizeOnly.shape {I : State ω → Prop} (h : SizeOnly I) : ShapeOnly I := fun s s' _ => h s s'

variable {I : State ω → Prop} (hI : ShapeOnly I)

theorem size_lift {α : Type} (m : Rust InterpError α) : Keeps I (lift m) :=
  fun _ h => wp_lift.mpr ⟨fun _ _ => h, fun _ _ => h⟩

section
include hI

theorem size_set {s s' : State ω} (h : I s) (hf : s'.frames.length = s.frames.length)
    (hp : s'.currentPages = s.currentPages)
    (ha : s'.activeMem = s.activeMem) (hy : s'.yieldRequested = s.yieldRequested) :
    wp (set s' : Interp ω Unit) (fun _ => I) (fun _ => I) s :=
  (wp_set _).mpr (hI s s' hf hp ha hy h)

theorem size_vPush (v : BitVec 64) : Keeps I (vPush v) :=
  keeps_get fun _ h => wp_ite.mpr ⟨fun _ => h, fun _ => size_set hI h rfl rfl rfl rfl⟩

theorem size_vPop : Keeps I vPop := by
  refine keeps_get fun s h => wp_ite.mpr ⟨fun _ => h, fun _ => wp_ite.mpr ⟨fun _ => h, fun _ => ?_⟩⟩
  exact (wp_bind _).mpr (size_set hI h rfl rfl rfl rfl)

theorem size_ctrlPush (cf : CtrlFrame) : Keeps I (ctrlPush cf) :=
  keeps_get fun _ h => wp_ite.mpr ⟨fun _ => h, fun _ => size_set hI h rfl rfl rfl rfl⟩

theorem size_setFrame (f : Frame → Frame) : Keeps I (setFrame f) := by
  refine keeps_get fun s h => ?_
  cases hfr : s.frames with
  | nil => exact h
  | cons fr rest => exact size_set hI h (by rw [hfr]; rfl) rfl rfl rfl

theorem size_popParams : ∀ (n : Nat) (locals : Nat → BitVec 64), Keeps I (popParams n locals)
  | 0, _ => keeps_pure _
  | n + 1, _ => keeps_bind (size_vPop hI) fun _ => keeps_ite (fun _ => keeps_throw _) fun _ => size_popParams n _

theorem size_pushResult (r : Except NumTrap (BitVec 64)) : Keeps I (pushResult r) := by
  cases r with
  | ok v => exact size_vPush hI v
  | error t => exact keeps_throw _

theorem size_execNum (op : NumOp) : Keeps I (execNum op) := by
  cases op with
  | un f => exact keeps_bind (size_vPop hI) fun a => size_pushResult hI (f a)
  | bin f => exact keeps_bind (size_vPop hI) fun b => keeps_bind (size_vPop hI) fun a => size_pushResult hI (f a b)

theorem size_callArgs : ∀ args : List (BitVec 32), Keeps I (pushArgs args)
  | [] => keeps_pure _
  | _ :: args => keeps_bind (size_vPush hI _) fun _ => size_callArgs args

end

variable {code : Code (HostFn ω)} {F : FloatOps} {body : List UInt8} {pc : Nat}

theorem size_memSlice (lo hi : Nat) : Keeps I (memSlice code lo hi) :=
  keeps_ite (fun _ => keeps_pure _) fun _ => keeps_throw _

include hI

theorem size_execLoad (w : Nat) (ext : Nat → BitVec 64) : Keeps I (execLoad code body pc w ext) := by
  refine keeps_bind (size_lift _) fun _ => keeps_bind (size_vPop hI) fun addr => keeps_get fun s h => ?_
  exact keeps_ite (fun _ => keeps_throw _) (fun _ => keeps_bind (size_memSlice _ _) fun _ =>
    keeps_bind (size_vPush hI _) fun _ => keeps_pure _) s h

theorem size_execStore (w : Nat) : Keeps I (execStore code body pc w) := by
  refine keeps_bind (size_lift _) fun _ => keeps_bind (size_vPop hI) fun _ => keeps_bind (size_vPop hI)
    fun _ => keeps_get fun s h => ?_
  refine wp_ite.mpr ⟨fun _ => h, fun _ => (wp_bind _).mpr (wp_ite.mpr ⟨fun _ => ?_, fun _ => h⟩)⟩
  exact (wp_pure _).mpr ((wp_bind _).mpr (size_set hI h rfl rfl rfl rfl))

theorem size_execMemoryCopy : Keeps I (execMemoryCopy code) := by
  refine keeps_bind (size_vPop hI) fun _ => keeps_bind (size_vPop hI) fun _ => keeps_bind (size_vPop hI)
    fun _ => keeps_get fun s h => ?_
  refine wp_ite.mpr ⟨fun _ => h, fun _ => (wp_bind _).mpr (wp_ite.mpr ⟨fun _ => ?_, fun _ => h⟩)⟩
  exact (wp_pure _).mpr
    ((wp_bind _).mpr (wp_ite.mpr ⟨fun _ => (wp_pure _).mpr (size_set hI h rfl rfl rfl rfl), fun _ => h⟩))

theorem size_execMemoryFill : Keeps I (execMemoryFill code) := by
  refine keeps_bind (size_vPop hI) fun _ => keeps_bind (size_vPop hI) fun _ => keeps_bind (size_vPop hI)
    fun _ => keeps_get fun s h => ?_
  refine wp_ite.mpr ⟨fun _ => h, fun _ => (wp_bind _).mpr (wp_ite.mpr ⟨fun _ => (wp_pure _).mpr ?_, fun _ => h⟩)⟩
  exact size_set hI h rfl rfl rfl rfl

theorem size_execBulk : Keeps I (execBulk code F body pc) := by
  refine keeps_bind (size_lift _) fun _ => ?_
  refine keeps_ite (fun _ => keeps_bind (size_vPop hI) fun _ => keeps_bind (size_vPush hI _) fun _ =>
    keeps_pure _) fun _ => ?_
  refine keeps_ite (fun _ => keeps_bind (size_lift _) fun _ => ?_) fun _ => ?_
  · exact keeps_bind (size_vPop hI) fun _ => keeps_bind (size_vPop hI) fun _ => keeps_bind (size_vPop hI) fun _ =>
      keeps_ite (fun _ => keeps_throw _) fun _ => keeps_pure _
  refine keeps_ite (fun _ => keeps_bind (size_lift _) fun _ => keeps_pure _) fun _ => ?_
  refine keeps_ite (fun _ => keeps_bind (size_execMemoryCopy hI) fun _ => keeps_pure _) fun _ => ?_
  exact keeps_ite (fun _ => keeps_bind (size_execMemoryFill hI) fun _ => keeps_pure _) fun _ => keeps_throw _

theorem size_execIf (bodyIdx : Nat) : Keeps I (execIf code bodyIdx body pc) := by
  refine keeps_bind (size_lift _) fun _ => keeps_bind (size_vPop hI) fun cond => ?_
  refine keeps_ite (fun _ => keeps_bind (size_ctrlPush hI _) fun _ => keeps_pure _) fun _ => ?_
  exact keeps_ite (fun _ => keeps_bind (size_ctrlPush hI _) fun _ => keeps_pure _) fun _ => keeps_pure _

theorem size_execCallIndirect : Keeps I (execCallIndirect code body pc) := by
  refine keeps_bind (size_lift _) fun _ => keeps_bind (size_lift _) fun _ => keeps_bind (size_vPop hI) fun i => ?_
  refine keeps_ite (fun _ => keeps_throw _) fun _ => keeps_ite (fun _ => keeps_throw _) fun _ => ?_
  exact keeps_ite (fun _ => keeps_throw _) fun _ => keeps_ite (fun _ => keeps_throw _) fun _ => keeps_pure _

theorem size_dispatch {fr : Frame} {op : Opc} (hop : op ≠ .memoryGrow) :
    Keeps I (dispatch code F fr body pc op) := by
  cases op with
  | memoryGrow => exact absurd rfl hop
  | nop => exact keeps_pure _
  | unreachable => exact keeps_throw _
  | unknown => exact keeps_throw _
  | return_ => exact keeps_pure _
  | block kind => exact keeps_bind (size_lift _) fun _ => keeps_bind (size_ctrlPush hI _) fun _ => keeps_pure _
  | if_ => exact size_execIf hI _
  | else_ =>
    refine keeps_get fun s h => wp_ite.mpr ⟨fun _ => h, fun _ => ?_⟩
    exact (wp_bind _).mpr (size_set hI h rfl rfl rfl rfl)
  | end_ =>
    refine keeps_get fun s h => wp_ite.mpr ⟨fun _ => ?_, fun _ => h⟩
    exact (wp_bind _).mpr (size_set hI h rfl rfl rfl rfl)
  | br => exact keeps_bind (size_lift _) fun _ => keeps_pure _
  | brIf =>
    exact keeps_bind (size_lift _) fun _ => keeps_bind (size_vPop hI) fun _ =>
      keeps_ite (fun _ => keeps_pure _) fun _ => keeps_pure _
  | brTable =>
    exact keeps_bind (size_lift _) fun _ => keeps_bind (size_vPop hI) fun _ => keeps_bind (size_lift _)
      fun _ => keeps_pure _
  | call => exact keeps_bind (size_lift _) fun _ => keeps_pure _
  | callIndirect => exact size_execCallIndirect hI
  | drop => exact keeps_bind (size_vPop hI) fun _ => keeps_pure _
  | select =>
    exact keeps_bind (size_vPop hI) fun _ => keeps_bind (size_vPop hI) fun _ => keeps_bind (size_vPop hI) fun _ =>
      keeps_bind (size_vPush hI _) fun _ => keeps_pure _
  | localGet =>
    exact keeps_bind (size_lift _) fun _ => keeps_ite (fun _ => keeps_throw _) fun _ =>
      keeps_ite (fun _ => keeps_throw _) fun _ => keeps_bind (size_vPush hI _) fun _ => keeps_pure _
  | localSet =>
    exact keeps_bind (size_lift _) fun _ => keeps_ite (fun _ => keeps_throw _) fun _ =>
      keeps_bind (size_vPop hI) fun _ => keeps_ite (fun _ => keeps_throw _) fun _ =>
      keeps_bind (size_setFrame hI _) fun _ => keeps_pure _
  | localTee =>
    refine keeps_bind (size_lift _) fun _ => keeps_ite (fun _ => keeps_throw _) fun _ => keeps_get fun s h => ?_
    refine wp_ite.mpr ⟨fun _ => h, fun _ => wp_ite.mpr ⟨fun _ => h, fun _ => ?_⟩⟩
    exact keeps_bind (size_setFrame hI _) (fun _ => keeps_pure _) s h
  | globalGet =>
    refine keeps_bind (size_lift _) fun _ => keeps_ite (fun _ => keeps_throw _) fun _ =>
      keeps_ite (fun _ => keeps_throw _) fun _ => keeps_get fun s h => ?_
    exact keeps_bind (size_vPush hI _) (fun _ => keeps_pure _) s h
  | globalSet =>
    refine keeps_bind (size_lift _) fun _ => keeps_ite (fun _ => keeps_throw _) fun _ =>
      keeps_bind (size_lift _) fun _ => ?_
    refine keeps_ite (fun _ => keeps_throw _) fun _ => keeps_bind (size_vPop hI) fun _ =>
      keeps_bind (keeps_modify fun s h => ?_) fun _ => keeps_pure _
    exact hI s _ rfl rfl rfl rfl h
  | load w ext => exact keeps_bind (size_execLoad hI w ext) fun _ => keeps_pure _
  | store w => exact keeps_bind (size_execStore hI w) fun _ => keeps_pure _
  | memorySize => exact keeps_get fun s h => keeps_bind (size_vPush hI _) (fun _ => keeps_pure _) s h
  | i32Const => exact keeps_bind (size_lift _) fun _ => keeps_bind (size_vPush hI _) fun _ => keeps_pure _
  | i64Const => exact keeps_bind (size_lift _) fun _ => keeps_bind (size_vPush hI _) fun _ => keeps_pure _
  | floatConst w =>
    exact keeps_ite (fun _ => keeps_throw _) fun _ => keeps_bind (size_vPush hI _) fun _ => keeps_pure _
  | num op => exact keeps_bind (size_execNum hI op) fun _ => keeps_pure _
  | bulk => exact keeps_bind (size_execBulk hI) fun _ => keeps_pure _

theorem size_callHost (h : HostFn ω) : Keeps I (callHost code h) := by
  intro s hs
  refine (wp_callHost code).mpr ?_
  unfold wp
  cases h code.memLen s.view with
  | ok _ v => exact hI s (s.withView v) rfl rfl rfl rfl hs
  | error e v => exact hI s (s.withView v) rfl rfl rfl rfl hs

end

section
variable {ω : Type} {code : Code (HostFn ω)} {I : State ω → Prop} (hI : SizeOnly I)
include hI

theorem size_doReturn : Keeps I doReturn := by
  refine keeps_get fun s h => ?_
  cases s.frames with
  | nil => exact h
  | cons fr rest => exact wp_ite.mpr ⟨fun _ => h, fun _ => (wp_set _).mpr (hI s _ rfl rfl rfl h)⟩

theorem size_doBr (n : Nat) : Keeps I (doBr n) := by
  refine keeps_get fun s h => ?_
  cases s.frames with
  | nil => exact h
  | cons fr rest =>
    refine wp_ite.mpr ⟨fun _ => h, fun _ => wp_ite.mpr ⟨fun _ => size_doReturn hI s h, fun _ =>
      wp_ite.mpr ⟨fun _ => h, fun _ => ?_⟩⟩⟩
    simp only
    split <;> exact (wp_set _).mpr (hI s _ rfl rfl rfl h)

theorem size_pushFrame (bodyIdx : Nat) : Keeps I (pushFrame code bodyIdx) := by
  refine keeps_get fun s h => wp_ite.mpr ⟨fun _ => h, fun _ => ?_⟩
  refine keeps_bind (size_lift _) (fun typeIdx => keeps_bind (size_lift _) fun declared => ?_) s h
  refine keeps_ite (fun _ => keeps_throw _) fun _ => keeps_bind (size_popParams hI.shape _ _) fun locals =>
    keeps_modify fun s h => ?_
  exact hI s _ rfl rfl rfl h

theorem size_invoke (callee : Nat) : Keeps I (invoke code callee) := by
  refine keeps_ite (fun _ => keeps_ite (fun _ => keeps_throw _) fun _ => ?_) fun _ =>
    keeps_ite (fun _ => keeps_throw _) fun _ => size_pushFrame hI _
  cases code.hostFns callee with
  | none => exact keeps_throw _
  | some f => exact size_callHost hI.shape f

theorem size_finish (next : Next) : Keeps I (finish code next) := by
  cases next with
  | seq pc => exact size_setFrame hI.shape _
  | br pc n => exact keeps_bind (size_setFrame hI.shape _) fun _ => size_doBr hI n
  | ret => exact size_doReturn hI
  | call pc callee => exact keeps_bind (size_setFrame hI.shape _) fun _ => size_invoke hI callee

theorem size_beginTask (hy : ∀ s, I s → I { s with yieldRequested := false }) (funcIdx : Nat)
    (args : List (BitVec 32)) :
    Keeps I (beginTask code funcIdx args) := by
  refine keeps_bind (keeps_modify fun s h => ?_) fun _ => keeps_bind (size_callArgs hI.shape args) fun _ => ?_
  · exact hI { s with yieldRequested := false } _ rfl rfl rfl (hy s h)
  · exact keeps_ite (fun _ => keeps_throw _) fun _ => keeps_ite (fun _ => keeps_throw _) fun _ =>
      size_pushFrame hI _

end

/-! ## One round -/

section
variable {ω : Type} (code : Code (HostFn ω))

/-- The next round is a `memory.grow`. -/
def GrowsNext (s : State ω) : Prop :=
  ∃ fr rest body, s.frames = fr :: rest ∧ code.bodies[fr.bodyIdx]? = some body ∧ body[fr.pc]? = some 0x40

def maxPages : Nat := code.memLen / PAGE_SIZE

/-- What `memory.grow` is to do in `s` with its operand in slot `base`. -/
def growOutcome (base : Nat) (fr : Frame) (rest : List Frame) (s : State ω) :
    EStateM.Result (Fault InterpError) (State ω) Unit :=
  let delta := u32 (s.vstack base)
  let frames := { fr with pc := fr.pc + 2 } :: rest
  if s.currentPages + delta ≤ maxPages code then
    .ok () { s with
      vstack := upd s.vstack base (BitVec.ofNat 64 s.currentPages)
      mem := fun k => if s.currentPages * PAGE_SIZE ≤ k ∧ k < (s.currentPages + delta) * PAGE_SIZE then 0
        else s.mem k
      currentPages := s.currentPages + delta
      activeMem := (s.currentPages + delta) * PAGE_SIZE
      frames }
  else .ok () { s with vstack := upd s.vstack base (-1), frames }

variable {code} {F : FloatOps} {s : State ω}

theorem decodeRest_ne_grow (b : UInt8) : decodeRest F b ≠ .memoryGrow := by
  unfold decodeRest
  split
  · exact fun h => by cases h
  split
  · exact fun h => by cases h
  split <;> exact fun h => by cases h

theorem decodeOp_grow {b : UInt8} (h : decodeOp F b = .memoryGrow) : b = 0x40 := by
  unfold decodeOp at h
  split at h
  all_goals first
    | exact uint8_eq ‹_›
    | exact absurd h (decodeRest_ne_grow b)
    | cases h

/-- A round keeps what looks at the size only, if it is no `memory.grow` or that instruction keeps it as well. -/
theorem size_step {I : State ω → Prop} (hI : SizeOnly I) (hy : ∀ s, I s → I { s with yieldRequested := false })
    (hgrow : GrowsNext code s → Keeps I (execMemoryGrow code)) (h : I s) :
    wp (step code F) (fun _ => I) (fun _ => I) s := by
  refine (wp_bind _).mpr (wp_get.mpr (wp_ite.mpr ⟨fun _ => (wp_bind _).mpr ((wp_set _).mpr (hy s h)), fun _ => ?_⟩))
  refine (wp_bind _).mpr ((wp_bind _).mpr (wp_get.mpr ?_))
  cases hfr : s.frames with
  | nil => exact h
  | cons fr rest =>
    refine (wp_pure _).mpr ((wp_bind _).mpr (wp_lift.mpr ⟨fun body hbody => ?_, fun _ _ => h⟩))
    cases hop : body[fr.pc]? with
    | none => exact size_doReturn hI s h
    | some b =>
      refine keeps_bind ?_ (fun next => size_finish hI next) s h
      by_cases hg : decodeOp F b = .memoryGrow
      · have hget : code.bodies[fr.bodyIdx]? = some body := by
          unfold tableAt at hbody
          split at hbody
          · cases hbody
            cases hidx : code.bodies[fr.bodyIdx]? with
            | none => simp [List.getD_eq_getElem?_getD, hidx] at hop
            | some body => rw [List.getD_eq_getElem?_getD, hidx]; rfl
          · cases hbody
        rw [hg]
        exact keeps_bind (hgrow ⟨fr, rest, body, hfr, hget, decodeOp_grow hg ▸ hop⟩) fun _ => keeps_pure _
      · exact size_dispatch hI.shape hg

/-! ## The instruction -/

/-- The size of the buffer is far from the end of `u32`, so that the saturated sum is the sum. -/
theorem grow_fits_iff (hlen : code.memLen < 2 ^ 47) (pages delta : Nat) :
    min (pages + delta) u32Max ≤ code.memLen / PAGE_SIZE ↔ pages + delta ≤ maxPages code := by
  have hdiv : code.memLen / PAGE_SIZE < 2 ^ 31 := Nat.div_lt_of_lt_mul hlen
  rw [maxPages, u32Max, Nat.min_def]
  split <;> omega

theorem execMemoryGrow_run {base : Nat} (hlen : code.memLen < 2 ^ 47) (hv : s.vsp = base + 1)
    (hd : s.vsp ≤ STACK_DEPTH) :
    execMemoryGrow code s =
      let delta := u32 (s.vstack base)
      if s.currentPages + delta ≤ maxPages code then
        .ok () { s with
          vstack := upd s.vstack base (BitVec.ofNat 64 s.currentPages)
          mem := fun k => if s.currentPages * PAGE_SIZE ≤ k ∧ k < (s.currentPages + delta) * PAGE_SIZE then 0
            else s.mem k
          currentPages := s.currentPages + delta
          activeMem := (s.currentPages + delta) * PAGE_SIZE }
      else .ok () { s with vstack := upd s.vstack base (-1) } := by
  refine Hoare.eq_of_wp ((wp_bind _).mpr ((wp_vPop hd).mpr ⟨fun h0 => by omega, fun n hn => ?_⟩))
  obtain rfl : n = base := by omega
  have hdelta : (lo32 (s.vstack n)).toNat = u32 (s.vstack n) := BitVec.toNat_setWidth ..
  rw [hdelta]
  refine (wp_bind _).mpr (wp_get.mpr (wp_ite.mpr ⟨fun hfit => ?_, fun hfit => ?_⟩))
  · rw [grow_fits_iff hlen] at hfit
    have hin : (s.currentPages + u32 (s.vstack n)) * PAGE_SIZE ≤ code.memLen :=
      (Nat.le_div_iff_mul_le (by decide)).mp hfit
    refine (wp_bind _).mpr ((wp_memSlice (Nat.mul_le_mul_right _ (Nat.le_add_right _ _)) hin).mpr ?_)
    refine (wp_bind _).mpr ((wp_set _).mpr (wp_vPush.mpr ⟨fun hfull => ?_, fun _ => ?_⟩))
    · simp only at hfull
      omega
    · rw [hv]
      exact if_pos hfit
  · rw [grow_fits_iff hlen] at hfit
    refine wp_vPush.mpr ⟨fun hfull => ?_, fun _ => ?_⟩
    · simp only at hfull
      omega
    · rw [hv]
      exact if_neg hfit

/-! ## Whole runs -/

/-- The cached limit agrees with the page count, which stays within the buffer. -/
structure SizeOk (code : Code (HostFn ω)) (s : State ω) : Prop where
  pages : PagesOk code.memLen s
  yieldRequested : s.yieldRequested = false

theorem sizeOk_sizeOnly : SizeOnly (SizeOk code) := by
  intro s s' hp ha hy h
  exact ⟨⟨by rw [ha, hp, h.pages.active], by rw [hp]; exact h.pages.within⟩, hy.trans h.yieldRequested⟩

theorem sizeOk_execMemoryGrow : Keeps (SizeOk code) (execMemoryGrow code) := by
  refine keeps_bind (size_vPop sizeOk_sizeOnly.shape) fun delta => keeps_get fun s h => ?_
  refine wp_ite.mpr ⟨fun _ => (wp_bind _).mpr (wp_ite.mpr ⟨fun hin => ?_, fun _ => h⟩), fun _ =>
    size_vPush sizeOk_sizeOnly.shape _ s h⟩
  refine (wp_pure _).mpr ((wp_bind _).mpr ((wp_set _).mpr (size_vPush sizeOk_sizeOnly.shape _ _ ?_)))
  exact ⟨⟨rfl, hin.2⟩, h.yieldRequested⟩

theorem sizeOk_enterRun : Keeps (SizeOk code) (enterRun (ω := ω)) :=
  keeps_modify fun _ h => ⟨⟨rfl, h.pages.within⟩, h.yieldRequested⟩

theorem reach_sizeOk {Ok : State ω → Prop} {s₀ : State ω} (h₀ : SizeOk code s₀) (hr : Reach code F Ok s₀ s) :
    SizeOk code s := by
  induction hr with
  | spawn => exact h₀
  | @start s funcIdx args _ ih =>
    have hbegin : Keeps (SizeOk code) (beginTask code funcIdx args) :=
      size_beginTask sizeOk_sizeOnly (fun s h => ⟨⟨h.pages.active, h.pages.within⟩, rfl⟩) funcIdx args
    exact Hoare.wp_after (keeps_bind hbegin (fun _ => sizeOk_enterRun) s ih)
  | @resume s _ ih => exact Hoare.wp_after (sizeOk_enterRun s ih)
  | @round s _ _ _ ih =>
    refine Hoare.wp_after (size_step sizeOk_sizeOnly (fun s h => ⟨⟨h.pages.active, h.pages.within⟩, rfl⟩)
      (fun _ => sizeOk_execMemoryGrow) ih)
  | @kernel s world _ ih => exact ⟨⟨ih.pages.active, ih.pages.within⟩, ih.yieldRequested⟩

/-- The page count changes by `memory.grow` only. -/
theorem reach_currentPages {s₁ s₂ : State ω} (hr : Reach code F (fun s => ¬ GrowsNext code s) s₁ s₂) :
    s₂.currentPages = s₁.currentPages := by
  have hI : SizeOnly (fun s : State ω => s.currentPages = s₁.currentPages) := fun s s' hp _ _ h => hp.trans h
  have henter : Keeps (fun s : State ω => s.currentPages = s₁.currentPages) enterRun := keeps_modify fun _ h => h
  induction hr with
  | spawn => rfl
  | @start s funcIdx args _ ih =>
    exact Hoare.wp_after (keeps_bind (size_beginTask hI (fun _ h => h) funcIdx args) (fun _ => henter) s ih)
  | @resume s _ ih => exact Hoare.wp_after (henter s ih)
  | @round s _ _ hno ih => exact Hoare.wp_after (size_step hI (fun _ h => h) (fun hg => absurd hg hno) ih)
  | kernel world _ ih => exact ih

theorem step_grow {base : Nat} {fr : Frame} {rest : List Frame} {body : List UInt8} (hb : BodiesOk code)
    (hs : SizeOk code s)
    (hfr : s.frames = fr :: rest) (hbody : code.bodies[fr.bodyIdx]? = some body) (hop : body[fr.pc]? = some 0x40)
    (hv : s.vsp = base + 1) (hd : s.vsp ≤ STACK_DEPTH) : step code F s = growOutcome code base fr rest s := by
  obtain ⟨hidx, _⟩ := body_ok hb hbody
  rw [step_dispatch hs.yieldRequested hfr hbody hidx hop, show decodeOp F 0x40 = .memoryGrow from rfl]
  have hrun := execMemoryGrow_run hb.memLen hv hd
  have hseq : ∀ s', execMemoryGrow code s = .ok () s' → s'.frames = fr :: rest →
      (dispatch code F fr body (fr.pc + 1) .memoryGrow >>= finish code) s =
        .ok () { s' with frames := { fr with pc := fr.pc + 2 } :: rest } := by
    intro s' hs' hfr'
    have hnext : dispatch code F fr body (fr.pc + 1) .memoryGrow s = .ok (.seq (fr.pc + 2)) s' := Hoare.bind_ok hs'
    rw [Hoare.bind_ok hnext]
    exact setPc_run hfr'
  unfold growOutcome
  simp only at hrun ⊢
  split at hrun
  · rename_i hfit
    rw [hseq _ hrun hfr, if_pos hfit]
  · rename_i hfit
    rw [hseq _ hrun hfr, if_neg hfit]

end

/-- In every state of every run the page count is within the maximum and the maximum within the buffer,
`memory.grow` does what it is for, loads and stores are checked against the page count, and no other
instruction changes it. -/
theorem memoryGrow_sound {ω : Type} (F : FloatOps) (lookupHost : List UInt8 → List UInt8 → Option (HostFn ω))
    (bytes : List UInt8)
    (inst : Instance (HostFn ω)) (hfit : Fits bytes) (h : instantiate lookupHost bytes = .ok inst) (world : ω)
    (s : State ω) (hr : Reach inst.code F (fun _ => True) (inst.initial world) s) :
    s.currentPages ≤ maxPages inst.code ∧ maxPages inst.code * PAGE_SIZE ≤ inst.code.memLen ∧
    (∀ s', Reach inst.code F (fun t => ¬ GrowsNext inst.code t) s s' → s'.currentPages = s.currentPages) ∧
    ∀ fr rest body, s.frames = fr :: rest → inst.code.bodies[fr.bodyIdx]? = some body → s.vsp ≤ STACK_DEPTH →
      (∀ base, body[fr.pc]? = some 0x40 → s.vsp = base + 1 →
        step inst.code F s = growOutcome inst.code base fr rest s) ∧
      (∀ op offset pc' base, MemAt body fr.pc (.load op offset) pc' → s.vsp = base + 1 →
        step inst.code F s = (MemInstr.load op offset).outcome base pc' fr rest s) ∧
      ∀ op offset pc' base, MemAt body fr.pc (.store op offset) pc' → s.vsp = base + 2 →
        step inst.code F s = (MemInstr.store op offset).outcome base pc' fr rest s := by
  have hb := instantiate_bodiesOk hfit h
  obtain ⟨_, _, _, _, hmem, hpages, _⟩ := instantiate_limits hfit h
  have hinit : SizeOk inst.code (inst.initial world) := by
    refine ⟨⟨rfl, ?_⟩, rfl⟩
    rw [hmem]
    exact Nat.mul_le_mul_right _ hpages
  have hs := reach_sizeOk hinit hr
  refine ⟨(Nat.le_div_iff_mul_le (by decide)).mpr hs.pages.within, Nat.div_mul_le_self _ _, fun s' hr' =>
    reach_currentPages hr', ?_⟩
  intro fr rest body hfr hbody hd
  have hready : MemReady inst.code s := ⟨hd, hs.pages, hs.yieldRequested⟩
  refine ⟨fun base hop hv => step_grow hb hs hfr hbody hop hv hd, fun op offset pc' base hat hv => ?_,
    fun op offset pc' base hat hv => ?_⟩
  · exact step_load hb hbody hready hfr hat hv
  · exact step_store hb hbody hready hfr hat hv

/-- `i32.const 1`, `memory.grow`, `drop` -/
def growModule : List UInt8 := oneFunctionMemory [0x41, 0x01, 0x40, 0x00, 0x1A, 0x0B]

theorem memoryGrow_sound_onePage :
    ∃ inst : Instance (HostFn Unit), instantiate (fun _ _ => none) growModule = .ok inst ∧
    ∃ s fr, Reach inst.code default (fun _ => True) (inst.initial ()) s ∧ s.frames = [fr] ∧ s.currentPages = 1 ∧
      step inst.code default s = growOutcome inst.code 0 fr [] s ∧ ∃ s', growOutcome inst.code 0 fr [] s =
      .ok () s' ∧ s'.currentPages = 2 := by
  refine ⟨_, rfl, _, _, .round (.start 0 [] .spawn) nofun trivial, rfl, rfl, ?_, _, rfl, rfl⟩
  have hsound := memoryGrow_sound default (fun _ _ => none) growModule _ (show _ < _ by decide) rfl () _
    (.round (.start 0 [] .spawn) nofun trivial)
  exact (hsound.2.2.2 _ [] _ rfl rfl (by decide)).1 0 rfl rfl

end WasmOs
