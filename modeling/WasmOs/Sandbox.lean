import WasmOs.InterpSpec
import WasmOs.InstanceSpec

/-!
# Interpreting unvalidated code

Bodies are never validated, so every byte string is executed. `Safe` is what each round keeps: the
three stacks stay in their arrays and the control bases of the frames are ordered. `StepOk` lists
the four ways in which a round can still go wrong.
-/

namespace WasmOs

open Hoare (wp wp_bind wp_pure wp_throw wp_get wp_set wp_modify wp_ite wp_mono)

section
variable {ω : Type}

/-- However the host function ends, the stack pointer is inside the value stack. -/
def HostFn.Keeps (h : HostFn ω) (memLen : Nat) : Prop :=
  Hoare.Keeps (fun v : HostView ω => v.vsp ≤ STACK_DEPTH) (h memLen)

theorem hostYield_keeps (memLen : Nat) : HostFn.Keeps (hostYield : HostFn ω) memLen := fun _ hv => hv

structure CodeOk (code : Code (HostFn ω)) : Prop where
  bodies : code.bodies.length ≤ MAX_FUNCS
  fits : ∀ b ∈ code.bodies, Fits b
  globals : code.globalMutable.length ≤ MAX_GLOBALS
  table : code.table.size ≤ MAX_TABLE
  memLen : code.memLen < 2 ^ 47
  hosts : ∀ i h, code.hostFns i = some h → h.Keeps code.memLen

/-- The control bases of the frames, innermost first, do not exceed one another. -/
def Bases : Nat → List Frame → Prop
  | _, [] => True
  | d, fr :: rest => fr.ctrlBase ≤ d ∧ Bases fr.ctrlBase rest

structure FrameOk (code : Code (HostFn ω)) (fr : Frame) : Prop where
  bodyIdx : fr.bodyIdx < code.bodies.length
  localCount : fr.localCount ≤ MAX_LOCALS
  vspBase : fr.vspBase ≤ STACK_DEPTH

structure Safe (code : Code (HostFn ω)) (s : State ω) : Prop where
  vsp : s.vsp ≤ STACK_DEPTH
  fdepth : s.frames.length ≤ CALL_DEPTH
  ctrlDepth : s.ctrlDepth ≤ MAX_CTRL_DEPTH
  bases : Bases s.ctrlDepth s.frames
  frames : ∀ fr ∈ s.frames, FrameOk code fr
  pages : PagesOk code.memLen s

def SafeErr (code : Code (HostFn ω)) (e : Fault InterpError) (s : State ω) : Prop :=
  (∃ err, e = .err err) ∧ Safe code s

theorem bases_sig : ∀ {frames frames' : List Frame} {d : Nat}, frames'.map Frame.sig = frames.map Frame.sig →
    Bases d frames → Bases d frames'
  | [], frames', d, h, _ => by
    rw [List.map_nil, List.map_eq_nil_iff] at h; subst h; trivial
  | fr :: rest, [], d, h, _ => by cases h
  | fr :: rest, fr' :: rest', d, h, hb => by
    simp only [List.map_cons, List.cons.injEq] at h
    obtain ⟨_, _, _, hbase, _⟩ := Frame.sig_eq h.1
    exact ⟨hbase ▸ hb.1, hbase ▸ bases_sig h.2 hb.2⟩

theorem frameOk_sig {code : Code (HostFn ω)} {frames frames' : List Frame}
    (h : frames'.map Frame.sig = frames.map Frame.sig)
    (hf : ∀ fr ∈ frames, FrameOk code fr) : ∀ fr ∈ frames', FrameOk code fr := by
  intro fr' hfr'
  have hmem : fr'.sig ∈ frames.map Frame.sig := h ▸ List.mem_map_of_mem hfr'
  obtain ⟨fr, hfr, hsig⟩ := List.mem_map.mp hmem
  obtain ⟨h1, h2, h3⟩ := hf fr hfr
  obtain ⟨e1, _, e2, _, e3, _⟩ := Frame.sig_eq hsig
  exact ⟨e1 ▸ h1, e2 ▸ h2, e3 ▸ h3⟩

variable {code : Code (HostFn ω)} {F : FloatOps}

theorem Safe.eff {s₀ s : State ω} {p q : Nat} (h : Safe code s₀) (he : Eff code.memLen s₀ p q s) : Safe code s := by
  have hlen : s.frames.length = s₀.frames.length := by simpa using congrArg List.length he.frames
  exact ⟨he.depth, hlen ▸ h.fdepth, he.ctrlDepth ▸ h.ctrlDepth, he.ctrlDepth ▸ bases_sig he.frames h.bases,
    frameOk_sig he.frames h.frames, he.pagesOk h.pages⟩

theorem Safe.fails {s₀ s : State ω} {p : Nat} {e : Fault InterpError} (h : Safe code s₀)
    (he : Fails code.memLen s₀ p e s) :
    SafeErr code e s := by
  obtain ⟨err, rfl, ⟨p', q', heff⟩, _⟩ := he
  exact ⟨⟨err, rfl⟩, h.eff heff⟩

/-! ## What can go wrong -/

/-- A kernel function ends, in a value or in an error value. -/
def Returns {σ α : Type} : EStateM.Result (Fault InterpError) σ α → Prop
  | .error .panic _ | .error .hang _ => False
  | _ => True

/-- The next round executes `op` in frame `fr`. -/
def At (code : Code (HostFn ω)) (F : FloatOps) (s : State ω) (fr : Frame) (body : List UInt8) (op : Opc) : Prop :=
  s.frames.head? = some fr ∧ code.bodies[fr.bodyIdx]? = some body ∧ ∃ b, body[fr.pc]? = some b ∧ decodeOp F b = op

/-- The next round returns from frame `fr`: at the end of its body, at its last `end`, by `return` or by
a branch past its outermost block. -/
def Leaves (code : Code (HostFn ω)) (F : FloatOps) (s : State ω) (fr : Frame) : Prop :=
  (s.frames.head? = some fr ∧ ∃ body, code.bodies[fr.bodyIdx]? = some body ∧ body.length ≤ fr.pc) ∨
  ∃ body op next s', At code F s fr body op ∧ dispatch code F fr body (fr.pc + 1) op s = .ok next s' ∧
    (next = .ret ∨ ∃ pc n, next = .br pc n ∧ s.ctrlDepth - fr.ctrlBase ≤ n)

structure StepOk (code : Code (HostFn ω)) (F : FloatOps) (s : State ω) : Prop where
  /-- the results of a frame that is left fit on the value stack -/
  results : ∀ fr, Leaves code F s fr → fr.vspBase + fr.resultCount ≤ STACK_DEPTH
  /-- an `else` ends a block of its own frame -/
  elses : ∀ fr body, At code F s fr body .else_ → fr.ctrlBase < s.ctrlDepth
  /-- a called import has a slot in the table of host functions -/
  imports : ∀ fr body callee pc, At code F s fr body .call →
    readU32 body InterpError.malformedCode (fr.pc + 1) = .ok (callee, pc) → callee < code.importCount →
    callee < MAX_FUNCS
  /-- a host function that is called ends -/
  hosts : ∀ fr body op pc callee h s', At code F s fr body op →
    dispatch code F fr body (fr.pc + 1) op s = .ok (.call pc callee) s' →
    callee < code.importCount → code.hostFns callee = some h → Returns (h code.memLen s'.view)
  /-- the jump table has a free slot or an entry for a block that is entered -/
  jumps : ∀ fr body op, At code F s fr body op → (∃ kind, op = .block kind) ∨ op = .if_ →
    jumpLookup code.jumpTable fr.bodyIdx (fr.pc + 2) ≠ .error .hang

/-! ## Rounds -/

def Next.Ok (code : Code (HostFn ω)) (s s' : State ω) : Next → Prop
  | .br _ _ => s'.ctrlDepth = s.ctrlDepth
  | .call _ callee => callee < code.importCount → callee < MAX_FUNCS
  | _ => True

/-- After an instruction from `s`. -/
def Dispatched (code : Code (HostFn ω)) (s : State ω) (next : Next) (s' : State ω) : Prop :=
  Safe code s' ∧ s'.frames.map Frame.sig = s.frames.map Frame.sig ∧ next.Ok code s s'

section
variable {s : State ω} {fr : Frame} {body : List UInt8} {pc : Nat} (hc : CodeOk code) (hs : Safe code s)
include hs

theorem Safe.refuses {α : Type} {e : InterpError} {Q : α → State ω → Prop} :
    wp (throw (.err e) : Interp ω α) Q (SafeErr code) s := ⟨⟨e, rfl⟩, hs⟩

theorem Safe.unread {α β : Type} {m : Rust InterpError α} {k : α → Interp ω β} {Q : β → State ω → Prop}
    (h : m = .error (.err .malformedCode)) : wp (lift m >>= k) Q (SafeErr code) s := by
  refine (wp_bind _).mpr (wp_lift.mpr ⟨fun a ha => ?_, fun e he => ?_⟩)
  · rw [h] at ha; cases ha
  · rw [h] at he; cases he; exact ⟨⟨_, rfl⟩, hs⟩

theorem Safe.set_ctrlDepth {ctrl : Nat → CtrlFrame} {d : Nat} (hd : d ≤ MAX_CTRL_DEPTH)
    (hb : ∀ fr, s.frames.head? = some fr → fr.ctrlBase ≤ d) :
    Safe code { s with ctrl, ctrlDepth := d } := by
  refine ⟨hs.vsp, hs.fdepth, hd, ?_, hs.frames, ⟨hs.pages.active, hs.pages.within⟩⟩
  have hbases := hs.bases
  simp only
  cases hfs : s.frames with
  | nil => trivial
  | cons fr rest =>
    rw [hfs] at hbases hb
    exact ⟨hb fr rfl, hbases.2⟩

theorem Safe.base (hfr : s.frames.head? = some fr) : fr.ctrlBase ≤ s.ctrlDepth := by
  obtain ⟨rest, hrest⟩ := List.head?_eq_some_iff.mp hfr
  have := hs.bases
  rw [hrest] at this
  exact this.1

theorem dispatch_safe_push {cf : CtrlFrame} {pc' : Nat} :
    wp (ctrlPush cf >>= fun _ => (pure (.seq pc') : Interp ω Next)) (Dispatched code s) (SafeErr code) s := by
  refine (wp_bind _).mpr ((wp_bind _).mpr (wp_get.mpr (wp_ite.mpr ⟨fun _ => ⟨⟨_, rfl⟩, hs⟩, fun hlt => ?_⟩)))
  refine (wp_set _).mpr (wp_pure _ |>.mpr ⟨hs.set_ctrlDepth (by omega) fun fr' hfr' => ?_, rfl, trivial⟩)
  have := hs.base hfr'
  omega

theorem Safe.popped {k : BitVec 64 → Interp ω Next}
    (hk : ∀ v s', Eff code.memLen s 1 0 s' → Safe code s' → wp (k v) (Dispatched code s') (SafeErr code) s') :
    wp (vPop >>= k) (Dispatched code s) (SafeErr code) s := by
  refine (wp_bind _).mpr (wp_mono (fun _ _ h => h) (fun e s' he => hs.fails he)
    (Eff.vPop (Eff.refl hs.vsp) Nat.one_pos fun v s' he => ?_))
  refine wp_mono ?_ (fun _ _ h => h) (hk v s' he (hs.eff he))
  rintro next s'' ⟨h1, h2, h3⟩
  refine ⟨h1, h2.trans he.frames, ?_⟩
  cases next with
  | br pc n => exact h3.trans he.ctrlDepth
  | _ => exact h3

include hc

theorem dispatch_safe_straight (hfr : s.frames.head? = some fr) {op : Opc} {pc' p q : Nat}
    (hop : Straightline code fr body pc op pc' p q) :
    wp (dispatch code F fr body pc op) (Dispatched code s) (SafeErr code) s := by
  obtain ⟨rest, hrest⟩ := List.head?_eq_some_iff.mp hfr
  have hne : s.frames ≠ [] := by rw [hrest]; exact List.cons_ne_nil _ _
  have hl := (hs.frames fr (by rw [hrest]; exact List.mem_cons_self)).localCount
  refine wp_mono ?_ (fun e s' he => hs.fails he) (dispatch_straight hs.vsp hs.pages hc.memLen hne hl hc.globals hop)
  rintro next s' ⟨he, rfl⟩
  exact ⟨hs.eff he, he.frames, trivial⟩

variable (hfr : s.frames.head? = some fr) (hfit : Fits body) (hpc : pc ≤ body.length)
include hfr hfit hpc

theorem dispatch_safe_bulk : wp (dispatch code F fr body pc .bulk) (Dispatched code s) (SafeErr code) s := by
  rcases readU32_cases (e := InterpError.malformedCode) hfit hpc with hr | ⟨sub, pc', hr, hpc'⟩
  · exact (wp_bind _).mpr (hs.unread hr)
  by_cases hsat : sub < 8
  · exact dispatch_safe_straight hc hs hfr (.truncSat hr hsat)
  by_cases h8 : sub = 8
  · subst h8
    rcases readU32_cases (e := InterpError.malformedCode) hfit hpc' with hr' | ⟨seg, pc'', hr', _⟩
    · refine (wp_bind _).mpr
        ((wp_bind _).mpr ((wp_lift_ok hr).mpr (wp_ite.mpr ⟨fun hlt => absurd hlt hsat, fun _ => ?_⟩)))
      exact wp_ite.mpr ⟨fun _ => hs.unread hr', fun hne => absurd rfl hne⟩
    · refine wp_mono ?_ ?_ (dispatch_memoryInit hs.vsp hr hr')
      · rintro next s' ⟨he, rfl⟩
        exact ⟨hs.eff he, he.frames, trivial⟩
      · rintro e s' ⟨err, rfl, p, q, he⟩
        exact ⟨⟨err, rfl⟩, hs.eff he⟩
  by_cases h9 : sub = 9
  · subst h9
    rcases readU32_cases (e := InterpError.malformedCode) hfit hpc' with hr' | ⟨seg, pc'', hr', _⟩
    · refine (wp_bind _).mpr
        ((wp_bind _).mpr ((wp_lift_ok hr).mpr (wp_ite.mpr ⟨fun hlt => absurd hlt hsat, fun _ => ?_⟩)))
      refine wp_ite.mpr ⟨fun heq => absurd heq h8, fun _ => ?_⟩
      exact wp_ite.mpr ⟨fun _ => hs.unread hr', fun hne => absurd rfl hne⟩
    · exact dispatch_safe_straight hc hs hfr (.dataDrop hr hr')
  by_cases h10 : sub = 10
  · subst h10
    exact dispatch_safe_straight hc hs hfr (.memoryCopy hr)
  by_cases h11 : sub = 11
  · subst h11
    exact dispatch_safe_straight hc hs hfr (.memoryFill hr)
  refine (wp_bind _).mpr
    ((wp_bind _).mpr ((wp_lift_ok hr).mpr (wp_ite.mpr ⟨fun hlt => absurd hlt hsat, fun _ => ?_⟩)))
  refine wp_ite.mpr ⟨fun heq => absurd heq h8, fun _ => wp_ite.mpr ⟨fun heq => absurd heq h9, fun _ => ?_⟩⟩
  exact wp_ite.mpr ⟨fun heq => absurd heq h10, fun _ => wp_ite.mpr ⟨fun heq => absurd heq h11, fun _ => hs.refuses⟩⟩

/-- Any instruction at any position, but for the four cases of `StepOk`. -/
theorem dispatch_safe (op : Opc) (helse : op = .else_ → fr.ctrlBase < s.ctrlDepth)
    (himport : op = .call → ∀ callee pc', readU32 body InterpError.malformedCode pc = .ok (callee, pc') →
      callee < code.importCount → callee < MAX_FUNCS)
    (hjump : (∃ kind, op = .block kind) ∨ op = .if_ →
      jumpLookup code.jumpTable fr.bodyIdx (pc + 1) ≠ .error .hang) :
    wp (dispatch code F fr body pc op) (Dispatched code s) (SafeErr code) s := by
  have straight : ∀ {op : Opc} {pc' p q : Nat}, Straightline code fr body pc op pc' p q →
      wp (dispatch code F fr body pc op) (Dispatched code s) (SafeErr code) s := dispatch_safe_straight hc hs hfr
  have hread := readU32_cases (e := InterpError.malformedCode) hfit hpc
  cases op with
  | nop => exact straight .nop
  | drop => exact straight .drop
  | select => exact straight .select
  | memorySize => exact straight .memorySize
  | memoryGrow => exact straight .memoryGrow
  | num op => exact straight (.num op)
  | unreachable => exact hs.refuses
  | unknown => exact hs.refuses
  | return_ => exact ⟨hs, rfl, trivial⟩
  | bulk => exact dispatch_safe_bulk hc hs hfr hfit hpc
  | block kind =>
    rcases blockTargets_cases hfit (hjump (.inl ⟨kind, rfl⟩)) with ht | ⟨t, ht⟩
    · exact hs.unread ht
    · exact (wp_bind _).mpr ((wp_lift_ok ht).mpr (dispatch_safe_push hs))
  | if_ =>
    rcases blockTargets_cases hfit (hjump (.inr rfl)) with ht | ⟨t, ht⟩
    · exact hs.unread ht
    refine (wp_bind _).mpr
      ((wp_lift_ok ht).mpr (hs.popped fun cond s' _ hs' => wp_ite.mpr ⟨fun _ => ?_, fun _ => ?_⟩))
    · exact dispatch_safe_push hs'
    · exact wp_ite.mpr ⟨fun _ => dispatch_safe_push hs', fun _ => ⟨hs', rfl, trivial⟩⟩
  | else_ =>
    have hlt := helse rfl
    have hmax := hs.ctrlDepth
    refine (wp_bind _).mpr
      (wp_get.mpr (wp_ite.mpr ⟨fun hbad => by omega, fun _ => (wp_bind _).mpr ((wp_set _).mpr ?_)⟩))
    refine ⟨hs.set_ctrlDepth (by omega) fun fr' hfr' => ?_, rfl, trivial⟩
    rw [hfr] at hfr'
    cases hfr'
    omega
  | end_ =>
    have hmax := hs.ctrlDepth
    refine (wp_bind _).mpr
      (wp_get.mpr (wp_ite.mpr ⟨fun hlt => (wp_bind _).mpr ((wp_set _).mpr ?_), fun _ => ⟨hs, rfl, trivial⟩⟩))
    refine ⟨hs.set_ctrlDepth (by omega) fun fr' hfr' => ?_, rfl, trivial⟩
    rw [hfr] at hfr'
    cases hfr'
    omega
  | br =>
    rcases hread with hr | ⟨n, pc', hr, _⟩
    · exact hs.unread hr
    · exact (wp_bind _).mpr ((wp_lift_ok hr).mpr ⟨hs, rfl, rfl⟩)
  | brIf =>
    rcases hread with hr | ⟨n, pc', hr, _⟩
    · exact hs.unread hr
    · refine (wp_bind _).mpr ((wp_lift_ok hr).mpr (hs.popped fun cond s' _ hs' => ?_))
      exact wp_ite.mpr ⟨fun _ => ⟨hs', rfl, rfl⟩, fun _ => ⟨hs', rfl, trivial⟩⟩
  | brTable =>
    rcases hread with hr | ⟨count, pos, hr, hpos⟩
    · exact hs.unread hr
    refine (wp_bind _).mpr ((wp_lift_ok hr).mpr (hs.popped fun i s' _ hs' => ?_))
    rcases brTable_cases hfit (count + 1) 0 pos 0 hpos with ht | ⟨r, ht⟩
    · exact hs'.unread ht
    · exact (wp_bind _).mpr ((wp_lift_ok ht).mpr ⟨hs', rfl, rfl⟩)
  | call =>
    rcases hread with hr | ⟨callee, pc', hr, _⟩
    · exact hs.unread hr
    · exact (wp_bind _).mpr ((wp_lift_ok hr).mpr ⟨hs, rfl, himport rfl callee pc' hr⟩)
  | callIndirect =>
    rcases hread with hr | ⟨typeIdx, pc', hr, hpc'⟩
    · exact hs.unread hr
    refine (wp_bind _).mpr ((wp_lift_ok hr).mpr ?_)
    have htype := (readU32_bounds hfit hr).1
    rcases readU32_cases (e := InterpError.malformedCode) hfit hpc' with hr' | ⟨_, pc'', hr', _⟩
    · exact hs.unread hr'
    refine (wp_bind _).mpr
      ((wp_lift_ok hr').mpr (hs.popped fun i s' _ hs' => wp_ite.mpr ⟨fun _ => hs'.refuses, fun hsize => ?_⟩))
    have := hc.table
    refine wp_ite.mpr ⟨fun hbad => by omega, fun _ => wp_ite.mpr ⟨fun _ => hs'.refuses, fun _ => ?_⟩⟩
    -- a callee without a slot has no type either
    refine wp_ite.mpr ⟨fun _ => hs'.refuses, fun heq => ⟨hs', rfl, fun _ => ?_⟩⟩
    by_contra hge
    rw [if_neg hge, not_not] at heq
    unfold usizeMax at heq
    omega
  | localGet =>
    rcases hread with hr | ⟨idx, pc', hr, _⟩
    · exact hs.unread hr
    by_cases hidx : idx < fr.localCount
    · exact straight (.localGet hr hidx)
    · exact (wp_bind _).mpr
        ((wp_lift_ok hr).mpr (wp_ite.mpr ⟨fun _ => hs.refuses, fun hlt => absurd hlt (by omega)⟩))
  | localSet =>
    rcases hread with hr | ⟨idx, pc', hr, _⟩
    · exact hs.unread hr
    by_cases hidx : idx < fr.localCount
    · exact straight (.localSet hr hidx)
    · exact (wp_bind _).mpr
        ((wp_lift_ok hr).mpr (wp_ite.mpr ⟨fun _ => hs.refuses, fun hlt => absurd hlt (by omega)⟩))
  | localTee =>
    rcases hread with hr | ⟨idx, pc', hr, _⟩
    · exact hs.unread hr
    by_cases hidx : idx < fr.localCount
    · exact straight (.localTee hr hidx)
    · exact (wp_bind _).mpr
        ((wp_lift_ok hr).mpr (wp_ite.mpr ⟨fun _ => hs.refuses, fun hlt => absurd hlt (by omega)⟩))
  | globalGet =>
    rcases hread with hr | ⟨idx, pc', hr, _⟩
    · exact hs.unread hr
    by_cases hidx : idx < code.globalMutable.length
    · exact straight (.globalGet hr hidx)
    · exact (wp_bind _).mpr
        ((wp_lift_ok hr).mpr (wp_ite.mpr ⟨fun _ => hs.refuses, fun hlt => absurd hlt (by omega)⟩))
  | globalSet =>
    rcases hread with hr | ⟨idx, pc', hr, _⟩
    · exact hs.unread hr
    by_cases hm : code.globalMutable[idx]? = some true
    · exact straight (.globalSet hr hm)
    refine (wp_bind _).mpr ((wp_lift_ok hr).mpr (wp_ite.mpr ⟨fun _ => hs.refuses, fun hlt => ?_⟩))
    have hg := hc.globals
    have ht : (tableAt MAX_GLOBALS code.globalMutable false idx : Rust InterpError Bool) = .ok false := by
      rw [tableAt, if_pos (by omega), List.getD_eq_getElem?_getD]
      rw [List.getElem?_eq_getElem (by omega)] at hm ⊢
      cases hb : code.globalMutable[idx] with
      | true => rw [hb] at hm; exact absurd rfl hm
      | false => rfl
    exact (wp_bind _).mpr
      ((wp_lift_ok ht).mpr (wp_ite.mpr ⟨fun _ => hs.refuses, fun hne => absurd Bool.false_ne_true hne⟩))
  | load w ext =>
    rcases readMemarg_cases hfit hpc with hr | ⟨offset, pc', hr⟩
    · exact (wp_bind _).mpr (hs.unread hr)
    · exact straight (.load hr)
  | store w =>
    rcases readMemarg_cases hfit hpc with hr | ⟨offset, pc', hr⟩
    · exact (wp_bind _).mpr (hs.unread hr)
    · exact straight (.store hr)
  | i32Const =>
    rcases readAt_cases (e := InterpError.malformedCode) readI32Leb128_bounds hfit hpc with hr | ⟨v, pc', hr, _⟩
    · exact hs.unread hr
    · exact straight (.i32Const hr)
  | i64Const =>
    rcases readAt_cases (e := InterpError.malformedCode) readI64Leb128_bounds hfit hpc with hr | ⟨v, pc', hr, _⟩
    · exact hs.unread hr
    · exact straight (.i64Const hr)
  | floatConst w =>
    by_cases hw : pc + w ≤ body.length
    · exact straight (.floatConst hw)
    · exact wp_ite.mpr ⟨fun _ => hs.refuses, fun hlt => absurd hlt (by omega)⟩

end

section
variable {s : State ω} {fr : Frame} {rest : List Frame} (hs : Safe code s)
include hs

/-- A new position in the innermost frame, together with a control depth that is not below its base. -/
theorem Safe.set_pc (hfr : s.frames = fr :: rest) (pc : Nat) {d : Nat} (hd : d ≤ MAX_CTRL_DEPTH)
    (hb : fr.ctrlBase ≤ d) :
    Safe code { s with ctrlDepth := d, frames := { fr with pc } :: rest } := by
  obtain ⟨hvsp, hfd, _, hbases, hframes, hpages⟩ := hs
  rw [hfr] at hfd hbases hframes
  refine ⟨hvsp, hfd, hd, ⟨hb, hbases.2⟩, fun fr' hfr' => ?_, ⟨hpages.active, hpages.within⟩⟩
  rcases List.mem_cons.mp hfr' with rfl | hmem
  · obtain ⟨h1, h2, h3⟩ := hframes fr List.mem_cons_self
    exact ⟨h1, h2, h3⟩
  · exact hframes fr' (List.mem_cons_of_mem _ hmem)

theorem doReturn_safe (hfr : s.frames = fr :: rest) (hres : fr.vspBase + fr.resultCount ≤ STACK_DEPTH) :
    wp doReturn (fun _ => Safe code) (SafeErr code) s := by
  have hbases := hs.bases
  have hfd := hs.fdepth
  have hvsp := hs.vsp
  have hctrl := hs.ctrlDepth
  rw [hfr] at hbases hfd
  unfold doReturn
  refine (wp_bind _).mpr (wp_get.mpr ?_)
  rw [hfr]
  refine wp_ite.mpr ⟨fun hbad => by omega, fun _ => (wp_set _).mpr ?_⟩
  refine ⟨hres, ?_, Nat.le_trans hbases.1 hctrl, hbases.2, fun fr' hfr' => hs.frames fr' ?_,
    ⟨hs.pages.active, hs.pages.within⟩⟩
  · simp only [List.length_cons] at hfd
    exact Nat.le_of_succ_le hfd
  · rw [hfr]; exact List.mem_cons_of_mem _ hfr'

theorem doBr_safe (hfr : s.frames = fr :: rest) {n : Nat}
    (hres : s.ctrlDepth - fr.ctrlBase ≤ n → fr.vspBase + fr.resultCount ≤ STACK_DEPTH) :
    wp (doBr n) (fun _ => Safe code) (SafeErr code) s := by
  have hbase := hs.base (by rw [hfr]; rfl)
  have hctrl := hs.ctrlDepth
  unfold doBr
  refine (wp_bind _).mpr (wp_get.mpr ?_)
  rw [hfr]
  refine wp_ite.mpr ⟨fun hbad => by omega, fun _ => wp_ite.mpr ⟨fun hn => doReturn_safe hs hfr (hres hn),
    fun hn => ?_⟩⟩
  refine wp_ite.mpr ⟨fun hbad => by omega, fun _ => ?_⟩
  simp only
  split
  · exact (wp_set _).mpr (hs.set_pc hfr _ (by omega) (by omega))
  · exact (wp_set _).mpr (hs.set_pc hfr _ (by omega) (by omega))

theorem Safe.set_vsp {m : Nat} (hm : m ≤ s.vsp) : Safe code { s with vsp := m } :=
  ⟨Nat.le_trans hm hs.vsp, hs.fdepth, hs.ctrlDepth, hs.bases, hs.frames, ⟨hs.pages.active, hs.pages.within⟩⟩

variable (hc : CodeOk code)
include hc

theorem pushFrame_safe {bodyIdx : Nat} (hidx : bodyIdx < code.bodies.length) :
    wp (pushFrame code bodyIdx) (fun _ => Safe code) (SafeErr code) s := by
  refine wp_mono ?_ ?_ (pushFrame_wp code (Nat.lt_of_lt_of_le hidx hc.bodies) hs.vsp)
  · rintro _ s' ⟨base, hbase, hdepth, hlocals, rfl⟩
    have hv := hs.vsp
    refine ⟨by simp only; omega, hdepth, hs.ctrlDepth, ⟨Nat.le_refl _, hs.bases⟩, fun fr' hfr' => ?_,
      ⟨hs.pages.active, hs.pages.within⟩⟩
    rcases List.mem_cons.mp hfr' with rfl | hmem
    · exact ⟨hidx, hlocals, by simp only [calleeFrame]; omega⟩
    · exact hs.frames fr' hmem
  · rintro e s' ⟨⟨m, hm, rfl⟩, rfl | rfl | ⟨rfl, _⟩⟩ <;> exact ⟨⟨_, rfl⟩, hs.set_vsp hm⟩

theorem invoke_safe {callee : Nat} (hcallee : callee < code.importCount → callee < MAX_FUNCS)
    (hreturns : ∀ h, callee < code.importCount → code.hostFns callee = some h → Returns (h code.memLen s.view)) :
    wp (invoke code callee) (fun _ => Safe code) (SafeErr code) s := by
  unfold invoke
  refine wp_ite.mpr ⟨fun himp => wp_ite.mpr ⟨fun hbad => ?_, fun _ => ?_⟩, fun _ =>
    wp_ite.mpr ⟨fun _ => ⟨⟨_, rfl⟩, hs⟩, fun hidx => ?_⟩⟩
  · have := hcallee himp
    omega
  · cases hh : code.hostFns callee with
    | none => exact ⟨⟨_, rfl⟩, hs⟩
    | some h =>
      have hvsp := hc.hosts callee h hh s.view hs.vsp
      have hends := hreturns h himp hh
      refine (wp_callHost code).mpr ?_
      unfold wp at hvsp ⊢
      cases hr : h code.memLen s.view with
      | ok a v =>
        rw [hr] at hvsp
        exact ⟨hvsp, hs.fdepth, hs.ctrlDepth, hs.bases, hs.frames, ⟨hs.pages.active, hs.pages.within⟩⟩
      | error e v =>
        rw [hr] at hvsp hends
        refine ⟨?_, hvsp, hs.fdepth, hs.ctrlDepth, hs.bases, hs.frames, ⟨hs.pages.active, hs.pages.within⟩⟩
        cases e with
        | err e => exact ⟨e, rfl⟩
        | panic => exact hends.elim
        | hang => exact hends.elim
  · exact pushFrame_safe hs hc (by omega)

theorem finish_safe (hfr : s.frames = fr :: rest) {next : Next}
    (hleave : (next = .ret ∨ ∃ pc n, next = .br pc n ∧ s.ctrlDepth - fr.ctrlBase ≤ n) →
      fr.vspBase + fr.resultCount ≤ STACK_DEPTH)
    (hcall : ∀ pc callee, next = .call pc callee → callee < code.importCount → callee < MAX_FUNCS)
    (hreturns : ∀ pc callee h, next = .call pc callee → callee < code.importCount → code.hostFns callee = some h →
      Returns (h code.memLen s.view)) :
    wp (finish code next) (fun _ => Safe code) (SafeErr code) s := by
  have hset : ∀ pc, Safe code { s with frames := { fr with pc } :: rest } := fun pc =>
    hs.set_pc hfr pc hs.ctrlDepth (hs.base (by rw [hfr]; rfl))
  cases next with
  | seq pc => exact (wp_setPc hfr).mpr (hset pc)
  | br pc n =>
    refine (wp_bind _).mpr ((wp_setPc hfr).mpr (doBr_safe (hset pc) rfl fun hn => ?_))
    exact hleave (.inr ⟨pc, n, rfl, hn⟩)
  | ret => exact doReturn_safe hs hfr (hleave (.inl rfl))
  | call pc callee =>
    refine (wp_bind _).mpr ((wp_setPc hfr).mpr (invoke_safe (hset pc) hc ?_ ?_))
    · exact hcall pc callee rfl
    · exact fun h => hreturns pc callee h rfl

/-- Every round of a safe state that meets `StepOk` ends in a safe state, with an error value or without. -/
theorem step_safe (hne : s.frames ≠ []) (hok : StepOk code F s) :
    wp (step code F) (fun _ => Safe code) (SafeErr code) s := by
  obtain ⟨fr, rest, hfr⟩ : ∃ fr rest, s.frames = fr :: rest := List.exists_cons_of_ne_nil hne
  have hhead : s.frames.head? = some fr := by rw [hfr]; rfl
  have hframe := hs.frames fr (by rw [hfr]; exact List.mem_cons_self)
  have hidx := Nat.lt_of_lt_of_le hframe.bodyIdx hc.bodies
  obtain ⟨body, hbody⟩ : ∃ body, code.bodies[fr.bodyIdx]? = some body :=
    ⟨_, List.getElem?_eq_getElem hframe.bodyIdx⟩
  have hfit : Fits body := hc.fits body (List.mem_of_getElem? hbody)
  cases hy : s.yieldRequested with
  | true =>
    refine (wp_bind _).mpr (wp_get.mpr (wp_ite.mpr ⟨fun _ => ?_, fun hn => absurd hy hn⟩))
    exact ⟨⟨_, rfl⟩, hs.vsp, hs.fdepth, hs.ctrlDepth, hs.bases, hs.frames, ⟨hs.pages.active, hs.pages.within⟩⟩
  | false =>
    cases hop : body[fr.pc]? with
    | none =>
      have hend : body.length ≤ fr.pc := List.getElem?_eq_none_iff.mp hop
      unfold wp
      rw [step_end hy hfr hbody hidx hend]
      exact doReturn_safe hs hfr (hok.results fr (.inl ⟨hhead, body, hbody, hend⟩))
    | some b =>
      have hat : At code F s fr body (decodeOp F b) := ⟨hhead, hbody, b, hop, rfl⟩
      have hdisp := dispatch_safe (F := F) hc hs hhead hfit (getElem?_lt hop) (decodeOp F b)
        (fun he => hok.elses fr body (he ▸ hat)) (fun he callee pc' => hok.imports fr body callee pc' (he ▸ hat))
        (fun he => hok.jumps fr body _ hat he)
      unfold wp
      rw [step_dispatch hy hfr hbody hidx hop]
      refine (wp_bind _).mpr ?_
      cases hd : dispatch code F fr body (fr.pc + 1) (decodeOp F b) s with
      | error e s' =>
        have he := Hoare.wp_error hdisp hd
        unfold wp; rw [hd]; exact he
      | ok next s' =>
        obtain ⟨hs', hsig, hnext⟩ := Hoare.wp_ok hdisp hd
        unfold wp; rw [hd]
        obtain ⟨fr', rest', hfr'⟩ : ∃ fr' rest', s'.frames = fr' :: rest' := by
          rw [hfr] at hsig
          exact List.exists_cons_of_ne_nil fun h0 => by rw [h0] at hsig; cases hsig
        rw [hfr, hfr', List.map_cons, List.map_cons, List.cons.injEq] at hsig
        obtain ⟨_, _, _, hbase, hvbase, hrc⟩ := Frame.sig_eq hsig.1
        refine finish_safe hs' hc hfr' (fun hl => ?_) (fun pc callee he => by subst he; exact hnext)
          fun pc callee h he => by
          subst he
          exact hok.hosts fr body _ pc callee h s' hat hd
        rw [hvbase, hrc]
        refine hok.results fr (.inr ⟨body, _, next, s', hat, hd, ?_⟩)
        rcases hl with hl | ⟨pc, n, rfl, hn⟩
        · exact .inl hl
        · exact .inr ⟨pc, n, rfl, by rw [← hbase, ← hnext]; exact hn⟩

end

/-! ## Runs -/

theorem returns_of_wp {α : Type} {s : State ω} {m : Interp ω α} {Q : α → State ω → Prop}
    (h : wp m Q (SafeErr code) s) : Returns (m s) := by
  unfold wp at h
  cases hm : m s with
  | ok a s' => trivial
  | error e s' =>
    rw [hm] at h
    obtain ⟨⟨err, rfl⟩, _⟩ := h
    trivial

theorem pushArgs_safe : ∀ (args : List (BitVec 32)) {s : State ω}, Safe code s →
    wp (pushArgs args) (fun _ => Safe code) (SafeErr code) s
  | [], _, hs => hs
  | arg :: args, s, hs => by
    refine (wp_bind _).mpr (wp_vPush.mpr ⟨fun _ => ⟨⟨_, rfl⟩, hs⟩, fun hlt => pushArgs_safe args ?_⟩)
    exact ⟨hlt, hs.fdepth, hs.ctrlDepth, hs.bases, hs.frames, ⟨hs.pages.active, hs.pages.within⟩⟩

theorem beginTask_safe {s : State ω} (hs : Safe code s) (hc : CodeOk code) (funcIdx : Nat)
    (args : List (BitVec 32)) :
    wp (beginTask code funcIdx args) (fun _ => Safe code) (SafeErr code) s := by
  refine (wp_bind _).mpr ((wp_modify _).mpr ((wp_bind _).mpr ?_))
  refine wp_mono (fun _ s' hs' => ?_) (fun _ _ h => h) (pushArgs_safe args ?_)
  · refine wp_ite.mpr ⟨fun _ => ⟨⟨_, rfl⟩, hs'⟩, fun _ => wp_ite.mpr ⟨fun _ => ⟨⟨_, rfl⟩, hs'⟩, fun hidx => ?_⟩⟩
    exact pushFrame_safe hs' hc (by omega)
  · exact ⟨Nat.zero_le _, Nat.zero_le _, Nat.zero_le _, trivial, nofun, ⟨hs.pages.active, hs.pages.within⟩⟩

theorem Safe.enterRun {s : State ω} (hs : Safe code s) :
    Safe code { s with activeMem := s.currentPages * PAGE_SIZE } :=
  ⟨hs.vsp, hs.fdepth, hs.ctrlDepth, hs.bases, hs.frames, ⟨rfl, hs.pages.within⟩⟩

/-- Every state of a run whose rounds all meet `StepOk` is safe. -/
theorem reach_safe (hc : CodeOk code) {s₀ s : State ω} (h₀ : Safe code s₀)
    (hr : Reach code F (StepOk code F) s₀ s) :
    Safe code s := by
  induction hr with
  | spawn => exact h₀
  | @start s funcIdx args _ ih =>
    refine Hoare.wp_after
      ((wp_bind _).mpr (wp_mono (fun _ s' hs' => ?_) (fun _ _ h => h.2) (beginTask_safe ih hc funcIdx args)))
    exact (wp_modify _).mpr hs'.enterRun
  | @resume s _ ih => exact ih.enterRun
  | @round s _ hne hok ih =>
    exact Hoare.wp_after (wp_mono (fun _ _ h => h) (fun _ _ h => h.2) (step_safe ih hc hne hok))
  | @kernel s world _ ih =>
    exact ⟨ih.vsp, ih.fdepth, ih.ctrlDepth, ih.bases, ih.frames, ⟨ih.pages.active, ih.pages.within⟩⟩

end

section
variable {ω : Type}

theorem instantiate_codeOk {lookupHost : List UInt8 → List UInt8 → Option (HostFn ω)} {bytes : List UInt8}
    {inst : Instance (HostFn ω)} (hfit : Fits bytes) (h : instantiate lookupHost bytes = .ok inst)
    (hhost : ∀ mod name f, lookupHost mod name = some f → f.Keeps (MAX_MEM_PAGES * PAGE_SIZE)) :
    CodeOk inst.code ∧ ∀ world, Safe inst.code (inst.initial world) := by
  obtain ⟨hbodies, hfits, hglobals, htable, hmem, hpages, _, hhosts⟩ := instantiate_limits hfit h
  refine ⟨⟨hbodies, hfits, hglobals, htable, by rw [hmem]; decide, fun i f hf => ?_⟩, fun world => ?_⟩
  · obtain ⟨mod, name, hl⟩ := hhosts i f hf
    rw [hmem]
    exact hhost mod name f hl
  · refine ⟨Nat.zero_le _, Nat.zero_le _, Nat.zero_le _, trivial, nofun, ⟨rfl, ?_⟩⟩
    rw [hmem]
    exact Nat.mul_le_mul_right _ hpages

/-- In every run of an instance whose rounds meet `StepOk` the stacks stay in bounds, and neither a start
nor a round panics or hangs. -/
theorem interpreter_sandbox (F : FloatOps) (lookupHost : List UInt8 → List UInt8 → Option (HostFn ω))
    (bytes : List UInt8)
    (inst : Instance (HostFn ω)) (hfit : Fits bytes) (h : instantiate lookupHost bytes = .ok inst)
    (hhost : ∀ mod name f, lookupHost mod name = some f → f.Keeps (MAX_MEM_PAGES * PAGE_SIZE)) (world : ω)
    (s : State ω) (hr : Reach inst.code F (StepOk inst.code F) (inst.initial world) s) :
    s.vsp ≤ STACK_DEPTH ∧ s.frames.length ≤ CALL_DEPTH ∧ s.ctrlDepth ≤ MAX_CTRL_DEPTH ∧
    (∀ fr, s.frames.head? = some fr → fr.ctrlBase ≤ s.ctrlDepth) ∧
    (∀ funcIdx args, Returns (beginTask inst.code funcIdx args s)) ∧
    (s.frames ≠ [] → StepOk inst.code F s → Returns (step inst.code F s)) := by
  obtain ⟨hc, hinit⟩ := instantiate_codeOk hfit h hhost
  have hs := reach_safe hc (hinit world) hr
  exact ⟨hs.vsp, hs.fdepth, hs.ctrlDepth, fun fr hfr => hs.base hfr, fun funcIdx args =>
    returns_of_wp (beginTask_safe hs hc funcIdx args),
    fun hne hok => returns_of_wp (step_safe hs hc hne hok)⟩

end

/-- A module with one function of type `() -> ()`, without locals. -/
def oneFunction (body : List UInt8) : List UInt8 :=
  [0x00, 0x61, 0x73, 0x6D, 0x01, 0x00, 0x00, 0x00, 0x01, 0x04, 0x01, 0x60, 0x00, 0x00, 0x03, 0x02, 0x01,
    0x00, 0x0A] ++
    UInt8.ofNat (body.length + 3) :: 0x01 :: UInt8.ofNat (body.length + 1) :: 0x00 :: body

/-- The same with a page of memory, and `env.yield` as import. -/
def yieldFunction (body : List UInt8) : List UInt8 :=
  [0x00, 0x61, 0x73, 0x6D, 0x01, 0x00, 0x00, 0x00, 0x01, 0x04, 0x01, 0x60, 0x00, 0x00,
    0x02, 0x0D, 0x01, 0x03, 0x65, 0x6E, 0x76, 0x05, 0x79, 0x69, 0x65, 0x6C, 0x64, 0x00, 0x00, 0x03,
    0x02, 0x01, 0x00,
    0x05, 0x03, 0x01, 0x00, 0x01, 0x0A] ++
    UInt8.ofNat (body.length + 3) :: 0x01 :: UInt8.ofNat (body.length + 1) :: 0x00 :: body

theorem interpreter_sandbox_yield : ∃ inst : Instance (HostFn Unit),
    instantiate (fun _ _ => some hostYield) (yieldFunction [0x10, 0x00, 0x0B]) = .ok inst ∧
    ∃ s, Reach inst.code default (StepOk inst.code default) (inst.initial ()) s ∧ s.frames.length = 1 ∧
      Returns (step inst.code default s) := by
  have hhost : ∀ (mod name : List UInt8) (f : HostFn Unit), some hostYield = some f →
      f.Keeps (MAX_MEM_PAGES * PAGE_SIZE) := by
    intro mod name f hf
    cases hf
    exact hostYield_keeps _
  refine ⟨_, rfl, _, .start 1 [] .spawn, rfl, ?_⟩
  refine (interpreter_sandbox default (fun _ _ => some hostYield) (yieldFunction [0x10, 0x00, 0x0B]) _
    (by unfold Fits; decide) rfl hhost ()
    _ (.start 1 [] .spawn)).2.2.2.2.2 nofun ⟨?_, ?_, ?_, ?_, ?_⟩
  · rintro fr (⟨hfr, _⟩ | ⟨_, _, _, _, ⟨hfr, _⟩, _⟩) <;> cases hfr <;> exact Nat.zero_le _
  · rintro fr body ⟨hfr, hbody, b, hb, hop⟩
    cases hfr; cases hbody; cases hb; cases hop
  · rintro fr body callee pc ⟨hfr, hbody, -⟩ hread himp
    exact Nat.lt_trans himp (by decide)
  · rintro fr body op pc callee h s' - - himp hh
    obtain rfl : callee = 0 := Nat.lt_one_iff.mp himp
    cases (Option.some.inj hh : hostYield = h)
    trivial
  · rintro fr body op ⟨hfr, hbody, b, hb, hop⟩ hor
    cases hfr; cases hbody; cases hb; subst hop
    rcases hor with ⟨kind, hk⟩ | hk <;> cases hk

/-- An `else` outside of any block reads the control stack below its bottom. -/
theorem interpreter_else_panics : ¬ ∀ (F : FloatOps) (lookupHost : List UInt8 → List UInt8 → Option (HostFn Unit))
    (bytes : List UInt8) (inst : Instance (HostFn Unit)), Fits bytes → instantiate lookupHost bytes = .ok inst →
    (∀ mod name f, lookupHost mod name = some f → f.Keeps (MAX_MEM_PAGES * PAGE_SIZE)) →
    ∀ s, Reach inst.code F (fun _ => True) (inst.initial ()) s → s.frames ≠ [] → Returns (step inst.code F s) := by
  intro h
  exact h default (fun _ _ => none) (oneFunction [0x05, 0x0B]) _ (by unfold Fits; decide) rfl nofun _
    (.start 0 [] .spawn) nofun

end WasmOs
