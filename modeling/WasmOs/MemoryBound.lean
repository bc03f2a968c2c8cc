import WasmOs.Blind
import WasmOs.HostTouch
import WasmOs.InstanceSpec
import WasmOs.Resume

/-!
# The bound on host calls and data segments

Loads and stores end below `current_pages * 65536`. A host function is given the whole memory of its
pool slot, and so are the data segments: what they check their ranges against is the size of the slot.
They keep below the instance's own bound as long as the ranges they accept do.
-/

namespace WasmOs

open Hoare

/-! ## The host call of a round -/

section
variable {ω α : Type}

def hostCall (code : Code (HostFn ω)) (F : FloatOps) (s : State ω) : Option (Nat × State ω) :=
  if s.yieldRequested then none else
  match fetch code F s with
  | .ok (.call _ callee) t => if callee < code.importCount ∧ callee < MAX_FUNCS then some (callee, t) else none
  | _ => none

end

section
variable {ω : Type} (S : Services ω) (fuel : Nat) {code : Code (HostFn (Traced ω))} {F : FloatOps}
  {s : State (Traced ω)}

/-- A range of the memory that is empty or ends at `bound` or before. -/
def EndsBelow (bound : Nat) (r : Nat × Nat) : Prop := r.2 ≤ bound ∨ r.2 ≤ r.1

instance EndsBelow.decidable (bound : Nat) (r : Nat × Nat) : Decidable (EndsBelow bound r) :=
  inferInstanceAs (Decidable (_ ∨ _))

/-- The host call of the next round, if there is one, accepts no range past the bound of the instance. -/
def AskedBelow (code : Code (HostFn (Traced ω))) (F : FloatOps) (s : State (Traced ω)) : Prop :=
  ∀ callee t, hostCall code F s = some (callee, t) → ∀ e ∈ hostRegistry S fuel, code.hostFns callee = some e.func →
    ∀ r ∈ e.asked code.memLen (argsAt t.view e.params) t.world.rest, EndsBelow (s.currentPages * PAGE_SIZE) r

/-- What a round touches of the memory through a host call. -/
def RoundTouches (P : Nat × Nat → Prop) (s s' : State (Traced ω)) : Prop :=
  ∃ new, s'.world.touched = s.world.touched ++ new ∧ ∀ r ∈ new, P r

theorem roundTouches_of_world {P : Nat × Nat → Prop} {s' : State (Traced ω)} (h : s'.world = s.world) :
    RoundTouches P s s' :=
  ⟨[], by rw [h, List.append_nil], fun _ h => absurd h List.not_mem_nil⟩

theorem Covered.below {ranges : List (Nat × Nat)} {r : Nat × Nat} {bound : Nat} (h : Covered ranges r)
    (hr : ∀ q ∈ ranges, EndsBelow bound q) : EndsBelow bound r := by
  rcases h with hempty | ⟨q, hq, hlo, hhi⟩
  · exact .inr hempty
  · rcases hr q hq with hb | he
    · exact .inl (Nat.le_trans hhi hb)
    · exact .inr (Nat.le_trans hhi (Nat.le_trans he hlo))

variable {S fuel}

theorem callHost_touches {t : State (Traced ω)} (hfit : code.memLen < usizeMax) {e : HostEntry ω}
    (he : e ∈ hostRegistry S fuel)
    {pc callee bound : Nat} (hh : code.hostFns callee = some e.func) (himp : callee < code.importCount)
    (hlt : callee < MAX_FUNCS)
    (hask : ∀ r ∈ e.asked code.memLen (argsAt t.view e.params) t.world.rest, EndsBelow bound r) :
    RoundTouches (EndsBelow bound) t (after (finish code (.call pc callee) t)) := by
  show RoundTouches (EndsBelow bound) t (after ((setPc pc >>= fun _ => invoke code callee) t))
  cases hset : setPc pc t with
  | error f t' =>
    rw [Hoare.bind_error hset]
    have hworld := wp_error (world_of_blind (s := t) (blind_setFrame _)) hset
    exact roundTouches_of_world hworld
  | ok u t' =>
    -- the frame is not part of what the host function sees
    have hview : t'.view = t.view := by
      unfold setPc setFrame at hset
      rw [get_bind] at hset
      cases hf : t.frames with
      | nil => simp only [hf] at hset; cases hset
      | cons fr rest => simp only [hf] at hset; cases hset; rfl
    rw [Hoare.bind_ok hset, invoke_import himp hlt, hh]
    show RoundTouches (EndsBelow bound) t (after (callHost code e.func t'))
    have ht := wp_after (P := TouchesIn _ t.view.world.touched) (touchesOnly_registry S hfit he t.view)
    have hafter : (after (callHost code e.func t')).world = (after (e.func code.memLen t.view)).world := by
      unfold callHost
      rw [hview]
      cases e.func code.memLen t.view <;> rfl
    obtain ⟨new, hnew, hc⟩ := ht
    refine ⟨new, ?_, fun r hr => (hc r hr).below hask⟩
    rw [hafter]
    exact hnew

theorem finish_touches {next : Next} {t : State (Traced ω)} (hfit : code.memLen < usizeMax)
    (hreg : ∀ i h, code.hostFns i = some h → ∃ e ∈ hostRegistry S fuel, h = e.func) {bound : Nat}
    (hask : ∀ pc callee, next = .call pc callee → callee < code.importCount ∧ callee < MAX_FUNCS →
      ∀ e ∈ hostRegistry S fuel,
      code.hostFns callee = some e.func → ∀ r ∈ e.asked code.memLen (argsAt t.view e.params) t.world.rest,
      EndsBelow bound r) :
    RoundTouches (EndsBelow bound) t (after (finish code next t)) := by
  have keep : ∀ {m : Interp (Traced ω) Unit}, Blind t.world t.world m →
      RoundTouches (EndsBelow bound) t (after (m t)) :=
    fun h => roundTouches_of_world (wp_after (P := fun s' : State (Traced ω) => s'.world = t.world)
      (world_of_blind h))
  cases next with
  | seq pc => exact keep (blind_setFrame _)
  | br pc n => exact keep (twin_bind (blind_setFrame _) fun _ => blind_doBr n)
  | ret => exact keep blind_doReturn
  | call pc callee =>
    by_cases himp : callee < code.importCount
    · by_cases hmax : MAX_FUNCS ≤ callee
      · refine keep (twin_bind (blind_setFrame _) fun _ => ?_)
        rw [invoke_import_panic himp hmax]
        exact blind_throw _
      have hlt : callee < MAX_FUNCS := Nat.lt_of_not_le hmax
      cases hh : code.hostFns callee with
      | none =>
        refine keep (twin_bind (blind_setFrame _) fun _ => ?_)
        rw [invoke_import himp hlt, hh]
        exact blind_throw _
      | some h =>
        obtain ⟨e, he, rfl⟩ := hreg callee h hh
        exact callHost_touches hfit he hh himp hlt (hask pc callee rfl ⟨himp, hlt⟩ e he hh)
    · refine keep (twin_bind (blind_setFrame _) fun _ => ?_)
      rw [invoke_defined himp]
      exact twin_ite (blind_throw _) (blind_pushFrame _)

/-- A round whose host call accepts no range past the bound touches nothing past it. -/
theorem round_touches (hfit : code.memLen < usizeMax)
    (hreg : ∀ i h, code.hostFns i = some h → ∃ e ∈ hostRegistry S fuel, h = e.func)
    (hask : AskedBelow S fuel code F s) :
    RoundTouches (EndsBelow (s.currentPages * PAGE_SIZE)) s (after (step code F s)) := by
  cases hy : s.yieldRequested with
  | true =>
    have hstop : step code F s = .error (.err .yielded) { s with yieldRequested := false } := by
      unfold step
      rw [get_bind, if_pos hy]
      rfl
    rw [hstop]
    exact roundTouches_of_world rfl
  | false =>
    rw [step_fetch hy]
    cases hf : fetch code F s with
    | error f t =>
      rw [Hoare.bind_error hf]
      have hw : t.world = s.world := (wp_error (world_of_blind (s := s) blind_fetch) hf :)
      exact roundTouches_of_world hw
    | ok next t =>
      have hw : t.world = s.world := (wp_ok (world_of_blind (s := s) blind_fetch) hf :)
      rw [Hoare.bind_ok hf]
      have ht : RoundTouches (EndsBelow (s.currentPages * PAGE_SIZE)) t (after (finish code next t)) := by
        refine finish_touches hfit hreg fun pc callee hn himp => ?_
        refine hask callee t ?_
        unfold hostCall
        rw [hy, hf, hn]
        exact if_pos himp
      unfold RoundTouches at ht ⊢
      rw [hw] at ht
      exact ht

end

/-! ## Data segments -/

/-- The data segment at `cur`, if it is an active one, is cut off below `bound` or has no bytes. -/
def DataBelow (bytes : List UInt8) (memLen bound cur : Nat) : Prop :=
  ∀ kindEnd offset offsetEnd dataLen start, readU32 bytes () cur = .ok (0, kindEnd) →
    parseOffset bytes () kindEnd = .ok (offset, offsetEnd) → readU32 bytes () offsetEnd = .ok (dataLen, start) →
    start + dataLen ≤ bytes.length →
    EndsBelow bound (i32AsUsize offset, min (satAdd (i32AsUsize offset) dataLen) memLen)

/-- Every data segment that is reached ends below `bound`. -/
def SegmentsBelow (bytes : List UInt8) (memLen bound : Nat) : Prop :=
  ∀ count start mem₀ j cur mem, readU32 bytes () 0 = .ok (count, start) → j < count →
    iter (initMemory.step bytes memLen) j (start, mem₀) = .ok (cur, mem) → DataBelow bytes memLen bound cur

theorem initMemory_step_keeps {bytes : List UInt8} {memLen bound cur cur' : Nat} {mem mem' : Nat → UInt8}
    (hb : DataBelow bytes memLen bound cur) (h : initMemory.step bytes memLen (cur, mem) = .ok (cur', mem'))
    {a : Nat} (ha : bound ≤ a) :
    mem' a = mem a := by
  simp only [initMemory.step] at h
  obtain ⟨⟨kind, kindEnd⟩, hk, h⟩ := bind_eq_ok.mp h
  simp only at h
  split at h
  · cases h
    rfl
  rename_i hkind
  obtain rfl : kind = 0 := Decidable.not_not.mp hkind
  obtain ⟨⟨offset, offsetEnd⟩, ho, h⟩ := bind_eq_ok.mp h
  obtain ⟨⟨dataLen, start⟩, hd, h⟩ := bind_eq_ok.mp h
  obtain ⟨next, hnext, h⟩ := bind_eq_ok.mp h
  split at h
  · cases h
  rename_i hle
  obtain ⟨copyLen, hcopy, h⟩ := bind_eq_ok.mp h
  cases h
  obtain ⟨_, rfl⟩ := uadd_eq_ok.mp hnext
  obtain ⟨hsub, rfl⟩ := usub_eq_ok.mp hcopy
  have hbelow := hb kindEnd offset offsetEnd dataLen start hk ho hd (Nat.le_of_not_lt hle)
  rw [blit_apply, dif_neg]
  intro hin
  have hlen : ((bytes.drop start).take (min (satAdd (i32AsUsize offset) dataLen) memLen - i32AsUsize
      offset)).length ≤
      min (satAdd (i32AsUsize offset) dataLen) memLen - i32AsUsize offset := by
    rw [List.length_take]
    exact Nat.min_le_left _ _
  simp only [EndsBelow] at hbelow hin
  omega

/-- Data segments that end below `bound` leave the memory from there on alone. -/
theorem initMemory_keeps {bytes : List UInt8} {memLen bound : Nat} {mem mem' : Nat → UInt8}
    (hb : SegmentsBelow bytes memLen bound)
    (h : initMemory bytes memLen mem = .ok mem') {a : Nat} (ha : bound ≤ a) : mem' a = mem a := by
  unfold initMemory at h
  obtain ⟨⟨count, start⟩, hcount, h⟩ := bind_eq_ok.mp h
  obtain ⟨⟨cur', m⟩, hiter, h⟩ := bind_eq_ok.mp h
  cases h
  have hreach : ∀ j cur m, j < count → iter (initMemory.step bytes memLen) j (start, mem) = .ok (cur, m) →
      DataBelow bytes memLen bound cur := fun j cur m hj hs => hb count start mem j cur m hcount hj hs
  -- the rounds before a segment, then the segment
  suffices hloop : ∀ k start mem m cur', iter (initMemory.step bytes memLen) k (start, mem) = .ok (cur', m) →
      (∀ j cur m, j < k → iter (initMemory.step bytes memLen) j (start, mem) = .ok (cur, m) →
      DataBelow bytes memLen bound cur) →
      m a = mem a from hloop count start mem mem' cur' hiter hreach
  intro k
  induction k with
  | zero =>
    intro start mem m cur' hiter _
    cases hiter
    rfl
  | succ k ih =>
    intro start mem m cur' hiter hreach
    obtain ⟨⟨cur₁, m₁⟩, hstep, hiter⟩ := bind_eq_ok.mp hiter
    rw [ih cur₁ m₁ m cur' hiter fun j cur m hj hs => hreach (j + 1) cur m (Nat.succ_lt_succ hj)
      (bind_eq_ok.mpr ⟨_, hstep, hs⟩)]
    exact initMemory_step_keeps (hreach 0 start mem (Nat.succ_pos k) rfl) hstep ha

/-! ## Instances -/

theorem lookupHost_mem {ω : Type} {S : Services ω} {fuel : Nat} {module name : List UInt8} {h : HostFn (Traced ω)}
    (hl : lookupHost S fuel module name = some h) : ∃ e ∈ hostRegistry S fuel, h = e.func := by
  unfold lookupHost at hl
  obtain ⟨e, he, rfl⟩ := Option.map_eq_some_iff.mp hl
  exact ⟨e, List.mem_of_find?_eq_some he, rfl⟩

/-- An instance whose data segments end below its first pages is built without a write past them, and in
every run whose host calls accept no range past the current pages nothing past them is read or written. -/
theorem host_accesses_below {ω : Type} (S : Services ω) (fuel : Nat) (F : FloatOps) {bytes : List UInt8}
    {inst : Instance (HostFn (Traced ω))} (hfit : Fits bytes) (h : instantiate (lookupHost S fuel) bytes = .ok inst)
    (hdata : ∀ m b, load bytes = .ok m → m.dataSection = some b →
      SegmentsBelow b inst.code.memLen (inst.currentPages * PAGE_SIZE)) (world : Traced ω) :
    (∀ m b mem mem' a, load bytes = .ok m → m.dataSection = some b → initMemory b inst.code.memLen mem = .ok mem' →
      inst.currentPages * PAGE_SIZE ≤ a → mem' a = mem a) ∧
    ∀ s, Reach inst.code F (AskedBelow S fuel inst.code F) (inst.initial world) s →
    AskedBelow S fuel inst.code F s →
      RoundTouches (EndsBelow (s.currentPages * PAGE_SIZE)) s (after (step inst.code F s)) := by
  obtain ⟨_, _, _, _, hmemLen, _, _, hhost⟩ := instantiate_limits hfit h
  refine ⟨fun m b mem mem' a hm hb hi ha => initMemory_keeps (hdata m b hm hb) hi ha, fun s _ hask =>
    round_touches ?_ ?_ hask⟩
  · rw [hmemLen]
    decide
  · intro i h hh
    obtain ⟨mod, name, hl⟩ := hhost i h hh
    exact lookupHost_mem hl

/-- A kernel without keys, files, a screen or a network. -/
def idleServices : Services Unit where
  print _ w := .ok w
  nextKey _ := .error .hang
  uptimeMs _ := 0
  opcodeCount _ := 0
  sleepMs _ w := w
  findFile _ _ := none
  writeFile _ _ w := .ok (false, w)
  args _ := []
  slotMem := 0
  setPixel _ _ _ w := .ok w
  blitRgb32 _ _ _ w := .ok w
  tcpListen _ w := .ok (none, w)
  tcpConnect _ _ w := .ok (none, w)
  tcpSend _ _ w := .ok (none, w)
  tcpRecv _ _ w := .ok (none, w)
  tcpClose _ w := .ok (false, w)
  setIp _ w := w
  tcpAccept _ w := .ok (none, w)
  tcpStatus _ _ := 0
  getIp _ := 0
  udpBind _ w := .ok (none, w)
  udpConnect _ _ _ w := .ok (false, w)
  udpSend _ _ w := .ok (none, w)
  udpRecv _ _ w := .ok (none, w)
  udpClose _ w := w
  tcpRecv_le h := by cases h
  udpRecv_le h := by cases h

/-- The check of `AskedBelow` on a fixed state. -/
theorem askedBelow_of_all {code : Code (HostFn (Traced Unit))} {s : State (Traced Unit)}
    (h : ((hostCall code default s).all fun p => (hostRegistry idleServices 0).all fun e =>
      (e.asked code.memLen (argsAt p.2.view e.params) ()).all fun r => EndsBelow
      (s.currentPages * PAGE_SIZE) r) = true) :
    AskedBelow idleServices 0 code default s := by
  intro callee t hc e he _ r hr
  rw [hc] at h
  have hall := List.all_eq_true.mp h e he
  exact of_decide_eq_true (List.all_eq_true.mp hall r hr)

/-- The state of an instance after two rounds of its function `1`. -/
def afterTwoRounds (inst : Instance (HostFn (Traced Unit))) : State (Traced Unit) :=
  after (step inst.code default (after (step inst.code default
    (after ((beginTask inst.code 1 [] >>= fun _ => enterRun) (inst.initial ⟨[], ()⟩))))))

/-- One page of memory, a data segment at its start and a function that prints it. -/
def printsModule : List UInt8 :=
  [0x00, 0x61, 0x73, 0x6D, 0x01, 0x00, 0x00, 0x00, 0x01, 0x09, 0x02, 0x60, 0x02, 0x7F, 0x7F, 0x00, 0x60, 0x00, 0x00,
    0x02, 0x0D, 0x01, 0x03, 0x65, 0x6E, 0x76, 0x05, 0x70, 0x72, 0x69, 0x6E, 0x74, 0x00, 0x00, 0x03,
    0x02, 0x01, 0x01, 0x05, 0x03, 0x01, 0x00, 0x01, 0x0A, 0x0A, 0x01, 0x08, 0x00, 0x41, 0x00, 0x41,
    0x01, 0x10, 0x00, 0x0B, 0x0B, 0x07, 0x01, 0x00, 0x41, 0x00, 0x0B, 0x01, 0x41]

theorem segmentsBelow_first :
    SegmentsBelow [0x01, 0x00, 0x41, 0x00, 0x0B, 0x01, 0x41] (MAX_MEM_PAGES * PAGE_SIZE) (1 * PAGE_SIZE) := by
  intro count start mem₀ j cur mem hc hj hiter
  cases hc
  obtain rfl : j = 0 := Nat.lt_one_iff.mp hj
  cases hiter
  intro kindEnd offset offsetEnd dataLen start hk ho hd _
  cases hk
  cases ho
  cases hd
  decide

theorem host_accesses_below_print : ∃ inst, instantiate (lookupHost idleServices 0) printsModule = .ok inst ∧
    (after (step inst.code default (afterTwoRounds inst))).world.touched = [(0, 1)] ∧
    RoundTouches (EndsBelow ((afterTwoRounds inst).currentPages * PAGE_SIZE)) (afterTwoRounds inst)
      (after (step inst.code default (afterTwoRounds inst))) := by
  obtain ⟨inst, hinst, hpages, hmem, h₁, h₂, h₃, hf₁, hf₂, htouched⟩ :
      ∃ inst, instantiate (lookupHost idleServices 0) printsModule = .ok inst ∧ inst.currentPages = 1 ∧
      inst.code.memLen = MAX_MEM_PAGES * PAGE_SIZE ∧
      AskedBelow idleServices 0 inst.code default
      (after ((beginTask inst.code 1 [] >>= fun _ => enterRun) (inst.initial ⟨[], ()⟩))) ∧
      AskedBelow idleServices 0 inst.code default (after (step inst.code default
        (after ((beginTask inst.code 1 [] >>= fun _ => enterRun) (inst.initial ⟨[], ()⟩))))) ∧
      AskedBelow idleServices 0 inst.code default (afterTwoRounds inst) ∧
      (after ((beginTask inst.code 1 [] >>= fun _ => enterRun) (inst.initial ⟨[], ()⟩))).frames.isEmpty = false ∧
      (after (step inst.code default
        (after ((beginTask inst.code 1 [] >>= fun _ => enterRun) (inst.initial ⟨[], ()⟩))))).frames.isEmpty =
        false ∧
      (after (step inst.code default (afterTwoRounds inst))).world.touched = [(0, 1)] :=
    ⟨_, rfl, by decide +kernel, by decide +kernel, askedBelow_of_all (by decide +kernel),
      askedBelow_of_all (by decide +kernel),
      askedBelow_of_all (by decide +kernel), by decide +kernel, by decide +kernel, by decide +kernel⟩
  refine ⟨inst, hinst, htouched, ?_⟩
  refine (host_accesses_below idleServices 0 default (by unfold Fits; decide) hinst ?_ ⟨[], ()⟩).2 _ ?_ h₃
  · intro m b hm hb
    obtain ⟨m', hm', hdata⟩ : ∃ m', load printsModule = .ok m' ∧
        m'.dataSection = some [0x01, 0x00, 0x41, 0x00, 0x0B, 0x01, 0x41] :=
      ⟨_, rfl, rfl⟩
    rw [hm'] at hm
    cases hm
    rw [hdata] at hb
    cases hb
    rw [hmem, hpages]
    exact segmentsBelow_first
  · exact .round (.round (.start 1 [] .spawn) (fun h => by rw [h] at hf₁; cases hf₁) h₁)
      (fun h => by rw [h] at hf₂; cases hf₂) h₂

/-- A module with one page of memory that prints the byte after it. -/
def printsPastModule : List UInt8 :=
  [0x00, 0x61, 0x73, 0x6D, 0x01, 0x00, 0x00, 0x00, 0x01, 0x09, 0x02, 0x60, 0x02, 0x7F, 0x7F, 0x00, 0x60, 0x00, 0x00,
    0x02, 0x0D, 0x01, 0x03, 0x65, 0x6E, 0x76, 0x05, 0x70, 0x72, 0x69, 0x6E, 0x74, 0x00, 0x00, 0x03,
    0x02, 0x01, 0x01, 0x05, 0x03, 0x01, 0x00, 0x01, 0x0A, 0x0C, 0x01, 0x0A, 0x00, 0x41, 0x80, 0x80,
    0x04, 0x41, 0x01, 0x10, 0x00, 0x0B]

theorem host_reads_past_pages : ¬ ∀ (S : Services Unit) (fuel : Nat) (F : FloatOps) (bytes : List UInt8)
    (inst : Instance (HostFn (Traced Unit))), Fits bytes → instantiate (lookupHost S fuel) bytes = .ok inst →
    ∀ world s, Reach inst.code F (fun _ => True) (inst.initial world) s →
      RoundTouches (EndsBelow (s.currentPages * PAGE_SIZE)) s (after (step inst.code F s)) := by
  intro hall
  obtain ⟨inst, hinst, hframes, hpages, htouched⟩ :
      ∃ inst, instantiate (lookupHost idleServices 0) printsPastModule = .ok inst ∧
      ((after ((beginTask inst.code 1 [] >>= fun _ => enterRun) (inst.initial ⟨[], ()⟩))).frames.isEmpty = false ∧
        (after (step inst.code default
          (after ((beginTask inst.code 1 [] >>= fun _ => enterRun)
          (inst.initial ⟨[], ()⟩))))).frames.isEmpty = false) ∧
      (afterTwoRounds inst).currentPages = 1 ∧
      (afterTwoRounds inst).world.touched = [] ∧
      (after (step inst.code default (afterTwoRounds inst))).world.touched = [(65536, 65537)] :=
    ⟨_, rfl, by decide +kernel, by decide +kernel, by decide +kernel⟩
  have hreach : Reach inst.code default (fun _ => True) (inst.initial ⟨[], ()⟩) (afterTwoRounds inst) :=
    .round (.round (.start 1 [] .spawn) (fun h => by rw [h] at hframes; cases hframes.1) trivial)
      (fun h => by rw [h] at hframes; cases hframes.2) trivial
  obtain ⟨new, hnew, hbelow⟩ :=
    hall idleServices 0 default printsPastModule inst (by unfold Fits; decide) hinst ⟨[], ()⟩ _ hreach
  rw [htouched.1, htouched.2, List.nil_append] at hnew
  have := hbelow (65536, 65537) (by rw [← hnew]; exact .head _)
  rw [hpages] at this
  revert this
  unfold EndsBelow PAGE_SIZE
  decide

end WasmOs
