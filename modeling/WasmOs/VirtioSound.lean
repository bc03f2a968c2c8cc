import WasmOs.Runs
import WasmOs.Virtio

/-!
# Requests and completions

A call that starts when every chain has been completed and counted gets its own completion, whatever the
device does in between and however often the indices have wrapped. After a timeout a chain is still out,
and its completion is taken for that of the next call.
-/

namespace WasmOs.Virtio

open Runs

/-! ## What a call should do -/

/-- A successful read returns what the sector held at some point of the call, a successful write was made
by the device during it, and the last completion is that of the call's own chain. -/
def Answer.Good (a : Answer) : Prop :=
  a.ok →
    (match a.op with
      | .read lba => ∃ disk ∈ a.seen, a.buf = disk lba.toUInt64
      | .write lba data => (lba.toUInt64, data) ∈ a.performed) ∧
    a.completed = a.submitted

/-- Every chain has been completed, and the driver has counted every completion. -/
def St.Quiet (s : St) : Prop := s.completed = s.submitted ∧ s.mem.usedIdx = s.lastUsed

/-! ## Requests in memory -/

/-- The request as the device should read it. -/
def Op.req : Op → Req
  | .read lba => ⟨BLK_T_IN, lba.toUInt64, true⟩
  | .write lba _ => ⟨BLK_T_OUT, lba.toUInt64, false⟩

/-- The data buffer holds what the device is to take from it. -/
def Op.DataIn (op : Op) (buf : Sector) : Prop :=
  match op with
  | .read _ => True
  | .write _ data => buf = data

/-- The request is laid out in memory. -/
def Mem.Filled (m : Mem) (op : Op) : Prop := m.fetch 0 = op.req ∧ op.DataIn m.reqData

theorem stores_filled (qSize : Nat) (availIdx : UInt16) (op : Op) (m : Mem) :
    ((op.stores qSize availIdx).foldl Mem.store m).Filled op := by
  cases op with
  | read lba => exact ⟨by simp [Mem.fetch, Op.stores, doRequest, Mem.store, Op.req, upd]; decide, trivial⟩
  | write lba data => exact ⟨by simp [Mem.fetch, Op.stores, doRequest, Mem.store, Op.req, upd]; decide, rfl⟩

theorem store_availRing {m : Mem} (h : ∀ i, m.availRing i = 0) (w : Store) (i : Nat) :
    (m.store w).availRing i = 0 := by
  cases w with
  | availRing slot =>
    show upd m.availRing slot 0 i = 0
    unfold upd
    split
    · rfl
    · exact h i
  | _ => exact h i

/-! ## The invariant -/

def St.Effect (s : St) : Op → Prop
  | .read lba => ∃ disk ∈ s.seen, s.mem.reqData = disk lba.toUInt64
  | .write lba data => (lba.toUInt64, data) ∈ s.performed

/-- What the device holds is on its way to where the request wants it. -/
def St.Carries (s : St) (op : Op) (b : Sector) : Prop :=
  match op with
  | .read lba => ∃ disk ∈ s.seen, b = disk lba.toUInt64
  | .write _ data => b = data

def St.OnTrack (s : St) (op : Op) : Job → Prop
  | .fetched r => r = op.req ∧ op.DataIn s.mem.reqData
  | .loaded r b => r = op.req ∧ s.Carries op b
  | .finished status => status = BLK_S_OK → s.Effect op
  | .replied => s.mem.reqStatus = BLK_S_OK → s.Effect op

/-- The published chain of `op` is the only one that is out, or it has just come back. -/
inductive St.Flight (s : St) (op : Op) : Prop where
  | posted (hjobs : s.jobs = []) (hout : s.submitted = s.completed + 1) (hidx : s.mem.usedIdx = s.lastUsed)
      (hmem : s.mem.Filled op)
  | working (j : Job) (hjobs : s.jobs = [j]) (hout : s.submitted = s.completed + 1)
    (hidx : s.mem.usedIdx = s.lastUsed)
      (hjob : s.OnTrack op j)
  | back (hjobs : s.jobs = []) (hout : s.submitted = s.completed) (hidx : s.mem.usedIdx = s.lastUsed + 1)
      (heffect : s.mem.reqStatus = BLK_S_OK → s.Effect op)

def St.Phase (s : St) : Prop :=
  match s.pc with
  | .idle => True
  | .storing op rest => s.Quiet ∧ (rest.foldl Mem.store s.mem).Filled op
  | .waiting op _ => s.Flight op
  | .checking op => s.Quiet ∧ (s.mem.reqStatus = BLK_S_OK → s.Effect op)
  | .copying op => s.Quiet ∧ s.Effect op

structure St.Inv (s : St) : Prop where
  count : s.completed + s.jobs.length ≤ s.submitted
  ring : ∀ i, s.mem.availRing i = 0
  disk : s.pc ≠ .idle → s.disk ∈ s.seen
  phase : s.Phase
  log : ∀ a ∈ s.log, a.Good

theorem init_inv (disk : UInt64 → Sector) : (St.init disk).Inv :=
  ⟨Nat.le_refl _, fun _ => rfl, fun h => absurd rfl h, trivial, fun a ha => (by cases ha)⟩

/-! ## Steps -/

section
variable {qSize : Nat} {s s' : St}

theorem answer_inv (h : s.Inv) {op : Op} {ok : Bool} (hgood : ok → s.Effect op ∧ s.completed = s.submitted) :
    (s.answer op ok).Inv := by
  refine ⟨h.count, h.ring, fun hpc => absurd rfl hpc, trivial, fun a ha => ?_⟩
  obtain rfl | ha := List.mem_cons.mp ha
  · intro hok
    obtain ⟨heffect, hcount⟩ := hgood hok
    refine ⟨?_, hcount⟩
    cases op with
    | read lba => exact heffect
    | write lba data => exact heffect
  · exact h.log a ha

theorem call_inv (h : s.Inv) {op : Op} (hquiet : s.Quiet) (hs : step qSize s (.call op) = .ok s') : s'.Inv := by
  simp only [step] at hs
  split at hs
  · cases hs
    exact ⟨h.count, h.ring, fun _ => List.mem_singleton.mpr rfl, ⟨hquiet, stores_filled ..⟩, h.log⟩
  · cases hs

theorem driver_inv (h : s.Inv) (hs : s.driver = .ok s') : s'.Inv := by
  have hphase := h.phase
  unfold St.Phase at hphase
  unfold St.driver at hs
  cases hpc : s.pc with
  | idle => rw [hpc] at hs; cases hs
  | storing op rest =>
    have hdisk : s.disk ∈ s.seen := h.disk (by rw [hpc]; exact Pc.noConfusion)
    rw [hpc] at hs hphase
    obtain ⟨hquiet, hfilled⟩ := hphase
    cases rest with
    | cons w rest =>
      cases hs
      have hquiet' : (s.mem.store w).usedIdx = s.mem.usedIdx := by cases w <;> rfl
      exact ⟨h.count, store_availRing h.ring w, fun _ => hdisk, ⟨⟨hquiet.1, hquiet'.trans hquiet.2⟩, hfilled⟩,
        h.log⟩
    | nil =>
      cases hs
      have hjobs : s.jobs = [] := by
        have := h.count
        rw [hquiet.1] at this
        exact List.length_eq_zero_iff.mp (by omega)
      refine ⟨Nat.le_succ_of_le h.count, h.ring, fun _ => hdisk, ?_, h.log⟩
      exact .posted hjobs (congrArg (· + 1) hquiet.1.symm) hquiet.2 hfilled
  | waiting op spins =>
    have hdisk : s.disk ∈ s.seen := h.disk (by rw [hpc]; exact Pc.noConfusion)
    rw [hpc] at hs hphase
    dsimp only at hs hphase
    by_cases hidx : s.mem.usedIdx = s.lastUsed + 1
    · rw [if_pos hidx] at hs
      cases hs
      -- while the chain is out the index has not moved, so it is back
      cases hphase with
      | posted _ _ hsame _ => exact absurd (UInt16.left_eq_add.mp (hsame.symm.trans hidx)) (by decide)
      | working _ _ _ hsame _ => exact absurd (UInt16.left_eq_add.mp (hsame.symm.trans hidx)) (by decide)
      | back hjobs hout _ heffect => exact ⟨h.count, h.ring, fun _ => hdisk, ⟨⟨hout.symm, hidx⟩, heffect⟩, h.log⟩
    · rw [if_neg hidx] at hs
      split at hs
      · cases hs
        exact answer_inv h fun hok => by cases hok
      · cases hs
        refine ⟨h.count, h.ring, fun _ => hdisk, ?_, h.log⟩
        cases hphase with
        | posted hjobs hout hsame hmem => exact .posted hjobs hout hsame hmem
        | working j hjobs hout hsame hjob => exact .working j hjobs hout hsame (by cases j <;> exact hjob)
        | back _ _ hback _ => exact absurd hback hidx
  | checking op =>
    have hdisk : s.disk ∈ s.seen := h.disk (by rw [hpc]; exact Pc.noConfusion)
    rw [hpc] at hs hphase
    dsimp only at hs hphase
    split at hs
    · cases hs
      exact answer_inv h fun hok => by cases hok
    · rename_i hstatus
      cases hs
      exact ⟨h.count, h.ring, fun _ => hdisk, ⟨hphase.1, hphase.2 (not_not.mp hstatus)⟩, h.log⟩
  | copying op =>
    rw [hpc] at hs hphase
    cases hs
    exact answer_inv h fun _ => ⟨hphase.2, hphase.1.1⟩

/-- Nothing is out while the driver writes a request or looks at the answer. -/
theorem St.Quiet.jobs_nil (hquiet : s.Quiet) (h : s.Inv) : s.jobs = [] := by
  have hcount := h.count
  rw [hquiet.1] at hcount
  exact List.length_eq_zero_iff.mp (by omega)

/-- Where the chain is when the device can do something: the driver is between calls, or it waits. -/
theorem busy_cases (h : s.Inv) (hbusy : s.completed + s.jobs.length < s.submitted ∨ s.jobs ≠ []) :
    s.pc = .idle ∨ ∃ op spins, s.pc = .waiting op spins ∧ s.Flight op := by
  have hphase := h.phase
  have hno : ¬ s.Quiet := by
    intro hquiet
    have hnil := hquiet.jobs_nil h
    obtain hlt | hne := hbusy
    · rw [hnil, List.length_nil, hquiet.1] at hlt
      omega
    · exact hne hnil
  unfold St.Phase at hphase
  cases hpc : s.pc with
  | idle => exact .inl rfl
  | storing op rest => rw [hpc] at hphase; exact absurd hphase.1 hno
  | waiting op spins => rw [hpc] at hphase; exact .inr ⟨op, spins, rfl, hphase⟩
  | checking op => rw [hpc] at hphase; exact absurd hphase.1 hno
  | copying op => rw [hpc] at hphase; exact absurd hphase.1 hno

structure Keeps (s s' : St) : Prop where
  pc : s'.pc = s.pc
  log : s'.log = s.log
  ring : s'.mem.availRing = s.mem.availRing
  count : s'.completed + s'.jobs.length ≤ s'.submitted
  disk : s'.disk = s.disk ∧ s'.seen = s.seen ∨ s'.seen = s'.disk :: s.seen

/-- The invariant survives a step of the device that keeps a waiting call's chain on track. -/
theorem St.Inv.keep (h : s.Inv) (hbusy : s.completed + s.jobs.length < s.submitted ∨ s.jobs ≠ []) (hk : Keeps s s')
    (hflight : s.disk ∈ s.seen → ∀ op, s.Flight op → s'.Flight op) : s'.Inv := by
  refine ⟨hk.count, fun i => by rw [hk.ring]; exact h.ring i, fun hpc => ?_, ?_, by rw [hk.log]; exact h.log⟩
  · rw [hk.pc] at hpc
    obtain ⟨hdisk, hseen⟩ | hseen := hk.disk
    · rw [hdisk, hseen]
      exact h.disk hpc
    · rw [hseen]
      exact List.mem_cons_self ..
  · unfold St.Phase
    rw [hk.pc]
    obtain hpc | ⟨op, spins, hpc, hf⟩ := busy_cases h hbusy
    · rw [hpc]
      trivial
    · have hdisk : s.disk ∈ s.seen := h.disk (by rw [hpc]; exact Pc.noConfusion)
      rw [hpc]
      exact hflight hdisk op hf

theorem fetch_inv (h : s.Inv) (hs : step qSize s .fetch = .ok s') : s'.Inv := by
  simp only [step] at hs
  split at hs
  · rename_i hlt
    cases hs
    refine h.keep (.inl hlt) ⟨rfl, rfl, rfl, by simp; omega, .inl ⟨rfl, rfl⟩⟩ fun _ op hf => ?_
    cases hf with
    | posted hjobs hout hidx hmem =>
      refine .working (.fetched (s.mem.fetch 0)) ?_ hout hidx hmem
      dsimp only
      rw [hjobs, h.ring]
      rfl
    | working j hjobs hout _ _ =>
      rw [hjobs, hout] at hlt
      exact absurd hlt (Nat.lt_irrefl _)
    | back hjobs hout _ _ =>
      rw [hjobs, hout] at hlt
      exact absurd hlt (Nat.lt_irrefl _)
  · cases hs

theorem St.Flight.job {op : Op} (hf : s.Flight op) {i : Nat} {j : Job} (hj : s.jobs[i]? = some j) :
    s.jobs = [j] ∧ i = 0 ∧ s.submitted = s.completed + 1 ∧ s.mem.usedIdx = s.lastUsed ∧ s.OnTrack op j := by
  cases hf with
  | posted hjobs _ _ _ => simp [hjobs] at hj
  | back hjobs _ _ _ => simp [hjobs] at hj
  | working k hjobs hout hidx hjob =>
    rw [hjobs, List.getElem?_singleton] at hj
    split at hj
    · rename_i hi
      cases hj
      exact ⟨hjobs, hi, hout, hidx, hjob⟩
    · cases hj

theorem jobs_ne_nil {i : Nat} {j : Job} (hj : s.jobs[i]? = some j) : s.jobs ≠ [] := by
  intro hnil
  rw [hnil] at hj
  cases hj

theorem work_inv (h : s.Inv) {i : Nat} (hs : s.work i = .ok s') : s'.Inv := by
  unfold St.work at hs
  split at hs
  · rename_i r hj
    split at hs
    · rename_i htype
      cases hs
      refine h.keep (.inr (jobs_ne_nil hj)) ⟨rfl, rfl, rfl, by simpa using h.count, .inl ⟨rfl, rfl⟩⟩
        fun hdisk op hf => ?_
      obtain ⟨hjobs, rfl, hout, hidx, hreq, -⟩ := hf.job hj
      refine .working (.loaded r (s.disk r.sector)) (by simp [hjobs]) hout hidx ⟨hreq, ?_⟩
      cases op with
      | read lba => exact ⟨s.disk, hdisk, by rw [hreq]; rfl⟩
      | write lba data => rw [hreq] at htype; exact absurd htype.1 (show BLK_T_OUT ≠ BLK_T_IN by decide)
    · split at hs
      · rename_i htype
        cases hs
        refine h.keep (.inr (jobs_ne_nil hj)) ⟨rfl, rfl, rfl, by simpa using h.count, .inl ⟨rfl, rfl⟩⟩
          fun hdisk op hf => ?_
        obtain ⟨hjobs, rfl, hout, hidx, hreq, hdata⟩ := hf.job hj
        refine .working (.loaded r s.mem.reqData) (by simp [hjobs]) hout hidx ⟨hreq, ?_⟩
        cases op with
        | read lba => rw [hreq] at htype; exact absurd htype.1 (show BLK_T_IN ≠ BLK_T_OUT by decide)
        | write lba data => exact hdata
      · cases hs
  · rename_i r b hj
    split at hs
    · rename_i htype
      cases hs
      refine h.keep (.inr (jobs_ne_nil hj)) ⟨rfl, rfl, rfl, by simpa using h.count, .inl ⟨rfl, rfl⟩⟩
        fun hdisk op hf => ?_
      obtain ⟨hjobs, rfl, hout, hidx, hreq, hcarry⟩ := hf.job hj
      refine .working (.finished BLK_S_OK) (by simp [hjobs]) hout hidx fun _ => ?_
      cases op with
      | read lba => exact hcarry
      | write lba data => rw [hreq] at htype; exact absurd htype (show BLK_T_OUT ≠ BLK_T_IN by decide)
    · rename_i htype
      cases hs
      refine h.keep (.inr (jobs_ne_nil hj)) ⟨rfl, rfl, rfl, by simpa using h.count, .inr rfl⟩ fun hdisk op hf => ?_
      obtain ⟨hjobs, rfl, hout, hidx, hreq, hcarry⟩ := hf.job hj
      refine .working (.finished BLK_S_OK) (by simp [hjobs]) hout hidx fun _ => ?_
      cases op with
      | read lba => rw [hreq] at htype; exact absurd rfl htype
      | write lba data =>
        have hb : b = data := hcarry
        rw [hreq, hb]
        exact List.mem_cons_self ..
  · cases hs

theorem fail_inv (h : s.Inv) {i : Nat} {status : UInt8} (hs : s.fail i status = .ok s') : s'.Inv := by
  have hgive : ∀ j, s.jobs[i]? = some j → status ≠ BLK_S_OK →
      St.Inv { s with jobs := s.jobs.set i (.finished status) } := by
    intro j hj hstatus
    refine h.keep (.inr (jobs_ne_nil hj)) ⟨rfl, rfl, rfl, by simpa using h.count, .inl ⟨rfl, rfl⟩⟩ fun _ op hf => ?_
    obtain ⟨hjobs, rfl, hout, hidx, -⟩ := hf.job hj
    exact .working (.finished status) (by simp [hjobs]) hout hidx fun hok => absurd hok hstatus
  unfold St.fail at hs
  split at hs
  · cases hs
  · rename_i hstatus
    split at hs
    · cases hs
      exact hgive _ ‹_› hstatus
    · cases hs
      exact hgive _ ‹_› hstatus
    · cases hs

theorem reply_inv (h : s.Inv) (hs : step qSize s .reply = .ok s') : s'.Inv := by
  simp only [step] at hs
  split at hs
  · rename_i status rest hjobs
    cases hs
    have hcount := h.count
    rw [hjobs] at hcount
    refine h.keep (.inr (by rw [hjobs]; exact List.cons_ne_nil _ _)) ⟨rfl, rfl, rfl, hcount, .inl ⟨rfl, rfl⟩⟩
      fun _ op hf => ?_
    obtain ⟨hone, -, hout, hidx, heffect⟩ := hf.job (i := 0) (j := .finished status) (by rw [hjobs]; rfl)
    rw [hjobs] at hone
    refine .working .replied ?_ hout hidx fun hok => ?_
    · simpa using hone
    · cases op with
      | read lba => exact heffect hok
      | write lba data => exact heffect hok
  · cases hs

theorem complete_inv (h : s.Inv) (hs : step qSize s .complete = .ok s') : s'.Inv := by
  simp only [step] at hs
  split at hs
  · rename_i rest hjobs
    cases hs
    have hcount := h.count
    rw [hjobs, List.length_cons] at hcount
    refine h.keep (.inr (by rw [hjobs]; exact List.cons_ne_nil _ _)) ⟨rfl, rfl, rfl, by dsimp only; omega,
      .inl ⟨rfl, rfl⟩⟩
      fun _ op hf => ?_
    obtain ⟨hone, -, hout, hidx, heffect⟩ := hf.job (i := 0) (j := .replied) (by rw [hjobs]; rfl)
    rw [hjobs] at hone
    refine .back (by simpa using hone) hout (congrArg (· + 1) hidx) fun hok => ?_
    cases op with
    | read lba => exact heffect hok
    | write lba data => exact heffect hok
  · cases hs

theorem step_inv (h : s.Inv) {e : Event} (hcall : ∀ op, e = .call op → s.Quiet)
    (hs : step qSize s e = .ok s') : s'.Inv := by
  cases e with
  | call op => exact call_inv h (hcall op rfl) hs
  | driver => exact driver_inv h hs
  | fetch => exact fetch_inv h hs
  | work i => exact work_inv h hs
  | fail i status => exact fail_inv h hs
  | reply => exact reply_inv h hs
  | complete => exact complete_inv h hs

end

/-! ## Runs -/

def CalledQuiet (s : St) (e : Event) : Prop := ∀ op, e = .call op → s.Quiet

/-- In every run whose calls all start quiet, whatever the device does and whenever it does it, every
answer is that of its own request. -/
theorem completions_match (qSize : Nat) (disk : UInt64 → Sector) (es : List Event)
    (hes : AllSteps (step qSize) CalledQuiet (St.init disk) es) :
    Always (step qSize) (fun s => ∀ a ∈ s.log, a.Good) (St.init disk) es := by
  have hinv : Always (step qSize) St.Inv (St.init disk) es :=
    AllSteps.always (fun s e s' h hcall hs => step_inv h hcall hs) (init_inv disk) hes
  exact hinv.mono fun s h => h.log

/-! ## Schedules -/

/-- The driver has published a request and waits. -/
def St.posted (s : St) (qSize : Nat) (op : Op) : St :=
  let mem := (op.stores qSize s.mem.availIdx).foldl Mem.store s.mem
  { s with
    mem := { mem with availIdx := mem.availIdx + 1 }, submitted := s.submitted + 1, pc := .waiting op 0
    seen := [s.disk], performed := [] }

/-- A call up to the wait, for a request of `n` stores. -/
def post (op : Op) (n : Nat) : List Event := .call op :: List.replicate (n + 1) .driver

theorem runAll_post (qSize : Nat) (lba : UInt32) {s : St} (hpc : s.pc = .idle) :
    runAll (step qSize) s (post (.read lba) 8) = .ok (s.posted qSize (.read lba)) := by
  obtain ⟨mem, lastUsed, pc, disk, jobs, submitted, completed, seen, performed, log⟩ := s
  cases hpc
  rfl

theorem posted_availRing {qSize : Nat} {s : St} (hring : ∀ i, s.mem.availRing i = 0) (op : Op) (i : Nat) :
    (s.posted qSize op).mem.availRing i = 0 := by
  suffices h : ∀ (ws : List Store) (m : Mem), (∀ i, m.availRing i = 0) →
      (ws.foldl Mem.store m).availRing i = 0 from h _ _ hring
  intro ws
  induction ws with
  | nil => exact fun m h => h i
  | cons w ws ih => exact fun m h => ih _ (store_availRing h w)

/-- The device takes up the only chain that is out. -/
theorem fetch_posted {qSize : Nat} {s : St} {op : Op} (hjobs : s.jobs = []) (hcount : s.completed = s.submitted)
    (hring : ∀ i, s.mem.availRing i = 0) :
    step qSize (s.posted qSize op) .fetch = .ok { s.posted qSize op with jobs := [.fetched op.req] } := by
  have hlt : (s.posted qSize op).completed + (s.posted qSize op).jobs.length < (s.posted qSize op).submitted := by
    show s.completed + s.jobs.length < s.submitted + 1
    rw [hjobs, hcount]
    exact Nat.lt_succ_self _
  have hreq : (s.posted qSize op).mem.fetch 0 = op.req := (stores_filled qSize s.mem.availIdx op s.mem).1
  have hnil : (s.posted qSize op).jobs = [] := hjobs
  simp only [step]
  rw [if_pos hlt, posted_availRing hring, hreq, hnil]
  rfl

/-- The device finishes a read while the driver waits for the next completion. -/
def finishRead : List Event := [.work 0, .work 0, .reply, .complete, .driver, .driver, .driver]

theorem runAll_finishRead (qSize : Nat) {s : St} {op : Op} {lba : UInt32} {spins : Nat}
    (hpc : s.pc = .waiting op spins)
    (hjobs : s.jobs = [.fetched (Op.read lba).req]) (hidx : s.mem.usedIdx = s.lastUsed) :
    ∃ s', runAll (step qSize) s finishRead = .ok s' ∧
      s'.log = ⟨op, true, s.disk lba.toUInt64, s.seen, s.performed, s.submitted, s.completed + 1⟩ :: s.log := by
  obtain ⟨mem, lastUsed, pc, disk, jobs, submitted, completed, seen, performed, log⟩ := s
  dsimp only at hpc hjobs hidx
  subst hpc hjobs hidx
  simp [finishRead, runAll, step, St.work, St.driver, St.answer, Op.req, BLK_S_OK, bind, Except.bind]

def twoSectors : UInt64 → Sector := fun n => if n = 1 then Vector.replicate _ 1 else Vector.replicate _ 0

def readOnce : List Event := post (.read 1) 8 ++ .fetch :: finishRead

theorem completions_match_readOnce :
    ∃ s, runAll (step 256) (St.init twoSectors) readOnce = .ok s ∧
      (∃ a ∈ s.log, a.ok = true ∧ a.buf = twoSectors 1) ∧ ∀ a ∈ s.log, a.Good := by
  have hquiet : AllSteps (step 256) CalledQuiet (St.init twoSectors) readOnce := by
    unfold readOnce post finishRead
    refine fun s _ => ⟨fun _ _ => ⟨rfl, rfl⟩, allSteps_of_forall fun s e he op hop => ?_⟩
    simp [hop] at he
  obtain ⟨s, hrun, hlog⟩ := runAll_finishRead 256
    (s := { (St.init twoSectors).posted 256 (.read 1) with jobs := [.fetched (Op.read 1).req] }) rfl rfl rfl
  have hall : runAll (step 256) (St.init twoSectors) readOnce = .ok s := by
    unfold readOnce
    rw [runAll_append _ (runAll_post 256 1 rfl), runAll_cons _ (fetch_posted rfl rfl fun _ => rfl)]
    exact hrun
  refine ⟨s, hall, ?_, (completions_match 256 twoSectors readOnce hquiet).last hall⟩
  rw [hlog]
  exact ⟨_, List.mem_cons_self .., rfl, rfl⟩

/-! ## A late completion -/

theorem waiting_gives_up (qSize : Nat) (op : Op) : ∀ (n : Nat) (s : St) (spins : Nat), s.pc = .waiting op spins →
    s.mem.usedIdx ≠ s.lastUsed + 1 → spins + (n + 1) = SPINS →
    runAll (step qSize) s (List.replicate (n + 1) .driver) = .ok (s.answer op false)
  | 0, s, spins, hpc, hidx, hn => by
    have hstep : step qSize s .driver = .ok (s.answer op false) := by
      simp only [step, St.driver, hpc]
      rw [if_neg hidx, if_pos hn]
    rw [List.replicate_succ, runAll_cons _ hstep]
    rfl
  | n + 1, s, spins, hpc, hidx, hn => by
    have hstep : step qSize s .driver = .ok { s with pc := .waiting op (spins + 1) } := by
      simp only [step, St.driver, hpc]
      rw [if_neg hidx, if_neg (by omega)]
    rw [List.replicate_succ, runAll_cons _ hstep]
    exact waiting_gives_up qSize op n { s with pc := .waiting op (spins + 1) } (spins + 1) rfl hidx (by omega)

/-- The device takes up a read of sector 1 but does not finish it before the driver gives up; it does so
while the driver waits for sector 2. -/
def lateCompletion : List Event :=
  post (.read 1) 8 ++ .fetch :: (List.replicate SPINS .driver ++ (post (.read 2) 8 ++ finishRead))

theorem completion_mistaken :
    ¬ Always (step 256) (fun s => ∀ a ∈ s.log, a.Good) (St.init twoSectors) lateCompletion := by
  intro h
  obtain ⟨s₁, hs₁⟩ : ∃ s₁,
      s₁ = { (St.init twoSectors).posted 256 (.read 1) with jobs := [.fetched (Op.read 1).req] } := ⟨_, rfl⟩
  have hgive : runAll (step 256) s₁ (List.replicate (SPINS - 1 + 1) .driver) = .ok (s₁.answer (.read 1) false) :=
    waiting_gives_up 256 (.read 1) (SPINS - 1) s₁ 0 (by rw [hs₁]; rfl) (by rw [hs₁]; decide) (Nat.zero_add _)
  have hspins : SPINS - 1 + 1 = SPINS := rfl
  rw [hspins] at hgive
  obtain ⟨s, hrun, hlog⟩ := runAll_finishRead 256 (s := (s₁.answer (.read 1) false).posted 256 (.read 2))
    rfl (by rw [hs₁]; rfl) (by rw [hs₁]; rfl)
  have hall : runAll (step 256) (St.init twoSectors) lateCompletion = .ok s := by
    unfold lateCompletion
    rw [runAll_append _ (runAll_post 256 1 rfl), runAll_cons _ (fetch_posted rfl rfl fun _ => rfl), ← hs₁,
      runAll_append _ hgive,
      runAll_append _ (runAll_post 256 2 rfl)]
    exact hrun
  obtain ⟨⟨disk, hdisk, heq⟩, -⟩ := h.last hall _ (by rw [hlog]; exact List.mem_cons_self ..) rfl
  have hseen : disk = twoSectors := by
    rw [hs₁] at hdisk
    exact List.mem_singleton.mp hdisk
  have hbuf : twoSectors 1 = disk 2 := by
    rw [hs₁] at heq
    exact heq
  rw [hseen] at hbuf
  have hbyte := congrArg (fun v : Sector => v[0]) hbuf
  simp [twoSectors] at hbyte

end WasmOs.Virtio
