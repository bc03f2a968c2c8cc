import WasmOs.HostWorld

/-!
# Sleeping

`sleep_ms` leaves its time in `PENDING_SLEEP_MS` of `engine.rs` before it yields, and `task_step` takes it
out after any step that yields. There is one such cell for all modules, and `engine::run` does not empty
it.
-/

namespace WasmOs

open Hoare Runs

/-! ## The host functions -/

/-- A host call that surrenders the processor. -/
inductive Request where
  | yield
  | sleepMs (ms : BitVec 32)
  deriving DecidableEq, Repr

/-- What the call leaves in `PENDING_SLEEP_MS`: `ms.max(0) as u32`. -/
def Request.store (pending : Nat) : Request → Nat
  | .yield => pending
  | .sleepMs ms => ms.toInt.toNat

/-- The kernel with the requests that were made since `asked` was last emptied, the latest first. -/
structure Asking (ω : Type) where
  asked : List Request
  rest : ω

section
variable {ω : Type}

def Asking.hostYield : HostFn (Sys (Asking ω)) := fun _ => do
  modify fun v =>
    { v with world := { v.world with rest := { v.world.rest with asked := .yield :: v.world.rest.asked } } }
  throw (.err .yielded)

def Asking.hostSleepMs : HostFn (Sys (Asking ω)) := fun _ => do
  let v ← get
  if v.vsp < 1 then throw (.err .stackUnderflow) else
  if STACK_DEPTH < v.vsp then throw .panic else
  let ms := lo32 (v.vstack (v.vsp - 1))
  let rest := { v.world.rest with asked := .sleepMs ms :: v.world.rest.asked }
  set { v with vsp := v.vsp - 1, world := { v.world with pendingSleepMs := ms.toInt.toNat, rest := rest } }
  throw (.err .yielded)

/-- A host function other than these two, none of which knows of the cell. -/
def HostFn.awake (h : HostFn ω) : HostFn (Sys (Asking ω)) := fun memLen v =>
  let put (u : HostView ω) : HostView (Sys (Asking ω)) :=
    ⟨u.vstack, u.vsp, u.mem, { v.world with rest := { v.world.rest with rest := u.world } }⟩
  match h memLen ⟨v.vstack, v.vsp, v.mem, v.world.rest.rest⟩ with
  | .ok a u => .ok a (put u)
  | .error e u => .error e (put u)

/-- `"env"` and `"sleep_ms"` -/
def SLEEP_MS_IMPORT : List UInt8 × List UInt8 :=
  ([0x65, 0x6E, 0x76], [0x73, 0x6C, 0x65, 0x65, 0x70, 0x5F, 0x6D, 0x73])

/-- The host registry: `env.yield`, `env.sleep_ms` and any other functions. -/
def sleepRegistry (others : List UInt8 → List UInt8 → Option (HostFn ω)) (mod name : List UInt8) :
    Option (HostFn (Sys (Asking ω))) :=
  if (mod, name) = YIELD_IMPORT then some Asking.hostYield
  else if (mod, name) = SLEEP_MS_IMPORT then some Asking.hostSleepMs
  else (others mod name).map HostFn.awake

/-! ## A session -/

/-- How a task step ended: the request it made, the tick when it was over and the state of the task then. -/
structure Outcome where
  request : Request
  later : Nat
  state : Option TaskState

abbrev AskingKernel (ω : Type) := Kernel (Live (Asking ω)) (Asking ω)

/-- The kernel and the outcomes of the task steps so far. -/
structure Watched (ω : Type) where
  kernel : AskingKernel ω
  outcomes : List Outcome

def Watched.boot (mem : Nat → Nat → UInt8) (world : ω) : Watched ω := ⟨.boot mem ⟨[], world⟩, []⟩

def Kernel.forget (k : AskingKernel ω) : AskingKernel ω :=
  { k with sys := { k.sys with rest := { k.sys.rest with asked := [] } } }

def Watched.step (E : Exec (Live (Asking ω)) (Asking ω)) (w : Watched ω) (op : Kernel.Op (Asking ω)) :
    Rust Empty (Watched ω) := do
  let k ← Kernel.step E w.kernel.forget op
  match op with
  | .taskStep id _ later =>
    .ok ⟨k, k.sys.rest.asked.map (⟨·, later, (k.taskQueue id).map Task.state⟩) ++ w.outcomes⟩
  | _ => .ok ⟨k, w.outcomes⟩

/-- Where a task that sleeps for `ms` milliseconds from tick `later` on goes. -/
def sleepFor (later ms : Nat) : TaskState := if 0 < ms then .sleeping (later + (ms + 9) / 10) else .suspended

/-- The state a request is to lead to: its own time to sleep, and none for a plain yield. -/
def Request.due (later : Nat) (q : Request) : TaskState := sleepFor later (q.store 0)

/-- Every step that ended with a request has left the task in the state of that request. -/
def Watched.Honoured (w : Watched ω) : Prop := ∀ o ∈ w.outcomes, o.state = some (o.request.due o.later)

/-! ## What a run asks for -/

variable {others : List UInt8 → List UInt8 → Option (HostFn ω)} {F : FloatOps} {fuel : Nat} {p : Nat}
  {qs : List Request}

def Asked (p : Nat) (qs : List Request) (sys : Sys (Asking ω)) : Prop :=
  sys.pendingSleepMs = p ∧ sys.rest.asked = qs

/-- After a failure: a request has been made, or none. -/
def AskedBy (p : Nat) (qs : List Request) (e : Fault InterpError) (sys : Sys (Asking ω)) : Prop :=
  Asked p qs sys ∨ e = .err .yielded ∧ ∃ q : Request, Asked (q.store p) (q :: qs) sys

theorem sleepRegistry_asks {mod name : List UInt8} {h : HostFn (Sys (Asking ω))}
    (hl : sleepRegistry others mod name = some h)
    (memLen : Nat) (v : HostView (Sys (Asking ω))) (hv : Asked p qs v.world) :
    wp (h memLen) (fun _ v => Asked p qs v.world) (fun e v => AskedBy p qs e v.world) v := by
  unfold sleepRegistry at hl
  by_cases hy : (mod, name) = YIELD_IMPORT
  · rw [if_pos hy] at hl
    cases hl
    exact .inr ⟨rfl, .yield, hv.1, congrArg (Request.yield :: ·) hv.2⟩
  rw [if_neg hy] at hl
  by_cases hs : (mod, name) = SLEEP_MS_IMPORT
  · rw [if_pos hs] at hl
    cases hl
    have hfail : ∀ e, AskedBy p qs e v.world := fun _ => .inl hv
    refine (wp_bind _).mpr
      (wp_get.mpr (wp_ite.mpr ⟨fun _ => hfail _, fun _ => wp_ite.mpr ⟨fun _ => hfail _, fun _ => ?_⟩⟩))
    exact Or.inr ⟨rfl, .sleepMs _, rfl, congrArg (Request.sleepMs _ :: ·) hv.2⟩
  · rw [if_neg hs] at hl
    obtain ⟨g, _, rfl⟩ := Option.map_eq_some_iff.mp hl
    unfold wp HostFn.awake
    dsimp only
    cases g memLen ⟨v.vstack, v.vsp, v.mem, v.world.rest.rest⟩ with
    | ok a u => exact hv
    | error e u => exact .inl hv

def SleepRegistered (others : List UInt8 → List UInt8 → Option (HostFn ω)) (live : Live (Asking ω)) : Prop :=
  ∀ i h, live.code.hostFns i = some h → ∃ mod name, sleepRegistry others mod name = some h

theorem SleepRegistered.asks {live : Live (Asking ω)} (hreg : SleepRegistered others live) (i : Nat)
    (h : HostFn (Sys (Asking ω)))
    (hh : live.code.hostFns i = some h) (v : HostView (Sys (Asking ω))) (hv : Asked p qs v.world) :
    wp (h live.code.memLen) (fun _ v => Asked p qs v.world) (fun e v => AskedBy p qs e v.world) v := by
  obtain ⟨_, _, hl⟩ := hreg i h hh
  exact sleepRegistry_asks hl live.code.memLen v hv

theorem SleepRegistered.congr {live live' : Live (Asking ω)} (hreg : SleepRegistered others live)
    (h : live'.code = live.code) :
    SleepRegistered others live' := by
  unfold SleepRegistered
  rw [h]
  exact hreg

/-- A run of an instance makes one request at most, and it yields if it makes one. -/
def Asks (sys : Sys (Asking ω)) (yields : Prop) (sys' : Sys (Asking ω)) : Prop :=
  Asked sys.pendingSleepMs sys.rest.asked sys' ∨
    yields ∧ ∃ q : Request, Asked (q.store sys.pendingSleepMs) (q :: sys.rest.asked) sys'

theorem ranIn_asks {live : Live (Asking ω)} {sys : Sys (Asking ω)} {r : Except (Fault RunError) TaskResult}
    {x : Live (Asking ω) × Sys (Asking ω)} {yields : Prop} (hr : r = .ok .yielded → yields)
    (h : RanIn (AskedBy sys.pendingSleepMs sys.rest.asked) live r x) : Asks sys yields x.2 := by
  obtain ⟨_, e, hq | ⟨he, hq⟩, hy⟩ := h
  · exact .inl hq
  · exact .inr ⟨hr (hy he), hq⟩

/-- A run of an instance with such host functions. -/
def AsksOnly (others : List UInt8 → List UInt8 → Option (HostFn ω))
    (m : EStateM (Fault RunError) (Live (Asking ω) × Sys (Asking ω)) TaskResult) : Prop :=
  ∀ live sys, SleepRegistered others live →
    wp m (fun r x => SleepRegistered others x.1 ∧ Asks sys (r = .yielded) x.2)
      (fun _ x => SleepRegistered others x.1 ∧ Asks sys False x.2) (live, sys)

theorem startTask_asksOnly (entry : List UInt8) (args : List (BitVec 32)) :
    AsksOnly others ((interpExec (sleepRegistry others) F fuel).startTask entry args) := by
  intro live sys hreg
  have hran : wp ((interpExec (sleepRegistry others) F fuel).startTask entry args) _ _ (live, sys) :=
    startTask_ranIn (B := AskedBy sys.pendingSleepMs sys.rest.asked) (fun _ _ h => .inl h) hreg.asks entry
      args ⟨rfl, rfl⟩
  refine wp_mono (fun r x h => ⟨hreg.congr h.1, ranIn_asks Except.ok.inj h⟩)
    (fun e x h => ⟨hreg.congr h.1, ?_⟩) hran
  exact ranIn_asks (fun hr => by cases hr) h

theorem resumeTask_asksOnly : AsksOnly others (interpExec (sleepRegistry others) F fuel).resumeTask := by
  intro live sys hreg
  have hran : wp (interpExec (sleepRegistry others) F fuel).resumeTask _ _ (live, sys) :=
    resumeTask_ranIn (B := AskedBy sys.pendingSleepMs sys.rest.asked) (fun _ _ h => .inl h) hreg.asks ⟨rfl, rfl⟩
  refine wp_mono (fun r x h => ⟨hreg.congr h.1, ranIn_asks Except.ok.inj h⟩)
    (fun e x h => ⟨hreg.congr h.1, ?_⟩) hran
  exact ranIn_asks (fun hr => by cases hr) h

/-! ## The pool -/

/-- Any number of requests, the latest first. -/
def AsksMany (sys sys' : Sys (Asking ω)) : Prop :=
  ∃ qs : List Request, Asked (qs.foldr (fun q p => q.store p) sys.pendingSleepMs) (qs ++ sys.rest.asked) sys'

theorem AsksMany.refl (sys : Sys (Asking ω)) : AsksMany sys sys := ⟨[], rfl, rfl⟩

theorem AsksMany.trans {a b c : Sys (Asking ω)} (h : AsksMany a b) (h' : AsksMany b c) : AsksMany a c := by
  obtain ⟨qs, hp, hq⟩ := h
  obtain ⟨qs', hp', hq'⟩ := h'
  refine ⟨qs' ++ qs, ?_, ?_⟩
  · rw [hp', hp, List.foldr_append]
  · rw [hq', hq, List.append_assoc]

theorem Asks.many {sys sys' : Sys (Asking ω)} {yields : Prop} (h : Asks sys yields sys') : AsksMany sys sys' := by
  obtain h | ⟨_, q, h⟩ := h
  · exact ⟨[], h⟩
  · exact ⟨[q], h⟩

theorem sleep_maintains :
    (interpExec (sleepRegistry others) F fuel).Maintains (SleepRegistered others) fun _ => True where
  instantiate bytes sys _ := by
    unfold wp
    cases hi : (interpExec (sleepRegistry others) F fuel).instantiate bytes sys with
    | ok live sys' =>
      obtain ⟨rfl, inst, hinst, rfl⟩ := Kernel.instantiate_ok hi
      exact ⟨fun i h hh => instantiate_hostFns hinst hh, trivial⟩
    | error e sys' => trivial
  startTask entry args := fun x hx =>
    wp_mono (fun _ _ h => ⟨h.1, trivial⟩) (fun _ _ h => ⟨h.1, trivial⟩) (startTask_asksOnly entry args x.1 x.2 hx.1)
  resumeTask := fun x hx =>
    wp_mono (fun _ _ h => ⟨h.1, trivial⟩) (fun _ _ h => ⟨h.1, trivial⟩) (resumeTask_asksOnly x.1 x.2 hx.1)

namespace Kernel

variable {k k' : AskingKernel ω}

/-- Every instance in the pool has its host functions from the registry. -/
abbrev Sleepers (others : List UInt8 → List UInt8 → Option (HostFn ω)) (k : AskingKernel ω) : Prop :=
  Maintained (SleepRegistered others) (fun _ => True) k

theorem onInstance_asks (hk : k.Sleepers others) {handle : Nat}
    {m : EStateM (Fault RunError) (Live (Asking ω) × Sys (Asking ω)) TaskResult}
    (hm : AsksOnly others m) {r : Except RunError TaskResult} (h : k.onInstance handle m = .ok (r, k')) :
    Asks k.sys (r = .ok .yielded) k'.sys := by
  unfold onInstance at h
  split at h
  · cases h
    exact .inl ⟨rfl, rfl⟩
  · split at h
    · cases h
      exact .inl ⟨rfl, rfl⟩
    · rename_i live hlive
      have hrun := hm live k.sys (hk.pool handle live hlive)
      split at h
      · rename_i r' live' sys' hr
        cases h
        obtain hq | ⟨rfl, hq⟩ := (wp_ok hrun hr).2
        · exact .inl hq
        · exact .inr ⟨rfl, hq⟩
      · rename_i e live' sys' hr
        cases h
        obtain hq | ⟨hfalse, _⟩ := (wp_error hrun hr).2
        · exact .inl hq
        · exact hfalse.elim
      · cases h
      · cases h

theorem spawn_sys {junk : Nat → UInt8} {bytes : List UInt8} {r : Except RunError Nat}
    (h : k.spawn (interpExec (sleepRegistry others) F fuel) junk bytes = .ok (r, k')) : k'.sys = k.sys := by
  obtain ⟨rfl, rfl⟩ | ⟨slot, m, _, _, ⟨e, sys, he, rfl, rfl⟩ | ⟨inst, sys, hi, rfl, rfl⟩⟩ := spawn_ok h
  · rfl
  · exact instantiate_error he
  · exact (instantiate_ok hi).1

theorem drain_asks {handle : Nat} : ∀ {steps : Nat} {x : Except RunError TaskResult × AskingKernel ω}
    {r : Except RunError (Option (BitVec 64))}, x.2.Sleepers others →
    drain (interpExec (sleepRegistry others) F fuel) handle steps x = .ok (r, k') → AsksMany x.2.sys k'.sys
  | _, (.error e, k), r, _, h => by unfold drain at h; cases h; exact .refl _
  | _, (.ok (.completed v), k), r, _, h => by unfold drain at h; cases h; exact .refl _
  | 0, (.ok .yielded, k), r, _, h => by cases h
  | steps + 1, (.ok .yielded, k), r, hk, h => by
    unfold drain at h
    obtain ⟨⟨r₁, k₁⟩, hres, h⟩ := bind_eq_ok.mp h
    have h₁ := onInstance_asks hk resumeTask_asksOnly hres
    have hk₁ : k₁.Sleepers others := Maintained.onInstance hk sleep_maintains.resumeTask hres
    exact h₁.many.trans (drain_asks hk₁ h)

theorem run_asks (hk : k.Sleepers others) {junk : Nat → UInt8} {bytes entry : List UInt8}
    {args : List (BitVec 32)} {steps : Nat} {r : Except RunError (Option (BitVec 64))}
    (h : k.run (interpExec (sleepRegistry others) F fuel) junk bytes entry args steps = .ok (r, k')) :
    AsksMany k.sys k'.sys := by
  unfold run at h
  obtain ⟨⟨r₁, k₁⟩, hspawn, h⟩ := bind_eq_ok.mp h
  have hsys := spawn_sys hspawn
  have hk₁ : k₁.Sleepers others := Maintained.spawn sleep_maintains hk hspawn
  cases r₁ with
  | error e =>
    cases h
    rw [hsys]
    exact .refl _
  | ok handle =>
    obtain ⟨⟨r₂, k₂⟩, hstart, h⟩ := bind_eq_ok.mp h
    obtain ⟨⟨r₃, k₃⟩, hdrain, h⟩ := bind_eq_ok.mp h
    cases h
    have h₂ := onInstance_asks hk₁ (startTask_asksOnly entry args) hstart
    have hk₂ : k₂.Sleepers others := Maintained.onInstance hk₁ (sleep_maintains.startTask entry args) hstart
    rw [destroy_sys, ← hsys]
    exact h₂.many.trans (drain_asks hk₂ hdrain)

/-- After a step that has made a request the cell is empty, and the task is in the state for what was in it. -/
def Settled (k : AskingKernel ω) (id later : Nat) (k' : AskingKernel ω) : Prop :=
  k'.sys.rest.asked = k.sys.rest.asked ∧ (k'.sys.pendingSleepMs = k.sys.pendingSleepMs ∨
    k'.sys.pendingSleepMs = 0) ∨
  ∃ q : Request, k'.sys.rest.asked = q :: k.sys.rest.asked ∧ k'.sys.pendingSleepMs = 0 ∧
    (k'.taskQueue id).map Task.state = some (sleepFor later (q.store k.sys.pendingSleepMs))

theorem settleTask_settled {k₁ : AskingKernel ω} {id later : Nat} {t : Task} {r : Except RunError TaskResult}
    (h : Asks k.sys (r = .ok .yielded) k₁.sys) : Settled k id later (k₁.settleTask id t later r) := by
  by_cases hr : r = .ok .yielded
  · subst hr
    obtain ⟨hp, hq⟩ | ⟨_, q, hp, hq⟩ := h
    · exact .inl ⟨hq, .inr rfl⟩
    · refine .inr ⟨q, hq, rfl, ?_⟩
      show Option.map Task.state (upd _ id _ id) = _
      rw [upd_self, ← hp]
      rfl
  · obtain ⟨hp, hq⟩ | ⟨hy, _⟩ := h
    · have hsys : (k₁.settleTask id t later r).sys = k₁.sys := by
        rcases r with e | v | _
        · exact destroy_sys _ _
        · exact destroy_sys _ _
        · exact absurd rfl hr
      refine .inl ⟨?_, .inl ?_⟩
      · rw [hsys, hq]
      · rw [hsys, hp]
    · exact absurd hy hr

theorem stepAwake_settled (hk : k.Sleepers others) {id later : Nat} {t : Task}
    {r : Option (Except RunError TaskResult)}
    (h : k.stepAwake (interpExec (sleepRegistry others) F fuel) id t later = .ok (r, k')) :
    Settled k id later k' := by
  have hk' : (k.setTask id (some { t with state := .running })).Sleepers others := hk.setTask _ _
  unfold stepAwake at h
  dsimp only at h
  split at h
  · obtain ⟨⟨r₁, k₁⟩, hrun, h⟩ := bind_eq_ok.mp h
    cases h
    exact settleTask_settled (k := k) (onInstance_asks hk' (startTask_asksOnly _ _) hrun)
  · obtain ⟨⟨r₁, k₁⟩, hrun, h⟩ := bind_eq_ok.mp h
    cases h
    exact settleTask_settled (k := k) (onInstance_asks hk' resumeTask_asksOnly hrun)
  · cases h
    exact .inl ⟨rfl, .inl rfl⟩

theorem taskStep_settled (hk : k.Sleepers others) {id now later : Nat} {r : Option (Except RunError TaskResult)}
    (h : k.taskStep (interpExec (sleepRegistry others) F fuel) id now later = .ok (r, k')) :
    Settled k id later k' := by
  unfold taskStep at h
  split at h
  · cases h
    exact .inl ⟨rfl, .inl rfl⟩
  · split at h
    · cases h
      exact .inl ⟨rfl, .inl rfl⟩
    · split at h
      · split at h
        · exact stepAwake_settled (k := k.setTask _ _) (hk.setTask _ _) h
        · cases h
          exact .inl ⟨rfl, .inl rfl⟩
      · exact stepAwake_settled hk h

end Kernel

/-! ## Sessions -/

theorem Watched.step_ok {E : Exec (Live (Asking ω)) (Asking ω)} {w w' : Watched ω} {op : Kernel.Op (Asking ω)}
    (h : w.step E op = .ok w') :
    Kernel.step E w.kernel.forget op = .ok w'.kernel := by
  obtain ⟨k, hk, h⟩ := bind_eq_ok.mp h
  split at h
  · cases h
    exact hk
  · cases h
    exact hk

theorem Watched.step_sleepers {w w' : Watched ω} (hw : w.kernel.Sleepers others) {op : Kernel.Op (Asking ω)}
    (h : w.step (interpExec (sleepRegistry others) F fuel) op = .ok w') : w'.kernel.Sleepers others := by
  have hk : w.kernel.forget.Sleepers others := ⟨hw.pool, trivial⟩
  have h := Watched.step_ok h
  generalize w'.kernel = k' at h ⊢
  cases op with
  | taskSpawn junk bytes args =>
    obtain ⟨⟨r, k⟩, hop, h⟩ := bind_eq_ok.mp h
    cases h
    exact hk.taskSpawn sleep_maintains hop
  | taskKill id =>
    cases h
    exact hk.taskKill id
  | taskStep id now later =>
    obtain ⟨⟨r, k⟩, hop, h⟩ := bind_eq_ok.mp h
    cases h
    exact hk.taskStep sleep_maintains hop
  | run junk bytes entry args steps =>
    obtain ⟨⟨r, k⟩, hop, h⟩ := bind_eq_ok.mp h
    cases h
    exact hk.run sleep_maintains hop
  | other world =>
    cases h
    exact ⟨hw.pool, trivial⟩

/-- A task step that ends with `env.yield` is made while the cell is empty. -/
def FindsCellEmpty (E : Exec (Live (Asking ω)) (Asking ω)) (w : Watched ω) : Kernel.Op (Asking ω) → Prop
  | .taskStep id now later => ∀ r k, w.kernel.forget.taskStep E id now later = .ok (r, k) →
    k.sys.rest.asked = [.yield] →
      w.kernel.sys.pendingSleepMs = 0
  | _ => True

theorem sleepFor_zero_iff (later p : Nat) : sleepFor later p = sleepFor later 0 ↔ p = 0 := by
  unfold sleepFor
  by_cases hp : 0 < p
  · simp [hp, Nat.ne_of_gt hp]
  · simp [Nat.eq_zero_of_not_pos hp]

theorem Watched.step_honoured {w w' : Watched ω} (hw : w.kernel.Sleepers others) (hon : w.Honoured)
    {op : Kernel.Op (Asking ω)} (h : w.step (interpExec (sleepRegistry others) F fuel) op = .ok w') :
    w'.Honoured ↔ FindsCellEmpty (interpExec (sleepRegistry others) F fuel) w op := by
  have hk : w.kernel.forget.Sleepers others := ⟨hw.pool, trivial⟩
  cases op with
  | taskStep id now later =>
    obtain ⟨k, hstep, h⟩ := bind_eq_ok.mp h
    cases h
    obtain ⟨⟨r, k₁⟩, hop, hstep⟩ := bind_eq_ok.mp hstep
    cases hstep
    -- the operation is a function, so its result is the one that `FindsCellEmpty` is about
    have hfinds : FindsCellEmpty (interpExec (sleepRegistry others) F fuel) w (.taskStep id now later) ↔
        (k.sys.rest.asked = [.yield] → w.kernel.sys.pendingSleepMs = 0) := by
      refine ⟨fun h => h r k hop, fun h r' k' hop' => ?_⟩
      rw [hop] at hop'
      cases hop'
      exact h
    rw [hfinds]
    unfold Watched.Honoured
    obtain ⟨hq, _⟩ | ⟨q, hq, _, hst⟩ := Kernel.taskStep_settled hk hop
    · have hq : k.sys.rest.asked = [] := hq
      simp only [hq, List.map_nil, List.nil_append]
      exact ⟨fun _ hy => (by cases hy), fun _ => hon⟩
    · have hq : k.sys.rest.asked = [q] := hq
      have hst : (k.taskQueue id).map Task.state =
          some (sleepFor later (q.store w.kernel.sys.pendingSleepMs)) := hst
      simp only [hq, List.map_cons, List.map_nil, List.cons_append, List.nil_append, List.forall_mem_cons,
        hst, Option.some.injEq]
      rw [and_iff_left (show ∀ o ∈ w.outcomes, o.state = some (o.request.due o.later) from hon)]
      cases q with
      | yield =>
        show sleepFor later w.kernel.sys.pendingSleepMs = sleepFor later 0 ↔ _
        rw [sleepFor_zero_iff]
        exact ⟨fun h _ => h, fun h => h rfl⟩
      | sleepMs ms => exact ⟨fun _ hy => (by cases hy), fun _ => rfl⟩
  | taskSpawn | taskKill | run | other =>
    obtain ⟨k', hstep, h⟩ := bind_eq_ok.mp h
    cases h
    exact ⟨fun _ => trivial, fun _ => hon⟩

/-- The time of the latest `sleep_ms` among the requests. -/
def lastSleep (qs : List Request) : Option (BitVec 32) :=
  qs.findSome? fun
    | .sleepMs ms => some ms
    | .yield => none

/-- The last `sleep_ms` of a synchronous run, if it makes any, asks for no time. -/
def LeavesCellEmpty (E : Exec (Live (Asking ω)) (Asking ω)) (w : Watched ω) : Kernel.Op (Asking ω) → Prop
  | .run junk bytes entry args fuel => ∀ r k, w.kernel.forget.run E junk bytes entry args fuel = .ok (r, k) →
      ∀ ms, lastSleep k.sys.rest.asked = some ms → ms.toInt ≤ 0
  | _ => True

theorem foldr_store (p : Nat) : ∀ qs : List Request, qs.foldr (fun q p => q.store p) p =
    match lastSleep qs with
    | some ms => ms.toInt.toNat
    | none => p
  | [] => rfl
  | .sleepMs _ :: _ => rfl
  | .yield :: qs => foldr_store p qs

theorem Watched.step_cell {w w' : Watched ω} (hw : w.kernel.Sleepers others) (hp : w.kernel.sys.pendingSleepMs = 0)
    {op : Kernel.Op (Asking ω)} (hop : LeavesCellEmpty (interpExec (sleepRegistry others) F fuel) w op)
    (h : w.step (interpExec (sleepRegistry others) F fuel) op = .ok w') : w'.kernel.sys.pendingSleepMs = 0 := by
  have hk : w.kernel.forget.Sleepers others := ⟨hw.pool, trivial⟩
  have h := Watched.step_ok h
  generalize w'.kernel = k' at h ⊢
  cases op with
  | taskSpawn junk bytes args =>
    obtain ⟨⟨r, k⟩, hspawn, h⟩ := bind_eq_ok.mp h
    cases h
    unfold Kernel.taskSpawn at hspawn
    split at hspawn
    · cases hspawn
      exact hp
    · obtain ⟨⟨r₁, k₁⟩, hs, hspawn⟩ := bind_eq_ok.mp hspawn
      have hsys := Kernel.spawn_sys hs
      have hp₁ : k₁.sys.pendingSleepMs = 0 := by
        rw [hsys]
        exact hp
      cases r₁ with
      | error e => cases hspawn; exact hp₁
      | ok inst => cases hspawn; exact hp₁
  | taskKill id =>
    cases h
    unfold Kernel.taskKill
    split
    · exact hp
    · split
      · exact hp
      · rw [Kernel.destroy_sys]
        exact hp
  | taskStep id now later =>
    obtain ⟨⟨r, k⟩, hstep, h⟩ := bind_eq_ok.mp h
    cases h
    obtain ⟨_, hsame | hzero⟩ | ⟨q, _, hzero, _⟩ := Kernel.taskStep_settled hk hstep
    · rw [hsame]
      exact hp
    · exact hzero
    · exact hzero
  | run junk bytes entry args steps =>
    obtain ⟨⟨r, k⟩, hrun, h⟩ := bind_eq_ok.mp h
    obtain rfl : k = k' := Except.ok.inj h
    obtain ⟨qs, hpend, hqs⟩ := Kernel.run_asks hk hrun
    have hqs : k.sys.rest.asked = qs := hqs.trans (List.append_nil qs)
    have hlast := hop r k hrun
    rw [hqs] at hlast
    rw [hpend, foldr_store]
    cases hl : lastSleep qs with
    | none => exact hp
    | some ms => exact Int.toNat_of_nonpos (hlast ms hl)
  | other world =>
    cases h
    exact hp

/-- The steps of all tasks lead to the states of their own requests exactly if every step that ends with
`env.yield` finds the cell empty; and that is so if no synchronous run leaves a time to sleep behind. -/
theorem sleep_honoured_iff (others : List UInt8 → List UInt8 → Option (HostFn ω)) (F : FloatOps) (fuel : Nat)
    (mem : Nat → Nat → UInt8) (world : ω) (ops : List (Kernel.Op (Asking ω))) :
    (Always (Watched.step (interpExec (sleepRegistry others) F fuel)) Watched.Honoured
      (Watched.boot mem world) ops ↔
      AllSteps (Watched.step (interpExec (sleepRegistry others) F fuel))
      (FindsCellEmpty (interpExec (sleepRegistry others) F fuel))
        (Watched.boot mem world) ops) ∧
    (AllSteps (Watched.step (interpExec (sleepRegistry others) F fuel))
      (LeavesCellEmpty (interpExec (sleepRegistry others) F fuel))
        (Watched.boot mem world) ops →
      AllSteps (Watched.step (interpExec (sleepRegistry others) F fuel))
      (FindsCellEmpty (interpExec (sleepRegistry others) F fuel))
        (Watched.boot mem world) ops) := by
  have hboot : (Watched.boot mem world).kernel.Sleepers others := ⟨fun _ _ h => (by cases h), trivial⟩
  have hon : (Watched.boot mem world).Honoured := fun _ h => (by cases h)
  constructor
  · have hstep : ∀ w op w', w.kernel.Sleepers others ∧ w.Honoured → True →
        w.step (interpExec (sleepRegistry others) F fuel) op = .ok w' →
        (w'.kernel.Sleepers others ∧ w'.Honoured ↔
        FindsCellEmpty (interpExec (sleepRegistry others) F fuel) w op) := by
      intro w op w' hw _ h
      rw [and_iff_right (Watched.step_sleepers hw.1 h)]
      exact Watched.step_honoured hw.1 hw.2 h
    rw [← always_iff_allSteps hstep ⟨hboot, hon⟩ (allSteps_of_forall fun _ _ _ => trivial)]
    exact ⟨Always.and (fun w op w' hw h => Watched.step_sleepers hw h) hboot, Always.mono fun _ h => h.2⟩
  · intro hall
    refine Always.allSteps (P := fun w : Watched ω => w.kernel.Sleepers others ∧ w.kernel.sys.pendingSleepMs = 0) ?_
      (AllSteps.always (fun w op w' hw hop h =>
        ⟨Watched.step_sleepers hw.1 h, Watched.step_cell hw.1 hw.2 hop h⟩) ⟨hboot, rfl⟩ hall)
    intro w op hw
    cases op with
    | taskStep id now later => exact fun _ _ _ _ => hw.2
    | taskSpawn | taskKill | run | other => trivial

/-! ## How long a task sleeps -/

/-- The clock that the timer divides, in Hz. -/
def PIT_HZ : Nat := 1193182

def PIT_DIVISOR : Nat := 1193

/-- So many ticks are over before so many milliseconds. -/
def ShorterThan (ticks ms : Nat) : Prop := ticks * PIT_DIVISOR * 1000 < ms * PIT_HZ

/-- Until `ms` milliseconds after tick `t₀` the task is not runnable and not stepped, whatever is done with
the others. -/
def Kernel.SleepsFor (E : Exec (Live (Asking ω)) (Asking ω)) (k : AskingKernel ω) (id t₀ ms : Nat) : Prop :=
  ∀ ops k', (∀ op ∈ ops, op.target ≠ some id) → runAll (Kernel.step E) k ops = .ok k' → ∀ t, t₀ ≤ t →
    ShorterThan (t - t₀) ms →
    k'.isTaskRunnable id t = false ∧ ∀ later, k'.taskStep E id t later = .ok (none, k')

theorem Kernel.isTaskRunnable_sleeping {k : AskingKernel ω} {id wake : Nat} (hid : id < MAX_TASKS)
    (h : (k.taskQueue id).map Task.state = some (.sleeping wake)) (t : Nat) :
    k.isTaskRunnable id t = true ↔ wake ≤ t := by
  unfold isTaskRunnable
  rw [if_neg (Nat.not_le.mpr hid), h]
  exact decide_eq_true_iff

/-- A tenth as many ticks are over before the time is: a tick is less than a millisecond. -/
theorem shorterThan_tenth {ms : Nat} (h : 0 < ms) : ShorterThan ((ms + 9) / 10) ms := by
  unfold ShorterThan PIT_DIVISOR PIT_HZ
  omega

/-- A task that asks to sleep is runnable again after a tenth as many ticks as the milliseconds it asked for,
which is always too early. -/
theorem sleep_wakes_early (others : List UInt8 → List UInt8 → Option (HostFn ω)) (F : FloatOps) (fuel : Nat)
    (mem : Nat → Nat → UInt8) (world : ω) (ops : List (Kernel.Op (Asking ω))) (w w' : Watched ω)
    (hr : runAll (Watched.step (interpExec (sleepRegistry others) F fuel)) (Watched.boot mem world) ops =
      .ok w) (id now later : Nat)
    (h : w.step (interpExec (sleepRegistry others) F fuel) (.taskStep id now later) = .ok w') (ms : BitVec 32)
    (hask : w'.kernel.sys.rest.asked = [.sleepMs ms]) (hms : 0 < ms.toInt) :
    (∀ t, w'.kernel.isTaskRunnable id t = true ↔ later + (ms.toInt.toNat + 9) / 10 ≤ t) ∧
      ¬ w'.kernel.SleepsFor (interpExec (sleepRegistry others) F fuel) id later ms.toInt.toNat := by
  have hboot : (Watched.boot mem world).kernel.Sleepers others := ⟨fun _ _ h => (by cases h), trivial⟩
  have hw : w.kernel.Sleepers others := by
    have hall : Always (Watched.step (interpExec (sleepRegistry others) F fuel))
        (fun w => w.kernel.Sleepers others) (Watched.boot mem world) ops :=
      AllSteps.always (C := fun _ _ => True) (fun w op w' hw _ h => Watched.step_sleepers hw h) hboot
        (allSteps_of_forall fun _ _ _ => trivial)
    exact hall.last hr
  have hstep := Watched.step_ok h
  generalize w'.kernel = k at hstep hask ⊢
  obtain ⟨⟨r, k₁⟩, hop, heq⟩ := bind_eq_ok.mp hstep
  obtain rfl : k₁ = k := Except.ok.inj heq
  have hid : id < MAX_TASKS := by
    by_contra hid
    unfold Kernel.taskStep at hop
    rw [if_pos (Nat.le_of_not_lt hid)] at hop
    cases hop
    cases hask
  have hpos : 0 < ms.toInt.toNat := by omega
  have hstate : (k₁.taskQueue id).map Task.state = some (.sleeping (later + (ms.toInt.toNat + 9) / 10)) := by
    obtain ⟨hq, _⟩ | ⟨q, hq, _, hst⟩ := Kernel.taskStep_settled (k := w.kernel.forget) ⟨hw.pool, trivial⟩ hop
    · rw [hask] at hq
      cases hq
    · rw [hask] at hq
      cases hq
      rw [hst]
      exact congrArg some (if_pos hpos)
  have hrun := Kernel.isTaskRunnable_sleeping hid hstate
  refine ⟨hrun, fun hsleeps => ?_⟩
  have hwake :=
    (hsleeps [] k₁ (fun _ h => by cases h) rfl (later + (ms.toInt.toNat + 9) / 10) (Nat.le_add_right _ _)
    (by rw [Nat.add_sub_cancel_left]; exact shorterThan_tenth hpos)).1
  rw [(hrun _).mpr (Nat.le_refl _)] at hwake
  cases hwake

end

/-- A module whose `main` calls `sleep_ms` with a time below 64. -/
def sleeper (ms : UInt8) : List UInt8 :=
  [0x00, 0x61, 0x73, 0x6D, 0x01, 0x00, 0x00, 0x00, 0x01, 0x08, 0x02, 0x60, 0x01, 0x7F, 0x00, 0x60, 0x00, 0x00,
    0x02, 0x10, 0x01, 0x03, 0x65, 0x6E, 0x76, 0x08, 0x73, 0x6C, 0x65, 0x65, 0x70, 0x5F, 0x6D, 0x73, 0x00, 0x00,
    0x03, 0x02, 0x01, 0x01, 0x07, 0x08, 0x01, 0x04, 0x6D, 0x61, 0x69, 0x6E, 0x00, 0x01,
    0x0A, 0x08, 0x01, 0x06, 0x00, 0x41, ms, 0x10, 0x00, 0x0B]

/-- A kernel without other host functions. -/
def sleepStep : Watched Unit → Kernel.Op (Asking Unit) → Rust Empty (Watched Unit) :=
  Watched.step (interpExec (sleepRegistry fun _ _ => none) default 9)

theorem runAll_of_watched {α : Type} {ops : List (Kernel.Op (Asking Unit))} {w₀ : Watched Unit}
    (f : Watched Unit → α) {a : α}
    (h : (runAll sleepStep w₀ ops).toOption.map f = some a) : ∃ w, runAll sleepStep w₀ ops = .ok w ∧ f w = a := by
  cases hr : runAll sleepStep w₀ ops with
  | error e =>
    rw [hr] at h
    cases h
  | ok w =>
    rw [hr] at h
    exact ⟨w, rfl, Option.some.inj h⟩

def Watched.reports (w : Watched Unit) : List (Request × Nat × Option TaskState) :=
  w.outcomes.map fun o => (o.request, o.later, o.state)

/-- A task that has only yielded sleeps for what a program that was run before has asked for. -/
theorem sleep_of_another :
    ¬ Always sleepStep Watched.Honoured (Watched.boot (fun _ _ => 0) ())
      [.taskSpawn (fun _ => 0) Kernel.yielder [], .run (fun _ => 0) (sleeper 50) Kernel.MAIN [] 2,
        .taskStep 0 0 7] := by
  intro h
  have hreport : (runAll sleepStep (Watched.boot (fun _ _ => 0) ())
      [.taskSpawn (fun _ => 0) Kernel.yielder [], .run (fun _ => 0) (sleeper 50) Kernel.MAIN [] 2,
      .taskStep 0 0 7]).toOption.map Watched.reports =
      some [(.yield, 7, some (.sleeping 12))] := by decide +kernel
  obtain ⟨w, hrun, hout⟩ := runAll_of_watched Watched.reports hreport
  obtain ⟨o, ho, heq⟩ : ∃ o ∈ w.outcomes, (o.request, o.later, o.state) = (.yield, 7, some (.sleeping 12)) := by
    refine List.mem_map.mp ?_
    rw [show w.outcomes.map _ = _ from hout]
    exact List.mem_cons_self ..
  have hon := h.last hrun o ho
  simp only [Prod.mk.injEq] at heq
  rw [heq.1, heq.2.1, heq.2.2] at hon
  cases hon

/-- A task asks for 50 milliseconds in a step that is over at tick 7, and is runnable at tick 12. -/
theorem sleeper_runnable : ∃ w w', runAll sleepStep (Watched.boot (fun _ _ => 0) ())
    [.taskSpawn (fun _ => 0) (sleeper 50) []] = .ok w ∧
    sleepStep w (.taskStep 0 0 7) = .ok w' ∧ w'.kernel.sys.rest.asked = [.sleepMs 50] ∧
    w'.kernel.isTaskRunnable 0 12 = true := by
  obtain ⟨w', hrun, hask⟩ := runAll_of_watched (fun w => (w.kernel.sys.rest.asked, w.kernel.isTaskRunnable 0 12))
    (show (runAll sleepStep (Watched.boot (fun _ _ => 0) ())
      [.taskSpawn (fun _ => 0) (sleeper 50) [], .taskStep 0 0 7]).toOption.map _ =
      some ([.sleepMs 50], true) by decide +kernel)
  obtain ⟨w, hw, hrun⟩ := bind_eq_ok.mp hrun
  obtain ⟨w₂, hw₂, hrun⟩ := bind_eq_ok.mp hrun
  cases hrun
  exact ⟨w, w', runAll_cons [] hw, hw₂, Prod.mk.inj hask⟩

theorem sleep_wakes_early_sleeper : ∃ w : Watched Unit, w.kernel.sys.rest.asked = [.sleepMs 50] ∧
    (∀ t, w.kernel.isTaskRunnable 0 t = true ↔ 12 ≤ t) ∧
    ¬ w.kernel.SleepsFor (interpExec (sleepRegistry fun _ _ => none) default 9) 0 7 50 := by
  obtain ⟨w, w', hrun, hstep, hask, _⟩ := sleeper_runnable
  exact ⟨w', hask, sleep_wakes_early (fun _ _ => none) default 9 (fun _ _ => 0) () _ w w' hrun 0 0 7 hstep 50
    hask (by decide)⟩

/-- After five ticks a task that sleeps for 50 milliseconds is stepped again. -/
theorem sleeps_five_ticks : ∃ w w', runAll sleepStep (Watched.boot (fun _ _ => 0) ())
    [.taskSpawn (fun _ => 0) (sleeper 50) []] = .ok w ∧
    sleepStep w (.taskStep 0 0 7) = .ok w' ∧ w'.kernel.sys.rest.asked = [.sleepMs 50] ∧
    ¬ w'.kernel.SleepsFor (interpExec (sleepRegistry fun _ _ => none) default 9) 0 7 50 := by
  obtain ⟨w, w', hrun, hstep, hask, hawake⟩ := sleeper_runnable
  refine ⟨w, w', hrun, hstep, hask, fun hsleeps => ?_⟩
  have hwake := (hsleeps [] w'.kernel (fun _ h => by cases h) rfl 12 (by decide) (by unfold ShorterThan; decide)).1
  rw [hawake] at hwake
  cases hwake

end WasmOs
