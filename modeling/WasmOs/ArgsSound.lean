import WasmOs.Args
import WasmOs.HostWorld

/-!
# Whose arguments a task reads

A task reads the string that was stored last. That is its own as long as nothing is launched with other
arguments while the task is there, not even a program that then cannot be started.
-/

namespace WasmOs

open Hoare Runs

/-! ## The buffer -/

section
variable {ω : Type}

@[simp] theorem ArgsBuf.setArgs_text (a : ArgsBuf) {args : List UInt8} (h : args.length ≤ ARGS_CAP) :
    (a.setArgs args).text = args := by
  have hmin : min args.length ARGS_CAP = args.length := by omega
  have htake : args.take args.length = args := List.take_length
  unfold ArgsBuf.setArgs ArgsBuf.text
  simp only [hmin, htake]
  apply List.ext_getElem
  · rw [slice_length]
  · intro i hi hi'
    rw [slice_getElem, Nat.zero_add, blit_apply, dif_pos ⟨Nat.zero_le _, by omega⟩]
    simp

theorem joinLoop_length : ∀ (args : List (List UInt8)) (raw : List UInt8) (first : Bool), raw.length ≤ ARGS_CAP →
    (joinLoop raw first args).length ≤ ARGS_CAP
  | [], _, _, h => h
  | s :: args, raw, first, h => by
    unfold joinLoop
    refine joinLoop_length args _ false ?_
    have hsep : (if !first ∧ raw.length < ARGS_CAP then raw ++ [0x20] else raw).length ≤ ARGS_CAP := by
      split
      · rename_i hlt
        rw [List.length_append, List.length_singleton]
        omega
      · exact h
    rw [List.length_append, List.length_take]
    omega

theorem joinArgs_length (args : List (List UInt8)) : (joinArgs args).length ≤ ARGS_CAP :=
  joinLoop_length args [] true (Nat.zero_le _)

/-- The buffer is `a`, and every `args_get` has read it. -/
def ReadsOnly (a : ArgsBuf) (w : WithArgs ω) : Prop := w.args = a ∧ ∀ text ∈ w.calls, text = a.text

variable {others : List UInt8 → List UInt8 → Option (HostFn (Sys ω))} {a : ArgsBuf}

theorem hostArgsGet_readsOnly (memLen : Nat) :
    Keeps (fun v : HostView (Sys (WithArgs ω)) => ReadsOnly a v.world.rest) (ArgsBuf.hostArgsGet memLen) := by
  refine keeps_get fun v hv => ?_
  have hcalls : ∀ text ∈ v.world.rest.args.text :: v.world.rest.calls, text = a.text := by
    intro text ht
    obtain rfl | ht := List.mem_cons.mp ht
    · rw [hv.1]
    · exact hv.2 text ht
  split
  · exact hv
  · split
    · exact hv
    · dsimp only
      split
      · exact ⟨hv.1, hcalls⟩
      · exact ⟨hv.1, hcalls⟩

theorem beside_readsOnly (h : HostFn (Sys ω)) (memLen : Nat) :
    Keeps (fun v : HostView (Sys (WithArgs ω)) => ReadsOnly a v.world.rest) (h.beside memLen) := by
  intro v hv
  unfold wp HostFn.beside
  dsimp only
  cases h memLen ⟨v.vstack, v.vsp, v.mem, ⟨v.world.pendingSleepMs, v.world.rest.rest⟩⟩ with
  | ok r u => exact hv
  | error e u => exact hv

theorem argsRegistry_readsOnly {mod name : List UInt8} {h : HostFn (Sys (WithArgs ω))}
    (hl : argsRegistry others mod name = some h)
    (memLen : Nat) : Keeps (fun v : HostView (Sys (WithArgs ω)) => ReadsOnly a v.world.rest) (h memLen) := by
  unfold argsRegistry at hl
  split at hl
  · cases hl
    exact hostArgsGet_readsOnly memLen
  · obtain ⟨g, _, rfl⟩ := Option.map_eq_some_iff.mp hl
    exact beside_readsOnly g memLen

def Registered (others : List UInt8 → List UInt8 → Option (HostFn (Sys ω))) (live : Live (WithArgs ω)) : Prop :=
  ∀ i h, live.code.hostFns i = some h → ∃ mod name, argsRegistry others mod name = some h

variable {F : FloatOps} {fuel : Nat}

theorem Registered.hostFns {live : Live (WithArgs ω)} (hreg : Registered others live) (i : Nat)
    (h : HostFn (Sys (WithArgs ω))) (hh : live.code.hostFns i = some h) :
    Keeps (fun v : HostView (Sys (WithArgs ω)) => ReadsOnly a v.world.rest) (h live.code.memLen) := by
  obtain ⟨_, _, hl⟩ := hreg i h hh
  exact argsRegistry_readsOnly hl live.code.memLen

theorem ranIn_readsOnly {live : Live (WithArgs ω)} (hreg : Registered others live)
    {r : Except (Fault RunError) TaskResult}
    {x : Live (WithArgs ω) × Sys (WithArgs ω)} (h : RanIn (fun _ w => ReadsOnly a w.rest) live r x) :
    Registered others x.1 ∧ ReadsOnly a x.2.rest := by
  obtain ⟨hcode, _, hread, _⟩ := h
  refine ⟨?_, hread⟩
  unfold Registered
  rw [hcode]
  exact hreg

theorem startTask_readsOnly (entry : List UInt8) (args : List (BitVec 32)) :
    Keeps (fun x : Live (WithArgs ω) × Sys (WithArgs ω) => Registered others x.1 ∧ ReadsOnly a x.2.rest)
      ((interpExec (argsRegistry others) F fuel).startTask entry args) := by
  rintro ⟨live, sys⟩ ⟨hreg, hsys⟩
  refine wp_mono (fun _ _ h => ranIn_readsOnly hreg h) (fun _ _ h => ranIn_readsOnly hreg h)
    (startTask_ranIn (P := fun w => ReadsOnly a w.rest) (fun _ _ h => h) (fun i h hh => ?_) entry args hsys)
  exact hreg.hostFns i h hh

theorem resumeTask_readsOnly :
    Keeps (fun x : Live (WithArgs ω) × Sys (WithArgs ω) => Registered others x.1 ∧ ReadsOnly a x.2.rest)
      (interpExec (argsRegistry others) F fuel).resumeTask := by
  rintro ⟨live, sys⟩ ⟨hreg, hsys⟩
  refine wp_mono (fun _ _ h => ranIn_readsOnly hreg h) (fun _ _ h => ranIn_readsOnly hreg h)
    (resumeTask_ranIn (P := fun w => ReadsOnly a w.rest) (fun _ _ h => h) (fun i h hh => ?_) hsys)
  exact hreg.hostFns i h hh

theorem interpExec_maintains :
    (interpExec (argsRegistry others) F fuel).Maintains (Registered others) (ReadsOnly a) where
  instantiate bytes sys hsys := by
    unfold wp
    cases hi : (interpExec (argsRegistry others) F fuel).instantiate bytes sys with
    | ok live sys' =>
      obtain ⟨rfl, inst, hinst, rfl⟩ := Kernel.instantiate_ok hi
      exact ⟨fun i h hh => instantiate_hostFns hinst hh, hsys⟩
    | error e sys' =>
      rw [Kernel.instantiate_error hi]
      exact hsys
  startTask := startTask_readsOnly
  resumeTask := resumeTask_readsOnly

/-! ## Sessions -/

variable {findFile : ω → List UInt8 → Option (List UInt8)} {s s' : Session ω}

/-- Every task in the queue was launched with the argument string `text`. -/
def Session.AllLaunchedWith (s : Session ω) (text : List UInt8) : Prop :=
  ∀ id t, s.kernel.taskQueue id = some t → s.launched id = text

/-- A command that stores an argument string is given when all tasks have the same one, and one that
spawns a task stores its string. -/
def Cmd.Alone (findFile : ω → List UInt8 → Option (List UInt8)) (s : Session ω) : Cmd ω → Prop
  | .taskRun _ _ args => validUtf8 (joinArgs args) ∧ s.AllLaunchedWith (joinArgs args)
  | .run _ name args _ =>
    (findFile s.kernel.sys.rest.rest name).isSome → (parseArgs args).isSome → validUtf8 (joinArgs args) →
      s.AllLaunchedWith (joinArgs args)
  | _ => True

structure Session.Inv (others : List UInt8 → List UInt8 → Option (HostFn (Sys ω))) (s : Session ω) : Prop where
  consistent : Kernel.Consistent s.kernel
  registered : ∀ slot live, s.kernel.pool slot = .active live → Registered others live
  own : s.AllLaunchedWith s.kernel.sys.rest.args.text
  good : ∀ a ∈ s.answers, a.2 = a.1

theorem Session.boot_inv (mem : Nat → Nat → UInt8) (world : ω) : (Session.boot mem world).Inv others :=
  ⟨Kernel.boot_consistent mem _, fun _ _ h => (by cases h), fun _ _ h => (by cases h), fun _ h => (by cases h)⟩

theorem onArgs_consistent {k : ArgsKernel ω} (h : Kernel.Consistent k) (f : WithArgs ω → WithArgs ω) :
    Kernel.Consistent (k.onArgs f) :=
  ⟨h.owns, h.id_lt, h.inst_lt, h.idle⟩

theorem setArgs_consistent {k : ArgsKernel ω} (h : Kernel.Consistent k) (raw : List UInt8) :
    Kernel.Consistent (k.setArgs raw) := by
  unfold Kernel.setArgs
  split
  · exact onArgs_consistent h _
  · exact h

theorem setArgs_taskQueue (k : ArgsKernel ω) (raw : List UInt8) : (k.setArgs raw).taskQueue = k.taskQueue := by
  unfold Kernel.setArgs
  split
  · rfl
  · rfl

theorem setArgs_maintained {k : ArgsKernel ω} (hpool : ∀ slot live, k.pool slot = .active live →
      Registered others live)
    (hcalls : k.sys.rest.calls = []) (raw : List UInt8) :
    Kernel.Maintained (Registered others) (ReadsOnly (k.setArgs raw).sys.rest.args) (k.setArgs raw) := by
  unfold Kernel.setArgs
  split
  · exact ⟨hpool, rfl, by simp [Kernel.onArgs, hcalls]⟩
  · exact ⟨hpool, rfl, by simp [hcalls]⟩

theorem setArgs_args {k : ArgsKernel ω} {raw : List UInt8} (hv : validUtf8 raw) (hlen : raw.length ≤ ARGS_CAP) :
    (k.setArgs raw).sys.rest.args.text = raw := by
  unfold Kernel.setArgs
  rw [if_pos hv]
  exact ArgsBuf.setArgs_text _ hlen

theorem Session.taskRun_inv (h : s.Inv others) {junk : Nat → UInt8} {name : List UInt8} {args : List (List UInt8)}
    (halone : (Cmd.taskRun junk name args).Alone findFile s)
    (hs : s.step (interpExec (argsRegistry others) F fuel) findFile (.taskRun junk name args) = .ok s') :
    s'.Inv others := by
  obtain ⟨hv, hsame⟩ := halone
  unfold Session.step at hs
  dsimp only at hs
  obtain ⟨⟨id, k'⟩, hrun, hs⟩ := bind_eq_ok.mp hs
  generalize hk : s.kernel.onArgs (fun w => { w with calls := [] }) = k at hrun
  have hcon : Kernel.Consistent (k.setArgs (joinArgs args)) :=
    setArgs_consistent (hk ▸ onArgs_consistent h.consistent _) _
  have hpool : ∀ slot live, k.pool slot = .active live → Registered others live := by
    rw [← hk]
    exact h.registered
  have hmain := setArgs_maintained hpool (by rw [← hk]; rfl) (joinArgs args)
  have htext : (k.setArgs (joinArgs args)).sys.rest.args.text = joinArgs args :=
    setArgs_args hv (joinArgs_length args)
  have hqueue : (k.setArgs (joinArgs args)).taskQueue = s.kernel.taskQueue := by
    rw [setArgs_taskQueue, ← hk]
    rfl
  -- the tasks there were before have the string that was just stored
  have hstay : ∀ k' : ArgsKernel ω, k'.sys.rest.args = (k.setArgs (joinArgs args)).sys.rest.args → ∀ i t,
      s.kernel.taskQueue i = some t → s.launched i = k'.sys.rest.args.text := by
    intro k' hargs i t ht
    rw [hargs, htext]
    exact hsame i t ht
  have hfail : ∀ k' : ArgsKernel ω, Kernel.Consistent k' →
      Kernel.Maintained (Registered others) (ReadsOnly (k.setArgs (joinArgs args)).sys.rest.args) k' →
      k'.taskQueue = s.kernel.taskQueue → Session.Inv others { s with kernel := k' } := by
    intro k' hcon' hmain' hq'
    refine ⟨hcon', hmain'.pool, fun i t ht => ?_, h.good⟩
    rw [hq'] at ht
    exact hstay k' hmain'.rest.1 i t ht
  unfold Kernel.taskRunWith at hrun
  dsimp only at hrun
  split at hrun
  · cases hrun
    cases hs
    exact hfail _ hcon hmain hqueue
  · split at hrun
    · cases hrun
      cases hs
      exact hfail _ hcon hmain hqueue
    · obtain ⟨⟨r, k₁⟩, hspawn, hrun⟩ := bind_eq_ok.mp hrun
      cases hrun
      have hcon₁ := (Kernel.step_spawn hspawn).consistent hcon
      have hmain₁ := hmain.taskSpawn interpExec_maintains hspawn
      obtain ⟨e, rfl, hq⟩ | ⟨new, t, rfl, hq⟩ := Kernel.taskSpawn_taskQueue hspawn
      · cases hs
        exact hfail k₁ hcon₁ hmain₁ (hq.trans hqueue)
      · cases hs
        refine ⟨hcon₁, hmain₁.pool, fun i u hu => ?_, h.good⟩
        dsimp only at hu ⊢
        rw [hq, hqueue] at hu
        by_cases hi : i = new
        · rw [hi, upd_self, hmain₁.rest.1, htext]
        · rw [upd_of_ne _ _ hi] at hu ⊢
          exact hstay k₁ hmain₁.rest.1 i u hu

theorem Session.run_inv (h : s.Inv others) {junk : Nat → UInt8} {name : List UInt8} {args : List (List UInt8)}
    {steps : Nat} (halone : (Cmd.run junk name args steps).Alone findFile s)
    (hs : s.step (interpExec (argsRegistry others) F fuel) findFile (.run junk name args steps) = .ok s') :
    s'.Inv others := by
  unfold Session.step at hs
  dsimp only at hs
  obtain ⟨k', hrun, hs⟩ := bind_eq_ok.mp hs
  cases hs
  have hidle : Session.Inv others { s with kernel := s.kernel.onArgs fun w => { w with calls := [] } } :=
    ⟨onArgs_consistent h.consistent fun w => { w with calls := [] }, h.registered, h.own, h.good⟩
  unfold Kernel.runWith at hrun
  split at hrun
  · cases hrun
    exact hidle
  · rename_i data hfile
    split at hrun
    · cases hrun
      exact hidle
    · rename_i wasmArgs hparse
      obtain ⟨⟨r, k₁⟩, hrun, heq⟩ := bind_eq_ok.mp hrun
      cases heq
      have hsame := halone (by rw [show findFile s.kernel.sys.rest.rest name = some data from hfile]; rfl)
        (by rw [hparse]; rfl)
      generalize hk : s.kernel.onArgs (fun w => { w with calls := [] }) = k at hrun
      have hcon := setArgs_consistent (hk ▸ onArgs_consistent h.consistent _) (joinArgs args)
      have hpool : ∀ slot live, k.pool slot = .active live → Registered others live := by
        rw [← hk]
        exact h.registered
      have hmain := setArgs_maintained hpool (by rw [← hk]; rfl) (joinArgs args)
      have hqueue : (k.setArgs (joinArgs args)).taskQueue = s.kernel.taskQueue := by
        rw [setArgs_taskQueue, ← hk]
        rfl
      have hmain₁ := hmain.run interpExec_maintains hrun
      refine ⟨(Kernel.step_run hrun).consistent hcon, hmain₁.pool, fun i t ht => ?_, h.good⟩
      rw [Kernel.run_taskQueue hrun, hqueue] at ht
      dsimp only
      rw [hmain₁.rest.1]
      by_cases hv : validUtf8 (joinArgs args)
      · rw [setArgs_args hv (joinArgs_length args)]
        exact hsame hv i t ht
      · unfold Kernel.setArgs
        rw [if_neg hv, ← hk]
        exact h.own i t ht

theorem Session.taskStep_inv (h : s.Inv others) {id now later : Nat}
    (hs : s.step (interpExec (argsRegistry others) F fuel) findFile (.taskStep id now later) = .ok s') :
    s'.Inv others := by
  unfold Session.step at hs
  dsimp only at hs
  obtain ⟨⟨r, k'⟩, hstep, hs⟩ := bind_eq_ok.mp hs
  cases hs
  generalize hk : s.kernel.onArgs (fun w => { w with calls := [] }) = k at hstep
  have hcon : Kernel.Consistent k := hk ▸ onArgs_consistent h.consistent _
  have hmain : Kernel.Maintained (Registered others) (ReadsOnly s.kernel.sys.rest.args) k := by
    rw [← hk]
    exact ⟨h.registered, rfl, fun text ht => by cases ht⟩
  have hqueue : k.taskQueue = s.kernel.taskQueue := by rw [← hk]; rfl
  have hmain' := hmain.taskStep interpExec_maintains hstep
  have hfewer := Kernel.taskStep_fewer hcon hstep
  refine ⟨?_, hmain'.pool, fun i t ht => ?_, fun a ha => ?_⟩
  · have hchange : Kernel.Change k (.taskStep id now later) k' :=
      Kernel.step_change hcon (bind_eq_ok.mpr ⟨_, hstep, rfl⟩)
    exact hchange.consistent hcon
  · obtain ⟨u, hu⟩ := hfewer i t ht
    rw [hqueue] at hu
    dsimp only
    rw [hmain'.rest.1]
    exact h.own i u hu
  · obtain ha | ha := List.mem_append.mp ha
    · obtain ⟨text, htext, rfl⟩ := List.mem_map.mp ha
      obtain ⟨_, hnone⟩ | ⟨_, t, ht, _⟩ :=
        Kernel.taskStep_cases (E := interpExec (argsRegistry others) F fuel) hcon id now later
      · -- a task that does not run calls nothing
        rw [hnone] at hstep
        cases hstep
        rw [← hk] at htext
        cases htext
      · rw [hqueue] at ht
        dsimp only
        rw [hmain'.rest.2 text htext]
        exact (h.own id t ht).symm
    · exact h.good a ha

theorem Session.taskKill_inv (h : s.Inv others) {id : Nat}
    (hs : s.step (interpExec (argsRegistry others) F fuel) findFile (.taskKill id) = .ok s') : s'.Inv others := by
  unfold Session.step at hs
  cases hs
  have hcon := onArgs_consistent h.consistent fun w => { w with calls := [] }
  have hmain : Kernel.Maintained (Registered others) (fun w => w.args = s.kernel.sys.rest.args)
      (s.kernel.onArgs fun w => { w with calls := [] }) := ⟨h.registered, rfl⟩
  have hmain' := hmain.taskKill id
  refine ⟨(Kernel.step_kill hcon id).consistent hcon, hmain'.pool, fun i t ht => ?_, h.good⟩
  obtain ⟨u, hu⟩ := Kernel.taskKill_fewer id i t ht
  dsimp only
  rw [hmain'.rest]
  exact h.own i u hu

theorem Session.step_inv (h : s.Inv others) {cmd : Cmd ω} (halone : cmd.Alone findFile s)
    (hs : s.step (interpExec (argsRegistry others) F fuel) findFile cmd = .ok s') : s'.Inv others := by
  cases cmd with
  | taskRun junk name args => exact Session.taskRun_inv h halone hs
  | run junk name args steps => exact Session.run_inv h halone hs
  | taskStep id now later => exact Session.taskStep_inv h hs
  | taskKill id => exact Session.taskKill_inv h hs
  | other world =>
    unfold Session.step at hs
    cases hs
    have hcon := onArgs_consistent (onArgs_consistent h.consistent fun w => { w with calls := [] }) fun w =>
      { w with rest := world }
    exact ⟨hcon, h.registered, h.own, h.good⟩

end

/-- In every session in which nothing is launched with other arguments while there are tasks, every
`args_get` in a task reads the string that task was launched with. -/
theorem args_isolated {ω : Type} (others : List UInt8 → List UInt8 → Option (HostFn (Sys ω))) (F : FloatOps)
    (fuel : Nat)
    (findFile : ω → List UInt8 → Option (List UInt8)) (mem : Nat → Nat → UInt8) (world : ω) (cmds : List (Cmd ω))
    (hcmds : AllSteps (Session.step (interpExec (argsRegistry others) F fuel) findFile)
      (fun s cmd => cmd.Alone findFile s)
      (Session.boot mem world) cmds) :
    Always (Session.step (interpExec (argsRegistry others) F fuel) findFile) (fun s => ∀ a ∈ s.answers, a.2 = a.1)
      (Session.boot mem world) cmds := by
  have hinv : Always (Session.step (interpExec (argsRegistry others) F fuel) findFile) (Session.Inv others)
      (Session.boot mem world) cmds :=
    AllSteps.always (fun s cmd s' h halone hs => Session.step_inv h halone hs) (Session.boot_inv mem world) hcmds
  exact hinv.mono fun s h => h.good

/-- A module whose `main` asks for its arguments. -/
def asker : List UInt8 :=
  [0x00, 0x61, 0x73, 0x6D, 0x01, 0x00, 0x00, 0x00, 0x01, 0x0A, 0x02, 0x60, 0x02, 0x7F, 0x7F, 0x01,
    0x7F, 0x60, 0x00, 0x00, 0x02, 0x10, 0x01, 0x03, 0x65, 0x6E, 0x76, 0x08, 0x61, 0x72, 0x67, 0x73,
    0x5F, 0x67, 0x65, 0x74, 0x00, 0x00, 0x03, 0x02, 0x01, 0x01, 0x05, 0x03, 0x01, 0x00, 0x01, 0x07,
    0x08, 0x01, 0x04, 0x6D, 0x61, 0x69, 0x6E, 0x00, 0x01, 0x0A, 0x0C, 0x01, 0x0A, 0x00, 0x41, 0x00,
    0x41, 0xE4, 0x00, 0x10, 0x00, 0x1A, 0x0B]

/-- A kernel with that module as its only file and `args_get` as its only host function. -/
def askerStep : Session Unit → Cmd Unit → Rust Empty (Session Unit) :=
  Session.step (interpExec (argsRegistry fun _ _ => none) default 9) fun _ _ => some asker

/-- `task-run a 1` -/
def launch (digit : UInt8) : Cmd Unit := .taskRun (fun _ => 0) [0x61] [[digit]]

theorem runAll_of_answers {cmds : List (Cmd Unit)} {s₀ : Session Unit} {answers : List (List UInt8 × List UInt8)}
    (h : (runAll askerStep s₀ cmds).toOption.map Session.answers = some answers) :
    ∃ s, runAll askerStep s₀ cmds = .ok s ∧ s.answers = answers := by
  cases hr : runAll askerStep s₀ cmds with
  | error e => rw [hr] at h; cases h
  | ok s =>
    rw [hr] at h
    exact ⟨s, rfl, Option.some.inj h⟩

theorem args_isolated_two : ∃ s, runAll askerStep (Session.boot (fun _ _ => 0) ()) [launch 0x31, launch 0x31,
      .taskStep 0 0 0, .taskStep 1 0 0] = .ok s ∧
    s.answers = [([0x31], [0x31]), ([0x31], [0x31])] ∧ ∀ a ∈ s.answers, a.2 = a.1 := by
  obtain ⟨s, hrun, hanswers⟩ := runAll_of_answers (show (runAll askerStep (Session.boot (fun _ _ => 0) ())
    [launch 0x31, launch 0x31, .taskStep 0 0 0, .taskStep 1 0 0]).toOption.map Session.answers =
    some [([0x31], [0x31]), ([0x31], [0x31])] by
      decide +kernel)
  have hfirst : Cmd.Alone (fun _ _ => some asker) (Session.boot (fun _ _ => 0) ()) (launch 0x31) :=
    ⟨by decide +kernel, fun _ _ ht => (by cases ht)⟩
  have hsecond : ∀ s, askerStep (Session.boot (fun _ _ => 0) ()) (launch 0x31) = .ok s →
      Cmd.Alone (fun _ _ => some asker) s (launch 0x31) := by
    intro s hs
    have hboot : (Session.boot (fun _ _ => 0) ()).Inv fun _ _ => none := Session.boot_inv _ _
    have hown := (Session.step_inv hboot hfirst hs).own
    have htext : (askerStep (Session.boot (fun _ _ => 0) ()) (launch 0x31)).toOption.map
        (fun s => s.kernel.sys.rest.args.text) =
        some (joinArgs [[0x31]]) := by decide +kernel
    rw [hs] at htext
    have htext' : s.kernel.sys.rest.args.text = joinArgs [[0x31]] := Option.some.inj htext
    rw [htext'] at hown
    exact ⟨by decide +kernel, hown⟩
  have halone : AllSteps askerStep (fun s cmd => cmd.Alone (fun _ _ => some asker) s)
      (Session.boot (fun _ _ => 0) ())
      [launch 0x31, launch 0x31, .taskStep 0 0 0, .taskStep 1 0 0] :=
    fun s hs => ⟨hfirst, fun _ _ => ⟨hsecond s hs, fun _ _ => ⟨trivial, fun _ _ => ⟨trivial, trivial⟩⟩⟩⟩
  have hgood := args_isolated (fun _ _ => none) default 9 (fun _ _ => some asker) (fun _ _ => 0) () _ halone
  exact ⟨s, hrun, hanswers, hgood.last hrun⟩

/-- A task launched with `1` is given the `2` that another was launched with before its first step. -/
theorem args_overwritten :
    ¬ Always askerStep (fun s => ∀ a ∈ s.answers, a.2 = a.1) (Session.boot (fun _ _ => 0) ())
      [launch 0x31, launch 0x32, .taskStep 0 0 0] := by
  intro h
  obtain ⟨s, hrun, hanswers⟩ := runAll_of_answers (show (runAll askerStep (Session.boot (fun _ _ => 0) ())
    [launch 0x31, launch 0x32, .taskStep 0 0 0]).toOption.map Session.answers = some [([0x31], [0x32])] by
      decide +kernel)
  have heq := h.last hrun ([0x31], [0x32]) (by rw [hanswers]; exact List.mem_cons_self ..)
  exact absurd heq (by decide)

end WasmOs
