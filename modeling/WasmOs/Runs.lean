import Mathlib.Tactic.Common

/-!
# Runs of a machine driven by a list of operations

`step` may fail, and a failing operation ends the run. `Always P` says that `P` holds in every state a
run passes through, `AllSteps C` that every step it takes is made under `C`.
-/

namespace Runs

section
variable {ε σ α : Type} (step : σ → α → Except ε σ)

def Always (P : σ → Prop) : σ → List α → Prop
  | s, [] => P s
  | s, a :: as => P s ∧ ∀ s', step s a = .ok s' → Always P s' as

def AllSteps (C : σ → α → Prop) : σ → List α → Prop
  | _, [] => True
  | s, a :: as => ∀ s', step s a = .ok s' → C s a ∧ AllSteps C s' as

/-- `C` holds before every step of a run, also of one that fails. -/
def Guarded (C : σ → α → Prop) : σ → List α → Prop
  | _, [] => True
  | s, a :: as => C s a ∧ ∀ s', step s a = .ok s' → Guarded C s' as

def runAll : σ → List α → Except ε σ
  | s, [] => .ok s
  | s, a :: as => do
    let s ← step s a
    runAll s as

end

section
variable {ε σ α : Type} {step : σ → α → Except ε σ} {P : σ → Prop} {C D : σ → α → Prop}

theorem Always.head {s : σ} {as : List α} (h : Always step P s as) : P s := by
  cases as with
  | nil => exact h
  | cons a as => exact h.1

theorem Always.last : ∀ {s s' : σ} {as : List α}, Always step P s as → runAll step s as = .ok s' → P s'
  | _, _, [], h, hr => by cases hr; exact h
  | s, s', a :: as, h, hr => by
    unfold runAll at hr
    cases ha : step s a with
    | error e => rw [ha] at hr; cases hr
    | ok t => rw [ha] at hr; exact (h.2 t ha).last hr

theorem Always.allSteps (hPC : ∀ s a, P s → C s a) :
    ∀ {s : σ} {as : List α}, Always step P s as → AllSteps step C s as
  | _, [], _ => trivial
  | _, _ :: _, h => fun s' hs => ⟨hPC _ _ h.1, (h.2 s' hs).allSteps hPC⟩

theorem Always.guarded (hPC : ∀ s a, P s → C s a) :
    ∀ {s : σ} {as : List α}, Always step P s as → Guarded step C s as
  | _, [], _ => trivial
  | _, _ :: _, h => ⟨hPC _ _ h.1, fun s' hs => (h.2 s' hs).guarded hPC⟩

theorem Always.mono {Q : σ → Prop} (hPQ : ∀ s, P s → Q s) :
    ∀ {s : σ} {as : List α}, Always step P s as → Always step Q s as
  | _, [], h => hPQ _ h
  | _, _ :: _, h => ⟨hPQ _ h.1, fun s' hs => (h.2 s' hs).mono hPQ⟩

/-- An invariant holds wherever anything else does. -/
theorem Always.and {I : σ → Prop} (hI : ∀ s a s', I s → step s a = .ok s' → I s') :
    ∀ {s : σ} {as : List α}, I s → Always step P s as → Always step (fun s => I s ∧ P s) s as
  | _, [], hs, h => ⟨hs, h⟩
  | _, _ :: _, hs, h => ⟨⟨hs, h.1⟩, fun s' hs' => Always.and hI (hI _ _ s' hs hs') (h.2 s' hs')⟩

theorem AllSteps.and : ∀ {s : σ} {as : List α}, AllSteps step C s as → AllSteps step D s as →
    AllSteps step (fun s a => C s a ∧ D s a) s as
  | _, [], _, _ => trivial
  | _, _ :: _, hC, hD => fun s' hs => ⟨⟨(hC s' hs).1, (hD s' hs).1⟩, (hC s' hs).2.and (hD s' hs).2⟩

/-- A property that every step under `C` keeps holds along a run whose steps are all made under `C`. -/
theorem AllSteps.always (hstep : ∀ s a s', P s → C s a → step s a = .ok s' → P s') :
    ∀ {s : σ} {as : List α}, P s → AllSteps step C s as → Always step P s as
  | _, [], hP, _ => hP
  | _, _ :: _, hP, h => ⟨hP, fun s' hs => AllSteps.always hstep (hstep _ _ s' hP (h s' hs).1 hs) (h s' hs).2⟩

theorem runAll_cons {s s' : σ} {a : α} (as : List α) (h : step s a = .ok s') :
    runAll step s (a :: as) = runAll step s' as := by
  rw [runAll, h]
  rfl

theorem runAll_append : ∀ {s s' : σ} {as : List α} (bs : List α), runAll step s as = .ok s' →
    runAll step s (as ++ bs) = runAll step s' bs
  | _, _, [], _, h => by cases h; rfl
  | s, s', a :: as, bs, h => by
    unfold runAll at h
    cases ha : step s a with
    | error e => rw [ha] at h; cases h
    | ok t =>
      rw [ha] at h
      rw [List.cons_append, runAll_cons _ ha]
      exact runAll_append bs h

theorem allSteps_of_forall : ∀ {s : σ} {as : List α}, (∀ s, ∀ a ∈ as, C s a) → AllSteps step C s as
  | _, [], _ => trivial
  | s, a :: _, h => fun _ _ => ⟨h s a (.head _), allSteps_of_forall fun s a ha => h s a (.tail _ ha)⟩

/-- A property of states that a step keeps exactly when it is made under `C` holds along a run exactly
when all its steps are made under `C`. -/
theorem always_iff_allSteps (h : ∀ s a s', P s → D s a → step s a = .ok s' → (P s' ↔ C s a)) :
    ∀ {s : σ} {as : List α}, P s → AllSteps step D s as → (Always step P s as ↔ AllSteps step C s as)
  | _, [], hP, _ => by simp [Always, AllSteps, hP]
  | s, a :: as, hP, hD => by
    constructor
    · intro hal s' hs
      have hP' : P s' := (hal.2 s' hs).head
      exact ⟨(h s a s' hP (hD s' hs).1 hs).1 hP', (always_iff_allSteps h hP' (hD s' hs).2).1 (hal.2 s' hs)⟩
    · intro hall
      refine ⟨hP, fun s' hs => ?_⟩
      have hP' : P s' := (h s a s' hP (hD s' hs).1 hs).2 (hall s' hs).1
      exact (always_iff_allSteps h hP' (hD s' hs).2).2 (hall s' hs).2

/-- Steps that cannot fail under `C` and keep `P` make up a run that cannot fail and keeps `P`. -/
theorem runAll_of_guarded (h : ∀ s a, P s → C s a → ∃ s', step s a = .ok s' ∧ P s') :
    ∀ {s : σ} {as : List α}, P s → Guarded step C s as → ∃ s', runAll step s as = .ok s' ∧ P s'
  | s, [], hP, _ => ⟨s, rfl, hP⟩
  | s, a :: as, hP, hC => by
    obtain ⟨t, ht, hPt⟩ := h s a hP hC.1
    obtain ⟨s', hs', hPs'⟩ := runAll_of_guarded h hPt (hC.2 t ht)
    refine ⟨s', ?_, hPs'⟩
    unfold runAll
    rw [ht]
    exact hs'

theorem guarded_of_runAll (hC : ∀ s a s', step s a = .ok s' → C s a) :
    ∀ {s s' : σ} {as : List α}, runAll step s as = .ok s' → Guarded step C s as
  | _, _, [], _ => trivial
  | s, s', a :: as, hrun => by
    unfold runAll at hrun
    cases ha : step s a with
    | error e => rw [ha] at hrun; cases hrun
    | ok t =>
      rw [ha] at hrun
      refine ⟨hC s a t ha, fun u hu => ?_⟩
      cases ha.symm.trans hu
      exact guarded_of_runAll hC hrun

/-- Where a step succeeds and keeps `P` exactly under `C`, a run does so exactly when all its steps are made
under `C`. -/
theorem survives_iff_guarded (hok : ∀ s a, P s → C s a → ∃ s', step s a = .ok s' ∧ P s')
    (hbad : ∀ s a s', P s → step s a = .ok s' → P s' → C s a) :
    ∀ {s : σ} {as : List α}, P s → ((∃ s', runAll step s as = .ok s') ∧ Always step P s as ↔ Guarded step C s as)
  | s, [], hP => by simp [runAll, Always, Guarded, hP]
  | s, a :: as, hP => by
    constructor
    · rintro ⟨⟨s', hrun⟩, -, hal⟩
      unfold runAll at hrun
      cases ha : step s a with
      | error e => rw [ha] at hrun; cases hrun
      | ok t =>
        rw [ha] at hrun
        have hPt : P t := (hal t ha).head
        refine ⟨hbad s a t hP ha hPt, fun u hu => ?_⟩
        cases ha.symm.trans hu
        exact (survives_iff_guarded hok hbad hPt).1 ⟨⟨s', hrun⟩, hal t ha⟩
    · rintro ⟨hC, hrest⟩
      obtain ⟨t, ht, hPt⟩ := hok s a hP hC
      obtain ⟨⟨s', hrun⟩, hal⟩ := (survives_iff_guarded hok hbad hPt).2 (hrest t ht)
      refine ⟨⟨s', ?_⟩, hP, fun u hu => ?_⟩
      · rw [runAll_cons as ht]
        exact hrun
      · cases ht.symm.trans hu
        exact hal

/-- Two conditions on steps that agree wherever an invariant holds agree on whole runs. -/
theorem allSteps_congr (hstep : ∀ s a s', P s → step s a = .ok s' → P s')
    (h : ∀ s a s', P s → step s a = .ok s' → (C s a ↔ D s a)) :
    ∀ {s : σ} {as : List α}, P s → (AllSteps step C s as ↔ AllSteps step D s as)
  | _, [], _ => Iff.rfl
  | s, a :: as, hP => by
    refine forall_congr' fun s' => forall_congr' fun hs => ?_
    exact and_congr (h s a s' hP hs) (allSteps_congr hstep h (hstep s a s' hP hs))

end

end Runs
