import Mathlib.Tactic.Common

/-!
# Weakest preconditions

A state machine that can fail keeps its state when it does. `wp m Q E s` says of such a computation,
run from `s`, that a value comes with a state in `Q` and a failure with a state in `E`.
-/

namespace Hoare

section
variable {ε σ α β : Type} {m : EStateM ε σ α} {Q Q' : α → σ → Prop} {E E' : ε → σ → Prop} {s : σ}

def wp (m : EStateM ε σ α) (Q : α → σ → Prop) (E : ε → σ → Prop) (s : σ) : Prop :=
  match m s with
  | .ok a s' => Q a s'
  | .error e s' => E e s'

theorem wp_mono (hQ : ∀ a s, Q a s → Q' a s) (hE : ∀ e s, E e s → E' e s) (h : wp m Q E s) : wp m Q' E' s := by
  unfold wp at *
  split
  · rename_i a s' hm; rw [hm] at h; exact hQ a s' h
  · rename_i e s' hm; rw [hm] at h; exact hE e s' h

theorem wp_ok {a : α} {s' : σ} (h : wp m Q E s) (hm : m s = .ok a s') : Q a s' := by
  unfold wp at h; rw [hm] at h; exact h

theorem wp_error {e : ε} {s' : σ} (h : wp m Q E s) (hm : m s = .error e s') : E e s' := by
  unfold wp at h; rw [hm] at h; exact h

theorem wp_of_forall (hQ : ∀ a s', Q a s') (hE : ∀ e s', E e s') : wp m Q E s := by
  unfold wp
  cases m s with
  | ok a s' => exact hQ a s'
  | error e s' => exact hE e s'

/-- Only the run from `s` matters. -/
theorem wp_congr {m' : EStateM ε σ α} (h : m s = m' s) : wp m Q E s ↔ wp m' Q E s := by
  unfold wp
  rw [h]

theorem exists_ok_of_wp (h : wp m Q (fun _ _ => False) s) : ∃ a s', m s = .ok a s' ∧ Q a s' := by
  unfold wp at h
  cases hm : m s with
  | ok a s' => rw [hm] at h; exact ⟨a, s', rfl, h⟩
  | error e s' => rw [hm] at h; exact h.elim

@[simp] theorem wp_pure (a : α) : wp (pure a : EStateM ε σ α) Q E s ↔ Q a s := Iff.rfl

@[simp] theorem wp_throw (e : ε) : wp (throw e : EStateM ε σ α) Q E s ↔ E e s := Iff.rfl

@[simp] theorem wp_get {Q : σ → σ → Prop} : wp (get : EStateM ε σ σ) Q E s ↔ Q s s := Iff.rfl

@[simp] theorem wp_set {Q : Unit → σ → Prop} (s' : σ) : wp (set s' : EStateM ε σ Unit) Q E s ↔ Q () s' := Iff.rfl

@[simp] theorem wp_modify {Q : Unit → σ → Prop} (f : σ → σ) :
    wp (modify f : EStateM ε σ Unit) Q E s ↔ Q () (f s) := Iff.rfl

@[simp] theorem wp_bind {Q : β → σ → Prop} (f : α → EStateM ε σ β) :
    wp (m >>= f) Q E s ↔ wp m (fun a s' => wp (f a) Q E s') E s := by
  unfold wp
  show (match EStateM.bind m f s with | .ok a s' => Q a s' | .error e s' => E e s') ↔ _
  unfold EStateM.bind
  cases m s <;> rfl

theorem wp_ite {p : Prop} [Decidable p] {m' : EStateM ε σ α} :
    wp (if p then m else m') Q E s ↔ (p → wp m Q E s) ∧ (¬ p → wp m' Q E s) := by
  split <;> simp [*]

/-- The state a computation ends in, with a value or with a failure. -/
def after : EStateM.Result ε σ α → σ
  | .ok _ s => s
  | .error _ s => s

theorem wp_after {P : σ → Prop} (h : wp m (fun _ => P) (fun _ => P) s) : P (after (m s)) := by
  unfold wp at h
  cases hm : m s with
  | ok a s' => rw [hm] at h; exact h
  | error e s' => rw [hm] at h; exact h

theorem eq_of_wp {r : EStateM.Result ε σ α}
    (h : wp m (fun a s' => r = .ok a s') (fun e s' => r = .error e s') s) : m s = r := by
  unfold wp at h
  cases hm : m s with
  | ok a s' => rw [hm] at h; exact h.symm
  | error e s' => rw [hm] at h; exact h.symm

/-! ## Running a sequence -/

theorem bind_ok {f : α → EStateM ε σ β} {a : α} {s' : σ} (h : m s = .ok a s') : (m >>= f) s = f a s' := by
  show EStateM.bind m f s = _
  unfold EStateM.bind
  rw [h]

theorem get_run : (get : EStateM ε σ σ) s = .ok s s := rfl

theorem get_bind {f : σ → EStateM ε σ β} : (get >>= f) s = f s s := rfl

theorem bind_error {f : α → EStateM ε σ β} {e : ε} {s' : σ} (h : m s = .error e s') :
    (m >>= f) s = .error e s' := by
  show EStateM.bind m f s = _
  unfold EStateM.bind
  rw [h]

/-! ## Invariants -/

/-- The computation keeps `I`, whether it fails or not. -/
def Keeps (I : σ → Prop) (m : EStateM ε σ α) : Prop := ∀ s, I s → wp m (fun _ => I) (fun _ => I) s

variable {I : σ → Prop}

theorem keeps_pure (a : α) : Keeps I (pure a : EStateM ε σ α) := fun _ h => h

theorem keeps_throw (e : ε) : Keeps I (throw e : EStateM ε σ α) := fun _ h => h

theorem keeps_bind {f : α → EStateM ε σ β} (hm : Keeps I m) (hf : ∀ a, Keeps I (f a)) : Keeps I (m >>= f) :=
  fun s h => (wp_bind _).mpr (wp_mono (fun a s' h' => hf a s' h') (fun _ _ h' => h') (hm s h))

theorem keeps_ite {p : Prop} [Decidable p] {m' : EStateM ε σ α} (hm : p → Keeps I m) (hm' : ¬ p → Keeps I m') :
    Keeps I (if p then m else m') :=
  fun s h => wp_ite.mpr ⟨fun hp => hm hp s h, fun hp => hm' hp s h⟩

theorem keeps_get {f : σ → EStateM ε σ β} (hf : ∀ s, I s → wp (f s) (fun _ => I) (fun _ => I) s) :
    Keeps I (get >>= f) :=
  fun s h => (wp_bind _).mpr (wp_get.mpr (hf s h))

theorem keeps_modify {f : σ → σ} (hf : ∀ s, I s → I (f s)) : Keeps I (modify f : EStateM ε σ Unit) :=
  fun s h => hf s h

/-- The computation keeps `I` if it does not fail, and fails only with errors in `B`. -/
def Within (I : σ → Prop) (B : ε → Prop) (m : EStateM ε σ α) : Prop :=
  ∀ s, I s → wp m (fun _ => I) (fun e _ => B e) s

variable {B : ε → Prop}

theorem within_pure (a : α) : Within I B (pure a : EStateM ε σ α) := fun _ h => h

theorem within_throw {e : ε} (he : B e) : Within I B (throw e : EStateM ε σ α) := fun _ _ => he

theorem within_bind {f : α → EStateM ε σ β} (hm : Within I B m) (hf : ∀ a, Within I B (f a)) :
    Within I B (m >>= f) :=
  fun s h => (wp_bind _).mpr (wp_mono (fun a s' h' => hf a s' h') (fun _ _ h' => h') (hm s h))

theorem within_ite {p : Prop} [Decidable p] {m' : EStateM ε σ α} (hm : Within I B m) (hm' : Within I B m') :
    Within I B (if p then m else m') :=
  fun s h => wp_ite.mpr ⟨fun _ => hm s h, fun _ => hm' s h⟩

/-- A computation that starts by reading the state may rely on what it read. -/
theorem within_get {f : σ → EStateM ε σ β} (hf : ∀ s, I s → Within I B (f s)) : Within I B (get >>= f) :=
  fun s h => (wp_bind _).mpr (wp_get.mpr (hf s h s h))

theorem within_set {s : σ} (hs : I s) : Within I B (set s : EStateM ε σ Unit) := fun _ _ => hs

theorem within_modify {f : σ → σ} (hf : ∀ s, I s → I (f s)) : Within I B (modify f : EStateM ε σ Unit) :=
  fun s h => hf s h

/-! ## Triples -/

/-- From a state in `P` the computation ends in `Q` if it does not fail. -/
def Triple (P : σ → Prop) (m : EStateM ε σ α) (Q : α → σ → Prop) : Prop := ∀ s, P s → wp m Q (fun _ _ => True) s

variable {P : σ → Prop} {R : β → σ → Prop}

theorem triple_pure {a : α} (h : ∀ s, P s → Q a s) : Triple P (pure a : EStateM ε σ α) Q := h

theorem triple_throw {e : ε} : Triple P (throw e : EStateM ε σ α) Q := fun _ _ => trivial

theorem triple_bind {f : α → EStateM ε σ β} (hm : Triple P m Q) (hf : ∀ a, Triple (Q a) (f a) R) :
    Triple P (m >>= f) R :=
  fun s h => (wp_bind _).mpr (wp_mono (fun a s' h' => hf a s' h') (fun _ _ _ => trivial) (hm s h))

theorem triple_ite {p : Prop} [Decidable p] {m' : EStateM ε σ α} (hm : Triple P m Q) (hm' : Triple P m' Q) :
    Triple P (if p then m else m') Q :=
  fun s h => wp_ite.mpr ⟨fun _ => hm s h, fun _ => hm' s h⟩

theorem triple_get {f : σ → EStateM ε σ β} (hf : ∀ s, P s → Triple P (f s) R) : Triple P (get >>= f) R :=
  fun s h => (wp_bind _).mpr (wp_get.mpr (hf s h s h))

theorem triple_set {Q : Unit → σ → Prop} {s : σ} (hs : Q () s) : Triple P (set s : EStateM ε σ Unit) Q :=
  fun _ _ => hs

theorem triple_modify {Q : Unit → σ → Prop} {f : σ → σ} (hf : ∀ s, P s → Q () (f s)) :
    Triple P (modify f : EStateM ε σ Unit) Q := hf

theorem triple_weaken {P' : σ → Prop} (h : Triple P m Q) (hP : ∀ s, P' s → P s) (hQ : ∀ a s, Q a s → Q' a s) :
    Triple P' m Q' :=
  fun s hs => wp_mono hQ (fun _ _ h' => h') (h s (hP s hs))

end

end Hoare
