import WasmOs.Wp

/-!
# Two runs side by side

`Sim P m m' Q X` relates a computation to another one: from states in `P` the two end the same way,
with results and states in `Q` or with one error and states in `X` of it.
-/

namespace Hoare

section
variable {ε σ τ α α' β β' : Type} {m : EStateM ε σ α} {m' : EStateM ε τ α'} {P : σ → τ → Prop}
variable {Q : α → α' → σ → τ → Prop} {R : β → β' → σ → τ → Prop} {X : ε → σ → τ → Prop}

def Alike (Q : α → α' → σ → τ → Prop) (X : ε → σ → τ → Prop) : EStateM.Result ε σ α → EStateM.Result ε τ α' → Prop
  | .ok a s, .ok b t => Q a b s t
  | .error e s, .error e' t => e = e' ∧ X e s t
  | _, _ => False

def Sim (P : σ → τ → Prop) (m : EStateM ε σ α) (m' : EStateM ε τ α') (Q : α → α' → σ → τ → Prop)
    (X : ε → σ → τ → Prop) : Prop :=
  ∀ s t, P s t → Alike Q X (m s) (m' t)

theorem Alike.mono {Q' : α → α' → σ → τ → Prop} {X' : ε → σ → τ → Prop} (hQ : ∀ a b s t, Q a b s t → Q' a b s t)
    (hX : ∀ e s t, X e s t → X' e s t) {r : EStateM.Result ε σ α} {r' : EStateM.Result ε τ α'}
    (h : Alike Q X r r') :
    Alike Q' X' r r' := by
  cases r with
  | ok a s =>
    cases r' with
    | ok b t => exact hQ _ _ _ _ h
    | error e t => exact h
  | error e s =>
    cases r' with
    | ok b t => exact h
    | error e' t => exact ⟨h.1, hX _ _ _ h.2⟩

theorem sim_pure {a : α} {b : α'} (h : ∀ s t, P s t → Q a b s t) :
    Sim P (pure a : EStateM ε σ α) (pure b : EStateM ε τ α') Q X := h

theorem sim_throw {e : ε} (h : ∀ s t, P s t → X e s t) :
    Sim P (throw e : EStateM ε σ α) (throw e : EStateM ε τ α') Q X :=
  fun s t hst => ⟨rfl, h s t hst⟩

theorem sim_bind {f : α → EStateM ε σ β} {f' : α' → EStateM ε τ β'} (hm : Sim P m m' Q X)
    (hf : ∀ a b, Sim (Q a b) (f a) (f' b) R X) : Sim P (m >>= f) (m' >>= f') R X := by
  intro s t hst
  have h := hm s t hst
  cases hr : m s with
  | ok a s' =>
    cases hr' : m' t with
    | ok b t' =>
      rw [hr, hr'] at h
      rw [bind_ok hr, bind_ok hr']
      exact hf a b s' t' h
    | error e t' => rw [hr, hr'] at h; exact h.elim
  | error e s' =>
    cases hr' : m' t with
    | ok b t' => rw [hr, hr'] at h; exact h.elim
    | error e' t' =>
      rw [hr, hr'] at h
      rw [bind_error hr, bind_error hr']
      exact h

theorem sim_ite {p p' : Prop} [Decidable p] [Decidable p'] {n : EStateM ε σ α} {n' : EStateM ε τ α'} (hp : p ↔ p')
    (hm : p → Sim P m m' Q X) (hn : ¬ p → Sim P n n' Q X) :
    Sim P (if p then m else n) (if p' then m' else n') Q X := by
  by_cases h : p
  · rw [if_pos h, if_pos (hp.mp h)]
    exact hm h
  · rw [if_neg h, if_neg fun h' => h (hp.mpr h')]
    exact hn h

theorem sim_get {f : σ → EStateM ε σ β} {f' : τ → EStateM ε τ β'} (hf : ∀ s t, P s t → Sim P (f s) (f' t) R X) :
    Sim P (get >>= f) (get >>= f') R X :=
  fun s t hst => hf s t hst s t hst

theorem sim_set {Q : Unit → Unit → σ → τ → Prop} {s : σ} {t : τ} (h : Q () () s t) :
    Sim P (set s : EStateM ε σ Unit) (set t : EStateM ε τ Unit) Q X := fun _ _ _ => h

theorem sim_modify {Q : Unit → Unit → σ → τ → Prop} {f : σ → σ} {g : τ → τ}
    (h : ∀ s t, P s t → Q () () (f s) (g t)) :
    Sim P (modify f : EStateM ε σ Unit) (modify g : EStateM ε τ Unit) Q X := h

end

end Hoare
