import Mathlib.Algebra.Group.Int.Defs
import Mathlib.Algebra.GroupWithZero.Nat
import Mathlib.Tactic.Common

/-!
# Computations that can panic

A kernel function returns a value, returns an error value of its own, panics (an index or a
slice bound, an arithmetic overflow) or loops for ever. `Rust ε` keeps the four apart, so that
"never panics" is a statement about the model and not a convention.
-/

namespace WasmOs

inductive Fault (ε : Type) where
  | err (e : ε)
  | panic
  | hang
  deriving DecidableEq, Repr

abbrev Rust (ε : Type) := Except (Fault ε)

section
variable {ε α β : Type}

/-- The computation ends in a value or in an error value. -/
def Rust.Total (m : Rust ε α) : Prop := m ≠ .error .panic ∧ m ≠ .error .hang

def Rust.Succeeds (m : Rust ε α) : Prop := ∃ a, m = .ok a

def usizeMax : Nat := 2 ^ 64 - 1

/-- `&bytes[i..]` -/
def sliceFrom (bytes : List α) (i : Nat) : Rust ε (List α) :=
  if i ≤ bytes.length then .ok (bytes.drop i) else .error .panic

/-- `bytes[i]` -/
def index (bytes : List α) (i : Nat) : Rust ε α :=
  match bytes[i]? with
  | some b => .ok b
  | none => .error .panic

/-- `a + b` on `usize`, with the overflow check. -/
def uadd (a b : Nat) : Rust ε Nat := if a + b ≤ usizeMax then .ok (a + b) else .error .panic

/-- `a - b` on `usize`, with the underflow check. -/
def usub (a b : Nat) : Rust ε Nat := if b ≤ a then .ok (a - b) else .error .panic

/-- `Option::ok_or(e)?` -/
def okOr (o : Option α) (e : ε) : Rust ε α :=
  match o with
  | some a => .ok a
  | none => .error (.err e)

/-- `usize::saturating_add` -/
def satAdd (a b : Nat) : Nat := min (a + b) usizeMax

/-- `for _ in 0..k { s = step(s)?; }` -/
def iter (step : α → Rust ε α) : Nat → α → Rust ε α
  | 0, s => .ok s
  | k + 1, s => do
    let s ← step s
    iter step k s

/-- An early `return v` or `break` of a walker is the error `.inr v` of its loop. -/
def orReturn : Rust (ε ⊕ α) α → Rust ε α
  | .ok a => .ok a
  | .error (.err (.inr a)) => .ok a
  | .error (.err (.inl e)) => .error (.err e)
  | .error .panic => .error .panic
  | .error .hang => .error .hang

/-- `Result::map_err` -/
def mapErr {δ : Type} (f : ε → δ) : Rust ε α → Rust δ α
  | .ok a => .ok a
  | .error (.err e) => .error (.err (f e))
  | .error .panic => .error .panic
  | .error .hang => .error .hang

@[simp] theorem bind_ok (a : α) (f : α → Rust ε β) : ((Except.ok a : Rust ε α) >>= f) = f a := rfl

@[simp] theorem bind_error (e : Fault ε) (f : α → Rust ε β) :
    ((Except.error e : Rust ε α) >>= f) = .error e := rfl

@[simp] theorem pure_eq_ok (a : α) : (pure a : Rust ε α) = .ok a := rfl

theorem bind_eq_ok {m : Rust ε α} {f : α → Rust ε β} {b : β} :
    (m >>= f) = .ok b ↔ ∃ a, m = .ok a ∧ f a = .ok b := by
  cases m with
  | ok a => simp
  | error e => simp

theorem bind_eq_error {m : Rust ε α} {f : α → Rust ε β} {e : Fault ε} :
    (m >>= f) = .error e ↔ m = .error e ∨ ∃ a, m = .ok a ∧ f a = .error e := by
  cases m with
  | ok a => simp
  | error e => simp

@[simp] theorem sliceFrom_eq_ok {bytes bs : List α} {i : Nat} :
    (sliceFrom bytes i : Rust ε (List α)) = .ok bs ↔ i ≤ bytes.length ∧ bytes.drop i = bs := by
  unfold sliceFrom
  split <;> simp [*]

@[simp] theorem uadd_eq_ok {a b c : Nat} : (uadd a b : Rust ε Nat) = .ok c ↔ a + b ≤ usizeMax ∧ a + b = c := by
  unfold uadd
  split <;> simp [*]

theorem index_of_lt {bytes : List α} {i : Nat} (h : i < bytes.length) :
    (index bytes i : Rust ε α) = .ok bytes[i] := by
  simp [index, h]

theorem uadd_of_lt {a b : Nat} (h : a + b < 2 ^ 64) : (uadd a b : Rust ε Nat) = .ok (a + b) :=
  if_pos (by unfold usizeMax; omega)

@[simp] theorem usub_eq_ok {a b c : Nat} : (usub a b : Rust ε Nat) = .ok c ↔ b ≤ a ∧ a - b = c := by
  unfold usub
  split <;> simp [*]

@[simp] theorem okOr_eq_ok {o : Option α} {e : ε} {a : α} : okOr o e = .ok a ↔ o = some a := by
  cases o <;> simp [okOr]

@[simp] theorem index_eq_ok {bytes : List α} {i : Nat} {a : α} :
    (index bytes i : Rust ε α) = .ok a ↔ bytes[i]? = some a := by
  unfold index
  split <;> simp [*]

/-! ## Computations that end -/

@[simp] theorem total_ok (a : α) : Rust.Total (.ok a : Rust ε α) := by simp [Rust.Total]

@[simp] theorem total_err (e : ε) : Rust.Total (.error (.err e) : Rust ε α) := by simp [Rust.Total]

theorem total_bind {m : Rust ε α} {f : α → Rust ε β} :
    Rust.Total (m >>= f) ↔ Rust.Total m ∧ ∀ a, m = .ok a → Rust.Total (f a) := by
  cases m with
  | ok a => simp
  | error e => simp [Rust.Total]

@[simp] theorem total_sliceFrom {bytes : List α} {i : Nat} :
    Rust.Total (sliceFrom bytes i : Rust ε (List α)) ↔ i ≤ bytes.length := by
  unfold sliceFrom
  split <;> simp [Rust.Total, *]

@[simp] theorem total_uadd {a b : Nat} : Rust.Total (uadd a b : Rust ε Nat) ↔ a + b ≤ usizeMax := by
  unfold uadd
  split <;> simp [Rust.Total, *]

@[simp] theorem total_usub {a b : Nat} : Rust.Total (usub a b : Rust ε Nat) ↔ b ≤ a := by
  unfold usub
  split <;> simp [Rust.Total, *]

@[simp] theorem total_okOr (o : Option α) (e : ε) : Rust.Total (okOr o e) := by
  cases o <;> simp [okOr]

@[simp] theorem total_index {bytes : List α} {i : Nat} :
    Rust.Total (index bytes i : Rust ε α) ↔ i < bytes.length := by
  unfold index
  by_cases h : i < bytes.length <;> simp [Rust.Total, h]

@[simp] theorem total_orReturn {m : Rust (ε ⊕ α) α} : (orReturn m).Total ↔ m.Total := by
  cases m with
  | ok a => simp [orReturn]
  | error e => rcases e with (e | a) | _ | _ <;> simp [orReturn, Rust.Total]

@[simp] theorem total_mapErr {δ : Type} {f : ε → δ} {m : Rust ε α} : (mapErr f m).Total ↔ m.Total := by
  cases m with
  | ok a => simp [mapErr]
  | error e => cases e <;> simp [mapErr, Rust.Total]

@[simp] theorem mapErr_eq_ok {δ : Type} {f : ε → δ} {m : Rust ε α} {a : α} : mapErr f m = .ok a ↔ m = .ok a := by
  cases m with
  | ok a => simp [mapErr]
  | error e => cases e <;> simp [mapErr]

theorem mapErr_eq_err {δ : Type} {f : ε → δ} {m : Rust ε α} {d : δ} (h : mapErr f m = .error (.err d)) :
    ∃ e, f e = d := by
  rcases m with (e | _ | _) | a
  · cases h; exact ⟨e, rfl⟩
  · cases h
  · cases h
  · cases h

section
variable {δ : Type} (f : ε → δ)

@[simp] theorem mapErr_ok (a : α) : mapErr f (.ok a : Rust ε α) = .ok a := rfl

@[simp] theorem mapErr_err (e : ε) : mapErr f (.error (.err e) : Rust ε α) = .error (.err (f e)) := rfl

theorem mapErr_bind (m : Rust ε α) (g : α → Rust ε β) :
    mapErr f (m >>= g) = mapErr f m >>= fun a => mapErr f (g a) := by
  cases m with
  | ok a => rfl
  | error e => cases e <;> rfl

theorem mapErr_okOr (o : Option α) (e : ε) : mapErr f (okOr o e) = okOr o (f e) := by cases o <;> rfl

theorem mapErr_uadd (a b : Nat) : mapErr f (uadd a b) = uadd a b := by unfold uadd; split <;> rfl

theorem mapErr_sliceFrom (bytes : List α) (i : Nat) : mapErr f (sliceFrom bytes i) = sliceFrom bytes i := by
  unfold sliceFrom; split <;> rfl

theorem mapErr_ite {P : Prop} [Decidable P] (m m' : Rust ε α) :
    mapErr f (if P then m else m') = if P then mapErr f m else mapErr f m' := by split <;> rfl

end

/-! ## Loops -/

theorem total_iter {step : α → Rust ε α} : ∀ {k : Nat} {s : α},
    (iter step k s).Total ↔ ∀ j < k, ∀ s', iter step j s = .ok s' → (step s').Total
  | 0, s => by simp [iter]
  | k + 1, s => by
    rw [iter, total_bind]
    refine ⟨fun ⟨h, hrest⟩ j hj s' hs' => ?_, fun h => ⟨h 0 (by omega) s rfl, fun a ha => ?_⟩⟩
    · cases j with
      | zero => cases hs'; exact h
      | succ j =>
        obtain ⟨a, ha, hs'⟩ := bind_eq_ok.mp hs'
        exact total_iter.mp (hrest a ha) j (by omega) s' hs'
    · refine total_iter.mpr fun j hj s' hs' => h (j + 1) (by omega) s' ?_
      rw [iter, ha]; exact hs'

/-- What every round carries over to the next holds after the loop; `j` counts the rounds. -/
theorem iter_invariant {step : α → Rust ε α} {I : Nat → α → Prop}
    (hstep : ∀ j s s', I j s → step s = .ok s' → I (j + 1) s') :
    ∀ {k j : Nat} {s s' : α}, I j s → iter step k s = .ok s' → I (j + k) s'
  | 0, j, s, s', hs, h => by cases h; exact hs
  | k + 1, j, s, s', hs, h => by
    obtain ⟨a, ha, h⟩ := bind_eq_ok.mp h
    rw [Nat.add_comm k 1, ← Nat.add_assoc]
    exact iter_invariant hstep (j := j + 1) (hstep j s a hs ha) h

theorem orReturn_iter_invariant {step : α → Rust (ε ⊕ α) α} {P : α → Prop}
    (hok : ∀ s s', P s → step s = .ok s' → P s') (hret : ∀ s a, P s → step s = .error (.err (.inr a)) → P a) :
    ∀ {k : Nat} {s a : α}, P s → orReturn (iter step k s) = .ok a → P a
  | 0, s, a, hs, h => by cases h; exact hs
  | k + 1, s, a, hs, h => by
    rw [iter] at h
    cases hstep : step s with
    | ok s' =>
      rw [hstep] at h
      exact orReturn_iter_invariant hok hret (hok s s' hs hstep) h
    | error e =>
      rw [hstep] at h
      rcases e with (e | b) | _ | _
      · cases h
      · cases h
        exact hret s a hs hstep
      · cases h
      · cases h

theorem iter_mapErr {δ : Type} {f : ε → δ} {stepA : α → Rust ε α} {stepB : α → Rust δ α}
    (h : ∀ s, stepB s = mapErr f (stepA s)) : ∀ {k : Nat} {s : α}, iter stepB k s = mapErr f (iter stepA k s)
  | 0, s => rfl
  | k + 1, s => by
    rw [iter, iter, mapErr_bind, h]
    congr 1; funext a
    exact iter_mapErr h

/-- Rounds of one loop that are matched by rounds of another. -/
theorem iter_simulation {δ : Type} {stepA : α → Rust ε α} {stepB : β → Rust δ β} {R : α → β → Prop}
    (hstep : ∀ s t s', R s t → stepA s = .ok s' → ∃ t', stepB t = .ok t' ∧ R s' t') :
    ∀ {k : Nat} {s s' : α} {t : β}, R s t → iter stepA k s = .ok s' → ∃ t', iter stepB k t = .ok t' ∧ R s' t'
  | 0, s, s', t, hR, h => by cases h; exact ⟨t, rfl, hR⟩
  | k + 1, s, s', t, hR, h => by
    obtain ⟨a, ha, h⟩ := bind_eq_ok.mp h
    obtain ⟨b, hb, hR'⟩ := hstep s t a hR ha
    obtain ⟨t', ht', hR''⟩ := iter_simulation hstep hR' h
    exact ⟨t', by rw [iter, hb]; exact ht', hR''⟩

end

end WasmOs
