import WasmOs.Bytes

/-!
# Linear probing

`probe` walks a ring of `N` slots from a start slot until a predicate holds. Insertion stops at an
empty slot, lookup at an empty slot or a hit. Nothing is ever deleted, so an entry stays reachable
from its hash (`Reachable`), and lookup meets it before it meets an empty slot.
-/

namespace WasmOs

def probe (N : Nat) (stop : Nat → Bool) : Nat → Nat → Option Nat
  | 0, _ => none
  | fuel + 1, i => if stop i then some i else probe N stop fuel ((i + 1) % N)

section
variable {N : Nat} {stop : Nat → Bool}

theorem ring_succ (N i k : Nat) : ((i + 1) % N + k) % N = (i + (k + 1)) % N := by
  rw [Nat.mod_add_mod]; congr 1; omega

/-- `probe` returns the first slot on the ring that stops it. -/
theorem probe_some {fuel i j : Nat} (hi : i < N) (h : probe N stop fuel i = some j) :
    ∃ d < fuel, j = (i + d) % N ∧ stop j = true ∧ ∀ e < d, stop ((i + e) % N) = false := by
  induction fuel generalizing i with
  | zero => cases h
  | succ fuel ih =>
    unfold probe at h
    split at h
    · rename_i hs
      cases h
      exact ⟨0, by omega, by rw [Nat.add_zero, Nat.mod_eq_of_lt hi], hs, fun e he => by omega⟩
    · rename_i hs
      obtain ⟨d, hd, hj, hsj, hlt⟩ := ih (Nat.mod_lt _ (by omega)) h
      refine ⟨d + 1, by omega, by rw [hj, ring_succ], hsj, fun e he => ?_⟩
      cases e with
      | zero => rw [Nat.add_zero, Nat.mod_eq_of_lt hi]; simpa using hs
      | succ e => rw [← ring_succ]; exact hlt e (by omega)

/-- A slot that stops the probe, with none before it on the ring, is returned. -/
theorem probe_eq_of_first {fuel i d : Nat} (hi : i < N) (hd : d < fuel) (hs : stop ((i + d) % N) = true)
    (hlt : ∀ e < d, stop ((i + e) % N) = false) : probe N stop fuel i = some ((i + d) % N) := by
  induction fuel generalizing i d with
  | zero => omega
  | succ fuel ih =>
    unfold probe
    cases d with
    | zero =>
      simp only [Nat.add_zero, Nat.mod_eq_of_lt hi] at hs ⊢
      rw [if_pos hs]
    | succ d =>
      have h0 := hlt 0 (by omega)
      rw [Nat.add_zero, Nat.mod_eq_of_lt hi] at h0
      have := ih (i := (i + 1) % N) (d := d) (Nat.mod_lt _ (by omega)) (by omega) (by rw [ring_succ]; exact hs)
        fun e he => by rw [ring_succ]; exact hlt (e + 1) (by omega)
      rw [h0, if_neg (by simp), this, ring_succ]

variable (stop) in
theorem probe_isSome {fuel i d : Nat} (hi : i < N) (hd : d < fuel) (hs : stop ((i + d) % N) = true) :
    ∃ j, probe N stop fuel i = some j := by
  induction d using Nat.strongRecOn with
  | ind d ih =>
    by_cases h : ∃ e < d, stop ((i + e) % N) = true
    · obtain ⟨e, he, hse⟩ := h
      exact ih e he (by omega) hse
    · refine ⟨_, probe_eq_of_first hi hd hs fun e he => ?_⟩
      cases hse : stop ((i + e) % N) with
      | false => rfl
      | true => exact absurd ⟨e, he, hse⟩ h

theorem ring_dist {N i j : Nat} (hi : i < N) (hj : j < N) : ∃ d < N, (i + d) % N = j := by
  rcases Nat.lt_or_ge j i with h | h
  · refine ⟨N + j - i, by omega, ?_⟩
    rw [show i + (N + j - i) = j + N by omega, Nat.add_mod_right, Nat.mod_eq_of_lt hj]
  · exact ⟨j - i, by omega, by rw [show i + (j - i) = j by omega, Nat.mod_eq_of_lt hj]⟩

/-- A probe over the whole ring fails exactly when no slot stops it. -/
theorem probe_eq_none_iff {i : Nat} (hi : i < N) : probe N stop N i = none ↔ ∀ j < N, stop j = false := by
  constructor
  · intro h j hj
    cases hs : stop j with
    | false => rfl
    | true =>
      obtain ⟨d, hd, hdj⟩ := ring_dist hi hj
      obtain ⟨j', hj'⟩ := probe_isSome stop hi hd (hdj ▸ hs)
      rw [h] at hj'; cases hj'
  · intro h
    cases hp : probe N stop N i with
    | none => rfl
    | some j =>
      obtain ⟨d, _, rfl, hs, _⟩ := probe_some hi hp
      rw [h _ (Nat.mod_lt _ (by omega))] at hs; cases hs

end

section
variable {σ κ : Type} (N : Nat) (empty : σ → Bool) (key : σ → κ) (hash : κ → Nat)

/-- Every entry lies on the ring after its hash with no empty slot in between. -/
def Reachable (t : Nat → σ) : Prop :=
  ∀ j < N, empty (t j) = false → ∃ d < N, (hash (key (t j)) + d) % N = j ∧
    ∀ e < d, empty (t ((hash (key (t j)) + e) % N)) = false

variable {N empty key hash}
variable (hash_lt : ∀ k, hash k < N)
include hash_lt

/-- Storing an entry in the first empty slot after its hash keeps every entry reachable. -/
theorem Reachable.insert {t : Nat → σ} (ht : Reachable N empty key hash t) {v : σ} (hv : empty v = false) {i : Nat}
    (hi : probe N (fun i => empty (t i)) N (hash (key v)) = some i) :
    Reachable N empty key hash (upd t i v) := by
  obtain ⟨d, hd, hid, hemp, hbefore⟩ := probe_some (hash_lt _) hi
  have stays : ∀ k, empty (t k) = false → empty (upd t i v k) = false := by
    intro k hk
    by_cases hki : k = i
    · rw [hki, upd_self]; exact hv
    · rw [upd_of_ne _ _ hki]; exact hk
  intro j hj hne
  by_cases hji : j = i
  · subst hji
    rw [upd_self]
    exact ⟨d, hd, hid.symm, fun e he => stays _ (hbefore e he)⟩
  · rw [upd_of_ne _ _ hji] at hne ⊢
    obtain ⟨d', hd', hj', hb⟩ := ht j hj hne
    exact ⟨d', hd', hj', fun e he => stays _ (hb e he)⟩

theorem Reachable.find {t : Nat → σ} (ht : Reachable N empty key hash t) [DecidableEq κ] {j : Nat} (hj : j < N)
    (hne : empty (t j) = false) :
    ∃ i < N, probe N (fun i => empty (t i) || decide (key (t i) = key (t j))) N (hash (key (t j))) = some i ∧
      empty (t i) = false ∧ key (t i) = key (t j) := by
  obtain ⟨d, hd, hdj, hb⟩ := ht j hj hne
  obtain ⟨i, hi⟩ := probe_isSome (fun i => empty (t i) || decide (key (t i) = key (t j)))
    (hash_lt (key (t j))) hd (by simp [hdj])
  obtain ⟨d', hd', rfl, hs, hlt⟩ := probe_some (hash_lt _) hi
  refine ⟨_, Nat.mod_lt _ (by omega), hi, ?_⟩
  have hle : d' ≤ d := by
    by_contra hlt'
    have := hlt d (by omega)
    simp [hdj] at this
  have hne' : empty (t ((hash (key (t j)) + d') % N)) = false := by
    rcases Nat.lt_or_ge d' d with h | h
    · exact hb d' h
    · rw [show d' = d by omega, hdj]; exact hne
  simp only [hne', Bool.false_or, decide_eq_true_eq] at hs
  exact ⟨hne', hs⟩

end

section
variable {σ : Type} {N i : Nat} {t : Nat → σ} {v : σ} (p : σ → Bool)

/-- Changing one slot from outside `p` to inside. -/
theorem countP_upd (hi : i < N) (hout : p (t i) = false) (hin : p v = true) :
    (List.range N).countP (fun j => p (upd t i v j)) = (List.range N).countP (fun j => p (t j)) + 1 := by
  induction N with
  | zero => omega
  | succ N ih =>
    rw [List.range_succ, List.countP_append, List.countP_append, List.countP_singleton, List.countP_singleton]
    by_cases hiN : i = N
    · subst hiN
      have hsame : (List.range i).countP (fun j => p (upd t i v j)) = (List.range i).countP (fun j => p (t j)) := by
        apply List.countP_congr
        intro j hj
        rw [upd_of_ne _ _ (Nat.ne_of_lt (List.mem_range.mp hj))]
      rw [hsame, upd_self, hin, hout]
      rfl
    · rw [ih (by omega), upd_of_ne _ _ (Ne.symm hiN)]
      omega

end

end WasmOs
