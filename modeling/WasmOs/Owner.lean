import Mathlib.Data.Set.Insert
import Mathlib.Logic.Function.Basic

/-!
# Tables of owners

A table gives some of its indices a resource. `Owns f A` says that no resource is given twice and that
the resources given are those of `A`.
-/

namespace Owner

variable {α β : Type} {f : α → Option β} {A : Set β}

structure Owns (f : α → Option β) (A : Set β) : Prop where
  inj : ∀ {i j b}, f i = some b → f j = some b → i = j
  mem_iff : ∀ b, b ∈ A ↔ ∃ i, f i = some b

theorem Owns.mem (h : Owns f A) {i : α} {b : β} (hi : f i = some b) : b ∈ A := (h.mem_iff b).mpr ⟨i, hi⟩

theorem Owns.none_of_empty (hf : ∀ i, f i = none) : Owns f ∅ := by
  constructor
  · intro i j b hi
    rw [hf i] at hi
    cases hi
  · intro b
    refine iff_of_false (Set.notMem_empty b) ?_
    rintro ⟨i, hi⟩
    rw [hf i] at hi
    cases hi

section
variable [DecidableEq α]

/-- An index without a resource gets a fresh one. -/
theorem Owns.insert (h : Owns f A) {i : α} {b : β} (hi : f i = none) (hb : b ∉ A) :
    Owns (Function.update f i (some b)) (insert b A) := by
  have hcases : ∀ {j c}, Function.update f i (some b) j = some c → (j = i ∧ c = b) ∨ (f j = some c) := by
    intro j c hj
    by_cases hji : j = i
    · rw [hji, Function.update_self] at hj
      exact .inl ⟨hji, (Option.some.inj hj).symm⟩
    · rw [Function.update_of_ne hji] at hj
      exact .inr hj
  constructor
  · intro j j' c hj hj'
    rcases hcases hj with ⟨hji, hc⟩ | hj <;> rcases hcases hj' with ⟨hji', hc'⟩ | hj'
    · rw [hji, hji']
    · exact absurd (hc ▸ h.mem hj') hb
    · exact absurd (hc' ▸ h.mem hj) hb
    · exact h.inj hj hj'
  · intro c
    rw [Set.mem_insert_iff]
    constructor
    · rintro (rfl | hc)
      · exact ⟨i, Function.update_self ..⟩
      · obtain ⟨j, hj⟩ := (h.mem_iff c).mp hc
        have hji : j ≠ i := by
          rintro rfl
          rw [hi] at hj
          cases hj
        exact ⟨j, by rw [Function.update_of_ne hji]; exact hj⟩
    · rintro ⟨j, hj⟩
      rcases hcases hj with ⟨_, rfl⟩ | hj
      · exact .inl rfl
      · exact .inr (h.mem hj)

theorem Owns.erase (h : Owns f A) {i : α} {b : β} (hi : f i = some b) :
    Owns (Function.update f i none) (A \ {b}) := by
  have hcases : ∀ {j c}, Function.update f i none j = some c ↔ j ≠ i ∧ f j = some c := by
    intro j c
    by_cases hji : j = i
    · rw [hji, Function.update_self]
      simp
    · rw [Function.update_of_ne hji]
      simp [hji]
  constructor
  · intro j j' c hj hj'
    exact h.inj (hcases.mp hj).2 (hcases.mp hj').2
  · intro c
    rw [Set.mem_sdiff, Set.mem_singleton_iff]
    constructor
    · rintro ⟨hc, hcb⟩
      obtain ⟨j, hj⟩ := (h.mem_iff c).mp hc
      refine ⟨j, hcases.mpr ⟨?_, hj⟩⟩
      rintro rfl
      rw [hi] at hj
      exact hcb (Option.some.inj hj).symm
    · rintro ⟨j, hj⟩
      obtain ⟨hji, hj⟩ := hcases.mp hj
      refine ⟨h.mem hj, ?_⟩
      rintro rfl
      exact hji (h.inj hj hi)

end

end Owner
