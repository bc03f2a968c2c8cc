import Mathlib.Tactic.Common

/-!
# Round robin

A turn looks at `n` slots in a circle, beginning behind the cursor, takes the first that is ready and moves the
cursor there. A slot that is ready in every turn is taken after at most as many turns as there are slots before
it in the circle.
-/

namespace RoundRobin

/-- The slot looked at in place `i` of a turn. -/
def slotAt (n cursor i : Nat) : Nat := ((cursor + 1) % n + i) % n

/-- The place at which slot `id` is looked at. -/
def distance (n cursor id : Nat) : Nat := (id + n - (cursor + 1) % n) % n

def turn (n cursor : Nat) (ready : Nat → Bool) : Option Nat := ((List.range n).map (slotAt n cursor)).find? ready

/-- What turns take one after another. -/
def run (n : Nat) : Nat → List (Nat → Bool) → List (Option Nat)
  | _, [] => []
  | cursor, ready :: rs =>
    let o := turn n cursor ready
    o :: run n (o.getD cursor) rs

def cursorAfter (n : Nat) : Nat → List (Nat → Bool) → Nat
  | cursor, [] => cursor
  | cursor, ready :: rs => cursorAfter n ((turn n cursor ready).getD cursor) rs

section
variable {n cursor id : Nat}

theorem slotAt_lt (hn : 0 < n) (cursor i : Nat) : slotAt n cursor i < n := Nat.mod_lt _ hn

theorem distance_lt (hn : 0 < n) (cursor id : Nat) : distance n cursor id < n := Nat.mod_lt _ hn

theorem wrap_eq {a : Nat} (h : a < 2 * n) : a % n = if a < n then a else a - n := by
  split
  · rename_i hlt
    exact Nat.mod_eq_of_lt hlt
  · rw [Nat.mod_eq_sub_mod (by omega), Nat.mod_eq_of_lt (by omega)]

theorem slotAt_distance (h : id < n) : slotAt n cursor (distance n cursor id) = id := by
  unfold slotAt distance
  have hs := Nat.mod_lt (cursor + 1) (Nat.zero_lt_of_lt h)
  generalize (cursor + 1) % n = s at hs
  have hd : (id + n - s) % n = if id + n - s < n then id + n - s else id + n - s - n := wrap_eq (by omega)
  rw [hd]
  split
  · rw [wrap_eq (by omega)]
    split <;> omega
  · rw [wrap_eq (by omega)]
    split <;> omega

theorem distance_slotAt {i : Nat} (hi : i < n) : distance n cursor (slotAt n cursor i) = i := by
  unfold slotAt distance
  have hs := Nat.mod_lt (cursor + 1) (Nat.zero_lt_of_lt hi)
  generalize (cursor + 1) % n = s at hs
  have hw : (s + i) % n = if s + i < n then s + i else s + i - n := wrap_eq (by omega)
  rw [hw]
  split
  · rw [wrap_eq (by omega)]
    split <;> omega
  · rw [wrap_eq (by omega)]
    split <;> omega

/-- A slot behind the one taken comes closer by the places up to that one. -/
theorem distance_taken (cursor : Nat) {i j : Nat} (hij : i < j) (hj : j < n) :
    distance n (slotAt n cursor i) (slotAt n cursor j) = j - i - 1 := by
  unfold slotAt distance
  have hs := Nat.mod_lt (cursor + 1) (Nat.zero_lt_of_lt hj)
  generalize (cursor + 1) % n = s at hs
  by_cases hi' : s + i < n
  · rw [Nat.mod_eq_of_lt hi']
    by_cases hj' : s + j < n
    · rw [Nat.mod_eq_of_lt hj', Nat.mod_eq_of_lt (show s + i + 1 < n by omega), Nat.mod_eq_sub_mod (by omega),
        Nat.mod_eq_of_lt (by omega)]
      omega
    · rw [Nat.mod_eq_sub_mod (show s + j ≥ n by omega), Nat.mod_eq_of_lt (show s + j - n < n by omega)]
      by_cases hnext : s + i + 1 < n
      · rw [Nat.mod_eq_of_lt hnext, Nat.mod_eq_of_lt (by omega)]
        omega
      · rw [Nat.mod_eq_sub_mod (show s + i + 1 ≥ n by omega), Nat.mod_eq_of_lt (show s + i + 1 - n < n by omega),
          wrap_eq (by omega)]
        split <;> omega
  · rw [Nat.mod_eq_sub_mod (show s + i ≥ n by omega), Nat.mod_eq_of_lt (show s + i - n < n by omega),
      Nat.mod_eq_sub_mod (show s + j ≥ n by omega), Nat.mod_eq_of_lt (show s + j - n < n by omega),
      Nat.mod_eq_of_lt (show s + i - n + 1 < n by omega), wrap_eq (by omega)]
    split <;> omega

theorem turn_spec {ready : Nat → Bool} {taken : Nat} (h : turn n cursor ready = some taken) :
    taken < n ∧ ready taken = true ∧ ∀ id < n, ready id = true →
    distance n cursor taken ≤ distance n cursor id := by
  unfold turn at h
  rw [List.find?_map] at h
  obtain ⟨i, hi, rfl⟩ := Option.map_eq_some_iff.mp h
  obtain ⟨hready, k, hk, hki, hbefore⟩ := List.find?_eq_some_iff_getElem.mp hi
  rw [List.length_range] at hk
  rw [List.getElem_range] at hki
  subst hki
  have hn : 0 < n := Nat.zero_lt_of_lt hk
  refine ⟨slotAt_lt hn _ _, hready, fun id hid hid' => ?_⟩
  rw [distance_slotAt hk]
  by_contra hlt
  have hpos := hbefore (distance n cursor id) (Nat.lt_of_not_le hlt)
  rw [List.getElem_range] at hpos
  simp only [Function.comp_apply, slotAt_distance hid, hid'] at hpos
  cases hpos

theorem turn_none {ready : Nat → Bool} : turn n cursor ready = none ↔ ∀ id < n, ready id = false := by
  unfold turn
  rw [List.find?_eq_none]
  constructor
  · intro h id hid
    have hmem : id ∈ (List.range n).map (slotAt n cursor) :=
      List.mem_map.mpr ⟨_, List.mem_range.mpr (distance_lt (Nat.zero_lt_of_lt hid) cursor id), slotAt_distance hid⟩
    exact Bool.eq_false_iff.mpr (h id hmem)
  · intro h id hmem
    obtain ⟨i, hi, rfl⟩ := List.mem_map.mp hmem
    rw [h _ (slotAt_lt (Nat.zero_lt_of_lt (List.mem_range.mp hi)) _ _)]
    exact Bool.false_ne_true

theorem turn_closer {ready : Nat → Bool} (cursor : Nat) (hid : id < n) (hready : ready id = true) :
    ∃ taken, turn n cursor ready = some taken ∧ (taken = id ∨ distance n taken id < distance n cursor id) := by
  cases h : turn n cursor ready with
  | none =>
    rw [turn_none.mp h id hid] at hready
    cases hready
  | some taken =>
    obtain ⟨hlt, -, hleast⟩ := turn_spec h
    refine ⟨taken, rfl, ?_⟩
    by_cases heq : taken = id
    · exact .inl heq
    · right
      have hle := hleast id hid hready
      have hdid := distance_lt (Nat.zero_lt_of_lt hid) cursor id
      have hne : distance n cursor taken ≠ distance n cursor id := by
        intro hd
        have hslot := congrArg (slotAt n cursor) hd
        rw [slotAt_distance hlt, slotAt_distance hid] at hslot
        exact heq hslot
      have hafter := distance_taken cursor (Nat.lt_of_le_of_ne hle hne) hdid
      rw [slotAt_distance hlt, slotAt_distance hid] at hafter
      omega

/-- A slot that is ready in every turn is taken in one of the first turns, at latest in that whose number is its
distance. -/
theorem run_fair (hid : id < n) : ∀ {rs : List (Nat → Bool)} {cursor : Nat}, (∀ ready ∈ rs, ready id = true) →
    distance n cursor id < rs.length → some id ∈ run n cursor rs
  | [], _, _, hlen => absurd hlen (Nat.not_lt_zero _)
  | ready :: rs, cursor, hall, hlen => by
    obtain ⟨taken, htaken, heq | hcloser⟩ := turn_closer cursor hid (hall ready (.head _))
    · unfold run
      rw [htaken, heq]
      exact .head _
    · unfold run
      rw [htaken]
      refine .tail _ (run_fair hid (fun r hr => hall r (.tail _ hr)) ?_)
      rw [List.length_cons] at hlen
      show distance n taken id < rs.length
      omega

theorem run_append : ∀ (rs : List (Nat → Bool)) (cursor : Nat) (rs' : List (Nat → Bool)),
    run n cursor (rs ++ rs') = run n cursor rs ++ run n (cursorAfter n cursor rs) rs'
  | [], _, _ => rfl
  | ready :: rs, cursor, rs' => by
    rw [List.cons_append, run, run, cursorAfter, run_append rs, List.cons_append]

theorem cursorAfter_append : ∀ (rs : List (Nat → Bool)) (cursor : Nat) (rs' : List (Nat → Bool)),
    cursorAfter n cursor (rs ++ rs') = cursorAfter n (cursorAfter n cursor rs) rs'
  | [], _, _ => rfl
  | ready :: rs, cursor, rs' => by
    rw [List.cons_append, cursorAfter, cursorAfter, cursorAfter_append rs]

theorem run_length : ∀ (rs : List (Nat → Bool)) (cursor : Nat), (run n cursor rs).length = rs.length
  | [], _ => rfl
  | ready :: rs, cursor => by
    rw [run, List.length_cons, List.length_cons, run_length rs]

end

end RoundRobin
