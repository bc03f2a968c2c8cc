import Mathlib.Data.List.Induction
import WasmOs.Stack

/-!
# What the ARP cache remembers

No two valid slots hold one address, so the cache is a finite map: `lookup` answers what was learned last
for the address, or nothing when the cache was full and the address new.
-/

namespace WasmOs.Net

namespace ArpCache

def Holds (c : ArpCache) (ip : IpAddr) (i : Nat) : Prop := i < MAX_ARP_ENTRIES ∧ c.valid i = true ∧ c.ips i = ip

def Distinct (c : ArpCache) : Prop := ∀ ip i j, c.Holds ip i → c.Holds ip j → i = j

def insertAll (c : ArpCache) (hist : List (IpAddr × Mac)) : ArpCache := hist.foldl (fun c p => c.insert p.1 p.2) c

/-- The address of the last insert for `ip`. -/
def lastInsert (hist : List (IpAddr × Mac)) (ip : IpAddr) : Option Mac :=
  (hist.reverse.find? fun p => p.1 == ip).map Prod.snd

section
variable {c : ArpCache} {ip ip' : IpAddr} {mac : Mac} {i : Nat}

theorem mem_slots {p : Nat → Bool} (h : (List.range MAX_ARP_ENTRIES).find? p = some i) : i < MAX_ARP_ENTRIES :=
  List.mem_range.mp (List.mem_of_find?_eq_some h)

theorem holds_of_find (h : ((List.range MAX_ARP_ENTRIES).find? fun i => c.valid i && c.ips i == ip) = some i) :
    c.Holds ip i := by
  have hp := List.find?_some h
  rw [Bool.and_eq_true, beq_iff_eq] at hp
  exact ⟨mem_slots h, hp⟩

theorem find_eq_none_iff :
    ((List.range MAX_ARP_ENTRIES).find? fun i => c.valid i && c.ips i == ip) = none ↔ ∀ i, ¬ c.Holds ip i := by
  rw [List.find?_eq_none]
  constructor
  · intro h i hi
    apply h i (List.mem_range.mpr hi.1)
    rw [Bool.and_eq_true, beq_iff_eq]
    exact hi.2
  · intro h i hi hp
    rw [Bool.and_eq_true, beq_iff_eq] at hp
    exact h i ⟨List.mem_range.mp hi, hp⟩

/-! ## Lookup -/

theorem lookup_eq_none : c.lookup ip = none ↔ ∀ i, ¬ c.Holds ip i := by
  unfold lookup
  rw [Option.map_eq_none_iff, find_eq_none_iff]

theorem holds_of_lookup (h : c.lookup ip = some mac) : ∃ i, c.Holds ip i ∧ c.macs i = mac := by
  unfold lookup at h
  obtain ⟨i, hi, hmac⟩ := Option.map_eq_some_iff.mp h
  exact ⟨i, holds_of_find hi, hmac⟩

/-- With distinct addresses any slot that holds the address gives the answer. -/
theorem lookup_eq_of_holds (hd : c.Distinct) (h : c.Holds ip i) : c.lookup ip = some (c.macs i) := by
  cases hl : c.lookup ip with
  | none => exact absurd h (lookup_eq_none.mp hl i)
  | some mac =>
    obtain ⟨j, hj, hmac⟩ := holds_of_lookup hl
    rw [hd ip i j h hj, hmac]

theorem lookup_eq_iff (hd : c.Distinct) : c.lookup ip = some mac ↔ ∃ i, c.Holds ip i ∧ c.macs i = mac := by
  constructor
  · exact holds_of_lookup
  · rintro ⟨i, hi, rfl⟩
    exact lookup_eq_of_holds hd hi

/-! ## One insert -/

/-- A known address gets its new MAC, a new one takes a free slot, and a full cache drops it. -/
theorem insert_cases (c : ArpCache) (ip : IpAddr) (mac : Mac) :
    (∃ i, c.Holds ip i ∧ c.insert ip mac = { c with macs := upd c.macs i mac }) ∨
    ((∀ i, ¬ c.Holds ip i) ∧ ∃ i, i < MAX_ARP_ENTRIES ∧ c.valid i = false ∧
      c.insert ip mac = ⟨upd c.ips i ip, upd c.macs i mac, upd c.valid i true⟩) ∨
    ((∀ i, ¬ c.Holds ip i) ∧ (∀ i < MAX_ARP_ENTRIES, c.valid i = true) ∧ c.insert ip mac = c) := by
  unfold insert
  cases hknown : (List.range MAX_ARP_ENTRIES).find? fun i => c.valid i && c.ips i == ip with
  | some i => exact .inl ⟨i, holds_of_find hknown, rfl⟩
  | none =>
    right
    have hnew := find_eq_none_iff.mp hknown
    cases hfree : (List.range MAX_ARP_ENTRIES).find? fun i => !c.valid i with
    | some i => exact .inl ⟨hnew, i, mem_slots hfree, by simpa using List.find?_some hfree, rfl⟩
    | none =>
      refine .inr ⟨hnew, fun i hi => ?_, rfl⟩
      simpa using List.find?_eq_none.mp hfree i (List.mem_range.mpr hi)

theorem holds_added (hi : i < MAX_ARP_ENTRIES) (hfree : c.valid i = false) {j : Nat} :
    Holds ⟨upd c.ips i ip, upd c.macs i mac, upd c.valid i true⟩ ip' j ↔ c.Holds ip' j ∨ (j = i ∧ ip' = ip) := by
  unfold Holds
  by_cases hj : j = i
  · subst hj
    simp [hi, hfree, eq_comm]
  · simp [upd_of_ne _ _ hj, hj]

theorem insert_distinct (hd : c.Distinct) (ip : IpAddr) (mac : Mac) : (c.insert ip mac).Distinct := by
  obtain ⟨i, -, heq⟩ | ⟨hnew, i, hi, hfree, heq⟩ | ⟨-, -, heq⟩ := insert_cases c ip mac
  · rw [heq]
    exact hd
  · rw [heq]
    intro ip' j k hj hk
    rw [holds_added hi hfree] at hj hk
    obtain hj | ⟨rfl, rfl⟩ := hj
    · obtain hk | ⟨rfl, rfl⟩ := hk
      · exact hd ip' j k hj hk
      · exact absurd hj (hnew j)
    · obtain hk | ⟨rfl, -⟩ := hk
      · exact absurd hk (hnew k)
      · rfl
  · rw [heq]
    exact hd

/-- What was learned is answered, unless the cache was full and the address new. -/
theorem lookup_insert_self (hd : c.Distinct) (ip : IpAddr) (mac : Mac) :
    (c.insert ip mac).lookup ip = some mac ∨
      (c.lookup ip = none ∧ (∀ i < MAX_ARP_ENTRIES, c.valid i = true) ∧ (c.insert ip mac).lookup ip = none) := by
  have hd' := insert_distinct hd ip mac
  obtain ⟨i, hi, heq⟩ | ⟨hnew, i, hi, hfree, heq⟩ | ⟨hnew, hfull, heq⟩ := insert_cases c ip mac
  · left
    rw [lookup_eq_iff hd', heq]
    exact ⟨i, hi, upd_self ..⟩
  · left
    rw [lookup_eq_iff hd', heq]
    exact ⟨i, (holds_added hi hfree).mpr (.inr ⟨rfl, rfl⟩), upd_self ..⟩
  · right
    rw [heq]
    exact ⟨lookup_eq_none.mpr hnew, hfull, lookup_eq_none.mpr hnew⟩

theorem lookup_insert_of_ne (hd : c.Distinct) (h : ip' ≠ ip) (mac : Mac) :
    (c.insert ip mac).lookup ip' = c.lookup ip' := by
  apply Option.ext
  intro mac'
  rw [lookup_eq_iff (insert_distinct hd ip mac), lookup_eq_iff hd]
  obtain ⟨i, hi, heq⟩ | ⟨-, i, hi, hfree, heq⟩ | ⟨-, -, heq⟩ := insert_cases c ip mac
  · rw [heq]
    have hne : ∀ j, c.Holds ip' j → j ≠ i := by
      rintro j hj rfl
      exact h (hj.2.2.symm.trans hi.2.2)
    constructor
    · rintro ⟨j, hj, hmac⟩
      exact ⟨j, hj, (upd_of_ne _ _ (hne j hj)).symm.trans hmac⟩
    · rintro ⟨j, hj, hmac⟩
      exact ⟨j, hj, (upd_of_ne _ _ (hne j hj)).trans hmac⟩
  · rw [heq]
    simp only [holds_added hi hfree, h, and_false, or_false]
    have hne : ∀ j, c.Holds ip' j → j ≠ i := by
      rintro j hj rfl
      rw [hj.2.1] at hfree
      cases hfree
    constructor
    · rintro ⟨j, hj, hmac⟩
      exact ⟨j, hj, (upd_of_ne _ _ (hne j hj)).symm.trans hmac⟩
    · rintro ⟨j, hj, hmac⟩
      exact ⟨j, hj, (upd_of_ne _ _ (hne j hj)).trans hmac⟩
  · rw [heq]

end

/-! ## Histories -/

theorem new_distinct : ArpCache.new.Distinct := fun _ _ _ h _ => absurd h.2.1 Bool.false_ne_true

theorem insertAll_distinct {c : ArpCache} (hd : c.Distinct) (hist : List (IpAddr × Mac)) :
    (c.insertAll hist).Distinct := by
  induction hist generalizing c with
  | nil => exact hd
  | cons p hist ih => exact ih (insert_distinct hd p.1 p.2)

theorem insertAll_concat (c : ArpCache) (hist : List (IpAddr × Mac)) (p : IpAddr × Mac) :
    c.insertAll (hist ++ [p]) = (c.insertAll hist).insert p.1 p.2 := List.foldl_append ..

theorem lastInsert_concat (hist : List (IpAddr × Mac)) (p : IpAddr × Mac) (ip : IpAddr) :
    lastInsert (hist ++ [p]) ip = if p.1 = ip then some p.2 else lastInsert hist ip := by
  unfold lastInsert
  rw [List.reverse_concat, List.find?_cons]
  by_cases h : p.1 = ip
  · rw [if_pos h, beq_iff_eq.mpr h]
    rfl
  · rw [if_neg h, beq_eq_false_iff_ne.mpr h]

theorem lookup_insertAll (hist : List (IpAddr × Mac)) (ip : IpAddr) :
    (new.insertAll hist).lookup ip = none ∨ (new.insertAll hist).lookup ip = lastInsert hist ip := by
  induction hist using List.reverseRecOn with
  | nil => exact .inl rfl
  | append_singleton hist p ih =>
    have hd := insertAll_distinct new_distinct hist
    rw [insertAll_concat, lastInsert_concat]
    by_cases h : p.1 = ip
    · rw [if_pos h, ← h]
      obtain hs | ⟨-, -, hn⟩ := lookup_insert_self hd p.1 p.2
      · exact .inr hs
      · exact .inl hn
    · rw [if_neg h, lookup_insert_of_ne hd (Ne.symm h)]
      exact ih

theorem insertAll_isSome {c : ArpCache} (hd : c.Distinct) {ip : IpAddr} (h : (c.lookup ip).isSome)
    (more : List (IpAddr × Mac)) :
    ((c.insertAll more).lookup ip).isSome := by
  induction more generalizing c with
  | nil => exact h
  | cons p more ih =>
    apply ih (insert_distinct hd p.1 p.2)
    by_cases hp : ip = p.1
    · subst hp
      obtain hs | ⟨hn, -⟩ := lookup_insert_self hd p.1 p.2
      · rw [hs]
        rfl
      · rw [hn] at h
        cases h
    · rw [lookup_insert_of_ne hd hp]
      exact h

end ArpCache

/-- After any inserts: one slot an address, the MAC learned last or none, no address is forgotten, no insert
changes what another address finds, and what is inserted is answered if the address is known or a slot is free. -/
theorem arp_cache_correct (hist : List (IpAddr × Mac)) :
    (ArpCache.new.insertAll hist).Distinct ∧
    (∀ ip, (ArpCache.new.insertAll hist).lookup ip = none ∨
      (ArpCache.new.insertAll hist).lookup ip = ArpCache.lastInsert hist ip) ∧
    (∀ ip more, ((ArpCache.new.insertAll hist).lookup ip).isSome →
      ((ArpCache.new.insertAll (hist ++ more)).lookup ip).isSome) ∧
    (∀ ip ip' mac, ip' ≠ ip →
      ((ArpCache.new.insertAll hist).insert ip mac).lookup ip' = (ArpCache.new.insertAll hist).lookup ip') ∧
    ∀ ip mac, ((ArpCache.new.insertAll hist).lookup ip).isSome ∨
    (∃ i < MAX_ARP_ENTRIES, (ArpCache.new.insertAll hist).valid i = false) →
      ((ArpCache.new.insertAll hist).insert ip mac).lookup ip = some mac := by
  have hd := ArpCache.insertAll_distinct ArpCache.new_distinct hist
  refine ⟨hd, ArpCache.lookup_insertAll hist, fun ip more h => ?_, fun ip ip' mac h =>
    ArpCache.lookup_insert_of_ne hd h mac,
    fun ip mac hroom => ?_⟩
  · have happ : ArpCache.new.insertAll (hist ++ more) = (ArpCache.new.insertAll hist).insertAll more :=
      List.foldl_append ..
    rw [happ]
    exact ArpCache.insertAll_isSome hd h more
  · obtain hs | ⟨hnone, hfull, -⟩ := ArpCache.lookup_insert_self hd ip mac
    · exact hs
    · obtain hknown | ⟨i, hi, hfree⟩ := hroom
      · rw [hnone] at hknown
        cases hknown
      · exact absurd (hfree.symm.trans (hfull i hi)) Bool.false_ne_true

/-- A new MAC for a known address, and a second address. -/
example : ((ArpCache.new.insertAll [(⟨10, 0, 2, 2⟩, ⟨1, 2, 3, 4, 5, 6⟩), (⟨10, 0, 2, 3⟩, ⟨1, 2, 3, 4, 5, 7⟩),
    (⟨10, 0, 2, 2⟩, ⟨1, 2, 3, 4, 5, 8⟩)]).lookup ⟨10, 0, 2, 2⟩) = some ⟨1, 2, 3, 4, 5, 8⟩ := by decide

end WasmOs.Net
