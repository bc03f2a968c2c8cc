import Mathlib.Data.List.Count
import WasmOs.Scan

/-!
# The jump table against the scan

Every slot of the table holds the scan result of its own key (`Faithful`), no slot changes once it
is filled (`Ext`), and every entry is reachable from its hash. So a lookup that ends agrees with
`scanBlockEnd`, and in a table with a free slot every block the pre-scan met is found.
-/

namespace WasmOs

/-! ## Bounds of a scan -/

theorem scan_loop_bounds (body : List UInt8) : ∀ (fuel i depth elsePc e l : Nat),
    (elsePc = NO_ELSE ∨ elsePc < body.length) → scanBlockEnd.loop body fuel i depth elsePc = some (e, l) →
    e < body.length ∧ (l = NO_ELSE ∨ l < body.length)
  | 0, _, _, _, _, _, _, h => by cases h
  | fuel + 1, i, depth, elsePc, e, l, hel, h => by
    unfold scanBlockEnd.loop at h
    cases hop : body[i]? with
    | none => rw [hop] at h; cases h
    | some op =>
      have hi : i < body.length := (List.getElem?_eq_some_iff.mp hop).1
      simp only [hop] at h
      split at h
      · exact scan_loop_bounds body fuel _ _ _ e l hel h
      · refine scan_loop_bounds body fuel _ _ _ e l ?_ h
        split
        · exact .inr hi
        · exact hel
      · split at h
        · cases h; exact ⟨hi, hel⟩
        · exact scan_loop_bounds body fuel _ _ _ e l hel h
      · obtain ⟨i', _, h⟩ := Option.bind_eq_some_iff.mp h
        exact scan_loop_bounds body fuel _ _ _ e l hel h

theorem scanBlockEnd_bounds {body : List UInt8} {s e l : Nat} (h : scanBlockEnd body s = some (e, l)) :
    e < body.length ∧ (l = NO_ELSE ∨ l < body.length) :=
  scan_loop_bounds body _ s 1 NO_ELSE e l (.inl rfl) h

/-! ## What a slot says -/

def JumpSlot.key (s : JumpSlot) : Nat × Nat := (s.keyBody, s.keyPc)

def JumpSlot.target (s : JumpSlot) : Nat × Nat := (s.endPc, if s.elsePc = u32Max then NO_ELSE else s.elsePc)

/-- Every filled slot holds the scan result of its key. -/
def Faithful (bodies : List (List UInt8)) (t : Nat → JumpSlot) : Prop :=
  ∀ j, (t j).empty = false → scanBlockEnd (bodies.getD (t j).keyBody []) (t j).keyPc = some (t j).target

def Ext (t t' : Nat → JumpSlot) : Prop := ∀ j, (t j).empty = false → t' j = t j

theorem Ext.refl (t : Nat → JumpSlot) : Ext t t := fun _ _ => rfl

theorem Ext.trans {t t' t'' : Nat → JumpSlot} (h : Ext t t') (h' : Ext t' t'') : Ext t t'' := fun j hj => by
  rw [h' j (by rw [h j hj]; exact hj), h j hj]

theorem Ext.free {t t' : Nat → JumpSlot} (hx : Ext t t') (h : ∃ k < JUMP_SLOTS, (t' k).empty = true) :
    ∃ k < JUMP_SLOTS, (t k).empty = true := by
  obtain ⟨k, hk, hemp⟩ := h
  refine ⟨k, hk, ?_⟩
  cases hke : (t k).empty with
  | true => rfl
  | false => rw [hx k hke, hke] at hemp; cases hemp

def hashKey (k : Nat × Nat) : Nat := jumpHash k.1 k.2

abbrev Probed (t : Nat → JumpSlot) : Prop := Reachable JUMP_SLOTS JumpSlot.empty JumpSlot.key hashKey t

theorem jumpHash_lt (b s : Nat) : jumpHash b s < JUMP_SLOTS := Nat.mod_lt _ (by decide)

theorem hashKey_lt (k : Nat × Nat) : hashKey k < JUMP_SLOTS := jumpHash_lt _ _

/-- The slot stored for a block of a body shorter than `2 ^ 32` bytes loses nothing. -/
def slotOf (b s e l : Nat) : JumpSlot :=
  { keyBody := b, keyPc := s, endPc := e, elsePc := if l = NO_ELSE then u32Max else l }

theorem slotOf_target {b s e l len : Nat} (hlen : len < 2 ^ 32) (hl : l = NO_ELSE ∨ l < len) :
    (slotOf b s e l).target = (e, l) := by
  simp only [JumpSlot.target, slotOf]
  rcases hl with rfl | hl
  · simp
  · have h1 : l ≠ NO_ELSE := by unfold NO_ELSE usizeMax; omega
    have h2 : l ≠ u32Max := by unfold u32Max; omega
    simp [h1, h2]

theorem slotOf_empty {b s e l : Nat} (hb : b < u16Max) : (slotOf b s e l).empty = false := by
  simp [JumpSlot.empty, slotOf, Nat.ne_of_lt hb]

section
variable {b s e l len : Nat} (hb : b < u16Max) (hlen : len < 2 ^ 32) (hs : s ≤ len) (he : e < len)
  (hl : l = NO_ELSE ∨ l < len)
include hb hlen hs he hl

theorem jumpInsert_eq (t : Nat → JumpSlot) :
    jumpInsert t b s e l =
      match probe JUMP_SLOTS (fun i => (t i).empty) JUMP_SLOTS (jumpHash b s) with
      | none => t
      | some i => upd t i (slotOf b s e l) := by
  have hb16 : b % 2 ^ 16 = b := Nat.mod_eq_of_lt (by unfold u16Max at hb; omega)
  have hl32 : (if l = NO_ELSE then u32Max else l % 2 ^ 32) = if l = NO_ELSE then u32Max else l := by
    rcases hl with rfl | hl
    · simp
    · rw [Nat.mod_eq_of_lt (by omega : l < 2 ^ 32)]
  have hs32 : s % 2 ^ 32 = s := Nat.mod_eq_of_lt (by omega)
  have he32 : e % 2 ^ 32 = e := Nat.mod_eq_of_lt (by omega)
  unfold jumpInsert
  rw [if_neg (show ¬ u16Max ≤ b by omega)]
  cases probe JUMP_SLOTS (fun i => (t i).empty) JUMP_SLOTS (jumpHash b s) with
  | none => rfl
  | some i => simp only [slotOf, hb16, hl32, hs32, he32]

theorem jumpInsert_ext (t : Nat → JumpSlot) : Ext t (jumpInsert t b s e l) := by
  rw [jumpInsert_eq hb hlen hs he hl]
  split
  · exact .refl t
  · rename_i i hi
    obtain ⟨_, _, _, hemp, _⟩ := probe_some (jumpHash_lt b s) hi
    intro j hj
    refine upd_of_ne _ _ fun hji => ?_
    rw [hji] at hj; rw [hj] at hemp; cases hemp

theorem jumpInsert_probed {t : Nat → JumpSlot} (ht : Probed t) : Probed (jumpInsert t b s e l) := by
  rw [jumpInsert_eq hb hlen hs he hl]
  split
  · exact ht
  · rename_i i hi
    exact Reachable.insert hashKey_lt ht (slotOf_empty hb) hi

theorem jumpInsert_faithful {bodies : List (List UInt8)} {t : Nat → JumpSlot} (ht : Faithful bodies t)
    (hscan : scanBlockEnd (bodies.getD b []) s = some (e, l)) : Faithful bodies (jumpInsert t b s e l) := by
  rw [jumpInsert_eq hb hlen hs he hl]
  split
  · exact ht
  · rename_i i _
    intro j hj
    by_cases hji : j = i
    · subst hji
      rw [upd_self, slotOf_target hlen hl]
      exact hscan
    · rw [upd_of_ne _ _ hji] at hj ⊢
      exact ht j hj

theorem jumpInsert_stores (t : Nat → JumpSlot) (hfree : ∃ j < JUMP_SLOTS, (t j).empty = true) :
    ∃ i < JUMP_SLOTS, jumpInsert t b s e l i = slotOf b s e l := by
  rw [jumpInsert_eq hb hlen hs he hl]
  obtain ⟨j, hj, hemp⟩ := hfree
  obtain ⟨d, hd, hdj⟩ := ring_dist (jumpHash_lt b s) hj
  obtain ⟨i, hi⟩ := probe_isSome (fun i => (t i).empty) (jumpHash_lt b s) hd (by rw [hdj]; exact hemp)
  obtain ⟨d', _, hid, _⟩ := probe_some (jumpHash_lt b s) hi
  rw [hi]
  exact ⟨i, hid ▸ Nat.mod_lt _ (by decide), upd_self ..⟩

end

/-! ## The pre-scan of one body -/

/-- Position `j` is reached by the pre-scan loop from position `i`. -/
inductive PreScanFrom (body : List UInt8) : Nat → Nat → Prop
  | refl {i : Nat} : PreScanFrom body i i
  | step {i i' j : Nat} {o : Option Nat} : preScanStep body i = some (o, i') → PreScanFrom body i' j →
      PreScanFrom body i j

theorem preScanLabels_ge (body : List UInt8) : ∀ k i, i ≤ preScanLabels body k i
  | 0, i => Nat.le_refl i
  | k + 1, _ => Nat.le_trans (Nat.le_add_right _ _) (preScanLabels_ge body k _)

theorem preScanStep_lt {body : List UInt8} {i i' : Nat} {o : Option Nat} (h : preScanStep body i = some (o, i')) :
    i < body.length ∧ i < i' ∧ ∀ s, o = some s → s = i + 2 ∧ s ≤ body.length := by
  unfold preScanStep at h
  cases hop : body[i]? with
  | none => rw [hop] at h; cases h
  | some op =>
    have hi : i < body.length := (List.getElem?_eq_some_iff.mp hop).1
    refine ⟨hi, ?_⟩
    simp only [hop] at h
    split at h
    · split at h
      · cases h
      · cases h
        refine ⟨by omega, fun s hs => ?_⟩
        cases hs
        omega
    · split at h
      · cases h
      · rename_i count n _
        cases h
        have := preScanLabels_ge body (count + 1) (i + 1 + n)
        exact ⟨by omega, fun s hs => by cases hs⟩
    all_goals (cases h; exact ⟨by omega, fun s hs => by cases hs⟩)

section
variable {bodies : List (List UInt8)} {b : Nat} (hb : b < u16Max) (hlen : (bodies.getD b []).length < 2 ^ 32)
include hb hlen

theorem preScan_loop_inv : ∀ (fuel i : Nat) (t : Nat → JumpSlot), Faithful bodies t → Probed t →
    let t' := preScanBodyJumps.loop (bodies.getD b []) b fuel i t
    Faithful bodies t' ∧ Probed t' ∧ Ext t t'
  | 0, _, t, hf, hp => ⟨hf, hp, .refl t⟩
  | fuel + 1, i, t, hf, hp => by
    simp only [preScanBodyJumps.loop]
    split
    · exact ⟨hf, hp, .refl t⟩
    · exact preScan_loop_inv fuel _ t hf hp
    · rename_i s i' hstep
      have hs := ((preScanStep_lt hstep).2.2 s rfl).2
      split
      · exact preScan_loop_inv fuel _ t hf hp
      · rename_i e l hscan
        obtain ⟨he, hl⟩ := scanBlockEnd_bounds hscan
        obtain ⟨hf', hp', hx⟩ := preScan_loop_inv fuel i' _ (jumpInsert_faithful hb hlen hs he hl hf hscan)
          (jumpInsert_probed hb hlen hs he hl hp)
        exact ⟨hf', hp', (jumpInsert_ext hb hlen hs he hl t).trans hx⟩

theorem preScan_loop_stores {s e l j next : Nat} (hscan : scanBlockEnd (bodies.getD b []) s = some (e, l))
    (hj : preScanStep (bodies.getD b []) j = some (some s, next)) :
    ∀ (fuel i : Nat) (t : Nat → JumpSlot), Faithful bodies t → Probed t →
      (bodies.getD b []).length ≤ i + fuel → PreScanFrom (bodies.getD b []) i j →
      let t' := preScanBodyJumps.loop (bodies.getD b []) b fuel i t
      (∃ k < JUMP_SLOTS, (t' k).empty = true) → ∃ k < JUMP_SLOTS, t' k = slotOf b s e l
  | 0, i, t, _, _, hfuel, hreach => by
    have : i < (bodies.getD b []).length := by
      cases hreach with
      | refl => exact (preScanStep_lt hj).1
      | step h _ => exact (preScanStep_lt h).1
    omega
  | fuel + 1, i, t, hf, hp, hfuel, hreach => by
    simp only [preScanBodyJumps.loop]
    obtain ⟨he, hl⟩ := scanBlockEnd_bounds hscan
    cases hreach with
    | refl =>
      have hs := ((preScanStep_lt hj).2.2 s rfl).2
      simp only [hj, hscan]
      intro hfree
      obtain ⟨_, _, hx⟩ := preScan_loop_inv hb hlen fuel next _ (jumpInsert_faithful hb hlen hs he hl hf hscan)
        (jumpInsert_probed hb hlen hs he hl hp)
      -- a slot still free at the end was free before the insertion
      have hfree' := ((jumpInsert_ext hb hlen hs he hl t).trans hx).free hfree
      obtain ⟨k, hk, hstored⟩ := jumpInsert_stores hb hlen hs he hl t hfree'
      exact ⟨k, hk, by rw [hx k (by rw [hstored]; exact slotOf_empty hb), hstored]⟩
    | @step _ i' _ o hstep hrest =>
      obtain ⟨_, hlt, hstart⟩ := preScanStep_lt hstep
      cases o with
      | none =>
        simp only [hstep]
        exact preScan_loop_stores hscan hj fuel i' t hf hp (by omega) hrest
      | some s' =>
        have hs' := (hstart s' rfl).2
        simp only [hstep]
        cases hscan' : scanBlockEnd (bodies.getD b []) s' with
        | none => exact preScan_loop_stores hscan hj fuel i' t hf hp (by omega) hrest
        | some p =>
          obtain ⟨e', l'⟩ := p
          obtain ⟨he', hl'⟩ := scanBlockEnd_bounds hscan'
          exact preScan_loop_stores hscan hj fuel i' _ (jumpInsert_faithful hb hlen hs' he' hl' hf hscan')
            (jumpInsert_probed hb hlen hs' he' hl' hp) (by omega) hrest

theorem preScan_inv {t : Nat → JumpSlot} (hf : Faithful bodies t) (hp : Probed t) :
    Faithful bodies (preScanBodyJumps (bodies.getD b []) b t) ∧ Probed (preScanBodyJumps (bodies.getD b []) b t) ∧
      Ext t (preScanBodyJumps (bodies.getD b []) b t) :=
  preScan_loop_inv hb hlen _ 0 t hf hp

theorem preScan_stores {s e l j next : Nat} (hscan : scanBlockEnd (bodies.getD b []) s = some (e, l))
    (hj : preScanStep (bodies.getD b []) j = some (some s, next)) (hreach : PreScanFrom (bodies.getD b []) 0 j)
    {t : Nat → JumpSlot} (hf : Faithful bodies t) (hp : Probed t)
    (hfree : ∃ k < JUMP_SLOTS, (preScanBodyJumps (bodies.getD b []) b t k).empty = true) :
    ∃ k < JUMP_SLOTS, preScanBodyJumps (bodies.getD b []) b t k = slotOf b s e l :=
  preScan_loop_stores hb hlen hscan hj _ 0 t hf hp (by omega) hreach hfree

end

/-! ## The table of a module -/

section
variable {bodies : List (List UInt8)} (hn : bodies.length ≤ MAX_FUNCS) (hlen : ∀ body ∈ bodies,
  body.length < 2 ^ 32)
include hn hlen

theorem body_facts {b : Nat} (hb : b < bodies.length) : b < u16Max ∧ (bodies.getD b []).length < 2 ^ 32 := by
  have hmem : bodies.getD b [] ∈ bodies := by
    rw [List.getD_eq_getElem?_getD, List.getElem?_eq_getElem hb]
    exact List.getElem_mem hb
  refine ⟨?_, hlen _ hmem⟩
  unfold MAX_FUNCS at hn; unfold u16Max; omega

/-- The fold over the bodies, from body `k` on. -/
theorem build_inv : ∀ (rest : List (List UInt8)) (k : Nat) (t : Nat → JumpSlot), rest = bodies.drop k →
    Faithful bodies t → Probed t →
    let t' := (rest.zipIdx k).foldl (fun t p => preScanBodyJumps p.1 p.2 t) t
    Faithful bodies t' ∧ Probed t' ∧ Ext t t'
  | [], _, t, _, hf, hp => ⟨hf, hp, .refl t⟩
  | body :: rest, k, t, hd, hf, hp => by
    have hk : k < bodies.length := by
      by_contra h
      rw [List.drop_eq_nil_of_le (by omega)] at hd; cases hd
    have hd' : bodies.drop k = bodies[k] :: bodies.drop (k + 1) := List.drop_eq_getElem_cons hk
    rw [hd'] at hd
    obtain ⟨rfl, hrest⟩ := List.cons.inj hd
    have hget : bodies.getD k [] = bodies[k] := by simp [hk]
    obtain ⟨hb, hl⟩ := body_facts hn hlen hk
    simp only [List.zipIdx_cons, List.foldl_cons]
    obtain ⟨hf', hp', hx⟩ := preScan_inv hb hl hf hp
    rw [hget] at hf' hp' hx
    obtain ⟨hf'', hp'', hx'⟩ := build_inv rest (k + 1) _ hrest hf' hp'
    exact ⟨hf'', hp'', hx.trans hx'⟩

theorem build_stores {b s e l j next : Nat} (hbl : b < bodies.length)
    (hscan : scanBlockEnd (bodies.getD b []) s = some (e, l))
    (hj : preScanStep (bodies.getD b []) j = some (some s, next)) (hreach : PreScanFrom (bodies.getD b []) 0 j) :
    ∀ (rest : List (List UInt8)) (k : Nat) (t : Nat → JumpSlot), rest = bodies.drop k → k ≤ b →
      Faithful bodies t → Probed t →
      let t' := (rest.zipIdx k).foldl (fun t p => preScanBodyJumps p.1 p.2 t) t
      (∃ i < JUMP_SLOTS, (t' i).empty = true) → ∃ i < JUMP_SLOTS, t' i = slotOf b s e l
  | [], k, t, hd, hkb, _, _ => by
    have := congrArg List.length hd
    simp at this
    omega
  | body :: rest, k, t, hd, hkb, hf, hp => by
    have hk : k < bodies.length := by omega
    have hd' : bodies.drop k = bodies[k] :: bodies.drop (k + 1) := List.drop_eq_getElem_cons hk
    rw [hd'] at hd
    obtain ⟨rfl, hrest⟩ := List.cons.inj hd
    have hget : bodies.getD k [] = bodies[k] := by simp [hk]
    obtain ⟨hb, hl⟩ := body_facts hn hlen hk
    simp only [List.zipIdx_cons, List.foldl_cons]
    obtain ⟨hf', hp', hx⟩ := preScan_inv hb hl hf hp
    rw [hget] at hf' hp' hx
    rcases Nat.lt_or_ge k b with hlt | hge
    · exact build_stores hbl hscan hj hreach rest (k + 1) _ hrest hlt hf' hp'
    · have hkb' : k = b := by omega
      subst hkb'
      intro hfree
      obtain ⟨_, _, hx'⟩ := build_inv hn hlen rest (k + 1) _ hrest hf' hp'
      have hst := preScan_stores hb hl hscan hj hreach hf hp
      rw [hget] at hst
      obtain ⟨i, hi, hstored⟩ := hst (hx'.free hfree)
      exact ⟨i, hi, by rw [hx' i (by rw [hstored]; exact slotOf_empty hb), hstored]⟩

end

theorem blank_faithful (bodies : List (List UInt8)) : Faithful bodies fun _ => EMPTY_JUMP_SLOT := fun j hj => by
  simp [JumpSlot.empty, EMPTY_JUMP_SLOT] at hj

theorem blank_probed : Probed fun _ => EMPTY_JUMP_SLOT := fun j _ hj => by
  simp [JumpSlot.empty, EMPTY_JUMP_SLOT] at hj

def occupied (t : Nat → JumpSlot) : Nat := (List.range JUMP_SLOTS).countP fun i => !(t i).empty

theorem occupied_lt_iff {t : Nat → JumpSlot} : occupied t < JUMP_SLOTS ↔ ∃ i < JUMP_SLOTS, (t i).empty = true := by
  have hlt := List.countP_lt_length_iff (p := fun i => !(t i).empty) (l := List.range JUMP_SLOTS)
  rw [List.length_range] at hlt
  rw [occupied, hlt]
  simp only [List.mem_range, Bool.not_eq_eq_eq_not, Bool.not_false]

theorem jumpLookup_ok {t : Nat → JumpSlot} {b s : Nat} {r : Option (Nat × Nat)} (h : jumpLookup t b s = .ok r) :
    r = none ∨ ∃ i, (t i).empty = false ∧ (t i).keyBody = b ∧ (t i).keyPc = s ∧ r = some (t i).target := by
  unfold jumpLookup at h
  split at h
  · cases h
  · rename_i i hi
    obtain ⟨_, _, _, hstop, _⟩ := probe_some (jumpHash_lt b s) hi
    simp only at h
    split at h
    · cases h; exact .inl rfl
    · rename_i hne
      have hne : (t i).empty = false := by simpa using hne
      simp only [hne, Bool.false_or, Bool.and_eq_true, beq_iff_eq] at hstop
      cases h
      exact .inr ⟨i, hne, hstop.1, hstop.2, rfl⟩

/-- A stored key is found, and the answer is that of some slot with the key. -/
theorem jumpLookup_of_stored {t : Nat → JumpSlot} (ht : Probed t) {b s i : Nat} (hi : i < JUMP_SLOTS)
    (hne : (t i).empty = false) (hk : (t i).key = (b, s)) :
    ∃ k, (t k).empty = false ∧ (t k).key = (b, s) ∧ jumpLookup t b s = .ok (some (t k).target) := by
  obtain ⟨k, _, hp, hke, hkk⟩ := Reachable.find hashKey_lt ht hi hne
  refine ⟨k, hke, hkk.trans hk, ?_⟩
  rw [hk] at hp
  have hstop : (fun i => (t i).empty || ((t i).keyBody == b && (t i).keyPc == s)) =
      fun i => (t i).empty || decide ((t i).key = (b, s)) := by
    funext i
    congr 1
    rw [Bool.eq_iff_iff]
    simp [JumpSlot.key]
  unfold jumpLookup
  rw [hstop, show jumpHash b s = hashKey (b, s) from rfl, hp]
  simp [hke, JumpSlot.target]

section
variable {bodies : List (List UInt8)} (hn : bodies.length ≤ MAX_FUNCS) (hlen : ∀ body ∈ bodies,
  body.length < 2 ^ 32)
include hn hlen

theorem buildJumpTable_inv : Faithful bodies (buildJumpTable bodies) ∧ Probed (buildJumpTable bodies) :=
  let h := build_inv hn hlen bodies 0 (fun _ => EMPTY_JUMP_SLOT) rfl (blank_faithful bodies) blank_probed
  ⟨h.1, h.2.1⟩

theorem jumpLookup_or_scan {b s : Nat} {r : Option (Nat × Nat)}
    (hr : jumpLookup (buildJumpTable bodies) b s = .ok r) :
    r.or (scanBlockEnd (bodies.getD b []) s) = scanBlockEnd (bodies.getD b []) s := by
  rcases jumpLookup_ok hr with rfl | ⟨i, hne, rfl, rfl, rfl⟩
  · rfl
  · rw [(buildJumpTable_inv hn hlen).1 i hne]; rfl

/-- In a table with a free slot every block the pre-scan reached is found. -/
theorem jumpLookup_finds (hocc : occupied (buildJumpTable bodies) < JUMP_SLOTS) {b s i next e l : Nat}
    (hbl : b < bodies.length) (hreach : PreScanFrom (bodies.getD b []) 0 i)
    (hstep : preScanStep (bodies.getD b []) i = some (some s, next))
    (hscan : scanBlockEnd (bodies.getD b []) s = some (e, l)) :
    jumpLookup (buildJumpTable bodies) b s = .ok (some (e, l)) := by
  obtain ⟨hf, hp⟩ := buildJumpTable_inv hn hlen
  obtain ⟨k, hk, hstored⟩ : ∃ k < JUMP_SLOTS, buildJumpTable bodies k = slotOf b s e l :=
    build_stores hn hlen hbl hscan hstep hreach bodies 0 (fun _ => EMPTY_JUMP_SLOT) rfl
      (Nat.zero_le b) (blank_faithful bodies) blank_probed (occupied_lt_iff.mp hocc)
  have hb := (body_facts hn hlen hbl).1
  obtain ⟨k', hne, hkey, hlook⟩ := jumpLookup_of_stored hp hk (by rw [hstored]; exact slotOf_empty hb)
    (show _ = (b, s) by rw [hstored]; rfl)
  obtain ⟨hkb, hkp⟩ := Prod.mk.inj hkey
  have := hf k' hne
  rw [hkb, hkp, hscan] at this
  rw [← Option.some.inj this] at hlook
  exact hlook

end

/-- The jump table is equivalent to scanning: a lookup that ends, completed by the scan, is the scan;
and a table with a free slot answers every block the pre-scan reached. -/
theorem jumpTable_scan (bodies : List (List UInt8)) (hn : bodies.length ≤ MAX_FUNCS)
    (hlen : ∀ body ∈ bodies, body.length < 2 ^ 32) (b s : Nat) :
    (∀ r, jumpLookup (buildJumpTable bodies) b s = .ok r →
      (r.or (scanBlockEnd (bodies.getD b []) s)) = scanBlockEnd (bodies.getD b []) s) ∧
    (occupied (buildJumpTable bodies) < JUMP_SLOTS → b < bodies.length → ∀ i next p,
      PreScanFrom (bodies.getD b []) 0 i → preScanStep (bodies.getD b []) i = some (some s, next) →
      scanBlockEnd (bodies.getD b []) s = some p → jumpLookup (buildJumpTable bodies) b s = .ok (some p)) :=
  ⟨fun _ hr => jumpLookup_or_scan hn hlen hr,
   fun hocc hbl _ _ ⟨_, _⟩ hreach hstep hscan => jumpLookup_finds hn hlen hocc hbl hreach hstep hscan⟩

theorem jumpTable_scan_block :
    jumpLookup (buildJumpTable [[0x02, 0x40, 0x01, 0x0B, 0x0B]]) 0 2 = .ok (some (3, NO_ELSE)) :=
  have hfree : occupied (buildJumpTable [[0x02, 0x40, 0x01, 0x0B, 0x0B]]) < JUMP_SLOTS :=
    occupied_lt_iff.mpr ⟨0, by decide, by decide⟩
  (jumpTable_scan [[0x02, 0x40, 0x01, 0x0B, 0x0B]] (by decide) (by decide) 0 2).2 hfree (by decide) 0 2 _
    .refl (by decide) (by decide)

end WasmOs
