import WasmOs.Tokenizer

/-!
# Valid UTF-8

A valid byte string is one character after another. A byte below `0x80` is a character of its own, so a
place next to one is a character boundary.
-/

namespace WasmOs

open Asm (isContinuation isCharBoundary strSlice)

theorem takeWhile_append_stops {α : Type} {p : α → Bool} {w rest : List α} (hw : ∀ c ∈ w, p c = true)
    (hend : ∀ c, rest.head? = some c → p c = false) : (w ++ rest).takeWhile p = w := by
  have hstop : rest.takeWhile p = [] := by
    cases rest with
    | nil => rfl
    | cons c rest => exact List.takeWhile_cons_of_neg (by rw [hend c rfl]; exact nofun)
  rw [List.takeWhile_append_of_pos hw, hstop, List.append_nil]

theorem validUtf8_ascii {b : UInt8} (hb : b < 0x80) (rest : List UInt8) :
    validUtf8 (b :: rest) = validUtf8 rest := by
  rw [validUtf8.eq_def]
  exact if_pos hb

theorem continuation_of_range (c : UInt8) : 0x80 ≤ c → c ≤ 0xBF → isContinuation c = true :=
  byte_forall (P := fun c => 0x80 ≤ c → c ≤ 0xBF → isContinuation c = true) (by decide +kernel) c

theorem lead_not_continuation (b : UInt8) : (b < 0x80 ∨ 0xC2 ≤ b) → isContinuation b = false :=
  byte_forall (P := fun b => (b < 0x80 ∨ 0xC2 ≤ b) → isContinuation b = false) (by decide +kernel) b

theorem continuation_ge (c : UInt8) : isContinuation c = true → ¬ c < 0x80 :=
  byte_forall (P := fun c => isContinuation c = true → ¬ c < 0x80) (by decide +kernel) c

/-- The second byte of a character of three or four is in a range that depends on the first. -/
theorem second_continuation {p : Prop} [Decidable p] {q : Prop} [Decidable q] (c lo hi : UInt8)
    (hlo : 0x80 ≤ lo) (hhi : hi ≤ 0xBF)
    (h : (if p then lo else 0x80) ≤ c ∧ c ≤ (if q then hi else 0xBF)) : isContinuation c = true := by
  obtain ⟨h1, h2⟩ := h
  refine continuation_of_range c ?_ ?_
  · split at h1
    · exact UInt8.le_trans hlo h1
    · exact h1
  · split at h2
    · exact UInt8.le_trans h2 hhi
    · exact h2

/-- The first character: a byte that begins one and the bytes that continue it. -/
theorem validUtf8_first {s : List UInt8} (h : validUtf8 s = true) (hne : s ≠ []) :
    ∃ b tail rest, s = b :: (tail ++ rest) ∧
    isContinuation b = false ∧ (∀ c ∈ tail, isContinuation c = true) ∧ (b < 0x80 → tail = []) ∧
    validUtf8 rest = true ∧
    ∀ t, validUtf8 (b :: (tail ++ t)) = validUtf8 t := by
  cases s with
  | nil => exact absurd rfl hne
  | cons b rest =>
    by_cases hb : b < 0x80
    · rw [validUtf8_ascii hb] at h
      refine ⟨b, [], rest, rfl, lead_not_continuation b (.inl hb), nofun, fun _ => rfl, h, fun t => ?_⟩
      rw [List.nil_append, validUtf8_ascii hb]
    rw [validUtf8.eq_def] at h
    dsimp only at h
    rw [if_neg hb] at h
    cases rest with
    | nil => cases h
    | cons c rest =>
      dsimp only at h
      by_cases hb2 : 0xC2 ≤ b ∧ b ≤ 0xDF
      · rw [if_pos hb2, Bool.and_eq_true, decide_eq_true_eq] at h
        obtain ⟨hc, hrest⟩ := h
        refine ⟨b, [c], rest, rfl, lead_not_continuation b (.inr hb2.1), ?_, fun h => absurd h hb, hrest,
          fun t => ?_⟩
        · simpa using continuation_of_range c hc.1 hc.2
        · rw [validUtf8.eq_def]
          dsimp only
          rw [if_neg hb]
          simp [hb2, hc]
      rw [if_neg hb2] at h
      cases rest with
      | nil => cases h
      | cons d rest =>
        dsimp only at h
        by_cases hb3 : 0xE0 ≤ b ∧ b ≤ 0xEF
        · rw [if_pos hb3, Bool.and_eq_true, Bool.and_eq_true, decide_eq_true_eq, decide_eq_true_eq] at h
          obtain ⟨⟨hc, hd⟩, hrest⟩ := h
          have hcc := second_continuation c 0xA0 0x9F (by decide) (by decide) hc
          have hdc := continuation_of_range d hd.1 hd.2
          refine ⟨b, [c, d], rest, rfl, lead_not_continuation b (.inr (UInt8.le_trans (by decide) hb3.1)), ?_,
            fun h => absurd h hb, hrest, fun t => ?_⟩
          · simp [hcc, hdc]
          · rw [validUtf8.eq_def]
            simp only [List.cons_append, List.nil_append]
            rw [if_neg hb, if_neg hb2, if_pos hb3, decide_eq_true hc, decide_eq_true hd]
            rfl
        rw [if_neg hb3] at h
        cases rest with
        | nil => cases h
        | cons e rest =>
          dsimp only at h
          by_cases hb4 : 0xF0 ≤ b ∧ b ≤ 0xF4
          · rw [if_pos hb4, Bool.and_eq_true, Bool.and_eq_true, Bool.and_eq_true, decide_eq_true_eq,
              decide_eq_true_eq,
              decide_eq_true_eq] at h
            obtain ⟨⟨⟨hc, hd⟩, he⟩, hrest⟩ := h
            have hcc := second_continuation c 0x90 0x8F (by decide) (by decide) hc
            have hdc := continuation_of_range d hd.1 hd.2
            have hec := continuation_of_range e he.1 he.2
            refine ⟨b, [c, d, e], rest, rfl, lead_not_continuation b (.inr (UInt8.le_trans (by decide) hb4.1)), ?_,
              fun h => absurd h hb, hrest, fun t => ?_⟩
            · simp [hcc, hdc, hec]
            · rw [validUtf8.eq_def]
              simp only [List.cons_append, List.nil_append]
              rw [if_neg hb, if_neg hb2, if_neg hb3, if_pos hb4, decide_eq_true hc, decide_eq_true hd,
                decide_eq_true he]
              rfl
          · rw [if_neg hb4] at h
            cases h

theorem validUtf8_induction {motive : (s : List UInt8) → validUtf8 s = true → Prop} (nil : motive [] rfl)
    (char : ∀ b tail rest (_ : isContinuation b = false) (_ : ∀ c ∈ tail, isContinuation c = true) (_ : b <
      0x80 → tail = [])
      (first : ∀ t, validUtf8 (b :: (tail ++ t)) = validUtf8 t) (hrest : validUtf8 rest = true),
      motive rest hrest → motive (b :: (tail ++ rest)) ((first rest).trans hrest))
    (s : List UInt8) (h : validUtf8 s = true) : motive s h := by
  induction hn : s.length using Nat.strongRecOn generalizing s with
  | ind n ih =>
    cases s with
    | nil => exact nil
    | cons b s =>
      obtain ⟨b, tail, rest, heq, hb, htail, hascii, hrest, hfirst⟩ := validUtf8_first h (List.cons_ne_nil b s)
      have hlt : rest.length < n := by
        rw [← hn, heq, List.length_cons, List.length_append]
        omega
      cases heq
      exact char b tail rest hb htail hascii hfirst hrest (ih rest.length hlt rest hrest rfl)

theorem validUtf8_append {s : List UInt8} (hs : validUtf8 s = true) (t : List UInt8) :
    validUtf8 (s ++ t) = validUtf8 t := by
  induction s, hs using validUtf8_induction with
  | nil => rfl
  | char b tail rest _ _ _ hfirst _ ih => rw [List.cons_append, List.append_assoc, hfirst, ih]

theorem validUtf8_of_ascii {s : List UInt8} (h : ∀ b ∈ s, b < 0x80) : validUtf8 s = true := by
  induction s with
  | nil => rfl
  | cons b s ih =>
    rw [validUtf8_ascii (h b (List.mem_cons_self ..))]
    exact ih fun c hc => h c (List.mem_cons_of_mem b hc)

/-! ## Boundaries -/

theorem isCharBoundary_iff {s : List UInt8} {i : Nat} : isCharBoundary s i = true ↔
    i = 0 ∨ i = s.length ∨ ∃ c, s[i]? = some c ∧ isContinuation c = false := by
  unfold isCharBoundary
  cases s[i]? with
  | none => simp
  | some c => simp [or_assoc]

theorem boundary_of_ascii {s : List UInt8} {i : Nat} {c : UInt8} (hc : s[i]? = some c) (hlt : c < 0x80) :
    isCharBoundary s i = true :=
  isCharBoundary_iff.mpr (.inr (.inr ⟨c, hc, lead_not_continuation c (.inl hlt)⟩))

theorem boundary_zero (s : List UInt8) : isCharBoundary s 0 = true := rfl

theorem boundary_length (s : List UInt8) : isCharBoundary s s.length = true :=
  isCharBoundary_iff.mpr (.inr (.inl rfl))

/-- Behind a first part there is a boundary where the second part has one. -/
theorem boundary_append {s t : List UInt8} (ht : validUtf8 t = true) {i : Nat} (h : isCharBoundary t i = true) :
    isCharBoundary (s ++ t) (s.length + i) = true := by
  rw [isCharBoundary_iff] at h ⊢
  rw [List.length_append, List.getElem?_append_right (Nat.le_add_right ..), Nat.add_sub_cancel_left]
  obtain rfl | rfl | ⟨c, hc, hlead⟩ := h
  · cases t with
    | nil => exact .inr (.inl rfl)
    | cons b t =>
      obtain ⟨c, tail, rest, heq, hlead, -⟩ := validUtf8_first ht (List.cons_ne_nil b t)
      refine .inr (.inr ⟨c, ?_, hlead⟩)
      rw [heq]
      rfl
  · exact .inr (.inl rfl)
  · exact .inr (.inr ⟨c, hc, hlead⟩)

theorem boundary_append_iff {s t : List UInt8} (ht : validUtf8 t = true) {i : Nat} :
    isCharBoundary (s ++ t) (s.length + i) = true ↔ isCharBoundary t i = true := by
  refine ⟨fun h => ?_, boundary_append ht⟩
  rw [isCharBoundary_iff] at h ⊢
  rw [List.length_append, List.getElem?_append_right (Nat.le_add_right ..), Nat.add_sub_cancel_left] at h
  obtain hzero | hlast | hlead := h
  · exact .inl (Nat.eq_zero_of_add_eq_zero_left hzero)
  · exact .inr (.inl (Nat.add_left_cancel hlast))
  · exact .inr (.inr hlead)

/-- A string may be cut where a character ends, and only there. -/
theorem validUtf8_split {s t : List UInt8} (h : validUtf8 (s ++ t) = true) :
    isCharBoundary (s ++ t) s.length = true ↔ validUtf8 s = true := by
  constructor
  · intro hb
    generalize hx : s ++ t = x at h hb
    induction x, h using validUtf8_induction generalizing s with
    | nil => rw [(List.append_eq_nil_iff.mp hx).1]; rfl
    | char b tail rest hlead htail _ hfirst hrest ih =>
      cases s with
      | nil => rfl
      | cons c s =>
        obtain ⟨rfl, heq⟩ := List.cons.inj hx
        replace heq : s ++ t = tail ++ rest := heq
        have hlong : tail.length ≤ s.length := by
          by_contra hshort
          -- the cut is inside the first character
          have hlt : s.length < tail.length := Nat.lt_of_not_le hshort
          have hget : (c :: (tail ++ rest))[s.length + 1]? = some tail[s.length] := by
            rw [List.getElem?_cons_succ, List.getElem?_append_left hlt, List.getElem?_eq_getElem hlt]
          have hcont := htail _ (List.getElem_mem hlt)
          obtain hzero | hlast | ⟨d, hd, hnot⟩ := isCharBoundary_iff.mp hb
          · cases hzero
          · rw [List.length_cons, List.length_cons, List.length_append] at hlast
            omega
          · cases hget.symm.trans hd
            rw [hcont] at hnot
            cases hnot
        obtain ⟨u, rfl, hu⟩ : ∃ u, s = tail ++ u ∧ u ++ t = rest := by
          obtain ⟨u, hu⟩ := List.prefix_of_prefix_length_le (List.prefix_append tail rest)
            (heq ▸ List.prefix_append s t) hlong
          refine ⟨u, hu.symm, ?_⟩
          rw [← hu, List.append_assoc] at heq
          exact List.append_cancel_left heq
        rw [hfirst]
        refine ih hu ?_
        have hlen : (c :: (tail ++ u)).length = (c :: tail).length + u.length := by
          rw [List.length_cons, List.length_cons, List.length_append]
          omega
        rw [hlen] at hb
        exact (boundary_append_iff (s := c :: tail) hrest).mp hb
  · intro hs
    have ht : validUtf8 t = true := (validUtf8_append hs t).symm.trans h
    exact boundary_append ht (boundary_zero t)

theorem boundary_succ {s : List UInt8} (h : validUtf8 s = true) {i : Nat} {c : UInt8} (hc : s[i]? = some c)
    (hlt : c < 0x80) :
    isCharBoundary s (i + 1) = true := by
  induction s, h using validUtf8_induction generalizing i with
  | nil => cases hc
  | char b tail rest hb htail hascii hfirst hrest ih =>
    cases i with
    | zero =>
      have hbc : b = c := Option.some.inj hc
      rw [hascii (hbc ▸ hlt)]
      exact boundary_append (s := [b]) hrest (boundary_zero rest)
    | succ i =>
      rw [List.getElem?_cons_succ] at hc
      by_cases hi : i < tail.length
      · rw [List.getElem?_append_left hi] at hc
        exact absurd hlt (continuation_ge c (htail c (List.mem_of_getElem? hc)))
      · rw [List.getElem?_append_right (Nat.le_of_not_lt hi)] at hc
        have hnext := boundary_append (s := b :: tail) hrest (ih hc)
        rw [List.length_cons, show tail.length + 1 + (i - tail.length + 1) = i + 1 + 1 by omega] at hnext
        exact hnext

theorem strSlice_ok {ε : Type} {s : List UInt8} {lo hi : Nat} (hle : lo ≤ hi) (hlen : hi ≤ s.length)
    (hlo : isCharBoundary s lo = true)
    (hhi : isCharBoundary s hi = true) : (strSlice s lo hi : Rust ε _) = .ok ((s.take hi).drop lo) :=
  if_pos ⟨hle, hlen, hlo, hhi⟩

end WasmOs
