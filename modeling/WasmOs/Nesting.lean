import WasmOs.ScanSound

/-!
# Positions in an instruction sequence

A `Spot` is a position between two instructions, at any depth: it knows the blocks around it, outermost
first, and what is left of the innermost one. `enclosing` finds the same blocks by comparing the position
with where they start and end.
-/

namespace WasmOs

/-- A block around a position: its type and what follows it. -/
structure Hole extends BlockPos where
  bt : UInt8
  rest : Expr

/-- The sequence starts with the block, at `o`. -/
inductive Opens : Expr → Nat → Hole → Prop
  | block {kind : BlockKind} {bt : UInt8} {body k : Expr} {o : Nat} :
      Opens (.block kind bt body k) o ⟨⟨kind, body, none, o + 2, o + 2 + body.bytes.length, none⟩, bt, k⟩
  | ifElse {bt : UInt8} {thn els k : Expr} {o : Nat} :
      Opens (.ifElse bt thn els k) o ⟨⟨.if_, thn, some els, o + 2,
        o + 2 + thn.bytes.length + 1 + els.bytes.length, some (o + 2 + thn.bytes.length)⟩, bt, k⟩

/-- `Spot t e o pc hs k u`: in the sequence `e`, which starts at `o` and is closed by the byte `t`, the
position `pc` is inside the blocks `hs`, and what is left there is `k`, closed by `u`. -/
inductive Spot : UInt8 → Expr → Nat → Nat → List Hole → Expr → UInt8 → Prop
  | here {t : UInt8} {e : Expr} {o : Nat} : Spot t e o o [] e t
  | afterPlain {t u : UInt8} {p : Plain} {k r : Expr} {o pc : Nat} {hs : List Hole} :
      Spot t k (o + p.bytes.length) pc hs r u → Spot t (.plain p k) o pc hs r u
  | after {t u : UInt8} {e r : Expr} {o pc : Nat} {h : Hole} {hs : List Hole} :
      Opens e o h → Spot t h.rest (h.endPos + 1) pc hs r u → Spot t e o pc hs r u
  | inBody {t u : UInt8} {e r : Expr} {o pc : Nat} {h : Hole} {hs : List Hole} :
      Opens e o h → Spot (if h.els.isSome then 0x05 else 0x0B) h.thn h.start pc hs r u → Spot t e o pc (h :: hs) r u
  | inElse {t u : UInt8} {e els r : Expr} {o pc elsePos : Nat} {h : Hole} {hs : List Hole} :
      Opens e o h → h.els = some els → h.elsePos = some elsePos → Spot 0x0B els (elsePos + 1) pc hs r u →
      Spot t e o pc (h :: hs) r u

/-! ## Moving about -/

section
variable {t u v : UInt8} {e k r : Expr} {o pc pc' : Nat} {hs hs' : List Hole}

theorem Spot.trans (h : Spot t e o pc hs k u) (h' : Spot u k pc pc' hs' r v) : Spot t e o pc' (hs ++ hs') r v := by
  induction h with
  | here => exact h'
  | afterPlain _ ih => exact .afterPlain (ih h')
  | after hop _ ih => exact .after hop (ih h')
  | inBody hop _ ih => exact .inBody hop (ih h')
  | inElse hop hels hpos _ ih => exact .inElse hop hels hpos (ih h')

theorem Spot.opening {h : Hole} {hs₁ hs₂ : List Hole} (hs : Spot t e o pc (hs₁ ++ h :: hs₂) k u) :
    ∃ E at_ w, Spot t e o at_ hs₁ E w ∧ Opens E at_ h := by
  generalize hl : hs₁ ++ h :: hs₂ = l at hs
  induction hs generalizing hs₁ with
  | here => exact absurd hl (by simp)
  | afterPlain _ ih =>
    obtain ⟨E, at_, w, hE, hop⟩ := ih hl
    exact ⟨E, at_, w, .afterPlain hE, hop⟩
  | after hop' _ ih =>
    obtain ⟨E, at_, w, hE, hop⟩ := ih hl
    exact ⟨E, at_, w, .after hop' hE, hop⟩
  | inBody hop' _ ih =>
    cases hs₁ with
    | nil =>
      cases hl
      exact ⟨_, _, _, .here, hop'⟩
    | cons g hs₁ =>
      cases hl
      obtain ⟨E, at_, w, hE, hop⟩ := ih rfl
      exact ⟨E, at_, w, .inBody hop' hE, hop⟩
  | inElse hop' hels hpos _ ih =>
    cases hs₁ with
    | nil =>
      cases hl
      exact ⟨_, _, _, .here, hop'⟩
    | cons g hs₁ =>
      cases hl
      obtain ⟨E, at_, w, hE, hop⟩ := ih rfl
      exact ⟨E, at_, w, .inElse hop' hels hpos hE, hop⟩

/-- Just behind a block around the position. -/
theorem Spot.leave {h : Hole} {hs₁ hs₂ : List Hole} (hs : Spot t e o pc (hs₁ ++ h :: hs₂) k u) :
    ∃ w, Spot t e o (h.endPos + 1) hs₁ h.rest w := by
  obtain ⟨E, at_, w, hE, hop⟩ := hs.opening
  have := hE.trans (.after hop .here)
  rw [List.append_nil] at this
  exact ⟨w, this⟩

theorem Spot.restart {h : Hole} {hs₁ hs₂ : List Hole} (hs : Spot t e o pc (hs₁ ++ h :: hs₂) k u) :
    ∃ w, Spot t e o h.start (hs₁ ++ [h]) h.thn w := by
  obtain ⟨E, at_, w, hE, hop⟩ := hs.opening
  exact ⟨_, hE.trans (.inBody hop .here)⟩

end

/-! ## The bytes at a position -/

section
variable {body rest : List UInt8} {t u : UInt8} {e k : Expr} {o pc : Nat} {hs : List Hole} {h : Hole}

theorem Opens.blockAt (hop : Opens e o h) : BlockAt e o h.toBlockPos := by
  cases hop with
  | block => exact .block
  | ifElse => exact .ifElse

theorem Spot.blockAt (sp : Spot t e o pc hs k u) (hop : Opens k pc h) : BlockAt e o h.toBlockPos := by
  induction sp with
  | here => exact hop.blockAt
  | afterPlain _ ih => exact .afterPlain (ih hop)
  | after hop' _ ih =>
    cases hop' with
    | block => exact .afterBlock (ih hop)
    | ifElse => exact .afterIfElse (ih hop)
  | inBody hop' _ ih =>
    cases hop' with
    | block => exact .inBlock (ih hop)
    | ifElse => exact .inThn (ih hop)
  | inElse hop' hels hpos _ ih =>
    cases hop' with
    | block => cases hels
    | ifElse =>
      cases hels
      cases hpos
      exact .inEls (ih hop)

theorem Opens.bytes (hop : Opens e o h) (hb : body.drop o = e.bytes ++ rest) :
    body.drop (h.endPos + 1) = h.rest.bytes ++ rest ∧
    (∃ r, body.drop h.start = h.thn.bytes ++ (if h.els.isSome then 0x05 else 0x0B) :: r) ∧
    ∀ els elsePos, h.els = some els → h.elsePos = some elsePos →
    ∃ r, body.drop (elsePos + 1) = els.bytes ++ 0x0B :: r := by
  cases hop with
  | block =>
    simp only [Expr.bytes, List.cons_append, List.append_assoc] at hb
    have h2 := drop_succ (drop_succ hb)
    exact ⟨drop_succ (drop_append_length h2), ⟨_, h2⟩, by simp⟩
  | ifElse =>
    simp only [Expr.bytes, List.cons_append, List.append_assoc] at hb
    have h2 := drop_succ (drop_succ hb)
    have h3 := drop_succ (drop_append_length h2)
    refine ⟨drop_succ (drop_append_length h3), ⟨_, h2⟩, fun _ _ hels hpos => ?_⟩
    cases hels
    cases hpos
    exact ⟨_, h3⟩

theorem Spot.bytes (sp : Spot t e o pc hs k u) :
    ∀ {rest : List UInt8}, body.drop o = e.bytes ++ t :: rest → ∃ rest', body.drop pc = k.bytes ++ u :: rest' := by
  induction sp with
  | here => exact fun hb => ⟨_, hb⟩
  | afterPlain _ ih =>
    intro rest hb
    simp only [Expr.bytes, List.append_assoc] at hb
    exact ih (drop_append_length hb)
  | after hop _ ih => exact fun hb => ih (hop.bytes hb).1
  | inBody hop _ ih =>
    intro rest hb
    obtain ⟨r, hr⟩ := (hop.bytes hb).2.1
    exact ih hr
  | inElse hop hels hpos _ ih =>
    intro rest hb
    obtain ⟨r, hr⟩ := (hop.bytes hb).2.2 _ _ hels hpos
    exact ih hr

theorem Opens.all {P : Plain → Prop} (hop : Opens e o h) (he : e.All P) :
    h.thn.All P ∧ (∀ els, h.els = some els → els.All P) ∧ h.rest.All P := by
  cases hop with
  | block => exact ⟨he.1, nofun, he.2⟩
  | ifElse =>
    refine ⟨he.1, fun _ hels => ?_, he.2.2⟩
    cases hels
    exact he.2.1

theorem Spot.all {P : Plain → Prop} (sp : Spot t e o pc hs k u) (he : e.All P) : k.All P := by
  induction sp with
  | here => exact he
  | afterPlain _ ih => exact ih he.2
  | after hop _ ih => exact ih (hop.all he).2.2
  | inBody hop _ ih => exact ih (hop.all he).1
  | inElse hop hels _ _ ih => exact ih ((hop.all he).2.1 _ hels)

/-- The parts of a block, laid end to end. -/
theorem Opens.length (hop : Opens e o h) :
    o + 2 = h.start ∧ h.endPos + 1 + h.rest.bytes.length = o + e.bytes.length ∧
    (h.els = none ∧ h.elsePos = none ∧ h.start + h.thn.bytes.length = h.endPos ∨
      ∃ els elsePos, h.els = some els ∧ h.elsePos = some elsePos ∧ h.start + h.thn.bytes.length = elsePos ∧
        elsePos + 1 + els.bytes.length = h.endPos) := by
  cases hop with
  | block =>
    refine ⟨rfl, ?_, .inl ⟨rfl, rfl, rfl⟩⟩
    simp only [Expr.bytes, List.length_cons, List.length_append]
    omega
  | ifElse =>
    refine ⟨rfl, ?_, .inr ⟨_, _, rfl, rfl, rfl, rfl⟩⟩
    simp only [Expr.bytes, List.length_cons, List.length_append]
    omega

/-- The byte that closes what is left: that of the whole sequence, or that of the innermost block. -/
theorem Spot.closer (sp : Spot t e o pc hs k u) : (hs = [] ∧ u = t ∧ pc + k.bytes.length = o + e.bytes.length) ∨
    ∃ hs₁ h, hs = hs₁ ++ [h] ∧ (u = 0x0B ∧ pc + k.bytes.length = h.endPos ∨ u = 0x05) := by
  induction sp with
  | here => exact .inl ⟨rfl, rfl, rfl⟩
  | @afterPlain t u p k r o pc hs _ ih =>
    refine ih.imp_left fun h => ⟨h.1, h.2.1, ?_⟩
    have := h.2.2
    simp only [Expr.bytes, List.length_append]
    omega
  | after hop _ ih =>
    have := hop.length.2.1
    refine ih.imp_left fun h => ⟨h.1, h.2.1, ?_⟩
    have := h.2.2
    omega
  | @inBody t u e r o pc h hs hop _ ih =>
    refine .inr ?_
    rcases ih with ⟨rfl, hu, hpos⟩ | ⟨hs₁, g, rfl, hg⟩
    · refine ⟨[], h, rfl, ?_⟩
      rcases hop.length.2.2 with ⟨hels, _, hend⟩ | ⟨els, _, hels, _⟩
      · rw [hels] at hu
        exact .inl ⟨hu, hpos.trans hend⟩
      · rw [hels] at hu
        exact .inr hu
    · exact ⟨h :: hs₁, g, rfl, hg⟩
  | @inElse t u e els r o pc elsePos h hs hop hels hpos _ ih =>
    refine .inr ?_
    rcases ih with ⟨rfl, hu, hend⟩ | ⟨hs₁, g, rfl, hg⟩
    · refine ⟨[], h, rfl, .inl ⟨hu, ?_⟩⟩
      rcases hop.length.2.2 with ⟨hn, _⟩ | ⟨els', pos', hels', hpos', _, hl⟩
      · rw [hels] at hn
        cases hn
      · rw [hels] at hels'
        rw [hpos] at hpos'
        cases hels'
        cases hpos'
        exact hend.trans hl
    · exact ⟨h :: hs₁, g, rfl, hg⟩

end

/-! ## The blocks around a position -/

/-- The blocks of a sequence at `o` that hold the position `pc`, outermost first. The `end` of a block
belongs to it. -/
def Expr.enclosing : Expr → Nat → Nat → List BlockPos
  | .nil, _, _ => []
  | .plain p k, o, pc => k.enclosing (o + p.bytes.length) pc
  | .block kind _ body k, o, pc =>
    let endPos := o + 2 + body.bytes.length
    if o + 2 ≤ pc ∧ pc ≤ endPos then ⟨kind, body, none, o + 2, endPos, none⟩ :: body.enclosing (o + 2) pc
    else k.enclosing (endPos + 1) pc
  | .ifElse _ thn els k, o, pc =>
    let elsePos := o + 2 + thn.bytes.length
    let endPos := elsePos + 1 + els.bytes.length
    if o + 2 ≤ pc ∧ pc ≤ endPos then
      ⟨.if_, thn, some els, o + 2, endPos, some elsePos⟩ ::
        if pc ≤ elsePos then thn.enclosing (o + 2) pc else els.enclosing (elsePos + 1) pc
    else k.enclosing (endPos + 1) pc

theorem enclosing_of_le : ∀ (e : Expr) {o pc : Nat}, pc ≤ o → e.enclosing o pc = []
  | .nil, _, _, _ => rfl
  | .plain p k, o, pc, h => enclosing_of_le k (Nat.le_add_right_of_le h)
  | .block kind bt body k, o, pc, h => by
    unfold Expr.enclosing
    rw [if_neg (by omega), enclosing_of_le k (by omega)]
  | .ifElse bt thn els k, o, pc, h => by
    unfold Expr.enclosing
    rw [if_neg (by omega), enclosing_of_le k (by omega)]

section
variable {t u : UInt8} {e k : Expr} {o pc : Nat} {hs : List Hole} {h : Hole}

theorem Opens.enclosing_inside (hop : Opens e o h) (hlo : h.start ≤ pc) (hhi : pc ≤ h.endPos) :
    ∃ inner, e.enclosing o pc = h.toBlockPos :: inner ∧
      (pc ≤ h.start + h.thn.bytes.length → inner = h.thn.enclosing h.start pc) ∧
      ∀ els elsePos, h.els = some els → h.elsePos = some elsePos → elsePos < pc →
      inner = els.enclosing (elsePos + 1) pc := by
  cases hop with
  | block => exact ⟨_, if_pos ⟨hlo, hhi⟩, fun _ => rfl, nofun⟩
  | ifElse =>
    refine ⟨_, if_pos ⟨hlo, hhi⟩, fun hle => if_pos hle, ?_⟩
    intro _ _ hels hpos hlt
    cases hels
    cases hpos
    exact if_neg (Nat.not_le.mpr hlt)

theorem Opens.enclosing_behind (hop : Opens e o h) (hlo : h.endPos < pc) :
    e.enclosing o pc = h.rest.enclosing (h.endPos + 1) pc := by
  cases hop with
  | block => exact if_neg fun hin => absurd hin.2 (Nat.not_le.mpr hlo)
  | ifElse => exact if_neg fun hin => absurd hin.2 (Nat.not_le.mpr hlo)

theorem Spot.bounds (sp : Spot t e o pc hs k u) : o ≤ pc ∧ pc + k.bytes.length ≤ o + e.bytes.length := by
  induction sp with
  | here => exact ⟨Nat.le_refl _, Nat.le_refl _⟩
  | afterPlain _ ih =>
    simp only [Expr.bytes, List.length_append]
    omega
  | after hop _ ih =>
    have := hop.length
    omega
  | inBody hop _ ih =>
    obtain ⟨h1, h2, h3⟩ := hop.length
    rcases h3 with ⟨_, _, h3⟩ | ⟨els, elsePos, _, _, h3, h4⟩ <;> omega
  | inElse hop hels hpos _ ih =>
    obtain ⟨h1, h2, h3⟩ := hop.length
    rcases h3 with ⟨h3, _⟩ | ⟨els, elsePos, h3, h3', h4, h5⟩
    · rw [hels] at h3
      cases h3
    · rw [hels] at h3
      rw [hpos] at h3'
      cases h3
      cases h3'
      omega

theorem Spot.enclosing (sp : Spot t e o pc hs k u) : e.enclosing o pc = hs.map Hole.toBlockPos := by
  induction sp with
  | here => exact enclosing_of_le _ (Nat.le_refl _)
  | afterPlain _ ih => exact ih
  | after hop sp ih =>
    have := sp.bounds
    rw [hop.enclosing_behind (by omega), ih]
  | inBody hop sp ih =>
    have hb := sp.bounds
    have hl := hop.length.2.2
    obtain ⟨inner, he, hthn, _⟩ :=
      hop.enclosing_inside hb.1 (by rcases hl with ⟨_, _, hl⟩ | ⟨_, _, _, _, hl, hl'⟩ <;> omega)
    rw [he, hthn (by omega), ih]
    rfl
  | @inElse t u e els r o pc elsePos h hs hop hels hpos sp ih =>
    have hb := sp.bounds
    rcases hop.length.2.2 with ⟨hn, _⟩ | ⟨els, elsePos, hels', hpos', hl, hl'⟩
    · rw [hels] at hn
      cases hn
    · rw [hels] at hels'
      rw [hpos] at hpos'
      cases hels'
      cases hpos'
      have hlo : h.start ≤ pc := by omega
      have hhi : pc ≤ h.endPos := by omega
      obtain ⟨inner, he, _, hin⟩ := hop.enclosing_inside hlo hhi
      rw [he, hin _ _ hels hpos (by omega), ih]
      rfl

end

end WasmOs
