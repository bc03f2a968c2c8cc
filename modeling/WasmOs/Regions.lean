import WasmOs.Fault

/-!
# Memory handed out by a cursor

An allocator that moves a cursor forward hands out regions one behind the other, each rounded up to its
alignment. Whatever such an allocator is asked for, what it hands out is disjoint.
-/

namespace Bump

open WasmOs

structure Region where
  start : Nat
  len : Nat
  deriving DecidableEq, Repr

namespace Region

def stop (r : Region) : Nat := r.start + r.len

def Disjoint (r s : Region) : Prop := r.stop ≤ s.start ∨ s.stop ≤ r.start

def Inside (r s : Region) : Prop := s.start ≤ r.start ∧ r.stop ≤ s.stop

/-- The same region `base` bytes higher. -/
def shift (base : Nat) (r : Region) : Region := ⟨base + r.start, r.len⟩

end Region

/-! ## Rounding up -/

/-- `a & !m` on `usize` -/
def andNot (a m : Nat) : Nat := (BitVec.ofNat 64 a &&& ~~~BitVec.ofNat 64 m).toNat

/-- The least multiple of `align` that is no less than `n`. -/
def alignUp (n align : Nat) : Nat := (n + (align - 1)) / align * align

theorem andNot_eq {a k : Nat} (ha : a < 2 ^ 64) : andNot a (2 ^ k - 1) = a / 2 ^ k * 2 ^ k := by
  apply Nat.eq_of_testBit_eq
  intro i
  rw [andNot, BitVec.testBit_toNat, BitVec.getLsbD_and, BitVec.getLsbD_not, BitVec.getLsbD_ofNat,
    BitVec.getLsbD_ofNat,
    Nat.testBit_mul_two_pow, ← Nat.shiftRight_eq_div_pow, Nat.testBit_shiftRight, Nat.testBit_two_pow_sub_one]
  by_cases hi : i < 64
  · by_cases hk : k ≤ i
    · simp [hi, hk, Nat.add_sub_cancel' hk]
    · simp [hi, hk, Nat.lt_of_not_le hk]
  · have hbit : a.testBit i = false :=
      Nat.testBit_lt_two_pow (Nat.lt_of_lt_of_le ha (Nat.pow_le_pow_right (by decide) (Nat.le_of_not_lt hi)))
    by_cases hk : k ≤ i
    · simp [hi, hk, Nat.add_sub_cancel' hk, hbit]
    · simp [hi, hk]

section
variable {n align p : Nat}

theorem dvd_alignUp : align ∣ alignUp n align := Nat.dvd_mul_left ..

theorem le_alignUp (h : 0 < align) : n ≤ alignUp n align := by
  have hdiv := Nat.div_add_mod (n + (align - 1)) align
  have hmod := Nat.mod_lt (n + (align - 1)) h
  rw [Nat.mul_comm] at hdiv
  unfold alignUp
  omega

theorem alignUp_lt (h : 0 < align) : alignUp n align < n + align := by
  have hle := Nat.div_mul_le_self (n + (align - 1)) align
  unfold alignUp
  omega

theorem alignUp_le (h : 0 < align) (hp : align ∣ p) (hn : n ≤ p) : alignUp n align ≤ p := by
  obtain ⟨q, rfl⟩ := hp
  have hlt := alignUp_lt (n := n) h
  unfold alignUp at hlt ⊢
  rw [Nat.mul_comm align q] at hn ⊢
  apply Nat.mul_le_mul_right
  by_contra hgt
  have hmul := Nat.mul_le_mul_right align (Nat.lt_of_not_le hgt)
  rw [Nat.succ_mul] at hmul
  omega

/-- There is room at the cursor exactly when there is room at some aligned place behind it. -/
theorem alignUp_fits {len size : Nat} (h : 0 < align) :
    alignUp n align + len ≤ size ↔ ∃ p, n ≤ p ∧ align ∣ p ∧ p + len ≤ size :=
  ⟨fun hfit => ⟨alignUp n align, le_alignUp h, dvd_alignUp, hfit⟩,
    fun ⟨_, hn, hp, hfit⟩ => Nat.le_trans (Nat.add_le_add_right (alignUp_le h hp hn) len) hfit⟩

end

/-! ## Regions one behind the other -/

/-- The regions lie one behind the other from `lo` to `hi`. -/
def Packed : Nat → List Region → Nat → Prop
  | lo, [], hi => lo ≤ hi
  | lo, r :: rs, hi => lo ≤ r.start ∧ Packed r.stop rs hi

/-- What one call may do: hand out a region behind the cursor, or leave the cursor at most further on. -/
def Advance (lo hi : Nat) : Option Region → Prop
  | none => lo ≤ hi
  | some r => lo ≤ r.start ∧ r.stop ≤ hi

namespace Packed
variable {lo hi : Nat} {rs : List Region}

theorem lower {lo' : Nat} (h : Packed lo rs hi) (hle : lo' ≤ lo) : Packed lo' rs hi := by
  cases rs with
  | nil => exact Nat.le_trans hle h
  | cons r rs => exact ⟨Nat.le_trans hle h.1, h.2⟩

theorem start_le (h : Packed lo rs hi) : ∀ r ∈ rs, lo ≤ r.start := by
  induction rs generalizing lo with
  | nil => nofun
  | cons s rs ih =>
    intro r hr
    rcases List.mem_cons.mp hr with rfl | hr
    · exact h.1
    · exact Nat.le_trans (Nat.le_trans h.1 (Nat.le_add_right ..)) (ih h.2 r hr)

theorem stop_le (h : Packed lo rs hi) : ∀ r ∈ rs, r.stop ≤ hi := by
  have hle : ∀ {rs : List Region} {lo : Nat}, Packed lo rs hi → lo ≤ hi := by
    intro rs
    induction rs with
    | nil => exact fun h => h
    | cons r rs ih => exact fun h => Nat.le_trans h.1 (Nat.le_trans (Nat.le_add_right ..) (ih h.2))
  induction rs generalizing lo with
  | nil => nofun
  | cons s rs ih =>
    intro r hr
    rcases List.mem_cons.mp hr with rfl | hr
    · exact hle h.2
    · exact ih h.2 r hr

theorem pairwise (h : Packed lo rs hi) : rs.Pairwise Region.Disjoint := by
  induction rs generalizing lo with
  | nil => exact .nil
  | cons r rs ih => exact .cons (fun s hs => .inl (h.2.start_le s hs)) (ih h.2)

end Packed

/-! ## Runs -/

section
variable {ε σ α β : Type} (step : σ → α → Rust ε (β × σ))

/-- The requests of a run with their answers, and the state at its end. -/
def trace : σ → List α → Rust ε (List (α × β) × σ)
  | s, [] => .ok ([], s)
  | s, a :: as => do
    let (b, s) ← step s a
    let (t, s) ← trace s as
    .ok ((a, b) :: t, s)

variable {step} {s s' : σ} {t : List (α × β)}

theorem trace_cons {a : α} {as : List α} : trace step s (a :: as) = .ok (t, s') ↔
    ∃ b s₁ t₁, step s a = .ok (b, s₁) ∧ trace step s₁ as = .ok (t₁, s') ∧ t = (a, b) :: t₁ := by
  constructor
  · intro h
    obtain ⟨⟨b, s₁⟩, hstep, h⟩ := bind_eq_ok.mp h
    obtain ⟨⟨t₁, s₂⟩, htrace, h⟩ := bind_eq_ok.mp h
    cases h
    exact ⟨b, s₁, t₁, hstep, htrace, rfl⟩
  · rintro ⟨b, s₁, t₁, hstep, htrace, rfl⟩
    rw [trace, hstep, bind_ok]
    dsimp only
    rw [htrace, bind_ok]

theorem trace_total {I : σ → Prop} {ok : α → Prop}
    (hstep : ∀ s a, I s → ok a → ∃ b s', step s a = .ok (b, s') ∧ I s') {as : List α}
    (hs : I s) (has : ∀ a ∈ as, ok a) : ∃ t s', trace step s as = .ok (t, s') ∧ I s' := by
  induction as generalizing s with
  | nil => exact ⟨[], s, rfl, hs⟩
  | cons a as ih =>
    obtain ⟨b, s₁, h₁, hI⟩ := hstep s a hs (has a (List.mem_cons_self ..))
    obtain ⟨t, s', h, hI'⟩ := ih hI fun a ha => has a (List.mem_cons_of_mem _ ha)
    exact ⟨(a, b) :: t, s', trace_cons.mpr ⟨b, s₁, t, h₁, h, rfl⟩, hI'⟩

theorem packed_trace {I : σ → Prop} {ok : α → Prop} (cursor : σ → Nat) (region : α × β → Option Region)
    (hstep : ∀ s a b s', I s → ok a → step s a = .ok (b, s') →
      I s' ∧ Advance (cursor s) (cursor s') (region (a, b))) {as : List α}
    (hs : I s) (has : ∀ a ∈ as, ok a) (h : trace step s as = .ok (t, s')) :
    Packed (cursor s) (t.filterMap region) (cursor s') := by
  induction as generalizing s t with
  | nil =>
    cases h
    exact Nat.le_refl _
  | cons a as ih =>
    obtain ⟨b, s₁, t₁, h₁, htail, rfl⟩ := trace_cons.mp h
    obtain ⟨hI, hadv⟩ := hstep s a b s₁ hs (has a (List.mem_cons_self ..)) h₁
    have hrest := ih hI (fun a ha => has a (List.mem_cons_of_mem _ ha)) htail
    rw [List.filterMap_cons]
    cases hr : region (a, b) with
    | none =>
      rw [hr] at hadv
      exact hrest.lower hadv
    | some r =>
      rw [hr] at hadv
      exact ⟨hadv.1, hrest.lower hadv.2⟩

/-- What a step puts in place and every later step leaves in place is there at the end. -/
theorem trace_kept {I : σ → Prop} {ok : α → Prop} {K : α → β → σ → Prop}
    (hnew : ∀ s a b s', I s → ok a → step s a = .ok (b, s') → I s' ∧ K a b s')
    (hold : ∀ s a b s' a' b', I s → ok a → step s a = .ok (b, s') → K a' b' s → K a' b' s') {as : List α} (hs : I s)
    (has : ∀ a ∈ as, ok a) (h : trace step s as = .ok (t, s')) : ∀ p ∈ t, K p.1 p.2 s' := by
  have hkept : ∀ {as : List α} {s : σ} {t : List (α × β)} {a : α} {b : β}, I s → (∀ a ∈ as, ok a) → K a b s →
      trace step s as = .ok (t, s') → K a b s' := by
    intro as
    induction as with
    | nil =>
      intro s t a b _ _ hK h
      cases h
      exact hK
    | cons a₁ as ih =>
      intro s t a b hs has hK h
      obtain ⟨b₁, s₁, t₁, h₁, htail, rfl⟩ := trace_cons.mp h
      have ha₁ := has a₁ (List.mem_cons_self ..)
      exact ih (hnew s a₁ b₁ s₁ hs ha₁ h₁).1 (fun a ha => has a (List.mem_cons_of_mem _ ha))
        (hold s a₁ b₁ s₁ a b hs ha₁ h₁ hK) htail
  induction as generalizing s t with
  | nil =>
    cases h
    nofun
  | cons a as ih =>
    obtain ⟨b, s₁, t₁, h₁, htail, rfl⟩ := trace_cons.mp h
    obtain ⟨hI, hK⟩ := hnew s a b s₁ hs (has a (List.mem_cons_self ..)) h₁
    have has' : ∀ a ∈ as, ok a := fun a ha => has a (List.mem_cons_of_mem _ ha)
    intro p hp
    rcases List.mem_cons.mp hp with rfl | hp
    · exact hkept hI has' hK htail
    · exact ih hI has' htail p hp

variable (step) in
/-- Every step of the run is one of `C`. -/
def Along (C : σ → α → β → σ → Prop) : σ → List α → Prop
  | _, [] => True
  | s, a :: as => ∀ b s', step s a = .ok (b, s') → C s a b s' ∧ Along C s' as

theorem Along.of_forall {I : σ → Prop} {C : σ → α → β → σ → Prop}
    (hstep : ∀ s a b s', I s → step s a = .ok (b, s') → C s a b s' ∧ I s') {as : List α}
    (hs : I s) : Along step C s as := by
  induction as generalizing s with
  | nil => trivial
  | cons a as ih =>
    intro b s' h
    obtain ⟨hC, hI⟩ := hstep s a b s' hs h
    exact ⟨hC, ih hI⟩

theorem Along.iff_of_forall {I : σ → Prop} {C D : σ → α → β → σ → Prop}
    (hstep : ∀ s a b s', I s → step s a = .ok (b, s') → (C s a b s' ↔ D s a b s') ∧ I s') {as : List α} (hs : I s) :
    Along step C s as ↔ Along step D s as := by
  induction as generalizing s with
  | nil => exact Iff.rfl
  | cons a as ih =>
    refine forall_congr' fun b => forall_congr' fun s' => imp_congr_right fun h => ?_
    obtain ⟨hCD, hI⟩ := hstep s a b s' hs h
    exact and_congr hCD (ih hI)

theorem trace_forall_iff {P : α → β → Prop} {as : List α} (h : trace step s as = .ok (t, s')) :
    (∀ p ∈ t, P p.1 p.2) ↔ Along step (fun _ a b _ => P a b) s as := by
  induction as generalizing s t with
  | nil =>
    cases h
    exact ⟨fun _ => trivial, fun _ => nofun⟩
  | cons a as ih =>
    obtain ⟨b, s₁, t₁, h₁, htail, rfl⟩ := trace_cons.mp h
    rw [List.forall_mem_cons, ih htail]
    refine ⟨fun hall b' s₂ h₂ => ?_, fun hall => hall b s₁ h₁⟩
    cases h₁.symm.trans h₂
    exact hall

end

end Bump
