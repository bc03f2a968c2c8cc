import WasmOs.Engine

/-!
# When instantiation ends

Every parser is a loop over a cursor. A round fails to end only at a slice that starts past the end
of its section or at an offset that leaves the address space; each section below has the condition
under which no round does. `Instantiable` puts them together in the order of `instantiate`: a
condition counts only if every parser before it succeeds.
-/

namespace WasmOs

/-! ## Types -/

/-- The parameter types of the type entry at `cur` end in the section. -/
def ParamsFit (bytes : List UInt8) (cur : Nat) : Prop :=
  ∀ paramCount n, cur < bytes.length → readU32Leb128 (bytes.drop (cur + 1)) = some (paramCount, n) →
    cur + 1 + n + paramCount ≤ bytes.length

/-- Every type entry that is reached has its parameter types in the section. -/
def TypesFit (bytes : List UInt8) : Prop :=
  ∀ count start, readU32Leb128 bytes = some (count, start) → count ≤ MAX_TYPES →
    ∀ j cur, j < count → EntryAt (parseTypeSection.step bytes) (start, []) j cur → ParamsFit bytes cur

section
variable {bytes : List UInt8} (hfit : Fits bytes)
include hfit

theorem total_typeStep {cur : Nat} {types : List (Nat × Nat)} :
    (parseTypeSection.step bytes (cur, types)).Total ↔ ParamsFit bytes cur := by
  have hlen : bytes.length < 2 ^ 63 := hfit
  unfold parseTypeSection.step
  by_cases hcur : bytes.length ≤ cur
  · simp only [hcur, if_true, total_err, true_iff]
    intro _ _ h; omega
  simp only [hcur, if_false]
  rw [uadd_of_lt (by omega), bind_ok, total_bind, total_readU32 hfit]
  refine ⟨fun h pc n _ hr => ?_, fun h => ⟨by omega, fun r hpc => ?_⟩⟩
  · obtain ⟨hv, hn, hle⟩ := readU32Leb128_bounds hr
    rw [List.length_drop] at hle
    have := h.2 (pc, cur + 1 + n) ((readU32_eq_ok hfit).mpr ⟨by omega, n, hr, rfl⟩)
    simp only at this
    rw [uadd_of_lt (by omega), bind_ok, total_bind, total_readU32 hfit] at this
    exact this.1
  · obtain ⟨pc, c⟩ := r
    have hb := readU32_bounds hfit hpc
    obtain ⟨_, n, hr, rfl⟩ := (readU32_eq_ok hfit).mp hpc
    have hpar := h pc n (by omega) hr
    simp only
    rw [uadd_of_lt (by omega), bind_ok]
    refine total_bind.mpr ⟨(total_readU32 hfit).mpr hpar, fun r hrc => ?_⟩
    obtain ⟨rc, c'⟩ := r
    have hb' := readU32_bounds hfit hrc
    simp only
    rw [uadd_of_lt (by omega)]
    simp

theorem total_parseTypeSection : (parseTypeSection bytes).Total ↔ TypesFit bytes := by
  unfold parseTypeSection TypesFit
  rw [total_header hfit]
  refine forall_congr' fun count => forall_congr' fun start => forall_congr' fun hr => ?_
  by_cases hc : MAX_TYPES < count
  · simp only [if_pos hc]
    exact iff_of_true (total_err _) fun hle => absurd hle (Nat.not_le.mpr hc)
  · simp only [hc, if_false, total_bind, total_ok, implies_true, and_true]
    rw [total_entries (I := fun _ _ => True) (G := fun _ => ParamsFit bytes) (fun _ _ _ _ _ => trivial) trivial
      fun _ _ _ _ _ => total_typeStep hfit]
    simp [Nat.le_of_not_lt hc]

/-! ## Functions -/

theorem total_parseFunctionSection : (parseFunctionSection bytes).Total := by
  unfold parseFunctionSection
  refine (total_header hfit).mpr fun count start hr => ?_
  simp only
  split
  · simp
  refine total_bind.mpr ⟨?_, fun _ _ => by simp⟩
  refine (total_entries (I := fun _ s => s.1 ≤ bytes.length) (G := fun _ _ => True) ?_ ?_ ?_).mpr
    fun _ _ _ _ => trivial
  · rintro j ⟨cur, out⟩ s' _ h
    obtain ⟨⟨v, c⟩, hv, h⟩ := bind_eq_ok.mp h
    cases h
    exact (readU32_bounds hfit hv).2.2
  · exact (readU32Leb128_bounds hr).2.2
  · intro j cur out _ hcur
    refine iff_true_intro (total_bind.mpr ⟨(total_readU32 hfit).mpr hcur, fun _ _ => by simp⟩)

end

/-! ## Code -/

/-- Every local group that is reached starts in the entry: a group before it has its type byte. -/
def LocalsFit (entry : List UInt8) : Prop :=
  ∀ groups start, readU32Leb128 entry = some (groups, start) →
    ∀ j lc, j < groups → EntryAt (parseLocals.step entry) (start, 0) j lc → lc ≤ entry.length

/-- The local groups of the code entry at `cur` are in the entry. -/
def CodeEntryFit (bytes : List UInt8) (cur : Nat) : Prop :=
  ∀ size n, readU32Leb128 (bytes.drop cur) = some (size, n) → cur + n + size ≤ bytes.length →
    LocalsFit ((bytes.drop (cur + n)).take size)

/-- Every code entry that is reached has its local groups in it. -/
def CodeFit (bytes : List UInt8) : Prop :=
  ∀ count start, readU32Leb128 bytes = some (count, start) → count ≤ MAX_FUNCS →
    ∀ j cur, j < count → EntryAt (parseCodeSection.step bytes) (start, []) j cur → CodeEntryFit bytes cur

section
variable {bytes : List UInt8} (hfit : Fits bytes)
include hfit

/-- `groups` local groups declare fewer than `2 ^ 64` locals. -/
theorem parseLocals_step {j lc total : Nat} (hj : j < 2 ^ 32) (ht : total ≤ j * 2 ^ 32) :
    ((parseLocals.step bytes (lc, total)).Total ↔ lc ≤ bytes.length) ∧
    ∀ s', parseLocals.step bytes (lc, total) = .ok s' → s'.2 ≤ (j + 1) * 2 ^ 32 := by
  have hlen : bytes.length < 2 ^ 63 := hfit
  unfold parseLocals.step
  by_cases hlc : lc ≤ bytes.length
  · simp only [sliceFrom, hlc, if_true, bind_ok, iff_true]
    cases hr : readU32Leb128 (bytes.drop lc) with
    | none => simp [okOr]
    | some p =>
      obtain ⟨hv, _, hn⟩ := readU32Leb128_bounds hr
      rw [List.length_drop] at hn
      have hgroup : total + p.1 < 2 ^ 64 := by
        have : j * 2 ^ 32 ≤ (2 ^ 32 - 1) * 2 ^ 32 := Nat.mul_le_mul_right _ (by omega)
        omega
      simp only [okOr, bind_ok]
      rw [uadd_of_lt (by omega), bind_ok, uadd_of_lt (by omega), bind_ok, uadd_of_lt hgroup]
      refine ⟨by simp, fun s' hs' => ?_⟩
      cases hs'
      simp only [Nat.add_mul]; omega
  · simp [sliceFrom, hlc, Rust.Total]

theorem total_parseCodeEntry : (parseCodeEntry bytes).Total ↔ LocalsFit bytes := by
  unfold parseCodeEntry LocalsFit
  rw [total_header hfit]
  refine forall_congr' fun groups => forall_congr' fun start => forall_congr' fun hr => ?_
  have hgroups := (readU32Leb128_bounds hr).1
  simp only [total_bind]
  rw [total_entries (I := fun j s => s.2 ≤ j * 2 ^ 32 ∨ groups < j) (G := fun _ lc => lc ≤ bytes.length) ?_
    (.inl (Nat.zero_le _)) ?_]
  · refine ⟨fun h => h.1, fun h => ⟨h, ?_⟩⟩
    rintro ⟨lc, total⟩ _
    simp only
    split <;> simp
  · rintro j ⟨lc, total⟩ s' hI hs'
    by_cases hj : j < groups
    · exact .inl ((parseLocals_step hfit (by omega) (hI.resolve_right (by omega))).2 s' hs')
    · exact .inr (by omega)
  · rintro j lc total hj hI
    exact (parseLocals_step hfit (by omega) (hI.resolve_right (by omega))).1

theorem total_codeStep {cur : Nat} {bodies : List (List UInt8 × Nat)} (hcur : cur ≤ bytes.length) :
    (parseCodeSection.step bytes (cur, bodies)).Total ↔ CodeEntryFit bytes cur := by
  have hlen : bytes.length < 2 ^ 63 := hfit
  unfold parseCodeSection.step CodeEntryFit
  rw [total_bind, total_readU32 hfit]
  simp only [hcur, true_and, Prod.forall, readU32_eq_ok hfit]
  refine forall_congr' fun size => ⟨fun h n hr hle => ?_, ?_⟩
  · have := h (cur + n) ⟨n, hr, rfl⟩
    rw [uadd_of_lt (by omega), bind_ok, if_neg (by omega), total_bind] at this
    refine (total_parseCodeEntry ?_).mp this.1
    unfold Fits; simp only [List.length_take, List.length_drop]; omega
  · rintro h c ⟨n, hr, rfl⟩
    obtain ⟨hv, _, hn⟩ := readU32Leb128_bounds hr
    rw [List.length_drop] at hn
    rw [uadd_of_lt (by omega), bind_ok]
    split
    · simp
    · refine total_bind.mpr ⟨(total_parseCodeEntry ?_).mpr (h n hr (by omega)), fun _ _ => by simp⟩
      unfold Fits; simp only [List.length_take, List.length_drop]; omega

theorem total_parseCodeSection : (parseCodeSection bytes).Total ↔ CodeFit bytes := by
  unfold parseCodeSection CodeFit
  rw [total_header hfit]
  refine forall_congr' fun count => forall_congr' fun start => forall_congr' fun hr => ?_
  by_cases hc : MAX_FUNCS < count
  · simp only [if_pos hc]
    exact iff_of_true (total_err _) fun hle => absurd hle (Nat.not_le.mpr hc)
  · simp only [hc, if_false, total_bind, total_ok, implies_true, and_true]
    rw [total_entries (I := fun _ s => s.1 ≤ bytes.length) (G := fun _ => CodeEntryFit bytes) ?_
      (readU32Leb128_bounds hr).2.2
      fun _ _ _ _ => total_codeStep hfit]
    · simp [Nat.le_of_not_lt hc]
    · rintro j ⟨cur, bodies⟩ s' _ hs'
      unfold parseCodeSection.step at hs'
      obtain ⟨⟨size, c⟩, _, hs'⟩ := bind_eq_ok.mp hs'
      obtain ⟨stop, _, hs'⟩ := bind_eq_ok.mp hs'
      split at hs'
      · cases hs'
      · obtain ⟨_, _, hs'⟩ := bind_eq_ok.mp hs'
        cases hs'
        show stop ≤ bytes.length
        omega

end

/-! ## Imports -/

/-- Every import entry that is reached starts in the section: a global import before it has its two bytes. -/
def ImportsFit (bytes : List UInt8) : Prop :=
  ∀ count start, readU32Leb128 bytes = some (count, start) →
    ∀ j cur, j < count → EntryAt (countFuncImports.step (ε := RunError) bytes) (start, 0) j cur → cur ≤ bytes.length

/-- The module name of the import entry at `cur` ends in the section. -/
def ModuleNameFit (bytes : List UInt8) (cur : Nat) : Prop :=
  ∀ modLen n, readU32Leb128 (bytes.drop cur) = some (modLen, n) → cur + n + modLen ≤ bytes.length

def ModuleNamesFit (bytes : List UInt8) : Prop :=
  ∀ count start, readU32Leb128 bytes = some (count, start) →
    ∀ j cur, j < count → EntryAt (parseImportFuncTypes.step bytes) (start, []) j cur → ModuleNameFit bytes cur

section
variable {bytes : List UInt8} (hfit : Fits bytes)
include hfit

theorem total_skipLimits {ε : Type} {e : ε} {cur : Nat} :
    (skipLimits bytes e cur).Total ∧ ∀ c, skipLimits bytes e cur = .ok c → cur ≤ c := by
  have hlen : bytes.length < 2 ^ 63 := hfit
  unfold skipLimits
  cases hb : bytes[cur]? with
  | none => simp [okOr]
  | some flag =>
    have hcur : cur < bytes.length := by
      by_contra h
      rw [List.getElem?_eq_none (by omega)] at hb
      cases hb
    simp only [okOr, bind_ok]
    rw [uadd_of_lt (by omega), bind_ok]
    refine ⟨total_bind.mpr ⟨(total_readU32 hfit).mpr (by omega), fun r hc => ?_⟩, fun c h => ?_⟩
    · obtain ⟨v, c⟩ := r
      have := readU32_bounds hfit hc
      simp only
      split
      · simp
      · exact total_bind.mpr ⟨(total_readU32 hfit).mpr (by omega), fun _ _ => by simp⟩
    · obtain ⟨⟨v, c'⟩, hc', h⟩ := bind_eq_ok.mp h
      have := readU32_bounds hfit hc'
      simp only at h
      split at h
      · cases h; omega
      · obtain ⟨⟨v', c''⟩, hc'', h⟩ := bind_eq_ok.mp h
        cases h
        have := readU32_bounds hfit hc''
        show cur ≤ c''
        omega

theorem total_skipImportDesc {ε : Type} {e : ε} {kind : UInt8} {cur : Nat} (hcur : cur ≤ bytes.length) :
    (skipImportDesc bytes e kind cur).Total ∧ ∀ c, skipImportDesc bytes e kind cur = .ok c → cur ≤ c := by
  have hlen : bytes.length < 2 ^ 63 := hfit
  unfold skipImportDesc
  split
  · rw [uadd_of_lt (by omega), bind_ok]
    exact ⟨(total_skipLimits hfit).1, fun c h => Nat.le_of_succ_le ((total_skipLimits hfit).2 c h)⟩
  · split
    · exact total_skipLimits hfit
    · split
      · rw [uadd_of_lt (by omega)]
        exact ⟨by simp, fun c h => by cases h; omega⟩
      · simp

/-- The three walkers over the import section read an entry from `cur` to `next` in the same way. -/
def ImportEntry (bytes : List UInt8) (cur next : Nat) : Prop :=
  ∃ modLen c nameLen c' kind, readU32 bytes () cur = .ok (modLen, c) ∧ c + modLen ≤ bytes.length ∧
    readU32 bytes () (c + modLen) = .ok (nameLen, c') ∧ bytes[c' + nameLen]? = some kind ∧
    (kind = 0 ∧ (∃ t, readU32 bytes () (c' + nameLen + 1) = .ok (t, next)) ∨
      kind ≠ 0 ∧ skipImportDesc bytes () kind (c' + nameLen + 1) = .ok next)

omit hfit in
theorem skipLimits_err {ε δ : Type} {e : ε} (d : δ) {cur : Nat} :
    skipLimits bytes d cur = mapErr (fun _ => d) (skipLimits bytes e cur) := by
  simp only [skipLimits, mapErr_bind, mapErr_okOr, mapErr_uadd, mapErr_ite, readU32_err (e := e) d, mapErr_ok]

omit hfit in
theorem skipImportDesc_err {ε δ : Type} {e : ε} (d : δ) {kind : UInt8} {cur : Nat} :
    skipImportDesc bytes d kind cur = mapErr (fun _ => d) (skipImportDesc bytes e kind cur) := by
  simp only [skipImportDesc, mapErr_bind, mapErr_uadd, mapErr_ite, skipLimits_err (e := e) d, mapErr_err]

theorem countStep_of_entry {ε : Type} {cur next fc : Nat} (hfc : fc ≤ cur) (h : ImportEntry bytes cur next) :
    ∃ fc', countFuncImports.step (ε := ε) bytes (cur, fc) = .ok (next, fc') ∧ fc' ≤ next := by
  have hlen : bytes.length < 2 ^ 63 := hfit
  obtain ⟨modLen, c, nameLen, c', kind, hm, hfitm, hn, hk, hdesc⟩ := h
  have hb := readU32_bounds hfit hm
  have hb' := readU32_bounds hfit hn
  have hkl := getElem?_lt hk
  simp only [countFuncImports.step]
  rw [readU32_err _, hm, mapErr_ok, bind_ok]
  simp only
  rw [uadd_of_lt (by omega), bind_ok, if_neg (by omega), readU32_err _, hn, mapErr_ok, bind_ok]
  simp only
  rw [uadd_of_lt (by omega), bind_ok, hk, okOr, bind_ok, uadd_of_lt (by omega), bind_ok]
  rcases hdesc with ⟨rfl, t, ht⟩ | ⟨hk0, hd⟩
  · have := readU32_bounds hfit ht
    rw [if_pos rfl, readU32_err _, ht, mapErr_ok, bind_ok, uadd_of_lt (by omega)]
    exact ⟨fc + 1, rfl, by omega⟩
  · have := (total_skipImportDesc hfit (by omega)).2 next hd
    rw [if_neg hk0, skipImportDesc_err _, hd, mapErr_ok]
    exact ⟨fc, rfl, by omega⟩

theorem total_countStep {ε : Type} {cur fc : Nat} (hfc : fc ≤ cur) :
    ((countFuncImports.step (ε := ε) bytes (cur, fc)).Total ↔ cur ≤ bytes.length) ∧
    ∀ s', countFuncImports.step (ε := ε) bytes (cur, fc) = .ok s' → s'.2 ≤ s'.1 := by
  have hlen : bytes.length < 2 ^ 63 := hfit
  simp only [countFuncImports.step]
  refine ⟨⟨fun h => (total_readU32 hfit).mp (total_bind.mp h).1, fun hcur => ?_⟩, fun s' h => ?_⟩
  · refine total_bind.mpr ⟨(total_readU32 hfit).mpr hcur, fun ⟨ml, c⟩ hm => ?_⟩
    have hb := readU32_bounds hfit hm
    simp only
    rw [uadd_of_lt (by omega), bind_ok]
    split
    · simp
    refine total_bind.mpr ⟨(total_readU32 hfit).mpr (by omega), fun ⟨nl, c'⟩ hn => ?_⟩
    have hb' := readU32_bounds hfit hn
    simp only
    rw [uadd_of_lt (by omega), bind_ok]
    refine total_bind.mpr ⟨by simp, fun kind hk => ?_⟩
    have hkl := getElem?_lt (okOr_eq_ok.mp hk)
    rw [uadd_of_lt (by omega), bind_ok]
    split
    · refine total_bind.mpr ⟨(total_readU32 hfit).mpr (by omega), fun ⟨t, c''⟩ ht => ?_⟩
      rw [uadd_of_lt (by omega)]
      simp
    · exact total_bind.mpr ⟨(total_skipImportDesc hfit (by omega)).1, fun _ _ => by simp⟩
  · obtain ⟨⟨ml, c⟩, hm, h⟩ := bind_eq_ok.mp h
    have hb := readU32_bounds hfit hm
    obtain ⟨c1, h1, h⟩ := bind_eq_ok.mp h
    obtain ⟨_, rfl⟩ := uadd_eq_ok.mp h1
    split at h
    · cases h
    obtain ⟨⟨nl, c'⟩, hn, h⟩ := bind_eq_ok.mp h
    have hb' := readU32_bounds hfit hn
    obtain ⟨c2, h2, h⟩ := bind_eq_ok.mp h
    obtain ⟨_, rfl⟩ := uadd_eq_ok.mp h2
    obtain ⟨kind, hk, h⟩ := bind_eq_ok.mp h
    have hkl := getElem?_lt (okOr_eq_ok.mp hk)
    obtain ⟨c3, h3, h⟩ := bind_eq_ok.mp h
    obtain ⟨_, rfl⟩ := uadd_eq_ok.mp h3
    simp only at hkl h3 h
    split at h
    · obtain ⟨⟨t, c''⟩, ht, h⟩ := bind_eq_ok.mp h
      obtain ⟨fc', hf, h⟩ := bind_eq_ok.mp h
      obtain ⟨_, rfl⟩ := uadd_eq_ok.mp hf
      cases h
      have := readU32_bounds hfit ht
      show fc + 1 ≤ c''
      omega
    · obtain ⟨c'', hd, h⟩ := bind_eq_ok.mp h
      cases h
      have := (total_skipImportDesc hfit (by omega)).2 c'' hd
      show fc ≤ c''
      omega

theorem total_countFuncImports : (countFuncImports (ε := RunError) bytes).Total ↔ ImportsFit bytes := by
  unfold countFuncImports ImportsFit
  simp only [total_bind, total_orReturn, total_ok, implies_true, and_true]
  rw [← total_bind, total_header hfit]
  refine forall_congr' fun count => forall_congr' fun start => forall_congr' fun hr => ?_
  exact total_entries (I := fun _ s => s.2 ≤ s.1) (G := fun _ cur => cur ≤ bytes.length)
    (fun _ _ s' hI h => (total_countStep hfit hI).2 s' h) (Nat.zero_le _)
    fun _ _ _ _ hI => (total_countStep hfit hI).1

/-- A round of `for_each_func_import` reads an entry, and ends if it starts in the section. -/
theorem forEachStep {ε : Type} {cur : Nat} {acc : ImportNames} :
    (cur ≤ bytes.length → (forEachFuncImport.step (ε := ε) bytes (cur, acc)).Total) ∧
    ∀ s', forEachFuncImport.step (ε := ε) bytes (cur, acc) = .ok s' → ImportEntry bytes cur s'.1 := by
  have hlen : bytes.length < 2 ^ 63 := hfit
  simp only [forEachFuncImport.step]
  refine ⟨fun hcur => ?_, fun s' h => ?_⟩
  · refine total_bind.mpr ⟨(total_readU32 hfit).mpr hcur, fun ⟨ml, c⟩ hm => ?_⟩
    have hb := readU32_bounds hfit hm
    simp only
    rw [uadd_of_lt (by omega), bind_ok]
    split
    · simp
    split
    · simp
    refine total_bind.mpr ⟨(total_readU32 hfit).mpr (by omega), fun ⟨nl, c'⟩ hn => ?_⟩
    have hb' := readU32_bounds hfit hn
    simp only
    rw [uadd_of_lt (by omega), bind_ok]
    split
    · simp
    split
    · simp
    refine total_bind.mpr ⟨by simp, fun kind hk => ?_⟩
    have hkl := getElem?_lt (okOr_eq_ok.mp hk)
    rw [uadd_of_lt (by omega), bind_ok]
    split
    · exact total_bind.mpr ⟨(total_readU32 hfit).mpr (by omega), fun _ _ => by simp⟩
    · exact total_bind.mpr ⟨(total_skipImportDesc hfit (by omega)).1, fun _ _ => by simp⟩
  · obtain ⟨⟨ml, c⟩, hm, h⟩ := bind_eq_ok.mp h
    obtain ⟨c1, h1, h⟩ := bind_eq_ok.mp h
    obtain ⟨_, rfl⟩ := uadd_eq_ok.mp h1
    split at h
    · cases h
    rename_i hmod
    split at h
    · cases h
    obtain ⟨⟨nl, c'⟩, hn, h⟩ := bind_eq_ok.mp h
    obtain ⟨c2, h2, h⟩ := bind_eq_ok.mp h
    obtain ⟨_, rfl⟩ := uadd_eq_ok.mp h2
    split at h
    · cases h
    split at h
    · cases h
    obtain ⟨kind, hk, h⟩ := bind_eq_ok.mp h
    obtain ⟨c3, h3, h⟩ := bind_eq_ok.mp h
    obtain ⟨_, rfl⟩ := uadd_eq_ok.mp h3
    refine ⟨ml, c, nl, c', kind, by rw [readU32_err _, hm]; rfl, by simp only at hmod; omega,
      by rw [readU32_err _, hn]; rfl, okOr_eq_ok.mp hk, ?_⟩
    split at h
    · rename_i h0
      obtain ⟨⟨t, c''⟩, ht, h⟩ := bind_eq_ok.mp h
      cases h
      exact .inl ⟨h0, t, by rw [readU32_err _, ht]; rfl⟩
    · rename_i h0
      obtain ⟨c'', hd, h⟩ := bind_eq_ok.mp h
      cases h
      exact .inr ⟨h0, by rw [skipImportDesc_err _, hd]; rfl⟩

/-- A walker that reads the entries `count_func_imports` reads starts each of them in the section. -/
theorem entry_le {ε α : Type} {step : Nat × α → Rust ε (Nat × α)} {a : α} {count start j cur : Nat}
    (hentry : ∀ cur a s', step (cur, a) = .ok s' → ImportEntry bytes cur s'.1) (himp : ImportsFit bytes)
    (hr : readU32Leb128 bytes = some (count, start)) (hj : j < count) (hat : EntryAt step (start, a) j cur) :
    cur ≤ bytes.length := by
  obtain ⟨a', hat⟩ := hat
  have hsim : ∀ (s : Nat × α) (t : Nat × Nat) s', s.1 = t.1 ∧ t.2 ≤ t.1 → step s = .ok s' →
      ∃ t', countFuncImports.step (ε := RunError) bytes t = .ok t' ∧ s'.1 = t'.1 ∧ t'.2 ≤ t'.1 := by
    rintro ⟨cur, a⟩ ⟨cur', fc⟩ s' ⟨rfl, hfc⟩ hs'
    obtain ⟨fc', h, hle⟩ := countStep_of_entry hfit hfc (hentry _ _ _ hs')
    exact ⟨_, h, rfl, hle⟩
  obtain ⟨⟨cur', fc⟩, hc, rfl, _⟩ := iter_simulation (t := (start, 0)) hsim ⟨rfl, Nat.zero_le _⟩ hat
  exact himp count start hr j _ hj ⟨fc, hc⟩

theorem total_forEachFuncImport {ε : Type} (himp : ImportsFit bytes) :
    (forEachFuncImport (ε := ε) bytes).Total := by
  unfold forEachFuncImport
  simp only [total_bind, total_orReturn, total_ok, implies_true, and_true]
  rw [← total_bind, total_header hfit]
  intro count start hr
  refine total_iter.mpr fun j hj s hs' => ?_
  obtain ⟨cur, acc⟩ := s
  refine (forEachStep hfit).1 ?_
  exact entry_le hfit (fun _ _ _ h => (forEachStep hfit).2 _ h) himp hr hj ⟨acc, hs'⟩

theorem importTypesStep {cur : Nat} {out : List Nat} :
    (cur ≤ bytes.length → ((parseImportFuncTypes.step bytes (cur, out)).Total ↔ ModuleNameFit bytes cur)) ∧
    ∀ s', parseImportFuncTypes.step bytes (cur, out) = .ok s' → ImportEntry bytes cur s'.1 := by
  have hlen : bytes.length < 2 ^ 63 := hfit
  simp only [parseImportFuncTypes.step]
  refine ⟨fun hcur => ⟨fun h ml n hr => ?_, fun hname => ?_⟩, fun s' h => ?_⟩
  · obtain ⟨hv, _, hn⟩ := readU32Leb128_bounds hr
    rw [List.length_drop] at hn
    have := (total_bind.mp h).2 (ml, cur + n) ((readU32_eq_ok hfit).mpr ⟨hcur, n, hr, rfl⟩)
    simp only at this
    rw [uadd_of_lt (by omega), bind_ok, total_bind, total_readU32 hfit] at this
    exact this.1
  · refine total_bind.mpr ⟨(total_readU32 hfit).mpr hcur, fun ⟨ml, c⟩ hm => ?_⟩
    have hb := readU32_bounds hfit hm
    obtain ⟨_, n, hr, rfl⟩ := (readU32_eq_ok hfit).mp hm
    have := hname ml n hr
    simp only
    rw [uadd_of_lt (by omega), bind_ok]
    refine total_bind.mpr ⟨(total_readU32 hfit).mpr (by omega), fun ⟨nl, c'⟩ hn => ?_⟩
    have hb' := readU32_bounds hfit hn
    simp only
    rw [uadd_of_lt (by omega), bind_ok]
    refine total_bind.mpr ⟨by simp, fun kind hk => ?_⟩
    have hkl := getElem?_lt (okOr_eq_ok.mp hk)
    rw [uadd_of_lt (by omega), bind_ok]
    split
    · exact total_bind.mpr ⟨(total_readU32 hfit).mpr (by omega), fun _ _ => by simp⟩
    · exact total_bind.mpr ⟨(total_skipImportDesc hfit (by omega)).1, fun _ _ => by simp⟩
  · obtain ⟨⟨ml, c⟩, hm, h⟩ := bind_eq_ok.mp h
    obtain ⟨c1, h1, h⟩ := bind_eq_ok.mp h
    obtain ⟨_, rfl⟩ := uadd_eq_ok.mp h1
    obtain ⟨⟨nl, c'⟩, hn, h⟩ := bind_eq_ok.mp h
    obtain ⟨c2, h2, h⟩ := bind_eq_ok.mp h
    obtain ⟨_, rfl⟩ := uadd_eq_ok.mp h2
    obtain ⟨kind, hk, h⟩ := bind_eq_ok.mp h
    obtain ⟨c3, h3, h⟩ := bind_eq_ok.mp h
    obtain ⟨_, rfl⟩ := uadd_eq_ok.mp h3
    refine ⟨ml, c, nl, c', kind, by rw [readU32_err _, hm]; rfl, ((readU32_eq_ok hfit).mp hn).1,
      by rw [readU32_err _, hn]; rfl, okOr_eq_ok.mp hk, ?_⟩
    split at h
    · rename_i h0
      obtain ⟨⟨t, c''⟩, ht, h⟩ := bind_eq_ok.mp h
      cases h
      exact .inl ⟨h0, t, by rw [readU32_err _, ht]; rfl⟩
    · rename_i h0
      obtain ⟨c'', hd, h⟩ := bind_eq_ok.mp h
      cases h
      exact .inr ⟨h0, by rw [skipImportDesc_err _, hd]; rfl⟩

theorem total_parseImportFuncTypes (himp : ImportsFit bytes) :
    (parseImportFuncTypes bytes).Total ↔ ModuleNamesFit bytes := by
  unfold parseImportFuncTypes ModuleNamesFit
  rw [total_header hfit]
  refine forall_congr' fun count => forall_congr' fun start => forall_congr' fun hr => ?_
  simp only [total_bind, total_ok, implies_true, and_true]
  have hle : ∀ {j cur}, j < count → EntryAt (parseImportFuncTypes.step bytes) (start, []) j cur →
      cur ≤ bytes.length :=
    entry_le hfit (fun _ _ _ h => (importTypesStep hfit).2 _ h) himp hr
  rw [total_iter]
  refine ⟨fun h j cur hj hat => ?_, fun h j hj s hs' => ?_⟩
  · obtain ⟨out, hs'⟩ := id hat
    exact ((importTypesStep hfit).1 (hle hj hat)).mp (h j hj _ hs')
  · obtain ⟨cur, out⟩ := s
    exact ((importTypesStep hfit).1 (hle hj ⟨out, hs'⟩)).mpr (h j cur hj ⟨out, hs'⟩)

end

/-! ## Globals -/

section
variable {bytes : List UInt8} (hfit : Fits bytes)
include hfit

theorem total_parseInitExpr {cur : Nat} :
    (parseInitExpr bytes cur).Total ∧ ∀ v c, parseInitExpr bytes cur = .ok (v, c) → c ≤ bytes.length := by
  have hlen : bytes.length < 2 ^ 63 := hfit
  unfold parseInitExpr
  cases hb : bytes[cur]? with
  | none => simp [okOr]
  | some op =>
    have hlt := getElem?_lt hb
    simp only [okOr, bind_ok]
    rw [uadd_of_lt (by omega), bind_ok]
    split
    · refine ⟨total_bind.mpr ⟨(total_readAt readI32Leb128_bounds hfit).mpr (by omega), fun _ _ => by simp⟩,
        fun v c h => ?_⟩
      obtain ⟨p, hp, h⟩ := bind_eq_ok.mp h
      cases h
      exact readAt_le readI32Leb128_bounds hfit hp
    · split
      · exact ⟨(total_readAt readI64Leb128_bounds hfit).mpr (by omega), fun v c h =>
          readAt_le readI64Leb128_bounds hfit h⟩
      · simp

theorem total_parseGlobalSection : (parseGlobalSection bytes).Total := by
  have hlen : bytes.length < 2 ^ 63 := hfit
  unfold parseGlobalSection
  refine (total_header hfit).mpr fun count start hr => ?_
  simp only
  split
  · simp
  refine total_bind.mpr ⟨?_, fun _ _ => by simp⟩
  refine (total_entries (I := fun _ s => s.1 ≤ bytes.length) (G := fun _ _ => True) ?_ (readU32Leb128_bounds hr).2.2
    ?_).mpr fun _ _ _ _ => trivial
  · rintro j ⟨cur, globals⟩ s' _ h
    unfold parseGlobalSection.step at h
    obtain ⟨next, _, h⟩ := bind_eq_ok.mp h
    split at h
    · cases h
    obtain ⟨c1, _, h⟩ := bind_eq_ok.mp h
    obtain ⟨m, _, h⟩ := bind_eq_ok.mp h
    obtain ⟨c2, _, h⟩ := bind_eq_ok.mp h
    obtain ⟨⟨v, c3⟩, _, h⟩ := bind_eq_ok.mp h
    simp only at h
    split at h
    · cases h
    rename_i h0b
    obtain ⟨c4, h4, h⟩ := bind_eq_ok.mp h
    cases h
    obtain ⟨_, rfl⟩ := uadd_eq_ok.mp h4
    exact getElem?_lt (not_not.mp h0b)
  · intro j cur globals _ hcur
    refine iff_true_intro ?_
    simp only [parseGlobalSection.step] at hcur ⊢
    rw [uadd_of_lt (by omega), bind_ok]
    split
    · simp
    rw [uadd_of_lt (by omega), bind_ok]
    refine total_bind.mpr ⟨total_index.mpr (by omega), fun m _ => ?_⟩
    rw [uadd_of_lt (by omega), bind_ok]
    refine total_bind.mpr ⟨(total_parseInitExpr hfit).1, fun ⟨v, c⟩ hv => ?_⟩
    have := (total_parseInitExpr hfit).2 v c hv
    simp only
    split
    · simp
    · rw [uadd_of_lt (by omega)]
      simp

end

/-! ## Segments -/

/-- No element of the segment at `cur` that is reached has a table index past the address space. -/
def ElementsFit (bytes : List UInt8) (cur : Nat) (t : Table) : Prop :=
  ∀ kindEnd offset offsetEnd count start, readU32 bytes () cur = .ok (0, kindEnd) →
    parseOffset bytes () kindEnd = .ok (offset, offsetEnd) → readU32 bytes () offsetEnd = .ok (count, start) →
    ∀ j elem p, j < count → EntryAt (parseElements.step bytes () (i32AsUsize offset)) (start, 0, t) j elem →
      readU32 bytes () elem = .ok p → i32AsUsize offset + j ≤ usizeMax

def ElementSegmentsFit (bytes : List UInt8) : Prop :=
  ∀ count start, readU32Leb128 bytes = some (count, start) →
    ∀ j cur t, j < count → iter (parseElementSection.step bytes) j (start, .blank) = .ok (cur, t) →
    ElementsFit bytes cur t

/-- The destination of the active data segment at `cur` is in memory. -/
def DataFit (bytes : List UInt8) (memLen cur : Nat) : Prop :=
  ∀ kindEnd offset offsetEnd dataLen start, readU32 bytes () cur = .ok (0, kindEnd) →
    parseOffset bytes () kindEnd = .ok (offset, offsetEnd) → readU32 bytes () offsetEnd = .ok (dataLen, start) →
    start + dataLen ≤ bytes.length → i32AsUsize offset ≤ memLen

def DataSegmentsFit (bytes : List UInt8) (memLen : Nat) : Prop :=
  ∀ count start, readU32Leb128 bytes = some (count, start) →
    ∀ j cur mem, j < count → iter (initMemory.step bytes memLen) j (start, fun _ => 0) = .ok (cur, mem) →
      DataFit bytes memLen cur

section
variable {bytes : List UInt8}

theorem readI32_err {ε δ : Type} {e : ε} (d : δ) {cur : Nat} :
    readI32 bytes d cur = mapErr (fun _ => d) (readI32 bytes e cur) := by
  simp only [readI32, readAt, mapErr_bind, mapErr_okOr, mapErr_uadd, mapErr_sliceFrom, mapErr_ok]

theorem parseOffset_err {ε δ : Type} {e : ε} (d : δ) {cur : Nat} :
    parseOffset bytes d cur = mapErr (fun _ => d) (parseOffset bytes e cur) := by
  simp only [parseOffset, mapErr_bind, mapErr_uadd, mapErr_ite, readI32_err (e := e) d, mapErr_ok, mapErr_err]

variable (hfit : Fits bytes)
include hfit

theorem total_parseOffset {ε : Type} {e : ε} {cur : Nat} :
    (parseOffset bytes e cur).Total ∧ ∀ v c, parseOffset bytes e cur = .ok (v, c) → c ≤ bytes.length := by
  have hlen : bytes.length < 2 ^ 63 := hfit
  unfold parseOffset
  by_cases h41 : bytes[cur]? ≠ some 0x41
  · simp [h41]
  simp only [h41, if_false]
  have hcur := getElem?_lt (not_not.mp h41)
  rw [uadd_of_lt (by omega), bind_ok]
  refine ⟨total_bind.mpr ⟨(total_readAt readI32Leb128_bounds hfit).mpr (by omega), fun ⟨v, c⟩ hv => ?_⟩,
    fun v c h => ?_⟩
  · have := readAt_le readI32Leb128_bounds hfit hv
    simp only
    split
    · simp
    · rw [uadd_of_lt (by omega)]; simp
  · obtain ⟨⟨v', c'⟩, _, h⟩ := bind_eq_ok.mp h
    simp only at h
    split at h
    · cases h
    rename_i h0b
    obtain ⟨c'', h'', h⟩ := bind_eq_ok.mp h
    cases h
    obtain ⟨_, rfl⟩ := uadd_eq_ok.mp h''
    exact getElem?_lt (not_not.mp h0b)

omit hfit in
theorem parseElements_err {ε δ : Type} {e : ε} (d : δ) {base : Nat} (s : Nat × Nat × Table) :
    parseElements.step bytes d base s = mapErr (fun _ => d) (parseElements.step bytes e base s) := by
  simp only [parseElements.step, mapErr_bind, mapErr_uadd, readU32_err (e := e) d, mapErr_ok]

theorem total_elements {ε : Type} {e : ε} {base count start : Nat} {t : Table} (hstart : start ≤ bytes.length) :
    (iter (parseElements.step bytes e base) count (start, 0, t)).Total ↔
      ∀ j elem p, j < count → EntryAt (parseElements.step bytes () base) (start, 0, t) j elem →
        readU32 bytes () elem = .ok p → base + j ≤ usizeMax := by
  have hiter : iter (parseElements.step bytes e base) count (start, 0, t) =
      mapErr (fun _ => e) (iter (parseElements.step bytes () base) count (start, 0, t)) :=
    iter_mapErr (parseElements_err e)
  rw [hiter, total_mapErr, total_entries (I := fun j s => s.1 ≤ bytes.length ∧ s.2.1 = j)
    (G := fun j elem => ∀ p, readU32 bytes () elem = .ok p → base + j ≤ usizeMax) ?_ ⟨hstart, rfl⟩ ?_]
  · exact ⟨fun h j elem p hj hat => h j elem hj hat p, fun h j elem hj hat p => h j elem p hj hat⟩
  · rintro j ⟨cur, j', t⟩ s' ⟨_, rfl⟩ h
    obtain ⟨p, hp, h⟩ := bind_eq_ok.mp h
    obtain ⟨ti, _, h⟩ := bind_eq_ok.mp h
    cases h
    exact ⟨(readU32_bounds hfit hp).2.2, rfl⟩
  · rintro j cur ⟨j', t⟩ _ ⟨hcur, rfl⟩
    simp only [parseElements.step, total_bind, total_readU32 hfit, total_uadd, total_ok, implies_true, and_true]
    exact ⟨fun h p hp => h.2 p hp, fun h => ⟨hcur, h⟩⟩

theorem total_elementStep {cur : Nat} {t : Table} (hcur : cur ≤ bytes.length) :
    (parseElementSection.step bytes (cur, t)).Total ↔ ElementsFit bytes cur t := by
  simp only [parseElementSection.step, ElementsFit]
  rw [total_bind, total_readU32 hfit]
  constructor
  · rintro ⟨_, h⟩ kindEnd offset offsetEnd count start hk ho hc
    have h := h (0, kindEnd) (by rw [readU32_err _, hk]; rfl)
    simp only [ne_eq, not_true_eq_false, if_false] at h
    have h := (total_bind.mp h).2 (offset, offsetEnd) (by rw [parseOffset_err _, ho]; rfl)
    have h := (total_bind.mp h).2 (count, start) (by rw [readU32_err _, hc]; rfl)
    exact (total_elements hfit (readU32_bounds hfit hc).2.2).mp (total_bind.mp h).1
  · refine fun h => ⟨hcur, fun ⟨kind, kindEnd⟩ hk => ?_⟩
    simp only
    split
    · simp
    rename_i h0
    simp only [not_not] at h0
    subst h0
    refine total_bind.mpr ⟨(total_parseOffset hfit).1, fun ⟨offset, offsetEnd⟩ ho => ?_⟩
    have hoe := (total_parseOffset hfit).2 _ _ ho
    refine total_bind.mpr ⟨(total_readU32 hfit).mpr hoe, fun ⟨count, start⟩ hc => ?_⟩
    refine total_bind.mpr ⟨(total_elements hfit (readU32_bounds hfit hc).2.2).mpr ?_, fun _ _ => by simp⟩
    exact h kindEnd offset offsetEnd count start (by rw [readU32_err _, hk]; rfl)
      (by rw [parseOffset_err _, ho]; rfl)
      (by rw [readU32_err _, hc]; rfl)

theorem elementStep_le {s s' : Nat × Table} (h : parseElementSection.step bytes s = .ok s') :
    s'.1 ≤ bytes.length := by
  obtain ⟨cur, t⟩ := s
  simp only [parseElementSection.step] at h
  obtain ⟨⟨kind, c⟩, _, h⟩ := bind_eq_ok.mp h
  simp only at h
  split at h
  · cases h
  obtain ⟨⟨offset, c'⟩, _, h⟩ := bind_eq_ok.mp h
  obtain ⟨⟨count, start⟩, hc, h⟩ := bind_eq_ok.mp h
  obtain ⟨⟨last, j, t'⟩, hi, h⟩ := bind_eq_ok.mp h
  cases h
  refine iter_invariant (I := fun _ s => s.1 ≤ bytes.length) ?_ (j := 0) (readU32_bounds hfit hc).2.2 hi
  rintro j ⟨cur, j', t⟩ s' _ h
  obtain ⟨p, hp, h⟩ := bind_eq_ok.mp h
  obtain ⟨ti, _, h⟩ := bind_eq_ok.mp h
  cases h
  exact (readU32_bounds hfit hp).2.2

theorem total_parseElementSection : (parseElementSection bytes).Total ↔ ElementSegmentsFit bytes := by
  unfold parseElementSection ElementSegmentsFit
  rw [total_header hfit]
  refine forall_congr' fun count => forall_congr' fun start => forall_congr' fun hr => ?_
  simp only [total_bind, total_orReturn, total_ok, implies_true, and_true]
  rw [total_iter]
  have hle : ∀ {j cur t}, iter (parseElementSection.step bytes) j (start, .blank) = .ok (cur, t) →
      cur ≤ bytes.length :=
    fun h => iter_invariant (I := fun _ s => s.1 ≤ bytes.length) (fun _ _ _ _ h => elementStep_le hfit h) (j := 0)
      (readU32Leb128_bounds hr).2.2 h
  exact ⟨fun h j cur t hj hs' => (total_elementStep hfit (hle hs')).mp (h j hj _ hs'),
    fun h j hj s' hs' => (total_elementStep hfit (hle hs')).mpr (h j _ _ hj hs')⟩

theorem total_dataStep {memLen cur : Nat} {mem : Nat → UInt8} (hcur : cur ≤ bytes.length) :
    ((initMemory.step bytes memLen (cur, mem)).Total ↔ DataFit bytes memLen cur) ∧
    ∀ s', initMemory.step bytes memLen (cur, mem) = .ok s' → s'.1 ≤ bytes.length := by
  have hlen : bytes.length < 2 ^ 63 := hfit
  simp only [initMemory.step, DataFit]
  have hsub : ∀ {dst len : Nat}, dst < 2 ^ 64 → (dst ≤ min (satAdd dst len) memLen ↔ dst ≤ memLen) := by
    intro dst len h
    simp only [satAdd, usizeMax]; omega
  refine ⟨⟨fun h kindEnd offset offsetEnd dataLen start hk ho hd hle => ?_, fun h => ?_⟩, fun s' h => ?_⟩
  · have h := (total_bind.mp h).2 (0, kindEnd) hk
    simp only [ne_eq, not_true_eq_false, if_false] at h
    have h := (total_bind.mp h).2 (offset, offsetEnd) ho
    have h := (total_bind.mp h).2 (dataLen, start) hd
    simp only at h
    rw [uadd_of_lt (by omega), bind_ok, if_neg (by omega)] at h
    exact (hsub (BitVec.isLt _)).mp (total_usub.mp (total_bind.mp h).1)
  · refine total_bind.mpr ⟨(total_readU32 hfit).mpr hcur, fun ⟨kind, kindEnd⟩ hk => ?_⟩
    simp only
    split
    · simp
    rename_i h0
    simp only [not_not] at h0
    subst h0
    refine total_bind.mpr ⟨(total_parseOffset hfit).1, fun ⟨offset, offsetEnd⟩ ho => ?_⟩
    have hoe := (total_parseOffset hfit).2 _ _ ho
    refine total_bind.mpr ⟨(total_readU32 hfit).mpr hoe, fun ⟨dataLen, start⟩ hd => ?_⟩
    have hb := readU32_bounds hfit hd
    simp only
    rw [uadd_of_lt (by omega), bind_ok]
    split
    · simp
    refine total_bind.mpr ⟨total_usub.mpr ?_, fun _ _ => by simp⟩
    exact (hsub (BitVec.isLt _)).mpr (h kindEnd offset offsetEnd dataLen start hk ho hd (by omega))
  · obtain ⟨⟨kind, c⟩, hk, h⟩ := bind_eq_ok.mp h
    simp only at h
    split at h
    · cases h
      exact (readU32_bounds hfit hk).2.2
    obtain ⟨⟨offset, c'⟩, _, h⟩ := bind_eq_ok.mp h
    obtain ⟨⟨dataLen, start⟩, _, h⟩ := bind_eq_ok.mp h
    obtain ⟨next, _, h⟩ := bind_eq_ok.mp h
    split at h
    · cases h
    obtain ⟨_, _, h⟩ := bind_eq_ok.mp h
    cases h
    show next ≤ bytes.length
    omega

theorem total_initMemory {memLen : Nat} :
    (initMemory bytes memLen fun _ => 0).Total ↔ DataSegmentsFit bytes memLen := by
  unfold initMemory DataSegmentsFit
  rw [total_header hfit]
  refine forall_congr' fun count => forall_congr' fun start => forall_congr' fun hr => ?_
  simp only [total_bind, total_ok, implies_true, and_true]
  rw [total_iter]
  have hle : ∀ {j cur mem}, iter (initMemory.step bytes memLen) j (start, fun _ => 0) = .ok (cur, mem) →
      cur ≤ bytes.length :=
    fun h => iter_invariant (I := fun _ s => s.1 ≤ bytes.length)
      (fun _ _ s' hs h => (total_dataStep hfit hs).2 s' h)
      (j := 0) (readU32Leb128_bounds hr).2.2 h
  exact ⟨fun h j cur mem hj hs' => (total_dataStep hfit (hle hs')).1.mp (h j hj _ hs'),
    fun h j hj s' hs' => (total_dataStep hfit (hle hs')).1.mpr (h j _ _ hj hs')⟩

end

/-! ## The loader -/

theorem total_load_loop {bytes : List UInt8} (hfit : Fits bytes) : ∀ (fuel cursor : Nat) (m : Module),
    (load.loop bytes fuel cursor m).Total
  | 0, _, _ => by simp [load.loop]
  | fuel + 1, cursor, m => by
    have hlen : bytes.length < 2 ^ 63 := hfit
    unfold load.loop
    split
    · simp
    refine total_bind.mpr ⟨total_index.mpr (by omega), fun sectionId _ => ?_⟩
    rw [uadd_of_lt (by omega), bind_ok]
    refine total_bind.mpr ⟨(total_readU32 hfit).mpr (by omega), fun ⟨size, c⟩ hs => ?_⟩
    have hb := readU32_bounds hfit hs
    simp only
    rw [uadd_of_lt (by omega), bind_ok]
    split
    · simp
    · exact total_load_loop hfit fuel _ _

theorem total_load {bytes : List UInt8} (hfit : Fits bytes) : (load bytes).Total := by
  unfold load
  split
  · simp
  split
  · simp
  split
  · simp
  exact total_load_loop hfit _ _ _

theorem total_readMemoryMinPages {ε : Type} {bytes : List UInt8} (hfit : Fits bytes) :
    (readMemoryMinPages (ε := ε) bytes).Total := by
  have hlen : bytes.length < 2 ^ 63 := hfit
  unfold readMemoryMinPages
  rw [total_orReturn, total_header hfit]
  intro count start hr
  simp only
  split
  · simp
  split
  · simp
  rw [uadd_of_lt (by omega), bind_ok]
  exact total_bind.mpr ⟨(total_readU32 hfit).mpr (by omega), fun _ _ => by simp⟩

/-- Every section of a module satisfies `P`. -/
def Module.Sections (P : List UInt8 → Prop) (m : Module) : Prop :=
  (∀ b, m.typeSection = some b → P b) ∧ (∀ b, m.importSection = some b → P b) ∧
  (∀ b, m.functionSection = some b → P b) ∧ (∀ b, m.memorySection = some b → P b) ∧
  (∀ b, m.globalSection = some b → P b) ∧ (∀ b, m.elementSection = some b → P b) ∧
  (∀ b, m.codeSection = some b → P b) ∧ (∀ b, m.dataSection = some b → P b)

theorem record_sections {P : List UInt8 → Prop} {m : Module} (hm : m.Sections P) (id : UInt8) {data : List UInt8}
    (hd : P data) : (m.record id data).Sections P := by
  obtain ⟨h1, h2, h3, h4, h5, h6, h7, h8⟩ := hm
  unfold Module.record
  split <;> refine ⟨?_, ?_, ?_, ?_, ?_, ?_, ?_, ?_⟩ <;> first
    | assumption
    | (intro b hb; cases hb; exact hd)

theorem load_loop_sections {bytes : List UInt8} (hfit : Fits bytes) : ∀ {fuel cursor : Nat} {m m' : Module},
    m.Sections Fits → load.loop bytes fuel cursor m = .ok m' → m'.Sections Fits
  | 0, _, _, _, hm, h => by cases h; exact hm
  | fuel + 1, cursor, m, m', hm, h => by
    unfold load.loop at h
    split at h
    · cases h; exact hm
    obtain ⟨sectionId, _, h⟩ := bind_eq_ok.mp h
    obtain ⟨c, _, h⟩ := bind_eq_ok.mp h
    obtain ⟨⟨size, c'⟩, _, h⟩ := bind_eq_ok.mp h
    obtain ⟨stop, _, h⟩ := bind_eq_ok.mp h
    split at h
    · cases h
    refine load_loop_sections hfit (record_sections hm _ ?_) h
    unfold Fits at hfit ⊢
    simp only [List.length_take, List.length_drop]; omega

theorem load_sections {bytes : List UInt8} {m : Module} (hfit : Fits bytes) (h : load bytes = .ok m) :
    m.Sections Fits := by
  unfold load at h
  split at h
  · cases h
  split at h
  · cases h
  split at h
  · cases h
  refine load_loop_sections hfit ?_ h
  refine ⟨?_, ?_, ?_, ?_, ?_, ?_, ?_, ?_⟩ <;> rintro b ⟨⟩

/-! ## Instantiation -/

/-- The size of a body is a `u32`. -/
theorem parseCodeSection_short {bytes : List UInt8} (hfit : Fits bytes) {bodies : List (List UInt8 × Nat)}
    (h : parseCodeSection bytes = .ok bodies) : ∀ b ∈ bodies.map Prod.fst, b.length < 2 ^ 32 := by
  unfold parseCodeSection at h
  obtain ⟨⟨count, start⟩, _, h⟩ := bind_eq_ok.mp h
  simp only at h
  split at h
  · cases h
  obtain ⟨⟨cur, bodies'⟩, hi, h⟩ := bind_eq_ok.mp h
  cases h
  refine iter_invariant (I := fun _ s => ∀ b ∈ s.2.map Prod.fst, b.length < 2 ^ 32) ?_ (j := 0) (by simp) hi
  rintro j ⟨cur, bodies⟩ s' hb hs'
  simp only [parseCodeSection.step] at hs'
  obtain ⟨⟨size, c⟩, hsize, hs'⟩ := bind_eq_ok.mp hs'
  obtain ⟨stop, _, hs'⟩ := bind_eq_ok.mp hs'
  split at hs'
  · cases hs'
  obtain ⟨e, he, hs'⟩ := bind_eq_ok.mp hs'
  cases hs'
  intro b hmem
  rw [List.map_append, List.mem_append] at hmem
  rcases hmem with hmem | hmem
  · exact hb b hmem
  -- the new body is a tail of its entry, which is a part of the section
  · obtain ⟨rfl⟩ : b = e.1 := by simpa using hmem
    unfold parseCodeEntry at he
    obtain ⟨p, _, he⟩ := bind_eq_ok.mp he
    obtain ⟨q, _, he⟩ := bind_eq_ok.mp he
    simp only at he
    split at he
    · cases he
    · cases he
      have := (readU32_bounds hfit hsize).1
      simp only [List.length_drop, List.length_take]; omega

theorem parseCodeSection_fits {bytes : List UInt8} (hfit : Fits bytes) {bodies : List (List UInt8 × Nat)}
    (h : parseCodeSection bytes = .ok bodies) : ∀ b ∈ bodies.map Prod.fst, Fits b := fun b hb =>
  Nat.lt_trans (parseCodeSection_short hfit h b hb) (by decide)

theorem total_parseIf {ε α : Type} {sec : Option (List UInt8)} {a : α} {parse : List UInt8 → Rust ε α} :
    (parseIf sec a parse).Total ↔ ∀ b, sec = some b → (parse b).Total := by
  cases sec <;> simp [parseIf]

/-- The sections that `Interpreter::new` reaches are in order. -/
def SectionsFit (m : Module) : Prop :=
  (∀ b, m.typeSection = some b → TypesFit b) ∧
  ((parseIf m.typeSection [] parseTypeSection).Succeeds →
  (parseIf m.functionSection [] parseFunctionSection).Succeeds →
    ∀ code, m.codeSection = some code → CodeFit code ∧
    ((parseCodeSection code).Succeeds → (parseIf m.globalSection [] parseGlobalSection).Succeeds →
      (∀ b, m.importSection = some b → ModuleNamesFit b) ∧
      ((parseIf m.importSection [] parseImportFuncTypes).Succeeds →
        ∀ b, m.elementSection = some b → ElementSegmentsFit b)))

section
variable {H : Type} (lookupHost : List UInt8 → List UInt8 → Option H)

/-- What `instantiate` needs of the sections it reaches. -/
def Instantiable (bytes : List UInt8) : Prop :=
  ∀ m pages, load bytes = .ok m → parseIf m.memorySection 0 (readMemoryMinPages (ε := RunError)) = .ok pages →
    pages ≤ MAX_MEM_PAGES →
    (∀ b, m.importSection = some b → ImportsFit b) ∧
    ∀ importCount names, parseIf m.importSection 0 (countFuncImports (ε := RunError)) = .ok importCount →
      parseIf m.importSection [] (forEachFuncImport (ε := RunError)) = .ok names →
      (∀ p ∈ names.take MAX_FUNCS, (lookupHost p.1 p.2).isSome) →
      SectionsFit m ∧
      ((Interpreter.new m importCount (MAX_MEM_PAGES * PAGE_SIZE) (resolveImports lookupHost names)
      pages).Succeeds →
        ∀ b, m.dataSection = some b → DataSegmentsFit b (MAX_MEM_PAGES * PAGE_SIZE))

variable {lookupHost}

theorem total_interpreterNew {m : Module} {importCount memLen pages : Nat} {hostFns : Nat → Option H}
    (hfit : m.Sections Fits) (himp : ∀ b, m.importSection = some b → ImportsFit b) :
    (Interpreter.new m importCount memLen hostFns pages).Total ↔ SectionsFit m := by
  obtain ⟨htype, himport, hfunc, _, hglobal, helem, hcode, _⟩ := hfit
  unfold Interpreter.new SectionsFit
  rw [total_bind, total_parseIf]
  refine and_congr ⟨fun h b hb => (total_parseTypeSection (htype b hb)).mp (h b hb),
    fun h b hb => (total_parseTypeSection (htype b hb)).mpr (h b hb)⟩ ?_
  constructor
  · rintro h ⟨types, ht⟩ ⟨funcs, hf⟩ code hc
    have h := (total_bind.mp (h types ht)).2 funcs hf
    rw [hc, okOr, bind_ok, total_bind, total_parseCodeSection (hcode code hc)] at h
    refine ⟨h.1, ?_⟩
    rintro ⟨bodies, hb⟩ ⟨globals, hg⟩
    have h := (total_bind.mp (h.2 bodies hb)).2 globals hg
    rw [total_bind, total_parseIf] at h
    refine ⟨fun b hb => (total_parseImportFuncTypes (himport b hb) (himp b hb)).mp (h.1 b hb), ?_⟩
    rintro ⟨importTypes, hi⟩ b hb
    have h := (total_bind.mp (h.2 importTypes hi)).1
    exact (total_parseElementSection (helem b hb)).mp (total_parseIf.mp h b hb)
  · intro h types ht
    refine total_bind.mpr ⟨total_parseIf.mpr fun b hb => total_parseFunctionSection (hfunc b hb),
      fun funcs hf => ?_⟩
    cases hc : m.codeSection with
    | none => simp [okOr]
    | some code =>
      obtain ⟨hcf, h⟩ := h ⟨types, ht⟩ ⟨funcs, hf⟩ code hc
      rw [okOr, bind_ok]
      refine total_bind.mpr ⟨(total_parseCodeSection (hcode code hc)).mpr hcf, fun bodies hb => ?_⟩
      refine total_bind.mpr ⟨total_parseIf.mpr fun b hb => total_parseGlobalSection (hglobal b hb),
        fun globals hg => ?_⟩
      obtain ⟨hnames, h⟩ := h ⟨bodies, hb⟩ ⟨globals, hg⟩
      refine total_bind.mpr ⟨total_parseIf.mpr fun b hb =>
        (total_parseImportFuncTypes (himport b hb) (himp b hb)).mpr (hnames b hb), fun importTypes hi => ?_⟩
      refine total_bind.mpr ⟨total_parseIf.mpr fun b hb =>
        (total_parseElementSection (helem b hb)).mpr (h ⟨importTypes, hi⟩ b hb), fun table _ => ?_⟩
      rw [buildJumpTable_checked (parseCodeSection_fits (hcode code hc) hb)]
      simp

theorem interpreterNew_ok {m : Module} {importCount memLen pages : Nat} {hostFns : Nat → Option H}
    {inst : Instance H} (h : Interpreter.new m importCount memLen hostFns pages = .ok inst) :
    inst.code.memLen = memLen ∧ inst.mem = fun _ => 0 := by
  unfold Interpreter.new at h
  obtain ⟨_, _, h⟩ := bind_eq_ok.mp h
  obtain ⟨_, _, h⟩ := bind_eq_ok.mp h
  obtain ⟨_, _, h⟩ := bind_eq_ok.mp h
  obtain ⟨_, _, h⟩ := bind_eq_ok.mp h
  obtain ⟨_, _, h⟩ := bind_eq_ok.mp h
  obtain ⟨_, _, h⟩ := bind_eq_ok.mp h
  obtain ⟨_, _, h⟩ := bind_eq_ok.mp h
  obtain ⟨_, _, h⟩ := bind_eq_ok.mp h
  cases h
  exact ⟨rfl, rfl⟩

/-- Instantiation ends in an instance or an error exactly when every section it reaches is in order. -/
theorem instantiate_total (bytes : List UInt8) (hfit : Fits bytes) :
    (instantiate lookupHost bytes).Total ↔ Instantiable lookupHost bytes := by
  unfold instantiate Instantiable
  rw [total_bind, total_mapErr]
  simp only [total_load hfit, true_and, mapErr_eq_ok]
  refine ⟨fun h m pages hm hp hpages => ?_, fun h m hm => ?_⟩
  · obtain ⟨_, himport, _, _, _, _, _, hdata⟩ := id (load_sections hfit hm)
    have h := (total_bind.mp (h m hm)).2 pages hp
    rw [if_neg (by omega), total_bind, total_parseIf] at h
    have himp : ∀ b, m.importSection = some b → ImportsFit b :=
      fun b hb => (total_countFuncImports (himport b hb)).mp (h.1 b hb)
    refine ⟨himp, fun importCount names hc hn hfound => ?_⟩
    have h := (total_bind.mp (h.2 importCount hc)).2 names hn
    rw [if_neg (by simpa [Option.isSome_iff_ne_none] using hfound), total_bind, total_mapErr,
      total_interpreterNew (load_sections hfit hm) himp] at h
    refine ⟨h.1, ?_⟩
    rintro ⟨inst, hi⟩ b hb
    obtain ⟨hmemLen, hmem⟩ := interpreterNew_ok hi
    have h := total_parseIf.mp (total_bind.mp (h.2 inst (mapErr_eq_ok.mpr hi))).1 b hb
    rw [hmemLen, hmem, total_mapErr, total_initMemory (hdata b hb)] at h
    exact h
  · obtain ⟨_, himport, _, hmemory, _, _, _, hdata⟩ := id (load_sections hfit hm)
    refine total_bind.mpr ⟨total_parseIf.mpr fun b hb => total_readMemoryMinPages (hmemory b hb),
      fun pages hp => ?_⟩
    split
    · simp
    obtain ⟨himp, h⟩ := h m pages hm hp (by omega)
    refine total_bind.mpr ⟨total_parseIf.mpr fun b hb => (total_countFuncImports (himport b hb)).mpr (himp b hb),
      fun importCount hc => ?_⟩
    refine total_bind.mpr ⟨total_parseIf.mpr fun b hb => total_forEachFuncImport (himport b hb) (himp b hb),
      fun names hn => ?_⟩
    split
    · simp
    rename_i hfound
    obtain ⟨hsec, h⟩ := h importCount names hc hn
      (by simpa [Option.isSome_iff_ne_none] using hfound)
    refine total_bind.mpr ⟨?_, fun inst hi => ?_⟩
    · rw [total_mapErr, total_interpreterNew (load_sections hfit hm) himp]; exact hsec
    · rw [mapErr_eq_ok] at hi
      obtain ⟨hmemLen, hmem⟩ := interpreterNew_ok hi
      refine total_bind.mpr ⟨total_parseIf.mpr fun b hb => ?_, fun _ _ => by simp⟩
      rw [hmemLen, hmem, total_mapErr, total_initMemory (hdata b hb)]
      exact h ⟨inst, hi⟩ b hb

end

/-- A module with one type, `(i32) -> ()`, one function of that type with an empty body and one group
of three locals, and nothing else. -/
theorem instantiate_total_func : Instantiable (H := Unit) (fun _ _ => none)
    [0x00, 0x61, 0x73, 0x6D, 0x01, 0x00, 0x00, 0x00, 0x01, 0x05, 0x01, 0x60, 0x01, 0x7F, 0x00,
     0x03, 0x02, 0x01, 0x00,
      0x0A, 0x06, 0x01, 0x04, 0x01, 0x03, 0x7F, 0x0B] :=
  (instantiate_total _ (by unfold Fits; decide)).mp ⟨nofun, nofun⟩

/-- A module without functions whose only data segment has the offset `-1`. -/
theorem instantiate_negative_offset :
    ¬ ∀ (H : Type) (lookupHost : List UInt8 → List UInt8 → Option H) (bytes : List UInt8), Fits bytes →
      (instantiate lookupHost bytes).Total := by
  intro h
  refine (h Unit (fun _ _ => none) [0x00, 0x61, 0x73, 0x6D, 0x01, 0x00, 0x00, 0x00, 0x0A, 0x01, 0x00,
    0x0B, 0x06, 0x01, 0x00, 0x41, 0x7F, 0x0B, 0x00] (by unfold Fits; decide)).1 rfl

end WasmOs
