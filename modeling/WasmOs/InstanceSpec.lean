import WasmOs.EngineTotal

/-!
# What instantiation leaves behind

The tables of an instance come from the section parsers, so they respect the capacity limits.
-/

namespace WasmOs

/-! ## Sizes -/

section
variable {bytes : List UInt8}

theorem parseCodeSection_count {bodies : List (List UInt8 × Nat)} (h : parseCodeSection bytes = .ok bodies) :
    ∃ start, readU32 bytes InterpError.malformedCode 0 = .ok (bodies.length, start) ∧
    bodies.length ≤ MAX_FUNCS := by
  unfold parseCodeSection at h
  obtain ⟨⟨count, start⟩, hread, h⟩ := bind_eq_ok.mp h
  simp only at h
  split at h
  · cases h
  obtain ⟨⟨cur, bodies'⟩, hi, h⟩ := bind_eq_ok.mp h
  cases h
  have hinv := iter_invariant (I := fun j s => s.2.length = j) ?_ (j := 0) rfl hi
  · rw [Nat.zero_add] at hinv
    rw [hinv]
    exact ⟨start, hread, Nat.le_of_not_lt ‹_›⟩
  rintro j ⟨cur, bodies⟩ s' hb hs'
  simp only [parseCodeSection.step] at hs'
  obtain ⟨⟨size, c⟩, _, hs'⟩ := bind_eq_ok.mp hs'
  obtain ⟨stop, _, hs'⟩ := bind_eq_ok.mp hs'
  split at hs'
  · cases hs'
  obtain ⟨e, _, hs'⟩ := bind_eq_ok.mp hs'
  cases hs'
  simp only [List.length_append, List.length_singleton, hb]

theorem parseCodeSection_length {bodies : List (List UInt8 × Nat)} (h : parseCodeSection bytes = .ok bodies) :
    bodies.length ≤ MAX_FUNCS := by
  obtain ⟨_, _, hmax⟩ := parseCodeSection_count h
  exact hmax

theorem parseGlobalSection_length {globals : List (BitVec 64 × Bool)} (h : parseGlobalSection bytes = .ok globals) :
    globals.length ≤ MAX_GLOBALS := by
  unfold parseGlobalSection at h
  obtain ⟨⟨count, start⟩, _, h⟩ := bind_eq_ok.mp h
  simp only at h
  split at h
  · cases h
  obtain ⟨⟨cur, globals'⟩, hi, h⟩ := bind_eq_ok.mp h
  cases h
  have hinv := iter_invariant (I := fun j s => s.2.length = j) ?_ (j := 0) rfl hi
  · rw [Nat.zero_add] at hinv
    exact hinv ▸ Nat.le_of_not_lt ‹_›
  rintro j ⟨cur, globals⟩ s' hb hs'
  simp only [parseGlobalSection.step] at hs'
  obtain ⟨_, _, hs'⟩ := bind_eq_ok.mp hs'
  split at hs'
  · cases hs'
  obtain ⟨_, _, hs'⟩ := bind_eq_ok.mp hs'
  obtain ⟨_, _, hs'⟩ := bind_eq_ok.mp hs'
  obtain ⟨_, _, hs'⟩ := bind_eq_ok.mp hs'
  obtain ⟨⟨_, _⟩, _, hs'⟩ := bind_eq_ok.mp hs'
  simp only at hs'
  split at hs'
  · cases hs'
  obtain ⟨_, _, hs'⟩ := bind_eq_ok.mp hs'
  cases hs'
  simp only [List.length_append, List.length_singleton, hb]

theorem put_size {t : Table} (ht : t.size ≤ MAX_TABLE) (ti f : Nat) : (t.put ti f).size ≤ MAX_TABLE := by
  unfold Table.put
  split
  · simp only; omega
  · exact ht

theorem parseElementSection_size {t : Table} (h : parseElementSection bytes = .ok t) : t.size ≤ MAX_TABLE := by
  unfold parseElementSection at h
  obtain ⟨⟨count, start⟩, _, h⟩ := bind_eq_ok.mp h
  obtain ⟨⟨cur, t'⟩, hi, h⟩ := bind_eq_ok.mp h
  cases h
  refine orReturn_iter_invariant (P := fun s => s.2.size ≤ MAX_TABLE) ?_ ?_ (Nat.zero_le _) hi
  · rintro ⟨cur, t⟩ s' ht hs'
    simp only [parseElementSection.step] at hs'
    obtain ⟨⟨kind, c⟩, _, hs'⟩ := bind_eq_ok.mp hs'
    simp only at hs'
    split at hs'
    · cases hs'
    obtain ⟨⟨offset, c'⟩, _, hs'⟩ := bind_eq_ok.mp hs'
    obtain ⟨⟨n, start⟩, _, hs'⟩ := bind_eq_ok.mp hs'
    obtain ⟨⟨last, j, t'⟩, hel, hs'⟩ := bind_eq_ok.mp hs'
    cases hs'
    refine iter_invariant (I := fun _ s => s.2.2.size ≤ MAX_TABLE) ?_ (j := 0) ht hel
    rintro j ⟨cur, j', t⟩ s' ht h
    obtain ⟨p, _, h⟩ := bind_eq_ok.mp h
    obtain ⟨ti, _, h⟩ := bind_eq_ok.mp h
    cases h
    exact put_size ht _ _
  -- only an unsupported segment kind ends the walk, with the table as it is
  · rintro ⟨cur, t⟩ a ht hs'
    simp only [parseElementSection.step] at hs'
    have absurd_inl : ∀ {β : Type} {m : Rust Unit β}, mapErr (fun _ => Sum.inl InterpError.malformedCode) m ≠
        .error (.err (.inr a)) :=
      fun h => by obtain ⟨_, h⟩ := mapErr_eq_err h; cases h
    rcases bind_eq_error.mp hs' with hs' | ⟨⟨kind, c⟩, _, hs'⟩
    · rw [readU32_err (e := ()) _] at hs'
      exact absurd hs' absurd_inl
    simp only at hs'
    split at hs'
    · cases hs'; exact ht
    rcases bind_eq_error.mp hs' with hs' | ⟨⟨offset, c'⟩, _, hs'⟩
    · rw [parseOffset_err (e := ()) _] at hs'
      exact absurd hs' absurd_inl
    rcases bind_eq_error.mp hs' with hs' | ⟨⟨n, start⟩, _, hs'⟩
    · rw [readU32_err (e := ()) _] at hs'
      exact absurd hs' absurd_inl
    rcases bind_eq_error.mp hs' with hs' | ⟨⟨last, j, t'⟩, _, hs'⟩
    · rw [iter_mapErr fun s => parseElements_err (e := ()) _ s] at hs'
      exact absurd hs' absurd_inl
    · cases hs'

end

/-! ## Instances -/

section
variable {H : Type}

theorem interpreterNew_inv {m : Module} {importCount memLen pages : Nat} {hostFns : Nat → Option H}
    {inst : Instance H} (h : Interpreter.new m importCount memLen hostFns pages = .ok inst) :
    ∃ types funcs codeBytes bodies globals importTypes table jumps,
      parseIf m.typeSection [] parseTypeSection = .ok types ∧
      parseIf m.functionSection [] parseFunctionSection = .ok funcs ∧
      m.codeSection = some codeBytes ∧ parseCodeSection codeBytes = .ok bodies ∧
      parseIf m.globalSection [] parseGlobalSection = .ok globals ∧
      parseIf m.importSection [] parseImportFuncTypes = .ok importTypes ∧
      parseIf m.elementSection .blank parseElementSection = .ok table ∧
      buildJumpTable.checked (ε := InterpError) (bodies.map Prod.fst) = .ok jumps ∧
      inst =
        { code :=
            { bodies := bodies.map Prod.fst, localCounts := bodies.map Prod.snd, types,
              funcTypeIndices := funcs, importTypes
              importCount, table, globalMutable := globals.map Prod.snd, hostFns, jumpTable := jumps, memLen }
          globals := fun i => (globals[i]?.map Prod.fst).getD 0
          mem := fun _ => 0
          currentPages := pages } := by
  unfold Interpreter.new at h
  obtain ⟨types, h1, h⟩ := bind_eq_ok.mp h
  obtain ⟨funcs, h2, h⟩ := bind_eq_ok.mp h
  obtain ⟨codeBytes, h3, h⟩ := bind_eq_ok.mp h
  obtain ⟨bodies, h4, h⟩ := bind_eq_ok.mp h
  obtain ⟨globals, h5, h⟩ := bind_eq_ok.mp h
  obtain ⟨importTypes, h6, h⟩ := bind_eq_ok.mp h
  obtain ⟨table, h7, h⟩ := bind_eq_ok.mp h
  obtain ⟨jumps, h8, h⟩ := bind_eq_ok.mp h
  cases h
  exact ⟨types, funcs, codeBytes, bodies, globals, importTypes, table, jumps, h1, h2, okOr_eq_ok.mp h3, h4,
    h5, h6, h7, h8, rfl⟩

theorem instantiate_inv {lookupHost : List UInt8 → List UInt8 → Option H} {bytes : List UInt8} {inst : Instance H}
    (h : instantiate lookupHost bytes = .ok inst) :
    ∃ m pages importCount names inst', load bytes = .ok m ∧ pages ≤ MAX_MEM_PAGES ∧
      parseIf m.importSection 0 (countFuncImports (ε := RunError)) = .ok importCount ∧
      parseIf m.importSection [] (forEachFuncImport (ε := RunError)) = .ok names ∧
      Interpreter.new m importCount (MAX_MEM_PAGES * PAGE_SIZE) (resolveImports lookupHost names) pages =
      .ok inst' ∧
      inst.code = inst'.code ∧ inst.globals = inst'.globals ∧ inst.currentPages = pages := by
  unfold instantiate at h
  obtain ⟨m, hm, h⟩ := bind_eq_ok.mp h
  obtain ⟨pages, _, h⟩ := bind_eq_ok.mp h
  split at h
  · cases h
  obtain ⟨importCount, hic, h⟩ := bind_eq_ok.mp h
  obtain ⟨names, hnames, h⟩ := bind_eq_ok.mp h
  split at h
  · cases h
  obtain ⟨inst', hi, h⟩ := bind_eq_ok.mp h
  obtain ⟨mem, _, h⟩ := bind_eq_ok.mp h
  cases h
  rw [mapErr_eq_ok] at hm hi
  obtain ⟨_, _, _, _, _, _, _, _, _, _, _, _, _, _, _, _, rfl⟩ := interpreterNew_inv hi
  exact ⟨m, pages, importCount, names, _, hm, by omega, hic, hnames, hi, rfl, rfl, rfl⟩

theorem instantiate_limits {lookupHost : List UInt8 → List UInt8 → Option H} {bytes : List UInt8}
    {inst : Instance H} (hfit : Fits bytes) (h : instantiate lookupHost bytes = .ok inst) :
    inst.code.bodies.length ≤ MAX_FUNCS ∧ (∀ b ∈ inst.code.bodies, Fits b) ∧
    inst.code.globalMutable.length ≤ MAX_GLOBALS ∧
    inst.code.table.size ≤ MAX_TABLE ∧ inst.code.memLen = MAX_MEM_PAGES * PAGE_SIZE ∧
    inst.currentPages ≤ MAX_MEM_PAGES ∧
    inst.code.jumpTable = buildJumpTable inst.code.bodies ∧
    ∀ i h, inst.code.hostFns i = some h → ∃ mod name, lookupHost mod name = some h := by
  obtain ⟨m, pages, importCount, names, inst', hm, hpages, _, _, hnew, hcode, _, hcp⟩ := instantiate_inv h
  obtain ⟨types, funcs, codeBytes, bodies, globals, importTypes, table, jumps, _, _, hcs, hbodies, hglobals,
    _, htable, hjumps, rfl⟩ :=
    interpreterNew_inv hnew
  have hsec := load_sections hfit hm
  obtain ⟨_, _, _, _, _, _, hcodeFit, _⟩ := hsec
  have hbfits := parseCodeSection_fits (hcodeFit codeBytes hcs) hbodies
  rw [hcode, hcp]
  refine ⟨?_, hbfits, ?_, ?_, rfl, hpages, ?_, ?_⟩
  · simpa using parseCodeSection_length hbodies
  · cases hg : m.globalSection with
    | none => rw [hg] at hglobals; cases hglobals; exact Nat.zero_le _
    | some b =>
      rw [hg] at hglobals
      simpa using parseGlobalSection_length hglobals
  · cases ht : m.elementSection with
    | none => rw [ht] at htable; cases htable; exact Nat.zero_le _
    | some b =>
      rw [ht] at htable
      exact parseElementSection_size htable
  · rw [buildJumpTable_checked hbfits] at hjumps
    cases hjumps; rfl
  · intro i h hh
    simp only [resolveImports] at hh
    split at hh
    · obtain ⟨p, _, hp⟩ := Option.bind_eq_some_iff.mp hh
      exact ⟨p.1, p.2, hp⟩
    · cases hh

theorem instantiate_short {lookupHost : List UInt8 → List UInt8 → Option H} {bytes : List UInt8} {inst : Instance H}
    (hfit : Fits bytes) (h : instantiate lookupHost bytes = .ok inst) :
    ∀ b ∈ inst.code.bodies, b.length < 2 ^ 32 := by
  obtain ⟨m, pages, importCount, names, inst', hm, _, _, _, hnew, hcode, _, _⟩ := instantiate_inv h
  obtain ⟨types, funcs, codeBytes, bodies, globals, importTypes, table, jumps, _, _, hcs, hbodies, _, _,
    _, _, rfl⟩ :=
    interpreterNew_inv hnew
  obtain ⟨_, _, _, _, _, _, hcodeFit, _⟩ := load_sections hfit hm
  rw [hcode]
  exact parseCodeSection_short (hcodeFit codeBytes hcs) hbodies

end

end WasmOs
