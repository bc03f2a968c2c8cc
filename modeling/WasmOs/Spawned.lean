import WasmOs.AsmSound
import WasmOs.InstanceSpec

/-!
# Spawning an assembled module

What `spawn` makes of the output of the assembler: the tables of the module, its functions in order, no
globals and an empty function table.
-/

namespace WasmOs.Asm

/-! ## The number of imports -/

theorem importCount_step {ε : Type} {bytes rest : List UInt8} {cur n : Nat} (hsize : bytes.length < 2 ^ 32)
    (hn : n + 1 < 2 ^ 64) {imp : Import} (h : Ahead bytes cur (emitImport imp ++ rest)) :
    ∃ c, countFuncImports.step (ε := ε) bytes (cur, n) = .ok (c, n + 1) ∧ Ahead bytes c rest := by
  simp only [emitImport, List.append_assoc, List.cons_append] at h
  let stop : ε ⊕ Nat × Nat := .inr (cur, n)
  obtain ⟨c, hc, hm⟩ := h.readBytes hsize stop
  obtain ⟨d, hd, hname⟩ := hm.skip.readBytes hsize stop
  obtain ⟨k, hk, ht⟩ := hname.skip.next.readU32 hsize stop
  have hmle : ¬ bytes.length < c + imp.module.length := Nat.not_lt_of_le hm.piece_le
  have hcount : (uadd n 1 : Rust (ε ⊕ Nat × Nat) Nat) = .ok (n + 1) := uadd_of_lt hn
  refine ⟨k, ?_, ht⟩
  simp only [stop] at hc hd hk
  simp only [countFuncImports.step, hc, bind_ok, hm.uadd hsize, hmle, if_false, hd, hname.uadd hsize,
    hname.skip.byte, okOr,
    hname.skip.uadd_one hsize, if_true, hk, hcount]

theorem importCount_iter {ε : Type} {bytes rest : List UInt8} (hsize : bytes.length < 2 ^ 32) :
    ∀ {imports : List Import} {cur n : Nat},
    n + imports.length < 2 ^ 64 → Ahead bytes cur (imports.flatMap emitImport ++ rest) →
    ∃ c, iter (countFuncImports.step (ε := ε) bytes) imports.length (cur, n) = .ok (c, n + imports.length)
  | [], cur, n, _, _ => ⟨cur, rfl⟩
  | imp :: imports, cur, n, hn, h => by
    rw [List.length_cons] at hn
    rw [List.flatMap_cons, List.append_assoc] at h
    obtain ⟨c, hc, h⟩ := importCount_step (ε := ε) hsize (show n + 1 < 2 ^ 64 by omega) h
    obtain ⟨d, hd⟩ := importCount_iter hsize (show n + 1 + imports.length < 2 ^ 64 by omega) h
    refine ⟨d, ?_⟩
    rw [List.length_cons, iter, hc, bind_ok, hd, Nat.add_assoc, Nat.add_comm 1]

theorem countFuncImports_emit {ε : Type} {imports : List Import}
    (hsize : (writeAll emitImport imports).length < 2 ^ 32) :
    countFuncImports (ε := ε) (writeAll emitImport imports) = .ok imports.length := by
  obtain ⟨start, hstart, h⟩ := Ahead.start.readAll hsize emitImport_ne_nil (.inr (0, 0) : ε ⊕ Nat × Nat)
  have hlen := length_le_flatMap emitImport emitImport_ne_nil imports
  have hle := h.piece_le
  obtain ⟨c, hc⟩ := importCount_iter (ε := ε) hsize (show 0 + imports.length < 2 ^ 64 by omega) h
  simp only [countFuncImports, hstart, bind_ok, hc, orReturn, Nat.zero_add]

/-! ## The instance -/

section
variable {H : Type} (lookupHost : List UInt8 → List UInt8 → Option H) (F : FloatOps) (m : Module)

/-- What `spawn` asks of a module. -/
structure Spawnable : Prop where
  import_utf8 : ∀ imp ∈ m.imports, validUtf8 imp.module = true ∧ validUtf8 imp.name = true
  imports : ∀ imp ∈ m.imports, (lookupHost imp.module imp.name).isSome
  types : m.types.length ≤ MAX_TYPES
  funcs_ne : m.funcs ≠ []
  funcs : m.funcs.length ≤ MAX_FUNCS
  pages : m.minPages ≤ MAX_MEM_PAGES
  data : ∀ seg ∈ m.data, 0 ≤ seg.offset.toInt ∧ seg.offset.toNat + seg.bytes.length ≤ m.minPages * PAGE_SIZE
  size : (emitModule F m).length < 2 ^ 32
  locals : ∀ f ∈ m.funcs, f.locals.length < 2 ^ 32

def codeOf : Code H where
  bodies := m.funcs.map (FuncDef.code F)
  localCounts := m.funcs.map fun f => f.locals.length
  types := m.types.map fun ft => (ft.params.length, ft.results.length)
  funcTypeIndices := m.funcs.map fun f => f.typeIdx.toNat
  importTypes := m.imports.map fun imp => imp.typeIdx.toNat
  importCount := m.imports.length
  table := .blank
  globalMutable := []
  hostFns := resolveImports lookupHost (m.imports.map fun imp => (imp.module, imp.name))
  jumpTable := buildJumpTable (m.funcs.map (FuncDef.code F))
  memLen := MAX_MEM_PAGES * PAGE_SIZE

def instanceOf : Instance H where
  code := codeOf lookupHost F m
  globals := fun _ => 0
  mem := m.initialMemory
  currentPages := m.minPages

variable {lookupHost F m} (h : Spawnable lookupHost F m)
include h

theorem Spawnable.import_count_read {ε : Type} :
    parseIf (ε := ε) (loaded F m).importSection 0 countFuncImports = .ok m.imports.length := by
  refine parseIf_some (fun hnil => by rw [hnil]; rfl) fun hne => ?_
  exact countFuncImports_emit (section_size h.size (s := (0x02, writeAll emitImport m.imports))
    (by simp [sections, hne]))

theorem Spawnable.new_eq {hostFns : Nat → Option H} :
    Interpreter.new (loaded F m) m.imports.length (MAX_MEM_PAGES * PAGE_SIZE) hostFns m.minPages =
      .ok { code := { codeOf lookupHost F m with hostFns }, globals := fun _ => 0, mem := fun _ => 0,
            currentPages := m.minPages } := by
  have hsome : (loaded F m).codeSection = some (writeAll (emitCode F) m.funcs) := by simp [loaded, h.funcs_ne]
  have hcode := code_read h.size h.funcs h.locals
  rw [hsome] at hcode
  have hsec := section_size h.size (s := (0x0A, writeAll (emitCode F) m.funcs)) (by simp [sections, h.funcs_ne])
  have hfits := parseCodeSection_fits (fits_of_size hsec) hcode
  have hglobal : parseIf (loaded F m).globalSection [] parseGlobalSection = .ok [] := rfl
  have helem : parseIf (loaded F m).elementSection .blank parseElementSection = .ok .blank := rfl
  have hbodies : (m.funcs.map fun f => (f.code F, f.locals.length)).map Prod.fst =
      m.funcs.map (FuncDef.code F) := by simp
  have hcounts : (m.funcs.map fun f => (f.code F, f.locals.length)).map Prod.snd = m.funcs.map fun f =>
      f.locals.length := by simp
  unfold Interpreter.new
  rw [types_read h.size h.types, bind_ok, functions_read h.size h.funcs, bind_ok, hsome]
  simp only [okOr, bind_ok]
  rw [show parseCodeSection _ = _ from hcode, bind_ok, hglobal, bind_ok, import_types_read h.size, bind_ok,
    helem, bind_ok,
    buildJumpTable_checked hfits, bind_ok, hbodies, hcounts]
  rfl

theorem instantiate_emitModule : instantiate lookupHost (emitModule F m) = .ok (instanceOf lookupHost F m) := by
  have hresolved : ((m.imports.map fun imp => (imp.module, imp.name)).take MAX_FUNCS).any
      (fun p => (lookupHost p.1 p.2).isNone) = false := by
    rw [List.any_eq_false]
    intro p hp
    obtain ⟨imp, himp, rfl⟩ := List.mem_map.mp (List.mem_of_mem_take hp)
    have := h.imports imp himp
    simp only [Option.isNone_iff_eq_none, ← Option.not_isSome_iff_eq_none, this, not_true, not_false_eq_true]
  have hdata : parseIf (loaded F m).dataSection (fun _ => 0)
      (fun bytes => mapErr (fun _ => RunError.interp .malformedCode)
      (initMemory bytes (MAX_MEM_PAGES * PAGE_SIZE) fun _ => 0)) = .ok m.initialMemory := by
    have hread := data_read h.size h.data (Nat.mul_le_mul_right PAGE_SIZE h.pages)
    cases hsec : (loaded F m).dataSection with
    | none =>
      rw [hsec] at hread
      have hmem : (fun _ => 0) = m.initialMemory := Except.ok.inj hread
      rw [← hmem]
      rfl
    | some bytes =>
      rw [hsec] at hread
      exact mapErr_eq_ok.mpr hread
  unfold instantiate
  rw [load_emitModule F m h.size, mapErr_ok, bind_ok, memory_read h.size, bind_ok,
    if_neg (Nat.not_lt_of_le h.pages),
    h.import_count_read, bind_ok, import_names_read h.size h.import_utf8, bind_ok, hresolved]
  simp only [Bool.false_eq_true, if_false, h.new_eq, mapErr_ok, bind_ok]
  rw [show (codeOf lookupHost F m).memLen = MAX_MEM_PAGES * PAGE_SIZE from rfl, hdata, bind_ok]
  rfl

end

end WasmOs.Asm
