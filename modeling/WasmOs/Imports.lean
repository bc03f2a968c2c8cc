import WasmOs.InstanceSpec
import WasmOs.InterpSpec
import WasmOs.Spawned

/-!
# The three walkers over the import section

`count_func_imports` and `parse_import_func_types` read the same entries. `for_each_func_import` also
decodes the names and stops at the first one that is not UTF-8, so the functions imported from there on
have no host function, though they are counted.
-/

namespace WasmOs

/-! ## What the section declares -/

structure ImportDecl where
  module : List UInt8
  name : List UInt8
  typeIdx : Option Nat
  deriving DecidableEq, Repr

/-- The entry at `cur` is the import `d` and the next one starts at `next`. -/
def ImportAt (bytes : List UInt8) (cur : Nat) (d : ImportDecl) (next : Nat) : Prop :=
  ∃ modLen c nameLen c' kind, readU32 bytes () cur = .ok (modLen, c) ∧ c + modLen ≤ bytes.length ∧
    d.module = (bytes.drop c).take modLen ∧ readU32 bytes () (c + modLen) = .ok (nameLen, c') ∧
    d.name = (bytes.drop c').take nameLen ∧ bytes[c' + nameLen]? = some kind ∧
    (kind = 0 ∧ (∃ t, d.typeIdx = some t ∧ readU32 bytes () (c' + nameLen + 1) = .ok (t, next)) ∨
      kind ≠ 0 ∧ d.typeIdx = none ∧ skipImportDesc bytes () kind (c' + nameLen + 1) = .ok next)

inductive ImportsAt (bytes : List UInt8) : Nat → List ImportDecl → Prop
  | nil {cur : Nat} : ImportsAt bytes cur []
  | cons {cur next : Nat} {d : ImportDecl} {ds : List ImportDecl} : ImportAt bytes cur d next →
    ImportsAt bytes next ds →
      ImportsAt bytes cur (d :: ds)

/-- The imports of a module with import section `sec`. -/
def Imports (sec : Option (List UInt8)) (ds : List ImportDecl) : Prop :=
  match sec with
  | none => ds = []
  | some bytes => ∃ start, readU32Leb128 bytes = some (ds.length, start) ∧ ImportsAt bytes start ds

theorem ImportAt.unique {bytes : List UInt8} {cur next next' : Nat} {d d' : ImportDecl}
    (h : ImportAt bytes cur d next) (h' : ImportAt bytes cur d' next') : d = d' ∧ next = next' := by
  obtain ⟨ml, c, nl, c', kind, hm, _, hmod, hn, hname, hk, hdesc⟩ := h
  obtain ⟨ml', e, nl', e', kind', hm', _, hmod', hn', hname', hk', hdesc'⟩ := h'
  obtain ⟨rfl, rfl⟩ : ml = ml' ∧ c = e := by simpa [hm] using hm'
  obtain ⟨rfl, rfl⟩ : nl = nl' ∧ c' = e' := by simpa [hn] using hn'
  obtain rfl : kind = kind' := by simpa [hk] using hk'
  have hsame : d.typeIdx = d'.typeIdx ∧ next = next' := by
    rcases hdesc with ⟨h0, t, ht, hr⟩ | ⟨h0, ht, hr⟩ <;> rcases hdesc' with ⟨h0', t', ht', hr'⟩ | ⟨h0', ht', hr'⟩
    · obtain ⟨rfl, rfl⟩ : t = t' ∧ next = next' := by simpa [hr] using hr'
      exact ⟨ht.trans ht'.symm, rfl⟩
    · exact absurd h0 h0'
    · exact absurd h0' h0
    · exact ⟨ht.trans ht'.symm, by simpa [hr] using hr'⟩
  obtain ⟨mod, name, typeIdx⟩ := d
  obtain ⟨mod', name', typeIdx'⟩ := d'
  simp only at hmod hmod' hname hname' hsame
  rw [hmod, hmod', hname, hname', hsame.1]
  exact ⟨rfl, hsame.2⟩

theorem ImportsAt.unique {bytes : List UInt8} : ∀ {ds ds' : List ImportDecl} {cur : Nat}, ds.length = ds'.length →
    ImportsAt bytes cur ds → ImportsAt bytes cur ds' → ds = ds'
  | [], [], _, _, _, _ => rfl
  | d :: ds, d' :: ds', cur, hlen, .cons hd hds, .cons hd' hds' => by
    obtain ⟨rfl, rfl⟩ := hd.unique hd'
    rw [ImportsAt.unique (Nat.succ.inj hlen) hds hds']

theorem Imports.unique {sec : Option (List UInt8)} {ds ds' : List ImportDecl} (h : Imports sec ds)
    (h' : Imports sec ds') :
    ds = ds' := by
  cases sec with
  | none => exact h.trans h'.symm
  | some bytes =>
    obtain ⟨start, hleb, hds⟩ := h
    obtain ⟨start', hleb', hds'⟩ := h'
    obtain ⟨hlen, rfl⟩ : ds.length = ds'.length ∧ start = start' := by simpa [hleb] using hleb'
    exact ImportsAt.unique hlen hds hds'

def funcImports (ds : List ImportDecl) : List ImportDecl := ds.filter fun d => d.typeIdx.isSome

theorem funcImports_cons (d : ImportDecl) (ds : List ImportDecl) :
    funcImports (d :: ds) = (if d.typeIdx.isSome then [d] else []) ++ funcImports ds := by
  unfold funcImports
  rw [List.filter_cons]
  split <;> simp [*]

def ImportDecl.valid (d : ImportDecl) : Bool := validUtf8 d.module && validUtf8 d.name

def ImportDecl.named (d : ImportDecl) : ImportNames := if d.typeIdx.isSome then [(d.module, d.name)] else []

/-! ## One entry -/

section
variable {bytes : List UInt8} (hfit : Fits bytes)
include hfit

omit hfit in
theorem importAt_of_typesStep {cur : Nat} {out : List Nat} {s' : Nat × List Nat}
    (h : parseImportFuncTypes.step bytes (cur, out) = .ok s') :
    ∃ d, ImportAt bytes cur d s'.1 ∧ s'.2 = out ++ d.typeIdx.toList := by
  simp only [parseImportFuncTypes.step] at h
  obtain ⟨⟨ml, c⟩, hm, h⟩ := bind_eq_ok.mp h
  obtain ⟨c1, h1, h⟩ := bind_eq_ok.mp h
  obtain ⟨_, rfl⟩ := uadd_eq_ok.mp h1
  obtain ⟨⟨nl, c'⟩, hn, h⟩ := bind_eq_ok.mp h
  have hmod : c + ml ≤ bytes.length := by
    by_contra hgt
    rw [readU32, readAt_of_gt (by omega)] at hn
    cases hn
  obtain ⟨c2, h2, h⟩ := bind_eq_ok.mp h
  obtain ⟨_, rfl⟩ := uadd_eq_ok.mp h2
  obtain ⟨kind, hk, h⟩ := bind_eq_ok.mp h
  obtain ⟨c3, h3, h⟩ := bind_eq_ok.mp h
  obtain ⟨_, rfl⟩ := uadd_eq_ok.mp h3
  have hkl := getElem?_lt (okOr_eq_ok.mp hk)
  simp only at hkl
  have hrm : readU32 bytes () cur = .ok (ml, c) := by rw [readU32_err _, hm]; rfl
  have hrn : readU32 bytes () (c + ml) = .ok (nl, c') := by rw [readU32_err _, hn]; rfl
  split at h
  · rename_i h0
    obtain ⟨⟨t, c''⟩, ht, h⟩ := bind_eq_ok.mp h
    cases h
    refine ⟨⟨(bytes.drop c).take ml, (bytes.drop c').take nl, some t⟩, ?_, rfl⟩
    exact ⟨ml, c, nl, c', kind, hrm, hmod, rfl, hrn, rfl, okOr_eq_ok.mp hk,
      .inl ⟨h0, t, rfl, by rw [readU32_err _, ht]; rfl⟩⟩
  · rename_i h0
    obtain ⟨c'', hd, h⟩ := bind_eq_ok.mp h
    cases h
    refine ⟨⟨(bytes.drop c).take ml, (bytes.drop c').take nl, none⟩, ?_, (List.append_nil out).symm⟩
    exact ⟨ml, c, nl, c', kind, hrm, hmod, rfl, hrn, rfl, okOr_eq_ok.mp hk,
      .inr ⟨h0, rfl, by rw [skipImportDesc_err _, hd]; rfl⟩⟩

/-- `count_func_imports` counts the functions; the count stays below the cursor. -/
theorem countStep_of_import {ε : Type} {cur next fc : Nat} {d : ImportDecl} (hfc : fc ≤ cur)
    (h : ImportAt bytes cur d next) :
    countFuncImports.step (ε := ε) bytes (cur, fc) = .ok (next, fc + d.typeIdx.toList.length) ∧
      fc + d.typeIdx.toList.length ≤ next := by
  have hlen : bytes.length < 2 ^ 63 := hfit
  obtain ⟨modLen, c, nameLen, c', kind, hm, hfitm, _, hn, _, hk, hdesc⟩ := h
  have hb := readU32_bounds hfit hm
  have hb' := readU32_bounds hfit hn
  have hkl := getElem?_lt hk
  simp only [countFuncImports.step]
  rw [readU32_err _, hm, mapErr_ok, bind_ok]
  simp only
  rw [uadd_of_lt (by omega), bind_ok, if_neg (by omega), readU32_err _, hn, mapErr_ok, bind_ok]
  simp only
  rw [uadd_of_lt (by omega), bind_ok, hk, okOr, bind_ok, uadd_of_lt (by omega), bind_ok]
  rcases hdesc with ⟨rfl, t, htype, ht⟩ | ⟨hk0, htype, hd⟩
  · have := readU32_bounds hfit ht
    rw [if_pos rfl, readU32_err _, ht, mapErr_ok, bind_ok, uadd_of_lt (by omega), htype]
    exact ⟨rfl, show fc + 1 ≤ next by omega⟩
  · have := (total_skipImportDesc hfit (by omega)).2 next hd
    rw [if_neg hk0, skipImportDesc_err _, hd, mapErr_ok, htype]
    exact ⟨rfl, show fc ≤ next by omega⟩

/-- `for_each_func_import` stops at a name that is not UTF-8. -/
theorem namesStep_of_import {ε : Type} {cur next : Nat} {acc : ImportNames} {d : ImportDecl}
    (h : ImportAt bytes cur d next) :
    forEachFuncImport.step (ε := ε) bytes (cur, acc) =
      if d.valid then .ok (next, acc ++ d.named) else .error (.err (.inr (cur, acc))) := by
  have hlen : bytes.length < 2 ^ 63 := hfit
  obtain ⟨modLen, c, nameLen, c', kind, hm, hfitm, hmod, hn, hname, hk, hdesc⟩ := h
  have hb := readU32_bounds hfit hm
  have hb' := readU32_bounds hfit hn
  have hkl := getElem?_lt hk
  simp only [forEachFuncImport.step]
  rw [readU32_err _, hm, mapErr_ok, bind_ok]
  simp only
  rw [uadd_of_lt (by omega), bind_ok, if_neg (by omega), ← hmod]
  by_cases hv : validUtf8 d.module = false
  · rw [if_pos hv, if_neg (by simp [ImportDecl.valid, hv])]
  rw [if_neg hv, readU32_err _, hn, mapErr_ok, bind_ok]
  simp only
  rw [uadd_of_lt (by omega), bind_ok, if_neg (by omega), ← hname]
  by_cases hv' : validUtf8 d.name = false
  · rw [if_pos hv', if_neg (by simp [ImportDecl.valid, hv'])]
  have hvalid : d.valid = true := by simp [ImportDecl.valid, hv, hv']
  rw [if_neg hv', hk, okOr, bind_ok, uadd_of_lt (by omega), bind_ok, if_pos hvalid]
  rcases hdesc with ⟨rfl, t, htype, ht⟩ | ⟨hk0, htype, hd⟩
  · rw [if_pos rfl, readU32_err _, ht, mapErr_ok, bind_ok, ImportDecl.named, htype]
    rfl
  · rw [if_neg hk0, skipImportDesc_err _, hd, mapErr_ok, ImportDecl.named, htype]
    simp

/-! ## The whole section -/

omit hfit in
theorem importsAt_of_types : ∀ {count cur last : Nat} {out out' : List Nat},
    iter (parseImportFuncTypes.step bytes) count (cur, out) = .ok (last, out') →
    ∃ ds, ds.length = count ∧ ImportsAt bytes cur ds ∧ out' = out ++ ds.filterMap ImportDecl.typeIdx
  | 0, cur, last, out, out', h => by
    cases h
    exact ⟨[], rfl, .nil, by simp⟩
  | count + 1, cur, last, out, out', h => by
    obtain ⟨⟨next, out₁⟩, hstep, h⟩ := bind_eq_ok.mp h
    obtain ⟨d, hd, hout⟩ := importAt_of_typesStep hstep
    obtain ⟨ds, hlen, hds, hout'⟩ := importsAt_of_types h
    refine ⟨d :: ds, by rw [List.length_cons, hlen], .cons hd hds, ?_⟩
    rw [hout', show out₁ = _ from hout, List.append_assoc]
    congr 1
    cases ht : d.typeIdx <;> simp [ht]

theorem count_of_imports {ε : Type} : ∀ {ds : List ImportDecl} {cur fc : Nat}, fc ≤ cur → ImportsAt bytes cur ds →
    ∃ last, iter (countFuncImports.step (ε := ε) bytes) ds.length (cur, fc) =
    .ok (last, fc + (funcImports ds).length)
  | [], cur, fc, _, _ => ⟨cur, rfl⟩
  | d :: ds, cur, fc, hfc, h => by
    cases h with
    | cons hd hds =>
      obtain ⟨hstep, hle⟩ := countStep_of_import (ε := ε) hfit hfc hd
      obtain ⟨last, hlast⟩ := count_of_imports (ε := ε) hle hds
      refine ⟨last, ?_⟩
      rw [List.length_cons, iter, hstep, bind_ok, hlast, funcImports_cons, List.length_append, Nat.add_assoc]
      cases ht : d.typeIdx <;> simp

theorem names_of_imports {ε : Type} :
    ∀ {ds : List ImportDecl} {cur : Nat} {acc : ImportNames}, ImportsAt bytes cur ds →
    ∃ last, orReturn (iter (forEachFuncImport.step (ε := ε) bytes) ds.length (cur, acc)) =
      .ok (last, acc ++ (ds.takeWhile ImportDecl.valid).flatMap ImportDecl.named)
  | [], cur, acc, _ => ⟨cur, by simp [iter, orReturn]⟩
  | d :: ds, cur, acc, h => by
    cases h with
    | cons hd hds =>
      rw [List.length_cons, iter, namesStep_of_import hfit hd]
      by_cases hv : d.valid = true
      · obtain ⟨last, hlast⟩ := @names_of_imports ε _ _ (acc ++ d.named) hds
        refine ⟨last, ?_⟩
        rw [if_pos hv, bind_ok, hlast, List.takeWhile_cons_of_pos hv, List.flatMap_cons, List.append_assoc]
      · refine ⟨cur, ?_⟩
        rw [if_neg hv, List.takeWhile_cons_of_neg hv]
        simp [orReturn]

end

/-! ## The spawned module -/

def Readable (ds : List ImportDecl) : Prop := ∀ before d after, ds = before ++ d :: after → d.valid = true ∨
    funcImports (d :: after) = []

theorem flatMap_named (ds : List ImportDecl) :
    ds.flatMap ImportDecl.named = (funcImports ds).map fun d => (d.module, d.name) := by
  induction ds with
  | nil => rfl
  | cons d ds ih =>
    rw [List.flatMap_cons, ih, funcImports_cons, ImportDecl.named, List.map_append]
    cases d.typeIdx.isSome <;> simp

theorem readable_cons {d : ImportDecl} {ds : List ImportDecl} :
    Readable (d :: ds) ↔ (d.valid = true ∨ funcImports (d :: ds) = []) ∧ Readable ds := by
  constructor
  · intro h
    exact ⟨h [] d ds rfl, fun before d' after hds => h (d :: before) d' after (by rw [hds]; rfl)⟩
  · rintro ⟨hd, hds⟩ before d' after heq
    cases before with
    | nil =>
      cases heq
      exact hd
    | cons _ before =>
      cases heq
      exact hds before d' after rfl

/-- The walk that stops at a bad name has met every function. -/
theorem readable_iff :
    ∀ ds : List ImportDecl, Readable ds ↔ funcImports (ds.takeWhile ImportDecl.valid) = funcImports ds
  | [] => iff_of_true (fun before d after h => by simp at h) rfl
  | d :: ds => by
    rw [readable_cons]
    by_cases hv : d.valid = true
    · rw [List.takeWhile_cons_of_pos hv, funcImports_cons, funcImports_cons,
        List.append_cancel_left_eq, ← readable_iff ds]
      exact and_iff_right (.inl hv)
    · rw [List.takeWhile_cons_of_neg hv]
      have hnil : Readable ds ∨ funcImports (d :: ds) ≠ [] := by
        by_cases hno : funcImports (d :: ds) = []
        · rw [funcImports_cons, List.append_eq_nil_iff] at hno
          refine .inl ((readable_iff ds).mpr ?_)
          have hsub : List.Sublist (funcImports (ds.takeWhile ImportDecl.valid)) (funcImports ds) :=
            (List.takeWhile_sublist _).filter _
          rw [hno.2] at hsub ⊢
          exact List.sublist_nil.mp hsub
        · exact .inr hno
      constructor
      · rintro ⟨hd, _⟩
        exact (hd.resolve_left hv).symm
      · intro hno
        exact ⟨.inr hno.symm, hnil.resolve_right fun hne => hne hno.symm⟩

section
variable {ω : Type} {lookupHost : List UInt8 → List UInt8 → Option (HostFn ω)} {bytes : List UInt8}
  {inst : Instance (HostFn ω)}
  {m : Module}

/-- The three walkers met the functions of `ds` in order, each with its host function and its type. -/
structure ImportsResolved (lookupHost : List UInt8 → List UInt8 → Option (HostFn ω)) (m : Module)
    (code : Code (HostFn ω))
    (ds : List ImportDecl) : Prop where
  count : code.importCount = (funcImports ds).length
  names : parseIf m.importSection [] (forEachFuncImport (ε := RunError)) =
    .ok ((funcImports ds).map fun d => (d.module, d.name))
  host : ∀ i d, (funcImports ds)[i]? = some d → ∃ h, code.hostFns i = some h ∧ lookupHost d.module d.name = some h
  types : ∀ i d, (funcImports ds)[i]? = some d → d.typeIdx = some (allFuncTypes code i)

theorem filterMap_typeIdx (ds : List ImportDecl) :
    ds.filterMap ImportDecl.typeIdx = (funcImports ds).filterMap ImportDecl.typeIdx := by
  induction ds with
  | nil => rfl
  | cons d ds ih =>
    rw [funcImports_cons, List.filterMap_append, ← ih]
    cases ht : d.typeIdx <;> simp [ht]

theorem getElem?_typeIdx {ds : List ImportDecl} {i : Nat} {d : ImportDecl} (h : (funcImports ds)[i]? = some d) :
    ∃ t, d.typeIdx = some t ∧ (ds.filterMap ImportDecl.typeIdx)[i]? = some t := by
  have hall : ∀ d ∈ funcImports ds, d.typeIdx.isSome := fun d hd => by
    have := (List.mem_filter.mp hd).2
    simpa using this
  rw [filterMap_typeIdx]
  generalize funcImports ds = fs at h hall
  induction fs generalizing i with
  | nil => simp at h
  | cons f fs ih =>
    obtain ⟨t, ht⟩ := Option.isSome_iff_exists.mp (hall f List.mem_cons_self)
    rw [List.filterMap_cons_some ht]
    cases i with
    | zero =>
      cases h
      exact ⟨t, ht, rfl⟩
    | succ i => exact ih h fun d hd => hall d (List.mem_cons_of_mem _ hd)

theorem resolved_of_instantiate (h : instantiate lookupHost bytes = .ok inst) {names : ImportNames}
    (hm : load bytes = .ok m)
    (hnames : parseIf m.importSection [] (forEachFuncImport (ε := RunError)) = .ok names) :
    ∀ p ∈ names.take MAX_FUNCS, (lookupHost p.1 p.2).isSome := by
  unfold instantiate at h
  rw [hm, mapErr_ok, bind_ok] at h
  obtain ⟨pages, _, h⟩ := bind_eq_ok.mp h
  split at h
  · cases h
  obtain ⟨importCount, _, h⟩ := bind_eq_ok.mp h
  rw [hnames, bind_ok] at h
  split at h
  · cases h
  rename_i hany
  intro p hp
  by_contra hno
  refine hany (List.any_eq_true.mpr ⟨p, hp, ?_⟩)
  simpa using hno

theorem walkers_of_instantiate (hfit : Fits bytes) (h : instantiate lookupHost bytes = .ok inst)
    (hm : load bytes = .ok m) :
    ∃ ds, Imports m.importSection ds ∧ inst.code.importCount = (funcImports ds).length ∧
      parseIf m.importSection [] (forEachFuncImport (ε := RunError)) =
        .ok ((funcImports (ds.takeWhile ImportDecl.valid)).map fun d => (d.module, d.name)) ∧
      inst.code.importTypes = ds.filterMap ImportDecl.typeIdx ∧
      inst.code.hostFns = resolveImports lookupHost ((funcImports (ds.takeWhile ImportDecl.valid)).map
        fun d => (d.module, d.name)) := by
  obtain ⟨m', pages, importCount, names, inst', hm', _, hcount, hnames, hnew, hcode, _, _⟩ := instantiate_inv h
  obtain rfl : m = m' := Except.ok.inj (hm.symm.trans hm')
  obtain ⟨types, funcs, codeBytes, bodies, globals, importTypes, table, jumps, _, _, _, _, _, htypes, _, _,
    rfl⟩ := interpreterNew_inv hnew
  rw [hcode]
  obtain ⟨_, hsec, _⟩ := load_sections hfit hm
  cases hsome : m.importSection with
  | none =>
    rw [hsome] at hcount hnames htypes
    cases hcount
    cases hnames
    cases htypes
    exact ⟨[], rfl, rfl, rfl, rfl, rfl⟩
  | some sec =>
    rw [hsome] at hcount hnames htypes
    have hfits : Fits sec := hsec sec hsome
    obtain ⟨⟨count, start⟩, hread, htypes⟩ := bind_eq_ok.mp htypes
    obtain ⟨⟨last, out⟩, hiter, htypes⟩ := bind_eq_ok.mp htypes
    cases htypes
    obtain ⟨ds, rfl, hds, hout⟩ := importsAt_of_types hiter
    obtain ⟨_, n, hleb, hstart⟩ := (readU32_eq_ok hfits).mp hread
    rw [List.drop_zero] at hleb
    rw [Nat.zero_add] at hstart
    subst hstart
    obtain ⟨last', hcnt⟩ := count_of_imports (ε := RunError) hfits (Nat.zero_le start) hds
    obtain ⟨last'', hnms⟩ := @names_of_imports _ hfits RunError ds start [] hds
    have hhead (e : RunError ⊕ Nat × Nat) : readU32 sec e 0 = .ok (ds.length, start) := by
      rw [readU32_err _, hread]
      rfl
    have hhead' (e : RunError ⊕ Nat × ImportNames) : readU32 sec e 0 = .ok (ds.length, start) := by
      rw [readU32_err _, hread]
      rfl
    have hcount' : countFuncImports (ε := RunError) sec = .ok (funcImports ds).length := by
      simp only [countFuncImports, hhead, bind_ok, hcnt, orReturn, Nat.zero_add]
    have hnames' : forEachFuncImport (ε := RunError) sec =
        .ok ((funcImports (ds.takeWhile ImportDecl.valid)).map fun d => (d.module, d.name)) := by
      simp only [forEachFuncImport, hhead', bind_ok, hnms, List.nil_append, flatMap_named]
    have hcount := Except.ok.inj (hcount.symm.trans hcount')
    have hnames := Except.ok.inj (hnames.symm.trans hnames')
    subst hcount hnames
    exact ⟨ds, ⟨start, hleb, hds⟩, rfl, hnames', hout, rfl⟩

theorem funcImports_takeWhile {ds : List ImportDecl}
    (h : (funcImports (ds.takeWhile ImportDecl.valid)).length = (funcImports ds).length) :
    funcImports (ds.takeWhile ImportDecl.valid) = funcImports ds :=
  ((List.takeWhile_sublist _).filter _).eq_of_length h

/-- The imports of a spawned module are resolved exactly when there are at most `MAX_FUNCS` functions among them and
each of these is read before a name that is not UTF-8. -/
theorem imports_resolved_iff (hfit : Fits bytes) (h : instantiate lookupHost bytes = .ok inst)
    (hm : load bytes = .ok m) :
    (∃ ds, Imports m.importSection ds) ∧ ∀ ds, Imports m.importSection ds →
      (ImportsResolved lookupHost m inst.code ds ↔ (funcImports ds).length ≤ MAX_FUNCS ∧ Readable ds) := by
  obtain ⟨ds, hds, hcount, hnames, htypes, hhost⟩ := walkers_of_instantiate hfit h hm
  refine ⟨⟨ds, hds⟩, fun ds' hds' => ?_⟩
  obtain rfl := hds.unique hds'
  constructor
  · intro hres
    constructor
    · by_contra hmany
      obtain ⟨hf, hsome, _⟩ := hres.host MAX_FUNCS _ (List.getElem?_eq_getElem (Nat.lt_of_not_le hmany))
      rw [hhost, resolveImports, if_neg (Nat.lt_irrefl _)] at hsome
      cases hsome
    · have hn := congrArg List.length (Except.ok.inj (hnames.symm.trans hres.names))
      rw [List.length_map, List.length_map] at hn
      exact (readable_iff ds).mpr (funcImports_takeWhile hn)
  · rintro ⟨hmax, hread⟩
    rw [readable_iff] at hread
    rw [hread] at hnames hhost
    refine ⟨hcount, hnames, fun i d hi => ?_, fun i d hi => ?_⟩
    · have hlt : i < MAX_FUNCS := Nat.lt_of_lt_of_le (List.getElem?_eq_some_iff.mp hi).1 hmax
      have hname : ((funcImports ds).map fun d => (d.module, d.name))[i]? = some (d.module, d.name) := by
        rw [List.getElem?_map, hi]
        rfl
      have hmem : (d.module, d.name) ∈ ((funcImports ds).map fun d => (d.module, d.name)).take MAX_FUNCS := by
        rw [List.take_of_length_le (by rwa [List.length_map])]
        exact List.mem_of_getElem? hname
      obtain ⟨f, hf⟩ := Option.isSome_iff_exists.mp (resolved_of_instantiate h hm hnames _ hmem)
      refine ⟨f, ?_, hf⟩
      rw [hhost, resolveImports, if_pos hlt, hname]
      exact hf
    · obtain ⟨t, ht, hti⟩ := getElem?_typeIdx hi
      have hlt := (List.getElem?_eq_some_iff.mp hi).1
      rw [allFuncTypes, if_neg (by omega), htypes, List.getD_eq_getElem?_getD, hti, ht]
      rfl

end

/-- A module that imports two functions, the first from a module with the one-byte name `b`. -/
def twoImports (b : UInt8) : List UInt8 :=
  [0x00, 0x61, 0x73, 0x6D, 1, 0, 0, 0] ++ [0x01, 4, 1, 0x60, 0, 0] ++
    [0x02, 13, 2, 1, b, 1, 0x70, 0, 0, 1, 0x65, 1, 0x71, 0, 0] ++ [0x0A, 1, 0]

def registered (_ name : List UInt8) : Option (HostFn Unit) :=
  if name = [0x70] ∨ name = [0x71] then some hostYield else none

theorem twoImports_resolved :
    ∃ m inst ds, load (twoImports 0x65) = .ok m ∧ instantiate registered (twoImports 0x65) = .ok inst ∧
    (funcImports ds).length = 2 ∧ ImportsResolved registered m inst.code ds := by
  let d (b : UInt8) : ImportDecl := ⟨[0x65], [b], some 0⟩
  let sec : List UInt8 := [2, 1, 0x65, 1, 0x70, 0, 0, 1, 0x65, 1, 0x71, 0, 0]
  obtain ⟨m, hm, hsec⟩ : ∃ m, load (twoImports 0x65) = .ok m ∧ m.importSection = some sec := ⟨_, rfl, rfl⟩
  obtain ⟨inst, hinst⟩ : ∃ inst, instantiate registered (twoImports 0x65) = .ok inst := ⟨_, rfl⟩
  refine ⟨m, inst, [d 0x70, d 0x71], hm, hinst, rfl, ?_⟩
  apply ((imports_resolved_iff (show _ < _ by decide) hinst hm).2 _ ?_).mpr
  · exact ⟨by decide, (readable_iff _).mpr (by decide)⟩
  · rw [hsec]
    have hfirst : ImportAt sec 1 (d 0x70) 7 :=
      ⟨1, 2, 1, 4, 0, by decide, by decide, rfl, by decide, rfl, rfl, .inl ⟨rfl, 0, rfl, by decide⟩⟩
    have hsecond : ImportAt sec 7 (d 0x71) 13 :=
      ⟨1, 8, 1, 10, 0, by decide, by decide, rfl, by decide, rfl, rfl, .inl ⟨rfl, 0, rfl, by decide⟩⟩
    exact ⟨1, by decide, .cons hfirst (.cons hsecond .nil)⟩

/-- With a name that is not UTF-8 neither import has a host function. -/
theorem badName_unresolved : ¬ ∀ (bytes : List UInt8) (inst : Instance (HostFn Unit)), Fits bytes →
    instantiate registered bytes = .ok inst → ∀ i < inst.code.importCount, (inst.code.hostFns i).isSome := by
  intro h
  obtain ⟨inst, hinst, hcount, hhost⟩ : ∃ inst, instantiate registered (twoImports 0xFF) = .ok inst ∧
      inst.code.importCount = 2 ∧
      inst.code.hostFns 0 = none := ⟨_, rfl, rfl, rfl⟩
  have hsome := h (twoImports 0xFF) inst (show _ < _ by decide) hinst 0 (by rw [hcount]; decide)
  rw [hhost] at hsome
  cases hsome

end WasmOs
