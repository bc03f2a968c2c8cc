import WasmOs.ModuleParse
import WasmOs.Resolve

/-!
# The names of functions

A name is given the index it gets in the module that is read so far, and a reference is resolved where it
stands. In the module the imports come before the functions of its own, whatever order they are written in.
-/

namespace WasmOs.Asm

variable {F : FloatOps} {rest : List Token} {ns : Names} {p q : Parser} {m : Module} {R R' : Names → Resolver}

/-! ## Indices -/

def Field.imported : Field F → Option (Option Name)
  | .import _ _ (.func name _ _) => some name
  | funcImport name .. => some name
  | _ => none

def Field.defined : Field F → Option (Option Name)
  | func f => some f.name
  | _ => none

def funcSpace (fields : List (Field F)) : List (Option Name) :=
  fields.filterMap Field.imported ++ fields.filterMap Field.defined

def finalIndex (fields : List (Field F)) (x : Name) : Option UInt32 :=
  ((funcSpace fields).findIdx? (· = some x)).bind fun i => if i < 2 ^ 32 then some (UInt32.ofNat i) else none

def Names.final (fields : List (Field F)) (ns : Names) : Resolver := { ns.resolver with func := finalIndex fields }

/-- The index a field gives to its name, behind so many imports and functions. -/
def Field.noted (imports funcs : Nat) : Field F → NameTable
  | .import _ _ (.func name _ _) => NameTable.note [] name (UInt32.ofNat imports)
  | func f => NameTable.note [] f.name (UInt32.ofNat (imports + funcs))
  | funcImport name .. => NameTable.note [] name (UInt32.ofNat (imports + funcs))
  | _ => []

def notedNames : Nat → Nat → List (Field F) → NameTable
  | _, _, [] => []
  | imports, funcs, f :: fields =>
    f.noted imports funcs ++ notedNames (imports + f.imported.toList.length)
      (funcs + f.defined.toList.length) fields

def indexSoFar (fields : List (Field F)) (x : Name) : UInt32 := ((notedNames 0 0 fields).lookup x).getD 0

/-! ## References -/

def Op.callee : Op F → List Name
  | call x => [x]
  | _ => []

def Body.calls : Body F → List Name
  | nil => []
  | op _ o args rest => args.calls ++ o.callee ++ rest.calls
  | block _ _ _ _ body rest => body.calls ++ rest.calls
  | cond _ _ _ test thn els rest => test.calls ++ thn.calls ++ els.calls ++ rest.calls

def Field.refs : Field F → List Name
  | func f => f.body.calls
  | .export _ .func (.name x) => [x]
  | _ => []

/-- The field has no part in the imports, the functions or the exports of functions. -/
def Field.inert : Field F → Bool
  | .import _ _ (.func ..) | func _ | funcImport .. | .export _ .func _ => false
  | _ => true

/-! ## What is read of a module -/

theorem loop_reads (fields : List (Field F)) {fuel : Nat} {m' : Module}
    (hp : p.At F (fields.flatMap Field.tokens ++ .rparen :: rest) ns)
    (hloop : Parser.parseModule.loop F fuel p m = .ok (m', q)) :
    ∃ m₀ ns₀, denoteFields Names.resolver m ns (fields.takeWhile (·.Kept)) = some (m₀, ns₀) ∧
    m'.functions = m₀.functions := by
  induction fields generalizing fuel p m ns with
  | nil =>
    cases fuel with
    | zero => cases hloop
    | succ fuel =>
      have hla : ¬ p.lookahead = some .lparen := by
        rw [hp.lookahead]
        simp
      rw [Parser.parseModule.loop, if_neg hla] at hloop
      cases hloop
      exact ⟨_, ns, rfl, rfl⟩
  | cons f fields ih =>
    cases fuel with
    | zero => cases hloop
    | succ fuel =>
      rw [List.flatMap_cons, List.append_assoc, fieldTokens_eq] at hp
      have hla : p.lookahead = some .lparen := hp.lookahead
      obtain ⟨q₁, h₁, hat₁⟩ := hp.expectLparen
      obtain ⟨hgives, hstrays⟩ := parseField_reads (m := m) f hat₁
      rw [Parser.parseModule.loop, if_pos hla, h₁, bind_ok] at hloop
      obtain ⟨r, hr, hloop⟩ := bind_eq_ok.mp hloop
      obtain ⟨m₁, q₂⟩ := r
      dsimp only at hloop
      by_cases hkept : f.Kept
      · have hfield := hgives hkept
        rw [List.takeWhile_cons_of_pos (by simpa using hkept), denoteFields]
        cases hone : f.denote Names.resolver m ns with
        | none =>
          rw [hone] at hfield
          obtain ⟨e, he⟩ := hfield
          cases hr.symm.trans he
        | some one =>
          rw [hone] at hfield
          obtain ⟨q₂', hr', hat₂⟩ := hfield
          cases hr.symm.trans hr'
          exact ih hat₂ hloop
      · rw [List.takeWhile_cons_of_neg (by simpa using hkept)]
        obtain ⟨hsame, us, ns', hat₂, -, hhead⟩ := hstrays hkept m₁ q₂ hr
        refine ⟨m, ns, rfl, ?_⟩
        cases fuel with
        | zero => cases hloop
        | succ fuel =>
          have hla₂ : ¬ q₂.lookahead = some .lparen := by
            rw [hat₂.lookahead]
            exact hhead
          rw [Parser.parseModule.loop, if_neg hla₂] at hloop
          cases hloop
          exact hsame

/-- The functions of an accepted module are those of the fields before the first that is not kept. -/
theorem accepted_reads (name : Option Name) (fields : List (Field F))
    (hp : p.At F (moduleTokens name fields ++ rest) ⟨[], [], []⟩) (hparse : p.parseModule F = .ok (m, q)) :
    ∃ m₀ ns₀, denoteFields Names.resolver {} ⟨[], [], []⟩ (fields.takeWhile (·.Kept)) = some (m₀, ns₀) ∧
    m.functions = m₀.functions := by
  obtain ⟨p₁, p₂, p₃, h₁, h₂, h₃, hat₃⟩ := module_start name fields hp
  rw [Parser.parseModule, h₁, bind_ok, h₂, bind_ok, h₃, bind_ok] at hparse
  obtain ⟨r, hloop, hparse⟩ := bind_eq_ok.mp hparse
  obtain ⟨m', q'⟩ := r
  obtain ⟨q'', -, hparse⟩ := bind_eq_ok.mp hparse
  cases hparse
  exact loop_reads fields hat₃ hloop

/-! ## Modules under two readings -/

theorem denoteFields_cons {f : Field F} {fields : List (Field F)} :
    denoteFields R m ns (f :: fields) = (f.denote R m ns).bind fun r => denoteFields R r.1 r.2 fields := rfl

theorem denoteFields_append (xs ys : List (Field F)) :
    denoteFields R m ns (xs ++ ys) = (denoteFields R m ns xs).bind fun r => denoteFields R r.1 r.2 ys := by
  induction xs generalizing m ns with
  | nil => rfl
  | cons f xs ih =>
    rw [List.cons_append, denoteFields_cons, denoteFields_cons, Option.bind_assoc]
    congr 1
    funext r
    exact ih

/-- The module has the functions of another and more behind them. -/
structure Extends (m m' : Module) : Prop where
  imports : m.imports <+: m'.imports
  funcs : m.funcs <+: m'.funcs
  exports : (m.exports.filter fun e => e.kind == 0x00) <+: m'.exports.filter fun e => e.kind == 0x00

theorem Extends.refl (m : Module) : Extends m m := ⟨List.prefix_refl _, List.prefix_refl _, List.prefix_refl _⟩

theorem Extends.trans {m m' m'' : Module} (h : Extends m m') (h' : Extends m' m'') : Extends m m'' :=
  ⟨h.imports.trans h'.imports, h.funcs.trans h'.funcs, h.exports.trans h'.exports⟩

theorem denote_extends {f : Field F} {r : Module × Names} (h : f.denote R m ns = some r) : Extends m r.1 := by
  cases f with
  | type name groups =>
    cases h
    exact ⟨List.prefix_refl _, List.prefix_refl _, List.prefix_refl _⟩
  | «import» mod name desc =>
    cases desc with
    | func id ref groups =>
      obtain ⟨use, -, h⟩ := Option.bind_eq_some_iff.mp h
      cases h
      exact ⟨List.prefix_append .., List.prefix_refl _, List.prefix_refl _⟩
    | other kw kind inside =>
      cases h
      exact Extends.refl m
  | func f =>
    obtain ⟨use, -, h⟩ := Option.bind_eq_some_iff.mp h
    obtain ⟨body, -, h⟩ := Option.bind_eq_some_iff.mp h
    cases h
    exact ⟨List.prefix_refl _, List.prefix_append .., (List.prefix_append ..).filter _⟩
  | funcImport name exports mod field ref groups =>
    obtain ⟨use, -, h⟩ := Option.bind_eq_some_iff.mp h
    cases h
    exact ⟨List.prefix_append .., List.prefix_refl _, (List.prefix_append ..).filter _⟩
  | memory name inline limits =>
    rw [Field.denote] at h
    split at h
    · cases h
      exact Extends.refl m
    · cases h
      exact ⟨List.prefix_refl _, List.prefix_refl _, List.prefix_refl _⟩
  | «export» name kind ref =>
    obtain ⟨idx, -, h⟩ := Option.bind_eq_some_iff.mp h
    cases h
    exact ⟨List.prefix_refl _, List.prefix_refl _, (List.prefix_append ..).filter _⟩
  | data name mem offset strings =>
    cases h
    exact ⟨List.prefix_refl _, List.prefix_refl _, List.prefix_refl _⟩
  | skipped kw kind inside =>
    cases h
    exact Extends.refl m

theorem denoteFields_extends {fields : List (Field F)} {r : Module × Names}
    (h : denoteFields R m ns fields = some r) : Extends m r.1 := by
  induction fields generalizing m ns with
  | nil =>
    cases h
    exact Extends.refl m
  | cons f fields ih =>
    obtain ⟨one, hone, hmore⟩ := Option.bind_eq_some_iff.mp h
    exact (denote_extends hone).trans (ih hmore)

/-- How many imports, functions and exports of functions a field adds. -/
def Field.adds : Field F → Nat
  | .import _ _ (.func ..) | .export _ .func _ => 1
  | func f => 1 + f.exports.length
  | funcImport _ exports _ _ _ _ => 1 + exports.length
  | _ => 0

def Module.count (m : Module) : Nat :=
  m.imports.length + m.funcs.length + (m.exports.filter fun e => e.kind == 0x00).length

theorem addExports_count (exports : List (List UInt8)) (idx : UInt32) :
    (m.addExports exports idx).count = m.count + exports.length := by
  have hkinds : (exports.map fun e => (⟨unescapeWatString e, 0x00, idx⟩ : Export)).filter
      (fun e => e.kind == 0x00) =
      exports.map fun e => (⟨unescapeWatString e, 0x00, idx⟩ : Export) := by
    refine List.filter_eq_self.mpr fun e he => ?_
    obtain ⟨s, -, rfl⟩ := List.mem_map.mp he
    rfl
  rw [Module.count, Module.addExports, List.filter_append, hkinds, List.length_append, List.length_map,
    Module.count]
  dsimp only
  omega

theorem inert_iff_adds {f : Field F} : f.inert = true ↔ f.adds = 0 := by
  unfold Field.inert Field.adds
  split <;> simp

theorem denote_count {f : Field F} {r : Module × Names} (h : f.denote R m ns = some r) :
    r.1.count = m.count + f.adds := by
  cases f with
  | type name groups =>
    cases h
    rfl
  | «import» mod name desc =>
    cases desc with
    | func id ref groups =>
      obtain ⟨use, -, h⟩ := Option.bind_eq_some_iff.mp h
      cases h
      simp [Module.count, Field.adds]
      omega
    | other kw kind inside =>
      cases h
      rfl
  | func f =>
    obtain ⟨use, -, h⟩ := Option.bind_eq_some_iff.mp h
    obtain ⟨body, -, h⟩ := Option.bind_eq_some_iff.mp h
    cases h
    have hexports := addExports_count (m := m) f.exports m.nextFunc
    simp only [Module.count, Field.adds, Module.addExports, List.length_append, List.length_singleton] at hexports ⊢
    omega
  | funcImport name exports mod field ref groups =>
    obtain ⟨use, -, h⟩ := Option.bind_eq_some_iff.mp h
    cases h
    have hexports := addExports_count (m := m) exports m.nextFunc
    simp only [Module.count, Field.adds, Module.addExports, List.length_append, List.length_singleton] at hexports ⊢
    omega
  | memory name inline limits =>
    rw [Field.denote] at h
    split at h
    · cases h
      rfl
    · cases h
      rfl
  | «export» name kind ref =>
    obtain ⟨idx, -, h⟩ := Option.bind_eq_some_iff.mp h
    cases h
    cases kind <;> simp [Module.count, Field.adds, ExportKind.byte]
    omega
  | data name mem offset strings =>
    cases h
    rfl
  | skipped kw kind inside =>
    cases h
    rfl

theorem denoteFields_count {fields : List (Field F)} {r : Module × Names}
    (h : denoteFields R m ns fields = some r) :
    r.1.count = m.count + (fields.map Field.adds).sum := by
  induction fields generalizing m ns with
  | nil =>
    cases h
    rfl
  | cons f fields ih =>
    obtain ⟨one, hone, hmore⟩ := Option.bind_eq_some_iff.mp h
    rw [ih hmore, denote_count hone, List.map_cons, List.sum_cons]
    omega

/-- If the functions are those that one reading has before the last fields, these fields add none under
another reading. -/
theorem inert_of_count {xs ys : List (Field F)} {r s t : Module × Names}
    (h : denoteFields R {} ⟨[], [], []⟩ xs = some r)
    (h' : denoteFields R' {} ⟨[], [], []⟩ xs = some s) (hmore : denoteFields R' s.1 s.2 ys = some t)
    (hsame : t.1.functions = r.1.functions) : ∀ f ∈ ys, f.inert = true := by
  have hcount : t.1.count = r.1.count := by
    simp only [Module.functions, Prod.mk.injEq] at hsame
    rw [Module.count, Module.count, hsame.1, hsame.2.1, hsame.2.2]
  have hadds : (ys.map Field.adds).sum = 0 := by
    have hr := denoteFields_count h
    have hs := denoteFields_count h'
    have ht := denoteFields_count hmore
    omega
  intro f hf
  rw [inert_iff_adds]
  exact List.sum_eq_zero_iff_forall_eq_nat.mp hadds _ (List.mem_map_of_mem hf)

theorem denote_inert (R : Names → Resolver) (m : Module) (ns : Names) {f : Field F} (h : f.inert = true) :
    ∃ r, f.denote R m ns = some r ∧ r.1.functions = m.functions := by
  cases f with
  | type name groups => exact ⟨_, rfl, rfl⟩
  | «import» mod name desc =>
    cases desc with
    | func id ref groups => cases h
    | other kw kind inside => exact ⟨_, rfl, rfl⟩
  | func f => cases h
  | funcImport name exports mod field ref groups => cases h
  | memory name inline limits =>
    rw [Field.denote]
    split
    · exact ⟨_, rfl, rfl⟩
    · exact ⟨_, rfl, rfl⟩
  | «export» name kind ref =>
    have hfunc : ∃ idx, ref.func ns.resolver = some idx := by
      cases ref with
      | index n => exact ⟨_, rfl⟩
      | name id => exact ⟨_, rfl⟩
    obtain ⟨idx, hidx⟩ := hfunc
    cases kind with
    | func => cases h
    | memory => exact ⟨_, by simp only [Field.denote, hidx]; rfl, by simp [Module.functions, ExportKind.byte]⟩
    | table => exact ⟨_, by simp only [Field.denote, hidx]; rfl, by simp [Module.functions, ExportKind.byte]⟩
    | global => exact ⟨_, by simp only [Field.denote, hidx]; rfl, by simp [Module.functions, ExportKind.byte]⟩
  | data name mem offset strings => exact ⟨_, rfl, rfl⟩
  | skipped kw kind inside => exact ⟨_, rfl, rfl⟩

theorem denoteFields_inert (R : Names → Resolver) (m : Module) (ns : Names) {fields : List (Field F)}
    (h : ∀ f ∈ fields, f.inert = true) :
    ∃ r, denoteFields R m ns fields = some r ∧ r.1.functions = m.functions := by
  induction fields generalizing m ns with
  | nil => exact ⟨(m, ns), rfl, rfl⟩
  | cons f fields ih =>
    obtain ⟨hf, hfields⟩ := List.forall_mem_cons.mp h
    obtain ⟨one, hone, hsame⟩ := denote_inert R m ns hf
    obtain ⟨r, hr, hsame'⟩ := ih one.1 one.2 hfields
    refine ⟨r, ?_, hsame'.trans hsame⟩
    rw [denoteFields_cons, hone]
    exact hr

/-- Two readings of a field differ at most in the instructions of a function or in the index of an export. -/
structure Lockstep (r r' : Module × Names) : Prop where
  funcs : r'.1.funcs.length = r.1.funcs.length
  exports : (r'.1.exports.filter fun e => e.kind == 0x00).length =
    (r.1.exports.filter fun e => e.kind == 0x00).length
  eq : r'.1.funcs = r.1.funcs → (r'.1.exports.filter fun e => e.kind == 0x00) =
    (r.1.exports.filter fun e => e.kind == 0x00) → r' = r

theorem Lockstep.refl (r : Module × Names) : Lockstep r r := ⟨rfl, rfl, fun _ _ => rfl⟩

theorem denote_lockstep {f : Field F} {r r' : Module × Names} (h : f.denote R m ns = some r)
    (h' : f.denote R' m ns = some r') : Lockstep r r' := by
  cases f with
  | type name groups =>
    cases h
    cases h'
    exact Lockstep.refl _
  | «import» mod name desc =>
    cases desc with
    | func id ref groups =>
      cases h.symm.trans h'
      exact Lockstep.refl _
    | other kw kind inside =>
      cases h
      cases h'
      exact Lockstep.refl _
  | func f =>
    obtain ⟨use, huse, h⟩ := Option.bind_eq_some_iff.mp h
    obtain ⟨use', huse', h'⟩ := Option.bind_eq_some_iff.mp h'
    cases huse.symm.trans huse'
    obtain ⟨body, -, h⟩ := Option.bind_eq_some_iff.mp h
    obtain ⟨body', -, h'⟩ := Option.bind_eq_some_iff.mp h'
    cases h
    cases h'
    refine ⟨by simp, rfl, fun hfuncs _ => ?_⟩
    have hbody : body' = body := by simpa using hfuncs
    rw [hbody]
  | funcImport name exports mod field ref groups =>
    cases h.symm.trans h'
    exact Lockstep.refl _
  | memory name inline limits =>
    cases h.symm.trans h'
    exact Lockstep.refl _
  | «export» name kind ref =>
    obtain ⟨idx, hidx, h⟩ := Option.bind_eq_some_iff.mp h
    obtain ⟨idx', hidx', h'⟩ := Option.bind_eq_some_iff.mp h'
    cases h
    cases h'
    cases kind with
    | func =>
      refine ⟨rfl, by simp [ExportKind.byte], fun _ hexports => ?_⟩
      have hsame : idx' = idx := by simpa [ExportKind.byte] using hexports
      rw [hsame]
    | memory =>
      cases hidx.symm.trans hidx'
      exact Lockstep.refl _
    | table =>
      cases hidx.symm.trans hidx'
      exact Lockstep.refl _
    | global =>
      cases hidx.symm.trans hidx'
      exact Lockstep.refl _
  | data name mem offset strings =>
    cases h.symm.trans h'
    exact Lockstep.refl _
  | skipped kw kind inside =>
    cases h.symm.trans h'
    exact Lockstep.refl _

theorem prefixes_eq {α : Type} {xs ys zs : List α} (h : xs <+: zs) (h' : ys <+: zs)
    (hlength : ys.length = xs.length) : ys = xs :=
  (List.prefix_of_prefix_length_le h' h (Nat.le_of_eq hlength)).eq_of_length hlength

/-- Two readings give a module the same functions exactly if they agree at every field. -/
theorem functions_eq_iff {fields : List (Field F)} {r : Module × Names} (h : denoteFields R m ns fields = some r) :
    (∃ r', denoteFields R' m ns fields = some r' ∧ r'.1.functions = r.1.functions) ↔
      ∀ before f after, fields = before ++ f :: after → ∀ s, denoteFields R m ns before = some s →
      f.denote R' s.1 s.2 = f.denote R s.1 s.2 := by
  induction fields generalizing m ns with
  | nil =>
    constructor
    · intro _ before f after heq
      simp at heq
    · intro _
      exact ⟨(m, ns), rfl, by cases h; rfl⟩
  | cons f fields ih =>
    obtain ⟨one, hone, hmore⟩ := Option.bind_eq_some_iff.mp h
    constructor
    · rintro ⟨r', hr', hsame⟩ before g after heq s hs
      obtain ⟨one', hone', hmore'⟩ := Option.bind_eq_some_iff.mp hr'
      obtain ⟨hfuncs, hexports, heq'⟩ := denote_lockstep hone hone'
      have hext := denoteFields_extends hmore
      have hext' := denoteFields_extends hmore'
      have hparts := hsame
      simp only [Module.functions, Prod.mk.injEq] at hparts
      obtain ⟨-, hsameFuncs, hsameExports⟩ := hparts
      have hfuncsEq : one'.1.funcs = one.1.funcs := prefixes_eq hext.funcs (hsameFuncs ▸ hext'.funcs) hfuncs
      have hexportsEq := prefixes_eq hext.exports (hsameExports ▸ hext'.exports) hexports
      cases heq' hfuncsEq hexportsEq
      cases before with
      | nil =>
        cases heq
        cases hs
        rw [hone, hone']
      | cons f' before =>
        cases heq
        rw [denoteFields_cons, hone] at hs
        exact (ih hmore).mp ⟨r', hmore', hsame⟩ before g after rfl s hs
    · intro hagree
      have hfirst := hagree [] f fields rfl (m, ns) rfl
      obtain ⟨r', hr', hsame⟩ := (ih hmore).mpr fun before g after heq s hs => by
        refine hagree (f :: before) g after (by rw [heq]; rfl) s ?_
        rw [denoteFields_cons, hone]
        exact hs
      refine ⟨r', ?_, hsame⟩
      rw [denoteFields_cons, hfirst, hone]
      exact hr'

/-! ## The names that are noted -/

theorem note_eq (table : NameTable) (name : Option Name) (idx : UInt32) :
    table.note name idx = table ++ NameTable.note [] name idx := by
  simp [NameTable.note]

structure Notes (m : Module) (ns : Names) (f : Field F) (r : Module × Names) : Prop where
  func : r.2.func = ns.func ++ f.noted m.imports.length m.funcs.length
  imports : r.1.imports.length = m.imports.length + f.imported.toList.length
  funcs : r.1.funcs.length = m.funcs.length + f.defined.toList.length

theorem denote_notes {f : Field F} {r : Module × Names} (h : f.denote R m ns = some r) : Notes m ns f r := by
  cases f with
  | type name groups =>
    cases h
    exact ⟨(List.append_nil _).symm, rfl, rfl⟩
  | «import» mod name desc =>
    cases desc with
    | func id ref groups =>
      obtain ⟨use, -, h⟩ := Option.bind_eq_some_iff.mp h
      cases h
      exact ⟨note_eq .., by simp [Field.imported], rfl⟩
    | other kw kind inside =>
      cases h
      exact ⟨(List.append_nil _).symm, rfl, rfl⟩
  | func f =>
    obtain ⟨use, -, h⟩ := Option.bind_eq_some_iff.mp h
    obtain ⟨body, -, h⟩ := Option.bind_eq_some_iff.mp h
    cases h
    exact ⟨note_eq .., rfl, by simp [Field.defined]⟩
  | funcImport name exports mod field ref groups =>
    obtain ⟨use, -, h⟩ := Option.bind_eq_some_iff.mp h
    cases h
    exact ⟨note_eq .., by simp [Field.imported], rfl⟩
  | memory name inline limits =>
    rw [Field.denote] at h
    split at h
    · cases h
      exact ⟨(List.append_nil _).symm, rfl, rfl⟩
    · cases h
      exact ⟨(List.append_nil _).symm, rfl, rfl⟩
  | «export» name kind ref =>
    obtain ⟨idx, -, h⟩ := Option.bind_eq_some_iff.mp h
    cases h
    exact ⟨(List.append_nil _).symm, rfl, rfl⟩
  | data name mem offset strings =>
    cases h
    exact ⟨(List.append_nil _).symm, rfl, rfl⟩
  | skipped kw kind inside =>
    cases h
    exact ⟨(List.append_nil _).symm, rfl, rfl⟩

theorem denoteFields_func {fields : List (Field F)} {r : Module × Names} (h : denoteFields R m ns fields = some r) :
    r.2.func = ns.func ++ notedNames m.imports.length m.funcs.length fields := by
  induction fields generalizing m ns with
  | nil =>
    cases h
    exact (List.append_nil _).symm
  | cons f fields ih =>
    obtain ⟨one, hone, hmore⟩ := Option.bind_eq_some_iff.mp h
    obtain ⟨hfunc, himports, hfuncs⟩ := denote_notes hone
    rw [ih hmore, hfunc, himports, hfuncs, List.append_assoc, notedNames]

/-! ## References that are resolved where they stand -/

theorem Body.all_callee (labels : List (Option Name)) {b : Body F} {P : Name → Prop} :
    b.All (fun _ o => ∀ x ∈ o.callee, P x) (fun _ _ _ => True) labels ↔ ∀ x ∈ b.calls, P x := by
  induction b generalizing labels with
  | nil => simp [Body.All, Body.calls]
  | op flat o args rest ihArgs ihRest =>
    simp only [Body.All, Body.calls, ihArgs, ihRest, List.forall_mem_append, and_assoc]
  | block flat isLoop label ty body rest ihBody ihRest =>
    simp only [Body.All, Body.calls, ihBody, ihRest, List.forall_mem_append, true_and]
  | cond flat label ty test thn els rest ihTest ihThn ihEls ihRest =>
    simp only [Body.All, Body.calls, ihTest, ihThn, ihEls, ihRest, List.forall_mem_append, true_and, and_assoc]

theorem Op.final_iff {fields : List (Field F)} {o : Op F} {labels : List (Option Name)} :
    o.instr (ns.final fields) labels = o.instr ns.resolver labels ↔
    ∀ x ∈ o.callee, finalIndex fields x = some ((ns.func.lookup x).getD 0) := by
  cases o with
  | spelled kw imm instr spells operator => simp [Op.instr, Op.callee]
  | branch conditional l => simp [Op.instr, Op.callee, Names.final]
  | call x =>
    simp only [Op.instr, Op.callee, Names.final, Names.resolver, Option.map_some, List.mem_singleton, forall_eq]
    cases finalIndex fields x with
    | none => simp
    | some idx => simp
  | «local» kw instr keyword x => simp [Op.instr, Op.callee, Names.final]

theorem Body.final_iff {fields : List (Field F)} {b : Body F} {xs : List Instr}
    (h : b.emit ns.resolver [] = some xs) :
    b.emit (ns.final fields) [] = some xs ↔
    ∀ x ∈ b.calls, finalIndex fields x = some ((ns.func.lookup x).getD 0) := by
  rw [Body.emit_iff_agrees h, ← Body.all_callee []]
  refine (Body.emit_resolved h).congr (fun labels o _ => Op.final_iff) fun flat label ty hopens => ?_
  exact iff_of_true hopens trivial

theorem denote_final_iff {fields : List (Field F)} {f : Field F} {r : Module × Names}
    (h : f.denote Names.resolver m ns = some r) :
    f.denote (Names.final fields) m ns = f.denote Names.resolver m ns ↔
      ∀ x ∈ f.refs, finalIndex fields x = some ((r.2.func.lookup x).getD 0) := by
  cases f with
  | type name groups => simp [Field.denote, Field.refs]
  | «import» mod name desc =>
    cases desc with
    | func id ref groups => simp [Field.denote, Field.refs]
    | other kw kind inside => simp [Field.denote, Field.refs]
  | func f =>
    obtain ⟨use, huse, h'⟩ := Option.bind_eq_some_iff.mp h
    obtain ⟨body, hbody, h'⟩ := Option.bind_eq_some_iff.mp h'
    cases h'
    rw [h]
    refine Iff.trans ?_ (Body.final_iff hbody)
    constructor
    · intro hfinal
      obtain ⟨use', huse', hfinal⟩ := Option.bind_eq_some_iff.mp hfinal
      cases huse.symm.trans huse'
      obtain ⟨body', hbody', hfinal⟩ := Option.bind_eq_some_iff.mp hfinal
      have hsame : body' = body := by simpa using hfinal
      rw [← hsame]
      exact hbody'
    · intro hfinal
      rw [Field.denote, huse, Option.bind_eq_bind, Option.bind_some]
      dsimp only
      rw [hfinal]
      rfl
  | funcImport name exports mod field ref groups => simp [Field.denote, Field.refs]
  | memory name inline limits => simp [Field.denote, Field.refs]
  | «export» name kind ref =>
    cases kind with
    | memory => exact iff_of_true rfl (by simp [Field.refs])
    | table => exact iff_of_true rfl (by simp [Field.refs])
    | global => exact iff_of_true rfl (by simp [Field.refs])
    | func =>
      cases ref with
      | index n => exact iff_of_true rfl (by simp [Field.refs])
      | name x =>
        cases h
        simp only [Field.denote, Field.refs, Ref.func, Names.final, Names.resolver, List.mem_singleton, forall_eq]
        cases finalIndex fields x with
        | none => simp
        | some idx => simp
  | data name mem offset strings => simp [Field.denote, Field.refs]
  | skipped kw kind inside => simp [Field.denote, Field.refs]

theorem reads_final_iff {fields xs : List (Field F)} {r : Module × Names}
    (h : denoteFields Names.resolver {} ⟨[], [], []⟩ xs = some r) :
    (∃ r', denoteFields (Names.final fields) {} ⟨[], [], []⟩ xs = some r' ∧ r'.1.functions = r.1.functions) ↔
      ∀ before f after, xs = before ++ f :: after →
      ∀ x ∈ f.refs, finalIndex fields x = some (indexSoFar (before ++ [f]) x) := by
  have hfield : ∀ before f after, xs = before ++ f :: after →
      ∃ s, denoteFields Names.resolver {} ⟨[], [], []⟩ before = some s ∧
      (f.denote (Names.final fields) s.1 s.2 = f.denote Names.resolver s.1 s.2 ↔
        ∀ x ∈ f.refs, finalIndex fields x = some (indexSoFar (before ++ [f]) x)) := by
    intro before f after heq
    rw [heq, denoteFields_append] at h
    obtain ⟨s, hs, hmore⟩ := Option.bind_eq_some_iff.mp h
    obtain ⟨one, hone, -⟩ := Option.bind_eq_some_iff.mp hmore
    have hbehind : denoteFields Names.resolver {} ⟨[], [], []⟩ (before ++ [f]) = some one := by
      rw [denoteFields_append, hs, Option.bind_some, denoteFields_cons, hone]
      rfl
    have hfunc : one.2.func = notedNames 0 0 (before ++ [f]) := denoteFields_func hbehind
    refine ⟨s, hs, ?_⟩
    rw [denote_final_iff hone, hfunc]
    rfl
  rw [functions_eq_iff h]
  constructor
  · intro hagree before f after heq
    obtain ⟨s, hs, hiff⟩ := hfield before f after heq
    exact hiff.mp (hagree before f after heq s hs)
  · intro hrefs before f after heq s hs
    obtain ⟨s', hs', hiff⟩ := hfield before f after heq
    cases hs.symm.trans hs'
    exact hiff.mpr (hrefs before f after heq)

/-! ## Names that are defined once -/

def Field.funcName : Field F → Option Name
  | .import _ _ (.func name _ _) => name
  | func f => f.name
  | funcImport name .. => name
  | _ => none

def importCount (fields : List (Field F)) : Nat := (fields.filterMap Field.imported).length

def funcCount (fields : List (Field F)) : Nat := (fields.filterMap Field.defined).length

/-- The index a function is given when it is read is its index in the module: for a function of the module's
own no import comes later, and an import that is written as a function comes before all of them. -/
def Field.KeepsIndex (before after : List (Field F)) : Field F → Prop
  | .import _ _ (.func ..) => importCount before < 2 ^ 32
  | func _ => importCount after = 0 ∧ importCount before + funcCount before < 2 ^ 32
  | funcImport .. => importCount before < 2 ^ 32 ∧ 2 ^ 32 ∣ funcCount before
  | _ => False

def Field.IsFirst (before after : List (Field F)) : Field F → Prop
  | .import _ _ (.func ..) | funcImport .. => importCount before = 0
  | func _ => importCount before = 0 ∧ importCount after = 0 ∧ funcCount before = 0
  | _ => False

/-- The name is that of a function that is read so far and keeps its index, or of one that comes later and has
index 0. -/
def Settled (fields sofar : List (Field F)) (x : Name) : Prop :=
  ∃ before f after, fields = before ++ f :: after ∧ f.funcName = some x ∧
    (if before.length < sofar.length then f.KeepsIndex before after else f.IsFirst before after)

theorem imported_funcName {f : Field F} {x : Name} (h : f.imported = some (some x)) : f.funcName = some x := by
  unfold Field.imported at h
  split at h
  · exact Option.some.inj h
  · exact Option.some.inj h
  · cases h

theorem defined_funcName {f : Field F} {x : Name} (h : f.defined = some (some x)) : f.funcName = some x := by
  unfold Field.defined at h
  split at h
  · exact Option.some.inj h
  · cases h

section
variable {x : Name} {fields before after : List (Field F)} {f : Field F}

theorem not_mem_imported (h : ∀ g ∈ fields, g.funcName ≠ some x) : some x ∉ fields.filterMap Field.imported := by
  intro hin
  obtain ⟨g, hg, hname⟩ := List.mem_filterMap.mp hin
  exact h g hg (imported_funcName hname)

theorem not_mem_defined (h : ∀ g ∈ fields, g.funcName ≠ some x) : some x ∉ fields.filterMap Field.defined := by
  intro hin
  obtain ⟨g, hg, hname⟩ := List.mem_filterMap.mp hin
  exact h g hg (defined_funcName hname)

theorem once_before (honce : ((before ++ f :: after).filterMap Field.funcName).Nodup)
    (hname : f.funcName = some x) :
    ∀ g ∈ before, g.funcName ≠ some x := by
  intro g hg heq
  rw [List.filterMap_append, List.filterMap_cons_some hname] at honce
  exact (List.nodup_append.mp honce).2.2 x (List.mem_filterMap.mpr ⟨g, hg, heq⟩) x List.mem_cons_self rfl

theorem once_after (honce : ((before ++ f :: after).filterMap Field.funcName).Nodup) (hname : f.funcName = some x) :
    ∀ g ∈ after, g.funcName ≠ some x := by
  intro g hg heq
  rw [List.filterMap_append, List.filterMap_cons_some hname] at honce
  exact (List.nodup_cons.mp (List.nodup_append.mp honce).2.1).1 (List.mem_filterMap.mpr ⟨g, hg, heq⟩)

theorem findIdx_first {l l' : List (Option Name)} (h : some x ∉ l) :
    (l ++ some x :: l').findIdx? (· = some x) = some l.length := by
  induction l with
  | nil => simp [List.findIdx?_cons]
  | cons y l ih =>
    obtain ⟨hy, hl⟩ := not_or.mp (List.mem_cons.not.mp h)
    rw [List.cons_append, List.findIdx?_cons, if_neg (by simpa using Ne.symm hy), ih hl]
    rfl

def Field.place (before after : List (Field F)) : Field F → Nat
  | func _ => importCount before + importCount after + funcCount before
  | _ => importCount before

theorem funcSpace_place (honce : ((before ++ f :: after).filterMap Field.funcName).Nodup)
    (hname : f.funcName = some x) :
    (funcSpace (before ++ f :: after)).findIdx? (· = some x) = some (f.place before after) := by
  have hbefore := once_before honce hname
  have hafter := once_after honce hname
  have himport : f.imported = some (some x) → (funcSpace (before ++ f :: after)).findIdx? (· = some x) =
      some (importCount before) := by
    intro h
    rw [funcSpace, List.filterMap_append, List.filterMap_cons_some h, List.append_assoc]
    exact findIdx_first (not_mem_imported hbefore)
  cases f with
  | «import» mod name desc =>
    cases desc with
    | func id ref groups => exact himport (congrArg some hname)
    | other kw kind inside => cases hname
  | funcImport name exports mod field ref groups => exact himport (congrArg some hname)
  | func f =>
    have hspace : funcSpace (before ++ Field.func f :: after) = before.filterMap Field.imported ++
        after.filterMap Field.imported ++
        before.filterMap Field.defined ++ some x :: after.filterMap Field.defined := by
      have himported : (Field.func f).imported = none := rfl
      have hdefined : (Field.func f).defined = some (some x) := congrArg some hname
      simp only [funcSpace, List.filterMap_append, List.filterMap_cons_none himported,
        List.filterMap_cons_some hdefined, List.append_assoc]
    rw [hspace, findIdx_first]
    · simp only [List.length_append]
      rfl
    · simp only [List.mem_append, not_or]
      exact ⟨⟨not_mem_imported hbefore, not_mem_imported hafter⟩, not_mem_defined hbefore⟩
  | type name groups => cases hname
  | memory name inline limits => cases hname
  | «export» name kind ref => cases hname
  | data name mem offset strings => cases hname
  | skipped kw kind inside => cases hname

theorem notedNames_append (xs ys : List (Field F)) (imports funcs : Nat) :
    notedNames imports funcs (xs ++ ys) = notedNames imports funcs xs ++ notedNames (imports + importCount xs)
    (funcs + funcCount xs) ys := by
  induction xs generalizing imports funcs with
  | nil => rfl
  | cons f xs ih =>
    have hcounts : ∀ g : Field F, importCount (g :: xs) = g.imported.toList.length + importCount xs ∧
        funcCount (g :: xs) = g.defined.toList.length + funcCount xs := by
      intro g
      simp only [importCount, funcCount, List.filterMap_cons]
      constructor
      · cases g.imported <;> simp [Nat.add_comm]
      · cases g.defined <;> simp [Nat.add_comm]
    rw [List.cons_append, notedNames, notedNames, ih, (hcounts f).1, (hcounts f).2, List.append_assoc,
      Nat.add_assoc, Nat.add_assoc]

theorem noted_absent (imports funcs : Nat) (h : f.funcName ≠ some x) : (f.noted imports funcs).lookup x = none := by
  have hnote : ∀ (name : Option Name) (idx : UInt32), name ≠ some x →
      (NameTable.note [] name idx).lookup x = none := by
    intro name idx hne
    cases name with
    | none => rfl
    | some y =>
      have hxy : (x == y) = false := beq_eq_false_iff_ne.mpr fun heq => hne (congrArg some heq.symm)
      simp [NameTable.note, List.lookup_cons, hxy]
  unfold Field.noted
  split
  · exact hnote _ _ h
  · exact hnote _ _ h
  · exact hnote _ _ h
  · rfl

/-- The index a function is given behind so many imports and functions. -/
def Field.number (imports funcs : Nat) : Field F → Nat
  | .import _ _ (.func ..) => imports
  | _ => imports + funcs

theorem noted_number (imports funcs : Nat) (hname : f.funcName = some x) :
    (f.noted imports funcs).lookup x = some (UInt32.ofNat (f.number imports funcs)) := by
  have hnote : ∀ (name : Option Name) (idx : UInt32), name = some x →
      (NameTable.note [] name idx).lookup x = some idx := by
    intro name idx h
    rw [h]
    simp [NameTable.note]
  cases f with
  | «import» mod name desc =>
    cases desc with
    | func id ref groups => exact hnote id _ hname
    | other kw kind inside => cases hname
  | func f => exact hnote f.name _ hname
  | funcImport name exports mod field ref groups => exact hnote name _ hname
  | type name groups => cases hname
  | memory name inline limits => cases hname
  | «export» name kind ref => cases hname
  | data name mem offset strings => cases hname
  | skipped kw kind inside => cases hname

theorem notedNames_absent (imports funcs : Nat) (h : ∀ g ∈ fields, g.funcName ≠ some x) :
    (notedNames imports funcs fields).lookup x = none := by
  induction fields generalizing imports funcs with
  | nil => rfl
  | cons g fields ih =>
    obtain ⟨hg, hfields⟩ := List.forall_mem_cons.mp h
    rw [notedNames, List.lookup_append, noted_absent imports funcs hg, ih _ _ hfields]
    rfl

theorem indexSoFar_read {tail : List (Field F)} (hbefore : ∀ g ∈ before, g.funcName ≠ some x)
    (hname : f.funcName = some x) :
    indexSoFar (before ++ f :: tail) x = UInt32.ofNat (f.number (importCount before) (funcCount before)) := by
  have hcounts : notedNames 0 0 (before ++ f :: tail) = notedNames 0 0 before ++
      notedNames (importCount before) (funcCount before) (f :: tail) := by
    rw [notedNames_append, Nat.zero_add, Nat.zero_add]
  rw [indexSoFar, hcounts, notedNames, List.lookup_append, List.lookup_append, notedNames_absent 0 0 hbefore,
    noted_number _ _ hname]
  rfl

theorem indexSoFar_absent (h : ∀ g ∈ fields, g.funcName ≠ some x) : indexSoFar fields x = 0 := by
  rw [indexSoFar, notedNames_absent 0 0 h]
  rfl

theorem finalIndex_place (honce : ((before ++ f :: after).filterMap Field.funcName).Nodup)
    (hname : f.funcName = some x) :
    finalIndex (before ++ f :: after) x = if f.place before after < 2 ^ 32 then
      some (UInt32.ofNat (f.place before after)) else none := by
  rw [finalIndex, funcSpace_place honce hname]
  rfl

theorem fits_eq_iff {n k : Nat} : (if n < 2 ^ 32 then some (UInt32.ofNat n) else none) =
    some (UInt32.ofNat k) ↔ n < 2 ^ 32 ∧ n = k % 2 ^ 32 := by
  split
  · next hfits =>
    rw [Option.some.injEq, ← UInt32.toNat_inj, UInt32.toNat_ofNat', UInt32.toNat_ofNat', Nat.mod_eq_of_lt hfits]
    exact ⟨fun h => ⟨hfits, h⟩, fun h => h.2⟩
  · next hlarge =>
    constructor
    · intro h
      cases h
    · intro h
      exact absurd h.1 hlarge

theorem keepsIndex_iff {tail : List (Field F)}
    (honce : ((before ++ f :: after).filterMap Field.funcName).Nodup) (hname : f.funcName = some x) :
    finalIndex (before ++ f :: after) x = some (indexSoFar (before ++ f :: tail) x) ↔
    f.KeepsIndex before after := by
  rw [finalIndex_place honce hname, indexSoFar_read (once_before honce hname) hname, fits_eq_iff]
  cases f with
  | «import» mod name desc =>
    cases desc with
    | func id ref groups =>
      simp only [Field.place, Field.number, Field.KeepsIndex]
      omega
    | other kw kind inside => cases hname
  | func f =>
    simp only [Field.place, Field.number, Field.KeepsIndex]
    omega
  | funcImport name exports mod field ref groups =>
    simp only [Field.place, Field.number, Field.KeepsIndex]
    omega
  | type name groups => cases hname
  | memory name inline limits => cases hname
  | «export» name kind ref => cases hname
  | data name mem offset strings => cases hname
  | skipped kw kind inside => cases hname

theorem isFirst_iff (honce : ((before ++ f :: after).filterMap Field.funcName).Nodup)
    (hname : f.funcName = some x) :
    finalIndex (before ++ f :: after) x = some 0 ↔ f.IsFirst before after := by
  rw [finalIndex_place honce hname, show (0 : UInt32) = UInt32.ofNat 0 from rfl, fits_eq_iff]
  cases f with
  | «import» mod name desc =>
    cases desc with
    | func id ref groups =>
      simp only [Field.place, Field.IsFirst]
      omega
    | other kw kind inside => cases hname
  | func f =>
    simp only [Field.place, Field.IsFirst]
    omega
  | funcImport name exports mod field ref groups =>
    simp only [Field.place, Field.IsFirst]
    omega
  | type name groups => cases hname
  | memory name inline limits => cases hname
  | «export» name kind ref => cases hname
  | data name mem offset strings => cases hname
  | skipped kw kind inside => cases hname

theorem finalIndex_absent (h : ∀ g ∈ fields, g.funcName ≠ some x) : finalIndex fields x = none := by
  have hnone : (funcSpace fields).findIdx? (· = some x) = none := by
    rw [List.findIdx?_eq_none_iff]
    intro y hy
    refine decide_eq_false fun heq => ?_
    rw [heq, funcSpace, List.mem_append] at hy
    cases hy with
    | inl hy => exact not_mem_imported h hy
    | inr hy => exact not_mem_defined h hy
  rw [finalIndex, hnone]
  rfl

/-- The index a name has so far is its index in the module exactly if the name is settled. -/
theorem settled_iff {sofar : List (Field F)} (honce : (fields.filterMap Field.funcName).Nodup)
    (hpre : sofar <+: fields) :
    finalIndex fields x = some (indexSoFar sofar x) ↔ Settled fields sofar x := by
  have hplace : ∀ before f after, fields = before ++ f :: after → f.funcName = some x →
      (finalIndex fields x = some (indexSoFar sofar x) ↔
      if before.length < sofar.length then f.KeepsIndex before after else f.IsFirst before after) := by
    intro before f after heq hname
    rw [heq] at honce hpre ⊢
    split
    · next hlt =>
      obtain ⟨tail, htail⟩ : ∃ tail, sofar = before ++ f :: tail := by
        have hlonger : before ++ [f] <+: sofar :=
          List.prefix_of_prefix_length_le ⟨after, by simp⟩ hpre (by rw [List.length_append]; exact hlt)
        obtain ⟨tail, htail⟩ := hlonger
        exact ⟨tail, by rw [← htail]; simp⟩
      rw [htail]
      exact keepsIndex_iff honce hname
    · next hle =>
      have hshorter : sofar <+: before :=
        List.prefix_of_prefix_length_le hpre (List.prefix_append ..) (Nat.le_of_not_lt hle)
      rw [indexSoFar_absent fun g hg => once_before honce hname g (hshorter.subset hg)]
      exact isFirst_iff honce hname
  by_cases hdefined : ∃ f ∈ fields, f.funcName = some x
  · obtain ⟨f, hf, hname⟩ := hdefined
    obtain ⟨before, after, heq⟩ := List.append_of_mem hf
    constructor
    · intro h
      exact ⟨before, f, after, heq, hname, (hplace before f after heq hname).mp h⟩
    · rintro ⟨before', f', after', heq', hname', h⟩
      exact (hplace before' f' after' heq' hname').mpr h
  · have habsent : ∀ g ∈ fields, g.funcName ≠ some x := fun g hg heq => hdefined ⟨g, hg, heq⟩
    rw [finalIndex_absent habsent]
    constructor
    · intro h
      cases h
    · rintro ⟨before, f, after, heq, hname, -⟩
      exact absurd hname (habsent f (by rw [heq]; simp))

end

/-! ## Accepted modules -/

/-- What is behind the fields that are read adds no function, and every name that is referred to is settled
where it stands. -/
def RefsSettled (fields : List (Field F)) : Prop :=
  (∀ f ∈ fields.dropWhile (·.Kept), f.inert = true) ∧
    ∀ before f after, fields.takeWhile (·.Kept) = before ++ f :: after →
    ∀ x ∈ f.refs, Settled fields (before ++ [f]) x

theorem kept_settled_iff {fields : List (Field F)} (honce : (fields.filterMap Field.funcName).Nodup)
    {r : Module × Names}
    (h : denoteFields Names.resolver {} ⟨[], [], []⟩ (fields.takeWhile (·.Kept)) = some r) :
    (∃ r', denoteFields (Names.final fields) {} ⟨[], [], []⟩ (fields.takeWhile (·.Kept)) = some r' ∧
      r'.1.functions = r.1.functions) ↔
      ∀ before f after, fields.takeWhile (·.Kept) = before ++ f :: after →
      ∀ x ∈ f.refs, Settled fields (before ++ [f]) x := by
  rw [reads_final_iff h]
  have hpre : ∀ before f after, fields.takeWhile (·.Kept) = before ++ f :: after → before ++ [f] <+: fields := by
    intro before f after heq
    have hread : before ++ [f] <+: fields.takeWhile (·.Kept) := by
      rw [heq]
      exact ⟨after, by simp⟩
    exact hread.trans (List.takeWhile_prefix _)
  constructor
  · intro hrefs before f after heq x hx
    exact (settled_iff honce (hpre before f after heq)).mp (hrefs before f after heq x hx)
  · intro hrefs before f after heq x hx
    exact (settled_iff honce (hpre before f after heq)).mpr (hrefs before f after heq x hx)

/-- In an accepted module whose names are defined once, every call and every export of a function by name has
the index of that function in the module exactly if its name is settled where it stands and no function stands
behind what is read. -/
theorem refs_settled_iff (name : Option Name) (fields : List (Field F))
    (honce : (fields.filterMap Field.funcName).Nodup)
    (hp : p.At F (moduleTokens name fields ++ rest) ⟨[], [], []⟩) (hparse : p.parseModule F = .ok (m, q)) :
    (∃ r, denoteFields (Names.final fields) {} ⟨[], [], []⟩ fields = some r ∧ r.1.functions = m.functions) ↔
    RefsSettled fields := by
  obtain ⟨m₀, ns₀, hread, hsame⟩ := accepted_reads name fields hp hparse
  have hsplit : fields.takeWhile (·.Kept) ++ fields.dropWhile (·.Kept) = fields := List.takeWhile_append_dropWhile
  have happend : denoteFields (Names.final fields) {} ⟨[], [], []⟩ fields =
      (denoteFields (Names.final fields) {} ⟨[], [], []⟩ (fields.takeWhile (·.Kept))).bind fun r =>
        denoteFields (Names.final fields) r.1 r.2 (fields.dropWhile (·.Kept)) := by
    rw [← denoteFields_append, hsplit]
  rw [RefsSettled, ← kept_settled_iff honce hread, hsame, happend]
  constructor
  · rintro ⟨r, hr, hfunctions⟩
    obtain ⟨r₁, hr₁, hmore⟩ := Option.bind_eq_some_iff.mp hr
    have hinert := inert_of_count hread hr₁ hmore hfunctions
    obtain ⟨r', hr', hsame'⟩ := denoteFields_inert (Names.final fields) r₁.1 r₁.2 hinert
    cases hmore.symm.trans hr'
    exact ⟨hinert, r₁, hr₁, hsame'.symm.trans hfunctions⟩
  · rintro ⟨hinert, r₁, hr₁, hfunctions⟩
    obtain ⟨r, hr, hsame'⟩ := denoteFields_inert (Names.final fields) r₁.1 r₁.2 hinert
    refine ⟨r, ?_, hsame'.trans hfunctions⟩
    rw [hr₁, Option.bind_some]
    exact hr

theorem refs_settled_export :
    ∃ p m q, Parser.new default
    (utf8 "(module (import \"m\" \"n\" (func $p)) (func $f call $p call $f) (export \"e\" (func $f)))") = .ok p ∧
    p.parseModule default = .ok (m, q) ∧
    RefsSettled ([.import (utf8 "m") (utf8 "n") (.func (some (utf8 "$p")) none []),
      .func ⟨some (utf8 "$f"), [], none, [], [], .op true (.call (utf8 "$p")) .nil
        (.op true (.call (utf8 "$f")) .nil .nil), by simp [Body.WellFormed]⟩,
      .export (utf8 "e") .func (.name (utf8 "$f"))] : List (Field default)) := by
  let fields : List (Field default) := [.import (utf8 "m") (utf8 "n") (.func (some (utf8 "$p")) none []),
    .func ⟨some (utf8 "$f"), [], none, [], [], .op true (.call (utf8 "$p")) .nil
    (.op true (.call (utf8 "$f")) .nil .nil), by simp [Body.WellFormed]⟩,
    .export (utf8 "e") .func (.name (utf8 "$f"))]
  have htokens : Tokenizer.Supplies default
      ⟨utf8 "(module (import \"m\" \"n\" (func $p)) (func $f call $p call $f) (export \"e\" (func $f)))", 0⟩
      (moduleTokens none fields ++ []) := Tokenizer.supplies_of_tokens 40 (by rfl)
  obtain ⟨p, hp, hat⟩ := Parser.new_at htokens
  have hparsed : (Parser.new default
      (utf8 "(module (import \"m\" \"n\" (func $p)) (func $f call $p call $f) (export \"e\" (func $f)))") >>=
      fun p => p.parseModule default).map (fun r => r.1.functions) =
      .ok ([⟨utf8 "m", utf8 "n", 0⟩], [⟨0, [], [.call 0, .call 1]⟩], [⟨utf8 "e", 0, 1⟩]) := by rfl
  rw [hp, bind_ok] at hparsed
  cases hr : p.parseModule default with
  | error e =>
    rw [hr] at hparsed
    cases hparsed
  | ok r =>
    rw [hr] at hparsed
    have honce : (fields.filterMap Field.funcName).Nodup := by decide
    have hfinal : (denoteFields (Names.final fields) {} ⟨[], [], []⟩ fields).map (fun r => r.1.functions) =
        some ([⟨utf8 "m", utf8 "n", 0⟩], [⟨0, [], [.call 0, .call 1]⟩], [⟨utf8 "e", 0, 1⟩]) := by rfl
    obtain ⟨s, hs, hfunctions⟩ := Option.map_eq_some_iff.mp hfinal
    exact ⟨p, r.1, r.2, hp, hr, (refs_settled_iff none fields honce hat hr).mp
      ⟨s, hs, hfunctions.trans (Except.ok.inj hparsed).symm⟩⟩

end WasmOs.Asm
