import Mathlib.Data.List.TakeWhile
import WasmOs.FuncNames
import WasmOs.Spawned

/-!
# From the text to the instance

The assembler and the loader one behind the other: the instance that is spawned from an assembled text is the one
that the text stands for, with each function name standing for the function of that name in the whole module.
-/

namespace WasmOs.Asm

section
variable {F : FloatOps} {R R' : Names → Resolver} {m : Module} {ns : Names}

/-- Two readings of the names under which every field means the same. -/
theorem denoteFields_congr {xs : List (Field F)} (h : ∀ before f after, xs = before ++ f :: after →
      ∀ s, denoteFields R m ns before = some s →
    f.denote R' s.1 s.2 = f.denote R s.1 s.2) : denoteFields R' m ns xs = denoteFields R m ns xs := by
  induction xs generalizing m ns with
  | nil => rfl
  | cons f xs ih =>
    have hone : f.denote R' m ns = f.denote R m ns := h [] f xs rfl (m, ns) rfl
    rw [denoteFields_cons, denoteFields_cons, hone]
    cases hf : f.denote R m ns with
    | none => rfl
    | some r =>
      refine ih fun before g after heq s hs => ?_
      refine h (f :: before) g after (by rw [heq, List.cons_append]) s ?_
      rw [denoteFields_cons, hf]
      exact hs

/-- Where all names are settled, the assembler gives them the meaning they have in the module. -/
theorem denote_settled {fields : List (Field F)} (hkept : ∀ f ∈ fields, f.Kept)
    (honce : (fields.filterMap Field.funcName).Nodup) (hsettled : RefsSettled fields) {r : Module × Names}
    (hr : denoteFields Names.resolver {} ⟨[], [], []⟩ fields = some r) :
    denoteFields (Names.final fields) {} ⟨[], [], []⟩ fields = some r := by
  have hall : fields.takeWhile (·.Kept) = fields :=
    List.takeWhile_eq_self_iff.mpr fun f hf => decide_eq_true (hkept f hf)
  have hread : denoteFields Names.resolver {} ⟨[], [], []⟩ (fields.takeWhile (·.Kept)) = some r := by
    rw [hall]
    exact hr
  have hsame := (functions_eq_iff hread).mp ((kept_settled_iff honce hread).mpr hsettled.2)
  rw [hall] at hsame
  rw [denoteFields_congr hsame]
  exact hr

end

section
variable {F : FloatOps} {H : Type}

/-- The text of a module that has all its fields kept, all its names settled and each function name defined
once is assembled into the module it stands for, and what `spawn` makes of the bytes is that module's
instance, in which each exported function is found under its name. -/
theorem source_spawned (lookupHost : List UInt8 → List UInt8 → Option H) {src : List UInt8}
    (name : Option Name) (fields : List (Field F))
    (htext : Tokenizer.Supplies F ⟨src, 0⟩ (moduleTokens name fields)) (hkept : ∀ f ∈ fields, f.Kept)
    (hmeans : (denoteFields Names.resolver {} ⟨[], [], []⟩ fields).isSome)
    (honce : (fields.filterMap Field.funcName).Nodup) (hsettled : RefsSettled fields) :
    ∃ p m q ns, Parser.new F src = .ok p ∧ p.parseModule F = .ok (m, q) ∧
      denoteFields (Names.final fields) {} ⟨[], [], []⟩ fields = some (m, ns) ∧
      (Spawnable lookupHost F m → instantiate lookupHost (emitModule F m) = .ok (instanceOf lookupHost F m)) ∧
      ((emitModule F m).length < 2 ^ 32 → (∀ exp ∈ m.exports, validUtf8 exp.name = true) →
        (m.exports.map Export.name).Nodup →
        ∃ w, load (emitModule F m) = .ok w ∧
          ∀ exp ∈ m.exports, exp.kind = 0 →
          findExport (ε := InterpError) w exp.name = .ok (some exp.index.toNat)) := by
  have htext' : Tokenizer.Supplies F ⟨src, 0⟩ (moduleTokens name fields ++ []) := by
    rw [List.append_nil]
    exact htext
  obtain ⟨p, hp, hat⟩ := Parser.new_at htext'
  obtain ⟨p₁, p₂, p₃, h₁, h₂, h₃, hat₃⟩ := module_start name fields hat
  obtain ⟨q₁, m, ns, hreads, hat₁, hdenote⟩ := (fields_read_iff fields hat₃).mpr ⟨hkept, hmeans⟩
  obtain ⟨q, hq, -⟩ := hat₁.expectRparen
  have hend : q₁.lookahead ≠ some .lparen := by
    rw [hat₁.lookahead]
    simp
  have hroom : fields.length < p₃.fuel := by
    have hle := fields_length_le fields
    have hlt := hat₃.room
    rw [List.length_append] at hlt
    omega
  have hparsed : p.parseModule F = .ok (m, q) := by
    rw [Parser.parseModule, h₁, bind_ok, h₂, bind_ok, h₃, bind_ok]
    dsimp only
    rw [hreads.loop hend hroom, bind_ok]
    dsimp only
    rw [hq, bind_ok]
  refine ⟨p, m, q, ns, hp, hparsed, denote_settled hkept honce hsettled hdenote, fun h =>
    instantiate_emitModule h, fun hsize hutf8 hnodup => ?_⟩
  exact ⟨loaded F m, load_emitModule F m hsize, fun exp hexp hkind => export_found hsize hutf8 hnodup hexp hkind⟩

end

/-! A clock, as a text and as the module it stands for. -/

def clockText : List UInt8 :=
  utf8 "(module (import \"env\" \"tick\" (func $tick)) (memory 1) (func (export \"main\") call $tick))"

def clockFields : List (Field default) :=
  [.import (utf8 "env") (utf8 "tick") (.func (some (utf8 "$tick")) none []), .memory none [] (some ⟨1, none⟩),
    .func ⟨none, [utf8 "main"], none, [], [], .op true (.call (utf8 "$tick")) .nil .nil, by simp [Body.WellFormed]⟩]

def clock : Module where
  types := [⟨[], []⟩]
  imports := [⟨utf8 "env", utf8 "tick", 0⟩]
  funcs := [⟨0, [], [.call 0]⟩]
  memories := [⟨1, none⟩]
  exports := [⟨utf8 "main", 0, 1⟩]

theorem clock_means : (denoteFields Names.resolver {} ⟨[], [], []⟩ clockFields).map Prod.fst = some clock := by rfl

theorem clock_kept : ∀ f ∈ clockFields, f.Kept := by
  simp [clockFields, Field.Kept, Func.Indexed, Func.params, Func.localTys]

theorem clock_settled : RefsSettled clockFields := by
  have honce : (clockFields.filterMap Field.funcName).Nodup := by decide
  have hall : clockFields.takeWhile (·.Kept) = clockFields :=
    List.takeWhile_eq_self_iff.mpr fun f hf => decide_eq_true (clock_kept f hf)
  have hnone : clockFields.dropWhile (·.Kept) = [] :=
    List.dropWhile_eq_nil_iff.mpr fun f hf => decide_eq_true (clock_kept f hf)
  obtain ⟨r, hr, hclock⟩ := Option.map_eq_some_iff.mp clock_means
  refine ⟨fun f hf => ?_, ?_⟩
  · rw [hnone] at hf
    cases hf
  · rw [← hall] at hr
    refine (kept_settled_iff honce hr).mp ?_
    have hfinal : (denoteFields (Names.final clockFields) {} ⟨[], [], []⟩ clockFields).map Prod.fst =
        some clock := by rfl
    obtain ⟨r', hr', hclock'⟩ := Option.map_eq_some_iff.mp hfinal
    rw [hall]
    exact ⟨r', hr', by rw [hclock, hclock']⟩

theorem clock_spawnable : Spawnable (fun _ _ => some ()) default clock where
  import_utf8 := by decide
  imports := by decide
  types := by decide
  funcs_ne := List.cons_ne_nil _ _
  funcs := by decide
  pages := by decide
  data := by decide
  size := by decide
  locals := by decide

theorem source_spawned_clock : ∃ p m q, Parser.new default clockText = .ok p ∧ p.parseModule default = .ok (m, q) ∧
    instantiate (fun _ _ => some ()) (emitModule default m) = .ok (instanceOf (fun _ _ => some ()) default clock) ∧
    ∃ w, load (emitModule default m) = .ok w ∧ findExport (ε := InterpError) w (utf8 "main") = .ok (some 1) := by
  have htext : Tokenizer.Supplies default ⟨clockText, 0⟩ (moduleTokens none clockFields) :=
    Tokenizer.supplies_of_tokens 40 (by rfl)
  obtain ⟨r, hr, hclock⟩ := Option.map_eq_some_iff.mp clock_means
  have hmeans : (denoteFields Names.resolver {} ⟨[], [], []⟩ clockFields).isSome := by
    rw [hr]
    rfl
  obtain ⟨p, m, q, ns, hp, hparsed, hfinal, hinstance, hexports⟩ :=
    source_spawned (fun _ _ => some ()) none clockFields htext clock_kept hmeans (by decide) clock_settled
  have hm : m = clock := by
    have hfinal' : (denoteFields (Names.final clockFields) {} ⟨[], [], []⟩ clockFields).map Prod.fst =
        some clock := by rfl
    rw [hfinal] at hfinal'
    exact Option.some.inj hfinal'
  subst hm
  obtain ⟨w, hw, hfound⟩ := hexports clock_spawnable.size (by decide) (by decide)
  exact ⟨p, _, q, hp, hparsed, hinstance clock_spawnable, w, hw, hfound ⟨utf8 "main", 0, 1⟩ (by simp [clock]) rfl⟩

end WasmOs.Asm
