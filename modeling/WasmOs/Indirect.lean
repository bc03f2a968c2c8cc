import WasmOs.FuncIndex
import WasmOs.LinearMemory

/-!
# The type check of `call_indirect`

The check is meant to compare signatures. `parse_type_section` keeps only the numbers of parameters and
results, and `call_indirect` compares type indices, so a function whose type stands a second time in the
type section is refused under its other index.
-/

namespace WasmOs

/-! ## Signatures -/

structure FuncSig where
  params : List UInt8
  results : List UInt8
  deriving DecidableEq, Repr

def SigAt (bytes : List UInt8) (cur : Nat) (sig : FuncSig) (next : Nat) : Prop :=
  bytes[cur]? = some 0x60 ∧ ∃ np c nr c', readU32 bytes () (cur + 1) = .ok (np, c) ∧ c + np ≤ bytes.length ∧
    sig.params = (bytes.drop c).take np ∧ readU32 bytes () (c + np) = .ok (nr, c') ∧ c' + nr ≤ bytes.length ∧
    sig.results = (bytes.drop c').take nr ∧ next = c' + nr

inductive SigsAt (bytes : List UInt8) : Nat → List FuncSig → Prop
  | nil {cur : Nat} : SigsAt bytes cur []
  | cons {cur next : Nat} {sig : FuncSig} {sigs : List FuncSig} : SigAt bytes cur sig next →
    SigsAt bytes next sigs →
      SigsAt bytes cur (sig :: sigs)

def Signatures (sec : Option (List UInt8)) (sigs : List FuncSig) : Prop :=
  match sec with
  | none => sigs = []
  | some bytes => ∃ start, readU32Leb128 bytes = some (sigs.length, start) ∧ SigsAt bytes start sigs

structure Typed (m : Module) (ds : List ImportDecl) (ts : List Nat) (sigs : List FuncSig) : Prop where
  imports : Imports m.importSection ds
  functions : FuncTypes m.functionSection ts
  types : Signatures m.typeSection sigs
  bodies : entryCount m.codeSection = entryCount m.functionSection
  declared : ∀ f u, declaredType ds ts f = some u → u < sigs.length

def sigOf (ds : List ImportDecl) (ts : List Nat) (sigs : List FuncSig) (f : Nat) : Option FuncSig :=
  (declaredType ds ts f).bind fun u => sigs[u]?

section
variable {ω : Type}

/-- The function in a table slot; `none` if the slot is null or out of range. -/
def tableSlot (code : Code (HostFn ω)) (i : Nat) : Option Nat :=
  if i < code.table.size ∧ code.table.entry i ≠ NULL_FUNC then some (code.table.entry i) else none

/-- What the check is to do with the function in a slot and the type `t`. -/
structure ChecksCall (slot : Option Nat) (sig : Nat → Option FuncSig) (expected : Option FuncSig)
    (r : EStateM.Result (Fault InterpError) (State ω) Next) : Prop where
  null : (∃ s, r = .error (.err .indirectCallNull) s) ↔ slot = none
  mismatch : (∃ s, r = .error (.err .indirectCallTypeMismatch) s) ↔ ∃ f, slot = some f ∧ sig f ≠ expected

variable {code : Code (HostFn ω)} {F : FloatOps} {s : State ω} {fr : Frame} {body : List UInt8} {pc : Nat}

theorem tableSlot_eq_none {i : Nat} :
    tableSlot code i = none ↔ code.table.size ≤ i ∨ code.table.entry i = NULL_FUNC := by
  unfold tableSlot
  by_cases h : i < code.table.size ∧ code.table.entry i ≠ NULL_FUNC
  · rw [if_pos h]
    simp only [reduceCtorEq, false_iff]
    exact fun hor => hor.elim (Nat.not_le_of_lt h.1) h.2
  · rw [if_neg h]
    refine iff_of_true rfl ?_
    by_contra hno
    simp only [not_or, Nat.not_le] at hno
    exact h hno

theorem callIndirect_run {t c t' c' base : Nat} (htable : code.table.size ≤ MAX_TABLE)
    (ht : readU32 body InterpError.malformedCode pc = .ok (t, c))
    (ht' : readU32 body InterpError.malformedCode c = .ok (t', c'))
    (hv : s.vsp = base + 1) (hd : s.vsp ≤ STACK_DEPTH) :
    dispatch code F fr body pc .callIndirect s =
      match tableSlot code (u32 (s.vstack base)) with
      | none => .error (.err .indirectCallNull) { s with vsp := base }
      | some f =>
        if (if f < MAX_FUNCS then allFuncTypes code f else usizeMax) ≠ t then
          .error (.err .indirectCallTypeMismatch) { s with vsp := base }
        else .ok (.call c' f) { s with vsp := base } := by
  have hi : (lo32 (s.vstack base)).toNat = u32 (s.vstack base) := BitVec.toNat_setWidth ..
  show execCallIndirect code body pc s = _
  rw [execCallIndirect, ht, lift_ok_bind]
  simp only
  rw [ht', lift_ok_bind]
  simp only
  rw [Hoare.bind_ok (vPop_run hv hd)]
  simp only [hi]
  generalize u32 (s.vstack base) = i
  by_cases hsize : code.table.size ≤ i
  · rw [tableSlot_eq_none.mpr (.inl hsize), if_pos hsize]
    rfl
  rw [if_neg hsize, if_neg (by omega)]
  by_cases hnull : code.table.entry i = NULL_FUNC
  · rw [tableSlot_eq_none.mpr (.inr hnull), if_pos hnull]
    rfl
  have hslot : tableSlot code i = some (code.table.entry i) := if_pos ⟨Nat.lt_of_not_le hsize, hnull⟩
  rw [if_neg hnull, hslot]
  simp only
  by_cases hne : (if code.table.entry i < MAX_FUNCS then allFuncTypes code (code.table.entry i) else usizeMax) ≠ t
  · rw [if_pos hne, if_pos hne]
    rfl
  · rw [if_neg hne, if_neg hne]
    rfl

/-! ## The check against the signatures -/

variable {lookupHost : List UInt8 → List UInt8 → Option (HostFn ω)} {bytes : List UInt8}
  {inst : Instance (HostFn ω)} {m : Module}
  {ds : List ImportDecl} {ts : List Nat} {sigs : List FuncSig}

/-- `all_func_types` holds the declared types. -/
theorem allFuncTypes_declared (hfit : Fits bytes) (h : instantiate lookupHost bytes = .ok inst)
    (hm : load bytes = .ok m) (htyped : Typed m ds ts sigs) {f u : Nat} (hu : declaredType ds ts f = some u) :
    allFuncTypes inst.code f = u := by
  obtain ⟨ds', hds, hcount, _, htypes, _⟩ := walkers_of_instantiate hfit h hm
  obtain rfl := hds.unique htyped.imports
  obtain ⟨hts, hbodies⟩ := functions_of_instantiate hfit h hm
  obtain rfl := hts.unique htyped.functions
  unfold declaredType at hu
  rw [← hcount] at hu
  by_cases himp : f < inst.code.importCount
  · rw [if_pos himp] at hu
    obtain ⟨d, hd, hdu⟩ := Option.bind_eq_some_iff.mp hu
    obtain ⟨t, ht, hti⟩ := getElem?_typeIdx hd
    rw [allFuncTypes, if_neg (by omega), htypes, List.getD_eq_getElem?_getD, hti]
    exact Option.some.inj (ht.symm.trans hdu)
  · rw [if_neg himp] at hu
    have hlt := (List.getElem?_eq_some_iff.mp hu).1
    have hlen : inst.code.bodies.length = inst.code.funcTypeIndices.length := by
      rw [hbodies, htyped.bodies, hts.count]
    rw [allFuncTypes, if_pos ⟨by omega, by omega⟩, List.getD_eq_getElem?_getD, hu]
    rfl

/-- `call_indirect` checks a call as it is meant to exactly when the function in the slot, if it has the
signature of `t`, has `t` itself for its type index and an index below `MAX_FUNCS`. -/
theorem callIndirect_checks_iff (F : FloatOps) (hfit : Fits bytes)
    (h : instantiate lookupHost bytes = .ok inst) (hm : load bytes = .ok m)
    (htyped : Typed m ds ts sigs) (fr : Frame) (body : List UInt8) {t c t' c' pc : Nat} (hbody : Fits body)
    (ht : readU32 body InterpError.malformedCode pc = .ok (t, c))
    (ht' : readU32 body InterpError.malformedCode c = .ok (t', c'))
    (s : State ω) {base : Nat} (hv : s.vsp = base + 1) (hd : s.vsp ≤ STACK_DEPTH)
    (hfunc : ∀ f, tableSlot inst.code (u32 (s.vstack base)) = some f → (declaredType ds ts f).isSome) :
    ChecksCall (tableSlot inst.code (u32 (s.vstack base))) (sigOf ds ts sigs) sigs[t]?
    (dispatch inst.code F fr body pc .callIndirect s) ↔
      ∀ f, tableSlot inst.code (u32 (s.vstack base)) = some f → sigOf ds ts sigs f = sigs[t]? →
        f < MAX_FUNCS ∧ declaredType ds ts f = some t := by
  have htable := (instantiate_limits hfit h).2.2.2.1
  have hlt : t < 2 ^ 32 := (readU32_bounds hbody ht).1
  rw [callIndirect_run htable ht ht' hv hd]
  generalize tableSlot inst.code (u32 (s.vstack base)) = slot at hfunc
  cases slot with
  | none =>
    refine iff_of_true ⟨by simp, ?_⟩ nofun
    simp
  | some f =>
    obtain ⟨u, hu⟩ := Option.isSome_iff_exists.mp (hfunc f rfl)
    have hactual : allFuncTypes inst.code f = u := allFuncTypes_declared hfit h hm htyped hu
    -- the type index the code compares is `t` only for a function of that type
    have hsame : (if f < MAX_FUNCS then allFuncTypes inst.code f else usizeMax) = t ↔ f < MAX_FUNCS ∧ u = t := by
      by_cases hf : f < MAX_FUNCS
      · rw [if_pos hf, hactual]
        exact (and_iff_right hf).symm
      · rw [if_neg hf]
        refine iff_of_false (fun heq => ?_) fun h => hf h.1
        have : usizeMax = 2 ^ 64 - 1 := rfl
        omega
    have hsig : sigOf ds ts sigs f = sigs[u]? := by rw [sigOf, hu]; rfl
    simp only [Option.some.injEq, forall_eq']
    rw [hu, Option.some.injEq]
    constructor
    · intro hcheck heq
      rw [← hsame]
      by_contra hne
      obtain ⟨f', hf', hdiff⟩ := hcheck.mismatch.mp ⟨_, if_pos hne⟩
      cases hf'
      exact hdiff heq
    · intro hcond
      by_cases heq : (if f < MAX_FUNCS then allFuncTypes inst.code f else usizeMax) = t
      · have hsig' : sigOf ds ts sigs f = sigs[t]? := by rw [hsig, (hsame.mp heq).2]
        rw [if_neg (fun hne => hne heq)]
        exact ⟨by simp, by simp [hsig']⟩
      · have hsig' : sigOf ds ts sigs f ≠ sigs[t]? := fun h => heq (hsame.mpr (hcond h))
        rw [if_pos heq]
        exact ⟨by simp, by simp [hsig']⟩

end

/-- The type `() -> ()` twice, two functions of the first, function 0 in the table, and a call of slot 0 as
type `t`. -/
def twiceTyped (t : UInt8) : List UInt8 :=
  [0x00, 0x61, 0x73, 0x6D, 1, 0, 0, 0] ++ [0x01, 7, 2, 0x60, 0, 0, 0x60, 0, 0] ++ [0x03, 3, 2, 0, 0] ++
    [0x04, 4, 1, 0x70, 0, 1] ++
    [0x09, 7, 1, 0, 0x41, 0, 0x0B, 1, 0] ++ [0x0A, 12, 2, 2, 0, 0x0B, 7, 0, 0x41, 0, 0x11, t, 0, 0x0B]

def twoSigs : List FuncSig := [⟨[], []⟩, ⟨[], []⟩]

theorem twiceTyped_typed {m : Module} (himp : m.importSection = none) (hfunc : m.functionSection = some [2, 0, 0])
    (htype : m.typeSection = some [2, 0x60, 0, 0, 0x60, 0, 0]) (hcode : entryCount m.codeSection = 2) :
    Typed m [] [0, 0] twoSigs where
  imports := by
    rw [himp]
    rfl
  functions := by
    rw [hfunc]
    have hfirst : readU32 [2, 0, 0] () 1 = .ok (0, 2) := by decide
    have hsecond : readU32 [2, 0, 0] () 2 = .ok (0, 3) := by decide
    exact ⟨1, by decide, .cons hfirst (.cons hsecond .nil)⟩
  types := by
    rw [htype]
    have hfirst : SigAt [2, 0x60, 0, 0, 0x60, 0, 0] 1 ⟨[], []⟩ 4 :=
      ⟨rfl, 0, 3, 0, 4, by decide, by decide, rfl, by decide, by decide, rfl, rfl⟩
    have hsecond : SigAt [2, 0x60, 0, 0, 0x60, 0, 0] 4 ⟨[], []⟩ 7 :=
      ⟨rfl, 0, 6, 0, 7, by decide, by decide, rfl, by decide, by decide, rfl, rfl⟩
    exact ⟨1, by decide, .cons hfirst (.cons hsecond .nil)⟩
  bodies := by
    rw [hcode, hfunc]
    decide
  declared := by
    intro f u hu
    have hmem : u ∈ [0, 0] := List.mem_of_getElem? hu
    have hzero : u = 0 := by simpa using hmem
    rw [hzero]
    decide

theorem twiceTyped_loaded (t : UInt8) : ∃ m, load (twiceTyped t) = .ok m ∧ Typed m [] [0, 0] twoSigs :=
  ⟨_, rfl, twiceTyped_typed rfl rfl rfl rfl⟩

theorem twiceTyped_checked : ∃ (inst : Instance (HostFn Unit)) (s : State Unit) (fr : Frame) (body : List UInt8),
    instantiate (fun _ _ => none) (twiceTyped 0) = .ok inst ∧
    Reach inst.code default (fun _ => True) (inst.initial ()) s ∧
    ChecksCall (tableSlot inst.code (u32 (s.vstack 0))) (sigOf [] [0, 0] twoSigs) twoSigs[0]?
      (dispatch inst.code default fr body 3 .callIndirect s) := by
  obtain ⟨m, hm, htyped⟩ := twiceTyped_loaded 0
  obtain ⟨inst, s, fr, hinst, hr, hv, hslot⟩ : ∃ (inst : Instance (HostFn Unit)) (s : State Unit) (fr : Frame),
      instantiate (fun _ _ => none) (twiceTyped 0) = .ok inst ∧
      Reach inst.code default (fun _ => True) (inst.initial ()) s ∧
      s.vsp = 1 ∧ tableSlot inst.code (u32 (s.vstack 0)) = some 0 :=
    ⟨_, _, ⟨0, 0, fun _ => 0, 0, 0, 0, 0⟩, rfl, .round (.start 1 [] .spawn) nofun trivial, rfl, rfl⟩
  have hzero : ∀ f, tableSlot inst.code (u32 (s.vstack 0)) = some f → f = 0 :=
    fun f hf => Option.some.inj (hf.symm.trans hslot)
  refine ⟨inst, s, fr, [0x41, 0, 0x11, 0, 0, 0x0B], hinst, hr, ?_⟩
  apply (callIndirect_checks_iff default (show _ < _ by decide) hinst hm htyped fr [0x41, 0, 0x11, 0, 0, 0x0B]
    (show _ < _ by decide)
    (show readU32 _ _ 3 = .ok (0, 4) by decide) (show readU32 _ _ 4 = .ok (0, 5) by decide) s hv
    (by rw [hv]; decide)
    fun f hf => by rw [hzero f hf]; decide).mpr
  intro f hf _
  rw [hzero f hf]
  exact ⟨by decide, rfl⟩

/-- Called as type 1 the same function is refused. -/
theorem twiceTyped_refused :
    ∃ (m : Module) (inst : Instance (HostFn Unit)) (s s' : State Unit), load (twiceTyped 1) = .ok m ∧
    Typed m [] [0, 0] twoSigs ∧ instantiate (fun _ _ => none) (twiceTyped 1) = .ok inst ∧
    Reach inst.code default (fun _ => True) (inst.initial ()) s ∧
    step inst.code default s = .error (.err .indirectCallTypeMismatch) s' ∧
    tableSlot inst.code (u32 (s.vstack 0)) = some 0 ∧
    sigOf [] [0, 0] twoSigs 0 = twoSigs[1]? := by
  obtain ⟨m, hm, htyped⟩ := twiceTyped_loaded 1
  exact ⟨m, _, _, _, hm, htyped, rfl, .round (.start 1 [] .spawn) nofun trivial, rfl, rfl, rfl⟩

end WasmOs
