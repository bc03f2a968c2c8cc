import WasmOs.Imports
import WasmOs.JitInstall

/-!
# The function index space

Imports come first, then the functions of the code section. Each section is limited to `MAX_FUNCS`
entries on its own, but `host_fns`, `jit_fns` and `all_func_types` are indexed by the sum.
-/

namespace WasmOs

/-! ## What the module declares -/

def entryCount (sec : Option (List UInt8)) : Nat := ((sec.bind readU32Leb128).map Prod.fst).getD 0

inductive IndicesAt (bytes : List UInt8) : Nat → List Nat → Prop
  | nil {cur : Nat} : IndicesAt bytes cur []
  | cons {cur next t : Nat} {ts : List Nat} : readU32 bytes () cur = .ok (t, next) → IndicesAt bytes next ts →
      IndicesAt bytes cur (t :: ts)

def FuncTypes (sec : Option (List UInt8)) (ts : List Nat) : Prop :=
  match sec with
  | none => ts = []
  | some bytes => ∃ start, readU32Leb128 bytes = some (ts.length, start) ∧ IndicesAt bytes start ts

/-- The type of a function: that of its import or its entry in the function section. -/
def declaredType (ds : List ImportDecl) (ts : List Nat) (f : Nat) : Option Nat :=
  let n := (funcImports ds).length
  if f < n then (funcImports ds)[f]?.bind ImportDecl.typeIdx else ts[f - n]?

theorem IndicesAt.unique {bytes : List UInt8} : ∀ {ts ts' : List Nat} {cur : Nat}, ts.length = ts'.length →
    IndicesAt bytes cur ts → IndicesAt bytes cur ts' → ts = ts'
  | [], [], _, _, _, _ => rfl
  | t :: ts, t' :: ts', cur, hlen, .cons ht hts, .cons ht' hts' => by
    cases ht.symm.trans ht'
    rw [IndicesAt.unique (Nat.succ.inj hlen) hts hts']

theorem FuncTypes.unique {sec : Option (List UInt8)} {ts ts' : List Nat} (h : FuncTypes sec ts)
    (h' : FuncTypes sec ts') : ts = ts' := by
  cases sec with
  | none => exact h.trans h'.symm
  | some bytes =>
    obtain ⟨start, hleb, hts⟩ := h
    obtain ⟨start', hleb', hts'⟩ := h'
    obtain ⟨hlen, rfl⟩ : ts.length = ts'.length ∧ start = start' := by simpa [hleb] using hleb'
    exact IndicesAt.unique hlen hts hts'

theorem FuncTypes.count {sec : Option (List UInt8)} {ts : List Nat} (h : FuncTypes sec ts) :
    entryCount sec = ts.length := by
  cases sec with
  | none =>
    rw [show ts = [] from h]
    rfl
  | some bytes =>
    obtain ⟨start, hleb, _⟩ := h
    simp [entryCount, hleb]

section
variable {bytes : List UInt8}

theorem indicesAt_of_functions : ∀ {count cur last : Nat} {out out' : List Nat},
    iter (parseFunctionSection.step bytes) count (cur, out) = .ok (last, out') →
    ∃ ts, ts.length = count ∧ IndicesAt bytes cur ts ∧ out' = out ++ ts
  | 0, cur, last, out, out', h => by
    cases h
    exact ⟨[], rfl, .nil, (List.append_nil out).symm⟩
  | count + 1, cur, last, out, out', h => by
    obtain ⟨⟨next, out₁⟩, hstep, h⟩ := bind_eq_ok.mp h
    obtain ⟨⟨t, c⟩, ht, hstep⟩ := bind_eq_ok.mp hstep
    cases hstep
    obtain ⟨ts, hlen, hts, hout⟩ := indicesAt_of_functions h
    refine ⟨t :: ts, by rw [List.length_cons, hlen], .cons ?_ hts, ?_⟩
    · rw [readU32_err _, ht]
      rfl
    · rw [hout, List.append_assoc]
      rfl

theorem funcTypes_of_parse {sec : Option (List UInt8)} {ts : List Nat}
    (hfit : ∀ bytes, sec = some bytes → Fits bytes)
    (h : parseIf sec [] parseFunctionSection = .ok ts) : FuncTypes sec ts := by
  cases sec with
  | none =>
    cases h
    rfl
  | some bytes =>
    obtain ⟨⟨count, start⟩, hread, h⟩ := bind_eq_ok.mp h
    simp only at h
    split at h
    · cases h
    obtain ⟨⟨last, out⟩, hiter, h⟩ := bind_eq_ok.mp h
    cases h
    obtain ⟨ts', rfl, hts, hout⟩ := indicesAt_of_functions hiter
    obtain rfl : out = ts' := hout
    obtain ⟨_, n, hleb, hstart⟩ := (readU32_eq_ok (hfit bytes rfl)).mp hread
    rw [List.drop_zero] at hleb
    rw [Nat.zero_add] at hstart
    subst hstart
    exact ⟨start, hleb, hts⟩

end

/-! ## The accesses -/

inductive Target (H : Type) where
  | host (h : H)
  | native (addr typeIdx : Nat)
  | frame (bodyIdx typeIdx declared : Nat)

section
variable {ω : Type} (code : Code (HostFn ω))

/-- `host_fns[i]` -/
def hostAt (i : Nat) : Rust InterpError (Target (HostFn ω)) :=
  if MAX_FUNCS ≤ i then .error .panic else
  match code.hostFns i with
  | none => .error (.err .importNotFound)
  | some h => .ok (.host h)

/-- The tables `push_frame` reads. -/
def frameAt (bodyIdx : Nat) : Rust InterpError (Target (HostFn ω)) := do
  let typeIdx ← tableAt MAX_FUNCS code.funcTypeIndices 0 bodyIdx
  let declared ← tableAt MAX_FUNCS code.localCounts 0 bodyIdx
  .ok (.frame bodyIdx typeIdx declared)

/-- `call` -/
def entryTarget (funcIdx : Nat) : Rust InterpError (Target (HostFn ω)) :=
  if funcIdx < code.importCount then .error (.err .importNotFound) else
  let bodyIdx := funcIdx - code.importCount
  if code.bodies.length ≤ bodyIdx then .error (.err .funcIndexOutOfRange) else
  frameAt code bodyIdx

/-- `OP_CALL` with the native functions `fns`. -/
def callTarget (fns : Nat → Option Nat) (callee : Nat) : Rust InterpError (Target (HostFn ω)) :=
  if callee < code.importCount then hostAt code callee else
  let calleeBody := callee - code.importCount
  if code.bodies.length ≤ calleeBody then .error (.err .funcIndexOutOfRange) else
  -- `jit_fns[callee]`, and `all_func_types[callee]` beside it
  if MAX_FUNCS ≤ callee then .error .panic else
  match fns callee with
  | some addr => .ok (.native addr (allFuncTypes code callee))
  | none => frameAt code calleeBody

/-- `OP_CALL_INDIRECT` once the callee is read from the table; it does not use native code. -/
def indirectTarget (expectedType callee : Nat) : Rust InterpError (Target (HostFn ω)) :=
  let actualType := if callee < MAX_FUNCS then allFuncTypes code callee else usizeMax
  if actualType ≠ expectedType then .error (.err .indirectCallTypeMismatch) else
  if callee < code.importCount then hostAt code callee else
  let calleeBody := callee - code.importCount
  if code.bodies.length ≤ calleeBody then .error (.err .funcIndexOutOfRange) else
  frameAt code calleeBody

variable {code}

def Target.enter (code : Code (HostFn ω)) : Target (HostFn ω) → Interp ω Unit
  | .host h => callHost code h
  | .native _ _ => pure ()
  | .frame bodyIdx _ _ => pushFrame code bodyIdx

theorem frameAt_of_lt {bodyIdx : Nat} (h : bodyIdx < MAX_FUNCS) : frameAt code bodyIdx =
    .ok (.frame bodyIdx (code.funcTypeIndices.getD bodyIdx 0) (code.localCounts.getD bodyIdx 0)) := by
  simp only [frameAt, tableAt, if_pos h, bind_ok]

theorem lift_ok_bind {α β : Type} (a : α) (k : α → Interp ω β) : (lift (.ok a) >>= k) = k a := rfl

theorem invoke_eq_enter {callee : Nat} (hmax : code.importCount + code.bodies.length ≤ MAX_FUNCS) :
    invoke code callee = lift (callTarget code (fun _ => none) callee) >>= Target.enter code := by
  unfold invoke callTarget
  by_cases himp : callee < code.importCount
  · rw [if_pos himp, if_pos himp, hostAt]
    by_cases hlt : MAX_FUNCS ≤ callee
    · rw [if_pos hlt, if_pos hlt]
      rfl
    · rw [if_neg hlt, if_neg hlt]
      cases code.hostFns callee <;> rfl
  · rw [if_neg himp, if_neg himp]
    simp only
    by_cases hbody : code.bodies.length ≤ callee - code.importCount
    · rw [if_pos hbody, if_pos hbody]
      rfl
    · rw [if_neg hbody, if_neg hbody, if_neg (by omega), frameAt_of_lt (by omega)]
      rfl

/-! ## In range -/

theorem hostAt_no_panic {i : Nat} (h : i < MAX_FUNCS) : hostAt code i ≠ .error .panic := by
  rw [hostAt, if_neg (Nat.not_le_of_lt h)]
  cases code.hostFns i <;> exact fun hp => by cases hp

theorem frameAt_no_panic {bodyIdx : Nat} (h : bodyIdx < MAX_FUNCS) : frameAt code bodyIdx ≠ .error .panic := by
  rw [frameAt_of_lt h]
  exact fun hp => by cases hp

section
variable (hmax : code.importCount + code.bodies.length ≤ MAX_FUNCS)
include hmax

theorem entryTarget_no_panic (funcIdx : Nat) : entryTarget code funcIdx ≠ .error .panic := by
  unfold entryTarget
  by_cases himp : funcIdx < code.importCount
  · rw [if_pos himp]
    exact fun hp => by cases hp
  rw [if_neg himp]
  simp only
  split
  · exact fun hp => by cases hp
  · exact frameAt_no_panic (by omega)

theorem callTarget_no_panic (fns : Nat → Option Nat) (callee : Nat) :
    callTarget code fns callee ≠ .error .panic := by
  unfold callTarget
  by_cases himp : callee < code.importCount
  · rw [if_pos himp]
    exact hostAt_no_panic (by omega)
  rw [if_neg himp]
  simp only
  split
  · exact fun hp => by cases hp
  rw [if_neg (by omega)]
  cases fns callee with
  | none => exact frameAt_no_panic (by omega)
  | some addr => exact fun hp => by cases hp

theorem indirectTarget_no_panic (expectedType callee : Nat) :
    indirectTarget code expectedType callee ≠ .error .panic := by
  unfold indirectTarget
  by_cases htype : (if callee < MAX_FUNCS then allFuncTypes code callee else usizeMax) ≠ expectedType
  · rw [if_pos htype]
    exact fun hp => by cases hp
  rw [if_neg htype]
  by_cases himp : callee < code.importCount
  · rw [if_pos himp]
    exact hostAt_no_panic (by omega)
  rw [if_neg himp]
  by_cases hbody : code.bodies.length ≤ callee - code.importCount
  · rw [if_pos hbody]
    exact fun hp => by cases hp
  · rw [if_neg hbody]
    exact frameAt_no_panic (by omega)

theorem compileJit_loop_ok : ∀ {k bi : Nat} (j : Jit), bi + k ≤ code.bodies.length →
    ∃ j', (compileJit.loop code k bi j : Rust InterpError Jit) = .ok j'
  | 0, _, j, _ => ⟨j, rfl⟩
  | k + 1, bi, j, hk => by
    have hnext : bi + 1 + k ≤ code.bodies.length := by omega
    rw [compileJit.loop, scratch_eq (by omega), bind_ok]
    split
    · exact compileJit_loop_ok j hnext
    split
    · exact compileJit_loop_ok j hnext
    split
    · exact ⟨j, rfl⟩
    rw [if_neg (by omega)]
    exact compileJit_loop_ok _ hnext

theorem compileJit_ok (fill : Nat) (buf : Nat → UInt8) :
    ∃ j, (compileJit code fill buf : Rust InterpError Jit) = .ok j := by
  obtain ⟨j, hj⟩ := compileJit_loop_ok hmax ⟨fill, buf, fun _ => none⟩ (Nat.le_of_eq (Nat.zero_add _))
  refine ⟨j, ?_⟩
  rw [compileJit, hj, bind_ok, if_neg (by omega)]

end

/-! ## Spawned modules -/

/-- The two kinds of functions share the tables: no access is out of range and every function has its declared
type. -/
structure IndexSpaceSafe (code : Code (HostFn ω)) (ds : List ImportDecl) (ts : List Nat) : Prop where
  total : code.importCount + code.bodies.length ≤ MAX_FUNCS
  compile : ∀ fill buf, (compileJit code fill buf : Rust InterpError Jit) ≠ .error .panic
  entry : ∀ funcIdx, entryTarget code funcIdx ≠ .error .panic
  call : ∀ fns callee, callTarget code fns callee ≠ .error .panic
  indirect : ∀ expectedType callee, indirectTarget code expectedType callee ≠ .error .panic
  types : ∀ f, f < code.importCount + code.bodies.length → declaredType ds ts f = some (allFuncTypes code f)

section
variable {lookupHost : List UInt8 → List UInt8 → Option (HostFn ω)} {bytes : List UInt8}
  {inst : Instance (HostFn ω)} {m : Module}

theorem functions_of_instantiate (hfit : Fits bytes) (h : instantiate lookupHost bytes = .ok inst)
    (hm : load bytes = .ok m) :
    FuncTypes m.functionSection inst.code.funcTypeIndices ∧ inst.code.bodies.length = entryCount m.codeSection := by
  obtain ⟨m', pages, importCount, names, inst', hm', _, _, _, hnew, hcode, _, _⟩ := instantiate_inv h
  obtain rfl : m = m' := Except.ok.inj (hm.symm.trans hm')
  obtain ⟨types, funcs, codeBytes, bodies, globals, importTypes, table, jumps, _, hfuncs, hsome, hbodies, _,
    _, _, _, rfl⟩ :=
    interpreterNew_inv hnew
  obtain ⟨_, _, hfunc, _, _, _, hcodeFit, _⟩ := load_sections hfit hm
  rw [hcode]
  refine ⟨funcTypes_of_parse hfunc hfuncs, ?_⟩
  obtain ⟨start, hread, _⟩ := parseCodeSection_count hbodies
  obtain ⟨_, n, hleb, _⟩ := (readU32_eq_ok (hcodeFit codeBytes hsome)).mp hread
  rw [List.drop_zero] at hleb
  simp [entryCount, hsome, hleb]

/-- The index space of a spawned module is safe exactly when its function imports and its code entries are at
most `MAX_FUNCS` together and each code entry has a type in the function section. -/
theorem indexSpace_safe_iff (hfit : Fits bytes) (h : instantiate lookupHost bytes = .ok inst)
    (hm : load bytes = .ok m) :
    (∃ ds ts, Imports m.importSection ds ∧ FuncTypes m.functionSection ts) ∧
    ∀ ds ts, Imports m.importSection ds → FuncTypes m.functionSection ts →
      (IndexSpaceSafe inst.code ds ts ↔ (funcImports ds).length + entryCount m.codeSection ≤ MAX_FUNCS ∧
        entryCount m.codeSection ≤ entryCount m.functionSection) := by
  obtain ⟨ds, hds, hcount, _, htypes, _⟩ := walkers_of_instantiate hfit h hm
  obtain ⟨hts, hbodies⟩ := functions_of_instantiate hfit h hm
  refine ⟨⟨ds, _, hds, hts⟩, fun ds' ts hds' hts' => ?_⟩
  obtain rfl := hds.unique hds'
  obtain rfl := hts.unique hts'
  rw [hts.count, ← hbodies, ← hcount]
  constructor
  · intro hsafe
    refine ⟨hsafe.total, ?_⟩
    by_contra hmore
    have hnone := hsafe.types (inst.code.importCount + inst.code.funcTypeIndices.length) (by omega)
    simp only [declaredType, ← hcount] at hnone
    rw [if_neg (by omega), Nat.add_sub_cancel_left, List.getElem?_eq_none (Nat.le_refl _)] at hnone
    cases hnone
  · intro ⟨htotal, hdeclared⟩
    refine ⟨htotal, fun fill buf => ?_, entryTarget_no_panic htotal, callTarget_no_panic htotal,
      indirectTarget_no_panic htotal,
      fun f hf => ?_⟩
    · obtain ⟨j, hj⟩ := compileJit_ok htotal fill buf
      rw [hj]
      exact fun hp => by cases hp
    · rw [declaredType, ← hcount, allFuncTypes]
      by_cases himp : f < inst.code.importCount
      · obtain ⟨t, ht, hti⟩ := getElem?_typeIdx (List.getElem?_eq_getElem (hcount ▸ himp))
        rw [if_pos himp, if_neg (by omega), List.getElem?_eq_getElem (hcount ▸ himp), Option.bind_some, ht, htypes,
          List.getD_eq_getElem?_getD, hti]
        rfl
      · have hlt : f - inst.code.importCount < inst.code.funcTypeIndices.length := by omega
        rw [if_neg himp, if_pos ⟨by omega, by omega⟩, List.getD_eq_getElem?_getD, List.getElem?_eq_getElem hlt]
        rfl

end

end

def oneOfEach : List UInt8 :=
  [0x00, 0x61, 0x73, 0x6D, 1, 0, 0, 0] ++ [0x01, 4, 1, 0x60, 0, 0] ++ [0x02, 7, 1, 1, 0x65, 1, 0x70, 0, 0] ++
    [0x03, 2, 1, 0] ++
    [0x0A, 4, 1, 2, 0, 0x0B]

theorem oneOfEach_safe : ∃ inst ds ts, instantiate registered oneOfEach = .ok inst ∧
    inst.code.importCount + inst.code.bodies.length = 2 ∧
    IndexSpaceSafe inst.code ds ts := by
  let sec : List UInt8 := [1, 1, 0x65, 1, 0x70, 0, 0]
  obtain ⟨m, hm, himp, hfunc, hcode⟩ : ∃ m, load oneOfEach = .ok m ∧ m.importSection = some sec ∧
      m.functionSection = some [1, 0] ∧
      m.codeSection = some [1, 2, 0, 0x0B] := ⟨_, rfl, rfl, rfl, rfl⟩
  obtain ⟨inst, hinst, hcount⟩ : ∃ inst, instantiate registered oneOfEach = .ok inst ∧
      inst.code.importCount + inst.code.bodies.length = 2 := ⟨_, rfl, rfl⟩
  have hds : Imports m.importSection [⟨[0x65], [0x70], some 0⟩] := by
    rw [himp]
    have hfirst : ImportAt sec 1 ⟨[0x65], [0x70], some 0⟩ 7 :=
      ⟨1, 2, 1, 4, 0, by decide, by decide, rfl, by decide, rfl, rfl, .inl ⟨rfl, 0, rfl, by decide⟩⟩
    exact ⟨1, by decide, .cons hfirst .nil⟩
  have hts : FuncTypes m.functionSection [0] := by
    rw [hfunc]
    exact ⟨1, by decide, .cons (show readU32 [1, 0] () 1 = .ok (0, 2) by decide) .nil⟩
  refine ⟨inst, _, _, hinst, hcount, ((indexSpace_safe_iff (show _ < _ by decide) hinst hm).2 _ _ hds hts).mpr ?_⟩
  rw [hcode, hfunc]
  exact ⟨by decide, by decide⟩

/-- One import and `MAX_FUNCS` functions, each of which calls the last one. -/
def crowded : Asm.Module where
  types := [⟨[], []⟩]
  imports := [⟨[0x65], [0x70], 0⟩]
  funcs := List.replicate MAX_FUNCS ⟨0, [], [.call 512]⟩

theorem crowded_spawnable : Asm.Spawnable registered default crowded where
  import_utf8 := by decide
  imports := by simp [crowded, registered]
  types := by decide
  funcs_ne := List.ne_nil_of_length_pos (by rw [crowded, List.length_replicate]; decide)
  funcs := by simp [crowded]
  pages := by decide
  data := by simp [crowded]
  size := by decide +kernel
  locals := by simp [crowded]

theorem compileJit_none {ω : Type} {code : Code (HostFn ω)}
    (hnone : ∀ bi < MAX_FUNCS, jitCompileBody (bodyOf code bi) (localsOf code bi) (resultsOf code bi)
      MAX_FN_BYTES = none) (j : Jit) :
    ∀ {k bi : Nat}, bi + k ≤ MAX_FUNCS → (compileJit.loop code k bi j : Rust InterpError Jit) = .ok j
  | 0, _, _ => rfl
  | k + 1, bi, hk => by
    rw [compileJit.loop, scratch_eq (by omega), bind_ok, hnone bi (by omega)]
    exact compileJit_none hnone j (by omega)

/-- No body of `crowded` is compiled, the spawn succeeds, and the first call indexes `jit_fns` with `MAX_FUNCS`. -/
theorem crowded_panics : ∃ (bytes : List UInt8) (inst : Instance (HostFn Unit)) (j : Jit), Fits bytes ∧
    instantiate registered bytes = .ok inst ∧ (compileJit inst.code 0 (fun _ => 0) : Rust InterpError Jit) = .ok j ∧
    ¬ inst.code.importCount + inst.code.bodies.length ≤ MAX_FUNCS ∧
    callTarget inst.code j.fns 512 = .error .panic := by
  obtain ⟨inst, hinst, hbodies, himp⟩ : ∃ inst, instantiate registered (Asm.emitModule default crowded) = .ok inst ∧
      inst.code.bodies = List.replicate MAX_FUNCS [0x10, 0x80, 0x04, 0x0B] ∧ inst.code.importCount = 1 := by
    refine ⟨_, Asm.instantiate_emitModule crowded_spawnable, ?_, rfl⟩
    simp only [Asm.instanceOf, Asm.codeOf, crowded, List.map_replicate]
    congr 1
  have hlen : inst.code.bodies.length = MAX_FUNCS := by rw [hbodies, List.length_replicate]
  have hnone : ∀ bi < MAX_FUNCS,
      jitCompileBody (bodyOf inst.code bi) (localsOf inst.code bi) (resultsOf inst.code bi) MAX_FN_BYTES =
      none := by
    intro bi hbi
    have hbody : bodyOf inst.code bi = [0x10, 0x80, 0x04, 0x0B] := by
      rw [bodyOf, hbodies, List.getD_eq_getElem?_getD, List.getElem?_replicate, if_pos hbi]
      rfl
    rw [hbody, jitCompileBody_eq]
    split <;> rfl
  refine ⟨_, inst, ⟨0, fun _ => 0, fun _ => none⟩, Asm.fits_of_size crowded_spawnable.size, hinst, ?_, ?_, ?_⟩
  · rw [compileJit, hlen, compileJit_none hnone _ (by omega), bind_ok, himp]
    rfl
  · rw [himp, hlen]
    decide
  · rw [callTarget, himp, hlen, if_neg (by decide)]
    simp only
    rw [if_neg (by decide), if_pos (by decide)]

end WasmOs
