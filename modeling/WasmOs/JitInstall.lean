import WasmOs.InstanceSpec
import WasmOs.Interp
import WasmOs.JitCode

/-!
# Installing native code

`compile_jit` translates each body into a scratch buffer of `MAX_FN_BYTES` bytes and copies what is
there into `JIT_BUF`. The compiler does not report a full buffer, so a body with more code than that is
installed without its end.
-/

namespace WasmOs

/-! ## The size of the code -/

/-- The displacement of the local fits into a byte. -/
def shortLocal (idx : Nat) : Bool := idx % 2 ^ 29 < 16 || 2 ^ 29 - 16 ≤ idx % 2 ^ 29

/-- `mov rax, [r13 + 8 * idx]` or the store. -/
def localSize (idx : Nat) : Nat := if shortLocal idx then 4 else 7

def JitOp.size : JitOp → Nat
  | .const _ => 11
  | .localGet idx => localSize idx + 1
  | .localSet idx => localSize idx + 1
  | .localTee idx => localSize idx + 2
  | .bin .mul => 7
  | .bin _ => 6
  | .drop => 4
  | .nop => 0

def codeSize (ops : List JitOp) (resultCount : Nat) : Nat :=
  29 + (ops.map JitOp.size).sum + (if 0 < resultCount then 4 else 8) + 15

theorem shortLocal_iff (idx : Nat) :
    shortLocal idx = true ↔ -128 ≤ (localOffset idx).toInt ∧ (localOffset idx).toInt ≤ 127 := by
  have hval : (localOffset idx).toNat = 8 * (idx % 2 ^ 29) := by
    rw [localOffset, BitVec.toNat_ofNat]
    omega
  rw [BitVec.toInt_eq_toNat_cond, hval, shortLocal, Bool.or_eq_true, decide_eq_true_iff, decide_eq_true_iff]
  have hlt : idx % 2 ^ 29 < 2 ^ 29 := Nat.mod_lt _ (by decide)
  generalize idx % 2 ^ 29 = k at hlt
  split <;> omega

theorem length_memModrm (idx : Nat) : (emitMemModrm .rax .r13 (localOffset idx)).length + 2 = localSize idx := by
  rw [emitMemModrm, if_neg (fun h => h.2 rfl), localSize]
  by_cases hshort : shortLocal idx = true
  · rw [if_pos hshort, if_pos ((shortLocal_iff idx).mp hshort)]
    rfl
  · rw [if_neg hshort, if_neg fun h => hshort ((shortLocal_iff idx).mpr h)]
    simp [emitU32]

theorem length_loadLocal (idx : Nat) : (loadLocal idx).bytes.length = localSize idx := by
  have := length_memModrm idx
  simp only [loadLocal, emitLoadMem, emitRexRr, List.length_append, List.length_cons, List.length_nil]
  omega

theorem length_storeLocal (idx : Nat) : (storeLocal idx).bytes.length = localSize idx := by
  have := length_memModrm idx
  simp only [storeLocal, emitStoreMem, emitRexRr, List.length_append, List.length_cons, List.length_nil]
  omega

theorem length_op (op : JitOp) : (codeBytes op.code).length = op.size := by
  cases op with
  | const v =>
    simp [JitOp.code, codeBytes, emitMovRi64, emitU64, JitOp.size, pushRax, emitPush, emitShort, needsRex,
      X86.Reg.num]
  | localGet idx =>
    simp [JitOp.code, codeBytes, length_loadLocal, JitOp.size, pushRax, emitPush, emitShort, needsRex,
      X86.Reg.num]
  | localSet idx =>
    simp [JitOp.code, codeBytes, length_storeLocal, JitOp.size, popRax, emitPop, emitShort, needsRex, X86.Reg.num]
  | localTee idx =>
    simp [JitOp.code, codeBytes, length_storeLocal, JitOp.size, pushRax, popRax, emitPush, emitPop, emitShort,
      needsRex, X86.Reg.num]
  | bin op => cases op <;> rfl
  | drop => rfl
  | nop => rfl

theorem length_ops (ops : List JitOp) : (codeBytes (ops.flatMap JitOp.code)).length = (ops.map JitOp.size).sum := by
  induction ops with
  | nil => rfl
  | cons op ops ih =>
    rw [List.flatMap_cons, codeBytes_append, List.length_append, length_op, ih, List.map_cons, List.sum_cons]

theorem length_code (ops : List JitOp) (resultCount : Nat) :
    (codeBytes (opsCode ops resultCount) ++ emitRet).length = codeSize ops resultCount := by
  have hentry : (codeBytes entryCode).length = 29 := rfl
  have hexit : (codeBytes (exitCode resultCount) ++ emitRet).length = (if 0 < resultCount then 4 else 8) + 15 := by
    unfold exitCode
    split <;> rfl
  rw [List.length_append] at hexit
  rw [opsCode, codeBytes_append, codeBytes_append, List.length_append, List.length_append, List.length_append,
    hentry, length_ops,
    codeSize]
  omega

/-! ## Code that is not cut off -/

/-- The code of a body in a buffer that never fills up. -/
def Unbounded (body : List UInt8) (localsCount resultCount : Nat) (bytes : List UInt8) : Prop :=
  ∃ n, ∀ cap, n ≤ cap → jitCompileBody body localsCount resultCount cap = some bytes

structure Whole (body : List UInt8) (localsCount resultCount : Nat) (bytes : List UInt8) : Prop where
  unbounded : Unbounded body localsCount resultCount bytes
  epilogue : emitEpilogue <:+ bytes

/-- The operations of the body have at most `cap` bytes of code. -/
def CodeFits (body : List UInt8) (resultCount cap : Nat) : Prop :=
  resultCount ≤ 1 → ∀ ops, jitOps body = some ops → codeSize ops resultCount ≤ cap

section
variable {body bytes : List UInt8} {lc rc cap : Nat}

theorem jitCompileBody_eq_some : jitCompileBody body lc rc cap = some bytes ↔
    rc ≤ 1 ∧ ∃ ops, jitOps body = some ops ∧ (codeBytes (opsCode ops rc) ++ emitRet).take cap = bytes := by
  rw [jitCompileBody_eq]
  by_cases hrc : 1 < rc
  · rw [if_pos hrc]
    simp only [reduceCtorEq, false_iff]
    exact fun h => absurd h.1 (Nat.not_le_of_lt hrc)
  · rw [if_neg hrc, Option.map_eq_some_iff]
    exact (and_iff_right (Nat.le_of_not_lt hrc)).symm

theorem compiled_of_ops (lc cap : Nat) {ops : List JitOp} (hrc : rc ≤ 1) (hops : jitOps body = some ops) :
    jitCompileBody body lc rc cap = some ((codeBytes (opsCode ops rc) ++ emitRet).take cap) :=
  jitCompileBody_eq_some.mpr ⟨hrc, ops, hops, rfl⟩

theorem unbounded_iff : Unbounded body lc rc bytes ↔
    rc ≤ 1 ∧ ∃ ops, jitOps body = some ops ∧ codeBytes (opsCode ops rc) ++ emitRet = bytes := by
  constructor
  · intro ⟨n, h⟩
    obtain ⟨hrc, ops, hops, _⟩ := jitCompileBody_eq_some.mp (h n (Nat.le_refl n))
    refine ⟨hrc, ops, hops, ?_⟩
    obtain ⟨_, ops', hops', htake⟩ :=
      jitCompileBody_eq_some.mp (h (max n (codeBytes (opsCode ops rc) ++ emitRet).length) (Nat.le_max_left _ _))
    cases Option.some.inj (hops.symm.trans hops')
    rwa [List.take_of_length_le (Nat.le_max_right _ _)] at htake
  · intro ⟨hrc, ops, hops, hbytes⟩
    refine ⟨bytes.length, fun cap hcap => jitCompileBody_eq_some.mpr ⟨hrc, ops, hops, ?_⟩⟩
    rw [hbytes, List.take_of_length_le hcap]

theorem Unbounded.epilogue (h : Unbounded body lc rc bytes) : emitEpilogue <:+ bytes := by
  obtain ⟨_, ops, _, rfl⟩ := unbounded_iff.mp h
  have hexit : emitEpilogue = codeBytes restoreCode ++ emitRet := rfl
  rw [hexit, opsCode, exitCode, codeBytes_append, codeBytes_append, codeBytes_append]
  exact ⟨codeBytes entryCode ++ (codeBytes (ops.flatMap JitOp.code) ++ codeBytes (if 0 < rc then
      [popRax, unwind] else [unwind, clearRax])),
    by simp only [List.append_assoc]⟩

theorem whole_iff (h : jitCompileBody body lc rc cap = some bytes) :
    Whole body lc rc bytes ↔ CodeFits body rc cap := by
  obtain ⟨hrc, ops, hops, htake⟩ := jitCompileBody_eq_some.mp h
  have hlen := length_code ops rc
  constructor
  · intro hwhole _ ops' hops'
    cases Option.some.inj (hops.symm.trans hops')
    obtain ⟨_, ops', hops', hbytes⟩ := unbounded_iff.mp hwhole.unbounded
    cases Option.some.inj (hops.symm.trans hops')
    have hcut := congrArg List.length (htake.trans hbytes.symm)
    rw [List.length_take] at hcut
    omega
  · intro hfits
    have hle := hfits hrc ops hops
    rw [List.take_of_length_le (by omega)] at htake
    have hun : Unbounded body lc rc bytes := unbounded_iff.mpr ⟨hrc, ops, hops, htake⟩
    exact ⟨hun, hun.epilogue⟩

end

/-! ## `compile_jit` -/

def JIT_BUF_SIZE : Nat := 2048 * 1024

/-- Address and new fill level; addresses are multiples of 16. -/
def jitAlloc (fill len : Nat) : Option (Nat × Nat) :=
  let aligned := (fill + 15) / 16 * 16
  if JIT_BUF_SIZE < aligned + len then none else some (aligned, aligned + len)

/-- `JIT_BUF` with its fill level, and `jit_fns` as addresses in it. -/
structure Jit where
  fill : Nat
  buf : Nat → UInt8
  fns : Nat → Option Nat

section
variable {ε H : Type} (code : Code H)

def localsOf (bi : Nat) : Nat :=
  (code.types.getD (code.funcTypeIndices.getD bi 0) (0, 0)).1 + code.localCounts.getD bi 0

def resultsOf (bi : Nat) : Nat := (code.types.getD (code.funcTypeIndices.getD bi 0) (0, 0)).2

def bodyOf (bi : Nat) : List UInt8 := code.bodies.getD bi []

def scratch (bi : Nat) : Rust ε (Option (List UInt8)) := do
  let body ← tableAt MAX_FUNCS code.bodies [] bi
  let typeIdx ← tableAt MAX_FUNCS code.funcTypeIndices 0 bi
  let (nParams, nResults) := code.types.getD typeIdx (0, 0)
  let declared ← tableAt MAX_FUNCS code.localCounts 0 bi
  .ok (jitCompileBody body (nParams + declared) nResults MAX_FN_BYTES)

def compileJit.loop : Nat → Nat → Jit → Rust ε Jit
  | 0, _, j => .ok j
  | k + 1, bi, j => do
    match ← scratch code bi with
    -- the interpreter runs this one
    | none => compileJit.loop k (bi + 1) j
    | some bytes =>
      if bytes.length = 0 then compileJit.loop k (bi + 1) j else
      match jitAlloc j.fill bytes.length with
      | none => .ok j
      | some (dst, fill) =>
        if MAX_FUNCS ≤ code.importCount + bi then .error .panic else
        compileJit.loop k (bi + 1) ⟨fill, blit j.buf dst bytes, upd j.fns (code.importCount + bi) (some dst)⟩

/-- `compile_jit` on a fresh interpreter; its last line slices `jit_fns` from `import_count` on. -/
def compileJit (fill : Nat) (buf : Nat → UInt8) : Rust ε Jit := do
  let j ← compileJit.loop code code.bodies.length 0 ⟨fill, buf, fun _ => none⟩
  if MAX_FUNCS < code.importCount then .error .panic else .ok j

variable {code}

theorem scratch_eq {bi : Nat} (h : bi < MAX_FUNCS) :
    (scratch code bi : Rust ε _) = .ok
    (jitCompileBody (bodyOf code bi) (localsOf code bi) (resultsOf code bi) MAX_FN_BYTES) := by
  simp only [scratch, tableAt, if_pos h, bind_ok, bodyOf, localsOf, resultsOf]

theorem jitAlloc_eq_some {fill len dst fill' : Nat} (h : jitAlloc fill len = some (dst, fill')) :
    fill ≤ dst ∧ fill' = dst + len := by
  unfold jitAlloc at h
  simp only at h
  split at h
  · cases h
  · cases h
    exact ⟨by omega, rfl⟩

/-- Each entry of `jit_fns` is the address of the code of its body. -/
def Jit.Placed (code : Code H) (j : Jit) : Prop :=
  ∀ f addr, j.fns f = some addr → ∃ bi bytes, f = code.importCount + bi ∧ bi < code.bodies.length ∧
    jitCompileBody (bodyOf code bi) (localsOf code bi) (resultsOf code bi) MAX_FN_BYTES = some bytes ∧
    slice j.buf addr bytes.length = bytes ∧ addr + bytes.length ≤ j.fill

theorem slice_blit_self (a : Nat → UInt8) (dst : Nat) (bytes : List UInt8) :
    slice (blit a dst bytes) dst bytes.length = bytes := by
  apply List.ext_getElem
  · simp
  · intro i hi hi'
    rw [slice_getElem, blit_apply, dif_pos ⟨by omega, by omega⟩]
    simp

theorem slice_blit_below (a : Nat → UInt8) {dst lo n : Nat} (bytes : List UInt8) (h : lo + n ≤ dst) :
    slice (blit a dst bytes) lo n = slice a lo n := by
  apply List.ext_getElem
  · simp
  · intro i hi hi'
    rw [slice_getElem, slice_getElem, blit_apply, dif_neg]
    simp only [slice_length] at hi
    omega

/-- A new function lies behind the ones before it. -/
theorem Jit.Placed.install {j : Jit} (hj : j.Placed code) {bi dst fill : Nat} {bytes : List UInt8}
    (hbi : bi < code.bodies.length)
    (hbytes : jitCompileBody (bodyOf code bi) (localsOf code bi) (resultsOf code bi) MAX_FN_BYTES = some bytes)
    (halloc : jitAlloc j.fill bytes.length = some (dst, fill)) :
    Jit.Placed code ⟨fill, blit j.buf dst bytes, upd j.fns (code.importCount + bi) (some dst)⟩ := by
  obtain ⟨hdst, rfl⟩ := jitAlloc_eq_some halloc
  intro f addr hf
  simp only at hf ⊢
  by_cases hnew : f = code.importCount + bi
  · rw [hnew, upd_self] at hf
    cases hf
    exact ⟨bi, bytes, hnew, hbi, hbytes, slice_blit_self .., Nat.le_refl _⟩
  · rw [upd_of_ne _ _ hnew] at hf
    obtain ⟨bi', bytes', hidx, hlt, hbytes', hslice, hend⟩ := hj f addr hf
    refine ⟨bi', bytes', hidx, hlt, hbytes', ?_, by omega⟩
    rw [slice_blit_below _ _ (by omega), hslice]

theorem placed_loop : ∀ {k bi : Nat} {j j' : Jit}, bi + k ≤ code.bodies.length →
    code.bodies.length ≤ MAX_FUNCS → j.Placed code →
    (compileJit.loop code k bi j : Rust ε Jit) = .ok j' → j'.Placed code
  | 0, _, _, _, _, _, hj, h => by
    cases h
    exact hj
  | k + 1, bi, j, j', hk, hmax, hj, h => by
    have hnext : bi + 1 + k ≤ code.bodies.length := by omega
    rw [compileJit.loop, scratch_eq (by omega), bind_ok] at h
    split at h
    · exact placed_loop hnext hmax hj h
    rename_i bytes hbytes
    split at h
    · exact placed_loop hnext hmax hj h
    split at h
    · cases h
      exact hj
    rename_i dst fill halloc
    split at h
    · cases h
    exact placed_loop hnext hmax (hj.install (by omega) hbytes halloc) h

theorem placed_compileJit {fill : Nat} {buf : Nat → UInt8} {j : Jit} (hmax : code.bodies.length ≤ MAX_FUNCS)
    (h : (compileJit code fill buf : Rust ε Jit) = .ok j) : j.Placed code := by
  obtain ⟨j', hloop, h⟩ := bind_eq_ok.mp h
  split at h
  · cases h
  cases h
  exact placed_loop (by omega) hmax (fun f addr hf => by cases hf) hloop

end

/-- The compiler returns the whole code exactly when it fits, and what a spawned module's `jit_fns` point at is the
code of a body, whole exactly when it has at most `MAX_FN_BYTES` bytes. -/
theorem jit_code_whole_iff {H : Type} (body : List UInt8) (lc rc cap : Nat)
    (lookupHost : List UInt8 → List UInt8 → Option H)
    (bytes : List UInt8) (inst : Instance H) (fill : Nat) (buf : Nat → UInt8) (j : Jit) :
    ((∀ native, jitCompileBody body lc rc cap = some native → Whole body lc rc native) ↔ CodeFits body rc cap) ∧
    (Fits bytes → instantiate lookupHost bytes = .ok inst →
      (compileJit inst.code fill buf : Rust InterpError Jit) = .ok j →
      ∀ f addr, j.fns f = some addr →
      ∃ bi native, f = inst.code.importCount + bi ∧ bi < inst.code.bodies.length ∧
      slice j.buf addr native.length = native ∧
        (Whole (bodyOf inst.code bi) (localsOf inst.code bi) (resultsOf inst.code bi) native ↔
          CodeFits (bodyOf inst.code bi) (resultsOf inst.code bi) MAX_FN_BYTES)) := by
  constructor
  · constructor
    · intro h hrc ops hops
      have hsome := compiled_of_ops lc cap hrc hops
      exact (whole_iff hsome).mp (h _ hsome) hrc ops hops
    · intro hfits native hnative
      exact (whole_iff hnative).mpr hfits
  · intro hfit hinst hj f addr hf
    have hmax := (instantiate_limits hfit hinst).1
    obtain ⟨bi, native, hidx, hlt, hnative, hslice, _⟩ := placed_compileJit hmax hj f addr hf
    exact ⟨bi, native, hidx, hlt, hslice, whole_iff hnative⟩

/-- `i32.const 0` and `drop`, over and over -/
def constDrops (n : Nat) : List UInt8 := (List.replicate n [0x41, 0x00, 0x1A]).flatten ++ [0x0B]

theorem constDrops_loop : ∀ {n fuel ip : Nat} {body : List UInt8}, body.drop ip = constDrops n → 2 * n + 1 ≤ fuel →
    jitOps.loop body fuel ip = some (List.replicate n [JitOp.const 0, .drop]).flatten
  | 0, fuel + 1, ip, body, h, _ => by
    have hop : body[ip]? = some 0x0B := by
      rw [← Nat.add_zero ip, ← List.getElem?_drop, h]
      rfl
    have hlen : ip + 1 = body.length := by
      have := congrArg List.length h
      simp [constDrops] at this
      omega
    rw [jitOps.loop, hop]
    simp [hlen]
  | n + 1, fuel + 2, ip, body, h, hfuel => by
    have h : body.drop ip = 0x41 :: 0x00 :: 0x1A :: constDrops n := by
      rw [h, constDrops, List.replicate_succ, List.flatten_cons]
      rfl
    have hop : body[ip]? = some 0x41 := by
      rw [← Nat.add_zero ip, ← List.getElem?_drop, h]
      rfl
    have hval : readI32Leb128 (body.drop (ip + 1)) = some (0, 1) := by
      rw [← List.drop_drop, h]
      rfl
    have hop' : body[ip + 2]? = some 0x1A := by
      rw [← List.getElem?_drop, h]
      rfl
    have hrest : body.drop (ip + 3) = constDrops n := by
      rw [← List.drop_drop, h]
      rfl
    rw [jitOps.loop, hop]
    simp only [if_true, hval, Option.bind_eq_bind, Option.bind_some]
    rw [jitOps.loop, hop']
    simp [constDrops_loop hrest (show 2 * n + 1 ≤ fuel by omega), List.replicate_succ]

theorem jitOps_constDrops (n : Nat) :
    jitOps (constDrops n) = some (List.replicate n [JitOp.const 0, .drop]).flatten := by
  apply constDrops_loop rfl
  simp [constDrops]
  omega

/-- One function with three such pairs, spawned and compiled. -/
def constDropsModule : List UInt8 :=
  [0x00, 0x61, 0x73, 0x6D, 1, 0, 0, 0] ++ [0x01, 4, 1, 0x60, 0, 0] ++ [0x03, 2, 1, 0] ++
    [0x0A, 13, 1, 11, 0] ++ constDrops 3

theorem constDrops_whole : ∃ (inst : Instance Unit) (j : Jit) (addr : Nat) (native : List UInt8),
    instantiate (fun _ _ => none) constDropsModule = .ok inst ∧
    (compileJit inst.code 0 (fun _ => 0) : Rust InterpError Jit) = .ok j ∧ j.fns 0 = some addr ∧
    slice j.buf addr native.length = native ∧ Whole (constDrops 3) 0 0 native := by
  obtain ⟨inst, hinst, himp, hcount, hbody, hlocals, hresults⟩ : ∃ inst : Instance Unit,
      instantiate (fun _ _ => none) constDropsModule = .ok inst ∧ inst.code.importCount = 0 ∧
      inst.code.bodies.length = 1 ∧
      bodyOf inst.code 0 = constDrops 3 ∧ localsOf inst.code 0 = 0 ∧ resultsOf inst.code 0 = 0 :=
      ⟨_, rfl, rfl, rfl, rfl, rfl, rfl⟩
  have hsome := compiled_of_ops 0 MAX_FN_BYTES (Nat.zero_le 1) (jitOps_constDrops 3)
  have hlen := length_code (List.replicate 3 [JitOp.const 0, .drop]).flatten 0
  rw [List.take_of_length_le (by rw [hlen]; decide)] at hsome
  rw [show codeSize (List.replicate 3 [JitOp.const 0, .drop]).flatten 0 = 97 by decide] at hlen
  generalize codeBytes (opsCode (List.replicate 3 [JitOp.const 0, .drop]).flatten 0) ++ emitRet =
    native at hsome hlen
  have hj : (compileJit inst.code 0 (fun _ => 0) : Rust InterpError Jit) =
      .ok ⟨97, blit (fun _ => 0) 0 native, upd (fun _ => none) 0 (some 0)⟩ := by
    rw [compileJit, hcount, compileJit.loop, scratch_eq (by decide), bind_ok, hbody, hlocals, hresults, hsome]
    simp only [hlen, himp]
    rfl
  have hwhole :=
    (jit_code_whole_iff (constDrops 3) 0 0 MAX_FN_BYTES (fun _ _ => none) constDropsModule inst 0
      (fun _ => 0) _).2
    (show _ < _ by decide) hinst hj 0 0 rfl
  obtain ⟨bi, native, hbi, _, hslice, hiff⟩ := hwhole
  obtain rfl : bi = 0 := by omega
  rw [hbody, hlocals, hresults] at hiff
  refine ⟨inst, _, 0, native, hinst, hj, rfl, hslice, hiff.mpr fun _ ops hops => ?_⟩
  rw [jitOps_constDrops] at hops
  cases hops
  decide

/-- The code of 280 such pairs is cut off. -/
theorem constDrops_cut :
    ¬ ∀ (body bytes : List UInt8) (lc rc : Nat), jitCompileBody body lc rc MAX_FN_BYTES = some bytes →
    Whole body lc rc bytes := by
  intro h
  have hops := jitOps_constDrops 280
  have hsome := compiled_of_ops 0 MAX_FN_BYTES (Nat.zero_le 1) hops
  have hle := (whole_iff hsome).mp (h _ _ 0 0 hsome) (Nat.zero_le 1) _ hops
  exact absurd hle (by decide +kernel)

end WasmOs
