import WasmOs.ShadowBody

/-!
# What a shadow run is compared with

The call of a compiled function passes the locals buffer of the native code on to `run_shadow`. By then
the code has stored its own assignments there, so that the interpreter starts from the last values of the
parameters and not from the arguments.
-/

namespace WasmOs

open X86 (Machine)
open Hoare (wp wp_bind wp_pure wp_get wp_set wp_ite wp_mono)

/-! ## The code -/

/-- The first `n` entries of the locals buffer at `a`. -/
def storeLocals (a : BitVec 64) (locals : Nat → BitVec 64) (mem : BitVec 64 → UInt8) : Nat → BitVec 64 → UInt8
  | 0 => mem
  | n + 1 => X86.write64 (storeLocals a locals mem n) (a + BitVec.ofNat 64 (8 * n)) (locals n)

def withLocals (m : Machine) (locals : Nat → BitVec 64) : Machine :=
  { m with mem := storeLocals (m.regs .rdx) locals m.mem MAX_LOCALS }

/-- `jit_fn(mem, globals, locals)`: the result and the locals buffer afterwards, if the code has returned. -/
def callNative (native : List UInt8) (m : Machine) (locals : Nat → BitVec 64) (fuel : Nat) :
    Option (BitVec 64 × (Nat → BitVec 64)) :=
  (X86.run fuel native (withLocals m locals)).map fun m' =>
    (m'.regs .rax, fun k => X86.read64 m'.mem (m.regs .rdx + BitVec.ofNat 64 (8 * k)))

section
variable {ω : Type} (code : Code (HostFn ω)) (F : FloatOps)

/-- The first half of a call of a compiled function: its result and `&locals[..n_params]`. -/
def runNative (callee : Nat) (native : List UInt8) (m : Machine) (fuel : Nat) :
    ShadowM ω (Option (BitVec 64 × List (BitVec 64))) := do
  let nParams := (code.types.getD (allFuncTypes code callee) (0, 0)).1
  let t ← get
  if t.interp.vsp < nParams then throw (.err .stackUnderflow) else
  let locals ← onInterp (popParams nParams fun _ => 0)
  pure ((callNative native m locals fuel).map fun (result, locals) => (result, slice locals 0 nParams))

/-- The second half: whether a mismatch is reported, and the result on the stack. -/
def compareShadow (callee : Nat) (jitResult : BitVec 64) (params : List (BitVec 64)) (fuel : Nat) :
    ShadowM ω (Option Bool) := do
  let nResults := (code.types.getD (allFuncTypes code callee) (0, 0)).2
  match ← runShadow code F (callee - code.importCount) params nResults fuel with
  | none => pure none
  | some shadowResult =>
    if 0 < nResults then
      onInterp (vPush jitResult)
      pure (some (shadowResult.any (· != jitResult)))
    else pure (some false)

/-- `call` of a function with native code; `none` if the fuel is used up, and else whether a mismatch is
reported. -/
def callCompiled (callee : Nat) (native : List UInt8) (m : Machine) (fuel : Nat) : ShadowM ω (Option Bool) := do
  match ← runNative code callee native m fuel with
  | none => pure none
  | some (jitResult, params) => compareShadow code F callee jitResult params fuel

/-! ## Being meaningful -/

/-- The interpreter, with the arguments on the stack, calls the function and returns with `r`. -/
def InterpResult (calleeBody : Nat) (t : Shadowed ω) (r : BitVec 64) : Prop :=
  ∃ s₁ s₂ fuel t', pushFrame code calleeBody t.interp = .ok () s₁ ∧ enterRun s₁ = .ok () s₂ ∧
    runToStop code F fuel ⟨s₂, t.interp.frames.length⟩ = .ok true t' ∧ r = t'.interp.vstack (t'.interp.vsp - 1)

def argsOf (calleeBody : Nat) (s : State ω) : List (BitVec 64) :=
  slice s.vstack (s.vsp - (bodyArity code calleeBody).1) (bodyArity code calleeBody).1

/-- The shadow run gets the arguments of the native code, and a mismatch is reported exactly if the interpreter has
another result on them. -/
def Meaningful (calleeBody : Nat) (native : List UInt8) (m : Machine) (t : Shadowed ω) : Prop :=
  ∃ fuel jitResult params t₁, runNative code (code.importCount + calleeBody) native m fuel t =
    .ok (some (jitResult, params)) t₁ ∧
    params = argsOf code calleeBody t.interp ∧
    ((∃ fuel t', callCompiled code F (code.importCount + calleeBody) native m fuel t = .ok (some true) t') ↔
      0 < (bodyArity code calleeBody).2 ∧ ∃ r, InterpResult code F calleeBody t r ∧ r ≠ jitResult)

end

def JitOp.assigned? : JitOp → Option Nat
  | .localSet idx | .localTee idx => some idx
  | _ => none

/-- What the operations store in a local by their last assignment to it, if there is one. -/
def lastStored (i : Nat) : List JitOp → Config → Option (BitVec 64)
  | [], _ => none
  | op :: ops, c => do
    let c' ← op.eval JitBin.eval64 c
    (lastStored i ops c').or (if op.assigned? = some i then some (c'.locals i) else none)

/-- No parameter is last assigned another value than its argument. -/
def KeepsParams (nParams : Nat) (ops : List JitOp) (args : Nat → BitVec 64) : Prop :=
  ∀ i < nParams, ∀ v ∈ lastStored i ops ⟨args, []⟩, v = args i

/-! ## The native code -/

theorem read_storeLocals (a : BitVec 64) (locals : Nat → BitVec 64) (mem : BitVec 64 → UInt8) {k : Nat} :
    ∀ {n : Nat}, n ≤ MAX_LOCALS →
    k < n → X86.read64 (storeLocals a locals mem n) (a + BitVec.ofNat 64 (8 * k)) = locals k
  | 0, _, hk => by omega
  | n + 1, hn, hk => by
    rw [storeLocals]
    by_cases h : k = n
    · subst h
      exact X86.read64_write64_self ..
    · rw [X86.read64_write64_apart (apart_locals (by omega) (by omega) (Ne.symm h))]
      exact read_storeLocals a locals mem (by omega) (by omega)

/-- An operation pushes no more operands than its code has bytes. -/
theorem arity_le_size (op : JitOp) : op.arity.2 ≤ op.arity.1 + op.size := by
  cases op with
  | bin b => cases b <;> decide
  | _ => simp [JitOp.arity, JitOp.size]

theorem stackFits_of_size {n rc : Nat} :
    ∀ {ops : List JitOp} {d : Nat}, StackOk rc d ops → d + (ops.map JitOp.size).sum ≤ n →
    StackFits n d ops
  | [], d, _, h => h
  | op :: ops, d, hok, h => by
    have := arity_le_size op
    have := hok.1
    rw [List.map_cons, List.sum_cons] at h
    exact ⟨by omega, stackFits_of_size hok.2 (by omega)⟩

theorem eval_locals {f : JitBin → BitVec 64 → BitVec 64 → BitVec 64} {op : JitOp} {c c' : Config} {i : Nat}
    (h : op.eval f c = some c') (hi : op.assigned? ≠ some i) : c'.locals i = c.locals i := by
  unfold JitOp.eval at h
  split at h <;> cases h <;> try rfl
  · exact upd_of_ne _ _ fun heq => hi (congrArg some heq.symm)
  · exact upd_of_ne _ _ fun heq => hi (congrArg some heq.symm)

theorem lastStored_eq {i : Nat} : ∀ {ops : List JitOp} {c c' : Config}, evalOps JitBin.eval64 ops c = some c' →
    c'.locals i = (lastStored i ops c).getD (c.locals i)
  | [], c, c', h => by
    cases h
    rfl
  | op :: ops, c, c', h => by
    obtain ⟨c₁, h₁, h⟩ := Option.bind_eq_some_iff.mp h
    have hlast : lastStored i (op :: ops) c =
        (lastStored i ops c₁).or (if op.assigned? = some i then some (c₁.locals i) else none) := by
      rw [lastStored, h₁]
      rfl
    rw [lastStored_eq h, hlast]
    cases lastStored i ops c₁ with
    | some v => rfl
    | none =>
      by_cases hset : op.assigned? = some i
      · simp [hset]
      · simp only [hset, if_false, Option.or_none, Option.getD_none]
        exact eval_locals h₁ hset

theorem run_unique {native : List UInt8} {m m₁ m₂ : Machine} {f g : Nat} (h₁ : X86.run f native m = some m₁)
    (h₂ : X86.run g native m = some m₂) :
    m₁ = m₂ := by
  have h := X86.run_mono (k := g) h₁
  rw [Nat.add_comm, X86.run_mono h₂] at h
  exact (Option.some.inj h).symm

theorem callNative_unique {native : List UInt8} {m : Machine} {args : Nat → BitVec 64} {f g : Nat}
    {x y : BitVec 64 × (Nat → BitVec 64)}
    (h₁ : callNative native m args f = some x) (h₂ : callNative native m args g = some y) : x = y := by
  obtain ⟨m₁, hm₁, rfl⟩ := Option.map_eq_some_iff.mp h₁
  obtain ⟨m₂, hm₂, rfl⟩ := Option.map_eq_some_iff.mp h₂
  rw [run_unique hm₁ hm₂]

/-- The native code returns with the locals of the stack machine in the buffer. -/
theorem callNative_run {body native : List UInt8} {ops : List JitOp} {lc rc : Nat} {m : Machine}
    {args : Nat → BitVec 64} {c : Config}
    (hjit : jitCompileBody body lc rc MAX_FN_BYTES = some native) (hops : jitOps body = some ops)
    (hok : StackOk rc 0 ops)
    (hsize : codeSize ops rc ≤ MAX_FN_BYTES) (hlocals : ∀ op ∈ ops, ∀ idx ∈ op.local?, idx < MAX_LOCALS)
    (hroom : RoomApart (7 + MAX_FN_BYTES) (m.regs .rsp) (m.regs .rdx))
    (hc : evalOps JitBin.eval64 ops ⟨args, []⟩ = some c) :
    ∃ f result after, (∀ k, callNative native m args (f + k) = some (result, after)) ∧
    ∀ k < MAX_LOCALS, after k = c.locals k := by
  have hfits : StackFits MAX_FN_BYTES 0 ops := by
    refine stackFits_of_size hok ?_
    unfold codeSize at hsize
    omega
  have hcalled : Called MAX_FN_BYTES args (withLocals m args) :=
    ⟨fun k hk => read_storeLocals _ _ _ (Nat.le_refl _) hk, hroom, by decide⟩
  rw [← length_code] at hsize
  obtain ⟨f, m', hrun, _, hvars, _⟩ := jit_called hjit hops hsize hcalled hc hfits hlocals
  refine ⟨f, m'.regs .rax, _, fun k => ?_, hvars⟩
  unfold callNative
  rw [X86.run_mono hrun]
  rfl

section
variable {ω : Type} {code : Code (HostFn ω)} {F : FloatOps} {bi base fuel : Nat} {native : List UInt8}
  {m : Machine} {t : Shadowed ω}

theorem bodyArity_eq (hbi : bi < code.bodies.length) :
    code.types.getD (allFuncTypes code (code.importCount + bi)) (0, 0) = bodyArity code bi := by
  have htype : allFuncTypes code (code.importCount + bi) = code.funcTypeIndices.getD bi 0 := by
    unfold allFuncTypes
    rw [if_pos ⟨Nat.le_add_right _ _, by omega⟩, Nat.add_sub_cancel_left]
  rw [htype]
  rfl

theorem pushParams_back {s : State ω} : ∀ {n base : Nat}, s.vsp = base + n → s.vsp ≤ STACK_DEPTH →
    pushParams (slice s.vstack base n) { s with vsp := base } = .ok () s
  | 0, base, h, _ => by
    obtain rfl : s.vsp = base := h
    rfl
  | n + 1, base, h, hv => by
    have hsame : upd s.vstack base (s.vstack base) = s.vstack := by
      funext i
      by_cases hi : i = base
      · subst hi
        exact upd_self ..
      · exact upd_of_ne _ _ hi
    have hpush : vPush (s.vstack base) { s with vsp := base } = .ok () { s with vsp := base + 1 } := by
      refine Hoare.eq_of_wp (wp_vPush.mpr ⟨fun hfull => ?_, fun _ => ?_⟩)
      · have : STACK_DEPTH ≤ base := hfull
        omega
      · simp only [hsame]
    have hslice : slice s.vstack base (n + 1) = s.vstack base :: slice s.vstack (base + 1) n := by
      rw [slice, List.range_succ_eq_map, List.map_cons, List.map_map, slice]
      congr 1
      refine List.map_congr_left fun k _ => ?_
      show s.vstack (base + (k + 1)) = _
      congr 1
      omega
    rw [hslice, pushParams, Hoare.bind_ok hpush]
    exact pushParams_back (by omega) hv

variable (hbi : bi < code.bodies.length) (hv : t.interp.vsp ≤ STACK_DEPTH)
  (hvsp : t.interp.vsp = base + (bodyArity code bi).1)
include hbi hv hvsp

theorem runNative_eq (hmax : (bodyArity code bi).1 ≤ MAX_LOCALS) :
    runNative code (code.importCount + bi) native m fuel t =
    .ok ((callNative native m (calleeFrame code bi base t.interp).locals fuel).map fun (result, locals) =>
      (result, slice locals 0 (bodyArity code bi).1)) { t with interp := { t.interp with vsp := base } } := by
  unfold runNative
  rw [bodyArity_eq hbi]
  have hpop : popParams (bodyArity code bi).1 (fun _ => 0) t.interp =
      .ok (calleeFrame code bi base t.interp).locals { t.interp with vsp := base } := by
    refine Hoare.eq_of_wp (wp_mono ?_ ?_ (popParams_wp _ t.interp _ hv hmax))
    · rintro locals s' ⟨m, hm, rfl, rfl⟩
      obtain rfl : m = base := by omega
      rfl
    · rintro e s' ⟨_, hlt, _⟩
      omega
  have hroom : ¬ t.interp.vsp < (bodyArity code bi).1 := by omega
  simp only
  rw [Hoare.get_bind, if_neg hroom, Hoare.bind_ok (onInterp_ok hpop)]
  rfl

omit hbi in
theorem runShadow_args (nResults : Nat) :
    runShadow code F bi (slice t.interp.vstack base (bodyArity code bi).1) nResults fuel
      { t with interp := { t.interp with vsp := base } } =
    (do match ← attempt (onInterp (pushFrame code bi)) with
        | .error _ =>
          restoreStop { t with interp := { t.interp with vsp := base } }
          restoreVsp { t with interp := { t.interp with vsp := base } }
          pure (some none)
        | .ok _ => runShadow.finish code F { t with interp := { t.interp with vsp := base } } nResults fuel :
          ShadowM ω _)
      ⟨t.interp, t.interp.frames.length⟩ := by
  have hpush : onInterp (pushParams (slice t.interp.vstack base (bodyArity code bi).1))
      ⟨{ t.interp with vsp := base }, t.interp.frames.length⟩ = .ok () ⟨t.interp, t.interp.frames.length⟩ :=
    onInterp_ok (pushParams_back hvsp hv)
  exact Hoare.bind_ok (attempt_ok hpush)

section
variable {body : List UInt8} {ops : List JitOp} {r : BitVec 64} (hidx : bi < MAX_FUNCS)
  (hbody : code.bodies[bi]? = some body) (hfit : Fits body)
  (hops : jitOps body = some ops) (hok : StackOk (bodyArity code bi).2 0 ops)
include hidx hbody hfit hops hok

omit hbi in
/-- The run of the callee fails, or returns with its results on top of what was under the arguments. -/
theorem callee_run {s₁ s₂ : State ω} (hf : pushFrame code bi t.interp = .ok () s₁) (hs : enterRun s₁ = .ok () s₂)
    (hend : ∀ t', runToStop code F fuel ⟨s₂, t.interp.frames.length⟩ ≠ .ok false t') :
    (∃ e t', runToStop code F fuel ⟨s₂, t.interp.frames.length⟩ = .error (.err e) t') ∨
      ∃ t', runToStop code F fuel ⟨s₂, t.interp.frames.length⟩ = .ok true t' ∧ t'.interp.vsp ≤ STACK_DEPTH ∧
        t'.interp.vsp = base + (bodyArity code bi).2 := by
  obtain ⟨base', hbase, _, hlocals, rfl⟩ := Hoare.wp_ok (pushFrame_wp code hidx hv) hf
  obtain rfl : base = base' := by omega
  cases hs
  obtain ⟨n, hn⟩ :=
    callee_ends (F := F) (s := t.interp) hidx (show base ≤ STACK_DEPTH by omega) hbody hfit hops hok hlocals
  have hsame := runToStop_agree (k := n) hend fun t' hfalse => by
    obtain ⟨h, _⟩ := Hoare.wp_ok hn hfalse
    cases h
  rw [hsame]
  cases hrun : runToStop code F n _ with
  | error e t' =>
    obtain ⟨err, rfl⟩ := Hoare.wp_error hn hrun
    exact .inl ⟨err, t', rfl⟩
  | ok done t' =>
    obtain ⟨rfl, hle, hvsp'⟩ := Hoare.wp_ok hn hrun
    exact .inr ⟨t', rfl, hle, hvsp'⟩

omit hbi in
theorem shadow_of_interp (hone : (bodyArity code bi).2 = 1) (h : InterpResult code F bi t r) :
    ∃ n, ∀ k, ∃ t', t'.interp.vsp < STACK_DEPTH ∧
    runShadow code F bi (slice t.interp.vstack base (bodyArity code bi).1) 1 (n + k)
    { t with interp := { t.interp with vsp := base } } =
      .ok (some (some r)) t' := by
  obtain ⟨s₁, s₂, n, t₂, hf, hs, hrun, rfl⟩ := h
  refine ⟨n, fun k => ?_⟩
  have hrun : runToStop code F (n + k) ⟨s₂, t.interp.frames.length⟩ = .ok true t₂ := by
    rw [runToStop_mono (fun t' h => by rw [hrun] at h; cases h), hrun]
  obtain ⟨e, t', herr⟩ | ⟨t', hrun', hle, hvsp'⟩ :=
    callee_run hv hvsp hidx hbody hfit hops hok hf hs (fun t' h => by rw [hrun] at h; cases h)
  · rw [hrun] at herr
    cases herr
  rw [hrun] at hrun'
  cases hrun'
  rw [hone] at hvsp'
  obtain ⟨res, hres, hfin⟩ := finish_of_ok { t with interp := { t.interp with vsp := base } } 1
    (t := ⟨s₁, t.interp.frames.length⟩) s₂ hs hrun hle hvsp' (Nat.le_refl _)
  rw [hres rfl] at hfin
  have henter : attempt (onInterp (pushFrame code bi)) ⟨t.interp, t.interp.frames.length⟩ =
      .ok (.ok ()) ⟨s₁, t.interp.frames.length⟩ :=
    attempt_ok (onInterp_ok hf)
  exact ⟨_, show base < STACK_DEPTH by omega, (runShadow_args hv hvsp 1).trans ((Hoare.bind_ok henter).trans hfin)⟩

omit hbi in
theorem interp_of_shadow {t' : Shadowed ω} (hone : (bodyArity code bi).2 = 1)
    (h : runShadow code F bi (slice t.interp.vstack base (bodyArity code bi).1) 1 fuel
      { t with interp := { t.interp with vsp := base } } =
      .ok (some (some r)) t') : InterpResult code F bi t r := by
  rw [runShadow_args hv hvsp] at h
  cases hf : pushFrame code bi t.interp with
  | error e s₁ =>
    obtain ⟨err, rfl⟩ := pushFrame_err hidx hv hf
    have herr : attempt (onInterp (pushFrame code bi)) ⟨t.interp, t.interp.frames.length⟩ =
        .ok (.error err) ⟨s₁, t.interp.frames.length⟩ :=
      attempt_error (onInterp_error hf)
    rw [Hoare.bind_ok herr] at h
    cases h
  | ok _ s₁ =>
    obtain ⟨s₂, hs⟩ : ∃ s₂, enterRun s₁ = .ok () s₂ := ⟨_, rfl⟩
    have henter : attempt (onInterp (pushFrame code bi)) ⟨t.interp, t.interp.frames.length⟩ =
        .ok (.ok ()) ⟨s₁, t.interp.frames.length⟩ :=
      attempt_ok (onInterp_ok hf)
    rw [Hoare.bind_ok henter] at h
    have hend := finish_ended (t := ⟨s₁, t.interp.frames.length⟩) s₂ hs h
    obtain ⟨e, t₂, hrun⟩ | ⟨t₂, hrun, hle, hvsp'⟩ := callee_run hv hvsp hidx hbody hfit hops hok hf hs hend
    · obtain ⟨t₃, hfin, _⟩ := finish_of_error { t with interp := { t.interp with vsp := base } } 1
        (t := ⟨s₁, t.interp.frames.length⟩) s₂ hs hrun
      cases hfin.symm.trans h
    · rw [hone] at hvsp'
      obtain ⟨res, hres, hfin⟩ := finish_of_ok { t with interp := { t.interp with vsp := base } } 1
        (t := ⟨s₁, t.interp.frames.length⟩) s₂ hs hrun hle hvsp' (Nat.le_refl _)
      cases hfin.symm.trans h
      exact ⟨s₁, s₂, fuel, t₂, hf, hs, hrun, Option.some.inj (hres rfl)⟩

/-- A mismatch is reported exactly if the interpreter has another result, provided the shadow run gets the
arguments. -/
theorem reports_iff {jitResult : BitVec 64} {after : Nat → BitVec 64} {f : Nat}
    (hmax : (bodyArity code bi).1 ≤ MAX_LOCALS) (hone : (bodyArity code bi).2 ≤ 1)
    (hruns : ∀ k, callNative native m (calleeFrame code bi base t.interp).locals (f + k) = some (jitResult, after))
    (hparams : slice after 0 (bodyArity code bi).1 = slice t.interp.vstack base (bodyArity code bi).1) :
    (∃ fuel t', callCompiled code F (code.importCount + bi) native m fuel t = .ok (some true) t') ↔
      0 < (bodyArity code bi).2 ∧ ∃ r, InterpResult code F bi t r ∧ r ≠ jitResult := by
  constructor
  · rintro ⟨fuel, t', h⟩
    rw [callCompiled, Hoare.bind_ok (runNative_eq hbi hv hvsp hmax)] at h
    cases hcall : callNative native m (calleeFrame code bi base t.interp).locals fuel with
    | none =>
      rw [hcall] at h
      cases h
    | some x =>
      obtain rfl := callNative_unique hcall (hruns 0)
      simp only [hcall, Option.map_some, hparams, compareShadow, bodyArity_eq hbi, Nat.add_sub_cancel_left] at h
      cases hshadow : runShadow code F bi (slice t.interp.vstack base (bodyArity code bi).1)
        (bodyArity code bi).2 fuel
          { t with interp := { t.interp with vsp := base } } with
      | error e t₂ =>
        rw [Hoare.bind_error hshadow] at h
        cases h
      | ok res t₂ =>
        rw [Hoare.bind_ok hshadow] at h
        cases res with
        | none => cases h
        | some shadowResult =>
          by_cases hpos : 0 < (bodyArity code bi).2
          · simp only [if_pos hpos] at h
            have hone : (bodyArity code bi).2 = 1 := by omega
            cases hpush : onInterp (vPush jitResult) t₂ with
            | error e t₃ =>
              rw [Hoare.bind_error hpush] at h
              cases h
            | ok _ t₃ =>
              rw [Hoare.bind_ok hpush] at h
              cases shadowResult with
              | none => cases h
              | some r =>
                injection h with hdiffers _
                rw [hone] at hshadow
                refine ⟨hpos, r, interp_of_shadow hv hvsp hidx hbody hfit hops hok hone hshadow, ?_⟩
                exact bne_iff_ne.mp (Option.some.inj hdiffers)
          · simp only [if_neg hpos] at h
            cases h
  · rintro ⟨hpos, r, hr, hne⟩
    have hone : (bodyArity code bi).2 = 1 := by omega
    obtain ⟨n, hshadow⟩ := shadow_of_interp hv hvsp hidx hbody hfit hops hok hone hr
    obtain ⟨t', hroom, hshadow⟩ := hshadow f
    obtain ⟨t₃, hpush⟩ : ∃ t₃, onInterp (vPush jitResult) t' = .ok () t₃ :=
      ⟨_, onInterp_ok (Hoare.eq_of_wp (wp_vPush.mpr ⟨fun hfull => absurd hroom (Nat.not_lt.mpr hfull),
        fun _ => rfl⟩))⟩
    have hdiffers : (r != jitResult) = true := bne_iff_ne.mpr hne
    have hcompare : compareShadow code F (code.importCount + bi) jitResult
        (slice t.interp.vstack base (bodyArity code bi).1) (f + n)
        { t with interp := { t.interp with vsp := base } } = .ok (some true) t₃ := by
      simp only [compareShadow, bodyArity_eq hbi, Nat.add_sub_cancel_left, hone]
      rw [Nat.add_comm f n, Hoare.bind_ok hshadow]
      simp only [Nat.lt_one_iff, if_true, Option.any_some, hdiffers]
      exact Hoare.bind_ok hpush
    refine ⟨f + n, t₃, ?_⟩
    rw [callCompiled, Hoare.bind_ok (runNative_eq hbi hv hvsp hmax), hruns n]
    simp only [Option.map_some, hparams]
    exact hcompare

end

end

section
variable {ω : Type} {code : Code (HostFn ω)} {bi : Nat} {native body : List UInt8} {ops : List JitOp}
  {m : Machine} {s : State ω}

/-- The native code returns, and leaves the arguments in the locals buffer exactly if it keeps the parameters. -/
theorem native_keeps (hjit : jitCompileBody body (localsOf code bi) (resultsOf code bi) MAX_FN_BYTES =
      some native) (hops : jitOps body = some ops)
    (hok : StackOk (resultsOf code bi) 0 ops) (hlocals : ∀ op ∈ ops, ∀ idx ∈ op.local?, idx < MAX_LOCALS)
    (hsize : codeSize ops (resultsOf code bi) ≤ MAX_FN_BYTES)
    (hroom : RoomApart (7 + MAX_FN_BYTES) (m.regs .rsp) (m.regs .rdx))
    (hmax : (bodyArity code bi).1 ≤ MAX_LOCALS) (base : Nat) : ∃ f jitResult after,
      (∀ k, callNative native m (calleeFrame code bi base s).locals (f + k) = some (jitResult, after)) ∧
      (slice after 0 (bodyArity code bi).1 = slice s.vstack base (bodyArity code bi).1 ↔
        KeepsParams (bodyArity code bi).1 ops (calleeFrame code bi base s).locals) := by
  obtain ⟨c, hc, _⟩ := evalOps_some JitBin.eval64 (c := ⟨(calleeFrame code bi base s).locals, []⟩) hok
  obtain ⟨f, jitResult, after, hruns, hafter⟩ := callNative_run (m := m) hjit hops hok hsize hlocals hroom hc
  refine ⟨f, jitResult, after, hruns, ?_⟩
  unfold slice
  rw [List.map_inj_left]
  simp only [List.mem_range, Nat.zero_add]
  refine forall₂_congr fun i hi => ?_
  have harg : (calleeFrame code bi base s).locals i = s.vstack (base + i) := if_pos hi
  rw [hafter i (by omega), lastStored_eq hc, harg]
  cases lastStored i ops ⟨(calleeFrame code bi base s).locals, []⟩ with
  | none => simpa using harg
  | some v => simp

theorem Meaningful.params {F : FloatOps} {t : Shadowed ω} {base f : Nat} {jitResult : BitVec 64}
    {after : Nat → BitVec 64}
    (h : Meaningful code F bi native m t) (hbi : bi < code.bodies.length) (hv : t.interp.vsp ≤ STACK_DEPTH)
    (hvsp : t.interp.vsp = base + (bodyArity code bi).1) (hmax : (bodyArity code bi).1 ≤ MAX_LOCALS)
    (hruns : ∀ k, callNative native m (calleeFrame code bi base t.interp).locals (f + k) =
      some (jitResult, after)) :
    slice after 0 (bodyArity code bi).1 = slice t.interp.vstack base (bodyArity code bi).1 := by
  obtain ⟨fuel, result, params, t₁, hrun, hparams, _⟩ := h
  rw [runNative_eq hbi hv hvsp hmax] at hrun
  cases hcall : callNative native m (calleeFrame code bi base t.interp).locals fuel with
  | none =>
    rw [hcall] at hrun
    cases hrun
  | some x =>
    obtain rfl := callNative_unique hcall (hruns 0)
    rw [hcall] at hrun
    cases hrun
    rw [hparams, argsOf, hvsp, Nat.add_sub_cancel]

/-- The shadow run of a compiled body whose code is whole and keeps to its operands and to the locals buffer
is meaningful exactly if no parameter is last assigned another value than its argument. -/
theorem shadow_meaningful_iff (code : Code (HostFn ω)) (F : FloatOps) (bi : Nat) (native body : List UInt8)
    (ops : List JitOp) (m : Machine)
    (t : Shadowed ω) (hidx : bi < MAX_FUNCS) (hbody : code.bodies[bi]? = some body) (hfit : Fits body)
    (hjit : jitCompileBody body (localsOf code bi) (resultsOf code bi) MAX_FN_BYTES = some native)
    (hops : jitOps body = some ops)
    (hok : StackOk (resultsOf code bi) 0 ops) (hlocals : ∀ op ∈ ops, ∀ idx ∈ op.local?, idx < MAX_LOCALS)
    (hsize : codeSize ops (resultsOf code bi) ≤ MAX_FN_BYTES)
    (hroom : RoomApart (7 + MAX_FN_BYTES) (m.regs .rsp) (m.regs .rdx))
    (hv : t.interp.vsp ≤ STACK_DEPTH) (hargs : (bodyArity code bi).1 ≤ t.interp.vsp)
    (hmax : (bodyArity code bi).1 ≤ MAX_LOCALS) :
    Meaningful code F bi native m t ↔
      KeepsParams (bodyArity code bi).1 ops
      (calleeFrame code bi (t.interp.vsp - (bodyArity code bi).1) t.interp).locals := by
  obtain ⟨base, hbase⟩ : ∃ base, t.interp.vsp - (bodyArity code bi).1 = base := ⟨_, rfl⟩
  have hvsp : t.interp.vsp = base + (bodyArity code bi).1 := by omega
  have hbi : bi < code.bodies.length := (List.getElem?_eq_some_iff.mp hbody).1
  have hone : (bodyArity code bi).2 ≤ 1 := by
    rw [jitCompileBody_eq] at hjit
    split at hjit
    · cases hjit
    · rename_i h
      exact Nat.le_of_not_lt h
  obtain ⟨f, jitResult, after, hruns, hkeeps⟩ :=
    native_keeps (s := t.interp) hjit hops hok hlocals hsize hroom hmax base
  rw [hbase, ← hkeeps]
  constructor
  · intro h
    exact h.params hbi hv hvsp hmax hruns
  · intro hparams
    have hrun : runNative code (code.importCount + bi) native m f t =
        .ok (some (jitResult, slice after 0 (bodyArity code bi).1))
        { t with interp := { t.interp with vsp := base } } := by
      rw [runNative_eq hbi hv hvsp hmax, ← Nat.add_zero f, hruns 0]
      rfl
    refine ⟨f, jitResult, _, _, hrun, ?_, reports_iff hbi hv hvsp hidx hbody hfit hops hok hmax hone hruns hparams⟩
    rw [hparams, argsOf, hbase]

end

/-- Two functions: the first calls the second, which takes and returns an `i32` and has this body. -/
def callsBody (body : List UInt8) : List UInt8 :=
  [0x00, 0x61, 0x73, 0x6D, 1, 0, 0, 0] ++ [0x01, 9, 2, 0x60, 0, 0, 0x60, 1, 0x7F, 1, 0x7F] ++ [0x03, 3, 2, 0, 1] ++
    [0x0A, UInt8.ofNat (body.length + 10), 2, 6, 0, 0x41, 5, 0x10, 1, 0x0B,
      UInt8.ofNat (body.length + 1), 0] ++ body

/-- `local.get 0`, `i32.const 1`, `i32.add` -/
theorem shadow_meaningful_add : ∃ (inst : Instance (HostFn Unit)) (native : List UInt8),
    instantiate (fun _ _ => none) (callsBody [0x20, 0, 0x41, 1, 0x6A, 0x0B]) = .ok inst ∧
    jitCompileBody [0x20, 0, 0x41, 1, 0x6A, 0x0B] 1 1 MAX_FN_BYTES = some native ∧
    Meaningful inst.code default 1 native blankMachine (atCall inst 1) := by
  obtain ⟨inst, hinst, hbody, hres, hloc, harity⟩ : ∃ inst : Instance (HostFn Unit),
      instantiate (fun _ _ => none) (callsBody [0x20, 0, 0x41, 1, 0x6A, 0x0B]) = .ok inst ∧
      inst.code.bodies[1]? = some [0x20, 0, 0x41, 1, 0x6A, 0x0B] ∧ resultsOf inst.code 1 = 1 ∧
      localsOf inst.code 1 = 1 ∧
      (bodyArity inst.code 1).1 = 1 := ⟨_, rfl, rfl, rfl, rfl, rfl⟩
  obtain ⟨native, hnative⟩ : ∃ native, jitCompileBody [0x20, 0, 0x41, 1, 0x6A, 0x0B] 1 1 MAX_FN_BYTES =
      some native :=
    Option.isSome_iff_exists.mp (by decide)
  refine ⟨inst, native, hinst, hnative, ?_⟩
  refine (shadow_meaningful_iff inst.code default 1 native _ [.localGet 0, .const 1, .bin .add] blankMachine
    (atCall inst 1)
    (by decide) hbody (show _ < _ by decide) (by rw [hres, hloc]; exact hnative)
    rfl (by rw [hres]; simp [StackOk, JitOp.arity])
    (by simp [JitOp.local?, MAX_LOCALS]) (by rw [hres]; decide)
    (roomApart_of_below (by decide) (by decide) (by decide))
    (show 1 ≤ STACK_DEPTH by decide) (by rw [harity]; exact Nat.le_refl _) (by rw [harity]; decide)).mpr ?_
  rw [harity]
  intro i hi v hv
  cases hv

/-- After `local.get 0`, `i32.const 1`, `i32.add`, `local.tee 0` the shadow run gets the result as its argument. -/
theorem shadow_tee_not_meaningful : ∃ (inst : Instance (HostFn Unit)) (native : List UInt8),
    instantiate (fun _ _ => none) (callsBody [0x20, 0, 0x41, 1, 0x6A, 0x22, 0, 0x0B]) = .ok inst ∧
    jitCompileBody [0x20, 0, 0x41, 1, 0x6A, 0x22, 0, 0x0B] 1 1 MAX_FN_BYTES = some native ∧
    ¬ Meaningful inst.code default 1 native blankMachine (atCall inst 1) := by
  obtain ⟨inst, hinst, hbody, hres, hloc, harity⟩ : ∃ inst : Instance (HostFn Unit),
      instantiate (fun _ _ => none) (callsBody [0x20, 0, 0x41, 1, 0x6A, 0x22, 0, 0x0B]) = .ok inst ∧
      inst.code.bodies[1]? = some [0x20, 0, 0x41, 1, 0x6A, 0x22, 0, 0x0B] ∧ resultsOf inst.code 1 = 1 ∧
      localsOf inst.code 1 = 1 ∧
      (bodyArity inst.code 1).1 = 1 := ⟨_, rfl, rfl, rfl, rfl, rfl⟩
  obtain ⟨native, hnative⟩ :
      ∃ native, jitCompileBody [0x20, 0, 0x41, 1, 0x6A, 0x22, 0, 0x0B] 1 1 MAX_FN_BYTES = some native :=
    Option.isSome_iff_exists.mp (by decide)
  refine ⟨inst, native, hinst, hnative, fun h => ?_⟩
  have hmax : (bodyArity inst.code 1).1 ≤ MAX_LOCALS := by
    rw [harity]
    decide
  have hjit : jitCompileBody [0x20, 0, 0x41, 1, 0x6A, 0x22, 0, 0x0B] (localsOf inst.code 1)
      (resultsOf inst.code 1) MAX_FN_BYTES = some native := by
    rw [hres, hloc]
    exact hnative
  have hops : jitOps [0x20, 0, 0x41, 1, 0x6A, 0x22, 0, 0x0B] =
      some [.localGet 0, .const 1, .bin .add, .localTee 0] := rfl
  obtain ⟨f, jitResult, after, hruns, hkeeps⟩ :=
    native_keeps (m := blankMachine) (s := (atCall inst 1).interp) hjit hops
    (by rw [hres]; simp [StackOk, JitOp.arity]) (by simp [JitOp.local?, MAX_LOCALS]) (by rw [hres]; decide)
    (roomApart_of_below (by decide) (by decide) (by decide)) hmax 0
  have hkeep :=
    hkeeps.mp (h.params (List.getElem?_eq_some_iff.mp hbody).1 (show 1 ≤ STACK_DEPTH by decide)
      (by rw [harity]; rfl) hmax hruns)
  have hstored : ∀ ls : Nat → BitVec 64, lastStored 0 [.localGet 0, .const 1, .bin .add, .localTee 0]
      ⟨ls, []⟩ = some (ls 0 + 1) :=
    fun _ => rfl
  have hsame := hkeep 0 (by rw [harity]; exact Nat.one_pos) _ (hstored _)
  have hone : (1 : BitVec 64) = 0 := (BitVec.add_right_inj _).mp (hsame.trans (BitVec.add_zero _).symm)
  cases hone

end WasmOs
