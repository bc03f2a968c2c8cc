import WasmOs.InstanceSpec
import WasmOs.InterpSpec
import WasmOs.JumpSound
import WasmOs.Spawned

/-!
# When a lookup ends

The pre-scan records blocks in the order of the bodies and of their positions. The table keeps the first
`JUMP_SLOTS` of them and drops the rest. A lookup ends on a free slot or on its own block, so in a table
that is full it ends for the blocks that are kept and for no others.
-/

namespace WasmOs

open Hoare

/-! ## The recorded blocks -/

def blockStarts.loop (body : List UInt8) : Nat → Nat → List Nat
  | 0, _ => []
  | fuel + 1, i =>
    match preScanStep body i with
    | none => []
    | some (none, i) => blockStarts.loop body fuel i
    | some (some scanStart, i) =>
      match scanBlockEnd body scanStart with
      | none => blockStarts.loop body fuel i
      | some _ => scanStart :: blockStarts.loop body fuel i

/-- The scan starts of the blocks of a body for which the pre-scan finds an end. -/
def blockStarts (body : List UInt8) : List Nat := blockStarts.loop body body.length 0

def recorded (bodies : List (List UInt8)) : List (Nat × Nat) :=
  bodies.zipIdx.flatMap fun p => (blockStarts p.1).map fun scanStart => (p.2, scanStart)

/-- The table keeps the first `JUMP_SLOTS` of the blocks `ks`. -/
structure Kept (ks : List (Nat × Nat)) (t : Nat → JumpSlot) : Prop where
  occupied : occupied t = min ks.length JUMP_SLOTS
  keys : ∀ k, (∃ i < JUMP_SLOTS, (t i).empty = false ∧ (t i).key = k) ↔ k ∈ ks.take JUMP_SLOTS

theorem take_concat {α : Type} {ks : List α} {k : α} {N : Nat} (h : ks.length < N) :
    (ks ++ [k]).take N = ks.take N ++ [k] := by
  rw [List.take_of_length_le (by simp; omega), List.take_of_length_le (by omega)]

theorem kept_blank : Kept [] fun _ => EMPTY_JUMP_SLOT where
  occupied := by
    rw [WasmOs.occupied, List.countP_eq_zero.mpr fun _ _ => by decide]
    rfl
  keys k := by simp [JumpSlot.empty, EMPTY_JUMP_SLOT]

theorem occupied_of_full {t : Nat → JumpSlot} (h : ∀ i < JUMP_SLOTS, (t i).empty = false) :
    occupied t = JUMP_SLOTS := by
  have hall := List.countP_eq_length (p := fun i => !(t i).empty) (l := List.range JUMP_SLOTS)
  rw [List.length_range] at hall
  exact hall.mpr fun i hi => by rw [h i (List.mem_range.mp hi)]; rfl

theorem occupied_upd {t : Nat → JumpSlot} {i : Nat} {u : JumpSlot} (hi : i < JUMP_SLOTS)
    (h : (t i).empty = true) (hu : u.empty = false) :
    occupied (upd t i u) = occupied t + 1 := by
  have hout : (!(t i).empty) = false := by rw [h]; rfl
  have hin : (!u.empty) = true := by rw [hu]; rfl
  have hcount := countP_upd (fun w : JumpSlot => !w.empty) hi hout hin
  rw [occupied, occupied, ← hcount]

section
variable {b s e l len : Nat} (hb : b < u16Max) (hlen : len < 2 ^ 32) (hs : s ≤ len) (he : e < len)
  (hl : l = NO_ELSE ∨ l < len)
include hb hlen hs he hl

theorem kept_insert {ks : List (Nat × Nat)} {t : Nat → JumpSlot} (h : Kept ks t) :
    Kept (ks ++ [(b, s)]) (jumpInsert t b s e l) := by
  rw [jumpInsert_eq hb hlen hs he hl]
  cases hp : probe JUMP_SLOTS (fun i => (t i).empty) JUMP_SLOTS (jumpHash b s) with
  | none =>
    -- a full table drops the block
    have hfull : JUMP_SLOTS ≤ ks.length := by
      have := occupied_of_full ((probe_eq_none_iff (jumpHash_lt b s)).mp hp)
      rw [h.occupied] at this
      omega
    refine ⟨?_, fun k => ?_⟩
    · rw [h.occupied, List.length_append]
      omega
    · rw [List.take_append_of_le_length hfull]
      exact h.keys k
  | some i =>
    show Kept _ (upd t i (slotOf b s e l))
    obtain ⟨d, _, hid, hemp, _⟩ := probe_some (jumpHash_lt b s) hp
    have hi : i < JUMP_SLOTS := hid ▸ Nat.mod_lt _ (by decide)
    have hroom : ks.length < JUMP_SLOTS := by
      have := occupied_lt_iff.mpr ⟨i, hi, hemp⟩
      rw [h.occupied] at this
      omega
    have hnew : (slotOf b s e l).empty = false := slotOf_empty hb
    refine ⟨?_, fun k => ?_⟩
    · rw [occupied_upd hi hemp hnew, h.occupied, List.length_append, List.length_singleton,
        Nat.min_eq_left (Nat.le_of_lt hroom), Nat.min_eq_left hroom]
    · rw [take_concat hroom, List.mem_append, List.mem_singleton, ← h.keys k]
      constructor
      · rintro ⟨j, hj, hne, hk⟩
        by_cases hji : j = i
        · rw [hji, upd_self] at hk
          exact .inr hk.symm
        · rw [upd_of_ne _ _ hji] at hne hk
          exact .inl ⟨j, hj, hne, hk⟩
      · rintro (⟨j, hj, hne, hk⟩ | rfl)
        · have hji : j ≠ i := by
            intro hji
            rw [hji, hemp] at hne
            cases hne
          exact ⟨j, hj, by rw [upd_of_ne _ _ hji]; exact hne, by rw [upd_of_ne _ _ hji]; exact hk⟩
        · exact ⟨i, hi, by rw [upd_self]; exact hnew, by rw [upd_self]; rfl⟩

end

/-- The pre-scan of a body keeps or drops its blocks in order. -/
theorem kept_loop {body : List UInt8} {b : Nat} (hb : b < u16Max) (hlen : body.length < 2 ^ 32) :
    ∀ (fuel i : Nat) (ks : List (Nat × Nat)) (t : Nat → JumpSlot), Kept ks t →
      Kept (ks ++ (blockStarts.loop body fuel i).map fun scanStart => (b, scanStart))
      (preScanBodyJumps.loop body b fuel i t)
  | 0, _, ks, t, h => by simpa [blockStarts.loop, preScanBodyJumps.loop] using h
  | fuel + 1, i, ks, t, h => by
    simp only [blockStarts.loop, preScanBodyJumps.loop]
    cases hstep : preScanStep body i with
    | none => simpa using h
    | some r =>
      obtain ⟨o, i'⟩ := r
      cases o with
      | none => exact kept_loop hb hlen fuel _ ks t h
      | some s =>
        have hs := ((preScanStep_lt hstep).2.2 s rfl).2
        cases hscan : scanBlockEnd body s with
        | none => simpa [hscan] using kept_loop hb hlen fuel _ ks t h
        | some p =>
          obtain ⟨e, l⟩ := p
          obtain ⟨he, hl⟩ := scanBlockEnd_bounds hscan
          have := kept_loop hb hlen fuel i' _ _ (kept_insert hb hlen hs he hl h)
          simpa [hscan] using this

theorem kept_build : ∀ (bodies : List (List UInt8)) (k : Nat) (ks : List (Nat × Nat)) (t : Nat → JumpSlot),
    k + bodies.length ≤ u16Max → (∀ body ∈ bodies, body.length < 2 ^ 32) → Kept ks t →
    Kept (ks ++ (bodies.zipIdx k).flatMap fun p => (blockStarts p.1).map fun scanStart => (p.2, scanStart))
      ((bodies.zipIdx k).foldl (fun t p => preScanBodyJumps p.1 p.2 t) t)
  | [], _, ks, t, _, _, h => by simpa using h
  | body :: bodies, k, ks, t, hn, hlen, h => by
    rw [List.length_cons] at hn
    have hk : k < u16Max := by omega
    have hbody := kept_loop hk (hlen body List.mem_cons_self) body.length 0 ks t h
    have hrest := kept_build bodies (k + 1) _ _ (by omega) (fun b hb => hlen b (List.mem_cons_of_mem _ hb)) hbody
    rw [List.append_assoc] at hrest
    exact hrest

theorem buildJumpTable_kept {bodies : List (List UInt8)} (hn : bodies.length ≤ MAX_FUNCS)
    (hlen : ∀ body ∈ bodies, body.length < 2 ^ 32) :
    Kept (recorded bodies) (buildJumpTable bodies) := by
  have hmax : 0 + bodies.length ≤ u16Max := by
    unfold MAX_FUNCS at hn
    unfold u16Max
    omega
  exact kept_build bodies 0 [] (fun _ => EMPTY_JUMP_SLOT) hmax hlen kept_blank

/-! ## Lookups -/

theorem jumpLookup_ends {t : Nat → JumpSlot} {b s : Nat} :
    jumpLookup t b s = .error .hang ↔ ∀ i < JUMP_SLOTS, (t i).empty = false ∧ (t i).key ≠ (b, s) := by
  have hnone : probe JUMP_SLOTS (fun i => (t i).empty || ((t i).keyBody == b && (t i).keyPc == s)) JUMP_SLOTS
      (jumpHash b s) = none ↔
      _ := probe_eq_none_iff (jumpHash_lt b s)
  have hstop : (∀ i < JUMP_SLOTS, ((t i).empty || ((t i).keyBody == b && (t i).keyPc == s)) = false) ↔
      ∀ i < JUMP_SLOTS, (t i).empty = false ∧ (t i).key ≠ (b, s) := by
    simp [JumpSlot.key]
  rw [← hstop, ← hnone, jumpLookup]
  cases hp : probe JUMP_SLOTS (fun i => (t i).empty || ((t i).keyBody == b && (t i).keyPc == s)) JUMP_SLOTS
    (jumpHash b s) with
  | none => simp
  | some i =>
    simp only [reduceCtorEq, iff_false]
    split <;> simp

theorem jumpLookup_cases (t : Nat → JumpSlot) (b s : Nat) :
    jumpLookup t b s = .error .hang ∨ ∃ r, jumpLookup t b s = .ok r := by
  unfold jumpLookup
  split
  · exact .inl rfl
  · simp only
    split <;> exact .inr ⟨_, rfl⟩

/-- The table has room left or keeps the block. -/
def Findable (bodies : List (List UInt8)) (b s : Nat) : Prop :=
  (recorded bodies).length < JUMP_SLOTS ∨ (b, s) ∈ (recorded bodies).take JUMP_SLOTS

theorem jumpLookup_hangs_iff {ks : List (Nat × Nat)} {t : Nat → JumpSlot} (h : Kept ks t) {b s : Nat} :
    jumpLookup t b s = .error .hang ↔ ¬ (ks.length < JUMP_SLOTS ∨ (b, s) ∈ ks.take JUMP_SLOTS) := by
  rw [jumpLookup_ends, ← h.keys]
  constructor
  · rintro hall (hlt | ⟨i, hi, _, hkey⟩)
    · have := occupied_of_full fun i hi => (hall i hi).1
      rw [h.occupied] at this
      omega
    · exact (hall i hi).2 hkey
  · intro hno i hi
    obtain ⟨hfull, hkey⟩ := not_or.mp hno
    have hne : (t i).empty = false := by
      cases hemp : (t i).empty with
      | false => rfl
      | true =>
        have := occupied_lt_iff.mpr ⟨i, hi, hemp⟩
        rw [h.occupied] at this
        omega
    exact ⟨hne, fun hk => hkey ⟨i, hi, hne, hk⟩⟩

/-! ## Rounds -/

section
variable {ω α : Type} {code : Code (HostFn ω)} {F : FloatOps} {s : State ω} {b pcBody : Nat}

/-- The next round enters a block whose instructions start at position `pcBody` of body `b`. -/
def LooksUp (code : Code (HostFn ω)) (s : State ω) (b pcBody : Nat) : Prop :=
  s.yieldRequested = false ∧ ∃ fr rest body op, s.frames = fr :: rest ∧ code.bodies[fr.bodyIdx]? = some body ∧
    body[fr.pc]? = some op ∧ (op = 0x02 ∨ op = 0x03 ∨ op = 0x04) ∧ b = fr.bodyIdx ∧ pcBody = fr.pc + 2

abbrev NoHang (m : Interp ω α) : Prop := Hoare.Within (fun _ => True) (fun e => e ≠ .hang) m

theorem noHang_err (e : InterpError) : NoHang (throw (.err e) : Interp ω α) := within_throw (by simp)

theorem noHang_panic : NoHang (throw .panic : Interp ω α) := within_throw (by simp)

theorem noHang_ctrlPush (cf : CtrlFrame) : NoHang (ctrlPush cf : Interp ω Unit) :=
  within_get fun _ _ => within_ite (noHang_err _) (within_set trivial)

theorem noHang_vPop : NoHang (vPop : Interp ω (BitVec 64)) :=
  within_get fun _ _ => within_ite (noHang_err _)
    (within_ite noHang_panic (within_bind (within_set trivial) fun _ => within_pure _))

theorem noHang_setPc (pc : Nat) : NoHang (setPc pc : Interp ω Unit) := by
  refine within_get fun s _ => ?_
  cases s.frames with
  | nil => exact noHang_panic
  | cons fr rest => exact within_set trivial

theorem noHang_enter (cf : CtrlFrame) (pc : Nat) :
    NoHang ((do ctrlPush cf; pure (Next.seq pc)) >>= finish code) := by
  intro s _
  refine (wp_bind _).mpr ((wp_bind _).mpr ?_)
  exact wp_mono (fun _ s' _ => noHang_setPc pc s' trivial) (fun _ _ he => he) (noHang_ctrlPush cf s trivial)

theorem noHang_block {fr : Frame} {body : List UInt8} {pc : Nat}
    (h : blockTargets code fr.bodyIdx body (pc + 1) ≠ .error .hang)
    (kind : BlockKind) : NoHang (dispatch code F fr body pc (.block kind) >>= finish code) := by
  intro s _
  refine (wp_bind _).mpr ((wp_bind _).mpr (wp_lift.mpr ⟨fun t _ => ?_, fun e he => ?_⟩))
  · exact (wp_bind _).mp (noHang_enter ⟨kind, pc + 1, t.1⟩ (pc + 1) s trivial)
  · exact fun hh => h (hh ▸ he)

theorem noHang_if {fr : Frame} {body : List UInt8} {pc : Nat}
    (h : blockTargets code fr.bodyIdx body (pc + 1) ≠ .error .hang) :
    NoHang (dispatch code F fr body pc .if_ >>= finish code) := by
  intro s _
  refine (wp_bind _).mpr ((wp_bind _).mpr (wp_lift.mpr ⟨fun t _ => ?_, fun e he => ?_⟩))
  · refine (wp_bind _).mpr (wp_mono (fun cond s' _ => ?_) (fun _ _ he => he) (noHang_vPop s trivial))
    refine wp_ite.mpr ⟨fun _ => ?_, fun _ => wp_ite.mpr ⟨fun _ => ?_, fun _ => ?_⟩⟩
    · exact (wp_bind _).mp (noHang_enter ⟨.if_, pc + 1, t.1⟩ (pc + 1) s' trivial)
    · exact (wp_bind _).mp (noHang_enter ⟨.if_, pc + 1, t.1⟩ (t.2 + 1) s' trivial)
    · exact noHang_setPc _ s' trivial
  · exact fun hh => h (hh ▸ he)

theorem step_noHang {fr : Frame} {rest : List Frame} {body : List UInt8} {op : UInt8}
    (hy : s.yieldRequested = false)
    (hfr : s.frames = fr :: rest) (hbody : code.bodies[fr.bodyIdx]? = some body) (hidx : fr.bodyIdx < MAX_FUNCS)
    (hpc : body[fr.pc]? = some op) (hop : op = 0x02 ∨ op = 0x03 ∨ op = 0x04) (hfit : Fits body)
    (h : jumpLookup code.jumpTable fr.bodyIdx (fr.pc + 2) ≠ .error .hang) (s' : State ω) :
    step code F s ≠ .error .hang s' := by
  have htargets : blockTargets code fr.bodyIdx body (fr.pc + 2) ≠ .error .hang := by
    rcases blockTargets_cases hfit h with ht | ⟨t, ht⟩ <;> rw [ht] <;> simp
  intro hstep
  rw [step_dispatch hy hfr hbody hidx hpc] at hstep
  rcases hop with rfl | rfl | rfl
  · exact wp_error (noHang_block htargets .block s trivial) hstep rfl
  · exact wp_error (noHang_block htargets .loop s trivial) hstep rfl
  · exact wp_error (noHang_if htargets s trivial) hstep rfl

/-- A lookup ends, and with it the round, exactly when the table has room left or keeps the block. -/
theorem jumpLookup_terminates_iff {lookupHost : List UInt8 → List UInt8 → Option (HostFn ω)} {bytes : List UInt8}
    {inst : Instance (HostFn ω)} (hfit : Fits bytes) (hinst : instantiate lookupHost bytes = .ok inst)
    (hlook : LooksUp inst.code s b pcBody) :
    ((∃ r, jumpLookup inst.code.jumpTable b pcBody = .ok r) ∧ ∀ s', step inst.code F s ≠ .error .hang s') ↔
      Findable inst.code.bodies b pcBody := by
  obtain ⟨hlen, hfits, _, _, _, _, hjump, _⟩ := instantiate_limits hfit hinst
  have hkept := buildJumpTable_kept hlen (instantiate_short hfit hinst)
  rw [← hjump] at hkept
  have hhang := jumpLookup_hangs_iff hkept (b := b) (s := pcBody)
  constructor
  · rintro ⟨⟨r, hr⟩, _⟩
    by_contra hno
    rw [hhang.mpr hno] at hr
    cases hr
  · intro hfind
    have hne : jumpLookup inst.code.jumpTable b pcBody ≠ .error .hang := fun hh => hhang.mp hh hfind
    obtain ⟨hy, fr, rest, body, op, hfr, hbody, hpc, hop, rfl, rfl⟩ := hlook
    have hmem : body ∈ inst.code.bodies := List.mem_of_getElem? hbody
    have hidx : fr.bodyIdx < MAX_FUNCS := Nat.lt_of_lt_of_le (List.getElem?_eq_some_iff.mp hbody).1 hlen
    refine ⟨?_, step_noHang hy hfr hbody hidx hpc hop (hfits body hmem) hne⟩
    exact (jumpLookup_cases _ _ _).resolve_left hne

end

/-! ## A module with many blocks -/

namespace Asm

def emptyBlocks (n : Nat) : List Instr := (List.replicate n [Instr.block 0x40, Instr.end]).flatten

/-- A function of `n` blocks and a second one, the entry, of one block. -/
def manyBlocks (n : Nat) : Module where
  types := [⟨[], []⟩]
  funcs := [⟨0, [], emptyBlocks n⟩, ⟨0, [], emptyBlocks 1⟩]
  exports := [⟨utf8 "main", 0, 1⟩]

def blocksCode (n : Nat) : List UInt8 := (List.replicate n [0x02, 0x40, 0x0B]).flatten ++ [0x0B]

theorem emptyBlocks_code (F : FloatOps) (n : Nat) : FuncDef.code F ⟨0, [], emptyBlocks n⟩ = blocksCode n := by
  unfold FuncDef.code blocksCode emptyBlocks
  congr 1
  induction n with
  | zero => rfl
  | succ n ih => simp [List.replicate_succ, emitInstr, ih]

theorem length_blocksCode (n : Nat) : (blocksCode n).length = 3 * n + 1 := by
  simp [blocksCode, Nat.mul_comm]

theorem blocksCode_succ (n : Nat) : blocksCode (n + 1) = [0x02, 0x40, 0x0B] ++ blocksCode n := by
  simp [blocksCode, List.replicate_succ]

theorem blocksCode_drop {n j : Nat} (hj : j < n) :
    (blocksCode n).drop (3 * j) = [0x02, 0x40, 0x0B] ++ blocksCode (n - j - 1) := by
  induction j generalizing n with
  | zero =>
    obtain ⟨n, rfl⟩ : ∃ k, n = k + 1 := ⟨n - 1, by omega⟩
    exact blocksCode_succ n
  | succ j ih =>
    obtain ⟨n, rfl⟩ : ∃ k, n = k + 1 := ⟨n - 1, by omega⟩
    rw [blocksCode_succ, show 3 * (j + 1) = 3 * j + 1 + 1 + 1 by omega]
    simp only [List.cons_append, List.drop_succ_cons, List.nil_append]
    rw [ih (by omega), show n + 1 - (j + 1) - 1 = n - j - 1 by omega]
    rfl

/-! Sizes -/

theorem length_writeLen_le {α : Type} (xs : List α) : (writeLen xs).length ≤ 5 := by
  have hloop : ∀ (fuel : Nat) (val : UInt32), (writeLeb128U32.loop fuel val).length ≤ fuel := by
    intro fuel
    induction fuel with
    | zero => exact fun _ => Nat.le_refl 0
    | succ fuel ih =>
      intro val
      simp only [writeLeb128U32.loop]
      split
      · simp
      · simpa using ih _
  exact hloop 5 _

theorem length_writeBytes_le (bytes : List UInt8) : (writeBytes bytes).length ≤ bytes.length + 5 := by
  have := length_writeLen_le bytes
  rw [writeBytes, List.length_append]
  omega

theorem length_emitSection_le (id : UInt8) (inner : List UInt8) :
    (emitSection id inner).length ≤ inner.length + 6 := by
  have := length_writeBytes_le inner
  rw [emitSection, List.length_cons]
  omega

theorem length_emitBlocks_le (F : FloatOps) (n : Nat) : (emitCode F ⟨0, [], emptyBlocks n⟩).length ≤ 3 * n + 7 := by
  have hbody : (emitBody F ⟨0, [], emptyBlocks n⟩).length = 3 * n + 2 := by
    have hlocals : (writeAll emitGroup (compressLocals [])).length = 1 := by decide
    rw [emitBody, emptyBlocks_code, List.length_append, length_blocksCode, hlocals]
    omega
  have := length_writeBytes_le (emitBody F ⟨0, [], emptyBlocks n⟩)
  rw [emitCode]
  omega

theorem length_manyBlocks (F : FloatOps) (n : Nat) : (emitModule F (manyBlocks n)).length ≤ 3 * n + 100 := by
  have hfirst := length_emitBlocks_le F n
  have hsecond := length_emitBlocks_le F 1
  have hcode : (emitCodeSection F (manyBlocks n)).length ≤ 3 * n + 30 := by
    have := length_emitSection_le 0x0A (writeAll (emitCode F) (manyBlocks n).funcs)
    have hlen : (writeAll (emitCode F) (manyBlocks n).funcs).length ≤ 5 + (3 * n + 7) + 10 := by
      have := length_writeLen_le (manyBlocks n).funcs
      simp only [writeAll, List.length_append, manyBlocks, List.flatMap_cons, List.flatMap_nil,
        List.append_nil] at this ⊢
      omega
    rw [emitCodeSection]
    omega
  have htype : (emitSection 0x01 (writeAll emitFuncType [⟨[], []⟩])).length = 6 := by decide
  replace htype : (emitTypeSection (manyBlocks n)).length = 6 := htype
  have hfunc : (emitFunctionSection (manyBlocks n)).length ≤ 5 + 2 + 6 := by
    have := length_emitSection_le 0x03 (writeAll emitFunction (manyBlocks n).funcs)
    have hcount := length_writeLen_le (manyBlocks n).funcs
    have hzero : (writeLeb128U32 0).length = 1 := by decide
    simp only [writeAll, List.length_append, manyBlocks, List.flatMap_cons, List.flatMap_nil, List.append_nil,
      emitFunction,
      hzero] at this hcount
    rw [emitFunctionSection, writeAll]
    simp only [manyBlocks, List.flatMap_cons, List.flatMap_nil, List.append_nil, emitFunction]
    omega
  have hexport : (emitSection 0x07 (writeAll emitExport [⟨utf8 "main", 0, 1⟩])).length = 10 := by decide
  replace hexport : (emitExportSection (manyBlocks n)).length = 10 := hexport
  unfold emitModule
  simp only [List.length_append]
  simp only [manyBlocks, List.isEmpty_cons, List.isEmpty_nil, Bool.not_false, Bool.not_true, if_true,
    Bool.false_and,
    Bool.false_eq_true, if_false, List.length_nil, List.length_cons] at hcode htype hfunc hexport ⊢
  omega

theorem manyBlocks_spawnable {H : Type} (F : FloatOps) {n : Nat} (hn : n < 2 ^ 20) :
    Spawnable (H := H) (fun _ _ => none) F (manyBlocks n) where
  import_utf8 := by simp [manyBlocks]
  imports := by simp [manyBlocks]
  types := show 1 ≤ MAX_TYPES by decide
  funcs_ne := by simp [manyBlocks]
  funcs := show 2 ≤ MAX_FUNCS by decide
  pages := by simp [manyBlocks, Module.minPages]
  data := by simp [manyBlocks]
  size := by
    have := length_manyBlocks F n
    omega
  locals := by simp [manyBlocks]

/-! The pre-scan of the blocks -/

theorem blocksCode_getElem {n j : Nat} (hj : j < n) :
    (blocksCode n)[3 * j]? = some 0x02 ∧ (blocksCode n)[3 * j + 2]? = some 0x0B := by
  have hdrop := blocksCode_drop hj
  constructor
  · have := congrArg (fun l : List UInt8 => l[0]?) hdrop
    simpa using this
  · have := congrArg (fun l : List UInt8 => l[2]?) hdrop
    simpa using this

theorem blockStarts_loop_length {n : Nat} : ∀ (k j fuel : Nat), j + k = n → 2 * k ≤ fuel →
    k ≤ (blockStarts.loop (blocksCode n) fuel (3 * j)).length
  | 0, _, _, _, _ => Nat.zero_le _
  | k + 1, j, fuel, hj, hfuel => by
    obtain ⟨f, rfl⟩ : ∃ f, fuel = f + 1 + 1 := ⟨fuel - 2, by omega⟩
    obtain ⟨hblock, hend⟩ := blocksCode_getElem (n := n) (j := j) (by omega)
    have hlen := length_blocksCode n
    have hstep : preScanStep (blocksCode n) (3 * j) = some (some (3 * j + 2), 3 * j + 2) := by
      unfold preScanStep
      simp only [hblock, scanClass, true_or, if_true, show ¬ (blocksCode n).length ≤ 3 * j + 1 by omega, if_false]
    have hscan : scanBlockEnd (blocksCode n) (3 * j + 2) = some (3 * j + 2, NO_ELSE) := by
      unfold scanBlockEnd
      rw [hlen]
      unfold scanBlockEnd.loop
      simp only [hend]
      rfl
    have hnext : preScanStep (blocksCode n) (3 * j + 2) = some (none, 3 * (j + 1)) := by
      unfold preScanStep
      simp only [hend]
      rfl
    have ih := blockStarts_loop_length (n := n) k (j + 1) f (by omega) (by omega)
    rw [blockStarts.loop, hstep]
    simp only [hscan]
    rw [blockStarts.loop, hnext]
    simpa using ih

theorem manyBlocks_recorded {n : Nat} (hn : JUMP_SLOTS ≤ n) : ¬ Findable [blocksCode n, blocksCode 1] 1 2 := by
  have hlen : n ≤ (blockStarts (blocksCode n)).length :=
    blockStarts_loop_length n 0 _ (by omega) (by rw [length_blocksCode]; omega)
  have hrec : recorded [blocksCode n, blocksCode 1] =
      (blockStarts (blocksCode n)).map (fun s => (0, s)) ++ (blockStarts (blocksCode 1)).map fun s => (1, s) := by
    simp [recorded]
  have htake : JUMP_SLOTS ≤ ((blockStarts (blocksCode n)).map (fun s => (0, s))).length := by
    rw [List.length_map]
    exact Nat.le_trans hn hlen
  rintro (hlt | hmem)
  · rw [hrec, List.length_append] at hlt
    omega
  · rw [hrec, List.take_append_of_le_length htake] at hmem
    obtain ⟨s, _, hs⟩ := List.mem_map.mp (List.mem_of_mem_take hmem)
    cases hs

end Asm

open Asm in
def inEntry (n : Nat) : State Unit :=
  let inst := instanceOf (fun _ _ => none) default (manyBlocks n)
  Hoare.after ((beginTask inst.code 1 [] >>= fun _ => enterRun) (inst.initial ()))

theorem inEntry_looksUp (n : Nat) :
    LooksUp (Asm.codeOf (fun _ _ => none) default (Asm.manyBlocks n)) (inEntry n) 1 2 :=
  ⟨rfl, _, _, _, 0x02, rfl, rfl, rfl, .inl rfl, rfl, rfl⟩

theorem inEntry_reach (n : Nat) :
    Reach (Asm.codeOf (fun _ _ => none) default (Asm.manyBlocks n)) default (fun _ => True)
    ((Asm.instanceOf (fun _ _ => none) default (Asm.manyBlocks n)).initial ()) (inEntry n) :=
  .start 1 [] .spawn

theorem oneBlock_lookup_terminates :
    (∃ r, jumpLookup (Asm.codeOf (H := HostFn Unit) (fun _ _ => none) default (Asm.manyBlocks 0)).jumpTable 1
      2 = .ok r) ∧
    ∀ s', step (Asm.codeOf (fun _ _ => none) default (Asm.manyBlocks 0)) default (inEntry 0) ≠ .error .hang s' := by
  have hspawn := Asm.manyBlocks_spawnable (H := HostFn Unit) default (n := 0) (by decide)
  have hfit := Asm.fits_of_size hspawn.size
  have hinst := Asm.instantiate_emitModule hspawn
  apply (jumpLookup_terminates_iff hfit hinst (inEntry_looksUp 0)).mpr
  exact .inl (by decide)

/-- A block that does not fit into the full table is looked up for ever. -/
theorem fullTable_lookup_hangs :
    ¬ ∀ (bytes : List UInt8) (inst : Instance (HostFn Unit)) (s : State Unit) (b pcBody : Nat),
    Fits bytes → instantiate (fun _ _ => none) bytes = .ok inst →
    Reach inst.code default (fun _ => True) (inst.initial ()) s → LooksUp inst.code s b pcBody →
    ∃ r, jumpLookup inst.code.jumpTable b pcBody = .ok r := by
  intro h
  have hspawn := Asm.manyBlocks_spawnable (H := HostFn Unit) default (n := JUMP_SLOTS) (by decide)
  have hfit := Asm.fits_of_size hspawn.size
  have hinst := Asm.instantiate_emitModule hspawn
  obtain ⟨r, hr⟩ := h _ _ _ 1 2 hfit hinst (inEntry_reach JUMP_SLOTS) (inEntry_looksUp JUMP_SLOTS)
  have hbodies : (Asm.instanceOf (H := HostFn Unit) (fun _ _ => none) default
    (Asm.manyBlocks JUMP_SLOTS)).code.bodies =
      [Asm.blocksCode JUMP_SLOTS, Asm.blocksCode 1] := by
    simp [Asm.instanceOf, Asm.codeOf, Asm.manyBlocks, Asm.emptyBlocks_code]
  obtain ⟨hlen, _, _, _, _, _, hjump, _⟩ := instantiate_limits hfit hinst
  have hkept := buildJumpTable_kept hlen (instantiate_short hfit hinst)
  rw [← hjump] at hkept
  have hno := Asm.manyBlocks_recorded (Nat.le_refl JUMP_SLOTS)
  rw [← hbodies] at hno
  rw [(jumpLookup_hangs_iff hkept).mpr hno] at hr
  cases hr

end WasmOs
