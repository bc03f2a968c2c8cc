import WasmOs.Scan
import WasmOs.Cursor

/-!
# The scanners with their checks

`Scan` models the scanners without slice bounds and overflow. Here they are once more, with every
index, slice and addition checked as in the compiled code; on a slice of any length that can exist
the checks never fail and the two versions agree.
-/

namespace WasmOs

def skipLeb128.checkedLoop {ε : Type} (bytes : List UInt8) (e : ε) (start : Nat) : Nat → Nat → Rust ε Nat
  | 0, _ => .error (.err e)
  | fuel + 1, i =>
    if bytes.length ≤ i then .error (.err e) else do
    let b ← index bytes i
    let i ← uadd i 1
    if b &&& 0x80 = 0 then usub i start else skipLeb128.checkedLoop bytes e start fuel i

/-- `skip_leb128(bytes, start)`, with `None` as the error `e`. -/
def skipLeb128.checked {ε : Type} (bytes : List UInt8) (e : ε) (start : Nat) : Rust ε Nat :=
  skipLeb128.checkedLoop bytes e start bytes.length start

/-- `i += skip_leb128(body, i)?` -/
def skipLebs.step (body : List UInt8) (i : Nat) : Rust Unit Nat := do
  let n ← skipLeb128.checked body () i
  uadd i n

def skipImmediates.checked (body : List UInt8) (i : Nat) : ScanClass → Rust Unit Nat
  | .leb1 | .pre => skipLebs.step body i
  | .leb2 => iter (skipLebs.step body) 2 i
  | .brTable => do
    let (count, i) ← readU32 body () i
    iter (skipLebs.step body) (count + 1) i
  | .reserved => uadd i 1
  | .const4 => uadd i 4
  | .const8 => uadd i 8
  | _ => .ok i

def scanBlockEnd.checkedLoop (body : List UInt8) : Nat → Nat → Nat → Nat → Rust Unit (Nat × Nat)
  | 0, _, _, _ => .error (.err ())
  | fuel + 1, i, depth, elsePc =>
    if body.length ≤ i then .error (.err ()) else do
    let op ← index body i
    let i ← uadd i 1
    match scanClass op with
    | .structured =>
      let i ← uadd i 1
      let depth ← uadd depth 1
      scanBlockEnd.checkedLoop body fuel i depth elsePc
    | .else_ =>
      let at_ ← usub i 1
      scanBlockEnd.checkedLoop body fuel i depth (if depth = 1 then at_ else elsePc)
    | .end_ =>
      let depth ← usub depth 1
      let at_ ← usub i 1
      if depth = 0 then .ok (at_, elsePc) else scanBlockEnd.checkedLoop body fuel i depth elsePc
    | c =>
      let i ← skipImmediates.checked body i c
      scanBlockEnd.checkedLoop body fuel i depth elsePc

def scanBlockEnd.checked (body : List UInt8) (start : Nat) : Rust Unit (Nat × Nat) :=
  scanBlockEnd.checkedLoop body body.length start 1 NO_ELSE

/-- `i += skip_leb128(body, i).unwrap_or(d)` -/
def preScanSkip {ε : Type} (body : List UInt8) (d i : Nat) : Rust ε Nat := do
  let n ← orReturn (skipLeb128.checked body (.inr d) i)
  uadd i n

/-- One round of the pre-scan; the error is its `return`. -/
def preScanStep.checked (body : List UInt8) (i : Nat) : Rust Unit (Option Nat × Nat) :=
  if body.length ≤ i then .error (.err ()) else do
  let op ← index body i
  let i ← uadd i 1
  match scanClass op with
  | .structured =>
    if body.length ≤ i then .error (.err ()) else
    let scanStart ← uadd i 1
    .ok (some scanStart, scanStart)
  | .brTable =>
    let (count, i) ← readU32 body () i
    let i ← iter (preScanSkip body 1) (count + 1) i
    .ok (none, i)
  | .leb2 =>
    let i ← iter (preScanSkip body 0) 2 i
    .ok (none, i)
  | .leb1 | .pre =>
    let i ← preScanSkip body 0 i
    .ok (none, i)
  | .reserved =>
    let i ← uadd i 1
    .ok (none, i)
  | .const4 =>
    let i ← uadd i 4
    .ok (none, i)
  | .const8 =>
    let i ← uadd i 8
    .ok (none, i)
  | .else_ | .end_ | .plain => .ok (none, i)

/-- The value of a computation whose error stands for `None`. -/
def toOption {ε α : Type} : Rust Unit α → Rust ε (Option α)
  | .ok a => .ok (some a)
  | .error (.err ()) => .ok none
  | .error .panic => .error .panic
  | .error .hang => .error .hang

def preScanBodyJumps.checkedLoop {ε : Type} (body : List UInt8) (bodyIdx : Nat) :
    Nat → Nat → (Nat → JumpSlot) → Rust ε (Nat → JumpSlot)
  | 0, _, table => .ok table
  | fuel + 1, i, table => do
    match ← toOption (preScanStep.checked body i) with
    | none => .ok table
    | some (none, i) => preScanBodyJumps.checkedLoop body bodyIdx fuel i table
    | some (some scanStart, i) =>
      match ← toOption (scanBlockEnd.checked body scanStart) with
      | none => preScanBodyJumps.checkedLoop body bodyIdx fuel i table
      | some (endPc, elsePc) =>
        preScanBodyJumps.checkedLoop body bodyIdx fuel i (jumpInsert table bodyIdx scanStart endPc elsePc)

def preScanBodyJumps.checked {ε : Type} (body : List UInt8) (bodyIdx : Nat) (table : Nat → JumpSlot) :
    Rust ε (Nat → JumpSlot) :=
  preScanBodyJumps.checkedLoop body bodyIdx body.length 0 table

def buildJumpTable.checked {ε : Type} (bodies : List (List UInt8)) : Rust ε (Nat → JumpSlot) :=
  bodies.zipIdx.foldlM (fun t p => preScanBodyJumps.checked p.1 p.2 t) fun _ => EMPTY_JUMP_SLOT

/-! ## The checks never fail -/

theorem skip_loop_le : ∀ {bytes : List UInt8} {i n : Nat}, skipLeb128.loop bytes i = some n → n ≤ i + bytes.length
  | [], _, _, h => by cases h
  | b :: bytes, i, n, h => by
    unfold skipLeb128.loop at h
    split at h
    · cases h; simp
    · have := skip_loop_le h
      simp only [List.length_cons]; omega

theorem skipLeb128_le {bytes : List UInt8} {i n : Nat} (h : skipLeb128 bytes i = some n) :
    i + n ≤ max i bytes.length := by
  have := skip_loop_le h
  rw [List.length_drop] at this
  omega

section
variable {ε : Type} {body : List UInt8} (hfit : Fits body)
include hfit

theorem skip_checkedLoop {e : ε} {start : Nat} : ∀ (fuel i : Nat), start ≤ i → body.length ≤ i + fuel →
    skipLeb128.checkedLoop body e start fuel i = okOr (skipLeb128.loop (body.drop i) (i - start)) e
  | 0, i, _, hf => by
    rw [List.drop_eq_nil_of_le (by omega)]; rfl
  | fuel + 1, i, hi, hf => by
    have hlen : body.length < 2 ^ 63 := hfit
    unfold skipLeb128.checkedLoop
    by_cases hcur : body.length ≤ i
    · rw [if_pos hcur, List.drop_eq_nil_of_le hcur]; rfl
    · rw [if_neg hcur, List.drop_eq_getElem_cons (by omega), index, List.getElem?_eq_getElem (by omega)]
      simp only [bind_ok]
      rw [uadd_of_lt (by omega), bind_ok, skipLeb128.loop]
      split
      · rw [usub, if_pos (by omega)]
        simp only [okOr]
        congr 1; omega
      · rw [skip_checkedLoop fuel (i + 1) (by omega) (by omega)]
        congr 2; omega

theorem skipLeb128_checked (e : ε) (i : Nat) : skipLeb128.checked body e i = okOr (skipLeb128 body i) e := by
  rw [skipLeb128.checked, skip_checkedLoop hfit body.length i (Nat.le_refl i) (by omega), Nat.sub_self]; rfl

theorem skipLebs_step {i : Nat} (hi : i < 2 ^ 63) :
    skipLebs.step body i = okOr ((skipLeb128 body i).map fun n => i + n) () := by
  have hlen : body.length < 2 ^ 63 := hfit
  rw [skipLebs.step, skipLeb128_checked hfit]
  cases h : skipLeb128 body i with
  | none => rfl
  | some n =>
    have := skipLeb128_le h
    simp only [okOr, bind_ok, Option.map_some]
    exact uadd_of_lt (by omega)

theorem iter_skipLebs :
    ∀ (k : Nat) {i : Nat}, i < 2 ^ 63 → iter (skipLebs.step body) k i = okOr (skipLebs body k i) ()
  | 0, _, _ => rfl
  | k + 1, i, hi => by
    have hlen : body.length < 2 ^ 63 := hfit
    rw [iter, skipLebs_step hfit hi, skipLebs]
    cases h : skipLeb128 body i with
    | none => rfl
    | some n =>
      have := skipLeb128_le h
      show iter _ k (i + n) = _
      exact iter_skipLebs k (by omega)

theorem skipImmediates_checked {i : Nat} (hi : i ≤ body.length) (c : ScanClass) :
    skipImmediates.checked body i c = okOr (skipImmediates body i c) () := by
  have hlen : body.length < 2 ^ 63 := hfit
  have hstep : skipLebs.step body i = okOr (skipLebs body 1 i) () := by
    rw [← iter_skipLebs hfit 1 (by omega)]
    cases h : skipLebs.step body i <;> simp [iter, h]
  cases c with
  | leb1 => exact hstep
  | pre => exact hstep
  | leb2 => exact iter_skipLebs hfit 2 (by omega)
  | brTable =>
    simp only [skipImmediates.checked, skipImmediates, readU32]
    rw [readAt_of_le (fun h => (readU32Leb128_bounds h).2.2) hfit hi]
    cases hr : readU32Leb128 (body.drop i) with
    | none => rfl
    | some p =>
      have := (readU32Leb128_bounds hr).2.2
      rw [List.length_drop] at this
      exact iter_skipLebs hfit (p.1 + 1) (by omega)
  | reserved => exact uadd_of_lt (by omega)
  | const4 => exact uadd_of_lt (by omega)
  | const8 => exact uadd_of_lt (by omega)
  | _ => rfl

theorem scan_checkedLoop : ∀ (fuel i depth elsePc : Nat), 1 ≤ depth → depth ≤ i + 1 →
    scanBlockEnd.checkedLoop body fuel i depth elsePc = okOr (scanBlockEnd.loop body fuel i depth elsePc) ()
  | 0, _, _, _, _, _ => rfl
  | fuel + 1, i, depth, elsePc, hd, hdi => by
    have hlen : body.length < 2 ^ 63 := hfit
    unfold scanBlockEnd.checkedLoop scanBlockEnd.loop
    by_cases hi : body.length ≤ i
    · rw [if_pos hi, List.getElem?_eq_none hi]; rfl
    have himm : ∀ c, (skipImmediates.checked body (i + 1) c >>= fun i =>
        scanBlockEnd.checkedLoop body fuel i depth elsePc) =
        okOr ((skipImmediates body (i + 1) c).bind fun i => scanBlockEnd.loop body fuel i depth elsePc) () := by
      intro c
      rw [skipImmediates_checked hfit (by omega)]
      cases hj : skipImmediates body (i + 1) c with
      | none => rfl
      | some j =>
        have := skipImmediates_ge hj
        exact scan_checkedLoop fuel j _ _ hd (by omega)
    rw [if_neg hi, index, List.getElem?_eq_getElem (by omega)]
    simp only [bind_ok]
    rw [uadd_of_lt (by omega), bind_ok]
    cases scanClass body[i] with
    | structured =>
      simp only
      rw [uadd_of_lt (by omega), bind_ok, uadd_of_lt (by omega), bind_ok]
      exact scan_checkedLoop fuel _ _ _ (by omega) (by omega)
    | else_ =>
      simp only
      rw [usub, if_pos (by omega), bind_ok, Nat.add_sub_cancel]
      exact scan_checkedLoop fuel _ _ _ hd (by omega)
    | end_ =>
      simp only
      rw [usub, if_pos (by omega), bind_ok, usub, if_pos (by omega), bind_ok, Nat.add_sub_cancel]
      by_cases h1 : depth = 1
      · rw [if_pos (by omega), if_pos h1]; rfl
      · rw [if_neg (by omega), if_neg h1]
        exact scan_checkedLoop fuel _ _ _ (by omega) (by omega)
    | _ => exact himm _

theorem scanBlockEnd_checked (start : Nat) : scanBlockEnd.checked body start = okOr (scanBlockEnd body start) () :=
  scan_checkedLoop hfit _ _ _ _ (Nat.le_refl 1) (by omega)

theorem preScanSkip_eq {d i : Nat} (hi : i + d < 2 ^ 64) :
    (preScanSkip body d i : Rust ε Nat) = .ok (i + (skipLeb128 body i).getD d) := by
  have hlen : body.length < 2 ^ 63 := hfit
  rw [preScanSkip, skipLeb128_checked hfit]
  cases h : skipLeb128 body i with
  | none => exact uadd_of_lt hi
  | some n =>
    have := skipLeb128_le h
    exact uadd_of_lt (by omega)

theorem iter_preScanLabels : ∀ (k : Nat) {i : Nat}, k ≤ 2 ^ 32 → i + k < 2 ^ 63 + 2 ^ 33 →
    (iter (preScanSkip body 1) k i : Rust ε Nat) = .ok (preScanLabels body k i)
  | 0, _, _, _ => rfl
  | k + 1, i, hk, hi => by
    have hlen : body.length < 2 ^ 63 := hfit
    rw [iter, preScanSkip_eq hfit (by omega), bind_ok, preScanLabels]
    refine iter_preScanLabels k (by omega) ?_
    cases h : skipLeb128 body i with
    | none => simp only [Option.getD_none]; omega
    | some n =>
      have := skipLeb128_le h
      simp only [Option.getD_some]; omega

theorem preScanStep_checked (i : Nat) : preScanStep.checked body i = okOr (preScanStep body i) () := by
  have hlen : body.length < 2 ^ 63 := hfit
  unfold preScanStep.checked preScanStep
  by_cases hi : body.length ≤ i
  · rw [if_pos hi, List.getElem?_eq_none hi]; rfl
  rw [if_neg hi, index, List.getElem?_eq_getElem (by omega)]
  simp only [bind_ok]
  rw [uadd_of_lt (by omega), bind_ok]
  cases scanClass body[i] with
  | structured =>
    simp only
    by_cases h : body.length ≤ i + 1
    · rw [if_pos h, if_pos h]; rfl
    · rw [if_neg h, if_neg h, uadd_of_lt (by omega)]; rfl
  | brTable =>
    simp only [readU32]
    rw [readAt_of_le (fun h => (readU32Leb128_bounds h).2.2) hfit (by omega)]
    cases hr : readU32Leb128 (body.drop (i + 1)) with
    | none => rfl
    | some p =>
      have := readU32Leb128_bounds hr
      rw [List.length_drop] at this
      simp only [bind_ok]
      rw [iter_preScanLabels hfit _ (by omega) (by omega)]; rfl
  | leb2 =>
    have hle : i + 1 + (skipLeb128 body (i + 1)).getD 0 ≤ body.length := by
      cases h : skipLeb128 body (i + 1) with
      | none => simp only [Option.getD_none]; omega
      | some n =>
        have := skipLeb128_le h
        simp only [Option.getD_some]; omega
    simp only [iter]
    rw [preScanSkip_eq hfit (by omega), bind_ok, preScanSkip_eq hfit (by omega)]; rfl
  | leb1 => simp only; rw [preScanSkip_eq hfit (by omega)]; rfl
  | pre => simp only; rw [preScanSkip_eq hfit (by omega)]; rfl
  | reserved => simp only; rw [uadd_of_lt (by omega)]; rfl
  | const4 => simp only; rw [uadd_of_lt (by omega)]; rfl
  | const8 => simp only; rw [uadd_of_lt (by omega)]; rfl
  | _ => rfl

theorem preScan_checkedLoop {b : Nat} : ∀ (fuel i : Nat) (table : Nat → JumpSlot),
    (preScanBodyJumps.checkedLoop body b fuel i table : Rust ε _) = .ok (preScanBodyJumps.loop body b fuel i table)
  | 0, _, _ => rfl
  | fuel + 1, i, table => by
    unfold preScanBodyJumps.checkedLoop preScanBodyJumps.loop
    rw [preScanStep_checked hfit]
    cases preScanStep body i with
    | none => rfl
    | some p =>
      obtain ⟨o, j⟩ := p
      cases o with
      | none => exact preScan_checkedLoop fuel j table
      | some s =>
        simp only [okOr, toOption, bind_ok]
        rw [scanBlockEnd_checked hfit]
        cases scanBlockEnd body s with
        | none => exact preScan_checkedLoop fuel j table
        | some q => exact preScan_checkedLoop fuel j _

end

/-- The table of the checked pre-scan is the one of `Scan`. -/
theorem buildJumpTable_checked {ε : Type} {bodies : List (List UInt8)} (hfit : ∀ b ∈ bodies, Fits b) :
    (buildJumpTable.checked bodies : Rust ε _) = .ok (buildJumpTable bodies) := by
  unfold buildJumpTable.checked buildJumpTable
  have hmem : ∀ p ∈ bodies.zipIdx, Fits p.1 := fun p hp => hfit p.1 (List.fst_mem_of_mem_zipIdx hp)
  generalize bodies.zipIdx = ps at hmem
  generalize (fun _ => EMPTY_JUMP_SLOT : Nat → JumpSlot) = t
  induction ps generalizing t with
  | nil => rfl
  | cons p ps ih =>
    rw [List.foldlM_cons, preScanBodyJumps.checked, preScan_checkedLoop (hmem p List.mem_cons_self), bind_ok,
      List.foldl_cons]
    exact ih (fun q hq => hmem q (List.mem_cons_of_mem _ hq)) _

end WasmOs
