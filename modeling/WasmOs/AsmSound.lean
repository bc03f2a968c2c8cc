import WasmOs.Asm
import WasmOs.LebSound
import WasmOs.Cursor
import WasmOs.Engine

/-!
# Assembled modules read back

What `WasmEmitter` writes, the loader, the section parsers, `find_export` and `init_memory` read
back. Every reader is followed along the bytes ahead of its cursor: it consumes exactly the bytes of
one entry, whatever comes after it.
-/

namespace WasmOs.Asm

/-! ## Numbers -/

theorem or_0x80_toNat (b : UInt8) : (b ||| 0x80).toNat = b.toNat % 128 + 128 :=
  byte_forall (P := fun b => (b ||| 0x80).toNat = b.toNat % 128 + 128) (by decide +kernel) b

theorem writeU32_loop {fuel N : Nat} {val : UInt32} (hf : N ≤ 7 * fuel) (hN : val.toNat < 2 ^ N) (h0 : 0 < N) :
    ULeb N (writeLeb128U32.loop fuel val) val.toNat := by
  induction fuel generalizing N val with
  | zero => omega
  | succ fuel ih =>
    have hbyte : (val &&& 0x7F).toUInt8.toNat = val.toNat % 128 := by
      have hand : val.toNat &&& 127 = val.toNat % 128 := Nat.and_two_pow_sub_one_eq_mod val.toNat 7
      rw [UInt32.toNat_toUInt8, UInt32.toNat_and, show (0x7F : UInt32).toNat = 127 from rfl, hand]
      omega
    have hshift : (val >>> 7).toNat = val.toNat / 128 := by
      simp [Nat.shiftRight_eq_div_pow]
    unfold writeLeb128U32.loop
    by_cases hz : val >>> 7 = 0
    · have hlt : val.toNat < 128 := by
        have := congrArg UInt32.toNat hz
        rw [hshift] at this
        simp at this
        omega
      have := ULeb.last (N := N) (b := (val &&& 0x7F).toUInt8) (by omega) (by omega)
      rw [hbyte, Nat.mod_eq_of_lt hlt] at this
      simpa [hz] using this
    · have hge : 128 ≤ val.toNat := by
        by_contra hlt
        apply hz
        apply UInt32.toNat_inj.mp
        rw [hshift]
        simp; omega
      have h7 : 7 < N := by
        by_contra hle
        have : 2 ^ N ≤ 2 ^ 7 := Nat.pow_le_pow_right (by decide) (by omega)
        omega
      have hN7 : (val >>> 7).toNat < 2 ^ (N - 7) := by
        rw [hshift, Nat.div_lt_iff_lt_mul (by decide), show 128 = 2 ^ 7 from rfl, ← Nat.pow_add,
          Nat.sub_add_cancel (by omega)]
        exact hN
      have := ULeb.more (b := (val &&& 0x7F).toUInt8 ||| 0x80) (by rw [or_0x80_toNat]; omega) h7
        (ih (by omega) hN7 (by omega))
      rw [or_0x80_toNat, hbyte, hshift] at this
      simp only [hz, if_false]
      convert this using 1
      omega

theorem low_bits_toNat (val : BitVec 32) :
    (UInt8.ofBitVec ((val &&& 0x7F).setWidth 8)).toNat = val.toNat % 128 := by
  have hand : val.toNat &&& 127 = val.toNat % 128 := Nat.and_two_pow_sub_one_eq_mod val.toNat 7
  rw [UInt8.toNat_ofBitVec, BitVec.toNat_setWidth, BitVec.toNat_and,
    show (0x7F : BitVec 32).toNat = 127 from rfl, hand]
  omega

theorem low_bits_toInt (val : BitVec 32) : ((val.toNat % 128 : Nat) : Int) = val.toInt % 128 := by
  rw [BitVec.toInt_eq_toNat_cond]
  split <;> omega

theorem sshiftRight_toInt (val : BitVec 32) (n : Nat) : (val.sshiftRight n).toInt = val.toInt / 2 ^ n := by
  rw [BitVec.toInt_sshiftRight, Int.shiftRight_eq_div_pow]
  norm_cast

theorem not_more_iff (val : BitVec 32) :
    ¬ (val.sshiftRight 6 ≠ 0 ∧ val.sshiftRight 6 ≠ -1) ↔ -64 ≤ val.toInt ∧ val.toInt < 64 := by
  have h0 : val.sshiftRight 6 = 0 ↔ val.toInt / 2 ^ 6 = 0 := by
    rw [← BitVec.toInt_inj, sshiftRight_toInt]; rfl
  have h1 : val.sshiftRight 6 = -1 ↔ val.toInt / 2 ^ 6 = -1 := by
    rw [← BitVec.toInt_inj, sshiftRight_toInt]; rfl
  rw [ne_eq, ne_eq, h0, h1]
  omega

theorem writeI32_loop {fuel N : Nat} {val : BitVec 32} (hf : N ≤ 7 * fuel) (h0 : 0 < N)
    (hlo : - 2 ^ (N - 1) ≤ val.toInt) (hhi : val.toInt < 2 ^ (N - 1)) :
    SLeb N (writeLeb128I32.loop fuel val) val.toInt := by
  induction fuel generalizing N val with
  | zero => omega
  | succ fuel ih =>
    have hbyte := low_bits_toNat val
    have hmod := low_bits_toInt val
    have hpow : ((2 ^ (N - 1) : Nat) : Int) = 2 ^ (N - 1) := by norm_cast
    unfold writeLeb128I32.loop
    simp only
    by_cases hm : ¬ (val.sshiftRight 6 ≠ 0 ∧ val.sshiftRight 6 ≠ -1)
    · have hlast : (UInt8.ofBitVec ((val &&& 0x7F).setWidth 8) &&& 0x7F).toNat = val.toNat % 128 := by
        rw [and_0x7f_toNat, hbyte]; omega
      rw [if_pos hm]
      obtain ⟨h64, h64'⟩ := (not_more_iff val).mp hm
      by_cases hneg : val.toInt < 0
      · have := SLeb.neg (N := N) (b := UInt8.ofBitVec ((val &&& 0x7F).setWidth 8) &&& 0x7F)
          (by omega) (by omega) (by omega)
        rw [hlast] at this
        convert this using 1
        omega
      · have := SLeb.pos (N := N) (b := UInt8.ofBitVec ((val &&& 0x7F).setWidth 8) &&& 0x7F)
          (by omega) (by omega)
        rw [hlast] at this
        convert this using 1
        omega
    · rw [if_neg hm]
      have hbig := mt (not_more_iff val).mpr hm
      have h7 : 7 < N := by
        by_contra hle
        have : 2 ^ (N - 1) ≤ 2 ^ 6 := Nat.pow_le_pow_right (by decide) (by omega)
        omega
      have hdiv : ((val.sshiftRight 6).sshiftRight 1).toInt = val.toInt / 128 := by
        rw [sshiftRight_toInt, sshiftRight_toInt]
        omega
      have hsplit : (2 : Int) ^ (N - 1) = 128 * 2 ^ (N - 7 - 1) := by
        rw [show N - 1 = 7 + (N - 7 - 1) by omega, Int.pow_add]
        rfl
      have htail : SLeb (N - 7) (writeLeb128I32.loop fuel ((val.sshiftRight 6).sshiftRight 1))
          ((val.sshiftRight 6).sshiftRight 1).toInt := ih (by omega) (by omega) (by omega) (by omega)
      have := SLeb.more (b := UInt8.ofBitVec ((val &&& 0x7F).setWidth 8) ||| 0x80)
        (by rw [or_0x80_toNat]; omega) h7 htail
      rw [or_0x80_toNat, hbyte, hdiv] at this
      convert this using 1
      omega

/-- A `u32` with the bytes the emitter writes for it. -/
def u32Of (val : UInt32) : U32 :=
  ⟨val.toNat, writeLeb128U32 val, writeU32_loop (by decide) val.toNat_lt (by decide)⟩

theorem readU32_write (val : UInt32) (rest : List UInt8) :
    readU32Leb128 (writeLeb128U32 val ++ rest) = some (val.toNat, (writeLeb128U32 val).length) :=
  readU32_append (u32Of val) rest

/-- An `i32` with the bytes the emitter writes for it. -/
def s32Of (val : BitVec 32) : S32 :=
  ⟨val.toInt, writeLeb128I32 val, writeI32_loop (by decide) (by decide) val.le_toInt val.toInt_lt⟩

/-! ## Bytes ahead of a cursor -/

theorem length_le_flatMap {α β : Type} (enc : α → List β) (henc : ∀ x, enc x ≠ []) (xs : List α) :
    xs.length ≤ (xs.flatMap enc).length := by
  induction xs with
  | nil => simp
  | cons x xs ih =>
    have := List.length_pos_iff.mpr (henc x)
    simp only [List.flatMap_cons, List.length_append, List.length_cons]
    omega

/-- `rest` is what lies ahead of the cursor. -/
structure Ahead (bytes : List UInt8) (cur : Nat) (rest : List UInt8) : Prop where
  le : cur ≤ bytes.length
  drop : bytes.drop cur = rest

section
variable {ε α : Type} {bytes rest a : List UInt8} {b : UInt8} {cur : Nat}

theorem Ahead.start : Ahead bytes 0 (bytes ++ []) := ⟨Nat.zero_le _, (List.append_nil bytes).symm⟩

theorem Ahead.length (h : Ahead bytes cur rest) : bytes.length = cur + rest.length := by
  have := congrArg List.length h.drop
  rw [List.length_drop] at this
  have := h.le
  omega

theorem Ahead.skip (h : Ahead bytes cur (a ++ rest)) : Ahead bytes (cur + a.length) rest := by
  have := h.length
  rw [List.length_append] at this
  exact ⟨by omega, drop_append_length h.drop⟩

theorem Ahead.piece_le (h : Ahead bytes cur (a ++ rest)) : cur + a.length ≤ bytes.length := h.skip.le

theorem Ahead.take (h : Ahead bytes cur (a ++ rest)) : (bytes.drop cur).take a.length = a := by
  rw [h.drop, List.take_left]

theorem Ahead.next (h : Ahead bytes cur (b :: rest)) : Ahead bytes (cur + 1) rest := Ahead.skip (a := [b]) h

theorem Ahead.lt (h : Ahead bytes cur (b :: rest)) : cur < bytes.length := h.next.le

theorem Ahead.byte (h : Ahead bytes cur (b :: rest)) : bytes[cur]? = some b :=
  getElem?_of_drop (show bytes.drop cur = [b] ++ rest from h.drop) rfl

variable (hsize : bytes.length < 2 ^ 32)
include hsize

theorem Ahead.uadd (h : Ahead bytes cur (a ++ rest)) : (uadd cur a.length : Rust ε Nat) = .ok (cur + a.length) := by
  have := h.piece_le
  exact uadd_of_lt (by omega)

theorem Ahead.uadd_one (h : Ahead bytes cur (b :: rest)) : (WasmOs.uadd cur 1 : Rust ε Nat) = .ok (cur + 1) :=
  Ahead.uadd hsize (a := [b]) h

theorem fits_of_size : Fits bytes := by unfold Fits; omega

theorem Ahead.readU32 {val : UInt32} (h : Ahead bytes cur (writeLeb128U32 val ++ rest)) (e : ε) :
    ∃ c, readU32 bytes e cur = .ok (val.toNat, c) ∧ Ahead bytes c rest := by
  refine ⟨_, (readU32_eq_ok (fits_of_size hsize)).mpr ⟨h.le, _, ?_, rfl⟩, h.skip⟩
  rw [h.drop, readU32_write]

theorem Ahead.readLen {xs : List α} (hxs : xs.length ≤ bytes.length)
    (h : Ahead bytes cur (writeLen xs ++ rest)) (e : ε) :
    ∃ c, WasmOs.readU32 bytes e cur = .ok (xs.length, c) ∧ Ahead bytes c rest := by
  obtain ⟨c, hc, hrest⟩ := Ahead.readU32 hsize h e
  rw [UInt32.toNat_ofNat_of_lt' (show xs.length < 2 ^ 32 by omega)] at hc
  exact ⟨c, hc, hrest⟩

theorem Ahead.readBytes (h : Ahead bytes cur (writeBytes a ++ rest)) (e : ε) :
    ∃ c, WasmOs.readU32 bytes e cur = .ok (a.length, c) ∧ Ahead bytes c (a ++ rest) := by
  rw [writeBytes, List.append_assoc] at h
  have := h.skip.piece_le
  exact Ahead.readLen hsize (by omega) h e

theorem Ahead.readAll {enc : α → List UInt8} (henc : ∀ x, enc x ≠ []) {xs : List α}
    (h : Ahead bytes cur (writeAll enc xs ++ rest)) (e : ε) :
    ∃ c, WasmOs.readU32 bytes e cur = .ok (xs.length, c) ∧ Ahead bytes c (xs.flatMap enc ++ rest) := by
  rw [writeAll, List.append_assoc] at h
  have hle := h.skip.piece_le
  have hlen := length_le_flatMap enc henc xs
  exact Ahead.readLen hsize (by omega) h e

end

/-- A loop over entries: every round reads one entry and adds it to what was read. -/
theorem iter_entries {ε α β : Type} {bytes : List UInt8} {enc : β → List UInt8} {step : Nat × α → Rust ε (Nat × α)}
    {f : α → β → α} : ∀ {xs : List β} {cur : Nat} (acc : α) {rest : List UInt8},
    (∀ x ∈ xs, ∀ cur acc rest, Ahead bytes cur (enc x ++ rest) →
      ∃ c, step (cur, acc) = .ok (c, f acc x) ∧ Ahead bytes c rest) →
    Ahead bytes cur (xs.flatMap enc ++ rest) →
    ∃ c, iter step xs.length (cur, acc) = .ok (c, xs.foldl f acc) ∧ Ahead bytes c rest
  | [], cur, acc, rest, _, h => ⟨cur, rfl, h⟩
  | x :: xs, cur, acc, rest, hstep, h => by
    rw [List.flatMap_cons, List.append_assoc] at h
    obtain ⟨c, hc, h⟩ := hstep x (List.mem_cons_self ..) cur acc _ h
    obtain ⟨d, hd, h⟩ := iter_entries (f acc x) (fun y hy => hstep y (List.mem_cons_of_mem x hy)) h
    refine ⟨d, ?_, h⟩
    rw [List.length_cons, iter, hc, bind_ok, hd, List.foldl_cons]

theorem foldl_snoc {α β : Type} (g : β → α) (xs : List β) (acc : List α) :
    xs.foldl (fun acc x => acc ++ [g x]) acc = acc ++ xs.map g := by
  induction xs generalizing acc with
  | nil => simp
  | cons x xs ih => simp [ih]

/-- A section of entries: its count and, after that many rounds, all of its entries. -/
theorem read_entries {ε α β : Type} {enc : β → List UInt8} {xs : List β} {step : Nat × α → Rust ε (Nat × α)}
    {f : α → β → α} (hsize : (writeAll enc xs).length < 2 ^ 32) (henc : ∀ x, enc x ≠ []) (e : ε) (acc : α)
    (hstep : ∀ x ∈ xs, ∀ cur acc rest, Ahead (writeAll enc xs) cur (enc x ++ rest) →
      ∃ c, step (cur, acc) = .ok (c, f acc x) ∧ Ahead (writeAll enc xs) c rest) :
    ∃ start c, readU32 (writeAll enc xs) e 0 = .ok (xs.length, start) ∧
      iter step xs.length (start, acc) = .ok (c, xs.foldl f acc) := by
  obtain ⟨start, hstart, h⟩ := Ahead.start.readAll hsize henc e
  obtain ⟨c, hc, _⟩ := iter_entries acc hstep h
  exact ⟨start, c, hstart, hc⟩

theorem writeLeb128U32_ne_nil (val : UInt32) : writeLeb128U32 val ≠ [] := (u32Of val).wf.shape.ne_nil

/-! ## Types and functions -/

theorem length_valTypes (vts : List ValType) : (vts.flatMap fun vt => [vt.byte]).length = vts.length := by
  induction vts with
  | nil => rfl
  | cons vt vts ih =>
    rw [List.flatMap_cons, List.length_append, ih, List.length_singleton, List.length_cons]
    omega

section
variable {bytes rest : List UInt8} {cur : Nat} (hsize : bytes.length < 2 ^ 32)
include hsize

theorem typeSection_step {ft : FuncType} {types : List (Nat × Nat)}
    (h : Ahead bytes cur (emitFuncType ft ++ rest)) :
    ∃ c, parseTypeSection.step bytes (cur, types) = .ok (c, types ++ [(ft.params.length, ft.results.length)]) ∧
      Ahead bytes c rest := by
  rw [emitFuncType, List.cons_append, List.append_assoc] at h
  obtain ⟨c, hc, hp⟩ := h.next.readAll hsize (by simp) InterpError.malformedCode
  obtain ⟨d, hd, hr⟩ := hp.skip.readAll hsize (by simp) InterpError.malformedCode
  have hpa := hp.uadd (ε := InterpError) hsize
  have hra := hr.uadd (ε := InterpError) hsize
  rw [length_valTypes] at hpa hra hd
  refine ⟨_, ?_, hr.skip⟩
  rw [length_valTypes]
  simp only [parseTypeSection.step, show ¬ bytes.length ≤ cur from Nat.not_le_of_lt h.lt, if_false,
    h.uadd_one hsize,
    bind_ok, hc, hpa, hd, hra]

theorem functionSection_step {f : FuncDef} {out : List Nat} (h : Ahead bytes cur (emitFunction f ++ rest)) :
    ∃ c, parseFunctionSection.step bytes (cur, out) = .ok (c, out ++ [f.typeIdx.toNat]) ∧ Ahead bytes c rest := by
  obtain ⟨c, hc, hrest⟩ := h.readU32 hsize InterpError.malformedCode
  refine ⟨c, ?_, hrest⟩
  simp only [parseFunctionSection.step, hc, bind_ok]

end

theorem parseTypeSection_emit {types : List FuncType} (hsize : (writeAll emitFuncType types).length < 2 ^ 32)
    (hmax : types.length ≤ MAX_TYPES) :
    parseTypeSection (writeAll emitFuncType types) =
    .ok (types.map fun ft => (ft.params.length, ft.results.length)) := by
  obtain ⟨start, c, hstart, hc⟩ := read_entries hsize (by simp [emitFuncType]) InterpError.malformedCode []
    fun ft _ cur acc rest => typeSection_step hsize
  simp only [parseTypeSection, hstart, bind_ok, show ¬ MAX_TYPES < types.length by omega, if_false, hc]
  rw [foldl_snoc fun ft : FuncType => (ft.params.length, ft.results.length), List.nil_append]

theorem parseFunctionSection_emit {funcs : List FuncDef} (hsize : (writeAll emitFunction funcs).length < 2 ^ 32)
    (hmax : funcs.length ≤ MAX_FUNCS) :
    parseFunctionSection (writeAll emitFunction funcs) = .ok (funcs.map fun f => f.typeIdx.toNat) := by
  obtain ⟨start, c, hstart, hc⟩ := read_entries hsize (fun f => writeLeb128U32_ne_nil f.typeIdx)
    InterpError.malformedCode [] fun f _ cur acc rest => functionSection_step hsize
  simp only [parseFunctionSection, hstart, bind_ok, show ¬ MAX_FUNCS < funcs.length by omega, if_false, hc]
  rw [foldl_snoc fun f : FuncDef => f.typeIdx.toNat, List.nil_append]

/-! ## Imports -/

section
variable {bytes rest : List UInt8} {cur : Nat} (hsize : bytes.length < 2 ^ 32)
include hsize

theorem importTypes_step {imp : Import} {out : List Nat} (h : Ahead bytes cur (emitImport imp ++ rest)) :
    ∃ c, parseImportFuncTypes.step bytes (cur, out) = .ok (c, out ++ [imp.typeIdx.toNat]) ∧ Ahead bytes c rest := by
  simp only [emitImport, List.append_assoc, List.cons_append] at h
  obtain ⟨c, hc, hm⟩ := h.readBytes hsize InterpError.malformedCode
  obtain ⟨d, hd, hn⟩ := hm.skip.readBytes hsize InterpError.malformedCode
  obtain ⟨k, hk, ht⟩ := hn.skip.next.readU32 hsize InterpError.malformedCode
  refine ⟨k, ?_, ht⟩
  simp only [parseImportFuncTypes.step, hc, bind_ok, hm.uadd hsize, hd, hn.uadd hsize, hn.skip.byte, okOr,
    hn.skip.uadd_one hsize, if_true, hk]

theorem importNames_step {ε : Type} {imp : Import} {names : ImportNames} (hmod : validUtf8 imp.module = true)
    (hname : validUtf8 imp.name = true) (h : Ahead bytes cur (emitImport imp ++ rest)) :
    ∃ c, forEachFuncImport.step (ε := ε) bytes (cur, names) = .ok (c, names ++ [(imp.module, imp.name)]) ∧
      Ahead bytes c rest := by
  simp only [emitImport, List.append_assoc, List.cons_append] at h
  let stop : ε ⊕ Nat × ImportNames := .inr (cur, names)
  obtain ⟨c, hc, hm⟩ := h.readBytes hsize stop
  obtain ⟨d, hd, hn⟩ := hm.skip.readBytes hsize stop
  obtain ⟨k, hk, ht⟩ := hn.skip.next.readU32 hsize stop
  have hmle : ¬ bytes.length < c + imp.module.length := Nat.not_lt_of_le hm.piece_le
  have hnle : ¬ bytes.length < d + imp.name.length := Nat.not_lt_of_le hn.piece_le
  refine ⟨k, ?_, ht⟩
  simp only [stop] at hc hd hk
  simp only [forEachFuncImport.step, hc, bind_ok, hm.uadd hsize, hmle, if_false, hm.take, hmod, hd, hn.uadd hsize,
    hnle, hn.take, hname, hn.skip.byte, okOr, hn.skip.uadd_one hsize, if_true, hk, Bool.true_eq_false]

end

theorem emitImport_ne_nil (imp : Import) : emitImport imp ≠ [] := by simp [emitImport]

theorem parseImportFuncTypes_emit {imports : List Import} (hsize : (writeAll emitImport imports).length < 2 ^ 32) :
    parseImportFuncTypes (writeAll emitImport imports) = .ok (imports.map fun imp => imp.typeIdx.toNat) := by
  obtain ⟨start, c, hstart, hc⟩ := read_entries hsize emitImport_ne_nil InterpError.malformedCode []
    fun imp _ cur acc rest => importTypes_step hsize
  simp only [parseImportFuncTypes, hstart, bind_ok, hc]
  rw [foldl_snoc fun imp : Import => imp.typeIdx.toNat, List.nil_append]

theorem forEachFuncImport_emit {ε : Type} {imports : List Import}
    (hsize : (writeAll emitImport imports).length < 2 ^ 32)
    (hutf8 : ∀ imp ∈ imports, validUtf8 imp.module = true ∧ validUtf8 imp.name = true) :
    forEachFuncImport (ε := ε) (writeAll emitImport imports) =
    .ok (imports.map fun imp => (imp.module, imp.name)) := by
  obtain ⟨start, c, hstart, hc⟩ := read_entries hsize emitImport_ne_nil (.inr (0, []) : ε ⊕ Nat × ImportNames) []
    fun imp hi cur acc rest => importNames_step hsize (hutf8 imp hi).1 (hutf8 imp hi).2
  simp only [forEachFuncImport, hstart, bind_ok, hc, orReturn]
  rw [foldl_snoc fun imp : Import => (imp.module, imp.name), List.nil_append]

/-! ## Code -/

def groupTotal (groups : List (UInt32 × ValType)) : Nat := (groups.map fun g => g.1.toNat).sum

theorem groupTotal_append (gs hs : List (UInt32 × ValType)) :
    groupTotal (gs ++ hs) = groupTotal gs + groupTotal hs := by
  simp [groupTotal]

theorem groupTotal_step (groups : List (UInt32 × ValType)) (l : Local) (hlt : groupTotal groups + 1 < 2 ^ 32) :
    groupTotal (compressLocals.step groups l) = groupTotal groups + 1 := by
  unfold compressLocals.step
  cases hlast : groups.getLast? with
  | none => simp [groupTotal]
  | some g =>
    obtain ⟨count, ty⟩ := g
    have hsplit : groups = groups.dropLast ++ [(count, ty)] := by
      obtain ⟨hne, hg⟩ := List.getLast?_eq_some_iff.mp hlast
      simp [hg]
    have htotal : groupTotal groups = groupTotal groups.dropLast + count.toNat := by
      conv_lhs => rw [hsplit]
      simp [groupTotal]
    have hcount : (count + 1).toNat = count.toNat + 1 := by
      rw [UInt32.toNat_add, show (1 : UInt32).toNat = 1 from rfl]
      exact Nat.mod_eq_of_lt (by omega)
    by_cases hty : ty = l.ty
    · simp only [hty, if_true]
      rw [groupTotal_append, htotal]
      simp only [groupTotal, List.map_cons, List.map_nil, List.sum_cons, List.sum_nil, hcount]
      omega
    · simp [hty, groupTotal]

theorem groupTotal_compressLocals (locals : List Local) (hlt : locals.length < 2 ^ 32) :
    groupTotal (compressLocals locals) = locals.length := by
  suffices ∀ groups, groupTotal groups + locals.length < 2 ^ 32 →
      groupTotal (locals.foldl compressLocals.step groups) = groupTotal groups + locals.length by
    rw [compressLocals, this [] (by simpa [groupTotal] using hlt)]
    simp [groupTotal]
  clear hlt
  induction locals with
  | nil => intro groups _; rfl
  | cons l locals ih =>
    intro groups hlt
    rw [List.length_cons] at hlt
    have hstep := groupTotal_step groups l (by omega)
    rw [List.foldl_cons, ih _ (by omega), hstep, List.length_cons]
    omega

section
variable {entry rest : List UInt8} (hsize : entry.length < 2 ^ 32)
include hsize

theorem locals_step {lc : Nat} (total : Nat) {g : UInt32 × ValType} (htotal : total + g.1.toNat < 2 ^ 64)
    (h : Ahead entry lc (emitGroup g ++ rest)) :
    ∃ c, parseLocals.step entry (lc, total) = .ok (c, total + g.1.toNat) ∧ Ahead entry c rest := by
  have hle := h.piece_le
  have hdrop := h.drop
  rw [emitGroup, List.append_assoc] at hdrop
  rw [emitGroup, List.length_append, List.length_singleton] at hle
  refine ⟨_, ?_, h.skip⟩
  simp only [parseLocals.step, sliceFrom, h.le, if_true, bind_ok, hdrop, readU32_write, okOr]
  rw [uadd_of_lt (by omega), bind_ok, uadd_of_lt (by omega), bind_ok, uadd_of_lt htotal, bind_ok, emitGroup,
    List.length_append, List.length_singleton]

theorem locals_groups {groups : List (UInt32 × ValType)} {lc : Nat} (total : Nat)
    (htotal : total + groupTotal groups < 2 ^ 64) (h : Ahead entry lc (groups.flatMap emitGroup ++ rest)) :
    ∃ c, iter (parseLocals.step entry) groups.length (lc, total) = .ok (c, total + groupTotal groups) ∧
      Ahead entry c rest := by
  induction groups generalizing lc total with
  | nil => exact ⟨lc, rfl, h⟩
  | cons g groups ih =>
    rw [List.flatMap_cons, List.append_assoc] at h
    have hcons : groupTotal (g :: groups) = g.1.toNat + groupTotal groups := by simp [groupTotal]
    obtain ⟨c, hc, h⟩ := locals_step hsize total (by omega) h
    obtain ⟨d, hd, h⟩ := ih (total + g.1.toNat) (by omega) h
    refine ⟨d, ?_, h⟩
    rw [List.length_cons, iter, hc, bind_ok, hd, hcons, Nat.add_assoc]

end

theorem parseCodeEntry_emit {F : FloatOps} {f : FuncDef} (hsize : (emitBody F f).length < 2 ^ 32)
    (hlocals : f.locals.length < 2 ^ 32) :
    parseCodeEntry (emitBody F f) = .ok (f.code F, f.locals.length) := by
  have hstart : Ahead (emitBody F f) 0 (writeAll emitGroup (compressLocals f.locals) ++ f.code F) :=
    ⟨Nat.zero_le _, rfl⟩
  have htotal := groupTotal_compressLocals f.locals hlocals
  obtain ⟨lc, hlc, h⟩ := hstart.readAll hsize (by simp [emitGroup]) InterpError.malformedCode
  obtain ⟨c, hc, h⟩ := locals_groups hsize 0 (by omega) h
  simp only [parseCodeEntry, hlc, bind_ok, hc, show ¬ (emitBody F f).length < c from Nat.not_lt_of_le h.le,
    if_false,
    h.drop, htotal, Nat.zero_add]

theorem codeSection_step {bytes rest : List UInt8} {cur : Nat} {F : FloatOps} {f : FuncDef}
    {bodies : List (List UInt8 × Nat)} (hsize : bytes.length < 2 ^ 32) (hlocals : f.locals.length < 2 ^ 32)
    (h : Ahead bytes cur (emitCode F f ++ rest)) :
    ∃ c, parseCodeSection.step bytes (cur, bodies) = .ok (c, bodies ++ [(f.code F, f.locals.length)]) ∧
      Ahead bytes c rest := by
  obtain ⟨c, hc, h⟩ := h.readBytes hsize InterpError.malformedCode
  have hle := h.piece_le
  refine ⟨_, ?_, h.skip⟩
  simp only [parseCodeSection.step, hc, bind_ok, h.uadd hsize,
    show ¬ bytes.length < c + (emitBody F f).length by omega,
    if_false, h.take, parseCodeEntry_emit (show (emitBody F f).length < 2 ^ 32 by omega) hlocals]

theorem writeBytes_ne_nil (bytes : List UInt8) : writeBytes bytes ≠ [] := by
  have := writeLeb128U32_ne_nil (UInt32.ofNat bytes.length)
  simp [writeBytes, writeLen, this]

theorem parseCodeSection_emit {F : FloatOps} {funcs : List FuncDef}
    (hsize : (writeAll (emitCode F) funcs).length < 2 ^ 32) (hmax : funcs.length ≤ MAX_FUNCS)
    (hlocals : ∀ f ∈ funcs, f.locals.length < 2 ^ 32) :
    parseCodeSection (writeAll (emitCode F) funcs) =
      .ok (funcs.map fun f => (f.code F, f.locals.length)) := by
  obtain ⟨start, c, hstart, hc⟩ := read_entries hsize (fun f => writeBytes_ne_nil (emitBody F f))
    InterpError.malformedCode [] fun f hf cur acc rest => codeSection_step hsize (hlocals f hf)
  simp only [parseCodeSection, hstart, bind_ok, show ¬ MAX_FUNCS < funcs.length by omega, if_false, hc]
  rw [foldl_snoc fun f : FuncDef => (f.code F, f.locals.length), List.nil_append]

/-! ## Memory and data -/

/-- The minimum of the memory, in pages; a module without a memory has none. -/
def Module.minPages (m : Module) : Nat :=
  match m.memories with
  | [] => 0
  | mem :: _ => mem.min.toNat

/-- Zeros, overlaid by the data segments in order. -/
def Module.initialMemory (m : Module) : Nat → UInt8 :=
  m.data.foldl (fun mem seg => blit mem seg.offset.toNat seg.bytes) fun _ => 0

theorem emitMemory_min (mem : Memory) : ∃ flag rest, emitMemory mem = flag :: (writeLeb128U32 mem.min ++ rest) := by
  unfold emitMemory
  cases mem.max with
  | none => exact ⟨0x00, [], by rw [List.append_nil]⟩
  | some max => exact ⟨0x01, writeLeb128U32 max, rfl⟩

theorem readMemoryMinPages_emit {ε : Type} {mem : Memory} {mems : List Memory}
    (hsize : (writeAll emitMemory (mem :: mems)).length < 2 ^ 32) :
    readMemoryMinPages (ε := ε) (writeAll emitMemory (mem :: mems)) = .ok mem.min.toNat := by
  have hne : ∀ mem, emitMemory mem ≠ [] := by
    intro mem hnil
    obtain ⟨flag, rest, h⟩ := emitMemory_min mem
    cases h.symm.trans hnil
  obtain ⟨c, hc, h⟩ := Ahead.start.readAll hsize hne (.inr 0 : ε ⊕ Nat)
  obtain ⟨flag, rest, hmem⟩ := emitMemory_min mem
  rw [List.flatMap_cons, hmem] at h
  simp only [List.cons_append, List.append_assoc] at h
  obtain ⟨d, hd, _⟩ := h.next.readU32 hsize (.inr 0 : ε ⊕ Nat)
  simp only [readMemoryMinPages, hc, bind_ok, List.length_cons, Nat.add_eq_zero_iff, Nat.one_ne_zero, and_false,
    if_false, show ¬ (writeAll emitMemory (mem :: mems)).length ≤ c from Nat.not_le_of_lt h.lt,
    h.uadd_one hsize, hd, orReturn]

theorem i32AsUsize_nonneg {val : BitVec 32} (hval : 0 ≤ val.toInt) : i32AsUsize val = val.toNat := by
  have hmsb : val.msb = false := by
    rw [BitVec.msb_eq_toInt]
    simpa using hval
  have := val.isLt
  rw [i32AsUsize, BitVec.signExtend_eq_setWidth_of_msb_false hmsb, BitVec.toNat_setWidth]
  exact Nat.mod_eq_of_lt (by omega)

section
variable {bytes rest : List UInt8} {cur : Nat} (hsize : bytes.length < 2 ^ 32)
include hsize

theorem Ahead.readI32 {ε : Type} {val : BitVec 32} (hval : 0 ≤ val.toInt)
    (h : Ahead bytes cur (writeLeb128I32 val ++ rest)) (e : ε) :
    ∃ c, readI32 bytes e cur = .ok (val, c) ∧ Ahead bytes c rest := by
  have hread := readI32_nonneg (s32Of val) hval rest
  have hnat : BitVec.ofNat 32 val.toInt.toNat = val := by
    apply BitVec.eq_of_toNat_eq
    have := val.isLt
    rw [BitVec.toNat_ofNat, BitVec.toInt_eq_toNat_cond] at *
    split at hval <;> omega
  refine ⟨_, (readAt_eq_ok readI32Leb128_bounds (fits_of_size hsize)).mpr ⟨h.le, _, ?_, rfl⟩, h.skip⟩
  rw [h.drop]
  exact hread.trans (by rw [show (s32Of val).val = val.toInt from rfl, hnat]; rfl)

theorem segment_offset {seg : DataSeg} (hoff : 0 ≤ seg.offset.toInt)
    (h : Ahead bytes cur (0x41 :: (writeLeb128I32 seg.offset ++ 0x0B :: rest))) :
    ∃ c, parseOffset bytes () cur = .ok (seg.offset, c) ∧ Ahead bytes c rest := by
  obtain ⟨c, hc, h1⟩ := h.next.readI32 hsize hoff ()
  refine ⟨_, ?_, h1.next⟩
  simp only [parseOffset, h.byte, ne_eq, not_true_eq_false, if_false, h.uadd_one hsize, bind_ok, hc, h1.byte,
    h1.uadd_one hsize]

theorem initMemory_step {seg : DataSeg} {memLen : Nat} {mem : Nat → UInt8} (hoff : 0 ≤ seg.offset.toInt)
    (hin : seg.offset.toNat + seg.bytes.length ≤ memLen) (h : Ahead bytes cur (emitSegment seg ++ rest)) :
    ∃ c, initMemory.step bytes memLen (cur, mem) = .ok (c, blit mem seg.offset.toNat seg.bytes) ∧
    Ahead bytes c rest := by
  simp only [emitSegment, List.cons_append, List.append_assoc] at h
  have hkind : Ahead bytes cur (writeLeb128U32 0 ++ _) := h
  obtain ⟨a, ha, h0⟩ := hkind.readU32 hsize ()
  obtain ⟨c, hc, h1⟩ := segment_offset hsize hoff h0
  obtain ⟨d, hd, h2⟩ := h1.readBytes hsize ()
  have hle := h2.piece_le
  have hlt := seg.offset.isLt
  have hend : min (satAdd seg.offset.toNat seg.bytes.length) memLen = seg.offset.toNat + seg.bytes.length := by
    unfold satAdd usizeMax
    omega
  refine ⟨_, ?_, h2.skip⟩
  simp only [initMemory.step, ha, bind_ok, show (0 : UInt32).toNat = 0 from rfl, ne_eq, not_true_eq_false,
    if_false, hc, hd,
    h2.uadd hsize, show ¬ bytes.length < d + seg.bytes.length by omega, i32AsUsize_nonneg hoff, hend]
  rw [usub, if_pos (by omega), bind_ok, Nat.add_sub_cancel_left, h2.take]

end

theorem initMemory_emit {data : List DataSeg} {memLen : Nat} {mem : Nat → UInt8}
    (hsize : (writeAll emitSegment data).length < 2 ^ 32)
    (hin : ∀ seg ∈ data, 0 ≤ seg.offset.toInt ∧ seg.offset.toNat + seg.bytes.length ≤ memLen) :
    initMemory (writeAll emitSegment data) memLen mem =
      .ok (data.foldl (fun mem seg => blit mem seg.offset.toNat seg.bytes) mem) := by
  obtain ⟨start, c, hstart, hc⟩ := read_entries hsize (by simp [emitSegment]) () mem
    fun seg hseg cur acc rest => initMemory_step hsize (hin seg hseg).1 (hin seg hseg).2
  simp only [initMemory, hstart, bind_ok, hc]

/-! ## Exports -/

theorem findExport_loop {bytes rest name : List UInt8} (hsize : bytes.length < 2 ^ 32)
    {exports : List Export} {cur : Nat} (hutf8 : ∀ exp ∈ exports, validUtf8 exp.name = true)
    (h : Ahead bytes cur (exports.flatMap emitExport ++ rest)) :
    findExport.loop bytes name exports.length cur =
      .ok ((exports.find? fun exp => exp.kind = 0 ∧ exp.name = name).map fun exp => exp.index.toNat) := by
  induction exports generalizing cur with
  | nil => rfl
  | cons exp exports ih =>
    simp only [List.flatMap_cons, emitExport, List.append_assoc, List.cons_append] at h
    obtain ⟨c, hc, hn⟩ := h.readBytes hsize (none : Option Nat)
    obtain ⟨d, hd, hrest⟩ := hn.skip.next.readU32 hsize (none : Option Nat)
    have hle : ¬ bytes.length < c + exp.name.length := Nat.not_lt_of_le hn.piece_le
    have hvalid := hutf8 exp (List.mem_cons_self ..)
    have htail := ih (fun e he => hutf8 e (List.mem_cons_of_mem exp he)) hrest
    simp only [List.length_cons, findExport.loop, hc, bind_ok, hn.uadd hsize, hle, if_false, hn.take, hvalid,
      Bool.true_eq_false, hn.skip.byte, okOr, hn.skip.uadd_one hsize, hd, htail, List.find?_cons]
    by_cases hmatch : exp.kind = 0 ∧ exp.name = name
    · simp [hmatch]
    · simp [hmatch]

theorem findExport_emit {ε : Type} {w : WasmOs.Module} {exports : List Export} {name : List UInt8}
    (hsize : (writeAll emitExport exports).length < 2 ^ 32) (hutf8 : ∀ exp ∈ exports, validUtf8 exp.name = true)
    (hw : w.exportSection = some (writeAll emitExport exports)) :
    findExport (ε := ε) w name =
      .ok ((exports.find? fun exp => exp.kind = 0 ∧ exp.name = name).map fun exp => exp.index.toNat) := by
  obtain ⟨start, hstart, h⟩ := Ahead.start.readAll hsize (by simp [emitExport]) (none : Option Nat)
  simp only [findExport, hw, hstart, bind_ok, findExport_loop hsize hutf8 h, mapErr_ok, orReturn]

theorem find_export_of_nodup {exports : List Export} {exp : Export} (hnodup : (exports.map Export.name).Nodup)
    (hmem : exp ∈ exports) (hkind : exp.kind = 0) :
    (exports.find? fun e => e.kind = 0 ∧ e.name = exp.name) = some exp := by
  induction exports with
  | nil => cases hmem
  | cons e exports ih =>
    rw [List.map_cons, List.nodup_cons] at hnodup
    rcases List.mem_cons.mp hmem with rfl | hmem
    · simp [hkind]
    · have hne : e.name ≠ exp.name := fun heq => hnodup.1 (heq ▸ List.mem_map_of_mem hmem)
      rw [List.find?_cons]
      simp only [hne, and_false, decide_false]
      exact ih hnodup.2 hmem

/-! ## Sections -/

def sections (F : FloatOps) (m : Module) : List (UInt8 × List UInt8) :=
  (if !m.types.isEmpty then [(0x01, writeAll emitFuncType m.types)] else []) ++
  ((if !m.imports.isEmpty then [(0x02, writeAll emitImport m.imports)] else []) ++
  ((if !m.funcs.isEmpty then [(0x03, writeAll emitFunction m.funcs)] else []) ++
  ((if !m.memories.isEmpty then [(0x05, writeAll emitMemory m.memories)] else []) ++
  ((if !m.exports.isEmpty then [(0x07, writeAll emitExport m.exports)] else []) ++
  ((if !m.data.isEmpty && !m.memories.isEmpty then [(0x0C, writeLen m.data)] else []) ++
  ((if !m.funcs.isEmpty then [(0x0A, writeAll (emitCode F) m.funcs)] else []) ++
  (if !m.data.isEmpty then [(0x0B, writeAll emitSegment m.data)] else [])))))))

theorem emitModule_eq (F : FloatOps) (m : Module) :
    emitModule F m = (MAGIC ++ VERSION) ++ (sections F m).flatMap fun s => emitSection s.1 s.2 := by
  have hif : ∀ (c : Bool) (s : UInt8 × List UInt8), (if c then [s] else []).flatMap (fun s => emitSection s.1 s.2) =
      if c then emitSection s.1 s.2 else [] := by
    intro c s
    cases c <;> simp
  unfold emitModule sections
  simp only [List.flatMap_append, hif, emitTypeSection, emitImportSection, emitFunctionSection, emitMemorySection,
    emitExportSection, emitDataCountSection, emitCodeSection, emitDataSection, MAGIC, VERSION, List.append_assoc]

def loaded (F : FloatOps) (m : Module) : WasmOs.Module where
  typeSection := if !m.types.isEmpty then some (writeAll emitFuncType m.types) else none
  importSection := if !m.imports.isEmpty then some (writeAll emitImport m.imports) else none
  functionSection := if !m.funcs.isEmpty then some (writeAll emitFunction m.funcs) else none
  memorySection := if !m.memories.isEmpty then some (writeAll emitMemory m.memories) else none
  exportSection := if !m.exports.isEmpty then some (writeAll emitExport m.exports) else none
  codeSection := if !m.funcs.isEmpty then some (writeAll (emitCode F) m.funcs) else none
  dataSection := if !m.data.isEmpty then some (writeAll emitSegment m.data) else none

theorem record_sections (F : FloatOps) (m : Module) :
    (sections F m).foldl (fun w s => w.record s.1 s.2) {} = loaded F m := by
  unfold sections loaded
  cases m.types.isEmpty <;> cases m.imports.isEmpty <;> cases m.funcs.isEmpty <;> cases m.memories.isEmpty <;>
    cases m.exports.isEmpty <;> cases m.data.isEmpty <;> rfl

theorem load_loop_sections {bytes : List UInt8} (hsize : bytes.length < 2 ^ 32) {secs : List (UInt8 × List UInt8)}
    {fuel cur : Nat} {w : WasmOs.Module} (hfuel : secs.length ≤ fuel)
    (h : Ahead bytes cur ((secs.flatMap fun s => emitSection s.1 s.2) ++ [])) :
    load.loop bytes fuel cur w = .ok (secs.foldl (fun w s => w.record s.1 s.2) w) := by
  induction secs generalizing fuel cur w with
  | nil =>
    have hlen := h.length
    rw [List.flatMap_nil, List.append_nil, List.length_nil] at hlen
    cases fuel with
    | zero => rfl
    | succ fuel => rw [load.loop, if_pos (by omega)]; rfl
  | cons s secs ih =>
    cases fuel with
    | zero => cases hfuel
    | succ fuel =>
      rw [List.flatMap_cons, emitSection, List.append_assoc, List.cons_append] at h
      obtain ⟨c, hc, hs⟩ := h.next.readBytes hsize LoadError.invalidLeb128
      have hle := hs.piece_le
      have hindex : (index bytes cur : Rust LoadError UInt8) = .ok s.1 := index_eq_ok.mpr h.byte
      rw [load.loop, if_neg (Nat.not_le_of_lt h.lt), hindex]
      simp only [bind_ok, h.uadd_one hsize, hc, hs.uadd hsize, show ¬ bytes.length < c + s.2.length by omega,
        if_false,
        hs.take]
      rw [ih (by simpa using hfuel) hs.skip, List.foldl_cons]

theorem load_emitModule (F : FloatOps) (m : Module) (hsize : (emitModule F m).length < 2 ^ 32) :
    load (emitModule F m) = .ok (loaded F m) := by
  have heq := emitModule_eq F m
  have hstart : Ahead (emitModule F m) 8 (((sections F m).flatMap fun s => emitSection s.1 s.2) ++ []) := by
    have hheader : Ahead (emitModule F m) 0 ((MAGIC ++ VERSION) ++ (sections F m).flatMap fun s =>
        emitSection s.1 s.2) :=
      ⟨Nat.zero_le _, heq⟩
    rw [List.append_nil]
    exact hheader.skip
  have hfuel : (sections F m).length ≤ (emitModule F m).length := by
    have := length_le_flatMap (fun s : UInt8 × List UInt8 => emitSection s.1 s.2) (by simp [emitSection])
      (sections F m)
    rw [heq, List.length_append]
    omega
  have hle := hstart.le
  have hloop := load_loop_sections hsize hfuel hstart (w := {})
  unfold load
  rw [if_neg (by omega), if_neg, if_neg, hloop, record_sections]
  · rw [heq]; simp [VERSION, MAGIC]
  · rw [heq]; simp [VERSION, MAGIC]

theorem parseIf_some {ε α β : Type} {xs : List β} {sec : List UInt8} {default v : α} {parse : List UInt8 → Rust ε α}
    (hnil : xs = [] → v = default) (hcons : xs ≠ [] → parse sec = .ok v) :
    parseIf (if !xs.isEmpty then some sec else none) default parse = .ok v := by
  cases xs with
  | nil => rw [hnil rfl]; rfl
  | cons x xs => exact hcons (List.cons_ne_nil x xs)

/-! ## The round trip -/

/-- The limits of the loader. The last two are those of the format: the sizes it holds are `u32`. -/
structure WithinLimits (F : FloatOps) (m : Module) : Prop where
  import_utf8 : ∀ imp ∈ m.imports, validUtf8 imp.module = true ∧ validUtf8 imp.name = true
  export_utf8 : ∀ exp ∈ m.exports, validUtf8 exp.name = true
  export_nodup : (m.exports.map Export.name).Nodup
  funcs : m.imports.length + m.funcs.length ≤ MAX_FUNCS
  types : m.types.length ≤ MAX_TYPES
  import_type : ∀ imp ∈ m.imports, imp.typeIdx.toNat < m.types.length
  func_type : ∀ f ∈ m.funcs, f.typeIdx.toNat < m.types.length
  memories : m.memories.length ≤ 1
  data : ∀ seg ∈ m.data, 0 ≤ seg.offset.toInt ∧ seg.offset.toNat + seg.bytes.length ≤ m.minPages * PAGE_SIZE
  size : (emitModule F m).length < 2 ^ 32
  locals : ∀ f ∈ m.funcs, f.locals.length < 2 ^ 32

section
variable {F : FloatOps} {m : Module} (hsize : (emitModule F m).length < 2 ^ 32)
include hsize

theorem section_size {s : UInt8 × List UInt8} (hs : s ∈ sections F m) : s.2.length < 2 ^ 32 := by
  obtain ⟨before, after, hsplit⟩ := List.append_of_mem hs
  rw [emitModule_eq, hsplit] at hsize
  simp only [List.flatMap_append, List.flatMap_cons, List.length_append, emitSection, writeBytes,
    List.length_cons] at hsize
  omega

theorem types_read (htypes : m.types.length ≤ MAX_TYPES) : parseIf (loaded F m).typeSection [] parseTypeSection =
    .ok (m.types.map fun ft => (ft.params.length, ft.results.length)) := by
  refine parseIf_some (fun hnil => by rw [hnil]; rfl) fun hne => ?_
  exact parseTypeSection_emit (section_size hsize (s := (0x01, writeAll emitFuncType m.types))
    (by simp [sections, hne])) htypes

theorem import_names_read {ε : Type} (hutf8 : ∀ imp ∈ m.imports, validUtf8 imp.module = true ∧
      validUtf8 imp.name = true) :
    parseIf (ε := ε) (loaded F m).importSection [] forEachFuncImport =
      .ok (m.imports.map fun imp => (imp.module, imp.name)) := by
  refine parseIf_some (fun hnil => by rw [hnil]; rfl) fun hne => ?_
  exact forEachFuncImport_emit (section_size hsize (s := (0x02, writeAll emitImport m.imports))
    (by simp [sections, hne])) hutf8

theorem import_types_read : parseIf (loaded F m).importSection [] parseImportFuncTypes =
    .ok (m.imports.map fun imp => imp.typeIdx.toNat) := by
  refine parseIf_some (fun hnil => by rw [hnil]; rfl) fun hne => ?_
  exact parseImportFuncTypes_emit (section_size hsize (s := (0x02, writeAll emitImport m.imports))
    (by simp [sections, hne]))

theorem functions_read (hfuncs : m.funcs.length ≤ MAX_FUNCS) :
    parseIf (loaded F m).functionSection [] parseFunctionSection =
    .ok (m.funcs.map fun f => f.typeIdx.toNat) := by
  refine parseIf_some (fun hnil => by rw [hnil]; rfl) fun hne => ?_
  exact parseFunctionSection_emit (section_size hsize (s := (0x03, writeAll emitFunction m.funcs))
    (by simp [sections, hne])) hfuncs

theorem code_read (hfuncs : m.funcs.length ≤ MAX_FUNCS) (hlocals : ∀ f ∈ m.funcs, f.locals.length < 2 ^ 32) :
    parseIf (loaded F m).codeSection [] parseCodeSection =
    .ok (m.funcs.map fun f => (f.code F, f.locals.length)) := by
  refine parseIf_some (fun hnil => by rw [hnil]; rfl) fun hne => ?_
  exact parseCodeSection_emit (section_size hsize (s := (0x0A, writeAll (emitCode F) m.funcs))
    (by simp [sections, hne]))
    hfuncs hlocals

theorem memory_read {ε : Type} :
    parseIf (ε := ε) (loaded F m).memorySection 0 readMemoryMinPages = .ok m.minPages := by
  refine parseIf_some (fun hnil => by rw [Module.minPages, hnil]) fun hne => ?_
  have hs := section_size hsize (s := (0x05, writeAll emitMemory m.memories)) (by simp [sections, hne])
  unfold Module.minPages
  cases hmem : m.memories with
  | nil => exact absurd hmem hne
  | cons mem mems =>
    rw [hmem] at hs
    exact readMemoryMinPages_emit hs

theorem export_found {ε : Type} (hutf8 : ∀ exp ∈ m.exports, validUtf8 exp.name = true)
    (hnodup : (m.exports.map Export.name).Nodup) {exp : Export} (hexp : exp ∈ m.exports) (hkind : exp.kind = 0) :
    findExport (ε := ε) (loaded F m) exp.name = .ok (some exp.index.toNat) := by
  have hne : m.exports ≠ [] := List.ne_nil_of_mem hexp
  have hs := section_size hsize (s := (0x07, writeAll emitExport m.exports)) (by simp [sections, hne])
  rw [findExport_emit hs hutf8 (by simp [loaded, hne]), find_export_of_nodup hnodup hexp hkind]
  rfl

theorem data_read (hdata : ∀ seg ∈ m.data, 0 ≤ seg.offset.toInt ∧
      seg.offset.toNat + seg.bytes.length ≤ m.minPages * PAGE_SIZE)
    {memLen : Nat} (hlen : m.minPages * PAGE_SIZE ≤ memLen) :
    parseIf (loaded F m).dataSection (fun _ => 0) (fun bytes => initMemory bytes memLen fun _ => 0) =
      .ok m.initialMemory := by
  refine parseIf_some (fun hnil => by rw [Module.initialMemory, hnil]; rfl) fun hne => ?_
  have hs := section_size hsize (s := (0x0B, writeAll emitSegment m.data)) (by simp [sections, hne])
  refine initMemory_emit hs fun seg hseg => ?_
  obtain ⟨hoff, hin⟩ := hdata seg hseg
  exact ⟨hoff, by omega⟩

end

theorem assembled_reads_back (F : FloatOps) (m : Module) (hm : WithinLimits F m) :
    ∃ w, load (emitModule F m) = .ok w ∧
      parseIf w.typeSection [] parseTypeSection =
      .ok (m.types.map fun ft => (ft.params.length, ft.results.length)) ∧
      parseIf (ε := InterpError) w.importSection [] forEachFuncImport =
        .ok (m.imports.map fun imp => (imp.module, imp.name)) ∧
      parseIf w.importSection [] parseImportFuncTypes = .ok (m.imports.map fun imp => imp.typeIdx.toNat) ∧
      parseIf w.functionSection [] parseFunctionSection = .ok (m.funcs.map fun f => f.typeIdx.toNat) ∧
      parseIf w.codeSection [] parseCodeSection = .ok (m.funcs.map fun f => (f.code F, f.locals.length)) ∧
      parseIf (ε := InterpError) w.memorySection 0 readMemoryMinPages = .ok m.minPages ∧
      (∀ exp ∈ m.exports, exp.kind = 0 → findExport (ε := InterpError) w exp.name = .ok (some exp.index.toNat)) ∧
      ∀ memLen, m.minPages * PAGE_SIZE ≤ memLen →
        parseIf w.dataSection (fun _ => 0) (fun bytes => initMemory bytes memLen fun _ => 0) =
        .ok m.initialMemory := by
  have hfuncs : m.funcs.length ≤ MAX_FUNCS := Nat.le_trans (Nat.le_add_left _ _) hm.funcs
  exact ⟨loaded F m, load_emitModule F m hm.size, types_read hm.size hm.types,
    import_names_read hm.size hm.import_utf8,
    import_types_read hm.size, functions_read hm.size hfuncs, code_read hm.size hfuncs hm.locals,
    memory_read hm.size,
    fun _ => export_found hm.size hm.export_utf8 hm.export_nodup, fun _ => data_read hm.size hm.data⟩

/-- Print the two bytes of a data segment through an import. -/
def greet : Module where
  types := [⟨[.i32, .i32], []⟩, ⟨[], []⟩]
  imports := [⟨utf8 "env", utf8 "print", 0⟩]
  funcs := [⟨1, [⟨.i32⟩, ⟨.i32⟩, ⟨.f64⟩], [.i32Const 200, .i32Const 2, .call 0]⟩]
  memories := [⟨1, some 2⟩]
  exports := [⟨utf8 "memory", 2, 0⟩, ⟨utf8 "main", 0, 1⟩]
  data := [⟨200, utf8 "hi"⟩]

theorem greet_withinLimits : WithinLimits default greet where
  import_utf8 := by decide
  export_utf8 := by decide
  export_nodup := by decide
  funcs := by decide
  types := by decide
  import_type := by decide
  func_type := by decide
  memories := by decide
  data := by decide
  size := by decide
  locals := by decide

theorem greet_reads_back : ∃ w, load (emitModule default greet) = .ok w ∧
    parseIf w.codeSection [] parseCodeSection = .ok [([0x41, 0xC8, 0x01, 0x41, 0x02, 0x10, 0x00, 0x0B], 3)] ∧
    findExport (ε := InterpError) w (utf8 "main") = .ok (some 1) := by
  obtain ⟨w, hw, _, _, _, _, hcode, _, hexport, _⟩ := assembled_reads_back default greet greet_withinLimits
  exact ⟨w, hw, hcode, hexport ⟨utf8 "main", 0, 1⟩ (by simp [greet]) rfl⟩

end WasmOs.Asm
