import Mathlib.Data.List.Induction
import WasmOs.AsmSound
import WasmOs.EngineTotal

/-!
# The format the loader accepts

A module is the header and a sequence of sections, each an id, a length and as many bytes. `load` accepts
exactly these, keeps the last payload of every known id, and otherwise answers with the first defect.
-/

namespace WasmOs

open Asm (Ahead)

/-! ## Lengths -/

/-- `raw` decodes to `v`, whatever follows. -/
def Spells (raw : List UInt8) (v : Nat) : Prop := ∀ rest, readU32Leb128 (raw ++ rest) = some (v, raw.length)

theorem readU32_loop_split : ∀ {bytes : List UInt8} {r v : BitVec 32} {s i n : Nat},
    readU32Leb128.loop bytes r s i = some (v, n) →
    ∃ raw rest, bytes = raw ++ rest ∧ i + raw.length = n ∧
    ∀ rest', readU32Leb128.loop (raw ++ rest') r s i = some (v, n)
  | [], _, _, _, _, _, h => by cases h
  | b :: bytes, r, v, s, i, n, h => by
    unfold readU32Leb128.loop at h
    by_cases hs : 35 ≤ s
    · rw [if_pos hs] at h
      cases h
    rw [if_neg hs] at h
    by_cases hb : b &&& 0x80 = 0
    · dsimp only at h
      rw [if_pos hb] at h
      cases h
      refine ⟨[b], bytes, rfl, rfl, fun rest' => ?_⟩
      rw [List.singleton_append, readU32Leb128.loop, if_neg hs]
      dsimp only
      rw [if_pos hb]
    · dsimp only at h
      rw [if_neg hb] at h
      obtain ⟨raw, rest, hbytes, hlen, hread⟩ := readU32_loop_split h
      refine ⟨b :: raw, rest, congrArg (b :: ·) hbytes, ?_, fun rest' => ?_⟩
      · rw [List.length_cons]
        omega
      · rw [List.cons_append, readU32Leb128.loop, if_neg hs]
        dsimp only
        rw [if_neg hb]
        exact hread rest'

theorem readU32_split {bytes : List UInt8} {v n : Nat} (h : readU32Leb128 bytes = some (v, n)) :
    ∃ raw rest, bytes = raw ++ rest ∧ raw.length = n ∧ Spells raw v := by
  obtain ⟨p, hp, hv⟩ := Option.map_eq_some_iff.mp h
  cases hv
  obtain ⟨raw, rest, hbytes, hlen, hread⟩ := readU32_loop_split (v := p.1) (n := p.2) hp
  rw [Nat.zero_add] at hlen
  refine ⟨raw, rest, hbytes, hlen, fun rest' => ?_⟩
  rw [readU32Leb128, hread rest', hlen]
  rfl

/-! ## Sections -/

structure Section where
  id : UInt8
  size : List UInt8
  payload : List UInt8
  spells : Spells size payload.length

def Section.bytes (s : Section) : List UInt8 := s.id :: (s.size ++ s.payload)

def sectionBytes (secs : List Section) : List UInt8 := secs.flatMap Section.bytes

def lastPayload (secs : List Section) (id : UInt8) : Option (List UInt8) :=
  (secs.reverse.find? fun s => s.id == id).map Section.payload

/-- The last payload of each known id. -/
def recordedModule (secs : List Section) : Module where
  typeSection := lastPayload secs 1
  importSection := lastPayload secs 2
  functionSection := lastPayload secs 3
  tableSection := lastPayload secs 4
  memorySection := lastPayload secs 5
  globalSection := lastPayload secs 6
  exportSection := lastPayload secs 7
  elementSection := lastPayload secs 9
  codeSection := lastPayload secs 10
  dataSection := lastPayload secs 11

theorem lastPayload_concat (secs : List Section) (s : Section) (id : UInt8) :
    lastPayload (secs ++ [s]) id = if s.id = id then some s.payload else lastPayload secs id := by
  unfold lastPayload
  rw [List.reverse_concat, List.find?_cons]
  by_cases h : s.id = id
  · rw [if_pos h, beq_iff_eq.mpr h]
    rfl
  · rw [if_neg h, beq_eq_false_iff_ne.mpr h]

theorem record_concat (secs : List Section) (s : Section) :
    (recordedModule secs).record s.id s.payload = recordedModule (secs ++ [s]) := by
  unfold Module.record recordedModule
  simp only [lastPayload_concat]
  split
  case h_11 hother =>
    have hne : ∀ k : UInt8, k.toNat ∈ [1, 2, 3, 4, 5, 6, 7, 9, 10, 11] → s.id ≠ k := by
      rintro k hk rfl
      simp only [List.mem_cons, List.not_mem_nil, or_false] at hk
      tauto
    rw [if_neg (hne 1 (by decide)), if_neg (hne 2 (by decide)), if_neg (hne 3 (by decide)),
      if_neg (hne 4 (by decide)),
      if_neg (hne 5 (by decide)), if_neg (hne 6 (by decide)), if_neg (hne 7 (by decide)),
      if_neg (hne 9 (by decide)),
      if_neg (hne 10 (by decide)), if_neg (hne 11 (by decide))]
  all_goals
    rename_i hid
    rw [show s.id = UInt8.ofNat s.id.toNat from UInt8.ofNat_toNat.symm, hid]
    rfl

theorem record_all (secs : List Section) :
    secs.foldl (fun m s => m.record s.id s.payload) {} = recordedModule secs := by
  induction secs using List.reverseRecOn with
  | nil => rfl
  | append_singleton secs s ih => rw [List.foldl_append, ih, List.foldl_cons, List.foldl_nil, record_concat]

/-! ## The section loop -/

/-- What is wrong with the section behind its id. -/
inductive TailDefect (tail : List UInt8) : LoadError → Prop
  | leb (h : readU32Leb128 tail = none) : TailDefect tail .invalidLeb128
  | eof (size n : Nat) (h : readU32Leb128 tail = some (size, n)) (hshort : tail.length < n + size) :
    TailDefect tail .unexpectedEof

theorem sections_or_defect (bytes : List UInt8) : (∃ secs, bytes = sectionBytes secs) ∨
    ∃ secs id tail e, bytes = sectionBytes secs ++ id :: tail ∧ TailDefect tail e := by
  induction h : bytes.length using Nat.strongRecOn generalizing bytes with
  | _ len ih =>
    subst h
    cases bytes with
    | nil => exact .inl ⟨[], rfl⟩
    | cons id tail =>
      cases hread : readU32Leb128 tail with
      | none => exact .inr ⟨[], id, tail, _, rfl, .leb hread⟩
      | some p =>
        obtain ⟨size, n⟩ := p
        by_cases hshort : tail.length < n + size
        · exact .inr ⟨[], id, tail, _, rfl, .eof size n hread hshort⟩
        obtain ⟨raw, rest, rfl, hraw, hspells⟩ := readU32_split hread
        rw [List.length_append] at hshort
        have hsize : (rest.take size).length = size := by
          rw [List.length_take]
          omega
        obtain ⟨s, hs⟩ : ∃ s : Section, s.bytes ++ rest.drop size = id :: (raw ++ rest) := by
          refine ⟨⟨id, raw, rest.take size, by rw [hsize]; exact hspells⟩, ?_⟩
          simp [Section.bytes]
        have hlt : (rest.drop size).length < (id :: (raw ++ rest)).length := by
          simp only [List.length_drop, List.length_cons, List.length_append]
          omega
        obtain ⟨secs, hsecs⟩ | ⟨secs, id', tail', e, hsecs, he⟩ := ih _ hlt (rest.drop size) rfl
        · left
          exact ⟨s :: secs, by rw [← hs, hsecs]; rfl⟩
        · right
          refine ⟨s :: secs, id', tail', e, ?_, he⟩
          rw [← hs, hsecs, ← List.append_assoc]
          rfl

section
variable {bytes rest : List UInt8} {cur : Nat} (hfit : Fits bytes)
include hfit

theorem readU32_ahead {ε : Type} {raw : List UInt8} {v : Nat} (h : Ahead bytes cur (raw ++ rest))
    (hspells : Spells raw v) (e : ε) :
    readU32 bytes e cur = .ok (v, cur + raw.length) := by
  rw [readU32_eq_ok hfit]
  refine ⟨h.le, raw.length, ?_, rfl⟩
  rw [h.drop]
  exact hspells rest

theorem uadd_ahead {ε : Type} {a : List UInt8} (h : Ahead bytes cur (a ++ rest)) :
    (uadd cur a.length : Rust ε Nat) = .ok (cur + a.length) := by
  have hle := h.piece_le
  unfold Fits at hfit
  exact uadd_of_lt (by omega)

theorem load_loop_section (fuel : Nat) (m : Module) {s : Section} (h : Ahead bytes cur (s.bytes ++ rest)) :
    ∃ c, load.loop bytes (fuel + 1) cur m = load.loop bytes fuel c (m.record s.id s.payload) ∧
    Ahead bytes c rest := by
  rw [Section.bytes, List.cons_append, List.append_assoc] at h
  have hindex : (index bytes cur : Rust LoadError UInt8) = .ok s.id := index_eq_ok.mpr h.byte
  have hone : (uadd cur 1 : Rust LoadError Nat) = .ok (cur + 1) :=
    uadd_ahead hfit (show Ahead bytes cur ([s.id] ++ _) from h)
  have hpayload := h.next.skip
  refine ⟨_, ?_, hpayload.skip⟩
  rw [load.loop, if_neg (Nat.not_le_of_lt h.lt), hindex, bind_ok, hone, bind_ok,
    readU32_ahead hfit h.next s.spells, bind_ok]
  dsimp only
  rw [uadd_ahead hfit hpayload, bind_ok, if_neg (Nat.not_lt_of_le hpayload.piece_le), hpayload.take]

theorem load_loop_run {secs : List Section} {fuel : Nat} {m : Module} (hfuel : secs.length ≤ fuel)
    (h : Ahead bytes cur (sectionBytes secs ++ rest)) :
    ∃ c, load.loop bytes fuel cur m =
      load.loop bytes (fuel - secs.length) c (secs.foldl (fun m s => m.record s.id s.payload) m) ∧
      Ahead bytes c rest := by
  induction secs generalizing fuel cur m with
  | nil => exact ⟨cur, rfl, h⟩
  | cons s secs ih =>
    obtain ⟨fuel, rfl⟩ : ∃ k, fuel = k + 1 := ⟨fuel - 1, by rw [List.length_cons] at hfuel; omega⟩
    rw [sectionBytes, List.flatMap_cons, List.append_assoc] at h
    obtain ⟨c, hstep, h⟩ := load_loop_section hfit fuel m h
    obtain ⟨d, hrun, h⟩ := ih (Nat.le_of_succ_le_succ hfuel) h
    refine ⟨d, ?_, h⟩
    rw [hstep, hrun, List.length_cons, Nat.add_sub_add_right, List.foldl_cons]

theorem load_loop_defect {fuel : Nat} {m : Module} {id : UInt8} {tail : List UInt8} {e : LoadError}
    (h : Ahead bytes cur (id :: tail)) (he : TailDefect tail e) :
    load.loop bytes (fuel + 1) cur m = .error (.err e) := by
  have hindex : (index bytes cur : Rust LoadError UInt8) = .ok id := index_eq_ok.mpr h.byte
  have hone : (uadd cur 1 : Rust LoadError Nat) = .ok (cur + 1) :=
    uadd_ahead hfit (show Ahead bytes cur ([id] ++ _) from h)
  have hread := readAt_of_le (e := LoadError.invalidLeb128) (fun h => (readU32Leb128_bounds h).2.2) hfit h.next.le
  rw [h.next.drop] at hread
  rw [load.loop, if_neg (Nat.not_le_of_lt h.lt), hindex, bind_ok, hone, bind_ok, readU32, hread]
  cases he with
  | leb hnone =>
    rw [hnone]
    rfl
  | eof size n hsome hshort =>
    obtain ⟨hv, -, hn⟩ := readU32Leb128_bounds hsome
    have hlen := h.next.length
    have hstop : (uadd (cur + 1 + n) size : Rust LoadError Nat) = .ok (cur + 1 + n + size) := by
      unfold Fits at hfit
      exact uadd_of_lt (by omega)
    rw [hsome, bind_ok]
    dsimp only
    rw [hstop, bind_ok, if_pos (by omega)]

end

/-! ## The loader -/

/-- The first thing wrong with a byte string. -/
def Defect (bytes : List UInt8) : LoadError → Prop
  | .tooShort => bytes.length < 8
  | .badMagic => 8 ≤ bytes.length ∧ bytes.take 4 ≠ MAGIC
  | .badVersion => 8 ≤ bytes.length ∧ bytes.take 4 = MAGIC ∧ (bytes.drop 4).take 4 ≠ VERSION
  | .invalidLeb128 => ∃ secs id tail, bytes = MAGIC ++ VERSION ++ (sectionBytes secs ++ id :: tail) ∧
    readU32Leb128 tail = none
  | .unexpectedEof => ∃ secs id tail size n, bytes = MAGIC ++ VERSION ++ (sectionBytes secs ++ id :: tail) ∧
      readU32Leb128 tail = some (size, n) ∧ tail.length < n + size

theorem length_le_sectionBytes (secs : List Section) : secs.length ≤ (sectionBytes secs).length := by
  induction secs with
  | nil => exact Nat.le_refl 0
  | cons s secs ih =>
    rw [sectionBytes, List.flatMap_cons, List.length_append, List.length_cons, Section.bytes, List.length_cons]
    unfold sectionBytes at ih
    omega

theorem load_header {body : List UInt8} :
    load (MAGIC ++ VERSION ++ body) = load.loop (MAGIC ++ VERSION ++ body)
    (MAGIC ++ VERSION ++ body).length 8 {} := by
  have hlen : ¬ (MAGIC ++ VERSION ++ body).length < 8 := by simp [MAGIC, VERSION]
  unfold load
  rw [if_neg hlen, if_neg (fun h => h rfl), if_neg (fun h => h rfl)]

theorem ahead_header (body : List UInt8) : Ahead (MAGIC ++ VERSION ++ body) 8 body :=
  ⟨by simp [MAGIC, VERSION], rfl⟩

theorem load_accepts {secs : List Section} (hfit : Fits (MAGIC ++ VERSION ++ sectionBytes secs)) :
    load (MAGIC ++ VERSION ++ sectionBytes secs) = .ok (recordedModule secs) := by
  have hfuel : secs.length ≤ (MAGIC ++ VERSION ++ sectionBytes secs).length := by
    have := length_le_sectionBytes secs
    rw [List.length_append]
    omega
  have hahead : Ahead (MAGIC ++ VERSION ++ sectionBytes secs) 8 (sectionBytes secs ++ []) := by
    rw [List.append_nil]
    exact ahead_header _
  obtain ⟨c, hrun, hend⟩ := load_loop_run (m := {}) hfit hfuel hahead
  rw [load_header, hrun, record_all]
  have hstop := hend.length
  cases (MAGIC ++ VERSION ++ sectionBytes secs).length - secs.length with
  | zero => rfl
  | succ k => rw [load.loop, if_pos (by rw [hstop]; exact Nat.le_refl _)]

theorem load_defect {secs : List Section} {id : UInt8} {tail : List UInt8} {e : LoadError}
    (hfit : Fits (MAGIC ++ VERSION ++ (sectionBytes secs ++ id :: tail))) (he : TailDefect tail e) :
    load (MAGIC ++ VERSION ++ (sectionBytes secs ++ id :: tail)) = .error (.err e) := by
  have hlen : secs.length + 1 ≤ (MAGIC ++ VERSION ++ (sectionBytes secs ++ id :: tail)).length := by
    have := length_le_sectionBytes secs
    simp only [List.length_append, List.length_cons]
    omega
  obtain ⟨c, hrun, hend⟩ := load_loop_run (m := {}) hfit (Nat.le_of_succ_le hlen) (ahead_header _)
  obtain ⟨k, hk⟩ : ∃ k, (MAGIC ++ VERSION ++ (sectionBytes secs ++ id :: tail)).length - secs.length = k + 1 :=
    ⟨(MAGIC ++ VERSION ++ (sectionBytes secs ++ id :: tail)).length - secs.length - 1, by omega⟩
  rw [load_header, hrun, hk]
  exact load_loop_defect hfit hend he

theorem load_cases {bytes : List UInt8} (hfit : Fits bytes) :
    (∃ secs, bytes = MAGIC ++ VERSION ++ sectionBytes secs) ∨ ∃ e, load bytes = .error (.err e) ∧
    Defect bytes e := by
  by_cases hshort : bytes.length < 8
  · exact .inr ⟨.tooShort, by rw [load, if_pos hshort], hshort⟩
  by_cases hmagic : bytes.take 4 = MAGIC
  · by_cases hversion : (bytes.drop 4).take 4 = VERSION
    · have hbytes : bytes = MAGIC ++ VERSION ++ bytes.drop 8 := by
        have hdrop : bytes.drop 8 = (bytes.drop 4).drop 4 := by rw [List.drop_drop]
        rw [← hmagic, ← hversion, List.append_assoc, hdrop, List.take_append_drop, List.take_append_drop]
      rw [hbytes] at hfit ⊢
      generalize bytes.drop 8 = body at hfit ⊢
      obtain ⟨secs, rfl⟩ | ⟨secs, id, tail, e, rfl, he⟩ := sections_or_defect body
      · exact .inl ⟨secs, rfl⟩
      · refine .inr ⟨e, load_defect hfit he, ?_⟩
        cases he with
        | leb h => exact ⟨secs, id, tail, rfl, h⟩
        | eof size n h hshort => exact ⟨secs, id, tail, size, n, rfl, h, hshort⟩
    · refine .inr ⟨.badVersion, ?_, by omega, hmagic, hversion⟩
      rw [load, if_neg hshort, if_neg fun h => h hmagic, if_pos hversion]
  · refine .inr ⟨.badMagic, ?_, by omega, hmagic⟩
    rw [load, if_neg hshort, if_pos hmagic]

theorem load_of_defect {bytes : List UInt8} (hfit : Fits bytes) {e : LoadError} (h : Defect bytes e) :
    load bytes = .error (.err e) := by
  cases e with
  | tooShort => rw [load, if_pos (show bytes.length < 8 from h)]
  | badMagic => rw [load, if_neg (Nat.not_lt_of_le h.1), if_pos h.2]
  | badVersion => rw [load, if_neg (Nat.not_lt_of_le h.1), if_neg fun hm => hm h.2.1, if_pos h.2.2]
  | invalidLeb128 =>
    obtain ⟨secs, id, tail, rfl, hread⟩ := h
    exact load_defect hfit (.leb hread)
  | unexpectedEof =>
    obtain ⟨secs, id, tail, size, n, rfl, hread, hshort⟩ := h
    exact load_defect hfit (.eof size n hread hshort)

theorem load_eq_ok_iff {bytes : List UInt8} (hfit : Fits bytes) (m : Module) :
    load bytes = .ok m ↔ ∃ secs, bytes = MAGIC ++ VERSION ++ sectionBytes secs ∧ m = recordedModule secs := by
  constructor
  · intro h
    obtain ⟨secs, rfl⟩ | ⟨e, herr, -⟩ := load_cases hfit
    · rw [load_accepts hfit] at h
      cases h
      exact ⟨secs, rfl, rfl⟩
    · rw [herr] at h
      cases h
  · rintro ⟨secs, rfl, rfl⟩
    exact load_accepts hfit

theorem load_eq_error_iff {bytes : List UInt8} (hfit : Fits bytes) (f : Fault LoadError) :
    load bytes = .error f ↔ ∃ e, f = .err e ∧ Defect bytes e := by
  constructor
  · intro h
    obtain ⟨secs, rfl⟩ | ⟨e, herr, he⟩ := load_cases hfit
    · rw [load_accepts hfit] at h
      cases h
    · rw [herr] at h
      cases h
      exact ⟨e, rfl, he⟩
  · rintro ⟨e, rfl, he⟩
    exact load_of_defect hfit he

/-! ## Exports -/

structure ExportEntry where
  nameLen : List UInt8
  name : List UInt8
  kind : UInt8
  index : List UInt8
  idx : Nat
  nameSpells : Spells nameLen name.length
  utf8 : validUtf8 name = true
  indexSpells : Spells index idx

def ExportEntry.bytes (e : ExportEntry) : List UInt8 := e.nameLen ++ (e.name ++ e.kind :: e.index)

def WellFormedExports (bytes : List UInt8) (exps : List ExportEntry) : Prop :=
  ∃ count, Spells count exps.length ∧ bytes = count ++ exps.flatMap ExportEntry.bytes

section
variable {bytes : List UInt8} (hfit : Fits bytes)
include hfit

theorem findExport_entries {name rest : List UInt8} {exps : List ExportEntry} {cur : Nat}
    (h : Ahead bytes cur (exps.flatMap ExportEntry.bytes ++ rest)) :
    findExport.loop bytes name exps.length cur =
      .ok ((exps.find? fun e => e.kind = 0 ∧ e.name = name).map ExportEntry.idx) := by
  induction exps generalizing cur with
  | nil => rfl
  | cons e exps ih =>
    rw [List.flatMap_cons, ExportEntry.bytes, List.append_assoc, List.append_assoc, List.append_assoc,
      List.cons_append] at h
    have hname := h.skip
    have hkind := hname.skip
    have hone : (uadd (cur + e.nameLen.length + e.name.length) 1 : Rust (Option Nat) Nat) =
        .ok (cur + e.nameLen.length + e.name.length + 1) :=
      uadd_ahead hfit (show Ahead bytes _ ([e.kind] ++ _) from hkind)
    rw [List.length_cons, findExport.loop, readU32_ahead hfit h e.nameSpells, bind_ok]
    dsimp only
    rw [uadd_ahead hfit hname, bind_ok, if_neg (Nat.not_lt_of_le hname.piece_le), hname.take,
      if_neg (by rw [e.utf8]; decide),
      hkind.byte, okOr, bind_ok, hone, bind_ok, readU32_ahead hfit hkind.next e.indexSpells, bind_ok]
    dsimp only
    rw [ih hkind.next.skip, List.find?_cons]
    by_cases hmatch : e.kind = 0 ∧ e.name = name
    · simp [hmatch]
    · simp [hmatch]

theorem total_findExport_loop {name : List UInt8} : ∀ {k cur : Nat}, cur ≤ bytes.length →
    (findExport.loop bytes name k cur).Total := by
  intro k
  induction k with
  | zero =>
    intro cur _
    simp [findExport.loop]
  | succ k ih =>
    intro cur hcur
    have hlen : bytes.length < 2 ^ 63 := hfit
    unfold findExport.loop
    refine total_bind.mpr ⟨(total_readU32 hfit).mpr hcur, fun r hn => ?_⟩
    obtain ⟨nameLen, c⟩ := r
    have hb := readU32_bounds hfit hn
    dsimp only
    rw [uadd_of_lt (by omega), bind_ok]
    split
    · simp
    split
    · simp
    refine total_bind.mpr ⟨by unfold okOr; split <;> simp, fun kind hk => ?_⟩
    have hlt : c + nameLen < bytes.length := by
      cases hb? : bytes[c + nameLen]? with
      | none => rw [hb?] at hk; cases hk
      | some b => exact getElem?_lt hb?
    rw [uadd_of_lt (by omega), bind_ok]
    refine total_bind.mpr ⟨(total_readU32 hfit).mpr hlt, fun r hi => ?_⟩
    obtain ⟨idx, c'⟩ := r
    have hb' := readU32_bounds hfit hi
    dsimp only
    split
    · simp
    · exact ih hb'.2.2

end

theorem findExport_wellFormed {ε : Type} {m : Module} {bytes : List UInt8} {exps : List ExportEntry}
    (hfit : Fits bytes)
    (hm : m.exportSection = some bytes) (h : WellFormedExports bytes exps) (name : List UInt8) :
    findExport (ε := ε) m name = .ok ((exps.find? fun e => e.kind = 0 ∧ e.name = name).map ExportEntry.idx) := by
  obtain ⟨count, hcount, rfl⟩ := h
  have hstart : Ahead (count ++ exps.flatMap ExportEntry.bytes) 0
      (count ++ (exps.flatMap ExportEntry.bytes ++ [])) := by
    rw [List.append_nil]
    exact ⟨Nat.zero_le _, rfl⟩
  unfold findExport
  rw [hm]
  dsimp only
  rw [readU32_ahead hfit hstart hcount, bind_ok]
  dsimp only
  rw [findExport_entries hfit hstart.skip]
  rfl

theorem total_findExport {ε : Type} {m : Module} (hfit : ∀ bytes, m.exportSection = some bytes → Fits bytes)
    (name : List UInt8) :
    (findExport (ε := ε) m name).Total := by
  unfold findExport
  cases hm : m.exportSection with
  | none => simp
  | some bytes =>
    have hfit := hfit bytes hm
    rw [total_orReturn, total_mapErr, total_header hfit]
    intro count start hr
    exact total_findExport_loop hfit (readU32Leb128_bounds hr).2.2

theorem lastPayload_fits {secs : List Section} (hfit : Fits (MAGIC ++ VERSION ++ sectionBytes secs))
    {id : UInt8} {bytes : List UInt8} (h : lastPayload secs id = some bytes) : Fits bytes := by
  obtain ⟨s, hs, rfl⟩ := Option.map_eq_some_iff.mp h
  have hmem : s ∈ secs := List.mem_reverse.mp (List.mem_of_find?_eq_some hs)
  have hle : s.bytes.length ≤ (sectionBytes secs).length := by
    rw [sectionBytes, List.flatMap_def]
    exact (List.sublist_flatten_of_mem (List.mem_map_of_mem hmem)).length_le
  have hpayload : s.payload.length ≤ s.bytes.length := by
    simp only [Section.bytes, List.length_cons, List.length_append]
    omega
  unfold Fits at hfit ⊢
  rw [List.length_append] at hfit
  omega

/-- `load` accepts its format and nothing else, and the parsers of its result stay in range. -/
theorem load_format {bytes : List UInt8} (hfit : Fits bytes) :
    (∀ m, load bytes = .ok m ↔ ∃ secs, bytes = MAGIC ++ VERSION ++ sectionBytes secs ∧ m = recordedModule secs) ∧
    (∀ f, load bytes = .error f ↔ ∃ e, f = .err e ∧ Defect bytes e) ∧
    ∀ m, load bytes = .ok m →
      (∀ name, (findExport (ε := Empty) m name).Total) ∧
      (∀ exports exps, m.exportSection = some exports → WellFormedExports exports exps → ∀ name,
        findExport (ε := Empty) m name =
        .ok ((exps.find? fun e => e.kind = 0 ∧ e.name = name).map ExportEntry.idx)) ∧
      ∀ memory, m.memorySection = some memory → (readMemoryMinPages (ε := Empty) memory).Total := by
  refine ⟨load_eq_ok_iff hfit, load_eq_error_iff hfit, fun m hm => ?_⟩
  obtain ⟨secs, rfl, rfl⟩ := (load_eq_ok_iff hfit m).mp hm
  refine ⟨fun name => total_findExport (fun _ h => lastPayload_fits hfit h) name,
    fun exports exps he hwf name => ?_, fun memory h => ?_⟩
  · exact findExport_wellFormed (lastPayload_fits hfit he) he hwf name
  · exact total_readMemoryMinPages (lastPayload_fits hfit h)

/-- One export, `f`, after an empty custom section. -/
theorem load_format_one : ∃ m, load (MAGIC ++ VERSION ++ [0, 0, 7, 5, 1, 1, 0x66, 0, 2]) = .ok m ∧
    findExport (ε := Empty) m (utf8 "f") = .ok (some 2) := by
  have hspells : ∀ b : UInt8, b ∈ [1, 2] → Spells [b] b.toNat := by
    intro b hb rest
    simp only [List.mem_cons, List.not_mem_nil, or_false] at hb
    obtain rfl | rfl := hb
    · rfl
    · rfl
  have hload : load (MAGIC ++ VERSION ++ [0, 0, 7, 5, 1, 1, 0x66, 0, 2]) =
      .ok { exportSection := some [1, 1, 0x66, 0, 2] } := by
    decide
  have hfit : Fits (MAGIC ++ VERSION ++ [0, 0, 7, 5, 1, 1, 0x66, 0, 2]) := by
    unfold Fits
    decide
  have hfind := ((load_format hfit).2.2 _ hload).2.1 _
    [⟨[1], utf8 "f", 0, [2], 2, hspells 1 (by decide), by decide, hspells 2 (by decide)⟩]
      rfl ⟨[1], hspells 1 (by decide), rfl⟩
  exact ⟨_, hload, hfind (utf8 "f")⟩

end WasmOs
