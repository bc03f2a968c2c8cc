import Mathlib.Data.List.TakeWhile
import WasmOs.FuncIndex

/-!
# Data and element segments

`init_memory` copies a data segment of the short active form and steps over nothing but the kind of any
other one, so that the next segment is read from inside it. `parse_element_section` gives up at the first
segment that has not the short active form.
-/

namespace WasmOs

/-! ## Data segments -/

/-- `active` has kind 0, `activeAt` kind 2 with its memory index, `passive` kind 1. -/
inductive DataSeg where
  | active (offset : Nat) (data : List UInt8)
  | activeAt (offset : Nat) (data : List UInt8)
  | passive (data : List UInt8)

namespace DataSeg

def short : DataSeg → Bool
  | .active _ _ => true
  | _ => false

def apply (mem : Nat → UInt8) : DataSeg → Nat → UInt8
  | .active offset data | .activeAt offset data => blit mem offset data
  | .passive _ => mem

/-- The bytes of the segment lie below `size`. -/
def Inside (size : Nat) : DataSeg → Prop
  | .active offset data | .activeAt offset data => offset + data.length ≤ size
  | .passive _ => True

end DataSeg

def overlay (segs : List DataSeg) (mem : Nat → UInt8) : Nat → UInt8 := segs.foldl DataSeg.apply mem

/-- `i32.const offset end` -/
def OffsetAt (bytes : List UInt8) (cur : Nat) (offset : BitVec 32) (next : Nat) : Prop :=
  bytes[cur]? = some 0x41 ∧ ∃ c, readI32 bytes () (cur + 1) = .ok (offset, c) ∧ bytes[c]? = some 0x0B ∧ next = c + 1

def BytesAt (bytes : List UInt8) (cur : Nat) (data : List UInt8) (next : Nat) : Prop :=
  ∃ len c, readU32 bytes () cur = .ok (len, c) ∧ c + len ≤ bytes.length ∧ data = (bytes.drop c).take len ∧
    next = c + len

def DataAt (bytes : List UInt8) (cur : Nat) : DataSeg → Nat → Prop
  | .active offset data, next => ∃ c o c', readU32 bytes () cur = .ok (0, c) ∧ OffsetAt bytes c o c' ∧
    o.toNat = offset ∧
      BytesAt bytes c' data next
  | .activeAt offset data, next => ∃ c c₀ o c', readU32 bytes () cur = .ok (2, c) ∧
    readU32 bytes () c = .ok (0, c₀) ∧
      OffsetAt bytes c₀ o c' ∧ o.toNat = offset ∧ BytesAt bytes c' data next
  | .passive data, next => ∃ c, readU32 bytes () cur = .ok (1, c) ∧ BytesAt bytes c data next

/-- The segments from `cur` on, up to `last`. -/
inductive DatasAt (bytes : List UInt8) : Nat → List DataSeg → Nat → Prop
  | nil {cur : Nat} : DatasAt bytes cur [] cur
  | cons {cur next last : Nat} {seg : DataSeg} {segs : List DataSeg} : DataAt bytes cur seg next →
    DatasAt bytes next segs last →
      DatasAt bytes cur (seg :: segs) last

section
variable {bytes : List UInt8} (hfit : Fits bytes)

theorem DatasAt.append : ∀ {segs segs' : List DataSeg} {cur p last : Nat}, DatasAt bytes cur segs p →
    DatasAt bytes p segs' last →
    DatasAt bytes cur (segs ++ segs') last
  | [], _, _, _, _, .nil, h' => h'
  | _ :: _, _, _, _, _, .cons h hs, h' => .cons h (DatasAt.append hs h')

theorem DatasAt.split : ∀ {segs segs' : List DataSeg} {cur last : Nat}, DatasAt bytes cur (segs ++ segs') last →
    ∃ p, DatasAt bytes cur segs p ∧ DatasAt bytes p segs' last
  | [], _, cur, _, h => ⟨cur, .nil, h⟩
  | _ :: _, _, _, _, .cons h hs => by
    obtain ⟨p, hp, hrest⟩ := DatasAt.split hs
    exact ⟨p, .cons h hp, hrest⟩

include hfit

theorem parseOffset_of_offsetAt {cur next : Nat} {offset : BitVec 32} (h : OffsetAt bytes cur offset next) :
    parseOffset bytes () cur = .ok (offset, next) := by
  have hlen : bytes.length < 2 ^ 63 := hfit
  obtain ⟨hop, c, hread, hend, rfl⟩ := h
  have hlt := getElem?_lt hop
  have hlt' := getElem?_lt hend
  rw [parseOffset, if_neg (fun h => h hop), uadd_of_lt (by omega), bind_ok, hread, bind_ok]
  simp only
  rw [if_neg (fun h => h hend), uadd_of_lt (by omega), bind_ok]

omit hfit in
theorem i32AsUsize_of_lt {o : BitVec 32} (h : o.toNat < 2 ^ 31) : i32AsUsize o = o.toNat := by
  have hmsb : o.msb = false := by
    rw [BitVec.msb_eq_decide]
    simp
    omega
  rw [i32AsUsize, BitVec.signExtend_eq_setWidth_of_msb_false hmsb, BitVec.toNat_setWidth]
  omega

theorem initMemory_short {memLen cur next offset : Nat} {data : List UInt8} {mem : Nat → UInt8}
    (hmem : memLen < 2 ^ 31)
    (h : DataAt bytes cur (.active offset data) next) (hin : offset + data.length ≤ memLen) :
    initMemory.step bytes memLen (cur, mem) = .ok (next, blit mem offset data) := by
  have hlen : bytes.length < 2 ^ 63 := hfit
  obtain ⟨c, o, c', hkind, hoff, rfl, len, start, hcount, hle, hdata, rfl⟩ := h
  have hdlen : data.length = len := by
    rw [hdata, List.length_take, List.length_drop]
    omega
  simp only [initMemory.step]
  rw [hkind, bind_ok]
  simp only
  rw [if_neg (fun h => h rfl), parseOffset_of_offsetAt hfit hoff, bind_ok]
  simp only
  rw [hcount, bind_ok]
  simp only
  rw [uadd_of_lt (by omega), bind_ok, if_neg (by omega), i32AsUsize_of_lt (by omega)]
  have hend : min (satAdd o.toNat len) memLen = o.toNat + len := by
    unfold satAdd usizeMax
    omega
  rw [hend, usub, if_pos (by omega), bind_ok, Nat.add_sub_cancel_left, hdata]

/-- Of a segment of another form only the kind is read. -/
theorem initMemory_other (memLen : Nat) (mem : Nat → UInt8) {cur next : Nat} {seg : DataSeg}
    (h : DataAt bytes cur seg next)
    (hseg : seg.short = false) : ∃ c, initMemory.step bytes memLen (cur, mem) = .ok (c, mem) ∧ c < next := by
  cases seg with
  | active offset data => cases hseg
  | activeAt offset data =>
    obtain ⟨c, c₀, o, c', hkind, hidx, hoff, _, len, start, hcount, _, _, rfl⟩ := h
    obtain ⟨_, c₁, hread, hend, rfl⟩ := hoff
    obtain ⟨_, n, _, rfl⟩ := (readAt_eq_ok (fun h => readI32Leb128_bounds h) hfit).mp hread
    have := readU32_bounds hfit hidx
    have := readU32_bounds hfit hcount
    refine ⟨c, ?_, by omega⟩
    simp only [initMemory.step]
    rw [hkind, bind_ok]
    rfl
  | passive data =>
    obtain ⟨c, hkind, len, start, hcount, _, _, rfl⟩ := h
    have := readU32_bounds hfit hcount
    refine ⟨c, ?_, by omega⟩
    simp only [initMemory.step]
    rw [hkind, bind_ok]
    rfl

theorem initMemory_shorts {memLen : Nat} (hmem : memLen < 2 ^ 31) :
    ∀ {segs : List DataSeg} {cur last : Nat} (mem : Nat → UInt8),
    DatasAt bytes cur segs last → (∀ seg ∈ segs, seg.short = true) → (∀ seg ∈ segs, seg.Inside memLen) →
    iter (initMemory.step bytes memLen) segs.length (cur, mem) = .ok (last, overlay segs mem) := by
  intro segs
  induction segs with
  | nil =>
    intro cur last mem h _ _
    cases h
    rfl
  | cons seg segs ih =>
    intro cur last mem hat hshort hin
    cases hat with
    | cons h hs =>
      cases seg with
      | active offset data =>
        rw [List.length_cons, iter, initMemory_short hfit hmem h (hin _ List.mem_cons_self), bind_ok]
        exact ih _ hs (fun seg hseg => hshort seg (List.mem_cons_of_mem _ hseg)) fun seg hseg =>
          hin seg (List.mem_cons_of_mem _ hseg)
      | activeAt offset data => cases hshort _ List.mem_cons_self
      | passive data => cases hshort _ List.mem_cons_self

end

theorem iter_add {ε α : Type} (step : α → Rust ε α) (n : Nat) :
    ∀ (k : Nat) (s : α), iter step (k + n) s = iter step k s >>= iter step n
  | 0, s => by rw [Nat.zero_add, iter, bind_ok]
  | k + 1, s => by
    rw [Nat.add_right_comm, iter, iter]
    cases step s with
    | error e => rfl
    | ok s' => exact iter_add step n k s'

theorem iter_snoc {ε α : Type} (step : α → Rust ε α) (k : Nat) (s : α) :
    iter step (k + 1) s = iter step k s >>= step := by
  have hone : iter step 1 = step := by
    funext s
    rw [iter]
    cases step s <;> rfl
  rw [iter_add, hone]

theorem overlay_snoc (segs : List DataSeg) (seg : DataSeg) (mem : Nat → UInt8) :
    overlay (segs ++ [seg]) mem = seg.apply (overlay segs mem) := by
  simp [overlay]

/-- The walk over the segments of a data section reads each of them where it stands, and the memory is what
they make of it. -/
structure Walked (bytes : List UInt8) (memLen start : Nat) (segs : List DataSeg) (mem mem' : Nat → UInt8) :
    Prop where
  inStep : ∀ k p, k < segs.length → DatasAt bytes start (segs.take k) p →
    iter (initMemory.step bytes memLen) k (start, mem) = .ok (p, overlay (segs.take k) mem)
  memory : mem' = overlay segs mem

/-- Each segment but the last has the short form, and the last one, if it has not, changes nothing. -/
def ShortButLast (segs : List DataSeg) (mem : Nat → UInt8) : Prop :=
  ∀ before seg after, segs = before ++ seg :: after → seg.short = false →
    after = [] ∧ seg.apply (overlay before mem) = overlay before mem

/-- Where only the last one may have another form, those before any other are short. -/
theorem short_of_last {α : Type} {short : α → Bool} {segs : List α} {k : Nat} (hk : k < segs.length)
    (hlast : ∀ before seg after, segs = before ++ seg :: after → short seg = false → after = []) :
    ∀ seg ∈ segs.take k, short seg = true := by
  intro seg hmem
  obtain ⟨before, after, hsplit⟩ := List.append_of_mem hmem
  by_contra hno
  have heq : segs = before ++ seg :: (after ++ segs.drop k) := by
    have hjoin := List.take_append_drop k segs
    rw [hsplit, List.append_assoc, List.cons_append] at hjoin
    exact hjoin.symm
  have hnil := hlast before seg _ heq (by simpa using hno)
  rw [List.append_eq_nil_iff, List.drop_eq_nil_iff] at hnil
  omega

theorem walked_iff {bytes : List UInt8} {memLen start last : Nat} {segs : List DataSeg}
    {mem mem' : Nat → UInt8} (hfit : Fits bytes)
    (hmem : memLen < 2 ^ 31) (hsegs : DatasAt bytes start segs last) (hin : ∀ seg ∈ segs, seg.Inside memLen)
    (hwalk : ∃ cur, iter (initMemory.step bytes memLen) segs.length (start, mem) = .ok (cur, mem')) :
    Walked bytes memLen start segs mem mem' ↔ ShortButLast segs mem := by
  obtain ⟨cur, hwalk⟩ := hwalk
  constructor
  · intro h before seg after heq hseg
    subst heq
    obtain ⟨p, hbefore, hrest⟩ := hsegs.split
    cases hrest with
    | @cons _ next _ _ _ hat hafter =>
      have htake : (before ++ seg :: after).take before.length = before := by simp
      have hstep := h.inStep before.length p (by simp) (by rwa [htake])
      rw [htake] at hstep
      obtain ⟨c, hother, hlt⟩ := initMemory_other hfit memLen (overlay before mem) hat hseg
      cases after with
      | nil =>
        refine ⟨rfl, ?_⟩
        rw [List.length_append, List.length_singleton, iter_snoc, hstep, bind_ok, hother] at hwalk
        cases hwalk
        rw [← overlay_snoc]
        exact h.memory.symm
      | cons seg' after =>
        have htake' : (before ++ seg :: seg' :: after).take (before.length + 1) = before ++ [seg] :=
          List.take_length_add_append 1
        have hstep' :=
          h.inStep (before.length + 1) next (by simp) (by rw [htake']; exact hbefore.append (.cons hat .nil))
        rw [iter_snoc, hstep, bind_ok, hother] at hstep'
        have hnext : c = next := congrArg Prod.fst (Except.ok.inj hstep')
        exact absurd hlt (by omega)
  · intro hcond
    have hstep : ∀ k p, k < segs.length → DatasAt bytes start (segs.take k) p →
        iter (initMemory.step bytes memLen) k (start, mem) = .ok (p, overlay (segs.take k) mem) := by
      intro k p hk hp
      have hlen : (segs.take k).length = k := by rw [List.length_take]; omega
      have hsub : ∀ seg ∈ segs.take k, seg.short = true :=
        short_of_last hk fun before seg after heq hseg => (hcond before seg after heq hseg).1
      have hiter := initMemory_shorts hfit hmem mem hp hsub fun seg hmem => hin seg (List.mem_of_mem_take hmem)
      rwa [hlen] at hiter
    refine ⟨hstep, ?_⟩
    by_cases hne : segs = []
    · subst hne
      cases hwalk
      rfl
    obtain ⟨before, seg, rfl⟩ : ∃ before seg, segs = before ++ [seg] :=
      ⟨_, _, (List.dropLast_concat_getLast hne).symm⟩
    obtain ⟨p, hbefore, hat⟩ := hsegs.split
    have htake : (before ++ [seg]).take before.length = before := by simp
    have hprev := hstep before.length p (by simp) (by rwa [htake])
    rw [htake] at hprev
    rw [List.length_append, List.length_singleton, iter_snoc, hprev, bind_ok] at hwalk
    cases hat with
    | cons hat hnil =>
      cases hnil
      by_cases hseg : seg.short = true
      · cases seg with
        | active offset data =>
          have hoffset : offset + data.length ≤ memLen := hin (.active offset data) (by simp)
          rw [initMemory_short hfit hmem hat hoffset] at hwalk
          cases hwalk
          rw [overlay_snoc]
          rfl
        | activeAt _ _ => cases hseg
        | passive _ => cases hseg
      · have hseg : seg.short = false := by simpa using hseg
        obtain ⟨c, hother, _⟩ := initMemory_other hfit memLen (overlay before mem) hat hseg
        rw [hother] at hwalk
        cases hwalk
        rw [overlay_snoc, (hcond before seg [] rfl hseg).2]

/-! ## Element segments -/

/-- `active` has kind 0, `activeOther` kind 2, 4 or 6, `inactive` is passive or declarative. A null reference
is `NULL_FUNC`. -/
inductive ElemSeg where
  | active (offset : Nat) (funcs : List Nat)
  | activeOther (offset : Nat) (refs : List Nat)
  | inactive

namespace ElemSeg

def short : ElemSeg → Bool
  | .active _ _ => true
  | _ => false

def apply (table : Nat → Nat) : ElemSeg → Nat → Nat
  | .active offset refs | .activeOther offset refs => blit table offset refs
  | .inactive => table

def Inside (size : Nat) : ElemSeg → Prop
  | .active offset refs | .activeOther offset refs => offset + refs.length ≤ size
  | .inactive => True

end ElemSeg

def overlayElems (segs : List ElemSeg) (table : Nat → Nat) : Nat → Nat := segs.foldl ElemSeg.apply table

def FuncAt (bytes : List UInt8) (cur f next : Nat) : Prop := readU32 bytes () cur = .ok (f, next)

/-- `ref.func f end` or `ref.null func end` -/
def RefAt (bytes : List UInt8) (cur r next : Nat) : Prop :=
  (bytes[cur]? = some 0xD2 ∧ ∃ c, readU32 bytes () (cur + 1) = .ok (r, c) ∧ bytes[c]? = some 0x0B ∧ next = c + 1) ∨
    bytes[cur]? = some 0xD0 ∧ bytes[cur + 1]? = some 0x70 ∧ bytes[cur + 2]? = some 0x0B ∧ r = NULL_FUNC ∧
    next = cur + 3

inductive ItemsAt (item : Nat → Nat → Nat → Prop) : Nat → List Nat → Nat → Prop
  | nil {cur : Nat} : ItemsAt item cur [] cur
  | cons {cur next last r : Nat} {rs : List Nat} : item cur r next → ItemsAt item next rs last →
    ItemsAt item cur (r :: rs) last

def VecAt (bytes : List UInt8) (item : Nat → Nat → Nat → Prop) (cur : Nat) (rs : List Nat) (next : Nat) : Prop :=
  ∃ c, readU32 bytes () cur = .ok (rs.length, c) ∧ ItemsAt item c rs next

def ElemAt (bytes : List UInt8) (cur : Nat) : ElemSeg → Nat → Prop
  | .active offset funcs, next => ∃ c o c', readU32 bytes () cur = .ok (0, c) ∧ OffsetAt bytes c o c' ∧
    o.toNat = offset ∧
      VecAt bytes (FuncAt bytes) c' funcs next
  | .activeOther offset refs, next =>
      (∃ c c₀ o c', readU32 bytes () cur = .ok (2, c) ∧ readU32 bytes () c = .ok (0, c₀) ∧
        OffsetAt bytes c₀ o c' ∧ o.toNat = offset ∧
        bytes[c']? = some 0x00 ∧ VecAt bytes (FuncAt bytes) (c' + 1) refs next) ∨
      (∃ c o c', readU32 bytes () cur = .ok (4, c) ∧ OffsetAt bytes c o c' ∧ o.toNat = offset ∧
        VecAt bytes (RefAt bytes) c' refs next) ∨
      (∃ c c₀ o c', readU32 bytes () cur = .ok (6, c) ∧ readU32 bytes () c = .ok (0, c₀) ∧
      OffsetAt bytes c₀ o c' ∧ o.toNat = offset ∧
        bytes[c']? = some 0x70 ∧ VecAt bytes (RefAt bytes) (c' + 1) refs next)
  | .inactive, next =>
      (∃ kind c refs, readU32 bytes () cur = .ok (kind, c) ∧ (kind = 1 ∨ kind = 3) ∧ bytes[c]? = some 0x00 ∧
        VecAt bytes (FuncAt bytes) (c + 1) refs next) ∨
      (∃ kind c refs, readU32 bytes () cur = .ok (kind, c) ∧ (kind = 5 ∨ kind = 7) ∧ bytes[c]? = some 0x70 ∧
        VecAt bytes (RefAt bytes) (c + 1) refs next)

inductive ElemsAt (bytes : List UInt8) : Nat → List ElemSeg → Nat → Prop
  | nil {cur : Nat} : ElemsAt bytes cur [] cur
  | cons {cur next last : Nat} {seg : ElemSeg} {segs : List ElemSeg} : ElemAt bytes cur seg next →
    ElemsAt bytes next segs last →
      ElemsAt bytes cur (seg :: segs) last

theorem ElemsAt.append : ∀ {segs segs' : List ElemSeg} {cur p last : Nat}, ElemsAt bytes cur segs p →
    ElemsAt bytes p segs' last →
    ElemsAt bytes cur (segs ++ segs') last
  | [], _, _, _, _, .nil, h' => h'
  | _ :: _, _, _, _, _, .cons h hs, h' => .cons h (ElemsAt.append hs h')

theorem ElemsAt.split : ∀ {segs segs' : List ElemSeg} {cur last : Nat}, ElemsAt bytes cur (segs ++ segs') last →
    ∃ p, ElemsAt bytes cur segs p ∧ ElemsAt bytes p segs' last
  | [], _, cur, _, h => ⟨cur, .nil, h⟩
  | _ :: _, _, _, _, .cons h hs => by
    obtain ⟨p, hp, hrest⟩ := ElemsAt.split hs
    exact ⟨p, .cons h hp, hrest⟩

theorem blit_cons {α : Type} (a : Nat → α) (i : Nat) (v : α) (vs : List α) :
    blit a i (v :: vs) = blit (upd a i v) (i + 1) vs := by
  funext k
  simp only [blit, upd]
  by_cases hlo : i + 1 ≤ k
  · rw [if_pos (by omega), if_pos hlo, if_neg (by omega), show k - i = (k - (i + 1)) + 1 by omega,
      List.getElem?_cons_succ]
  · rw [if_neg hlo]
    by_cases heq : k = i
    · subst heq
      simp
    · rw [if_neg (by omega), if_neg heq]

def Table.Filled (t : Table) : Prop := ∀ i, t.size ≤ i → t.entry i = NULL_FUNC

theorem Table.Filled.put {t : Table} (h : t.Filled) {ti f : Nat} (hti : ti < MAX_TABLE) :
    (t.put ti f).Filled ∧ (t.put ti f).entry = upd t.entry ti f := by
  rw [Table.put, if_pos hti]
  refine ⟨fun i hi => ?_, rfl⟩
  simp only at hi ⊢
  rw [upd_of_ne _ _ (by omega)]
  exact h i (by omega)

section
variable {bytes : List UInt8} (hfit : Fits bytes)
include hfit

omit hfit in
theorem parseElements_iter {ε : Type} (e : ε) {base : Nat} :
    ∀ {fs : List Nat} {cur last j : Nat} {t : Table}, t.Filled →
    ItemsAt (FuncAt bytes) cur fs last → base + j + fs.length ≤ MAX_TABLE →
    ∃ t', iter (parseElements.step bytes e base) fs.length (cur, j, t) = .ok (last, j + fs.length, t') ∧ t'.Filled ∧
      t'.entry = blit t.entry (base + j) fs
  | [], cur, _, j, t, ht, .nil, _ => ⟨t, rfl, ht, by funext k; simp [blit]⟩
  | f :: fs, cur, last, j, t, ht, h, hmax => by
    have hlt : MAX_TABLE < 2 ^ 63 := by decide
    rw [List.length_cons] at hmax
    cases h with
    | cons hf hfs =>
      rename_i next
      obtain ⟨hput, hentry⟩ := ht.put (f := f) (show base + j < MAX_TABLE by omega)
      obtain ⟨t', hiter, hfilled, hblit⟩ :=
        parseElements_iter e hput hfs (show base + (j + 1) + fs.length ≤ MAX_TABLE by omega)
      refine ⟨t', ?_, hfilled, ?_⟩
      · have hread : readU32 bytes e cur = .ok (f, next) := by
          rw [readU32_err _, show readU32 bytes () cur = .ok (f, next) from hf]
          rfl
        rw [List.length_cons, iter]
        simp only [parseElements.step]
        rw [hread, bind_ok]
        simp only
        rw [uadd_of_lt (by omega), bind_ok, bind_ok, hiter, Nat.add_assoc, Nat.add_comm 1]
      · rw [hblit, hentry, blit_cons, Nat.add_assoc]

theorem parseElement_short {cur next offset : Nat} {funcs : List Nat} {t : Table} (ht : t.Filled)
    (h : ElemAt bytes cur (.active offset funcs) next) (hin : offset + funcs.length ≤ MAX_TABLE) :
    ∃ t', parseElementSection.step bytes (cur, t) = .ok (next, t') ∧ t'.Filled ∧
    t'.entry = blit t.entry offset funcs := by
  have hlt : MAX_TABLE < 2 ^ 31 := by decide
  obtain ⟨c, o, c', hkind, hoff, rfl, start, hcount, hitems⟩ := h
  let e : InterpError ⊕ Nat × Table := .inl .malformedCode
  obtain ⟨t', hiter, hfilled, hblit⟩ :=
    parseElements_iter e ht hitems (show o.toNat + 0 + funcs.length ≤ MAX_TABLE by omega)
  refine ⟨t', ?_, hfilled, hblit⟩
  have hkind' : readU32 bytes e cur = .ok (0, c) := by
    rw [readU32_err _, hkind]
    rfl
  have hoff' : parseOffset bytes e c = .ok (o, c') := by
    rw [parseOffset_err _, parseOffset_of_offsetAt hfit hoff]
    rfl
  have hcount' : readU32 bytes e c' = .ok (funcs.length, start) := by
    rw [readU32_err _, hcount]
    rfl
  simp only [e] at hkind' hoff' hcount' hiter
  simp only [parseElementSection.step]
  rw [hkind', bind_ok]
  simp only
  rw [if_neg (fun h => h rfl), hoff', bind_ok]
  simp only
  rw [hcount', bind_ok]
  simp only
  rw [i32AsUsize_of_lt (by omega), hiter, bind_ok]

omit hfit in
/-- The walk ends at a segment of another form. -/
theorem parseElement_other {cur next : Nat} {seg : ElemSeg} {t : Table} (h : ElemAt bytes cur seg next)
    (hseg : seg.short = false) :
    ∃ c, parseElementSection.step bytes (cur, t) = .error (.err (.inr (c, t))) := by
  obtain ⟨kind, c, hkind, hne⟩ : ∃ kind c, readU32 bytes () cur = .ok (kind, c) ∧ kind ≠ 0 := by
    cases seg with
    | active offset funcs => cases hseg
    | activeOther offset refs =>
      rcases h with ⟨c, _, _, _, hkind, _⟩ | ⟨c, _, _, hkind, _⟩ | ⟨c, _, _, _, hkind, _⟩
      · exact ⟨2, c, hkind, by decide⟩
      · exact ⟨4, c, hkind, by decide⟩
      · exact ⟨6, c, hkind, by decide⟩
    | inactive =>
      rcases h with ⟨kind, c, _, hkind, hor, _⟩ | ⟨kind, c, _, hkind, hor, _⟩
      · exact ⟨kind, c, hkind, by omega⟩
      · exact ⟨kind, c, hkind, by omega⟩
  refine ⟨c, ?_⟩
  have hkind' : readU32 bytes (.inl .malformedCode : InterpError ⊕ Nat × Table) cur = .ok (kind, c) := by
    rw [readU32_err _, hkind]
    rfl
  simp only [parseElementSection.step]
  rw [hkind', bind_ok]
  simp only
  rw [if_pos hne]

theorem parseElements_allShort : ∀ {segs : List ElemSeg} {cur last : Nat} {t : Table}, t.Filled →
    ElemsAt bytes cur segs last →
    (∀ seg ∈ segs, seg.short = true) → (∀ seg ∈ segs, seg.Inside MAX_TABLE) →
    ∃ t', iter (parseElementSection.step bytes) segs.length (cur, t) = .ok (last, t') ∧ t'.Filled ∧
    t'.entry = overlayElems segs t.entry := by
  intro segs
  induction segs with
  | nil =>
    intro cur last t ht hat _ _
    cases hat
    exact ⟨t, rfl, ht, rfl⟩
  | cons seg segs ih =>
    intro cur last t ht hat hshort hin
    cases hat with
    | cons h hs =>
      cases seg with
      | active offset funcs =>
        obtain ⟨t₁, hstep, hfilled, hentry⟩ := parseElement_short hfit ht h (hin _ List.mem_cons_self)
        obtain ⟨t', hiter, hfilled', hentry'⟩ :=
          ih hfilled hs (fun seg hseg => hshort seg (List.mem_cons_of_mem _ hseg)) fun seg hseg =>
          hin seg (List.mem_cons_of_mem _ hseg)
        refine ⟨t', ?_, hfilled', ?_⟩
        · rw [List.length_cons, iter, hstep, bind_ok, hiter]
        · rw [hentry', hentry]
          rfl
      | activeOther _ _ => cases hshort _ List.mem_cons_self
      | inactive => cases hshort _ List.mem_cons_self

/-- The table of the segments up to the first one that has another form. -/
theorem parseElements_shorts {segs : List ElemSeg} {cur last : Nat} {t : Table} (ht : t.Filled)
    (hat : ElemsAt bytes cur segs last) (hin : ∀ seg ∈ segs, seg.Inside MAX_TABLE) :
    ∃ c t', orReturn (iter (parseElementSection.step bytes) segs.length (cur, t)) = .ok (c, t') ∧ t'.Filled ∧
      t'.entry = overlayElems (segs.takeWhile ElemSeg.short) t.entry := by
  have hsplit := List.takeWhile_append_dropWhile (p := ElemSeg.short) (l := segs)
  have hshort : ∀ seg ∈ segs.takeWhile ElemSeg.short, seg.short = true :=
    fun seg hseg => List.mem_takeWhile_imp hseg
  have hinside : ∀ seg ∈ segs.takeWhile ElemSeg.short, seg.Inside MAX_TABLE :=
    fun seg hseg => hin seg (List.takeWhile_subset _ hseg)
  rw [← hsplit] at hat
  obtain ⟨p, hfirst, hrest⟩ := hat.split
  obtain ⟨t', hiter, hfilled, hentry⟩ := parseElements_allShort hfit ht hfirst hshort hinside
  have hlen := congrArg List.length hsplit
  rw [List.length_append] at hlen
  rw [← hlen, iter_add, hiter, bind_ok]
  cases hdrop : segs.dropWhile ElemSeg.short with
  | nil => exact ⟨p, t', rfl, hfilled, hentry⟩
  | cons seg after =>
    rw [hdrop] at hrest
    have hseg : seg.short = false := by
      have hhead := List.head_dropWhile_not ElemSeg.short (l := segs) (by rw [hdrop]; exact List.cons_ne_nil _ _)
      simpa only [hdrop, List.head_cons] using hhead
    cases hrest with
    | cons hat _ =>
      obtain ⟨c, hstep⟩ := parseElement_other (t := t') hat hseg
      refine ⟨c, t', ?_, hfilled, hentry⟩
      rw [List.length_cons, iter, hstep]
      rfl

def nulls : Nat → Nat := fun _ => NULL_FUNC

/-- The walk over the segments of an element section reads each of them where it stands, and the table is what
they make of it. -/
structure ElemsWalked (bytes : List UInt8) (start : Nat) (elems : List ElemSeg) (table : Table) : Prop where
  inStep : ∀ k p, k < elems.length → ElemsAt bytes start (elems.take k) p →
    ∃ t, iter (parseElementSection.step bytes) k (start, .blank) = .ok (p, t) ∧
    t.entry = overlayElems (elems.take k) nulls
  entries : table.entry = overlayElems elems nulls

/-- Each segment but the last has the short form, and the last one, if it has not, changes nothing. -/
def ShortElems (elems : List ElemSeg) : Prop :=
  ∀ before seg after, elems = before ++ seg :: after → seg.short = false →
    after = [] ∧ seg.apply (overlayElems before nulls) = overlayElems before nulls

omit hfit in
theorem overlayElems_snoc (elems : List ElemSeg) (seg : ElemSeg) (table : Nat → Nat) :
    overlayElems (elems ++ [seg]) table = seg.apply (overlayElems elems table) := by
  simp [overlayElems]

theorem elemsWalked_iff {start last : Nat} {elems : List ElemSeg} {table : Table}
    (hat : ElemsAt bytes start elems last) (hin : ∀ seg ∈ elems, seg.Inside MAX_TABLE)
    (hentry : table.entry = overlayElems (elems.takeWhile ElemSeg.short) nulls) :
    ElemsWalked bytes start elems table ↔ ShortElems elems := by
  constructor
  · intro h
    -- a walk that goes on past a segment has read it
    have hlast : ∀ before seg after, elems = before ++ seg :: after → seg.short = false → after = [] := by
      rintro before seg after rfl hseg
      obtain ⟨p, hbefore, hrest⟩ := hat.split
      cases hrest with
      | @cons _ next _ _ _ hone hafter =>
        have htake : (before ++ seg :: after).take before.length = before := by simp
        obtain ⟨t, hiter, -⟩ := h.inStep before.length p (by simp) (by rwa [htake])
        obtain ⟨c, hother⟩ := parseElement_other (t := t) hone hseg
        cases after with
        | nil => rfl
        | cons seg' after =>
          have htake' : (before ++ seg :: seg' :: after).take (before.length + 1) = before ++ [seg] :=
            List.take_length_add_append 1
          obtain ⟨t', hiter', -⟩ :=
            h.inStep (before.length + 1) next (by simp) (by rw [htake']; exact hbefore.append (.cons hone .nil))
          rw [iter_snoc, hiter, bind_ok, hother] at hiter'
          cases hiter'
    intro before seg after heq hseg
    obtain rfl := hlast before seg after heq hseg
    refine ⟨rfl, ?_⟩
    have hshort : ∀ seg ∈ before, seg.short = true := by
      have := short_of_last (k := before.length) (by rw [heq]; simp) hlast
      rwa [heq, List.take_left] at this
    have hentries := h.entries
    rw [hentry, heq, List.takeWhile_append_of_pos hshort, List.takeWhile_cons_of_neg (by simp [hseg]),
      List.append_nil, overlayElems_snoc] at hentries
    exact hentries.symm
  · intro hcond
    have hlast : ∀ before seg after, elems = before ++ seg :: after → seg.short = false → after = [] :=
      fun before seg after heq hseg => (hcond before seg after heq hseg).1
    refine ⟨fun k p hk hp => ?_, ?_⟩
    · have hlen : (elems.take k).length = k := by rw [List.length_take]; omega
      have hblank : Table.blank.Filled := fun _ _ => rfl
      obtain ⟨t, hiter, -, htable⟩ := parseElements_allShort hfit hblank hp (short_of_last hk hlast) fun seg hmem =>
        hin seg (List.mem_of_mem_take hmem)
      rw [hlen] at hiter
      exact ⟨t, hiter, htable⟩
    · rw [hentry]
      by_cases hne : elems = []
      · subst hne
        rfl
      obtain ⟨before, seg, rfl⟩ : ∃ before seg, elems = before ++ [seg] :=
        ⟨_, _, (List.dropLast_concat_getLast hne).symm⟩
      have hshort : ∀ seg ∈ before, seg.short = true := by
        have := short_of_last (k := before.length) (by simp) hlast
        rwa [List.take_left] at this
      rw [List.takeWhile_append_of_pos hshort]
      by_cases hseg : seg.short = true
      · rw [List.takeWhile_cons_of_pos hseg, List.takeWhile_nil]
      · rw [List.takeWhile_cons_of_neg hseg, List.append_nil, overlayElems_snoc]
        exact (hcond before seg [] rfl (by simpa using hseg)).2.symm

end

/-! ## Spawned modules -/

def DataSection (sec : Option (List UInt8)) (segs : List DataSeg) : Prop :=
  match sec with
  | none => segs = []
  | some bytes => ∃ start last, readU32Leb128 bytes = some (segs.length, start) ∧ DatasAt bytes start segs last

def ElemSection (sec : Option (List UInt8)) (segs : List ElemSeg) : Prop :=
  match sec with
  | none => segs = []
  | some bytes => ∃ start last, readU32Leb128 bytes = some (segs.length, start) ∧ ElemsAt bytes start segs last

/-- Memory and table are what the segments make of zeros and nulls, and each segment is read where it stands. -/
structure SegmentsDone {H : Type} (m : Module) (inst : Instance H) (segs : List DataSeg)
    (elems : List ElemSeg) : Prop where
  memory : inst.mem = overlay segs fun _ => 0
  inStep : ∀ bytes start k p, m.dataSection = some bytes → readU32Leb128 bytes = some (segs.length, start) →
    k < segs.length →
    DatasAt bytes start (segs.take k) p →
    iter (initMemory.step bytes inst.code.memLen) k (start, fun _ => 0) = .ok (p, overlay (segs.take k) fun _ => 0)
  table : ∀ i, inst.code.table.entry i = overlayElems elems nulls i ∧
    (inst.code.table.size ≤ i → inst.code.table.entry i = NULL_FUNC)
  elemInStep : ∀ bytes start k p, m.elementSection = some bytes →
    readU32Leb128 bytes = some (elems.length, start) → k < elems.length →
    ElemsAt bytes start (elems.take k) p →
    ∃ t, iter (parseElementSection.step bytes) k (start, .blank) = .ok (p, t) ∧
    t.entry = overlayElems (elems.take k) nulls

section
variable {H : Type} {lookupHost : List UInt8 → List UInt8 → Option H} {bytes : List UInt8} {inst : Instance H}
  {m : Module}
  {segs : List DataSeg} {elems : List ElemSeg}

theorem memory_of_instantiate (h : instantiate lookupHost bytes = .ok inst) (hm : load bytes = .ok m) :
    parseIf m.dataSection (fun _ => 0) (fun bytes => initMemory bytes inst.code.memLen fun _ => 0) = .ok inst.mem ∧
    parseIf m.elementSection .blank parseElementSection = .ok inst.code.table := by
  unfold instantiate at h
  obtain ⟨m', hm', h⟩ := bind_eq_ok.mp h
  obtain rfl : m = m' := Except.ok.inj (hm.symm.trans (mapErr_eq_ok.mp hm'))
  obtain ⟨pages, _, h⟩ := bind_eq_ok.mp h
  split at h
  · cases h
  obtain ⟨importCount, _, h⟩ := bind_eq_ok.mp h
  obtain ⟨names, _, h⟩ := bind_eq_ok.mp h
  split at h
  · cases h
  obtain ⟨inst', hnew, h⟩ := bind_eq_ok.mp h
  obtain ⟨mem, hmem, h⟩ := bind_eq_ok.mp h
  cases h
  obtain ⟨_, _, _, _, _, _, _, _, _, _, _, _, _, _, htable, _, rfl⟩ := interpreterNew_inv (mapErr_eq_ok.mp hnew)
  refine ⟨?_, htable⟩
  cases hsec : m.dataSection with
  | none =>
    rw [hsec] at hmem
    cases hmem
    rfl
  | some sec =>
    rw [hsec] at hmem
    exact mapErr_eq_ok.mp hmem

theorem table_of_instantiate (hfit : Fits bytes) (h : instantiate lookupHost bytes = .ok inst)
    (hm : load bytes = .ok m)
    (helems : ElemSection m.elementSection elems) (hin : ∀ seg ∈ elems, seg.Inside MAX_TABLE) :
    inst.code.table.Filled ∧ inst.code.table.entry = overlayElems (elems.takeWhile ElemSeg.short) nulls := by
  have hblank : Table.blank.Filled := fun _ _ => rfl
  obtain ⟨_, htable⟩ := memory_of_instantiate h hm
  cases hsec : m.elementSection with
  | none =>
    rw [hsec] at htable helems
    obtain rfl : elems = [] := helems
    have hb : Table.blank = inst.code.table := Except.ok.inj htable
    rw [← hb]
    exact ⟨hblank, rfl⟩
  | some sec =>
    have hsfit : Fits sec := (load_sections hfit hm).2.2.2.2.2.1 sec hsec
    rw [hsec] at htable helems
    obtain ⟨start, last, hleb, hat⟩ := helems
    obtain ⟨c, t', hiter, hfilled, hentry⟩ := parseElements_shorts hsfit hblank hat hin
    have hread : readU32 sec InterpError.malformedCode 0 = .ok (elems.length, start) :=
      (readU32_eq_ok hsfit).mpr ⟨Nat.zero_le _, start, by rwa [List.drop_zero], (Nat.zero_add _).symm⟩
    have hparse : parseElementSection sec = .ok t' := by
      simp only [parseElementSection, hread, bind_ok, hiter]
    have hb : t' = inst.code.table := Except.ok.inj (hparse.symm.trans htable)
    rw [← hb]
    exact ⟨hfilled, hentry⟩

theorem table_done_iff (hfit : Fits bytes) (h : instantiate lookupHost bytes = .ok inst) (hm : load bytes = .ok m)
    (helems : ElemSection m.elementSection elems) (hin : ∀ seg ∈ elems, seg.Inside MAX_TABLE) :
    ((∀ i, inst.code.table.entry i = overlayElems elems nulls i ∧
      (inst.code.table.size ≤ i → inst.code.table.entry i = NULL_FUNC)) ∧
      ∀ bytes start k p, m.elementSection = some bytes → readU32Leb128 bytes = some (elems.length, start) →
      k < elems.length →
        ElemsAt bytes start (elems.take k) p →
        ∃ t, iter (parseElementSection.step bytes) k (start, .blank) = .ok (p, t) ∧
        t.entry = overlayElems (elems.take k) nulls) ↔
      ShortElems elems := by
  obtain ⟨hfilled, hentry⟩ := table_of_instantiate hfit h hm helems hin
  cases hsec : m.elementSection with
  | none =>
    rw [hsec] at helems
    obtain rfl : elems = [] := helems
    refine iff_of_true ⟨fun i => ⟨congrFun hentry i, hfilled i⟩, fun _ _ k _ _ _ hk =>
      absurd hk (Nat.not_lt_zero k)⟩ fun before seg after heq => ?_
    simp at heq
  | some sec =>
    have hsfit : Fits sec := (load_sections hfit hm).2.2.2.2.2.1 sec hsec
    rw [hsec] at helems
    obtain ⟨start, last, hleb, hat⟩ := helems
    rw [← elemsWalked_iff hsfit hat hin hentry]
    constructor
    · rintro ⟨hall, hstep⟩
      exact ⟨fun k p => hstep sec start k p rfl hleb, funext fun i => (hall i).1⟩
    · intro hwalked
      refine ⟨fun i => ⟨congrFun hwalked.entries i, hfilled i⟩, fun sec' start' k p hsec' hleb' hk hp => ?_⟩
      obtain rfl : sec = sec' := Option.some.inj hsec'
      obtain rfl : start = start' := by simpa [hleb] using hleb'
      exact hwalked.inStep k p hk hp

/-- What the segments of a spawned module are for is done exactly when in both sections the segments but the
last have the short form, and the last one has it or changes nothing. -/
theorem segments_done_iff (hfit : Fits bytes) (h : instantiate lookupHost bytes = .ok inst)
    (hm : load bytes = .ok m)
    (hdata : DataSection m.dataSection segs) (helems : ElemSection m.elementSection elems)
    (hin : ∀ seg ∈ segs, seg.Inside (inst.currentPages * PAGE_SIZE)) (hein : ∀ seg ∈ elems, seg.Inside MAX_TABLE) :
    SegmentsDone m inst segs elems ↔ ShortButLast segs (fun _ => 0) ∧ ShortElems elems := by
  rw [← table_done_iff hfit h hm helems hein]
  obtain ⟨hmem, _⟩ := memory_of_instantiate h hm
  obtain ⟨_, _, _, _, hlen, hpages, _⟩ := instantiate_limits hfit h
  cases hsec : m.dataSection with
  | none =>
    rw [hsec] at hdata hmem
    obtain rfl : segs = [] := hdata
    have hzero : (fun _ => 0) = inst.mem := Except.ok.inj hmem
    constructor
    · intro hdone
      exact ⟨fun before seg after hnil => by simp at hnil, hdone.table, hdone.elemInStep⟩
    · intro h
      refine ⟨hzero.symm, fun _ _ _ _ hno => ?_, h.2.1, h.2.2⟩
      rw [hsec] at hno
      cases hno
  | some sec =>
    have hsfit : Fits sec := (load_sections hfit hm).2.2.2.2.2.2.2 sec hsec
    rw [hsec] at hdata hmem
    obtain ⟨start, last, hleb, hat⟩ := hdata
    have hread : readU32 sec () 0 = .ok (segs.length, start) :=
      (readU32_eq_ok hsfit).mpr ⟨Nat.zero_le _, start, by rwa [List.drop_zero], (Nat.zero_add _).symm⟩
    have hwalk : ∃ cur, iter (initMemory.step sec inst.code.memLen) segs.length (start, fun _ => 0) =
        .ok (cur, inst.mem) := by
      simp only [parseIf, initMemory, hread, bind_ok] at hmem
      obtain ⟨⟨cur, mem⟩, hiter, hmem⟩ := bind_eq_ok.mp hmem
      cases hmem
      exact ⟨cur, hiter⟩
    have hinside : ∀ seg ∈ segs, seg.Inside inst.code.memLen := by
      intro seg hseg
      have hle : inst.currentPages * PAGE_SIZE ≤ inst.code.memLen := by
        rw [hlen]
        exact Nat.mul_le_mul_right _ hpages
      have := hin seg hseg
      cases seg with
      | active offset data => exact Nat.le_trans this hle
      | activeAt offset data => exact Nat.le_trans this hle
      | passive data => trivial
    have hiff := walked_iff hsfit (by rw [hlen]; decide) hat hinside hwalk
    rw [← hiff]
    constructor
    · intro hdone
      exact ⟨⟨fun k p => hdone.inStep sec start k p hsec hleb, hdone.memory⟩, hdone.table, hdone.elemInStep⟩
    · intro h
      obtain ⟨hwalked, hall, hstep⟩ := h
      refine ⟨hwalked.memory, fun sec' start' k p hsec' hleb' hk hp => ?_, hall, hstep⟩
      obtain rfl : sec = sec' := Option.some.inj (hsec.symm.trans hsec')
      obtain rfl : start = start' := by simpa [hleb] using hleb'
      exact hwalked.inStep k p hk hp

end

/-- A page of memory, function 0 in slot 0 of the table, and a data section. -/
def withData (data : List UInt8) : List UInt8 :=
  [0x00, 0x61, 0x73, 0x6D, 1, 0, 0, 0] ++ [0x01, 4, 1, 0x60, 0, 0] ++ [0x03, 2, 1, 0] ++
    [0x04, 4, 1, 0x70, 0, 1] ++ [0x05, 3, 1, 0, 1] ++
    [0x09, 7, 1, 0, 0x41, 0, 0x0B, 1, 0] ++ [0x0A, 4, 1, 2, 0, 0x0B] ++ [0x0B, data.length.toUInt8] ++ data

theorem elemSection_one : ElemSection (some [1, 0, 0x41, 0, 0x0B, 1, 0]) [.active 0 [0]] := by
  have hoff : OffsetAt [1, 0, 0x41, 0, 0x0B, 1, 0] 2 0 5 := ⟨rfl, 4, by decide, rfl, rfl⟩
  have hfunc : FuncAt [1, 0, 0x41, 0, 0x0B, 1, 0] 6 0 7 := by
    unfold FuncAt
    decide
  have hseg : ElemAt [1, 0, 0x41, 0, 0x0B, 1, 0] 1 (.active 0 [0]) 7 :=
    ⟨2, 0, 5, by decide, hoff, rfl, 6, by decide, .cons hfunc .nil⟩
  exact ⟨1, 7, by decide, .cons hseg .nil⟩

def oneData : List UInt8 := [1, 0, 0x41, 0, 0x0B, 1, 0x41]

theorem oneData_done : ∃ (m : Module) (inst : Instance (HostFn Unit)), load (withData oneData) = .ok m ∧
    instantiate (fun _ _ => none) (withData oneData) = .ok inst ∧
    SegmentsDone m inst [.active 0 [0x41]] [.active 0 [0]] := by
  obtain ⟨m, hm, hsec, hesec⟩ : ∃ m, load (withData oneData) = .ok m ∧ m.dataSection = some oneData ∧
      m.elementSection = some [1, 0, 0x41, 0, 0x0B, 1, 0] := ⟨_, rfl, rfl, rfl⟩
  obtain ⟨inst, hinst, hpages⟩ :
      ∃ inst : Instance (HostFn Unit), instantiate (fun _ _ => none) (withData oneData) = .ok inst ∧
      inst.currentPages = 1 := ⟨_, rfl, rfl⟩
  have hdata : DataSection m.dataSection [.active 0 [0x41]] := by
    rw [hsec]
    have hoff : OffsetAt oneData 2 0 5 := ⟨rfl, 4, by decide, rfl, rfl⟩
    have hseg : DataAt oneData 1 (.active 0 [0x41]) 7 :=
      ⟨2, 0, 5, by decide, hoff, rfl, 1, 6, by decide, by decide, rfl, rfl⟩
    exact ⟨1, 7, by decide, .cons hseg .nil⟩
  refine ⟨m, inst, hm, hinst,
    (segments_done_iff (show _ < _ by decide) hinst hm hdata (hesec ▸ elemSection_one) ?_ ?_).mpr ⟨?_, ?_⟩⟩
  · rw [hpages]
    simp [DataSeg.Inside, PAGE_SIZE]
  · simp [ElemSeg.Inside, MAX_TABLE]
  · intro before seg after heq hshort
    cases before with
    | nil =>
      cases heq
      cases hshort
    | cons seg' before => simp at heq
  · intro before seg after heq hshort
    cases before with
    | nil =>
      cases heq
      cases hshort
    | cons seg' before => simp at heq

/-- A passive segment, and an active one at 0. -/
def twoDatas : List UInt8 := [2, 1, 1, 0x41, 0, 0x41, 0, 0x0B, 1, 0x42]

/-- The length of the passive segment is read as the kind of the active one, which is not copied. -/
theorem twoDatas_dropped : ∃ (m : Module) (inst : Instance (HostFn Unit)), load (withData twoDatas) = .ok m ∧
    instantiate (fun _ _ => none) (withData twoDatas) = .ok inst ∧
    DataSection m.dataSection [.passive [0x41], .active 0 [0x42]] ∧
    ElemSection m.elementSection [.active 0 [0]] ∧ inst.currentPages = 1 ∧ inst.mem 0 = 0 ∧
    ¬ SegmentsDone m inst [.passive [0x41], .active 0 [0x42]] [.active 0 [0]] := by
  obtain ⟨m, hm, hsec, hesec⟩ : ∃ m, load (withData twoDatas) = .ok m ∧ m.dataSection = some twoDatas ∧
      m.elementSection = some [1, 0, 0x41, 0, 0x0B, 1, 0] := ⟨_, rfl, rfl, rfl⟩
  obtain ⟨inst, hinst, hpages, hzero⟩ : ∃ inst : Instance (HostFn Unit),
      instantiate (fun _ _ => none) (withData twoDatas) = .ok inst ∧ inst.currentPages = 1 ∧ inst.mem 0 = 0 :=
      ⟨_, rfl, rfl, rfl⟩
  have hdata : DataSection m.dataSection [.passive [0x41], .active 0 [0x42]] := by
    rw [hsec]
    have hoff : OffsetAt twoDatas 5 0 8 := ⟨rfl, 7, by decide, rfl, rfl⟩
    have hpassive : DataAt twoDatas 1 (.passive [0x41]) 4 := ⟨2, by decide, 1, 3, by decide, by decide, rfl, rfl⟩
    have hactive : DataAt twoDatas 4 (.active 0 [0x42]) 10 :=
      ⟨5, 0, 8, by decide, hoff, rfl, 1, 9, by decide, by decide, rfl, rfl⟩
    exact ⟨1, 10, by decide, .cons hpassive (.cons hactive .nil)⟩
  refine ⟨m, inst, hm, hinst, hdata, hesec ▸ elemSection_one, hpages, hzero, fun hdone => ?_⟩
  rw [hdone.memory] at hzero
  exact absurd hzero (by decide)

end WasmOs
