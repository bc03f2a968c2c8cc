import WasmOs.Kernel

/-!
# Reading back what was written

`fs_write` removes the first entry of a name and registers the name anew. It answers 0 as soon as the
write pool has a slot: whether the table had one, whether the name was cut off and whether a second
entry of it is still in front is not looked at.
-/

namespace WasmOs

open Hoare

/-! ## The table -/

namespace Fs

def FileTable.entries (t : FileTable) (name : List UInt8) : List (List UInt8) :=
  t.files.filterMap fun o => o.bind fun f => if f.nameStr = name then some f.data else none

def FileTable.Named (t : FileTable) : Prop := ∀ f, some f ∈ t.files → f.name.length ≤ 64

section
variable {t : FileTable} {name data n : List UInt8}

theorem findFile_eq_head? (t : FileTable) (name : List UInt8) : t.findFile name = (t.entries name).head? :=
  (List.head?_filterMap ..).symm

theorem entries_remove (t : FileTable) (name : List UInt8) :
    (t.removeFile name).1.entries name = (t.entries name).tail := by
  have key : ∀ fs : List (Option File),
      (FileTable.clearFirst name fs).1.filterMap (fun o => o.bind fun f => if f.nameStr = name then
        some f.data else none) =
        (fs.filterMap fun o => o.bind fun f => if f.nameStr = name then some f.data else none).tail := by
    intro fs
    induction fs with
    | nil => rfl
    | cons o fs ih =>
      cases o with
      | none => simpa [FileTable.clearFirst] using ih
      | some f =>
        unfold FileTable.clearFirst
        by_cases hf : f.nameStr = name
        · simp [hf]
        · simpa [hf] using ih
  exact key t.files

theorem removeFile_length (t : FileTable) (name : List UInt8) :
    (t.removeFile name).1.files.length = t.files.length :=
  FileTable.clearFirst_length name t.files

/-- What is found under a name that was removed and registered again: a second entry, and else the new one if
the table had a slot for it. -/
theorem findFile_overwrite (t : FileTable) (data : List UInt8) (hv : validUtf8 name) (hlen : name.length ≤ 64) :
    ((t.removeFile name).1.registerFile name data).findFile name =
      ((t.entries name)[1]?).or (if t.files.length < MAX_FILES then some data else none) := by
  have hsecond : (t.removeFile name).1.findFile name = (t.entries name)[1]? := by
    rw [findFile_eq_head?, entries_remove, List.head?_tail]
  by_cases hfree : t.files.length < MAX_FILES
  · rw [findFile_register (by rw [removeFile_length]; exact hfree) hv hlen, hsecond, if_pos rfl, if_pos hfree]
  · rw [registerFile_full (by rw [removeFile_length]; omega), hsecond, if_neg hfree, Option.or_none]

theorem findFile_overwrite_of_ne (t : FileTable) (data : List UInt8) (hv : validUtf8 name)
    (hlen : name.length ≤ 64) (hn : n ≠ name) :
    ((t.removeFile name).1.registerFile name data).findFile n = t.findFile n := by
  by_cases hfree : t.files.length < MAX_FILES
  · rw [findFile_register (by rw [removeFile_length]; exact hfree) hv hlen, if_neg hn, Option.or_none,
      findFile_remove_of_ne hn]
  · rw [registerFile_full (by rw [removeFile_length]; omega), findFile_remove_of_ne hn]

theorem mem_clearFirst {f : File} :
    ∀ {fs : List (Option File)}, some f ∈ (FileTable.clearFirst name fs).1 → some f ∈ fs
  | [], h => h
  | none :: fs, h => by
    unfold FileTable.clearFirst at h
    obtain h | h := List.mem_cons.mp h
    · cases h
    · exact .tail _ (mem_clearFirst h)
  | some g :: fs, h => by
    unfold FileTable.clearFirst at h
    split at h
    · obtain h | h := List.mem_cons.mp h
      · cases h
      · exact .tail _ h
    · obtain h | h := List.mem_cons.mp h
      · exact h ▸ .head _
      · exact .tail _ (mem_clearFirst h)

theorem FileTable.Named.overwrite (h : t.Named) (name data : List UInt8) :
    ((t.removeFile name).1.registerFile name data).Named := by
  have hremoved : (t.removeFile name).1.Named := fun f hf => h f (mem_clearFirst hf)
  intro f hf
  unfold registerFile at hf
  split at hf
  · obtain hf | hf := List.mem_append.mp hf
    · exact hremoved f hf
    · cases List.mem_singleton.mp hf
      rw [List.length_take]
      omega
  · exact hremoved f hf

theorem findFile_long (h : t.Named) (hlen : 64 < name.length) : t.findFile name = none := by
  unfold FileTable.findFile
  rw [List.findSome?_eq_none_iff]
  intro o ho
  cases o with
  | none => rfl
  | some f =>
    have hf := h f ho
    have hne : f.nameStr ≠ name := by
      intro heq
      unfold File.nameStr at heq
      split at heq
      · rw [heq] at hf
        omega
      · rw [← heq] at hlen
        simp at hlen
    simp [hne]

end

end Fs

/-! ## The host functions -/

section
variable {ω : Type} (S : Services ω) {memLen : Nat}

theorem satAdd_of_fits {a b : Nat} (h : a + b ≤ memLen) (hmem : memLen < usizeMax) : satAdd a b = a + b := by
  unfold satAdd
  omega

/-- The state after reading a part of the memory. -/
def noted (v : HostView (Traced ω)) (lo hi : Nat) : HostView (Traced ω) :=
  { v with world := { v.world with touched := v.world.touched ++ [(lo, hi)] } }

theorem readMem_run {lo n : Nat} (h : lo + n ≤ memLen) (v : HostView (Traced ω)) :
    readMem memLen lo (lo + n) v = .ok (slice v.mem lo n) (noted v lo (lo + n)) := by
  unfold readMem sliceMem
  rw [if_pos ⟨Nat.le_add_right _ _, h⟩]
  show EStateM.Result.ok (slice v.mem lo (lo + n - lo)) _ = _
  rw [Nat.add_sub_cancel_left]
  rfl

theorem writeMem_run {lo : Nat} {data : List UInt8} (h : lo + data.length ≤ memLen) (v : HostView (Traced ω)) :
    writeMem memLen lo data v = .ok () { noted v lo (lo + data.length) with mem := blit v.mem lo data } := by
  unfold writeMem sliceMem
  rw [if_pos ⟨Nat.le_add_right _ _, h⟩]
  rfl

/-- What `fs_size` answers. -/
def sizeAnswer (name : List UInt8) (found : Option (List UInt8)) : BitVec 64 :=
  if validUtf8 name then
    match found with
    | none => -1
    | some data => BitVec.ofNat 64 data.length
  else -1

/-- What `fs_read` answers, and the memory after it. -/
def readAnswer (memLen bufPtr bufCap : Nat) (mem : Nat → UInt8) (name : List UInt8)
    (found : Option (List UInt8)) : BitVec 64 × (Nat → UInt8) :=
  if validUtf8 name then
    match found with
    | none => (-1, mem)
    | some data =>
      if memLen < satAdd bufPtr bufCap ∨ bufCap < data.length then (-1, mem)
      else (BitVec.ofNat 64 data.length, blit mem bufPtr data)
  else (-1, mem)

variable {namePtr nameLen : Nat} (hname : namePtr + nameLen ≤ memLen) (hmem : memLen < usizeMax)
  (v : HostView (Traced ω))
include hname hmem

theorem fsSize_run : ∃ v', fsSize S memLen namePtr nameLen v =
    .ok (sizeAnswer (slice v.mem namePtr nameLen) (S.findFile v.world.rest (slice v.mem namePtr nameLen))) v' := by
  unfold fsSize
  rw [satAdd_of_fits hname hmem, if_neg (Nat.not_lt.mpr hname), Hoare.bind_ok (readMem_run hname v)]
  unfold sizeAnswer
  cases hv : validUtf8 (slice v.mem namePtr nameLen) with
  | false => exact ⟨_, rfl⟩
  | true =>
    rw [if_neg (by decide), if_pos rfl]
    refine ⟨noted v namePtr (namePtr + nameLen), ?_⟩
    have hquery : query (S.findFile · (slice v.mem namePtr nameLen)) (noted v namePtr (namePtr + nameLen)) =
        .ok (S.findFile v.world.rest (slice v.mem namePtr nameLen)) (noted v namePtr (namePtr + nameLen)) := rfl
    rw [Hoare.bind_ok hquery]
    cases S.findFile v.world.rest (slice v.mem namePtr nameLen) with
    | none => rfl
    | some data => rfl

theorem fsRead_run (bufPtr bufCap : Nat) : ∃ v', fsRead S memLen namePtr nameLen bufPtr bufCap v =
      .ok (readAnswer memLen bufPtr bufCap v.mem (slice v.mem namePtr nameLen)
        (S.findFile v.world.rest (slice v.mem namePtr nameLen))).1 v' ∧
    v'.mem = (readAnswer memLen bufPtr bufCap v.mem (slice v.mem namePtr nameLen)
      (S.findFile v.world.rest (slice v.mem namePtr nameLen))).2 := by
  unfold fsRead
  rw [satAdd_of_fits hname hmem, if_neg (Nat.not_lt.mpr hname), Hoare.bind_ok (readMem_run hname v)]
  unfold readAnswer
  cases hv : validUtf8 (slice v.mem namePtr nameLen) with
  | false => exact ⟨_, rfl, rfl⟩
  | true =>
    rw [if_neg (by decide), if_pos rfl]
    have hquery : query (S.findFile · (slice v.mem namePtr nameLen)) (noted v namePtr (namePtr + nameLen)) =
        .ok (S.findFile v.world.rest (slice v.mem namePtr nameLen)) (noted v namePtr (namePtr + nameLen)) := rfl
    rw [Hoare.bind_ok hquery]
    cases S.findFile v.world.rest (slice v.mem namePtr nameLen) with
    | none => exact ⟨_, rfl, rfl⟩
    | some data =>
      by_cases hfit : memLen < satAdd bufPtr bufCap ∨ bufCap < data.length
      · simp only [hfit, if_true]
        exact ⟨_, rfl, rfl⟩
      · simp only [hfit, if_false]
        have hle : bufPtr + data.length ≤ memLen := by
          unfold satAdd at hfit
          omega
        rw [Hoare.bind_ok (writeMem_run hle _)]
        exact ⟨_, rfl, rfl⟩

end

/-! ## The three calls -/

section
variable {δ : Type} (D : Devices δ)

def viewOf (mem : Nat → UInt8) (k : KernelState δ) : HostView (Traced (KernelState δ)) :=
  ⟨fun _ => 0, 0, mem, ⟨[], k⟩⟩

/-- The answer to a call and the memory after it, if the call does not fail. -/
def answer (m : Host (KernelState δ) (BitVec 64)) (mem : Nat → UInt8) (k : KernelState δ) :
    Option (BitVec 64 × (Nat → UInt8)) :=
  match m (viewOf mem k) with
  | .ok r v => some (r, v.mem)
  | .error _ _ => none

/-- A name in some memory, and a buffer. -/
structure Call where
  memLen : Nat
  mem : Nat → UInt8
  namePtr : Nat
  nameLen : Nat
  bufPtr : Nat
  bufCap : Nat
  name_le : namePtr + nameLen ≤ memLen
  memLen_lt : memLen < usizeMax

def Call.name (c : Call) : List UInt8 := slice c.mem c.namePtr c.nameLen

/-- `fs_read` -/
def Call.read (c : Call) (k : KernelState δ) : Option (BitVec 64 × (Nat → UInt8)) :=
  answer (fsRead (kernelServices D) c.memLen c.namePtr c.nameLen c.bufPtr c.bufCap) c.mem k

/-- `fs_size` -/
def Call.size (c : Call) (k : KernelState δ) : Option (BitVec 64) :=
  (answer (fsSize (kernelServices D) c.memLen c.namePtr c.nameLen) c.mem k).map Prod.fst

def Call.data (c : Call) : List UInt8 := slice c.mem c.bufPtr c.bufCap

/-- `fs_write` of the bytes in the buffer. -/
def Call.write (c : Call) (k : KernelState δ) :
    EStateM.Result (Fault InterpError) (HostView (Traced (KernelState δ))) (BitVec 64) :=
  fsWrite (kernelServices D) c.memLen c.namePtr c.nameLen c.bufPtr c.bufCap (viewOf c.mem k)

/-- A successful `fs_write` is seen by `fs_size` and, with any buffer that is large enough, by `fs_read` of
the name, and by no `fs_read` of another name; one that fails is seen by nobody. -/
def Call.ReadsBack (c : Call) (k : KernelState δ) : Prop :=
  ∃ r v, c.write D k = .ok r v ∧ v.mem = c.mem ∧
    (r = 0 ∧ c.size D v.world.rest = some (BitVec.ofNat 64 c.bufCap) ∧
      (∀ bufPtr bufCap, bufPtr + bufCap ≤ c.memLen → c.bufCap ≤ bufCap →
        { c with bufPtr := bufPtr, bufCap := bufCap : Call }.read D v.world.rest =
          some (BitVec.ofNat 64 c.bufCap, blit c.mem bufPtr c.data)) ∧
      (∀ c' : Call, c'.name ≠ c.name → c'.read D v.world.rest = c'.read D k) ∨
    r = -1 ∧ ∀ c' : Call, c'.read D v.world.rest = c'.read D k ∧ c'.size D v.world.rest = c'.size D k)

/-- The call is refused; or the name is not cut off and has one entry at most in a table that is not full, or
a second entry with the same data. -/
def Call.Lasts (c : Call) (k : KernelState δ) : Prop :=
  validUtf8 (c.name.take 64) = false ∨ WRITE_SLOT_CAP < c.bufCap ∨ WRITE_SLOTS ≤ k.writePoolNext ∨
    c.nameLen ≤ 64 ∧ ((k.files.entries c.name)[1]? = some c.data ∨
      (k.files.entries c.name)[1]? = none ∧ k.files.files.length < Fs.MAX_FILES)

variable {D} {c : Call} {k k' : KernelState δ}

theorem Call.read_eq (c : Call) (k : KernelState δ) :
    c.read D k = some (readAnswer c.memLen c.bufPtr c.bufCap c.mem c.name (k.files.findFile c.name)) := by
  obtain ⟨v, hrun, hmem⟩ := fsRead_run (kernelServices D) c.name_le c.memLen_lt (viewOf c.mem k) c.bufPtr c.bufCap
  unfold Call.read answer
  rw [hrun]
  exact congrArg some (Prod.ext rfl hmem)

theorem Call.size_eq (c : Call) (k : KernelState δ) :
    c.size D k = some (sizeAnswer c.name (k.files.findFile c.name)) := by
  obtain ⟨v, hrun⟩ := fsSize_run (kernelServices D) c.name_le c.memLen_lt (viewOf c.mem k)
  unfold Call.size answer
  rw [hrun]
  rfl

def Call.Refused (c : Call) (k : KernelState δ) : Prop :=
  validUtf8 (c.name.take 64) = false ∨ WRITE_SLOT_CAP < c.bufCap ∨ WRITE_SLOTS ≤ k.writePoolNext

theorem take_slice (a : Nat → UInt8) (lo n m : Nat) : (slice a lo n).take m = slice a lo (min n m) := by
  unfold slice
  rw [← List.map_take, List.take_range, Nat.min_comm]

theorem service_run {ω α : Type} {f : ω → Rust Empty (α × ω)} {v : HostView (Traced ω)} {a : α} {w : ω}
    (h : f v.world.rest = .ok (a, w)) :
    service f v = .ok a { v with world := { v.world with rest := w } } := by
  unfold service
  rw [h]

theorem Call.write_run (hbuf : c.bufPtr + c.bufCap ≤ c.memLen) :
    ∃ v, v.mem = c.mem ∧ v.world.rest = k ∧ c.write D k =
      if validUtf8 (c.name.take 64) = false then .ok (-1) v
      else .ok (if (k.writeFile D (c.name.take 64) c.data).1 then 0 else -1)
        { v with world := { v.world with rest := (k.writeFile D (c.name.take 64) c.data).2 } } := by
  have hname : c.namePtr + min c.nameLen 64 ≤ c.memLen := by
    have := c.name_le
    omega
  have hrange : ¬ (c.memLen < satAdd c.namePtr c.nameLen ∨ c.memLen < satAdd c.bufPtr c.bufCap) := by
    rw [satAdd_of_fits c.name_le c.memLen_lt, satAdd_of_fits hbuf c.memLen_lt, not_or]
    exact ⟨Nat.not_lt.mpr c.name_le, Nat.not_lt.mpr hbuf⟩
  have hcut : slice (viewOf c.mem k).mem c.namePtr (min c.nameLen 64) = c.name.take 64 := (take_slice ..).symm
  unfold Call.write fsWrite
  rw [if_neg hrange, Hoare.bind_ok (readMem_run hname _), hcut]
  by_cases hv : validUtf8 (c.name.take 64) = false
  · exact ⟨_, rfl, rfl, by rw [if_pos hv, if_pos hv]; rfl⟩
  · rw [if_neg hv, Hoare.bind_ok (readMem_run hbuf _), Hoare.bind_ok (service_run rfl)]
    refine ⟨noted (noted (viewOf c.mem k) c.namePtr (c.namePtr + min c.nameLen 64)) c.bufPtr
      (c.bufPtr + c.bufCap), rfl, rfl, ?_⟩
    rw [if_neg hv]
    show (if (k.writeFile D (c.name.take 64) c.data).1 then _ else _ : Host _ _) _ = _
    cases (k.writeFile D (c.name.take 64) c.data).1 with
    | true => rfl
    | false => rfl

theorem Call.data_length (c : Call) : c.data.length = c.bufCap := slice_length ..

theorem Call.write_refused (hbuf : c.bufPtr + c.bufCap ≤ c.memLen) (h : c.Refused k) :
    ∃ v, c.write D k = .ok (-1) v ∧ v.mem = c.mem ∧ v.world.rest.files = k.files := by
  obtain ⟨v, hmem, hrest, hrun⟩ := c.write_run (D := D) (k := k) hbuf
  by_cases hv : validUtf8 (c.name.take 64) = false
  · rw [if_pos hv] at hrun
    exact ⟨v, hrun, hmem, by rw [hrest]⟩
  · have hno : k.writeFile D (c.name.take 64) c.data = (false, k) := by
      unfold KernelState.writeFile
      rw [c.data_length]
      by_cases hcap : WRITE_SLOT_CAP < c.bufCap
      · rw [if_pos hcap]
      · rw [if_neg hcap, if_pos ((h.resolve_left hv).resolve_left hcap)]
    rw [if_neg hv, hno] at hrun
    exact ⟨_, hrun, hmem, rfl⟩

theorem Call.write_accepted (hbuf : c.bufPtr + c.bufCap ≤ c.memLen) (h : ¬ c.Refused k) :
    ∃ v, c.write D k = .ok 0 v ∧ v.mem = c.mem ∧
      v.world.rest.files = (k.files.removeFile (c.name.take 64)).1.registerFile (c.name.take 64) c.data := by
  obtain ⟨hv, hcap, hslot⟩ : ¬ validUtf8 (c.name.take 64) = false ∧ ¬ WRITE_SLOT_CAP < c.data.length ∧
      ¬ WRITE_SLOTS ≤ k.writePoolNext := by
    rw [c.data_length]
    simpa only [Call.Refused, not_or] using h
  obtain ⟨v, hmem, hrest, hrun⟩ := c.write_run (D := D) (k := k) hbuf
  rw [if_neg hv, KernelState.writeFile, if_neg hcap, if_neg hslot] at hrun
  exact ⟨_, hrun, hmem, rfl⟩

theorem Call.answers_congr {c : Call} (h : k'.files.findFile c.name = k.files.findFile c.name) :
    c.read D k' = c.read D k ∧ c.size D k' = c.size D k := by
  rw [c.read_eq, c.read_eq, c.size_eq, c.size_eq, h]
  exact ⟨rfl, rfl⟩

theorem blit_injective {a : Nat → UInt8} {i : Nat} {xs ys : List UInt8} (hlen : xs.length = ys.length)
    (h : blit a i xs = blit a i ys) :
    xs = ys := by
  refine List.ext_getElem hlen fun j hj hj' => ?_
  have := congrFun h (i + j)
  rw [blit_apply, blit_apply, dif_pos ⟨by omega, by omega⟩, dif_pos ⟨by omega, by omega⟩] at this
  simpa using this

theorem neg_one_ne_ofNat {n : Nat} (h : ¬ WRITE_SLOT_CAP < n) : (-1 : BitVec 64) ≠ BitVec.ofNat 64 n := by
  unfold WRITE_SLOT_CAP at h
  intro heq
  have hone : (-1 : BitVec 64).toNat = 2 ^ 64 - 1 := by decide
  have := congrArg BitVec.toNat heq
  rw [hone, BitVec.toNat_ofNat] at this
  omega

/-- `fs_read` with a buffer of just the right size tells what is found. -/
theorem found_of_read (hfits : ¬ WRITE_SLOT_CAP < c.bufCap) {found : Option (List UInt8)}
    (h : readAnswer c.memLen c.bufPtr c.bufCap c.mem c.name found =
      (BitVec.ofNat 64 c.bufCap, blit c.mem c.bufPtr c.data)) :
    found = some c.data := by
  have hne := neg_one_ne_ofNat hfits
  unfold readAnswer at h
  split at h
  · split at h
    · exact absurd (Prod.mk.inj h).1 hne
    · rename_i data
      split at h
      · exact absurd (Prod.mk.inj h).1 hne
      · rename_i hroom
        obtain ⟨hlen, hblit⟩ := Prod.mk.inj h
        have hlen : data.length = c.bufCap := by
          unfold WRITE_SLOT_CAP at hfits
          have := congrArg BitVec.toNat hlen
          simp only [BitVec.toNat_ofNat] at this
          omega
        rw [blit_injective (hlen.trans c.data_length.symm) hblit]
  · exact absurd (Prod.mk.inj h).1 hne

end

/-- `fs_write` is read back, and seen under no other name, exactly if it is refused or finds its place. -/
theorem fsWrite_readsBack_iff {δ : Type} (D : Devices δ) (k : KernelState δ) (c : Call) (hnamed : k.files.Named)
    (hutf8 : validUtf8 c.name) (hbuf : c.bufPtr + c.bufCap ≤ c.memLen) : c.ReadsBack D k ↔ c.Lasts k := by
  by_cases href : c.Refused k
  · refine iff_of_true ?_ ?_
    · obtain ⟨v, hrun, hmem, hfiles⟩ := c.write_refused (D := D) hbuf href
      exact ⟨-1, v, hrun, hmem, .inr ⟨rfl, fun c' => Call.answers_congr (by rw [hfiles])⟩⟩
    · obtain h | h | h := href
      · exact .inl h
      · exact .inr (.inl h)
      · exact .inr (.inr (.inl h))
  obtain ⟨v, hrun, hmem, hfiles⟩ := c.write_accepted (D := D) hbuf href
  have hfits : ¬ WRITE_SLOT_CAP < c.bufCap := fun h => href (.inr (.inl h))
  have hlength : c.name.length = c.nameLen := slice_length ..
  -- what is found under a name that is not cut off
  have hfound : c.nameLen ≤ 64 → v.world.rest.files.findFile c.name =
      ((k.files.entries c.name)[1]?).or (if k.files.files.length < Fs.MAX_FILES then some c.data else none) := by
    intro hshort
    rw [hfiles, List.take_of_length_le (by omega)]
    exact Fs.findFile_overwrite k.files c.data hutf8 (by omega)
  constructor
  · rintro ⟨r, v', hrun', _, ⟨_, hsize, hread, _⟩ | ⟨hr, _⟩⟩
    · cases hrun.symm.trans hrun'
      have hshort : c.nameLen ≤ 64 := by
        by_contra hlong
        have hnamed' : v.world.rest.files.Named := by
          rw [hfiles]
          exact hnamed.overwrite _ _
        rw [c.size_eq, Fs.findFile_long hnamed' (by omega), sizeAnswer, if_pos hutf8] at hsize
        exact neg_one_ne_ofNat hfits (Option.some.inj hsize)
      have hdata := hread c.bufPtr c.bufCap hbuf (Nat.le_refl _)
      rw [Call.read_eq] at hdata
      have hdata := (hfound hshort).symm.trans (found_of_read hfits (Option.some.inj hdata))
      refine .inr (.inr (.inr ⟨hshort, ?_⟩))
      cases hsecond : (k.files.entries c.name)[1]? with
      | some d =>
        rw [hsecond] at hdata
        exact .inl hdata
      | none =>
        rw [hsecond, Option.none_or] at hdata
        refine .inr ⟨rfl, ?_⟩
        by_contra hfull
        rw [if_neg hfull] at hdata
        cases hdata
    · cases hrun.symm.trans hrun'
      cases hr
  · rintro (h | h | h | ⟨hshort, hplace⟩)
    · exact absurd (.inl h) href
    · exact absurd (.inr (.inl h)) href
    · exact absurd (.inr (.inr h)) href
    have hdata : v.world.rest.files.findFile c.name = some c.data := by
      rw [hfound hshort]
      obtain h | ⟨h, hfree⟩ := hplace
      · rw [h]
        rfl
      · rw [h, if_pos hfree]
        rfl
    refine ⟨0, v, hrun, hmem, .inl ⟨rfl, ?_, ?_, ?_⟩⟩
    · rw [c.size_eq, hdata, sizeAnswer, if_pos hutf8]
      exact congrArg (fun n => some (BitVec.ofNat 64 n)) c.data_length
    · intro bufPtr bufCap hroom hcap
      rw [Call.read_eq]
      have hno : ¬ (c.memLen < satAdd bufPtr bufCap ∨ bufCap < c.data.length) := by
        rw [satAdd_of_fits hroom c.memLen_lt, c.data_length]
        omega
      show some (readAnswer c.memLen bufPtr bufCap c.mem c.name (v.world.rest.files.findFile c.name)) = _
      rw [hdata, readAnswer, if_pos hutf8]
      simp only [if_neg hno]
      rw [c.data_length]
    · intro c' hne
      refine (Call.answers_congr ?_).1
      rw [hfiles, List.take_of_length_le (by omega)]
      exact Fs.findFile_overwrite_of_ne k.files c.data hutf8 (by omega) hne

def bareKernel : KernelState Unit := ⟨fun _ => .other, .init, 0, none, ⟨0, none⟩, ()⟩

def noDevices : Devices Unit where
  strings := ⟨⟨0, by decide, by decide⟩, id, id⟩
  slotMem := 0
  uptimeMs _ := 0
  opcodeCount _ := 0
  sleepMs _ u := u
  args _ := []
  fatWriteFile _ _ u := u

/-- `fs_write` of one byte under a name of `n` letters. -/
def writeNamed (n : Nat) (hn : n + 1 < usizeMax) : Call where
  memLen := n + 1
  mem := fun _ => 0x61
  namePtr := 0
  nameLen := n
  bufPtr := n
  bufCap := 1
  name_le := by omega
  memLen_lt := hn

theorem fsWrite_readsBack_short : (writeNamed 1 (by decide)).ReadsBack noDevices bareKernel := by
  refine (fsWrite_readsBack_iff noDevices bareKernel (writeNamed 1 (by decide)) (fun f hf => by cases hf)
    (by decide) (by decide)).mpr ?_
  exact .inr (.inr (.inr ⟨by decide, .inr ⟨rfl, by decide⟩⟩))

/-- A name of 65 bytes is written under its first 64 and then not found. -/
theorem fsWrite_cuts_name : ¬ (writeNamed 65 (by decide)).ReadsBack noDevices bareKernel := by
  intro ⟨r, v, hrun, _, h⟩
  have haccepted : ¬ (writeNamed 65 (by decide)).Refused bareKernel := by
    intro hrefused
    obtain h | h | h := hrefused
    · revert h
      decide
    · exact absurd h (by decide)
    · exact absurd h (by decide)
  obtain ⟨v', hrun', _, hfiles⟩ := (writeNamed 65 (by decide)).write_accepted (D := noDevices) (by decide) haccepted
  cases hrun.symm.trans hrun'
  obtain ⟨_, hsize, _⟩ | ⟨hr, _⟩ := h
  · have hnamed : v.world.rest.files.Named := by
      rw [hfiles]
      exact Fs.FileTable.Named.overwrite (fun f hf => by cases hf) _ _
    rw [Call.size_eq, Fs.findFile_long hnamed (by decide)] at hsize
    revert hsize
    decide
  · cases hr

end WasmOs
