import WasmOs.Loader
import WasmOs.Runs

/-!
# The file table

`fs/mod.rs` keeps the files of a session in a table that only grows: `register_file` takes the next slot,
`remove_file` leaves a hole, `find_file` returns the first match. Run beside the map it stands for, it
agrees with that map as long as no name is registered twice without a removal in between and no more than
`MAX_FILES` registrations are made.
-/

namespace WasmOs.Fs

open Runs

def MAX_FILES : Nat := 64

/-- `name` are the first `name_len` bytes of the entry's array. -/
structure File where
  name : List UInt8
  data : List UInt8
  deriving DecidableEq, Repr

def File.nameStr (f : File) : List UInt8 := if validUtf8 f.name then f.name else []

/-- The first `FILE_COUNT` slots of the table. -/
structure FileTable where
  files : List (Option File)
  length_le : files.length ≤ MAX_FILES

namespace FileTable

def init : FileTable := ⟨[], Nat.zero_le _⟩

theorem snoc_le {files : List (Option File)} (h : files.length < MAX_FILES) (file : Option File) :
    (files ++ [file]).length ≤ MAX_FILES := by
  rw [List.length_append]
  exact h

def registerFile (t : FileTable) (name data : List UInt8) : FileTable :=
  if h : t.files.length < MAX_FILES then ⟨t.files ++ [some ⟨name.take (min name.length 64), data⟩], snoc_le h _⟩
  else t

def findFile (t : FileTable) (name : List UInt8) : Option (List UInt8) :=
  t.files.findSome? fun o => o.bind fun f => if f.nameStr = name then some f.data else none

/-- What `for_each_file` calls `f` with, in order. -/
def listing (t : FileTable) : List (List UInt8 × Nat) :=
  t.files.filterMap fun o => o.map fun f => (f.nameStr, f.data.length)

/-- The table with the first entry of that name emptied, and whether there was one. -/
def clearFirst (name : List UInt8) : List (Option File) → List (Option File) × Bool
  | [] => ([], false)
  | none :: fs => (none :: (clearFirst name fs).1, (clearFirst name fs).2)
  | some f :: fs =>
    if f.nameStr = name then (none :: fs, true) else (some f :: (clearFirst name fs).1, (clearFirst name fs).2)

@[simp] theorem clearFirst_length (name : List UInt8) : ∀ fs, (clearFirst name fs).1.length = fs.length
  | [] => rfl
  | none :: fs => by simp [clearFirst, clearFirst_length name fs]
  | some f :: fs => by
    unfold clearFirst
    split
    · rfl
    · simp [clearFirst_length name fs]

def removeFile (t : FileTable) (name : List UInt8) : FileTable × Bool :=
  (⟨(clearFirst name t.files).1, by rw [clearFirst_length]; exact t.length_le⟩, (clearFirst name t.files).2)

end FileTable

/-! ## The map -/

inductive FileOp where
  | register (name data : List UInt8)
  | remove (name : List UInt8)
  deriving DecidableEq, Repr

def FileOp.Valid : FileOp → Prop
  | .register name _ | .remove name => validUtf8 name ∧ name.length ≤ 64

/-- The last registration of each name that no removal follows. -/
def lastWrite (m : List UInt8 → Option (List UInt8)) : FileOp → List UInt8 → Option (List UInt8)
  | .register name data => fun n => if n = name then some data else m n
  | .remove name => fun n => if n = name then none else m n

structure Session where
  table : FileTable
  map : List UInt8 → Option (List UInt8)

namespace Session

def init : Session := ⟨.init, fun _ => none⟩

def step (s : Session) : FileOp → Except Unit Session
  | .register name data => .ok ⟨s.table.registerFile name data, lastWrite s.map (.register name data)⟩
  | .remove name => .ok ⟨(s.table.removeFile name).1, lastWrite s.map (.remove name)⟩

/-- The table finds what the map holds and lists every name of it once. -/
def Agrees (s : Session) : Prop :=
  (∀ n, s.table.findFile n = s.map n) ∧
    ∀ n, (s.table.listing.map Prod.fst).count n = if (s.map n).isSome then 1 else 0

/-- A registration is made while the name has no entry and a slot is left; in a full table it only
repeats what is there. -/
def Fresh (s : Session) : FileOp → Prop
  | .register name data =>
    (s.table.files.length < MAX_FILES ∧ s.map name = none) ∨
      (MAX_FILES ≤ s.table.files.length ∧ s.map name = some data)
  | .remove _ => True

/-- No more names are registered than the table has slots. -/
def Bounded (s : Session) : Prop :=
  ∃ names : List (List UInt8), names.length ≤ MAX_FILES ∧ ∀ n, (s.map n).isSome → n ∈ names

end Session

/-! ## Operations -/

section
variable {t : FileTable} {name data : List UInt8}

theorem registerFile_full (h : MAX_FILES ≤ t.files.length) : t.registerFile name data = t := by
  unfold FileTable.registerFile
  rw [dif_neg (by omega)]

theorem registerFile_files (h : t.files.length < MAX_FILES) (hlen : name.length ≤ 64) :
    (t.registerFile name data).files = t.files ++ [some ⟨name, data⟩] := by
  unfold FileTable.registerFile
  rw [dif_pos h]
  dsimp only
  rw [List.take_of_length_le (by omega)]

theorem nameStr_valid (hv : validUtf8 name) : File.nameStr ⟨name, data⟩ = name := if_pos hv

theorem findFile_register (h : t.files.length < MAX_FILES) (hv : validUtf8 name) (hlen : name.length ≤ 64)
    (n : List UInt8) :
    (t.registerFile name data).findFile n = (t.findFile n).or (if n = name then some data else none) := by
  unfold FileTable.findFile
  rw [registerFile_files h hlen, List.findSome?_append]
  congr 1
  by_cases hn : n = name
  · simp [nameStr_valid hv, hn]
  · simp [nameStr_valid hv, hn, Ne.symm hn]

theorem listing_register (h : t.files.length < MAX_FILES) (hv : validUtf8 name) (hlen : name.length ≤ 64) :
    (t.registerFile name data).listing.map Prod.fst = t.listing.map Prod.fst ++ [name] := by
  unfold FileTable.listing
  rw [registerFile_files h hlen, List.filterMap_append, List.map_append]
  simp [nameStr_valid hv]

theorem listing_clearFirst (name : List UInt8) : ∀ fs : List (Option File),
    ((FileTable.clearFirst name fs).1.filterMap fun o => o.map fun f => (f.nameStr, f.data.length)).map Prod.fst =
      ((fs.filterMap fun o => o.map fun f => (f.nameStr, f.data.length)).map Prod.fst).erase name
  | [] => rfl
  | none :: fs => by simpa [FileTable.clearFirst] using listing_clearFirst name fs
  | some f :: fs => by
    unfold FileTable.clearFirst
    by_cases h : f.nameStr = name
    · simp [h]
    · have ih := listing_clearFirst name fs
      simp only [h, if_false, List.filterMap_cons, Option.map_some, List.map_cons]
      rw [ih, List.erase_cons_tail (by simpa using h)]

theorem listing_remove (name : List UInt8) :
    (t.removeFile name).1.listing.map Prod.fst = (t.listing.map Prod.fst).erase name :=
  listing_clearFirst name t.files

theorem findFile_remove_of_ne {n : List UInt8} (h : n ≠ name) :
    (t.removeFile name).1.findFile n = t.findFile n := by
  have key : ∀ fs : List (Option File),
      (FileTable.clearFirst name fs).1.findSome? (fun o => o.bind fun f => if f.nameStr = n then some f.data
      else none) =
        fs.findSome? (fun o => o.bind fun f => if f.nameStr = n then some f.data else none) := by
    intro fs
    induction fs with
    | nil => rfl
    | cons o fs ih =>
      cases o with
      | none => simpa [FileTable.clearFirst] using ih
      | some f =>
        unfold FileTable.clearFirst
        by_cases hf : f.nameStr = name
        · simp [hf, Ne.symm h]
        · by_cases hn : f.nameStr = n
          · simp [hn, h]
          · simp [hf, hn, ih]
  exact key t.files

theorem findFile_eq_none {n : List UInt8} (h : (t.listing.map Prod.fst).count n = 0) : t.findFile n = none := by
  have hmem := List.count_eq_zero.mp h
  unfold FileTable.findFile
  rw [List.findSome?_eq_none_iff]
  intro o ho
  cases o with
  | none => rfl
  | some f =>
    have hne : f.nameStr ≠ n := by
      intro hf
      apply hmem
      simp only [FileTable.listing, List.mem_map, List.mem_filterMap]
      exact ⟨_, ⟨some f, ho, rfl⟩, hf⟩
    simp [hne]

end

/-! ## Steps and runs -/

section
variable {s s' : Session}

theorem agrees_register {name data : List UInt8} (hs : s.Agrees) (hv : validUtf8 name) (hlen : name.length ≤ 64)
    (hst : s.step (.register name data) = .ok s') : s'.Agrees ↔ s.Fresh (.register name data) := by
  cases hst
  obtain ⟨hfind, hlist⟩ := hs
  by_cases hfull : s.table.files.length < MAX_FILES
  · unfold Session.Agrees Session.Fresh
    simp only [findFile_register hfull hv hlen, listing_register hfull hv hlen, lastWrite]
    constructor
    · intro ⟨_, hcount⟩
      -- a second entry of the name would be listed beside the first
      have h1 := hcount name
      rw [List.count_append, hlist name] at h1
      refine .inl ⟨hfull, ?_⟩
      cases hm : s.map name with
      | none => rfl
      | some d => simp [hm] at h1
    · intro hfresh
      have hnone : s.map name = none := by
        obtain ⟨-, h⟩ | ⟨h, -⟩ := hfresh
        · exact h
        · omega
      refine ⟨fun n => ?_, fun n => ?_⟩
      · by_cases hn : n = name
        · subst hn
          simp [hfind, hnone]
        · simp [hfind, hn]
      · rw [List.count_append, hlist n]
        by_cases hn : n = name
        · subst hn
          simp [hnone]
        · have hz : [name].count n = 0 := List.count_eq_zero.mpr (by simpa using hn)
          simp [hn, hz]
  · have hge : MAX_FILES ≤ s.table.files.length := by omega
    unfold Session.Agrees Session.Fresh
    simp only [registerFile_full hge, lastWrite]
    constructor
    · intro ⟨hf, _⟩
      have h1 := hf name
      rw [hfind name] at h1
      exact .inr ⟨hge, by simpa using h1⟩
    · intro hfresh
      have hsame : s.map name = some data := by
        obtain ⟨h, -⟩ | ⟨-, h⟩ := hfresh
        · omega
        · exact h
      refine ⟨fun n => ?_, fun n => ?_⟩
      · by_cases hn : n = name
        · subst hn
          simp [hfind, hsame]
        · simp [hfind, hn]
      · rw [hlist n]
        by_cases hn : n = name
        · subst hn
          simp [hsame]
        · simp [hn]

theorem agrees_remove {name : List UInt8} (hs : s.Agrees) (hst : s.step (.remove name) = .ok s') : s'.Agrees := by
  cases hst
  obtain ⟨hfind, hlist⟩ := hs
  have hcount : ∀ n, ((s.table.listing.map Prod.fst).erase name).count n =
      if (lastWrite s.map (.remove name) n).isSome then 1 else 0 := by
    intro n
    by_cases hn : n = name
    · subst hn
      rw [List.count_erase_self, hlist n]
      simp only [lastWrite, if_true, Option.isSome_none]
      split <;> rfl
    · rw [List.count_erase_of_ne hn, hlist n]
      simp [lastWrite, hn]
  refine ⟨fun n => ?_, fun n => ?_⟩
  · by_cases hn : n = name
    · subst hn
      have hz := hcount n
      rw [← listing_remove] at hz
      simp only [lastWrite, if_true] at hz ⊢
      exact findFile_eq_none hz
    · rw [findFile_remove_of_ne hn, hfind n]
      simp [lastWrite, hn]
  · rw [listing_remove]
    exact hcount n

theorem agrees_step {op : FileOp} (hs : s.Agrees) (hv : op.Valid) (hst : s.step op = .ok s') :
    s'.Agrees ↔ s.Fresh op := by
  cases op with
  | register name data => exact agrees_register hs hv.1 hv.2 hst
  | remove name => exact iff_of_true (agrees_remove hs hst) trivial

end

/-- The table is a last-write-wins map in every state of a session exactly when every registration is
fresh. -/
theorem fileTable_agrees_iff {ops : List FileOp} (hops : ∀ op ∈ ops, op.Valid) :
    Always Session.step Session.Agrees Session.init ops ↔ AllSteps Session.step Session.Fresh Session.init ops := by
  have hinit : Session.init.Agrees := by
    refine ⟨fun n => rfl, fun n => ?_⟩
    simp [Session.init, FileTable.init, FileTable.listing]
  have hvalid : AllSteps Session.step (fun _ op => op.Valid) Session.init ops :=
    allSteps_of_forall fun _ op hop => hops op hop
  exact always_iff_allSteps (fun _ _ _ hP hD hst => agrees_step hP hD hst) hinit hvalid

theorem fileTable_agrees_rewrite :
    Always Session.step Session.Agrees Session.init
      [.register (utf8 "a") [1], .remove (utf8 "a"), .register (utf8 "a") [2]] := by
  refine (fileTable_agrees_iff ?_).mpr ?_
  · intro op hop
    simp only [List.mem_cons, List.not_mem_nil, or_false] at hop
    obtain rfl | rfl | rfl := hop
    all_goals exact ⟨by decide, by decide⟩
  · intro s₁ h₁
    cases h₁
    refine ⟨.inl ⟨by decide, rfl⟩, fun s₂ h₂ => ?_⟩
    cases h₂
    refine ⟨trivial, fun s₃ h₃ => ?_⟩
    cases h₃
    exact ⟨.inl ⟨by decide, rfl⟩, trivial⟩

/-- The second of two writes to one name is not seen. -/
theorem fileTable_stale_read : ¬ ∀ ops : List FileOp, (∀ op ∈ ops, op.Valid) →
    Always Session.step Session.Bounded Session.init ops → Always Session.step Session.Agrees Session.init ops := by
  intro hall
  have hvalid : ∀ op ∈ [FileOp.register (utf8 "a") [1], .register (utf8 "a") [2]], op.Valid := by
    intro op hop
    simp only [List.mem_cons, List.not_mem_nil, or_false] at hop
    obtain rfl | rfl := hop
    all_goals exact ⟨by decide, by decide⟩
  have hbounded : Always Session.step Session.Bounded Session.init
      [.register (utf8 "a") [1], .register (utf8 "a") [2]] := by
    refine ⟨⟨[], by decide, fun n hn => by cases hn⟩, fun s₁ h₁ => ?_⟩
    cases h₁
    have hname : ∀ (m : List UInt8 → Option (List UInt8)) (d n : List UInt8), (∀ n, (m n).isSome → n ∈ [utf8 "a"]) →
        (lastWrite m (.register (utf8 "a") d) n).isSome → n ∈ [utf8 "a"] := by
      intro m d n hm hn
      by_cases h : n = utf8 "a"
      · simp [h]
      · exact hm n (by simpa [lastWrite, h] using hn)
    have h1 : ∀ n, (lastWrite (fun _ => none) (.register (utf8 "a") [1]) n).isSome → n ∈ [utf8 "a"] :=
      fun n => hname _ _ n fun n hn => by cases hn
    refine ⟨⟨[utf8 "a"], by decide, h1⟩, fun s₂ h₂ => ?_⟩
    cases h₂
    exact ⟨[utf8 "a"], by decide, fun n => hname _ _ n h1⟩
  have h2 := ((hall _ hvalid hbounded).2 _ rfl).2 _ rfl
  have h3 := h2.1 (utf8 "a")
  revert h3
  decide

end WasmOs.Fs
