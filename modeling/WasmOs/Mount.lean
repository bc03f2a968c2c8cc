import WasmOs.FileTable
import WasmOs.Pools
import WasmOs.WasmFsSound

/-!
# Mounting at boot

`mount_from_blk` copies the files of a WasmFS volume into the arena of `fs/mod.rs` and registers each of them;
`mount_from_image` registers slices of an embedded image. What the writes and deletions of one session leave on
the disk is what the table of the next one finds, as far as the arena has room.
-/

namespace WasmOs.Fs

open Bump Pools Runs WasmFs

/-! ## The arena and the table over it -/

/-- An entry of `FILE_TABLE` whose data lies in `FILE_BUF`. -/
structure ArenaFile where
  name : List UInt8
  data : Region

/-- `FILE_BUF`, `FILE_BUF_NEXT` and the registered files. -/
structure FileStore where
  buf : Nat → UInt8
  next : Nat
  files : List ArenaFile
  length_le : files.length ≤ MAX_FILES

namespace FileStore

/-- Nothing is known of the arena's bytes at boot. -/
def boot (buf : Nat → UInt8) : FileStore := ⟨buf, 0, [], Nat.zero_le _⟩

def table (st : FileStore) : FileTable where
  files := st.files.map fun f => some ⟨f.name, slice st.buf f.data.start f.data.len⟩
  length_le := by
    rw [List.length_map]
    exact st.length_le

theorem snoc_le {files : List ArenaFile} (h : files.length < MAX_FILES) (f : ArenaFile) :
    (files ++ [f]).length ≤ MAX_FILES := by
  rw [List.length_append]
  exact h

def registerFile (st : FileStore) (name : List UInt8) (data : Region) : FileStore :=
  if h : st.files.length < MAX_FILES then
    { st with files := st.files ++ [⟨name.take (min name.length 64), data⟩], length_le := snoc_le h _ }
  else st

/-- The cursor is in the arena and every file lies before it. -/
structure Wf (st : FileStore) : Prop where
  next : st.next ≤ FILE_BUF_SIZE
  before : ∀ f ∈ st.files, f.data.stop ≤ st.next

section
variable {st : FileStore} {name data : List UInt8} {ptr : Nat}

theorem boot_wf (buf : Nat → UInt8) : (boot buf).Wf := ⟨Nat.zero_le _, fun _ hf => absurd hf List.not_mem_nil⟩

theorem table_length : st.table.files.length = st.files.length := List.length_map ..

theorem registerFile_table (region : Region) :
    (st.registerFile name region).table = st.table.registerFile name (slice st.buf region.start region.len) := by
  unfold registerFile FileTable.registerFile
  by_cases h : st.files.length < MAX_FILES
  · rw [dif_pos h, dif_pos (by rwa [table_length])]
    simp [table]
  · rw [dif_neg h, dif_neg (by rwa [table_length])]

/-- The slot at the cursor, filled; the slices handed out before keep their bytes. -/
def load (st : FileStore) (name data : List UInt8) : FileStore :=
  registerFile { st with buf := blit st.buf (alignUp st.next 8) data, next := alignUp st.next 8 + data.length } name
    ⟨alignUp st.next 8, data.length⟩

theorem slice_blit_before {buf : Nat → UInt8} {r : Region} (h : r.stop ≤ ptr) :
    slice (blit buf ptr data) r.start r.len = slice buf r.start r.len := by
  unfold Region.stop at h
  apply List.ext_getElem
  · simp
  · intro j hj _
    rw [slice_length] at hj
    rw [slice_getElem, slice_getElem, blit_apply, dif_neg (by omega)]

theorem slice_blit_self (buf : Nat → UInt8) : slice (blit buf ptr data) ptr data.length = data := by
  apply List.ext_getElem
  · simp
  · intro j hj hj'
    rw [slice_getElem, blit_add _ _ hj']

theorem load_table (h : st.Wf) : (st.load name data).table = st.table.registerFile name data := by
  unfold load
  rw [registerFile_table, slice_blit_self]
  congr 1
  unfold table
  congr 1
  apply List.map_congr_left
  intro f hf
  dsimp only
  rw [slice_blit_before (Nat.le_trans (h.before f hf) (le_alignUp (by decide)))]

@[simp] theorem registerFile_next (region : Region) : (st.registerFile name region).next = st.next := by
  unfold registerFile
  split <;> rfl

@[simp] theorem load_next : (st.load name data).next = alignUp st.next 8 + data.length := registerFile_next _

theorem load_wf (h : st.Wf) (hfit : alignUp st.next 8 + data.length ≤ FILE_BUF_SIZE) : (st.load name data).Wf := by
  refine ⟨by rwa [load_next], fun f hf => ?_⟩
  rw [load_next]
  have hold : ∀ f ∈ st.files, f.data.stop ≤ alignUp st.next 8 + data.length := fun f hf =>
    Nat.le_trans (h.before f hf) (Nat.le_trans (le_alignUp (by decide)) (Nat.le_add_right _ _))
  unfold load registerFile at hf
  split at hf
  · rcases List.mem_append.mp hf with hf | hf
    · exact hold f hf
    · rw [List.mem_singleton.mp hf]
      exact Nat.le_refl _
  · exact hold f hf

end

/-! ## Loading one file after the other -/

def HasRoom (st : FileStore) (data : List UInt8) : Prop := alignUp st.next 8 + data.length ≤ FILE_BUF_SIZE

instance (st : FileStore) (data : List UInt8) : Decidable (st.HasRoom data) := inferInstanceAs (Decidable (_ ≤ _))

/-- A file, where there is one, goes into the arena if it has room there. -/
def loadOne (st : FileStore) : Option (List UInt8 × List UInt8) → FileStore × Bool
  | none => (st, false)
  | some f => if st.HasRoom f.2 then (st.load f.1 f.2, true) else (st, false)

def loadAll (st : FileStore) : List (List UInt8 × List UInt8) → FileStore
  | [] => st
  | f :: fs => if st.HasRoom f.2 then (st.load f.1 f.2).loadAll fs else st.loadAll fs

def loaded (st : FileStore) : List (List UInt8 × List UInt8) → List (List UInt8 × List UInt8)
  | [] => []
  | f :: fs => if st.HasRoom f.2 then f :: (st.load f.1 f.2).loaded fs else st.loaded fs

def sizes (fs : List (List UInt8 × List UInt8)) : Nat := (fs.map fun f => alignUp f.2.length 8).sum

section
variable {st : FileStore} {f : List UInt8 × List UInt8} {fs : List (List UInt8 × List UInt8)}

theorem loadOne_of_room (h : st.HasRoom f.2) : st.loadOne (some f) = (st.load f.1 f.2, true) := if_pos h

theorem loadOne_of_full (h : ¬ st.HasRoom f.2) : st.loadOne (some f) = (st, false) := if_neg h

theorem loadAll_of_room (h : st.HasRoom f.2) : st.loadAll (f :: fs) = (st.load f.1 f.2).loadAll fs := if_pos h

theorem loadAll_of_full (h : ¬ st.HasRoom f.2) : st.loadAll (f :: fs) = st.loadAll fs := if_neg h

theorem loaded_of_room (h : st.HasRoom f.2) : st.loaded (f :: fs) = f :: (st.load f.1 f.2).loaded fs := if_pos h

theorem loaded_of_full (h : ¬ st.HasRoom f.2) : st.loaded (f :: fs) = st.loaded fs := if_neg h

theorem loaded_sublist : ∀ (fs : List (List UInt8 × List UInt8)) (st : FileStore), (st.loaded fs).Sublist fs
  | [], _ => .slnil
  | f :: fs, st => by
    by_cases hroom : st.HasRoom f.2
    · rw [loaded_of_room hroom]
      exact (loaded_sublist fs _).cons_cons f
    · rw [loaded_of_full hroom]
      exact (loaded_sublist fs _).cons f

theorem alignUp_add {a n : Nat} (h : 8 ∣ a) : alignUp (a + n) 8 = a + alignUp n 8 := by
  unfold alignUp
  omega

/-- All of them have room exactly if their sizes, each rounded up, fit behind the cursor. -/
theorem loaded_eq_iff : ∀ (fs : List (List UInt8 × List UInt8)) {st : FileStore}, st.Wf →
    (st.loaded fs = fs ↔ alignUp st.next 8 + sizes fs ≤ FILE_BUF_SIZE)
  | [], st, h => by
    have hup : alignUp st.next 8 ≤ FILE_BUF_SIZE := alignUp_le (by decide) (by decide) h.next
    simpa [loaded, sizes] using hup
  | f :: fs, st, h => by
    have hsizes : sizes (f :: fs) = alignUp f.2.length 8 + sizes fs := by simp [sizes]
    have hle : f.2.length ≤ alignUp f.2.length 8 := le_alignUp (by decide)
    rw [hsizes]
    by_cases hroom : st.HasRoom f.2
    · rw [loaded_of_room hroom]
      have hwf : (st.load f.1 f.2).Wf := load_wf h hroom
      have ih := loaded_eq_iff fs hwf
      rw [load_next, alignUp_add dvd_alignUp] at ih
      rw [List.cons.injEq, ih]
      simp only [true_and]
      rw [Nat.add_assoc]
    · rw [loaded_of_full hroom]
      unfold HasRoom at hroom
      constructor
      · intro heq
        -- the rest alone is shorter
        have hlen := (loaded_sublist fs st).length_le
        rw [heq, List.length_cons] at hlen
        omega
      · omega

/-- A name that the table can hold. -/
def Named (f : List UInt8 × List UInt8) : Prop := validUtf8 f.1 ∧ f.1.length ≤ 64

theorem loadAll_files : ∀ (fs : List (List UInt8 × List UInt8)) {st : FileStore}, st.Wf → (∀ f ∈ fs, Named f) →
    st.files.length + fs.length ≤ MAX_FILES →
    (st.loadAll fs).table.files = st.table.files ++ (st.loaded fs).map fun f => some ⟨f.1, f.2⟩
  | [], st, _, _, _ => by simp [loadAll, loaded]
  | f :: fs, st, h, hnamed, hlen => by
    have hrest : ∀ g ∈ fs, Named g := fun g hg => hnamed g (.tail _ hg)
    rw [List.length_cons] at hlen
    by_cases hroom : st.HasRoom f.2
    · rw [loadAll_of_room hroom, loaded_of_room hroom]
      have hfiles : (st.load f.1 f.2).table.files = st.table.files ++ [some ⟨f.1, f.2⟩] := by
        rw [load_table h]
        apply registerFile_files
        · rw [table_length]
          omega
        · exact (hnamed f (.head _)).2
      have hcount : (st.load f.1 f.2).files.length = st.files.length + 1 := by
        rw [← table_length, hfiles, List.length_append, table_length]
        rfl
      rw [loadAll_files fs (load_wf h hroom) hrest (by omega), hfiles]
      simp
    · rw [loadAll_of_full hroom, loaded_of_full hroom]
      exact loadAll_files fs h hrest (by omega)

theorem boot_files (buf : Nat → UInt8) (hnamed : ∀ f ∈ fs, Named f) (hlen : fs.length ≤ MAX_FILES) :
    ((boot buf).loadAll fs).table.files = ((boot buf).loaded fs).map fun f => some ⟨f.1, f.2⟩ := by
  have hcount : (boot buf).files.length + fs.length ≤ MAX_FILES := by
    rw [boot, List.length_nil, Nat.zero_add]
    exact hlen
  rw [loadAll_files fs (boot_wf buf) hnamed hcount]
  rfl

theorem boot_loaded_iff (buf : Nat → UInt8) : (boot buf).loaded fs = fs ↔ sizes fs ≤ FILE_BUF_SIZE := by
  have hzero : alignUp (boot buf).next 8 = 0 := by simp [boot, alignUp]
  rw [loaded_eq_iff fs (boot_wf buf), hzero, Nat.zero_add]

end

end FileStore

/-- A table of files that are as `files` says finds exactly them. -/
theorem findFile_of_files {t : FileTable} {fs : List (List UInt8 × List UInt8)}
    {files : List UInt8 → Option (List UInt8)}
    (h : t.files = fs.map fun f => some ⟨f.1, f.2⟩) (hnamed : ∀ f ∈ fs, FileStore.Named f)
    (hfiles : ∀ f ∈ fs, files f.1 = some f.2)
    (name data : List UInt8) : t.findFile name = some data ↔ (name, data) ∈ fs := by
  unfold FileTable.findFile
  rw [h, List.findSome?_map]
  -- whatever is found is some file of that name
  have hfound : ∀ d,
      (fs.findSome? ((fun o => o.bind fun f : File => if f.nameStr = name then some f.data else none) ∘
      fun f => some ⟨f.1, f.2⟩)) = some d → (name, d) ∈ fs := by
    intro d hfind
    obtain ⟨f, hf, hsome⟩ := List.exists_of_findSome?_eq_some hfind
    simp only [Function.comp, Option.bind_some, nameStr_valid (hnamed f hf).1] at hsome
    split at hsome
    · rename_i hname
      cases hsome
      rw [← hname]
      exact hf
    · cases hsome
  constructor
  · exact hfound data
  · intro hmem
    cases hfind : fs.findSome? _ with
    | none =>
      have hno := List.findSome?_eq_none_iff.mp hfind _ hmem
      simp [nameStr_valid (hnamed _ hmem).1] at hno
    | some d =>
      have hd := hfiles _ (hfound d hfind)
      rw [hfiles _ hmem] at hd
      exact hd.symm

theorem FileStore.boot_findFile (buf : Nat → UInt8) {fs : List (List UInt8 × List UInt8)}
    {files : List UInt8 → Option (List UInt8)}
    (hnamed : ∀ f ∈ fs, FileStore.Named f) (hlen : fs.length ≤ MAX_FILES) (hfiles : ∀ f ∈ fs, files f.1 = some f.2)
    (name data : List UInt8) :
    ((FileStore.boot buf).loadAll fs).table.findFile name = some data ↔
    (name, data) ∈ (FileStore.boot buf).loaded fs := by
  have hsub := FileStore.loaded_sublist fs (.boot buf)
  apply findFile_of_files (FileStore.boot_files buf hnamed hlen)
  · intro f hf
    exact hnamed f (hsub.subset hf)
  · intro f hf
    exact hfiles f (hsub.subset hf)

theorem nonempty_eq_some {read : Option (List UInt8)} {n name data : List UInt8} :
    (read.bind fun d => if d = [] then none else some (n, d)) = some (name, data) ↔
    n = name ∧ read = some data ∧ data ≠ [] := by
  rw [Option.bind_eq_some_iff]
  constructor
  · rintro ⟨d, hread, hd⟩
    split at hd
    · cases hd
    · cases hd
      exact ⟨rfl, hread, by assumption⟩
  · rintro ⟨rfl, hread, hne⟩
    exact ⟨data, hread, if_neg hne⟩

/-! ## `mount_from_blk` -/

namespace WasmFs

section
variable {σ : Type} (D : BlockDevice σ)

def fsClose (fs : WasmFs σ) (fd : Nat) : WasmFs σ :=
  if fd < MAX_OPEN_FILES then { fs with opened := upd fs.opened fd { fs.opened fd with inUse := false } } else fs

/-- One turn of the loop of `mount_from_blk`, and whether it counts. -/
def mountEntry (wfs : WasmFs σ) (st : FileStore) (e : DirEntry) : Rust Unit (WasmFs σ × FileStore × Bool) :=
  if !e.isValid then .ok (wfs, st, false)
  else
    let size := e.size.toNat
    if size = 0 then .ok (wfs, st, false)
    else do
      let (slot, next) ← mapErr Empty.elim (allocDiskSlot st.next size)
      let st := { st with next := next }
      match slot with
      | none => .ok (wfs, st, false)
      | some ptr => do
        let (wfs, fd) ← wfs.fsOpen D e.nameStr
        match fd with
        | none => .ok (wfs, st, false)
        | some fd => do
          let (wfs, bytes) ← wfs.fsRead D fd size size
          let wfs := wfs.fsClose fd
          let st := { st with buf := blit st.buf ptr bytes }
          if bytes.length ≠ size then .ok (wfs, st, false)
          else .ok (wfs, st.registerFile e.nameStr ⟨ptr, size⟩, true)

def mountEntries (dir : Nat → UInt8) :
    List Nat → WasmFs σ → FileStore → Nat → Rust Unit (WasmFs σ × FileStore × Nat)
  | [], wfs, st, count => .ok (wfs, st, count)
  | i :: is, wfs, st, count => do
    let (wfs, st, mounted) ← mountEntry D wfs st (readEntry dir i)
    mountEntries dir is wfs st (if mounted then count + 1 else count)

def mountFromBlk (dev : σ) (st : FileStore) : Rust Unit (σ × FileStore × Nat) := do
  let (dev, dir) ← readDirBlock D dev
  let (wfs, st, count) ← mountEntries D dir (List.range DIR_ENTRIES_PER_BLOCK) (.new dev) st 0
  .ok (wfs.dev, st, count)

end

/-! ## `mount_from_image` -/

/-- One turn of the loop; the slice is taken of an image that is long enough for it. -/
def mountImageEntry (img : List UInt8) (t : FileTable) (i : Nat) : FileTable :=
  let e := readEntry (fun k => img.getD k 0) i
  if e.isValid then
    let start := e.startBlock.toNat * BLOCK_SIZE
    let stop := start + e.size.toNat
    if stop ≤ img.length then t.registerFile e.nameStr ((img.drop start).take (stop - start)) else t
  else t

def mountFromImage (img : List UInt8) (t : FileTable) : FileTable :=
  if img.length < BLOCK_SIZE then t else (List.range DIR_ENTRIES_PER_BLOCK).foldl (mountImageEntry img) t

end WasmFs

/-! ## What the directory holds -/

section
variable {σ : Type} {D : BlockDevice σ} {count : Nat} {contents : σ → Nat → Nat → UInt8} {dev : σ}
variable {files : List UInt8 → Option (List UInt8)} {name data : List UInt8}

/-- The name and the data of an entry that holds something. -/
def heldBy (files : List UInt8 → Option (List UInt8)) (e : DirEntry) : Option (List UInt8 × List UInt8) :=
  if e.isValid then (files e.nameStr).bind fun d => if d = [] then none else some (e.nameStr, d) else none

/-- The files of the directory that hold something, in the order of their entries. -/
def held (contents : σ → Nat → Nat → UInt8) (dev : σ) (files : List UInt8 → Option (List UInt8)) (is : List Nat) :
    List (List UInt8 × List UInt8) := is.filterMap fun i => heldBy files (entryAt contents dev i)

theorem heldBy_eq_some {e : DirEntry} : heldBy files e = some (name, data) ↔ e.isValid ∧ e.nameStr = name ∧
    files name = some data ∧ data ≠ [] := by
  unfold heldBy
  by_cases hv : e.isValid
  · rw [if_pos hv, nonempty_eq_some]
    constructor
    · rintro ⟨rfl, hrest⟩
      exact ⟨hv, rfl, hrest⟩
    · rintro ⟨-, rfl, hrest⟩
      exact ⟨rfl, hrest⟩
  · simp [hv]

theorem DirEntry.nameStr_named (e : DirEntry) (data : List UInt8) : FileStore.Named (e.nameStr, data) := by
  have hlen : e.nameStr.length ≤ 32 := by
    unfold DirEntry.nameStr
    dsimp only
    split
    · rw [← e.name_length]
      exact (List.takeWhile_sublist _).length_le
    · exact Nat.zero_le _
  refine ⟨?_, Nat.le_trans hlen (by decide)⟩
  show validUtf8 e.nameStr = true
  unfold DirEntry.nameStr
  dsimp only
  split
  · assumption
  · rfl

theorem held_named {is : List Nat} : ∀ f ∈ held contents dev files is, FileStore.Named f := by
  intro f hf
  obtain ⟨i, -, hsome⟩ := List.mem_filterMap.mp hf
  obtain ⟨-, hname, -⟩ := heldBy_eq_some.mp hsome
  have hnamed := (entryAt contents dev i).nameStr_named f.2
  rwa [hname] at hnamed

theorem Intact.mem_held (h : Intact count contents dev files) :
    (name, data) ∈ held contents dev files (List.range DIR_ENTRIES_PER_BLOCK) ↔ files name = some data ∧
    data ≠ [] := by
  unfold held
  rw [List.mem_filterMap]
  constructor
  · rintro ⟨i, -, hsome⟩
    exact (heldBy_eq_some.mp hsome).2.2
  · rintro ⟨hfile, hne⟩
    obtain ⟨i, hi, hv, hname⟩ := h.listed name data hfile
    exact ⟨i, List.mem_range.mpr hi, heldBy_eq_some.mpr ⟨hv, hname, hfile, hne⟩⟩

theorem Intact.held_nodup (h : Intact count contents dev files) :
    (held contents dev files (List.range DIR_ENTRIES_PER_BLOCK)).Nodup := by
  unfold held List.Nodup
  rw [List.pairwise_filterMap]
  apply List.nodup_range.imp_of_mem
  intro i j hi hj hne f hf g hg hfg
  obtain ⟨hvi, hnamei, -⟩ := heldBy_eq_some.mp hf
  obtain ⟨hvj, hnamej, -⟩ := heldBy_eq_some.mp hg
  apply hne
  apply h.unique i (List.mem_range.mp hi) j (List.mem_range.mp hj) hvi hvj
  rw [hnamei, hnamej, hfg]

/-- What the nonempty files of the directory take in the arena. -/
def roomFor (contents : σ → Nat → Nat → UInt8) (dev : σ) : Nat :=
  ((List.range DIR_ENTRIES_PER_BLOCK).map fun i =>
    if (entryAt contents dev i).isValid then alignUp (entryAt contents dev i).size.toNat 8 else 0).sum

theorem Intact.roomFor_eq (h : Intact count contents dev files) :
    roomFor contents dev = FileStore.sizes (held contents dev files (List.range DIR_ENTRIES_PER_BLOCK)) := by
  have key : ∀ is : List Nat, (∀ i ∈ is, i < DIR_ENTRIES_PER_BLOCK) →
      (is.map fun i => if (entryAt contents dev i).isValid then alignUp (entryAt contents dev i).size.toNat 8
      else 0).sum =
        FileStore.sizes (held contents dev files is) := by
    intro is
    induction is with
    | nil => exact fun _ => rfl
    | cons i is ih =>
      intro his
      have hrest := ih fun j hj => his j (.tail _ hj)
      rw [List.map_cons, List.sum_cons, hrest]
      unfold held FileStore.sizes
      rw [List.filterMap_cons]
      by_cases hv : (entryAt contents dev i).isValid
      · obtain ⟨d, hfile, hsize, -⟩ := h.file i (his i (.head _)) hv
        rw [if_pos hv, hsize]
        by_cases hd : d = []
        · simp [heldBy, hv, hfile, hd, alignUp]
        · simp [heldBy, hv, hfile, hd]
      · simp [heldBy, hv]
  exact key _ fun i hi => List.mem_range.mp hi

/-! ## Mounting reads each file as it was written -/

theorem Intact.entry_found (h : Intact count contents dev files) {dir : Nat → UInt8}
    (hdir : ∀ k < BLOCK_SIZE, dir k = contents dev DIR_BLOCK k) {i : Nat} (hi : i < DIR_ENTRIES_PER_BLOCK)
    (hv : (entryAt contents dev i).isValid) : WasmFs.lookup dir (entryAt contents dev i).nameStr = some i := by
  cases hl : WasmFs.lookup dir (entryAt contents dev i).nameStr with
  | none =>
    rw [← entryAt_of_dir hdir hi] at hv hl
    exact absurd rfl (lookup_none hl hi hv)
  | some j =>
    obtain ⟨hj, hvj, hname⟩ := lookup_some hl
    rw [entryAt_of_dir hdir hj] at hvj hname
    rw [h.unique j hj i hi hvj hv hname]

namespace WasmFs

def AllFree (wfs : WasmFs σ) : Prop := ∀ fd < MAX_OPEN_FILES, (wfs.opened fd).inUse = false

theorem fsClose_allFree {wfs wfs' : WasmFs σ} {fd : Nat} (hfree : wfs.AllFree) (hfd : fd < MAX_OPEN_FILES)
    (hkeep : ∀ k, k ≠ fd → wfs'.opened k = wfs.opened k) : (wfs'.fsClose fd).AllFree := by
  intro k hk
  rw [fsClose, if_pos hfd]
  by_cases heq : k = fd
  · rw [heq]
    simp
  · simp only [upd_of_ne _ _ heq]
    rw [hkeep k heq]
    exact hfree k hk

theorem entryAt_same {dev' : σ} (hD : Finite D count contents) (hsame : SameBlocks count contents dev dev')
    {i : Nat} (hi : i < DIR_ENTRIES_PER_BLOCK) : entryAt contents dev' i = entryAt contents dev i :=
  readEntry_lt (fun k hk => hsame DIR_BLOCK hD.pos k hk) hi

theorem held_same {dev' : σ} (hD : Finite D count contents) (hsame : SameBlocks count contents dev dev') :
    ∀ {is : List Nat}, (∀ i ∈ is, i < DIR_ENTRIES_PER_BLOCK) →
    held contents dev' files is = held contents dev files is
  | [], _ => rfl
  | i :: is, his => by
    have hrest := held_same hD hsame fun j hj => his j (.tail _ hj)
    unfold held at hrest ⊢
    rw [List.filterMap_cons, List.filterMap_cons, entryAt_same hD hsame (his i (.head _)), hrest]

theorem fsOpen_ok (hD : Finite D count contents) {wfs : WasmFs σ} (h : Intact count contents wfs.dev files)
    (hfree : wfs.AllFree) {i : Nat}
    (hi : i < DIR_ENTRIES_PER_BLOCK) (hv : (entryAt contents wfs.dev i).isValid) :
    ∃ dev', SameBlocks count contents wfs.dev dev' ∧ fsOpen D wfs (entryAt contents wfs.dev i).nameStr =
      .ok (⟨dev', upd wfs.opened 0 ⟨(entryAt contents wfs.dev i).startBlock.toNat,
        (entryAt contents wfs.dev i).size.toNat, 0, true⟩⟩, some 0) := by
  obtain ⟨dev', dir, hread, -, hdir, hsame⟩ := readDirBlock_ok hD.fallible (hD.readsDir wfs.dev)
  refine ⟨dev', hsame, ?_⟩
  have hslot : (List.range MAX_OPEN_FILES).find? (fun fd => !(wfs.opened fd).inUse) = some 0 := by
    have hrange : List.range MAX_OPEN_FILES = [0, 1, 2, 3] := rfl
    rw [hrange, List.find?_cons_of_pos]
    simp [hfree 0 (by decide)]
  unfold fsOpen
  rw [hread, bind_ok]
  dsimp only
  rw [h.entry_found hdir hi hv]
  dsimp only
  rw [hslot]
  dsimp only
  rw [entryAt_of_dir hdir hi]

theorem fsRead_ok (hD : Finite D count contents) (opened : Nat → OpenFile) {dev : σ} {start fd : Nat}
    (hfd : fd < MAX_OPEN_FILES)
    (hdata : DataAt count contents dev start data) (hne : data ≠ []) (hlen : data.length < 2 ^ 32)
    (hfit : start + (data.length + BLOCK_SIZE - 1) / BLOCK_SIZE < 2 ^ 32) :
    ∃ dev', SameBlocks count contents dev dev' ∧
      fsRead D ⟨dev, upd opened fd ⟨start, data.length, 0, true⟩⟩ fd data.length data.length =
        .ok (⟨dev', upd (upd opened fd ⟨start, data.length, 0, true⟩) fd ⟨start, data.length, data.length,
          true⟩⟩, data) := by
  have hpos : data.length ≠ 0 := fun h => hne (List.length_eq_zero_iff.mp h)
  obtain ⟨dev', hloop, hsame⟩ :=
    readLoop_ok hD data data.length dev ⟨start, data.length, 0, true⟩ hdata (by simp) hlen hfit
  refine ⟨dev', hsame, ?_⟩
  unfold fsRead
  have hnot : ¬ (MAX_OPEN_FILES ≤ fd ∨ !true) := by simp; omega
  simp only [upd_self, Nat.sub_zero, Nat.min_self, if_neg hnot, if_neg hpos, hloop, bind_ok]
  simp

end WasmFs

end

namespace WasmFs

section
variable {σ : Type} {D : BlockDevice σ} {count : Nat} {contents : σ → Nat → Nat → UInt8}
variable {files : List UInt8 → Option (List UInt8)}

theorem mountEntry_ok (hD : Finite D count contents) {wfs : WasmFs σ} {st : FileStore}
    (h : Intact count contents wfs.dev files)
    (hfree : wfs.AllFree) (hst : st.next ≤ FILE_BUF_SIZE) {i : Nat} (hi : i < DIR_ENTRIES_PER_BLOCK) :
    ∃ wfs', SameBlocks count contents wfs.dev wfs'.dev ∧ wfs'.AllFree ∧
      mountEntry D wfs st (entryAt contents wfs.dev i) =
      .ok (wfs', st.loadOne (heldBy files (entryAt contents wfs.dev i))) := by
  by_cases hv : (entryAt contents wfs.dev i).isValid
  · obtain ⟨data, hfile, hsize, hdata⟩ := h.file i hi hv
    by_cases hd : data = []
    · refine ⟨wfs, fun _ _ _ _ => rfl, hfree, ?_⟩
      simp [mountEntry, heldBy, hv, hsize, hfile, hd, FileStore.loadOne]
    · have hheld : heldBy files (entryAt contents wfs.dev i) = some ((entryAt contents wfs.dev i).nameStr, data) :=
        heldBy_eq_some.mpr ⟨hv, rfl, hfile, hd⟩
      have hpos : data.length ≠ 0 := fun h => hd (List.length_eq_zero_iff.mp h)
      have hlen : data.length < 2 ^ 32 := hsize ▸ (entryAt contents wfs.dev i).size.toNat_lt
      have hfit := h.fits i hi hv
      rw [DirEntry.fin, DirEntry.blocks, hsize] at hfit
      rw [hheld]
      unfold mountEntry
      simp only [hv, hsize, Bool.not_true, Bool.false_eq_true, if_false, if_neg hpos, allocDiskSlot_eq hst hlen]
      by_cases hroom : st.HasRoom data
      · obtain ⟨dev₁, hsame₁, hopen⟩ := fsOpen_ok hD h hfree hi hv
        have hdata₁ : DataAt count contents dev₁ (entryAt contents wfs.dev i).startBlock.toNat data :=
          hdata.congr fun p hp k hk => hsame₁ _ (hdata p hp).1 k hk
        obtain ⟨dev₂, hsame₂, hread⟩ :=
          fsRead_ok hD wfs.opened (show 0 < MAX_OPEN_FILES by decide) hdata₁ hd hlen (by omega)
        rw [hsize] at hopen
        have hif : data.length ≠ 0 ∧ alignUp st.next 8 + data.length ≤ FILE_BUF_SIZE := ⟨hpos, hroom⟩
        rw [if_pos hif, FileStore.loadOne_of_room hroom, mapErr_ok, bind_ok]
        dsimp only
        rw [hopen, bind_ok]
        dsimp only
        rw [hread, bind_ok]
        dsimp only
        refine ⟨_, ?_, ?_, by rw [if_neg (by simp)]; rfl⟩
        · exact hsame₁.trans hsame₂
        · apply fsClose_allFree hfree (by decide)
          intro k hk
          simp only [upd_of_ne _ _ hk]
      · have hif : ¬ (data.length ≠ 0 ∧ alignUp st.next 8 + data.length ≤ FILE_BUF_SIZE) := fun h => hroom h.2
        refine ⟨wfs, fun _ _ _ _ => rfl, hfree, ?_⟩
        rw [if_neg hif, FileStore.loadOne_of_full hroom, mapErr_ok, bind_ok]
  · refine ⟨wfs, fun _ _ _ _ => rfl, hfree, ?_⟩
    simp [mountEntry, heldBy, hv, FileStore.loadOne]

theorem mountEntries_ok (hD : Finite D count contents) {dir : Nat → UInt8} :
    ∀ (is : List Nat) {wfs : WasmFs σ} {st : FileStore} (n : Nat),
    Intact count contents wfs.dev files → wfs.AllFree → st.Wf → (∀ i ∈ is, i < DIR_ENTRIES_PER_BLOCK) →
    (∀ i < DIR_ENTRIES_PER_BLOCK, readEntry dir i = entryAt contents wfs.dev i) →
    ∃ wfs', SameBlocks count contents wfs.dev wfs'.dev ∧ mountEntries D dir is wfs st n =
      .ok (wfs', st.loadAll (held contents wfs.dev files is),
        n + (st.loaded (held contents wfs.dev files is)).length)
  | [], wfs, _, _, _, _, _, _, _ => ⟨wfs, fun _ _ _ _ => rfl, rfl⟩
  | i :: is, wfs, st, n, h, hfree, hst, his, hdir => by
    obtain ⟨wfs₁, hsame, hfree₁, hentry⟩ := mountEntry_ok hD h hfree hst.next (his i (.head _))
    have hrest : ∀ j ∈ is, j < DIR_ENTRIES_PER_BLOCK := fun j hj => his j (.tail _ hj)
    have hdir₁ : ∀ j < DIR_ENTRIES_PER_BLOCK, readEntry dir j = entryAt contents wfs₁.dev j := fun j hj =>
      (hdir j hj).trans (entryAt_same hD hsame hj).symm
    have hheld : held contents wfs₁.dev files is = held contents wfs.dev files is := held_same hD hsame hrest
    have ih := fun (st : FileStore) (n : Nat) (hst : st.Wf) => mountEntries_ok hD is n (h.same hD.pos hsame)
      hfree₁ hst hrest hdir₁
    rw [hheld] at ih
    unfold mountEntries
    rw [hdir i (his i (.head _)), hentry, bind_ok]
    unfold held
    rw [List.filterMap_cons]
    cases heldBy files (entryAt contents wfs.dev i) with
    | none =>
      obtain ⟨wfs', hsame', hloop⟩ := ih st n hst
      exact ⟨wfs', hsame.trans hsame', hloop⟩
    | some f =>
      by_cases hroom : st.HasRoom f.2
      · obtain ⟨wfs', hsame', hloop⟩ := ih (st.load f.1 f.2) (n + 1) (FileStore.load_wf hst hroom)
        refine ⟨wfs', hsame.trans hsame', ?_⟩
        rw [FileStore.loadOne_of_room hroom, FileStore.loadAll_of_room hroom, FileStore.loaded_of_room hroom,
          List.length_cons]
        dsimp only
        rw [if_pos rfl, hloop]
        unfold held
        congr 3
        omega
      · obtain ⟨wfs', hsame', hloop⟩ := ih st n hst
        refine ⟨wfs', hsame.trans hsame', ?_⟩
        rw [FileStore.loadOne_of_full hroom, FileStore.loadAll_of_full hroom, FileStore.loaded_of_full hroom]
        exact hloop

end

end WasmFs

/-! ## The image of a disk -/

section
variable {σ : Type} {count : Nat} {contents : σ → Nat → Nat → UInt8} {dev : σ}
variable {files : List UInt8 → Option (List UInt8)} {name data : List UInt8} {img : List UInt8}

/-- The blocks of the device, one behind the other. -/
structure IsImage (count : Nat) (contents : σ → Nat → Nat → UInt8) (dev : σ) (img : List UInt8) : Prop where
  length : img.length = BLOCK_SIZE * count
  bytes : ∀ l < count, ∀ k < BLOCK_SIZE, img.getD (BLOCK_SIZE * l + k) 0 = contents dev l k

theorem IsImage.entry (h : IsImage count contents dev img) (hcount : 0 < count) {i : Nat}
    (hi : i < DIR_ENTRIES_PER_BLOCK) :
    readEntry (fun k => img.getD k 0) i = entryAt contents dev i := by
  apply readEntry_lt _ hi
  intro k hk
  have hbyte := h.bytes DIR_BLOCK hcount k hk
  rwa [DIR_BLOCK, Nat.mul_zero, Nat.zero_add] at hbyte

theorem IsImage.inside (h : IsImage count contents dev img) {start : Nat}
    (hdata : DataAt count contents dev start data) (hne : data ≠ []) :
    start * BLOCK_SIZE + data.length ≤ img.length := by
  have hpos : 0 < data.length := List.length_pos_iff.mpr hne
  have hlast := (hdata (data.length - 1) (by omega)).1
  rw [h.length]
  unfold BLOCK_SIZE at hlast ⊢
  omega

theorem IsImage.slice_eq (h : IsImage count contents dev img) {start : Nat}
    (hdata : DataAt count contents dev start data) (hin : start * BLOCK_SIZE + data.length ≤ img.length) :
    (img.drop (start * BLOCK_SIZE)).take data.length = data := by
  apply List.ext_getElem
  · rw [List.length_take, List.length_drop]
    omega
  · intro p hp hp'
    obtain ⟨hblock, hbyte⟩ := hdata p hp'
    have hcell := h.bytes _ hblock (p % BLOCK_SIZE) (Nat.mod_lt _ (by decide))
    have hat : BLOCK_SIZE * (start + p / BLOCK_SIZE) + p % BLOCK_SIZE = start * BLOCK_SIZE + p := by
      unfold BLOCK_SIZE
      omega
    rw [hat, List.getD_eq_getElem?_getD, List.getElem?_eq_getElem (by omega), Option.getD_some] at hcell
    rw [List.getElem_take, List.getElem_drop, hcell, hbyte]

/-- The name and the data of an entry whose bytes all lie in the image. -/
def imageHeld (files : List UInt8 → Option (List UInt8)) (size : Nat) (e : DirEntry) :
    Option (List UInt8 × List UInt8) :=
  if e.isValid ∧ e.startBlock.toNat * BLOCK_SIZE + e.size.toNat ≤ size then (files e.nameStr).map fun d =>
    (e.nameStr, d) else none

theorem imageHeld_eq_some {e : DirEntry} {size : Nat} : imageHeld files size e = some (name, data) ↔
    (e.isValid ∧ e.startBlock.toNat * BLOCK_SIZE + e.size.toNat ≤ size) ∧ e.nameStr = name ∧
    files name = some data := by
  unfold imageHeld
  split
  · rename_i hin
    rw [Option.map_eq_some_iff]
    constructor
    · rintro ⟨d, hfile, heq⟩
      cases heq
      exact ⟨hin, rfl, hfile⟩
    · rintro ⟨-, rfl, hfile⟩
      exact ⟨data, hfile, rfl⟩
  · rename_i hout
    simp [hout]

theorem mountImageEntry_files (h : Intact count contents dev files) (himg : IsImage count contents dev img)
    (hcount : 0 < count)
    {t : FileTable} {i : Nat} (hi : i < DIR_ENTRIES_PER_BLOCK) (ht : t.files.length < MAX_FILES) :
    (mountImageEntry img t i).files =
    t.files ++ (imageHeld files img.length (entryAt contents dev i)).toList.map fun f => some ⟨f.1, f.2⟩ := by
  unfold mountImageEntry imageHeld
  rw [himg.entry hcount hi]
  dsimp only
  by_cases hv : (entryAt contents dev i).isValid
  · obtain ⟨data, hfile, hsize, hdata⟩ := h.file i hi hv
    rw [if_pos hv, Nat.add_sub_cancel_left, hsize]
    by_cases hin : (entryAt contents dev i).startBlock.toNat * BLOCK_SIZE + data.length ≤ img.length
    · rw [if_pos hin, if_pos ⟨hv, hin⟩, himg.slice_eq hdata hin,
        registerFile_files ht (DirEntry.nameStr_named _ data).2, hfile]
      rfl
    · rw [if_neg hin, if_neg fun h => hin h.2]
      simp
  · rw [if_neg hv, if_neg fun h => hv h.1]
    simp

theorem mountImage_files (h : Intact count contents dev files) (himg : IsImage count contents dev img)
    (hcount : 0 < count) :
    ∀ (is : List Nat) {t : FileTable}, (∀ i ∈ is, i < DIR_ENTRIES_PER_BLOCK) →
    t.files.length + is.length ≤ MAX_FILES →
      (is.foldl (mountImageEntry img) t).files =
        t.files ++ (is.filterMap fun i => imageHeld files img.length (entryAt contents dev i)).map fun f =>
        some ⟨f.1, f.2⟩
  | [], t, _, _ => by simp
  | i :: is, t, his, hlen => by
    rw [List.length_cons] at hlen
    have hentry := mountImageEntry_files h himg hcount (his i (.head _)) (t := t) (by omega)
    have hgrown : (mountImageEntry img t i).files.length ≤ t.files.length + 1 := by
      rw [hentry, List.length_append, List.length_map]
      cases imageHeld files img.length (entryAt contents dev i) <;> simp
    rw [List.foldl_cons, mountImage_files h himg hcount is (fun j hj => his j (.tail _ hj)) (by omega),
      hentry, List.filterMap_cons,
      List.append_assoc]
    cases imageHeld files img.length (entryAt contents dev i) <;> simp

end

/-! ## The next boot -/

def FindsOnly (t : FileTable) (files : List UInt8 → Option (List UInt8)) : Prop :=
  ∀ name data, t.findFile name = some data → files name = some data

def FindsAll (t : FileTable) (files : List UInt8 → Option (List UInt8)) : Prop :=
  ∀ name data, files name = some data → data ≠ [] → t.findFile name = some data

section
variable {σ : Type} {D : BlockDevice σ} {count : Nat} {contents : σ → Nat → Nat → UInt8} {dev : σ}
variable {files : List UInt8 → Option (List UInt8)}

theorem image_finds (hcount : 0 < count) (h : Intact count contents dev files) {img : List UInt8}
    (himg : IsImage count contents dev img) :
    FindsOnly (mountFromImage img .init) files ∧ FindsAll (mountFromImage img .init) files := by
  have hlong : ¬ img.length < BLOCK_SIZE := by
    rw [himg.length]
    exact Nat.not_lt_of_le (Nat.le_mul_of_pos_right _ hcount)
  have hfiles := mountImage_files h himg hcount (List.range DIR_ENTRIES_PER_BLOCK) (t := .init)
    (fun i hi => List.mem_range.mp hi) (by decide)
  have hmem : ∀ f ∈ (List.range DIR_ENTRIES_PER_BLOCK).filterMap fun i =>
      imageHeld files img.length (entryAt contents dev i),
      FileStore.Named f ∧ files f.1 = some f.2 := by
    intro f hf
    obtain ⟨i, -, hsome⟩ := List.mem_filterMap.mp hf
    obtain ⟨-, hname, hfile⟩ := imageHeld_eq_some.mp hsome
    have hnamed := (entryAt contents dev i).nameStr_named f.2
    rw [hname] at hnamed
    exact ⟨hnamed, hfile⟩
  have hfind := findFile_of_files hfiles (fun f hf => (hmem f hf).1) fun f hf => (hmem f hf).2
  unfold mountFromImage
  rw [if_neg hlong]
  constructor
  · intro name data hsome
    exact (hmem _ ((hfind name data).mp hsome)).2
  · intro name data hfile hne
    rw [hfind]
    obtain ⟨i, hi, hv, hname⟩ := h.listed name data hfile
    obtain ⟨d, hfile', hsize, hdata⟩ := h.file i hi hv
    rw [hname, hfile] at hfile'
    cases hfile'
    refine List.mem_filterMap.mpr ⟨i, List.mem_range.mpr hi, imageHeld_eq_some.mpr ⟨⟨hv, ?_⟩, hname, hfile⟩⟩
    rw [hsize]
    exact himg.inside hdata hne

theorem blk_finds (hD : Finite D count contents) (h : Intact count contents dev files) (buf : Nat → UInt8) :
    ∃ dev' st, mountFromBlk D dev (.boot buf) = .ok (dev', st, st.files.length) ∧
    SameBlocks count contents dev dev' ∧
      FindsOnly st.table files ∧ (FindsAll st.table files ↔ roomFor contents dev ≤ FILE_BUF_SIZE) := by
  obtain ⟨dev₁, dir, hread, -, hdir, hsame⟩ := readDirBlock_ok hD.fallible (hD.readsDir dev)
  have h₁ : Intact count contents (WasmFs.new dev₁).dev files := h.same hD.pos hsame
  have hentries : ∀ i < DIR_ENTRIES_PER_BLOCK, readEntry dir i = entryAt contents (WasmFs.new dev₁).dev i :=
    fun i hi =>
    (entryAt_of_dir hdir hi).trans (entryAt_same hD hsame hi).symm
  have hheld : held contents (WasmFs.new dev₁).dev files (List.range DIR_ENTRIES_PER_BLOCK) =
      held contents dev files (List.range DIR_ENTRIES_PER_BLOCK) :=
      held_same hD hsame fun i hi => List.mem_range.mp hi
  obtain ⟨wfs, hsame', hloop⟩ :=
    mountEntries_ok hD (List.range DIR_ENTRIES_PER_BLOCK) 0 h₁ (fun _ _ => rfl) (FileStore.boot_wf buf)
    (fun i hi => List.mem_range.mp hi) hentries
  have hnodup := h.held_nodup
  have hmem : ∀ name data, (name, data) ∈ held contents dev files (List.range DIR_ENTRIES_PER_BLOCK) ↔
      files name = some data ∧ data ≠ [] :=
    fun name data => h.mem_held
  have hnamed : ∀ f ∈ held contents dev files (List.range DIR_ENTRIES_PER_BLOCK), FileStore.Named f := held_named
  have hlen : (held contents dev files (List.range DIR_ENTRIES_PER_BLOCK)).length ≤ MAX_FILES := by
    have hle := List.length_filterMap_le (fun i => heldBy files (entryAt contents dev i))
      (List.range DIR_ENTRIES_PER_BLOCK)
    rw [List.length_range] at hle
    exact Nat.le_trans hle (by decide)
  rw [h.roomFor_eq]
  rw [hheld] at hloop
  generalize held contents dev files (List.range DIR_ENTRIES_PER_BLOCK) = fs at hloop hnodup hmem hnamed hlen ⊢
  have hsub := FileStore.loaded_sublist fs (.boot buf)
  have hfind := FileStore.boot_findFile buf hnamed hlen fun f hf => ((hmem f.1 f.2).mp hf).1
  refine ⟨wfs.dev, (FileStore.boot buf).loadAll fs, ?_, hsame.trans hsame', ?_, ?_⟩
  · unfold mountFromBlk
    rw [hread, bind_ok]
    dsimp only
    rw [hloop, bind_ok, Nat.zero_add, ← FileStore.table_length, FileStore.boot_files buf hnamed hlen,
      List.length_map]
  · intro name data hsome
    have hin := hsub.subset ((hfind name data).mp hsome)
    exact ((hmem name data).mp hin).1
  · rw [← FileStore.boot_loaded_iff buf]
    constructor
    · intro hall
      -- every file of the directory is among those loaded, and none is there twice
      apply hsub.eq_of_length_le
      apply hnodup.length_le_of_subset
      intro f hf
      obtain ⟨hfile, hne⟩ := (hmem f.1 f.2).mp hf
      exact (hfind f.1 f.2).mp (hall f.1 f.2 hfile hne)
    · intro heq name data hfile hne
      rw [hfind, heq]
      exact (hmem name data).mpr ⟨hfile, hne⟩

/-- From an empty directory, after any run of writes and deletions, the next boot finds what was written:
mounted from the image of the disk, the table finds no other data than the last written and every file that is
not empty; mounted from the device, it does so too, all files exactly if the arena has room for them, and the
disk is as it was. -/
theorem mount_after_reboot {σ : Type} {D : BlockDevice σ} {count : Nat} {contents : σ → Nat → Nat → UInt8}
    (hD : Finite D count contents) {dev : σ}
    (hempty : ∀ i < DIR_ENTRIES_PER_BLOCK, (entryAt contents dev i).isValid = false)
    {ops : List FsOp} (hops : Guarded (FsState.step D) (fun s op => op.Fits contents s)
      ⟨.new dev, fun _ => none⟩ ops) (buf : Nat → UInt8) :
    ∃ s, runAll (FsState.step D) ⟨.new dev, fun _ => none⟩ ops = .ok s ∧
      (∀ img, IsImage count contents s.fs.dev img →
        FindsOnly (mountFromImage img .init) s.files ∧ FindsAll (mountFromImage img .init) s.files) ∧
      ∃ dev' st, mountFromBlk D s.fs.dev (.boot buf) = .ok (dev', st, st.files.length) ∧
      SameBlocks count contents s.fs.dev dev' ∧
        FindsOnly st.table s.files ∧ (FindsAll st.table s.files ↔ roomFor contents s.fs.dev ≤ FILE_BUF_SIZE) := by
  obtain ⟨s, hrun, h⟩ := runAll_of_guarded (P := fun s : FsState σ => Intact count contents s.fs.dev s.files)
    (fun s op hs hop => FsState.step_intact hD.fallible hs hop (hD.reaches s op)) (intact_empty hempty) hops
  exact ⟨s, hrun, fun img himg => image_finds hD.pos h himg, blk_finds hD h buf⟩

end

theorem mount_after_reboot_small : ∃ s dev' st,
    runAll (FsState.step ramdisk) ⟨.new fun _ => 0, fun _ => none⟩ [.write [97] [7]] = .ok s ∧
      mountFromBlk ramdisk s.fs.dev (.boot fun _ => 0) = .ok (dev', st, st.files.length) ∧
      st.table.findFile [97] = some [7] := by
  have hname : FsName [97] := by unfold FsName; decide
  -- the disk after the write stays folded
  obtain ⟨disk, hdisk⟩ : ∃ disk, disk = ramdiskWrite (fun _ => 0) 0 1 [97] [7] := ⟨_, rfl⟩
  have hwrite : FsState.step ramdisk ⟨.new fun _ => 0, fun _ => none⟩ (.write [97] [7]) =
      .ok ⟨.new disk, setFile (fun _ => none) [97] (some [7])⟩ := by
    rw [hdisk]
    exact ramdisk_step _ (by decide) (by decide) (by decide) (by decide) (by decide) _
  have hops : Guarded (FsState.step ramdisk)
      (fun s op => op.Fits (fun (data : Nat → UInt8) l k => data (BLOCK_SIZE * l + k)) s)
      ⟨.new fun _ => 0, fun _ => none⟩ [.write [97] [7]] := by
    refine ⟨⟨hname, by decide, ?_⟩, fun _ _ => trivial⟩
    rintro next (rfl | ⟨i, hi, hv, -⟩)
    · decide
    · exact absurd hv (by revert i; decide)
  have hroom : roomFor (fun (data : Nat → UInt8) l k => data (BLOCK_SIZE * l + k)) disk ≤ FILE_BUF_SIZE := by
    rw [hdisk]
    decide +kernel
  obtain ⟨s, hrun, -, dev', st, hmount, -, -, hall⟩ :=
    mount_after_reboot ramdisk_finite (by decide) hops (fun _ => 0)
  refine ⟨s, dev', st, hrun, hmount, ?_⟩
  simp only [runAll, hwrite, bind_ok] at hrun
  obtain rfl := Except.ok.inj hrun
  exact hall.mpr hroom [97] [7] rfl (by decide)

end WasmOs.Fs
