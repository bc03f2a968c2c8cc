import WasmOs.Heap
import WasmOs.Mount

/-!
# Loading the files of a FAT volume

`load_fat_files_to_table` copies the files of the root directory into the arena of `fs/mod.rs`. On the way
`fat_read_file` reads each of them into a buffer of its size on the kernel heap, which is never given back.
-/

namespace WasmOs.Fs

open Bump Pools Heap

/-! ## Reading a file -/

def DISK_SLOTS : Nat := 64

/-- An open file of the crate: the results of the two `seek`s, and those of `read`, which depend on the
position in the file and the length of the buffer. -/
structure FatFile where
  seekEnd : Option UInt32
  seekStart : Bool
  read : (pos len : Nat) → Option { bytes : List UInt8 // bytes.length ≤ len }

/-- The mounted volume: the files in the order of the root directory, `open_file`, and what the crate takes of
the heap to list them, to open one and to read one. -/
structure FatVolume where
  list : List (List UInt8)
  listing : List Layout
  openFile : List UInt8 → Option FatFile
  opening : List UInt8 → List Layout
  reading : List UInt8 → List Layout

/-- `while done < size { … }`, and what is in the buffer up to `done`. -/
def FatFile.readLoop (file : FatFile) (size : Nat) (done : List UInt8) : Option (List UInt8) :=
  if done.length < size then
    match file.read done.length (size - done.length) with
    | none => none
    | some bytes => if bytes.1 = [] then some done else file.readLoop size (done ++ bytes.1)
  else some done
termination_by size - done.length
decreasing_by
  have hpos : 0 < bytes.1.length := List.length_pos_iff.mpr (by assumption)
  rw [List.length_append]
  omega

section
variable (heap : HeapBuf) (V : FatVolume)

/-- What was read, and the cursor of the heap. -/
def doRead (next : Nat) (name : List UInt8) : Rust Empty (Option (List UInt8) × Nat) := do
  let next ← takeAll heap next (V.opening name)
  match V.openFile name with
  | none => .ok (none, next)
  | some file =>
    match file.seekEnd with
    | none => .ok (none, next)
    | some size =>
      if file.seekStart then do
        let next ← reserve heap next size.toNat
        let next ← takeAll heap next (V.reading name)
        .ok (file.readLoop size.toNat [], next)
      else .ok (none, next)

/-! ## `load_fat_files_to_table` -/

/-- The name as it comes out of the array it was copied to. -/
def slotName (name : List UInt8) : List UInt8 :=
  let buf := name.take (min name.length 64)
  if validUtf8 buf then buf else []

def loadFatFile (next : Nat) (st : FileStore) (name : List UInt8) : Rust Empty (FileStore × Nat) :=
  if slotName name = [] then .ok (st, next)
  else do
    let (read, next) ← doRead heap V next (slotName name)
    match read with
    | none => .ok (st, next)
    | some data => do
      let (slot, bufNext) ← allocDiskSlot st.next data.length
      let st := { st with next := bufNext }
      match slot with
      | none => .ok (st, next)
      | some ptr =>
        .ok (FileStore.registerFile { st with buf := blit st.buf ptr data } (slotName name)
          ⟨ptr, data.length⟩, next)

def loadFatFiles : List (List UInt8) → Nat → FileStore → Rust Empty (FileStore × Nat)
  | [], next, st => .ok (st, next)
  | name :: names, next, st => do
    let (st, next) ← loadFatFile heap V next st name
    loadFatFiles names next st

/-- The first loop keeps the first names only. -/
def loadFatFilesToTable (next : Nat) (st : FileStore) : Rust Empty (FileStore × Nat) := do
  let next ← takeAll heap next V.listing
  loadFatFiles heap V (V.list.take DISK_SLOTS) next st

end

/-! ## What is read -/

section
variable {heap : HeapBuf} {V : FatVolume} {name data : List UInt8} {st : FileStore} {next : Nat}

/-- The size, if both `seek`s succeed. -/
def FatFile.size (file : FatFile) : Option UInt32 := if file.seekStart then file.seekEnd else none

/-- What `do_read` reads where the heap has room. -/
def FatVolume.read (V : FatVolume) (name : List UInt8) : Option (List UInt8) :=
  (V.openFile name).bind fun file => file.size.bind fun size => file.readLoop size.toNat []

/-- What reading a file takes of the heap. -/
def FatVolume.readLayouts (V : FatVolume) (name : List UInt8) : List Layout :=
  V.opening name ++ match (V.openFile name).bind FatFile.size with
    | none => []
    | some size => .bytes size :: V.reading name

theorem doRead_eq (heap : HeapBuf) (V : FatVolume) (next : Nat) (name : List UInt8) :
    doRead heap V next name = takeAll heap next (V.readLayouts name) >>= fun next => .ok (V.read name, next) := by
  unfold doRead FatVolume.readLayouts FatVolume.read
  rw [takeAll_append]
  cases takeAll heap next (V.opening name) with
  | error e => rfl
  | ok next' =>
    rw [bind_ok, bind_ok]
    cases V.openFile name with
    | none => rfl
    | some file =>
      dsimp only [Option.bind_some]
      unfold FatFile.size
      cases file.seekEnd with
      | none => simp [takeAll]
      | some size =>
        cases file.seekStart with
        | false => rfl
        | true =>
          dsimp only [Option.bind_some]
          rw [if_pos rfl, if_pos rfl]
          dsimp only [Option.bind_some]
          rw [← List.singleton_append, takeAll_append, takeAll_bytes]
          cases reserve heap next' size.toNat with
          | error e => rfl
          | ok next'' => rfl

theorem readLoop_length (file : FatFile) (size : Nat) (done : List UInt8) (hdone : done.length ≤ size)
    (h : file.readLoop size done = some data) : data.length ≤ size := by
  fun_induction FatFile.readLoop file size done with
  | case1 => cases h
  | case2 done hlt bytes hread hempty =>
    cases h
    exact hdone
  | case3 done hlt bytes hread hne ih =>
    refine ih ?_ h
    have hbytes := bytes.2
    rw [List.length_append]
    omega
  | case4 =>
    cases h
    exact hdone

theorem FatVolume.read_length (h : V.read name = some data) : data.length < 2 ^ 32 := by
  obtain ⟨file, -, h⟩ := Option.bind_eq_some_iff.mp h
  obtain ⟨size, -, h⟩ := Option.bind_eq_some_iff.mp h
  exact Nat.lt_of_le_of_lt (readLoop_length file size.toNat [] (Nat.zero_le _) h) size.toNat_lt

/-- The file holds these bytes: each `read` before their end gives some of those at its position. -/
structure FatFile.Holds (file : FatFile) (data : List UInt8) : Prop where
  size : ∃ size, file.size = some size ∧ size.toNat = data.length
  read : ∀ pos len, pos < data.length → 0 < len → ∃ bytes, file.read pos len = some bytes ∧ bytes.1 ≠ [] ∧
    bytes.1 <+: data.drop pos

theorem FatFile.Holds.readLoop {file : FatFile} (h : file.Holds data) (done rest : List UInt8)
    (hdata : data = done ++ rest) :
    file.readLoop data.length done = some data := by
  fun_induction FatFile.readLoop file data.length done generalizing rest with
  | case1 done hlt hread =>
    obtain ⟨bytes, hsome, -⟩ := h.read done.length (data.length - done.length) hlt (by omega)
    cases hread.symm.trans hsome
  | case2 done hlt bytes hread hempty =>
    obtain ⟨bytes', hsome, hne, -⟩ := h.read done.length (data.length - done.length) hlt (by omega)
    cases hread.symm.trans hsome
    exact absurd hempty hne
  | case3 done hlt bytes hread hne ih =>
    obtain ⟨bytes', hsome, -, htail, hprefix⟩ := h.read done.length (data.length - done.length) hlt (by omega)
    cases hread.symm.trans hsome
    have hdrop : data.drop done.length = rest := by
      subst hdata
      exact List.drop_left
    rw [hdrop] at hprefix
    refine ih htail ?_
    rw [List.append_assoc, hprefix]
    exact hdata
  | case4 done hlt =>
    have hlen := congrArg List.length hdata
    rw [List.length_append] at hlen
    have hrest : rest = [] := List.length_eq_zero_iff.mp (by omega)
    rw [hdata, hrest, List.append_nil]

theorem FatVolume.read_of_holds {file : FatFile} (hopen : V.openFile name = some file) (h : file.Holds data) :
    V.read name = some data := by
  obtain ⟨size, hsize, hlen⟩ := h.size
  unfold FatVolume.read
  rw [hopen, Option.bind_some, hsize, Option.bind_some, hlen]
  exact h.readLoop [] data rfl

/-! ## What is loaded -/

def FatVolume.holds (V : FatVolume) (name : List UInt8) : Option (List UInt8 × List UInt8) :=
  if slotName name = [] then none
  else (V.read (slotName name)).bind fun d => if d = [] then none else some (slotName name, d)

theorem FatVolume.holds_eq_some {n : List UInt8} :
    V.holds n = some (name, data) ↔ slotName n = name ∧ name ≠ [] ∧ V.read name = some data ∧ data ≠ [] := by
  unfold FatVolume.holds
  by_cases hn : slotName n = []
  · rw [if_pos hn]
    constructor
    · intro h
      cases h
    · rintro ⟨rfl, hne, -⟩
      exact absurd hn hne
  · rw [if_neg hn, nonempty_eq_some]
    constructor
    · rintro ⟨rfl, hrest⟩
      exact ⟨rfl, hn, hrest⟩
    · rintro ⟨rfl, -, hrest⟩
      exact ⟨rfl, hrest⟩

theorem slotName_named (name data : List UInt8) : FileStore.Named (slotName name, data) := by
  unfold slotName
  dsimp only
  split
  · refine ⟨by assumption, ?_⟩
    rw [List.length_take]
    omega
  · exact ⟨rfl, Nat.zero_le _⟩

theorem FatVolume.mem_held {names : List (List UInt8)} : (name, data) ∈ names.filterMap V.holds ↔
    (∃ n ∈ names, slotName n = name) ∧ name ≠ [] ∧ V.read name = some data ∧ data ≠ [] := by
  rw [List.mem_filterMap]
  constructor
  · rintro ⟨n, hn, hsome⟩
    obtain ⟨hname, hrest⟩ := FatVolume.holds_eq_some.mp hsome
    exact ⟨⟨n, hn, hname⟩, hrest⟩
  · rintro ⟨⟨n, hn, hname⟩, hrest⟩
    exact ⟨n, hn, FatVolume.holds_eq_some.mpr ⟨hname, hrest⟩⟩

theorem FatVolume.held_named {names : List (List UInt8)} : ∀ f ∈ names.filterMap V.holds, FileStore.Named f := by
  intro f hf
  obtain ⟨⟨n, -, hname⟩, -⟩ := FatVolume.mem_held.mp hf
  have hnamed := slotName_named n f.2
  rwa [hname] at hnamed

/-- What a turn of the second loop takes of the heap. -/
def FatVolume.turnLayouts (V : FatVolume) (name : List UInt8) : List Layout :=
  if slotName name = [] then [] else V.readLayouts (slotName name)

theorem loadFatFile_eq (hst : st.next ≤ FILE_BUF_SIZE) (name : List UInt8) :
    loadFatFile heap V next st name = takeAll heap next (V.turnLayouts name) >>= fun next =>
    .ok ((st.loadOne (V.holds name)).1, next) := by
  unfold loadFatFile FatVolume.holds FatVolume.turnLayouts
  by_cases hn : slotName name = []
  · rw [if_pos hn, if_pos hn, if_pos hn]
    rfl
  rw [if_neg hn, if_neg hn, if_neg hn, doRead_eq]
  cases takeAll heap next (V.readLayouts (slotName name)) with
  | error e => rfl
  | ok next' =>
    rw [bind_ok, bind_ok, bind_ok]
    cases hread : V.read (slotName name) with
    | none => rfl
    | some data =>
      dsimp only
      rw [allocDiskSlot_eq hst (FatVolume.read_length hread), Option.bind_some]
      by_cases hd : data = []
      · simp [hd, FileStore.loadOne]
      · have hpos : data.length ≠ 0 := fun h => hd (List.length_eq_zero_iff.mp h)
        rw [if_neg hd]
        by_cases hroom : st.HasRoom data
        · have hif : data.length ≠ 0 ∧ alignUp st.next 8 + data.length ≤ FILE_BUF_SIZE := ⟨hpos, hroom⟩
          rw [if_pos hif, FileStore.loadOne_of_room hroom]
          rfl
        · have hif : ¬ (data.length ≠ 0 ∧ alignUp st.next 8 + data.length ≤ FILE_BUF_SIZE) := fun h => hroom h.2
          rw [if_neg hif, FileStore.loadOne_of_full hroom]
          rfl

theorem loadFatFiles_eq : ∀ (names : List (List UInt8)) {next : Nat} {st : FileStore}, st.Wf →
    loadFatFiles heap V names next st =
      takeAll heap next (names.flatMap V.turnLayouts) >>= fun next =>
      .ok (st.loadAll (names.filterMap V.holds), next)
  | [], _, _, _ => rfl
  | name :: names, next, st, hst => by
    unfold loadFatFiles
    rw [loadFatFile_eq hst.next, List.flatMap_cons, takeAll_append, List.filterMap_cons]
    cases takeAll heap next (V.turnLayouts name) with
    | error e => rfl
    | ok next' =>
      rw [bind_ok, bind_ok, bind_ok]
      dsimp only
      cases V.holds name with
      | none => exact loadFatFiles_eq names hst
      | some f =>
        by_cases hroom : st.HasRoom f.2
        · rw [FileStore.loadOne_of_room hroom, FileStore.loadAll_of_room hroom]
          exact loadFatFiles_eq names (FileStore.load_wf hst hroom)
        · rw [FileStore.loadOne_of_full hroom, FileStore.loadAll_of_full hroom]
          exact loadFatFiles_eq names hst

/-- Everything the boot loader takes of the heap, in order. -/
def FatVolume.layouts (V : FatVolume) : List Layout := V.listing ++ (V.list.take DISK_SLOTS).flatMap V.turnLayouts

theorem loadFatFilesToTable_eq (hst : st.Wf) : loadFatFilesToTable heap V next st =
    takeAll heap next V.layouts >>= fun next =>
    .ok (st.loadAll ((V.list.take DISK_SLOTS).filterMap V.holds), next) := by
  unfold loadFatFilesToTable FatVolume.layouts
  rw [takeAll_append]
  cases takeAll heap next V.listing with
  | error e => rfl
  | ok next' => exact loadFatFiles_eq _ hst

/-- The table after the boot holds nothing but files of the volume, and all of those listed first if they fit
into the arena. -/
theorem boot_holds (V : FatVolume) (buf : Nat → UInt8) (st : FileStore)
    (hst : st = (FileStore.boot buf).loadAll ((V.list.take DISK_SLOTS).filterMap V.holds)) :
    (∀ name data, st.table.findFile name = some data →
      V.read name = some data ∧ data ≠ [] ∧ ∃ n ∈ V.list.take DISK_SLOTS, slotName n = name) ∧
    (FileStore.sizes ((V.list.take DISK_SLOTS).filterMap V.holds) ≤ FILE_BUF_SIZE →
      ∀ n ∈ V.list.take DISK_SLOTS, ∀ data,
      slotName n ≠ [] → V.read (slotName n) = some data → data ≠ [] →
      st.table.findFile (slotName n) = some data) := by
  subst hst
  have hmem : ∀ name data, (name, data) ∈ (V.list.take DISK_SLOTS).filterMap V.holds ↔
      (∃ n ∈ V.list.take DISK_SLOTS, slotName n = name) ∧ name ≠ [] ∧ V.read name = some data ∧ data ≠ [] :=
    fun name data => FatVolume.mem_held
  have hnamed : ∀ f ∈ (V.list.take DISK_SLOTS).filterMap V.holds, FileStore.Named f := FatVolume.held_named
  have hlen : ((V.list.take DISK_SLOTS).filterMap V.holds).length ≤ MAX_FILES :=
    Nat.le_trans (List.length_filterMap_le _ _) (List.length_take_le _ _)
  generalize (V.list.take DISK_SLOTS).filterMap V.holds = fs at hmem hnamed hlen ⊢
  have hsub := FileStore.loaded_sublist fs (.boot buf)
  have hfind := FileStore.boot_findFile buf hnamed hlen fun f hf => ((hmem f.1 f.2).mp hf).2.2.1
  constructor
  · intro name data hsome
    obtain ⟨hn, -, hread, hne⟩ := (hmem name data).mp (hsub.subset ((hfind name data).mp hsome))
    exact ⟨hread, hne, hn⟩
  · intro hroom n hn data hname hread hne
    rw [hfind]
    have hall := (FileStore.boot_loaded_iff buf).mpr hroom
    rw [hall]
    exact (hmem _ _).mpr ⟨⟨n, hn, rfl⟩, hname, hread, hne⟩

/-- At boot the files are loaded if and only if everything that is taken of the heap on the way fits into it,
one after the other; the boot panics otherwise. Whatever the table then finds is in the volume, under the name
it is read by; and if the files among the first `DISK_SLOTS` of the listing fit into the arena, each of these
that can be read and is not empty is found. -/
theorem load_fat_finds (heap : HeapBuf) (V : FatVolume) {next : Nat} (hnext : next ≤ HEAP_SIZE)
    (buf : Nat → UInt8) :
    (¬ RoomFor next V.layouts → loadFatFilesToTable heap V next (.boot buf) = .error .panic) ∧
    (RoomFor next V.layouts → ∃ st, loadFatFilesToTable heap V next (.boot buf) =
      .ok (st, V.layouts.foldl stop next) ∧
      (∀ name data, st.table.findFile name = some data →
        V.read name = some data ∧ data ≠ [] ∧ ∃ n ∈ V.list.take DISK_SLOTS, slotName n = name) ∧
      (FileStore.sizes ((V.list.take DISK_SLOTS).filterMap V.holds) ≤ FILE_BUF_SIZE →
        ∀ n ∈ V.list.take DISK_SLOTS, ∀ data,
        slotName n ≠ [] → V.read (slotName n) = some data → data ≠ [] →
        st.table.findFile (slotName n) = some data)) := by
  rw [loadFatFilesToTable_eq (FileStore.boot_wf buf)]
  obtain ⟨hroom, htake, -⟩ | ⟨hroom, htake⟩ := takeAll_eq heap hnext V.layouts
  · refine ⟨fun h => absurd hroom h, fun _ => ⟨_, ?_, boot_holds V buf _ rfl⟩⟩
    rw [htake, bind_ok]
  · refine ⟨fun _ => ?_, fun h => absurd h hroom⟩
    rw [htake]
    rfl

/-- A file that fills the buffer as far as its bytes go. -/
def FatFile.ofData (data : List UInt8) : FatFile :=
  ⟨some (UInt32.ofNat data.length), true, fun pos len => some ⟨(data.drop pos).take len, List.length_take_le _ _⟩⟩

theorem FatFile.ofData_holds (h : data.length < 2 ^ 32) : (FatFile.ofData data).Holds data where
  size := ⟨UInt32.ofNat data.length, rfl, UInt32.toNat_ofNat_of_lt' h⟩
  read pos len hpos hlen := by
    refine ⟨_, rfl, fun hempty => ?_, List.take_prefix len _⟩
    have hzero := congrArg List.length hempty
    rw [List.length_take, List.length_drop, List.length_nil] at hzero
    omega

/-- A file of two bytes is found; one of 9 MiB stops the boot. -/
theorem load_fat_finds_one :
    (∃ st, loadFatFilesToTable ⟨16, by decide, by decide⟩ ⟨[utf8 "A.TXT"], [.bytes 5], fun name => if name =
      utf8 "A.TXT" then some (.ofData [1, 2]) else none,
      fun _ => [.bytes 26], fun _ => []⟩ 0 (.boot fun _ => 0) = .ok (st, 33) ∧
      st.table.findFile (utf8 "A.TXT") = some [1, 2]) ∧
    loadFatFilesToTable ⟨16, by decide, by decide⟩ ⟨[utf8 "B.BIN"], [], fun _ =>
      some ⟨some 9437184, true, fun _ _ => none⟩, fun _ => [], fun _ => []⟩ 0
      (.boot fun _ => 0) = .error .panic := by
  constructor
  · let V : FatVolume :=
      ⟨[utf8 "A.TXT"], [.bytes 5], fun name => if name = utf8 "A.TXT" then some (.ofData [1, 2]) else none,
      fun _ => [.bytes 26], fun _ => []⟩
    have hread : V.read (utf8 "A.TXT") = some [1, 2] :=
      FatVolume.read_of_holds (show V.openFile (utf8 "A.TXT") = some (.ofData [1, 2]) from rfl)
        (FatFile.ofData_holds (by decide))
    have hheld : (V.list.take DISK_SLOTS).filterMap V.holds = [(utf8 "A.TXT", [1, 2])] := by
      have hone : V.holds (utf8 "A.TXT") = some (utf8 "A.TXT", [1, 2]) :=
        FatVolume.holds_eq_some.mpr ⟨by rfl, by decide, hread, by decide⟩
      show [utf8 "A.TXT"].filterMap V.holds = _
      rw [List.filterMap_cons_some hone, List.filterMap_nil]
    have hlayouts : V.layouts = [.bytes 5, .bytes 26, .bytes 2] := by rfl
    have hroom : RoomFor 0 V.layouts := by
      rw [hlayouts]
      decide
    obtain ⟨st, hload, -, hall⟩ := (load_fat_finds ⟨16, by decide, by decide⟩ V (Nat.zero_le _) fun _ => 0).2 hroom
    have hsizes : FileStore.sizes [(utf8 "A.TXT", [1, 2])] ≤ FILE_BUF_SIZE := by decide
    rw [hheld] at hall
    exact ⟨st, hload, hall hsizes (utf8 "A.TXT") (.head _) [1, 2] (by decide) hread (by decide)⟩
  · refine (load_fat_finds ⟨16, by decide, by decide⟩ _ (Nat.zero_le _) fun _ => 0).1 ?_
    rintro ⟨hfit, -⟩
    exact absurd hfit (by decide)

end

end WasmOs.Fs
