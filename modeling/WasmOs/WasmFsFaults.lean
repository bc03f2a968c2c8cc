import WasmOs.WasmFsSound

/-!
# Failing devices

A file system on a device of which any access may fail. Data blocks may fail at any point: the directory
is rewritten last. What `read_dir_block` and `write_dir_block` do not pass on is a failure at the directory
itself, after which a write goes on with a directory of zeros and both operations answer `Ok`.
-/

namespace WasmOs.Fs

open Runs WasmFs

/-! ## Devices that fail -/

/-- A device beside a list that says of each of its next accesses whether it fails. -/
def flaky {σ : Type} (D : BlockDevice σ) : BlockDevice (σ × List Bool) where
  readBlock s lba :=
    if s.2.head? = some true then .error (.err (s.1, s.2.tail))
    else match D.readBlock s.1 lba with
      | .ok (s', b) => .ok ((s', s.2.tail), b)
      | .error (.err s') => .error (.err (s', s.2.tail))
      | .error .panic => .error .panic
      | .error .hang => .error .hang
  writeBlock s lba b :=
    if s.2.head? = some true then .error (.err (s.1, s.2.tail))
    else match D.writeBlock s.1 lba b with
      | .ok s' => .ok (s', s.2.tail)
      | .error (.err s') => .error (.err (s', s.2.tail))
      | .error .panic => .error .panic
      | .error .hang => .error .hang

section
variable {σ : Type} {D : BlockDevice σ} {count : Nat} {contents : σ → Nat → Nat → UInt8}

theorem flaky_fallible (hD : Fallible D count contents) : Fallible (flaky D) count fun s => contents s.1 where
  read s lba hlba := by
    by_cases hfail : s.2.head? = some true
    · exact .inr ⟨_, if_pos hfail, fun _ _ _ _ => rfl⟩
    · simp only [flaky, if_neg hfail]
      obtain ⟨s', b, hread, hb, hsame⟩ | ⟨s', hread, hsame⟩ := hD.read s.1 lba hlba
      · rw [hread]
        exact .inl ⟨_, b, rfl, hb, hsame⟩
      · rw [hread]
        exact .inr ⟨_, rfl, hsame⟩
  write s lba b := by
    by_cases hfail : s.2.head? = some true
    · exact .inr ⟨_, if_pos hfail, fun _ _ _ _ => rfl⟩
    · simp only [flaky, if_neg hfail]
      obtain ⟨hlba, s', hwrite, hcont⟩ | ⟨s', hwrite, hsame⟩ := hD.write s.1 lba b
      · rw [hwrite]
        exact .inl ⟨hlba, _, rfl, hcont⟩
      · rw [hwrite]
        exact .inr ⟨_, rfl, hsame⟩
  pos := hD.pos

/-! ## What is left of the files -/

def Absent (D : BlockDevice σ) (dev : σ) (name : List UInt8) : Prop :=
  ∀ opened : Nat → OpenFile, ∃ fs, fsOpen D ⟨dev, opened⟩ name = .ok (fs, none)

/-- As soon as accesses succeed, each file reads as its data and no other can be opened. -/
def ReadsBack (count : Nat) (contents : σ → Nat → Nat → UInt8) (dev : σ)
    (files : List UInt8 → Option (List UInt8)) : Prop :=
  ∀ D : BlockDevice σ, Finite D count contents → ∀ name,
    (∀ data, files name = some data → Readable D dev name data) ∧ (files name = none → Absent D dev name)

variable {dev : σ} {files : List UInt8 → Option (List UInt8)}

theorem Intact.absent (hD : Finite D count contents) (h : Intact count contents dev files) {name : List UInt8}
    (hno : files name = none) :
    Absent D dev name := by
  intro opened
  obtain ⟨dev₁, dir, hread, _, hdir, _⟩ := readDirBlock_ok hD.fallible (hD.readsDir dev)
  unfold fsOpen
  rw [hread, bind_ok]
  dsimp only
  cases hl : lookup dir name with
  | none => exact ⟨_, rfl⟩
  | some j =>
    obtain ⟨hj, hv, hname⟩ := lookup_some hl
    rw [entryAt_of_dir hdir hj] at hv hname
    obtain ⟨data, hfile, _⟩ := h.file j hj hv
    rw [hname, hno] at hfile
    cases hfile

theorem Intact.readsBack (h : Intact count contents dev files) : ReadsBack count contents dev files :=
  fun _ hD _ => ⟨fun _ hfile => Intact.readable hD h hfile, fun hno => Intact.absent hD h hno⟩

end

/-- On a device of which any access may fail, a run of writes and deletions in which no write of the directory
fails, and no reading of it for a write, goes through, and after it every file reads back as it was last
written with success. -/
theorem wasmFs_survives {σ : Type} {D : BlockDevice σ} {count : Nat} {contents : σ → Nat → Nat → UInt8}
    (hD : Fallible D count contents) {dev : σ}
    (hempty : ∀ i < DIR_ENTRIES_PER_BLOCK, (entryAt contents dev i).isValid = false)
    {ops : List FsOp} (hops : Guarded (FsState.step D) (fun s op => op.Fits contents s ∧ op.Reaches D s)
      ⟨.new dev, fun _ => none⟩ ops) :
    ∃ s, runAll (FsState.step D) ⟨.new dev, fun _ => none⟩ ops = .ok s ∧
    ReadsBack count contents s.fs.dev s.files := by
  obtain ⟨s, hrun, h⟩ := runAll_of_guarded (P := fun s : FsState σ => Intact count contents s.fs.dev s.files)
    (fun s op hs hop => FsState.step_intact hD hs hop.1 hop.2) (intact_empty hempty) hops
  exact ⟨s, hrun, h.readsBack⟩

/-! ## On a failing ramdisk -/

def flakyBlocks (s : (Nat → UInt8) × List Bool) (l k : Nat) : UInt8 := s.1 (BLOCK_SIZE * l + k)

theorem flakyRamdisk_fallible : Fallible (flaky ramdisk) RAMDISK_BLOCKS flakyBlocks :=
  flaky_fallible ramdisk_finite.fallible

theorem flakyRamdisk_read {disk : Nat → UInt8} {fails : List Bool} (lba : Nat) (hlba : lba < RAMDISK_BLOCKS)
    (hok : fails.head? ≠ some true) :
    (flaky ramdisk).readBlock (disk, fails) lba = .ok
    ((disk, fails.tail), fun k => disk (BLOCK_SIZE * lba + k)) := by
  have hin : ¬ RAMDISK_BLOCKS ≤ lba := Nat.not_le.mpr hlba
  simp [flaky, ramdisk, hok, hin]

theorem flakyRamdisk_readDir {disk : Nat → UInt8} {fails : List Bool} (hok : fails.head? ≠ some true) :
    readDirBlock (flaky ramdisk) (disk, fails) =
    .ok ((disk, fails.tail), fun k => disk (BLOCK_SIZE * DIR_BLOCK + k)) := by
  simp [readDirBlock, flakyRamdisk_read DIR_BLOCK (by decide) hok, attempt]

theorem flakyRamdisk_nextFree {disk : Nat → UInt8} {fails : List Bool} {start : Nat} (hok : fails.head? ≠ some true)
    (hnext : nextFree (fun k => disk (BLOCK_SIZE * DIR_BLOCK + k)) (List.range DIR_ENTRIES_PER_BLOCK)
      DATA_START_BLOCK = .ok start) :
    nextFreeBlock (flaky ramdisk) (disk, fails) = .ok ((disk, fails.tail), start) := by
  rw [nextFreeBlock, flakyRamdisk_readDir hok, bind_ok]
  simp only [hnext, bind_ok]

theorem flakyRamdisk_write {disk : Nat → UInt8} {fails : List Bool} (lba : Nat) (hlba : lba < RAMDISK_BLOCKS)
    (hok : fails.head? ≠ some true) (b : Nat → UInt8) :
    (flaky ramdisk).writeBlock (disk, fails) lba b = .ok (blit disk (BLOCK_SIZE * lba) (slice b 0 BLOCK_SIZE),
      fails.tail) := by
  have hin : ¬ RAMDISK_BLOCKS ≤ lba := Nat.not_le.mpr hlba
  simp [flaky, ramdisk, hok, hin]

theorem flakyRamdisk_tryWrite {disk : Nat → UInt8} {fails : List Bool} (lba : Nat)
    (hlba : lba < RAMDISK_BLOCKS) (hok : fails.head? ≠ some true) (b : Nat → UInt8) :
    tryWrite (flaky ramdisk) (disk, fails) lba b =
    .ok ((blit disk (BLOCK_SIZE * lba) (slice b 0 BLOCK_SIZE), fails.tail), true) := by
  simp [tryWrite, flakyRamdisk_write lba hlba hok, attempt, Except.map]

theorem flakyRamdisk_writeData {data : List UInt8} (hpos : 0 < data.length) (hlen : data.length ≤ BLOCK_SIZE)
    (disk : Nat → UInt8)
    {fails : List Bool} {lba : Nat} (hlba : lba < RAMDISK_BLOCKS) (hok : fails.head? ≠ some true) :
    writeData (flaky ramdisk) (disk, fails) lba data =
      .ok ((blit disk (BLOCK_SIZE * lba) (slice (padded data) 0 BLOCK_SIZE), fails.tail), true) := by
  have hmin : min data.length BLOCK_SIZE = data.length := Nat.min_eq_left hlen
  have hnext : (u32Add lba 1 : Rust Unit Nat) = .ok (lba + 1) := by
    refine u32Add_of_lt ?_
    unfold RAMDISK_BLOCKS at hlba
    omega
  rw [writeData, if_neg (by omega)]
  dsimp only
  rw [hmin, List.take_length, flakyRamdisk_tryWrite lba hlba hok, bind_ok]
  simp only [if_true]
  rw [hnext, bind_ok, List.drop_length, writeData]
  rfl

theorem flakyRamdisk_writeData_fails {data : List UInt8} (hpos : 0 < data.length) (disk : Nat → UInt8)
    (fails : List Bool) (lba : Nat) :
    writeData (flaky ramdisk) (disk, true :: fails) lba data = .ok ((disk, fails), false) := by
  rw [writeData, if_neg (by omega)]
  simp [tryWrite, flaky, attempt, Except.map]

/-- The second access of the write reads the directory, the third writes the data and fails. -/
theorem wasmFs_survives_dataFault :
    ∃ s, runAll (FsState.step (flaky ramdisk)) ⟨.new (fun _ => 0, [false, false, true]), fun _ => none⟩
    [.write [97] [7]] = .ok s ∧ ReadsBack RAMDISK_BLOCKS flakyBlocks s.fs.dev s.files := by
  have hname : FsName [97] := by unfold FsName; decide
  refine wasmFs_survives flakyRamdisk_fallible (by decide) ⟨⟨⟨hname, by decide, ?_⟩, ?_⟩, fun _ _ => trivial⟩
  · rintro next (rfl | ⟨i, hi, hv, -⟩)
    · decide
    · exact absurd hv (by revert i; decide)
  · refine ⟨⟨_, flakyRamdisk_read DIR_BLOCK (by decide) (by decide)⟩, fun dev₁ dir idx hread _ => ?_⟩
    obtain rfl : dev₁ = (fun _ => 0, [false, true]) := by
      have hdir : readDirBlock (flaky ramdisk) (fun _ => 0, [false, false, true]) =
          .ok ((fun _ => 0, [false, true]), fun _ => 0) := rfl
      rw [WasmFs.new, hdir] at hread
      cases hread
      rfl
    refine ⟨⟨_, flakyRamdisk_read DIR_BLOCK (by decide) (by decide)⟩, fun dev₂ next dev₃ hnext hwrite => ?_⟩
    obtain rfl : dev₂ = (fun _ => 0, [true]) := by
      have hfree : nextFreeBlock (flaky ramdisk) (fun _ => 0, [false, true]) = .ok ((fun _ => 0, [true]), 1) := rfl
      rw [hfree] at hnext
      cases hnext
      rfl
    rw [flakyRamdisk_writeData_fails (by decide)] at hwrite
    cases hwrite

/-- A write of a file of one block, once the directory has been read as `dir` and the next free block is known. -/
theorem flakyRamdisk_step {disk dir : Nat → UInt8} {fails₀ fails₁ fails₂ : List Bool} {name data : List UInt8}
    {idx start : Nat} (hpos : 0 < data.length) (hlen : data.length ≤ BLOCK_SIZE)
    (hread : readDirBlock (flaky ramdisk) (disk, fails₀) = .ok ((disk, fails₁), dir))
    (hslot : findSlot dir name = some idx)
    (hnext : nextFreeBlock (flaky ramdisk) (disk, fails₁) = .ok ((disk, fails₂), start))
    (hstart : start < RAMDISK_BLOCKS) (hok : fails₂.head? ≠ some true) (hok' : fails₂.tail.head? ≠ some true)
    (files : List UInt8 → Option (List UInt8)) :
    FsState.step (flaky ramdisk) ⟨.new (disk, fails₀), files⟩ (.write name data) =
      .ok ⟨.new (blit (blit disk (BLOCK_SIZE * start) (slice (padded data) 0 BLOCK_SIZE)) (BLOCK_SIZE * DIR_BLOCK)
        (slice (writeEntry dir idx (.fresh name (UInt32.ofNat start) (UInt32.ofNat data.length))) 0
          BLOCK_SIZE), fails₂.tail.tail),
        setFile files name (some data)⟩ := by
  have hlast : ∀ disk : Nat → UInt8, tryWrite (flaky ramdisk) (disk, fails₂.tail) DIR_BLOCK
      (writeEntry dir idx (.fresh name (UInt32.ofNat start) (UInt32.ofNat data.length))) = _ :=
    fun _ => flakyRamdisk_tryWrite DIR_BLOCK (by decide) hok' _
  simp only [FsState.step, fsWrite, WasmFs.new, hread, bind_ok, hslot, hnext,
    flakyRamdisk_writeData hpos hlen disk hstart hok, if_true,
    writeDirBlock, hlast]

def steadyRamdisk : BlockDevice ((Nat → UInt8) × List Bool) where
  readBlock s lba :=
    if RAMDISK_BLOCKS ≤ lba then .error (.err s) else .ok (s, fun k => s.1 (BLOCK_SIZE * lba + k))
  writeBlock s lba b :=
    if RAMDISK_BLOCKS ≤ lba then .error (.err s) else .ok (blit s.1 (BLOCK_SIZE * lba) (slice b 0 BLOCK_SIZE), s.2)

theorem steadyRamdisk_finite : Finite steadyRamdisk RAMDISK_BLOCKS flakyBlocks where
  behaves := {
    read := fun s lba h => ⟨s, _, if_neg (Nat.not_le.mpr h), fun _ _ => rfl, fun _ _ _ _ => rfl⟩
    write := fun s lba b h => by
      obtain ⟨disk, hwrite, hcont⟩ := ramdisk_behaves.write s.1 lba b h
      refine ⟨_, if_neg (Nat.not_le.mpr h), ?_⟩
      cases (show ramdisk.writeBlock s.1 lba b = .ok _ from if_neg (Nat.not_le.mpr h)).symm.trans hwrite
      exact hcont }
  beyond _ _ _ h := if_pos h
  pos := by decide

theorem steadyRamdisk_readDir (s : (Nat → UInt8) × List Bool) :
    readDirBlock steadyRamdisk s = .ok (s, fun k => s.1 (BLOCK_SIZE * DIR_BLOCK + k)) := rfl

theorem lookup_rewritten {disk : Nat → UInt8} {name n : List UInt8} {start size : UInt32}
    (hname : FsName name) (hn : n ≠ name) :
    lookup (fun k => blit disk (BLOCK_SIZE * DIR_BLOCK)
      (slice (writeEntry (fun _ => 0) 0 (.fresh name start size)) 0 BLOCK_SIZE)
      (BLOCK_SIZE * DIR_BLOCK + k)) n = none := by
  rw [Option.eq_none_iff_forall_ne_some]
  intro i hl
  obtain ⟨hi, hv, hfound⟩ := lookup_some hl
  have hentry : ∀ k < BLOCK_SIZE, blit disk (BLOCK_SIZE * DIR_BLOCK)
      (slice (writeEntry (fun _ => 0) 0 (.fresh name start size)) 0 BLOCK_SIZE)
      (BLOCK_SIZE * DIR_BLOCK + k) = writeEntry (fun _ => 0) 0 (.fresh name start size) k := by
    intro k hk
    rw [blit_slice, if_pos ⟨Nat.le_add_right _ _, by omega⟩, Nat.add_sub_cancel_left]
  rw [readEntry_lt hentry hi] at hv hfound
  by_cases hzero : i = 0
  · subst hzero
    rw [readEntry_writeEntry_self, fresh_nameStr hname] at hfound
    exact hn hfound.symm
  · rw [readEntry_writeEntry_of_ne hzero] at hv
    revert hv
    show ¬ ((0 : UInt8) &&& FLAG_VALID != 0) = true
    decide

/-- One file is written; then the directory cannot be read for the write of another one, which makes it the
only one. -/
theorem wasmFs_forgets : ¬ ∀ (fails : List Bool) (ops : List FsOp),
    Guarded (FsState.step (flaky ramdisk)) (fun s op => op.Fits flakyBlocks s) ⟨.new (fun _ => 0, fails),
      fun _ => none⟩ ops →
    ∃ s, runAll (FsState.step (flaky ramdisk)) ⟨.new (fun _ => 0, fails), fun _ => none⟩ ops = .ok s ∧
      ReadsBack RAMDISK_BLOCKS flakyBlocks s.fs.dev s.files := by
  intro hall
  have hname : FsName [97] := by unfold FsName; decide
  have hname' : FsName [98] := by unfold FsName; decide
  -- the disk after the first write stays folded
  obtain ⟨disk, hdisk⟩ : ∃ disk, disk = ramdiskWrite (fun _ => 0) 0 1 [97] [7] := ⟨_, rfl⟩
  have hread₁ : readDirBlock (flaky ramdisk) (fun _ => 0, [false, false, false, false, true]) =
      .ok ((fun _ => 0, [false, false, false, true]), fun _ => 0) := flakyRamdisk_readDir (by decide)
  have hnext₁ : nextFreeBlock (flaky ramdisk) (fun _ => 0, [false, false, false, true]) =
      .ok ((fun _ => 0, [false, false, true]), 1) :=
    flakyRamdisk_nextFree (by decide) (by decide)
  have hslot : ∀ name, findSlot (fun _ => 0) name = some 0 := by
    intro name
    rw [findSlot, lookup_zeros]
    rfl
  have hpos : 0 < ([7] : List UInt8).length := by decide
  have hlen : ([7] : List UInt8).length ≤ BLOCK_SIZE := by decide
  have hfirst : FsState.step (flaky ramdisk) ⟨.new (fun _ => 0, [false, false, false, false, true]), fun _ =>
      none⟩ (.write [97] [7]) =
      .ok ⟨.new (disk, [true]), setFile (fun _ => none) [97] (some [7])⟩ := by
    rw [hdisk]
    exact flakyRamdisk_step hpos hlen hread₁ (hslot _) hnext₁ (by decide) (by decide) (by decide) _
  have hread₂ : readDirBlock (flaky ramdisk) (disk, [true]) = .ok ((disk, []), fun _ => 0) := rfl
  have hnext₂ : nextFreeBlock (flaky ramdisk) (disk, []) = .ok ((disk, []), 2) := by
    refine flakyRamdisk_nextFree (by decide) ?_
    rw [hdisk]
    decide +kernel
  have hpos' : 0 < ([8] : List UInt8).length := by decide
  have hsecond := flakyRamdisk_step hpos' (by decide) hread₂ (hslot [98]) hnext₂ (by decide) (by decide) (by decide)
    (setFile (fun _ => none) [97] (some [7]))
  have hfin : ∀ i < DIR_ENTRIES_PER_BLOCK, (entryAt flakyBlocks (disk, [true]) i).isValid →
      (entryAt flakyBlocks (disk, [true]) i).fin ≤ 2 := by
    rw [hdisk]
    decide +kernel
  have hops : Guarded (FsState.step (flaky ramdisk)) (fun s op => op.Fits flakyBlocks s)
      ⟨.new (fun _ => 0, [false, false, false, false, true]), fun _ => none⟩ [.write [97] [7],
        .write [98] [8]] := by
    refine ⟨⟨hname, by decide, ?_⟩, fun s hs => ⟨?_, fun _ _ => trivial⟩⟩
    · rintro next (rfl | ⟨i, hi, hv, -⟩)
      · decide
      · exact absurd hv (by revert i; decide)
    · rw [hfirst] at hs
      obtain rfl := Except.ok.inj hs
      refine ⟨hname', by decide, ?_⟩
      have hone : fileBlocks ([8] : List UInt8).length = 1 := by decide
      rintro next (rfl | ⟨i, hi, hv, rfl⟩)
      · decide
      · have hle := hfin i hi hv
        rw [hone]
        exact Nat.lt_of_le_of_lt (Nat.add_le_add_right hle 1) (by decide)
  obtain ⟨s, hrun, hback⟩ := hall _ _ hops
  simp only [runAll, hfirst, hsecond, bind_ok] at hrun
  obtain rfl := Except.ok.inj hrun
  obtain ⟨fs, fd, hopen, _⟩ :=
    (hback steadyRamdisk steadyRamdisk_finite [97]).1 [7] rfl (fun _ => ⟨0, 0, 0, false⟩) ⟨0, by decide, rfl⟩
  rw [fsOpen, steadyRamdisk_readDir, bind_ok] at hopen
  have hne : ([97] : List UInt8) ≠ [98] := by decide
  simp only [WasmFs.new, lookup_rewritten hname' hne, Except.ok.injEq, Prod.mk.injEq, reduceCtorEq,
    and_false] at hopen

end WasmOs.Fs
