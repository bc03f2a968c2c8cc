import WasmOs.BlockIo
import WasmOs.Runs
import WasmOs.WasmFs

/-!
# Files stay intact

After any history of writes and deletions, failed ones included, the extents of the files are disjoint
and behind the directory, names are unique, and every file reads back as it was last written. A write
touches only blocks behind every extent until the directory changes, which is why a failing one is
harmless.
-/

namespace WasmOs.Fs

open Runs WasmFs

/-! ## Directory entries -/

theorem readEntry_congr {a b : Nat → UInt8} {i : Nat} (h : ∀ k < DIR_ENTRY_SIZE, a (DIR_ENTRY_SIZE * i + k) =
      b (DIR_ENTRY_SIZE * i + k)) :
    readEntry a i = readEntry b i := by
  unfold DIR_ENTRY_SIZE at h
  have hname : slice a (64 * i) 32 = slice b (64 * i) 32 := slice_congr fun k hk => h k (by omega)
  have hstart : leNat a (64 * i + 32) 4 = leNat b (64 * i + 32) 4 :=
    leNat_congr fun j hj => by rw [Nat.add_assoc]; exact h (32 + j) (by omega)
  have hsize : leNat a (64 * i + 36) 4 = leNat b (64 * i + 36) 4 :=
    leNat_congr fun j hj => by rw [Nat.add_assoc]; exact h (36 + j) (by omega)
  have hflags : a (64 * i + 40) = b (64 * i + 40) := h 40 (by omega)
  simp only [readEntry, DIR_ENTRY_SIZE, hname, hstart, hsize, hflags]

@[simp] theorem DirEntry.toBytes_length (e : DirEntry) : e.toBytes.length = 64 := by
  simp [DirEntry.toBytes, e.name_length]

theorem writeEntry_eq (dir : Nat → UInt8) (i : Nat) (e : DirEntry) :
    writeEntry dir i e =
      blit (blit (blit (blit (blit dir (64 * i) e.name) (64 * i + 32) (leBytes e.startBlock.toNat 4)) (64 * i + 36)
        (leBytes e.size.toNat 4)) (64 * i + 40) [e.flags]) (64 * i + 41) (List.replicate 23 0) := by
  unfold writeEntry DirEntry.toBytes DIR_ENTRY_SIZE
  rw [blit_append, blit_append, blit_append, blit_append]
  simp [e.name_length]

theorem readEntry_writeEntry_self (dir : Nat → UInt8) (i : Nat) (e : DirEntry) :
    readEntry (writeEntry dir i e) i = e := by
  rw [writeEntry_eq]
  generalize hdir : blit (blit (blit (blit (blit dir (64 * i) e.name) (64 * i + 32) (leBytes e.startBlock.toNat 4))
    (64 * i + 36) (leBytes e.size.toNat 4)) (64 * i + 40) [e.flags]) (64 * i + 41) (List.replicate 23 0) = d
  have hname : slice d (64 * i) 32 = e.name := by
    apply List.ext_getElem
    · rw [slice_length, e.name_length]
    · intro k hk hk'
      rw [slice_length] at hk
      rw [slice_getElem, ← hdir, blit_of_lt (by omega), blit_of_lt (by omega), blit_of_lt (by omega),
        blit_of_lt (by omega), blit_add _ _ hk']
  have hstart : leNat d (64 * i + 32) 4 = e.startBlock.toNat := by
    rw [leNat_of_bytes (v := e.startBlock.toNat), Nat.mod_eq_of_lt (show _ < 256 ^ 4 from e.startBlock.toNat_lt)]
    intro j hj
    rw [← hdir, blit_of_lt (by omega), blit_of_lt (by omega), blit_of_lt (by omega),
      blit_add _ _ (by simpa using hj),
      leBytes_getElem]
  have hsize : leNat d (64 * i + 36) 4 = e.size.toNat := by
    rw [leNat_of_bytes (v := e.size.toNat), Nat.mod_eq_of_lt (show _ < 256 ^ 4 from e.size.toNat_lt)]
    intro j hj
    rw [← hdir, blit_of_lt (by omega), blit_of_lt (by simp; omega), blit_add _ _ (by simpa using hj),
      leBytes_getElem]
  have hflags : d (64 * i + 40) = e.flags := by
    rw [← hdir, blit_of_lt (by omega)]
    exact blit_add _ _ (show 0 < [e.flags].length by simp)
  obtain ⟨name, startBlock, size, flags, hlen⟩ := e
  simp only [readEntry, DIR_ENTRY_SIZE, hname, hstart, hsize, hflags, UInt32.ofNat_toNat]

theorem readEntry_writeEntry_of_ne {i j : Nat} (h : j ≠ i) (dir : Nat → UInt8) (e : DirEntry) :
    readEntry (writeEntry dir i e) j = readEntry dir j := by
  refine readEntry_congr fun k hk => ?_
  unfold DIR_ENTRY_SIZE at hk
  unfold writeEntry DIR_ENTRY_SIZE
  refine blit_of_lt ?_
  rw [DirEntry.toBytes_length]
  omega

def FsName (name : List UInt8) : Prop := validUtf8 name ∧ 0 ∉ name ∧ name.length ≤ 32

theorem fresh_nameStr {name : List UInt8} (h : FsName name) (startBlock size : UInt32) :
    (DirEntry.fresh name startBlock size).nameStr = name := by
  obtain ⟨hv, hz, hlen⟩ := h
  have htake : name.take 32 = name := List.take_of_length_le hlen
  have hwhile : (name ++ List.replicate (32 - name.length) (0 : UInt8)).takeWhile (· ≠ 0) = name := by
    rw [List.takeWhile_append_of_pos]
    · cases hn : 32 - name.length with
      | zero => simp
      | succ n => simp [List.replicate_succ]
    · intro b hb
      simpa using fun h0 : b = 0 => hz (h0 ▸ hb)
  simp only [DirEntry.nameStr, DirEntry.fresh, htake, hwhile, hv, if_true]

@[simp] theorem fresh_isValid (name : List UInt8) (startBlock size : UInt32) :
    (DirEntry.fresh name startBlock size).isValid = true := by
  simp [DirEntry.isValid, DirEntry.fresh, FLAG_VALID]

@[simp] theorem blank_isValid : DirEntry.blank.isValid = false := by decide

/-! ## Reading and writing blocks -/

section
variable {σ : Type} {D : BlockDevice σ} {count : Nat} {contents : σ → Nat → Nat → UInt8}

theorem SameBlocks.trans {s₁ s₂ s₃ : σ} (h₁ : SameBlocks count contents s₁ s₂)
    (h₂ : SameBlocks count contents s₂ s₃) :
    SameBlocks count contents s₁ s₃ := fun l hl k hk => (h₂ l hl k hk).trans (h₁ l hl k hk)

/-- What the proofs use of a device: in range it is an array of blocks, and beyond it writes fail. -/
structure Finite (D : BlockDevice σ) (count : Nat) (contents : σ → Nat → Nat → UInt8) : Prop where
  behaves : D.Behaves count contents
  beyond : ∀ s lba b, count ≤ lba → D.writeBlock s lba b = .error (.err s)
  pos : 0 < count

/-- A device of which any access may fail; a failed one changes no block. -/
structure Fallible (D : BlockDevice σ) (count : Nat) (contents : σ → Nat → Nat → UInt8) : Prop where
  read : ∀ s lba, lba < count →
    (∃ s' b, D.readBlock s lba = .ok (s', b) ∧ (∀ k < BLOCK_SIZE, b k = contents s lba k) ∧
    SameBlocks count contents s s') ∨
      ∃ s', D.readBlock s lba = .error (.err s') ∧ SameBlocks count contents s s'
  write : ∀ s lba b,
    (lba < count ∧ ∃ s', D.writeBlock s lba b = .ok s' ∧
      ∀ l < count, ∀ k < BLOCK_SIZE, contents s' l k = if l = lba then b k else contents s l k) ∨
      ∃ s', D.writeBlock s lba b = .error (.err s') ∧ SameBlocks count contents s s'
  pos : 0 < count

theorem Finite.readsDir (hD : Finite D count contents) (dev : σ) : ∃ d, D.readBlock dev DIR_BLOCK = .ok d := by
  obtain ⟨dev', dir, hread, _⟩ := hD.behaves.read dev DIR_BLOCK hD.pos
  exact ⟨_, hread⟩

theorem Finite.writesDir (hD : Finite D count contents) (dev : σ) (dir : Nat → UInt8) :
    ∃ d, D.writeBlock dev DIR_BLOCK dir = .ok d := by
  obtain ⟨dev', hwrite, _⟩ := hD.behaves.write dev DIR_BLOCK dir hD.pos
  exact ⟨_, hwrite⟩

theorem Finite.fallible (hD : Finite D count contents) : Fallible D count contents where
  read s lba h := .inl (hD.behaves.read s lba h)
  write s lba b := by
    by_cases h : lba < count
    · exact .inl ⟨h, hD.behaves.write s lba b h⟩
    · exact .inr ⟨s, hD.beyond s lba b (Nat.le_of_not_lt h), fun _ _ _ _ => rfl⟩
  pos := hD.pos

variable (hD : Fallible D count contents)
include hD

theorem readDirBlock_ok {dev : σ} (hread : ∃ d, D.readBlock dev DIR_BLOCK = .ok d) :
    ∃ dev' dir, readDirBlock D dev = .ok (dev', dir) ∧
    D.readBlock dev DIR_BLOCK = .ok (dev', dir) ∧ (∀ k < BLOCK_SIZE, dir k = contents dev DIR_BLOCK k) ∧
    SameBlocks count contents dev dev' := by
  obtain ⟨d, hread⟩ := hread
  obtain ⟨dev', dir, hread', hdir, hsame⟩ | ⟨dev', hread', _⟩ := hD.read dev DIR_BLOCK hD.pos
  · exact ⟨dev', dir, by simp [readDirBlock, hread', attempt], hread', hdir, hsame⟩
  · rw [hread] at hread'
    cases hread'

theorem readDirBlock_cases (dev : σ) :
    ∃ dev' dir, readDirBlock D dev = .ok (dev', dir) ∧ SameBlocks count contents dev dev' ∧
    ((∀ k < BLOCK_SIZE, dir k = contents dev DIR_BLOCK k) ∨ dir = fun _ => 0) := by
  obtain ⟨dev', dir, hread, hdir, hsame⟩ | ⟨dev', hread, hsame⟩ := hD.read dev DIR_BLOCK hD.pos
  · exact ⟨dev', dir, by simp [readDirBlock, hread, attempt], hsame, .inl hdir⟩
  · exact ⟨dev', _, by simp [readDirBlock, hread, attempt], hsame, .inr rfl⟩

theorem tryWrite_ok (dev : σ) (lba : Nat) (blk : Nat → UInt8) : ∃ dev' ok, tryWrite D dev lba blk = .ok (dev', ok) ∧
    (ok = true → lba < count ∧ ∀ l < count, ∀ k < BLOCK_SIZE, contents dev' l k = if l = lba then blk k else
      contents dev l k) ∧
    (ok = false → SameBlocks count contents dev dev') := by
  obtain ⟨hlba, dev', hwrite, hcont⟩ | ⟨dev', hwrite, hsame⟩ := hD.write dev lba blk
  · exact ⟨dev', true, by simp [tryWrite, hwrite, attempt, Except.map], fun _ => ⟨hlba, hcont⟩, nofun⟩
  · exact ⟨dev', false, by simp [tryWrite, hwrite, attempt, Except.map], nofun, fun _ => hsame⟩

theorem writeDirBlock_ok {dev : σ} {dir : Nat → UInt8} (hwrite : ∃ d, D.writeBlock dev DIR_BLOCK dir = .ok d) :
    ∃ dev', writeDirBlock D dev dir = .ok dev' ∧
      ∀ l < count, ∀ k < BLOCK_SIZE, contents dev' l k = if l = DIR_BLOCK then dir k else contents dev l k := by
  obtain ⟨d, hwrite⟩ := hwrite
  obtain ⟨_, dev', hwrite', hcont⟩ | ⟨dev', hwrite', _⟩ := hD.write dev DIR_BLOCK dir
  · exact ⟨dev', by simp [writeDirBlock, tryWrite, hwrite', attempt, Except.map], hcont⟩
  · rw [hwrite] at hwrite'
    cases hwrite'

omit hD in
/-- The blocks a file of `n` bytes needs. -/
theorem blocks_step {n : Nat} (hn : n ≠ 0) :
    (n + BLOCK_SIZE - 1) / BLOCK_SIZE = (n - min n BLOCK_SIZE + BLOCK_SIZE - 1) / BLOCK_SIZE + 1 := by
  unfold BLOCK_SIZE
  omega

/-- Byte `p` of `data` is on the device at `start`. -/
def DataAt (count : Nat) (contents : σ → Nat → Nat → UInt8) (dev : σ) (start : Nat) (data : List UInt8) : Prop :=
  ∀ p (hp : p < data.length),
    start + p / BLOCK_SIZE < count ∧ contents dev (start + p / BLOCK_SIZE) (p % BLOCK_SIZE) = data[p]

/-- Writing file data leaves every block before it alone, and if no block fails the data is there. -/
theorem writeData_ok : ∀ (n : Nat) (data : List UInt8) (dev : σ) (lba : Nat), data.length = n →
    lba + (data.length + BLOCK_SIZE - 1) / BLOCK_SIZE < 2 ^ 32 →
    ∃ dev' ok, writeData D dev lba data = .ok (dev', ok) ∧
      (∀ l < count, l < lba → ∀ k < BLOCK_SIZE, contents dev' l k = contents dev l k) ∧
      (ok = true → DataAt count contents dev' lba data) := by
  intro n
  induction n using Nat.strongRecOn with
  | ind n ih =>
    intro data dev lba hlen hfit
    rw [writeData]
    by_cases hn : data.length = 0
    · refine ⟨dev, true, if_pos hn, fun _ _ _ _ _ => rfl, fun _ p hp => ?_⟩
      omega
    · rw [blocks_step hn] at hfit
      generalize hq : (data.length - min data.length BLOCK_SIZE + BLOCK_SIZE - 1) / BLOCK_SIZE = q at hfit
      rw [if_neg hn]
      dsimp only
      obtain ⟨dev₁, ok₁, hwrite, hdone, hfailed⟩ :=
        tryWrite_ok hD dev lba (padded (data.take (min data.length BLOCK_SIZE)))
      cases ok₁ with
      | true =>
        obtain ⟨hlba, hcont⟩ := hdone rfl
        have hadd : (u32Add lba 1 : Rust Unit Nat) = .ok (lba + 1) := u32Add_of_lt (by omega)
        have hdrop : (data.drop (min data.length BLOCK_SIZE)).length = data.length - min data.length BLOCK_SIZE :=
          List.length_drop
        have hsmall : (data.drop (min data.length BLOCK_SIZE)).length < n := by
          unfold BLOCK_SIZE at *
          omega
        obtain ⟨dev₂, ok, hrest, hkeep, hdata⟩ := ih _ hsmall _ dev₁ (lba + 1) rfl (by rw [hdrop, hq]; omega)
        rw [hwrite, bind_ok]
        simp only [if_true]
        rw [hadd, bind_ok]
        refine ⟨dev₂, ok, hrest, fun l hl hlt k hk => ?_, fun hok p hp => ?_⟩
        · rw [hkeep l hl (by omega) k hk, hcont l hl k hk, if_neg (by omega)]
        · by_cases hfirst : p < BLOCK_SIZE
          · have hdiv : p / BLOCK_SIZE = 0 := Nat.div_eq_of_lt hfirst
            have hmod : p % BLOCK_SIZE = p := Nat.mod_eq_of_lt hfirst
            rw [hdiv, hmod, Nat.add_zero]
            refine ⟨hlba, ?_⟩
            rw [hkeep lba hlba (by omega) p hfirst, hcont lba hlba p hfirst, if_pos rfl]
            have hp' : p < (data.take (min data.length BLOCK_SIZE)).length := by rw [List.length_take]; omega
            have hget := blit_add (fun _ => 0) 0 hp'
            rw [Nat.zero_add] at hget
            rw [padded, hget, List.getElem_take]
          · have hmin : min data.length BLOCK_SIZE = BLOCK_SIZE := by omega
            have hp' : p - BLOCK_SIZE < (data.drop (min data.length BLOCK_SIZE)).length := by rw [hdrop]; omega
            obtain ⟨hin, hget⟩ := hdata hok (p - BLOCK_SIZE) hp'
            have hdiv : lba + 1 + (p - BLOCK_SIZE) / BLOCK_SIZE = lba + p / BLOCK_SIZE := by
              unfold BLOCK_SIZE at *
              omega
            have hmod : (p - BLOCK_SIZE) % BLOCK_SIZE = p % BLOCK_SIZE := by
              unfold BLOCK_SIZE at *
              omega
            rw [hdiv] at hin hget
            rw [hmod] at hget
            have hidx : min data.length BLOCK_SIZE + (p - BLOCK_SIZE) = p := by omega
            refine ⟨hin, ?_⟩
            rw [hget, List.getElem_drop]
            simp only [hidx]
      | false =>
        rw [hwrite, bind_ok]
        exact ⟨dev₁, false, by simp, fun l hl _ => hfailed rfl l hl, nofun⟩

/-! ## Reading a file -/

omit hD in
theorem DataAt.congr {dev dev' : σ} {start : Nat} {data : List UInt8} (h : DataAt count contents dev start data)
    (hsame : ∀ p < data.length, ∀ k < BLOCK_SIZE,
      contents dev' (start + p / BLOCK_SIZE) k = contents dev (start + p / BLOCK_SIZE) k) :
    DataAt count contents dev' start data := by
  intro p hp
  have hmod : p % BLOCK_SIZE < BLOCK_SIZE := Nat.mod_lt _ (by decide)
  exact ⟨(h p hp).1, (hsame p hp _ hmod).trans (h p hp).2⟩

omit hD in
theorem readLoop_ok (hD : Finite D count contents) (data : List UInt8) :
    ∀ (n : Nat) (dev : σ) (o : OpenFile), DataAt count contents dev o.startBlock data →
    o.pos + n ≤ data.length → data.length < 2 ^ 32 →
    o.startBlock + (data.length + BLOCK_SIZE - 1) / BLOCK_SIZE < 2 ^ 32 →
    ∃ dev', readLoop D dev o n = .ok (dev', { o with pos := o.pos + n }, (data.drop o.pos).take n) ∧
      SameBlocks count contents dev dev' := by
  intro n
  induction n using Nat.strongRecOn with
  | ind n ih =>
    intro dev o hdata hn hlen hfit
    rw [readLoop]
    by_cases hz : n = 0
    · subst hz
      exact ⟨dev, by simp, fun _ _ _ _ => rfl⟩
    · have hoff : o.pos % BLOCK_SIZE < BLOCK_SIZE := Nat.mod_lt _ (by decide)
      have hlt : o.pos < data.length := by omega
      obtain ⟨hin, -⟩ := hdata o.pos hlt
      have hdiv : o.pos / BLOCK_SIZE < (data.length + BLOCK_SIZE - 1) / BLOCK_SIZE := by
        unfold BLOCK_SIZE at *
        omega
      have hmod : o.pos / BLOCK_SIZE % 2 ^ 32 = o.pos / BLOCK_SIZE := Nat.mod_eq_of_lt (by omega)
      have hadd : (u32Add o.startBlock (o.pos / BLOCK_SIZE) : Rust Unit Nat) =
          .ok (o.startBlock + o.pos / BLOCK_SIZE) :=
        u32Add_of_lt (by omega)
      obtain ⟨dev₁, blk, hread, hblk, hsame⟩ := hD.behaves.read dev (o.startBlock + o.pos / BLOCK_SIZE) hin
      rw [if_neg hz, hmod, hadd, bind_ok, hread]
      simp only [attempt, bind_ok, if_true]
      generalize ha : min (BLOCK_SIZE - o.pos % BLOCK_SIZE) n = avail
      have hpos : (u32Add o.pos avail : Rust Unit Nat) = .ok (o.pos + avail) := u32Add_of_lt (by omega)
      have hdata₁ : DataAt count contents dev₁ o.startBlock data :=
        hdata.congr fun p hp k hk => hsame _ (hdata p hp).1 k hk
      obtain ⟨dev₂, hrest, hsame₂⟩ := ih (n - avail) (by omega) dev₁ { o with pos := o.pos + avail } hdata₁
        (by dsimp only; omega) hlen hfit
      rw [hpos, bind_ok, hrest, bind_ok]
      -- the bytes of this block are the file's bytes from the current position on
      have hchunk : slice blk (o.pos % BLOCK_SIZE) avail = (data.drop o.pos).take avail := by
        apply List.ext_getElem
        · rw [slice_length, List.length_take, List.length_drop]
          omega
        · intro j hj _
          rw [slice_length] at hj
          obtain ⟨-, hget⟩ := hdata (o.pos + j) (by omega)
          have hblock : (o.pos + j) / BLOCK_SIZE = o.pos / BLOCK_SIZE := by
            unfold BLOCK_SIZE at *
            omega
          have hoffset : (o.pos + j) % BLOCK_SIZE = o.pos % BLOCK_SIZE + j := by
            unfold BLOCK_SIZE at *
            omega
          rw [hblock, hoffset] at hget
          rw [slice_getElem, List.getElem_take, List.getElem_drop, hblk _ (by omega), hget]
      have hcat : (data.drop o.pos).take avail ++ (data.drop (o.pos + avail)).take (n - avail) =
          (data.drop o.pos).take n := by
        rw [← List.drop_drop, ← List.take_add]
        congr 1
        omega
      refine ⟨dev₂, ?_, hsame.trans hsame₂⟩
      dsimp only
      rw [hchunk, hcat, Nat.add_assoc, show avail + (n - avail) = n by omega]

end

/-- Reads one after the other, each with the size of its buffer and the length asked for. -/
def readChunks {σ : Type} (D : BlockDevice σ) (fs : WasmFs σ) (fd : Nat) :
    List (Nat × Nat) → Rust Unit (WasmFs σ × List UInt8)
  | [] => .ok (fs, [])
  | (cap, len) :: chunks => do
    let (fs, bytes) ← fs.fsRead D fd cap len
    let (fs, rest) ← readChunks D fs fd chunks
    .ok (fs, bytes ++ rest)

def chunkSum (chunks : List (Nat × Nat)) : Nat := (chunks.map fun c => min c.1 c.2).sum

section
variable {σ : Type} {D : BlockDevice σ} {count : Nat} {contents : σ → Nat → Nat → UInt8}

theorem readChunks_ok (hD : Finite D count contents) {data : List UInt8} {fd : Nat} (hfd : fd < MAX_OPEN_FILES)
    (hlen : data.length < 2 ^ 32) : ∀ (chunks : List (Nat × Nat)) (fs : WasmFs σ), (fs.opened fd).inUse = true →
    (fs.opened fd).size = data.length → (fs.opened fd).pos ≤ data.length →
    DataAt count contents fs.dev (fs.opened fd).startBlock data →
    (fs.opened fd).startBlock + (data.length + BLOCK_SIZE - 1) / BLOCK_SIZE < 2 ^ 32 →
    ∃ fs', readChunks D fs fd chunks = .ok (fs', (data.drop (fs.opened fd).pos).take (chunkSum chunks))
  | [], fs, _, _, _, _, _ => ⟨fs, by simp [readChunks, chunkSum]⟩
  | (cap, len) :: chunks, fs, huse, hsize, hpos, hdata, hfit => by
    have hnot : ¬ (MAX_OPEN_FILES ≤ fd ∨ !(fs.opened fd).inUse) := by simp [huse]; omega
    have hsum : chunkSum ((cap, len) :: chunks) = min cap len + chunkSum chunks := by simp [chunkSum]
    unfold readChunks fsRead
    rw [if_neg hnot]
    dsimp only
    generalize hn : min (min len ((fs.opened fd).size - (fs.opened fd).pos)) cap = n
    by_cases hz : n = 0
    · rw [if_pos hz, bind_ok]
      obtain ⟨fs', hrest⟩ := readChunks_ok hD hfd hlen chunks fs huse hsize hpos hdata hfit
      refine ⟨fs', ?_⟩
      dsimp only
      rw [hrest, bind_ok, List.nil_append, hsum]
      -- either nothing was asked for or the file is at its end
      by_cases hend : (fs.opened fd).pos = data.length
      · simp [hend]
      · rw [show min cap len + chunkSum chunks = chunkSum chunks by omega]
    · obtain ⟨dev', hloop, hsame⟩ := readLoop_ok hD data n fs.dev (fs.opened fd) hdata (by omega) hlen hfit
      have hdata' : DataAt count contents dev' (fs.opened fd).startBlock data :=
        hdata.congr fun p hp k hk => hsame _ (hdata p hp).1 k hk
      rw [if_neg hz, hloop, bind_ok]
      dsimp only
      obtain ⟨fs', hrest⟩ := readChunks_ok hD hfd hlen chunks
        { fs with dev := dev', opened := upd fs.opened fd { fs.opened fd with pos := (fs.opened fd).pos + n } }
        (by simpa using huse) (by simpa using hsize) (by simp; omega) (by simpa using hdata') (by simpa using hfit)
      refine ⟨fs', ?_⟩
      rw [bind_ok]
      dsimp only
      rw [hrest, bind_ok]
      simp only [upd_self]
      rw [hsum, ← List.drop_drop, ← List.take_add]
      congr 2
      -- the read stops at what was asked for or at the end of the file
      by_cases hshort : min cap len = n
      · rw [hshort]
      · rw [List.take_of_length_le, List.take_of_length_le]
        · rw [List.length_drop]; omega
        · rw [List.length_drop]; omega

/-! ## The directory -/

theorem DirEntry.blocks_lt (e : DirEntry) : e.blocks < 2 ^ 32 := by
  have := e.size.toNat_lt
  unfold DirEntry.blocks BLOCK_SIZE
  omega

/-- The loop ends behind every valid entry it has seen. -/
theorem nextFree_ok (dir : Nat → UInt8) : ∀ (is : List Nat) (next : Nat),
    (∀ i ∈ is, (readEntry dir i).isValid → (readEntry dir i).startBlock.toNat + (readEntry dir i).blocks < 2 ^ 32) →
    ∃ m, nextFree dir is next = .ok m ∧ next ≤ m ∧
      (∀ i ∈ is, (readEntry dir i).isValid → (readEntry dir i).startBlock.toNat + (readEntry dir i).blocks ≤ m) ∧
      (m = next ∨ ∃ i ∈ is, (readEntry dir i).isValid ∧
        (readEntry dir i).startBlock.toNat + (readEntry dir i).blocks = m)
  | [], next, _ => ⟨next, rfl, Nat.le_refl _, fun i hi => (by cases hi), .inl rfl⟩
  | i :: is, next, hfit => by
    have htail := fun j hj => hfit j (List.mem_cons_of_mem i hj)
    unfold nextFree
    by_cases hv : (readEntry dir i).isValid
    · have hhead := hfit i (List.mem_cons_self ..) hv
      obtain ⟨m, hm, hle, hall, hlast⟩ := nextFree_ok dir is
        (if (readEntry dir i).startBlock.toNat + (readEntry dir i).blocks > next then
          (readEntry dir i).startBlock.toNat + (readEntry dir i).blocks else next) htail
      have hge : next ≤ m ∧ (readEntry dir i).startBlock.toNat + (readEntry dir i).blocks ≤ m := by
        split at hle <;> omega
      refine ⟨m, ?_, hge.1, fun j hj hvj => ?_, ?_⟩
      · simp only [hv, if_true]
        rw [Nat.mod_eq_of_lt (DirEntry.blocks_lt _), u32Add_of_lt hhead, bind_ok, hm]
      · obtain rfl | hj := List.mem_cons.mp hj
        · exact hge.2
        · exact hall j hj hvj
      · obtain hm | ⟨j, hj, hvj, hm⟩ := hlast
        · split at hm
          · exact .inr ⟨i, List.mem_cons_self .., hv, hm.symm⟩
          · exact .inl hm
        · exact .inr ⟨j, List.mem_cons_of_mem i hj, hvj, hm⟩
    · obtain ⟨m, hm, hle, hall, hlast⟩ := nextFree_ok dir is next htail
      refine ⟨m, by simp [hv, hm], hle, fun j hj hvj => ?_, ?_⟩
      · obtain rfl | hj := List.mem_cons.mp hj
        · exact absurd hvj hv
        · exact hall j hj hvj
      · obtain hm | ⟨j, hj, hvj, hm⟩ := hlast
        · exact .inl hm
        · exact .inr ⟨j, List.mem_cons_of_mem i hj, hvj, hm⟩

/-- Entry `i` of the directory on the device. -/
def entryAt (contents : σ → Nat → Nat → UInt8) (dev : σ) (i : Nat) :
    DirEntry := readEntry (contents dev DIR_BLOCK) i

def DirEntry.fin (e : DirEntry) : Nat := e.startBlock.toNat + e.blocks

/-- The directory's extents are disjoint and behind it, its names are unique, and its files are `files`. -/
structure Intact (count : Nat) (contents : σ → Nat → Nat → UInt8) (dev : σ)
    (files : List UInt8 → Option (List UInt8)) :
    Prop where
  behind : ∀ i < DIR_ENTRIES_PER_BLOCK, (entryAt contents dev i).isValid →
    DATA_START_BLOCK ≤ (entryAt contents dev i).startBlock.toNat
  fits : ∀ i < DIR_ENTRIES_PER_BLOCK, (entryAt contents dev i).isValid → (entryAt contents dev i).fin < 2 ^ 32
  disjoint : ∀ i < DIR_ENTRIES_PER_BLOCK, ∀ j < DIR_ENTRIES_PER_BLOCK, i ≠ j → (entryAt contents dev i).isValid →
    (entryAt contents dev j).isValid →
    (entryAt contents dev i).fin ≤ (entryAt contents dev j).startBlock.toNat ∨
      (entryAt contents dev j).fin ≤ (entryAt contents dev i).startBlock.toNat
  unique : ∀ i < DIR_ENTRIES_PER_BLOCK, ∀ j < DIR_ENTRIES_PER_BLOCK, (entryAt contents dev i).isValid →
    (entryAt contents dev j).isValid → (entryAt contents dev i).nameStr = (entryAt contents dev j).nameStr → i = j
  file : ∀ i < DIR_ENTRIES_PER_BLOCK, (entryAt contents dev i).isValid →
    ∃ data, files (entryAt contents dev i).nameStr = some data ∧ (entryAt contents dev i).size.toNat = data.length ∧
      DataAt count contents dev (entryAt contents dev i).startBlock.toNat data
  listed : ∀ name data, files name = some data →
    ∃ i < DIR_ENTRIES_PER_BLOCK, (entryAt contents dev i).isValid ∧ (entryAt contents dev i).nameStr = name

theorem DirEntry.lt_fin {e : DirEntry} {p : Nat} (h : p < e.size.toNat) :
    e.startBlock.toNat + p / BLOCK_SIZE < e.fin := by
  unfold DirEntry.fin DirEntry.blocks BLOCK_SIZE
  omega

section
variable {dev dev' : σ} {files : List UInt8 → Option (List UInt8)} {next : Nat}

/-- Every valid extent ends before `next`. -/
def EndsBefore (contents : σ → Nat → Nat → UInt8) (dev : σ) (next : Nat) : Prop :=
  ∀ i < DIR_ENTRIES_PER_BLOCK, (entryAt contents dev i).isValid → (entryAt contents dev i).fin ≤ next

/-- The blocks before `next` are the same on both devices. -/
def SameBefore (count : Nat) (contents : σ → Nat → Nat → UInt8) (dev dev' : σ) (next : Nat) : Prop :=
  ∀ l < count, l < next → ∀ k < BLOCK_SIZE, contents dev' l k = contents dev l k

theorem readEntry_lt {a b : Nat → UInt8} (h : ∀ k < BLOCK_SIZE, a k = b k) {i : Nat}
    (hi : i < DIR_ENTRIES_PER_BLOCK) :
    readEntry a i = readEntry b i := by
  refine readEntry_congr fun k hk => h _ ?_
  unfold DIR_ENTRIES_PER_BLOCK BLOCK_SIZE DIR_ENTRY_SIZE at *
  omega

theorem ne_dirBlock {start q : Nat} (h : DATA_START_BLOCK ≤ start) : start + q ≠ DIR_BLOCK := by
  unfold DATA_START_BLOCK at h
  unfold DIR_BLOCK
  omega

/-- The file of a valid entry is still there when the blocks before `next` are. -/
theorem Intact.dataAt (h : Intact count contents dev files) (hends : EndsBefore contents dev next)
    (hsame : SameBefore count contents dev dev' next) {i : Nat} (hi : i < DIR_ENTRIES_PER_BLOCK)
    (hv : (entryAt contents dev i).isValid) :
    ∃ data, files (entryAt contents dev i).nameStr = some data ∧ (entryAt contents dev i).size.toNat = data.length ∧
      DataAt count contents dev' (entryAt contents dev i).startBlock.toNat data := by
  obtain ⟨data, hfile, hsize, hdata⟩ := h.file i hi hv
  refine ⟨data, hfile, hsize, hdata.congr fun p hp k hk => hsame _ (hdata p hp).1 ?_ k hk⟩
  have := DirEntry.lt_fin (show p < (entryAt contents dev i).size.toNat by omega)
  have := hends i hi hv
  omega

theorem Intact.keep (hcount : 0 < count) (h : Intact count contents dev files)
    (hends : EndsBefore contents dev next)
    (hnext : DIR_BLOCK < next) (hsame : SameBefore count contents dev dev' next) :
    Intact count contents dev' files := by
  have hentry : ∀ i < DIR_ENTRIES_PER_BLOCK, entryAt contents dev' i = entryAt contents dev i :=
    fun i hi => readEntry_lt (hsame DIR_BLOCK hcount hnext) hi
  constructor
  · intro i hi hv
    rw [hentry i hi] at hv ⊢
    exact h.behind i hi hv
  · intro i hi hv
    rw [hentry i hi] at hv ⊢
    exact h.fits i hi hv
  · intro i hi j hj hne hvi hvj
    rw [hentry i hi] at hvi ⊢
    rw [hentry j hj] at hvj ⊢
    exact h.disjoint i hi j hj hne hvi hvj
  · intro i hi j hj hvi hvj hname
    rw [hentry i hi] at hvi hname
    rw [hentry j hj] at hvj hname
    exact h.unique i hi j hj hvi hvj hname
  · intro i hi hv
    rw [hentry i hi] at hv ⊢
    exact h.dataAt hends hsame hi hv
  · intro name data hfile
    obtain ⟨i, hi, hv, hname⟩ := h.listed name data hfile
    exact ⟨i, hi, by rw [hentry i hi]; exact hv, by rw [hentry i hi]; exact hname⟩

/-- Entry `idx` takes a new file that lies behind all others. -/
theorem Intact.put {idx : Nat} {e : DirEntry} {name data : List UInt8} (h : Intact count contents dev files)
    (hends : EndsBefore contents dev next) (hnext : DATA_START_BLOCK ≤ next)
    (hsame : ∀ l < count, l ≠ DIR_BLOCK → l < next →
      ∀ k < BLOCK_SIZE, contents dev' l k = contents dev l k)
    (hidx : idx < DIR_ENTRIES_PER_BLOCK)
    (hentry : ∀ i < DIR_ENTRIES_PER_BLOCK, entryAt contents dev' i = if i = idx then e else entryAt contents dev i)
    (hown : (entryAt contents dev idx).isValid → (entryAt contents dev idx).nameStr = name)
    (hother : ∀ i < DIR_ENTRIES_PER_BLOCK, i ≠ idx → (entryAt contents dev i).isValid →
      (entryAt contents dev i).nameStr ≠ name)
    (hname : e.nameStr = name) (hstart : e.startBlock.toNat = next) (hsize : e.size.toNat = data.length)
    (hfit : e.fin < 2 ^ 32) (hvalid : e.isValid) (hdata : DataAt count contents dev' next data) :
    Intact count contents dev' fun n => if n = name then some data else files n := by
  have hself : entryAt contents dev' idx = e := by rw [hentry idx hidx, if_pos rfl]
  have hrest : ∀ i < DIR_ENTRIES_PER_BLOCK, i ≠ idx → entryAt contents dev' i = entryAt contents dev i :=
    fun i hi hne => by rw [hentry i hi, if_neg hne]
  constructor
  · intro i hi hv
    by_cases hne : i = idx
    · subst hne
      rw [hself, hstart]
      exact hnext
    · rw [hrest i hi hne] at hv ⊢
      exact h.behind i hi hv
  · intro i hi hv
    by_cases hne : i = idx
    · subst hne
      rw [hself]
      exact hfit
    · rw [hrest i hi hne] at hv ⊢
      exact h.fits i hi hv
  · intro i hi j hj hne hvi hvj
    by_cases hii : i = idx
    · subst hii
      rw [hself, hrest j hj (Ne.symm hne)] at *
      exact .inr (by rw [hstart]; exact hends j hj hvj)
    · by_cases hjj : j = idx
      · subst hjj
        rw [hself, hrest i hi hii] at *
        exact .inl (by rw [hstart]; exact hends i hi hvi)
      · rw [hrest i hi hii] at hvi ⊢
        rw [hrest j hj hjj] at hvj ⊢
        exact h.disjoint i hi j hj hne hvi hvj
  · intro i hi j hj hvi hvj heq
    by_cases hii : i = idx
    · by_cases hjj : j = idx
      · rw [hii, hjj]
      · subst hii
        rw [hself, hrest j hj hjj] at heq
        rw [hrest j hj hjj] at hvj
        exact absurd (heq.symm.trans hname) (hother j hj hjj hvj)
    · rw [hrest i hi hii] at hvi heq
      by_cases hjj : j = idx
      · subst hjj
        rw [hself] at heq
        exact absurd (heq.trans hname) (hother i hi hii hvi)
      · rw [hrest j hj hjj] at hvj heq
        exact h.unique i hi j hj hvi hvj heq
  · intro i hi hv
    by_cases hne : i = idx
    · subst hne
      rw [hself]
      exact ⟨data, by rw [if_pos hname], hsize, by rw [hstart]; exact hdata⟩
    · rw [hrest i hi hne] at hv ⊢
      obtain ⟨d, hfile, hs, hd⟩ := h.file i hi hv
      refine ⟨d, by rw [if_neg (hother i hi hne hv)]; exact hfile, hs, hd.congr fun p hp k hk => ?_⟩
      have hlt := DirEntry.lt_fin (show p < (entryAt contents dev i).size.toNat by omega)
      have he := hends i hi hv
      exact hsame _ (hd p hp).1 (ne_dirBlock (h.behind i hi hv)) (by omega) k hk
  · intro n d hfile
    by_cases hn : n = name
    · exact ⟨idx, hidx, by rw [hself]; exact hvalid, by rw [hself, hname, hn]⟩
    · rw [if_neg hn] at hfile
      obtain ⟨i, hi, hv, hin⟩ := h.listed n d hfile
      have hne : i ≠ idx := by
        rintro rfl
        exact hn (hin.symm.trans (hown hv))
      exact ⟨i, hi, by rw [hrest i hi hne]; exact hv, by rw [hrest i hi hne]; exact hin⟩

/-- Entry `idx` is emptied. -/
theorem Intact.drop {idx : Nat} {e : DirEntry} {name : List UInt8} (h : Intact count contents dev files)
    (hsame : ∀ l < count, l ≠ DIR_BLOCK → ∀ k < BLOCK_SIZE, contents dev' l k = contents dev l k)
    (hentry : ∀ i < DIR_ENTRIES_PER_BLOCK, entryAt contents dev' i = if i = idx then e else entryAt contents dev i)
    (hidx : idx < DIR_ENTRIES_PER_BLOCK) (hown : (entryAt contents dev idx).isValid)
    (hname : (entryAt contents dev idx).nameStr = name) (hblank : e.isValid = false) :
    Intact count contents dev' fun n => if n = name then none else files n := by
  have hrest : ∀ i < DIR_ENTRIES_PER_BLOCK, (entryAt contents dev' i).isValid →
      i ≠ idx ∧ entryAt contents dev' i = entryAt contents dev i := by
    intro i hi hv
    rw [hentry i hi] at hv ⊢
    by_cases hne : i = idx
    · rw [if_pos hne, hblank] at hv
      cases hv
    · exact ⟨hne, if_neg hne⟩
  constructor
  · intro i hi hv
    obtain ⟨-, heq⟩ := hrest i hi hv
    rw [heq] at hv ⊢
    exact h.behind i hi hv
  · intro i hi hv
    obtain ⟨-, heq⟩ := hrest i hi hv
    rw [heq] at hv ⊢
    exact h.fits i hi hv
  · intro i hi j hj hne hvi hvj
    obtain ⟨-, hei⟩ := hrest i hi hvi
    obtain ⟨-, hej⟩ := hrest j hj hvj
    rw [hei] at hvi ⊢
    rw [hej] at hvj ⊢
    exact h.disjoint i hi j hj hne hvi hvj
  · intro i hi j hj hvi hvj heq
    obtain ⟨-, hei⟩ := hrest i hi hvi
    obtain ⟨-, hej⟩ := hrest j hj hvj
    rw [hei] at hvi heq
    rw [hej] at hvj heq
    exact h.unique i hi j hj hvi hvj heq
  · intro i hi hv
    obtain ⟨hne, heq⟩ := hrest i hi hv
    rw [heq] at hv ⊢
    obtain ⟨d, hfile, hs, hd⟩ := h.file i hi hv
    have hn : (entryAt contents dev i).nameStr ≠ name := by
      intro hn
      exact hne (h.unique i hi idx hidx hv hown (hn.trans hname.symm))
    refine ⟨d, by rw [if_neg hn]; exact hfile, hs, hd.congr fun p hp k hk => ?_⟩
    exact hsame _ (hd p hp).1 (ne_dirBlock (h.behind i hi hv)) k hk
  · intro n d hfile
    by_cases hn : n = name
    · rw [if_pos hn] at hfile
      cases hfile
    · rw [if_neg hn] at hfile
      obtain ⟨i, hi, hv, hin⟩ := h.listed n d hfile
      have hne : i ≠ idx := by
        rintro rfl
        exact hn (hin.symm.trans hname)
      have heq : entryAt contents dev' i = entryAt contents dev i := by rw [hentry i hi, if_neg hne]
      exact ⟨i, hi, by rw [heq]; exact hv, by rw [heq]; exact hin⟩

end

/-! ## Operations -/

variable {fs : WasmFs σ} {files : List UInt8 → Option (List UInt8)} (hD : Fallible D count contents)

theorem lookup_some {dir : Nat → UInt8} {name : List UInt8} {i : Nat} (h : lookup dir name = some i) :
    i < DIR_ENTRIES_PER_BLOCK ∧ (readEntry dir i).isValid ∧ (readEntry dir i).nameStr = name := by
  have hmem := List.mem_of_find?_eq_some h
  have hp := List.find?_some h
  simp only [Bool.and_eq_true, beq_iff_eq] at hp
  exact ⟨List.mem_range.mp hmem, hp⟩

theorem lookup_none {dir : Nat → UInt8} {name : List UInt8} (h : lookup dir name = none) {i : Nat}
    (hi : i < DIR_ENTRIES_PER_BLOCK) (hv : (readEntry dir i).isValid) : (readEntry dir i).nameStr ≠ name := by
  have := List.find?_eq_none.mp h i (List.mem_range.mpr hi)
  simpa [hv] using this

theorem lookup_zeros (name : List UInt8) : lookup (fun _ => 0) name = none := by
  have hno : ∀ i, (readEntry (fun _ => 0) i).isValid = false := by
    intro i
    show ((0 : UInt8) &&& FLAG_VALID != 0) = false
    decide
  unfold lookup
  rw [List.find?_eq_none]
  intro i _
  simp [hno]

theorem findSlot_some {dir : Nat → UInt8} {name : List UInt8} {idx : Nat} (h : findSlot dir name = some idx) :
    lookup dir name = some idx ∨
      (lookup dir name = none ∧ idx < DIR_ENTRIES_PER_BLOCK ∧ (readEntry dir idx).isValid = false) := by
  unfold findSlot at h
  cases hl : lookup dir name with
  | some i =>
    rw [hl] at h
    exact .inl h
  | none =>
    rw [hl, Option.none_or] at h
    have hp := List.find?_some h
    exact .inr ⟨rfl, List.mem_range.mp (List.mem_of_find?_eq_some h), by simpa using hp⟩

theorem entryAt_of_dir {dev : σ} {dir : Nat → UInt8}
    (hdir : ∀ k < BLOCK_SIZE, dir k = contents dev DIR_BLOCK k) {i : Nat}
    (hi : i < DIR_ENTRIES_PER_BLOCK) : readEntry dir i = entryAt contents dev i := readEntry_lt hdir hi

/-- Entry by entry, the directory after `write_entry` is written back. -/
theorem entryAt_written {dev dev' : σ} {dir : Nat → UInt8} {idx : Nat} {e : DirEntry} (hcount : 0 < count)
    (hdir : ∀ k < BLOCK_SIZE, dir k = contents dev DIR_BLOCK k)
    (hcont : ∀ l < count, ∀ k < BLOCK_SIZE, contents dev' l k = if l = DIR_BLOCK then writeEntry dir idx e k
      else contents dev l k)
    {i : Nat} (hi : i < DIR_ENTRIES_PER_BLOCK) :
    entryAt contents dev' i = if i = idx then e else entryAt contents dev i := by
  have hnew : entryAt contents dev' i = readEntry (writeEntry dir idx e) i :=
    readEntry_lt (fun k hk => by rw [hcont DIR_BLOCK hcount k hk, if_pos rfl]) hi
  rw [hnew]
  by_cases hne : i = idx
  · rw [hne, readEntry_writeEntry_self, if_pos rfl]
  · rw [readEntry_writeEntry_of_ne hne, if_neg hne, entryAt_of_dir hdir hi]

theorem SameBlocks.before {dev dev' : σ} (h : SameBlocks count contents dev dev') (next : Nat) :
    SameBefore count contents dev dev' next := fun l hl _ k hk => h l hl k hk

/-- The block a write starts at: the first behind the directory, or the one behind some file. -/
def FreeFrom (contents : σ → Nat → Nat → UInt8) (dev : σ) (next : Nat) : Prop :=
  next = DATA_START_BLOCK ∨ ∃ i < DIR_ENTRIES_PER_BLOCK, (entryAt contents dev i).isValid ∧
    (entryAt contents dev i).fin = next

include hD in
theorem nextFreeBlock_ok {dev : σ} (h : Intact count contents dev files)
    (hreads : ∃ d, D.readBlock dev DIR_BLOCK = .ok d) : ∃ dev' next, nextFreeBlock D dev = .ok (dev', next) ∧
    SameBlocks count contents dev dev' ∧ DATA_START_BLOCK ≤ next ∧ EndsBefore contents dev next ∧
    FreeFrom contents dev next := by
  obtain ⟨dev', dir, hread, _, hdir, hsame⟩ := readDirBlock_ok hD hreads
  have hfit : ∀ i ∈ List.range DIR_ENTRIES_PER_BLOCK, (readEntry dir i).isValid →
      (readEntry dir i).startBlock.toNat + (readEntry dir i).blocks < 2 ^ 32 := by
    intro i hi hv
    have hi := List.mem_range.mp hi
    rw [entryAt_of_dir hdir hi] at hv ⊢
    exact h.fits i hi hv
  obtain ⟨next, hnext, hge, hall, hlast⟩ := nextFree_ok dir _ DATA_START_BLOCK hfit
  refine ⟨dev', next, by simp [nextFreeBlock, hread, hnext], hsame, hge, fun i hi hv => ?_, ?_⟩
  · have hle := hall i (List.mem_range.mpr hi)
    rw [entryAt_of_dir hdir hi] at hle
    exact hle hv
  · obtain hm | ⟨i, hi, hv, hm⟩ := hlast
    · exact .inl hm
    · have hi := List.mem_range.mp hi
      rw [entryAt_of_dir hdir hi] at hv hm
      exact .inr ⟨i, hi, hv, hm⟩

theorem Intact.same {dev dev' : σ} (hcount : 0 < count) (h : Intact count contents dev files)
    (hsame : SameBlocks count contents dev dev') : Intact count contents dev' files :=
  h.keep hcount (fun i hi hv => Nat.le_of_lt (h.fits i hi hv)) (by decide) (hsame.before (2 ^ 32))

/-- The entry a write goes to is the file's own or a free one, and no other has its name. -/
theorem findSlot_free {dev : σ} {dir : Nat → UInt8} {name : List UInt8} {idx : Nat}
    (h : Intact count contents dev files)
    (hdir : ∀ k < BLOCK_SIZE, dir k = contents dev DIR_BLOCK k) (hslot : findSlot dir name = some idx) :
    idx < DIR_ENTRIES_PER_BLOCK ∧ ((entryAt contents dev idx).isValid → (entryAt contents dev idx).nameStr = name) ∧
      ∀ i < DIR_ENTRIES_PER_BLOCK, i ≠ idx → (entryAt contents dev i).isValid →
      (entryAt contents dev i).nameStr ≠ name := by
  obtain hl | ⟨hl, hidx, hv⟩ := findSlot_some hslot
  · obtain ⟨hidx, hv, hname⟩ := lookup_some hl
    rw [entryAt_of_dir hdir hidx] at hv hname
    refine ⟨hidx, fun _ => hname, fun i hi hne hvi heq => ?_⟩
    exact hne (h.unique i hi idx hidx hvi hv (heq.trans hname.symm))
  · rw [entryAt_of_dir hdir hidx] at hv
    refine ⟨hidx, fun hv' => ?_, fun i hi _ hvi => ?_⟩
    · rw [hv] at hv'
      cases hv'
    · rw [← entryAt_of_dir hdir hi] at hvi ⊢
      exact lookup_none hl hi hvi

/-- The blocks a file of `n` bytes takes. -/
def fileBlocks (n : Nat) : Nat := max ((n + BLOCK_SIZE - 1) / BLOCK_SIZE) 1

/-- `files` with another entry for `name`. -/
def setFile (files : List UInt8 → Option (List UInt8)) (name : List UInt8) (data : Option (List UInt8)) :
    List UInt8 → Option (List UInt8) := fun n => if n = name then data else files n

/-- Every access to the directory that a write makes succeeds. -/
def WriteReaches (D : BlockDevice σ) (dev : σ) (name data : List UInt8) : Prop :=
  (∃ d, D.readBlock dev DIR_BLOCK = .ok d) ∧
  ∀ dev₁ dir idx, readDirBlock D dev = .ok (dev₁, dir) → findSlot dir name = some idx →
    (∃ d, D.readBlock dev₁ DIR_BLOCK = .ok d) ∧
    ∀ dev₂ next dev₃, nextFreeBlock D dev₁ = .ok (dev₂, next) → writeData D dev₂ next data = .ok (dev₃, true) →
      ∃ d, D.writeBlock dev₃ DIR_BLOCK
      (writeEntry dir idx (.fresh name (UInt32.ofNat next) (UInt32.ofNat data.length))) = .ok d

/-- The write of the directory that a deletion makes succeeds. -/
def UnlinkReaches (D : BlockDevice σ) (dev : σ) (name : List UInt8) : Prop :=
  ∀ dev₁ dir i, readDirBlock D dev = .ok (dev₁, dir) → lookup dir name = some i →
    ∃ d, D.writeBlock dev₁ DIR_BLOCK (writeEntry dir i .blank) = .ok d

include hD in
theorem fsWrite_ok (h : Intact count contents fs.dev files) {name data : List UInt8} (hname : FsName name)
    (hlen : data.length < 2 ^ 32) (hfit : ∀ next, FreeFrom contents fs.dev next →
      next + fileBlocks data.length < 2 ^ 32)
    (hreach : WriteReaches D fs.dev name data) :
    ∃ fs' ok, fs.fsWrite D name data = .ok (fs', ok) ∧
      Intact count contents fs'.dev (if ok then setFile files name (some data) else files) := by
  obtain ⟨hreads, hreach⟩ := hreach
  obtain ⟨dev₁, dir, hread, _, hdir, hsame₁⟩ := readDirBlock_ok hD hreads
  have h₁ := h.same hD.pos hsame₁
  unfold fsWrite
  rw [hread, bind_ok]
  dsimp only
  cases hslot : findSlot dir name with
  | none => exact ⟨_, false, rfl, h₁⟩
  | some idx =>
    have hdir₁ : ∀ k < BLOCK_SIZE, dir k = contents dev₁ DIR_BLOCK k :=
      fun k hk => (hdir k hk).trans (hsame₁ DIR_BLOCK hD.pos k hk).symm
    obtain ⟨hidx, hown, hother⟩ := findSlot_free h₁ hdir₁ hslot
    obtain ⟨hreads, hreach⟩ := hreach dev₁ dir idx hread hslot
    obtain ⟨dev₂, next, hnext, hsame₂, hge, hends, hfrom⟩ := nextFreeBlock_ok hD h₁ hreads
    have hentry : ∀ i < DIR_ENTRIES_PER_BLOCK, entryAt contents dev₁ i = entryAt contents fs.dev i :=
      fun i hi => readEntry_lt (hsame₁ DIR_BLOCK hD.pos) hi
    have hroom : next + fileBlocks data.length < 2 ^ 32 := by
      refine hfit next ?_
      obtain rfl | ⟨i, hi, hv, hfin⟩ := hfrom
      · exact .inl rfl
      · rw [hentry i hi] at hv hfin
        exact .inr ⟨i, hi, hv, hfin⟩
    have hblocks : next + (data.length + BLOCK_SIZE - 1) / BLOCK_SIZE < 2 ^ 32 := by
      unfold fileBlocks at hroom
      omega
    obtain ⟨dev₃, ok, hwrite, hkeep, hdata⟩ := writeData_ok hD data.length data dev₂ next rfl hblocks
    have hbefore : SameBefore count contents dev₁ dev₃ next :=
      fun l hl hlt k hk => (hkeep l hl hlt k hk).trans (hsame₂ l hl k hk)
    have hpos : DIR_BLOCK < next := hge
    dsimp only
    rw [hnext, bind_ok]
    dsimp only
    rw [hwrite, bind_ok]
    cases ok with
    | false => exact ⟨_, false, rfl, h₁.keep hD.pos hends hpos hbefore⟩
    | true =>
      have hdir₃ : ∀ k < BLOCK_SIZE, dir k = contents dev₃ DIR_BLOCK k :=
        fun k hk => (hdir₁ k hk).trans (hbefore DIR_BLOCK hD.pos hpos k hk).symm
      obtain ⟨dev₄, hlast, hcont⟩ := writeDirBlock_ok hD (hreach dev₂ next dev₃ hnext hwrite)
      simp only [if_true, hlast, bind_ok]
      refine ⟨_, true, rfl, ?_⟩
      have hstart : (UInt32.ofNat next).toNat = next := by
        rw [UInt32.toNat_ofNat', Nat.mod_eq_of_lt (by omega)]
      have hsize : (UInt32.ofNat data.length).toNat = data.length := by
        rw [UInt32.toNat_ofNat', Nat.mod_eq_of_lt hlen]
      have hsame : ∀ l < count, l ≠ DIR_BLOCK → ∀ k < BLOCK_SIZE, contents dev₄ l k = contents dev₃ l k :=
        fun l hl hne k hk => by rw [hcont l hl k hk, if_neg hne]
      refine h₁.put (e := .fresh name (UInt32.ofNat next) (UInt32.ofNat data.length)) hends hge
        (fun l hl hne hlt k hk => (hsame l hl hne k hk).trans (hbefore l hl hlt k hk)) hidx ?_ hown hother
        (fresh_nameStr hname _ _) hstart hsize ?_ (fresh_isValid ..) ?_
      · intro i hi
        rw [entryAt_written hD.pos hdir₃ hcont hi]
        by_cases hne : i = idx
        · rw [if_pos hne, if_pos hne]
        · rw [if_neg hne, if_neg hne]
          exact readEntry_lt (hbefore DIR_BLOCK hD.pos hpos) hi
      · rw [DirEntry.fin, DirEntry.blocks]
        unfold fileBlocks at hroom
        simp only [DirEntry.fresh, hstart, hsize]
        exact hroom
      · refine (hdata rfl).congr fun p hp k hk => hsame _ ((hdata rfl) p hp).1 ?_ k hk
        exact ne_dirBlock hge

include hD in
theorem fsUnlink_ok (h : Intact count contents fs.dev files) {name : List UInt8}
    (hreach : UnlinkReaches D fs.dev name) :
    ∃ fs' ok, fs.fsUnlink D name = .ok (fs', ok) ∧
      Intact count contents fs'.dev (if ok then setFile files name none else files) := by
  obtain ⟨dev₁, dir, hread, hsame₁, hdir⟩ := readDirBlock_cases hD fs.dev
  have h₁ := h.same hD.pos hsame₁
  unfold fsUnlink
  rw [hread, bind_ok]
  dsimp only
  cases hl : lookup dir name with
  | none => exact ⟨_, false, rfl, h₁⟩
  | some idx =>
    have hdir : ∀ k < BLOCK_SIZE, dir k = contents fs.dev DIR_BLOCK k := by
      obtain hdir | rfl := hdir
      · exact hdir
      · rw [lookup_zeros] at hl
        cases hl
    have hdir₁ : ∀ k < BLOCK_SIZE, dir k = contents dev₁ DIR_BLOCK k :=
      fun k hk => (hdir k hk).trans (hsame₁ DIR_BLOCK hD.pos k hk).symm
    obtain ⟨hidx, hv, hname⟩ := lookup_some hl
    rw [entryAt_of_dir hdir₁ hidx] at hv hname
    obtain ⟨dev₂, hlast, hcont⟩ := writeDirBlock_ok hD (hreach dev₁ dir idx hread hl)
    simp only [hlast, bind_ok]
    refine ⟨_, true, rfl, ?_⟩
    exact h₁.drop (fun l hl hne k hk => by rw [hcont l hl k hk, if_neg hne])
      (fun i hi => entryAt_written hD.pos hdir₁ hcont hi) hidx hv hname blank_isValid

/-- Opened with any table that has a free descriptor, the file reads as `data`, in chunks of any sizes. -/
def Readable (D : BlockDevice σ) (dev : σ) (name data : List UInt8) : Prop :=
  ∀ opened : Nat → OpenFile, (∃ fd < MAX_OPEN_FILES, (opened fd).inUse = false) →
    ∃ fs fd, fsOpen D ⟨dev, opened⟩ name = .ok (fs, some fd) ∧
      ∀ chunks, ∃ fs', readChunks D fs fd chunks = .ok (fs', data.take (chunkSum chunks))

theorem Intact.readable (hD : Finite D count contents) {dev : σ} (h : Intact count contents dev files)
    {name data : List UInt8} (hfile : files name = some data) :
    Readable D dev name data := by
  rintro opened ⟨free, hfree, hunused⟩
  obtain ⟨dev₁, dir, hread, _, hdir, hsame⟩ := readDirBlock_ok hD.fallible (hD.readsDir dev)
  obtain ⟨i, hi, hv, hname⟩ := h.listed name data hfile
  unfold fsOpen
  rw [hread, bind_ok]
  dsimp only
  cases hl : lookup dir name with
  | none =>
    rw [← entryAt_of_dir hdir hi] at hv hname
    exact absurd hname (lookup_none hl hi hv)
  | some j =>
    obtain ⟨hj, hvj, hnamej⟩ := lookup_some hl
    rw [entryAt_of_dir hdir hj] at hvj hnamej
    cases hfd : (List.range MAX_OPEN_FILES).find? fun fd => !(opened fd).inUse with
    | none =>
      have := List.find?_eq_none.mp hfd free (List.mem_range.mpr hfree)
      simp [hunused] at this
    | some fd =>
      have hlt : fd < MAX_OPEN_FILES := List.mem_range.mp (List.mem_of_find?_eq_some hfd)
      refine ⟨_, fd, rfl, fun chunks => ?_⟩
      obtain ⟨data', hfile', hsize, hdata⟩ := h.file j hj hvj
      rw [hnamej, hfile] at hfile'
      obtain rfl : data = data' := Option.some.inj hfile'
      have hfit := h.fits j hj hvj
      rw [DirEntry.fin, DirEntry.blocks, hsize] at hfit
      have hlen : data.length < 2 ^ 32 := hsize ▸ (entryAt contents dev j).size.toNat_lt
      have hchunks := readChunks_ok hD hlt hlen chunks
        ⟨dev₁, upd opened fd ⟨(readEntry dir j).startBlock.toNat, (readEntry dir j).size.toNat, 0, true⟩⟩
      simp only [upd_self, entryAt_of_dir hdir hj, List.drop_zero] at hchunks
      simp only [entryAt_of_dir hdir hj]
      refine hchunks trivial hsize (Nat.zero_le _) ?_ (by omega)
      exact hdata.congr fun p hp k hk => hsame _ (hdata p hp).1 k hk

/-! ## Runs -/

inductive FsOp where
  | write (name data : List UInt8)
  | unlink (name : List UInt8)

/-- The file system and, beside it, the data of each file's last successful write. -/
structure FsState (σ : Type) where
  fs : WasmFs σ
  files : List UInt8 → Option (List UInt8)

def FsState.step (D : BlockDevice σ) (s : FsState σ) : FsOp → Rust Unit (FsState σ)
  | .write name data => do
    let (fs, ok) ← s.fs.fsWrite D name data
    .ok ⟨fs, if ok then setFile s.files name (some data) else s.files⟩
  | .unlink name => do
    let (fs, ok) ← s.fs.fsUnlink D name
    .ok ⟨fs, if ok then setFile s.files name none else s.files⟩

/-- The names and sizes an operation may have, and that the block numbers of a new file fit in 32 bits. -/
def FsOp.Fits (contents : σ → Nat → Nat → UInt8) (s : FsState σ) : FsOp → Prop
  | .write name data => FsName name ∧ data.length < 2 ^ 32 ∧
    ∀ next, FreeFrom contents s.fs.dev next → next + fileBlocks data.length < 2 ^ 32
  | .unlink name => FsName name

/-- Every access to the directory in a write, and every write of it in a deletion, succeeds. -/
def FsOp.Reaches (D : BlockDevice σ) (s : FsState σ) : FsOp → Prop
  | .write name data => WriteReaches D s.fs.dev name data
  | .unlink name => UnlinkReaches D s.fs.dev name

theorem Finite.reaches (hD : Finite D count contents) (s : FsState σ) (op : FsOp) : op.Reaches D s := by
  cases op with
  | write name data =>
    exact ⟨hD.readsDir _, fun dev₁ _ _ _ _ => ⟨hD.readsDir dev₁, fun _ _ _ _ _ => hD.writesDir _ _⟩⟩
  | unlink name => exact fun _ _ _ _ _ => hD.writesDir _ _

include hD in
theorem FsState.step_intact {s : FsState σ} {op : FsOp} (h : Intact count contents s.fs.dev s.files)
    (hop : op.Fits contents s) (hreach : op.Reaches D s) :
    ∃ s', s.step D op = .ok s' ∧ Intact count contents s'.fs.dev s'.files := by
  cases op with
  | write name data =>
    obtain ⟨hname, hlen, hfit⟩ := hop
    obtain ⟨fs', ok, hwrite, h'⟩ := fsWrite_ok hD h hname hlen hfit hreach
    exact ⟨_, by rw [FsState.step, hwrite, bind_ok], h'⟩
  | unlink name =>
    obtain ⟨fs', ok, hunlink, h'⟩ := fsUnlink_ok hD h hreach
    exact ⟨_, by rw [FsState.step, hunlink, bind_ok], h'⟩

theorem intact_empty {dev : σ} (hempty : ∀ i < DIR_ENTRIES_PER_BLOCK, (entryAt contents dev i).isValid = false) :
    Intact count contents dev fun _ => none := by
  have hno : ∀ i < DIR_ENTRIES_PER_BLOCK, ¬ (entryAt contents dev i).isValid := by
    intro i hi
    rw [hempty i hi]
    exact Bool.false_ne_true
  constructor
  · exact fun i hi hv => absurd hv (hno i hi)
  · exact fun i hi hv => absurd hv (hno i hi)
  · exact fun i hi _ _ _ hv _ => absurd hv (hno i hi)
  · exact fun i hi _ _ hv _ _ => absurd hv (hno i hi)
  · exact fun i hi hv => absurd hv (hno i hi)
  · exact fun _ _ hfile => (by cases hfile)

end

/-- From an empty directory, any run of writes and deletions goes through; after it the extents of the
files are disjoint and behind the directory, names are unique, the names in the directory are those of
the files last written with success, and each of them reads back as it was written then. -/
theorem wasmFs_integrity {σ : Type} {D : BlockDevice σ} {count : Nat} {contents : σ → Nat → Nat → UInt8}
    (hD : Finite D count contents) {dev : σ}
    (hempty : ∀ i < DIR_ENTRIES_PER_BLOCK, (entryAt contents dev i).isValid = false) {ops : List FsOp}
    (hops : Guarded (FsState.step D) (fun s op => op.Fits contents s) ⟨.new dev, fun _ => none⟩ ops) :
    ∃ s, runAll (FsState.step D) ⟨.new dev, fun _ => none⟩ ops = .ok s ∧
      (∀ i < DIR_ENTRIES_PER_BLOCK, ∀ j < DIR_ENTRIES_PER_BLOCK, i ≠ j → (entryAt contents s.fs.dev i).isValid →
        (entryAt contents s.fs.dev j).isValid →
        (entryAt contents s.fs.dev i).nameStr ≠ (entryAt contents s.fs.dev j).nameStr ∧
        ((entryAt contents s.fs.dev i).fin ≤ (entryAt contents s.fs.dev j).startBlock.toNat ∨
          (entryAt contents s.fs.dev j).fin ≤ (entryAt contents s.fs.dev i).startBlock.toNat)) ∧
      (∀ i < DIR_ENTRIES_PER_BLOCK, (entryAt contents s.fs.dev i).isValid →
        DIR_BLOCK < (entryAt contents s.fs.dev i).startBlock.toNat) ∧
      (∀ name, (∃ data, s.files name = some data) ↔
        ∃ i < DIR_ENTRIES_PER_BLOCK, (entryAt contents s.fs.dev i).isValid ∧
        (entryAt contents s.fs.dev i).nameStr = name) ∧
      ∀ name data, s.files name = some data → Readable D s.fs.dev name data := by
  obtain ⟨s, hrun, h⟩ := runAll_of_guarded (P := fun s : FsState σ => Intact count contents s.fs.dev s.files)
    (fun s op hs hop => FsState.step_intact hD.fallible hs hop (hD.reaches s op)) (intact_empty hempty) hops
  refine ⟨s, hrun, fun i hi j hj hne hvi hvj => ⟨fun heq => ?_, h.disjoint i hi j hj hne hvi hvj⟩, h.behind,
    fun name => ?_,
    fun name data hfile => Intact.readable hD h hfile⟩
  · exact hne (h.unique i hi j hj hvi hvj heq)
  · constructor
    · rintro ⟨data, hfile⟩
      exact h.listed name data hfile
    · rintro ⟨i, hi, hv, rfl⟩
      obtain ⟨data, hfile, -, -⟩ := h.file i hi hv
      exact ⟨data, hfile⟩

/-! ## On the ramdisk -/

theorem ramdisk_finite : Finite ramdisk RAMDISK_BLOCKS fun data l k => data (BLOCK_SIZE * l + k) where
  behaves := ramdisk_behaves
  beyond _ _ _ h := if_pos h
  pos := by decide

theorem ramdisk_writeData {data : List UInt8} (hpos : 0 < data.length) (hlen : data.length ≤ BLOCK_SIZE)
    (dev : Nat → UInt8) {lba : Nat} (hlba : lba < RAMDISK_BLOCKS) :
    writeData ramdisk dev lba data =
    .ok (blit dev (BLOCK_SIZE * lba) (slice (padded data) 0 BLOCK_SIZE), true) := by
  have hmin : min data.length BLOCK_SIZE = data.length := by omega
  have hnext : (u32Add lba 1 : Rust Unit Nat) = .ok (lba + 1) := by
    refine u32Add_of_lt ?_
    unfold RAMDISK_BLOCKS at hlba
    omega
  have hwrite : tryWrite ramdisk dev lba (padded data) =
      .ok (blit dev (BLOCK_SIZE * lba) (slice (padded data) 0 BLOCK_SIZE), true) := by
    have hnot : ¬ RAMDISK_BLOCKS ≤ lba := by omega
    simp [tryWrite, ramdisk, hnot, attempt, Except.map]
  rw [writeData, if_neg (by omega)]
  dsimp only
  rw [hmin, List.take_length, hwrite, bind_ok]
  simp only [if_true]
  rw [hnext, bind_ok, List.drop_length, writeData]
  rfl

/-- A small file on the ramdisk, at `start` and in entry `idx`. -/
def ramdiskWrite (dev : Nat → UInt8) (idx start : Nat) (name data : List UInt8) : Nat → UInt8 :=
  blit (blit dev (BLOCK_SIZE * start) (slice (padded data) 0 BLOCK_SIZE)) (BLOCK_SIZE * DIR_BLOCK)
    (slice (writeEntry (fun k => dev (BLOCK_SIZE * DIR_BLOCK + k)) idx
      (.fresh name (UInt32.ofNat start) (UInt32.ofNat data.length))) 0 BLOCK_SIZE)

theorem ramdisk_step (dev : Nat → UInt8) {name data : List UInt8} {idx start : Nat} (hpos : 0 < data.length)
    (hlen : data.length ≤ BLOCK_SIZE) (hslot : findSlot (fun k => dev (BLOCK_SIZE * DIR_BLOCK + k)) name = some idx)
    (hnext : nextFree (fun k => dev (BLOCK_SIZE * DIR_BLOCK + k)) (List.range DIR_ENTRIES_PER_BLOCK)
      DATA_START_BLOCK = .ok start)
    (hstart : start < RAMDISK_BLOCKS) (files : List UInt8 → Option (List UInt8)) :
    FsState.step ramdisk ⟨.new dev, files⟩ (.write name data) =
      .ok ⟨.new (ramdiskWrite dev idx start name data), setFile files name (some data)⟩ := by
  have hread : readDirBlock ramdisk dev = .ok (dev, fun k => dev (BLOCK_SIZE * DIR_BLOCK + k)) := rfl
  simp only [FsState.step, fsWrite, WasmFs.new, hread, bind_ok, hslot, nextFreeBlock, hnext,
    ramdisk_writeData hpos hlen _ hstart, if_true]
  rfl

/-- A file of one byte and then of two: the second write goes behind the first and is what is read. -/
theorem wasmFs_integrity_overwrite :
    ∃ s, runAll (FsState.step ramdisk) ⟨.new fun _ => 0, fun _ => none⟩ [.write [97] [7],
      .write [97] [8, 9]] = .ok s ∧
      Readable ramdisk s.fs.dev [97] [8, 9] := by
  have hname : FsName [97] := by unfold FsName; decide
  -- the disk after the first write stays folded
  obtain ⟨disk, hdisk⟩ : ∃ disk, disk = ramdiskWrite (fun _ => 0) 0 1 [97] [7] := ⟨_, rfl⟩
  have hfirst : FsState.step ramdisk ⟨.new fun _ => 0, fun _ => none⟩ (.write [97] [7]) =
      .ok ⟨.new disk, setFile (fun _ => none) [97] (some [7])⟩ := by
    rw [hdisk]
    exact ramdisk_step _ (by decide) (by decide) (by decide) (by decide) (by decide) _
  have hslot : findSlot (fun k => disk (BLOCK_SIZE * DIR_BLOCK + k)) [97] = some 0 := by
    rw [hdisk]
    decide +kernel
  have hnext : nextFree (fun k => disk (BLOCK_SIZE * DIR_BLOCK + k)) (List.range DIR_ENTRIES_PER_BLOCK)
      DATA_START_BLOCK = .ok 2 := by
    rw [hdisk]
    decide +kernel
  have hfin : ∀ i < DIR_ENTRIES_PER_BLOCK,
      (entryAt (fun (data : Nat → UInt8) l k => data (BLOCK_SIZE * l + k)) disk i).isValid →
      (entryAt (fun (data : Nat → UInt8) l k => data (BLOCK_SIZE * l + k)) disk i).fin ≤ 2 := by
    rw [hdisk]
    decide +kernel
  have hsecond := ramdisk_step disk (show 0 < [8, 9].length by decide) (by decide) hslot hnext (by decide)
    (setFile (fun _ => none) [97] (some [7]))
  have hops : Guarded (FsState.step ramdisk)
      (fun s op => op.Fits (fun (data : Nat → UInt8) l k => data (BLOCK_SIZE * l + k)) s)
      ⟨.new fun _ => 0, fun _ => none⟩ [.write [97] [7], .write [97] [8, 9]] := by
    refine ⟨⟨hname, by decide, ?_⟩, fun s hs => ⟨?_, fun _ _ => trivial⟩⟩
    · rintro next (rfl | ⟨i, hi, hv, -⟩)
      · decide
      · exact absurd hv (by revert i; decide)
    · rw [hfirst] at hs
      obtain rfl := Except.ok.inj hs
      refine ⟨hname, by decide, ?_⟩
      have hone : fileBlocks ([8, 9] : List UInt8).length = 1 := by decide
      rintro next (rfl | ⟨i, hi, hv, rfl⟩)
      · decide
      · have hle := hfin i hi hv
        rw [hone]
        exact Nat.lt_of_le_of_lt (Nat.add_le_add_right hle 1) (by decide)
  obtain ⟨s, hrun, -, -, -, hread⟩ := wasmFs_integrity ramdisk_finite (by decide) hops
  refine ⟨s, hrun, hread [97] [8, 9] ?_⟩
  simp only [runAll, hfirst, hsecond, bind_ok] at hrun
  obtain rfl := Except.ok.inj hrun
  rfl

end WasmOs.Fs
