import WasmOs.Block
import WasmOs.Loader
import WasmOs.Wire

/-!
# WasmFS

The flat file system of `fs/wasmfs.rs`: block 0 is a directory of eight entries, a file is a run of
blocks behind it. A write always goes behind the last block in use; the directory is rewritten last.
-/

namespace WasmOs.Fs

def DIR_ENTRY_SIZE : Nat := 64
def DIR_ENTRIES_PER_BLOCK : Nat := BLOCK_SIZE / DIR_ENTRY_SIZE
def DIR_BLOCK : Nat := 0
def DATA_START_BLOCK : Nat := 1
def MAX_OPEN_FILES : Nat := 4

def FLAG_VALID : UInt8 := 0x01

/-! ## Directory entries -/

structure DirEntry where
  name : List UInt8
  startBlock : UInt32
  size : UInt32
  flags : UInt8
  name_length : name.length = 32
  deriving DecidableEq

namespace DirEntry

def isValid (e : DirEntry) : Bool := e.flags &&& FLAG_VALID != 0

def nameStr (e : DirEntry) : List UInt8 :=
  let bytes := e.name.takeWhile (· ≠ 0)
  if validUtf8 bytes then bytes else []

def toBytes (e : DirEntry) : List UInt8 :=
  e.name ++ leBytes e.startBlock.toNat 4 ++ leBytes e.size.toNat 4 ++ [e.flags] ++ List.replicate 23 0

def blank : DirEntry := ⟨List.replicate 32 0, 0, 0, 0, List.length_replicate⟩

/-- A fresh entry; the name is cut at 32 bytes and padded with NUL. -/
def fresh (name : List UInt8) (startBlock size : UInt32) : DirEntry where
  name := name.take 32 ++ List.replicate (32 - (name.take 32).length) 0
  startBlock := startBlock
  size := size
  flags := FLAG_VALID
  name_length := by
    have := List.length_take_le 32 name
    rw [List.length_append, List.length_replicate]
    omega

def blocks (e : DirEntry) : Nat := max ((e.size.toNat + BLOCK_SIZE - 1) / BLOCK_SIZE) 1

end DirEntry

def readEntry (dir : Nat → UInt8) (idx : Nat) : DirEntry where
  name := slice dir (DIR_ENTRY_SIZE * idx) 32
  startBlock := UInt32.ofNat (leNat dir (DIR_ENTRY_SIZE * idx + 32) 4)
  size := UInt32.ofNat (leNat dir (DIR_ENTRY_SIZE * idx + 36) 4)
  flags := dir (DIR_ENTRY_SIZE * idx + 40)
  name_length := slice_length _ _ _

def writeEntry (dir : Nat → UInt8) (idx : Nat) (e : DirEntry) : Nat → UInt8 :=
  blit dir (DIR_ENTRY_SIZE * idx) e.toBytes

/-! ## The file system -/

structure OpenFile where
  startBlock : Nat
  size : Nat
  pos : Nat
  inUse : Bool
  deriving DecidableEq, Repr

structure WasmFs (σ : Type) where
  dev : σ
  opened : Nat → OpenFile

namespace WasmFs

section
variable {σ : Type} (D : BlockDevice σ)

def new (dev : σ) : WasmFs σ := ⟨dev, fun _ => ⟨0, 0, 0, false⟩⟩

/-- `Result::is_ok` of a device access: the state behind it, and whether it succeeded. -/
def attempt {α : Type} (dflt : α) : Rust σ (σ × α) → Rust Unit (σ × α × Bool)
  | .ok (s, a) => .ok (s, a, true)
  | .error (.err s) => .ok (s, dflt, false)
  | .error .panic => .error .panic
  | .error .hang => .error .hang

/-- A failed read leaves the zeros the buffer starts with. -/
def readDirBlock (dev : σ) : Rust Unit (σ × (Nat → UInt8)) := do
  let (dev, dir, _) ← attempt (fun _ => 0) (D.readBlock dev DIR_BLOCK)
  .ok (dev, dir)

def tryWrite (dev : σ) (lba : Nat) (blk : Nat → UInt8) : Rust Unit (σ × Bool) := do
  let (dev, _, ok) ← attempt () ((D.writeBlock dev lba blk).map fun s => (s, ()))
  .ok (dev, ok)

def writeDirBlock (dev : σ) (dir : Nat → UInt8) : Rust Unit σ := do
  let (dev, _) ← tryWrite D dev DIR_BLOCK dir
  .ok dev

/-- The loop of `next_free_block` over the entries `is`. -/
def nextFree (dir : Nat → UInt8) : List Nat → Nat → Rust Unit Nat
  | [], next => .ok next
  | i :: is, next =>
    let e := readEntry dir i
    if e.isValid then do
      let fin ← u32Add e.startBlock.toNat (e.blocks % 2 ^ 32)
      nextFree dir is (if fin > next then fin else next)
    else nextFree dir is next

def nextFreeBlock (dev : σ) : Rust Unit (σ × Nat) := do
  let (dev, dir) ← readDirBlock D dev
  let next ← nextFree dir (List.range DIR_ENTRIES_PER_BLOCK) DATA_START_BLOCK
  .ok (dev, next)

def lookup (dir : Nat → UInt8) (name : List UInt8) : Option Nat :=
  (List.range DIR_ENTRIES_PER_BLOCK).find? fun i => (readEntry dir i).isValid && (readEntry dir i).nameStr == name

/-- The entry a write goes to: the file's own, else the first that is not in use. -/
def findSlot (dir : Nat → UInt8) (name : List UInt8) : Option Nat :=
  (lookup dir name).or ((List.range DIR_ENTRIES_PER_BLOCK).find? fun i => !(readEntry dir i).isValid)

def fsOpen (fs : WasmFs σ) (name : List UInt8) : Rust Unit (WasmFs σ × Option Nat) := do
  let (dev, dir) ← readDirBlock D fs.dev
  let fs := { fs with dev := dev }
  match lookup dir name with
  | none => .ok (fs, none)
  | some i =>
    match (List.range MAX_OPEN_FILES).find? fun fd => !(fs.opened fd).inUse with
    | none => .ok (fs, none)
    | some fd =>
      let e := readEntry dir i
      let o : OpenFile := ⟨e.startBlock.toNat, e.size.toNat, 0, true⟩
      .ok ({ fs with opened := upd fs.opened fd o }, some fd)

/-- `while done < to_read`, with `n` bytes still to read; a block that cannot be read ends the loop. -/
def readLoop (dev : σ) (o : OpenFile) (n : Nat) : Rust Unit (σ × OpenFile × List UInt8) :=
  if n = 0 then .ok (dev, o, [])
  else do
    let lba ← u32Add o.startBlock (o.pos / BLOCK_SIZE % 2 ^ 32)
    let (dev, blk, ok) ← attempt (fun _ => 0) (D.readBlock dev lba)
    if ok then
      let avail := min (BLOCK_SIZE - o.pos % BLOCK_SIZE) n
      let pos ← u32Add o.pos avail
      let (dev, o', rest) ← readLoop dev { o with pos := pos } (n - avail)
      .ok (dev, o', slice blk (o.pos % BLOCK_SIZE) avail ++ rest)
    else .ok (dev, o, [])
termination_by n
decreasing_by
  have : o.pos % BLOCK_SIZE < BLOCK_SIZE := Nat.mod_lt _ (by decide)
  omega

/-- `fs_read` of `len` bytes into a buffer of `cap`, and what the buffer receives. -/
def fsRead (fs : WasmFs σ) (fd cap len : Nat) : Rust Unit (WasmFs σ × List UInt8) :=
  if MAX_OPEN_FILES ≤ fd ∨ !(fs.opened fd).inUse then .ok (fs, [])
  else
    let remaining := (fs.opened fd).size - (fs.opened fd).pos
    let toRead := min (min len remaining) cap
    if toRead = 0 then .ok (fs, [])
    else do
      let (dev, o, bytes) ← readLoop D fs.dev (fs.opened fd) toRead
      .ok ({ fs with dev := dev, opened := upd fs.opened fd o }, bytes)

/-- A block of file data, padded with zeros. -/
def padded (chunk : List UInt8) : Nat → UInt8 := blit (fun _ => 0) 0 chunk

/-- `while written < data.len()`; `false` when a block cannot be written. -/
def writeData (dev : σ) (lba : Nat) (data : List UInt8) : Rust Unit (σ × Bool) :=
  if data.length = 0 then .ok (dev, true)
  else do
    let chunk := min data.length BLOCK_SIZE
    let (dev, ok) ← tryWrite D dev lba (padded (data.take chunk))
    if ok then
      let lba ← u32Add lba 1
      writeData dev lba (data.drop chunk)
    else .ok (dev, false)
termination_by data.length
decreasing_by
  have : 0 < BLOCK_SIZE := by decide
  rw [List.length_drop]
  omega

/-- `fs_write`; `false` is `Err(())`. -/
def fsWrite (fs : WasmFs σ) (name data : List UInt8) : Rust Unit (WasmFs σ × Bool) := do
  let (dev, dir) ← readDirBlock D fs.dev
  match findSlot dir name with
  | none => .ok ({ fs with dev := dev }, false)
  | some idx =>
    let (dev, startBlock) ← nextFreeBlock D dev
    let (dev, ok) ← writeData D dev startBlock data
    if ok then
      let entry := DirEntry.fresh name (UInt32.ofNat startBlock) (UInt32.ofNat data.length)
      let dev ← writeDirBlock D dev (writeEntry dir idx entry)
      .ok ({ fs with dev := dev }, true)
    else .ok ({ fs with dev := dev }, false)

def fsUnlink (fs : WasmFs σ) (name : List UInt8) : Rust Unit (WasmFs σ × Bool) := do
  let (dev, dir) ← readDirBlock D fs.dev
  match lookup dir name with
  | none => .ok ({ fs with dev := dev }, false)
  | some i =>
    let dev ← writeDirBlock D dev (writeEntry dir i DirEntry.blank)
    .ok ({ fs with dev := dev }, true)

end

end WasmFs

end WasmOs.Fs
