import WasmOs.Block

/-!
# Byte access to a block device

`BlockIo` of `fs/fat.rs` reads and writes bytes through one cached block with a dirty flag. It refines a
plain array of bytes: what the cache holds for its block and the device for the others is the array.
-/

namespace WasmOs.Fs

structure BlockIo (σ : Type) where
  dev : σ
  pos : Nat
  buf : Nat → UInt8
  bufLba : Option Nat
  bufDirty : Bool

inductive SeekFrom where
  | start (n : Nat)
  | current (n : Int)
  | fromEnd (n : Int)
  deriving DecidableEq, Repr

/-- `n as i64` -/
def asI64 (n : Nat) : Int := if n % 2 ^ 64 < 2 ^ 63 then (n % 2 ^ 64 : Nat) else (n % 2 ^ 64 : Nat) - 2 ^ 64

/-- `a + b` on `i64`, with the overflow check. -/
def i64Add (a b : Int) : Rust Unit Int := if -2 ^ 63 ≤ a + b ∧ a + b < 2 ^ 63 then .ok (a + b) else .error .panic

namespace BlockIo

section
variable {σ : Type} (D : BlockDevice σ)

def new (dev : σ) : BlockIo σ := ⟨dev, 0, fun _ => 0, none, false⟩

def flushDirty (io : BlockIo σ) : Rust Unit (BlockIo σ) :=
  if io.bufDirty then
    match io.bufLba with
    | some lba => do
      let dev ← mapErr (fun _ => ()) (D.writeBlock io.dev lba io.buf)
      .ok { io with dev := dev, bufDirty := false }
    | none => .ok io
  else .ok io

def ensureBlock (io : BlockIo σ) (lba : Nat) : Rust Unit (BlockIo σ) :=
  if io.bufLba = some lba then .ok io
  else do
    let io ← io.flushDirty D
    let (dev, buf) ← mapErr (fun _ => ()) (D.readBlock io.dev lba)
    .ok { io with dev := dev, buf := buf, bufLba := some lba }

/-- The block of the current position, `(self.pos / BLOCK_SIZE as u64) as u32`. -/
def lba (io : BlockIo σ) : Nat := io.pos / BLOCK_SIZE % 2 ^ 32

def off (io : BlockIo σ) : Nat := io.pos % BLOCK_SIZE

theorem off_lt (io : BlockIo σ) : io.off < BLOCK_SIZE := Nat.mod_lt _ (by decide)

/-- `read` into a buffer of `n` bytes, and what the buffer receives. -/
def read (io : BlockIo σ) (n : Nat) : Rust Unit (BlockIo σ × List UInt8) :=
  if n = 0 then .ok (io, [])
  else do
    let io' ← io.ensureBlock D io.lba
    let avail := min (BLOCK_SIZE - io.off) n
    let bytes := slice io'.buf io.off avail
    let (io', rest) ← read { io' with pos := io.pos + avail } (n - avail)
    .ok (io', bytes ++ rest)
termination_by n
decreasing_by
  have := io.off_lt
  omega

/-- A partial sector is read first; a whole one is not. -/
def prepare (io : BlockIo σ) (remaining : Nat) : Rust Unit (BlockIo σ) :=
  if io.off ≠ 0 ∨ remaining < BLOCK_SIZE then io.ensureBlock D io.lba
  else do
    let io' ← io.flushDirty D
    .ok { io' with bufLba := some io.lba, buf := fun _ => 0 }

def write (io : BlockIo σ) (data : List UInt8) : Rust Unit (BlockIo σ) :=
  if data.length = 0 then .ok io
  else do
    let io' ← io.prepare D data.length
    let avail := min (BLOCK_SIZE - io.off) data.length
    write { io' with buf := blit io'.buf io.off (data.take avail), bufDirty := true, pos := io.pos + avail }
      (data.drop avail)
termination_by data.length
decreasing_by
  have := io.off_lt
  rw [List.length_drop]
  omega

def flush (io : BlockIo σ) : Rust Unit (BlockIo σ) := io.flushDirty D

end

def seek {σ : Type} (io : BlockIo σ) (where_ : SeekFrom) : Rust Unit (BlockIo σ × Nat) := do
  let newPos ← match where_ with
    | .start n => .ok (asI64 n)
    | .current n => i64Add (asI64 io.pos) n
    | .fromEnd _ => .error (.err ())
  if newPos < 0 then .error (.err ())
  else .ok ({ io with pos := newPos.toNat }, newPos.toNat)

end BlockIo

/-! ## Runs, and the array they are runs on -/

inductive IoOp where
  | read (n : Nat)
  | write (data : List UInt8)
  | flush
  | seek (where_ : SeekFrom)
  deriving DecidableEq, Repr

/-- What an operation answers: the bytes read, the number written, the new position. -/
inductive IoResult where
  | bytes (bs : List UInt8)
  | count (n : Nat)
  | done
  deriving DecidableEq, Repr

def BlockIo.step {σ : Type} (D : BlockDevice σ) (io : BlockIo σ) : IoOp → Rust Unit (BlockIo σ × IoResult)
  | .read n => do
    let (io, bs) ← io.read D n
    .ok (io, .bytes bs)
  | .write data => do
    let io ← io.write D data
    .ok (io, .count data.length)
  | .flush => do
    let io ← io.flush D
    .ok (io, .done)
  | .seek w => do
    let (io, pos) ← io.seek w
    .ok (io, .count pos)

/-- An operation at a time, with the answers in order. -/
def BlockIo.run {σ : Type} (D : BlockDevice σ) (io : BlockIo σ) : List IoOp → Rust Unit (BlockIo σ × List IoResult)
  | [] => .ok (io, [])
  | op :: ops => do
    let (io, r) ← io.step D op
    let (io, rs) ← BlockIo.run D io ops
    .ok (io, r :: rs)

/-- The abstract disk: an array of bytes and a position in it. -/
structure FlatDisk where
  bytes : Nat → UInt8
  pos : Nat

namespace FlatDisk

def target (f : FlatDisk) : SeekFrom → Int
  | .start n => n
  | .current n => f.pos + n
  | .fromEnd _ => -1

def step (f : FlatDisk) : IoOp → FlatDisk × IoResult
  | .read n => ({ f with pos := f.pos + n }, .bytes (slice f.bytes f.pos n))
  | .write data => (⟨blit f.bytes f.pos data, f.pos + data.length⟩, .count data.length)
  | .flush => (f, .done)
  | .seek w => ({ f with pos := (f.target w).toNat }, .count (f.target w).toNat)

def run (f : FlatDisk) : List IoOp → FlatDisk × List IoResult
  | [] => (f, [])
  | op :: ops => ((run (f.step op).1 ops).1, (f.step op).2 :: (run (f.step op).1 ops).2)

/-- The operation stays on a disk of `size` bytes. -/
def Inside (size : Nat) (f : FlatDisk) : IoOp → Prop
  | .read n => f.pos + n ≤ size
  | .write data => f.pos + data.length ≤ size
  | .flush => True
  | .seek w => 0 ≤ f.target w ∧ f.target w ≤ size

def AllInside (size : Nat) (f : FlatDisk) : List IoOp → Prop
  | [] => True
  | op :: ops => f.Inside size op ∧ AllInside size (f.step op).1 ops

end FlatDisk

/-! ## Pieces of an array -/

theorem slice_add {α : Type} (a : Nat → α) (lo n m : Nat) :
    slice a lo (n + m) = slice a lo n ++ slice a (lo + n) m := by
  unfold slice
  rw [List.range_add, List.map_append, List.map_map]
  congr 1
  apply List.map_congr_left
  intro k _
  simp only [Function.comp]
  congr 1
  omega

theorem slice_congr {α : Type} {a b : Nat → α} {i j n : Nat} (h : ∀ k < n, a (i + k) = b (j + k)) :
    slice a i n = slice b j n := by
  unfold slice
  apply List.map_congr_left
  intro k hk
  exact h k (List.mem_range.mp hk)

theorem blit_append {α : Type} (a : Nat → α) (i : Nat) (xs ys : List α) :
    blit a i (xs ++ ys) = blit (blit a i xs) (i + xs.length) ys := by
  funext k
  unfold blit
  by_cases hi : i ≤ k
  · by_cases hx : k - i < xs.length
    · have hn : ¬ i + xs.length ≤ k := by omega
      simp [hi, hn, List.getElem?_append_left hx]
    · have hn : i + xs.length ≤ k := by omega
      have hsub : k - (i + xs.length) = k - i - xs.length := by omega
      simp [hi, hn, hsub, List.getElem?_append_right (Nat.le_of_not_lt hx),
        List.getElem?_eq_none (Nat.le_of_not_lt hx)]
  · have hn : ¬ i + xs.length ≤ k := by omega
    simp [hi, hn]

/-- Bytes written into a block that the array holds at `base` are the array's, written there. -/
theorem blit_shift {α : Type} {a b : Nat → α} {base n : Nat} (h : ∀ k < n, a k = b (base + k)) (i : Nat)
    (xs : List α) {k : Nat} (hk : k < n) : blit a i xs k = blit b (base + i) xs (base + k) := by
  unfold blit
  have hsub : base + k - (base + i) = k - i := by omega
  by_cases hi : i ≤ k
  · rw [if_pos hi, if_pos (by omega), hsub, h k hk]
  · rw [if_neg hi, if_neg (by omega), h k hk]

theorem blit_of_lt {α : Type} {a : Nat → α} {i k : Nat} {xs : List α} (h : k < i ∨ i + xs.length ≤ k) :
    blit a i xs k = a k := by
  rw [blit_apply, dif_neg (by omega)]

/-! ## The cache and the array -/

section
variable {σ : Type} {D : BlockDevice σ} {count : Nat} {contents : σ → Nat → Nat → UInt8}

structure Caches (count : Nat) (contents : σ → Nat → Nat → UInt8) (io : BlockIo σ) (f : FlatDisk) : Prop where
  pos : io.pos = f.pos
  inRange : ∀ l, io.bufLba = some l → l < count
  held : ∀ l, io.bufLba = some l → ∀ k < BLOCK_SIZE, io.buf k = f.bytes (BLOCK_SIZE * l + k)
  stored : ∀ l < count, (io.bufDirty = false ∨ io.bufLba ≠ some l) →
    ∀ k < BLOCK_SIZE, contents io.dev l k = f.bytes (BLOCK_SIZE * l + k)

/-- The device holds the whole array. -/
def Stored (count : Nat) (contents : σ → Nat → Nat → UInt8) (dev : σ) (f : FlatDisk) : Prop :=
  ∀ l < count, ∀ k < BLOCK_SIZE, contents dev l k = f.bytes (BLOCK_SIZE * l + k)

variable {io : BlockIo σ} {f : FlatDisk} (hD : D.Behaves count contents)

theorem Caches.stored_of_clean (h : Caches count contents io f) (hclean : io.bufDirty = false ∨ io.bufLba = none) :
    Stored count contents io.dev f := by
  intro l hl k hk
  refine h.stored l hl ?_ k hk
  obtain hd | hn := hclean
  · exact .inl hd
  · exact .inr (by simp [hn])

include hD in
theorem flushDirty_caches (h : Caches count contents io f) : ∃ io', io.flushDirty D = .ok io' ∧
    Caches count contents io' f ∧ Stored count contents io'.dev f ∧ io'.bufLba = io.bufLba ∧ io'.buf = io.buf := by
  unfold BlockIo.flushDirty
  cases hd : io.bufDirty with
  | false => exact ⟨io, by simp, h, h.stored_of_clean (.inl hd), rfl, rfl⟩
  | true =>
    cases hl : io.bufLba with
    | none => exact ⟨io, by simp, h, h.stored_of_clean (.inr hl), hl, rfl⟩
    | some lba =>
      obtain ⟨dev, hw, hcont⟩ := hD.write io.dev lba io.buf (h.inRange lba hl)
      have hstored : Stored count contents dev f := by
        intro l hlt k hk
        rw [hcont l hlt k hk]
        by_cases heq : l = lba
        · rw [if_pos heq, h.held lba hl k hk, heq]
        · rw [if_neg heq]
          exact h.stored l hlt (.inr (by rw [hl]; simpa using Ne.symm heq)) k hk
      refine ⟨{ io with dev := dev, bufDirty := false }, by simp [hw, hl], ?_, hstored, hl, rfl⟩
      exact ⟨h.pos, h.inRange, h.held, fun l hlt _ => hstored l hlt⟩

include hD in
theorem ensureBlock_caches (h : Caches count contents io f) {lba : Nat} (hlba : lba < count) :
    ∃ io', io.ensureBlock D lba = .ok io' ∧ Caches count contents io' f ∧ io'.bufLba = some lba := by
  unfold BlockIo.ensureBlock
  by_cases hc : io.bufLba = some lba
  · exact ⟨io, if_pos hc, h, hc⟩
  · obtain ⟨io₁, hflush, h₁, hstored, -, -⟩ := flushDirty_caches hD h
    obtain ⟨dev, buf, hr, hbuf, hsame⟩ := hD.read io₁.dev lba hlba
    rw [if_neg hc, hflush, bind_ok, hr, mapErr, bind_ok]
    refine ⟨_, rfl, ⟨h₁.pos, ?_, ?_, ?_⟩, rfl⟩
    · intro l hl
      cases hl
      exact hlba
    · intro l hl k hk
      cases hl
      exact (hbuf k hk).trans (hstored lba hlba k hk)
    · intro l hlt _ k hk
      exact (hsame l hlt k hk).trans (hstored l hlt k hk)

theorem lba_of_lt (hcount : count < 2 ^ 32) (hpos : io.pos < BLOCK_SIZE * count) :
    io.lba < count ∧ BLOCK_SIZE * io.lba + io.off = io.pos := by
  unfold BlockIo.lba BlockIo.off
  have hdiv : io.pos / BLOCK_SIZE < count :=
    (Nat.div_lt_iff_lt_mul (by decide)).mpr (by rw [Nat.mul_comm]; exact hpos)
  rw [Nat.mod_eq_of_lt (by omega)]
  exact ⟨hdiv, Nat.div_add_mod _ _⟩

include hD in
theorem read_caches (hcount : count < 2 ^ 32) : ∀ (n : Nat) {io : BlockIo σ} {f : FlatDisk},
    Caches count contents io f → f.pos + n ≤ BLOCK_SIZE * count →
    ∃ io', io.read D n = .ok (io', slice f.bytes f.pos n) ∧
      Caches count contents io' { f with pos := f.pos + n } := by
  intro n
  induction n using Nat.strongRecOn with
  | ind n ih =>
    intro io f h hin
    rw [BlockIo.read]
    by_cases hn : n = 0
    · subst hn
      exact ⟨io, by simp [slice], h⟩
    · have hoff := io.off_lt
      have hpos := h.pos
      obtain ⟨hlba, hsplit⟩ := lba_of_lt hcount (show io.pos < BLOCK_SIZE * count by omega)
      obtain ⟨io₁, hens, h₁, hcached⟩ := ensureBlock_caches hD h hlba
      rw [if_neg hn, hens, bind_ok]
      dsimp only
      generalize ha : min (BLOCK_SIZE - io.off) n = avail
      -- the rest of the read starts one chunk further on
      have hrest : Caches count contents { io₁ with pos := io.pos + avail } { f with pos := f.pos + avail } :=
        ⟨by rw [hpos], h₁.inRange, h₁.held, h₁.stored⟩
      obtain ⟨io₂, hread, h₂⟩ := ih (n - avail) (by omega) hrest (by dsimp only; omega)
      have hchunk : slice io₁.buf io.off avail = slice f.bytes f.pos avail := by
        refine slice_congr fun k hk => ?_
        rw [h₁.held io.lba hcached _ (by omega)]
        congr 1
        omega
      have hlen : f.pos + avail + (n - avail) = f.pos + n := by omega
      dsimp only at hread h₂ ⊢
      rw [hlen] at h₂
      rw [hread, bind_ok, hchunk, ← slice_add]
      exact ⟨io₂, by rw [show avail + (n - avail) = n by omega], h₂⟩

/-- The buffer is ready for a chunk: its block is the current one, and it holds the array's bytes unless
the chunk replaces all of them. -/
structure ChunkReady (count : Nat) (contents : σ → Nat → Nat → UInt8) (io : BlockIo σ) (f : FlatDisk) (lba : Nat)
    (whole : Bool) : Prop where
  cached : io.bufLba = some lba
  held : whole = false → ∀ k < BLOCK_SIZE, io.buf k = f.bytes (BLOCK_SIZE * lba + k)
  stored : ∀ l < count, l ≠ lba → ∀ k < BLOCK_SIZE, contents io.dev l k = f.bytes (BLOCK_SIZE * l + k)

include hD in
theorem prepare_ready (h : Caches count contents io f) (hlba : io.lba < count) (n : Nat) :
    ∃ io', io.prepare D n = .ok io' ∧ ChunkReady count contents io' f io.lba (io.off = 0 ∧ BLOCK_SIZE ≤ n) := by
  unfold BlockIo.prepare
  by_cases hpart : io.off ≠ 0 ∨ n < BLOCK_SIZE
  · obtain ⟨io', hens, h', hcached⟩ := ensureBlock_caches hD h hlba
    refine ⟨io', by rw [if_pos hpart, hens], hcached, fun _ => h'.held io.lba hcached, fun l hl hne => ?_⟩
    exact h'.stored l hl (.inr (by rw [hcached]; simpa using Ne.symm hne))
  · obtain ⟨io', hflush, -, hstored, -, -⟩ := flushDirty_caches hD h
    refine ⟨{ io' with bufLba := some io.lba, buf := fun _ => 0 }, by rw [if_neg hpart, hflush, bind_ok],
      rfl, ?_, ?_⟩
    · intro hwhole
      simp only [decide_eq_false_iff_not] at hwhole
      omega
    · intro l hl _
      exact hstored l hl

theorem ChunkReady.blit {lba : Nat} {whole : Bool} (h : ChunkReady count contents io f lba whole)
    (hlba : lba < count) (off : Nat) (chunk : List UInt8) (hoff : off + chunk.length ≤ BLOCK_SIZE)
    (hwhole : whole = true → off = 0 ∧ chunk.length = BLOCK_SIZE) (pos : Nat) :
    Caches count contents { io with buf := WasmOs.blit io.buf off chunk, bufDirty := true, pos := pos }
      ⟨WasmOs.blit f.bytes (BLOCK_SIZE * lba + off) chunk, pos⟩ := by
  refine ⟨rfl, ?_, ?_, ?_⟩
  · intro l hl
    obtain rfl : lba = l := Option.some.inj (h.cached.symm.trans hl)
    exact hlba
  · intro l hl k hk
    obtain rfl : lba = l := Option.some.inj (h.cached.symm.trans hl)
    dsimp only
    cases hw : whole with
    | false => exact blit_shift (h.held hw) off chunk hk
    | true =>
      obtain ⟨rfl, hlen⟩ := hwhole hw
      rw [blit_apply, blit_apply, dif_pos ⟨by omega, by omega⟩, dif_pos ⟨by omega, by omega⟩]
      congr 2
      omega
  · intro l hl hclean k hk
    have hne : l ≠ lba := by
      obtain hd | hn := hclean
      · cases hd
      · intro heq
        exact hn (heq ▸ h.cached)
    dsimp only
    rw [h.stored l hl hne k hk, blit_of_lt]
    -- another block lies before or behind this one
    obtain hlt | hgt := Nat.lt_or_gt_of_ne hne
    · left
      have := Nat.mul_le_mul_left BLOCK_SIZE (show l + 1 ≤ lba from hlt)
      rw [Nat.mul_add] at this
      omega
    · right
      have := Nat.mul_le_mul_left BLOCK_SIZE (show lba + 1 ≤ l from hgt)
      rw [Nat.mul_add] at this
      omega

include hD in
theorem write_caches (hcount : count < 2 ^ 32) : ∀ (n : Nat) {data : List UInt8} {io : BlockIo σ} {f : FlatDisk},
    data.length = n → Caches count contents io f → f.pos + data.length ≤ BLOCK_SIZE * count →
    ∃ io', io.write D data = .ok io' ∧
      Caches count contents io' ⟨WasmOs.blit f.bytes f.pos data, f.pos + data.length⟩ := by
  intro n
  induction n using Nat.strongRecOn with
  | ind n ih =>
    intro data io f hlen h hin
    rw [BlockIo.write]
    by_cases hn : data.length = 0
    · obtain rfl := List.length_eq_zero_iff.mp hn
      have hnil : WasmOs.blit f.bytes f.pos [] = f.bytes := by
        funext k
        exact blit_of_lt (by simp; omega)
      exact ⟨io, by simp, by rw [hnil]; exact h⟩
    · have hoff := io.off_lt
      have hpos := h.pos
      obtain ⟨hlba, hsplit⟩ := lba_of_lt hcount (show io.pos < BLOCK_SIZE * count by omega)
      obtain ⟨io₁, hprep, hready⟩ := prepare_ready hD h hlba data.length
      rw [if_neg hn, hprep, bind_ok]
      dsimp only
      generalize ha : min (BLOCK_SIZE - io.off) data.length = avail
      have htake : (data.take avail).length = avail := by rw [List.length_take]; omega
      have hchunk := hready.blit hlba io.off (data.take avail) (by omega)
        (fun hw => by have := of_decide_eq_true hw; omega) (io.pos + avail)
      rw [hsplit, hpos] at hchunk
      obtain ⟨io₂, hwrite, h₂⟩ := ih (data.drop avail).length (by rw [List.length_drop]; omega) rfl hchunk
        (by dsimp only; rw [List.length_drop]; omega)
      have hcat : WasmOs.blit (WasmOs.blit f.bytes f.pos (data.take avail)) (f.pos + avail) (data.drop avail) =
          WasmOs.blit f.bytes f.pos data := by
        have := blit_append f.bytes f.pos (data.take avail) (data.drop avail)
        rw [List.take_append_drop, htake] at this
        exact this.symm
      dsimp only at hwrite h₂
      rw [hcat, List.length_drop, show f.pos + avail + (data.length - avail) = f.pos + data.length by omega] at h₂
      exact ⟨io₂, by rw [hpos]; exact hwrite, h₂⟩

/-! ## Runs -/

theorem asI64_of_lt {n : Nat} (h : n < 2 ^ 63) : asI64 n = n := by
  unfold asI64
  rw [Nat.mod_eq_of_lt (by omega), if_pos h]

theorem seek_caches (hcount : count < 2 ^ 32) (h : Caches count contents io f) (hpos : f.pos ≤ BLOCK_SIZE * count)
    {w : SeekFrom} (hin : 0 ≤ f.target w ∧ f.target w ≤ ((BLOCK_SIZE * count : Nat) : Int)) :
    io.seek w = .ok ({ io with pos := (f.target w).toNat }, (f.target w).toNat) := by
  have hsize : BLOCK_SIZE * count < 2 ^ 41 := by unfold BLOCK_SIZE; omega
  generalize BLOCK_SIZE * count = size at hpos hin hsize
  unfold BlockIo.seek
  cases w with
  | start n =>
    simp only [FlatDisk.target] at hin ⊢
    rw [asI64_of_lt (by omega), bind_ok, if_neg (by omega)]
  | current n =>
    simp only [FlatDisk.target] at hin ⊢
    have hadd : i64Add (asI64 io.pos) n = .ok (f.pos + n) := by
      rw [h.pos, asI64_of_lt (by omega)]
      exact if_pos (by omega)
    rw [hadd, bind_ok, if_neg (by omega)]
  | fromEnd n =>
    simp only [FlatDisk.target] at hin
    omega

include hD in
theorem step_caches (hcount : count < 2 ^ 32) (h : Caches count contents io f) (hpos : f.pos ≤ BLOCK_SIZE * count)
    {op : IoOp} (hin : f.Inside (BLOCK_SIZE * count) op) :
    ∃ io', io.step D op = .ok (io', (f.step op).2) ∧ Caches count contents io' (f.step op).1 ∧
      (f.step op).1.pos ≤ BLOCK_SIZE * count := by
  cases op with
  | read n =>
    obtain ⟨io', hread, h'⟩ := read_caches hD hcount n h hin
    exact ⟨io', by simp [BlockIo.step, FlatDisk.step, hread], h', hin⟩
  | write data =>
    obtain ⟨io', hwrite, h'⟩ := write_caches hD hcount data.length rfl h hin
    exact ⟨io', by simp [BlockIo.step, FlatDisk.step, hwrite], h', hin⟩
  | flush =>
    obtain ⟨io', hflush, h', -, -, -⟩ := flushDirty_caches hD h
    exact ⟨io', by simp [BlockIo.step, FlatDisk.step, BlockIo.flush, hflush], h', hpos⟩
  | seek w =>
    refine ⟨{ io with pos := (f.target w).toNat }, ?_, ⟨rfl, h.inRange, h.held, h.stored⟩, ?_⟩
    · simp [BlockIo.step, FlatDisk.step, seek_caches hcount h hpos hin]
    · have hle : f.target w ≤ ((BLOCK_SIZE * count : Nat) : Int) := hin.2
      have hge := hin.1
      dsimp only [FlatDisk.step]
      omega

include hD in
theorem run_caches (hcount : count < 2 ^ 32) : ∀ {ops : List IoOp} {io : BlockIo σ} {f : FlatDisk},
    Caches count contents io f → f.pos ≤ BLOCK_SIZE * count → f.AllInside (BLOCK_SIZE * count) ops →
    ∃ io', io.run D ops = .ok (io', (f.run ops).2) ∧ Caches count contents io' (f.run ops).1
  | [], io, f, h, _, _ => ⟨io, rfl, h⟩
  | op :: ops, io, f, h, hpos, ⟨hop, hops⟩ => by
    obtain ⟨io₁, hstep, h₁, hpos₁⟩ := step_caches hD hcount h hpos hop
    obtain ⟨io₂, hrun, h₂⟩ := run_caches hcount h₁ hpos₁ hops
    exact ⟨io₂, by simp [BlockIo.run, FlatDisk.run, hstep, hrun], h₂⟩

def FlatDisk.ofDevice (contents : σ → Nat → Nat → UInt8) (dev : σ) : FlatDisk :=
  ⟨fun p => contents dev (p / BLOCK_SIZE) (p % BLOCK_SIZE), 0⟩

theorem new_caches (dev : σ) :
    Caches count contents (BlockIo.new dev) (FlatDisk.ofDevice contents dev) := by
  refine ⟨rfl, fun l hl => (by cases hl), fun l hl => (by cases hl), fun l _ _ k hk => ?_⟩
  unfold BLOCK_SIZE at hk
  have hdiv : (512 * l + k) / 512 = l := by omega
  have hmod : (512 * l + k) % 512 = k := by omega
  simp only [FlatDisk.ofDevice, BLOCK_SIZE, hdiv, hmod]
  rfl

end

/-- On every device that behaves as an array of blocks, any run of reads, writes, flushes and seeks inside
it answers as the array of its bytes does and ends at the same position; and whenever the cache is
flushed the device holds that array. -/
theorem blockIo_refines {σ : Type} {D : BlockDevice σ} {count : Nat} {contents : σ → Nat → Nat → UInt8}
    (hD : D.Behaves count contents) (hcount : count < 2 ^ 32) (dev : σ) {ops : List IoOp}
    (hops : (FlatDisk.ofDevice contents dev).AllInside (BLOCK_SIZE * count) ops) :
    ∃ io', (BlockIo.new dev).run D ops = .ok (io', ((FlatDisk.ofDevice contents dev).run ops).2) ∧
      io'.pos = ((FlatDisk.ofDevice contents dev).run ops).1.pos ∧
      ∃ io'', io'.flush D = .ok io'' ∧
      Stored count contents io''.dev ((FlatDisk.ofDevice contents dev).run ops).1 := by
  obtain ⟨io', hrun, h'⟩ := run_caches hD hcount (new_caches dev) (Nat.zero_le _) hops
  obtain ⟨io'', hflush, -, hstored, -, -⟩ := flushDirty_caches hD h'
  exact ⟨io', hrun, h'.pos, io'', hflush, hstored⟩

/-- On the ramdisk: three bytes across a block boundary, read back from the middle one on. -/
theorem blockIo_refines_ramdisk :
    ∃ io', (BlockIo.new fun _ => 0).run ramdisk [.seek (.start 511), .write [1, 2, 3],
      .seek (.current (-2)), .read 2] =
        .ok (io', [.count 511, .count 3, .count 512, .bytes [2, 3]]) ∧
      io'.pos = 514 ∧ ∃ io'', io'.flush ramdisk = .ok io'' ∧ io''.dev 511 = 1 ∧ io''.dev 513 = 3 := by
  have hin : (FlatDisk.ofDevice (fun (data : Nat → UInt8) l k => data (BLOCK_SIZE * l + k)) fun _ => 0).AllInside
      (BLOCK_SIZE * RAMDISK_BLOCKS) [.seek (.start 511), .write [1, 2, 3], .seek (.current (-2)), .read 2] := by
    refine ⟨⟨by decide, by decide⟩, ?_, ⟨by decide, by decide⟩, ?_, trivial⟩
    · exact Nat.le_of_ble_eq_true rfl
    · exact Nat.le_of_ble_eq_true rfl
  obtain ⟨io', hrun, hpos, io'', hflush, hstored⟩ := blockIo_refines ramdisk_behaves (by decide) (fun _ => 0) hin
  refine ⟨io', hrun, hpos, io'', hflush, ?_, ?_⟩
  · exact hstored 0 (by decide) 511 (by decide)
  · exact hstored 1 (by decide) 1 (by decide)

end WasmOs.Fs
