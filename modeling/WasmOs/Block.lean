import WasmOs.Bytes
import WasmOs.Fault

/-!
# Block devices

The trait of `fs/block.rs`: 512-byte sectors, read and written whole. `Behaves` is what its
implementations promise, that the sectors in range act as an array of blocks. A block is an array of
which the first `BLOCK_SIZE` bytes count.
-/

namespace WasmOs.Fs

def BLOCK_SIZE : Nat := 512

def RAMDISK_BLOCKS : Nat := 256

/-- The two operations of the trait on a device with state `σ`; `Err(())` is `.error (.err s)` with the device
afterwards. -/
structure BlockDevice (σ : Type) where
  readBlock : σ → Nat → Rust σ (σ × (Nat → UInt8))
  writeBlock : σ → Nat → (Nat → UInt8) → Rust σ σ

def SameBlocks {σ : Type} (count : Nat) (contents : σ → Nat → Nat → UInt8) (s s' : σ) : Prop :=
  ∀ l < count, ∀ k < BLOCK_SIZE, contents s' l k = contents s l k

/-- The first `count` blocks of the device are an array; byte `k` of block `l` is `contents s l k`. -/
structure BlockDevice.Behaves {σ : Type} (D : BlockDevice σ) (count : Nat)
    (contents : σ → Nat → Nat → UInt8) : Prop where
  read : ∀ s lba, lba < count → ∃ s' b, D.readBlock s lba = .ok (s', b) ∧
    (∀ k < BLOCK_SIZE, b k = contents s lba k) ∧
    SameBlocks count contents s s'
  write : ∀ s lba b, lba < count → ∃ s', D.writeBlock s lba b = .ok s' ∧
    ∀ l < count, ∀ k < BLOCK_SIZE, contents s' l k = if l = lba then b k else contents s l k

/-! ## The ramdisk -/

theorem blit_slice {α : Type} (a b : Nat → α) (i n k : Nat) :
    blit a i (slice b 0 n) k = if i ≤ k ∧ k < i + n then b (k - i) else a k := by
  rw [blit_apply]
  by_cases h : i ≤ k ∧ k < i + n
  · rw [dif_pos (by simpa using h), if_pos h]
    simp
  · rw [dif_neg (by simpa using h), if_neg h]

/-- `Ramdisk`, on the bytes of `RAMDISK_DATA`. -/
def ramdisk : BlockDevice (Nat → UInt8) where
  readBlock data lba :=
    if RAMDISK_BLOCKS ≤ lba then .error (.err data) else .ok (data, fun k => data (BLOCK_SIZE * lba + k))
  writeBlock data lba buf :=
    if RAMDISK_BLOCKS ≤ lba then .error (.err data) else .ok (blit data (BLOCK_SIZE * lba) (slice buf 0 BLOCK_SIZE))

theorem ramdisk_behaves :
    ramdisk.Behaves RAMDISK_BLOCKS fun data l k => data (BLOCK_SIZE * l + k) where
  read data lba h := by
    have hlba : ¬ RAMDISK_BLOCKS ≤ lba := by omega
    exact ⟨data, _, if_neg hlba, fun k _ => rfl, fun l _ k _ => rfl⟩
  write data lba b h := by
    have hlba : ¬ RAMDISK_BLOCKS ≤ lba := by omega
    refine ⟨_, if_neg hlba, fun l _ k hk => ?_⟩
    unfold BLOCK_SIZE at hk ⊢
    rw [blit_slice]
    by_cases hl : l = lba
    · subst hl
      rw [if_pos (by omega), if_pos rfl, Nat.add_sub_cancel_left]
    · rw [if_neg (by omega), if_neg hl]

end WasmOs.Fs
