import WasmOs.Paging
import WasmOs.Regions
import WasmOs.VirtioNetSound

/-!
# Virtqueues in memory

The layout helpers, the volatile accessors and `find_contiguous_pages` of `drivers/virtio_net.rs`, down to the
bytes. The parts of a queue never overlap and stay inside the pages that `vq_pages_needed` counts, so a queue
of bytes behaves as the record of fields does; and the card, which is told a page frame number, finds every
byte of the queue where the driver put it.
-/

namespace WasmOs.VirtioNet

open Paging Bump Runs

/-! ## Layout -/

def vqAvailIdxOff (q : Nat) : Nat := q * 16 + 2

def vqAvailRingOff (q : Nat) : Nat := q * 16 + 4

def vqUsedBase (q : Nat) : Nat :=
  let availEnd := q * 16 + 4 + q * 2 + 2
  andNot (availEnd + 4095) 4095

def vqUsedIdxOff (q : Nat) : Nat := vqUsedBase q + 2

def vqTotalBytes (q : Nat) : Nat := vqUsedBase q + 4 + q * 8 + 2

def vqPagesNeeded (q : Nat) : Nat := (vqTotalBytes q + 4095) / 4096

/-! ## Accessors -/

/-- `q_write64`, `q_write32` and `q_write16`: `w` bytes, the least significant first. -/
def qWrite (m : Nat → UInt8) (off w v : Nat) : Nat → UInt8 := blit m off (leBytes v w)

/-- `q_read16` and `q_read32` -/
def qRead (m : Nat → UInt8) (off w : Nat) : Nat := leNat m off w

def writeDesc (m : Nat → UInt8) (idx : Nat) (addr : UInt64) (len : UInt32) (flags next : UInt16) : Nat → UInt8 :=
  let off := idx * 16
  let m := qWrite m off 8 addr.toNat
  let m := qWrite m (off + 8) 4 len.toNat
  let m := qWrite m (off + 12) 2 flags.toNat
  qWrite m (off + 14) 2 next.toNat

inductive QueueOp where
  | store (w : Store)
  | publish
  | putUsed (e : UsedElem)
  | complete
  deriving DecidableEq, Repr

namespace QueueOp

def onVq (q : QSize) (vq : Vq) : QueueOp → Vq
  | .store w => vq.store w
  | .publish => vq.publish
  | .putUsed e => vq.putUsed q e
  | .complete => vq.complete

/-- The same on the bytes of the queue's pages; `phys` are the physical addresses of the statics. -/
def onBytes (phys : Buf → UInt64) (q : QSize) (m : Nat → UInt8) : QueueOp → Nat → UInt8
  | .store (.desc idx d) => writeDesc m idx (d.addr.elim 0 phys) (UInt32.ofNat d.len) d.flags d.next
  | .store (.availRing slot) => qWrite m (vqAvailRingOff q.val + slot * 2) 2 0
  | .publish => qWrite m (vqAvailIdxOff q.val) 2 (qRead m (vqAvailIdxOff q.val) 2 + 1)
  | .putUsed e =>
    let slot := qRead m (vqUsedIdxOff q.val) 2 % q.val
    let m := qWrite m (vqUsedBase q.val + 4 + slot * 8) 4 e.id.toNat
    qWrite m (vqUsedBase q.val + 4 + slot * 8 + 4) 4 e.len.toNat
  | .complete => qWrite m (vqUsedIdxOff q.val) 2 (qRead m (vqUsedIdxOff q.val) 2 + 1)

def Fits (q : QSize) : QueueOp → Prop
  | .store (.desc idx d) => idx < q.val ∧ d.len < 2 ^ 32
  | .store (.availRing slot) => slot < q.val
  | _ => True

end QueueOp

/-! ## The driver on bytes -/

def txOps (s : St) : Event → List QueueOp
  | .driver =>
    match s.pc with
    | .tx (.posting _ (w :: _)) => [.store w]
    | .tx (.posting _ []) => [.publish]
    | _ => []
  | .txComplete =>
    match s.tx.jobs with
    | .done head :: _ => [.putUsed ⟨head.toUInt32, 0⟩, .complete]
    | _ => []
  | _ => []

def rxOps (s : St) : Event → List QueueOp
  | .driver =>
    match s.pc with
    | .rx (.reposting _ (w :: _)) => [.store w]
    | .rx (.reposting _ []) => [.publish]
    | _ => []
  | .rxDeliver hdr frame =>
    match s.rx.job with
    | some (.taken head _) => [.putUsed ⟨head.toUInt32, UInt32.ofNat (hdr ++ frame).length⟩]
    | _ => []
  | .rxComplete => [.complete]
  | _ => []

def bytesAfter (phys : Buf → UInt64) (q : QSize) (m : Nat → UInt8) (ops : List QueueOp) : Nat → UInt8 :=
  ops.foldl (fun m op => op.onBytes phys q m) m

/-- Both parties, with the pages of the two queues. -/
structure ByteSt where
  st : St
  txMem : Nat → UInt8
  rxMem : Nat → UInt8

/-- After `try_init`: the pages are zeroed and one receive buffer is posted. -/
def ByteSt.init (phys : Buf → UInt64) (q : QSize) : ByteSt where
  st := .init
  txMem _ := 0
  rxMem := bytesAfter phys q (fun _ => 0) [.store (.desc 0 Rx.rxDesc), .store (.availRing 0), .publish]

def byteStep (phys : Buf → UInt64) (q : QSize) (b : ByteSt) (e : Event) : Except Unit ByteSt := do
  let st ← step q b.st e
  .ok ⟨st, bytesAfter phys q b.txMem (txOps b.st e), bytesAfter phys q b.rxMem (rxOps b.st e)⟩

/-! ## Pages -/

/-- From `addr` on, each page and the next are neighbours. -/
def isRun (m : Mmu) (addr : UInt64) : Nat → Rust Empty Bool
  | 0 => .ok true
  | k + 1 => do
    let p0 ← m.virtToPhys addr
    let p1 ← m.virtToPhys (addr + 4096)
    if p1 ≠ p0 + 4096 then .ok false else isRun m (addr + 4096) k

/-- The loop over the first page of the run. -/
def findRun (m : Mmu) (needed : Nat) (addr : UInt64) : Nat → Rust Empty (Option UInt64)
  | 0 => .ok none
  | k + 1 => do
    if ← isRun m addr (needed - 1) then .ok (some addr) else findRun m needed (addr + 4096) k

/-- `base` is where the six pages of a `VirtqBuf` begin. -/
def findContiguousPages (m : Mmu) (needed : Nat) (base : UInt64) : Rust Empty (Option UInt64) :=
  if needed = 0 ∨ 6 < needed then .ok none else findRun m needed base (6 - needed + 1)

/-- Where the pages of a queue begin, and what goes to `VIRT_QUEUE_PFN`. -/
def placePages (m : Mmu) (pagesNeeded : Nat) (buf : UInt64) : Rust Empty (Option (UInt64 × UInt32)) :=
  if 6 < pagesNeeded then .ok none
  else do
    match ← findContiguousPages m pagesNeeded buf with
    | none => .ok none
    | some virt =>
      let phys ← m.virtToPhys virt
      .ok (some (virt, (phys >>> 12).toUInt32))

/-- The part of `try_init` that places one queue. -/
def placeQueue (m : Mmu) (qSize : Nat) (buf : UInt64) : Rust Empty (Option (UInt64 × UInt32)) :=
  if qSize = 0 then .ok none else placePages m (vqPagesNeeded qSize) buf

/-! ## The parts of a queue -/

section
variable (q : QSize)

theorem QSize.le_32768 : q.val ≤ 32768 := by
  obtain ⟨k, -, hk, hval⟩ := q.isPow
  rw [hval]
  exact Nat.pow_le_pow_right Nat.two_pos hk

/-- The used ring begins on a page of its own, behind the available ring. -/
theorem vqUsedBase_ge : q.val * 18 + 6 ≤ vqUsedBase q.val := by
  have hq := q.le_32768
  unfold vqUsedBase
  rw [show (4095 : Nat) = 2 ^ 12 - 1 from rfl, andNot_eq (by omega)]
  omega

theorem vqTotalBytes_le : vqTotalBytes q.val ≤ vqPagesNeeded q.val * 4096 := by
  unfold vqPagesNeeded
  omega

end

theorem qRead_qWrite (m : Nat → UInt8) (off w v : Nat) : qRead (qWrite m off w v) off w = v % 256 ^ w := by
  apply leNat_of_bytes
  intro j hj
  rw [qWrite, blit_add _ _ (by simpa using hj), leBytes_getElem]

theorem qWrite_of_lt {m : Nat → UInt8} {off w v k : Nat} (h : k < off ∨ off + w ≤ k) :
    qWrite m off w v k = m k := by
  rw [qWrite, blit_apply, dif_neg]
  rw [leBytes_length]
  omega

theorem qRead_qWrite_of_disjoint {m : Nat → UInt8} {off w v off' w' : Nat} (h : off' + w' ≤ off ∨ off + w ≤ off') :
    qRead (qWrite m off w v) off' w' = qRead m off' w' := by
  apply leNat_congr
  intro j hj
  apply qWrite_of_lt
  omega

structure Shows (phys : Buf → UInt64) (q : QSize) (m : Nat → UInt8) (vq : Vq) : Prop where
  addr : ∀ idx < q.val, qRead m (idx * 16) 8 = ((vq.desc idx).addr.elim 0 phys).toNat
  len : ∀ idx < q.val, qRead m (idx * 16 + 8) 4 = (vq.desc idx).len
  flags : ∀ idx < q.val, qRead m (idx * 16 + 12) 2 = (vq.desc idx).flags.toNat
  next : ∀ idx < q.val, qRead m (idx * 16 + 14) 2 = (vq.desc idx).next.toNat
  availIdx : qRead m (vqAvailIdxOff q.val) 2 = vq.availIdx.toNat
  availRing : ∀ slot < q.val, qRead m (vqAvailRingOff q.val + slot * 2) 2 = (vq.availRing slot).toNat
  usedIdx : qRead m (vqUsedIdxOff q.val) 2 = vq.usedIdx.toNat
  usedId : ∀ slot < q.val, qRead m (vqUsedBase q.val + 4 + slot * 8) 4 = (vq.usedRing slot).id.toNat
  usedLen : ∀ slot < q.val, qRead m (vqUsedBase q.val + 4 + slot * 8 + 4) 4 = (vq.usedRing slot).len.toNat

/-! ## Stores -/

section
variable {phys : Buf → UInt64} {q : QSize} {m : Nat → UInt8} {vq : Vq}

theorem zeroed_shows (phys : Buf → UInt64) (q : QSize) : Shows phys q (fun _ => 0) .zeroed := by
  have hzero : ∀ w off : Nat, qRead (fun _ => 0) off w = 0 := by
    intro w
    induction w with
    | zero => intro _; rfl
    | succ w ih =>
      intro off
      show (0 : UInt8).toNat + 256 * qRead (fun _ => 0) (off + 1) w = 0
      rw [ih]
      rfl
  constructor <;> intros <;> exact hzero _ _

theorem writeDesc_disjoint {idx off w : Nat} {addr : UInt64} {len : UInt32} {flags next : UInt16}
    (h : off + w ≤ idx * 16 ∨ idx * 16 + 16 ≤ off) :
    qRead (writeDesc m idx addr len flags next) off w = qRead m off w := by
  unfold writeDesc
  rw [qRead_qWrite_of_disjoint (by omega), qRead_qWrite_of_disjoint (by omega), qRead_qWrite_of_disjoint (by omega),
    qRead_qWrite_of_disjoint (by omega)]

theorem writeDesc_self (m : Nat → UInt8) (idx : Nat) (addr : UInt64) (len : UInt32) (flags next : UInt16) :
    qRead (writeDesc m idx addr len flags next) (idx * 16) 8 = addr.toNat ∧
      qRead (writeDesc m idx addr len flags next) (idx * 16 + 8) 4 = len.toNat ∧
      qRead (writeDesc m idx addr len flags next) (idx * 16 + 12) 2 = flags.toNat ∧
      qRead (writeDesc m idx addr len flags next) (idx * 16 + 14) 2 = next.toNat := by
  unfold writeDesc
  refine ⟨?_, ?_, ?_, ?_⟩
  · rw [qRead_qWrite_of_disjoint (by omega), qRead_qWrite_of_disjoint (by omega),
      qRead_qWrite_of_disjoint (by omega), qRead_qWrite]
    exact Nat.mod_eq_of_lt addr.toNat_lt
  · rw [qRead_qWrite_of_disjoint (by omega), qRead_qWrite_of_disjoint (by omega), qRead_qWrite]
    exact Nat.mod_eq_of_lt len.toNat_lt
  · rw [qRead_qWrite_of_disjoint (by omega), qRead_qWrite]
    exact Nat.mod_eq_of_lt flags.toNat_lt
  · rw [qRead_qWrite]
    exact Nat.mod_eq_of_lt next.toNat_lt

theorem desc_shows (h : Shows phys q m vq) {idx : Nat} {d : Desc} (hidx : idx < q.val) (hlen : d.len < 2 ^ 32) :
    Shows phys q (writeDesc m idx (d.addr.elim 0 phys) (UInt32.ofNat d.len) d.flags d.next)
    (vq.store (.desc idx d)) := by
  have hbase := vqUsedBase_ge q
  obtain ⟨haddr, hlen', hflags, hnext⟩ :=
    writeDesc_self m idx (d.addr.elim 0 phys) (UInt32.ofNat d.len) d.flags d.next
  rw [UInt32.toNat_ofNat_of_lt' hlen] at hlen'
  have hother : ∀ i, i ≠ idx → (vq.store (.desc idx d)).desc i = vq.desc i := fun i hi => upd_of_ne _ _ hi
  have hself : (vq.store (.desc idx d)).desc idx = d := upd_self ..
  constructor
  · intro i hi
    by_cases heq : i = idx
    · subst heq; rw [hself]; exact haddr
    · rw [hother i heq, writeDesc_disjoint (by omega)]; exact h.addr i hi
  · intro i hi
    by_cases heq : i = idx
    · subst heq; rw [hself]; exact hlen'
    · rw [hother i heq, writeDesc_disjoint (by omega)]; exact h.len i hi
  · intro i hi
    by_cases heq : i = idx
    · subst heq; rw [hself]; exact hflags
    · rw [hother i heq, writeDesc_disjoint (by omega)]; exact h.flags i hi
  · intro i hi
    by_cases heq : i = idx
    · subst heq; rw [hself]; exact hnext
    · rw [hother i heq, writeDesc_disjoint (by omega)]; exact h.next i hi
  · rw [writeDesc_disjoint (by unfold vqAvailIdxOff; omega)]; exact h.availIdx
  · intro slot hslot
    rw [writeDesc_disjoint (by unfold vqAvailRingOff; omega)]; exact h.availRing slot hslot
  · rw [writeDesc_disjoint (by unfold vqUsedIdxOff; omega)]; exact h.usedIdx
  · intro slot hslot
    rw [writeDesc_disjoint (by omega)]; exact h.usedId slot hslot
  · intro slot hslot
    rw [writeDesc_disjoint (by omega)]; exact h.usedLen slot hslot

theorem qWrite_desc {m : Nat → UInt8} {off w v : Nat} (hoff : q.val * 16 ≤ off) {i k n : Nat} (hi : i < q.val)
    (hk : k + n ≤ 16) :
    qRead (qWrite m off w v) (i * 16 + k) n = qRead m (i * 16 + k) n := by
  apply qRead_qWrite_of_disjoint
  omega

theorem availRing_shows (h : Shows phys q m vq) {slot : Nat} (hslot : slot < q.val) :
    Shows phys q (qWrite m (vqAvailRingOff q.val + slot * 2) 2 0) (vq.store (.availRing slot)) := by
  have hbase := vqUsedBase_ge q
  have hoff : q.val * 16 ≤ vqAvailRingOff q.val + slot * 2 := by unfold vqAvailRingOff; omega
  constructor
  · intro i hi; exact (qWrite_desc hoff hi (k := 0) (by decide)).trans (h.addr i hi)
  · intro i hi; exact (qWrite_desc hoff hi (by decide)).trans (h.len i hi)
  · intro i hi; exact (qWrite_desc hoff hi (by decide)).trans (h.flags i hi)
  · intro i hi; exact (qWrite_desc hoff hi (by decide)).trans (h.next i hi)
  · rw [qRead_qWrite_of_disjoint (by unfold vqAvailIdxOff vqAvailRingOff; omega)]; exact h.availIdx
  · intro i hi
    show _ = (upd vq.availRing slot 0 i).toNat
    by_cases heq : i = slot
    · subst heq; rw [upd_self, qRead_qWrite]; rfl
    · rw [upd_of_ne _ _ heq, qRead_qWrite_of_disjoint (by omega)]; exact h.availRing i hi
  · rw [qRead_qWrite_of_disjoint (by unfold vqAvailRingOff vqUsedIdxOff; omega)]; exact h.usedIdx
  · intro i hi
    rw [qRead_qWrite_of_disjoint (by unfold vqAvailRingOff; omega)]; exact h.usedId i hi
  · intro i hi
    rw [qRead_qWrite_of_disjoint (by unfold vqAvailRingOff; omega)]; exact h.usedLen i hi

theorem publish_shows (h : Shows phys q m vq) :
    Shows phys q (qWrite m (vqAvailIdxOff q.val) 2 (qRead m (vqAvailIdxOff q.val) 2 + 1)) vq.publish := by
  have hbase := vqUsedBase_ge q
  have hoff : q.val * 16 ≤ vqAvailIdxOff q.val := by unfold vqAvailIdxOff; omega
  constructor
  · intro i hi; exact (qWrite_desc hoff hi (k := 0) (by decide)).trans (h.addr i hi)
  · intro i hi; exact (qWrite_desc hoff hi (by decide)).trans (h.len i hi)
  · intro i hi; exact (qWrite_desc hoff hi (by decide)).trans (h.flags i hi)
  · intro i hi; exact (qWrite_desc hoff hi (by decide)).trans (h.next i hi)
  · rw [qRead_qWrite, h.availIdx]
    exact (UInt16.toNat_add vq.availIdx 1).symm
  · intro i hi
    rw [qRead_qWrite_of_disjoint (by unfold vqAvailIdxOff vqAvailRingOff; omega)]; exact h.availRing i hi
  · rw [qRead_qWrite_of_disjoint (by unfold vqAvailIdxOff vqUsedIdxOff; omega)]; exact h.usedIdx
  · intro i hi
    rw [qRead_qWrite_of_disjoint (by unfold vqAvailIdxOff; omega)]; exact h.usedId i hi
  · intro i hi
    rw [qRead_qWrite_of_disjoint (by unfold vqAvailIdxOff; omega)]; exact h.usedLen i hi

theorem complete_shows (h : Shows phys q m vq) :
    Shows phys q (qWrite m (vqUsedIdxOff q.val) 2 (qRead m (vqUsedIdxOff q.val) 2 + 1)) vq.complete := by
  have hbase := vqUsedBase_ge q
  have hoff : q.val * 16 ≤ vqUsedIdxOff q.val := by unfold vqUsedIdxOff; omega
  constructor
  · intro i hi; exact (qWrite_desc hoff hi (k := 0) (by decide)).trans (h.addr i hi)
  · intro i hi; exact (qWrite_desc hoff hi (by decide)).trans (h.len i hi)
  · intro i hi; exact (qWrite_desc hoff hi (by decide)).trans (h.flags i hi)
  · intro i hi; exact (qWrite_desc hoff hi (by decide)).trans (h.next i hi)
  · rw [qRead_qWrite_of_disjoint (by unfold vqAvailIdxOff vqUsedIdxOff; omega)]; exact h.availIdx
  · intro i hi
    rw [qRead_qWrite_of_disjoint (by unfold vqUsedIdxOff vqAvailRingOff; omega)]; exact h.availRing i hi
  · rw [qRead_qWrite, h.usedIdx]
    exact (UInt16.toNat_add vq.usedIdx 1).symm
  · intro i hi
    rw [qRead_qWrite_of_disjoint (by unfold vqUsedIdxOff; omega)]; exact h.usedId i hi
  · intro i hi
    rw [qRead_qWrite_of_disjoint (by unfold vqUsedIdxOff; omega)]; exact h.usedLen i hi

theorem putUsed_shows (h : Shows phys q m vq) (e : UsedElem) :
    Shows phys q (QueueOp.onBytes phys q m (.putUsed e)) (vq.putUsed q e) := by
  have hbase := vqUsedBase_ge q
  have hpos : 0 < q.val := by
    obtain ⟨k, -, -, hval⟩ := q.isPow
    rw [hval]
    exact Nat.two_pow_pos k
  show Shows phys q (qWrite (qWrite m (vqUsedBase q.val + 4 + qRead m (vqUsedIdxOff q.val) 2 % q.val * 8)
    4 e.id.toNat)
    (vqUsedBase q.val + 4 + qRead m (vqUsedIdxOff q.val) 2 % q.val * 8 + 4) 4 e.len.toNat) _
  rw [h.usedIdx]
  unfold Vq.putUsed
  have hslot : vq.usedIdx.toNat % q.val < q.val := Nat.mod_lt _ hpos
  generalize vq.usedIdx.toNat % q.val = slot at hslot
  have hoff : q.val * 16 ≤ vqUsedBase q.val + 4 + slot * 8 := by omega
  have hoff' : q.val * 16 ≤ vqUsedBase q.val + 4 + slot * 8 + 4 := by omega
  constructor
  · intro i hi; exact ((qWrite_desc hoff' hi (k := 0) (by decide)).trans
      (qWrite_desc hoff hi (k := 0) (by decide))).trans (h.addr i hi)
  · intro i hi; exact ((qWrite_desc hoff' hi (by decide)).trans (qWrite_desc hoff hi (by decide))).trans
      (h.len i hi)
  · intro i hi; exact ((qWrite_desc hoff' hi (by decide)).trans (qWrite_desc hoff hi (by decide))).trans
      (h.flags i hi)
  · intro i hi; exact ((qWrite_desc hoff' hi (by decide)).trans (qWrite_desc hoff hi (by decide))).trans
      (h.next i hi)
  · rw [qRead_qWrite_of_disjoint (by unfold vqAvailIdxOff; omega),
      qRead_qWrite_of_disjoint (by unfold vqAvailIdxOff; omega)]
    exact h.availIdx
  · intro i hi
    rw [qRead_qWrite_of_disjoint (by unfold vqAvailRingOff; omega),
      qRead_qWrite_of_disjoint (by unfold vqAvailRingOff; omega)]
    exact h.availRing i hi
  · rw [qRead_qWrite_of_disjoint (by unfold vqUsedIdxOff; omega),
      qRead_qWrite_of_disjoint (by unfold vqUsedIdxOff; omega)]
    exact h.usedIdx
  · intro i hi
    show _ = (upd vq.usedRing slot e i).id.toNat
    by_cases heq : i = slot
    · subst heq
      rw [upd_self, qRead_qWrite_of_disjoint (by omega), qRead_qWrite]
      exact Nat.mod_eq_of_lt e.id.toNat_lt
    · rw [upd_of_ne _ _ heq, qRead_qWrite_of_disjoint (by omega), qRead_qWrite_of_disjoint (by omega)]
      exact h.usedId i hi
  · intro i hi
    show _ = (upd vq.usedRing slot e i).len.toNat
    by_cases heq : i = slot
    · subst heq
      rw [upd_self, qRead_qWrite]
      exact Nat.mod_eq_of_lt e.len.toNat_lt
    · rw [upd_of_ne _ _ heq, qRead_qWrite_of_disjoint (by omega), qRead_qWrite_of_disjoint (by omega)]
      exact h.usedLen i hi

theorem onBytes_shows (h : Shows phys q m vq) {op : QueueOp} (hfits : op.Fits q) :
    Shows phys q (op.onBytes phys q m) (op.onVq q vq) := by
  cases op with
  | store w =>
    cases w with
    | desc idx d => exact desc_shows h hfits.1 hfits.2
    | availRing slot => exact availRing_shows h hfits
  | publish => exact publish_shows h
  | putUsed e => exact putUsed_shows h e
  | complete => exact complete_shows h

theorem onBytes_inside {op : QueueOp} (hfits : op.Fits q) {k : Nat} (hk : vqPagesNeeded q.val * 4096 ≤ k) :
    op.onBytes phys q m k = m k := by
  have hbase := vqUsedBase_ge q
  have htotal := vqTotalBytes_le q
  have hpos := q.isPow
  unfold vqTotalBytes at htotal
  cases op with
  | store w =>
    cases w with
    | desc idx d =>
      have hidx := hfits.1
      simp only [QueueOp.onBytes, writeDesc]
      rw [qWrite_of_lt (by omega), qWrite_of_lt (by omega), qWrite_of_lt (by omega), qWrite_of_lt (by omega)]
    | availRing slot =>
      have hslot : slot < q.val := hfits
      exact qWrite_of_lt (by unfold vqAvailRingOff; omega)
  | publish => exact qWrite_of_lt (by unfold vqAvailIdxOff; omega)
  | putUsed e =>
    have hslot : qRead m (vqUsedIdxOff q.val) 2 % q.val < q.val := by
      obtain ⟨n, -, -, hval⟩ := hpos
      exact Nat.mod_lt _ (by rw [hval]; exact Nat.two_pow_pos n)
    simp only [QueueOp.onBytes]
    rw [qWrite_of_lt (by omega), qWrite_of_lt (by omega)]
  | complete => exact qWrite_of_lt (by unfold vqUsedIdxOff; omega)

theorem bytesAfter_shows (h : Shows phys q m vq) {ops : List QueueOp} (hfits : ∀ op ∈ ops, op.Fits q) :
    Shows phys q (bytesAfter phys q m ops) (ops.foldl (fun vq op => op.onVq q vq) vq) := by
  induction ops generalizing m vq with
  | nil => exact h
  | cons op ops ih => exact ih (onBytes_shows h (hfits op (.head _))) fun o ho => hfits o (.tail _ ho)

theorem bytesAfter_inside {ops : List QueueOp} (hfits : ∀ op ∈ ops, op.Fits q) {k : Nat}
    (hk : vqPagesNeeded q.val * 4096 ≤ k) :
    bytesAfter phys q m ops k = m k := by
  induction ops generalizing m with
  | nil => rfl
  | cons op ops ih =>
    have hrest : bytesAfter phys q (op.onBytes phys q m) ops k = op.onBytes phys q m k :=
      ih fun o ho => hfits o (.tail _ ho)
    exact hrest.trans (onBytes_inside (hfits op (.head _)) hk)

end

/-! ## Runs on bytes -/

section
variable {q : QSize} {s s' : St}

/-- What the driver is about to store fits its queue. -/
def Pc.StoresFit (q : QSize) : Pc → Prop
  | .tx (.filling frame) => frame.length ≤ ETH_FRAME_SIZE
  | .tx (.posting _ rest) => ∀ w ∈ rest, (QueueOp.store w).Fits q
  | .rx (.reposting _ rest) => ∀ w ∈ rest, (QueueOp.store w).Fits q
  | _ => True

theorem slot_lt (q : QSize) (x : UInt16) : (x &&& q.mask).toNat < q.val := by
  rw [q.and_mask]
  exact Nat.mod_lt _ (Nat.lt_of_succ_lt q.one_lt)

theorem doTx_fits (q : QSize) (availIdx : UInt16) {len : Nat} (hlen : len ≤ ETH_FRAME_SIZE) :
    ∀ w ∈ Tx.doTx q availIdx len, (QueueOp.store w).Fits q := by
  have hq := q.one_lt
  unfold ETH_FRAME_SIZE at hlen
  intro w hw
  simp only [Tx.doTx, List.mem_cons, List.not_mem_nil, or_false] at hw
  rcases hw with rfl | rfl | rfl
  · exact ⟨Nat.lt_of_succ_lt hq, by decide⟩
  · exact ⟨hq, show len < 2 ^ 32 by omega⟩
  · exact slot_lt q _

theorem repost_fits (q : QSize) (availIdx : UInt16) : ∀ w ∈ Rx.repost q availIdx, (QueueOp.store w).Fits q := by
  intro w hw
  simp only [Rx.repost, List.mem_cons, List.not_mem_nil, or_false] at hw
  rcases hw with rfl | rfl
  · exact ⟨Nat.lt_of_succ_lt q.one_lt, by decide⟩
  · exact slot_lt q _

theorem step_storesFit (h : s.pc.StoresFit q) {e : Event} (hs : step q s e = .ok s') : s'.pc.StoresFit q := by
  cases e with
  | netSend frame =>
    simp only [step] at hs
    split at hs
    · cases hs
      split
      · exact h
      · rename_i hlen
        show frame.length ≤ ETH_FRAME_SIZE
        omega
    · cases hs
  | netRecv cap =>
    simp only [step] at hs
    split at hs
    · cases hs
      split
      · exact h
      · trivial
    · cases hs
  | driver =>
    simp only [step] at hs
    split at hs
    · cases hs
    · rename_i p hp
      rw [hp] at h
      cases hs
      cases p with
      | filling frame => exact doTx_fits q _ h
      | posting frame rest =>
        cases rest with
        | nil => trivial
        | cons w rest => exact fun w' hw' => h w' (.tail _ hw')
      | waiting frame spins =>
        simp only [Tx.driver]
        split
        · trivial
        · split <;> trivial
    · rename_i p hp
      rw [hp] at h
      cases hs
      cases p with
      | polling =>
        simp only [Rx.driver]
        split <;> trivial
      | measuring => trivial
      | copying n => exact repost_fits q _
      | reposting frame rest =>
        cases rest with
        | nil => trivial
        | cons w rest => exact fun w' hw' => h w' (.tail _ hw')
  | txTake =>
    simp only [step] at hs
    cases ht : s.tx.take q <;> rw [ht] at hs <;> cases hs
    exact h
  | txRead i =>
    simp only [step] at hs
    cases ht : s.tx.read i <;> rw [ht] at hs <;> cases hs
    exact h
  | txComplete =>
    simp only [step] at hs
    cases ht : s.tx.complete q <;> rw [ht] at hs <;> cases hs
    exact h
  | rxTake =>
    simp only [step] at hs
    cases ht : s.rx.take q <;> rw [ht] at hs <;> cases hs
    exact h
  | rxScribble i bytes =>
    simp only [step] at hs
    cases ht : s.rx.scribble i bytes <;> rw [ht] at hs <;> cases hs
    exact h
  | rxDeliver hdr frame =>
    simp only [step] at hs
    cases ht : s.rx.deliver q hdr frame <;> rw [ht] at hs <;> cases hs
    exact h
  | rxComplete =>
    simp only [step] at hs
    cases ht : s.rx.complete <;> rw [ht] at hs <;> cases hs
    exact h

theorem txOps_fit (h : s.pc.StoresFit q) (e : Event) : ∀ op ∈ txOps s e, op.Fits q := by
  cases e with
  | driver =>
    simp only [txOps]
    split
    · rename_i frame w rest hpc
      rw [hpc] at h
      intro op hop
      rw [List.mem_singleton.mp hop]
      exact h w (.head _)
    · intro op hop
      rw [List.mem_singleton.mp hop]
      trivial
    · intro op hop
      cases hop
  | txComplete =>
    simp only [txOps]
    split
    · intro op hop
      rcases List.mem_cons.mp hop with rfl | hop
      · trivial
      · rw [List.mem_singleton.mp hop]
        trivial
    · intro op hop
      cases hop
  | _ =>
    intro op hop
    cases hop

theorem rxOps_fit (h : s.pc.StoresFit q) (e : Event) : ∀ op ∈ rxOps s e, op.Fits q := by
  cases e with
  | driver =>
    simp only [rxOps]
    split
    · rename_i frame w rest hpc
      rw [hpc] at h
      intro op hop
      rw [List.mem_singleton.mp hop]
      exact h w (.head _)
    · intro op hop
      rw [List.mem_singleton.mp hop]
      trivial
    · intro op hop
      cases hop
  | rxDeliver hdr frame =>
    simp only [rxOps]
    split
    · intro op hop
      rw [List.mem_singleton.mp hop]
      trivial
    · intro op hop
      cases hop
  | rxComplete =>
    intro op hop
    rw [List.mem_singleton.mp hop]
    trivial
  | _ =>
    intro op hop
    cases hop

/-- A step does to the transmit queue what `txOps` says. -/
theorem step_txOps {e : Event} (hs : step q s e = .ok s') :
    s'.tx.vq = (txOps s e).foldl (fun vq op => op.onVq q vq) s.tx.vq := by
  cases e with
  | netSend frame =>
    simp only [step] at hs
    split at hs
    · cases hs
      split <;> rfl
    · cases hs
  | netRecv cap =>
    simp only [step] at hs
    split at hs
    · cases hs
      split <;> rfl
    · cases hs
  | driver =>
    simp only [step] at hs
    split at hs
    · cases hs
    · rename_i p hp
      cases hs
      simp only [txOps, hp]
      cases p with
      | filling frame => rfl
      | posting frame rest => cases rest <;> rfl
      | waiting frame spins =>
        simp only [Tx.driver]
        split
        · rfl
        · split <;> rfl
    · rename_i p hp
      cases hs
      simp only [txOps, hp]
      rfl
  | txTake =>
    simp only [step] at hs
    cases ht : s.tx.take q with
    | error e => rw [ht] at hs; cases hs
    | ok t =>
      rw [ht] at hs
      cases hs
      unfold Tx.take at ht
      split at ht
      · cases ht
      · cases ht
        rfl
  | txRead i =>
    simp only [step] at hs
    cases ht : s.tx.read i with
    | error e => rw [ht] at hs; cases hs
    | ok t =>
      rw [ht] at hs
      cases hs
      unfold Tx.read at ht
      split at ht
      · rename_i head ds hjob
        cases hparts : ds.mapM s.tx.readDesc <;> rw [hparts] at ht <;> cases ht
        rfl
      · cases ht
  | txComplete =>
    simp only [step] at hs
    cases ht : s.tx.complete q with
    | error e => rw [ht] at hs; cases hs
    | ok t =>
      rw [ht] at hs
      cases hs
      unfold Tx.complete at ht
      split at ht
      · rename_i head rest hjobs
        cases ht
        simp only [txOps, hjobs]
        rfl
      · cases ht
  | rxTake =>
    simp only [step] at hs
    cases ht : s.rx.take q <;> rw [ht] at hs <;> cases hs
    rfl
  | rxScribble i bytes =>
    simp only [step] at hs
    cases ht : s.rx.scribble i bytes <;> rw [ht] at hs <;> cases hs
    rfl
  | rxDeliver hdr frame =>
    simp only [step] at hs
    cases ht : s.rx.deliver q hdr frame <;> rw [ht] at hs <;> cases hs
    rfl
  | rxComplete =>
    simp only [step] at hs
    cases ht : s.rx.complete <;> rw [ht] at hs <;> cases hs
    rfl

theorem step_rxOps {e : Event} (hs : step q s e = .ok s') :
    s'.rx.vq = (rxOps s e).foldl (fun vq op => op.onVq q vq) s.rx.vq := by
  cases e with
  | netSend frame =>
    simp only [step] at hs
    split at hs
    · cases hs
      split <;> rfl
    · cases hs
  | netRecv cap =>
    simp only [step] at hs
    split at hs
    · cases hs
      split <;> rfl
    · cases hs
  | driver =>
    simp only [step] at hs
    split at hs
    · cases hs
    · rename_i p hp
      cases hs
      simp only [rxOps, hp]
      rfl
    · rename_i p hp
      cases hs
      simp only [rxOps, hp]
      cases p with
      | polling =>
        simp only [Rx.driver]
        split <;> rfl
      | measuring => rfl
      | copying n => rfl
      | reposting frame rest => cases rest <;> rfl
  | txTake =>
    simp only [step] at hs
    cases ht : s.tx.take q <;> rw [ht] at hs <;> cases hs
    rfl
  | txRead i =>
    simp only [step] at hs
    cases ht : s.tx.read i <;> rw [ht] at hs <;> cases hs
    rfl
  | txComplete =>
    simp only [step] at hs
    cases ht : s.tx.complete q <;> rw [ht] at hs <;> cases hs
    rfl
  | rxTake =>
    simp only [step] at hs
    cases ht : s.rx.take q with
    | error e => rw [ht] at hs; cases hs
    | ok t =>
      rw [ht] at hs
      cases hs
      unfold Rx.take at ht
      split at ht
      · cases ht
      · split at ht <;> cases ht
        rfl
  | rxScribble i bytes =>
    simp only [step] at hs
    cases ht : s.rx.scribble i bytes with
    | error e => rw [ht] at hs; cases hs
    | ok t =>
      rw [ht] at hs
      cases hs
      unfold Rx.scribble at ht
      split at ht
      · split at ht <;> cases ht
        rfl
      · cases ht
  | rxDeliver hdr frame =>
    simp only [step] at hs
    cases ht : s.rx.deliver q hdr frame with
    | error e => rw [ht] at hs; cases hs
    | ok t =>
      rw [ht] at hs
      cases hs
      unfold Rx.deliver at ht
      split at ht
      · rename_i head d hjob
        simp only [rxOps, hjob]
        split at ht <;> cases ht
        rfl
      · cases ht
  | rxComplete =>
    simp only [step] at hs
    cases ht : s.rx.complete with
    | error e => rw [ht] at hs; cases hs
    | ok t =>
      rw [ht] at hs
      cases hs
      unfold Rx.complete at ht
      split at ht <;> cases ht
      rfl

end

/-- The two queues in their pages, nothing behind them. -/
structure ByteSt.Inv (phys : Buf → UInt64) (q : QSize) (b : ByteSt) : Prop where
  stores : b.st.pc.StoresFit q
  tx : Shows phys q b.txMem b.st.tx.vq
  rx : Shows phys q b.rxMem b.st.rx.vq
  inside : ∀ k, vqPagesNeeded q.val * 4096 ≤ k → b.txMem k = 0 ∧ b.rxMem k = 0

theorem byteInit_inv (phys : Buf → UInt64) (q : QSize) : (ByteSt.init phys q).Inv phys q := by
  have hfits : ∀ op ∈ ([.store (.desc 0 Rx.rxDesc), .store (.availRing 0), .publish] : List QueueOp),
      op.Fits q := by
    have hq : 0 < q.val := Nat.lt_of_succ_lt q.one_lt
    intro op hop
    simp only [List.mem_cons, List.not_mem_nil, or_false] at hop
    rcases hop with rfl | rfl | rfl
    · exact ⟨hq, by decide⟩
    · exact hq
    · trivial
  refine ⟨trivial, zeroed_shows phys q, bytesAfter_shows (zeroed_shows phys q) hfits, fun k hk => ⟨rfl, ?_⟩⟩
  exact bytesAfter_inside hfits hk

theorem byteStep_inv {phys : Buf → UInt64} {q : QSize} {b b' : ByteSt} {e : Event} (h : b.Inv phys q)
    (hs : byteStep phys q b e = .ok b') : b'.Inv phys q := by
  unfold byteStep at hs
  cases hst : step q b.st e with
  | error e => rw [hst] at hs; cases hs
  | ok st =>
    rw [hst] at hs
    cases hs
    refine ⟨step_storesFit h.stores hst, ?_, ?_, fun k hk => ?_⟩
    · show Shows phys q _ st.tx.vq
      rw [step_txOps hst]
      exact bytesAfter_shows h.tx (txOps_fit h.stores e)
    · show Shows phys q _ st.rx.vq
      rw [step_rxOps hst]
      exact bytesAfter_shows h.rx (rxOps_fit h.stores e)
    · have hbefore := h.inside k hk
      exact ⟨(bytesAfter_inside (txOps_fit h.stores e) hk).trans hbefore.1,
        (bytesAfter_inside (rxOps_fit h.stores e) hk).trans hbefore.2⟩

/-- In every state of every run, the pages of each queue hold exactly the fields that driver and card have
written, each at the offset where the other side reads it, and nothing behind the pages is touched. -/
theorem queues_in_pages (phys : Buf → UInt64) (q : QSize) (es : List Event) :
    Always (byteStep phys q) (fun b => Shows phys q b.txMem b.st.tx.vq ∧ Shows phys q b.rxMem b.st.rx.vq ∧
      ∀ k, vqPagesNeeded q.val * 4096 ≤ k → b.txMem k = 0 ∧ b.rxMem k = 0) (ByteSt.init phys q) es := by
  have hrun : Always (byteStep phys q) (ByteSt.Inv phys q) (ByteSt.init phys q) es :=
    AllSteps.always (fun _ _ _ h _ hs => byteStep_inv h hs) (byteInit_inv phys q)
      (allSteps_of_forall (fun _ _ _ => trivial))
  exact hrun.mono fun b h => ⟨h.tx, h.rx, h.inside⟩

/-! ## Where the card finds a queue -/

section
variable {m : Mmu} {virt : UInt64}

theorem isRun_neighbours :
    ∀ {k : Nat} {addr p : UInt64}, addr.toNat % 4096 = 0 → addr.toNat + (k + 1) * 4096 ≤ 2 ^ 64 →
    isRun m addr k = .ok true → m.virtToPhys addr = .ok p →
    ∀ j ≤ k, m.virtToPhys (addr + UInt64.ofNat (j * 4096)) = .ok (p + UInt64.ofNat (j * 4096))
  | 0, addr, p, _, _, _, hp => by
    intro j hj
    cases Nat.le_zero.mp hj
    simpa using hp
  | k + 1, addr, p, halign, hroom, hrun, hp => by
    intro j hj
    unfold isRun at hrun
    rw [hp] at hrun
    cases hnext : m.virtToPhys (addr + 4096) with
    | error e => simp only [hnext, bind, Except.bind] at hrun; cases hrun
    | ok p1 =>
      simp only [hnext, bind, Except.bind] at hrun
      split at hrun
      · cases hrun
      · rename_i heq
        cases j with
        | zero => simpa using hp
        | succ j =>
          have hsucc : (addr + 4096).toNat = addr.toNat + 4096 := by
            rw [UInt64.toNat_add]
            show (addr.toNat + 4096) % 2 ^ 64 = _
            omega
          have hstep := isRun_neighbours (by omega) (by omega) hrun hnext j (by omega)
          have hsplit : UInt64.ofNat ((j + 1) * 4096) = 4096 + UInt64.ofNat (j * 4096) := by
            rw [Nat.succ_mul, Nat.add_comm, UInt64.ofNat_add]
            rfl
          rw [hsplit, ← UInt64.add_assoc, ← UInt64.add_assoc, hstep, Decidable.not_not.mp heq]

/-- A run that is found lies in the six pages, and its pages are neighbours. -/
theorem findRun_spec {needed : Nat} : ∀ {k : Nat} {addr : UInt64}, findRun m needed addr k = .ok (some virt) →
    ∃ i < k, virt = addr + UInt64.ofNat (i * 4096) ∧ isRun m virt (needed - 1) = .ok true
  | 0, _, h => by cases h
  | k + 1, addr, h => by
    unfold findRun at h
    cases hrun : isRun m addr (needed - 1) with
    | error e => simp only [hrun, bind, Except.bind] at h; cases h
    | ok b =>
      cases b with
      | true =>
        simp only [hrun, bind, Except.bind, if_true] at h
        cases h
        exact ⟨0, Nat.succ_pos k, by simp, hrun⟩
      | false =>
        simp only [hrun, bind, Except.bind] at h
        obtain ⟨i, hi, hvirt, hok⟩ := findRun_spec h
        refine ⟨i + 1, Nat.succ_lt_succ hi, ?_, hok⟩
        rw [hvirt, Nat.succ_mul, Nat.add_comm (i * 4096), UInt64.ofNat_add, UInt64.add_assoc]
        rfl

theorem virtToPhys_aligned {v p : UInt64} (halign : v.toNat % 4096 = 0) (h : m.virtToPhys v = .ok p) :
    p.toNat % 4096 = 0 := by
  have hor : ∀ e frame low : UInt64, frame.toNat % 4096 = 0 → ((e &&& frame) ||| (v &&& low)).toNat % 4096 = 0 := by
    intro e frame low hframe
    have hleft : (e.toNat &&& frame.toNat) % 2 ^ 12 = 0 := and_mod_zero _ 12 hframe
    have hright : (v.toNat &&& low.toNat) % 2 ^ 12 = 0 := by
      rw [Nat.and_comm]
      exact and_mod_zero _ 12 halign
    rw [UInt64.toNat_or, UInt64.toNat_and, UInt64.toNat_and, show (4096 : Nat) = 2 ^ 12 from rfl,
      Nat.or_mod_two_pow, hleft, hright]
    rfl
  unfold Mmu.virtToPhys at h
  simp only at h
  repeat' split at h
  all_goals cases h
  · exact hor _ FRAME_1G _ (by decide)
  · exact hor _ FRAME_2M _ (by decide)
  · exact hor _ FRAME _ (by decide)

end

theorem pfn_mul {phys : UInt64} (halign : phys.toNat % 4096 = 0) (hlt : phys.toNat < 2 ^ 44) :
    (phys >>> 12).toUInt32.toUInt64 * 4096 = phys := by
  have hshift : (phys >>> 12).toNat = phys.toNat / 4096 := by
    rw [UInt64.toNat_shiftRight, Nat.shiftRight_eq_div_pow]
    rfl
  apply UInt64.toNat_inj.mp
  rw [UInt64.toNat_mul, UInt32.toNat_toUInt64, UInt64.toNat_toUInt32, hshift]
  rw [show (4096 : UInt64).toNat = 4096 from rfl]
  omega

theorem toNat_add_ofNat {v : UInt64} {n : Nat} (h : v.toNat + n < 2 ^ 64) :
    (v + UInt64.ofNat n).toNat = v.toNat + n := by
  have hn : (UInt64.ofNat n).toNat = n := UInt64.toNat_ofNat_of_lt' (Nat.lt_of_le_of_lt (Nat.le_add_left ..) h)
  rw [UInt64.toNat_add, hn]
  exact Nat.mod_eq_of_lt h

theorem isRun_translates {m : Mmu} {virt phys : UInt64} {needed off : Nat} (halign : virt.toNat % 4096 = 0)
    (hroom : virt.toNat + needed * 4096 ≤ 2 ^ 64) (hrun : isRun m virt (needed - 1) = .ok true)
    (hp : m.virtToPhys virt = .ok phys) (hoff : off < needed * 4096) :
    m.virtToPhys (virt + UInt64.ofNat off) = .ok (phys + UInt64.ofNat off) := by
  have hsmall : (UInt64.ofNat (off % 4096)).toNat = off % 4096 :=
    UInt64.toNat_ofNat_of_lt' (by simp only [UInt64.size]; omega)
  have hsum : UInt64.ofNat (off / 4096 * 4096) + UInt64.ofNat (off % 4096) = UInt64.ofNat off := by
    rw [← UInt64.ofNat_add]
    congr 1
    omega
  -- the page of the byte, then the byte in its page
  obtain ⟨k, rfl⟩ : ∃ k, needed = k + 1 := ⟨needed - 1, by omega⟩
  have hpage := isRun_neighbours halign hroom hrun hp (off / 4096) (by omega)
  have hpageNat := toNat_add_ofNat (v := virt) (n := off / 4096 * 4096) (by omega)
  have hbyte := virtToPhys_offset (r := UInt64.ofNat (off % 4096)) (by omega) (by omega) hpage
  rw [UInt64.add_assoc, UInt64.add_assoc, hsum] at hbyte
  exact hbyte

theorem findContiguousPages_spec {m : Mmu} {needed : Nat} {base virt : UInt64} (halign : base.toNat % 4096 = 0)
    (hroom : base.toNat + 6 * 4096 ≤ 2 ^ 64) (h : findContiguousPages m needed base = .ok (some virt)) :
    base.toNat ≤ virt.toNat ∧ virt.toNat + needed * 4096 ≤ base.toNat + 6 * 4096 ∧ virt.toNat % 4096 = 0 ∧
      isRun m virt (needed - 1) = .ok true := by
  unfold findContiguousPages at h
  split at h
  · cases h
  · rename_i hneeded
    obtain ⟨i, hi, rfl, hrun⟩ := findRun_spec h
    have hvirt := toNat_add_ofNat (v := base) (n := i * 4096) (by omega)
    exact ⟨by omega, by omega, by omega, hrun⟩

theorem placePages_spec {m : Mmu} {needed : Nat} {buf virt : UInt64} {pfn : UInt32}
    (h : placePages m needed buf = .ok (some (virt, pfn))) :
    ∃ phys, findContiguousPages m needed buf = .ok (some virt) ∧ m.virtToPhys virt = .ok phys ∧
    pfn = (phys >>> 12).toUInt32 := by
  unfold placePages at h
  split at h
  · cases h
  · cases hfind : findContiguousPages m needed buf with
    | error e => simp only [hfind, bind, Except.bind] at h; cases h
    | ok found =>
      cases found with
      | none => simp only [hfind, bind, Except.bind] at h; cases h
      | some v =>
        simp only [hfind, bind, Except.bind] at h
        cases hp : m.virtToPhys v with
        | error e => rw [hp] at h; cases h
        | ok phys =>
          rw [hp] at h
          cases h
          exact ⟨phys, rfl, hp, rfl⟩

/-- The card multiplies the page frame number it was given by the page size. Where no physical address
needs more than the 32 bits of the register, it then finds each byte of a queue that `try_init` has placed at
the address to which the driver's own address of that byte translates; and the pages are among the six. -/
theorem card_finds_queue (m : Mmu) (qSize : Nat) (buf virt : UInt64) (pfn : UInt32)
    (halign : buf.toNat % 4096 = 0) (hroom : buf.toNat + 6 * 4096 ≤ 2 ^ 64)
    (hphys : ∀ v p, m.virtToPhys v = .ok p → p.toNat < 2 ^ 44)
    (h : placeQueue m qSize buf = .ok (some (virt, pfn))) :
    buf.toNat ≤ virt.toNat ∧ virt.toNat + vqPagesNeeded qSize * 4096 ≤ buf.toNat + 6 * 4096 ∧
      ∀ off < vqPagesNeeded qSize * 4096,
        m.virtToPhys (virt + UInt64.ofNat off) = .ok (pfn.toUInt64 * 4096 + UInt64.ofNat off) := by
  unfold placeQueue at h
  split at h
  · cases h
  · obtain ⟨phys, hfind, hp, rfl⟩ := placePages_spec h
    obtain ⟨hle, hfits, hvalign, hrun⟩ := findContiguousPages_spec halign hroom hfind
    refine ⟨hle, hfits, fun off hoff => ?_⟩
    rw [pfn_mul (virtToPhys_aligned hvalign hp) (hphys _ _ hp)]
    exact isRun_translates hvalign (Nat.le_trans hfits hroom) hrun hp hoff

/-- One huge page maps the lowest gigabyte, over and over. -/
def flat : Mmu := ⟨fun _ => 0x83, 0⟩

theorem flat_virtToPhys (v : UInt64) : flat.virtToPhys v = .ok (v &&& 0x3FFFFFFF) := by
  have hpresent : ¬ (0x83 : UInt64) &&& 1 = 0 := by decide
  have hhuge : (0x83 : UInt64) &&& HUGE ≠ 0 := by decide
  have hframe : (0x83 : UInt64) &&& FRAME_1G = 0 := by decide
  simp [Mmu.virtToPhys, Mmu.readPhysU64, flat, hpresent, hhuge, hframe]

/-- A queue of 256 takes the first three pages of its buffer. -/
theorem card_finds_queue_flat : flat.virtToPhys (0x100000 + UInt64.ofNat 8195) =
    .ok ((0x100 : UInt32).toUInt64 * 4096 + UInt64.ofNat 8195) := by
  refine (card_finds_queue flat 256 0x100000 0x100000 0x100 (by decide +kernel) (by decide +kernel)
    (fun v p hp => ?_)
    (by decide +kernel)).2.2 8195 (by decide +kernel)
  rw [flat_virtToPhys] at hp
  cases hp
  have hle : v.toNat &&& (0x3FFFFFFF : UInt64).toNat ≤ (0x3FFFFFFF : UInt64).toNat := Nat.and_le_right
  rw [UInt64.toNat_and]
  exact Nat.lt_of_le_of_lt hle (by decide)

end WasmOs.VirtioNet
