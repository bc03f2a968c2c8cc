import WasmOs.Bytes

/-!
# The virtio network driver

`VirtioNet` of `drivers/virtio_net.rs` and the card behind it, over the memory they share: two virtqueues,
the transmit buffers and the one receive buffer. The driver makes one store or one poll at a time and the
card works in between. The card takes chains in the order they were posted and hands them back in that
order; when it reads a frame, and what it does to the receive buffer before a frame is complete, is open.
-/

namespace WasmOs.VirtioNet

def VRING_DESC_F_NEXT : UInt16 := 0x0001
def VRING_DESC_F_WRITE : UInt16 := 0x0002

def NET_HDR_SIZE : Nat := 10

def ETH_FRAME_SIZE : Nat := 1514
def ETH_HDR_SIZE : Nat := 14

def RX_BUF_SIZE : Nat := NET_HDR_SIZE + ETH_FRAME_SIZE

/-- The polls after which `wait_for_used` gives up. -/
def SPINS : Nat := 100000000

/-- A queue size as a card reports it: a power of two that fits the 16 bits of the register, with room for
the two descriptors of a frame to send. -/
structure QSize where
  val : Nat
  isPow : ∃ k, 1 ≤ k ∧ k ≤ 15 ∧ val = 2 ^ k

/-- `(self.q_size - 1) as u16` -/
def QSize.mask (q : QSize) : UInt16 := UInt16.ofNat (q.val - 1)

/-! ## Virtqueues -/

inductive Buf where
  | txHdr
  | txBuf
  | rxBuf
  deriving DecidableEq, Repr

structure Desc where
  addr : Option Buf
  len : Nat
  flags : UInt16
  next : UInt16
  deriving DecidableEq, Repr

structure UsedElem where
  id : UInt32
  len : UInt32
  deriving DecidableEq, Repr

structure Vq where
  desc : Nat → Desc
  availRing : Nat → UInt16
  availIdx : UInt16
  usedRing : Nat → UsedElem
  usedIdx : UInt16

/-- The stores that put a chain into a queue, before it is published. -/
inductive Store where
  | desc (idx : Nat) (d : Desc)
  /-- the chain head, index 0, goes into the available ring -/
  | availRing (slot : Nat)
  deriving DecidableEq, Repr

namespace Vq

def zeroed : Vq where
  desc _ := ⟨none, 0, 0, 0⟩
  availRing _ := 0
  availIdx := 0
  usedRing _ := ⟨0, 0⟩
  usedIdx := 0

def store (vq : Vq) : Store → Vq
  | .desc idx d => { vq with desc := upd vq.desc idx d }
  | .availRing slot => { vq with availRing := upd vq.availRing slot 0 }

def publish (vq : Vq) : Vq := { vq with availIdx := vq.availIdx + 1 }

/-- The chain whose head is `idx`, as far as `fuel` descriptors. -/
def chain (vq : Vq) : Nat → UInt16 → List Desc
  | 0, _ => []
  | fuel + 1, idx =>
    let d := vq.desc idx.toNat
    d :: if d.flags &&& VRING_DESC_F_NEXT != 0 then vq.chain fuel d.next else []

/-- The card's entry for a chain it is done with. -/
def putUsed (vq : Vq) (q : QSize) (e : UsedElem) :
    Vq := { vq with usedRing := upd vq.usedRing (vq.usedIdx.toNat % q.val) e }

def complete (vq : Vq) : Vq := { vq with usedIdx := vq.usedIdx + 1 }

end Vq

/-! ## Sending -/

inductive TxJob where
  | taken (head : UInt16) (chain : List Desc)
  | done (head : UInt16)
  deriving DecidableEq, Repr

/-- Where `net_send` is. -/
inductive TxPc where
  | filling (frame : List UInt8)
  | posting (frame : List UInt8) (rest : List Store)
  | waiting (frame : List UInt8) (spins : Nat)
  deriving DecidableEq, Repr

/-- The transmit queue and the card's place in it. `consumed` are the frames the card has read, `sent` those
whose `net_send` returned `Ok`, `timeouts` counts the calls that gave up. -/
structure Tx where
  vq : Vq
  hdr : Nat → UInt8
  buf : Nat → UInt8
  lastUsed : UInt16
  lastAvail : UInt16
  jobs : List TxJob
  consumed : List (List UInt8)
  sent : List (List UInt8)
  timeouts : Nat

namespace Tx

def init : Tx := ⟨.zeroed, fun _ => 0, fun _ => 0, 0, 0, [], [], [], 0⟩

/-- `do_tx` up to the memory barrier. -/
def doTx (q : QSize) (availIdx : UInt16) (len : Nat) : List Store :=
  [.desc 0 ⟨some .txHdr, NET_HDR_SIZE, VRING_DESC_F_NEXT, 1⟩,
    .desc 1 ⟨some .txBuf, len, 0, 0⟩,
    .availRing (availIdx &&& q.mask).toNat]

/-- One step of `net_send`; `none` where it returns. -/
def driver (q : QSize) (t : Tx) : TxPc → Tx × Option TxPc
  | .filling frame =>
    ({ t with buf := blit t.buf 0 frame }, some (.posting frame (doTx q t.vq.availIdx frame.length)))
  | .posting frame (w :: rest) => ({ t with vq := t.vq.store w }, some (.posting frame rest))
  | .posting frame [] => ({ t with vq := t.vq.publish }, some (.waiting frame 0))
  | .waiting frame spins =>
    if t.vq.usedIdx = t.lastUsed + 1 then ({ t with lastUsed := t.lastUsed + 1, sent := t.sent ++ [frame] }, none)
    else if spins + 1 = SPINS then ({ t with timeouts := t.timeouts + 1 }, none)
    else (t, some (.waiting frame (spins + 1)))

def take (q : QSize) (t : Tx) : Except Unit Tx :=
  if t.lastAvail = t.vq.availIdx then .error ()
  else
    let head := t.vq.availRing (t.lastAvail.toNat % q.val)
    .ok { t with lastAvail := t.lastAvail + 1, jobs := t.jobs ++ [.taken head (t.vq.chain q.val head)] }

def readDesc (t : Tx) (d : Desc) : Except Unit (List UInt8) :=
  if d.flags &&& VRING_DESC_F_WRITE != 0 then .error ()
  else
    match d.addr with
    | some .txHdr => .ok (slice t.hdr 0 d.len)
    | some .txBuf => .ok (slice t.buf 0 d.len)
    | _ => .error ()

/-- The card reads the chain of job `i`, the header first. -/
def read (t : Tx) (i : Nat) : Except Unit Tx :=
  match t.jobs[i]? with
  | some (.taken head ds) => do
    let parts ← ds.mapM t.readDesc
    .ok { t with jobs := t.jobs.set i (.done head), consumed := t.consumed ++ [parts.flatten.drop NET_HDR_SIZE] }
  | _ => .error ()

def complete (q : QSize) (t : Tx) : Except Unit Tx :=
  match t.jobs with
  | .done head :: rest => .ok { t with vq := (t.vq.putUsed q ⟨head.toUInt32, 0⟩).complete, jobs := rest }
  | _ => .error ()

end Tx

/-! ## Receiving -/

inductive RxJob where
  | taken (head : UInt16) (d : Desc)
  | filled (head : UInt16) (frame : List UInt8)
  deriving DecidableEq, Repr

/-- Where `net_recv` is. -/
inductive RxPc where
  | polling
  | measuring
  | copying (frameLen : Nat)
  | reposting (frame : List UInt8) (rest : List Store)
  deriving DecidableEq, Repr

/-- The receive queue and the card's place in it. `delivered` are the frames the card has completed, `received`
those that `net_recv` returned with a length above 0. -/
structure Rx where
  vq : Vq
  buf : Nat → UInt8
  lastUsed : UInt16
  lastAvail : UInt16
  job : Option RxJob
  delivered : List (List UInt8)
  received : List (List UInt8)

namespace Rx

def rxDesc : Desc := ⟨some .rxBuf, RX_BUF_SIZE, VRING_DESC_F_WRITE, 0⟩

/-- After `try_init`: one buffer is posted. -/
def init : Rx :=
  ⟨((Vq.zeroed.store (.desc 0 rxDesc)).store (.availRing 0)).publish, fun _ => 0, 0, 0, none, [], []⟩

/-- `do_rx` from where it recycles the buffer, up to the memory barrier. -/
def repost (q : QSize) (availIdx : UInt16) : List Store :=
  [.desc 0 rxDesc, .availRing (availIdx &&& q.mask).toNat]

/-- One step of `net_recv`; `none` where it returns. -/
def driver (q : QSize) (r : Rx) : RxPc → Rx × Option RxPc
  | .polling => if r.vq.usedIdx = r.lastUsed then (r, none) else (r, some .measuring)
  | .measuring =>
    let usedLen := (r.vq.usedRing (r.lastUsed &&& q.mask).toNat).len.toNat
    (r, some (.copying (min (usedLen - NET_HDR_SIZE) ETH_FRAME_SIZE)))
  | .copying frameLen =>
    ({ r with lastUsed := r.lastUsed + 1 },
      some (.reposting (slice r.buf NET_HDR_SIZE frameLen) (repost q r.vq.availIdx)))
  | .reposting frame (w :: rest) => ({ r with vq := r.vq.store w }, some (.reposting frame rest))
  | .reposting frame [] =>
    ({ r with vq := r.vq.publish,
              received := if frame.length = 0 then r.received else r.received ++ [frame] }, none)

def take (q : QSize) (r : Rx) : Except Unit Rx :=
  match r.job with
  | some _ => .error ()
  | none =>
    if r.lastAvail = r.vq.availIdx then .error ()
    else
      let head := r.vq.availRing (r.lastAvail.toNat % q.val)
      .ok { r with lastAvail := r.lastAvail + 1, job := some (.taken head (r.vq.desc head.toNat)) }

/-- The card may store `n` bytes from `i` on into the descriptor's buffer. -/
def Room (d : Desc) (i n : Nat) : Prop :=
  d.addr = some .rxBuf ∧ (d.flags &&& VRING_DESC_F_WRITE != 0) = true ∧ i + n ≤ d.len

instance (d : Desc) (i n : Nat) : Decidable (Room d i n) := inferInstanceAs (Decidable (_ ∧ _ ∧ _))

/-- Bytes of a frame that is not complete, or of one the card gives up. -/
def scribble (r : Rx) (i : Nat) (bytes : List UInt8) : Except Unit Rx :=
  match r.job with
  | some (.taken _ d) => if Room d i bytes.length then .ok { r with buf := blit r.buf i bytes } else .error ()
  | _ => .error ()

/-- A whole frame behind its header, and its entry in the used ring. -/
def deliver (q : QSize) (r : Rx) (hdr frame : List UInt8) : Except Unit Rx :=
  match r.job with
  | some (.taken head d) =>
    if hdr.length = NET_HDR_SIZE ∧ Room d 0 (hdr ++ frame).length then
      .ok { r with
        buf := blit r.buf 0 (hdr ++ frame)
        vq := r.vq.putUsed q ⟨head.toUInt32, UInt32.ofNat (hdr ++ frame).length⟩
        job := some (.filled head frame) }
    else .error ()
  | _ => .error ()

def complete (r : Rx) : Except Unit Rx :=
  match r.job with
  | some (.filled _ frame) => .ok { r with vq := r.vq.complete, job := none, delivered := r.delivered ++ [frame] }
  | _ => .error ()

end Rx

/-! ## Both queues -/

inductive Pc where
  | idle
  | tx (pc : TxPc)
  | rx (pc : RxPc)
  deriving DecidableEq, Repr

structure St where
  tx : Tx
  rx : Rx
  pc : Pc

def St.init : St := ⟨.init, .init, .idle⟩

inductive Event where
  | netSend (frame : List UInt8)
  /-- into a buffer of `cap` bytes -/
  | netRecv (cap : Nat)
  | driver
  | txTake
  | txRead (i : Nat)
  | txComplete
  | rxTake
  | rxScribble (i : Nat) (bytes : List UInt8)
  | rxDeliver (hdr frame : List UInt8)
  | rxComplete
  deriving DecidableEq, Repr

/-- `.error ()` where the event cannot happen. A call that the length check refuses returns at once. -/
def step (q : QSize) (s : St) : Event → Except Unit St
  | .netSend frame =>
    match s.pc with
    | .idle => .ok (if frame.length < ETH_HDR_SIZE ∨ ETH_FRAME_SIZE < frame.length then s else
      { s with pc := .tx (.filling frame) })
    | _ => .error ()
  | .netRecv cap =>
    match s.pc with
    | .idle => .ok (if cap < ETH_FRAME_SIZE then s else { s with pc := .rx .polling })
    | _ => .error ()
  | .driver =>
    match s.pc with
    | .idle => .error ()
    | .tx pc =>
      let (tx, pc) := s.tx.driver q pc
      .ok { s with tx := tx, pc := pc.elim .idle .tx }
    | .rx pc =>
      let (rx, pc) := s.rx.driver q pc
      .ok { s with rx := rx, pc := pc.elim .idle .rx }
  | .txTake => do .ok { s with tx := ← s.tx.take q }
  | .txRead i => do .ok { s with tx := ← s.tx.read i }
  | .txComplete => do .ok { s with tx := ← s.tx.complete q }
  | .rxTake => do .ok { s with rx := ← s.rx.take q }
  | .rxScribble i bytes => do .ok { s with rx := ← s.rx.scribble i bytes }
  | .rxDeliver hdr frame => do .ok { s with rx := ← s.rx.deliver q hdr frame }
  | .rxComplete => do .ok { s with rx := ← s.rx.complete }

end WasmOs.VirtioNet
