import WasmOs.Block

/-!
# The virtio block driver

`VirtioBlk` of `drivers/virtio_blk.rs` and the device behind it, over the memory they share: the
descriptor table, the two rings and the three static buffers. The driver runs one store or one poll at a
time and the device works in between. The device takes the chains in the order they were submitted, may
work on several at once, and completes them in order; when it reads the request header, the data or the
disk is left open.
-/

namespace WasmOs.Virtio

open Fs

def VRING_DESC_F_NEXT : UInt16 := 0x0001
def VRING_DESC_F_WRITE : UInt16 := 0x0002

def BLK_T_IN : UInt32 := 0
def BLK_T_OUT : UInt32 := 1

def BLK_S_OK : UInt8 := 0

/-- The polls after which the driver gives up. -/
def SPINS : Nat := 100000000

abbrev Sector := Vector UInt8 BLOCK_SIZE

/-! ## Shared memory -/

inductive Buf where
  | hdr
  | data
  | status
  deriving DecidableEq, Repr

structure Desc where
  addr : Option Buf
  len : Nat
  flags : UInt16
  next : UInt16
  deriving DecidableEq, Repr

/-- The virtqueue, `REQ_HDR`, `REQ_DATA` and `REQ_STATUS`. -/
structure Mem where
  desc : Nat → Desc
  availRing : Nat → UInt16
  availIdx : UInt16
  usedIdx : UInt16
  reqType : UInt32
  reserved : UInt32
  sector : UInt64
  reqData : Sector
  reqStatus : UInt8

def Mem.zeroed : Mem where
  desc _ := ⟨none, 0, 0, 0⟩
  availRing _ := 0
  availIdx := 0
  usedIdx := 0
  reqType := 0
  reserved := 0
  sector := 0
  reqData := Vector.replicate BLOCK_SIZE 0
  reqStatus := 0xFF

inductive Store where
  | reqType (v : UInt32)
  | reserved (v : UInt32)
  | sector (v : UInt64)
  | reqData (v : Sector)
  | desc (idx : Nat) (d : Desc)
  | reqStatus (v : UInt8)
  /-- the chain head, index 0, goes into the available ring -/
  | availRing (slot : Nat)

def Mem.store (m : Mem) : Store → Mem
  | .reqType v => { m with reqType := v }
  | .reserved v => { m with reserved := v }
  | .sector v => { m with sector := v }
  | .reqData v => { m with reqData := v }
  | .desc idx d => { m with desc := upd m.desc idx d }
  | .reqStatus v => { m with reqStatus := v }
  | .availRing slot => { m with availRing := upd m.availRing slot 0 }

/-! ## The driver -/

inductive Op where
  | read (lba : UInt32)
  | write (lba : UInt32) (data : Sector)

/-- `do_request` up to the memory barrier. -/
def doRequest (qSize : Nat) (availIdx : UInt16) (dataWrite : Bool) : List Store :=
  let qMask := UInt16.ofNat (qSize - 1)
  let dataFlags := VRING_DESC_F_NEXT ||| if dataWrite then VRING_DESC_F_WRITE else 0
  [.desc 0 ⟨some .hdr, 16, VRING_DESC_F_NEXT, 1⟩,
    .desc 1 ⟨some .data, BLOCK_SIZE, dataFlags, 2⟩,
    .desc 2 ⟨some .status, 1, VRING_DESC_F_WRITE, 0⟩,
    .reqStatus 0xFF,
    .availRing (availIdx &&& qMask).toNat]

/-- `read_block` and `write_block`. -/
def Op.stores (qSize : Nat) (availIdx : UInt16) : Op → List Store
  | .read lba => [.reqType BLK_T_IN, .reserved 0, .sector lba.toUInt64] ++ doRequest qSize availIdx true
  | .write lba data =>
    [.reqType BLK_T_OUT, .reserved 0, .sector lba.toUInt64, .reqData data] ++ doRequest qSize availIdx false

inductive Pc where
  | idle
  | storing (op : Op) (rest : List Store)
  | waiting (op : Op) (spins : Nat)
  | checking (op : Op)
  | copying (op : Op)

/-! ## The device -/

structure Req where
  reqType : UInt32
  sector : UInt64
  writable : Bool
  deriving DecidableEq, Repr

def Mem.fetch (m : Mem) (head : UInt16) : Req where
  reqType := m.reqType
  sector := m.sector
  writable := (m.desc (m.desc head.toNat).next.toNat).flags &&& VRING_DESC_F_WRITE != 0

inductive Job where
  | fetched (r : Req)
  | loaded (r : Req) (b : Sector)
  | finished (status : UInt8)
  | replied

/-- How a call ended, with the disks and the writes the device made since it began, and the chains
submitted and completed by then. -/
structure Answer where
  op : Op
  ok : Bool
  buf : Sector
  seen : List (UInt64 → Sector)
  performed : List (UInt64 × Sector)
  submitted : Nat
  completed : Nat

structure St where
  mem : Mem
  lastUsed : UInt16
  pc : Pc
  disk : UInt64 → Sector
  jobs : List Job
  submitted : Nat
  completed : Nat
  seen : List (UInt64 → Sector)
  performed : List (UInt64 × Sector)
  log : List Answer

/-- After `try_init`. -/
def St.init (disk : UInt64 → Sector) : St := ⟨.zeroed, 0, .idle, disk, [], 0, 0, [], [], []⟩

namespace St

/-- The call returns; a successful read copies `REQ_DATA` out. -/
def answer (s : St) (op : Op) (ok : Bool) : St :=
  { s with pc := .idle, log := ⟨op, ok, s.mem.reqData, s.seen, s.performed, s.submitted, s.completed⟩ :: s.log }

def driver (s : St) : Except Unit St :=
  match s.pc with
  | .idle => .error ()
  | .storing op (w :: rest) => .ok { s with mem := s.mem.store w, pc := .storing op rest }
  | .storing op [] =>
    .ok { s with mem := { s.mem with availIdx := s.mem.availIdx + 1 }, submitted := s.submitted + 1,
                 pc := .waiting op 0 }
  | .waiting op spins =>
    if s.mem.usedIdx = s.lastUsed + 1 then .ok { s with lastUsed := s.lastUsed + 1, pc := .checking op }
    else if spins + 1 = SPINS then .ok (s.answer op false)
    else .ok { s with pc := .waiting op (spins + 1) }
  | .checking op =>
    if s.mem.reqStatus ≠ BLK_S_OK then .ok (s.answer op false)
    else .ok { s with pc := .copying op }
  | .copying op => .ok (s.answer op true)

/-- The device works on job `i`: it takes the data from where it is, then brings it to where it goes. -/
def work (s : St) (i : Nat) : Except Unit St :=
  match s.jobs[i]? with
  | some (.fetched r) =>
    if r.reqType = BLK_T_IN ∧ r.writable then .ok { s with jobs := s.jobs.set i (.loaded r (s.disk r.sector)) }
    else if r.reqType = BLK_T_OUT ∧ !r.writable then .ok { s with jobs := s.jobs.set i (.loaded r s.mem.reqData) }
    else .error ()
  | some (.loaded r b) =>
    if r.reqType = BLK_T_IN then
      .ok { s with jobs := s.jobs.set i (.finished BLK_S_OK), mem := { s.mem with reqData := b } }
    else
      let disk := fun n => if n = r.sector then b else s.disk n
      .ok { s with
        jobs := s.jobs.set i (.finished BLK_S_OK), disk := disk, seen := disk :: s.seen,
        performed := (r.sector, b) :: s.performed }
  | _ => .error ()

/-- The device gives a request up. -/
def fail (s : St) (i : Nat) (status : UInt8) : Except Unit St :=
  if status = BLK_S_OK then .error ()
  else
    match s.jobs[i]? with
    | some (.fetched _) => .ok { s with jobs := s.jobs.set i (.finished status) }
    | some (.loaded _ _) => .ok { s with jobs := s.jobs.set i (.finished status) }
    | _ => .error ()

end St

inductive Event where
  | call (op : Op)
  | driver
  | fetch
  | work (i : Nat)
  | fail (i : Nat) (status : UInt8)
  | reply
  | complete

/-- `.error ()` where the event cannot happen. -/
def step (qSize : Nat) (s : St) : Event → Except Unit St
  | .call op =>
    match s.pc with
    | .idle => .ok { s with pc := .storing op (op.stores qSize s.mem.availIdx), seen := [s.disk], performed := [] }
    | _ => .error ()
  | .driver => s.driver
  | .fetch =>
    let chain := s.completed + s.jobs.length
    if chain < s.submitted then
        .ok { s with jobs := s.jobs ++ [.fetched (s.mem.fetch (s.mem.availRing (chain % qSize)))] }
    else .error ()
  | .work i => s.work i
  | .fail i status => s.fail i status
  | .reply =>
    match s.jobs with
    | .finished status :: rest => .ok { s with mem := { s.mem with reqStatus := status }, jobs := .replied :: rest }
    | _ => .error ()
  | .complete =>
    match s.jobs with
    | .replied :: rest =>
      .ok { s with mem := { s.mem with usedIdx := s.mem.usedIdx + 1 }, completed := s.completed + 1, jobs := rest }
    | _ => .error ()

end WasmOs.Virtio
