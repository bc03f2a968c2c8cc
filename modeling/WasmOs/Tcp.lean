import WasmOs.Bytes

/-!
# TCP sockets

The socket of `tcp.rs`: its nine states, what one incoming segment does in each of them, and how
the application takes the received bytes out. Sequence numbers are `u32` and wrap.
-/

namespace WasmOs.Net

def MAX_TCP_PAYLOAD : Nat := 1460

def TCP_FIN : UInt8 := 0x01
def TCP_SYN : UInt8 := 0x02
def TCP_RST : UInt8 := 0x04
def TCP_PSH : UInt8 := 0x08
def TCP_ACK : UInt8 := 0x10

structure IpAddr where
  a : UInt8
  b : UInt8
  c : UInt8
  d : UInt8
  deriving DecidableEq, Repr

def IpAddr.default : IpAddr := ⟨0, 0, 0, 0⟩

structure Mac where
  a : UInt8
  b : UInt8
  c : UInt8
  d : UInt8
  e : UInt8
  f : UInt8
  deriving DecidableEq, Repr

def Mac.zero : Mac := ⟨0, 0, 0, 0, 0, 0⟩

def Mac.broadcast : Mac := ⟨0xFF, 0xFF, 0xFF, 0xFF, 0xFF, 0xFF⟩

inductive TcpState where
  | closed
  | listen
  | synSent
  | synRecv
  | established
  | finWait1
  | finWait2
  | closeWait
  | closing
  deriving DecidableEq, Repr

/-! ## Segments -/

structure TcpPacket where
  srcPort : UInt16
  dstPort : UInt16
  seq : UInt32
  ackNo : UInt32
  flags : UInt8
  payload : List UInt8
  deriving DecidableEq, Repr

def TcpPacket.syn (p : TcpPacket) : Bool := p.flags &&& TCP_SYN != 0
def TcpPacket.ack (p : TcpPacket) : Bool := p.flags &&& TCP_ACK != 0
def TcpPacket.fin (p : TcpPacket) : Bool := p.flags &&& TCP_FIN != 0
def TcpPacket.rst (p : TcpPacket) : Bool := p.flags &&& TCP_RST != 0

structure TcpReply where
  flags : UInt8
  seq : UInt32
  ack : UInt32
  deriving DecidableEq, Repr

/-! ## Sockets -/

/-- A socket; the receive buffer never holds more than its array. -/
structure TcpSocket where
  localPort : UInt16
  remotePort : UInt16
  remoteIp : IpAddr
  state : TcpState
  seq : UInt32
  ack : UInt32
  lastSeq : UInt32
  lastAck : UInt32
  recvBuf : Nat → UInt8
  recvLen : Nat
  recvLen_le : recvLen ≤ MAX_TCP_PAYLOAD

namespace TcpSocket

def listen (port : UInt16) : TcpSocket where
  localPort := port
  remotePort := 0
  remoteIp := .default
  state := .listen
  seq := 1
  ack := 0
  lastSeq := 0
  lastAck := 0
  recvBuf := fun _ => 0
  recvLen := 0
  recvLen_le := Nat.zero_le _

def connect (localPort : UInt16) : TcpSocket :=
  { listen localPort with state := .synSent, seq := 1000 }

/-- The bytes that wait for `recv`. -/
def pending (s : TcpSocket) : List UInt8 := slice s.recvBuf 0 s.recvLen

/-- The part of a payload that still fits is appended to the receive buffer. -/
def store (s : TcpSocket) (payload : List UInt8) : TcpSocket :=
  let n := min payload.length (MAX_TCP_PAYLOAD - s.recvLen)
  { s with
    recvBuf := blit s.recvBuf s.recvLen (payload.take n)
    recvLen := s.recvLen + n
    recvLen_le := by have := s.recvLen_le; omega }

/-- The state machine after `last_seq` and `last_ack` are noted and a reset is ruled out. -/
def handleState (s : TcpSocket) (pkt : TcpPacket) (src : IpAddr) : TcpSocket × Option TcpReply :=
  match s.state with
  | .listen =>
    if pkt.syn && !pkt.ack then
      let s := { s with remoteIp := src, remotePort := pkt.srcPort, ack := pkt.seq + 1, state := .synRecv }
      (s, some ⟨TCP_SYN ||| TCP_ACK, s.seq, s.ack⟩)
    else (s, none)
  | .synSent =>
    if pkt.syn && pkt.ack then
      let s := { s with seq := pkt.ackNo, ack := pkt.seq + 1, state := .established }
      (s, some ⟨TCP_ACK, s.seq, s.ack⟩)
    else if pkt.syn then
      let s := { s with remoteIp := src, remotePort := pkt.srcPort, ack := pkt.seq + 1, state := .synRecv }
      (s, some ⟨TCP_SYN ||| TCP_ACK, s.seq, s.ack⟩)
    else (s, none)
  | .synRecv =>
    if pkt.ack then ({ s with seq := s.seq + 1, state := .established }, none)
    else (s, none)
  | .established =>
    if pkt.fin then
      let s := { s with ack := pkt.seq + 1, state := .closeWait }
      (s, some ⟨TCP_ACK, s.seq, s.ack⟩)
    else if !pkt.payload.isEmpty then
      let s := { s.store pkt.payload with ack := pkt.seq + UInt32.ofNat pkt.payload.length }
      (s, some ⟨TCP_ACK, s.seq, s.ack⟩)
    else (s, none)
  | .finWait1 =>
    if pkt.fin && pkt.ack then
      let s := { s with ack := pkt.seq + 1, state := .closed }
      (s, some ⟨TCP_ACK, s.seq, s.ack⟩)
    else if pkt.fin then
      let s := { s with ack := pkt.seq + 1, state := .closing }
      (s, some ⟨TCP_ACK, s.seq, s.ack⟩)
    else if pkt.ack then ({ s with state := .finWait2 }, none)
    else (s, none)
  | .finWait2 =>
    if pkt.fin then
      let s := { s with ack := pkt.seq + 1, state := .closed }
      (s, some ⟨TCP_ACK, s.seq, s.ack⟩)
    else (s, none)
  | .closing =>
    if pkt.ack then ({ s with state := .closed }, none)
    else (s, none)
  | .closed | .closeWait => (s, none)

def handlePkt (s : TcpSocket) (pkt : TcpPacket) (src : IpAddr) : TcpSocket × Option TcpReply :=
  let s := { s with lastSeq := pkt.seq, lastAck := pkt.ackNo }
  -- RST always closes the connection.
  if pkt.rst then ({ s with state := .closed }, none)
  else s.handleState pkt src

/-- `recv` into a buffer of `cap` bytes: `none` when nothing waits, else what the buffer receives. -/
def recv (s : TcpSocket) (cap : Nat) : Option (TcpSocket × List UInt8) :=
  if s.recvLen = 0 then none
  else
    let n := min s.recvLen cap
    some ({ s with recvLen := 0, recvLen_le := Nat.zero_le _ }, slice s.recvBuf 0 n)

end TcpSocket

/-! ## What a segment does to a socket -/

/-- The state after a segment depends on the state before it and on the flags alone. -/
def TcpState.next (q : TcpState) (pkt : TcpPacket) : TcpState :=
  if pkt.rst then .closed
  else
    match q with
    | .listen => if pkt.syn && !pkt.ack then .synRecv else .listen
    | .synSent => if pkt.syn then if pkt.ack then .established else .synRecv else .synSent
    | .synRecv => if pkt.ack then .established else .synRecv
    | .established => if pkt.fin then .closeWait else .established
    | .finWait1 =>
      if pkt.fin then if pkt.ack then .closed else .closing
      else if pkt.ack then .finWait2 else .finWait1
    | .finWait2 => if pkt.fin then .closed else .finWait2
    | .closing => if pkt.ack then .closed else .closing
    | .closed => .closed
    | .closeWait => .closeWait

namespace TcpSocket

variable (s : TcpSocket) (pkt : TcpPacket) (src : IpAddr)

theorem handlePkt_state : (s.handlePkt pkt src).1.state = s.state.next pkt := by
  unfold handlePkt TcpState.next handleState
  cases hr : pkt.rst
  · cases hq : s.state <;> cases hs : pkt.syn <;> cases ha : pkt.ack <;> cases hf : pkt.fin <;>
      cases hp : pkt.payload.isEmpty <;> simp [store]
  · simp

theorem handlePkt_localPort : (s.handlePkt pkt src).1.localPort = s.localPort := by
  unfold handlePkt handleState
  cases hr : pkt.rst
  · cases hq : s.state <;> simp only [Bool.false_eq_true, if_false] <;> (repeat' split) <;> rfl
  · simp

@[simp] theorem pending_length : s.pending.length = s.recvLen := by simp [pending]

theorem store_pending (payload : List UInt8) :
    (s.store payload).pending = s.pending ++ payload.take (MAX_TCP_PAYLOAD - s.recvLen) := by
  have hlen : (payload.take (min payload.length (MAX_TCP_PAYLOAD - s.recvLen))).length =
      min payload.length (MAX_TCP_PAYLOAD - s.recvLen) := by
    rw [List.length_take]
    omega
  have htake : payload.take (min payload.length (MAX_TCP_PAYLOAD - s.recvLen)) =
      payload.take (MAX_TCP_PAYLOAD - s.recvLen) := by
    rw [← List.take_take]
    exact List.take_of_length_le (List.length_take_le' _ _)
  have hblit := slice_blit_end s.recvBuf s.recvLen (payload.take (min payload.length (MAX_TCP_PAYLOAD - s.recvLen)))
  rw [hlen] at hblit
  rw [← htake]
  exact hblit

/-- Only an established socket stores bytes, and a reset or a FIN brings it none. -/
theorem handlePkt_pending :
    (s.handlePkt pkt src).1.pending =
      if s.state = .established ∧ !pkt.rst ∧ !pkt.fin then
        s.pending ++ pkt.payload.take (MAX_TCP_PAYLOAD - s.recvLen)
      else s.pending := by
  by_cases h : s.state = .established ∧ !pkt.rst ∧ !pkt.fin
  · obtain ⟨hq, hr, hf⟩ := h
    simp only [Bool.not_eq_eq_eq_not, Bool.not_true] at hr hf
    rw [if_pos (by simp [hq, hr, hf])]
    cases hp : pkt.payload with
    | nil => simp [handlePkt, handleState, hq, hr, hf, hp, pending]
    | cons b bs =>
      have := s.store_pending (b :: bs)
      simp only [handlePkt, handleState, hq, hr, hf, hp]
      exact this
  · rw [if_neg h]
    unfold handlePkt handleState
    cases hr : pkt.rst
    · cases hq : s.state
      case established =>
        have hf : pkt.fin = true := by
          by_contra hf
          exact h (by simp [hq, hr, hf])
        simp [hf, pending]
      all_goals
        simp only [Bool.false_eq_true, if_false]
        repeat' split
        all_goals rfl
    · rfl

section
variable {s pkt}

/-- Apart from the data of an established connection, whatever a segment changes changes the state, or
is one of the two numbers noted. -/
theorem handlePkt_of_next (hq : s.state.next pkt = s.state) (hp : s.state = .established → pkt.payload = []) :
    s.handlePkt pkt src = ({ s with lastSeq := pkt.seq, lastAck := pkt.ackNo }, none) := by
  unfold TcpState.next at hq
  unfold handlePkt handleState
  cases hr : pkt.rst
  · cases hs : s.state <;> simp only [hr, hs, Bool.false_eq_true, if_false] at hq hp ⊢
    case listen => split at hq <;> simp_all
    case synSent => cases hsyn : pkt.syn <;> cases hack : pkt.ack <;> simp_all
    case synRecv => split at hq <;> simp_all
    case established => cases hfin : pkt.fin <;> simp_all
    case finWait1 => cases hfin : pkt.fin <;> cases hack : pkt.ack <;> simp_all
    case finWait2 => split at hq <;> simp_all
    case closing => split at hq <;> simp_all
  · simp only [hr, if_true] at hq
    simp [hq]

theorem handlePkt_data (hq : s.state.next pkt = s.state) (he : s.state = .established) (hp : pkt.payload ≠ []) :
    s.handlePkt pkt src =
      ({ store { s with lastSeq := pkt.seq, lastAck := pkt.ackNo } pkt.payload with
          ack := pkt.seq + UInt32.ofNat pkt.payload.length },
        some ⟨TCP_ACK, s.seq, pkt.seq + UInt32.ofNat pkt.payload.length⟩) := by
  have hr : pkt.rst = false := by
    cases hr : pkt.rst
    · rfl
    · simp [TcpState.next, hr, he] at hq
  have hf : pkt.fin = false := by
    cases hf : pkt.fin
    · rfl
    · simp [TcpState.next, hr, he, hf] at hq
  have hne : pkt.payload.isEmpty = false := by simpa using hp
  simp [handlePkt, handleState, hr, hf, he, hne, store]

end

end TcpSocket

end WasmOs.Net
