import WasmOs.Fault
import WasmOs.Runs
import WasmOs.Tcp

/-!
# The network stack's TCP side

`mod.rs` keeps the sockets in a table of `MAX_SOCKETS` slots. A segment goes to the first slot with
its two ports, else to a listener; the application reaches a socket by its slot number. What the stack
hands to the layers below is kept in `net`, in order.
-/

namespace WasmOs.Net

def MAX_SOCKETS : Nat := 8

def MAX_ARP_ENTRIES : Nat := 16

structure ArpCache where
  ips : Nat → IpAddr
  macs : Nat → Mac
  valid : Nat → Bool

def ArpCache.new : ArpCache := ⟨fun _ => .default, fun _ => .zero, fun _ => false⟩

def ArpCache.lookup (c : ArpCache) (ip : IpAddr) : Option Mac :=
  ((List.range MAX_ARP_ENTRIES).find? fun i => c.valid i && c.ips i == ip).map c.macs

/-- What goes down: a TCP segment for `send_tcp_seg` or an address for `send_arp_request`. -/
inductive Tx where
  | tcpSeg (lport rport : UInt16) (rip : IpAddr) (seq ack : UInt32) (flags : UInt8) (payload : List UInt8)
  | arpRequest (ip : IpAddr)
  deriving DecidableEq, Repr

structure NetworkStack where
  arp : ArpCache
  tcpSockets : Nat → Option TcpSocket
  net : List Tx

namespace NetworkStack

/-- The stack of `try_init`. -/
def init : NetworkStack := ⟨.new, fun _ => none, []⟩

def setSocket (st : NetworkStack) (i : Nat) (s : TcpSocket) : NetworkStack :=
  { st with tcpSockets := upd st.tcpSockets i (some s) }

def send (st : NetworkStack) (tx : Tx) : NetworkStack := { st with net := st.net ++ [tx] }

/-- The first slot whose socket satisfies `p`. -/
def position (st : NetworkStack) (p : Option TcpSocket → Bool) : Option Nat :=
  (List.range MAX_SOCKETS).find? fun i => p (st.tcpSockets i)

/-- `self.tcp_sockets[i]` -/
def socket (st : NetworkStack) (i : Nat) : Rust Unit (Option TcpSocket) :=
  if i < MAX_SOCKETS then .ok (st.tcpSockets i) else .error .panic

/-! ## Incoming segments -/

def findTcpSocket (st : NetworkStack) (localPort remotePort : UInt16) : Option Nat :=
  match st.position (·.any fun s => s.localPort == localPort && s.remotePort == remotePort) with
  | some i => some i
  | none => st.position (·.any fun s => s.localPort == localPort && s.state == .listen)

def handleTcp (st : NetworkStack) (src : IpAddr) (pkt : TcpPacket) : Rust Unit NetworkStack :=
  match st.findTcpSocket pkt.dstPort pkt.srcPort with
  | none => .ok st
  | some idx =>
    match st.tcpSockets idx with
    | none => .error .panic
    | some s =>
      let (s, reply) := s.handlePkt pkt src
      let st := st.setSocket idx s
      match reply with
      | none => .ok st
      | some r => .ok (st.send (.tcpSeg s.localPort s.remotePort s.remoteIp r.seq r.ack r.flags []))

/-! ## The application's calls -/

/-- The loop of `alloc_ephemeral_port`; a port is asked for again as long as a socket has it. -/
def ephemeralFrom (st : NetworkStack) : Nat → UInt16 → Rust Unit UInt16
  | 0, _ => .error .hang
  | fuel + 1, port =>
    match st.position (·.any fun s => s.localPort == port) with
    | some _ => st.ephemeralFrom fuel (port + 1)
    | none => .ok port

def allocEphemeralPort (st : NetworkStack) : Rust Unit UInt16 := st.ephemeralFrom 65536 49152

def tcpListen (st : NetworkStack) (port : UInt16) : NetworkStack × Option Nat :=
  match st.position Option.isNone with
  | some i => (st.setSocket i (.listen port), some i)
  | none => (st, none)

def tcpConnect (st : NetworkStack) (dstIp : IpAddr) (dstPort : UInt16) : Rust Unit (NetworkStack × Option Nat) := do
  let localPort ← st.allocEphemeralPort
  match st.position Option.isNone with
  | some i =>
    let s := { TcpSocket.connect localPort with remoteIp := dstIp, remotePort := dstPort }
    let st := st.setSocket i s
    if (st.arp.lookup dstIp).isSome then
      .ok (st.send (.tcpSeg localPort dstPort dstIp s.seq 0 TCP_SYN []), some i)
    else .ok (st.send (.arpRequest dstIp), some i)
  | none => .ok (st, none)

def tcpSend (st : NetworkStack) (i : Nat) (data : List UInt8) : Rust Unit (NetworkStack × Nat) := do
  match ← st.socket i with
  | none => .error (.err ())
  | some s =>
    if s.state ≠ .established then .error (.err ())
    else
      let n := min data.length MAX_TCP_PAYLOAD
      let st :=
        st.send (.tcpSeg s.localPort s.remotePort s.remoteIp s.seq s.ack (TCP_PSH ||| TCP_ACK) (data.take n))
      .ok (st.setSocket i { s with seq := s.seq + UInt32.ofNat n }, n)

/-- `tcp_recv` with a buffer of `cap` bytes, and what the buffer receives. -/
def tcpRecv (st : NetworkStack) (i cap : Nat) : Rust Unit (NetworkStack × List UInt8) := do
  match ← st.socket i with
  | none => .error (.err ())
  | some s =>
    match s.recv cap with
    | none => .error (.err ())
    | some (s, bytes) => .ok (st.setSocket i s, bytes)

def tcpAccept (st : NetworkStack) (i : Nat) : Rust Unit (NetworkStack × Option Nat) := do
  match ← st.socket i with
  | none => .ok (st, none)
  | some s =>
    if s.state ≠ .established then .ok (st, none)
    else
      match st.position Option.isNone with
      | none => .ok (st, none)
      | some free => .ok ((st.setSocket free s).setSocket i (.listen s.localPort), some free)

def tcpClose (st : NetworkStack) (i : Nat) : Rust Unit NetworkStack := do
  match ← st.socket i with
  | none => .error (.err ())
  | some s =>
    match s.state with
    | .established | .closeWait =>
      let st := st.setSocket i { s with state := .finWait1 }
      .ok (st.send (.tcpSeg s.localPort s.remotePort s.remoteIp s.seq s.ack (TCP_FIN ||| TCP_ACK) []))
    | _ => .error (.err ())

end NetworkStack

/-! ## Runs -/

inductive NetOp where
  | segment (src : IpAddr) (pkt : TcpPacket)
  | listen (port : UInt16)
  | connect (dstIp : IpAddr) (dstPort : UInt16)
  | send (i : Nat) (data : List UInt8)
  | recv (i cap : Nat)
  | accept (i : Nat)
  | close (i : Nat)
  deriving DecidableEq, Repr

/-- A call that answers `Err(())` leaves the stack as it is. -/
def orKeep (st : NetworkStack) : Rust Unit NetworkStack → Rust Unit NetworkStack
  | .error (.err _) => .ok st
  | r => r

def NetworkStack.step (st : NetworkStack) : NetOp → Rust Unit NetworkStack
  | .segment src pkt => st.handleTcp src pkt
  | .listen port => .ok (st.tcpListen port).1
  | .connect dstIp dstPort => (st.tcpConnect dstIp dstPort).map Prod.fst
  | .send i data => orKeep st ((st.tcpSend i data).map Prod.fst)
  | .recv i cap => orKeep st ((st.tcpRecv i cap).map Prod.fst)
  | .accept i => (st.tcpAccept i).map Prod.fst
  | .close i => orKeep st (st.tcpClose i)

/-! ## What an operation does to the table -/

namespace NetworkStack

@[simp] theorem setSocket_tcpSockets (st : NetworkStack) (i : Nat) (s : TcpSocket) :
    (st.setSocket i s).tcpSockets = upd st.tcpSockets i (some s) := rfl

@[simp] theorem send_tcpSockets (st : NetworkStack) (tx : Tx) : (st.send tx).tcpSockets = st.tcpSockets := rfl

variable {st st' : NetworkStack}

theorem position_eq_some {p : Option TcpSocket → Bool} {i : Nat} (h : st.position p = some i) :
    i < MAX_SOCKETS ∧ p (st.tcpSockets i) = true := by
  refine ⟨List.mem_range.mp (List.mem_of_find?_eq_some h), ?_⟩
  simpa using List.find?_some h

theorem position_eq_none {p : Option TcpSocket → Bool} (h : st.position p = none) {i : Nat} (hi : i < MAX_SOCKETS) :
    p (st.tcpSockets i) = false := by
  have := List.find?_eq_none.mp h i (List.mem_range.mpr hi)
  simpa using this

theorem position_any {p : TcpSocket → Bool} {i : Nat} (h : st.position (·.any p) = some i) :
    i < MAX_SOCKETS ∧ ∃ s, st.tcpSockets i = some s ∧ p s = true := by
  obtain ⟨hi, hp⟩ := position_eq_some h
  exact ⟨hi, (Option.any_eq_true p _).mp hp⟩

theorem findTcpSocket_some {l r : UInt16} {i : Nat} (h : st.findTcpSocket l r = some i) :
    i < MAX_SOCKETS ∧ ∃ s, st.tcpSockets i = some s ∧ s.localPort = l := by
  unfold findTcpSocket at h
  split at h
  · rename_i j hj
    cases h
    obtain ⟨hi, s, hs, hp⟩ := position_any hj
    exact ⟨hi, s, hs, by simp_all⟩
  · obtain ⟨hi, s, hs, hp⟩ := position_any h
    exact ⟨hi, s, hs, by simp_all⟩

theorem handleTcp_some {src : IpAddr} {pkt : TcpPacket} {i : Nat} {s : TcpSocket}
    (hf : st.findTcpSocket pkt.dstPort pkt.srcPort = some i) (hs : st.tcpSockets i = some s)
    (h : st.handleTcp src pkt = .ok st') :
    st'.tcpSockets = upd st.tcpSockets i (some (s.handlePkt pkt src).1) := by
  simp only [handleTcp, hf, hs] at h
  split at h
  · cases h; rfl
  · cases h; rfl

theorem handleTcp_none {src : IpAddr} {pkt : TcpPacket} (hf : st.findTcpSocket pkt.dstPort pkt.srcPort = none)
    (h : st.handleTcp src pkt = .ok st') : st'.tcpSockets = st.tcpSockets := by
  simp only [handleTcp, hf] at h
  cases h
  rfl

theorem handleTcp_other {src : IpAddr} {pkt : TcpPacket} {i : Nat}
    (hf : st.findTcpSocket pkt.dstPort pkt.srcPort ≠ some i) (h : st.handleTcp src pkt = .ok st') :
    st'.tcpSockets i = st.tcpSockets i := by
  cases hj : st.findTcpSocket pkt.dstPort pkt.srcPort with
  | none => rw [handleTcp_none hj h]
  | some j =>
    obtain ⟨-, s, hs, -⟩ := findTcpSocket_some hj
    have hij : i ≠ j := fun e => hf (by rw [hj, e])
    rw [handleTcp_some hj hs h, upd_of_ne _ _ hij]

theorem socket_eq_ok {i : Nat} {o : Option TcpSocket} (h : st.socket i = .ok o) :
    i < MAX_SOCKETS ∧ st.tcpSockets i = o := by
  unfold socket at h
  split at h
  · rename_i hi; cases h; exact ⟨hi, rfl⟩
  · cases h

end NetworkStack

inductive SlotStep (st : NetworkStack) : NetOp → (Nat → Option TcpSocket) → Prop
  | unmatched {src : IpAddr} {pkt : TcpPacket} (hf : st.findTcpSocket pkt.dstPort pkt.srcPort = none) :
      SlotStep st (.segment src pkt) st.tcpSockets
  | segment {src : IpAddr} {pkt : TcpPacket} {i : Nat} {s : TcpSocket}
      (hf : st.findTcpSocket pkt.dstPort pkt.srcPort = some i) (hs : st.tcpSockets i = some s) :
      SlotStep st (.segment src pkt) (upd st.tcpSockets i (some (s.handlePkt pkt src).1))
  | listen {port : UInt16} {i : Nat} (hf : st.position Option.isNone = some i) :
      SlotStep st (.listen port) (upd st.tcpSockets i (some (.listen port)))
  | listenFull {port : UInt16} (hf : st.position Option.isNone = none) : SlotStep st (.listen port) st.tcpSockets
  | connect {dstIp : IpAddr} {dstPort : UInt16} {i : Nat} {s : TcpSocket}
      (hf : st.position Option.isNone = some i) (hs : s.state = .synSent) (hq : s.seq = 1000) :
      SlotStep st (.connect dstIp dstPort) (upd st.tcpSockets i (some s))
  | connectFull {dstIp : IpAddr} {dstPort : UInt16} (hf : st.position Option.isNone = none) :
      SlotStep st (.connect dstIp dstPort) st.tcpSockets
  | sendErr {i : Nat} {data : List UInt8} : SlotStep st (.send i data) st.tcpSockets
  | send {i : Nat} {data : List UInt8} {s : TcpSocket} {seq : UInt32} (hs : st.tcpSockets i = some s)
      (he : s.state = .established) :
      SlotStep st (.send i data) (upd st.tcpSockets i (some { s with seq := seq }))
  | recvErr {i cap : Nat} : SlotStep st (.recv i cap) st.tcpSockets
  | recv {i cap : Nat} {s : TcpSocket} (hs : st.tcpSockets i = some s) :
      SlotStep st (.recv i cap)
        (upd st.tcpSockets i (some { s with recvLen := 0, recvLen_le := Nat.zero_le _ }))
  | acceptNone {i : Nat}
      (hn : ∀ s, st.tcpSockets i = some s → s.state = .established → st.position Option.isNone = none) :
      SlotStep st (.accept i) st.tcpSockets
  | accept {i free : Nat} {s : TcpSocket} (hf : st.position Option.isNone = some free)
      (hs : st.tcpSockets i = some s) (he : s.state = .established) :
      SlotStep st (.accept i) (upd (upd st.tcpSockets free (some s)) i (some (.listen s.localPort)))
  | closeErr {i : Nat} : SlotStep st (.close i) st.tcpSockets
  | close {i : Nat} {s : TcpSocket} (hs : st.tcpSockets i = some s)
      (he : s.state = .established ∨ s.state = .closeWait) :
      SlotStep st (.close i) (upd st.tcpSockets i (some { s with state := .finWait1 }))

section
variable {st st' : NetworkStack}

theorem map_fst_ok {α : Type} {x : Rust Unit (NetworkStack × α)} (h : x.map Prod.fst = .ok st') :
    ∃ a, x = .ok (st', a) := by
  cases x with
  | error e => cases h
  | ok p => cases h; exact ⟨p.2, rfl⟩

theorem orKeep_ok {x : Rust Unit NetworkStack} (h : orKeep st x = .ok st') : x = .ok st' ∨ st' = st := by
  unfold orKeep at h
  split at h
  · cases h; exact .inr rfl
  · exact .inl h

theorem slots_segment {src : IpAddr} {pkt : TcpPacket} (h : st.handleTcp src pkt = .ok st') :
    SlotStep st (.segment src pkt) st'.tcpSockets := by
  cases hf : st.findTcpSocket pkt.dstPort pkt.srcPort with
  | none => rw [NetworkStack.handleTcp_none hf h]; exact .unmatched hf
  | some i =>
    obtain ⟨-, s, hs, -⟩ := NetworkStack.findTcpSocket_some hf
    rw [NetworkStack.handleTcp_some hf hs h]
    exact .segment hf hs

theorem slots_listen (port : UInt16) : SlotStep st (.listen port) (st.tcpListen port).1.tcpSockets := by
  unfold NetworkStack.tcpListen
  split
  · exact .listen ‹_›
  · exact .listenFull ‹_›

theorem slots_connect {dstIp : IpAddr} {dstPort : UInt16} {o : Option Nat}
    (h : st.tcpConnect dstIp dstPort = .ok (st', o)) : SlotStep st (.connect dstIp dstPort) st'.tcpSockets := by
  unfold NetworkStack.tcpConnect at h
  obtain ⟨port, -, h⟩ := bind_eq_ok.mp h
  split at h
  · rename_i i hf
    have hc : SlotStep st (.connect dstIp dstPort) (upd st.tcpSockets i
        (some { TcpSocket.connect port with remoteIp := dstIp, remotePort := dstPort })) := .connect hf rfl rfl
    dsimp only at h
    split at h
    · cases h; exact hc
    · cases h; exact hc
  · cases h; exact .connectFull ‹_›

theorem slots_send {i n : Nat} {data : List UInt8} (h : st.tcpSend i data = .ok (st', n)) :
    SlotStep st (.send i data) st'.tcpSockets := by
  unfold NetworkStack.tcpSend at h
  obtain ⟨o, ho, h⟩ := bind_eq_ok.mp h
  split at h
  · cases h
  · rename_i s
    split at h
    · cases h
    · rename_i he
      cases h
      exact .send (NetworkStack.socket_eq_ok ho).2 (by simpa using he)

theorem slots_recv {i cap : Nat} {bytes : List UInt8} (h : st.tcpRecv i cap = .ok (st', bytes)) :
    SlotStep st (.recv i cap) st'.tcpSockets := by
  unfold NetworkStack.tcpRecv at h
  obtain ⟨o, ho, h⟩ := bind_eq_ok.mp h
  split at h
  · cases h
  · rename_i s
    unfold TcpSocket.recv at h
    by_cases hz : s.recvLen = 0
    · simp [hz] at h
    · simp only [hz, if_false] at h
      cases h
      exact .recv (NetworkStack.socket_eq_ok ho).2

theorem slots_accept {i : Nat} {o : Option Nat} (h : st.tcpAccept i = .ok (st', o)) :
    SlotStep st (.accept i) st'.tcpSockets := by
  unfold NetworkStack.tcpAccept at h
  obtain ⟨slot, ho, h⟩ := bind_eq_ok.mp h
  obtain ⟨-, rfl⟩ := NetworkStack.socket_eq_ok ho
  split at h
  · rename_i hn
    cases h
    exact .acceptNone fun s hs => by rw [hn] at hs; cases hs
  · rename_i s hs
    split at h
    · rename_i he
      cases h
      exact .acceptNone fun t ht hte => absurd hte (by rw [hs] at ht; cases ht; exact he)
    · rename_i he
      split at h
      · rename_i hf; cases h; exact .acceptNone fun _ _ _ => hf
      · rename_i free hf
        cases h
        exact .accept hf hs (by simpa using he)

theorem slots_close {i : Nat} (h : st.tcpClose i = .ok st') : SlotStep st (.close i) st'.tcpSockets := by
  unfold NetworkStack.tcpClose at h
  obtain ⟨o, ho, h⟩ := bind_eq_ok.mp h
  split at h
  · cases h
  · rename_i s
    split at h
    · rename_i he; cases h; exact .close (NetworkStack.socket_eq_ok ho).2 (.inl he)
    · rename_i he; cases h; exact .close (NetworkStack.socket_eq_ok ho).2 (.inr he)
    · cases h

theorem step_slots {op : NetOp} (h : st.step op = .ok st') : SlotStep st op st'.tcpSockets := by
  cases op with
  | segment src pkt => exact slots_segment h
  | listen port => cases h; exact slots_listen port
  | connect dstIp dstPort =>
    obtain ⟨o, h⟩ := map_fst_ok h
    exact slots_connect h
  | send i data =>
    obtain h | rfl := orKeep_ok h
    · obtain ⟨n, h⟩ := map_fst_ok h
      exact slots_send h
    · exact .sendErr
  | recv i cap =>
    obtain h | rfl := orKeep_ok h
    · obtain ⟨bytes, h⟩ := map_fst_ok h
      exact slots_recv h
    · exact .recvErr
  | accept i =>
    obtain ⟨o, h⟩ := map_fst_ok h
    exact slots_accept h
  | close i =>
    obtain h | rfl := orKeep_ok h
    · exact slots_close h
    · exact .closeErr

theorem free_ne {h i : Nat} {s : TcpSocket} (hs : st.tcpSockets h = some s)
    (hf : st.position Option.isNone = some i) : h ≠ i := by
  rintro rfl
  have := (NetworkStack.position_eq_some hf).2
  rw [hs] at this
  cases this

end

end WasmOs.Net
