import WasmOs.Dhcp
import WasmOs.NetStack
import WasmOs.Packet

/-!
# The whole network stack

`NetworkStack` of `mod.rs` with all its layers: a received frame goes through Ethernet to ARP or IPv4,
from there to ICMP, TCP, UDP or DHCP, and whatever is answered is composed into a frame of its own. The
TCP sockets and the ARP cache are those of `NetStack`; what they hand down is sent at once.
-/

namespace WasmOs.Net

def MAX_UDP_PAYLOAD : Nat := 1472

def ETH_FRAME_SIZE : Nat := 1514

/-! ## UDP sockets -/

/-- A socket; the receive buffer never holds more than its array. -/
structure UdpSocket where
  localPort : UInt16
  remotePort : UInt16
  remoteIp : IpAddr
  recvBuf : Nat → UInt8
  recvLen : Nat
  recvLen_le : recvLen ≤ MAX_UDP_PAYLOAD

namespace UdpSocket

def new (port : UInt16) : UdpSocket where
  localPort := port
  remotePort := 0
  remoteIp := .default
  recvBuf := fun _ => 0
  recvLen := 0
  recvLen_le := Nat.zero_le _

def handlePkt (s : UdpSocket) (pkt : UdpPacket) (src : IpAddr) : Rust Unit UdpSocket := do
  let n := min pkt.payload.length MAX_UDP_PAYLOAD
  let bytes ← sliceRange pkt.payload 0 n
  .ok { s with
    remoteIp := src
    remotePort := pkt.srcPort
    recvBuf := blit s.recvBuf 0 bytes
    recvLen := n
    recvLen_le := Nat.min_le_right _ _ }

/-- `recv` into a buffer of `cap` bytes. -/
def recv (s : UdpSocket) (cap : Nat) : Option (UdpSocket × List UInt8) :=
  if s.recvLen = 0 then none
  else
    let n := min s.recvLen cap
    some ({ s with recvLen := 0, recvLen_le := Nat.zero_le _ }, slice s.recvBuf 0 n)

end UdpSocket

def TcpSocket.storeBounds (s : TcpSocket) (payload : List UInt8) : Rust Unit Unit := do
  let room ← usub MAX_TCP_PAYLOAD s.recvLen
  let n := min payload.length room
  let _ ← sliceRange (List.replicate MAX_TCP_PAYLOAD (0 : UInt8)) s.recvLen (s.recvLen + n)
  let _ ← sliceRange payload 0 n
  .ok ()

def ArpCache.insert (c : ArpCache) (ip : IpAddr) (mac : Mac) : ArpCache :=
  match (List.range MAX_ARP_ENTRIES).find? fun i => c.valid i && c.ips i == ip with
  | some i => { c with macs := upd c.macs i mac }
  | none =>
    match (List.range MAX_ARP_ENTRIES).find? fun i => !c.valid i with
    | some i => { ips := upd c.ips i ip, macs := upd c.macs i mac, valid := upd c.valid i true }
    | none => c

/-! ## The stack -/

/-- `frames` are the frames handed to the network card, in order. -/
structure Stack where
  mac : Mac
  ip : IpAddr
  dhcp : DhcpClient
  tcp : NetworkStack
  udpSockets : Nat → Option UdpSocket
  frames : List (List UInt8)

namespace Stack

def sendEth (st : Stack) (dstMac : Mac) (ethertype : UInt16) (payload : List UInt8) : Rust Unit Stack := do
  let (frame, n) ← EthFrame.compose (List.replicate ETH_FRAME_SIZE 0) dstMac st.mac ethertype payload
  let frame ← sliceRange frame 0 n
  .ok { st with frames := st.frames ++ [frame] }

def sendArpRequest (st : Stack) (targetIp : IpAddr) : Rust Unit Stack := do
  let req : ArpPacket := ⟨ARP_OP_REQUEST, st.ip, targetIp, st.mac, .zero⟩
  let bytes ← req.toBytes
  st.sendEth .broadcast ETH_TYPE_ARP bytes

def sendIp (st : Stack) (dstIp : IpAddr) (ipPayload : List UInt8) : Rust Unit Stack :=
  if dstIp = ⟨255, 255, 255, 255⟩ then st.sendEth .broadcast ETH_TYPE_IPV4 ipPayload
  else
    match st.tcp.arp.lookup dstIp with
    | some mac => st.sendEth mac ETH_TYPE_IPV4 ipPayload
    | none => st.sendArpRequest dstIp

def sendTcpSeg (st : Stack) (lport rport : UInt16) (rip : IpAddr) (seq ack : UInt32) (flags : UInt8)
    (payload : List UInt8) : Rust Unit Stack := do
  let seg ← makeTcpPacket lport rport seq ack flags 65535 payload st.ip rip
  let p ← Ipv4Packet.new st.ip rip IP_PROTO_TCP seg
  let ipBytes ← p.toBytes
  st.sendIp rip ipBytes

def transmit (st : Stack) : Tx → Rust Unit Stack
  | .tcpSeg lport rport rip seq ack flags payload => st.sendTcpSeg lport rport rip seq ack flags payload
  | .arpRequest ip => st.sendArpRequest ip

def transmitAll (st : Stack) : List Tx → Rust Unit Stack
  | [] => .ok st
  | tx :: txs => do
    let st ← st.transmit tx
    st.transmitAll txs

/-- The TCP side after an operation; what it hands down goes out. -/
def withTcp (st : Stack) (tcp : NetworkStack) : Rust Unit Stack :=
  { st with tcp := { tcp with net := [] } }.transmitAll tcp.net

/-! ## ARP -/

/-- `for i in 0..MAX_SOCKETS`: the SYN of each connection that waits for this address. -/
def flushPendingSyncs (st : Stack) (resolvedIp : IpAddr) : List Nat → Rust Unit Stack
  | [] => .ok st
  | i :: is =>
    match st.tcp.tcpSockets i with
    | some s =>
      if s.state = .synSent ∧ s.remoteIp = resolvedIp then do
        let st ← st.sendTcpSeg s.localPort s.remotePort s.remoteIp s.seq 0 TCP_SYN []
        st.flushPendingSyncs resolvedIp is
      else st.flushPendingSyncs resolvedIp is
    | none => st.flushPendingSyncs resolvedIp is

def learn (st : Stack) (ip : IpAddr) (mac : Mac) : Stack :=
  { st with tcp := { st.tcp with arp := st.tcp.arp.insert ip mac } }

def answerArp (st : Stack) (pkt : ArpPacket) : Rust Unit Stack :=
  if pkt.operation = ARP_OP_REQUEST ∧ pkt.targetIp = st.ip then do
    let bytes ← (ArpPacket.newReply st.ip pkt.senderIp st.mac pkt.senderMac).toBytes
    st.sendEth pkt.senderMac ETH_TYPE_ARP bytes
  else .ok st

def handleArp (st : Stack) (pkt : ArpPacket) : Rust Unit Stack := do
  let st ← st.answerArp pkt
  if pkt.operation = ARP_OP_REPLY then
    (st.learn pkt.senderIp pkt.senderMac).flushPendingSyncs pkt.senderIp (List.range MAX_SOCKETS)
  else .ok st

/-! ## ICMP -/

def sendIcmpReply (st : Stack) (dst : IpAddr) (request : List UInt8) : Rust Unit Stack :=
  if request.length < 8 then .ok st
  else do
    let replyLen := min request.length 64
    let icmp := List.replicate 64 0
    let icmp ← setAt icmp 0 0
    let icmp ← setAt icmp 1 0
    let room ← usub replyLen 4
    let rest ← usub request.length 4
    let copy := min room rest
    let body ← sliceRange request 4 (4 + copy)
    let icmp ← copyInto icmp 4 (4 + copy) body
    let cksum ← ipChksum (← sliceRange icmp 0 replyLen)
    let icmp ← setAt icmp 2 (UInt8.ofNat (cksum.toNat / 256))
    let icmp ← setAt icmp 3 cksum.toUInt8
    let reply ← sliceRange icmp 0 replyLen
    let p ← Ipv4Packet.new st.ip dst IP_PROTO_ICMP reply
    let ipBytes ← p.toBytes
    st.sendIp dst ipBytes

/-! ## DHCP -/

def sendDhcpUdp (st : Stack) (payload : List UInt8) : Rust Unit Stack := do
  let udp ← UdpPacket.new CLIENT_PORT SERVER_PORT payload
  let p ← Ipv4Packet.new ⟨0, 0, 0, 0⟩ ⟨255, 255, 255, 255⟩ IP_PROTO_UDP udp.toBytes
  let ipBytes ← p.toBytes
  st.sendEth .broadcast ETH_TYPE_IPV4 ipBytes

def dhcpStart (st : Stack) : Rust Unit Stack := do
  let st := { st with dhcp := { st.dhcp with state := .selecting } }
  let pkt ← st.dhcp.buildDiscover st.mac
  st.sendDhcpUdp pkt

def handleDhcp (st : Stack) (payload : List UInt8) : Rust Unit Stack := do
  let buf := List.replicate 1024 0
  let n := min payload.length buf.length
  let buf ← copyInto buf 0 n (← sliceRange payload 0 n)
  let data ← sliceRange buf 0 n
  let (dhcp, action) ← st.dhcp.handlePacket data
  let st := { st with dhcp := dhcp }
  match action with
  | some .sendRequest => do
    let req ← st.dhcp.buildRequest st.mac
    st.sendDhcpUdp req
  | some (.bound ip) => .ok { st with ip := ip }
  | some .nak => st.dhcpStart
  | none => .ok st

/-! ## TCP and UDP -/

/-- The slices `handle_pkt` takes when the segment's socket stores its payload. -/
def handlePktBounds (st : Stack) (pkt : TcpPacket) : Rust Unit Unit :=
  match st.tcp.findTcpSocket pkt.dstPort pkt.srcPort with
  | none => .ok ()
  | some idx =>
    match st.tcp.tcpSockets idx with
    | none => .error .panic
    | some s =>
      if s.state = .established ∧ !pkt.rst ∧ !pkt.fin ∧ pkt.payload ≠ [] then s.storeBounds pkt.payload else .ok ()

def handleTcp (st : Stack) (src : IpAddr) (pkt : TcpPacket) : Rust Unit Stack := do
  st.handlePktBounds pkt
  let tcp ← st.tcp.handleTcp src pkt
  st.withTcp tcp

def handleUdp (st : Stack) (src : IpAddr) (pkt : UdpPacket) : Rust Unit Stack :=
  if pkt.srcPort = SERVER_PORT ∧ pkt.dstPort = CLIENT_PORT then st.handleDhcp pkt.payload
  else
    match (List.range MAX_SOCKETS).find? fun i => (st.udpSockets i).any fun s => s.localPort == pkt.dstPort with
    | some i =>
      match st.udpSockets i with
      | some s => do
        let s ← s.handlePkt pkt src
        .ok { st with udpSockets := upd st.udpSockets i (some s) }
      | none => .ok st
    | none => .ok st

/-! ## Received frames -/

def handleIp (st : Stack) (pkt : Ipv4Packet) : Rust Unit Stack :=
  if pkt.protocol = IP_PROTO_ICMP then
    if 8 ≤ pkt.payload.length then do
      let kind ← index pkt.payload 0
      if kind = 8 then st.sendIcmpReply pkt.src pkt.payload else .ok st
    else .ok st
  else if pkt.protocol = IP_PROTO_TCP then do
    match ← TcpPacket.parse pkt.payload with
    | some seg => st.handleTcp pkt.src seg
    | none => .ok st
  else if pkt.protocol = IP_PROTO_UDP then do
    match ← UdpPacket.parse pkt.payload with
    | some seg => st.handleUdp pkt.src seg
    | none => .ok st
  else .ok st

def handleEth (st : Stack) (frame : List UInt8) : Rust Unit Stack := do
  match ← EthFrame.parse frame with
  | none => .ok st
  | some eth =>
    if !eth.isForMe st.mac && !eth.isBroadcast then .ok st
    else if eth.ethertype = ETH_TYPE_ARP then do
      match ← ArpPacket.parse eth.payload with
      | some p => st.handleArp p
      | none => .ok st
    else if eth.ethertype = ETH_TYPE_IPV4 then do
      match ← Ipv4Packet.parse eth.payload with
      | some p => (if !eth.isBroadcast then st.learn p.src eth.src else st).handleIp p
      | none => .ok st
    else .ok st

/-! ## The application's calls -/

/-- `self.udp_sockets[i]` -/
def udpSocket (st : Stack) (i : Nat) : Rust Unit (Option UdpSocket) :=
  if i < MAX_SOCKETS then .ok (st.udpSockets i) else .error .panic

def setUdp (st : Stack) (i : Nat) (s : Option UdpSocket) : Stack := { st with udpSockets := upd st.udpSockets i s }

def udpBind (st : Stack) (port : UInt16) : Stack × Option Nat :=
  match (List.range MAX_SOCKETS).find? fun i => (st.udpSockets i).isNone with
  | some i => (st.setUdp i (some (.new port)), some i)
  | none => (st, none)

def udpSend (st : Stack) (i : Nat) (data : List UInt8) : Rust Unit (Stack × Nat) := do
  match ← st.udpSocket i with
  | none => .error (.err ())
  | some s =>
    if s.remotePort = 0 ∨ s.remoteIp = .default then .error (.err ())
    else
      let n := min data.length MAX_UDP_PAYLOAD
      let pkt ← UdpPacket.new s.localPort s.remotePort (← sliceRange data 0 n)
      let p ← Ipv4Packet.new st.ip s.remoteIp IP_PROTO_UDP pkt.toBytes
      let ipBytes ← p.toBytes
      let st ← st.sendIp s.remoteIp ipBytes
      .ok (st, n)

def udpConnect (st : Stack) (i : Nat) (dstIp : IpAddr) (dstPort : UInt16) : Rust Unit Stack :=
  match if i < MAX_SOCKETS then st.udpSockets i else none with
  | some s => .ok (st.setUdp i (some { s with remoteIp := dstIp, remotePort := dstPort }))
  | none => .error (.err ())

def udpClose (st : Stack) (i : Nat) : Stack := if i < MAX_SOCKETS then st.setUdp i none else st

def udpRecv (st : Stack) (i cap : Nat) : Rust Unit (Stack × List UInt8) := do
  match ← st.udpSocket i with
  | none => .error (.err ())
  | some s =>
    match s.recv cap with
    | none => .error (.err ())
    | some (s, bytes) => .ok (st.setUdp i (some s), bytes)

def tryInit (mac : Mac) : Rust Unit Stack :=
  dhcpStart ⟨mac, .default, .new mac, .init, fun _ => none, []⟩

end Stack

/-! ## Runs -/

inductive StackOp where
  | frame (bytes : List UInt8)
  | tcp (op : NetOp)
  | udpBind (port : UInt16)
  | udpSend (i : Nat) (data : List UInt8)
  | udpConnect (i : Nat) (dstIp : IpAddr) (dstPort : UInt16)
  | udpClose (i : Nat)
  | udpRecv (i cap : Nat)
  | setIp (ip : IpAddr)
  | dhcpStart
  deriving DecidableEq, Repr

/-- A call that answers `Err(())` leaves the stack as it is. -/
def Stack.orStay (st : Stack) : Rust Unit Stack → Rust Unit Stack
  | .error (.err _) => .ok st
  | r => r

def Stack.step (st : Stack) : StackOp → Rust Unit Stack
  | .frame bytes => st.handleEth bytes
  | .tcp op => do
    let tcp ← st.tcp.step op
    st.withTcp tcp
  | .udpBind port => .ok (st.udpBind port).1
  | .udpSend i data => st.orStay ((st.udpSend i data).map Prod.fst)
  | .udpConnect i dstIp dstPort => st.orStay (st.udpConnect i dstIp dstPort)
  | .udpClose i => .ok (st.udpClose i)
  | .udpRecv i cap => st.orStay ((st.udpRecv i cap).map Prod.fst)
  | .setIp ip => .ok { st with ip := ip }
  | .dhcpStart => st.dhcpStart

def NetOp.ValidHandle : NetOp → Prop
  | .segment _ _ => False
  | .listen _ | .connect _ _ => True
  | .send i _ | .recv i _ | .accept i | .close i => i < MAX_SOCKETS

/-- A frame of at most 1514 bytes, or a call with a handle below `MAX_SOCKETS`; segments come in frames. -/
def StackOp.Valid : StackOp → Prop
  | .frame bytes => bytes.length ≤ ETH_FRAME_SIZE
  | .tcp op => op.ValidHandle
  | .udpSend i _ | .udpConnect i _ _ | .udpClose i | .udpRecv i _ => i < MAX_SOCKETS
  | .udpBind _ | .setIp _ | .dhcpStart => True

end WasmOs.Net
