import WasmOs.ArpCacheSound
import WasmOs.Padding
import WasmOs.UdpService

/-!
# Question and answer

A datagram that a host sends to another one goes into the socket of its port there, and the other host can answer
it at once: the frame has brought the address, the MAC and the port of the sender.
-/

namespace WasmOs.UdpService

open Net

/-- The socket in slot `i` is the one that takes the packets for `port`. -/
structure Bound (st : Stack) (i : Nat) (port : UInt16) (sock : UdpSocket) : Prop where
  lt : i < MAX_SOCKETS
  here : st.udpSockets i = some sock
  takes : sock.localPort = port
  first : ∀ j < i, ∀ other, st.udpSockets j = some other → other.localPort ≠ port

theorem Bound.find {st : Stack} {i : Nat} {port : UInt16} {sock : UdpSocket} (h : Bound st i port sock) :
    (List.range MAX_SOCKETS).find? (fun i => (st.udpSockets i).any fun s => s.localPort == port) = some i := by
  rw [List.find?_eq_some_iff_getElem]
  refine ⟨?_, i, by rw [List.length_range]; exact h.lt, List.getElem_range .., fun j hj => ?_⟩
  · rw [h.here, Option.any_some, h.takes, beq_self_eq_true]
  · rw [List.getElem_range]
    cases hs : st.udpSockets j with
    | none => rfl
    | some other =>
      have hne := h.first j hj other hs
      simp [hne]

/-- Whose frame brought the address is found under it. -/
theorem lookup_insert {c : ArpCache} {ip : IpAddr} {mac : Mac} (hroom : (c.lookup ip).isSome ∨
      ∃ k < MAX_ARP_ENTRIES, c.valid k = false) :
    (c.insert ip mac).lookup ip = some mac := by
  cases hknown : (List.range MAX_ARP_ENTRIES).find? fun i => c.valid i && c.ips i == ip with
  | some i =>
    have hinsert : c.insert ip mac = { c with macs := upd c.macs i mac } := by
      unfold ArpCache.insert
      rw [hknown]
    rw [hinsert]
    unfold ArpCache.lookup
    rw [hknown]
    exact congrArg some (upd_self ..)
  | none =>
    have hnew := ArpCache.find_eq_none_iff.mp hknown
    obtain ⟨i, hi, -⟩ | ⟨-, i, hi, hfree, hinsert⟩ | ⟨-, hfull, -⟩ := ArpCache.insert_cases c ip mac
    · exact absurd hi (hnew i)
    · rw [hinsert]
      cases hl : ArpCache.lookup ⟨upd c.ips i ip, upd c.macs i mac, upd c.valid i true⟩ ip with
      | none =>
        exact absurd ((ArpCache.holds_added hi hfree).mpr (.inr ⟨rfl, rfl⟩)) (ArpCache.lookup_eq_none.mp hl i)
      | some mac' =>
        obtain ⟨j, hj, hmac⟩ := ArpCache.holds_of_lookup hl
        rcases (ArpCache.holds_added hi hfree).mp hj with hj | ⟨rfl, -⟩
        · exact absurd hj (hnew j)
        · rw [← hmac]
          exact congrArg some (upd_self ..)
    · rcases hroom with hroom | ⟨k, hk, hfree⟩
      · have hnone : c.lookup ip = none := ArpCache.lookup_eq_none.mpr hnew
        rw [hnone] at hroom
        cases hroom
      · rw [hfull k hk] at hfree
        cases hfree

/-! ## One datagram -/

structure Brings (bytes : List UInt8) (src : IpAddr) (pkt : Ipv4Packet) (u : UdpPacket) : Prop where
  parses : Ipv4Packet.parse bytes = .ok (some pkt)
  protocol : pkt.protocol = IP_PROTO_UDP
  src : pkt.src = src
  udp : UdpPacket.parse pkt.payload = .ok (some u)

section
variable {st : Stack} {i : Nat} {sock : UdpSocket}

theorem udpSend_brings (hi : i < MAX_SOCKETS) (hsock : st.udpSockets i = some sock)
    (hremote : ¬ (sock.remotePort = 0 ∨ sock.remoteIp = .default))
    {mac : Mac} (hroute : st.route sock.remoteIp = some mac) (data : List UInt8) :
    ∃ bytes pkt u, st.udpSend i data = .ok (st.sent (ethBytes mac st.mac ETH_TYPE_IPV4 bytes),
      min data.length MAX_UDP_PAYLOAD) ∧
      Brings bytes st.ip pkt u ∧ u.srcPort = sock.localPort ∧ u.dstPort = sock.remotePort ∧
      u.payload = data.take (min data.length MAX_UDP_PAYLOAD) := by
  have hlen : (data.take (min data.length MAX_UDP_PAYLOAD)).length ≤ 1472 := by
    rw [List.length_take]
    unfold MAX_UDP_PAYLOAD
    omega
  generalize hpayload : data.take (min data.length MAX_UDP_PAYLOAD) = payload at hlen
  have hslice : (sliceRange data 0 (min data.length MAX_UDP_PAYLOAD) : Rust Unit (List UInt8)) = .ok payload := by
    rw [sliceRange_of_le ⟨Nat.zero_le _, Nat.min_le_left _ _⟩, hpayload, List.drop_zero]
  unfold Stack.udpSend Stack.udpSocket
  rw [if_pos hi, hsock, bind_ok]
  dsimp only
  rw [if_neg hremote, hslice, bind_ok, udp_new (by omega), bind_ok,
    ipv4_new (by rw [udp_toBytes_length]; dsimp only; omega), bind_ok,
    ipv4_toBytes, bind_ok, sendIp_some st hroute (by simp [ETH_FRAME_SIZE]; omega), bind_ok]
  exact ⟨_, _, _, rfl, ⟨ipv4_parse .., rfl, rfl, udp_parse _⟩, rfl, rfl, rfl⟩

structure Filled (sock : UdpSocket) (src : IpAddr) (u : UdpPacket) (sock' : UdpSocket) : Prop where
  localPort : sock'.localPort = sock.localPort
  remoteIp : sock'.remoteIp = src
  remotePort : sock'.remotePort = u.srcPort
  len : sock'.recvLen = min u.payload.length MAX_UDP_PAYLOAD
  bytes : slice sock'.recvBuf 0 sock'.recvLen = u.payload.take MAX_UDP_PAYLOAD

theorem handleEth_brings {u : UdpPacket} (h : Bound st i u.dstPort sock)
    (hdhcp : ¬ (u.srcPort = SERVER_PORT ∧ u.dstPort = CLIENT_PORT))
    {dst : Mac} (hdst : dst = st.mac ∨ dst = .broadcast) (srcMac : Mac) {bytes : List UInt8} {src : IpAddr}
    {pkt : Ipv4Packet} (hb : Brings bytes src pkt u) :
    ∃ sock', st.handleEth (ethBytes dst srcMac ETH_TYPE_IPV4 bytes) =
    .ok ((st.noting dst srcMac pkt).setUdp i (some sock')) ∧
      Filled sock src u sock' := by
  have hudp : (st.noting dst srcMac pkt).udpSockets = st.udpSockets := by
    unfold Stack.noting
    split <;> rfl
  rw [handleEth_datagram st hdst srcMac hb.parses, handleIp_udp _ pkt hb.protocol hb.udp]
  unfold Stack.handleUdp
  rw [if_neg hdhcp, hudp, h.find]
  dsimp only
  rw [h.here]
  dsimp only
  obtain ⟨sock', hpkt, -⟩ := udp_handlePkt_recvLen sock u pkt.src
  obtain ⟨hlocal, hlen, hslice⟩ := handlePkt_holds hpkt
  rw [hpkt, bind_ok]
  refine ⟨sock', ?_, hlocal, ?_, ?_, hlen, hslice⟩
  · unfold Stack.setUdp
    rw [hudp]
  · unfold UdpSocket.handlePkt at hpkt
    obtain ⟨_, -, hpkt⟩ := bind_eq_ok.mp hpkt
    cases hpkt
    exact hb.src
  · unfold UdpSocket.handlePkt at hpkt
    obtain ⟨_, -, hpkt⟩ := bind_eq_ok.mp hpkt
    cases hpkt
    rfl

theorem udpRecv_filled (st' : Stack) {u : UdpPacket} {src : IpAddr} {sock' : UdpSocket} (hi : i < MAX_SOCKETS)
    (hst : st'.udpSockets i = some sock') (h : Filled sock src u sock') (hne : u.payload ≠ []) (cap : Nat) :
    ∃ empty, st'.udpRecv i cap = .ok (st'.setUdp i (some empty), (u.payload.take MAX_UDP_PAYLOAD).take cap) ∧
      empty.localPort = sock'.localPort ∧ empty.remoteIp = sock'.remoteIp ∧
      empty.remotePort = sock'.remotePort := by
  have hpos : 0 < u.payload.length := List.length_pos_iff.mpr hne
  have hlen : sock'.recvLen ≠ 0 := by
    rw [h.len]
    unfold MAX_UDP_PAYLOAD
    omega
  unfold Stack.udpRecv Stack.udpSocket UdpSocket.recv
  rw [if_pos hi, hst, bind_ok]
  dsimp only
  rw [if_neg hlen]
  dsimp only
  have hbytes : slice sock'.recvBuf 0 (min sock'.recvLen cap) = (u.payload.take MAX_UDP_PAYLOAD).take cap := by
    rw [← h.bytes]
    unfold slice
    rw [← List.map_take, List.take_range, Nat.min_comm]
  rw [hbytes]
  exact ⟨_, rfl, rfl, rfl, rfl⟩

end

/-! ## There and back -/

/-- `a` may ask and `b` may answer: the sockets are the ones for their ports, `a` knows the way to `b`, and
`b` has room to note the way to `a`. -/
structure MayAsk (a b : Stack) (i j : Nat) (asking answering : UdpSocket) : Prop where
  asks : Bound a i asking.localPort asking
  answers : Bound b j asking.remotePort answering
  route : a.route asking.remoteIp = some b.mac
  connected : ¬ (asking.remotePort = 0 ∨ asking.remoteIp = .default)
  unicast : b.mac ≠ .broadcast
  addressed : ¬ (asking.localPort = 0 ∨ a.ip = .default) ∧ a.ip ≠ ⟨255, 255, 255, 255⟩
  room : (b.tcp.arp.lookup a.ip).isSome ∨ ∃ k < MAX_ARP_ENTRIES, b.tcp.arp.valid k = false
  dhcp : ¬ (asking.localPort = SERVER_PORT ∧ asking.remotePort = CLIENT_PORT) ∧
    ¬ (asking.remotePort = SERVER_PORT ∧ asking.localPort = CLIENT_PORT)

theorem take_ne_nil {data : List UInt8} (h : data ≠ []) : data.take (min data.length MAX_UDP_PAYLOAD) ≠ [] := by
  have hpos : 0 < data.length := List.length_pos_iff.mpr h
  intro hnil
  have hlen := congrArg List.length hnil
  rw [List.length_take, List.length_nil] at hlen
  unfold MAX_UDP_PAYLOAD at hlen
  omega

theorem take_take_max (data : List UInt8) (cap : Nat) :
    ((data.take (min data.length MAX_UDP_PAYLOAD)).take MAX_UDP_PAYLOAD).take cap =
    (data.take MAX_UDP_PAYLOAD).take cap := by
  have htwice : (data.take MAX_UDP_PAYLOAD).take MAX_UDP_PAYLOAD = data.take MAX_UDP_PAYLOAD := by
    rw [List.take_take, Nat.min_self]
  rw [Nat.min_comm, ← List.take_eq_take_min, htwice]

/-- What one host asks with `udp_send` the other one gets from `udp_recv`, and what it answers on the same
socket gets back to the socket that has asked, with nothing sent in between. -/
theorem udp_answered {a b : Stack} {i j : Nat} {asking answering : UdpSocket} (h : MayAsk a b i j asking answering)
    {question answer : List UInt8} (hquestion : question ≠ []) (hanswer : answer ≠ []) (cap cap' : Nat) :
    ∃ a₁ n f b₁ b₂ b₃ m g a₂ a₃, a.udpSend i question = .ok (a₁, n) ∧ a₁.frames = a.frames ++ [f] ∧
      b.handleEth f = .ok b₁ ∧ b₁.udpRecv j cap = .ok (b₂, (question.take MAX_UDP_PAYLOAD).take cap) ∧
      b₂.udpSend j answer = .ok (b₃, m) ∧ b₃.frames = b.frames ++ [g] ∧
      a₁.handleEth g = .ok a₂ ∧ a₂.udpRecv i cap' = .ok (a₃, (answer.take MAX_UDP_PAYLOAD).take cap') := by
  obtain ⟨bytes, pkt, u, hsend, hbrings, hsrc, hdst, hpayload⟩ :=
    udpSend_brings h.asks.lt h.asks.here h.connected h.route question
  have hbound : Bound b j u.dstPort answering := by
    rw [hdst]
    exact h.answers
  have hdhcp : ¬ (u.srcPort = SERVER_PORT ∧ u.dstPort = CLIENT_PORT) := by
    rw [hsrc, hdst]
    exact h.dhcp.1
  obtain ⟨filled, heth, hfilled⟩ := handleEth_brings hbound hdhcp (.inl rfl) a.mac hbrings
  have hne : u.payload ≠ [] := by
    rw [hpayload]
    exact take_ne_nil hquestion
  obtain ⟨emptied, hrecv, hport, hip, hremote⟩ := udpRecv_filled ((b.noting b.mac a.mac pkt).setUdp j (some filled))
    h.answers.lt (upd_self ..) hfilled hne cap
  rw [hpayload, take_take_max] at hrecv
  -- the question has brought the way back
  have hnoting : b.noting b.mac a.mac pkt = b.learn a.ip a.mac := by
    unfold Stack.noting
    rw [if_neg h.unicast, hbrings.src]
  generalize hb₂ : ((b.noting b.mac a.mac pkt).setUdp j (some filled)).setUdp j (some emptied) = b₂ at hrecv
  have hback : b₂.route emptied.remoteIp = some a.mac := by
    rw [hip, hfilled.remoteIp, ← hb₂, hnoting]
    unfold Stack.route
    rw [if_neg h.addressed.2]
    exact lookup_insert h.room
  have hconnected : ¬ (emptied.remotePort = 0 ∨ emptied.remoteIp = .default) := by
    rw [hip, hremote, hfilled.remoteIp, hfilled.remotePort, hsrc]
    exact h.addressed.1
  have hhere : b₂.udpSockets j = some emptied := by
    rw [← hb₂]
    exact upd_self ..
  obtain ⟨bytes', pkt', u', hsend', hbrings', hsrc', hdst', hpayload'⟩ :=
    udpSend_brings h.answers.lt hhere hconnected hback answer
  rw [hremote, hfilled.remotePort, hsrc] at hdst'
  rw [hport, hfilled.localPort, h.answers.takes] at hsrc'
  have hbound' : Bound (a.sent (ethBytes b.mac a.mac ETH_TYPE_IPV4 bytes)) i u'.dstPort asking := by
    rw [hdst']
    exact ⟨h.asks.lt, h.asks.here, h.asks.takes, h.asks.first⟩
  have hdhcp' : ¬ (u'.srcPort = SERVER_PORT ∧ u'.dstPort = CLIENT_PORT) := by
    rw [hsrc', hdst']
    exact h.dhcp.2
  obtain ⟨filled', heth', hfilled'⟩ := handleEth_brings hbound' hdhcp' (.inl (rfl : a.mac = _)) b₂.mac hbrings'
  have hne' : u'.payload ≠ [] := by
    rw [hpayload']
    exact take_ne_nil hanswer
  obtain ⟨emptied', hrecv', -⟩ :=
    udpRecv_filled (((a.sent (ethBytes b.mac a.mac ETH_TYPE_IPV4 bytes)).noting a.mac b₂.mac pkt').setUdp i
      (some filled'))
    h.asks.lt (upd_self ..) hfilled' hne' cap'
  rw [hpayload', take_take_max] at hrecv'
  have hframes : b₂.frames = b.frames := by
    rw [← hb₂, hnoting]
    rfl
  refine ⟨_, _, _, _, _, _, _, _, _, _, hsend, rfl, heth, hrecv, hsend', ?_, heth', hrecv'⟩
  rw [← hframes]
  rfl

/-! A host with an open socket that another one asks. -/

def askingMac : Mac := ⟨0x52, 0x54, 0, 0x12, 0x34, 0x56⟩

def answeringMac : Mac := ⟨0x52, 0x54, 0, 0x12, 0x34, 0x57⟩

def askingSocket : UdpSocket := { UdpSocket.new 5000 with remotePort := 7, remoteIp := ⟨10, 0, 2, 16⟩ }

def asker : Stack :=
  { newStack askingMac with
    ip := ⟨10, 0, 2, 15⟩
    tcp := { NetworkStack.init with arp := ArpCache.new.insert ⟨10, 0, 2, 16⟩ answeringMac }
    udpSockets := fun i => if i = 0 then some askingSocket else none }

def answerer : Stack :=
  { newStack answeringMac with
    ip := ⟨10, 0, 2, 16⟩
    udpSockets := fun i => if i = 0 then some (.new 7) else none }

theorem echo_mayAsk : MayAsk asker answerer 0 0 askingSocket (.new 7) where
  asks := ⟨by decide, rfl, rfl, fun j hj => absurd hj (Nat.not_lt_zero j)⟩
  answers := ⟨by decide, rfl, rfl, fun j hj => absurd hj (Nat.not_lt_zero j)⟩
  route := by decide
  connected := by decide
  unicast := by decide
  addressed := by decide
  room := .inr ⟨0, by decide, rfl⟩
  dhcp := by decide

theorem udp_answered_echo :
    ∃ a₁ n f b₁ b₂ b₃ m g a₂ a₃, asker.udpSend 0 [1, 2, 3] = .ok (a₁, n) ∧ a₁.frames = asker.frames ++ [f] ∧
    answerer.handleEth f = .ok b₁ ∧ b₁.udpRecv 0 8 = .ok (b₂, [1, 2, 3]) ∧
    b₂.udpSend 0 [3, 2, 1] = .ok (b₃, m) ∧ b₃.frames = answerer.frames ++ [g] ∧
    a₁.handleEth g = .ok a₂ ∧ a₂.udpRecv 0 2 = .ok (a₃, [3, 2]) :=
  udp_answered echo_mayAsk (List.cons_ne_nil _ _) (List.cons_ne_nil _ _) 8 2

end WasmOs.UdpService
