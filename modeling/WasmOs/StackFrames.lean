import WasmOs.StackTotal

/-!
# What a stack composes

Every operation of the stack appends frames to those it has composed. Each of them has a length that `net_send`
takes, and the only UDP packets in them are those of `udp_send` and of the DHCP client.
-/

namespace WasmOs

/-- A value that `m` ends with has `P`. -/
structure Rust.Yields {ε α : Type} (m : Rust ε α) (P : α → Prop) : Prop where
  of_ok : ∀ a, m = .ok a → P a

section
variable {ε α β : Type} {m : Rust ε α} {f : α → Rust ε β} {P : α → Prop} {Q : β → Prop}

theorem Rust.Yields.bind (hm : m.Yields P) (hf : ∀ a, P a → (f a).Yields Q) : (m >>= f).Yields Q := by
  refine ⟨fun b hb => ?_⟩
  obtain ⟨a, ha, hb⟩ := bind_eq_ok.mp hb
  exact (hf a (hm.of_ok a ha)).of_ok b hb

theorem yields_bind (hf : ∀ a, (f a).Yields Q) : (m >>= f).Yields Q := by
  refine ⟨fun b hb => ?_⟩
  obtain ⟨a, -, hb⟩ := bind_eq_ok.mp hb
  exact (hf a).of_ok b hb

theorem yields_ok {a : α} (h : P a) : Rust.Yields (.ok a : Rust ε α) P := by
  refine ⟨fun b hb => ?_⟩
  cases hb
  exact h

theorem yields_error (e : Fault ε) : Rust.Yields (.error e : Rust ε α) P := by
  refine ⟨fun b hb => ?_⟩
  cases hb

theorem Rust.Yields.imp {P' : α → Prop} (hm : m.Yields P) (h : ∀ a, P a → P' a) : m.Yields P' :=
  ⟨fun a ha => h a (hm.of_ok a ha)⟩

end

namespace Net

/-- The stack as `try_init` builds it, before its `dhcp_start`, which is a call like any other. -/
def newStack (mac : Mac) : Stack := ⟨mac, .default, .new mac, .init, fun _ => none, []⟩

/-! ## UDP packets in frames -/

def InDatagram (bytes : List UInt8) (u : UdpPacket) : Prop :=
  ∃ ip, Ipv4Packet.parse bytes = .ok (some ip) ∧ ip.protocol = IP_PROTO_UDP ∧
    UdpPacket.parse ip.payload = .ok (some u)

def CarriesUdp (frame : List UInt8) (u : UdpPacket) : Prop :=
  ∃ eth, EthFrame.parse frame = .ok (some eth) ∧ eth.ethertype = ETH_TYPE_IPV4 ∧ InDatagram eth.payload u

/-- The lengths that `net_send` takes. -/
def Sendable (frame : List UInt8) : Prop := 14 ≤ frame.length ∧ frame.length ≤ ETH_FRAME_SIZE

/-- `st'` has composed some more frames, and the UDP packets in them have `S`. -/
def Stack.Grows (S : UdpPacket → Prop) (st st' : Stack) : Prop :=
  ∃ frames, st'.frames = st.frames ++ frames ∧ ∀ f ∈ frames, Sendable f ∧ ∀ u, CarriesUdp f u → S u

/-- Nothing but that, as far as the UDP sockets are concerned. -/
structure Stack.Sends (S : UdpPacket → Prop) (st st' : Stack) : Prop where
  grows : st.Grows S st'
  udp : st'.udpSockets = st.udpSockets

def FromDhcpClient (u : UdpPacket) : Prop := u.srcPort = CLIENT_PORT ∧ u.dstPort = SERVER_PORT

namespace Stack
variable {S T : UdpPacket → Prop} {st st' st'' : Stack}

theorem Grows.of_eq (h : st'.frames = st.frames) : st.Grows S st' :=
  ⟨[], by rw [h, List.append_nil], fun _ hf => by cases hf⟩

theorem Grows.trans (h : st.Grows S st') (h' : st'.Grows S st'') : st.Grows S st'' := by
  obtain ⟨fs, hfs, hall⟩ := h
  obtain ⟨gs, hgs, hall'⟩ := h'
  refine ⟨fs ++ gs, by rw [hgs, hfs, List.append_assoc], fun f hf => ?_⟩
  rcases List.mem_append.mp hf with hf | hf
  · exact hall f hf
  · exact hall' f hf

theorem Grows.mono (h : st.Grows S st') (hST : ∀ u, S u → T u) : st.Grows T st' := by
  obtain ⟨fs, hfs, hall⟩ := h
  exact ⟨fs, hfs, fun f hf => ⟨(hall f hf).1, fun u hu => hST u ((hall f hf).2 u hu)⟩⟩

theorem Sends.of_eq (h : st'.frames = st.frames) (hudp : st'.udpSockets = st.udpSockets) : st.Sends S st' :=
  ⟨.of_eq h, hudp⟩

theorem Sends.refl : st.Sends S st := .of_eq rfl rfl

theorem Sends.trans (h : st.Sends S st') (h' : st'.Sends S st'') : st.Sends S st'' :=
  ⟨h.grows.trans h'.grows, h'.udp.trans h.udp⟩

theorem Sends.after (h : st.Sends S st') (hframes : st.frames = st''.frames)
    (hudp : st.udpSockets = st''.udpSockets) : st''.Sends S st' :=
  Sends.trans (.of_eq hframes hudp) h

end Stack

section
variable {S : UdpPacket → Prop} {st : Stack}

theorem copyInto_length {α ε : Type} {buf bs src : List α} {lo hi : Nat}
    (h : (copyInto buf lo hi src : Rust ε (List α)) = .ok bs) :
    bs.length = buf.length ∧ hi ≤ buf.length := by
  unfold copyInto at h
  split at h
  · rename_i hb
    cases h
    simp
    omega
  · cases h

theorem compose_fits {buf : List UInt8} {dst src : Mac} {ethertype : UInt16} {payload : List UInt8} :
    (EthFrame.compose buf dst src ethertype payload).Yields fun _ => 14 + payload.length ≤ buf.length := by
  refine ⟨fun r hr => ?_⟩
  unfold EthFrame.compose at hr
  obtain ⟨b₁, h₁, hr⟩ := bind_eq_ok.mp hr
  obtain ⟨b₂, h₂, hr⟩ := bind_eq_ok.mp hr
  obtain ⟨b₃, h₃, hr⟩ := bind_eq_ok.mp hr
  obtain ⟨b₄, h₄, -⟩ := bind_eq_ok.mp hr
  have hlen := (copyInto_length h₄).2
  rw [(copyInto_length h₃).1, (copyInto_length h₂).1, (copyInto_length h₁).1] at hlen
  exact hlen

theorem carries_ethBytes {dst src : Mac} {ethertype : UInt16} {payload : List UInt8} {u : UdpPacket} :
    CarriesUdp (ethBytes dst src ethertype payload) u ↔ ethertype = ETH_TYPE_IPV4 ∧ InDatagram payload u := by
  unfold CarriesUdp
  rw [eth_parse]
  constructor
  · rintro ⟨eth, heth, htype, hin⟩
    cases heth
    exact ⟨htype, hin⟩
  · rintro ⟨htype, hin⟩
    exact ⟨_, rfl, htype, hin⟩

theorem inDatagram_ipHeader {total c : UInt16} {protocol : UInt8} {src dst : IpAddr} {payload : List UInt8}
    {u : UdpPacket} :
    InDatagram (ipHeader total c protocol src dst ++ payload) u ↔ protocol = IP_PROTO_UDP ∧
    UdpPacket.parse payload = .ok (some u) := by
  unfold InDatagram
  rw [ipv4_parse]
  constructor
  · rintro ⟨ip, hip, hprotocol, hparse⟩
    cases hip
    exact ⟨hprotocol, hparse⟩
  · rintro ⟨hprotocol, hparse⟩
    exact ⟨_, rfl, hprotocol, hparse⟩

theorem sendEth_sends (dstMac : Mac) {ethertype : UInt16} {payload : List UInt8}
    (h : ethertype = ETH_TYPE_IPV4 → ∀ u, InDatagram payload u → S u) :
    (st.sendEth dstMac ethertype payload).Yields (st.Sends S) := by
  by_cases hfit : 14 + payload.length ≤ ETH_FRAME_SIZE
  · rw [sendEth_eq st dstMac ethertype hfit]
    refine yields_ok ⟨⟨_, rfl, fun f hf => ?_⟩, rfl⟩
    rw [List.mem_singleton.mp hf]
    refine ⟨?_, fun u hu => ?_⟩
    · rw [Sendable, ethBytes_length]
      exact ⟨Nat.le_add_right .., hfit⟩
    · obtain ⟨htype, hin⟩ := carries_ethBytes.mp hu
      exact h htype u hin
  · refine ⟨fun st' hst' => ?_⟩
    unfold Stack.sendEth at hst'
    obtain ⟨r, hr, -⟩ := bind_eq_ok.mp hst'
    have hlen := compose_fits.of_ok r hr
    rw [List.length_replicate] at hlen
    exact absurd hlen hfit

theorem sendArp_sends (dstMac : Mac) (payload : List UInt8) :
    (st.sendEth dstMac ETH_TYPE_ARP payload).Yields (st.Sends S) :=
  sendEth_sends dstMac fun h => absurd h (by decide)

theorem sendArpRequest_sends (ip : IpAddr) : (st.sendArpRequest ip).Yields (st.Sends S) := by
  unfold Stack.sendArpRequest
  exact yields_bind fun _ => sendArp_sends ..

theorem sendIp_sends (dstIp : IpAddr) {ipPayload : List UInt8} (h : ∀ u, InDatagram ipPayload u → S u) :
    (st.sendIp dstIp ipPayload).Yields (st.Sends S) := by
  unfold Stack.sendIp
  split
  · exact sendEth_sends _ fun _ => h
  · split
    · exact sendEth_sends _ fun _ => h
    · exact sendArpRequest_sends ..

theorem datagram_yields {β : Type} {src dst : IpAddr} {protocol : UInt8} {payload : List UInt8}
    {f : List UInt8 → Rust Unit β} {Q : β → Prop}
    (hf : ∀ bytes, (∀ u, InDatagram bytes u → protocol = IP_PROTO_UDP ∧
      UdpPacket.parse payload = .ok (some u)) → (f bytes).Yields Q) :
    (Ipv4Packet.new src dst protocol payload >>= fun p => p.toBytes >>= f).Yields Q := by
  refine ⟨fun b hb => ?_⟩
  obtain ⟨p, hp, hb⟩ := bind_eq_ok.mp hb
  obtain ⟨bytes, hbytes, hb⟩ := bind_eq_ok.mp hb
  unfold Ipv4Packet.new at hp
  obtain ⟨total, -, hp⟩ := bind_eq_ok.mp hp
  cases hp
  rw [ipv4_toBytes] at hbytes
  cases hbytes
  exact (hf _ fun u hu => inDatagram_ipHeader.mp hu).of_ok b hb

theorem sendTcpSeg_sends (lport rport : UInt16) (rip : IpAddr) (seq ack : UInt32) (flags : UInt8)
    (payload : List UInt8) :
    (st.sendTcpSeg lport rport rip seq ack flags payload).Yields (st.Sends S) := by
  unfold Stack.sendTcpSeg
  refine yields_bind fun seg => datagram_yields fun bytes hbytes => sendIp_sends _ fun u hu => ?_
  exact absurd (hbytes u hu).1 (by decide)

theorem transmitAll_sends : ∀ {txs : List Tx} {st : Stack}, (st.transmitAll txs).Yields (st.Sends S)
  | [], _ => yields_ok .refl
  | tx :: txs, st => by
    unfold Stack.transmitAll
    have hone : (st.transmit tx).Yields (st.Sends S) := by
      cases tx with
      | tcpSeg => exact sendTcpSeg_sends ..
      | arpRequest => exact sendArpRequest_sends ..
    exact hone.bind fun st' h => transmitAll_sends.imp fun st'' h' => h.trans h'

theorem withTcp_sends (tcp : NetworkStack) : (st.withTcp tcp).Yields (st.Sends S) := by
  unfold Stack.withTcp
  exact transmitAll_sends.imp fun st' h => h.after rfl rfl

theorem flushPendingSyncs_sends (ip : IpAddr) :
    ∀ {is : List Nat} {st : Stack}, (st.flushPendingSyncs ip is).Yields (st.Sends S)
  | [], _ => yields_ok .refl
  | i :: is, st => by
    unfold Stack.flushPendingSyncs
    split
    · split
      · exact (sendTcpSeg_sends ..).bind fun st' h => (flushPendingSyncs_sends ip).imp fun st'' h' => h.trans h'
      · exact flushPendingSyncs_sends ip
    · exact flushPendingSyncs_sends ip

theorem answerArp_sends (pkt : ArpPacket) : (st.answerArp pkt).Yields (st.Sends S) := by
  unfold Stack.answerArp
  split
  · exact yields_bind fun _ => sendArp_sends ..
  · exact yields_ok .refl

theorem handleArp_sends (pkt : ArpPacket) : (st.handleArp pkt).Yields (st.Sends S) := by
  unfold Stack.handleArp
  refine (answerArp_sends (S := S) pkt).bind fun st' h => ?_
  split
  · exact (flushPendingSyncs_sends _).imp fun st'' h' => h.trans (h'.after rfl rfl)
  · exact yields_ok h

theorem sendIcmpReply_sends (dst : IpAddr) (request : List UInt8) :
    (st.sendIcmpReply dst request).Yields (st.Sends S) := by
  unfold Stack.sendIcmpReply
  split
  · exact yields_ok .refl
  · refine yields_bind fun _ => yields_bind fun _ => yields_bind fun _ => yields_bind fun _ =>
      yields_bind fun _ => ?_
    refine yields_bind fun _ => yields_bind fun _ => yields_bind fun _ => yields_bind fun _ =>
      yields_bind fun _ => ?_
    refine yields_bind fun reply => datagram_yields fun bytes hbytes => sendIp_sends _ fun u hu => ?_
    exact absurd (hbytes u hu).1 (by decide)

/-- The packet that `new` and `to_bytes` make is the one that is parsed. -/
theorem udpBytes_yields {β : Type} {srcPort dstPort : UInt16} {payload : List UInt8}
    {f : UdpPacket → Rust Unit β} {Q : β → Prop}
    (hf : ∀ p, p.srcPort = srcPort → p.dstPort = dstPort → p.payload = payload → (f p).Yields Q) :
    (UdpPacket.new srcPort dstPort payload >>= f).Yields Q := by
  unfold UdpPacket.new
  refine ⟨fun b hb => ?_⟩
  obtain ⟨p, hp, hb⟩ := bind_eq_ok.mp hb
  obtain ⟨length, -, hp⟩ := bind_eq_ok.mp hp
  cases hp
  exact (hf ⟨_, _, _, _, _⟩ rfl rfl rfl).of_ok b hb

theorem sendDhcpUdp_sends (payload : List UInt8) : (st.sendDhcpUdp payload).Yields (st.Sends FromDhcpClient) := by
  unfold Stack.sendDhcpUdp
  refine udpBytes_yields fun p hsrc hdst _ => datagram_yields fun bytes hbytes => sendEth_sends _ fun _ u hu => ?_
  obtain ⟨-, hparse⟩ := hbytes u hu
  rw [udp_parse] at hparse
  cases hparse
  exact ⟨hsrc, hdst⟩

theorem dhcpStart_sends : st.dhcpStart.Yields (st.Sends FromDhcpClient) := by
  unfold Stack.dhcpStart
  exact yields_bind fun pkt => (sendDhcpUdp_sends pkt).imp fun st' h => h.after rfl rfl

theorem handleDhcp_sends (payload : List UInt8) : (st.handleDhcp payload).Yields (st.Sends FromDhcpClient) := by
  unfold Stack.handleDhcp
  refine yields_bind fun _ => yields_bind fun _ => yields_bind fun _ => yields_bind fun r => ?_
  dsimp only
  split
  · exact yields_bind fun req => (sendDhcpUdp_sends req).imp fun st' h => h.after rfl rfl
  · exact yields_ok (.of_eq rfl rfl)
  · exact dhcpStart_sends.imp fun st' h => h.after rfl rfl
  · exact yields_ok (.of_eq rfl rfl)

theorem handleTcp_sends (src : IpAddr) (pkt : TcpPacket) : (st.handleTcp src pkt).Yields (st.Sends S) := by
  unfold Stack.handleTcp
  exact yields_bind fun _ => yields_bind fun tcp => withTcp_sends tcp

end

/-! ## What an operation changes -/

def Stack.Delivers (u : UdpPacket) (st st' : Stack) : Prop :=
  ∃ i s s' src, i < MAX_SOCKETS ∧ st.udpSockets i = some s ∧ s.localPort = u.dstPort ∧ s.handlePkt u src = .ok s' ∧
    st'.frames = st.frames ∧ st'.udpSockets = upd st.udpSockets i (some s')

/-- What `udp_send` of a socket sends. -/
def UdpSocket.Sending (s : UdpSocket) (data : List UInt8) (u : UdpPacket) : Prop :=
  u.srcPort = s.localPort ∧ u.dstPort = s.remotePort ∧ u.payload = data.take MAX_UDP_PAYLOAD

section
variable {st : Stack}

theorem handleUdp_changes (src : IpAddr) (u : UdpPacket) :
    (st.handleUdp src u).Yields fun st' => st.Sends FromDhcpClient st' ∨ st.Delivers u st' := by
  unfold Stack.handleUdp
  split
  · exact (handleDhcp_sends _).imp fun st' => .inl
  split
  · rename_i i hfind
    have hi : i < MAX_SOCKETS := List.mem_range.mp (List.mem_of_find?_eq_some hfind)
    have hport := List.find?_some hfind
    split
    · rename_i s hs
      rw [hs, Option.any_some] at hport
      refine ⟨fun st' hst' => ?_⟩
      obtain ⟨s', hs', hst'⟩ := bind_eq_ok.mp hst'
      cases hst'
      exact .inr ⟨i, s, s', src, hi, hs, beq_iff_eq.mp hport, hs', rfl, rfl⟩
    · exact yields_ok (.inl .refl)
  · exact yields_ok (.inl .refl)

theorem handleIp_changes (pkt : Ipv4Packet) :
    (st.handleIp pkt).Yields fun st' => st.Sends FromDhcpClient st' ∨
      ∃ u, pkt.protocol = IP_PROTO_UDP ∧ UdpPacket.parse pkt.payload = .ok (some u) ∧ st.Delivers u st' := by
  unfold Stack.handleIp
  split
  · split
    · refine yields_bind fun kind => ?_
      split
      · exact (sendIcmpReply_sends _ _).imp fun st' => .inl
      · exact yields_ok (.inl .refl)
    · exact yields_ok (.inl .refl)
  split
  · refine yields_bind fun o => ?_
    cases o with
    | none => exact yields_ok (.inl .refl)
    | some seg => exact (handleTcp_sends _ _).imp fun st' => .inl
  split
  · rename_i hudp
    refine ⟨fun st' hst' => ?_⟩
    obtain ⟨o, ho, hst'⟩ := bind_eq_ok.mp hst'
    cases o with
    | none =>
      cases hst'
      exact .inl .refl
    | some u => exact ((handleUdp_changes _ u).of_ok st' hst').imp id fun h => ⟨u, hudp, ho, h⟩
  · exact yields_ok (.inl .refl)

theorem handleEth_changes (frame : List UInt8) :
    (st.handleEth frame).Yields fun st' => st.Sends FromDhcpClient st' ∨ ∃ u, CarriesUdp frame u ∧
    st.Delivers u st' := by
  refine ⟨fun st' hst' => ?_⟩
  unfold Stack.handleEth at hst'
  obtain ⟨o, ho, hst'⟩ := bind_eq_ok.mp hst'
  cases o with
  | none =>
    cases hst'
    exact .inl .refl
  | some eth =>
    dsimp only at hst'
    split at hst'
    · cases hst'
      exact .inl .refl
    split at hst'
    · obtain ⟨p, -, hst'⟩ := bind_eq_ok.mp hst'
      cases p with
      | none =>
        cases hst'
        exact .inl .refl
      | some p => exact .inl ((handleArp_sends p).of_ok st' hst')
    split at hst'
    · rename_i htype
      obtain ⟨p, hp, hst'⟩ := bind_eq_ok.mp hst'
      cases p with
      | none =>
        cases hst'
        exact .inl .refl
      | some p =>
        dsimp only at hst'
        generalize hnoted : (if !eth.isBroadcast then st.learn p.src eth.src else st) = noted at hst'
        have hsame : noted.frames = st.frames ∧ noted.udpSockets = st.udpSockets := by
          rw [← hnoted]
          split <;> exact ⟨rfl, rfl⟩
        rcases (handleIp_changes p).of_ok st' hst' with h | ⟨u, hudp, hparse, i, s, s', src, hi, hs, hport,
          hpkt, hframes, hsockets⟩
        · exact .inl (h.after hsame.1 hsame.2)
        · rw [hsame.1] at hframes
          rw [hsame.2] at hs hsockets
          exact .inr ⟨u, ⟨eth, ho, htype, p, hp, hudp, hparse⟩, i, s, s', src, hi, hs, hport, hpkt,
            hframes, hsockets⟩
    · cases hst'
      exact .inl .refl

theorem udpSend_sends (i : Nat) (data : List UInt8) :
    (st.udpSend i data).Yields fun r => ∃ s, st.udpSockets i = some s ∧
    r.2 = min data.length MAX_UDP_PAYLOAD ∧ st.Sends (s.Sending data) r.1 := by
  refine ⟨fun r hr => ?_⟩
  unfold Stack.udpSend Stack.udpSocket at hr
  obtain ⟨o, ho, hr⟩ := bind_eq_ok.mp hr
  split at ho <;> cases ho
  cases hs : st.udpSockets i with
  | none => rw [hs] at hr; cases hr
  | some s =>
    rw [hs] at hr
    dsimp only at hr
    split at hr
    · cases hr
    · obtain ⟨sent, hsent, hr⟩ := bind_eq_ok.mp hr
      rw [sliceRange_of_le ⟨Nat.zero_le _, Nat.min_le_left _ _⟩] at hsent
      cases hsent
      refine ⟨s, rfl, ?_⟩
      have hall : Rust.Yields (UdpPacket.new s.localPort s.remotePort
          ((data.take (min data.length MAX_UDP_PAYLOAD)).drop 0) >>= fun pkt =>
          Ipv4Packet.new st.ip s.remoteIp IP_PROTO_UDP pkt.toBytes >>= fun p => p.toBytes >>= fun ipBytes =>
            st.sendIp s.remoteIp ipBytes >>= fun st' =>
              (.ok (st', min data.length MAX_UDP_PAYLOAD) : Rust Unit (Stack × Nat)))
          fun r => r.2 = min data.length MAX_UDP_PAYLOAD ∧ st.Sends (s.Sending data) r.1 := by
        refine udpBytes_yields fun p hsrc hdst hpayload => datagram_yields fun bytes hbytes => ?_
        refine (sendIp_sends _ fun u hu => ?_).bind fun st' h => yields_ok ⟨rfl, h⟩
        obtain ⟨-, hparse⟩ := hbytes u hu
        rw [udp_parse] at hparse
        cases hparse
        refine ⟨hsrc, hdst, ?_⟩
        rw [hpayload, List.drop_zero, Nat.min_comm, ← List.take_eq_take_min]
      exact hall.of_ok r hr

theorem udpRecv_recv (i cap : Nat) :
    (st.udpRecv i cap).Yields fun r => ∃ s s', st.udpSockets i = some s ∧ s.recv cap = some (s', r.2) ∧
    r.1 = st.setUdp i (some s') := by
  refine ⟨fun r hr => ?_⟩
  unfold Stack.udpRecv Stack.udpSocket at hr
  obtain ⟨o, ho, hr⟩ := bind_eq_ok.mp hr
  split at ho <;> cases ho
  cases hs : st.udpSockets i with
  | none => rw [hs] at hr; cases hr
  | some s =>
    rw [hs] at hr
    dsimp only at hr
    cases hrecv : s.recv cap with
    | none => rw [hrecv] at hr; cases hr
    | some p =>
      rw [hrecv] at hr
      cases hr
      exact ⟨s, p.1, rfl, hrecv, rfl⟩

theorem orStay_yields {Q : Stack → Prop} {m : Rust Unit Stack} (h : m.Yields Q) (hst : Q st) :
    (st.orStay m).Yields Q := by
  cases m with
  | ok st' => exact h
  | error e =>
    cases e with
    | err e => exact yields_ok hst
    | panic => exact yields_error _
    | hang => exact yields_error _

theorem map_fst_yields {ε α β : Type} {m : Rust ε (α × β)} {Q : α → Prop} (h : m.Yields fun r => Q r.1) :
    Rust.Yields (m.map Prod.fst) Q := by
  cases m with
  | ok r => exact yields_ok (h.of_ok r rfl)
  | error e => exact yields_error e

/-- Whatever is done to a stack, what it has composed stays, and what it composes can be sent. -/
theorem step_grows (op : StackOp) : (st.step op).Yields (st.Grows fun _ => True) := by
  cases op with
  | frame bytes =>
    refine (handleEth_changes bytes).imp fun st' h => ?_
    rcases h with h | ⟨u, -, i, s, s', src, -, -, -, -, hframes, -⟩
    · exact h.grows.mono fun _ _ => trivial
    · exact .of_eq hframes
  | tcp op => exact yields_bind fun tcp => (withTcp_sends tcp).imp fun st' h => h.grows
  | udpBind port =>
    refine yields_ok (.of_eq ?_)
    unfold Stack.udpBind
    split <;> rfl
  | udpSend i data =>
    refine orStay_yields (map_fst_yields ?_) (.of_eq rfl)
    refine (udpSend_sends i data).imp fun r h => ?_
    obtain ⟨s, -, -, hsends⟩ := h
    exact hsends.grows.mono fun _ _ => trivial
  | udpConnect i dstIp dstPort =>
    refine orStay_yields ⟨fun st' hst' => .of_eq ?_⟩ (.of_eq rfl)
    unfold Stack.udpConnect at hst'
    split at hst' <;> cases hst'
    rfl
  | udpClose i =>
    refine yields_ok (.of_eq ?_)
    unfold Stack.udpClose
    split <;> rfl
  | udpRecv i cap =>
    refine orStay_yields (map_fst_yields ?_) (.of_eq rfl)
    refine (udpRecv_recv i cap).imp fun r h => ?_
    obtain ⟨s, s', -, -, hst'⟩ := h
    rw [hst']
    exact .of_eq rfl
  | setIp ip => exact yields_ok (.of_eq rfl)
  | dhcpStart => exact dhcpStart_sends.imp fun st' h => h.grows.mono fun _ _ => trivial

end

end Net

end WasmOs
