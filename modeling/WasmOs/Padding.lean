import WasmOs.Replies
import WasmOs.TcpDelivery

/-!
# Padding behind a datagram

Ethernet pads a short frame, and the length fields of IPv4 and UDP say where the datagram ends. No
parser looks at them: what is behind the header is payload up to the end of the frame. A padded frame is
handled as the datagram alone exactly when what the padding is taken for does not matter.
-/

namespace WasmOs.Net

/-! ## Headers do not change -/

section
variable {ε α : Type} {bytes : List α} {i lo hi : Nat}

theorem index_append (h : i < bytes.length) (p : List α) : (index (bytes ++ p) i : Rust ε α) = index bytes i := by
  unfold index
  rw [List.getElem?_append_left h]

theorem sliceRange_append (h : hi ≤ bytes.length) (p : List α) :
    (sliceRange (bytes ++ p) lo hi : Rust ε (List α)) = sliceRange bytes lo hi := by
  unfold sliceRange
  rw [List.take_append_of_le_length h, List.length_append]
  simp only [h, Nat.le_add_right_of_le h]

theorem sliceFrom_append (h : i ≤ bytes.length) (p : List α) :
    (sliceFrom (bytes ++ p) i : Rust ε (List α)) = .ok (bytes.drop i ++ p) := by
  unfold sliceFrom
  rw [if_pos (by rw [List.length_append]; omega), List.drop_append_of_le_length h]

end

section
variable {bytes : List UInt8} (p : List UInt8)

theorem u16At_append {i : Nat} (h : i + 1 < bytes.length) : u16At (bytes ++ p) i = u16At bytes i := by
  unfold u16At
  rw [index_append (by omega), index_append h]

theorem u32At_append {i : Nat} (h : i + 3 < bytes.length) : u32At (bytes ++ p) i = u32At bytes i := by
  unfold u32At
  rw [index_append (by omega), index_append (by omega), index_append (by omega), index_append h]

theorem ipv4_parse_append {pkt : Ipv4Packet} (h : Ipv4Packet.parse bytes = .ok (some pkt)) :
    Ipv4Packet.parse (bytes ++ p) = .ok (some { pkt with payload := pkt.payload ++ p }) ∧
      20 + pkt.payload.length ≤ bytes.length := by
  unfold Ipv4Packet.parse at h ⊢
  by_cases hlen : bytes.length < 20
  · rw [if_pos hlen] at h
    cases h
  rw [if_neg hlen] at h
  rw [if_neg (by rw [List.length_append]; omega), index_append (by omega)]
  obtain ⟨v, hv, h⟩ := bind_eq_ok.mp h
  rw [hv, bind_ok]
  by_cases hver : v >>> 4 ≠ 4
  · rw [if_pos hver] at h
    cases h
  rw [if_neg hver] at h ⊢
  dsimp only at h ⊢
  generalize hihl : (v &&& 0x0F).toNat * 4 = ihl at h ⊢
  by_cases hbad : ihl < 20 ∨ bytes.length < ihl
  · rw [if_pos hbad] at h
    cases h
  rw [if_neg hbad] at h
  rw [if_neg (by rw [List.length_append]; omega)]
  rw [u16At_append p (by omega), u16At_append p (by omega), u16At_append p (by omega), index_append (by omega),
    index_append (by omega), sliceRange_append (by omega), sliceRange_append (by omega), index_append (by omega),
    sliceFrom_append (by omega)]
  obtain ⟨totalLen, h₁, h⟩ := bind_eq_ok.mp h
  obtain ⟨id, h₂, h⟩ := bind_eq_ok.mp h
  obtain ⟨flagsOffset, h₃, h⟩ := bind_eq_ok.mp h
  obtain ⟨ttl, h₄, h⟩ := bind_eq_ok.mp h
  obtain ⟨protocol, h₅, h⟩ := bind_eq_ok.mp h
  obtain ⟨srcBytes, h₆, h⟩ := bind_eq_ok.mp h
  obtain ⟨src, h₇, h⟩ := bind_eq_ok.mp h
  obtain ⟨dstBytes, h₈, h⟩ := bind_eq_ok.mp h
  obtain ⟨dst, h₉, h⟩ := bind_eq_ok.mp h
  obtain ⟨tos, h₁₀, h⟩ := bind_eq_ok.mp h
  obtain ⟨payload, h₁₁, h⟩ := bind_eq_ok.mp h
  cases h
  obtain ⟨hle, rfl⟩ := sliceFrom_eq_ok.mp h₁₁
  simp only [h₁, h₂, h₃, h₄, h₅, h₆, h₇, h₈, h₉, h₁₀, bind_ok, true_and]
  rw [List.length_drop]
  omega

theorem udp_parse_append {u : UdpPacket} (h : UdpPacket.parse bytes = .ok (some u)) :
    UdpPacket.parse (bytes ++ p) = .ok (some { u with payload := u.payload ++ p }) ∧
    8 + u.payload.length = bytes.length := by
  unfold UdpPacket.parse at h ⊢
  by_cases hlen : bytes.length < 8
  · rw [if_pos hlen] at h
    cases h
  rw [if_neg hlen] at h
  rw [if_neg (by rw [List.length_append]; omega), u16At_append p (by omega), u16At_append p (by omega),
    u16At_append p (by omega),
    u16At_append p (by omega), sliceFrom_append (by omega)]
  obtain ⟨srcPort, h₁, h⟩ := bind_eq_ok.mp h
  obtain ⟨dstPort, h₂, h⟩ := bind_eq_ok.mp h
  obtain ⟨length, h₃, h⟩ := bind_eq_ok.mp h
  obtain ⟨checksum, h₄, h⟩ := bind_eq_ok.mp h
  obtain ⟨payload, h₅, h⟩ := bind_eq_ok.mp h
  cases h
  obtain ⟨hle, rfl⟩ := sliceFrom_eq_ok.mp h₅
  simp only [h₁, h₂, h₃, h₄, bind_ok, true_and]
  rw [List.length_drop]
  omega

theorem tcp_parse_append {seg : TcpPacket} (h : TcpPacket.parse bytes = .ok (some seg)) :
    TcpPacket.parse (bytes ++ p) = .ok (some { seg with payload := seg.payload ++ p }) ∧
      20 + seg.payload.length ≤ bytes.length := by
  unfold TcpPacket.parse at h ⊢
  by_cases hlen : bytes.length < 20
  · rw [if_pos hlen] at h
    cases h
  rw [if_neg hlen] at h
  rw [if_neg (by rw [List.length_append]; omega), u16At_append p (by omega), u16At_append p (by omega),
    u32At_append p (by omega),
    u32At_append p (by omega), index_append (by omega)]
  obtain ⟨srcPort, h₁, h⟩ := bind_eq_ok.mp h
  obtain ⟨dstPort, h₂, h⟩ := bind_eq_ok.mp h
  obtain ⟨seq, h₃, h⟩ := bind_eq_ok.mp h
  obtain ⟨ackNo, h₄, h⟩ := bind_eq_ok.mp h
  obtain ⟨dataOff, h₅, h⟩ := bind_eq_ok.mp h
  simp only [h₁, h₂, h₃, h₄, h₅, bind_ok]
  dsimp only at h
  generalize hhdr : (dataOff >>> 4).toNat * 4 = hdrLen at h ⊢
  by_cases hbad : hdrLen < 20 ∨ hdrLen > bytes.length
  · rw [if_pos hbad] at h
    cases h
  rw [if_neg hbad] at h
  rw [if_neg (by rw [List.length_append]; omega), index_append (by omega), sliceFrom_append (by omega)]
  obtain ⟨flags, h₆, h⟩ := bind_eq_ok.mp h
  obtain ⟨payload, h₇, h⟩ := bind_eq_ok.mp h
  cases h
  obtain ⟨hle, rfl⟩ := sliceFrom_eq_ok.mp h₇
  simp only [h₆, bind_ok, true_and]
  rw [List.length_drop]
  omega

end

/-! ## What padding is ignored -/

/-- An echo request, for `handle_ip`. -/
def IsEcho (bytes : List UInt8) : Prop := 8 ≤ bytes.length ∧ bytes[0]? = some 8

instance (bytes : List UInt8) : Decidable (IsEcho bytes) := inferInstanceAs (Decidable (_ ∧ _))

def TcpSocket.Stores (s : TcpSocket) (seg : TcpPacket) : Prop :=
  s.state = .established ∧ seg.rst = false ∧ seg.fin = false

/-- Messages with these options do the same to a client in its state: it looks at their type, and at the
rest of an offer. -/
def DhcpClient.Alike (c : DhcpClient) (o o' : DhcpOptions) : Prop :=
  match c.state with
  | .selecting => if o.msgType = MSG_OFFER then o' = o else o'.msgType ≠ MSG_OFFER
  | .requesting => (o'.msgType = MSG_ACK ↔ o.msgType = MSG_ACK) ∧ (o'.msgType = MSG_NAK ↔ o.msgType = MSG_NAK)
  | .idle | .bound => True

section
variable (st : Stack)

/-- Echo: the padding does not make the request, and the request fills the reply by itself or there is no
way to send one. -/
def EchoIgnores (src : IpAddr) (q p : List UInt8) : Prop :=
  IsEcho (q ++ p) → IsEcho q ∧ (64 ≤ q.length ∨ st.route src = none)

/-- TCP: the socket of the segment does not store its payload; or the header itself reaches into the
padding, and the segment it then makes does nothing. -/
def SegmentIgnores (q p : List UInt8) : Prop :=
  ∀ seg, TcpPacket.parse (q ++ p) = .ok (some seg) →
    ∀ i s, st.tcp.findTcpSocket seg.dstPort seg.srcPort = some i → st.tcp.tcpSockets i = some s →
      match TcpPacket.parse q with
      | .ok (some _) => ¬ s.Stores seg
      | _ => s.Unmoved seg ∧ (s.state = .established → seg.payload = [])

/-- UDP: no socket has the port; for DHCP, the client reads the same options. -/
def PacketIgnores (q p : List UInt8) : Prop :=
  ∀ u, UdpPacket.parse q = .ok (some u) →
    if u.srcPort = SERVER_PORT ∧ u.dstPort = CLIENT_PORT then
      st.dhcp.Alike (st.dhcp.heard u.payload) (st.dhcp.heard (u.payload ++ p))
    else ∀ i < MAX_SOCKETS, ∀ s, st.udpSockets i = some s → s.localPort ≠ u.dstPort

/-- The stack does not notice `p` behind the payload of the datagram. -/
def Stack.Ignores (pkt : Ipv4Packet) (p : List UInt8) : Prop :=
  if pkt.protocol = IP_PROTO_ICMP then EchoIgnores st pkt.src pkt.payload p
  else if pkt.protocol = IP_PROTO_TCP then SegmentIgnores st pkt.payload p
  else if pkt.protocol = IP_PROTO_UDP then PacketIgnores st pkt.payload p
  else True

end

/-! ## Echo requests -/

section
variable (st : Stack) {q p : List UInt8}

theorem IsEcho.append (h : IsEcho q) (p : List UInt8) : IsEcho (q ++ p) := by
  obtain ⟨hlen, hkind⟩ := h
  refine ⟨?_, ?_⟩
  · rw [List.length_append]
    exact Nat.le_add_right_of_le hlen
  · rw [List.getElem?_append_left (by omega)]
    exact hkind

theorem handleIp_icmp (pkt : Ipv4Packet) (h : pkt.protocol = IP_PROTO_ICMP) :
    st.handleIp pkt = if IsEcho pkt.payload then st.sendIcmpReply pkt.src pkt.payload else .ok st := by
  unfold Stack.handleIp
  rw [if_pos h]
  by_cases hlen : 8 ≤ pkt.payload.length
  · rw [if_pos hlen, index_of_lt (by omega), bind_ok]
    have hkind : IsEcho pkt.payload ↔ pkt.payload[0] = 8 := by
      unfold IsEcho
      rw [List.getElem?_eq_getElem (by omega)]
      exact ⟨fun h => Option.some.inj h.2, fun h => ⟨hlen, congrArg some h⟩⟩
    simp only [hkind]
  · rw [if_neg hlen, if_neg fun h => hlen h.1]

/-- A reply takes nothing from behind the first 64 bytes. -/
theorem sendIcmpReply_append (dst : IpAddr) (h : 64 ≤ q.length) (p : List UInt8) :
    st.sendIcmpReply dst (q ++ p) = st.sendIcmpReply dst q := by
  have hlen : (q ++ p).length = q.length + p.length := List.length_append
  have hmin : min (q ++ p).length 64 = min q.length 64 := by omega
  have hrest : ∀ n, 64 ≤ n → (usub n 4 : Rust Unit Nat) = .ok (n - 4) := fun n hn => if_pos (by omega)
  have hcopy : min (64 - 4) ((q ++ p).length - 4) = min (64 - 4) (q.length - 4) := by omega
  unfold Stack.sendIcmpReply
  rw [if_neg (by omega), if_neg (by omega), hmin, Nat.min_eq_right h, hrest (q ++ p).length (by omega),
    hrest q.length h]
  simp only [hrest 64 (Nat.le_refl _), bind_ok, hcopy]
  rw [sliceRange_append (by omega)]

theorem sendIcmpReply_sent (dst : IpAddr) (h : IsEcho q) :
    ∃ frame, st.sendIcmpReply dst q = .ok (st.sent frame) := by
  obtain ⟨bytes, hbytes, hsend⟩ := sendIcmpReply_sendsIp st dst h.1
  rw [hsend]
  exact sendIp_sent st dst (by unfold ETH_FRAME_SIZE; omega)

/-- A request of less than 64 bytes is answered with as many. -/
theorem sendIcmpReply_append_ne {dst : IpAddr} {mac : Mac} (hp : p ≠ []) (h : IsEcho q) (hlt : q.length < 64)
    (hroute : st.route dst = some mac) : st.sendIcmpReply dst (q ++ p) ≠ st.sendIcmpReply dst q := by
  have hpos : 0 < p.length := List.length_pos_iff.mpr hp
  obtain ⟨bytes, hbytes, hsend⟩ := sendIcmpReply_sendsIp st dst h.1
  obtain ⟨bytes', hbytes', hsend'⟩ := sendIcmpReply_sendsIp st dst (h.append p).1
  rw [List.length_append] at hbytes'
  rw [hsend, hsend', sendIp_some st hroute (by unfold ETH_FRAME_SIZE; omega),
    sendIp_some st hroute (by unfold ETH_FRAME_SIZE; omega)]
  intro heq
  have hframe := List.append_cancel_left (congrArg Stack.frames (Except.ok.inj heq))
  have hlen := congrArg List.length (List.singleton_inj.mp hframe)
  rw [ethBytes_length, ethBytes_length] at hlen
  omega

theorem echo_append_iff (hp : p ≠ []) {pkt : Ipv4Packet} (h : pkt.protocol = IP_PROTO_ICMP) :
    st.handleIp { pkt with payload := pkt.payload ++ p } = st.handleIp pkt ↔
    EchoIgnores st pkt.src pkt.payload p := by
  rw [handleIp_icmp st pkt h, handleIp_icmp st { pkt with payload := pkt.payload ++ p } h]
  dsimp only
  unfold EchoIgnores
  generalize pkt.payload = q
  by_cases hecho : IsEcho q
  · have happ := hecho.append p
    rw [if_pos happ, if_pos hecho]
    simp only [happ, hecho, true_and, forall_const]
    by_cases hlen : 64 ≤ q.length
    · exact ⟨fun _ => .inl hlen, fun _ => sendIcmpReply_append st pkt.src hlen p⟩
    · cases hroute : st.route pkt.src with
      | none =>
        refine ⟨fun _ => .inr rfl, fun _ => ?_⟩
        obtain ⟨bytes, -, hsend⟩ := sendIcmpReply_sendsIp st pkt.src hecho.1
        obtain ⟨bytes', -, hsend'⟩ := sendIcmpReply_sendsIp st pkt.src happ.1
        rw [hsend, hsend', sendIp_none st hroute, sendIp_none st hroute]
      | some mac =>
        have hne := sendIcmpReply_append_ne st hp hecho (Nat.not_le.mp hlen) hroute
        exact ⟨fun heq => absurd heq hne, fun h => by simp [hlen] at h⟩
  · rw [if_neg hecho]
    by_cases happ : IsEcho (q ++ p)
    · rw [if_pos happ]
      obtain ⟨frame, hsend⟩ := sendIcmpReply_sent st pkt.src happ
      rw [hsend]
      exact ⟨fun heq => absurd (Except.ok.inj heq) (sent_ne st frame), fun h => absurd (h happ).1 hecho⟩
    · rw [if_neg happ]
      exact ⟨fun _ h => absurd h happ, fun _ => rfl⟩

end

/-! ## Segments -/

namespace TcpSocket

variable {s : TcpSocket} {seg : TcpPacket} (src : IpAddr)

theorem handlePkt_payload (h : ¬ s.Stores seg) (x : List UInt8) :
    s.handlePkt { seg with payload := x } src = s.handlePkt seg src := by
  unfold handlePkt
  change (if seg.rst = true then _ else _) = _
  cases hr : seg.rst
  · have heff : ∀ s' : TcpSocket, s'.state = s.state → s'.handleState { seg with payload := x } src =
      s'.handleState seg src := by
      intro s' hs'
      unfold handleState
      cases hq : s'.state with
      | established =>
        have hf : seg.fin = true := by
          by_contra hf
          exact h ⟨hs' ▸ hq, hr, Bool.not_eq_true _ ▸ hf⟩
        have hf' : TcpPacket.fin { seg with payload := x } = true := hf
        simp only [hf, hf', if_true]
      | _ => rfl
    exact heff _ rfl
  · rfl

theorem handlePkt_append_ne (h : s.Stores seg) {p : List UInt8} (hp : p ≠ [])
    (hlt : seg.payload.length + p.length < 2 ^ 32) :
    (s.handlePkt seg src).1 ≠ (s.handlePkt { seg with payload := seg.payload ++ p } src).1 ∨
      (s.handlePkt seg src).2 = none ∧ (s.handlePkt { seg with payload := seg.payload ++ p } src).2 ≠ none := by
  obtain ⟨hq, hr, hf⟩ := h
  have hpos : 0 < p.length := List.length_pos_iff.mpr hp
  have hnext : ∀ x, s.state.next { seg with payload := x } = s.state := by
    intro x
    have hr' : TcpPacket.rst { seg with payload := x } = false := hr
    have hf' : TcpPacket.fin { seg with payload := x } = false := hf
    simp [TcpState.next, hq, hr', hf']
  rw [handlePkt_data src (hnext (seg.payload ++ p)) hq (by simp [hp])]
  by_cases hempty : seg.payload = []
  · rw [handlePkt_of_next src (hnext seg.payload) fun _ => hempty]
    exact .inr ⟨rfl, Option.some_ne_none _⟩
  · rw [handlePkt_data src (hnext seg.payload) hq hempty]
    left
    intro heq
    have hack : UInt32.ofNat seg.payload.length = UInt32.ofNat (seg.payload ++ p).length :=
      (UInt32.add_right_inj seg.seq).mp (congrArg TcpSocket.ack heq)
    have hnat := congrArg UInt32.toNat hack
    rw [List.length_append, UInt32.toNat_ofNat', UInt32.toNat_ofNat', Nat.mod_eq_of_lt (by omega),
      Nat.mod_eq_of_lt hlt] at hnat
    omega

end TcpSocket

section
variable (st : Stack) {p : List UInt8}

theorem handleIp_tcp (pkt : Ipv4Packet) (h : pkt.protocol = IP_PROTO_TCP) :
    st.handleIp pkt = (do
      match ← TcpPacket.parse pkt.payload with
      | some seg => st.handleTcp pkt.src seg
      | none => .ok st) := by
  have hne : ¬ pkt.protocol = IP_PROTO_ICMP := by rw [h]; decide
  unfold Stack.handleIp
  rw [if_neg hne]
  exact if_pos h

variable {st} (hnet : st.tcp.net = []) (src : IpAddr)
include hnet

/-- A segment whose header ends in the padding. -/
theorem completed_iff (seg : TcpPacket) :
    st.handleTcp src seg = .ok st ↔
      ∀ i s, st.tcp.findTcpSocket seg.dstPort seg.srcPort = some i → st.tcp.tcpSockets i = some s →
        s.Unmoved seg ∧ (s.state = .established → seg.payload = []) := by
  cases hf : st.tcp.findTcpSocket seg.dstPort seg.srcPort with
  | none => exact ⟨fun _ i s hi => (by cases hi), fun _ => handleTcp_unmatched hnet src seg hf⟩
  | some i =>
    obtain ⟨-, s, hs, -⟩ := NetworkStack.findTcpSocket_some hf
    rw [handleTcp_settle hnet src seg hf hs, settle_eq_self hs, TcpSocket.handlePkt_fst_eq]
    constructor
    · rintro ⟨hun, hreply⟩ j t hj ht
      cases hj
      cases hs.symm.trans ht
      exact ⟨hun, (hun.reply src).mp hreply⟩
    · intro h
      obtain ⟨hun, hp⟩ := h i s rfl hs
      exact ⟨hun, (hun.reply src).mpr hp⟩

theorem carried_iff (hp : p ≠ []) {seg : TcpPacket} (hlt : seg.payload.length + p.length < 2 ^ 32) :
    st.handleTcp src { seg with payload := seg.payload ++ p } = st.handleTcp src seg ↔
      ∀ i s, st.tcp.findTcpSocket seg.dstPort seg.srcPort = some i → st.tcp.tcpSockets i = some s →
      ¬ s.Stores seg := by
  cases hf : st.tcp.findTcpSocket seg.dstPort seg.srcPort with
  | none =>
    rw [handleTcp_unmatched hnet src seg hf,
      handleTcp_unmatched hnet src { seg with payload := seg.payload ++ p } hf]
    exact ⟨fun _ i s hi => (by cases hi), fun _ => rfl⟩
  | some i =>
    obtain ⟨-, s, hs, -⟩ := NetworkStack.findTcpSocket_some hf
    rw [handleTcp_settle hnet src seg hf hs,
      handleTcp_settle hnet src { seg with payload := seg.payload ++ p } hf hs]
    constructor
    · intro heq j t hj ht hstores
      cases hj
      cases hs.symm.trans ht
      obtain ⟨hsock, hlen⟩ := settle_inj heq
      obtain hne | ⟨hnone, hsome⟩ := TcpSocket.handlePkt_append_ne src hstores hp hlt
      · exact hne hsock.symm
      · rw [hnone] at hlen
        cases hr : (s.handlePkt { seg with payload := seg.payload ++ p } src).2 with
        | none => exact hsome hr
        | some r =>
          rw [hr] at hlen
          cases hlen
    · intro h
      rw [TcpSocket.handlePkt_payload src (h i s rfl hs)]

theorem segment_append_iff (hp : p ≠ []) {pkt : Ipv4Packet} (hlt : pkt.payload.length + p.length < 2 ^ 32)
    (h : pkt.protocol = IP_PROTO_TCP) :
    st.handleIp { pkt with payload := pkt.payload ++ p } = st.handleIp pkt ↔ SegmentIgnores st pkt.payload p := by
  rw [handleIp_tcp st pkt h, handleIp_tcp st { pkt with payload := pkt.payload ++ p } h]
  dsimp only
  unfold SegmentIgnores
  obtain ⟨o, ho, -⟩ := tcp_parse_ends pkt.payload
  rw [ho, bind_ok]
  cases o with
  | some seg =>
    obtain ⟨happ, hlen⟩ := tcp_parse_append p ho
    rw [happ, bind_ok]
    dsimp only
    rw [carried_iff hnet pkt.src hp (by omega)]
    constructor
    · intro hall seg' hseg'
      cases hseg'
      exact hall
    · intro hall
      exact hall { seg with payload := seg.payload ++ p } rfl
  | none =>
    obtain ⟨o', ho', -⟩ := tcp_parse_ends (pkt.payload ++ p)
    rw [ho', bind_ok]
    cases o' with
    | none => exact ⟨fun _ seg' hseg' => (by cases hseg'), fun _ => rfl⟩
    | some seg =>
      dsimp only
      rw [completed_iff hnet pkt.src]
      constructor
      · intro hall seg' hseg'
        cases hseg'
        exact hall
      · intro hall
        exact hall seg rfl

end

/-! ## DHCP messages -/

section
variable {c : DhcpClient} (st : Stack)

theorem act_after_selecting (hq : c.state = .selecting) (y : IpAddr) (o : DhcpOptions) :
    (c.act y o).1.after (c.act y o).2 =
      if o.msgType = MSG_OFFER then
        { c with
          offeredIp := y, serverIp := o.serverId, subnetMask := o.subnetMask, gateway := o.gateway,
          leaseSecs := o.leaseSecs
          state := .requesting }
      else c := by
  by_cases ho : o.msgType = MSG_OFFER
  · simp only [DhcpClient.act, hq, ho, if_true, DhcpClient.after]
  · simp only [DhcpClient.act, hq, ho, if_false, DhcpClient.after]

theorem act_after_requesting (hq : c.state = .requesting) (y : IpAddr) (o : DhcpOptions) :
    (c.act y o).1.after (c.act y o).2 =
      if o.msgType = MSG_ACK then { c with offeredIp := y, state := .bound }
      else if o.msgType = MSG_NAK then { c with state := .selecting }
      else c := by
  have hne : ¬ MSG_NAK = MSG_ACK := by decide
  by_cases ha : o.msgType = MSG_ACK
  · simp only [DhcpClient.act, hq, ha, if_true, DhcpClient.after]
  · by_cases hn : o.msgType = MSG_NAK
    · simp only [DhcpClient.act, hq, hne, hn, if_true, if_false, DhcpClient.after]
    · simp only [DhcpClient.act, hq, ha, hn, if_false, DhcpClient.after]

theorem selecting_alike {y : IpAddr} {o o' : DhcpOptions} {y' : IpAddr} (hq : c.state = .selecting)
    (h : (c.act y' o').1.after (c.act y' o').2 = (c.act y o).1.after (c.act y o).2) : c.Alike o o' := by
  rw [act_after_selecting hq, act_after_selecting hq] at h
  unfold DhcpClient.Alike
  rw [hq]
  by_cases ho : o.msgType = MSG_OFFER
  · by_cases ho' : o'.msgType = MSG_OFFER
    · rw [if_pos ho, if_pos ho'] at h
      obtain ⟨t, server, mask, gw, secs⟩ := o
      obtain ⟨t', server', mask', gw', secs'⟩ := o'
      dsimp only at ho ho'
      injection h with _ _ _ h₁ h₂ h₃ h₄
      dsimp only at h₁ h₂ h₃ h₄ ⊢
      rw [if_pos ho, ho, ho', h₁, h₂, h₃, h₄]
    · rw [if_pos ho, if_neg ho'] at h
      have hstate := congrArg DhcpClient.state h
      rw [hq] at hstate
      cases hstate
  · by_cases ho' : o'.msgType = MSG_OFFER
    · rw [if_neg ho, if_pos ho'] at h
      have hstate := congrArg DhcpClient.state h
      rw [hq] at hstate
      cases hstate
    · simp only [ho, if_false]
      exact ho'

theorem requesting_alike {y : IpAddr} {o o' : DhcpOptions} {y' : IpAddr} (hq : c.state = .requesting)
    (h : (c.act y' o').1.after (c.act y' o').2 = (c.act y o).1.after (c.act y o).2) : c.Alike o o' := by
  have hne : MSG_NAK ≠ MSG_ACK := by decide
  -- the three outcomes are three states
  have outcome : ∀ (y : IpAddr) (o : DhcpOptions), ((c.act y o).1.after (c.act y o).2).state =
      if o.msgType = MSG_ACK then .bound else if o.msgType = MSG_NAK then .selecting else .requesting := by
    intro y o
    rw [act_after_requesting hq]
    split
    · rfl
    split
    · rfl
    · exact hq
  have hstate := congrArg DhcpClient.state h
  rw [outcome, outcome] at hstate
  have acked : ∀ {o o' : DhcpOptions}, (if o'.msgType = MSG_ACK then DhcpState.bound else
      if o'.msgType = MSG_NAK then .selecting else .requesting) =
      (if o.msgType = MSG_ACK then .bound else if o.msgType = MSG_NAK then .selecting else .requesting) →
      (o'.msgType = MSG_ACK → o.msgType = MSG_ACK) ∧ (o'.msgType = MSG_NAK → o.msgType = MSG_NAK) := by
    intro o o' hstate
    constructor
    · intro ha'
      by_contra ha
      rw [if_pos ha', if_neg ha] at hstate
      split at hstate <;> cases hstate
    · intro hn'
      by_contra hn
      rw [if_neg (hn' ▸ hne), if_pos hn', if_neg hn] at hstate
      split at hstate <;> cases hstate
  unfold DhcpClient.Alike
  rw [hq]
  exact ⟨⟨(acked hstate).1, (acked hstate.symm).1⟩, ⟨(acked hstate).2, (acked hstate.symm).2⟩⟩

/-- Alike messages do the same, as long as they offer the same address. -/
theorem act_alike {y y' : IpAddr} {o o' : DhcpOptions} (hy : o.msgType ≠ 0 → y' = y) (h : c.Alike o o') :
    c.act y' o' = c.act y o := by
  unfold DhcpClient.Alike at h
  unfold DhcpClient.act
  cases hq : c.state with
  | idle => rfl
  | bound => rfl
  | selecting =>
    rw [hq] at h
    by_cases ho : o.msgType = MSG_OFFER
    · simp only [ho, if_true] at h
      rw [h, hy (by rw [ho]; decide)]
    · simp only [ho, if_false] at h ⊢
      rw [if_neg h]
  | requesting =>
    rw [hq] at h
    obtain ⟨hack, hnak⟩ := h
    simp only [hack, hnak]
    by_cases ha : o.msgType = MSG_ACK
    · rw [hy (by rw [ha]; decide)]
    · rw [if_neg ha, if_neg ha]

theorem yiaddrOf_append {data : List UInt8} (h : 20 ≤ data.length) (q : List UInt8) :
    yiaddrOf (data ++ q) = yiaddrOf data := by
  have hget : ∀ i < 20, (data ++ q).getD i 0 = data.getD i 0 := by
    intro i hi
    rw [List.getD_eq_getElem?_getD, List.getD_eq_getElem?_getD, List.getElem?_append_left (by omega)]
  unfold yiaddrOf
  rw [hget 16 (by decide), hget 17 (by decide), hget 18 (by decide), hget 19 (by decide)]

theorem message_append_iff (payload p : List UInt8) :
    st.handleDhcp (payload ++ p) = st.handleDhcp payload ↔
      st.dhcp.Alike (st.dhcp.heard payload) (st.dhcp.heard (payload ++ p)) := by
  have hy : (st.dhcp.heard payload).msgType ≠ 0 →
      yiaddrOf (received (payload ++ p)) = yiaddrOf (received payload) := by
    intro hne
    by_cases hr : IsReply st.dhcp.xid (received payload)
    · have hsplit : received (payload ++ p) = received payload ++ p.take (1024 - payload.length) := List.take_append
      rw [hsplit, yiaddrOf_append (Nat.le_trans (by decide) hr.1)]
    · unfold DhcpClient.heard at hne
      rw [if_neg hr] at hne
      exact absurd rfl hne
  rw [handleDhcp_follow, handleDhcp_follow]
  constructor
  · intro heq
    obtain ⟨st₁, h₁, hdhcp₁⟩ := follow_dhcp st (st.dhcp.act (yiaddrOf (received payload)) (st.dhcp.heard payload)).1
      (st.dhcp.act (yiaddrOf (received payload)) (st.dhcp.heard payload)).2
    obtain ⟨st₂, h₂, hdhcp₂⟩ :=
      follow_dhcp st (st.dhcp.act (yiaddrOf (received (payload ++ p))) (st.dhcp.heard (payload ++ p))).1
      (st.dhcp.act (yiaddrOf (received (payload ++ p))) (st.dhcp.heard (payload ++ p))).2
    rw [h₁, h₂] at heq
    cases heq
    have hafter := hdhcp₂.symm.trans hdhcp₁
    cases hq : st.dhcp.state with
    | selecting => exact selecting_alike hq hafter
    | requesting => exact requesting_alike hq hafter
    | idle | bound =>
      unfold DhcpClient.Alike
      rw [hq]
      trivial
  · intro h
    rw [act_alike hy h]

end

/-! ## UDP packets -/

section
variable (st : Stack) {p : List UInt8}

theorem handleIp_udp (pkt : Ipv4Packet) (h : pkt.protocol = IP_PROTO_UDP) {u : UdpPacket}
    (hu : UdpPacket.parse pkt.payload = .ok (some u)) :
    st.handleIp pkt = st.handleUdp pkt.src u := by
  have hicmp : ¬ pkt.protocol = IP_PROTO_ICMP := by rw [h]; decide
  have htcp : ¬ pkt.protocol = IP_PROTO_TCP := by rw [h]; decide
  unfold Stack.handleIp
  rw [if_neg hicmp, if_neg htcp, if_pos h, hu, bind_ok]

theorem udp_handlePkt_recvLen (s : UdpSocket) (u : UdpPacket) (src : IpAddr) :
    ∃ s', s.handlePkt u src = .ok s' ∧ s'.recvLen = min u.payload.length MAX_UDP_PAYLOAD := by
  have hbounds : 0 ≤ min u.payload.length MAX_UDP_PAYLOAD ∧
      min u.payload.length MAX_UDP_PAYLOAD ≤ u.payload.length := by omega
  unfold UdpSocket.handlePkt
  dsimp only
  rw [sliceRange_of_le hbounds, bind_ok]
  exact ⟨_, rfl, rfl⟩

theorem delivered_iff (src : IpAddr) (hp : p ≠ []) {u : UdpPacket}
    (hfits : u.payload.length + p.length ≤ MAX_UDP_PAYLOAD)
    (hdhcp : ¬ (u.srcPort = SERVER_PORT ∧ u.dstPort = CLIENT_PORT)) :
    st.handleUdp src { u with payload := u.payload ++ p } = st.handleUdp src u ↔
      ∀ i < MAX_SOCKETS, ∀ s, st.udpSockets i = some s → s.localPort ≠ u.dstPort := by
  have hpos : 0 < p.length := List.length_pos_iff.mpr hp
  unfold Stack.handleUdp
  rw [if_neg hdhcp, if_neg hdhcp]
  dsimp only
  cases hf : (List.range MAX_SOCKETS).find? fun i => (st.udpSockets i).any fun s => s.localPort == u.dstPort with
  | none =>
    refine ⟨fun _ i hi s hs hport => ?_, fun _ => rfl⟩
    have hno := List.find?_eq_none.mp hf i (List.mem_range.mpr hi)
    simp [hs, hport] at hno
  | some i =>
    have hi : i < MAX_SOCKETS := List.mem_range.mp (List.mem_of_find?_eq_some hf)
    have hany : (st.udpSockets i).any (fun s => s.localPort == u.dstPort) = true := by
      simpa using List.find?_some hf
    obtain ⟨s, hs, hport⟩ := (Option.any_eq_true ..).mp hany
    have hport : s.localPort = u.dstPort := by simpa using hport
    obtain ⟨s₁, h₁, hlen₁⟩ := udp_handlePkt_recvLen s u src
    obtain ⟨s₂, h₂, hlen₂⟩ := udp_handlePkt_recvLen s { u with payload := u.payload ++ p } src
    simp only [hs, h₁, h₂, bind_ok]
    constructor
    · intro heq
      have hslot := congrFun (congrArg Stack.udpSockets (Except.ok.inj heq)) i
      simp only [upd_self, Option.some.injEq] at hslot
      rw [hslot, hlen₁] at hlen₂
      simp only [List.length_append] at hlen₂
      omega
    · intro h
      exact absurd hport (h i hi s hs)

theorem packet_append_iff (hp : p ≠ []) {pkt : Ipv4Packet} (h : pkt.protocol = IP_PROTO_UDP) {u : UdpPacket}
    (hu : UdpPacket.parse pkt.payload = .ok (some u)) (hfits : u.payload.length + p.length ≤ MAX_UDP_PAYLOAD) :
    st.handleIp { pkt with payload := pkt.payload ++ p } = st.handleIp pkt ↔ PacketIgnores st pkt.payload p := by
  obtain ⟨happ, -⟩ := udp_parse_append p hu
  rw [handleIp_udp st pkt h hu, handleIp_udp st { pkt with payload := pkt.payload ++ p } h happ]
  have honly : PacketIgnores st pkt.payload p ↔
      if u.srcPort = SERVER_PORT ∧ u.dstPort = CLIENT_PORT then
          st.dhcp.Alike (st.dhcp.heard u.payload) (st.dhcp.heard (u.payload ++ p))
      else ∀ i < MAX_SOCKETS, ∀ s, st.udpSockets i = some s → s.localPort ≠ u.dstPort := by
    unfold PacketIgnores
    rw [hu]
    constructor
    · intro hall
      exact hall u rfl
    · intro hall u' hu'
      cases hu'
      exact hall
  rw [honly]
  by_cases hdhcp : u.srcPort = SERVER_PORT ∧ u.dstPort = CLIENT_PORT
  · rw [if_pos hdhcp, ← message_append_iff]
    unfold Stack.handleUdp
    rw [if_pos hdhcp, if_pos hdhcp]
  · rw [if_neg hdhcp]
    exact delivered_iff st pkt.src hp hfits hdhcp

end

/-! ## Frames -/

/-- An IPv4 datagram whose length fields are right. -/
structure Datagram where
  bytes : List UInt8
  pkt : Ipv4Packet
  parses : Ipv4Packet.parse bytes = .ok (some pkt)
  totalLen : pkt.totalLen.toNat = bytes.length
  udp : pkt.protocol = IP_PROTO_UDP → ∃ u, UdpPacket.parse pkt.payload = .ok (some u) ∧
    u.length.toNat = pkt.payload.length

section
variable (st : Stack)

/-- The stack once it has noted where a datagram comes from. -/
def Stack.noting (dst src : Mac) (pkt : Ipv4Packet) : Stack := if dst = .broadcast then st else st.learn pkt.src src

theorem noting_net (dst src : Mac) (pkt : Ipv4Packet) : (st.noting dst src pkt).tcp.net = st.tcp.net := by
  unfold Stack.noting
  split
  · rfl
  · rfl

theorem handleEth_datagram {dst : Mac} (hdst : dst = st.mac ∨ dst = .broadcast) (src : Mac)
    {bytes : List UInt8} {pkt : Ipv4Packet} (h : Ipv4Packet.parse bytes = .ok (some pkt)) :
    st.handleEth (ethBytes dst src ETH_TYPE_IPV4 bytes) = (st.noting dst src pkt).handleIp pkt := by
  have hother : ¬ ETH_TYPE_IPV4 = ETH_TYPE_ARP := by decide
  have haccepts : (!EthFrame.isForMe ⟨dst, src, ETH_TYPE_IPV4, bytes⟩ st.mac &&
      !EthFrame.isBroadcast ⟨dst, src, ETH_TYPE_IPV4, bytes⟩) = false := by
    obtain rfl | rfl := hdst <;> simp [EthFrame.isForMe, EthFrame.isBroadcast]
  unfold Stack.handleEth
  rw [eth_parse, bind_ok]
  dsimp only
  rw [haccepts, if_neg Bool.false_ne_true, if_neg hother, if_pos rfl, h, bind_ok]
  dsimp only
  congr 1
  unfold Stack.noting
  by_cases hb : dst = .broadcast
  · simp [EthFrame.isBroadcast, hb]
  · simp [EthFrame.isBroadcast, hb]

theorem handleEth_passed {dst : Mac} (hdst : ¬ (dst = st.mac ∨ dst = .broadcast)) (src : Mac)
    (ethertype : UInt16) (bytes : List UInt8) :
    st.handleEth (ethBytes dst src ethertype bytes) = .ok st := by
  push Not at hdst
  unfold Stack.handleEth
  rw [eth_parse, bind_ok]
  simp [EthFrame.isForMe, EthFrame.isBroadcast, hdst.1, hdst.2]

theorem handleIp_append_iff (hnet : st.tcp.net = []) (d : Datagram) {p : List UInt8} (hp : p ≠ [])
    (hfits : d.bytes.length + p.length ≤ 1500) :
    st.handleIp { d.pkt with payload := d.pkt.payload ++ p } = st.handleIp d.pkt ↔ st.Ignores d.pkt p := by
  obtain ⟨-, hlen⟩ := ipv4_parse_append p d.parses
  unfold Stack.Ignores
  by_cases hicmp : d.pkt.protocol = IP_PROTO_ICMP
  · rw [if_pos hicmp]
    exact echo_append_iff st hp hicmp
  rw [if_neg hicmp]
  by_cases htcp : d.pkt.protocol = IP_PROTO_TCP
  · rw [if_pos htcp]
    exact segment_append_iff hnet hp (by omega) htcp
  rw [if_neg htcp]
  by_cases hudp : d.pkt.protocol = IP_PROTO_UDP
  · rw [if_pos hudp]
    obtain ⟨u, hu, -⟩ := d.udp hudp
    obtain ⟨-, hulen⟩ := udp_parse_append p hu
    exact packet_append_iff st hp hudp hu (by unfold MAX_UDP_PAYLOAD; omega)
  rw [if_neg hudp]
  refine ⟨fun _ => trivial, fun _ => ?_⟩
  unfold Stack.handleIp
  rw [if_neg hicmp, if_neg htcp, if_neg hudp, if_neg hicmp, if_neg htcp, if_neg hudp]

end

/-- A padded frame does what the datagram alone does exactly when the frame is not for the stack or the
stack does not notice what it takes the padding for. -/
theorem padding_ignored_iff (st : Stack) (hnet : st.tcp.net = []) (dst src : Mac) (d : Datagram) (p : List UInt8)
    (hfits : (ethBytes dst src ETH_TYPE_IPV4 (d.bytes ++ p)).length ≤ ETH_FRAME_SIZE) :
    st.handleEth (ethBytes dst src ETH_TYPE_IPV4 (d.bytes ++ p)) =
    st.handleEth (ethBytes dst src ETH_TYPE_IPV4 d.bytes) ↔
      p = [] ∨ ¬ (dst = st.mac ∨ dst = .broadcast) ∨ (st.noting dst src d.pkt).Ignores d.pkt p := by
  by_cases hp : p = []
  · rw [hp, List.append_nil]
    exact ⟨fun _ => .inl rfl, fun _ => rfl⟩
  by_cases hdst : dst = st.mac ∨ dst = .broadcast
  · obtain ⟨happ, -⟩ := ipv4_parse_append p d.parses
    have hnoted : st.noting dst src { d.pkt with payload := d.pkt.payload ++ p } = st.noting dst src d.pkt := rfl
    rw [ethBytes_length, List.length_append, ETH_FRAME_SIZE] at hfits
    rw [handleEth_datagram st hdst src happ, handleEth_datagram st hdst src d.parses, hnoted]
    rw [handleIp_append_iff (st.noting dst src d.pkt) (by rw [noting_net, hnet]) d hp (by omega)]
    simp only [hp, hdst, not_true_eq_false, false_or]
  · rw [handleEth_passed st hdst, handleEth_passed st hdst]
    exact ⟨fun _ => .inr (.inl hdst), fun _ => rfl⟩

/-- A segment of `oneConnection`'s peer without data. -/
def peerDatagram (seq : UInt32) (flags : UInt8) : Datagram where
  bytes := ipHeader 40 0 IP_PROTO_TCP peerIp ⟨10, 0, 2, 15⟩ ++ (tcpHeader 5000 80 seq 2 flags 65535 0 ++ [])
  pkt := ⟨0x45, 0, 40, 0, 0, 64, IP_PROTO_TCP, peerIp, ⟨10, 0, 2, 15⟩, tcpHeader 5000 80 seq 2 flags 65535 0 ++ []⟩
  parses := ipv4_parse ..
  totalLen := by simp
  udp := fun h => absurd (show IP_PROTO_TCP = IP_PROTO_UDP from h) (by decide)

def serverMac : Mac := ⟨0x52, 0x54, 0, 0x12, 0x34, 0x56⟩

def server : Stack := ⟨serverMac, ⟨10, 0, 2, 15⟩, .new serverMac, oneConnection, fun _ => none, []⟩

theorem peer_parse (seq : UInt32) (flags : UInt8) (p : List UInt8) :
    TcpPacket.parse ((peerDatagram seq flags).pkt.payload ++ p) = .ok (some (peerSegment seq flags p)) := by
  have hsplit : (peerDatagram seq flags).pkt.payload ++ p = tcpHeader 5000 80 seq 2 flags 65535 0 ++ p := by
    simp [peerDatagram]
  rw [hsplit]
  exact tcp_parse 5000 80 seq 2 flags 65535 p 0

theorem padding_ignored_fin :
    server.handleEth (ethBytes serverMac .zero ETH_TYPE_IPV4
      ((peerDatagram 100 (TCP_FIN ||| TCP_ACK)).bytes ++ List.replicate 6 0)) =
      server.handleEth (ethBytes serverMac .zero ETH_TYPE_IPV4 (peerDatagram 100 (TCP_FIN ||| TCP_ACK)).bytes) := by
  have hignores : SegmentIgnores (server.noting serverMac .zero (peerDatagram 100 (TCP_FIN ||| TCP_ACK)).pkt)
      (peerDatagram 100 (TCP_FIN ||| TCP_ACK)).pkt.payload (List.replicate 6 0) := by
    intro seg hseg i s hi hs
    rw [peer_parse] at hseg
    cases hseg
    cases hi
    cases hs
    have hparse := peer_parse 100 (TCP_FIN ||| TCP_ACK) []
    rw [List.append_nil] at hparse
    rw [hparse]
    exact fun ⟨_, _, hfin⟩ => absurd hfin (by decide)
  exact (padding_ignored_iff server rfl serverMac .zero (peerDatagram 100 (TCP_FIN ||| TCP_ACK)) _
    (by decide)).mpr (.inr (.inr hignores))

/-- The padding of a bare acknowledgement is delivered as data. -/
theorem padding_delivered : ¬ ∀ (st : Stack) (dst src : Mac) (d : Datagram) (p : List UInt8), st.tcp.net = [] →
    (ethBytes dst src ETH_TYPE_IPV4 (d.bytes ++ p)).length ≤ ETH_FRAME_SIZE →
    st.handleEth (ethBytes dst src ETH_TYPE_IPV4 (d.bytes ++ p)) =
    st.handleEth (ethBytes dst src ETH_TYPE_IPV4 d.bytes) := by
  intro hall
  have heq := hall server serverMac .zero (peerDatagram 100 TCP_ACK) (List.replicate 6 0) rfl (by decide)
  have hparse := ipv4_parse_append (List.replicate 6 0) (peerDatagram 100 TCP_ACK).parses
  have hmac : serverMac = server.mac ∨ serverMac = .broadcast := .inl rfl
  rw [handleEth_datagram server hmac .zero hparse.1, handleEth_datagram server hmac .zero
    (peerDatagram 100 TCP_ACK).parses] at heq
  have hignores := (handleIp_append_iff _ rfl (peerDatagram 100 TCP_ACK) (by decide) (by decide)).mp heq
  have hstores := hignores _ (peer_parse 100 TCP_ACK (List.replicate 6 0)) 0 connected rfl rfl
  have hbare := peer_parse 100 TCP_ACK []
  rw [List.append_nil] at hbare
  rw [hbare] at hstores
  exact hstores ⟨rfl, by decide, by decide⟩

end WasmOs.Net
