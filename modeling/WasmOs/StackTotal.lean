import WasmOs.EphemeralPorts
import WasmOs.PacketSound
import WasmOs.Stack

/-!
# The receive path never fails

Lengths in a frame are chosen by whoever sent it. Each parser is total on every byte list, each reply is
composed from a payload of bounded length, and both stay true in every state the stack can reach.
-/

namespace WasmOs

/-- The computation ends in a value with property `Q`. -/
def Rust.Ends {ε α : Type} (m : Rust ε α) (Q : α → Prop) : Prop := ∃ a, m = .ok a ∧ Q a

section
variable {ε α β : Type}

theorem ends_ok {a : α} {Q : α → Prop} (h : Q a) : Rust.Ends (.ok a : Rust ε α) Q := ⟨a, rfl, h⟩

theorem Rust.Ends.bind {m : Rust ε α} {f : α → Rust ε β} {P : α → Prop} {Q : β → Prop} (hm : m.Ends P)
    (hf : ∀ a, P a → (f a).Ends Q) : (m >>= f).Ends Q := by
  obtain ⟨a, rfl, ha⟩ := hm
  exact hf a ha

theorem Rust.Ends.imp {m : Rust ε α} {P Q : α → Prop} (hm : m.Ends P) (h : ∀ a, P a → Q a) : m.Ends Q := by
  obtain ⟨a, rfl, ha⟩ := hm
  exact ⟨a, rfl, h a ha⟩

theorem setAt_ends {bytes : List α} {i : Nat} (h : i < bytes.length) (v : α) :
    (setAt bytes i v : Rust ε (List α)).Ends fun bs => bs.length = bytes.length :=
  ⟨_, setAt_of_lt h v, List.length_set⟩

theorem copyInto_ends {buf src : List α} {lo hi : Nat} (h : lo ≤ hi ∧ hi ≤ buf.length ∧ src.length = hi - lo) :
    (copyInto buf lo hi src : Rust ε (List α)).Ends fun bs => bs.length = buf.length := by
  refine ⟨_, copyInto_of_le h, ?_⟩
  simp only [List.length_append, List.length_take, List.length_drop]
  omega

theorem sliceRange_ends {bytes : List α} {lo hi : Nat} (h : lo ≤ hi ∧ hi ≤ bytes.length) :
    (sliceRange bytes lo hi : Rust ε (List α)).Ends fun bs => bs.length = hi - lo := by
  refine ⟨_, sliceRange_of_le h, ?_⟩
  simp only [List.length_drop, List.length_take]
  omega

theorem index_ends {bytes : List α} {i : Nat} (h : i < bytes.length) :
    (index bytes i : Rust ε α).Ends fun _ => True :=
  ⟨_, index_of_lt h, trivial⟩

theorem sliceFrom_ends {bytes : List α} {i : Nat} (h : i ≤ bytes.length) :
    (sliceFrom bytes i : Rust ε (List α)).Ends fun _ => True :=
  ⟨_, if_pos h, trivial⟩

theorem u16At_ends {bytes : List UInt8} {i : Nat} (h : i + 1 < bytes.length) :
    (u16At bytes i).Ends fun _ => True := by
  refine (index_ends (by omega)).bind fun a _ => ?_
  refine (index_ends (by omega)).bind fun b _ => ?_
  exact ends_ok trivial

theorem u32At_ends {bytes : List UInt8} {i : Nat} (h : i + 3 < bytes.length) :
    (u32At bytes i).Ends fun _ => True := by
  refine (index_ends (by omega)).bind fun a _ => ?_
  refine (index_ends (by omega)).bind fun b _ => ?_
  refine (index_ends (by omega)).bind fun c _ => ?_
  refine (index_ends (by omega)).bind fun d _ => ?_
  exact ends_ok trivial

end

namespace Net

section
variable {β : Type} {bytes : List UInt8} {lo hi : Nat} {Q : β → Prop}

theorem ipAt_ends {f : IpAddr → Rust Unit β} (h : hi = lo + 4 ∧ hi ≤ bytes.length) (hf : ∀ ip, (f ip).Ends Q) :
    ((sliceRange bytes lo hi : Rust Unit (List UInt8)) >>= fun bs => IpAddr.ofSlice bs >>= f).Ends Q := by
  refine (sliceRange_ends (by omega)).bind fun bs hbs => ?_
  obtain ⟨ip, hip⟩ := IpAddr.ofSlice_succeeds (show bs.length = 4 by omega)
  rw [hip]
  exact hf ip

theorem macAt_ends {f : Mac → Rust Unit β} (h : hi = lo + 6 ∧ hi ≤ bytes.length) (hf : ∀ mac, (f mac).Ends Q) :
    ((sliceRange bytes lo hi : Rust Unit (List UInt8)) >>= fun bs => Mac.ofSlice bs >>= f).Ends Q := by
  refine (sliceRange_ends (by omega)).bind fun bs hbs => ?_
  obtain ⟨mac, hmac⟩ := Mac.ofSlice_succeeds (show bs.length = 6 by omega)
  rw [hmac]
  exact hf mac

end

/-! ## Parsers -/

section
variable (bytes : List UInt8)

theorem eth_parse_ends : (EthFrame.parse bytes).Ends fun _ => True := by
  unfold EthFrame.parse
  split
  · exact ends_ok trivial
  · refine macAt_ends (by omega) fun dst => macAt_ends (by omega) fun src => ?_
    refine (u16At_ends (by omega)).bind fun ethertype _ => ?_
    refine (sliceFrom_ends (by omega)).bind fun payload _ => ?_
    exact ends_ok trivial

theorem arp_parse_ends : (ArpPacket.parse bytes).Ends fun _ => True := by
  unfold ArpPacket.parse
  split
  · exact ends_ok trivial
  · refine (u16At_ends (by omega)).bind fun htype _ => ?_
    refine (u16At_ends (by omega)).bind fun ptype _ => ?_
    split
    · exact ends_ok trivial
    · refine (u16At_ends (by omega)).bind fun operation _ => ?_
      refine macAt_ends (by omega) fun senderMac => macAt_ends (by omega) fun targetMac => ?_
      refine ipAt_ends (by omega) fun senderIp => ipAt_ends (by omega) fun targetIp => ?_
      exact ends_ok trivial

theorem ipv4_parse_ends : (Ipv4Packet.parse bytes).Ends fun _ => True := by
  unfold Ipv4Packet.parse
  split
  · exact ends_ok trivial
  · refine (index_ends (by omega)).bind fun versionIhl _ => ?_
    dsimp only
    split
    · exact ends_ok trivial
    · split
      · exact ends_ok trivial
      · refine (u16At_ends (by omega)).bind fun totalLen _ => ?_
        refine (u16At_ends (by omega)).bind fun id _ => ?_
        refine (u16At_ends (by omega)).bind fun flagsOffset _ => ?_
        refine (index_ends (by omega)).bind fun ttl _ => ?_
        refine (index_ends (by omega)).bind fun protocol _ => ?_
        refine ipAt_ends (by omega) fun src => ipAt_ends (by omega) fun dst => ?_
        refine (index_ends (by omega)).bind fun tos _ => ?_
        refine (sliceFrom_ends (by omega)).bind fun payload _ => ?_
        exact ends_ok trivial

theorem udp_parse_ends : (UdpPacket.parse bytes).Ends fun _ => True := by
  unfold UdpPacket.parse
  split
  · exact ends_ok trivial
  · refine (u16At_ends (by omega)).bind fun srcPort _ => ?_
    refine (u16At_ends (by omega)).bind fun dstPort _ => ?_
    refine (u16At_ends (by omega)).bind fun length _ => ?_
    refine (u16At_ends (by omega)).bind fun checksum _ => ?_
    refine (sliceFrom_ends (by omega)).bind fun payload _ => ?_
    exact ends_ok trivial

theorem tcp_parse_ends : (TcpPacket.parse bytes).Ends fun _ => True := by
  unfold TcpPacket.parse
  split
  · exact ends_ok trivial
  · refine (u16At_ends (by omega)).bind fun srcPort _ => ?_
    refine (u16At_ends (by omega)).bind fun dstPort _ => ?_
    refine (u32At_ends (by omega)).bind fun seq _ => ?_
    refine (u32At_ends (by omega)).bind fun ackNo _ => ?_
    refine (index_ends (by omega)).bind fun dataOff _ => ?_
    dsimp only
    split
    · exact ends_ok trivial
    · refine (index_ends (by omega)).bind fun flags _ => ?_
      refine (sliceFrom_ends (by omega)).bind fun payload _ => ?_
      exact ends_ok trivial

end

/-! ## DHCP -/

theorem read_ends (o : DhcpOptions) (tag : UInt8) (val : List UInt8) : (o.read tag val).Ends fun _ => True := by
  unfold DhcpOptions.read
  split
  · exact (index_ends (by omega)).bind fun b _ => ends_ok trivial
  split
  · exact ipAt_ends (by omega) fun ip => ends_ok trivial
  split
  · exact ipAt_ends (by omega) fun ip => ends_ok trivial
  split
  · exact ipAt_ends (by omega) fun ip => ends_ok trivial
  split
  · exact (u32At_ends (by omega)).bind fun secs _ => ends_ok trivial
  · exact ends_ok trivial

/-- The walk ends: each round moves at least one byte on, and never past the end. -/
theorem walkOptions_ends (data : List UInt8) : ∀ (fuel i : Nat) (o : DhcpOptions), i ≤ data.length →
    data.length < fuel + i → (walkOptions data fuel i o).Ends fun _ => True
  | 0, i, o, hi, h => by omega
  | fuel + 1, i, o, hi, h => by
    unfold walkOptions
    split
    · exact ends_ok trivial
    · refine (index_ends (by omega)).bind fun tag _ => ?_
      split
      · exact ends_ok trivial
      split
      · exact walkOptions_ends data fuel (i + 1) o (by omega) (by omega)
      split
      · exact ends_ok trivial
      · refine (index_ends (by omega)).bind fun len _ => ?_
        split
        · exact ends_ok trivial
        · refine (sliceRange_ends (by omega)).bind fun val _ => ?_
          refine (read_ends o tag val).bind fun o _ => ?_
          exact walkOptions_ends data fuel _ o (by omega) (by omega)

theorem handlePacket_ends (c : DhcpClient) (data : List UInt8) : (c.handlePacket data).Ends fun _ => True := by
  unfold DhcpClient.handlePacket
  split
  · exact ends_ok trivial
  · refine (index_ends (by omega)).bind fun op _ => ?_
    split
    · exact ends_ok trivial
    · refine (sliceRange_ends (by omega)).bind fun magic _ => ?_
      split
      · exact ends_ok trivial
      · refine (u32At_ends (by omega)).bind fun xid _ => ?_
        split
        · exact ends_ok trivial
        · refine (index_ends (by omega)).bind fun y0 _ => ?_
          refine (index_ends (by omega)).bind fun y1 _ => ?_
          refine (index_ends (by omega)).bind fun y2 _ => ?_
          refine (index_ends (by omega)).bind fun y3 _ => ?_
          refine (walkOptions_ends data _ _ _ (by omega) (by omega)).bind fun o _ => ?_
          exact ends_ok trivial

theorem addrOption_ends {p : List UInt8} {o : Nat} (h : o + 6 ≤ p.length) (tag : UInt8) (ip : IpAddr) :
    (addrOption p o tag ip).Ends fun r => r.1.length = p.length ∧ r.2 ≤ o + 6 := by
  unfold addrOption
  split
  · refine (setAt_ends (by omega) _).bind fun p₁ h₁ => ?_
    refine (setAt_ends (by omega) _).bind fun p₂ h₂ => ?_
    refine (copyInto_ends ⟨by omega, by omega, by simp [IpAddr.bytes]⟩).bind fun p₃ h₃ => ?_
    exact ends_ok ⟨by dsimp only; omega, Nat.le_refl _⟩
  · exact ends_ok ⟨rfl, by omega⟩

theorem buildBootp_ends (c : DhcpClient) (mac : Mac) (msgType : UInt8) (requestedIp serverId : IpAddr) :
    (c.buildBootp mac msgType requestedIp serverId).Ends fun bs => bs.length ≤ 300 := by
  have h₀ : (List.replicate 300 (0 : UInt8)).length = 300 := List.length_replicate
  unfold DhcpClient.buildBootp
  dsimp only
  refine (setAt_ends (by omega) _).bind fun p₁ h₁ => ?_
  refine (setAt_ends (by omega) _).bind fun p₂ h₂ => ?_
  refine (setAt_ends (by omega) _).bind fun p₃ h₃ => ?_
  refine (copyInto_ends ⟨by omega, by omega, by simp [be32]⟩).bind fun p₄ h₄ => ?_
  refine (copyInto_ends ⟨by omega, by omega, by simp [be16]⟩).bind fun p₅ h₅ => ?_
  refine (copyInto_ends ⟨by omega, by omega, by simp [Mac.bytes]⟩).bind fun p₆ h₆ => ?_
  refine (copyInto_ends ⟨by omega, by omega, by simp [MAGIC]⟩).bind fun p₇ h₇ => ?_
  refine (setAt_ends (by omega) _).bind fun p₈ h₈ => ?_
  refine (setAt_ends (by omega) _).bind fun p₉ h₉ => ?_
  refine (setAt_ends (by omega) _).bind fun q₁ k₁ => ?_
  refine (addrOption_ends (by omega) _ _).bind fun r₂ h => ?_
  obtain ⟨q₂, o₂⟩ := r₂
  obtain ⟨k₂, l₂⟩ := h
  dsimp only at k₂ l₂ ⊢
  refine (addrOption_ends (by omega) _ _).bind fun r₃ h => ?_
  obtain ⟨q₃, o₃⟩ := r₃
  obtain ⟨k₃, l₃⟩ := h
  dsimp only at k₃ l₃ ⊢
  refine (setAt_ends (by omega) _).bind fun q₄ k₄ => ?_
  refine (setAt_ends (by omega) _).bind fun q₅ k₅ => ?_
  refine (setAt_ends (by omega) _).bind fun q₆ k₆ => ?_
  refine (setAt_ends (by omega) _).bind fun q₇ k₇ => ?_
  refine (setAt_ends (by omega) _).bind fun q₈ k₈ => ?_
  refine (setAt_ends (by omega) _).bind fun q₉ k₉ => ?_
  exact (sliceRange_ends (by omega)).imp fun bs hbs => by omega

/-! ## What is sent fits -/

/-- Every frame that was handed to the card fits the frame buffer, and nothing waits to be sent. -/
structure Sound (st : Stack) : Prop where
  frames : ∀ f ∈ st.frames, f.length ≤ ETH_FRAME_SIZE
  net : st.tcp.net = []

section
variable {st : Stack}

theorem sendEth_eq (st : Stack) (dstMac : Mac) (ethertype : UInt16) {payload : List UInt8}
    (hp : 14 + payload.length ≤ ETH_FRAME_SIZE) :
    st.sendEth dstMac ethertype payload =
      .ok { st with frames := st.frames ++ [ethBytes dstMac st.mac ethertype payload] } := by
  have hbuf : 14 + payload.length ≤ (List.replicate ETH_FRAME_SIZE (0 : UInt8)).length := by simpa using hp
  have hframe := composed_eq dstMac st.mac ethertype hbuf
  obtain ⟨⟨buf, n⟩, hcompose, hframe⟩ := bind_eq_ok.mp hframe
  unfold Stack.sendEth
  rw [hcompose, bind_ok]
  dsimp only at hframe ⊢
  rw [hframe, bind_ok]

theorem sendEth_ends (h : Sound st) (dstMac : Mac) (ethertype : UInt16) {payload : List UInt8}
    (hp : 14 + payload.length ≤ ETH_FRAME_SIZE) : (st.sendEth dstMac ethertype payload).Ends Sound := by
  refine ⟨_, sendEth_eq st dstMac ethertype hp, fun g hg => ?_, h.net⟩
  obtain hg | hg := List.mem_append.mp hg
  · exact h.frames g hg
  · obtain rfl := List.mem_singleton.mp hg
    rw [ethBytes_length]
    exact hp

theorem arp_toBytes_ends (p : ArpPacket) : p.toBytes.Ends fun bs => bs.length = 28 :=
  ⟨_, arp_toBytes p, by simp [be16, Mac.bytes, IpAddr.bytes]⟩

theorem sendArpRequest_ends (h : Sound st) (ip : IpAddr) : (st.sendArpRequest ip).Ends Sound := by
  unfold Stack.sendArpRequest
  refine (arp_toBytes_ends _).bind fun bs hbs => ?_
  exact sendEth_ends h _ _ (by unfold ETH_FRAME_SIZE; omega)

theorem sendIp_ends (h : Sound st) (dstIp : IpAddr) {ipPayload : List UInt8}
    (hp : 14 + ipPayload.length ≤ ETH_FRAME_SIZE) : (st.sendIp dstIp ipPayload).Ends Sound := by
  unfold Stack.sendIp
  split
  · exact sendEth_ends h _ _ hp
  · split
    · exact sendEth_ends h _ _ hp
    · exact sendArpRequest_ends h dstIp

theorem datagram_ends {src dst : IpAddr} {protocol : UInt8} {payload : List UInt8}
    (h : 20 + payload.length < 2 ^ 16)
    {f : List UInt8 → Rust Unit Stack} (hf : ∀ bs, bs.length = 20 + payload.length → (f bs).Ends Sound) :
    (Ipv4Packet.new src dst protocol payload >>= fun p => p.toBytes >>= f).Ends Sound := by
  rw [ipv4_new h, bind_ok, ipv4_toBytes, bind_ok]
  exact hf _ (by simp)

theorem sendTcpSeg_ends (h : Sound st) (lport rport : UInt16) (rip : IpAddr) (seq ack : UInt32) (flags : UInt8)
    {payload : List UInt8} (hp : payload.length ≤ MAX_TCP_PAYLOAD) :
    (st.sendTcpSeg lport rport rip seq ack flags payload).Ends Sound := by
  unfold MAX_TCP_PAYLOAD at hp
  unfold Stack.sendTcpSeg
  rw [makeTcpPacket_eq _ _ _ _ _ _ _ _ _ (by omega), bind_ok]
  refine datagram_ends (by rw [tcpBytes_length]; omega) fun bs hbs => ?_
  rw [tcpBytes_length] at hbs
  exact sendIp_ends h rip (by unfold ETH_FRAME_SIZE; omega)

/-! ## What the TCP side hands down -/

def Tx.Fits : Tx → Prop
  | .tcpSeg _ _ _ _ _ _ payload => payload.length ≤ MAX_TCP_PAYLOAD
  | .arpRequest _ => True

theorem transmitAll_ends : ∀ {txs : List Tx} {st : Stack}, Sound st → (∀ tx ∈ txs, tx.Fits) →
    (st.transmitAll txs).Ends Sound
  | [], st, h, _ => ends_ok h
  | tx :: txs, st, h, hfits => by
    unfold Stack.transmitAll
    have hhead : tx.Fits := hfits tx (.head _)
    have hone : (st.transmit tx).Ends Sound := by
      cases tx with
      | tcpSeg lport rport rip seq ack flags payload => exact sendTcpSeg_ends h _ _ _ _ _ _ hhead
      | arpRequest ip => exact sendArpRequest_ends h ip
    refine hone.bind fun st' h' => ?_
    exact transmitAll_ends h' fun tx htx => hfits tx (.tail _ htx)

theorem withTcp_ends (h : Sound st) {tcp : NetworkStack} (hfits : ∀ tx ∈ tcp.net, tx.Fits) :
    (st.withTcp tcp).Ends Sound :=
  transmitAll_ends ⟨h.frames, rfl⟩ hfits

/-- Nothing waits before an operation, and what it hands down fits a segment. -/
def Outgoing (t : NetworkStack) : Prop := ∀ tx ∈ t.net, tx.Fits

theorem outgoing_of_net {t : NetworkStack} (h : t.net = []) : Outgoing t := by
  intro tx htx
  rw [h] at htx
  cases htx

theorem outgoing_send {t : NetworkStack} (h : Outgoing t) {tx : Tx} (hfits : tx.Fits) : Outgoing (t.send tx) := by
  intro tx' htx'
  obtain htx' | htx' := List.mem_append.mp htx'
  · exact h tx' htx'
  · obtain rfl := List.mem_singleton.mp htx'
    exact hfits

theorem handleTcp_outgoing {t : NetworkStack} (h : Outgoing t) (src : IpAddr) (pkt : TcpPacket) :
    (t.handleTcp src pkt).Ends Outgoing := by
  unfold NetworkStack.handleTcp
  cases hf : t.findTcpSocket pkt.dstPort pkt.srcPort with
  | none => exact ends_ok h
  | some idx =>
    obtain ⟨-, s, hs, -⟩ := NetworkStack.findTcpSocket_some hf
    simp only [hs]
    cases (s.handlePkt pkt src).2 with
    | none => exact ends_ok h
    | some r =>
      refine ends_ok (outgoing_send (t := t.setSocket idx _) h ?_)
      exact Nat.zero_le _

theorem allocEphemeralPort_ends (t : NetworkStack) : t.allocEphemeralPort.Ends fun _ => True := by
  obtain ⟨port, hport, -⟩ := allocEphemeralPort_ok t
  exact ⟨port, hport, trivial⟩

theorem tcpConnect_outgoing {t : NetworkStack} (h : Outgoing t) (dstIp : IpAddr) (dstPort : UInt16) :
    (t.tcpConnect dstIp dstPort).Ends fun r => Outgoing r.1 := by
  unfold NetworkStack.tcpConnect
  refine (allocEphemeralPort_ends t).bind fun port _ => ?_
  split
  · dsimp only
    split
    · exact ends_ok (outgoing_send (t := t.setSocket _ _) h (Nat.zero_le _))
    · exact ends_ok (outgoing_send (t := t.setSocket _ _) h trivial)
  · exact ends_ok h

theorem socket_ends (t : NetworkStack) {i : Nat} (hi : i < MAX_SOCKETS) : (t.socket i).Ends fun _ => True :=
  ⟨_, if_pos hi, trivial⟩

/-- A call that may answer `Err(())` and otherwise keeps `Q`. -/
theorem orKeep_ends {t : NetworkStack} {m : Rust Unit NetworkStack} {Q : NetworkStack → Prop} (h : Q t)
    (hm : m = .error (.err ()) ∨ m.Ends Q) : (orKeep t m).Ends Q := by
  obtain rfl | ⟨t', rfl, ht'⟩ := hm
  · exact ends_ok h
  · exact ends_ok ht'

theorem tcpSend_outgoing {t : NetworkStack} (h : Outgoing t) {i : Nat} (hi : i < MAX_SOCKETS) (data : List UInt8) :
    (t.tcpSend i data).map Prod.fst = .error (.err ()) ∨ Rust.Ends ((t.tcpSend i data).map Prod.fst) Outgoing := by
  obtain ⟨o, ho, -⟩ := socket_ends t hi
  unfold NetworkStack.tcpSend
  rw [ho, bind_ok]
  cases o with
  | none => exact .inl rfl
  | some s =>
    dsimp only
    split
    · exact .inl rfl
    · refine .inr (ends_ok ?_)
      have hfits : (data.take (min data.length MAX_TCP_PAYLOAD)).length ≤ MAX_TCP_PAYLOAD := by
        rw [List.length_take]
        omega
      exact outgoing_send h hfits

theorem tcpRecv_outgoing {t : NetworkStack} (h : Outgoing t) {i : Nat} (hi : i < MAX_SOCKETS) (cap : Nat) :
    (t.tcpRecv i cap).map Prod.fst = .error (.err ()) ∨ Rust.Ends ((t.tcpRecv i cap).map Prod.fst) Outgoing := by
  obtain ⟨o, ho, -⟩ := socket_ends t hi
  unfold NetworkStack.tcpRecv
  rw [ho, bind_ok]
  cases o with
  | none => exact .inl rfl
  | some s =>
    dsimp only
    split
    · exact .inl rfl
    · exact .inr (ends_ok h)

theorem tcpAccept_outgoing {t : NetworkStack} (h : Outgoing t) {i : Nat} (hi : i < MAX_SOCKETS) :
    (t.tcpAccept i).Ends fun r => Outgoing r.1 := by
  unfold NetworkStack.tcpAccept
  refine (socket_ends t hi).bind fun o _ => ?_
  split
  · exact ends_ok h
  · split
    · exact ends_ok h
    · split
      · exact ends_ok h
      · exact ends_ok h

theorem tcpClose_outgoing {t : NetworkStack} (h : Outgoing t) {i : Nat} (hi : i < MAX_SOCKETS) :
    t.tcpClose i = .error (.err ()) ∨ (t.tcpClose i).Ends Outgoing := by
  obtain ⟨o, ho, -⟩ := socket_ends t hi
  unfold NetworkStack.tcpClose
  rw [ho, bind_ok]
  cases o with
  | none => exact .inl rfl
  | some s =>
    dsimp only
    split
    · exact .inr (ends_ok (outgoing_send (t := t.setSocket _ _) h (Nat.zero_le _)))
    · exact .inr (ends_ok (outgoing_send (t := t.setSocket _ _) h (Nat.zero_le _)))
    · exact .inl rfl

theorem tcp_step_outgoing {t : NetworkStack} (h : Outgoing t) {op : NetOp} (hv : op.ValidHandle) :
    (t.step op).Ends Outgoing := by
  cases op with
  | segment src pkt => exact absurd hv id
  | listen port =>
    refine ends_ok ?_
    unfold NetworkStack.tcpListen
    split
    · exact h
    · exact h
  | connect dstIp dstPort =>
    obtain ⟨r, hr, hout⟩ := tcpConnect_outgoing h dstIp dstPort
    exact ⟨r.1, by simp [NetworkStack.step, hr, Except.map], hout⟩
  | send i data => exact orKeep_ends h (tcpSend_outgoing h hv data)
  | recv i cap => exact orKeep_ends h (tcpRecv_outgoing h hv cap)
  | accept i =>
    obtain ⟨r, hr, hout⟩ := tcpAccept_outgoing h hv
    exact ⟨r.1, by simp [NetworkStack.step, hr, Except.map], hout⟩
  | close i => exact orKeep_ends h (tcpClose_outgoing h hv)

/-! ## The layers -/

theorem flushPendingSyncs_ends (ip : IpAddr) : ∀ {is : List Nat} {st : Stack}, Sound st →
    (st.flushPendingSyncs ip is).Ends Sound
  | [], st, h => ends_ok h
  | i :: is, st, h => by
    unfold Stack.flushPendingSyncs
    split
    · split
      · refine (sendTcpSeg_ends h _ _ _ _ _ _ (Nat.zero_le _)).bind fun st' h' => ?_
        exact flushPendingSyncs_ends ip h'
      · exact flushPendingSyncs_ends ip h
    · exact flushPendingSyncs_ends ip h

theorem learn_sound (h : Sound st) (ip : IpAddr) (mac : Mac) : Sound (st.learn ip mac) := ⟨h.frames, h.net⟩

theorem answerArp_ends (h : Sound st) (pkt : ArpPacket) : (st.answerArp pkt).Ends Sound := by
  unfold Stack.answerArp
  split
  · refine (arp_toBytes_ends _).bind fun bs hbs => ?_
    exact sendEth_ends h _ _ (by unfold ETH_FRAME_SIZE; omega)
  · exact ends_ok h

theorem handleArp_ends (h : Sound st) (pkt : ArpPacket) : (st.handleArp pkt).Ends Sound := by
  unfold Stack.handleArp
  refine (answerArp_ends h pkt).bind fun st' h' => ?_
  split
  · exact flushPendingSyncs_ends _ (learn_sound h' _ _)
  · exact ends_ok h'

/-- A datagram of `n` bytes goes to `dst`. -/
def SendsIp (st : Stack) (dst : IpAddr) (n : Nat) (m : Rust Unit Stack) : Prop :=
  ∃ bytes, bytes.length = n ∧ m = st.sendIp dst bytes

theorem SendsIp.bind {α : Type} {dst : IpAddr} {n : Nat} {m : Rust Unit α} {f : α → Rust Unit Stack}
    {P : α → Prop} (hm : m.Ends P) (hf : ∀ a, P a → SendsIp st dst n (f a)) : SendsIp st dst n (m >>= f) := by
  obtain ⟨a, rfl, ha⟩ := hm
  exact hf a ha

/-- An echo request is answered with at most 64 of its bytes. -/
theorem sendIcmpReply_sendsIp (st : Stack) (dst : IpAddr) {request : List UInt8} (h : 8 ≤ request.length) :
    SendsIp st dst (20 + min request.length 64) (st.sendIcmpReply dst request) := by
  have h₀ : (List.replicate 64 (0 : UInt8)).length = 64 := List.length_replicate
  unfold Stack.sendIcmpReply
  rw [if_neg (Nat.not_lt.mpr h)]
  dsimp only
  refine .bind (setAt_ends (by omega) _) fun p₁ h₁ => ?_
  refine .bind (setAt_ends (by omega) _) fun p₂ h₂ => ?_
  have hroom : (usub (min request.length 64) 4 : Rust Unit Nat) = .ok (min request.length 64 - 4) :=
    if_pos (by omega)
  have hrest : (usub request.length 4 : Rust Unit Nat) = .ok (request.length - 4) := if_pos (by omega)
  rw [hroom, bind_ok, hrest, bind_ok]
  refine .bind (sliceRange_ends (by omega)) fun body hbody => ?_
  refine .bind (copyInto_ends ⟨by omega, by omega, hbody⟩) fun p₃ h₃ => ?_
  refine .bind (sliceRange_ends (by omega)) fun part hpart => ?_
  have hsum := OnesComplement.sum16_le part
  have hchk : (ipChksum part).Ends fun _ => True := by
    unfold ipChksum
    rw [addChunks_eq (by omega), bind_ok]
    exact ends_ok trivial
  refine .bind hchk fun cksum _ => ?_
  refine .bind (setAt_ends (by omega) _) fun p₄ h₄ => ?_
  refine .bind (setAt_ends (by omega) _) fun p₅ h₅ => ?_
  refine .bind (sliceRange_ends (by omega)) fun reply hreply => ?_
  rw [ipv4_new (by omega), bind_ok, ipv4_toBytes, bind_ok]
  refine ⟨_, ?_, rfl⟩
  rw [List.length_append, ipHeader_length]
  omega

theorem sendIcmpReply_ends (h : Sound st) (dst : IpAddr) (request : List UInt8) :
    (st.sendIcmpReply dst request).Ends Sound := by
  by_cases hlen : 8 ≤ request.length
  · obtain ⟨bytes, hbytes, hsend⟩ := sendIcmpReply_sendsIp st dst hlen
    rw [hsend]
    exact sendIp_ends h dst (by unfold ETH_FRAME_SIZE; omega)
  · unfold Stack.sendIcmpReply
    rw [if_pos (Nat.not_le.mp hlen)]
    exact ends_ok h

theorem sendDhcpUdp_ends (h : Sound st) {payload : List UInt8} (hp : payload.length ≤ 300) :
    (st.sendDhcpUdp payload).Ends Sound := by
  unfold Stack.sendDhcpUdp
  rw [udp_new (by omega), bind_ok]
  refine datagram_ends (by rw [udp_toBytes_length]; dsimp only; omega) fun bs hbs => ?_
  rw [udp_toBytes_length] at hbs
  dsimp only at hbs
  exact sendEth_ends h _ _ (by unfold ETH_FRAME_SIZE; omega)

theorem dhcpStart_ends (h : Sound st) : st.dhcpStart.Ends Sound := by
  unfold Stack.dhcpStart
  have h' : Sound { st with dhcp := { st.dhcp with state := .selecting } } := ⟨h.frames, h.net⟩
  refine (buildBootp_ends _ _ _ _ _).bind fun pkt hpkt => ?_
  exact sendDhcpUdp_ends h' hpkt

theorem handleDhcp_ends (h : Sound st) (payload : List UInt8) : (st.handleDhcp payload).Ends Sound := by
  have h₀ : (List.replicate 1024 (0 : UInt8)).length = 1024 := List.length_replicate
  unfold Stack.handleDhcp
  dsimp only
  refine (sliceRange_ends (by omega)).bind fun part hpart => ?_
  refine (copyInto_ends ⟨by omega, by omega, hpart⟩).bind fun buf hbuf => ?_
  refine (sliceRange_ends (by omega)).bind fun data _ => ?_
  refine (handlePacket_ends st.dhcp data).bind fun ⟨dhcp, action⟩ _ => ?_
  have h' : Sound { st with dhcp := dhcp } := ⟨h.frames, h.net⟩
  dsimp only
  split
  · refine (buildBootp_ends _ _ _ _ _).bind fun req hreq => ?_
    exact sendDhcpUdp_ends h' hreq
  · exact ends_ok ⟨h.frames, h.net⟩
  · exact dhcpStart_ends h'
  · exact ends_ok h'

theorem storeBounds_ends (s : TcpSocket) (payload : List UInt8) : (s.storeBounds payload).Ends fun _ => True := by
  have hle := s.recvLen_le
  have hroom : (usub MAX_TCP_PAYLOAD s.recvLen : Rust Unit Nat) = .ok (MAX_TCP_PAYLOAD - s.recvLen) := if_pos hle
  unfold TcpSocket.storeBounds
  rw [hroom, bind_ok]
  dsimp only
  refine (sliceRange_ends ⟨by omega, by rw [List.length_replicate]; omega⟩).bind fun _ _ => ?_
  refine (sliceRange_ends (by omega)).bind fun _ _ => ?_
  exact ends_ok trivial

theorem handlePktBounds_ends (st : Stack) (pkt : TcpPacket) : (st.handlePktBounds pkt).Ends fun _ => True := by
  unfold Stack.handlePktBounds
  cases hf : st.tcp.findTcpSocket pkt.dstPort pkt.srcPort with
  | none => exact ends_ok trivial
  | some idx =>
    obtain ⟨-, s, hs, -⟩ := NetworkStack.findTcpSocket_some hf
    simp only [hs]
    split
    · exact storeBounds_ends _ _
    · exact ends_ok trivial

theorem handleTcp_ends (h : Sound st) (src : IpAddr) (pkt : TcpPacket) : (st.handleTcp src pkt).Ends Sound := by
  unfold Stack.handleTcp
  refine (handlePktBounds_ends st pkt).bind fun _ _ => ?_
  refine (handleTcp_outgoing (outgoing_of_net h.net) src pkt).bind fun tcp hout => ?_
  exact withTcp_ends h hout

theorem handleUdp_ends (h : Sound st) (src : IpAddr) (pkt : UdpPacket) : (st.handleUdp src pkt).Ends Sound := by
  unfold Stack.handleUdp
  split
  · exact handleDhcp_ends h _
  · split
    · split
      · unfold UdpSocket.handlePkt
        simp only [bind_assoc]
        refine (sliceRange_ends (by omega)).bind fun bytes _ => ?_
        exact ends_ok ⟨h.frames, h.net⟩
      · exact ends_ok h
    · exact ends_ok h

theorem handleIp_ends (h : Sound st) (pkt : Ipv4Packet) : (st.handleIp pkt).Ends Sound := by
  unfold Stack.handleIp
  split
  · split
    · refine (index_ends (by omega)).bind fun kind _ => ?_
      split
      · exact sendIcmpReply_ends h _ _
      · exact ends_ok h
    · exact ends_ok h
  split
  · refine (tcp_parse_ends _).bind fun o _ => ?_
    cases o with
    | none => exact ends_ok h
    | some seg => exact handleTcp_ends h _ _
  split
  · refine (udp_parse_ends _).bind fun o _ => ?_
    cases o with
    | none => exact ends_ok h
    | some seg => exact handleUdp_ends h _ _
  · exact ends_ok h

theorem handleEth_ends (h : Sound st) (frame : List UInt8) : (st.handleEth frame).Ends Sound := by
  unfold Stack.handleEth
  refine (eth_parse_ends frame).bind fun o _ => ?_
  cases o with
  | none => exact ends_ok h
  | some eth =>
    dsimp only
    split
    · exact ends_ok h
    split
    · refine (arp_parse_ends _).bind fun o _ => ?_
      cases o with
      | none => exact ends_ok h
      | some p => exact handleArp_ends h p
    split
    · refine (ipv4_parse_ends _).bind fun o _ => ?_
      cases o with
      | none => exact ends_ok h
      | some p =>
        refine handleIp_ends ?_ p
        split
        · exact learn_sound h _ _
        · exact h
    · exact ends_ok h

/-! ## Runs -/

theorem orStay_ends {m : Rust Unit Stack} (h : Sound st) (hm : m = .error (.err ()) ∨ m.Ends Sound) :
    (st.orStay m).Ends Sound := by
  obtain rfl | ⟨st', rfl, h'⟩ := hm
  · exact ends_ok h
  · exact ends_ok h'

theorem udpSend_ends (h : Sound st) {i : Nat} (hi : i < MAX_SOCKETS) (data : List UInt8) :
    (st.udpSend i data).map Prod.fst = .error (.err ()) ∨ Rust.Ends ((st.udpSend i data).map Prod.fst) Sound := by
  have hsock : st.udpSocket i = .ok (st.udpSockets i) := if_pos hi
  unfold Stack.udpSend
  rw [hsock, bind_ok]
  cases st.udpSockets i with
  | none => exact .inl rfl
  | some s =>
    dsimp only
    split
    · exact .inl rfl
    · have hsent : (do
          let pkt ← UdpPacket.new s.localPort s.remotePort (← sliceRange data 0 (min data.length MAX_UDP_PAYLOAD))
          let p ← Ipv4Packet.new st.ip s.remoteIp IP_PROTO_UDP pkt.toBytes
          let ipBytes ← p.toBytes
          st.sendIp s.remoteIp ipBytes : Rust Unit Stack).Ends Sound := by
        refine (sliceRange_ends (by omega)).bind fun part hpart => ?_
        unfold MAX_UDP_PAYLOAD at hpart
        rw [udp_new (by omega), bind_ok]
        refine datagram_ends (by rw [udp_toBytes_length]; dsimp only; omega) fun bs hbs => ?_
        rw [udp_toBytes_length] at hbs
        dsimp only at hbs
        exact sendIp_ends h _ (by unfold ETH_FRAME_SIZE; omega)
      obtain ⟨st', hst', h'⟩ := hsent
      refine .inr ⟨st', ?_, h'⟩
      simp only [← bind_assoc] at hst' ⊢
      rw [hst']
      rfl

theorem udpConnect_ends (h : Sound st) (i : Nat) (dstIp : IpAddr) (dstPort : UInt16) :
    st.udpConnect i dstIp dstPort = .error (.err ()) ∨ (st.udpConnect i dstIp dstPort).Ends Sound := by
  unfold Stack.udpConnect
  cases (if i < MAX_SOCKETS then st.udpSockets i else none) with
  | none => exact .inl rfl
  | some s => exact .inr (ends_ok ⟨h.frames, h.net⟩)

theorem udpRecv_ends (h : Sound st) {i : Nat} (hi : i < MAX_SOCKETS) (cap : Nat) :
    (st.udpRecv i cap).map Prod.fst = .error (.err ()) ∨ Rust.Ends ((st.udpRecv i cap).map Prod.fst) Sound := by
  have hsock : st.udpSocket i = .ok (st.udpSockets i) := if_pos hi
  unfold Stack.udpRecv
  rw [hsock, bind_ok]
  cases st.udpSockets i with
  | none => exact .inl rfl
  | some s =>
    dsimp only
    split
    · exact .inl rfl
    · exact .inr (ends_ok ⟨h.frames, h.net⟩)

theorem stack_step_ends (h : Sound st) {op : StackOp} (hv : op.Valid) : (st.step op).Ends Sound := by
  cases op with
  | frame bytes => exact handleEth_ends h bytes
  | tcp op =>
    refine (tcp_step_outgoing (outgoing_of_net h.net) hv).bind fun tcp hout => ?_
    exact withTcp_ends h hout
  | udpBind port =>
    refine ends_ok ?_
    unfold Stack.udpBind
    split
    · exact ⟨h.frames, h.net⟩
    · exact h
  | udpSend i data => exact orStay_ends h (udpSend_ends h hv data)
  | udpConnect i dstIp dstPort => exact orStay_ends h (udpConnect_ends h i dstIp dstPort)
  | udpClose i =>
    refine ends_ok ?_
    unfold Stack.udpClose
    split
    · exact ⟨h.frames, h.net⟩
    · exact h
  | udpRecv i cap => exact orStay_ends h (udpRecv_ends h hv cap)
  | setIp ip => exact ends_ok ⟨h.frames, h.net⟩
  | dhcpStart => exact dhcpStart_ends h

theorem runAll_ends : ∀ {ops : List StackOp} {st : Stack}, Sound st → (∀ op ∈ ops, op.Valid) →
    Rust.Ends (Runs.runAll Stack.step st ops) Sound
  | [], st, h, _ => ends_ok h
  | op :: ops, st, h, hops => by
    unfold Runs.runAll
    refine (stack_step_ends h (hops op (.head _))).bind fun st' h' => ?_
    exact runAll_ends h' fun op hop => hops op (.tail _ hop)

end

/-- Whatever frames arrive and whatever calls are made, the stack goes on: no access is out of range, the
receive buffers hold what their arrays hold, and every frame composed fits the frame buffer. -/
theorem receive_path_total (mac : Mac) {ops : List StackOp} (hops : ∀ op ∈ ops, op.Valid) :
    ∃ st, (do let st ← Stack.tryInit mac; Runs.runAll Stack.step st ops : Rust Unit Stack) = .ok st ∧
      (∀ i s, st.tcp.tcpSockets i = some s → s.recvLen ≤ MAX_TCP_PAYLOAD) ∧
      (∀ f ∈ st.frames, f.length ≤ ETH_FRAME_SIZE) ∧
      ∀ frame : List UInt8, frame.length ≤ ETH_FRAME_SIZE →
        ∃ st', st.handleEth frame = .ok st' ∧ ∀ f ∈ st'.frames, f.length ≤ ETH_FRAME_SIZE := by
  have hstart : Sound ⟨mac, .default, .new mac, .init, fun _ => none, []⟩ := by
    refine ⟨fun f hf => ?_, rfl⟩
    cases hf
  obtain ⟨st, hrun, hsound⟩ := (dhcpStart_ends hstart).bind fun _ h => runAll_ends h hops
  refine ⟨st, hrun, fun i s _ => s.recvLen_le, hsound.frames, fun frame _ => ?_⟩
  obtain ⟨st', hst', hsound'⟩ := handleEth_ends hsound frame
  exact ⟨st', hst', hsound'.frames⟩

/-- A server that listens, and a frame that claims a longer header than it has. -/
theorem receive_path_total_short :
    ∃ st, (do
        let st ← Stack.tryInit .broadcast
        Runs.runAll Stack.step st [.tcp (.listen 80),
          .frame (Mac.broadcast.bytes ++ Mac.zero.bytes ++ [8, 0, 0x4F])] :
          Rust Unit Stack) = .ok st ∧
      (∀ i s, st.tcp.tcpSockets i = some s → s.recvLen ≤ MAX_TCP_PAYLOAD) ∧
      (∀ f ∈ st.frames, f.length ≤ ETH_FRAME_SIZE) ∧
      ∀ frame : List UInt8, frame.length ≤ ETH_FRAME_SIZE →
        ∃ st', st.handleEth frame = .ok st' ∧ ∀ f ∈ st'.frames, f.length ≤ ETH_FRAME_SIZE := by
  apply receive_path_total
  intro op hop
  simp only [List.mem_cons, List.not_mem_nil, or_false] at hop
  obtain rfl | rfl := hop
  · trivial
  · simp [StackOp.Valid, Mac.bytes, ETH_FRAME_SIZE]

end Net

end WasmOs
