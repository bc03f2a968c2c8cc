import WasmOs.DhcpRun
import WasmOs.TcpDemux

/-!
# What a received packet leads to

Between two calls nothing waits to be sent, and a packet is answered with at most one frame. So what a
packet does to the stack can be read off the socket, the DHCP client or the echo request it reaches.
-/

namespace WasmOs.Net

namespace Stack

def sent (st : Stack) (frame : List UInt8) : Stack := { st with frames := st.frames ++ [frame] }

/-- The hardware address a datagram goes to, when it is known. -/
def route (st : Stack) (ip : IpAddr) : Option Mac :=
  if ip = ⟨255, 255, 255, 255⟩ then some .broadcast else st.tcp.arp.lookup ip

/-- The socket of a slot after a segment, with what it answers. -/
def settle (st : Stack) (i : Nat) (s : TcpSocket) : Option TcpReply → Rust Unit Stack
  | none => .ok { st with tcp := st.tcp.setSocket i s }
  | some r =>
    { st with tcp := st.tcp.setSocket i s }.sendTcpSeg s.localPort s.remotePort s.remoteIp r.seq r.ack r.flags []

end Stack

section
variable (st : Stack)

/-! ## Frames -/

theorem sent_ne (frame : List UInt8) : st.sent frame ≠ st := by
  intro h
  have hlen := congrArg (fun st => st.frames.length) h
  simp [Stack.sent] at hlen

theorem sendArpRequest_sent (ip : IpAddr) : ∃ frame, st.sendArpRequest ip = .ok (st.sent frame) := by
  obtain ⟨bytes, hbytes, hlen⟩ := arp_toBytes_ends ⟨ARP_OP_REQUEST, st.ip, ip, st.mac, .zero⟩
  unfold Stack.sendArpRequest
  dsimp only
  rw [hbytes, bind_ok]
  exact ⟨_, sendEth_eq st _ _ (by unfold ETH_FRAME_SIZE; omega)⟩

theorem sendIp_none {ip : IpAddr} (h : st.route ip = none) (bytes : List UInt8) :
    st.sendIp ip bytes = st.sendArpRequest ip := by
  unfold Stack.route at h
  unfold Stack.sendIp
  by_cases hip : ip = ⟨255, 255, 255, 255⟩
  · rw [if_pos hip] at h
    cases h
  · rw [if_neg hip] at h ⊢
    rw [h]

theorem sendIp_some {ip : IpAddr} {mac : Mac} (h : st.route ip = some mac) {bytes : List UInt8}
    (hfits : 14 + bytes.length ≤ ETH_FRAME_SIZE) :
    st.sendIp ip bytes = .ok (st.sent (ethBytes mac st.mac ETH_TYPE_IPV4 bytes)) := by
  unfold Stack.route at h
  unfold Stack.sendIp
  by_cases hip : ip = ⟨255, 255, 255, 255⟩
  · rw [if_pos hip] at h ⊢
    cases h
    exact sendEth_eq st _ _ hfits
  · rw [if_neg hip] at h ⊢
    rw [h]
    exact sendEth_eq st _ _ hfits

theorem sendIp_sent (ip : IpAddr) {bytes : List UInt8} (hfits : 14 + bytes.length ≤ ETH_FRAME_SIZE) :
    ∃ frame, st.sendIp ip bytes = .ok (st.sent frame) := by
  cases h : st.route ip with
  | none =>
    rw [sendIp_none st h]
    exact sendArpRequest_sent st ip
  | some mac => exact ⟨_, sendIp_some st h hfits⟩

theorem sendTcpSeg_sent (lport rport : UInt16) (rip : IpAddr) (seq ack : UInt32) (flags : UInt8) :
    ∃ frame, st.sendTcpSeg lport rport rip seq ack flags [] = .ok (st.sent frame) := by
  unfold Stack.sendTcpSeg
  rw [makeTcpPacket_eq _ _ _ _ _ _ _ _ _ (by decide), bind_ok, ipv4_new (by rw [tcpBytes_length]; decide),
    bind_ok, ipv4_toBytes, bind_ok]
  refine sendIp_sent st rip ?_
  rw [List.length_append, ipHeader_length, tcpBytes_length]
  decide

/-! ## Segments -/

variable {st}

theorem handleTcp_unmatched (hnet : st.tcp.net = []) (src : IpAddr) (pkt : TcpPacket)
    (hf : st.tcp.findTcpSocket pkt.dstPort pkt.srcPort = none) : st.handleTcp src pkt = .ok st := by
  unfold Stack.handleTcp Stack.handlePktBounds NetworkStack.handleTcp Stack.withTcp
  simp only [hf, bind_ok, hnet, Stack.transmitAll]
  rw [← hnet]

theorem handleTcp_settle (hnet : st.tcp.net = []) (src : IpAddr) (pkt : TcpPacket) {i : Nat} {s : TcpSocket}
    (hf : st.tcp.findTcpSocket pkt.dstPort pkt.srcPort = some i) (hs : st.tcp.tcpSockets i = some s) :
    st.handleTcp src pkt = st.settle i (s.handlePkt pkt src).1 (s.handlePkt pkt src).2 := by
  obtain ⟨_, hbounds, -⟩ := handlePktBounds_ends st pkt
  unfold Stack.handleTcp
  rw [hbounds, bind_ok]
  unfold NetworkStack.handleTcp
  simp only [hf, hs]
  cases (s.handlePkt pkt src).2 with
  | none =>
    simp only [bind_ok, Stack.withTcp, NetworkStack.setSocket, hnet, Stack.transmitAll, Stack.settle]
  | some r =>
    simp only [bind_ok, Stack.withTcp, NetworkStack.setSocket, NetworkStack.send, hnet, List.nil_append,
      Stack.transmitAll, Stack.transmit,
      Stack.settle]
    exact bind_pure _

theorem settle_eq (st : Stack) (i : Nat) (s : TcpSocket) (r : Option TcpReply) :
    ∃ frames, st.settle i s r = .ok { st with tcp := st.tcp.setSocket i s, frames := st.frames ++ frames } ∧
      frames.length = r.toList.length := by
  cases r with
  | none => exact ⟨[], by simp [Stack.settle], rfl⟩
  | some r =>
    obtain ⟨frame, hsend⟩ := sendTcpSeg_sent { st with tcp := st.tcp.setSocket i s } s.localPort s.remotePort
      s.remoteIp r.seq r.ack r.flags
    exact ⟨[frame], hsend, rfl⟩

theorem settle_inj {i : Nat} {s s' : TcpSocket} {r r' : Option TcpReply} (h : st.settle i s r = st.settle i s' r') :
    s = s' ∧ r.toList.length = r'.toList.length := by
  obtain ⟨frames, he, hlen⟩ := settle_eq st i s r
  obtain ⟨frames', he', hlen'⟩ := settle_eq st i s' r'
  rw [he, he'] at h
  have hst := Except.ok.inj h
  constructor
  · have hslot := congrFun (congrArg (fun st => st.tcp.tcpSockets) hst) i
    simp only [NetworkStack.setSocket_tcpSockets, upd_self] at hslot
    exact Option.some.inj hslot
  · have hframes := congrArg Stack.frames hst
    rw [← hlen, ← hlen', List.append_cancel_left hframes]

/-- Nothing has happened exactly when the socket is the old one and does not answer. -/
theorem settle_eq_self {i : Nat} {s s' : TcpSocket} (hs : st.tcp.tcpSockets i = some s) (r : Option TcpReply) :
    st.settle i s' r = .ok st ↔ s' = s ∧ r = none := by
  have hself : st.settle i s none = .ok st := by
    unfold Stack.settle
    rw [setSocket_self hs]
  constructor
  · intro h
    rw [← hself] at h
    obtain ⟨rfl, hlen⟩ := settle_inj h
    cases r with
    | none => exact ⟨rfl, rfl⟩
    | some r => cases hlen
  · rintro ⟨rfl, rfl⟩
    exact hself

/-! ## DHCP messages -/

/-- The client after a message, once the stack has done what it asks for. -/
def DhcpClient.after (c : DhcpClient) : Option DhcpAction → DhcpClient
  | some .nak => { c with state := .selecting }
  | _ => c

theorem follow_dhcp (st : Stack) (c : DhcpClient) (action : Option DhcpAction) :
    ∃ st', st.follow c action = .ok st' ∧ st'.dhcp = c.after action := by
  unfold Stack.follow
  split
  · obtain ⟨frame, hsend, -⟩ :=
      sendDhcpUdp_eq { st with dhcp := c } (bootpBytes_length_le c.xid st.mac MSG_REQUEST c.offeredIp c.serverIp)
    exact ⟨_, hsend, rfl⟩
  · exact ⟨_, rfl, rfl⟩
  · obtain ⟨frame, hstart, -⟩ := dhcpStart_eq { st with dhcp := c }
    exact ⟨_, hstart, rfl⟩
  · exact ⟨_, rfl, rfl⟩

/-- The options of a message the client takes note of; it takes none from a message that is not for it. -/
def DhcpClient.heard (c : DhcpClient) (payload : List UInt8) : DhcpOptions :=
  if IsReply c.xid (received payload) then optionsOf (received payload) else
      ⟨0, .default, .default, .default, 86400⟩

theorem act_untyped (c : DhcpClient) (ip : IpAddr) {o : DhcpOptions} (ho : o.msgType = 0) :
    c.act ip o = (c, none) := by
  unfold DhcpClient.act
  cases c.state <;> simp [ho, MSG_OFFER, MSG_ACK, MSG_NAK]

theorem handleDhcp_follow (st : Stack) (payload : List UInt8) :
    st.handleDhcp payload = st.follow (st.dhcp.act (yiaddrOf (received payload)) (st.dhcp.heard payload)).1
      (st.dhcp.act (yiaddrOf (received payload)) (st.dhcp.heard payload)).2 := by
  rw [handleDhcp_eq]
  unfold DhcpClient.heard
  by_cases hr : IsReply st.dhcp.xid (received payload)
  · rw [if_pos hr, if_pos hr]
  · rw [if_neg hr, if_neg hr, act_untyped _ _ rfl]
    rfl

end

end WasmOs.Net
