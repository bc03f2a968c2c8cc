import WasmOs.Runs
import WasmOs.StackTotal

/-!
# Runs of the DHCP client

The client listens to whatever comes from port 67 to port 68. What it does depends on its state and on
what the walk over the options finds; the two messages it sends itself are written out here byte by byte.
-/

namespace WasmOs.Net

open Runs

/-! ## What is sent -/

/-- An address option of a message, left out when the address is zero. -/
def addrBytes (tag : UInt8) (ip : IpAddr) : List UInt8 := if ip ≠ .default then [tag, 4] ++ ip.bytes else []

/-- A BOOTREQUEST of `build_bootp`. -/
def bootpBytes (xid : UInt32) (mac : Mac) (msgType : UInt8) (requestedIp serverId : IpAddr) : List UInt8 :=
  [1, 1, 6, 0] ++ be32 xid ++ [0, 0, 0x80, 0] ++ List.replicate 16 0 ++ mac.bytes ++
    List.replicate 202 0 ++ MAGIC ++
    [53, 1, msgType] ++ addrBytes 50 requestedIp ++ addrBytes 54 serverId ++ [55, 3, 1, 3, 51, 255]

section
variable {ε : Type}

/-- A byte is written right behind what was written before. -/
theorem setAt_zeros (pre : List UInt8) (k : Nat) {m i : Nat} (hm : m = k + 1) (hi : i = pre.length) (v : UInt8) :
    (setAt (pre ++ List.replicate m 0) i v : Rust ε (List UInt8)) = .ok (pre ++ [v] ++ List.replicate k 0) := by
  subst hm hi
  rw [setAt_of_lt (by simp)]
  simp [List.replicate_succ]

/-- A piece is written `n` zeros behind what was written before. -/
theorem copyInto_zeros (pre src : List UInt8) (n k : Nat) {m lo hi : Nat} (hm : m = n + src.length + k)
    (hlo : lo = pre.length + n) (hhi : hi = lo + src.length) :
    (copyInto (pre ++ List.replicate m 0) lo hi src : Rust ε (List UInt8)) =
      .ok (pre ++ List.replicate n 0 ++ src ++ List.replicate k 0) := by
  subst hm hlo hhi
  rw [copyInto_of_le ⟨by omega, by simp; omega, by omega⟩]
  have htake : (pre ++ List.replicate (n + src.length + k) (0 : UInt8)).take (pre.length + n) =
      pre ++ List.replicate n 0 := by
    rw [List.take_length_add_append, List.take_replicate, Nat.min_eq_left (by omega)]
  have hdrop : (pre ++ List.replicate (n + src.length + k) (0 : UInt8)).drop (pre.length + n + src.length) =
      List.replicate k 0 := by
    rw [Nat.add_assoc, List.drop_length_add_append, List.drop_replicate]
    congr 1
    omega
  rw [htake, hdrop]

theorem addrOption_zeros (pre : List UInt8) (k : Nat) {m o : Nat} (hm : m = k + 6) (ho : o = pre.length)
    (tag : UInt8) (ip : IpAddr) :
    ∃ k', addrOption (pre ++ List.replicate m 0) o tag ip =
        .ok (pre ++ addrBytes tag ip ++ List.replicate k' 0, (pre ++ addrBytes tag ip).length) ∧ k ≤ k' := by
  unfold addrOption addrBytes
  by_cases hip : ip ≠ .default
  · refine ⟨k, ?_, Nat.le_refl k⟩
    rw [if_pos hip, if_pos hip, setAt_zeros pre (k + 5) (by omega) ho tag, bind_ok]
    rw [setAt_zeros (pre ++ [tag]) (k + 4) (by omega) (by simp [ho]) 4, bind_ok]
    rw [copyInto_zeros _ ip.bytes 0 k (by simp [IpAddr.bytes]; omega) (by simp [ho]) (by simp [IpAddr.bytes]),
      bind_ok]
    simp [IpAddr.bytes, ho]
  · refine ⟨m, ?_, by omega⟩
    rw [if_neg hip, if_neg hip]
    simp [ho]

end

theorem buildBootp_eq (c : DhcpClient) (mac : Mac) (msgType : UInt8) (requestedIp serverId : IpAddr) :
    c.buildBootp mac msgType requestedIp serverId = .ok (bootpBytes c.xid mac msgType requestedIp serverId) := by
  unfold DhcpClient.buildBootp
  dsimp only
  rw [show List.replicate 300 (0 : UInt8) = [] ++ List.replicate 300 0 from rfl]
  rw [setAt_zeros _ 299 (by rfl) (by rfl), bind_ok, setAt_zeros _ 298 (by rfl) (by rfl), bind_ok,
    setAt_zeros _ 297 (by rfl) (by rfl), bind_ok]
  rw [copyInto_zeros _ (be32 c.xid) 1 292 (by rfl) (by rfl) (by rfl), bind_ok]
  rw [copyInto_zeros _ (be16 0x8000) 2 288 (by rfl) (by rfl) (by rfl), bind_ok]
  rw [copyInto_zeros _ mac.bytes 16 266 (by rfl) (by rfl) (by rfl), bind_ok]
  rw [copyInto_zeros _ MAGIC 202 60 (by rfl) (by rfl) (by rfl), bind_ok]
  rw [setAt_zeros _ 59 (by rfl) (by rfl), bind_ok, setAt_zeros _ 58 (by rfl) (by rfl), bind_ok,
    setAt_zeros _ 57 (by rfl) (by rfl), bind_ok]
  obtain ⟨pre, hpre⟩ : ∃ pre, pre = [] ++ [1] ++ [1] ++ [6] ++ List.replicate 1 0 ++ be32 c.xid ++
      List.replicate 2 0 ++ be16 0x8000 ++
    List.replicate 16 0 ++ mac.bytes ++ List.replicate 202 0 ++ MAGIC ++ [53] ++ [1] ++ [msgType] := ⟨_, rfl⟩
  rw [← hpre]
  have hlen : 243 = pre.length := by
    rw [hpre]
    rfl
  have hbytes : bootpBytes c.xid mac msgType requestedIp serverId =
      pre ++ addrBytes 50 requestedIp ++ addrBytes 54 serverId ++ [55, 3, 1, 3, 51, 255] := by
    have hflag : be16 0x8000 = [0x80, 0] := by decide
    rw [hpre, hflag, bootpBytes, show List.replicate 1 (0 : UInt8) = [0] from rfl,
      show List.replicate 2 (0 : UInt8) = [0, 0] from rfl]
    simp only [List.append_assoc, List.cons_append, List.nil_append]
  rw [hbytes]
  clear hpre hbytes
  -- at most twelve of the sixty bytes that are left go to the two addresses
  obtain ⟨k₁, hopt, hk₁⟩ := addrOption_zeros pre 51 (m := 57) rfl hlen 50 requestedIp
  rw [hopt, bind_ok]
  dsimp only
  obtain ⟨k₂, hopt, hk₂⟩ :=
    addrOption_zeros (pre ++ addrBytes 50 requestedIp) (k₁ - 6) (m := k₁) (by omega) rfl 54 serverId
  rw [hopt, bind_ok]
  dsimp only
  obtain ⟨k, rfl⟩ : ∃ k, k₂ = k + 6 := ⟨k₂ - 6, by omega⟩
  generalize pre ++ addrBytes 50 requestedIp ++ addrBytes 54 serverId = body
  rw [setAt_zeros _ (k + 5) (by rfl) (by rfl), bind_ok, setAt_zeros _ (k + 4) (by rfl) (by simp), bind_ok]
  rw [setAt_zeros _ (k + 3) (by rfl) (by simp), bind_ok, setAt_zeros _ (k + 2) (by rfl) (by simp), bind_ok]
  rw [setAt_zeros _ (k + 1) (by rfl) (by simp), bind_ok, setAt_zeros _ k (by rfl) (by simp), bind_ok]
  rw [sliceRange_of_le ⟨by omega, by simp⟩, List.drop_zero, List.take_left' (by simp)]
  simp

/-- The frame is a broadcast from port 68 to port 67 with this payload. -/
def CarriesDhcp (mac : Mac) (frame payload : List UInt8) : Prop :=
  ∃ eth ip udp, EthFrame.parse frame = .ok (some eth) ∧ eth.dst = .broadcast ∧ eth.src = mac ∧
    eth.ethertype = ETH_TYPE_IPV4 ∧
    Ipv4Packet.parse eth.payload = .ok (some ip) ∧ ip.src = ⟨0, 0, 0, 0⟩ ∧ ip.dst = ⟨255, 255, 255, 255⟩ ∧
    ip.protocol = IP_PROTO_UDP ∧
    UdpPacket.parse ip.payload = .ok (some udp) ∧ udp.srcPort = CLIENT_PORT ∧ udp.dstPort = SERVER_PORT ∧
    udp.payload = payload

theorem sendDhcpUdp_eq (st : Stack) {payload : List UInt8} (h : payload.length ≤ 300) :
    ∃ frame, st.sendDhcpUdp payload = .ok { st with frames := st.frames ++ [frame] } ∧
    CarriesDhcp st.mac frame payload := by
  obtain ⟨packet, hpacket, hplen, hudp⟩ :=
    udpBytes_eq (show 8 + payload.length < 2 ^ 16 by omega) CLIENT_PORT SERVER_PORT
  obtain ⟨header, hdatagram, hhlen, -, hip⟩ :=
    ipv4Bytes_eq (show 20 + packet.length < 2 ^ 16 by omega) ⟨0, 0, 0, 0⟩ ⟨255, 255, 255, 255⟩ IP_PROTO_UDP
  have hfits : 14 + (header ++ packet).length ≤ ETH_FRAME_SIZE := by
    rw [List.length_append, hhlen, hplen]
    unfold ETH_FRAME_SIZE
    omega
  refine ⟨ethBytes .broadcast st.mac ETH_TYPE_IPV4 (header ++ packet), ?_, _, _, _, eth_parse .., rfl, rfl,
    rfl, hip, rfl, rfl, rfl, hudp, rfl, rfl, rfl⟩
  obtain ⟨udp, hnew, hbytes⟩ := bind_eq_ok.mp hpacket
  obtain ⟨datagram, hip, hdatagram⟩ := bind_eq_ok.mp hdatagram
  cases hbytes
  unfold Stack.sendDhcpUdp
  rw [hnew, bind_ok, hip, bind_ok, hdatagram, bind_ok]
  exact sendEth_eq st .broadcast ETH_TYPE_IPV4 hfits

/-! ## What is received -/

/-- As much of a payload as the buffer of `handle_dhcp` takes. -/
def received (payload : List UInt8) : List UInt8 := payload.take 1024

/-- A BOOTREPLY with this transaction id and the magic cookie. -/
def IsReply (xid : UInt32) (data : List UInt8) : Prop :=
  240 ≤ data.length ∧ data[0]? = some 2 ∧ (data.take 240).drop 236 = MAGIC ∧ (data.take 8).drop 4 = be32 xid

instance (xid : UInt32) (data : List UInt8) : Decidable (IsReply xid data) := inferInstanceAs (Decidable (_ ∧ _))

def yiaddrOf (data : List UInt8) : IpAddr := ⟨data.getD 16 0, data.getD 17 0, data.getD 18 0, data.getD 19 0⟩

def optionsOf (data : List UInt8) : DhcpOptions :=
  let o : DhcpOptions := ⟨0, .default, .default, .default, 86400⟩
  match walkOptions data (data.length + 1) 240 o with
  | .ok o => o
  | .error _ => o

theorem be32_ofBe32 (a b c d : UInt8) : be32 (ofBe32 a b c d) = [a, b, c, d] := by
  have ha := a.toNat_lt
  have hb := b.toNat_lt
  have hc := c.toNat_lt
  have hd := d.toNat_lt
  have hv : (ofBe32 a b c d).toNat = ((a.toNat * 256 + b.toNat) * 256 + c.toNat) * 256 + d.toNat := by
    unfold ofBe32
    rw [UInt32.toNat_ofNat', Nat.mod_eq_of_lt (by omega)]
  unfold be32
  rw [hv]
  refine congr (congrArg List.cons ?_)
    (congr (congrArg List.cons ?_) (congr (congrArg List.cons ?_) (congrArg (· :: []) ?_)))
  all_goals
    apply UInt8.toNat_inj.mp
    simp only [UInt8.toNat_ofNat', UInt32.toNat_toUInt8, hv]
    omega

/-- The transaction id of a message is read in network order. -/
theorem u32At_eq_iff {data : List UInt8} (h : 8 ≤ data.length) (xid : UInt32) :
    ∃ v, u32At data 4 = .ok v ∧ (v = xid ↔ (data.take 8).drop 4 = be32 xid) := by
  match data, h with
  | _ :: _ :: _ :: _ :: a :: b :: c :: d :: _, _ =>
    refine ⟨ofBe32 a b c d, rfl, ?_, ?_⟩
    · rintro rfl
      exact (be32_ofBe32 a b c d).symm
    · intro hbytes
      have hbytes : [a, b, c, d] = be32 xid := hbytes
      simp only [be32, List.cons.injEq, and_true] at hbytes
      obtain ⟨rfl, rfl, rfl, rfl⟩ := hbytes
      exact ofBe32_be32 xid

theorem handlePacket_eq (c : DhcpClient) (data : List UInt8) :
    c.handlePacket data = .ok (if IsReply c.xid data then c.act (yiaddrOf data) (optionsOf data) else
      (c, none)) := by
  unfold DhcpClient.handlePacket
  by_cases hlen : 240 ≤ data.length
  · have hop : data[0]? = some 2 ↔ data[0] = 2 := by
      rw [List.getElem?_eq_getElem (by omega)]
      exact ⟨Option.some.inj, congrArg some⟩
    obtain ⟨v, hv, hxid⟩ := u32At_eq_iff (show 8 ≤ data.length by omega) c.xid
    obtain ⟨o, ho, -⟩ :=
      walkOptions_ends data (data.length + 1) 240 ⟨0, .default, .default, .default, 86400⟩ hlen (by omega)
    rw [if_neg (Nat.not_lt.mpr hlen), index_of_lt (by omega), bind_ok]
    by_cases h₁ : data[0] = 2
    · rw [if_neg (not_not.mpr h₁), sliceRange_of_le ⟨by omega, hlen⟩, bind_ok]
      by_cases h₂ : (data.take 240).drop 236 = MAGIC
      · rw [if_neg (not_not.mpr h₂), hv, bind_ok]
        by_cases h₃ : v = c.xid
        · rw [if_neg (not_not.mpr h₃), if_pos ⟨hlen, hop.mpr h₁, h₂, hxid.mp h₃⟩]
          rw [index_of_lt (by omega), bind_ok, index_of_lt (by omega), bind_ok, index_of_lt (by omega),
            bind_ok, index_of_lt (by omega), bind_ok]
          rw [ho, bind_ok]
          have hopt : optionsOf data = o := by simp only [optionsOf, ho]
          have hy : yiaddrOf data = ⟨data[16], data[17], data[18], data[19]⟩ := by
            simp only [yiaddrOf, List.getD_eq_getElem?_getD,
              List.getElem?_eq_getElem (show 16 < data.length by omega),
              List.getElem?_eq_getElem (show 17 < data.length by omega),
              List.getElem?_eq_getElem (show 18 < data.length by omega),
              List.getElem?_eq_getElem (show 19 < data.length by omega), Option.getD_some]
          rw [hopt, hy]
        · rw [if_pos h₃, if_neg fun h => h₃ (hxid.mpr h.2.2.2)]
      · rw [if_pos h₂, if_neg fun h => h₂ h.2.2.1]
    · rw [if_pos h₁, if_neg fun h => h₁ (hop.mp h.2.1)]
  · rw [if_pos (Nat.not_le.mp hlen), if_neg fun h => hlen h.1]

/-- What the client takes from a payload in its state: an offer, the confirmation of one or its withdrawal. -/
inductive DhcpEvent where
  | offer (ip server : IpAddr)
  | ack (ip : IpAddr)
  | nak
  deriving DecidableEq, Repr

def DhcpClient.accepts (c : DhcpClient) (payload : List UInt8) : Option DhcpEvent :=
  let data := received payload
  let msgType := (optionsOf data).msgType
  if ¬ IsReply c.xid data then none
  else if c.state = .selecting ∧ msgType = MSG_OFFER then some (.offer (yiaddrOf data) (optionsOf data).serverId)
  else if c.state = .requesting ∧ msgType = MSG_ACK then some (.ack (yiaddrOf data))
  else if c.state = .requesting ∧ msgType = MSG_NAK then some .nak
  else none

/-! ## What a payload does -/

section
variable (st : Stack) (payload : List UInt8)

inductive DhcpStep : Stack → Prop
  | none (h : st.dhcp.accepts payload = none) : DhcpStep st
  | offer {ip server : IpAddr} {c : DhcpClient} {frame : List UInt8}
      (h : st.dhcp.accepts payload = some (.offer ip server))
      (hq : st.dhcp.state = .selecting) (hxid : c.xid = st.dhcp.xid) (hc : c.state = .requesting)
      (hframe : CarriesDhcp st.mac frame (bootpBytes st.dhcp.xid st.mac MSG_REQUEST ip server)) :
      DhcpStep { st with dhcp := c, frames := st.frames ++ [frame] }
  | ack (h : st.dhcp.accepts payload = some (.ack (yiaddrOf (received payload)))) (hq : st.dhcp.state = .requesting)
      (hr : IsReply st.dhcp.xid (received payload)) (ht : (optionsOf (received payload)).msgType = MSG_ACK) :
      DhcpStep { st with dhcp := { st.dhcp with offeredIp := yiaddrOf (received payload), state := .bound },
                         ip := yiaddrOf (received payload) }
  | nak {frame : List UInt8} (h : st.dhcp.accepts payload = some .nak) (hq : st.dhcp.state = .requesting)
      (hframe : CarriesDhcp st.mac frame (bootpBytes st.dhcp.xid st.mac MSG_DISCOVER .default .default)) :
      DhcpStep { st with dhcp := { st.dhcp with state := .selecting }, frames := st.frames ++ [frame] }

end

section
variable (st : Stack)

theorem bootpBytes_length_le (xid : UInt32) (mac : Mac) (msgType : UInt8) (requestedIp serverId : IpAddr) :
    (bootpBytes xid mac msgType requestedIp serverId).length ≤ 300 := by
  obtain ⟨bs, hbs, hlen⟩ :=
    buildBootp_ends ⟨.idle, xid, .default, .default, .default, .default, 0⟩ mac msgType requestedIp serverId
  rw [buildBootp_eq] at hbs
  cases hbs
  exact hlen

theorem dhcpStart_eq : ∃ frame, st.dhcpStart =
    .ok { st with dhcp := { st.dhcp with state := .selecting }, frames := st.frames ++ [frame] } ∧
    CarriesDhcp st.mac frame (bootpBytes st.dhcp.xid st.mac MSG_DISCOVER .default .default) := by
  unfold Stack.dhcpStart DhcpClient.buildDiscover
  dsimp only
  rw [buildBootp_eq, bind_ok]
  exact sendDhcpUdp_eq _ (bootpBytes_length_le ..)

theorem copyInto_take (payload : List UInt8) (size : Nat) :
    ∃ part buf, (sliceRange payload 0 (min payload.length size) : Rust Unit (List UInt8)) = .ok part ∧
      (copyInto (List.replicate size 0) 0 (min payload.length size) part : Rust Unit (List UInt8)) = .ok buf ∧
      (sliceRange buf 0 (min payload.length size) : Rust Unit (List UInt8)) = .ok (payload.take size) := by
  have hlen : (payload.take size).length = min payload.length size := by
    rw [List.length_take]
    exact Nat.min_comm _ _
  have htake : (payload.take (min payload.length size)).drop 0 = payload.take size := by
    rw [List.drop_zero, List.take_eq_take_iff]
    omega
  refine ⟨_, _, sliceRange_of_le ⟨Nat.zero_le _, by omega⟩, copyInto_of_le ⟨Nat.zero_le _, ?_, ?_⟩, ?_⟩
  · rw [List.length_replicate]
    exact Nat.min_le_right _ _
  · rw [htake, hlen]
    rfl
  · rw [htake, List.take_zero, List.nil_append, sliceRange_of_le ⟨Nat.zero_le _, ?_⟩, List.drop_zero,
      List.take_left' hlen]
    rw [List.length_append, hlen]
    exact Nat.le_add_right _ _

def Stack.follow (dhcp : DhcpClient) : Option DhcpAction → Rust Unit Stack
  | some .sendRequest =>
    { st with dhcp := dhcp }.sendDhcpUdp (bootpBytes dhcp.xid st.mac MSG_REQUEST dhcp.offeredIp dhcp.serverIp)
  | some (.bound ip) => .ok { st with dhcp := dhcp, ip := ip }
  | some .nak => { st with dhcp := dhcp }.dhcpStart
  | none => .ok { st with dhcp := dhcp }

theorem handleDhcp_eq (payload : List UInt8) :
    st.handleDhcp payload =
      if IsReply st.dhcp.xid (received payload) then
        st.follow (st.dhcp.act (yiaddrOf (received payload)) (optionsOf (received payload))).1
          (st.dhcp.act (yiaddrOf (received payload)) (optionsOf (received payload))).2
      else .ok st := by
  have hbuf : (List.replicate 1024 (0 : UInt8)).length = 1024 := List.length_replicate
  obtain ⟨part, buf, hpart, hcopy, hdata⟩ := copyInto_take payload 1024
  rw [show payload.take 1024 = received payload from rfl] at hdata
  unfold Stack.handleDhcp
  dsimp only
  rw [hbuf, hpart, bind_ok, hcopy, bind_ok, hdata, bind_ok, handlePacket_eq, bind_ok]
  by_cases hr : IsReply st.dhcp.xid (received payload)
  · rw [if_pos hr, if_pos hr]
    generalize st.dhcp.act _ _ = p
    obtain ⟨dhcp, _ | _ | _ | _⟩ := p
    · rfl
    · unfold Stack.follow DhcpClient.buildRequest
      dsimp only
      rw [buildBootp_eq, bind_ok]
    · rfl
    · rfl
  · rw [if_neg hr, if_neg hr]

theorem handleDhcp_step (payload : List UInt8) :
    ∃ st', st.handleDhcp payload = .ok st' ∧ DhcpStep st payload st' := by
  rw [handleDhcp_eq]
  by_cases hr : IsReply st.dhcp.xid (received payload)
  · rw [if_pos hr]
    have ignored : st.dhcp.accepts payload = none →
        st.dhcp.act (yiaddrOf (received payload)) (optionsOf (received payload)) = (st.dhcp, none) →
        ∃ st', st.follow (st.dhcp.act (yiaddrOf (received payload)) (optionsOf (received payload))).1
          (st.dhcp.act (yiaddrOf (received payload)) (optionsOf (received payload))).2 = .ok st' ∧
            DhcpStep st payload st' := by
      intro hn hact
      rw [hact]
      exact ⟨st, rfl, .none hn⟩
    cases hq : st.dhcp.state with
    | idle => exact ignored (by simp [DhcpClient.accepts, hq]) (by simp [DhcpClient.act, hq])
    | bound => exact ignored (by simp [DhcpClient.accepts, hq]) (by simp [DhcpClient.act, hq])
    | selecting =>
      by_cases ht : (optionsOf (received payload)).msgType = MSG_OFFER
      · simp only [DhcpClient.act, hq, ht, if_true, Stack.follow]
        obtain ⟨frame, hsend, hframe⟩ := sendDhcpUdp_eq { st with dhcp := _ } (bootpBytes_length_le ..)
        refine ⟨_, hsend, .offer
          (by simp only [DhcpClient.accepts, hr, hq, ht, not_true_eq_false, if_false, and_self, if_true]) hq
          rfl rfl hframe⟩
      · exact ignored (by simp [DhcpClient.accepts, hq, ht]) (by simp [DhcpClient.act, hq, ht])
    | requesting =>
      by_cases ht : (optionsOf (received payload)).msgType = MSG_ACK
      · simp only [DhcpClient.act, hq, ht, if_true, Stack.follow]
        exact ⟨_, rfl, .ack (by simp [DhcpClient.accepts, hr, hq, ht]) hq hr ht⟩
      · by_cases hn : (optionsOf (received payload)).msgType = MSG_NAK
        · simp only [DhcpClient.act, hq, hn, if_true, Stack.follow]
          obtain ⟨frame, hstart, hframe⟩ := dhcpStart_eq { st with dhcp := { st.dhcp with state := .idle } }
          exact ⟨_, hstart, .nak (by simp [DhcpClient.accepts, hr, hq, hn, MSG_NAK, MSG_ACK]) hq hframe⟩
        · exact ignored (by simp [DhcpClient.accepts, hq, ht, hn]) (by simp [DhcpClient.act, hq, ht, hn])
  · rw [if_neg hr]
    exact ⟨st, rfl, .none (by simp only [DhcpClient.accepts, hr, not_false_eq_true, if_true])⟩

theorem handleDhcp_ack {payload : List UInt8} {st' : Stack} (h : st.handleDhcp payload = .ok st')
    (hq : st.dhcp.state = .requesting)
    (hr : IsReply st.dhcp.xid (received payload)) (ht : (optionsOf (received payload)).msgType = MSG_ACK) :
    st'.ip = yiaddrOf (received payload) ∧ st'.dhcp.state = .bound := by
  rw [handleDhcp_eq, if_pos hr] at h
  simp only [DhcpClient.act, hq, ht, if_true, Stack.follow] at h
  cases h
  exact ⟨rfl, rfl⟩

end

/-! ## Runs -/

/-- The stack with the offers that the client has accepted, and the one since the last NAK. -/
structure DhcpRun where
  st : Stack
  offers : List (IpAddr × IpAddr)
  offer : Option (IpAddr × IpAddr)

namespace DhcpRun

def start (st : Stack) : DhcpRun := ⟨st, [], none⟩

def step (r : DhcpRun) (payload : List UInt8) : Rust Unit DhcpRun := do
  let st ← r.st.handleDhcp payload
  match r.st.dhcp.accepts payload with
  | some (.offer ip server) => .ok ⟨st, r.offers ++ [(ip, server)], some (ip, server)⟩
  | some .nak => .ok ⟨st, r.offers, none⟩
  | some (.ack _) | none => .ok ⟨st, r.offers, r.offer⟩

/-- The address changes only on an ACK for an offer that was accepted since the last NAK, to the address in
it; in `Bound` nothing changes; and an ACK that is waited for binds the address in it. -/
def Safe (r : DhcpRun) (payload : List UInt8) : Prop := ∀ st, r.st.handleDhcp payload = .ok st →
  (st.ip ≠ r.st.ip → IsReply r.st.dhcp.xid (received payload) ∧ (optionsOf (received payload)).msgType = MSG_ACK ∧
    r.st.dhcp.state = .requesting ∧ r.offer.isSome ∧ st.ip = yiaddrOf (received payload)) ∧
  (r.st.dhcp.state = .bound → st = r.st) ∧
  (r.st.dhcp.state = .requesting → IsReply r.st.dhcp.xid (received payload) →
  (optionsOf (received payload)).msgType = MSG_ACK →
    st.ip = yiaddrOf (received payload) ∧ st.dhcp.state = .bound)

/-- The message of a client: a DISCOVER, or the REQUEST for an offer. -/
def message (xid : UInt32) (mac : Mac) : Option (IpAddr × IpAddr) → List UInt8
  | none => bootpBytes xid mac MSG_DISCOVER .default .default
  | some (ip, server) => bootpBytes xid mac MSG_REQUEST ip server

/-- The frames that were sent since `base` are DISCOVERs and, in order, one REQUEST for each offer. -/
def Requested (base : Stack) (r : DhcpRun) : Prop :=
  ∃ frames msgs, r.st.frames = base.frames ++ frames ∧
    List.Forall₂ (fun frame msg => CarriesDhcp base.mac frame (message base.dhcp.xid base.mac msg)) frames msgs ∧
    msgs.filterMap id = r.offers

/-- The client keeps its name and its number, and it has an offer while it waits for the confirmation of one. -/
def Waits (base : Stack) (r : DhcpRun) : Prop :=
  r.st.mac = base.mac ∧ r.st.dhcp.xid = base.dhcp.xid ∧ (r.st.dhcp.state = .requesting → r.offer.isSome)

variable {base : Stack} {r : DhcpRun}

theorem Requested.send (h : r.Requested base) {frame : List UInt8} {m : Option (IpAddr × IpAddr)} {r' : DhcpRun}
    (hframe : CarriesDhcp base.mac frame (message base.dhcp.xid base.mac m))
    (hst : r'.st.frames = r.st.frames ++ [frame])
    (hoffers : r'.offers = r.offers ++ m.toList) : r'.Requested base := by
  obtain ⟨frames, msgs, hf, hall, hreq⟩ := h
  refine ⟨frames ++ [frame], msgs ++ [m], ?_, List.rel_append hall (.cons hframe .nil), ?_⟩
  · rw [hst, hf, List.append_assoc]
  · rw [List.filterMap_append, hreq, hoffers]
    cases m <;> rfl

theorem step_safe (hw : r.Waits base) (hr : r.Requested base) (payload : List UInt8) :
    ∃ r', r.step payload = .ok r' ∧ r'.Waits base ∧ r'.Requested base ∧ r.Safe payload := by
  obtain ⟨st, hst, hstep⟩ := handleDhcp_step r.st payload
  obtain ⟨hmac, hxid, hoffer⟩ := hw
  -- a payload that the stack takes only one way is safe if that way is
  have safe : (st.ip ≠ r.st.ip → IsReply r.st.dhcp.xid (received payload) ∧
      (optionsOf (received payload)).msgType = MSG_ACK ∧
      r.st.dhcp.state = .requesting ∧ r.offer.isSome ∧ st.ip = yiaddrOf (received payload)) →
      (r.st.dhcp.state = .bound → st = r.st) → r.Safe payload := by
    intro h₁ h₂ st' hst'
    cases hst.symm.trans hst'
    exact ⟨h₁, h₂, fun hq hreply ht => handleDhcp_ack r.st hst hq hreply ht⟩
  unfold step
  rw [hst, bind_ok]
  cases hstep with
  | none h =>
    rw [h]
    exact ⟨_, rfl, ⟨hmac, hxid, hoffer⟩, hr, safe (fun h => absurd rfl h) fun _ => rfl⟩
  | @offer ip server c frame h hq hcx hc hframe =>
    rw [h]
    rw [hxid, hmac] at hframe
    refine ⟨_, rfl, ⟨hmac, hcx.trans hxid, fun _ => rfl⟩, hr.send (m := some (ip, server)) hframe rfl rfl, ?_⟩
    exact safe (fun h => absurd rfl h) fun hb => by rw [hq] at hb; cases hb
  | ack h hq hrep ht =>
    rw [h]
    refine ⟨_, rfl, ⟨hmac, hxid, fun hb => by cases hb⟩, hr, ?_⟩
    exact safe (fun _ => ⟨hrep, ht, hq, hoffer hq, rfl⟩) fun hb => by rw [hq] at hb; cases hb
  | @nak frame h hq hframe =>
    rw [h]
    rw [hxid, hmac] at hframe
    refine ⟨_, rfl, ⟨hmac, hxid, fun hb => by cases hb⟩, hr.send (m := none) hframe
      rfl (List.append_nil _).symm, ?_⟩
    exact safe (fun h => absurd rfl h) fun hb => by rw [hq] at hb; cases hb

end DhcpRun

/-- From `dhcp_start` on, whatever payloads arrive: every one is handled, the address is set only by an ACK for an
offer accepted since the last NAK, each accepted offer is requested once, and `Bound` is final. -/
theorem dhcp_run_safe (st₀ : Stack) (payloads : List (List UInt8)) :
    ∃ st, st₀.dhcpStart = .ok st ∧ (∃ r, runAll DhcpRun.step (.start st) payloads = .ok r) ∧
      Guarded DhcpRun.step DhcpRun.Safe (.start st) payloads ∧
      Always DhcpRun.step (DhcpRun.Requested st) (.start st) payloads := by
  obtain ⟨frame, hstart, _⟩ := dhcpStart_eq st₀
  refine ⟨_, hstart, ?_⟩
  generalize hst : { st₀ with dhcp := { st₀.dhcp with state := .selecting }, frames := st₀.frames ++ [frame] } = st
  have hq : st.dhcp.state ≠ .requesting := by
    rw [← hst]
    simp
  have hinit : (DhcpRun.start st).Waits st ∧ (DhcpRun.start st).Requested st :=
    ⟨⟨rfl, rfl, fun h => absurd h hq⟩, [], [], (List.append_nil _).symm, .nil, rfl⟩
  have hstep : ∀ r payload, r.Waits st ∧ r.Requested st → True → ∃ r', DhcpRun.step r payload = .ok r' ∧
      r'.Waits st ∧ r'.Requested st := by
    intro r payload h _
    obtain ⟨r', hr', hw, hreq, _⟩ := DhcpRun.step_safe h.1 h.2 payload
    exact ⟨r', hr', hw, hreq⟩
  have hall : Always DhcpRun.step (fun r => r.Waits st ∧ r.Requested st) (.start st) payloads := by
    refine AllSteps.always (C := fun _ _ => True) ?_ hinit (allSteps_of_forall fun _ _ _ => trivial)
    intro r payload r' h _ hr'
    obtain ⟨r'', hr'', h'⟩ := hstep r payload h trivial
    cases hr''.symm.trans hr'
    exact h'
  have hsafe : ∀ (r : DhcpRun) (payload : List UInt8), r.Waits st ∧ r.Requested st → r.Safe payload := by
    intro r payload h
    obtain ⟨_, _, _, _, hsafe⟩ := DhcpRun.step_safe h.1 h.2 payload
    exact hsafe
  refine ⟨?_, hall.guarded hsafe, hall.mono fun _ h => h.2⟩
  obtain ⟨r, hr, _⟩ := runAll_of_guarded hstep hinit (hall.guarded fun _ _ _ => trivial)
  exact ⟨r, hr⟩

/-- A server's message to the card with that address, with 10.0.2.15 as `yiaddr` and 10.0.2.2 as the server. -/
def serverReply (mac : Mac) (kind : UInt8) : List UInt8 :=
  [2, 1, 6, 0] ++ be32 (DhcpClient.new mac).xid ++ List.replicate 8 0 ++ [10, 0, 2, 15] ++ List.replicate 216 0 ++
    MAGIC ++ [53, 1, kind, 54, 4, 10, 0, 2, 2, 255]

/-- The offered address is set once the server has acknowledged the request. -/
example : ((Stack.tryInit ⟨2, 0, 0, 0, 0, 1⟩).bind fun st => runAll DhcpRun.step (.start st)
    [serverReply st.mac MSG_OFFER, serverReply st.mac MSG_ACK]).toOption.map (fun r => (r.st.ip, r.offers)) =
      some (⟨10, 0, 2, 15⟩, [(⟨10, 0, 2, 15⟩, ⟨10, 0, 2, 2⟩)]) := by
  decide +kernel

end WasmOs.Net
