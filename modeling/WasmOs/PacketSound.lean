import WasmOs.Packet

/-!
# What is built is read back

For each format, the bytes that are built are a header of known bytes and the payload, and the parser
takes them apart again. The checksum of the IPv4 header and of a TCP segment completes the
one's-complement sum to `0xFFFF`.
-/

namespace WasmOs.Net

open OnesComplement

/-! ## Buffers that are filled from the front -/

theorem copyInto_front {ε α : Type} (pre src rest : List α) (h : src.length ≤ rest.length) :
    (copyInto (pre ++ rest) pre.length (pre.length + src.length) src : Rust ε (List α)) =
      .ok (pre ++ src ++ rest.drop src.length) := by
  rw [copyInto_of_le ⟨by omega, by simp; omega, by omega⟩]
  simp [List.drop_append]

def ethBytes (dst src : Mac) (ethertype : UInt16) (payload : List UInt8) : List UInt8 :=
  dst.bytes ++ src.bytes ++ be16 ethertype ++ payload

theorem ethBytes_length (dst src : Mac) (ethertype : UInt16) (payload : List UInt8) :
    (ethBytes dst src ethertype payload).length = 14 + payload.length := by
  simp [ethBytes, Mac.bytes, be16]
  omega

theorem compose_eq {buf : List UInt8} (dst src : Mac) (ethertype : UInt16) {payload : List UInt8}
    (h : 14 + payload.length ≤ buf.length) :
    EthFrame.compose buf dst src ethertype payload =
      .ok (ethBytes dst src ethertype payload ++ buf.drop (14 + payload.length), 14 + payload.length) := by
  have h1 := copyInto_front (ε := Unit) [] dst.bytes buf (by simp [Mac.bytes]; omega)
  have h2 := copyInto_front (ε := Unit) dst.bytes src.bytes (buf.drop 6) (by simp [Mac.bytes]; omega)
  have h3 :=
    copyInto_front (ε := Unit) (dst.bytes ++ src.bytes) (be16 ethertype) (buf.drop 12) (by simp [be16]; omega)
  have h4 := copyInto_front (ε := Unit) (dst.bytes ++ src.bytes ++ be16 ethertype) payload (buf.drop 14)
    (by simp; omega)
  simp only [List.nil_append, List.length_append, List.drop_drop, Mac.bytes, be16, List.length_cons,
    List.length_nil, Nat.zero_add, Nat.reduceAdd] at h1 h2 h3 h4
  simp only [EthFrame.compose, Mac.bytes, be16, ethBytes, h1, h2, h3, h4, bind_ok]

theorem eth_parse (dst src : Mac) (ethertype : UInt16) (payload : List UInt8) :
    EthFrame.parse (ethBytes dst src ethertype payload) = .ok (some ⟨dst, src, ethertype, payload⟩) := by
  have hlen := ethBytes_length dst src ethertype payload
  have hlt : ¬ (ethBytes dst src ethertype payload).length < 14 := by omega
  rw [EthFrame.parse, if_neg hlt]
  simp [ethBytes, Mac.bytes, be16, sliceRange, Mac.ofSlice, u16At, index, sliceFrom]

theorem arp_toBytes (p : ArpPacket) :
    p.toBytes = .ok ([0, 1, 8, 0, 6, 4] ++ be16 p.operation ++ p.senderMac.bytes ++ p.senderIp.bytes ++
      p.targetMac.bytes ++ p.targetIp.bytes) := by
  simp [ArpPacket.toBytes, copyInto, setAt, be16, Mac.bytes, IpAddr.bytes, List.replicate]

theorem arp_parse (p : ArpPacket) :
    ArpPacket.parse ([0, 1, 8, 0, 6, 4] ++ be16 p.operation ++ p.senderMac.bytes ++ p.senderIp.bytes ++
      p.targetMac.bytes ++ p.targetIp.bytes) = .ok (some p) := by
  have h1 : ofBe16 0 1 = 1 := by decide
  have h2 : ofBe16 8 0 = 0x0800 := by decide
  simp [ArpPacket.parse, be16, Mac.bytes, IpAddr.bytes, sliceRange, Mac.ofSlice, IpAddr.ofSlice, u16At,
    index, h1, h2]

/-! ## Checksums -/

theorem addChunks_eq : ∀ {data : List UInt8} {sum : Nat}, sum + sum16 data < 2 ^ 32 →
    addChunks data sum = .ok (sum + sum16 data)
  | [], sum, _ => rfl
  | [a], sum, h => by
    simp only [sum16] at h ⊢
    exact u32Add_of_lt h
  | a :: b :: rest, sum, h => by
    simp only [sum16] at h ⊢
    rw [addChunks, u32Add_of_lt (by omega), bind_ok, addChunks_eq (by omega)]
    congr 1
    omega

theorem foldCarries_eq (n : Nat) : foldCarries n = canon n := by
  induction n using foldCarries.induct with
  | case1 n h ih => rw [foldCarries, if_pos h, ih, canon_carry h]
  | case2 n h => rw [foldCarries, if_neg h, canon_of_le (by omega)]

/-- The field that completes a plain sum `n`. -/
def cksum (n : Nat) : UInt16 := ~~~ UInt16.ofNat (foldCarries n)

theorem cksum_toNat (n : Nat) : (cksum n).toNat = 0xFFFF - canon n := by
  have hle := canon_le n
  rw [cksum, foldCarries_eq, UInt16.toNat_not, UInt16.toNat_ofNat', UInt16.size]
  omega

theorem cksum_bytes (n : Nat) :
    256 * (UInt8.ofNat ((cksum n).toNat / 256)).toNat + (cksum n).toUInt8.toNat = 0xFFFF - canon n := by
  have := cksum_toNat n
  have := (cksum n).toNat_lt
  simp only [UInt8.toNat_ofNat', UInt16.toNat_toUInt8]
  omega

/-! ## IPv4 -/

/-- The twenty bytes of the header, with checksum `c`. -/
def ipHeader (total c : UInt16) (protocol : UInt8) (src dst : IpAddr) : List UInt8 :=
  [0x45, 0] ++ be16 total ++ be16 0 ++ be16 0 ++ [64, protocol] ++ be16 c ++ src.bytes ++ dst.bytes

@[simp] theorem ipHeader_length (total c : UInt16) (protocol : UInt8) (src dst : IpAddr) :
    (ipHeader total c protocol src dst).length = 20 := by
  simp [ipHeader, be16, IpAddr.bytes]

theorem total_ipHeader (total : UInt16) (protocol : UInt8) (src dst : IpAddr) :
    OnesComplement.total (ipHeader total (cksum (sum16 (ipHeader total 0 protocol src dst))) protocol src dst) =
      0xFFFF := by
  rw [total_eq_canon]
  generalize hn : sum16 (ipHeader total 0 protocol src dst) = n
  have hc := cksum_bytes n
  have hsum : sum16 (ipHeader total (cksum n) protocol src dst) = n + (0xFFFF - canon n) := by
    simp only [ipHeader, be16, IpAddr.bytes, List.cons_append, List.nil_append, sum16] at hn ⊢
    have hz : 256 * (UInt8.ofNat ((0 : UInt16).toNat / 256)).toNat + (0 : UInt16).toUInt8.toNat = 0 := by decide
    omega
  rw [hsum, canon_add_complement]

theorem ipv4_new {payload : List UInt8} (h : 20 + payload.length < 2 ^ 16) (src dst : IpAddr) (protocol : UInt8) :
    Ipv4Packet.new src dst protocol payload =
      .ok ⟨0x45, 0, UInt16.ofNat (20 + payload.length), 0, 0, 64, protocol, src, dst, payload⟩ := by
  have hmod : payload.length % 2 ^ 16 = payload.length := Nat.mod_eq_of_lt (by omega)
  rw [Ipv4Packet.new, hmod, u16Add_of_lt h, bind_ok]

theorem ipv4_toBytes (total : UInt16) (protocol : UInt8) (src dst : IpAddr) (payload : List UInt8) :
    Ipv4Packet.toBytes ⟨0x45, 0, total, 0, 0, 64, protocol, src, dst, payload⟩ =
      .ok (ipHeader total (cksum (sum16 (ipHeader total 0 protocol src dst))) protocol src dst ++ payload) := by
  have hbuilt : [0x45, 0] ++ be16 total ++ be16 0 ++ be16 0 ++ [64, protocol] ++ be16 0 ++ src.bytes ++ dst.bytes ++
      payload = ipHeader total 0 protocol src dst ++ payload := rfl
  have hsum := sum16_le (ipHeader total 0 protocol src dst)
  rw [ipHeader_length] at hsum
  have hchk : ipChksum (ipHeader total 0 protocol src dst) =
      .ok (cksum (sum16 (ipHeader total 0 protocol src dst))) := by
    rw [ipChksum, addChunks_eq (by omega), bind_ok, Nat.zero_add]
    rfl
  have hslice : (sliceRange (ipHeader total 0 protocol src dst ++ payload) 0 20 : Rust Unit (List UInt8)) =
      .ok (ipHeader total 0 protocol src dst) := by
    rw [sliceRange_of_le ⟨by omega, by simp⟩, List.drop_zero, List.take_left' (by simp)]
  simp only [Ipv4Packet.toBytes]
  rw [hbuilt, hslice, bind_ok, hchk, bind_ok, setAt_of_lt (by simp; omega), bind_ok,
    setAt_of_lt (by simp; omega)]
  simp [ipHeader, be16, IpAddr.bytes]

theorem ipv4_parse (total c : UInt16) (protocol : UInt8) (src dst : IpAddr) (payload : List UInt8) :
    Ipv4Packet.parse (ipHeader total c protocol src dst ++ payload) =
      .ok (some ⟨0x45, 0, total, 0, 0, 64, protocol, src, dst, payload⟩) := by
  have hlt : ¬ (ipHeader total c protocol src dst ++ payload).length < 20 := by simp
  have hv : (69 : UInt8) >>> 4 = 4 := by decide
  have hge : ¬ payload.length + 20 < 20 := by omega
  have hz : ofBe16 0 0 = 0 := by decide
  rw [Ipv4Packet.parse, if_neg hlt]
  simp [ipHeader, be16, IpAddr.bytes, index, hv, hge, sliceRange, IpAddr.ofSlice, u16At, sliceFrom, hz]

/-! ## UDP -/

theorem udp_new {payload : List UInt8} (h : 8 + payload.length < 2 ^ 16) (srcPort dstPort : UInt16) :
    UdpPacket.new srcPort dstPort payload =
      .ok ⟨srcPort, dstPort, UInt16.ofNat (8 + payload.length), 0, payload⟩ := by
  have hmod : payload.length % 2 ^ 16 = payload.length := Nat.mod_eq_of_lt (by omega)
  rw [UdpPacket.new, hmod, u16Add_of_lt h, bind_ok]

@[simp] theorem udp_toBytes_length (p : UdpPacket) : p.toBytes.length = 8 + p.payload.length := by
  simp [UdpPacket.toBytes, be16]
  omega

theorem udp_parse (p : UdpPacket) : UdpPacket.parse p.toBytes = .ok (some p) := by
  have hlt : ¬ p.toBytes.length < 8 := by simp
  rw [UdpPacket.parse, if_neg hlt]
  simp [UdpPacket.toBytes, be16, u16At, index, sliceFrom]

/-! ## TCP -/

/-- The twenty bytes of the header, with checksum `c`. -/
def tcpHeader (srcPort dstPort : UInt16) (seq ack : UInt32) (flags : UInt8) (window c : UInt16) : List UInt8 :=
  be16 srcPort ++ be16 dstPort ++ be32 seq ++ be32 ack ++ [0x50, flags] ++ be16 window ++ be16 c ++ be16 0

@[simp] theorem tcpHeader_length (srcPort dstPort : UInt16) (seq ack : UInt32) (flags : UInt8) (window c : UInt16) :
    (tcpHeader srcPort dstPort seq ack flags window c).length = 20 := by
  simp [tcpHeader, be16, be32]

def pseudoHeader (src dst : IpAddr) (segment : List UInt8) : List UInt8 :=
  src.bytes ++ dst.bytes ++ [0, IP_PROTO_TCP] ++ be16 (UInt16.ofNat segment.length)

section
variable (srcPort dstPort : UInt16) (seq ack : UInt32) (flags : UInt8) (window : UInt16) (payload : List UInt8)
  (srcIp dstIp : IpAddr)

/-- The plain sum of pseudo-header and segment, with the checksum still zero. -/
def tcpSum : Nat :=
  let seg := tcpHeader srcPort dstPort seq ack flags window 0 ++ payload
  sum16 (pseudoHeader srcIp dstIp seg) + sum16 seg

def tcpBytes : List UInt8 :=
  tcpHeader srcPort dstPort seq ack flags window
    (cksum (tcpSum srcPort dstPort seq ack flags window payload srcIp dstIp)) ++
    payload

@[simp] theorem tcpBytes_length :
    (tcpBytes srcPort dstPort seq ack flags window payload srcIp dstIp).length = 20 + payload.length := by
  simp [tcpBytes]

theorem sum16_pseudoHeader {segment : List UInt8} (h : segment.length < 2 ^ 16) :
    sum16 (pseudoHeader srcIp dstIp segment) =
      256 * srcIp.a.toNat + srcIp.b.toNat + (256 * srcIp.c.toNat + srcIp.d.toNat) +
        (256 * dstIp.a.toNat + dstIp.b.toNat) + (256 * dstIp.c.toNat + dstIp.d.toNat) + 6 + segment.length := by
  have hproto : 256 * (0 : UInt8).toNat + IP_PROTO_TCP.toNat = 6 := by decide
  have hlen : 256 * (UInt8.ofNat ((UInt16.ofNat segment.length).toNat / 256)).toNat +
      (UInt16.ofNat segment.length).toUInt8.toNat = segment.length := by
    simp only [UInt8.toNat_ofNat', UInt16.toNat_toUInt8, UInt16.toNat_ofNat']
    omega
  simp only [pseudoHeader, IpAddr.bytes, be16, List.cons_append, List.nil_append, sum16]
  omega

theorem makeTcpPacket_eq (h : 20 + payload.length < 2 ^ 16) :
    makeTcpPacket srcPort dstPort seq ack flags window payload srcIp dstIp =
      .ok (tcpBytes srcPort dstPort seq ack flags window payload srcIp dstIp) := by
  have hbuilt : be16 srcPort ++ be16 dstPort ++ be32 seq ++ be32 ack ++ [0x50, flags] ++ be16 window ++ be16 0 ++
      be16 0 ++ payload = tcpHeader srcPort dstPort seq ack flags window 0 ++ payload := rfl
  have htcp : tcpSum srcPort dstPort seq ack flags window payload srcIp dstIp =
      sum16 (pseudoHeader srcIp dstIp (tcpHeader srcPort dstPort seq ack flags window 0 ++ payload)) +
        sum16 (tcpHeader srcPort dstPort seq ack flags window 0 ++ payload) := rfl
  generalize hseg : tcpHeader srcPort dstPort seq ack flags window 0 ++ payload = seg at hbuilt htcp
  have hlen : seg.length = 20 + payload.length := by rw [← hseg]; simp
  have hmod : seg.length % 2 ^ 32 = seg.length := Nat.mod_eq_of_lt (by omega)
  rw [sum16_pseudoHeader srcIp dstIp (by omega)] at htcp
  have hsum := sum16_le seg
  have := srcIp.a.toNat_lt
  have := srcIp.b.toNat_lt
  have := srcIp.c.toNat_lt
  have := srcIp.d.toNat_lt
  have := dstIp.a.toNat_lt
  have := dstIp.b.toNat_lt
  have := dstIp.c.toNat_lt
  have := dstIp.d.toNat_lt
  simp only [makeTcpPacket]
  rw [hbuilt, hmod, u32Add_of_lt (by omega), bind_ok, u32Add_of_lt (by omega), bind_ok,
    u32Add_of_lt (by omega), bind_ok,
    u32Add_of_lt (by omega), bind_ok, u32Add_of_lt (by omega), bind_ok, u32Add_of_lt (by omega), bind_ok,
    addChunks_eq (by omega), bind_ok, Nat.zero_add, ← htcp, setAt_of_lt (by omega), bind_ok,
    setAt_of_lt (by rw [List.length_set]; omega), ← hseg]
  simp [tcpBytes, tcpHeader, be16, be32, cksum]

theorem tcp_parse (c : UInt16) :
    TcpPacket.parse (tcpHeader srcPort dstPort seq ack flags window c ++ payload) =
      .ok (some ⟨srcPort, dstPort, seq, ack, flags, payload⟩) := by
  have hlt : ¬ (tcpHeader srcPort dstPort seq ack flags window c ++ payload).length < 20 := by simp
  have hge : ¬ payload.length + 20 < 20 := by omega
  rw [TcpPacket.parse, if_neg hlt]
  simp [tcpHeader, be16, be32, u16At, u32At, index, sliceFrom, hge]

theorem total_tcpBytes (h : 20 + payload.length < 2 ^ 16) :
    OnesComplement.total
    (pseudoHeader srcIp dstIp (tcpBytes srcPort dstPort seq ack flags window payload srcIp dstIp) ++
      tcpBytes srcPort dstPort seq ack flags window payload srcIp dstIp) = 0xFFFF := by
  have heven : ∀ seg, (pseudoHeader srcIp dstIp seg).length % 2 = 0 := by
    intro seg
    simp [pseudoHeader, IpAddr.bytes, be16]
  rw [total_eq_canon, sum16_append _ (heven _), sum16_pseudoHeader srcIp dstIp (by simpa using h), tcpBytes_length]
  generalize hn : tcpSum srcPort dstPort seq ack flags window payload srcIp dstIp = n
  have hc := cksum_bytes n
  have hz : 256 * (UInt8.ofNat ((0 : UInt16).toNat / 256)).toNat + (0 : UInt16).toUInt8.toNat = 0 := by decide
  rw [tcpSum, sum16_pseudoHeader srcIp dstIp (by simpa using h), List.length_append, tcpHeader_length] at hn
  have hsum : sum16 (tcpBytes srcPort dstPort seq ack flags window payload srcIp dstIp) =
      sum16 (tcpHeader srcPort dstPort seq ack flags window 0 ++ payload) + (0xFFFF - canon n) := by
    have hdef : tcpBytes srcPort dstPort seq ack flags window payload srcIp dstIp =
        tcpHeader srcPort dstPort seq ack flags window (cksum n) ++ payload := by
      rw [← hn, tcpBytes, tcpSum, sum16_pseudoHeader srcIp dstIp (by simpa using h), List.length_append,
        tcpHeader_length]
    rw [hdef]
    simp only [tcpHeader, be16, be32, List.cons_append, List.nil_append, sum16]
    omega
  rw [hsum, ← Nat.add_assoc, hn, canon_add_complement]

end

/-! ## Round trips -/

/-- `p` is what `parse` makes of the bytes that `build` builds. -/
def ReadsBack {α : Type} (build : Rust Unit (List UInt8)) (parse : List UInt8 → Rust Unit (Option α))
    (p : α) : Prop :=
  ∃ bytes, build = .ok bytes ∧ parse bytes = .ok (some p)

/-- The frame `compose` leaves at the front of `buf`. -/
def composed (buf : List UInt8) (dst src : Mac) (ethertype : UInt16) (payload : List UInt8) :
    Rust Unit (List UInt8) := do
  let (buf, n) ← EthFrame.compose buf dst src ethertype payload
  sliceRange buf 0 n

def ipv4Bytes (src dst : IpAddr) (protocol : UInt8) (payload : List UInt8) : Rust Unit (List UInt8) := do
  let p ← Ipv4Packet.new src dst protocol payload
  p.toBytes

def udpBytes (srcPort dstPort : UInt16) (payload : List UInt8) : Rust Unit (List UInt8) := do
  let p ← UdpPacket.new srcPort dstPort payload
  .ok p.toBytes

theorem composed_eq {buf : List UInt8} (dst src : Mac) (ethertype : UInt16) {payload : List UInt8}
    (h : 14 + payload.length ≤ buf.length) :
    composed buf dst src ethertype payload = .ok (ethBytes dst src ethertype payload) := by
  have hlen := ethBytes_length dst src ethertype payload
  rw [composed, compose_eq dst src ethertype h, bind_ok]
  dsimp only
  rw [sliceRange_of_le ⟨by omega, by simp [hlen]⟩, List.drop_zero, List.take_left' hlen]

theorem ipv4Bytes_eq {payload : List UInt8} (h : 20 + payload.length < 2 ^ 16) (src dst : IpAddr)
    (protocol : UInt8) :
    ∃ header, ipv4Bytes src dst protocol payload = .ok (header ++ payload) ∧ header.length = 20 ∧
      OnesComplement.total header = 0xFFFF ∧
      Ipv4Packet.parse (header ++ payload) =
        .ok (some ⟨0x45, 0, UInt16.ofNat (20 + payload.length), 0, 0, 64, protocol, src, dst, payload⟩) := by
  refine ⟨_, ?_, ?_, total_ipHeader (UInt16.ofNat (20 + payload.length)) protocol src dst, ipv4_parse ..⟩
  · rw [ipv4Bytes, ipv4_new h, bind_ok, ipv4_toBytes]
  · simp

theorem udpBytes_eq {payload : List UInt8} (h : 8 + payload.length < 2 ^ 16) (srcPort dstPort : UInt16) :
    ∃ bytes, udpBytes srcPort dstPort payload = .ok bytes ∧ bytes.length = 8 + payload.length ∧
      UdpPacket.parse bytes = .ok (some ⟨srcPort, dstPort, UInt16.ofNat (8 + payload.length), 0, payload⟩) := by
  refine ⟨_, ?_, ?_, udp_parse ⟨srcPort, dstPort, UInt16.ofNat (8 + payload.length), 0, payload⟩⟩
  · rw [udpBytes, udp_new h, bind_ok]
  · simp

/-- A packet in a datagram in a frame: each layer's parser yields what the layer was built from. -/
def ReadsBackInFrame (buf : List UInt8) (dstMac srcMac : Mac) (srcIp dstIp : IpAddr) (protocol : UInt8)
    (packet : List UInt8) : Prop :=
  ∃ datagram frame eth ip, ipv4Bytes srcIp dstIp protocol packet = .ok datagram ∧
    composed buf dstMac srcMac ETH_TYPE_IPV4 datagram = .ok frame ∧
    EthFrame.parse frame = .ok (some eth) ∧ eth.dst = dstMac ∧ eth.src = srcMac ∧ eth.ethertype = ETH_TYPE_IPV4 ∧
    Ipv4Packet.parse eth.payload = .ok (some ip) ∧ ip.src = srcIp ∧ ip.dst = dstIp ∧ ip.protocol = protocol ∧
    ip.payload = packet

theorem readsBackInFrame {buf packet : List UInt8} (hbuf : 34 + packet.length ≤ buf.length)
    (hip : 20 + packet.length < 2 ^ 16) (dstMac srcMac : Mac) (srcIp dstIp : IpAddr) (protocol : UInt8) :
    ReadsBackInFrame buf dstMac srcMac srcIp dstIp protocol packet := by
  obtain ⟨header, hbytes, hlen, -, hparse⟩ := ipv4Bytes_eq hip srcIp dstIp protocol
  refine ⟨_, _, _, _, hbytes, composed_eq dstMac srcMac ETH_TYPE_IPV4 ?_, eth_parse .., rfl, rfl, rfl,
    hparse, rfl, rfl,
    rfl, rfl⟩
  rw [List.length_append, hlen]
  omega

/-- Every format reads back what it wrote, alone and through the whole stack, and the two checksums are
valid. -/
theorem packets_read_back :
    (∀ buf dst src ethertype payload, 14 + payload.length ≤ buf.length →
      ReadsBack (composed buf dst src ethertype payload) EthFrame.parse ⟨dst, src, ethertype, payload⟩) ∧
    (∀ p : ArpPacket, ReadsBack p.toBytes ArpPacket.parse p) ∧
    (∀ src dst protocol payload, 20 + payload.length < 2 ^ 16 →
      ∃ bytes, ipv4Bytes src dst protocol payload = .ok bytes ∧ OnesComplement.total (bytes.take 20) = 0xFFFF ∧
        Ipv4Packet.parse bytes =
          .ok (some ⟨0x45, 0, UInt16.ofNat (20 + payload.length), 0, 0, 64, protocol, src, dst, payload⟩)) ∧
    (∀ srcPort dstPort payload, 8 + payload.length < 2 ^ 16 →
      ReadsBack (udpBytes srcPort dstPort payload) UdpPacket.parse
        ⟨srcPort, dstPort, UInt16.ofNat (8 + payload.length), 0, payload⟩) ∧
    (∀ srcPort dstPort seq ack flags window payload srcIp dstIp, 20 + payload.length < 2 ^ 16 →
      ∃ seg, makeTcpPacket srcPort dstPort seq ack flags window payload srcIp dstIp = .ok seg ∧
        OnesComplement.total (pseudoHeader srcIp dstIp seg ++ seg) = 0xFFFF ∧
        TcpPacket.parse seg = .ok (some ⟨srcPort, dstPort, seq, ack, flags, payload⟩)) ∧
    (∀ buf dstMac srcMac srcIp dstIp srcPort dstPort seq ack flags window payload,
      54 + payload.length ≤ buf.length → 40 + payload.length < 2 ^ 16 →
      ∃ seg, makeTcpPacket srcPort dstPort seq ack flags window payload srcIp dstIp = .ok seg ∧
        ReadsBackInFrame buf dstMac srcMac srcIp dstIp IP_PROTO_TCP seg ∧
        TcpPacket.parse seg = .ok (some ⟨srcPort, dstPort, seq, ack, flags, payload⟩)) ∧
    (∀ buf dstMac srcMac srcIp dstIp srcPort dstPort payload,
      42 + payload.length ≤ buf.length → 28 + payload.length < 2 ^ 16 →
      ∃ packet, udpBytes srcPort dstPort payload = .ok packet ∧
        ReadsBackInFrame buf dstMac srcMac srcIp dstIp IP_PROTO_UDP packet ∧
        UdpPacket.parse packet =
          .ok (some ⟨srcPort, dstPort, UInt16.ofNat (8 + payload.length), 0, payload⟩)) := by
  refine ⟨?_, ?_, ?_, ?_, ?_, ?_, ?_⟩
  · intro buf dst src ethertype payload h
    exact ⟨_, composed_eq dst src ethertype h, eth_parse ..⟩
  · intro p
    exact ⟨_, arp_toBytes p, arp_parse p⟩
  · intro src dst protocol payload h
    obtain ⟨header, hbytes, hlen, htotal, hparse⟩ := ipv4Bytes_eq h src dst protocol
    refine ⟨_, hbytes, ?_, hparse⟩
    rw [List.take_left' hlen, htotal]
  · intro srcPort dstPort payload h
    obtain ⟨bytes, hbytes, -, hparse⟩ := udpBytes_eq h srcPort dstPort
    exact ⟨bytes, hbytes, hparse⟩
  · intro srcPort dstPort seq ack flags window payload srcIp dstIp h
    exact ⟨_, makeTcpPacket_eq _ _ _ _ _ _ _ _ _ h, total_tcpBytes _ _ _ _ _ _ _ _ _ h, tcp_parse ..⟩
  · intro buf dstMac srcMac srcIp dstIp srcPort dstPort seq ack flags window payload hbuf h
    refine ⟨_, makeTcpPacket_eq _ _ _ _ _ _ _ _ _ (by omega), readsBackInFrame ?_ ?_ .., tcp_parse ..⟩
    · rw [tcpBytes_length]; omega
    · rw [tcpBytes_length]; omega
  · intro buf dstMac srcMac srcIp dstIp srcPort dstPort payload hbuf h
    have hudp : 8 + payload.length < 2 ^ 16 := by omega
    obtain ⟨bytes, hbytes, hlen, hparse⟩ := udpBytes_eq hudp srcPort dstPort
    refine ⟨bytes, hbytes, readsBackInFrame ?_ ?_ .., hparse⟩
    · rw [hlen]; omega
    · rw [hlen]; omega

end WasmOs.Net
