import WasmOs.OnesComplement
import WasmOs.Wire

/-!
# Packets

The five formats of the stack: Ethernet frames, ARP, IPv4, UDP and TCP, each with its parser and the
function that builds its bytes.
-/

namespace WasmOs.Net

/-! ## Ethernet -/

def ETH_TYPE_IPV4 : UInt16 := 0x0800
def ETH_TYPE_ARP : UInt16 := 0x0806

structure EthFrame where
  dst : Mac
  src : Mac
  ethertype : UInt16
  payload : List UInt8
  deriving DecidableEq, Repr

namespace EthFrame

def parse (bytes : List UInt8) : Rust Unit (Option EthFrame) :=
  if bytes.length < 14 then .ok none
  else do
    let dst ← Mac.ofSlice (← sliceRange bytes 0 6)
    let src ← Mac.ofSlice (← sliceRange bytes 6 12)
    let ethertype ← u16At bytes 12
    let payload ← sliceFrom bytes 14
    .ok (some ⟨dst, src, ethertype, payload⟩)

/-- The buffer after `compose`, and the number of bytes that belong to the frame. -/
def compose (buf : List UInt8) (dst src : Mac) (ethertype : UInt16) (payload : List UInt8) :
    Rust Unit (List UInt8 × Nat) := do
  let buf ← copyInto buf 0 6 dst.bytes
  let buf ← copyInto buf 6 12 src.bytes
  let buf ← copyInto buf 12 14 (be16 ethertype)
  let n := 14 + payload.length
  let buf ← copyInto buf 14 n payload
  .ok (buf, n)

def isForMe (eth : EthFrame) (mac : Mac) : Bool := eth.dst == mac

def isBroadcast (eth : EthFrame) : Bool := eth.dst == Mac.broadcast

end EthFrame

/-! ## ARP -/

def ARP_OP_REQUEST : UInt16 := 1
def ARP_OP_REPLY : UInt16 := 2

structure ArpPacket where
  operation : UInt16
  senderIp : IpAddr
  targetIp : IpAddr
  senderMac : Mac
  targetMac : Mac
  deriving DecidableEq, Repr

namespace ArpPacket

def parse (bytes : List UInt8) : Rust Unit (Option ArpPacket) :=
  if bytes.length < 28 then .ok none
  else do
    let htype ← u16At bytes 0
    let ptype ← u16At bytes 2
    if htype ≠ 1 ∨ ptype ≠ 0x0800 then .ok none
    else
      let operation ← u16At bytes 6
      let senderMac ← Mac.ofSlice (← sliceRange bytes 8 14)
      let targetMac ← Mac.ofSlice (← sliceRange bytes 18 24)
      let senderIp ← IpAddr.ofSlice (← sliceRange bytes 14 18)
      let targetIp ← IpAddr.ofSlice (← sliceRange bytes 24 28)
      .ok (some ⟨operation, senderIp, targetIp, senderMac, targetMac⟩)

def newReply (senderIp targetIp : IpAddr) (senderMac targetMac : Mac) : ArpPacket :=
  ⟨ARP_OP_REPLY, senderIp, targetIp, senderMac, targetMac⟩

def toBytes (p : ArpPacket) : Rust Unit (List UInt8) := do
  let b := List.replicate 28 0
  let b ← copyInto b 0 2 (be16 1)
  let b ← copyInto b 2 4 (be16 0x0800)
  let b ← setAt b 4 6
  let b ← setAt b 5 4
  let b ← copyInto b 6 8 (be16 p.operation)
  let b ← copyInto b 8 14 p.senderMac.bytes
  let b ← copyInto b 14 18 p.senderIp.bytes
  let b ← copyInto b 18 24 p.targetMac.bytes
  copyInto b 24 28 p.targetIp.bytes

end ArpPacket

/-! ## Checksums -/

/-- `for chunk in data.chunks(2)`, adding each chunk to `sum`. -/
def addChunks : List UInt8 → Nat → Rust Unit Nat
  | [], sum => .ok sum
  | [a], sum => u32Add sum (256 * a.toNat)
  | a :: b :: rest, sum => do
    let sum ← u32Add sum (256 * a.toNat + b.toNat)
    addChunks rest sum

/-- `while sum > 0xFFFF { sum = (sum & 0xFFFF) + (sum >> 16); }` -/
def foldCarries (sum : Nat) : Nat :=
  if sum > 0xFFFF then foldCarries (sum % 0x10000 + sum / 0x10000) else sum
termination_by sum
decreasing_by omega

def ipChksum (data : List UInt8) : Rust Unit UInt16 := do
  let sum ← addChunks data 0
  .ok (~~~ UInt16.ofNat (foldCarries sum))

/-! ## IPv4 -/

def IP_PROTO_ICMP : UInt8 := 1
def IP_PROTO_TCP : UInt8 := 6
def IP_PROTO_UDP : UInt8 := 17

structure Ipv4Packet where
  versionIhl : UInt8
  tos : UInt8
  totalLen : UInt16
  id : UInt16
  flagsOffset : UInt16
  ttl : UInt8
  protocol : UInt8
  src : IpAddr
  dst : IpAddr
  payload : List UInt8
  deriving DecidableEq, Repr

namespace Ipv4Packet

def parse (bytes : List UInt8) : Rust Unit (Option Ipv4Packet) :=
  if bytes.length < 20 then .ok none
  else do
    let versionIhl ← index bytes 0
    if versionIhl >>> 4 ≠ 4 then .ok none
    else
      let ihl := (versionIhl &&& 0x0F).toNat * 4
      if ihl < 20 ∨ bytes.length < ihl then .ok none
      else
        let totalLen ← u16At bytes 2
        let id ← u16At bytes 4
        let flagsOffset ← u16At bytes 6
        let ttl ← index bytes 8
        let protocol ← index bytes 9
        let src ← IpAddr.ofSlice (← sliceRange bytes 12 16)
        let dst ← IpAddr.ofSlice (← sliceRange bytes 16 20)
        let tos ← index bytes 1
        let payload ← sliceFrom bytes ihl
        .ok (some ⟨versionIhl, tos, totalLen, id, flagsOffset, ttl, protocol, src, dst, payload⟩)

def new (src dst : IpAddr) (protocol : UInt8) (payload : List UInt8) : Rust Unit Ipv4Packet := do
  let totalLen ← u16Add 20 (payload.length % 2 ^ 16)
  .ok ⟨0x45, 0, UInt16.ofNat totalLen, 0, 0, 64, protocol, src, dst, payload⟩

def toBytes (p : Ipv4Packet) : Rust Unit (List UInt8) := do
  let v := [p.versionIhl, p.tos] ++ be16 p.totalLen ++ be16 p.id ++ be16 p.flagsOffset ++ [p.ttl, p.protocol] ++
    be16 0 ++ p.src.bytes ++ p.dst.bytes ++ p.payload
  let sum ← ipChksum (← sliceRange v 0 20)
  let v ← setAt v 10 (UInt8.ofNat (sum.toNat / 256))
  setAt v 11 sum.toUInt8

end Ipv4Packet

/-! ## UDP -/

structure UdpPacket where
  srcPort : UInt16
  dstPort : UInt16
  length : UInt16
  checksum : UInt16
  payload : List UInt8
  deriving DecidableEq, Repr

namespace UdpPacket

def parse (bytes : List UInt8) : Rust Unit (Option UdpPacket) :=
  if bytes.length < 8 then .ok none
  else do
    let srcPort ← u16At bytes 0
    let dstPort ← u16At bytes 2
    let length ← u16At bytes 4
    let checksum ← u16At bytes 6
    let payload ← sliceFrom bytes 8
    .ok (some ⟨srcPort, dstPort, length, checksum, payload⟩)

def new (srcPort dstPort : UInt16) (payload : List UInt8) : Rust Unit UdpPacket := do
  let length ← u16Add 8 (payload.length % 2 ^ 16)
  .ok ⟨srcPort, dstPort, UInt16.ofNat length, 0, payload⟩

def toBytes (p : UdpPacket) : List UInt8 :=
  be16 p.srcPort ++ be16 p.dstPort ++ be16 p.length ++ be16 p.checksum ++ p.payload

end UdpPacket

/-! ## TCP -/

def TcpPacket.parse (bytes : List UInt8) : Rust Unit (Option TcpPacket) :=
  if bytes.length < 20 then .ok none
  else do
    let srcPort ← u16At bytes 0
    let dstPort ← u16At bytes 2
    let seq ← u32At bytes 4
    let ackNo ← u32At bytes 8
    let dataOff ← index bytes 12
    let hdrLen := (dataOff >>> 4).toNat * 4
    if hdrLen < 20 ∨ hdrLen > bytes.length then .ok none
    else
      let flags ← index bytes 13
      let payload ← sliceFrom bytes hdrLen
      .ok (some ⟨srcPort, dstPort, seq, ackNo, flags, payload⟩)

def makeTcpPacket (srcPort dstPort : UInt16) (seq ack : UInt32) (flags : UInt8) (window : UInt16)
    (payload : List UInt8) (srcIp dstIp : IpAddr) : Rust Unit (List UInt8) := do
  let v := be16 srcPort ++ be16 dstPort ++ be32 seq ++ be32 ack ++ [0x50, flags] ++ be16 window ++
    be16 0 ++ be16 0 ++
    payload
  -- Pseudo-header: src IP, dst IP, zero, protocol (6), TCP length
  let sum ← u32Add 0 (256 * srcIp.a.toNat + srcIp.b.toNat)
  let sum ← u32Add sum (256 * srcIp.c.toNat + srcIp.d.toNat)
  let sum ← u32Add sum (256 * dstIp.a.toNat + dstIp.b.toNat)
  let sum ← u32Add sum (256 * dstIp.c.toNat + dstIp.d.toNat)
  let sum ← u32Add sum 6
  let sum ← u32Add sum (v.length % 2 ^ 32)
  let sum ← addChunks v sum
  let cksum := ~~~ UInt16.ofNat (foldCarries sum)
  let v ← setAt v 16 (UInt8.ofNat (cksum.toNat / 256))
  setAt v 17 cksum.toUInt8

end WasmOs.Net
