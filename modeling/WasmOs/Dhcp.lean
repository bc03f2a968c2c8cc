import WasmOs.Wire

/-!
# The DHCP client

`dhcp.rs` builds DISCOVER and REQUEST in a buffer of 300 bytes and walks the options of a reply. Both
work on offsets that depend on what the server sent.
-/

namespace WasmOs.Net

def CLIENT_PORT : UInt16 := 68
def SERVER_PORT : UInt16 := 67

def MSG_DISCOVER : UInt8 := 1
def MSG_OFFER : UInt8 := 2
def MSG_REQUEST : UInt8 := 3
def MSG_ACK : UInt8 := 5
def MSG_NAK : UInt8 := 6

def MAGIC : List UInt8 := [0x63, 0x82, 0x53, 0x63]

inductive DhcpState where
  | idle
  | selecting
  | requesting
  | bound
  deriving DecidableEq, Repr

structure DhcpClient where
  state : DhcpState
  xid : UInt32
  offeredIp : IpAddr
  serverIp : IpAddr
  subnetMask : IpAddr
  gateway : IpAddr
  leaseSecs : UInt32
  deriving DecidableEq, Repr

inductive DhcpAction where
  | sendRequest
  | bound (ip : IpAddr)
  | nak
  deriving DecidableEq, Repr

/-- What the walk over a reply's options has found. -/
structure DhcpOptions where
  msgType : UInt8
  serverId : IpAddr
  subnetMask : IpAddr
  gateway : IpAddr
  leaseSecs : UInt32
  deriving DecidableEq, Repr

/-- The option with this tag and value; those not asked for are passed over. -/
def DhcpOptions.read (o : DhcpOptions) (tag : UInt8) (val : List UInt8) : Rust Unit DhcpOptions :=
  if tag = 53 ∧ 1 ≤ val.length then do
    let b ← index val 0
    .ok { o with msgType := b }
  else if tag = 54 ∧ 4 ≤ val.length then do
    let ip ← IpAddr.ofSlice (← sliceRange val 0 4)
    .ok { o with serverId := ip }
  else if tag = 1 ∧ 4 ≤ val.length then do
    let ip ← IpAddr.ofSlice (← sliceRange val 0 4)
    .ok { o with subnetMask := ip }
  else if tag = 3 ∧ 4 ≤ val.length then do
    let ip ← IpAddr.ofSlice (← sliceRange val 0 4)
    .ok { o with gateway := ip }
  else if tag = 51 ∧ 4 ≤ val.length then do
    let secs ← u32At val 0
    .ok { o with leaseSecs := secs }
  else .ok o

/-- `while i < data.len()`, one option a round. -/
def walkOptions (data : List UInt8) : Nat → Nat → DhcpOptions → Rust Unit DhcpOptions
  | 0, _, _ => .error .hang
  | fuel + 1, i, o =>
    if data.length ≤ i then .ok o
    else do
      let tag ← index data i
      if tag = 255 then .ok o
      else if tag = 0 then walkOptions data fuel (i + 1) o
      else if data.length ≤ i + 1 then .ok o
      else
        let len ← index data (i + 1)
        if i + 2 + len.toNat > data.length then .ok o
        else
          let val ← sliceRange data (i + 2) (i + 2 + len.toNat)
          let o ← o.read tag val
          walkOptions data fuel (i + 2 + len.toNat) o

/-- An address option of a request, left out when the address is zero. -/
def addrOption (p : List UInt8) (o : Nat) (tag : UInt8) (ip : IpAddr) : Rust Unit (List UInt8 × Nat) :=
  if ip ≠ .default then do
    let p ← setAt p o tag
    let p ← setAt p (o + 1) 4
    let p ← copyInto p (o + 2) (o + 6) ip.bytes
    .ok (p, o + 6)
  else .ok (p, o)

namespace DhcpClient

def new (mac : Mac) : DhcpClient where
  state := .idle
  xid := ofBe32 mac.c mac.d mac.e mac.f
  offeredIp := .default
  serverIp := .default
  subnetMask := .default
  gateway := .default
  leaseSecs := 86400

def buildBootp (c : DhcpClient) (mac : Mac) (msgType : UInt8) (requestedIp serverId : IpAddr) :
    Rust Unit (List UInt8) := do
  let p := List.replicate 300 0
  let p ← setAt p 0 1
  let p ← setAt p 1 1
  let p ← setAt p 2 6
  let p ← copyInto p 4 8 (be32 c.xid)
  let p ← copyInto p 10 12 (be16 0x8000)
  let p ← copyInto p 28 34 mac.bytes
  let p ← copyInto p 236 240 MAGIC
  let o := 240
  let p ← setAt p o 53
  let p ← setAt p (o + 1) 1
  let p ← setAt p (o + 2) msgType
  let (p, o) ← addrOption p (o + 3) 50 requestedIp
  let (p, o) ← addrOption p o 54 serverId
  let p ← setAt p o 55
  let p ← setAt p (o + 1) 3
  let p ← setAt p (o + 2) 1
  let p ← setAt p (o + 3) 3
  let p ← setAt p (o + 4) 51
  let p ← setAt p (o + 5) 255
  sliceRange p 0 (o + 6)

def buildDiscover (c : DhcpClient) (mac : Mac) : Rust Unit (List UInt8) :=
  c.buildBootp mac MSG_DISCOVER .default .default

def buildRequest (c : DhcpClient) (mac : Mac) : Rust Unit (List UInt8) :=
  c.buildBootp mac MSG_REQUEST c.offeredIp c.serverIp

def act (c : DhcpClient) (yiaddr : IpAddr) (o : DhcpOptions) : DhcpClient × Option DhcpAction :=
  match c.state with
  | .selecting =>
    if o.msgType = MSG_OFFER then
      ({ c with
          offeredIp := yiaddr, serverIp := o.serverId, subnetMask := o.subnetMask, gateway := o.gateway,
          leaseSecs := o.leaseSecs, state := .requesting }, some .sendRequest)
    else (c, none)
  | .requesting =>
    if o.msgType = MSG_ACK then ({ c with offeredIp := yiaddr, state := .bound }, some (.bound yiaddr))
    else if o.msgType = MSG_NAK then ({ c with state := .idle }, some .nak)
    else (c, none)
  | .idle | .bound => (c, none)

def handlePacket (c : DhcpClient) (data : List UInt8) : Rust Unit (DhcpClient × Option DhcpAction) :=
  if data.length < 240 then .ok (c, none)
  else do
    let op ← index data 0
    if op ≠ 2 then .ok (c, none)
    else
      let magic ← sliceRange data 236 240
      if magic ≠ MAGIC then .ok (c, none)
      else
        let xid ← u32At data 4
        if xid ≠ c.xid then .ok (c, none)
        else
          let y0 ← index data 16
          let y1 ← index data 17
          let y2 ← index data 18
          let y3 ← index data 19
          let o ← walkOptions data (data.length + 1) 240 ⟨0, .default, .default, .default, 86400⟩
          .ok (c.act ⟨y0, y1, y2, y3⟩ o)

end DhcpClient

end WasmOs.Net
