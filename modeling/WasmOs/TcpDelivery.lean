import WasmOs.NetStack

/-!
# What a connection delivers

The peer sends a byte stream in segments that may be lost, repeated, reordered and cut in any way. An
established socket appends what arrives without looking at the sequence number, so the application reads
a prefix of the stream as long as every segment that is stored starts at the first byte not yet stored.
-/

namespace WasmOs.Net

/-- The segment carries the stream's bytes from `off` on, under their sequence number. -/
def Carries (stream : List UInt8) (isn : UInt32) (off : Nat) (pkt : TcpPacket) : Prop :=
  pkt.seq = isn + UInt32.ofNat off ∧ pkt.payload <+: stream.drop off

/-- Slot `i` holds a connection whose peer sends `stream` from sequence number `isn` on. -/
def Receiving (stream : List UInt8) (isn : UInt32) (i : Nat) (st : NetworkStack) : Prop :=
  i < MAX_SOCKETS ∧ ∃ s, st.tcpSockets i = some s ∧ s.state = .established ∧
    s.pending <+: stream ∧ s.ack = isn + UInt32.ofNat s.recvLen

/-- The runs of a connection: segments of its stream that pass `ok`, segments for other sockets, and
reads into a buffer that holds all that waits. The last argument collects what the reads return. -/
inductive Delivery (stream : List UInt8) (isn : UInt32) (i : Nat)
    (ok : NetworkStack → List UInt8 → Nat → TcpPacket → Prop) (start : NetworkStack) :
    NetworkStack → List UInt8 → Prop
  | start : Delivery stream isn i ok start start []
  | segment {st st' : NetworkStack} {out : List UInt8} {pkt : TcpPacket} (src : IpAddr) (off : Nat)
      (h : Delivery stream isn i ok start st out)
      (hf : st.findTcpSocket pkt.dstPort pkt.srcPort = some i) (hc : Carries stream isn off pkt)
      (hok : ok st out off pkt) (hst : st.handleTcp src pkt = .ok st') : Delivery stream isn i ok start st' out
  | other {st st' : NetworkStack} {out : List UInt8} {src : IpAddr} {pkt : TcpPacket}
      (h : Delivery stream isn i ok start st out)
      (hf : st.findTcpSocket pkt.dstPort pkt.srcPort ≠ some i) (hst : st.handleTcp src pkt = .ok st') :
      Delivery stream isn i ok start st' out
  | recv {st st' : NetworkStack} {out bytes : List UInt8} (cap : Nat)
      (h : Delivery stream isn i ok start st out)
      (hcap : ∀ s, st.tcpSockets i = some s → s.recvLen ≤ cap)
      (hst : st.tcpRecv i cap = .ok (st', bytes)) : Delivery stream isn i ok start st' (out ++ bytes)

/-- If the socket stores bytes of the segment at all, the segment starts at the first byte of the stream
that is neither read nor waiting. -/
def StartsAtGap (i : Nat) (st : NetworkStack) (out : List UInt8) (off : Nat) (pkt : TcpPacket) : Prop :=
  ∀ s, st.tcpSockets i = some s → s.state = .established → !pkt.rst → !pkt.fin → pkt.payload ≠ [] →
    s.recvLen < MAX_TCP_PAYLOAD → off = out.length + s.recvLen

/-- What was read and what waits, one after the other, begin the stream. -/
def Faithful (stream : List UInt8) (i : Nat) (st : NetworkStack) (out : List UInt8) : Prop :=
  ∃ s, st.tcpSockets i = some s ∧ out ++ s.pending <+: stream

theorem Receiving.faithful {stream : List UInt8} {isn : UInt32} {i : Nat} {st : NetworkStack}
    (h : Receiving stream isn i st) : Faithful stream i st [] := by
  obtain ⟨-, s, hs, -, hp, -⟩ := h
  exact ⟨s, hs, hp⟩

theorem append_take_isPrefix {stream got piece : List UInt8} (n : Nat) (hg : got <+: stream)
    (hp : piece <+: stream.drop got.length) : got ++ piece.take n <+: stream := by
  obtain ⟨rest, rfl⟩ := hg
  rw [List.drop_left] at hp
  exact (List.prefix_append_right_inj got).mpr ((List.take_prefix n piece).trans hp)

theorem segment_faithful {stream out : List UInt8} {isn : UInt32} {i off : Nat} {st st' : NetworkStack}
    {src : IpAddr} {pkt : TcpPacket} (h : Faithful stream i st out)
    (hf : st.findTcpSocket pkt.dstPort pkt.srcPort = some i) (hc : Carries stream isn off pkt)
    (hok : StartsAtGap i st out off pkt) (hst : st.handleTcp src pkt = .ok st') : Faithful stream i st' out := by
  obtain ⟨s, hs, hp⟩ := h
  refine ⟨(s.handlePkt pkt src).1, ?_, ?_⟩
  · rw [NetworkStack.handleTcp_some hf hs hst, upd_self]
  · rw [TcpSocket.handlePkt_pending]
    by_cases hacc : s.state = .established ∧ !pkt.rst ∧ !pkt.fin
    · rw [if_pos hacc, ← List.append_assoc]
      -- a full buffer and an empty payload bring nothing, so only a stored segment has to be in place
      by_cases hfull : s.recvLen < MAX_TCP_PAYLOAD
      · by_cases hne : pkt.payload = []
        · simpa [hne] using hp
        · apply append_take_isPrefix _ hp
          have hoff := hok s hs hacc.1 hacc.2.1 hacc.2.2 hne hfull
          rw [List.length_append, s.pending_length, ← hoff]
          exact hc.2
      · have : MAX_TCP_PAYLOAD - s.recvLen = 0 := by omega
        simpa [this] using hp
    · rw [if_neg hacc]
      exact hp

theorem recv_faithful {stream out bytes : List UInt8} {i cap : Nat} {st st' : NetworkStack}
    (h : Faithful stream i st out) (hcap : ∀ s, st.tcpSockets i = some s → s.recvLen ≤ cap)
    (hst : st.tcpRecv i cap = .ok (st', bytes)) : Faithful stream i st' (out ++ bytes) := by
  obtain ⟨s, hs, hp⟩ := h
  unfold NetworkStack.tcpRecv at hst
  obtain ⟨o, ho, hst⟩ := bind_eq_ok.mp hst
  obtain ⟨hi, rfl⟩ := NetworkStack.socket_eq_ok ho
  simp only [hs, TcpSocket.recv] at hst
  by_cases hz : s.recvLen = 0
  · simp [hz] at hst
  · rw [if_neg hz, Nat.min_eq_left (hcap s hs)] at hst
    cases hst
    refine ⟨_, upd_self _ _ _, ?_⟩
    simpa [TcpSocket.pending, slice] using hp

/-- In every run whose stored segments start at the gap, the reads return a prefix of the stream. -/
theorem delivery_isPrefix {stream out : List UInt8} {isn : UInt32} {i : Nat} {start st : NetworkStack}
    (hr : Receiving stream isn i start) (h : Delivery stream isn i (StartsAtGap i) start st out) :
    out <+: stream := by
  have hinv : Faithful stream i st out := by
    induction h with
    | start => exact hr.faithful
    | segment src off h hf hc hok hst ih => exact segment_faithful ih hf hc hok hst
    | other h hf hst ih =>
      obtain ⟨s, hs, hp⟩ := ih
      exact ⟨s, by rw [NetworkStack.handleTcp_other hf hst, hs], hp⟩
    | recv cap h hcap hst ih => exact recv_faithful ih hcap hst
  obtain ⟨s, -, hp⟩ := hinv
  exact (List.prefix_append out _).trans hp

/-! A connection on port 80, and a peer that sends the two bytes 1, 2 from sequence number 100 on. -/

def peerIp : IpAddr := ⟨10, 0, 2, 2⟩

def peerSegment (seq : UInt32) (flags : UInt8) (payload : List UInt8) : TcpPacket :=
  ⟨5000, 80, seq, 2, flags, payload⟩

def connected : TcpSocket :=
  (((TcpSocket.listen 80).handlePkt (peerSegment 99 TCP_SYN []) peerIp).1.handlePkt
    (peerSegment 100 TCP_ACK []) peerIp).1

def oneConnection : NetworkStack := NetworkStack.init.setSocket 0 connected

theorem oneConnection_receiving : Receiving [1, 2] 100 0 oneConnection :=
  ⟨by decide, connected, rfl, by decide, ⟨[1, 2], rfl⟩, by decide⟩

theorem carries_first : Carries [1, 2] 100 0 (peerSegment 100 TCP_ACK [1]) := ⟨by decide, ⟨[2], rfl⟩⟩

/-- The stack after the peer's first byte has arrived. -/
def arrived (st : NetworkStack) (s : TcpSocket) : NetworkStack :=
  (st.setSocket 0 (s.handlePkt (peerSegment 100 TCP_ACK [1]) peerIp).1).send
    (.tcpSeg 80 5000 peerIp 2 101 TCP_ACK [])

theorem delivery_isPrefix_both : ∃ st, Delivery [1, 2] 100 0 (StartsAtGap 0) oneConnection st [1, 2] ∧
    [(1 : UInt8), 2] <+: [1, 2] := by
  have hgap : StartsAtGap 0 oneConnection [] 0 (peerSegment 100 TCP_ACK [1]) := by
    intro s hs _ _ _ _ _
    cases hs
    rfl
  have h₁ : Delivery [1, 2] 100 0 (StartsAtGap 0) oneConnection (arrived oneConnection connected) [] :=
    .segment peerIp 0 .start (by decide) carries_first hgap rfl
  have hgap' : StartsAtGap 0 (arrived oneConnection connected) [] 1 (peerSegment 101 TCP_ACK [2]) := by
    intro s hs _ _ _ _ _
    cases hs
    rfl
  have hcarries : Carries [1, 2] 100 1 (peerSegment 101 TCP_ACK [2]) := ⟨by decide, ⟨[], rfl⟩⟩
  have h₂ : ∃ st, Delivery [1, 2] 100 0 (StartsAtGap 0) oneConnection st [] ∧
      (st.tcpRecv 0 1460).toOption.map Prod.snd = some [1, 2] ∧
      ∀ s, st.tcpSockets 0 = some s → s.recvLen ≤ 1460 :=
    ⟨_, .segment peerIp 1 h₁ (by decide) hcarries hgap' rfl, by rfl, fun s _ => s.recvLen_le⟩
  obtain ⟨st, h₂, hread, hcap⟩ := h₂
  cases hrecv : st.tcpRecv 0 1460 with
  | error e =>
    rw [hrecv] at hread
    cases hread
  | ok r =>
    rw [hrecv] at hread
    have hbytes : r.2 = [1, 2] := Option.some.inj hread
    have h₃ : Delivery [1, 2] 100 0 (StartsAtGap 0) oneConnection r.1 ([] ++ r.2) := .recv 1460 h₂ hcap hrecv
    rw [hbytes] at h₃
    exact ⟨r.1, h₃, delivery_isPrefix oneConnection_receiving h₃⟩

/-- The first segment twice: the second copy is stored behind the first. -/
theorem delivery_duplicate : ¬ ∀ (stream out : List UInt8) (isn : UInt32) (i : Nat) (start st : NetworkStack),
    Receiving stream isn i start → Delivery stream isn i (fun _ _ _ _ => True) start st out → out <+: stream := by
  intro hall
  have h₁ : Delivery [1, 2] 100 0 (fun _ _ _ _ => True) oneConnection (arrived oneConnection connected) [] :=
    .segment peerIp 0 .start (by decide) carries_first trivial rfl
  have h₂ : Delivery [1, 2] 100 0 (fun _ _ _ _ => True) oneConnection
      (arrived (arrived oneConnection connected) (connected.handlePkt (peerSegment 100 TCP_ACK [1]) peerIp).1) [] :=
    .segment peerIp 0 h₁ (by decide) carries_first trivial rfl
  have h₃ : ∃ st, Delivery [1, 2] 100 0 (fun _ _ _ _ => True) oneConnection st [1, 1] :=
    ⟨_, .recv 1460 h₂ (fun s _ => s.recvLen_le) rfl⟩
  obtain ⟨st, h₃⟩ := h₃
  have hout := hall _ _ _ _ _ _ oneConnection_receiving h₃
  revert hout
  decide

end WasmOs.Net
