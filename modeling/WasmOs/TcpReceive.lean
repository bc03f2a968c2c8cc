import WasmOs.TcpConn
import WasmOs.TcpDelivery

/-!
# What a connection receives

`recv` empties the receive buffer whatever fits into the caller's buffer, and an established socket
acknowledges a payload as a whole whatever fits into the receive buffer. So what was accepted reaches the
application, and what was acknowledged was accepted, as long as both buffers are large enough.
-/

namespace WasmOs.Net

open Runs

/-- What the receive buffer of slot `i` has gained in a step. -/
def NetworkStack.accepted (st : NetworkStack) (i : Nat) (op : NetOp) (st' : NetworkStack) : List UInt8 :=
  match op, st.tcpSockets i, st'.tcpSockets i with
  | .segment _ _, some s, some s' => s'.pending.drop s.recvLen
  | _, _, _ => []

/-! ## Reading -/

/-- A connection with the bytes that were accepted into its receive buffer and those that were read. -/
structure Reader where
  st : NetworkStack
  slot : Nat
  accepted : List UInt8
  out : List UInt8

namespace Reader

/-- What waits in the buffer was accepted before. -/
def start (st : NetworkStack) (i : Nat) (s : TcpSocket) : Reader := ⟨st, i, s.pending, []⟩

def step (r : Reader) (op : NetOp) : Rust Unit Reader := do
  let st ← r.st.step op
  .ok ⟨st, r.st.follow r.slot op, r.accepted ++ r.st.accepted r.slot op st, r.out ++ r.st.returned r.slot op⟩

def Lossless (r : Reader) : Prop := ∃ s, r.st.tcpSockets r.slot = some s ∧ r.out ++ s.pending = r.accepted

/-- A `tcp_recv` of the connection has a buffer for all that waits. -/
def Roomy (r : Reader) : NetOp → Prop
  | .recv j cap => j = r.slot → ∀ s, r.st.tcpSockets r.slot = some s → s.recvLen ≤ cap
  | _ => True

end Reader

section
variable {st st' : NetworkStack} {i : Nat} {s : TcpSocket} {op : NetOp}

theorem handlePkt_pending_isPrefix (s : TcpSocket) (pkt : TcpPacket) (src : IpAddr) :
    s.pending <+: (s.handlePkt pkt src).1.pending := by
  rw [TcpSocket.handlePkt_pending]
  split
  · exact List.prefix_append _ _
  · exact List.prefix_rfl

theorem append_accepted {src : IpAddr} {pkt : TcpPacket} (hs : st.tcpSockets i = some s)
    (hs' : st'.tcpSockets i = some (s.handlePkt pkt src).1) :
    s.pending ++ st.accepted i (.segment src pkt) st' = (s.handlePkt pkt src).1.pending := by
  have hpre := handlePkt_pending_isPrefix s pkt src
  obtain ⟨rest, hrest⟩ := hpre
  unfold NetworkStack.accepted
  simp only [hs, hs']
  rw [← hrest, ← s.pending_length, List.drop_left]

theorem accepted_nil (hs : st.tcpSockets i = some s) (hs' : st'.tcpSockets i = some s) :
    st.accepted i op st' = [] := by
  unfold NetworkStack.accepted
  rw [hs, hs']
  cases op with
  | segment => exact List.drop_eq_nil_of_le (Nat.le_of_eq s.pending_length)
  | _ => rfl

theorem returned_of_recv (hi : i < MAX_SOCKETS) (hs : st.tcpSockets i = some s) (cap : Nat) :
    st.returned i (.recv i cap) = if s.recvLen = 0 then [] else slice s.recvBuf 0 (min s.recvLen cap) := by
  simp only [NetworkStack.returned, tcpRecv_eq hi hs, if_true]
  by_cases hz : s.recvLen = 0
  · rw [if_pos hz, if_pos hz]
  · rw [if_neg hz, if_neg hz]

theorem returned_elsewhere (hc : st.concerns i op = false) : st.returned i op = [] := by
  cases op with
  | recv j cap =>
    have hj : j ≠ i := beq_eq_false_iff_ne.mp hc
    simp only [NetworkStack.returned, hj, if_false]
  | _ => rfl

end

/-- A step keeps the balance of accepted and read bytes exactly if it is no read into too small a buffer. -/
theorem Reader.step_lossless {r r' : Reader} {op : NetOp} (hi : r.slot < MAX_SOCKETS) (hl : r.Lossless)
    (h : r.step op = .ok r') :
    r'.Lossless ↔ r.Roomy op := by
  obtain ⟨s, hs, hout⟩ := hl
  obtain ⟨st', hst, h⟩ := bind_eq_ok.mp h
  cases h
  obtain ⟨_, s', hs', heff⟩ := step_effect hi hs hst
  have balanced : ∀ {a b : List UInt8}, a ++ s'.pending = b →
      Lossless ⟨st', r.st.follow r.slot op, b, a⟩ := fun h => ⟨s', hs', h⟩
  have idle : r.st.accepted r.slot op st' = [] → r.st.returned r.slot op = [] → s'.pending = s.pending →
      r.out ++ r.st.returned r.slot op ++ s'.pending = r.accepted ++ r.st.accepted r.slot op st' := by
    intro ha hr hp
    rw [ha, hr, List.append_nil, List.append_nil, hp, hout]
  generalize r.st.sentBy r.slot op st' = txs at heff
  cases heff with
  | elsewhere hc =>
    refine iff_of_true (balanced (idle ?_ (returned_elsewhere hc) rfl)) ?_
    · cases op with
      | segment => exact accepted_nil hs hs'
      | _ => rfl
    · cases op with
      | recv j cap => exact fun hj => absurd hj (beq_eq_false_iff_ne.mp hc)
      | _ => trivial
  | @segment src pkt hf =>
    refine iff_of_true (balanced ?_) trivial
    show r.out ++ [] ++ _ = _
    rw [List.append_nil, ← append_accepted hs hs', ← List.append_assoc, hout]
  | sendErr | send | closeErr | close => exact iff_of_true (balanced (idle rfl rfl rfl)) trivial
  | @recvErr cap hz =>
    refine iff_of_true (balanced (idle rfl ?_ rfl)) fun _ t ht => ?_
    · rw [returned_of_recv hi hs, if_pos hz]
    · cases hs.symm.trans ht
      rw [hz]
      exact Nat.zero_le _
  | @recv cap hz =>
    have hret : r.st.returned r.slot (.recv r.slot cap) = slice s.recvBuf 0 (min s.recvLen cap) := by
      rw [returned_of_recv hi hs, if_neg hz]
    constructor
    · rintro ⟨t, ht, heq⟩ _ u hu
      cases hs.symm.trans hu
      cases hs'.symm.trans ht
      have hlen := congrArg List.length (heq.trans (List.append_nil _))
      have hlen' := congrArg List.length hout
      simp only [hret, List.length_append, slice_length, TcpSocket.pending_length] at hlen hlen'
      omega
    · intro hroom
      have hcap := hroom rfl s hs
      refine balanced ?_
      rw [hret, Nat.min_eq_left hcap]
      show r.out ++ s.pending ++ [] = r.accepted ++ []
      rw [List.append_nil, List.append_nil, hout]

/-- The bytes that `tcp_recv` has returned and those that wait are those that were accepted, in every state
of a run exactly if every read of the connection finds room for all that waits. -/
theorem recv_lossless_iff (st : NetworkStack) (i : Nat) (s : TcpSocket) (hi : i < MAX_SOCKETS)
    (hs : st.tcpSockets i = some s) (ops : List NetOp) :
    Always Reader.step Reader.Lossless (Reader.start st i s) ops ↔
    AllSteps Reader.step Reader.Roomy (Reader.start st i s) ops := by
  have hholds : ∀ r op r', r.st.Holds r.slot → Reader.step r op = .ok r' → r'.st.Holds r'.slot := by
    intro r op r' hr h
    obtain ⟨st', hst, h⟩ := bind_eq_ok.mp h
    cases h
    exact hr.step hst
  have hstep : ∀ r op r', r.st.Holds r.slot ∧ r.Lossless → True → Reader.step r op = .ok r' →
      (r'.st.Holds r'.slot ∧ r'.Lossless ↔ r.Roomy op) := by
    intro r op r' hr _ h
    rw [and_iff_right (hholds r op r' hr.1 h)]
    exact Reader.step_lossless hr.1.1 hr.2 h
  have hstart : (Reader.start st i s).st.Holds (Reader.start st i s).slot := ⟨hi, s, hs⟩
  rw [← always_iff_allSteps hstep ⟨hstart, s, hs, rfl⟩ (allSteps_of_forall fun _ _ _ => trivial)]
  exact ⟨Always.and hholds hstart, Always.mono fun _ h => h.2⟩

theorem recv_lossless_two : Always Reader.step Reader.Lossless (Reader.start oneConnection 0 connected)
    [.segment peerIp (peerSegment 100 TCP_ACK [1, 2]), .recv 0 MAX_TCP_PAYLOAD] :=
  (recv_lossless_iff oneConnection 0 connected (by decide) rfl _).mpr
    fun _ _ => ⟨trivial, fun _ _ => ⟨fun _ s _ => s.recvLen_le, trivial⟩⟩

/-- Two bytes arrive and one is read: the other is gone. -/
theorem recv_loses_rest : ¬ Always Reader.step Reader.Lossless (Reader.start oneConnection 0 connected)
    [.segment peerIp (peerSegment 100 TCP_ACK [1, 2]), .recv 0 1] := by
  intro h
  obtain ⟨s, hs, hout⟩ := h.last rfl
  cases hs
  revert hout
  decide

/-! ## Acknowledging -/

/-- `a` is not beyond `b`, in the arithmetic of sequence numbers. -/
def NotBeyond (a b : UInt32) : Prop := (b - a).toNat < 2 ^ 31

/-- A connection and its peer's stream: `base` is the number of the first byte, the peer has sent `next`
bytes, the last byte in the receive buffer is the one before `stored`, and `fin` says that the peer is
done. `acks` are the acknowledgement numbers that were sent, each with the bound at the time. -/
structure Inbound where
  st : NetworkStack
  slot : Nat
  base : UInt32
  next : Nat
  stored : Nat
  fin : Bool
  acks : List (UInt32 × UInt32)

def Tx.ackNo : Tx → Option UInt32
  | .tcpSeg _ _ _ _ ack _ _ => some ack
  | .arpRequest _ => none

namespace Inbound

def start (st : NetworkStack) (i : Nat) (s : TcpSocket) : Inbound := ⟨st, i, s.ack, 0, 0, false, []⟩

/-- The number behind the last byte stored, and behind the FIN if all bytes before it are stored. -/
def bound (c : Inbound) : UInt32 := c.base + UInt32.ofNat c.stored + if c.fin && c.stored == c.next then 1 else 0

def heard (c : Inbound) (op : NetOp) (st' : NetworkStack) : Inbound :=
  match op with
  | .segment _ pkt =>
    if c.st.concerns c.slot op then
      let n := (c.st.accepted c.slot op st').length
      { c with
        next := c.next + pkt.payload.length
        stored := if n = 0 then c.stored else c.next + n
        fin := c.fin || pkt.fin }
    else c
  | _ => c

def step (c : Inbound) (op : NetOp) : Rust Unit Inbound := do
  let st ← c.st.step op
  let c' := c.heard op st
  let acks := (c.st.sentBy c.slot op st).filterMap Tx.ackNo
  .ok { c' with st := st, slot := c.st.follow c.slot op, acks := acks.map (·, c'.bound) ++ c.acks }

def Covered (c : Inbound) : Prop := ∀ p ∈ c.acks, NotBeyond p.1 p.2

/-- The peer sends its bytes in order, and nothing after its FIN. -/
def InOrder (c : Inbound) : NetOp → Prop
  | .segment src pkt => c.st.concerns c.slot (.segment src pkt) = true →
      if c.fin then pkt.payload = [] ∧ pkt.fin = false else pkt.seq = c.base + UInt32.ofNat c.next
  | _ => True

/-- A payload for an established connection fits into its buffer, or is empty if the segment carries FIN; a FIN
that reaches a connection that was closed from this side comes without payload, after no byte that was not
stored. -/
def Fits (c : Inbound) : NetOp → Prop
  | .segment src pkt => c.st.concerns c.slot (.segment src pkt) = true → pkt.rst = false →
      ∀ s, c.st.tcpSockets c.slot = some s →
        (s.state = .established → if pkt.fin then pkt.payload = [] else s.recvLen + pkt.payload.length ≤
        MAX_TCP_PAYLOAD) ∧
        (s.state = .finWait1 ∨ s.state = .finWait2 → pkt.fin = true → pkt.payload = [] ∧ c.stored = c.next)
  | _ => True

/-- As long as the connection acknowledges with `ack`, this is the number behind all that the peer has sent. -/
def Tracks (c : Inbound) (s : TcpSocket) : Prop :=
  match s.state with
  | .established => c.fin = false ∧ c.stored = c.next ∧ s.ack = c.base + UInt32.ofNat c.next
  | .closeWait => c.fin = true ∧ c.stored = c.next ∧ s.ack = c.base + UInt32.ofNat c.next + 1
  | .listen | .synSent | .synRecv => False
  | .finWait1 | .finWait2 | .closing | .closed => True

variable {c c' : Inbound} {s : TcpSocket} {pkt : TcpPacket}

def afterSegment (c : Inbound) (s : TcpSocket) (pkt : TcpPacket) : Inbound :=
  let n := (if s.state = .established ∧ !pkt.rst ∧ !pkt.fin then
      pkt.payload.take (MAX_TCP_PAYLOAD - s.recvLen) else []).length
  { c with
    next := c.next + pkt.payload.length
    stored := if n = 0 then c.stored else c.next + n
    fin := c.fin || pkt.fin }

theorem notBeyond_self (a : UInt32) : NotBeyond a a := by
  unfold NotBeyond
  rw [UInt32.sub_self]
  decide

theorem bound_of_fin (hf : c.fin = true) (hs : c.stored = c.next) : c.bound = c.base + UInt32.ofNat c.next + 1 := by
  simp [bound, hf, hs]

theorem bound_of_open (hf : c.fin = false) : c.bound = c.base + UInt32.ofNat c.stored := by
  simp [bound, hf]

theorem afterSegment_stored (h : s.state ≠ .established ∨ pkt.rst = true ∨ pkt.fin = true) :
    (c.afterSegment s pkt).stored = c.stored := by
  have hno : ¬ (s.state = .established ∧ (!pkt.rst) = true ∧ (!pkt.fin) = true) := by
    rintro ⟨he, hr, hf⟩
    simp_all
  simp only [afterSegment, if_neg hno, List.length_nil, if_true]

theorem tracks_established (he : s.state = .established) (ht : c.Tracks s) (hr : pkt.rst = false)
    (hseq : pkt.seq = c.base + UInt32.ofNat c.next)
    (hfit : if pkt.fin then pkt.payload = [] else s.recvLen + pkt.payload.length ≤ MAX_TCP_PAYLOAD) (src : IpAddr) :
    (c.afterSegment s pkt).Tracks (s.handlePkt pkt src).1 ∧
      ∀ r ∈ (s.handlePkt pkt src).2, NotBeyond r.ack (c.afterSegment s pkt).bound := by
  simp only [Tracks, he] at ht
  obtain ⟨hfin, hstored, hack⟩ := ht
  cases hf : pkt.fin with
  | true =>
    have hp : s.handlePkt pkt src =
        ({ s with lastSeq := pkt.seq, lastAck := pkt.ackNo, ack := pkt.seq + 1, state := .closeWait },
          some ⟨TCP_ACK, s.seq, pkt.seq + 1⟩) := by
      simp [TcpSocket.handlePkt, TcpSocket.handleState, hr, he, hf]
    rw [hf, if_pos rfl] at hfit
    have hnext : (c.afterSegment s pkt).next = c.next := by simp [afterSegment, hfit]
    have hall : (c.afterSegment s pkt).stored = (c.afterSegment s pkt).next := by
      rw [afterSegment_stored (.inr (.inr hf)), hnext, hstored]
    have hdone : (c.afterSegment s pkt).fin = true := by simp [afterSegment, hf]
    rw [hp]
    refine ⟨⟨hdone, hall, ?_⟩, ?_⟩
    · rw [hnext, hseq]
      rfl
    · rintro r ⟨⟩
      rw [bound_of_fin hdone hall, hnext, hseq]
      exact notBeyond_self _
  | false =>
    rw [hf, if_neg (by decide)] at hfit
    have hopen : (c.afterSegment s pkt).fin = false := by simp [afterSegment, hf, hfin]
    by_cases hne : pkt.payload = []
    · have hp : s.handlePkt pkt src = ({ s with lastSeq := pkt.seq, lastAck := pkt.ackNo }, none) := by
        simp [TcpSocket.handlePkt, TcpSocket.handleState, hr, he, hf, hne]
      have hsame : c.afterSegment s pkt = c := by simp [afterSegment, hne, hf]
      rw [hp, hsame]
      simp only [Tracks, he]
      exact ⟨⟨hfin, hstored, hack⟩, fun r hr => by cases hr⟩
    · have hp := TcpSocket.handlePkt_data src (by simp [TcpState.next, hr, he, hf]) he hne
      have hpos : 0 < pkt.payload.length := List.length_pos_iff.mpr hne
      have hall : (c.afterSegment s pkt).stored = c.next + pkt.payload.length := by
        have htake : pkt.payload.take (MAX_TCP_PAYLOAD - s.recvLen) = pkt.payload :=
          List.take_of_length_le (by omega)
        simp only [afterSegment, he, hr, hf, htake]
        simp [hne]
      have hseq' : pkt.seq + UInt32.ofNat pkt.payload.length =
          c.base + UInt32.ofNat (c.next + pkt.payload.length) := by
        rw [hseq, UInt32.ofNat_add, UInt32.add_assoc]
      rw [hp]
      refine ⟨?_, ?_⟩
      · have hstate : (TcpSocket.store { s with lastSeq := pkt.seq, lastAck := pkt.ackNo }
          pkt.payload).state = .established := he
        simp only [Tracks, hstate]
        exact ⟨hopen, hall, hseq'⟩
      · rintro r ⟨⟩
        rw [bound_of_open hopen, hall, hseq']
        exact notBeyond_self _

theorem bound_of_lastFin (hf : pkt.fin = true) (hp : pkt.payload = []) (hall : c.stored = c.next)
    (hseq : pkt.seq = c.base + UInt32.ofNat c.next) : (c.afterSegment s pkt).bound = pkt.seq + 1 := by
  have hnext : (c.afterSegment s pkt).next = c.next := by simp [afterSegment, hp]
  rw [bound_of_fin (by simp [afterSegment, hf]), hnext, hseq]
  · rfl
  · rw [afterSegment_stored (.inr (.inr hf)), hnext, hall]

theorem tracks_segment (ht : c.Tracks s) (src : IpAddr)
    (hord : if c.fin then pkt.payload = [] ∧ pkt.fin = false else pkt.seq = c.base + UInt32.ofNat c.next)
    (hfit : pkt.rst = false →
      (s.state = .established → if pkt.fin then pkt.payload = [] else s.recvLen + pkt.payload.length ≤
        MAX_TCP_PAYLOAD) ∧
      (s.state = .finWait1 ∨ s.state = .finWait2 → pkt.fin = true → pkt.payload = [] ∧ c.stored = c.next)) :
    (c.afterSegment s pkt).Tracks (s.handlePkt pkt src).1 ∧
      ∀ r ∈ (s.handlePkt pkt src).2, NotBeyond r.ack (c.afterSegment s pkt).bound := by
  cases hr : pkt.rst with
  | true =>
    have hp : s.handlePkt pkt src =
        ({ s with lastSeq := pkt.seq, lastAck := pkt.ackNo, state := .closed }, none) := by
      simp [TcpSocket.handlePkt, hr]
    rw [hp]
    exact ⟨trivial, fun r hr => by cases hr⟩
  | false =>
    obtain ⟨hfit, hlast⟩ := hfit hr
    -- a FIN that is answered is the peer's first one
    have hfirst : pkt.fin = true → pkt.seq = c.base + UInt32.ofNat c.next := by
      intro hf
      cases hc : c.fin with
      | true =>
        rw [hc, if_pos rfl] at hord
        rw [hord.2] at hf
        cases hf
      | false =>
        rw [hc, if_neg (by decide)] at hord
        exact hord
    have answered : ∀ {t : TcpSocket}, s.state = .finWait1 ∨ s.state = .finWait2 → pkt.fin = true →
        ∀ r ∈ some (TcpReply.mk TCP_ACK t.seq (pkt.seq + 1)),
        NotBeyond r.ack (c.afterSegment s pkt).bound := by
      rintro t hq hf r ⟨⟩
      have hseq := hfirst hf
      obtain ⟨hp, hall⟩ := hlast hq hf
      rw [bound_of_lastFin hf hp hall hseq]
      exact notBeyond_self _
    cases hq : s.state with
    | established =>
      have ht' := ht
      simp only [Tracks, hq] at ht'
      rw [ht'.1, if_neg (by decide)] at hord
      exact tracks_established hq ht hr hord (hfit hq) src
    | closeWait =>
      simp only [Tracks, hq] at ht
      obtain ⟨hfin, hstored, hack⟩ := ht
      rw [hfin, if_pos rfl] at hord
      have hsame : c.afterSegment s pkt = c := by simp [afterSegment, hord.1, hord.2]
      have hp : s.handlePkt pkt src = ({ s with lastSeq := pkt.seq, lastAck := pkt.ackNo }, none) := by
        simp [TcpSocket.handlePkt, TcpSocket.handleState, hr, hq]
      rw [hp, hsame]
      simp only [Tracks, hq]
      exact ⟨⟨hfin, hstored, hack⟩, fun r hr => by cases hr⟩
    | finWait1 =>
      cases hf : pkt.fin <;> cases ha :
        pkt.ack <;> simp only [TcpSocket.handlePkt, TcpSocket.handleState, hr, hq, hf, ha]
      case true.true => exact ⟨trivial, answered (.inl hq) hf⟩
      case true.false => exact ⟨trivial, answered (.inl hq) hf⟩
      all_goals exact ⟨by simp [Tracks], fun r hr => by cases hr⟩
    | finWait2 =>
      cases hf : pkt.fin <;> simp only [TcpSocket.handlePkt, TcpSocket.handleState, hr, hq, hf]
      case true => exact ⟨trivial, answered (.inr hq) hf⟩
      case false => exact ⟨by simp [Tracks], fun r hr => by cases hr⟩
    | closing =>
      cases ha : pkt.ack <;> simp only [TcpSocket.handlePkt, TcpSocket.handleState, hr, hq, ha]
      all_goals exact ⟨by simp [Tracks], fun r hr => by cases hr⟩
    | closed =>
      simp only [TcpSocket.handlePkt, TcpSocket.handleState, hr, hq]
      exact ⟨by simp [Tracks], fun r hr => by cases hr⟩
    | listen | synSent | synRecv =>
      simp only [Tracks, hq] at ht

/-- A connection that still sends with its own `ack` sends the bound. -/
theorem Tracks.ack_eq (ht : c.Tracks s) (hq : s.state = .established ∨ s.state = .closeWait) : s.ack = c.bound := by
  obtain hq | hq := hq
  · simp only [Tracks, hq] at ht
    obtain ⟨hfin, hstored, hack⟩ := ht
    rw [hack, bound_of_open hfin, hstored]
  · simp only [Tracks, hq] at ht
    obtain ⟨hfin, hstored, hack⟩ := ht
    rw [hack, bound_of_fin hfin hstored]

theorem heard_segment {st' : NetworkStack} {src : IpAddr}
    (hf : c.st.findTcpSocket pkt.dstPort pkt.srcPort = some c.slot)
    (hs : c.st.tcpSockets c.slot = some s) (hs' : st'.tcpSockets c.slot = some (s.handlePkt pkt src).1) :
    c.heard (.segment src pkt) st' = c.afterSegment s pkt := by
  have hc : c.st.concerns c.slot (.segment src pkt) = true := by simp [NetworkStack.concerns, hf]
  have hacc : c.st.accepted c.slot (.segment src pkt) st' =
      if s.state = .established ∧ !pkt.rst ∧ !pkt.fin then pkt.payload.take (MAX_TCP_PAYLOAD - s.recvLen)
        else [] := by
    have happ := append_accepted hs hs'
    rw [TcpSocket.handlePkt_pending] at happ
    by_cases hstores : s.state = .established ∧ !pkt.rst ∧ !pkt.fin
    · rw [if_pos hstores] at happ ⊢
      exact List.append_cancel_left happ
    · rw [if_neg hstores] at happ ⊢
      exact List.append_cancel_left (happ.trans (List.append_nil _).symm)
  simp only [heard, hc, if_true, hacc]
  rfl

/-- The bound moves with the peer's stream alone. -/
theorem heard_elsewhere {op : NetOp} {st' : NetworkStack} (hc : c.st.concerns c.slot op = false ∨
      ∀ src pkt, op ≠ .segment src pkt) :
    c.heard op st' = c := by
  cases op with
  | segment src pkt =>
    obtain hc | hc := hc
    · simp only [heard, hc, Bool.false_eq_true, if_false]
    · exact absurd rfl (hc src pkt)
  | _ => rfl

/-- The connection is there, follows the peer's stream and has acknowledged nothing beyond it. -/
def Sound (c : Inbound) : Prop :=
  c.slot < MAX_SOCKETS ∧ (∃ s, c.st.tcpSockets c.slot = some s ∧ c.Tracks s) ∧ c.Covered

theorem step_sound {op : NetOp} (hc : c.Sound) (hop : c.InOrder op ∧ c.Fits op) (h : c.step op = .ok c') :
    c'.Sound := by
  obtain ⟨hi, ⟨s, hs, ht⟩, hcov⟩ := hc
  obtain ⟨st', hst, h⟩ := bind_eq_ok.mp h
  cases h
  obtain ⟨hi', s', hs', heff⟩ := step_effect hi hs hst
  -- what is left: the new socket and the new acknowledgements
  suffices hgoal : (c.heard op st').Tracks s' ∧
      ∀ tx ∈ c.st.sentBy c.slot op st', ∀ a, tx.ackNo = some a → NotBeyond a (c.heard op st').bound by
    refine ⟨hi', ⟨s', hs', hgoal.1⟩, fun p hp => ?_⟩
    obtain hp | hp := List.mem_append.mp hp
    · obtain ⟨a, ha, rfl⟩ := List.mem_map.mp hp
      obtain ⟨tx, htx, ha⟩ := List.mem_filterMap.mp ha
      exact hgoal.2 tx htx a ha
    · exact hcov p hp
  generalize c.st.sentBy c.slot op st' = txs at heff ⊢
  have own : ∀ {tx : Tx}, s.state = .established ∨ s.state = .closeWait → tx.ackNo = some s.ack →
      ∀ tx' ∈ [tx], ∀ a, tx'.ackNo = some a → NotBeyond a c.bound := by
    intro tx hq htx tx' hmem a ha
    cases List.mem_singleton.mp hmem
    cases htx.symm.trans ha
    rw [ht.ack_eq hq]
    exact notBeyond_self _
  cases heff with
  | elsewhere hno =>
    rw [heard_elsewhere (.inl hno)]
    exact ⟨ht, fun _ h => by cases h⟩
  | @segment src pkt hf =>
    have hcon : c.st.concerns c.slot (.segment src pkt) = true := by simp [NetworkStack.concerns, hf]
    rw [heard_segment hf hs hs']
    obtain ⟨htracks, hack⟩ := tracks_segment ht src (hop.1 hcon) fun hr => hop.2 hcon hr s hs
    refine ⟨htracks, fun tx htx a ha => ?_⟩
    obtain ⟨r, hr, rfl⟩ := List.mem_map.mp htx
    cases ha
    exact hack r (Option.mem_toList.mp hr)
  | sendErr | recvErr | closeErr =>
    rw [heard_elsewhere (.inr fun _ _ => by simp)]
    exact ⟨ht, fun _ h => by cases h⟩
  | send he =>
    rw [heard_elsewhere (.inr fun _ _ => by simp)]
    exact ⟨ht, own (.inl he) rfl⟩
  | recv =>
    rw [heard_elsewhere (.inr fun _ _ => by simp)]
    exact ⟨ht, fun _ h => by cases h⟩
  | close he =>
    rw [heard_elsewhere (.inr fun _ _ => by simp)]
    exact ⟨trivial, own he rfl⟩

end Inbound

/-- In every run in which the peer sends in order and every payload fits, no acknowledgement number that the
connection sends is beyond what it has stored. -/
theorem acks_covered (st : NetworkStack) (i : Nat) (s : TcpSocket) (hi : i < MAX_SOCKETS)
    (hs : st.tcpSockets i = some s) (he : s.state = .established) (ops : List NetOp)
    (hord : AllSteps Inbound.step Inbound.InOrder (Inbound.start st i s) ops)
    (hfit : AllSteps Inbound.step Inbound.Fits (Inbound.start st i s) ops) :
    Always Inbound.step Inbound.Covered (Inbound.start st i s) ops := by
  have hstart : (Inbound.start st i s).Sound := by
    refine ⟨hi, ⟨s, hs, ?_⟩, fun _ h => by cases h⟩
    simp only [Inbound.Tracks, he]
    exact ⟨rfl, rfl, (UInt32.add_zero _).symm⟩
  exact (AllSteps.always (fun c op c' hc hop h => Inbound.step_sound hc hop h) hstart (hord.and hfit)).mono
    fun _ h => h.2.2

theorem acks_covered_two : Always Inbound.step Inbound.Covered (Inbound.start oneConnection 0 connected)
    [.segment peerIp (peerSegment 100 TCP_ACK [1, 2]),
      .segment peerIp (peerSegment 102 (TCP_FIN ||| TCP_ACK) [])] := by
  refine acks_covered oneConnection 0 connected (by decide) rfl rfl _ ?_ ?_
  · rintro c₁ ⟨⟩
    refine ⟨fun _ => rfl, ?_⟩
    rintro c₂ ⟨⟩
    exact ⟨fun _ => rfl, trivial⟩
  · rintro c₁ ⟨⟩
    refine ⟨?_, ?_⟩
    · rintro _ _ s ⟨⟩
      decide
    · rintro c₂ ⟨⟩
      refine ⟨?_, trivial⟩
      rintro _ _ s ⟨⟩
      decide

/-- A byte that comes with the FIN is dropped and acknowledged. -/
theorem acks_dropped_byte : ¬ ∀ (st : NetworkStack) (i : Nat) (s : TcpSocket) (ops : List NetOp), i < MAX_SOCKETS →
    st.tcpSockets i = some s → s.state = .established →
    AllSteps Inbound.step Inbound.InOrder (Inbound.start st i s) ops →
    Always Inbound.step Inbound.Covered (Inbound.start st i s) ops := by
  intro hall
  have hord : AllSteps Inbound.step Inbound.InOrder (Inbound.start oneConnection 0 connected)
      [.segment peerIp (peerSegment 100 (TCP_FIN ||| TCP_ACK) [1])] := fun _ _ => ⟨fun _ => rfl, trivial⟩
  have hcov := (hall oneConnection 0 connected _ (by decide) rfl rfl hord).last rfl
  have hack : NotBeyond 101 100 := hcov (101, 100) (List.mem_singleton.mpr rfl)
  revert hack
  unfold NotBeyond
  decide

end WasmOs.Net
