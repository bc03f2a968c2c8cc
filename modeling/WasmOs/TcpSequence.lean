import WasmOs.TcpConn
import WasmOs.TcpDelivery

/-!
# The numbers of what a connection sends

A passively opened connection numbers its SYN with the listener's `seq`. From there on `seq` moves in two
places, past the SYN when the handshake is complete and past the data in `tcp_send`, and everything that
is sent carries it.
-/

namespace WasmOs.Net

open Runs

/-- A segment that was sent, with the result of the `tcp_send` that sent it. -/
structure Sent where
  seq : UInt32
  flags : UInt8
  payload : List UInt8
  result : Option Nat
  deriving DecidableEq, Repr

/-- How many numbers of data the segment uses up, by the count that the caller was given. -/
def Sent.used (x : Sent) : Nat := x.result.getD 0

/-- The segments of a connection whose SYN has the number `isn`: each but the answer to the peer's SYN starts at
`next`, the first number not yet used, and holds as many bytes as its sender was told. -/
def Contiguous (isn next : UInt32) : List Sent → Prop
  | [] => True
  | x :: xs =>
    x.seq = (if x.flags = TCP_SYN ||| TCP_ACK then isn else next) ∧ x.payload.length = x.used ∧
      Contiguous isn (next + UInt32.ofNat x.used) xs

/-- A connection with what it has sent until its own FIN, in order. -/
structure Outbound where
  st : NetworkStack
  slot : Nat
  sent : List Sent
  fin : Bool

/-- The value a successful `tcp_send` on slot `i` returns. -/
def NetworkStack.sendResult (st : NetworkStack) (i : Nat) : NetOp → Option Nat
  | .send j data =>
    if j = i then
      match st.tcpSend i data with
      | .ok (_, n) => some n
      | .error _ => none
    else none
  | _ => none

def Tx.sent (result : Option Nat) : Tx → Option Sent
  | .tcpSeg _ _ _ seq _ flags payload => some ⟨seq, flags, payload, result⟩
  | .arpRequest _ => none

namespace Outbound

def start (st : NetworkStack) (i : Nat) : Outbound := ⟨st, i, [], false⟩

def step (c : Outbound) (op : NetOp) : Rust Unit Outbound := do
  let st ← c.st.step op
  let new := (c.st.sentBy c.slot op st).filterMap (Tx.sent (c.st.sendResult c.slot op))
  .ok ⟨st, c.st.follow c.slot op, c.sent ++ (if c.fin then [] else new),
    c.fin || new.any fun x => x.flags == TCP_FIN ||| TCP_ACK⟩

def used (c : Outbound) : Nat := (c.sent.map Sent.used).sum

end Outbound

theorem contiguous_append (isn : UInt32) (ys : List Sent) : ∀ (next : UInt32) (xs : List Sent),
    Contiguous isn next (xs ++ ys) ↔
      Contiguous isn next xs ∧ Contiguous isn (next + UInt32.ofNat (xs.map Sent.used).sum) ys
  | next, [] => by
    simp [Contiguous]
  | next, x :: xs => by
    have hsum : next + UInt32.ofNat x.used + UInt32.ofNat (xs.map Sent.used).sum =
        next + UInt32.ofNat (x.used + (xs.map Sent.used).sum) := by
      rw [UInt32.ofNat_add, UInt32.add_assoc]
    simp only [List.cons_append, Contiguous, contiguous_append isn ys _ xs, List.map_cons, List.sum_cons,
      hsum, and_assoc]

/-! ## Where `seq` stands -/

/-- Until its own FIN the socket's `seq` is the first number not yet used, `n` bytes of data after the SYN. -/
def TcpSocket.Placed (s : TcpSocket) (isn : UInt32) (n : Nat) : Prop :=
  match s.state with
  | .listen | .synRecv => s.seq = isn ∧ n = 0
  | .established | .closeWait => s.seq = isn + 1 + UInt32.ofNat n
  | .closed => True
  | .synSent | .finWait1 | .finWait2 | .closing => False

def TcpReply.InPlace (r : TcpReply) (isn : UInt32) (n : Nat) : Prop :=
  r.flags = TCP_SYN ||| TCP_ACK ∧ r.seq = isn ∨ r.flags = TCP_ACK ∧ r.seq = isn + 1 + UInt32.ofNat n

theorem TcpSocket.Placed.handlePkt {s : TcpSocket} {isn : UInt32} {n : Nat} (h : s.Placed isn n)
    (pkt : TcpPacket) (src : IpAddr) :
    (s.handlePkt pkt src).1.Placed isn n ∧ ∀ r ∈ (s.handlePkt pkt src).2, r.InPlace isn n := by
  have silent : ∀ r ∈ (none : Option TcpReply), r.InPlace isn n := fun r hr => by cases hr
  by_cases hstay : s.state.next pkt = s.state
  · by_cases hp : s.state = .established → pkt.payload = []
    · rw [handlePkt_of_next src hstay hp]
      exact ⟨h, silent⟩
    · push Not at hp
      have hseq : s.seq = isn + 1 + UInt32.ofNat n := by simpa only [Placed, hp.1] using h
      rw [handlePkt_data src hstay hp.1 hp.2]
      refine ⟨by simpa only [Placed, store, hp.1] using hseq, ?_⟩
      rintro r ⟨⟩
      exact .inr ⟨rfl, hseq⟩
  · unfold TcpSocket.handlePkt
    cases hr : pkt.rst with
    | true => exact ⟨trivial, silent⟩
    | false =>
      unfold TcpSocket.handleState
      cases hq : s.state with
      | listen =>
        have hsyn : (pkt.syn && !pkt.ack) = true := by
          by_contra hsyn
          simp [TcpState.next, hr, hq, hsyn] at hstay
        simp only [Placed, hq] at h
        simp only [hsyn, if_true]
        refine ⟨h, ?_⟩
        rintro r ⟨⟩
        exact .inl ⟨rfl, h.1⟩
      | synRecv =>
        have hack : pkt.ack = true := by
          by_contra hack
          simp [TcpState.next, hr, hq, hack] at hstay
        simp only [Placed, hq] at h
        simp only [hack, if_true]
        refine ⟨?_, silent⟩
        show s.seq + 1 = _
        rw [h.1, h.2]
        exact (UInt32.add_zero _).symm
      | established =>
        have hfin : pkt.fin = true := by
          by_contra hfin
          simp [TcpState.next, hr, hq, hfin] at hstay
        simp only [Placed, hq] at h
        simp only [hfin, if_true]
        refine ⟨h, ?_⟩
        rintro r ⟨⟩
        exact .inr ⟨rfl, h⟩
      | closeWait | closed =>
        refine absurd ?_ hstay
        simp [TcpState.next, hr, hq]
      | synSent | finWait1 | finWait2 | closing => simp only [Placed, hq] at h

/-! ## Runs -/

namespace Outbound

variable {c c' : Outbound} {s : TcpSocket} {isn : UInt32} {op : NetOp}

/-- The connection is there, its `seq` is in place until the FIN, and what was sent is contiguous. -/
def Sound (isn : UInt32) (c : Outbound) : Prop :=
  c.slot < MAX_SOCKETS ∧ (∃ s, c.st.tcpSockets c.slot = some s ∧ (c.fin = false → s.Placed isn c.used)) ∧
    Contiguous isn (isn + 1) c.sent

theorem sendResult_of_send (hi : c.slot < MAX_SOCKETS) (hs : c.st.tcpSockets c.slot = some s)
    (he : s.state = .established)
    (data : List UInt8) : c.st.sendResult c.slot (.send c.slot data) = some (min data.length MAX_TCP_PAYLOAD) := by
  have hnot : ¬ s.state ≠ .established := not_not.mpr he
  simp only [NetworkStack.sendResult, tcpSend_eq hi hs, if_true, if_neg hnot]

/-- The segments of one step, before the FIN, extend what was sent. -/
def Extends (isn : UInt32) (n : Nat) (new : List Sent) (s' : TcpSocket) : Prop :=
  Contiguous isn (isn + 1 + UInt32.ofNat n) new ∧
    ((new.any fun x => x.flags == TCP_FIN ||| TCP_ACK) = false → s'.Placed isn (n + (new.map Sent.used).sum))

theorem extends_nil {n : Nat} (h : s.Placed isn n) : Extends isn n [] s := ⟨trivial, fun _ => h⟩

theorem extends_singleton {n : Nat} {x : Sent} (hseq : x.seq = if x.flags = TCP_SYN ||| TCP_ACK then isn else
      isn + 1 + UInt32.ofNat n)
    (hlen : x.payload.length = x.used) (hs : x.flags ≠ TCP_FIN ||| TCP_ACK → s.Placed isn (n + x.used)) :
    Extends isn n [x] s := by
  refine ⟨⟨hseq, hlen, trivial⟩, fun hfin => ?_⟩
  have hfin : x.flags ≠ TCP_FIN ||| TCP_ACK := by simpa using hfin
  simpa using hs hfin

theorem effect_extends {txs : List Tx} {s' : TcpSocket} (hi : c.slot < MAX_SOCKETS)
    (hs : c.st.tcpSockets c.slot = some s)
    (hp : s.Placed isn c.used) (heff : Effect c.st c.slot s op s' txs) :
    Extends isn c.used (txs.filterMap (Tx.sent (c.st.sendResult c.slot op))) s' := by
  cases heff with
  | elsewhere => exact extends_nil hp
  | @segment src pkt hf =>
    obtain ⟨hp', hreply⟩ := hp.handlePkt pkt src
    cases hr : (s.handlePkt pkt src).2 with
    | none => exact extends_nil hp'
    | some r =>
      refine extends_singleton ?_ rfl fun _ => hp'
      obtain ⟨hflags, hseq⟩ | ⟨hflags, hseq⟩ := hreply r hr
      · show r.seq = if r.flags = _ then _ else _
        rw [if_pos hflags, hseq]
      · show r.seq = if r.flags = _ then _ else _
        rw [if_neg (by rw [hflags]; decide), hseq]
  | sendErr | recvErr | closeErr | recv => exact extends_nil hp
  | @send data he =>
    have hseq : s.seq = isn + 1 + UInt32.ofNat c.used := by simpa only [TcpSocket.Placed, he] using hp
    rw [sendResult_of_send hi hs he]
    refine extends_singleton hseq ?_ fun _ => ?_
    · show (data.take _).length = _
      rw [List.length_take, Nat.min_eq_left (Nat.min_le_left _ _)]
      rfl
    · simp only [TcpSocket.Placed, he]
      rw [hseq, UInt32.ofNat_add, UInt32.add_assoc]
      rfl
  | close he =>
    have hseq : s.seq = isn + 1 + UInt32.ofNat c.used := by
      obtain he | he := he <;> simpa only [TcpSocket.Placed, he] using hp
    exact extends_singleton hseq rfl fun h => absurd rfl h

theorem step_sound (hc : c.Sound isn) (h : c.step op = .ok c') : c'.Sound isn := by
  obtain ⟨hi, ⟨s, hs, hp⟩, hcont⟩ := hc
  obtain ⟨st', hst, h⟩ := bind_eq_ok.mp h
  cases h
  obtain ⟨hi', s', hs', heff⟩ := step_effect hi hs hst
  cases hfin : c.fin with
  | true => exact ⟨hi', ⟨s', hs', fun h => by cases h⟩, by simpa using hcont⟩
  | false =>
    obtain ⟨hnew, hplaced⟩ := effect_extends hi hs (hp hfin) heff
    refine ⟨hi', ⟨s', hs', fun h => ?_⟩, (contiguous_append _ _ _ _).mpr ⟨hcont, hnew⟩⟩
    rw [Bool.false_or] at h
    have hused := hplaced h
    unfold used at hused ⊢
    simp only [Bool.false_eq_true, if_false]
    rw [List.map_append, List.sum_append]
    exact hused

/-- A successful `tcp_send` records one segment, with the count it returns and so many of the bytes. -/
def Records (c : Outbound) : Prop :=
  ∀ data n c', c.fin = false → c.st.sendResult c.slot (.send c.slot data) = some n →
    step c (.send c.slot data) = .ok c' → ∃ x, c'.sent = c.sent ++ [x] ∧ x.result = some n ∧ x.payload = data.take n

theorem Sound.records (h : c.Sound isn) : c.Records := by
  obtain ⟨hi, ⟨s, hs, -⟩, -⟩ := h
  intro data n c' hfin hn hstep
  by_cases he : s.state = .established
  · have hcount : min data.length MAX_TCP_PAYLOAD = n :=
      Option.some.inj ((sendResult_of_send hi hs he data).symm.trans hn)
    obtain ⟨st', hst, hc'⟩ := bind_eq_ok.mp hstep
    cases hc'
    obtain ⟨-, s', -, heff⟩ := step_effect hi hs hst
    rw [hfin, hn]
    generalize c.st.sentBy c.slot (.send c.slot data) st' = txs at heff ⊢
    cases heff with
    | elsewhere h => simp [NetworkStack.concerns] at h
    | sendErr hne => exact absurd he hne
    | send => exact ⟨_, rfl, rfl, by rw [← hcount]⟩
  · rw [NetworkStack.sendResult, if_pos rfl, tcpSend_eq hi hs, if_pos he] at hn
    cases hn

end Outbound

/-- In every run of a passively opened connection the segments it sends, up to its own FIN, use the numbers
behind its SYN one after another, and every successful send until then adds one of them. -/
theorem sequence_contiguous (st : NetworkStack) (i : Nat) (s : TcpSocket) (hi : i < MAX_SOCKETS)
    (hs : st.tcpSockets i = some s) (hl : s.state = .listen) (ops : List NetOp) :
    Always Outbound.step (fun c => Contiguous s.seq (s.seq + 1) c.sent ∧ c.Records) (Outbound.start st i) ops := by
  have hplaced : s.Placed s.seq 0 := by simp only [TcpSocket.Placed, hl, and_self]
  have hstart : (Outbound.start st i).Sound s.seq := ⟨hi, ⟨s, hs, fun _ => hplaced⟩, trivial⟩
  have hstep : ∀ c op c', c.Sound s.seq → True → Outbound.step c op = .ok c' → c'.Sound s.seq :=
    fun c op c' hc _ h => Outbound.step_sound hc h
  exact (AllSteps.always hstep hstart (allSteps_of_forall fun _ _ _ => trivial)).mono fun _ h => ⟨h.2.2, h.records⟩

/-- A client connects, is accepted in slot 1, is sent three bytes and two, and the connection is closed. -/
theorem sequence_contiguous_served : ∃ c, runAll Outbound.step (Outbound.start (NetworkStack.init.tcpListen 80).1 0)
      [.segment peerIp (peerSegment 99 TCP_SYN []), .segment peerIp (peerSegment 100 TCP_ACK []), .accept 0,
        .send 1 [1, 2, 3], .segment peerIp (peerSegment 100 TCP_ACK [7]), .send 1 [4, 5], .close 1] = .ok c ∧
    c.sent.map (fun x => (x.seq, x.flags, x.result)) =
    [(1, TCP_SYN ||| TCP_ACK, none), (2, TCP_PSH ||| TCP_ACK, some 3),
      (5, TCP_ACK, none), (5, TCP_PSH ||| TCP_ACK, some 2), (7, TCP_FIN ||| TCP_ACK, none)] ∧
    Contiguous 1 2 c.sent := by
  have hall := sequence_contiguous (NetworkStack.init.tcpListen 80).1 0 (.listen 80) (by decide) rfl rfl
    [.segment peerIp (peerSegment 99 TCP_SYN []), .segment peerIp (peerSegment 100 TCP_ACK []), .accept 0,
      .send 1 [1, 2, 3], .segment peerIp (peerSegment 100 TCP_ACK [7]), .send 1 [4, 5], .close 1]
  exact ⟨_, rfl, by decide, (hall.last rfl).1⟩

end WasmOs.Net
