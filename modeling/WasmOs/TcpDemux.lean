import WasmOs.NetStack

/-!
# Which socket a segment reaches

`find_tcp_socket` compares the two ports and neither the remote address nor the state, so the first slot
with a segment's ports gets the segment: a connection of another host, or one that is long closed.
A segment stays with its own connection exactly when that slot is one it is addressed to, or when the
socket there does not move.
-/

namespace WasmOs.Net

/-- The socket is a live connection of the segment's sender. -/
def TcpSocket.Serves (s : TcpSocket) (src : IpAddr) (pkt : TcpPacket) : Prop :=
  s.state ≠ .closed ∧ s.state ≠ .listen ∧ s.localPort = pkt.dstPort ∧ s.remotePort = pkt.srcPort ∧ s.remoteIp = src

/-- Some slot holds a live connection of the segment's sender. -/
def Connected (st : NetworkStack) (src : IpAddr) (pkt : TcpPacket) : Prop :=
  ∃ i < MAX_SOCKETS, ∃ s, st.tcpSockets i = some s ∧ s.Serves src pkt

/-- Slot `i` is one the segment may go to: its sender's connection, and a listener if there is none. -/
def Addressee (st : NetworkStack) (src : IpAddr) (pkt : TcpPacket) (i : Nat) : Prop :=
  i < MAX_SOCKETS ∧ ∃ s, st.tcpSockets i = some s ∧
    (s.Serves src pkt ∨ (¬ Connected st src pkt ∧ s.state = .listen ∧ s.localPort = pkt.dstPort))

/-- At most an addressee changes, and without one nothing does. -/
def Isolates (st : NetworkStack) (src : IpAddr) (pkt : TcpPacket) (st' : NetworkStack) : Prop :=
  (∃ i, Addressee st src pkt i ∧ ∀ j, j ≠ i → st'.tcpSockets j = st.tcpSockets j) ∨
    ((∀ i, ¬ Addressee st src pkt i) ∧ st' = st)

/-! ## The condition -/

/-- Slot `i` is the first that has the segment's two ports. -/
def FirstWithPorts (st : NetworkStack) (pkt : TcpPacket) (i : Nat) (s : TcpSocket) : Prop :=
  i < MAX_SOCKETS ∧ st.tcpSockets i = some s ∧ s.localPort = pkt.dstPort ∧ s.remotePort = pkt.srcPort ∧
    ∀ j < i, ∀ t, st.tcpSockets j = some t → ¬ (t.localPort = pkt.dstPort ∧ t.remotePort = pkt.srcPort)

/-- The socket has noted the segment's numbers before, the flags keep its state, and an established
socket has no room for the payload and acknowledged it already. -/
def TcpSocket.Unmoved (s : TcpSocket) (pkt : TcpPacket) : Prop :=
  s.lastSeq = pkt.seq ∧ s.lastAck = pkt.ackNo ∧ s.state.next pkt = s.state ∧
    (s.state = .established → pkt.payload ≠ [] →
      s.recvLen = MAX_TCP_PAYLOAD ∧ s.ack = pkt.seq + UInt32.ofNat pkt.payload.length)

/-- The first slot with the segment's ports is an addressee; or its socket does not move and, when there
is no addressee at all, does not answer. -/
def RightSocket (st : NetworkStack) (src : IpAddr) (pkt : TcpPacket) : Prop :=
  ∀ i s, FirstWithPorts st pkt i s → Addressee st src pkt i ∨
    (s.Unmoved pkt ∧ ((∃ j, Addressee st src pkt j) ∨ (s.state = .established → pkt.payload = [])))

/-! ## When a socket does not move -/

namespace TcpSocket

variable {s : TcpSocket} {pkt : TcpPacket} (src : IpAddr)

/-- A payload that leaves the fill of the buffer as it is finds the buffer full. -/
theorem store_recvLen_eq {payload : List UInt8} (hp : payload ≠ []) :
    (s.store payload).recvLen = s.recvLen ↔ s.recvLen = MAX_TCP_PAYLOAD := by
  have hpos : 0 < payload.length := List.length_pos_iff.mpr hp
  have hle := s.recvLen_le
  unfold store
  dsimp only
  omega

theorem store_full (hfull : s.recvLen = MAX_TCP_PAYLOAD) (payload : List UInt8) : s.store payload = s := by
  have hz : min payload.length (MAX_TCP_PAYLOAD - s.recvLen) = 0 := by omega
  have hb : blit s.recvBuf s.recvLen [] = s.recvBuf := by
    funext k
    simp [blit]
  simp [store, hz, hb]

theorem handlePkt_fst_eq : (s.handlePkt pkt src).1 = s ↔ s.Unmoved pkt := by
  constructor
  · intro h
    have hq : s.state.next pkt = s.state := by rw [← handlePkt_state s pkt src, h]
    by_cases hp : s.state = .established → pkt.payload = []
    · rw [handlePkt_of_next src hq hp] at h
      refine ⟨(congrArg lastSeq h).symm, (congrArg lastAck h).symm, hq, fun he hne => absurd (hp he) hne⟩
    · push Not at hp
      obtain ⟨he, hne⟩ := hp
      rw [handlePkt_data src hq he hne] at h
      have hlen := congrArg recvLen h
      refine ⟨(congrArg lastSeq h).symm, (congrArg lastAck h).symm, hq, fun _ _ => ⟨?_, (congrArg ack h).symm⟩⟩
      exact (store_recvLen_eq hne).mp hlen
  · intro ⟨hseq, hack, hq, hdata⟩
    have hnoted : { s with lastSeq := pkt.seq, lastAck := pkt.ackNo } = s := by rw [← hseq, ← hack]
    by_cases hp : s.state = .established → pkt.payload = []
    · rw [handlePkt_of_next src hq hp, hnoted]
    · push Not at hp
      obtain ⟨he, hne⟩ := hp
      obtain ⟨hfull, ha⟩ := hdata he hne
      rw [handlePkt_data src hq he hne, hnoted, store_full hfull, ← ha]

theorem Unmoved.reply (h : s.Unmoved pkt) :
    (s.handlePkt pkt src).2 = none ↔ (s.state = .established → pkt.payload = []) := by
  constructor
  · intro hn he
    by_contra hne
    rw [handlePkt_data src h.2.2.1 he hne] at hn
    cases hn
  · intro hp
    rw [handlePkt_of_next src h.2.2.1 hp]

end TcpSocket

/-! ## Where a segment goes -/

section
variable {st : NetworkStack} {src : IpAddr} {pkt : TcpPacket}

theorem find?_range_eq_some {p : Nat → Bool} {n i : Nat} (hi : i < n) (hp : p i = true)
    (hlt : ∀ j < i, p j = false) :
    (List.range n).find? p = some i := by
  rw [List.find?_eq_some_iff_getElem]
  refine ⟨hp, i, by simpa using hi, by simp, fun j hj => ?_⟩
  simp [hlt j hj]

theorem FirstWithPorts.find {i : Nat} {s : TcpSocket} (h : FirstWithPorts st pkt i s) :
    st.findTcpSocket pkt.dstPort pkt.srcPort = some i := by
  obtain ⟨hi, hs, hl, hr, hlt⟩ := h
  have hpos : st.position (·.any fun s => s.localPort == pkt.dstPort && s.remotePort == pkt.srcPort) = some i := by
    refine find?_range_eq_some hi (by simp [hs, hl, hr]) fun j hj => ?_
    cases ht : st.tcpSockets j with
    | none => rfl
    | some t => simpa using hlt j hj t ht
  simp [NetworkStack.findTcpSocket, hpos]

/-- The slot that is found is the first with the two ports, or else there is none with them and it is a
listener on the segment's port. -/
theorem findTcpSocket_cases (src : IpAddr) {i : Nat} (h : st.findTcpSocket pkt.dstPort pkt.srcPort = some i) :
    (∃ s, FirstWithPorts st pkt i s) ∨
      ((¬ Connected st src pkt) ∧ i < MAX_SOCKETS ∧
        ∃ s, st.tcpSockets i = some s ∧ s.state = .listen ∧ s.localPort = pkt.dstPort) := by
  unfold NetworkStack.findTcpSocket at h
  split at h
  · rename_i j hj
    cases h
    left
    obtain ⟨hi, s, hs, hp⟩ := NetworkStack.position_any hj
    simp only [Bool.and_eq_true, beq_iff_eq] at hp
    refine ⟨s, hi, hs, hp.1, hp.2, fun j' hj' t ht hboth => ?_⟩
    obtain ⟨-, k, hk, hkj, hlt⟩ := List.find?_eq_some_iff_getElem.mp hj
    simp only [List.getElem_range] at hkj
    subst hkj
    have := hlt j' hj'
    simp [ht, hboth.1, hboth.2] at this
  · rename_i hnone
    right
    obtain ⟨hi, s, hs, hp⟩ := NetworkStack.position_any h
    simp only [Bool.and_eq_true, beq_iff_eq] at hp
    refine ⟨fun ⟨j, hj, t, ht, _, _, hl, hr, _⟩ => ?_, hi, s, hs, hp.2, hp.1⟩
    have := NetworkStack.position_eq_none hnone hj
    simp [ht, hl, hr] at this

theorem isolates_self : Isolates st src pkt st := by
  by_cases h : ∃ i, Addressee st src pkt i
  · obtain ⟨i, hi⟩ := h
    exact .inl ⟨i, hi, fun _ _ => rfl⟩
  · exact .inr ⟨fun i hi => h ⟨i, hi⟩, rfl⟩

theorem handleTcp_eq (src : IpAddr) {i : Nat} {s : TcpSocket}
    (hf : st.findTcpSocket pkt.dstPort pkt.srcPort = some i) (hs : st.tcpSockets i = some s) :
    ∃ net, st.handleTcp src pkt =
        .ok { st.setSocket i (s.handlePkt pkt src).1 with net := net } ∧
      (net = st.net ↔ (s.handlePkt pkt src).2 = none) := by
  simp only [NetworkStack.handleTcp, hf, hs]
  cases hr : (s.handlePkt pkt src).2 with
  | none => exact ⟨st.net, rfl, by simp⟩
  | some r => exact ⟨_, rfl, by simp [NetworkStack.setSocket]⟩

theorem setSocket_self {i : Nat} {s : TcpSocket} (hs : st.tcpSockets i = some s) : st.setSocket i s = st := by
  have : upd st.tcpSockets i (some s) = st.tcpSockets := by
    funext k
    by_cases hk : k = i
    · rw [hk, upd_self, hs]
    · exact upd_of_ne _ _ hk
  simp [NetworkStack.setSocket, this]

theorem rightSocket_of_isolates {st' : NetworkStack} (h : st.handleTcp src pkt = .ok st')
    (hiso : Isolates st src pkt st') : RightSocket st src pkt := by
  intro i s hfirst
  obtain ⟨net, hst, hnet⟩ := handleTcp_eq src hfirst.find hfirst.2.1
  rw [h] at hst
  cases hst
  by_cases ha : Addressee st src pkt i
  · exact .inl ha
  · right
    -- slot `i` is not one that may change, so its socket is the old one
    have kept : upd st.tcpSockets i (some (s.handlePkt pkt src).1) i = st.tcpSockets i → s.Unmoved pkt := by
      intro hk
      rw [upd_self, hfirst.2.1] at hk
      exact (TcpSocket.handlePkt_fst_eq src).mp (Option.some.inj hk)
    obtain ⟨j, hj, hother⟩ | ⟨hno, heq⟩ := hiso
    · exact ⟨kept (hother i fun e => ha (e ▸ hj)), .inl ⟨j, hj⟩⟩
    · have hun : s.Unmoved pkt := kept (congrFun (congrArg NetworkStack.tcpSockets heq) i)
      refine ⟨hun, .inr ((hun.reply src).mp (hnet.mp ?_))⟩
      exact congrArg NetworkStack.net heq

theorem isolates_of_rightSocket (hright : RightSocket st src pkt) :
    ∃ st', st.handleTcp src pkt = .ok st' ∧ Isolates st src pkt st' := by
  cases hf : st.findTcpSocket pkt.dstPort pkt.srcPort with
  | none => exact ⟨st, by simp [NetworkStack.handleTcp, hf], isolates_self⟩
  | some i =>
    obtain ⟨-, s, hs, -⟩ := NetworkStack.findTcpSocket_some hf
    obtain ⟨net, hst, hnet⟩ := handleTcp_eq src hf hs
    refine ⟨_, hst, ?_⟩
    have addressed : Addressee st src pkt i →
        Isolates st src pkt { st.setSocket i (s.handlePkt pkt src).1 with net := net } :=
      fun ha => .inl ⟨i, ha, fun j hj => upd_of_ne _ _ hj⟩
    obtain ⟨t, hfirst⟩ | ⟨hconn, hi, t, ht, hl⟩ := findTcpSocket_cases src hf
    · have hts : t = s := Option.some.inj (hfirst.2.1.symm.trans hs)
      subst hts
      obtain ha | ⟨hun, hans⟩ := hright i t hfirst
      · exact addressed ha
      · rw [(TcpSocket.handlePkt_fst_eq src).mpr hun, setSocket_self hs]
        obtain ⟨j, hj⟩ | hsilent := hans
        · exact .inl ⟨j, hj, fun _ _ => rfl⟩
        · rw [hnet.mpr ((hun.reply src).mpr hsilent)]
          exact isolates_self
    · exact addressed ⟨hi, t, ht, .inr ⟨hconn, hl⟩⟩

end

/-- A segment stays with its addressee exactly when it finds the right socket. -/
theorem handleTcp_isolates_iff (st : NetworkStack) (src : IpAddr) (pkt : TcpPacket) :
    (∃ st', st.handleTcp src pkt = .ok st' ∧ Isolates st src pkt st') ↔ RightSocket st src pkt := by
  constructor
  · intro ⟨st', h, hiso⟩
    exact rightSocket_of_isolates h hiso
  · intro hright
    exact isolates_of_rightSocket hright

/-- A host that never connected resets the connection of another one that uses the same source port. -/
theorem handleTcp_resets_stranger : ¬ ∀ (ops : List NetOp) (st : NetworkStack) (src : IpAddr) (pkt : TcpPacket),
    Runs.runAll NetworkStack.step NetworkStack.init ops = .ok st →
    ∃ st', st.handleTcp src pkt = .ok st' ∧ Isolates st src pkt st' := by
  intro hall
  obtain ⟨st', hst', hiso⟩ := hall
    [.listen 80, .segment ⟨10, 0, 2, 2⟩ ⟨5000, 80, 99, 0, TCP_SYN, []⟩,
      .segment ⟨10, 0, 2, 2⟩ ⟨5000, 80, 100, 2, TCP_ACK, []⟩]
    _ ⟨10, 0, 2, 77⟩ ⟨5000, 80, 0, 0, TCP_RST, []⟩ rfl
  cases hst'
  obtain ⟨i, ⟨hi, s, hs, ha⟩, hother⟩ | ⟨-, heq⟩ := hiso
  · by_cases h0 : i = 0
    · subst h0
      cases hs
      obtain ⟨-, -, -, -, hip⟩ | ⟨-, hl, -⟩ := ha
      · revert hip; decide
      · cases hl
    · have := hother 0 (Ne.symm h0)
      have hq := congrArg (Option.map TcpSocket.state) this
      revert hq; decide
  · have hq := congrArg (fun st => (NetworkStack.tcpSockets st 0).map TcpSocket.state) heq
    revert hq; decide

end WasmOs.Net
