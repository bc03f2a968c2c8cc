import WasmOs.NetStack

/-!
# One connection

A connection is a socket in some slot of the table; `tcp_accept` moves it to another slot. `Effect` lists
everything that an operation of the stack can do to it, with the segments that it sends.
-/

namespace WasmOs.Net

namespace NetworkStack

/-- The slot of a connection in slot `i` after an operation. -/
def follow (st : NetworkStack) (i : Nat) : NetOp → Nat
  | .accept j =>
    if j = i then
      match st.tcpAccept i with
      | .ok (_, some free) => free
      | _ => i
    else i
  | _ => i

/-- The operation is about the socket in slot `i`. -/
def concerns (st : NetworkStack) (i : Nat) : NetOp → Bool
  | .segment _ pkt => st.findTcpSocket pkt.dstPort pkt.srcPort == some i
  | .send j _ | .recv j _ | .close j => j == i
  | _ => false

/-- Slot `i` of the table holds a socket. -/
def Holds (st : NetworkStack) (i : Nat) : Prop := i < MAX_SOCKETS ∧ ∃ s, st.tcpSockets i = some s

/-- What the socket in slot `i` hands down in a step from `st` to `st'`. -/
def sentBy (st : NetworkStack) (i : Nat) (op : NetOp) (st' : NetworkStack) : List Tx :=
  if st.concerns i op then st'.net.drop st.net.length else []

/-- What a `tcp_recv` of slot `i` returns. -/
def returned (st : NetworkStack) (i : Nat) : NetOp → List UInt8
  | .recv j cap =>
    if j = i then
      match st.tcpRecv i cap with
      | .ok (_, bytes) => bytes
      | .error _ => []
    else []
  | _ => []

end NetworkStack

def TcpReply.tx (r : TcpReply) (s : TcpSocket) :
    Tx := .tcpSeg s.localPort s.remotePort s.remoteIp r.seq r.ack r.flags []

/-- What an operation does to the socket `s` in slot `i`, and what this socket sends. -/
inductive Effect (st : NetworkStack) (i : Nat) (s : TcpSocket) : NetOp → TcpSocket → List Tx → Prop
  | elsewhere {op : NetOp} (h : st.concerns i op = false) : Effect st i s op s []
  | segment {src : IpAddr} {pkt : TcpPacket} (hf : st.findTcpSocket pkt.dstPort pkt.srcPort = some i) :
      Effect st i s (.segment src pkt) (s.handlePkt pkt src).1
        ((s.handlePkt pkt src).2.toList.map (·.tx (s.handlePkt pkt src).1))
  | sendErr {data : List UInt8} (he : s.state ≠ .established) : Effect st i s (.send i data) s []
  | send {data : List UInt8} (he : s.state = .established) :
      Effect st i s (.send i data) { s with seq := s.seq + UInt32.ofNat (min data.length MAX_TCP_PAYLOAD) }
        [.tcpSeg s.localPort s.remotePort s.remoteIp s.seq s.ack (TCP_PSH ||| TCP_ACK)
          (data.take (min data.length MAX_TCP_PAYLOAD))]
  | recvErr {cap : Nat} (hz : s.recvLen = 0) : Effect st i s (.recv i cap) s []
  | recv {cap : Nat} (hz : s.recvLen ≠ 0) :
      Effect st i s (.recv i cap) { s with recvLen := 0, recvLen_le := Nat.zero_le _ } []
  | closeErr (he : s.state ≠ .established ∧ s.state ≠ .closeWait) : Effect st i s (.close i) s []
  | close (he : s.state = .established ∨ s.state = .closeWait) :
      Effect st i s (.close i) { s with state := .finWait1 }
        [.tcpSeg s.localPort s.remotePort s.remoteIp s.seq s.ack (TCP_FIN ||| TCP_ACK) []]

section
variable {st st' : NetworkStack} {i : Nat} {s : TcpSocket} {op : NetOp}

theorem sentBy_of_not_concerns (h : st.concerns i op = false) : st.sentBy i op st' = [] := by
  unfold NetworkStack.sentBy
  rw [h]
  rfl

theorem sentBy_of_append {txs : List Tx} (h : st.concerns i op = true) (hnet : st'.net = st.net ++ txs) :
    st.sentBy i op st' = txs := by
  unfold NetworkStack.sentBy
  rw [h, if_pos rfl, hnet, List.drop_left]

theorem handleTcp_effect (hs : st.tcpSockets i = some s) {src : IpAddr} {pkt : TcpPacket}
    (h : st.handleTcp src pkt = .ok st') :
    ∃ s', st'.tcpSockets i = some s' ∧
    Effect st i s (.segment src pkt) s' (st.sentBy i (.segment src pkt) st') := by
  by_cases hf : st.findTcpSocket pkt.dstPort pkt.srcPort = some i
  · have hnet : st'.net = st.net ++ (s.handlePkt pkt src).2.toList.map (·.tx (s.handlePkt pkt src).1) := by
      simp only [NetworkStack.handleTcp, hf, hs] at h
      split at h
      · rename_i hr
        cases h
        simp [NetworkStack.setSocket, hr]
      · rename_i r hr
        cases h
        simp [NetworkStack.setSocket, NetworkStack.send, TcpReply.tx, hr]
    refine ⟨(s.handlePkt pkt src).1, ?_, ?_⟩
    · rw [NetworkStack.handleTcp_some hf hs h, upd_self]
    · rw [sentBy_of_append (by simp [NetworkStack.concerns, hf]) hnet]
      exact .segment hf
  · have hc : st.concerns i (.segment src pkt) = false := by simpa [NetworkStack.concerns] using hf
    refine ⟨s, ?_, ?_⟩
    · rw [NetworkStack.handleTcp_other hf h, hs]
    · rw [sentBy_of_not_concerns hc]
      exact .elsewhere hc

theorem Effect.of_err (hc : st.concerns i op = true) (hs : st.tcpSockets i = some s) (he : Effect st i s op s []) :
    ∃ s', st.tcpSockets i = some s' ∧ Effect st i s op s' (st.sentBy i op st) := by
  refine ⟨s, hs, ?_⟩
  rw [sentBy_of_append hc (List.append_nil _).symm]
  exact he

theorem tcpSend_eq (hi : i < MAX_SOCKETS) (hs : st.tcpSockets i = some s) (data : List UInt8) :
    st.tcpSend i data = if s.state ≠ .established then .error (.err ())
      else .ok ((st.send (.tcpSeg s.localPort s.remotePort s.remoteIp s.seq s.ack (TCP_PSH ||| TCP_ACK)
          (data.take (min data.length MAX_TCP_PAYLOAD)))).setSocket i
          { s with seq := s.seq + UInt32.ofNat (min data.length MAX_TCP_PAYLOAD) },
          min data.length MAX_TCP_PAYLOAD) := by
  unfold NetworkStack.tcpSend NetworkStack.socket
  rw [if_pos hi, hs]
  rfl

theorem tcpRecv_eq (hi : i < MAX_SOCKETS) (hs : st.tcpSockets i = some s) (cap : Nat) :
    st.tcpRecv i cap = if s.recvLen = 0 then .error (.err ())
      else .ok (st.setSocket i { s with recvLen := 0, recvLen_le := Nat.zero_le _ },
        slice s.recvBuf 0 (min s.recvLen cap)) := by
  unfold NetworkStack.tcpRecv NetworkStack.socket TcpSocket.recv
  rw [if_pos hi, hs]
  simp only [bind, Except.bind]
  by_cases hz : s.recvLen = 0
  · rw [if_pos hz, if_pos hz]
  · rw [if_neg hz, if_neg hz]

theorem tcpClose_eq (hi : i < MAX_SOCKETS) (hs : st.tcpSockets i = some s) :
    st.tcpClose i = if s.state = .established ∨ s.state = .closeWait then
        .ok ((st.setSocket i { s with state := .finWait1 }).send
          (.tcpSeg s.localPort s.remotePort s.remoteIp s.seq s.ack (TCP_FIN ||| TCP_ACK) []))
      else .error (.err ()) := by
  unfold NetworkStack.tcpClose NetworkStack.socket
  rw [if_pos hi, hs]
  cases hq : s.state <;> simp [bind, Except.bind, hq]

/-- The one operation that moves a connection: what it was in the old slot it is in the new one. -/
theorem tcpAccept_follow (hi : i < MAX_SOCKETS) (hs : st.tcpSockets i = some s) {j : Nat} {o : Option Nat}
    (h : st.tcpAccept j = .ok (st', o)) :
    st.follow i (.accept j) < MAX_SOCKETS ∧ st'.tcpSockets (st.follow i (.accept j)) = some s := by
  have hfollow : st.follow i (.accept j) = if j = i then o.getD i else i := by
    by_cases hj : j = i
    · subst hj
      simp only [NetworkStack.follow, h, if_pos]
      cases o <;> rfl
    · simp only [NetworkStack.follow, if_neg hj]
  rw [hfollow]
  unfold NetworkStack.tcpAccept at h
  obtain ⟨slot, hslot, h⟩ := bind_eq_ok.mp h
  obtain ⟨-, rfl⟩ := NetworkStack.socket_eq_ok hslot
  have kept : o = none → st' = st → (if j = i then o.getD i else i) < MAX_SOCKETS ∧
      st'.tcpSockets (if j = i then o.getD i else i) = some s := by
    rintro rfl rfl
    simp only [Option.getD_none, ite_self]
    exact ⟨hi, hs⟩
  split at h
  · cases h
    exact kept rfl rfl
  · rename_i t ht
    split at h
    · cases h
      exact kept rfl rfl
    · split at h
      · cases h
        exact kept rfl rfl
      · rename_i free hf
        cases h
        have hfi : i ≠ free := free_ne hs hf
        have hfj : j ≠ free := free_ne ht hf
        by_cases hj : j = i
        · subst hj
          cases hs.symm.trans ht
          rw [if_pos rfl]
          refine ⟨(NetworkStack.position_eq_some hf).1, ?_⟩
          show upd (upd _ _ _) _ _ free = _
          rw [upd_of_ne _ _ hfj.symm, upd_self]
        · rw [if_neg hj]
          refine ⟨hi, ?_⟩
          show upd (upd _ _ _) _ _ i = _
          rw [upd_of_ne _ _ (Ne.symm hj), upd_of_ne _ _ hfi, hs]

theorem step_other (hs : st.tcpSockets i = some s) (hc : st.concerns i op = false) (hacc : op ≠ .accept i)
    (h : st.step op = .ok st') :
    st'.tcpSockets i = some s := by
  have other : ∀ {j : Nat} {t : Option TcpSocket} (slots : Nat → Option TcpSocket), j ≠ i → slots i = some s →
      upd slots j t i = some s :=
    fun _ hj hi => (upd_of_ne _ _ (Ne.symm hj)).trans hi
  have hne : ∀ {j : Nat}, (j == i) = false → j ≠ i := fun h => beq_eq_false_iff_ne.mp h
  have hslots := step_slots h
  generalize st'.tcpSockets = slots at hslots ⊢
  cases hslots with
  | segment hf _ =>
    refine other _ (fun hj => ?_) hs
    simp [NetworkStack.concerns, hf, hj] at hc
  | listen hf => exact other _ (free_ne hs hf).symm hs
  | connect hf => exact other _ (free_ne hs hf).symm hs
  | send => exact other _ (hne hc) hs
  | recv => exact other _ (hne hc) hs
  | @accept j free t hf ht =>
    have hj : j ≠ i := fun e => hacc (by rw [e])
    exact other _ hj (other _ (free_ne hs hf).symm hs)
  | close => exact other _ (hne hc) hs
  | _ => exact hs

theorem calls_effect (hi : i < MAX_SOCKETS) (hs : st.tcpSockets i = some s) (hc : st.concerns i op = true)
    (h : st.step op = .ok st') : ∃ s', st'.tcpSockets i = some s' ∧ Effect st i s op s' (st.sentBy i op st') := by
  cases op with
  | segment src pkt => exact handleTcp_effect hs h
  | send j data =>
    obtain rfl : j = i := beq_iff_eq.mp hc
    simp only [NetworkStack.step] at h
    rw [tcpSend_eq hi hs] at h
    by_cases he : s.state ≠ .established
    · rw [if_pos he] at h
      cases h
      exact Effect.of_err hc hs (.sendErr he)
    · rw [if_neg he] at h
      cases h
      refine ⟨_, upd_self _ _ _, ?_⟩
      rw [sentBy_of_append hc rfl]
      exact .send (not_not.mp he)
  | recv j cap =>
    obtain rfl : j = i := beq_iff_eq.mp hc
    simp only [NetworkStack.step] at h
    rw [tcpRecv_eq hi hs] at h
    by_cases hz : s.recvLen = 0
    · rw [if_pos hz] at h
      cases h
      exact Effect.of_err hc hs (.recvErr hz)
    · rw [if_neg hz] at h
      cases h
      refine ⟨_, upd_self _ _ _, ?_⟩
      have hsent : ∀ t, st.sentBy j (.recv j cap) (st.setSocket j t) = [] :=
        fun _ => sentBy_of_append hc (List.append_nil _).symm
      rw [hsent]
      exact .recv hz
  | close j =>
    obtain rfl : j = i := beq_iff_eq.mp hc
    simp only [NetworkStack.step] at h
    rw [tcpClose_eq hi hs] at h
    by_cases he : s.state = .established ∨ s.state = .closeWait
    · rw [if_pos he] at h
      cases h
      refine ⟨_, upd_self _ _ _, ?_⟩
      rw [sentBy_of_append hc rfl]
      exact .close he
    · rw [if_neg he] at h
      cases h
      exact Effect.of_err hc hs (.closeErr (not_or.mp he))
  | listen | connect | accept => cases hc

theorem step_effect (hi : i < MAX_SOCKETS) (hs : st.tcpSockets i = some s) (h : st.step op = .ok st') :
    st.follow i op < MAX_SOCKETS ∧ ∃ s', st'.tcpSockets (st.follow i op) = some s' ∧
    Effect st i s op s' (st.sentBy i op st') := by
  cases hc : st.concerns i op with
  | true =>
    have hfollow : st.follow i op = i := by
      cases op with
      | accept => cases hc
      | _ => rfl
    rw [hfollow]
    exact ⟨hi, calls_effect hi hs hc h⟩
  | false =>
    have hkept : st.follow i op < MAX_SOCKETS ∧ st'.tcpSockets (st.follow i op) = some s := by
      cases op with
      | accept j =>
        obtain ⟨o, h⟩ := map_fst_ok h
        exact tcpAccept_follow hi hs h
      | _ => exact ⟨hi, step_other hs hc (by simp) h⟩
    refine ⟨hkept.1, s, hkept.2, ?_⟩
    rw [sentBy_of_not_concerns hc]
    exact .elsewhere hc

theorem NetworkStack.Holds.step (hh : st.Holds i) (h : st.step op = .ok st') : st'.Holds (st.follow i op) := by
  obtain ⟨hi, s, hs⟩ := hh
  obtain ⟨hi', s', hs', _⟩ := step_effect hi hs h
  exact ⟨hi', s', hs'⟩

end

end WasmOs.Net
