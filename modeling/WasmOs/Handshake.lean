import WasmOs.NetStack

/-!
# Handshakes

A socket is created with an initial sequence number, 1 by `listen` and 1000 by `connect`, and learns the
peer's from the SYN it answers. The code never compares an acknowledgement number with its own initial
sequence number: whoever sends ACK establishes the connection. `Observed` runs the stack with the two
numbers of each slot written beside it.
-/

namespace WasmOs.Net

open Runs

/-- The initial sequence numbers of a slot's socket: its own, and that of the SYN it took. -/
structure Opening where
  isn : UInt32
  irs : Option UInt32
  deriving DecidableEq, Repr

/-- A SYN without ACK for a listener, and any SYN for a socket that sent its own, starts the handshake. -/
def Opening.note (o : Opening) (q : TcpState) (pkt : TcpPacket) : Opening :=
  match q with
  | .listen => if !pkt.rst && pkt.syn && !pkt.ack then { o with irs := some pkt.seq } else o
  | .synSent => if !pkt.rst && pkt.syn then { o with irs := some pkt.seq } else o
  | _ => o

structure Observed where
  st : NetworkStack
  opening : Nat → Opening

namespace Observed

def init : Observed := ⟨.init, fun _ => ⟨0, none⟩⟩

def openings (o : Observed) : NetOp → Nat → Opening
  | .segment _ pkt =>
    match o.st.findTcpSocket pkt.dstPort pkt.srcPort with
    | some i =>
      match o.st.tcpSockets i with
      | some s => upd o.opening i ((o.opening i).note s.state pkt)
      | none => o.opening
    | none => o.opening
  | .listen _ =>
    match o.st.position Option.isNone with
    | some i => upd o.opening i ⟨1, none⟩
    | none => o.opening
  | .connect _ _ =>
    match o.st.position Option.isNone with
    | some i => upd o.opening i ⟨1000, none⟩
    | none => o.opening
  | .accept i =>
    -- the connection moves to a free slot, and its old slot starts again as a listener
    match o.st.position Option.isNone, o.st.tcpSockets i with
    | some free, some s =>
      if s.state = .established then upd (upd o.opening free (o.opening i)) i ⟨1, none⟩ else o.opening
    | _, _ => o.opening
  | .send _ _ | .recv _ _ | .close _ => o.opening

def step (o : Observed) (op : NetOp) : Rust Unit Observed := do
  let st ← o.st.step op
  .ok ⟨st, o.openings op⟩

end Observed

/-- A socket that becomes established does so on a segment that acknowledges its SYN, with both counters
behind the two SYNs. -/
def SafeStep (o : Observed) (op : NetOp) : Prop :=
  ∀ o', o.step op = .ok o' → ∀ i s s', o.st.tcpSockets i = some s → o'.st.tcpSockets i = some s' →
    s.state ≠ .established → s'.state = .established →
    ∃ src pkt, op = .segment src pkt ∧ pkt.ack ∧ pkt.ackNo = (o.opening i).isn + 1 ∧ s'.seq = pkt.ackNo ∧
      ∃ q, (o'.opening i).irs = some q ∧ s'.ack = q + 1

/-- A segment with ACK that reaches a socket in `SynRecv`, or with SYN and ACK one in `SynSent`, carries
the acknowledgement of that socket's SYN. -/
def Acknowledges (o : Observed) : NetOp → Prop
  | .segment _ pkt => ∀ i s, o.st.findTcpSocket pkt.dstPort pkt.srcPort = some i → o.st.tcpSockets i = some s →
      !pkt.rst → pkt.ack → (s.state = .synRecv ∨ (s.state = .synSent ∧ pkt.syn)) →
      pkt.ackNo = (o.opening i).isn + 1
  | _ => True

/-! ## The counters before a connection is established -/

/-- Until a socket is established its `seq` is the initial one, and in `SynRecv` its `ack` is behind the
peer's SYN. -/
def TcpSocket.Fits (s : TcpSocket) (o : Opening) : Prop :=
  match s.state with
  | .listen | .synSent => s.seq = o.isn
  | .synRecv => s.seq = o.isn ∧ ∃ q, o.irs = some q ∧ s.ack = q + 1
  | _ => True

def Numbered (slots : Nat → Option TcpSocket) (opening : Nat → Opening) : Prop :=
  ∀ i s, slots i = some s → s.Fits (opening i)

theorem Numbered.upd {slots : Nat → Option TcpSocket} {opening : Nat → Opening} (h : Numbered slots opening)
    {i : Nat} {s : TcpSocket} {o : Opening} (hs : s.Fits o) :
    Numbered (upd slots i (some s)) (upd opening i o) := by
  intro j t ht
  by_cases hj : j = i
  · subst hj
    rw [upd_self] at ht ⊢
    cases ht
    exact hs
  · rw [upd_of_ne _ _ hj] at ht ⊢
    exact h j t ht

theorem Numbered.set {slots : Nat → Option TcpSocket} {opening : Nat → Opening} (h : Numbered slots opening)
    {i : Nat} {s : TcpSocket} (hs : s.Fits (opening i)) : Numbered (WasmOs.upd slots i (some s)) opening := by
  have heq : WasmOs.upd opening i (opening i) = opening := by
    funext k
    by_cases hk : k = i
    · rw [hk, upd_self]
    · exact upd_of_ne _ _ hk
  rw [← heq]
  exact h.upd hs

namespace TcpSocket

variable {s : TcpSocket} {pkt : TcpPacket} {src : IpAddr} {o : Opening}

/-- The two ways into `Established`. -/
theorem next_established (hq : s.state ≠ .established) (h : s.state.next pkt = .established) :
    pkt.rst = false ∧ pkt.ack = true ∧ (s.state = .synRecv ∨ (s.state = .synSent ∧ pkt.syn = true)) := by
  unfold TcpState.next at h
  cases hr : pkt.rst
  · cases hs : s.state <;> simp only [hr, hs, Bool.false_eq_true, if_false] at h hq ⊢
    case listen => split at h <;> cases h
    case synSent => cases hsyn : pkt.syn <;> cases hack : pkt.ack <;> simp_all
    case synRecv => cases hack : pkt.ack <;> simp_all
    case established => exact absurd rfl hq
    case finWait1 => cases hfin : pkt.fin <;> cases hack : pkt.ack <;> simp_all
    case finWait2 => split at h <;> cases h
    case closing => split at h <;> cases h
    all_goals cases h
  · simp [hr] at h

/-- A segment keeps the counters in step with the two initial sequence numbers. -/
theorem fits_handlePkt (h : s.Fits o) : (s.handlePkt pkt src).1.Fits (o.note s.state pkt) := by
  unfold Fits at h
  unfold handlePkt handleState Opening.note
  cases hr : pkt.rst
  · cases hs : s.state <;> simp only [hs] at h ⊢
    case listen => cases hsyn : pkt.syn <;> cases hack : pkt.ack <;> simp [Fits, h]
    case synSent => cases hsyn : pkt.syn <;> cases hack : pkt.ack <;> simp [Fits, h]
    case synRecv => cases hack : pkt.ack <;> simp [Fits, h]
    case established => cases hfin : pkt.fin <;> cases hp : pkt.payload.isEmpty <;> simp [Fits, store]
    case finWait1 => cases hfin : pkt.fin <;> cases hack : pkt.ack <;> simp [Fits]
    case finWait2 => cases hfin : pkt.fin <;> simp [Fits]
    case closing => cases hack : pkt.ack <;> simp [Fits]
    all_goals simp [Fits]
  · simp [Fits]

/-- Both counters on entering `Established`: on a SYN with ACK `seq` is taken from the segment, on an
ACK alone it goes up by one. -/
theorem established_counters (h : s.Fits o) (hq : s.state ≠ .established)
    (he : (s.handlePkt pkt src).1.state = .established) :
    ((s.handlePkt pkt src).1.seq = pkt.ackNo ∨ (s.handlePkt pkt src).1.seq = o.isn + 1) ∧
      ∃ q, (o.note s.state pkt).irs = some q ∧ (s.handlePkt pkt src).1.ack = q + 1 := by
  rw [handlePkt_state] at he
  obtain ⟨hr, hack, hs | ⟨hs, hsyn⟩⟩ := next_established hq he
  · simp only [Fits, hs] at h
    obtain ⟨hseq, q, hirs, ha⟩ := h
    refine ⟨.inr ?_, q, ?_, ?_⟩
    · simp [handlePkt, handleState, hr, hs, hack, hseq]
    · simp [Opening.note, hs, hirs]
    · simp [handlePkt, handleState, hr, hs, hack, ha]
  · refine ⟨.inl ?_, pkt.seq, ?_, ?_⟩
    · simp [handlePkt, handleState, hr, hs, hack, hsyn]
    · simp [Opening.note, hs, hr, hsyn]
    · simp [handlePkt, handleState, hr, hs, hack, hsyn]

end TcpSocket

/-! ## Steps -/

section
variable {o o' : Observed} {op : NetOp}

theorem Observed.step_eq_ok (h : o.step op = .ok o') : o.st.step op = .ok o'.st ∧ o'.opening = o.openings op := by
  unfold Observed.step at h
  obtain ⟨st, hst, h⟩ := bind_eq_ok.mp h
  cases h
  exact ⟨hst, rfl⟩

theorem numbered_step (h : Numbered o.st.tcpSockets o.opening) (hst : o.step op = .ok o') :
    Numbered o'.st.tcpSockets o'.opening := by
  obtain ⟨hst, hop⟩ := Observed.step_eq_ok hst
  have hslots := step_slots hst
  rw [hop]
  generalize o'.st.tcpSockets = slots at hslots
  cases hslots with
  | unmatched hf => simpa [Observed.openings, hf] using h
  | @segment src pkt i s hf hs =>
    simp only [Observed.openings, hf, hs]
    exact h.upd (TcpSocket.fits_handlePkt (h i s hs))
  | listen hf =>
    simp only [Observed.openings, hf]
    exact h.upd rfl
  | listenFull hf => simpa [Observed.openings, hf] using h
  | connect hf hs hq =>
    simp only [Observed.openings, hf]
    exact h.upd (by simp only [TcpSocket.Fits, hs, hq])
  | connectFull hf => simpa [Observed.openings, hf] using h
  | send hs he => exact h.set (by simp only [TcpSocket.Fits, he])
  | @recv i cap s hs =>
    have hfits : s.Fits (o.opening i) := h i s hs
    exact h.set hfits
  | @acceptNone i hn =>
    cases hf : o.st.position Option.isNone with
    | none => simpa [Observed.openings, hf] using h
    | some free =>
      cases hs : o.st.tcpSockets i with
      | none => simpa [Observed.openings, hf, hs] using h
      | some s =>
        have he : s.state ≠ .established := fun he => by rw [hn s hs he] at hf; cases hf
        simpa [Observed.openings, hf, hs, he] using h
  | @accept i free s hf hs he =>
    simp only [Observed.openings, hf, hs, he, if_true]
    exact (h.upd (h i s hs)).upd rfl
  | close hs he => exact h.set (by simp only [TcpSocket.Fits])
  | _ => exact h

theorem established_by_segment {st st' : NetworkStack} (hst : st.step op = .ok st') {i : Nat} {s s' : TcpSocket}
    (hs : st.tcpSockets i = some s) (hs' : st'.tcpSockets i = some s') (hq : s.state ≠ .established)
    (hq' : s'.state = .established) :
    ∃ src pkt, op = .segment src pkt ∧ st.findTcpSocket pkt.dstPort pkt.srcPort = some i ∧
      s' = (s.handlePkt pkt src).1 := by
  have hslots := step_slots hst
  generalize hsl : st'.tcpSockets = slots at hslots
  rw [hsl] at hs'
  -- whatever else is written to the slot is not established
  have same : slots i ≠ st.tcpSockets i := by
    intro heq
    rw [heq, hs] at hs'
    cases hs'
    exact hq hq'
  have written : ∀ {tab : Nat → Option TcpSocket} {j : Nat} {t : TcpSocket}, slots = upd tab j (some t) →
      tab i = st.tcpSockets i → i = j ∧ s' = t := by
    intro tab j t heq htab
    by_cases hj : i = j
    · subst hj
      rw [heq, upd_self] at hs'
      cases hs'
      exact ⟨rfl, rfl⟩
    · exact absurd (by rw [heq, upd_of_ne _ _ hj, htab]) same
  have free : ∀ {j : Nat}, st.position Option.isNone = some j → i ≠ j := by
    intro j hf hij
    have hnone := (NetworkStack.position_eq_some hf).2
    rw [← hij, hs] at hnone
    cases hnone
  cases hslots with
  | @segment src pkt j t hf ht =>
    obtain ⟨rfl, rfl⟩ := written rfl rfl
    rw [hs] at ht
    cases ht
    exact ⟨src, pkt, rfl, hf, rfl⟩
  | listen hf => exact absurd (written rfl rfl).1 (free hf)
  | connect hf => exact absurd (written rfl rfl).1 (free hf)
  | send ht he =>
    obtain ⟨rfl, rfl⟩ := written rfl rfl
    rw [hs] at ht
    cases ht
    exact absurd he hq
  | recv ht =>
    obtain ⟨rfl, rfl⟩ := written rfl rfl
    rw [hs] at ht
    cases ht
    exact absurd hq' hq
  | accept hf ht he =>
    obtain ⟨rfl, rfl⟩ := written rfl (upd_of_ne _ _ (free hf))
    cases hq'
  | close ht he =>
    obtain ⟨rfl, rfl⟩ := written rfl rfl
    cases hq'
  | _ => exact absurd rfl same

theorem safeStep_iff (h : Numbered o.st.tcpSockets o.opening) (hst : o.step op = .ok o') :
    SafeStep o op ↔ Acknowledges o op := by
  obtain ⟨hst', hop⟩ := Observed.step_eq_ok hst
  constructor
  · intro hsafe
    cases op with
    | segment src pkt =>
      intro i s hf hs hr hack hq
      have hslot : o'.st.tcpSockets i = some (s.handlePkt pkt src).1 := by
        rw [NetworkStack.handleTcp_some hf hs hst', upd_self]
      have he : (s.handlePkt pkt src).1.state = .established := by
        rw [TcpSocket.handlePkt_state]
        obtain hq | ⟨hq, hsyn⟩ := hq <;> simp_all [TcpState.next]
      have hne : s.state ≠ .established := by
        obtain hq | ⟨hq, -⟩ := hq <;> simp [hq]
      obtain ⟨src', pkt', heq, -, hno, -⟩ := hsafe o' hst i s _ hs hslot hne he
      cases heq
      exact hno
    | _ => trivial
  · intro hack o'' hst'' i s s' hs hs' hne he
    have : o'' = o' := by rw [hst] at hst''; cases hst''; rfl
    subst this
    obtain ⟨src, pkt, rfl, hf, rfl⟩ := established_by_segment hst' hs hs' hne he
    have hnext : s.state.next pkt = .established := by rw [← TcpSocket.handlePkt_state s pkt src, he]
    obtain ⟨hr, ha, hq⟩ := TcpSocket.next_established hne hnext
    have hno := hack i s hf hs (by simp [hr]) ha hq
    obtain ⟨hseq, q, hirs, hackq⟩ := TcpSocket.established_counters (h i s hs) hne he
    refine ⟨src, pkt, rfl, ha, hno, ?_, q, ?_, hackq⟩
    · obtain hseq | hseq := hseq
      · exact hseq
      · rw [hseq, hno]
    · rw [hop]
      simpa [Observed.openings, hf, hs] using hirs

end

/-- The handshakes of a run are safe exactly when every acknowledgement that establishes a connection is
one of that socket's own SYN. -/
theorem handshakes_safe_iff (ops : List NetOp) :
    AllSteps Observed.step SafeStep Observed.init ops ↔ AllSteps Observed.step Acknowledges Observed.init ops := by
  have hinit : Numbered Observed.init.st.tcpSockets Observed.init.opening := by
    intro i s hs
    cases hs
  exact allSteps_congr (fun _ _ _ h hst => numbered_step h hst) (fun _ _ _ h hst => safeStep_iff h hst) hinit

/-- A peer that acknowledges 77 establishes a connection whose initial sequence number is 1. -/
theorem handshake_any_ack : ¬ ∀ ops : List NetOp, AllSteps Observed.step SafeStep Observed.init ops := by
  intro hall
  have h := hall [.listen 80, .segment ⟨10, 0, 2, 2⟩ ⟨5000, 80, 99, 0, TCP_SYN, []⟩,
    .segment ⟨10, 0, 2, 2⟩ ⟨5000, 80, 100, 77, TCP_ACK, []⟩]
  have h3 := (((h _ rfl).2 _ rfl).2 _ rfl).1
  obtain ⟨src, pkt, hop, -, hno, -⟩ := h3 _ rfl 0 _ _ rfl rfl (by decide) (by decide)
  cases hop
  revert hno
  decide

end WasmOs.Net
