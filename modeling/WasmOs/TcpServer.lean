import WasmOs.NetStack

/-!
# Servers

A listening handle is at the same time the half-open and the not yet accepted connection, so a remote
host can act on it; and a slot of the table is never given back. Both runs are followed here: of a
listener until a segment takes it out of service, and of the table until it is full of dead sockets.
-/

namespace WasmOs.Net

open Runs

/-! ## A listener -/

/-- The handle waits for a connection, is opening one or has one to accept. -/
def InService (h : Nat) (port : UInt16) (st : NetworkStack) : Prop :=
  ∃ s, st.tcpSockets h = some s ∧ s.localPort = port ∧
    (s.state = .listen ∨ s.state = .synRecv ∨ s.state = .established)

/-- A successful `tcp_accept` puts the handle back to listening on its port. -/
def Reopens (h : Nat) (port : UInt16) (st : NetworkStack) (op : NetOp) : Prop :=
  op = .accept h → ∀ st' free, st.tcpAccept h = .ok (st', some free) → st'.tcpSockets h = some (.listen port)

/-- No segment found for the handle carries RST, or FIN while the connection waits to be accepted. -/
def Harmless (h : Nat) (st : NetworkStack) : NetOp → Prop
  | .segment _ pkt => st.findTcpSocket pkt.dstPort pkt.srcPort = some h → pkt.rst = false ∧
      ∀ s, st.tcpSockets h = some s → s.state = .established → pkt.fin = false
  | _ => True

theorem next_inService {q : TcpState} (pkt : TcpPacket) (hq : q = .listen ∨ q = .synRecv ∨ q = .established) :
    (q.next pkt = .listen ∨ q.next pkt = .synRecv ∨ q.next pkt = .established) ↔
      pkt.rst = false ∧ (q = .established → pkt.fin = false) := by
  cases hr : pkt.rst
  · obtain rfl | rfl | rfl := hq
    · cases hs : pkt.syn <;> cases ha : pkt.ack <;> simp [TcpState.next, hr, hs, ha]
    · cases ha : pkt.ack <;> simp [TcpState.next, hr, ha]
    · cases hf : pkt.fin <;> simp [TcpState.next, hr, hf]
  · simp [TcpState.next, hr]

theorem inService_congr {h : Nat} {port : UInt16} {st st' : NetworkStack}
    (heq : st'.tcpSockets h = st.tcpSockets h) : InService h port st' ↔ InService h port st := by
  unfold InService
  rw [heq]

theorem inService_of_upd {h : Nat} {port : UInt16} {st : NetworkStack} {slots : Nat → Option TcpSocket}
    {s : TcpSocket} (hsl : st.tcpSockets = upd slots h (some s)) (hport : s.localPort = port)
    (hq : s.state = .listen ∨ s.state = .synRecv ∨ s.state = .established) : InService h port st :=
  ⟨s, by rw [hsl, upd_self], hport, hq⟩

theorem step_inService {h : Nat} {port : UInt16} {st st' : NetworkStack} {op : NetOp} (hin : InService h port st)
    (hop : op ≠ .close h) (hst : st.step op = .ok st') : InService h port st' ↔ Harmless h st op := by
  obtain ⟨s, hs, hport, hq⟩ := hin
  have hin : InService h port st := ⟨s, hs, hport, hq⟩
  have hslots := step_slots hst
  generalize hsl : st'.tcpSockets = slots at hslots
  have kept : ∀ {op : NetOp}, Harmless h st op → slots h = st.tcpSockets h →
      (InService h port st' ↔ Harmless h st op) := by
    intro op hh heq
    simp only [inService_congr (hsl ▸ heq), hin, hh]
  cases hslots with
  | unmatched hf => exact kept (fun hf' => by rw [hf] at hf'; cases hf') rfl
  | @segment src pkt i t hf ht =>
    by_cases hi : i = h
    · subst hi
      have heq : t = s := by rw [hs] at ht; cases ht; rfl
      subst heq
      have hnew : st'.tcpSockets i = some (t.handlePkt pkt src).1 := by rw [hsl, upd_self]
      have hserv := next_inService pkt hq
      rw [← t.handlePkt_state pkt src] at hserv
      constructor
      · rintro ⟨u, hu, -, huq⟩ -
        rw [hnew] at hu
        cases hu
        obtain ⟨hr, hf⟩ := hserv.mp huq
        exact ⟨hr, fun v hv hve => hf (by rw [hs] at hv; cases hv; exact hve)⟩
      · intro hh
        obtain ⟨hr, hfin⟩ := hh hf
        exact ⟨_, hnew, by rw [t.handlePkt_localPort, hport], hserv.mpr ⟨hr, hfin t hs⟩⟩
    · exact kept (fun hf' => absurd (Option.some.inj (hf.symm.trans hf')) hi) (upd_of_ne _ _ (Ne.symm hi))
  | listen hf => exact kept trivial (upd_of_ne _ _ (free_ne hs hf))
  | connect hf _ _ => exact kept trivial (upd_of_ne _ _ (free_ne hs hf))
  | @send i data t seq ht _ =>
    refine ⟨fun _ => trivial, fun _ => ?_⟩
    by_cases hi : h = i
    · subst hi
      have heq : t = s := by rw [hs] at ht; cases ht; rfl
      subst heq
      exact inService_of_upd hsl hport hq
    · exact (inService_congr (by rw [hsl, upd_of_ne _ _ hi])).mpr hin
  | @recv i cap t ht =>
    refine ⟨fun _ => trivial, fun _ => ?_⟩
    by_cases hi : h = i
    · subst hi
      have heq : t = s := by rw [hs] at ht; cases ht; rfl
      subst heq
      exact inService_of_upd hsl hport hq
    · exact (inService_congr (by rw [hsl, upd_of_ne _ _ hi])).mpr hin
  | @accept i free t hf ht he =>
    refine ⟨fun _ => trivial, fun _ => ?_⟩
    by_cases hi : h = i
    · subst hi
      have heq : t = s := by rw [hs] at ht; cases ht; rfl
      subst heq
      exact inService_of_upd hsl hport (.inl rfl)
    · exact (inService_congr (by rw [hsl, upd_of_ne _ _ hi, upd_of_ne _ _ (free_ne hs hf)])).mpr hin
  | @close i t ht he =>
    have hi : h ≠ i := fun e => hop (by rw [e])
    exact kept trivial (upd_of_ne _ _ hi)
  | _ => exact kept trivial rfl

theorem reopens {h : Nat} {port : UInt16} {st : NetworkStack} {op : NetOp} (hin : InService h port st) :
    Reopens h port st op := by
  rintro rfl st' free hacc
  obtain ⟨s, hs, hport, -⟩ := hin
  unfold NetworkStack.tcpAccept at hacc
  obtain ⟨o, ho, hacc⟩ := bind_eq_ok.mp hacc
  obtain ⟨-, rfl⟩ := NetworkStack.socket_eq_ok ho
  simp only [hs] at hacc
  split at hacc
  · cases hacc
  · split at hacc
    · cases hacc
    · cases hacc
      rw [NetworkStack.setSocket_tcpSockets, upd_self, hport]

theorem tcpListen_inService {st st' : NetworkStack} {port : UInt16} {h : Nat}
    (hl : st.tcpListen port = (st', some h)) : InService h port st' := by
  unfold NetworkStack.tcpListen at hl
  split at hl
  · cases hl
    exact inService_of_upd rfl rfl (.inl rfl)
  · cases hl

/-- A handle that `tcp_listen` returned and that the application does not close stays in service, and
listens again after each accepted connection, exactly when every segment that reaches it is harmless. -/
theorem listener_inService {start st : NetworkStack} {port : UInt16} {h : Nat} {ops : List NetOp}
    (hl : start.tcpListen port = (st, some h)) (hops : ∀ op ∈ ops, op ≠ .close h) :
    Always NetworkStack.step (InService h port) st ops ∧ AllSteps NetworkStack.step (Reopens h port) st ops ↔
      AllSteps NetworkStack.step (Harmless h) st ops := by
  have hin := tcpListen_inService hl
  have hopen : AllSteps NetworkStack.step (fun _ op => op ≠ .close h) st ops :=
    allSteps_of_forall fun _ op hop => hops op hop
  have hiff := always_iff_allSteps (fun s op s' hP hD hst => step_inService hP hD hst) hin hopen
  constructor
  · intro ⟨hal, _⟩
    exact hiff.mp hal
  · intro hall
    have hal := hiff.mpr hall
    have hre : ∀ s op, InService h port s → Reopens h port s op := fun _ _ hP => reopens hP
    exact ⟨hal, hal.allSteps hre⟩

/-- A segment from port `sport` of a client to port 80. -/
def clientSegment (sport : UInt16) (flags : UInt8) : NetOp := .segment ⟨10, 0, 2, 2⟩ ⟨sport, 80, 99, 2, flags, []⟩

def handshake : List NetOp := [clientSegment 5000 TCP_SYN, clientSegment 5000 TCP_ACK, .accept 0]

theorem listener_inService_handshake :
    Always NetworkStack.step (InService 0 80) (NetworkStack.init.tcpListen 80).1 handshake ∧
      AllSteps NetworkStack.step (Reopens 0 80) (NetworkStack.init.tcpListen 80).1 handshake := by
  have hl : NetworkStack.init.tcpListen 80 = ((NetworkStack.init.tcpListen 80).1, some 0) := rfl
  refine (listener_inService hl (by decide)).mpr (allSteps_of_forall ?_)
  intro st op hop
  simp only [handshake, List.mem_cons, List.not_mem_nil, or_false] at hop
  obtain rfl | rfl | rfl := hop
  · exact fun _ => ⟨by decide, fun _ _ _ => by decide⟩
  · exact fun _ => ⟨by decide, fun _ _ _ => by decide⟩
  · trivial

/-- One segment with RST closes a listener for good. -/
theorem listener_reset : ¬ ∀ (start st : NetworkStack) (port : UInt16) (h : Nat) (ops : List NetOp),
    start.tcpListen port = (st, some h) → (∀ op ∈ ops, op ≠ .close h) →
    Always NetworkStack.step (InService h port) st ops ∧ AllSteps NetworkStack.step (Reopens h port) st ops := by
  intro hall
  have h := hall NetworkStack.init _ 80 0 [clientSegment 5000 TCP_RST] rfl (by decide)
  obtain ⟨s, hs, -, hq⟩ := (h.1.2 _ rfl).head
  cases hs
  revert hq
  decide

/-! ## The table -/

def Full (st : NetworkStack) : Prop := ∀ i < MAX_SOCKETS, (st.tcpSockets i).isSome

/-- Some slot holds a socket that is `Closed`. -/
def SomeClosed (st : NetworkStack) : Prop := ∃ i < MAX_SOCKETS, ∃ s, st.tcpSockets i = some s ∧ s.state = .closed

/-- Every slot holds a socket that is not `Closed`. -/
def AllInUse (st : NetworkStack) : Prop := ∀ i < MAX_SOCKETS, ∃ s, st.tcpSockets i = some s ∧ s.state ≠ .closed

/-- The three calls that need a slot fail for lack of one only when all slots are in use. -/
def Reclaims (st : NetworkStack) : Prop :=
  (∀ port, (st.tcpListen port).2 = none → AllInUse st) ∧
  (∀ dstIp dstPort st', st.tcpConnect dstIp dstPort = .ok (st', none) → AllInUse st) ∧
  (∀ i s st', i < MAX_SOCKETS → st.tcpSockets i = some s → s.state = .established →
    st.tcpAccept i = .ok (st', none) → AllInUse st)

theorem position_isNone {st : NetworkStack} : st.position Option.isNone = none ↔ Full st := by
  constructor
  · intro h i hi
    have := NetworkStack.position_eq_none h hi
    simpa using this
  · intro h
    apply List.find?_eq_none.mpr
    intro i hi
    have := h i (List.mem_range.mp hi)
    simpa [Option.isNone_iff_eq_none, Option.isSome_iff_ne_none] using this

theorem allInUse_iff {st : NetworkStack} : AllInUse st ↔ Full st ∧ ¬ SomeClosed st := by
  constructor
  · intro h
    refine ⟨fun i hi => ?_, ?_⟩
    · obtain ⟨s, hs, -⟩ := h i hi
      rw [hs]; rfl
    · rintro ⟨i, hi, s, hs, hc⟩
      obtain ⟨t, ht, hne⟩ := h i hi
      rw [hs] at ht; cases ht
      exact hne hc
  · rintro ⟨hfull, hno⟩ i hi
    obtain ⟨s, hs⟩ := Option.isSome_iff_exists.mp (hfull i hi)
    exact ⟨s, hs, fun hc => hno ⟨i, hi, s, hs, hc⟩⟩

/-- All three calls fail exactly when the table is full. -/
theorem reclaims_iff {st : NetworkStack} : Reclaims st ↔ ¬ (Full st ∧ SomeClosed st) := by
  constructor
  · rintro ⟨hl, -, -⟩ ⟨hfull, hc⟩
    have hnone : (st.tcpListen 0).2 = none := by
      simp only [NetworkStack.tcpListen, position_isNone.mpr hfull]
    exact (allInUse_iff.mp (hl 0 hnone)).2 hc
  · intro h
    have key : st.position Option.isNone = none → AllInUse st := by
      intro hp
      have hfull := position_isNone.mp hp
      exact allInUse_iff.mpr ⟨hfull, fun hc => h ⟨hfull, hc⟩⟩
    refine ⟨fun port hn => ?_, fun dstIp dstPort st' hn => ?_, fun i s st' hi hs he hn => ?_⟩
    · unfold NetworkStack.tcpListen at hn
      split at hn
      · cases hn
      · exact key ‹_›
    · unfold NetworkStack.tcpConnect at hn
      obtain ⟨port, -, hn⟩ := bind_eq_ok.mp hn
      split at hn
      · dsimp only at hn
        split at hn <;> cases hn
      · exact key ‹_›
    · unfold NetworkStack.tcpAccept at hn
      obtain ⟨o, ho, hn⟩ := bind_eq_ok.mp hn
      obtain ⟨-, rfl⟩ := NetworkStack.socket_eq_ok ho
      simp only [hs, he] at hn
      split at hn
      · contradiction
      · split at hn
        · exact key ‹_›
        · cases hn

def Closes (q : TcpState) (pkt : TcpPacket) : Prop :=
  pkt.rst ∨ (q = .finWait1 ∧ pkt.fin ∧ pkt.ack) ∨ (q = .finWait2 ∧ pkt.fin) ∨ (q = .closing ∧ pkt.ack)

theorem next_closed (q : TcpState) (pkt : TcpPacket) : q.next pkt = .closed ↔ q = .closed ∨ Closes q pkt := by
  unfold TcpState.next Closes
  cases hr : pkt.rst
  · cases q <;> simp
    case finWait1 => cases pkt.fin <;> cases pkt.ack <;> simp
    case listen => split <;> simp
    case synSent => cases pkt.syn <;> cases pkt.ack <;> simp
    case synRecv => split <;> simp
    case established => split <;> simp
  · simp

/-- All slots but one hold a socket. -/
def OneFree (st : NetworkStack) : Prop :=
  ∃ i < MAX_SOCKETS, st.tcpSockets i = none ∧ ∀ j < MAX_SOCKETS, j ≠ i → (st.tcpSockets j).isSome

/-- The steps that fill the table with a dead socket in it: a segment that closes a socket of a full
table, and the opening of a socket in the last free slot while another one is `Closed`. -/
def Exhausts (st : NetworkStack) : NetOp → Prop
  | .segment _ pkt => Full st ∧ ∃ i s, st.findTcpSocket pkt.dstPort pkt.srcPort = some i ∧
      st.tcpSockets i = some s ∧ Closes s.state pkt
  | .listen _ | .connect _ _ => OneFree st ∧ SomeClosed st
  | .accept i => OneFree st ∧ SomeClosed st ∧ ∃ s, st.tcpSockets i = some s ∧ s.state = .established
  | _ => False

section
variable {st st' : NetworkStack} {i : Nat} {s t : TcpSocket} (hsl : st'.tcpSockets = upd st.tcpSockets i (some t))

include hsl in
theorem full_upd (hs : st.tcpSockets i = some s) : Full st' ↔ Full st := by
  unfold Full
  rw [hsl]
  refine forall₂_congr fun j _ => ?_
  by_cases hj : j = i
  · subst hj; simp [hs]
  · rw [upd_of_ne _ _ hj]

include hsl in
theorem someClosed_upd (hs : st.tcpSockets i = some s) (hq : t.state = .closed ↔ s.state = .closed) :
    SomeClosed st' ↔ SomeClosed st := by
  unfold SomeClosed
  rw [hsl]
  refine exists_congr fun j => and_congr_right fun _ => ?_
  by_cases hj : j = i
  · subst hj; simp [hs, hq]
  · rw [upd_of_ne _ _ hj]

include hsl in
theorem someClosed_fill (hn : st.tcpSockets i = none) (ht : t.state ≠ .closed) :
    SomeClosed st' ↔ SomeClosed st := by
  unfold SomeClosed
  rw [hsl]
  refine exists_congr fun j => and_congr_right fun _ => ?_
  by_cases hj : j = i
  · subst hj; simp [hn, ht]
  · rw [upd_of_ne _ _ hj]

include hsl in
theorem full_fill (hi : i < MAX_SOCKETS) (hn : st.tcpSockets i = none) : Full st' ↔ OneFree st := by
  unfold Full OneFree
  rw [hsl]
  constructor
  · intro h
    refine ⟨i, hi, hn, fun j hj hji => ?_⟩
    have := h j hj
    rwa [upd_of_ne _ _ hji] at this
  · rintro ⟨k, hk, hkn, hrest⟩ j hj
    have hik : i = k := by
      by_contra hne
      have := hrest i hi hne
      rw [hn] at this
      cases this
    by_cases hji : j = i
    · subst hji; rw [upd_self]; rfl
    · rw [upd_of_ne _ _ hji]; exact hrest j hj (hik ▸ hji)

end

theorem OneFree.not_full {st : NetworkStack} (h : OneFree st) : ¬ Full st := by
  intro hfull
  obtain ⟨i, hi, hn, -⟩ := h
  have := hfull i hi
  rw [hn] at this
  cases this

theorem free_slot {st : NetworkStack} {i : Nat} (hf : st.position Option.isNone = some i) :
    i < MAX_SOCKETS ∧ st.tcpSockets i = none := by
  obtain ⟨hi, hn⟩ := NetworkStack.position_eq_some hf
  exact ⟨hi, Option.isNone_iff_eq_none.mp hn⟩

/-- The table fills up with a dead socket in it exactly in a step that exhausts it. -/
theorem step_exhausts {st st' : NetworkStack} {op : NetOp} (hr : ¬ (Full st ∧ SomeClosed st))
    (hst : st.step op = .ok st') : Full st' ∧ SomeClosed st' ↔ Exhausts st op := by
  have hslots := step_slots hst
  generalize hsl : st'.tcpSockets = slots at hslots
  have same : (Full st' ↔ Full st) → (SomeClosed st' ↔ SomeClosed st) → ¬ Exhausts st op →
      (Full st' ∧ SomeClosed st' ↔ Exhausts st op) := by
    intro h₁ h₂ hex
    rw [h₁, h₂]
    exact ⟨fun h => absurd h hr, fun h => absurd h hex⟩
  have idle : slots = st.tcpSockets → ¬ Exhausts st op → (Full st' ∧ SomeClosed st' ↔ Exhausts st op) := by
    rintro rfl
    exact same (by unfold Full; rw [hsl]) (by unfold SomeClosed; rw [hsl])
  cases hslots with
  | unmatched hf =>
    refine idle rfl ?_
    rintro ⟨-, i, s, hi, -⟩
    rw [hf] at hi
    cases hi
  | @segment src pkt i s hf hs =>
    have hi := (NetworkStack.findTcpSocket_some hf).1
    have hfull := full_upd hsl hs
    constructor
    · rintro ⟨h₁, j, hj, t, ht, hc⟩
      have hno : ¬ SomeClosed st := fun hcl => hr ⟨hfull.mp h₁, hcl⟩
      refine ⟨hfull.mp h₁, i, s, hf, hs, ?_⟩
      rw [hsl] at ht
      -- the dead socket is the one the segment reached: there was none before
      by_cases hji : j = i
      · subst hji
        rw [upd_self] at ht
        cases ht
        rw [s.handlePkt_state, next_closed] at hc
        exact hc.resolve_left fun hcl => hno ⟨j, hj, s, hs, hcl⟩
      · rw [upd_of_ne _ _ hji] at ht
        exact absurd ⟨j, hj, t, ht, hc⟩ hno
    · rintro ⟨h₁, j, t, hj, ht, hc⟩
      cases hf.symm.trans hj
      cases hs.symm.trans ht
      refine ⟨hfull.mpr h₁, i, hi, _, by rw [hsl, upd_self], ?_⟩
      rw [s.handlePkt_state, next_closed]
      exact .inr hc
  | listen hf =>
    obtain ⟨hi, hn⟩ := free_slot hf
    exact and_congr (full_fill hsl hi hn) (someClosed_fill hsl hn (by simp [TcpSocket.listen]))
  | listenFull hf => exact idle rfl fun h => h.1.not_full (position_isNone.mp hf)
  | connect hf hq =>
    obtain ⟨hi, hn⟩ := free_slot hf
    exact and_congr (full_fill hsl hi hn) (someClosed_fill hsl hn (by rw [hq]; decide))
  | connectFull hf => exact idle rfl fun h => h.1.not_full (position_isNone.mp hf)
  | send hs => exact same (full_upd hsl hs) (someClosed_upd hsl hs Iff.rfl) id
  | recv hs => exact same (full_upd hsl hs) (someClosed_upd hsl hs Iff.rfl) id
  | acceptNone hn =>
    refine idle rfl ?_
    rintro ⟨h₁, -, s, hs, he⟩
    exact h₁.not_full (position_isNone.mp (hn s hs he))
  | @accept i free s hf hs he =>
    obtain ⟨hi, hn⟩ := free_slot hf
    have hmid : (st.setSocket free s).tcpSockets i = some s := by
      rw [NetworkStack.setSocket_tcpSockets, upd_of_ne _ _ (free_ne hs hf), hs]
    -- the connection fills the free slot and the listener starts afresh in its own
    have hfull : Full st' ↔ Full (st.setSocket free s) := full_upd hsl hmid
    have hclosed : SomeClosed st' ↔ SomeClosed (st.setSocket free s) :=
      someClosed_upd hsl hmid (by simp [he, TcpSocket.listen])
    rw [hfull, hclosed, full_fill rfl hi hn, someClosed_fill rfl hn (by simp [he])]
    exact ⟨fun h => ⟨h.1, h.2, s, hs, he⟩, fun h => ⟨h.1, h.2.1⟩⟩
  | @close i s hs he =>
    have hlive : s.state ≠ .closed := by
      obtain h | h := he <;> rw [h] <;> decide
    exact same (full_upd hsl hs) (someClosed_upd hsl hs (by simp [hlive])) id
  | _ => exact idle rfl id

/-- A run from the initial stack finds a slot whenever one is not in use exactly when no step of it
exhausts the table. -/
theorem table_reclaims (ops : List NetOp) :
    Always NetworkStack.step Reclaims .init ops ↔
      AllSteps NetworkStack.step (fun st op => ¬ Exhausts st op) .init ops := by
  have hinit : Reclaims .init := by
    rw [reclaims_iff]
    rintro ⟨hfull, -⟩
    cases hfull 0 (by decide)
  have hstep : ∀ st op st', Reclaims st → True → NetworkStack.step st op = .ok st' →
      (Reclaims st' ↔ ¬ Exhausts st op) := by
    intro st op st' hr _ hst
    rw [reclaims_iff, step_exhausts (reclaims_iff.mp hr) hst]
  exact always_iff_allSteps hstep hinit (allSteps_of_forall fun _ _ _ => trivial)

/-- The server of port 80 accepts the client on port `sport` as handle `k`, and closes: the FIN exchange
completes. -/
def serveClient (sport : UInt16) (k : Nat) : List NetOp :=
  [clientSegment sport TCP_SYN, clientSegment sport TCP_ACK, .accept 0, .close k,
    clientSegment sport (TCP_FIN ||| TCP_ACK)]

/-- Seven clients are served one after another; the eighth has connected and waits to be accepted. -/
def eightClients : List NetOp :=
  .listen 80 :: serveClient 5001 1 ++ serveClient 5002 2 ++ serveClient 5003 3 ++ serveClient 5004 4 ++
    serveClient 5005 5 ++ serveClient 5006 6 ++ serveClient 5007 7 ++
    [clientSegment 5008 TCP_SYN, clientSegment 5008 TCP_ACK]

/-- The listener is `Established`, no slot is free, and the seven other sockets are all `Closed`. -/
theorem eightClients_exhausted : ∃ st, runAll NetworkStack.step .init eightClients = .ok st ∧
    (st.tcpSockets 0).any (fun s => s.state == .established) ∧
    (∀ i < MAX_SOCKETS, (st.tcpSockets i).isSome) ∧
    (∀ i < MAX_SOCKETS, i ≠ 0 → (st.tcpSockets i).any fun s => s.state == .closed) := by
  refine ⟨_, rfl, ?_⟩
  decide

theorem table_not_reclaimed : ¬ ∀ ops : List NetOp, Always NetworkStack.step Reclaims .init ops := by
  intro hall
  obtain ⟨st, hrun, -, hfull, hdead⟩ := eightClients_exhausted
  have hr := reclaims_iff.mp ((hall eightClients).last hrun)
  obtain ⟨s, hs, hc⟩ := (Option.any_eq_true _ _).mp (hdead 1 (by decide) (by decide))
  exact hr ⟨hfull, 1, by decide, s, hs, beq_iff_eq.mp hc⟩

end WasmOs.Net
