import Mathlib.Data.List.Forall2
import WasmOs.StackFrames

/-!
# UDP between hosts

Any number of hosts on one network, each with the stack of `mod.rs` and an application that calls it. The network
may lose, repeat and reorder the frames that the stacks compose, and bring each of them to any host. Whatever
happens, `udp_recv` returns what some host has given to `udp_send`, for the port of the socket, whole up to the
size of the buffers, in the order in which the frames arrived, and no frame twice.
-/

namespace WasmOs.UdpService

open Net Runs

/-! ## Hosts on a network -/

/-- A call of `udp_send` that took the data. -/
structure Sent where
  host : Nat
  srcPort : UInt16
  dstPort : UInt16
  payload : List UInt8

/-- A call of `udp_recv` that returned data. -/
structure Received where
  slot : Nat
  port : UInt16
  cap : Nat
  bytes : List UInt8

/-- What every host has; `arrived` are the frames that came to a host, in order. -/
structure Segment where
  hosts : Nat → Stack
  sent : List Sent
  arrived : Nat → List (List UInt8)
  received : Nat → List Received

inductive Event where
  /-- a frame that `sender` has composed comes to `host` -/
  | arrive (host sender k : Nat)
  | udpSend (host i : Nat) (data : List UInt8)
  | udpRecv (host i cap : Nat)
  /-- any other call -/
  | call (host : Nat) (op : StackOp)

def isOther : StackOp → Bool
  | .frame _ => false
  | .udpSend _ _ => false
  | .udpRecv _ _ => false
  | .tcp (.segment _ _) => false
  | _ => true

namespace Segment

def boot (macs : Nat → Mac) : Segment := ⟨fun host => newStack (macs host), [], fun _ => [], fun _ => []⟩

/-- A call that answers `Err(())` changes nothing. -/
def orStay (s : Segment) : Rust Unit Segment → Rust Unit Segment
  | .error (.err _) => .ok s
  | r => r

def setHost (s : Segment) (host : Nat) (st : Stack) : Segment := { s with hosts := upd s.hosts host st }

end Segment

open Segment in
def step (s : Segment) : Event → Rust Unit Segment
  | .arrive host sender k =>
    match (s.hosts sender).frames[k]? with
    | none => .ok s
    | some frame => do
      let st ← (s.hosts host).handleEth frame
      .ok { s.setHost host st with arrived := upd s.arrived host (s.arrived host ++ [frame]) }
  | .udpSend host i data => s.orStay do
    let (st, n) ← (s.hosts host).udpSend i data
    let sent := ((s.hosts host).udpSockets i).toList.map fun sock =>
      Sent.mk host sock.localPort sock.remotePort (data.take n)
    .ok { s.setHost host st with sent := s.sent ++ sent }
  | .udpRecv host i cap => s.orStay do
    let (st, bytes) ← (s.hosts host).udpRecv i cap
    let received := ((s.hosts host).udpSockets i).toList.map fun sock => Received.mk i sock.localPort cap bytes
    .ok { s.setHost host st with received := upd s.received host (s.received host ++ received) }
  | .call host op =>
    if isOther op then do
      let st ← (s.hosts host).step op
      .ok (s.setHost host st)
    else .ok s

/-! ## Where a packet comes from -/

namespace Segment

/-- Some host has given the packet's data to `udp_send`, or a DHCP client has sent it. -/
def Origin (s : Segment) (u : UdpPacket) : Prop :=
  FromDhcpClient u ∨ ∃ d ∈ s.sent, d.srcPort = u.srcPort ∧ d.dstPort = u.dstPort ∧ d.payload = u.payload

/-- The bytes of `r` are those of the packet in the frame, as far as they fit. -/
def Hands (s : Segment) (r : Received) (frame : List UInt8) : Prop :=
  ∃ u, CarriesUdp frame u ∧ s.Origin u ∧ u.dstPort = r.port ∧ r.bytes = u.payload.take (min MAX_UDP_PAYLOAD r.cap)

def receivedAt (s : Segment) (host slot : Nat) : List Received := (s.received host).filter fun r => r.slot == slot

/-- What a slot has received came with some of these frames, in this order. -/
def Got (s : Segment) (host slot : Nat) (frames : List (List UInt8)) : Prop :=
  List.SublistForall₂ s.Hands (s.receivedAt host slot) frames

def Waits (s : Segment) (sock : UdpSocket) (frame : List UInt8) : Prop :=
  ∃ u, CarriesUdp frame u ∧ s.Origin u ∧ u.dstPort = sock.localPort ∧
    sock.recvLen = min u.payload.length MAX_UDP_PAYLOAD ∧ slice sock.recvBuf 0 sock.recvLen =
    u.payload.take MAX_UDP_PAYLOAD

/-- What waits in a slot came behind all that was received there. -/
def Queued (s : Segment) (host slot : Nat) : Prop :=
  ∀ sock, (s.hosts host).udpSockets slot = some sock → sock.recvLen ≠ 0 →
    ∃ before frame after, s.arrived host = before ++ frame :: after ∧ s.Got host slot before ∧ s.Waits sock frame

structure Inv (s : Segment) : Prop where
  origin : ∀ host, ∀ f ∈ (s.hosts host).frames, ∀ u, CarriesUdp f u → s.Origin u
  composed : ∀ host, ∀ f ∈ s.arrived host, ∃ sender, f ∈ (s.hosts sender).frames
  got : ∀ host slot, s.Got host slot (s.arrived host)
  queued : ∀ host slot, s.Queued host slot

end Segment

/-! ## Sublists -/

section
variable {α β : Type} {R R' : α → β → Prop} {as : List α} {bs : List β}

theorem sublistForall₂_mono (hR : ∀ a b, R a b → R' a b) (h : List.SublistForall₂ R as bs) :
    List.SublistForall₂ R' as bs := by
  obtain ⟨cs, hall, hsub⟩ := List.sublistForall₂_iff.mp h
  exact List.sublistForall₂_iff.mpr ⟨cs, hall.imp hR, hsub⟩

theorem sublistForall₂_append (h : List.SublistForall₂ R as bs) (bs' : List β) :
    List.SublistForall₂ R as (bs ++ bs') := by
  obtain ⟨cs, hall, hsub⟩ := List.sublistForall₂_iff.mp h
  exact List.sublistForall₂_iff.mpr ⟨cs, hall, hsub.trans (List.sublist_append_left bs bs')⟩

theorem sublistForall₂_snoc (h : List.SublistForall₂ R as bs) {a : α} {b : β} (hab : R a b) :
    List.SublistForall₂ R (as ++ [a]) (bs ++ [b]) := by
  obtain ⟨cs, hall, hsub⟩ := List.sublistForall₂_iff.mp h
  refine List.sublistForall₂_iff.mpr ⟨cs ++ [b], ?_, hsub.append_right [b]⟩
  exact List.rel_append hall (.cons hab .nil)

end

/-! ## Steps -/

section
variable {s s' : Segment} {host slot : Nat}

/-- What a slot waits for and has received goes on being so: more may have been sent and more may have arrived,
and what is in the socket was there before. -/
structure Keeps (s s' : Segment) (host slot : Nat) : Prop where
  sent : ∀ d ∈ s.sent, d ∈ s'.sent
  arrived : ∃ frames, s'.arrived host = s.arrived host ++ frames
  received : s'.receivedAt host slot = s.receivedAt host slot
  socket : ∀ sock', (s'.hosts host).udpSockets slot = some sock' → sock'.recvLen ≠ 0 →
    ∃ sock, (s.hosts host).udpSockets slot = some sock ∧ sock'.localPort = sock.localPort ∧
    sock'.recvLen = sock.recvLen ∧ sock'.recvBuf = sock.recvBuf

theorem Origin.mono {u : UdpPacket} (hsent : ∀ d ∈ s.sent, d ∈ s'.sent) (h : s.Origin u) : s'.Origin u := by
  rcases h with h | ⟨d, hd, h⟩
  · exact .inl h
  · exact .inr ⟨d, hsent d hd, h⟩

theorem Got.mono {frames frames' : List (List UInt8)} (hsent : ∀ d ∈ s.sent, d ∈ s'.sent)
    (hrec : s'.receivedAt host slot = s.receivedAt host slot) (h : s.Got host slot frames) :
    s'.Got host slot (frames ++ frames') := by
  unfold Segment.Got
  rw [hrec]
  apply sublistForall₂_append
  refine sublistForall₂_mono (fun r frame hr => ?_) h
  obtain ⟨u, hu, horigin, hrest⟩ := hr
  exact ⟨u, hu, Origin.mono hsent horigin, hrest⟩

theorem Keeps.got (h : Keeps s s' host slot) (hgot : s.Got host slot (s.arrived host)) :
    s'.Got host slot (s'.arrived host) := by
  obtain ⟨frames, harrived⟩ := h.arrived
  rw [harrived]
  exact Got.mono h.sent h.received hgot

theorem Keeps.queued (h : Keeps s s' host slot) (hq : s.Queued host slot) : s'.Queued host slot := by
  intro sock' hsock' hlen
  obtain ⟨sock, hsock, hport, hlen', hbuf⟩ := h.socket sock' hsock' hlen
  obtain ⟨before, frame, after, hsplit, hgot, u, hu, horigin, hdst, hmin, hslice⟩ :=
    hq sock hsock (by rwa [← hlen'])
  obtain ⟨frames, harrived⟩ := h.arrived
  refine ⟨before, frame, after ++ frames, ?_, ?_, u, hu, Origin.mono h.sent horigin, ?_, ?_, ?_⟩
  · rw [harrived, hsplit, List.append_assoc, List.cons_append]
  · have hmono : s'.Got host slot (before ++ []) := Got.mono h.sent h.received hgot
    rwa [List.append_nil] at hmono
  · rw [hport]
    exact hdst
  · rw [hlen']
    exact hmin
  · rw [hlen', hbuf]
    exact hslice

theorem inv_of_host {st : Stack} {S : UdpPacket → Prop} (h : s.Inv) (hhosts : s'.hosts = upd s.hosts host st)
    (hsent : ∀ d ∈ s.sent, d ∈ s'.sent) (hgrows : (s.hosts host).Grows S st) (hS : ∀ u, S u → s'.Origin u)
    (harrived : ∀ i, ∀ f ∈ s'.arrived i, f ∈ s.arrived i ∨ ∃ sender, f ∈ (s.hosts sender).frames)
    (hslots : ∀ i slot, s'.Got i slot (s'.arrived i) ∧ s'.Queued i slot) : s'.Inv := by
  obtain ⟨frames, hframes, hall⟩ := hgrows
  have hkept : ∀ i, ∀ f ∈ (s.hosts i).frames, f ∈ (s'.hosts i).frames := by
    intro i f hf
    rw [hhosts]
    by_cases hi : i = host
    · subst hi
      rw [upd_self, hframes]
      exact List.mem_append_left _ hf
    · rw [upd_of_ne _ _ hi]
      exact hf
  refine ⟨fun i f hf u hu => ?_, fun i f hf => ?_, fun i slot => (hslots i slot).1, fun i slot => (hslots i slot).2⟩
  · rw [hhosts] at hf
    by_cases hi : i = host
    · subst hi
      rw [upd_self, hframes] at hf
      rcases List.mem_append.mp hf with hf | hf
      · exact Origin.mono hsent (h.origin i f hf u hu)
      · exact hS u ((hall f hf).2 u hu)
    · rw [upd_of_ne _ _ hi] at hf
      exact Origin.mono hsent (h.origin i f hf u hu)
  · rcases harrived i f hf with hf | ⟨sender, hf⟩
    · obtain ⟨sender, hf⟩ := h.composed i f hf
      exact ⟨sender, hkept sender f hf⟩
    · exact ⟨sender, hkept sender f hf⟩

theorem Keeps.slots (h : s.Inv) (hkeeps : ∀ i slot, Keeps s s' i slot) :
    ∀ i slot, s'.Got i slot (s'.arrived i) ∧ s'.Queued i slot :=
  fun i slot => ⟨(hkeeps i slot).got (h.got i slot), (hkeeps i slot).queued (h.queued i slot)⟩

theorem keeps_of_sockets (hsent : ∀ d ∈ s.sent, d ∈ s'.sent)
    (harrived : ∃ frames, s'.arrived host = s.arrived host ++ frames)
    (hrec : s'.receivedAt host slot = s.receivedAt host slot)
    (hsocket : (s'.hosts host).udpSockets slot = (s.hosts host).udpSockets slot) :
    Keeps s s' host slot where
  sent := hsent
  arrived := harrived
  received := hrec
  socket := fun sock hsock _ => ⟨sock, by rw [← hsocket, hsock], rfl, rfl, rfl⟩

theorem handlePkt_holds {sock sock' : UdpSocket} {u : UdpPacket} {src : IpAddr}
    (h : sock.handlePkt u src = .ok sock') :
    sock'.localPort = sock.localPort ∧ sock'.recvLen = min u.payload.length MAX_UDP_PAYLOAD ∧
      slice sock'.recvBuf 0 sock'.recvLen = u.payload.take MAX_UDP_PAYLOAD := by
  unfold UdpSocket.handlePkt at h
  obtain ⟨bytes, hbytes, h⟩ := bind_eq_ok.mp h
  rw [sliceRange_of_le ⟨Nat.zero_le _, Nat.min_le_left _ _⟩] at hbytes
  cases hbytes
  cases h
  refine ⟨rfl, rfl, ?_⟩
  have htake : u.payload.take (min u.payload.length MAX_UDP_PAYLOAD) = u.payload.take MAX_UDP_PAYLOAD := by
    rw [Nat.min_comm, ← List.take_eq_take_min]
  have hend := slice_blit_end sock.recvBuf 0 (u.payload.take MAX_UDP_PAYLOAD)
  rw [Nat.zero_add, List.length_take, Nat.min_comm] at hend
  show slice (blit sock.recvBuf 0 (u.payload.take (min u.payload.length MAX_UDP_PAYLOAD))) 0
    (min u.payload.length MAX_UDP_PAYLOAD) = _
  rw [htake, hend]
  rfl

theorem recv_bytes {sock sock' : UdpSocket} {cap : Nat} {bytes : List UInt8}
    (h : sock.recv cap = some (sock', bytes)) :
    sock.recvLen ≠ 0 ∧ sock'.recvLen = 0 ∧ bytes = (slice sock.recvBuf 0 sock.recvLen).take cap := by
  unfold UdpSocket.recv at h
  split at h
  · cases h
  · rename_i hlen
    cases h
    refine ⟨hlen, rfl, ?_⟩
    unfold slice
    rw [← List.map_take, List.take_range, Nat.min_comm]

/-! ### Events -/

theorem arrive_inv (h : s.Inv) {sender k : Nat} (hs : step s (.arrive host sender k) = .ok s') : s'.Inv := by
  simp only [step] at hs
  split at hs
  · cases hs
    exact h
  · rename_i frame hframe
    have hmem : frame ∈ (s.hosts sender).frames := List.mem_of_getElem? hframe
    obtain ⟨st, hst, hs⟩ := bind_eq_ok.mp hs
    cases hs
    have harrived : ∀ i, ∃ frames, upd s.arrived host (s.arrived host ++ [frame]) i = s.arrived i ++ frames := by
      intro i
      by_cases hi : i = host
      · subst hi
        exact ⟨[frame], upd_self ..⟩
      · exact ⟨[], by rw [upd_of_ne _ _ hi, List.append_nil]⟩
    have hfrom : ∀ i, ∀ f ∈ upd s.arrived host (s.arrived host ++ [frame]) i, f ∈ s.arrived i ∨
        ∃ sender, f ∈ (s.hosts sender).frames := by
      intro i f hf
      by_cases hi : i = host
      · subst hi
        rw [upd_self] at hf
        rcases List.mem_append.mp hf with hf | hf
        · exact .inl hf
        · rw [List.mem_singleton.mp hf]
          exact .inr ⟨sender, hmem⟩
      · rw [upd_of_ne _ _ hi] at hf
        exact .inl hf
    rcases (handleEth_changes frame).of_ok st hst with hsends | ⟨u, hu, j, sock, sock', src, -, hsock, hport,
      hpkt, hframes, hsockets⟩
    · refine inv_of_host h rfl (fun _ => id) hsends.grows (fun u hu => .inl hu) hfrom
        (Keeps.slots h fun i slot => ?_)
      refine keeps_of_sockets (fun _ => id) (harrived i) rfl ?_
      show (upd s.hosts host st i).udpSockets slot = _
      by_cases hi : i = host
      · subst hi
        rw [upd_self, hsends.udp]
      · rw [upd_of_ne _ _ hi]
    · refine inv_of_host (S := FromDhcpClient) h rfl (fun _ => id) (.of_eq hframes) (fun u hu => .inl hu)
        hfrom fun i slot => ?_
      by_cases hslot : i = host ∧ slot = j
      · obtain ⟨rfl, rfl⟩ := hslot
        have hgot := h.got i slot
        refine ⟨?_, fun waiting hwaiting _ => ?_⟩
        · show Segment.Got _ i slot (upd s.arrived i (s.arrived i ++ [frame]) i)
          rw [upd_self]
          exact Got.mono (fun _ => id) rfl hgot
        · -- the new packet has taken the place of whatever was there
          have hnew : waiting = sock' := by
            change (upd s.hosts i st i).udpSockets slot = some waiting at hwaiting
            rw [upd_self, hsockets, upd_self] at hwaiting
            exact (Option.some.inj hwaiting).symm
          obtain ⟨hlocal, hlen, hslice⟩ := handlePkt_holds hpkt
          refine ⟨s.arrived i, frame, [], ?_, ?_, u, hu, h.origin sender frame hmem u hu, ?_, ?_, ?_⟩
          · exact upd_self ..
          · rw [← List.append_nil (s.arrived i)]
            exact Got.mono (fun _ => id) rfl hgot
          · rw [hnew, hlocal, hport]
          · rw [hnew]
            exact hlen
          · rw [hnew]
            exact hslice
      · have hkeeps : Keeps s
            { s.setHost host st with arrived := upd s.arrived host (s.arrived host ++ [frame]) } i slot := by
          refine keeps_of_sockets (fun _ => id) (harrived i) rfl ?_
          show (upd s.hosts host st i).udpSockets slot = _
          by_cases hi : i = host
          · subst hi
            rw [upd_self, hsockets, upd_of_ne _ _ (fun heq => hslot ⟨rfl, heq⟩)]
          · rw [upd_of_ne _ _ hi]
        exact ⟨hkeeps.got (h.got i slot), hkeeps.queued (h.queued i slot)⟩

theorem orStay_inv {m : Rust Unit Segment} (h : s.Inv) (hm : m.Yields Segment.Inv)
    (hs : s.orStay m = .ok s') : s'.Inv := by
  cases m with
  | ok t => exact hm.of_ok s' hs
  | error e =>
    cases e with
    | err e =>
      cases hs
      exact h
    | panic => cases hs
    | hang => cases hs

theorem udpSend_inv (h : s.Inv) {i : Nat} {data : List UInt8} (hs : step s (.udpSend host i data) = .ok s') :
    s'.Inv := by
  refine orStay_inv h ⟨fun t ht => ?_⟩ hs
  obtain ⟨⟨st, n⟩, hsend, ht⟩ := bind_eq_ok.mp ht
  cases ht
  obtain ⟨sock, hsock, hn, hsends⟩ := (udpSend_sends i data).of_ok _ hsend
  change n = min data.length MAX_UDP_PAYLOAD at hn
  rw [hsock]
  refine inv_of_host h rfl (fun d hd => List.mem_append_left _ hd) hsends.grows (fun u hu => ?_)
    (fun i f hf => .inl hf) (Keeps.slots h fun j slot => ?_)
  · obtain ⟨hsrc, hdst, hpayload⟩ := hu
    refine .inr ⟨⟨host, sock.localPort, sock.remotePort, data.take n⟩, List.mem_append_right _ (.head _),
      hsrc.symm, hdst.symm, ?_⟩
    rw [hpayload, hn, Nat.min_comm, ← List.take_eq_take_min]
  · refine keeps_of_sockets (fun d hd => List.mem_append_left _ hd) ⟨[], (List.append_nil _).symm⟩ rfl ?_
    show (upd s.hosts host st j).udpSockets slot = _
    by_cases hj : j = host
    · subst hj
      rw [upd_self, hsends.udp]
    · rw [upd_of_ne _ _ hj]

theorem receivedAt_other {st : Stack} {i slot j : Nat} {rs : List Received} (h : ¬ (j = host ∧ slot = i))
    (hrs : ∀ r ∈ rs, r.slot = i) :
    Segment.receivedAt { s.setHost host st with received := upd s.received host (s.received host ++ rs) } j
    slot = s.receivedAt j slot := by
  show (upd s.received host (s.received host ++ rs) j).filter _ = (s.received j).filter _
  by_cases hj : j = host
  · subst hj
    have hnone : rs.filter (fun r => r.slot == slot) = [] := by
      refine List.filter_eq_nil_iff.mpr fun r hr heq => ?_
      exact h ⟨rfl, (beq_iff_eq.mp heq).symm.trans (hrs r hr)⟩
    rw [upd_self, List.filter_append, hnone, List.append_nil]
  · rw [upd_of_ne _ _ hj]

theorem udpRecv_inv (h : s.Inv) {i cap : Nat} (hs : step s (.udpRecv host i cap) = .ok s') : s'.Inv := by
  refine orStay_inv h ⟨fun t ht => ?_⟩ hs
  obtain ⟨⟨st, bytes⟩, hrecv, ht⟩ := bind_eq_ok.mp ht
  cases ht
  obtain ⟨sock, sock', hsock, hsock', hst⟩ := (udpRecv_recv i cap).of_ok _ hrecv
  obtain ⟨hlen, hempty, hbytes⟩ := recv_bytes hsock'
  dsimp only at hst hbytes
  rw [hsock]
  subst hst
  refine inv_of_host (S := FromDhcpClient) h rfl (fun _ => id) (.of_eq rfl) (fun u hu => .inl hu)
    (fun i f hf => .inl hf) fun j slot => ?_
  by_cases hslot : j = host ∧ slot = i
  · obtain ⟨rfl, rfl⟩ := hslot
    obtain ⟨before, frame, after, hsplit, hgot, u, hu, horigin, hdst, hmin, hslice⟩ :=
      h.queued j slot sock hsock hlen
    refine ⟨?_, fun waiting hwaiting hne => ?_⟩
    · have hrec : Segment.receivedAt { s.setHost j ((s.hosts j).setUdp slot (some sock')) with
          received := upd s.received j (s.received j ++ [⟨slot, sock.localPort, cap, bytes⟩]) } j slot =
          s.receivedAt j slot ++ [⟨slot, sock.localPort, cap, bytes⟩] := by
        show (upd s.received j _ j).filter _ = (s.received j).filter _ ++ _
        have hone : [Received.mk slot sock.localPort cap bytes].filter (fun r => r.slot == slot) =
            [⟨slot, sock.localPort, cap, bytes⟩] :=
          List.filter_eq_self.mpr fun r hr => by rw [List.mem_singleton.mp hr]; exact beq_self_eq_true slot
        rw [upd_self, List.filter_append, hone]
      show List.SublistForall₂ s.Hands (Segment.receivedAt _ j slot) (s.arrived j)
      have hhands : s.Hands ⟨slot, sock.localPort, cap, bytes⟩ frame := by
        refine ⟨u, hu, horigin, hdst, ?_⟩
        rw [hbytes, hslice, List.take_take, Nat.min_comm]
      rw [Option.toList_some, List.map_singleton, hrec, hsplit, List.append_cons before]
      exact sublistForall₂_append (sublistForall₂_snoc hgot hhands) after
    · -- the socket is empty again
      change (upd s.hosts j ((s.hosts j).setUdp slot (some sock')) j).udpSockets slot = some waiting at hwaiting
      rw [upd_self] at hwaiting
      change upd (s.hosts j).udpSockets slot (some sock') slot = some waiting at hwaiting
      rw [upd_self] at hwaiting
      cases hwaiting
      exact absurd hempty hne
  · have hkeeps : Keeps s { s.setHost host ((s.hosts host).setUdp i (some sock')) with
        received := upd s.received host (s.received host ++ [⟨i, sock.localPort, cap, bytes⟩]) } j slot := by
      refine keeps_of_sockets (fun _ => id) ⟨[], (List.append_nil _).symm⟩
        (receivedAt_other hslot fun r hr => by rw [List.mem_singleton.mp hr]) ?_
      show (upd s.hosts host ((s.hosts host).setUdp i (some sock')) j).udpSockets slot = _
      by_cases hj : j = host
      · subst hj
        rw [upd_self]
        exact upd_of_ne _ _ fun heq => hslot ⟨rfl, heq⟩
      · rw [upd_of_ne _ _ hj]
    exact ⟨hkeeps.got (h.got j slot), hkeeps.queued (h.queued j slot)⟩

/-- The other calls leave what waits in a socket as it is, or throw the socket away. -/
structure SameSockets (st st' : Stack) : Prop where
  grows : st.Grows FromDhcpClient st'
  socket : ∀ slot sock', st'.udpSockets slot = some sock' → sock'.recvLen ≠ 0 →
    ∃ sock, st.udpSockets slot = some sock ∧ sock'.localPort = sock.localPort ∧ sock'.recvLen = sock.recvLen ∧
    sock'.recvBuf = sock.recvBuf

theorem SameSockets.of_sends {st st' : Stack} (h : st.Sends FromDhcpClient st') : SameSockets st st' :=
  ⟨h.grows, fun slot sock hsock _ => ⟨sock, by rw [← h.udp, hsock], rfl, rfl, rfl⟩⟩

/-- One slot gets a socket in which nothing waits that did not wait there before. -/
theorem SameSockets.of_setUdp {st : Stack} {i : Nat} {o : Option UdpSocket}
    (h : ∀ sock', o = some sock' → sock'.recvLen ≠ 0 →
      ∃ sock, st.udpSockets i = some sock ∧ sock'.localPort = sock.localPort ∧ sock'.recvLen = sock.recvLen ∧
      sock'.recvBuf = sock.recvBuf) :
    SameSockets st (st.setUdp i o) := by
  refine ⟨.of_eq rfl, fun slot sock' hsock' hlen => ?_⟩
  change upd st.udpSockets i o slot = some sock' at hsock'
  by_cases hslot : slot = i
  · subst hslot
    rw [upd_self] at hsock'
    exact h sock' hsock' hlen
  · rw [upd_of_ne _ _ hslot] at hsock'
    exact ⟨sock', hsock', rfl, rfl, rfl⟩

theorem other_sameSockets {st : Stack} {op : StackOp} (hop : isOther op = true) :
    (st.step op).Yields (SameSockets st) := by
  cases op with
  | frame bytes => cases hop
  | udpSend i data => cases hop
  | udpRecv i cap => cases hop
  | tcp op => exact yields_bind fun tcp => (withTcp_sends tcp).imp fun st' => .of_sends
  | udpBind port =>
    refine yields_ok ?_
    unfold Stack.udpBind
    split
    · exact .of_setUdp fun sock' hsock' hlen => by cases hsock'; exact absurd rfl hlen
    · exact .of_sends .refl
  | udpConnect i dstIp dstPort =>
    refine orStay_yields ⟨fun st' hst' => ?_⟩ (.of_sends .refl)
    unfold Stack.udpConnect at hst'
    split at hst'
    · rename_i sock hsock
      cases hst'
      split at hsock
      · exact .of_setUdp fun sock' hsock' _ => by cases hsock'; exact ⟨sock, hsock, rfl, rfl, rfl⟩
      · cases hsock
    · cases hst'
  | udpClose i =>
    refine yields_ok ?_
    unfold Stack.udpClose
    split
    · exact .of_setUdp fun sock' hsock' _ => by cases hsock'
    · exact .of_sends .refl
  | setIp ip => exact yields_ok (.of_sends (.of_eq rfl rfl))
  | dhcpStart => exact dhcpStart_sends.imp fun st' => .of_sends

theorem call_inv (h : s.Inv) {op : StackOp} (hs : step s (.call host op) = .ok s') : s'.Inv := by
  simp only [step] at hs
  split at hs
  · rename_i hop
    obtain ⟨st, hst, hs⟩ := bind_eq_ok.mp hs
    cases hs
    have hsame := (other_sameSockets hop).of_ok st hst
    refine inv_of_host h rfl (fun _ => id) hsame.grows (fun u hu => .inl hu) (fun i f hf => .inl hf)
      (Keeps.slots h fun i slot => ?_)
    refine ⟨fun _ => id, ⟨[], (List.append_nil _).symm⟩, rfl, fun sock' hsock' hlen => ?_⟩
    change (upd s.hosts host st i).udpSockets slot = some sock' at hsock'
    by_cases hi : i = host
    · subst hi
      rw [upd_self] at hsock'
      exact hsame.socket slot sock' hsock' hlen
    · rw [upd_of_ne _ _ hi] at hsock'
      exact ⟨sock', hsock', rfl, rfl, rfl⟩
  · cases hs
    exact h

theorem step_inv (h : s.Inv) {e : Event} (hs : step s e = .ok s') : s'.Inv := by
  cases e with
  | arrive host sender k => exact arrive_inv h hs
  | udpSend host i data => exact udpSend_inv h hs
  | udpRecv host i cap => exact udpRecv_inv h hs
  | call host op => exact call_inv h hs

theorem boot_inv (macs : Nat → Mac) : (Segment.boot macs).Inv :=
  ⟨fun host f hf => (by cases hf), fun host f hf => (by cases hf), fun host slot => .nil,
    fun host slot sock hsock => by cases hsock⟩

end

/-- In every run, whatever the network does with the frames: what the socket in a slot has handed out is what some
of the frames that came to its host carried for its port, in the order in which they came and each at most once,
cut to what the buffers hold; and, but for the DHCP clients' messages, the packets in these frames are what
applications have given to `udp_send`. -/
theorem udp_in_order (macs : Nat → Mac) (es : List Event) :
    Always step (fun s => ∀ host,
      (∀ slot, List.SublistForall₂ (fun (r : Received) frame => ∃ u, CarriesUdp frame u ∧ u.dstPort = r.port ∧
          r.bytes = u.payload.take (min MAX_UDP_PAYLOAD r.cap) ∧
          (FromDhcpClient u ∨ ∃ d ∈ s.sent, d.srcPort = u.srcPort ∧ d.dstPort = u.dstPort ∧ d.payload = u.payload))
        ((s.received host).filter fun r => r.slot == slot) (s.arrived host)) ∧
      ∀ frame ∈ s.arrived host, ∃ sender, frame ∈ (s.hosts sender).frames) (Segment.boot macs) es := by
  have hrun : Always step Segment.Inv (Segment.boot macs) es :=
    AllSteps.always (fun _ _ _ h _ hs => step_inv h hs) (boot_inv macs) (allSteps_of_forall (fun _ _ _ => trivial))
  refine hrun.mono fun s h host => ⟨fun slot => ?_, h.composed host⟩
  refine sublistForall₂_mono (fun r frame hr => ?_) (h.got host slot)
  obtain ⟨u, hu, horigin, hdst, hbytes⟩ := hr
  exact ⟨u, hu, hdst, hbytes, horigin⟩

end WasmOs.UdpService
