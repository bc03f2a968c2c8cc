import Mathlib.Data.Fintype.Pigeonhole
import WasmOs.TcpConn

/-!
# Ephemeral ports

`alloc_ephemeral_port` starts over at the next port whenever a socket has the one it tries. No socket
leaves the table and none changes its port, so a port that was given out stays taken.
-/

namespace WasmOs.Net

/-! ## One allocation -/

/-- Some socket in the table has this local port. -/
def NetworkStack.Taken (st : NetworkStack) (port : UInt16) : Prop :=
  ∃ i < MAX_SOCKETS, ∃ s, st.tcpSockets i = some s ∧ s.localPort = port

theorem not_taken {st : NetworkStack} {port : UInt16} (h : st.position (·.any fun s => s.localPort == port) =
      none) : ¬ st.Taken port := by
  intro ⟨i, hi, s, hs, hport⟩
  have hfree := NetworkStack.position_eq_none h hi
  rw [hs, Option.any_some, hport, beq_self_eq_true] at hfree
  cases hfree

/-- Nine consecutive ports cannot all be taken by eight sockets. -/
theorem exists_free_port (t : NetworkStack) (port : UInt16) :
    ∃ k < 9, t.position (·.any fun s => s.localPort == port + UInt16.ofNat k) = none := by
  by_contra hall
  push Not at hall
  have htaken : ∀ k : Fin 9, ∃ i : Fin 8, ∃ s, t.tcpSockets i = some s ∧ s.localPort = port + UInt16.ofNat k := by
    intro k
    obtain ⟨i, hi⟩ := Option.ne_none_iff_exists'.mp (hall k k.isLt)
    obtain ⟨hlt, s, hs, hp⟩ := NetworkStack.position_any hi
    exact ⟨⟨i, hlt⟩, s, hs, by simpa using hp⟩
  choose slot sock hsock hport using htaken
  obtain ⟨k, l, hne, heq⟩ := Fintype.exists_ne_map_eq_of_card_lt slot (by simp)
  have hs : sock k = sock l := by
    have := hsock k
    rw [heq, hsock l] at this
    exact (Option.some.inj this).symm
  have hp : port + UInt16.ofNat k = port + UInt16.ofNat l := by rw [← hport k, ← hport l, hs]
  have hkl : UInt16.ofNat k = UInt16.ofNat l := by simpa using hp
  have hnat := congrArg UInt16.toNat hkl
  simp only [UInt16.toNat_ofNat'] at hnat
  have := k.isLt
  have := l.isLt
  exact hne (Fin.ext (by omega))

theorem succ_add_ofNat (port : UInt16) (k : Nat) : port + 1 + UInt16.ofNat k = port + UInt16.ofNat (k + 1) := by
  apply UInt16.toNat_inj.mp
  simp only [UInt16.toNat_add, UInt16.toNat_ofNat', UInt16.toNat_one]
  omega

/-- The search ends at the first free port, at the latest at one known to be free. -/
theorem ephemeralFrom_ok (t : NetworkStack) {fuel k : Nat} {port : UInt16} (hk : k < fuel)
    (hfree : t.position (·.any fun s => s.localPort == port + UInt16.ofNat k) = none) :
    ∃ j ≤ k, t.ephemeralFrom fuel port = .ok (port + UInt16.ofNat j) ∧ ¬ t.Taken (port + UInt16.ofNat j) := by
  induction fuel generalizing port k with
  | zero => exact absurd hk (Nat.not_lt_zero k)
  | succ fuel ih =>
    have hzero : port + UInt16.ofNat 0 = port := by simp
    unfold NetworkStack.ephemeralFrom
    cases hpos : t.position (·.any fun s => s.localPort == port) with
    | none =>
      refine ⟨0, Nat.zero_le k, ?_, ?_⟩
      · rw [hzero]
      · rw [hzero]
        exact not_taken hpos
    | some i =>
      cases k with
      | zero =>
        rw [hzero, hpos] at hfree
        cases hfree
      | succ k =>
        rw [← succ_add_ofNat] at hfree
        obtain ⟨j, hj, hok, hfresh⟩ := ih (Nat.lt_of_succ_lt_succ hk) hfree
        rw [succ_add_ofNat] at hok hfresh
        exact ⟨j + 1, Nat.succ_le_succ hj, hok, hfresh⟩

theorem allocEphemeralPort_ok (t : NetworkStack) :
    ∃ port, t.allocEphemeralPort = .ok port ∧ 49152 ≤ port.toNat ∧ port.toNat ≤ 49152 + MAX_SOCKETS ∧
    ¬ t.Taken port := by
  obtain ⟨k, hk, hfree⟩ := exists_free_port t 49152
  obtain ⟨j, hj, hok, hfresh⟩ := ephemeralFrom_ok t (show k < 65536 by omega) hfree
  have hnat : (49152 + UInt16.ofNat j).toNat = 49152 + j := by
    rw [UInt16.toNat_add, UInt16.toNat_ofNat', show (49152 : UInt16).toNat = 49152 from rfl]
    omega
  refine ⟨_, hok, ?_, ?_, hfresh⟩
  · rw [hnat]
    exact Nat.le_add_right ..
  · rw [hnat, MAX_SOCKETS]
    omega

/-! ## The connections of a run -/

def NetworkStack.opens (st : NetworkStack) : NetOp → Option Nat
  | .connect dstIp dstPort =>
    match st.tcpConnect dstIp dstPort with
    | .ok (_, slot) => slot
    | .error _ => none
  | _ => none

/-- The stack, and the slots of the connections that `tcp_connect` opened. -/
structure Opened where
  st : NetworkStack
  slots : List Nat

namespace Opened

def init : Opened := ⟨.init, []⟩

/-- An accepted connection moves to another slot, a new one comes last. -/
def step (o : Opened) (op : NetOp) : Rust Unit Opened := do
  let st ← o.st.step op
  .ok ⟨st, o.slots.map (fun i => o.st.follow i op) ++ (o.st.opens op).toList⟩

def localPort (o : Opened) (i : Nat) : Option UInt16 := (o.st.tcpSockets i).map TcpSocket.localPort

/-- Every connection has its socket, and no two have the same local port. -/
structure Distinct (o : Opened) : Prop where
  held : ∀ i ∈ o.slots, o.st.Holds i
  ports : (o.slots.map o.localPort).Nodup

end Opened

theorem Effect.localPort {st : NetworkStack} {i : Nat} {s s' : TcpSocket} {op : NetOp} {txs : List Tx}
    (h : Effect st i s op s' txs) :
    s'.localPort = s.localPort := by
  cases h with
  | segment => exact s.handlePkt_localPort _ _
  | _ => rfl

/-- The new connection has a port that no socket of the table had. -/
theorem opens_fresh {st st' : NetworkStack} {op : NetOp} {i : Nat} (h : st.step op = .ok st')
    (ho : st.opens op = some i) :
    st'.Holds i ∧ ∃ port, (st'.tcpSockets i).map TcpSocket.localPort = some port ∧ ¬ st.Taken port := by
  cases op with
  | connect dstIp dstPort =>
    obtain ⟨slot, hconnect⟩ := map_fst_ok h
    rw [NetworkStack.opens, hconnect] at ho
    cases ho
    unfold NetworkStack.tcpConnect at hconnect
    obtain ⟨port, hport, hconnect⟩ := bind_eq_ok.mp hconnect
    obtain ⟨port', hport', -, -, hfresh⟩ := allocEphemeralPort_ok st
    cases hport.symm.trans hport'
    split at hconnect
    · next j hfree =>
      have hj := (NetworkStack.position_eq_some hfree).1
      have hnew : ∀ (s : TcpSocket) (tx : Tx), s.localPort = port → ((st.setSocket j s).send tx).Holds j ∧
          ∃ p, (((st.setSocket j s).send tx).tcpSockets j).map TcpSocket.localPort = some p ∧ ¬ st.Taken p := by
        intro s tx hs
        have hslot : ((st.setSocket j s).send tx).tcpSockets j = some s := upd_self ..
        refine ⟨⟨hj, s, hslot⟩, port, ?_, hfresh⟩
        rw [hslot, Option.map_some, hs]
      dsimp only at hconnect
      split at hconnect
      · cases hconnect
        exact hnew _ _ rfl
      · cases hconnect
        exact hnew _ _ rfl
    · cases hconnect
  | _ => cases ho

theorem distinct_step {o o' : Opened} {op : NetOp} (hd : o.Distinct) (h : o.step op = .ok o') : o'.Distinct := by
  obtain ⟨st', hst, heq⟩ := bind_eq_ok.mp h
  cases heq
  have hkept : ∀ i ∈ o.slots, (st'.tcpSockets (o.st.follow i op)).map TcpSocket.localPort = o.localPort i := by
    intro i hi
    obtain ⟨hlt, s, hs⟩ := hd.held i hi
    obtain ⟨-, s', hs', heffect⟩ := step_effect hlt hs hst
    rw [hs', Opened.localPort, hs, Option.map_some, Option.map_some, heffect.localPort]
  have hold : ∀ i ∈ o.slots.map (fun i => o.st.follow i op), st'.Holds i := by
    intro i hi
    obtain ⟨j, hj, rfl⟩ := List.mem_map.mp hi
    exact (hd.held j hj).step hst
  have hports : (o.slots.map fun i => o.st.follow i op).map
      (fun i => (st'.tcpSockets i).map TcpSocket.localPort) = o.slots.map o.localPort := by
    rw [List.map_map]
    exact List.map_congr_left hkept
  cases hopen : o.st.opens op with
  | none =>
    constructor
    · rw [Option.toList_none, List.append_nil]
      exact hold
    · rw [Option.toList_none, List.append_nil]
      exact hports ▸ hd.ports
  | some i =>
    obtain ⟨hi, port, hport, hfresh⟩ := opens_fresh hst hopen
    constructor
    · intro k hk
      rcases List.mem_append.mp hk with hk | hk
      · exact hold k hk
      · rw [List.mem_singleton.mp hk]
        exact hi
    · have hnew : some port ∉ o.slots.map o.localPort := by
        intro hmem
        obtain ⟨k, hk, heq⟩ := List.mem_map.mp hmem
        obtain ⟨s, hs, hsp⟩ := Option.map_eq_some_iff.mp heq
        exact hfresh ⟨k, (hd.held k hk).1, s, hs, hsp⟩
      rw [List.map_append]
      change (_ ++ [(st'.tcpSockets i).map TcpSocket.localPort]).Nodup
      rw [hport]
      change (((o.slots.map fun i => o.st.follow i op).map fun i =>
        (st'.tcpSockets i).map TcpSocket.localPort) ++ [some port]).Nodup
      rw [hports, ← List.concat_eq_append]
      exact hd.ports.concat hnew

/-- Connections have different local ports in every state of every run. -/
theorem distinct_always (ops : List NetOp) : Runs.Always Opened.step Opened.Distinct .init ops :=
  Runs.AllSteps.always (fun _ _ _ hd _ h => distinct_step hd h) ⟨nofun, List.nodup_nil⟩
    (Runs.allSteps_of_forall fun _ _ _ => trivial)

/-- The port that is given out is one of nine and is free, and no two connections of a run share one. -/
theorem ephemeral_ports :
    (∀ st : NetworkStack, ∃ port, st.allocEphemeralPort = .ok port ∧ 49152 ≤ port.toNat ∧
      port.toNat ≤ 49152 + MAX_SOCKETS ∧ ¬ st.Taken port) ∧
    ∀ ops : List NetOp, Runs.Always Opened.step Opened.Distinct .init ops :=
  ⟨allocEphemeralPort_ok, distinct_always⟩

end WasmOs.Net
