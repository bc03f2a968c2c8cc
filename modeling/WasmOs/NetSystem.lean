import WasmOs.StackFrames
import WasmOs.VirtioNetSound

/-!
# The stack over the card

The kernel's side of the network as it runs: `poll` takes a frame from the card and hands it to the stack,
and what the stack composes goes to `net_send` frame by frame. Whatever the card does meanwhile, the stack is
in the state it would be in if the delivered frames had been given to it directly, and the card reads the
frames that the stack composes, in that order.
-/

namespace WasmOs

/-! ## The kernel and the card -/

namespace NetSystem

open Net Runs

/-- `outbox` are the composed frames that `net_send` has not been called with yet, `handled` counts the frames
from the card that the stack has been given, and `ops` is what was done to the stack, in order. -/
structure Sys where
  card : VirtioNet.St
  stack : Stack
  outbox : List (List UInt8)
  handled : Nat
  ops : List StackOp

def Sys.init (mac : Mac) : Sys := ⟨.init, newStack mac, [], 0, []⟩

inductive Event where
  /-- `poll` calls `net_recv` -/
  | poll
  /-- what `net_recv` has returned goes to `handle_eth` -/
  | dispatch
  | call (op : StackOp)
  /-- the next composed frame goes to `net_send` -/
  | send
  | card (e : VirtioNet.Event)

/-- Frames and segments come from the card. -/
def isCall : StackOp → Bool
  | .frame _ => false
  | .tcp (.segment _ _) => false
  | _ => true

/-- A step of the card, or of the driver inside a call. -/
def isInner : VirtioNet.Event → Bool
  | .netSend _ => false
  | .netRecv _ => false
  | _ => true

namespace Sys

/-- The stack is at rest: what it has composed is on its way, and no call of the driver runs. -/
def Rests (s : Sys) : Prop := s.card.pc = .idle ∧ s.outbox = []

instance (s : Sys) : Decidable s.Rests := inferInstanceAs (Decidable (_ ∧ _))

/-- An operation of the stack; what it composes goes to the outbox. -/
def run (s : Sys) (op : StackOp) (handled : Nat) : Except Unit Sys :=
  match s.stack.step op with
  | .ok stack =>
    .ok { s with stack := stack, outbox := stack.frames.drop s.stack.frames.length, handled := handled,
                 ops := s.ops ++ [op] }
  | .error _ => .error ()

end Sys

/-- `.error ()` where the event cannot happen. -/
def step (q : VirtioNet.QSize) (s : Sys) : Event → Except Unit Sys
  | .poll =>
    if s.Rests ∧ s.handled = s.card.rx.received.length then do
      let card ← VirtioNet.step q s.card (.netRecv ETH_FRAME_SIZE)
      .ok { s with card := card }
    else .error ()
  | .dispatch =>
    if s.Rests then
      match s.card.rx.received[s.handled]? with
      | some frame => s.run (.frame frame) (s.handled + 1)
      | none => .error ()
    else .error ()
  | .call op =>
    if s.Rests ∧ s.handled = s.card.rx.received.length ∧ isCall op then s.run op s.handled else .error ()
  | .send =>
    match s.outbox with
    | frame :: rest =>
      if s.card.pc = .idle then do
        let card ← VirtioNet.step q s.card (.netSend frame)
        .ok { s with card := card, outbox := rest }
      else .error ()
    | [] => .error ()
  | .card e =>
    if isInner e then do
      let card ← VirtioNet.step q s.card e
      .ok { s with card := card }
    else .error ()

def framesOf : List StackOp → List (List UInt8)
  | [] => []
  | .frame bytes :: ops => bytes :: framesOf ops
  | _ :: ops => framesOf ops

/-! ## What holds between them -/

/-- The frame that a call of `net_send` was made with. -/
def handedOver : VirtioNet.Pc → List (List UInt8)
  | .tx (.filling frame) => [frame]
  | .tx (.posting frame _) => [frame]
  | .tx (.waiting frame _) => [frame]
  | _ => []

def Receiving (pc : VirtioNet.Pc) : Prop := ∃ p, pc = .rx p

theorem not_receiving_tx {o : Option VirtioNet.TxPc} : ¬ Receiving (o.elim .idle .tx) := by
  rintro ⟨p, hp⟩
  cases o <;> cases hp

/-- How a step inside a call, or of the card, changes what the kernel sees. -/
structure InnerStep (c c' : VirtioNet.St) : Prop where
  received : c'.rx.received = c.rx.received ∧ (c'.pc ≠ .idle → c.pc ≠ .idle) ∨
    (∃ frame, c'.rx.received = c.rx.received ++ [frame]) ∧ Receiving c.pc ∧ c'.pc = .idle
  receiving : Receiving c'.pc → Receiving c.pc
  timeouts : c'.tx.timeouts = 0 → c.tx.timeouts = 0
  sent : c'.tx.timeouts = 0 → c'.tx.sent ++ handedOver c'.pc = c.tx.sent ++ handedOver c.pc

section
variable {q : VirtioNet.QSize} {c c' : VirtioNet.St}

theorem txDriver_inner {p : VirtioNet.TxPc} (hp : c.pc = .tx p) :
    InnerStep c { c with tx := (c.tx.driver q p).1, pc := (c.tx.driver q p).2.elim .idle .tx } := by
  have hbusy : c.pc ≠ .idle := by rw [hp]; exact VirtioNet.Pc.noConfusion
  refine ⟨.inl ⟨rfl, fun _ => hbusy⟩, fun h => absurd h not_receiving_tx, ?_, ?_⟩
  · cases p with
    | filling frame => exact id
    | posting frame rest => cases rest <;> exact id
    | waiting frame spins =>
      simp only [VirtioNet.Tx.driver]
      split
      · exact id
      · split
        · exact fun h => absurd h (Nat.succ_ne_zero _)
        · exact id
  · rw [hp]
    cases p with
    | filling frame => exact fun _ => rfl
    | posting frame rest => cases rest <;> exact fun _ => rfl
    | waiting frame spins =>
      simp only [VirtioNet.Tx.driver]
      split
      · intro _
        show (c.tx.sent ++ [frame]) ++ [] = c.tx.sent ++ [frame]
        rw [List.append_nil]
      · split
        · exact fun h => absurd h (Nat.succ_ne_zero _)
        · exact fun _ => rfl

theorem rxDriver_inner {p : VirtioNet.RxPc} (hp : c.pc = .rx p) :
    InnerStep c { c with rx := (c.rx.driver q p).1, pc := (c.rx.driver q p).2.elim .idle .rx } := by
  have hbusy : c.pc ≠ .idle := by rw [hp]; exact VirtioNet.Pc.noConfusion
  have hnone : ∀ o : Option VirtioNet.RxPc, handedOver (o.elim .idle .rx) = handedOver c.pc := by
    intro o
    rw [hp]
    cases o <;> rfl
  refine ⟨?_, fun _ => ⟨p, hp⟩, id, fun _ => congrArg (c.tx.sent ++ ·) (hnone _)⟩
  cases p with
  | polling =>
    simp only [VirtioNet.Rx.driver]
    split <;> exact .inl ⟨rfl, fun _ => hbusy⟩
  | measuring => exact .inl ⟨rfl, fun _ => hbusy⟩
  | copying n => exact .inl ⟨rfl, fun _ => hbusy⟩
  | reposting frame rest =>
    cases rest with
    | cons w rest => exact .inl ⟨rfl, fun _ => hbusy⟩
    | nil =>
      simp only [VirtioNet.Rx.driver]
      split
      · exact .inl ⟨rfl, fun _ => hbusy⟩
      · exact .inr ⟨⟨frame, rfl⟩, ⟨_, hp⟩, rfl⟩

theorem card_inner (hpc : c'.pc = c.pc) (hrec : c'.rx.received = c.rx.received) (hsent : c'.tx.sent = c.tx.sent)
    (htime : c'.tx.timeouts = c.tx.timeouts) : InnerStep c c' := by
  refine ⟨.inl ⟨hrec, ?_⟩, ?_, ?_, fun _ => ?_⟩
  · rw [hpc]
    exact id
  · rw [hpc]
    exact id
  · rw [htime]
    exact id
  · rw [hpc, hsent]

theorem inner_step {e : VirtioNet.Event} (he : isInner e = true) (hs : VirtioNet.step q c e = .ok c') :
    InnerStep c c' := by
  cases e with
  | netSend frame => cases he
  | netRecv cap => cases he
  | driver =>
    simp only [VirtioNet.step] at hs
    split at hs
    · cases hs
    · rename_i p hp
      cases hs
      exact txDriver_inner hp
    · rename_i p hp
      cases hs
      exact rxDriver_inner hp
  | txTake =>
    simp only [VirtioNet.step] at hs
    cases ht : c.tx.take q with
    | error e => rw [ht] at hs; cases hs
    | ok t =>
      rw [ht] at hs
      cases hs
      unfold VirtioNet.Tx.take at ht
      split at ht <;> cases ht
      exact card_inner rfl rfl rfl rfl
  | txRead i =>
    simp only [VirtioNet.step] at hs
    cases ht : c.tx.read i with
    | error e => rw [ht] at hs; cases hs
    | ok t =>
      rw [ht] at hs
      cases hs
      unfold VirtioNet.Tx.read at ht
      split at ht
      · rename_i head ds hjob
        cases hparts : ds.mapM c.tx.readDesc <;> rw [hparts] at ht <;> cases ht
        exact card_inner rfl rfl rfl rfl
      · cases ht
  | txComplete =>
    simp only [VirtioNet.step] at hs
    cases ht : c.tx.complete q with
    | error e => rw [ht] at hs; cases hs
    | ok t =>
      rw [ht] at hs
      cases hs
      unfold VirtioNet.Tx.complete at ht
      split at ht <;> cases ht
      exact card_inner rfl rfl rfl rfl
  | rxTake =>
    simp only [VirtioNet.step] at hs
    cases ht : c.rx.take q with
    | error e => rw [ht] at hs; cases hs
    | ok r =>
      rw [ht] at hs
      cases hs
      unfold VirtioNet.Rx.take at ht
      split at ht
      · cases ht
      · split at ht <;> cases ht
        exact card_inner rfl rfl rfl rfl
  | rxScribble i bytes =>
    simp only [VirtioNet.step] at hs
    cases ht : c.rx.scribble i bytes with
    | error e => rw [ht] at hs; cases hs
    | ok r =>
      rw [ht] at hs
      cases hs
      unfold VirtioNet.Rx.scribble at ht
      split at ht
      · split at ht <;> cases ht
        exact card_inner rfl rfl rfl rfl
      · cases ht
  | rxDeliver hdr frame =>
    simp only [VirtioNet.step] at hs
    cases ht : c.rx.deliver q hdr frame with
    | error e => rw [ht] at hs; cases hs
    | ok r =>
      rw [ht] at hs
      cases hs
      unfold VirtioNet.Rx.deliver at ht
      split at ht
      · split at ht <;> cases ht
        exact card_inner rfl rfl rfl rfl
      · cases ht
  | rxComplete =>
    simp only [VirtioNet.step] at hs
    cases ht : c.rx.complete with
    | error e => rw [ht] at hs; cases hs
    | ok r =>
      rw [ht] at hs
      cases hs
      unfold VirtioNet.Rx.complete at ht
      split at ht <;> cases ht
      exact card_inner rfl rfl rfl rfl

end

structure Sys.Inv (q : VirtioNet.QSize) (mac : Mac) (s : Sys) : Prop where
  card : s.card.Inv q
  run : runAll Stack.step (newStack mac) s.ops = .ok s.stack
  given : framesOf s.ops = s.card.rx.received.take s.handled
  handled : s.handled ≤ s.card.rx.received.length
  behind : s.card.rx.received.length ≤ s.handled + 1
  busy : s.card.pc ≠ .idle ∨ s.outbox ≠ [] → s.handled = s.card.rx.received.length
  receiving : Receiving s.card.pc → s.outbox = []
  out : ∀ f ∈ s.outbox, Sendable f
  frames : s.card.tx.timeouts = 0 → s.stack.frames = s.card.tx.sent ++ handedOver s.card.pc ++ s.outbox

theorem framesOf_append (as bs : List StackOp) : framesOf (as ++ bs) = framesOf as ++ framesOf bs := by
  induction as with
  | nil => rfl
  | cons a as ih =>
    cases a with
    | frame bytes =>
      show bytes :: framesOf (as ++ bs) = bytes :: (framesOf as ++ framesOf bs)
      rw [ih]
    | _ => exact ih

theorem framesOf_call {op : StackOp} (h : isCall op = true) : framesOf [op] = [] := by
  cases op with
  | frame bytes => cases h
  | _ => rfl

section
variable {q : VirtioNet.QSize} {mac : Mac} {s s' : Sys}

theorem init_inv (q : VirtioNet.QSize) (mac : Mac) : (Sys.init mac).Inv q mac :=
  ⟨⟨VirtioNet.Tx.init_inv, VirtioNet.Rx.init_inv⟩, rfl, rfl, Nat.le_refl _, Nat.zero_le _, fun _ => rfl,
    fun _ => rfl,
    fun f hf => (by cases hf), fun _ => rfl⟩

theorem run_inv (h : s.Inv q mac) (hrest : s.Rests) {op : StackOp} {n : Nat}
    (hgiven : framesOf (s.ops ++ [op]) = s.card.rx.received.take n) (hn : n = s.card.rx.received.length)
    (hs : s.run op n = .ok s') : s'.Inv q mac := by
  unfold Sys.run at hs
  split at hs
  · rename_i stack hstep
    cases hs
    obtain ⟨frames, hframes, hall⟩ := (step_grows op).of_ok stack hstep
    have hout : stack.frames.drop s.stack.frames.length = frames := by rw [hframes, List.drop_left]
    have hrun : runAll Stack.step (newStack mac) (s.ops ++ [op]) = .ok stack := by
      rw [runAll_append _ h.run, runAll_cons _ hstep]
      rfl
    refine ⟨h.card, hrun, hgiven, Nat.le_of_eq hn, Nat.le_succ_of_le (Nat.le_of_eq hn.symm), fun _ => hn,
      fun hrec => ?_, ?_, fun htime => ?_⟩
    · obtain ⟨p, hp⟩ := hrec
      have hpc : s.card.pc = .rx p := hp
      rw [hrest.1] at hpc
      cases hpc
    · show ∀ f ∈ stack.frames.drop s.stack.frames.length, Sendable f
      rw [hout]
      exact fun f hf => (hall f hf).1
    · show stack.frames = s.card.tx.sent ++ handedOver s.card.pc ++ stack.frames.drop s.stack.frames.length
      have hbefore := h.frames htime
      rw [hrest.2, List.append_nil] at hbefore
      rw [hout, hframes, hbefore]
  · cases hs

theorem poll_inv (h : s.Inv q mac) (hs : step q s .poll = .ok s') : s'.Inv q mac := by
  simp only [step] at hs
  split at hs
  · rename_i hcond
    obtain ⟨⟨hidle, hout⟩, hhandled⟩ := hcond
    cases hcard : VirtioNet.step q s.card (.netRecv ETH_FRAME_SIZE) with
    | error e => rw [hcard] at hs; cases hs
    | ok card =>
      rw [hcard] at hs
      cases hs
      have hinv := VirtioNet.step_inv h.card hcard
      simp only [VirtioNet.step, hidle] at hcard
      split at hcard
      · cases hcard
        exact h
      · cases hcard
        refine ⟨hinv, h.run, h.given, h.handled, h.behind, fun _ => hhandled, fun _ => hout, h.out, fun htime => ?_⟩
        have hframes := h.frames htime
        rw [hidle] at hframes
        exact hframes
  · cases hs

theorem send_inv (h : s.Inv q mac) (hs : step q s .send = .ok s') : s'.Inv q mac := by
  simp only [step] at hs
  split at hs
  · rename_i frame rest hout
    split at hs
    · rename_i hidle
      cases hcard : VirtioNet.step q s.card (.netSend frame) with
      | error e => rw [hcard] at hs; cases hs
      | ok card =>
        rw [hcard] at hs
        cases hs
        have hinv := VirtioNet.step_inv h.card hcard
        have hsendable : Sendable frame := h.out frame (by rw [hout]; exact .head _)
        have hhandled : s.handled = s.card.rx.received.length :=
          h.busy (.inr (by rw [hout]; exact List.cons_ne_nil _ _))
        simp only [VirtioNet.step, hidle] at hcard
        -- the stack composes no frame that `net_send` refuses
        have hlen : ¬ (frame.length < VirtioNet.ETH_HDR_SIZE ∨ VirtioNet.ETH_FRAME_SIZE < frame.length) :=
          not_or.mpr ⟨Nat.not_lt.mpr hsendable.1, Nat.not_lt.mpr hsendable.2⟩
        rw [if_neg hlen] at hcard
        cases hcard
        refine ⟨hinv, h.run, h.given, h.handled, h.behind, fun _ => hhandled, fun hrec => ?_, fun f hf =>
          h.out f ?_, fun htime => ?_⟩
        · obtain ⟨p, hp⟩ := hrec
          cases hp
        · rw [hout]
          exact .tail _ hf
        · have hframes := h.frames htime
          rw [hidle, hout] at hframes
          show s.stack.frames = s.card.tx.sent ++ [frame] ++ rest
          rw [hframes]
          simp [handedOver]
    · cases hs
  · cases hs

theorem card_inv (h : s.Inv q mac) {e : VirtioNet.Event} (hs : step q s (.card e) = .ok s') : s'.Inv q mac := by
  simp only [step] at hs
  split at hs
  · rename_i he
    cases hcard : VirtioNet.step q s.card e with
    | error e => rw [hcard] at hs; cases hs
    | ok card =>
      rw [hcard] at hs
      cases hs
      have hinner := inner_step he hcard
      have hinv := VirtioNet.step_inv h.card hcard
      have hframes : card.tx.timeouts = 0 → s.stack.frames = card.tx.sent ++ handedOver card.pc ++ s.outbox := by
        intro htime
        rw [hinner.sent htime]
        exact h.frames (hinner.timeouts htime)
      rcases hinner.received with ⟨hrec, hbusy⟩ | ⟨⟨frame, hrec⟩, hrx, hidle⟩
      · refine ⟨hinv, h.run, ?_, ?_, ?_, fun hb => ?_, fun hr => h.receiving (hinner.receiving hr), h.out, hframes⟩
        · rw [hrec]
          exact h.given
        · rw [hrec]
          exact h.handled
        · rw [hrec]
          exact h.behind
        · rw [hrec]
          exact h.busy (hb.imp hbusy id)
      · -- the call that returns a frame began with every frame handled and nothing to send
        have hout : s.outbox = [] := h.receiving hrx
        have hbusy : s.card.pc ≠ .idle := by
          obtain ⟨p, hp⟩ := hrx
          rw [hp]
          exact VirtioNet.Pc.noConfusion
        have hall : s.handled = s.card.rx.received.length := h.busy (.inl hbusy)
        have hlen : card.rx.received.length = s.handled + 1 := by rw [hrec, List.length_append, ← hall]; rfl
        refine ⟨hinv, h.run, ?_, ?_, ?_, fun hb => ?_, fun _ => hout, h.out, hframes⟩
        · show framesOf s.ops = card.rx.received.take s.handled
          rw [hrec, hall, List.take_left, h.given, hall, List.take_length]
        · exact Nat.le_trans (Nat.le_succ _) (Nat.le_of_eq hlen.symm)
        · exact Nat.le_of_eq hlen
        · rcases hb with hb | hb
          · exact absurd hidle hb
          · exact absurd hout hb
  · cases hs

theorem dispatch_inv (h : s.Inv q mac) (hs : step q s .dispatch = .ok s') : s'.Inv q mac := by
  simp only [step] at hs
  split at hs
  · rename_i hrest
    split at hs
    · rename_i frame hframe
      have hlt : s.handled < s.card.rx.received.length := (List.getElem?_eq_some_iff.mp hframe).1
      have hall : s.handled + 1 = s.card.rx.received.length := Nat.le_antisymm hlt h.behind
      refine run_inv h hrest ?_ hall hs
      rw [framesOf_append, h.given, List.take_add_one, hframe]
      rfl
    · cases hs
  · cases hs

theorem call_inv (h : s.Inv q mac) {op : StackOp} (hs : step q s (.call op) = .ok s') : s'.Inv q mac := by
  simp only [step] at hs
  split at hs
  · rename_i hcond
    obtain ⟨hrest, hhandled, hop⟩ := hcond
    refine run_inv h hrest ?_ hhandled hs
    rw [framesOf_append, framesOf_call hop, List.append_nil]
    exact h.given
  · cases hs

theorem step_inv (h : s.Inv q mac) {e : Event} (hs : step q s e = .ok s') : s'.Inv q mac := by
  cases e with
  | poll => exact poll_inv h hs
  | dispatch => exact dispatch_inv h hs
  | call op => exact call_inv h hs
  | send => exact send_inv h hs
  | card e => exact card_inv h hs

end

/-- In every state of every run, the stack is where the frames it was given and the calls alone would have
brought it; these frames are the ones the card delivered, in order, but for the one in the receive buffer and
the one just taken from it. As long as no `net_send` has given up, the card has read the frames the stack
composed, in order, and once nothing is on its way it has read them all. -/
theorem stack_over_card (q : VirtioNet.QSize) (mac : Mac) (es : List Event) :
    Always (step q) (fun s =>
      runAll Stack.step (newStack mac) s.ops = .ok s.stack ∧
      (∃ waiting : List (List UInt8), waiting.length ≤ 2 ∧ VirtioNet.telling s.card.rx.delivered =
        framesOf s.ops ++ waiting ∧
        (s.card.pc = .idle → s.card.rx.vq.usedIdx = s.card.rx.lastUsed →
          s.handled = s.card.rx.received.length → waiting = [])) ∧
      (s.card.tx.timeouts = 0 → ∃ pending, s.stack.frames = s.card.tx.consumed ++ pending ∧
        (s.Rests → pending = []))) (Sys.init mac) es := by
  have hrun : Always (step q) (Sys.Inv q mac) (Sys.init mac) es :=
    AllSteps.always (fun _ _ _ h _ hs => step_inv h hs) (init_inv q mac) (allSteps_of_forall (fun _ _ _ => trivial))
  refine hrun.mono fun s h => ⟨h.run, ?_, fun htime => ?_⟩
  · obtain ⟨waiting, hlen, hall, hnone⟩ := h.card.rx.waiting
    refine ⟨s.card.rx.received.drop s.handled ++ waiting, ?_, ?_, fun hidle hused hhandled => ?_⟩
    · have hbehind := h.behind
      rw [List.length_append, List.length_drop]
      omega
    · rw [hall, h.given, ← List.append_assoc, List.take_append_drop]
    · rw [hhandled, List.drop_length, hnone ?_ hused, List.append_nil]
      rw [hidle]
      rfl
  · have hframes := h.frames htime
    rcases h.card.tx.consumed_eq htime with hall | ⟨frame, spins, hpc, hall⟩
    · refine ⟨handedOver s.card.pc ++ s.outbox, by rw [hframes, hall, List.append_assoc], fun hrest => ?_⟩
      rw [hrest.1, hrest.2]
      rfl
    · -- the frame of the call that waits has been read already
      have hpc' : s.card.pc = .tx (.waiting frame spins) := by
        cases hp : s.card.pc with
        | tx p => rw [hp] at hpc; cases hpc; rfl
        | idle => rw [hp] at hpc; cases hpc
        | rx p => rw [hp] at hpc; cases hpc
      refine ⟨s.outbox, ?_, fun hrest => hrest.2⟩
      rw [hframes, hall, hpc']
      rfl

end NetSystem

end WasmOs
