import WasmOs.Runs
import WasmOs.VirtioNet

/-!
# Frames in and out

What `net_recv` returns is what the card delivered, frame by frame, whatever the card does in between and
however often the indices have wrapped. What `net_send` reports as sent the card has read, once and in
order, as long as no call has given up waiting: after that a chain is still out, and the next call takes its
completion for its own.
-/

namespace WasmOs.VirtioNet

open Runs

theorem QSize.one_lt (q : QSize) : 1 < q.val := by
  obtain ⟨k, hk, -, hval⟩ := q.isPow
  rw [hval]
  exact Nat.one_lt_two_pow (by omega)

theorem QSize.and_mask (q : QSize) (x : UInt16) : (x &&& q.mask).toNat = x.toNat % q.val := by
  obtain ⟨k, -, hk, hval⟩ := q.isPow
  have hlt : 2 ^ k - 1 < 2 ^ 16 := Nat.lt_of_lt_of_le (Nat.sub_lt (Nat.two_pow_pos k) Nat.one_pos)
    (Nat.pow_le_pow_right Nat.two_pos (by omega))
  rw [QSize.mask, hval, UInt16.toNat_and, UInt16.toNat_ofNat_of_lt' hlt, Nat.and_two_pow_sub_one_eq_mod]

/-- A chain head goes into the ring of a queue whose entries are all 0. -/
theorem store_availRing {vq : Vq} (h : ∀ i, vq.availRing i = 0) (w : Store) (i : Nat) :
    (vq.store w).availRing i = 0 := by
  cases w with
  | desc idx d => exact h i
  | availRing slot =>
    show upd vq.availRing slot 0 i = 0
    unfold upd
    split
    · rfl
    · exact h i

/-! ## Receiving -/

/-- The frames that `net_recv` can return: a length of 0 says that there is none. -/
def telling (frames : List (List UInt8)) : List (List UInt8) := frames.filter fun f => f.length != 0

theorem telling_append (fs gs : List (List UInt8)) : telling (fs ++ gs) = telling fs ++ telling gs :=
  List.filter_append ..

theorem telling_single (frame : List UInt8) : telling [frame] = if frame.length = 0 then [] else [frame] := by
  unfold telling
  by_cases h : frame.length = 0 <;> simp [h]

namespace Rx

structure Holds (q : QSize) (r : Rx) (at' : UInt16) (frame : List UInt8) : Prop where
  len : frame.length ≤ ETH_FRAME_SIZE
  buf : slice r.buf NET_HDR_SIZE frame.length = frame
  entry : (r.vq.usedRing (at'.toNat % q.val)).len.toNat = NET_HDR_SIZE + frame.length

inductive Lent (q : QSize) (r : Rx) : Prop where
  | posted (hjob : r.job = none) (havail : r.vq.availIdx = r.lastAvail + 1) (hdesc : r.vq.desc 0 = rxDesc)
  | taken (hjob : r.job = some (.taken 0 rxDesc)) (havail : r.vq.availIdx = r.lastAvail)
  | filled (frame : List UInt8) (hjob : r.job = some (.filled 0 frame)) (havail : r.vq.availIdx = r.lastAvail)
      (hholds : r.Holds q r.vq.usedIdx frame)

inductive Phase (q : QSize) (r : Rx) : Option RxPc → Prop where
  | lent (pc : Option RxPc) (hpc : pc = none ∨ pc = some .polling) (hlent : r.Lent q)
    (hused : r.vq.usedIdx = r.lastUsed)
      (hall : telling r.delivered = r.received) : Phase q r pc
  | back (pc : Option RxPc) (frame : List UInt8)
      (hpc : pc = none ∨ pc = some .polling ∨ pc = some .measuring ∨ pc = some (.copying frame.length))
      (hjob : r.job = none) (havail : r.vq.availIdx = r.lastAvail) (hused : r.vq.usedIdx = r.lastUsed + 1)
      (hholds : r.Holds q r.lastUsed frame) (hall : telling r.delivered = r.received ++ telling [frame]) :
        Phase q r pc
  | out (frame : List UInt8) (rest : List Store) (hjob : r.job = none) (havail : r.vq.availIdx = r.lastAvail)
      (hused : r.vq.usedIdx = r.lastUsed) (hdesc : (rest.foldl Vq.store r.vq).desc 0 = rxDesc)
      (hall : telling r.delivered = r.received ++ telling [frame]) : Phase q r (some (.reposting frame rest))

structure Inv (q : QSize) (r : Rx) (pc : Option RxPc) : Prop where
  ring : ∀ i, r.vq.availRing i = 0
  phase : r.Phase q pc

variable {q : QSize} {r r' : Rx} {pc : Option RxPc}

theorem init_inv : Rx.init.Inv q none := by
  refine ⟨store_availRing (fun _ => rfl) (.availRing 0), .lent none (.inl rfl) (.posted rfl rfl rfl) rfl rfl⟩

theorem repost_desc (vq : Vq) (availIdx : UInt16) : ((repost q availIdx).foldl Vq.store vq).desc 0 = rxDesc := rfl

theorem publish_inv {frame : List UInt8} (h : r.Inv q (some (.reposting frame []))) :
    (r.driver q (.reposting frame [])).1.Inv q none := by
  obtain ⟨hring, hphase⟩ := h
  refine ⟨hring, ?_⟩
  cases hphase with
  | lent _ hpc => rcases hpc with h | h <;> cases h
  | back _ _ hpc => rcases hpc with h | h | h | h <;> cases h
  | out _ _ hjob havail hused hdesc hall =>
    refine .lent none (.inl rfl) (.posted hjob ?_ hdesc) hused ?_
    · exact congrArg (· + 1) havail
    · rw [telling_single] at hall
      show telling r.delivered = if frame.length = 0 then r.received else r.received ++ [frame]
      split
      · rename_i hlen
        rw [hall, if_pos hlen, List.append_nil]
      · rename_i hlen
        rw [hall, if_neg hlen]

theorem driver_inv {p : RxPc} (h : r.Inv q (some p)) : (r.driver q p).1.Inv q (r.driver q p).2 := by
  cases p with
  | polling =>
    obtain ⟨hring, hphase⟩ := h
    simp only [driver]
    split
    · rename_i heq
      refine ⟨hring, ?_⟩
      cases hphase with
      | lent _ _ hlent hused hall => exact .lent none (.inl rfl) hlent hused hall
      | back _ frame _ _ _ hused => exact absurd (UInt16.add_eq_left.mp (hused.symm.trans heq)) (by decide)
    · rename_i hne
      refine ⟨hring, ?_⟩
      cases hphase with
      | lent _ _ _ hused => exact absurd hused hne
      | back _ frame _ hjob havail hused hholds hall =>
        exact .back _ frame (.inr (.inr (.inl rfl))) hjob havail hused hholds hall
  | measuring =>
    obtain ⟨hring, hphase⟩ := h
    refine ⟨hring, ?_⟩
    cases hphase with
    | lent _ hpc => rcases hpc with h | h <;> cases h
    | back _ frame _ hjob havail hused hholds hall =>
      refine .back _ frame (.inr (.inr (.inr ?_))) hjob havail hused hholds hall
      -- the entry's length is that of the header and the frame
      have hlen : min (NET_HDR_SIZE + frame.length - NET_HDR_SIZE) ETH_FRAME_SIZE = frame.length := by
        rw [Nat.add_sub_cancel_left]
        exact Nat.min_eq_left hholds.len
      show some (RxPc.copying (min ((r.vq.usedRing (r.lastUsed &&& q.mask).toNat).len.toNat - NET_HDR_SIZE)
        ETH_FRAME_SIZE)) = _
      rw [q.and_mask, hholds.entry, hlen]
  | copying n =>
    obtain ⟨hring, hphase⟩ := h
    refine ⟨hring, ?_⟩
    cases hphase with
    | lent _ hpc => rcases hpc with h | h <;> cases h
    | back _ frame hpc hjob havail hused hholds hall =>
      have hn : n = frame.length := by
        rcases hpc with h | h | h | h <;> cases h
        rfl
      subst hn
      have hphase : Phase q { r with lastUsed := r.lastUsed + 1 }
        (some (.reposting frame (repost q r.vq.availIdx))) :=
        .out frame _ hjob havail hused (repost_desc r.vq _) hall
      show Phase q _ (some (.reposting (slice r.buf NET_HDR_SIZE frame.length) _))
      rw [hholds.buf]
      exact hphase
  | reposting frame rest =>
    cases rest with
    | nil => exact publish_inv h
    | cons w rest =>
      obtain ⟨hring, hphase⟩ := h
      refine ⟨store_availRing hring w, ?_⟩
      cases hphase with
      | lent _ hpc => rcases hpc with h | h <;> cases h
      | back _ _ hpc => rcases hpc with h | h | h | h <;> cases h
      | out _ _ hjob havail hused hdesc hall =>
        refine .out frame rest hjob ?_ ?_ hdesc hall
        · cases w <;> exact havail
        · cases w <;> exact hused

theorem take_inv (h : r.Inv q pc) (hs : r.take q = .ok r') : r'.Inv q pc := by
  obtain ⟨hring, hphase⟩ := h
  unfold take at hs
  split at hs
  · cases hs
  · rename_i hnone
    split at hs
    · cases hs
    · rename_i hne
      cases hs
      refine ⟨hring, ?_⟩
      cases hphase with
      | lent _ hpc hlent hused hall =>
        refine .lent pc hpc ?_ hused hall
        cases hlent with
        | posted _ havail hdesc =>
          refine .taken ?_ havail
          show some (RxJob.taken (r.vq.availRing _) (r.vq.desc (r.vq.availRing _).toNat)) = _
          rw [hring]
          exact congrArg (fun d => some (RxJob.taken 0 d)) hdesc
        | taken _ havail => exact absurd havail.symm hne
        | filled _ _ havail => exact absurd havail.symm hne
      | back _ _ _ _ havail => exact absurd havail.symm hne
      | out _ _ _ havail => exact absurd havail.symm hne

/-- What the card holds is a chain it has taken or one it has filled. -/
theorem Phase.lent_of_job {j : RxJob} (h : r.Phase q pc) (hj : r.job = some j) :
    (pc = none ∨ pc = some .polling) ∧ r.Lent q ∧ r.vq.usedIdx = r.lastUsed ∧ telling r.delivered = r.received := by
  cases h with
  | lent _ hpc hlent hused hall => exact ⟨hpc, hlent, hused, hall⟩
  | back _ _ _ hjob => rw [hjob] at hj; cases hj
  | out _ _ hjob => rw [hjob] at hj; cases hj

theorem Lent.taken_eq {head : UInt16} {d : Desc} (h : r.Lent q) (hj : r.job = some (.taken head d)) :
    head = 0 ∧ d = rxDesc ∧ r.vq.availIdx = r.lastAvail := by
  cases h with
  | posted hjob => rw [hjob] at hj; cases hj
  | taken hjob havail =>
    rw [hjob] at hj
    cases hj
    exact ⟨rfl, rfl, havail⟩
  | filled _ hjob => rw [hjob] at hj; cases hj

theorem scribble_inv {i : Nat} {bytes : List UInt8} (h : r.Inv q pc) (hs : r.scribble i bytes = .ok r') :
    r'.Inv q pc := by
  obtain ⟨hring, hphase⟩ := h
  unfold scribble at hs
  split at hs
  · rename_i head d hjob
    split at hs
    · cases hs
      obtain ⟨hpc, hlent, hused, hall⟩ := hphase.lent_of_job hjob
      obtain ⟨rfl, rfl, havail⟩ := hlent.taken_eq hjob
      exact ⟨hring, .lent pc hpc (.taken hjob havail) hused hall⟩
    · cases hs
  · cases hs

theorem slice_delivered (buf : Nat → UInt8) {hdr : List UInt8} (frame : List UInt8)
    (hhdr : hdr.length = NET_HDR_SIZE) :
    slice (blit buf 0 (hdr ++ frame)) NET_HDR_SIZE frame.length = frame := by
  apply List.ext_getElem
  · exact slice_length ..
  · intro j hj hj'
    have hlt : NET_HDR_SIZE + j < (hdr ++ frame).length := by
      rw [slice_length] at hj
      rw [List.length_append, hhdr]
      exact Nat.add_lt_add_left hj _
    have hbyte := blit_add buf 0 hlt
    rw [Nat.zero_add] at hbyte
    rw [slice_getElem, hbyte, List.getElem_append_right (by omega)]
    congr 1
    omega

theorem deliver_inv {hdr frame : List UInt8} (h : r.Inv q pc) (hs : r.deliver q hdr frame = .ok r') :
    r'.Inv q pc := by
  obtain ⟨hring, hphase⟩ := h
  unfold deliver at hs
  split at hs
  · rename_i head d hjob
    split at hs
    · rename_i hroom
      cases hs
      obtain ⟨hhdr, -, -, hfits⟩ := hroom
      obtain ⟨hpc, hlent, hused, hall⟩ := hphase.lent_of_job hjob
      obtain ⟨rfl, rfl, havail⟩ := hlent.taken_eq hjob
      have hlen : (hdr ++ frame).length = NET_HDR_SIZE + frame.length := by rw [List.length_append, hhdr]
      have hle : frame.length ≤ ETH_FRAME_SIZE := by
        have hdesc : rxDesc.len = NET_HDR_SIZE + ETH_FRAME_SIZE := rfl
        omega
      refine ⟨hring, .lent pc hpc (.filled frame rfl havail ⟨hle, slice_delivered r.buf frame hhdr, ?_⟩) hused hall⟩
      show (upd r.vq.usedRing (r.vq.usedIdx.toNat % q.val) ⟨_, UInt32.ofNat (hdr ++ frame).length⟩
        (r.vq.usedIdx.toNat % q.val)).len.toNat = _
      rw [upd_self, hlen]
      refine UInt32.toNat_ofNat_of_lt' ?_
      unfold ETH_FRAME_SIZE at hle
      unfold NET_HDR_SIZE
      simp only [UInt32.size]
      omega
    · cases hs
  · cases hs

theorem complete_inv (h : r.Inv q pc) (hs : r.complete = .ok r') : r'.Inv q pc := by
  obtain ⟨hring, hphase⟩ := h
  unfold complete at hs
  split at hs
  · rename_i head frame hjob
    cases hs
    obtain ⟨hpc, hlent, hused, hall⟩ := hphase.lent_of_job hjob
    refine ⟨hring, ?_⟩
    cases hlent with
    | posted hj => rw [hj] at hjob; cases hjob
    | taken hj => rw [hj] at hjob; cases hjob
    | filled f hj havail hholds =>
      rw [hj] at hjob
      cases hjob
      refine .back pc frame ?_ rfl havail (congrArg (· + 1) hused) ?_ ?_
      · rcases hpc with h | h
        · exact .inl h
        · exact .inr (.inl h)
      · rw [hused] at hholds
        exact ⟨hholds.len, hholds.buf, hholds.entry⟩
      · rw [telling_append, hall]
  · cases hs

theorem Inv.waiting (h : r.Inv q pc) : ∃ waiting : List (List UInt8), waiting.length ≤ 1 ∧
    telling r.delivered = r.received ++ waiting ∧ (pc = none → r.vq.usedIdx = r.lastUsed → waiting = []) := by
  have hone : ∀ frame : List UInt8, (telling [frame]).length ≤ 1 := fun frame => List.length_filter_le ..
  cases h.phase with
  | lent _ _ _ _ hall => exact ⟨[], by simp, by rw [hall, List.append_nil], fun _ _ => rfl⟩
  | back _ frame _ _ _ hused _ hall =>
    exact ⟨telling [frame], hone frame, hall, fun _ heq =>
      absurd (UInt16.add_eq_left.mp (hused.symm.trans heq)) (by decide)⟩
  | out frame _ _ _ _ _ hall => exact ⟨telling [frame], hone frame, hall, fun hpc => by cases hpc⟩

end Rx

/-! ## Sending -/

namespace Tx

def frameChain (len : Nat) :
    List Desc := [⟨some .txHdr, NET_HDR_SIZE, VRING_DESC_F_NEXT, 1⟩, ⟨some .txBuf, len, 0, 0⟩]

def Posts (q : QSize) (vq : Vq) (len : Nat) : Prop := vq.chain q.val 0 = frameChain len

variable {q : QSize} {t t' : Tx} {pc : Option TxPc}

theorem chain_congr {vq vq' : Vq} (h : vq.desc = vq'.desc) (fuel : Nat) (idx : UInt16) :
    vq.chain fuel idx = vq'.chain fuel idx := by
  induction fuel generalizing idx with
  | zero => rfl
  | succ fuel ih =>
    unfold Vq.chain
    rw [h]
    simp only [ih]

theorem doTx_posts (q : QSize) (vq : Vq) (availIdx : UInt16) (len : Nat) :
    Posts q ((doTx q availIdx len).foldl Vq.store vq) len := by
  obtain ⟨n, hn⟩ : ∃ n, q.val = n + 2 := ⟨q.val - 2, by have := q.one_lt; omega⟩
  have hdesc0 : ((doTx q availIdx len).foldl Vq.store vq).desc (0 : UInt16).toNat =
      ⟨some .txHdr, NET_HDR_SIZE, VRING_DESC_F_NEXT, 1⟩ := rfl
  have hdesc1 : ((doTx q availIdx len).foldl Vq.store vq).desc (1 : UInt16).toNat = ⟨some .txBuf, len, 0, 0⟩ := rfl
  unfold Posts
  rw [hn, Vq.chain, hdesc0]
  show _ :: (if VRING_DESC_F_NEXT &&& VRING_DESC_F_NEXT != 0 then Vq.chain _ (n + 1) 1 else []) = _
  rw [if_pos (by decide), Vq.chain, hdesc1]
  show _ :: _ :: (if (0 : UInt16) &&& VRING_DESC_F_NEXT != 0 then _ else []) = _
  rw [if_neg (by decide)]
  rfl

/-- Where the chain of the call is; one is out only while the call waits. -/
inductive Phase (q : QSize) (t : Tx) : Option TxPc → Prop where
  | ready (pc : Option TxPc) (hpc : pc = none ∨ ∃ frame, pc = some (.filling frame)) (hjobs : t.jobs = [])
      (havail : t.vq.availIdx = t.lastAvail) (hused : t.vq.usedIdx = t.lastUsed)
      (hall : t.consumed = t.sent) : Phase q t pc
  | posting (frame : List UInt8) (rest : List Store) (hbuf : slice t.buf 0 frame.length = frame)
      (hposts : Posts q (rest.foldl Vq.store t.vq) frame.length) (hjobs : t.jobs = [])
      (havail : t.vq.availIdx = t.lastAvail) (hused : t.vq.usedIdx = t.lastUsed) (hall : t.consumed = t.sent) :
      Phase q t (some (.posting frame rest))
  | posted (frame : List UInt8) (spins : Nat) (hbuf : slice t.buf 0 frame.length = frame)
    (hposts : Posts q t.vq frame.length)
      (hjobs : t.jobs = []) (havail : t.vq.availIdx = t.lastAvail + 1) (hused : t.vq.usedIdx = t.lastUsed)
      (hall : t.consumed = t.sent) : Phase q t (some (.waiting frame spins))
  | taken (frame : List UInt8) (spins : Nat) (hbuf : slice t.buf 0 frame.length = frame)
      (hjobs : t.jobs = [.taken 0 (frameChain frame.length)]) (havail : t.vq.availIdx = t.lastAvail)
      (hused : t.vq.usedIdx = t.lastUsed) (hall : t.consumed = t.sent) : Phase q t (some (.waiting frame spins))
  | done (frame : List UInt8) (spins : Nat) (hjobs : t.jobs = [.done 0]) (havail : t.vq.availIdx = t.lastAvail)
      (hused : t.vq.usedIdx = t.lastUsed) (hall : t.consumed = t.sent ++ [frame]) :
        Phase q t (some (.waiting frame spins))
  | back (frame : List UInt8) (spins : Nat) (hjobs : t.jobs = []) (havail : t.vq.availIdx = t.lastAvail)
      (hused : t.vq.usedIdx = t.lastUsed + 1) (hall : t.consumed = t.sent ++ [frame]) :
        Phase q t (some (.waiting frame spins))

structure Inv (q : QSize) (t : Tx) (pc : Option TxPc) : Prop where
  ring : ∀ i, t.vq.availRing i = 0
  phase : t.timeouts = 0 → t.Phase q pc

theorem init_inv : Tx.init.Inv q none := ⟨fun _ => rfl, fun _ => .ready none (.inl rfl) rfl rfl rfl rfl⟩

/-- A poll that does not see the completion leaves the chain where it is, one that sees it ends the call. -/
theorem waiting_inv {frame : List UInt8} {spins : Nat} (h : t.Inv q (some (.waiting frame spins))) :
    (t.driver q (.waiting frame spins)).1.Inv q (t.driver q (.waiting frame spins)).2 := by
  obtain ⟨hring, hphase⟩ := h
  simp only [driver]
  split
  · rename_i heq
    refine ⟨hring, fun htime => ?_⟩
    cases hphase htime with
    | ready _ hpc => rcases hpc with h | ⟨_, h⟩ <;> cases h
    | posted _ _ _ _ _ _ hused => exact absurd (UInt16.add_eq_left.mp (heq.symm.trans hused)) (by decide)
    | taken _ _ _ _ _ hused => exact absurd (UInt16.add_eq_left.mp (heq.symm.trans hused)) (by decide)
    | done _ _ _ _ hused => exact absurd (UInt16.add_eq_left.mp (heq.symm.trans hused)) (by decide)
    | back _ _ hjobs havail hused hall => exact .ready none (.inl rfl) hjobs havail hused hall
  · split
    · exact ⟨hring, fun htime => absurd htime (Nat.succ_ne_zero _)⟩
    · refine ⟨hring, fun htime => ?_⟩
      cases hphase htime with
      | ready _ hpc => rcases hpc with h | ⟨_, h⟩ <;> cases h
      | posted _ _ hbuf hposts hjobs havail hused hall => exact .posted frame _ hbuf hposts hjobs havail hused hall
      | taken _ _ hbuf hjobs havail hused hall => exact .taken frame _ hbuf hjobs havail hused hall
      | done _ _ hjobs havail hused hall => exact .done frame _ hjobs havail hused hall
      | back _ _ hjobs havail hused hall => exact .back frame _ hjobs havail hused hall

theorem slice_blit_start (a : Nat → UInt8) (frame : List UInt8) :
    slice (blit a 0 frame) 0 frame.length = frame := by
  have h := slice_blit_end a 0 frame
  rw [Nat.zero_add] at h
  exact h

theorem driver_inv {p : TxPc} (h : t.Inv q (some p)) : (t.driver q p).1.Inv q (t.driver q p).2 := by
  cases p with
  | filling frame =>
    obtain ⟨hring, hphase⟩ := h
    refine ⟨hring, fun htime => ?_⟩
    cases hphase htime with
    | ready _ _ hjobs havail hused hall =>
      exact .posting frame _ (slice_blit_start t.buf frame) (doTx_posts q t.vq _ _) hjobs havail hused hall
  | posting frame rest =>
    obtain ⟨hring, hphase⟩ := h
    cases rest with
    | nil =>
      refine ⟨hring, fun htime => ?_⟩
      cases hphase htime with
      | ready _ hpc => rcases hpc with h | ⟨_, h⟩ <;> cases h
      | posting _ _ hbuf hposts hjobs havail hused hall =>
        refine .posted frame 0 hbuf ?_ hjobs (congrArg (· + 1) havail) hused hall
        have hdesc : t.vq.publish.desc = t.vq.desc := rfl
        exact (chain_congr hdesc q.val 0).trans hposts
    | cons w rest =>
      refine ⟨store_availRing hring w, fun htime => ?_⟩
      cases hphase htime with
      | ready _ hpc => rcases hpc with h | ⟨_, h⟩ <;> cases h
      | posting _ _ hbuf hposts hjobs havail hused hall =>
        refine .posting frame rest hbuf hposts hjobs ?_ ?_ hall
        · cases w <;> exact havail
        · cases w <;> exact hused
  | waiting frame spins => exact waiting_inv h

theorem take_inv (h : t.Inv q pc) (hs : t.take q = .ok t') : t'.Inv q pc := by
  obtain ⟨hring, hphase⟩ := h
  unfold take at hs
  split at hs
  · cases hs
  · rename_i hne
    cases hs
    refine ⟨hring, fun htime => ?_⟩
    cases hphase htime with
    | ready _ _ _ havail => exact absurd havail.symm hne
    | posting _ _ _ _ _ havail => exact absurd havail.symm hne
    | posted frame spins hbuf hposts hjobs havail hused hall =>
      refine .taken frame spins hbuf ?_ havail hused hall
      show t.jobs ++ [TxJob.taken (t.vq.availRing _) (t.vq.chain q.val (t.vq.availRing _))] = _
      rw [hring, hjobs, hposts]
      rfl
    | taken _ _ _ _ havail => exact absurd havail.symm hne
    | done _ _ _ havail => exact absurd havail.symm hne
    | back _ _ _ havail => exact absurd havail.symm hne

theorem readDesc_frame {frame : List UInt8} (hbuf : slice t.buf 0 frame.length = frame) :
    (frameChain frame.length).mapM t.readDesc = .ok [slice t.hdr 0 NET_HDR_SIZE, frame] := by
  have hhdr : t.readDesc ⟨some .txHdr, NET_HDR_SIZE, VRING_DESC_F_NEXT, 1⟩ = .ok (slice t.hdr 0 NET_HDR_SIZE) := rfl
  have hdata : t.readDesc ⟨some .txBuf, frame.length, 0, 0⟩ = .ok (slice t.buf 0 frame.length) := by
    show (if (0 : UInt16) &&& VRING_DESC_F_WRITE != 0 then _ else _) = _
    rw [if_neg (by decide)]
  unfold frameChain
  rw [List.mapM_cons, hhdr, List.mapM_cons, hdata, hbuf]
  rfl

theorem read_inv {i : Nat} (h : t.Inv q pc) (hs : t.read i = .ok t') : t'.Inv q pc := by
  obtain ⟨hring, hphase⟩ := h
  unfold read at hs
  split at hs
  · rename_i head ds hjob
    cases hparts : ds.mapM t.readDesc with
    | error e => rw [hparts] at hs; cases hs
    | ok parts =>
      rw [hparts] at hs
      cases hs
      refine ⟨hring, fun htime => ?_⟩
      cases hphase htime with
      | ready _ _ hjobs => rw [hjobs] at hjob; cases hjob
      | posting _ _ _ _ hjobs => rw [hjobs] at hjob; cases hjob
      | posted _ _ _ _ hjobs => rw [hjobs] at hjob; cases hjob
      | taken frame spins hbuf hjobs havail hused hall =>
        have hi : i = 0 := by
          rw [hjobs] at hjob
          cases i with
          | zero => rfl
          | succ i => cases hjob
        subst hi
        rw [hjobs] at hjob
        cases hjob
        rw [readDesc_frame hbuf] at hparts
        cases hparts
        refine .done frame spins ?_ havail hused ?_
        · show t.jobs.set 0 (.done 0) = _
          rw [hjobs]
          rfl
        · show t.consumed ++ [([slice t.hdr 0 NET_HDR_SIZE, frame].flatten).drop NET_HDR_SIZE] = _
          rw [hall, List.flatten_cons, List.drop_left' (slice_length ..)]
          simp
      | done _ _ hjobs =>
        rw [hjobs] at hjob
        cases i with
        | zero => cases hjob
        | succ i => cases hjob
      | back _ _ hjobs => rw [hjobs] at hjob; cases hjob
  · cases hs

theorem complete_inv (h : t.Inv q pc) (hs : t.complete q = .ok t') : t'.Inv q pc := by
  obtain ⟨hring, hphase⟩ := h
  unfold complete at hs
  split at hs
  · rename_i head rest hjob
    cases hs
    refine ⟨hring, fun htime => ?_⟩
    cases hphase htime with
    | ready _ _ hjobs => rw [hjobs] at hjob; cases hjob
    | posting _ _ _ _ hjobs => rw [hjobs] at hjob; cases hjob
    | posted _ _ _ _ hjobs => rw [hjobs] at hjob; cases hjob
    | taken _ _ _ hjobs => rw [hjobs] at hjob; cases hjob
    | done frame spins hjobs havail hused hall =>
      rw [hjobs] at hjob
      cases hjob
      exact .back frame spins rfl havail (congrArg (· + 1) hused) hall
    | back _ _ hjobs => rw [hjobs] at hjob; cases hjob
  · cases hs

/-- The card has read what was sent, and perhaps the frame of the call that waits. -/
theorem Inv.consumed_eq (h : t.Inv q pc) (htime : t.timeouts = 0) :
    t.consumed = t.sent ∨ ∃ frame spins, pc = some (.waiting frame spins) ∧ t.consumed = t.sent ++ [frame] := by
  cases h.phase htime with
  | ready _ _ _ _ _ hall => exact .inl hall
  | posting _ _ _ _ _ _ _ hall => exact .inl hall
  | posted _ _ _ _ _ _ _ hall => exact .inl hall
  | taken _ _ _ _ _ _ hall => exact .inl hall
  | done frame spins _ _ _ hall => exact .inr ⟨frame, spins, rfl, hall⟩
  | back frame spins _ _ _ hall => exact .inr ⟨frame, spins, rfl, hall⟩

end Tx

/-! ## Both queues -/

def Pc.tx? : Pc → Option TxPc
  | .tx pc => some pc
  | _ => none

def Pc.rx? : Pc → Option RxPc
  | .rx pc => some pc
  | _ => none

structure St.Inv (q : QSize) (s : St) : Prop where
  tx : s.tx.Inv q s.pc.tx?
  rx : s.rx.Inv q s.pc.rx?

variable {q : QSize} {s s' : St}

/-- A call that starts finds its queue as an idle driver leaves it. -/
theorem Tx.Inv.start {t : Tx} (h : t.Inv q none) (frame : List UInt8) : t.Inv q (some (.filling frame)) := by
  refine ⟨h.ring, fun htime => ?_⟩
  cases h.phase htime with
  | ready _ _ hjobs havail hused hall => exact .ready _ (.inr ⟨frame, rfl⟩) hjobs havail hused hall

theorem Rx.Inv.start {r : Rx} (h : r.Inv q none) : r.Inv q (some .polling) := by
  refine ⟨h.ring, ?_⟩
  cases h.phase with
  | lent _ _ hlent hused hall => exact .lent _ (.inr rfl) hlent hused hall
  | back _ frame _ hjob havail hused hholds hall =>
    exact .back _ frame (.inr (.inl rfl)) hjob havail hused hholds hall

theorem call_inv (h : s.Inv q) {pc : Pc} (hidle : s.pc = .idle) (hpc : (∃ frame, pc = .tx (.filling frame)) ∨
      pc = .rx .polling) :
    St.Inv q { s with pc := pc } := by
  obtain ⟨htx, hrx⟩ := h
  rw [hidle] at htx hrx
  rcases hpc with ⟨frame, rfl⟩ | rfl
  · exact ⟨htx.start frame, hrx⟩
  · exact ⟨htx, hrx.start⟩

theorem step_inv (h : s.Inv q) {e : Event} (hs : step q s e = .ok s') : s'.Inv q := by
  cases e with
  | netSend frame =>
    simp only [step] at hs
    split at hs
    · rename_i hidle
      cases hs
      split
      · exact h
      · exact call_inv h hidle (.inl ⟨frame, rfl⟩)
    · cases hs
  | netRecv cap =>
    simp only [step] at hs
    split at hs
    · rename_i hidle
      cases hs
      split
      · exact h
      · exact call_inv h hidle (.inr rfl)
    · cases hs
  | driver =>
    obtain ⟨htx, hrx⟩ := h
    simp only [step] at hs
    split at hs
    · cases hs
    · rename_i p hp
      cases hs
      rw [hp] at htx hrx
      have hnext := Tx.driver_inv htx
      cases hres : (s.tx.driver q p).2 with
      | none => rw [hres] at hnext; exact ⟨hnext, hrx⟩
      | some p' => rw [hres] at hnext; exact ⟨hnext, hrx⟩
    · rename_i p hp
      cases hs
      rw [hp] at htx hrx
      have hnext := Rx.driver_inv hrx
      cases hres : (s.rx.driver q p).2 with
      | none => rw [hres] at hnext; exact ⟨htx, hnext⟩
      | some p' => rw [hres] at hnext; exact ⟨htx, hnext⟩
  | txTake =>
    simp only [step] at hs
    cases ht : s.tx.take q with
    | error e => rw [ht] at hs; cases hs
    | ok t => rw [ht] at hs; cases hs; exact ⟨Tx.take_inv h.tx ht, h.rx⟩
  | txRead i =>
    simp only [step] at hs
    cases ht : s.tx.read i with
    | error e => rw [ht] at hs; cases hs
    | ok t => rw [ht] at hs; cases hs; exact ⟨Tx.read_inv h.tx ht, h.rx⟩
  | txComplete =>
    simp only [step] at hs
    cases ht : s.tx.complete q with
    | error e => rw [ht] at hs; cases hs
    | ok t => rw [ht] at hs; cases hs; exact ⟨Tx.complete_inv h.tx ht, h.rx⟩
  | rxTake =>
    simp only [step] at hs
    cases ht : s.rx.take q with
    | error e => rw [ht] at hs; cases hs
    | ok t => rw [ht] at hs; cases hs; exact ⟨h.tx, Rx.take_inv h.rx ht⟩
  | rxScribble i bytes =>
    simp only [step] at hs
    cases ht : s.rx.scribble i bytes with
    | error e => rw [ht] at hs; cases hs
    | ok t => rw [ht] at hs; cases hs; exact ⟨h.tx, Rx.scribble_inv h.rx ht⟩
  | rxDeliver hdr frame =>
    simp only [step] at hs
    cases ht : s.rx.deliver q hdr frame with
    | error e => rw [ht] at hs; cases hs
    | ok t => rw [ht] at hs; cases hs; exact ⟨h.tx, Rx.deliver_inv h.rx ht⟩
  | rxComplete =>
    simp only [step] at hs
    cases ht : s.rx.complete with
    | error e => rw [ht] at hs; cases hs
    | ok t => rw [ht] at hs; cases hs; exact ⟨h.tx, Rx.complete_inv h.rx ht⟩

theorem run_inv (q : QSize) (es : List Event) : Always (step q) (St.Inv q) St.init es :=
  AllSteps.always (fun _ _ _ h _ hs => step_inv h hs) ⟨Tx.init_inv, Rx.init_inv⟩
    (allSteps_of_forall (fun _ _ _ => trivial))

/-- In every state of every run, what `net_recv` has returned is what the card has delivered, in order and
byte for byte; at most the last frame still waits, and none does once the driver has counted every
completion. -/
theorem recv_in_order (q : QSize) (es : List Event) :
    Always (step q) (fun s => ∃ waiting : List (List UInt8), waiting.length ≤ 1 ∧
      telling s.rx.delivered = s.rx.received ++ waiting ∧
      (s.pc = .idle → s.rx.vq.usedIdx = s.rx.lastUsed → waiting = [])) St.init es := by
  refine (run_inv q es).mono fun s h => ?_
  obtain ⟨waiting, hlen, hall, hnone⟩ := h.rx.waiting
  refine ⟨waiting, hlen, hall, fun hidle => hnone ?_⟩
  rw [hidle]
  rfl

/-- As long as no call has given up, the frames that `net_send` reported as sent are those the card has read, in
order and byte for byte; at most the frame of the call that runs is not reported yet. -/
theorem send_in_order (q : QSize) (es : List Event) :
    Always (step q) (fun s => s.tx.timeouts = 0 → ∃ pending : List (List UInt8), pending.length ≤ 1 ∧
      s.tx.consumed = s.tx.sent ++ pending ∧ (s.pc = .idle → pending = [])) St.init es := by
  refine (run_inv q es).mono fun s h htime => ?_
  rcases h.tx.consumed_eq htime with hall | ⟨frame, spins, hpc, hall⟩
  · exact ⟨[], by simp, by rw [hall, List.append_nil], fun _ => rfl⟩
  · refine ⟨[frame], by simp, hall, fun hidle => ?_⟩
    rw [hidle] at hpc
    cases hpc

/-! ## Calls return -/

def Pc.left : Pc → Nat
  | .idle => 0
  | .tx (.filling _) => SPINS + 5
  | .tx (.posting _ rest) => SPINS + 1 + rest.length
  | .tx (.waiting _ spins) => SPINS - spins
  | .rx .polling => 6
  | .rx .measuring => 5
  | .rx (.copying _) => 4
  | .rx (.reposting _ rest) => rest.length + 1

/-- A call that waits has not polled too often yet. -/
def Pc.Polls : Pc → Prop
  | .tx (.waiting _ spins) => spins < SPINS
  | _ => True

def isDriver : Event → Bool
  | .driver => true
  | _ => false

def isNetCall : Event → Bool
  | .netSend _ => true
  | .netRecv _ => true
  | _ => false

theorem driver_left (hpolls : s.pc.Polls) (hs : step q s .driver = .ok s') :
    s'.pc.Polls ∧ s'.pc.left + 1 ≤ s.pc.left := by
  simp only [step] at hs
  split at hs
  · cases hs
  · rename_i p hp
    rw [hp] at hpolls ⊢
    cases hs
    cases p with
    | filling frame => exact ⟨trivial, Nat.le_refl _⟩
    | posting frame rest =>
      cases rest with
      | nil => exact ⟨show 0 < SPINS by decide, Nat.le_refl _⟩
      | cons w rest => exact ⟨trivial, Nat.le_refl _⟩
    | waiting frame spins =>
      have hlt : spins < SPINS := hpolls
      simp only [Tx.driver]
      split
      · exact ⟨trivial, show 0 + 1 ≤ SPINS - spins by omega⟩
      · split
        · exact ⟨trivial, show 0 + 1 ≤ SPINS - spins by omega⟩
        · rename_i hne
          exact ⟨show spins + 1 < SPINS by omega, show SPINS - (spins + 1) + 1 ≤ SPINS - spins by omega⟩
  · rename_i p hp
    rw [hp] at hpolls ⊢
    cases hs
    cases p with
    | polling =>
      simp only [Rx.driver]
      split
      · exact ⟨trivial, show 0 + 1 ≤ 6 by decide⟩
      · exact ⟨trivial, Nat.le_refl _⟩
    | measuring => exact ⟨trivial, Nat.le_refl _⟩
    | copying n => exact ⟨trivial, Nat.le_refl _⟩
    | reposting frame rest =>
      cases rest with
      | nil => exact ⟨trivial, Nat.le_refl _⟩
      | cons w rest => exact ⟨trivial, Nat.le_refl _⟩

/-- What each event may cost: a call brings its steps, a step of the driver takes one. -/
theorem step_left (hpolls : s.pc.Polls) {e : Event} (hs : step q s e = .ok s') :
    s'.pc.Polls ∧ s'.pc.left + (if isDriver e then 1 else 0) ≤ s.pc.left + if isNetCall e then SPINS + 5
    else 0 := by
  have hcard : s'.pc = s.pc → s'.pc.Polls ∧ s'.pc.left + 0 ≤ s.pc.left + 0 := fun h => by
    rw [h]
    exact ⟨hpolls, Nat.le_refl _⟩
  cases e with
  | driver => exact driver_left hpolls hs
  | netSend frame =>
    simp only [step] at hs
    split at hs
    · rename_i hidle
      cases hs
      split
      · exact ⟨hpolls, Nat.le_add_right ..⟩
      · exact ⟨trivial, Nat.le_add_left ..⟩
    · cases hs
  | netRecv cap =>
    simp only [step] at hs
    split at hs
    · rename_i hidle
      cases hs
      split
      · exact ⟨hpolls, Nat.le_add_right ..⟩
      · refine ⟨trivial, ?_⟩
        show 6 + 0 ≤ s.pc.left + (SPINS + 5)
        unfold SPINS
        omega
    · cases hs
  | txTake =>
    simp only [step] at hs
    cases ht : s.tx.take q <;> rw [ht] at hs <;> cases hs
    exact hcard rfl
  | txRead i =>
    simp only [step] at hs
    cases ht : s.tx.read i <;> rw [ht] at hs <;> cases hs
    exact hcard rfl
  | txComplete =>
    simp only [step] at hs
    cases ht : s.tx.complete q <;> rw [ht] at hs <;> cases hs
    exact hcard rfl
  | rxTake =>
    simp only [step] at hs
    cases ht : s.rx.take q <;> rw [ht] at hs <;> cases hs
    exact hcard rfl
  | rxScribble i bytes =>
    simp only [step] at hs
    cases ht : s.rx.scribble i bytes <;> rw [ht] at hs <;> cases hs
    exact hcard rfl
  | rxDeliver hdr frame =>
    simp only [step] at hs
    cases ht : s.rx.deliver q hdr frame <;> rw [ht] at hs <;> cases hs
    exact hcard rfl
  | rxComplete =>
    simp only [step] at hs
    cases ht : s.rx.complete <;> rw [ht] at hs <;> cases hs
    exact hcard rfl

theorem run_left : ∀ {es : List Event} {s s' : St}, s.pc.Polls → runAll (step q) s es = .ok s' →
    s'.pc.left + es.countP isDriver ≤ s.pc.left + (SPINS + 5) * es.countP isNetCall
  | [], _, _, _, h => by cases h; exact Nat.le_refl _
  | e :: es, s, s', hpolls, h => by
    unfold runAll at h
    cases hs : step q s e with
    | error e => rw [hs] at h; cases h
    | ok t =>
      rw [hs] at h
      obtain ⟨hpolls', hone⟩ := step_left hpolls hs
      have hrest := run_left hpolls' h
      rw [List.countP_cons, List.countP_cons, Nat.mul_add]
      cases hd : isDriver e <;> cases hc :
        isNetCall e <;> simp only [hd, hc, if_true, Bool.false_eq_true, if_false] at hone ⊢ <;> omega

/-- Whatever the card does, a call of the driver is never stuck and returns: over a whole run the driver makes
no more steps than its calls allow, at most five stores and the polls of one wait for each. -/
theorem calls_return (q : QSize) (es : List Event) (s : St) (h : runAll (step q) St.init es = .ok s) :
    (s.pc ≠ .idle → ∃ s', step q s .driver = .ok s' ∧ s'.pc.left < s.pc.left) ∧
      es.countP isDriver + s.pc.left ≤ (SPINS + 5) * es.countP isNetCall := by
  have hpolls : s.pc.Polls := by
    have hrun : Always (step q) (fun s => s.pc.Polls) St.init es :=
      AllSteps.always (fun _ _ _ h _ hs => (step_left h hs).1) trivial (allSteps_of_forall (fun _ _ _ => trivial))
    exact hrun.last h
  constructor
  · intro hbusy
    cases hpc : s.pc with
    | idle => exact absurd hpc hbusy
    | tx p =>
      have hs : step q s .driver =
          .ok { s with tx := (s.tx.driver q p).1, pc := (s.tx.driver q p).2.elim .idle .tx } := by
        simp only [step, hpc]
      refine ⟨_, hs, ?_⟩
      rw [← hpc]
      exact (driver_left hpolls hs).2
    | rx p =>
      have hs : step q s .driver =
          .ok { s with rx := (s.rx.driver q p).1, pc := (s.rx.driver q p).2.elim .idle .rx } := by
        simp only [step, hpc]
      refine ⟨_, hs, ?_⟩
      rw [← hpc]
      exact (driver_left hpolls hs).2
  · have hrun := run_left (s := St.init) trivial h
    rw [show St.init.pc.left = 0 from rfl, Nat.zero_add, Nat.add_comm] at hrun
    exact hrun

theorem calls_return_send : ∃ s, runAll (step ⟨256, 8, by decide, by decide, rfl⟩) St.init
      [.netSend (List.replicate 60 0), .driver, .driver, .driver, .driver, .driver] = .ok s ∧
    s.pc ≠ .idle ∧ ∃ s', step ⟨256, 8, by decide, by decide, rfl⟩ s .driver = .ok s' ∧ s'.pc.left < s.pc.left := by
  refine ⟨_, rfl, fun h => (by cases h), ?_⟩
  exact (calls_return ⟨256, 8, by decide, by decide, rfl⟩ [.netSend (List.replicate 60 0), .driver, .driver,
    .driver, .driver, .driver] _
    rfl).1 fun h => (by cases h)

end WasmOs.VirtioNet
