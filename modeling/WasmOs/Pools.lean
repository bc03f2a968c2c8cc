import WasmOs.JitInstall
import WasmOs.Regions
import WasmOs.Wire

/-!
# The static pools

`alloc_write_buf` claims one of sixteen slots, `alloc_disk_slot` and `jit_alloc` move a cursor through a
static buffer. Nothing is given back, so what they hand out never overlaps.
-/

namespace WasmOs.Pools

open Bump

/-! ## The write pool -/

def WRITE_SLOTS : Nat := 16

def WRITE_SLOT_CAP : Nat := 4096

structure WritePool where
  slots : List (List UInt8)
  next : Nat

def WritePool.init : WritePool := ⟨List.replicate WRITE_SLOTS (List.replicate WRITE_SLOT_CAP 0), 0⟩

/-- The slice that is handed out lies in `WRITE_POOL`, which is an array of arrays. -/
def allocWriteBuf (w : WritePool) (data : List UInt8) : Rust Empty (Option Region × WritePool) :=
  if WRITE_SLOT_CAP < data.length then .ok (none, w)
  else if WRITE_SLOTS ≤ w.next then .ok (none, w)
  else do
    let slot := w.next
    let next ← uadd w.next 1
    let buf ← index w.slots slot
    let buf ← copyInto buf 0 data.length data
    let slots ← setAt w.slots slot buf
    .ok (some ⟨slot * WRITE_SLOT_CAP, data.length⟩, ⟨slots, next⟩)

structure WritePool.Wf (w : WritePool) : Prop where
  slots : w.slots.length = WRITE_SLOTS
  cap : ∀ l ∈ w.slots, l.length = WRITE_SLOT_CAP
  next : w.next ≤ WRITE_SLOTS

theorem WritePool.Wf.init : WritePool.init.Wf := by
  refine ⟨List.length_replicate, fun l hl => ?_, Nat.zero_le _⟩
  rw [List.eq_of_mem_replicate hl, List.length_replicate]

theorem WritePool.Wf.slot {w : WritePool} (hwf : w.Wf) {i : Nat} (hi : i < WRITE_SLOTS) :
    ∃ _ : i < w.slots.length, w.slots.getD i [] = w.slots[i] ∧ w.slots[i].length = WRITE_SLOT_CAP := by
  have hlt : i < w.slots.length := by rw [hwf.slots]; exact hi
  refine ⟨hlt, ?_, hwf.cap _ (List.getElem_mem hlt)⟩
  rw [List.getD_eq_getElem?_getD, List.getElem?_eq_getElem hlt]
  rfl

/-- The pool with `data` in the next slot. -/
def WritePool.put (w : WritePool) (data : List UInt8) : WritePool :=
  ⟨w.slots.set w.next (data ++ (w.slots.getD w.next []).drop data.length), w.next + 1⟩

theorem allocWriteBuf_eq {w : WritePool} (hwf : w.Wf) (data : List UInt8) :
    allocWriteBuf w data = .ok (if data.length ≤ WRITE_SLOT_CAP ∧ w.next < WRITE_SLOTS
      then (some ⟨w.next * WRITE_SLOT_CAP, data.length⟩, w.put data) else (none, w)) := by
  unfold allocWriteBuf
  by_cases hlen : WRITE_SLOT_CAP < data.length
  · rw [if_pos hlen, if_neg fun h => absurd h.1 (Nat.not_le_of_lt hlen)]
  by_cases hfull : WRITE_SLOTS ≤ w.next
  · rw [if_neg hlen, if_pos hfull, if_neg fun h => absurd h.2 (Nat.not_lt_of_le hfull)]
  obtain ⟨hnext, hget, hslot⟩ := hwf.slot (Nat.lt_of_not_le hfull)
  have hsmall : w.next + 1 < 2 ^ 64 := Nat.lt_of_le_of_lt (Nat.succ_le_of_lt (Nat.lt_of_not_le hfull)) (by decide)
  rw [if_neg hlen, if_neg hfull, uadd_of_lt hsmall, bind_ok, index_of_lt hnext, bind_ok,
    copyInto_of_le ⟨Nat.zero_le _, by rw [hslot]; exact Nat.le_of_not_lt hlen, rfl⟩, bind_ok,
    setAt_of_lt hnext, bind_ok,
    if_pos ⟨Nat.le_of_not_lt hlen, Nat.lt_of_not_le hfull⟩, WritePool.put, hget, List.take_zero, List.nil_append]

theorem WritePool.Wf.put {w : WritePool} (hwf : w.Wf) {data : List UInt8} (hlen : data.length ≤ WRITE_SLOT_CAP)
    (hfull : w.next < WRITE_SLOTS) : (w.put data).Wf := by
  refine ⟨?_, fun l hl => ?_, hfull⟩
  · rw [WritePool.put, List.length_set, hwf.slots]
  · rcases List.mem_or_eq_of_mem_set hl with hl | rfl
    · exact hwf.cap l hl
    · obtain ⟨hnext, hget, hslot⟩ := hwf.slot hfull
      rw [List.length_append, List.length_drop, hget, hslot]
      exact Nat.add_sub_cancel' hlen

/-! ## The two arenas -/

def FILE_BUF_SIZE : Nat := 4 * 1024 * 1024

/-- Offset in `FILE_BUF` and new cursor. -/
def allocDiskSlot (next len : Nat) : Rust Empty (Option Nat × Nat) :=
  if len = 0 then .ok (none, next)
  else do
    let up ← uadd next 7
    let base := andNot up 7
    let newEnd ← uadd base len
    if FILE_BUF_SIZE < newEnd then .ok (none, next) else .ok (some base, newEnd)

/-- Offset in `JIT_BUF` and new fill level, with the checks of the additions. -/
def jitAlloc (fill len : Nat) : Rust Empty (Option Nat × Nat) := do
  let up ← uadd fill 15
  let aligned := andNot up 15
  let stop ← uadd aligned len
  if JIT_BUF_SIZE < stop then .ok (none, fill) else .ok (some aligned, stop)

section
variable {next len : Nat}

theorem allocDiskSlot_eq (hnext : next ≤ FILE_BUF_SIZE) (hlen : len < 2 ^ 32) :
    allocDiskSlot next len = .ok (if len ≠ 0 ∧ alignUp next 8 + len ≤ FILE_BUF_SIZE then
      (some (alignUp next 8), alignUp next 8 + len)
      else (none, next)) := by
  unfold FILE_BUF_SIZE at hnext
  have hup : andNot (next + 7) 7 = alignUp next 8 := andNot_eq (k := 3) (by omega)
  have hlt : alignUp next 8 < next + 8 := alignUp_lt (by decide)
  unfold allocDiskSlot
  by_cases hzero : len = 0
  · rw [if_pos hzero, if_neg fun h => h.1 hzero]
  · rw [if_neg hzero, uadd_of_lt (by omega), bind_ok, hup]
    dsimp only
    rw [uadd_of_lt (by omega), bind_ok]
    by_cases hfit : FILE_BUF_SIZE < alignUp next 8 + len
    · rw [if_pos hfit, if_neg fun h => absurd h.2 (Nat.not_le_of_lt hfit)]
    · rw [if_neg hfit, if_pos ⟨hzero, Nat.le_of_not_lt hfit⟩]

theorem jitAlloc_checked (hnext : next ≤ JIT_BUF_SIZE) (hlen : len < 2 ^ 32) :
    jitAlloc next len = .ok (if alignUp next 16 + len ≤ JIT_BUF_SIZE then
      (some (alignUp next 16), alignUp next 16 + len) else (none, next)) := by
  unfold JIT_BUF_SIZE at hnext
  have hup : andNot (next + 15) 15 = alignUp next 16 := andNot_eq (k := 4) (by omega)
  have hlt : alignUp next 16 < next + 16 := alignUp_lt (by decide)
  unfold jitAlloc
  rw [uadd_of_lt (by omega), bind_ok, hup]
  dsimp only
  rw [uadd_of_lt (by omega), bind_ok]
  by_cases hfit : JIT_BUF_SIZE < alignUp next 16 + len
  · rw [if_pos hfit, if_neg (Nat.not_le_of_lt hfit)]
  · rw [if_neg hfit, if_pos (Nat.le_of_not_lt hfit)]

theorem jitAlloc_eq (hnext : next ≤ JIT_BUF_SIZE) (hlen : len < 2 ^ 32) :
    jitAlloc next len = .ok (match WasmOs.jitAlloc next len with
      | some (dst, fill) => (some dst, fill)
      | none => (none, next)) := by
  have hdef : WasmOs.jitAlloc next len = if JIT_BUF_SIZE < alignUp next 16 + len then none
      else some (alignUp next 16, alignUp next 16 + len) := rfl
  rw [jitAlloc_checked hnext hlen, hdef]
  by_cases hfit : alignUp next 16 + len ≤ JIT_BUF_SIZE
  · rw [if_pos hfit, if_neg (Nat.not_lt_of_le hfit)]
  · rw [if_neg hfit, if_pos (Nat.lt_of_not_le hfit)]

end

/-! ## All of them -/

/-- Where the statics are. The alignments are those of `FileBuf` and `JitBuf`. -/
structure Statics where
  writePool : Nat
  fileBuf : Nat
  jitBuf : Nat
  fileBuf_aligned : 8 ∣ fileBuf
  jitBuf_aligned : 4096 ∣ jitBuf

structure State where
  write : WritePool
  fileNext : Nat
  jitFill : Nat

def State.init : State := ⟨.init, 0, 0⟩

inductive Op where
  | write (data : List UInt8)
  | disk (len : Nat)
  | jit (len : Nat)

/-- The lengths are those of files and of machine code. -/
def Op.Small : Op → Prop
  | .write _ => True
  | .disk len | .jit len => len < 2 ^ 32

def step (st : Statics) (s : State) : Op → Rust Empty (Option Region × State)
  | .write data => do
    let (r, w) ← allocWriteBuf s.write data
    .ok (r.map (Region.shift st.writePool), { s with write := w })
  | .disk len => do
    let (p, next) ← allocDiskSlot s.fileNext len
    .ok (p.map fun base => ⟨st.fileBuf + base, len⟩, { s with fileNext := next })
  | .jit len => do
    let (p, fill) ← jitAlloc s.jitFill len
    .ok (p.map fun aligned => ⟨st.jitBuf + aligned, len⟩, { s with jitFill := fill })

def Op.len : Op → Nat
  | .write data => data.length
  | .disk len | .jit len => len

inductive Pool where
  | write | disk | jit
  deriving DecidableEq

def Op.pool : Op → Pool
  | .write _ => .write
  | .disk _ => .disk
  | .jit _ => .jit

def Pool.align : Pool → Nat
  | .write => 1
  | .disk => 8
  | .jit => 16

def Statics.region (st : Statics) : Pool → Region
  | .write => ⟨st.writePool, WRITE_SLOTS * WRITE_SLOT_CAP⟩
  | .disk => ⟨st.fileBuf, FILE_BUF_SIZE⟩
  | .jit => ⟨st.jitBuf, JIT_BUF_SIZE⟩

def handedOut (k : Pool) (p : Op × Option Region) : Option Region := if p.1.pool = k then p.2 else none

def State.bytesAt (st : Statics) (s : State) (r : Region) : List UInt8 :=
  (s.write.slots.flatten.drop (r.start - st.writePool)).take r.len

/-- The request fits in what remains: there is a slot, or an aligned place behind the cursor. -/
def State.Fits (s : State) : Op → Prop
  | .write data => data.length ≤ WRITE_SLOT_CAP ∧ s.write.next < WRITE_SLOTS
  | .disk len => len ≠ 0 ∧ ∃ p, s.fileNext ≤ p ∧ 8 ∣ p ∧ p + len ≤ FILE_BUF_SIZE
  | .jit len => ∃ p, s.jitFill ≤ p ∧ 16 ∣ p ∧ p + len ≤ JIT_BUF_SIZE

structure State.Wf (s : State) : Prop where
  write : s.write.Wf
  file : s.fileNext ≤ FILE_BUF_SIZE
  jit : s.jitFill ≤ JIT_BUF_SIZE

theorem State.Wf.init : State.init.Wf := ⟨.init, Nat.zero_le _, Nat.zero_le _⟩

/-- Where the next region of a pool starts at the earliest. -/
def State.cursor (st : Statics) (s : State) : Pool → Nat
  | .write => st.writePool + s.write.next * WRITE_SLOT_CAP
  | .disk => st.fileBuf + s.fileNext
  | .jit => st.jitBuf + s.jitFill

theorem State.init_cursor {st : Statics} (k : Pool) : State.init.cursor st k = (st.region k).start := by
  cases k with
  | write => exact Nat.add_zero _
  | disk => rfl
  | jit => rfl

theorem State.Wf.cursor_le {st : Statics} {s : State} (hwf : s.Wf) (k : Pool) :
    s.cursor st k ≤ (st.region k).stop := by
  cases k with
  | write => exact Nat.add_le_add_left (Nat.mul_le_mul_right _ hwf.write.next) _
  | disk => exact Nat.add_le_add_left hwf.file _
  | jit => exact Nat.add_le_add_left hwf.jit _

inductive Served (st : Statics) (s : State) : Op → Region → State → Prop
  | write {data : List UInt8} (hlen : data.length ≤ WRITE_SLOT_CAP) (hnext : s.write.next < WRITE_SLOTS) :
      Served st s (.write data) ⟨st.writePool + s.write.next * WRITE_SLOT_CAP, data.length⟩
      { s with write := s.write.put data }
  | disk {len : Nat} (hfit : alignUp s.fileNext 8 + len ≤ FILE_BUF_SIZE) :
      Served st s (.disk len) ⟨st.fileBuf + alignUp s.fileNext 8, len⟩
      { s with fileNext := alignUp s.fileNext 8 + len }
  | jit {len : Nat} (hfit : alignUp s.jitFill 16 + len ≤ JIT_BUF_SIZE) :
      Served st s (.jit len) ⟨st.jitBuf + alignUp s.jitFill 16, len⟩
      { s with jitFill := alignUp s.jitFill 16 + len }

section
variable {st : Statics} {s s' : State} {op : Op} {r : Region}

/-- A call either serves a request that fits or leaves everything as it was. -/
theorem step_cases (st : Statics) (hwf : s.Wf) (hop : op.Small) :
    (s.Fits op ∧ ∃ r s', step st s op = .ok (some r, s') ∧ Served st s op r s') ∨
    (¬ s.Fits op ∧ step st s op = .ok (none, s)) := by
  cases op with
  | write data =>
    have heq := allocWriteBuf_eq hwf.write data
    by_cases hfit : data.length ≤ WRITE_SLOT_CAP ∧ s.write.next < WRITE_SLOTS
    · rw [if_pos hfit] at heq
      refine .inl ⟨hfit, _, _, ?_, .write hfit.1 hfit.2⟩
      rw [step, heq, bind_ok]
      rfl
    · rw [if_neg hfit] at heq
      refine .inr ⟨hfit, ?_⟩
      rw [step, heq, bind_ok]
      rfl
  | disk len =>
    have heq := allocDiskSlot_eq hwf.file hop
    by_cases hfit : len ≠ 0 ∧ alignUp s.fileNext 8 + len ≤ FILE_BUF_SIZE
    · rw [if_pos hfit] at heq
      refine .inl ⟨⟨hfit.1, (alignUp_fits (by decide)).mp hfit.2⟩, _, _, ?_, .disk hfit.2⟩
      rw [step, heq, bind_ok]
      rfl
    · rw [if_neg hfit] at heq
      refine .inr ⟨fun h => hfit ⟨h.1, (alignUp_fits (by decide)).mpr h.2⟩, ?_⟩
      rw [step, heq, bind_ok]
      rfl
  | jit len =>
    have heq := jitAlloc_checked hwf.jit hop
    by_cases hfit : alignUp s.jitFill 16 + len ≤ JIT_BUF_SIZE
    · rw [if_pos hfit] at heq
      refine .inl ⟨(alignUp_fits (by decide)).mp hfit, _, _, ?_, .jit hfit⟩
      rw [step, heq, bind_ok]
      rfl
    · rw [if_neg hfit] at heq
      refine .inr ⟨fun h => hfit ((alignUp_fits (by decide)).mpr h), ?_⟩
      rw [step, heq, bind_ok]
      rfl

namespace Served

theorem wf (h : Served st s op r s') (hwf : s.Wf) : s'.Wf := by
  cases h with
  | write hlen hnext => exact ⟨hwf.write.put hlen hnext, hwf.file, hwf.jit⟩
  | disk hfit => exact ⟨hwf.write, hfit, hwf.jit⟩
  | jit hfit => exact ⟨hwf.write, hwf.file, hfit⟩

theorem len_eq (h : Served st s op r s') : r.len = op.len := by cases h <;> rfl

theorem aligned (h : Served st s op r s') : op.pool.align ∣ r.start := by
  cases h with
  | write hlen hnext => exact Nat.one_dvd _
  | disk hfit => exact Nat.dvd_add st.fileBuf_aligned dvd_alignUp
  | jit hfit => exact Nat.dvd_add (Nat.dvd_trans (show 16 ∣ 4096 by decide) st.jitBuf_aligned) dvd_alignUp

theorem advance (h : Served st s op r s') (k : Pool) :
    Advance (s.cursor st k) (s'.cursor st k) (handedOut k (op, some r)) := by
  by_cases hk : op.pool = k
  · rw [handedOut, if_pos hk]
    subst hk
    cases h with
    | write hlen hnext =>
      refine ⟨Nat.le_refl _, ?_⟩
      have := Nat.add_one_mul s.write.next WRITE_SLOT_CAP
      simp only [Region.stop, State.cursor, Op.pool, WritePool.put]
      omega
    | disk hfit => exact ⟨Nat.add_le_add_left (le_alignUp (by decide)) _, Nat.le_of_eq (Nat.add_assoc ..)⟩
    | jit hfit => exact ⟨Nat.add_le_add_left (le_alignUp (by decide)) _, Nat.le_of_eq (Nat.add_assoc ..)⟩
  · rw [handedOut, if_neg hk]
    -- the other cursors stay
    apply Nat.le_of_eq
    cases h with
    | write hlen hnext =>
      cases k with
      | write => exact absurd rfl hk
      | disk => rfl
      | jit => rfl
    | disk hfit =>
      cases k with
      | disk => exact absurd rfl hk
      | write => rfl
      | jit => rfl
    | jit hfit =>
      cases k with
      | jit => exact absurd rfl hk
      | write => rfl
      | disk => rfl

end Served

/-! ## The bytes of the write pool -/

theorem take_drop_flatten {α : Type} {c n i : Nat} {ls : List (List α)} (h : ∀ l ∈ ls, l.length = c)
    (hi : i < ls.length) (hn : n ≤ c) :
    (ls.flatten.drop (i * c)).take n = ls[i].take n := by
  induction i generalizing ls with
  | zero =>
    cases ls with
    | nil => exact absurd hi (Nat.not_lt_zero _)
    | cons l ls =>
      have hl : n ≤ l.length := by rw [h l (List.mem_cons_self ..)]; exact hn
      rw [Nat.zero_mul, List.drop_zero, List.flatten_cons, List.take_append_of_le_length hl]
      rfl
  | succ i ih =>
    cases ls with
    | nil => exact absurd hi (Nat.not_lt_zero _)
    | cons l ls =>
      have hl : (i + 1) * c = l.length + i * c := by rw [h l (List.mem_cons_self ..), Nat.add_one_mul, Nat.add_comm]
      rw [hl, List.flatten_cons, List.drop_append, List.drop_of_length_le (Nat.le_add_right ..),
        Nat.add_sub_cancel_left, List.nil_append]
      exact ih (fun m hm => h m (List.mem_cons_of_mem _ hm)) (Nat.lt_of_succ_lt_succ hi)

/-- `data` is in a slot that is claimed. -/
def Stored (st : Statics) (op : Op) (o : Option Region) (s : State) : Prop :=
  ∀ data r, op = .write data → o = some r → ∃ i, i < s.write.next ∧ data.length ≤ WRITE_SLOT_CAP ∧
    r = ⟨st.writePool + i * WRITE_SLOT_CAP, data.length⟩ ∧ (s.write.slots.getD i []).take data.length = data

theorem Stored.bytesAt {data : List UInt8} (h : Stored st (.write data) (some r) s) (hwf : s.Wf) :
    s.bytesAt st r = data := by
  obtain ⟨i, hi, hlen, rfl, hdata⟩ := h data r rfl rfl
  obtain ⟨hslot, hget, -⟩ := hwf.write.slot (Nat.lt_of_lt_of_le hi hwf.write.next)
  rw [State.bytesAt, Nat.add_sub_cancel_left, take_drop_flatten hwf.write.cap hslot hlen, ← hget, hdata]

theorem Served.stored (h : Served st s op r s') (hwf : s.Wf) : Stored st op (some r) s' := by
  intro data r' hop hr
  cases h with
  | disk hfit => cases hop
  | jit hfit => cases hop
  | write hlen hnext =>
    cases hop
    cases hr
    obtain ⟨hslot, -⟩ := hwf.write.slot hnext
    refine ⟨s.write.next, Nat.lt_succ_self _, hlen, rfl, ?_⟩
    rw [WritePool.put, List.getD_eq_getElem?_getD, List.getElem?_set_self hslot, Option.getD_some, List.take_left']
    rfl

theorem Served.keeps {op' : Op} {o : Option Region} (h : Served st s op r s') (hold : Stored st op' o s) :
    Stored st op' o s' := by
  intro data r' hop hr
  obtain ⟨i, hi, hlen, hr', hdata⟩ := hold data r' hop hr
  cases h with
  | disk hfit => exact ⟨i, hi, hlen, hr', hdata⟩
  | jit hfit => exact ⟨i, hi, hlen, hr', hdata⟩
  | write hlen' hnext =>
    refine ⟨i, Nat.lt_succ_of_lt hi, hlen, hr', ?_⟩
    rw [WritePool.put, List.getD_eq_getElem?_getD,
      List.getElem?_set_ne (Nat.ne_of_gt hi), ← List.getD_eq_getElem?_getD, hdata]

/-! ## Every sequence of calls -/

/-- What there is to say about an answer at the end of a run. -/
structure Kept (st : Statics) (op : Op) (o : Option Region) (s : State) : Prop where
  len : ∀ r, o = some r → r.len = op.len
  aligned : ∀ r, o = some r → op.pool.align ∣ r.start
  stored : Stored st op o s

theorem step_sound {o : Option Region} (hwf : s.Wf) (hop : op.Small) (h : step st s op = .ok (o, s')) :
    s'.Wf ∧ (∀ k, Advance (s.cursor st k) (s'.cursor st k) (handedOut k (op, o))) ∧ Kept st op o s' ∧
      ∀ op' o', Kept st op' o' s → Kept st op' o' s' := by
  obtain ⟨-, r, s₁, hstep, hserved⟩ | ⟨-, hstep⟩ := step_cases st hwf hop
  · cases hstep.symm.trans h
    refine ⟨hserved.wf hwf, hserved.advance, ⟨fun r hr => ?_, fun r hr => ?_, hserved.stored hwf⟩,
      fun op' o' hkept => ⟨hkept.len, hkept.aligned, hserved.keeps hkept.stored⟩⟩
    · cases hr
      exact hserved.len_eq
    · cases hr
      exact hserved.aligned
  · cases hstep.symm.trans h
    refine ⟨hwf, fun k => ?_, ⟨nofun, nofun, nofun⟩, fun _ _ h => h⟩
    have hnone : handedOut k (op, none) = none := by rw [handedOut]; exact ite_self none
    rw [hnone]
    exact Nat.le_refl _

end

/-- What holds after a run with these answers. -/
structure Sound (st : Statics) (t : List (Op × Option Region)) (s : State) : Prop where
  disjoint : ∀ k, (t.filterMap (handedOut k)).Pairwise Region.Disjoint
  inside : ∀ k, ∀ r ∈ t.filterMap (handedOut k), r.Inside (st.region k)
  aligned : ∀ k, ∀ r ∈ t.filterMap (handedOut k), k.align ∣ r.start
  len : ∀ op r, (op, some r) ∈ t → r.len = op.len
  bytes : ∀ data r, (.write data, some r) ∈ t → s.bytesAt st r = data
  fails : ∀ op, op.Small → ∃ o s', step st s op = .ok (o, s') ∧ (o = none → s' = s) ∧ (o = none ↔ ¬ s.Fits op)

/-- Over any sequence of calls the regions of each pool are disjoint, inside the pool and aligned, what was written
stays, and a call fails, and changes nothing, exactly when the request does not fit. -/
theorem pools_disjoint (st : Statics) (ops : List Op) (hops : ∀ op ∈ ops, op.Small) :
    ∃ t s, trace (step st) .init ops = .ok (t, s) ∧ Sound st t s := by
  have hinv : ∀ s op o s', s.Wf → op.Small → step st s op = .ok (o, s') → s'.Wf ∧ Kept st op o s' := by
    intro s op o s' hwf hop h
    obtain ⟨hwf', -, hkept, -⟩ := step_sound hwf hop h
    exact ⟨hwf', hkept⟩
  have hserve : ∀ s op, s.Wf → op.Small → ∃ o s', step st s op = .ok (o, s') ∧ s'.Wf := by
    intro s op hwf hop
    obtain ⟨-, r, s', hstep, hserved⟩ | ⟨-, hstep⟩ := step_cases st hwf hop
    · exact ⟨_, s', hstep, hserved.wf hwf⟩
    · exact ⟨_, s, hstep, hwf⟩
  obtain ⟨t, s, htrace, hwf⟩ := trace_total hserve State.Wf.init hops
  have hkept : ∀ p ∈ t, Kept st p.1 p.2 s :=
    trace_kept hinv (fun s op o s' op' o' hwf hop h => (step_sound hwf hop h).2.2.2 op' o')
      State.Wf.init hops htrace
  have hpacked : ∀ k, Packed (State.init.cursor st k) (t.filterMap (handedOut k)) (s.cursor st k) := fun k =>
    packed_trace (State.cursor st · k) (handedOut k) (fun s op o s' hwf hop h =>
      ⟨(hinv s op o s' hwf hop h).1, (step_sound hwf hop h).2.1 k⟩)
      State.Wf.init hops htrace
  refine ⟨t, s, htrace, fun k => (hpacked k).pairwise, fun k r hr => ⟨?_, ?_⟩, fun k r hr => ?_,
    fun op r hr => (hkept _ hr).len r rfl,
    fun data r hr => (hkept _ hr).stored.bytesAt hwf, fun op hop => ?_⟩
  · have hlow := (hpacked k).start_le r hr
    rw [State.init_cursor] at hlow
    exact hlow
  · exact Nat.le_trans ((hpacked k).stop_le r hr) (hwf.cursor_le k)
  · obtain ⟨⟨op, o⟩, hmem, hr⟩ := List.mem_filterMap.mp hr
    unfold handedOut at hr
    by_cases hk : op.pool = k
    · rw [if_pos hk] at hr
      exact hk ▸ (hkept _ hmem).aligned r hr
    · rw [if_neg hk] at hr
      cases hr
  · obtain ⟨hfits, r, s', hstep, -⟩ | ⟨hfits, hstep⟩ := step_cases st hwf hop
    · exact ⟨_, s', hstep, nofun, nofun, fun h => absurd hfits h⟩
    · exact ⟨_, s, hstep, fun _ => rfl, fun _ => hfits, fun _ => rfl⟩

theorem pools_disjoint_three : ∃ t s, trace (step ⟨0, 65536, 8388608, by decide, by decide⟩) .init
    [.write [1, 2], .disk 5, .jit 32] = .ok (t, s) ∧
    Sound ⟨0, 65536, 8388608, by decide, by decide⟩ t s :=
  pools_disjoint _ _ fun op hop => by
    simp only [List.mem_cons, List.not_mem_nil, or_false] at hop
    rcases hop with rfl | rfl | rfl
    · trivial
    · exact Nat.lt_of_lt_of_le (show 5 < 32 by decide) (by decide)
    · exact Nat.lt_of_lt_of_le (show 32 < 64 by decide) (by decide)

end WasmOs.Pools
