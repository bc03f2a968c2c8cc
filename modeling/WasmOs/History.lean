import WasmOs.CommandSound
import WasmOs.RingBuffer

/-!
# The history of the shell

The history is a ring of `HISTORY_LEN` lines, each cut to `MAX_LINE` bytes. A shorter line leaves the end
of an older one in its slot, behind the length that is kept for it.
-/

namespace WasmOs.Shell

def HistoryBuf.entry (h : HistoryBuf) (k : Nat) : Option (List UInt8) :=
  h.lines[k]?.bind fun slot => h.lens[k]?.map fun len => slot.take len

/-- What `get` makes of the bytes of a slot. -/
def shown (bytes : List UInt8) : List UInt8 := if validUtf8 bytes then bytes else []

/-- The history after the lines `ls`, the oldest first. -/
structure Keeps (h : HistoryBuf) (ls : List (List UInt8)) : Prop where
  wf : h.Wf
  lens : ∀ n ∈ h.lens, n ≤ MAX_LINE
  head : h.head = ls.length % HISTORY_LEN
  len : h.len = min ls.length HISTORY_LEN
  ring : RingBuffer.Holds HISTORY_LEN h.entry (ls.map (List.take MAX_LINE))

theorem keeps_new : Keeps .new [] where
  wf := HistoryBuf.Reachable.new.wf
  lens := by
    intro n hn
    rw [List.eq_of_mem_replicate hn]
    exact Nat.zero_le _
  head := rfl
  len := rfl
  ring := RingBuffer.holds_nil _ _

theorem HistoryBuf.entry_of_get {h : HistoryBuf} {k len : Nat} {slot : List UInt8} (hslot : h.lines[k]? = some slot)
    (hlen : h.lens[k]? = some len) : h.entry k = some (slot.take len) := by
  rw [HistoryBuf.entry, hslot, hlen]
  rfl

/-- A pushed line is the newest one, and the others stay in their slots. -/
theorem Keeps.push {ε : Type} {h : HistoryBuf} {ls : List (List UInt8)} (hk : Keeps h ls) (bytes : List UInt8) :
    ∃ h', (h.push bytes : Rust ε _) = .ok h' ∧ Keeps h' (ls ++ [bytes]) := by
  obtain ⟨slot, hslot, -, hpush⟩ := HistoryBuf.push_eq (ε := ε) hk.wf bytes
  obtain ⟨h', hpush', hwf⟩ := HistoryBuf.push_ok (ε := ε) hk.wf bytes
  cases hpush.symm.trans hpush'
  refine ⟨_, hpush, ?_⟩
  have hcount : (ls ++ [bytes]).length = ls.length + 1 := List.length_append
  constructor
  · exact hwf
  · intro n hn
    rcases List.mem_or_eq_of_mem_set hn with hn | rfl
    · exact hk.lens n hn
    · exact Nat.min_le_right ..
  · change (h.head + 1) % HISTORY_LEN = _
    rw [hcount, hk.head, Nat.mod_add_mod]
  · dsimp only
    rw [hcount, hk.len]
    split
    · omega
    · omega
  · have hhead : h.head = (ls.map (List.take MAX_LINE)).length % HISTORY_LEN := by rw [List.length_map, hk.head]
    rw [List.map_append]
    apply hk.ring.push
    · rw [← hhead]
      have hline : (h.lines.set h.head (bytes.take MAX_LINE ++ slot.drop (min bytes.length MAX_LINE)))[h.head]? =
          some (bytes.take MAX_LINE ++ slot.drop (min bytes.length MAX_LINE)) :=
        List.getElem?_set_self (List.getElem?_eq_some_iff.mp hslot).1
      have hlen : (h.lens.set h.head (min bytes.length MAX_LINE))[h.head]? = some (min bytes.length MAX_LINE) :=
        List.getElem?_set_self (by rw [hk.wf.lens]; exact hk.wf.head)
      rw [HistoryBuf.entry_of_get hline hlen, List.take_left' (by rw [List.length_take, Nat.min_comm])]
    · intro k hne
      rw [← hhead] at hne
      rw [HistoryBuf.entry, HistoryBuf.entry, List.getElem?_set_ne hne.symm, List.getElem?_set_ne hne.symm]

theorem Keeps.run {ε : Type} {h : HistoryBuf} {ls : List (List UInt8)} (hk : Keeps h ls) (new : List (List UInt8)) :
    ∃ h', (new.foldlM HistoryBuf.push h : Rust ε _) = .ok h' ∧ Keeps h' (ls ++ new) := by
  induction new generalizing h ls with
  | nil =>
    rw [List.append_nil]
    exact ⟨h, rfl, hk⟩
  | cons bytes new ih =>
    obtain ⟨h₁, hpush, hk₁⟩ := hk.push (ε := ε) bytes
    obtain ⟨h₂, hrun, hk₂⟩ := ih hk₁
    rw [List.append_assoc] at hk₂
    refine ⟨h₂, ?_, hk₂⟩
    rw [List.foldlM_cons, hpush, bind_ok, hrun]

/-! ## Reading -/

/-- `get` returns what is in use of the slot it comes to. -/
theorem HistoryBuf.get_of_entry {ε : Type} {h : HistoryBuf} (hwf : h.Wf) (hlens : ∀ n ∈ h.lens, n ≤ MAX_LINE)
    {i : Nat} {bytes : List UInt8}
    (hi : i < HISTORY_LEN) (he : h.entry (((if h.len < HISTORY_LEN then 0 else h.head) + i) % HISTORY_LEN) =
      some bytes) :
    (h.get i : Rust ε _) = .ok (shown bytes) := by
  have hhead := hwf.head
  have hstart : (if h.len < HISTORY_LEN then 0 else h.head) < HISTORY_LEN := by split <;> omega
  obtain ⟨slot, hslot, he⟩ := Option.bind_eq_some_iff.mp he
  obtain ⟨len, hlen, rfl⟩ := Option.map_eq_some_iff.mp he
  have hle : len ≤ slot.length := by
    rw [hwf.slot slot (List.mem_of_getElem? hslot)]
    exact hlens len (List.mem_of_getElem? hlen)
  unfold HistoryBuf.get
  dsimp only
  rw [uadd_of_lt (Nat.lt_trans (Nat.add_lt_add hstart hi) (by decide)), bind_ok, index_eq_ok.mpr hlen,
    bind_ok, index_eq_ok.mpr hslot, bind_ok,
    sliceRange_of_le ⟨Nat.zero_le _, hle⟩, bind_ok, List.drop_zero]
  rfl

theorem Keeps.get {ε : Type} {h : HistoryBuf} {ls : List (List UInt8)} (hk : Keeps h ls) {i : Nat}
    (hi : i < h.len) :
    ∃ l, ls[ls.length - h.len + i]? = some l ∧ (h.get i : Rust ε _) = .ok (shown (l.take MAX_LINE)) := by
  have hlen := hk.len
  have hlt : ls.length - h.len + i < ls.length := by omega
  have hstart : (if h.len < HISTORY_LEN then 0 else h.head) = RingBuffer.start HISTORY_LEN ls.length := by
    rw [hlen, hk.head, RingBuffer.start]
    split <;> split <;> omega
  have hread :=
    hk.ring.get (show i < min (ls.map (List.take MAX_LINE)).length HISTORY_LEN by rw [List.length_map]; omega)
  rw [List.length_map, ← hstart, ← hlen, List.getElem?_map, List.getElem?_eq_getElem hlt] at hread
  exact ⟨_, List.getElem?_eq_getElem hlt, HistoryBuf.get_of_entry hk.wf hk.lens (by omega) hread⟩

theorem shown_ascii {l : List UInt8} (hlen : l.length ≤ MAX_LINE) (hascii : ∀ c ∈ l, c < 0x80) :
    shown (l.take MAX_LINE) = l := by
  rw [List.take_of_length_le hlen]
  exact if_pos (validUtf8_of_ascii hascii)

/-- After any lines of ASCII that fit, the last of them are kept, and each is read back whole. -/
theorem history_ring (ls : List (List UInt8)) (hls : ∀ l ∈ ls, l.length ≤ MAX_LINE ∧ ∀ c ∈ l, c < 0x80) :
    ∃ h, (ls.foldlM HistoryBuf.push .new : Rust Empty _) = .ok h ∧ historyLen h = min ls.length HISTORY_LEN ∧
      ∀ i < historyLen h, ∃ l, ls[ls.length - historyLen h + i]? = some l ∧
      (historyGet h i : Rust Empty _) = .ok l := by
  obtain ⟨h, hrun, hk⟩ := keeps_new.run (ε := Empty) ls
  refine ⟨h, hrun, hk.len, fun i hi => ?_⟩
  obtain ⟨l, hl, hget⟩ := hk.get (ε := Empty) hi
  obtain ⟨hlen, hascii⟩ := hls l (List.mem_of_getElem? hl)
  rw [shown_ascii hlen hascii] at hget
  exact ⟨l, hl, hget⟩

/-- Sixteen long lines and a short one: the short one is in the first slot, and nothing of the long line is left. -/
theorem history_ring_wraps :
    ∃ h, ((List.replicate 16 (utf8 "help help help") ++ [utf8 "ls"]).foldlM HistoryBuf.push .new : Rust Empty
      _) = .ok h ∧
    historyLen h = 16 ∧ (historyGet h 0 : Rust Empty _) = .ok (utf8 "help help help") ∧
    (historyGet h 15 : Rust Empty _) = .ok (utf8 "ls") := by
  have hls : ∀ l ∈ List.replicate 16 (utf8 "help help help") ++ [utf8 "ls"], l.length ≤ MAX_LINE ∧
      ∀ c ∈ l, c < 0x80 := by
    have hascii : ∀ s : List UInt8, s.all (· < 0x80) = true → ∀ c ∈ s, c < 0x80 := fun s h c hc =>
      of_decide_eq_true (List.all_eq_true.mp h c hc)
    intro l hl
    rcases List.mem_append.mp hl with hl | hl
    · rw [List.eq_of_mem_replicate hl]
      exact ⟨by decide, hascii _ (by decide)⟩
    · rw [List.mem_singleton.mp hl]
      exact ⟨by decide, hascii _ (by decide)⟩
  obtain ⟨h, hrun, hlen, hget⟩ := history_ring _ hls
  have hlen' : historyLen h = 16 := hlen
  rw [hlen'] at hget
  obtain ⟨first, hfirst, hget₀⟩ := hget 0 (by decide)
  obtain ⟨last, hlast, hget₁₅⟩ := hget 15 (by decide)
  cases hfirst
  cases hlast
  exact ⟨h, hrun, hlen', hget₀, hget₁₅⟩

end WasmOs.Shell
