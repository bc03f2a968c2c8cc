import WasmOs.Command

/-!
# Running a command line does not panic

The copies of `run_command` and `task_run_with` are cut to their buffers, but for the one of the first
word: it is in range exactly for words of at most `MAX_LINE` bytes.
-/

namespace WasmOs.Shell

/-! ## History -/

theorem copied_length {α : Type} {buf src : List α} {lo hi : Nat} (h : lo ≤ hi ∧ hi ≤ buf.length ∧
      src.length = hi - lo) :
    (buf.take lo ++ src ++ buf.drop hi).length = buf.length := by
  obtain ⟨hle, hlen, hsrc⟩ := h
  rw [List.length_append, List.length_append, List.length_take, List.length_drop, hsrc]
  omega

/-- The history has `HISTORY_LEN` slots of `MAX_LINE` bytes, and its head is one of them. -/
structure HistoryBuf.Wf (h : HistoryBuf) : Prop where
  lines : h.lines.length = HISTORY_LEN
  slot : ∀ l ∈ h.lines, l.length = MAX_LINE
  lens : h.lens.length = HISTORY_LEN
  head : h.head < HISTORY_LEN

theorem HistoryBuf.push_eq {ε : Type} {h : HistoryBuf} (hwf : h.Wf) (bytes : List UInt8) :
    ∃ slot, h.lines[h.head]? = some slot ∧ slot.length = MAX_LINE ∧
      (h.push bytes : Rust ε _) =
      .ok ⟨h.lines.set h.head (bytes.take MAX_LINE ++ slot.drop (min bytes.length MAX_LINE)),
        h.lens.set h.head (min bytes.length MAX_LINE), (h.head + 1) % HISTORY_LEN, if h.len < HISTORY_LEN then
          h.len + 1 else h.len⟩ := by
  obtain ⟨hlines, hslot, hlens, hhead⟩ := hwf
  have hlt : h.head < h.lines.length := by rw [hlines]; exact hhead
  have hget : h.lines[h.head]? = some (h.lines.get ⟨h.head, hlt⟩) := List.getElem?_eq_getElem hlt
  have hlen : (h.lines.get ⟨h.head, hlt⟩).length = MAX_LINE := hslot _ (List.getElem_mem hlt)
  have hsrc : (bytes.take (min bytes.length MAX_LINE)).drop 0 = bytes.take MAX_LINE := by
    rw [List.drop_zero, Nat.min_comm, ← List.take_take, List.take_length]
  have hfits : 0 ≤ min bytes.length MAX_LINE ∧ min bytes.length MAX_LINE ≤ (h.lines.get ⟨h.head, hlt⟩).length ∧
      (bytes.take MAX_LINE).length = min bytes.length MAX_LINE - 0 := by
    rw [hlen, List.length_take]
    omega
  refine ⟨h.lines.get ⟨h.head, hlt⟩, hget, hlen, ?_⟩
  unfold HistoryBuf.push index
  rw [hget]
  dsimp only
  rw [bind_ok, sliceRange_of_le ⟨Nat.zero_le _, Nat.min_le_left ..⟩, bind_ok, hsrc, copyInto_of_le hfits, bind_ok,
    setAt_of_lt hlt, bind_ok, setAt_of_lt (by rw [hlens]; exact hhead), bind_ok, List.take_zero, List.nil_append]

theorem HistoryBuf.push_ok {ε : Type} {h : HistoryBuf} (hwf : h.Wf) (bytes : List UInt8) :
    ∃ h', (h.push bytes : Rust ε _) = .ok h' ∧ h'.Wf := by
  obtain ⟨slot, -, hslot, hpush⟩ := HistoryBuf.push_eq (ε := ε) hwf bytes
  refine ⟨_, hpush, ?_, ?_, ?_, Nat.mod_lt _ (by decide)⟩
  · rw [List.length_set, hwf.lines]
  · intro l hl
    rcases List.mem_or_eq_of_mem_set hl with hl | rfl
    · exact hwf.slot l hl
    · rw [List.length_append, List.length_take, List.length_drop, hslot]
      omega
  · rw [List.length_set, hwf.lens]

theorem HistoryBuf.Reachable.wf {h : HistoryBuf} (hr : h.Reachable) : h.Wf := by
  induction hr with
  | new =>
    refine ⟨List.length_replicate, fun l hl => ?_, List.length_replicate, by decide⟩
    rw [List.eq_of_mem_replicate hl, List.length_replicate]
  | push _ line hp ih =>
    obtain ⟨h', hp', hwf⟩ := HistoryBuf.push_ok (ε := Empty) ih line
    cases hp.symm.trans hp'
    exact hwf

/-! ## Arguments -/

theorem joinRaw_space_ok {ε : Type} (first : Bool) {rawBuf : List UInt8} {rawLen : Nat}
    (h : rawLen ≤ rawBuf.length) :
    ∃ buf len, (joinRaw.space first rawBuf rawLen : Rust ε _) = .ok (buf, len) ∧ len ≤ buf.length := by
  unfold joinRaw.space
  by_cases hroom : !first ∧ rawLen < rawBuf.length
  · rw [if_pos hroom, setAt_of_lt hroom.2, bind_ok]
    refine ⟨_, _, rfl, ?_⟩
    rw [List.length_set]
    exact hroom.2
  · rw [if_neg hroom]
    exact ⟨_, _, rfl, h⟩

theorem joinRaw_loop_ok {ε : Type} (args : List (List UInt8)) (first : Bool) {rawBuf : List UInt8}
    {rawLen : Nat} (h : rawLen ≤ rawBuf.length) :
    ∃ rawBuf' rawLen', (joinRaw.loop args first rawBuf rawLen : Rust ε _) = .ok (rawBuf', rawLen') ∧
    rawLen' ≤ rawBuf'.length := by
  induction args generalizing first rawBuf rawLen with
  | nil => exact ⟨rawBuf, rawLen, rfl, h⟩
  | cons s args ih =>
    obtain ⟨buf, len, hbuf, hlen⟩ := joinRaw_space_ok (ε := ε) first h
    have hsrc : ((s.take (min s.length (buf.length - len))).drop 0).length =
        len + min s.length (buf.length - len) - len := by
      rw [List.drop_zero, List.length_take]
      omega
    have hfits : len ≤ len + min s.length (buf.length - len) ∧ len + min s.length (buf.length - len) ≤ buf.length ∧
        ((s.take (min s.length (buf.length - len))).drop 0).length = len + min s.length (buf.length - len) - len :=
      ⟨Nat.le_add_right .., by omega, hsrc⟩
    unfold joinRaw.loop
    rw [hbuf, bind_ok]
    dsimp only
    rw [usub, if_pos hlen, bind_ok, sliceRange_of_le ⟨Nat.zero_le _, Nat.min_le_left ..⟩, bind_ok,
      copyInto_of_le hfits, bind_ok]
    apply ih
    rw [copied_length hfits]
    exact hfits.2.1

theorem joinRaw_ok {ε : Type} (args : List (List UInt8)) : ∃ raw, (joinRaw args : Rust ε _) = .ok raw := by
  obtain ⟨buf, len, hloop, hlen⟩ :=
    joinRaw_loop_ok (ε := ε) args true (Nat.zero_le (List.replicate 128 (0 : UInt8)).length)
  unfold joinRaw
  rw [hloop, bind_ok]
  exact ⟨_, sliceRange_of_le ⟨Nat.zero_le _, hlen⟩⟩

theorem wasmArgs_loop_ok {ε : Type} (args : List (List UInt8)) (values : List (BitVec 32)) (argc : Nat)
    (hlen : values.length = 8) (hargc : argc ≤ 8) :
    ∃ r, (wasmArgs.loop args values argc : Rust ε _) = .ok r ∧ ∀ values' argc', r = .inl (values', argc') →
    argc' ≤ values'.length := by
  induction args generalizing values argc with
  | nil =>
    refine ⟨_, rfl, fun values' argc' heq => ?_⟩
    cases heq
    rw [hlen]
    exact hargc
  | cons s args ih =>
    unfold wasmArgs.loop
    by_cases hfull : 8 ≤ argc
    · rw [if_pos hfull]
      refine ⟨_, rfl, fun values' argc' heq => ?_⟩
      cases heq
      rw [hlen]
      exact hargc
    · rw [if_neg hfull]
      cases parseI32 s with
      | none => exact ⟨_, rfl, nofun⟩
      | some n =>
        dsimp only
        rw [setAt_of_lt (by omega), bind_ok]
        exact ih _ _ (by rw [List.length_set, hlen]) (by omega)

theorem taskRunWith_ok {ε : Type} (files : Fs.FileTable) (name : List UInt8) (args : List (List UInt8)) :
    ∃ r, (taskRunWith files name args : Rust ε _) = .ok r := by
  obtain ⟨raw, hraw⟩ := joinRaw_ok (ε := ε) args
  obtain ⟨parsed, hparsed, hargc⟩ :=
    wasmArgs_loop_ok (ε := ε) args (List.replicate 8 0) 0 List.length_replicate (Nat.zero_le _)
  unfold taskRunWith
  rw [hraw, bind_ok, hparsed, bind_ok]
  cases parsed with
  | inr s => exact ⟨_, rfl⟩
  | inl p =>
    dsimp only
    cases files.findFile name with
    | none => exact ⟨_, rfl⟩
    | some data =>
      dsimp only
      rw [sliceRange_of_le ⟨Nat.zero_le _, hargc p.1 p.2 rfl⟩, bind_ok]
      exact ⟨_, rfl⟩

/-! ## The name -/

theorem Words.length_le {line : List UInt8} {ws : List (List UInt8)} (h : Words line ws) :
    ∀ w ∈ ws, w.length ≤ line.length := by
  induction h with
  | nil => nofun
  | blank _ _ ih => exact fun w hw => Nat.le_succ_of_le (ih w hw)
  | quoted _ _ ih =>
    intro v hv
    rw [List.length_cons, List.length_append, List.length_cons]
    rcases List.mem_cons.mp hv with rfl | hv
    · omega
    · have := ih v hv
      omega
  | unclosed _ =>
    intro v hv
    rw [List.mem_singleton.mp hv]
    exact Nat.le_succ _
  | bare _ _ _ _ _ ih =>
    intro v hv
    rw [List.length_append]
    rcases List.mem_cons.mp hv with rfl | hv
    · exact Nat.le_add_right ..
    · exact Nat.le_add_left_of_le (ih v hv)

theorem wasmName_ok {ε : Type} {name : List UInt8} (h : name.length ≤ MAX_LINE) :
    ∃ wasm, (wasmName name : Rust ε _) = .ok wasm := by
  have hbuf : (List.replicate (MAX_LINE + 5) (0 : UInt8)).length = MAX_LINE + 5 := List.length_replicate
  unfold wasmName
  rw [copyInto_of_le ⟨Nat.zero_le _, by rw [hbuf]; exact Nat.le_add_right_of_le h, rfl⟩, bind_ok,
    List.take_zero, List.nil_append]
  have hlen : (name ++ (List.replicate (MAX_LINE + 5) (0 : UInt8)).drop name.length).length = MAX_LINE + 5 := by
    rw [List.length_append, List.length_drop, hbuf]
    omega
  rw [copyInto_of_le ⟨Nat.le_add_right .., by rw [hlen]; exact Nat.add_le_add_right h 5,
    by rw [Nat.add_sub_cancel_left]; decide⟩, bind_ok,
    sliceRange_of_le ⟨Nat.zero_le _, ?_⟩, bind_ok]
  · exact ⟨_, rfl⟩
  · rw [List.length_append, List.length_append, List.length_take, hlen, Nat.min_eq_left (Nat.le_add_right_of_le h)]
    exact Nat.le_add_right_of_le (Nat.add_le_add_left (by decide) _)

/-- A name of one to five bytes more still fits, the ending does not. -/
theorem wasmName_panics {ε : Type} {name : List UInt8} (h : MAX_LINE < name.length) :
    (wasmName name : Rust ε _) = .error .panic := by
  have hbuf : (List.replicate (MAX_LINE + 5) (0 : UInt8)).length = MAX_LINE + 5 := List.length_replicate
  unfold wasmName
  by_cases hfits : name.length ≤ MAX_LINE + 5
  · rw [copyInto_of_le ⟨Nat.zero_le _, by rw [hbuf]; exact hfits, rfl⟩, bind_ok, List.take_zero, List.nil_append]
    have hlen : (name ++ (List.replicate (MAX_LINE + 5) (0 : UInt8)).drop name.length).length = MAX_LINE + 5 := by
      rw [List.length_append, List.length_drop, hbuf]
      omega
    rw [copyInto, if_neg (by rw [hlen]; omega), bind_error]
  · rw [copyInto, if_neg (by rw [hbuf]; omega), bind_error]

/-! ## Lines -/

theorem builtinNames_length : ∀ name ∈ builtinNames, name.length ≤ MAX_LINE := by decide

theorem dispatch_ok {ε : Type} (files : Fs.FileTable) {name : List UInt8} (args : List (List UInt8))
    (h : name.length ≤ MAX_LINE) :
    ∃ out, (dispatch files name args : Rust ε _) = .ok out := by
  unfold dispatch
  by_cases hname : name ∈ builtinNames
  · rw [if_pos hname]
    by_cases hrun : name = utf8 "task-run"
    · rw [if_pos hrun]
      match args with
      | [] => exact ⟨_, rfl⟩
      | n :: args =>
        by_cases hn : n ≠ []
        · obtain ⟨r, hr⟩ := taskRunWith_ok (ε := ε) files n args
          dsimp only
          rw [if_pos hn, hr, bind_ok]
          exact ⟨_, rfl⟩
        · dsimp only
          rw [if_neg hn]
          exact ⟨_, rfl⟩
    · rw [if_neg hrun]
      exact ⟨_, rfl⟩
  · obtain ⟨wasm, hwasm⟩ := wasmName_ok (ε := ε) h
    rw [if_neg hname, hwasm, bind_ok]
    by_cases hfile : wasm ≠ [] ∧ (files.findFile wasm).isSome
    · obtain ⟨r, hr⟩ := taskRunWith_ok (ε := ε) files wasm args
      rw [if_pos hfile, hr, bind_ok]
      exact ⟨_, rfl⟩
    · rw [if_neg hfile]
      exact ⟨_, rfl⟩

theorem dispatch_panics {ε : Type} (files : Fs.FileTable) {name : List UInt8} (args : List (List UInt8))
    (h : MAX_LINE < name.length) :
    (dispatch files name args : Rust ε _) = .error .panic := by
  unfold dispatch
  rw [if_neg fun hname => absurd (builtinNames_length name hname) (Nat.not_le_of_lt h),
    wasmName_panics h, bind_error]

/-- A line whose first word has more than `MAX_LINE` bytes. -/
def LongCommand (line : List UInt8) : Prop :=
  line ≠ [] ∧ line.head? ≠ some 0x23 ∧ ∃ w ws, Words line (w :: ws) ∧ (w :: ws).length ≤ MAX_ARGS ∧
    MAX_LINE < w.length

theorem runCommand_ok (files : Fs.FileTable) {h : HistoryBuf} (hwf : h.Wf) {line : List UInt8}
    (hvalid : validUtf8 line = true)
    (hshort : ¬ LongCommand line) : ∃ r, runCommand files h line = .ok r := by
  unfold runCommand
  by_cases hskip : line = [] ∨ line.head? = some 0x23
  · rw [if_pos hskip]
    exact ⟨_, rfl⟩
  rw [if_neg hskip]
  rw [not_or] at hskip
  obtain ⟨h', hpush, -⟩ := HistoryBuf.push_ok (ε := Empty) hwf line
  obtain ⟨ws, hws⟩ := exists_words line
  rw [hpush, bind_ok, tokenize_words hvalid hws]
  by_cases hmax : ws.length ≤ MAX_ARGS
  · rw [if_pos hmax]
    cases ws with
    | nil => exact ⟨_, rfl⟩
    | cons w ws =>
      have hw : w.length ≤ MAX_LINE :=
        Nat.le_of_not_lt fun hlong => hshort ⟨hskip.1, hskip.2, w, ws, hws, hmax, hlong⟩
      obtain ⟨out, hout⟩ := dispatch_ok (ε := Empty) files ws hw
      dsimp only
      rw [hout, bind_ok]
      exact ⟨_, rfl⟩
  · rw [if_neg hmax]
    exact ⟨_, rfl⟩

theorem runCommand_panics (files : Fs.FileTable) {h : HistoryBuf} (hwf : h.Wf) {line : List UInt8}
    (hvalid : validUtf8 line = true)
    (hlong : LongCommand line) : runCommand files h line = .error .panic := by
  obtain ⟨hne, hcomment, w, ws, hws, hmax, hw⟩ := hlong
  obtain ⟨h', hpush, -⟩ := HistoryBuf.push_ok (ε := Empty) hwf line
  unfold runCommand
  rw [if_neg (not_or.mpr ⟨hne, hcomment⟩), hpush, bind_ok, tokenize_words hvalid hws, if_pos hmax]
  dsimp only
  rw [dispatch_panics files ws hw, bind_error]

/-- A line is run without a panic, and a command with a long name is reported as unknown, exactly when
there is no long name. -/
theorem runCommand_safe_iff (files : Fs.FileTable) {h : HistoryBuf} (hr : h.Reachable) {line : List UInt8}
    (hvalid : validUtf8 line = true) :
    (∃ out h', runCommand files h line = .ok (out, h') ∧ ∀ w ws, line ≠ [] → line.head? ≠ some 0x23 →
      Words line (w :: ws) →
      (w :: ws).length ≤ MAX_ARGS → MAX_LINE < w.length → out = .unknown w) ↔ ¬ LongCommand line := by
  refine ⟨fun ⟨out, h', hrun, _⟩ hlong => ?_, fun hshort => ?_⟩
  · rw [runCommand_panics files hr.wf hvalid hlong] at hrun
    cases hrun
  · obtain ⟨⟨out, h'⟩, hrun⟩ := runCommand_ok files hr.wf hvalid hshort
    exact ⟨out, h', hrun, fun w ws hne hcomment hws hmax hw => absurd ⟨hne, hcomment, w, ws, hws, hmax, hw⟩ hshort⟩

theorem runCommand_safe_ls : ∃ out h', runCommand .init .new (utf8 "ls") = .ok (out, h') ∧ ∀ w ws, utf8 "ls" ≠ [] →
    (utf8 "ls").head? ≠ some 0x23 → Words (utf8 "ls") (w :: ws) → (w :: ws).length ≤ MAX_ARGS →
    MAX_LINE < w.length → out = .unknown w := by
  have hshort : ¬ LongCommand (utf8 "ls") := fun ⟨_, _, w, ws, hws, _, hlong⟩ => by
    -- a word is no longer than its line
    have hle := hws.length_le w (List.mem_cons_self ..)
    exact absurd (Nat.le_trans hle (by decide)) (Nat.not_le_of_lt hlong)
  exact (runCommand_safe_iff .init .new (by decide)).mpr hshort

/-- A name of 129 bytes fits, the ending behind it does not. -/
theorem runCommand_long_name : runCommand .init .new (List.replicate 129 0x61) = .error .panic := by
  have hws : Words (List.replicate 129 0x61 ++ []) [List.replicate 129 0x61] :=
    .bare (List.cons_ne_nil _ _) (by decide) (by decide +kernel) (.inl rfl) .nil
  exact runCommand_panics .init HistoryBuf.Reachable.new.wf (by decide)
    ⟨by decide, by decide, _, _, by rwa [List.append_nil] at hws, by decide, by decide +kernel⟩

end WasmOs.Shell
