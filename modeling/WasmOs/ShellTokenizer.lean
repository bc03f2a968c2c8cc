import WasmOs.Utf8

/-!
# The tokenizer of the shell

`tokenize` splits a command line at blanks; a word in double quotes may hold blanks and may be empty. Its
slices of the line have to begin and end at characters.
-/

namespace WasmOs.Shell

open Asm (isCharBoundary strSlice)

def MAX_ARGS : Nat := 8

inductive ShellError where
  | tooManyArgs
  deriving DecidableEq, Repr

def isBlank (b : UInt8) : Bool := b == 0x20 || b == 0x09

/-- `while i < bytes.len() && p(bytes[i]) { i += 1; }` -/
def skipWhile (p : UInt8 → Bool) (bytes : List UInt8) (i : Nat) : Nat := i + ((bytes.drop i).takeWhile p).length

/-- Where the word at `i` starts and ends, and where the scan goes on. -/
def wordAt (bytes : List UInt8) (i : Nat) : Nat × Nat × Nat :=
  if bytes[i]? = some 0x22 then
    let stop := skipWhile (· != 0x22) bytes (i + 1)
    (i + 1, stop, if stop < bytes.length then stop + 1 else stop)
  else
    let stop := skipWhile (fun b => !isBlank b) bytes i
    (i, stop, stop)

/-- `out` are the words so far. A round that finds a word moves on. -/
def tokenize.loop (line : List UInt8) : Nat → Nat → List (List UInt8) → Rust ShellError (List (List UInt8))
  | 0, _, _ => .error .hang
  | fuel + 1, i, out =>
    if i < line.length then
      let i := skipWhile isBlank line i
      if line.length ≤ i then .ok out
      else
        let (start, stop, next) := wordAt line i
        if MAX_ARGS ≤ out.length then .error (.err .tooManyArgs)
        else do
          let word ← strSlice line start stop
          tokenize.loop line fuel next (out ++ [word])
    else .ok out

def tokenize (line : List UInt8) : Rust ShellError (List (List UInt8)) := tokenize.loop line (line.length + 1) 0 []

/-! ## Words -/

inductive Words : List UInt8 → List (List UInt8) → Prop
  | nil : Words [] []
  | blank {b : UInt8} {rest : List UInt8} {ws : List (List UInt8)} (hb : isBlank b = true)
    (h : Words rest ws) : Words (b :: rest) ws
  | quoted {w rest : List UInt8} {ws : List (List UInt8)} (hw : 0x22 ∉ w) (h : Words rest ws) :
      Words (0x22 :: (w ++ 0x22 :: rest)) (w :: ws)
  | unclosed {w : List UInt8} (hw : 0x22 ∉ w) : Words (0x22 :: w) [w]
  | bare {w rest : List UInt8} {ws : List (List UInt8)} (hne : w ≠ []) (hquote : w.head? ≠ some 0x22)
      (hw : ∀ b ∈ w, isBlank b = false) (hend : rest = [] ∨ ∃ b, rest.head? = some b ∧ isBlank b = true)
        (h : Words rest ws) :
      Words (w ++ rest) (w :: ws)

theorem exists_words (line : List UInt8) : ∃ ws, Words line ws := by
  induction hn : line.length using Nat.strongRecOn generalizing line with
  | ind n ih =>
    cases line with
    | nil => exact ⟨[], .nil⟩
    | cons b rest =>
      rw [List.length_cons] at hn
      by_cases hb : isBlank b = true
      · obtain ⟨ws, hws⟩ := ih rest.length (by omega) rest rfl
        exact ⟨ws, .blank hb hws⟩
      by_cases hq : b = 0x22
      · subst hq
        have hsplit := List.takeWhile_append_dropWhile (p := (· != 0x22)) (l := rest)
        have hw : 0x22 ∉ rest.takeWhile (· != 0x22) := fun hmem =>
          absurd (List.all_eq_true.mp List.all_takeWhile _ hmem) (by decide)
        cases hdrop : rest.dropWhile (· != 0x22) with
        | nil =>
          rw [hdrop, List.append_nil] at hsplit
          rw [hsplit] at hw
          exact ⟨[rest], .unclosed hw⟩
        | cons c tail =>
          have hc : c = 0x22 := by
            have hhead := List.head?_dropWhile_not (· != 0x22) rest
            rw [hdrop] at hhead
            simpa using hhead
          subst hc
          rw [hdrop] at hsplit
          have hlen : tail.length < n := by
            have := congrArg List.length hsplit
            rw [List.length_append, List.length_cons] at this
            omega
          obtain ⟨ws, hws⟩ := ih tail.length hlen tail rfl
          rw [← hsplit]
          exact ⟨_, .quoted hw hws⟩
      · have hsplit := List.takeWhile_append_dropWhile (p := fun b => !isBlank b) (l := b :: rest)
        have htake : (b :: rest).takeWhile (fun b => !isBlank b) = b :: rest.takeWhile (fun b => !isBlank b) :=
          List.takeWhile_cons_of_pos (by simpa using hb)
        have hlen : ((b :: rest).dropWhile (fun b => !isBlank b)).length < n := by
          have := congrArg List.length hsplit
          rw [htake, List.length_append, List.length_cons, List.length_cons] at this
          omega
        obtain ⟨ws, hws⟩ := ih _ hlen _ rfl
        rw [← hsplit]
        refine ⟨_, .bare (by rw [htake]; exact List.cons_ne_nil _ _) (by rw [htake]; simpa using hq) ?_ ?_ hws⟩
        · intro c hc
          simpa using List.all_eq_true.mp List.all_takeWhile c hc
        · cases hdrop : (b :: rest).dropWhile (fun b => !isBlank b) with
          | nil => exact .inl rfl
          | cons c tail =>
            have hhead := List.head?_dropWhile_not (fun b => !isBlank b) (b :: rest)
            rw [hdrop] at hhead
            exact .inr ⟨c, rfl, by simpa using hhead⟩

/-! ## Reading a line -/

theorem skipWhile_append {p : UInt8 → Bool} {pre w rest : List UInt8} (hw : ∀ b ∈ w, p b = true)
    (hend : ∀ b, rest.head? = some b → p b = false) :
    skipWhile p (pre ++ (w ++ rest)) pre.length = pre.length + w.length := by
  rw [skipWhile, List.drop_left, takeWhile_append_stops hw hend]

section
variable {input pre rest w : List UInt8} {ws out : List (List UInt8)} {fuel i : Nat} {b : UInt8}

theorem loop_blank (hi : input[i]? = some b) (hb : isBlank b = true) :
    tokenize.loop input (fuel + 1) i out = tokenize.loop input (fuel + 1) (i + 1) out := by
  obtain ⟨hlt, hget⟩ := List.getElem?_eq_some_iff.mp hi
  have hskip : skipWhile isBlank input i = skipWhile isBlank input (i + 1) := by
    rw [skipWhile, skipWhile, List.drop_eq_getElem_cons hlt, hget, List.takeWhile_cons_of_pos hb, List.length_cons]
    omega
  unfold tokenize.loop
  rw [if_pos hlt, hskip]
  by_cases hend : i + 1 < input.length
  · rw [if_pos hend]
  · have hstop : input.length ≤ skipWhile isBlank input (i + 1) :=
      Nat.le_trans (Nat.le_of_not_lt hend) (Nat.le_add_right ..)
    rw [if_neg hend]
    dsimp only
    rw [if_pos hstop]

/-- A word is sliced out, unless there are too many. -/
theorem loop_word {start stop next : Nat} (hi : input[i]? = some b) (hb : isBlank b = false)
    (hword : wordAt input i = (start, stop, next))
    (hslice : (strSlice input start stop : Rust ShellError _) = .ok w) :
    tokenize.loop input (fuel + 1) i out =
      if MAX_ARGS ≤ out.length then .error (.err .tooManyArgs) else tokenize.loop input fuel next (out ++ [w]) := by
  obtain ⟨hlt, hget⟩ := List.getElem?_eq_some_iff.mp hi
  have hskip : skipWhile isBlank input i = i := by
    rw [skipWhile, List.drop_eq_getElem_cons hlt, hget, List.takeWhile_cons_of_neg (by rw [hb]; exact nofun)]
    rfl
  rw [tokenize.loop, if_pos hlt, hskip]
  dsimp only
  rw [if_neg (Nat.not_le.mpr hlt), hword]
  dsimp only
  rw [hslice, bind_ok]

/-- What the loop gives for these words ahead. -/
def Split (input : List UInt8) (fuel i : Nat) (ws : List (List UInt8)) : Prop :=
  ∀ out : List (List UInt8), out.length ≤ MAX_ARGS → tokenize.loop input fuel i out =
    if out.length + ws.length ≤ MAX_ARGS then .ok (out ++ ws) else .error (.err .tooManyArgs)

theorem Split.word {start stop next : Nat} (hi : input[i]? = some b) (hb : isBlank b = false)
    (hword : wordAt input i = (start, stop, next))
    (hslice : (strSlice input start stop : Rust ShellError _) = .ok w) (h : Split input fuel next ws) :
    Split input (fuel + 1) i (w :: ws) := by
  intro out hout
  rw [loop_word hi hb hword hslice, List.length_cons]
  by_cases hfull : MAX_ARGS ≤ out.length
  · rw [if_pos hfull, if_neg (by omega)]
  · rw [if_neg hfull, h (out ++ [w]) (by rw [List.length_append, List.length_singleton]; omega), List.length_append,
      List.length_singleton, Nat.add_right_comm, Nat.add_assoc, List.append_assoc]
    rfl

theorem Split.nil (hi : i = input.length) : Split input (fuel + 1) i [] := by
  intro out hout
  rw [tokenize.loop, if_neg (by omega), List.length_nil, Nat.add_zero, if_pos hout, List.append_nil]

theorem slice_middle {a m z : List UInt8} (hinput : input = a ++ (m ++ z))
    (hlo : isCharBoundary input a.length = true) (hhi : isCharBoundary input (a.length + m.length) = true) :
    (strSlice input a.length (a.length + m.length) : Rust ShellError _) = .ok m := by
  subst hinput
  rw [strSlice_ok (Nat.le_add_right ..) (by simp) hlo hhi]
  simp [List.take_append]

theorem blank_ascii {b : UInt8} (hb : isBlank b = true) : b < 0x80 := by
  rcases (by simpa [isBlank] using hb : b = 0x20 ∨ b = 0x09) with rfl | rfl
  · decide
  · decide

/-- Between quotes a word goes up to the next quote, or to the end of the line. -/
theorem wordAt_quoted (hw : 0x22 ∉ w) (hinput : input = (pre ++ [0x22]) ++ (w ++ rest))
    (hend : ∀ c, rest.head? = some c → c = 0x22) :
    wordAt input pre.length = ((pre ++ [0x22]).length, (pre ++ [0x22]).length + w.length,
      if (pre ++ [0x22]).length + w.length < input.length then (pre ++ [0x22]).length + w.length + 1 else
        (pre ++ [0x22]).length + w.length) := by
  have hi : input[pre.length]? = some 0x22 := by simp [hinput]
  have hstop : skipWhile (· != 0x22) input (pre ++ [0x22]).length = (pre ++ [0x22]).length + w.length := by
    rw [hinput]
    exact skipWhile_append (fun c hc => by simpa using fun h : c = 0x22 => hw (h ▸ hc)) fun c hc => by
      rw [hend c hc]
      rfl
  rw [wordAt, if_pos hi]
  dsimp only
  rw [show pre.length + 1 = (pre ++ [0x22]).length by simp, hstop]

/-- Any other word goes up to a blank, or to the end of the line. -/
theorem wordAt_bare (hquote : (w ++ rest).head? ≠ some 0x22) (hw : ∀ c ∈ w, isBlank c = false)
    (hinput : input = pre ++ (w ++ rest)) (hend : ∀ c, rest.head? = some c → isBlank c = true) :
    wordAt input pre.length = (pre.length, pre.length + w.length, pre.length + w.length) := by
  have hi : input[pre.length]? ≠ some 0x22 := by
    rw [hinput, List.getElem?_append_right (Nat.le_refl _), Nat.sub_self, ← List.head?_eq_getElem?]
    exact hquote
  have hstop : skipWhile (fun c => !isBlank c) input pre.length = pre.length + w.length := by
    rw [hinput]
    exact skipWhile_append (fun c hc => by simpa using hw c hc) fun c hc => by simpa using hend c hc
  rw [wordAt, if_neg hi]
  dsimp only
  rw [hstop]

/-- Behind a word there is the end of the line or a character of one byte. -/
theorem boundary_behind (hinput : input = pre ++ rest) (hend : ∀ c, rest.head? = some c → c < 0x80) :
    isCharBoundary input pre.length = true := by
  cases rest with
  | nil =>
    rw [hinput, List.append_nil]
    exact boundary_length pre
  | cons c rest =>
    have hget : input[pre.length]? = some c := by simp [hinput]
    exact boundary_of_ascii hget (hend c rfl)

theorem split_words (hvalid : validUtf8 input = true) (h : Words rest ws) (hinput : input = pre ++ rest)
    (hbound : isCharBoundary input pre.length = true) (hfuel : rest.length < fuel) :
    Split input fuel pre.length ws := by
  induction h generalizing pre fuel with
  | nil =>
    obtain ⟨k, rfl⟩ := Nat.exists_eq_succ_of_ne_zero (Nat.ne_of_gt hfuel)
    exact .nil (by rw [hinput, List.append_nil])
  | @blank b rest ws hb _ ih =>
    obtain ⟨k, rfl⟩ : ∃ k, fuel = k + 1 := ⟨fuel - 1, by omega⟩
    have hi : input[pre.length]? = some b := by simp [hinput]
    have hnext :=
      @ih (pre ++ [b]) (k + 1) (by simp [hinput]) (by simpa using boundary_succ hvalid hi (blank_ascii hb))
      (Nat.lt_of_succ_lt hfuel)
    intro out hout
    rw [loop_blank hi hb, ← hnext out hout]
    simp
  | @quoted w rest ws hw _ ih =>
    obtain ⟨k, rfl⟩ : ∃ k, fuel = k + 1 := ⟨fuel - 1, by omega⟩
    have hmiddle : input = (pre ++ [0x22]) ++ (w ++ (0x22 :: rest)) := by simp [hinput]
    have hbehind : input = (pre ++ [0x22] ++ w) ++ (0x22 :: rest) := by simp [hinput]
    have hafter : input = (pre ++ [0x22] ++ w ++ [0x22]) ++ rest := by simp [hinput]
    have hi : input[pre.length]? = some 0x22 := by simp [hinput]
    have hclose : input[(pre ++ [0x22] ++ w).length]? = some 0x22 := by simp [hbehind]
    have hpre : (pre ++ [0x22] ++ w).length = (pre ++ [0x22]).length + w.length := List.length_append
    have hnext := @ih (pre ++ [0x22] ++ w ++ [0x22]) k hafter
      (by rw [List.length_append]; exact boundary_succ hvalid hclose (by decide))
      (by rw [List.length_cons, List.length_append, List.length_cons] at hfuel; omega)
    have hword := wordAt_quoted hw hmiddle fun c hc => (Option.some.inj hc).symm
    rw [← hpre, if_pos (List.getElem?_eq_some_iff.mp hclose).1] at hword
    rw [List.length_append] at hnext
    rw [hpre] at hword hclose hnext
    exact .word hi rfl hword (slice_middle hmiddle (by simpa using boundary_succ hvalid hi (by decide))
      (boundary_of_ascii hclose (by decide))) hnext
  | @unclosed w hw =>
    obtain ⟨k, rfl⟩ : ∃ k, fuel = k + 2 := ⟨fuel - 2, by rw [List.length_cons] at hfuel; omega⟩
    have hmiddle : input = (pre ++ [0x22]) ++ (w ++ []) := by simp [hinput]
    have hlength : (pre ++ [0x22]).length + w.length = input.length := by
      rw [hmiddle, List.append_nil]
      exact List.length_append.symm
    have hi : input[pre.length]? = some 0x22 := by simp [hinput]
    have hword := wordAt_quoted hw hmiddle nofun
    rw [if_neg (by omega)] at hword
    exact .word hi rfl hword (slice_middle hmiddle (by simpa using boundary_succ hvalid hi (by decide))
      (by rw [hlength]; exact boundary_length input))
      (.nil hlength)
  | @bare w rest ws hne hquote hw hend _ ih =>
    obtain ⟨k, rfl⟩ : ∃ k, fuel = k + 1 := ⟨fuel - 1, by omega⟩
    have hafter : input = (pre ++ w) ++ rest := by simp [hinput]
    have hlen : (pre ++ w).length = pre.length + w.length := List.length_append
    have hblank : ∀ c, rest.head? = some c → isBlank c = true := by
      intro c hc
      obtain rfl | ⟨d, hd, hblank⟩ := hend
      · cases hc
      · cases hc.symm.trans hd
        exact hblank
    obtain ⟨b, tail, rfl⟩ := List.exists_cons_of_ne_nil hne
    have hi : input[pre.length]? = some b := by simp [hinput]
    have hboundary := boundary_behind hafter fun c hc => blank_ascii (hblank c hc)
    have hnext :=
      @ih (pre ++ b :: tail) k hafter hboundary (by rw [List.length_append, List.length_cons] at hfuel; omega)
    rw [hlen] at hnext hboundary
    exact .word hi (hw b (List.mem_cons_self ..)) (wordAt_bare hquote hw hinput hblank)
      (slice_middle hinput hbound hboundary) hnext

end

theorem tokenize_words {line : List UInt8} (hvalid : validUtf8 line = true) {ws : List (List UInt8)}
    (h : Words line ws) :
    tokenize line = if ws.length ≤ MAX_ARGS then .ok ws else .error (.err .tooManyArgs) := by
  have hlines : Split line (line.length + 1) ([] : List UInt8).length ws :=
    split_words hvalid h rfl (boundary_zero line) (Nat.lt_succ_self _)
  have hsplit := hlines [] (Nat.zero_le _)
  simpa [tokenize] using hsplit

/-! ## Quoted arguments -/

def quote (a : List UInt8) : List UInt8 := 0x22 :: (a ++ [0x22])

/-- Arguments in double quotes with blanks between them. -/
inductive Quoted : List (List UInt8) → List UInt8 → Prop
  | nil : Quoted [] []
  | one (a : List UInt8) : Quoted [a] (quote a)
  | cons (a : List UInt8) {args : List (List UInt8)} {blanks line : List UInt8} (hargs : args ≠ [])
    (hblanks : blanks ≠ [])
      (hall : ∀ b ∈ blanks, isBlank b = true) (h : Quoted args line) :
        Quoted (a :: args) (quote a ++ (blanks ++ line))

theorem Words.blanks {blanks rest : List UInt8} {ws : List (List UInt8)}
    (hall : ∀ b ∈ blanks, isBlank b = true) (h : Words rest ws) :
    Words (blanks ++ rest) ws := by
  induction blanks with
  | nil => exact h
  | cons b blanks ih =>
    exact .blank (hall b (List.mem_cons_self ..)) (ih fun c hc => hall c (List.mem_cons_of_mem b hc))

theorem quote_valid {a : List UInt8} (h : validUtf8 a = true) : validUtf8 (quote a) = true := by
  rw [quote, validUtf8_ascii (by decide)]
  exact (validUtf8_append h _).trans rfl

theorem Quoted.words {args : List (List UInt8)} {line : List UInt8} (h : Quoted args line)
    (hargs : ∀ a ∈ args, validUtf8 a = true ∧ 0x22 ∉ a) : Words line args ∧ validUtf8 line = true := by
  induction h with
  | nil => exact ⟨.nil, rfl⟩
  | one a =>
    obtain ⟨hvalid, hquote⟩ := hargs a (List.mem_cons_self ..)
    exact ⟨.quoted hquote .nil, quote_valid hvalid⟩
  | @cons a args blanks line _ _ hall _ ih =>
    obtain ⟨hvalid, hquote⟩ := hargs a (List.mem_cons_self ..)
    obtain ⟨hwords, hline⟩ := ih fun c hc => hargs c (List.mem_cons_of_mem a hc)
    refine ⟨?_, ?_⟩
    · have hsplit : quote a ++ (blanks ++ line) = 0x22 :: (a ++ 0x22 :: (blanks ++ line)) := by simp [quote]
      rw [hsplit]
      exact .quoted hquote (.blanks hall hwords)
    · rw [validUtf8_append (quote_valid hvalid),
        validUtf8_append (validUtf8_of_ascii fun b hb => blank_ascii (hall b hb)), hline]

theorem tokenizer_roundtrip :
    (∀ args line, Quoted args line → (∀ a ∈ args, validUtf8 a = true ∧ 0x22 ∉ a) → args.length ≤ MAX_ARGS →
      tokenize line = .ok args) ∧
    (∀ line, validUtf8 line = true → (tokenize line).Total ∧ (∃ ws, Words line ws) ∧
      ∀ ws, Words line ws → (tokenize line = .error (.err .tooManyArgs) ↔ MAX_ARGS < ws.length) ∧
        (ws.length ≤ MAX_ARGS → tokenize line = .ok ws)) := by
  constructor
  · intro args line h hargs hlen
    obtain ⟨hwords, hvalid⟩ := h.words hargs
    rw [tokenize_words hvalid hwords, if_pos hlen]
  · intro line hvalid
    obtain ⟨ws, hws⟩ := exists_words line
    refine ⟨?_, ⟨ws, hws⟩, fun ws hws => ⟨?_, fun hlen => ?_⟩⟩
    · rw [tokenize_words hvalid hws]
      split
      · exact ⟨nofun, nofun⟩
      · exact ⟨nofun, nofun⟩
    · rw [tokenize_words hvalid hws]
      by_cases hlen : ws.length ≤ MAX_ARGS
      · rw [if_pos hlen]
        exact ⟨nofun, fun h => absurd hlen (Nat.not_le.mpr h)⟩
      · rw [if_neg hlen]
        exact ⟨fun _ => Nat.lt_of_not_le hlen, fun _ => rfl⟩
    · rw [tokenize_words hvalid hws, if_pos hlen]

/-- An empty argument, one with a character of two bytes, and a tab between the last two. -/
theorem tokenizer_roundtrip_three : tokenize (utf8 "\"\" \"é b\"\t\"c\"") = .ok [[], utf8 "é b", utf8 "c"] := by
  refine tokenizer_roundtrip.1 _ _ ?_ (by decide) (by decide)
  have hblank : ∀ b ∈ utf8 " ", isBlank b = true := by decide +kernel
  have htab : ∀ b ∈ utf8 "\t", isBlank b = true := by decide +kernel
  have hlast : Quoted [utf8 "c"] (utf8 "\"c\"") := .one (utf8 "c")
  have hmiddle : Quoted [utf8 "é b", utf8 "c"] (utf8 "\"é b\"\t\"c\"") :=
    @Quoted.cons (utf8 "é b") _ (utf8 "\t") _ (List.cons_ne_nil _ _) (List.cons_ne_nil _ _) htab hlast
  exact @Quoted.cons [] _ (utf8 " ") _ (List.cons_ne_nil _ _) (List.cons_ne_nil _ _) hblank hmiddle

end WasmOs.Shell
