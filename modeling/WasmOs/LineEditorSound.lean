import Mathlib.Data.List.Induction
import WasmOs.Leb
import WasmOs.LineEditor
import WasmOs.Runs

/-!
# The cursor of the line editor

The editor moves its cursor by one byte and inserts and removes whole characters, so the cursor stays on a
character boundary as long as it never steps over a character of more than one byte. Keys are ASCII; such
a character can only come from the completion of a file name.
-/

namespace WasmOs.Shell

/-! ## Positions -/

@[simp] theorem byteLen_nil : byteLen [] = 0 := rfl

@[simp] theorem byteLen_cons (c : Char) (s : Text) : byteLen (c :: s) = c.utf8Size + byteLen s := rfl

@[simp] theorem byteLen_append (s t : Text) : byteLen (s ++ t) = byteLen s + byteLen t := by
  unfold byteLen
  rw [List.map_append, List.sum_append]

def OnBoundary (s : Text) (i : Nat) : Prop := ∃ pre post, s = pre ++ post ∧ byteLen pre = i

theorem onBoundary_zero (s : Text) : OnBoundary s 0 := ⟨[], s, rfl, rfl⟩

theorem onBoundary_end (s : Text) : OnBoundary s (byteLen s) := ⟨s, [], (List.append_nil s).symm, rfl⟩

theorem OnBoundary.le {s : Text} {i : Nat} (h : OnBoundary s i) : i ≤ byteLen s := by
  obtain ⟨pre, post, rfl, rfl⟩ := h
  rw [byteLen_append]
  exact Nat.le_add_right ..

theorem splitBytes_append : ∀ (pre post : Text), splitBytes (pre ++ post) (byteLen pre) = some (pre, post)
  | [], post => by
    rw [List.nil_append, byteLen_nil]
    unfold splitBytes
    rfl
  | c :: pre, post => by
    obtain ⟨n, hn⟩ : ∃ n, byteLen (c :: pre) = n + 1 := ⟨byteLen (c :: pre) - 1, by
      have := c.utf8Size_pos
      rw [byteLen_cons]
      omega⟩
    have hrest : n + 1 - c.utf8Size = byteLen pre := by
      rw [← hn, byteLen_cons, Nat.add_sub_cancel_left]
    rw [hn, List.cons_append, splitBytes, if_pos (by rw [← hn, byteLen_cons]; exact Nat.le_add_right ..), hrest,
      splitBytes_append pre post]
    rfl

theorem splitBytes_eq_some : ∀ {s pre post : Text} {i : Nat}, splitBytes s i = some (pre, post) →
    s = pre ++ post ∧ byteLen pre = i
  | s, _, _, 0, h => by
    unfold splitBytes at h
    cases h
    exact ⟨rfl, rfl⟩
  | [], _, _, n + 1, h => by
    unfold splitBytes at h
    cases h
  | c :: s, _, _, n + 1, h => by
    unfold splitBytes at h
    by_cases hc : c.utf8Size ≤ n + 1
    · rw [if_pos hc] at h
      obtain ⟨⟨pre, post⟩, hp, heq⟩ := Option.map_eq_some_iff.mp h
      cases heq
      obtain ⟨hs, hlen⟩ := splitBytes_eq_some hp
      refine ⟨congrArg (c :: ·) hs, ?_⟩
      rw [byteLen_cons, hlen]
      omega
    · rw [if_neg hc] at h
      cases h

theorem onBoundary_iff {s : Text} {i : Nat} : OnBoundary s i ↔ ∃ p, splitBytes s i = some p := by
  constructor
  · rintro ⟨pre, post, rfl, rfl⟩
    exact ⟨(pre, post), splitBytes_append pre post⟩
  · rintro ⟨⟨pre, post⟩, h⟩
    obtain ⟨hs, hlen⟩ := splitBytes_eq_some h
    exact ⟨pre, post, hs, hlen⟩

theorem not_onBoundary_inside {pre post : Text} {c : Char} {k : Nat} (h0 : 0 < k) (hk : k < c.utf8Size) :
    ¬ OnBoundary (pre ++ c :: post) (byteLen pre + k) := by
  induction pre with
  | nil =>
    rintro ⟨pre', post', h, hlen⟩
    cases pre' with
    | nil =>
      rw [byteLen_nil] at hlen
      omega
    | cons d pre' =>
      rw [List.nil_append, List.cons_append, List.cons.injEq] at h
      obtain ⟨rfl, -⟩ := h
      rw [byteLen_cons, byteLen_nil] at hlen
      omega
  | cons d pre ih =>
    rintro ⟨pre', post', h, hlen⟩
    rw [byteLen_cons] at hlen
    cases pre' with
    | nil =>
      rw [byteLen_nil] at hlen
      have := d.utf8Size_pos
      omega
    | cons e pre' =>
      rw [List.cons_append, List.cons_append, List.cons.injEq] at h
      obtain ⟨rfl, h⟩ := h
      rw [byteLen_cons] at hlen
      exact ih ⟨pre', post', h, by omega⟩

/-! ## Keys -/

def Key.Ascii : Key → Prop
  | .char c => c.utf8Size = 1
  | _ => True

instance : DecidablePred Key.Ascii := fun key => by
  cases key <;> unfold Key.Ascii <;> infer_instance

theorem serialByteToKey_ascii : ∀ b, (serialByteToKey b).Ascii := byte_forall (by decide +kernel)

theorem tryNextKey_ascii (shift : Bool) : ∀ sc key, (tryNextKey shift sc).1 = some key → key.Ascii := by
  have hall : ∀ (shift : Bool) (n : Fin 256),
      ((tryNextKey shift (UInt8.ofNat n)).1.all fun key => decide key.Ascii) = true := by
    decide +kernel
  apply byte_forall
  intro n key hkey
  have := hall shift n
  rw [hkey] at this
  simpa using this

theorem decode_ascii {st : ShellState} {ev : ShellEvent} {key : Key} {files : List Text} {shift : Bool}
    (h : st.decode ev = (some (key, files), shift)) : key.Ascii := by
  cases ev with
  | serial b files =>
    cases h
    exact serialByteToKey_ascii b
  | keyboard sc files =>
    rw [ShellState.decode, Prod.mk.injEq, Option.map_eq_some_iff] at h
    obtain ⟨⟨_, hkey, heq⟩, -⟩ := h
    cases heq
    exact tryNextKey_ascii st.shift sc _ hkey
  | idle | requestRender => cases h

/-! ## The editor -/

namespace CommandLineEditor

/-- The screen shows the line and the cursor; before anything is drawn the line is empty. -/
def Drawn (e : CommandLineEditor) : Prop :=
  e.screen = some (e.buffer, e.cursorPos) ∨ (e.screen = none ∧ e.buffer = [])

/-- The invariant while a key is handled: what is not drawn is marked. -/
structure Held (e : CommandLineEditor) : Prop where
  boundary : OnBoundary e.buffer e.cursorPos
  history : e.historyIndex ≤ e.history.length
  drawn : e.needsRender = true ∨ e.Drawn

/-- A left or right step of the cursor passes a character of one byte. -/
def OneByte (e : CommandLineEditor) : Key → Prop
  | .arrowLeft | .backspace => ∀ pre c post, e.buffer = pre ++ c :: post →
    byteLen pre + c.utf8Size = e.cursorPos → c.utf8Size = 1
  | .arrowRight => ∀ pre c post, e.buffer = pre ++ c :: post → byteLen pre = e.cursorPos → c.utf8Size = 1
  | _ => True

variable {e : CommandLineEditor}

theorem render_drawn (h : e.needsRender = true ∨ e.Drawn) : e.render.Drawn := by
  unfold render
  by_cases hr : e.needsRender = true
  · rw [if_pos hr]
    exact .inl rfl
  · rw [if_neg hr]
    exact h.resolve_left hr

@[simp] theorem render_buffer : e.render.buffer = e.buffer := by
  unfold render
  split <;> rfl

@[simp] theorem render_cursorPos : e.render.cursorPos = e.cursorPos := by
  unfold render
  split <;> rfl

@[simp] theorem render_history : e.render.history = e.history := by
  unfold render
  split <;> rfl

@[simp] theorem render_historyIndex : e.render.historyIndex = e.historyIndex := by
  unfold render
  split <;> rfl

theorem Held.render (h : e.Held) : e.render.Held where
  boundary := by
    rw [render_buffer, render_cursorPos]
    exact h.boundary
  history := by
    rw [render_history, render_historyIndex]
    exact h.history
  drawn := .inr (render_drawn h.drawn)

theorem setBuffer_held (h : e.historyIndex ≤ e.history.length) (line : Text) : (e.setBuffer line).Held :=
  ⟨onBoundary_end line, h, .inl rfl⟩

theorem insertChar_held (h : e.Held) {c : Char} (hc : c.utf8Size = 1) :
    ∃ e', e.insertChar c = .ok e' ∧ e'.Held := by
  obtain ⟨pre, post, hbuf, hpos⟩ := h.boundary
  have hnext : OnBoundary (pre ++ c :: post) (e.cursorPos + 1) := by
    refine ⟨pre ++ [c], post, ?_, ?_⟩
    · rw [List.append_assoc]
      rfl
    · rw [byteLen_append, hpos, byteLen_cons, hc, byteLen_nil]
  unfold insertChar
  by_cases hlt : e.cursorPos < byteLen e.buffer
  · have hinsert : strInsert e.buffer e.cursorPos c = .ok (pre ++ c :: post) := by
      rw [strInsert, hbuf, ← hpos, splitBytes_append]
    rw [if_pos hlt, hinsert, bind_ok]
    exact ⟨_, rfl, hnext, h.history, .inl rfl⟩
  · have hpost : post = [] := by
      cases post with
      | nil => rfl
      | cons d post =>
        have := d.utf8Size_pos
        rw [hbuf, byteLen_append, byteLen_cons, hpos] at hlt
        omega
    subst hpost
    rw [List.append_nil] at hbuf
    rw [if_neg hlt, bind_ok, hbuf]
    exact ⟨_, rfl, hnext, h.history, .inl rfl⟩

theorem moveLeft_held (h : e.Held) (hone : e.OneByte .arrowLeft) : e.moveLeft.Held := by
  unfold moveLeft
  by_cases hpos : 0 < e.cursorPos
  · rw [if_pos hpos]
    obtain ⟨pre, post, hbuf, hlen⟩ := h.boundary
    refine ⟨?_, h.history, .inl rfl⟩
    cases pre using List.reverseRecOn with
    | nil =>
      rw [byteLen_nil] at hlen
      omega
    | append_singleton pre c =>
      rw [List.append_assoc, List.singleton_append] at hbuf
      rw [byteLen_append, byteLen_cons, byteLen_nil, Nat.add_zero] at hlen
      have hc := hone pre c post hbuf hlen
      exact ⟨pre, c :: post, hbuf, by dsimp only; omega⟩
  · rw [if_neg hpos]
    exact h

theorem moveRight_held (h : e.Held) (hone : e.OneByte .arrowRight) : e.moveRight.Held := by
  unfold moveRight
  by_cases hlt : e.cursorPos < byteLen e.buffer
  · rw [if_pos hlt]
    obtain ⟨pre, post, hbuf, hlen⟩ := h.boundary
    refine ⟨?_, h.history, .inl rfl⟩
    cases post with
    | nil =>
      rw [hbuf, List.append_nil, hlen] at hlt
      omega
    | cons c post =>
      have hc := hone pre c post hbuf hlen
      refine ⟨pre ++ [c], post, ?_, ?_⟩
      · rw [List.append_assoc]
        exact hbuf
      · rw [byteLen_append, byteLen_cons, byteLen_nil, hc, hlen]
  · rw [if_neg hlt]
    exact h

theorem deleteLeft_held (h : e.Held) (hone : e.OneByte .backspace) : ∃ e', e.deleteLeft = .ok e' ∧ e'.Held := by
  unfold deleteLeft
  by_cases hpos : 0 < e.cursorPos
  · rw [if_pos hpos]
    obtain ⟨pre, post, hbuf, hlen⟩ := h.boundary
    cases pre using List.reverseRecOn with
    | nil =>
      rw [byteLen_nil] at hlen
      omega
    | append_singleton pre c =>
      rw [List.append_assoc, List.singleton_append] at hbuf
      rw [byteLen_append, byteLen_cons, byteLen_nil, Nat.add_zero] at hlen
      have hc := hone pre c post hbuf hlen
      have hprev : e.cursorPos - 1 = byteLen pre := by omega
      have hremove : strRemove e.buffer (e.cursorPos - 1) = .ok (pre ++ post) := by
        rw [strRemove, hbuf, hprev, splitBytes_append]
      rw [hremove, bind_ok]
      exact ⟨_, rfl, ⟨pre, post, rfl, hprev.symm⟩, h.history, .inl rfl⟩
  · rw [if_neg hpos]
    exact ⟨e, rfl, h⟩

theorem deleteRight_held (h : e.Held) : ∃ e', e.deleteRight = .ok e' ∧ e'.Held := by
  unfold deleteRight
  by_cases hlt : e.cursorPos < byteLen e.buffer
  · rw [if_pos hlt]
    obtain ⟨pre, post, hbuf, hlen⟩ := h.boundary
    cases post with
    | nil =>
      rw [hbuf, List.append_nil, hlen] at hlt
      omega
    | cons c post =>
      have hremove : strRemove e.buffer e.cursorPos = .ok (pre ++ post) := by
        rw [strRemove, hbuf, ← hlen, splitBytes_append]
      rw [hremove, bind_ok]
      exact ⟨_, rfl, ⟨pre, post, rfl, hlen⟩, h.history, .inl rfl⟩
  · rw [if_neg hlt]
    exact ⟨e, rfl, h⟩

theorem moveHome_held (h : e.Held) : e.moveHome.Held := by
  unfold moveHome
  by_cases h0 : e.cursorPos ≠ 0
  · rw [if_pos h0]
    exact ⟨onBoundary_zero _, h.history, .inl rfl⟩
  · rw [if_neg h0]
    exact h

theorem moveEnd_held (h : e.Held) : e.moveEnd.Held := by
  unfold moveEnd
  by_cases hend : e.cursorPos ≠ byteLen e.buffer
  · rw [if_pos hend]
    exact ⟨onBoundary_end _, h.history, .inl rfl⟩
  · rw [if_neg hend]
    exact h

theorem navigateHistoryUp_held (h : e.Held) : ∃ e', e.navigateHistoryUp = .ok e' ∧ e'.Held := by
  have hle := h.history
  unfold navigateHistoryUp
  by_cases hup : e.history ≠ [] ∧ 0 < e.historyIndex
  · have hlt : e.historyIndex - 1 < e.history.length := by omega
    rw [if_pos hup, index_of_lt hlt, bind_ok]
    exact ⟨_, rfl, setBuffer_held (e := { e with historyIndex := e.historyIndex - 1 }) (by dsimp only; omega) _⟩
  · rw [if_neg hup]
    exact ⟨e, rfl, h⟩

theorem navigateHistoryDown_held (h : e.Held) : ∃ e', e.navigateHistoryDown = .ok e' ∧ e'.Held := by
  unfold navigateHistoryDown
  by_cases hlt : e.historyIndex < e.history.length
  · rw [if_pos hlt]
    by_cases hnext : e.historyIndex + 1 < e.history.length
    · rw [if_pos hnext, index_of_lt hnext, bind_ok]
      exact ⟨_, rfl, setBuffer_held (e := { e with historyIndex := e.historyIndex + 1 }) hlt _⟩
    · rw [if_neg hnext]
      exact ⟨_, rfl, setBuffer_held (e := { e with historyIndex := e.historyIndex + 1 }) hlt _⟩
  · rw [if_neg hlt]
    exact ⟨e, rfl, h⟩

theorem autoComplete_held (h : e.Held) (files : List Text) : (e.autoComplete files).Held := by
  unfold autoComplete
  split
  · exact h
  · exact (setBuffer_held h.history _).render
  · exact (Held.mk (e := { e with needsRender := true }) h.boundary h.history (.inl rfl)).render

theorem handleKey_held (h : e.Held) (files : List Text) {key : Key} (hascii : key.Ascii) (hone : e.OneByte key) :
    ∃ e', e.handleKey files key = .ok e' ∧ e'.Held := by
  cases key with
  | char c => exact insertChar_held h hascii
  | arrowLeft => exact ⟨_, rfl, moveLeft_held h hone⟩
  | arrowRight => exact ⟨_, rfl, moveRight_held h hone⟩
  | backspace => exact deleteLeft_held h hone
  | delete => exact deleteRight_held h
  | home => exact ⟨_, rfl, moveHome_held h⟩
  | «end» => exact ⟨_, rfl, moveEnd_held h⟩
  | arrowUp => exact navigateHistoryUp_held h
  | arrowDown => exact navigateHistoryDown_held h
  | tab => exact ⟨_, rfl, autoComplete_held h files⟩
  | enter => exact ⟨e, rfl, h⟩
  | unknown => exact ⟨e, rfl, h⟩

theorem one_of_onBoundary {pre post : Text} {c : Char} {k : Nat} (hk : k = 1 ∨ k + 1 = c.utf8Size)
    (h : OnBoundary (pre ++ c :: post) (byteLen pre + k)) : c.utf8Size = 1 := by
  have hpos := c.utf8Size_pos
  by_contra hne
  exact not_onBoundary_inside (by omega) (by omega) h

/-- A key that leaves the cursor on a boundary has moved it over one byte. -/
theorem oneByte_of_handleKey {files : List Text} {key : Key} {e' : CommandLineEditor}
    (h : e.handleKey files key = .ok e') (hb : OnBoundary e'.buffer e'.cursorPos) : e.OneByte key := by
  cases key with
  | arrowLeft =>
    intro pre c post hbuf hlen
    have hpos := c.utf8Size_pos
    cases h
    rw [moveLeft, if_pos (by omega)] at hb
    apply one_of_onBoundary (.inr (Nat.sub_add_cancel hpos))
    rw [← hbuf, show byteLen pre + (c.utf8Size - 1) = e.cursorPos - 1 by omega]
    exact hb
  | arrowRight =>
    intro pre c post hbuf hlen
    have hpos := c.utf8Size_pos
    have hlt : e.cursorPos < byteLen e.buffer := by
      rw [hbuf, byteLen_append, byteLen_cons]
      omega
    cases h
    rw [moveRight, if_pos hlt] at hb
    apply one_of_onBoundary (.inl rfl)
    rw [← hbuf, hlen]
    exact hb
  | backspace =>
    intro pre c post hbuf hlen
    have hpos := c.utf8Size_pos
    change e.deleteLeft = .ok e' at h
    rw [deleteLeft, if_pos (by omega)] at h
    obtain ⟨buffer, hremove, -⟩ := bind_eq_ok.mp h
    have hprev : OnBoundary e.buffer (e.cursorPos - 1) := by
      rw [onBoundary_iff]
      cases hs : splitBytes e.buffer (e.cursorPos - 1) with
      | some p => exact ⟨p, rfl⟩
      | none =>
        rw [strRemove, hs] at hremove
        cases hremove
    apply one_of_onBoundary (.inr (Nat.sub_add_cancel hpos))
    rw [← hbuf, show byteLen pre + (c.utf8Size - 1) = e.cursorPos - 1 by omega]
    exact hprev
  | _ => trivial

/-- A returned line is the buffer, and a new one begins. -/
theorem getInput_cases (files : List Text) (key : Key) :
    (key = .enter ∧ e.buffer ≠ [] ∧ ∃ e', e.getInput files key = .ok (e', some e.buffer) ∧
      e' = { e with history := e.history ++ [e.buffer], historyIndex := (e.history ++ [e.buffer]).length,
                    buffer := [],
                    cursorPos := 0, needsRender := true }) ∨
    e.getInput files key = (e.handleKey files key).map fun e' => (e', none) := by
  unfold getInput
  by_cases hkey : key = .enter
  · rw [if_pos hkey]
    by_cases hbuf : e.buffer ≠ []
    · rw [if_pos hbuf]
      exact .inl ⟨hkey, hbuf, _, rfl, rfl⟩
    · rw [if_neg hbuf, hkey]
      exact .inr rfl
  · rw [if_neg hkey]
    right
    cases e.handleKey files key with
    | ok e' => rfl
    | error f => rfl

end CommandLineEditor

/-! ## The shell -/

namespace ShellState

/-- Between two rounds: the cursor is on a boundary, the screen shows the line, and every line returned was
shown. -/
structure Sound (st : ShellState) : Prop where
  cursor_le : st.editor.cursorPos ≤ byteLen st.editor.buffer
  boundary : OnBoundary st.editor.buffer st.editor.cursorPos
  history : st.editor.historyIndex ≤ st.editor.history.length
  drawn : st.editor.Drawn
  answers : ∀ a ∈ st.answers, a.2 = some a.1

/-- If the event is a left or right step of the cursor, it passes a character of one byte. -/
def OneByte (st : ShellState) (ev : ShellEvent) : Prop :=
  ∀ key files shift, st.decode ev = (some (key, files), shift) → st.editor.OneByte key

theorem Sound.held {st : ShellState} (h : st.Sound) : st.editor.Held := ⟨h.boundary, h.history, .inr h.drawn⟩

theorem sound_of_held {e : CommandLineEditor} (h : e.Held) {shift : Bool} {answers : List (Text × Option Text)}
    (ha : ∀ a ∈ answers, a.2 = some a.1) : Sound ⟨e.render, shift, answers⟩ :=
  ⟨h.render.boundary.le, h.render.boundary, h.render.history, CommandLineEditor.render_drawn h.drawn, ha⟩

theorem pollKey_sound {st : ShellState} (h : st.Sound) (files : List Text) {key : Key} (hascii : key.Ascii)
    (hone : st.editor.OneByte key) : ∃ st', st.pollKey files key = .ok st' ∧ st'.Sound := by
  unfold pollKey
  obtain ⟨-, hbuf, e', hget, rfl⟩ | hget := st.editor.getInput_cases files key
  · rw [hget, bind_ok]
    refine ⟨_, rfl, sound_of_held ⟨onBoundary_zero _, Nat.le_refl _, .inl rfl⟩ ?_⟩
    have hshown : st.editor.screen.map Prod.fst = some st.editor.buffer := by
      obtain hs | ⟨-, hnil⟩ := h.drawn
      · rw [hs]
        rfl
      · exact absurd hnil hbuf
    intro a ha
    obtain ha | ha := List.mem_append.mp ha
    · exact h.answers a ha
    · rw [List.mem_singleton.mp ha]
      exact hshown
  · obtain ⟨e', hkey, he'⟩ := CommandLineEditor.handleKey_held h.held files hascii hone
    rw [hget, hkey]
    exact ⟨_, rfl, sound_of_held he' h.answers⟩

theorem step_sound {st : ShellState} (h : st.Sound) {ev : ShellEvent} (hone : st.OneByte ev) :
    ∃ st', st.step ev = .ok st' ∧ st'.Sound := by
  unfold step
  cases hd : st.decode ev with
  | mk key shift =>
    cases key with
    | some p =>
      obtain ⟨key, files⟩ := p
      have hshift : Sound { st with shift := shift } := ⟨h.cursor_le, h.boundary, h.history, h.drawn, h.answers⟩
      exact pollKey_sound hshift files (decode_ascii hd) (hone key files shift hd)
    | none =>
      refine ⟨_, rfl, ?_⟩
      by_cases hr : ev = .requestRender
      · rw [if_pos hr]
        exact ⟨h.cursor_le, h.boundary, h.history, h.drawn, h.answers⟩
      · rw [if_neg hr]
        exact sound_of_held h.held h.answers

theorem step_oneByte {st st' : ShellState} {ev : ShellEvent} (hs : st.step ev = .ok st') (h' : st'.Sound) :
    st.OneByte ev := by
  intro key files shift hd
  unfold step at hs
  rw [hd] at hs
  dsimp only at hs
  obtain ⟨⟨e, answer⟩, hget, hs⟩ := bind_eq_ok.mp hs
  obtain ⟨rfl, -⟩ | hkey := st.editor.getInput_cases files key
  · trivial
  · rw [hkey] at hget
    cases hh : st.editor.handleKey files key with
    | error f =>
      rw [hh] at hget
      cases hget
    | ok e' =>
      rw [hh] at hget
      cases hget
      cases hs
      have hb := h'.boundary
      dsimp only at hb
      rw [CommandLineEditor.render_buffer, CommandLineEditor.render_cursorPos] at hb
      exact CommandLineEditor.oneByte_of_handleKey hh hb

theorem new_sound :
    new.Sound := ⟨Nat.le_refl _, onBoundary_zero _, Nat.le_refl _, .inr ⟨rfl, rfl⟩, fun _ h => nomatch h⟩

end ShellState

open Runs

/-- A run neither panics nor loses the cursor exactly when the cursor only ever steps over characters of one
byte. -/
theorem line_editor_iff (events : List ShellEvent) :
    (∃ st, runAll ShellState.step .new events = .ok st) ∧ Always ShellState.step ShellState.Sound .new events ↔
      Guarded ShellState.step ShellState.OneByte .new events :=
  survives_iff_guarded (fun _ _ h hone => ShellState.step_sound h hone) (fun _ _ _ _ hs h' =>
    ShellState.step_oneByte hs h')
    ShellState.new_sound

/-- `x`, Tab, Left and `a` with a file `xé.wasm`: the cursor goes inside the second character. -/
theorem line_editor_completed :
    ¬ ∀ events, (∃ st, runAll ShellState.step .new events = .ok st) ∧
    Always ShellState.step ShellState.Sound .new events := by
  intro h
  obtain ⟨⟨st, hrun⟩, -⟩ := h ([0x2D, 0x0F, 0x4B, 0x1E].map fun sc => .keyboard sc ["xé.wasm".toList])
  have hpanic : runAll ShellState.step .new ([0x2D, 0x0F, 0x4B, 0x1E].map fun sc =>
      .keyboard sc ["xé.wasm".toList]) =
      .error .panic := by rfl
  rw [hpanic] at hrun
  cases hrun

end WasmOs.Shell
