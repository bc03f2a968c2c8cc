import WasmOs.Pixels
import WasmOs.Runs

/-!
# The terminal

Text and escape sequences on a screen of at least one character: the cursor stays on the screen and what is
drawn lies in the buffer. Three cursor movements add a parameter to the cursor before they take the minimum,
and that addition can overflow.
-/

namespace WasmOs.Vga

open Runs

/-- A string as the terminal takes it apart. -/
inductive Piece where
  | char (c : Char)
  | csi (paramStr : List Char) (cmd : Char)

-- A round takes a character, as in `parseAnsi.loop`.
def pieces.loop : Nat → List Char → List Piece
  | 0, _ => []
  | _ + 1, [] => []
  | fuel + 1, c :: chars =>
    if c ≠ '\x1B' then .char c :: pieces.loop fuel chars
    else match chars with
      | [] => []
      | d :: chars =>
        if d ≠ '[' then pieces.loop fuel chars
        else match chars.dropWhile VgaBuffer.isParam with
          | [] => []
          | cmd :: rest => .csi (chars.takeWhile VgaBuffer.isParam) cmd :: pieces.loop fuel rest

def pieces (s : List Char) : List Piece := pieces.loop s.length s

/-- A screen of at least one character, with a buffer that it fills. -/
structure Geometry (info : FrameBufferInfo) (bufLen : Nat) : Prop where
  width : CHAR_W ≤ info.width
  height : CHAR_H ≤ info.height
  stride : info.width ≤ info.stride
  bytesPerPixel : 3 ≤ info.bytesPerPixel
  size : bufLen = info.height * info.stride * info.bytesPerPixel
  usize : bufLen < 2 ^ 64

def lineBytes (info : FrameBufferInfo) : Nat := CHAR_H * info.stride * info.bytesPerPixel

namespace Geometry

variable {info : FrameBufferInfo} {bufLen : Nat}

theorem rows_pos (hg : Geometry info bufLen) : 0 < info.height / CHAR_H := Nat.div_pos hg.height (by decide)

theorem cols_pos (hg : Geometry info bufLen) : 0 < info.width / CHAR_W := Nat.div_pos hg.width (by decide)

/-- A pixel of the text area ends inside the buffer. -/
theorem offset_le (hg : Geometry info bufLen) {x y : Nat} (hx : x < info.width / CHAR_W * CHAR_W)
    (hy : y < info.height / CHAR_H * CHAR_H) : offset info x y + info.bytesPerPixel ≤ bufLen := by
  have hxw : x < info.stride := Nat.lt_of_lt_of_le hx (Nat.le_trans (Nat.div_mul_le_self ..) hg.stride)
  have hyh : y < info.height := Nat.lt_of_lt_of_le hy (Nat.div_mul_le_self ..)
  have hpos : pos info x y + 1 ≤ info.height * info.stride := by
    have hrow : (y + 1) * info.stride ≤ info.height * info.stride := Nat.mul_le_mul_right _ hyh
    rw [Nat.succ_mul] at hrow
    unfold pos
    omega
  calc offset info x y + info.bytesPerPixel = (pos info x y + 1) * info.bytesPerPixel := by
         rw [Nat.succ_mul, offset]
    _ ≤ info.height * info.stride * info.bytesPerPixel := Nat.mul_le_mul_right _ hpos
    _ = bufLen := hg.size.symm

theorem lines_le (hg : Geometry info bufLen) {n : Nat} (hn : n ≤ info.height / CHAR_H) :
    n * lineBytes info ≤ bufLen := by
  have hheight : n * CHAR_H ≤ info.height := Nat.le_trans (Nat.mul_le_mul_right _ hn) (Nat.div_mul_le_self ..)
  calc n * lineBytes info = n * CHAR_H * info.stride * info.bytesPerPixel := by
        simp only [lineBytes, Nat.mul_assoc]
    _ ≤ info.height * info.stride * info.bytesPerPixel := Nat.mul_le_mul_right _ (Nat.mul_le_mul_right _ hheight)
    _ = bufLen := hg.size.symm

theorem sides_le (hg : Geometry info bufLen) : info.height ≤ bufLen ∧ info.width ≤ bufLen := by
  have hbpp := hg.bytesPerPixel
  have hwidth := hg.width
  have hheight := hg.height
  have hstride := hg.stride
  unfold CHAR_W at hwidth
  unfold CHAR_H at hheight
  have harea : info.height * info.stride ≤ bufLen := by
    rw [hg.size]
    exact Nat.le_mul_of_pos_right _ (by omega)
  have hh : info.height ≤ info.height * info.stride := Nat.le_mul_of_pos_right _ (by omega)
  have hs : info.stride ≤ info.height * info.stride := Nat.le_mul_of_pos_left _ (by omega)
  omega

end Geometry

namespace VgaBuffer

def exec (w : VgaBuffer) : Piece → Raw VgaBuffer
  | .char c => w.writeChar c
  | .csi paramStr cmd => w.command paramStr cmd

theorem parseAnsi_loop_eq (w : VgaBuffer) (fuel : Nat) (s : List Char) :
    parseAnsi.loop fuel s w = runAll exec w (pieces.loop fuel s) := by
  induction fuel generalizing w s with
  | zero => rfl
  | succ fuel ih =>
    cases s with
    | nil => rfl
    | cons c chars =>
      unfold parseAnsi.loop pieces.loop
      by_cases hc : c ≠ '\x1B'
      · simp only [if_pos hc, ih]
        rfl
      · rw [if_neg hc, if_neg hc]
        cases chars with
        | nil => rfl
        | cons d chars =>
          dsimp only
          by_cases hd : d ≠ '['
          · rw [if_pos hd, if_pos hd, ih]
          · rw [if_neg hd, if_neg hd]
            cases chars.dropWhile isParam with
            | nil => rfl
            | cons cmd rest =>
              simp only [ih]
              rfl

theorem parseAnsi_eq (w : VgaBuffer) (s : List Char) : w.parseAnsi s = runAll exec w (pieces s) :=
  parseAnsi_loop_eq ..

/-! ## Drawing -/

def Draws (w : VgaBuffer) (m : Raw VgaBuffer) : Prop := ∃ w', m = .ok w' ∧ w.SameScreen w'

section
variable {w : VgaBuffer}

theorem Draws.bind {m : Raw VgaBuffer} {f : VgaBuffer → Raw VgaBuffer} (hm : w.Draws m)
    (hf : ∀ v, w.SameScreen v → v.Draws (f v)) : w.Draws (m >>= f) := by
  obtain ⟨v, rfl, hv⟩ := hm
  obtain ⟨w', hw', hs⟩ := hf v hv
  exact ⟨w', hw', hv.trans hs⟩

theorem draws_forRange {lo hi : Nat} {f : VgaBuffer → Nat → Raw VgaBuffer}
    (hf : ∀ v i, lo ≤ i → i < hi → w.SameScreen v → v.Draws (f v i)) : w.Draws (w.forRange lo hi f) := by
  refine foldlM_ok (I := fun v => w.SameScreen v) (fun v i hi hv => ?_) (.refl w)
  obtain ⟨hlo, hhi⟩ := mem_forRange.mp hi
  obtain ⟨v', hv', hs⟩ := hf v i hlo hhi hv
  exact ⟨v', hv', hv.trans hs⟩

theorem draws_putPixel (hg : Geometry w.info w.bufLen) {x y : Nat} (hx : x < w.cols * CHAR_W)
    (hy : y < w.rows * CHAR_H) (c : Color) :
    w.Draws (w.putPixel x y c.r c.g c.b) := by
  have hle := hg.offset_le hx hy
  have husize := hg.usize
  have hthree := hg.bytesPerPixel
  have hput := putPixel_ok (w := w) (x := x) (y := y) c (by omega) (by omega) (fun _ => hthree)
  exact ⟨_, hput, putPixel_same hput⟩

theorem SameScreen.geometry {w' : VgaBuffer} (h : w.SameScreen w') (hg : Geometry w.info w.bufLen) :
    Geometry w'.info w'.bufLen := by
  rw [h.info, h.bufLen]
  exact hg

theorem SameScreen.rows {w' : VgaBuffer} (h : w.SameScreen w') : w'.rows = w.rows := by
  rw [VgaBuffer.rows, VgaBuffer.rows, h.info]

theorem SameScreen.cols {w' : VgaBuffer} (h : w.SameScreen w') : w'.cols = w.cols := by
  rw [VgaBuffer.cols, VgaBuffer.cols, h.info]

theorem rows_le (hg : Geometry w.info w.bufLen) : w.rows * CHAR_H < 2 ^ 64 := by
  have hle : w.rows * CHAR_H ≤ w.info.height := Nat.div_mul_le_self ..
  have hside := hg.sides_le.1
  have husize := hg.usize
  omega

theorem cols_le (hg : Geometry w.info w.bufLen) : w.cols * CHAR_W < 2 ^ 64 := by
  have hle : w.cols * CHAR_W ≤ w.info.width := Nat.div_mul_le_self ..
  have hside := hg.sides_le.2
  have husize := hg.usize
  omega

theorem umul_row (hg : Geometry w.info w.bufLen) {row : Nat} (h : row ≤ w.rows) :
    umul row CHAR_H = .ok (row * CHAR_H) :=
  umul_of_lt (Nat.lt_of_le_of_lt (Nat.mul_le_mul_right _ h) (rows_le hg))

theorem umul_col (hg : Geometry w.info w.bufLen) {col : Nat} (h : col ≤ w.cols) :
    umul col CHAR_W = .ok (col * CHAR_W) :=
  umul_of_lt (Nat.lt_of_le_of_lt (Nat.mul_le_mul_right _ h) (cols_le hg))

theorem uadd_row (hg : Geometry w.info w.bufLen) (h : w.row < w.rows) {i : Nat} (hi : i < CHAR_H) :
    w.row * CHAR_H + i < w.rows * CHAR_H ∧ (uadd (w.row * CHAR_H) i : Raw Nat) = .ok (w.row * CHAR_H + i) := by
  have hlt : w.row * CHAR_H + i < w.rows * CHAR_H := by
    have hrow : (w.row + 1) * CHAR_H ≤ w.rows * CHAR_H := Nat.mul_le_mul_right _ h
    rw [Nat.succ_mul] at hrow
    omega
  exact ⟨hlt, uadd_of_lt (Nat.lt_trans hlt (rows_le hg))⟩

theorem draws_eraseInLine (hg : Geometry w.info w.bufLen) (hrow : w.row < w.rows) {lo hi : Nat}
    (hhi : hi ≤ w.cols * CHAR_W) :
    w.Draws (w.eraseInLine lo hi) := by
  unfold eraseInLine
  rw [umul_row hg (Nat.le_of_lt hrow), bind_ok]
  refine draws_forRange fun v i _ hi hv => draws_forRange fun u j _ hj hu => ?_
  obtain ⟨hy, hadd⟩ := uadd_row hg hrow hi
  rw [hadd, bind_ok]
  have hs := hv.trans hu
  refine draws_putPixel (hs.geometry hg) ?_ ?_ _
  · rw [hs.cols]
    exact Nat.lt_of_lt_of_le hj hhi
  · rw [hs.rows]
    exact hy

theorem draws_drawCell (hg : Geometry w.info w.bufLen) (hrow : w.row < w.rows) (hcol : w.col < w.cols)
    (color : VgaBuffer → Nat → Nat → Color) : w.Draws (w.drawCell color) := by
  unfold drawCell
  rw [umul_col hg (Nat.le_of_lt hcol), bind_ok, umul_row hg (Nat.le_of_lt hrow), bind_ok]
  refine draws_forRange fun v i _ hi hv => draws_forRange fun u j _ hj hu => ?_
  obtain ⟨hy, hadd⟩ := uadd_row hg hrow hi
  have hx : w.col * CHAR_W + j < w.cols * CHAR_W := by
    have hmul : (w.col + 1) * CHAR_W ≤ w.cols * CHAR_W := Nat.mul_le_mul_right _ hcol
    rw [Nat.succ_mul] at hmul
    omega
  rw [uadd_of_lt (Nat.lt_trans hx (cols_le hg)), bind_ok, hadd, bind_ok]
  have hs := hv.trans hu
  refine draws_putPixel (hs.geometry hg) ?_ ?_ _
  · rw [hs.cols]
    exact hx
  · rw [hs.rows]
    exact hy

/-! ## Whole lines -/

theorem rowBytes_eq (hg : Geometry w.info w.bufLen) : w.rowBytes = .ok (lineBytes w.info) := by
  have hone := hg.lines_le (n := 1) hg.rows_pos
  have husize := hg.usize
  have hthree := hg.bytesPerPixel
  rw [Nat.one_mul] at hone
  have hstride : CHAR_H * w.info.stride ≤ lineBytes w.info := Nat.le_mul_of_pos_right _ (by omega)
  unfold rowBytes
  rw [umul_of_lt (by omega), bind_ok]
  exact umul_of_lt (show lineBytes w.info < 2 ^ 64 by omega)

theorem umul_lines (hg : Geometry w.info w.bufLen) {n : Nat} (h : n ≤ w.rows) :
    umul n (lineBytes w.info) = .ok (n * lineBytes w.info) :=
  umul_of_lt (Nat.lt_of_le_of_lt (hg.lines_le h) hg.usize)

theorem draws_fill (off n : Nat) (h : off + n ≤ w.bufLen) : w.Draws (w.fill off n) := ⟨_, if_pos h, ⟨rfl⟩⟩

theorem draws_fill_lines (hg : Geometry w.info w.bufLen) (first n : Nat) (h : first + n ≤ w.rows) :
    w.Draws (w.fill (first * lineBytes w.info) (n * lineBytes w.info)) := by
  apply draws_fill _ _
  rw [← Nat.add_mul]
  exact hg.lines_le h

theorem draws_move_lines (hg : Geometry w.info w.bufLen) (src dst n : Nat) (hsrc : src + n ≤ w.rows)
    (hdst : dst + n ≤ w.rows) :
    w.Draws (w.move (src * lineBytes w.info) (dst * lineBytes w.info) (n * lineBytes w.info)) := by
  refine ⟨_, if_pos ⟨?_, ?_⟩, ⟨rfl⟩⟩
  · rw [← Nat.add_mul]
    exact hg.lines_le hsrc
  · rw [← Nat.add_mul]
    exact hg.lines_le hdst

theorem draws_scrollUp (hg : Geometry w.info w.bufLen) : w.Draws w.scrollUp := by
  have hrows : 0 < w.rows := hg.rows_pos
  have hsub : (usub w.rows 1 : Raw Nat) = .ok (w.rows - 1) := usub_eq_ok.mpr ⟨hrows, rfl⟩
  unfold scrollUp
  rw [rowBytes_eq hg, bind_ok]
  dsimp only
  rw [if_neg (by omega), hsub, bind_ok, umul_lines hg (by omega), bind_ok]
  have hmove := draws_move_lines hg 1 0 (w.rows - 1) (by omega) (by omega)
  rw [Nat.one_mul, Nat.zero_mul] at hmove
  refine hmove.bind fun v hv => ?_
  have hfill := draws_fill_lines (hv.geometry hg) (w.rows - 1) 1 (by rw [hv.rows]; omega)
  rw [Nat.one_mul, hv.info] at hfill
  rw [bind_ok, umul_lines hg (by omega), bind_ok]
  exact hfill

theorem lines_left (hg : Geometry w.info w.bufLen) (hrow : w.row < w.rows) (n : Nat) :
    (usub w.rows w.row : Raw Nat) = .ok (w.rows - w.row) ∧
      (usub (w.rows - w.row) (min n (w.rows - w.row)) : Raw Nat) = .ok (w.rows - w.row - min n (w.rows - w.row)) ∧
      (uadd w.row (min n (w.rows - w.row)) : Raw Nat) = .ok (w.row + min n (w.rows - w.row)) := by
  have hbound := rows_le hg
  have hmin : min n (w.rows - w.row) ≤ w.rows - w.row := Nat.min_le_right ..
  unfold CHAR_H at hbound
  exact ⟨usub_eq_ok.mpr ⟨Nat.le_of_lt hrow, rfl⟩, usub_eq_ok.mpr ⟨hmin, rfl⟩, uadd_of_lt (by omega)⟩

theorem draws_insertLines (hg : Geometry w.info w.bufLen) (hrow : w.row < w.rows) (n : Nat) :
    w.Draws (w.insertLines n) := by
  obtain ⟨hleft, hrest, hadd⟩ := lines_left hg hrow n
  have hle : min n (w.rows - w.row) ≤ w.rows - w.row := Nat.min_le_right ..
  unfold insertLines
  dsimp only
  rw [hleft, bind_ok, rowBytes_eq hg, bind_ok, bind_ok, hrest, bind_ok]
  generalize min n (w.rows - w.row) = m at *
  have hclear : ∀ v, w.SameScreen v → v.Draws (do
      v.fill (← umul v.row (lineBytes w.info)) (← umul m (lineBytes w.info))) := by
    intro v hv
    have hfill := draws_fill_lines (hv.geometry hg) w.row m (by rw [hv.rows]; omega)
    rw [hv.info] at hfill
    rw [show v.row = w.row by rw [hv.eq], umul_lines hg (Nat.le_of_lt hrow), bind_ok,
      umul_lines hg (by omega), bind_ok]
    exact hfill
  by_cases hpos : 0 < w.rows - w.row - m
  · rw [if_pos hpos, umul_lines hg (Nat.le_of_lt hrow), bind_ok, hadd, bind_ok, umul_lines hg (by omega), bind_ok,
      umul_lines hg (by omega), bind_ok]
    exact (draws_move_lines hg _ _ _ (by omega) (by omega)).bind hclear
  · rw [if_neg hpos, bind_ok]
    exact hclear w (.refl w)

theorem draws_deleteLines (hg : Geometry w.info w.bufLen) (hrow : w.row < w.rows) (n : Nat) :
    w.Draws (w.deleteLines n) := by
  obtain ⟨hleft, hrest, hadd⟩ := lines_left hg hrow n
  have hle : min n (w.rows - w.row) ≤ w.rows - w.row := Nat.min_le_right ..
  unfold deleteLines
  dsimp only
  rw [hleft, bind_ok, rowBytes_eq hg, bind_ok, bind_ok, hrest, bind_ok]
  generalize min n (w.rows - w.row) = m at *
  have hlast : (usub w.rows m : Raw Nat) = .ok (w.rows - m) := usub_eq_ok.mpr ⟨by omega, rfl⟩
  have hclear : ∀ v, w.SameScreen v → v.Draws (do
      v.fill (← umul (← usub w.rows m) (lineBytes w.info)) (← umul m (lineBytes w.info))) := by
    intro v hv
    have hfill := draws_fill_lines (hv.geometry hg) (w.rows - m) m (by rw [hv.rows]; omega)
    rw [hv.info] at hfill
    rw [hlast, bind_ok, umul_lines hg (by omega), bind_ok, umul_lines hg (by omega), bind_ok]
    exact hfill
  by_cases hpos : 0 < w.rows - w.row - m
  · rw [if_pos hpos, hadd, bind_ok, umul_lines hg (by omega), bind_ok, umul_lines hg (Nat.le_of_lt hrow), bind_ok,
      umul_lines hg (by omega), bind_ok]
    exact (draws_move_lines hg _ _ _ (by omega) (by omega)).bind hclear
  · rw [if_neg hpos, bind_ok]
    exact hclear w (.refl w)

theorem draws_clearToEndOfLine (hg : Geometry w.info w.bufLen) (hrow : w.row < w.rows) (hcol : w.col < w.cols) :
    w.Draws w.clearToEndOfLine := by
  unfold clearToEndOfLine
  rw [umul_col hg (Nat.le_of_lt hcol), bind_ok, umul_col hg (Nat.le_refl _), bind_ok]
  exact draws_eraseInLine hg hrow (Nat.le_refl _)

theorem draws_clearToStartOfLine (hg : Geometry w.info w.bufLen) (hrow : w.row < w.rows) (hcol : w.col < w.cols) :
    w.Draws w.clearToStartOfLine := by
  have hbound := cols_le hg
  unfold CHAR_W at hbound
  unfold clearToStartOfLine
  rw [uadd_of_lt (by omega), bind_ok, umul_col hg hcol, bind_ok]
  exact draws_eraseInLine hg hrow (Nat.mul_le_mul_right _ hcol)

theorem draws_clearToEndOfScreen (hg : Geometry w.info w.bufLen) (hrow : w.row < w.rows) (hcol : w.col < w.cols) :
    w.Draws w.clearToEndOfScreen := by
  have hbound := rows_le hg
  unfold CHAR_H at hbound
  unfold clearToEndOfScreen
  refine (draws_clearToEndOfLine hg hrow hcol).bind fun v hv => ?_
  have hvrow : v.row = w.row := by rw [hv.eq]
  have hvg := hv.geometry hg
  rw [hvrow, uadd_of_lt (by omega), bind_ok]
  dsimp only
  rw [hv.rows]
  by_cases hnext : w.row + 1 < w.rows
  · have hfill := draws_fill_lines hvg (w.row + 1) (w.rows - (w.row + 1)) (by rw [hv.rows]; omega)
    have hsub : (usub w.rows (w.row + 1) : Raw Nat) = .ok (w.rows - (w.row + 1)) := usub_eq_ok.mpr ⟨by omega, rfl⟩
    rw [if_pos hnext, rowBytes_eq hvg, bind_ok, umul_lines hvg (by rw [hv.rows]; omega), bind_ok, hsub, bind_ok,
      umul_lines hvg (by rw [hv.rows]; omega), bind_ok]
    exact hfill
  · rw [if_neg hnext]
    exact ⟨v, rfl, .refl v⟩

theorem draws_clearToStartOfScreen (hg : Geometry w.info w.bufLen) (hrow : w.row < w.rows) (hcol : w.col < w.cols) :
    w.Draws w.clearToStartOfScreen := by
  have hline : ∀ v, w.SameScreen v → v.Draws v.clearToStartOfLine := by
    intro v hv
    have hvrow : v.row < v.rows := by
      rw [hv.rows, show v.row = w.row by rw [hv.eq]]
      exact hrow
    have hvcol : v.col < v.cols := by
      rw [hv.cols, show v.col = w.col by rw [hv.eq]]
      exact hcol
    exact draws_clearToStartOfLine (hv.geometry hg) hvrow hvcol
  unfold clearToStartOfScreen
  rw [rowBytes_eq hg, bind_ok]
  by_cases hpos : 0 < w.row
  · have hfill := draws_fill_lines hg 0 w.row (by omega)
    rw [Nat.zero_mul] at hfill
    rw [if_pos hpos, umul_lines hg (Nat.le_of_lt hrow), bind_ok]
    exact hfill.bind hline
  · rw [if_neg hpos, bind_ok]
    exact hline w (.refl w)

/-! ## The cursor -/

/-- The cursor and the saved cursor are on a screen that fills its buffer. -/
structure Sound (w : VgaBuffer) : Prop where
  geometry : Geometry w.info w.bufLen
  row : w.row < w.rows
  col : w.col < w.cols
  savedRow : w.savedRow < w.rows
  savedCol : w.savedCol < w.cols

theorem Sound.drawn {w' : VgaBuffer} (h : w.Sound) (hs : w.SameScreen w') : w'.Sound := by
  rw [hs.eq]
  exact ⟨h.geometry, h.row, h.col, h.savedRow, h.savedCol⟩

theorem Sound.moved (h : w.Sound) {row col : Nat} (hrow : row < w.rows) (hcol : col < w.cols) :
    Sound { w with row := row, col := col } := ⟨h.geometry, hrow, hcol, h.savedRow, h.savedCol⟩

theorem Sound.colored (h : w.Sound) (fg bg : Color) : Sound { w with fg := fg, bg := bg } :=
  ⟨h.geometry, h.row, h.col, h.savedRow, h.savedCol⟩

theorem Sound.setColor (h : w.Sound) (code : Nat) : (w.setColor code).Sound := by
  unfold VgaBuffer.setColor
  split_ifs <;> exact h.colored _ _

theorem Sound.rows_lt (h : w.Sound) : w.rows < 2 ^ 64 := by
  have hbound := rows_le h.geometry
  unfold CHAR_H at hbound
  omega

theorem Sound.cols_lt (h : w.Sound) : w.cols < 2 ^ 64 := by
  have hbound := cols_le h.geometry
  unfold CHAR_W at hbound
  omega

/-- It ends with the cursor on the screen. -/
def Safe (m : Raw VgaBuffer) : Prop := ∃ w', m = .ok w' ∧ w'.Sound

theorem Draws.safe {m : Raw VgaBuffer} (hm : w.Draws m) (h : w.Sound) : Safe m := by
  obtain ⟨w', hw', hs⟩ := hm
  exact ⟨w', hw', h.drawn hs⟩

theorem Safe.ite {c : Prop} [Decidable c] {m m' : Raw VgaBuffer} (hm : c → Safe m) (hm' : ¬ c → Safe m') :
    Safe (if c then m else m') := by
  by_cases h : c
  · rw [if_pos h]
    exact hm h
  · rw [if_neg h]
    exact hm' h

/-- The cursor may be on the line below the last. -/
theorem Sound.scrollIfNeeded (h : w.Sound) {row col : Nat} (hrow : row ≤ w.rows) (hcol : col < w.cols) :
    Safe (VgaBuffer.scrollIfNeeded { w with row := row, col := col }) := by
  unfold VgaBuffer.scrollIfNeeded
  by_cases hlast : w.rows ≤ row
  · rw [if_pos (show VgaBuffer.rows { w with row := row, col := col } ≤ row from hlast)]
    obtain ⟨v, hv, hs⟩ := draws_scrollUp (w := { w with row := row, col := col }) h.geometry
    have hrows : v.rows = w.rows := hs.rows
    have hpos : 0 < w.rows := h.geometry.rows_pos
    have hsub : (usub v.rows 1 : Raw Nat) = .ok (w.rows - 1) := usub_eq_ok.mpr ⟨by omega, by omega⟩
    have hlt : w.rows - 1 < w.rows := by omega
    refine ⟨{ w with row := w.rows - 1, col := col, buf := v.buf }, ?_,
      ⟨h.geometry, hlt, hcol, h.savedRow, h.savedCol⟩⟩
    rw [hv, bind_ok, hsub, bind_ok, hs.eq]
  · rw [if_neg (show ¬ VgaBuffer.rows { w with row := row, col := col } ≤ row from hlast)]
    exact ⟨_, rfl, h.moved (Nat.lt_of_not_le hlast) hcol⟩

theorem Sound.writeChar (h : w.Sound) (c : Char) : Safe (w.writeChar c) := by
  have hrows := h.rows_lt
  have hcols := h.cols_lt
  have hrow := h.row
  have hcol := h.col
  have hpos : 0 < w.cols := h.geometry.cols_pos
  -- a drawn cell leaves the cursor where it was
  have hdrawn : ∀ {row col : Nat} (color), row < w.rows → col < w.cols →
      ∃ b, VgaBuffer.drawCell { w with row := row, col := col } color =
      .ok { w with row := row, col := col, buf := b } := by
    intro row col color hr hc
    obtain ⟨v, hv, hs⟩ := draws_drawCell (w := { w with row := row, col := col }) h.geometry hr hc color
    exact ⟨v.buf, by rw [hv, hs.eq]⟩
  unfold VgaBuffer.writeChar
  by_cases hnl : c = '\n'
  · rw [if_pos hnl, uadd_of_lt (by omega), bind_ok, bind_ok]
    exact h.scrollIfNeeded (by omega) hpos
  rw [if_neg hnl]
  by_cases hcr : c = '\r'
  · rw [if_pos hcr, bind_ok]
    exact h.scrollIfNeeded (Nat.le_of_lt hrow) hpos
  rw [if_neg hcr]
  by_cases hbs : c = '\x08'
  · rw [if_pos hbs]
    have herased : ∀ {row col : Nat}, row < w.rows → col < w.cols → Safe (do
        let w ← VgaBuffer.drawCell { w with row := row, col := col } fun _ _ _ => .BLACK
        w.scrollIfNeeded) := by
      intro row col hr hc
      obtain ⟨b, hb⟩ := hdrawn (fun _ _ _ => .BLACK) hr hc
      have hsound : Sound { w with buf := b } := h.drawn ⟨rfl⟩
      rw [hb, bind_ok]
      exact hsound.scrollIfNeeded (Nat.le_of_lt hr) hc
    by_cases hleft : 0 < w.col
    · rw [if_pos hleft, bind_ok]
      exact herased hrow (show w.col - 1 < w.cols by omega)
    rw [if_neg hleft]
    by_cases hup : 0 < w.row
    · have hsub : (usub w.cols 1 : Raw Nat) = .ok (w.cols - 1) := usub_eq_ok.mpr ⟨hpos, rfl⟩
      rw [if_pos hup, hsub, bind_ok, bind_ok]
      exact herased (show w.row - 1 < w.rows by omega) (show w.cols - 1 < w.cols by omega)
    · rw [if_neg hup, bind_ok]
      exact herased hrow hcol
  rw [if_neg hbs]
  obtain ⟨b, hb⟩ := hdrawn (fun w rowI colI => if glyphBit (glyph c) rowI colI then w.fg else w.bg) hrow hcol
  have hsound : Sound { w with buf := b } := h.drawn ⟨rfl⟩
  rw [hb, bind_ok, uadd_of_lt (show w.col + 1 < 2 ^ 64 by omega), bind_ok]
  by_cases hedge : w.cols ≤ w.col + 1
  · rw [if_pos (show VgaBuffer.cols { w with buf := b } ≤ w.col + 1 from hedge),
      uadd_of_lt (show w.row + 1 < 2 ^ 64 by omega),
      bind_ok, bind_ok]
    exact hsound.scrollIfNeeded (show w.row + 1 ≤ w.rows by omega) hpos
  · rw [if_neg (show ¬ VgaBuffer.cols { w with buf := b } ≤ w.col + 1 from hedge), bind_ok]
    exact hsound.scrollIfNeeded (Nat.le_of_lt hrow) (show w.col + 1 < w.cols by omega)

/-- The cursor and the parameter fit together in a `usize`. -/
def Fits (w : VgaBuffer) : Piece → Prop
  | .char _ => True
  | .csi paramStr cmd =>
    (cmd = 'B' ∨ cmd = 'E' → w.row + max (param paramStr 0) 1 < 2 ^ 64) ∧
      (cmd = 'C' → w.col + max (param paramStr 0) 1 < 2 ^ 64)

theorem Sound.setColors (h : w.Sound) (parts : List (List Char)) :
    (parts.foldl (fun w part => w.setColor (parseOrZero 256 part)) w).Sound := by
  induction parts generalizing w with
  | nil => exact h
  | cons part parts ih => exact ih (h.setColor _)

theorem Sound.command (h : w.Sound) (paramStr : List Char) (cmd : Char) (hfits : w.Fits (.csi paramStr cmd)) :
    Safe (w.command paramStr cmd) := by
  have hg := h.geometry
  have hrow := h.row
  have hcol := h.col
  have hrows : 0 < w.rows := hg.rows_pos
  have hcols : 0 < w.cols := hg.cols_pos
  obtain ⟨hdown, hright⟩ := hfits
  have hlast : ∀ n, min n (w.rows - 1) < w.rows ∧ min n (w.cols - 1) < w.cols := by omega
  unfold VgaBuffer.command
  dsimp only
  refine .ite (fun _ => .ite (fun _ => ?_) fun _ => ?_) fun _ => .ite
    (fun _ => .ite (fun _ => ?_) fun _ => .ite (fun _ => ?_) fun _ => .ite (fun _ => ?_) fun _ => ?_) fun _ => .ite
    (fun _ => .ite (fun _ => ?_) fun _ => .ite (fun _ => ?_) fun _ => .ite (fun _ => ?_) fun _ => ?_) fun _ => .ite
    (fun _ => ?_) fun _ => .ite (fun _ => ?_) fun _ => .ite (fun _ => ?_) fun _ => .ite (fun hB => ?_) fun _ => .ite
    (fun hE => ?_) fun _ => .ite (fun hC => ?_) fun _ => .ite (fun _ => ?_) fun _ =>
      .ite (fun _ => ?_) fun _ => .ite
    (fun _ => ?_) fun _ => .ite (fun _ => ?_) fun _ => .ite (fun _ => ?_) fun _ => .ite (fun _ => ?_) fun _ => .ite
    (fun _ => ?_) fun _ => ?_
  · exact ⟨_, rfl, h.setColor 0⟩
  · exact ⟨_, rfl, h.setColors _⟩
  · exact (draws_clearToEndOfScreen hg hrow hcol).safe h
  · exact (draws_clearToStartOfScreen hg hrow hcol).safe h
  · obtain ⟨v, hv, hs⟩ := draws_fill (w := w) 0 w.bufLen (by omega)
    unfold clearScreen
    rw [hv, bind_ok]
    exact ⟨_, rfl, (h.drawn hs).moved (h.drawn hs).geometry.rows_pos (h.drawn hs).geometry.cols_pos⟩
  · exact ⟨w, rfl, h⟩
  · exact (draws_clearToEndOfLine hg hrow hcol).safe h
  · exact (draws_clearToStartOfLine hg hrow hcol).safe h
  · have hline : w.Draws (w.eraseInLine 0 (w.cols * CHAR_W)) := draws_eraseInLine hg hrow (Nat.le_refl _)
    obtain ⟨v, hv, hs⟩ := hline
    unfold clearLine
    rw [umul_col hg (Nat.le_refl _), bind_ok, hv, bind_ok]
    exact ⟨_, rfl, (h.drawn hs).moved (h.drawn hs).row (h.drawn hs).geometry.cols_pos⟩
  · exact ⟨w, rfl, h⟩
  · have hsub : (usub w.rows 1 : Raw Nat) = .ok (w.rows - 1) := usub_eq_ok.mpr ⟨hrows, rfl⟩
    have hsub' : (usub w.cols 1 : Raw Nat) = .ok (w.cols - 1) := usub_eq_ok.mpr ⟨hcols, rfl⟩
    unfold setCursorPosition
    rw [hsub, bind_ok, hsub', bind_ok]
    exact ⟨_, rfl, h.moved (hlast _).1 (hlast _).2⟩
  · exact ⟨_, rfl, h.moved (by omega) hcol⟩
  · exact ⟨_, rfl, h.moved (by omega) hcols⟩
  · rw [uadd_of_lt (hdown (.inl hB)), bind_ok]
    exact ⟨_, rfl, h.moved (hlast _).1 hcol⟩
  · rw [uadd_of_lt (hdown (.inr hE)), bind_ok]
    exact ⟨_, rfl, h.moved (hlast _).1 hcols⟩
  · rw [uadd_of_lt (hright hC), bind_ok]
    exact ⟨_, rfl, h.moved hrow (hlast _).2⟩
  · exact ⟨_, rfl, h.moved hrow (by omega)⟩
  · exact ⟨_, rfl, h.moved hrow (hlast _).2⟩
  · exact ⟨_, rfl, h.moved (hlast _).1 hcol⟩
  · exact ⟨_, rfl, ⟨hg, hrow, hcol, hrow, hcol⟩⟩
  · exact ⟨_, rfl, h.moved h.savedRow h.savedCol⟩
  · exact (draws_insertLines hg hrow _).safe h
  · exact (draws_deleteLines hg hrow _).safe h
  · exact ⟨w, rfl, h⟩

theorem Sound.exec (h : w.Sound) {piece : Piece} (hfits : w.Fits piece) : Safe (w.exec piece) := by
  cases piece with
  | char c => exact h.writeChar c
  | csi paramStr cmd => exact h.command paramStr cmd hfits

theorem fits_of_exec {w' : VgaBuffer} {piece : Piece} (h : w.exec piece = .ok w') : w.Fits piece := by
  cases piece with
  | char c => trivial
  | csi paramStr cmd =>
    have hsum : ∀ {a b : Nat} {f : Nat → Raw VgaBuffer}, (uadd a b >>= f) = .ok w' → a + b < 2 ^ 64 := by
      intro a b f hadd
      obtain ⟨_, hadd, -⟩ := bind_eq_ok.mp hadd
      have hle := (uadd_eq_ok.mp hadd).1
      unfold usizeMax at hle
      omega
    constructor
    · rintro (rfl | rfl)
      · exact hsum h
      · exact hsum h
    · rintro rfl
      exact hsum h

end

end VgaBuffer

/-! ## What is printed -/

def CursorOnScreen (w : VgaBuffer) : Prop := w.row < w.rows ∧ w.col < w.cols

def PiecesFit (w : VgaBuffer) (s : List Char) : Prop := Guarded VgaBuffer.exec VgaBuffer.Fits w (pieces s)

theorem Geometry.new {info : FrameBufferInfo} {bufLen : Nat} (hg : Geometry info bufLen) (buf : Nat → UInt8) :
    (VgaBuffer.new buf bufLen info).Sound := ⟨hg, hg.rows_pos, hg.cols_pos, hg.rows_pos, hg.cols_pos⟩

theorem VgaBuffer.Sound.parseAnsi {w : VgaBuffer} (h : w.Sound) {s : List Char} (hfit : PiecesFit w s) :
    VgaBuffer.Safe (w.parseAnsi s) := by
  rw [VgaBuffer.parseAnsi_eq]
  exact runAll_of_guarded (fun v piece hv hfits => hv.exec hfits) h hfit

theorem piecesFit_of_parseAnsi {w w' : VgaBuffer} {s : List Char} (hs : w.parseAnsi s = .ok w') :
    PiecesFit w s := by
  rw [VgaBuffer.parseAnsi_eq] at hs
  exact guarded_of_runAll (fun _ _ _ he => VgaBuffer.fits_of_exec he) hs

/-- For which strings, one after the other, the terminal neither panics nor writes outside its buffer and
keeps its cursor on the screen. -/
theorem terminal_safe_iff {info : FrameBufferInfo} {bufLen : Nat} (hg : Geometry info bufLen) (buf : Nat → UInt8)
    (ss : List (List Char)) :
    (∃ w, runAll VgaBuffer.parseAnsi (.new buf bufLen info) ss = .ok w) ∧
        Always VgaBuffer.parseAnsi CursorOnScreen (.new buf bufLen info) ss ↔
      Guarded VgaBuffer.parseAnsi PiecesFit (.new buf bufLen info) ss := by
  constructor
  · rintro ⟨⟨w, hrun⟩, -⟩
    exact guarded_of_runAll (fun _ _ _ hs => piecesFit_of_parseAnsi hs) hrun
  · intro hfit
    obtain ⟨hrun, hsound⟩ := (survives_iff_guarded (fun v s hv hfits => VgaBuffer.Sound.parseAnsi hv hfits)
      (fun _ _ _ _ hs _ => piecesFit_of_parseAnsi hs) (hg.new buf)).mpr hfit
    exact ⟨hrun, hsound.mono fun v hv => ⟨hv.row, hv.col⟩⟩

/-- A screen of two characters, one below the other. -/
def twoLines : FrameBufferInfo := ⟨8, 16, 8, 4, .rgb⟩

theorem twoLines_geometry : Geometry twoLines 512 :=
  ⟨by decide, by decide, by decide, by decide, by decide, by decide⟩

/-- A line, a colour, a character and the cursor up by five lines. -/
theorem terminal_safe_twoLines :
    Always VgaBuffer.parseAnsi CursorOnScreen (.new (fun _ => 0) 512 twoLines) ["\n".toList,
      '\x1B' :: "[31mx".toList, '\x1B' :: "[5A".toList] := by
  have hrun : (runAll VgaBuffer.parseAnsi (.new (fun _ => 0) 512 twoLines)
      ["\n".toList, '\x1B' :: "[31mx".toList, '\x1B' :: "[5A".toList]).isOk = true := by rfl
  cases hw : runAll VgaBuffer.parseAnsi (.new (fun _ => 0) 512 twoLines)
      ["\n".toList, '\x1B' :: "[31mx".toList, '\x1B' :: "[5A".toList] with
  | error e =>
    rw [hw] at hrun
    cases hrun
  | ok w =>
    exact ((terminal_safe_iff twoLines_geometry (fun _ => 0) _).mpr
      (guarded_of_runAll (fun _ _ _ hs => piecesFit_of_parseAnsi hs) hw)).2

/-- From the second line, down by the largest number. -/
theorem cursor_down_overflows : ¬ ∀ info bufLen, Geometry info bufLen → ∀ buf ss,
    (∃ w, runAll VgaBuffer.parseAnsi (.new buf bufLen info) ss = .ok w) ∧
      Always VgaBuffer.parseAnsi CursorOnScreen (.new buf bufLen info) ss := by
  intro h
  obtain ⟨⟨w, hrun⟩, -⟩ := h twoLines 512 twoLines_geometry (fun _ => 0)
    ["\n".toList, '\x1B' :: "[18446744073709551615B".toList]
  have hpanic : runAll VgaBuffer.parseAnsi (.new (fun _ => 0) 512 twoLines)
      ["\n".toList, '\x1B' :: "[18446744073709551615B".toList] = .error .panic := by rfl
  rw [hpanic] at hrun
  cases hrun

end WasmOs.Vga
