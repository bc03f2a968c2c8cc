import WasmOs.Bytes
import WasmOs.Fault

/-!
# The framebuffer

`VgaBuffer` of `vga.rs`: text with a cursor and ANSI sequences, and single pixels. The buffer is raw memory
of `bufLen` bytes, so an access outside it is a fault of its own; `usize` arithmetic panics as elsewhere.
-/

namespace WasmOs.Vga

/-- A read or write through the raw pointer that is not inside the buffer. -/
inductive RawFault where
  | outside
  deriving DecidableEq, Repr

abbrev Raw := Rust RawFault

def umul (a b : Nat) : Raw Nat := if a * b < 2 ^ 64 then .ok (a * b) else .error .panic

inductive PixelFormat where
  | rgb | bgr | u8 | unknown
  deriving DecidableEq, Repr

/-- Sizes are in pixels; `stride` is the distance between two rows. -/
structure FrameBufferInfo where
  width : Nat
  height : Nat
  stride : Nat
  bytesPerPixel : Nat
  pixelFormat : PixelFormat

structure Color where
  r : UInt8
  g : UInt8
  b : UInt8
  deriving DecidableEq, Repr

namespace Color

def BLACK : Color := ⟨0, 0, 0⟩
def RED : Color := ⟨170, 0, 0⟩
def GREEN : Color := ⟨0, 170, 0⟩
def YELLOW : Color := ⟨170, 170, 0⟩
def BLUE : Color := ⟨0, 0, 170⟩
def MAGENTA : Color := ⟨170, 0, 170⟩
def CYAN : Color := ⟨0, 170, 170⟩
def WHITE : Color := ⟨170, 170, 170⟩
def BRIGHT_BLACK : Color := ⟨85, 85, 85⟩
def BRIGHT_RED : Color := ⟨255, 85, 85⟩
def BRIGHT_GREEN : Color := ⟨85, 255, 85⟩
def BRIGHT_YELLOW : Color := ⟨255, 255, 85⟩
def BRIGHT_BLUE : Color := ⟨85, 85, 255⟩
def BRIGHT_MAGENTA : Color := ⟨255, 85, 255⟩
def BRIGHT_CYAN : Color := ⟨85, 255, 255⟩
def BRIGHT_WHITE : Color := ⟨255, 255, 255⟩

/-- Three bits of a colour code, in the order of the codes. -/
def dim (i : Nat) : Color := [BLACK, RED, GREEN, YELLOW, BLUE, MAGENTA, CYAN, WHITE].getD i BLACK

def bright (i : Nat) : Color :=
  [BRIGHT_BLACK, BRIGHT_RED, BRIGHT_GREEN, BRIGHT_YELLOW, BRIGHT_BLUE, BRIGHT_MAGENTA, BRIGHT_CYAN,
    BRIGHT_WHITE].getD i BLACK

end Color

/-- The bytes of `0x00RRGGBB`. -/
def unpack (rgb : BitVec 32) : Color :=
  ⟨UInt8.ofBitVec ((rgb >>> 16).setWidth 8), UInt8.ofBitVec ((rgb >>> 8).setWidth 8),
    UInt8.ofBitVec (rgb.setWidth 8)⟩

def CHAR_W : Nat := 8

def CHAR_H : Nat := 8

/-- The glyphs of ASCII 32 to 126, eight rows of eight pixels each, the top row in the most significant byte. -/
def FONT : List UInt64 :=
  [0x0000000000000000, 0x1818181818001800, 0x6666660000000000, 0x6666FF66FF666600, 0x187EC07C067E1800,
   0x62660C1830664600, 0x3C663C3867663F00, 0x060C180000000000, 0x0C18303030180C00, 0x30180C0C0C183000,
   0x00663CFF3C660000, 0x0018187E18180000, 0x0000000000181830, 0x0000007E00000000, 0x0000000000181800,
   0x060C183060C08000, 0x3C666E7666663C00, 0x1838181818187E00, 0x3C66060C30607E00, 0x3C66061C06663C00,
   0x0C1C3C6C7E0C0C00, 0x7E607C0606663C00, 0x3C66607C66663C00, 0x7E660C1818181800, 0x3C66663C66663C00,
   0x3C66663E06663C00, 0x0000180000180000, 0x0000180000181830, 0x0C18306030180C00, 0x00007E007E000000,
   0x6030180C18306000, 0x3C66060C18001800, 0x3E636F6B6F603E00, 0x183C66667E666600, 0x7C66667C66667C00,
   0x3C66606060663C00, 0x786C6666666C7800, 0x7E60607860607E00, 0x7E60607860606000, 0x3C66606E66663C00,
   0x6666667E66666600, 0x3C18181818183C00, 0x1E0C0C0C0C6C3800, 0x666C7870786C6600, 0x6060606060607E00,
   0x63777F6B63636300, 0x66767E7E6E666600, 0x3C66666666663C00, 0x7C66667C60606000, 0x3C666666666C3600,
   0x7C66667C6C666600, 0x3C66603C06663C00, 0x7E18181818181800, 0x6666666666663C00, 0x66666666663C1800,
   0x6363636B7F776300, 0x66663C183C666600, 0x6666663C18181800, 0x7E060C1830607E00, 0x3C30303030303C00,
   0xC06030180C060200, 0x3C0C0C0C0C0C3C00, 0x183C660000000000, 0x00000000000000FF, 0x30180C0000000000,
   0x00003C063E663E00, 0x60607C6666667C00, 0x00003C6060603C00, 0x06063E6666663E00, 0x00003C667E603C00,
   0x1C30307C30303000, 0x00003E66663E063C, 0x60607C6666666600, 0x1800381818183C00, 0x060006060606663C,
   0x6060666C786C6600, 0x3818181818183C00, 0x0000667F7F6B6300, 0x00007C6666666600, 0x00003C6666663C00,
   0x00007C66667C6060, 0x00003E66663E0606, 0x00007C6660606000, 0x00003C603C063C00, 0x30307C3030301C00,
   0x0000666666663E00, 0x00006666663C1800, 0x0000636B7F7F3600, 0x0000663C183C6600, 0x00006666663E063C,
   0x00007E0C18307E00, 0x0C18187018180C00, 0x1818181818181800, 0x3018180E18183000, 0x316B460000000000]

structure VgaBuffer where
  buf : Nat → UInt8
  bufLen : Nat
  info : FrameBufferInfo
  col : Nat
  row : Nat
  savedCol : Nat
  savedRow : Nat
  fg : Color
  bg : Color

namespace VgaBuffer

def new (buf : Nat → UInt8) (bufLen : Nat) (info : FrameBufferInfo) : VgaBuffer :=
  ⟨buf, bufLen, info, 0, 0, 0, 0, .BRIGHT_WHITE, .BLACK⟩

def cols (w : VgaBuffer) : Nat := w.info.width / CHAR_W

def rows (w : VgaBuffer) : Nat := w.info.height / CHAR_H

/-! ## Raw memory -/

/-- `self.buf.add(off).write_volatile(v)` -/
def write (w : VgaBuffer) (off : Nat) (v : UInt8) : Raw VgaBuffer :=
  if off < w.bufLen then .ok { w with buf := upd w.buf off v } else .error (.err .outside)

/-- `write_bytes(self.buf.add(off), 0, n)` -/
def fill (w : VgaBuffer) (off n : Nat) : Raw VgaBuffer :=
  if off + n ≤ w.bufLen then .ok { w with buf := fun k => if off ≤ k ∧ k < off + n then 0 else w.buf k }
  else .error (.err .outside)

/-- `copy(self.buf.add(src), self.buf.add(dst), n)` -/
def move (w : VgaBuffer) (src dst n : Nat) : Raw VgaBuffer :=
  if src + n ≤ w.bufLen ∧ dst + n ≤ w.bufLen then
    .ok { w with buf := fun k => if dst ≤ k ∧ k < dst + n then w.buf (src + (k - dst)) else w.buf k }
  else .error (.err .outside)

/-- The three bytes of a pixel, in the order of the format. -/
def writePixel (w : VgaBuffer) (off : Nat) (r g b : UInt8) : Raw VgaBuffer :=
  if w.info.pixelFormat = .bgr then do
    let w ← w.write off b
    let w ← w.write (off + 1) g
    w.write (off + 2) r
  else do
    let w ← w.write off r
    let w ← w.write (off + 1) g
    w.write (off + 2) b

def putPixel (w : VgaBuffer) (x y : Nat) (r g b : UInt8) : Raw VgaBuffer := do
  let bpp := w.info.bytesPerPixel
  let off ← umul (← uadd (← umul y w.info.stride) x) bpp
  let stop ← uadd off bpp
  if w.bufLen < stop then .ok w else w.writePixel off r g b

/-- `for i in lo..hi` -/
def forRange (w : VgaBuffer) (lo hi : Nat) (f : VgaBuffer → Nat → Raw VgaBuffer) : Raw VgaBuffer :=
  (List.range' lo (hi - lo)).foldlM f w

/-! ## Lines -/

/-- `CHAR_H * stride * bytes_per_pixel` -/
def rowBytes (w : VgaBuffer) : Raw Nat := do
  umul (← umul CHAR_H w.info.stride) w.info.bytesPerPixel

def scrollUp (w : VgaBuffer) : Raw VgaBuffer := do
  let rowBytes ← w.rowBytes
  let totalRows := w.rows
  if totalRows = 0 then .ok w
  else do
    let w ← w.move rowBytes 0 (← umul (← usub totalRows 1) rowBytes)
    w.fill (← umul (← usub totalRows 1) rowBytes) rowBytes

def setCursorPosition (w : VgaBuffer) (row col : Nat) : Raw VgaBuffer := do
  let lastRow ← usub w.rows 1
  let lastCol ← usub w.cols 1
  .ok { w with row := min row lastRow, col := min col lastCol }

/-- The pixels `lo..hi` of the eight pixel rows of the cursor line, in the background colour. -/
def eraseInLine (w : VgaBuffer) (lo hi : Nat) : Raw VgaBuffer := do
  let py ← umul w.row CHAR_H
  w.forRange 0 CHAR_H fun w rowI => w.forRange lo hi fun w colI => do
    let y ← uadd py rowI
    w.putPixel colI y w.bg.r w.bg.g w.bg.b

def clearToEndOfLine (w : VgaBuffer) : Raw VgaBuffer := do
  let startPx ← umul w.col CHAR_W
  w.eraseInLine startPx (← umul w.cols CHAR_W)

def clearToStartOfLine (w : VgaBuffer) : Raw VgaBuffer := do
  let endPx ← umul (← uadd w.col 1) CHAR_W
  w.eraseInLine 0 endPx

def clearLine (w : VgaBuffer) : Raw VgaBuffer := do
  let w ← w.eraseInLine 0 (← umul w.cols CHAR_W)
  .ok { w with col := 0 }

def clearScreen (w : VgaBuffer) : Raw VgaBuffer := do
  let w ← w.fill 0 w.bufLen
  .ok { w with col := 0, row := 0 }

def clearToEndOfScreen (w : VgaBuffer) : Raw VgaBuffer := do
  let w ← w.clearToEndOfLine
  let nextRow ← uadd w.row 1
  let totalRows := w.rows
  if nextRow < totalRows then do
    let rowBytes ← w.rowBytes
    w.fill (← umul nextRow rowBytes) (← umul (← usub totalRows nextRow) rowBytes)
  else .ok w

def clearToStartOfScreen (w : VgaBuffer) : Raw VgaBuffer := do
  let rowBytes ← w.rowBytes
  let w ← if 0 < w.row then w.fill 0 (← umul w.row rowBytes) else .ok w
  w.clearToStartOfLine

def insertLines (w : VgaBuffer) (n : Nat) : Raw VgaBuffer := do
  let totalRows := w.rows
  let n := min n (← usub totalRows w.row)
  let rowBytes ← w.rowBytes
  let rowsToMove ← usub (← usub totalRows w.row) n
  let w ← if 0 < rowsToMove then
      w.move (← umul w.row rowBytes) (← umul (← uadd w.row n) rowBytes) (← umul rowsToMove rowBytes)
    else .ok w
  w.fill (← umul w.row rowBytes) (← umul n rowBytes)

def deleteLines (w : VgaBuffer) (n : Nat) : Raw VgaBuffer := do
  let totalRows := w.rows
  let n := min n (← usub totalRows w.row)
  let rowBytes ← w.rowBytes
  let rowsToMove ← usub (← usub totalRows w.row) n
  let w ← if 0 < rowsToMove then
      w.move (← umul (← uadd w.row n) rowBytes) (← umul w.row rowBytes) (← umul rowsToMove rowBytes)
    else .ok w
  w.fill (← umul (← usub totalRows n) rowBytes) (← umul n rowBytes)

def setColor (w : VgaBuffer) (code : Nat) : VgaBuffer :=
  if code = 0 then { w with fg := .BRIGHT_WHITE, bg := .BLACK }
  else if 30 ≤ code ∧ code ≤ 37 then { w with fg := .dim (code - 30) }
  else if 40 ≤ code ∧ code ≤ 47 then { w with bg := .dim (code - 40) }
  else if 90 ≤ code ∧ code ≤ 97 then { w with fg := .bright (code - 90) }
  else if 100 ≤ code ∧ code ≤ 107 then { w with bg := .bright (code - 100) }
  else w

/-! ## Characters -/

/-- The eight by eight pixels at the cursor. -/
def drawCell (w : VgaBuffer) (color : VgaBuffer → Nat → Nat → Color) : Raw VgaBuffer := do
  let px ← umul w.col CHAR_W
  let py ← umul w.row CHAR_H
  w.forRange 0 CHAR_H fun w rowI => w.forRange 0 CHAR_W fun w colI => do
    let x ← uadd px colI
    let y ← uadd py rowI
    let c := color w rowI colI
    w.putPixel x y c.r c.g c.b

def glyph (c : Char) : UInt64 :=
  if 32 ≤ c.toNat ∧ c.toNat ≤ 126 then FONT.getD (c.toNat - 32) 0 else FONT.getD 0 0

def glyphBit (glyph : UInt64) (rowI colI : Nat) : Bool := glyph.toNat.testBit (8 * (7 - rowI) + (7 - colI))

/-- The cursor after a character or a backspace. -/
def scrollIfNeeded (w : VgaBuffer) : Raw VgaBuffer :=
  if w.rows ≤ w.row then do
    let w ← w.scrollUp
    let lastRow ← usub w.rows 1
    .ok { w with row := lastRow }
  else .ok w

def writeChar (w : VgaBuffer) (c : Char) : Raw VgaBuffer := do
  let w ← if c = '\n' then do
      let row ← uadd w.row 1
      .ok { w with col := 0, row := row }
    else if c = '\r' then .ok { w with col := 0 }
    else if c = '\x08' then do
      let w ← if 0 < w.col then .ok { w with col := w.col - 1 }
        else if 0 < w.row then do
          let lastCol ← usub w.cols 1
          .ok { w with row := w.row - 1, col := lastCol }
        else .ok w
      w.drawCell fun _ _ _ => .BLACK
    else do
      let w ← w.drawCell fun w rowI colI => if glyphBit (glyph c) rowI colI then w.fg else w.bg
      let col ← uadd w.col 1
      if w.cols ≤ col then do
        let row ← uadd w.row 1
        .ok { w with col := 0, row := row }
      else .ok { w with col := col }
  w.scrollIfNeeded

/-! ## ANSI sequences -/

/-- `part.parse::<T>().unwrap_or(0)` for digits, where `T` has `size` values. -/
def parseOrZero (size : Nat) (part : List Char) : Nat :=
  let n := part.foldl (fun n c => 10 * n + (c.toNat - 0x30)) 0
  if n < size then n else 0

/-- `param_str.split(';')` -/
def splitParams : List Char → List (List Char)
  | [] => [[]]
  | c :: cs =>
    if c = ';' then [] :: splitParams cs
    else match splitParams cs with
      | [] => [[c]]
      | part :: parts => (c :: part) :: parts

/-- The first two parameters, zero where there is none. -/
def param (paramStr : List Char) (i : Nat) : Nat := ((splitParams paramStr)[i]?.map (parseOrZero (2 ^ 64))).getD 0

def command (w : VgaBuffer) (paramStr : List Char) (cmd : Char) : Raw VgaBuffer :=
  let p0 := param paramStr 0
  let p1 := param paramStr 1
  if cmd = 'm' then
    if paramStr = [] then .ok (w.setColor 0)
    else .ok ((splitParams paramStr).foldl (fun w part => w.setColor (parseOrZero 256 part)) w)
  else if cmd = 'J' then
    if p0 = 0 then w.clearToEndOfScreen
    else if p0 = 1 then w.clearToStartOfScreen
    else if p0 = 2 then w.clearScreen
    else .ok w
  else if cmd = 'K' then
    if p0 = 0 then w.clearToEndOfLine
    else if p0 = 1 then w.clearToStartOfLine
    else if p0 = 2 then w.clearLine
    else .ok w
  else if cmd = 'H' ∨ cmd = 'f' then w.setCursorPosition (p0 - 1) (p1 - 1)
  else if cmd = 'A' then .ok { w with row := w.row - max p0 1 }
  else if cmd = 'F' then .ok { w with row := w.row - max p0 1, col := 0 }
  else if cmd = 'B' then do
    let row ← uadd w.row (max p0 1)
    .ok { w with row := min row (w.rows - 1) }
  else if cmd = 'E' then do
    let row ← uadd w.row (max p0 1)
    .ok { w with row := min row (w.rows - 1), col := 0 }
  else if cmd = 'C' then do
    let col ← uadd w.col (max p0 1)
    .ok { w with col := min col (w.cols - 1) }
  else if cmd = 'D' then .ok { w with col := w.col - max p0 1 }
  else if cmd = 'G' then .ok { w with col := min (p0 - 1) (w.cols - 1) }
  else if cmd = 'd' then .ok { w with row := min (p0 - 1) (w.rows - 1) }
  else if cmd = 's' then .ok { w with savedRow := w.row, savedCol := w.col }
  else if cmd = 'u' then .ok { w with row := w.savedRow, col := w.savedCol }
  else if cmd = 'L' then w.insertLines (max p0 1)
  else if cmd = 'M' then w.deleteLines (max p0 1)
  else .ok w

def isParam (c : Char) : Bool := ('0' ≤ c && c ≤ '9') || c == ';'

-- Every round takes a character, so the length of the string is fuel enough.
def parseAnsi.loop : Nat → List Char → VgaBuffer → Raw VgaBuffer
  | 0, _, w => .ok w
  | _ + 1, [], w => .ok w
  | fuel + 1, c :: chars, w =>
    if c ≠ '\x1B' then do
      let w ← w.writeChar c
      parseAnsi.loop fuel chars w
    else match chars with
      | [] => .ok w
      | d :: chars =>
        if d ≠ '[' then parseAnsi.loop fuel chars w
        else match chars.dropWhile isParam with
          | [] => .ok w
          | cmd :: rest => do
            let w ← w.command (chars.takeWhile isParam) cmd
            parseAnsi.loop fuel rest w

def parseAnsi (w : VgaBuffer) (s : List Char) : Raw VgaBuffer := parseAnsi.loop s.length s w

/-! ## Pixels -/

def setPixel (w : VgaBuffer) (x y : BitVec 32) (rgb : BitVec 32) : Raw VgaBuffer :=
  if x.toInt < 0 ∨ y.toInt < 0 then .ok w
  else w.putPixel x.toNat y.toNat (unpack rgb).r (unpack rgb).g (unpack rgb).b

/-- One round of the loops of `blit_rgb32`, whose body is that of `put_pixel`. -/
def blitPixel (pixels : List (BitVec 32)) (width y : Nat) (w : VgaBuffer) (x : Nat) : Raw VgaBuffer := do
  let rgb ← index pixels (← uadd (← umul y width) x)
  w.putPixel x y (unpack rgb).r (unpack rgb).g (unpack rgb).b

def blitRgb32 (w : VgaBuffer) (pixels : List (BitVec 32)) (width height : Nat) : Raw VgaBuffer :=
  w.forRange 0 height fun w y => w.forRange 0 width (blitPixel pixels width y)

end VgaBuffer

end WasmOs.Vga
