import WasmOs.Vga

/-!
# Pixels on the screen

Which pixels `set_pixel` and `blit_rgb32` change. They compare the offset with the length of the buffer and
not `x` with the width, so a pixel beyond the right edge is written into the padding or the next row.
-/

namespace WasmOs.Vga

/-! ## Loops -/

section
variable {α : Type} {f : VgaBuffer → α → Raw VgaBuffer} {l : List α} {w w' : VgaBuffer}

theorem foldlM_step {i : α} (h : (i :: l).foldlM f w = .ok w') : ∃ w₁, f w i = .ok w₁ ∧ l.foldlM f w₁ = .ok w' := by
  rw [List.foldlM_cons] at h
  exact bind_eq_ok.mp h

theorem foldlM_keeps {I : VgaBuffer → Prop} (hstep : ∀ w i w', i ∈ l → I w → f w i = .ok w' → I w') (hw : I w)
    (h : l.foldlM f w = .ok w') : I w' := by
  induction l generalizing w with
  | nil =>
    cases h
    exact hw
  | cons i l ih =>
    obtain ⟨w₁, hi, h⟩ := foldlM_step h
    exact ih (fun w j w' hj => hstep w j w' (.tail i hj)) (hstep w i w₁ (.head l) hw hi) h

/-- A loop whose rounds all succeed succeeds. -/
theorem foldlM_ok {I : VgaBuffer → Prop} (hstep : ∀ w i, i ∈ l → I w → ∃ w', f w i = .ok w' ∧ I w') (hw : I w) :
    ∃ w', l.foldlM f w = .ok w' ∧ I w' := by
  induction l generalizing w with
  | nil => exact ⟨w, rfl, hw⟩
  | cons i l ih =>
    obtain ⟨w₁, hi, hw₁⟩ := hstep w i (.head l) hw
    obtain ⟨w', hrest, hw'⟩ := ih (fun w j hj => hstep w j (.tail i hj)) hw₁
    refine ⟨w', ?_, hw'⟩
    rw [List.foldlM_cons, hi]
    exact hrest

theorem foldlM_round (h : l.foldlM f w = .ok w') {I : VgaBuffer → Prop}
    (hstep : ∀ w i w', I w → f w i = .ok w' → I w')
    (hw : I w) {i : α} (hi : i ∈ l) : ∃ w₁ w₂, I w₁ ∧ f w₁ i = .ok w₂ := by
  induction l generalizing w with
  | nil => cases hi
  | cons j l ih =>
    obtain ⟨w₁, hj, h⟩ := foldlM_step h
    obtain rfl | hi := List.mem_cons.mp hi
    · exact ⟨w, w₁, hw, hj⟩
    · exact ih h (hstep w j w₁ hw hj) hi

/-- What one round brings about and no later one undoes holds at the end. -/
theorem foldlM_sets {R : α → α → Prop} (hl : l.Pairwise R) {Q : VgaBuffer → Prop} {i : α} (hi : i ∈ l)
    {I : VgaBuffer → Prop} (hI : ∀ w j w', I w → f w j = .ok w' → I w')
    (hset : ∀ w w', I w → f w i = .ok w' → Q w') (hkeep : ∀ w j w', R i j → I w → Q w → f w j = .ok w' →
      Q w') (hw : I w)
    (h : l.foldlM f w = .ok w') : Q w' := by
  induction l generalizing w with
  | nil => cases hi
  | cons j l ih =>
    obtain ⟨w₁, hj, hrest⟩ := foldlM_step h
    have hw₁ := hI w j w₁ hw hj
    rw [List.pairwise_cons] at hl
    obtain rfl | hi := List.mem_cons.mp hi
    · have hboth : I w' ∧ Q w' := foldlM_keeps (I := fun w => I w ∧ Q w)
        (fun w k w' hk hw hs => ⟨hI w k w' hw.1 hs, hkeep w k w' (hl.1 k hk) hw.1 hw.2 hs⟩)
          ⟨hw₁, hset w w₁ hw hj⟩ hrest
      exact hboth.2
    · exact ih hl.2 hi hw₁ hrest

end

theorem mem_forRange {lo hi i : Nat} : i ∈ List.range' lo (hi - lo) ↔ lo ≤ i ∧ i < hi := by
  rw [List.mem_range'_1]
  omega

/-! ## One pixel -/

def Color.bytes (c : Color) (format : PixelFormat) : Nat → UInt8
  | 0 => if format = .bgr then c.b else c.r
  | 1 => c.g
  | _ => if format = .bgr then c.r else c.b

def pos (info : FrameBufferInfo) (x y : Nat) : Nat := y * info.stride + x

def offset (info : FrameBufferInfo) (x y : Nat) : Nat := pos info x y * info.bytesPerPixel

def painted (buf : Nat → UInt8) (off : Nat) (bytes : Nat → UInt8) : Nat → UInt8 := fun k =>
  if off ≤ k ∧ k < off + 3 then bytes (k - off) else buf k

namespace VgaBuffer

variable {w w' : VgaBuffer}

theorem write_eq_ok {off : Nat} {v : UInt8} :
    w.write off v = .ok w' ↔ off < w.bufLen ∧ w' = { w with buf := upd w.buf off v } := by
  unfold write
  by_cases h : off < w.bufLen
  · simp [h, eq_comm]
  · simp [h]

theorem writePixel_eq_ok {off : Nat} {c : Color} : w.writePixel off c.r c.g c.b = .ok w' ↔
    off + 2 < w.bufLen ∧ w' = { w with buf := painted w.buf off (c.bytes w.info.pixelFormat) } := by
  have hpaint : ∀ b₀ b₁ b₂ : UInt8, b₀ = c.bytes w.info.pixelFormat 0 → b₁ = c.bytes w.info.pixelFormat 1 →
      b₂ = c.bytes w.info.pixelFormat 2 →
      upd (upd (upd w.buf off b₀) (off + 1) b₁) (off + 2) b₂ = painted w.buf off (c.bytes w.info.pixelFormat) := by
    rintro b₀ b₁ b₂ rfl rfl rfl
    funext k
    unfold upd painted
    by_cases h2 : k = off + 2
    · subst h2
      simp
    · by_cases h1 : k = off + 1
      · subst h1
        simp
      · by_cases h0 : k = off
        · subst h0
          simp
        · rw [if_neg h2, if_neg h1, if_neg h0, if_neg (by omega)]
  have hwrites : ∀ b₀ b₁ b₂ : UInt8, (do
      let w ← w.write off b₀
      let w ← w.write (off + 1) b₁
      w.write (off + 2) b₂) = .ok w' ↔
      off + 2 < w.bufLen ∧ w' = { w with buf := upd (upd (upd w.buf off b₀) (off + 1) b₁) (off + 2) b₂ } := by
    intro b₀ b₁ b₂
    constructor
    · intro h
      obtain ⟨w₁, h₁, h⟩ := bind_eq_ok.mp h
      obtain ⟨-, rfl⟩ := write_eq_ok.mp h₁
      obtain ⟨w₂, h₂, h⟩ := bind_eq_ok.mp h
      obtain ⟨-, rfl⟩ := write_eq_ok.mp h₂
      exact write_eq_ok.mp h
    · rintro ⟨hlt, rfl⟩
      rw [write, if_pos (by omega), bind_ok, write, if_pos (by dsimp only; omega), bind_ok, write, if_pos hlt]
  unfold writePixel
  by_cases hf : w.info.pixelFormat = .bgr
  · have hbytes := hpaint c.b c.g c.r (if_pos hf).symm rfl (if_pos hf).symm
    rw [if_pos hf, hwrites, hbytes]
  · have hbytes := hpaint c.r c.g c.b (if_neg hf).symm rfl (if_neg hf).symm
    rw [if_neg hf, hwrites, hbytes]

theorem umul_eq_ok {a b c : Nat} : umul a b = .ok c ↔ a * b < 2 ^ 64 ∧ c = a * b := by
  unfold umul
  by_cases h : a * b < 2 ^ 64
  · rw [if_pos h]
    exact ⟨fun heq => ⟨h, (Except.ok.inj heq).symm⟩, fun hc => congrArg Except.ok hc.2.symm⟩
  · rw [if_neg h]
    exact ⟨fun heq => (nomatch heq), fun hc => absurd hc.1 h⟩

theorem umul_of_lt {a b : Nat} (h : a * b < 2 ^ 64) : umul a b = .ok (a * b) := if_pos h

/-- `put_pixel` if it does not panic: nothing behind the end of the buffer, else three bytes. -/
theorem putPixel_eq_ok {x y : Nat} {c : Color} (h : w.putPixel x y c.r c.g c.b = .ok w') :
    offset w.info x y + w.info.bytesPerPixel < 2 ^ 64 ∧
      (w.bufLen < offset w.info x y + w.info.bytesPerPixel ∧ w' = w ∨
        offset w.info x y + w.info.bytesPerPixel ≤ w.bufLen ∧ offset w.info x y + 2 < w.bufLen ∧
          w' = { w with buf := painted w.buf (offset w.info x y) (c.bytes w.info.pixelFormat) }) := by
  unfold putPixel at h
  obtain ⟨row, hrow, h⟩ := bind_eq_ok.mp h
  obtain ⟨-, rfl⟩ := umul_eq_ok.mp hrow
  obtain ⟨p, hp, h⟩ := bind_eq_ok.mp h
  obtain ⟨-, rfl⟩ := uadd_eq_ok.mp hp
  obtain ⟨off, hoff, h⟩ := bind_eq_ok.mp h
  obtain ⟨-, rfl⟩ := umul_eq_ok.mp hoff
  obtain ⟨stop, hstop, h⟩ := bind_eq_ok.mp h
  obtain ⟨hle, rfl⟩ := uadd_eq_ok.mp hstop
  refine ⟨?_, ?_⟩
  · unfold usizeMax at hle
    exact Nat.lt_of_le_of_lt hle (by decide)
  · by_cases hlt : w.bufLen < offset w.info x y + w.info.bytesPerPixel
    · rw [if_pos (show w.bufLen < (y * w.info.stride +
        x) * w.info.bytesPerPixel + w.info.bytesPerPixel from hlt)] at h
      cases h
      exact .inl ⟨hlt, rfl⟩
    · rw [if_neg (show ¬ w.bufLen < (y * w.info.stride +
        x) * w.info.bytesPerPixel + w.info.bytesPerPixel from hlt)] at h
      obtain ⟨hin, rfl⟩ := writePixel_eq_ok.mp h
      exact .inr ⟨Nat.le_of_not_lt hlt, hin, rfl⟩

/-- With three bytes or more a pixel in the buffer is written whole. -/
theorem putPixel_ok {x y : Nat} (c : Color) (hno : offset w.info x y + w.info.bytesPerPixel < 2 ^ 64)
    (hbpp : 1 ≤ w.info.bytesPerPixel)
    (hin : offset w.info x y + w.info.bytesPerPixel ≤ w.bufLen → 3 ≤ w.info.bytesPerPixel) :
    w.putPixel x y c.r c.g c.b = .ok (if w.bufLen < offset w.info x y + w.info.bytesPerPixel then w
      else { w with buf := painted w.buf (offset w.info x y) (c.bytes w.info.pixelFormat) }) := by
  have hpos : pos w.info x y ≤ offset w.info x y := Nat.le_mul_of_pos_right _ hbpp
  have hrow : y * w.info.stride ≤ pos w.info x y := Nat.le_add_right ..
  unfold putPixel
  rw [umul_of_lt (by omega), bind_ok,
    uadd_of_lt (show y * w.info.stride + x < 2 ^ 64 by unfold pos at hpos; omega), bind_ok]
  change (umul (pos w.info x y) _ >>= _) = _
  rw [umul_of_lt (show offset w.info x y < 2 ^ 64 by omega), bind_ok]
  change (uadd (offset w.info x y) _ >>= _) = _
  rw [uadd_of_lt hno, bind_ok]
  by_cases hlt : w.bufLen < offset w.info x y + w.info.bytesPerPixel
  · rw [if_pos hlt, if_pos hlt]
  · rw [if_neg hlt, if_neg hlt]
    have hthree := hin (Nat.le_of_not_lt hlt)
    have hlast : offset w.info x y + 2 < w.bufLen := by omega
    exact writePixel_eq_ok.mpr ⟨hlast, rfl⟩

/-- Nothing but the contents of the buffer changes. -/
structure SameScreen (w w' : VgaBuffer) : Prop where
  eq : w' = { w with buf := w'.buf }

theorem SameScreen.refl (w : VgaBuffer) : SameScreen w w := ⟨rfl⟩

theorem SameScreen.trans {w₁ w₂ w₃ : VgaBuffer} (h : SameScreen w₁ w₂) (h' : SameScreen w₂ w₃) :
    SameScreen w₁ w₃ := by
  constructor
  rw [h'.eq, h.eq]

theorem SameScreen.info (h : SameScreen w w') : w'.info = w.info := by rw [h.eq]

theorem SameScreen.bufLen (h : SameScreen w w') : w'.bufLen = w.bufLen := by rw [h.eq]

theorem putPixel_same {x y : Nat} {c : Color} (h : w.putPixel x y c.r c.g c.b = .ok w') : SameScreen w w' := by
  obtain ⟨-, ⟨-, rfl⟩ | ⟨-, -, rfl⟩⟩ := putPixel_eq_ok h
  · exact .refl _
  · exact ⟨rfl⟩

end VgaBuffer

/-! ## One pixel of the application -/

def dark (info : FrameBufferInfo) (bufLen : Nat) : VgaBuffer := .new (fun _ => 0) bufLen info

def WHITE_RGB : BitVec 32 := 0xFFFFFF

theorem white_bytes (format : PixelFormat) (i : Nat) : (unpack WHITE_RGB).bytes format i = 255 := by
  have hwhite : unpack WHITE_RGB = ⟨255, 255, 255⟩ := by decide
  unfold Color.bytes
  rw [hwhite]
  split <;> simp

def OnScreen (info : FrameBufferInfo) (x y : BitVec 32) : Prop :=
  0 ≤ x.toInt ∧ 0 ≤ y.toInt ∧ x.toNat < info.width ∧ y.toNat < info.height

/-- `set_pixel` changes bytes of this pixel only, and none if it is off the screen. -/
def SetPixelClipped (info : FrameBufferInfo) (bufLen : Nat) (x y : BitVec 32) : Prop :=
  ∀ (w : VgaBuffer) (rgb : BitVec 32), w.info = info → w.bufLen = bufLen →
    ∃ w', w.setPixel x y rgb = .ok w' ∧ w.SameScreen w' ∧ ∀ k, w'.buf k ≠ w.buf k →
      OnScreen info x y ∧ offset info x.toNat y.toNat ≤ k ∧ k < offset info x.toNat y.toNat + info.bytesPerPixel

/-- A coordinate is negative; or the offset fits, and the pixel is on the screen or behind the end of the buffer. -/
def PixelFits (info : FrameBufferInfo) (bufLen : Nat) (x y : BitVec 32) : Prop :=
  x.toInt < 0 ∨ y.toInt < 0 ∨
    (offset info x.toNat y.toNat + info.bytesPerPixel < 2 ^ 64 ∧
      (bufLen < offset info x.toNat y.toNat + info.bytesPerPixel ∨
        (3 ≤ info.bytesPerPixel ∧ x.toNat < info.width ∧ y.toNat < info.height)))

theorem bytesPerPixel_pos {info : FrameBufferInfo} {bufLen x y : Nat}
    (h : bufLen < offset info x y + info.bytesPerPixel) :
    1 ≤ info.bytesPerPixel := by
  by_contra h0
  have hzero : info.bytesPerPixel = 0 := by omega
  rw [offset, hzero, Nat.mul_zero] at h
  omega

theorem setPixel_iff (info : FrameBufferInfo) (bufLen : Nat) (x y : BitVec 32) :
    SetPixelClipped info bufLen x y ↔ PixelFits info bufLen x y := by
  unfold PixelFits
  by_cases hneg : x.toInt < 0 ∨ y.toInt < 0
  · have hclipped : SetPixelClipped info bufLen x y := by
      intro w rgb hinfo hlen
      refine ⟨w, ?_, .refl w, fun k hk => absurd rfl hk⟩
      rw [VgaBuffer.setPixel, if_pos hneg]
    simp only [hclipped, true_iff]
    tauto
  rw [not_or, Int.not_lt, Int.not_lt] at hneg
  obtain ⟨hx, hy⟩ := hneg
  have hneg : ¬ (x.toInt < 0 ∨ y.toInt < 0) := by omega
  constructor
  · intro h
    right
    right
    obtain ⟨w', hset, -, hchange⟩ := h (dark info bufLen) WHITE_RGB rfl rfl
    rw [VgaBuffer.setPixel, if_neg hneg] at hset
    obtain ⟨hno, ⟨hlt, -⟩ | ⟨hle, hin, rfl⟩⟩ := VgaBuffer.putPixel_eq_ok hset
    · exact ⟨hno, .inl hlt⟩
    · refine ⟨hno, .inr ?_⟩
      have hpaint : painted (dark info bufLen).buf (offset info x.toNat y.toNat)
          ((unpack WHITE_RGB).bytes info.pixelFormat) (offset info x.toNat y.toNat + 2) = 255 := by
        rw [painted, if_pos ⟨Nat.le_add_right .., Nat.lt_succ_self _⟩, white_bytes]
      have hdiff : painted (dark info bufLen).buf (offset info x.toNat y.toNat)
          ((unpack WHITE_RGB).bytes info.pixelFormat)
          (offset info x.toNat y.toNat + 2) ≠ 0 := by
        rw [hpaint]
        decide
      obtain ⟨⟨-, -, hw, hh⟩, -, hlt⟩ := hchange (offset info x.toNat y.toNat + 2) hdiff
      exact ⟨by omega, hw, hh⟩
  · rintro (hn | hn | ⟨hno, hfit⟩) w rgb rfl rfl
    · omega
    · omega
    · have hbpp : 1 ≤ w.info.bytesPerPixel := by
        obtain hlt | hthree := hfit
        · exact bytesPerPixel_pos hlt
        · omega
      have hput := VgaBuffer.putPixel_ok (unpack rgb) hno hbpp (by omega)
      refine ⟨_, by rw [VgaBuffer.setPixel, if_neg hneg]; exact hput, VgaBuffer.putPixel_same hput, fun k hk => ?_⟩
      by_cases hlt : w.bufLen < offset w.info x.toNat y.toNat + w.info.bytesPerPixel
      · rw [if_pos hlt] at hk
        exact absurd rfl hk
      · rw [if_neg hlt] at hk
        obtain ⟨hthree, hw, hh⟩ := hfit.resolve_left hlt
        refine ⟨⟨hx, hy, hw, hh⟩, ?_⟩
        dsimp only at hk
        unfold painted at hk
        by_cases hin : offset w.info x.toNat y.toNat ≤ k ∧ k < offset w.info x.toNat y.toNat + 3
        · omega
        · rw [if_neg hin] at hk
          exact absurd rfl hk

/-! ## Images -/

section
variable {pixels : List (BitVec 32)} {width height : Nat} {w w' : VgaBuffer} {I : VgaBuffer → Prop}

theorem blit_keeps (hstep : ∀ w x y w', x < width → y < height → I w →
      VgaBuffer.blitPixel pixels width y w x = .ok w' → I w')
    (hw : I w) (h : w.blitRgb32 pixels width height = .ok w') : I w' :=
  foldlM_keeps (fun _ y _ hy hw hrow => foldlM_keeps
    (fun w x w' hx hw hs => hstep w x y w' (mem_forRange.mp hx).2 (mem_forRange.mp hy).2 hw hs) hw hrow) hw h

theorem blit_ok (hstep : ∀ w x y, x < width → y < height → I w →
      ∃ w', VgaBuffer.blitPixel pixels width y w x = .ok w' ∧ I w')
    (hw : I w) : ∃ w', w.blitRgb32 pixels width height = .ok w' ∧ I w' :=
  foldlM_ok (fun _ y hy hw => foldlM_ok
    (fun w x hx hw => hstep w x y (mem_forRange.mp hx).2 (mem_forRange.mp hy).2 hw) hw) hw

theorem blit_round (h : w.blitRgb32 pixels width height = .ok w')
    (hstep : ∀ w x y w', I w → VgaBuffer.blitPixel pixels width y w x = .ok w' → I w') (hw : I w) {x y : Nat}
    (hx : x < width) (hy : y < height) : ∃ w₁ w₂, I w₁ ∧ VgaBuffer.blitPixel pixels width y w₁ x = .ok w₂ := by
  have hrow : ∀ w y w', I w → (List.range' 0 (width - 0)).foldlM (VgaBuffer.blitPixel pixels width y) w =
      .ok w' → I w' :=
    fun w y w' hw hrow => foldlM_keeps (fun w x w' _ hw hs => hstep w x y w' hw hs) hw hrow
  obtain ⟨w₁, w₂, hw₁, hy⟩ := foldlM_round h hrow hw (mem_forRange.mpr ⟨Nat.zero_le y, hy⟩)
  exact foldlM_round hy (fun w x w' => hstep w x y w') hw₁ (mem_forRange.mpr ⟨Nat.zero_le x, hx⟩)

/-- What the round of a pixel brings about and no later round undoes holds at the end. -/
theorem blit_sets {Q : VgaBuffer → Prop}
    (hstep : ∀ w x y w', I w → VgaBuffer.blitPixel pixels width y w x = .ok w' → I w')
    {x y : Nat} (hx : x < width) (hy : y < height)
    (hset : ∀ w w', I w → VgaBuffer.blitPixel pixels width y w x = .ok w' → Q w')
    (hkeep : ∀ w x' y' w', y < y' ∨ y = y' ∧ x < x' → I w → Q w →
      VgaBuffer.blitPixel pixels width y' w x' = .ok w' → Q w')
    (hw : I w) (h : w.blitRgb32 pixels width height = .ok w') : Q w' := by
  have hrow : ∀ w y w', I w → (List.range' 0 (width - 0)).foldlM (VgaBuffer.blitPixel pixels width y) w =
      .ok w' → I w' :=
    fun w y w' hw hrow => foldlM_keeps (fun w x w' _ hw hs => hstep w x y w' hw hs) hw hrow
  apply foldlM_sets List.pairwise_lt_range' (mem_forRange.mpr ⟨Nat.zero_le y, hy⟩) hrow
    (fun w w' hw hr => ?_) (fun w y' w' hlt hw hq hr => ?_) hw h
  · exact foldlM_sets List.pairwise_lt_range' (mem_forRange.mpr ⟨Nat.zero_le x, hx⟩)
      (fun w x' w' => hstep w x' y w')
      hset (fun w x' w' hlt => hkeep w x' y w' (.inr ⟨rfl, hlt⟩)) hw hr
  · have hboth : I w' ∧ Q w' := foldlM_keeps (I := fun w => I w ∧ Q w)
      (fun w x' w' _ hw hs => ⟨hstep w x' y' w' hw.1 hs, hkeep w x' y' w' (.inl hlt) hw.1 hw.2 hs⟩) ⟨hw, hq⟩ hr
    exact hboth.2

theorem blitPixel_eq_ok {x y : Nat} (h : VgaBuffer.blitPixel pixels width y w x = .ok w') :
    ∃ rgb, pixels[y * width + x]? = some rgb ∧ w.putPixel x y (unpack rgb).r (unpack rgb).g (unpack rgb).b =
    .ok w' := by
  unfold VgaBuffer.blitPixel at h
  obtain ⟨row, hrow, h⟩ := bind_eq_ok.mp h
  obtain ⟨-, rfl⟩ := VgaBuffer.umul_eq_ok.mp hrow
  obtain ⟨i, hi, h⟩ := bind_eq_ok.mp h
  obtain ⟨-, rfl⟩ := uadd_eq_ok.mp hi
  obtain ⟨rgb, hrgb, h⟩ := bind_eq_ok.mp h
  exact ⟨rgb, index_eq_ok.mp hrgb, h⟩

theorem blitPixel_same {x y : Nat} (h : VgaBuffer.blitPixel pixels width y w x = .ok w') : w.SameScreen w' := by
  obtain ⟨rgb, -, hput⟩ := blitPixel_eq_ok h
  exact VgaBuffer.putPixel_same hput

theorem blitPixel_of_get {x y : Nat} {rgb : BitVec 32} (hi : y * width + x < 2 ^ 64)
    (hget : pixels[y * width + x]? = some rgb) :
    VgaBuffer.blitPixel pixels width y w x = w.putPixel x y (unpack rgb).r (unpack rgb).g (unpack rgb).b := by
  have hindex : (index pixels (y * width + x) : Raw _) = .ok rgb := index_eq_ok.mpr hget
  unfold VgaBuffer.blitPixel
  rw [VgaBuffer.umul_of_lt (by omega), bind_ok, uadd_of_lt hi, bind_ok, hindex, bind_ok]

end

end WasmOs.Vga
