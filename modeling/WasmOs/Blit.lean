import WasmOs.Pixels

/-!
# Images on the screen

`blit_rgb32` writes the pixels of an image at the position computed from `x` and `y`, row after row. What it
leaves on the screen is the part of the image that fits, if no pixel beyond the edges lies in the buffer.
-/

namespace WasmOs.Vga

def InBuf (info : FrameBufferInfo) (bufLen p : Nat) : Prop := p * info.bytesPerPixel + info.bytesPerPixel ≤ bufLen

/-- The pixel is in the part of the image that fits on the screen. -/
def Visible (info : FrameBufferInfo) (width height x y : Nat) : Prop :=
  x < min width info.width ∧ y < min height info.height

def Covers (info : FrameBufferInfo) (x y k : Nat) : Prop :=
  offset info x y ≤ k ∧ k < offset info x y + info.bytesPerPixel

/-- `blit_rgb32` leaves the visible part of every image on the screen and changes nothing else. -/
def BlitClipped (info : FrameBufferInfo) (bufLen width height : Nat) : Prop :=
  ∀ (w : VgaBuffer) (pixels : List (BitVec 32)), w.info = info → w.bufLen = bufLen →
    pixels.length = width * height →
    ∃ w', w.blitRgb32 pixels width height = .ok w' ∧ w.SameScreen w' ∧
      (∀ x y rgb, Visible info width height x y → pixels[y * width + x]? = some rgb →
        ∀ c < 3, w'.buf (offset info x y + c) = (unpack rgb).bytes info.pixelFormat c) ∧
      ∀ k, (∀ x y, Visible info width height x y → ¬ Covers info x y k) → w'.buf k = w.buf k

/-- A wide image: the first pixel beyond the edge is not in the buffer, or rows join without padding and none
follows. -/
def NotWider (info : FrameBufferInfo) (bufLen width height : Nat) : Prop :=
  width ≤ info.width ∨ ¬ InBuf info bufLen info.width ∨
    (info.stride = info.width ∧ ¬ InBuf info bufLen (height * info.stride))

def NotTaller (info : FrameBufferInfo) (bufLen height : Nat) : Prop :=
  height ≤ info.height ∨ ¬ InBuf info bufLen (info.height * info.stride)

/-- The buffer holds the visible part, and no pixel beyond the edges. -/
def ImageFits (info : FrameBufferInfo) (bufLen width height : Nat) : Prop :=
  3 ≤ info.bytesPerPixel ∧ 0 < info.width ∧ 0 < info.height ∧
    InBuf info bufLen (pos info (min width info.width - 1) (min height info.height - 1)) ∧
    NotWider info bufLen width height ∧ NotTaller info bufLen height

/-- The image is empty; or its offsets fit, and the screen is empty and the buffer too, or the image fits. -/
def BlitFits (info : FrameBufferInfo) (bufLen width height : Nat) : Prop :=
  width = 0 ∨ height = 0 ∨
    (offset info (width - 1) (height - 1) + info.bytesPerPixel < 2 ^ 64 ∧
      ((info.width = 0 ∨ info.height = 0) ∧ bufLen < info.bytesPerPixel ∨ ImageFits info bufLen width height))

/-! ## Positions -/

section
variable {info : FrameBufferInfo} {bufLen width height x y x' y' p q : Nat}

theorem InBuf.mono (h : InBuf info bufLen q) (hpq : p ≤ q) : InBuf info bufLen p := by
  have hmul : p * info.bytesPerPixel ≤ q * info.bytesPerPixel := Nat.mul_le_mul_right _ hpq
  unfold InBuf at h ⊢
  omega

theorem lt_of_not_inBuf (h : InBuf info bufLen p) (hq : ¬ InBuf info bufLen q) : p < q := by
  by_contra hle
  exact hq (h.mono (Nat.le_of_not_lt hle))

theorem inBuf_iff : InBuf info bufLen (pos info x y) ↔ offset info x y + info.bytesPerPixel ≤ bufLen := Iff.rfl

theorem pos_le_pos (hx : x ≤ x') (hy : y ≤ y') : pos info x y ≤ pos info x' y' :=
  Nat.add_le_add (Nat.mul_le_mul_right _ hy) hx

theorem offset_le_offset (h : pos info x y ≤ pos info x' y') : offset info x y ≤ offset info x' y' :=
  Nat.mul_le_mul_right _ h

/-- Pixels at different positions do not share bytes. -/
theorem offset_lt_offset (h : pos info x y < pos info x' y') :
    offset info x y + info.bytesPerPixel ≤ offset info x' y' := by
  have hmul : (pos info x y + 1) * info.bytesPerPixel ≤ pos info x' y' * info.bytesPerPixel :=
    Nat.mul_le_mul_right _ h
  rw [Nat.succ_mul] at hmul
  exact hmul

theorem pos_lt_pos (hx : x < info.stride) (h : y < y' ∨ y = y' ∧ x < x') : pos info x y < pos info x' y' := by
  unfold pos
  obtain hlt | ⟨rfl, hlt⟩ := h
  · have hmul : (y + 1) * info.stride ≤ y' * info.stride := Nat.mul_le_mul_right _ hlt
    rw [Nat.succ_mul] at hmul
    omega
  · omega

theorem pos_eq_of_covers {k : Nat} (h : Covers info x y k) (h' : Covers info x' y' k) :
    pos info x y = pos info x' y' := by
  unfold Covers at h h'
  obtain hlt | heq | hlt := Nat.lt_trichotomy (pos info x y) (pos info x' y')
  · have := offset_lt_offset hlt
    omega
  · exact heq
  · have := offset_lt_offset hlt
    omega

def AllVisible (info : FrameBufferInfo) (bufLen width height : Nat) : Prop :=
  ∀ x y, x < width → y < height → InBuf info bufLen (pos info x y) →
    ∃ x' y', Visible info width height x' y' ∧ pos info x' y' = pos info x y

theorem allVisible_iff (hstride : info.width ≤ info.stride) (hw : 0 < info.width) (hwidth : 0 < width)
    (hheight : 0 < height) :
    AllVisible info bufLen width height ↔ NotWider info bufLen width height ∧ NotTaller info bufLen height := by
  constructor
  · intro h
    constructor
    · by_contra hwide
      simp only [NotWider, not_or, not_not, not_and, Nat.not_le] at hwide
      obtain ⟨hlt, hin, hpad⟩ := hwide
      have hfirst : pos info info.width 0 = info.width := by simp [pos]
      obtain ⟨x', y', ⟨hx', hy'⟩, heq⟩ := h info.width 0 hlt hheight (by rwa [hfirst])
      rw [hfirst] at heq
      -- the first pixel beyond the edge is the first of the next row, so there is no padding
      have hrow : y' = 1 := by
        obtain rfl | rfl | hy2 : y' = 0 ∨ y' = 1 ∨ 2 ≤ y' := by omega
        · rw [pos, Nat.zero_mul] at heq
          omega
        · rfl
        · have hmul : 2 * info.stride ≤ y' * info.stride := Nat.mul_le_mul_right _ hy2
          unfold pos at heq
          omega
      subst hrow
      have hsame : info.stride = info.width := by
        rw [pos, Nat.one_mul] at heq
        omega
      have hlast : pos info info.width (height - 1) = height * info.stride := by
        obtain ⟨n, rfl⟩ : ∃ n, height = n + 1 := ⟨height - 1, by omega⟩
        rw [pos, Nat.add_sub_cancel, Nat.succ_mul, hsame]
      obtain ⟨x'', y'', ⟨hx'', hy''⟩, heq⟩ :=
        h info.width (height - 1) hlt (by omega) (by rw [hlast]; exact hpad hsame)
      have hbelow : pos info x'' y'' < pos info 0 height := pos_lt_pos (by omega) (.inl (by omega))
      rw [heq, hlast] at hbelow
      exact Nat.lt_irrefl _ hbelow
    · by_contra htall
      simp only [NotTaller, not_or, not_not, Nat.not_le] at htall
      obtain ⟨hlt, hin⟩ := htall
      have hfirst : pos info 0 info.height = info.height * info.stride := Nat.add_zero _
      obtain ⟨x', y', ⟨hx', hy'⟩, heq⟩ := h 0 info.height hwidth hlt (by rwa [hfirst])
      have hbelow : pos info x' y' < pos info 0 info.height := pos_lt_pos (by omega) (.inl (by omega))
      omega
  · rintro ⟨hwide, htall⟩ x y hx hy hin
    have hrows : ∀ x' y', y' < height → pos info x' y' = pos info x y → y' < min height info.height := by
      intro x' y' hy' heq
      obtain hle | hend := htall
      · omega
      · have hlt : pos info x y < info.height * info.stride := lt_of_not_inBuf hin hend
        have hrow : y' * info.stride ≤ pos info x' y' := Nat.le_add_right ..
        have hy'' : y' < info.height := Nat.lt_of_mul_lt_mul_right (a := info.stride) (by omega)
        omega
    obtain hle | hedge | ⟨hsame, hlast⟩ := hwide
    · exact ⟨x, y, ⟨by omega, hrows x y hy rfl⟩, rfl⟩
    · have hlt : pos info x y < info.width := lt_of_not_inBuf hin hedge
      have hxle : x ≤ pos info x y := Nat.le_add_left ..
      exact ⟨x, y, ⟨by omega, hrows x y hy rfl⟩, rfl⟩
    · have hlt : pos info x y < height * info.stride := lt_of_not_inBuf hin hlast
      have hpos : pos info (pos info x y % info.stride) (pos info x y / info.stride) = pos info x y := by
        rw [pos, Nat.mul_comm]
        exact Nat.div_add_mod ..
      have hmod : pos info x y % info.stride < info.stride := Nat.mod_lt _ (by omega)
      have hdiv : pos info x y / info.stride < height := Nat.div_lt_of_lt_mul (by rwa [Nat.mul_comm])
      refine ⟨_, _, ⟨?_, hrows _ _ hdiv hpos⟩, hpos⟩
      have hmodle : pos info x y % info.stride ≤ x := by
        rw [pos, Nat.mul_add_mod_self_right]
        exact Nat.mod_le ..
      omega

end

/-! ## What an image leaves on the screen -/

section
variable {info : FrameBufferInfo} {bufLen width height : Nat}

/-- Every round of an image in memory is a `put_pixel`. -/
theorem blitPixel_put {pixels : List (BitVec 32)} (hlen : pixels.length = width * height)
    (hsize : width * height < 2 ^ 64)
    (w : VgaBuffer) {x y : Nat} (hx : x < width) (hy : y < height) : ∃ rgb, pixels[y * width + x]? = some rgb ∧
      VgaBuffer.blitPixel pixels width y w x = w.putPixel x y (unpack rgb).r (unpack rgb).g (unpack rgb).b := by
  have hi : y * width + x < width * height := by
    have hmul : (y + 1) * width ≤ height * width := Nat.mul_le_mul_right _ hy
    rw [Nat.succ_mul, Nat.mul_comm height] at hmul
    omega
  have hget := List.getElem?_eq_getElem (l := pixels) (i := y * width + x) (by omega)
  exact ⟨_, hget, blitPixel_of_get (by omega) hget⟩

theorem BlitFits.clipped (hstride : info.width ≤ info.stride) (hsize : 4 * (width * height) < 2 ^ 63)
    (h : BlitFits info bufLen width height) : BlitClipped info bufLen width height := by
  rintro w pixels rfl rfl hlen
  obtain hempty | ⟨hno, hfits⟩ : (width = 0 ∨ height = 0) ∨ _ := by
    rwa [BlitFits, ← or_assoc] at h
  · have hnone : ∀ x y, ¬ (x < width ∧ y < height) := by omega
    have hrun : ∃ w', w.blitRgb32 pixels width height = .ok w' ∧ w' = w :=
      blit_ok (fun _ x y hx hy _ => absurd ⟨hx, hy⟩ (hnone x y)) rfl
    obtain ⟨w', hrun, rfl⟩ := hrun
    refine ⟨w', hrun, .refl w', fun x y rgb hvis => ?_, fun _ _ => rfl⟩
    exact absurd ⟨Nat.lt_of_lt_of_le hvis.1 (Nat.min_le_left ..),
      Nat.lt_of_lt_of_le hvis.2 (Nat.min_le_left ..)⟩ (hnone x y)
  have hbpp : 1 ≤ w.info.bytesPerPixel := by
    obtain ⟨-, hlt⟩ | hthree := hfits
    · omega
    · exact Nat.le_trans (by decide) hthree.1
  have hthree : ∀ x y, InBuf w.info w.bufLen (pos w.info x y) → 3 ≤ w.info.bytesPerPixel := by
    intro x y hin
    obtain ⟨-, hlt⟩ | hthree := hfits
    · unfold InBuf at hin
      omega
    · exact hthree.1
  have hseen : AllVisible w.info w.bufLen width height := by
    intro x y hx hy hin
    obtain ⟨-, hlt⟩ | ⟨-, hw, -, -, hwide⟩ := hfits
    · unfold InBuf at hin
      omega
    · exact (allVisible_iff hstride hw (by omega) (by omega)).mpr hwide x y hx hy hin
  -- one round: the offset fits, and the pixel is skipped or painted
  have hround : ∀ v x y, x < width → y < height → w.SameScreen v → ∃ rgb, pixels[y * width + x]? = some rgb ∧
      VgaBuffer.blitPixel pixels width y v x = .ok (if w.bufLen < offset w.info x y + w.info.bytesPerPixel then v
        else { v with buf := painted v.buf (offset w.info x y) ((unpack rgb).bytes w.info.pixelFormat) }) := by
    intro v x y hx hy hv
    obtain ⟨rgb, hget, hput⟩ := blitPixel_put hlen (by omega) v hx hy
    have hle : offset w.info x y ≤ offset w.info (width - 1) (height - 1) :=
      offset_le_offset (pos_le_pos (by omega) (by omega))
    have hmax : offset w.info x y + w.info.bytesPerPixel < 2 ^ 64 := by omega
    have hbytes := hthree x y
    rw [inBuf_iff] at hbytes
    refine ⟨rgb, hget, hput.trans ?_⟩
    rw [← hv.info] at hbpp hmax hbytes ⊢
    rw [← hv.bufLen] at hbytes ⊢
    exact VgaBuffer.putPixel_ok (unpack rgb) hmax hbpp hbytes
  have hsame : ∀ v x y v', w.SameScreen v → VgaBuffer.blitPixel pixels width y v x = .ok v' → w.SameScreen v' :=
    fun _ _ _ _ hv hs => hv.trans (blitPixel_same hs)
  have hall : ∃ w', w.blitRgb32 pixels width height = .ok w' ∧ w.SameScreen w' := by
    apply blit_ok (fun v x y hx hy hv => ?_) (.refl w)
    obtain ⟨rgb, -, hok⟩ := hround v x y hx hy hv
    exact ⟨_, hok, hsame v x y _ hv hok⟩
  obtain ⟨w', hrun, hw'⟩ := hall
  refine ⟨w', hrun, hw', fun x y rgb hvis hget => ?_, fun k hk => ?_⟩
  · obtain ⟨hx, hy⟩ := hvis
    have hin : InBuf w.info w.bufLen (pos w.info x y) := by
      obtain ⟨hempty, -⟩ | ⟨-, -, -, hlast, -⟩ := hfits
      · omega
      · exact hlast.mono (pos_le_pos (by omega) (by omega))
    have hskip : ¬ w.bufLen < offset w.info x y + w.info.bytesPerPixel := Nat.not_lt.mpr (inBuf_iff.mp hin)
    have hbytes := hthree x y hin
    refine blit_sets (Q := fun v => ∀ c < 3, v.buf (offset w.info x y + c) =
      (unpack rgb).bytes w.info.pixelFormat c)
      (I := fun v => w.SameScreen v) hsame (x := x) (y := y) (by omega) (by omega) (fun v v' hv hs => ?_)
      (fun v x' y' v' hlater hv hq hs => ?_) (.refl w) hrun
    · obtain ⟨rgb', hget', hok⟩ := hround v x y (by omega) (by omega) hv
      rw [hs, if_neg hskip] at hok
      cases hok
      obtain rfl : rgb = rgb' := Option.some.inj (hget.symm.trans hget')
      intro c hc
      dsimp only
      rw [painted, if_pos (by omega), Nat.add_sub_cancel_left]
    · have hbelow := offset_lt_offset (pos_lt_pos (Nat.lt_of_lt_of_le (by omega) hstride) hlater)
      intro c hc
      obtain ⟨rgb', -, hput⟩ := blitPixel_eq_ok hs
      obtain ⟨-, ⟨-, rfl⟩ | ⟨-, -, rfl⟩⟩ := VgaBuffer.putPixel_eq_ok hput
      · exact hq c hc
      · dsimp only
        rw [painted, if_neg (by rw [hv.info]; omega)]
        exact hq c hc
  · -- a byte of no visible pixel stays as it was in every round
    refine (blit_keeps (I := fun v => w.SameScreen v ∧ v.buf k = w.buf k) (fun v x y v' hx hy hv hs => ?_)
      ⟨.refl w, rfl⟩ hrun).2
    refine ⟨hsame v x y v' hv.1 hs, ?_⟩
    obtain ⟨rgb, -, hok⟩ := hround v x y hx hy hv.1
    rw [hs] at hok
    by_cases hskip : w.bufLen < offset w.info x y + w.info.bytesPerPixel
    · rw [if_pos hskip] at hok
      cases hok
      exact hv.2
    · rw [if_neg hskip] at hok
      cases hok
      have hin : InBuf w.info w.bufLen (pos w.info x y) := inBuf_iff.mpr (Nat.le_of_not_lt hskip)
      obtain ⟨x', y', hvis, heq⟩ := hseen x y hx hy hin
      have hout := hk x' y' hvis
      have hbytes := hthree x y hin
      rw [Covers, offset, heq] at hout
      dsimp only
      rw [painted, if_neg (by unfold offset; omega)]
      exact hv.2

/-- What a white image leaves on a dark screen: the pixels in the buffer are white, and nothing else is. -/
theorem white_image {w' : VgaBuffer}
    (h : (dark info bufLen).blitRgb32 (List.replicate (width * height) WHITE_RGB) width height = .ok w') :
    (∀ x y, x < width → y < height → InBuf info bufLen (pos info x y) → w'.buf (offset info x y) = 255) ∧
      ∀ k, w'.buf k ≠ 0 → ∃ x y, x < width ∧ y < height ∧ InBuf info bufLen (pos info x y) ∧
        offset info x y ≤ k ∧ k < offset info x y + 3 := by
  have hround : ∀ w x y w', (dark info bufLen).SameScreen w →
      VgaBuffer.blitPixel (List.replicate (width * height) WHITE_RGB) width y w x = .ok w' →
      (bufLen < offset info x y + info.bytesPerPixel ∧ w' = w) ∨
        (InBuf info bufLen (pos info x y) ∧
        w' = { w with buf := painted w.buf (offset info x y) fun _ => 255 }) := by
    intro w x y w' hw hs
    obtain ⟨rgb, hrgb, hput⟩ := blitPixel_eq_ok hs
    obtain rfl : rgb = WHITE_RGB := List.eq_of_mem_replicate (List.mem_of_getElem? hrgb)
    have hinfo : w.info = info := hw.info
    have hlen : w.bufLen = bufLen := hw.bufLen
    have hwhite : (unpack WHITE_RGB).bytes w.info.pixelFormat = fun _ => 255 := funext fun i => white_bytes _ i
    obtain ⟨-, ⟨hlt, hsame⟩ | ⟨hin, -, rfl⟩⟩ := VgaBuffer.putPixel_eq_ok hput
    · rw [hinfo, hlen] at hlt
      exact .inl ⟨hlt, hsame⟩
    · rw [hinfo, hlen] at hin
      exact .inr ⟨hin, by rw [hwhite, hinfo]⟩
  have hsame : ∀ w x y w', (dark info bufLen).SameScreen w →
      VgaBuffer.blitPixel (List.replicate (width * height) WHITE_RGB) width y w x = .ok w' →
      (dark info bufLen).SameScreen w' :=
    fun _ _ _ _ hw hs => hw.trans (blitPixel_same hs)
  constructor
  · intro x y hx hy hin
    refine blit_sets (Q := fun w => w.buf (offset info x y) = 255)
      (I := fun w => (dark info bufLen).SameScreen w) hsame hx hy
      (fun w w' hw hs => ?_) (fun w x' y' w' _ hw hq hs => ?_) (.refl _) h
    · obtain ⟨hlt, -⟩ | ⟨-, rfl⟩ := hround w x y w' hw hs
      · exact absurd hlt (Nat.not_lt.mpr hin)
      · exact if_pos (by omega)
    · obtain ⟨-, rfl⟩ | ⟨-, rfl⟩ := hround w x' y' w' hw hs
      · exact hq
      · dsimp only
        unfold painted
        split
        · rfl
        · exact hq
  · refine (blit_keeps (I := fun w => (dark info bufLen).SameScreen w ∧ ∀ k, w.buf k ≠ 0 → ∃ x y, x < width ∧
      y < height ∧
      InBuf info bufLen (pos info x y) ∧ offset info x y ≤ k ∧ k < offset info x y + 3)
      (fun w x y w' hx hy hw hs => ⟨hsame w x y w' hw.1 hs, fun k hk => ?_⟩)
      ⟨.refl _, fun k hk => absurd rfl hk⟩ h).2
    obtain ⟨-, rfl⟩ | ⟨hin, rfl⟩ := hround w x y w' hw.1 hs
    · exact hw.2 k hk
    · by_cases hcov : offset info x y ≤ k ∧ k < offset info x y + 3
      · exact ⟨x, y, hx, hy, hin, hcov⟩
      · dsimp only at hk
        rw [painted, if_neg hcov] at hk
        exact hw.2 k hk

theorem BlitClipped.fits (hstride : info.width ≤ info.stride) (h : BlitClipped info bufLen width height) :
    BlitFits info bufLen width height := by
  by_cases hempty : width = 0 ∨ height = 0
  · rw [BlitFits, ← or_assoc]
    exact .inl hempty
  have hwidth : 0 < width := by omega
  have hheight : 0 < height := by omega
  right
  right
  have hlen : (List.replicate (width * height) WHITE_RGB).length = width * height := List.length_replicate
  obtain ⟨w', hrun, -, hshown, hkept⟩ := h (dark info bufLen) _ rfl rfl hlen
  obtain ⟨hwhite, hchanged⟩ := white_image hrun
  have hno : offset info (width - 1) (height - 1) + info.bytesPerPixel < 2 ^ 64 := by
    obtain ⟨w₁, w₂, hw₁, hs⟩ := blit_round hrun (I := fun w => (dark info bufLen).SameScreen w)
      (fun _ _ _ _ hw hs => hw.trans (blitPixel_same hs)) (.refl _) (x := width - 1) (y := height - 1)
        (by omega) (by omega)
    obtain ⟨rgb, -, hput⟩ := blitPixel_eq_ok hs
    have hno := (VgaBuffer.putPixel_eq_ok hput).1
    rwa [hw₁.info] at hno
  have hseen : ∀ x y, x < width → y < height → InBuf info bufLen (pos info x y) →
      ∃ x' y', Visible info width height x' y' ∧ Covers info x' y' (offset info x y) := by
    intro x y hx hy hin
    by_contra hnone
    push Not at hnone
    have hdark := hkept (offset info x y) hnone
    rw [hwhite x y hx hy hin] at hdark
    exact absurd hdark (by simp [dark, VgaBuffer.new])
  refine ⟨hno, ?_⟩
  have hfirst : InBuf info bufLen (pos info 0 0) ↔ info.bytesPerPixel ≤ bufLen := by simp [InBuf, pos]
  by_cases hscreen : info.width = 0 ∨ info.height = 0
  · left
    refine ⟨hscreen, ?_⟩
    by_contra hle
    obtain ⟨x', y', ⟨hx', hy'⟩, -⟩ := hseen 0 0 hwidth hheight (hfirst.mpr (Nat.le_of_not_lt hle))
    omega
  right
  have hlastVis : Visible info width height (min width info.width - 1) (min height info.height - 1) :=
    ⟨by omega, by omega⟩
  have hlastWhite : ∀ c < 3, w'.buf (offset info (min width info.width - 1) (min height info.height - 1) +
      c) = 255 := by
    intro c hc
    have hget : (List.replicate (width * height) WHITE_RGB)[(min height info.height - 1) * width +
        (min width info.width - 1)]? =
        some WHITE_RGB := by
      rw [List.getElem?_replicate, if_pos]
      have hmul : (min height info.height - 1 + 1) * width ≤ height * width := Nat.mul_le_mul_right _ (by omega)
      rw [Nat.succ_mul, Nat.mul_comm height] at hmul
      omega
    rw [hshown _ _ _ hlastVis hget c hc, white_bytes]
  have hthree : 3 ≤ info.bytesPerPixel := by
    -- the third byte of the last visible pixel is its own
    by_contra hlt
    have hout : ∀ x y, Visible info width height x y →
        ¬ Covers info x y (offset info (min width info.width - 1) (min height info.height - 1) + 2) := by
      rintro x y ⟨hx, hy⟩ ⟨-, hk⟩
      have hle : offset info x y ≤ offset info (min width info.width - 1) (min height info.height - 1) :=
        offset_le_offset (pos_le_pos (by omega) (by omega))
      omega
    have hdark := hkept _ hout
    rw [hlastWhite 2 (by decide)] at hdark
    exact absurd hdark (by simp [dark, VgaBuffer.new])
  have hlast : InBuf info bufLen (pos info (min width info.width - 1) (min height info.height - 1)) := by
    have hne := hlastWhite 0 (by decide)
    rw [Nat.add_zero] at hne
    obtain ⟨x, y, -, -, hin, hle, hlt⟩ := hchanged _ (by rw [hne]; decide)
    have hcov : Covers info x y (offset info (min width info.width - 1) (min height info.height - 1)) :=
      ⟨hle, by omega⟩
    rwa [pos_eq_of_covers (x := min width info.width - 1) (y := min height info.height - 1)
      ⟨Nat.le_refl _, by omega⟩ hcov]
  refine ⟨hthree, by omega, by omega, hlast, (allVisible_iff hstride (by omega) hwidth hheight).mp
    fun x y hx hy hin => ?_⟩
  obtain ⟨x', y', hvis, hcov⟩ := hseen x y hx hy hin
  exact ⟨x', y', hvis, pos_eq_of_covers hcov ⟨Nat.le_refl _, by omega⟩⟩

end

/-- For which pixels and images of a geometry the writes are clipped to the screen. -/
theorem pixels_clipped_iff (info : FrameBufferInfo) (bufLen : Nat) (hstride : info.width ≤ info.stride) :
    (∀ x y, SetPixelClipped info bufLen x y ↔ PixelFits info bufLen x y) ∧
      ∀ width height, 4 * (width * height) < 2 ^ 63 →
        (BlitClipped info bufLen width height ↔ BlitFits info bufLen width height) := by
  refine ⟨setPixel_iff info bufLen, fun width height hsize => ?_⟩
  exact ⟨fun h => h.fits hstride, fun h => h.clipped hstride hsize⟩

/-- A screen of eight by eight pixels. -/
def small : FrameBufferInfo := ⟨8, 8, 8, 4, .rgb⟩

theorem pixels_clipped_small : BlitClipped small 256 8 8 ↔ BlitFits small 256 8 8 :=
  (pixels_clipped_iff small 256 (by decide)).2 8 8 (by decide)

/-- The pixel right of the first row is the first of the second. -/
theorem pixel_not_clipped : ¬ ∀ info bufLen, info.width ≤ info.stride → (∀ x y, SetPixelClipped info bufLen x y) ∧
    ∀ width height, 4 * (width * height) < 2 ^ 63 → BlitClipped info bufLen width height := by
  intro h
  obtain ⟨w', hset, -, hchange⟩ := (h small 256 (by decide)).1 8 0 (dark small 256) WHITE_RGB rfl rfl
  have hput : (dark small 256).setPixel 8 0 WHITE_RGB =
      .ok { dark small 256 with buf := painted (fun _ => 0) 32 ((unpack WHITE_RGB).bytes .rgb) } :=
    VgaBuffer.putPixel_ok (w := dark small 256) (x := 8) (y := 0) (unpack WHITE_RGB) (by decide)
      (by decide) (by decide)
  rw [hput] at hset
  cases hset
  obtain ⟨⟨-, -, hx, -⟩, -⟩ := hchange 32 (by decide)
  exact absurd hx (by decide)

end WasmOs.Vga
