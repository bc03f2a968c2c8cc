import WasmOs.Blit
import WasmOs.Heap
import WasmOs.TerminalSound

/-!
# The console

`print!` formats its text into a `String` on the kernel heap, which gives nothing back, and hands it to the
screen. A call panics when the heap is full or when the cursor of the screen overflows.
-/

namespace WasmOs

open Runs Vga Heap

/-- The heap, and what a `String` takes of it in all: one that a text is written to at once, and one that gets its
characters one after the other. How a `String` grows is left to the `alloc` crate. -/
structure Strings where
  heap : HeapBuf
  written : Nat → Nat
  pushed : Nat → Nat

/-- `str::chars`, of valid UTF-8. -/
def strChars : List UInt8 → List Char
  | [] => []
  | b :: rest =>
    if b < 0x80 then Char.ofNat b.toNat :: strChars rest else
    match rest with
    | [] => []
    | c :: rest =>
      if b < 0xE0 then Char.ofNat ((b.toNat - 0xC0) * 64 + (c.toNat - 0x80)) :: strChars rest else
      match rest with
      | [] => []
      | d :: rest =>
        if b < 0xF0 then
          Char.ofNat (((b.toNat - 0xE0) * 64 + (c.toNat - 0x80)) * 64 + (d.toNat - 0x80)) :: strChars rest
        else
        match rest with
        | [] => []
        | e :: rest =>
          Char.ofNat ((((b.toNat - 0xF0) * 64 + (c.toNat - 0x80)) * 64 + (d.toNat - 0x80)) * 64 +
            (e.toNat - 0x80)) ::
            strChars rest

-- A round takes a character, as in `parseAnsi.loop`.
def Strings.params.loop (S : Strings) : Nat → List Char → Nat
  | 0, _ => 0
  | _ + 1, [] => 0
  | fuel + 1, c :: chars =>
    if c ≠ '\x1B' then Strings.params.loop S fuel chars
    else match chars with
      | [] => 0
      | d :: chars =>
        if d ≠ '[' then Strings.params.loop S fuel chars
        else S.pushed (chars.takeWhile VgaBuffer.isParam).length +
          match chars.dropWhile VgaBuffer.isParam with
          | [] => 0
          | _ :: rest => Strings.params.loop S fuel rest

/-- What the parameters of the escape sequences take, also those of a sequence that breaks off. -/
def Strings.params (S : Strings) (s : List Char) : Nat := Strings.params.loop S s.length s

/-- `HEAP_NEXT` and `WRITER`. -/
structure Console where
  heapNext : Nat
  screen : Option VgaBuffer

/-- A write outside the buffer of the screen counts as a panic. -/
def onScreen (m : Raw VgaBuffer) : Rust Empty VgaBuffer :=
  match m with
  | .ok w => .ok w
  | .error .hang => .error .hang
  | .error _ => .error .panic

namespace Console

variable (S : Strings)

/-- `_print`. The blocks for the parameters of all sequences come first here; in the source each comes right before
the command, with the same panics. -/
def print (c : Console) (text : List UInt8) : Rust Empty Console := do
  let next ← reserve S.heap c.heapNext (S.written text.length)
  match c.screen with
  | none => .ok { c with heapNext := next }
  | some w => do
    let next ← reserve S.heap next (S.params (strChars text))
    let w ← onScreen (w.parseAnsi (strChars text))
    .ok ⟨next, some w⟩

def withScreen (c : Console) (f : VgaBuffer → Raw VgaBuffer) : Rust Empty Console :=
  match c.screen with
  | none => .ok c
  | some w => do
    let w ← onScreen (f w)
    .ok { c with screen := some w }

def setPixel (c : Console) (x y rgb : BitVec 32) : Rust Empty Console := c.withScreen fun w => w.setPixel x y rgb

def blitRgb32 (c : Console) (pixels : List (BitVec 32)) (width height : Nat) : Rust Empty Console :=
  c.withScreen fun w => w.blitRgb32 pixels width height

def clearScreen (c : Console) : Rust Empty Console := c.withScreen VgaBuffer.clearScreen

inductive Op where
  | print (text : List UInt8)
  | setPixel (x y rgb : BitVec 32)
  | blitRgb32 (pixels : List (BitVec 32)) (width height : Nat)
  | clearScreen
  /-- A block for something else. -/
  | reserve (size : Nat)

def step (c : Console) : Op → Rust Empty Console
  | .print text => c.print S text
  | .setPixel x y rgb => c.setPixel x y rgb
  | .blitRgb32 pixels width height => c.blitRgb32 pixels width height
  | .clearScreen => c.clearScreen
  | .reserve size => do
    let next ← Heap.reserve S.heap c.heapNext size
    .ok { c with heapNext := next }

/-- After `init`, if there is a screen: of at least one character, with a buffer that it fills. -/
structure Booted (c : Console) : Prop where
  heapNext : c.heapNext ≤ HEAP_SIZE
  screen : ∀ w, c.screen = some w → ∃ buf, Geometry w.info w.bufLen ∧ w = .new buf w.bufLen w.info

def Reachable (c : Console) : Prop :=
  ∃ (start : Console) (ops : List Op), start.Booted ∧ runAll (step S) start ops = .ok c

structure Sound (c : Console) : Prop where
  heapNext : c.heapNext ≤ HEAP_SIZE
  screen : ∀ w, c.screen = some w → w.Sound

/-! ## Where the console does not panic -/

/-- The heap holds the strings, and on the screen every escape sequence fits. -/
structure TextFits (c : Console) (text : List UInt8) : Prop where
  heap : c.heapNext + S.written text.length ≤ HEAP_SIZE
  params : c.screen.isSome → c.heapNext + S.written text.length + S.params (strChars text) ≤ HEAP_SIZE
  cursor : ∀ w, c.screen = some w → PiecesFit w (strChars text)

/-- A coordinate is negative, or the end of the pixel fits a `usize`. -/
def PixelFits (c : Console) (x y : BitVec 32) : Prop :=
  ∀ w, c.screen = some w → x.toInt < 0 ∨ y.toInt < 0 ∨ offset w.info x.toNat y.toNat + w.info.bytesPerPixel < 2 ^ 64

/-- The image is empty, or the end of its last pixel fits a `usize`. -/
def ImageFits (c : Console) (width height : Nat) : Prop :=
  ∀ w, c.screen = some w → width = 0 ∨ height = 0 ∨
    offset w.info (width - 1) (height - 1) + w.info.bytesPerPixel < 2 ^ 64

end Console

section
variable {m : Raw VgaBuffer} {w : VgaBuffer}

theorem onScreen_eq_ok : onScreen m = .ok w ↔ m = .ok w := by
  unfold onScreen
  split <;> simp

end

namespace Console

variable {S : Strings} {c c' : Console}

theorem withScreen_eq_ok {f : VgaBuffer → Raw VgaBuffer} (h : c.withScreen f = .ok c') :
    c.heapNext = c'.heapNext ∧
      ∀ w, c.screen = some w → ∃ w', f w = .ok w' ∧ c'.screen = some w' := by
  unfold withScreen at h
  cases hs : c.screen with
  | none =>
    rw [hs] at h
    cases h
    exact ⟨rfl, nofun⟩
  | some w =>
    rw [hs] at h
    obtain ⟨w', hw', h⟩ := bind_eq_ok.mp h
    cases h
    refine ⟨rfl, ?_⟩
    rintro _ ⟨⟩
    exact ⟨w', onScreen_eq_ok.mp hw', rfl⟩

theorem withScreen_ok {f : VgaBuffer → Raw VgaBuffer} (h : c.Sound)
    (hf : ∀ w, c.screen = some w → VgaBuffer.Safe (f w)) :
    ∃ c', c.withScreen f = .ok c' ∧ c'.Sound := by
  unfold withScreen
  cases hs : c.screen with
  | none => exact ⟨c, rfl, h⟩
  | some w =>
    obtain ⟨w', hw', hsound⟩ := hf w hs
    refine ⟨{ c with screen := some w' }, ?_, h.heapNext, ?_⟩
    · dsimp only
      rw [onScreen_eq_ok.mpr hw']
      rfl
    · rintro _ ⟨⟩
      exact hsound

/-! ### Text -/

theorem print_fits (h : c.Sound) {text : List UInt8} (hc : c.print S text = .ok c') : c.TextFits S text := by
  unfold print at hc
  obtain ⟨next, hnext, hc⟩ := bind_eq_ok.mp hc
  obtain ⟨hfit, rfl⟩ := (reserve_iff S.heap h.heapNext).mp hnext
  cases hs : c.screen with
  | none => exact ⟨hfit, by simp [hs], by simp [hs]⟩
  | some w =>
    rw [hs] at hc
    obtain ⟨next, hnext, hc⟩ := bind_eq_ok.mp hc
    obtain ⟨w', hw', -⟩ := bind_eq_ok.mp hc
    refine ⟨hfit, fun _ => ((reserve_iff S.heap hfit).mp hnext).1, ?_⟩
    rw [hs]
    rintro _ ⟨⟩
    exact piecesFit_of_parseAnsi (onScreen_eq_ok.mp hw')

theorem print_ok (h : c.Sound) {text : List UInt8} (hfit : c.TextFits S text) :
    ∃ c', c.print S text = .ok c' ∧ c'.Sound := by
  have hnext := (reserve_iff S.heap h.heapNext).mpr ⟨hfit.heap, rfl⟩
  unfold print
  rw [hnext, bind_ok]
  cases hs : c.screen with
  | none => exact ⟨_, rfl, hfit.heap, by simp⟩
  | some w =>
    have hroom := hfit.params (by rw [hs]; rfl)
    have hparams := (reserve_iff S.heap hfit.heap).mpr ⟨hroom, rfl⟩
    obtain ⟨w', hw', hsound⟩ := (h.screen w hs).parseAnsi (hfit.cursor w hs)
    refine ⟨⟨_, some w'⟩, ?_, hroom, ?_⟩
    · dsimp only
      rw [hparams, bind_ok, onScreen_eq_ok.mpr hw']
      rfl
    · rintro _ ⟨⟩
      exact hsound

/-! ### Pixels -/

theorem setPixel_fits {x y rgb : BitVec 32} (hc : c.setPixel x y rgb = .ok c') : c.PixelFits x y := by
  intro w hw
  obtain ⟨w', hset, -⟩ := (withScreen_eq_ok hc).2 w hw
  by_cases hneg : x.toInt < 0 ∨ y.toInt < 0
  · exact hneg.elim .inl fun hy => .inr (.inl hy)
  · rw [VgaBuffer.setPixel, if_neg hneg] at hset
    exact .inr (.inr (VgaBuffer.putPixel_eq_ok hset).1)

theorem setPixel_ok (h : c.Sound) {x y rgb : BitVec 32} (hfit : c.PixelFits x y) :
    ∃ c', c.setPixel x y rgb = .ok c' ∧ c'.Sound := by
  apply withScreen_ok h
  intro w hw
  have hsound := h.screen w hw
  have hthree := hsound.geometry.bytesPerPixel
  unfold VgaBuffer.setPixel
  refine .ite (fun _ => ⟨w, rfl, hsound⟩) fun hneg => ?_
  have hend := (hfit w hw).resolve_left fun hx => hneg (.inl hx)
  have hput :=
    VgaBuffer.putPixel_ok (unpack rgb) (hend.resolve_left fun hy => hneg (.inr hy)) (by omega) fun _ => hthree
  exact ⟨_, hput, hsound.drawn (VgaBuffer.putPixel_same hput)⟩

theorem blitRgb32_fits {pixels : List (BitVec 32)} {width height : Nat}
    (hc : c.blitRgb32 pixels width height = .ok c') :
    c.ImageFits width height := by
  intro w hw
  obtain ⟨w', hblit, -⟩ := (withScreen_eq_ok hc).2 w hw
  by_cases hwidth : width = 0
  · exact .inl hwidth
  · by_cases hheight : height = 0
    · exact .inr (.inl hheight)
    · obtain ⟨w₁, w₂, hsame, hround⟩ :=
        blit_round (I := w.SameScreen) hblit (fun _ _ _ _ hs hp => hs.trans (blitPixel_same hp))
        (.refl w) (Nat.sub_one_lt hwidth) (Nat.sub_one_lt hheight)
      obtain ⟨rgb, -, hput⟩ := blitPixel_eq_ok hround
      have hend := (VgaBuffer.putPixel_eq_ok hput).1
      rw [hsame.info] at hend
      exact .inr (.inr hend)

theorem blitRgb32_ok (h : c.Sound) {pixels : List (BitVec 32)} {width height : Nat}
    (hlen : pixels.length = width * height)
    (hsize : width * height < 2 ^ 64) (hfit : c.ImageFits width height) :
    ∃ c', c.blitRgb32 pixels width height = .ok c' ∧ c'.Sound := by
  apply withScreen_ok h
  intro w hw
  have hsound := h.screen w hw
  have hthree := hsound.geometry.bytesPerPixel
  have hstep : ∀ w₁ x y, x < width → y < height → w.SameScreen w₁ →
      ∃ w₂, VgaBuffer.blitPixel pixels width y w₁ x = .ok w₂ ∧ w.SameScreen w₂ := by
    intro w₁ x y hx hy hsame
    obtain ⟨rgb, -, hput⟩ := blitPixel_put hlen hsize w₁ hx hy
    -- no pixel ends behind the last one
    have hle : offset w.info x y ≤ offset w.info (width - 1) (height - 1) :=
      offset_le_offset (pos_le_pos (by omega) (by omega))
    have hend : offset w₁.info x y + w₁.info.bytesPerPixel < 2 ^ 64 := by
      rw [hsame.info]
      obtain hempty | hempty | hlast := hfit w hw
      · omega
      · omega
      · omega
    have hbpp : 3 ≤ w₁.info.bytesPerPixel := by
      rw [hsame.info]
      exact hthree
    rw [hput]
    have hput := VgaBuffer.putPixel_ok (unpack rgb) hend (by omega) fun _ => hbpp
    exact ⟨_, hput, hsame.trans (VgaBuffer.putPixel_same hput)⟩
  obtain ⟨w', hblit, hsame⟩ := blit_ok hstep (.refl w)
  exact ⟨w', hblit, hsound.drawn hsame⟩

/-! ### Every reachable console -/

theorem step_sound (h : c.Sound) {op : Op} (hc : step S c op = .ok c') : c'.Sound := by
  have hscreen : ∀ {f : VgaBuffer → Raw VgaBuffer}, c.withScreen f = .ok c' →
      (∀ w w', w.Sound → f w = .ok w' → w'.Sound) → c'.Sound := by
    intro f hf hkeep
    obtain ⟨hnext, hsome⟩ := withScreen_eq_ok hf
    refine ⟨hnext ▸ h.heapNext, fun w' hw' => ?_⟩
    cases hs : c.screen with
    | none =>
      unfold withScreen at hf
      rw [hs] at hf
      cases hf
      rw [hs] at hw'
      cases hw'
    | some w =>
      obtain ⟨v, hv, hc'⟩ := hsome w hs
      cases hc'.symm.trans hw'
      exact hkeep w _ (h.screen w hs) hv
  cases op with
  | print text =>
    obtain ⟨c₁, hc₁, hsound⟩ := print_ok h (print_fits h hc)
    cases hc₁.symm.trans hc
    exact hsound
  | setPixel x y rgb =>
    obtain ⟨c₁, hc₁, hsound⟩ := setPixel_ok h (setPixel_fits hc)
    cases hc₁.symm.trans hc
    exact hsound
  | blitRgb32 pixels width height =>
    refine hscreen hc fun w w' hw hblit => hw.drawn ?_
    exact blit_keeps (fun _ _ _ _ _ _ hs hp => hs.trans (blitPixel_same hp)) (.refl w) hblit
  | clearScreen =>
    refine hscreen hc fun w w' hw hclear => ?_
    obtain ⟨v, hv, hs⟩ := VgaBuffer.draws_fill (w := w) 0 w.bufLen (by omega)
    unfold VgaBuffer.clearScreen at hclear
    rw [hv, bind_ok] at hclear
    cases hclear
    exact (hw.drawn hs).moved (hw.drawn hs).geometry.rows_pos (hw.drawn hs).geometry.cols_pos
  | reserve size =>
    obtain ⟨next, hnext, hc⟩ := bind_eq_ok.mp hc
    cases hc
    obtain ⟨hfit, rfl⟩ := (reserve_iff S.heap h.heapNext).mp hnext
    exact ⟨hfit, h.screen⟩

theorem Booted.sound (h : c.Booted) : c.Sound := by
  refine ⟨h.heapNext, fun w hw => ?_⟩
  obtain ⟨buf, hg, heq⟩ := h.screen w hw
  rw [heq]
  exact hg.new buf

theorem Reachable.sound (h : c.Reachable S) : c.Sound := by
  obtain ⟨start, ops, hstart, hrun⟩ := h
  have hall : Always (step S) Sound start ops :=
    AllSteps.always (C := fun _ _ => True) (fun _ _ _ hs _ hc => step_sound hs hc) hstart.sound
      (allSteps_of_forall fun _ _ _ => trivial)
  exact hall.last hrun

end Console

end WasmOs
