import WasmOs.HostSafe

/-!
# The host calls that panic

Which arguments, in which state of the kernel, make a registered host function panic.
-/

namespace WasmOs

open Hoare Net Runs

/-! ## Which arguments are fit -/

def Named (module name : List UInt8) (m : String) (names : List String) : Prop :=
  module = ascii m ∧ name ∈ names.map ascii

instance (module name : List UInt8) (m : String) (names : List String) : Decidable (Named module name m names) :=
  inferInstanceAs (Decidable (_ ∧ _))

section
variable {δ : Type} (D : Devices δ) (fuel : Nat) (module name : List UInt8) (memLen : Nat)
  (v : HostView (Traced (KernelState δ))) (a : Nat → BitVec 64)

/-- The texts that a call prints. -/
def printed : List (List UInt8) :=
  if Named module name "env" ["print"] then
    let bytes := slice v.mem (a 0).toNat (min (satAdd (a 0).toNat (a 1).toNat) memLen - (a 0).toNat)
    if validUtf8 bytes then [bytes] else []
  else if Named module name "env" ["print_int"] then (fmtInt 11 (lo32 (a 0)).toInt).toOption.elim [] lines
  else if Named module name "env" ["print_i64"] then (fmtInt 20 (a 0).toInt).toOption.elim [] lines
  else if Named module name "env" ["print_char"] then
    let c := UInt8.ofBitVec ((a 0).setWidth 8)
    if validUtf8 [c] then [[c]] else []
  else if Named module name "env" ["print_hex"] then lines (fmtHex (lo32 (a 0)))
  else if Named module name "env" ["read_line"] then
    if memLen < satAdd (a 0).toNat (a 1).toNat then [] else echoed (a 1).toNat fuel v.world.rest.keys 0
  else []

/-- The arguments that are not checked: where `print`, `udp_send` and `udp_recv` start to slice the memory,
the whole range of `send` and `recv`, the handles that are used to index the socket tables, the place of a
pixel and of the last one of an image, the alignment of an image, and the texts. -/
structure ArgsFit : Prop where
  print : Named module name "env" ["print"] → (a 0).toNat ≤ memLen
  stream : Named module name "net" ["send", "recv"] → satAdd (a 1).toNat (a 2).toNat ≤ memLen
  datagram : Named module name "net" ["udp_send", "udp_recv"] → (a 1).toNat ≤ memLen
  handle : Named module name "net" ["send", "recv", "close", "accept", "udp_send", "udp_recv"] →
    v.world.rest.network.isSome → (a 0).toNat < MAX_SOCKETS
  pixel : Named module name "env" ["fb_set_pixel"] → v.world.rest.console.PixelFits (lo32 (a 0)) (lo32 (a 1))
  image : Named module name "env" ["fb_blit"] →
    satAdd (a 0).toNat (satMul (satMul (a 1).toNat (a 2).toNat) 4) ≤ memLen →
    4 ∣ D.slotMem + (a 0).toNat ∧ v.world.rest.console.ImageFits (a 1).toNat (a 2).toNat
  texts : Says D.strings v.world.rest.console (printed fuel module name memLen v a)

end

section
variable {δ : Type} {D : Devices δ} {fuel : Nat} {module name : List UInt8} {memLen : Nat}
  {v : HostView (Traced (KernelState δ))} {a : Nat → BitVec 64}

theorem Named.mono {m : String} {names names' : List String} (h : Named module name m names)
    (hsub : names ⊆ names') :
    Named module name m names' :=
  ⟨h.1, List.map_subset ascii hsub h.2⟩

def PRINTING : List String := ["print", "print_int", "print_i64", "print_char", "print_hex", "read_line"]

theorem printed_quiet (h : ¬ Named module name "env" PRINTING) : printed fuel module name memLen v a = [] := by
  have hno : ∀ s ∈ PRINTING, ¬ Named module name "env" [s] := fun s hs hn => h (hn.mono (by simpa using hs))
  unfold printed
  rw [if_neg (hno _ (by decide)), if_neg (hno _ (by decide)), if_neg (hno _ (by decide)),
    if_neg (hno _ (by decide)),
    if_neg (hno _ (by decide)), if_neg (hno _ (by decide))]

theorem says_quiet {S : Strings} {c : Console} (h : ¬ Named module name "env" PRINTING) :
    Says S c (printed fuel module name memLen v a) := by
  rw [printed_quiet h]
  trivial

/-- The functions without a pointer or handle that is not checked. -/
theorem argsFit_texts (henv : ¬ Named module name "env" ["print", "fb_set_pixel", "fb_blit"])
    (hnet : ¬ Named module name "net" ["send", "recv", "close", "accept", "udp_send", "udp_recv"]) :
    ArgsFit D fuel module name memLen v a ↔
    Says D.strings v.world.rest.console (printed fuel module name memLen v a) := by
  refine ⟨ArgsFit.texts, fun h => ⟨fun hn => ?_, fun hn => ?_, fun hn => ?_, fun hn => ?_, fun hn => ?_,
    fun hn => ?_, h⟩⟩
  · exact absurd (hn.mono (by simp)) henv
  · exact absurd (hn.mono (by simp)) hnet
  · exact absurd (hn.mono (by simp)) hnet
  · exact absurd hn hnet
  · exact absurd (hn.mono (by simp)) henv
  · exact absurd (hn.mono (by simp)) henv

theorem argsFit_free (henv : ¬ Named module name "env" ("fb_set_pixel" :: "fb_blit" :: PRINTING))
    (hnet : ¬ Named module name "net" ["send", "recv", "close", "accept", "udp_send", "udp_recv"]) :
    ArgsFit D fuel module name memLen v a := by
  refine (argsFit_texts (fun hn => ?_) hnet).mpr (says_quiet fun hn => ?_)
  · exact henv (hn.mono (by decide))
  · exact henv (hn.mono (by decide))

theorem argsFit_print : ArgsFit D fuel (ascii "env") (ascii "print") memLen v a ↔
    (a 0).toNat ≤ memLen ∧ Says D.strings v.world.rest.console
    (printed fuel (ascii "env") (ascii "print") memLen v a) := by
  refine ⟨fun h => ⟨h.print (by decide), h.texts⟩, fun h => ⟨fun _ => h.1, fun hn => ?_, fun hn => ?_,
    fun hn => ?_, fun hn => ?_,
    fun hn => ?_, h.2⟩⟩
  · exact absurd hn (by decide)
  · exact absurd hn (by decide)
  · exact absurd hn (by decide)
  · exact absurd hn (by decide)
  · exact absurd hn (by decide)

theorem argsFit_pixel : ArgsFit D fuel (ascii "env") (ascii "fb_set_pixel") memLen v a ↔
    v.world.rest.console.PixelFits (lo32 (a 0)) (lo32 (a 1)) := by
  refine ⟨fun h => h.pixel (by decide), fun h => ⟨fun hn => ?_, fun hn => ?_, fun hn => ?_, fun hn => ?_,
    fun _ => h, fun hn => ?_,
    says_quiet (by decide)⟩⟩
  · exact absurd hn (by decide)
  · exact absurd hn (by decide)
  · exact absurd hn (by decide)
  · exact absurd hn (by decide)
  · exact absurd hn (by decide)

theorem argsFit_image : ArgsFit D fuel (ascii "env") (ascii "fb_blit") memLen v a ↔
    (satAdd (a 0).toNat (satMul (satMul (a 1).toNat (a 2).toNat) 4) ≤ memLen →
      4 ∣ D.slotMem + (a 0).toNat ∧ v.world.rest.console.ImageFits (a 1).toNat (a 2).toNat) := by
  refine ⟨fun h => h.image (by decide), fun h => ⟨fun hn => ?_, fun hn => ?_, fun hn => ?_, fun hn => ?_,
    fun hn => ?_, fun _ => h,
    says_quiet (by decide)⟩⟩
  · exact absurd hn (by decide)
  · exact absurd hn (by decide)
  · exact absurd hn (by decide)
  · exact absurd hn (by decide)
  · exact absurd hn (by decide)

theorem argsFit_net : ArgsFit D fuel (ascii "net") name memLen v a ↔
    (Named (ascii "net") name "net" ["send", "recv"] → satAdd (a 1).toNat (a 2).toNat ≤ memLen) ∧
      (Named (ascii "net") name "net" ["udp_send", "udp_recv"] → (a 1).toNat ≤ memLen) ∧
      (Named (ascii "net") name "net" ["send", "recv", "close", "accept", "udp_send", "udp_recv"] →
        v.world.rest.network.isSome → (a 0).toNat < MAX_SOCKETS) := by
  have hno : ∀ names, ¬ Named (ascii "net") name "env" names := fun names hn => absurd hn.1 (by decide)
  refine ⟨fun h => ⟨h.stream, h.datagram, h.handle⟩, fun ⟨hstream, hdatagram, hhandle⟩ => ?_⟩
  exact ⟨fun hn => absurd hn (hno _), hstream, hdatagram, hhandle, fun hn => absurd hn (hno _), fun hn =>
    absurd hn (hno _),
    says_quiet (hno _)⟩

theorem argsFit_stream (hname : name = ascii "send" ∨ name = ascii "recv") :
    ArgsFit D fuel (ascii "net") name memLen v a ↔
    satAdd (a 1).toNat (a 2).toNat ≤ memLen ∧ (v.world.rest.network.isSome → (a 0).toNat < MAX_SOCKETS) := by
  rw [argsFit_net]
  obtain rfl | rfl := hname
  · exact ⟨fun h => ⟨h.1 (by decide), h.2.2 (by decide)⟩, fun h =>
      ⟨fun _ => h.1, fun hn => absurd hn (by decide), fun _ => h.2⟩⟩
  · exact ⟨fun h => ⟨h.1 (by decide), h.2.2 (by decide)⟩, fun h =>
      ⟨fun _ => h.1, fun hn => absurd hn (by decide), fun _ => h.2⟩⟩

theorem argsFit_datagram (hname : name = ascii "udp_send" ∨ name = ascii "udp_recv") :
    ArgsFit D fuel (ascii "net") name memLen v a ↔
      (a 1).toNat ≤ memLen ∧ (v.world.rest.network.isSome → (a 0).toNat < MAX_SOCKETS) := by
  rw [argsFit_net]
  obtain rfl | rfl := hname
  · exact ⟨fun h => ⟨h.2.1 (by decide), h.2.2 (by decide)⟩, fun h =>
      ⟨fun hn => absurd hn (by decide), fun _ => h.1, fun _ => h.2⟩⟩
  · exact ⟨fun h => ⟨h.2.1 (by decide), h.2.2 (by decide)⟩, fun h =>
      ⟨fun hn => absurd hn (by decide), fun _ => h.1, fun _ => h.2⟩⟩

theorem argsFit_handle (hname : name = ascii "close" ∨ name = ascii "accept") :
    ArgsFit D fuel (ascii "net") name memLen v a ↔ (v.world.rest.network.isSome → (a 0).toNat < MAX_SOCKETS) := by
  rw [argsFit_net]
  obtain rfl | rfl := hname
  · exact ⟨fun h => h.2.2 (by decide), fun h =>
      ⟨fun hn => absurd hn (by decide), fun hn => absurd hn (by decide), fun _ => h⟩⟩
  · exact ⟨fun h => h.2.2 (by decide), fun h =>
      ⟨fun hn => absurd hn (by decide), fun hn => absurd hn (by decide), fun _ => h⟩⟩

end

section
variable {ω : Type} {e : HostEntry ω} {memLen : Nat} {v : HostView (Traced ω)} (hvsp : v.vsp ≤ STACK_DEPTH)
include hvsp

theorem room_after_pops {n : Nat} (hpos : 0 < n) (hn : n ≤ v.vsp) :
    ({ v with vsp := v.vsp - n } : HostView (Traced ω)).vsp < STACK_DEPTH := by
  show v.vsp - n < STACK_DEPTH
  omega

theorem callSafe_netCall {α : Type} {call : (Nat → BitVec 64) → ω → Rust Empty (α × ω)} {result : α → BitVec 64}
    (he : e.func = netCall e.params call result) (hpos : 0 < e.params) (hres : e.results = 1) :
    CallSafe e memLen v ↔ (e.params ≤ v.vsp → ∃ r, call (argsAt v e.params) v.world.rest = .ok r) := by
  refine (callSafe_iff hvsp (by rw [he]; rfl)).trans (forall_congr' fun hn => ?_)
  rw [hres]
  exact safe_service_push ⟨rfl, rfl⟩ (room_after_pops hvsp hpos hn)

theorem callSafe_netCall_ok {α : Type} {call : (Nat → BitVec 64) → ω → Rust Empty (α × ω)} {result : α → BitVec 64}
    (he : e.func = netCall e.params call result) (hpos : 0 < e.params) (hres : e.results = 1)
    (hcall : ∀ a, ∃ r, call a v.world.rest = .ok r) : CallSafe e memLen v :=
  (callSafe_netCall hvsp he hpos hres).mpr fun _ => hcall _

/-- `send` and `udp_send`, which differ in where the slice ends. -/
theorem callSafe_send {call : Nat → List UInt8 → ω → Rust Empty (Option Nat × ω)} {t : (Nat → BitVec 64) →
      Nat} {P : Prop}
    (he : e.func memLen = (popArgs e.params >>= fun a => readMem memLen (a 1).toNat (t a) >>= fun data =>
      service (call (a 0).toNat data) >>= fun r => pushHost (natOrMinusOne r)))
    (hpos : 0 < e.params) (hres : e.results = 1)
    (hcall : ∀ data, (∃ r, call (argsAt v e.params 0).toNat data v.world.rest = .ok r) ↔ P) :
    CallSafe e memLen v ↔ (e.params ≤ v.vsp →
      ((argsAt v e.params 1).toNat ≤ t (argsAt v e.params) ∧ t (argsAt v e.params) ≤ memLen) ∧ P) := by
  refine (callSafe_iff hvsp he).trans (forall_congr' fun hn => ?_)
  have hroom := room_after_pops hvsp hpos hn
  rw [HostSafe, wp_bind, hres]
  refine safe_readMem.trans (and_congr_right fun _ => ?_)
  refine (safe_service_push ?_ hroom).trans (hcall _)
  exact ⟨rfl, rfl⟩

/-- `recv` and `udp_recv`, which differ in where the slice ends. -/
theorem callSafe_recv {call : Nat → Nat → ω → Rust Empty (Option (List UInt8) × ω)} {t : (Nat → BitVec 64) → Nat}
    {failed : BitVec 64} {P : Prop}
    (he : e.func memLen = (popArgs e.params >>= fun a => sliceMem memLen (a 1).toNat (t a) >>= fun _ =>
      service (call (a 0).toNat (t a - (a 1).toNat)) >>= fun r => receive memLen (a 1).toNat failed r >>= pushHost))
    (hpos : 0 < e.params) (hres : e.results = 1)
    (hlen : ∀ {handle cap w data w'}, call handle cap w = .ok (some data, w') → data.length ≤ cap)
    (hcall : ∀ cap, (∃ r, call (argsAt v e.params 0).toNat cap v.world.rest = .ok r) ↔ P) :
    CallSafe e memLen v ↔ (e.params ≤ v.vsp →
      ((argsAt v e.params 1).toNat ≤ t (argsAt v e.params) ∧ t (argsAt v e.params) ≤ memLen) ∧ P) := by
  refine (callSafe_iff hvsp he).trans (forall_congr' fun hn => ?_)
  have hroom := room_after_pops hvsp hpos hn
  rw [HostSafe, wp_bind, hres]
  refine safe_sliceMem.trans (and_congr_right fun hin => ?_)
  exact (safe_service_receive ⟨rfl, rfl⟩ hroom (by omega) hlen).trans (hcall _)

end

theorem length_asPixels : ∀ (n : Nat) {bytes : List UInt8}, bytes.length = n * 4 → (asPixels bytes).length = n
  | 0, bytes, h => by
    rw [List.length_eq_zero_iff.mp (by omega : bytes.length = 0)]
    rfl
  | n + 1, b :: c :: d :: e :: bytes, h => by
    have hlen : bytes.length = n * 4 := by
      simp only [List.length_cons] at h
      omega
    rw [asPixels, List.length_cons, length_asPixels n hlen]
  | n + 1, [], h => by simp at h
  | n + 1, [_], h => by simp at h; omega
  | n + 1, [_, _], h => by simp at h; omega
  | n + 1, [_, _, _], h => by simp at h; omega

section
variable {δ : Type} {D : Devices δ} {e : HostEntry (KernelState δ)} {fuel memLen : Nat}
  {v₀ v : HostView (Traced (KernelState δ))}
  {a : Nat → BitVec 64}

/-! ## The functions that print -/

theorem speaks_valid {text : List UInt8} (hv : SameStack v₀ v) (hs : v.world.rest.console.Sound) :
    Speaks D v₀ v (if validUtf8 text then perform ((kernelServices D).print text) else pure ())
      (if validUtf8 text then [text] else []) := by
  split
  · exact speaks_last hv hs
  · exact speaks_pure hv ()

theorem speaks_number {cap : Nat} {n : Int} {line : List UInt8} (hv : SameStack v₀ v)
    (hs : v.world.rest.console.Sound) (hn : fmtInt cap n = .ok line) :
    Speaks D v₀ v (service (fun w => (fmtInt cap n).map (·, w)) >>= printLine (kernelServices D)) (lines line) := by
  intro Q hQ
  have hsay : HostSafe (printLine (kernelServices D) line) Q v ↔ _ := speaks_printLine hv hs Q hQ
  rw [HostSafe, wp_bind]
  refine safe_service.trans ?_
  rw [hn]
  constructor
  · rintro ⟨_, _, hline, h⟩
    cases hline
    exact hsay.mp h
  · intro h
    exact ⟨line, _, rfl, hsay.mpr h⟩

theorem printed_int {line : List UInt8} (hn : fmtInt 11 (lo32 (a 0)).toInt = .ok line) :
    printed fuel (ascii "env") (ascii "print_int") memLen v a = lines line := by
  unfold printed
  rw [if_neg (by decide), if_pos (by decide), hn]
  rfl

theorem printed_i64 {line : List UInt8} (hn : fmtInt 20 (a 0).toInt = .ok line) :
    printed fuel (ascii "env") (ascii "print_i64") memLen v a = lines line := by
  unfold printed
  rw [if_neg (by decide), if_neg (by decide), if_pos (by decide), hn]
  rfl

variable (hvsp : v.vsp ≤ STACK_DEPTH)
include hvsp

/-- A function without a result that prints and does nothing else. -/
theorem callSafe_speaks {f : (Nat → BitVec 64) → Host (KernelState δ) Unit} {texts : List (List UInt8)}
    (he : e.func memLen = (popArgs e.params >>= f)) (hres : e.results = 0)
    (hf : Speaks D { v with vsp := v.vsp - e.params } { v with vsp := v.vsp - e.params }
      (f (argsAt v e.params)) texts) :
    CallSafe e memLen v ↔ (e.params ≤ v.vsp → Says D.strings v.world.rest.console texts) := by
  refine (callSafe_iff hvsp he).trans (forall_congr' fun _ => ?_)
  refine hf _ fun _ v' hv' => ?_
  rw [hres]
  exact ⟨hv'.2, fun i _ => by rw [hv'.1]⟩

variable (hs : v.world.rest.console.Sound)
include hs

theorem callSafe_print {e : HostEntry (KernelState δ)} (he : e.func = hostPrint (kernelServices D))
    (hpar : e.params = 2) (hres : e.results = 0) :
    CallSafe e memLen v ↔
    (e.params ≤ v.vsp → ArgsFit D fuel (ascii "env") (ascii "print") memLen v (argsAt v e.params)) := by
  refine (callSafe_iff hvsp (by rw [he, hpar]; rfl)).trans (forall_congr' fun _ => ?_)
  rw [HostSafe, wp_bind, argsFit_print]
  refine safe_readMem.trans (and_congr (clipped_in_range (argsAt v e.params 0).isLt) ?_)
  refine speaks_valid (show SameStack { v with vsp := v.vsp - e.params } _ from ?_) ?_ _ fun _ v' hv' => ?_
  · exact ⟨rfl, rfl⟩
  · exact hs
  · rw [hres]
    exact ⟨hv'.2, fun i _ => by rw [hv'.1]⟩

theorem callSafe_readLine {e : HostEntry (KernelState δ)} (hfit : memLen < usizeMax)
    (hkeys : EnterWithin fuel v.world.rest)
    (he : e.func = hostReadLine (kernelServices D) fuel) (hpar : e.params = 2) (hres : e.results = 1) :
    CallSafe e memLen v ↔
      (e.params ≤ v.vsp →
        Says D.strings v.world.rest.console
      (printed fuel (ascii "env") (ascii "read_line") memLen v (argsAt v e.params))) := by
  refine (callSafe_iff hvsp (by rw [he, hpar]; rfl)).trans (forall_congr' fun hn => ?_)
  have hroom := room_after_pops hvsp (by omega) hn
  have htexts : printed fuel (ascii "env") (ascii "read_line") memLen v (argsAt v e.params) =
      if memLen < satAdd (argsAt v e.params 0).toNat (argsAt v e.params 1).toNat then []
      else echoed (argsAt v e.params 1).toNat fuel v.world.rest.keys 0 := rfl
  rw [HostSafe, htexts, hres, wp_ite]
  by_cases hin : memLen < satAdd (argsAt v e.params 0).toNat (argsAt v e.params 1).toNat
  · rw [if_pos hin]
    exact iff_of_true ⟨fun _ => safe_push ⟨rfl, rfl⟩ hroom, fun hout => absurd hin hout⟩ trivial
  · have hsum := satAdd_of_le hfit hin
    rw [if_neg hin, wp_bind]
    have hcap : (argsAt v e.params 0).toNat + (argsAt v e.params 1).toNat ≤ memLen := by omega
    have hpopped : SameStack { v with vsp := v.vsp - e.params } { v with vsp := v.vsp - e.params } := ⟨rfl, rfl⟩
    have hspeaks : Speaks D _ _ (hostReadLine.loop (kernelServices D) memLen _ _ fuel 0) _ :=
      speaks_readLine (v := { v with vsp := v.vsp - e.params }) hcap hkeys hpopped hs
    have hsay := hspeaks _ fun len v' hv' => safe_push (r := BitVec.ofNat 64 len) hv' hroom
    exact ⟨fun h => hsay.mp (h.2 hin), fun h => ⟨fun hout => absurd hout hin, fun _ => hsay.mpr h⟩⟩

/-! ## The functions of the screen -/

theorem callSafe_pixel {e : HostEntry (KernelState δ)} (he : e.func = hostFbSetPixel (kernelServices D))
    (hpar : e.params = 3) (hres : e.results = 0) :
    CallSafe e memLen v ↔
      (e.params ≤ v.vsp →
        v.world.rest.console.PixelFits (lo32 (argsAt v e.params 0)) (lo32 (argsAt v e.params 1))) := by
  refine (callSafe_iff hvsp (by rw [he, hpar]; rfl)).trans (forall_congr' fun _ => ?_)
  refine (safe_perform (f := fun c => c.setPixel _ _ _)).trans ?_
  constructor
  · rintro ⟨c, hc, -⟩
    exact Console.setPixel_fits hc
  · intro h
    obtain ⟨c, hc, -⟩ := Console.setPixel_ok hs h
    rw [hres]
    exact ⟨c, hc, rfl, fun i _ => rfl⟩

theorem callSafe_image {e : HostEntry (KernelState δ)} (hfit : memLen < usizeMax)
    (he : e.func = hostFbBlit (kernelServices D)) (hpar : e.params = 3) (hres : e.results = 0) :
    CallSafe e memLen v ↔
      (e.params ≤ v.vsp → ArgsFit D fuel (ascii "env") (ascii "fb_blit") memLen v (argsAt v e.params)) := by
  refine (callSafe_iff hvsp (by rw [he, hpar]; rfl)).trans (forall_congr' fun _ => ?_)
  rw [argsFit_image, HostSafe, wp_ite]
  generalize argsAt v e.params = a
  constructor
  · intro h hin
    have hdraw := h.2 (by omega)
    rw [wp_ite] at hdraw
    obtain ⟨hodd, hdraw⟩ := hdraw
    have haligned : 4 ∣ D.slotMem + (a 0).toNat := by
      by_contra hno
      obtain ⟨err, herr⟩ := hodd hno
      cases herr
    have hdraw := hdraw (not_not.mpr haligned)
    rw [wp_bind] at hdraw
    obtain ⟨-, hdraw⟩ := safe_readMem.mp hdraw
    obtain ⟨c, hc, -⟩ := (safe_perform (f := fun c => c.blitRgb32 _ _ _)).mp hdraw
    exact ⟨haligned, Console.blitRgb32_fits hc⟩
  · intro h
    refine ⟨fun _ => ?_, fun hin => ?_⟩
    · rw [hres]
      exact ⟨rfl, fun i _ => rfl⟩
    · have hsum := satAdd_of_le hfit hin
      obtain ⟨haligned, himage⟩ := h (by omega)
      -- the image is shorter than the memory, so its size is exact
      have hsize : satMul (satMul (a 1).toNat (a 2).toNat) 4 = (a 1).toNat * (a 2).toNat * 4 := by
        unfold satMul usizeMax at *
        omega
      rw [wp_ite]
      refine ⟨fun hno => absurd haligned hno, fun _ => ?_⟩
      rw [wp_bind]
      refine safe_readMem.mpr ⟨by omega, ?_⟩
      refine (safe_perform (f := fun c => c.blitRgb32 _ _ _)).mpr ?_
      have hpixels : (asPixels (slice v.mem (a 0).toNat
          ((a 0).toNat + satMul (satMul (a 1).toNat (a 2).toNat) 4 - (a 0).toNat))).length =
          (a 1).toNat * (a 2).toNat := by
        apply length_asPixels
        rw [slice_length, hsize]
        omega
      obtain ⟨c, hc, -⟩ := Console.blitRgb32_ok hs hpixels (by unfold usizeMax at hfit; omega) himage
      rw [hres]
      exact ⟨c, hc, rfl, fun i _ => rfl⟩

end

section
variable {δ : Type} (D : Devices δ) {fuel memLen : Nat} {v : HostView (Traced (KernelState δ))}

def idle : Devices Unit where
  strings := ⟨⟨0, ⟨0, rfl⟩, Nat.le_of_ble_eq_true rfl⟩, id, id⟩
  slotMem := 0
  uptimeMs _ := 0
  opcodeCount _ := 0
  sleepMs _ := id
  args _ := []
  fatWriteFile _ _ := id

def freshScreen : Console := ⟨0, some (.new (fun _ => 0) 512 Vga.twoLines)⟩

theorem freshScreen_reachable : freshScreen.Reachable idle.strings := by
  refine ⟨freshScreen, [], ⟨Nat.zero_le _, ?_⟩, rfl⟩
  rintro _ ⟨⟩
  exact ⟨_, Vga.twoLines_geometry, rfl⟩

/-- A kernel without a network, called with the values `a` and `b` on the stack. A command that moves the cursor
by two columns is at the start of the memory. -/
def calledWith (a b : BitVec 64) : HostView (Traced (KernelState Unit)) where
  vstack i := if i = 0 then a else b
  vsp := 2
  mem i := ([0x1B, 0x5B, 0x32, 0x43] : List UInt8).getD i 0
  world := ⟨[], ⟨fun _ => .enter, .init, 0, none, freshScreen, ()⟩⟩

def printEntry : HostEntry (KernelState Unit) where
  module := ascii "env"
  name := ascii "print"
  params := 2
  results := 0
  func := hostPrint (kernelServices idle)
  asked memLen a _ := clipped memLen (a 0).toNat (a 1).toNat

theorem printEntry_mem : printEntry ∈ hostRegistry (kernelServices idle) 1 := List.mem_cons_self ..

theorem cursor_command_fits : freshScreen.TextFits idle.strings [0x1B, 0x5B, 0x32, 0x43] := by
  refine ⟨by decide, fun _ => by decide, ?_⟩
  rintro _ ⟨⟩
  exact ⟨⟨fun _ => by decide, fun _ => by decide⟩, fun _ _ => trivial⟩

end

end WasmOs
