import WasmOs.Fault

/-!
# Page tables

The page-table walks of `memory/mod.rs` and `make_jit_executable` of `jit/mod.rs`, over a physical memory in
which anything may stand. Opening the pages of the code buffer changes the flags of their entries only, so
no address is translated differently afterwards, whichever tables share memory.
-/

namespace WasmOs.Paging

/-- Physical memory by the addresses of its 8-byte words, and the register with the root table. -/
structure Mmu where
  mem : UInt64 → UInt64
  cr3 : UInt64

def FRAME : UInt64 := 0x000FFFFFFFFFF000
def FRAME_2M : UInt64 := 0x000FFFFFFFE00000
def FRAME_1G : UInt64 := 0x000FFFFFC0000000

/-- Bit 7 -/
def HUGE : UInt64 := 0x80

/-- Bit 63 -/
def NX : UInt64 := 0x8000000000000000

namespace Mmu

def readPhysU64 (m : Mmu) (phys : UInt64) : UInt64 := m.mem phys

def writePhysU64 (m : Mmu) (phys val : UInt64) : Mmu := { m with mem := fun a => if a = phys then val else m.mem a }

/-- The entry of a table for `v`, at the level whose index starts at bit `shift`. -/
def entryAt (table v shift : UInt64) : UInt64 := table + ((v >>> shift) &&& 0x1FF) * 8

/-- Where the entry of a 4 KiB page stands, and the entry. -/
def findPte (m : Mmu) (v : UInt64) : Option (UInt64 × UInt64) :=
  let pml4e := m.readPhysU64 (entryAt (m.cr3 &&& ~~~0xFFF) v 39)
  if pml4e &&& 1 = 0 then none
  else
    let pdpte := m.readPhysU64 (entryAt (pml4e &&& FRAME) v 30)
    if pdpte &&& 1 = 0 then none
    else if pdpte &&& HUGE ≠ 0 then none
    else
      let pde := m.readPhysU64 (entryAt (pdpte &&& FRAME) v 21)
      if pde &&& 1 = 0 then none
      else if pde &&& HUGE ≠ 0 then none
      else
        let ptePhys := entryAt (pde &&& FRAME) v 12
        some (ptePhys, m.readPhysU64 ptePhys)

/-- An address that is not mapped makes the kernel loop. -/
def virtToPhys (m : Mmu) (v : UInt64) : Rust Empty UInt64 :=
  let pml4e := m.readPhysU64 (entryAt (m.cr3 &&& ~~~0xFFF) v 39)
  if pml4e &&& 1 = 0 then .error .hang
  else
    let pdpte := m.readPhysU64 (entryAt (pml4e &&& FRAME) v 30)
    if pdpte &&& 1 = 0 then .error .hang
    else if pdpte &&& HUGE ≠ 0 then .ok ((pdpte &&& FRAME_1G) ||| (v &&& 0x3FFFFFFF))
    else
      let pde := m.readPhysU64 (entryAt (pdpte &&& FRAME) v 21)
      if pde &&& 1 = 0 then .error .hang
      else if pde &&& HUGE ≠ 0 then .ok ((pde &&& FRAME_2M) ||| (v &&& 0x001FFFFF))
      else
        let pte := m.readPhysU64 (entryAt (pde &&& FRAME) v 12)
        if pte &&& 1 = 0 then .error .hang
        else .ok ((pte &&& FRAME) ||| (v &&& 0xFFF))

def openEntry (pte : UInt64) : UInt64 := (pte ||| 0x3) &&& ~~~NX

def openPage (m : Mmu) (virt : UInt64) : Mmu :=
  match m.findPte virt with
  | some (ptePhys, pteVal) => m.writePhysU64 ptePhys (openEntry pteVal)
  | none => m

def jitPage (base : UInt64) (i : Nat) : UInt64 := base + UInt64.ofNat i * 4096

/-- `pages` is `JIT_BUF_SIZE.div_ceil(4096)`. -/
def makeJitExecutable (m : Mmu) (base : UInt64) (pages : Nat) : Mmu :=
  (List.range pages).foldl (fun m i => m.openPage (jitPage base i)) m

end Mmu

/-! ## Entries -/

section
variable {e a c mask : UInt64}

theorem open_keeps (e : UInt64) (ha : mask &&& a = 0) (hc : mask &&& c = 0) :
    ((e ||| a) &&& ~~~c) &&& mask = e &&& mask := by
  apply UInt64.toBitVec_inj.mp
  ext i hi
  have hai := congrArg (fun x => x.toBitVec[i]) ha
  have hci := congrArg (fun x => x.toBitVec[i]) hc
  simp at hai hci ⊢
  cases hm : mask.toBitVec[i]
  · simp
  · simp [hai hm, hci hm]

theorem open_sets (e : UInt64) (hac : a &&& c = 0) : ((e ||| a) &&& ~~~c) &&& a = a := by
  apply UInt64.toBitVec_inj.mp
  ext i hi
  have hi' := congrArg (fun x => x.toBitVec[i]) hac
  simp at hi' ⊢
  intro h
  exact ⟨.inr h, hi' h⟩

theorem open_clears (e a c : UInt64) : ((e ||| a) &&& ~~~c) &&& c = 0 := by
  apply UInt64.toBitVec_inj.mp
  ext i hi
  simp

end

def Executable (pte : UInt64) : Prop := pte &&& 0x3 = 0x3 ∧ pte &&& NX = 0

/-- What opening may do to an entry: the bits that a walk reads stay, but for the present bit, which may
only be set. -/
structure Opens (e e' : UInt64) : Prop where
  keeps : ∀ mask, mask &&& 0x3 = 0 → mask &&& NX = 0 → e' &&& mask = e &&& mask
  present : e &&& 1 ≠ 0 → e' &&& 1 ≠ 0
  executable : Executable e → Executable e'

theorem openEntry_executable (e : UInt64) : Executable (Mmu.openEntry e) :=
  ⟨open_sets e (by decide), open_clears e 0x3 NX⟩

theorem Executable.present {e : UInt64} (h : Executable e) : e &&& 1 ≠ 0 := by
  intro h0
  have hand : e &&& (0x3 &&& 1) = 0x3 &&& 1 := by rw [← UInt64.and_assoc, h.1]
  rw [show (0x3 &&& 1 : UInt64) = 1 from by decide, h0] at hand
  exact absurd hand (by decide)

namespace Opens

theorem refl (e : UInt64) : Opens e e := ⟨fun _ _ _ => rfl, id, id⟩

theorem trans {e e' e'' : UInt64} (h : Opens e e') (h' : Opens e' e'') : Opens e e'' :=
  ⟨fun mask h3 hnx => (h'.keeps mask h3 hnx).trans (h.keeps mask h3 hnx), fun hp => h'.present (h.present hp),
    fun hx => h'.executable (h.executable hx)⟩

theorem openEntry (e : UInt64) : Opens e (Mmu.openEntry e) :=
  ⟨fun _ h3 hnx => open_keeps e h3 hnx, fun _ => (openEntry_executable e).present, fun _ => openEntry_executable e⟩

variable {e e' : UInt64} (h : Opens e e')
include h

theorem frame : e' &&& FRAME = e &&& FRAME := h.keeps FRAME (by decide) (by decide)
theorem frame2M : e' &&& FRAME_2M = e &&& FRAME_2M := h.keeps FRAME_2M (by decide) (by decide)
theorem frame1G : e' &&& FRAME_1G = e &&& FRAME_1G := h.keeps FRAME_1G (by decide) (by decide)
theorem huge : e' &&& HUGE = e &&& HUGE := h.keeps HUGE (by decide) (by decide)

end Opens

/-! ## Opening changes no translation -/

/-- `m'` is `m` with some entries opened. -/
structure Mmu.Le (m m' : Mmu) : Prop where
  cr3 : m'.cr3 = m.cr3
  mem : ∀ a, Opens (m.mem a) (m'.mem a)

namespace Mmu
variable {m m' m'' : Mmu} {v : UInt64}

theorem Le.refl (m : Mmu) : m.Le m := ⟨rfl, fun _ => .refl _⟩

theorem Le.trans (h : m.Le m') (h' : m'.Le m'') :
    m.Le m'' := ⟨h'.cr3.trans h.cr3, fun a => (h.mem a).trans (h'.mem a)⟩

theorem openPage_le (m : Mmu) (v : UInt64) : m.Le (m.openPage v) := by
  unfold openPage
  split
  · rename_i ptePhys pteVal hpte
    refine ⟨rfl, fun a => ?_⟩
    show Opens (m.mem a) (if a = ptePhys then openEntry pteVal else m.mem a)
    split
    · rename_i ha
      have hval : pteVal = m.mem ptePhys := by
        unfold findPte at hpte
        simp only at hpte
        repeat' split at hpte
        all_goals cases hpte
        rfl
      rw [ha, hval]
      exact .openEntry _
    · exact .refl _
  · exact .refl m

/-- The walk takes the same way through opened entries. -/
theorem Le.findPte {ptePhys pteVal : UInt64} (h : m.Le m') (hpte : m.findPte v = some (ptePhys, pteVal)) :
    m'.findPte v = some (ptePhys, m'.mem ptePhys) := by
  unfold Mmu.findPte readPhysU64 at hpte ⊢
  simp only [h.cr3] at hpte ⊢
  have h4 := h.mem (entryAt (m.cr3 &&& ~~~0xFFF) v 39)
  split at hpte
  · cases hpte
  · rename_i hp4
    rw [if_neg (h4.present hp4), h4.frame]
    have h3 := h.mem (entryAt (m.mem (entryAt (m.cr3 &&& ~~~0xFFF) v 39) &&& FRAME) v 30)
    split at hpte
    · cases hpte
    · rename_i hp3
      rw [if_neg (h3.present hp3), h3.huge, h3.frame]
      split at hpte
      · cases hpte
      · rename_i hh3
        rw [if_neg hh3]
        have h2 :=
          h.mem (entryAt (m.mem (entryAt (m.mem (entryAt (m.cr3 &&& ~~~0xFFF) v 39) &&& FRAME) v 30) &&&
            FRAME) v 21)
        split at hpte
        · cases hpte
        · rename_i hp2
          rw [if_neg (h2.present hp2), h2.huge, h2.frame]
          split at hpte
          · cases hpte
          · rename_i hh2
            rw [if_neg hh2]
            cases hpte
            rfl

theorem Le.virtToPhys {p : UInt64} (h : m.Le m') (hv : m.virtToPhys v = .ok p) : m'.virtToPhys v = .ok p := by
  unfold Mmu.virtToPhys readPhysU64 at hv ⊢
  simp only [h.cr3] at hv ⊢
  have h4 := h.mem (entryAt (m.cr3 &&& ~~~0xFFF) v 39)
  split at hv
  · cases hv
  · rename_i hp4
    rw [if_neg (h4.present hp4), h4.frame]
    have h3 := h.mem (entryAt (m.mem (entryAt (m.cr3 &&& ~~~0xFFF) v 39) &&& FRAME) v 30)
    split at hv
    · cases hv
    · rename_i hp3
      rw [if_neg (h3.present hp3), h3.huge, h3.frame, h3.frame1G]
      split at hv
      · rename_i hh3
        rw [if_pos hh3]
        exact hv
      · rename_i hh3
        rw [if_neg hh3]
        have h2 :=
          h.mem (entryAt (m.mem (entryAt (m.mem (entryAt (m.cr3 &&& ~~~0xFFF) v 39) &&& FRAME) v 30) &&&
            FRAME) v 21)
        split at hv
        · cases hv
        · rename_i hp2
          rw [if_neg (h2.present hp2), h2.huge, h2.frame, h2.frame2M]
          split at hv
          · rename_i hh2
            rw [if_pos hh2]
            exact hv
          · rename_i hh2
            rw [if_neg hh2]
            have h1 :=
              h.mem (entryAt (m.mem
                (entryAt (m.mem (entryAt (m.mem (entryAt (m.cr3 &&& ~~~0xFFF) v 39) &&& FRAME) v 30) &&&
                FRAME) v 21) &&& FRAME) v 12)
            split at hv
            · cases hv
            · rename_i hp1
              rw [if_neg (h1.present hp1), h1.frame]
              exact hv

/-! ## The loop -/

variable {base : UInt64}

theorem foldl_le (is : List Nat) (m : Mmu) : m.Le (is.foldl (fun m i => m.openPage (jitPage base i)) m) := by
  induction is generalizing m with
  | nil => exact .refl m
  | cons i is ih => exact (openPage_le m _).trans (ih _)

theorem openPage_executable {ptePhys pteVal : UInt64} (hpte : m.findPte v = some (ptePhys, pteVal)) :
    Executable ((m.openPage v).mem ptePhys) := by
  unfold openPage
  rw [hpte]
  show Executable (if ptePhys = ptePhys then openEntry pteVal else m.mem ptePhys)
  rw [if_pos rfl]
  exact openEntry_executable pteVal

/-- An opened page stays open in the rounds that follow. -/
theorem foldl_executable {is : List Nat} {i : Nat} (hi : i ∈ is) {m : Mmu} {ptePhys pteVal : UInt64}
    (hpte : m.findPte (jitPage base i) = some (ptePhys, pteVal)) :
    Executable ((is.foldl (fun m i => m.openPage (jitPage base i)) m).mem ptePhys) := by
  induction is generalizing m pteVal with
  | nil => cases hi
  | cons j is ih =>
    rcases List.mem_cons.mp hi with rfl | hi
    · exact ((foldl_le is _).mem ptePhys).executable (openPage_executable hpte)
    · exact ih hi ((openPage_le m _).findPte hpte)

theorem foldl_untouched {is : List Nat} {m : Mmu} {a : UInt64}
    (h : ∀ i ∈ is, ∀ val, (is.foldl (fun m i => m.openPage (jitPage base i)) m).findPte (jitPage base i) ≠
      some (a, val)) :
    (is.foldl (fun m i => m.openPage (jitPage base i)) m).mem a = m.mem a := by
  induction is generalizing m with
  | nil => rfl
  | cons i is ih =>
    rw [List.foldl_cons] at h ⊢
    rw [ih fun j hj => h j (.tail _ hj)]
    cases hpte : m.findPte (jitPage base i) with
    | none =>
      unfold openPage
      rw [hpte]
    | some pte =>
      obtain ⟨ptePhys, pteVal⟩ := pte
      have hle : m.Le (is.foldl (fun m i => m.openPage (jitPage base i)) (m.openPage (jitPage base i))) :=
        (openPage_le m _).trans (foldl_le is _)
      have hfinal := hle.findPte hpte
      have hne : a ≠ ptePhys := by
        rintro rfl
        exact h i (.head _) _ hfinal
      unfold openPage
      rw [hpte]
      exact if_neg hne

theorem openEntry_of_executable {e : UInt64} (h : Executable e) : openEntry e = e := by
  obtain ⟨h3, hnx⟩ := h
  unfold openEntry
  generalize (0x3 : UInt64) = three at h3
  generalize NX = nx at hnx
  apply UInt64.toBitVec_inj.mp
  ext i hi
  have h3i := congrArg (fun x => x.toBitVec[i]) h3
  have hnxi := congrArg (fun x => x.toBitVec[i]) hnx
  simp at h3i hnxi ⊢
  cases he : e.toBitVec[i]
  · rw [he] at h3i
    simp at h3i
    simp [h3i]
  · simp [hnxi he]

theorem openPage_of_executable (h : ∀ ptePhys pteVal, m.findPte v = some (ptePhys, pteVal) →
      Executable pteVal) : m.openPage v = m := by
  unfold openPage
  split
  · rename_i ptePhys pteVal hpte
    have hval : m.mem ptePhys = pteVal := by
      have hle := (Le.refl m).findPte hpte
      rw [hpte] at hle
      cases hle
      rfl
    rw [openEntry_of_executable (h _ _ hpte)]
    cases m with
    | mk mem cr3 =>
      unfold writePhysU64
      congr 1
      funext a
      split
      · rename_i ha
        rw [ha]
        exact hval.symm
      · rfl
  · rfl

end Mmu

/-- `make_jit_executable` makes every page of the buffer that a 4 KiB entry maps present, writable and executable
at the frame it had; whatever memory holds, no mapped address is translated differently afterwards, nothing but
the entries of those pages is written, and a second call changes nothing when all pages have an entry. -/
theorem make_executable_keeps (m : Mmu) (base : UInt64) (pages : Nat) :
    (∀ v p, m.virtToPhys v = .ok p → (m.makeJitExecutable base pages).virtToPhys v = .ok p) ∧
      (∀ i < pages, ∀ ptePhys pteVal, m.findPte (Mmu.jitPage base i) = some (ptePhys, pteVal) →
        ∃ pteVal', (m.makeJitExecutable base pages).findPte (Mmu.jitPage base i) = some (ptePhys, pteVal') ∧
          Executable pteVal' ∧ pteVal' &&& FRAME = pteVal &&& FRAME) ∧
      (∀ a, (∀ i < pages, ∀ val, (m.makeJitExecutable base pages).findPte (Mmu.jitPage base i) ≠ some (a, val)) →
        (m.makeJitExecutable base pages).mem a = m.mem a) ∧
      ((∀ i < pages, (m.findPte (Mmu.jitPage base i)).isSome) →
        (m.makeJitExecutable base pages).makeJitExecutable base pages = m.makeJitExecutable base pages) := by
  have hle : m.Le (m.makeJitExecutable base pages) := Mmu.foldl_le _ m
  have hopen : ∀ i < pages, ∀ ptePhys pteVal, m.findPte (Mmu.jitPage base i) = some (ptePhys, pteVal) →
      Executable ((m.makeJitExecutable base pages).mem ptePhys) := fun i hi _ _ hpte =>
    Mmu.foldl_executable (List.mem_range.mpr hi) hpte
  refine ⟨fun v p hv => hle.virtToPhys hv, fun i hi ptePhys pteVal hpte => ?_, fun a ha => ?_, fun hall => ?_⟩
  · have hval : pteVal = m.mem ptePhys := by
      have hself := (Mmu.Le.refl m).findPte hpte
      rw [hpte] at hself
      cases hself
      rfl
    refine ⟨_, hle.findPte hpte, hopen i hi ptePhys pteVal hpte, ?_⟩
    rw [hval]
    exact (hle.mem ptePhys).frame
  · exact Mmu.foldl_untouched fun i hi => ha i (List.mem_range.mp hi)
  · generalize hm' : m.makeJitExecutable base pages = m' at hle hopen
    have hstay : ∀ i < pages, m'.openPage (Mmu.jitPage base i) = m' := by
      intro i hi
      apply Mmu.openPage_of_executable
      intro ptePhys pteVal hpte
      obtain ⟨⟨ptePhys₀, pteVal₀⟩, hpte₀⟩ := Option.isSome_iff_exists.mp (hall i hi)
      have hnow := hle.findPte hpte₀
      rw [hpte] at hnow
      cases hnow
      exact hopen i hi _ _ hpte₀
    have hrun : ∀ is : List Nat, (∀ i ∈ is, i < pages) →
        is.foldl (fun m i => m.openPage (Mmu.jitPage base i)) m' = m' := by
      intro is
      induction is with
      | nil => intro _; rfl
      | cons i is ih =>
        intro his
        rw [List.foldl_cons, hstay i (his i (.head _))]
        exact ih fun j hj => his j (.tail _ hj)
    exact hrun _ fun i hi => List.mem_range.mp hi

/-! ## Inside a page -/

theorem or_of_disjoint {x y : Nat} (k : Nat) (hx : x % 2 ^ k = 0) (hy : y < 2 ^ k) : x ||| y = x + y := by
  obtain ⟨z, rfl⟩ := Nat.dvd_of_mod_eq_zero hx
  exact (Nat.two_pow_add_eq_or_of_lt hy z).symm

theorem and_mod_zero {x : Nat} (mask k : Nat) (h : mask % 2 ^ k = 0) : (x &&& mask) % 2 ^ k = 0 := by
  rw [Nat.and_mod_two_pow, h, Nat.and_zero]

section
variable {v r : UInt64} (hv : v.toNat % 4096 = 0) (hr : r.toNat < 4096)
include hv hr

theorem add_toNat : (v + r).toNat = v.toNat + r.toNat := by
  have := v.toNat_lt
  rw [UInt64.toNat_add]
  omega

theorem entryAt_offset (table : UInt64) {shift : UInt64} (hshift : shift = 39 ∨ shift = 30 ∨ shift = 21 ∨
      shift = 12) :
    Mmu.entryAt table (v + r) shift = Mmu.entryAt table v shift := by
  have hsame : (v + r) >>> shift = v >>> shift := by
    apply UInt64.toNat_inj.mp
    rw [UInt64.toNat_shiftRight, UInt64.toNat_shiftRight, add_toNat hv hr]
    rcases hshift with rfl | rfl | rfl | rfl <;> simp [Nat.shiftRight_eq_div_pow] <;> omega
  unfold Mmu.entryAt
  rw [hsame]

/-- The place inside a page is added to where the page begins. -/
theorem offset_in_frame (e frame low : UInt64) {k : Nat} (hk : 12 ≤ k ∧ k ≤ 30) (hframe : frame.toNat % 2 ^ k = 0)
    (hbound : frame.toNat < 2 ^ 52) (hlow : low.toNat = 2 ^ k - 1) :
    (e &&& frame) ||| ((v + r) &&& low) = ((e &&& frame) ||| (v &&& low)) + r := by
  have hpow : 2 ^ k = 4096 * 2 ^ (k - 12) := by rw [show 4096 = 2 ^ 12 from rfl, ← Nat.pow_add]; congr 1; omega
  have hsmall : 2 ^ k ≤ 2 ^ 30 := Nat.pow_le_pow_right Nat.two_pos hk.2
  have hmod : (v.toNat + r.toNat) % 2 ^ k = v.toNat % 2 ^ k + r.toNat := by
    obtain ⟨w, hw⟩ := Nat.dvd_of_mod_eq_zero hv
    rw [hw, hpow, Nat.mul_mod_mul_left, Nat.mod_mul, Nat.mul_add_mod, Nat.mod_eq_of_lt hr,
      Nat.mul_add_div (by decide),
      Nat.div_eq_of_lt hr, Nat.add_zero, Nat.add_comm]
  have hlt : v.toNat % 2 ^ k < 2 ^ k := Nat.mod_lt _ (Nat.two_pow_pos k)
  have hlt' : v.toNat % 2 ^ k + r.toNat < 2 ^ k := by
    rw [← hmod]
    exact Nat.mod_lt _ (Nat.two_pow_pos k)
  have hzero := and_mod_zero (x := e.toNat) frame.toNat k hframe
  have hle : e.toNat &&& frame.toNat ≤ frame.toNat := Nat.and_le_right
  apply UInt64.toNat_inj.mp
  rw [UInt64.toNat_add, UInt64.toNat_or, UInt64.toNat_or, UInt64.toNat_and, UInt64.toNat_and,
    UInt64.toNat_and, hlow,
    Nat.and_two_pow_sub_one_eq_mod, Nat.and_two_pow_sub_one_eq_mod, add_toNat hv hr, hmod,
    or_of_disjoint k hzero hlt,
    or_of_disjoint k hzero hlt']
  omega

theorem virtToPhys_offset {m : Mmu} {p : UInt64} (h : m.virtToPhys v = .ok p) :
    m.virtToPhys (v + r) = .ok (p + r) := by
  unfold Mmu.virtToPhys at h ⊢
  simp only [entryAt_offset hv hr _ (.inl rfl), entryAt_offset hv hr _ (.inr (.inl rfl)),
    entryAt_offset hv hr _ (.inr (.inr (.inl rfl))), entryAt_offset hv hr _ (.inr (.inr (.inr rfl)))] at h ⊢
  split at h
  · cases h
  · rename_i hp4
    rw [if_neg hp4]
    split at h
    · cases h
    · rename_i hp3
      rw [if_neg hp3]
      split at h
      · rename_i hh3
        rw [if_pos hh3]
        cases h
        exact congrArg Except.ok (offset_in_frame hv hr _ FRAME_1G 0x3FFFFFFF (k := 30) (by decide)
          (by decide) (by decide) (by decide))
      · rename_i hh3
        rw [if_neg hh3]
        split at h
        · cases h
        · rename_i hp2
          rw [if_neg hp2]
          split at h
          · rename_i hh2
            rw [if_pos hh2]
            cases h
            exact congrArg Except.ok (offset_in_frame hv hr _ FRAME_2M 0x001FFFFF (k := 21) (by decide)
              (by decide) (by decide) (by decide))
          · rename_i hh2
            rw [if_neg hh2]
            split at h
            · cases h
            · rename_i hp1
              rw [if_neg hp1]
              cases h
              exact congrArg Except.ok (offset_in_frame hv hr _ FRAME 0xFFF (k := 12) (by decide) (by decide)
                (by decide) (by decide))

end

end WasmOs.Paging
