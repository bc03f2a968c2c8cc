import WasmOs.Regions

/-!
# The heap allocator

`alloc` rounds the offset of a block up to the alignment of its layout. The address is the offset plus that
of `HEAP`, which is aligned to 16 bytes, so a block is aligned as it should be if its alignment divides the
address of `HEAP`.
-/

namespace WasmOs.Heap

open Bump

def HEAP_SIZE : Nat := 8 * 1024 * 1024

/-- A `Layout`: its size rounded up to the alignment is at most `isize::MAX`. -/
structure Layout where
  size : Nat
  align : Nat
  pow : ∃ k, align = 2 ^ k
  fits : size + (align - 1) < 2 ^ 63

/-- The address of `HEAP`. -/
structure HeapBuf where
  addr : Nat
  aligned : 16 ∣ addr
  fits : addr + HEAP_SIZE ≤ 2 ^ 64

/-- A null pointer is `none`; `next` is `HEAP_NEXT`. -/
def alloc (heap : HeapBuf) (next : Nat) (layout : Layout) : Rust Empty (Option Nat × Nat) := do
  let sum ← uadd next layout.align
  let sum ← usub sum 1
  let mask ← usub layout.align 1
  let aligned := andNot sum mask
  let stop ← uadd aligned layout.size
  if HEAP_SIZE < stop then .ok (none, next) else .ok (some (heap.addr + aligned), stop)

def step (heap : HeapBuf) (next : Nat) (layout : Layout) : Rust Empty (Option Region × Nat) := do
  let (p, next) ← alloc heap next layout
  .ok (p.map fun p => ⟨p, layout.size⟩, next)

def Fits (next : Nat) (layout : Layout) : Prop := ∃ p, next ≤ p ∧ layout.align ∣ p ∧ p + layout.size ≤ HEAP_SIZE

def Aligned (layout : Layout) (o : Option Region) : Prop := ∀ r, o = some r → layout.align ∣ r.start

/-- What a sequence of requests from a fresh heap may rely on. -/
def Contract (heap : HeapBuf) (layouts : List Layout) : Prop :=
  ∃ t next, trace (step heap) 0 layouts = .ok (t, next) ∧ (∀ p ∈ t, Aligned p.1 p.2) ∧
    (t.filterMap Prod.snd).Pairwise Region.Disjoint ∧
    (∀ r ∈ t.filterMap Prod.snd, r.Inside ⟨heap.addr, HEAP_SIZE⟩) ∧
    Along (step heap) (fun next _ o next' => o = none → next' = next) 0 layouts

theorem Layout.align_pos (layout : Layout) : 0 < layout.align := by
  obtain ⟨k, hk⟩ := layout.pow
  rw [hk]
  exact Nat.pow_pos (by decide)

/-- The address of `HEAP` is a multiple of the alignments up to 16. -/
theorem Layout.dvd_addr {layout : Layout} (heap : HeapBuf) (h : layout.align ≤ 16) : layout.align ∣ heap.addr := by
  obtain ⟨k, hk⟩ := layout.pow
  rw [hk] at h ⊢
  have hle : k ≤ 4 := (Nat.pow_le_pow_iff_right (show 1 < 2 by decide)).mp (show 2 ^ k ≤ 2 ^ 4 from h)
  exact Nat.dvd_trans (Nat.pow_dvd_pow 2 hle) heap.aligned

section
variable {heap : HeapBuf} {next : Nat}

theorem alloc_eq (heap : HeapBuf) (hnext : next ≤ HEAP_SIZE) (layout : Layout) :
    alloc heap next layout = .ok (if alignUp next layout.align + layout.size ≤ HEAP_SIZE
      then (some (heap.addr + alignUp next layout.align), alignUp next layout.align + layout.size) else
        (none, next)) := by
  obtain ⟨k, hk⟩ := layout.pow
  have hpos : 1 ≤ layout.align := layout.align_pos
  have hfits := layout.fits
  have hsmall : next < 2 ^ 62 := Nat.lt_of_le_of_lt hnext (by decide)
  have hlt := alignUp_lt (n := next) hpos
  have hup : andNot (next + layout.align - 1) (layout.align - 1) = alignUp next layout.align := by
    rw [Nat.add_sub_assoc hpos, alignUp, hk]
    exact andNot_eq (by rw [← hk]; omega)
  unfold alloc
  rw [uadd_of_lt (by omega), bind_ok, usub, if_pos (Nat.le_add_left_of_le hpos), bind_ok, usub, if_pos hpos,
    bind_ok, hup]
  dsimp only
  rw [uadd_of_lt (by omega), bind_ok]
  by_cases hfit : HEAP_SIZE < alignUp next layout.align + layout.size
  · rw [if_pos hfit, if_neg (Nat.not_le_of_lt hfit)]
  · rw [if_neg hfit, if_pos (Nat.le_of_not_lt hfit)]

/-- A request that fits is given the block at the cursor, any other one changes nothing. -/
theorem step_cases (heap : HeapBuf) (hnext : next ≤ HEAP_SIZE) (layout : Layout) :
    (Fits next layout ∧ alignUp next layout.align + layout.size ≤ HEAP_SIZE ∧
      step heap next layout = .ok (some ⟨heap.addr + alignUp next layout.align, layout.size⟩,
        alignUp next layout.align + layout.size)) ∨
    (¬ Fits next layout ∧ step heap next layout = .ok (none, next)) := by
  have heq := alloc_eq heap hnext layout
  have hiff : alignUp next layout.align + layout.size ≤ HEAP_SIZE ↔ Fits next layout :=
    alignUp_fits layout.align_pos
  by_cases hfit : alignUp next layout.align + layout.size ≤ HEAP_SIZE
  · rw [if_pos hfit] at heq
    refine .inl ⟨hiff.mp hfit, hfit, ?_⟩
    rw [step, heq, bind_ok]
    rfl
  · rw [if_neg hfit] at heq
    refine .inr ⟨fun h => hfit (hiff.mpr h), ?_⟩
    rw [step, heq, bind_ok]
    rfl

theorem step_sound {next' : Nat} {layout : Layout} {o : Option Region} (hnext : next ≤ HEAP_SIZE)
    (h : step heap next layout = .ok (o, next')) :
    next' ≤ HEAP_SIZE ∧ Advance (heap.addr + next) (heap.addr + next') o ∧
      (o = none → next' = next) ∧
      (Aligned layout o ↔ (Fits next layout → layout.align ≤ 16 ∨ layout.align ∣ heap.addr)) := by
  obtain ⟨hfits, hfit, hstep⟩ | ⟨hfits, hstep⟩ := step_cases heap hnext layout
  · cases hstep.symm.trans h
    refine ⟨hfit, ⟨Nat.add_le_add_left (le_alignUp layout.align_pos) _, Nat.le_of_eq (Nat.add_assoc ..)⟩,
      nofun, fun halign _ => ?_, fun hdvd r hr => ?_⟩
    · exact .inr ((Nat.dvd_add_left dvd_alignUp).mp (halign _ rfl))
    · cases hr
      exact Nat.dvd_add ((hdvd hfits).elim (Layout.dvd_addr heap) id) dvd_alignUp
  · cases hstep.symm.trans h
    exact ⟨hnext, Nat.le_refl _, fun _ => rfl, fun _ hfit => absurd hfit hfits, fun _ => nofun⟩

end

/-- All of the contract but the alignment holds of every sequence; the alignments are right exactly when every
request that fits asks for at most 16 bytes or for an alignment that divides the address of the heap. -/
theorem heap_contract_iff (heap : HeapBuf) (layouts : List Layout) :
    Contract heap layouts ↔ Along (step heap) (fun next layout _ _ => Fits next layout → layout.align ≤ 16 ∨
      layout.align ∣ heap.addr) 0 layouts := by
  have hserve : ∀ next layout, next ≤ HEAP_SIZE → True → ∃ o next', step heap next layout = .ok (o, next') ∧
      next' ≤ HEAP_SIZE := by
    intro next layout hnext _
    obtain ⟨-, hfit, hstep⟩ | ⟨-, hstep⟩ := step_cases heap hnext layout
    · exact ⟨_, _, hstep, hfit⟩
    · exact ⟨_, _, hstep, hnext⟩
  obtain ⟨t, last, htrace, hlast⟩ := trace_total hserve (Nat.zero_le _) fun layout (_ : layout ∈ layouts) => trivial
  have hpacked : Packed (heap.addr + 0) (t.filterMap Prod.snd) (heap.addr + last) :=
    packed_trace (I := (· ≤ HEAP_SIZE)) (heap.addr + ·) Prod.snd
      (fun next layout o next' hnext _ h => ⟨(step_sound hnext h).1, (step_sound hnext h).2.1⟩)
      (Nat.zero_le _) (fun _ _ => trivial) htrace
  have hnull : Along (step heap) (fun next _ o next' => o = none → next' = next) 0 layouts :=
    Along.of_forall (I := (· ≤ HEAP_SIZE)) (fun next layout o next' hnext h =>
      ⟨(step_sound hnext h).2.2.1, (step_sound hnext h).1⟩) (Nat.zero_le _)
  have hcond : Along (step heap) (fun _ layout o _ => Aligned layout o) 0 layouts ↔
      Along (step heap) (fun next layout _ _ => Fits next layout → layout.align ≤ 16 ∨
      layout.align ∣ heap.addr) 0 layouts :=
    Along.iff_of_forall (I := (· ≤ HEAP_SIZE)) (fun next layout o next' hnext h =>
      ⟨(step_sound hnext h).2.2.2, (step_sound hnext h).1⟩)
      (Nat.zero_le _)
  rw [← hcond, ← trace_forall_iff htrace]
  refine ⟨fun ⟨t', _, htrace', halign, _⟩ => ?_, fun halign => ⟨t, last, htrace, halign, hpacked.pairwise,
    fun r hr => ⟨?_, ?_⟩, hnull⟩⟩
  · cases htrace.symm.trans htrace'
    exact halign
  · exact hpacked.start_le r hr
  · exact Nat.le_trans (hpacked.stop_le r hr) (Nat.add_le_add_left hlast _)

/-- A `HEAP` at an odd multiple of 16 and a block that is to be aligned to 32 bytes. -/
theorem heap_contract_align_32 : ¬ Contract ⟨16, by decide, by decide⟩ [⟨8, 32, ⟨5, rfl⟩, by decide⟩] := by
  rintro ⟨t, next, htrace, halign, -⟩
  cases htrace
  exact absurd (halign _ (List.mem_singleton_self _) _ rfl) (by decide)

/-! ## Blocks of bytes -/

/-- The buffer of a `Vec<u8>` or a `String`. A size that no layout has and a null pointer end in a panic. -/
def reserve (heap : HeapBuf) (next size : Nat) : Rust Empty Nat :=
  if h : size < 2 ^ 63 then do
    let (p, next) ← alloc heap next ⟨size, 1, ⟨0, rfl⟩, h⟩
    if p.isSome then .ok next else .error .panic
  else .error .panic

theorem reserve_eq (heap : HeapBuf) {next size : Nat} (hnext : next ≤ HEAP_SIZE) :
    reserve heap next size = if next + size ≤ HEAP_SIZE then .ok (next + size) else .error .panic := by
  unfold reserve
  by_cases hsize : size < 2 ^ 63
  · rw [dif_pos hsize, alloc_eq heap hnext, bind_ok]
    have hup : alignUp next 1 = next := by simp [alignUp]
    dsimp only
    rw [hup]
    by_cases hfit : next + size ≤ HEAP_SIZE
    · rw [if_pos hfit, if_pos hfit]
      rfl
    · rw [if_neg hfit, if_neg hfit]
      rfl
  · have hbig : ¬ next + size ≤ HEAP_SIZE := by
      unfold HEAP_SIZE
      omega
    rw [dif_neg hsize, if_neg hbig]

theorem reserve_iff (heap : HeapBuf) {next next' size : Nat} (hnext : next ≤ HEAP_SIZE) :
    reserve heap next size = .ok next' ↔ next + size ≤ HEAP_SIZE ∧ next + size = next' := by
  rw [reserve_eq heap hnext]
  by_cases hfit : next + size ≤ HEAP_SIZE
  · simp [hfit]
  · simp [hfit]

/-! ## Requests of which none may fail -/

/-- A null pointer ends in a panic. -/
def takeAll (heap : HeapBuf) : Nat → List Layout → Rust Empty Nat
  | next, [] => .ok next
  | next, layout :: layouts => do
    let (p, next) ← alloc heap next layout
    if p.isSome then takeAll heap next layouts else .error .panic

/-- The cursor behind a block. -/
def stop (next : Nat) (layout : Layout) : Nat := alignUp next layout.align + layout.size

/-- Each of them fits in what those before it leave. -/
def RoomFor : Nat → List Layout → Prop
  | _, [] => True
  | next, layout :: layouts => stop next layout ≤ HEAP_SIZE ∧ RoomFor (stop next layout) layouts

instance decidableRoomFor : ∀ (next : Nat) (layouts : List Layout), Decidable (RoomFor next layouts)
  | _, [] => inferInstanceAs (Decidable True)
  | next, layout :: layouts =>
    have := decidableRoomFor (stop next layout) layouts
    inferInstanceAs (Decidable (_ ∧ _))

theorem takeAll_eq (heap : HeapBuf) {next : Nat} (hnext : next ≤ HEAP_SIZE) (layouts : List Layout) :
    (RoomFor next layouts ∧ takeAll heap next layouts = .ok (layouts.foldl stop next) ∧
      layouts.foldl stop next ≤ HEAP_SIZE) ∨
      (¬ RoomFor next layouts ∧ takeAll heap next layouts = .error .panic) := by
  induction layouts generalizing next with
  | nil => exact .inl ⟨trivial, rfl, hnext⟩
  | cons layout layouts ih =>
    unfold takeAll RoomFor
    rw [alloc_eq heap hnext, bind_ok]
    by_cases hfit : stop next layout ≤ HEAP_SIZE
    · rw [if_pos (show alignUp next layout.align + layout.size ≤ HEAP_SIZE from hfit)]
      obtain ⟨hroom, htake, hle⟩ | ⟨hroom, htake⟩ := ih hfit
      · exact .inl ⟨⟨hfit, hroom⟩, htake, hle⟩
      · exact .inr ⟨fun h => hroom h.2, htake⟩
    · rw [if_neg (show ¬ alignUp next layout.align + layout.size ≤ HEAP_SIZE from hfit)]
      exact .inr ⟨fun h => hfit h.1, rfl⟩

/-- The buffer of a `Vec<u8>`. -/
def Layout.bytes (size : UInt32) : Layout where
  size := size.toNat
  align := 1
  pow := ⟨0, rfl⟩
  fits := by
    have := size.toNat_lt
    omega

theorem takeAll_bytes (heap : HeapBuf) (next : Nat) (size : UInt32) :
    takeAll heap next [.bytes size] = reserve heap next size.toNat := by
  have hsize : size.toNat < 2 ^ 63 := by
    have := size.toNat_lt
    omega
  unfold reserve
  rw [dif_pos hsize]
  rfl

theorem takeAll_append (heap : HeapBuf) (next : Nat) (xs ys : List Layout) :
    takeAll heap next (xs ++ ys) = takeAll heap next xs >>= fun next => takeAll heap next ys := by
  induction xs generalizing next with
  | nil => rfl
  | cons layout xs ih =>
    rw [List.cons_append, takeAll, takeAll]
    cases alloc heap next layout with
    | error e => rfl
    | ok r =>
      obtain ⟨p, next'⟩ := r
      rw [bind_ok, bind_ok]
      dsimp only
      by_cases hp : p.isSome
      · rw [if_pos hp, if_pos hp]
        exact ih next'
      · rw [if_neg hp, if_neg hp]
        rfl

end WasmOs.Heap
