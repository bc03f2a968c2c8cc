import WasmOs.Sections

/-!
# Cursors

A section parser keeps a cursor into a slice and reads LEB-128 values at it. A read ends unless the
cursor is past the end of the slice; a loop over entries ends if the entries it reaches do.
-/

namespace WasmOs

/-- A slice is shorter than `isize::MAX` bytes. -/
def Fits (bytes : List UInt8) : Prop := bytes.length < 2 ^ 63

theorem readU32_loop_bounds : ∀ {bytes : List UInt8} {r v : BitVec 32} {s i n : Nat},
    readU32Leb128.loop bytes r s i = some (v, n) → i + 1 ≤ n ∧ n ≤ i + bytes.length
  | [], _, _, _, _, _, h => by cases h
  | b :: bytes, r, v, s, i, n, h => by
    unfold readU32Leb128.loop at h
    split at h
    · cases h
    simp only at h
    split at h
    · cases h
      simp
    · have := readU32_loop_bounds h
      simp only [List.length_cons]; omega

theorem readU32Leb128_bounds {bytes : List UInt8} {v n : Nat} (h : readU32Leb128 bytes = some (v, n)) :
    v < 2 ^ 32 ∧ 1 ≤ n ∧ n ≤ bytes.length := by
  obtain ⟨p, hp, hv⟩ := Option.map_eq_some_iff.mp h
  cases hv
  have := readU32_loop_bounds (v := p.1) (n := p.2) hp
  exact ⟨p.1.isLt, by omega, by omega⟩

theorem readI32Leb128_bounds {bytes : List UInt8} {v : BitVec 32} {n : Nat}
    (h : readI32Leb128 bytes = some (v, n)) :
    n ≤ bytes.length := by
  suffices ∀ {bytes : List UInt8} {r : BitVec 32} {s i : Nat}, readI32Leb128.loop bytes r s i = some (v, n) →
      n ≤ i + bytes.length by simpa using this h
  intro bytes r s i h
  induction bytes generalizing r s i with
  | nil => cases h
  | cons b bytes ih =>
    unfold readI32Leb128.loop at h
    simp only [List.length_cons]
    split at h
    · cases h
    simp only at h
    split at h
    · cases h; omega
    · have := ih h; omega

theorem readI64Leb128_bounds {bytes : List UInt8} {v : BitVec 64} {n : Nat}
    (h : readI64Leb128 bytes = some (v, n)) :
    n ≤ bytes.length := by
  suffices ∀ {bytes : List UInt8} {r : BitVec 64} {s i : Nat}, readI64Leb128.loop bytes r s i = some (v, n) →
      n ≤ i + bytes.length by simpa using this h
  intro bytes r s i h
  induction bytes generalizing r s i with
  | nil => cases h
  | cons b bytes ih =>
    unfold readI64Leb128.loop at h
    simp only [List.length_cons]
    split at h
    · cases h
    simp only at h
    split at h
    · cases h; omega
    · have := ih h; omega

def Within {α : Type} (read : List UInt8 → Option (α × Nat)) : Prop :=
  ∀ {bytes v n}, read bytes = some (v, n) → n ≤ bytes.length

section
variable {ε α : Type} {read : List UInt8 → Option (α × Nat)} {bytes : List UInt8} {e : ε} {cur : Nat}

theorem readAt_of_gt (hcur : bytes.length < cur) : readAt read bytes e cur = .error .panic := by
  unfold readAt
  rw [sliceFrom, if_neg (by omega)]; rfl

variable (hread : Within read) (hfit : Fits bytes)
include hread hfit

theorem readAt_of_le (hcur : cur ≤ bytes.length) : readAt read bytes e cur =
    match read (bytes.drop cur) with
    | none => .error (.err e)
    | some (v, n) => .ok (v, cur + n) := by
  unfold readAt
  rw [sliceFrom, if_pos hcur, bind_ok]
  cases hr : read (bytes.drop cur) with
  | none => rfl
  | some p =>
    have := hread hr
    rw [List.length_drop] at this
    have hadd : cur + p.2 ≤ usizeMax := by unfold usizeMax; unfold Fits at hfit; omega
    simp [okOr, uadd, hadd]

theorem readAt_cases (hcur : cur ≤ bytes.length) : readAt read bytes e cur = .error (.err e) ∨
    ∃ v c, readAt read bytes e cur = .ok (v, c) ∧ c ≤ bytes.length := by
  rw [readAt_of_le hread hfit hcur]
  cases hr : read (bytes.drop cur) with
  | none => exact .inl rfl
  | some p =>
    have := hread hr
    rw [List.length_drop] at this
    exact .inr ⟨p.1, cur + p.2, rfl, by omega⟩

theorem readAt_eq_ok {v : α} {c : Nat} : readAt read bytes e cur = .ok (v, c) ↔
    cur ≤ bytes.length ∧ ∃ n, read (bytes.drop cur) = some (v, n) ∧ c = cur + n := by
  by_cases hcur : cur ≤ bytes.length
  · rw [readAt_of_le hread hfit hcur]
    cases read (bytes.drop cur) with
    | none => simp
    | some p => simp [hcur, Prod.ext_iff, eq_comm, and_assoc]
  · simp [readAt_of_gt (Nat.lt_of_not_le hcur), hcur]

theorem readAt_le {v : α} {c : Nat} (h : readAt read bytes e cur = .ok (v, c)) : c ≤ bytes.length := by
  obtain ⟨hcur, n, hr, rfl⟩ := (readAt_eq_ok hread hfit).mp h
  have := hread hr
  rw [List.length_drop] at this
  omega

theorem total_readAt : (readAt read bytes e cur).Total ↔ cur ≤ bytes.length := by
  by_cases hcur : cur ≤ bytes.length
  · rw [readAt_of_le hread hfit hcur]
    cases read (bytes.drop cur) with
    | none => simp [hcur]
    | some p => simp [hcur]
  · simp [readAt_of_gt (Nat.lt_of_not_le hcur), hcur, Rust.Total]

end

section
variable {ε : Type} {bytes : List UInt8} {e : ε} {cur : Nat} (hfit : Fits bytes)
include hfit

theorem total_readU32 : (readU32 bytes e cur).Total ↔ cur ≤ bytes.length :=
  total_readAt (fun h => (readU32Leb128_bounds h).2.2) hfit

theorem readU32_cases (hcur : cur ≤ bytes.length) : readU32 bytes e cur = .error (.err e) ∨
    ∃ v c, readU32 bytes e cur = .ok (v, c) ∧ c ≤ bytes.length :=
  readAt_cases (fun h => (readU32Leb128_bounds h).2.2) hfit hcur

theorem readU32_eq_ok {v c : Nat} : readU32 bytes e cur = .ok (v, c) ↔
    cur ≤ bytes.length ∧ ∃ n, readU32Leb128 (bytes.drop cur) = some (v, n) ∧ c = cur + n :=
  readAt_eq_ok (fun h => (readU32Leb128_bounds h).2.2) hfit

theorem readU32_bounds {v c : Nat} (h : readU32 bytes e cur = .ok (v, c)) :
    v < 2 ^ 32 ∧ cur < c ∧ c ≤ bytes.length := by
  obtain ⟨hcur, n, hr, rfl⟩ := (readU32_eq_ok hfit).mp h
  have := readU32Leb128_bounds hr
  rw [List.length_drop] at this
  omega

theorem total_header {β : Type} {f : Nat × Nat → Rust ε β} : (readU32 bytes e 0 >>= f).Total ↔
    ∀ count start, readU32Leb128 bytes = some (count, start) → (f (count, start)).Total := by
  rw [total_bind, total_readU32 hfit]
  simp [readU32_eq_ok hfit]

end

/-- Entry `j` of a section starts at `cur`: the `j` entries before it parse. -/
def EntryAt {ε α : Type} (step : Nat × α → Rust ε (Nat × α)) (start : Nat × α) (j cur : Nat) : Prop :=
  ∃ a, iter step j start = .ok (cur, a)

theorem total_entries {ε α : Type} {step : Nat × α → Rust ε (Nat × α)} {I : Nat → Nat × α → Prop}
    {G : Nat → Nat → Prop} {count : Nat} {start : Nat × α} (hI : ∀ j s s', I j s → step s = .ok s' → I (j + 1) s')
    (h0 : I 0 start) (hstep : ∀ j cur a, j < count → I j (cur, a) → ((step (cur, a)).Total ↔ G j cur)) :
    (iter step count start).Total ↔ ∀ j cur, j < count → EntryAt step start j cur → G j cur := by
  rw [total_iter]
  refine ⟨fun h j cur hj hat => ?_, fun h j hj ⟨cur, a⟩ hs' => ?_⟩
  · obtain ⟨a, hs'⟩ := hat
    have := iter_invariant hI h0 hs'
    rw [Nat.zero_add] at this
    exact (hstep j cur a hj this).mp (h j hj (cur, a) hs')
  · have := iter_invariant hI h0 hs'
    rw [Nat.zero_add] at this
    exact (hstep j cur a hj this).mpr (h j cur hj ⟨a, hs'⟩)

theorem readU32_err {ε δ : Type} {bytes : List UInt8} {e : ε} (d : δ) {cur : Nat} :
    readU32 bytes d cur = mapErr (fun _ => d) (readU32 bytes e cur) := by
  simp only [readU32, readAt, mapErr_bind, mapErr_okOr, mapErr_uadd, mapErr_sliceFrom, mapErr_ok]

theorem getElem?_lt {bytes : List UInt8} {i : Nat} {b : UInt8} (h : bytes[i]? = some b) : i < bytes.length := by
  by_contra hi
  rw [List.getElem?_eq_none (by omega)] at h
  cases h

end WasmOs
