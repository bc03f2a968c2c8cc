import Mathlib.Tactic.IntervalCases
import WasmOs.JumpSound
import WasmOs.Nesting
import WasmOs.Sandbox

/-!
# Labels

The control stack of a frame that runs a well-nested body holds an entry for each block around the program
counter, outermost first. A round moves from one position of the body to another, and `Goes` follows an
instruction without nested instructions over its immediates.
-/

namespace WasmOs

open Hoare

/-! ## Decoding -/

section
variable {F : FloatOps} {b : UInt8}

theorem decodeOp_mem (h : 0x28 ≤ b.toNat ∧ b.toNat ≤ 0x3E) :
    (∃ w ext, decodeOp F b = .load w ext) ∨ ∃ w, decodeOp F b = .store w := by
  obtain ⟨n, hn⟩ : ∃ n, b.toNat = n := ⟨_, rfl⟩
  obtain rfl : b = UInt8.ofNat n := by rw [← hn, UInt8.ofNat_toNat]
  rw [hn] at h
  obtain ⟨hlo, hhi⟩ := h
  interval_cases n <;> first | exact .inl ⟨_, _, rfl⟩ | exact .inr ⟨_, rfl⟩

theorem decodeOp_num (h : 0x45 ≤ b.toNat ∧ b.toNat ≤ 0xC4) :
    decodeOp F b = .nop ∨ ∃ op, decodeOp F b = .num op := by
  obtain ⟨n, hn⟩ : ∃ n, b.toNat = n := ⟨_, rfl⟩
  obtain rfl : b = UInt8.ofNat n := by rw [← hn, UInt8.ofNat_toNat]
  rw [hn] at h
  obtain ⟨hlo, hhi⟩ := h
  interval_cases n <;> first | exact .inl rfl | exact .inr ⟨_, rfl⟩

end

section
variable {ε : Type} {body raw rest : List UInt8} {e : ε} {i : Nat}

theorem le_of_drop (h : body.drop i = raw ++ rest) (hraw : LebShape raw) : i ≤ body.length := by
  by_contra hi
  rw [List.drop_eq_nil_of_le (by omega)] at h
  exact hraw.ne_nil (List.append_eq_nil_iff.mp h.symm).1

variable (hfit : Fits body)
include hfit

theorem readU32_at {u : U32} (h : body.drop i = u.raw ++ rest) : readU32 body e i = .ok (u.val, i + u.raw.length) :=
  (readU32_eq_ok hfit).mpr ⟨le_of_drop h u.wf.shape, u.raw.length, by rw [h, readU32_append], rfl⟩

theorem readI32_at {c : S32} (h : body.drop i = c.raw ++ rest) :
    ∃ v, readI32 body e i = .ok (v, i + c.raw.length) := by
  obtain ⟨w, hw⟩ := readI32_append c rest
  refine ⟨w, (readAt_eq_ok (fun h => readI32Leb128_bounds h) hfit).mpr ⟨le_of_drop h c.wf.shape,
    c.raw.length, ?_, rfl⟩⟩
  rw [h, hw]

theorem readI64_at {c : S64} (h : body.drop i = c.raw ++ rest) :
    ∃ v, readI64 body e i = .ok (v, i + c.raw.length) := by
  obtain ⟨w, hw⟩ := readI64_append c rest
  refine ⟨w, (readAt_eq_ok (fun h => readI64Leb128_bounds h) hfit).mpr ⟨le_of_drop h c.wf.shape,
    c.raw.length, ?_, rfl⟩⟩
  rw [h, hw]

end

/-! ## What straight-line instructions leave alone -/

section
variable {ω α : Type} {code : Code (HostFn ω)} {F : FloatOps} {s₀ : State ω}

/-- Only locals, values and memory have changed. -/
structure Still (s₀ s : State ω) : Prop where
  ctrl : s.ctrl = s₀.ctrl
  ctrlDepth : s.ctrlDepth = s₀.ctrlDepth
  frames : s.frames.map Frame.sig = s₀.frames.map Frame.sig

theorem Still.refl (s : State ω) : Still s s := ⟨rfl, rfl, rfl⟩

theorem still_lift (m : Rust InterpError α) : Keeps (Still s₀) (lift m) :=
  fun _ h => wp_lift.mpr ⟨fun _ _ => h, fun _ _ => h⟩

theorem still_vPush (v : BitVec 64) : Keeps (Still s₀) (vPush v) :=
  keeps_get fun _ h => wp_ite.mpr ⟨fun _ => h, fun _ => ⟨h.ctrl, h.ctrlDepth, h.frames⟩⟩

theorem still_vPop : Keeps (Still s₀) vPop :=
  keeps_get fun _ h =>
    wp_ite.mpr ⟨fun _ => h, fun _ => wp_ite.mpr ⟨fun _ => h, fun _ => ⟨h.ctrl, h.ctrlDepth, h.frames⟩⟩⟩

theorem still_setFrame (f : Frame → Nat → BitVec 64) :
    Keeps (Still s₀) (setFrame fun fr => { fr with locals := f fr }) := by
  refine keeps_get fun s h => ?_
  cases hfr : s.frames with
  | nil => exact h
  | cons fr rest =>
    have hf := h.frames
    rw [hfr] at hf
    exact (wp_set _).mpr ⟨h.ctrl, h.ctrlDepth, hf⟩

theorem still_memSlice (lo hi : Nat) : Keeps (Still s₀) (memSlice code lo hi) :=
  keeps_ite (fun _ => keeps_pure _) fun _ => keeps_throw _

theorem still_set {s s' : State ω} (h : Still s₀ s) (hc : s'.ctrl = s.ctrl) (hd : s'.ctrlDepth = s.ctrlDepth)
    (hf : s'.frames = s.frames) : Still s₀ s' :=
  ⟨hc.trans h.ctrl, hd.trans h.ctrlDepth, by rw [hf]; exact h.frames⟩

theorem still_pushResult (r : Except NumTrap (BitVec 64)) : Keeps (Still s₀) (pushResult r) := by
  cases r with
  | ok v => exact still_vPush v
  | error t => exact keeps_throw _

theorem still_execNum (op : NumOp) : Keeps (Still s₀) (execNum op) := by
  cases op with
  | un f => exact keeps_bind still_vPop fun a => still_pushResult (f a)
  | bin f => exact keeps_bind still_vPop fun b => keeps_bind still_vPop fun a => still_pushResult (f a b)

theorem still_execMemoryGrow : Keeps (Still s₀) (execMemoryGrow code) := by
  refine keeps_bind still_vPop fun delta => keeps_get fun s h => ?_
  refine wp_ite.mpr ⟨fun _ => (wp_bind _).mpr (wp_ite.mpr ⟨fun _ => ?_, fun _ => h⟩), fun _ => still_vPush _ s h⟩
  exact (wp_pure _).mpr ((wp_bind _).mpr ((wp_set _).mpr (still_vPush _ _ (still_set h rfl rfl rfl))))

theorem still_execMemoryCopy : Keeps (Still s₀) (execMemoryCopy code) := by
  refine keeps_bind still_vPop fun n => keeps_bind still_vPop fun src => keeps_bind still_vPop fun dst =>
    keeps_get fun s h => ?_
  refine wp_ite.mpr ⟨fun _ => h, fun _ => (wp_bind _).mpr (wp_ite.mpr ⟨fun _ => ?_, fun _ => h⟩)⟩
  refine (wp_pure _).mpr ((wp_bind _).mpr (wp_ite.mpr ⟨fun _ => (wp_pure _).mpr ?_, fun _ => h⟩))
  exact (wp_set _).mpr (still_set h rfl rfl rfl)

theorem still_execMemoryFill : Keeps (Still s₀) (execMemoryFill code) := by
  refine keeps_bind still_vPop fun n => keeps_bind still_vPop fun val => keeps_bind still_vPop fun dst =>
    keeps_get fun s h => ?_
  refine wp_ite.mpr ⟨fun _ => h, fun _ => (wp_bind _).mpr (wp_ite.mpr ⟨fun _ => (wp_pure _).mpr ?_, fun _ => h⟩)⟩
  exact (wp_set _).mpr (still_set h rfl rfl rfl)

end

/-! ## Over an instruction -/

/-- The position in its own body from which a round goes on. -/
def Next.At (pc : Nat) : Next → Prop
  | .seq pc' => pc' = pc
  | .br pc' _ => pc' = pc
  | .call pc' _ => pc' = pc
  | .ret => True

section
variable {ω α β : Type} {code : Code (HostFn ω)} {F : FloatOps} {s₀ : State ω} {P : α → Prop} {Q : β → Prop}

/-- Part of an instruction, with what its value satisfies unless it fails. -/
def Goes (s₀ : State ω) (P : α → Prop) (m : Interp ω α) : Prop :=
  ∀ s, Still s₀ s → wp m (fun a s' => Still s₀ s' ∧ P a) (fun _ => Still s₀) s

theorem goes_pure {a : α} (h : P a) : Goes s₀ P (pure a) := fun _ hs => ⟨hs, h⟩

theorem goes_throw (e : Fault InterpError) : Goes s₀ P (throw e) := fun _ hs => hs

theorem goes_bind {m : Interp ω α} {f : α → Interp ω β} (hm : Keeps (Still s₀) m) (hf : ∀ a, Goes s₀ Q (f a)) :
    Goes s₀ Q (m >>= f) :=
  fun s hs => (wp_bind _).mpr (wp_mono (fun a s' hs' => hf a s' hs') (fun _ _ hs' => hs') (hm s hs))

theorem goes_get {f : State ω → Interp ω β} (hf : ∀ s, Still s₀ s → Goes s₀ Q (f s)) : Goes s₀ Q (get >>= f) :=
  fun s hs => (wp_bind _).mpr (wp_get.mpr (hf s hs s hs))

theorem goes_ite {p : Prop} [Decidable p] {m m' : Interp ω α} (hm : p → Goes s₀ P m) (hm' : ¬ p → Goes s₀ P m') :
    Goes s₀ P (if p then m else m') :=
  fun s hs => wp_ite.mpr ⟨fun h => hm h s hs, fun h => hm' h s hs⟩

theorem goes_unless {p : Prop} [Decidable p] {e : Fault InterpError} {m : Interp ω α} (hm : Goes s₀ P m) :
    Goes s₀ P (if p then throw e else m) :=
  goes_ite (fun _ => goes_throw _) fun _ => hm

theorem goes_lift {r : Rust InterpError α} {f : α → Interp ω β} {a : α} (hr : r = .ok a) (hf : Goes s₀ Q (f a)) :
    Goes s₀ Q (lift r >>= f) :=
  fun s hs => (wp_bind _).mpr ((wp_lift_ok hr).mpr (hf s hs))

theorem goes_set {s : State ω} (h : Still s₀ s) : Keeps (Still s₀) (set s : Interp ω Unit) := fun _ _ => h

theorem goes_seq {m : Interp ω Nat} {pc : Nat} (hm : Goes s₀ (· = pc) m) :
    Goes s₀ (Next.At pc) (m >>= fun pc => pure (.seq pc)) :=
  fun s hs => (wp_bind _).mpr (wp_mono (fun _ _ h => h) (fun _ _ h => h) (hm s hs))

variable {fr : Frame} {body rest : List UInt8} {i : Nat} (hfit : Fits body)
include hfit

theorem goes_idx {b : UInt8} {u : U32} (hb : b ∈ idxOpcodes) (h : body.drop i = u.raw ++ rest) :
    Goes s₀ (Next.At (i + u.raw.length)) (dispatch code F fr body i (decodeOp F b)) := by
  have hr : readU32 body InterpError.malformedCode i = .ok (u.val, i + u.raw.length) := readU32_at hfit h
  simp only [idxOpcodes, List.mem_cons, List.not_mem_nil, or_false] at hb
  rcases hb with rfl | rfl | rfl | rfl | rfl | rfl | rfl | rfl
  · exact goes_lift hr (goes_pure rfl)
  · exact goes_lift hr (goes_bind still_vPop fun _ => goes_ite (fun _ => goes_pure rfl) fun _ => goes_pure rfl)
  · exact goes_lift hr (goes_pure rfl)
  · exact goes_lift hr (goes_unless (goes_unless (goes_bind (still_vPush _) fun _ => goes_pure rfl)))
  · exact goes_lift hr (goes_unless (goes_bind still_vPop fun _ => goes_unless
      (goes_bind (still_setFrame _) fun _ => goes_pure rfl)))
  · exact goes_lift hr (goes_unless (goes_get fun _ _ => goes_unless (goes_unless
      (goes_bind (still_setFrame _) fun _ => goes_pure rfl))))
  · exact goes_lift hr
      (goes_unless (goes_unless (goes_get fun _ _ => goes_bind (still_vPush _) fun _ => goes_pure rfl)))
  · exact goes_lift hr (goes_unless (goes_bind (still_lift _) fun _ => goes_unless (goes_bind still_vPop fun _ =>
      goes_bind (keeps_modify fun _ hs => still_set hs rfl rfl rfl) fun _ => goes_pure rfl)))

theorem goes_mem {b : UInt8} {align offset : U32} (hb : 0x28 ≤ b.toNat ∧ b.toNat ≤ 0x3E)
    (h : body.drop i = align.raw ++ (offset.raw ++ rest)) :
    Goes s₀ (Next.At (i + align.raw.length + offset.raw.length)) (dispatch code F fr body i (decodeOp F b)) := by
  have hr : readMemarg body i = .ok (offset.val, i + align.raw.length + offset.raw.length) := by
    unfold readMemarg
    rw [readU32_at hfit h, bind_ok]
    exact readU32_at hfit (drop_append_length h)
  rcases decodeOp_mem (F := F) hb with ⟨w, ext, hop⟩ | ⟨w, hop⟩
  · rw [hop]
    exact goes_seq (goes_lift hr (goes_bind still_vPop fun _ => goes_get fun _ _ => goes_unless
      (goes_bind (still_memSlice _ _) fun _ => goes_bind (still_vPush _) fun _ => goes_pure rfl)))
  · rw [hop]
    exact goes_seq (goes_lift hr (goes_bind still_vPop fun _ => goes_bind still_vPop fun _ =>
      goes_get fun _ hs => goes_unless
      (goes_bind (still_memSlice _ _) fun _ => goes_bind (goes_set (still_set hs rfl rfl rfl)) fun _ =>
      goes_pure rfl)))

omit hfit in
/-- A `br_table` reads all its labels and keeps the selected one. -/
theorem brTable_labels (hfit : Fits body) (sel : Nat) : ∀ (labels : List U32) (k pos target : Nat),
    body.drop pos = labels.flatMap U32.raw ++ rest →
    ∃ target', iter (brTable.step body sel) labels.length (k, pos, target) =
        .ok (k + labels.length, pos + (labels.flatMap U32.raw).length, target') ∧
      (sel < k → target' = target) ∧ ∀ j u, labels[j]? = some u → sel = k + j → target' = u.val
  | [], k, pos, target, _ => ⟨target, rfl, fun _ => rfl, nofun⟩
  | u :: us, k, pos, target, h => by
    rw [List.flatMap_cons, List.append_assoc] at h
    obtain ⟨target', hiter, hout, hin⟩ := brTable_labels hfit sel us (k + 1) (pos + u.raw.length)
      (if k = sel then u.val else target) (drop_append_length h)
    refine ⟨target', ?_, ?_, ?_⟩
    · rw [List.length_cons, iter, brTable.step, readU32_at hfit h]
      show iter (brTable.step body sel) us.length (k + 1, pos + u.raw.length, if k = sel then u.val else target) = _
      rw [hiter, List.flatMap_cons, List.length_append, Nat.add_assoc k, Nat.add_comm 1, Nat.add_assoc pos]
    · intro hlt
      rw [hout (by omega), if_neg (by omega)]
    · intro j v hj hsel
      cases j with
      | zero =>
        cases hj
        rw [hout (by omega), if_pos (by omega)]
      | succ j => exact hin j v hj (by omega)

theorem goes_brTable {count default : U32} {labels : List U32} (hlen : labels.length = count.val)
    (h : body.drop i = count.raw ++ (labels.flatMap U32.raw ++ (default.raw ++ rest))) :
    Goes s₀ (Next.At (i + (count.raw ++ (labels.flatMap U32.raw ++ default.raw)).length))
    (dispatch code F fr body i .brTable) := by
  have h' : body.drop (i + count.raw.length) = (labels ++ [default]).flatMap U32.raw ++ rest := by
    rw [drop_append_length h]
    simp [List.append_assoc]
  refine goes_lift (readU32_at hfit h) (goes_bind still_vPop fun v => ?_)
  dsimp only
  obtain ⟨target, hiter, _⟩ :=
    brTable_labels hfit (if (lo32 v).toNat < count.val then (lo32 v).toNat else count.val)
    (labels ++ [default]) 0 (i + count.raw.length) 0 h'
  rw [List.length_append, List.length_singleton, hlen] at hiter
  refine goes_lift hiter (goes_pure ?_)
  simp [Next.At, List.flatMap_append, Nat.add_assoc]

/-- A well-formed instruction without nested ones ends behind its immediates. -/
theorem goes_plain {p : Plain} (hwf : p.WF) (h : body.drop i = p.bytes ++ rest) : ∃ b, body[i]? = some b ∧
    Goes s₀ (Next.At (i + p.bytes.length)) (dispatch code F fr body (i + 1) (decodeOp F b)) := by
  cases p with
  | op b =>
    refine ⟨b, get_of_drop h, ?_⟩
    rcases hwf with hb | hb
    · simp only [opcodes, List.mem_cons, List.not_mem_nil, or_false] at hb
      rcases hb with rfl | rfl | rfl | rfl | rfl
      · exact goes_throw _
      · exact goes_pure rfl
      · exact goes_pure trivial
      · exact goes_bind still_vPop fun _ => goes_pure rfl
      · exact goes_bind still_vPop fun _ => goes_bind still_vPop fun _ => goes_bind still_vPop fun _ =>
          goes_bind (still_vPush _) fun _ => goes_pure rfl
    · rcases decodeOp_num (F := F) hb with hop | ⟨op, hop⟩
      · rw [hop]
        exact goes_pure rfl
      · rw [hop]
        exact goes_bind (still_execNum op) fun _ => goes_pure rfl
  | idx b u =>
    refine ⟨b, get_of_drop h, ?_⟩
    have hgo : Goes s₀ (Next.At (i + 1 + u.raw.length)) (dispatch code F fr body (i + 1) (decodeOp F b)) :=
      goes_idx hfit hwf (drop_succ h)
    rw [Nat.add_assoc, Nat.add_comm 1] at hgo
    exact hgo
  | brTable count labels default =>
    simp only [Plain.bytes, List.cons_append, List.append_assoc] at h
    refine ⟨_, get_of_drop h, ?_⟩
    have hgo : Goes s₀ (Next.At (i + 1 + (count.raw ++ (labels.flatMap U32.raw ++ default.raw)).length))
        (dispatch code F fr body (i + 1) .brTable) := goes_brTable hfit hwf (drop_succ h)
    rw [Nat.add_assoc, Nat.add_comm 1] at hgo
    exact hgo
  | callIndirect type table =>
    simp only [Plain.bytes, List.cons_append, List.append_assoc] at h
    refine ⟨_, get_of_drop h, ?_⟩
    have h1 := drop_succ h
    refine goes_lift (readU32_at hfit h1) (goes_lift (readU32_at hfit (drop_append_length h1))
      (goes_bind still_vPop fun _ => ?_))
    refine goes_unless (goes_unless (goes_unless (goes_unless (goes_pure ?_))))
    simp only [Next.At, Plain.bytes, List.length_cons, List.length_append]
    omega
  | mem b align offset =>
    simp only [Plain.bytes, List.cons_append, List.append_assoc] at h
    refine ⟨b, get_of_drop h, ?_⟩
    have hlen : i + (Plain.mem b align offset).bytes.length = i + 1 + align.raw.length + offset.raw.length := by
      simp only [Plain.bytes, List.length_cons, List.length_append]
      omega
    rw [hlen]
    exact goes_mem hfit hwf (drop_succ h)
  | memPages b =>
    refine ⟨b, get_of_drop h, ?_⟩
    rcases hwf with rfl | rfl
    · exact goes_get fun _ _ => goes_bind (still_vPush _) fun _ => goes_pure rfl
    · exact goes_bind still_execMemoryGrow fun _ => goes_pure rfl
  | i32Const c =>
    refine ⟨_, get_of_drop h, ?_⟩
    obtain ⟨v, hr⟩ := readI32_at (e := InterpError.malformedCode) hfit (drop_succ h)
    refine goes_lift hr (goes_bind (still_vPush _) fun _ => goes_pure ?_)
    simp only [Next.At, Plain.bytes, List.length_cons]
    omega
  | i64Const c =>
    refine ⟨_, get_of_drop h, ?_⟩
    obtain ⟨v, hr⟩ := readI64_at (e := InterpError.malformedCode) hfit (drop_succ h)
    refine goes_lift hr (goes_bind (still_vPush _) fun _ => goes_pure ?_)
    simp only [Next.At, Plain.bytes, List.length_cons]
    omega
  | f32Const c =>
    refine ⟨_, get_of_drop h, goes_unless (goes_bind (still_vPush _) fun _ => goes_pure ?_)⟩
    simp only [Next.At, Plain.bytes, List.length_cons, show c.length = 4 from hwf]
  | f64Const c =>
    refine ⟨_, get_of_drop h, goes_unless (goes_bind (still_vPush _) fun _ => goes_pure ?_)⟩
    simp only [Next.At, Plain.bytes, List.length_cons, show c.length = 8 from hwf]
  | truncSat sub =>
    refine ⟨_, get_of_drop h, goes_seq (goes_lift (readU32_at hfit (drop_succ h)) ?_)⟩
    refine goes_ite (fun _ => ?_) fun hn => absurd hwf hn
    refine goes_bind still_vPop fun _ => goes_bind (still_vPush _) fun _ => goes_pure ?_
    simp only [Plain.bytes, List.length_cons]
    omega
  | memoryInit sub seg =>
    simp only [Plain.bytes, List.cons_append, List.append_assoc] at h
    have h1 := drop_succ h
    refine ⟨_, get_of_drop h, goes_seq (goes_lift (readU32_at hfit h1) ?_)⟩
    rw [show sub.val = 8 from hwf]
    refine goes_lift (readU32_at hfit (drop_append_length h1)) (goes_bind still_vPop fun _ =>
      goes_bind still_vPop fun _ =>
      goes_bind still_vPop fun _ => goes_unless (goes_pure ?_))
    simp only [Plain.bytes, List.length_cons, List.length_append, List.length_nil]
    omega
  | dataDrop sub seg =>
    simp only [Plain.bytes, List.cons_append, List.append_assoc] at h
    have h1 := drop_succ h
    refine ⟨_, get_of_drop h, goes_seq (goes_lift (readU32_at hfit h1) ?_)⟩
    rw [show sub.val = 9 from hwf]
    refine goes_lift (readU32_at hfit (drop_append_length h1)) (goes_pure ?_)
    simp only [Plain.bytes, List.length_cons, List.length_append]
    omega
  | memoryCopy sub =>
    simp only [Plain.bytes, List.cons_append, List.append_assoc] at h
    refine ⟨_, get_of_drop h, goes_seq (goes_lift (readU32_at hfit (drop_succ h)) ?_)⟩
    rw [show sub.val = 10 from hwf]
    refine goes_bind still_execMemoryCopy fun _ => goes_pure ?_
    simp only [Plain.bytes, List.length_cons, List.length_append, List.length_nil]
    omega
  | memoryFill sub =>
    simp only [Plain.bytes, List.cons_append, List.append_assoc] at h
    refine ⟨_, get_of_drop h, goes_seq (goes_lift (readU32_at hfit (drop_succ h)) ?_)⟩
    rw [show sub.val = 11 from hwf]
    refine goes_bind still_execMemoryFill fun _ => goes_pure ?_
    simp only [Plain.bytes, List.length_cons, List.length_append, List.length_nil]
    omega

end

/-! ## The entries of a frame -/

/-- `ctrl[lo..hi]` -/
def entries (ctrl : Nat → CtrlFrame) (lo hi : Nat) : List CtrlFrame := (List.range' lo (hi - lo)).map ctrl

theorem entries_nil (ctrl : Nat → CtrlFrame) (d : Nat) : entries ctrl d d = [] := by
  unfold entries
  rw [Nat.sub_self]
  rfl

theorem entries_congr {ctrl ctrl' : Nat → CtrlFrame} {lo hi : Nat} (h : ∀ i < hi, ctrl' i = ctrl i) :
    entries ctrl' lo hi = entries ctrl lo hi := by
  unfold entries
  refine List.map_congr_left fun i hi => h i ?_
  rw [List.mem_range'_1] at hi
  omega

theorem entries_push (ctrl : Nat → CtrlFrame) (cf : CtrlFrame) {lo hi : Nat} (h : lo ≤ hi) :
    entries (upd ctrl hi cf) lo (hi + 1) = entries ctrl lo hi ++ [cf] := by
  have hsame : entries (upd ctrl hi cf) lo hi = entries ctrl lo hi :=
    entries_congr fun i hi => upd_of_ne _ _ (Nat.ne_of_lt hi)
  rw [← hsame]
  unfold entries
  rw [show hi + 1 - lo = (hi - lo) + 1 by omega, List.range'_concat, List.map_append, List.map_singleton,
    Nat.one_mul,
    show lo + (hi - lo) = hi by omega, upd_self]

theorem entries_split {ctrl : Nat → CtrlFrame} {lo hi : Nat} {cf : CtrlFrame} {below above : List CtrlFrame}
    (h : entries ctrl lo hi = below ++ cf :: above) : hi = lo + below.length + 1 + above.length ∧
      ctrl (lo + below.length) = cf ∧ entries ctrl lo (lo + below.length) = below := by
  have hlen := congrArg List.length h
  simp only [entries, List.length_map, List.length_range', List.length_append, List.length_cons] at hlen
  obtain ⟨n, rfl⟩ : ∃ n, hi = lo + n := ⟨hi - lo, by omega⟩
  have hn : n = below.length + (1 + above.length) := by omega
  subst hn
  unfold entries at h ⊢
  rw [Nat.add_sub_cancel_left, ← List.range'_append_1, List.map_append] at h
  obtain ⟨h1, h2⟩ := List.append_inj h (by rw [List.length_map, List.length_range'])
  rw [Nat.add_comm 1, List.range'_succ, List.map_cons] at h2
  rw [Nat.add_sub_cancel_left]
  exact ⟨by omega, (List.cons.inj h2).1, h1⟩

/-! ## The invariant -/

def BlockPos.entry (q : BlockPos) : CtrlFrame := ⟨q.kind, q.start, q.endPos⟩

section
variable {ω : Type}

/-- The frame is at a position of its body, and its entries are the blocks around it. -/
def FrameAt (trees : List Expr) (ctrl : Nat → CtrlFrame) (top : Nat) (fr : Frame) : Prop :=
  ∃ e hs k u, trees[fr.bodyIdx]? = some e ∧ Spot 0x0B e 0 fr.pc hs k u ∧ fr.ctrlBase ≤ top ∧
    entries ctrl fr.ctrlBase top = hs.map fun h => h.entry

/-- Each frame's entries end where those of the frame above it start. -/
def Nested (trees : List Expr) (ctrl : Nat → CtrlFrame) : Nat → List Frame → Prop
  | _, [] => True
  | top, fr :: rest => FrameAt trees ctrl top fr ∧ Nested trees ctrl fr.ctrlBase rest

structure Labelled (trees : List Expr) (s : State ω) : Prop where
  depth : s.ctrlDepth ≤ MAX_CTRL_DEPTH
  nested : Nested trees s.ctrl s.ctrlDepth s.frames

theorem FrameAt.congr {trees : List Expr} {ctrl ctrl' : Nat → CtrlFrame} {top : Nat} {fr fr' : Frame}
    (h : FrameAt trees ctrl top fr) (hc : ∀ i < top, ctrl' i = ctrl i) (hfr : fr'.sig = fr.sig) :
    FrameAt trees ctrl' top fr' := by
  obtain ⟨e, hs, k, u, he, hsp, hbase, hent⟩ := h
  obtain ⟨h1, h2, _, h4, _⟩ := Frame.sig_eq hfr
  refine ⟨e, hs, k, u, by rw [h1]; exact he, by rw [h2]; exact hsp, by rw [h4]; exact hbase, ?_⟩
  rw [h4, entries_congr hc]
  exact hent

theorem Nested.congr {trees : List Expr} {ctrl ctrl' : Nat → CtrlFrame} :
    ∀ {frames frames' : List Frame} {top : Nat},
    Nested trees ctrl top frames → (∀ i < top, ctrl' i = ctrl i) → frames'.map Frame.sig = frames.map Frame.sig →
    Nested trees ctrl' top frames'
  | [], frames', top, _, _, hf => by
    rw [List.map_nil, List.map_eq_nil_iff] at hf
    subst hf
    trivial
  | fr :: rest, [], top, _, _, hf => by cases hf
  | fr :: rest, fr' :: rest', top, h, hc, hf => by
    simp only [List.map_cons, List.cons.injEq] at hf
    have hbase : fr.ctrlBase ≤ top := by
      obtain ⟨_, _, _, _, _, _, hbase, _⟩ := h.1
      exact hbase
    have hbase' : fr'.ctrlBase = fr.ctrlBase := (Frame.sig_eq hf.1).2.2.2.1
    refine ⟨h.1.congr hc hf.1, ?_⟩
    rw [hbase']
    exact h.2.congr (fun i hi => hc i (Nat.lt_of_lt_of_le hi hbase)) hf.2

theorem Labelled.still {trees : List Expr} {s₀ s : State ω} (h : Labelled trees s₀) (hs : Still s₀ s) :
    Labelled trees s := by
  refine ⟨by rw [hs.ctrlDepth]; exact h.depth, ?_⟩
  rw [hs.ctrlDepth]
  exact h.nested.congr (fun i _ => congrFun hs.ctrl i) hs.frames

/-! ## Rounds -/

/-- Neither `memory.init` nor `data.drop`. -/
def Plain.NoSegment : Plain → Prop
  | .memoryInit _ _ | .dataDrop _ _ => False
  | _ => True

theorem BlockAt.scannable {e : Expr} {o : Nat} {q : BlockPos} (hq : BlockAt e o q)
    (h : e.All Plain.NoSegment) : q.Scannable := by
  have hall : ∀ {e : Expr}, e.All Plain.NoSegment → e.All Plain.Scannable := by
    intro e
    induction e with
    | nil => exact fun _ => trivial
    | plain p k ih =>
      refine fun h => ⟨?_, ih h.2⟩
      cases p with
      | memoryInit => exact h.1.elim
      | dataDrop => exact h.1.elim
      | _ => trivial
    | block kind bt body k ih ih' => exact fun h => ⟨ih h.1, ih' h.2⟩
    | ifElse bt thn els k ih ih' ih'' => exact fun h => ⟨ih h.1, ih' h.2.1, ih'' h.2.2⟩
  induction hq with
  | block => exact ⟨hall h.1, nofun⟩
  | ifElse =>
    refine ⟨hall h.1, fun els hels => ?_⟩
    cases hels
    exact hall h.2.1
  | inBlock _ ih => exact ih h.1
  | inThn _ ih => exact ih h.1
  | inEls _ ih => exact ih h.2.1
  | afterPlain _ ih => exact ih h.2
  | afterBlock _ ih => exact ih h.2
  | afterIfElse _ ih => exact ih h.2.2

def State.atPc (s : State ω) (pc : Nat) : State ω :=
  { s with frames := match s.frames with | [] => [] | fr :: rest => { fr with pc } :: rest }

variable {trees : List Expr} {code : Code (HostFn ω)} {F : FloatOps} {s : State ω} {fr : Frame} {rest : List Frame}

theorem labelled_callHost {h : HostFn ω} : Keeps (Labelled trees) (callHost code h) :=
  fun _ hs => (wp_callHost code).mpr (wp_of_forall (fun _ _ => ⟨hs.depth, hs.nested⟩) fun _ _ =>
    ⟨hs.depth, hs.nested⟩)

theorem labelled_doReturn : Keeps (Labelled (ω := ω) trees) doReturn := by
  refine keeps_get fun s hs => ?_
  cases hfr : s.frames with
  | nil => exact hs
  | cons fr rest =>
    refine wp_ite.mpr ⟨fun _ => hs, fun _ => (wp_set _).mpr ?_⟩
    have hn := hs.nested
    rw [hfr] at hn
    obtain ⟨_, _, _, _, _, _, hbase, _⟩ := hn.1
    exact ⟨Nat.le_trans hbase hs.depth, hn.2⟩

theorem doBr_run {h : Hole} {hs₁ hs₂ : List Hole} (hs : Labelled trees s) (hfr : s.frames = fr :: rest)
    (hent : entries s.ctrl fr.ctrlBase s.ctrlDepth = (hs₁ ++ h :: hs₂).map fun h => h.entry) :
    doBr hs₂.length s = .ok () (match h.kind with
      | .loop => { s with ctrlDepth := fr.ctrlBase + hs₁.length + 1, frames := { fr with pc := h.start } :: rest }
      | _ =>
        { s with ctrlDepth := fr.ctrlBase + hs₁.length, frames := { fr with pc := h.endPos + 1 } :: rest }) := by
  rw [List.map_append, List.map_cons] at hent
  obtain ⟨hdepth, hat, _⟩ := entries_split hent
  rw [List.length_map] at hat hdepth
  rw [List.length_map] at hdepth
  have hmax := hs.depth
  have htarget : s.ctrlDepth - 1 - hs₂.length = fr.ctrlBase + hs₁.length := by omega
  unfold doBr
  rw [get_bind]
  simp only [hfr]
  rw [if_neg (by omega), if_neg (by omega), htarget, if_neg (by omega), hat]
  cases hk : h.kind with
  | loop => simp only [BlockPos.entry, hk]; rfl
  | block => simp only [BlockPos.entry, hk]; rfl
  | if_ => simp only [BlockPos.entry, hk]; rfl

theorem doBr_returns {hs : List Hole} {n : Nat} (hfr : s.frames = fr :: rest) (hbase : fr.ctrlBase ≤ s.ctrlDepth)
    (hent : entries s.ctrl fr.ctrlBase s.ctrlDepth = hs.map fun h => h.entry) (hn : hs.length ≤ n) :
    doBr n s = doReturn s := by
  have hlen := congrArg List.length hent
  simp only [entries, List.length_map, List.length_range'] at hlen
  unfold doBr
  rw [get_bind]
  simp only [hfr]
  rw [if_neg (by omega), if_pos (by omega)]

theorem labelled_doBr (n : Nat) : Keeps (Labelled (ω := ω) trees) (doBr n) := by
  intro s hs
  cases hfr : s.frames with
  | nil =>
    unfold doBr
    refine (wp_bind _).mpr (wp_get.mpr ?_)
    simp only [hfr]
    exact hs
  | cons fr rest =>
    have hn := hs.nested
    rw [hfr] at hn
    obtain ⟨⟨e, hs', k, u, he, sp, hbase, hent⟩, hrest⟩ := hn
    by_cases hlt : n < hs'.length
    · obtain ⟨hs₁, h, hs₂, rfl, rfl⟩ : ∃ hs₁ h hs₂, hs' = hs₁ ++ h :: hs₂ ∧ hs₂.length = n := by
        refine ⟨hs'.take (hs'.length - 1 - n), hs'[hs'.length - 1 - n], hs'.drop (hs'.length - 1 - n + 1), ?_, ?_⟩
        · rw [List.getElem_cons_drop, List.take_append_drop]
        · rw [List.length_drop]
          omega
      have hent' := hent
      rw [List.map_append, List.map_cons] at hent'
      obtain ⟨hdepth, hat, hbelow⟩ := entries_split hent'
      simp only [List.length_map] at hdepth hat hbelow
      have hmax := hs.depth
      unfold wp
      rw [doBr_run hs hfr hent]
      cases hk : h.kind with
      | loop =>
        obtain ⟨w, sp'⟩ := sp.restart
        refine ⟨by simp only; omega,
          ⟨e, hs₁ ++ [h], _, w, he, sp', Nat.le_add_right_of_le (Nat.le_add_right _ _), ?_⟩, hrest⟩
        have hupd : upd s.ctrl (fr.ctrlBase + hs₁.length) h.entry = s.ctrl := by
          funext i
          by_cases hi : i = fr.ctrlBase + hs₁.length
          · rw [hi, upd_self, hat]
          · exact upd_of_ne _ _ hi
        have := entries_push s.ctrl h.entry (Nat.le_add_right fr.ctrlBase hs₁.length)
        rw [hupd, hbelow] at this
        rw [List.map_append]
        exact this
      | block =>
        obtain ⟨w, sp'⟩ := sp.leave
        exact ⟨by simp only; omega, ⟨e, hs₁, _, w, he, sp', Nat.le_add_right _ _, hbelow⟩, hrest⟩
      | if_ =>
        obtain ⟨w, sp'⟩ := sp.leave
        exact ⟨by simp only; omega, ⟨e, hs₁, _, w, he, sp', Nat.le_add_right _ _, hbelow⟩, hrest⟩
    · rw [wp_congr (doBr_returns hfr hbase hent (Nat.le_of_not_lt hlt))]
      exact labelled_doReturn s hs

/-- A computation that only changes values, locals and memory. -/
theorem labelled_of_still {α : Type} {m : Interp ω α} (h : ∀ s₀, Keeps (Still s₀) m) : Keeps (Labelled trees) m :=
  fun s hs => wp_mono (fun _ _ => hs.still) (fun _ _ => hs.still) (h s s (.refl s))

theorem still_popParams {s₀ : State ω} :
    ∀ (n : Nat) (locals : Nat → BitVec 64), Keeps (Still s₀) (popParams n locals)
  | 0, _ => keeps_pure _
  | n + 1, _ => keeps_bind still_vPop fun _ => keeps_ite (fun _ => keeps_throw _) fun _ => still_popParams n _

theorem labelled_pushFrame {bodyIdx : Nat} {e : Expr} (he : trees[bodyIdx]? = some e) :
    Keeps (Labelled trees) (pushFrame code bodyIdx) := by
  refine keeps_get fun s hs => wp_ite.mpr ⟨fun _ => hs, fun _ => ?_⟩
  refine keeps_bind (labelled_of_still fun _ => still_lift _) (fun _ => ?_) s hs
  refine keeps_bind (labelled_of_still fun _ => still_lift _) fun _ => ?_
  refine keeps_ite (fun _ => keeps_throw _) fun _ => ?_
  refine keeps_bind (labelled_of_still fun _ => still_popParams _ _) fun locals => keeps_modify fun s hs => ?_
  exact ⟨hs.depth, ⟨e, [], e, 0x0B, he, .here, Nat.le_refl _, entries_nil _ _⟩, hs.nested⟩

/-- The trees of the bodies: each is a well-nested sequence without `memory.init` and `data.drop`. -/
structure WellNested (trees : List Expr) (code : Code (HostFn ω)) : Prop where
  bodies : code.bodies = trees.map Expr.body
  wf : ∀ e ∈ trees, e.All Plain.WF
  noSegments : ∀ e ∈ trees, e.All Plain.NoSegment
  count : code.bodies.length ≤ MAX_FUNCS
  length : ∀ b ∈ code.bodies, b.length < 2 ^ 32
  jumps : code.jumpTable = buildJumpTable code.bodies

theorem WellNested.bodies_get (hc : WellNested trees code) {i : Nat} {e : Expr} (he : trees[i]? = some e) :
    code.bodies[i]? = some e.body := by
  rw [hc.bodies, List.getElem?_map, he]
  rfl

theorem WellNested.fits (hc : WellNested trees code) {i : Nat} {e : Expr} (he : trees[i]? = some e) :
    Fits e.body := by
  have := hc.length _ (List.mem_of_getElem? (hc.bodies_get he))
  unfold Fits
  omega

theorem labelled_invoke (hc : WellNested trees code) (callee : Nat) :
    Keeps (Labelled trees) (invoke code callee) := by
  unfold invoke
  refine keeps_ite (fun _ => keeps_ite (fun _ => keeps_throw _) fun _ => ?_) fun _ =>
    keeps_ite (fun _ => keeps_throw _) fun hlt => ?_
  · cases code.hostFns callee with
    | none => exact keeps_throw _
    | some h => exact labelled_callHost
  · have hlt' : callee - code.importCount < trees.length := by
      have := congrArg List.length hc.bodies
      rw [List.length_map] at this
      omega
    exact labelled_pushFrame (List.getElem?_eq_getElem hlt')

/-- A lookup that succeeds gives the block's own `end` and `else`. -/
theorem blockTargets_block (hc : WellNested trees code) {i : Nat} {e : Expr} (he : trees[i]? = some e)
    {q : BlockPos}
    (hq : BlockAt e 0 q) {t : Nat × Nat} (ht : blockTargets code i e.body q.start = .ok t) : t = q.jump := by
  have hscan : scanBlockEnd e.body q.start = some q.jump := by
    have hmem := List.mem_of_getElem? he
    exact scan_block (hc.wf e hmem) hq (hq.scannable (hc.noSegments e hmem))
  have hbody : code.bodies.getD i [] = e.body := by
    rw [List.getD_eq_getElem?_getD, hc.bodies_get he]
    rfl
  unfold blockTargets at ht
  rw [hc.jumps] at ht
  obtain ⟨r, hr, ht⟩ := bind_eq_ok.mp ht
  rw [mapErr_eq_ok] at hr
  have hor := jumpLookup_or_scan hc.count hc.length hr
  rw [hbody, hscan] at hor
  cases r with
  | some t' =>
    cases ht
    exact Option.some.inj hor
  | none =>
    simp only [scanBlockEnd_checked (hc.fits he), hscan] at ht
    cases ht
    rfl

/-- The frame that runs goes to another position of its body. -/
theorem Labelled.move {s' : State ω} (hs : Labelled trees s) (hfr : s.frames = fr :: rest) {e k : Expr}
    {hs' : List Hole} {u : UInt8}
    {pc : Nat} (he : trees[fr.bodyIdx]? = some e) (sp : Spot 0x0B e 0 pc hs' k u)
    (hframes : s'.frames = { fr with pc } :: rest)
    (hdepth : s'.ctrlDepth ≤ MAX_CTRL_DEPTH) (hbase : fr.ctrlBase ≤ s'.ctrlDepth)
    (hbelow : ∀ i < fr.ctrlBase, s'.ctrl i = s.ctrl i)
    (hent : entries s'.ctrl fr.ctrlBase s'.ctrlDepth = hs'.map fun h => h.entry) : Labelled trees s' := by
  have hn := hs.nested
  rw [hfr] at hn
  refine ⟨hdepth, ?_⟩
  rw [hframes]
  exact ⟨⟨e, hs', k, u, he, sp, hbase, hent⟩, hn.2.congr hbelow rfl⟩

/-- What an instruction leaves for the end of the round. -/
def Ready (trees : List Expr) (next : Next) (s : State ω) : Prop :=
  match next with
  | .seq pc => Labelled trees (s.atPc pc)
  | .br pc _ => Labelled trees (s.atPc pc)
  | .call pc _ => Labelled trees (s.atPc pc)
  | .ret => Labelled trees s

theorem atPc_frames {pc : Nat} (hfr : s.frames = fr :: rest) : (s.atPc pc).frames = { fr with pc } :: rest := by
  unfold State.atPc
  rw [hfr]

section
variable {e k : Expr} {hs' : List Hole} {u : UInt8} (hc : WellNested trees code) (hs : Labelled trees s)
  (hfr : s.frames = fr :: rest)
  (he : trees[fr.bodyIdx]? = some e) (hbase : fr.ctrlBase ≤ s.ctrlDepth)
  (hent : entries s.ctrl fr.ctrlBase s.ctrlDepth = hs'.map fun h => h.entry)
include hs hfr he hbase hent

theorem ready_push {h : Hole} {pc' : Nat} (sp : Spot 0x0B e 0 pc' (hs' ++ [h]) k u) :
    wp (ctrlPush h.entry >>= fun _ => (pure (.seq pc') : Interp ω Next)) (Ready trees)
    (fun _ => Labelled trees) s := by
  refine (wp_bind _).mpr ((wp_bind _).mpr (wp_get.mpr (wp_ite.mpr ⟨fun _ => hs, fun hmax => (wp_set _).mpr ?_⟩)))
  refine hs.move hfr he sp (atPc_frames hfr) (Nat.lt_of_not_le hmax) (Nat.le_succ_of_le hbase)
    (fun i hi => upd_of_ne _ _ (by omega)) ?_
  show entries (upd s.ctrl s.ctrlDepth h.entry) fr.ctrlBase (s.ctrlDepth + 1) = _
  rw [entries_push _ _ hbase, hent, List.map_append]
  rfl

theorem ready_plain {p : Plain} {next : Next} {s' : State ω} (sp : Spot 0x0B e 0 fr.pc hs' (.plain p k) u)
    (hstill : Still s s') (hat : next.At (fr.pc + p.bytes.length)) : Ready trees next s' := by
  have hmove : Labelled trees (s'.atPc (fr.pc + p.bytes.length)) := by
    have sp' : Spot 0x0B e 0 (fr.pc + p.bytes.length) hs' k u := by
      have := sp.trans (.afterPlain .here)
      rw [List.append_nil] at this
      exact this
    have hto : Labelled trees (s.atPc (fr.pc + p.bytes.length)) :=
      hs.move hfr he sp' (atPc_frames hfr) hs.depth hbase (fun _ _ => rfl) hent
    refine hto.still ⟨hstill.ctrl, hstill.ctrlDepth, ?_⟩
    have hf := hstill.frames
    rw [hfr] at hf
    rw [atPc_frames hfr]
    unfold State.atPc
    cases hfr' : s'.frames with
    | nil => rw [hfr'] at hf; cases hf
    | cons fr' rest' =>
      rw [hfr'] at hf
      simp only [List.map_cons, List.cons.injEq] at hf ⊢
      obtain ⟨h1, _, h3, h4, h5, h6⟩ := Frame.sig_eq hf.1
      refine ⟨?_, hf.2⟩
      simp only [Frame.sig, h1, h3, h4, h5, h6]
  cases next with
  | seq pc => cases hat; exact hmove
  | br pc n => cases hat; exact hmove
  | call pc callee => cases hat; exact hmove
  | ret => exact hs.still hstill

omit hbase in
/-- The `end` of a block, or of the body. -/
theorem ready_end (sp : Spot 0x0B e 0 fr.pc hs' .nil 0x0B) :
    wp (dispatch code F fr e.body (fr.pc + 1) .end_) (Ready trees) (fun _ => Labelled trees) s := by
  refine (wp_bind _).mpr (wp_get.mpr (wp_ite.mpr ⟨fun hlt => (wp_bind _).mpr ((wp_set _).mpr ?_), fun _ => hs⟩))
  rcases sp.closer with ⟨rfl, _⟩ | ⟨hs₁, h, rfl, ⟨_, hend⟩ | hu⟩
  · have hlen := congrArg List.length hent
    simp only [entries, List.length_map, List.length_range', List.length_nil] at hlen
    omega
  · rw [List.map_append, List.map_singleton] at hent
    obtain ⟨hdepth, _, hbelow⟩ := entries_split hent
    simp only [List.length_map, List.length_nil] at hdepth hbelow
    obtain ⟨w, sp'⟩ := sp.leave
    have hmax := hs.depth
    have hd : s.ctrlDepth - 1 = fr.ctrlBase + hs₁.length := by omega
    rw [← hend, Expr.bytes, List.length_nil, Nat.add_zero] at sp'
    refine hs.move hfr he sp' (atPc_frames hfr) (show s.ctrlDepth - 1 ≤ _ by omega)
      (show _ ≤ s.ctrlDepth - 1 by omega)
      (fun _ _ => rfl) ?_
    show entries s.ctrl fr.ctrlBase (s.ctrlDepth - 1) = _
    rw [hd, hbelow]
  · exact absurd hu (by decide)

omit hbase in
/-- An `else` that is reached: the block is left. -/
theorem ready_else (sp : Spot 0x0B e 0 fr.pc hs' .nil 0x05) :
    wp (dispatch code F fr e.body (fr.pc + 1) .else_) (Ready trees) (fun _ => Labelled trees) s := by
  refine (wp_bind _).mpr (wp_get.mpr (wp_ite.mpr ⟨fun _ => hs, fun hin => (wp_bind _).mpr ((wp_set _).mpr ?_)⟩))
  rcases sp.closer with ⟨_, hu, _⟩ | ⟨hs₁, h, rfl, _⟩
  · exact absurd hu (by decide)
  · rw [List.map_append, List.map_singleton] at hent
    obtain ⟨hdepth, hat, hbelow⟩ := entries_split hent
    simp only [List.length_map, List.length_nil] at hdepth hat hbelow
    obtain ⟨w, sp'⟩ := sp.leave
    have hmax := hs.depth
    have hd : s.ctrlDepth - 1 = fr.ctrlBase + hs₁.length := by omega
    have hpc : (s.ctrl (s.ctrlDepth - 1)).endPc + 1 = h.endPos + 1 := by
      rw [hd, hat]
      rfl
    rw [← hpc] at sp'
    refine hs.move hfr he sp' (atPc_frames hfr) (show s.ctrlDepth - 1 ≤ _ by omega)
      (show _ ≤ s.ctrlDepth - 1 by omega)
      (fun _ _ => rfl) ?_
    show entries s.ctrl fr.ctrlBase (s.ctrlDepth - 1) = _
    rw [hd, hbelow]

include hc

theorem ready_block {kind : BlockKind} {bt : UInt8} {b : Expr}
    (sp : Spot 0x0B e 0 fr.pc hs' (.block kind bt b k) u) :
    wp (dispatch code F fr e.body (fr.pc + 1) (.block kind)) (Ready trees) (fun _ => Labelled trees) s := by
  refine (wp_bind _).mpr (wp_lift.mpr ⟨fun t ht => ?_, fun _ _ => hs⟩)
  have hq := sp.blockAt .block
  obtain rfl := blockTargets_block hc he hq ht
  exact ready_push hs hfr he hbase hent (sp.trans (.inBody .block .here))

/-- An `if` goes into one of its arms or behind its `end`. -/
theorem ready_if {h : Hole} (sp : Spot 0x0B e 0 fr.pc hs' k u) (hop : Opens k fr.pc h) (hkind : h.kind = .if_) :
    wp (dispatch code F fr e.body (fr.pc + 1) .if_) (Ready trees) (fun _ => Labelled trees) s := by
  obtain ⟨hstart, hlen, hparts⟩ := hop.length
  refine (wp_bind _).mpr (wp_lift.mpr ⟨fun t ht => ?_, fun _ _ => hs⟩)
  rw [show fr.pc + 1 + 1 = h.start from hstart] at ht ⊢
  obtain rfl := blockTargets_block hc he (sp.blockAt hop) ht
  have hentry : (⟨.if_, h.start, h.endPos⟩ : CtrlFrame) = h.entry := by
    rw [BlockPos.entry, hkind]
  refine (wp_bind _).mpr
    ((wp_bind _).mpr (wp_get.mpr (wp_ite.mpr ⟨fun _ => hs, fun _ => wp_ite.mpr ⟨fun _ => hs, fun _ => ?_⟩⟩)))
  refine (wp_bind _).mpr
    ((wp_set _).mpr ((wp_pure _).mpr
    (wp_ite.mpr ⟨fun _ => ?_, fun _ => wp_ite.mpr ⟨fun helse => ?_, fun hnone => ?_⟩⟩)))
  all_goals have hs₁ : Labelled trees { s with vsp := s.vsp - 1 } := ⟨hs.depth, hs.nested⟩
  · exact hentry ▸ ready_push hs₁ hfr he hbase hent (sp.trans (.inBody hop .here))
  · rcases hparts with ⟨_, hpos, _⟩ | ⟨els, elsePos, hels, hpos, _⟩
    · exact absurd (by simp only [hpos, Option.getD_none]) helse
    · have hsp := ready_push (s := { s with vsp := s.vsp - 1 }) hs₁ hfr he hbase hent
        (sp.trans (.inElse hop hels hpos .here))
      rw [← hentry] at hsp
      simp only [hpos, Option.getD_some]
      exact hsp
  · have sp' := sp.trans (.after hop .here)
    rw [List.append_nil] at sp'
    exact hs₁.move hfr he sp' (atPc_frames hfr) hs.depth hbase (fun _ _ => rfl) hent

theorem ready_dispatch (sp : Spot 0x0B e 0 fr.pc hs' k u) : ∃ b, e.body[fr.pc]? = some b ∧
    wp (dispatch code F fr e.body (fr.pc + 1) (decodeOp F b)) (Ready trees) (fun _ => Labelled trees) s := by
  obtain ⟨r, hr⟩ := sp.bytes (show e.body.drop 0 = e.bytes ++ 0x0B :: [] from rfl)
  cases k with
  | nil =>
    refine ⟨u, get_of_drop hr, ?_⟩
    rcases sp.closer with ⟨rfl, rfl, _⟩ | ⟨hs₁, h, rfl, ⟨rfl, _⟩ | rfl⟩
    · exact ready_end hs hfr he hent sp
    · exact ready_end hs hfr he hent sp
    · exact ready_else hs hfr he hent sp
  | plain p k =>
    rw [Expr.bytes, List.append_assoc] at hr
    have hwf : p.WF := (sp.all (hc.wf e (List.mem_of_getElem? he))).1
    obtain ⟨b, hb, hgo⟩ : ∃ b, e.body[fr.pc]? = some b ∧
        Goes s (Next.At (fr.pc + p.bytes.length)) (dispatch code F fr e.body (fr.pc + 1) (decodeOp F b)) :=
      goes_plain (hc.fits he) hwf hr
    refine ⟨b, hb, ?_⟩
    exact wp_mono (fun next s' h => ready_plain hs hfr he hbase hent sp h.1 h.2) (fun _ s' h => hs.still h)
      (hgo s (.refl s))
  | block kind bt b k =>
    refine ⟨kind.opcode, get_of_drop hr, ?_⟩
    cases kind with
    | block => exact ready_block hc hs hfr he hbase hent sp
    | loop => exact ready_block hc hs hfr he hbase hent sp
    | if_ => exact ready_if hc hs hfr he hbase hent sp .block rfl
  | ifElse bt thn els k =>
    refine ⟨0x04, get_of_drop hr, ?_⟩
    exact ready_if hc hs hfr he hbase hent sp .ifElse rfl

end

theorem labelled_finish (hc : WellNested trees code) {next : Next} (hs : Ready trees next s) :
    wp (finish code next) (fun _ => Labelled trees) (fun _ => Labelled trees) s := by
  have hset : ∀ {pc : Nat}, Labelled trees (s.atPc pc) →
      wp (setPc pc) (fun _ => Labelled trees) (fun _ => Labelled trees) s := by
    intro pc hat
    refine (wp_bind _).mpr (wp_get.mpr ?_)
    unfold State.atPc at hat
    cases hfr : s.frames with
    | nil =>
      rw [hfr] at hat
      exact ⟨hat.depth, by rw [hfr]; trivial⟩
    | cons fr rest =>
      rw [hfr] at hat
      exact hat
  cases next with
  | seq pc => exact hset hs
  | br pc n => exact (wp_bind _).mpr (wp_mono (fun _ s' h => labelled_doBr n s' h) (fun _ _ h => h) (hset hs))
  | ret => exact labelled_doReturn s hs
  | call pc callee =>
    exact (wp_bind _).mpr (wp_mono (fun _ s' h => labelled_invoke hc callee s' h) (fun _ _ h => h) (hset hs))

theorem WellNested.lt_max (hc : WellNested trees code) {i : Nat} {e : Expr} (he : trees[i]? = some e) :
    i < MAX_FUNCS := by
  have hlt : i < code.bodies.length := (List.getElem?_eq_some_iff.mp (hc.bodies_get he)).1
  exact Nat.lt_of_lt_of_le hlt hc.count

/-- A round keeps the control stack in step with the body, whether it fails or not. -/
theorem labelled_step (hc : WellNested trees code) : Keeps (Labelled trees) (step code F) := by
  intro s hs
  cases hy : s.yieldRequested with
  | true =>
    refine (wp_bind _).mpr (wp_get.mpr (wp_ite.mpr ⟨fun _ => ⟨hs.depth, hs.nested⟩, fun hno => absurd hy hno⟩))
  | false =>
    cases hfr : s.frames with
    | nil =>
      refine (wp_bind _).mpr (wp_get.mpr (wp_ite.mpr ⟨fun _ => ⟨hs.depth, hs.nested⟩, fun _ => ?_⟩))
      refine (wp_bind _).mpr ((wp_bind _).mpr (wp_get.mpr ?_))
      simp only [hfr]
      exact hs
    | cons fr rest =>
      have hn := hs.nested
      rw [hfr] at hn
      obtain ⟨⟨e, hs', k, u, he, sp, hbase, hent⟩, _⟩ := hn
      obtain ⟨b, hb, hd⟩ := ready_dispatch (F := F) hc hs hfr he hbase hent sp
      rw [wp_congr (step_dispatch hy hfr (hc.bodies_get he) (hc.lt_max he) hb), wp_bind]
      exact wp_mono (fun next s' h => labelled_finish hc h) (fun _ _ h => h) hd

theorem labelled_beginTask (hc : WellNested trees code) (funcIdx : Nat) (args : List (BitVec 32)) :
    Keeps (Labelled trees) (beginTask code funcIdx args) := by
  have hargs : ∀ args : List (BitVec 32), Keeps (Labelled (ω := ω) trees) (pushArgs args) := by
    intro args
    induction args with
    | nil => exact keeps_pure _
    | cons arg args ih => exact keeps_bind (labelled_of_still fun _ => still_vPush _) fun _ => ih
  refine keeps_bind (keeps_modify fun s hs => ⟨Nat.zero_le _, trivial⟩) fun _ => keeps_bind (hargs args) fun _ => ?_
  refine keeps_ite (fun _ => keeps_throw _) fun _ => keeps_ite (fun _ => keeps_throw _) fun hlt => ?_
  have hlt' : funcIdx - code.importCount < trees.length := by
    have := congrArg List.length hc.bodies
    rw [List.length_map] at this
    omega
  exact labelled_pushFrame (List.getElem?_eq_getElem hlt')

theorem reach_labelled (hc : WellNested trees code) {Ok : State ω → Prop} {s₀ : State ω} (h₀ : Labelled trees s₀)
    (hr : Reach code F Ok s₀ s) : Labelled trees s := by
  induction hr with
  | spawn => exact h₀
  | start funcIdx args _ ih =>
    refine wp_after (keeps_bind (labelled_beginTask hc funcIdx args) (fun _ => ?_) _ ih)
    exact keeps_modify fun s hs => ⟨hs.depth, hs.nested⟩
  | resume _ ih => exact ⟨ih.depth, ih.nested⟩
  | round _ _ _ ih => exact wp_after (labelled_step hc _ ih)
  | kernel world _ ih => exact ⟨ih.depth, ih.nested⟩

/-! ## Branches -/

def NoBranch (m : Interp ω Next) : Prop := ∀ s t pc n, m s ≠ .ok (.br pc n) t

theorem noBranch_pure {next : Next} (h : ∀ pc n, next ≠ .br pc n) : NoBranch (pure next : Interp ω Next) := by
  intro s t pc n heq
  cases heq
  exact h pc n rfl

theorem noBranch_throw (e : Fault InterpError) : NoBranch (throw e : Interp ω Next) :=
  fun _ _ _ _ heq => by cases heq

theorem noBranch_bind {α : Type} {m : Interp ω α} {f : α → Interp ω Next} (hf : ∀ a, NoBranch (f a)) :
    NoBranch (m >>= f) := by
  intro s t pc n heq
  cases hm : m s with
  | ok a s' =>
    rw [Hoare.bind_ok hm] at heq
    exact hf a s' t pc n heq
  | error e s' =>
    rw [Hoare.bind_error hm] at heq
    cases heq

theorem noBranch_ite {p : Prop} [Decidable p] {m m' : Interp ω Next} (hm : NoBranch m) (hm' : NoBranch m') :
    NoBranch (if p then m else m') := by
  split
  · exact hm
  · exact hm'

theorem noBranch_dispatch {fr : Frame} {body : List UInt8} {pc : Nat} {op : Opc}
    (h : op ≠ .br ∧ op ≠ .brIf ∧ op ≠ .brTable) :
    NoBranch (dispatch code F fr body pc op) := by
  have seq : ∀ pc, NoBranch (pure (.seq pc) : Interp ω Next) := fun pc => noBranch_pure nofun
  cases op with
  | br => exact absurd rfl h.1
  | brIf => exact absurd rfl h.2.1
  | brTable => exact absurd rfl h.2.2
  | nop => exact seq _
  | unreachable => exact noBranch_throw _
  | unknown => exact noBranch_throw _
  | return_ => exact noBranch_pure nofun
  | block kind => exact noBranch_bind fun _ => noBranch_bind fun _ => seq _
  | if_ =>
    exact noBranch_bind fun _ => noBranch_bind fun _ => noBranch_ite (noBranch_bind fun _ => seq _)
      (noBranch_ite (noBranch_bind fun _ => seq _) (seq _))
  | else_ => exact noBranch_bind fun _ => noBranch_ite (noBranch_throw _) (noBranch_bind fun _ => seq _)
  | end_ => exact noBranch_bind fun _ => noBranch_ite (noBranch_bind fun _ => seq _) (noBranch_pure nofun)
  | call => exact noBranch_bind fun _ => noBranch_pure nofun
  | callIndirect =>
    exact noBranch_bind fun _ => noBranch_bind fun _ => noBranch_bind fun _ => noBranch_ite (noBranch_throw _)
      (noBranch_ite (noBranch_throw _)
        (noBranch_ite (noBranch_throw _) (noBranch_ite (noBranch_throw _) (noBranch_pure nofun))))
  | drop => exact noBranch_bind fun _ => seq _
  | select =>
    exact noBranch_bind fun _ => noBranch_bind fun _ => noBranch_bind fun _ => noBranch_bind fun _ => seq _
  | localGet =>
    exact noBranch_bind fun _ => noBranch_ite (noBranch_throw _)
      (noBranch_ite (noBranch_throw _) (noBranch_bind fun _ => seq _))
  | localSet =>
    exact noBranch_bind fun _ => noBranch_ite (noBranch_throw _) (noBranch_bind fun _ =>
      noBranch_ite (noBranch_throw _)
      (noBranch_bind fun _ => seq _))
  | localTee =>
    exact noBranch_bind fun _ => noBranch_ite (noBranch_throw _) (noBranch_bind fun _ =>
      noBranch_ite (noBranch_throw _)
      (noBranch_ite (noBranch_throw _) (noBranch_bind fun _ => seq _)))
  | globalGet =>
    exact noBranch_bind fun _ => noBranch_ite (noBranch_throw _)
      (noBranch_ite (noBranch_throw _) (noBranch_bind fun _ =>
      noBranch_bind fun _ => seq _))
  | globalSet =>
    exact noBranch_bind fun _ => noBranch_ite (noBranch_throw _) (noBranch_bind fun _ =>
      noBranch_ite (noBranch_throw _)
      (noBranch_bind fun _ => noBranch_bind fun _ => seq _))
  | load w ext => exact noBranch_bind fun _ => seq _
  | store w => exact noBranch_bind fun _ => seq _
  | memorySize => exact noBranch_bind fun _ => noBranch_bind fun _ => seq _
  | memoryGrow => exact noBranch_bind fun _ => seq _
  | i32Const => exact noBranch_bind fun _ => noBranch_bind fun _ => seq _
  | i64Const => exact noBranch_bind fun _ => noBranch_bind fun _ => seq _
  | floatConst w => exact noBranch_ite (noBranch_throw _) (noBranch_bind fun _ => seq _)
  | num op => exact noBranch_bind fun _ => seq _
  | bulk => exact noBranch_bind fun _ => seq _

/-- A branch instruction pops its operand, if it has one, and nothing else. -/
theorem dispatch_branch {fr : Frame} {body : List UInt8} {pc pc' n : Nat} {op : Opc} {t : State ω}
    (h : dispatch code F fr body pc op s = .ok (.br pc' n) t) :
    op = .br ∧ t = s ∨ (op = .brIf ∨ op = .brTable) ∧ t = { s with vsp := s.vsp - 1 } ∧ 0 < s.vsp := by
  have hpop : ∀ {f : BitVec 64 → Interp ω Next}, (∀ v s' t, f v s' = .ok (.br pc' n) t → t = s') →
      ∀ {t : State ω}, (vPop >>= f) s = .ok (.br pc' n) t → t = { s with vsp := s.vsp - 1 } ∧ 0 < s.vsp := by
    intro f hf t heq
    have hwp : wp vPop (fun _ s' => s' = { s with vsp := s.vsp - 1 } ∧ 0 < s.vsp) (fun _ _ => True) s :=
      (wp_bind _).mpr (wp_get.mpr (wp_ite.mpr ⟨fun _ => trivial, fun h0 => wp_ite.mpr ⟨fun _ => trivial, fun _ =>
        ⟨rfl, Nat.pos_of_ne_zero h0⟩⟩⟩))
    cases hv : vPop s with
    | ok v s' =>
      obtain ⟨rfl, hpos⟩ := wp_ok hwp hv
      rw [Hoare.bind_ok hv] at heq
      exact ⟨hf _ _ _ heq, hpos⟩
    | error e s' =>
      rw [Hoare.bind_error hv] at heq
      cases heq
  by_cases hbr : op = .br
  · subst hbr
    refine .inl ⟨rfl, ?_⟩
    have hwp : wp (dispatch code F fr body pc .br) (fun _ t => t = s) (fun _ _ => True) s :=
      (wp_bind _).mpr (wp_lift.mpr ⟨fun _ _ => rfl, fun _ _ => trivial⟩)
    exact (wp_ok hwp h :)
  have hread : ∀ {α : Type} {r : Rust InterpError α} {f : α → Interp ω Next}, (lift r >>= f) s = .ok (.br pc' n) t →
      ∃ a, f a s = .ok (.br pc' n) t := by
    intro α r f heq
    cases r with
    | ok a => exact ⟨a, heq⟩
    | error e => cases heq
  by_cases hif : op = .brIf
  · subst hif
    obtain ⟨a, ha⟩ := hread h
    refine .inr ⟨.inl rfl, hpop (fun v s' t heq => ?_) ha⟩
    split at heq
    · cases heq
      rfl
    · cases heq
  by_cases htab : op = .brTable
  · subst htab
    obtain ⟨a, ha⟩ := hread h
    refine .inr ⟨.inr rfl, hpop (fun v s' t heq => ?_) ha⟩
    dsimp only at heq
    cases hi : iter (brTable.step body (if (lo32 v).toNat < a.1 then (lo32 v).toNat else a.1)) (a.1 + 1)
      (0, a.2, 0) with
    | ok r =>
      rw [hi] at heq
      cases heq
      rfl
    | error e =>
      rw [hi] at heq
      cases heq
  · exact absurd h (noBranch_dispatch ⟨hbr, hif, htab⟩ s t pc' n)

/-! ## Main result -/

/-- The instruction at the program counter of `fr` takes a branch to label `n`; `t` is the state without its
operand. -/
def Branches (code : Code (HostFn ω)) (F : FloatOps) (s : State ω) (fr : Frame) (body : List UInt8) (n : Nat)
    (t : State ω) : Prop :=
  ∃ b pc, body[fr.pc]? = some b ∧ dispatch code F fr body (fr.pc + 1) (decodeOp F b) s = .ok (.br pc n) t

def BlockPos.label (q : BlockPos) : Nat :=
  match q.kind with
  | .loop => q.start
  | _ => q.endPos + 1

/-- A branch goes to the label of the block it names, or out of the function. -/
theorem Labelled.branch (hc : WellNested trees code) (hs : Labelled trees s) (hy : s.yieldRequested = false)
    (hfr : s.frames = fr :: rest) {e k : Expr} {hs' : List Hole} {u : UInt8} (he : trees[fr.bodyIdx]? = some e)
    (sp : Spot 0x0B e 0 fr.pc hs' k u) (hbase : fr.ctrlBase ≤ s.ctrlDepth)
    (hent : entries s.ctrl fr.ctrlBase s.ctrlDepth = hs'.map fun h => h.entry) {n : Nat} {t : State ω}
    (hb : Branches code F s fr e.body n t) :
    (∀ hs₁ h hs₂, hs' = hs₁ ++ h :: hs₂ → hs₂.length = n → ∃ s', step code F s = .ok () s' ∧
      s'.frames = { fr with pc := h.label } :: rest) ∧
    (hs'.length ≤ n → ∃ pc, step code F s = doReturn (t.atPc pc)) := by
  obtain ⟨b, pc, hb, hd⟩ := hb
  have ht : t.frames = fr :: rest ∧ t.ctrl = s.ctrl ∧ t.ctrlDepth = s.ctrlDepth := by
    rcases dispatch_branch hd with ⟨_, rfl⟩ | ⟨_, rfl, _⟩
    · exact ⟨hfr, rfl, rfl⟩
    · exact ⟨hfr, rfl, rfl⟩
  have hstep : step code F s = doBr n (t.atPc pc) := by
    rw [step_dispatch hy hfr (hc.bodies_get he) (hc.lt_max he) hb, Hoare.bind_ok hd]
    show (setPc pc >>= fun _ => doBr n) t = _
    rw [Hoare.bind_ok (setPc_run ht.1)]
    unfold State.atPc
    rw [ht.1]
  have hready : Labelled trees (t.atPc pc) := by
    obtain ⟨b', hb', hwp⟩ := ready_dispatch (F := F) hc hs hfr he hbase hent sp
    rw [hb] at hb'
    cases hb'
    exact (wp_ok hwp hd :)
  have hent' : entries (t.atPc pc).ctrl fr.ctrlBase (t.atPc pc).ctrlDepth = hs'.map fun h => h.entry := by
    show entries t.ctrl fr.ctrlBase t.ctrlDepth = _
    rw [ht.2.1, ht.2.2, hent]
  refine ⟨fun hs₁ h hs₂ hl hn => ?_, fun hn => ⟨pc, ?_⟩⟩
  · subst hl
    subst hn
    rw [hstep, doBr_run hready (atPc_frames ht.1) hent']
    refine ⟨_, rfl, ?_⟩
    unfold BlockPos.label
    cases h.kind with
    | loop => rfl
    | block => rfl
    | if_ => rfl
  · rw [hstep]
    have hbase' : fr.ctrlBase ≤ t.ctrlDepth := by
      rw [ht.2.2]
      exact hbase
    exact doBr_returns (atPc_frames ht.1) hbase' hent' hn

end

section
variable {ω : Type}

theorem instantiate_wellNested {lookupHost : List UInt8 → List UInt8 → Option (HostFn ω)} {bytes : List UInt8}
    {inst : Instance (HostFn ω)} {trees : List Expr} (hfit : Fits bytes)
    (h : instantiate lookupHost bytes = .ok inst)
    (hbodies : inst.code.bodies = trees.map Expr.body) (hwf : ∀ e ∈ trees, e.All Plain.WF)
    (hseg : ∀ e ∈ trees, e.All Plain.NoSegment) : WellNested trees inst.code := by
  obtain ⟨hcount, _, _, _, _, _, hjumps, _⟩ := instantiate_limits hfit h
  exact ⟨hbodies, hwf, hseg, hcount, instantiate_short hfit h, hjumps⟩

/-- In every state of a run over well-nested bodies the control entries of the running frame are the blocks around
its program counter, outermost first; a branch goes to the label of the block it counts out, or returns from the
function if there are not so many. -/
theorem labels_enclose (F : FloatOps) (lookupHost : List UInt8 → List UInt8 → Option (HostFn ω))
    (bytes : List UInt8)
    (inst : Instance (HostFn ω)) (hfit : Fits bytes) (h : instantiate lookupHost bytes = .ok inst)
    (trees : List Expr) (hbodies : inst.code.bodies = trees.map Expr.body) (hwf : ∀ e ∈ trees, e.All Plain.WF)
    (hseg : ∀ e ∈ trees, e.All Plain.NoSegment) (world : ω) (s : State ω)
    (hr : Reach inst.code F (fun _ => True) (inst.initial world) s) (fr : Frame) (rest : List Frame)
    (hfr : s.frames = fr :: rest) :
    ∃ e, trees[fr.bodyIdx]? = some e ∧ fr.ctrlBase ≤ s.ctrlDepth ∧
      entries s.ctrl fr.ctrlBase s.ctrlDepth = (e.enclosing 0 fr.pc).map BlockPos.entry ∧
      ∀ n t, s.yieldRequested = false → Branches inst.code F s fr e.body n t →
        (∀ q, (e.enclosing 0 fr.pc).reverse[n]? = some q →
          ∃ s', step inst.code F s = .ok () s' ∧ s'.frames = { fr with pc := q.label } :: rest) ∧
        ((e.enclosing 0 fr.pc).length ≤ n → ∃ pc, step inst.code F s = doReturn (t.atPc pc)) := by
  have hc := instantiate_wellNested hfit h hbodies hwf hseg
  have h₀ : Labelled trees (inst.initial world) := ⟨Nat.zero_le _, trivial⟩
  have hs : Labelled trees s := reach_labelled hc h₀ hr
  have hn := hs.nested
  rw [hfr] at hn
  obtain ⟨⟨e, hs', k, u, he, sp, hbase, hent⟩, _⟩ := hn
  refine ⟨e, he, hbase, ?_, fun n t hy hb => ?_⟩
  · rw [sp.enclosing, hent, List.map_map]
    rfl
  · obtain ⟨hin, hout⟩ := hs.branch hc hy hfr he sp hbase hent hb
    rw [sp.enclosing]
    refine ⟨fun q hq => ?_, fun hle => hout (by rw [List.length_map] at hle; exact hle)⟩
    rw [← List.map_reverse, List.getElem?_map] at hq
    obtain ⟨g, hg, rfl⟩ := Option.map_eq_some_iff.mp hq
    -- the block that `n` counts out, with those inside and outside of it
    obtain ⟨hlt, hget⟩ := List.getElem?_eq_some_iff.mp hg
    rw [List.length_reverse] at hlt
    refine hin (hs'.take (hs'.length - 1 - n)) g (hs'.drop (hs'.length - 1 - n + 1)) ?_ ?_
    · rw [← hget, List.getElem_reverse, List.getElem_cons_drop, List.take_append_drop]
    · rw [List.length_drop]
      omega

end

/-- `block; br 0; end` -/
def blockBr : Expr := .block .block 0x40 (.plain (.idx 0x0C ⟨0, [0x00], .last (by decide) (by decide)⟩) .nil) .nil

theorem labels_enclose_block :
    ∃ inst : Instance (HostFn Unit), instantiate (fun _ _ => none) (oneFunction blockBr.body) = .ok inst ∧
    ∃ s fr rest, Reach inst.code default (fun _ => True) (inst.initial ()) s ∧ s.frames = fr :: rest ∧ fr.pc = 2 ∧
      entries s.ctrl fr.ctrlBase s.ctrlDepth = [⟨.block, 2, 4⟩] := by
  obtain ⟨inst, hinst, hbodies, hrun⟩ : ∃ inst : Instance (HostFn Unit),
      instantiate (fun _ _ => none) (oneFunction blockBr.body) = .ok inst ∧ inst.code.bodies = [blockBr.body] ∧
      (after (step inst.code default
      (after ((beginTask inst.code 0 [] >>= fun _ => enterRun) (inst.initial ()))))).frames.map
        (fun fr => (fr.bodyIdx, fr.pc)) = [(0, 2)] ∧
      (after ((beginTask inst.code 0 [] >>= fun _ => enterRun) (inst.initial ()))).frames.isEmpty = false :=
    ⟨_, rfl, rfl, by decide⟩
  have hreach : Reach inst.code default (fun _ => True) (inst.initial ()) _ :=
    .round (.start 0 [] .spawn) (fun h => by rw [h] at hrun; cases hrun.2) trivial
  obtain ⟨fr, rest, hfr⟩ : ∃ fr rest, (after (step inst.code default
      (after ((beginTask inst.code 0 [] >>= fun _ => enterRun) (inst.initial ()))))).frames = fr :: rest := by
    have := hrun.1
    revert this
    cases (after (step inst.code default
      (after ((beginTask inst.code 0 [] >>= fun _ => enterRun) (inst.initial ()))))).frames with
    | nil => nofun
    | cons fr rest => exact fun _ => ⟨fr, rest, rfl⟩
  have hpc := hrun.1
  rw [hfr, List.map_cons] at hpc
  obtain ⟨hidx, hpc⟩ := Prod.mk.inj (List.cons.inj hpc).1
  obtain ⟨e, he, _, hent, _⟩ :=
    labels_enclose default (fun _ _ => none) (oneFunction blockBr.body) inst (by unfold Fits; decide) hinst
    [blockBr] hbodies (List.forall_mem_singleton.mpr ⟨⟨.head _, trivial⟩, trivial⟩)
    (List.forall_mem_singleton.mpr ⟨⟨trivial, trivial⟩, trivial⟩) () _ hreach fr rest hfr
  refine ⟨inst, hinst, _, fr, rest, hreach, hfr, hpc, ?_⟩
  rw [hidx] at he
  cases he
  rw [hent, hpc]
  rfl

end WasmOs
