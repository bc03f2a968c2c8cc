import WasmOs.LebSound

/-!
# Block matching against instruction decoding

On a well-formed sequence `scanBlockEnd` steps from instruction to instruction, except over the
segment index of `memory.init` and `data.drop`: of these it skips only the prefix and the
sub-opcode and reads the index bytes as opcodes. `Scannable` says for which indices that does no
harm; for every other index the block that holds just that instruction is matched wrongly.
-/

namespace WasmOs

/-! ## The scan without fuel -/

theorem scan_fuel (body : List UInt8) :
    ∀ (fuel fuel' i d l : Nat), body.length ≤ i + fuel → body.length ≤ i + fuel' →
    scanBlockEnd.loop body fuel i d l = scanBlockEnd.loop body fuel' i d l
  | 0, 0, _, _, _, _, _ => rfl
  | 0, fuel' + 1, i, d, l, h, _ => by
    unfold scanBlockEnd.loop
    rw [List.getElem?_eq_none (by omega)]
  | fuel + 1, 0, i, d, l, _, h => by
    unfold scanBlockEnd.loop
    rw [List.getElem?_eq_none (by omega)]
  | fuel + 1, fuel' + 1, i, d, l, h, h' => by
    unfold scanBlockEnd.loop
    cases body[i]? with
    | none => rfl
    | some op =>
      have ih : ∀ j d l, i < j → scanBlockEnd.loop body fuel j d l = scanBlockEnd.loop body fuel' j d l :=
        fun j d l hj => scan_fuel body fuel fuel' j d l (by omega) (by omega)
      simp only
      split
      · exact ih _ _ _ (by omega)
      · exact ih _ _ _ (by omega)
      · rw [ih _ _ _ (by omega)]
      · refine Option.bind_congr fun j hj => ?_
        exact ih _ _ _ (by have := skipImmediates_ge hj; omega)

def scanFrom (body : List UInt8) (i d l : Nat) : Option (Nat × Nat) := scanBlockEnd.loop body body.length i d l

theorem scanFrom_eq (body : List UInt8) (i d l : Nat) :
    scanFrom body i d l =
      match body[i]? with
      | none => none
      | some op =>
        match scanClass op with
        | .structured => scanFrom body (i + 2) (d + 1) l
        | .else_ => scanFrom body (i + 1) d (if d = 1 then i else l)
        | .end_ => if d = 1 then some (i, l) else scanFrom body (i + 1) (d - 1) l
        | c => (skipImmediates body (i + 1) c).bind fun i => scanFrom body i d l := by
  unfold scanFrom
  rw [scan_fuel body body.length (body.length + 1) i d l (by omega) (by omega)]
  rfl

section
variable {body rest : List UInt8} {i : Nat} {op : UInt8} (h : body.drop i = op :: rest)
include h

theorem drop_succ : body.drop (i + 1) = rest := drop_append_length (show body.drop i = [op] ++ rest from h)

theorem get_of_drop : body[i]? = some op := getElem?_of_drop (show body.drop i = [op] ++ rest from h) rfl

theorem scanFrom_imm (hc : scanClass op ≠ .structured ∧ scanClass op ≠ .else_ ∧ scanClass op ≠ .end_) (d l : Nat) :
    scanFrom body i d l = (skipImmediates body (i + 1) (scanClass op)).bind fun j => scanFrom body j d l := by
  rw [scanFrom_eq, get_of_drop h]
  simp only
  split
  · rename_i hs; exact absurd hs hc.1
  · rename_i hs; exact absurd hs hc.2.1
  · rename_i hs; exact absurd hs hc.2.2
  · rfl

theorem scanFrom_skip {j : Nat} (hc : scanClass op ≠ .structured ∧ scanClass op ≠ .else_ ∧ scanClass op ≠ .end_)
    (hj : skipImmediates body (i + 1) (scanClass op) = some j) (d l : Nat) :
    scanFrom body i d l = scanFrom body j d l := by
  rw [scanFrom_imm h hc, hj]; rfl

theorem scanFrom_plain (hc : scanClass op = .plain) (d l : Nat) : scanFrom body i d l = scanFrom body (i + 1) d l :=
  scanFrom_skip h (by simp [hc]) (by simp [hc, skipImmediates]) d l

theorem scanFrom_structured (hc : scanClass op = .structured) (d l : Nat) :
    scanFrom body i d l = scanFrom body (i + 2) (d + 1) l := by
  rw [scanFrom_eq, get_of_drop h]; simp only [hc]

theorem scanFrom_else (hc : scanClass op = .else_) (d l : Nat) :
    scanFrom body i d l = scanFrom body (i + 1) d (if d = 1 then i else l) := by
  rw [scanFrom_eq, get_of_drop h]; simp only [hc]

theorem scanFrom_end (hc : scanClass op = .end_) (d l : Nat) :
    scanFrom body i d l = if d = 1 then some (i, l) else scanFrom body (i + 1) (d - 1) l := by
  rw [scanFrom_eq, get_of_drop h]; simp only [hc]

end

theorem scanFrom_nil {body : List UInt8} {i : Nat} (h : body.drop i = []) (d l : Nat) :
    scanFrom body i d l = none := by
  rw [scanFrom_eq, List.getElem?_eq_none (List.drop_eq_nil_iff.mp h)]

/-! ## Which segment indices are harmless -/

def lastClass (raw : List UInt8) : ScanClass := scanClass (raw.getLast?.getD 0)

/-- The scanner is back in step after the instruction. An index byte `0xFC` makes it skip the rest of
the index as a sub-opcode; otherwise the last index byte is read as an opcode, which is harmless if it
has no immediates or, in `memory.init`, takes just the reserved byte that follows. -/
def Plain.Scannable : Plain → Prop
  | .memoryInit _ seg => 0xFC ∈ seg.raw ∨ lastClass seg.raw = .plain ∨ lastClass seg.raw = .leb1 ∨
      lastClass seg.raw = .reserved
  | .dataDrop _ seg => 0xFC ∈ seg.raw ∨ lastClass seg.raw = .plain
  | _ => True

/-- From `0x45` on the only byte that is not a plain opcode is the prefix. -/
theorem scanClass_plain {b : UInt8} (h : 0x45 ≤ b.toNat) (hne : b ≠ 0xFC) : scanClass b = .plain := by
  have hlow : ∀ c : UInt8, c.toNat < 0x45 → ¬ b = c := by
    rintro c hc rfl
    omega
  have hmem : ¬ (0x28 ≤ b ∧ b ≤ 0x3E) := by
    intro hb
    have hle : b.toNat ≤ 0x3E := UInt8.le_iff_toNat_le.mp hb.2
    omega
  unfold scanClass
  simp only [hlow 0x02 (by decide), hlow 0x03 (by decide), hlow 0x04 (by decide), hlow 0x05 (by decide),
    hlow 0x0B (by decide),
    hlow 0x0C (by decide), hlow 0x0D (by decide), hlow 0x10 (by decide), hlow 0x20 (by decide),
    hlow 0x21 (by decide),
    hlow 0x22 (by decide), hlow 0x23 (by decide), hlow 0x24 (by decide), hlow 0x41 (by decide),
    hlow 0x42 (by decide),
    hlow 0x11 (by decide), hlow 0x0E (by decide), hmem, hlow 0x3F (by decide), hlow 0x40 (by decide),
    hlow 0x43 (by decide),
    hlow 0x44 (by decide), hne, or_self, if_false]

theorem ite_ne {α : Type} {p : Prop} [Decidable p] {a b c : α} (ha : a ≠ c) (hb : b ≠ c) :
    (if p then a else b) ≠ c := by
  split
  · exact ha
  · exact hb

theorem class_last (b : UInt8) (hb : b.toNat < 128) : scanClass b ≠ .pre := by
  have hne : b ≠ 0xFC := by
    rintro rfl
    exact absurd hb (by decide)
  unfold scanClass
  rw [if_neg hne]
  exact ite_ne nofun <| ite_ne nofun <| ite_ne nofun <| ite_ne nofun <| ite_ne nofun <| ite_ne nofun <|
    ite_ne nofun <| ite_ne nofun <|
    ite_ne nofun <| ite_ne nofun nofun

/-- The scanner over an index without `0xFC` comes to its last byte. -/
theorem scan_index {body : List UInt8} (d l : Nat) : ∀ {raw rest : List UInt8} {i : Nat}, LebShape raw →
    body.drop i = raw ++ rest → 0xFC ∉ raw →
    ∃ j t, body.drop j = t :: rest ∧ j + 1 = i + raw.length ∧ t.toNat < 128 ∧ scanClass t = lastClass raw ∧
      scanFrom body i d l = scanFrom body j d l
  | [], _, _, hs, _, _ => hs.elim
  | [b], rest, i, hs, h, _ => ⟨i, b, h, rfl, hs, rfl, rfl⟩
  | b :: c :: cs, rest, i, hs, h, hfc => by
    obtain ⟨hb, hcs⟩ := hs
    simp only [List.mem_cons, not_or] at hfc
    obtain ⟨j, t, hj, hlen, ht, hcl, heq⟩ :=
      scan_index d l hcs (show body.drop (i + 1) = (c :: cs) ++ rest from drop_succ h)
      (by simp only [List.mem_cons, not_or]; exact hfc.2)
    refine ⟨j, t, hj, by simp only [List.length_cons] at hlen ⊢; omega, ht, ?_, ?_⟩
    · rw [hcl]; simp [lastClass]
    · rw [scanFrom_plain h (scanClass_plain (Nat.le_trans (by decide) hb) (Ne.symm hfc.1)), heq]

/-- The scanner over an index with `0xFC` in it comes to the end of the index. -/
theorem scan_index_fc {body : List UInt8} (d l : Nat) : ∀ {raw rest : List UInt8} {i : Nat}, LebShape raw →
    body.drop i = raw ++ rest → 0xFC ∈ raw → scanFrom body i d l = scanFrom body (i + raw.length) d l
  | [], _, _, hs, _, _ => hs.elim
  | [b], _, _, hs, _, hfc => by
    rw [List.mem_singleton] at hfc; subst hfc
    exact absurd (show (0xFC : UInt8).toNat < 128 from hs) (by decide)
  | b :: c :: cs, rest, i, hs, h, hfc => by
    obtain ⟨hb, hcs⟩ := hs
    by_cases hbf : b = 0xFC
    · subst hbf
      rw [scanFrom_skip h (by decide) (skipLebs_one hcs (drop_succ h))]
      congr 1; simp only [List.length_cons]; omega
    · rw [scanFrom_plain h (scanClass_plain (Nat.le_trans (by decide) hb) hbf),
        scan_index_fc d l hcs (drop_succ h) (List.mem_of_ne_of_mem (Ne.symm hbf) hfc)]
      congr 1; simp only [List.length_cons]; omega

/-! ## One instruction -/

theorem class_op {b : UInt8} (h : (Plain.op b).WF) : scanClass b = .plain := by
  obtain h | ⟨hlo, hhi⟩ := h
  · simp only [opcodes, List.mem_cons, List.not_mem_nil, or_false] at h
    obtain rfl | rfl | rfl | rfl | rfl := h <;> rfl
  · refine scanClass_plain hlo ?_
    rintro rfl
    exact absurd hhi (by decide)

theorem class_idx {b : UInt8} (h : b ∈ idxOpcodes) : scanClass b = .leb1 := by
  simp only [idxOpcodes, List.mem_cons, List.not_mem_nil, or_false] at h
  obtain rfl | rfl | rfl | rfl | rfl | rfl | rfl | rfl := h <;> rfl

theorem class_mem {b : UInt8} (h : 0x28 ≤ b.toNat ∧ b.toNat ≤ 0x3E) : scanClass b = .leb2 :=
  byte_forall (P := fun b => 0x28 ≤ b.toNat ∧ b.toNat ≤ 0x3E → scanClass b = .leb2) (by decide +kernel) b h

section
variable {body rest : List UInt8} {i : Nat}

/-- The prefix and the sub-opcode of a `0xFC` instruction. -/
theorem scan_sub {raw : List UInt8} (hraw : LebShape raw) (h : body.drop i = 0xFC :: (raw ++ rest)) (d l : Nat) :
    scanFrom body i d l = scanFrom body (i + 1 + raw.length) d l ∧ body.drop (i + 1 + raw.length) = rest :=
  ⟨scanFrom_skip h (by decide) (skipLebs_one hraw (drop_succ h)) d l, drop_append_length (drop_succ h)⟩

theorem scan_leb2 {op : UInt8} {a b : List UInt8} (hc : scanClass op = .leb2) (ha : LebShape a) (hb : LebShape b)
    (h : body.drop i = op :: (a ++ (b ++ rest))) (d l : Nat) :
    scanFrom body i d l = scanFrom body (i + 1 + a.length + b.length) d l := by
  have h1 := drop_succ h
  have h2 := drop_append_length h1
  refine scanFrom_skip h (by simp [hc]) ?_ d l
  simp [hc, skipImmediates, skipLebs, skipLeb128_append ha h1, skipLeb128_append hb h2]

theorem scan_leb1 {op : UInt8} {a : List UInt8} (hc : scanClass op = .leb1) (ha : LebShape a)
    (h : body.drop i = op :: (a ++ rest)) (d l : Nat) :
    scanFrom body i d l = scanFrom body (i + 1 + a.length) d l :=
  scanFrom_skip h (by simp [hc]) (by rw [hc]; exact skipLebs_one ha (drop_succ h)) d l

theorem scan_plain {p : Plain} (hwf : p.WF) (hs : p.Scannable) (h : body.drop i = p.bytes ++ rest) (d l : Nat) :
    scanFrom body i d l = scanFrom body (i + p.bytes.length) d l := by
  cases p with
  | op b => exact scanFrom_plain h (class_op hwf) d l
  | idx b u =>
    rw [scan_leb1 (class_idx hwf) u.wf.shape h]
    congr 1; simp only [Plain.bytes, List.length_cons]; omega
  | brTable count labels default =>
    simp only [Plain.bytes, List.cons_append, List.append_assoc] at h
    have h1 := drop_succ h
    have h2 := drop_append_length h1
    have h2' : body.drop (i + 1 + count.raw.length) = (labels ++ [default]).flatMap U32.raw ++ rest := by
      rw [h2]; simp [List.append_assoc]
    have hskip := skipLebs_labels _ body rest _ h2'
    have hlen : (labels ++ [default]).length = count.val + 1 := by simp [show labels.length = count.val from hwf]
    rw [hlen] at hskip
    refine scanFrom_skip h (by decide) ?_ d l
    show skipImmediates body (i + 1) .brTable = _
    simp only [skipImmediates, h1, readU32_append, Option.bind_some, hskip, Plain.bytes, List.length_cons,
      List.length_append, List.flatMap_append, List.flatMap_cons, List.flatMap_nil, List.append_nil]
    congr 1; omega
  | callIndirect type table =>
    simp only [Plain.bytes, List.cons_append, List.append_assoc] at h
    rw [scan_leb2 (by decide) type.wf.shape table.wf.shape h]
    congr 1; simp only [Plain.bytes, List.length_cons, List.length_append]; omega
  | mem b align offset =>
    simp only [Plain.bytes, List.cons_append, List.append_assoc] at h
    rw [scan_leb2 (class_mem hwf) align.wf.shape offset.wf.shape h]
    congr 1; simp only [Plain.bytes, List.length_cons, List.length_append]; omega
  | memPages b => rcases hwf with rfl | rfl <;> exact scanFrom_skip h (by decide) rfl d l
  | i32Const c =>
    rw [scan_leb1 (by decide) c.wf.shape h]
    congr 1; simp only [Plain.bytes, List.length_cons]; omega
  | i64Const c =>
    rw [scan_leb1 (by decide) c.wf.shape h]
    congr 1; simp only [Plain.bytes, List.length_cons]; omega
  | f32Const c =>
    rw [scanFrom_skip h (by decide) (show skipImmediates body (i + 1) .const4 = _ from rfl)]
    congr 1; simp only [Plain.bytes, List.length_cons]; rw [show c.length = 4 from hwf]
  | f64Const c =>
    rw [scanFrom_skip h (by decide) (show skipImmediates body (i + 1) .const8 = _ from rfl)]
    congr 1; simp only [Plain.bytes, List.length_cons]; rw [show c.length = 8 from hwf]
  | truncSat sub =>
    rw [(scan_sub sub.wf.shape h d l).1]
    congr 1; simp only [Plain.bytes, List.length_cons]; omega
  | memoryInit sub seg =>
    simp only [Plain.bytes, List.cons_append, List.append_assoc] at h
    obtain ⟨heq, h1⟩ := scan_sub sub.wf.shape h d l
    have hlen : i + (Plain.memoryInit sub seg).bytes.length = i + 1 + sub.raw.length + seg.raw.length + 1 := by
      simp only [Plain.bytes, List.length_cons, List.length_append, List.length_nil]; omega
    rw [heq, hlen]
    have h2 := drop_append_length h1
    by_cases hfc : 0xFC ∈ seg.raw
    · rw [scan_index_fc d l seg.wf.shape h1 hfc, scanFrom_plain h2 (by decide)]
    · obtain ⟨j, t, hj, hjl, _, hcl, heq'⟩ := scan_index d l seg.wf.shape h1 hfc
      have hj1 := drop_succ hj
      rw [heq']
      rcases hs.resolve_left hfc with hp | hp | hp
      · rw [scanFrom_plain hj (hcl.trans hp), scanFrom_plain hj1 (by decide)]
        congr 1; omega
      · rw [scan_leb1 (a := [0x00]) (hcl.trans hp) (show (0x00 : UInt8).toNat < 128 by decide) hj]
        congr 1; simp only [List.length_singleton]; omega
      · rw [scanFrom_skip hj (by simp [hcl.trans hp]) (by rw [hcl.trans hp]; rfl)]
        congr 1; omega
  | dataDrop sub seg =>
    simp only [Plain.bytes, List.cons_append, List.append_assoc] at h
    obtain ⟨heq, h1⟩ := scan_sub sub.wf.shape h d l
    have hlen : i + (Plain.dataDrop sub seg).bytes.length = i + 1 + sub.raw.length + seg.raw.length := by
      simp only [Plain.bytes, List.length_cons, List.length_append]; omega
    rw [heq, hlen]
    by_cases hfc : 0xFC ∈ seg.raw
    · rw [scan_index_fc d l seg.wf.shape h1 hfc]
    · obtain ⟨j, t, hj, hjl, _, hcl, heq'⟩ := scan_index d l seg.wf.shape h1 hfc
      rw [heq', scanFrom_plain hj (hcl.trans (hs.resolve_left hfc))]
      congr 1
  | memoryCopy sub =>
    simp only [Plain.bytes, List.cons_append, List.append_assoc] at h
    obtain ⟨heq, h1⟩ := scan_sub sub.wf.shape h d l
    rw [heq, scanFrom_plain h1 (by decide), scanFrom_plain (drop_succ h1) (by decide)]
    congr 1; simp only [Plain.bytes, List.length_cons, List.length_append, List.length_nil]; omega
  | memoryFill sub =>
    simp only [Plain.bytes, List.cons_append, List.append_assoc] at h
    obtain ⟨heq, h1⟩ := scan_sub sub.wf.shape h d l
    rw [heq, scanFrom_plain h1 (by decide)]
    congr 1; simp only [Plain.bytes, List.length_cons, List.length_append, List.length_nil]; omega

end

/-! ## Instruction sequences -/

/-- The scanner passes a sequence of scannable instructions in step: nested blocks are entered and left
again, so depth and recorded `else` are the same behind it. -/
theorem scan_expr {body : List UInt8} : ∀ (e : Expr) {rest : List UInt8} {i d : Nat} (l : Nat), e.All Plain.WF →
    e.All Plain.Scannable → body.drop i = e.bytes ++ rest → 1 ≤ d →
    scanFrom body i d l = scanFrom body (i + e.bytes.length) d l
  | .nil, _, _, _, _, _, _, _, _ => rfl
  | .plain p k, rest, i, d, l, hwf, hs, h, hd => by
    simp only [Expr.bytes, List.append_assoc] at h
    rw [scan_plain hwf.1 hs.1 h, scan_expr k l hwf.2 hs.2 (drop_append_length h) hd]
    congr 1; simp only [Expr.bytes, List.length_append]; omega
  | .block kind bt b k, rest, i, d, l, hwf, hs, h, hd => by
    simp only [Expr.bytes, List.cons_append, List.append_assoc] at h
    have h2 := drop_succ (drop_succ h)
    have h3 := drop_append_length h2
    rw [scanFrom_structured h (by cases kind <;> decide), scan_expr b l hwf.1 hs.1 h2 (by omega),
      scanFrom_end h3 (by decide), if_neg (by omega), Nat.add_sub_cancel,
      scan_expr k l hwf.2 hs.2 (drop_succ h3) hd]
    congr 1; simp only [Expr.bytes, List.length_cons, List.length_append]; omega
  | .ifElse bt thn els k, rest, i, d, l, hwf, hs, h, hd => by
    simp only [Expr.bytes, List.cons_append, List.append_assoc] at h
    have h2 := drop_succ (drop_succ h)
    have h3 := drop_append_length h2
    have h4 := drop_succ h3
    have h5 := drop_append_length h4
    -- the `else` is met at depth `d + 1`, which is not the depth whose `else` is recorded
    rw [scanFrom_structured h (by decide), scan_expr thn l hwf.1 hs.1 h2 (by omega),
      scanFrom_else h3 (by decide), if_neg (by omega), scan_expr els l hwf.2.1 hs.2.1 h4 (by omega),
      scanFrom_end h5 (by decide), if_neg (by omega), Nat.add_sub_cancel,
      scan_expr k l hwf.2.2 hs.2.2 (drop_succ h5) hd]
    congr 1; simp only [Expr.bytes, List.length_cons, List.length_append]; omega

theorem BlockAt.located {body : List UInt8} {e : Expr} {o : Nat} {q : BlockPos} (hq : BlockAt e o q) :
    ∀ {rest : List UInt8}, e.All Plain.WF → body.drop o = e.bytes ++ rest →
    q.thn.All Plain.WF ∧ (∀ els, q.els = some els → els.All Plain.WF) ∧
    match q.els with
    | none => (∃ r, body.drop q.start = q.thn.bytes ++ 0x0B :: r) ∧ q.endPos = q.start + q.thn.bytes.length ∧
        q.elsePos = none
    | some els => (∃ r, body.drop q.start = q.thn.bytes ++ 0x05 :: (els.bytes ++ 0x0B :: r)) ∧
        q.endPos = q.start + q.thn.bytes.length + 1 + els.bytes.length ∧
        q.elsePos = some (q.start + q.thn.bytes.length) := by
  induction hq with
  | block =>
    intro rest hwf h
    simp only [Expr.bytes, List.cons_append, List.append_assoc] at h
    exact ⟨hwf.1, by simp, ⟨_, drop_succ (drop_succ h)⟩, rfl, rfl⟩
  | ifElse =>
    intro rest hwf h
    simp only [Expr.bytes, List.cons_append, List.append_assoc] at h
    refine ⟨hwf.1, ?_, ⟨_, drop_succ (drop_succ h)⟩, rfl, rfl⟩
    rintro els ⟨⟩
    exact hwf.2.1
  | inBlock _ ih =>
    intro rest hwf h
    simp only [Expr.bytes, List.cons_append, List.append_assoc] at h
    exact ih hwf.1 (drop_succ (drop_succ h))
  | inThn _ ih =>
    intro rest hwf h
    simp only [Expr.bytes, List.cons_append, List.append_assoc] at h
    exact ih hwf.1 (drop_succ (drop_succ h))
  | inEls _ ih =>
    intro rest hwf h
    simp only [Expr.bytes, List.cons_append, List.append_assoc] at h
    exact ih hwf.2.1 (drop_succ (drop_append_length (drop_succ (drop_succ h))))
  | afterPlain _ ih =>
    intro rest hwf h
    simp only [Expr.bytes, List.append_assoc] at h
    exact ih hwf.2 (drop_append_length h)
  | afterBlock _ ih =>
    intro rest hwf h
    simp only [Expr.bytes, List.cons_append, List.append_assoc] at h
    exact ih hwf.2 (drop_succ (drop_append_length (drop_succ (drop_succ h))))
  | afterIfElse _ ih =>
    intro rest hwf h
    simp only [Expr.bytes, List.cons_append, List.append_assoc] at h
    exact ih hwf.2.2
      (drop_succ (drop_append_length (drop_succ (drop_append_length (drop_succ (drop_succ h))))))

def BlockPos.Scannable (q : BlockPos) : Prop :=
  q.thn.All Plain.Scannable ∧ ∀ els, q.els = some els → els.All Plain.Scannable

/-- The positions of the block's own `end` and `else`. -/
def BlockPos.jump (q : BlockPos) : Nat × Nat := (q.endPos, q.elsePos.getD NO_ELSE)

theorem scan_block {e : Expr} {q : BlockPos} (hwf : e.All Plain.WF) (hq : BlockAt e 0 q) (hs : q.Scannable) :
    scanBlockEnd e.body q.start = some q.jump := by
  obtain ⟨hthn, hels, hpos⟩ := hq.located hwf (show e.body.drop 0 = _ from rfl)
  show scanFrom e.body q.start 1 NO_ELSE = _
  cases hqe : q.els with
  | none =>
    rw [hqe] at hpos
    obtain ⟨⟨r, h⟩, hend, helse⟩ := hpos
    rw [scan_expr q.thn NO_ELSE hthn hs.1 h (by omega), scanFrom_end (drop_append_length h) (by decide), if_pos rfl,
      BlockPos.jump, hend, helse]
    rfl
  | some els =>
    rw [hqe] at hpos
    obtain ⟨⟨r, h⟩, hend, helse⟩ := hpos
    have h1 := drop_append_length h
    have h2 := drop_succ h1
    rw [scan_expr q.thn NO_ELSE hthn hs.1 h (by omega), scanFrom_else h1 (by decide), if_pos rfl,
      scan_expr els _ (hels els hqe) (hs.2 els hqe) h2 (by omega), scanFrom_end (drop_append_length h2) (by decide),
      if_pos rfl, BlockPos.jump, hend, helse]
    rfl

/-! ## An unscannable instruction alone in a block -/

theorem skipLeb128_byte {body rest : List UInt8} {i : Nat} {b : UInt8} (hb : b.toNat < 128)
    (h : body.drop i = b :: rest) :
    skipLeb128 body i = some 1 := skipLeb128_append (show LebShape [b] from hb) h

theorem scanFrom_two_ends {body : List UInt8} {j : Nat} {t : UInt8} (h : body.drop j = [t, 0x0B, 0x0B])
    (ht : t.toNat < 128) (hj : j < NO_ELSE) (hc : scanClass t ≠ .plain) :
    scanFrom body j 1 NO_ELSE ≠ some (j + 1, NO_ELSE) := by
  have h1 := drop_succ h
  have h2 := drop_succ h1
  have h3 := drop_succ h2
  have hend : ∀ d l, scanFrom body (j + 2) d l = if d = 1 then some (j + 2, l) else none := by
    intro d l
    rw [scanFrom_end h2 (by decide), scanFrom_nil h3]
  have hnil : ∀ k l, scanFrom body (j + 3 + k) 1 l = none :=
    fun k l => scanFrom_nil (by rw [← List.drop_drop, h3, List.drop_nil]) 1 l
  have s1 : skipLeb128 body (j + 1) = some 1 := skipLeb128_byte (by decide) h1
  have s2 : skipLeb128 body (j + 1 + 1) = some 1 := skipLeb128_byte (by decide) h2
  have s3 : skipLeb128 body (j + 1 + 1 + 1) = none := by rw [skipLeb128, h3]; rfl
  cases hcl : scanClass t with
  | plain => exact absurd hcl hc
  | pre => exact absurd hcl (class_last t ht)
  | structured => rw [scanFrom_structured h hcl, hend]; simp
  | else_ =>
    rw [scanFrom_else h hcl, scanFrom_end h1 (by decide)]
    simp; omega
  | end_ => rw [scanFrom_end h hcl]; simp
  | leb1 =>
    rw [scanFrom_imm h (by simp [hcl]), hcl]
    simp [skipImmediates, skipLebs, s1, hend]
  | leb2 =>
    rw [scanFrom_imm h (by simp [hcl]), hcl]
    simp [skipImmediates, skipLebs, s1, s2, hnil 0]
  | brTable =>
    rw [scanFrom_imm h (by simp [hcl]), hcl]
    have hr : readU32Leb128 [0x0B, 0x0B] = some (11, 1) := by decide
    -- of the twelve labels that the count announces, the second is not there
    have hskip : skipLebs body (11 + 1) (j + 1 + 1) = none := by
      rw [skipLebs, s2, Option.bind_some, skipLebs, s3, Option.bind_none]
    rw [skipImmediates, h1, hr, Option.bind_some, hskip]
    simp
  | reserved =>
    rw [scanFrom_imm h (by simp [hcl]), hcl]
    simp [skipImmediates, hend]
  | const4 =>
    rw [scanFrom_imm h (by simp [hcl]), hcl]
    simp [skipImmediates, hnil 2]
  | const8 =>
    rw [scanFrom_imm h (by simp [hcl]), hcl]
    simp [skipImmediates, hnil 6]

theorem scanFrom_reserved_ends {body : List UInt8} {j : Nat} {t : UInt8} (h : body.drop j = [t, 0x00, 0x0B, 0x0B])
    (ht : t.toNat < 128) (hj : j < NO_ELSE)
    (hc : scanClass t ≠ .plain ∧ scanClass t ≠ .leb1 ∧ scanClass t ≠ .reserved) :
    scanFrom body j 1 NO_ELSE ≠ some (j + 2, NO_ELSE) := by
  have h1 := drop_succ h
  have h2 := drop_succ h1
  have h3 := drop_succ h2
  have h4 := drop_succ h3
  have hend : ∀ l, scanFrom body (j + 3) 1 l = some (j + 3, l) := by
    intro l
    rw [scanFrom_end h3 (by decide), if_pos rfl]
  have hnil : ∀ k l, scanFrom body (j + 4 + k) 1 l = none :=
    fun k l => scanFrom_nil (by rw [← List.drop_drop, h4, List.drop_nil]) 1 l
  have s1 : skipLeb128 body (j + 1) = some 1 := skipLeb128_byte (by decide) h1
  have s2 : skipLeb128 body (j + 1 + 1) = some 1 := skipLeb128_byte (by decide) h2
  cases hcl : scanClass t with
  | plain => exact absurd hcl hc.1
  | leb1 => exact absurd hcl hc.2.1
  | reserved => exact absurd hcl hc.2.2
  | pre => exact absurd hcl (class_last t ht)
  | structured => rw [scanFrom_structured h hcl, scanFrom_end h2 (by decide), if_neg (by decide), hend]; simp
  | else_ =>
    rw [scanFrom_else h hcl, scanFrom_plain h1 (by decide), scanFrom_end h2 (by decide)]
    simp; omega
  | end_ => rw [scanFrom_end h hcl]; simp
  | leb2 =>
    rw [scanFrom_imm h (by simp [hcl]), hcl]
    simp [skipImmediates, skipLebs, s1, s2, hend]
  | brTable =>
    rw [scanFrom_imm h (by simp [hcl]), hcl]
    have hr : readU32Leb128 [0x00, 0x0B, 0x0B] = some (0, 1) := by decide
    simp [skipImmediates, skipLebs, h1, hr, s2, hend]
  | const4 =>
    rw [scanFrom_imm h (by simp [hcl]), hcl]
    simp [skipImmediates, hnil 1]
  | const8 =>
    rw [scanFrom_imm h (by simp [hcl]), hcl]
    simp [skipImmediates, hnil 5]

def Plain.inBlock (p : Plain) (kind : BlockKind) (bt : UInt8) : Expr := .block kind bt (.plain p .nil) .nil

theorem unscannable_block {p : Plain} (hp : ¬ p.Scannable) (kind : BlockKind) (bt : UInt8) :
    scanBlockEnd (p.inBlock kind bt).body 2 ≠ some (2 + p.bytes.length, NO_ELSE) := by
  have h0 : (p.inBlock kind bt).body.drop 2 = p.bytes ++ [0x0B, 0x0B] := by
    simp [Plain.inBlock, Expr.body, Expr.bytes]
  show scanFrom _ 2 1 NO_ELSE ≠ _
  cases p with
  | dataDrop sub seg =>
    simp only [Plain.bytes, List.cons_append, List.append_assoc] at h0
    obtain ⟨heq, h1⟩ := scan_sub sub.wf.shape h0 1 NO_ELSE
    simp only [Plain.Scannable, not_or] at hp
    obtain ⟨j, t, hj, hjl, ht, hcl, heq'⟩ := scan_index 1 NO_ELSE seg.wf.shape h1 hp.1
    have hlen : 2 + (Plain.dataDrop sub seg).bytes.length = j + 1 := by
      simp only [Plain.bytes, List.length_cons, List.length_append]; omega
    have hsub := sub.wf.length_le
    have hseg := seg.wf.length_le
    rw [heq, heq', hlen]
    exact scanFrom_two_ends hj ht (by simp only [NO_ELSE, usizeMax]; omega) (by rw [hcl]; exact hp.2)
  | memoryInit sub seg =>
    simp only [Plain.bytes, List.cons_append, List.append_assoc] at h0
    obtain ⟨heq, h1⟩ := scan_sub sub.wf.shape h0 1 NO_ELSE
    simp only [Plain.Scannable, not_or] at hp
    obtain ⟨j, t, hj, hjl, ht, hcl, heq'⟩ := scan_index 1 NO_ELSE seg.wf.shape h1 hp.1
    have hlen : 2 + (Plain.memoryInit sub seg).bytes.length = j + 2 := by
      simp only [Plain.bytes, List.length_cons, List.length_append, List.length_nil]; omega
    have hsub := sub.wf.length_le
    have hseg := seg.wf.length_le
    rw [heq, heq', hlen]
    exact scanFrom_reserved_ends hj ht (by simp only [NO_ELSE, usizeMax]; omega) (by rw [hcl]; exact hp.2)
  | _ => exact absurd trivial hp

/-! ## Main results -/

/-- Blocks whose instructions are all scannable are matched exactly, and no weaker condition on single
instructions will do: an instruction that is not scannable is fatal to the block that holds just it. -/
theorem scanBlockEnd_matches (e : Expr) (hwf : e.All Plain.WF) (q : BlockPos) (hq : BlockAt e 0 q) :
    (q.Scannable → scanBlockEnd e.body q.start = some q.jump) ∧
    (∀ (p : Plain) (kind : BlockKind) (bt : UInt8), e = p.inBlock kind bt →
      (scanBlockEnd e.body q.start = some q.jump ↔ p.Scannable)) := by
  refine ⟨fun hs => scan_block hwf hq hs, ?_⟩
  intro p kind bt he
  subst he
  constructor
  · intro h
    cases hq with
    | block =>
      by_contra hp
      refine unscannable_block hp kind bt ?_
      simpa [BlockPos.jump, Expr.bytes] using h
    | inBlock hq => cases hq with | afterPlain hq => cases hq
    | afterBlock hq => cases hq
  · intro hs
    refine scan_block hwf hq ?_
    cases hq with
    | block => exact ⟨⟨hs, trivial⟩, by simp⟩
    | inBlock hq => cases hq with | afterPlain hq => cases hq
    | afterBlock hq => cases hq

/-- `if; data.drop 1; else; nop; end; end` is matched. -/
theorem scanBlockEnd_matches_if :
    scanBlockEnd [0x04, 0x40, 0xFC, 0x09, 0x01, 0x05, 0x01, 0x0B, 0x0B] 2 = some (7, 5) :=
  (scanBlockEnd_matches
    (.ifElse 0x40 (.plain (.dataDrop ⟨9, [0x09], .last (by decide) (by decide)⟩
    ⟨1, [0x01], .last (by decide) (by decide)⟩) .nil)
      (.plain (.op 0x01) .nil) .nil)
    ⟨⟨rfl, trivial⟩, ⟨.inl (by decide), trivial⟩, trivial⟩ _ .ifElse).1
    ⟨⟨.inr (by decide), trivial⟩, by rintro _ ⟨⟩; exact ⟨trivial, trivial⟩⟩

/-- `block; data.drop 11; end; end`: the index byte is taken for the `end` of the block. -/
theorem scanBlockEnd_dataDrop_end :
    ¬ ∀ (e : Expr), e.All Plain.WF → ∀ (q : BlockPos), BlockAt e 0 q →
    scanBlockEnd e.body q.start = some q.jump := by
  intro h
  have :=
    h (Plain.inBlock (.dataDrop ⟨9, [0x09], .last (by decide) (by decide)⟩
      ⟨11, [0x0B], .last (by decide) (by decide)⟩)
    .block 0x40) ⟨⟨rfl, trivial⟩, trivial⟩ _ .block
  exact absurd (show scanBlockEnd [0x02, 0x40, 0xFC, 0x09, 0x0B, 0x0B, 0x0B] 2 = some (5, NO_ELSE) from this)
    (by decide)

end WasmOs
