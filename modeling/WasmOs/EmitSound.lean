import WasmOs.Emitters

/-!
# What the emitted bytes decode to

The fields of prefix, ModRM and SIB bytes as numbers, then every emitter. Bases that need a SIB byte, byte registers
that need a prefix and prefixes that leave a register out show in the exact condition.
-/

namespace WasmOs.Emit

open X86 (Reg)
open X64 (Encodes Instr Size Loc Loc8 Mem Rex RM)

/-! ## Bytes from fields -/

theorem ofNum_split (r : Reg) : Reg.ofNum (r.num / 8 * 8 + r.num % 8) = r := by cases r <;> rfl

theorem enc_toNat (r : Reg) : (enc r).toNat = r.num % 8 := by cases r <;> rfl

/-- The bit of a register number that goes into the prefix. -/
theorem num_div (r : Reg) : r.num / 8 * 8 = if needsRex r then 8 else 0 := by cases r <;> rfl

theorem field_lt (r : Reg) : r.num % 8 < 8 := Nat.mod_lt _ (by decide)

/-- A register in the low bits of an opcode or of a ModRM byte. -/
theorem orEnc_toNat {op : UInt8} (h : op.toNat % 8 = 0) (r : Reg) :
    (op ||| enc r).toNat = op.toNat + r.num % 8 := by
  have hop : op.toNat = 2 ^ 3 * (op.toNat / 8) := by omega
  rw [UInt8.toNat_or, enc_toNat, hop]
  exact (Nat.two_pow_add_eq_or_of_lt (field_lt r) _).symm

theorem shlEnc_toNat (r : Reg) : (enc r <<< 3).toNat = 8 * (r.num % 8) := by cases r <;> rfl

theorem modrm_toNat {top : UInt8} (h : top.toNat % 64 = 0) (reg rm : Reg) :
    (top ||| (enc reg <<< 3) ||| enc rm).toNat = top.toNat + 8 * (reg.num % 8) + rm.num % 8 := by
  have htop : top.toNat = 2 ^ 6 * (top.toNat / 64) := by omega
  have hreg := field_lt reg
  have hfield : (top ||| (enc reg <<< 3)).toNat = top.toNat + 8 * (reg.num % 8) := by
    rw [UInt8.toNat_or, shlEnc_toNat, htop]
    exact (Nat.two_pow_add_eq_or_of_lt (show 8 * (reg.num % 8) < 2 ^ 6 by omega) _).symm
  rw [orEnc_toNat (by rw [hfield]; omega), hfield]

/-! ## Prefixes -/

section
variable {bs rest : List UInt8} {rex : Rex}

/-- The prefix `emitRexRr` writes. -/
def rexOf (reg rm : Reg) : Rex := ⟨true, true, reg.num / 8 * 8, 0, rm.num / 8 * 8⟩

theorem decode_rexRr (reg rm : Reg) (op : UInt8) :
    X64.decode (emitRexRr reg rm ++ op :: bs) = X64.decodeOp (rexOf reg rm) op.toNat bs := by
  obtain ⟨b, hb, hlo, hhi, hrex⟩ : ∃ b : UInt8, emitRexRr reg rm = [b] ∧ 0x40 ≤ b.toNat ∧ b.toNat < 0x50 ∧
      Rex.ofByte b.toNat = rexOf reg rm := by
    refine ⟨_, rfl, ?_⟩
    unfold rexOf
    rw [num_div, num_div]
    cases needsRex reg <;> cases needsRex rm <;> exact ⟨by decide, by decide, rfl⟩
  rw [hb, ← hrex]
  unfold X64.decode
  rw [List.singleton_append, X86.bind_apply, X86.byte_cons, Option.bind_some, if_pos ⟨hlo, hhi⟩,
    X86.bind_apply, X86.byte_cons, Option.bind_some]

theorem rexW_eq (r : Reg) : [if needsRex r then (0x49 : UInt8) else 0x48] = emitRexRr .rax r := by cases r <;> rfl

/-- The prefix of a byte register or a push: only for the registers that need it. -/
def rexB (r : Reg) : Rex := ⟨needsRex r, false, 0, 0, r.num / 8 * 8⟩

theorem decode_rexB (r : Reg) {op : UInt8} (hop : op.toNat < 0x40 ∨ 0x50 ≤ op.toNat) :
    X64.decode ((if needsRex r then [0x41] else []) ++ op :: bs) = X64.decodeOp (rexB r) op.toNat bs := by
  unfold X64.decode
  by_cases hr : needsRex r = true
  · have hrex : Rex.ofByte 0x41 = rexB r := by cases r <;> first | rfl | cases hr
    rw [if_pos hr, ← hrex, List.singleton_append, X86.bind_apply, X86.byte_cons, Option.bind_some,
      if_pos (show 0x40 ≤ (0x41 : UInt8).toNat ∧ (0x41 : UInt8).toNat < 0x50 by decide), X86.bind_apply,
      X86.byte_cons, Option.bind_some]
    rfl
  · have hrex : Rex.none = rexB r := by cases r <;> first | rfl | exact absurd rfl hr
    rw [if_neg hr, ← hrex, List.nil_append, X86.bind_apply, X86.byte_cons, Option.bind_some,
      if_neg (show ¬ (0x40 ≤ op.toNat ∧ op.toNat < 0x50) by omega)]

/-! ## Operands -/

theorem bind_modrm {p : Nat × RM} {f : Nat × RM → X86.Dec Instr} (h : X64.modrm rex bs = some (p, rest)) :
    (X64.modrm rex >>= f) bs = f p rest := by
  rw [X86.bind_apply, h]
  rfl

theorem modrm_direct {m : UInt8} {field k : Nat} (hm : m.toNat = 192 + 8 * field + k) (hfield : field < 8)
    (hk : k < 8) :
    X64.modrm rex (m :: bs) = some ((field, .reg (rex.b + k)), bs) := by
  unfold X64.modrm
  rw [X86.bind_apply, X86.byte_cons, Option.bind_some]
  dsimp only
  rw [hm, if_pos (by omega), show (192 + 8 * field + k) / 8 % 8 = field by omega,
    show (192 + 8 * field + k) % 8 = k by omega]
  rfl

theorem modrm_rr (reg rm : Reg) :
    X64.modrm rex (emitModrmRr reg rm ++ bs) = some ((reg.num % 8, .reg (rex.b + rm.num % 8)), bs) :=
  modrm_direct (modrm_toNat (by decide) reg rm) (field_lt reg) (field_lt rm)

/-- A ModRM byte that extends the opcode, with one register. -/
theorem modrm_ext {m : UInt8} (field : Nat) (hm : m.toNat = 192 + 8 * field) (hfield : field < 8) (r : Reg) :
    X64.modrm rex ((m ||| enc r) :: bs) = some ((field, .reg (rex.b + r.num % 8)), bs) := by
  refine modrm_direct ?_ hfield (field_lt r)
  rw [orEnc_toNat (by omega), hm]

theorem modrm_memory {m : UInt8} (mod : Nat) {field k : Nat} (hm : m.toNat = 64 * mod + 8 * field + k)
    (hmod : mod < 3) (hfield : field < 8) (hk : k < 8) :
    X64.modrm rex (m :: bs) = (X64.memory rex mod k bs).map fun a => ((field, .mem a.1), a.2) := by
  unfold X64.modrm
  rw [X86.bind_apply, X86.byte_cons, Option.bind_some]
  dsimp only
  rw [hm, if_neg (by omega), show (64 * mod + 8 * field + k) / 64 = mod by omega,
    show (64 * mod + 8 * field + k) / 8 % 8 = field by omega,
    show (64 * mod + 8 * field + k) % 8 = k by omega]
  cases h : X64.memory rex mod k bs with
  | none => rw [X86.bind_apply, h]; rfl
  | some a => rw [X86.bind_apply, h]; rfl

theorem disp_offset8 {offset : BitVec 32} (h : -128 ≤ offset.toInt ∧ offset.toInt ≤ 127) :
    X64.disp 1 (UInt8.ofNat (offset.toNat % 256) :: rest) = some (offset.signExtend 64, rest) := by
  have hle := le_leBytes 1 offset.toNat rest
  rw [Nat.pow_one] at hle
  change X86.le 1 (UInt8.ofNat (offset.toNat % 256) :: rest) = _ at hle
  rw [← sext8_eq offset h]
  change (X86.le 1 >>= fun d => pure (X86.sext 8 d)) _ = _
  rw [X86.bind_apply, hle]
  rfl

theorem disp_offset32 (offset : BitVec 32) :
    X64.disp 2 (emitU32 offset ++ rest) = some (offset.signExtend 64, rest) := by
  have hle := le_leBytes 4 offset.toNat rest
  rw [Nat.mod_eq_of_lt (show offset.toNat < 256 ^ 4 from offset.isLt)] at hle
  change (X86.le 4 >>= fun d => pure (X86.sext 32 d)) (leBytes offset.toNat 4 ++ rest) = _
  rw [X86.bind_apply, hle, Option.bind_some, X86.sext, BitVec.ofNat_toNat, BitVec.setWidth_eq]
  rfl

theorem memory_base {mod k : Nat} (hsib : k ≠ 4) (hrip : ¬ (k = 5 ∧ mod = 0)) {d : BitVec 64}
    (h : X64.disp mod bs = some (d, rest)) :
    X64.memory rex mod k bs = some (⟨.reg (.ofNum (rex.b + k)), none, d⟩, rest) := by
  unfold X64.memory
  rw [if_neg hsib, if_neg hrip, X86.bind_apply, h]
  rfl

theorem modrm_mem {base : Reg} (reg : Reg) (hbase : base.num % 8 ≠ 4) (hrex : rex.b = base.num / 8 * 8)
    (offset : BitVec 32) :
    X64.modrm rex (emitMemModrm reg base offset ++ rest) =
    some ((reg.num % 8, .mem (atOffset base offset)), rest) := by
  have hreg : Reg.ofNum (rex.b + base.num % 8) = base := by rw [hrex, ofNum_split]
  unfold emitMemModrm
  split
  · next h =>
    obtain ⟨rfl, hfive⟩ := h
    have hfive : ¬ (base.num % 8 = 5 ∧ 0 = 0) := by
      intro hnum
      refine hfive (UInt8.toNat_inj.mp ?_)
      rw [enc_toNat, hnum.1]
      rfl
    rw [List.singleton_append, modrm_memory 0 (modrm_toNat (by decide) reg base) (by decide) (field_lt reg)
      (field_lt base),
      memory_base hbase hfive (show X64.disp 0 rest = some (0, rest) from rfl), hreg]
    rfl
  split
  · next h =>
    rw [List.cons_append, List.singleton_append, modrm_memory 1 (modrm_toNat (by decide) reg base) (by decide)
      (field_lt reg) (field_lt base),
      memory_base hbase (by omega) (disp_offset8 h), hreg]
    rfl
  · rw [List.cons_append, modrm_memory 2 (modrm_toNat (by decide) reg base) (by decide) (field_lt reg)
      (field_lt base),
      memory_base hbase (by omega) (disp_offset32 offset), hreg]
    rfl

theorem memory_sib (mod : Nat) {sib : UInt8} (h : ¬ (sib.toNat % 8 = 5 ∧ mod = 0)) :
    X64.memory rex mod 4 (sib :: bs) =
    (X64.disp mod bs).map fun d =>
    (⟨.reg (.ofNum (rex.b + sib.toNat % 8)), X64.index rex sib.toNat, d.1⟩, d.2) := by
  unfold X64.memory
  rw [if_pos rfl, X86.bind_apply, X86.byte_cons, Option.bind_some]
  dsimp only
  rw [if_neg h, X86.bind_apply]
  cases X64.disp mod bs with
  | none => rfl
  | some d => rfl

/-! ## Operands that are not encoded -/

theorem bind_modrm_none {f : Nat × RM → X86.Dec Instr} (h : X64.modrm rex bs = none) :
    (X64.modrm rex >>= f) bs = none := by
  rw [X86.bind_apply, h]
  rfl

/-- The SIB byte is missing, and what is there of the displacement is taken for it. -/
theorem modrm_mem_sib {base : Reg} (reg : Reg) (hbase : base.num % 8 = 4) (offset : BitVec 32) :
    X64.modrm rex (emitMemModrm reg base offset) = none := by
  have hmodrm : ∀ mod (m : UInt8), m.toNat = 64 * mod + 8 * (reg.num % 8) + base.num % 8 → mod < 3 →
      ∀ bs, X64.memory rex mod 4 bs = none → X64.modrm rex (m :: bs) = none := by
    intro mod m hm hmod bs hnone
    rw [modrm_memory mod hm hmod (field_lt reg) (field_lt base), hbase, hnone]
    rfl
  unfold emitMemModrm
  split
  · exact hmodrm 0 _ (modrm_toNat (by decide) reg base) (by decide) [] rfl
  split
  · refine hmodrm 1 _ (modrm_toNat (by decide) reg base) (by decide) _ ?_
    rw [memory_sib 1 (by omega)]
    rfl
  · refine hmodrm 2 _ (modrm_toNat (by decide) reg base) (by decide) _ ?_
    unfold emitU32
    rw [leBytes, memory_sib 2 (by omega)]
    rfl

/-! ## Indexed operands -/

theorem indexed_toNat (reg : Reg) :
    ((0x04 : UInt8) ||| (enc reg <<< 3)).toNat = 64 * 0 + 8 * (reg.num % 8) + 4 := by cases reg <;> rfl

theorem sib_toNat (base offsetReg : Reg) :
    ((enc offsetReg <<< 3) ||| enc base).toNat = 8 * (offsetReg.num % 8) + base.num % 8 := by
  rw [orEnc_toNat (by rw [shlEnc_toNat]; omega), shlEnc_toNat]

theorem index_eq (hx : rex.x = 0) (base offsetReg : Reg) : X64.index rex (8 * (offsetReg.num % 8) + base.num % 8) =
    if offsetReg.num % 8 = 4 then none else some (.ofNum (offsetReg.num % 8), 1) := by
  have hfield := field_lt base
  have hoff := field_lt offsetReg
  unfold X64.index
  rw [hx, show (8 * (offsetReg.num % 8) + base.num % 8) / 8 % 8 = offsetReg.num % 8 by omega,
    show (8 * (offsetReg.num % 8) + base.num % 8) / 64 = 0 by omega, Nat.zero_add, Nat.pow_zero]

theorem modrm_indexed {base offsetReg : Reg} (reg : Reg) (hgood : Indexable base offsetReg)
    (hb : rex.b = base.num / 8 * 8) (hx : rex.x = 0) :
    X64.modrm rex (emitIndexed reg base offsetReg ++ rest) =
    some ((reg.num % 8, .mem (atIndex base offsetReg)), rest) := by
  obtain ⟨hrbp, hr13, hlow, hrax, hrsp⟩ := hgood
  have hbase : base.num % 8 ≠ 5 := by cases base <;> first | decide | exact absurd rfl hrbp | exact absurd rfl hr13
  have hindex : X64.index rex (8 * (offsetReg.num % 8) + base.num % 8) = some (offsetReg, 1) := by
    rw [index_eq hx]
    cases offsetReg <;> first | rfl | exact absurd rfl hrsp | cases hlow
  have hreg : Reg.ofNum (rex.b + base.num % 8) = base := by rw [hb, ofNum_split]
  unfold emitIndexed
  rw [if_neg hrax, List.cons_append, List.singleton_append,
    modrm_memory 0 (indexed_toNat reg) (by decide) (field_lt reg) (by decide),
    memory_sib 0 (by rw [sib_toNat]; omega), sib_toNat, hindex,
    show (8 * (offsetReg.num % 8) + base.num % 8) % 8 = base.num % 8 by omega, hreg]
  rfl

theorem indexable_of_modrm {base offsetReg reg : Reg} {field : Nat} (hx : rex.x = 0)
    (h : X64.modrm rex (emitIndexed reg base offsetReg) = some ((field, .mem (atIndex base offsetReg)), [])) :
    Indexable base offsetReg := by
  unfold emitIndexed at h
  by_cases hrax : offsetReg = .rax
  · -- no index is encoded at all
    rw [if_pos hrax, modrm_memory 0 (modrm_toNat (by decide) reg base) (by decide) (field_lt reg)
      (field_lt base)] at h
    obtain ⟨⟨m, bs⟩, hm, heq⟩ := Option.map_eq_some_iff.mp h
    cases heq
    unfold X64.memory at hm
    by_cases hsib : base.num % 8 = 4
    · rw [if_pos hsib] at hm
      cases hm
    rw [if_neg hsib] at hm
    by_cases hrip : base.num % 8 = 5 ∧ 0 = 0
    · rw [if_pos hrip] at hm
      cases hm
    rw [if_neg hrip] at hm
    have hindex : some none = some (some (offsetReg, 1)) :=
      congrArg (Option.map fun p : Mem × List UInt8 => p.1.index) hm
    cases hindex
  · rw [if_neg hrax, modrm_memory 0 (indexed_toNat reg) (by decide) (field_lt reg) (by decide)] at h
    obtain ⟨⟨m, bs⟩, hm, heq⟩ := Option.map_eq_some_iff.mp h
    cases heq
    by_cases hfive : base.num % 8 = 5
    · unfold X64.memory at hm
      rw [if_pos rfl, X86.bind_apply, X86.byte_cons, Option.bind_some] at hm
      dsimp only at hm
      rw [sib_toNat, if_pos ⟨by omega, rfl⟩] at hm
      cases hm
    · rw [memory_sib 0 (by rw [sib_toNat]; omega), sib_toNat, index_eq hx] at hm
      obtain ⟨⟨d, bs⟩, hd, heq⟩ := Option.map_eq_some_iff.mp hm
      have hindex := congrArg (fun p => Mem.index p.1) heq
      change (if offsetReg.num % 8 = 4 then none else some (Reg.ofNum (offsetReg.num % 8), 1)) =
        some (offsetReg, 1) at hindex
      refine ⟨fun hbase => hfive (by rw [hbase]; rfl), fun hbase => hfive (by rw [hbase]; rfl), ?_, hrax, ?_⟩
      · cases offsetReg <;> first | rfl | cases hindex
      · intro hrsp
        rw [hrsp] at hindex
        cases hindex

/-! ## Instructions -/

theorem Encodes.unique {bytes : List UInt8} {i j : Instr} (hi : Encodes bytes i) (hj : Encodes bytes j) :
    i = j := by
  have heq := (hi []).symm.trans (hj [])
  cases heq
  rfl

theorem Encodes.decode_self {bytes : List UInt8} {i : Instr} (h : Encodes bytes i) :
    X64.decode bytes = some (i, []) := by
  have hdecode := h []
  rw [List.append_nil] at hdecode
  exact hdecode

theorem of_bind_modrm {k : Nat × RM → Instr} {i : Instr}
    (h : (X64.modrm rex >>= fun p => pure (k p)) bs = some (i, rest)) :
    ∃ p, X64.modrm rex bs = some (p, rest) ∧ k p = i := by
  obtain ⟨⟨p, bs'⟩, hp, hk⟩ := Option.bind_eq_some_iff.mp h
  cases hk
  exact ⟨p, hp, rfl⟩

@[simp] theorem loc_num (r : Reg) : (RM.reg r.num).loc = .reg r := congrArg Loc.reg (by cases r <;> rfl)

@[simp] theorem rexOf_reg (reg rm : Reg) : (rexOf reg rm).reg (reg.num % 8) = reg := ofNum_split reg

@[simp] theorem rexOf_size (reg rm : Reg) : (rexOf reg rm).size = .b64 := rfl

theorem rr_encodes (op : UInt8) {k : Rex → Nat × RM → Instr}
    (hop : ∀ rex, X64.decodeOp rex op.toNat = X64.modrm rex >>= fun p => pure (k rex p))
    (reg rm : Reg) : Encodes (emitRexRr reg rm ++ op :: emitModrmRr reg rm)
    (k (rexOf reg rm) (reg.num % 8, .reg rm.num)) := by
  intro rest
  rw [List.append_assoc, List.cons_append, decode_rexRr, hop, bind_modrm (modrm_rr reg rm)]
  change some (k (rexOf reg rm) (reg.num % 8, .reg (rm.num / 8 * 8 + rm.num % 8)), rest) = _
  rw [Nat.mul_comm, Nat.div_add_mod]

theorem movRr_encodes (dst src : Reg) : Encodes (emitMovRr dst src) (.mov .b64 (.reg dst) (.reg src)) := by
  have h := rr_encodes 0x89 (fun _ => rfl) src dst
  simp only [loc_num, rexOf_reg, rexOf_size] at h
  exact h

theorem alu_encodes (op : UInt8) {alu : X64.AluOp}
    (hop : ∀ rex, X64.decodeOp rex op.toNat = X64.aluOf alu rex) (dst src : Reg) :
    Encodes (emitOpRr [op] dst src) (.alu alu .b64 dst (.reg src)) := by
  have h := rr_encodes op hop dst src
  simpa [emitOpRr] using h

theorem testRr_encodes (reg : Reg) : Encodes (emitTestRr reg) (.test .b64 (.reg reg) reg) := by
  have h := rr_encodes 0x85 (fun _ => rfl) reg reg
  simp only [loc_num, rexOf_reg, rexOf_size] at h
  exact h

theorem imulRr_encodes (dst src : Reg) : Encodes (emitImulRr dst src) (.imul .b64 dst (.reg src)) := by
  intro rest
  unfold emitImulRr emitOpRr
  rw [List.append_assoc, List.append_assoc, List.cons_append, List.cons_append, List.nil_append, decode_rexRr]
  change (X64.modrm (rexOf dst src) >>= fun p =>
    pure (Instr.imul (rexOf dst src).size ((rexOf dst src).reg p.1) p.2.loc)) _ = _
  rw [bind_modrm (modrm_rr dst src)]
  change some (Instr.imul .b64 ((rexOf dst src).reg (dst.num % 8))
    (.reg (.ofNum (src.num / 8 * 8 + src.num % 8))), rest) = _
  rw [rexOf_reg, ofNum_split]

/-- An operation whose ModRM byte extends the opcode, on the register that the prefix and this byte name. -/
theorem ext_encodes (op m : UInt8) (field : Nat) {k : Rex → RM → Instr} {f : Rex → Nat × RM → X86.Dec Instr}
    (hop : ∀ rex, X64.decodeOp rex op.toNat = X64.modrm rex >>= f rex)
    (hf : ∀ rex rm, f rex (field, rm) = pure (k rex rm))
    (hm : m.toNat = 192 + 8 * field) (hfield : field < 8) (other rm reg : Reg) :
    Encodes (emitRexRr other rm ++ [op, m ||| enc reg])
    (k (rexOf other rm) (.reg (rm.num / 8 * 8 + reg.num % 8))) := by
  intro rest
  rw [List.append_assoc, List.cons_append, List.singleton_append, decode_rexRr, hop,
    bind_modrm (modrm_ext field hm hfield reg), hf]
  rfl

theorem shift_encodes (m : UInt8) (field : Nat) {shift : X64.ShiftOp} (hm : m.toNat = 192 + 8 * field)
    (hfield : field < 8)
    (hshift : ∀ rex rm, X64.shiftOf rex (field, rm) = pure (.shiftCl shift rex.size rm.loc)) (reg : Reg) :
    Encodes (emitShiftRcx m reg) (.shiftCl shift .b64 (.reg reg)) := by
  have h := ext_encodes 0xD3 m field (fun _ => rfl) hshift hm hfield .rcx reg reg
  rw [Nat.mul_comm, Nat.div_add_mod, loc_num] at h
  exact h

theorem neg_encodes (reg : Reg) : Encodes (emitNeg reg) (.neg .b64 (.reg (.ofNum (reg.num % 8)))) := by
  have h := ext_encodes 0xF7 0xD8 3 (fun _ => rfl) (f := X64.unaryOf) (fun _ _ => rfl) rfl (by decide) .rax .rax reg
  rw [show Reg.rax.num / 8 * 8 + reg.num % 8 = reg.num % 8 from Nat.zero_add _] at h
  exact h

theorem callR_encodes (reg : Reg) : Encodes (emitCallR reg) (.call (.reg reg)) := by
  intro rest
  unfold emitCallR
  rw [List.append_assoc, List.cons_append, List.singleton_append, decode_rexB reg (by decide)]
  change (X64.modrm (rexB reg) >>= X64.branchOf) _ = _
  rw [bind_modrm (modrm_ext 2 (by rfl) (by decide) reg)]
  change some (Instr.call (.reg (.ofNum (reg.num / 8 * 8 + reg.num % 8))), rest) = _
  rw [ofNum_split]

/-! Opcodes that hold the register. -/

theorem push_encodes (reg : Reg) : Encodes (emitPush reg) (.push reg) := by
  intro rest
  have hop : ((0x50 : UInt8) ||| enc reg).toNat = 0x50 + reg.num % 8 := orEnc_toNat (by decide) reg
  have hfield := field_lt reg
  unfold emitPush emitShort
  rw [List.append_assoc, List.singleton_append, decode_rexB reg (by omega), hop]
  unfold X64.decodeOp
  rw [if_pos (by omega), Nat.add_sub_cancel_left]
  change some (Instr.push (.ofNum (reg.num / 8 * 8 + reg.num % 8)), rest) = _
  rw [ofNum_split]

theorem pop_encodes (reg : Reg) : Encodes (emitPop reg) (.pop reg) := by
  intro rest
  have hop : ((0x58 : UInt8) ||| enc reg).toNat = 0x58 + reg.num % 8 := orEnc_toNat (by decide) reg
  have hfield := field_lt reg
  unfold emitPop emitShort
  rw [List.append_assoc, List.singleton_append, decode_rexB reg (by omega), hop]
  unfold X64.decodeOp
  rw [if_neg (by omega), if_pos (by omega), Nat.add_sub_cancel_left]
  change some (Instr.pop (.ofNum (reg.num / 8 * 8 + reg.num % 8)), rest) = _
  rw [ofNum_split]

theorem movImm_toNat (dst : Reg) : ((0xB8 : UInt8) ||| enc dst).toNat = 0xB8 + dst.num % 8 :=
  orEnc_toNat (by decide) dst

theorem decodeOp_movImm (dst : Reg) : X64.decodeOp rex (0xB8 + dst.num % 8) =
    (if rex.w then do
      let v ← X86.le 8
      pure (.movImm64 (.ofNum (rex.b + dst.num % 8)) (BitVec.ofNat 64 v))
    else do
      let v ← X86.le 4
      pure (.movImm32 (.ofNum (rex.b + dst.num % 8)) (BitVec.ofNat 32 v))) := by
  have hfield := field_lt dst
  unfold X64.decodeOp
  rw [if_neg (by omega), if_neg (by omega), if_pos (by omega), Nat.add_sub_cancel_left]

theorem movRi64_encodes (dst : Reg) (imm : BitVec 64) : Encodes (emitMovRi64 dst imm) (.movImm64 dst imm) := by
  intro rest
  have hle := le_leBytes 8 imm.toNat rest
  rw [Nat.mod_eq_of_lt (show imm.toNat < 256 ^ 8 from imm.isLt)] at hle
  change X64.decode ([if needsRex dst then 0x49 else 0x48] ++ _ :: (emitU64 imm ++ rest)) = _
  rw [rexW_eq, decode_rexRr, movImm_toNat, decodeOp_movImm, if_pos (by rfl), X86.bind_apply,
    show X86.le 8 (emitU64 imm ++ rest) = _ from hle]
  change some (Instr.movImm64 (.ofNum (dst.num / 8 * 8 + dst.num % 8)) (BitVec.ofNat 64 imm.toNat), rest) = _
  rw [ofNum_split, BitVec.ofNat_toNat, BitVec.setWidth_eq]

theorem movRi32_encodes (dst : Reg) (imm : BitVec 32) : Encodes (emitMovRi32 dst imm) (.movImm32 dst imm) := by
  intro rest
  have hop := movImm_toNat dst
  have hle := le_leBytes 4 imm.toNat rest
  rw [Nat.mod_eq_of_lt (show imm.toNat < 256 ^ 4 from imm.isLt)] at hle
  unfold emitMovRi32
  rw [List.append_assoc, List.cons_append, decode_rexB dst (by omega), hop, decodeOp_movImm,
    if_neg (by exact nofun), X86.bind_apply,
    show X86.le 4 (emitU32 imm ++ rest) = _ from hle]
  change some (Instr.movImm32 (.ofNum (dst.num / 8 * 8 + dst.num % 8)) (BitVec.ofNat 32 imm.toNat), rest) = _
  rw [ofNum_split, BitVec.ofNat_toNat, BitVec.setWidth_eq]

theorem aluImm_encodes (op m : UInt8) (field n : Nat) {imm : List UInt8} {v : Nat}
    (hop : ∀ rex, X64.decodeOp rex op.toNat = X64.aluImmOf n rex)
    (hle : ∀ rest, X86.le n (imm ++ rest) = some (v, rest)) (hm : m.toNat = 192 + 8 * field)
    (hfield : field < 8) (reg : Reg) :
    Encodes (emitRexRr .rax reg ++ op :: (m ||| enc reg) :: imm)
    (.aluImm (.ofNum field) .b64 (.reg reg) (X86.sext (8 * n) v)) := by
  intro rest
  rw [List.append_assoc, List.cons_append, List.cons_append, decode_rexRr, hop]
  unfold X64.aluImmOf
  rw [bind_modrm (modrm_ext field hm hfield reg)]
  dsimp only
  rw [X86.bind_apply, hle]
  change some (Instr.aluImm (.ofNum field) .b64 (.reg (.ofNum (reg.num / 8 * 8 + reg.num % 8))) _, rest) = _
  rw [ofNum_split]

theorem addRspI8_encodes (imm : UInt8) :
    Encodes (emitAddRspI8 imm) (.aluImm .add .b64 (.reg .rsp) (X86.sext 8 imm.toNat)) :=
  aluImm_encodes 0x83 0xC0 0 1 (fun _ => rfl) (fun _ => rfl) rfl (by decide) .rsp

theorem subRspI8_encodes (imm : UInt8) :
    Encodes (emitSubRspI8 imm) (.aluImm .sub .b64 (.reg .rsp) (X86.sext 8 imm.toNat)) :=
  aluImm_encodes 0x83 0xE8 5 1 (fun _ => rfl) (fun _ => rfl) rfl (by decide) .rsp

theorem cmpRi32_encodes (reg : Reg) (imm : BitVec 32) :
    Encodes (emitCmpRi32 reg imm) (.aluImm .cmp .b64 (.reg reg) (imm.signExtend 64)) := by
  have hle : ∀ rest, X86.le 4 (emitU32 imm ++ rest) = some (imm.toNat, rest) := by
    intro rest
    have h := le_leBytes 4 imm.toNat rest
    rw [Nat.mod_eq_of_lt (show imm.toNat < 256 ^ 4 from imm.isLt)] at h
    exact h
  have h := aluImm_encodes 0x81 0xF8 7 4 (fun _ => rfl) hle rfl (by decide) reg
  rw [← rexW_eq, X86.sext, BitVec.ofNat_toNat, BitVec.setWidth_eq] at h
  exact h

/-! ## Byte registers -/

theorem setcc_code (cond : Cond) :
    (0x90 ||| cond.code).toNat = 0x90 + cond.code.toNat ∧ cond.code.toNat < 16 ∧
    X64.Cond.ofNum cond.code.toNat = cond.documented := by
  cases cond <;> exact ⟨rfl, by decide, rfl⟩

/-- The register field is the operand; the byte that names it is that of `al`. -/
theorem setcc_encodes (cond : Cond) (reg : Reg) :
    Encodes (emitSetcc cond reg) (.setcc cond.documented (.reg (.low .rax))) := by
  intro rest
  have hdecode : ∀ given bs, X64.decodeOp ⟨given, false, 0, 0, 0⟩ 0x0F
      ((0x90 ||| cond.code) :: (emitModrmRr reg .rax ++ bs)) =
      some (.setcc cond.documented (.reg (.low .rax)), bs) := by
    intro given bs
    have hlow : RM.loc8 ⟨given, false, 0, 0, 0⟩ (.reg 0) = .reg (.low .rax) := by cases given <;> rfl
    obtain ⟨hcode, hlt, hcond⟩ := setcc_code cond
    change X64.decode0F _ _ = _
    unfold X64.decode0F
    rw [X86.bind_apply, X86.byte_cons, Option.bind_some]
    dsimp only
    rw [hcode, if_pos (by omega), bind_modrm (modrm_rr reg .rax), Nat.add_sub_cancel_left, hcond]
    change some (Instr.setcc cond.documented (RM.loc8 _ (.reg 0)), bs) = _
    rw [hlow]
  unfold emitSetcc
  by_cases hr : needsRex reg = true
  · have hprefix : [(0x40 : UInt8) ||| (enc reg >>> 3)] = [0x40] := by cases reg <;> rfl
    rw [if_pos hr, hprefix]
    exact hdecode true rest
  · rw [if_neg hr]
    exact hdecode false rest

/-- The byte register that is named, with and without a prefix. -/
def byteReg (dst src : Reg) : X64.Reg8 := .ofNum (needsRex dst || needsRex src) src.num

theorem movzxR32R8_encodes (dst src : Reg) :
    Encodes (emitMovzxR32R8 dst src) (.movzx8 .b32 dst (.reg (byteReg dst src))) := by
  intro rest
  have hdecode : X64.decode (emitMovzxR32R8 dst src ++ rest) =
      X64.decodeOp ⟨needsRex dst || needsRex src, false, dst.num / 8 * 8, 0, src.num / 8 * 8⟩ 0x0F
      (0xB6 :: (emitModrmRr dst src ++ rest)) := by
    unfold emitMovzxR32R8
    rw [num_div, num_div]
    cases needsRex dst <;> cases needsRex src <;> rfl
  rw [hdecode]
  change (X64.modrm _ >>= fun p => pure (Instr.movzx8 _ (Rex.reg _ p.1) (p.2.loc8 _)))
    (emitModrmRr dst src ++ rest) = _
  rw [bind_modrm (modrm_rr dst src)]
  change some (Instr.movzx8 .b32 (.ofNum (dst.num / 8 * 8 + dst.num % 8))
    (.reg (.ofNum _ (src.num / 8 * 8 + src.num % 8))), rest) = _
  rw [ofNum_split, Nat.mul_comm (src.num / 8), Nat.div_add_mod]
  rfl

/-! ## Memory operands -/

/-- A 64-bit operation with a memory operand; `pre` holds the opcode. -/
theorem mem_encodes_iff (pre : List UInt8) (k : Rex → Nat × RM → Instr)
    (hop : ∀ reg rm bs, X64.decode (emitRexRr reg rm ++ (pre ++ bs)) =
      (X64.modrm (rexOf reg rm) >>= fun p => pure (k (rexOf reg rm) p)) bs)
    (reg base : Reg) (offset : BitVec 32) (i : Instr) :
    Encodes (emitRexRr reg base ++ (pre ++ emitMemModrm reg base offset)) i ↔
      base.num % 8 ≠ 4 ∧ i = k (rexOf reg base) (reg.num % 8, .mem (atOffset base offset)) := by
  have hgood : base.num % 8 ≠ 4 → Encodes (emitRexRr reg base ++ (pre ++ emitMemModrm reg base offset))
      (k (rexOf reg base) (reg.num % 8, .mem (atOffset base offset))) := by
    intro hbase rest
    rw [List.append_assoc, List.append_assoc, hop, bind_modrm (modrm_mem reg hbase rfl offset)]
    rfl
  constructor
  · intro h
    have hbase : base.num % 8 ≠ 4 := by
      intro hsib
      have hdecode := Encodes.decode_self h
      rw [hop, bind_modrm_none (modrm_mem_sib reg hsib offset)] at hdecode
      cases hdecode
    exact ⟨hbase, Encodes.unique h (hgood hbase)⟩
  · intro h
    rw [h.2]
    exact hgood h.1

theorem noSib_iff (base : Reg) : NoSib base ↔ base.num % 8 ≠ 4 := by
  unfold NoSib
  cases base <;> decide

theorem loadMem_encodes_iff (dst base : Reg) (offset : BitVec 32) :
    Encodes (emitLoadMem dst base offset) (.mov .b64 (.reg dst) (.mem (atOffset base offset))) ↔ NoSib base := by
  rw [noSib_iff]
  refine (mem_encodes_iff [0x8B] (fun rex p => .mov rex.size (.reg (rex.reg p.1)) p.2.loc)
    (fun reg rm bs => decode_rexRr reg rm 0x8B)
    dst base offset _).trans (and_iff_left ?_)
  rw [rexOf_reg]
  rfl

theorem storeMem_encodes_iff (src base : Reg) (offset : BitVec 32) :
    Encodes (emitStoreMem src base offset) (.mov .b64 (.mem (atOffset base offset)) (.reg src)) ↔ NoSib base := by
  rw [noSib_iff]
  refine (mem_encodes_iff [0x89] (fun rex p => .mov rex.size p.2.loc (.reg (rex.reg p.1)))
    (fun reg rm bs => decode_rexRr reg rm 0x89)
    src base offset _).trans (and_iff_left ?_)
  rw [rexOf_reg]
  rfl

theorem movsxR32Mem8_not_encodes (dst base : Reg) (offset : BitVec 32) (src : Loc8) :
    ¬ Encodes (emitMovsxR32Mem8 dst base offset) (.movsx8 .b32 dst src) := by
  intro h
  have hiff := mem_encodes_iff [0x0F, 0xBE] (fun rex p => .movsx8 rex.size (rex.reg p.1) (p.2.loc8 rex))
    (fun reg rm bs => decode_rexRr reg rm 0x0F) dst base offset (.movsx8 .b32 dst src)
  cases (hiff.mp h).2

theorem movzxR32Mem8_not_encodes (dst base : Reg) (offset : BitVec 32) (src : Loc8) :
    ¬ Encodes (emitMovzxR32Mem8 dst base offset) (.movzx8 .b32 dst src) := by
  intro h
  have hiff := mem_encodes_iff [0x0F, 0xB6] (fun rex p => .movzx8 rex.size (rex.reg p.1) (p.2.loc8 rex))
    (fun reg rm bs => decode_rexRr reg rm 0x0F) dst base offset (.movzx8 .b32 dst src)
  cases (hiff.mp h).2

theorem indexed_encodes_iff (op : UInt8) {k : Rex → Nat × RM → Instr} {i : Instr}
    (hop : ∀ rex, X64.decodeOp rex op.toNat = X64.modrm rex >>= fun p => pure (k rex p)) (reg base offsetReg : Reg)
    (hk : k (rexOf reg base) (reg.num % 8, .mem (atIndex base offsetReg)) = i)
    (hinj : ∀ p, k (rexOf reg base) p = i → p.2 = .mem (atIndex base offsetReg)) :
    Encodes (emitRexRr reg base ++ op :: emitIndexed reg base offsetReg) i ↔ Indexable base offsetReg := by
  constructor
  · intro h
    have hdecode := Encodes.decode_self h
    rw [decode_rexRr, hop] at hdecode
    obtain ⟨⟨field, rm⟩, hp, hi⟩ := of_bind_modrm hdecode
    obtain rfl : rm = .mem (atIndex base offsetReg) := hinj _ hi
    exact indexable_of_modrm rfl hp
  · intro h rest
    rw [List.append_assoc, List.cons_append, decode_rexRr, hop, bind_modrm (modrm_indexed reg h rfl rfl), hk]
    rfl

theorem loc_mem {rm : RM} {m : Mem} (h : rm.loc = .mem m) : rm = .mem m := by
  cases rm with
  | reg n => cases h
  | mem m' => cases h; rfl

theorem memLoadU64_encodes_iff (dst base offsetReg : Reg) :
    Encodes (emitMemLoadU64 dst base offsetReg) (.mov .b64 (.reg dst) (.mem (atIndex base offsetReg))) ↔
    Indexable base offsetReg := by
  refine indexed_encodes_iff 0x8B (fun _ => rfl) dst base offsetReg ?_ fun p hp => loc_mem (Instr.mov.inj hp).2.2
  exact congrArg (fun r => Instr.mov .b64 (.reg r) (.mem (atIndex base offsetReg))) (rexOf_reg dst base)

theorem memStoreU64_encodes_iff (src base offsetReg : Reg) :
    Encodes (emitMemStoreU64 src base offsetReg) (.mov .b64 (.mem (atIndex base offsetReg)) (.reg src)) ↔
    Indexable base offsetReg := by
  refine indexed_encodes_iff 0x89 (fun _ => rfl) src base offsetReg ?_ fun p hp => loc_mem (Instr.mov.inj hp).2.1
  exact congrArg (fun r => Instr.mov .b64 (.mem (atIndex base offsetReg)) (.reg r)) (rexOf_reg src base)

/-! ## All emitters -/

theorem encodes_iff_eq {bytes : List UInt8} {i j : Instr} (h : Encodes bytes i) : Encodes bytes j ↔ i = j :=
  ⟨Encodes.unique h, fun heq => heq ▸ h⟩

theorem neg_encodes_iff (reg : Reg) : Encodes (emitNeg reg) (.neg .b64 (.reg reg)) ↔ needsRex reg = false := by
  rw [encodes_iff_eq (neg_encodes reg)]
  cases reg <;> decide

theorem setcc_encodes_iff (cond : Cond) (reg : Reg) :
    Encodes (emitSetcc cond reg) (.setcc cond.documented (.reg (.low reg))) ↔ reg = .rax := by
  rw [encodes_iff_eq (setcc_encodes cond reg)]
  constructor
  · intro h
    cases h
    rfl
  · intro h
    rw [h]

theorem movzxR32R8_encodes_iff (dst src : Reg) :
    Encodes (emitMovzxR32R8 dst src) (.movzx8 .b32 dst (.reg (.low src))) ↔
    needsRex dst ∨ needsRex src ∨ src ∉ [Reg.rsp, .rbp, .rsi, .rdi] := by
  rw [encodes_iff_eq (movzxR32R8_encodes dst src)]
  have hsame : Instr.movzx8 .b32 dst (.reg (byteReg dst src)) = .movzx8 .b32 dst (.reg (.low src)) ↔
      byteReg dst src = .low src := by simp
  rw [hsame]
  unfold byteReg
  cases needsRex dst <;> cases src <;> decide

/-- An emitter appends the instruction that its comment documents, and nothing else, exactly for these operands. -/
theorem emit_encodes_iff (e : Emit) : Encodes e.bytes e.documented ↔ e.Good := by
  cases e with
  | movRr dst src => exact iff_of_true (movRr_encodes dst src) trivial
  | movRi64 dst imm => exact iff_of_true (movRi64_encodes dst imm) trivial
  | movRi32 dst imm => exact iff_of_true (movRi32_encodes dst imm) trivial
  | push reg => exact iff_of_true (push_encodes reg) trivial
  | pop reg => exact iff_of_true (pop_encodes reg) trivial
  | addRr dst src => exact iff_of_true (alu_encodes 0x03 (fun _ => rfl) dst src) trivial
  | subRr dst src => exact iff_of_true (alu_encodes 0x2B (fun _ => rfl) dst src) trivial
  | andRr dst src => exact iff_of_true (alu_encodes 0x23 (fun _ => rfl) dst src) trivial
  | orRr dst src => exact iff_of_true (alu_encodes 0x0B (fun _ => rfl) dst src) trivial
  | xorRr dst src => exact iff_of_true (alu_encodes 0x33 (fun _ => rfl) dst src) trivial
  | imulRr dst src => exact iff_of_true (imulRr_encodes dst src) trivial
  | loadMem dst base byteOffset => exact loadMem_encodes_iff dst base byteOffset
  | storeMem src base byteOffset => exact storeMem_encodes_iff src base byteOffset
  | addRspI8 imm => exact iff_of_true (addRspI8_encodes imm) trivial
  | subRspI8 imm => exact iff_of_true (subRspI8_encodes imm) trivial
  | sarRcx reg => exact iff_of_true (shift_encodes 0xF8 7 rfl (by decide) (fun _ _ => rfl) reg) trivial
  | shlRcx reg => exact iff_of_true (shift_encodes 0xE0 4 rfl (by decide) (fun _ _ => rfl) reg) trivial
  | shrRcx reg => exact iff_of_true (shift_encodes 0xE8 5 rfl (by decide) (fun _ _ => rfl) reg) trivial
  | neg reg => exact neg_encodes_iff reg
  | setcc cond reg => exact setcc_encodes_iff cond reg
  | movzxR32R8 dst src => exact movzxR32R8_encodes_iff dst src
  | movsxR32Mem8 dst base offset => exact iff_of_false (movsxR32Mem8_not_encodes dst base offset _) id
  | movzxR32Mem8 dst base offset => exact iff_of_false (movzxR32Mem8_not_encodes dst base offset _) id
  | memLoadU64 dst base offsetReg => exact memLoadU64_encodes_iff dst base offsetReg
  | memStoreU64 src base offsetReg => exact memStoreU64_encodes_iff src base offsetReg
  | testRr reg => exact iff_of_true (testRr_encodes reg) trivial
  | cmpRi32 reg imm => exact iff_of_true (cmpRi32_encodes reg imm) trivial
  | callR reg => exact iff_of_true (callR_encodes reg) trivial

/-- `neg r8` is emitted as `neg rax`. -/
theorem not_all_encodes : ¬ ∀ e : Emit, Encodes e.bytes e.documented := fun h => by cases h (.neg .r8) []

end

end WasmOs.Emit
