import WasmOs.ParserEnds

/-!
# More fuel changes nothing

The functions that read instructions give the same with more fuel unless they ran out of it, so between two
places of a text their fuel does not matter.
-/

namespace WasmOs.Asm.Parser

variable {F : FloatOps} {α β : Type} {p : Parser} {ts : List Token} {ns : Names}

/-- The first computation ran out of fuel or is the second. -/
def Below (m m' : Parse α) : Prop := m = .error .hang ∨ m = m'

theorem Below.refl (m : Parse α) : Below m m := .inr rfl

theorem Below.bind {m m' : Parse α} {f f' : α → Parse β} (hm : Below m m') (hf : ∀ a, Below (f a) (f' a)) :
    Below (m >>= f) (m' >>= f') := by
  obtain rfl | rfl := hm
  · exact .inl rfl
  · cases m with
    | error e => exact .inr rfl
    | ok a => exact hf a

structure FuelGrows (F : FloatOps) (fuel : Nat) : Prop where
  instrs : ∀ p, Below (parseInstrs F fuel p) (parseInstrs F (fuel + 1) p)
  folded : ∀ p, Below (parseFoldedInstr F fuel p) (parseFoldedInstr F (fuel + 1) p)
  operands : ∀ p, Below (parseOperands F fuel p) (parseOperands F (fuel + 1) p)
  condition : ∀ p, Below (parseCondition F fuel p) (parseCondition F (fuel + 1) p)
  foldedIf : ∀ p, Below (parseFoldedIf F fuel p) (parseFoldedIf F (fuel + 1) p)
  foldedBlock : ∀ p, Below (parseFoldedBlockOrLoop F fuel p) (parseFoldedBlockOrLoop F (fuel + 1) p)

theorem fuel_grows (F : FloatOps) (fuel : Nat) : FuelGrows F fuel := by
  induction fuel with
  | zero =>
    constructor
    · intro p
      exact .inl (by rw [parseInstrs])
    · intro p
      exact .inl (by rw [parseFoldedInstr])
    · intro p
      exact .inl (by rw [parseOperands])
    · intro p
      exact .inl (by rw [parseCondition])
    · intro p
      exact .inl (by rw [parseFoldedIf])
    · intro p
      exact .inl (by rw [parseFoldedBlockOrLoop])
  | succ fuel ih =>
    constructor
    · intro p
      rw [parseInstrs, parseInstrs]
      split
      · exact .refl _
      · exact .refl _
      · refine (Below.refl _).bind fun q => ?_
        refine (ih.folded q).bind fun r => ?_
        exact (ih.instrs r.2).bind fun s => .refl _
      · refine (Below.refl _).bind fun q => ?_
        exact (ih.instrs q.2).bind fun r => .refl _
      · exact (Below.refl _).bind fun q => ih.instrs q
    · intro p
      rw [parseFoldedInstr, parseFoldedInstr]
      split
      · split
        · exact ih.foldedIf p
        · split
          · exact ih.foldedBlock p
          · refine (Below.refl _).bind fun q => ?_
            refine (Below.refl _).bind fun r => ?_
            exact (ih.operands r.2).bind fun s => .refl _
      · exact .refl _
    · intro p
      rw [parseOperands, parseOperands]
      split
      · refine (Below.refl _).bind fun q => ?_
        refine (ih.folded q).bind fun r => ?_
        exact (ih.operands r.2).bind fun s => .refl _
      · exact .refl _
    · intro p
      rw [parseCondition, parseCondition]
      split
      · refine (Below.refl _).bind fun q => ?_
        split
        · refine (Below.refl _).bind fun r => ?_
          exact (ih.instrs r).bind fun s => .refl _
        · refine (ih.folded q).bind fun r => ?_
          exact (ih.condition r.2).bind fun s => .refl _
      · exact .refl _
    · intro p
      rw [parseFoldedIf, parseFoldedIf]
      refine (Below.refl _).bind fun q => ?_
      refine (Below.refl _).bind fun r => ?_
      refine (Below.refl _).bind fun s => ?_
      refine (ih.condition s.2).bind fun t => ?_
      obtain ⟨⟨cond, thenInstrs⟩, c⟩ := t
      dsimp only
      split
      · refine (Below.refl _).bind fun t => ?_
        split
        · refine (Below.refl _).bind fun u => ?_
          refine (ih.instrs u).bind fun v => ?_
          obtain ⟨elseInstrs, v⟩ := v
          exact (Below.refl _).bind fun w => .refl _
        · exact .refl _
      · exact .refl _
    · intro p
      rw [parseFoldedBlockOrLoop, parseFoldedBlockOrLoop]
      refine (Below.refl _).bind fun q => ?_
      refine (Below.refl _).bind fun r => ?_
      refine (Below.refl _).bind fun s => ?_
      exact (ih.instrs s.2).bind fun t => .refl _

theorem instrs_more {fuel : Nat} (extra : Nat) (h : parseInstrs F fuel p ≠ .error .hang) :
    parseInstrs F fuel p = parseInstrs F (fuel + extra) p := by
  induction extra with
  | zero => rfl
  | succ extra ih =>
    have hne : parseInstrs F (fuel + extra) p ≠ .error .hang := ih ▸ h
    exact ih.trans (((fuel_grows F (fuel + extra)).instrs p).resolve_left hne)

theorem instrs_fuel {fuel : Nat} (h : p.At F ts ns) (hfuel : 2 * ts.length < fuel) :
    parseInstrs F fuel p = parseInstrs F (2 * ts.length + 1) p := by
  obtain ⟨extra, rfl⟩ := Nat.exists_eq_add_of_le hfuel
  exact (instrs_more extra (h.loopsEnd.instrs _ (Nat.lt_succ_self _))).symm

end WasmOs.Asm.Parser
