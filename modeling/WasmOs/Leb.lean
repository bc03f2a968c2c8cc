import Mathlib.Algebra.Group.Int.Defs
import Mathlib.Algebra.GroupWithZero.Nat
import Mathlib.Tactic.Common

/-!
# LEB-128

The grammar of `uN` and `sN` of the WebAssembly binary format: at most `⌈N/7⌉` bytes, every one
but the last with its high bit set, and the unused bits of the last byte equal to the (sign)
extension of the value. Padded encodings are in the grammar, so a number has several.
-/

namespace WasmOs

inductive ULeb : Nat → List UInt8 → Nat → Prop
  | last {N : Nat} {b : UInt8} : b.toNat < 128 → b.toNat < 2 ^ N → ULeb N [b] b.toNat
  | more {N v : Nat} {b : UInt8} {bs : List UInt8} : 128 ≤ b.toNat → 7 < N → ULeb (N - 7) bs v →
      ULeb N (b :: bs) (128 * v + (b.toNat - 128))

inductive SLeb : Nat → List UInt8 → Int → Prop
  | pos {N : Nat} {b : UInt8} : b.toNat < 64 → b.toNat < 2 ^ (N - 1) → SLeb N [b] b.toNat
  | neg {N : Nat} {b : UInt8} : 64 ≤ b.toNat → b.toNat < 128 → 128 ≤ b.toNat + 2 ^ (N - 1) →
      SLeb N [b] ((b.toNat : Int) - 128)
  | more {N : Nat} {v : Int} {b : UInt8} {bs : List UInt8} : 128 ≤ b.toNat → 7 < N → SLeb (N - 7) bs v →
      SLeb N (b :: bs) (128 * v + ((b.toNat : Int) - 128))

/-- A `u32` immediate with the bytes that encode it. -/
structure U32 where
  val : Nat
  raw : List UInt8
  wf : ULeb 32 raw val

/-- An `s32` immediate with the bytes that encode it. -/
structure S32 where
  val : Int
  raw : List UInt8
  wf : SLeb 32 raw val

/-- An `s64` immediate with the bytes that encode it. -/
structure S64 where
  val : Int
  raw : List UInt8
  wf : SLeb 64 raw val

/-- The continuation bits are right: set on every byte but the last. -/
def LebShape : List UInt8 → Prop
  | [] => False
  | [b] => b.toNat < 128
  | b :: bs => 128 ≤ b.toNat ∧ LebShape bs

theorem LebShape.cons {b : UInt8} {bs : List UInt8} (hb : 128 ≤ b.toNat) (h : LebShape bs) :
    LebShape (b :: bs) := by
  cases bs with
  | nil => exact h.elim
  | cons c cs => exact ⟨hb, h⟩

theorem ULeb.shape {N v : Nat} {bs : List UInt8} (h : ULeb N bs v) : LebShape bs := by
  induction h with
  | last h _ => exact h
  | more hb _ _ ih => exact .cons hb ih

theorem SLeb.shape {N : Nat} {v : Int} {bs : List UInt8} (h : SLeb N bs v) : LebShape bs := by
  induction h with
  | pos h _ => exact Nat.lt_trans h (by decide)
  | neg _ h _ => exact h
  | more hb _ _ ih => exact .cons hb ih

theorem ULeb.lt {N v : Nat} {bs : List UInt8} (h : ULeb N bs v) : v < 2 ^ N := by
  induction h with
  | last _ h => exact h
  | @more N v b bs hb hN _ ih =>
    have hlt := b.toNat_lt
    have : 2 ^ N = 2 ^ (N - 7) * 128 := by
      rw [show (128 : Nat) = 2 ^ 7 from rfl, ← Nat.pow_add]
      congr 1; omega
    rw [this]
    have : 128 * (v + 1) ≤ 128 * 2 ^ (N - 7) := Nat.mul_le_mul_left _ ih
    omega

theorem ULeb.length_le {N v : Nat} {bs : List UInt8} (h : ULeb N bs v) : bs.length = 1 ∨ 7 * bs.length < N + 7 := by
  induction h with
  | last => simp
  | more _ hN _ ih => simp only [List.length_cons]; omega

theorem SLeb.length_le {N : Nat} {v : Int} {bs : List UInt8} (h : SLeb N bs v) :
    bs.length = 1 ∨ 7 * bs.length < N + 7 := by
  induction h with
  | pos => simp
  | neg => simp
  | more _ hN _ ih => simp only [List.length_cons]; omega

theorem LebShape.ne_nil {bs : List UInt8} (h : LebShape bs) : bs ≠ [] := by
  rintro rfl; exact h

/-- A statement about bytes holds once it holds of the 256 of them. -/
theorem byte_forall {P : UInt8 → Prop} (h : ∀ n : Fin 256, P (UInt8.ofNat n.val)) (b : UInt8) : P b := by
  have := h ⟨b.toNat, b.toNat_lt⟩
  simpa using this

/-- `b & 0x80 == 0` in numbers. -/
theorem and_0x80_eq_zero (b : UInt8) : (b &&& 0x80 = 0) ↔ b.toNat < 128 :=
  byte_forall (P := fun b => (b &&& 0x80 = 0) ↔ b.toNat < 128) (by decide +kernel) b

theorem and_0x7f_toNat (b : UInt8) : (b &&& 0x7F).toNat = b.toNat % 128 :=
  byte_forall (P := fun b => (b &&& 0x7F).toNat = b.toNat % 128) (by decide +kernel) b

theorem and_0x40_eq_zero (b : UInt8) : (b &&& 0x40 = 0) ↔ b.toNat % 128 < 64 :=
  byte_forall (P := fun b => (b &&& 0x40 = 0) ↔ b.toNat % 128 < 64) (by decide +kernel) b

end WasmOs
