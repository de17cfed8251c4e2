import Mathlib.Data.BitVec

/-!
# Flag bytes

A byte of flags is tested with `x &&& m ≠ 0`, set with `x ||| m` and
cleared with `x &&& ~~~ m`. The lemmas below say how a test reads after a
set or a clear; they go through `BitVec` bit by bit.
-/

namespace QemuKvm

theorem UInt8.or_and_ne_zero_iff (x y m : UInt8) :
    (x ||| y) &&& m ≠ 0 ↔ x &&& m ≠ 0 ∨ y &&& m ≠ 0 := by
  simp only [Ne, ← UInt8.toBitVec_inj, UInt8.toBitVec_and, UInt8.toBitVec_or,
    UInt8.toBitVec_zero, ← not_and_or, not_iff_not]
  constructor
  · intro h
    constructor <;>
    · ext i hi
      have := congrArg (fun v => v.getLsbD i) h
      simp only [BitVec.getLsbD_and, BitVec.getLsbD_or, BitVec.getLsbD_zero] at this ⊢
      grind
  · rintro ⟨hx, hy⟩
    ext i hi
    have h1 := congrArg (fun v => v.getLsbD i) hx
    have h2 := congrArg (fun v => v.getLsbD i) hy
    simp only [BitVec.getLsbD_and, BitVec.getLsbD_zero] at h1 h2 ⊢
    grind

/-- A set flag stays set whatever else is set. -/
theorem UInt8.or_and_ne_zero_left {x m : UInt8} (y : UInt8) (h : x &&& m ≠ 0) :
    (x ||| y) &&& m ≠ 0 :=
  (UInt8.or_and_ne_zero_iff x y m).mpr (Or.inl h)

/-- Setting flags sets them. -/
theorem UInt8.or_and_ne_zero_right (x : UInt8) {y m : UInt8} (h : y &&& m ≠ 0) :
    (x ||| y) &&& m ≠ 0 :=
  (UInt8.or_and_ne_zero_iff x y m).mpr (Or.inr h)

/-- Clearing flags clears them. -/
@[simp] theorem UInt8.and_not_and_self (x m : UInt8) : x &&& ~~~ m &&& m = 0 := by
  rw [UInt8.and_assoc]
  simp

/-- Setting flags sets them (32-bit flag words). -/
@[simp] theorem UInt32.or_and_self (x m : UInt32) : (x ||| m) &&& m = m := by
  rw [← UInt32.toBitVec_inj, UInt32.toBitVec_and, UInt32.toBitVec_or]
  ext i hi
  simp only [BitVec.getElem_and, BitVec.getElem_or]
  cases x.toBitVec[i] <;> cases m.toBitVec[i] <;> rfl

/-- A word with no bit outside a mask is unchanged by the mask. -/
theorem UInt32.and_eq_self_of_and_not (x m : UInt32) (h : x &&& ~~~m = 0) : x &&& m = x := by
  rw [← UInt32.toBitVec_inj] at h ⊢
  simp only [UInt32.toBitVec_and, UInt32.toBitVec_not, UInt32.toBitVec_zero] at h ⊢
  ext i hi
  have hi' := congrArg (fun v => v[i]) h
  simp only [BitVec.getElem_and, BitVec.getElem_not, BitVec.getElem_zero] at hi' ⊢
  cases hx : x.toBitVec[i] <;> cases hm : m.toBitVec[i] <;> simp_all

end QemuKvm
