import Mathlib.Data.BitVec

/-!
# Masks of high bits

A mask that keeps the bits from `j` upward, `allOnes w <<< j`, is how code
written against power-of-two sizes describes an aligned region: `~(size - 1)`
for `size = 2 ^ j`. This module gives what the TLB's large-page region needs
of them:

* `not_sub_one_eq_highMask` — `~(size - 1)` is such a mask;
* `highMask_and_highMask` — two of them meet in the narrower one;
* `highMask_shiftLeft` — shifting one left narrows it, down to zero;
* `and_highMask_add` — an address's bits above `j` plus its bits between
  `k` and `j` are its bits above `k`;
* `and_sub_one_eq_zero_iff` — C's power-of-two test;
* `toNat_and_highMask` — masking rounds down to a multiple of `2 ^ j`, and
  `toNat_nextBoundary_sub` — the distance to the next multiple, as C
  computes it with shifts;
* `IsHighMask` and its closure under `&&&` and `<<< 1`;
* `Subset` — `x &&& y = x`, the bits of `x` are among those of `y` — with
  the transitivity and monotonicity the region invariant uses, and
  `and_eq_and_of_xor_and_eq_zero` for two words that agree under a mask.
-/

namespace QemuKvm

open BitVec

variable {w : ℕ}

/-- The bits `j` and up of a `w`-bit word. -/
def highMask (w j : ℕ) : BitVec w :=
  allOnes w <<< j

@[simp] theorem getLsbD_highMask (j i : ℕ) :
    (highMask w j).getLsbD i = (decide (i < w) && decide (j ≤ i)) := by
  rw [highMask, getLsbD_shiftLeft, getLsbD_allOnes]
  by_cases hj : j ≤ i
  · by_cases hi : i < w
    · simp [hj, hi]
      omega
    · simp [hi]
  · simp [hj]

theorem highMask_and_highMask (j k : ℕ) :
    highMask w j &&& highMask w k = highMask w (max j k) := by
  ext i hi
  simp only [← getLsbD_eq_getElem, getLsbD_and, getLsbD_highMask]
  by_cases hj : j ≤ i <;> by_cases hk : k ≤ i <;> simp [hj, hk, hi]

theorem highMask_shiftLeft (j k : ℕ) : highMask w j <<< k = highMask w (j + k) := by
  rw [highMask, highMask, shiftLeft_add]

/-- A word's bits from `j` up, plus its bits from `k` to `j`, are its bits
from `k` up: the two parts are disjoint, so the sum carries nothing. -/
theorem and_highMask_add {j k : ℕ} (hkj : k ≤ j) (x : BitVec w) :
    (x &&& highMask w j) + (x &&& highMask w k &&& ~~~(highMask w j)) = x &&& highMask w k := by
  rw [add_eq_or_of_and_eq_zero]
  · ext i hi
    simp only [← getLsbD_eq_getElem, getLsbD_or, getLsbD_and, getLsbD_not, getLsbD_highMask]
    by_cases hj : j ≤ i
    · simp [hj, hi, show k ≤ i by omega]
    · simp [hj, hi]
  · ext i hi
    simp only [← getLsbD_eq_getElem, getLsbD_and, getLsbD_not, getLsbD_highMask, getLsbD_zero]
    by_cases hj : j ≤ i <;> simp [hj, hi]

theorem highMask_of_le {j : ℕ} (hj : w ≤ j) : highMask w j = 0#w := by
  ext i hi
  simp only [← getLsbD_eq_getElem, getLsbD_highMask, getLsbD_zero]
  simp [hi]
  omega

/-- `~(2 ^ j - 1)`, the mask C code takes for an aligned block of `2 ^ j`. -/
theorem not_sub_one_eq_highMask {j : ℕ} (hj : j < w) : ~~~((1#w <<< j) - 1#w) = highMask w j := by
  ext i hi
  have hlow : ((1#w <<< j) - 1#w).getLsbD i = decide (i < j) := by
    have hw : 0 < w := by omega
    have h1 : (1#w <<< j).toNat = 2 ^ j := by
      rw [← twoPow_eq]
      exact toNat_twoPow_of_lt hj
    have h0 : (1#w).toNat = 1 := by simpa using hw
    have hsub : ((1#w <<< j) - 1#w).toNat = 2 ^ j - 1 := by
      rw [toNat_sub_of_le (by rw [le_def, h1, h0]; exact Nat.one_le_two_pow), h1, h0]
    rw [getLsbD, hsub, Nat.testBit_two_pow_sub_one]
  simp only [← getLsbD_eq_getElem, getLsbD_not, hlow, getLsbD_highMask]
  by_cases hij : i < j
  · simp [hij, hi]
  · simp [hij, hi]
    omega

/-- Masking with `highMask w j` rounds down to a multiple of `2 ^ j`. -/
theorem toNat_and_highMask (x : BitVec w) (j : ℕ) :
    (x &&& highMask w j).toNat = x.toNat / 2 ^ j * 2 ^ j := by
  apply Nat.eq_of_testBit_eq
  intro i
  rw [testBit_toNat, getLsbD_and, getLsbD_highMask, Nat.testBit_mul_two_pow,
    Nat.testBit_div_two_pow]
  by_cases hj : j ≤ i
  · rw [Nat.sub_add_cancel hj, testBit_toNat]
    by_cases hi : i < w
    · simp [hi, hj]
    · simp [hi, getLsbD_of_ge x i (by omega)]
  · simp [hj]

/-- The distance from `x` to the next multiple of `2 ^ L`, computed as C
code computes it, `(((x >> L) + 1) << L) - x`: it is `2 ^ L - x mod 2 ^ L`,
also for the last block, where the shift wraps to zero. -/
theorem toNat_nextBoundary_sub {L : ℕ} (hL : L < w) (x : BitVec w) :
    ((((x >>> L) + 1#w) <<< L) - x).toNat = 2 ^ L - x.toNat % 2 ^ L := by
  have hP : 2 ^ L < 2 ^ w := Nat.pow_lt_pow_right (by decide) hL
  have hdiv := Nat.div_add_mod x.toNat (2 ^ L)
  have hr := Nat.mod_lt x.toNat (Nat.two_pow_pos L)
  have hx := x.isLt
  have hone : 1 % 2 ^ w = 1 := Nat.mod_eq_of_lt (Nat.one_lt_two_pow (by omega))
  rw [toNat_sub, toNat_shiftLeft, toNat_add, toNat_ushiftRight, toNat_ofNat, hone,
    Nat.shiftRight_eq_div_pow, Nat.shiftLeft_eq, Nat.mod_mul_mod, Nat.add_mod_mod,
    Nat.add_mul, one_mul]
  -- what is left: `2 ^ w - x + ((x / P) * P + P)` is `2 ^ w + (P - x mod P)`
  rw [show 2 ^ w - x.toNat + (x.toNat / 2 ^ L * 2 ^ L + 2 ^ L) =
      2 ^ w + (2 ^ L - x.toNat % 2 ^ L) by rw [Nat.mul_comm] at hdiv; omega,
    Nat.add_mod_left, Nat.mod_eq_of_lt (by omega)]

/-- C's test for a power of two, `!(x & (x - 1))` for `x ≠ 0`. -/
theorem and_sub_one_eq_zero_iff {x : BitVec w} (hx : x ≠ 0) :
    x &&& (x - 1#w) = 0#w ↔ x.toNat.isPowerOfTwo := by
  have hx1 : 1 ≤ x.toNat := by
    rcases Nat.eq_zero_or_pos x.toNat with h | h
    · exact absurd (eq_of_toNat_eq (by simpa using h)) hx
    · exact h
  have hw : 0 < w := by
    rcases Nat.eq_zero_or_pos w with rfl | h
    · exact absurd (Subsingleton.elim x 0#0) hx
    · exact h
  have h1 : (1#w).toNat = 1 := toNat_one hw
  rw [← Nat.and_sub_one_eq_zero_iff_isPowerOfTwo (by omega), ← toNat_inj, toNat_and,
    toNat_sub_of_le (by rw [le_def, h1]; exact hx1), h1, toNat_ofNat, Nat.zero_mod]

/-- A mask of high bits, zero included. -/
def IsHighMask (m : BitVec w) : Prop :=
  ∃ j, m = highMask w j

theorem IsHighMask.and {a b : BitVec w} (ha : IsHighMask a) (hb : IsHighMask b) :
    IsHighMask (a &&& b) := by
  obtain ⟨j, rfl⟩ := ha
  obtain ⟨k, rfl⟩ := hb
  exact ⟨max j k, highMask_and_highMask j k⟩

theorem IsHighMask.shiftLeft {a : BitVec w} (ha : IsHighMask a) (k : ℕ) :
    IsHighMask (a <<< k) := by
  obtain ⟨j, rfl⟩ := ha
  exact ⟨j + k, highMask_shiftLeft j k⟩

/-- The bits of `x` are among those of `y`. -/
def Subset (x y : BitVec w) : Prop :=
  x &&& y = x

theorem Subset.refl (x : BitVec w) : Subset x x :=
  BitVec.and_self

theorem Subset.trans {x y z : BitVec w} (hxy : Subset x y) (hyz : Subset y z) : Subset x z := by
  unfold Subset at *
  rw [← hxy, BitVec.and_assoc, hyz]

theorem Subset.and_left (x y : BitVec w) : Subset (x &&& y) x := by
  unfold Subset
  rw [BitVec.and_assoc, BitVec.and_comm y x, ← BitVec.and_assoc, BitVec.and_self]

theorem Subset.and_right (x y : BitVec w) : Subset (x &&& y) y := by
  unfold Subset
  rw [BitVec.and_assoc, BitVec.and_self]

/-- Shifting a mask of high bits left keeps only bits it had. -/
theorem IsHighMask.shiftLeft_subset {a : BitVec w} (ha : IsHighMask a) (k : ℕ) :
    Subset (a <<< k) a := by
  obtain ⟨j, rfl⟩ := ha
  unfold Subset
  rw [highMask_shiftLeft, highMask_and_highMask, max_eq_left (by omega)]

/-- Masking with a narrower mask after a wider one is masking with the
narrower one alone. -/
theorem and_and_of_subset {m m' : BitVec w} (h : Subset m' m) (x : BitVec w) :
    x &&& m &&& m' = x &&& m' := by
  unfold Subset at h
  rw [BitVec.and_assoc, BitVec.and_comm m m', h]

/-- Two words that differ nowhere under `m` agree under it. -/
theorem and_eq_and_of_xor_and_eq_zero {x y m : BitVec w} (h : (x ^^^ y) &&& m = 0#w) :
    x &&& m = y &&& m := by
  ext i hi
  have hbit := congrArg (fun z => z.getLsbD i) h
  simp only [getLsbD_and, getLsbD_xor, getLsbD_zero] at hbit
  simp only [← getLsbD_eq_getElem, getLsbD_and]
  cases hx : x.getLsbD i <;> cases hy : y.getLsbD i <;> cases hm : m.getLsbD i <;> simp_all

theorem getLsbD_of_subset {x y : BitVec w} (h : Subset x y) {i : ℕ} (hy : y.getLsbD i = false) :
    x.getLsbD i = false := by
  unfold Subset at h
  rw [← h, getLsbD_and, hy, Bool.and_false]

end QemuKvm
