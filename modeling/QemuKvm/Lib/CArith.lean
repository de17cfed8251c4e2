import Mathlib.Data.BitVec

/-!
# C shifts and conversions on fixed-width words

C code that computes on words of several widths casts between them and
shifts. The rules it needs, over words of any width `w`:

* `shiftC` — a C shift `E1 << E2` or `E1 >> E2` of a `w`-bit left operand
  (after the integer promotions): undefined when the count is not below
  `w` (C99 6.5.7), which is `none` here. The count is a natural number; a
  signed count is read as the unsigned word of its bits, which is not below
  the width exactly when the signed count is negative or too large.
  `shiftC_eq_none_iff` says that this is the only undefined case; an
  expression with two shifts is undefined as soon as one of them is
  (`shlC_bind_of_le`, `bind_shrC_of_le`), and otherwise the value of the
  shifts (`shlC_bind_shrC`).
* conversions: to a narrower unsigned type keeps the low bits
  (`setWidth`), an unsigned value converts to a wider type by zero extension
  (`setWidth`) and a signed one by sign extension (`signExtend`).
  `setWidth_sub` and `setWidth_neg` join the core `setWidth_add` and
  `setWidth_mul`: the low bits of a ring operation are those of the
  operation on the low bits. `and_setWidth_allOnes`: masking with
  `2 ^ k - 1` is truncation followed by zero extension.

The two-shift formula C code writes for a rotation is in `WordShift`.
-/

namespace QemuKvm.CArith

variable {w : ℕ}

/-- A C shift by `c` of a `w`-bit operand, with `f` the shift: `none` (undefined
behaviour) when `c` is not below `w`. -/
def shiftC (f : BitVec w → ℕ → BitVec w) (a : BitVec w) (c : ℕ) : Option (BitVec w) :=
  if c < w then some (f a c) else none

/-- `a << c` on an unsigned `w`-bit operand. -/
def shlC (a : BitVec w) (c : ℕ) : Option (BitVec w) := shiftC (· <<< ·) a c

/-- `a >> c` on an unsigned `w`-bit operand. -/
def shrC (a : BitVec w) (c : ℕ) : Option (BitVec w) := shiftC (· >>> ·) a c

/-- `a >> c` on a signed `w`-bit operand: arithmetic, as the compilers QEMU
builds with define it. -/
def sarC (a : BitVec w) (c : ℕ) : Option (BitVec w) := shiftC BitVec.sshiftRight a c

theorem shiftC_of_lt (f : BitVec w → ℕ → BitVec w) (a : BitVec w) {c : ℕ} (hc : c < w) :
    shiftC f a c = some (f a c) := if_pos hc

theorem shiftC_eq_none_iff (f : BitVec w → ℕ → BitVec w) (a : BitVec w) (c : ℕ) :
    shiftC f a c = none ↔ w ≤ c := by
  unfold shiftC
  split_ifs with hc <;> simp <;> omega

/-! ## Expressions with shifts

A C expression is undefined as soon as one of its shifts is. -/

theorem shlC_of_lt (a : BitVec w) {c : ℕ} (hc : c < w) : shlC a c = some (a <<< c) :=
  shiftC_of_lt _ a hc

theorem shrC_of_lt (a : BitVec w) {c : ℕ} (hc : c < w) : shrC a c = some (a >>> c) :=
  shiftC_of_lt _ a hc

theorem shlC_of_le (a : BitVec w) {c : ℕ} (hc : w ≤ c) : shlC a c = none :=
  (shiftC_eq_none_iff _ a c).mpr hc

theorem shrC_of_le (a : BitVec w) {c : ℕ} (hc : w ≤ c) : shrC a c = none :=
  (shiftC_eq_none_iff _ a c).mpr hc

/-- Two shifts in range, one after the other (a rotation). -/
theorem shlC_bind_shrC {β : Type} (a : BitVec w) {c d : ℕ} (hc : c < w) (hd : d < w)
    (f : BitVec w → BitVec w → Option β) :
    (shlC a c >>= fun hi => shrC a d >>= fun lo => f hi lo) = f (a <<< c) (a >>> d) := by
  rw [shlC_of_lt a hc, shrC_of_lt a hd]
  rfl

/-- A shift by the width or more makes the whole expression undefined,
whichever shift of the two it is. -/
theorem shlC_bind_of_le {β : Type} (a : BitVec w) {c : ℕ} (hc : w ≤ c)
    (f : BitVec w → Option β) : (shlC a c >>= f) = none := by
  rw [shlC_of_le a hc]
  rfl

theorem bind_shrC_of_le {α β : Type} (o : Option α) (a : BitVec w) {d : ℕ} (hd : w ≤ d)
    (f : α → BitVec w → Option β) : (o >>= fun hi => shrC a d >>= f hi) = none := by
  cases o with
  | none => rfl
  | some hi =>
    show (shrC a d >>= f hi) = none
    rw [shrC_of_le a hd]
    rfl

/-! ## Low bits -/

theorem setWidth_neg {i : ℕ} (x : BitVec w) (h : i ≤ w) : (-x).setWidth i = -(x.setWidth i) := by
  have h1 : (1#w).setWidth i = 1#i := BitVec.setWidth_ofNat_of_le h 1
  rw [BitVec.neg_eq_not_add, BitVec.neg_eq_not_add, BitVec.setWidth_add _ _ h,
    BitVec.setWidth_not h, h1]

theorem setWidth_sub {i : ℕ} (x y : BitVec w) (h : i ≤ w) :
    (x - y).setWidth i = x.setWidth i - y.setWidth i := by
  rw [BitVec.sub_eq_add_neg, BitVec.sub_eq_add_neg, BitVec.setWidth_add _ _ h, setWidth_neg y h]

theorem and_setWidth_allOnes {k : ℕ} (x : BitVec w) :
    x &&& (BitVec.allOnes k).setWidth w = (x.setWidth k).setWidth w := by
  ext j hj
  simp [BitVec.getElem_setWidth, BitVec.getLsbD_eq_getElem hj, Bool.and_comm]

/-- The low `u` bits of a sign extension to `v ≥ u` bits are the sign
extension to `u` bits. -/
theorem setWidth_signExtend {u v : ℕ} (z : BitVec w) (h : u ≤ v) :
    (z.signExtend v).setWidth u = z.signExtend u := by
  ext j hj
  have hjv : j < v := by omega
  by_cases hjw : j < w <;>
    simp [BitVec.getElem_setWidth, BitVec.getElem_signExtend, hjv, hjw, BitVec.getLsbD_eq_getElem]

end QemuKvm.CArith
