import Mathlib.Data.BitVec

/-!
# Shifts, rotations and bit fields of fixed-width words

A code generator that lacks an operation on its host builds it from those it
has: a shift of a double word from shifts of its two halves, a rotation from
two shifts and an or, a bit-field insertion from an and-mask and a shift. The
identities below are the ones such expansions rest on, at any width:

* `append_shiftLeft_of_lt`, `append_ushiftRight_of_lt`,
  `append_sshiftRight_of_lt` — a shift of `hi ++ lo` by `c < n` is a shift of
  each half by `c` with the bits crossing the middle shifted by `n - c`;
  `append_shiftLeft_of_le`, `append_ushiftRight_of_le`,
  `append_sshiftRight_of_le` — by `n ≤ c`, one half moves into the other
  and the vacated half is zero or the sign;
* `rotateLeft_eq_or`, `rotateRight_eq_or`, `rotateLeft_sub` — rotations
  from shifts, and `toNat_ofNat_sub` for a count `n - c` computed in the
  word (`toNat_ofNat_width_sub` for `w - c`);
* `toNat_lowMask`, `getLsbD_lowMask` — the mask `(1 <<< len) - 1`, and
  `getLsbD_ofNat_two_pow_sub_one` for the same mask as a constant;
* `toNat_shiftLeft_one_or` — a shift register taking in one bit;
* `deposit` and `getLsbD_deposit` — a bit field replaced, with the mask forms
  `deposit_eq_and_or`, `deposit_eq_and_or_of_add_eq`, and the double-word
  forms `deposit_append_of_le`, `deposit_append_of_add_le`.

All go bit by bit through `BitVec.eq_of_getLsbD_eq`, with one case split on
where the bit index falls.
-/

namespace QemuKvm

open BitVec

variable {n w : ℕ}

/-! ## Double-word shifts -/

theorem append_shiftLeft_of_lt (hi lo : BitVec n) {c : ℕ} (hc : c < n) :
    (hi ++ lo) <<< c = ((hi <<< c) ||| (lo >>> (n - c))) ++ (lo <<< c) := by
  apply eq_of_getLsbD_eq
  intro i hi'
  simp only [getLsbD_append, getLsbD_shiftLeft, getLsbD_or, getLsbD_ushiftRight]
  -- the low half gets `lo`'s bits; the high half `hi`'s, with `lo`'s top `c` bits below them
  by_cases h : i < n
  · simp [h]
    grind
  · simp [h]
    grind

theorem append_ushiftRight_of_lt (hi lo : BitVec n) {c : ℕ} (hc : c < n) :
    (hi ++ lo) >>> c = (hi >>> c) ++ ((lo >>> c) ||| (hi <<< (n - c))) := by
  apply eq_of_getLsbD_eq
  intro i hi'
  simp only [getLsbD_append, getLsbD_shiftLeft, getLsbD_or, getLsbD_ushiftRight]
  by_cases h : i < n
  · simp [h]
    grind
  · simp [h]
    grind

theorem append_sshiftRight_of_lt (hi lo : BitVec n) {c : ℕ} (hc : c < n) :
    (hi ++ lo).sshiftRight c = hi.sshiftRight c ++ ((lo >>> c) ||| (hi <<< (n - c))) := by
  apply eq_of_getLsbD_eq
  intro i hi'
  simp only [getLsbD_append, getLsbD_shiftLeft, getLsbD_or, getLsbD_ushiftRight,
    getLsbD_sshiftRight]
  -- the sign of `hi ++ lo` is the sign of `hi`
  by_cases h : i < n
  · simp [h]
    grind
  · simp [h, msb_append]
    grind

theorem append_shiftLeft_of_le (hi lo : BitVec n) {c : ℕ} (hc : n ≤ c) :
    (hi ++ lo) <<< c = (lo <<< (c - n)) ++ 0#n := by
  apply eq_of_getLsbD_eq
  intro i hi'
  simp only [getLsbD_append, getLsbD_shiftLeft, getLsbD_zero]
  by_cases h : i < n
  · simp [h]
    grind
  · simp [h]
    grind

theorem append_ushiftRight_of_le (hi lo : BitVec n) {c : ℕ} (hc : n ≤ c) :
    (hi ++ lo) >>> c = 0#n ++ (hi >>> (c - n)) := by
  apply eq_of_getLsbD_eq
  intro i hi'
  simp only [getLsbD_append, getLsbD_ushiftRight, getLsbD_zero]
  by_cases h : i < n
  · simp [h]
    grind
  · simp [h]
    grind

theorem append_sshiftRight_of_le (hi lo : BitVec n) {c : ℕ} (hn : 0 < n) (hc : n ≤ c) :
    (hi ++ lo).sshiftRight c = hi.sshiftRight (n - 1) ++ hi.sshiftRight (c - n) := by
  apply eq_of_getLsbD_eq
  intro i hi'
  simp only [getLsbD_append, getLsbD_sshiftRight]
  -- the high half is all sign bits: bit `n - 1` of `hi`, read at any index
  by_cases h : i < n
  · simp [h, msb_append]
    grind
  · simp [h, msb_append]
    grind

/-! ## Rotations -/

theorem rotateLeft_eq_or (x : BitVec w) {c : ℕ} (hc : c < w) :
    x.rotateLeft c = x <<< c ||| x >>> (w - c) := by
  rw [rotateLeft_def, Nat.mod_eq_of_lt hc]

theorem rotateRight_eq_or (x : BitVec w) {c : ℕ} (hc : c < w) :
    x.rotateRight c = x >>> c ||| x <<< (w - c) := by
  rw [rotateRight_def, Nat.mod_eq_of_lt hc]

@[simp] theorem rotateLeft_zero (x : BitVec w) : x.rotateLeft 0 = x := by
  apply eq_of_getLsbD_eq
  intro i hi
  simp [rotateLeft_def, hi]

@[simp] theorem rotateRight_zero (x : BitVec w) : x.rotateRight 0 = x := by
  apply eq_of_getLsbD_eq
  intro i hi
  simp [rotateRight_def, hi]

/-- A right rotation by `c` is a left rotation by `w - c`. -/
theorem rotateLeft_sub (x : BitVec w) {c : ℕ} (hc0 : 0 < c) (hc : c < w) :
    x.rotateLeft (w - c) = x.rotateRight c := by
  rw [rotateLeft_eq_or x (by omega), rotateRight_eq_or x hc, Nat.sub_sub_self hc.le, BitVec.or_comm]

/-- A count `n - c` computed in a `w`-bit word, for `c ≤ n < 2 ^ w`. -/
theorem toNat_ofNat_sub {n : ℕ} (c : BitVec w) (hc : c.toNat ≤ n) (hn : n < 2 ^ w) :
    (BitVec.ofNat w n - c).toNat = n - c.toNat := by
  rw [toNat_sub, toNat_ofNat, Nat.mod_eq_of_lt hn,
    show 2 ^ w - c.toNat + n = (n - c.toNat) + 2 ^ w by omega, Nat.add_mod_right,
    Nat.mod_eq_of_lt (by omega)]

/-- The count `w - c` a rotation expansion computes in a `w`-bit word. -/
theorem toNat_ofNat_width_sub (c : BitVec w) (hc : c.toNat ≤ w) :
    (BitVec.ofNat w w - c).toNat = w - c.toNat :=
  toNat_ofNat_sub c hc Nat.lt_two_pow_self

/-! ## Bit fields -/

theorem toNat_lowMask {len : ℕ} (hlen : len < w) :
    ((1#w <<< len) - 1#w).toNat = 2 ^ len - 1 := by
  have hw : 0 < w := by omega
  have h1 : (1#w <<< len).toNat = 2 ^ len := by
    rw [← twoPow_eq]
    exact toNat_twoPow_of_lt hlen
  have h0 : (1#w).toNat = 1 := by simpa using hw
  have hle : 1#w ≤ 1#w <<< len := by
    rw [BitVec.le_def, h1, h0]
    exact Nat.one_le_two_pow
  rw [toNat_sub_of_le hle, h1, h0]

theorem getLsbD_lowMask {len : ℕ} (hlen : len < w) (i : ℕ) :
    ((1#w <<< len) - 1#w).getLsbD i = decide (i < len) := by
  rw [getLsbD, toNat_lowMask hlen, Nat.testBit_two_pow_sub_one]

/-- The same mask written as a constant, as C sources do (`0xff`, `0xffff`). -/
theorem getLsbD_ofNat_two_pow_sub_one (len i : ℕ) :
    (BitVec.ofNat w (2 ^ len - 1)).getLsbD i = (decide (i < w) && decide (i < len)) := by
  rw [getLsbD_ofNat, Nat.testBit_two_pow_sub_one]

/-- Shifting left by one and or-ing in a bit adds the bit: the step of a
shift register that takes in one bit at the bottom. -/
theorem toNat_shiftLeft_one_or {x c : BitVec w} (hc : c.toNat < 2) :
    ((x <<< 1) ||| c).toNat = x.toNat * 2 % 2 ^ w + c.toNat := by
  have hand : (x <<< 1) &&& c = 0#w := by
    ext i hi
    simp only [← getLsbD_eq_getElem, getLsbD_and, getLsbD_shiftLeft, getLsbD_zero]
    rcases Nat.eq_zero_or_pos i with rfl | hi0
    · simp
    · have hci : c.getLsbD i = false := by
        rw [getLsbD, Nat.testBit_lt_two_pow]
        calc c.toNat < 2 := hc
          _ = 2 ^ 1 := rfl
          _ ≤ 2 ^ i := Nat.pow_le_pow_right (by omega) hi0
      simp [hci]
  rw [← add_eq_or_of_and_eq_zero _ _ hand, toNat_add, toNat_shiftLeft, Nat.shiftLeft_eq, pow_one]
  rcases Nat.eq_zero_or_pos w with rfl | hw
  · simp
    omega
  · -- the doubled word is even, so adding the bit does not wrap
    have h2w : 2 ^ w = 2 * 2 ^ (w - 1) := by
      rw [← pow_succ']
      congr 1
      omega
    have hm : x.toNat % 2 ^ (w - 1) < 2 ^ (w - 1) := Nat.mod_lt _ (Nat.two_pow_pos _)
    rw [h2w, Nat.mul_comm x.toNat 2, Nat.mul_mod_mul_left, Nat.mod_eq_of_lt (by omega)]

/-- `x` with its bits `[ofs, ofs + len)` replaced by the low `len` bits of `y`. -/
def deposit (x y : BitVec w) (ofs len : ℕ) : BitVec w :=
  let field := (allOnes w >>> (w - len)) <<< ofs
  (x &&& ~~~field) ||| ((y <<< ofs) &&& field)

theorem getLsbD_deposit (x y : BitVec w) {ofs len : ℕ} (h : ofs + len ≤ w) (i : ℕ) :
    (deposit x y ofs len).getLsbD i =
      if ofs ≤ i ∧ i < ofs + len then y.getLsbD (i - ofs) else x.getLsbD i := by
  simp only [deposit, getLsbD_or, getLsbD_and, getLsbD_not, getLsbD_shiftLeft,
    getLsbD_ushiftRight, getLsbD_allOnes]
  by_cases hi : i < w
  · by_cases hf : ofs ≤ i ∧ i < ofs + len
    · simp [hf, hi]
      grind
    · simp [hf, hi]
      grind
  · simp [hi, getLsbD_of_ge x i (by omega)]
    grind

/-- A field that ends below the top bit: `y` is masked before it is shifted. -/
theorem deposit_eq_and_or (x y : BitVec w) {ofs len : ℕ} (hlen : len < w) (h : ofs + len ≤ w) :
    (x &&& ~~~(((1#w <<< len) - 1#w) <<< ofs)) ||| ((y &&& ((1#w <<< len) - 1#w)) <<< ofs) =
      deposit x y ofs len := by
  apply eq_of_getLsbD_eq
  intro i hi
  rw [getLsbD_deposit x y h]
  simp only [getLsbD_or, getLsbD_and, getLsbD_not, getLsbD_shiftLeft, getLsbD_lowMask hlen]
  by_cases hf : ofs ≤ i ∧ i < ofs + len
  · simp [hf, hi]
    grind
  · simp [hf, hi]
    grind

/-- A field that reaches the top bit: the shift drops `y`'s high bits itself. -/
theorem deposit_eq_and_or_of_add_eq (x y : BitVec w) {ofs len : ℕ} (hlen : len < w)
    (h : ofs + len = w) :
    (x &&& ~~~(((1#w <<< len) - 1#w) <<< ofs)) ||| (y <<< ofs) = deposit x y ofs len := by
  apply eq_of_getLsbD_eq
  intro i hi
  rw [getLsbD_deposit x y h.le]
  simp only [getLsbD_or, getLsbD_and, getLsbD_not, getLsbD_shiftLeft, getLsbD_lowMask hlen]
  by_cases hf : ofs ≤ i
  · simp [hf, hi]
    grind
  · simp [hf, hi]
    grind

theorem deposit_zero_width (x y : BitVec w) : deposit x y 0 w = y := by
  apply eq_of_getLsbD_eq
  intro i hi
  rw [getLsbD_deposit x y (Nat.zero_add w).le]
  simp [hi]

/-- A field in the high half of a double word is a field of the high half. -/
theorem deposit_append_of_le (hi lo : BitVec n) (y : BitVec (n + n)) {ofs len : ℕ}
    (hofs : n ≤ ofs) (h : ofs + len ≤ n + n) :
    deposit (hi ++ lo) y ofs len = deposit hi (y.setWidth n) (ofs - n) len ++ lo := by
  apply eq_of_getLsbD_eq
  intro i hi'
  rw [getLsbD_deposit _ _ h, getLsbD_append, getLsbD_append]
  by_cases hn : i < n
  · simp [hn]
    grind
  · -- bit `i` of the high half is bit `i - n` of `hi`; the field moves down by `n`
    have hidx : i - n - (ofs - n) = i - ofs := by omega
    simp only [hn, ↓reduceIte, getLsbD_deposit _ _ (show ofs - n + len ≤ n by omega),
      getLsbD_setWidth, hidx]
    by_cases hf : ofs ≤ i ∧ i < ofs + len
    · have hlt : i - ofs < n := by omega
      rw [if_pos hf, if_pos (show ofs - n ≤ i - n ∧ i - n < ofs - n + len by omega)]
      simp [hlt]
    · rw [if_neg hf, if_neg (show ¬(ofs - n ≤ i - n ∧ i - n < ofs - n + len) by omega)]

/-- A field in the low half of a double word is a field of the low half. -/
theorem deposit_append_of_add_le (hi lo : BitVec n) (y : BitVec (n + n)) {ofs len : ℕ}
    (h : ofs + len ≤ n) :
    deposit (hi ++ lo) y ofs len = hi ++ deposit lo (y.setWidth n) ofs len := by
  apply eq_of_getLsbD_eq
  intro i hi'
  rw [getLsbD_deposit _ _ (by omega), getLsbD_append, getLsbD_append]
  by_cases hn : i < n
  · simp only [hn, ↓reduceIte, getLsbD_deposit _ _ h, getLsbD_setWidth]
    by_cases hf : ofs ≤ i ∧ i < ofs + len
    · have hlt : i - ofs < n := by omega
      simp [hf, hlt]
    · simp [hf]
  · simp [hn]
    grind

end QemuKvm
