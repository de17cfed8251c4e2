import QemuKvm.Lib.RestoringDiv
import QemuKvm.X86.Div

/-!
# The 64-bit division helpers

On the x86-64 target, `helper_divq_EAX` and `helper_idivq_EAX` divide the
128-bit RDX:RAX by a 64-bit operand. The host has no such division in C, so
int_helper.c does it itself:

* `div64` divides `*phigh:*plow` by `b`. A one-word dividend goes to the
  host's `/` and `%`; a high word at least `b` means a quotient of 65 bits or
  more and is reported as overflow; otherwise a shift-subtract loop of 64
  rounds (`div64Step`) runs on the pair `a1:a0`, the remainder growing in
  `a1` while the quotient bits are shifted into the bottom of `a0` as the
  dividend bits leave its top.
* `idiv64` divides the magnitudes with `div64` after negating a negative
  dividend with `neg128` (itself `add128` of 1 to the complement) and a
  negative divisor, then checks the quotient against the asymmetric bounds
  `2^63` (negative result) and `2^63 - 1` and restores the signs.

The loop is proved to refine the textbook restoring division of
`Lib.RestoringDiv`: `LoopRegs` relates the two registers to its state, with
`k` dividend bits still in `a0`, `div64Step_loopRegs` is one round and
`div64Loop_loopRegs` the whole loop, and `div64_eq` states the result.
`idiv64_eq` adds the signs: `neg128` gives the magnitude of a negative
dividend (`toInt_append_eq_withSign`), and `archDiv_withSign` of QemuKvm.X86.Div
says what IDIV does with signs and magnitudes. `helperDivqEAX_spec` and
`helperIdivqEAX_spec` then say that the two 64-bit helpers are exactly
`archDiv`: unlike the 16- and 32-bit IDIV, the 64-bit one never divides on
the host beyond what `div64` does with a non-zero divisor.
-/

namespace QemuKvm.X86

open BitVec

/-! ## The helpers -/

/-- `add128`: `*phigh:*plow += b:a`, the carry out of the low word detected
by the sum wrapping below `a`. -/
def add128 (low high a b : BitVec 64) : BitVec 64 × BitVec 64 :=
  let low := low + a
  let high := if low < a then high + 1 else high
  (low, high + b)

/-- `neg128`: two's complement of `*phigh:*plow`. -/
def neg128 (low high : BitVec 64) : BitVec 64 × BitVec 64 :=
  add128 (~~~low) (~~~high) 1 0

/-- One round of the loop of `div64`, on `(a1, a0)`: `ab` is the bit shifted
out of `a1`, the divisor is subtracted when the shifted `a1` (with that bit
on top) reaches it, and `qb` records whether it was. -/
def div64Step (b : BitVec 64) (a : BitVec 64 × BitVec 64) : BitVec 64 × BitVec 64 :=
  let (a1, a0) := a
  let ab := a1 >>> 63
  let a1 := (a1 <<< 1) ||| (a0 >>> 63)
  let (a1, qb) : BitVec 64 × BitVec 64 := if ab ≠ 0 ∨ b ≤ a1 then (a1 - b, 1) else (a1, 0)
  (a1, (a0 <<< 1) ||| qb)

/-- `div64`: `none` is the overflow return (1), `some (q, r)` what is stored
back in `*plow` and `*phigh`. Every caller passes a non-zero `b`. -/
def div64 (low high b : BitVec 64) : Option (BitVec 64 × BitVec 64) :=
  if high = 0 then some (low / b, low % b)
  else if b ≤ high then none
  else
    let (a1, a0) := (div64Step b)^[64] (high, low)
    some (a0, a1)

/-- `idiv64`: `sa` and `sb` are the signs (`(int64_t)*phigh < 0`, `b < 0`),
the magnitudes go to `div64`, the quotient is checked against `2^63` for a
negative result and `2^63 - 1` otherwise, and the signs are put back. For
`b = INT64_MIN`, `-b` overflows `int64_t` too; it wraps to `2^63`, the
magnitude `div64` needs, and the model negates modulo `2^64` likewise. -/
def idiv64 (low high b : BitVec 64) : Option (BitVec 64 × BitVec 64) := do
  let sa := high.msb
  let (low, high) := if sa then neg128 low high else (low, high)
  let sb := b.msb
  let b := if sb then -b else b
  let (low, high) ← div64 low high b
  let low ← if sa ^^ sb then (if 1#64 <<< 63 < low then none else some (-low))
    else (if 1#64 <<< 63 ≤ low then none else some low)
  pure (low, if sa then -high else high)

/-- `helper_divq_EAX`: RDX:RAX by `t0`, quotient to RAX, remainder to RDX. -/
def helperDivqEAX (env : DivRegs) (t0 : BitVec 64) : Except DivFault DivRegs := do
  if t0 = 0 then throw .divz
  match div64 env.eax env.edx t0 with
  | none => throw .divz
  | some (r0, r1) => pure { eax := r0, edx := r1 }

/-- `helper_idivq_EAX`: the same with `idiv64`. -/
def helperIdivqEAX (env : DivRegs) (t0 : BitVec 64) : Except DivFault DivRegs := do
  if t0 = 0 then throw .divz
  match idiv64 env.eax env.edx t0 with
  | none => throw .divz
  | some (r0, r1) => pure { eax := r0, edx := r1 }

/-! ## The loop of `div64` refines restoring division -/

/-- The registers of the loop with `k` dividend bits still to take in: `a1`
holds the remainder, and `a0` holds those `k` bits of `x` on top of the
quotient so far. -/
def LoopRegs (x k : ℕ) (rq : ℕ × ℕ) (a : BitVec 64 × BitVec 64) : Prop :=
  a.1.toNat = rq.1 ∧ a.2.toNat = x % 2 ^ k * 2 ^ (64 - k) + rq.2 ∧ rq.2 < 2 ^ (64 - k)

/-- The step lemma: a round of `div64Step` is a round of `restoreStep` on
the next dividend bit, the bit leaving the top of `a0`. -/
theorem div64Step_loopRegs {b : BitVec 64} {x k : ℕ} {rq : ℕ × ℕ} {a : BitVec 64 × BitVec 64}
    (hk : k < 64) (hr : rq.1 < b.toNat) (h : LoopRegs x (k + 1) rq a) :
    LoopRegs x k (restoreStep b.toNat (x / 2 ^ k % 2) rq) (div64Step b a) := by
  obtain ⟨a1, a0⟩ := a
  obtain ⟨r, q⟩ := rq
  obtain ⟨h1, h0, hq⟩ := h
  simp only at h1 h0 hq hr
  set c := x / 2 ^ k % 2 with hc_def
  set lo := x % 2 ^ k with hlo_def
  set P := 2 ^ (63 - k) with hP_def
  have hc2 : c < 2 := Nat.mod_lt _ (by omega)
  have hlo : lo < 2 ^ k := Nat.mod_lt _ (Nat.two_pow_pos k)
  have hP1 : 2 ^ (64 - (k + 1)) = P := by rw [hP_def]; congr 1; omega
  have hP2 : 2 ^ (64 - k) = 2 * P := by rw [hP_def, ← pow_succ']; congr 1; omega
  have h63 : 2 ^ k * P = 2 ^ 63 := by rw [hP_def, ← pow_add]; congr 1; omega
  rw [hP1] at h0 hq
  -- the low word: the next dividend bit `c` on top, the rest of the dividend and the quotient below
  have hL : lo * P + q < 2 ^ 63 := by
    have hle : (lo + 1) * P ≤ 2 ^ k * P := Nat.mul_le_mul_right _ hlo
    rw [h63, Nat.add_mul, Nat.one_mul] at hle
    omega
  have ha0 : a0.toNat = c * 2 ^ 63 + (lo * P + q) := by
    rw [h0, Nat.mod_pow_succ, ← h63]
    ring
  have htop : (a0 >>> 63).toNat = c := by
    rw [toNat_ushiftRight, Nat.shiftRight_eq_div_pow, ha0]
    omega
  have hb := b.isLt
  have hnew0 : ∀ qb : BitVec 64, qb.toNat < 2 →
      ((a0 <<< 1) ||| qb).toNat = lo * 2 ^ (64 - k) + (2 * q + qb.toNat) := by
    intro qb hqb
    rw [toNat_shiftLeft_one_or hqb, ha0, hP2, show lo * (2 * P) = 2 * (lo * P) by ring]
    omega
  -- the high word: the doubled remainder with `c` shifted in; the bit `ab` shifted out of it
  -- is the top bit of the 65-bit comparison with `b`
  have hnew1 : ((a1 <<< 1) ||| (a0 >>> 63)).toNat = r * 2 % 2 ^ 64 + c := by
    rw [toNat_shiftLeft_one_or (by omega), htop, h1]
  have hcond : (a1 >>> 63 ≠ 0 ∨ b ≤ (a1 <<< 1) ||| (a0 >>> 63)) ↔ b.toNat ≤ 2 * r + c := by
    rw [Ne, toNat_eq, toNat_ushiftRight, Nat.shiftRight_eq_div_pow, h1, le_def, hnew1,
      show (0 : BitVec 64).toNat = 0 from rfl]
    omega
  unfold div64Step restoreStep
  simp only
  by_cases hsub : b.toNat ≤ 2 * r + c
  · rw [if_pos (hcond.2 hsub), if_pos hsub]
    refine ⟨?_, hnew0 1 (by decide), ?_⟩
    · rw [toNat_sub, hnew1]
      omega
    · rw [hP2]
      omega
  · rw [if_neg (mt hcond.1 hsub), if_neg hsub]
    refine ⟨?_, hnew0 0 (by decide), ?_⟩
    · rw [hnew1]
      omega
    · rw [hP2]
      omega

/-- The run lemma: `k` rounds of the loop are `k` rounds of `restoreLoop`. -/
theorem div64Loop_loopRegs {b : BitVec 64} {x : ℕ} (k : ℕ) {rq : ℕ × ℕ}
    {a : BitVec 64 × BitVec 64} (hk : k ≤ 64) (hr : rq.1 < b.toNat) (h : LoopRegs x k rq a) :
    LoopRegs x 0 (restoreLoop b.toNat x k rq) ((div64Step b)^[k] a) := by
  induction k generalizing rq a with
  | zero => exact h
  | succ k ih =>
    have hc : x / 2 ^ k % 2 < 2 := Nat.mod_lt _ (by omega)
    rw [restoreLoop_succ, Function.iterate_succ_apply]
    exact ih (by omega) (restoreStep_fst_lt hc hr) (div64Step_loopRegs (by omega) hr h)

/-- `div64` by a non-zero divisor: overflow exactly when the quotient needs
more than 64 bits, and otherwise the quotient and remainder of the 128-bit
dividend. -/
theorem div64_eq {low high b : BitVec 64} (hb : b ≠ 0) :
    div64 low high b =
      if 2 ^ 64 ≤ (high.toNat * 2 ^ 64 + low.toNat) / b.toNat then none
      else some (BitVec.ofNat 64 ((high.toNat * 2 ^ 64 + low.toNat) / b.toNat),
        BitVec.ofNat 64 ((high.toNat * 2 ^ 64 + low.toNat) % b.toNat)) := by
  have hz : (0 : BitVec 64).toNat = 0 := rfl
  have hb0 : 0 < b.toNat := by
    rw [Nat.pos_iff_ne_zero, Ne, ← hz, ← toNat_eq]
    exact hb
  have hlow := low.isLt
  unfold div64
  by_cases h0 : high = 0
  · -- a one-word dividend: the host divides it directly
    have hq : low.toNat / b.toNat < 2 ^ 64 := lt_of_le_of_lt (Nat.div_le_self _ _) hlow
    rw [if_pos h0, h0, hz, Nat.zero_mul, Nat.zero_add, if_neg (by omega)]
    congr 2
    · exact eq_of_toNat_eq (by rw [toNat_udiv, toNat_ofNat, Nat.mod_eq_of_lt hq])
    · have hr : low.toNat % b.toNat < 2 ^ 64 := by
        have := Nat.mod_lt low.toNat hb0
        omega
      exact eq_of_toNat_eq (by rw [toNat_umod, toNat_ofNat, Nat.mod_eq_of_lt hr])
  rw [if_neg h0]
  by_cases hle : b ≤ high
  · -- the quotient is at least `2 ^ 64`
    rw [le_def] at hle
    have hge : b.toNat * 2 ^ 64 ≤ high.toNat * 2 ^ 64 + low.toNat :=
      le_trans (Nat.mul_le_mul_right _ hle) (Nat.le_add_right _ _)
    rw [if_pos (le_def.2 hle),
      if_pos ((Nat.le_div_iff_mul_le hb0).2 (by rw [Nat.mul_comm]; exact hge))]
  · -- the loop, started on the remainder `high` with all 64 bits of `low` to take in
    rw [le_def, Nat.not_le] at hle
    rw [if_neg (by rw [le_def]; omega)]
    have hstart : LoopRegs low.toNat 64 (high.toNat, 0) (high, low) := by
      refine ⟨rfl, ?_, Nat.two_pow_pos _⟩
      simp only [Nat.mod_eq_of_lt hlow, Nat.sub_self, pow_zero, Nat.mul_one, Nat.add_zero]
    obtain ⟨h1, h0', -⟩ := div64Loop_loopRegs 64 le_rfl hle hstart
    have hres := restoreLoop_eq (b := b.toNat) low.toNat 64 hle
    have hquot := restoreLoop_quot_lt (b := b.toNat) low.toNat 64 hle
    rw [Nat.mod_eq_of_lt hlow] at hres hquot
    rw [hres] at h1 h0'
    simp only [Nat.pow_zero, Nat.mod_one, Nat.zero_mul, Nat.zero_add, Nat.sub_zero] at h1 h0'
    rw [if_neg (by omega)]
    simp only [Option.some.injEq, Prod.mk.injEq]
    have hrem : (high.toNat * 2 ^ 64 + low.toNat) % b.toNat < 2 ^ 64 := by
      have := Nat.mod_lt (high.toNat * 2 ^ 64 + low.toNat) hb0
      have := b.isLt
      omega
    constructor
    · exact eq_of_toNat_eq (by rw [h0', toNat_ofNat, Nat.mod_eq_of_lt hquot])
    · exact eq_of_toNat_eq (by rw [h1, toNat_ofNat, Nat.mod_eq_of_lt hrem])

/-- The unsigned 64-bit DIV is exactly the architecture's: a divide error
for a zero divisor or a quotient of more than 64 bits, else RAX and RDX
hold the quotient and the remainder of RDX:RAX. -/
theorem helperDivqEAX_spec (env : DivRegs) (t0 : BitVec 64) :
    helperDivqEAX env t0 =
      match archDiv false 64 ((env.edx.toNat * 2 ^ 64 + env.eax.toNat : ℕ) : ℤ) (t0.toNat : ℤ) with
      | none => throw .divz
      | some (q, r) => pure ⟨BitVec.ofInt 64 q, BitVec.ofInt 64 r⟩ := by
  by_cases ht : t0 = 0
  · subst ht
    rfl
  have hd : t0.toNat ≠ 0 := by
    rw [Ne, ← show (0 : BitVec 64).toNat = 0 from rfl, ← toNat_eq]
    exact ht
  simp only [helperDivqEAX, ht, ↓reduceIte, div64_eq ht, archDiv_natCast 64 hd]
  by_cases hq : 2 ^ 64 ≤ (env.edx.toNat * 2 ^ 64 + env.eax.toNat) / t0.toNat
  · simp only [hq, ↓reduceIte]
  · -- rewrite the casts rather than let the kernel unfold `BitVec.ofInt`
    simp only [hq, ↓reduceIte]
    rw [ofInt_natCast, ofInt_natCast]

/-! ## `idiv64`: signs and magnitudes -/

theorem add128_val (low high a b : BitVec 64) :
    (add128 low high a b).2.toNat * 2 ^ 64 + (add128 low high a b).1.toNat =
      (high.toNat * 2 ^ 64 + low.toNat + b.toNat * 2 ^ 64 + a.toNat) % 2 ^ 128 := by
  have hl := low.isLt
  have hh := high.isLt
  have ha := a.isLt
  have hb := b.isLt
  have h1 : (1 : BitVec 64).toNat = 1 := rfl
  unfold add128
  simp only
  -- the carry test: the low sum wrapped exactly when it ended below `a`
  by_cases hc : low + a < a
  · rw [if_pos hc]
    rw [lt_def, toNat_add] at hc
    simp only [toNat_add, h1]
    omega
  · rw [if_neg hc]
    rw [lt_def, toNat_add] at hc
    simp only [toNat_add]
    omega

theorem neg128_val (low high : BitVec 64) :
    (neg128 low high).2.toNat * 2 ^ 64 + (neg128 low high).1.toNat =
      (2 ^ 128 - (high.toNat * 2 ^ 64 + low.toNat)) % 2 ^ 128 := by
  have hl := low.isLt
  have hh := high.isLt
  rw [neg128, add128_val, toNat_not, toNat_not, show (1 : BitVec 64).toNat = 1 from rfl,
    show (0 : BitVec 64).toNat = 0 from rfl]
  omega

/-- The dividend as `idiv64` sees it: its sign is the top bit of the high
word, its magnitude the pair after the conditional `neg128`. -/
theorem toInt_append_eq_withSign (low high : BitVec 64) :
    (high ++ low).toInt = withSign high.msb
      ((if high.msb then neg128 low high else (low, high)).2.toNat * 2 ^ 64 +
        (if high.msb then neg128 low high else (low, high)).1.toNat) := by
  have hl := low.isLt
  have hh := high.isLt
  rw [toInt_eq_msb_cond, msb_append, if_neg (show ¬(64 = 0) by decide), toNat_append,
    ← Nat.shiftLeft_add_eq_or_of_lt hl, Nat.shiftLeft_eq]
  cases hmsb : high.msb
  · simp [withSign]
  · have htop : 2 ^ 63 ≤ high.toNat := by simpa [msb_eq_decide] using hmsb
    simp only [↓reduceIte, withSign, neg128_val, Nat.reduceAdd]
    omega

/-- The divisor likewise, with `-b` as the magnitude of a negative one. -/
theorem toInt_eq_withSign (b : BitVec 64) :
    b.toInt = withSign b.msb (if b.msb then -b else b).toNat := by
  have hb := b.isLt
  rw [toInt_eq_msb_cond]
  cases hmsb : b.msb
  · simp [withSign]
  · have htop : 2 ^ 63 ≤ b.toNat := by simpa [msb_eq_decide] using hmsb
    simp only [↓reduceIte, withSign, toNat_neg]
    omega

/-- `idiv64` by a non-zero divisor is IDIV on the signed 128-bit dividend:
`none` exactly when the architecture raises a divide error. -/
theorem idiv64_eq {low high b : BitVec 64} (hb : b ≠ 0) :
    idiv64 low high b =
      (archDiv true 64 (high ++ low).toInt b.toInt).map
        fun qr => (BitVec.ofInt 64 qr.1, BitVec.ofInt 64 qr.2) := by
  have hb' : (if b.msb then -b else b) ≠ 0 := by
    split
    · rwa [Ne, neg_eq_zero]
    · exact hb
  have hm : (if b.msb then -b else b).toNat ≠ 0 := by
    rw [Ne, ← show (0 : BitVec 64).toNat = 0 from rfl, ← toNat_eq]
    exact hb'
  rw [toInt_append_eq_withSign, toInt_eq_withSign, archDiv_withSign 64 _ _ _ hm]
  unfold idiv64
  simp only
  generalize (if high.msb then neg128 low high else (low, high)) = p
  generalize (if b.msb then -b else b) = b' at hb' hm
  obtain ⟨l, h⟩ := p
  simp only
  rw [div64_eq hb']
  have hR : (h.toNat * 2 ^ 64 + l.toNat) % b'.toNat < 2 ^ 64 :=
    lt_trans (Nat.mod_lt _ (Nat.pos_of_ne_zero hm)) b'.isLt
  generalize (h.toNat * 2 ^ 64 + l.toNat) / b'.toNat = q
  generalize (h.toNat * 2 ^ 64 + l.toNat) % b'.toNat = r at hR
  generalize high.msb = sa
  generalize b.msb = sb
  have h63 : (1#64 <<< 63).toNat = 2 ^ 63 := rfl
  by_cases hov : 2 ^ 64 ≤ q
  · -- `div64` overflows, and a quotient of 65 bits fits no signed range either
    rw [if_pos hov, if_neg (by split <;> omega)]
    rfl
  rw [if_neg hov]
  have hq : (BitVec.ofNat 64 q).toNat = q := by rw [toNat_ofNat]; omega
  simp only [Option.bind_eq_bind, Option.bind_some]
  cases sa ^^ sb
  · -- same signs: the quotient must stay below `2 ^ 63`
    simp only [Bool.false_eq_true, ↓reduceIte, Nat.reduceSub]
    by_cases hfit : q < 2 ^ 63
    · rw [if_neg (by rw [le_def, h63, hq]; omega), if_pos hfit]
      simp only [Option.bind_some, Option.map_some, Option.pure_def, ofInt_withSign,
        Bool.false_eq_true, ↓reduceIte]
    · rw [if_pos (by rw [le_def, h63, hq]; omega), if_neg hfit]
      rfl
  · -- opposite signs: `-2 ^ 63` is still representable
    simp only [↓reduceIte, Nat.reduceSub]
    by_cases hfit : q ≤ 2 ^ 63
    · rw [if_neg (by rw [lt_def, h63, hq]; omega), if_pos hfit]
      simp only [Option.bind_some, Option.map_some, Option.pure_def, ofInt_withSign, ↓reduceIte]
    · rw [if_pos (by rw [lt_def, h63, hq]; omega), if_neg hfit]
      rfl

/-- The signed 64-bit IDIV is exactly the architecture's. -/
theorem helperIdivqEAX_spec (env : DivRegs) (t0 : BitVec 64) :
    helperIdivqEAX env t0 =
      match archDiv true 64 (env.edx ++ env.eax).toInt t0.toInt with
      | none => throw .divz
      | some (q, r) => pure ⟨BitVec.ofInt 64 q, BitVec.ofInt 64 r⟩ := by
  by_cases ht : t0 = 0
  · subst ht
    rfl
  simp only [helperIdivqEAX, ht, ↓reduceIte, idiv64_eq ht]
  cases archDiv true 64 (env.edx ++ env.eax).toInt t0.toInt with
  | none => rfl
  | some qr => rfl

end QemuKvm.X86
