import QemuKvm.Lib.WordShift

/-!
# The x86 division helpers

DIV and IDIV are not expanded into TCG ops: target-i386/translate.c calls a
helper of target-i386/int_helper.c, one per operand size, which reads the
dividend from AX, DX:AX or EDX:EAX and the divisor from its argument `t0`,
and either raises the guest's divide error (`EXCP00_DIVZ`) or writes the
quotient and the remainder back. This module models the helpers of the 8-,
16- and 32-bit forms and the architecture they implement.

* `DivFault` is how a helper ends without a result: the guest's divide
  error, or a host trap. The helpers divide with C's `/` and `%` and only
  then test whether the quotient fits. An unsigned C division has a result
  for every non-zero divisor, and each helper tests the divisor first. A
  signed one has none when the quotient is one past the largest value of the
  type (C99 6.5.5: the most negative value divided by -1); the host's divide
  instruction then raises SIGFPE in the emulator itself (`hostSdiv`,
  `hostSrem`).
* `archDiv` is DIV and IDIV as the architecture defines them, on the
  dividend and the divisor as integers; `archDiv_natCast` and
  `archDiv_withSign` restate it for an unsigned dividend and for operands
  given by sign and magnitude (`withSign`), the forms the helpers compute.
* `helperDivbAL` ... `helperIdivlEAX` transcribe the helpers, with
  `target_ulong` as `BitVec 64` (the x86-64 target) and the C types `int`,
  `unsigned int`, `int64_t` and `uint64_t` as `BitVec 32` and `BitVec 64`
  with the conversions the source makes.

The registers are `env->regs[R_EAX]` and `env->regs[R_EDX]` (`DivRegs`); the
flags are undefined after a division and the helpers leave them alone.

`helperIdivwAX_host_overflow` and `helperIdivlEAX_host_overflow` show the
two dividends at which the 16- and 32-bit IDIV, where the architecture
raises a divide error, make the host divide the most negative value by -1
instead.
-/

namespace QemuKvm.X86

open BitVec

variable {w : ℕ}

/-! ## Host division -/

/-- How a helper ends without writing a result: `divz` is
`raise_exception(env, EXCP00_DIVZ)`; `hostTrap` is a C division with no
result, which the host's divide instruction turns into SIGFPE. -/
inductive DivFault where
  | divz
  | hostTrap
  deriving DecidableEq, Repr

/-- A signed C division or remainder has no result: a zero divisor, or the
most negative value by -1. -/
def SdivOverflows (a b : BitVec w) : Prop :=
  b = 0 ∨ (a = intMin w ∧ b = -1#w)

instance (a b : BitVec w) : Decidable (SdivOverflows a b) :=
  inferInstanceAs (Decidable (b = 0 ∨ (a = intMin w ∧ b = -1#w)))

/-- C's `a / b` on a signed type of `w` bits, truncating toward zero. -/
def hostSdiv (a b : BitVec w) : Except DivFault (BitVec w) :=
  if SdivOverflows a b then throw .hostTrap else pure (a.sdiv b)

/-- C's `a % b` on a signed type of `w` bits, with the sign of `a`. -/
def hostSrem (a b : BitVec w) : Except DivFault (BitVec w) :=
  if SdivOverflows a b then throw .hostTrap else pure (a.srem b)

@[simp] theorem hostSdiv_intMin : hostSdiv (intMin w) (-1#w) = throw .hostTrap := by
  simp [hostSdiv, SdivOverflows]

theorem hostSdiv_of_not {a b : BitVec w} (h : ¬SdivOverflows a b) : hostSdiv a b = pure (a.sdiv b) :=
  if_neg h

theorem hostSrem_of_not {a b : BitVec w} (h : ¬SdivOverflows a b) : hostSrem a b = pure (a.srem b) :=
  if_neg h

/-! ## The architecture -/

/-- Whether a quotient fits the quotient register of `n` bits. -/
def quotFits (signed : Bool) (n : ℕ) (q : ℤ) : Bool :=
  if signed then decide (-2 ^ (n - 1) ≤ q ∧ q < 2 ^ (n - 1)) else decide (0 ≤ q ∧ q < 2 ^ n)

/-- DIV (`signed = false`) and IDIV with a quotient register of `n` bits, on
the dividend and divisor as the instruction reads them: a divide error
(`none`) when the divisor is zero or the quotient, truncated toward zero,
does not fit; otherwise the quotient and the remainder, which has the sign
of the dividend. -/
def archDiv (signed : Bool) (n : ℕ) (num den : ℤ) : Option (ℤ × ℤ) :=
  if den = 0 then none
  else if quotFits signed n (num.tdiv den) then some (num.tdiv den, num.tmod den) else none

/-- For an unsigned dividend and a non-zero divisor the quotient is the
natural one and only its size can fail. -/
theorem archDiv_natCast (n : ℕ) {a d : ℕ} (hd : d ≠ 0) :
    archDiv false n a d = if 2 ^ n ≤ a / d then none else some (↑(a / d), ↑(a % d)) := by
  have hfits : quotFits false n ↑(a / d) = decide (a / d < 2 ^ n) := by
    simp only [quotFits, Bool.false_eq_true, ↓reduceIte, Int.natCast_nonneg, true_and]
    congr 1
    exact propext Int.ofNat_lt
  rw [archDiv, if_neg (by exact_mod_cast hd), ← Int.ofNat_tdiv, ← Int.ofNat_tmod, hfits]
  by_cases h : 2 ^ n ≤ a / d
  · rw [if_pos h, if_neg (by simpa using h)]
  · rw [if_neg h, if_pos (by simpa using h)]

/-- An integer by its sign and magnitude, the way the signed helpers take
their operands apart. -/
def withSign (s : Bool) (x : ℕ) : ℤ :=
  if s then -↑x else ↑x

theorem withSign_tdiv (sa sb : Bool) (u m : ℕ) :
    (withSign sa u).tdiv (withSign sb m) = withSign (sa ^^ sb) (u / m) := by
  cases sa <;> cases sb <;> simp [withSign]

theorem withSign_tmod (sa sb : Bool) (u m : ℕ) :
    (withSign sa u).tmod (withSign sb m) = withSign sa (u % m) := by
  cases sa <;> cases sb <;>
    simp only [withSign, Bool.false_eq_true, ↓reduceIte, Int.neg_tmod, Int.tmod_neg] <;> rfl

/-- The signed range is asymmetric: a negative quotient may reach
`2 ^ (n - 1)` in magnitude, a positive one stays below it. -/
theorem quotFits_withSign (n : ℕ) (s : Bool) (q : ℕ) :
    quotFits true n (withSign s q) = decide (if s then q ≤ 2 ^ (n - 1) else q < 2 ^ (n - 1)) := by
  have h2 : ((2 ^ (n - 1) : ℕ) : ℤ) = 2 ^ (n - 1) := by push_cast; rfl
  have hpos : 0 < 2 ^ (n - 1) := Nat.two_pow_pos _
  cases s
  · simp only [quotFits, withSign, Bool.false_eq_true, ↓reduceIte, ← h2]
    rw [decide_eq_decide]
    omega
  · simp only [quotFits, withSign, ↓reduceIte, ← h2]
    rw [decide_eq_decide]
    omega

/-- IDIV on operands given by sign and magnitude: the magnitudes are divided,
the quotient takes the sign of the product and the remainder that of the
dividend. -/
theorem archDiv_withSign (n : ℕ) (sa sb : Bool) (u : ℕ) {m : ℕ} (hm : m ≠ 0) :
    archDiv true n (withSign sa u) (withSign sb m) =
      if (if sa ^^ sb then u / m ≤ 2 ^ (n - 1) else u / m < 2 ^ (n - 1)) then
        some (withSign (sa ^^ sb) (u / m), withSign sa (u % m))
      else none := by
  have hden : withSign sb m ≠ 0 := by cases sb <;> simp [withSign, hm]
  rw [archDiv, if_neg hden, withSign_tdiv, withSign_tmod, quotFits_withSign]
  simp only [decide_eq_true_eq]

theorem ofInt_withSign {w : ℕ} (s : Bool) (x : ℕ) :
    BitVec.ofInt w (withSign s x) = if s then -BitVec.ofNat w x else BitVec.ofNat w x := by
  cases s <;> simp [withSign, ofInt_neg]

/-! ## The helpers -/

/-- `env->regs[R_EAX]` and `env->regs[R_EDX]`. -/
structure DivRegs where
  eax : BitVec 64
  edx : BitVec 64
  deriving DecidableEq, Repr

/-- `helper_divb_AL`: AX by an 8-bit divisor, quotient to AL, remainder to
AH. -/
def helperDivbAL (env : DivRegs) (t0 : BitVec 64) : Except DivFault DivRegs := do
  let num : BitVec 32 := (env.eax &&& 0xffff).setWidth 32
  let den : BitVec 32 := (t0 &&& 0xff).setWidth 32
  if den = 0 then throw .divz
  let q := num / den
  if 0xff < q then throw .divz
  let q := q &&& 0xff
  let r := (num % den) &&& 0xff
  pure { env with eax := (env.eax &&& ~~~(0xffff : BitVec 64)) ||| (r <<< 8).setWidth 64 ||| q.setWidth 64 }

/-- `helper_idivb_AL`: `num = (int16_t)EAX`, `den = (int8_t)t0`. -/
def helperIdivbAL (env : DivRegs) (t0 : BitVec 64) : Except DivFault DivRegs := do
  let num : BitVec 32 := (env.eax.setWidth 16).signExtend 32
  let den : BitVec 32 := (t0.setWidth 8).signExtend 32
  if den = 0 then throw .divz
  let q ← hostSdiv num den
  if q ≠ (q.setWidth 8).signExtend 32 then throw .divz
  let q := q &&& 0xff
  let r := (← hostSrem num den) &&& 0xff
  pure { env with
    eax := (env.eax &&& ~~~(0xffff : BitVec 64)) ||| (r <<< 8).signExtend 64 ||| q.signExtend 64 }

/-- `helper_divw_AX`: DX:AX by a 16-bit divisor, quotient to AX, remainder to
DX. -/
def helperDivwAX (env : DivRegs) (t0 : BitVec 64) : Except DivFault DivRegs := do
  let num : BitVec 32 := ((env.eax &&& 0xffff) ||| ((env.edx &&& 0xffff) <<< 16)).setWidth 32
  let den : BitVec 32 := (t0 &&& 0xffff).setWidth 32
  if den = 0 then throw .divz
  let q := num / den
  if 0xffff < q then throw .divz
  let q := q &&& 0xffff
  let r := (num % den) &&& 0xffff
  pure { eax := (env.eax &&& ~~~(0xffff : BitVec 64)) ||| q.setWidth 64,
         edx := (env.edx &&& ~~~(0xffff : BitVec 64)) ||| r.setWidth 64 }

/-- `helper_idivw_AX`: the dividend is converted to `int`, the divisor is
`(int16_t)t0`, and `num / den` is evaluated before the quotient is tested. -/
def helperIdivwAX (env : DivRegs) (t0 : BitVec 64) : Except DivFault DivRegs := do
  let num : BitVec 32 := ((env.eax &&& 0xffff) ||| ((env.edx &&& 0xffff) <<< 16)).setWidth 32
  let den : BitVec 32 := (t0.setWidth 16).signExtend 32
  if den = 0 then throw .divz
  let q ← hostSdiv num den
  if q ≠ (q.setWidth 16).signExtend 32 then throw .divz
  let q := q &&& 0xffff
  let r := (← hostSrem num den) &&& 0xffff
  pure { eax := (env.eax &&& ~~~(0xffff : BitVec 64)) ||| q.signExtend 64,
         edx := (env.edx &&& ~~~(0xffff : BitVec 64)) ||| r.signExtend 64 }

/-- `helper_divl_EAX`: EDX:EAX by a 32-bit divisor in `uint64_t`; the
remainder is taken before the quotient is tested, and the results are
zero-extended into RAX and RDX. -/
def helperDivlEAX (env : DivRegs) (t0 : BitVec 64) : Except DivFault DivRegs := do
  let num : BitVec 64 := (env.eax.setWidth 32).setWidth 64 ||| ((env.edx.setWidth 32).setWidth 64 <<< 32)
  let den : BitVec 32 := t0.setWidth 32
  if den = 0 then throw .divz
  let q := num / den.setWidth 64
  let r : BitVec 32 := (num % den.setWidth 64).setWidth 32
  if 0xffffffff < q then throw .divz
  pure { eax := (q.setWidth 32).setWidth 64, edx := r.setWidth 64 }

/-- `helper_idivl_EAX`: the same in `int64_t`, with `den` an `int`. -/
def helperIdivlEAX (env : DivRegs) (t0 : BitVec 64) : Except DivFault DivRegs := do
  let num : BitVec 64 := (env.eax.setWidth 32).setWidth 64 ||| ((env.edx.setWidth 32).setWidth 64 <<< 32)
  let den : BitVec 32 := t0.setWidth 32
  if den = 0 then throw .divz
  let q ← hostSdiv num (den.signExtend 64)
  let r : BitVec 32 := (← hostSrem num (den.signExtend 64)).setWidth 32
  if q ≠ (q.setWidth 32).signExtend 64 then throw .divz
  pure { eax := (q.setWidth 32).setWidth 64, edx := r.setWidth 64 }

/-! ## Reading the dividend -/

theorem getLsbD_0xffff (i : ℕ) : (0xffff#w).getLsbD i = (decide (i < w) && decide (i < 16)) :=
  getLsbD_ofNat_two_pow_sub_one 16 i

/-- The 16-bit forms' dividend is DX:AX. -/
theorem divwNum_eq (eax edx : BitVec 64) :
    ((eax &&& 0xffff) ||| ((edx &&& 0xffff) <<< 16)).setWidth 32 =
      edx.setWidth 16 ++ eax.setWidth 16 := by
  ext i hi
  simp only [← getLsbD_eq_getElem, getLsbD_append]
  simp [getLsbD_0xffff]
  by_cases h : i < 16
  · simp [h, hi]
  · simp [h, hi, show i - 16 < 16 by omega, show i - 16 < 32 by omega]

/-- The 32-bit forms' dividend is EDX:EAX. -/
theorem divlNum_eq (eax edx : BitVec 64) :
    (eax.setWidth 32).setWidth 64 ||| ((edx.setWidth 32).setWidth 64 <<< 32) =
      edx.setWidth 32 ++ eax.setWidth 32 := by
  ext i hi
  simp only [← getLsbD_eq_getElem, getLsbD_append]
  by_cases h : i < 32
  · simp [h, hi]
  · simp [h, hi, show i - 32 < 32 by omega]

/-! ## IDIV of the most negative dividend by -1 -/

/-- DX:AX = 0x8000:0000 divided by -1: the quotient 2^31 does not fit in AX,
so the architecture raises a divide error; the helper evaluates
`INT_MIN / -1` first. -/
theorem helperIdivwAX_host_overflow (env : DivRegs) (t0 : BitVec 64)
    (hax : env.eax.setWidth 16 = 0) (hdx : env.edx.setWidth 16 = 0x8000)
    (hden : t0.setWidth 16 = 0xffff) :
    archDiv true 16 (env.edx.setWidth 16 ++ env.eax.setWidth 16).toInt (t0.setWidth 16).toInt =
        none ∧
      helperIdivwAX env t0 = throw .hostTrap := by
  constructor
  · rw [hax, hdx, hden]
    decide
  · have hnum : ((env.eax &&& 0xffff) ||| ((env.edx &&& 0xffff) <<< 16)).setWidth 32 =
        intMin 32 := by
      rw [divwNum_eq, hax, hdx]
      decide
    have hneg : (t0.setWidth 16).signExtend 32 = -1#32 := by
      rw [hden]
      decide
    simp only [helperIdivwAX, hnum, hneg, hostSdiv_intMin]
    rfl

/-- `idiv word` of DX:AX = 0x8000:0000 by 0xffff with the rest of RAX, RDX
and the operand clear. -/
theorem helperIdivwAX_host_overflow_at :
    ((0 : BitVec 64).setWidth 16 = 0 ∧ (0x8000 : BitVec 64).setWidth 16 = 0x8000 ∧
        (0xffff : BitVec 64).setWidth 16 = 0xffff) ∧
      archDiv true 16 ((0x8000 : BitVec 64).setWidth 16 ++ (0 : BitVec 64).setWidth 16).toInt
          ((0xffff : BitVec 64).setWidth 16).toInt = none ∧
        helperIdivwAX ⟨0, 0x8000⟩ 0xffff = throw .hostTrap :=
  ⟨⟨by decide, by decide, by decide⟩,
    helperIdivwAX_host_overflow ⟨0, 0x8000⟩ 0xffff (by decide) (by decide) (by decide)⟩

/-- EDX:EAX = 0x80000000:00000000 divided by -1 likewise makes the 32-bit
helper evaluate `INT64_MIN / -1`. -/
theorem helperIdivlEAX_host_overflow (env : DivRegs) (t0 : BitVec 64)
    (hax : env.eax.setWidth 32 = 0) (hdx : env.edx.setWidth 32 = 0x80000000)
    (hden : t0.setWidth 32 = 0xffffffff) :
    archDiv true 32 (env.edx.setWidth 32 ++ env.eax.setWidth 32).toInt (t0.setWidth 32).toInt =
        none ∧
      helperIdivlEAX env t0 = throw .hostTrap := by
  constructor
  · rw [hax, hdx, hden]
    decide
  · have hnum : (env.eax.setWidth 32).setWidth 64 ||| ((env.edx.setWidth 32).setWidth 64 <<< 32) =
        intMin 64 := by
      rw [divlNum_eq, hax, hdx]
      decide
    have hneg : (t0.setWidth 32).signExtend 64 = -1#64 := by
      rw [hden]
      decide
    have hne : t0.setWidth 32 ≠ 0 := by
      rw [hden]
      decide
    simp only [helperIdivlEAX, hnum, hneg, hne, ↓reduceIte, hostSdiv_intMin]
    rfl

end QemuKvm.X86
