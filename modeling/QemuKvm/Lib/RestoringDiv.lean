import Mathlib.Tactic.Ring

/-!
# Restoring division on naturals

Long division in base two, the way hardware and software dividers without a
wide divide instruction do it: a partial remainder `r` below the divisor `b`
takes in the dividend one bit at a time, most significant first; when the
doubled remainder plus the new bit reaches `b`, `b` is subtracted and a one
enters the quotient, otherwise a zero does.

`restoreStep` is one round and `restoreLoop b x k` the rounds that take in
the bits `k - 1, ..., 0` of `x`. The invariant `DivState b P` says that a
state is the quotient and remainder of `P` by `b`; a round takes it from `P`
to `2 * P + c`, so `k` rounds starting from the remainder `r` end in the
quotient and remainder of `r * 2 ^ k + x % 2 ^ k` (`restoreLoop_eq`), and a
starting remainder below `b` keeps the quotient below `2 ^ k`
(`restoreLoop_quot_lt`).
-/

namespace QemuKvm

/-- One round: shift the bit `c` into the remainder, subtract the divisor
if it fits, shift the outcome into the quotient. A state is
`(remainder, quotient)`. -/
def restoreStep (b c : ℕ) (rq : ℕ × ℕ) : ℕ × ℕ :=
  if b ≤ 2 * rq.1 + c then (2 * rq.1 + c - b, 2 * rq.2 + 1) else (2 * rq.1 + c, 2 * rq.2)

/-- `k` rounds taking in the bits `k - 1` down to `0` of `x`. -/
def restoreLoop (b x : ℕ) : ℕ → ℕ × ℕ → ℕ × ℕ
  | 0, rq => rq
  | k + 1, rq => restoreLoop b x k (restoreStep b (x / 2 ^ k % 2) rq)

@[simp] theorem restoreLoop_zero (b x : ℕ) (rq : ℕ × ℕ) : restoreLoop b x 0 rq = rq :=
  rfl

theorem restoreLoop_succ (b x k : ℕ) (rq : ℕ × ℕ) :
    restoreLoop b x (k + 1) rq = restoreLoop b x k (restoreStep b (x / 2 ^ k % 2) rq) :=
  rfl

/-- `rq` is the remainder and quotient of `P` by `b`. -/
def DivState (b P : ℕ) (rq : ℕ × ℕ) : Prop :=
  rq.1 < b ∧ P = rq.2 * b + rq.1

theorem DivState.eq {b P : ℕ} {rq : ℕ × ℕ} (h : DivState b P rq) : rq = (P % b, P / b) := by
  obtain ⟨hr, hP⟩ := h
  have hb : 0 < b := by omega
  have hdm : P / b = rq.2 ∧ P % b = rq.1 := (Nat.div_mod_unique hb).2 ⟨by rw [hP]; ring, hr⟩
  exact Prod.ext hdm.2.symm hdm.1.symm

theorem restoreStep_divState {b P c : ℕ} {rq : ℕ × ℕ} (hc : c < 2) (h : DivState b P rq) :
    DivState b (2 * P + c) (restoreStep b c rq) := by
  obtain ⟨hr, hP⟩ := h
  unfold restoreStep
  split_ifs with hsub
  · -- the doubled remainder is below `2 * b`, so one subtraction restores it
    refine ⟨by simp only; omega, ?_⟩
    simp only
    have hsplit : 2 * rq.1 + c = b + (2 * rq.1 + c - b) := by omega
    calc 2 * P + c = 2 * rq.2 * b + (2 * rq.1 + c) := by rw [hP]; ring
      _ = 2 * rq.2 * b + (b + (2 * rq.1 + c - b)) := by rw [← hsplit]
      _ = (2 * rq.2 + 1) * b + (2 * rq.1 + c - b) := by ring
  · refine ⟨by simp only; omega, ?_⟩
    simp only
    rw [hP]
    ring

theorem restoreStep_fst_lt {b c : ℕ} {rq : ℕ × ℕ} (hc : c < 2) (hr : rq.1 < b) :
    (restoreStep b c rq).1 < b :=
  (restoreStep_divState (P := rq.2 * b + rq.1) hc ⟨hr, rfl⟩).1

/-- The run lemma: `k` rounds take the remainder and quotient of `P` to
those of `P * 2 ^ k + x % 2 ^ k`. -/
theorem restoreLoop_divState {b x P : ℕ} (k : ℕ) {rq : ℕ × ℕ} (h : DivState b P rq) :
    DivState b (P * 2 ^ k + x % 2 ^ k) (restoreLoop b x k rq) := by
  induction k generalizing P rq with
  | zero => simpa only [restoreLoop_zero, pow_zero, Nat.mul_one, Nat.mod_one, Nat.add_zero] using h
  | succ k ih =>
    have hbit : x / 2 ^ k % 2 < 2 := Nat.mod_lt _ (by omega)
    have hnext := ih (restoreStep_divState hbit h)
    rw [restoreLoop_succ]
    convert hnext using 1
    rw [Nat.mod_pow_succ, pow_succ]
    ring

theorem restoreLoop_eq {b r : ℕ} (x k : ℕ) (hr : r < b) :
    restoreLoop b x k (r, 0) =
      ((r * 2 ^ k + x % 2 ^ k) % b, (r * 2 ^ k + x % 2 ^ k) / b) :=
  (restoreLoop_divState k (⟨hr, by simp⟩ : DivState b r (r, 0))).eq

/-- A dividend whose top part is below the divisor has a quotient of at most
as many bits as were taken in. -/
theorem restoreLoop_quot_lt {b r : ℕ} (x k : ℕ) (hr : r < b) :
    (r * 2 ^ k + x % 2 ^ k) / b < 2 ^ k := by
  have hx : x % 2 ^ k < 2 ^ k := Nat.mod_lt _ (Nat.two_pow_pos k)
  have hlt : r * 2 ^ k + x % 2 ^ k < b * 2 ^ k := by
    calc r * 2 ^ k + x % 2 ^ k < r * 2 ^ k + 2 ^ k := by omega
      _ = (r + 1) * 2 ^ k := by ring
      _ ≤ b * 2 ^ k := Nat.mul_le_mul_right _ hr
  exact Nat.div_lt_of_lt_mul hlt

end QemuKvm
