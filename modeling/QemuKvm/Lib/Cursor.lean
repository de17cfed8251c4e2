import Mathlib.Algebra.Order.BigOperators.Group.List
import Mathlib.Algebra.BigOperators.Ring.List
import Mathlib.Logic.Function.Iterate
import Mathlib.Data.List.GetD
import Mathlib.Algebra.Ring.Nat
import Mathlib.Algebra.Order.Group.Nat

/-!
# A cursor that walks a list of segments round and round

A scan that resumes where it stopped keeps a cursor `(segment, offset)`
into a list of segments and advances it by a fixed step, going on to the
next segment at the end of one and back to the first after the last one.
The question such a scan has to answer is whether one full turn from any
position sees every position.

The abstract form is `IsCycle`: a step function that acts as `+1` modulo
`N` on an injective index of the valid positions. From it,

* `IsCycle.idx_iterate` — `j` steps add `j` to the index, modulo `N`;
* `IsCycle.iterate_period` — `N` steps come back to the start;
* `IsCycle.exists_iterate` — every valid position is reached from every
  other one in fewer than `N` steps;
* `IsCycle.period_le` — a walk back to its start takes at least `N` steps.

`isCycle_segNext` shows that the segment cursor `segNext` is such a cycle,
when every segment length is a positive multiple of the step.
-/

namespace QemuKvm

section Cycle

variable {α : Type*} (next : α → α) (valid : α → Prop) (idx : α → ℕ) (N : ℕ)

/-- `next` walks the valid positions as `+1` modulo `N`, through an index
that tells valid positions apart. -/
structure IsCycle : Prop where
  valid_next : ∀ c, valid c → valid (next c)
  idx_lt : ∀ c, valid c → idx c < N
  idx_next : ∀ c, valid c → idx (next c) = (idx c + 1) % N
  idx_inj : ∀ c d, valid c → valid d → idx c = idx d → c = d

variable {next valid idx N}

theorem IsCycle.valid_iterate (h : IsCycle next valid idx N) {c : α} (hc : valid c) (j : ℕ) :
    valid (next^[j] c) := by
  induction j with
  | zero => exact hc
  | succ j ih => rw [Function.iterate_succ_apply']; exact h.valid_next _ ih

theorem IsCycle.idx_iterate (h : IsCycle next valid idx N) {c : α} (hc : valid c) (j : ℕ) :
    idx (next^[j] c) = (idx c + j) % N := by
  induction j with
  | zero => simp [Nat.mod_eq_of_lt (h.idx_lt c hc)]
  | succ j ih =>
    rw [Function.iterate_succ_apply', h.idx_next _ (h.valid_iterate hc j), ih, Nat.mod_add_mod,
      Nat.add_assoc]

theorem IsCycle.iterate_period (h : IsCycle next valid idx N) {c : α} (hc : valid c) :
    next^[N] c = c := by
  apply h.idx_inj _ _ (h.valid_iterate hc N) hc
  rw [h.idx_iterate hc, Nat.add_mod_right, Nat.mod_eq_of_lt (h.idx_lt c hc)]

/-- One turn from `c` reaches every valid position. -/
theorem IsCycle.exists_iterate (h : IsCycle next valid idx N) {c q : α} (hc : valid c)
    (hq : valid q) : ∃ j < N, next^[j] c = q := by
  have hcN := h.idx_lt c hc
  have hqN := h.idx_lt q hq
  refine ⟨(idx q + N - idx c) % N, Nat.mod_lt _ (by omega), ?_⟩
  apply h.idx_inj _ _ (h.valid_iterate hc _) hq
  have hsum : idx c + (idx q + N - idx c) = idx q + N := by omega
  rw [h.idx_iterate hc, Nat.add_mod_mod, hsum, Nat.add_mod_right, Nat.mod_eq_of_lt hqN]

/-- A walk that comes back to its start has gone at least one full turn. -/
theorem IsCycle.period_le (h : IsCycle next valid idx N) {c : α} (hc : valid c) {k : ℕ}
    (hk : 0 < k) (hback : next^[k] c = c) : N ≤ k := by
  have hcN := h.idx_lt c hc
  have hmod : (idx c + k) % N = idx c % N := by
    rw [← h.idx_iterate hc, hback, Nat.mod_eq_of_lt hcN]
  have hdvd : N ∣ k := by
    have h1 := Nat.sub_mod_eq_zero_of_mod_eq hmod
    rwa [Nat.add_sub_cancel_left, ← Nat.dvd_iff_mod_eq_zero] at h1
  exact Nat.le_of_dvd hk hdvd

end Cycle

section Segments

variable (lens : List ℕ) (step : ℕ)

/-- Advance by `step`; past the end of a segment go to the start of the
next one, and after the last one back to the first. -/
def segNext (c : ℕ × ℕ) : ℕ × ℕ :=
  if lens.getD c.1 0 ≤ c.2 + step then (if c.1 + 1 < lens.length then c.1 + 1 else 0, 0)
  else (c.1, c.2 + step)

/-- A position inside a segment, at a multiple of the step. -/
def SegValid (c : ℕ × ℕ) : Prop :=
  c.1 < lens.length ∧ c.2 < lens.getD c.1 0 ∧ step ∣ c.2

/-- The distance of a position from the start of the first segment. -/
def segFlat (c : ℕ × ℕ) : ℕ := (lens.take c.1).sum + c.2

/-- The position's number in the order of a scan. -/
def segIdx (c : ℕ × ℕ) : ℕ := segFlat lens c / step

variable {lens step}

theorem segFlat_dvd (hlens : ∀ l ∈ lens, step ∣ l) {c : ℕ × ℕ} (hc : SegValid lens step c) :
    step ∣ segFlat lens c :=
  Nat.dvd_add (List.dvd_sum fun x hx => hlens x (List.mem_of_mem_take hx)) hc.2.2

/-- A position lies before the end of its own segment. -/
theorem segFlat_lt_sum_take_succ {c : ℕ × ℕ} (hc : SegValid lens step c) :
    segFlat lens c < (lens.take (c.1 + 1)).sum := by
  have h := hc.2.1
  rw [List.getD_eq_getElem _ _ hc.1] at h
  rw [List.sum_take_succ _ _ hc.1, segFlat]
  omega

theorem segFlat_lt_sum {c : ℕ × ℕ} (hc : SegValid lens step c) :
    segFlat lens c < lens.sum := by
  have h := List.sum_take_add_sum_drop lens (c.1 + 1)
  have := segFlat_lt_sum_take_succ hc
  omega

/-- Positions are told apart by their distance from the start. -/
theorem segFlat_inj {c d : ℕ × ℕ} (hc : SegValid lens step c) (hd : SegValid lens step d)
    (h : segFlat lens c = segFlat lens d) : c = d := by
  have hmono := List.monotone_sum_take lens
  -- a position of an earlier segment lies before every position of a later one
  have hbefore : ∀ x y : ℕ × ℕ, SegValid lens step x → x.1 < y.1 →
      segFlat lens x < segFlat lens y := fun x y hx hxy => by
    have h1 := segFlat_lt_sum_take_succ hx
    have h2 : (lens.take (x.1 + 1)).sum ≤ (lens.take y.1).sum := hmono hxy
    simp only [segFlat] at h1 ⊢
    omega
  rcases lt_trichotomy c.1 d.1 with hlt | heq | hgt
  · exact absurd h (ne_of_lt (hbefore c d hc hlt))
  · simp only [segFlat, heq] at h
    exact Prod.ext heq (by omega)
  · exact absurd h (ne_of_gt (hbefore d c hd hgt))

variable (hlens : ∀ l ∈ lens, 0 < l ∧ step ∣ l)
include hlens

theorem getD_pos {i : ℕ} (hi : i < lens.length) : 0 < lens.getD i 0 ∧ step ∣ lens.getD i 0 := by
  rw [List.getD_eq_getElem _ _ hi]
  exact hlens _ (List.getElem_mem hi)

/-- At the end of a segment the offset lands exactly on the segment's length. -/
theorem segValid_end {c : ℕ × ℕ} (hc : SegValid lens step c)
    (hend : lens.getD c.1 0 ≤ c.2 + step) : c.2 + step = lens.getD c.1 0 := by
  obtain ⟨b, hb⟩ := (getD_pos hlens hc.1).2
  obtain ⟨a, ha⟩ := hc.2.2
  have hlt : step * a < step * b := by rw [← ha, ← hb]; exact hc.2.1
  have hab : step * (a + 1) ≤ step * b := Nat.mul_le_mul_left step (Nat.lt_of_mul_lt_mul_left hlt)
  rw [Nat.mul_succ] at hab
  omega

theorem segValid_segNext {c : ℕ × ℕ} (hc : SegValid lens step c) :
    SegValid lens step (segNext lens step c) := by
  unfold segNext
  split
  · split
    · next hnext => exact ⟨hnext, (getD_pos hlens hnext).1, dvd_zero step⟩
    · have h0 : 0 < lens.length := by have := hc.1; omega
      exact ⟨h0, (getD_pos hlens h0).1, dvd_zero step⟩
  · next hlt => exact ⟨hc.1, by simp only; omega, Nat.dvd_add hc.2.2 (dvd_refl step)⟩

/-- One step moves the distance from the start by `step`, modulo the total. -/
theorem segFlat_segNext {c : ℕ × ℕ} (hc : SegValid lens step c) :
    segFlat lens (segNext lens step c) = (segFlat lens c + step) % lens.sum := by
  have htake := segFlat_lt_sum_take_succ hc
  have hsplit := List.sum_take_add_sum_drop lens (c.1 + 1)
  have hsucc := List.sum_take_succ lens c.1 hc.1
  rw [← List.getD_eq_getElem _ 0 hc.1] at hsucc
  unfold segNext
  split
  · next hend =>
    have hoff := segValid_end hlens hc hend
    -- the last position of a segment: the next one starts the following segment
    have hflat : segFlat lens c + step = (lens.take (c.1 + 1)).sum := by
      simp only [segFlat] at htake ⊢
      omega
    split
    · next hnext =>
      have hpos := (getD_pos hlens hnext).1
      have hsucc2 := List.sum_take_succ lens (c.1 + 1) hnext
      rw [← List.getD_eq_getElem _ 0 hnext] at hsucc2
      have hle : (lens.take (c.1 + 1 + 1)).sum ≤ lens.sum := by
        have := List.sum_take_add_sum_drop lens (c.1 + 1 + 1)
        omega
      rw [hflat, Nat.mod_eq_of_lt (by omega)]
      simp [segFlat]
    · next hlast =>
      have hall : lens.take (c.1 + 1) = lens := List.take_of_length_le (by have := hc.1; omega)
      rw [hflat, hall, Nat.mod_self]
      simp [segFlat]
  · next hlt =>
    have hin : segFlat lens c + step < lens.sum := by
      simp only [segFlat] at htake ⊢
      omega
    rw [Nat.mod_eq_of_lt hin]
    simp only [segFlat]
    omega

/-- The segment cursor is a cycle through all positions of all segments. -/
theorem isCycle_segNext (hstep : 0 < step) :
    IsCycle (segNext lens step) (SegValid lens step) (segIdx lens step) (lens.sum / step) where
  valid_next _ hc := segValid_segNext hlens hc
  idx_lt _ hc :=
    Nat.div_lt_div_of_lt_of_dvd (List.dvd_sum fun l hl => (hlens l hl).2) (segFlat_lt_sum hc)
  idx_next c hc := by
    obtain ⟨a, ha⟩ := segFlat_dvd (fun l hl => (hlens l hl).2) hc
    obtain ⟨n, hn⟩ := List.dvd_sum (a := step) fun l hl => (hlens l hl).2
    unfold segIdx
    rw [segFlat_segNext hlens hc, ha, hn, ← Nat.mul_succ, Nat.mul_mod_mul_left,
      Nat.mul_div_cancel_left _ hstep, Nat.mul_div_cancel_left _ hstep,
      Nat.mul_div_cancel_left _ hstep]
  idx_inj c d hc hd h := by
    have hdvd : ∀ l ∈ lens, step ∣ l := fun l hl => (hlens l hl).2
    apply segFlat_inj hc hd
    unfold segIdx at h
    rw [← Nat.div_mul_cancel (segFlat_dvd hdvd hc), ← Nat.div_mul_cancel (segFlat_dvd hdvd hd), h]

end Segments

end QemuKvm
