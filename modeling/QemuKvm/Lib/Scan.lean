import Mathlib.Order.Basic

/-!
# Scanning for the end of a run

`scanWhile p i fuel` is the loop

    for (; fuel > 0; i++, fuel--) { if (!p(i)) break; }

that C code writes to measure a run: it returns the first index from `i` at
which `p` fails, or `i + fuel` when `p` holds on all `fuel` indices. The
lemmas are the loop's contract:

* `le_scanWhile`, `scanWhile_le` — the result lies in `[i, i + fuel]`;
* `scanWhile_spec` — `p` holds on every index of `[i, result)`;
* `lt_scanWhile` — the run is not empty when `p` holds at `i` and there is
  fuel for one round.
-/

namespace QemuKvm

/-- The first index from `i` at which `p` fails, looking at `fuel` indices
at most. -/
def scanWhile (p : ℕ → Bool) (i : ℕ) : ℕ → ℕ
  | 0 => i
  | fuel + 1 => if p i then scanWhile p (i + 1) fuel else i

section

variable (p : ℕ → Bool)

theorem le_scanWhile (i fuel : ℕ) : i ≤ scanWhile p i fuel := by
  induction fuel generalizing i with
  | zero => exact Nat.le_refl i
  | succ fuel ih =>
    rw [scanWhile]
    split
    · exact Nat.le_trans (Nat.le_succ i) (ih (i + 1))
    · exact Nat.le_refl i

theorem scanWhile_le (i fuel : ℕ) : scanWhile p i fuel ≤ i + fuel := by
  induction fuel generalizing i with
  | zero => exact Nat.le_refl i
  | succ fuel ih =>
    rw [scanWhile]
    split
    · have := ih (i + 1)
      omega
    · omega

theorem scanWhile_spec (i fuel : ℕ) :
    ∀ j, i ≤ j → j < scanWhile p i fuel → p j = true := by
  induction fuel generalizing i with
  | zero =>
    intro j hij hj
    exact absurd hj (by simp only [scanWhile]; omega)
  | succ fuel ih =>
    intro j hij hj
    rw [scanWhile] at hj
    split at hj
    · next hpi =>
      -- `j` is `i` itself, or lies in the rest of the run
      rcases Nat.eq_or_lt_of_le hij with rfl | hlt
      · exact hpi
      · exact ih (i + 1) j hlt hj
    · omega

theorem lt_scanWhile {i fuel : ℕ} (hp : p i = true) (hfuel : 0 < fuel) :
    i < scanWhile p i fuel := by
  obtain ⟨fuel, rfl⟩ : ∃ f, fuel = f + 1 := ⟨fuel - 1, by omega⟩
  rw [scanWhile, if_pos hp]
  exact Nat.lt_of_lt_of_le (Nat.lt_succ_self i) (le_scanWhile p (i + 1) fuel)

end

end QemuKvm
