import Mathlib.Data.List.Pairwise
import Mathlib.Tactic.Linarith

/-!
# Binary search

`bsearch(key, base, nmemb, size, compar)` of the C library: the classic
binary search over `[l, u)` that returns an element comparing equal to the
key, or nothing. Here `cmp x` is `compar(key, x)`: negative when the key lies
before x, positive when after, zero when x matches.

The C standard only promises some matching element when the array is
ordered for the key. The two lemmas below are that contract, and all that
callers use:

* `bsearch_some` — an index found compares equal;
* `bsearch_eq_none_iff` — on an array ordered for the key, nothing is found
  exactly when no element compares equal.
-/

namespace QemuKvm

variable {α : Type*}

/-- The loop over [l, u); one round per element is enough fuel. -/
def bsearchLoop (cmp : α → ℤ) (arr : List α) : ℕ → ℕ → ℕ → Option ℕ
  | 0, _, _ => none
  | fuel + 1, l, u =>
    if l < u then
      let idx := (l + u) / 2
      let c := ((arr[idx]?).map cmp).getD 0
      if c < 0 then bsearchLoop cmp arr fuel l idx
      else if 0 < c then bsearchLoop cmp arr fuel (idx + 1) u
      else some idx
    else none

def bsearch (cmp : α → ℤ) (arr : List α) : Option ℕ :=
  bsearchLoop cmp arr arr.length 0 arr.length

/-- The array is ordered for the key: the elements before the matches come
first, then the matches, then the elements after. -/
def OrderedFor (cmp : α → ℤ) (arr : List α) : Prop :=
  arr.Pairwise fun x y => (0 < cmp y → 0 < cmp x) ∧ (cmp x < 0 → cmp y < 0)

section

variable (cmp : α → ℤ) (arr : List α)

theorem bsearchLoop_some (fuel l u i : ℕ) (hu : u ≤ arr.length)
    (h : bsearchLoop cmp arr fuel l u = some i) : ∃ hi : i < arr.length, cmp arr[i] = 0 := by
  induction fuel generalizing l u with
  | zero => exact absurd h (by simp [bsearchLoop])
  | succ fuel ih =>
    simp only [bsearchLoop] at h
    split_ifs at h with hlu hneg hpos
    · exact ih l _ (by omega) h
    · exact ih _ u hu h
    · -- the middle element neither lies before nor after the key
      cases h
      have hi : (l + u) / 2 < arr.length := by omega
      simp only [List.getElem?_eq_getElem hi, Option.map_some, Option.getD_some] at hneg hpos
      exact ⟨hi, by omega⟩

/-- With enough fuel, a search of [l, u) that finds nothing has no match
there. -/
theorem bsearchLoop_none (hord : OrderedFor cmp arr) (fuel l u : ℕ) (hu : u ≤ arr.length)
    (hfuel : u - l ≤ fuel) (h : bsearchLoop cmp arr fuel l u = none) :
    ∀ k (hk : k < arr.length), l ≤ k → k < u → cmp arr[k] ≠ 0 := by
  have hpw := List.pairwise_iff_getElem.1 hord
  induction fuel generalizing l u with
  | zero => intro k _ hl hk; omega
  | succ fuel ih =>
    intro k hk hl hku
    simp only [bsearchLoop] at h
    split_ifs at h with hlu hneg hpos
    · -- the middle element lies after the key, and so does everything above it
      have hi : (l + u) / 2 < arr.length := by omega
      simp only [List.getElem?_eq_getElem hi, Option.map_some, Option.getD_some] at hneg
      rcases lt_or_ge k ((l + u) / 2) with hlt | hge
      · exact ih l _ (by omega) (by omega) h k hk hl hlt
      · rcases hge.lt_or_eq with hgt | heq
        · exact ((hpw _ _ hi hk hgt).2 hneg).ne
        · subst heq
          exact hneg.ne
    · -- the middle element lies before the key, and so does everything below it
      have hi : (l + u) / 2 < arr.length := by omega
      simp only [List.getElem?_eq_getElem hi, Option.map_some, Option.getD_some] at hpos
      rcases lt_or_ge ((l + u) / 2) k with hlt | hge
      · exact ih _ u hu (by omega) h k hk (by omega) hku
      · rcases hge.lt_or_eq with hgt | heq
        · exact ((hpw _ _ hk hi hgt).1 hpos).ne'
        · subst heq
          exact hpos.ne'
    · omega

theorem bsearch_some {i : ℕ} (h : bsearch cmp arr = some i) :
    ∃ hi : i < arr.length, cmp arr[i] = 0 :=
  bsearchLoop_some cmp arr _ 0 _ _ le_rfl h

theorem bsearch_eq_none_iff (hord : OrderedFor cmp arr) :
    bsearch cmp arr = none ↔ ∀ x ∈ arr, cmp x ≠ 0 := by
  constructor
  · intro h x hx
    obtain ⟨k, hk, rfl⟩ := List.getElem_of_mem hx
    exact bsearchLoop_none cmp arr hord _ 0 _ le_rfl (by omega) h k hk (Nat.zero_le k) hk
  · intro h
    cases hs : bsearch cmp arr with
    | none => rfl
    | some i =>
      obtain ⟨hi, hc⟩ := bsearch_some cmp arr hs
      exact absurd hc (h _ (List.getElem_mem hi))

end

end QemuKvm
