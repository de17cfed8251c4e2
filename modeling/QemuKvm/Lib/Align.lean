import Mathlib.Data.List.Range
import Mathlib.Algebra.Order.Group.Nat

/-!
# Page arithmetic

Natural-number forms of the masking idioms used for pages of size `p`:
`a & ~(p - 1)` is `alignDown p a` and `(a + p - 1) & ~(p - 1)` is
`alignUp p a` (for `p` a power of two; the lemmas only need `0 < p`).

A loop of the shape

    for (addr = start & MASK; addr < ALIGN(start + length); addr += p)

visits exactly the list `pageStarts p start length`. The lemmas say which
page starts that list holds (`mem_pageStarts`) and that the page of every
byte of `[start, start + length)` is among them
(`alignDown_mem_pageStarts`), the fact a range operation on pages rests on.
`add_div_eq` and its two corollaries say on which page, and where in it,
each byte of a range past `a` falls; `mul_sub_one_div` and
`mul_sub_one_mod` place the byte just before page `j`.
-/

namespace QemuKvm

/-- `a` rounded down to a multiple of `p`. -/
def alignDown (p a : ℕ) : ℕ := a / p * p

/-- `a` rounded up to a multiple of `p`. -/
def alignUp (p a : ℕ) : ℕ := (a + p - 1) / p * p

/-- The page starts visited by a loop from `start` rounded down to the end
of `[start, start + length)` rounded up, in steps of `p`. -/
def pageStarts (p start length : ℕ) : List ℕ :=
  (List.range ((alignUp p (start + length) - alignDown p start) / p)).map
    fun k => alignDown p start + k * p

section
variable {p : ℕ}

theorem alignDown_le (p a : ℕ) : alignDown p a ≤ a := Nat.div_mul_le_self a p

theorem alignDown_dvd (p a : ℕ) : p ∣ alignDown p a := Nat.dvd_mul_left p _

theorem lt_alignDown_add (hp : 0 < p) (a : ℕ) : a < alignDown p a + p := by
  have h := Nat.lt_div_mul_add (a := a) hp
  simpa [alignDown] using h

theorem alignDown_div (hp : 0 < p) (a : ℕ) : alignDown p a / p = a / p :=
  Nat.mul_div_cancel _ hp

@[simp] theorem alignDown_of_dvd {a : ℕ} (h : p ∣ a) : alignDown p a = a :=
  Nat.div_mul_cancel h

theorem le_alignUp (hp : 0 < p) (a : ℕ) : a ≤ alignUp p a := by
  have h := lt_alignDown_add hp (a + p - 1)
  simp only [alignDown] at h
  simp only [alignUp]
  omega

theorem alignUp_dvd (p a : ℕ) : p ∣ alignUp p a := Nat.dvd_mul_left p _

/-- The aligned addresses below `alignUp p a` are those below `a`. -/
theorem lt_alignUp_iff (hp : 0 < p) {a x : ℕ} (hx : p ∣ x) : x < alignUp p a ↔ x < a := by
  obtain ⟨k, rfl⟩ := hx
  constructor
  · intro h
    have h1 : p * k < (a + p - 1) / p * p := h
    have h2 : k < (a + p - 1) / p := by
      rw [mul_comm p k] at h1
      exact Nat.lt_of_mul_lt_mul_right h1
    have h3 : k + 1 ≤ (a + p - 1) / p := h2
    have h4 := (Nat.le_div_iff_mul_le hp).mp h3
    rw [Nat.add_mul, one_mul, mul_comm] at h4
    omega
  · intro h
    exact lt_of_lt_of_le h (le_alignUp hp a)

/-- The aligned addresses above `alignDown p a` are those above `a`. -/
theorem alignDown_lt_iff (hp : 0 < p) {a x : ℕ} (hx : p ∣ x) : alignDown p a < x ↔ a < x := by
  constructor
  · intro h
    by_contra hxa
    obtain ⟨k, rfl⟩ := hx
    -- `p * k ≤ a` puts the multiple `p * k` at or below the page start of `a`
    have hk : k ≤ a / p := (Nat.le_div_iff_mul_le hp).mpr (by rw [mul_comm]; omega)
    have hle : p * k ≤ alignDown p a := by
      rw [alignDown, mul_comm p k]
      exact Nat.mul_le_mul_right p hk
    omega
  · intro h
    exact lt_of_le_of_lt (alignDown_le p a) h

/-- The aligned addresses at or above `alignDown p a` are those above the
page start of `a`, i.e. those whose page is not below `a`'s. -/
theorem alignDown_le_iff (hp : 0 < p) {a x : ℕ} (hx : p ∣ x) : alignDown p a ≤ x ↔ a < x + p := by
  obtain ⟨k, rfl⟩ := hx
  have ha := lt_alignDown_add hp a
  have hd : p ∣ alignDown p a := alignDown_dvd p a
  obtain ⟨m, hm⟩ := hd
  rw [hm] at ha ⊢
  constructor
  · intro h
    omega
  · intro h
    have hle : p * m ≤ a := by rw [← hm]; exact alignDown_le p a
    have h1 : p * m < p * (k + 1) := by rw [Nat.mul_succ]; omega
    have hmk : m ≤ k := Nat.lt_succ_iff.mp (Nat.lt_of_mul_lt_mul_left h1)
    exact Nat.mul_le_mul_left p hmk

theorem mem_pageStarts (hp : 0 < p) {start length x : ℕ} :
    x ∈ pageStarts p start length ↔
      p ∣ x ∧ alignDown p start ≤ x ∧ x < alignUp p (start + length) := by
  have hd := alignDown_dvd p start
  have hu := alignUp_dvd p (start + length)
  have hle : alignDown p start ≤ alignUp p (start + length) :=
    (alignDown_le p start).trans ((Nat.le_add_right _ _).trans (le_alignUp hp _))
  simp only [pageStarts, List.mem_map, List.mem_range]
  constructor
  · rintro ⟨k, hk, rfl⟩
    refine ⟨Nat.dvd_add hd (Nat.dvd_mul_left p k), Nat.le_add_right _ _, ?_⟩
    have h1 : p * k < alignUp p (start + length) - alignDown p start :=
      (Nat.lt_div_iff_mul_lt' (Nat.dvd_sub hu hd) k).mp hk
    rw [mul_comm k p]
    omega
  · rintro ⟨hx, hlo, hhi⟩
    refine ⟨(x - alignDown p start) / p, ?_, ?_⟩
    · exact Nat.div_lt_div_of_lt_of_dvd (Nat.dvd_sub hu hd) (by omega)
    · rw [Nat.div_mul_cancel (Nat.dvd_sub hx hd)]
      omega

/-- The page of every byte of `[start, start + length)` is visited. -/
theorem alignDown_mem_pageStarts (hp : 0 < p) {start length a : ℕ}
    (h1 : start ≤ a) (h2 : a < start + length) :
    alignDown p a ∈ pageStarts p start length := by
  have hda := alignDown_dvd p a
  refine (mem_pageStarts hp).mpr ⟨hda, ?_, ?_⟩
  · exact (alignDown_le_iff hp hda).mpr (by have := lt_alignDown_add hp a; omega)
  · exact (lt_alignUp_iff hp hda).mpr (lt_of_le_of_lt (alignDown_le p a) h2)

/-- For a non-empty range, a visited page start is the start of a page that
meets `[start, start + length)`. -/
theorem exists_mem_of_mem_pageStarts (hp : 0 < p) {start length x : ℕ} (hlen : 0 < length)
    (hx : x ∈ pageStarts p start length) :
    ∃ a, start ≤ a ∧ a < start + length ∧ alignDown p a = x := by
  obtain ⟨hdx, hlo, hhi⟩ := (mem_pageStarts hp).mp hx
  have hlo' := (alignDown_le_iff hp hdx).mp hlo
  have hhi' := (lt_alignUp_iff hp hdx).mp hhi
  refine ⟨max start x, by omega, by omega, ?_⟩
  obtain ⟨k, rfl⟩ := hdx
  have hk : max start (p * k) / p = k := by
    apply Nat.div_eq_of_lt_le
    · rw [mul_comm]; exact le_max_right _ _
    · rw [Nat.succ_mul, mul_comm k p]; omega
  simp only [alignDown, hk, mul_comm]

/-- The bytes of an aligned page share its page number. -/
theorem div_eq_of_mem_page (hp : 0 < p) {a x : ℕ} (ha : p ∣ a) (h1 : a ≤ x) (h2 : x < a + p) :
    x / p = a / p := by
  obtain ⟨k, rfl⟩ := ha
  have hx : x = p * k + (x - p * k) := by omega
  rw [hx, Nat.mul_add_div hp, Nat.div_eq_of_lt (by omega), Nat.add_zero, Nat.mul_div_cancel_left _ hp]

/-- The bytes sharing the page number of an aligned `a` are those of its page. -/
theorem div_eq_div_iff_mem_page (hp : 0 < p) {a x : ℕ} (ha : p ∣ a) :
    x / p = a / p ↔ a ≤ x ∧ x < a + p := by
  refine ⟨fun h => ?_, fun h => div_eq_of_mem_page hp ha h.1 h.2⟩
  have hlo := Nat.div_mul_le_self x p
  have hhi := Nat.lt_div_mul_add (a := x) hp
  rw [h, Nat.div_mul_cancel ha] at hlo hhi
  exact ⟨hlo, hhi⟩

/-- Aligned addresses are their own rounding up. -/
@[simp] theorem alignUp_of_dvd (hp : 0 < p) {a : ℕ} (ha : p ∣ a) : alignUp p a = a := by
  obtain ⟨k, rfl⟩ := ha
  have h1 : p * k + p - 1 = p * k + (p - 1) := by omega
  simp only [alignUp]
  rw [h1, Nat.mul_add_div hp, Nat.div_eq_of_lt (by omega), Nat.add_zero, Nat.mul_comm]

/-- A range from the page start of `a`, rounded up to whole pages so as to
hold `[a, a + n)`, ends where `a + n` rounds up to. -/
theorem alignDown_add_alignUp (hp : 0 < p) (a n : ℕ) :
    alignDown p a + alignUp p (a - alignDown p a + n) = alignUp p (a + n) := by
  have hdiv := Nat.mod_add_div a p
  have hmod : a - alignDown p a = a % p := by
    rw [alignDown, mul_comm]
    omega
  have hsplit : a + n + p - 1 = a % p + n + p - 1 + p * (a / p) := by omega
  rw [hmod, alignUp, alignUp, alignDown, hsplit, Nat.add_mul_div_left _ _ hp, Nat.add_mul,
    Nat.add_comm]

/-- A loop over one aligned page visits that page only. -/
theorem pageStarts_page (hp : 0 < p) {a : ℕ} (ha : p ∣ a) : pageStarts p a p = [a] := by
  have hup : alignUp p (a + p) = a + p := alignUp_of_dvd hp (Nat.dvd_add ha (Nat.dvd_refl p))
  simp [pageStarts, hup, alignDown_of_dvd ha, Nat.div_self hp]

/-- The byte `j` past `a` lies `(a % p + j) / p` pages after `a`'s page. -/
theorem add_div_eq (hp : 0 < p) (a j : ℕ) : (a + j) / p = a / p + (a % p + j) / p := by
  have h : a + j = a % p + j + p * (a / p) := by
    have := Nat.mod_add_div a p
    omega
  rw [h, Nat.add_mul_div_left _ _ hp, Nat.add_comm]

/-- A range that does not reach the end of `a`'s page stays in it. -/
theorem add_div_of_mod_add_lt {a j : ℕ} (h : a % p + j < p) : (a + j) / p = a / p := by
  rw [add_div_eq (by omega), Nat.div_eq_of_lt h, Nat.add_zero]

theorem add_mod_of_mod_add_lt {a j : ℕ} (h : a % p + j < p) : (a + j) % p = a % p + j := by
  rw [← Nat.mod_add_mod, Nat.mod_eq_of_lt h]

/-- The last byte before page `j` is the last of page `j - 1`. -/
theorem mul_sub_one_eq (hp : 0 < p) {j : ℕ} (hj : 1 ≤ j) : j * p - 1 = p - 1 + p * (j - 1) := by
  obtain ⟨i, rfl⟩ : ∃ i, j = i + 1 := ⟨j - 1, by omega⟩
  rw [Nat.add_sub_cancel, Nat.succ_mul, Nat.mul_comm i p]
  omega

theorem mul_sub_one_div (hp : 0 < p) {j : ℕ} (hj : 1 ≤ j) : (j * p - 1) / p = j - 1 := by
  rw [mul_sub_one_eq hp hj, Nat.add_mul_div_left _ _ hp, Nat.div_eq_of_lt (by omega), Nat.zero_add]

theorem mul_sub_one_mod (hp : 0 < p) {j : ℕ} (hj : 1 ≤ j) : (j * p - 1) % p = p - 1 := by
  rw [mul_sub_one_eq hp hj, Nat.add_mul_mod_self_left, Nat.mod_eq_of_lt (by omega)]

end

end QemuKvm
