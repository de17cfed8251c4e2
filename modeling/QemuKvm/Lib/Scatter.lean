import Mathlib.Data.List.Nodup
import Mathlib.Data.List.Range
import Mathlib.Logic.Function.Basic

/-!
# Stores through a list of addresses

A memory is a function from addresses to cells. `storeList m as vs` stores
`vs[i]` at `as[i]`, first to last. C's `memcpy` and `memset` are the stores
to a run of consecutive addresses, `List.range' d len`.

A scatter/gather vector is read and written through the list of addresses
it covers, so what a vector helper does to memory comes down to three
facts about `storeList`:

* `storeList_append` — two stores one after the other are one store to the
  appended address list;
* `storeList_of_not_mem` — a store leaves every address off its list alone;
* `map_storeList` — on a duplicate-free list, reading the list back gives
  what was stored.

`map_storeList_infix` puts them together: a store to a stretch of a
duplicate-free list changes exactly that stretch. For a store to one run of
addresses, `memcpy_apply` and `memset_apply` say cell by cell what the two C
functions leave.
-/

namespace QemuKvm

section Store

variable {α : Type*}

/-- Store `vs[i]` at `as[i]` for each `i`, first to last; the shorter of the
two lists decides how many stores are made. -/
def storeList (m : ℕ → α) : List ℕ → List α → ℕ → α
  | a :: as, v :: vs => storeList (Function.update m a v) as vs
  | _, _ => m

@[simp] theorem storeList_nil (m : ℕ → α) (vs : List α) : storeList m [] vs = m := rfl

@[simp] theorem storeList_cons (m : ℕ → α) (a : ℕ) (as : List ℕ) (v : α) (vs : List α) :
    storeList m (a :: as) (v :: vs) = storeList (Function.update m a v) as vs := rfl

theorem storeList_append (m : ℕ → α) {as bs : List ℕ} {vs ws : List α}
    (h : as.length = vs.length) :
    storeList m (as ++ bs) (vs ++ ws) = storeList (storeList m as vs) bs ws := by
  induction as generalizing m vs with
  | nil =>
    cases vs with
    | nil => rfl
    | cons => simp at h
  | cons a as ih =>
    cases vs with
    | nil => simp at h
    | cons v vs => exact ih _ (by simpa using h)

theorem storeList_of_not_mem (m : ℕ → α) {as : List ℕ} {vs : List α} {a : ℕ}
    (ha : a ∉ as) : storeList m as vs a = m a := by
  induction as generalizing m vs with
  | nil => rfl
  | cons b as ih =>
    cases vs with
    | nil => rfl
    | cons v vs =>
      have hab : a ≠ b := fun h => ha (h ▸ List.mem_cons_self)
      rw [storeList_cons, ih _ (fun h => ha (List.mem_cons_of_mem _ h)),
        Function.update_of_ne hab]

/-- Reading a duplicate-free address list back after storing to it. -/
theorem map_storeList (m : ℕ → α) {as : List ℕ} {vs : List α} (hnd : as.Nodup)
    (hlen : as.length = vs.length) : as.map (storeList m as vs) = vs := by
  induction as generalizing m vs with
  | nil => cases vs with
    | nil => rfl
    | cons => simp at hlen
  | cons a as ih =>
    cases vs with
    | nil => simp at hlen
    | cons v vs =>
      obtain ⟨ha, hnd⟩ := List.nodup_cons.1 hnd
      have hhead : storeList (Function.update m a v) as vs a = v := by
        rw [storeList_of_not_mem _ ha, Function.update_self]
      simp only [List.map_cons, storeList_cons, hhead, ih _ hnd (by simpa using hlen)]

theorem map_storeList_of_disjoint (m : ℕ → α) {as bs : List ℕ} {vs : List α}
    (h : ∀ b ∈ bs, b ∉ as) : bs.map (storeList m as vs) = bs.map m :=
  List.map_congr_left fun b hb => storeList_of_not_mem m (h b hb)

/-- A store to a stretch `l₂` of a duplicate-free address list changes that
stretch to what was stored and leaves the rest as it was. -/
theorem map_storeList_infix (m : ℕ → α) {l₁ l₂ l₃ : List ℕ} {vs : List α}
    (hnd : (l₁ ++ l₂ ++ l₃).Nodup) (hlen : l₂.length = vs.length) :
    (l₁ ++ l₂ ++ l₃).map (storeList m l₂ vs) = l₁.map m ++ vs ++ l₃.map m := by
  obtain ⟨hnd₁₂, hnd₃, h₁₂₃⟩ := List.nodup_append.1 hnd
  obtain ⟨-, hnd₂, h₁₂⟩ := List.nodup_append.1 hnd₁₂
  have hoff₁ : ∀ b ∈ l₁, b ∉ l₂ := fun b hb hb₂ => h₁₂ b hb b hb₂ rfl
  have hoff₃ : ∀ b ∈ l₃, b ∉ l₂ :=
    fun b hb hb₂ => h₁₂₃ b (List.mem_append_right _ hb₂) b hb rfl
  simp only [List.map_append, map_storeList_of_disjoint m hoff₁, map_storeList m hnd₂ hlen,
    map_storeList_of_disjoint m hoff₃]

/-- C's `memcpy (dst + d, src + s, len)`, for a destination and a source
that are different objects: `len` cells copied one by one. -/
def memcpy (dst : ℕ → α) (d : ℕ) (src : ℕ → α) (s len : ℕ) : ℕ → α :=
  storeList dst (List.range' d len) ((List.range' s len).map src)

/-- C's `memset (dst + d, c, len)`. -/
def memset (dst : ℕ → α) (d : ℕ) (c : α) (len : ℕ) : ℕ → α :=
  storeList dst (List.range' d len) (List.replicate len c)

theorem take_range' (s k n : ℕ) : (List.range' s n).take k = List.range' s (min k n) := by
  by_cases h : k ≤ n
  · have hsplit := @List.range'_append s k (n - k) 1
    simp only [Nat.one_mul, Nat.add_sub_cancel' h] at hsplit
    rw [← hsplit, List.take_left' List.length_range', Nat.min_eq_left h]
  · rw [List.take_of_length_le (by simp; omega), Nat.min_eq_right (by omega)]

/-- Consecutive runs of addresses join into one. -/
theorem range'_append_one (s m n : ℕ) :
    List.range' s m ++ List.range' (s + m) n = List.range' s (m + n) := by
  simpa only [Nat.one_mul] using @List.range'_append s m n 1

/-- A store to a run of addresses, cell by cell: the run from `d` holds the
stored values, every other address what it held. -/
theorem storeList_range'_apply (m : ℕ → α) (d : ℕ) (vs : List α) (x : ℕ) :
    storeList m (List.range' d vs.length) vs x = if d ≤ x then vs.getD (x - d) (m x) else m x := by
  induction vs generalizing m d with
  | nil => simp
  | cons v vs ih =>
    rw [List.length_cons, List.range'_succ, storeList_cons, ih]
    -- below the run, at its first cell, and past it
    rcases Nat.lt_trichotomy x d with hlt | rfl | hgt
    · simp [Nat.not_le.2 hlt, Nat.not_le.2 (Nat.lt_succ_of_lt hlt),
        Function.update_of_ne (Nat.ne_of_lt hlt)]
    · simp
    · have hx : x - d = x - (d + 1) + 1 := by omega
      simp [Nat.succ_le_of_lt hgt, hgt.le, hx, Function.update_of_ne (Nat.ne_of_gt hgt)]

theorem memcpy_apply (dst : ℕ → α) (d : ℕ) (src : ℕ → α) (s len x : ℕ) :
    memcpy dst d src s len x = if d ≤ x ∧ x < d + len then src (s + (x - d)) else dst x := by
  have h := storeList_range'_apply dst d ((List.range' s len).map src) x
  rw [List.length_map, List.length_range'] at h
  rw [memcpy, h]
  by_cases hd : d ≤ x
  · by_cases hlt : x < d + len
    · rw [if_pos hd, if_pos ⟨hd, hlt⟩]
      simp [List.getD_eq_getElem?_getD, show x - d < len by omega]
    · rw [if_pos hd, if_neg fun h => hlt h.2]
      simp [List.getD_eq_getElem?_getD, show ¬ x - d < len by omega]
  · rw [if_neg hd, if_neg fun h => hd h.1]

theorem memset_apply (dst : ℕ → α) (d : ℕ) (c : α) (len x : ℕ) :
    memset dst d c len x = if d ≤ x ∧ x < d + len then c else dst x := by
  have h := storeList_range'_apply dst d (List.replicate len c) x
  rw [List.length_replicate] at h
  rw [memset, h]
  by_cases hd : d ≤ x
  · by_cases hlt : x < d + len
    · rw [if_pos hd, if_pos ⟨hd, hlt⟩]
      simp [show x - d < len by omega]
    · rw [if_pos hd, if_neg fun h => hlt h.2]
      simp [show ¬ x - d < len by omega]
  · rw [if_neg hd, if_neg fun h => hd h.1]

end Store

end QemuKvm
