import Mathlib.Data.List.Chain
import Mathlib.Data.List.Perm.Basic
import Mathlib.Logic.Function.Basic

/-!
# Doubly-linked cycles in a store

A store gives every node a successor `next` and a predecessor `prev`. A
cycle through `x` is the list `l` of the nodes after `x`: following `next`
from `x` visits `l` in order and comes back to `x`, `prev` goes the other
way, and no node repeats (`IsCycle next prev x l`). A cycle of one node is
one whose node links to itself (`isCycle_nil`).

The rules below are the ones a program that keeps such cycles in an array
needs:

* `IsCycle.congr` — the cycle is read from its own nodes only, so a store
  that agrees with the old one there keeps it (the frame rule);
* `IsCycle.rotate` — the same cycle read from any of its nodes, and
  `IsCycle.next_mem` / `IsCycle.prev_mem`: the neighbours of a node are in
  its cycle;
* `IsCycle.unlink` / `IsCycle.unlink_mem` — taking a node out by linking
  its two neighbours to each other;
* `IsCycle.splice` — putting a new node in right after `x`;
* `IsCycle.walk_eq` — the loop `for (i = next(x); i != x; i = next(i))`
  visits exactly `l` when given more steps than `l` has nodes, so it ends;
  `IsCycle.unique` follows: the nodes of a cycle are fixed by its head.
-/

namespace QemuKvm.LinkedCycle

open Function

variable {α : Type*}

/-- `b` follows `a`: `next a = b` and `prev b = a`. -/
def Linked (next prev : α → α) (a b : α) : Prop :=
  next a = b ∧ prev b = a

/-- `x` and the nodes `l` after it form one cycle. -/
structure IsCycle (next prev : α → α) (x : α) (l : List α) : Prop where
  nodup : (x :: l).Nodup
  chain : (x :: l ++ [x]).IsChain (Linked next prev)

/-- The loop `for (i = a; i != stop; i = next(i))` with at most `fuel`
tests of its condition: the nodes it visits, or `none` if `stop` is not
reached in time. -/
def walk [DecidableEq α] (next : α → α) (stop : α) : ℕ → α → Option (List α)
  | 0, _ => none
  | fuel + 1, a => if a = stop then some [] else (walk next stop fuel (next a)).map (a :: ·)

variable {next prev next' prev' : α → α} {x : α} {l : List α}

/-! ## Chains of links -/

/-- A chain of links is kept by a store that agrees with the old one on
the `next` of every node but the last and the `prev` of every node but the
first. -/
theorem isChain_linked_congr {L : List α} (h : L.IsChain (Linked next prev))
    (hn : ∀ a ∈ L.dropLast, next' a = next a) (hp : ∀ b ∈ L.tail, prev' b = prev b) :
    L.IsChain (Linked next' prev') := by
  induction L with
  | nil => exact .nil
  | cons a L ih =>
    cases L with
    | nil => exact .singleton a
    | cons b L =>
      obtain ⟨⟨hab, hba⟩, hL⟩ := List.isChain_cons_cons.mp h
      have hna : next' a = next a := hn a (by simp)
      have hpb : prev' b = prev b := hp b (by simp)
      refine List.isChain_cons_cons.mpr ⟨⟨hna.trans hab, hpb.trans hba⟩, ih hL ?_ ?_⟩
      · intro c hc
        exact hn c (by rw [List.dropLast_cons_cons]; exact List.mem_cons_of_mem a hc)
      · intro c hc
        exact hp c (List.mem_of_mem_tail hc)

/-- The loop visits the nodes of a chain that ends at `stop`. -/
theorem walk_of_isChain [DecidableEq α] {stop : α} :
    ∀ {l : List α} {fuel : ℕ}, (l ++ [stop]).IsChain (fun a b => next a = b) → stop ∉ l →
      l.length < fuel → walk next stop fuel (l.headD stop) = some l
  | [], fuel + 1, _, _, _ => by simp [walk]
  | a :: l, fuel + 1, h, hs, hlen => by
    have hne : a ≠ stop := fun he => hs (by simp [he])
    have hnext : next a = l.headD stop := by
      cases l with
      | nil => simpa using h
      | cons b l => exact (List.isChain_cons_cons.mp h).1
    have ih : walk next stop fuel (l.headD stop) = some l :=
      walk_of_isChain (List.isChain_cons.mp h).2 (fun hm => hs (List.mem_cons_of_mem a hm))
        (by simp at hlen; omega)
    simp only [List.headD_cons, walk, if_neg hne, hnext, ih, Option.map_some]

/-! ## Cycles -/

theorem isCycle_nil : IsCycle next prev x [] ↔ next x = x ∧ prev x = x := by
  constructor
  · intro h
    simpa [Linked] using h.chain
  · intro h
    exact ⟨by simp, by simpa [Linked] using h⟩

/-- The frame rule: a cycle only reads the links of its own nodes. -/
theorem IsCycle.congr (h : IsCycle next prev x l) (hn : ∀ a ∈ x :: l, next' a = next a)
    (hp : ∀ a ∈ x :: l, prev' a = prev a) : IsCycle next' prev' x l := by
  refine ⟨h.nodup, isChain_linked_congr h.chain ?_ ?_⟩
  · intro a ha
    rw [List.dropLast_concat] at ha
    exact hn a ha
  · intro a ha
    rcases List.mem_append.mp ha with ha | ha
    · exact hp a (List.mem_cons_of_mem x ha)
    · rw [List.mem_singleton.mp ha]
      exact hp x List.mem_cons_self

/-- The successor of the head is the first node after it, or the head
itself in a cycle of one. -/
theorem IsCycle.next_eq_headD (h : IsCycle next prev x l) : next x = l.headD x := by
  have hc := (List.isChain_cons.mp h.chain).1
  cases l with
  | nil => exact (by simpa [Linked] using hc : next x = x ∧ prev x = x).1
  | cons y m => exact (by simpa [Linked] using hc : next x = y ∧ prev y = x).1

theorem IsCycle.prev_last {z : α} {m : List α} (h : IsCycle next prev x (m ++ [z])) :
    prev x = z := by
  have hc := h.chain
  rw [List.cons_append, List.append_assoc, List.singleton_append, ← List.cons_append] at hc
  exact (List.isChain_append_cons_cons.mp hc).2.1.2

/-- The same cycle, read from another of its nodes. -/
theorem IsCycle.rotate {y : α} {l₁ l₂ : List α}
    (h : IsCycle next prev x (l₁ ++ y :: l₂)) :
    IsCycle next prev y (l₂ ++ x :: l₁) := by
  have hperm : (x :: (l₁ ++ y :: l₂)).Perm (y :: (l₂ ++ x :: l₁)) := by
    simpa using @List.perm_append_comm _ (x :: l₁) (y :: l₂)
  refine ⟨hperm.nodup_iff.mp h.nodup, ?_⟩
  have hc := h.chain
  simp only [List.cons_append, List.append_assoc] at hc ⊢
  rw [List.isChain_cons_split] at hc ⊢
  exact ⟨by simpa using hc.2, by simpa using hc.1⟩

/-- The neighbours of a node of a cycle are nodes of the cycle. -/
theorem IsCycle.next_mem {a : α} (h : IsCycle next prev x l) (ha : a ∈ x :: l) :
    next a ∈ x :: l := by
  rcases List.mem_cons.mp ha with rfl | ha
  · rw [h.next_eq_headD]
    cases l <;> simp
  · -- read the cycle from a
    obtain ⟨l₁, l₂, rfl⟩ := List.append_of_mem ha
    have hr := h.rotate
    rw [hr.next_eq_headD]
    cases l₂ <;> simp

theorem IsCycle.prev_mem {a : α} (h : IsCycle next prev x l) (ha : a ∈ x :: l) :
    prev a ∈ x :: l := by
  -- the predecessor of the head is the last node
  have hlast : ∀ {y : α} {k : List α}, IsCycle next prev y k → prev y ∈ y :: k := by
    intro y k hk
    rcases k.eq_nil_or_concat with rfl | ⟨k', z, rfl⟩
    · simp [(isCycle_nil.mp hk).2]
    · rw [List.concat_eq_append] at hk ⊢
      simp [hk.prev_last]
  rcases List.mem_cons.mp ha with rfl | ha
  · exact hlast h
  · obtain ⟨l₁, l₂, rfl⟩ := List.append_of_mem ha
    have hm := hlast h.rotate
    simp only [List.mem_cons, List.mem_append] at hm ⊢
    tauto

/-- Taking `x` out: its successor becomes the head of what is left. -/
theorem IsCycle.unlink [DecidableEq α] {y : α} {m : List α} (h : IsCycle next prev x (y :: m)) :
    IsCycle (update next (prev x) (next x)) (update prev (next x) (prev x)) y m := by
  have hy : next x = y := by simpa using h.next_eq_headD
  rcases m.eq_nil_or_concat with rfl | ⟨m', z, rfl⟩
  · -- a cycle of two: y is left linked to itself
    have hx : prev x = y := h.prev_last (m := [])
    exact isCycle_nil.mpr ⟨by simp [hx, hy], by simp [hx, hy]⟩
  · simp only [List.concat_eq_append] at h ⊢
    have hz : prev x = z := h.prev_last (m := y :: m')
    rw [hy, hz]
    have hnd : ((y :: m') ++ [z]).Nodup := (List.nodup_cons.mp h.nodup).2
    have hzm : z ∉ y :: m' := fun hm =>
      (List.nodup_append.mp hnd).2.2 z hm z (List.mem_singleton_self z) rfl
    have hym : y ∉ m' ++ [z] := (List.nodup_cons.mp hnd).1
    refine ⟨hnd, ?_⟩
    show (((y :: m') ++ [z]) ++ [y]).IsChain _
    refine List.IsChain.append ?_ (.singleton y) ?_
    · -- the links inside y .. z are those of the old cycle
      have hc : ((y :: m') ++ [z]).IsChain (Linked next prev) :=
        (List.isChain_cons.mp h.chain).2.left_of_append
      refine isChain_linked_congr hc (fun a ha => ?_) (fun b hb => ?_)
      · rw [List.dropLast_concat] at ha
        exact update_of_ne (fun he : a = z => hzm (he ▸ ha)) _ _
      · exact update_of_ne (fun he : b = y => hym (he ▸ hb)) _ _
    · -- and z now links back to y
      intro a ha b hb
      simp only [List.getLast?_concat, Option.mem_def, Option.some.injEq, List.head?_cons] at ha hb
      subst ha hb
      exact ⟨by simp, by simp⟩

/-- Taking out any node `t` other than the head. -/
theorem IsCycle.unlink_mem [DecidableEq α] {t : α} {l₁ l₂ : List α}
    (h : IsCycle next prev x (l₁ ++ t :: l₂)) :
    IsCycle (update next (prev t) (next t)) (update prev (next t) (prev t)) x (l₁ ++ l₂) := by
  -- read the cycle from t, take t out, and read what is left from x again
  have ht := h.rotate
  cases l₂ with
  | nil => simpa using ht.unlink
  | cons y l₂ => simpa using (ht.unlink (m := l₂ ++ x :: l₁)).rotate

/-- Putting `d` in right after `x`. -/
theorem IsCycle.splice [DecidableEq α] {d : α} (h : IsCycle next prev x l) (hd : d ∉ x :: l) :
    IsCycle (update (update next d (next x)) x d) (update (update prev d x) (next x) d) x
      (d :: l) := by
  have hnx := h.next_eq_headD
  have hxl : x ∉ l := (List.nodup_cons.mp h.nodup).1
  have hdx : d ≠ x := fun he => hd (he ▸ List.mem_cons_self)
  have hdl : d ∉ l := fun hm => hd (List.mem_cons_of_mem x hm)
  have hdn : d ≠ next x := by
    rw [hnx]
    cases l with
    | nil => exact hdx
    | cons y m => exact fun he => hdl (he ▸ List.mem_cons_self)
  -- no node after the first of l is the old successor of x
  have htail : ∀ b ∈ (l ++ [x]).tail, b ≠ next x := by
    rw [hnx]
    cases l with
    | nil => simp
    | cons y m =>
      have hy : y ∉ m ++ [x] := by
        have := h.nodup
        simp only [List.nodup_cons, List.mem_cons, List.mem_append] at this ⊢
        tauto
      intro b hb he
      rw [List.headD_cons] at he
      exact hy (he ▸ hb)
  refine ⟨?_, ?_⟩
  · exact List.nodup_cons.mpr
      ⟨by simp [Ne.symm hdx, hxl], List.nodup_cons.mpr ⟨hdl, h.nodup.of_cons⟩⟩
  show (x :: d :: (l ++ [x])).IsChain _
  refine List.isChain_cons_cons.mpr
    ⟨⟨by simp, by simp [hdn]⟩, List.isChain_cons.mpr ⟨?_, ?_⟩⟩
  · -- d links to the old successor of x
    intro b hb
    have hb' : b = next x := by
      rw [hnx]; cases l <;> simp_all
    subst hb'
    exact ⟨by simp [hdx], by simp⟩
  · -- the rest of the cycle keeps its links
    refine isChain_linked_congr (List.isChain_cons.mp h.chain).2 (fun a ha => ?_) (fun b hb => ?_)
    · rw [List.dropLast_concat] at ha
      have hax : a ≠ x := fun he => hxl (he ▸ ha)
      have had : a ≠ d := fun he => hdl (he ▸ ha)
      simp [hax, had]
    · have hbd : b ≠ d := by
        intro he
        subst he
        rcases List.mem_append.mp (List.mem_of_mem_tail hb) with hm | hm
        · exact hdl hm
        · exact hdx (List.mem_singleton.mp hm)
      simp [htail b hb, hbd]

/-- The loop from `next x` back to `x` visits the cycle. -/
theorem IsCycle.walk_eq [DecidableEq α] {fuel : ℕ} (h : IsCycle next prev x l)
    (hfuel : l.length < fuel) : walk next x fuel (next x) = some l := by
  have hc : (l ++ [x]).IsChain (fun a b => next a = b) :=
    (List.isChain_cons.mp h.chain).2.imp fun _ _ hab => hab.1
  rw [h.next_eq_headD]
  exact walk_of_isChain hc (List.nodup_cons.mp h.nodup).1 hfuel

/-- The nodes of a cycle are fixed by its head. -/
theorem IsCycle.unique [DecidableEq α] {l' : List α} (h : IsCycle next prev x l)
    (h' : IsCycle next prev x l') : l = l' := by
  have hw : walk next x (l.length + l'.length + 1) (next x) = some l := h.walk_eq (by omega)
  rw [h'.walk_eq (by omega)] at hw
  exact (Option.some.inj hw).symm

end QemuKvm.LinkedCycle
