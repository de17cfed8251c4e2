import Mathlib.Data.List.Nodup
import Mathlib.Logic.Function.Basic

/-!
# Singly linked lists in a store

A store gives every node a link `next : α → Option α`, `none` for `NULL`.
`IsSeg next p l q` says that following the links from the link `p` visits
the nodes `l` in order and arrives at the link `q`. A list that ends in
`NULL` is `IsSeg next p l none`; a circular list that closes on a node `x`
(its sentinel) is `IsSeg next (next x) l (some x)`.

The rules below are the ones a program that keeps such lists inside the
records of an array needs:

* `IsSeg.congr` — a segment is read from its own nodes only, so a store
  that agrees with the old one there keeps it (the frame rule);
* `isSeg_append` — segments compose and split;
* `IsSeg.unlink_after` — taking a node out by pointing the link of the node
  before it at its successor;
* `IsSeg.rotate` — a circular list read from another of its nodes, and
  `IsSeg.unlink_cycle`: a node taken out of a circular list;
* `IsSeg.unique` — the nodes of a segment are fixed by its ends when the
  end is not one of them;
* `findLink_of_isSeg`, `findNode_of_isSeg` — the loops that search a list
  for the first node with a property end, given more rounds than there are
  nodes before it, at the location of the link to that node, or at the
  node; `findLink_cycle_self` — the search of a circular list for a node,
  started from that node's own link, goes round to the node before it;
  `IsSeg.findLink_unlink`: the walk that unlinks the first node with a
  property.

`Buckets` is a hash table of such lists: the list of every key holds, once
each, the nodes of a set with that key. Its rules are the frame rule
(`Buckets.congr`) and the frame rule with one list replaced
(`Buckets.replace`), a push at the head of a list (`Buckets.push`) and the
walk that unlinks a node (`Buckets.remove`).
-/

namespace QemuKvm.HeapList

open Function

variable {α β : Type*}

/-- Following `next` from the link `p` visits the nodes `l` in order and
arrives at the link `q`. -/
def IsSeg (next : α → Option α) : Option α → List α → Option α → Prop
  | p, [], q => p = q
  | p, a :: l, q => p = some a ∧ IsSeg next (next a) l q

/-- The loop `for (;;) { x = *ptb; if (P(x)) break; ptb = &x->next; }` run
from the location `ℓ`, which holds the link `p`, for at most `fuel` rounds:
the location of the link to the first node with `P`, and that node; `loc a`
is the location of `a`'s own link. `none` when the loop reads a `NULL` link
(the next round would dereference it) or runs out of rounds. -/
def findLink (next : α → Option α) (P : α → Bool) (loc : α → β) :
    ℕ → β → Option α → Option (β × α)
  | 0, _, _ => none
  | _ + 1, _, none => none
  | fuel + 1, ℓ, some a => if P a then some (ℓ, a) else findLink next P loc fuel (loc a) (next a)

/-- The loop `for (;;) { if (P(x)) break; x = x->next; }` from the link `p`,
for at most `fuel` rounds: the first node with `P`. -/
def findNode (next : α → Option α) (P : α → Bool) : ℕ → Option α → Option α
  | 0, _ => none
  | _ + 1, none => none
  | fuel + 1, some a => if P a then some a else findNode next P fuel (next a)

variable {next next' : α → Option α} {p q r : Option α} {a b x y : α} {l l₁ l₂ : List α}

@[simp] theorem isSeg_nil : IsSeg next p [] q ↔ p = q := Iff.rfl

@[simp] theorem isSeg_cons : IsSeg next p (a :: l) q ↔ p = some a ∧ IsSeg next (next a) l q :=
  Iff.rfl

theorem isSeg_append : IsSeg next p (l₁ ++ l₂) q ↔ ∃ r, IsSeg next p l₁ r ∧ IsSeg next r l₂ q := by
  induction l₁ generalizing p with
  | nil => simp
  | cons a l₁ ih =>
    simp only [List.cons_append, isSeg_cons, ih]
    constructor
    · rintro ⟨rfl, r, h₁, h₂⟩
      exact ⟨r, ⟨rfl, h₁⟩, h₂⟩
    · rintro ⟨r, ⟨rfl, h₁⟩, h₂⟩
      exact ⟨rfl, r, h₁, h₂⟩

theorem IsSeg.append (h₁ : IsSeg next p l₁ r) (h₂ : IsSeg next r l₂ q) :
    IsSeg next p (l₁ ++ l₂) q :=
  isSeg_append.mpr ⟨r, h₁, h₂⟩

/-- The last node of a segment links to its end. -/
theorem isSeg_concat : IsSeg next p (l ++ [a]) q ↔ IsSeg next p l (some a) ∧ next a = q := by
  rw [isSeg_append]
  constructor
  · rintro ⟨r, h₁, rfl, h₂⟩
    exact ⟨h₁, h₂⟩
  · rintro ⟨h₁, h₂⟩
    exact ⟨some a, h₁, rfl, h₂⟩

/-- The frame rule: a segment is kept by a store that agrees with the old
one on the links of its nodes. -/
theorem IsSeg.congr (h : IsSeg next p l q) (hn : ∀ a ∈ l, next' a = next a) : IsSeg next' p l q := by
  induction l generalizing p with
  | nil => exact h
  | cons a l ih =>
    obtain ⟨rfl, h⟩ := h
    refine ⟨rfl, ?_⟩
    rw [hn a List.mem_cons_self]
    exact ih h fun b hb => hn b (List.mem_cons_of_mem a hb)

/-- A segment is determined by where it starts and how many nodes it has. -/
theorem IsSeg.eq_of_length_eq {l' : List α} {q' : Option α} (h : IsSeg next p l q)
    (h' : IsSeg next p l' q') (hlen : l.length = l'.length) : l = l' ∧ q = q' := by
  induction l generalizing p l' with
  | nil =>
    cases l' with
    | nil => exact ⟨rfl, h.symm.trans h'⟩
    | cons _ _ => cases hlen
  | cons a l ih =>
    cases l' with
    | nil => cases hlen
    | cons a' l' =>
      obtain ⟨rfl, h⟩ := h
      obtain ⟨ha, h'⟩ := h'
      cases ha
      obtain ⟨rfl, rfl⟩ := ih h h' (Nat.succ.inj hlen)
      exact ⟨rfl, rfl⟩

/-- Taking out the node `a` that follows `b`: `b` now links where `a` did. -/
theorem IsSeg.unlink_after [DecidableEq α] (h : IsSeg next p (l₁ ++ b :: a :: l₂) q)
    (hnd : (l₁ ++ b :: a :: l₂).Nodup) : IsSeg (update next b (next a)) p (l₁ ++ b :: l₂) q := by
  obtain ⟨r, h₁, rfl, -, h₂⟩ := isSeg_append.mp h
  have hb₁ : b ∉ l₁ := fun hb₁ => (List.nodup_append.mp hnd).2.2 b hb₁ b List.mem_cons_self rfl
  have hb₂ : b ∉ l₂ := by
    have := (List.nodup_append.mp hnd).2.1
    simp only [List.nodup_cons, List.mem_cons, not_or] at this
    exact this.1.2
  have hne₁ : ∀ c ∈ l₁, c ≠ b := by
    rintro c hc rfl
    exact hb₁ hc
  have hne₂ : ∀ c ∈ l₂, c ≠ b := by
    rintro c hc rfl
    exact hb₂ hc
  refine (h₁.congr fun c hc => update_of_ne (hne₁ c hc) _ _).append ⟨rfl, ?_⟩
  rw [update_self]
  exact h₂.congr fun c hc => update_of_ne (hne₂ c hc) _ _

/-- The nodes of a segment are fixed by its ends when the end is not one of
them. -/
theorem IsSeg.unique {l' : List α} (h : IsSeg next p l q) (h' : IsSeg next p l' q)
    (hq : ∀ a ∈ l, q ≠ some a) (hq' : ∀ a ∈ l', q ≠ some a) : l = l' := by
  induction l generalizing p l' with
  | nil =>
    cases l' with
    | nil => rfl
    | cons a' l' =>
      obtain ⟨rfl, -⟩ := h'
      exact absurd h.symm (hq' a' List.mem_cons_self)
  | cons a l ih =>
    obtain ⟨rfl, h⟩ := h
    cases l' with
    | nil => exact absurd (show some a = q from h').symm (hq a List.mem_cons_self)
    | cons a' l' =>
      obtain ⟨ha, h'⟩ := h'
      cases ha
      rw [ih h h' (fun b hb => hq b (List.mem_cons_of_mem a hb))
        (fun b hb => hq' b (List.mem_cons_of_mem a hb))]

/-- A segment that ends at a node starts at one, and every node of it links
somewhere. -/
theorem IsSeg.ne_none (h : IsSeg next p l (some x)) : p ≠ none := by
  cases l with
  | nil =>
    rw [isSeg_nil.mp h]
    simp
  | cons a l =>
    rw [h.1]
    simp

theorem IsSeg.next_ne_none (h : IsSeg next p l (some x)) (ha : a ∈ l) : next a ≠ none := by
  induction l generalizing p with
  | nil => cases ha
  | cons b l ih =>
    obtain ⟨rfl, h⟩ := h
    rcases List.mem_cons.mp ha with rfl | ha
    · exact h.ne_none
    · exact ih h ha

/-- A circular list through `x` read from another of its nodes `y`. -/
theorem IsSeg.rotate (h : IsSeg next (next x) (l₁ ++ y :: l₂) (some x)) :
    IsSeg next (next y) (l₂ ++ x :: l₁) (some y) := by
  obtain ⟨r, h₁, rfl, h₂⟩ := isSeg_append.mp h
  exact h₂.append ⟨rfl, h₁⟩

/-- Taking the node `a` out of a circular list through `x`: the node before
it, `x` itself if `a` comes first, now links where `a` did. -/
theorem IsSeg.unlink_cycle [DecidableEq α] (h : IsSeg next (next x) (l₁ ++ a :: l₂) (some x))
    (hnd : (x :: (l₁ ++ a :: l₂)).Nodup) :
    IsSeg (update next (l₁.getLast?.getD x) (next a))
      (update next (l₁.getLast?.getD x) (next a) x) (l₁ ++ l₂) (some x) := by
  rw [List.nodup_cons] at hnd
  obtain ⟨hx, hnd⟩ := hnd
  rcases List.eq_nil_or_concat' l₁ with rfl | ⟨l₀, b, rfl⟩
  · -- `a` comes first: `x` links past it
    obtain ⟨-, h₂⟩ := h
    have hne : ∀ c ∈ l₂, c ≠ x := by
      rintro c hc rfl
      exact hx (by simp [hc])
    simp only [List.getLast?_nil, Option.getD_none, update_self, List.nil_append]
    exact h₂.congr fun c hc => update_of_ne (hne c hc) _ _
  · have hbx : b ≠ x := by
      rintro rfl
      exact hx (by simp)
    have hℓ : (l₀ ++ [b]).getLast?.getD x = b := by simp
    rw [hℓ, update_of_ne hbx.symm]
    have h' : IsSeg next (next x) (l₀ ++ b :: a :: l₂) (some x) := by simpa using h
    have hnd' : (l₀ ++ b :: a :: l₂).Nodup := by simpa using hnd
    simpa using h'.unlink_after hnd'

/-! ## The search loops -/

section Search

variable {P : α → Bool} {loc : α → β} {ℓ : β} {fuel : ℕ}

/-- The search for the link to the first node with `P` ends, with enough
rounds, at the location of the link of the node before it, or at its own
start if that node comes first. -/
theorem findLink_of_isSeg (h : IsSeg next p (l₁ ++ a :: l₂) q) (ha : P a = true)
    (hl₁ : ∀ b ∈ l₁, P b = false) (hfuel : l₁.length < fuel) :
    findLink next P loc fuel ℓ p = some ((l₁.getLast?.map loc).getD ℓ, a) := by
  induction l₁ generalizing p ℓ fuel with
  | nil =>
    obtain ⟨f, rfl⟩ := Nat.exists_eq_add_of_lt hfuel
    obtain ⟨rfl, -⟩ := h
    simp [findLink, ha]
  | cons b l₁ ih =>
    obtain ⟨f, rfl⟩ : ∃ f, fuel = f + 1 := ⟨fuel - 1, by omega⟩
    obtain ⟨rfl, h⟩ := h
    have hb : P b = false := hl₁ b List.mem_cons_self
    have hrest : findLink next P loc f (loc b) (next b) =
        some ((l₁.getLast?.map loc).getD (loc b), a) :=
      ih h (fun c hc => hl₁ c (List.mem_cons_of_mem b hc)) (by simp at hfuel; omega)
    simp only [findLink, hb, Bool.false_eq_true, if_false, hrest, List.getLast?_cons]
    cases l₁.getLast? <;> rfl

/-- The search of a circular list through `x` for its node `a`, started at
`a`'s own link, goes round through `x` to the node before `a`. -/
theorem findLink_cycle_self [DecidableEq α] (h : IsSeg next (next x) (l₁ ++ a :: l₂) (some x))
    (hnd : (x :: (l₁ ++ a :: l₂)).Nodup) (hfuel : l₁.length + l₂.length + 1 < fuel) :
    findLink next (· = a) id fuel a (next a) = some (l₁.getLast?.getD x, a) := by
  have hrot : IsSeg next (next a) ((l₂ ++ x :: l₁) ++ a :: []) (next a) :=
    isSeg_concat.mpr ⟨h.rotate, rfl⟩
  have hne : ∀ b ∈ l₂ ++ x :: l₁, decide (b = a) = false := by
    intro b hb
    rw [decide_eq_false_iff_not]
    rintro rfl
    rw [List.nodup_cons] at hnd
    have hnd₂ := List.nodup_append.mp hnd.2
    simp only [List.mem_append, List.mem_cons] at hb
    rcases hb with hb | rfl | hb
    · exact (List.nodup_cons.mp hnd₂.2.1).1 hb
    · exact hnd.1 (by simp)
    · exact hnd₂.2.2 b hb b List.mem_cons_self rfl
  rw [findLink_of_isSeg hrot (by simp) hne (by simp; omega)]
  simp only [List.getLast?_append, List.getLast?_cons]
  cases l₁.getLast? <;> rfl

/-- The walk of a list that stops at the first node with `P` and unlinks it
through the location it came from: with more rounds than the list has nodes
it finds that node `a`, and the list without `a` is read either from `next a`
(the head was `a`) or, with the node `b` before `a` linking past it, from the
same head. -/
theorem IsSeg.findLink_unlink [DecidableEq α] (h : IsSeg next p l q) (hnd : l.Nodup)
    (hP : ∃ a ∈ l, P a = true) (hfuel : l.length ≤ fuel) :
    ∃ a ∈ l, P a = true ∧
      ((findLink next P some fuel none p = some (none, a) ∧ IsSeg next (next a) (l.erase a) q) ∨
        ∃ b ∈ l, findLink next P some fuel none p = some (some b, a) ∧
          IsSeg (update next b (next a)) p (l.erase a) q) := by
  obtain ⟨a₀, ha₀, hPa₀⟩ := hP
  obtain ⟨a, l₁, l₂, hl₁, hPa, rfl, -⟩ := List.exists_of_eraseP ha₀ hPa₀
  have hl₁' : ∀ b ∈ l₁, P b = false := fun b hb => by simpa using hl₁ b hb
  have ha₁ : a ∉ l₁ := fun ha => by simp [hl₁' a ha] at hPa
  have herase : (l₁ ++ a :: l₂).erase a = l₁ ++ l₂ := by simp [List.erase_append_right _ ha₁]
  have hlen : l₁.length < fuel := by
    simp only [List.length_append, List.length_cons] at hfuel
    omega
  have hfind : findLink next P some fuel none p = some ((l₁.getLast?.map some).getD none, a) :=
    findLink_of_isSeg h hPa hl₁' hlen
  refine ⟨a, by simp, hPa, ?_⟩
  rw [herase]
  rcases List.eq_nil_or_concat' l₁ with rfl | ⟨l₀, b, rfl⟩
  · -- `a` is the head: the head moves past it
    obtain ⟨rfl, h₂⟩ := h
    exact .inl ⟨by simpa using hfind, h₂⟩
  · have h' : IsSeg next p (l₀ ++ b :: a :: l₂) q := by simpa using h
    have hnd' : (l₀ ++ b :: a :: l₂).Nodup := by simpa using hnd
    refine .inr ⟨b, by simp, by simpa using hfind, ?_⟩
    simpa using h'.unlink_after hnd'

theorem findNode_of_isSeg (h : IsSeg next p (l₁ ++ a :: l₂) q) (ha : P a = true)
    (hl₁ : ∀ b ∈ l₁, P b = false) (hfuel : l₁.length < fuel) : findNode next P fuel p = some a := by
  induction l₁ generalizing p fuel with
  | nil =>
    obtain ⟨f, rfl⟩ := Nat.exists_eq_add_of_lt hfuel
    obtain ⟨rfl, -⟩ := h
    simp [findNode, ha]
  | cons b l₁ ih =>
    obtain ⟨f, rfl⟩ : ∃ f, fuel = f + 1 := ⟨fuel - 1, by omega⟩
    obtain ⟨rfl, h⟩ := h
    have hb : P b = false := hl₁ b List.mem_cons_self
    simp only [findNode, hb, Bool.false_eq_true, if_false]
    exact ih h (fun c hc => hl₁ c (List.mem_cons_of_mem b hc)) (by simp at hfuel; omega)

end Search

/-! ## Hash tables of lists -/

section Buckets

variable {κ : Type*} {head head' : κ → Option α} {key key' : α → κ} {N N' : α → Prop}

/-- The list from `head k` holds, once each, the nodes of `N` with key `k`. -/
def Buckets (next : α → Option α) (head : κ → Option α) (key : α → κ) (N : α → Prop) : Prop :=
  ∀ k, ∃ l, IsSeg next (head k) l none ∧ l.Nodup ∧ ∀ a, a ∈ l ↔ N a ∧ key a = k

/-- The frame rule with the list of `k₀` replaced: the other lists keep
their nodes where their heads and their nodes' links and keys stay, and
the nodes with other keys keep their membership. -/
theorem Buckets.replace (h : Buckets next head key N) (k₀ : κ) (l₀ : List α)
    (hh : ∀ k ≠ k₀, head' k = head k) (hl : ∀ a, N a → key a ≠ k₀ → next' a = next a)
    (hk : ∀ a, N a → key' a = key a) (hN : ∀ a, key' a ≠ k₀ → (N' a ↔ N a))
    (hseg : IsSeg next' (head' k₀) l₀ none) (hnd : l₀.Nodup)
    (hmem : ∀ a, a ∈ l₀ ↔ N' a ∧ key' a = k₀) : Buckets next' head' key' N' := by
  intro k
  by_cases hk₀ : k = k₀
  · subst hk₀
    exact ⟨l₀, hseg, hnd, hmem⟩
  obtain ⟨l, hsegk, hndk, hmemk⟩ := h k
  have hnodes : ∀ a ∈ l, N a ∧ key a = k := fun a ha => (hmemk a).mp ha
  refine ⟨l, ?_, hndk, fun a => ?_⟩
  · rw [hh k hk₀]
    refine hsegk.congr fun a ha => hl a (hnodes a ha).1 ?_
    rw [(hnodes a ha).2]
    exact hk₀
  · rw [hmemk a]
    constructor
    · rintro ⟨hNa, rfl⟩
      have hka := hk a hNa
      exact ⟨(hN a (hka ▸ hk₀)).mpr hNa, hka⟩
    · rintro ⟨hNa', rfl⟩
      have hNa := (hN a hk₀).mp hNa'
      exact ⟨hNa, (hk a hNa).symm⟩

/-- The frame rule: the table is read from the heads and from the links and
keys of its nodes. -/
theorem Buckets.congr (h : Buckets next head key N) (hl : ∀ a, N a → next' a = next a)
    (hk : ∀ a, N a → key' a = key a) : Buckets next' head key' N := by
  intro k
  obtain ⟨l, hseg, hnd, hmem⟩ := h k
  refine ⟨l, hseg.congr fun a ha => hl a ((hmem a).mp ha).1, hnd, fun a => ?_⟩
  rw [hmem a]
  constructor
  · rintro ⟨hNa, rfl⟩
    exact ⟨hNa, hk a hNa⟩
  · rintro ⟨hNa, rfl⟩
    exact ⟨hNa, (hk a hNa).symm⟩

/-- A node not in the table pushed at the head of the list of its key. -/
theorem Buckets.push [DecidableEq κ] (h : Buckets next head key N) (ha : ¬N a) (k : κ)
    (hl : ∀ b, N b → next' b = next b) (hla : next' a = head k)
    (hk : ∀ b, N b → key' b = key b) (hka : key' a = k) :
    Buckets next' (update head k (some a)) key' fun b => N b ∨ b = a := by
  obtain ⟨l, hseg, hnd, hmem⟩ := h k
  have hnodes : ∀ b ∈ l, N b := fun b hb => ((hmem b).mp hb).1
  have hal : a ∉ l := fun hal => ha (hnodes a hal)
  refine h.replace k (a :: l) (fun k' hk' => update_of_ne hk' _ _) (fun b hb _ => hl b hb) hk
    (fun b hb => ?_) ?_ (List.nodup_cons.mpr ⟨hal, hnd⟩) fun b => ?_
  · have hba : b ≠ a := by
      rintro rfl
      exact hb hka
    simp [hba]
  · refine ⟨update_self .., ?_⟩
    rw [hla]
    exact hseg.congr fun b hb => hl b (hnodes b hb)
  · by_cases hba : b = a
    · subst hba
      simp [hka]
    · simp only [List.mem_cons, hba, or_false, false_or, hmem b]
      constructor
      · rintro ⟨hNb, rfl⟩
        exact ⟨hNb, hk b hNb⟩
      · rintro ⟨hNb, hkb⟩
        exact ⟨hNb, (hk b hNb).symm.trans hkb⟩

/-- The walk of the list of `key a₀` that unlinks its first node with `P`,
given as many rounds as a list of the table can have nodes: it finds a node
`a` of that list, and the table without `a` has either the list's head or
the link of the node `b` before `a` pointed past it. -/
theorem Buckets.remove [DecidableEq α] [DecidableEq κ] {a₀ : α} {P : α → Bool} {fuel : ℕ}
    (h : Buckets next head key N) (ha₀ : N a₀) (hPa₀ : P a₀ = true)
    (hfuel : ∀ l : List α, l.Nodup → (∀ a ∈ l, N a) → l.length ≤ fuel) :
    ∃ a, N a ∧ P a = true ∧ key a = key a₀ ∧
      ((findLink next P some fuel none (head (key a₀)) = some (none, a) ∧
          Buckets next (update head (key a₀) (next a)) key fun b => N b ∧ b ≠ a) ∨
        ∃ b, N b ∧ key b = key a₀ ∧ findLink next P some fuel none (head (key a₀)) = some (some b, a) ∧
          Buckets (update next b (next a)) head key fun c => N c ∧ c ≠ a) := by
  obtain ⟨l, hseg, hnd, hmem⟩ := h (key a₀)
  have hnodes : ∀ a ∈ l, N a ∧ key a = key a₀ := fun a ha => (hmem a).mp ha
  obtain ⟨a, hal, hPa, hcase⟩ := hseg.findLink_unlink hnd ⟨a₀, (hmem a₀).mpr ⟨ha₀, rfl⟩, hPa₀⟩
    (hfuel l hnd fun a ha => (hnodes a ha).1)
  obtain ⟨hNa, hka⟩ := hnodes a hal
  -- the list of `key a₀` without `a`, and the nodes with other keys, which stay
  have hmem' : ∀ c, c ∈ l.erase a ↔ (N c ∧ c ≠ a) ∧ key c = key a₀ := by
    intro c
    rw [hnd.mem_erase_iff, hmem c]
    tauto
  have hN : ∀ c, key c ≠ key a₀ → ((N c ∧ c ≠ a) ↔ N c) := by
    intro c hc
    refine and_iff_left ?_
    rintro rfl
    exact hc hka
  refine ⟨a, hNa, hPa, hka, ?_⟩
  rcases hcase with ⟨hfind, hseg'⟩ | ⟨b, hbl, hfind, hseg'⟩
  · -- `a` was the head
    refine .inl ⟨hfind, h.replace (key a₀) (l.erase a) (fun k hk => update_of_ne hk _ _)
      (fun _ _ _ => rfl) (fun _ _ => rfl) hN ?_ (hnd.erase a) hmem'⟩
    rw [update_self]
    exact hseg'
  · obtain ⟨hNb, hkb⟩ := hnodes b hbl
    refine .inr ⟨b, hNb, hkb, hfind, h.replace (key a₀) (l.erase a) (fun _ _ => rfl)
      (fun c _ hc => update_of_ne ?_ _ _) (fun _ _ => rfl) hN hseg' (hnd.erase a) hmem'⟩
    rintro rfl
    exact hc hkb

end Buckets

end QemuKvm.HeapList
