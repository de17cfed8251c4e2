import Mathlib.Data.BitVec
import Mathlib.Data.List.Nodup
import Mathlib.Logic.Function.Basic
import QemuKvm.Lib.Run

/-!
# The QED L2 table cache

An open QED image keeps recently used L2 tables in a cache
(block/qed-l2-cache.c): a list `entries` of `CachedL2Table`s, each with the
file offset of its table and a reference count `ref`, and the list's length
`n_entries`. A request that needs an L2 table takes a reference: it finds the
table in the cache (`qed_find_l2_cache_entry`), or it allocates an entry
(`qed_alloc_l2_cache_entry`), reads or creates the table, writes the entry's
offset and commits the entry (`qed_commit_l2_cache_entry`), which keeps the
request's reference as the cache's own, or drops it in favour of an entry
another request committed first. `qed_unref_l2_cache_entry` gives a
reference up and frees the entry with the last one. When the cache is full,
a commit first evicts entries that only the cache references.

The entries live on a heap of addresses (`L2State.heap`, `none` for an
address not allocated or freed); `g_malloc0` returns a fresh address. A read
of a freed entry stops the model (`none`), so a run that goes on to its end
never uses an entry after freeing it and never frees one twice. Beside the
cache, `L2World.held` records the references the requests hold, one pair
`(request, entry)` for each; the source keeps them in its requests'
`l2_table` fields.

* `L2Inv` is the invariant: every entry's `ref` is 1 if it is listed plus the
  number of references the requests hold on it; an entry is allocated exactly
  while that number is positive; `n_entries` is the length of the list, and
  no two listed entries have the same offset.
* `L2Action.step_inv` — every call a request makes on a state with the
  invariant returns, and keeps it. A request gives up only references it
  holds: any other commit or unref is not a call a request makes.
* `qedL2Cache_refs` — over every interleaving of calls, the invariant holds
  at every state, and a commit from any such state leaves an entry at the
  committed table's offset in the cache.
-/

namespace QemuKvm.Qed

open Function

/-- `MAX_L2_CACHE_SIZE`. -/
def MAX_L2_CACHE_SIZE : ℕ := 50

/-- `CachedL2Table` without its table: the file offset of the L2 table it
holds, and `int ref`. -/
structure CachedL2Table where
  offset : BitVec 64
  ref : ℤ
  deriving DecidableEq, Repr

/-- The entries on the heap, the address `g_malloc0` returns next, and the
`L2TableCache`: its list `entries` in order, and `n_entries`. -/
structure L2State where
  heap : ℕ → Option CachedL2Table
  next : ℕ
  entries : List ℕ
  nEntries : ℕ

/-- `qed_init_l2_cache`, before any entry is allocated. -/
def l2Init : L2State := ⟨fun _ => none, 0, [], 0⟩

/-- `qed_alloc_l2_cache_entry`: a fresh entry with `ref` 1, and the `offset`
its caller writes before anything reads it (`qed_new_l2_table` at once,
`qed_read_l2_table_cb` when the read completes, before the commit). -/
def qedAllocL2CacheEntry (s : L2State) (offset : BitVec 64) : L2State × ℕ :=
  ({ s with heap := update s.heap s.next (some ⟨offset, 1⟩), next := s.next + 1 }, s.next)

/-- `qed_unref_l2_cache_entry`; `none` is `NULL`, which it returns on. -/
def qedUnrefL2CacheEntry (s : L2State) : Option ℕ → Option L2State
  | none => some s
  | some e => do
    let t ← s.heap e
    let t' : CachedL2Table := { t with ref := t.ref - 1 }
    if t'.ref = 0 then some { s with heap := update s.heap e none }
    else some { s with heap := update s.heap e (some t') }

/-- The loop of `qed_find_l2_cache_entry`: the first entry of `l` at
`offset`. -/
def findL2 (heap : ℕ → Option CachedL2Table) (offset : BitVec 64) :
    List ℕ → Option (Option ℕ)
  | [] => some none
  | e :: es => do
    let t ← heap e
    if t.offset = offset then some (some e) else findL2 heap offset es

/-- `qed_find_l2_cache_entry`: the listed entry at `offset`, with one more
reference, or `NULL`. -/
def qedFindL2CacheEntry (s : L2State) (offset : BitVec 64) : Option (L2State × Option ℕ) := do
  match ← findL2 s.heap offset s.entries with
  | none => some (s, none)
  | some e => do
    let t ← s.heap e
    some ({ s with heap := update s.heap e (some { t with ref := t.ref + 1 }) }, some e)

/-- The eviction loop of `qed_commit_l2_cache_entry` over the entries `l`
still to visit (`QTAILQ_FOREACH_SAFE`): an entry with `ref` at most 1 is
unlinked, uncounted and unreferenced, until fewer than `MAX_L2_CACHE_SIZE`
remain. -/
def evictL2 (s : L2State) : List ℕ → Option L2State
  | [] => some s
  | e :: es => do
    let t ← s.heap e
    if 1 < t.ref then evictL2 s es
    else do
      let s' ← qedUnrefL2CacheEntry
        { s with entries := s.entries.erase e, nEntries := s.nEntries - 1 } (some e)
      if s'.nEntries < MAX_L2_CACHE_SIZE then some s' else evictL2 s' es

/-- The end of `qed_commit_l2_cache_entry` when no entry is at the offset:
evict if the cache is full, then count the table and insert it at the
tail. -/
def insertL2 (s : L2State) (l2Table : ℕ) : Option L2State := do
  let s ← if MAX_L2_CACHE_SIZE ≤ s.nEntries then evictL2 s s.entries else some s
  some { s with nEntries := s.nEntries + 1, entries := s.entries ++ [l2Table] }

/-- `qed_commit_l2_cache_entry`: if an entry is at the table's offset, the
reference `find` took and the caller's reference to the table are dropped;
otherwise the table goes into the cache with the caller's reference. -/
def qedCommitL2CacheEntry (s : L2State) (l2Table : ℕ) : Option L2State := do
  let t ← s.heap l2Table
  let r ← qedFindL2CacheEntry s t.offset
  match r.2 with
  | some e => do
    let s' ← qedUnrefL2CacheEntry r.1 (some e)
    qedUnrefL2CacheEntry s' (some l2Table)
  | none => insertL2 r.1 l2Table

/-! ## Requests -/

/-- The cache and, beside it, one pair `(r, e)` for each reference request
`r` holds on entry `e`. -/
structure L2World (κ : Type*) where
  s : L2State
  held : List (κ × ℕ)

/-- The calls a request makes. -/
inductive L2Action (κ : Type*) where
  /-- `qed_alloc_l2_cache_entry`, and the offset its caller writes -/
  | alloc (r : κ) (offset : BitVec 64)
  /-- `qed_find_l2_cache_entry` -/
  | find (r : κ) (offset : BitVec 64)
  /-- `qed_commit_l2_cache_entry` of a table the request holds -/
  | commit (r : κ) (l2Table : ℕ)
  /-- `qed_unref_l2_cache_entry` of an entry the request holds -/
  | unref (r : κ) (e : ℕ)

variable {κ : Type*}

/-- One call. A commit or an unref of an entry the request does not hold is
not a call a request makes, and leaves everything as it is. -/
def L2Action.step [DecidableEq κ] (w : L2World κ) : L2Action κ → Option (L2World κ)
  | .alloc r offset =>
    some ⟨(qedAllocL2CacheEntry w.s offset).1, (r, (qedAllocL2CacheEntry w.s offset).2) :: w.held⟩
  | .find r offset =>
    (qedFindL2CacheEntry w.s offset).map fun res =>
      ⟨res.1, match res.2 with
        | some e => (r, e) :: w.held
        | none => w.held⟩
  | .commit r l2Table =>
    if (r, l2Table) ∈ w.held then
      (qedCommitL2CacheEntry w.s l2Table).map fun s => ⟨s, w.held.erase (r, l2Table)⟩
    else some w
  | .unref r e =>
    if (r, e) ∈ w.held then
      (qedUnrefL2CacheEntry w.s (some e)).map fun s => ⟨s, w.held.erase (r, e)⟩
    else some w

/-- The calls one after another; `none` once one uses a freed entry. -/
def runL2 [DecidableEq κ] (w : L2World κ) (acts : List (L2Action κ)) : Option (L2World κ) :=
  acts.foldlM L2Action.step w

/-! ## The invariant -/

/-- The references the requests hold on `e`. -/
def heldOn (held : List (κ × ℕ)) (e : ℕ) : ℕ := held.countP fun p => p.2 = e

theorem heldOn_cons (r : κ) (e' : ℕ) (held : List (κ × ℕ)) (e : ℕ) :
    heldOn ((r, e') :: held) e = heldOn held e + if e' = e then 1 else 0 := by
  simp [heldOn, List.countP_cons]

theorem heldOn_erase [DecidableEq κ] {r : κ} {e' : ℕ} {held : List (κ × ℕ)} (h : (r, e') ∈ held)
    (e : ℕ) : heldOn held e = heldOn (held.erase (r, e')) e + if e' = e then 1 else 0 := by
  rw [← heldOn_cons r, heldOn, heldOn]
  exact (List.perm_cons_erase h).countP_eq _

theorem heldOn_pos {r : κ} {e : ℕ} {held : List (κ × ℕ)} (h : (r, e) ∈ held) :
    0 < heldOn held e :=
  List.countP_pos_iff.mpr ⟨_, h, by simp⟩

/-- What the invariant says of the entry at `e`: allocated exactly while it
is listed or held, and then its `ref` counts the cache's reference and the
requests'. -/
def EntryOk (s : L2State) (held : List (κ × ℕ)) (e : ℕ) : Prop :=
  match s.heap e with
  | none => e ∉ s.entries ∧ heldOn held e = 0
  | some t => (e ∈ s.entries ∨ 0 < heldOn held e) ∧
      t.ref = (if e ∈ s.entries then 1 else 0) + (heldOn held e : ℤ)

/-- The invariant of the cache and the references. -/
structure L2Inv (s : L2State) (held : List (κ × ℕ)) : Prop where
  entry : ∀ e, EntryOk s held e
  fresh : ∀ e, s.next ≤ e → s.heap e = none
  nodup : s.entries.Nodup
  nEntries : s.nEntries = s.entries.length
  offset : ∀ e₁ ∈ s.entries, ∀ e₂ ∈ s.entries, ∀ t₁ t₂, s.heap e₁ = some t₁ →
    s.heap e₂ = some t₂ → t₁.offset = t₂.offset → e₁ = e₂

/-- `EntryOk` reads the slot of `e`, whether `e` is listed, and its count. -/
theorem EntryOk.congr {s s' : L2State} {held held' : List (κ × ℕ)} {e : ℕ}
    (h : EntryOk s held e) (hh : s'.heap e = s.heap e) (hm : e ∈ s'.entries ↔ e ∈ s.entries)
    (hc : heldOn held' e = heldOn held e) : EntryOk s' held' e := by
  unfold EntryOk at h ⊢
  rw [hh, hc]
  simp only [hm]
  exact h

section Inv

variable {s : L2State} {held : List (κ × ℕ)}

theorem L2Inv.heap_eq_none_iff (h : L2Inv s held) (e : ℕ) :
    s.heap e = none ↔ e ∉ s.entries ∧ heldOn held e = 0 := by
  have he := h.entry e
  unfold EntryOk at he
  cases ht : s.heap e with
  | none => simpa [ht] using he
  | some t =>
    rw [ht] at he
    simp only [reduceCtorEq, false_iff, not_and, Nat.pos_iff_ne_zero] at he ⊢
    tauto

theorem L2Inv.ref_eq (h : L2Inv s held) {e : ℕ} {t : CachedL2Table} (ht : s.heap e = some t) :
    t.ref = (if e ∈ s.entries then 1 else 0) + (heldOn held e : ℤ) := by
  have he := h.entry e
  rw [EntryOk, ht] at he
  exact he.2

theorem L2Inv.exists_of_mem (h : L2Inv s held) {e : ℕ} (he : e ∈ s.entries) :
    ∃ t, s.heap e = some t :=
  Option.ne_none_iff_exists'.mp fun hn => ((h.heap_eq_none_iff e).mp hn).1 he

theorem L2Inv.exists_of_held (h : L2Inv s held) {r : κ} {e : ℕ} (he : (r, e) ∈ held) :
    ∃ t, s.heap e = some t :=
  Option.ne_none_iff_exists'.mp fun hn =>
    (Nat.pos_iff_ne_zero.mp (heldOn_pos he)) ((h.heap_eq_none_iff e).mp hn).2

theorem L2Inv.lt_next (h : L2Inv s held) {e : ℕ} {t : CachedL2Table} (ht : s.heap e = some t) :
    e < s.next := by
  by_contra hn
  rw [h.fresh e (by omega)] at ht
  cases ht

/-- The offset clause for a state whose listed entries were listed before,
at the same offsets. -/
theorem L2Inv.offset_of_subset {s' : L2State} (h : L2Inv s held)
    (hsub : ∀ e ∈ s'.entries, e ∈ s.entries)
    (hoff : ∀ e ∈ s'.entries, (s'.heap e).map (·.offset) = (s.heap e).map (·.offset)) :
    ∀ e₁ ∈ s'.entries, ∀ e₂ ∈ s'.entries, ∀ t₁ t₂, s'.heap e₁ = some t₁ →
      s'.heap e₂ = some t₂ → t₁.offset = t₂.offset → e₁ = e₂ := by
  intro e₁ h₁ e₂ h₂ t₁ t₂ ht₁ ht₂ ho
  obtain ⟨u₁, hu₁⟩ := h.exists_of_mem (hsub e₁ h₁)
  obtain ⟨u₂, hu₂⟩ := h.exists_of_mem (hsub e₂ h₂)
  have ho₁ := hoff e₁ h₁
  have ho₂ := hoff e₂ h₂
  rw [ht₁, hu₁] at ho₁
  rw [ht₂, hu₂] at ho₂
  simp only [Option.map_some, Option.some.injEq] at ho₁ ho₂
  exact h.offset e₁ (hsub e₁ h₁) e₂ (hsub e₂ h₂) u₁ u₂ hu₁ hu₂ (by rw [← ho₁, ← ho₂, ho])

/-- The invariant after the slot of one allocated entry `e` changes, and the
references the requests hold on it, and nothing else: it is enough that the
entry is right afterwards and keeps its offset if it is listed. -/
theorem L2Inv.setSlot (h : L2Inv s held) {held' : List (κ × ℕ)} {e : ℕ}
    {v : Option CachedL2Table} (hlive : e < s.next)
    (hc : ∀ e', e' ≠ e → heldOn held' e' = heldOn held e')
    (he : EntryOk { s with heap := update s.heap e v } held' e)
    (hoff : e ∈ s.entries → v.map (·.offset) = (s.heap e).map (·.offset)) :
    L2Inv { s with heap := update s.heap e v } held' where
  entry e' := by
    by_cases he' : e' = e
    · subst he'
      exact he
    · exact (h.entry e').congr (update_of_ne he' _ _) Iff.rfl (hc e' he')
  fresh e' hn := by
    change s.next ≤ e' at hn
    show update s.heap e v e' = none
    rw [update_of_ne (by omega)]
    exact h.fresh e' hn
  nodup := h.nodup
  nEntries := h.nEntries
  offset := h.offset_of_subset (fun _ he' => he') fun e' he' => by
    show (update s.heap e v e').map _ = _
    by_cases hee : e' = e
    · subst hee
      rw [update_self]
      exact hoff he'
    · rw [update_of_ne hee]

end Inv

/-! ## The calls -/

section Calls

variable {s : L2State} {held : List (κ × ℕ)}

theorem qedUnrefL2CacheEntry_some {e : ℕ} {t : CachedL2Table} (ht : s.heap e = some t) :
    qedUnrefL2CacheEntry s (some e) = some { s with
      heap := update s.heap e (if t.ref = 1 then none else some { t with ref := t.ref - 1 }) } := by
  by_cases h1 : t.ref = 1 <;> simp [qedUnrefL2CacheEntry, ht, h1, sub_eq_zero]

/-- The loop of `find` reads the listed entries until the first at the
offset. -/
theorem findL2_spec {heap : ℕ → Option CachedL2Table} (offset : BitVec 64) {l : List ℕ}
    (hl : ∀ e ∈ l, heap e ≠ none) :
    (findL2 heap offset l = some none ∧ ∀ e ∈ l, ∀ t, heap e = some t → t.offset ≠ offset) ∨
      ∃ e ∈ l, ∃ t, heap e = some t ∧ t.offset = offset ∧ findL2 heap offset l = some (some e) := by
  induction l with
  | nil => exact .inl ⟨rfl, by simp⟩
  | cons e es ih =>
    obtain ⟨t, ht⟩ := Option.ne_none_iff_exists'.mp (hl e List.mem_cons_self)
    by_cases ho : t.offset = offset
    · exact .inr ⟨e, List.mem_cons_self, t, ht, ho, by simp [findL2, ht, ho]⟩
    rcases ih fun e' he' => hl e' (List.mem_cons_of_mem e he') with
      ⟨hf, hno⟩ | ⟨e', he', t', ht', ho', hf⟩
    · refine .inl ⟨by simp [findL2, ht, ho, hf], ?_⟩
      rw [List.forall_mem_cons]
      refine ⟨fun t'' ht'' => ?_, hno⟩
      rw [ht, Option.some.injEq] at ht''
      exact ht'' ▸ ho
    · exact .inr ⟨e', List.mem_cons_of_mem e he', t', ht', ho', by simp [findL2, ht, ho, hf]⟩

theorem L2Inv.find_spec (h : L2Inv s held) (offset : BitVec 64) :
    (qedFindL2CacheEntry s offset = some (s, none) ∧
        ∀ e ∈ s.entries, ∀ t, s.heap e = some t → t.offset ≠ offset) ∨
      ∃ e ∈ s.entries, ∃ t, s.heap e = some t ∧ t.offset = offset ∧
        qedFindL2CacheEntry s offset =
          some ({ s with heap := update s.heap e (some { t with ref := t.ref + 1 }) }, some e) := by
  have hl : ∀ e ∈ s.entries, s.heap e ≠ none := fun e he hn =>
    ((h.heap_eq_none_iff e).mp hn).1 he
  rcases findL2_spec offset hl with ⟨hf, hno⟩ | ⟨e, he, t, ht, ho, hf⟩
  · exact .inl ⟨by simp [qedFindL2CacheEntry, hf], hno⟩
  · exact .inr ⟨e, he, t, ht, ho, by simp [qedFindL2CacheEntry, hf, ht]⟩

theorem L2Inv.alloc (h : L2Inv s held) (r : κ) (offset : BitVec 64) :
    L2Inv (qedAllocL2CacheEntry s offset).1 ((r, (qedAllocL2CacheEntry s offset).2) :: held) := by
  have hlisted : ∀ e ∈ s.entries, e ≠ s.next := fun e he hn =>
    ((h.heap_eq_none_iff e).mp (h.fresh e hn.ge)).1 he
  refine ⟨fun e => ?_, fun e he => ?_, h.nodup, h.nEntries, ?_⟩
  · by_cases he : e = s.next
    · -- the fresh entry: neither listed nor held before
      subst he
      have hn := (h.heap_eq_none_iff s.next).mp (h.fresh _ le_rfl)
      simp [EntryOk, qedAllocL2CacheEntry, heldOn_cons, hn]
    · exact (h.entry e).congr (update_of_ne he _ _) Iff.rfl
        (by simp [qedAllocL2CacheEntry, heldOn_cons, Ne.symm he])
  · show update s.heap s.next _ e = none
    rw [update_of_ne (by simp only [qedAllocL2CacheEntry] at he; omega)]
    exact h.fresh e (by simp only [qedAllocL2CacheEntry] at he; omega)
  · refine h.offset_of_subset (fun _ he => he) fun e he => ?_
    show (update s.heap s.next _ e).map _ = _
    rw [update_of_ne (hlisted e he)]

/-- A find that hits takes a reference on the entry. -/
theorem L2Inv.find_hit (h : L2Inv s held) (r : κ) {e : ℕ} {t : CachedL2Table}
    (he : e ∈ s.entries) (ht : s.heap e = some t) :
    L2Inv { s with heap := update s.heap e (some { t with ref := t.ref + 1 }) } ((r, e) :: held) := by
  have hr := h.ref_eq ht
  refine h.setSlot (h.lt_next ht) (fun e' he' => by simp [heldOn_cons, Ne.symm he']) ?_
    (fun _ => by simp [ht])
  simp only [EntryOk, update_self, heldOn_cons, if_pos he] at hr ⊢
  push_cast
  exact ⟨.inl he, by omega⟩

/-- An unref of a held entry frees it with the last reference and otherwise
drops one; the listed entries keep their slots' offsets. -/
theorem L2Inv.unref [DecidableEq κ] (h : L2Inv s held) {r : κ} {e : ℕ} (hr : (r, e) ∈ held) :
    ∃ s', qedUnrefL2CacheEntry s (some e) = some s' ∧ L2Inv s' (held.erase (r, e)) ∧
      s'.entries = s.entries ∧ s'.nEntries = s.nEntries ∧
      ∀ e' ∈ s.entries, (s'.heap e').map (·.offset) = (s.heap e').map (·.offset) := by
  obtain ⟨t, ht⟩ := h.exists_of_held hr
  have href := h.ref_eq ht
  have hc := heldOn_erase hr e
  simp only [if_pos] at hc
  -- a listed entry keeps the cache's reference, so it is not freed here
  have hoff : e ∈ s.entries → (if t.ref = 1 then none else some { t with ref := t.ref - 1 }).map
      (·.offset) = (s.heap e).map (·.offset) := fun he => by
    rw [if_pos he] at href
    rw [if_neg (by omega), ht]
    rfl
  refine ⟨_, qedUnrefL2CacheEntry_some ht, ?_, rfl, rfl, fun e' he' => ?_⟩
  · refine h.setSlot (h.lt_next ht) (fun e' he' => by simp [heldOn_erase hr e', Ne.symm he']) ?_
      hoff
    by_cases h1 : t.ref = 1
    · by_cases he : e ∈ s.entries
      · have := hoff he
        rw [if_pos h1, ht] at this
        cases this
      · simp only [if_neg he] at href
        simp [EntryOk, h1, he]
        omega
    · simp only [EntryOk, update_self, if_neg h1]
      split_ifs at href ⊢ with he
      · exact ⟨.inl he, by omega⟩
      · exact ⟨.inr (by omega), by omega⟩
  · show (update s.heap e _ e').map _ = _
    by_cases hee : e' = e
    · subst hee
      rw [update_self]
      exact hoff he'
    · rw [update_of_ne hee]

/-- The reference `find` took, given back: the state is as it was. -/
theorem qedUnrefL2CacheEntry_find {e : ℕ} {t : CachedL2Table} (ht : s.heap e = some t)
    (hpos : 0 < t.ref) :
    qedUnrefL2CacheEntry { s with heap := update s.heap e (some { t with ref := t.ref + 1 }) }
      (some e) = some s := by
  rw [qedUnrefL2CacheEntry_some (update_self _ _ _)]
  have h1 : t.ref + 1 ≠ 1 := by omega
  simp only [h1, if_false, update_idem, add_sub_cancel_right]
  rw [← ht, update_eq_self]

/-! ### Eviction -/

/-- What eviction does to the state: some listed entries are unlisted and
freed, and nothing else changes. -/
structure Shrinks (s s' : L2State) : Prop where
  next : s'.next = s.next
  sub : ∀ e ∈ s'.entries, e ∈ s.entries
  listed : ∀ e ∈ s'.entries, s'.heap e = s.heap e
  unlisted : ∀ e ∉ s.entries, s'.heap e = s.heap e

theorem Shrinks.refl (s : L2State) : Shrinks s s :=
  ⟨rfl, fun _ he => he, fun _ _ => rfl, fun _ _ => rfl⟩

theorem Shrinks.trans {s₁ s₂ s₃ : L2State} (h₁ : Shrinks s₁ s₂) (h₂ : Shrinks s₂ s₃) :
    Shrinks s₁ s₃ where
  next := h₂.next.trans h₁.next
  sub e he := h₁.sub e (h₂.sub e he)
  listed e he := (h₂.listed e he).trans (h₁.listed e (h₂.sub e he))
  unlisted e he := (h₂.unlisted e fun he₂ => he (h₁.sub e he₂)).trans (h₁.unlisted e he)

theorem evictL2_cons_of_lt {e : ℕ} {es : List ℕ} {t : CachedL2Table} (ht : s.heap e = some t)
    (hr : 1 < t.ref) : evictL2 s (e :: es) = evictL2 s es := by
  simp [evictL2, ht, hr]

theorem evictL2_cons_of_eq {e : ℕ} {es : List ℕ} {t : CachedL2Table} (ht : s.heap e = some t)
    (hr : t.ref = 1) :
    evictL2 s (e :: es) =
      if s.nEntries - 1 < MAX_L2_CACHE_SIZE then
        some { s with
          heap := update s.heap e none, entries := s.entries.erase e, nEntries := s.nEntries - 1 }
      else
        evictL2 { s with
          heap := update s.heap e none, entries := s.entries.erase e, nEntries := s.nEntries - 1 }
          es := by
  simp [evictL2, ht, hr, qedUnrefL2CacheEntry]

/-- Unlisting and freeing an entry that only the cache references. -/
theorem L2Inv.drop (h : L2Inv s held) {e : ℕ} {t : CachedL2Table} (he : e ∈ s.entries)
    (ht : s.heap e = some t) (hr : t.ref = 1) :
    L2Inv { s with
        heap := update s.heap e none, entries := s.entries.erase e, nEntries := s.nEntries - 1 }
        held ∧
      Shrinks s { s with
        heap := update s.heap e none, entries := s.entries.erase e, nEntries := s.nEntries - 1 } := by
  have hc : heldOn held e = 0 := by
    have := h.ref_eq ht
    rw [if_pos he] at this
    omega
  have hne : ∀ e' ∈ s.entries.erase e, e' ≠ e := by
    rintro e' he' rfl
    exact h.nodup.not_mem_erase he'
  have hlive := h.lt_next ht
  refine ⟨⟨fun e' => ?_, fun e' hn => ?_, h.nodup.erase e, ?_, ?_⟩,
    ⟨rfl, fun _ => List.mem_of_mem_erase, fun e' he' => update_of_ne (hne e' he') _ _,
      fun e' he' => update_of_ne (by rintro rfl; exact he' he) _ _⟩⟩
  · by_cases hee : e' = e
    · subst hee
      simp [EntryOk, h.nodup.not_mem_erase, hc]
    · exact (h.entry e').congr (update_of_ne hee _ _) (List.mem_erase_of_ne hee) rfl
  · change s.next ≤ e' at hn
    show update s.heap e none e' = none
    rw [update_of_ne (by omega)]
    exact h.fresh e' hn
  · show s.nEntries - 1 = (s.entries.erase e).length
    rw [List.length_erase_of_mem he, h.nEntries]
  · exact h.offset_of_subset (fun _ => List.mem_of_mem_erase) fun e' he' => by
      show (update s.heap e none e').map _ = _
      rw [update_of_ne (hne e' he')]

/-- The eviction loop over listed entries returns and keeps the invariant. -/
theorem L2Inv.evict {l : List ℕ} (hl : l.Nodup) (h : L2Inv s held)
    (hsub : ∀ e ∈ l, e ∈ s.entries) :
    ∃ s', evictL2 s l = some s' ∧ L2Inv s' held ∧ Shrinks s s' := by
  induction l generalizing s with
  | nil => exact ⟨s, rfl, h, .refl s⟩
  | cons e es ih =>
    rw [List.nodup_cons] at hl
    have he := hsub e List.mem_cons_self
    obtain ⟨t, ht⟩ := h.exists_of_mem he
    by_cases hr : 1 < t.ref
    · rw [evictL2_cons_of_lt ht hr]
      exact ih hl.2 h fun e' he' => hsub e' (List.mem_cons_of_mem e he')
    -- only the cache references the entry: it goes
    have hr1 : t.ref = 1 := by
      have := h.ref_eq ht
      rw [if_pos he] at this
      omega
    obtain ⟨hd, hsd⟩ := h.drop he ht hr1
    rw [evictL2_cons_of_eq ht hr1]
    split_ifs
    · exact ⟨_, rfl, hd, hsd⟩
    · have hes : ∀ e' ∈ es, e' ∈ s.entries.erase e := by
        intro e' he'
        have hne : e' ≠ e := by
          rintro rfl
          exact hl.1 he'
        exact (List.mem_erase_of_ne hne).mpr (hsub e' (List.mem_cons_of_mem e he'))
      obtain ⟨s', hs', hinv, hsh⟩ := ih hl.2 hd hes
      exact ⟨s', hs', hinv, hsd.trans hsh⟩

/-! ### Commit -/

theorem insertL2_of_eq {s₁ : L2State} (x : ℕ)
    (hs : (if MAX_L2_CACHE_SIZE ≤ s.nEntries then evictL2 s s.entries else some s) = some s₁) :
    insertL2 s x = some { s₁ with nEntries := s₁.nEntries + 1, entries := s₁.entries ++ [x] } := by
  unfold insertL2
  split_ifs at hs ⊢
  · rw [hs]
    rfl
  · cases hs
    rfl

/-- Listing a held entry whose offset no listed entry has: the caller's
reference becomes the cache's. -/
theorem L2Inv.push [DecidableEq κ] (h : L2Inv s held) {r : κ} {x : ℕ} {tx : CachedL2Table}
    (hr : (r, x) ∈ held) (hx : s.heap x = some tx)
    (hno : ∀ e ∈ s.entries, ∀ t, s.heap e = some t → t.offset ≠ tx.offset) :
    L2Inv { s with nEntries := s.nEntries + 1, entries := s.entries ++ [x] } (held.erase (r, x)) := by
  have hxl : x ∉ s.entries := fun hxl => hno x hxl tx hx rfl
  have hc := heldOn_erase hr x
  simp only [if_pos] at hc
  refine ⟨fun e => ?_, h.fresh, ?_, by simp [h.nEntries], ?_⟩
  · by_cases hex : e = x
    · subst hex
      have href := h.ref_eq hx
      rw [if_neg hxl] at href
      simp [EntryOk, hx]
      omega
    · exact (h.entry e).congr rfl (by simp [hex])
        (by simp [heldOn_erase hr e, Ne.symm hex])
  · rw [List.nodup_append]
    refine ⟨h.nodup, List.nodup_singleton x, fun a ha b hb hab => ?_⟩
    rw [List.mem_singleton] at hb
    exact hxl (hb ▸ hab ▸ ha)
  · intro e₁ h₁ e₂ h₂ t₁ t₂ ht₁ ht₂ ho
    simp only [List.mem_append, List.mem_singleton] at h₁ h₂ ht₁ ht₂
    rcases h₁ with h₁ | rfl <;> rcases h₂ with h₂ | rfl
    · exact h.offset e₁ h₁ e₂ h₂ t₁ t₂ ht₁ ht₂ ho
    · rw [hx, Option.some.injEq] at ht₂
      exact absurd (ho.trans (congrArg _ ht₂.symm)) (hno e₁ h₁ t₁ ht₁)
    · rw [hx, Option.some.injEq] at ht₁
      exact absurd (ho.symm.trans (congrArg _ ht₁.symm)) (hno e₂ h₂ t₂ ht₂)
    · rfl

/-- A commit of a held table returns and keeps the invariant, and leaves an
entry at the table's offset in the cache. -/
theorem L2Inv.commit [DecidableEq κ] (h : L2Inv s held) {r : κ} {x : ℕ} (hr : (r, x) ∈ held) :
    ∃ s', qedCommitL2CacheEntry s x = some s' ∧ L2Inv s' (held.erase (r, x)) ∧
      ∀ tx, s.heap x = some tx → ∃ e ∈ s'.entries, ∃ t, s'.heap e = some t ∧ t.offset = tx.offset := by
  obtain ⟨tx, hx⟩ := h.exists_of_held hr
  have hkeep : ∀ {s' : L2State}, (∃ e ∈ s'.entries, ∃ t, s'.heap e = some t ∧ t.offset = tx.offset) →
      ∀ tx', s.heap x = some tx' → ∃ e ∈ s'.entries, ∃ t, s'.heap e = some t ∧ t.offset = tx'.offset := by
    intro s' hs' tx' hx'
    rw [hx, Option.some.injEq] at hx'
    exact hx' ▸ hs'
  rcases h.find_spec tx.offset with ⟨hf, hno⟩ | ⟨e, he, t, ht, ho, hf⟩
  · -- no entry at the offset: evict if full, and insert the table
    have hxl : x ∉ s.entries := fun hxl => hno x hxl tx hx rfl
    obtain ⟨s₁, hs₁, hinv₁, hsh⟩ : ∃ s₁, (if MAX_L2_CACHE_SIZE ≤ s.nEntries then
        evictL2 s s.entries else some s) = some s₁ ∧ L2Inv s₁ held ∧ Shrinks s s₁ := by
      split_ifs
      · exact h.evict h.nodup fun _ he => he
      · exact ⟨s, rfl, h, .refl s⟩
    have hx₁ : s₁.heap x = some tx := (hsh.unlisted x hxl).trans hx
    refine ⟨_, by simp [qedCommitL2CacheEntry, hx, hf, insertL2_of_eq x hs₁], hinv₁.push hr hx₁ ?_,
      hkeep ⟨x, by simp, tx, hx₁, rfl⟩⟩
    intro e he t ht
    rw [hsh.listed e he] at ht
    exact hno e (hsh.sub e he) t ht
  · -- an entry at the offset: the reference find took and the caller's go
    have hpos : 0 < t.ref := by
      have := h.ref_eq ht
      rw [if_pos he] at this
      omega
    obtain ⟨s', hs', hinv, hent, -, hoff⟩ := h.unref hr
    refine ⟨s', by simp [qedCommitL2CacheEntry, hx, hf, qedUnrefL2CacheEntry_find ht hpos, hs'],
      hinv, hkeep ?_⟩
    have he' := hoff e he
    rw [ht, Option.map_some] at he'
    obtain ⟨t', ht', hto⟩ := Option.map_eq_some_iff.mp he'
    exact ⟨e, hent ▸ he, t', ht', hto.trans ho⟩

end Calls

/-! ## Runs -/

theorem l2Init_inv : L2Inv l2Init ([] : List (κ × ℕ)) where
  entry e := by simp [EntryOk, l2Init, heldOn]
  fresh _ _ := rfl
  nodup := List.nodup_nil
  nEntries := rfl
  offset := by simp [l2Init]

/-- Every call a request makes returns and keeps the invariant. -/
theorem L2Action.step_inv [DecidableEq κ] {w : L2World κ} (h : L2Inv w.s w.held)
    (a : L2Action κ) : ∃ w', a.step w = some w' ∧ L2Inv w'.s w'.held := by
  cases a with
  | alloc r offset => exact ⟨_, rfl, h.alloc r offset⟩
  | find r offset =>
    rcases h.find_spec offset with ⟨hf, -⟩ | ⟨e, he, t, ht, -, hf⟩
    · exact ⟨w, by simp [L2Action.step, hf], h⟩
    · exact ⟨⟨_, (r, e) :: w.held⟩, by simp [L2Action.step, hf], h.find_hit r he ht⟩
  | commit r x =>
    by_cases hr : (r, x) ∈ w.held
    · obtain ⟨s', hs', hinv, -⟩ := h.commit hr
      exact ⟨⟨s', _⟩, by simp [L2Action.step, hr, hs'], hinv⟩
    · exact ⟨w, by simp [L2Action.step, hr], h⟩
  | unref r e =>
    by_cases hr : (r, e) ∈ w.held
    · obtain ⟨s', hs', hinv, -⟩ := h.unref hr
      exact ⟨⟨s', _⟩, by simp [L2Action.step, hr, hs'], hinv⟩
    · exact ⟨w, by simp [L2Action.step, hr], h⟩

/-- Over every interleaving of the requests' calls the run never uses a freed
entry, and at its end every entry's `ref` is its place in the cache plus the
references the requests hold, an entry is freed exactly when both are gone,
`n_entries` is the length of the list, no two listed entries share an offset,
and a commit of a table a request holds leaves an entry at its offset. -/
theorem qedL2Cache_refs [DecidableEq κ] (acts : List (L2Action κ)) :
    ∃ w, runL2 ⟨l2Init, []⟩ acts = some w ∧
      (∀ e t, w.s.heap e = some t →
        t.ref = (if e ∈ w.s.entries then 1 else 0) + (heldOn w.held e : ℤ)) ∧
      (∀ e, w.s.heap e = none ↔ e ∉ w.s.entries ∧ heldOn w.held e = 0) ∧
      w.s.nEntries = w.s.entries.length ∧
      (∀ e₁ ∈ w.s.entries, ∀ e₂ ∈ w.s.entries, ∀ t₁ t₂, w.s.heap e₁ = some t₁ →
        w.s.heap e₂ = some t₂ → t₁.offset = t₂.offset → e₁ = e₂) ∧
      ∀ r l2Table t, (r, l2Table) ∈ w.held → w.s.heap l2Table = some t →
        ∃ w', (L2Action.commit r l2Table).step w = some w' ∧
          ∃ e ∈ w'.s.entries, ∃ t', w'.s.heap e = some t' ∧ t'.offset = t.offset := by
  have h₀ : L2Inv (⟨l2Init, []⟩ : L2World κ).s (⟨l2Init, []⟩ : L2World κ).held := l2Init_inv
  obtain ⟨w, hrun, h⟩ := foldlM_invariant L2Action.step (fun w => L2Inv w.s w.held)
    (fun w a hw => L2Action.step_inv hw a) h₀ acts
  refine ⟨w, hrun, fun e t ht => h.ref_eq ht, h.heap_eq_none_iff, h.nEntries, h.offset, ?_⟩
  intro r x t hr hx
  obtain ⟨s', hs', -, hkeep⟩ := h.commit hr
  exact ⟨⟨s', w.held.erase (r, x)⟩, by simp [L2Action.step, hr, hs'], hkeep t hx⟩

end QemuKvm.Qed
