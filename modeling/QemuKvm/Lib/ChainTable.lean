import Mathlib.Data.List.Nodup
import Mathlib.Data.List.Range
import Mathlib.Logic.Function.Basic

/-!
# Chained hash tables

A table of `nb` buckets, each a chain of entries with the newest first, as
an array of list heads is in C. An entry lives in the bucket `hash k % nb`
of its key k. The operations are those of a table with separate chaining:

* `insert` — replace the value of the first entry of the key in its chain,
  or put a new entry at the head of the chain and count it;
* `erase` — unlink the first entry of the key and uncount it;
* `lookup` — the value of the first entry of the key in its chain;
* `entries` — every chain, bucket by bucket;
* `first`, `next` and `walk` — iteration by position: the next entry in the
  chain, or else the head of the next non-empty bucket after the bucket of
  the current entry's key.

`Wf` is the bucket invariant: each entry in the bucket of its key, each key
once in its chain, and the count equal to the number of entries. Under it
the table is a finite map:

* `lookup_insert`, `lookup_erase` — the operations are the map's updates;
* `mem_entries`, `nodup_keys_entries` — `entries` holds each present key
  once, with its value, and nothing else;
* `walk_first` — iterating by position from `first` visits `entries`.
-/

namespace QemuKvm

/-- A chained hash table: `table b` is the chain of bucket b, newest
first, and `size` the count of entries. -/
structure ChainTable (κ α : Type*) where
  table : ℕ → List (κ × α)
  size : ℕ

namespace ChainTable

variable {κ α : Type*}

/-! ## Chains -/

section Chain

variable [DecidableEq κ]

/-- The value of the first entry of key k in a chain. -/
def findIn (l : List (κ × α)) (k : κ) : Option α :=
  (l.find? fun e => decide (e.1 = k)).map Prod.snd

/-- The chain with the value of the first entry of key k replaced. -/
def replaceFirst (k : κ) (v : α) : List (κ × α) → List (κ × α)
  | [] => []
  | e :: es => if e.1 = k then (e.1, v) :: es else e :: replaceFirst k v es

variable {l : List (κ × α)} {k k' : κ} {v : α}

@[simp] theorem findIn_nil : findIn ([] : List (κ × α)) k = none := rfl

theorem findIn_cons (e : κ × α) (l : List (κ × α)) (k : κ) :
    findIn (e :: l) k = if e.1 = k then some e.2 else findIn l k := by
  by_cases h : e.1 = k <;> simp [findIn, h]

theorem findIn_eq_none : findIn l k = none ↔ k ∉ l.map Prod.fst := by
  induction l with
  | nil => simp
  | cons e l ih =>
    rw [findIn_cons]
    by_cases h : e.1 = k
    · simp [h]
    · simp only [if_neg h, ih, List.map_cons, List.mem_cons]
      exact ⟨fun hk hk' => hk (hk'.resolve_left (Ne.symm h)), fun hk hk' => hk (.inr hk')⟩

theorem findIn_of_mem (hnd : (l.map Prod.fst).Nodup) {e : κ × α} (he : e ∈ l) :
    findIn l e.1 = some e.2 := by
  induction l with
  | nil => cases he
  | cons x l ih =>
    obtain ⟨hx, hnd⟩ := List.nodup_cons.1 hnd
    rw [findIn_cons]
    rcases List.mem_cons.1 he with rfl | he
    · simp
    · -- e is further on, so x has another key
      have hne : x.1 ≠ e.1 := fun h => hx (h ▸ List.mem_map_of_mem he)
      rw [if_neg hne, ih hnd he]

theorem mem_of_findIn (h : findIn l k = some v) : (k, v) ∈ l := by
  induction l with
  | nil => cases h
  | cons e l ih =>
    rw [findIn_cons] at h
    split at h
    · next hk =>
      cases h
      exact hk ▸ List.mem_cons_self
    · exact List.mem_cons_of_mem e (ih h)

theorem map_fst_replaceFirst : (replaceFirst k v l).map Prod.fst = l.map Prod.fst := by
  induction l with
  | nil => rfl
  | cons e l ih =>
    simp only [replaceFirst]
    split <;> simp [ih]

theorem length_replaceFirst : (replaceFirst k v l).length = l.length := by
  rw [← List.length_map (f := Prod.fst), map_fst_replaceFirst, List.length_map]

theorem findIn_replaceFirst (hk : (findIn l k).isSome) (k' : κ) :
    findIn (replaceFirst k v l) k' = if k' = k then some v else findIn l k' := by
  induction l with
  | nil => cases hk
  | cons e l ih =>
    simp only [replaceFirst]
    rw [findIn_cons] at hk
    split
    · next he =>
      rw [findIn_cons, findIn_cons]
      by_cases hk' : k' = k
      · simp [he, hk']
      · simp only [he, if_neg (Ne.symm hk'), if_neg hk']
    · next he =>
      rw [if_neg he] at hk
      rw [findIn_cons, findIn_cons, ih hk]
      by_cases hk' : k' = k
      · subst hk'
        simp [he]
      · simp only [if_neg hk']

theorem findIn_eraseP (hnd : (l.map Prod.fst).Nodup) (k' : κ) :
    findIn (l.eraseP fun e => decide (e.1 = k)) k' = if k' = k then none else findIn l k' := by
  induction l with
  | nil => simp
  | cons e l ih =>
    obtain ⟨he, hnd⟩ := List.nodup_cons.1 hnd
    rw [List.eraseP_cons]
    by_cases hek : e.1 = k
    · -- the erased entry: its key is nowhere else
      simp only [hek, decide_true, cond_true]
      by_cases hk' : k' = k
      · subst hk'
        rw [if_pos rfl, findIn_eq_none]
        exact hek ▸ he
      · rw [if_neg hk', findIn_cons, if_neg (hek ▸ Ne.symm hk')]
    · simp only [hek, decide_false, cond_false]
      rw [findIn_cons, findIn_cons, ih hnd]
      by_cases hk' : k' = k
      · subst hk'
        simp [hek]
      · simp only [if_neg hk']

end Chain

/-! ## The table -/

variable (nb : ℕ) (hash : κ → ℕ)

/-- The bucket of key k. -/
def bucketOf (k : κ) : ℕ := hash k % nb

def empty : ChainTable κ α := ⟨fun _ => [], 0⟩

variable (t : ChainTable κ α)

/-- The entries of buckets b, …, b + n - 1, bucket by bucket. -/
def entriesFrom (b n : ℕ) : List (κ × α) := (List.range' b n).flatMap t.table

/-- Every entry, bucket by bucket. -/
def entries : List (κ × α) := t.entriesFrom 0 nb

/-- The bucket invariant. -/
structure Wf : Prop where
  placed : ∀ b, ∀ e ∈ t.table b, bucketOf nb hash e.1 = b
  unique : ∀ b, ((t.table b).map Prod.fst).Nodup
  size_eq : t.size = (t.entries nb).length

/-! ## Iteration by position -/

/-- The position of the head of the first non-empty bucket among b, …,
b + n - 1. -/
def scanFrom : ℕ → ℕ → Option (ℕ × ℕ)
  | _, 0 => none
  | b, n + 1 => if (t.table b).isEmpty then scanFrom (b + 1) n else some (b, 0)

def first : Option (ℕ × ℕ) := t.scanFrom 0 nb

/-- The position after entry j of bucket b: the next entry of the chain, or
the head of the next non-empty bucket after the bucket of the entry's key. -/
def next (p : ℕ × ℕ) : Option (ℕ × ℕ) :=
  if p.2 + 1 < (t.table p.1).length then some (p.1, p.2 + 1)
  else
    match (t.table p.1)[p.2]? with
    | some e => t.scanFrom (bucketOf nb hash e.1 + 1) (nb - (bucketOf nb hash e.1 + 1))
    | none => none

/-- The entries met from a position on, following `next`, at most fuel of them. -/
def walk : ℕ → Option (ℕ × ℕ) → List (κ × α)
  | 0, _ => []
  | _ + 1, none => []
  | fuel + 1, some p =>
    match (t.table p.1)[p.2]? with
    | some e => e :: walk fuel (t.next nb hash p)
    | none => []

/-! ## The operations of a map -/

section MapOps

variable [DecidableEq κ]

def lookup (k : κ) : Option α := findIn (t.table (bucketOf nb hash k)) k

def insert (k : κ) (v : α) : ChainTable κ α :=
  let b := bucketOf nb hash k
  match findIn (t.table b) k with
  | some _ => { t with table := Function.update t.table b (replaceFirst k v (t.table b)) }
  | none => ⟨Function.update t.table b ((k, v) :: t.table b), t.size + 1⟩

def erase (k : κ) : ChainTable κ α :=
  let b := bucketOf nb hash k
  match findIn (t.table b) k with
  | some _ => ⟨Function.update t.table b ((t.table b).eraseP fun e => decide (e.1 = k)), t.size - 1⟩
  | none => t

end MapOps

variable {nb hash t}

theorem bucketOf_lt (hnb : 0 < nb) (k : κ) : bucketOf nb hash k < nb := Nat.mod_lt _ hnb

/-! ## The invariant -/

theorem entries_eq_flatMap : t.entries nb = (List.range nb).flatMap t.table := by
  rw [entries, entriesFrom, List.range_eq_range']

/-- Changing one bucket changes the count of all entries by the change of
that bucket. -/
theorem length_flatMap_update (f : ℕ → List (κ × α)) {b : ℕ} (l : List (κ × α)) :
    ∀ n, b < n → ((List.range n).flatMap (Function.update f b l)).length + (f b).length =
      ((List.range n).flatMap f).length + l.length := by
  intro n
  induction n with
  | zero => intro h; omega
  | succ n ih =>
    intro hb
    simp only [List.range_succ, List.flatMap_append, List.length_append, List.flatMap_cons,
      List.flatMap_nil, List.append_nil]
    by_cases hbn : b = n
    · -- the changed bucket is the last: the others are below it
      subst hbn
      have hsame : (List.range b).flatMap (Function.update f b l) = (List.range b).flatMap f :=
        List.flatMap_congr fun i hi => Function.update_of_ne (List.mem_range.1 hi).ne _ _
      rw [hsame, Function.update_self]
      omega
    · have := ih (by omega)
      rw [Function.update_of_ne (Ne.symm hbn)]
      omega

theorem wf_empty : (empty : ChainTable κ α).Wf nb hash where
  placed _ _ he := by cases he
  unique _ := List.nodup_nil
  size_eq := by simp [empty, entries, entriesFrom]

/-- Replacing the chain of one bucket keeps the invariant when the new
chain holds keys of that bucket, each once, and the count moves with it. -/
theorem Wf.update (hwf : t.Wf nb hash) {b : ℕ} (hb : b < nb) {l : List (κ × α)} {s' : ℕ}
    (hplaced : ∀ e ∈ l, bucketOf nb hash e.1 = b) (hunique : (l.map Prod.fst).Nodup)
    (hsize : s' + (t.table b).length = t.size + l.length) :
    (⟨Function.update t.table b l, s'⟩ : ChainTable κ α).Wf nb hash where
  placed b' e he := by
    change e ∈ Function.update t.table b l b' at he
    by_cases hb' : b' = b
    · subst hb'
      rw [Function.update_self] at he
      exact hplaced e he
    · rw [Function.update_of_ne hb'] at he
      exact hwf.placed b' e he
  unique b' := by
    change (List.map Prod.fst (Function.update t.table b l b')).Nodup
    by_cases hb' : b' = b
    · subst hb'
      rw [Function.update_self]
      exact hunique
    · rw [Function.update_of_ne hb']
      exact hwf.unique b'
  size_eq := by
    have hlen := length_flatMap_update t.table l nb hb
    have := hwf.size_eq
    rw [entries_eq_flatMap] at this ⊢
    change s' = ((List.range nb).flatMap (Function.update t.table b l)).length
    omega

/-- A chain holds no more than all the entries. -/
theorem length_table_le (hb : b < nb) : (t.table b).length ≤ (t.entries nb).length := by
  have := length_flatMap_update t.table [] nb hb
  rw [entries_eq_flatMap]
  simp only [List.length_nil] at this
  omega

/-! ## What the entries are -/

theorem nodup_keys_entries (hwf : t.Wf nb hash) : ((t.entries nb).map Prod.fst).Nodup := by
  rw [entries_eq_flatMap, List.map_flatMap, List.nodup_flatMap]
  refine ⟨fun b _ => hwf.unique b, List.nodup_range.imp fun {a b} hab => ?_⟩
  -- a key lives in one bucket only
  intro x hxa hxb
  obtain ⟨ea, hea, rfl⟩ := List.mem_map.1 hxa
  obtain ⟨eb, heb, hfst⟩ := List.mem_map.1 hxb
  have := hwf.placed b eb heb
  rw [hfst, hwf.placed a ea hea] at this
  exact hab this

/-! ## Iterating by position visits the entries -/

theorem walk_none (fuel : ℕ) : t.walk nb hash fuel none = [] := by
  cases fuel <;> rfl

theorem entriesFrom_succ (b n : ℕ) :
    t.entriesFrom b (n + 1) = t.table b ++ t.entriesFrom (b + 1) n := by
  simp [entriesFrom, List.range'_succ]

/-- Scanning for the next non-empty bucket skips exactly the empty ones. -/
theorem walk_scanFrom_of {fuel : ℕ}
    (hpos : ∀ b j, b < nb → j < (t.table b).length →
      (t.table b).length - j + (t.entriesFrom (b + 1) (nb - (b + 1))).length ≤ fuel →
      t.walk nb hash fuel (some (b, j)) = (t.table b).drop j ++ t.entriesFrom (b + 1) (nb - (b + 1))) :
    ∀ n b, b + n = nb → (t.entriesFrom b n).length ≤ fuel →
      t.walk nb hash fuel (t.scanFrom b n) = t.entriesFrom b n := by
  intro n
  induction n with
  | zero => intro b _ _; simp [scanFrom, walk_none, entriesFrom]
  | succ n ih =>
    intro b hbn hlen
    rw [entriesFrom_succ] at hlen ⊢
    simp only [scanFrom]
    split
    · next hempty =>
      rw [List.isEmpty_iff.1 hempty, List.nil_append]
      rw [List.isEmpty_iff.1 hempty, List.nil_append] at hlen
      exact ih (b + 1) (by omega) hlen
    · next hne =>
      have hlen0 : 0 < (t.table b).length :=
        List.length_pos_iff.2 fun h => hne (List.isEmpty_iff.2 h)
      have hn : nb - (b + 1) = n := by omega
      rw [hpos b 0 (by omega) hlen0 (by rw [hn]; simpa using hlen), List.drop_zero, hn]

theorem walk_some (hwf : t.Wf nb hash) :
    ∀ fuel b j, b < nb → j < (t.table b).length →
      (t.table b).length - j + (t.entriesFrom (b + 1) (nb - (b + 1))).length ≤ fuel →
      t.walk nb hash fuel (some (b, j)) = (t.table b).drop j ++ t.entriesFrom (b + 1) (nb - (b + 1)) := by
  intro fuel
  -- on the fuel: each step visits one entry
  induction fuel with
  | zero => intro b j _ hj hlen; omega
  | succ fuel ih =>
    intro b j hb hj hlen
    have hget : (t.table b)[j]? = some (t.table b)[j] := List.getElem?_eq_getElem hj
    simp only [walk, hget]
    rw [List.drop_eq_getElem_cons hj, List.cons_append]
    congr 1
    simp only [next]
    split
    · -- the next entry of the chain
      next hnext => exact ih b (j + 1) hb hnext (by omega)
    · -- the last of its chain: on to the buckets after the bucket of its key
      next hlast =>
      have hj' : j + 1 = (t.table b).length := by omega
      rw [hget]
      dsimp only
      rw [hwf.placed b _ (List.getElem_mem hj), List.drop_eq_nil_of_le (by omega), List.nil_append]
      exact walk_scanFrom_of ih _ _ (by omega) (by omega)

/-- `for (e = first; e; e = next(e))` visits every entry once, bucket by
bucket, given fuel for all of them. -/
theorem walk_first (hwf : t.Wf nb hash) {fuel : ℕ} (hfuel : (t.entries nb).length ≤ fuel) :
    t.walk nb hash fuel (t.first nb) = t.entries nb :=
  walk_scanFrom_of (walk_some hwf fuel) nb 0 (Nat.zero_add nb) hfuel

/-! ## The table as a finite map -/

section Map

variable [DecidableEq κ]

theorem lookup_empty (k : κ) : (empty : ChainTable κ α).lookup nb hash k = none := rfl

section Equations

variable {k : κ} {v w : α}

theorem insert_of_findIn_some (h : findIn (t.table (bucketOf nb hash k)) k = some w) :
    t.insert nb hash k v =
      ⟨Function.update t.table (bucketOf nb hash k) (replaceFirst k v (t.table (bucketOf nb hash k))),
        t.size⟩ := by
  simp only [insert, h]

theorem insert_of_findIn_none (h : findIn (t.table (bucketOf nb hash k)) k = none) :
    t.insert nb hash k v =
      ⟨Function.update t.table (bucketOf nb hash k) ((k, v) :: t.table (bucketOf nb hash k)),
        t.size + 1⟩ := by
  simp only [insert, h]

theorem erase_of_findIn_some (h : findIn (t.table (bucketOf nb hash k)) k = some w) :
    t.erase nb hash k =
      ⟨Function.update t.table (bucketOf nb hash k)
          ((t.table (bucketOf nb hash k)).eraseP fun e => decide (e.1 = k)), t.size - 1⟩ := by
  simp only [erase, h]

theorem erase_of_findIn_none (h : findIn (t.table (bucketOf nb hash k)) k = none) :
    t.erase nb hash k = t := by
  simp only [erase, h]

end Equations

/-- A chain changed in the bucket of k answers for the other keys of that
bucket and leaves the other buckets alone. -/
theorem findIn_update_table {k k' : κ} {l : List (κ × α)}
    (hl : ∀ k', k' ≠ k → findIn l k' = findIn (t.table (bucketOf nb hash k)) k') (hk' : k' ≠ k) :
    findIn (Function.update t.table (bucketOf nb hash k) l (bucketOf nb hash k')) k' =
      findIn (t.table (bucketOf nb hash k')) k' := by
  by_cases hb : bucketOf nb hash k' = bucketOf nb hash k
  · rw [hb, Function.update_self, hl k' hk']
  · rw [Function.update_of_ne hb]

theorem lookup_insert (k : κ) (v : α) (k' : κ) :
    (t.insert nb hash k v).lookup nb hash k' = if k' = k then some v else t.lookup nb hash k' := by
  unfold lookup
  cases hfind : findIn (t.table (bucketOf nb hash k)) k with
  | some w =>
    have hsome : (findIn (t.table (bucketOf nb hash k)) k).isSome := by rw [hfind]; rfl
    rw [insert_of_findIn_some hfind]
    by_cases hk' : k' = k
    · subst hk'
      simp [findIn_replaceFirst hsome]
    · rw [if_neg hk']
      exact findIn_update_table (fun k'' hk'' => by rw [findIn_replaceFirst hsome, if_neg hk'']) hk'
  | none =>
    rw [insert_of_findIn_none hfind]
    by_cases hk' : k' = k
    · subst hk'
      simp [findIn_cons]
    · rw [if_neg hk']
      exact findIn_update_table (fun k'' hk'' => by rw [findIn_cons, if_neg (Ne.symm hk'')]) hk'

theorem lookup_erase (hwf : t.Wf nb hash) (k k' : κ) :
    (t.erase nb hash k).lookup nb hash k' = if k' = k then none else t.lookup nb hash k' := by
  unfold lookup
  cases hfind : findIn (t.table (bucketOf nb hash k)) k with
  | some w =>
    rw [erase_of_findIn_some hfind]
    by_cases hk' : k' = k
    · subst hk'
      simp [findIn_eraseP (hwf.unique _)]
    · rw [if_neg hk']
      exact findIn_update_table (fun k'' hk'' => by
        rw [findIn_eraseP (hwf.unique _), if_neg hk'']) hk'
  | none =>
    rw [erase_of_findIn_none hfind]
    by_cases hk' : k' = k
    · subst hk'
      simp [hfind]
    · rw [if_neg hk']

theorem Wf.insert (hwf : t.Wf nb hash) (hnb : 0 < nb) (k : κ) (v : α) :
    (t.insert nb hash k v).Wf nb hash := by
  have hb : bucketOf nb hash k < nb := bucketOf_lt hnb k
  cases hfind : findIn (t.table (bucketOf nb hash k)) k with
  | some w =>
    -- the entry of k keeps its place, only its value changes
    rw [insert_of_findIn_some hfind]
    refine hwf.update hb (fun e he => ?_) ?_ (by rw [length_replaceFirst])
    · have hmem : e.1 ∈ (t.table (bucketOf nb hash k)).map Prod.fst := by
        rw [← map_fst_replaceFirst (k := k) (v := v)]
        exact List.mem_map_of_mem he
      obtain ⟨e', he', hfst⟩ := List.mem_map.1 hmem
      rw [← hfst]
      exact hwf.placed _ e' he'
    · rw [map_fst_replaceFirst]
      exact hwf.unique _
  | none =>
    -- a new entry at the head of the chain of k
    rw [insert_of_findIn_none hfind]
    refine hwf.update hb (fun e he => ?_) ?_ (by simp only [List.length_cons]; omega)
    · rcases List.mem_cons.1 he with rfl | he
      · rfl
      · exact hwf.placed _ e he
    · rw [List.map_cons]
      exact List.nodup_cons.2 ⟨findIn_eq_none.1 hfind, hwf.unique _⟩

theorem Wf.erase (hwf : t.Wf nb hash) (hnb : 0 < nb) (k : κ) : (t.erase nb hash k).Wf nb hash := by
  have hb : bucketOf nb hash k < nb := bucketOf_lt hnb k
  cases hfind : findIn (t.table (bucketOf nb hash k)) k with
  | some w =>
    -- the first entry of k is unlinked; the chain held one
    rw [erase_of_findIn_some hfind]
    have hsub : List.Sublist ((t.table (bucketOf nb hash k)).eraseP fun e => decide (e.1 = k))
        (t.table (bucketOf nb hash k)) := List.eraseP_sublist
    have hany : (t.table (bucketOf nb hash k)).any (fun e => decide (e.1 = k)) = true := by
      rw [List.any_eq_true]
      exact ⟨(k, w), mem_of_findIn hfind, by simp⟩
    have hpos : 0 < (t.table (bucketOf nb hash k)).length :=
      List.length_pos_of_mem (mem_of_findIn hfind)
    have hle := length_table_le (t := t) hb
    refine hwf.update hb (fun e he => hwf.placed _ e (hsub.subset he))
      ((hwf.unique _).sublist (hsub.map Prod.fst)) ?_
    rw [List.length_eraseP, if_pos hany, hwf.size_eq]
    omega
  | none =>
    rw [erase_of_findIn_none hfind]
    exact hwf

theorem mem_entries (hwf : t.Wf nb hash) (hnb : 0 < nb) {e : κ × α} :
    e ∈ t.entries nb ↔ t.lookup nb hash e.1 = some e.2 := by
  rw [entries_eq_flatMap, List.mem_flatMap]
  constructor
  · rintro ⟨b, -, he⟩
    rw [lookup, hwf.placed b e he]
    exact findIn_of_mem (hwf.unique b) he
  · intro h
    exact ⟨bucketOf nb hash e.1, List.mem_range.2 (bucketOf_lt hnb _), mem_of_findIn h⟩

end Map

end ChainTable

end QemuKvm
