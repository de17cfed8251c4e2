import QemuKvm.Lib.ChainTable

/-!
# QDict (qdict.c)

A `QDict` is a chained hash table of `QDICT_BUCKET_MAX` buckets: the bucket
of a key is `tdb_hash(key) % QDICT_BUCKET_MAX`, `qdict_put_obj` replaces the
value of an entry it finds in that bucket or links a new entry at the
head, `qdict_del` unlinks the entry it finds, and `qdict_size` is a counter
kept by both. `qdict_iter` walks the buckets in order, and
`qdict_first` / `qdict_next` walk them by position, `qdict_next` finding
the bucket of the current entry again by hashing its key.

The model is `ChainTable` at these parameters. A key is the bytes of its C
string before the NUL, a value is whatever the dictionary stores (the
`QObject` pointer; reference counts are not modelled).

`qdict_refines_map` says that along every sequence of puts and deletes
from `qdict_new`, the dictionary is the finite map of the latest put of
each key not deleted since: `qdict_get` and `qdict_haskey` answer from it,
`qdict_size` counts its keys, and both ways of iterating visit each of its
keys once, with its value, and nothing else.
-/

namespace QemuKvm.QObject

open ChainTable

def QDICT_BUCKET_MAX : ℕ := 512

/-- The loop of `tdb_hash`, in `unsigned` arithmetic. -/
def tdbHashLoop : List UInt8 → UInt32 → UInt32 → UInt32
  | [], _, value => value
  | c :: cs, i, value => tdbHashLoop cs (i + 1) (value + (c.toUInt32 <<< (i * 5 % 24)))

/-- `tdb_hash(name)`. The initial value `0x238F13AF * strlen(name)` is
computed in `size_t` and stored in an `unsigned`, which keeps it modulo
2^32. -/
def tdbHash (name : List UInt8) : UInt32 :=
  1103515243 * tdbHashLoop name 0 (0x238F13AF * name.length.toUInt32) + 12345

def qdictHash (key : List UInt8) : ℕ := (tdbHash key).toNat

/-- `struct QDict`: `table[QDICT_BUCKET_MAX]` and `size`. -/
abbrev QDict (α : Type) := ChainTable (List UInt8) α

section Api

variable {α : Type}

def qdictNew : QDict α := ChainTable.empty

def qdictPutObj (qdict : QDict α) (key : List UInt8) (value : α) : QDict α :=
  qdict.insert QDICT_BUCKET_MAX qdictHash key value

/-- `qdict_get`: `none` for NULL. -/
def qdictGet (qdict : QDict α) (key : List UInt8) : Option α :=
  qdict.lookup QDICT_BUCKET_MAX qdictHash key

def qdictHaskey (qdict : QDict α) (key : List UInt8) : ℤ :=
  if (qdict.lookup QDICT_BUCKET_MAX qdictHash key).isSome then 1 else 0

def qdictSize (qdict : QDict α) : ℕ := qdict.size

def qdictDel (qdict : QDict α) (key : List UInt8) : QDict α :=
  qdict.erase QDICT_BUCKET_MAX qdictHash key

/-- The entries in the order `qdict_iter` reaches them. -/
def qdictEntries (qdict : QDict α) : List (List UInt8 × α) := qdict.entries QDICT_BUCKET_MAX

/-- `qdict_iter(qdict, iter, opaque)`: what the callback does to the state
behind its last argument, one entry after another. -/
def qdictIter {σ : Type} (qdict : QDict α) (iter : σ → List UInt8 → α → σ) (state : σ) : σ :=
  (qdictEntries qdict).foldl (fun s e => iter s e.1 e.2) state

/-- `qdict_first`: the position (bucket, place in the chain) of an entry. -/
def qdictFirst (qdict : QDict α) : Option (ℕ × ℕ) := qdict.first QDICT_BUCKET_MAX

def qdictNext (qdict : QDict α) (entry : ℕ × ℕ) : Option (ℕ × ℕ) :=
  qdict.next QDICT_BUCKET_MAX qdictHash entry

/-- The entries `for (e = qdict_first(d); e; e = qdict_next(d, e))` visits,
at most fuel of them. -/
def qdictLoop (qdict : QDict α) (fuel : ℕ) : List (List UInt8 × α) :=
  qdict.walk QDICT_BUCKET_MAX qdictHash fuel (qdictFirst qdict)

end Api

/-! ## Runs of puts and deletes -/

inductive QDictOp (α : Type)
  | put (key : List UInt8) (value : α)
  | del (key : List UInt8)

section Run

variable {α : Type}

def QDictOp.apply (qdict : QDict α) : QDictOp α → QDict α
  | .put key value => qdictPutObj qdict key value
  | .del key => qdictDel qdict key

/-- The dictionary after the calls, from `qdict_new()`. -/
def qdictRun (ops : List (QDictOp α)) : QDict α := ops.foldl QDictOp.apply qdictNew

/-- What a key should map to, reading the calls newest first: the value of
the latest put of the key, unless a delete of it came after. -/
def latestPut : List (QDictOp α) → List UInt8 → Option α
  | [], _ => none
  | .put k v :: ops, key => if k = key then some v else latestPut ops key
  | .del k :: ops, key => if k = key then none else latestPut ops key

theorem qdictRun_append (ops : List (QDictOp α)) (op : QDictOp α) :
    qdictRun (ops ++ [op]) = QDictOp.apply (qdictRun ops) op := by
  simp [qdictRun, List.foldl_append]

theorem wf_qdictRun (ops : List (QDictOp α)) :
    (qdictRun ops).Wf QDICT_BUCKET_MAX qdictHash := by
  have hnb : 0 < QDICT_BUCKET_MAX := by decide
  -- one call at a time, from the empty table
  induction ops using List.reverseRecOn with
  | nil => exact wf_empty
  | append_singleton ops op ih =>
    rw [qdictRun_append]
    cases op with
    | put key value => exact ih.insert hnb key value
    | del key => exact ih.erase hnb key

theorem qdictGet_qdictRun (ops : List (QDictOp α)) (key : List UInt8) :
    qdictGet (qdictRun ops) key = latestPut ops.reverse key := by
  induction ops using List.reverseRecOn generalizing key with
  | nil => rfl
  | append_singleton ops op ih =>
    rw [qdictRun_append, List.reverse_append, List.reverse_singleton, List.singleton_append]
    cases op with
    | put k v =>
      simp only [QDictOp.apply, qdictGet, qdictPutObj, lookup_insert, latestPut]
      by_cases hk : key = k
      · simp [hk]
      · rw [if_neg hk, if_neg (Ne.symm hk)]
        exact ih key
    | del k =>
      simp only [QDictOp.apply, qdictGet, qdictDel, lookup_erase (wf_qdictRun ops), latestPut]
      by_cases hk : key = k
      · simp [hk]
      · rw [if_neg hk, if_neg (Ne.symm hk)]
        exact ih key

/-- `qdict_iter` calls its callback once for each entry, in order. -/
theorem qdictIter_calls (qdict : QDict α) :
    qdictIter qdict (fun calls k v => calls ++ [(k, v)]) [] = qdictEntries qdict := by
  unfold qdictIter
  -- the calls so far are a prefix of the entries
  suffices h : ∀ (pre : List (List UInt8 × α)) (l : List (List UInt8 × α)),
      l.foldl (fun calls e => calls ++ [(e.1, e.2)]) pre = pre ++ l by
    simpa using h [] (qdictEntries qdict)
  intro pre l
  induction l generalizing pre with
  | nil => simp
  | cons e l ih => simp [ih]

/-- QDict refines a finite map: along every sequence of puts and deletes
from `qdict_new`, `qdict_get` gives the latest value put under a key not
deleted since, `qdict_haskey` agrees, the entries that `qdict_iter` and
the `qdict_first` / `qdict_next` loop visit hold each such key once with
its value and nothing else, and `qdict_size` is their number. -/
theorem qdict_refines_map (ops : List (QDictOp α)) :
    (∀ key, qdictGet (qdictRun ops) key = latestPut ops.reverse key) ∧
      (∀ key, qdictHaskey (qdictRun ops) key =
        if (latestPut ops.reverse key).isSome then 1 else 0) ∧
      qdictIter (qdictRun ops) (fun calls k v => calls ++ [(k, v)]) [] = qdictEntries (qdictRun ops) ∧
      ((qdictEntries (qdictRun ops)).map Prod.fst).Nodup ∧
      (∀ key value, (key, value) ∈ qdictEntries (qdictRun ops) ↔
        latestPut ops.reverse key = some value) ∧
      qdictSize (qdictRun ops) = (qdictEntries (qdictRun ops)).length ∧
      ∀ fuel, qdictSize (qdictRun ops) ≤ fuel →
        qdictLoop (qdictRun ops) fuel = qdictEntries (qdictRun ops) := by
  have hwf := wf_qdictRun ops
  have hnb : 0 < QDICT_BUCKET_MAX := by decide
  refine ⟨qdictGet_qdictRun ops, fun key => ?_, qdictIter_calls _, nodup_keys_entries hwf,
    fun key value => ?_, hwf.size_eq, fun fuel hfuel => ?_⟩
  · rw [qdictHaskey, ← qdictGet_qdictRun]
    rfl
  · rw [qdictEntries, mem_entries hwf hnb, ← qdictGet_qdictRun]
    rfl
  · exact walk_first hwf (hwf.size_eq ▸ hfuel)

end Run

end QemuKvm.QObject
