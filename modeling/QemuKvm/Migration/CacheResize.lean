import QemuKvm.Lib.Run
import QemuKvm.Migration.PageCache

/-!
# Resizing the XBZRLE page cache (page_cache.c)

`Migration.PageCache` keeps of each slot only its address and its page.
`cache_resize` also reads what that model leaves out: the age of each slot,
set from a counter that `cache_insert` increments, and the count of slots
holding a page. It builds a new cache of `pow2floor(new_num_pages)` slots
and copies the old slots into it in index order; when two old pages meet in
one new slot it means to keep the more recently inserted one.

It does not: a page that lands in an empty new slot goes there through
`cache_insert`, which gives it the new cache's counter as its age, 1 for
the first page moved, 2 for the second, and so on. A later old page that
collides with it is compared against that new age, not against the age
the page had.

Main results:

* `sound_run` — along every run of inserts and resizes from `cache_init`,
  every slot holds a page of its own slot, the empty marker goes with a
  `NULL` buffer, and `num_items` counts the slots holding a page;
* `cacheResize_from_old` — every page of a resized cache was in the cache
  before, in a slot of the same address;
* `toPageCache_cacheInsert` — without ages and count, `cache_insert` is the
  insert of `Migration.PageCache`;
* `cacheResize_keeps_older` — with page 0 inserted, then page 2, then page
  0 again, resizing four slots down to two keeps page 2 in the slot both
  map to, although page 0 is the more recent: page 0 is moved first and
  gets the new age 1, below page 2's age 2.
-/

namespace QemuKvm.Migration.Aged

/-- The all-ones `uint64_t` that marks an empty slot (`it_addr = -1`). -/
def EMPTY_ADDR : ℕ := 2 ^ 64 - 1

/-- `CacheItem`: `it_addr`, `it_age`, and `it_data` with `none` for `NULL`. -/
structure CacheItem where
  itAddr : ℕ
  itAge : ℕ
  itData : Option (List UInt8)
deriving DecidableEq, Repr

/-- A slot as `cache_init` leaves it. -/
def CacheItem.empty : CacheItem := ⟨EMPTY_ADDR, 0, none⟩

/-- `PageCache` with every field `page_cache.c` keeps. The ages are
counted in `ℕ`: the `uint64_t` counter would need 2^64 inserts to wrap. -/
structure PageCache where
  pageSize : ℕ
  maxNumItems : ℕ
  pageCache : ℕ → CacheItem
  maxItemAge : ℕ
  numItems : ℕ
  /-- `cache_init` rounds the number of slots down to a power of two. -/
  maxNumItems_pow : ∃ k, maxNumItems = 2 ^ k

theorem pow2floor_isPow (n : ℕ) : ∃ k, pow2floor n = 2 ^ k := ⟨_, rfl⟩

/-- `cache_init`: `NULL` for a number of pages that is not positive. -/
def cacheInit (numPages pageSize : ℕ) : Option PageCache :=
  if numPages = 0 then none
  else some ⟨pageSize, pow2floor numPages, fun _ => .empty, 0, 0, pow2floor_isPow numPages⟩

/-- `cache_get_cache_pos`. -/
def cacheGetCachePos (cache : PageCache) (address : ℕ) : ℕ :=
  (address / cache.pageSize) &&& (cache.maxNumItems - 1)

/-- `cache_insert`: the slot is overwritten and gets the next age; the count
goes up when the slot had no buffer. -/
def cacheInsert (cache : PageCache) (addr : ℕ) (pdata : Option (List UInt8)) : PageCache :=
  let pos := cacheGetCachePos cache addr
  let age := cache.maxItemAge + 1
  { cache with
    pageCache := Function.update cache.pageCache pos ⟨addr, age, pdata⟩
    maxItemAge := age
    numItems := if (cache.pageCache pos).itData.isNone then cache.numItems + 1 else cache.numItems }

/-- One round of the copy loop of `cache_resize`: the old slot's page goes
to its slot in the new cache, through `cache_insert` when that slot is
empty, and over the page there only when the old age is the larger. -/
def cacheResizeMove (newCache : PageCache) (oldIt : CacheItem) : PageCache :=
  if oldIt.itAddr = EMPTY_ADDR then newCache
  else
    let pos := cacheGetCachePos newCache oldIt.itAddr
    let newIt := newCache.pageCache pos
    if newIt.itData.isSome then
      -- "keep the MRU page"
      if oldIt.itAge ≤ newIt.itAge then newCache
      else { newCache with pageCache := Function.update newCache.pageCache pos oldIt }
    else cacheInsert newCache oldIt.itAddr oldIt.itData

/-- `cache_resize(cache, new_num_pages)`: the value returned and the cache
after it. The cache keeps its own `max_item_age`. -/
def cacheResize (cache : PageCache) (newNumPages : ℕ) : ℤ × PageCache :=
  -- `pow2floor(0)` is not a size the cache can have
  if 0 < newNumPages ∧ pow2floor newNumPages = cache.maxNumItems then
    (cache.maxNumItems, cache)
  else
    match cacheInit newNumPages cache.pageSize with
    | none => (-1, cache)
    | some newCache =>
      let newCache := (List.range cache.maxNumItems).foldl
        (fun nc i => cacheResizeMove nc (cache.pageCache i)) newCache
      (newCache.maxNumItems,
        { cache with
          pageCache := newCache.pageCache
          maxNumItems := newCache.maxNumItems
          numItems := newCache.numItems
          maxNumItems_pow := newCache.maxNumItems_pow })

/-- What the migration code does to the cache: insert a page it sent, or
resize the cache from `migrate_set_cache_size`. -/
inductive CacheOp
  | insert (addr : ℕ) (pdata : List UInt8)
  | resize (newNumPages : ℕ)

/-- One operation, with what it returns (`cache_resize`'s size; 0 for an
insert, which returns nothing). -/
def cacheStep (cache : PageCache) : CacheOp → PageCache × ℤ
  | .insert addr pdata => (cacheInsert cache addr (some pdata), 0)
  | .resize n => ((cacheResize cache n).2, (cacheResize cache n).1)

/-- The slots below `max_num_items` that hold a buffer. -/
def occupied (cache : PageCache) : ℕ :=
  (List.range cache.maxNumItems).countP fun i => (cache.pageCache i).itData.isSome

/-- The slots of `Migration.PageCache`: a slot holds its address and page
when its buffer is not `NULL`. -/
def toPageCache (cache : PageCache) : Migration.PageCache :=
  ⟨cache.pageSize, cache.maxNumItems,
    fun i => (cache.pageCache i).itData.map fun d => ((cache.pageCache i).itAddr, d),
    cache.maxNumItems_pow⟩

/-- What `page_cache.c` keeps true of a cache: a slot holds a page of its
own slot, the empty marker goes with a `NULL` buffer, and `num_items`
counts the slots with a buffer. -/
structure Sound (cache : PageCache) : Prop where
  slot : ∀ i < cache.maxNumItems, (cache.pageCache i).itAddr ≠ EMPTY_ADDR →
    cacheGetCachePos cache (cache.pageCache i).itAddr = i
  marker : ∀ i < cache.maxNumItems,
    (cache.pageCache i).itAddr = EMPTY_ADDR ↔ (cache.pageCache i).itData = none
  count : cache.numItems = occupied cache

/-- An insert a run may make: a page's address is never the empty marker. -/
def CacheOp.Valid : CacheOp → Prop
  | .insert addr _ => addr ≠ EMPTY_ADDR
  | .resize _ => True

/-- Overwriting one entry below `n` changes a count over `range n` by what
the entry counted before and after. -/
theorem countP_range_update {β : Type*} (f : ℕ → β) (P : β → Bool) (v : β) {p : ℕ} :
    ∀ {n}, p < n → (List.range n).countP (fun i => P (Function.update f p v i)) +
      (if P (f p) then 1 else 0) =
      (List.range n).countP (fun i => P (f i)) + (if P v then 1 else 0)
  | 0, hp => absurd hp (Nat.not_lt_zero p)
  | n + 1, hp => by
    rw [List.range_succ, List.countP_append, List.countP_append]
    rcases Nat.lt_succ_iff_lt_or_eq.1 hp with hlt | rfl
    · -- the entry is below `n`: the last element is another one
      have ih := countP_range_update f P v hlt
      simp only [List.countP_singleton, Function.update_of_ne (Nat.ne_of_gt hlt)]
      omega
    · -- the entry is the last one: the others are untouched
      have hsame : (List.range p).countP (fun i => P (Function.update f p v i)) =
          (List.range p).countP (fun i => P (f i)) := by
        apply List.countP_congr
        intro i hi
        rw [Function.update_of_ne (Nat.ne_of_lt (List.mem_range.1 hi))]
      simp only [hsame, Function.update_self, List.countP_singleton]
      split_ifs <;> omega

section Sound

variable {cache : PageCache}

theorem maxNumItems_pos (cache : PageCache) : 0 < cache.maxNumItems := by
  obtain ⟨k, hk⟩ := cache.maxNumItems_pow
  rw [hk]
  exact Nat.two_pow_pos k

theorem cacheGetCachePos_lt (cache : PageCache) (addr : ℕ) :
    cacheGetCachePos cache addr < cache.maxNumItems := by
  have hle : cacheGetCachePos cache addr ≤ cache.maxNumItems - 1 := Nat.and_le_right
  have := maxNumItems_pos cache
  omega

@[simp] theorem cacheInsert_pageSize (addr : ℕ) (pdata : Option (List UInt8)) :
    (cacheInsert cache addr pdata).pageSize = cache.pageSize := rfl

@[simp] theorem cacheInsert_maxNumItems (addr : ℕ) (pdata : Option (List UInt8)) :
    (cacheInsert cache addr pdata).maxNumItems = cache.maxNumItems := rfl

@[simp] theorem cacheInsert_pageCache (addr : ℕ) (pdata : Option (List UInt8)) :
    (cacheInsert cache addr pdata).pageCache = Function.update cache.pageCache
      (cacheGetCachePos cache addr) ⟨addr, cache.maxItemAge + 1, pdata⟩ := rfl

/-- The slot of an address depends on the page size and the size only. -/
theorem cacheGetCachePos_congr {c c' : PageCache} (hps : c'.pageSize = c.pageSize)
    (hmax : c'.maxNumItems = c.maxNumItems) (a : ℕ) :
    cacheGetCachePos c' a = cacheGetCachePos c a := by
  rw [cacheGetCachePos, cacheGetCachePos, hps, hmax]

/-- A slot written with an item of its own slot, whose marker agrees with
its buffer, keeps the first two parts of `Sound`. -/
theorem Sound.update_slot (h : Sound cache) {pos : ℕ} {it : CacheItem}
    (hit : it.itAddr ≠ EMPTY_ADDR → cacheGetCachePos cache it.itAddr = pos)
    (hmark : it.itAddr = EMPTY_ADDR ↔ it.itData = none) :
    (∀ i < cache.maxNumItems, (Function.update cache.pageCache pos it i).itAddr ≠ EMPTY_ADDR →
      cacheGetCachePos cache (Function.update cache.pageCache pos it i).itAddr = i) ∧
    (∀ i < cache.maxNumItems, (Function.update cache.pageCache pos it i).itAddr = EMPTY_ADDR ↔
      (Function.update cache.pageCache pos it i).itData = none) := by
  constructor
  · intro i hi hne
    rcases eq_or_ne i pos with rfl | hi'
    · rw [Function.update_self] at hne ⊢
      exact hit hne
    · rw [Function.update_of_ne hi'] at hne ⊢
      exact h.slot i hi hne
  · intro i hi
    rcases eq_or_ne i pos with rfl | hi'
    · rw [Function.update_self]
      exact hmark
    · rw [Function.update_of_ne hi']
      exact h.marker i hi

/-- The count after a slot is written: up by one when an empty slot gets a
buffer. -/
theorem occupied_update {pos : ℕ} (hpos : pos < cache.maxNumItems) (it : CacheItem) :
    occupied { cache with pageCache := Function.update cache.pageCache pos it } +
      (if (cache.pageCache pos).itData.isSome then 1 else 0) =
      occupied cache + (if it.itData.isSome then 1 else 0) :=
  countP_range_update cache.pageCache (fun it => it.itData.isSome) it hpos

/-- `cache_insert` of a page keeps the cache sound. (Of a `NULL` buffer it
would not: the count goes up and the slot stays without a buffer.) -/
theorem Sound.insert (h : Sound cache) {addr : ℕ} (hne : addr ≠ EMPTY_ADDR) (d : List UInt8) :
    Sound (cacheInsert cache addr (some d)) := by
  have hpos := cacheGetCachePos_lt cache addr
  obtain ⟨hslot, hmarker⟩ := @Sound.update_slot cache h (cacheGetCachePos cache addr)
    ⟨addr, cache.maxItemAge + 1, some d⟩ (fun _ => rfl) (by simp [hne])
  refine ⟨?_, ?_, ?_⟩
  · intro i hi hne
    rw [cacheInsert_pageCache, cacheGetCachePos_congr rfl rfl]
    exact hslot i hi hne
  · exact hmarker
  · -- the count goes up exactly when the slot had no buffer
    have hocc := occupied_update hpos ⟨addr, cache.maxItemAge + 1, some d⟩
    have hcount := h.count
    simp only [cacheInsert, occupied] at hocc hcount ⊢
    cases hd : (cache.pageCache (cacheGetCachePos cache addr)).itData <;> simp_all

@[simp] theorem cacheResizeMove_pageSize (oldIt : CacheItem) :
    (cacheResizeMove cache oldIt).pageSize = cache.pageSize := by
  dsimp only [cacheResizeMove]
  split_ifs <;> rfl

@[simp] theorem cacheResizeMove_maxNumItems (oldIt : CacheItem) :
    (cacheResizeMove cache oldIt).maxNumItems = cache.maxNumItems := by
  dsimp only [cacheResizeMove]
  split_ifs <;> rfl

/-- One round of the copy loop keeps the new cache sound. -/
theorem Sound.move (h : Sound cache) {oldIt : CacheItem}
    (hmark : oldIt.itAddr = EMPTY_ADDR ↔ oldIt.itData = none) :
    Sound (cacheResizeMove cache oldIt) := by
  dsimp only [cacheResizeMove]
  split_ifs with hempty hdata hage
  · exact h
  · exact h
  · -- the old page takes the place of the one there: the count stays
    have hpos := cacheGetCachePos_lt cache oldIt.itAddr
    obtain ⟨hslot, hmarker⟩ := @Sound.update_slot cache h (cacheGetCachePos cache oldIt.itAddr)
      oldIt (fun _ => rfl) hmark
    refine ⟨hslot, hmarker, ?_⟩
    have hsome : oldIt.itData.isSome := by
      cases hd : oldIt.itData with
      | none => exact absurd (hmark.2 hd) hempty
      | some d => rfl
    have hocc := occupied_update hpos oldIt
    rw [if_pos hdata, if_pos hsome] at hocc
    have hcount := h.count
    show cache.numItems = _
    omega
  · -- an empty slot: `cache_insert` of the old page
    obtain ⟨d, hd⟩ : ∃ d, oldIt.itData = some d :=
      Option.ne_none_iff_exists'.1 fun hnone => hempty (hmark.2 hnone)
    rw [hd]
    exact h.insert hempty d

/-- The copy loop keeps the new cache sound, when the old slots it copies
have markers that agree with their buffers. -/
theorem Sound.foldl_move (old : ℕ → CacheItem) :
    ∀ (is : List ℕ) {nc : PageCache}, Sound nc →
      (∀ i ∈ is, (old i).itAddr = EMPTY_ADDR ↔ (old i).itData = none) →
      Sound (is.foldl (fun nc i => cacheResizeMove nc (old i)) nc)
  | [], _, h, _ => h
  | i :: is, _, h, hmark =>
    Sound.foldl_move old is (h.move (hmark i List.mem_cons_self))
      fun j hj => hmark j (List.mem_cons_of_mem i hj)

theorem foldl_move_pageSize (old : ℕ → CacheItem) (is : List ℕ) (nc : PageCache) :
    (is.foldl (fun nc i => cacheResizeMove nc (old i)) nc).pageSize = nc.pageSize := by
  induction is generalizing nc with
  | nil => rfl
  | cons i is ih => rw [List.foldl_cons, ih, cacheResizeMove_pageSize]

/-- A new cache: every slot empty, no item counted. -/
theorem cacheInit_eq_some {n ps : ℕ} {c : PageCache} (h : cacheInit n ps = some c) :
    c.pageSize = ps ∧ c.maxNumItems = pow2floor n ∧ c.pageCache = (fun _ => .empty) ∧
      c.maxItemAge = 0 ∧ c.numItems = 0 := by
  unfold cacheInit at h
  split_ifs at h
  cases h
  exact ⟨rfl, rfl, rfl, rfl, rfl⟩

theorem sound_cacheInit {n ps : ℕ} {c : PageCache} (h : cacheInit n ps = some c) : Sound c := by
  obtain ⟨-, -, hslots, -, hnum⟩ := cacheInit_eq_some h
  refine ⟨?_, ?_, ?_⟩
  · intro i _ hne
    rw [hslots] at hne
    exact absurd rfl hne
  · intro i _
    rw [hslots]
    exact ⟨fun _ => rfl, fun _ => rfl⟩
  · rw [hnum, occupied, hslots]
    simp [CacheItem.empty]

/-- Soundness depends only on the page size, the slots and the count. -/
theorem Sound.congr {c c' : PageCache} (h : Sound c) (hps : c'.pageSize = c.pageSize)
    (hmax : c'.maxNumItems = c.maxNumItems) (hslots : c'.pageCache = c.pageCache)
    (hnum : c'.numItems = c.numItems) : Sound c' := by
  obtain ⟨hslot, hmarker, hcount⟩ := h
  refine ⟨?_, ?_, ?_⟩
  · intro i hi hne
    rw [cacheGetCachePos_congr hps hmax, hslots]
    rw [hmax] at hi
    rw [hslots] at hne
    exact hslot i hi hne
  · intro i hi
    rw [hslots]
    exact hmarker i (hmax ▸ hi)
  · rw [hnum, hcount, occupied, occupied, hmax, hslots]

/-- `cache_resize` keeps the cache sound. -/
theorem Sound.resize (h : Sound cache) (n : ℕ) : Sound (cacheResize cache n).2 := by
  unfold cacheResize
  split_ifs
  · exact h
  · cases hinit : cacheInit n cache.pageSize with
    | none => exact h
    | some nc =>
      have hnc := (sound_cacheInit hinit).foldl_move cache.pageCache (List.range cache.maxNumItems)
        fun i hi => h.marker i (List.mem_range.1 hi)
      refine hnc.congr ?_ rfl rfl rfl
      rw [foldl_move_pageSize, (cacheInit_eq_some hinit).1]

/-- Every cache a run of inserts and resizes reaches from `cache_init` is
sound. -/
theorem sound_run {n ps : ℕ} {c : PageCache} (hinit : cacheInit n ps = some c) (ops : List CacheOp)
    (hops : ∀ op ∈ ops, op.Valid) : Sound (run cacheStep c ops) := by
  refine run_invariant_of_forall cacheStep Sound CacheOp.Valid ?_ (sound_cacheInit hinit) ops hops
  intro cache op hvalid h
  cases op with
  | insert addr pdata => exact h.insert hvalid pdata
  | resize k => exact h.resize k

end Sound

section Resize

/-- After one round of the copy loop a slot is as it was, or holds the old
slot's address and buffer. -/
theorem cacheResizeMove_slot (nc : PageCache) (oldIt : CacheItem) (j : ℕ) :
    (cacheResizeMove nc oldIt).pageCache j = nc.pageCache j ∨
      ((cacheResizeMove nc oldIt).pageCache j).itAddr = oldIt.itAddr ∧
      ((cacheResizeMove nc oldIt).pageCache j).itData = oldIt.itData := by
  dsimp only [cacheResizeMove]
  split_ifs with hempty hdata hage
  · exact .inl rfl
  · exact .inl rfl
  · rcases eq_or_ne j (cacheGetCachePos nc oldIt.itAddr) with rfl | hj
    · exact .inr ⟨by simp, by simp⟩
    · exact .inl (Function.update_of_ne hj _ _)
  · rcases eq_or_ne j (cacheGetCachePos nc oldIt.itAddr) with rfl | hj
    · exact .inr ⟨by simp, by simp⟩
    · exact .inl (by rw [cacheInsert_pageCache, Function.update_of_ne hj])

theorem foldl_move_slot (old : ℕ → CacheItem) (j : ℕ) :
    ∀ (is : List ℕ) (nc : PageCache),
      (is.foldl (fun nc i => cacheResizeMove nc (old i)) nc).pageCache j = nc.pageCache j ∨
      ∃ i ∈ is, ((is.foldl (fun nc i => cacheResizeMove nc (old i)) nc).pageCache j).itAddr =
          (old i).itAddr ∧
        ((is.foldl (fun nc i => cacheResizeMove nc (old i)) nc).pageCache j).itData = (old i).itData
  | [], _ => .inl rfl
  | i :: is, nc => by
    rw [List.foldl_cons]
    rcases foldl_move_slot old j is (cacheResizeMove nc (old i)) with hsame | ⟨k, hk, hslot⟩
    · rw [hsame]
      rcases cacheResizeMove_slot nc (old i) j with hnc | hmoved
      · exact .inl hnc
      · exact .inr ⟨i, List.mem_cons_self, hmoved⟩
    · exact .inr ⟨k, List.mem_cons_of_mem i hk, hslot⟩

/-- No page is made up by `cache_resize`: each page of the resized cache
was in a slot of the old one, at the same address. -/
theorem cacheResize_from_old (cache : PageCache) (n j : ℕ)
    (hj : j < (cacheResize cache n).2.maxNumItems)
    (hdata : ((cacheResize cache n).2.pageCache j).itData.isSome) :
    ∃ i < cache.maxNumItems,
      ((cacheResize cache n).2.pageCache j).itAddr = (cache.pageCache i).itAddr ∧
      ((cacheResize cache n).2.pageCache j).itData = (cache.pageCache i).itData := by
  revert hj hdata
  unfold cacheResize
  split_ifs with hsame
  · intro hj _
    exact ⟨j, hj, rfl, rfl⟩
  · cases hinit : cacheInit n cache.pageSize with
    | none => intro hj _; exact ⟨j, hj, rfl, rfl⟩
    | some nc =>
      intro _ hdata
      rcases foldl_move_slot cache.pageCache j (List.range cache.maxNumItems) nc with
        hempty | ⟨i, hi, hslot⟩
      · -- a slot the loop did not write is still empty
        rw [hempty, (cacheInit_eq_some hinit).2.2.1] at hdata
        cases hdata
      · exact ⟨i, List.mem_range.1 hi, hslot⟩

/-- Forgetting ages and count, `cache_insert` of a page is the insert of
`Migration.PageCache`. -/
theorem toPageCache_cacheInsert (cache : PageCache) (addr : ℕ) (d : List UInt8) :
    toPageCache (cacheInsert cache addr (some d)) =
      Migration.cacheInsert (toPageCache cache) addr d := by
  have hslots : (toPageCache (cacheInsert cache addr (some d))).pageCache =
      Function.update (toPageCache cache).pageCache (cacheGetCachePos cache addr) (some (addr, d)) := by
    funext j
    rcases eq_or_ne j (cacheGetCachePos cache addr) with rfl | hj
    · simp [toPageCache]
    · simp [toPageCache, Function.update_of_ne hj]
  change _ = { toPageCache cache with
    pageCache := Function.update (toPageCache cache).pageCache (cacheGetCachePos cache addr)
      (some (addr, d)) }
  rw [← hslots]
  rfl

end Resize

section Older

variable {ps : ℕ}

/-- A resize to another size: the copy loop over the old slots, into a new
cache. -/
theorem cacheResize_of_init {cache : PageCache} {n : ℕ} {nc : PageCache}
    (hsize : ¬(0 < n ∧ pow2floor n = cache.maxNumItems))
    (hinit : cacheInit n cache.pageSize = some nc) :
    let r := (List.range cache.maxNumItems).foldl
      (fun nc i => cacheResizeMove nc (cache.pageCache i)) nc
    (cacheResize cache n).2 = { cache with
      pageCache := r.pageCache, maxNumItems := r.maxNumItems, numItems := r.numItems,
      maxNumItems_pow := r.maxNumItems_pow } := by
  intro r
  rw [cacheResize, if_neg hsize, hinit]

theorem pow2floor_two_pow (k : ℕ) : pow2floor (2 ^ k) = 2 ^ k := by
  rw [pow2floor, Nat.log_pow Nat.one_lt_two]

/-- The slot of the address of page `k`: `k` masked by the size. -/
theorem cacheGetCachePos_page (cache : PageCache) (hps : 0 < cache.pageSize) (k : ℕ) :
    cacheGetCachePos cache (k * cache.pageSize) = k &&& (cache.maxNumItems - 1) := by
  rw [cacheGetCachePos, Nat.mul_div_cancel k hps]

theorem cacheResize_keeps_older (hps : 0 < ps) (dA₀ dA dB : List UInt8) :
    ∃ c₀, cacheInit 4 ps = some c₀ ∧
      let c := cacheInsert (cacheInsert (cacheInsert c₀ 0 (some dA₀)) (2 * ps) (some dB)) 0 (some dA)
      c.pageCache 0 = ⟨0, 3, some dA⟩ ∧ c.pageCache 2 = ⟨2 * ps, 2, some dB⟩ ∧
      cacheGetCachePos (cacheResize c 2).2 0 = 0 ∧
      cacheGetCachePos (cacheResize c 2).2 (2 * ps) = 0 ∧
      (cacheResize c 2).2.pageCache 0 = ⟨2 * ps, 2, some dB⟩ := by
  have h4 : pow2floor 4 = 4 := pow2floor_two_pow 2
  have h2 : pow2floor 2 = 2 := pow2floor_two_pow 1
  refine ⟨⟨ps, 4, fun _ => .empty, 0, 0, ⟨2, rfl⟩⟩, ?_, ?_⟩
  · simp [cacheInit, h4]
  · intro c
    have hp0 : ∀ cache : PageCache, cacheGetCachePos cache 0 = 0 := fun cache => by
      simp [cacheGetCachePos]
    have hp2 : ∀ cache : PageCache, cache.pageSize = ps → cacheGetCachePos cache (2 * ps) =
        2 &&& (cache.maxNumItems - 1) := fun cache h => by
      simpa [h] using cacheGetCachePos_page cache (h ▸ hps) 2
    have hB : 2 * ps ≠ EMPTY_ADDR := by
      unfold EMPTY_ADDR
      omega
    -- page 0 is in slot 0 with age 3, page 2 in slot 2 with age 2
    have hslots : c.pageCache = Function.update (Function.update (Function.update
        (fun _ => .empty) 0 ⟨0, 1, some dA₀⟩) 2 ⟨2 * ps, 2, some dB⟩) 0 ⟨0, 3, some dA⟩ := by
      simp [c, cacheInsert, hp0, hp2]
    have hc : c.maxNumItems = 4 ∧ c.pageSize = ps := ⟨rfl, rfl⟩
    -- the resize goes to a new cache of two slots
    have hsize : ¬(0 < 2 ∧ pow2floor 2 = c.maxNumItems) := by
      rw [h2, hc.1]
      decide
    let nc₀ : PageCache := ⟨ps, 2, fun _ => .empty, 0, 0, ⟨1, rfl⟩⟩
    have hinit : cacheInit 2 c.pageSize = some nc₀ := by
      simp [cacheInit, h2, hc.2, nc₀]
    rw [cacheResize_of_init hsize hinit, hc.1]
    -- the copy loop: page 0 goes to the empty slot 0 with the new age 1, and
    -- page 2, of age 2, takes its place
    have hskip : ∀ nc, cacheResizeMove nc .empty = nc := fun nc => by
      simp [cacheResizeMove, CacheItem.empty]
    have hm0 : cacheResizeMove nc₀ ⟨0, 3, some dA⟩ = cacheInsert nc₀ 0 (some dA) := by
      simp [cacheResizeMove, EMPTY_ADDR, nc₀, CacheItem.empty]
    have hpos : cacheGetCachePos (cacheInsert nc₀ 0 (some dA)) (2 * ps) = 0 := by
      rw [hp2 _ rfl]
      simp [nc₀]
    have hm2 : cacheResizeMove (cacheInsert nc₀ 0 (some dA)) ⟨2 * ps, 2, some dB⟩ =
        { cacheInsert nc₀ 0 (some dA) with
          pageCache := Function.update (cacheInsert nc₀ 0 (some dA)).pageCache 0
            ⟨2 * ps, 2, some dB⟩ } := by
      simp [cacheResizeMove, hB, hpos, hp0, nc₀]
    have hrange : List.range 4 = [0, 1, 2, 3] := rfl
    have hs : c.pageCache 0 = ⟨0, 3, some dA⟩ ∧ c.pageCache 1 = .empty ∧
        c.pageCache 2 = ⟨2 * ps, 2, some dB⟩ ∧ c.pageCache 3 = .empty := by
      simp [hslots]
    refine ⟨hs.1, hs.2.2.1, hp0 _, ?_, ?_⟩ <;>
      simp only [hrange, List.foldl_cons, List.foldl_nil, hs.1, hs.2.1, hs.2.2.1, hs.2.2.2, hm0,
        hskip, hm2]
    · rw [hp2 _ rfl]
      simp [nc₀]
    · simp

/-- With 4096-byte pages: page 0 sent twice, page 2 once in between. -/
theorem cacheResize_keeps_older_pages :
    ∃ c₀, cacheInit 4 4096 = some c₀ ∧
      let c := cacheInsert (cacheInsert (cacheInsert c₀ 0 (some [0])) (2 * 4096) (some [2])) 0
        (some [1])
      c.pageCache 0 = ⟨0, 3, some [1]⟩ ∧ c.pageCache 2 = ⟨2 * 4096, 2, some [2]⟩ ∧
      cacheGetCachePos (cacheResize c 2).2 0 = 0 ∧
      cacheGetCachePos (cacheResize c 2).2 (2 * 4096) = 0 ∧
      (cacheResize c 2).2.pageCache 0 = ⟨2 * 4096, 2, some [2]⟩ :=
  @cacheResize_keeps_older 4096 (by decide) [0] [1] [2]

end Older

end QemuKvm.Migration.Aged
