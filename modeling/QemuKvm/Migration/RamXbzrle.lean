import QemuKvm.Migration.Ram
import QemuKvm.Migration.Xbzrle
import QemuKvm.Migration.PageCache

/-!
# Pre-copy with XBZRLE (arch_init.c)

With the XBZRLE capability on, `ram_save_block` sends a dirty page that is
not a duplicate page as a delta against the sender's copy of what it sent
last (`save_xbzrle_page`): the copies live in the page cache (`PageCache`),
the delta is `xbzrle_encode_buffer` of the cached page and the current one,
and the destination's `load_xbzrle` applies it to its own copy of the page
with `xbzrle_decode_buffer`. Four ways out of `save_xbzrle_page`: a cache
miss inserts the page and sends it whole; an unchanged page sends nothing
and `ram_save_block` scans on; an encoding that overflows the page copies
the page into the cache and sends it whole; otherwise the delta is sent and
the cache takes the new page. In the first three whole-page cases the bytes
sent are the cached copy (`p = get_cached_data(...)`).

The deltas are right only if the destination's page is the cached one
whenever the address is cached (`Mirror`). `cacheMirror_sendPageXbzrle` shows
that every path through `save_xbzrle_page`, loaded by `ram_load`, keeps
that for the page sent. The path that does not go through it is the
duplicate page: `ram_save_block` sends it as `RAM_SAVE_FLAG_COMPRESS` and
leaves its cache entry alone. `xbzrle_stale_cache` is a run from
`ram_save_setup` in which a cached page becomes all zeros, is sent as a
duplicate, and its next delta is applied to the zero page: afterwards the
destination's page is not the one the sender sent.

The rest of `ram_save_block` (the scan, `last_block`, the block headers)
is `Migration.Ram`'s; accounting (`acct_info`) is left out.
-/

namespace QemuKvm.Migration

open QemuKvm.Exec

def ENCODING_FLAG_XBZRLE : UInt8 := 0x1

/-- `sizeof(long)` on the LP64 hosts the encoder is run on. -/
def SIZEOF_LONG : ℕ := 8

/-! ## The stream -/

/-- The records of the RAM section with XBZRLE: those of `Migration.Ram`,
and `RAM_SAVE_FLAG_XBZRLE` with its encoding flag, its length and the
encoded bytes. -/
inductive XbzrleRecord where
  | ram (r : RamRecord)
  | xbzrle (hdr : BlockHdr) (xhFlags : UInt8) (xhLen : ℕ) (data : List UInt8)

/-! ## The sender -/

/-- `save_xbzrle_page(f, current_data, current_addr, ...)`: the cache after
it, what it put in the stream, and its return value. -/
def saveXbzrlePage (cache : PageCache) (currentData : List UInt8) (currentAddr : ℕ)
    (hdr : BlockHdr) (lastStage : Bool) : PageCache × List XbzrleRecord × ℤ :=
  if !cacheIsCached cache currentAddr then
    ((if lastStage then cache else cacheInsert cache currentAddr currentData), [], -1)
  else
    let prevCachedPage := (getCachedData cache currentAddr).getD []
    let r := xbzrleEncodeBuffer SIZEOF_LONG prevCachedPage currentData TARGET_PAGE_SIZE
      TARGET_PAGE_SIZE
    -- "Skipping unmodified page"
    if r.1 = 0 then (cache, [], 0)
    -- overflow: the page goes whole, and into the cache
    else if r.1 = -1 then (cacheUpdate cache currentAddr currentData, [], -1)
    else
      ((if lastStage then cache else cacheUpdate cache currentAddr currentData),
        [.xbzrle hdr ENCODING_FLAG_XBZRLE r.1.toNat r.2], r.1 + 1 + 2)

/-- The sender's side of `ram_save_block` as it goes: RAM and its flags, the
cache, what it has put in the stream, and `bytes_sent`. -/
structure XbzrleSave where
  src : RamState
  cache : PageCache
  records : List XbzrleRecord
  bytesSent : ℤ

/-- The loop body of `ram_save_block` on a page whose migration bit is set. -/
def sendPageXbzrle (blocks : List RAMBlock) (cur : SaveCursor) (lastStage : Bool) (x : XbzrleSave)
    (b offset : ℕ) : XbzrleSave :=
  let blk := blocks.getD b default
  let p := pageAddr blocks b offset
  let src := resetDirty x.src p (p + TARGET_PAGE_SIZE) MIGRATION_DIRTY_FLAG
  let hdr := saveBlockHdr blk offset (decide (some b = cur.lastBlock))
  if isDupPage src.mem p then
    ⟨src, x.cache, x.records ++ [.ram (.compress hdr (src.mem p))], 1⟩
  else
    let currentAddr := blk.offset + offset
    let r := saveXbzrlePage x.cache (pageData src.mem p) currentAddr hdr lastStage
    -- not sent yet: the whole page, from the cache unless at the last stage
    if r.2.2 = -1 then
      let data := if lastStage then pageData src.mem p else (getCachedData r.1 currentAddr).getD []
      ⟨src, r.1, x.records ++ r.2.1 ++ [.ram (.page hdr data)], TARGET_PAGE_SIZE⟩
    else ⟨src, r.1, x.records ++ r.2.1, r.2.2⟩

/-- The loop of `ram_save_block`: a page whose delta is empty does not stop
the scan. `none` stands for a loop that does not stop. -/
def saveBlockLoopXbzrle (blocks : List RAMBlock) (cur : SaveCursor) (lastStage : Bool) :
    ℕ → XbzrleSave → ℕ → ℕ → Option (XbzrleSave × SaveCursor)
  | 0, _, _, _ => none
  | fuel + 1, x, b, offset =>
    let dirty := getDirty x.src (pageAddr blocks b offset) TARGET_PAGE_SIZE MIGRATION_DIRTY_FLAG ≠ 0
    let x := if dirty then sendPageXbzrle blocks cur lastStage x b offset else x
    if dirty ∧ x.bytesSent ≠ 0 then some (x, ⟨some b, offset⟩)
    else
      let c := advance blocks b offset
      if some c.1 ≠ cur.lastBlock ∨ c.2 ≠ cur.lastOffset then
        saveBlockLoopXbzrle blocks cur lastStage fuel x c.1 c.2
      else some (x, ⟨some c.1, c.2⟩)

/-- `ram_save_block(f, last_stage)` with XBZRLE on. -/
def ramSaveBlockXbzrle (blocks : List RAMBlock) (cur : SaveCursor) (lastStage : Bool)
    (src : RamState) (cache : PageCache) : Option (XbzrleSave × SaveCursor) :=
  saveBlockLoopXbzrle blocks cur lastStage (totalPages blocks + 1) ⟨src, cache, [], -1⟩
    (cur.lastBlock.getD 0) cur.lastOffset

/-! ## The receiver -/

/-- `load_xbzrle` on the page at `p`: the memory after decoding, or `none`
for its `-1` (`ram_load` then fails, whatever the decoder wrote). -/
def loadXbzrle (mem : ℕ → UInt8) (p : ℕ) (xhFlags : UInt8) (xhLen : ℕ) (data : List UInt8) :
    Option (ℕ → UInt8) :=
  if xhFlags ≠ ENCODING_FLAG_XBZRLE then none
  else if xhLen > TARGET_PAGE_SIZE then none
  else
    let r := xbzrleDecodeBuffer (data.take xhLen) xhLen (pageData mem p) TARGET_PAGE_SIZE
    if r.1 = -1 then none
    -- "exceeds": abort()
    else if r.1 > TARGET_PAGE_SIZE then none
    else some (writeBytes mem p r.2)

/-- One record of `ram_load` with XBZRLE on. -/
def ramLoadXbzrleRecord (blocks : List RAMBlock) (ls : LoadState) :
    XbzrleRecord → Option LoadState
  | .ram r => ramLoadRecord blocks ls r
  | .xbzrle hdr xhFlags xhLen data =>
    let r := hostFromStreamOffset blocks ls hdr
    r.1.bind fun blk =>
      (loadXbzrle r.2.mem (blk.offset + hdr.offset) xhFlags xhLen data).map
        fun mem => { r.2 with mem := mem }

def ramLoadXbzrleRecords (blocks : List RAMBlock) : LoadState → List XbzrleRecord → Option LoadState
  | ls, [] => some ls
  | ls, r :: rs => (ramLoadXbzrleRecord blocks ls r).bind fun ls => ramLoadXbzrleRecords blocks ls rs

/-! ## Source and destination together -/

/-- Both ends, with the sender's cache. Before `ram_save_setup` the cache
is not used. -/
structure XbzrleMigration extends RamMigration where
  cache : PageCache

inductive XbzrleEvent where
  /-- A write to guest RAM through `cpu_physical_memory_rw`. -/
  | physWrite (addr : ℕ) (buf : List UInt8)
  /-- `ram_save_setup` with the cache size `migrate_xbzrle_cache_size()`. -/
  | setup (cacheSize : ℕ)
  /-- `ram_save_block(f, last_stage)`, and `ram_load` of what it sent. -/
  | saveBlock (lastStage : Bool)

inductive XbzrleReply where
  | ok
  /-- `ram_save_block` does not return. -/
  | hang
  /-- `ram_load` returns an error. -/
  | loadError
  /-- `ram_save_setup` returns `-1`: the cache size holds no page. -/
  | noCache
deriving DecidableEq, Repr

/-- `ram_save_setup` with XBZRLE on: a new cache, then the rest of the
setup as without it. -/
def ramSaveSetupXbzrle (cacheSize : ℕ) (m : XbzrleMigration) : XbzrleMigration × XbzrleReply :=
  match cacheInit (cacheSize / TARGET_PAGE_SIZE) TARGET_PAGE_SIZE with
  | none => (m, .noCache)
  | some cache =>
    match ramSaveSetup m.toRamMigration with
    | (m', .ok) => (⟨m', cache⟩, .ok)
    | _ => (m, .loadError)

/-- One `ram_save_block` and the loading of what it sent. -/
def transferXbzrle (lastStage : Bool) (m : XbzrleMigration) : XbzrleMigration × XbzrleReply :=
  match ramSaveBlockXbzrle m.blocks m.cursor lastStage m.src m.cache with
  | none => (m, .hang)
  | some (x, cur) =>
    match ramLoadXbzrleRecords m.blocks m.dst x.records with
    | none => (m, .loadError)
    | some dst => (⟨⟨m.blocks, x.src, cur, dst⟩, x.cache⟩, .ok)

section System

variable (phys : ℕ → PhysPage)

def xbzrleStep (m : XbzrleMigration) : XbzrleEvent → XbzrleMigration × XbzrleReply
  | .physWrite addr buf =>
    ({ m with src := (cpuPhysicalMemoryWrite phys m.src addr buf).1 }, .ok)
  | .setup cacheSize => ramSaveSetupXbzrle cacheSize m
  | .saveBlock lastStage => transferXbzrle lastStage m

end System

/-- The destination holds the cached copy of every cached page. -/
def Mirror (m : XbzrleMigration) : Prop :=
  ∀ a, cacheIsCached m.cache a = true → getCachedData m.cache a = some (pageData m.dst.mem a)

/-! ## Pages -/

section Pages

/-- Two page-aligned addresses are the same page or pages apart. -/
theorem page_disjoint {a p : ℕ} (ha : TARGET_PAGE_SIZE ∣ a) (hp : TARGET_PAGE_SIZE ∣ p)
    (hne : a ≠ p) : a + TARGET_PAGE_SIZE ≤ p ∨ p + TARGET_PAGE_SIZE ≤ a := by
  obtain ⟨k, rfl⟩ := ha
  obtain ⟨l, rfl⟩ := hp
  have hkl : k ≠ l := fun h => hne (by rw [h])
  rcases Nat.lt_or_gt_of_ne hkl with h | h
  · left
    calc TARGET_PAGE_SIZE * k + TARGET_PAGE_SIZE = TARGET_PAGE_SIZE * (k + 1) := by ring
      _ ≤ TARGET_PAGE_SIZE * l := Nat.mul_le_mul_left _ h
  · right
    calc TARGET_PAGE_SIZE * l + TARGET_PAGE_SIZE = TARGET_PAGE_SIZE * (l + 1) := by ring
      _ ≤ TARGET_PAGE_SIZE * k := Nat.mul_le_mul_left _ h

theorem pageData_congr {mem mem' : ℕ → UInt8} {p : ℕ}
    (h : ∀ i < TARGET_PAGE_SIZE, mem (p + i) = mem' (p + i)) : pageData mem p = pageData mem' p :=
  List.map_congr_left fun i hi => h i (List.mem_range.1 hi)

theorem pageData_copyPage_self (dst src : ℕ → UInt8) (p : ℕ) :
    pageData (copyPage dst src p) p = pageData src p :=
  pageData_congr fun i hi => by simp only [copyPage]; rw [if_pos (by omega)]

theorem pageData_copyPage_of_disjoint (dst src : ℕ → UInt8) {a p : ℕ}
    (h : a + TARGET_PAGE_SIZE ≤ p ∨ p + TARGET_PAGE_SIZE ≤ a) :
    pageData (copyPage dst src p) a = pageData dst a :=
  pageData_congr fun i hi => by simp only [copyPage]; rw [if_neg (by omega)]

/-- Writing a whole page read from `src` copies it. -/
theorem writeBytes_pageData (mem src : ℕ → UInt8) (p : ℕ) :
    writeBytes mem p (pageData src p) = copyPage mem src p := by
  funext x
  unfold writeBytes copyPage
  rw [length_pageData]
  split
  · next hx => rw [getD_pageData _ _ (by omega), Nat.add_sub_cancel' hx.1]
  · rfl

/-- Copying a page that is already there changes nothing. -/
theorem copyPage_of_pageData_eq {dst src : ℕ → UInt8} {p : ℕ}
    (h : pageData dst p = pageData src p) : copyPage dst src p = dst := by
  funext x
  unfold copyPage
  split
  · next hx =>
    have := congrArg (fun l => l.getD (x - p) 0) h
    simp only [getD_pageData _ _ (show x - p < TARGET_PAGE_SIZE by omega),
      Nat.add_sub_cancel' hx.1] at this
    exact this.symm
  · rfl

end Pages

/-! ## The cache mirrors the destination -/

/-- What the sender's deltas rely on: every cached address is a page
address, and the destination holds its cached copy. -/
structure CacheMirror (cache : PageCache) (mem : ℕ → UInt8) : Prop where
  aligned : ∀ a, cacheIsCached cache a = true → TARGET_PAGE_SIZE ∣ a
  mirror : ∀ a, cacheIsCached cache a = true → getCachedData cache a = some (pageData mem a)

section Mirror

variable {cache : PageCache} {mem : ℕ → UInt8} {p : ℕ}

/-- Copying in a page that is not cached keeps the mirror. -/
theorem CacheMirror.copy_uncached (hM : CacheMirror cache mem) (hp : TARGET_PAGE_SIZE ∣ p)
    (hnc : cacheIsCached cache p = false) (src : ℕ → UInt8) :
    CacheMirror cache (copyPage mem src p) := by
  refine ⟨hM.aligned, fun a ha => ?_⟩
  have hne : a ≠ p := by
    rintro rfl
    rw [ha] at hnc
    exact Bool.noConfusion hnc
  rw [hM.mirror a ha, pageData_copyPage_of_disjoint _ _ (page_disjoint (hM.aligned a ha) hp hne)]

/-- A cache whose slot for `p` now holds `p` with the copied page, and whose
other slots are as before, mirrors the destination with the page copied. -/
theorem CacheMirror.of_slot (hM : CacheMirror cache mem) (hp : TARGET_PAGE_SIZE ∣ p)
    {cache' : PageCache} {src : ℕ → UInt8}
    (hpos : ∀ a, cacheGetCachePos cache' a = cacheGetCachePos cache a)
    (hslot : cache'.pageCache (cacheGetCachePos cache p) = some (p, pageData src p))
    (hother : ∀ j, j ≠ cacheGetCachePos cache p → cache'.pageCache j = cache.pageCache j) :
    CacheMirror cache' (copyPage mem src p) := by
  -- a cached address of the new cache is `p`, or was cached before, in the same slot
  have hcases : ∀ a, cacheIsCached cache' a = true → a = p ∨
      (cacheIsCached cache a = true ∧ a ≠ p ∧ getCachedData cache' a = getCachedData cache a) := by
    intro a ha
    obtain ⟨d, hd⟩ := cacheIsCached_iff.1 ha
    rw [hpos] at hd
    by_cases hj : cacheGetCachePos cache a = cacheGetCachePos cache p
    · rw [hj, hslot] at hd
      exact Or.inl (Prod.mk.inj (Option.some.inj hd)).1.symm
    · rw [hother _ hj] at hd
      refine Or.inr ⟨cacheIsCached_iff.2 ⟨d, hd⟩, fun h => hj (h ▸ rfl), ?_⟩
      rw [getCachedData_of_slot (show cache'.pageCache (cacheGetCachePos cache' a) = some (a, d) by
        rw [hpos, hother _ hj]; exact hd), getCachedData_of_slot hd]
  refine ⟨fun a ha => ?_, fun a ha => ?_⟩
  · rcases hcases a ha with rfl | ⟨hc, -, -⟩
    · exact hp
    · exact hM.aligned a hc
  · rcases hcases a ha with rfl | ⟨hc, hne, heq⟩
    · rw [getCachedData_of_slot (show cache'.pageCache (cacheGetCachePos cache' a) = _ by
        rw [hpos]; exact hslot), pageData_copyPage_self]
    · rw [heq, hM.mirror a hc,
        pageData_copyPage_of_disjoint _ _ (page_disjoint (hM.aligned a hc) hp hne)]

theorem CacheMirror.insert (hM : CacheMirror cache mem) (hp : TARGET_PAGE_SIZE ∣ p)
    (src : ℕ → UInt8) : CacheMirror (cacheInsert cache p (pageData src p)) (copyPage mem src p) :=
  hM.of_slot hp (fun _ => rfl) (cacheInsert_slot _ _) fun _ hj => cacheInsert_slot_of_ne _ hj

theorem CacheMirror.update (hM : CacheMirror cache mem) (hp : TARGET_PAGE_SIZE ∣ p)
    (hc : cacheIsCached cache p = true) (src : ℕ → UInt8) :
    CacheMirror (cacheUpdate cache p (pageData src p)) (copyPage mem src p) := by
  obtain ⟨d, hd⟩ := cacheIsCached_iff.1 hc
  exact hM.of_slot hp (fun _ => rfl) (cacheUpdate_slot hd _) fun _ hj => cacheUpdate_slot_of_ne _ hj

end Mirror

/-! ## Sending one page -/

section SaveXbzrlePage

variable {cache : PageCache} {currentData : List UInt8} {currentAddr : ℕ} {hdr : BlockHdr}
  {lastStage : Bool} {prev out : List UInt8}

theorem saveXbzrlePage_miss (h : cacheIsCached cache currentAddr = false) :
    saveXbzrlePage cache currentData currentAddr hdr lastStage =
      ((if lastStage then cache else cacheInsert cache currentAddr currentData), [], -1) := by
  rw [saveXbzrlePage, h]
  rfl

theorem saveXbzrlePage_unchanged (hc : cacheIsCached cache currentAddr = true)
    (hprev : getCachedData cache currentAddr = some prev)
    (henc : xbzrleEncodeBuffer SIZEOF_LONG prev currentData TARGET_PAGE_SIZE TARGET_PAGE_SIZE =
      (0, out)) :
    saveXbzrlePage cache currentData currentAddr hdr lastStage = (cache, [], 0) := by
  simp only [saveXbzrlePage, hc, Bool.not_true, Bool.false_eq_true, ↓reduceIte, hprev,
    Option.getD_some, henc]

theorem saveXbzrlePage_overflow (hc : cacheIsCached cache currentAddr = true)
    (hprev : getCachedData cache currentAddr = some prev)
    (henc : xbzrleEncodeBuffer SIZEOF_LONG prev currentData TARGET_PAGE_SIZE TARGET_PAGE_SIZE =
      (-1, out)) :
    saveXbzrlePage cache currentData currentAddr hdr lastStage =
      (cacheUpdate cache currentAddr currentData, [], -1) := by
  have hne : (-1 : ℤ) ≠ 0 := by decide
  simp only [saveXbzrlePage, hc, Bool.not_true, Bool.false_eq_true, ↓reduceIte, hprev,
    Option.getD_some, henc, if_neg hne]

theorem saveXbzrlePage_delta {d : ℤ} (hc : cacheIsCached cache currentAddr = true)
    (hprev : getCachedData cache currentAddr = some prev)
    (henc : xbzrleEncodeBuffer SIZEOF_LONG prev currentData TARGET_PAGE_SIZE TARGET_PAGE_SIZE =
      (d, out)) (h0 : d ≠ 0) (h1 : d ≠ -1) :
    saveXbzrlePage cache currentData currentAddr hdr lastStage =
      ((if lastStage then cache else cacheUpdate cache currentAddr currentData),
        [.xbzrle hdr ENCODING_FLAG_XBZRLE d.toNat out], d + 1 + 2) := by
  simp only [saveXbzrlePage, hc, Bool.not_true, Bool.false_eq_true, ↓reduceIte, hprev,
    Option.getD_some, henc, if_neg h0, if_neg h1]

end SaveXbzrlePage

section SendPage

variable {blocks : List RAMBlock} {cur : SaveCursor} {src : RamState} {cache : PageCache} {bs : ℤ}
  {b offset : ℕ}

theorem pageAddr_eq (blocks : List RAMBlock) (b offset : ℕ) :
    (blocks.getD b default).offset + offset = pageAddr blocks b offset := rfl

/-- Whichever way the page goes, its migration bit is cleared and RAM is left
alone. -/
theorem sendPageXbzrle_src (lastStage : Bool) (x : XbzrleSave) :
    (sendPageXbzrle blocks cur lastStage x b offset).src =
      resetDirty x.src (pageAddr blocks b offset) (pageAddr blocks b offset + TARGET_PAGE_SIZE)
        MIGRATION_DIRTY_FLAG := by
  -- rw, not unfold: the kernel would otherwise compare through the page-sized scans
  rw [sendPageXbzrle]
  dsimp only
  split_ifs <;> rfl

/-- A duplicate page goes as `RAM_SAVE_FLAG_COMPRESS`, and the cache is not
touched. -/
theorem sendPageXbzrle_dup (lastStage : Bool)
    (h : isDupPage src.mem (pageAddr blocks b offset) = true) :
    (sendPageXbzrle blocks cur lastStage ⟨src, cache, [], bs⟩ b offset).cache = cache ∧
      (sendPageXbzrle blocks cur lastStage ⟨src, cache, [], bs⟩ b offset).records =
        [.ram (encodePage (saveBlockHdr (blocks.getD b default) offset
          (decide (some b = cur.lastBlock))) src.mem (pageAddr blocks b offset)).1] ∧
      (sendPageXbzrle blocks cur lastStage ⟨src, cache, [], bs⟩ b offset).bytesSent = 1 := by
  refine ⟨?_, ?_, ?_⟩ <;>
    simp only [sendPageXbzrle, resetDirty_mem, h, ↓reduceIte, List.nil_append, encodePage_of_dup h]

variable (h : isDupPage src.mem (pageAddr blocks b offset) = false)
include h

/-- A page missing from the cache goes into it, and whole into the stream. -/
theorem sendPageXbzrle_miss (hmiss : cacheIsCached cache (pageAddr blocks b offset) = false) :
    (sendPageXbzrle blocks cur false ⟨src, cache, [], bs⟩ b offset).cache =
        cacheInsert cache (pageAddr blocks b offset) (pageData src.mem (pageAddr blocks b offset)) ∧
      (sendPageXbzrle blocks cur false ⟨src, cache, [], bs⟩ b offset).records =
        [.ram (encodePage (saveBlockHdr (blocks.getD b default) offset
          (decide (some b = cur.lastBlock))) src.mem (pageAddr blocks b offset)).1] ∧
      (sendPageXbzrle blocks cur false ⟨src, cache, [], bs⟩ b offset).bytesSent = TARGET_PAGE_SIZE := by
  have hnd : ¬ isDupPage src.mem (pageAddr blocks b offset) = true := by rw [h]; exact Bool.false_ne_true
  refine ⟨?_, ?_, ?_⟩ <;>
    simp only [sendPageXbzrle, resetDirty_mem, h, Bool.false_eq_true, List.nil_append, pageAddr_eq,
      saveXbzrlePage_miss hmiss, encodePage_of_not_dup hnd,
      getCachedData_of_slot (cacheInsert_slot _ _), Option.getD_some, ↓reduceIte]

variable {prev out : List UInt8} (hc : cacheIsCached cache (pageAddr blocks b offset) = true)
  (hprev : getCachedData cache (pageAddr blocks b offset) = some prev)
include hc hprev

/-- An unchanged page sends nothing. -/
theorem sendPageXbzrle_unchanged (henc : xbzrleEncodeBuffer SIZEOF_LONG prev
      (pageData src.mem (pageAddr blocks b offset)) TARGET_PAGE_SIZE TARGET_PAGE_SIZE = (0, out)) :
    (sendPageXbzrle blocks cur false ⟨src, cache, [], bs⟩ b offset).cache = cache ∧
      (sendPageXbzrle blocks cur false ⟨src, cache, [], bs⟩ b offset).records = [] ∧
      (sendPageXbzrle blocks cur false ⟨src, cache, [], bs⟩ b offset).bytesSent = 0 := by
  have hne : (0 : ℤ) ≠ -1 := by decide
  refine ⟨?_, ?_, ?_⟩ <;>
    simp only [sendPageXbzrle, resetDirty_mem, h, Bool.false_eq_true, List.nil_append, pageAddr_eq,
      saveXbzrlePage_unchanged hc hprev henc, if_neg hne, ↓reduceIte]

/-- An overflowing delta: the page goes into the cache, and whole into the
stream. -/
theorem sendPageXbzrle_overflow (henc : xbzrleEncodeBuffer SIZEOF_LONG prev
      (pageData src.mem (pageAddr blocks b offset)) TARGET_PAGE_SIZE TARGET_PAGE_SIZE = (-1, out)) :
    (sendPageXbzrle blocks cur false ⟨src, cache, [], bs⟩ b offset).cache =
        cacheUpdate cache (pageAddr blocks b offset) (pageData src.mem (pageAddr blocks b offset)) ∧
      (sendPageXbzrle blocks cur false ⟨src, cache, [], bs⟩ b offset).records =
        [.ram (encodePage (saveBlockHdr (blocks.getD b default) offset
          (decide (some b = cur.lastBlock))) src.mem (pageAddr blocks b offset)).1] := by
  have hnd : ¬ isDupPage src.mem (pageAddr blocks b offset) = true := by rw [h]; exact Bool.false_ne_true
  obtain ⟨d, hd⟩ := cacheIsCached_iff.1 hc
  refine ⟨?_, ?_⟩ <;>
    simp only [sendPageXbzrle, resetDirty_mem, h, Bool.false_eq_true, List.nil_append, pageAddr_eq,
      saveXbzrlePage_overflow hc hprev henc, encodePage_of_not_dup hnd,
      getCachedData_of_slot (cacheUpdate_slot hd _), Option.getD_some, ↓reduceIte]

/-- A delta: the page goes into the cache, the delta into the stream. -/
theorem sendPageXbzrle_delta {d : ℤ} (henc : xbzrleEncodeBuffer SIZEOF_LONG prev
      (pageData src.mem (pageAddr blocks b offset)) TARGET_PAGE_SIZE TARGET_PAGE_SIZE = (d, out))
    (h0 : d ≠ 0) (h1 : d ≠ -1) (hd : 0 ≤ d) :
    (sendPageXbzrle blocks cur false ⟨src, cache, [], bs⟩ b offset).cache =
        cacheUpdate cache (pageAddr blocks b offset) (pageData src.mem (pageAddr blocks b offset)) ∧
      (sendPageXbzrle blocks cur false ⟨src, cache, [], bs⟩ b offset).records =
        [.xbzrle (saveBlockHdr (blocks.getD b default) offset (decide (some b = cur.lastBlock)))
          ENCODING_FLAG_XBZRLE d.toNat out] ∧
      (sendPageXbzrle blocks cur false ⟨src, cache, [], bs⟩ b offset).bytesSent = d + 1 + 2 := by
  have h3 : d + 1 + 2 ≠ -1 := by omega
  refine ⟨?_, ?_, ?_⟩ <;>
    simp only [sendPageXbzrle, resetDirty_mem, h, Bool.false_eq_true, List.nil_append, pageAddr_eq,
      saveXbzrlePage_delta hc hprev henc h0 h1, if_neg h3, ↓reduceIte]

end SendPage

/-! ## Loading what was sent -/

theorem TARGET_PAGE_SIZE_le : TARGET_PAGE_SIZE ≤ 0x3fff := by simp [TARGET_PAGE_SIZE, TARGET_PAGE_BITS]

section Load

variable {blocks : List RAMBlock} {dst dst' : LoadState} {hdr : BlockHdr} {blk : RAMBlock} {p : ℕ}

/-- A page sent whole, loaded: the destination's page is the source's. -/
theorem ramLoadXbzrleRecords_whole (hhost : hostFromStreamOffset blocks dst hdr = (some blk, dst'))
    (mem : ℕ → UInt8) (hp : blk.offset + hdr.offset = p) :
    ramLoadXbzrleRecords blocks dst [.ram (encodePage hdr mem p).1] =
      some { dst' with mem := copyPage dst'.mem mem p } := by
  simp only [ramLoadXbzrleRecords, ramLoadXbzrleRecord, ramLoadRecord_encodePage hhost mem p hp,
    Option.bind_some]

/-- A delta of the destination's page against `new`, loaded: the page is
`new`. -/
theorem ramLoadXbzrleRecords_delta (hhost : hostFromStreamOffset blocks dst hdr = (some blk, dst'))
    (hp : blk.offset + hdr.offset = p) {new out : List UInt8} {d : ℤ}
    (hnew : new.length = TARGET_PAGE_SIZE)
    (henc : xbzrleEncodeBuffer SIZEOF_LONG (pageData dst'.mem p) new TARGET_PAGE_SIZE
      TARGET_PAGE_SIZE = (d, out)) (hd : 0 ≤ d) :
    ramLoadXbzrleRecords blocks dst [.xbzrle hdr ENCODING_FLAG_XBZRLE d.toNat out] =
      some { dst' with mem := writeBytes dst'.mem p new } := by
  have hw : 0 < SIZEOF_LONG := by decide
  obtain ⟨hd', hout, hle⟩ := xbzrleEncodeBuffer_eq_of_nonneg hw (le_of_eq hnew.symm) henc hd
  obtain ⟨hdec, hend⟩ := xbzrleDecodeBuffer_runsFrom TARGET_PAGE_SIZE_le (length_pageData dst'.mem p) hnew
  -- the runs stay abstract: unfolding them would run the scans over a whole page
  generalize runsFrom (pageData dst'.mem p) new TARGET_PAGE_SIZE (TARGET_PAGE_SIZE + 1) 0 = rs
    at hd' hout hle hdec hend
  subst hout hd'
  have hfit : ¬ TARGET_PAGE_SIZE < (encodeRuns rs).length := by omega
  have hret : ¬ (((applyRuns rs 0 (pageData dst'.mem p)).1 : ℕ) : ℤ) = -1 := by omega
  have hret' : ¬ (((applyRuns rs 0 (pageData dst'.mem p)).1 : ℕ) : ℤ) > (TARGET_PAGE_SIZE : ℤ) := by
    omega
  simp only [ramLoadXbzrleRecords, ramLoadXbzrleRecord, hhost, Option.bind_some, loadXbzrle, hp,
    Int.toNat_natCast, ne_eq, not_true_eq_false, ↓reduceIte, gt_iff_lt, List.take_length,
    hdec, hret, hret', hfit, Option.map_some, Option.bind_some]

end Load

/-! ## Loading any stream -/

/-- `xbzrle_decode_buffer` keeps to its buffers and ends on any input, and
the test before the `abort()` of `load_xbzrle` fails at every call it makes:
the page buffer holds `TARGET_PAGE_SIZE` bytes. -/
theorem xbzrleDecodeBuffer_safe (src : List UInt8) (slen : ℕ) (dst : List UInt8) (dlen : ℕ)
    (hdst : dlen ≤ dst.length) :
    DecodeSafe src slen dst dlen ∧
      ∀ (mem : ℕ → UInt8) (p xhLen : ℕ) (data : List UInt8),
        ¬ (xbzrleDecodeBuffer (data.take xhLen) xhLen (pageData mem p) TARGET_PAGE_SIZE).1 >
          TARGET_PAGE_SIZE := by
  refine ⟨decodeSafe src slen hdst, fun mem p xhLen data => ?_⟩
  have hpage : TARGET_PAGE_SIZE ≤ (pageData mem p).length := le_of_eq (length_pageData mem p).symm
  rcases (decodeSafe (data.take xhLen) xhLen hpage).ret with h | ⟨-, h⟩
  · rw [h]
    omega
  · omega

theorem xbzrleDecodeBuffer_safe_oneRun :
    4 ≤ (List.replicate 4 (0 : UInt8)).length ∧
      (DecodeSafe [1, 1, 5] 3 (List.replicate 4 0) 4 ∧
        ∀ (mem : ℕ → UInt8) (p xhLen : ℕ) (data : List UInt8),
          ¬ (xbzrleDecodeBuffer (data.take xhLen) xhLen (pageData mem p) TARGET_PAGE_SIZE).1 >
            TARGET_PAGE_SIZE) :=
  ⟨by decide, xbzrleDecodeBuffer_safe [1, 1, 5] 3 (List.replicate 4 0) 4 (by decide)⟩

/-! ## Sending one page keeps the mirror, unless it is a cached duplicate -/

/-- Every way `ram_save_block` sends a dirty page, loaded by `ram_load`,
makes the destination's page the source's; and unless the page is a
duplicate page that is cached, the cache still mirrors the destination. -/
theorem cacheMirror_sendPageXbzrle {blocks : List RAMBlock} (hb : RamBlocksOk blocks)
    {cur : SaveCursor} {dst : LoadState} {c : ℕ × ℕ} (hc : PosValid blocks c)
    (hcur : ∀ b', cur.lastBlock = some b' → dst.block = some (blocks.getD b' default))
    {src : RamState} {cache : PageCache} (bs : ℤ) (hM : CacheMirror cache dst.mem)
    (hdup : isDupPage src.mem (pageAddr blocks c.1 c.2) = true →
      cacheIsCached cache (pageAddr blocks c.1 c.2) = false) :
    ∃ dst', ramLoadXbzrleRecords blocks dst
        (sendPageXbzrle blocks cur false ⟨src, cache, [], bs⟩ c.1 c.2).records = some dst' ∧
      dst'.mem = copyPage dst.mem src.mem (pageAddr blocks c.1 c.2) ∧
      CacheMirror (sendPageXbzrle blocks cur false ⟨src, cache, [], bs⟩ c.1 c.2).cache dst'.mem := by
  have hbl : c.1 < blocks.length := by simpa [PosValid, SegValid] using hc.1
  have hhost := hostFromStreamOffset_saveBlockHdr hb hbl hcur c.2
  have halign := pageAddr_dvd hb hc
  -- a page sent whole
  have hwhole := ramLoadXbzrleRecords_whole hhost src.mem (pageAddr_eq blocks c.1 c.2)
  cases hdp : isDupPage src.mem (pageAddr blocks c.1 c.2)
  case true =>
    -- a duplicate page: not cached, so no cached copy goes stale
    rw [(sendPageXbzrle_dup false hdp).1, (sendPageXbzrle_dup false hdp).2.1]
    exact ⟨_, hwhole, rfl, hM.copy_uncached halign (hdup hdp) src.mem⟩
  case false =>
  cases hcached : cacheIsCached cache (pageAddr blocks c.1 c.2)
  case false =>
    rw [(sendPageXbzrle_miss hdp hcached).1, (sendPageXbzrle_miss hdp hcached).2.1]
    exact ⟨_, hwhole, rfl, hM.insert halign src.mem⟩
  case true =>
  -- a cached page: the delta against the cached copy, which the destination holds
  have hprev := hM.mirror _ hcached
  rcases henc : xbzrleEncodeBuffer SIZEOF_LONG (pageData dst.mem (pageAddr blocks c.1 c.2))
    (pageData src.mem (pageAddr blocks c.1 c.2)) TARGET_PAGE_SIZE TARGET_PAGE_SIZE with ⟨d, out⟩
  by_cases h0 : d = 0
  · subst h0
    rw [(sendPageXbzrle_unchanged hdp hcached hprev henc).1,
      (sendPageXbzrle_unchanged hdp hcached hprev henc).2.1]
    have heq := eq_of_xbzrleEncodeBuffer_zero (by decide) TARGET_PAGE_SIZE_le (length_pageData _ _)
      (length_pageData _ _) henc
    exact ⟨dst, rfl, (copyPage_of_pageData_eq heq).symm, hM⟩
  by_cases h1 : d = -1
  · subst h1
    rw [(sendPageXbzrle_overflow hdp hcached hprev henc).1,
      (sendPageXbzrle_overflow hdp hcached hprev henc).2]
    exact ⟨_, hwhole, rfl, hM.update halign hcached src.mem⟩
  · have hd : 0 ≤ d := by
      rcases @xbzrleEncodeBuffer_spec SIZEOF_LONG (by decide) (pageData dst.mem (pageAddr blocks c.1 c.2))
          (pageData src.mem (pageAddr blocks c.1 c.2)) TARGET_PAGE_SIZE TARGET_PAGE_SIZE
          (le_of_eq (length_pageData src.mem _).symm) with ⟨hfail, -⟩ | ⟨hok, -⟩
      · rw [henc] at hfail
        exact absurd hfail h1
      · rw [henc, Prod.mk.injEq] at hok
        rw [hok.1]
        exact Int.natCast_nonneg _
    rw [(sendPageXbzrle_delta hdp hcached hprev henc h0 h1 hd).1,
      (sendPageXbzrle_delta hdp hcached hprev henc h0 h1 hd).2.1]
    have hload := ramLoadXbzrleRecords_delta hhost (pageAddr_eq blocks c.1 c.2) (length_pageData _ _)
      henc hd
    rw [writeBytes_pageData] at hload
    exact ⟨_, hload, rfl, hM.update halign hcached src.mem⟩

/-! ## Steps of the system -/

section Steps

variable {blocks : List RAMBlock} {cur : SaveCursor} {lastStage : Bool}

/-- The loop stops at a dirty page whose sending counts bytes. -/
theorem saveBlockLoopXbzrle_of_dirty {fuel : ℕ} {x : XbzrleSave} {b offset : ℕ}
    (hdirty : DirtyAt blocks x.src (b, offset))
    (hsent : (sendPageXbzrle blocks cur lastStage x b offset).bytesSent ≠ 0) :
    saveBlockLoopXbzrle blocks cur lastStage (fuel + 1) x b offset =
      some (sendPageXbzrle blocks cur lastStage x b offset, ⟨some b, offset⟩) := by
  unfold DirtyAt at hdirty
  rw [saveBlockLoopXbzrle]
  simp only [hdirty, hsent, ne_eq, not_false_eq_true, and_self, ↓reduceIte]

/-- `ram_save_block` sends the page at the cursor if it is dirty and counts
bytes. -/
theorem ramSaveBlockXbzrle_of_dirty {src : RamState} {cache : PageCache}
    (hdirty : DirtyAt blocks src (cur.lastBlock.getD 0, cur.lastOffset))
    (hsent : (sendPageXbzrle blocks cur lastStage ⟨src, cache, [], -1⟩ (cur.lastBlock.getD 0)
      cur.lastOffset).bytesSent ≠ 0) :
    ramSaveBlockXbzrle blocks cur lastStage src cache =
      some (sendPageXbzrle blocks cur lastStage ⟨src, cache, [], -1⟩ (cur.lastBlock.getD 0)
        cur.lastOffset, ⟨some (cur.lastBlock.getD 0), cur.lastOffset⟩) := by
  rw [ramSaveBlockXbzrle]
  exact saveBlockLoopXbzrle_of_dirty hdirty hsent

theorem transferXbzrle_of_some {m : XbzrleMigration} {x : XbzrleSave} {cur' : SaveCursor}
    {dst : LoadState} (hsave : ramSaveBlockXbzrle m.blocks m.cursor lastStage m.src m.cache = some (x, cur'))
    (hload : ramLoadXbzrleRecords m.blocks m.dst x.records = some dst) :
    transferXbzrle lastStage m = (⟨⟨m.blocks, x.src, cur', dst⟩, x.cache⟩, .ok) := by
  rw [transferXbzrle, hsave]
  simp only [hload]

/-- `ram_save_setup` with a cache size of at least a page: a new, empty
cache, and the setup of `Migration.Ram`. -/
theorem ramSaveSetupXbzrle_eq {cacheSize : ℕ} {m : XbzrleMigration} (hb : RamBlocksOk m.blocks)
    (hsize : cacheSize / TARGET_PAGE_SIZE ≠ 0) :
    ramSaveSetupXbzrle cacheSize m =
      (⟨⟨sortRamList m.blocks, markAllDirty (sortRamList m.blocks) m.src, ⟨none, 0⟩, m.dst⟩,
        ⟨TARGET_PAGE_SIZE, pow2floor (cacheSize / TARGET_PAGE_SIZE), fun _ => none, ⟨_, rfl⟩⟩⟩, .ok) := by
  rw [ramSaveSetupXbzrle, cacheInit_of_ne_zero _ hsize, ramSaveSetup_eq hb]

end Steps

section System

variable (phys : ℕ → PhysPage)

-- Proofs rewrite with these rather than let the kernel see through
-- `xbzrleStep` under a projection.
theorem xbzrleStep_physWrite (m : XbzrleMigration) (addr : ℕ) (buf : List UInt8) :
    xbzrleStep phys m (.physWrite addr buf) =
      ({ m with src := (cpuPhysicalMemoryWrite phys m.src addr buf).1 }, .ok) := rfl

theorem xbzrleStep_setup (m : XbzrleMigration) (cacheSize : ℕ) :
    xbzrleStep phys m (.setup cacheSize) = ramSaveSetupXbzrle cacheSize m := rfl

theorem xbzrleStep_saveBlock (m : XbzrleMigration) (lastStage : Bool) :
    xbzrleStep phys m (.saveBlock lastStage) = transferXbzrle lastStage m := rfl

end System

/-! ## The stale cache entry -/

/-- The failing input: one block of one page, whose first byte is 1 and the
rest 0, and a cache of one page. The first `ram_save_block` misses the cache,
inserts the page and sends it whole. A write of one zero byte makes the page
all zeros; the next `ram_save_block` sends it as a duplicate page and leaves
the cache entry alone. Every event is answered, and afterwards page 0 is
cached with its old contents while the destination holds zeros. -/
theorem xbzrle_stale_cache :
    let phys : ℕ → PhysPage := fun q => .ram (q * TARGET_PAGE_SIZE) false
    let m : XbzrleMigration :=
      ⟨⟨[⟨0, 0x1000, "pc.ram"⟩], ⟨fun a => if a = 0 then 1 else 0, fun _ => 0, 0⟩, ⟨none, 0⟩,
        ⟨fun _ => 0, none⟩⟩, ⟨0x1000, 1, fun _ => none, ⟨0, rfl⟩⟩⟩
    let es := [XbzrleEvent.setup 0x1000, .saveBlock false, .physWrite 0 [0], .saveBlock false]
    (∀ r ∈ outputs (xbzrleStep phys) m es, r = .ok) ∧
      cacheIsCached (run (xbzrleStep phys) m es).cache 0 = true ∧
      getCachedData (run (xbzrleStep phys) m es).cache 0 ≠
        some (pageData (run (xbzrleStep phys) m es).dst.mem 0) := by
  intro phys m es
  have hb : RamBlocksOk m.blocks :=
    (⟨List.cons_ne_nil _ _, by decide, by decide, by decide, by decide⟩ :
      RamBlocksOk [⟨0, 0x1000, "pc.ram"⟩])
  have hsort : sortRamList m.blocks = m.blocks := List.mergeSort_singleton _
  have h0 := posValid_zero hb
  have hp : pageAddr m.blocks 0 0 = 0 := rfl
  have hbl : 0 < m.blocks.length := Nat.zero_lt_one
  -- `ram_save_setup`: an empty cache, every page dirty, the scan at the first page
  obtain ⟨m₁, hstep₁, hblocks₁, hcur₁, hdst₁, hmem₁, hdirty₁, hcache₁⟩ :
      ∃ m₁, xbzrleStep phys m (.setup 0x1000) = (m₁, .ok) ∧ m₁.blocks = m.blocks ∧
        m₁.cursor = ⟨none, 0⟩ ∧ m₁.dst = m.dst ∧ m₁.src.mem = m.src.mem ∧
        DirtyAt m.blocks m₁.src (0, 0) ∧ cacheIsCached m₁.cache 0 = false := by
    have hsize : 0x1000 / TARGET_PAGE_SIZE ≠ 0 := by simp [TARGET_PAGE_SIZE, TARGET_PAGE_BITS]
    refine ⟨⟨⟨m.blocks, markAllDirty m.blocks m.src, ⟨none, 0⟩, m.dst⟩,
      ⟨TARGET_PAGE_SIZE, pow2floor (0x1000 / TARGET_PAGE_SIZE), fun _ => none, ⟨_, rfl⟩⟩⟩,
      ?_, rfl, rfl, rfl, markAllDirty_mem _ _, ?_, cacheIsCached_of_slot_none rfl⟩
    · rw [xbzrleStep_setup, ramSaveSetupXbzrle_eq hb hsize, hsort]
    · rw [dirtyAt_iff hb h0]
      exact migDirty_markAllDirty hb.offset_aligned _ (pageAddr_inRam h0)
  -- the first `ram_save_block`: a miss, so the page goes whole and into the cache
  obtain ⟨m₂, hstep₂, hblocks₂, hcur₂, hblock₂, hmem₂, hcache₂⟩ :
      ∃ m₂, xbzrleStep phys m₁ (.saveBlock false) = (m₂, .ok) ∧ m₂.blocks = m.blocks ∧
        m₂.cursor = ⟨some 0, 0⟩ ∧ m₂.dst.block = some (m.blocks.getD 0 default) ∧
        m₂.src.mem = m.src.mem ∧ m₂.cache = cacheInsert m₁.cache 0 (pageData m.src.mem 0) := by
    have hnd : isDupPage m₁.src.mem (pageAddr m.blocks 0 0) = false := by
      rw [hmem₁, hp]
      exact isDupPage_of_ne (i := 1) (by simp [TARGET_PAGE_SIZE, TARGET_PAGE_BITS]) (by simp [m])
    have hmiss : cacheIsCached m₁.cache (pageAddr m.blocks 0 0) = false := hcache₁
    obtain ⟨hcache, hrec, hsent⟩ := @sendPageXbzrle_miss m.blocks ⟨none, 0⟩ m₁.src m₁.cache (-1) 0 0 hnd hmiss
    have hsave : ramSaveBlockXbzrle m₁.blocks m₁.cursor false m₁.src m₁.cache =
        some (sendPageXbzrle m.blocks ⟨none, 0⟩ false ⟨m₁.src, m₁.cache, [], -1⟩ 0 0, ⟨some 0, 0⟩) := by
      have hsent' : (sendPageXbzrle m.blocks ⟨none, 0⟩ false ⟨m₁.src, m₁.cache, [], -1⟩ 0 0).bytesSent ≠ 0 := by
        rw [hsent]
        exact_mod_cast TARGET_PAGE_SIZE_pos.ne'
      rw [hblocks₁, hcur₁]
      exact ramSaveBlockXbzrle_of_dirty hdirty₁ hsent'
    have hhost := @hostFromStreamOffset_saveBlockHdr m.blocks hb ⟨none, 0⟩ m.dst 0 hbl
      (fun _ h => nomatch h) 0
    obtain ⟨dst₂, hload, hblock⟩ : ∃ dst₂, ramLoadXbzrleRecords m₁.blocks m₁.dst
        (sendPageXbzrle m.blocks ⟨none, 0⟩ false ⟨m₁.src, m₁.cache, [], -1⟩ 0 0).records = some dst₂ ∧
          dst₂.block = some (m.blocks.getD 0 default) := by
      rw [hblocks₁, hdst₁, hrec]
      exact ⟨_, ramLoadXbzrleRecords_whole hhost m₁.src.mem (pageAddr_eq m.blocks 0 0), rfl⟩
    refine ⟨_, (xbzrleStep_saveBlock phys m₁ false).trans (transferXbzrle_of_some hsave hload), hblocks₁,
      rfl, hblock, ?_, ?_⟩
    · show (sendPageXbzrle m.blocks ⟨none, 0⟩ false ⟨m₁.src, m₁.cache, [], -1⟩ 0 0).src.mem = m.src.mem
      rw [sendPageXbzrle_src, resetDirty_mem, hmem₁]
    · rw [hcache, hp, hmem₁]
  -- a write of one zero byte: page 0 is all zeros, and dirty again
  obtain ⟨m₃, hstep₃, hblocks₃, hcur₃, hblock₃, hcache₃, hzero₃, hdirty₃⟩ :
      ∃ m₃, xbzrleStep phys m₂ (.physWrite 0 [0]) = (m₃, .ok) ∧ m₃.blocks = m.blocks ∧
        m₃.cursor = ⟨some 0, 0⟩ ∧ m₃.dst.block = some (m.blocks.getD 0 default) ∧
        m₃.cache = m₂.cache ∧ (∀ a, m₃.src.mem a = 0) ∧ DirtyAt m.blocks m₃.src (0, 0) := by
    have hphys : phys (0 / TARGET_PAGE_SIZE) = .ram 0 false := by simp [phys]
    have hwrite := @cpuPhysicalMemoryWrite_ram phys m₂.src 0 0 [0] hphys (List.cons_ne_nil _ _)
      (by simp [TARGET_PAGE_SIZE, TARGET_PAGE_BITS])
    simp only [Nat.zero_mod, Nat.add_zero, List.length_singleton] at hwrite
    refine ⟨_, xbzrleStep_physWrite phys m₂ 0 [0], hblocks₂, hcur₂, hblock₂, rfl, fun a => ?_, ?_⟩
    · show (cpuPhysicalMemoryWrite phys m₂.src 0 [0]).1.mem a = 0
      rw [hwrite, dirtyAfterWrite_mem]
      simp only [writeBytes, hmem₂, zero_le, true_and, List.length_singleton, Nat.zero_add]
      split_ifs with ha
      · rw [Nat.lt_one_iff.1 ha]
        rfl
      · show (if a = 0 then 1 else 0) = 0
        rw [if_neg (by omega)]
    · rw [dirtyAt_iff hb h0, hp]
      show migDirty (cpuPhysicalMemoryWrite phys m₂.src 0 [0]).1 (0 / TARGET_PAGE_SIZE)
      rw [hwrite]
      exact migDirty_dirtyAfterWrite _ _ _
  -- the second `ram_save_block`: a duplicate page, sent as `RAM_SAVE_FLAG_COMPRESS`;
  -- the cache keeps the page of the first send
  obtain ⟨m₄, hstep₄, hcache₄, hdst₄⟩ :
      ∃ m₄, xbzrleStep phys m₃ (.saveBlock false) = (m₄, .ok) ∧ m₄.cache = m₃.cache ∧
        pageData m₄.dst.mem 0 = pageData m₃.src.mem 0 := by
    have hdup : isDupPage m₃.src.mem (pageAddr m.blocks 0 0) = true :=
      isDupPage_of_forall fun i _ => by rw [hzero₃, hzero₃]
    obtain ⟨hcache, hrec, hsent⟩ :=
      @sendPageXbzrle_dup m.blocks ⟨some 0, 0⟩ m₃.src m₃.cache (-1) 0 0 false hdup
    have hsave : ramSaveBlockXbzrle m₃.blocks m₃.cursor false m₃.src m₃.cache =
        some (sendPageXbzrle m.blocks ⟨some 0, 0⟩ false ⟨m₃.src, m₃.cache, [], -1⟩ 0 0, ⟨some 0, 0⟩) := by
      have hsent' : (sendPageXbzrle m.blocks ⟨some 0, 0⟩ false ⟨m₃.src, m₃.cache, [], -1⟩ 0 0).bytesSent ≠ 0 := by
        rw [hsent]
        exact one_ne_zero
      rw [hblocks₃, hcur₃]
      exact ramSaveBlockXbzrle_of_dirty hdirty₃ hsent'
    have hhost := @hostFromStreamOffset_saveBlockHdr m.blocks hb ⟨some 0, 0⟩ m₃.dst 0 hbl
      (fun _ h => by cases h; exact hblock₃) 0
    obtain ⟨dst₄, hload, hmem⟩ : ∃ dst₄, ramLoadXbzrleRecords m₃.blocks m₃.dst
        (sendPageXbzrle m.blocks ⟨some 0, 0⟩ false ⟨m₃.src, m₃.cache, [], -1⟩ 0 0).records = some dst₄ ∧
          dst₄.mem = copyPage m₃.dst.mem m₃.src.mem (pageAddr m.blocks 0 0) := by
      rw [hblocks₃, hrec]
      exact ⟨_, ramLoadXbzrleRecords_whole hhost m₃.src.mem (pageAddr_eq m.blocks 0 0), rfl⟩
    refine ⟨_, (xbzrleStep_saveBlock phys m₃ false).trans (transferXbzrle_of_some hsave hload), hcache, ?_⟩
    show pageData dst₄.mem 0 = pageData m₃.src.mem 0
    rw [hmem, hp, pageData_copyPage_self]
  -- the run and its replies, event by event
  have hrun : run (xbzrleStep phys) m es = m₄ := by
    show run (xbzrleStep phys) m [.setup 0x1000, .saveBlock false, .physWrite 0 [0], .saveBlock false] = m₄
    rw [run_cons, hstep₁, run_cons, hstep₂, run_cons, hstep₃, run_cons, hstep₄, run_nil]
  have hout : outputs (xbzrleStep phys) m es = [.ok, .ok, .ok, .ok] := by
    show outputs (xbzrleStep phys) m
      [.setup 0x1000, .saveBlock false, .physWrite 0 [0], .saveBlock false] = _
    rw [outputs_cons, hstep₁, outputs_cons, hstep₂, outputs_cons, hstep₃, outputs_cons, hstep₄,
      outputs_nil]
  rw [hrun, hout, hcache₄, hcache₃, hcache₂]
  refine ⟨by simp, cacheIsCached_iff.2 ⟨_, cacheInsert_slot _ _⟩, ?_⟩
  -- the cached page starts with the byte 1, the destination's with 0
  rw [getCachedData_of_slot (cacheInsert_slot _ _), hdst₄]
  intro h
  have hbyte := congrArg (fun l => l.getD 0 0) (Option.some.inj h)
  simp only [getD_pageData _ _ TARGET_PAGE_SIZE_pos, hzero₃] at hbyte
  exact absurd hbyte (by simp [m])
end QemuKvm.Migration
