import Mathlib.Data.Finset.Card
import QemuKvm.Exec.Dirty
import QemuKvm.Lib.Cursor
import QemuKvm.Lib.Run

/-!
# Pre-copy RAM transfer (arch_init.c)

The RAM part of a live migration, and of a CloudClone clone, copies guest
RAM to the destination while the guest keeps running. `ram_save_setup`
marks every page dirty for migration; each `ram_save_block` call resumes a
scan of all pages of all RAM blocks where the previous call stopped, sends
the first page whose migration bit is set and clears that bit; the
destination's `ram_load` writes each page it receives. `ram_save_iterate`
sends pages as long as the channel's rate limit allows, and
`ram_save_complete`, run with the guest stopped, sends pages until
`ram_save_block` finds none left.

The copy is exact if every write to RAM sets the migration bit of the page
it changes. The model states that as the invariant `Synced`: every byte of
every block is either on a page whose migration bit is set or equal on both
sides. Writes that mark what they change keep it (`synced_write`); sending a
page keeps it (`synced_sendStep`), and when `ram_save_complete` returns no
page is dirty, so both sides agree (`ramSaveComplete_exact`). Over whole
runs: `precopy_exact` — with every device write going through
`cpu_physical_memory_rw`, every event is answered and the final
`ram_save_complete` leaves an exact copy.

The scan itself is a `Lib.Cursor` walk: `advance` is `segNext` over the
block lengths, so one turn sees every page (`saveBlockLoop_spec`), and
`ram_save_block` returns `-1` only when no page of any block is dirty
(`transfer_cases`). Each page sent shrinks the set of dirty pages, so
`ram_save_complete` ends (`transferLoop_done`).

The write that breaks the invariant is the DMA path of
`cpu_physical_memory_unmap` (`Exec.Dirty`): `dma_write_lost` is a run in
which a DMA write lands after the pages were sent, and the destination ends
with a byte the source no longer has.

XBZRLE is off in this model (`migrate_use_xbzrle()` false), and the
destination's RAM blocks are the source's: `ram_load`'s block-table check
compares names and lengths only.
-/

namespace QemuKvm.Migration

open QemuKvm.Exec

/-! ## RAM blocks and the stream -/

/-- A RAM block: where it starts in `ram_addr_t` space (`block->offset`,
also `mr->ram_addr`), its length and its name. -/
structure RAMBlock where
  offset : ℕ
  length : ℕ
  idstr : String
deriving DecidableEq, Repr, Inhabited

/-- What `qemu_ram_alloc` guarantees of the block list: blocks are whole
pages at page offsets, and names are unique. -/
structure RamBlocksOk (blocks : List RAMBlock) : Prop where
  nonempty : blocks ≠ []
  length_pos : ∀ b ∈ blocks, 0 < b.length
  length_aligned : ∀ b ∈ blocks, TARGET_PAGE_SIZE ∣ b.length
  offset_aligned : ∀ b ∈ blocks, TARGET_PAGE_SIZE ∣ b.offset
  idstr_nodup : (blocks.map RAMBlock.idstr).Nodup

/-- `sort_ram_list`: the blocks ordered by name (`strcmp`). -/
def sortRamList (blocks : List RAMBlock) : List RAMBlock :=
  blocks.mergeSort fun a b => decide (a.idstr ≤ b.idstr)

/-- What `save_block_hdr` writes: the page's offset in its block, whether it
continues the block of the previous page, and the block's name if not. -/
structure BlockHdr where
  offset : ℕ
  cont : Bool
  idstr : Option String
deriving DecidableEq, Repr

/-- The records of the RAM section of the stream. -/
inductive RamRecord where
  /-- `RAM_SAVE_FLAG_MEM_SIZE` with the total size and the block table. -/
  | memSize (total : ℕ) (table : List (String × ℕ))
  /-- `RAM_SAVE_FLAG_COMPRESS`: a page all of whose bytes are `ch`. -/
  | compress (hdr : BlockHdr) (ch : UInt8)
  /-- `RAM_SAVE_FLAG_PAGE`: a whole page. -/
  | page (hdr : BlockHdr) (data : List UInt8)
  /-- `RAM_SAVE_FLAG_EOS`. -/
  | eos
deriving DecidableEq, Repr

def saveBlockHdr (blk : RAMBlock) (offset : ℕ) (cont : Bool) : BlockHdr :=
  ⟨offset, cont, if cont then none else some blk.idstr⟩

/-- The first `n` bytes at `p` all equal the byte at `p`. -/
def allEqFirst (mem : ℕ → UInt8) (p : ℕ) : ℕ → Bool
  | 0 => true
  | n + 1 => mem (p + n) == mem p && allEqFirst mem p n

/-- `is_dup_page`: every byte of the page equals its first (the source
compares the page a vector at a time with its first byte repeated). -/
def isDupPage (mem : ℕ → UInt8) (p : ℕ) : Bool :=
  allEqFirst mem p TARGET_PAGE_SIZE

/-- The page at `p`, as `qemu_put_buffer(f, p, TARGET_PAGE_SIZE)` sends it. -/
def pageData (mem : ℕ → UInt8) (p : ℕ) : List UInt8 :=
  (List.range TARGET_PAGE_SIZE).map fun i => mem (p + i)

theorem allEqFirst_eq {mem : ℕ → UInt8} {p n : ℕ} (h : allEqFirst mem p n = true) {i : ℕ}
    (hi : i < n) : mem (p + i) = mem p := by
  induction n with
  | zero => omega
  | succ n ih =>
    simp only [allEqFirst, Bool.and_eq_true, beq_iff_eq] at h
    rcases Nat.lt_succ_iff_lt_or_eq.mp hi with hi | rfl
    · exact ih h.2 hi
    · exact h.1

theorem isDupPage_eq {mem : ℕ → UInt8} {p : ℕ} (h : isDupPage mem p = true) (i : ℕ)
    (hi : i < TARGET_PAGE_SIZE) : mem (p + i) = mem p :=
  allEqFirst_eq h hi

theorem allEqFirst_of_forall {mem : ℕ → UInt8} {p n : ℕ} (h : ∀ i < n, mem (p + i) = mem p) :
    allEqFirst mem p n = true := by
  induction n with
  | zero => rfl
  | succ n ih =>
    simp only [allEqFirst, Bool.and_eq_true, beq_iff_eq]
    exact ⟨h n (Nat.lt_succ_self n), ih fun i hi => h i (Nat.lt_succ_of_lt hi)⟩

theorem isDupPage_of_forall {mem : ℕ → UInt8} {p : ℕ}
    (h : ∀ i < TARGET_PAGE_SIZE, mem (p + i) = mem p) : isDupPage mem p = true :=
  allEqFirst_of_forall h

/-- One byte of the page that differs from the first makes it no duplicate. -/
theorem isDupPage_of_ne {mem : ℕ → UInt8} {p i : ℕ} (hi : i < TARGET_PAGE_SIZE)
    (hne : mem (p + i) ≠ mem p) : isDupPage mem p = false :=
  Bool.eq_false_iff.2 fun h => hne (isDupPage_eq h i hi)

theorem length_pageData (mem : ℕ → UInt8) (p : ℕ) : (pageData mem p).length = TARGET_PAGE_SIZE := by
  simp only [pageData, List.length_map, List.length_range]

theorem getD_pageData (mem : ℕ → UInt8) (p : ℕ) {i : ℕ} (hi : i < TARGET_PAGE_SIZE) :
    (pageData mem p).getD i 0 = mem (p + i) := by
  rw [List.getD_eq_getElem _ _ (by rw [length_pageData]; exact hi)]
  simp only [pageData, List.getElem_map, List.getElem_range]

/-! ## The sender -/

/-- `last_block` (an index into the block list, `none` for `NULL`) and
`last_offset`. -/
structure SaveCursor where
  lastBlock : Option ℕ
  lastOffset : ℕ
deriving DecidableEq, Repr

/-- The `ram_addr_t` of a page of the scan. -/
def pageAddr (blocks : List RAMBlock) (b offset : ℕ) : ℕ :=
  (blocks.getD b default).offset + offset

/-- The end of the loop body: `offset += TARGET_PAGE_SIZE`, and past the
block's end on to the next block, or back to the first. -/
def advance (blocks : List RAMBlock) (b offset : ℕ) : ℕ × ℕ :=
  if (blocks.getD b default).length ≤ offset + TARGET_PAGE_SIZE then
    (if b + 1 < blocks.length then b + 1 else 0, 0)
  else (b, offset + TARGET_PAGE_SIZE)

/-- The page at `p` as a stream record, with the value `ram_save_block`
counts as sent: one byte if the page is a duplicate page, the whole page
otherwise. -/
def encodePage (hdr : BlockHdr) (mem : ℕ → UInt8) (p : ℕ) : RamRecord × Int :=
  if isDupPage mem p then (.compress hdr (mem p), 1)
  else (.page hdr (pageData mem p), TARGET_PAGE_SIZE)

/-- The loop body on a page whose migration bit is set: clear the bit
(`memory_region_reset_dirty`, which leaves RAM alone) and put the page in
the stream. -/
def sendPage (blocks : List RAMBlock) (cur : SaveCursor) (s : RamState) (b offset : ℕ) :
    RamState × RamRecord × Int :=
  let p := pageAddr blocks b offset
  (resetDirty s p (p + TARGET_PAGE_SIZE) MIGRATION_DIRTY_FLAG,
    encodePage (saveBlockHdr (blocks.getD b default) offset (decide (some b = cur.lastBlock)))
      s.mem p)

/-- What `ram_save_block` leaves behind. -/
structure SaveResult where
  src : RamState
  cursor : SaveCursor
  records : List RamRecord
  bytesSent : Int

/-- The `break` after a page was sent: the scan stops at that page. -/
def sendResult (blocks : List RAMBlock) (cur : SaveCursor) (s : RamState) (c : ℕ × ℕ) :
    SaveResult :=
  let r := sendPage blocks cur s c.1 c.2
  ⟨r.1, ⟨some c.1, c.2⟩, [r.2.1], r.2.2⟩

/-- The `do ... while (block != last_block || offset != last_offset)` loop
of `ram_save_block`, from position `(b, offset)`. Running out of `fuel`
(`none`) stands for a loop that does not stop: with `last_block` `NULL` and
no dirty page the real loop never does. -/
def saveBlockLoop (blocks : List RAMBlock) (cur : SaveCursor) :
    ℕ → RamState → ℕ → ℕ → Option SaveResult
  | 0, _, _, _ => none
  | fuel + 1, s, b, offset =>
    if getDirty s (pageAddr blocks b offset) TARGET_PAGE_SIZE MIGRATION_DIRTY_FLAG ≠ 0 then
      some (sendResult blocks cur s (b, offset))
    else
      let c := advance blocks b offset
      if some c.1 ≠ cur.lastBlock ∨ c.2 ≠ cur.lastOffset then
        saveBlockLoop blocks cur fuel s c.1 c.2
      else some ⟨s, ⟨some c.1, c.2⟩, [], -1⟩

/-- The number of pages of all blocks. -/
def totalPages (blocks : List RAMBlock) : ℕ :=
  (blocks.map RAMBlock.length).sum / TARGET_PAGE_SIZE

/-- `ram_save_block`: one more turn of the scan than there are pages, enough
for a loop that stops at all. -/
def ramSaveBlock (blocks : List RAMBlock) (cur : SaveCursor) (s : RamState) :
    Option SaveResult :=
  saveBlockLoop blocks cur (totalPages blocks + 1) s (cur.lastBlock.getD 0) cur.lastOffset

/-- The body of `ram_save_setup`'s loop: set every bit of the page
(`memory_region_set_dirty`) unless its migration bit is set already. -/
def markPage (s : RamState) (addr : ℕ) : RamState :=
  if getDirty s addr TARGET_PAGE_SIZE MIGRATION_DIRTY_FLAG = 0 then
    setDirtyRange s addr TARGET_PAGE_SIZE 0xff
  else s

/-- The inner loop, `for (addr = 0; addr < block->length; addr += TARGET_PAGE_SIZE)`. -/
def markBlock (s : RamState) (blk : RAMBlock) : RamState :=
  (List.range ((blk.length + TARGET_PAGE_SIZE - 1) / TARGET_PAGE_SIZE)).foldl
    (fun s k => markPage s (blk.offset + k * TARGET_PAGE_SIZE)) s

/-- The loop of `ram_save_setup` over all blocks. -/
def markAllDirty (blocks : List RAMBlock) (s : RamState) : RamState :=
  blocks.foldl markBlock s

/-! ## The receiver -/

/-- The destination: its RAM and the static `block` of
`host_from_stream_offset`. -/
structure LoadState where
  mem : ℕ → UInt8
  block : Option RAMBlock

/-- `host_from_stream_offset`: the block a page header names. -/
def hostFromStreamOffset (blocks : List RAMBlock) (ls : LoadState) (hdr : BlockHdr) :
    Option RAMBlock × LoadState :=
  if hdr.cont then (ls.block, ls)
  else
    let found := blocks.find? fun blk => blk.idstr == hdr.idstr.getD ""
    (found, { ls with block := found })

/-- `memset(host, ch, TARGET_PAGE_SIZE)`. -/
def fillPage (mem : ℕ → UInt8) (p : ℕ) (ch : UInt8) : ℕ → UInt8 :=
  fun a => if p ≤ a ∧ a < p + TARGET_PAGE_SIZE then ch else mem a

/-- One record of `ram_load`; `none` is an `-EINVAL` return. -/
def ramLoadRecord (blocks : List RAMBlock) (ls : LoadState) : RamRecord → Option LoadState
  | .memSize _ table =>
    if table.all fun e => (blocks.find? fun blk => blk.idstr == e.1).any (·.length == e.2) then
      some ls
    else none
  | .compress hdr ch =>
    let r := hostFromStreamOffset blocks ls hdr
    r.1.map fun blk => { r.2 with mem := fillPage r.2.mem (blk.offset + hdr.offset) ch }
  | .page hdr data =>
    let r := hostFromStreamOffset blocks ls hdr
    r.1.map fun blk => { r.2 with mem := writeBytes r.2.mem (blk.offset + hdr.offset) data }
  | .eos => some ls

def ramLoadRecords (blocks : List RAMBlock) : LoadState → List RamRecord → Option LoadState
  | ls, [] => some ls
  | ls, r :: rs => (ramLoadRecord blocks ls r).bind fun ls => ramLoadRecords blocks ls rs

/-! ## Source and destination together -/

/-- Both ends of a RAM migration; the stream between them is consumed in
order as it is produced. -/
structure RamMigration where
  blocks : List RAMBlock
  src : RamState
  cursor : SaveCursor
  dst : LoadState

inductive RamEvent where
  /-- A device or helper writes through `cpu_physical_memory_rw`. -/
  | physWrite (addr : ℕ) (buf : List UInt8)
  /-- A device writes through `cpu_physical_memory_map`/`unmap`. -/
  | dmaWrite (addr1 : ℕ) (buf : List UInt8)
  | setup
  /-- `ram_save_iterate`, with room under the rate limit for `n` pages. -/
  | iterate (n : ℕ)
  | complete

/-- The DMA path, the one write path that is not page by page. -/
def RamEvent.isDma : RamEvent → Bool
  | .dmaWrite _ _ => true
  | _ => false

inductive RamReply where
  | ok
  /-- `ram_save_block` does not return. -/
  | hang
  /-- `ram_load` returns `-EINVAL`. -/
  | loadError
deriving DecidableEq, Repr

/-- What `ram_save_setup` puts in the stream: the total size with the block
table, then the end of the section. -/
def setupRecords (blocks : List RAMBlock) : List RamRecord :=
  [.memSize (blocks.map RAMBlock.length).sum (blocks.map fun blk => (blk.idstr, blk.length)), .eos]

/-- `ram_save_setup`, and `ram_load` of what it sends. -/
def ramSaveSetup (m : RamMigration) : RamMigration × RamReply :=
  match ramLoadRecords (sortRamList m.blocks) m.dst (setupRecords (sortRamList m.blocks)) with
  | none => (m, .loadError)
  | some dst =>
    (⟨sortRamList m.blocks, markAllDirty (sortRamList m.blocks) m.src, ⟨none, 0⟩, dst⟩, .ok)

/-- `ram_load` of what one `ram_save_block` sent; the `Bool` says whether
`ram_save_block` returned `-1`. -/
def loadSaved (m : RamMigration) (r : SaveResult) : Except RamReply (RamMigration × Bool) :=
  match ramLoadRecords m.blocks m.dst r.records with
  | none => .error .loadError
  | some dst => .ok (⟨m.blocks, r.src, r.cursor, dst⟩, decide (r.bytesSent < 0))

/-- One `ram_save_block` and the loading of what it sent. -/
def transfer (m : RamMigration) : Except RamReply (RamMigration × Bool) :=
  match ramSaveBlock m.blocks m.cursor m.src with
  | none => .error .hang
  | some r => loadSaved m r

/-- Up to `n` transfers, stopping after one that returns `-1`. -/
def transferLoop : ℕ → RamMigration → Except RamReply (RamMigration × Bool)
  | 0, m => .ok (m, false)
  | n + 1, m =>
    match transfer m with
    | .error e => .error e
    | .ok (m', true) => .ok (m', true)
    | .ok (m', false) => transferLoop n m'

/-- `ram_save_iterate`: as many pages as the rate limit lets through, then
`RAM_SAVE_FLAG_EOS` (which `ram_load` reads as the end of the section). -/
def ramSaveIterate (n : ℕ) (m : RamMigration) : RamMigration × RamReply :=
  match transferLoop n m with
  | .error e => (m, e)
  | .ok r => (r.1, .ok)

/-- `ram_save_complete`: pages until `ram_save_block` returns `-1`, then
`RAM_SAVE_FLAG_EOS`. The `while (true)` loop is run for one more round than
there are pages: `ramSaveComplete_exact` shows that the last round always
returns `-1` within that bound from a synchronised state. -/
def ramSaveComplete (m : RamMigration) : RamMigration × RamReply :=
  match transferLoop (totalPages m.blocks + 1) m with
  | .error e => (m, e)
  | .ok (m', true) => (m', .ok)
  | .ok (_, false) => (m, .hang)

/-! ## The scan is one turn of a cursor -/

/-- A position of the scan: a page of a block. -/
def PosValid (blocks : List RAMBlock) (c : ℕ × ℕ) : Prop :=
  SegValid (blocks.map RAMBlock.length) TARGET_PAGE_SIZE c

/-- The migration bit of the page at a position, as `memory_region_get_dirty`
reads it. -/
def DirtyAt (blocks : List RAMBlock) (s : RamState) (c : ℕ × ℕ) : Prop :=
  getDirty s (pageAddr blocks c.1 c.2) TARGET_PAGE_SIZE MIGRATION_DIRTY_FLAG ≠ 0

instance (blocks : List RAMBlock) (s : RamState) (c : ℕ × ℕ) : Decidable (DirtyAt blocks s c) :=
  inferInstanceAs (Decidable (_ ≠ _))

/-- `advance` as a function of the position. -/
def scanNext (blocks : List RAMBlock) (c : ℕ × ℕ) : ℕ × ℕ := advance blocks c.1 c.2

section Scan

variable {blocks : List RAMBlock}

theorem getD_map_length (blocks : List RAMBlock) (b : ℕ) :
    (blocks.map RAMBlock.length).getD b 0 = (blocks.getD b default).length := by
  rw [show (0 : ℕ) = (default : RAMBlock).length from rfl, List.getD_map]

theorem scanNext_eq_segNext (blocks : List RAMBlock) :
    scanNext blocks = segNext (blocks.map RAMBlock.length) TARGET_PAGE_SIZE := by
  funext c
  unfold scanNext advance segNext
  rw [getD_map_length, List.length_map]

theorem lengths_ok (hb : RamBlocksOk blocks) :
    ∀ l ∈ blocks.map RAMBlock.length, 0 < l ∧ TARGET_PAGE_SIZE ∣ l := by
  simp only [List.mem_map]
  rintro l ⟨blk, hblk, rfl⟩
  exact ⟨hb.length_pos blk hblk, hb.length_aligned blk hblk⟩

/-- The scan of `ram_save_block` walks all pages of all blocks round and round. -/
theorem isCycle_scanNext (hb : RamBlocksOk blocks) :
    IsCycle (scanNext blocks) (PosValid blocks)
      (segIdx (blocks.map RAMBlock.length) TARGET_PAGE_SIZE) (totalPages blocks) := by
  rw [scanNext_eq_segNext]
  exact isCycle_segNext (lengths_ok hb) TARGET_PAGE_SIZE_pos

/-- What one call of the loop does: it sends the first dirty page it meets,
or it comes back to `(last_block, last_offset)` having met none and returns
`-1` with nothing changed. -/
theorem saveBlockLoop_spec {cur : SaveCursor} {fuel : ℕ} {s : RamState} {c : ℕ × ℕ}
    {r : SaveResult} (h : saveBlockLoop blocks cur fuel s c.1 c.2 = some r) :
    (∃ j, DirtyAt blocks s ((scanNext blocks)^[j] c) ∧
      r = sendResult blocks cur s ((scanNext blocks)^[j] c)) ∨
    (∃ k, 0 < k ∧ cur = ⟨some ((scanNext blocks)^[k] c).1, ((scanNext blocks)^[k] c).2⟩ ∧
      (∀ i < k, ¬ DirtyAt blocks s ((scanNext blocks)^[i] c)) ∧ r = ⟨s, cur, [], -1⟩) := by
  induction fuel generalizing c with
  | zero => simp [saveBlockLoop] at h
  | succ fuel ih =>
    simp only [saveBlockLoop] at h
    split at h
    · -- a dirty page at the start
      next hdirty =>
      exact Or.inl ⟨0, hdirty, (Option.some.inj h).symm⟩
    · next hclean =>
      split at h
      · -- on to the next page
        rcases ih h with ⟨j, hj, rfl⟩ | ⟨k, hk, hcur, hall, rfl⟩
        · exact Or.inl ⟨j + 1, hj, rfl⟩
        · refine Or.inr ⟨k + 1, Nat.succ_pos k, hcur, fun i hi => ?_, rfl⟩
          cases i with
          | zero => exact hclean
          | succ i => exact hall i (by omega)
      · -- back at the start: the loop condition fails
        next hback =>
        obtain ⟨hb1, hb2⟩ : some (advance blocks c.1 c.2).1 = cur.lastBlock ∧
            (advance blocks c.1 c.2).2 = cur.lastOffset := by
          simpa only [not_or, not_not] using hback
        have hcur : cur = ⟨some (scanNext blocks c).1, (scanNext blocks c).2⟩ := by
          cases cur
          simp only [scanNext] at hb1 hb2 ⊢
          rw [hb1, hb2]
        refine Or.inr ⟨1, Nat.one_pos, hcur, fun i hi => ?_, ?_⟩
        · obtain rfl : i = 0 := by omega
          exact hclean
        · rw [← Option.some.inj h, hcur]
          rfl

/-- With `last_block` `NULL` the loop only stops at a dirty page, and it does
if one is met in time. -/
theorem saveBlockLoop_isSome_of_none {cur : SaveCursor} (hcur : cur.lastBlock = none)
    (s : RamState) {j : ℕ} {c : ℕ × ℕ} (hdirty : DirtyAt blocks s ((scanNext blocks)^[j] c))
    {fuel : ℕ} (hj : j < fuel) : (saveBlockLoop blocks cur fuel s c.1 c.2).isSome := by
  induction j generalizing c fuel with
  | zero =>
    obtain ⟨fuel, rfl⟩ : ∃ f, fuel = f + 1 := ⟨fuel - 1, by omega⟩
    have h0 : getDirty s (pageAddr blocks c.1 c.2) TARGET_PAGE_SIZE MIGRATION_DIRTY_FLAG ≠ 0 :=
      hdirty
    simp only [saveBlockLoop]
    rw [if_pos h0]
    rfl
  | succ j ih =>
    obtain ⟨fuel, rfl⟩ : ∃ f, fuel = f + 1 := ⟨fuel - 1, by omega⟩
    simp only [saveBlockLoop]
    split
    · rfl
    · rw [if_pos (by simp [hcur])]
      exact ih hdirty (by omega)

/-- With `last_block` at a page, the loop stops within one turn. -/
theorem saveBlockLoop_isSome (hb : RamBlocksOk blocks) {cur : SaveCursor} {b : ℕ}
    (hcur : cur.lastBlock = some b) (hvalid : PosValid blocks (b, cur.lastOffset)) (s : RamState)
    (i fuel : ℕ) (hi : i < totalPages blocks) (hfuel : totalPages blocks ≤ i + fuel) :
    (saveBlockLoop blocks cur fuel s ((scanNext blocks)^[i] (b, cur.lastOffset)).1
      ((scanNext blocks)^[i] (b, cur.lastOffset)).2).isSome := by
  have hcyc := isCycle_scanNext hb
  induction fuel generalizing i with
  | zero => omega
  | succ fuel ih =>
    simp only [saveBlockLoop]
    split
    · rfl
    · split
      · next hgo =>
        -- not back at the start yet, so at most `totalPages - 1` steps were taken
        have hi' : i + 1 < totalPages blocks := by
          by_contra hge
          have hN : i + 1 = totalPages blocks := by omega
          have hper := hcyc.iterate_period hvalid
          rw [← hN, Function.iterate_succ_apply'] at hper
          simp only [scanNext] at hper
          rw [hper, hcur] at hgo
          simp at hgo
        have := ih (i + 1) hi' (by omega)
        rwa [Function.iterate_succ_apply'] at this
      · rfl

end Scan

/-! ## One transfer -/

/-- The destination after receiving the source's page at `p`. -/
def copyPage (dst src : ℕ → UInt8) (p : ℕ) : ℕ → UInt8 :=
  fun x => if p ≤ x ∧ x < p + TARGET_PAGE_SIZE then src x else dst x

/-- Both ends after the page at position `c` was sent and loaded. -/
def sendStep (m : RamMigration) (c : ℕ × ℕ) : RamMigration :=
  ⟨m.blocks, (sendPage m.blocks m.cursor m.src c.1 c.2).1, ⟨some c.1, c.2⟩,
    ⟨copyPage m.dst.mem m.src.mem (pageAddr m.blocks c.1 c.2), some (m.blocks.getD c.1 default)⟩⟩

/-- The receiver's static block is the sender's `last_block`; before the
first page, the scan starts at the first page, which is dirty. -/
def CursorOk (m : RamMigration) : Prop :=
  (m.cursor = ⟨none, 0⟩ ∧ DirtyAt m.blocks m.src (0, 0)) ∨
  ∃ b, m.cursor.lastBlock = some b ∧ PosValid m.blocks (b, m.cursor.lastOffset) ∧
    m.dst.block = some (m.blocks.getD b default)

/-- What the scan needs to run: well-formed blocks and a consistent cursor. -/
structure ScanOk (m : RamMigration) : Prop where
  blocks_ok : RamBlocksOk m.blocks
  cursor_ok : CursorOk m

/-- No page of any block is dirty for migration. -/
def AllClean (blocks : List RAMBlock) (s : RamState) : Prop :=
  ∀ c, PosValid blocks c → ¬ DirtyAt blocks s c

section Transfer

variable {blocks : List RAMBlock}

/-- The first page of the first block is a page of the scan. -/
theorem posValid_zero (hb : RamBlocksOk blocks) : PosValid blocks (0, 0) := by
  obtain ⟨blk, rest, hbl⟩ := List.exists_cons_of_ne_nil hb.nonempty
  refine ⟨by simp [hbl], ?_, dvd_zero _⟩
  simp only [hbl, List.map_cons, List.getD_cons_zero]
  exact hb.length_pos blk (by simp [hbl])

theorem getD_mem_of_posValid {c : ℕ × ℕ} (hc : PosValid blocks c) :
    blocks.getD c.1 default ∈ blocks := by
  have h : c.1 < blocks.length := by simpa [PosValid, SegValid] using hc.1
  rw [List.getD_eq_getElem _ _ h]
  exact List.getElem_mem h

theorem pageAddr_dvd (hb : RamBlocksOk blocks) {c : ℕ × ℕ} (hc : PosValid blocks c) :
    TARGET_PAGE_SIZE ∣ pageAddr blocks c.1 c.2 :=
  Nat.dvd_add (hb.offset_aligned _ (getD_mem_of_posValid hc)) hc.2.2

/-- At a page of the scan, the dirty test reads the migration bit of that page. -/
theorem dirtyAt_iff (hb : RamBlocksOk blocks) {s : RamState} {c : ℕ × ℕ}
    (hc : PosValid blocks c) :
    DirtyAt blocks s c ↔ migDirty s (pageAddr blocks c.1 c.2 / TARGET_PAGE_SIZE) := by
  unfold DirtyAt migDirty
  rw [getDirty_page s (pageAddr_dvd hb hc)]

theorem sendPage_fst (cur : SaveCursor) (s : RamState) (b offset : ℕ) :
    (sendPage blocks cur s b offset).1 =
      resetDirty s (pageAddr blocks b offset) (pageAddr blocks b offset + TARGET_PAGE_SIZE)
        MIGRATION_DIRTY_FLAG := rfl

theorem encodePage_of_dup {hdr : BlockHdr} {mem : ℕ → UInt8} {p : ℕ}
    (h : isDupPage mem p = true) : encodePage hdr mem p = (RamRecord.compress hdr (mem p), 1) := by
  rw [encodePage, if_pos h]

theorem encodePage_of_not_dup {hdr : BlockHdr} {mem : ℕ → UInt8} {p : ℕ}
    (h : ¬ isDupPage mem p = true) :
    encodePage hdr mem p = (RamRecord.page hdr (pageData mem p), (TARGET_PAGE_SIZE : Int)) := by
  rw [encodePage, if_neg h]

theorem encodePage_snd_pos (hdr : BlockHdr) (mem : ℕ → UInt8) (p : ℕ) :
    0 < (encodePage hdr mem p).2 := by
  by_cases h : isDupPage mem p = true
  · rw [encodePage_of_dup h]
    exact Int.one_pos
  · rw [encodePage_of_not_dup h]
    exact Int.natCast_pos.mpr TARGET_PAGE_SIZE_pos

/-- A sent page always counts as bytes sent, never as `-1`. -/
theorem sendPage_bytesSent_pos (blocks : List RAMBlock) (cur : SaveCursor) (s : RamState)
    (b offset : ℕ) : 0 < (sendPage blocks cur s b offset).2.2 :=
  encodePage_snd_pos (saveBlockHdr (blocks.getD b default) offset (decide (some b = cur.lastBlock)))
    s.mem (pageAddr blocks b offset)

/-- Loading a page record whose header names the block at `p`'s start makes
the destination's page at `p` the source's, for either encoding. -/
theorem ramLoadRecord_encodePage {blocks : List RAMBlock} {ls ls' : LoadState} {hdr : BlockHdr}
    {blk : RAMBlock} (hhost : hostFromStreamOffset blocks ls hdr = (some blk, ls'))
    (mem : ℕ → UInt8) (p : ℕ) (hp : blk.offset + hdr.offset = p) :
    ramLoadRecord blocks ls (encodePage hdr mem p).1 =
      some { ls' with mem := copyPage ls'.mem mem p } := by
  subst hp
  by_cases hdup : isDupPage mem (blk.offset + hdr.offset) = true
  · rw [encodePage_of_dup hdup]
    simp only [ramLoadRecord, hhost, Option.map_some, Option.some.injEq, LoadState.mk.injEq,
      and_true]
    funext x
    unfold fillPage copyPage
    split
    · next hx =>
      -- a duplicate page: every byte equals the first
      have hall := isDupPage_eq hdup (x - (blk.offset + hdr.offset)) (by omega)
      rw [Nat.add_sub_cancel' hx.1] at hall
      exact hall.symm
    · rfl
  · rw [encodePage_of_not_dup hdup]
    simp only [ramLoadRecord, hhost, Option.map_some, Option.some.injEq, LoadState.mk.injEq,
      and_true]
    funext x
    unfold writeBytes copyPage
    rw [length_pageData]
    split
    · next hx => rw [getD_pageData _ _ (by omega), Nat.add_sub_cancel' hx.1]
    · rfl

/-- Names are unique, so looking a block up by its name finds it. -/
theorem find_idstr_of_mem (hnd : (blocks.map RAMBlock.idstr).Nodup) {blk : RAMBlock}
    (hmem : blk ∈ blocks) : blocks.find? (fun b => b.idstr == blk.idstr) = some blk := by
  have hsome : (blocks.find? fun b => b.idstr == blk.idstr).isSome :=
    List.find?_isSome.mpr ⟨_, hmem, beq_self_eq_true _⟩
  obtain ⟨y, hy⟩ := Option.isSome_iff_exists.mp hsome
  have hname : y.idstr = blk.idstr := by
    have := List.find?_some hy
    simpa only [beq_iff_eq] using this
  rw [hy, List.inj_on_of_nodup_map hnd (List.mem_of_find?_eq_some hy) hmem hname]

theorem find_idstr (hb : RamBlocksOk blocks) {b : ℕ} (hbl : b < blocks.length) :
    blocks.find? (fun blk => blk.idstr == (blocks.getD b default).idstr) =
      some (blocks.getD b default) := by
  apply find_idstr_of_mem hb.idstr_nodup
  rw [List.getD_eq_getElem _ _ hbl]
  exact List.getElem_mem hbl

/-- The header of a page of block `b` names that block for the receiver,
by `last_block` or by name. -/
theorem hostFromStreamOffset_saveBlockHdr (hb : RamBlocksOk blocks) {cur : SaveCursor}
    {dst : LoadState} {b : ℕ} (hbl : b < blocks.length)
    (hcur : ∀ b', cur.lastBlock = some b' → dst.block = some (blocks.getD b' default)) (o : ℕ) :
    hostFromStreamOffset blocks dst
        (saveBlockHdr (blocks.getD b default) o (decide (some b = cur.lastBlock))) =
      (some (blocks.getD b default), { dst with block := some (blocks.getD b default) }) := by
  unfold hostFromStreamOffset saveBlockHdr
  by_cases hcont : some b = cur.lastBlock
  · have hblk := hcur b hcont.symm
    cases dst with
    | mk mem blk0 =>
      simp only at hblk
      subst hblk
      simp only [hcont, decide_true, if_true]
  · simp only [hcont, decide_false, Bool.false_eq_true, if_false, Option.getD_some]
    rw [find_idstr hb hbl]

/-- The page record of `ram_save_block`, loaded by `ram_load`, makes the
destination's page the source's, whichever of the two encodings was used,
and leaves the receiver's block at the page's block. -/
theorem ramLoadRecords_sendResult (hb : RamBlocksOk blocks) {cur : SaveCursor} {dst : LoadState}
    {c : ℕ × ℕ} (hc : PosValid blocks c)
    (hcur : ∀ b, cur.lastBlock = some b → dst.block = some (blocks.getD b default))
    (s : RamState) :
    ramLoadRecords blocks dst (sendResult blocks cur s c).records =
      some ⟨copyPage dst.mem s.mem (pageAddr blocks c.1 c.2), some (blocks.getD c.1 default)⟩ := by
  have hbl : c.1 < blocks.length := by simpa [PosValid, SegValid] using hc.1
  simp only [sendResult, sendPage, ramLoadRecords]
  rw [ramLoadRecord_encodePage (hostFromStreamOffset_saveBlockHdr hb hbl hcur c.2) _
    (pageAddr blocks c.1 c.2) rfl]
  simp only [Option.bind_some]

-- `transfer` is only ever rewritten through these two lemmas: unfolding its
-- `match` would make the kernel evaluate `ramSaveBlock` on symbolic memory.
theorem transfer_of_some {m : RamMigration} {r : SaveResult}
    (h : ramSaveBlock m.blocks m.cursor m.src = some r) : transfer m = loadSaved m r := by
  rw [transfer, h]

theorem loadSaved_of_some {m : RamMigration} {r : SaveResult} {dst : LoadState}
    (h : ramLoadRecords m.blocks m.dst r.records = some dst) :
    loadSaved m r = .ok (⟨m.blocks, r.src, r.cursor, dst⟩, decide (r.bytesSent < 0)) := by
  rw [loadSaved, h]

/-- Every transfer either finds no dirty page and changes nothing, or sends
and loads one dirty page of the scan. -/
theorem transfer_cases {m : RamMigration} (hm : ScanOk m) :
    (transfer m = .ok (m, true) ∧ AllClean m.blocks m.src) ∨
    ∃ c, PosValid m.blocks c ∧ DirtyAt m.blocks m.src c ∧ transfer m = .ok (sendStep m c, false) := by
  have hb := hm.blocks_ok
  have hcyc := isCycle_scanNext hb
  -- the sent page is loaded where it belongs
  have hsend : ∀ c, PosValid m.blocks c →
      (∀ b, m.cursor.lastBlock = some b → m.dst.block = some (m.blocks.getD b default)) →
      ramSaveBlock m.blocks m.cursor m.src = some (sendResult m.blocks m.cursor m.src c) →
      transfer m = .ok (sendStep m c, false) := by
    intro c hc hcur hsave
    have hneg : decide ((sendResult m.blocks m.cursor m.src c).bytesSent < 0) = false :=
      decide_eq_false (Int.not_lt.mpr (sendPage_bytesSent_pos m.blocks m.cursor m.src c.1 c.2).le)
    rw [transfer_of_some hsave, loadSaved_of_some (ramLoadRecords_sendResult hb hc hcur _), hneg]
    rfl
  rcases hm.cursor_ok with ⟨hcur, hdirty⟩ | ⟨b, hcur, hvalid, hblk⟩
  · -- before the first page: the scan starts at the first page, which is dirty
    have hc := posValid_zero hb
    refine Or.inr ⟨(0, 0), hc, hdirty, hsend _ hc (by simp [hcur]) ?_⟩
    have h0 : getDirty m.src (pageAddr m.blocks 0 0) TARGET_PAGE_SIZE MIGRATION_DIRTY_FLAG ≠ 0 :=
      hdirty
    simp only [ramSaveBlock, hcur, Option.getD_none, saveBlockLoop, if_pos h0]
  · have hcb : ∀ b', m.cursor.lastBlock = some b' → m.dst.block = some (m.blocks.getD b' default) := by
      intro b' hb'
      rw [hcur] at hb'
      cases hb'
      exact hblk
    have hsome := saveBlockLoop_isSome hb hcur hvalid m.src 0 (totalPages m.blocks + 1)
      (by have := hcyc.idx_lt _ hvalid; omega) (by omega)
    simp only [Function.iterate_zero, id] at hsome
    obtain ⟨r, hr⟩ := Option.isSome_iff_exists.mp hsome
    have hsave : ramSaveBlock m.blocks m.cursor m.src = some r := by
      simp only [ramSaveBlock, hcur, Option.getD_some]
      exact hr
    rcases saveBlockLoop_spec (c := (b, m.cursor.lastOffset)) hr with
      ⟨j, hj, rfl⟩ | ⟨k, hk, hback, hclean, rfl⟩
    · have hc := hcyc.valid_iterate hvalid j
      exact Or.inr ⟨_, hc, hj, hsend _ hc hcb hsave⟩
    · -- back at the start: one whole turn met no dirty page
      refine Or.inl ⟨?_, ?_⟩
      · rw [transfer_of_some hsave, loadSaved_of_some rfl]
        rfl
      · intro q hq
        have hk' : (scanNext m.blocks)^[k] (b, m.cursor.lastOffset) = (b, m.cursor.lastOffset) := by
          have h1 := congrArg SaveCursor.lastBlock hback
          have h2 := congrArg SaveCursor.lastOffset hback
          rw [hcur] at h1
          simp only [Option.some.injEq] at h1
          exact Prod.ext h1.symm h2.symm
        have hN := hcyc.period_le hvalid hk hk'
        obtain ⟨j, hj, rfl⟩ := hcyc.exists_iterate hvalid hq
        exact hclean j (by omega)

end Transfer

/-! ## What a transfer does to the two ends -/

/-- One page sent and loaded: a dirty page of the scan, copied to the
destination, with its migration bit cleared. -/
def SendsPage (m m' : RamMigration) : Prop :=
  ∃ c, PosValid m.blocks c ∧ DirtyAt m.blocks m.src c ∧ m' = sendStep m c

/-- A byte of some RAM block. -/
def InRam (blocks : List RAMBlock) (a : ℕ) : Prop :=
  ∃ blk ∈ blocks, blk.offset ≤ a ∧ a < blk.offset + blk.length

/-- Every byte of RAM is on a page the scan will send again, or the same on
both ends. -/
def Synced (m : RamMigration) : Prop :=
  ∀ a, InRam m.blocks a → migDirty m.src (a / TARGET_PAGE_SIZE) ∨ m.dst.mem a = m.src.mem a

/-- The pages of one turn of the scan from the first page that are dirty,
by their number in the turn. -/
def dirtySet (blocks : List RAMBlock) (s : RamState) : Finset ℕ :=
  (Finset.range (totalPages blocks)).filter fun j => DirtyAt blocks s ((scanNext blocks)^[j] (0, 0))

section Sends

variable {blocks : List RAMBlock} {m m' : RamMigration} {c : ℕ × ℕ}

-- The field lemmas of `sendStep` are what proofs rewrite with: the kernel
-- must not compare `sendStep m c` with `m` field by field, which would make
-- it evaluate `resetDirty` on a symbolic page.
@[simp] theorem sendStep_blocks (m : RamMigration) (c : ℕ × ℕ) :
    (sendStep m c).blocks = m.blocks := by
  cases m
  rfl

theorem sendStep_src (m : RamMigration) (c : ℕ × ℕ) :
    (sendStep m c).src = resetDirty m.src (pageAddr m.blocks c.1 c.2)
      (pageAddr m.blocks c.1 c.2 + TARGET_PAGE_SIZE) MIGRATION_DIRTY_FLAG := rfl

@[simp] theorem sendStep_cursor (m : RamMigration) (c : ℕ × ℕ) :
    (sendStep m c).cursor = ⟨some c.1, c.2⟩ := rfl

theorem sendStep_dst (m : RamMigration) (c : ℕ × ℕ) :
    (sendStep m c).dst =
      ⟨copyPage m.dst.mem m.src.mem (pageAddr m.blocks c.1 c.2), some (m.blocks.getD c.1 default)⟩ :=
  rfl

@[simp] theorem sendStep_src_mem (m : RamMigration) (c : ℕ × ℕ) :
    (sendStep m c).src.mem = m.src.mem := by
  rw [sendStep_src, resetDirty_mem]

/-- The sent page is the source's on the destination; every other byte of
the destination stays. -/
theorem sendStep_dst_mem (hb : RamBlocksOk m.blocks) (hc : PosValid m.blocks c) (a : ℕ) :
    (sendStep m c).dst.mem a =
      if a / TARGET_PAGE_SIZE = pageAddr m.blocks c.1 c.2 / TARGET_PAGE_SIZE then m.src.mem a
      else m.dst.mem a := by
  rw [sendStep_dst]
  simp only [copyPage, div_eq_div_iff_mem_page TARGET_PAGE_SIZE_pos (pageAddr_dvd hb hc)]

/-- The send clears the migration bit of the sent page and of no other. -/
theorem migDirty_sendStep (hb : RamBlocksOk m.blocks) (hc : PosValid m.blocks c) (q : ℕ) :
    migDirty (sendStep m c).src q ↔
      q ≠ pageAddr m.blocks c.1 c.2 / TARGET_PAGE_SIZE ∧ migDirty m.src q := by
  rw [sendStep_src]
  exact migDirty_resetDirty_page m.src (pageAddr_dvd hb hc) q

theorem dirtyAt_sendStep (hb : RamBlocksOk m.blocks) (hc : PosValid m.blocks c) {d : ℕ × ℕ}
    (hd : PosValid m.blocks d) :
    DirtyAt m.blocks (sendStep m c).src d ↔
      pageAddr m.blocks d.1 d.2 / TARGET_PAGE_SIZE ≠ pageAddr m.blocks c.1 c.2 / TARGET_PAGE_SIZE ∧
        DirtyAt m.blocks m.src d := by
  rw [dirtyAt_iff hb hd, dirtyAt_iff hb hd, migDirty_sendStep hb hc]

theorem scanOk_sendStep (hb : RamBlocksOk m.blocks) (hc : PosValid m.blocks c) :
    ScanOk (sendStep m c) := by
  constructor
  · rw [sendStep_blocks]
    exact hb
  · refine Or.inr ⟨c.1, rfl, ?_, ?_⟩
    · rw [sendStep_blocks, sendStep_cursor]
      exact hc
    · rw [sendStep_dst, sendStep_blocks]

theorem synced_sendStep (hb : RamBlocksOk m.blocks) (hc : PosValid m.blocks c) (hs : Synced m) :
    Synced (sendStep m c) := by
  intro a ha
  rw [sendStep_blocks] at ha
  rw [sendStep_dst_mem hb hc, sendStep_src_mem, migDirty_sendStep hb hc]
  by_cases hpage : a / TARGET_PAGE_SIZE = pageAddr m.blocks c.1 c.2 / TARGET_PAGE_SIZE
  · exact Or.inr (if_pos hpage)
  · rw [if_neg hpage]
    exact (hs a ha).imp (fun hd => ⟨hpage, hd⟩) id

/-- The sent page leaves the dirty set, and no page enters it. -/
theorem dirtySet_sendStep_ssubset (hb : RamBlocksOk m.blocks) (hc : PosValid m.blocks c)
    (hd : DirtyAt m.blocks m.src c) :
    dirtySet m.blocks (sendStep m c).src ⊂ dirtySet m.blocks m.src := by
  have hcyc := isCycle_scanNext hb
  have h0 := posValid_zero hb
  have hsub : dirtySet m.blocks (sendStep m c).src ⊆ dirtySet m.blocks m.src := by
    intro j hj
    simp only [dirtySet, Finset.mem_filter] at hj ⊢
    exact ⟨hj.1, ((dirtyAt_sendStep hb hc (hcyc.valid_iterate h0 j)).mp hj.2).2⟩
  obtain ⟨j, hj, hjc⟩ := hcyc.exists_iterate h0 hc
  refine (Finset.ssubset_iff_of_subset hsub).mpr ⟨j, ?_, ?_⟩
  · simp only [dirtySet, Finset.mem_filter, Finset.mem_range, hjc]
    exact ⟨hj, hd⟩
  · simp [dirtySet, hjc, dirtyAt_sendStep hb hc hc]

namespace SendsPage

theorem blocks_eq (h : SendsPage m m') : m'.blocks = m.blocks := by
  obtain ⟨c, -, -, rfl⟩ := h
  exact sendStep_blocks m c

theorem src_mem (h : SendsPage m m') : m'.src.mem = m.src.mem := by
  obtain ⟨c, -, -, rfl⟩ := h
  exact sendStep_src_mem m c

theorem scanOk (h : SendsPage m m') (hm : ScanOk m) : ScanOk m' := by
  obtain ⟨c, hc, -, rfl⟩ := h
  exact scanOk_sendStep hm.blocks_ok hc

theorem synced (h : SendsPage m m') (hm : ScanOk m) (hs : Synced m) : Synced m' := by
  obtain ⟨c, hc, -, rfl⟩ := h
  exact synced_sendStep hm.blocks_ok hc hs

/-- A clean page is not sent: its bytes stay on the destination, and it stays clean. -/
theorem clean (h : SendsPage m m') (hm : ScanOk m) {a : ℕ}
    (ha : ¬ migDirty m.src (a / TARGET_PAGE_SIZE)) :
    ¬ migDirty m'.src (a / TARGET_PAGE_SIZE) ∧ m'.dst.mem a = m.dst.mem a := by
  obtain ⟨c, hc, hd, rfl⟩ := h
  have hb := hm.blocks_ok
  -- the sent page is dirty, so it is not the page of `a`
  have hpage : a / TARGET_PAGE_SIZE ≠ pageAddr m.blocks c.1 c.2 / TARGET_PAGE_SIZE := by
    intro heq
    rw [dirtyAt_iff hb hc, ← heq] at hd
    exact ha hd
  rw [migDirty_sendStep hb hc, sendStep_dst_mem hb hc, if_neg hpage]
  exact ⟨fun h => ha h.2, rfl⟩

end SendsPage

/-! Chains of sends, as `ram_save_iterate` and `ram_save_complete` make them. -/

theorem sends_scanOk (h : Relation.ReflTransGen SendsPage m m') (hm : ScanOk m) : ScanOk m' :=
  reflTransGen_invariant ScanOk (fun _ _ h hm => h.scanOk hm) h hm

theorem sends_synced (h : Relation.ReflTransGen SendsPage m m') (hm : ScanOk m) (hs : Synced m) :
    Synced m' :=
  (reflTransGen_invariant (fun m => ScanOk m ∧ Synced m)
    (fun _ _ h hm => ⟨h.scanOk hm.1, h.synced hm.1 hm.2⟩) h ⟨hm, hs⟩).2

theorem sends_blocks (h : Relation.ReflTransGen SendsPage m m') : m'.blocks = m.blocks :=
  reflTransGen_invariant (fun m' => m'.blocks = m.blocks)
    (fun _ _ h hm => h.blocks_eq.trans hm) h rfl

theorem sends_src_mem (h : Relation.ReflTransGen SendsPage m m') : m'.src.mem = m.src.mem :=
  reflTransGen_invariant (fun m' => m'.src.mem = m.src.mem)
    (fun _ _ h hm => h.src_mem.trans hm) h rfl

/-- A byte on a clean page keeps its destination value through any chain of sends. -/
theorem sends_clean (h : Relation.ReflTransGen SendsPage m m') (hm : ScanOk m) {a : ℕ}
    (ha : ¬ migDirty m.src (a / TARGET_PAGE_SIZE)) :
    ¬ migDirty m'.src (a / TARGET_PAGE_SIZE) ∧ m'.dst.mem a = m.dst.mem a := by
  have := reflTransGen_invariant
    (fun m' => ScanOk m' ∧ ¬ migDirty m'.src (a / TARGET_PAGE_SIZE) ∧ m'.dst.mem a = m.dst.mem a)
    (fun _ _ h hm => ⟨h.scanOk hm.1, (h.clean hm.1 hm.2.1).1,
      (h.clean hm.1 hm.2.1).2.trans hm.2.2⟩) h ⟨hm, ha, rfl⟩
  exact this.2

/-! The transfer loop. -/

theorem transferLoop_succ_of_false {n : ℕ} (h : transfer m = .ok (m', false)) :
    transferLoop (n + 1) m = transferLoop n m' := by
  rw [transferLoop, h]

theorem transferLoop_succ_of_true {n : ℕ} (h : transfer m = .ok (m', true)) :
    transferLoop (n + 1) m = .ok (m', true) := by
  rw [transferLoop, h]

/-- Every transfer loop from a consistent scan answers, after a chain of
sends; one that saw `-1` left no page dirty. -/
theorem transferLoop_sends (hm : ScanOk m) (n : ℕ) :
    ∃ m' b, transferLoop n m = .ok (m', b) ∧ Relation.ReflTransGen SendsPage m m' ∧
      (b = true → AllClean m'.blocks m'.src) := by
  induction n generalizing m with
  | zero => exact ⟨m, false, rfl, .refl, by simp⟩
  | succ n ih =>
    rcases transfer_cases hm with ⟨hdone, hclean⟩ | ⟨c, hc, hd, hsend⟩
    · exact ⟨m, true, transferLoop_succ_of_true hdone, .refl, fun _ => hclean⟩
    · have hstep : SendsPage m (sendStep m c) := ⟨c, hc, hd, rfl⟩
      obtain ⟨m', b, hloop, hchain, hb⟩ := ih (hstep.scanOk hm)
      exact ⟨m', b, by rw [transferLoop_succ_of_false hsend, hloop], .head hstep hchain, hb⟩

/-- More rounds than dirty pages: the loop ends with `-1`. The measure is
the dirty set of one turn, which every send shrinks. -/
theorem transferLoop_done (hm : ScanOk m) {n : ℕ} (hn : (dirtySet m.blocks m.src).card < n) :
    ∃ m', transferLoop n m = .ok (m', true) ∧ Relation.ReflTransGen SendsPage m m' ∧
      AllClean m'.blocks m'.src := by
  induction n generalizing m with
  | zero => omega
  | succ n ih =>
    rcases transfer_cases hm with ⟨hdone, hclean⟩ | ⟨c, hc, hd, hsend⟩
    · exact ⟨m, transferLoop_succ_of_true hdone, .refl, hclean⟩
    · have hstep : SendsPage m (sendStep m c) := ⟨c, hc, hd, rfl⟩
      have hlt := Finset.card_lt_card (dirtySet_sendStep_ssubset hm.blocks_ok hc hd)
      obtain ⟨m', hloop, hchain, hclean⟩ := ih (hstep.scanOk hm) (by rw [sendStep_blocks]; omega)
      exact ⟨m', by rw [transferLoop_succ_of_false hsend, hloop], .head hstep hchain, hclean⟩

theorem card_dirtySet_le (blocks : List RAMBlock) (s : RamState) :
    (dirtySet blocks s).card ≤ totalPages blocks := by
  have h := Finset.card_filter_le (Finset.range (totalPages blocks))
    fun j => DirtyAt blocks s ((scanNext blocks)^[j] (0, 0))
  rwa [Finset.card_range] at h

theorem ramSaveIterate_spec (hm : ScanOk m) (n : ℕ) :
    (ramSaveIterate n m).2 = .ok ∧ Relation.ReflTransGen SendsPage m (ramSaveIterate n m).1 := by
  obtain ⟨m', b, hloop, hchain, -⟩ := transferLoop_sends hm n
  rw [ramSaveIterate, hloop]
  exact ⟨rfl, hchain⟩

/-- `ram_save_complete` answers, after a chain of sends that leaves no page
dirty: its `totalPages + 1` rounds are enough. -/
theorem ramSaveComplete_spec (hm : ScanOk m) :
    (ramSaveComplete m).2 = .ok ∧ Relation.ReflTransGen SendsPage m (ramSaveComplete m).1 ∧
      AllClean (ramSaveComplete m).1.blocks (ramSaveComplete m).1.src := by
  have hcard := card_dirtySet_le m.blocks m.src
  obtain ⟨m', hloop, hchain, hclean⟩ := transferLoop_done hm (n := totalPages m.blocks + 1)
    (by omega)
  rw [ramSaveComplete, hloop]
  exact ⟨rfl, hchain, hclean⟩

/-! Exactness. -/

/-- Every byte of a block lies on the page of some position of the scan. -/
theorem exists_posValid_of_inRam (hb : RamBlocksOk blocks) {a : ℕ} (ha : InRam blocks a) :
    ∃ c, PosValid blocks c ∧ pageAddr blocks c.1 c.2 / TARGET_PAGE_SIZE = a / TARGET_PAGE_SIZE := by
  obtain ⟨blk, hmem, hlo, hhi⟩ := ha
  obtain ⟨i, hi, rfl⟩ := List.getElem_of_mem hmem
  have hget : blocks.getD i default = blocks[i] := List.getD_eq_getElem _ _ hi
  have hdown := alignDown_le TARGET_PAGE_SIZE (a - blocks[i].offset)
  have hup := lt_alignDown_add TARGET_PAGE_SIZE_pos (a - blocks[i].offset)
  refine ⟨(i, alignDown TARGET_PAGE_SIZE (a - blocks[i].offset)),
    ⟨by simpa using hi, ?_, alignDown_dvd _ _⟩, ?_⟩
  · rw [getD_map_length, hget]
    omega
  · -- the page start of `a`, found inside the block
    have hA : TARGET_PAGE_SIZE ∣ pageAddr blocks i (alignDown TARGET_PAGE_SIZE (a - blocks[i].offset)) := by
      unfold pageAddr
      rw [hget]
      exact Nat.dvd_add (hb.offset_aligned _ hmem) (alignDown_dvd _ _)
    symm
    apply div_eq_of_mem_page TARGET_PAGE_SIZE_pos hA <;> (unfold pageAddr; rw [hget]; omega)

theorem pageAddr_inRam {c : ℕ × ℕ} (hc : PosValid blocks c) : InRam blocks (pageAddr blocks c.1 c.2) := by
  refine ⟨_, getD_mem_of_posValid hc, Nat.le_add_right _ _, ?_⟩
  have h := hc.2.1
  rw [getD_map_length] at h
  unfold pageAddr
  omega

/-- With no page dirty, no byte of RAM is on a dirty page. -/
theorem clean_of_allClean (hb : RamBlocksOk blocks) {s : RamState} (hclean : AllClean blocks s)
    {a : ℕ} (ha : InRam blocks a) : ¬ migDirty s (a / TARGET_PAGE_SIZE) := by
  obtain ⟨c, hc, hpage⟩ := exists_posValid_of_inRam hb ha
  rw [← hpage, ← dirtyAt_iff hb hc]
  exact hclean c hc

theorem exact_of_allClean (hm : ScanOk m) (hs : Synced m) (hclean : AllClean m.blocks m.src) :
    ∀ a, InRam m.blocks a → m.dst.mem a = m.src.mem a := fun a ha =>
  (hs a ha).resolve_left (clean_of_allClean hm.blocks_ok hclean ha)

/-- `ram_save_complete` from a synchronised migration leaves every byte of
every block the same on both ends. -/
theorem ramSaveComplete_exact (hm : ScanOk m) (hs : Synced m) :
    ∀ a, InRam (ramSaveComplete m).1.blocks a →
      (ramSaveComplete m).1.dst.mem a = (ramSaveComplete m).1.src.mem a := by
  obtain ⟨-, hchain, hclean⟩ := ramSaveComplete_spec hm
  exact exact_of_allClean (sends_scanOk hchain hm) (sends_synced hchain hm hs) hclean

end Sends

/-! ## Setup -/

section Setup

variable {blocks : List RAMBlock}

theorem ramBlocksOk_sortRamList (hb : RamBlocksOk blocks) : RamBlocksOk (sortRamList blocks) := by
  have hperm : (sortRamList blocks).Perm blocks := List.mergeSort_perm _ _
  refine ⟨?_, fun b hbm => hb.length_pos b (hperm.mem_iff.mp hbm),
    fun b hbm => hb.length_aligned b (hperm.mem_iff.mp hbm),
    fun b hbm => hb.offset_aligned b (hperm.mem_iff.mp hbm),
    (hperm.map RAMBlock.idstr).nodup_iff.mpr hb.idstr_nodup⟩
  intro h
  rw [h] at hperm
  exact hb.nonempty hperm.nil_eq.symm

theorem inRam_sortRamList {a : ℕ} : InRam (sortRamList blocks) a ↔ InRam blocks a := by
  have hperm : (sortRamList blocks).Perm blocks := List.mergeSort_perm _ _
  simp only [InRam, hperm.mem_iff]

/-- The block table of `ram_save_setup` passes `ram_load`'s check: every
name is found, with its length. -/
theorem ramLoadRecords_setupRecords (hb : RamBlocksOk blocks) (dst : LoadState) :
    ramLoadRecords blocks dst (setupRecords blocks) = some dst := by
  have hall : ((blocks.map fun blk => (blk.idstr, blk.length)).all fun e =>
      (blocks.find? fun blk => blk.idstr == e.1).any (·.length == e.2)) = true := by
    rw [List.all_eq_true]
    simp only [List.mem_map]
    rintro e ⟨blk, hmem, rfl⟩
    simp [find_idstr_of_mem hb.idstr_nodup hmem]
  simp only [setupRecords, ramLoadRecords, ramLoadRecord, hall, if_true, Option.bind_some]

theorem markPage_mem (s : RamState) (addr : ℕ) : (markPage s addr).mem = s.mem := by
  unfold markPage
  split <;> simp

theorem migDirty_markPage_of {s : RamState} {q : ℕ} (h : migDirty s q) (addr : ℕ) :
    migDirty (markPage s addr) q := by
  unfold markPage
  split
  · exact (migDirty_setDirtyRange (by decide) q).mpr (Or.inl h)
  · exact h

theorem migDirty_markPage (s : RamState) {addr : ℕ} (ha : TARGET_PAGE_SIZE ∣ addr) :
    migDirty (markPage s addr) (addr / TARGET_PAGE_SIZE) := by
  unfold markPage
  split
  · refine (migDirty_setDirtyRange (by decide) _).mpr (Or.inr ⟨addr, ?_, rfl⟩)
    rw [pageStarts_page TARGET_PAGE_SIZE_pos ha]
    exact List.mem_singleton_self _
  · next h =>
    rw [getDirty_page s ha] at h
    exact h

theorem markBlock_mem (s : RamState) (blk : RAMBlock) : (markBlock s blk).mem = s.mem := by
  unfold markBlock
  induction List.range ((blk.length + TARGET_PAGE_SIZE - 1) / TARGET_PAGE_SIZE) generalizing s with
  | nil => rfl
  | cons k ks ih => rw [List.foldl_cons, ih, markPage_mem]

/-- The loop over a block is the loop body run on its page starts. -/
theorem markBlock_eq (s : RamState) (blk : RAMBlock) :
    markBlock s blk =
      ((List.range ((blk.length + TARGET_PAGE_SIZE - 1) / TARGET_PAGE_SIZE)).map
        fun k => blk.offset + k * TARGET_PAGE_SIZE).foldl markPage s := by
  rw [markBlock, List.foldl_map]

theorem migDirty_foldl_markPage_of {s : RamState} {q : ℕ} (h : migDirty s q) (addrs : List ℕ) :
    migDirty (addrs.foldl markPage s) q := by
  induction addrs generalizing s with
  | nil => exact h
  | cons x xs ih => exact ih (migDirty_markPage_of h x)

/-- The loop body run on aligned page starts marks each of their pages. -/
theorem migDirty_foldl_markPage (s : RamState) {addrs : List ℕ}
    (hal : ∀ x ∈ addrs, TARGET_PAGE_SIZE ∣ x) {x : ℕ} (hx : x ∈ addrs) :
    migDirty (addrs.foldl markPage s) (x / TARGET_PAGE_SIZE) := by
  induction addrs generalizing s with
  | nil => simp at hx
  | cons y ys ih =>
    rw [List.foldl_cons]
    rcases List.mem_cons.mp hx with rfl | hx
    · exact migDirty_foldl_markPage_of (migDirty_markPage s (hal x List.mem_cons_self)) ys
    · exact ih _ (fun z hz => hal z (List.mem_cons_of_mem y hz)) hx

theorem migDirty_markBlock_of {s : RamState} {q : ℕ} (h : migDirty s q) (blk : RAMBlock) :
    migDirty (markBlock s blk) q := by
  rw [markBlock_eq]
  exact migDirty_foldl_markPage_of h _

/-- The loop over a block marks the page of every byte of the block. -/
theorem migDirty_markBlock (s : RamState) {blk : RAMBlock} (hoff : TARGET_PAGE_SIZE ∣ blk.offset)
    {a : ℕ} (h1 : blk.offset ≤ a) (h2 : a < blk.offset + blk.length) :
    migDirty (markBlock s blk) (a / TARGET_PAGE_SIZE) := by
  have hk := Nat.div_mul_le_self (a - blk.offset) TARGET_PAGE_SIZE
  have hk' := Nat.lt_div_mul_add (a := a - blk.offset) TARGET_PAGE_SIZE_pos
  -- the pass `(a - offset) / TARGET_PAGE_SIZE` of the loop is on the page of `a`
  have hlt : (a - blk.offset) / TARGET_PAGE_SIZE <
      (blk.length + TARGET_PAGE_SIZE - 1) / TARGET_PAGE_SIZE := by
    apply (Nat.le_div_iff_mul_le TARGET_PAGE_SIZE_pos).mpr
    rw [Nat.succ_mul]
    omega
  have hpage : a / TARGET_PAGE_SIZE =
      (blk.offset + (a - blk.offset) / TARGET_PAGE_SIZE * TARGET_PAGE_SIZE) / TARGET_PAGE_SIZE :=
    div_eq_of_mem_page TARGET_PAGE_SIZE_pos (Nat.dvd_add hoff (Nat.dvd_mul_left _ _))
      (by omega) (by omega)
  rw [markBlock_eq, hpage]
  apply migDirty_foldl_markPage
  · simp only [List.mem_map]
    rintro x ⟨k, -, rfl⟩
    exact Nat.dvd_add hoff (Nat.dvd_mul_left _ _)
  · exact List.mem_map.mpr ⟨_, List.mem_range.mpr hlt, rfl⟩

theorem markAllDirty_mem (blocks : List RAMBlock) (s : RamState) :
    (markAllDirty blocks s).mem = s.mem := by
  induction blocks generalizing s with
  | nil => rfl
  | cons blk rest ih => exact (ih _).trans (markBlock_mem s blk)

theorem migDirty_markAllDirty_of {s : RamState} {q : ℕ} (h : migDirty s q) (blocks : List RAMBlock) :
    migDirty (markAllDirty blocks s) q := by
  induction blocks generalizing s with
  | nil => exact h
  | cons blk rest ih => exact ih (migDirty_markBlock_of h blk)

/-- After `ram_save_setup`'s loop every byte of every block is on a page
dirty for migration. -/
theorem migDirty_markAllDirty (hoff : ∀ blk ∈ blocks, TARGET_PAGE_SIZE ∣ blk.offset)
    (s : RamState) {a : ℕ} (ha : InRam blocks a) :
    migDirty (markAllDirty blocks s) (a / TARGET_PAGE_SIZE) := by
  induction blocks generalizing s with
  | nil => simp [InRam] at ha
  | cons blk rest ih =>
    obtain ⟨b, hb, h1, h2⟩ := ha
    rcases List.mem_cons.mp hb with rfl | hb
    · exact migDirty_markAllDirty_of
        (migDirty_markBlock s (hoff b List.mem_cons_self) h1 h2) rest
    · exact ih (fun x hx => hoff x (List.mem_cons_of_mem blk hx)) _ ⟨b, hb, h1, h2⟩

/-- With well-formed blocks the destination accepts the block table: the
scan restarts at the first page of the sorted blocks, all of them dirty. -/
theorem ramSaveSetup_eq {m : RamMigration} (hb : RamBlocksOk m.blocks) :
    ramSaveSetup m =
      (⟨sortRamList m.blocks, markAllDirty (sortRamList m.blocks) m.src, ⟨none, 0⟩, m.dst⟩, .ok) := by
  rw [ramSaveSetup, ramLoadRecords_setupRecords (ramBlocksOk_sortRamList hb)]

/-- `ram_save_setup` answers, and leaves a consistent scan at the first page
and every page dirty; RAM itself is untouched. -/
theorem ramSaveSetup_spec {m : RamMigration} (hb : RamBlocksOk m.blocks) :
    (ramSaveSetup m).2 = .ok ∧ ScanOk (ramSaveSetup m).1 ∧ Synced (ramSaveSetup m).1 ∧
      (ramSaveSetup m).1.blocks = sortRamList m.blocks ∧ (ramSaveSetup m).1.src.mem = m.src.mem := by
  have hb' := ramBlocksOk_sortRamList hb
  have hall : ∀ a, InRam (sortRamList m.blocks) a →
      migDirty (markAllDirty (sortRamList m.blocks) m.src) (a / TARGET_PAGE_SIZE) :=
    fun a ha => migDirty_markAllDirty hb'.offset_aligned _ ha
  rw [ramSaveSetup, ramLoadRecords_setupRecords hb']
  refine ⟨rfl, ⟨hb', Or.inl ⟨rfl, ?_⟩⟩, fun a ha => Or.inl (hall a ha), rfl,
    markAllDirty_mem _ _⟩
  have h0 := posValid_zero hb'
  rw [dirtyAt_iff hb' h0]
  exact hall _ (pageAddr_inRam h0)

end Setup

section System

variable (phys : ℕ → PhysPage)

/-- The source and the destination under every event: a device write, the
three save hooks of the migration thread, each followed by `ram_load` of
what it sent. -/
def ramStep (m : RamMigration) : RamEvent → RamMigration × RamReply
  | .physWrite addr buf => ({ m with src := (cpuPhysicalMemoryWrite phys m.src addr buf).1 }, .ok)
  | .dmaWrite addr1 buf => ({ m with src := (dmaWrite m.src addr1 buf).1 }, .ok)
  | .setup => ramSaveSetup m
  | .iterate n => ramSaveIterate n m
  | .complete => ramSaveComplete m

-- Proofs rewrite with these rather than let the kernel see through `ramStep`
-- under a projection, which makes it evaluate the save hooks.
theorem ramStep_physWrite (m : RamMigration) (addr : ℕ) (buf : List UInt8) :
    ramStep phys m (.physWrite addr buf) =
      ({ m with src := (cpuPhysicalMemoryWrite phys m.src addr buf).1 }, .ok) := rfl

theorem ramStep_dmaWrite (m : RamMigration) (addr1 : ℕ) (buf : List UInt8) :
    ramStep phys m (.dmaWrite addr1 buf) = ({ m with src := (dmaWrite m.src addr1 buf).1 }, .ok) :=
  rfl

theorem ramStep_setup (m : RamMigration) : ramStep phys m .setup = ramSaveSetup m := rfl

theorem ramStep_iterate (m : RamMigration) (n : ℕ) :
    ramStep phys m (.iterate n) = ramSaveIterate n m := rfl

theorem ramStep_complete (m : RamMigration) : ramStep phys m .complete = ramSaveComplete m := rfl

variable {phys}

/-- A write changes the source's RAM and flags, and nothing else. -/
theorem ramStep_write_blocks (m : RamMigration) (s' : RamState) :
    ({ m with src := s' } : RamMigration).blocks = m.blocks := by
  cases m
  rfl

theorem ramStep_write_dst (m : RamMigration) (s' : RamState) :
    ({ m with src := s' } : RamMigration).dst = m.dst := by
  cases m
  rfl

/-- A write that only sets migration bits keeps the scan consistent. -/
theorem scanOk_write {m : RamMigration} {s' : RamState} (hm : ScanOk m)
    (hmono : ∀ q, migDirty m.src q → migDirty s' q) : ScanOk { m with src := s' } := by
  have hb := hm.blocks_ok
  constructor
  · rw [ramStep_write_blocks]
    exact hb
  · unfold CursorOk
    rw [ramStep_write_blocks]
    rcases hm.cursor_ok with ⟨hcur, hd⟩ | hsome
    · refine Or.inl ⟨hcur, ?_⟩
      rw [dirtyAt_iff hb (posValid_zero hb)] at hd ⊢
      exact hmono _ hd
    · exact Or.inr hsome

/-- A write that marks what it changes, and clears no migration bit, keeps
the two ends synchronised. -/
theorem synced_write {m : RamMigration} {s' : RamState} (hs : Synced m)
    (hw : MarksWrites m.src s') (hmono : ∀ q, migDirty m.src q → migDirty s' q) :
    Synced { m with src := s' } := by
  intro a ha
  rw [ramStep_write_blocks] at ha
  by_cases hmem : s'.mem a = m.src.mem a
  · rcases hs a ha with hd | heq
    · exact Or.inl (hmono _ hd)
    · exact Or.inr (heq.trans hmem.symm)
  · exact Or.inl (hw a hmem)

theorem ramStep_scanOk {m : RamMigration} (hm : ScanOk m) (e : RamEvent) :
    ScanOk (ramStep phys m e).1 := by
  cases e with
  | physWrite addr buf =>
    rw [ramStep_physWrite]
    exact scanOk_write hm fun q hq => migDirty_cpuPhysicalMemoryWrite phys hq addr buf
  | dmaWrite addr1 buf =>
    rw [ramStep_dmaWrite]
    exact scanOk_write hm fun q hq => migDirty_dmaWrite hq addr1 buf
  | setup =>
    rw [ramStep_setup]
    exact (ramSaveSetup_spec hm.blocks_ok).2.1
  | iterate n =>
    rw [ramStep_iterate]
    exact sends_scanOk (ramSaveIterate_spec hm n).2 hm
  | complete =>
    rw [ramStep_complete]
    exact sends_scanOk (ramSaveComplete_spec hm).2.1 hm

/-- From a consistent scan every event is answered: no hang, no load error. -/
theorem ramStep_ok {m : RamMigration} (hm : ScanOk m) (e : RamEvent) :
    (ramStep phys m e).2 = .ok := by
  cases e with
  | physWrite addr buf => rfl
  | dmaWrite addr1 buf => rfl
  | setup =>
    rw [ramStep_setup]
    exact (ramSaveSetup_spec hm.blocks_ok).1
  | iterate n =>
    rw [ramStep_iterate]
    exact (ramSaveIterate_spec hm n).1
  | complete =>
    rw [ramStep_complete]
    exact (ramSaveComplete_spec hm).1

/-- Every event but a DMA write keeps the two ends synchronised. -/
theorem ramStep_synced (hphys : RamAligned phys) {m : RamMigration} (hm : ScanOk m)
    (hs : Synced m) {e : RamEvent} (he : e.isDma = false) : Synced (ramStep phys m e).1 := by
  cases e with
  | physWrite addr buf =>
    rw [ramStep_physWrite]
    exact synced_write hs (marksWrites_cpuPhysicalMemoryWrite hphys m.src addr buf)
      fun q hq => migDirty_cpuPhysicalMemoryWrite phys hq addr buf
  | dmaWrite addr1 buf => simp [RamEvent.isDma] at he
  | setup =>
    rw [ramStep_setup]
    exact (ramSaveSetup_spec hm.blocks_ok).2.2.1
  | iterate n =>
    rw [ramStep_iterate]
    exact sends_synced (ramSaveIterate_spec hm n).2 hm hs
  | complete =>
    rw [ramStep_complete]
    exact sends_synced (ramSaveComplete_spec hm).2.1 hm hs

/-- From `ram_save_setup` on, every event of a run is answered. -/
theorem outputs_setup_ok {m : RamMigration} (hb : RamBlocksOk m.blocks) (es : List RamEvent) :
    ∀ r ∈ outputs (ramStep phys) m (.setup :: es), r = .ok := by
  rw [outputs_cons, ramStep_setup]
  intro r hr
  rcases List.mem_cons.mp hr with rfl | hr
  · exact (ramSaveSetup_spec hb).1
  · exact outputs_forall (ramStep phys) ScanOk (fun _ => True) (fun r => r = RamReply.ok)
      (fun _ e _ hm => ramStep_scanOk hm e) (fun _ e _ hm => ramStep_ok hm e)
      (ramSaveSetup_spec hb).2.1 es (fun _ _ => trivial) r hr

/-- Pre-copy with every device write going through `cpu_physical_memory_rw`:
from `ram_save_setup` on every event is answered, and after the final
`ram_save_complete` every byte of every block is the same on both ends. -/
theorem precopy_exact (hphys : RamAligned phys) {m : RamMigration} (hb : RamBlocksOk m.blocks)
    (es : List RamEvent) (hes : ∀ e ∈ es, e.isDma = false) :
    (∀ r ∈ outputs (ramStep phys) m (.setup :: (es ++ [RamEvent.complete])), r = .ok) ∧
      ∀ a, InRam (run (ramStep phys) m (.setup :: (es ++ [RamEvent.complete]))).blocks a →
        (run (ramStep phys) m (.setup :: (es ++ [RamEvent.complete]))).dst.mem a =
          (run (ramStep phys) m (.setup :: (es ++ [RamEvent.complete]))).src.mem a := by
  refine ⟨outputs_setup_ok hb _, ?_⟩
  obtain ⟨-, hm₁, hs₁, -⟩ := ramSaveSetup_spec hb
  -- `ScanOk ∧ Synced` holds after setup and through every event that is not a DMA write
  have hinv := run_invariant_of_forall (ramStep phys) (fun m => ScanOk m ∧ Synced m)
    (fun e => e.isDma = false) (fun _ e he hm => ⟨ramStep_scanOk hm.1 e, ramStep_synced hphys hm.1 hm.2 he⟩)
    ⟨hm₁, hs₁⟩ es hes
  rw [run_cons, ramStep_setup, run_concat, ramStep_complete]
  exact ramSaveComplete_exact hinv.1 hinv.2

/-- Setup, a first `ram_save_complete`, a DMA write and a last one, from any
state: the last `ram_save_complete` starts from the state `m₂` after the
first with the DMA write applied to the source. `m₂` is named so that the
update is the same term as the one a proof about `m₂` builds. -/
theorem run_setup_dmaWrite (m : RamMigration) (addr1 : ℕ) (buf : List UInt8) {m₂ : RamMigration}
    (h₂ : (ramSaveComplete (ramSaveSetup m).1).1 = m₂) :
    run (ramStep phys) m [.setup, .complete, .dmaWrite addr1 buf, .complete] =
      (ramSaveComplete { m₂ with src := (dmaWrite m₂.src addr1 buf).1 }).1 := by
  subst h₂
  rw [run_cons, ramStep_setup, run_cons, ramStep_complete, run_cons, ramStep_dmaWrite, run_cons,
    ramStep_complete, run_nil]

/-- A DMA write that starts on one page and runs on into the next, between
two `ram_save_complete`s: the unmap path marks only the first page, so a
byte `a` past the boundary that the write changes is never sent again, and
the last `ram_save_complete` answers with the ends differing at `a`. -/
theorem dmaWrite_crossing_lost {m : RamMigration} (hb : RamBlocksOk m.blocks) {addr1 a : ℕ}
    {buf : List UInt8} (ha : InRam m.blocks a) (hlen : buf.length ≤ TARGET_PAGE_SIZE)
    (hpage : a / TARGET_PAGE_SIZE ≠ addr1 / TARGET_PAGE_SIZE)
    (hin : addr1 ≤ a ∧ a < addr1 + buf.length) (hnew : buf.getD (a - addr1) 0 ≠ m.src.mem a) :
    let es := [RamEvent.setup, .complete, .dmaWrite addr1 buf, .complete]
    (∀ r ∈ outputs (ramStep phys) m es, r = .ok) ∧ InRam (run (ramStep phys) m es).blocks a ∧
      (run (ramStep phys) m es).dst.mem a ≠ (run (ramStep phys) m es).src.mem a := by
  intro es
  obtain ⟨-, hm₁, hs₁, hblocks₁, hmem₁⟩ := ramSaveSetup_spec hb
  set m₁ := (ramSaveSetup m).1
  -- the first `ram_save_complete`: both ends agree and no page is dirty
  obtain ⟨-, hchain₂, hclean₂⟩ := ramSaveComplete_spec hm₁
  set m₂ := (ramSaveComplete m₁).1
  have hm₂ := sends_scanOk hchain₂ hm₁
  have hram₂ : InRam m₂.blocks a := by
    rwa [sends_blocks hchain₂, hblocks₁, inRam_sortRamList]
  have hdst₂ : m₂.dst.mem a = m.src.mem a := by
    rw [exact_of_allClean hm₂ (sends_synced hchain₂ hm₁ hs₁) hclean₂ _ hram₂,
      sends_src_mem hchain₂, hmem₁]
  -- the DMA write: byte `a` changes, its page stays clean
  set m₃ : RamMigration := { m₂ with src := (dmaWrite m₂.src addr1 buf).1 }
  have hm₃ : ScanOk m₃ := scanOk_write hm₂ fun q hq => migDirty_dmaWrite hq _ _
  have hclean₃ : ¬ migDirty m₃.src (a / TARGET_PAGE_SIZE) := by
    have hclean := clean_of_allClean hm₂.blocks_ok hclean₂ hram₂
    unfold migDirty at hclean ⊢
    rwa [dmaWrite_physDirty_of_ne _ hlen hpage]
  have hsrc₃ : m₃.src.mem a = buf.getD (a - addr1) 0 := by
    show (dmaWrite m₂.src addr1 buf).1.mem a = _
    rw [dmaWrite_mem, writeBytes, if_pos hin]
  -- the last `ram_save_complete` never sends that page again
  obtain ⟨-, hchain₄, -⟩ := ramSaveComplete_spec hm₃
  have hrun : run (ramStep phys) m es = (ramSaveComplete m₃).1 := run_setup_dmaWrite m addr1 buf rfl
  refine ⟨outputs_setup_ok hb _, ?_, ?_⟩
  · rwa [hrun, sends_blocks hchain₄, ramStep_write_blocks]
  · rw [hrun, (sends_clean hchain₄ hm₃ hclean₃).2, sends_src_mem hchain₄, hsrc₃,
      ramStep_write_dst, hdst₂]
    exact hnew.symm

/-- The failing input: one block of two pages. After setup and a first
`ram_save_complete` both ends agree; then a DMA write of four bytes at
`0xffe` runs on into page 1, whose migration bit the unmap path does not
set, and the last `ram_save_complete` answers with byte `0x1000` different
on the two ends. -/
theorem dma_write_lost :
    let m : RamMigration :=
      ⟨[⟨0, 0x2000, "pc.ram"⟩], ⟨fun _ => 0, fun _ => 0, 0⟩, ⟨none, 0⟩, ⟨fun _ => 0, none⟩⟩
    let es := [RamEvent.setup, .complete, .dmaWrite 0xffe [1, 1, 1, 1], .complete]
    (∀ r ∈ outputs (ramStep phys) m es, r = .ok) ∧ InRam (run (ramStep phys) m es).blocks 0x1000 ∧
      (run (ramStep phys) m es).dst.mem 0x1000 ≠ (run (ramStep phys) m es).src.mem 0x1000 := by
  intro m es
  have hb : RamBlocksOk m.blocks :=
    (⟨List.cons_ne_nil _ _, by decide, by decide, by decide, by decide⟩ :
      RamBlocksOk [⟨0, 0x2000, "pc.ram"⟩])
  have ha : InRam m.blocks 0x1000 := ⟨_, List.mem_singleton_self _, by decide, by decide⟩
  -- page 1 starts at `0x1000`; the write starts on page 0 and its third byte lands there
  exact dmaWrite_crossing_lost hb ha (by decide) (by decide) (by decide) (by decide)

end System

end QemuKvm.Migration
