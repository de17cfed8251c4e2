import QemuKvm.Block.Qcow2Refcount
import QemuKvm.Lib.HighMask
import Mathlib.Tactic.Set

/-!
# qcow2: updating refcounts and allocating clusters

The refcount of a cluster is read by `get_refcount` through the refcount
table and the refcount block the table points at (block/qcow2-refcount.c).
`update_refcount` adds an `addend` to the refcounts of a byte range, cluster
by cluster; when it needs a refcount block that does not exist,
`alloc_refcount_block` allocates one with `alloc_clusters_noref`, counts it
(in itself, or by a nested `update_refcount`) and hooks it into the table,
growing the table when the table is too small. On an error,
`update_refcount` undoes the clusters done so far by calling itself on
`[offset, cluster_offset)` with `-addend`. `qcow2_alloc_clusters` finds free
clusters from the `free_cluster_index` hint and counts them;
`qcow2_alloc_clusters_at` counts the free clusters at a given offset.

The state is `RefcountImage`: the refcount table as `qcow2_open` loads it and,
for each file offset, the refcount block found there. The refcount block
cache and the file agree in the model: a block is read and written in one
place, and the flushes are not modelled. Reads and writes of the image file
succeed; the negative returns of the cache and of `bdrv_pwrite_sync` are left
out. Writes that the code makes to other data (the new table on disk, the
header) do not change the refcount blocks. The C widths are kept: offsets
and `free_cluster_index` are `int64_t` (`BitVec 64`, compared signed), return
values are `int`s (`ℤ`). A signed overflow wraps, as two's complement does;
no result below reaches one. The functions that call each other recursively
share one fuel; `none` means that the fuel ran out, that a write fell outside
an allocation, or that the code aborts.
-/

namespace QemuKvm.Qcow2

open BitVec

def REFT_OFFSET_MASK : BitVec 64 := 0xffffffffffffff00#64

def EINVAL : ℤ := 22

/-- The refcount structures of an open image: the in-memory refcount table,
its place in the file, and the refcount block (one 16-bit refcount per
entry) stored at each file offset. -/
structure RefcountImage extends BDRVQcowRefcountState where
  refcountTable : ℕ → BitVec 64
  refcountTableOffset : BitVec 64
  refcountBlock : BitVec 64 → ℕ → BitVec 16

namespace RefcountImage

/-- Store refcount `v` at entry `i` of the refcount block at `block`. -/
def setRefcount (s : RefcountImage) (block : BitVec 64) (i : ℕ) (v : BitVec 16) :
    RefcountImage :=
  { s with refcountBlock :=
      Function.update s.refcountBlock block (Function.update (s.refcountBlock block) i v) }

/-- `s->refcount_table[refcount_table_index] = new_block`. -/
def hookBlock (s : RefcountImage) (refcountTableIndex : BitVec 32) (newBlock : BitVec 64) :
    RefcountImage :=
  { s with refcountTable := Function.update s.refcountTable refcountTableIndex.toNat newBlock }

/-- `qcow2_cache_get_empty` followed by `memset(*refcount_block, 0, cluster_size)`. -/
def zeroBlock (s : RefcountImage) (block : BitVec 64) : RefcountImage :=
  { s with refcountBlock := Function.update s.refcountBlock block fun _ => 0 }

end RefcountImage

/-! ## Reading a refcount -/

/-- `refcount_table_index`: `cluster_index >> (cluster_bits - REFCOUNT_SHIFT)`
kept in an `int` by `get_refcount` and an `unsigned int` by
`alloc_refcount_block`, the low 32 bits either way. -/
def refcountTableIndex (s : BDRVQcowState) (clusterIndex : BitVec 64) : BitVec 32 :=
  (clusterIndex.sshiftRight (s.clusterBits - REFCOUNT_SHIFT).toNat).setWidth 32

/-- `block_index`: `cluster_index & ((1 << (cluster_bits - REFCOUNT_SHIFT)) - 1)`,
an `int`. -/
def blockIndex (s : BDRVQcowState) (clusterIndex : BitVec 64) : BitVec 32 :=
  (clusterIndex &&& ((1#32 <<< (s.clusterBits - REFCOUNT_SHIFT).toNat) - 1).signExtend 64).setWidth 32

/-- `get_refcount`: the refcount of a cluster, 0 past the end of the table or
where the table has no block. -/
def getRefcount (s : RefcountImage) (clusterIndex : BitVec 64) : BitVec 16 :=
  let refcountTableIndex := refcountTableIndex s.toBDRVQcowState clusterIndex
  if refcountTableIndex ≥ s.refcountTableSize then 0
  else
    let refcountBlockOffset := s.refcountTable refcountTableIndex.toNat
    if refcountBlockOffset = 0 then 0
    else s.refcountBlock refcountBlockOffset (blockIndex s.toBDRVQcowState clusterIndex).toNat

/-- The refcount block `alloc_refcount_block` finds for a table index, 0 when
the index is past the table or the entry is empty. -/
def presentRefcountBlock (s : RefcountImage) (refcountTableIndex : BitVec 32) : BitVec 64 :=
  if refcountTableIndex < s.refcountTableSize then
    s.refcountTable refcountTableIndex.toNat &&& REFT_OFFSET_MASK
  else 0

/-- `in_same_refcount_block`: the two offsets have their refcounts in one block. -/
def inSameRefcountBlock (s : BDRVQcowState) (offsetA offsetB : BitVec 64) : Bool :=
  offsetA >>> (2 * s.clusterBits - REFCOUNT_SHIFT).toNat ==
    offsetB >>> (2 * s.clusterBits - REFCOUNT_SHIFT).toNat

/-! ## Finding free clusters -/

/-- The search of `alloc_clusters_noref`: take `free_cluster_index++` until
`nb_clusters` clusters in a row had refcount 0, counting again from 0 after a
used one (`goto retry`). -/
def allocClustersNorefLoop (nbClusters : BitVec 32) : RefcountImage → BitVec 32 → ℕ →
    Option RefcountImage
  | _, _, 0 => none
  | s, i, fuel + 1 =>
    if i.slt nbClusters then
      let nextClusterIndex := s.freeClusterIndex
      let s := { s with freeClusterIndex := nextClusterIndex + 1 }
      if getRefcount s nextClusterIndex ≠ 0 then allocClustersNorefLoop nbClusters s 0 fuel
      else allocClustersNorefLoop nbClusters s (i + 1) fuel
    else some s

/-- `alloc_clusters_noref`: the offset of the `size_to_clusters(s, size)`
free clusters just before the new `free_cluster_index`. -/
def allocClustersNoref (s : RefcountImage) (size : BitVec 64) (fuel : ℕ) :
    Option (BitVec 64 × RefcountImage) := do
  let nbClusters := sizeToClusters s.toBDRVQcowState size
  let s ← allocClustersNorefLoop nbClusters s 0 fuel
  some ((s.freeClusterIndex - nbClusters.signExtend 64) <<< s.clusterBits.toNat, s)

/-! ## Updating refcounts -/

/-- `~(s->cluster_size - 1)` as an `int64_t`: rounds an offset down to its
cluster. -/
def clusterMask (s : BDRVQcowState) : BitVec 64 := ~~~((s.clusterSize - 1).signExtend 64)

/-- `cluster_index` in `update_refcount`: `cluster_offset >> cluster_bits`. -/
def clusterIndexOf (s : BDRVQcowState) (clusterOffset : BitVec 64) : BitVec 64 :=
  clusterOffset.sshiftRight s.clusterBits.toNat

/-- `table_index` in `update_refcount`: `cluster_index >> (cluster_bits - REFCOUNT_SHIFT)`,
all 64 bits of it. -/
def tableIndexOf (s : BDRVQcowState) (clusterIndex : BitVec 64) : BitVec 64 :=
  clusterIndex.sshiftRight (s.clusterBits - REFCOUNT_SHIFT).toNat

/-- `refcount < 0 || refcount > 0xffff`: the new refcount does not fit in its
16 bits. -/
def refcountOutOfRange (refcount : BitVec 32) : Bool :=
  refcount.slt 0 || (0xffff#32).slt refcount

/-- The end of one round of `update_refcount`: a cluster whose refcount drops
to 0 below `free_cluster_index` becomes the new hint, and the refcount is
stored. -/
def putRefcount (s : RefcountImage) (block clusterIndex : BitVec 64) (refcount : BitVec 32) :
    RefcountImage :=
  let s := if refcount = 0 ∧ clusterIndex.slt s.freeClusterIndex then
    { s with freeClusterIndex := clusterIndex } else s
  s.setRefcount block (blockIndex s.toBDRVQcowState clusterIndex).toNat (refcount.setWidth 16)

/-- `new_table` of the growth path: `table_size` zeroed entries, the old table
copied in, the new block at `refcount_table_index`, then the new blocks from
`blocks_used` on; `none` when one of these writes falls outside it. -/
def newRefcountTable (s : RefcountImage) (refcountTableIndex : BitVec 32) (newBlock : BitVec 64)
    (g : RefcountGrowth) : Option (ℕ → BitVec 64) :=
  let used := (blocksUsed s.toBDRVQcowRefcountState).toNat
  if s.refcountTableSize.toNat ≤ g.tableSize.toNat ∧ refcountTableIndex.toNat < g.tableSize.toNat ∧
      (g.blocksClusters = 0 ∨ used + g.blocksClusters.toNat ≤ g.tableSize.toNat) then
    some fun j =>
      if used ≤ j ∧ j < used + g.blocksClusters.toNat then
        g.metaOffset + (BitVec.ofNat 32 (j - used) * s.clusterSize).signExtend 64
      else if j = refcountTableIndex.toNat then newBlock
      else if j < s.refcountTableSize.toNat then s.refcountTable j
      else 0
  else none

/-- `bdrv_pwrite_sync(bs->file, meta_offset, new_blocks, blocks_clusters * cluster_size)`
seen through the refcount blocks: a block within the written clusters reads
its refcounts from `new_blocks`, from its own byte offset on. -/
def writeNewBlocks (s : RefcountImage) (metaOffset blocksClusters : BitVec 64)
    (newBlocks : List (BitVec 16)) : RefcountImage :=
  { s with refcountBlock := fun o i =>
      let d := o.toNat - metaOffset.toNat
      if metaOffset.toNat ≤ o.toNat ∧ d < blocksClusters.toNat * s.clusterSize.toNat ∧
          d % s.clusterSize.toNat = 0 then newBlocks.getD (d / 2 + i) 0
      else s.refcountBlock o i }

mutual

/-- `update_refcount(bs, offset, length, addend)`: its return value and the
image after it. -/
def updateRefcount : ℕ → RefcountImage → BitVec 64 → BitVec 64 → BitVec 32 →
    Option (ℤ × RefcountImage)
  | 0, _, _, _, _ => none
  | fuel + 1, s, offset, length, addend =>
    if length.slt 0 then some (-EINVAL, s)
    else if length = 0 then some (0, s)
    else do
      let start := offset &&& clusterMask s.toBDRVQcowState
      let last := (offset + length - 1) &&& clusterMask s.toBDRVQcowState
      let (ret, clusterOffset, s) ← updateRefcountLoop fuel s addend last start (-1) none
      if ret < 0 then
        -- undo the clusters before the one that failed
        let (_, s) ← updateRefcount fuel s offset (clusterOffset - offset) (-addend)
        some (ret, s)
      else some (ret, s)

/-- The loop of `update_refcount` from `cluster_offset` to `last`, holding the
refcount block of table index `old_table_index`. It returns `ret` (0 when it
ran to the end), the `cluster_offset` it stopped at, and the image. -/
def updateRefcountLoop : ℕ → RefcountImage → BitVec 32 → BitVec 64 → BitVec 64 → BitVec 64 →
    Option (BitVec 64) → Option (ℤ × BitVec 64 × RefcountImage)
  | 0, _, _, _, _, _, _ => none
  | fuel + 1, s, addend, last, clusterOffset, oldTableIndex, refcountBlock =>
    if clusterOffset.sle last then do
      let clusterIndex := clusterIndexOf s.toBDRVQcowState clusterOffset
      let tableIndex := tableIndexOf s.toBDRVQcowState clusterIndex
      let (ret, s, refcountBlock) ←
        if tableIndex ≠ oldTableIndex then allocRefcountBlock fuel s clusterIndex
        else some (0, s, refcountBlock)
      if ret < 0 then some (ret, clusterOffset, s)
      else do
        -- `qcow2_cache_entry_mark_dirty` aborts on a `NULL` block
        let block ← refcountBlock
        let refcount :=
          (s.refcountBlock block (blockIndex s.toBDRVQcowState clusterIndex).toNat).setWidth 32 + addend
        let next := clusterOffset + s.clusterSize.signExtend 64
        if refcountOutOfRange refcount then some (-EINVAL, clusterOffset, s)
        else
          updateRefcountLoop fuel (putRefcount s block clusterIndex refcount) addend last next
            tableIndex (some block)
    else some (0, clusterOffset, s)

/-- `alloc_refcount_block(bs, cluster_index, &refcount_block)`: its return
value, the image, and the offset of the refcount block it leaves loaded
(`none` for `NULL`). -/
def allocRefcountBlock : ℕ → RefcountImage → BitVec 64 →
    Option (ℤ × RefcountImage × Option (BitVec 64))
  | 0, _, _ => none
  | fuel + 1, s, clusterIndex =>
    let refcountTableIndex := refcountTableIndex s.toBDRVQcowState clusterIndex
    if presentRefcountBlock s refcountTableIndex ≠ 0 then
      some (0, s, some (presentRefcountBlock s refcountTableIndex))
    else do
      let (newBlock, s) ← allocClustersNoref s (s.clusterSize.signExtend 64) fuel
      if newBlock.slt 0 then some ((newBlock.setWidth 32).toInt, s, none)
      else do
        let (ret, s) ←
          if inSameRefcountBlock s.toBDRVQcowState newBlock (clusterIndex <<< s.clusterBits.toNat) then
            -- the new block describes itself
            some (0, (s.zeroBlock newBlock).setRefcount newBlock
              (blockIndex s.toBDRVQcowState (newBlock.sshiftRight s.clusterBits.toNat)).toNat 1)
          else do
            -- described somewhere else: count it there, then zero it
            let (ret, s) ← updateRefcount fuel s newBlock (s.clusterSize.signExtend 64) 1
            if ret < 0 then some (ret, s) else some (0, s.zeroBlock newBlock)
        if ret < 0 then some (ret, s, none)
        else if refcountTableIndex < s.refcountTableSize then
          some (0, s.hookBlock refcountTableIndex newBlock, some newBlock)
        else growRefcountTable fuel s refcountTableIndex newBlock

/-- The growth path of `alloc_refcount_block`: new refcount blocks and a new
table placed after the blocks in use, switched in at once, and the old table
freed with `qcow2_free_clusters` without moving `free_cluster_index`. -/
def growRefcountTable : ℕ → RefcountImage → BitVec 32 → BitVec 64 →
    Option (ℤ × RefcountImage × Option (BitVec 64))
  | 0, _, _, _ => none
  | fuel + 1, s, refcountTableIndex, newBlock => do
    let g ← allocRefcountGrowSizes s.toBDRVQcowRefcountState fuel
    -- assert(meta_offset >= (s->free_cluster_index * s->cluster_size))
    if g.metaOffset < s.freeClusterIndex * s.clusterSize.signExtend 64 then none
    else do
      let newTable ← newRefcountTable s refcountTableIndex newBlock g
      let newBlocks ← fillNewBlocks s.toBDRVQcowRefcountState g.tableSize g.blocksClusters
      let oldTableOffset := s.refcountTableOffset
      let oldTableSize := s.refcountTableSize
      let s := { writeNewBlocks s g.metaOffset g.blocksClusters newBlocks with
        refcountTable := newTable, refcountTableSize := g.tableSize.setWidth 32,
        refcountTableOffset := g.tableOffset }
      let oldFreeClusterIndex := s.freeClusterIndex
      let (_, s) ← updateRefcount fuel s oldTableOffset (oldTableSize.setWidth 64 * 8) (-1)
      some (0, { s with freeClusterIndex := oldFreeClusterIndex }, some newBlock)

end

/-! ## Allocating and freeing -/

/-- `qcow2_alloc_clusters`: the offset of `size` bytes of new clusters, or a
negative error. -/
def qcow2AllocClusters (s : RefcountImage) (size : BitVec 64) (fuel : ℕ) :
    Option (ℤ × RefcountImage) := do
  let (offset, s) ← allocClustersNoref s size fuel
  if offset.slt 0 then some (offset.toInt, s)
  else do
    let (ret, s) ← updateRefcount fuel s offset size 1
    if ret < 0 then some (ret, s) else some (offset.toInt, s)

/-- The loop of `qcow2_alloc_clusters_at` that counts the free clusters from
`cluster_index`, at most `nb_clusters` of them, which is its fuel: it returns
`i` and `cluster_index`, one past the last cluster it looked at. -/
def allocClustersAtLoop (s : RefcountImage) (nbClusters : BitVec 32) :
    BitVec 64 → BitVec 32 → ℕ → BitVec 32 × BitVec 64
  | clusterIndex, i, 0 => (i, clusterIndex)
  | clusterIndex, i, fuel + 1 =>
    if i.slt nbClusters then
      if getRefcount s clusterIndex ≠ 0 then (i, clusterIndex + 1)
      else allocClustersAtLoop s nbClusters (clusterIndex + 1) (i + 1) fuel
    else (i, clusterIndex)

/-- `qcow2_alloc_clusters_at(bs, offset, nb_clusters)`: how many clusters from
`offset` were free and are now counted, or a negative error. -/
def qcow2AllocClustersAt (s : RefcountImage) (offset : BitVec 64) (nbClusters : BitVec 32)
    (fuel : ℕ) : Option (ℤ × RefcountImage) := do
  let (i, clusterIndex) :=
    allocClustersAtLoop s nbClusters (offset >>> s.clusterBits.toNat) 0 nbClusters.toNat
  let oldFreeClusterIndex := s.freeClusterIndex
  let s := { s with freeClusterIndex := clusterIndex + i.signExtend 64 }
  let (ret, s) ← updateRefcount fuel s offset ((i <<< s.clusterBits.toNat).signExtend 64) 1
  if ret < 0 then some (ret, s)
  else some (i.toInt, { s with freeClusterIndex := oldFreeClusterIndex })

/-- `qcow2_free_clusters`: the image after `update_refcount(..., -1)`, whose
return value is only printed. -/
def qcow2FreeClusters (s : RefcountImage) (offset size : BitVec 64) (fuel : ℕ) :
    Option RefcountImage :=
  (updateRefcount fuel s offset size (-1)).map Prod.snd

/-- A 512-byte-cluster image as `qcow2_open` leaves it, with
`free_cluster_index` 0: the header, an L2 table, two data clusters, the
refcount table and its one refcount block in clusters 0 to 5, and a data
cluster at 255, the last one the block describes. -/
def openedRefcounts : RefcountImage where
  toBDRVQcowState := smallImage
  refcountTableSize := 64
  freeClusterIndex := 0
  refcountTable := fun j => if j = 0 then 0xa00 else 0
  refcountTableOffset := 0x800
  refcountBlock := fun o i => if o = 0xa00 ∧ (i < 6 ∨ i = 255) then 1 else 0

/-- Two clusters from cluster 5 on: the search skips the used cluster 5 and
`update_refcount` counts the two it found. -/
example : (qcow2AllocClusters { openedRefcounts with freeClusterIndex := 5 } 1024 6).map
    (fun r => (r.1, getRefcount r.2 6, getRefcount r.2 7, r.2.freeClusterIndex)) =
    some (6 * 512, 1, 1, 8) := by decide

/-- `openedRefcounts` once clusters up to 255 have been allocated:
`free_cluster_index` is 256. -/
def allocatedRefcounts : RefcountImage := { openedRefcounts with freeClusterIndex := 256 }

/-! ## The image seen through `get_refcount`

`get_refcount` reads the geometry, the table and the blocks; it does not
read `free_cluster_index`. -/

@[simp] theorem getRefcount_freeClusterIndex (s : RefcountImage) (x c : BitVec 64) :
    getRefcount { s with freeClusterIndex := x } c = getRefcount s c := rfl

/-- A signed comparison of two non-negative `int`s is the comparison of
their values. -/
theorem slt_eq_decide_toNat {a b : BitVec 32} (ha : a.toNat < 2 ^ 31) (hb : b.toNat < 2 ^ 31) :
    a.slt b = decide (a.toNat < b.toNat) := by
  rw [slt_eq_decide, toInt_of_toNat_lt ha, toInt_of_toNat_lt hb]
  simp only [Int.ofNat_lt]

namespace RefcountImage

variable (s : RefcountImage)

@[simp] theorem setRefcount_toBDRVQcowRefcountState (b : BitVec 64) (i : ℕ) (v : BitVec 16) :
    (s.setRefcount b i v).toBDRVQcowRefcountState = s.toBDRVQcowRefcountState := rfl

@[simp] theorem setRefcount_refcountTable (b : BitVec 64) (i : ℕ) (v : BitVec 16) :
    (s.setRefcount b i v).refcountTable = s.refcountTable := rfl

theorem setRefcount_refcountBlock (b : BitVec 64) (i : ℕ) (v : BitVec 16) (o : BitVec 64) (e : ℕ) :
    (s.setRefcount b i v).refcountBlock o e = if o = b ∧ e = i then v else s.refcountBlock o e := by
  simp only [setRefcount, Function.update_apply]
  by_cases ho : o = b
  · subst ho
    simp [Function.update_apply]
  · simp [ho]

@[simp] theorem zeroBlock_toBDRVQcowRefcountState (b : BitVec 64) :
    (s.zeroBlock b).toBDRVQcowRefcountState = s.toBDRVQcowRefcountState := rfl

@[simp] theorem zeroBlock_refcountTable (b : BitVec 64) :
    (s.zeroBlock b).refcountTable = s.refcountTable := rfl

@[simp] theorem hookBlock_toBDRVQcowRefcountState (i : BitVec 32) (b : BitVec 64) :
    (s.hookBlock i b).toBDRVQcowRefcountState = s.toBDRVQcowRefcountState := rfl

@[simp] theorem hookBlock_refcountBlock (i : BitVec 32) (b : BitVec 64) :
    (s.hookBlock i b).refcountBlock = s.refcountBlock := rfl

theorem hookBlock_refcountTable (i : BitVec 32) (b : BitVec 64) (j : ℕ) :
    (s.hookBlock i b).refcountTable j = if j = i.toNat then b else s.refcountTable j := by
  simp only [hookBlock, Function.update_apply]

theorem zeroBlock_refcountBlock (b o : BitVec 64) (e : ℕ) :
    (s.zeroBlock b).refcountBlock o e = if o = b then 0 else s.refcountBlock o e := by
  simp only [zeroBlock, Function.update_apply]
  split <;> rfl

end RefcountImage

/-! ## `alloc_clusters_noref` -/

/-- The `i` clusters just before `free_cluster_index` are free: the run the
search of `alloc_clusters_noref` has found so far. -/
def FreeRun (s : RefcountImage) (i : ℕ) : Prop :=
  ∀ t < i, getRefcount s (s.freeClusterIndex - BitVec.ofNat 64 (i - t)) = 0

theorem freeRun_zero (s : RefcountImage) : FreeRun s 0 := fun _ h => absurd h (Nat.not_lt_zero _)

/-- A free cluster at `free_cluster_index` extends the run by one. -/
theorem FreeRun.succ {s : RefcountImage} {i : ℕ} (hrun : FreeRun s i)
    (hfree : getRefcount s s.freeClusterIndex = 0) :
    FreeRun { s with freeClusterIndex := s.freeClusterIndex + 1 } (i + 1) := by
  intro t ht
  show getRefcount s (s.freeClusterIndex + 1 - BitVec.ofNat 64 (i + 1 - t)) = 0
  rcases Nat.lt_succ_iff_lt_or_eq.1 ht with hlt | rfl
  · -- an older cluster of the run: the same index, counted from one further on
    have hsub : i + 1 - t = (i - t) + 1 := by omega
    have hidx : s.freeClusterIndex + 1 - (BitVec.ofNat 64 (i - t) + 1#64) =
        s.freeClusterIndex - BitVec.ofNat 64 (i - t) := add_sub_add_right_eq_sub _ _ _
    rw [hsub, BitVec.ofNat_add, hidx]
    exact hrun t hlt
  · rw [Nat.add_sub_cancel_left, show BitVec.ofNat 64 1 = 1 from rfl, BitVec.add_sub_cancel]
    exact hfree

/-- The search only moves `free_cluster_index`, and it stops on a run of
`nb_clusters` free clusters. -/
theorem allocClustersNorefLoop_spec {nb : BitVec 32} (hnb : nb.toNat < 2 ^ 31) {fuel : ℕ} :
    ∀ {s s' : RefcountImage} {i : BitVec 32}, i.toNat ≤ nb.toNat → FreeRun s i.toNat →
      allocClustersNorefLoop nb s i fuel = some s' →
      s' = { s with freeClusterIndex := s'.freeClusterIndex } ∧ FreeRun s' nb.toNat := by
  induction fuel with
  | zero =>
    intro s s' i _ _ h
    cases h
  | succ fuel ih =>
    intro s s' i hi hrun h
    rw [allocClustersNorefLoop, slt_eq_decide_toNat (by omega) hnb] at h
    by_cases hlt : i.toNat < nb.toNat
    · rw [if_pos (decide_eq_true hlt)] at h
      dsimp only at h
      split at h
      · -- a used cluster: the run starts again after it
        obtain ⟨heq, hrun'⟩ := ih (Nat.zero_le _) (freeRun_zero _) h
        exact ⟨by rw [heq], hrun'⟩
      · next hfree =>
        rw [Classical.not_not] at hfree
        have hsucc : (i + 1).toNat = i.toNat + 1 := by
          rw [toNat_add_of_lt (by rw [show (1 : BitVec 32).toNat = 1 from rfl]; omega)]
          rfl
        obtain ⟨heq, hrun'⟩ := ih (by rw [hsucc]; omega) (by rw [hsucc]; exact hrun.succ hfree) h
        exact ⟨by rw [heq], hrun'⟩
    · rw [if_neg (by simpa using hlt)] at h
      cases h
      have hieq : i.toNat = nb.toNat := by omega
      exact ⟨rfl, hieq ▸ hrun⟩

/-- The search ends: once `free_cluster_index` reaches `x`, from where
`nb_clusters` clusters are free, the run only grows, so fuel for the
clusters up to `x + nb_clusters` and one more round is enough. The
invariant is that the run covers every cluster from `x` that was taken. -/
theorem allocClustersNorefLoop_isSome {nb : BitVec 32} (hnb : nb.toNat < 2 ^ 31) {x : ℕ}
    (hx : x + nb.toNat < 2 ^ 64) {fuel : ℕ} :
    ∀ {s : RefcountImage} {i : BitVec 32},
      (∀ t < nb.toNat, getRefcount s (BitVec.ofNat 64 (x + t)) = 0) →
      i.toNat ≤ nb.toNat → s.freeClusterIndex.toNat ≤ x + nb.toNat →
      (x ≤ s.freeClusterIndex.toNat → s.freeClusterIndex.toNat - x ≤ i.toNat) →
      x + nb.toNat - s.freeClusterIndex.toNat < fuel →
      (allocClustersNorefLoop nb s i fuel).isSome := by
  induction fuel with
  | zero =>
    intro s i _ _ _ _ hfuel
    omega
  | succ fuel ih =>
    intro s i hfree hi hle hrun hfuel
    rw [allocClustersNorefLoop, slt_eq_decide_toNat (by omega) hnb]
    by_cases hlt : i.toNat < nb.toNat
    · rw [if_pos (decide_eq_true hlt)]
      dsimp only
      -- the cluster taken is before the end of the free clusters
      have hend : s.freeClusterIndex.toNat < x + nb.toNat := by omega
      have hsucc : (s.freeClusterIndex + 1).toNat = s.freeClusterIndex.toNat + 1 := by
        rw [toNat_add_of_lt (by rw [show (1 : BitVec 64).toNat = 1 from rfl]; omega)]
        rfl
      split
      · next hused =>
        -- a used cluster lies before `x`
        have hbefore : s.freeClusterIndex.toNat < x := by
          by_contra hge
          apply hused
          have := hfree (s.freeClusterIndex.toNat - x) (by omega)
          rwa [show x + (s.freeClusterIndex.toNat - x) = s.freeClusterIndex.toNat by omega,
            ofNat_toNat, setWidth_eq] at this
        exact ih hfree (Nat.zero_le _) (by rw [hsucc]; omega)
          (by rw [hsucc]; intro h; show _ ≤ 0; omega) (by rw [hsucc]; omega)
      · have hi' : (i + 1).toNat = i.toNat + 1 := by
          rw [toNat_add_of_lt (by rw [show (1 : BitVec 32).toNat = 1 from rfl]; omega)]
          rfl
        exact ih hfree (by rw [hi']; omega) (by rw [hsucc]; omega)
          (by rw [hsucc, hi']; omega) (by rw [hsucc]; omega)
    · rw [if_neg (by simpa using hlt)]
      rfl

/-! ## The index computations as numbers -/

/-- A non-negative `int64_t` shifts right as its value divides. -/
theorem toNat_sshiftRight_of_lt {x : BitVec 64} (hx : x.toNat < 2 ^ 63) (n : ℕ) :
    (x.sshiftRight n).toNat = x.toNat / 2 ^ n := by
  rw [sshiftRight_eq_of_msb_false (msb_eq_false_iff_two_mul_lt.2 (by omega)), toNat_ushiftRight,
    Nat.shiftRight_eq_div_pow]

section Geometry

variable {s : BDRVQcowState} {k : ℕ} (g : Qcow2Geometry s k)
include g

theorem Qcow2Geometry.toNat_refcountShift : (s.clusterBits - REFCOUNT_SHIFT).toNat = k - 1 := by
  have hk := g.clusterBits_ge
  rw [toNat_sub_of_le (by rw [le_def, g.clusterBits]; exact le_trans (by decide) hk), g.clusterBits]
  rfl

theorem Qcow2Geometry.toNat_clusterSize_signExtend : (s.clusterSize.signExtend 64).toNat = 2 ^ k := by
  have hcs : 2 ^ k ≤ 2 ^ 21 := Nat.pow_le_pow_right (by decide) g.clusterBits_le
  have hmsb : s.clusterSize.msb = false := by
    rw [msb_eq_false_iff_two_mul_lt, g.clusterSize]
    omega
  rw [signExtend_eq_setWidth_of_msb_false hmsb, toNat_setWidth, g.clusterSize]
  exact Nat.mod_eq_of_lt (by omega)

/-- `~(cluster_size - 1)` keeps the bits from `cluster_bits` up. -/
theorem Qcow2Geometry.clusterMask_eq : clusterMask s = highMask 64 k := by
  have hk := g.clusterBits_le
  rw [clusterMask, ← not_sub_one_eq_highMask (by omega)]
  congr 1
  apply eq_of_toNat_eq
  rw [toNat_signExtend_sub_one g.clusterSize (by omega),
    toNat_sub_of_le (by rw [le_def, ← twoPow_eq, toNat_twoPow_of_lt (by omega)]; exact Nat.one_le_two_pow),
    ← twoPow_eq, toNat_twoPow_of_lt (by omega)]
  rfl

theorem Qcow2Geometry.toNat_and_clusterMask (o : BitVec 64) :
    (o &&& clusterMask s).toNat = o.toNat / 2 ^ k * 2 ^ k := by
  rw [g.clusterMask_eq, toNat_and_highMask]

theorem Qcow2Geometry.toNat_refcountTableIndex {c : BitVec 64} (hc : c.toNat < 2 ^ 63) :
    (refcountTableIndex s c).toNat = c.toNat / 2 ^ (k - 1) % 2 ^ 32 := by
  rw [refcountTableIndex, toNat_setWidth, toNat_sshiftRight_of_lt hc, g.toNat_refcountShift]

theorem Qcow2Geometry.toNat_blockIndex (c : BitVec 64) :
    (blockIndex s c).toNat = c.toNat % 2 ^ (k - 1) := by
  have hk := g.clusterBits_le
  have hm : (1#32 <<< (s.clusterBits - REFCOUNT_SHIFT).toNat).toNat = 2 ^ (k - 1) := by
    rw [g.toNat_refcountShift, ← twoPow_eq, toNat_twoPow_of_lt (by omega)]
  have hsmall : 2 ^ (k - 1) ≤ 2 ^ 20 := Nat.pow_le_pow_right (by decide) (by omega)
  rw [blockIndex, toNat_setWidth, toNat_and, toNat_signExtend_sub_one hm (by omega),
    Nat.and_two_pow_sub_one_eq_mod]
  exact Nat.mod_eq_of_lt (lt_of_lt_of_le (Nat.mod_lt _ (Nat.two_pow_pos _)) (by omega))

theorem Qcow2Geometry.inSameRefcountBlock_iff (a b : BitVec 64) :
    inSameRefcountBlock s a b = true ↔ a.toNat / 2 ^ (2 * k - 1) = b.toNat / 2 ^ (2 * k - 1) := by
  have hk := g.clusterBits_ge
  have hk' := g.clusterBits_le
  have hsh : (2 * s.clusterBits - REFCOUNT_SHIFT).toNat = 2 * k - 1 := by
    have h2 : (2 * s.clusterBits).toNat = 2 * k := by
      rw [toNat_mul, g.clusterBits, Nat.mod_eq_of_lt (by change 2 * k < 2 ^ 32; omega)]
      rfl
    rw [toNat_sub_of_le (by rw [le_def, h2]; exact le_trans (by decide) (by omega : 1 ≤ 2 * k)), h2]
    rfl
  rw [inSameRefcountBlock, beq_iff_eq, ← toNat_inj, toNat_ushiftRight, toNat_ushiftRight,
    Nat.shiftRight_eq_div_pow, Nat.shiftRight_eq_div_pow, hsh]

end Geometry

section ImageGeometry

variable {s : RefcountImage} {k : ℕ} (g : Qcow2Geometry s.toBDRVQcowState k)
include g

/-- `get_refcount` of a cluster whose table index fits in 32 bits, with the
index computations done. -/
theorem Qcow2Geometry.getRefcount_eq {c : BitVec 64} (hc : c.toNat < 2 ^ (31 + k)) :
    getRefcount s c =
      if s.refcountTableSize.toNat ≤ c.toNat / 2 ^ (k - 1) then 0
      else if s.refcountTable (c.toNat / 2 ^ (k - 1)) = 0 then 0
      else s.refcountBlock (s.refcountTable (c.toNat / 2 ^ (k - 1))) (c.toNat % 2 ^ (k - 1)) := by
  have hk := g.clusterBits_ge
  have hk' := g.clusterBits_le
  have hpow : 2 ^ (31 + k) = 2 ^ 32 * 2 ^ (k - 1) := by
    rw [← Nat.pow_add]
    congr 1
    omega
  have h63 : 2 ^ (31 + k) ≤ 2 ^ 63 := Nat.pow_le_pow_right (by decide) (by omega)
  have hidx : (refcountTableIndex s.toBDRVQcowState c).toNat = c.toNat / 2 ^ (k - 1) := by
    rw [g.toNat_refcountTableIndex (by omega)]
    exact Nat.mod_eq_of_lt (by rw [Nat.div_lt_iff_lt_mul (Nat.two_pow_pos _)]; omega)
  simp only [getRefcount, ge_iff_le, le_def, hidx, g.toNat_blockIndex]

/-- `get_refcount` of a cluster whose table entry holds a block. -/
theorem Qcow2Geometry.getRefcount_of_table {c b : BitVec 64} (hc : c.toNat < 2 ^ (31 + k))
    (hlt : c.toNat / 2 ^ (k - 1) < s.refcountTableSize.toNat)
    (hb : s.refcountTable (c.toNat / 2 ^ (k - 1)) = b) (hb0 : b ≠ 0) :
    getRefcount s c = s.refcountBlock b (c.toNat % 2 ^ (k - 1)) := by
  rw [g.getRefcount_eq hc, if_neg (Nat.not_le.2 hlt), hb, if_neg hb0]

/-- Past the refcount table every cluster is free, up to where the table
index wraps. -/
theorem Qcow2Geometry.getRefcount_of_le {c : BitVec 64}
    (hc : s.refcountTableSize.toNat * 2 ^ (k - 1) ≤ c.toNat) (hc' : c.toNat < 2 ^ (31 + k)) :
    getRefcount s c = 0 := by
  rw [g.getRefcount_eq hc', if_pos ((Nat.le_div_iff_mul_le (Nat.two_pow_pos _)).2 hc)]

end ImageGeometry

/-! ## What `alloc_clusters_noref` returns -/

section Noref

variable {s : RefcountImage} {k : ℕ} (g : Qcow2Geometry s.toBDRVQcowState k)
include g

/-- `size_to_clusters` of a size of fewer than `2 ^ 31` clusters. -/
theorem Qcow2Geometry.toNat_sizeToClusters_of_le {size : BitVec 64}
    (hsize : size.toNat ≤ (2 ^ 31 - 1) * 2 ^ k) :
    (sizeToClusters s.toBDRVQcowState size).toNat = (size.toNat + 2 ^ k - 1) / 2 ^ k ∧
      (size.toNat + 2 ^ k - 1) / 2 ^ k < 2 ^ 31 := by
  have hcs : 2 ^ k ≤ 2 ^ 21 := Nat.pow_le_pow_right (by decide) g.clusterBits_le
  have hpos := Nat.two_pow_pos k
  have hlt : (size.toNat + 2 ^ k - 1) / 2 ^ k < 2 ^ 31 := by
    rw [Nat.div_lt_iff_lt_mul hpos]
    have : (2 ^ 31 - 1) * 2 ^ k + 2 ^ k = 2 ^ 31 * 2 ^ k := by
      rw [← Nat.succ_mul, Nat.succ_eq_add_one, Nat.sub_add_cancel Nat.one_le_two_pow]
    omega
  have h62 : size.toNat < 2 ^ 62 := by
    have : (2 ^ 31 - 1) * 2 ^ k < 2 ^ 31 * 2 ^ 21 :=
      Nat.mul_lt_mul_of_lt_of_le (by decide) hcs (by decide)
    have : 2 ^ 31 * 2 ^ 21 < 2 ^ 62 := by decide
    omega
  rw [g.toNat_sizeToClusters h62, Nat.mod_eq_of_lt (by omega)]
  exact ⟨rfl, hlt⟩

/-- For every size of fewer than `2 ^ 31` clusters, `alloc_clusters_noref`
only moves `free_cluster_index`, and the `⌈size / cluster_size⌉` clusters
before it, where the returned offset points, were free. -/
theorem Qcow2Geometry.allocClustersNoref_free {size : BitVec 64}
    (hsize : size.toNat ≤ (2 ^ 31 - 1) * 2 ^ k) {fuel : ℕ} {o : BitVec 64} {s' : RefcountImage}
    (h : allocClustersNoref s size fuel = some (o, s')) :
    s' = { s with freeClusterIndex := s'.freeClusterIndex } ∧
      o = (s'.freeClusterIndex - BitVec.ofNat 64 ((size.toNat + 2 ^ k - 1) / 2 ^ k)) <<< k ∧
      ∀ t < (size.toNat + 2 ^ k - 1) / 2 ^ k, getRefcount s
        (s'.freeClusterIndex - BitVec.ofNat 64 ((size.toNat + 2 ^ k - 1) / 2 ^ k - t)) = 0 := by
  obtain ⟨hnb, hlt⟩ := g.toNat_sizeToClusters_of_le hsize
  simp only [allocClustersNoref, Option.bind_eq_bind, Option.bind_eq_some_iff,
    Option.some.injEq, Prod.mk.injEq] at h
  obtain ⟨s'', hloop, rfl, rfl⟩ := h
  obtain ⟨heq, hrun⟩ := allocClustersNorefLoop_spec (by omega) (Nat.zero_le _) (freeRun_zero s) hloop
  have hsext : (sizeToClusters s.toBDRVQcowState size).signExtend 64 =
      BitVec.ofNat 64 ((size.toNat + 2 ^ k - 1) / 2 ^ k) := by
    have hmsb : (sizeToClusters s.toBDRVQcowState size).msb = false := by
      rw [msb_eq_false_iff_two_mul_lt, hnb]
      omega
    apply eq_of_toNat_eq
    rw [signExtend_eq_setWidth_of_msb_false hmsb, toNat_setWidth, hnb, toNat_ofNat]
  have hcb : s''.clusterBits = s.clusterBits := by rw [heq]
  refine ⟨heq, ?_, ?_⟩
  · rw [hsext, hcb, g.clusterBits]
  · intro t ht
    have := hrun t (by rwa [hnb])
    rw [heq, getRefcount_freeClusterIndex, hnb] at this
    exact this

/-- `alloc_clusters_noref` returns for every image and every size of fewer
than `2 ^ 31` clusters, given fuel to walk from `free_cluster_index` past the
end of the refcount table and over the clusters it wants. -/
theorem Qcow2Geometry.allocClustersNoref_isSome {size : BitVec 64}
    (hsize : size.toNat ≤ (2 ^ 31 - 1) * 2 ^ k) {fuel : ℕ}
    (hend : max s.freeClusterIndex.toNat (s.refcountTableSize.toNat * 2 ^ (k - 1)) +
      (size.toNat + 2 ^ k - 1) / 2 ^ k < 2 ^ (31 + k))
    (hfuel : max s.freeClusterIndex.toNat (s.refcountTableSize.toNat * 2 ^ (k - 1)) +
      (size.toNat + 2 ^ k - 1) / 2 ^ k - s.freeClusterIndex.toNat < fuel) :
    (allocClustersNoref s size fuel).isSome := by
  obtain ⟨hnb, hlt⟩ := g.toNat_sizeToClusters_of_le hsize
  have h64 : 2 ^ (31 + k) ≤ 2 ^ 64 := Nat.pow_le_pow_right (by decide) (by have := g.clusterBits_le; omega)
  -- the clusters past the table and past `free_cluster_index` are free
  have hfree : ∀ t < (sizeToClusters s.toBDRVQcowState size).toNat,
      getRefcount s (BitVec.ofNat 64
        (max s.freeClusterIndex.toNat (s.refcountTableSize.toNat * 2 ^ (k - 1)) + t)) = 0 := by
    intro t ht
    rw [hnb] at ht
    apply g.getRefcount_of_le
    · rw [toNat_ofNat, Nat.mod_eq_of_lt (by omega)]
      omega
    · rw [toNat_ofNat, Nat.mod_eq_of_lt (by omega)]
      omega
  have hloop := allocClustersNorefLoop_isSome (by omega) (by rw [hnb]; omega) hfree
    (Nat.zero_le _) (by rw [hnb]; omega) (fun _ => by show _ ≤ 0; omega) (by rw [hnb]; omega)
    (s := s) (i := 0)
  simp only [allocClustersNoref, Option.bind_eq_bind]
  obtain ⟨s', hs'⟩ := Option.isSome_iff_exists.1 hloop
  rw [hs']
  rfl

end Noref

section Steps

variable {fuel : ℕ} {s s₁ : RefcountImage}

theorem sle_eq_decide_toNat {x y : BitVec 64} (hx : x.toNat < 2 ^ 63) (hy : y.toNat < 2 ^ 63) :
    x.sle y = decide (x.toNat ≤ y.toNat) := by
  rw [sle_eq_decide, toInt_eq_toNat_of_lt (by omega), toInt_eq_toNat_of_lt (by omega)]
  simp only [Int.ofNat_le]

theorem slt_eq_decide_toNat64 {x y : BitVec 64} (hx : x.toNat < 2 ^ 63) (hy : y.toNat < 2 ^ 63) :
    x.slt y = decide (x.toNat < y.toNat) := by
  rw [slt_eq_decide, toInt_eq_toNat_of_lt (by omega), toInt_eq_toNat_of_lt (by omega)]
  simp only [Int.ofNat_lt]

/-- A refcount that drops to 0 below `free_cluster_index` moves the hint
there. -/
theorem putRefcount_of_zero {b c : BitVec 64} (hlt : c.slt s.freeClusterIndex = true) :
    putRefcount s b c 0 =
      ({ s with freeClusterIndex := c }).setRefcount b (blockIndex s.toBDRVQcowState c).toNat 0 := by
  rw [putRefcount, if_pos ⟨rfl, hlt⟩]
  rfl

theorem putRefcount_of_ne_zero {b c : BitVec 64} {r : BitVec 32} (hr : r ≠ 0) :
    putRefcount s b c r = s.setRefcount b (blockIndex s.toBDRVQcowState c).toNat (r.setWidth 16) := by
  rw [putRefcount, if_neg (fun h => hr h.1)]

theorem presentRefcountBlock_of_lt {i : BitVec 32} (hi : i.toNat < s.refcountTableSize.toNat) :
    presentRefcountBlock s i = s.refcountTable i.toNat &&& REFT_OFFSET_MASK := by
  rw [presentRefcountBlock, if_pos (lt_def.2 hi)]

/-- `alloc_refcount_block` for a cluster whose refcount block is in the table:
it loads it. -/
theorem allocRefcountBlock_present {clusterIndex b : BitVec 64}
    (hb : presentRefcountBlock s (refcountTableIndex s.toBDRVQcowState clusterIndex) = b)
    (hb0 : b ≠ 0) :
    allocRefcountBlock (fuel + 1) s clusterIndex = some (0, s, some b) := by
  rw [allocRefcountBlock]
  simp only [hb, ne_eq, hb0, not_false_eq_true, if_true]

/-- One round of the loop of `update_refcount` on a cluster of a new table
index: `alloc_refcount_block` gives its block, and the new refcount is in
range and stored before the next cluster. -/
theorem updateRefcountLoop_round {addend r : BitVec 32} {last clusterOffset oldTableIndex b : BitVec 64}
    {refcountBlock : Option (BitVec 64)} (hle : clusterOffset.sle last = true)
    (hne : tableIndexOf s.toBDRVQcowState (clusterIndexOf s.toBDRVQcowState clusterOffset) ≠
      oldTableIndex)
    (hload : allocRefcountBlock fuel s (clusterIndexOf s.toBDRVQcowState clusterOffset) =
      some (0, s₁, some b))
    (hr : (s₁.refcountBlock b (blockIndex s₁.toBDRVQcowState
      (clusterIndexOf s.toBDRVQcowState clusterOffset)).toNat).setWidth 32 + addend = r)
    (hok : refcountOutOfRange r = false) :
    updateRefcountLoop (fuel + 1) s addend last clusterOffset oldTableIndex refcountBlock =
      updateRefcountLoop fuel (putRefcount s₁ b (clusterIndexOf s.toBDRVQcowState clusterOffset) r)
        addend last (clusterOffset + s₁.clusterSize.signExtend 64)
        (tableIndexOf s.toBDRVQcowState (clusterIndexOf s.toBDRVQcowState clusterOffset)) (some b) := by
  rw [updateRefcountLoop, if_pos hle]
  simp only [ne_eq, hne, not_false_eq_true, if_true, Option.bind_eq_bind, hload, Option.bind_some,
    Int.lt_irrefl, if_false, hr, hok, Bool.false_eq_true]

/-- A round whose new refcount is out of range stops the loop with `-EINVAL`
at that cluster, which keeps its refcount. -/
theorem updateRefcountLoop_outOfRange {addend r : BitVec 32}
    {last clusterOffset oldTableIndex b : BitVec 64} {refcountBlock : Option (BitVec 64)}
    (hle : clusterOffset.sle last = true)
    (hne : tableIndexOf s.toBDRVQcowState (clusterIndexOf s.toBDRVQcowState clusterOffset) ≠
      oldTableIndex)
    (hload : allocRefcountBlock fuel s (clusterIndexOf s.toBDRVQcowState clusterOffset) =
      some (0, s₁, some b))
    (hr : (s₁.refcountBlock b (blockIndex s₁.toBDRVQcowState
      (clusterIndexOf s.toBDRVQcowState clusterOffset)).toNat).setWidth 32 + addend = r)
    (hout : refcountOutOfRange r = true) :
    updateRefcountLoop (fuel + 1) s addend last clusterOffset oldTableIndex refcountBlock =
      some (-EINVAL, clusterOffset, s₁) := by
  rw [updateRefcountLoop, if_pos hle]
  simp only [ne_eq, hne, not_false_eq_true, if_true, Option.bind_eq_bind, hload, Option.bind_some,
    Int.lt_irrefl, if_false, hr, hout]

/-- The loop ends past `last`. -/
theorem updateRefcountLoop_done {addend : BitVec 32} {last clusterOffset oldTableIndex : BitVec 64}
    {refcountBlock : Option (BitVec 64)} (hgt : clusterOffset.sle last = false) :
    updateRefcountLoop (fuel + 1) s addend last clusterOffset oldTableIndex refcountBlock =
      some (0, clusterOffset, s) := by
  rw [updateRefcountLoop, if_neg (by rw [hgt]; decide)]

/-- `update_refcount` of a non-empty range whose loop runs to its end. -/
theorem updateRefcount_of_loop {offset length : BitVec 64} {addend : BitVec 32}
    {clusterOffset : BitVec 64} (hlen : 0 < length.toNat) (hlen' : length.toNat < 2 ^ 63)
    (hloop : updateRefcountLoop fuel s addend
      ((offset + length - 1) &&& clusterMask s.toBDRVQcowState)
      (offset &&& clusterMask s.toBDRVQcowState) (-1) none = some (0, clusterOffset, s₁)) :
    updateRefcount (fuel + 1) s offset length addend = some (0, s₁) := by
  have hpos : length.slt 0 = false := by
    rw [slt_eq_decide_toNat64 hlen' (by decide)]
    simp
  have hne : length ≠ 0 := by
    intro h
    rw [h] at hlen
    exact absurd hlen (by decide)
  rw [updateRefcount, if_neg (by rw [hpos]; decide), if_neg hne]
  simp only [Option.bind_eq_bind, hloop, Option.bind_some, Int.lt_irrefl, if_false]

/-- `update_refcount` of a non-empty range whose loop fails at
`cluster_offset`: it undoes `[offset, cluster_offset)` and returns the
error. -/
theorem updateRefcount_of_loop_error {offset length : BitVec 64} {addend : BitVec 32}
    {clusterOffset : BitVec 64} {ret dummy : ℤ} {s₂ : RefcountImage} (hlen : 0 < length.toNat)
    (hlen' : length.toNat < 2 ^ 63)
    (hloop : updateRefcountLoop fuel s addend
      ((offset + length - 1) &&& clusterMask s.toBDRVQcowState)
      (offset &&& clusterMask s.toBDRVQcowState) (-1) none = some (ret, clusterOffset, s₁))
    (hret : ret < 0)
    (hundo : updateRefcount fuel s₁ offset (clusterOffset - offset) (-addend) = some (dummy, s₂)) :
    updateRefcount (fuel + 1) s offset length addend = some (ret, s₂) := by
  have hpos : length.slt 0 = false := by
    rw [slt_eq_decide_toNat64 hlen' (by decide)]
    simp
  have hne : length ≠ 0 := by
    intro h
    rw [h] at hlen
    exact absurd hlen (by decide)
  rw [updateRefcount, if_neg (by rw [hpos]; decide), if_neg hne]
  simp only [Option.bind_eq_bind, hloop, Option.bind_some, hret, if_true, hundo]

/-- `alloc_refcount_block` for a cluster without a block, when the new block
is counted in another block and the table has room: it allocates a cluster,
counts it with a nested `update_refcount`, zeroes it and hooks it into the
table. -/
theorem allocRefcountBlock_elsewhere {clusterIndex newBlock : BitVec 64} {s₂ : RefcountImage}
    (habsent : presentRefcountBlock s (refcountTableIndex s.toBDRVQcowState clusterIndex) = 0)
    (halloc : allocClustersNoref s (s.clusterSize.signExtend 64) fuel = some (newBlock, s₁))
    (hpos : newBlock.slt 0 = false)
    (hother : inSameRefcountBlock s₁.toBDRVQcowState newBlock
      (clusterIndex <<< s₁.clusterBits.toNat) = false)
    (hcount : updateRefcount fuel s₁ newBlock (s₁.clusterSize.signExtend 64) 1 = some (0, s₂))
    (hroom : refcountTableIndex s.toBDRVQcowState clusterIndex < s₂.refcountTableSize) :
    allocRefcountBlock (fuel + 1) s clusterIndex =
      some (0, (s₂.zeroBlock newBlock).hookBlock (refcountTableIndex s.toBDRVQcowState clusterIndex)
        newBlock, some newBlock) := by
  rw [allocRefcountBlock]
  simp only [habsent, ne_eq, not_true_eq_false, if_false, Option.bind_eq_bind, halloc,
    Option.bind_some, hpos, Bool.false_eq_true, hother, hcount, Int.lt_irrefl,
    RefcountImage.zeroBlock_toBDRVQcowRefcountState, hroom, if_true]

end Steps

section StepsGeometry

variable {s : RefcountImage} {k : ℕ} (g : Qcow2Geometry s.toBDRVQcowState k)
include g

theorem Qcow2Geometry.toNat_clusterIndexOf {o : BitVec 64} (ho : o.toNat < 2 ^ 63) :
    (clusterIndexOf s.toBDRVQcowState o).toNat = o.toNat / 2 ^ k := by
  rw [clusterIndexOf, toNat_sshiftRight_of_lt ho, g.clusterBits]

theorem Qcow2Geometry.toNat_tableIndexOf {c : BitVec 64} (hc : c.toNat < 2 ^ 63) :
    (tableIndexOf s.toBDRVQcowState c).toNat = c.toNat / 2 ^ (k - 1) := by
  rw [tableIndexOf, toNat_sshiftRight_of_lt hc, g.toNat_refcountShift]

/-- `alloc_clusters_noref(bs, cluster_size)` when the cluster at
`free_cluster_index` is free: it takes that one. -/
theorem Qcow2Geometry.allocClustersNoref_one (hfree : getRefcount s s.freeClusterIndex = 0)
    (fuel : ℕ) :
    allocClustersNoref s (s.clusterSize.signExtend 64) (fuel + 2) =
      some (s.freeClusterIndex <<< k,
        { s with freeClusterIndex := s.freeClusterIndex + 1 }) := by
  have hcs := g.toNat_clusterSize_signExtend
  have hk := g.clusterBits_le
  have hpos := Nat.two_pow_pos k
  -- one cluster is wanted
  have hnb : sizeToClusters s.toBDRVQcowState (s.clusterSize.signExtend 64) = 1#32 := by
    apply eq_of_toNat_eq
    have h62 : 2 ^ k < 2 ^ 62 := Nat.pow_lt_pow_right (by decide) (by omega)
    rw [g.toNat_sizeToClusters (by omega), hcs,
      show 2 ^ k + 2 ^ k - 1 = 2 ^ k * 1 + (2 ^ k - 1) by omega, Nat.mul_add_div hpos,
      Nat.div_eq_of_lt (Nat.sub_lt hpos Nat.one_pos)]
    rfl
  have hloop : allocClustersNorefLoop 1#32 s 0 (fuel + 2) =
      some { s with freeClusterIndex := s.freeClusterIndex + 1 } := by
    rw [allocClustersNorefLoop, if_pos (by decide)]
    simp only [getRefcount_freeClusterIndex, hfree, ne_eq, not_true_eq_false, if_false]
    rw [allocClustersNorefLoop, if_neg (by decide)]
  simp only [allocClustersNoref, hnb, Option.bind_eq_bind, hloop, Option.bind_some]
  rw [show (1#32).signExtend 64 = 1 from rfl, BitVec.add_sub_cancel, g.clusterBits]

/-- `update_refcount` of at most one cluster from a cluster boundary, whose
refcount block is in the table and whose new refcount is in range: it
stores the new refcount. -/
theorem Qcow2Geometry.updateRefcount_oneCluster {offset length b : BitVec 64} {addend r : BitVec 32}
    (halign : offset.toNat % 2 ^ k = 0) (hoff : offset.toNat + 2 ^ k < 2 ^ 63)
    (hlen : 0 < length.toNat) (hlen' : length.toNat ≤ 2 ^ k)
    (hb : presentRefcountBlock s
      (refcountTableIndex s.toBDRVQcowState (clusterIndexOf s.toBDRVQcowState offset)) = b)
    (hb0 : b ≠ 0)
    (hr : (s.refcountBlock b (blockIndex s.toBDRVQcowState
      (clusterIndexOf s.toBDRVQcowState offset)).toNat).setWidth 32 + addend = r)
    (hok : refcountOutOfRange r = false) (fuel : ℕ) :
    updateRefcount (fuel + 3) s offset length addend =
      some (0, putRefcount s b (clusterIndexOf s.toBDRVQcowState offset) r) := by
  have hcs := g.toNat_clusterSize_signExtend
  have hk := g.clusterBits_le
  have hpos := Nat.two_pow_pos k
  have hk63 : 2 ^ k < 2 ^ 63 := Nat.pow_lt_pow_right (by decide) (by omega)
  -- the loop runs over the one cluster at `offset`
  have hstart : offset &&& clusterMask s.toBDRVQcowState = offset := by
    apply eq_of_toNat_eq
    rw [g.toNat_and_clusterMask, Nat.div_mul_cancel (Nat.dvd_of_mod_eq_zero halign)]
  have hlast : (offset + length - 1) &&& clusterMask s.toBDRVQcowState = offset := by
    apply eq_of_toNat_eq
    have hadd : (offset + length).toNat = offset.toNat + length.toNat := toNat_add_of_lt (by omega)
    have hsum : (offset + length - 1).toNat = offset.toNat + (length.toNat - 1) := by
      rw [toNat_sub_of_le (by rw [le_def, hadd]; show 1 ≤ _; omega), hadd]
      show offset.toNat + length.toNat - 1 = _
      omega
    rw [g.toNat_and_clusterMask, hsum, add_div_of_mod_add_lt (by omega),
      Nat.div_mul_cancel (Nat.dvd_of_mod_eq_zero halign)]
  have hidx : (clusterIndexOf s.toBDRVQcowState offset).toNat = offset.toNat / 2 ^ k := by
    rw [clusterIndexOf, toNat_sshiftRight_of_lt (by omega), g.clusterBits]
  -- the table index is not the `-1` the loop starts from
  have hti : tableIndexOf s.toBDRVQcowState (clusterIndexOf s.toBDRVQcowState offset) ≠ -1 := by
    intro h
    have hci : (clusterIndexOf s.toBDRVQcowState offset).toNat < 2 ^ 63 := by
      rw [hidx]
      exact lt_of_le_of_lt (Nat.div_le_self _ _) (by omega)
    have := congrArg BitVec.toNat h
    rw [tableIndexOf, toNat_sshiftRight_of_lt hci, hidx] at this
    have hle : offset.toNat / 2 ^ k / 2 ^ (s.clusterBits - REFCOUNT_SHIFT).toNat ≤ offset.toNat :=
      le_trans (Nat.div_le_self _ _) (Nat.div_le_self _ _)
    have : (-1 : BitVec 64).toNat = 2 ^ 64 - 1 := rfl
    omega
  have hle : offset.sle offset = true := by
    rw [sle_eq_decide_toNat (by omega) (by omega)]
    simp
  have hnext : (offset + s.clusterSize.signExtend 64).toNat = offset.toNat + 2 ^ k := by
    rw [toNat_add_of_lt (by omega), hcs]
  have hgt : (offset + s.clusterSize.signExtend 64).sle offset = false := by
    rw [sle_eq_decide_toNat (by omega) (by omega), hnext]
    simp
  apply updateRefcount_of_loop hlen (by omega)
  rw [hstart, hlast, updateRefcountLoop_round hle hti (allocRefcountBlock_present hb hb0) hr hok]
  exact updateRefcountLoop_done hgt

end StepsGeometry

/-- Freeing the last cluster `A` of one refcount block and the first cluster
`B` of the next, which has no refcount block and refcount 0: `A`'s refcount
drops to 0 and `free_cluster_index` moves back to it; `B` needs a refcount
block, and `alloc_clusters_noref` finds `A`, counts it again (refcount 1),
zeroes it and hooks it in as `B`'s block; `B`'s refcount 0 cannot go down,
so the call fails, and the undo adds 1 to `A` once more. `A` ends with
refcount 2, one above where it started, and is also a refcount block. -/
theorem updateRefcount_undo_recounts {s : RefcountImage} {k : ℕ}
    (g : Qcow2Geometry s.toBDRVQcowState k) {j : ℕ} (hj : 1 ≤ j)
    (hjs : j < s.refcountTableSize.toNat) (hj63 : (j + 1) * 2 ^ (2 * k - 1) ≤ 2 ^ 63)
    {offset length blk : BitVec 64} (hoff : offset.toNat = (j * 2 ^ (k - 1) - 1) * 2 ^ k)
    (hlen : length.toNat = 2 * 2 ^ k)
    (hblk : s.refcountTable (j - 1) = blk) (hmask : blk &&& REFT_OFFSET_MASK = blk)
    (hblk0 : blk ≠ 0) (hblkA : blk ≠ offset) (hnext : s.refcountTable j = 0)
    (hone : s.refcountBlock blk (2 ^ (k - 1) - 1) = 1)
    (hfci : j * 2 ^ (k - 1) ≤ s.freeClusterIndex.toNat)
    (hfci' : s.freeClusterIndex.toNat < 2 ^ 63) (fuel : ℕ) :
    getRefcount s (offset.sshiftRight k) = 1 ∧
      ∃ s', updateRefcount (fuel + 8) s offset length (-1) = some (-EINVAL, s') ∧
        getRefcount s' (offset.sshiftRight k) = 2 ∧ s'.refcountTable j = offset := by
  have hk := g.clusterBits_ge
  have hk' := g.clusterBits_le
  have hRpos := Nat.two_pow_pos (k - 1)
  have hK : 2 ^ k = 2 * 2 ^ (k - 1) := by
    rw [← Nat.pow_succ']
    congr 1
    omega
  have hRK : 2 ^ (2 * k - 1) = 2 ^ (k - 1) * 2 ^ k := by
    rw [← Nat.pow_add]
    congr 1
    omega
  have hcs := g.toNat_clusterSize_signExtend
  have hsize := s.refcountTableSize.isLt
  -- `A = j * 2 ^ (k-1) - 1` is the cluster at `offset`, `B = A + 1` the next
  obtain ⟨A, hA⟩ : ∃ A, A = j * 2 ^ (k - 1) - 1 := ⟨_, rfl⟩
  have hAR : A + 1 = j * 2 ^ (k - 1) := by
    have : 1 * 2 ^ (k - 1) ≤ j * 2 ^ (k - 1) := Nat.mul_le_mul_right _ hj
    omega
  have hAdiv : A / 2 ^ (k - 1) = j - 1 := by rw [hA, mul_sub_one_div hRpos hj]
  have hAmod : A % 2 ^ (k - 1) = 2 ^ (k - 1) - 1 := by rw [hA, mul_sub_one_mod hRpos hj]
  have hBdiv : (A + 1) / 2 ^ (k - 1) = j := by rw [hAR, Nat.mul_div_cancel _ hRpos]
  have hBmod : (A + 1) % 2 ^ (k - 1) = 0 := by rw [hAR, Nat.mul_mod_left]
  rw [← hA] at hoff
  have hAK : (A + 1) * 2 ^ k = A * 2 ^ k + 2 ^ k := Nat.succ_mul _ _
  have hend : A * 2 ^ k + 2 * 2 ^ k < 2 ^ 63 := by
    have h1 : (A + 1) * 2 ^ k = j * 2 ^ (2 * k - 1) := by
      rw [hAR, hRK, Nat.mul_assoc]
    have h2 : (j + 1) * 2 ^ (2 * k - 1) = j * 2 ^ (2 * k - 1) + 2 ^ (k - 1) * 2 ^ k := by
      rw [Nat.succ_mul, hRK]
    have h3 : 2 ^ k < 2 ^ (k - 1) * 2 ^ k :=
      (Nat.lt_mul_iff_one_lt_left (Nat.two_pow_pos k)).2 (Nat.one_lt_two_pow (by omega))
    omega
  -- the loop runs from `offset` to the cluster after it
  have hoffB : (offset + s.clusterSize.signExtend 64).toNat = (A + 1) * 2 ^ k := by
    rw [toNat_add_of_lt (by omega), hcs, hoff, hAK]
  have hstart : offset &&& clusterMask s.toBDRVQcowState = offset := by
    apply eq_of_toNat_eq
    rw [g.toNat_and_clusterMask, hoff, Nat.mul_div_cancel _ (Nat.two_pow_pos k)]
  have hlast : (offset + length - 1) &&& clusterMask s.toBDRVQcowState =
      offset + s.clusterSize.signExtend 64 := by
    apply eq_of_toNat_eq
    have hadd : (offset + length).toNat = A * 2 ^ k + 2 * 2 ^ k := by
      rw [toNat_add_of_lt (by omega), hoff, hlen]
    have hsum : (offset + length - 1).toNat = (2 ^ k - 1) + (A + 1) * 2 ^ k := by
      rw [toNat_sub_of_le (by rw [le_def, hadd]; show 1 ≤ _; omega), hadd]
      show A * 2 ^ k + 2 * 2 ^ k - 1 = _
      have := Nat.one_le_two_pow (n := k)
      omega
    rw [g.toNat_and_clusterMask, hsum, Nat.add_mul_div_right _ _ (Nat.two_pow_pos k),
      Nat.div_eq_of_lt (Nat.sub_lt (Nat.two_pow_pos k) Nat.one_pos), Nat.zero_add, hoffB]
  have hcA : (clusterIndexOf s.toBDRVQcowState offset).toNat = A := by
    rw [g.toNat_clusterIndexOf (by omega), hoff, Nat.mul_div_cancel _ (Nat.two_pow_pos k)]
  have hcB : (clusterIndexOf s.toBDRVQcowState (offset + s.clusterSize.signExtend 64)).toNat =
      A + 1 := by
    rw [g.toNat_clusterIndexOf (by rw [hoffB]; omega), hoffB,
      Nat.mul_div_cancel _ (Nat.two_pow_pos k)]
  have hA63 : A + 1 < 2 ^ 63 := by
    have : A + 1 ≤ (A + 1) * 2 ^ k := Nat.le_mul_of_pos_right _ (Nat.two_pow_pos k)
    omega
  set cA := clusterIndexOf s.toBDRVQcowState offset with hcAdef
  set cB := clusterIndexOf s.toBDRVQcowState (offset + s.clusterSize.signExtend 64) with hcBdef
  -- where the refcounts of `A` and `B` live: the last entry of the block of
  -- table index `j - 1`, and the first of table index `j`
  have hrtiA : (refcountTableIndex s.toBDRVQcowState cA).toNat = j - 1 := by
    rw [g.toNat_refcountTableIndex (by omega), hcA, hAdiv, Nat.mod_eq_of_lt (by omega)]
  have hrtiB : (refcountTableIndex s.toBDRVQcowState cB).toNat = j := by
    rw [g.toNat_refcountTableIndex (by omega), hcB, hBdiv, Nat.mod_eq_of_lt (by omega)]
  have hbiA : (blockIndex s.toBDRVQcowState cA).toNat = 2 ^ (k - 1) - 1 := by
    rw [g.toNat_blockIndex, hcA, hAmod]
  have hbiB : (blockIndex s.toBDRVQcowState cB).toNat = 0 := by
    rw [g.toNat_blockIndex, hcB, hBmod]
  have htiA : (tableIndexOf s.toBDRVQcowState cA).toNat = j - 1 := by
    rw [g.toNat_tableIndexOf (by omega), hcA, hAdiv]
  have htiB : (tableIndexOf s.toBDRVQcowState cB).toNat = j := by
    rw [g.toNat_tableIndexOf (by omega), hcB, hBdiv]
  have hpresA : presentRefcountBlock s (refcountTableIndex s.toBDRVQcowState cA) = blk := by
    rw [presentRefcountBlock_of_lt (by omega), hrtiA, hblk, hmask]
  have hlt1 : cA.slt s.freeClusterIndex = true := by
    rw [slt_eq_decide_toNat64 (by omega) hfci', hcA]
    simp only [decide_eq_true_eq]
    omega
  have hle1 : offset.sle (offset + s.clusterSize.signExtend 64) = true := by
    rw [sle_eq_decide_toNat (by omega) (by omega), hoff, hoffB, hAK]
    simp
  -- round 1: `A`'s refcount drops from 1 to 0, and `free_cluster_index` moves to `A`
  set s1 := ({ s with freeClusterIndex := cA }).setRefcount blk
    (blockIndex s.toBDRVQcowState cA).toNat 0 with hs1
  have hround1 : updateRefcountLoop (fuel + 6 + 1) s (-1) (offset + s.clusterSize.signExtend 64)
      offset (-1) none = updateRefcountLoop (fuel + 6) s1 (-1)
        (offset + s.clusterSize.signExtend 64) (offset + s.clusterSize.signExtend 64)
        (tableIndexOf s.toBDRVQcowState cA) (some blk) := by
    have hne : tableIndexOf s.toBDRVQcowState cA ≠ -1 := by
      intro h
      have := congrArg BitVec.toNat h
      rw [htiA] at this
      have : (-1 : BitVec 64).toNat = 2 ^ 64 - 1 := rfl
      omega
    have hr : (s.refcountBlock blk (blockIndex s.toBDRVQcowState cA).toNat).setWidth 32 + -1 =
        0#32 := by
      rw [hbiA, hone]
      rfl
    rw [hs1, ← putRefcount_of_zero hlt1]
    exact updateRefcountLoop_round hle1 hne (allocRefcountBlock_present hpresA hblk0) hr rfl
  have hA31 : A < 2 ^ (31 + k) := by
    have h1 : 2 ^ (31 + k) = 2 ^ 32 * 2 ^ (k - 1) := by
      rw [← Nat.pow_add]
      congr 1
      omega
    have h2 : j * 2 ^ (k - 1) ≤ 2 ^ 32 * 2 ^ (k - 1) := Nat.mul_le_mul_right _ (by omega)
    omega
  have hnew : cA <<< k = offset := by
    apply eq_of_toNat_eq
    rw [toNat_shiftLeft, Nat.shiftLeft_eq, hcA, hoff, Nat.mod_eq_of_lt (by omega)]
  -- round 2: `B` has no refcount block; the search for one starts at `A`,
  -- free since round 1, and takes it
  have g1 : Qcow2Geometry s1.toBDRVQcowState k := g
  have hfree1 : getRefcount s1 s1.freeClusterIndex = 0 := by
    rw [show s1.freeClusterIndex = cA from rfl, g1.getRefcount_of_table (b := blk) (by omega)
      (by show _ < s.refcountTableSize.toNat; rw [hcA, hAdiv]; omega)
      (by show s.refcountTable _ = blk; rw [hcA, hAdiv, hblk]) hblk0,
      hs1, RefcountImage.setRefcount_refcountBlock, if_pos ⟨rfl, by rw [hcA, hAmod, hbiA]⟩]
  set s2 : RefcountImage := { s1 with freeClusterIndex := cA + 1 } with hs2
  have g2 : Qcow2Geometry s2.toBDRVQcowState k := g
  have halloc : allocClustersNoref s1 (s1.clusterSize.signExtend 64) (fuel + 2 + 2) =
      some (offset, s2) := by
    rw [← hnew]
    exact g1.allocClustersNoref_one hfree1 (fuel + 2)
  -- `A` is counted in its own block, the one of table index `j - 1`
  have hother : inSameRefcountBlock s2.toBDRVQcowState offset (cB <<< s2.clusterBits.toNat) =
      false := by
    rw [Bool.eq_false_iff]
    intro h
    have hB : (cB <<< s2.clusterBits.toNat).toNat = (A + 1) * 2 ^ k := by
      rw [show s2.clusterBits = s.clusterBits from rfl, g.clusterBits, toNat_shiftLeft,
        Nat.shiftLeft_eq, hcB, Nat.mod_eq_of_lt (by omega)]
    rw [g2.inSameRefcountBlock_iff, hB, hoff, hRK,
      Nat.mul_div_mul_right _ _ (Nat.two_pow_pos k), Nat.mul_div_mul_right _ _ (Nat.two_pow_pos k),
      hAdiv, hBdiv] at h
    omega
  set s3 := s2.setRefcount blk (blockIndex s.toBDRVQcowState cA).toNat 1 with hs3
  have hcount : updateRefcount (fuel + 1 + 3) s2 offset (s2.clusterSize.signExtend 64) 1 =
      some (0, s3) := by
    have hr : (s2.refcountBlock blk (blockIndex s2.toBDRVQcowState
        (clusterIndexOf s2.toBDRVQcowState offset)).toNat).setWidth 32 + 1 = 1#32 := by
      rw [show s2.refcountBlock = s1.refcountBlock from rfl, hs1,
        RefcountImage.setRefcount_refcountBlock, if_pos ⟨rfl, rfl⟩]
      rfl
    have h := g2.updateRefcount_oneCluster (by rw [hoff, Nat.mul_mod_left]) (by omega)
      (by rw [hcs]; exact Nat.two_pow_pos k) (by rw [hcs]) hpresA hblk0 hr rfl (fuel + 1)
    rw [putRefcount_of_ne_zero (by decide)] at h
    exact h
  set s4 := (s3.zeroBlock offset).hookBlock (refcountTableIndex s.toBDRVQcowState cB) offset
    with hs4
  have hload2 : allocRefcountBlock (fuel + 4 + 1) s1 cB = some (0, s4, some offset) := by
    have habsent : presentRefcountBlock s1 (refcountTableIndex s1.toBDRVQcowState cB) = 0 := by
      rw [presentRefcountBlock_of_lt
        (by show (refcountTableIndex s.toBDRVQcowState cB).toNat < _; rw [hrtiB]; exact hjs)]
      show s.refcountTable (refcountTableIndex s.toBDRVQcowState cB).toNat &&& REFT_OFFSET_MASK = 0
      rw [hrtiB, hnext]
      rfl
    have hpos : offset.slt 0 = false := by
      rw [slt_eq_decide_toNat64 (by omega) (by decide)]
      simp
    exact allocRefcountBlock_elsewhere habsent halloc hpos hother hcount
      (by rw [lt_def]; show (refcountTableIndex s.toBDRVQcowState cB).toNat < _; rw [hrtiB]; exact hjs)
  have hround2 : updateRefcountLoop (fuel + 5 + 1) s1 (-1) (offset + s.clusterSize.signExtend 64)
      (offset + s.clusterSize.signExtend 64) (tableIndexOf s.toBDRVQcowState cA) (some blk) =
      some (-EINVAL, offset + s.clusterSize.signExtend 64, s4) := by
    have hle : (offset + s.clusterSize.signExtend 64).sle
        (offset + s.clusterSize.signExtend 64) = true := by
      rw [sle_eq_decide_toNat (by omega) (by omega)]
      simp
    have hne : tableIndexOf s1.toBDRVQcowState cB ≠ tableIndexOf s.toBDRVQcowState cA := by
      intro h
      have := congrArg BitVec.toNat h
      rw [show tableIndexOf s1.toBDRVQcowState cB = tableIndexOf s.toBDRVQcowState cB from rfl,
        htiB, htiA] at this
      omega
    have hr : (s4.refcountBlock offset (blockIndex s4.toBDRVQcowState cB).toNat).setWidth 32 + -1 =
        -1#32 := by
      rw [RefcountImage.hookBlock_refcountBlock, RefcountImage.zeroBlock_refcountBlock, if_pos rfl]
      rfl
    exact updateRefcountLoop_outOfRange hle hne hload2 hr rfl
  have hloop : updateRefcountLoop (fuel + 7) s (-1)
      ((offset + length - 1) &&& clusterMask s.toBDRVQcowState)
      (offset &&& clusterMask s.toBDRVQcowState) (-1) none =
      some (-EINVAL, offset + s.clusterSize.signExtend 64, s4) := by
    rw [hstart, hlast]
    exact hround1.trans hround2
  -- the undo, `update_refcount(bs, offset, cluster_offset - offset, 1)`, counts `A` once more
  set s5 := s4.setRefcount blk (blockIndex s.toBDRVQcowState cA).toNat 2 with hs5
  have g4 : Qcow2Geometry s4.toBDRVQcowState k := g
  have htable4 : s4.refcountTable (j - 1) = blk := by
    rw [hs4, RefcountImage.hookBlock_refcountTable, hrtiB, if_neg (by omega)]
    exact hblk
  have hundo : updateRefcount (fuel + 4 + 3) s4 offset
      (offset + s.clusterSize.signExtend 64 - offset) (-(-1)) = some (0, s5) := by
    have hpres4 : presentRefcountBlock s4 (refcountTableIndex s4.toBDRVQcowState
        (clusterIndexOf s4.toBDRVQcowState offset)) = blk := by
      rw [presentRefcountBlock_of_lt (by
        show (refcountTableIndex s.toBDRVQcowState cA).toNat < s.refcountTableSize.toNat
        rw [hrtiA]
        omega)]
      show s4.refcountTable (refcountTableIndex s.toBDRVQcowState cA).toNat &&& REFT_OFFSET_MASK = blk
      rw [hrtiA, htable4, hmask]
    have hr : (s4.refcountBlock blk (blockIndex s4.toBDRVQcowState
        (clusterIndexOf s4.toBDRVQcowState offset)).toNat).setWidth 32 + -(-1) = 2#32 := by
      rw [RefcountImage.hookBlock_refcountBlock, RefcountImage.zeroBlock_refcountBlock,
        if_neg hblkA, RefcountImage.setRefcount_refcountBlock, if_pos ⟨rfl, rfl⟩]
      rfl
    have hlen4 : (offset + s.clusterSize.signExtend 64 - offset).toNat = 2 ^ k := by
      rw [add_sub_cancel_left, hcs]
    have h := g4.updateRefcount_oneCluster (by rw [hoff, Nat.mul_mod_left]) (by omega)
      (by rw [hlen4]; exact Nat.two_pow_pos k) (by rw [hlen4]) hpres4 hblk0 hr rfl (fuel + 4)
    rw [putRefcount_of_ne_zero (by decide)] at h
    exact h
  have hmain : updateRefcount (fuel + 7 + 1) s offset length (-1) = some (-EINVAL, s5) :=
    updateRefcount_of_loop_error (by rw [hlen]; omega) (by rw [hlen]; omega) hloop
      (by decide) hundo
  have hcAk : offset.sshiftRight k = cA := by rw [hcAdef, clusterIndexOf, g.clusterBits]
  have g5 : Qcow2Geometry s5.toBDRVQcowState k := g
  refine ⟨?_, s5, hmain, ?_, ?_⟩
  · rw [hcAk, g.getRefcount_of_table (b := blk) (by omega) (by rw [hcA, hAdiv]; omega)
      (by rw [hcA, hAdiv, hblk]) hblk0, hcA, hAmod, hone]
  · rw [hcAk, g5.getRefcount_of_table (b := blk) (by omega)
      (by rw [hcA, hAdiv]; show _ < s.refcountTableSize.toNat; omega)
      (by rw [hcA, hAdiv]; exact htable4) hblk0,
      hs5, RefcountImage.setRefcount_refcountBlock, if_pos ⟨rfl, by rw [hcA, hAmod, hbiA]⟩]
  · rw [hs5, RefcountImage.setRefcount_refcountTable, hs4, RefcountImage.hookBlock_refcountTable,
      hrtiB, if_pos rfl]

theorem updateRefcount_undo_recounts_allocated :
    Qcow2Geometry allocatedRefcounts.toBDRVQcowState 9 ∧ 1 ≤ 1 ∧
      1 < allocatedRefcounts.refcountTableSize.toNat ∧ (1 + 1) * 2 ^ (2 * 9 - 1) ≤ 2 ^ 63 ∧
      (130560 : BitVec 64).toNat = (1 * 2 ^ (9 - 1) - 1) * 2 ^ 9 ∧
      (1024 : BitVec 64).toNat = 2 * 2 ^ 9 ∧ allocatedRefcounts.refcountTable (1 - 1) = 0xa00 ∧
      (0xa00 : BitVec 64) &&& REFT_OFFSET_MASK = 0xa00 ∧ (0xa00 : BitVec 64) ≠ 0 ∧
      (0xa00 : BitVec 64) ≠ 130560 ∧ allocatedRefcounts.refcountTable 1 = 0 ∧
      allocatedRefcounts.refcountBlock 0xa00 (2 ^ (9 - 1) - 1) = 1 ∧
      1 * 2 ^ (9 - 1) ≤ allocatedRefcounts.freeClusterIndex.toNat ∧
      allocatedRefcounts.freeClusterIndex.toNat < 2 ^ 63 ∧
      (getRefcount allocatedRefcounts ((130560 : BitVec 64).sshiftRight 9) = 1 ∧
        ∃ s', updateRefcount (0 + 8) allocatedRefcounts 130560 1024 (-1) = some (-EINVAL, s') ∧
          getRefcount s' ((130560 : BitVec 64).sshiftRight 9) = 2 ∧ s'.refcountTable 1 = 130560) := by
  have hjs : 1 < allocatedRefcounts.refcountTableSize.toNat := by decide
  have hj63 : (1 + 1) * 2 ^ (2 * 9 - 1) ≤ 2 ^ 63 := by decide
  have hoff : (130560 : BitVec 64).toNat = (1 * 2 ^ (9 - 1) - 1) * 2 ^ 9 := by decide
  have hlen : (1024 : BitVec 64).toNat = 2 * 2 ^ 9 := by decide
  have hblk : allocatedRefcounts.refcountTable (1 - 1) = 0xa00 := by decide
  have hmask : (0xa00 : BitVec 64) &&& REFT_OFFSET_MASK = 0xa00 := by decide
  have hblk0 : (0xa00 : BitVec 64) ≠ 0 := by decide
  have hblkA : (0xa00 : BitVec 64) ≠ 130560 := by decide
  have hnext : allocatedRefcounts.refcountTable 1 = 0 := by decide
  have hone : allocatedRefcounts.refcountBlock 0xa00 (2 ^ (9 - 1) - 1) = 1 := by decide
  have hfci : 1 * 2 ^ (9 - 1) ≤ allocatedRefcounts.freeClusterIndex.toNat := by decide
  have hfci' : allocatedRefcounts.freeClusterIndex.toNat < 2 ^ 63 := by decide
  exact ⟨smallImage_geometry, le_refl 1, hjs, hj63, hoff, hlen, hblk, hmask, hblk0, hblkA, hnext,
    hone, hfci, hfci', updateRefcount_undo_recounts smallImage_geometry (le_refl 1) hjs hj63 hoff
      hlen hblk hmask hblk0 hblkA hnext hone hfci hfci' 0⟩

end QemuKvm.Qcow2
