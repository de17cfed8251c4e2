import QemuKvm.Block.Qcow2Cluster

/-!
# qcow2: growing the refcount table

Every cluster of a qcow2 image has a 16-bit refcount, kept in refcount
blocks of one cluster each (`2 ^ (cluster_bits - 1)` refcounts); the refcount
table, `refcount_table_size` 8-byte entries, holds their file offsets
(block/qcow2-refcount.c). When `alloc_refcount_block` needs a block past the
end of the table, it grows the table: it places new refcount blocks and a
new table after the blocks in use, sized so that the new blocks hold the
refcounts of the new metadata itself. The sizes come from a loop that runs
`next_refcount_table_size` until the table size stops changing; the fill
loop then sets to 1 the refcounts of the `table_clusters + blocks_clusters`
new metadata clusters in `new_blocks`.

The two counts of `table_clusters` differ: the sizing loop takes
`size_to_clusters(s, table_size)`, the table's entries read as bytes, while
the fill loop takes `size_to_clusters(s, table_size * sizeof(uint64_t))`.

The model keeps the C widths as in `QemuKvm.Qcow2`: `next_refcount_table_size`
computes in `unsigned int` (`BitVec 32`), the sizes of `alloc_refcount_block`
are `uint64_t`s, and `free_cluster_index` is an `int64_t`. The loops take
fuel. A write past the end of `new_blocks` is undefined in C; the model's fill
returns `none` there. The cache, the writes to the image file and the error
paths are left out.

Results:

* `nextRefcountTableSizeLoop_ge` — `next_refcount_table_size` reaches a
  size of at least `min_clusters` clusters within its fuel, so that
  `nextRefcountTableSize_ge` its result covers `min_size` and is a whole number
  of table clusters, as long as the final shift does not wrap;
* `refcountGrowLoop_blocksClusters` — when the sizing loop settles on
  `table_size`, `blocks_clusters` is the count it derived from that size,
  and `toNat_blocksClustersOf` gives it as a number;
* `allocRefcountBlock_fill_overflows` — for every geometry, every table the
  loop settles on with between `2 ^ (2k-3) - 2 ^ (k-2)` and `2 ^ (2k-1)`
  entries gets two new refcount blocks, `2 ^ k` refcounts, while the fill
  loop writes `⌈8 · table_size / 2 ^ k⌉ + 2` of them: more than the blocks
  hold.
-/

namespace QemuKvm.Qcow2

open BitVec

def REFCOUNT_SHIFT : BitVec 32 := 1

/-- `MAX` of osdep.h. -/
def MAX (a b : BitVec w) : BitVec w := if a > b then a else b

/-- The refcount side of `BDRVQcowState`. -/
structure BDRVQcowRefcountState extends BDRVQcowState where
  refcountTableSize : BitVec 32
  freeClusterIndex : BitVec 64

/-- The `while` loop of `next_refcount_table_size`: grow by half until
`min_clusters` clusters are reached. -/
def nextRefcountTableSizeLoop (minClusters : BitVec 32) (refcountTableClusters : BitVec 32) :
    ℕ → BitVec 32
  | 0 => refcountTableClusters
  | fuel + 1 =>
    if minClusters > refcountTableClusters then
      nextRefcountTableSizeLoop minClusters ((refcountTableClusters * 3 + 1) / 2) fuel
    else refcountTableClusters

/-- `next_refcount_table_size`, in `unsigned int`. The loop gets one round
per cluster of `min_clusters`, more than it uses. -/
def nextRefcountTableSize (s : BDRVQcowRefcountState) (minSize : BitVec 32) : BitVec 32 :=
  let minClusters := (minSize >>> (s.clusterBits - 3).toNat) + 1
  let refcountTableClusters := MAX 1 (s.refcountTableSize >>> (s.clusterBits - 3).toNat)
  nextRefcountTableSizeLoop minClusters refcountTableClusters minClusters.toNat <<<
    (s.clusterBits - 3).toNat

/-- The refcount blocks the sizing loop gives a table of `table_size`
entries: one for the refcount block being allocated, and enough for the
table's clusters, counted by `size_to_clusters(s, table_size)`. -/
def blocksClustersOf (s : BDRVQcowRefcountState) (refcountBlockClusters tableSize : BitVec 64) :
    BitVec 64 :=
  let tableClusters := (sizeToClusters s.toBDRVQcowState tableSize).signExtend 64
  1 + (tableClusters + refcountBlockClusters - 1) / refcountBlockClusters

/-- One round of the sizing loop: the table size the new metadata of a
`table_size`-entry table asks for. -/
def refcountTableSizeStep (s : BDRVQcowRefcountState) (refcountBlockClusters blocksUsed : BitVec 64)
    (tableSize : BitVec 64) : BitVec 64 :=
  let tableClusters := (sizeToClusters s.toBDRVQcowState tableSize).signExtend 64
  let metaClusters := tableClusters + blocksClustersOf s refcountBlockClusters tableSize
  (nextRefcountTableSize s ((blocksUsed +
    (metaClusters + refcountBlockClusters - 1) / refcountBlockClusters).setWidth 32)).setWidth 64

/-- The `do … while (last_table_size != table_size)` loop of
`alloc_refcount_block`, with fuel; `none` when it has not settled. It
returns `table_size` and `blocks_clusters`. -/
def refcountGrowLoop (s : BDRVQcowRefcountState) (refcountBlockClusters blocksUsed : BitVec 64)
    (tableSize : BitVec 64) : ℕ → Option (BitVec 64 × BitVec 64)
  | 0 => none
  | fuel + 1 =>
    let lastTableSize := tableSize
    let tableSize := refcountTableSizeStep s refcountBlockClusters blocksUsed tableSize
    if lastTableSize ≠ tableSize then
      refcountGrowLoop s refcountBlockClusters blocksUsed tableSize fuel
    else some (tableSize, blocksClustersOf s refcountBlockClusters lastTableSize)

/-- The sizes and places `alloc_refcount_block` computes for a grown table. -/
structure RefcountGrowth where
  tableSize : BitVec 64
  blocksClusters : BitVec 64
  metaOffset : BitVec 64
  tableOffset : BitVec 64
  deriving DecidableEq, Repr

/-- `refcount_block_clusters`: the `int` `1 << (cluster_bits - REFCOUNT_SHIFT)`
as a `uint64_t`. -/
def refcountBlockClusters (s : BDRVQcowRefcountState) : BitVec 64 :=
  (1#32 <<< (s.clusterBits - REFCOUNT_SHIFT).toNat).signExtend 64

/-- `blocks_used`: the refcount blocks the clusters before
`free_cluster_index` need. -/
def blocksUsed (s : BDRVQcowRefcountState) : BitVec 64 :=
  (s.freeClusterIndex + refcountBlockClusters s - 1) / refcountBlockClusters s

/-- The growth path of `alloc_refcount_block` up to the allocations: the
table size, starting from one block more than those in use, the new
blocks, and where both go. -/
def allocRefcountGrowSizes (s : BDRVQcowRefcountState) (fuel : ℕ) : Option RefcountGrowth :=
  let tableSize := (nextRefcountTableSize s ((blocksUsed s + 1).setWidth 32)).setWidth 64
  match refcountGrowLoop s (refcountBlockClusters s) (blocksUsed s) tableSize fuel with
  | none => none
  | some (tableSize, blocksClusters) =>
    let metaOffset := (blocksUsed s * refcountBlockClusters s) * s.clusterSize.signExtend 64
    some ⟨tableSize, blocksClusters, metaOffset,
      metaOffset + blocksClusters * s.clusterSize.signExtend 64⟩

/-- The fill loop: `new_blocks`, `blocks_clusters * cluster_size` zeroed
bytes read as 16-bit refcounts, with the first
`table_clusters + blocks_clusters` set to 1; `table_clusters` now counts the
table's bytes. `none` when the loop writes past the allocation. -/
def fillNewBlocks (s : BDRVQcowRefcountState) (tableSize blocksClusters : BitVec 64) :
    Option (List (BitVec 16)) :=
  let len := (blocksClusters * s.clusterSize.signExtend 64).toNat / 2
  let tableClusters := (sizeToClusters s.toBDRVQcowState (tableSize * 8)).signExtend 64
  let count := (tableClusters + blocksClusters).toNat
  if count ≤ len then some (List.replicate count 1 ++ List.replicate (len - count) 0) else none

/-- A 512-byte-cluster image whose refcount table of 30272 entries is full:
the clusters before `free_cluster_index` need all its blocks. -/
def fullRefcountTable : BDRVQcowRefcountState where
  toBDRVQcowState := smallImage
  refcountTableSize := 30272
  freeClusterIndex := 30272 * 256

example : allocRefcountGrowSizes fullRefcountTable 8 =
    some ⟨45440, 2, 0xec800000, 0xec800400⟩ := by decide

/-! ## `next_refcount_table_size` -/

theorem toNat_MAX (a b : BitVec w) : (MAX a b).toNat = max a.toNat b.toNat := by
  rw [MAX]
  split
  · next h =>
    rw [gt_iff_lt, lt_def] at h
    exact (max_eq_left (le_of_lt h)).symm
  · next h =>
    rw [gt_iff_lt, lt_def, Nat.not_lt] at h
    exact (max_eq_right h).symm

/-- Below `2 ^ 27` clusters a round `(c * 3 + 1) / 2` stays in `unsigned int`
and grows by at least one, so the loop reaches `min_clusters` with fuel for
the difference, and ends at most half as far again. -/
theorem nextRefcountTableSizeLoop_ge {m r : BitVec 32} (fuel : ℕ) (hr : 1 ≤ r.toNat)
    (hm : m.toNat ≤ 2 ^ 27) (hfuel : m.toNat ≤ r.toNat + fuel) :
    m.toNat ≤ (nextRefcountTableSizeLoop m r fuel).toNat ∧
      (nextRefcountTableSizeLoop m r fuel).toNat ≤ max r.toNat (3 * m.toNat / 2) := by
  induction fuel generalizing r with
  | zero =>
    rw [nextRefcountTableSizeLoop]
    omega
  | succ fuel ih =>
    rw [nextRefcountTableSizeLoop]
    split
    · next hlt =>
      rw [gt_iff_lt, lt_def] at hlt
      have hstep : ((r * 3 + 1) / 2).toNat = (r.toNat * 3 + 1) / 2 := by
        have h3 : (r * 3).toNat = r.toNat * 3 := toNat_mul_of_lt (by
          rw [show (3 : BitVec 32).toNat = 3 from rfl]; omega)
        rw [toNat_udiv, toNat_add_of_lt (by rw [h3, show (1 : BitVec 32).toNat = 1 from rfl]; omega),
          h3]
        rfl
      obtain ⟨h1, h2⟩ := ih (r := (r * 3 + 1) / 2) (by rw [hstep]; omega) (by rw [hstep]; omega)
      rw [hstep] at h2
      exact ⟨h1, by omega⟩
    · next hge =>
      rw [gt_iff_lt, lt_def, Nat.not_lt] at hge
      omega

/-- While the final shift does not wrap, `next_refcount_table_size` returns a
whole number of table clusters above `min_size`. -/
theorem nextRefcountTableSize_ge {s : BDRVQcowRefcountState} {k : ℕ}
    (g : Qcow2Geometry s.toBDRVQcowState k) {minSize : BitVec 32}
    (hwrap : 3 * (minSize.toNat / 2 ^ (k - 3) + 1) / 2 * 2 ^ (k - 3) < 2 ^ 32) :
    minSize.toNat < (nextRefcountTableSize s minSize).toNat ∧
      2 ^ (k - 3) ∣ (nextRefcountTableSize s minSize).toNat := by
  have hk := g.clusterBits_ge
  have hk' := g.clusterBits_le
  have hshift : (s.clusterBits - 3).toNat = k - 3 := by
    rw [toNat_sub_of_le (by rw [le_def, g.clusterBits]; exact le_trans (by decide) hk),
      g.clusterBits]
    rfl
  have hd : 2 ^ 6 ≤ 2 ^ (k - 3) := Nat.pow_le_pow_right (by decide) (by omega)
  have hd' : 2 ^ (k - 3) ≤ 2 ^ 18 := Nat.pow_le_pow_right (by decide) (by omega)
  -- `min_clusters` and the starting size as numbers
  have hq : minSize.toNat / 2 ^ (k - 3) < 2 ^ 26 := by
    rw [Nat.div_lt_iff_lt_mul (Nat.two_pow_pos _)]
    have := minSize.isLt
    have : 2 ^ 26 * 2 ^ 6 ≤ 2 ^ 26 * 2 ^ (k - 3) := Nat.mul_le_mul_left _ hd
    omega
  have hm : ((minSize >>> (s.clusterBits - 3).toNat) + 1).toNat =
      minSize.toNat / 2 ^ (k - 3) + 1 := by
    rw [toNat_add_of_lt, toNat_ushiftRight, Nat.shiftRight_eq_div_pow, hshift]
    · rfl
    · rw [toNat_ushiftRight, Nat.shiftRight_eq_div_pow, hshift,
        show (1 : BitVec 32).toNat = 1 from rfl]
      omega
  have hr : (MAX 1 (s.refcountTableSize >>> (s.clusterBits - 3).toNat)).toNat =
      max 1 (s.refcountTableSize.toNat / 2 ^ (k - 3)) := by
    rw [toNat_MAX, toNat_ushiftRight, Nat.shiftRight_eq_div_pow, hshift]
    rfl
  have hr32 : max 1 (s.refcountTableSize.toNat / 2 ^ (k - 3)) * 2 ^ (k - 3) < 2 ^ 32 := by
    have := s.refcountTableSize.isLt
    have := Nat.div_mul_le_self s.refcountTableSize.toNat (2 ^ (k - 3))
    have : 2 ^ 18 < 2 ^ 32 := by decide
    rcases Nat.le_total 1 (s.refcountTableSize.toNat / 2 ^ (k - 3)) with h | h
    · rw [max_eq_right h]; omega
    · rw [max_eq_left h]; omega
  obtain ⟨hge, hle⟩ := nextRefcountTableSizeLoop_ge
    (m := (minSize >>> (s.clusterBits - 3).toNat) + 1)
    (r := MAX 1 (s.refcountTableSize >>> (s.clusterBits - 3).toNat))
    ((minSize >>> (s.clusterBits - 3).toNat) + 1).toNat (by rw [hr]; omega) (by rw [hm]; omega) (by omega)
  unfold nextRefcountTableSize
  dsimp only
  generalize nextRefcountTableSizeLoop _ _ _ = c at hge hle ⊢
  rw [hm] at hge hle
  rw [hr] at hle
  -- the shift by `cluster_bits - 3` does not wrap
  have hnowrap : c.toNat * 2 ^ (k - 3) < 2 ^ 32 := by
    have := Nat.mul_le_mul_right (2 ^ (k - 3)) hle
    rw [← Nat.mul_max_mul_right] at this
    omega
  rw [toNat_shiftLeft, hshift, Nat.shiftLeft_eq, Nat.mod_eq_of_lt hnowrap]
  refine ⟨?_, Dvd.intro_left _ rfl⟩
  -- `min_size` lies below the next multiple of a table cluster
  have hlt := Nat.lt_div_mul_add (a := minSize.toNat) (Nat.two_pow_pos (k - 3))
  have := Nat.mul_le_mul_right (2 ^ (k - 3)) hge
  rw [Nat.add_mul, Nat.one_mul] at this
  omega

/-- With 2 MiB clusters the shift wraps for the largest `min_size`. -/
example : (nextRefcountTableSize { fullRefcountTable with clusterBits := 21 } 0xffffffff).toNat <
    0xffffffff := by decide

/-! ## The sizing loop -/

/-- When the sizing loop settles, its table size is a fixed point of a
round, and `blocks_clusters` was derived from it. -/
theorem refcountGrowLoop_settled {s : BDRVQcowRefcountState} {rbc blocksUsed tableSize T B : BitVec 64}
    {fuel : ℕ} (h : refcountGrowLoop s rbc blocksUsed tableSize fuel = some (T, B)) :
    refcountTableSizeStep s rbc blocksUsed T = T ∧ B = blocksClustersOf s rbc T := by
  induction fuel generalizing tableSize with
  | zero => exact absurd h (by simp [refcountGrowLoop])
  | succ fuel ih =>
    rw [refcountGrowLoop] at h
    split at h
    · exact ih h
    · next hfix =>
      rw [Classical.not_not] at hfix
      simp only [Option.some.injEq, Prod.mk.injEq] at h
      obtain ⟨rfl, rfl⟩ := h
      rw [← hfix]
      exact ⟨hfix.symm, rfl⟩

/-- A settled table size comes out of `next_refcount_table_size`, an
`unsigned int`. -/
theorem toNat_lt_of_refcountTableSizeStep {s : BDRVQcowRefcountState} {rbc blocksUsed T : BitVec 64}
    (h : refcountTableSizeStep s rbc blocksUsed T = T) : T.toNat < 2 ^ 32 := by
  rw [← h, refcountTableSizeStep, toNat_setWidth]
  exact lt_of_le_of_lt (Nat.mod_le _ _) (BitVec.isLt _)

section Geometry

variable {s : BDRVQcowRefcountState} {k : ℕ} (g : Qcow2Geometry s.toBDRVQcowState k)
include g

theorem Qcow2Geometry.toNat_refcountBlockClusters :
    (refcountBlockClusters s).toNat = 2 ^ (k - 1) := by
  have hk := g.clusterBits_ge
  have hk' := g.clusterBits_le
  have hshift : (s.clusterBits - REFCOUNT_SHIFT).toNat = k - 1 := by
    rw [toNat_sub_of_le (by rw [le_def, g.clusterBits]; exact le_trans (by decide) hk),
      g.clusterBits]
    rfl
  have hpow : (1#32 <<< (s.clusterBits - REFCOUNT_SHIFT).toNat).toNat = 2 ^ (k - 1) := by
    rw [hshift, ← twoPow_eq, toNat_twoPow_of_lt (by omega)]
  have hsmall : 2 ^ (k - 1) ≤ 2 ^ 20 := Nat.pow_le_pow_right (by decide) (by omega)
  have hmsb : (1#32 <<< (s.clusterBits - REFCOUNT_SHIFT).toNat).msb = false := by
    rw [msb_eq_false_iff_two_mul_lt, hpow]
    have : 2 ^ 20 < 2 ^ 31 := by decide
    omega
  rw [refcountBlockClusters, signExtend_eq_setWidth_of_msb_false hmsb, toNat_setWidth, hpow]
  exact Nat.mod_eq_of_lt (lt_of_le_of_lt hsmall (by decide))

/-- `size_to_clusters` of a size below `2 ^ 39`, widened from its `int`. -/
theorem Qcow2Geometry.toNat_sizeToClusters_signExtend {size : BitVec 64} (hsize : size.toNat < 2 ^ 39) :
    ((sizeToClusters s.toBDRVQcowState size).signExtend 64).toNat = (size.toNat + 2 ^ k - 1) / 2 ^ k := by
  have hk := g.clusterBits_ge
  have hcs : 2 ^ k ≤ 2 ^ 21 := Nat.pow_le_pow_right (by decide) g.clusterBits_le
  have hq : (size.toNat + 2 ^ k - 1) / 2 ^ k < 2 ^ 31 := by
    rw [Nat.div_lt_iff_lt_mul (Nat.two_pow_pos k)]
    have : 2 ^ 31 * 2 ^ 9 ≤ 2 ^ 31 * 2 ^ k := Nat.mul_le_mul_left _ (Nat.pow_le_pow_right (by decide) hk)
    have : 2 ^ 39 + 2 ^ 21 ≤ 2 ^ 31 * 2 ^ 9 := by decide
    omega
  have hval := g.toNat_sizeToClusters (show size.toNat < 2 ^ 62 by omega)
  rw [Nat.mod_eq_of_lt (by omega)] at hval
  have hmsb : (sizeToClusters s.toBDRVQcowState size).msb = false := by
    rw [msb_eq_false_iff_two_mul_lt, hval]
    omega
  rw [signExtend_eq_setWidth_of_msb_false hmsb, toNat_setWidth, hval]
  exact Nat.mod_eq_of_lt (by omega)

/-- The refcount blocks the sizing loop gives a table of `T` entries: one,
and one per `2 ^ (k-1)` clusters of `⌈T / 2 ^ k⌉` — the entries read as
bytes. -/
theorem Qcow2Geometry.toNat_blocksClustersOf {T : BitVec 64} (hT : T.toNat < 2 ^ 32) :
    (blocksClustersOf s (refcountBlockClusters s) T).toNat =
      1 + ((T.toNat + 2 ^ k - 1) / 2 ^ k + 2 ^ (k - 1) - 1) / 2 ^ (k - 1) := by
  have hk := g.clusterBits_ge
  have hrbc := g.toNat_refcountBlockClusters
  have htc := g.toNat_sizeToClusters_signExtend (show T.toNat < 2 ^ 39 by omega)
  have htcle : (T.toNat + 2 ^ k - 1) / 2 ^ k < 2 ^ 32 + 1 := by
    rw [Nat.div_lt_iff_lt_mul (Nat.two_pow_pos k), Nat.add_mul, Nat.one_mul]
    have : 2 ^ 32 ≤ 2 ^ 32 * 2 ^ k := Nat.le_mul_of_pos_right _ (Nat.two_pow_pos k)
    omega
  have hrb : 2 ^ (k - 1) ≤ 2 ^ 20 := Nat.pow_le_pow_right (by decide) (by have := g.clusterBits_le; omega)
  have hpos := Nat.two_pow_pos (k - 1)
  have hsum : ((sizeToClusters s.toBDRVQcowState T).signExtend 64 + refcountBlockClusters s - 1).toNat =
      (T.toNat + 2 ^ k - 1) / 2 ^ k + 2 ^ (k - 1) - 1 := by
    rw [toNat_sub_of_le, toNat_add_of_lt, htc, hrbc]
    · rfl
    · rw [htc, hrbc]; omega
    · rw [le_def, toNat_add_of_lt (by rw [htc, hrbc]; omega), htc, hrbc]
      exact le_trans (by exact Nat.one_le_two_pow) (Nat.le_add_left _ _)
  have hdiv : (((sizeToClusters s.toBDRVQcowState T).signExtend 64 + refcountBlockClusters s - 1) /
      refcountBlockClusters s).toNat = ((T.toNat + 2 ^ k - 1) / 2 ^ k + 2 ^ (k - 1) - 1) / 2 ^ (k - 1) := by
    rw [toNat_udiv, hsum, hrbc]
  have hle := Nat.div_le_self ((T.toNat + 2 ^ k - 1) / 2 ^ k + 2 ^ (k - 1) - 1) (2 ^ (k - 1))
  rw [blocksClustersOf, toNat_add_of_lt (by rw [hdiv, show (1 : BitVec 64).toNat = 1 from rfl]; omega), hdiv]
  rfl

end Geometry

/-! ## The fill loop -/

/-- Every table the sizing loop settles on with between
`2 ^ (2k-3) - 2 ^ (k-2)` and `2 ^ (2k-1)` entries gets two new refcount
blocks, room for `2 ^ k` refcounts; the fill loop, counting the table's
clusters from its bytes, sets `⌈8 · table_size / 2 ^ k⌉ + 2` of them, more
than that. -/
theorem allocRefcountBlock_fill_overflows {s : BDRVQcowRefcountState} {k : ℕ}
    (g : Qcow2Geometry s.toBDRVQcowState k) {fuel : ℕ} {r : RefcountGrowth}
    (h : allocRefcountGrowSizes s fuel = some r)
    (hlo : 2 ^ (2 * k - 3) - 2 ^ (k - 2) < r.tableSize.toNat)
    (hhi : r.tableSize.toNat ≤ 2 ^ (2 * k - 1)) :
    r.blocksClusters.toNat = 2 ∧ fillNewBlocks s r.tableSize r.blocksClusters = none := by
  have hk := g.clusterBits_ge
  have hk' := g.clusterBits_le
  rw [allocRefcountGrowSizes] at h
  split at h
  · exact absurd h (by simp)
  · next T B hloop =>
    simp only [Option.some.injEq] at h
    subst h
    obtain ⟨hfix, hB⟩ := refcountGrowLoop_settled hloop
    have hT32 := toNat_lt_of_refcountTableSizeStep hfix
    dsimp only at hlo hhi ⊢
    have hpowL : 2 ^ (2 * k - 1) = 2 ^ k * 2 ^ (k - 1) := by rw [← Nat.pow_add]; congr 1; omega
    have hpow8 : 8 * 2 ^ (2 * k - 3) = 2 ^ k * 2 ^ k := by
      rw [show (8 : ℕ) = 2 ^ 3 from rfl, ← Nat.pow_add, ← Nat.pow_add]; congr 1; omega
    have hpow8' : 8 * 2 ^ (k - 2) = 2 * 2 ^ k := by
      rw [show (8 : ℕ) = 2 * 2 ^ 2 from rfl, Nat.mul_assoc, ← Nat.pow_add]; congr 2; omega
    have hpos := Nat.two_pow_pos k
    have hpos' := Nat.two_pow_pos (k - 1)
    -- the loop counts `⌈T / 2^k⌉` table clusters, between 1 and one block's worth
    have hc1 : 1 ≤ (T.toNat + 2 ^ k - 1) / 2 ^ k := by
      rw [Nat.le_div_iff_mul_le hpos]
      omega
    have hc2 : (T.toNat + 2 ^ k - 1) / 2 ^ k ≤ 2 ^ (k - 1) := by
      rw [Nat.le_iff_lt_add_one, Nat.div_lt_iff_lt_mul hpos, Nat.add_mul, Nat.one_mul,
        Nat.mul_comm]
      omega
    have hBv : B.toNat = 2 := by
      rw [hB, g.toNat_blocksClustersOf hT32,
        Nat.div_eq_of_lt_le (by rw [Nat.one_mul]; omega) (by omega)]
    refine ⟨hBv, ?_⟩
    -- `new_blocks` holds `2 ^ k` refcounts
    have hcs : (s.clusterSize.signExtend 64).toNat = 2 ^ k := by
      have hle : 2 ^ k ≤ 2 ^ 21 := Nat.pow_le_pow_right (by decide) hk'
      have hmsb : s.clusterSize.msb = false := by
        rw [msb_eq_false_iff_two_mul_lt, g.clusterSize]
        have : 2 ^ 21 < 2 ^ 31 := by decide
        omega
      rw [signExtend_eq_setWidth_of_msb_false hmsb, toNat_setWidth, g.clusterSize]
      exact Nat.mod_eq_of_lt (lt_of_le_of_lt hle (by decide))
    have hlen : (B * s.clusterSize.signExtend 64).toNat / 2 = 2 ^ k := by
      have hle : 2 ^ k ≤ 2 ^ 21 := Nat.pow_le_pow_right (by decide) hk'
      have : 2 * 2 ^ 21 < 2 ^ 64 := by decide
      rw [toNat_mul_of_lt (by rw [hBv, hcs]; omega), hBv, hcs]
      omega
    -- the fill loop counts `⌈8T / 2^k⌉` table clusters
    have h8 : (T * 8).toNat = T.toNat * 8 := toNat_mul_of_lt (by
      rw [show (8 : BitVec 64).toNat = 8 from rfl]; omega)
    have htc := g.toNat_sizeToClusters_signExtend (show (T * 8).toNat < 2 ^ 39 by rw [h8]; omega)
    rw [h8] at htc
    have htc2 : (T.toNat * 8 + 2 ^ k - 1) / 2 ^ k ≤ T.toNat * 8 := by
      rw [Nat.div_le_iff_le_mul_add_pred hpos]
      have : T.toNat * 8 ≤ 2 ^ k * (T.toNat * 8) := Nat.le_mul_of_pos_left _ hpos
      omega
    have hcount : ((sizeToClusters s.toBDRVQcowState (T * 8)).signExtend 64 + B).toNat =
        (T.toNat * 8 + 2 ^ k - 1) / 2 ^ k + 2 := by
      rw [toNat_add_of_lt (by rw [htc, hBv]; omega), htc, hBv]
    -- more than `2 ^ k - 2` table clusters: `8T > 2^(2k) - 2^(k+1)`
    have hmore : 2 ^ k - 2 < (T.toNat * 8 + 2 ^ k - 1) / 2 ^ k := by
      rw [Nat.lt_div_iff_mul_lt hpos, Nat.sub_mul]
      omega
    rw [fillNewBlocks, if_neg (by rw [hcount, hlen]; omega)]

/-- The full 30272-entry table of 512-byte clusters grows to 45440 entries
with two new refcount blocks, 512 refcounts, and the fill loop writes 712:
`new_blocks` overflows by 400 bytes. -/
theorem allocRefcountBlock_fill_overflows_fullTable :
    Qcow2Geometry fullRefcountTable.toBDRVQcowState 9 ∧
      allocRefcountGrowSizes fullRefcountTable 8 = some ⟨45440, 2, 0xec800000, 0xec800400⟩ ∧
      2 ^ (2 * 9 - 3) - 2 ^ (9 - 2) < (45440 : BitVec 64).toNat ∧
      (45440 : BitVec 64).toNat ≤ 2 ^ (2 * 9 - 1) ∧
      (2 : BitVec 64).toNat = 2 ∧ fillNewBlocks fullRefcountTable 45440 2 = none := by
  have h : allocRefcountGrowSizes fullRefcountTable 8 = some ⟨45440, 2, 0xec800000, 0xec800400⟩ := by
    decide
  exact ⟨smallImage_geometry, h, by decide, by decide,
    allocRefcountBlock_fill_overflows smallImage_geometry h (by decide) (by decide)⟩

end QemuKvm.Qcow2
