import Mathlib.Data.BitVec
import QemuKvm.Lib.HighMask

/-!
# QED: cluster geometry, offset checks and address translation

The QED image format (block/qed.h, qed.c, qed-cluster.c) maps a guest
position through a two-level table: the L1 table, at `l1_table_offset`,
holds file offsets of L2 tables, and an L2 table holds file offsets of data
clusters, 0 for an unallocated cluster and 1 for a zero cluster. Both tables
are `table_size` clusters long; clusters are `cluster_size` bytes. The
header validators accept cluster sizes that are powers of two from 4 KiB to
64 MiB and table sizes that are powers of two from 1 to 16.

The model follows the C functions with their integer widths: header fields
are `uint32_t`s and offsets `uint64_t`s (`BitVec 32`, `BitVec 64`), and a
product of two `uint32_t`s is taken in 32 bits as the C code takes it. The
tables are what the image file holds: `l1Table i` is L1 entry `i`, and
`l2Tables o` the L2 table read at file offset `o`; reads do not fail. The
request queues, the L2 cache, the timer and the backing file are left out.

Results:

* `isPow2InRange_iff` — what the two size validators accept, so that
  `clusterSize_eq_two_pow` and `tableSize_eq_two_pow` give the exponents,
  and `bdrvQedOpen_opened` — an opened image has the geometry
  `QedGeometry` these imply, a file of whole clusters and a valid L1 table;
* `toNat_qedStartOfCluster`, `toNat_qedOffsetIntoCluster`,
  `toNat_qedBytesToClusters` — the helpers as arithmetic; the last says
  `qed_bytes_to_clusters(b)` is `n + n / (cluster_size - 1)` for the
  `n = ⌈b / cluster_size⌉` clusters `b` bytes cover, since it divides by
  `cluster_size - 1`; so an allocating write of `n ≥ cluster_size - 1`
  clusters allocates and maps more than it writes
  (`qedWriteAllocNclusters_overcounts`);
* `qedCheckClusterOffset_iff` — a cluster offset is accepted iff it is
  aligned and in `[header_size * cluster_size, file_size)`;
  `qedCheckTableOffset_iff` — for tables of two clusters or more, iff the
  whole table is in the file; `qedCheckTableOffset_tableSize_one` — for a
  table of one cluster never: the overflow test `end_offset <= offset`
  holds when the table's last cluster is its first, so no image with
  `table_size = 1` opens;
* `toNat_qedL2Index`, `toNat_l1Limit` — the table index and the length
  limit of a lookup; `qedFindClusterCb_two_clusters` — a run is classified
  by its first entry alone, so `qedFindCluster_found_past_end` reports as
  found a chunk whose second cluster lies past the end of the file;
* `qedUpdateL2Table_of_not_mem`, `qedUpdateL2Table_of_mem` — which L2
  entries an allocating write sets, and to what.
-/

namespace QemuKvm.Qed

open BitVec

/-! ## Constants (block/qed.h) -/

def QED_MIN_CLUSTER_SIZE : BitVec 32 := 4 * 1024
def QED_MAX_CLUSTER_SIZE : BitVec 32 := 64 * 1024 * 1024
def QED_MIN_TABLE_SIZE : BitVec 32 := 1
def QED_MAX_TABLE_SIZE : BitVec 32 := 16
def BDRV_SECTOR_SIZE : BitVec 64 := 512

/-- The `MIN` macro of osdep.h. -/
def MIN (a b : BitVec w) : BitVec w :=
  if a < b then a else b

/-! ## State -/

/-- The header fields the cluster code reads. -/
structure QEDHeader where
  clusterSize : BitVec 32
  tableSize : BitVec 32
  headerSize : BitVec 32
  l1TableOffset : BitVec 64
  imageSize : BitVec 64
  deriving DecidableEq, Repr

/-- `BDRVQEDState` without the request queues, the timer and the L2 cache.
`l1Table` is the L1 table in memory and `l2Tables o` the L2 table the file
holds at offset `o`. -/
structure BDRVQEDState where
  fileSize : BitVec 64
  header : QEDHeader
  l1Table : ℕ → BitVec 64
  l2Tables : BitVec 64 → ℕ → BitVec 64
  tableNelems : BitVec 32
  l1Shift : BitVec 32
  l2Shift : BitVec 32
  l2Mask : BitVec 32

/-! ## Header validation (block/qed.c) -/

/-- A power of two in `[lo, hi]`, the test both size validators make. -/
def isPow2InRange (lo hi x : BitVec 32) : Bool :=
  if x < lo ∨ x > hi then false
  else if x &&& (x - 1) ≠ 0 then false
  else true

def qedIsClusterSizeValid (clusterSize : BitVec 32) : Bool :=
  isPow2InRange QED_MIN_CLUSTER_SIZE QED_MAX_CLUSTER_SIZE clusterSize

def qedIsTableSizeValid (tableSize : BitVec 32) : Bool :=
  isPow2InRange QED_MIN_TABLE_SIZE QED_MAX_TABLE_SIZE tableSize

/-- `qed_max_image_size`; `table_size * cluster_size` is a `uint32_t` product. -/
def qedMaxImageSize (clusterSize tableSize : BitVec 32) : BitVec 64 :=
  let tableEntries : BitVec 64 := (tableSize * clusterSize).setWidth 64 / 8
  let l2Size := tableEntries * clusterSize.setWidth 64
  l2Size * tableEntries

def qedIsImageSizeValid (imageSize : BitVec 64) (clusterSize tableSize : BitVec 32) : Bool :=
  if imageSize % BDRV_SECTOR_SIZE ≠ 0 then false
  else if imageSize > qedMaxImageSize clusterSize tableSize then false
  else true

/-! ## Cluster helpers (block/qed.h) -/

section Helpers
variable (s : BDRVQEDState)

/-- `(uint64_t)(cluster_size - 1)`. -/
def clusterMask : BitVec 64 :=
  (s.header.clusterSize - 1).setWidth 64

def qedStartOfCluster (offset : BitVec 64) : BitVec 64 :=
  offset &&& ~~~(clusterMask s)

def qedOffsetIntoCluster (offset : BitVec 64) : BitVec 64 :=
  offset &&& clusterMask s

/-- `qed_bytes_to_clusters`: rounds up to a cluster boundary, then divides
by `cluster_size - 1`. -/
def qedBytesToClusters (bytes : BitVec 64) : BitVec 64 :=
  qedStartOfCluster s (bytes + clusterMask s) / clusterMask s

def qedL1Index (pos : BitVec 64) : BitVec 32 :=
  (pos >>> s.l1Shift.toNat).setWidth 32

def qedL2Index (pos : BitVec 64) : BitVec 32 :=
  ((pos >>> s.l2Shift.toNat) &&& s.l2Mask.setWidth 64).setWidth 32

def qedCheckClusterOffset (offset : BitVec 64) : Bool :=
  let headerSize := s.header.headerSize.setWidth 64 * s.header.clusterSize.setWidth 64
  if offset &&& clusterMask s ≠ 0 then false
  else decide (headerSize ≤ offset) && decide (offset < s.fileSize)

/-- `qed_check_table_offset`; `(table_size - 1) * cluster_size` is a
`uint32_t` product. -/
def qedCheckTableOffset (offset : BitVec 64) : Bool :=
  let endOffset := offset + ((s.header.tableSize - 1) * s.header.clusterSize).setWidth 64
  -- the source's overflow check
  if endOffset ≤ offset then false
  else qedCheckClusterOffset s offset && qedCheckClusterOffset s endOffset

def qedOffsetIsClusterAligned (offset : BitVec 64) : Bool :=
  if qedOffsetIntoCluster s offset ≠ 0 then false else true

end Helpers

def qedOffsetIsUnallocCluster (offset : BitVec 64) : Bool :=
  offset = 0

def qedOffsetIsZeroCluster (offset : BitVec 64) : Bool :=
  offset = 1

/-! ## Opening an image -/

/-- The scan of `ffs` from bit `i`, with `fuel` bits left. -/
def ffsFrom (x : BitVec 32) (i : ℕ) : ℕ → ℕ
  | 0 => 0
  | fuel + 1 => if x.getLsbD i then i + 1 else ffsFrom x (i + 1) fuel

/-- `ffs`: one more than the index of the lowest set bit, 0 for 0. -/
def ffs (x : BitVec 32) : ℕ :=
  ffsFrom x 0 32

/-- The geometry `bdrv_qed_open` derives from the header. -/
def qedGeometry (s : BDRVQEDState) : BDRVQEDState :=
  let tableNelems := (s.header.clusterSize * s.header.tableSize) / 8
  let l2Shift : BitVec 32 := BitVec.ofNat 32 (ffs s.header.clusterSize) - 1
  { s with
    tableNelems := tableNelems
    l2Shift := l2Shift
    l2Mask := tableNelems - 1
    l1Shift := l2Shift + BitVec.ofNat 32 (ffs tableNelems) - 1 }

/-- `bdrv_qed_open` from the header on: the header checks, the file size
rounded down to a cluster, and the geometry. `none` is `-EINVAL`. The
magic, feature and backing-file checks are left out. -/
def bdrvQedOpen (header : QEDHeader) (fileLength : BitVec 64) (l1Table : ℕ → BitVec 64)
    (l2Tables : BitVec 64 → ℕ → BitVec 64) : Option BDRVQEDState :=
  if !qedIsClusterSizeValid header.clusterSize then none
  else
    let s : BDRVQEDState := ⟨0, header, l1Table, l2Tables, 0, 0, 0, 0⟩
    let s := { s with fileSize := qedStartOfCluster s fileLength }
    if !qedIsTableSizeValid header.tableSize then none
    else if !qedIsImageSizeValid header.imageSize header.clusterSize header.tableSize then none
    else if !qedCheckTableOffset s header.l1TableOffset then none
    else some (qedGeometry s)

/-! ## Address translation (block/qed-cluster.c) -/

/-- How `qed_find_cluster` classifies a run: `QED_CLUSTER_FOUND`,
`QED_CLUSTER_ZERO`, `QED_CLUSTER_L2`, `QED_CLUSTER_L1`, or `-EINVAL`. -/
inductive QedFindRet where
  | found
  | zero
  | l2
  | l1
  | einval
  deriving DecidableEq, Repr

/-- The loop of `qed_count_contiguous_clusters` from entry `i`, `fuel`
entries before `end`: it stops at the first entry not of the run's kind,
and returns where it stopped. -/
def countLoop (clusterSize : BitVec 64) (table : ℕ → BitVec 64) (last : BitVec 64) (i : ℕ) :
    ℕ → ℕ
  | 0 => i
  | fuel + 1 =>
    if qedOffsetIsUnallocCluster last then
      -- counting unallocated clusters
      if !qedOffsetIsUnallocCluster (table i) then i
      else countLoop clusterSize table last (i + 1) fuel
    else if qedOffsetIsZeroCluster last then
      -- counting zero clusters
      if !qedOffsetIsZeroCluster (table i) then i
      else countLoop clusterSize table last (i + 1) fuel
    else
      -- counting allocated clusters
      if table i ≠ last + clusterSize then i
      else countLoop clusterSize table (table i) (i + 1) fuel

/-- `qed_count_contiguous_clusters`: the length of the run from `index`,
at most `n` entries and not past the table, and its first offset. -/
def qedCountContiguousClusters (s : BDRVQEDState) (table : ℕ → BitVec 64) (index n : BitVec 32) :
    BitVec 32 × BitVec 64 :=
  let endI := MIN (index + n) s.tableNelems
  let last := table index.toNat
  let i := countLoop (s.header.clusterSize.setWidth 64) table last (index.toNat + 1)
    (endI.toNat - (index.toNat + 1))
  (BitVec.ofNat 32 i - index, last)

/-- `qed_find_cluster_cb` once the L2 table is read: the `(ret, offset,
len)` it passes on. The kind of the run is decided by its first entry;
`n * cluster_size` is a `uint32_t` product. -/
def qedFindClusterCb (s : BDRVQEDState) (table : ℕ → BitVec 64) (pos len : BitVec 64) :
    QedFindRet × BitVec 64 × BitVec 64 :=
  let index := qedL2Index s pos
  let n := (qedBytesToClusters s (qedOffsetIntoCluster s pos + len)).setWidth 32
  let (n, offset) := qedCountContiguousClusters s table index n
  let ret : QedFindRet :=
    if qedOffsetIsUnallocCluster offset then .l2
    else if qedOffsetIsZeroCluster offset then .zero
    else if qedCheckClusterOffset s offset then .found
    else .einval
  (ret, offset, MIN len ((n * s.header.clusterSize).setWidth 64 - qedOffsetIntoCluster s pos))

/-- `qed_find_cluster`: the `(ret, offset, len)` its callback receives. -/
def qedFindCluster (s : BDRVQEDState) (pos len : BitVec 64) : QedFindRet × BitVec 64 × BitVec 64 :=
  -- limit the length to the L2 boundary
  let len := MIN len ((((pos >>> s.l1Shift.toNat) + 1) <<< s.l1Shift.toNat) - pos)
  let l2Offset := s.l1Table (qedL1Index s pos).toNat
  if qedOffsetIsUnallocCluster l2Offset then (.l1, 0, len)
  else if !qedCheckTableOffset s l2Offset then (.einval, 0, 0)
  else qedFindClusterCb s (s.l2Tables l2Offset) pos len

/-! ## Allocating writes (block/qed.c) -/

/-- `acb->cur_nclusters` as `qed_aio_write_alloc` sets it for a chunk. -/
def qedWriteAllocNclusters (s : BDRVQEDState) (curPos len : BitVec 64) : BitVec 32 :=
  (qedBytesToClusters s (qedOffsetIntoCluster s curPos + len)).setWidth 32

/-- `qed_alloc_clusters`: the new clusters go at the end of the file;
`n * cluster_size` is a `uint32_t` product. -/
def qedAllocClusters (s : BDRVQEDState) (n : BitVec 32) : BitVec 64 × BDRVQEDState :=
  (s.fileSize, { s with fileSize := s.fileSize + (n * s.header.clusterSize).setWidth 64 })

/-- `qed_update_l2_table`: `n` entries from `index`, consecutive clusters
from `cluster` unless it is the unallocated or the zero marker. -/
def qedUpdateL2Table (clusterSize : BitVec 64) (table : ℕ → BitVec 64) (index : ℕ) :
    ℕ → BitVec 64 → ℕ → BitVec 64
  | 0, _ => table
  | n + 1, cluster =>
    let table := Function.update table index cluster
    let cluster :=
      if !qedOffsetIsUnallocCluster cluster && !qedOffsetIsZeroCluster cluster then
        cluster + clusterSize
      else cluster
    qedUpdateL2Table clusterSize table (index + 1) n cluster

/-! ## Valid headers -/

theorem isPow2InRange_iff {lo hi x : BitVec 32} (hlo : 0 < lo) :
    isPow2InRange lo hi x = true ↔ lo ≤ x ∧ x ≤ hi ∧ x.toNat.isPowerOfTwo := by
  unfold isPow2InRange
  by_cases hr : x < lo ∨ x > hi
  · rw [if_pos hr]
    constructor
    · intro h
      cases h
    · rintro ⟨hl, hh, -⟩
      rcases hr with hr | hr
      · exact absurd hl (BitVec.not_le.2 hr)
      · exact absurd hh (BitVec.not_le.2 hr)
  · rw [if_neg hr]
    have hb : lo ≤ x ∧ x ≤ hi :=
      ⟨BitVec.not_lt.1 (fun h => hr (Or.inl h)), BitVec.not_lt.1 (fun h => hr (Or.inr h))⟩
    have hx : x ≠ 0 := by
      rintro rfl
      exact absurd hb.1 (BitVec.not_le.2 hlo)
    simp only [hb, true_and, ← and_sub_one_eq_zero_iff hx]
    simp

/-- A valid cluster size is `2 ^ k` for `k` from 12 to 26. -/
theorem clusterSize_eq_two_pow {cs : BitVec 32} (h : qedIsClusterSizeValid cs = true) :
    ∃ k, 12 ≤ k ∧ k ≤ 26 ∧ cs.toNat = 2 ^ k := by
  rw [qedIsClusterSizeValid, isPow2InRange_iff (by decide)] at h
  obtain ⟨hlo, hhi, k, hk⟩ := h
  rw [le_def, hk] at hlo hhi
  refine ⟨k, ?_, ?_, hk⟩
  · exact (Nat.pow_le_pow_iff_right (by decide)).1 (le_trans (by decide) hlo)
  · exact (Nat.pow_le_pow_iff_right (by decide)).1 (le_trans hhi (by decide))

/-- A valid table size is `2 ^ t` for `t` from 0 to 4. -/
theorem tableSize_eq_two_pow {ts : BitVec 32} (h : qedIsTableSizeValid ts = true) :
    ∃ t, t ≤ 4 ∧ ts.toNat = 2 ^ t := by
  rw [qedIsTableSizeValid, isPow2InRange_iff (by decide)] at h
  obtain ⟨-, hhi, t, ht⟩ := h
  rw [le_def, ht] at hhi
  exact ⟨t, (Nat.pow_le_pow_iff_right (by decide)).1 (le_trans hhi (by decide)), ht⟩

/-! ## The helpers as arithmetic

For a cluster size `2 ^ k` the masks are `2 ^ k - 1` and its complement,
so the helpers are remainder, round-down and division. -/

/-- `n` clusters of `c` bytes divided by `c - 1`: the count plus one for
every `c - 1` clusters. -/
theorem mul_div_pred (n : ℕ) {c : ℕ} (hc : 1 < c) : n * c / (c - 1) = n + n / (c - 1) := by
  obtain ⟨d, rfl⟩ : ∃ d, c = d + 1 := ⟨c - 1, by omega⟩
  rw [Nat.add_sub_cancel, Nat.mul_succ, Nat.mul_comm, Nat.add_comm, Nat.add_mul_div_left _ _ (by omega),
    Nat.add_comm]

/-- Of two multiples of `P`, the smaller is a whole `P` below the larger. -/
theorem lt_iff_add_le_of_mod_eq_zero {P a b : ℕ} (hP : 0 < P) (ha : a % P = 0) (hb : b % P = 0) :
    a < b ↔ a + P ≤ b := by
  obtain ⟨a', rfl⟩ := Nat.dvd_of_mod_eq_zero ha
  obtain ⟨b', rfl⟩ := Nat.dvd_of_mod_eq_zero hb
  rw [Nat.mul_lt_mul_left hP, ← Nat.mul_succ, Nat.mul_le_mul_left_iff hP]
  omega

section Helpers
variable {s : BDRVQEDState} {k : ℕ}

theorem clusterBits_lt (hk : s.header.clusterSize.toNat = 2 ^ k) : k < 32 := by
  have h := s.header.clusterSize.isLt
  rw [hk] at h
  exact (Nat.pow_lt_pow_iff_right (by decide)).1 h

theorem toNat_clusterMask (hk : s.header.clusterSize.toNat = 2 ^ k) :
    (clusterMask s).toNat = 2 ^ k - 1 := by
  have h1 : (1 : BitVec 32) ≤ s.header.clusterSize := by
    rw [le_def, hk]
    exact Nat.one_le_two_pow
  have hlt : 2 ^ k < 2 ^ 64 := Nat.pow_lt_pow_right (by decide) (by have := clusterBits_lt hk; omega)
  rw [clusterMask, toNat_setWidth, toNat_sub_of_le h1, hk, show (1 : BitVec 32).toNat = 1 from rfl]
  exact Nat.mod_eq_of_lt (by omega)

theorem getLsbD_clusterMask (hk : s.header.clusterSize.toNat = 2 ^ k) (i : ℕ) :
    (clusterMask s).getLsbD i = decide (i < k) := by
  rw [← testBit_toNat, toNat_clusterMask hk, Nat.testBit_two_pow_sub_one]

theorem not_clusterMask (hk : s.header.clusterSize.toNat = 2 ^ k) :
    ~~~(clusterMask s) = highMask 64 k := by
  ext i hi
  simp only [← getLsbD_eq_getElem, getLsbD_not, getLsbD_clusterMask hk, getLsbD_highMask]
  by_cases hik : i < k
  · simp [hik]
  · simp [hik, hi]
    omega

theorem toNat_qedOffsetIntoCluster (hk : s.header.clusterSize.toNat = 2 ^ k) (x : BitVec 64) :
    (qedOffsetIntoCluster s x).toNat = x.toNat % 2 ^ k := by
  rw [qedOffsetIntoCluster, toNat_and, toNat_clusterMask hk, Nat.and_two_pow_sub_one_eq_mod]

theorem toNat_qedStartOfCluster (hk : s.header.clusterSize.toNat = 2 ^ k) (x : BitVec 64) :
    (qedStartOfCluster s x).toNat = x.toNat / 2 ^ k * 2 ^ k := by
  rw [qedStartOfCluster, not_clusterMask hk, toNat_and_highMask]

/-- `qed_bytes_to_clusters(b)` is not the `n = ⌈b / 2 ^ k⌉` clusters `b`
bytes cover but `n + n / (2 ^ k - 1)`. -/
theorem toNat_qedBytesToClusters (hk : s.header.clusterSize.toNat = 2 ^ k) (hk1 : 0 < k)
    {b : BitVec 64} (hb : b.toNat + 2 ^ k - 1 < 2 ^ 64) :
    (qedBytesToClusters s b).toNat =
      (b.toNat + 2 ^ k - 1) / 2 ^ k + (b.toNat + 2 ^ k - 1) / 2 ^ k / (2 ^ k - 1) := by
  have h1 : 1 < 2 ^ k := Nat.one_lt_two_pow (by omega)
  rw [qedBytesToClusters, toNat_udiv, toNat_qedStartOfCluster hk, toNat_add, toNat_clusterMask hk,
    ← Nat.add_sub_assoc (by omega), Nat.mod_eq_of_lt hb, mul_div_pred _ h1]

/-- For the cluster at an aligned offset `c * 2 ^ k` the count is the
index `c + c / (2 ^ k - 1)`. -/
theorem toNat_qedBytesToClusters_aligned (hk : s.header.clusterSize.toNat = 2 ^ k) (hk1 : 0 < k)
    {o : BitVec 64} (ho : o.toNat % 2 ^ k = 0) :
    (qedBytesToClusters s o).toNat = o.toNat / 2 ^ k + o.toNat / 2 ^ k / (2 ^ k - 1) := by
  have hpos : 0 < 2 ^ k := Nat.two_pow_pos k
  have h64 : 2 ^ 64 % 2 ^ k = 0 :=
    Nat.mod_eq_zero_of_dvd (Nat.pow_dvd_pow 2 (by have := clusterBits_lt hk; omega))
  have hfit : o.toNat + 2 ^ k ≤ 2 ^ 64 := (lt_iff_add_le_of_mod_eq_zero hpos ho h64).1 o.isLt
  have hq : (o.toNat + 2 ^ k - 1) / 2 ^ k = o.toNat / 2 ^ k := by
    obtain ⟨q, hq⟩ := Nat.dvd_of_mod_eq_zero ho
    rw [hq, Nat.add_sub_assoc Nat.one_le_two_pow, Nat.mul_add_div hpos,
      Nat.div_eq_of_lt (by omega), Nat.add_zero, Nat.mul_div_cancel_left _ hpos]
  rw [toNat_qedBytesToClusters hk hk1 (by omega), hq]

end Helpers

/-! ## The geometry of an open image -/

/-- `ffsFrom` finds the lowest set bit `k` when the scan starts at or
below it and runs past it. -/
theorem ffsFrom_eq {x : BitVec 32} {k : ℕ} (hk : x.getLsbD k = true)
    (hlow : ∀ j < k, x.getLsbD j = false) :
    ∀ fuel i, i ≤ k → k < i + fuel → ffsFrom x i fuel = k + 1 := by
  intro fuel
  induction fuel with
  | zero =>
    intro i hi hkf
    omega
  | succ fuel ih =>
    intro i hi hkf
    rw [ffsFrom]
    by_cases hik : i = k
    · subst hik
      rw [if_pos hk]
    · rw [if_neg (by simp [hlow i (by omega)]), ih (i + 1) (by omega) (by omega)]

theorem ffs_two_pow {x : BitVec 32} {k : ℕ} (hx : x.toNat = 2 ^ k) (hk : k < 32) :
    ffs x = k + 1 :=
  ffsFrom_eq (by rw [← testBit_toNat, hx, Nat.testBit_two_pow_self])
    (fun j hj => by rw [← testBit_toNat, hx, Nat.testBit_two_pow_of_ne (by omega)])
    32 0 (by omega) (by omega)

/-- What `bdrv_qed_open` establishes for a cluster size `2 ^ k` and a
table size `2 ^ t`: a table holds `2 ^ (k + t - 3)` eight-byte entries, so
an L2 table covers `2 ^ (k + (k + t - 3))` bytes. -/
structure QedGeometry (s : BDRVQEDState) (k t : ℕ) : Prop where
  clusterSize : s.header.clusterSize.toNat = 2 ^ k
  tableSize : s.header.tableSize.toNat = 2 ^ t
  clusterBits_ge : 12 ≤ k
  clusterBits_le : k ≤ 26
  tableBits_le : t ≤ 4
  tableNelems : s.tableNelems.toNat = 2 ^ (k + t - 3)
  l2Shift : s.l2Shift.toNat = k
  l2Mask : s.l2Mask.toNat = 2 ^ (k + t - 3) - 1
  l1Shift : s.l1Shift.toNat = k + (k + t - 3)

theorem qedGeometry_geometry {s : BDRVQEDState} {k t : ℕ}
    (hk : s.header.clusterSize.toNat = 2 ^ k) (hk12 : 12 ≤ k) (hk26 : k ≤ 26)
    (ht : s.header.tableSize.toNat = 2 ^ t) (ht4 : t ≤ 4) :
    QedGeometry (qedGeometry s) k t := by
  have hn : ((s.header.clusterSize * s.header.tableSize) / 8).toNat = 2 ^ (k + t - 3) := by
    rw [toNat_udiv, toNat_mul, hk, ht, ← Nat.pow_add,
      Nat.mod_eq_of_lt (Nat.pow_lt_pow_right (by decide) (by omega))]
    exact Nat.pow_div (show 3 ≤ k + t by omega) (by decide : 0 < 2)
  have hffs := ffs_two_pow hk (by omega)
  have hffsn := ffs_two_pow hn (by omega)
  have hpos : 1 ≤ 2 ^ (k + t - 3) := Nat.one_le_two_pow
  refine ⟨hk, ht, hk12, hk26, ht4, hn, ?_, ?_, ?_⟩
  · simp only [qedGeometry, hffs]
    bv_omega
  · simp only [qedGeometry]
    rw [toNat_sub_of_le (by rw [le_def, hn]; exact hpos), hn]
    rfl
  · simp only [qedGeometry, hffs, hffsn]
    have hlt : k + t - 3 + 1 < 2 ^ 32 := by omega
    bv_omega

section Geometry
variable {s : BDRVQEDState} {k t : ℕ}

theorem QedGeometry.tableBits_lt (g : QedGeometry s k t) : k + t - 3 < 32 := by
  have := g.clusterBits_le
  have := g.tableBits_le
  omega

theorem toNat_qedL2Index (g : QedGeometry s k t) (pos : BitVec 64) :
    (qedL2Index s pos).toNat = pos.toNat / 2 ^ k % 2 ^ (k + t - 3) := by
  have hm : 2 ^ (k + t - 3) ≤ 2 ^ 32 := Nat.pow_le_pow_right (by decide) g.tableBits_lt.le
  have hmask : s.l2Mask.toNat % 2 ^ 64 = 2 ^ (k + t - 3) - 1 := by
    rw [g.l2Mask]
    exact Nat.mod_eq_of_lt (by omega)
  rw [qedL2Index, toNat_setWidth, toNat_and, toNat_ushiftRight, g.l2Shift, toNat_setWidth, hmask,
    Nat.shiftRight_eq_div_pow, Nat.and_two_pow_sub_one_eq_mod,
    Nat.mod_eq_of_lt (lt_of_lt_of_le (Nat.mod_lt _ (Nat.two_pow_pos _)) hm)]

/-- The length `qed_find_cluster` allows at `pos`, to the end of the
coverage of `pos`'s L1 entry: the rest of its cluster and of the L2 table. -/
theorem toNat_l1Limit (g : QedGeometry s k t) (pos : BitVec 64) :
    ((((pos >>> s.l1Shift.toNat) + 1) <<< s.l1Shift.toNat) - pos).toNat =
      (2 ^ (k + t - 3) - (qedL2Index s pos).toNat) * 2 ^ k - (qedOffsetIntoCluster s pos).toNat := by
  have hL : k + (k + t - 3) < 64 := by
    have := g.clusterBits_le
    have := g.tableBits_le
    omega
  rw [g.l1Shift, ofNat_eq_ofNat, toNat_nextBoundary_sub hL, toNat_qedL2Index g, toNat_qedOffsetIntoCluster g.clusterSize,
    Nat.pow_add, Nat.mod_mul, Nat.sub_mul]
  have hi : (pos.toNat / 2 ^ k % 2 ^ (k + t - 3) + 1) * 2 ^ k ≤ 2 ^ (k + t - 3) * 2 ^ k :=
    Nat.mul_le_mul_right _ (Nat.mod_lt _ (Nat.two_pow_pos _))
  rw [Nat.add_mul, one_mul] at hi
  rw [Nat.mul_comm (2 ^ k) (2 ^ (k + t - 3)), Nat.mul_comm (2 ^ k) (pos.toNat / 2 ^ k % _)]
  omega

end Geometry

/-! ## Offset checks -/

section Checks
variable {s : BDRVQEDState} {k : ℕ}

theorem toNat_headerBytes (hk : s.header.clusterSize.toNat = 2 ^ k) :
    (s.header.headerSize.setWidth 64 * s.header.clusterSize.setWidth 64).toNat =
      s.header.headerSize.toNat * 2 ^ k := by
  have h1 := s.header.headerSize.isLt
  have h2 : 2 ^ k < 2 ^ 32 := hk ▸ s.header.clusterSize.isLt
  have hprod : s.header.headerSize.toNat * 2 ^ k < 2 ^ 64 :=
    calc _ < 2 ^ 32 * 2 ^ 32 := Nat.mul_lt_mul'' h1 h2
      _ = 2 ^ 64 := by rw [← Nat.pow_add]
  rw [toNat_mul, toNat_setWidth, toNat_setWidth, hk,
    Nat.mod_eq_of_lt (show s.header.headerSize.toNat < 2 ^ 64 by omega),
    Nat.mod_eq_of_lt (show 2 ^ k < 2 ^ 64 by omega), Nat.mod_eq_of_lt hprod]

theorem qedCheckClusterOffset_iff (hk : s.header.clusterSize.toNat = 2 ^ k) (o : BitVec 64) :
    qedCheckClusterOffset s o = true ↔
      o.toNat % 2 ^ k = 0 ∧ s.header.headerSize.toNat * 2 ^ k ≤ o.toNat ∧
        o.toNat < s.fileSize.toNat := by
  have hm : o &&& clusterMask s = 0 ↔ o.toNat % 2 ^ k = 0 := by
    show qedOffsetIntoCluster s o = 0 ↔ _
    rw [← toNat_inj, toNat_qedOffsetIntoCluster hk]
    rfl
  rw [qedCheckClusterOffset]
  by_cases h0 : o &&& clusterMask s = 0
  · rw [if_neg (not_not.2 h0)]
    simp [hm.1 h0, le_def, lt_def, toNat_headerBytes hk]
  · rw [if_pos h0]
    simp only [Bool.false_eq_true, false_iff]
    rintro ⟨h, -, -⟩
    exact absurd (hm.2 h) h0

/-- With one-cluster tables the table's last cluster is its first, and the
overflow test `end_offset <= offset` holds for every offset. -/
theorem qedCheckTableOffset_one_cluster (hts : s.header.tableSize = 1) (o : BitVec 64) :
    qedCheckTableOffset s o = false := by
  have hend : o + ((s.header.tableSize - 1) * s.header.clusterSize).setWidth 64 = o := by
    simp [hts]
  rw [qedCheckTableOffset]
  simp only [hend, BitVec.le_refl, ↓reduceIte]

/-- For tables of two clusters or more, and a file size that is a whole
number of clusters as the driver keeps it, a table offset is accepted iff
the whole table lies in the file behind the header. -/
theorem qedCheckTableOffset_iff (hk : s.header.clusterSize.toNat = 2 ^ k) {t : ℕ}
    (ht : s.header.tableSize.toNat = 2 ^ t) (ht1 : 1 ≤ t) (ht4 : t ≤ 4) (hk26 : k ≤ 26)
    (hfs : s.fileSize.toNat % 2 ^ k = 0) (o : BitVec 64) :
    qedCheckTableOffset s o = true ↔
      o.toNat % 2 ^ k = 0 ∧ s.header.headerSize.toNat * 2 ^ k ≤ o.toNat ∧
        o.toNat + 2 ^ t * 2 ^ k ≤ s.fileSize.toNat := by
  have ht2 : 2 ^ 1 ≤ 2 ^ t := Nat.pow_le_pow_right (by decide) ht1
  have htk : 2 ^ t * 2 ^ k ≤ 2 ^ 30 := by
    rw [← Nat.pow_add]
    exact Nat.pow_le_pow_right (by decide) (by omega)
  have hkpos : 0 < 2 ^ k := Nat.two_pow_pos k
  have hdk : (2 ^ t - 1) * 2 ^ k + 2 ^ k = 2 ^ t * 2 ^ k := by
    rw [Nat.sub_one_mul, Nat.sub_add_cancel (Nat.le_mul_of_pos_left _ (by omega))]
  have hd : (((s.header.tableSize - 1) * s.header.clusterSize).setWidth 64).toNat =
      (2 ^ t - 1) * 2 ^ k := by
    have h1 : (1 : BitVec 32) ≤ s.header.tableSize := by
      rw [le_def, ht]
      exact Nat.one_le_two_pow
    rw [toNat_setWidth, toNat_mul, toNat_sub_of_le h1, ht, hk,
      show (1 : BitVec 32).toNat = 1 from rfl, Nat.mod_eq_of_lt (by omega),
      Nat.mod_eq_of_lt (by omega)]
  have hdmod : (2 ^ t - 1) * 2 ^ k % 2 ^ k = 0 := Nat.mul_mod_left _ _
  have hdpos : 0 < (2 ^ t - 1) * 2 ^ k := Nat.mul_pos (by omega) hkpos
  have hfsl := s.fileSize.isLt
  rw [qedCheckTableOffset]
  by_cases hwrap : o.toNat + (2 ^ t - 1) * 2 ^ k < 2 ^ 64
  · -- the table's last cluster is at `o + (table_size - 1) * cluster_size`
    have hend : (o + ((s.header.tableSize - 1) * s.header.clusterSize).setWidth 64).toNat =
        o.toNat + (2 ^ t - 1) * 2 ^ k := by
      rw [toNat_add, hd, Nat.mod_eq_of_lt hwrap]
    have hnle : ¬(o + ((s.header.tableSize - 1) * s.header.clusterSize).setWidth 64 ≤ o) := by
      rw [le_def, hend]
      omega
    rw [if_neg hnle, Bool.and_eq_true, qedCheckClusterOffset_iff hk,
      qedCheckClusterOffset_iff hk, hend]
    constructor
    · rintro ⟨⟨ha, hh, -⟩, hend_al, -, hlt⟩
      rw [lt_iff_add_le_of_mod_eq_zero hkpos hend_al hfs] at hlt
      exact ⟨ha, hh, by omega⟩
    · rintro ⟨ha, hh, hle⟩
      have hend_al : (o.toNat + (2 ^ t - 1) * 2 ^ k) % 2 ^ k = 0 := by
        rw [Nat.add_mod, ha, hdmod, Nat.add_zero, Nat.zero_mod]
      exact ⟨⟨ha, hh, by omega⟩, hend_al, by omega, by omega⟩
  · -- the sum wraps: the end offset is below the start, and no table fits
    have hend : (o + ((s.header.tableSize - 1) * s.header.clusterSize).setWidth 64).toNat ≤
        o.toNat := by
      rw [toNat_add, hd]
      omega
    rw [if_pos (le_def.2 hend)]
    simp only [Bool.false_eq_true, false_iff]
    rintro ⟨-, -, hle⟩
    omega

end Checks

/-! ## Opening -/

/-- What `bdrv_qed_open` guarantees of the state it returns: the header
it was given, the geometry of valid sizes, a file size of whole clusters
and an L1 table that passes `qed_check_table_offset`. -/
theorem bdrvQedOpen_opened {header : QEDHeader} {fileLength : BitVec 64} {l1Table : ℕ → BitVec 64}
    {l2Tables : BitVec 64 → ℕ → BitVec 64} {s : BDRVQEDState}
    (h : bdrvQedOpen header fileLength l1Table l2Tables = some s) :
    s.header = header ∧ (∃ k t, QedGeometry s k t ∧ s.fileSize.toNat % 2 ^ k = 0) ∧
      qedCheckTableOffset s s.header.l1TableOffset = true := by
  unfold bdrvQedOpen at h
  split at h
  · cases h
  split at h
  · cases h
  split at h
  · cases h
  dsimp only at h
  split at h
  · cases h
  rename_i hcs hts _ hl1
  cases h
  obtain ⟨k, hk12, hk26, hk⟩ := clusterSize_eq_two_pow (by simpa using hcs)
  obtain ⟨t, ht4, ht⟩ := tableSize_eq_two_pow (by simpa using hts)
  refine ⟨rfl, ⟨k, t, qedGeometry_geometry hk hk12 hk26 ht ht4, ?_⟩, ?_⟩
  · show (qedStartOfCluster _ fileLength).toNat % 2 ^ k = 0
    rw [toNat_qedStartOfCluster hk]
    exact Nat.mul_mod_left _ _
  · -- the check reads only the header and the file size, which the geometry keeps
    simp only [Bool.not_eq_eq_eq_not, Bool.not_true, Bool.not_eq_false] at hl1
    exact hl1

theorem bdrvQedOpen_tableSize_one (header : QEDHeader) (fileLength : BitVec 64)
    (l1Table : ℕ → BitVec 64) (l2Tables : BitVec 64 → ℕ → BitVec 64) (hts : header.tableSize = 1) :
    bdrvQedOpen header fileLength l1Table l2Tables = none := by
  cases h : bdrvQedOpen header fileLength l1Table l2Tables with
  | none => rfl
  | some s =>
    obtain ⟨hhdr, -, hl1⟩ := bdrvQedOpen_opened h
    rw [qedCheckTableOffset_one_cluster (by rw [hhdr, hts])] at hl1
    cases hl1

/-- A table size of one cluster passes `qed_is_table_size_valid`, but
`qed_check_table_offset` then rejects every offset, so no such image
opens. -/
theorem qedCheckTableOffset_tableSize_one (s : BDRVQEDState) (hts : s.header.tableSize = 1) :
    qedIsTableSizeValid s.header.tableSize = true ∧ (∀ o, qedCheckTableOffset s o = false) ∧
      ∀ fileLength, bdrvQedOpen s.header fileLength s.l1Table s.l2Tables = none := by
  refine ⟨by rw [hts]; decide, qedCheckTableOffset_one_cluster hts, ?_⟩
  intro fileLength
  exact bdrvQedOpen_tableSize_one _ _ _ _ hts

/-- A 4 KiB-cluster image with one-cluster tables, its L1 table in the
cluster after the header. -/
theorem qedCheckTableOffset_tableSize_one_fourK :
    let s : BDRVQEDState :=
      ⟨0x10000, ⟨0x1000, 1, 1, 0x1000, 0x100000⟩, fun _ => 0, fun _ _ => 0, 0, 0, 0, 0⟩
    s.header.tableSize = 1 ∧
      (qedIsTableSizeValid s.header.tableSize = true ∧ (∀ o, qedCheckTableOffset s o = false) ∧
        ∀ fileLength, bdrvQedOpen s.header fileLength s.l1Table s.l2Tables = none) := by
  intro s
  exact ⟨rfl, qedCheckTableOffset_tableSize_one s rfl⟩

/-! ## Address translation -/

theorem MIN_eq_left {w : ℕ} {a b : BitVec w} (h : a ≤ b) : MIN a b = a := by
  unfold MIN
  by_cases hab : a < b
  · rw [if_pos hab]
  · rw [if_neg hab]
    rw [lt_def] at hab
    rw [le_def] at h
    exact eq_of_toNat_eq (by omega)

section Translation
variable {s : BDRVQEDState} {k t : ℕ}

/-- A request that ends in the cluster after `pos`'s, where the two L2
entries are consecutive offsets `e` and `e + cluster_size`, is one run:
`qed_find_cluster_cb` reports it found at `e` with the whole length. It
checks `e` alone; the second offset is never checked. -/
theorem qedFindClusterCb_two_clusters (g : QedGeometry s k t) (table : ℕ → BitVec 64)
    (pos len : BitVec 64) {e : BitVec 64} (he : table (qedL2Index s pos).toNat = e) (he0 : e ≠ 0)
    (hev : qedCheckClusterOffset s e = true)
    (hnext : table ((qedL2Index s pos).toNat + 1) = e + s.header.clusterSize.setWidth 64)
    (hidx : (qedL2Index s pos).toNat + 1 < s.tableNelems.toNat)
    (hlen : 2 ^ k < (qedOffsetIntoCluster s pos).toNat + len.toNat)
    (hlen2 : (qedOffsetIntoCluster s pos).toNat + len.toNat ≤ 2 * 2 ^ k) :
    qedFindClusterCb s table pos len = (.found, e, len) := by
  have hk := g.clusterSize
  have hk12 := g.clusterBits_ge
  have hk26 := g.clusterBits_le
  have hkbig : 2 ^ 12 ≤ 2 ^ k := Nat.pow_le_pow_right (by decide) hk12
  have hksmall : 2 ^ k ≤ 2 ^ 26 := Nat.pow_le_pow_right (by decide) hk26
  have hoff : (qedOffsetIntoCluster s pos).toNat < 2 ^ k := by
    rw [toNat_qedOffsetIntoCluster hk]
    exact Nat.mod_lt _ (Nat.two_pow_pos k)
  have hsum : (qedOffsetIntoCluster s pos + len).toNat =
      (qedOffsetIntoCluster s pos).toNat + len.toNat := by
    rw [toNat_add, Nat.mod_eq_of_lt (by omega)]
  -- the request covers two clusters, and `qed_bytes_to_clusters` says two
  have hn : (qedBytesToClusters s (qedOffsetIntoCluster s pos + len)).setWidth 32 = 2#32 := by
    have hceil : ((qedOffsetIntoCluster s pos).toNat + len.toNat + 2 ^ k - 1) / 2 ^ k = 2 :=
      Nat.div_eq_of_lt_le (by omega) (by omega)
    apply eq_of_toNat_eq
    rw [toNat_setWidth, toNat_qedBytesToClusters hk (by omega) (by rw [hsum]; omega), hsum, hceil,
      Nat.div_eq_of_lt (show 2 < 2 ^ k - 1 by omega)]
    rfl
  -- the run ends two entries on, inside the table
  have hidx2 : (qedL2Index s pos + 2#32).toNat = (qedL2Index s pos).toNat + 2 := by
    have := s.tableNelems.isLt
    rw [toNat_add, show (2#32).toNat = 2 from rfl, Nat.mod_eq_of_lt (by omega)]
  have hend : MIN (qedL2Index s pos + 2#32) s.tableNelems = qedL2Index s pos + 2#32 := by
    apply MIN_eq_left
    rw [le_def, hidx2]
    omega
  have he1 : e ≠ 1 := by
    rintro rfl
    obtain ⟨h0, -, -⟩ := (qedCheckClusterOffset_iff hk 1).1 hev
    rw [show (1 : BitVec 64).toNat = 1 from rfl, Nat.mod_eq_of_lt (by omega)] at h0
    cases h0
  have hu : ¬qedOffsetIsUnallocCluster e = true := by simpa [qedOffsetIsUnallocCluster] using he0
  have hz : ¬qedOffsetIsZeroCluster e = true := by simpa [qedOffsetIsZeroCluster] using he1
  have hloop : countLoop (s.header.clusterSize.setWidth 64) table e ((qedL2Index s pos).toNat + 1) 1 =
      (qedL2Index s pos).toNat + 2 := by
    rw [countLoop, if_neg hu, if_neg hz, if_neg (not_not.2 hnext), countLoop]
  have hcount : qedCountContiguousClusters s table (qedL2Index s pos) 2#32 = (2#32, e) := by
    have hle : qedL2Index s pos ≤ BitVec.ofNat 32 ((qedL2Index s pos).toNat + 2) := by
      rw [le_def, toNat_ofNat, Nat.mod_eq_of_lt (by have := s.tableNelems.isLt; omega)]
      omega
    rw [qedCountContiguousClusters, hend, he, hidx2,
      show (qedL2Index s pos).toNat + 2 - ((qedL2Index s pos).toNat + 1) = 1 by omega, hloop]
    congr 1
    apply eq_of_toNat_eq
    rw [toNat_sub_of_le hle, toNat_ofNat, Nat.mod_eq_of_lt (by have := s.tableNelems.isLt; omega)]
    simp
  -- the length is limited to the two clusters, which the request does not pass
  have hlim : len ≤ (2#32 * s.header.clusterSize).setWidth 64 - qedOffsetIntoCluster s pos := by
    have h2k : ((2#32 * s.header.clusterSize).setWidth 64).toNat = 2 * 2 ^ k := by
      rw [toNat_setWidth, toNat_mul, hk, show (2#32).toNat = 2 from rfl,
        Nat.mod_eq_of_lt (show 2 * 2 ^ k < 2 ^ 32 by omega), Nat.mod_eq_of_lt (by omega)]
    rw [le_def, toNat_sub_of_le (by rw [le_def, h2k]; omega), h2k]
    omega
  simp only [qedFindClusterCb, hn, hcount, if_neg hu, if_neg hz, hev, ↓reduceIte, MIN_eq_left hlim]

/-- `qed_find_cluster` reports a two-cluster run as found when its first
offset `e` is valid and the second is `e + cluster_size`, also when that
second offset is the end of the file, which `qed_check_cluster_offset`
rejects: the chunk then reaches past the end of the file. -/
theorem qedFindCluster_found_past_end (g : QedGeometry s k t) (pos len : BitVec 64)
    {l2Offset e : BitVec 64} (hl1 : s.l1Table (qedL1Index s pos).toNat = l2Offset)
    (hl1n : l2Offset ≠ 0) (hl2 : qedCheckTableOffset s l2Offset = true)
    (he : s.l2Tables l2Offset (qedL2Index s pos).toNat = e) (he0 : e ≠ 0)
    (hev : qedCheckClusterOffset s e = true)
    (hnext : s.l2Tables l2Offset ((qedL2Index s pos).toNat + 1) = e + s.header.clusterSize.setWidth 64)
    (heof : e + s.header.clusterSize.setWidth 64 = s.fileSize)
    (hidx : (qedL2Index s pos).toNat + 1 < s.tableNelems.toNat)
    (hlen : 2 ^ k < (qedOffsetIntoCluster s pos).toNat + len.toNat)
    (hlen2 : (qedOffsetIntoCluster s pos).toNat + len.toNat ≤ 2 * 2 ^ k) :
    qedFindCluster s pos len = (.found, e, len) ∧
      qedCheckClusterOffset s (s.l2Tables l2Offset ((qedL2Index s pos).toNat + 1)) = false := by
  have hk := g.clusterSize
  constructor
  · -- the L1 entry's coverage reaches past the two clusters
    have hlim : len ≤ (((pos >>> s.l1Shift.toNat) + 1) <<< s.l1Shift.toNat) - pos := by
      have hle : ((qedL2Index s pos).toNat + 2) * 2 ^ k ≤ 2 ^ (k + t - 3) * 2 ^ k :=
        Nat.mul_le_mul_right _ (by rw [← g.tableNelems]; omega)
      rw [le_def, toNat_l1Limit g, Nat.sub_mul]
      rw [Nat.add_mul] at hle
      omega
    have hu : ¬qedOffsetIsUnallocCluster l2Offset = true := by
      simpa [qedOffsetIsUnallocCluster] using hl1n
    simp only [qedFindCluster, MIN_eq_left hlim, hl1, if_neg hu, hl2, Bool.not_true,
      Bool.false_eq_true, ↓reduceIte]
    exact qedFindClusterCb_two_clusters g _ pos len he he0 hev hnext hidx hlen hlen2
  · rw [hnext, heof]
    apply Bool.eq_false_iff.2
    intro h
    rw [qedCheckClusterOffset_iff hk] at h
    exact Nat.lt_irrefl _ h.2.2

end Translation

/-- An image of 4 KiB clusters and four-cluster tables, ten clusters long:
the header, the L1 table at 0x1000, one L2 table at 0x5000, and a data
cluster at 0x9000 whose successor entry points at the end of the file. -/
theorem qedFindCluster_found_past_end_fourK :
    let s := qedGeometry ⟨0xa000, ⟨0x1000, 4, 1, 0x1000, 0x100000⟩,
      fun i => if i = 0 then 0x5000 else 0,
      fun o i => if o = 0x5000 ∧ i = 0 then 0x9000 else if o = 0x5000 ∧ i = 1 then 0xa000 else 0,
      0, 0, 0, 0⟩
    QedGeometry s 12 2 ∧ s.l1Table (qedL1Index s 0).toNat = 0x5000 ∧ (0x5000 : BitVec 64) ≠ 0 ∧
      qedCheckTableOffset s 0x5000 = true ∧ s.l2Tables 0x5000 (qedL2Index s 0).toNat = 0x9000 ∧
      (0x9000 : BitVec 64) ≠ 0 ∧ qedCheckClusterOffset s 0x9000 = true ∧
      s.l2Tables 0x5000 ((qedL2Index s 0).toNat + 1) = 0x9000 + s.header.clusterSize.setWidth 64 ∧
      0x9000 + s.header.clusterSize.setWidth 64 = s.fileSize ∧
      (qedL2Index s 0).toNat + 1 < s.tableNelems.toNat ∧
      2 ^ 12 < (qedOffsetIntoCluster s 0).toNat + (0x2000 : BitVec 64).toNat ∧
      (qedOffsetIntoCluster s 0).toNat + (0x2000 : BitVec 64).toNat ≤ 2 * 2 ^ 12 ∧
      (qedFindCluster s 0 0x2000 = (.found, 0x9000, 0x2000) ∧
        qedCheckClusterOffset s (s.l2Tables 0x5000 ((qedL2Index s 0).toNat + 1)) = false) := by
  intro s
  have g : QedGeometry s 12 2 :=
    qedGeometry_geometry (by decide) (by decide) (by decide) (by decide) (by decide)
  have hl1 : s.l1Table (qedL1Index s 0).toNat = 0x5000 := by decide
  have hl2 : qedCheckTableOffset s 0x5000 = true := by decide
  have he : s.l2Tables 0x5000 (qedL2Index s 0).toNat = 0x9000 := by decide
  have hev : qedCheckClusterOffset s 0x9000 = true := by decide
  have hnext : s.l2Tables 0x5000 ((qedL2Index s 0).toNat + 1) =
      0x9000 + s.header.clusterSize.setWidth 64 := by decide
  have heof : 0x9000 + s.header.clusterSize.setWidth 64 = s.fileSize := by decide
  have hidx : (qedL2Index s 0).toNat + 1 < s.tableNelems.toNat := by decide
  have hlen : 2 ^ 12 < (qedOffsetIntoCluster s 0).toNat + (0x2000 : BitVec 64).toNat := by decide
  have hlen2 : (qedOffsetIntoCluster s 0).toNat + (0x2000 : BitVec 64).toNat ≤ 2 * 2 ^ 12 := by
    decide
  exact ⟨g, hl1, by decide, hl2, he, by decide, hev, hnext, heof, hidx, hlen, hlen2,
    qedFindCluster_found_past_end g 0 0x2000 hl1 (by decide) hl2 he (by decide) hev hnext heof hidx
      hlen hlen2⟩

/-! ## Allocating writes -/

/-- `qed_update_l2_table` leaves the entries outside `[index, index + n)`. -/
theorem qedUpdateL2Table_of_not_mem (clusterSize : BitVec 64) (table : ℕ → BitVec 64) (index n : ℕ)
    (cluster : BitVec 64) {j : ℕ} (hj : j < index ∨ index + n ≤ j) :
    qedUpdateL2Table clusterSize table index n cluster j = table j := by
  induction n generalizing table index cluster with
  | zero => rfl
  | succ n ih =>
    rw [qedUpdateL2Table, ih _ _ _ (by omega), Function.update_of_ne (by omega)]

/-- Entry `index + i` gets the `i`-th cluster from `cluster`, for an
allocated `cluster` whose run of `n` clusters does not wrap. -/
theorem qedUpdateL2Table_of_mem (clusterSize : BitVec 64) (table : ℕ → BitVec 64) (index n : ℕ)
    {cluster : BitVec 64} (hc : 2 ≤ cluster.toNat) (hfit : cluster.toNat + n * clusterSize.toNat < 2 ^ 64)
    {i : ℕ} (hi : i < n) :
    (qedUpdateL2Table clusterSize table index n cluster (index + i)).toNat =
      cluster.toNat + i * clusterSize.toNat := by
  induction n generalizing table index cluster i with
  | zero => omega
  | succ n ih =>
    have hu : ¬qedOffsetIsUnallocCluster cluster = true := by
      simp only [qedOffsetIsUnallocCluster, decide_eq_true_eq]
      rintro rfl
      simp at hc
    have hz : ¬qedOffsetIsZeroCluster cluster = true := by
      simp only [qedOffsetIsZeroCluster, decide_eq_true_eq]
      rintro rfl
      simp at hc
    rw [qedUpdateL2Table]
    simp only [hu, hz, Bool.not_false, Bool.and_self, ↓reduceIte]
    cases i with
    | zero =>
      -- entry `index` is set now and left by the rest of the loop
      rw [qedUpdateL2Table_of_not_mem _ _ _ _ _ (by omega)]
      simp
    | succ i =>
      -- the rest of the loop starts one entry on, one cluster on
      have hnext : (cluster + clusterSize).toNat = cluster.toNat + clusterSize.toNat := by
        rw [toNat_add, Nat.mod_eq_of_lt]
        rw [Nat.succ_mul] at hfit
        have : clusterSize.toNat ≤ n * clusterSize.toNat := Nat.le_mul_of_pos_left _ (by omega)
        omega
      rw [show index + (i + 1) = index + 1 + i by omega,
        ih _ _ (by omega) (by rw [hnext, Nat.succ_mul] at *; omega) (by omega), hnext, Nat.succ_mul]
      omega

section WriteAlloc
variable {s : BDRVQEDState} {k t : ℕ}

/-- `acb->cur_nclusters` for a chunk inside one L2 table's coverage, as
every chunk `qed_find_cluster` returns is: not the `n` clusters the chunk
overlaps but `n + n / (cluster_size - 1)`, one more for every
`cluster_size - 1` clusters. -/
theorem qedWriteAllocNclusters_overcounts (g : QedGeometry s k t) (curPos len : BitVec 64)
    (hchunk : (qedOffsetIntoCluster s curPos).toNat + len.toNat ≤ s.tableNelems.toNat * 2 ^ k) :
    let n := ((qedOffsetIntoCluster s curPos).toNat + len.toNat + 2 ^ k - 1) / 2 ^ k
    (qedWriteAllocNclusters s curPos len).toNat = n + n / (2 ^ k - 1) := by
  intro n
  have hk := g.clusterSize
  have hk12 := g.clusterBits_ge
  have hkbig : 2 ^ 12 ≤ 2 ^ k := Nat.pow_le_pow_right (by decide) hk12
  have hnel : 2 ^ (k + t - 3) ≤ 2 ^ 27 := by
    have := g.clusterBits_le
    have := g.tableBits_le
    exact Nat.pow_le_pow_right (by decide) (by omega)
  have hcov : 2 ^ (k + t - 3) * 2 ^ k ≤ 2 ^ 53 := by
    rw [← Nat.pow_add]
    have := g.clusterBits_le
    have := g.tableBits_le
    exact Nat.pow_le_pow_right (by decide) (by omega)
  rw [g.tableNelems] at hchunk
  have hsum : (qedOffsetIntoCluster s curPos + len).toNat =
      (qedOffsetIntoCluster s curPos).toNat + len.toNat := by
    rw [toNat_add, Nat.mod_eq_of_lt (by omega)]
  -- the chunk overlaps at most a table's worth of clusters
  have hn : n ≤ 2 ^ (k + t - 3) := by
    apply Nat.lt_succ_iff.1
    apply (Nat.div_lt_iff_lt_mul (Nat.two_pow_pos k)).2
    rw [Nat.succ_mul]
    omega
  have hdiv : n / (2 ^ k - 1) ≤ n := Nat.div_le_self _ _
  rw [qedWriteAllocNclusters, toNat_setWidth, toNat_qedBytesToClusters hk (by omega)
    (by rw [hsum]; omega), hsum, Nat.mod_eq_of_lt (show n + n / (2 ^ k - 1) < 2 ^ 32 by omega)]

end WriteAlloc

/-- 4095 clusters of 4 KiB from the start of an L2 table of a 16-cluster
table image: `cur_nclusters` is 4096. -/
theorem qedWriteAllocNclusters_overcounts_fourK :
    let s := qedGeometry ⟨0x10000000, ⟨0x1000, 16, 1, 0x1000, 0x40000000⟩,
      fun _ => 0, fun _ _ => 0, 0, 0, 0, 0⟩
    QedGeometry s 12 4 ∧
      (qedOffsetIntoCluster s 0).toNat + (4095 * 0x1000 : BitVec 64).toNat ≤ s.tableNelems.toNat * 2 ^ 12 ∧
      (qedWriteAllocNclusters s 0 (4095 * 0x1000)).toNat = 4096 := by
  intro s
  have g : QedGeometry s 12 4 :=
    qedGeometry_geometry (by decide) (by decide) (by decide) (by decide) (by decide)
  have hchunk : (qedOffsetIntoCluster s 0).toNat + (4095 * 0x1000 : BitVec 64).toNat ≤
      s.tableNelems.toNat * 2 ^ 12 := by decide
  have h := qedWriteAllocNclusters_overcounts g 0 (4095 * 0x1000) hchunk
  refine ⟨g, hchunk, ?_⟩
  rw [h]
  decide


end QemuKvm.Qed
