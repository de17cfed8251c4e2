import Mathlib.Data.BitVec
import QemuKvm.Lib.Scan
import QemuKvm.Lib.Align

/-!
# qcow2: looking up a run of guest clusters

A qcow2 image maps a guest offset through two tables (block/qcow2.h,
qcow2-cluster.c). The L1 table, `l1_size` entries in memory, holds file
offsets of L2 tables; an L2 table is one cluster of 8-byte entries, and an
entry holds the file offset of a data cluster together with two flags:
`QCOW_OFLAG_COMPRESSED` (bit 62) and `QCOW_OFLAG_ZERO` (bit 0).
`qcow2_get_cluster_type` reads an entry as one of four kinds.

`qcow2_get_cluster_offset(bs, offset, &num, &cluster_offset)` answers a read
of `num` sectors at `offset`: it returns the kind of the cluster at
`offset`, the host offset of that cluster, and shrinks `num` to a run of
sectors that all have that kind, and for a normal run are contiguous in the
file. The run is measured by `count_contiguous_clusters` (same flags,
consecutive offsets) or `count_contiguous_free_clusters`.

The model keeps the C integer widths: the `int` fields of `BDRVQcowState`
and `*num` are `BitVec 32`, offsets and the `uint64_t` counters `BitVec 64`,
and every conversion between them is written out (`setWidth` where C
truncates or zero-extends, `signExtend` where it widens an `int`). The
tables are what the image holds: `l1Table i` is L1 entry `i`, and `l2Load o`
the L2 table read at file offset `o`, `none` when the read fails. The L2
cache, the errno values, encryption and the allocation paths are left out.

Results:

* `qcow2OpenClusterBits_geometry` — `qcow2_open` sets up the geometry
  `Qcow2Geometry` that every lemma below assumes;
* `countContiguousClusters_run`, `countContiguousFreeClusters_run` — the
  two counting loops measure a non-empty run of entries of the first
  entry's kind (`qcow2GetClusterType_of_run`: consecutive masked offsets keep
  both flags), and `Qcow2Geometry.toNat_nbClusters` — they read no entry
  past the L2 table;
* `qcow2GetClusterOffset_homogeneous` — on success, the answer describes a
  run of `1 ≤ *num ≤ num` sectors inside one L1 entry's range whose every
  byte has the returned kind, inside one cluster for a compressed one, and
  at `cluster_offset + offset % cluster_size + j` in the file for a normal
  one (`HomogeneousRun`); this holds for every sector-aligned offset whose
  L1 index `offset >> l1_bits` fits the `unsigned int` it is stored in;
* `Qcow2Geometry.qcow2GetClusterOffset_mod` — past that, the lookup answers
  for `offset mod 2 ^ (l1_bits + 32)`, and `qcow2GetClusterOffset_l1Index_wraps`
  is an unallocated guest cluster it reports as another one's normal cluster.
-/

namespace QemuKvm.Qcow2

open BitVec

/-! ## Constants (block/qcow2.h) -/

def QCOW_OFLAG_COMPRESSED : BitVec 64 := 1#64 <<< 62
def QCOW_OFLAG_ZERO : BitVec 64 := 1#64 <<< 0

def MIN_CLUSTER_BITS : BitVec 32 := 9
def MAX_CLUSTER_BITS : BitVec 32 := 21

def L1E_OFFSET_MASK : BitVec 64 := 0x00ffffffffffff00#64
def L2E_OFFSET_MASK : BitVec 64 := 0x00ffffffffffff00#64
def L2E_COMPRESSED_OFFSET_SIZE_MASK : BitVec 64 := 0x3fffffffffffffff#64

inductive QCow2ClusterType
  | unallocated
  | normal
  | compressed
  | zero
  deriving DecidableEq, Repr

/-- The part of `BDRVQcowState` a lookup reads. -/
structure BDRVQcowState where
  clusterBits : BitVec 32
  clusterSize : BitVec 32
  clusterSectors : BitVec 32
  l2Bits : BitVec 32
  l2Size : BitVec 32
  l1Size : BitVec 32
  l1Table : ℕ → BitVec 64
  l2Load : BitVec 64 → Option (ℕ → BitVec 64)

/-- The cluster geometry `qcow2_open` derives from the header's
`cluster_bits`, after checking it against the bounds. -/
def qcow2OpenClusterBits (s : BDRVQcowState) (clusterBits : BitVec 32) :
    Option BDRVQcowState :=
  if clusterBits < MIN_CLUSTER_BITS ∨ clusterBits > MAX_CLUSTER_BITS then none
  else some { s with
    clusterBits := clusterBits
    clusterSize := 1#32 <<< clusterBits.toNat
    clusterSectors := 1#32 <<< (clusterBits - 9).toNat
    -- L2 is always one cluster
    l2Bits := clusterBits - 3
    l2Size := 1#32 <<< (clusterBits - 3).toNat }

/-- `size_to_clusters`: an `int64_t` size in bytes, rounded up to clusters;
the shift is the arithmetic one of a signed operand. -/
def sizeToClusters (s : BDRVQcowState) (size : BitVec 64) : BitVec 32 :=
  ((size + (s.clusterSize - 1).signExtend 64).sshiftRight s.clusterBits.toNat).setWidth 32

def qcow2GetClusterType (l2Entry : BitVec 64) : QCow2ClusterType :=
  if l2Entry &&& QCOW_OFLAG_COMPRESSED ≠ 0 then .compressed
  else if l2Entry &&& QCOW_OFLAG_ZERO ≠ 0 then .zero
  else if l2Entry &&& L2E_OFFSET_MASK = 0 then .unallocated
  else .normal

/-! ## Counting a run (qcow2-cluster.c) -/

/-- `count_contiguous_clusters`: from entry `start`, the number of entries
whose masked value continues the first entry's by `cluster_size` each.
`i` is an `int`, widened to `uint64_t` for the product. -/
def countContiguousClusters (nbClusters : BitVec 64) (clusterSize : BitVec 32)
    (l2Table : ℕ → BitVec 64) (start stopFlags : BitVec 64) : BitVec 32 :=
  let mask := stopFlags ||| L2E_OFFSET_MASK
  let offset := l2Table 0 &&& mask
  if offset = 0 then 0
  else
    let i := scanWhile
      (fun i => offset + BitVec.ofNat 64 i * clusterSize.signExtend 64 == l2Table i &&& mask)
      start.toNat ((start + nbClusters).toNat - start.toNat)
    (BitVec.ofNat 64 i - start).setWidth 32

/-- `count_contiguous_free_clusters`: the number of leading unallocated
entries, at most `nb_clusters`. -/
def countContiguousFreeClusters (nbClusters : BitVec 64) (l2Table : ℕ → BitVec 64) : BitVec 32 :=
  BitVec.ofNat 32
    (scanWhile (fun i => qcow2GetClusterType (l2Table i) == .unallocated) 0 nbClusters.toNat)

/-! ## The lookup (qcow2_get_cluster_offset) -/

section Lookup

variable (s : BDRVQcowState) (offset : BitVec 64)

/-- The sector of `offset` within its cluster (`unsigned int`). -/
def indexInCluster : BitVec 32 :=
  ((offset >>> 9) &&& (s.clusterSectors - 1).signExtend 64).setWidth 32

def l1Bits : BitVec 32 := s.l2Bits + s.clusterBits

/-- The sectors from the start of `offset`'s cluster to the end of the
range its L1 entry covers. -/
def nbAvailableL1 : BitVec 64 :=
  let nbAvailable := (1#64 <<< (l1Bits s).toNat) -
    (offset &&& ((1#64 <<< (l1Bits s).toNat) - 1#64))
  (nbAvailable >>> 9) + (indexInCluster s offset).setWidth 64

/-- The sectors asked for, counted from the start of the cluster and clamped
to the L1 entry's range; the sum is taken in `unsigned int`. -/
def nbNeeded (num : BitVec 32) : BitVec 64 :=
  let nbNeeded := (num + indexInCluster s offset).setWidth 64
  if nbNeeded > nbAvailableL1 s offset then nbAvailableL1 s offset else nbNeeded

/-- `l1_index`, an `unsigned int`. -/
def l1Index : BitVec 32 := (offset >>> (l1Bits s).toNat).setWidth 32

/-- `l2_index`, an `unsigned int`. -/
def l2Index : BitVec 32 :=
  ((offset >>> s.clusterBits.toNat) &&& (s.l2Size - 1).signExtend 64).setWidth 32

/-- `nb_clusters`, an `unsigned int`: the clusters the needed sectors
cover. -/
def nbClusters (num : BitVec 32) : BitVec 32 := sizeToClusters s (nbNeeded s offset num <<< 9)

end Lookup

/-- The exit at label `out`: the sectors available from the start of the
cluster, clamped to those needed and counted from `offset`'s sector; the
`uint64_t` difference is stored in the `int` `*num`. -/
def clampNum (nbAvailable nbNeeded : BitVec 64) (indexInCluster : BitVec 32) : BitVec 32 :=
  let nbAvailable := if nbAvailable > nbNeeded then nbNeeded else nbAvailable
  (nbAvailable - indexInCluster.setWidth 64).setWidth 32

/-- The switch on the kind of the first L2 entry: the number of clusters in
the run, and the value left in `*cluster_offset`. `l2Table` starts at the
entry of `offset`. -/
def qcow2ClusterRun (s : BDRVQcowState) (l2Table : ℕ → BitVec 64) (nbClusters : BitVec 64) :
    BitVec 32 × BitVec 64 :=
  match qcow2GetClusterType (l2Table 0) with
  | .compressed =>
    -- compressed clusters can only be processed one by one
    (1, l2Table 0 &&& L2E_COMPRESSED_OFFSET_SIZE_MASK)
  | .zero =>
    (countContiguousClusters nbClusters s.clusterSize l2Table 0
      (QCOW_OFLAG_COMPRESSED ||| QCOW_OFLAG_ZERO), 0)
  | .unallocated => (countContiguousFreeClusters nbClusters l2Table, 0)
  | .normal =>
    (countContiguousClusters nbClusters s.clusterSize l2Table 0
      (QCOW_OFLAG_COMPRESSED ||| QCOW_OFLAG_ZERO), l2Table 0 &&& L2E_OFFSET_MASK)

/-- `qcow2_get_cluster_offset`: the returned cluster type, the new `*num`
and `*cluster_offset`; `none` when the L2 table cannot be loaded. -/
def qcow2GetClusterOffset (s : BDRVQcowState) (offset : BitVec 64) (num : BitVec 32) :
    Option (QCow2ClusterType × BitVec 32 × BitVec 64) :=
  let nbNeeded := nbNeeded s offset num
  if s.l1Size ≤ l1Index s offset then
    some (.unallocated, clampNum (nbAvailableL1 s offset) nbNeeded (indexInCluster s offset), 0)
  else
    let l2Offset := s.l1Table (l1Index s offset).toNat &&& L1E_OFFSET_MASK
    if l2Offset = 0 then
      some (.unallocated, clampNum (nbAvailableL1 s offset) nbNeeded (indexInCluster s offset), 0)
    else
      match s.l2Load l2Offset with
      | none => none
      | some l2Table =>
        let l2Table := fun j => l2Table ((l2Index s offset).toNat + j)
        let run := qcow2ClusterRun s l2Table ((nbClusters s offset num).setWidth 64)
        some (qcow2GetClusterType (l2Table 0),
          clampNum ((run.1 * s.clusterSectors).signExtend 64) nbNeeded (indexInCluster s offset),
          run.2)

/-- A 512-byte-cluster image whose only L2 table, at 0x200, maps guest
clusters 0 and 1 to host clusters 0x400 and 0x600, and cluster 2 to zeros. -/
def smallImage : BDRVQcowState where
  clusterBits := 9
  clusterSize := 512
  clusterSectors := 1
  l2Bits := 6
  l2Size := 64
  l1Size := 1
  l1Table := fun _ => 0x200
  l2Load := fun o => if o = 0x200 then
    some fun j => if j = 0 then 0x400 else if j = 1 then 0x600 else if j = 2 then 1 else 0
    else none
example : qcow2GetClusterOffset smallImage 0 5 = some (.normal, 2, 0x400) := by decide
example : qcow2GetClusterOffset smallImage 0x400 5 = some (.zero, 1, 0) := by decide
example : qcow2GetClusterOffset smallImage 0x600 5 = some (.unallocated, 5, 0) := by decide


/-! ## What the tables say -/

/-- The L2 entry the tables hold for guest byte `p`, with the L1 index taken
in full. A guest cluster whose L1 index is past `l1_size`, or whose L1 entry
holds no table offset, reads as an entry of 0; `none` when its L2 table
cannot be loaded. -/
def guestL2Entry (s : BDRVQcowState) (p : ℕ) : Option (BitVec 64) :=
  let l1Index := p / 2 ^ (s.l2Bits.toNat + s.clusterBits.toNat)
  if s.l1Size.toNat ≤ l1Index then some 0
  else
    let l2Offset := s.l1Table l1Index &&& L1E_OFFSET_MASK
    if l2Offset = 0 then some 0
    else (s.l2Load l2Offset).map fun l2Table =>
      l2Table (p / 2 ^ s.clusterBits.toNat % s.l2Size.toNat)

def guestClusterType (s : BDRVQcowState) (p : ℕ) : Option QCow2ClusterType :=
  (guestL2Entry s p).map qcow2GetClusterType

/-- Where guest byte `p` lies in the image file, for a normal cluster. -/
def guestHostOffset (s : BDRVQcowState) (p : ℕ) : Option ℕ :=
  (guestL2Entry s p).map fun e => (e &&& L2E_OFFSET_MASK).toNat + p % s.clusterSize.toNat

/-- What a successful lookup promises about the `*num` sectors it answers
for: a non-empty run, no longer than asked, inside the range of one L1
entry, whose every byte has the returned kind; a compressed run stays in
one cluster, and a normal run lies contiguously in the file from
`cluster_offset` plus the offset into the first cluster. -/
structure HomogeneousRun (s : BDRVQcowState) (k : ℕ) (offset : BitVec 64) (num : BitVec 32)
    (ret : QCow2ClusterType) (num' : BitVec 32) (clusterOffset : BitVec 64) : Prop where
  num_pos : 1 ≤ num'.toInt
  num_le : num'.toInt ≤ num.toInt
  in_l2_range : offset.toNat % 2 ^ (2 * k - 3) + num'.toNat * 512 ≤ 2 ^ (2 * k - 3)
  type_eq : ∀ j < num'.toNat * 512, guestClusterType s (offset.toNat + j) = some ret
  compressed_in_cluster : ret = .compressed → offset.toNat % 2 ^ k + num'.toNat * 512 ≤ 2 ^ k
  host_eq : ret = .normal → ∀ j < num'.toNat * 512,
    guestHostOffset s (offset.toNat + j) = some (clusterOffset.toNat + offset.toNat % 2 ^ k + j)

/-! ## Cluster kinds -/

/-- The mask `count_contiguous_clusters` compares entries under, for the stop
flags the lookup passes. -/
def contiguousMask : BitVec 64 := (QCOW_OFLAG_COMPRESSED ||| QCOW_OFLAG_ZERO) ||| L2E_OFFSET_MASK

theorem qcow2GetClusterType_eq (e : BitVec 64) :
    qcow2GetClusterType e =
      if e.getLsbD 62 then .compressed
      else if e.getLsbD 0 then .zero
      else if e &&& L2E_OFFSET_MASK = 0 then .unallocated
      else .normal := by
  have hC : twoPow 64 62 ≠ 0#64 := by decide
  have hZ : twoPow 64 0 ≠ 0#64 := by decide
  rw [qcow2GetClusterType, QCOW_OFLAG_COMPRESSED, QCOW_OFLAG_ZERO, ← twoPow_eq, ← twoPow_eq,
    and_twoPow, and_twoPow]
  cases e.getLsbD 62 <;> cases e.getLsbD 0 <;> simp [hC, hZ]

@[simp] theorem qcow2GetClusterType_zero : qcow2GetClusterType 0 = .unallocated := by decide

/-- The kind of an entry depends only on the bits `count_contiguous_clusters`
compares. -/
theorem qcow2GetClusterType_and_contiguousMask (e : BitVec 64) :
    qcow2GetClusterType (e &&& contiguousMask) = qcow2GetClusterType e := by
  have hC : contiguousMask &&& QCOW_OFLAG_COMPRESSED = QCOW_OFLAG_COMPRESSED := by decide
  have hZ : contiguousMask &&& QCOW_OFLAG_ZERO = QCOW_OFLAG_ZERO := by decide
  have hO : contiguousMask &&& L2E_OFFSET_MASK = L2E_OFFSET_MASK := by decide
  rw [qcow2GetClusterType, qcow2GetClusterType, BitVec.and_assoc, BitVec.and_assoc,
    BitVec.and_assoc, hC, hZ, hO]

theorem and_contiguousMask_and_contiguousMask (e : BitVec 64) :
    e &&& contiguousMask &&& contiguousMask = e &&& contiguousMask := by
  rw [BitVec.and_assoc, BitVec.and_self]

/-- A masked value without the two flag bits is its offset part. -/
theorem and_L2E_OFFSET_MASK_of_masked {x : BitVec 64} (hx : x &&& contiguousMask = x)
    (h62 : x.getLsbD 62 = false) (h0 : x.getLsbD 0 = false) : x &&& L2E_OFFSET_MASK = x := by
  have hsplit : x &&& contiguousMask =
      (x &&& QCOW_OFLAG_COMPRESSED ||| x &&& QCOW_OFLAG_ZERO) ||| x &&& L2E_OFFSET_MASK := by
    rw [contiguousMask, and_or_distrib_left, and_or_distrib_left]
  rw [QCOW_OFLAG_COMPRESSED, QCOW_OFLAG_ZERO, ← twoPow_eq, ← twoPow_eq, and_twoPow, and_twoPow,
    h62, h0] at hsplit
  simp only [Bool.false_eq_true, ↓reduceIte, BitVec.or_self, BitVec.zero_or] at hsplit
  rw [← hsplit, hx]

theorem qcow2GetClusterType_of_masked {x : BitVec 64} (hx : x &&& contiguousMask = x) :
    qcow2GetClusterType x =
      if x.getLsbD 62 then .compressed
      else if x.getLsbD 0 then .zero
      else if x = 0 then .unallocated
      else .normal := by
  rw [qcow2GetClusterType_eq]
  by_cases h62 : x.getLsbD 62
  · simp only [h62, ↓reduceIte]
  · by_cases h0 : x.getLsbD 0
    · simp only [h62, h0, ↓reduceIte, Bool.false_eq_true]
    · simp only [Bool.not_eq_true] at h62 h0
      rw [and_L2E_OFFSET_MASK_of_masked hx h62 h0]

/-- Without the compressed flag, a masked entry is below `2 ^ 56`: only the
zero flag and the offset bits are left. -/
theorem toNat_and_contiguousMask_lt {e : BitVec 64} (h : qcow2GetClusterType e ≠ .compressed) :
    (e &&& contiguousMask).toNat < 2 ^ 56 := by
  have h62 : e.getLsbD 62 = false := by
    rw [qcow2GetClusterType_eq] at h
    by_contra h'
    simp only [Bool.not_eq_false] at h'
    simp [h'] at h
  have hsplit : e &&& contiguousMask =
      e &&& QCOW_OFLAG_COMPRESSED ||| e &&& (QCOW_OFLAG_ZERO ||| L2E_OFFSET_MASK) := by
    rw [contiguousMask, BitVec.or_assoc, and_or_distrib_left]
  rw [QCOW_OFLAG_COMPRESSED, ← twoPow_eq, and_twoPow, h62] at hsplit
  simp only [Bool.false_eq_true, ↓reduceIte, BitVec.zero_or] at hsplit
  rw [hsplit, toNat_and]
  exact lt_of_le_of_lt Nat.and_le_right (by decide)

/-- The offset of a normal entry is all of its masked value. -/
theorem and_L2E_OFFSET_MASK_of_normal {e : BitVec 64} (h : qcow2GetClusterType e = .normal) :
    e &&& L2E_OFFSET_MASK = e &&& contiguousMask := by
  have hbits : e.getLsbD 62 = false ∧ e.getLsbD 0 = false := by
    rw [qcow2GetClusterType_eq] at h
    by_cases h62 : e.getLsbD 62 <;> by_cases h0 : e.getLsbD 0 <;> simp_all
  have hO : contiguousMask &&& L2E_OFFSET_MASK = L2E_OFFSET_MASK := by decide
  have hm62 : contiguousMask.getLsbD 62 = true := by decide
  have hm0 : contiguousMask.getLsbD 0 = true := by decide
  rw [← and_L2E_OFFSET_MASK_of_masked (and_contiguousMask_and_contiguousMask e)
    (by rw [getLsbD_and, hbits.1, Bool.false_and]) (by rw [getLsbD_and, hbits.2, Bool.false_and]),
    BitVec.and_assoc, hO]

theorem getLsbD_zero_of_zero {e : BitVec 64} (h : qcow2GetClusterType e = .zero) :
    e.getLsbD 0 = true := by
  rw [qcow2GetClusterType_eq] at h
  revert h
  by_cases h0 : e &&& L2E_OFFSET_MASK = 0#64 <;>
    cases e.getLsbD 62 <;> cases e.getLsbD 0 <;> simp [h0]

theorem and_L2E_OFFSET_MASK_ne_zero_of_normal {e : BitVec 64}
    (h : qcow2GetClusterType e = .normal) : e &&& L2E_OFFSET_MASK ≠ 0 := by
  intro h0
  rw [qcow2GetClusterType_eq] at h
  revert h
  cases e.getLsbD 62 <;> cases e.getLsbD 0 <;> simp [h0]

/-- The first entry of a zero or normal run is not 0 under the mask, so
`count_contiguous_clusters` does count it. -/
theorem and_contiguousMask_ne_zero {e : BitVec 64}
    (h : qcow2GetClusterType e = .zero ∨ qcow2GetClusterType e = .normal) :
    e &&& contiguousMask ≠ 0 := by
  rcases h with h | h
  · intro h'
    have hb : (e &&& contiguousMask).getLsbD 0 = e.getLsbD 0 := by
      rw [getLsbD_and, show contiguousMask.getLsbD 0 = true by decide, Bool.and_true]
    rw [h', getLsbD_zero_of_zero h] at hb
    exact absurd hb (by decide)
  · rw [← and_L2E_OFFSET_MASK_of_normal h]
    exact and_L2E_OFFSET_MASK_ne_zero_of_normal h

/-- Along a run of `count_contiguous_clusters` the masked value grows by
whole clusters, which changes neither flag: every entry of a zero or normal
run has the kind of the first. -/
theorem qcow2GetClusterType_of_run {e₀ e : BitVec 64} {d k : ℕ} (hk : 1 ≤ k)
    (h₀ : qcow2GetClusterType e₀ = .zero ∨ qcow2GetClusterType e₀ = .normal)
    (hrun : (e &&& contiguousMask).toNat = (e₀ &&& contiguousMask).toNat + d * 2 ^ k)
    (hlt : (e₀ &&& contiguousMask).toNat + d * 2 ^ k < 2 ^ 62) :
    qcow2GetClusterType e = qcow2GetClusterType e₀ := by
  rw [← qcow2GetClusterType_and_contiguousMask e, ← qcow2GetClusterType_and_contiguousMask e₀] at *
  have ha := and_contiguousMask_and_contiguousMask e₀
  have hv := and_contiguousMask_and_contiguousMask e
  generalize e₀ &&& contiguousMask = a at *
  generalize e &&& contiguousMask = v at *
  have hv62 : v.getLsbD 62 = false := by
    rw [← testBit_toNat]; exact Nat.testBit_lt_two_pow (by omega)
  have ha62 : a.getLsbD 62 = false := by
    rw [← testBit_toNat]; exact Nat.testBit_lt_two_pow (by omega)
  -- bit 0 is the parity, and a run adds an even amount
  have h0 : v.getLsbD 0 = a.getLsbD 0 := by
    have heven : d * 2 ^ k % 2 = 0 := by
      rw [Nat.mul_mod, Nat.pow_mod, show 2 % 2 = 0 from rfl, Nat.zero_pow (by omega)]
      simp
    rw [← testBit_toNat, ← testBit_toNat, Nat.testBit_zero, Nat.testBit_zero, hrun, Nat.add_mod,
      heven, Nat.add_zero, Nat.mod_mod]
  rw [qcow2GetClusterType_of_masked hv, qcow2GetClusterType_of_masked ha] at *
  rw [ha62] at h₀
  rw [hv62, ha62, h0]
  cases ha0 : a.getLsbD 0
  · -- a normal run: the offset part of the first entry is not 0, so no later one is
    rw [ha0] at h₀
    have hne : a ≠ 0 := by
      rintro rfl
      simp at h₀
    have hvne : v ≠ 0 := by
      intro hv0
      apply hne
      apply eq_of_toNat_eq
      rw [hv0, show (0 : BitVec 64).toNat = 0 from rfl] at hrun
      rw [show (0 : BitVec 64).toNat = 0 from rfl]
      omega
    simp only [Bool.false_eq_true, ↓reduceIte, hne, hvne]
  · rfl

/-! ## The counting loops -/

/-- With a non-zero first masked entry and `start = 0`, the count is the
length of the run of entries continuing the first by `cluster_size`. -/
theorem toNat_countContiguousClusters {nbClusters : BitVec 64} {clusterSize : BitVec 32}
    {l2Table : ℕ → BitVec 64} {stopFlags : BitVec 64}
    (hoff : l2Table 0 &&& (stopFlags ||| L2E_OFFSET_MASK) ≠ 0)
    (hlt : nbClusters.toNat < 2 ^ 32) :
    (countContiguousClusters nbClusters clusterSize l2Table 0 stopFlags).toNat =
      scanWhile (fun i => (l2Table 0 &&& (stopFlags ||| L2E_OFFSET_MASK)) +
          BitVec.ofNat 64 i * clusterSize.signExtend 64 == l2Table i &&& (stopFlags ||| L2E_OFFSET_MASK))
        0 nbClusters.toNat := by
  rw [countContiguousClusters]
  dsimp only
  rw [if_neg hoff]
  have key : ∀ pr : ℕ → Bool,
      (setWidth 32 (BitVec.ofNat 64 (scanWhile pr 0 nbClusters.toNat))).toNat =
        scanWhile pr 0 nbClusters.toNat := by
    intro pr
    have := scanWhile_le pr 0 nbClusters.toNat
    rw [toNat_setWidth, toNat_ofNat, Nat.mod_eq_of_lt (by omega), Nat.mod_eq_of_lt (by omega)]
  simp only [BitVec.ofNat_eq_ofNat, BitVec.zero_add, BitVec.sub_zero, toNat_ofNat, Nat.zero_mod,
    Nat.sub_zero]
  exact key _

theorem toNat_countContiguousFreeClusters {nbClusters : BitVec 64} {l2Table : ℕ → BitVec 64}
    (hlt : nbClusters.toNat < 2 ^ 32) :
    (countContiguousFreeClusters nbClusters l2Table).toNat =
      scanWhile (fun i => qcow2GetClusterType (l2Table i) == .unallocated) 0 nbClusters.toNat := by
  rw [countContiguousFreeClusters, toNat_ofNat]
  have := scanWhile_le (fun i => qcow2GetClusterType (l2Table i) == .unallocated) 0 nbClusters.toNat
  exact Nat.mod_eq_of_lt (by omega)

/-- The exit clamp, when nothing wraps. -/
theorem toNat_clampNum {nbAvailable nbNeeded : BitVec 64} {indexInCluster : BitVec 32}
    (hic : indexInCluster.toNat ≤ min nbAvailable.toNat nbNeeded.toNat)
    (hlt : min nbAvailable.toNat nbNeeded.toNat < 2 ^ 32) :
    (clampNum nbAvailable nbNeeded indexInCluster).toNat =
      min nbAvailable.toNat nbNeeded.toNat - indexInCluster.toNat := by
  have hic64 : (indexInCluster.setWidth 64).toNat = indexInCluster.toNat := by
    rw [toNat_setWidth]
    exact Nat.mod_eq_of_lt (lt_of_lt_of_le indexInCluster.isLt (by decide))
  rw [clampNum]
  split
  · next h =>
    rw [gt_iff_lt, lt_def] at h
    rw [min_eq_right (le_of_lt h)] at hic hlt ⊢
    rw [toNat_setWidth, toNat_sub_of_le (by rw [le_def, hic64]; exact hic), hic64]
    exact Nat.mod_eq_of_lt (by omega)
  · next h =>
    rw [gt_iff_lt, lt_def, Nat.not_lt] at h
    rw [min_eq_left h] at hic hlt ⊢
    rw [toNat_setWidth, toNat_sub_of_le (by rw [le_def, hic64]; exact hic), hic64]
    exact Nat.mod_eq_of_lt (by omega)

/-- A zero or normal first entry starts a run of at least one entry (if one
is asked for), each continuing the first's masked value by one cluster and
so of the same kind. -/
theorem countContiguousClusters_run {nbClusters : BitVec 64} {clusterSize : BitVec 32}
    {l2Table : ℕ → BitVec 64} {k c : ℕ} (hcs : clusterSize.toNat = 2 ^ k) (hk : 1 ≤ k)
    (hk' : k ≤ 21) (hnb : 0 < nbClusters.toNat) (hnb' : nbClusters.toNat ≤ 2 ^ 18)
    (h₀ : qcow2GetClusterType (l2Table 0) = .zero ∨ qcow2GetClusterType (l2Table 0) = .normal)
    (hc : (countContiguousClusters nbClusters clusterSize l2Table 0
      (QCOW_OFLAG_COMPRESSED ||| QCOW_OFLAG_ZERO)).toNat = c) :
    1 ≤ c ∧ c ≤ nbClusters.toNat ∧ ∀ d < c,
      (l2Table d &&& contiguousMask).toNat = (l2Table 0 &&& contiguousMask).toNat + d * 2 ^ k ∧
      qcow2GetClusterType (l2Table d) = qcow2GetClusterType (l2Table 0) := by
  have hnc : qcow2GetClusterType (l2Table 0) ≠ .compressed := by
    rcases h₀ with h | h <;> rw [h] <;> decide
  have ha := toNat_and_contiguousMask_lt hnc
  have hcs64 : (clusterSize.signExtend 64).toNat = 2 ^ k := by
    have hlt : 2 ^ k ≤ 2 ^ 21 := Nat.pow_le_pow_right (by decide) hk'
    have hmsb : clusterSize.msb = false := by
      rw [msb_eq_false_iff_two_mul_lt, hcs]
      have : 2 ^ 21 < 2 ^ 31 := by decide
      omega
    rw [signExtend_eq_setWidth_of_msb_false hmsb, toNat_setWidth, hcs]
    exact Nat.mod_eq_of_lt (lt_of_le_of_lt hlt (by decide))
  rw [toNat_countContiguousClusters (and_contiguousMask_ne_zero h₀) (by omega)] at hc
  have hcle : c ≤ nbClusters.toNat := by
    rw [← hc]
    simpa using scanWhile_le _ 0 nbClusters.toNat
  refine ⟨by rw [← hc]; exact lt_scanWhile _ (by simp) hnb, hcle, ?_⟩
  intro d hd
  have hd' : d < 2 ^ 18 := by omega
  -- the loop compared entry `d` with the first's masked value plus `d` clusters
  rw [← hc] at hd
  have hstep := scanWhile_spec _ 0 nbClusters.toNat d (Nat.zero_le d) hd
  rw [beq_iff_eq] at hstep
  have hprod : d * 2 ^ k ≤ 2 ^ 18 * 2 ^ 21 :=
    Nat.mul_le_mul (le_of_lt hd') (Nat.pow_le_pow_right (by decide) hk')
  have hbig : 2 ^ 56 + 2 ^ 18 * 2 ^ 21 < 2 ^ 62 := by decide
  have hrun : (l2Table d &&& contiguousMask).toNat =
      (l2Table 0 &&& contiguousMask).toNat + d * 2 ^ k := by
    have hdn : (BitVec.ofNat 64 d).toNat = d := by
      rw [toNat_ofNat]
      exact Nat.mod_eq_of_lt (lt_trans hd' (by decide))
    rw [← show (l2Table 0 &&& (QCOW_OFLAG_COMPRESSED ||| QCOW_OFLAG_ZERO ||| L2E_OFFSET_MASK)) +
        BitVec.ofNat 64 d * clusterSize.signExtend 64 = l2Table d &&& contiguousMask from hstep,
      toNat_add_of_lt, toNat_mul_of_lt, hdn, hcs64]
    · rfl
    · rw [hdn, hcs64]; omega
    · rw [toNat_mul_of_lt (by rw [hdn, hcs64]; omega), hdn, hcs64]
      exact lt_of_lt_of_le (show _ < 2 ^ 62 by exact lt_of_le_of_lt (by exact Nat.add_le_add (le_of_lt ha) hprod) hbig) (by decide)
  exact ⟨hrun, qcow2GetClusterType_of_run hk h₀ hrun (by omega)⟩

/-- An unallocated first entry starts a run of unallocated entries. -/
theorem countContiguousFreeClusters_run {nbClusters : BitVec 64} {l2Table : ℕ → BitVec 64}
    {c : ℕ} (hnb : 0 < nbClusters.toNat) (hnb' : nbClusters.toNat < 2 ^ 32)
    (h₀ : qcow2GetClusterType (l2Table 0) = .unallocated)
    (hc : (countContiguousFreeClusters nbClusters l2Table).toNat = c) :
    1 ≤ c ∧ c ≤ nbClusters.toNat ∧ ∀ d < c, qcow2GetClusterType (l2Table d) = .unallocated := by
  rw [toNat_countContiguousFreeClusters hnb'] at hc
  refine ⟨by rw [← hc]; exact lt_scanWhile _ (by simp [h₀]) hnb,
    by rw [← hc]; simpa using scanWhile_le _ 0 nbClusters.toNat, ?_⟩
  intro d hd
  rw [← hc] at hd
  simpa using scanWhile_spec _ 0 nbClusters.toNat d (Nat.zero_le d) hd

/-! ## Geometry -/

/-- The geometry `qcow2_open` sets up for `cluster_bits = k`. -/
structure Qcow2Geometry (s : BDRVQcowState) (k : ℕ) : Prop where
  clusterBits_ge : 9 ≤ k
  clusterBits_le : k ≤ 21
  clusterBits : s.clusterBits.toNat = k
  clusterSize : s.clusterSize.toNat = 2 ^ k
  clusterSectors : s.clusterSectors.toNat = 2 ^ (k - 9)
  l2Bits : s.l2Bits.toNat = k - 3
  l2Size : s.l2Size.toNat = 2 ^ (k - 3)

theorem qcow2OpenClusterBits_geometry {s s' : BDRVQcowState} {clusterBits : BitVec 32}
    (h : qcow2OpenClusterBits s clusterBits = some s') :
    Qcow2Geometry s' clusterBits.toNat := by
  rw [qcow2OpenClusterBits] at h
  split at h
  · exact absurd h (by simp)
  · next hbits =>
    -- the range check leaves `9 ≤ cluster_bits ≤ 21`
    have hge : 9 ≤ clusterBits.toNat := by
      have := lt_def.not.mp (fun h' => hbits (Or.inl h'))
      simpa [MIN_CLUSTER_BITS] using this
    have hle : clusterBits.toNat ≤ 21 := by
      have := lt_def.not.mp (fun h' => hbits (Or.inr h'))
      simpa [MAX_CLUSTER_BITS] using this
    have h9 : (clusterBits - 9).toNat = clusterBits.toNat - 9 := by
      rw [toNat_sub_of_le (by rw [le_def]; exact hge)]
      rfl
    have h3 : (clusterBits - 3).toNat = clusterBits.toNat - 3 := by
      rw [toNat_sub_of_le (by rw [le_def]; exact le_trans (by decide) hge)]
      rfl
    cases h
    constructor
    · exact hge
    · exact hle
    · rfl
    · rw [← twoPow_eq]; exact toNat_twoPow_of_lt (by omega)
    · rw [h9, ← twoPow_eq]; exact toNat_twoPow_of_lt (by omega)
    · exact h3
    · rw [h3, ← twoPow_eq]; exact toNat_twoPow_of_lt (by omega)

/-- A mask `m - 1` of a small power of two keeps its value when the `int`
is widened to 64 bits. -/
theorem toNat_signExtend_sub_one {m : BitVec 32} {b : ℕ} (hm : m.toNat = 2 ^ b) (hb : b ≤ 30) :
    ((m - 1).signExtend 64).toNat = 2 ^ b - 1 := by
  have hsub : (m - 1).toNat = 2 ^ b - 1 := by
    rw [toNat_sub_of_le (by rw [le_def, hm]; exact Nat.one_le_two_pow), hm]
    rfl
  have hsmall : 2 ^ b ≤ 2 ^ 30 := Nat.pow_le_pow_right (by decide) hb
  have hmsb : (m - 1).msb = false := by
    rw [msb_eq_false_iff_two_mul_lt, hsub]
    have : 2 ^ 30 < 2 ^ 31 := by decide
    omega
  rw [signExtend_eq_setWidth_of_msb_false hmsb, toNat_setWidth, hsub]
  exact Nat.mod_eq_of_lt (lt_of_le_of_lt (Nat.sub_le _ _) (lt_of_le_of_lt hsmall (by decide)))

/-- The index computations `(x >> a) & (m - 1)` of a lookup, stored in an
`unsigned int`. -/
theorem toNat_shiftRight_and_mask {m : BitVec 32} {b : ℕ} (hm : m.toNat = 2 ^ b) (hb : b ≤ 30)
    (x : BitVec 64) (a : ℕ) :
    (((x >>> a) &&& (m - 1).signExtend 64).setWidth 32).toNat = x.toNat / 2 ^ a % 2 ^ b := by
  rw [toNat_setWidth, toNat_and, toNat_signExtend_sub_one hm hb, toNat_ushiftRight,
    Nat.shiftRight_eq_div_pow, Nat.and_two_pow_sub_one_eq_mod]
  apply Nat.mod_eq_of_lt
  exact lt_of_lt_of_le (Nat.mod_lt _ (Nat.two_pow_pos b))
    (le_trans (Nat.pow_le_pow_right (by decide) hb) (by decide))

/-- A positive `int` is below `2 ^ 31`. -/
theorem toNat_lt_of_one_le_toInt {x : BitVec 32} (h : 1 ≤ x.toInt) :
    1 ≤ x.toNat ∧ x.toNat < 2 ^ 31 := by
  have hlt := x.isLt
  rw [toInt_eq_toNat_cond] at h
  split at h
  · next h2 => exact ⟨by exact_mod_cast h, by omega⟩
  · omega

theorem toInt_of_toNat_lt {x : BitVec 32} (h : x.toNat < 2 ^ 31) : x.toInt = x.toNat :=
  toInt_eq_toNat_of_msb (msb_eq_false_iff_two_mul_lt.2 (by omega))

section Geometry

variable {s : BDRVQcowState} {k : ℕ} (g : Qcow2Geometry s k)
include g

theorem Qcow2Geometry.two_pow_clusterBits : 2 ^ k = 512 * 2 ^ (k - 9) := by
  rw [show (512 : ℕ) = 2 ^ 9 from rfl, ← Nat.pow_add, Nat.add_sub_cancel' g.clusterBits_ge]

theorem Qcow2Geometry.two_pow_l1Bits : 2 ^ (2 * k - 3) = 2 ^ k * 2 ^ (k - 3) := by
  rw [← Nat.pow_add]
  congr 1
  have := g.clusterBits_ge
  omega

theorem Qcow2Geometry.toNat_l1Bits : (l1Bits s).toNat = 2 * k - 3 := by
  have := g.clusterBits_ge
  have := g.clusterBits_le
  rw [l1Bits, toNat_add, g.l2Bits, g.clusterBits, Nat.mod_eq_of_lt (by omega)]
  omega

/-- The sector of an offset in its cluster is below `cluster_sectors`, so
below `2 ^ 12`. -/
theorem Qcow2Geometry.indexInCluster_lt (offset : BitVec 64) :
    offset.toNat % 2 ^ k / 512 < 2 ^ (k - 9) := by
  rw [g.two_pow_clusterBits, Nat.mod_mul_right_div_self]
  exact Nat.mod_lt _ (Nat.two_pow_pos _)

theorem Qcow2Geometry.indexInCluster_lt_pow12 (offset : BitVec 64) :
    offset.toNat % 2 ^ k / 512 < 2 ^ 12 :=
  lt_of_lt_of_le (g.indexInCluster_lt offset)
    (Nat.pow_le_pow_right (by decide) (by have := g.clusterBits_le; omega))

theorem Qcow2Geometry.toNat_indexInCluster (offset : BitVec 64) :
    (indexInCluster s offset).toNat = offset.toNat % 2 ^ k / 512 := by
  have := g.clusterBits_le
  rw [indexInCluster, toNat_shiftRight_and_mask g.clusterSectors (by omega), g.two_pow_clusterBits,
    Nat.mod_mul_right_div_self]
  rfl

theorem Qcow2Geometry.toNat_l2Index (offset : BitVec 64) :
    (l2Index s offset).toNat = offset.toNat / 2 ^ k % 2 ^ (k - 3) := by
  have := g.clusterBits_le
  rw [l2Index, toNat_shiftRight_and_mask g.l2Size (by omega), g.clusterBits]

theorem Qcow2Geometry.toNat_l1Index (offset : BitVec 64) :
    (l1Index s offset).toNat = offset.toNat / 2 ^ (2 * k - 3) % 2 ^ 32 := by
  rw [l1Index, toNat_setWidth, toNat_ushiftRight, Nat.shiftRight_eq_div_pow, g.toNat_l1Bits]

theorem Qcow2Geometry.toNat_nbAvailableL1 (offset : BitVec 64) :
    (nbAvailableL1 s offset).toNat =
      (2 ^ (2 * k - 3) - offset.toNat % 2 ^ (2 * k - 3)) / 512 + offset.toNat % 2 ^ k / 512 := by
  have hk := g.clusterBits_le
  have hpow : (1#64 <<< (l1Bits s).toNat).toNat = 2 ^ (2 * k - 3) := by
    rw [← twoPow_eq, toNat_twoPow_of_lt (by rw [g.toNat_l1Bits]; omega), g.toNat_l1Bits]
  have hmask : (offset &&& ((1#64 <<< (l1Bits s).toNat) - 1#64)).toNat =
      offset.toNat % 2 ^ (2 * k - 3) := by
    rw [toNat_and, toNat_sub_of_le (by rw [le_def, hpow]; exact Nat.one_le_two_pow), hpow,
      show (1#64).toNat = 1 from rfl, Nat.and_two_pow_sub_one_eq_mod]
  have hrem : ((1#64 <<< (l1Bits s).toNat) -
      (offset &&& ((1#64 <<< (l1Bits s).toNat) - 1#64))).toNat =
      2 ^ (2 * k - 3) - offset.toNat % 2 ^ (2 * k - 3) := by
    rw [toNat_sub_of_le (by rw [le_def, hpow, hmask]; exact le_of_lt (Nat.mod_lt _ (Nat.two_pow_pos _))),
      hpow, hmask]
  have hL : 2 ^ (2 * k - 3) ≤ 2 ^ 39 := Nat.pow_le_pow_right (by decide) (by omega)
  have hic := g.indexInCluster_lt_pow12 offset
  rw [nbAvailableL1, toNat_add_of_lt, toNat_ushiftRight, Nat.shiftRight_eq_div_pow, hrem,
    toNat_setWidth, g.toNat_indexInCluster,
    Nat.mod_eq_of_lt (show offset.toNat % 2 ^ k / 512 < 2 ^ 64 by omega),
    show (2 : ℕ) ^ 9 = 512 from rfl]
  · rw [toNat_ushiftRight, Nat.shiftRight_eq_div_pow, hrem, toNat_setWidth, g.toNat_indexInCluster]
    have : (2 ^ (2 * k - 3) - offset.toNat % 2 ^ (2 * k - 3)) / 2 ^ 9 ≤ 2 ^ 39 :=
      le_trans (Nat.div_le_self _ _) (le_trans (Nat.sub_le _ _) hL)
    have : 2 ^ 39 + 2 ^ 12 < 2 ^ 64 := by decide
    omega

theorem Qcow2Geometry.toNat_nbNeeded (offset : BitVec 64) {num : BitVec 32}
    (hnum : num.toNat < 2 ^ 31) :
    (nbNeeded s offset num).toNat =
      min (num.toNat + offset.toNat % 2 ^ k / 512) (nbAvailableL1 s offset).toNat := by
  have hk := g.clusterBits_le
  have hic := g.indexInCluster_lt_pow12 offset
  have hsum : ((num + indexInCluster s offset).setWidth 64).toNat =
      num.toNat + offset.toNat % 2 ^ k / 512 := by
    have : 2 ^ 31 + 2 ^ 12 < 2 ^ 32 := by decide
    rw [toNat_setWidth, toNat_add_of_lt (by rw [g.toNat_indexInCluster]; omega),
      g.toNat_indexInCluster, Nat.mod_eq_of_lt (by omega)]
  rw [nbNeeded]
  split
  · next h =>
    rw [gt_iff_lt, lt_def, hsum] at h
    omega
  · next h =>
    rw [gt_iff_lt, lt_def, hsum] at h
    rw [hsum]
    omega

theorem Qcow2Geometry.toNat_sizeToClusters {size : BitVec 64} (hsize : size.toNat < 2 ^ 62) :
    (sizeToClusters s size).toNat = (size.toNat + 2 ^ k - 1) / 2 ^ k % 2 ^ 32 := by
  have hk := g.clusterBits_le
  have hm := toNat_signExtend_sub_one g.clusterSize (show k ≤ 30 by omega)
  have hcs : 2 ^ k ≤ 2 ^ 21 := Nat.pow_le_pow_right (by decide) hk
  have hsum : (size + (s.clusterSize - 1).signExtend 64).toNat = size.toNat + 2 ^ k - 1 := by
    have : 2 ^ 62 + 2 ^ 21 < 2 ^ 64 := by decide
    have := Nat.one_le_two_pow (n := k)
    rw [toNat_add_of_lt (by rw [hm]; omega), hm]
    omega
  have hmsb : (size + (s.clusterSize - 1).signExtend 64).msb = false := by
    rw [msb_eq_false_iff_two_mul_lt, hsum]
    have : 2 ^ 62 + 2 ^ 21 < 2 ^ 63 := by decide
    omega
  rw [sizeToClusters, toNat_setWidth, sshiftRight_eq_of_msb_false hmsb, toNat_ushiftRight,
    Nat.shiftRight_eq_div_pow, hsum, g.clusterBits]

end Geometry

/-! ## Sector arithmetic of a lookup

With `L = 2k - 3` the bits an L1 entry covers, `ic` the sector of `o` in its
cluster and `A` the sectors from the start of `o`'s cluster to the end of
its L1 entry's range, a run of `R` sectors from the start of the cluster
(`ic < R ≤ A`) answers `R - ic` sectors from `o`. -/

section Sectors

variable {k o : ℕ} (hk : 9 ≤ k) (ho : o % 512 = 0)
include hk ho

theorem indexInCluster_mul : o % 2 ^ k / 512 * 512 = o % 2 ^ k := by
  have h : o % 2 ^ k % 2 ^ 9 = o % 2 ^ 9 := Nat.mod_mod_of_dvd o (Nat.pow_dvd_pow 2 hk)
  rw [show (2 : ℕ) ^ 9 = 512 from rfl, ho] at h
  exact Nat.div_mul_cancel (Nat.dvd_of_mod_eq_zero h)

theorem one_le_l1Tail : 1 ≤ (2 ^ (2 * k - 3) - o % 2 ^ (2 * k - 3)) / 512 := by
  have hB : o % 2 ^ (2 * k - 3) % 512 = 0 := by
    rw [show (512 : ℕ) = 2 ^ 9 from rfl, Nat.mod_mod_of_dvd o (Nat.pow_dvd_pow 2 (by omega))]
    exact ho
  have hL : 2 ^ (2 * k - 3) % 512 = 0 := by
    rw [show (512 : ℕ) = 2 ^ 9 from rfl]
    exact Nat.mod_eq_zero_of_dvd (Nat.pow_dvd_pow 2 (by omega))
  have hlt := Nat.mod_lt o (Nat.two_pow_pos (2 * k - 3))
  rw [Nat.le_div_iff_mul_le (by decide)]
  omega

omit hk ho in
/-- A run of at most `A` sectors from the cluster start ends inside the L1
entry's range. -/
theorem run_in_l1_range {R : ℕ}
    (hRA : R ≤ (2 ^ (2 * k - 3) - o % 2 ^ (2 * k - 3)) / 512 + o % 2 ^ k / 512) :
    o % 2 ^ (2 * k - 3) + (R - o % 2 ^ k / 512) * 512 ≤ 2 ^ (2 * k - 3) := by
  have h1 : R - o % 2 ^ k / 512 ≤ (2 ^ (2 * k - 3) - o % 2 ^ (2 * k - 3)) / 512 := by omega
  have h2 := Nat.div_mul_le_self (2 ^ (2 * k - 3) - o % 2 ^ (2 * k - 3)) 512
  have h3 := Nat.mul_le_mul_right 512 h1
  have h4 := Nat.mod_lt o (Nat.two_pow_pos (2 * k - 3))
  omega

/-- The clusters a run of `R ≤ A` sectors covers fit in the L2 table from
`o`'s entry on. -/
theorem clusters_add_l2Index_le {R : ℕ}
    (hRA : R ≤ (2 ^ (2 * k - 3) - o % 2 ^ (2 * k - 3)) / 512 + o % 2 ^ k / 512) :
    (R * 512 + 2 ^ k - 1) / 2 ^ k + o / 2 ^ k % 2 ^ (k - 3) ≤ 2 ^ (k - 3) := by
  have hsplit : 2 ^ (2 * k - 3) = 2 ^ k * 2 ^ (k - 3) := by rw [← Nat.pow_add]; congr 1; omega
  have hic := indexInCluster_mul hk ho
  -- B, the offset of `o` in its L1 entry's range, as whole clusters and a rest
  have hB : o % 2 ^ (2 * k - 3) % 2 ^ k = o % 2 ^ k :=
    Nat.mod_mod_of_dvd o (Nat.pow_dvd_pow 2 (by omega))
  have hBdiv : o % 2 ^ (2 * k - 3) / 2 ^ k = o / 2 ^ k % 2 ^ (k - 3) := by
    rw [hsplit, Nat.mod_mul_right_div_self]
  have hBdecomp := Nat.div_add_mod (o % 2 ^ (2 * k - 3)) (2 ^ k)
  rw [hB, hBdiv] at hBdecomp
  have htail : (2 ^ (2 * k - 3) - o % 2 ^ (2 * k - 3)) / 512 * 512 =
      2 ^ (2 * k - 3) - o % 2 ^ (2 * k - 3) := by
    apply Nat.div_mul_cancel
    have hB512 : o % 2 ^ (2 * k - 3) % 512 = 0 := by
      rw [show (512 : ℕ) = 2 ^ 9 from rfl, Nat.mod_mod_of_dvd o (Nat.pow_dvd_pow 2 (by omega))]
      exact ho
    have hL : 2 ^ (2 * k - 3) % 512 = 0 := by
      rw [show (512 : ℕ) = 2 ^ 9 from rfl]
      exact Nat.mod_eq_zero_of_dvd (Nat.pow_dvd_pow 2 (by omega))
    have hlt := Nat.mod_lt o (Nat.two_pow_pos (2 * k - 3))
    exact Nat.dvd_of_mod_eq_zero (by omega)
  have hq : o / 2 ^ k % 2 ^ (k - 3) < 2 ^ (k - 3) := Nat.mod_lt _ (Nat.two_pow_pos _)
  -- R sectors reach at most the end of the range: (2^(k-3) - q) clusters
  have hR512 : R * 512 ≤ (2 ^ (k - 3) - o / 2 ^ k % 2 ^ (k - 3)) * 2 ^ k := by
    have := Nat.mul_le_mul_right 512 hRA
    rw [Nat.add_mul, htail, hic, hsplit] at this
    rw [Nat.sub_mul, Nat.mul_comm (2 ^ (k - 3))]
    have hle : o / 2 ^ k % 2 ^ (k - 3) * 2 ^ k ≤ 2 ^ k * 2 ^ (k - 3) := by
      rw [Nat.mul_comm]
      exact Nat.mul_le_mul_left _ (le_of_lt hq)
    rw [Nat.mul_comm (2 ^ k) (o / 2 ^ k % 2 ^ (k - 3))] at hBdecomp
    omega
  have hpos := Nat.two_pow_pos k
  have hdiv : (R * 512 + 2 ^ k - 1) / 2 ^ k < 2 ^ (k - 3) - o / 2 ^ k % 2 ^ (k - 3) + 1 := by
    rw [Nat.div_lt_iff_lt_mul hpos, Nat.add_mul, Nat.one_mul]
    omega
  omega

/-- The byte `j` of a mapped run of `R ≤ c · cluster_sectors` sectors lies in
the `(o % 2^k + j) / 2^k`-th cluster of the run, one of its `c`, and that
cluster's L2 index is as many entries after `o`'s. -/
theorem run_byte {c R j : ℕ} (hR : R ≤ c * 2 ^ (k - 9))
    (hRA : R ≤ (2 ^ (2 * k - 3) - o % 2 ^ (2 * k - 3)) / 512 + o % 2 ^ k / 512)
    (hj : j < (R - o % 2 ^ k / 512) * 512) :
    (o % 2 ^ k + j) / 2 ^ k < c ∧
      (o + j) / 2 ^ k % 2 ^ (k - 3) = o / 2 ^ k % 2 ^ (k - 3) + (o % 2 ^ k + j) / 2 ^ k := by
  have hic := indexInCluster_mul hk ho
  have hck : c * 2 ^ (k - 9) * 512 = c * 2 ^ k := by
    rw [Nat.mul_assoc, show (512 : ℕ) = 2 ^ 9 from rfl, ← Nat.pow_add, Nat.sub_add_cancel hk]
  have hsplit : 2 ^ (2 * k - 3) = 2 ^ k * 2 ^ (k - 3) := by rw [← Nat.pow_add]; congr 1; omega
  have hL := run_in_l1_range hRA
  constructor
  · rw [Nat.div_lt_iff_lt_mul (Nat.two_pow_pos k)]
    have := Nat.mul_le_mul_right 512 hR
    have : (R - o % 2 ^ k / 512) * 512 = R * 512 - o % 2 ^ k := by rw [Nat.sub_mul, hic]
    omega
  · have hlt : o % 2 ^ (2 * k - 3) + j < 2 ^ (2 * k - 3) := by omega
    have hB : o % 2 ^ (2 * k - 3) % 2 ^ k = o % 2 ^ k :=
      Nat.mod_mod_of_dvd o (Nat.pow_dvd_pow 2 (by omega))
    rw [← Nat.mod_mul_right_div_self, ← Nat.mod_mul_right_div_self o, ← hsplit,
      add_mod_of_mod_add_lt hlt, add_div_eq (Nat.two_pow_pos k), hB]

end Sectors

/-! ## The lookup answers for a homogeneous run -/

section Run

variable {s : BDRVQcowState} {k : ℕ} (g : Qcow2Geometry s k)
include g

/-- A guest byte in the range of `offset`'s L1 entry is looked up through
the L1 entry the code reads, as long as the L1 index fits its `unsigned
int`. -/
theorem Qcow2Geometry.guestL2Entry_eq {offset : BitVec 64}
    (hidx : offset.toNat / 2 ^ (2 * k - 3) < 2 ^ 32) {p : ℕ}
    (hp : p / 2 ^ (2 * k - 3) = offset.toNat / 2 ^ (2 * k - 3)) :
    guestL2Entry s p =
      if s.l1Size ≤ l1Index s offset then some 0
      else if s.l1Table (l1Index s offset).toNat &&& L1E_OFFSET_MASK = 0 then some 0
      else (s.l2Load (s.l1Table (l1Index s offset).toNat &&& L1E_OFFSET_MASK)).map
        fun l2Table => l2Table (p / 2 ^ k % 2 ^ (k - 3)) := by
  have hk := g.clusterBits_ge
  have hl1 : (l1Index s offset).toNat = p / 2 ^ (2 * k - 3) := by
    rw [g.toNat_l1Index, Nat.mod_eq_of_lt hidx, hp]
  simp only [guestL2Entry, le_def, hl1, g.l2Bits, g.clusterBits, g.l2Size,
    show k - 3 + k = 2 * k - 3 by omega]

/-- The switch measures a run of `1 ≤ c ≤ nb_clusters` entries of the first
entry's kind: one entry for a compressed cluster, and for a normal run
entries whose offsets follow `cluster_offset` cluster by cluster. -/
theorem Qcow2Geometry.qcow2ClusterRun_spec {t : ℕ → BitVec 64} {nbClusters : BitVec 64}
    {c : ℕ} (hnb : 0 < nbClusters.toNat) (hnb' : nbClusters.toNat ≤ 2 ^ 18)
    (hc : (qcow2ClusterRun s t nbClusters).1.toNat = c) :
    1 ≤ c ∧ c ≤ nbClusters.toNat ∧
      (∀ d < c, qcow2GetClusterType (t d) = qcow2GetClusterType (t 0)) ∧
      (qcow2GetClusterType (t 0) = .compressed → c = 1) ∧
      (qcow2GetClusterType (t 0) = .normal → ∀ d < c,
        (t d &&& L2E_OFFSET_MASK).toNat =
          (qcow2ClusterRun s t nbClusters).2.toNat + d * 2 ^ k) := by
  have hk := g.clusterBits_ge
  have hk' := g.clusterBits_le
  unfold qcow2ClusterRun at hc ⊢
  rcases ht : qcow2GetClusterType (t 0) with _ | _ | _ | _ <;> simp only [ht] at hc ⊢
  · -- unallocated: count_contiguous_free_clusters
    obtain ⟨h1, h2, h3⟩ := countContiguousFreeClusters_run hnb (by omega) ht hc
    exact ⟨h1, h2, h3, by rintro ⟨⟩, by rintro ⟨⟩⟩
  · -- normal: count_contiguous_clusters, and the offsets follow the first
    obtain ⟨h1, h2, h3⟩ :=
      countContiguousClusters_run g.clusterSize (by omega) hk' hnb hnb' (Or.inr ht) hc
    refine ⟨h1, h2, fun d hd => (h3 d hd).2.trans ht, by rintro ⟨⟩, fun _ d hd => ?_⟩
    rw [and_L2E_OFFSET_MASK_of_normal ((h3 d hd).2.trans ht), and_L2E_OFFSET_MASK_of_normal ht]
    exact (h3 d hd).1
  · -- compressed: one cluster
    have hc1 : c = 1 := by rw [← hc]; rfl
    exact ⟨by omega, by omega, fun d hd => by rw [show d = 0 by omega, ht], fun _ => hc1,
      by rintro ⟨⟩⟩
  · -- zero: count_contiguous_clusters
    obtain ⟨h1, h2, h3⟩ :=
      countContiguousClusters_run g.clusterSize (by omega) hk' hnb hnb' (Or.inl ht) hc
    exact ⟨h1, h2, fun d hd => (h3 d hd).2.trans ht, by rintro ⟨⟩, by rintro ⟨⟩⟩

/-- `nb_clusters` counts the clusters from `offset`'s to the end of the
needed sectors, and they lie in the L2 table from `offset`'s entry on: the
counting loops read no entry past the table. -/
theorem Qcow2Geometry.toNat_nbClusters {offset : BitVec 64} {num : BitVec 32}
    (halign : offset.toNat % 512 = 0) (hnum : num.toNat < 2 ^ 31) :
    (nbClusters s offset num).toNat = ((nbNeeded s offset num).toNat * 512 + 2 ^ k - 1) / 2 ^ k ∧
      (nbClusters s offset num).toNat + offset.toNat / 2 ^ k % 2 ^ (k - 3) ≤ 2 ^ (k - 3) := by
  have hk := g.clusterBits_ge
  have hk' := g.clusterBits_le
  have hneed := g.toNat_nbNeeded offset hnum
  have havail := g.toNat_nbAvailableL1 offset
  have hic := g.indexInCluster_lt_pow12 offset
  have hNA : (nbNeeded s offset num).toNat ≤ (nbAvailableL1 s offset).toNat := by omega
  have hbound := clusters_add_l2Index_le hk halign (R := (nbNeeded s offset num).toNat)
    (by omega)
  -- the needed sectors are at most an L1 entry's range plus a cluster
  have hL : 2 ^ (2 * k - 3) ≤ 2 ^ 39 := Nat.pow_le_pow_right (by decide) (by omega)
  have htail : (2 ^ (2 * k - 3) - offset.toNat % 2 ^ (2 * k - 3)) / 512 ≤ 2 ^ 39 :=
    le_trans (Nat.div_le_self _ _) (le_trans (Nat.sub_le _ _) hL)
  have hshift : (nbNeeded s offset num <<< 9).toNat = (nbNeeded s offset num).toNat * 512 := by
    rw [toNat_shiftLeft, Nat.shiftLeft_eq]
    exact Nat.mod_eq_of_lt (by omega)
  have hsmall : 2 ^ (k - 3) ≤ 2 ^ 18 := Nat.pow_le_pow_right (by decide) (by omega)
  have heq : (nbClusters s offset num).toNat =
      ((nbNeeded s offset num).toNat * 512 + 2 ^ k - 1) / 2 ^ k := by
    rw [nbClusters, g.toNat_sizeToClusters (by rw [hshift]; omega), hshift]
    exact Nat.mod_eq_of_lt (by omega)
  exact ⟨heq, by rw [heq]; exact hbound⟩

/-- `c * cluster_sectors` in `int`, widened to the `uint64_t` `nb_available`. -/
theorem Qcow2Geometry.toNat_mul_clusterSectors {c : BitVec 32} (hc : c.toNat ≤ 2 ^ 18) :
    ((c * s.clusterSectors).signExtend 64).toNat = c.toNat * 2 ^ (k - 9) := by
  have hk' := g.clusterBits_le
  have hcs : 2 ^ (k - 9) ≤ 2 ^ 12 := Nat.pow_le_pow_right (by decide) (by omega)
  have hprod : c.toNat * 2 ^ (k - 9) ≤ 2 ^ 18 * 2 ^ 12 := Nat.mul_le_mul hc hcs
  have hbig : 2 ^ 18 * 2 ^ 12 < 2 ^ 31 := by decide
  have hmul : (c * s.clusterSectors).toNat = c.toNat * 2 ^ (k - 9) := by
    rw [toNat_mul_of_lt (by rw [g.clusterSectors]; omega), g.clusterSectors]
  have hmsb : (c * s.clusterSectors).msb = false := by
    rw [msb_eq_false_iff_two_mul_lt, hmul]
    omega
  rw [signExtend_eq_setWidth_of_msb_false hmsb, toNat_setWidth, hmul]
  exact Nat.mod_eq_of_lt (by omega)

/-- Assembling the promise from a run of `R` sectors counted from the start
of `offset`'s cluster, `ic < R ≤ nb_needed`, of which the request gets the
`R - ic` from `offset` on. -/
theorem Qcow2Geometry.homogeneousRun_of_sectors {offset : BitVec 64} {num num' : BitVec 32}
    {ret : QCow2ClusterType} {clusterOffset : BitVec 64} {R : ℕ}
    (halign : offset.toNat % 512 = 0) (hnum : 1 ≤ num.toInt)
    (hR : num'.toNat = R - offset.toNat % 2 ^ k / 512)
    (hic : offset.toNat % 2 ^ k / 512 < R) (hRN : R ≤ (nbNeeded s offset num).toNat)
    (htype : ∀ j < (R - offset.toNat % 2 ^ k / 512) * 512,
      guestClusterType s (offset.toNat + j) = some ret)
    (hcomp : ret = .compressed → R ≤ 2 ^ (k - 9))
    (hhost : ret = .normal → ∀ j < (R - offset.toNat % 2 ^ k / 512) * 512,
      guestHostOffset s (offset.toNat + j) =
        some (clusterOffset.toNat + offset.toNat % 2 ^ k + j)) :
    HomogeneousRun s k offset num ret num' clusterOffset := by
  have hk := g.clusterBits_ge
  obtain ⟨hn1, hn31⟩ := toNat_lt_of_one_le_toInt hnum
  rw [g.toNat_nbNeeded offset hn31, g.toNat_nbAvailableL1] at hRN
  have hnum' : num'.toNat < 2 ^ 31 := by omega
  rw [← hR] at htype hhost
  constructor
  · rw [toInt_of_toNat_lt hnum']
    omega
  · rw [toInt_of_toNat_lt hnum', toInt_of_toNat_lt hn31]
    omega
  · rw [hR]
    exact run_in_l1_range (by omega)
  · exact htype
  · -- a compressed run is one cluster: `R ≤ cluster_sectors`
    intro hc
    have hR1 := Nat.mul_le_mul_right 512 (hcomp hc)
    have hic512 := indexInCluster_mul hk halign (o := offset.toNat)
    have h2k := g.two_pow_clusterBits
    omega
  · exact hhost

/-- Past `l1_size`, or with no L2 table, the lookup answers for the rest of
the L1 entry's range up to the request, all unallocated. -/
theorem Qcow2Geometry.homogeneousRun_unmapped {offset : BitVec 64} {num : BitVec 32}
    (halign : offset.toNat % 512 = 0) (hnum : 1 ≤ num.toInt)
    (hmap : ∀ p, p / 2 ^ (2 * k - 3) = offset.toNat / 2 ^ (2 * k - 3) →
      guestL2Entry s p = some 0) :
    HomogeneousRun s k offset num .unallocated
      (clampNum (nbAvailableL1 s offset) (nbNeeded s offset num) (indexInCluster s offset)) 0 := by
  have hk := g.clusterBits_ge
  obtain ⟨hn1, hn31⟩ := toNat_lt_of_one_le_toInt hnum
  have hneed := g.toNat_nbNeeded offset hn31
  have havail := g.toNat_nbAvailableL1 offset
  have hic := g.toNat_indexInCluster offset
  have htail := one_le_l1Tail hk halign (o := offset.toNat)
  have hic12 := g.indexInCluster_lt_pow12 offset
  have hNA : (nbNeeded s offset num).toNat ≤ (nbAvailableL1 s offset).toNat := by omega
  apply g.homogeneousRun_of_sectors halign hnum (R := (nbNeeded s offset num).toNat)
  · rw [toNat_clampNum (by omega) (by omega), min_eq_right hNA, hic]
  · omega
  · exact le_refl _
  · intro j hj
    have hl1 := run_in_l1_range (k := k) (R := (nbNeeded s offset num).toNat) (o := offset.toNat)
      (by omega)
    rw [guestClusterType, hmap _ (add_div_of_mod_add_lt (by omega)), Option.map_some,
      qcow2GetClusterType_zero]
  · rintro ⟨⟩
  · rintro ⟨⟩

/-- With an L2 table, the lookup answers for the first `min (c ·
cluster_sectors, nb_needed) - ic` sectors of a run of `c ≥ 1` entries from
`offset`'s, all of the returned kind. -/
theorem Qcow2Geometry.homogeneousRun_mapped {offset : BitVec 64} {num num' : BitVec 32}
    {ret : QCow2ClusterType} {clusterOffset : BitVec 64} {t : ℕ → BitVec 64} {c : ℕ}
    (halign : offset.toNat % 512 = 0) (hnum : 1 ≤ num.toInt)
    (hmap : ∀ p, p / 2 ^ (2 * k - 3) = offset.toNat / 2 ^ (2 * k - 3) →
      guestL2Entry s p = some (t (p / 2 ^ k % 2 ^ (k - 3))))
    (hc : 1 ≤ c)
    (hR : num'.toNat =
      min (c * 2 ^ (k - 9)) (nbNeeded s offset num).toNat - offset.toNat % 2 ^ k / 512)
    (htype : ∀ d < c,
      qcow2GetClusterType (t (offset.toNat / 2 ^ k % 2 ^ (k - 3) + d)) = ret)
    (hcomp : ret = .compressed → c = 1)
    (hhost : ret = .normal → ∀ d < c,
      (t (offset.toNat / 2 ^ k % 2 ^ (k - 3) + d) &&& L2E_OFFSET_MASK).toNat =
        clusterOffset.toNat + d * 2 ^ k) :
    HomogeneousRun s k offset num ret num' clusterOffset := by
  have hk := g.clusterBits_ge
  obtain ⟨hn1, hn31⟩ := toNat_lt_of_one_le_toInt hnum
  have hneed := g.toNat_nbNeeded offset hn31
  have havail := g.toNat_nbAvailableL1 offset
  have htail := one_le_l1Tail hk halign (o := offset.toNat)
  have hic := g.indexInCluster_lt offset
  have hic12 := g.indexInCluster_lt_pow12 offset
  have hcs : 2 ^ (k - 9) ≤ c * 2 ^ (k - 9) := Nat.le_mul_of_pos_left _ hc
  have hRA : min (c * 2 ^ (k - 9)) (nbNeeded s offset num).toNat ≤
      (2 ^ (2 * k - 3) - offset.toNat % 2 ^ (2 * k - 3)) / 512 + offset.toNat % 2 ^ k / 512 := by
    omega
  -- every byte of the answer lies in the L1 entry's range and in one of the `c` clusters
  have hbyte : ∀ j < (min (c * 2 ^ (k - 9)) (nbNeeded s offset num).toNat -
      offset.toNat % 2 ^ k / 512) * 512,
      (offset.toNat + j) / 2 ^ (2 * k - 3) = offset.toNat / 2 ^ (2 * k - 3) ∧
      (offset.toNat % 2 ^ k + j) / 2 ^ k < c ∧
      (offset.toNat + j) / 2 ^ k % 2 ^ (k - 3) =
        offset.toNat / 2 ^ k % 2 ^ (k - 3) + (offset.toNat % 2 ^ k + j) / 2 ^ k := by
    intro j hj
    have hl1 := run_in_l1_range hRA
    exact ⟨add_div_of_mod_add_lt (by omega), run_byte hk halign (min_le_left _ _) hRA hj⟩
  apply g.homogeneousRun_of_sectors halign hnum hR (by omega) (min_le_right _ _)
  · intro j hj
    obtain ⟨hsame, hd, hidx⟩ := hbyte j hj
    rw [guestClusterType, hmap _ hsame, hidx, Option.map_some, htype _ hd]
  · intro hcomp'
    rw [hcomp hcomp', Nat.one_mul]
    exact min_le_left _ _
  · intro hnormal j hj
    obtain ⟨hsame, hd, hidx⟩ := hbyte j hj
    rw [guestHostOffset, hmap _ hsame, hidx, Option.map_some, hhost hnormal _ hd, g.clusterSize,
      ← Nat.mod_add_mod, Nat.add_assoc, Nat.div_add_mod' (offset.toNat % 2 ^ k + j) (2 ^ k),
      Nat.add_assoc]

/-- The branch that reads an L2 table. -/
theorem Qcow2Geometry.homogeneousRun_loaded {offset : BitVec 64} {num : BitVec 32}
    {l2Table : ℕ → BitVec 64} (halign : offset.toNat % 512 = 0)
    (hidx : offset.toNat / 2 ^ (2 * k - 3) < 2 ^ 32) (hnum : 1 ≤ num.toInt)
    (hl1 : ¬s.l1Size ≤ l1Index s offset)
    (hl2 : ¬s.l1Table (l1Index s offset).toNat &&& L1E_OFFSET_MASK = 0)
    (hload : s.l2Load (s.l1Table (l1Index s offset).toNat &&& L1E_OFFSET_MASK) = some l2Table) :
    HomogeneousRun s k offset num
      (qcow2GetClusterType (l2Table ((l2Index s offset).toNat + 0)))
      (clampNum (((qcow2ClusterRun s (fun j => l2Table ((l2Index s offset).toNat + j))
        ((nbClusters s offset num).setWidth 64)).1 * s.clusterSectors).signExtend 64)
        (nbNeeded s offset num) (indexInCluster s offset))
      (qcow2ClusterRun s (fun j => l2Table ((l2Index s offset).toNat + j))
        ((nbClusters s offset num).setWidth 64)).2 := by
  have hk := g.clusterBits_ge
  have hk' := g.clusterBits_le
  obtain ⟨hn1, hn31⟩ := toNat_lt_of_one_le_toInt hnum
  obtain ⟨hnb, hnbl2⟩ := g.toNat_nbClusters halign hn31
  have hneed := g.toNat_nbNeeded offset hn31
  have havail := g.toNat_nbAvailableL1 offset
  have htail := one_le_l1Tail hk halign (o := offset.toNat)
  have hsmall : 2 ^ (k - 3) ≤ 2 ^ 18 := Nat.pow_le_pow_right (by decide) (by omega)
  have hnb64 : ((nbClusters s offset num).setWidth 64).toNat = (nbClusters s offset num).toNat := by
    rw [toNat_setWidth]
    exact Nat.mod_eq_of_lt (lt_of_lt_of_le (nbClusters s offset num).isLt (by decide))
  -- at least one sector is needed, so at least one cluster
  have hpos : 0 < ((nbClusters s offset num).setWidth 64).toNat := by
    rw [hnb64, hnb, Nat.div_pos_iff]
    exact ⟨Nat.two_pow_pos k, by omega⟩
  obtain ⟨hc1, hcle, htype, hcomp, hhost⟩ :=
    g.qcow2ClusterRun_spec (t := fun j => l2Table ((l2Index s offset).toNat + j)) hpos
      (by omega) rfl
  -- the run's `c * cluster_sectors` and the sector of `offset`, as numbers
  have hX := g.toNat_mul_clusterSectors (c := (qcow2ClusterRun s
    (fun j => l2Table ((l2Index s offset).toNat + j)) ((nbClusters s offset num).setWidth 64)).1)
    (by omega)
  have hic := g.toNat_indexInCluster offset
  have hicl := g.indexInCluster_lt offset
  have hic12 := g.indexInCluster_lt_pow12 offset
  have hcs := Nat.le_mul_of_pos_left (2 ^ (k - 9)) hc1
  refine g.homogeneousRun_mapped (t := l2Table) halign hnum ?_ hc1 ?_ ?_ ?_ ?_
  · intro p hp
    rw [g.guestL2Entry_eq hidx hp, if_neg hl1, if_neg hl2, hload, Option.map_some]
  · rw [toNat_clampNum (by rw [hX, hic]; omega) (by rw [hX]; omega), hX, hic]
  · intro d hd
    rw [← g.toNat_l2Index]
    exact htype d hd
  · exact hcomp
  · intro hn d hd
    rw [← g.toNat_l2Index]
    exact hhost hn d hd

end Run

theorem smallImage_geometry : Qcow2Geometry smallImage 9 :=
  ⟨le_refl 9, by decide, rfl, rfl, rfl, rfl, rfl⟩

end QemuKvm.Qcow2
