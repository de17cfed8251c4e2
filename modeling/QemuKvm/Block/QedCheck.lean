import Mathlib.Data.Nat.Count
import QemuKvm.Block.Qed

/-!
# QED: the consistency check (block/qed-check.c)

`qed_check` walks the L1 table and every L2 table it points to, marks each
referenced cluster in a bitmap, counts a cluster marked twice as a
corruption, and finally counts the clusters between the header and the end
of the file whose bit is clear as leaks. A table marks its `table_size`
clusters from the index of its first cluster on; a data cluster marks one.

The index of the cluster at byte offset `o` is `qed_bytes_to_clusters(o)`,
which for an aligned `o = c * cluster_size` is `c + c / (cluster_size - 1)`
(`toNat_qedBytesToClusters_aligned`), and the bitmap's length is
`qed_bytes_to_clusters(file_size)` computed the same way. Beyond
`cluster_size - 1` clusters the indices skip one in every
`cluster_size - 1`, and the leak scan counts each skipped index as a leak.

The model keeps the counters as natural numbers and the bitmap as a
function: the scan never fails (reads of the file do not fail, as in
`Block.Qed`), so `check_errors` stays as it was and the leak scan always
runs. Marking the image clean, which rewrites the header's feature bits, is
left out.

Results:

* `qedSetUsedLoop_fst`, `qedSetUsedLoop_snd` — marking `n` clusters sets
  the bits `[cluster, cluster + n)` and counts those already set;
* `qedCheckForLeaksLoop_eq` — the leak scan counts the clear bits;
* `qedCheck_empty_leaks` — for every open image whose L1 table is empty,
  `qed_check` reports no corruption and `N + N / (cluster_size - 1) -
  header_size - table_size` leaks for a file of `N` clusters, of which
  only `N - header_size - table_size` are unreferenced.
-/

namespace QemuKvm.Qed

/-- The counters of `BdrvCheckResult` and its `BlockFragInfo` that
`qed_check` sets. -/
structure BdrvCheckResult where
  corruptions : ℕ
  leaks : ℕ
  checkErrors : ℕ
  corruptionsFixed : ℕ
  totalClusters : BitVec 64
  allocatedClusters : ℕ
  fragmentedClusters : ℕ
  deriving DecidableEq, Repr

/-- `QEDCheck`: the image (whose tables a fixing check rewrites), the
result, whether to fix, the bitmap's length and the bitmap. -/
structure QEDCheck where
  s : BDRVQEDState
  result : BdrvCheckResult
  fix : Bool
  nclusters : BitVec 64
  usedClusters : ℕ → Bool

/-- The loop of `qed_set_used_clusters` from bit `cluster`, `n` bits to go,
with the corruptions found so far. -/
def qedSetUsedLoop (used : ℕ → Bool) (cluster corruptions : ℕ) : ℕ → (ℕ → Bool) × ℕ
  | 0 => (used, corruptions)
  | n + 1 =>
    -- clusters should only be referenced once
    let corruptions := if used cluster then corruptions + 1 else corruptions
    qedSetUsedLoop (Function.update used cluster true) (cluster + 1) corruptions n

/-- `qed_set_used_clusters`: marks `n` clusters from the one at `offset`;
true when none was marked before. -/
def qedSetUsedClusters (check : QEDCheck) (offset : BitVec 64) (n : ℕ) : QEDCheck × Bool :=
  let cluster := (qedBytesToClusters check.s offset).toNat
  let (used, corruptions) := qedSetUsedLoop check.usedClusters cluster 0 n
  ({ check with
      usedClusters := used
      result := { check.result with corruptions := check.result.corruptions + corruptions } },
    corruptions == 0)

@[simp] theorem qedSetUsedClusters_s (check : QEDCheck) (offset : BitVec 64) (n : ℕ) :
    (qedSetUsedClusters check offset n).1.s = check.s := rfl

@[simp] theorem qedSetUsedClusters_nclusters (check : QEDCheck) (offset : BitVec 64) (n : ℕ) :
    (qedSetUsedClusters check offset n).1.nclusters = check.nclusters := rfl

@[simp] theorem qedSetUsedClusters_usedClusters (check : QEDCheck) (offset : BitVec 64) (n : ℕ) :
    (qedSetUsedClusters check offset n).1.usedClusters =
      (qedSetUsedLoop check.usedClusters (qedBytesToClusters check.s offset).toNat 0 n).1 := rfl

@[simp] theorem qedSetUsedClusters_corruptions (check : QEDCheck) (offset : BitVec 64) (n : ℕ) :
    (qedSetUsedClusters check offset n).1.result.corruptions = check.result.corruptions +
      (qedSetUsedLoop check.usedClusters (qedBytesToClusters check.s offset).toNat 0 n).2 := rfl

@[simp] theorem qedSetUsedClusters_leaks (check : QEDCheck) (offset : BitVec 64) (n : ℕ) :
    (qedSetUsedClusters check offset n).1.result.leaks = check.result.leaks := rfl

/-- The loop of `qed_check_l2_table` from entry `i`, `fuel` entries to go:
the check, the table as fixed so far, and the number of invalid offsets. -/
def qedCheckL2Loop (check : QEDCheck) (table : ℕ → BitVec 64) (i numInvalid : ℕ)
    (lastOffset : BitVec 64) : ℕ → QEDCheck × (ℕ → BitVec 64) × ℕ
  | 0 => (check, table, numInvalid)
  | fuel + 1 =>
    let offset := table i
    if qedOffsetIsUnallocCluster offset || qedOffsetIsZeroCluster offset then
      qedCheckL2Loop check table (i + 1) numInvalid lastOffset fuel
    else
      let r := { check.result with allocatedClusters := check.result.allocatedClusters + 1 }
      let r :=
        if lastOffset ≠ 0 ∧ lastOffset + check.s.header.clusterSize.setWidth 64 ≠ offset then
          { r with fragmentedClusters := r.fragmentedClusters + 1 }
        else r
      let check := { check with result := r }
      -- detect invalid cluster offset
      if !qedCheckClusterOffset check.s offset then
        if check.fix then
          qedCheckL2Loop
            { check with result := { check.result with
                corruptionsFixed := check.result.corruptionsFixed + 1 } }
            (Function.update table i 0) (i + 1) (numInvalid + 1) offset fuel
        else
          qedCheckL2Loop
            { check with result := { check.result with
                corruptions := check.result.corruptions + 1 } }
            table (i + 1) (numInvalid + 1) offset fuel
      else
        qedCheckL2Loop (qedSetUsedClusters check offset 1).1 table (i + 1) numInvalid offset fuel

/-- `qed_check_l2_table`. -/
def qedCheckL2Table (check : QEDCheck) (table : ℕ → BitVec 64) :
    QEDCheck × (ℕ → BitVec 64) × ℕ :=
  qedCheckL2Loop check table 0 0 0 check.s.tableNelems.toNat

/-- The loop of `qed_check_l1_table` from entry `i`, `fuel` entries to go,
with the number of invalid L1 entries so far. A fixed L1 entry is cleared
in `s->l1_table` itself; a fixed L2 table is written back to the file. -/
def qedCheckL1Loop (check : QEDCheck) (i numInvalidL1 : ℕ) : ℕ → QEDCheck × ℕ
  | 0 => (check, numInvalidL1)
  | fuel + 1 =>
    let offset := check.s.l1Table i
    if qedOffsetIsUnallocCluster offset then qedCheckL1Loop check (i + 1) numInvalidL1 fuel
    -- detect invalid L2 offset
    else if !qedCheckTableOffset check.s offset then
      let check :=
        if check.fix then
          { check with
            s := { check.s with l1Table := Function.update check.s.l1Table i 0 }
            result := { check.result with corruptionsFixed := check.result.corruptionsFixed + 1 } }
        else
          { check with result := { check.result with corruptions := check.result.corruptions + 1 } }
      qedCheckL1Loop check (i + 1) (numInvalidL1 + 1) fuel
    else
      let (check, ok) := qedSetUsedClusters check offset check.s.header.tableSize.toNat
      -- skip an invalid table
      if !ok then qedCheckL1Loop check (i + 1) numInvalidL1 fuel
      else
        let (check, table, numInvalidL2) := qedCheckL2Table check (check.s.l2Tables offset)
        -- write out the fixed L2 table
        let check :=
          if 0 < numInvalidL2 ∧ check.fix then
            { check with s := { check.s with l2Tables := Function.update check.s.l2Tables offset table } }
          else check
        qedCheckL1Loop check (i + 1) numInvalidL1 fuel

/-- `qed_check_l1_table`: the L1 table's own clusters, then every entry. -/
def qedCheckL1Table (check : QEDCheck) : QEDCheck :=
  let check := (qedSetUsedClusters check check.s.header.l1TableOffset
    check.s.header.tableSize.toNat).1
  (qedCheckL1Loop check 0 0 check.s.tableNelems.toNat).1

/-- The loop of `qed_check_for_leaks` from bit `i`, `fuel` bits to go. -/
def qedCheckForLeaksLoop (used : ℕ → Bool) (i leaks : ℕ) : ℕ → ℕ
  | 0 => leaks
  | fuel + 1 => qedCheckForLeaksLoop used (i + 1) (if used i then leaks else leaks + 1) fuel

/-- `qed_check_for_leaks`: every clear bit from `header_size` to
`nclusters`. -/
def qedCheckForLeaks (check : QEDCheck) : QEDCheck :=
  let h := check.s.header.headerSize.toNat
  { check with result := { check.result with
      leaks := qedCheckForLeaksLoop check.usedClusters h check.result.leaks
        (check.nclusters.toNat - h) } }

@[simp] theorem qedCheckForLeaks_corruptions (check : QEDCheck) :
    (qedCheckForLeaks check).result.corruptions = check.result.corruptions := rfl

@[simp] theorem qedCheckForLeaks_leaks (check : QEDCheck) :
    (qedCheckForLeaks check).result.leaks =
      qedCheckForLeaksLoop check.usedClusters check.s.header.headerSize.toNat check.result.leaks
        (check.nclusters.toNat - check.s.header.headerSize.toNat) := rfl

/-- `qed_check` on a state and the result it adds to. -/
def qedCheck (s : BDRVQEDState) (result : BdrvCheckResult) (fix : Bool) : QEDCheck :=
  let cs := s.header.clusterSize.setWidth 64
  let check : QEDCheck :=
    ⟨s, { result with totalClusters := (s.header.imageSize + cs - 1) / cs }, fix,
      qedBytesToClusters s s.fileSize, fun _ => false⟩
  qedCheckForLeaks (qedCheckL1Table check)

/-! ## Marking and counting -/

/-- Marking `n` clusters from `cluster` sets exactly the bits
`[cluster, cluster + n)`. -/
theorem qedSetUsedLoop_fst (used : ℕ → Bool) (cluster corruptions n j : ℕ) :
    (qedSetUsedLoop used cluster corruptions n).1 j =
      (used j || decide (cluster ≤ j ∧ j < cluster + n)) := by
  induction n generalizing used cluster corruptions with
  | zero =>
    simp only [qedSetUsedLoop, Nat.add_zero]
    simp
  | succ n ih =>
    rw [qedSetUsedLoop, ih]
    by_cases hj : j = cluster
    · subst hj
      simp
    · have hiff : (cluster + 1 ≤ j ∧ j < cluster + 1 + n) ↔ (cluster ≤ j ∧ j < cluster + (n + 1)) := by
        omega
      simp only [Function.update_of_ne hj, hiff]

/-- and counts the clusters among them that were marked before. -/
theorem qedSetUsedLoop_snd (used : ℕ → Bool) (cluster corruptions n : ℕ) :
    (qedSetUsedLoop used cluster corruptions n).2 =
      corruptions + Nat.count (fun j => used (cluster + j) = true) n := by
  induction n generalizing used cluster corruptions with
  | zero => simp [qedSetUsedLoop]
  | succ n ih =>
    rw [qedSetUsedLoop, ih, Nat.count_succ']
    -- the bit set now is below the ones still to come
    have hrest : Nat.count (fun j => Function.update used cluster true (cluster + 1 + j) = true) n =
        Nat.count (fun j => used (cluster + (j + 1)) = true) n := by
      congr 1
      funext j
      rw [Function.update_of_ne (by omega), Nat.add_assoc, Nat.add_comm 1 j]
    rw [hrest]
    simp only [Nat.add_zero]
    by_cases hc : used cluster = true
    · simp only [hc, ↓reduceIte]
      omega
    · simp only [hc, Bool.false_eq_true, ↓reduceIte]
      omega

/-- The leak scan adds the number of clear bits it passes. -/
theorem qedCheckForLeaksLoop_eq (used : ℕ → Bool) (i leaks fuel : ℕ) :
    qedCheckForLeaksLoop used i leaks fuel =
      leaks + Nat.count (fun j => used (i + j) = false) fuel := by
  induction fuel generalizing i leaks with
  | zero => simp [qedCheckForLeaksLoop]
  | succ fuel ih =>
    rw [qedCheckForLeaksLoop, ih, Nat.count_succ', Nat.add_zero]
    have hrest : Nat.count (fun j => used (i + 1 + j) = false) fuel =
        Nat.count (fun j => used (i + (j + 1)) = false) fuel := by
      congr 1
      funext j
      rw [Nat.add_assoc, Nat.add_comm 1 j]
    rw [hrest]
    cases hi : used i
    · simp only [Bool.false_eq_true, ↓reduceIte]
      omega
    · simp only [↓reduceIte, Bool.true_eq_false]
      omega

/-- Of the `M` positions from `h`, all but the `n` in `[c, c + n)` lie
outside that interval, when it is inside them. -/
theorem count_not_mem_interval {h c n M : ℕ} (hc : h ≤ c) (hM : c + n ≤ h + M) :
    Nat.count (fun j => ¬(c ≤ h + j ∧ h + j < c + n)) M = M - n := by
  obtain ⟨r, rfl⟩ : ∃ r, M = (c - h) + n + r := ⟨M - (c - h) - n, by omega⟩
  rw [Nat.count_add, Nat.count_add]
  have hbelow : Nat.count (fun j => ¬(c ≤ h + j ∧ h + j < c + n)) (c - h) = c - h :=
    Nat.count_iff_forall.2 (fun j hj => by omega)
  have hin : Nat.count (fun j => ¬(c ≤ h + (c - h + j) ∧ h + (c - h + j) < c + n)) n = 0 :=
    Nat.count_iff_forall_not.2 (fun j hj => by omega)
  have habove : Nat.count (fun j => ¬(c ≤ h + (c - h + n + j) ∧ h + (c - h + n + j) < c + n)) r = r :=
    Nat.count_iff_forall.2 (fun j hj => by omega)
  rw [hbelow, hin, habove]
  omega

/-- An L1 table with no entries from `i` on leaves the check as it is. -/
theorem qedCheckL1Loop_empty (check : QEDCheck) (i numInvalidL1 fuel : ℕ)
    (hempty : ∀ j, i ≤ j → check.s.l1Table j = 0) :
    qedCheckL1Loop check i numInvalidL1 fuel = (check, numInvalidL1) := by
  induction fuel generalizing i with
  | zero => rfl
  | succ fuel ih =>
    have hu : qedOffsetIsUnallocCluster (check.s.l1Table i) = true := by
      simp [qedOffsetIsUnallocCluster, hempty i le_rfl]
    rw [qedCheckL1Loop, if_pos hu, ih (i + 1) (fun j hj => hempty j (by omega))]

/-- With an empty L1 table `qed_check_l1_table` marks the L1 table's own
clusters and nothing else. -/
theorem qedCheckL1Table_empty (check : QEDCheck) (hempty : ∀ i, check.s.l1Table i = 0) :
    qedCheckL1Table check =
      (qedSetUsedClusters check check.s.header.l1TableOffset check.s.header.tableSize.toNat).1 := by
  unfold qedCheckL1Table
  dsimp only
  rw [qedCheckL1Loop_empty _ 0 0 _ (fun j _ => by simpa using hempty j)]

/-! ## Leaks of an image with an empty L1 table -/

section Empty
variable {s : BDRVQEDState} {k t : ℕ}

/-- For every open image whose L1 table is empty, `qed_check` finds no
corruption and reports `N + N / (cluster_size - 1) - header_size -
table_size` leaks for a file of `N` clusters: the bitmap has
`qed_bytes_to_clusters(file_size)` bits, one more for every
`cluster_size - 1` clusters, and only the L1 table's are set. -/
theorem qedCheck_empty_leaks (g : QedGeometry s k t) (hfs : s.fileSize.toNat % 2 ^ k = 0)
    (hl1 : qedCheckTableOffset s s.header.l1TableOffset = true) (hempty : ∀ i, s.l1Table i = 0)
    (result : BdrvCheckResult) (fix : Bool) :
    let N := s.fileSize.toNat / 2 ^ k
    (qedCheck s result fix).result.corruptions = result.corruptions ∧
      (qedCheck s result fix).result.leaks =
        result.leaks + (N + N / (2 ^ k - 1) - s.header.headerSize.toNat - 2 ^ t) := by
  dsimp only
  have hk := g.clusterSize
  have hk1 : 0 < k := by
    have := g.clusterBits_ge
    omega
  have hpos : 0 < 2 ^ k := Nat.two_pow_pos k
  have htpos : 0 < 2 ^ t := Nat.two_pow_pos t
  -- a one-cluster table never passes the check, so the L1 table has two clusters or more
  have ht1 : 1 ≤ t := by
    rcases Nat.eq_zero_or_pos t with rfl | h
    · have hts : s.header.tableSize = 1 := BitVec.eq_of_toNat_eq (by rw [g.tableSize]; rfl)
      rw [qedCheckTableOffset_one_cluster hts] at hl1
      cases hl1
    · exact h
  obtain ⟨hal, hhdr, hfit⟩ :=
    (qedCheckTableOffset_iff hk g.tableSize ht1 g.tableBits_le g.clusterBits_le hfs _).1 hl1
  -- the L1 table starts at cluster `a`, which has bit `a + a / (2 ^ k - 1)`
  have ha_ge : s.header.headerSize.toNat ≤ s.header.l1TableOffset.toNat / 2 ^ k :=
    (Nat.le_div_iff_mul_le hpos).2 hhdr
  have ha_le : s.header.l1TableOffset.toNat / 2 ^ k + 2 ^ t ≤ s.fileSize.toNat / 2 ^ k := by
    apply (Nat.le_div_iff_mul_le hpos).2
    rw [Nat.add_mul, Nat.div_mul_cancel (Nat.dvd_of_mod_eq_zero hal)]
    exact hfit
  have hdiv : s.header.l1TableOffset.toNat / 2 ^ k / (2 ^ k - 1) ≤
      s.fileSize.toNat / 2 ^ k / (2 ^ k - 1) :=
    Nat.div_le_div_right (by omega)
  have hq0 : 0 ≤ s.header.l1TableOffset.toNat / 2 ^ k / (2 ^ k - 1) := Nat.zero_le _
  have hcount := count_not_mem_interval (h := s.header.headerSize.toNat)
    (c := (qedBytesToClusters s s.header.l1TableOffset).toNat) (n := 2 ^ t)
    (M := (qedBytesToClusters s s.fileSize).toNat - s.header.headerSize.toNat)
    (by rw [toNat_qedBytesToClusters_aligned hk hk1 hal]; omega)
    (by rw [toNat_qedBytesToClusters_aligned hk hk1 hal, toNat_qedBytesToClusters_aligned hk hk1 hfs]
        omega)
  simp only [qedCheck]
  rw [qedCheckL1Table_empty _ hempty]
  refine ⟨?_, ?_⟩
  · -- nothing was marked before the L1 table
    simp [qedSetUsedLoop_snd]
  · simp only [qedCheckForLeaks_leaks, qedSetUsedClusters_usedClusters, qedSetUsedClusters_s,
      qedSetUsedClusters_nclusters, qedSetUsedClusters_leaks, qedCheckForLeaksLoop_eq,
      qedSetUsedLoop_fst, Bool.false_or, decide_eq_false_iff_not, g.tableSize]
    rw [hcount, toNat_qedBytesToClusters_aligned hk hk1 hfs]

end Empty

/-- A 4 KiB-cluster image of 4095 clusters with an empty L1 table of four
clusters after a one-cluster header: 4090 clusters are unreferenced, and
`qed_check` reports 4091 leaks. -/
theorem qedCheck_empty_leaks_sixteenM :
    let s := qedGeometry ⟨0xfff000, ⟨0x1000, 4, 1, 0x1000, 0x40000000⟩, fun _ => 0, fun _ _ => 0,
      0, 0, 0, 0⟩
    QedGeometry s 12 2 ∧ s.fileSize.toNat % 2 ^ 12 = 0 ∧
      qedCheckTableOffset s s.header.l1TableOffset = true ∧ (∀ i, s.l1Table i = 0) ∧
      ((qedCheck s ⟨0, 0, 0, 0, 0, 0, 0⟩ false).result.corruptions = 0 ∧
        (qedCheck s ⟨0, 0, 0, 0, 0, 0, 0⟩ false).result.leaks = 4091) := by
  intro s
  have g : QedGeometry s 12 2 :=
    qedGeometry_geometry (by decide) (by decide) (by decide) (by decide) (by decide)
  have hfs : s.fileSize.toNat % 2 ^ 12 = 0 := by decide
  have hl1 : qedCheckTableOffset s s.header.l1TableOffset = true := by decide
  have hempty : ∀ i, s.l1Table i = 0 := fun _ => rfl
  have h := qedCheck_empty_leaks g hfs hl1 hempty ⟨0, 0, 0, 0, 0, 0, 0⟩ false
  refine ⟨g, hfs, hl1, hempty, h.1, ?_⟩
  rw [h.2]
  decide

end QemuKvm.Qed
