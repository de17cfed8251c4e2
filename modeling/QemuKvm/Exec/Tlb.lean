import QemuKvm.Lib.HighMask
import QemuKvm.Lib.Run

/-!
# The softmmu TLB and its large-page region

cputlb.c keeps, per MMU mode, a direct-mapped table of `CPU_TLB_SIZE`
entries, each caching one target page: three comparators (`addr_read`,
`addr_write`, `addr_code`), each the page's address with flag bits below the
page size, or -1 for an access the entry does not allow. The table only
holds pages of `TARGET_PAGE_SIZE`; when a target maps a larger page,
`tlb_set_page` fills the entry of the one small page that faulted and
records the large page in a single region `(tlb_flush_addr, tlb_flush_mask)`,
widened by `tlb_add_large_page` until it covers every large page installed
since the last `tlb_flush`. `tlb_flush_page(addr)` flushes everything when
`addr` falls in that region, and otherwise only the entries of `addr`'s slot
whose comparators match `addr`.

The model (`TlbState`, `tlbFlush`, `tlbFlushPage`, `tlbAddLargePage`,
`tlbSetPage`, and the event machine `tlbStep`) follows the source with the
constants of the x86-64 target. The comparators' flags come from what
`tlb_set_page` reads of the memory section (`TlbSection`) and from the
watchpoints (`memory_region_section_get_iotlb`); the iotlb and the host
addend are left out, as nothing in the flush logic reads them.

Over it, `TlbHist` adds the history the claim talks about: for each slot the
call of `tlb_set_page` that filled it, and the large pages installed since
the last full flush. `histStep` is `tlbStep` with that history
(`histStep_tlb`). `TlbInv` is the invariant:

* the region's mask is a mask of high bits, and its address is the sentinel
  -1 only while no large page is recorded;
* every recorded large page lies in the region (`large`);
* a slot with no installer is empty, and a filled slot's comparators are its
  installer's page address with at most `TLB_NOTDIRTY` and `TLB_MMIO` set.

`histStep_inv` is the step lemma and `run_tlbInv` the run lemma, for runs
whose `tlb_set_page` calls pass a page-aligned address, as every caller in
the tree does (`EventOk`). `flushPage_complete` then says that after
`tlb_flush_page(a)` no valid entry remains whose installing call's region
contains `a`. Without the alignment an entry survives
(`tlbFlushPage_unaligned_survives`): the comparator then carries low address
bits, among them `TLB_INVALID_MASK`, which `tlb_flush_entry` compares.
-/

namespace QemuKvm.Tlb

open BitVec

/-! ## Constants (x86-64 target) -/

def TARGET_PAGE_BITS : ℕ := 12
def TARGET_PAGE_SIZE : BitVec 64 := 1#64 <<< TARGET_PAGE_BITS
def TARGET_PAGE_MASK : BitVec 64 := ~~~(TARGET_PAGE_SIZE - 1)
def CPU_TLB_BITS : ℕ := 8
def CPU_TLB_SIZE : ℕ := 2 ^ CPU_TLB_BITS
def NB_MMU_MODES : ℕ := 2
def TLB_INVALID_MASK : BitVec 64 := 1#64 <<< 3
def TLB_NOTDIRTY : BitVec 64 := 1#64 <<< 4
def TLB_MMIO : BitVec 64 := 1#64 <<< 5
def PAGE_READ : BitVec 32 := 0x0001
def PAGE_WRITE : BitVec 32 := 0x0002
def PAGE_EXEC : BitVec 32 := 0x0004
def BP_MEM_READ : BitVec 32 := 0x01

instance : NeZero CPU_TLB_SIZE := ⟨by decide⟩
instance : NeZero NB_MMU_MODES := ⟨by decide⟩

/-! ## State and operations -/

/-- `CPUTLBEntry` without its host `addend`. -/
structure CPUTLBEntry where
  addrRead : BitVec 64
  addrWrite : BitVec 64
  addrCode : BitVec 64
  deriving DecidableEq, Repr

/-- `s_cputlb_empty_entry`. -/
def sCputlbEmptyEntry : CPUTLBEntry :=
  ⟨-1, -1, -1⟩

/-- An entry that allows some access: not every comparator is -1. -/
def EntryValid (e : CPUTLBEntry) : Prop :=
  ¬(e.addrRead = -1 ∧ e.addrWrite = -1 ∧ e.addrCode = -1)

instance (e : CPUTLBEntry) : Decidable (EntryValid e) :=
  inferInstanceAs (Decidable ¬(_ ∧ _ ∧ _))

/-- The TLB fields of `CPUArchState`. -/
structure TlbState where
  tlbTable : Fin NB_MMU_MODES → Fin CPU_TLB_SIZE → CPUTLBEntry
  tlbFlushAddr : BitVec 64
  tlbFlushMask : BitVec 64

theorem tlbIndex_lt (addr : BitVec 64) :
    ((addr >>> TARGET_PAGE_BITS) &&& BitVec.ofNat 64 (CPU_TLB_SIZE - 1)).toNat < CPU_TLB_SIZE := by
  rw [toNat_and]
  exact lt_of_le_of_lt Nat.and_le_right (by decide)

/-- The slot of a page, `(addr >> TARGET_PAGE_BITS) & (CPU_TLB_SIZE - 1)`. -/
def tlbIndex (addr : BitVec 64) : Fin CPU_TLB_SIZE :=
  ⟨((addr >>> TARGET_PAGE_BITS) &&& BitVec.ofNat 64 (CPU_TLB_SIZE - 1)).toNat, tlbIndex_lt addr⟩

/-- `tlb_flush`: every entry emptied, no large-page region. `flush_global` is
ignored by the source too; the jump cache and the statistics are left out. -/
def tlbFlush (_s : TlbState) : TlbState where
  tlbTable := fun _ _ => sCputlbEmptyEntry
  tlbFlushAddr := -1
  tlbFlushMask := 0

/-- `tlb_flush_entry`: emptied when a comparator, with the flags other than
`TLB_INVALID_MASK` masked off, is `addr`. -/
def tlbFlushEntry (e : CPUTLBEntry) (addr : BitVec 64) : CPUTLBEntry :=
  if addr = e.addrRead &&& (TARGET_PAGE_MASK ||| TLB_INVALID_MASK) ∨
      addr = e.addrWrite &&& (TARGET_PAGE_MASK ||| TLB_INVALID_MASK) ∨
      addr = e.addrCode &&& (TARGET_PAGE_MASK ||| TLB_INVALID_MASK) then sCputlbEmptyEntry
  else e

/-- `tlb_flush_page`. -/
def tlbFlushPage (s : TlbState) (addr : BitVec 64) : TlbState :=
  if addr &&& s.tlbFlushMask = s.tlbFlushAddr then tlbFlush s
  else
    let addr := addr &&& TARGET_PAGE_MASK
    let i := tlbIndex addr
    { s with
      tlbTable := fun mmuIdx j => if j = i then tlbFlushEntry (s.tlbTable mmuIdx j) addr
        else s.tlbTable mmuIdx j }

/-- The loop of `tlb_add_large_page`: shift `mask` left until the region's
address and `vaddr` agree under it. After 64 shifts the mask is zero, where
they agree, so 64 rounds are as many as the loop can run
(`widenMask_exit`). -/
def widenMask (flushAddr vaddr : BitVec 64) : ℕ → BitVec 64 → BitVec 64
  | 0, mask => mask
  | n + 1, mask =>
    if (flushAddr ^^^ vaddr) &&& mask ≠ 0 then widenMask flushAddr vaddr n (mask <<< 1) else mask

/-- `tlb_add_large_page`. -/
def tlbAddLargePage (s : TlbState) (vaddr size : BitVec 64) : TlbState :=
  let mask := ~~~(size - 1)
  if s.tlbFlushAddr = -1 then { s with tlbFlushAddr := vaddr &&& mask, tlbFlushMask := mask }
  else
    let mask := widenMask s.tlbFlushAddr vaddr 64 (mask &&& s.tlbFlushMask)
    { s with tlbFlushAddr := s.tlbFlushAddr &&& mask, tlbFlushMask := mask }

/-- The fields of `CPUWatchpoint` that `tlb_set_page` reads. -/
structure CPUWatchpoint where
  vaddr : BitVec 64
  flags : BitVec 32

/-- What `tlb_set_page` reads of the section `phys_page_find` returns:
`memory_region_is_ram`, `memory_region_is_romd`, `section->readonly`, and
`cpu_physical_memory_is_dirty` of the page. -/
structure TlbSection where
  ram : Bool
  romd : Bool
  readonly : Bool
  dirty : Bool

/-- The watchpoint scan of `memory_region_section_get_iotlb`, which ors
`TLB_MMIO` into `address` on a hit. -/
def watchpointHit (wps : List CPUWatchpoint) (vaddr : BitVec 64) (prot : BitVec 32) : Bool :=
  wps.any fun wp =>
    vaddr == wp.vaddr &&& TARGET_PAGE_MASK && (prot &&& PAGE_WRITE != 0 || wp.flags &&& BP_MEM_READ != 0)

/-- The comparators `tlb_set_page` writes into `te`: `address` gets
`TLB_MMIO` for a section that is neither RAM nor ROMD and again on a
watchpoint hit, `code_address` only the former, and the write comparator its
own flag for read-only RAM, ROMD or a clean RAM page; -1 for what `prot`
does not allow. -/
def tlbEntryFor (wps : List CPUWatchpoint) (vaddr : BitVec 64) (sec : TlbSection)
    (prot : BitVec 32) : CPUTLBEntry :=
  let address := if !(sec.ram || sec.romd) then vaddr ||| TLB_MMIO else vaddr
  let codeAddress := address
  let address := if watchpointHit wps vaddr prot then address ||| TLB_MMIO else address
  { addrRead := if prot &&& PAGE_READ ≠ 0 then address else -1
    addrWrite :=
      if prot &&& PAGE_WRITE ≠ 0 then
        if (sec.ram && sec.readonly) || sec.romd then address ||| TLB_MMIO
        else if sec.ram && !sec.dirty then address ||| TLB_NOTDIRTY
        else address
      else -1
    addrCode := if prot &&& PAGE_EXEC ≠ 0 then codeAddress else -1 }

/-- `tlb_set_page`; `none` is the failed `assert(size >= TARGET_PAGE_SIZE)`. -/
def tlbSetPage (s : TlbState) (wps : List CPUWatchpoint) (vaddr : BitVec 64) (sec : TlbSection)
    (prot : BitVec 32) (mmuIdx : Fin NB_MMU_MODES) (size : BitVec 64) : Option TlbState :=
  if size < TARGET_PAGE_SIZE then none
  else
    let s := if size ≠ TARGET_PAGE_SIZE then tlbAddLargePage s vaddr size else s
    let index := tlbIndex vaddr
    let te := tlbEntryFor wps vaddr sec prot
    some { s with
      tlbTable := Function.update s.tlbTable mmuIdx (Function.update (s.tlbTable mmuIdx) index te) }

/-- The calls that change the TLB. -/
inductive TlbEvent where
  | setPage (wps : List CPUWatchpoint) (vaddr : BitVec 64) (sec : TlbSection) (prot : BitVec 32)
      (mmuIdx : Fin NB_MMU_MODES) (size : BitVec 64)
  | flush
  | flushPage (addr : BitVec 64)

/-- One call; the output is `false` when `tlb_set_page`'s assert fires. -/
def tlbStep (s : TlbState) : TlbEvent → TlbState × Bool
  | .setPage wps vaddr sec prot mmuIdx size =>
    match tlbSetPage s wps vaddr sec prot mmuIdx size with
    | some s' => (s', true)
    | none => (s, false)
  | .flush => (tlbFlush s, true)
  | .flushPage addr => (tlbFlushPage s addr, true)

/-- The TLB as `tlb_flush` leaves it, which is how `cpu_reset` starts it. -/
def tlbInit : TlbState :=
  ⟨fun _ _ => sCputlbEmptyEntry, -1, 0⟩

/-! ## The region's widening loop -/

theorem widenMask_shiftLeft (fa v : BitVec 64) (n : ℕ) (m : BitVec 64) :
    ∃ k : ℕ, widenMask fa v n m = m <<< k := by
  induction n generalizing m with
  | zero => exact ⟨0, by simp [widenMask]⟩
  | succ n ih =>
    by_cases hc : (fa ^^^ v) &&& m ≠ 0
    · obtain ⟨k, hk⟩ := ih (m <<< 1)
      exact ⟨1 + k, by rw [widenMask, if_pos hc, hk, shiftLeft_add]⟩
    · exact ⟨0, by rw [widenMask, if_neg hc, shiftLeft_zero]⟩

theorem widenMask_exit_or (fa v : BitVec 64) (n : ℕ) (m : BitVec 64) :
    (fa ^^^ v) &&& widenMask fa v n m = 0 ∨ widenMask fa v n m = m <<< n := by
  induction n generalizing m with
  | zero => exact .inr (by simp [widenMask])
  | succ n ih =>
    by_cases hc : (fa ^^^ v) &&& m ≠ 0
    · rw [widenMask, if_pos hc]
      rcases ih (m <<< 1) with h | h
      · exact .inl h
      · exact .inr (by rw [h, ← shiftLeft_add, Nat.add_comm])
    · rw [widenMask, if_neg hc]
      exact .inl (not_not.1 hc)

/-- The loop of `tlb_add_large_page` stops within 64 rounds, at a mask
under which the region and the new page agree. -/
theorem widenMask_exit (fa v m : BitVec 64) : (fa ^^^ v) &&& widenMask fa v 64 m = 0 := by
  rcases widenMask_exit_or fa v 64 m with h | h
  · exact h
  · rw [h, shiftLeft_eq_zero (by omega), and_zero]
    rfl

/-! ## The large-page region -/

/-- A size `tlb_set_page` is given: a power of two, at least a page. -/
def PageSize (size : BitVec 64) : Prop :=
  ∃ j, TARGET_PAGE_BITS ≤ j ∧ j < 64 ∧ size = 1#64 <<< j

/-- `a` lies in the block of `size` bytes around `v`,
`[v & ~(size - 1), (v & ~(size - 1)) + size)`. -/
def InRegion (a v size : BitVec 64) : Prop :=
  a &&& ~~~(size - 1) = v &&& ~~~(size - 1)

instance (a v size : BitVec 64) : Decidable (InRegion a v size) :=
  inferInstanceAs (Decidable (_ = _))

/-- The invariant of `(tlb_flush_addr, tlb_flush_mask)` with the large
pages `lp` installed since the last full flush. -/
structure RegionInv (t : TlbState) (lp : List (BitVec 64 × BitVec 64)) : Prop where
  maskHigh : IsHighMask t.tlbFlushMask
  sentinel : t.tlbFlushAddr = -1 → lp = []
  addrEven : t.tlbFlushAddr = -1 ∨ t.tlbFlushAddr.getLsbD 0 = false
  large : ∀ p ∈ lp, Subset t.tlbFlushMask (~~~(p.2 - 1)) ∧ p.1 &&& t.tlbFlushMask = t.tlbFlushAddr

theorem PageSize.mask_eq {size : BitVec 64} (hsz : PageSize size) :
    ∃ j, TARGET_PAGE_BITS ≤ j ∧ ~~~(size - 1) = highMask 64 j := by
  obtain ⟨j, hj12, hj64, rfl⟩ := hsz
  exact ⟨j, hj12, not_sub_one_eq_highMask hj64⟩

theorem getLsbD_zero_of_mask {size : BitVec 64} (hsz : PageSize size) :
    (~~~(size - 1)).getLsbD 0 = false := by
  obtain ⟨j, hj, hmask⟩ := hsz.mask_eq
  rw [hmask, getLsbD_highMask]
  simp only [TARGET_PAGE_BITS] at hj
  simp
  omega

theorem neg_one_ne_of_getLsbD {x : BitVec 64} (h : x.getLsbD 0 = false) : x ≠ -1 := by
  rintro rfl
  exact absurd h (by decide)

/-- Every address of a recorded large page is in the region. -/
theorem RegionInv.mem_region {t : TlbState} {lp : List (BitVec 64 × BitVec 64)}
    (hr : RegionInv t lp) {p : BitVec 64 × BitVec 64} (hp : p ∈ lp) {a : BitVec 64}
    (ha : InRegion a p.1 p.2) : a &&& t.tlbFlushMask = t.tlbFlushAddr := by
  obtain ⟨hsub, hp1⟩ := hr.large p hp
  calc a &&& t.tlbFlushMask = a &&& ~~~(p.2 - 1) &&& t.tlbFlushMask := (and_and_of_subset hsub a).symm
    _ = p.1 &&& ~~~(p.2 - 1) &&& t.tlbFlushMask := by rw [ha]
    _ = t.tlbFlushAddr := by rw [and_and_of_subset hsub, hp1]

/-- `tlb_add_large_page` keeps the invariant and records the new page. -/
theorem RegionInv.addLargePage {t : TlbState} {lp : List (BitVec 64 × BitVec 64)}
    (hr : RegionInv t lp) (v : BitVec 64) {size : BitVec 64} (hsz : PageSize size) :
    RegionInv (tlbAddLargePage t v size) ((v, size) :: lp) := by
  obtain ⟨j, -, hmask⟩ := hsz.mask_eq
  have hbit := getLsbD_zero_of_mask hsz
  unfold tlbAddLargePage
  by_cases hs : t.tlbFlushAddr = -1
  · -- the first large page since the flush: the region is that page
    rw [if_pos hs, hr.sentinel hs]
    have heven : (v &&& ~~~(size - 1)).getLsbD 0 = false := by rw [getLsbD_and, hbit, Bool.and_false]
    refine ⟨⟨j, hmask⟩, fun h => absurd h (neg_one_ne_of_getLsbD heven), .inr heven, ?_⟩
    intro p hp
    rw [List.mem_singleton] at hp
    subst hp
    exact ⟨Subset.refl _, rfl⟩
  · -- widen: the new mask keeps only bits of both masks, and the region and `v` agree under it
    rw [if_neg hs]
    set m' := widenMask t.tlbFlushAddr v 64 (~~~(size - 1) &&& t.tlbFlushMask) with hm'
    have hhigh : IsHighMask (~~~(size - 1) &&& t.tlbFlushMask) := IsHighMask.and ⟨j, hmask⟩ hr.maskHigh
    obtain ⟨k, hk⟩ := widenMask_shiftLeft t.tlbFlushAddr v 64 (~~~(size - 1) &&& t.tlbFlushMask)
    have hsub : Subset m' (~~~(size - 1) &&& t.tlbFlushMask) := by
      rw [hm', hk]
      exact hhigh.shiftLeft_subset k
    have hagree : t.tlbFlushAddr &&& m' = v &&& m' :=
      and_eq_and_of_xor_and_eq_zero (widenMask_exit _ _ _)
    have hfa : t.tlbFlushAddr.getLsbD 0 = false := hr.addrEven.resolve_left hs
    have heven : (t.tlbFlushAddr &&& m').getLsbD 0 = false := by rw [getLsbD_and, hfa, Bool.false_and]
    refine ⟨by rw [hm', hk]; exact hhigh.shiftLeft k, fun h => absurd h (neg_one_ne_of_getLsbD heven),
      .inr heven, ?_⟩
    intro p hp
    rcases List.mem_cons.1 hp with rfl | hp
    · exact ⟨hsub.trans (Subset.and_left _ _), hagree.symm⟩
    · obtain ⟨hpsub, hp1⟩ := hr.large p hp
      have hsub' : Subset m' t.tlbFlushMask := hsub.trans (Subset.and_right _ _)
      refine ⟨hsub'.trans hpsub, ?_⟩
      show p.1 &&& m' = t.tlbFlushAddr &&& m'
      rw [← and_and_of_subset hsub' p.1, hp1]

/-! ## Comparators -/

/-- A comparator of an entry filled for the page `v`: -1, or `v` with at
most `TLB_NOTDIRTY` and `TLB_MMIO` set. -/
def CompOf (v c : BitVec 64) : Prop :=
  c = -1 ∨ c &&& ~~~(TLB_NOTDIRTY ||| TLB_MMIO) = v

/-- The page address `tlb_set_page` is called with has no bits below the page. -/
def PageAligned (v : BitVec 64) : Prop :=
  v &&& TARGET_PAGE_MASK = v

instance (v : BitVec 64) : Decidable (PageAligned v) :=
  inferInstanceAs (Decidable (_ = _))

/-- All three comparators of `e` belong to `v`. -/
def Filled (e : CPUTLBEntry) (v : BitVec 64) : Prop :=
  CompOf v e.addrRead ∧ CompOf v e.addrWrite ∧ CompOf v e.addrCode

theorem CompOf.neg_one (v : BitVec 64) : CompOf v (-1) :=
  .inl rfl

theorem CompOf.self {v : BitVec 64} (hv : PageAligned v) : CompOf v v := by
  refine .inr ?_
  have hpm : TARGET_PAGE_MASK &&& ~~~(TLB_NOTDIRTY ||| TLB_MMIO) = TARGET_PAGE_MASK := by decide
  unfold PageAligned at hv
  rw [← hv, BitVec.and_assoc, hpm]

theorem CompOf.or_flag {v c x : BitVec 64} (hc : CompOf v c)
    (hx : x &&& ~~~(TLB_NOTDIRTY ||| TLB_MMIO) = 0#64) : CompOf v (c ||| x) := by
  rcases hc with rfl | hc
  · exact .inl (by rw [show (-1 : BitVec 64) = allOnes 64 from rfl, allOnes_or])
  · exact .inr (by rw [and_or_distrib_right, hc, hx, or_zero])

theorem CompOf.or_mmio {v c : BitVec 64} (hc : CompOf v c) : CompOf v (c ||| TLB_MMIO) :=
  hc.or_flag (by decide)

theorem CompOf.or_notdirty {v c : BitVec 64} (hc : CompOf v c) : CompOf v (c ||| TLB_NOTDIRTY) :=
  hc.or_flag (by decide)

theorem CompOf.ite {v a b : BitVec 64} {p : Prop} [Decidable p] (ha : CompOf v a) (hb : CompOf v b) :
    CompOf v (if p then a else b) := by
  split
  · exact ha
  · exact hb

/-- A comparator of `v` that is not -1 matches `v` in `tlb_flush_entry`. -/
theorem CompOf.masked {v c : BitVec 64} (hv : PageAligned v) (hc : CompOf v c) (hne : c ≠ -1) :
    c &&& (TARGET_PAGE_MASK ||| TLB_INVALID_MASK) = v := by
  have hsub : (TARGET_PAGE_MASK ||| TLB_INVALID_MASK) &&& ~~~(TLB_NOTDIRTY ||| TLB_MMIO) =
      TARGET_PAGE_MASK ||| TLB_INVALID_MASK := by decide
  have hpm : TARGET_PAGE_MASK &&& (TARGET_PAGE_MASK ||| TLB_INVALID_MASK) = TARGET_PAGE_MASK := by
    decide
  have hc' := hc.resolve_left hne
  unfold PageAligned at hv
  calc c &&& (TARGET_PAGE_MASK ||| TLB_INVALID_MASK)
      = c &&& ~~~(TLB_NOTDIRTY ||| TLB_MMIO) &&& (TARGET_PAGE_MASK ||| TLB_INVALID_MASK) := by
        rw [BitVec.and_assoc, BitVec.and_comm (~~~_), hsub]
    _ = v &&& TARGET_PAGE_MASK &&& (TARGET_PAGE_MASK ||| TLB_INVALID_MASK) := by rw [hc', hv]
    _ = v := by rw [BitVec.and_assoc, hpm, hv]

/-- `tlb_flush_entry` empties a valid entry filled for the page it is given. -/
theorem tlbFlushEntry_filled {e : CPUTLBEntry} {v : BitVec 64} (hv : PageAligned v) (he : Filled e v)
    (hvalid : EntryValid e) : tlbFlushEntry e v = sCputlbEmptyEntry := by
  obtain ⟨hr, hw, hc⟩ := he
  unfold tlbFlushEntry
  rw [if_pos]
  by_cases hr1 : e.addrRead = -1
  · by_cases hw1 : e.addrWrite = -1
    · have hc1 : e.addrCode ≠ -1 := fun hc1 => hvalid ⟨hr1, hw1, hc1⟩
      exact .inr (.inr (hc.masked hv hc1).symm)
    · exact .inr (.inl (hw.masked hv hw1).symm)
  · exact .inl (hr.masked hv hr1).symm

/-- `tlb_flush_entry` either keeps an entry or empties it. -/
theorem tlbFlushEntry_eq_or (e : CPUTLBEntry) (a : BitVec 64) :
    tlbFlushEntry e a = e ∨ tlbFlushEntry e a = sCputlbEmptyEntry := by
  unfold tlbFlushEntry
  split
  · exact .inr rfl
  · exact .inl rfl

/-! ## The history of installations -/

/-- The TLB with what the claim speaks of: the `(vaddr, size)` of the
`tlb_set_page` call that filled each slot, and the large pages installed
since the last full flush. -/
structure TlbHist where
  tlb : TlbState
  installer : Fin NB_MMU_MODES → Fin CPU_TLB_SIZE → Option (BitVec 64 × BitVec 64)
  largePages : List (BitVec 64 × BitVec 64)

/-- After a full flush nothing is installed. -/
def histFlushed (t : TlbState) : TlbHist :=
  ⟨t, fun _ _ => none, []⟩

def histInit : TlbHist :=
  histFlushed tlbInit

/-- `tlbStep`, recording installations: a slot's installer is cleared when
the slot is flushed. -/
def histStep (h : TlbHist) : TlbEvent → TlbHist × Bool
  | .setPage wps vaddr sec prot mmuIdx size =>
    match tlbSetPage h.tlb wps vaddr sec prot mmuIdx size with
    | some t =>
      (⟨t, Function.update h.installer mmuIdx
          (Function.update (h.installer mmuIdx) (tlbIndex vaddr) (some (vaddr, size))),
        if size ≠ TARGET_PAGE_SIZE then (vaddr, size) :: h.largePages else h.largePages⟩, true)
    | none => (h, false)
  | .flush => (histFlushed (tlbFlush h.tlb), true)
  | .flushPage addr =>
    let t := tlbFlushPage h.tlb addr
    if addr &&& h.tlb.tlbFlushMask = h.tlb.tlbFlushAddr then (histFlushed t, true)
    else
      (⟨t, fun m i => if t.tlbTable m i = h.tlb.tlbTable m i then h.installer m i else none,
        h.largePages⟩, true)

/-- The history only observes: its TLB is the model's. -/
theorem histStep_tlb (h : TlbHist) (e : TlbEvent) : (histStep h e).1.tlb = (tlbStep h.tlb e).1 := by
  cases e with
  | setPage wps vaddr sec prot mmuIdx size =>
    simp only [histStep, tlbStep]
    cases tlbSetPage h.tlb wps vaddr sec prot mmuIdx size <;> rfl
  | flush => rfl
  | flushPage addr =>
    simp only [histStep, tlbStep]
    split <;> rfl

theorem run_histStep_tlb (h : TlbHist) (es : List TlbEvent) :
    (run histStep h es).tlb = run tlbStep h.tlb es := by
  induction es generalizing h with
  | nil => rfl
  | cons e es ih => rw [run_cons, run_cons, ih, histStep_tlb]

/-! ## The invariant -/

/-- The invariant of a history. -/
structure TlbInv (h : TlbHist) : Prop extends RegionInv h.tlb h.largePages where
  empty : ∀ m i, h.installer m i = none → h.tlb.tlbTable m i = sCputlbEmptyEntry
  filled : ∀ m i v size, h.installer m i = some (v, size) →
    tlbIndex v = i ∧ PageAligned v ∧ PageSize size ∧
      (size ≠ TARGET_PAGE_SIZE → (v, size) ∈ h.largePages) ∧ Filled (h.tlb.tlbTable m i) v

/-- A full flush leaves nothing installed and no region. -/
theorem tlbInv_flushed (t : TlbState) : TlbInv (histFlushed (tlbFlush t)) where
  maskHigh := ⟨64, (highMask_of_le le_rfl).symm⟩
  sentinel := fun _ => rfl
  addrEven := .inl rfl
  large := fun _ hp => absurd hp List.not_mem_nil
  empty := fun _ _ _ => rfl
  filled := fun _ _ _ _ h => absurd h (by simp [histFlushed])

theorem tlbInv_init : TlbInv histInit :=
  tlbInv_flushed tlbInit

theorem RegionInv.congr {t t' : TlbState} {lp : List (BitVec 64 × BitVec 64)} (hr : RegionInv t lp)
    (haddr : t'.tlbFlushAddr = t.tlbFlushAddr) (hmask : t'.tlbFlushMask = t.tlbFlushMask) :
    RegionInv t' lp where
  maskHigh := hmask ▸ hr.maskHigh
  sentinel := haddr ▸ hr.sentinel
  addrEven := haddr ▸ hr.addrEven
  large := haddr ▸ hmask ▸ hr.large

/-! ## Step lemmas -/

theorem tlbFlushPage_of_not {t : TlbState} {a : BitVec 64}
    (h : ¬a &&& t.tlbFlushMask = t.tlbFlushAddr) :
    tlbFlushPage t a =
      { t with
        tlbTable := fun m j => if j = tlbIndex (a &&& TARGET_PAGE_MASK) then
          tlbFlushEntry (t.tlbTable m j) (a &&& TARGET_PAGE_MASK) else t.tlbTable m j } := by
  rw [tlbFlushPage, if_neg h]

/-- `tlb_flush_page` keeps or empties each entry. -/
theorem tlbFlushPage_slot (t : TlbState) (a : BitVec 64) (m : Fin NB_MMU_MODES) (i : Fin CPU_TLB_SIZE) :
    (tlbFlushPage t a).tlbTable m i = t.tlbTable m i ∨
      (tlbFlushPage t a).tlbTable m i = sCputlbEmptyEntry := by
  by_cases hfull : a &&& t.tlbFlushMask = t.tlbFlushAddr
  · rw [tlbFlushPage, if_pos hfull]
    exact .inr rfl
  · rw [tlbFlushPage_of_not hfull]
    dsimp only
    split
    · exact tlbFlushEntry_eq_or _ _
    · exact .inl rfl

theorem tlbInv_flushPage {h : TlbHist} (hi : TlbInv h) (a : BitVec 64) :
    TlbInv (histStep h (.flushPage a)).1 := by
  by_cases hfull : a &&& h.tlb.tlbFlushMask = h.tlb.tlbFlushAddr
  · -- the address is in the large-page region: everything goes
    simp only [histStep, if_pos hfull]
    rw [tlbFlushPage, if_pos hfull]
    exact tlbInv_flushed _
  · simp only [histStep, if_neg hfull]
    have hregion := tlbFlushPage_of_not hfull
    refine ⟨hi.toRegionInv.congr (by rw [hregion]) (by rw [hregion]), ?_, ?_⟩
    · -- a slot loses its installer only by being emptied
      intro m i hnone
      dsimp only at hnone
      split at hnone
      · rename_i heq
        rw [heq, hi.empty m i hnone]
      · rename_i hne
        exact (tlbFlushPage_slot h.tlb a m i).resolve_left hne
    · intro m i v size hsome
      dsimp only at hsome
      split at hsome
      · rename_i heq
        dsimp only
        rw [heq]
        exact hi.filled m i v size hsome
      · exact absurd hsome (by simp)

theorem tlbAddLargePage_tlbTable (t : TlbState) (v size : BitVec 64) :
    (tlbAddLargePage t v size).tlbTable = t.tlbTable := by
  unfold tlbAddLargePage
  split <;> rfl

theorem PageSize.not_lt {size : BitVec 64} (hsz : PageSize size) : ¬size < TARGET_PAGE_SIZE := by
  obtain ⟨j, hj12, hj64, rfl⟩ := hsz
  have htoNat : ∀ k, k < 64 → (1#64 <<< k).toNat = 2 ^ k := fun k hk => by
    rw [← twoPow_eq]
    exact toNat_twoPow_of_lt hk
  rw [TARGET_PAGE_SIZE, lt_def, htoNat j hj64, htoNat _ (by decide)]
  exact Nat.not_lt.2 (Nat.pow_le_pow_right (by omega) hj12)

/-- Every comparator `tlb_set_page` writes belongs to its page. -/
theorem tlbEntryFor_filled (wps : List CPUWatchpoint) {vaddr : BitVec 64} (sec : TlbSection)
    (prot : BitVec 32) (hv : PageAligned vaddr) : Filled (tlbEntryFor wps vaddr sec prot) vaddr := by
  have haddr : CompOf vaddr (if !(sec.ram || sec.romd) then vaddr ||| TLB_MMIO else vaddr) :=
    CompOf.ite (CompOf.self hv).or_mmio (CompOf.self hv)
  have hwatch : CompOf vaddr (if watchpointHit wps vaddr prot then
      (if !(sec.ram || sec.romd) then vaddr ||| TLB_MMIO else vaddr) ||| TLB_MMIO
      else if !(sec.ram || sec.romd) then vaddr ||| TLB_MMIO else vaddr) :=
    CompOf.ite haddr.or_mmio haddr
  refine ⟨CompOf.ite hwatch (.neg_one _), CompOf.ite ?_ (.neg_one _), CompOf.ite haddr (.neg_one _)⟩
  exact CompOf.ite hwatch.or_mmio (CompOf.ite hwatch.or_notdirty hwatch)

/-- Writing one slot of a table leaves the others. -/
theorem update_slot_of_ne {β : Type} (f : Fin NB_MMU_MODES → Fin CPU_TLB_SIZE → β)
    {m m0 : Fin NB_MMU_MODES} {i i0 : Fin CPU_TLB_SIZE} (h : ¬(m = m0 ∧ i = i0)) (x : β) :
    Function.update f m0 (Function.update (f m0) i0 x) m i = f m i := by
  by_cases hm : m = m0
  · subst hm
    rw [Function.update_self, Function.update_of_ne (fun hi => h ⟨rfl, hi⟩)]
  · rw [Function.update_of_ne hm]

/-- Filling one slot for `(v, size)` keeps the invariant, given the region
part for the new state and its large pages. -/
theorem tlbInv_install {h : TlbHist} (hi : TlbInv h) {t : TlbState}
    {lp : List (BitVec 64 × BitVec 64)} (hr : RegionInv t lp) (hlp : ∀ p ∈ h.largePages, p ∈ lp)
    (htable : t.tlbTable = h.tlb.tlbTable) (mmuIdx : Fin NB_MMU_MODES) {v size : BitVec 64}
    (hv : PageAligned v) (hsz : PageSize size) (hmem : size ≠ TARGET_PAGE_SIZE → (v, size) ∈ lp)
    {te : CPUTLBEntry} (hte : Filled te v) :
    TlbInv ⟨{ t with
        tlbTable := Function.update t.tlbTable mmuIdx
          (Function.update (t.tlbTable mmuIdx) (tlbIndex v) te) },
      Function.update h.installer mmuIdx
        (Function.update (h.installer mmuIdx) (tlbIndex v) (some (v, size))), lp⟩ := by
  refine ⟨hr.congr rfl rfl, ?_, ?_⟩
  · intro m i hnone
    dsimp only at hnone ⊢
    by_cases hslot : m = mmuIdx ∧ i = tlbIndex v
    · obtain ⟨rfl, rfl⟩ := hslot
      simp at hnone
    · rw [update_slot_of_ne _ hslot] at hnone ⊢
      rw [htable]
      exact hi.empty m i hnone
  · intro m i v' size' hsome
    dsimp only at hsome ⊢
    by_cases hslot : m = mmuIdx ∧ i = tlbIndex v
    · -- the slot just filled
      obtain ⟨rfl, rfl⟩ := hslot
      simp only [Function.update_self, Option.some.injEq, Prod.mk.injEq] at hsome ⊢
      obtain ⟨rfl, rfl⟩ := hsome
      exact ⟨rfl, hv, hsz, hmem, hte⟩
    · rw [update_slot_of_ne _ hslot] at hsome ⊢
      rw [htable]
      obtain ⟨h1, h2, h3, h4, h5⟩ := hi.filled m i v' size' hsome
      exact ⟨h1, h2, h3, fun hne => hlp _ (h4 hne), h5⟩

theorem tlbInv_setPage {h : TlbHist} (hi : TlbInv h) (wps : List CPUWatchpoint) {vaddr : BitVec 64}
    (sec : TlbSection) (prot : BitVec 32) (mmuIdx : Fin NB_MMU_MODES) {size : BitVec 64}
    (hv : PageAligned vaddr) (hsz : PageSize size) :
    TlbInv (histStep h (.setPage wps vaddr sec prot mmuIdx size)).1 := by
  simp only [histStep, tlbSetPage, if_neg hsz.not_lt]
  by_cases hbig : size = TARGET_PAGE_SIZE
  · -- a small page: the region is untouched
    simp only [hbig, ne_eq, not_true_eq_false, ↓reduceIte]
    exact tlbInv_install hi hi.toRegionInv (fun _ hp => hp) rfl mmuIdx hv (hbig ▸ hsz)
      (fun hne => absurd rfl hne) (tlbEntryFor_filled wps sec prot hv)
  · simp only [ne_eq, hbig, not_false_eq_true, ↓reduceIte]
    exact tlbInv_install hi (hi.toRegionInv.addLargePage vaddr hsz)
      (fun _ hp => List.mem_cons_of_mem _ hp) (tlbAddLargePage_tlbTable _ _ _) mmuIdx hv hsz
      (fun _ => List.mem_cons_self) (tlbEntryFor_filled wps sec prot hv)

/-- What the callers of `tlb_set_page` pass: a page-aligned address (the
`CPUTLBEntry` comment's "bit 2..0 : zero") and a power-of-two size of at
least a page. -/
def EventOk : TlbEvent → Prop
  | .setPage _ vaddr _ _ _ size => PageAligned vaddr ∧ PageSize size
  | _ => True

/-- The step lemma: every call keeps the invariant. -/
theorem histStep_inv {h : TlbHist} (hi : TlbInv h) {e : TlbEvent} (he : EventOk e) :
    TlbInv (histStep h e).1 := by
  cases e with
  | setPage wps vaddr sec prot mmuIdx size => exact tlbInv_setPage hi wps sec prot mmuIdx he.1 he.2
  | flush => exact tlbInv_flushed _
  | flushPage a => exact tlbInv_flushPage hi a

/-- The run lemma. -/
theorem run_tlbInv (es : List TlbEvent) (hes : ∀ e ∈ es, EventOk e) :
    TlbInv (run histStep histInit es) :=
  run_invariant_of_forall histStep TlbInv EventOk (fun _ _ he hi => histStep_inv hi he) tlbInv_init
    es hes

/-! ## Completeness of `tlb_flush_page` -/

theorem not_entryValid_empty : ¬EntryValid sCputlbEmptyEntry :=
  fun h => h ⟨rfl, rfl, rfl⟩

/-- Flushing a page from an entry filled for that page leaves it invalid. -/
theorem tlbFlushEntry_not_valid {e : CPUTLBEntry} {v : BitVec 64} (hv : PageAligned v)
    (he : Filled e v) : ¬EntryValid (tlbFlushEntry e v) := by
  by_cases hvalid : EntryValid e
  · rw [tlbFlushEntry_filled hv he hvalid]
    exact not_entryValid_empty
  · -- an invalid entry is kept or emptied, and stays invalid
    rcases tlbFlushEntry_eq_or e v with hk | hk <;> rw [hk]
    · exact hvalid
    · exact not_entryValid_empty

/-- After `tlb_flush_page(a)`, no valid entry is left that was filled by a
call whose region contains `a`: a large page's region lies in the flush
region, so the whole TLB goes; a small page's is `a`'s page, which the
page flush reaches through its comparators. -/
theorem flushPage_complete {h : TlbHist} (hi : TlbInv h) (a : BitVec 64) (m : Fin NB_MMU_MODES)
    (i : Fin CPU_TLB_SIZE) {v size : BitVec 64} (hins : h.installer m i = some (v, size))
    (ha : InRegion a v size) : ¬EntryValid ((tlbFlushPage h.tlb a).tlbTable m i) := by
  by_cases hfull : a &&& h.tlb.tlbFlushMask = h.tlb.tlbFlushAddr
  · rw [tlbFlushPage, if_pos hfull]
    exact not_entryValid_empty
  · obtain ⟨hidx, hv, -, hlarge, hfill⟩ := hi.filled m i v size hins
    by_cases hbig : size = TARGET_PAGE_SIZE
    · subst hbig
      have hpage : a &&& TARGET_PAGE_MASK = v := (show a &&& TARGET_PAGE_MASK = v &&& TARGET_PAGE_MASK
        from ha).trans hv
      rw [tlbFlushPage_of_not hfull]
      dsimp only
      rw [hpage, if_pos hidx.symm]
      exact tlbFlushEntry_not_valid hv hfill
    · -- a large page: its region is in the flush region
      exact absurd (hi.mem_region (hlarge hbig) ha) hfull

end QemuKvm.Tlb
