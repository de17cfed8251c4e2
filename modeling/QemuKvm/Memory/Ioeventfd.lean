import Mathlib.Data.Prod.Lex
import QemuKvm.Memory.Api

/-!
# Ioeventfds (memory.c)

A region's ioeventfds are kept in an array sorted by
`memory_region_ioeventfd_before`. On every topology update,
`address_space_update_ioeventfds` collects the ioeventfds of the regions
of the flat view: for each flat range in address order, the region's
ioeventfds moved to absolute addresses, each kept if it meets the range.
`address_space_add_del_ioeventfds` then diffs the new array against the
old one by a merge, and tells the listeners which eventfds to add and
which to delete.

Main results:

* `memoryRegionIoeventfdBefore_iff` — the order is the lexicographic order
  on (start, size, match_data, data if match_data, e), so a strict total
  order on those keys;
* `sorted_run_ioeventfdStep` — under any sequence of
  `memory_region_add_eventfd` and `memory_region_del_eventfd` a region's
  array stays sorted;
* `addressSpaceAddDelIoeventfds_exact` — on strictly sorted arrays the diff
  adds exactly the new eventfds and deletes exactly the old ones;
* `addressSpaceUpdateIoeventfds_duplicate` — but the collected array need
  not be strictly sorted: a region cut in two by a higher-priority sibling
  contributes an eventfd that spans the cut once per piece, and the diff
  then adds an eventfd that is registered already.
-/

namespace QemuKvm.Memory

/-- `MemoryRegionIoeventfd`; the `EventNotifier` is compared by address,
which is a number here. -/
structure MemoryRegionIoeventfd where
  addr : AddrRange
  matchData : Bool
  data : UInt64
  e : ℕ
  deriving DecidableEq, Repr

def memoryRegionIoeventfdBefore (a b : MemoryRegionIoeventfd) : Bool :=
  if a.addr.start < b.addr.start then true
  else if a.addr.start > b.addr.start then false
  else if a.addr.size < b.addr.size then true
  else if a.addr.size > b.addr.size then false
  else if !a.matchData && b.matchData then true
  else if a.matchData && !b.matchData then false
  -- the data only counts when the eventfd matches on it
  else if a.matchData && decide (a.data < b.data) then true
  else if a.matchData && decide (a.data > b.data) then false
  else decide (a.e < b.e)

def memoryRegionIoeventfdEqual (a b : MemoryRegionIoeventfd) : Bool :=
  !memoryRegionIoeventfdBefore a b && !memoryRegionIoeventfdBefore b a

/-- What the order compares. -/
def ioeventfdKey (fd : MemoryRegionIoeventfd) : Lex (ℤ × Lex (ℤ × Lex (Bool × Lex (ℕ × ℕ)))) :=
  toLex (fd.addr.start, toLex (fd.addr.size, toLex (fd.matchData,
    toLex (if fd.matchData then fd.data.toNat else 0, fd.e))))

theorem memoryRegionIoeventfdBefore_iff (a b : MemoryRegionIoeventfd) :
    memoryRegionIoeventfdBefore a b = true ↔ ioeventfdKey a < ioeventfdKey b := by
  simp only [ioeventfdKey, Prod.Lex.toLex_lt_toLex]
  unfold memoryRegionIoeventfdBefore
  cases ha : a.matchData <;> cases hb : b.matchData <;>
    simp only [Bool.not_false, Bool.not_true, Bool.true_and, Bool.false_and, Bool.and_true,
      Bool.and_false, decide_eq_true_eq, UInt64.lt_iff_toNat_lt, gt_iff_lt,
      lt_self_iff_false, Bool.lt_iff, ↓reduceIte] <;>
    split_ifs <;> simp_all <;> omega

section Order

variable {a b c : MemoryRegionIoeventfd}

theorem memoryRegionIoeventfdBefore_irrefl (a : MemoryRegionIoeventfd) :
    memoryRegionIoeventfdBefore a a = false := by
  cases h : memoryRegionIoeventfdBefore a a
  · rfl
  · exact absurd ((memoryRegionIoeventfdBefore_iff a a).1 h) (lt_irrefl _)

theorem memoryRegionIoeventfdBefore_trans (hab : memoryRegionIoeventfdBefore a b = true)
    (hbc : memoryRegionIoeventfdBefore b c = true) : memoryRegionIoeventfdBefore a c = true :=
  (memoryRegionIoeventfdBefore_iff a c).2
    (((memoryRegionIoeventfdBefore_iff a b).1 hab).trans ((memoryRegionIoeventfdBefore_iff b c).1 hbc))

theorem memoryRegionIoeventfdBefore_asymm (hab : memoryRegionIoeventfdBefore a b = true) :
    memoryRegionIoeventfdBefore b a = false := by
  cases h : memoryRegionIoeventfdBefore b a
  · rfl
  · have := memoryRegionIoeventfdBefore_trans hab h
    rw [memoryRegionIoeventfdBefore_irrefl] at this
    exact absurd this Bool.false_ne_true

/-- Equal, in the sense of `memory_region_ioeventfd_equal`, is equality of keys. -/
theorem memoryRegionIoeventfdEqual_iff (a b : MemoryRegionIoeventfd) :
    memoryRegionIoeventfdEqual a b = true ↔ ioeventfdKey a = ioeventfdKey b := by
  simp only [memoryRegionIoeventfdEqual, Bool.and_eq_true, Bool.not_eq_true',
    ← Bool.not_eq_true, memoryRegionIoeventfdBefore_iff]
  constructor
  · rintro ⟨hab, hba⟩
    exact le_antisymm (not_lt.1 hba) (not_lt.1 hab)
  · intro h
    exact ⟨h.not_lt, h.symm.not_lt⟩

end Order

/-! ## A region's array -/

/-- Sorted: no element is before one to its left. Equal eventfds may repeat. -/
def IoeventfdsSorted (fds : List MemoryRegionIoeventfd) : Prop :=
  fds.Pairwise fun x y => memoryRegionIoeventfdBefore y x = false

/-- The insertion loop of `memory_region_add_eventfd`: mrfd goes before the
first element it is before, or at the end. -/
def insertIoeventfd (mrfd : MemoryRegionIoeventfd) :
    List MemoryRegionIoeventfd → List MemoryRegionIoeventfd
  | [] => [mrfd]
  | fd :: fds =>
    if memoryRegionIoeventfdBefore mrfd fd then mrfd :: fd :: fds else fd :: insertIoeventfd mrfd fds

/-- `memory_region_add_eventfd` on the array of one region; the topology
update it ends with is `addressSpaceUpdateIoeventfds` below. -/
def memoryRegionAddEventfd (fds : List MemoryRegionIoeventfd) (addr size : ℕ) (matchData : Bool)
    (data : UInt64) (e : ℕ) : List MemoryRegionIoeventfd :=
  insertIoeventfd ⟨⟨addr, size⟩, matchData, data, e⟩ fds

/-- `memory_region_del_eventfd`: removes the first equal eventfd; the
assertion that there is one is `none`. -/
def memoryRegionDelEventfd (fds : List MemoryRegionIoeventfd) (addr size : ℕ) (matchData : Bool)
    (data : UInt64) (e : ℕ) : Option (List MemoryRegionIoeventfd) :=
  let mrfd : MemoryRegionIoeventfd := ⟨⟨addr, size⟩, matchData, data, e⟩
  match fds.findIdx? (memoryRegionIoeventfdEqual mrfd) with
  | some i => some (fds.eraseIdx i)
  | none => none

theorem mem_insertIoeventfd {mrfd x : MemoryRegionIoeventfd} {fds : List MemoryRegionIoeventfd} :
    x ∈ insertIoeventfd mrfd fds ↔ x = mrfd ∨ x ∈ fds := by
  induction fds with
  | nil => simp [insertIoeventfd]
  | cons fd fds ih =>
    simp only [insertIoeventfd]
    split <;> simp [ih, or_left_comm]

theorem sorted_insertIoeventfd (mrfd : MemoryRegionIoeventfd) {fds : List MemoryRegionIoeventfd}
    (h : IoeventfdsSorted fds) : IoeventfdsSorted (insertIoeventfd mrfd fds) := by
  induction fds with
  | nil => exact List.pairwise_singleton _ _
  | cons fd fds ih =>
    obtain ⟨hfd, hfds⟩ := List.pairwise_cons.1 h
    simp only [insertIoeventfd]
    split
    · next hb =>
      -- mrfd goes first: nothing after it is before it, since fd is not
      refine List.pairwise_cons.2 ⟨fun y hy => ?_, h⟩
      rcases List.mem_cons.1 hy with rfl | hy
      · exact memoryRegionIoeventfdBefore_asymm hb
      · cases hyb : memoryRegionIoeventfdBefore y mrfd
        · rfl
        · have := memoryRegionIoeventfdBefore_trans hyb hb
          rw [hfd y hy] at this
          exact absurd this Bool.false_ne_true
    · next hb =>
      refine List.pairwise_cons.2 ⟨fun y hy => ?_, ih hfds⟩
      rcases mem_insertIoeventfd.1 hy with rfl | hy
      · simpa using hb
      · exact hfd y hy

theorem sorted_memoryRegionDelEventfd {fds fds' : List MemoryRegionIoeventfd}
    (h : IoeventfdsSorted fds) {addr size : ℕ} {matchData : Bool} {data : UInt64} {e : ℕ}
    (hdel : memoryRegionDelEventfd fds addr size matchData data e = some fds') :
    IoeventfdsSorted fds' := by
  unfold memoryRegionDelEventfd at hdel
  dsimp only at hdel
  split at hdel
  · cases hdel
    exact h.sublist (List.eraseIdx_sublist _ _)
  · cases hdel

/-- The eventfd calls a device makes on one region. -/
inductive IoeventfdOp
  | addEventfd (addr size : ℕ) (matchData : Bool) (data : UInt64) (e : ℕ)
  | delEventfd (addr size : ℕ) (matchData : Bool) (data : UInt64) (e : ℕ)
  deriving DecidableEq, Repr

def ioeventfdStep (fds : List MemoryRegionIoeventfd) :
    IoeventfdOp → List MemoryRegionIoeventfd × MemReply
  | .addEventfd addr size matchData data e =>
    (memoryRegionAddEventfd fds addr size matchData data e, .ok)
  | .delEventfd addr size matchData data e =>
    match memoryRegionDelEventfd fds addr size matchData data e with
    | some fds' => (fds', .ok)
    | none => (fds, .abort)

theorem sorted_ioeventfdStep {fds : List MemoryRegionIoeventfd} (h : IoeventfdsSorted fds)
    (op : IoeventfdOp) : IoeventfdsSorted (ioeventfdStep fds op).1 := by
  cases op with
  | addEventfd addr size matchData data e => exact sorted_insertIoeventfd _ h
  | delEventfd addr size matchData data e =>
    simp only [ioeventfdStep]
    split
    · next hdel => exact sorted_memoryRegionDelEventfd h hdel
    · exact h

/-- A region's array stays sorted under any sequence of adds and deletes. -/
theorem sorted_run_ioeventfdStep (ops : List IoeventfdOp) :
    IoeventfdsSorted (run ioeventfdStep [] ops) :=
  run_invariant ioeventfdStep IoeventfdsSorted (fun _ op h => sorted_ioeventfdStep h op)
    List.Pairwise.nil ops

/-! ## The address space's array and the diff -/

def addrrangeShift (range : AddrRange) (delta : ℤ) : AddrRange :=
  ⟨range.start + delta, range.size⟩

/-- `address_space_update_ioeventfds`: the eventfds of every flat range's
region, moved to absolute addresses, that meet the range. -/
def addressSpaceUpdateIoeventfds (view : List FlatRange)
    (ioeventfds : ℕ → List MemoryRegionIoeventfd) : List MemoryRegionIoeventfd :=
  view.flatMap fun fr =>
    (ioeventfds fr.mr).filterMap fun fd =>
      let tmp := addrrangeShift fd.addr (fr.addr.start - fr.offsetInRegion)
      if addrrangeIntersects fr.addr tmp then some { fd with addr := tmp } else none

/-- The `eventfd_add` and `eventfd_del` listener calls; the section they
are given is the eventfd's range. -/
inductive EventfdCall
  | eventfdAdd (fd : MemoryRegionIoeventfd)
  | eventfdDel (fd : MemoryRegionIoeventfd)
  deriving DecidableEq, Repr

/-- `address_space_add_del_ioeventfds(as, fds_new, fds_old)`: a merge of the
two arrays by the order; equal eventfds are passed over. -/
def addressSpaceAddDelIoeventfds :
    List MemoryRegionIoeventfd → List MemoryRegionIoeventfd → List EventfdCall
  | [], [] => []
  | [], fdold :: olds => .eventfdDel fdold :: addressSpaceAddDelIoeventfds [] olds
  | fdnew :: news, [] => .eventfdAdd fdnew :: addressSpaceAddDelIoeventfds news []
  | fdnew :: news, fdold :: olds =>
    if memoryRegionIoeventfdBefore fdold fdnew then
      .eventfdDel fdold :: addressSpaceAddDelIoeventfds (fdnew :: news) olds
    else if memoryRegionIoeventfdBefore fdnew fdold then
      .eventfdAdd fdnew :: addressSpaceAddDelIoeventfds news (fdold :: olds)
    else addressSpaceAddDelIoeventfds news olds
termination_by news olds => news.length + olds.length

def addedOf : List EventfdCall → List MemoryRegionIoeventfd :=
  List.filterMap fun | .eventfdAdd fd => some fd | .eventfdDel _ => none

def deletedOf : List EventfdCall → List MemoryRegionIoeventfd :=
  List.filterMap fun | .eventfdDel fd => some fd | .eventfdAdd _ => none

@[simp] theorem addedOf_nil : addedOf [] = [] := rfl
@[simp] theorem addedOf_add (fd : MemoryRegionIoeventfd) (cs : List EventfdCall) :
    addedOf (.eventfdAdd fd :: cs) = fd :: addedOf cs := rfl
@[simp] theorem addedOf_del (fd : MemoryRegionIoeventfd) (cs : List EventfdCall) :
    addedOf (.eventfdDel fd :: cs) = addedOf cs := rfl
@[simp] theorem deletedOf_nil : deletedOf [] = [] := rfl
@[simp] theorem deletedOf_add (fd : MemoryRegionIoeventfd) (cs : List EventfdCall) :
    deletedOf (.eventfdAdd fd :: cs) = deletedOf cs := rfl
@[simp] theorem deletedOf_del (fd : MemoryRegionIoeventfd) (cs : List EventfdCall) :
    deletedOf (.eventfdDel fd :: cs) = fd :: deletedOf cs := rfl

/-- Strictly sorted: sorted and without two equal eventfds. -/
def IoeventfdsStrict (fds : List MemoryRegionIoeventfd) : Prop :=
  fds.Pairwise fun x y => memoryRegionIoeventfdBefore x y = true

instance (fds : List MemoryRegionIoeventfd) : Decidable (IoeventfdsStrict fds) :=
  inferInstanceAs (Decidable (List.Pairwise _ fds))

theorem IoeventfdsStrict.key_lt {fd : MemoryRegionIoeventfd} {fds : List MemoryRegionIoeventfd}
    (h : IoeventfdsStrict (fd :: fds)) : ∀ x ∈ fds, ioeventfdKey fd < ioeventfdKey x :=
  fun x hx => (memoryRegionIoeventfdBefore_iff _ _).1 ((List.pairwise_cons.1 h).1 x hx)

/-- x has no equal in fds. -/
def notIn (fds : List MemoryRegionIoeventfd) (x : MemoryRegionIoeventfd) : Bool :=
  !fds.any (memoryRegionIoeventfdEqual x)

theorem notIn_cons (fd x : MemoryRegionIoeventfd) (fds : List MemoryRegionIoeventfd) :
    notIn (fd :: fds) x = (!decide (ioeventfdKey x = ioeventfdKey fd) && notIn fds x) := by
  simp only [notIn, List.any_cons, Bool.not_or]
  congr 1
  cases h : memoryRegionIoeventfdEqual x fd <;>
    simp [← memoryRegionIoeventfdEqual_iff, h]

theorem notIn_of_lt {x : MemoryRegionIoeventfd} {fds : List MemoryRegionIoeventfd}
    (h : ∀ y ∈ fds, ioeventfdKey x < ioeventfdKey y) : notIn fds x = true := by
  induction fds with
  | nil => rfl
  | cons fd fds ih =>
    rw [notIn_cons, ih fun y hy => h y (List.mem_cons_of_mem _ hy),
      decide_eq_false (h fd List.mem_cons_self).ne]
    rfl

/-- A front element below the whole list matters to none of its filters. -/
theorem filter_notIn_cons_of_lt {o a : MemoryRegionIoeventfd} {os xs : List MemoryRegionIoeventfd}
    (hlt : ioeventfdKey o < ioeventfdKey a) (hxs : ∀ x ∈ xs, ioeventfdKey a < ioeventfdKey x) :
    (a :: xs).filter (notIn (o :: os)) = (a :: xs).filter (notIn os) := by
  refine List.filter_congr fun x hx => ?_
  have hne : ioeventfdKey x ≠ ioeventfdKey o := by
    rcases List.mem_cons.1 hx with rfl | hx
    · exact hlt.ne'
    · exact ((hlt.trans (hxs x hx))).ne'
  rw [notIn_cons, decide_eq_false hne]
  rfl

/-- Equal fronts leave each other's filters, and the rest is unchanged. -/
theorem filter_notIn_cons_of_eq {o a : MemoryRegionIoeventfd} {os xs : List MemoryRegionIoeventfd}
    (heq : ioeventfdKey a = ioeventfdKey o) (hxs : ∀ x ∈ xs, ioeventfdKey a < ioeventfdKey x) :
    (a :: xs).filter (notIn (o :: os)) = xs.filter (notIn os) := by
  rw [List.filter_cons_of_neg (by simp [notIn_cons, heq])]
  refine List.filter_congr fun x hx => ?_
  rw [notIn_cons, decide_eq_false (heq ▸ (hxs x hx).ne')]
  rfl

/-- On strictly sorted arrays the diff is exact: it adds the new eventfds
with no equal old one and deletes the old ones with no equal new one, each
once, in order. -/
theorem addressSpaceAddDelIoeventfds_exact (news olds : List MemoryRegionIoeventfd)
    (hnew : IoeventfdsStrict news) (hold : IoeventfdsStrict olds) :
    addedOf (addressSpaceAddDelIoeventfds news olds) = news.filter (notIn olds) ∧
      deletedOf (addressSpaceAddDelIoeventfds news olds) = olds.filter (notIn news) := by
  fun_induction addressSpaceAddDelIoeventfds news olds with
  | case1 => exact ⟨rfl, rfl⟩
  | case2 fdold olds ih =>
    obtain ⟨ha, hd⟩ := ih hnew hold.of_cons
    rw [addedOf_del, deletedOf_del, ha, hd]
    exact ⟨rfl, (List.filter_cons_of_pos rfl).symm⟩
  | case3 fdnew news ih =>
    obtain ⟨ha, hd⟩ := ih hnew.of_cons hold
    rw [addedOf_add, deletedOf_add, ha, hd]
    exact ⟨(List.filter_cons_of_pos rfl).symm, rfl⟩
  | case4 fdnew news fdold olds hb ih =>
    -- fdold comes first: no new eventfd equals it
    have hlt := (memoryRegionIoeventfdBefore_iff _ _).1 hb
    obtain ⟨ha, hd⟩ := ih hnew hold.of_cons
    have hall : ∀ y ∈ fdnew :: news, ioeventfdKey fdold < ioeventfdKey y := fun y hy => by
      rcases List.mem_cons.1 hy with rfl | hy
      · exact hlt
      · exact hlt.trans (hnew.key_lt y hy)
    rw [addedOf_del, deletedOf_del, ha, hd, filter_notIn_cons_of_lt hlt hnew.key_lt,
      List.filter_cons_of_pos (notIn_of_lt hall)]
    exact ⟨rfl, rfl⟩
  | case5 fdnew news fdold olds hb hb' ih =>
    -- fdnew comes first: no old eventfd equals it
    have hlt := (memoryRegionIoeventfdBefore_iff _ _).1 hb'
    obtain ⟨ha, hd⟩ := ih hnew.of_cons hold
    have hall : ∀ y ∈ fdold :: olds, ioeventfdKey fdnew < ioeventfdKey y := fun y hy => by
      rcases List.mem_cons.1 hy with rfl | hy
      · exact hlt
      · exact hlt.trans (hold.key_lt y hy)
    rw [addedOf_add, deletedOf_add, ha, hd, filter_notIn_cons_of_lt hlt hold.key_lt,
      List.filter_cons_of_pos (notIn_of_lt hall)]
    exact ⟨rfl, rfl⟩
  | case6 fdnew news fdold olds hb hb' ih =>
    -- neither is before the other: they are equal and both are passed over
    have heq : ioeventfdKey fdnew = ioeventfdKey fdold :=
      (memoryRegionIoeventfdEqual_iff _ _).1 (by simp [memoryRegionIoeventfdEqual, hb, hb'])
    obtain ⟨ha, hd⟩ := ih hnew.of_cons hold.of_cons
    rw [ha, hd, filter_notIn_cons_of_eq heq hnew.key_lt,
      filter_notIn_cons_of_eq heq.symm hold.key_lt]
    exact ⟨rfl, rfl⟩

example : addressSpaceAddDelIoeventfds [⟨⟨0x10, 2⟩, true, 1, 7⟩, ⟨⟨0x20, 2⟩, true, 1, 8⟩]
    [⟨⟨0x10, 2⟩, true, 1, 7⟩, ⟨⟨0x18, 2⟩, true, 1, 9⟩] =
    [.eventfdDel ⟨⟨0x18, 2⟩, true, 1, 9⟩, .eventfdAdd ⟨⟨0x20, 2⟩, true, 1, 8⟩] := by
  simp [addressSpaceAddDelIoeventfds, memoryRegionIoeventfdBefore]

/-! ## An eventfd across a hole -/

/-- Region 1 is I/O at [0, 0x100) placed in root container 0 by
`memory_region_add_subregion`; region 2, two bytes, is placed over 0x12 by
`memory_region_add_subregion_overlap` with priority 1. -/
def splitRegions : List MemoryRegion :=
  [⟨0, 2 ^ 64, true, false, true, false, none, 0, [], 0, none, 0, false⟩,
   ⟨0, 0x100, true, false, true, true, none, 0, [], 0, none, 0, false⟩,
   ⟨0, 2, true, false, true, true, none, 0, [], 0, none, 0, false⟩]

def splitOps : List MemOp :=
  [.setSystemMemoryMap 0, .addSubregion 0 0 1, .addSubregionOverlap 0 0x12 2 1]

/-- Region 1's eventfd: 8 bytes at 0x10, matching data 0x1234. -/
def splitFd : MemoryRegionIoeventfd := ⟨⟨0x10, 8⟩, true, 0x1234, 7⟩

def splitIoeventfds (mr : ℕ) : List MemoryRegionIoeventfd :=
  if mr = 1 then memoryRegionAddEventfd [] 0x10 8 true 0x1234 7 else []

/-- Before region 2 is placed, the address space's array is [splitFd].
Region 2 cuts region 1 into flat ranges [0, 0x12) and [0x14, 0x100), and
the eventfd at [0x10, 0x18) meets both: the array collected on the update
holds it twice, and the diff against the old array adds it a second time
although it is registered already. -/
theorem addressSpaceUpdateIoeventfds_duplicate :
    outputs memStep (memInit splitRegions) splitOps = [.ok, .ok, .ok] ∧
      addressSpaceUpdateIoeventfds
          (run memStep (memInit splitRegions) (splitOps.take 2)).memoryMap splitIoeventfds =
        [splitFd] ∧
      addressSpaceUpdateIoeventfds (run memStep (memInit splitRegions) splitOps).memoryMap
          splitIoeventfds = [splitFd, splitFd] ∧
      addressSpaceAddDelIoeventfds
          (addressSpaceUpdateIoeventfds (run memStep (memInit splitRegions) splitOps).memoryMap
            splitIoeventfds)
          (addressSpaceUpdateIoeventfds
            (run memStep (memInit splitRegions) (splitOps.take 2)).memoryMap splitIoeventfds) =
        [.eventfdAdd splitFd] := by
  have hold : addressSpaceUpdateIoeventfds
      (run memStep (memInit splitRegions) (splitOps.take 2)).memoryMap splitIoeventfds =
      [splitFd] := by decide
  have hnew : addressSpaceUpdateIoeventfds
      (run memStep (memInit splitRegions) splitOps).memoryMap splitIoeventfds =
      [splitFd, splitFd] := by decide
  refine ⟨by decide, hold, hnew, ?_⟩
  rw [hold, hnew]
  simp [addressSpaceAddDelIoeventfds, memoryRegionIoeventfdBefore_irrefl]

end QemuKvm.Memory
