import Mathlib.Data.List.Chain
import QemuKvm.Lib.Bsearch
import QemuKvm.Memory.FlatView

/-!
# Using a flat view (memory.c)

What a flat view is for: `flatviewLookup` reads, for an address, the region
that answers it, the offset inside that region and the range's attributes,
from the first range that contains the address. Three consumers of views:

* `flatviewSimplify_spec` — `flatview_simplify` changes no lookup, keeps a
  sorted view sorted and leaves no two neighbours that `can_merge`; a merge
  run is carried by `Absorbs`, the grown range against the last range taken;
* `addressSpaceUpdateTopologyPass_spec` — the two passes of
  `address_space_update_topology` issue exactly the listener calls of the
  difference of the two views (`delsOf`, `addsOf`);
* `memoryRegionFind_spec` — `memory_region_find` returns the part of the
  query inside the lowest-addressed range that meets it, wherever bsearch
  lands among the meeting ranges, which on a sorted view are consecutive
  (`hitAt_between`).
-/

namespace QemuKvm.Memory

/-! ## What a view says about an address -/

/-- The region, the offset in it, and the dirty-log mask, readable and
read-only flags the range r gives address a. -/
def FlatRange.translate (r : FlatRange) (a : ℤ) : ℕ × ℤ × UInt8 × Bool × Bool :=
  (r.mr, r.offsetInRegion + (a - r.addr.start), r.dirtyLogMask, r.readable, r.readonly)

def flatviewLookup (view : List FlatRange) (a : ℤ) : Option (ℕ × ℤ × UInt8 × Bool × Bool) :=
  (view.find? fun r => addrrangeContains r.addr a).map fun r => r.translate a

theorem addrrangeContains_iff (r : AddrRange) (a : ℤ) :
    addrrangeContains r a = true ↔ r.start ≤ a ∧ a < r.start + r.size := by
  unfold addrrangeContains addrrangeEnd
  simp only [Bool.and_eq_true, decide_eq_true_iff]

theorem flatviewLookup_cons (r : FlatRange) (rs : List FlatRange) (a : ℤ) :
    flatviewLookup (r :: rs) a =
      if r.addr.start ≤ a ∧ a < r.addr.start + r.addr.size then some (r.translate a)
      else flatviewLookup rs a := by
  simp only [flatviewLookup, List.find?_cons, ← addrrangeContains_iff]
  split <;> simp_all

/-! ## `flatview_simplify` -/

theorem canMerge_iff (r1 r2 : FlatRange) :
    canMerge r1 r2 = true ↔ addrrangeEnd r1.addr = r2.addr.start ∧ r1.mr = r2.mr ∧
      (r1.offsetInRegion : ℤ) + r1.addr.size = r2.offsetInRegion ∧
      r1.dirtyLogMask = r2.dirtyLogMask ∧ r1.readable = r2.readable ∧ r1.readonly = r2.readonly := by
  simp [canMerge, and_assoc]

/-- acc is the range a merge run has grown so far and prev the last range it
took in: acc ends where prev ends, with the same region, offset there and
attributes. -/
structure Absorbs (acc prev : FlatRange) : Prop where
  mr : acc.mr = prev.mr
  mask : acc.dirtyLogMask = prev.dirtyLogMask
  readable : acc.readable = prev.readable
  readonly : acc.readonly = prev.readonly
  end_eq : addrrangeEnd acc.addr = addrrangeEnd prev.addr
  offset_end : (acc.offsetInRegion : ℤ) + acc.addr.size = prev.offsetInRegion + prev.addr.size

theorem Absorbs.refl (r : FlatRange) : Absorbs r r := ⟨rfl, rfl, rfl, rfl, rfl, rfl⟩

/-- A range and the run that absorbed it translate every address alike. -/
theorem Absorbs.translate {acc prev : FlatRange} (h : Absorbs acc prev) :
    acc.translate = prev.translate := by
  funext a
  have he := h.end_eq
  have ho := h.offset_end
  simp only [addrrangeEnd] at he
  simp only [FlatRange.translate, h.mr, h.mask, h.readable, h.readonly, Prod.mk.injEq, and_true,
    true_and]
  omega

/-- Whether the next range can be merged depends only on how the run ends. -/
theorem Absorbs.canMerge_eq {acc prev : FlatRange} (h : Absorbs acc prev) (r : FlatRange) :
    canMerge acc r = canMerge prev r := by
  simp only [canMerge, h.end_eq, h.mr, h.offset_end, h.mask, h.readable, h.readonly]

/-- The range a run grows into when it takes r in. -/
def FlatRange.grow (acc r : FlatRange) : FlatRange :=
  { acc with addr := ⟨acc.addr.start, acc.addr.size + r.addr.size⟩ }

theorem Absorbs.grow {acc prev r : FlatRange} (h : Absorbs acc prev) (hm : canMerge prev r = true) :
    Absorbs (acc.grow r) r := by
  obtain ⟨hend, hmr, hoff, hmask, hrd, hro⟩ := (canMerge_iff prev r).1 hm
  have he := h.end_eq
  have ho := h.offset_end
  simp only [addrrangeEnd] at he hend
  refine ⟨h.mr.trans hmr, h.mask.trans hmask, h.readable.trans hrd, h.readonly.trans hro, ?_, ?_⟩
  · simp only [FlatRange.grow, addrrangeEnd]
    omega
  · simp only [FlatRange.grow]
    omega

theorem mergeRun_cons (acc prev r : FlatRange) (rs : List FlatRange) :
    mergeRun acc prev (r :: rs) =
      if canMerge prev r then mergeRun (acc.grow r) r rs else (acc, r :: rs) :=
  rfl

/-- Taking r into the run changes no lookup: the grown range covers exactly
acc and r, and translates both as they did. -/
theorem flatviewLookup_grow {acc prev r : FlatRange} (h : Absorbs acc prev)
    (hm : canMerge prev r = true) (hacc : 0 ≤ acc.addr.size) (hr : 0 ≤ r.addr.size)
    (rs : List FlatRange) (a : ℤ) :
    flatviewLookup (acc.grow r :: rs) a = flatviewLookup (acc :: r :: rs) a := by
  have hend : addrrangeEnd acc.addr = r.addr.start := h.end_eq.trans ((canMerge_iff prev r).1 hm).1
  have ht : r.translate = acc.translate := ((h.grow hm).translate).symm.trans rfl
  have hs : (acc.grow r).addr.start = acc.addr.start := rfl
  have hz : (acc.grow r).addr.size = acc.addr.size + r.addr.size := rfl
  have htr : (acc.grow r).translate = acc.translate := rfl
  simp only [addrrangeEnd] at hend
  rw [flatviewLookup_cons, flatviewLookup_cons, flatviewLookup_cons, ht, hs, hz, htr]
  by_cases hg : acc.addr.start ≤ a ∧ a < acc.addr.start + (acc.addr.size + r.addr.size)
  · rw [if_pos hg]
    by_cases ha : acc.addr.start ≤ a ∧ a < acc.addr.start + acc.addr.size
    · rw [if_pos ha]
    · rw [if_neg ha, if_pos (by omega)]
  · rw [if_neg hg, if_neg (by omega), if_neg (by omega)]

theorem length_mergeRun_le (acc prev : FlatRange) (l : List FlatRange) :
    (mergeRun acc prev l).2.length ≤ l.length := by
  induction l generalizing acc prev with
  | nil => exact le_rfl
  | cons r rs ih =>
    rw [mergeRun_cons]
    split
    · exact (ih _ _).trans (Nat.le_succ _)
    · exact le_rfl

section MergeRun

variable {acc prev : FlatRange} {rs : List FlatRange}

/-- A run changes no lookup. -/
theorem flatviewLookup_mergeRun (h : Absorbs acc prev) (hacc : 0 ≤ acc.addr.size)
    (hrs : ∀ r ∈ rs, 0 ≤ r.addr.size) (a : ℤ) :
    flatviewLookup ((mergeRun acc prev rs).1 :: (mergeRun acc prev rs).2) a =
      flatviewLookup (acc :: rs) a := by
  induction rs generalizing acc prev with
  | nil => rfl
  | cons r rs ih =>
    have hr := hrs r List.mem_cons_self
    rw [mergeRun_cons]
    split
    · next hm =>
      rw [ih (h.grow hm) (by simp only [FlatRange.grow]; omega)
        (fun x hx => hrs x (List.mem_cons_of_mem r hx)), flatviewLookup_grow h hm hacc hr]
    · rfl

/-- The range a run emits is acc grown, with acc's start, offset and attributes. -/
theorem mergeRun_fst (acc prev : FlatRange) (rs : List FlatRange) :
    ∃ size, (mergeRun acc prev rs).1 = { acc with addr := ⟨acc.addr.start, size⟩ } := by
  induction rs generalizing acc prev with
  | nil => exact ⟨acc.addr.size, rfl⟩
  | cons r rs ih =>
    rw [mergeRun_cons]
    split
    · obtain ⟨size, hs⟩ := ih (acc.grow r) r
      exact ⟨size, hs⟩
    · exact ⟨acc.addr.size, rfl⟩

/-- A run stops at the first range that cannot be merged with the one before
it: the emitted range absorbs some last range, which in prev :: rs stands
right before what is left. -/
theorem mergeRun_last (h : Absorbs acc prev) (hacc : 0 < acc.addr.size)
    (hrs : ∀ r ∈ rs, 0 ≤ r.addr.size) :
    ∃ pre last, prev :: rs = pre ++ last :: (mergeRun acc prev rs).2 ∧
      Absorbs (mergeRun acc prev rs).1 last ∧ 0 < (mergeRun acc prev rs).1.addr.size ∧
      ∀ x xs, (mergeRun acc prev rs).2 = x :: xs → canMerge last x = false := by
  induction rs generalizing acc prev with
  | nil => exact ⟨[], prev, rfl, h, hacc, fun _ _ hx => nomatch hx⟩
  | cons r rs ih =>
    have hr := hrs r List.mem_cons_self
    rw [mergeRun_cons]
    split
    · next hm =>
      obtain ⟨pre, last, heq, hab, hpos, hstop⟩ := ih (h.grow hm)
        (by simp only [FlatRange.grow]; omega) (fun x hx => hrs x (List.mem_cons_of_mem r hx))
      exact ⟨prev :: pre, last, by rw [heq]; rfl, hab, hpos, hstop⟩
    · next hm =>
      refine ⟨[], prev, rfl, h, hacc, fun x xs hx => ?_⟩
      cases hx
      simpa using hm

end MergeRun

/-- The view after merging: no lookup changes, the ranges stay non-empty,
ordered and disjoint, and no two neighbours can be merged any more. -/
def SimplifyOk (view out : List FlatRange) : Prop :=
  (∀ a, flatviewLookup out a = flatviewLookup view a) ∧ ViewSorted out ∧
    out.IsChain fun r s => canMerge r s = false

/-- What a run leaves is the tail of its input. -/
theorem mergeRun_suffix (acc prev : FlatRange) (rs : List FlatRange) :
    (mergeRun acc prev rs).2 <:+ rs := by
  induction rs generalizing acc prev with
  | nil => exact List.suffix_refl _
  | cons r rs ih =>
    rw [mergeRun_cons]
    split
    · exact (ih _ _).trans (List.suffix_cons r rs)
    · exact List.suffix_refl _

theorem ViewSorted.sublist {l l' : List FlatRange} (h : ViewSorted l) (hs : l'.Sublist l) :
    ViewSorted l' :=
  ⟨fun x hx => h.1 x (hs.subset hx), h.2.sublist hs⟩

/-- Every range of the simplified view starts where a range of the input does. -/
theorem start_mem_simplifyLoop (fuel : ℕ) (view : List FlatRange) :
    ∀ y ∈ simplifyLoop fuel view, ∃ x ∈ view, y.addr.start = x.addr.start := by
  induction fuel generalizing view with
  | zero => exact fun y hy => ⟨y, hy, rfl⟩
  | succ fuel ih =>
    cases view with
    | nil => exact fun y hy => nomatch hy
    | cons r rs =>
      intro y hy
      rcases List.mem_cons.1 hy with rfl | hy
      · obtain ⟨size, hs⟩ := mergeRun_fst r r rs
        exact ⟨r, List.mem_cons_self, by rw [hs]⟩
      · obtain ⟨x, hx, hxy⟩ := ih _ y hy
        exact ⟨x, List.mem_cons_of_mem r ((mergeRun_suffix r r rs).subset hx), hxy⟩

theorem simplifyLoop_nil (fuel : ℕ) : simplifyLoop fuel [] = [] := by
  cases fuel <;> rfl

/-- canMerge reads the second range's start, not its size. -/
theorem canMerge_resize (r1 x : FlatRange) (size : ℤ) :
    canMerge r1 { x with addr := ⟨x.addr.start, size⟩ } = canMerge r1 x :=
  rfl

/-- One round of the outer loop per range of the input is enough. -/
theorem simplifyLoop_ok (fuel : ℕ) (view : List FlatRange) (hlen : view.length ≤ fuel)
    (hv : ViewSorted view) : SimplifyOk view (simplifyLoop fuel view) := by
  induction fuel generalizing view with
  | zero =>
    obtain rfl : view = [] := List.eq_nil_of_length_eq_zero (by omega)
    exact ⟨fun _ => rfl, hv, List.isChain_nil⟩
  | succ fuel ih =>
    cases view with
    | nil => exact ⟨fun _ => rfl, hv, List.isChain_nil⟩
    | cons r rs =>
      have hpos : 0 < r.addr.size := hv.1 r List.mem_cons_self
      have hrs : ∀ x ∈ rs, 0 ≤ x.addr.size := fun x hx => (hv.1 x (List.mem_cons_of_mem r hx)).le
      obtain ⟨pre, last, heq, hab, hmpos, hstop⟩ := mergeRun_last (Absorbs.refl r) hpos hrs
      have hsuffix := mergeRun_suffix r r rs
      have hrest : ViewSorted (mergeRun r r rs).2 :=
        hv.sublist (hsuffix.sublist.trans (List.sublist_cons_self r rs))
      have hlen' : (mergeRun r r rs).2.length ≤ fuel := by
        have := hsuffix.length_le
        simp only [List.length_cons] at hlen
        omega
      obtain ⟨hlook, hsorted, hchain⟩ := ih _ hlen' hrest
      -- the range the round emits ends where last ends, and last comes before the rest
      have hafter : ∀ x ∈ (mergeRun r r rs).2, addrrangeEnd last.addr ≤ x.addr.start := by
        have hpw := hv.2
        rw [heq] at hpw
        exact (List.pairwise_cons.1 (List.pairwise_append.1 hpw).2.1).1
      refine ⟨fun a => ?_, ⟨fun x hx => ?_, ?_⟩, ?_⟩
      · show flatviewLookup ((mergeRun r r rs).1 :: simplifyLoop fuel (mergeRun r r rs).2) a = _
        rw [flatviewLookup_cons, hlook, ← flatviewLookup_cons,
          flatviewLookup_mergeRun (Absorbs.refl r) hpos.le hrs]
      · rcases List.mem_cons.1 hx with rfl | hx
        · exact hmpos
        · exact hsorted.1 x hx
      · refine List.pairwise_cons.2 ⟨fun y hy => ?_, hsorted.2⟩
        obtain ⟨x, hx, hxy⟩ := start_mem_simplifyLoop fuel _ y hy
        rw [hab.end_eq, hxy]
        exact hafter x hx
      · refine List.isChain_cons.2 ⟨fun y hy => ?_, hchain⟩
        -- the next range is the run from the first range left over
        cases hm2 : (mergeRun r r rs).2 with
        | nil => simp [hm2, simplifyLoop_nil] at hy
        | cons x xs =>
          obtain ⟨f, rfl⟩ : ∃ f, fuel = f + 1 := ⟨fuel - 1, by rw [hm2] at hlen'; simp at hlen'; omega⟩
          simp only [hm2, simplifyLoop, List.head?_cons, Option.mem_def, Option.some.injEq] at hy
          subst hy
          obtain ⟨size, hs⟩ := mergeRun_fst x x xs
          rw [hs, canMerge_resize, hab.canMerge_eq]
          exact hstop x xs hm2

/-- `flatview_simplify` on a sorted view of non-empty ranges changes no
lookup, keeps the view sorted and disjoint, and leaves no two neighbours
that can be merged. -/
theorem flatviewSimplify_spec (view : List FlatRange) (hv : ViewSorted view) :
    SimplifyOk view (flatviewSimplify view) :=
  simplifyLoop_ok view.length view le_rfl hv

/-- Three ranges of one region, the first two adjacent with continuous
offsets, the third after a gap. -/
theorem flatviewSimplify_spec_three :
    ViewSorted [⟨1, 0, ⟨0, 0x1000⟩, 0, true, false⟩, ⟨1, 0x1000, ⟨0x1000, 0x1000⟩, 0, true, false⟩,
        ⟨1, 0x3000, ⟨0x3000, 0x1000⟩, 0, true, false⟩] ∧
      SimplifyOk [⟨1, 0, ⟨0, 0x1000⟩, 0, true, false⟩, ⟨1, 0x1000, ⟨0x1000, 0x1000⟩, 0, true, false⟩,
          ⟨1, 0x3000, ⟨0x3000, 0x1000⟩, 0, true, false⟩]
        (flatviewSimplify [⟨1, 0, ⟨0, 0x1000⟩, 0, true, false⟩,
          ⟨1, 0x1000, ⟨0x1000, 0x1000⟩, 0, true, false⟩, ⟨1, 0x3000, ⟨0x3000, 0x1000⟩, 0, true, false⟩]) :=
  ⟨by decide, flatviewSimplify_spec _ (by decide)⟩

example : flatviewSimplify [⟨1, 0, ⟨0, 0x1000⟩, 0, true, false⟩,
    ⟨1, 0x1000, ⟨0x1000, 0x1000⟩, 0, true, false⟩, ⟨1, 0x3000, ⟨0x3000, 0x1000⟩, 0, true, false⟩] =
    [⟨1, 0, ⟨0, 0x2000⟩, 0, true, false⟩, ⟨1, 0x3000, ⟨0x3000, 0x1000⟩, 0, true, false⟩] := by
  decide

/-! ## `address_space_update_topology_pass` -/

/-- The memory-listener callbacks a topology pass issues. -/
inductive ListenerCall
  | regionAdd (fr : FlatRange)
  | regionDel (fr : FlatRange)
  | regionNop (fr : FlatRange)
  | logStart (fr : FlatRange)
  | logStop (fr : FlatRange)
  deriving DecidableEq, Repr

/-- `flatrange_equal`; the dirty-log mask is not compared. -/
def flatrangeEqual (a b : FlatRange) : Bool :=
  a.mr == b.mr && a.addr == b.addr && a.offsetInRegion == b.offsetInRegion &&
    a.readable == b.readable && a.readonly == b.readonly

/-- A range only in the old view: the removing pass deletes it. -/
def delCalls (adding : Bool) (frold : FlatRange) : List ListenerCall :=
  if adding then [] else [.regionDel frold]

/-- A range only in the new view: the adding pass adds it. -/
def addCalls (adding : Bool) (frnew : FlatRange) : List ListenerCall :=
  if adding then [.regionAdd frnew] else []

/-- A range in both views: the adding pass reports it unchanged and stops or
starts dirty logging if its mask went to or from zero. -/
def nopCalls (adding : Bool) (frold frnew : FlatRange) : List ListenerCall :=
  if adding then
    .regionNop frnew ::
      (if frold.dirtyLogMask ≠ 0 ∧ frnew.dirtyLogMask = 0 then [.logStop frnew]
      else if frnew.dirtyLogMask ≠ 0 ∧ frold.dirtyLogMask = 0 then [.logStart frnew]
      else [])
  else []

/-- `address_space_update_topology_pass(as, old, new, adding)`: a merge of
the two views by start address. At equal starts with different attributes
only the old side advances. -/
def addressSpaceUpdateTopologyPass (adding : Bool) :
    List FlatRange → List FlatRange → List ListenerCall
  | [], [] => []
  | frold :: olds, [] => delCalls adding frold ++ addressSpaceUpdateTopologyPass adding olds []
  | [], frnew :: news => addCalls adding frnew ++ addressSpaceUpdateTopologyPass adding [] news
  | frold :: olds, frnew :: news =>
    if frold.addr.start < frnew.addr.start ∨
        (frold.addr.start = frnew.addr.start ∧ flatrangeEqual frold frnew = false) then
      delCalls adding frold ++ addressSpaceUpdateTopologyPass adding olds (frnew :: news)
    else if flatrangeEqual frold frnew then
      nopCalls adding frold frnew ++ addressSpaceUpdateTopologyPass adding olds news
    else addCalls adding frnew ++ addressSpaceUpdateTopologyPass adding (frold :: olds) news
termination_by olds news => olds.length + news.length

/-- Range starts strictly increase along the view. -/
def StartsIncreasing (view : List FlatRange) : Prop :=
  view.Pairwise fun a b => a.addr.start < b.addr.start

instance (view : List FlatRange) : Decidable (StartsIncreasing view) :=
  inferInstanceAs (Decidable (List.Pairwise _ _))

/-- What the removing pass should issue: region_del for every old range
without an equal range in the new view, each once, in order. -/
def delsOf (old new : List FlatRange) : List ListenerCall :=
  old.filterMap fun o => if new.any (flatrangeEqual o) then none else some (.regionDel o)

/-- What the adding pass should issue: for every new range, in order,
region_nop and the logging change if an equal old range exists, and
region_add if none does. -/
def addsOf (old new : List FlatRange) : List ListenerCall :=
  new.flatMap fun n =>
    match old.find? fun o => flatrangeEqual o n with
    | some o => nopCalls true o n
    | none => [.regionAdd n]

theorem flatrangeEqual_start {a b : FlatRange} (h : flatrangeEqual a b = true) :
    a.addr.start = b.addr.start := by
  simp only [flatrangeEqual, Bool.and_eq_true, beq_iff_eq] at h
  rw [h.1.1.1.2]

theorem flatrangeEqual_of_start_ne {a b : FlatRange} (h : a.addr.start ≠ b.addr.start) :
    flatrangeEqual a b = false := by
  cases he : flatrangeEqual a b
  · rfl
  · exact absurd (flatrangeEqual_start he) h

section Pass

variable {frold frnew : FlatRange} {olds news : List FlatRange}

/-- No new range from frnew on equals an old range that starts before frnew. -/
theorem any_flatrangeEqual_of_lt (hnew : StartsIncreasing (frnew :: news)) {o : FlatRange}
    (h : o.addr.start < frnew.addr.start) : (frnew :: news).any (flatrangeEqual o) = false := by
  refine List.any_eq_false.2 fun n hn => ?_
  have : frnew.addr.start ≤ n.addr.start := by
    rcases List.mem_cons.1 hn with rfl | hn
    · exact le_rfl
    · exact ((List.pairwise_cons.1 hnew).1 n hn).le
  simp [flatrangeEqual_of_start_ne (show o.addr.start ≠ n.addr.start by omega)]

/-- No old range from frold on equals a new range that starts before frold. -/
theorem find?_flatrangeEqual_of_lt (hold : StartsIncreasing (frold :: olds)) {n : FlatRange}
    (h : n.addr.start < frold.addr.start) :
    (frold :: olds).find? (fun o => flatrangeEqual o n) = none := by
  refine List.find?_eq_none.2 fun o ho => ?_
  have : frold.addr.start ≤ o.addr.start := by
    rcases List.mem_cons.1 ho with rfl | ho
    · exact le_rfl
    · exact ((List.pairwise_cons.1 hold).1 o ho).le
  simp [flatrangeEqual_of_start_ne (show o.addr.start ≠ n.addr.start by omega)]

end Pass

theorem delsOf_cons (o : FlatRange) (olds new : List FlatRange) :
    delsOf (o :: olds) new =
      (if new.any (flatrangeEqual o) then [] else [.regionDel o]) ++ delsOf olds new := by
  cases h : new.any (flatrangeEqual o) <;>
    simp only [delsOf, List.filterMap_cons, h, Bool.false_eq_true, ↓reduceIte, List.nil_append,
      List.singleton_append]

/-- Only whether a new range equals an old one matters. -/
theorem delsOf_congr {old new new' : List FlatRange}
    (h : ∀ o ∈ old, new.any (flatrangeEqual o) = new'.any (flatrangeEqual o)) :
    delsOf old new = delsOf old new' :=
  List.filterMap_congr fun o ho => by rw [h o ho]

/-- Dropping a front new range that equals no old range changes nothing. -/
theorem delsOf_cons_right {old news : List FlatRange} {frnew : FlatRange}
    (h : ∀ o ∈ old, flatrangeEqual o frnew = false) :
    delsOf old (frnew :: news) = delsOf old news :=
  delsOf_congr fun o ho => by rw [List.any_cons, h o ho, Bool.false_or]

/-- The removing pass deletes exactly the old ranges that have no equal in
the new view. -/
theorem updateTopologyPass_removing (old new : List FlatRange) (hold : StartsIncreasing old)
    (hnew : StartsIncreasing new) :
    addressSpaceUpdateTopologyPass false old new = delsOf old new := by
  fun_induction addressSpaceUpdateTopologyPass false old new with
  | case1 => rfl
  | case2 frold olds ih =>
    rw [ih hold.of_cons hnew, delsOf_cons]
    rfl
  | case3 frnew news ih =>
    rw [ih hold hnew.of_cons]
    rfl
  | case4 frold olds frnew news hA ih =>
    -- frold starts first, or at frnew's start with other attributes: it has no partner
    have hno : (frnew :: news).any (flatrangeEqual frold) = false := by
      rcases hA with hlt | ⟨heq, hne⟩
      · exact any_flatrangeEqual_of_lt hnew hlt
      · refine List.any_eq_false.2 fun n hn => ?_
        rcases List.mem_cons.1 hn with rfl | hn
        · simp [hne]
        · have := (List.pairwise_cons.1 hnew).1 n hn
          simp [flatrangeEqual_of_start_ne (show frold.addr.start ≠ n.addr.start by omega)]
    rw [ih hold.of_cons hnew, delsOf_cons, hno]
    rfl
  | case5 frold olds frnew news hA heq ih =>
    -- the two fronts are equal: neither is deleted, and later old ranges start after frnew
    have hs := flatrangeEqual_start heq
    rw [ih hold.of_cons hnew.of_cons, delsOf_cons, List.any_cons, heq, Bool.true_or, if_pos rfl,
      delsOf_cons_right fun o ho => ?_]
    · rfl
    · have := (List.pairwise_cons.1 hold).1 o ho
      exact flatrangeEqual_of_start_ne (by omega)
  | case6 frold olds frnew news hA hne ih =>
    -- frnew starts first: it equals no old range
    have hlt : frnew.addr.start < frold.addr.start := by
      simp only [not_or, not_and, not_lt] at hA
      rcases lt_or_eq_of_le hA.1 with h | h
      · exact h
      · exact absurd (hA.2 h.symm) (by simpa using hne)
    rw [ih hold hnew.of_cons, delsOf_cons_right fun o ho => ?_]
    · rfl
    · have : frold.addr.start ≤ o.addr.start := by
        rcases List.mem_cons.1 ho with rfl | ho
        · exact le_rfl
        · exact ((List.pairwise_cons.1 hold).1 o ho).le
      exact flatrangeEqual_of_start_ne (by omega)

theorem addsOf_cons (old : List FlatRange) (n : FlatRange) (news : List FlatRange) :
    addsOf old (n :: news) =
      (match old.find? fun o => flatrangeEqual o n with
        | some o => nopCalls true o n
        | none => [.regionAdd n]) ++ addsOf old news :=
  List.flatMap_cons

/-- Dropping a front old range that equals no new range changes nothing. -/
theorem addsOf_cons_left {olds new : List FlatRange} {frold : FlatRange}
    (h : ∀ n ∈ new, flatrangeEqual frold n = false) :
    addsOf (frold :: olds) new = addsOf olds new :=
  List.flatMap_congr fun n hn => by rw [List.find?_cons_of_neg (by simp [h n hn])]

/-- The adding pass reports every new range once, in order: unchanged, with
the change of logging, if an equal old range exists, and added otherwise. -/
theorem updateTopologyPass_adding (old new : List FlatRange) (hold : StartsIncreasing old)
    (hnew : StartsIncreasing new) :
    addressSpaceUpdateTopologyPass true old new = addsOf old new := by
  fun_induction addressSpaceUpdateTopologyPass true old new with
  | case1 => rfl
  | case2 frold olds ih =>
    rw [ih hold.of_cons hnew]
    rfl
  | case3 frnew news ih =>
    rw [ih hold hnew.of_cons]
    rfl
  | case4 frold olds frnew news hA ih =>
    -- frold equals no new range
    rw [ih hold.of_cons hnew, addsOf_cons_left fun n hn => ?_]
    · rfl
    rcases hA with hlt | ⟨heq, hne⟩
    · have : frnew.addr.start ≤ n.addr.start := by
        rcases List.mem_cons.1 hn with rfl | hn
        · exact le_rfl
        · exact ((List.pairwise_cons.1 hnew).1 n hn).le
      exact flatrangeEqual_of_start_ne (by omega)
    · rcases List.mem_cons.1 hn with rfl | hn
      · exact hne
      · have := (List.pairwise_cons.1 hnew).1 n hn
        exact flatrangeEqual_of_start_ne (by omega)
  | case5 frold olds frnew news hA heq ih =>
    -- the fronts pair up; frold equals no later new range
    have hs := flatrangeEqual_start heq
    have hf : (frold :: olds).find? (fun o => flatrangeEqual o frnew) = some frold :=
      List.find?_cons_of_pos heq
    rw [ih hold.of_cons hnew.of_cons, addsOf_cons, hf, addsOf_cons_left fun n hn => ?_]
    have := (List.pairwise_cons.1 hnew).1 n hn
    exact flatrangeEqual_of_start_ne (by omega)
  | case6 frold olds frnew news hA hne ih =>
    -- frnew starts first: it equals no old range and is added
    have hlt : frnew.addr.start < frold.addr.start := by
      simp only [not_or, not_and, not_lt] at hA
      rcases lt_or_eq_of_le hA.1 with h | h
      · exact h
      · exact absurd (hA.2 h.symm) (by simpa using hne)
    rw [ih hold hnew.of_cons, addsOf_cons, find?_flatrangeEqual_of_lt hold hlt]
    rfl

/-- Both passes of `address_space_update_topology` over views whose starts
strictly increase: the first deletes exactly the old ranges with no equal
new range; the second adds exactly the new ranges with no equal old range,
reports every range in both once as unchanged, and starts or stops logging
exactly where its dirty-log mask became non-zero or zero. -/
theorem addressSpaceUpdateTopologyPass_spec (old new : List FlatRange)
    (hold : StartsIncreasing old) (hnew : StartsIncreasing new) :
    addressSpaceUpdateTopologyPass false old new = delsOf old new ∧
      addressSpaceUpdateTopologyPass true old new = addsOf old new :=
  ⟨updateTopologyPass_removing old new hold hnew, updateTopologyPass_adding old new hold hnew⟩

/-- An old view of two ranges against a new one where the first changed its
attributes and a third range appeared. -/
theorem addressSpaceUpdateTopologyPass_spec_changed :
    StartsIncreasing [⟨1, 0, ⟨0, 0x1000⟩, 0, true, false⟩, ⟨2, 0, ⟨0x1000, 0x1000⟩, 0, true, false⟩] ∧
      StartsIncreasing [⟨1, 0, ⟨0, 0x1000⟩, 0, true, true⟩, ⟨2, 0, ⟨0x1000, 0x1000⟩, 4, true, false⟩,
        ⟨3, 0, ⟨0x2000, 0x1000⟩, 0, true, false⟩] ∧
      (addressSpaceUpdateTopologyPass false
          [⟨1, 0, ⟨0, 0x1000⟩, 0, true, false⟩, ⟨2, 0, ⟨0x1000, 0x1000⟩, 0, true, false⟩]
          [⟨1, 0, ⟨0, 0x1000⟩, 0, true, true⟩, ⟨2, 0, ⟨0x1000, 0x1000⟩, 4, true, false⟩,
            ⟨3, 0, ⟨0x2000, 0x1000⟩, 0, true, false⟩] =
        delsOf [⟨1, 0, ⟨0, 0x1000⟩, 0, true, false⟩, ⟨2, 0, ⟨0x1000, 0x1000⟩, 0, true, false⟩]
          [⟨1, 0, ⟨0, 0x1000⟩, 0, true, true⟩, ⟨2, 0, ⟨0x1000, 0x1000⟩, 4, true, false⟩,
            ⟨3, 0, ⟨0x2000, 0x1000⟩, 0, true, false⟩] ∧
        addressSpaceUpdateTopologyPass true
          [⟨1, 0, ⟨0, 0x1000⟩, 0, true, false⟩, ⟨2, 0, ⟨0x1000, 0x1000⟩, 0, true, false⟩]
          [⟨1, 0, ⟨0, 0x1000⟩, 0, true, true⟩, ⟨2, 0, ⟨0x1000, 0x1000⟩, 4, true, false⟩,
            ⟨3, 0, ⟨0x2000, 0x1000⟩, 0, true, false⟩] =
        addsOf [⟨1, 0, ⟨0, 0x1000⟩, 0, true, false⟩, ⟨2, 0, ⟨0x1000, 0x1000⟩, 0, true, false⟩]
          [⟨1, 0, ⟨0, 0x1000⟩, 0, true, true⟩, ⟨2, 0, ⟨0x1000, 0x1000⟩, 4, true, false⟩,
            ⟨3, 0, ⟨0x2000, 0x1000⟩, 0, true, false⟩]) :=
  ⟨by decide, by decide, addressSpaceUpdateTopologyPass_spec _ _ (by decide) (by decide)⟩

example : addsOf [⟨1, 0, ⟨0, 0x1000⟩, 0, true, false⟩, ⟨2, 0, ⟨0x1000, 0x1000⟩, 0, true, false⟩]
    [⟨1, 0, ⟨0, 0x1000⟩, 0, true, true⟩, ⟨2, 0, ⟨0x1000, 0x1000⟩, 4, true, false⟩,
      ⟨3, 0, ⟨0x2000, 0x1000⟩, 0, true, false⟩] =
    [.regionAdd ⟨1, 0, ⟨0, 0x1000⟩, 0, true, true⟩, .regionNop ⟨2, 0, ⟨0x1000, 0x1000⟩, 4, true, false⟩,
      .logStart ⟨2, 0, ⟨0x1000, 0x1000⟩, 4, true, false⟩, .regionAdd ⟨3, 0, ⟨0x2000, 0x1000⟩, 0, true, false⟩] := by
  decide

/-! ## `memory_region_find` -/

/-- `cmp_flatrange_addr(addr, fr)`: negative when the query addr lies wholly
below fr, positive when wholly above it, zero when they meet. -/
def cmpFlatrangeAddr (addr : AddrRange) (fr : FlatRange) : ℤ :=
  if addrrangeEnd addr ≤ fr.addr.start then -1
  else if addr.start ≥ addrrangeEnd fr.addr then 1
  else 0

/-- `address_space_lookup`: bsearch over the current map. -/
def addressSpaceLookup (view : List FlatRange) (addr : AddrRange) : Option ℕ :=
  bsearch (cmpFlatrangeAddr addr) view

/-- Whether the range at index k of the view meets the query. -/
def hitAt (view : List FlatRange) (range : AddrRange) (k : ℕ) : Bool :=
  ((view[k]?).map fun fr => addrrangeIntersects fr.addr range).getD false

/-- The backward walk of `memory_region_find`: from the range bsearch found,
step back while the range before it still meets the query. -/
def walkBack (view : List FlatRange) (range : AddrRange) : ℕ → ℕ
  | 0 => 0
  | i + 1 => if hitAt view range i then walkBack view range i else i + 1

/-- The fields of `MemoryRegionSection` that `memory_region_find` fills. -/
structure MemoryRegionSection where
  mr : Option ℕ
  offsetWithinRegion : ℕ
  size : ℕ
  offsetWithinAddressSpace : ℕ
  readonly : Bool
  deriving DecidableEq, Repr

def memoryRegionFind (view : List FlatRange) (addr size : ℕ) : MemoryRegionSection :=
  let range : AddrRange := ⟨addr, size⟩
  match addressSpaceLookup view range with
  | none => ⟨none, 0, 0, 0, false⟩
  | some i =>
    match view[walkBack view range i]? with
    | none => ⟨none, 0, 0, 0, false⟩
    | some fr =>
      let range := addrrangeIntersection range fr.addr
      ⟨some fr.mr, fr.offsetInRegion + (range.start - fr.addr.start).toNat, range.size.toNat,
        range.start.toNat, fr.readonly⟩

/-- The section the claim describes: from the lowest-addressed range that
meets [addr, addr + size), its part inside the query. -/
def sectionOf (view : List FlatRange) (addr size : ℕ) : MemoryRegionSection :=
  match view.find? fun fr => addrrangeIntersects fr.addr ⟨addr, size⟩ with
  | none => ⟨none, 0, 0, 0, false⟩
  | some fr =>
    ⟨some fr.mr, fr.offsetInRegion + (max (addr : ℤ) fr.addr.start - fr.addr.start).toNat,
      (min ((addr : ℤ) + size) (addrrangeEnd fr.addr) - max (addr : ℤ) fr.addr.start).toNat,
      (max (addr : ℤ) fr.addr.start).toNat, fr.readonly⟩

section Find

variable {view : List FlatRange} {range : AddrRange}

theorem addrrangeIntersects_iff {a b : AddrRange} (ha : 0 < a.size) (hb : 0 < b.size) :
    addrrangeIntersects a b = true ↔ a.start < b.start + b.size ∧ b.start < a.start + a.size := by
  simp only [addrrangeIntersects, Bool.or_eq_true, addrrangeContains_iff]
  omega

/-- For non-empty ranges the comparator is zero exactly when they meet. -/
theorem cmpFlatrangeAddr_eq_zero_iff {fr : FlatRange} (hq : 0 < range.size)
    (hr : 0 < fr.addr.size) :
    cmpFlatrangeAddr range fr = 0 ↔ addrrangeIntersects fr.addr range = true := by
  rw [addrrangeIntersects_iff hr hq]
  simp only [cmpFlatrangeAddr, addrrangeEnd]
  split_ifs <;> omega

/-- A sorted view is ordered for every query. -/
theorem orderedFor_cmpFlatrangeAddr (hv : ViewSorted view) (range : AddrRange) :
    OrderedFor (cmpFlatrangeAddr range) view := by
  refine hv.2.imp_of_mem fun {x y} hx hy hxy => ?_
  have := hv.1 x hx
  have := hv.1 y hy
  simp only [cmpFlatrangeAddr, addrrangeEnd] at hxy ⊢
  constructor <;> intro h <;> split_ifs at h ⊢ <;> omega

theorem hitAt_iff (hv : ViewSorted view) (hq : 0 < range.size) {k : ℕ} (hk : k < view.length) :
    hitAt view range k = true ↔ cmpFlatrangeAddr range view[k] = 0 := by
  rw [hitAt, List.getElem?_eq_getElem hk, Option.map_some, Option.getD_some,
    cmpFlatrangeAddr_eq_zero_iff hq (hv.1 _ (List.getElem_mem hk))]

/-- On a sorted view the ranges that meet a query are consecutive. -/
theorem hitAt_between (hv : ViewSorted view) (hq : 0 < range.size) {k l m : ℕ}
    (hkl : k ≤ l) (hlm : l ≤ m) (hm : m < view.length) (hhk : hitAt view range k = true)
    (hhm : hitAt view range m = true) : hitAt view range l = true := by
  have hpw := List.pairwise_iff_getElem.1 (orderedFor_cmpFlatrangeAddr hv range)
  have hk0 := (hitAt_iff hv hq (by omega)).1 hhk
  have hm0 := (hitAt_iff hv hq hm).1 hhm
  rw [hitAt_iff hv hq (by omega)]
  rcases hkl.lt_or_eq with hkl | rfl
  · rcases hlm.lt_or_eq with hlm | rfl
    · -- neither before the matches (k matches) nor after them (m matches)
      have h1 := (hpw k l (by omega) (by omega) hkl).1
      have h2 := (hpw l m (by omega) hm hlm).2
      rw [hk0] at h1
      rw [hm0] at h2
      by_contra hne
      rcases lt_or_gt_of_ne hne with hlt | hgt
      · exact lt_irrefl 0 (h2 hlt)
      · exact lt_irrefl 0 (h1 hgt)
    · exact hm0
  · exact hk0

theorem walkBack_le (i : ℕ) : walkBack view range i ≤ i := by
  induction i with
  | zero => exact le_rfl
  | succ i ih =>
    simp only [walkBack]
    split
    · omega
    · exact le_rfl

/-- The walk ends on a hit whose predecessor, if any, is no hit. -/
theorem walkBack_hit (i : ℕ) (hi : hitAt view range i = true) :
    hitAt view range (walkBack view range i) = true ∧
      ∀ j, walkBack view range i = j + 1 → hitAt view range j = false := by
  induction i with
  | zero => exact ⟨hi, fun j hj => nomatch hj⟩
  | succ i ih =>
    simp only [walkBack]
    split
    · next h => exact ih h
    · next h =>
      refine ⟨hi, fun j hj => ?_⟩
      obtain rfl : i = j := by omega
      simpa using h

/-- From any hit the walk reaches the first range that meets the query. -/
theorem find?_eq_walkBack (hv : ViewSorted view) (hq : 0 < range.size) {i : ℕ}
    (hi : i < view.length) (hhit : hitAt view range i = true) :
    ∃ hj : walkBack view range i < view.length,
      view.find? (fun fr => addrrangeIntersects fr.addr range) = some view[walkBack view range i] := by
  have hle : walkBack view range i ≤ i := walkBack_le i
  obtain ⟨hj, hstop⟩ := walkBack_hit i hhit
  have hjlt : walkBack view range i < view.length := by omega
  refine ⟨hjlt, List.find?_eq_some_iff_getElem.2 ⟨?_, _, hjlt, rfl, fun k hk => ?_⟩⟩
  · simpa [hitAt, List.getElem?_eq_getElem hjlt] using hj
  · -- a hit before the walk's end would make its predecessor a hit too
    cases hkh : addrrangeIntersects view[k].addr range
    · rfl
    · have hk : hitAt view range k = true := by
        simpa [hitAt, List.getElem?_eq_getElem (by omega : k < view.length)] using hkh
      obtain ⟨j, hj1⟩ : ∃ j, walkBack view range i = j + 1 := ⟨_, (Nat.succ_pred_eq_of_pos (by omega)).symm⟩
      have := hitAt_between hv hq (by omega : k ≤ j) (by omega : j ≤ walkBack view range i) hjlt hk hj
      rw [hstop j hj1] at this
      exact absurd this Bool.false_ne_true

end Find

/-- `memory_region_find` on a sorted view of non-empty ranges, for a
non-empty query: no section exactly when no range meets the query, and
otherwise the part of the query inside the lowest-addressed range that
meets it, whichever meeting range bsearch lands on. -/
theorem memoryRegionFind_spec (view : List FlatRange) (hv : ViewSorted view) (addr size : ℕ)
    (hsize : 0 < size) : memoryRegionFind view addr size = sectionOf view addr size := by
  have hq : (0 : ℤ) < (⟨addr, size⟩ : AddrRange).size := by simpa using hsize
  simp only [memoryRegionFind, sectionOf, addressSpaceLookup]
  cases hs : bsearch (cmpFlatrangeAddr ⟨addr, size⟩) view with
  | none =>
    -- nothing compares equal, so nothing meets the query
    have hnone := (bsearch_eq_none_iff _ _ (orderedFor_cmpFlatrangeAddr hv _)).1 hs
    rw [List.find?_eq_none.2 fun fr hfr => ?_]
    rw [← cmpFlatrangeAddr_eq_zero_iff hq (hv.1 fr hfr)]
    exact hnone fr hfr
  | some i =>
    obtain ⟨hi, hc⟩ := bsearch_some _ _ hs
    obtain ⟨hj, hfind⟩ := find?_eq_walkBack hv hq hi ((hitAt_iff hv hq hi).2 hc)
    dsimp only
    rw [List.getElem?_eq_getElem hj, hfind]
    simp only [addrrangeIntersection, addrrangeEnd]

/-- Two ranges and a query that meets both: the section is the part inside
the first. -/
theorem memoryRegionFind_spec_two :
    ViewSorted [⟨1, 0, ⟨0, 0x1000⟩, 0, true, false⟩, ⟨2, 0x100, ⟨0x1000, 0x1000⟩, 0, true, false⟩] ∧
      memoryRegionFind [⟨1, 0, ⟨0, 0x1000⟩, 0, true, false⟩, ⟨2, 0x100, ⟨0x1000, 0x1000⟩, 0, true, false⟩]
          0xff0 0x20 =
        sectionOf [⟨1, 0, ⟨0, 0x1000⟩, 0, true, false⟩, ⟨2, 0x100, ⟨0x1000, 0x1000⟩, 0, true, false⟩]
          0xff0 0x20 :=
  ⟨by decide, memoryRegionFind_spec _ (by decide) _ _ (by decide)⟩

example : memoryRegionFind [⟨1, 0, ⟨0, 0x1000⟩, 0, true, false⟩, ⟨2, 0x100, ⟨0x1000, 0x1000⟩, 0, true, false⟩]
    0xff0 0x20 = ⟨some 1, 0xff0, 0x10, 0xff0, false⟩ := by
  decide

end QemuKvm.Memory
