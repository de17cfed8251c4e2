import Mathlib.Data.List.Pairwise
import Mathlib.Order.Basic
import Mathlib.Tactic.Linarith

/-!
# Rendering the memory-region tree into a flat view (memory.c)

An address space is a tree of `MemoryRegion`s: containers with subregions
in priority order, terminating regions (RAM, I/O), and aliases that show a
window of another region. `generate_memory_topology` renders the tree into a
`FlatView`, a list of `FlatRange`s sorted by address that says which region
answers each guest address: `render_memory_region` walks the tree depth
first, higher-priority subregions first, and a terminating region fills only
the gaps the ranges already in the view leave inside its clip;
`flatview_simplify` then merges neighbouring ranges of the same region.

Regions are kept in a store, a list indexed by region number, so that an
alias and the tree share its target as pointers do in the source. The
recursion carries fuel; with at least as much fuel as there are regions an
acyclic store is rendered completely.

Main results:

* `renderGaps_sorted` — the gap filling keeps the view sorted and disjoint
  as long as its start does not fall strictly inside a range already there;
* `generateMemoryTopology_overlap` — it does fall there when a
  lower-priority sibling starts inside a range rendered before it: the view
  of two overlapping RAM regions holds two overlapping ranges.
-/

namespace QemuKvm.Memory

/-! ## Regions and ranges -/

/-- The fields of `MemoryRegion` that rendering and the memory API use.
Subregions, the alias target and the parent are region numbers. -/
structure MemoryRegion where
  addr : ℕ
  size : ℕ
  enabled : Bool
  readonly : Bool
  readable : Bool
  terminates : Bool
  aliasTarget : Option ℕ
  aliasOffset : ℕ
  subregions : List ℕ
  dirtyLogMask : UInt8
  parent : Option ℕ
  priority : ℕ
  mayOverlap : Bool
  deriving DecidableEq, Repr

/-- `AddrRange`, in `Int128`: an alias with a large offset moves the base
below zero. -/
structure AddrRange where
  start : ℤ
  size : ℤ
  deriving DecidableEq, Repr

def addrrangeEnd (r : AddrRange) : ℤ := r.start + r.size

def addrrangeContains (r : AddrRange) (addr : ℤ) : Bool :=
  decide (r.start ≤ addr) && decide (addr < addrrangeEnd r)

def addrrangeIntersects (r1 r2 : AddrRange) : Bool :=
  addrrangeContains r1 r2.start || addrrangeContains r2 r1.start

def addrrangeIntersection (r1 r2 : AddrRange) : AddrRange :=
  let start := max r1.start r2.start
  let end_ := min (addrrangeEnd r1) (addrrangeEnd r2)
  ⟨start, end_ - start⟩

structure FlatRange where
  mr : ℕ
  offsetInRegion : ℕ
  addr : AddrRange
  dirtyLogMask : UInt8
  readable : Bool
  readonly : Bool
  deriving DecidableEq, Repr

/-! ## `render_memory_region` -/

/-- The three quantities the gap-filling loop of `render_memory_region`
advances together: where the next byte of the region lands, its offset in
the region, and how much of the clip is left. -/
structure GapState where
  base : ℤ
  offsetInRegion : ℕ
  remain : ℤ
  deriving DecidableEq, Repr

/-- base += now; offset_in_region += now; remain -= now. -/
def GapState.advance (g : GapState) (now : ℤ) : GapState :=
  ⟨g.base + now, g.offsetInRegion + now.toNat, g.remain - now⟩

@[simp] theorem GapState.advance_base (g : GapState) (now : ℤ) : (g.advance now).base = g.base + now :=
  rfl

@[simp] theorem GapState.advance_remain (g : GapState) (now : ℤ) :
    (g.advance now).remain = g.remain - now :=
  rfl

section Gaps

variable (mr : ℕ) (dirtyLogMask : UInt8) (readable readonly : Bool)

/-- The flat range the loop inserts for region mr at the current base; it
copies the region's dirty-log mask and readable flag. -/
def gapRange (g : GapState) (now : ℤ) : FlatRange :=
  ⟨mr, g.offsetInRegion, ⟨g.base, now⟩, dirtyLogMask, readable, readonly⟩

/-- The range inserted into the gap before the view range r, if base lies
below its start. -/
def gapBefore (r : FlatRange) (g : GapState) : List FlatRange :=
  if g.base < r.addr.start then
    [gapRange mr dirtyLogMask readable readonly g (min g.remain (r.addr.start - g.base))]
  else []

end Gaps

/-- The loop state after the gap before r and then after r itself: the
loop passes over r only if the gap ended exactly at its start. -/
def passRange (r : FlatRange) (g : GapState) : GapState :=
  let g := if g.base < r.addr.start then g.advance (min g.remain (r.addr.start - g.base)) else g
  if g.base = r.addr.start then g.advance (min g.remain r.addr.size) else g

/-- The gap-filling loop of `render_memory_region` for region mr: a range
goes into every gap before a range of the view, and at the end whatever of
the clip is left goes after the last one. -/
def renderGaps (mr : ℕ) (dirtyLogMask : UInt8) (readable readonly : Bool) :
    List FlatRange → GapState → List FlatRange
  | [], g => if g.remain ≠ 0 then [gapRange mr dirtyLogMask readable readonly g g.remain] else []
  | r :: rs, g =>
    if g.remain = 0 then r :: rs
    else if addrrangeEnd r.addr ≤ g.base then r :: renderGaps mr dirtyLogMask readable readonly rs g
    else
      gapBefore mr dirtyLogMask readable readonly r g ++
        r :: renderGaps mr dirtyLogMask readable readonly rs (passRange r g)

/-- `render_memory_region(view, mr, base, clip, readonly)` over the region
store; the fuel bounds the depth of the recursion. -/
def renderMemoryRegion (regions : List MemoryRegion) :
    ℕ → List FlatRange → ℕ → ℤ → AddrRange → Bool → List FlatRange
  | 0, view, _, _, _, _ => view
  | fuel + 1, view, mr, base, clip, readonly =>
    match regions[mr]? with
    | none => view
    | some region =>
      if !region.enabled then view
      else
        let base := base + region.addr
        let readonly := readonly || region.readonly
        let tmp : AddrRange := ⟨base, region.size⟩
        if !addrrangeIntersects tmp clip then view
        else
          let clip := addrrangeIntersection tmp clip
          match region.aliasTarget with
          | some target =>
            let aliasAddr := ((regions[target]?).map MemoryRegion.addr).getD 0
            renderMemoryRegion regions fuel view target (base - aliasAddr - region.aliasOffset) clip
              readonly
          | none =>
            -- subregions in priority order, then the region itself into the gaps
            let view := region.subregions.foldl
              (fun view sub => renderMemoryRegion regions fuel view sub base clip readonly) view
            if !region.terminates then view
            else
              renderGaps mr region.dirtyLogMask region.readable readonly view
                ⟨clip.start, (clip.start - base).toNat, clip.size⟩

/-! ## `flatview_simplify` -/

def canMerge (r1 r2 : FlatRange) : Bool :=
  addrrangeEnd r1.addr == r2.addr.start && r1.mr == r2.mr &&
    (r1.offsetInRegion : ℤ) + r1.addr.size == r2.offsetInRegion &&
    r1.dirtyLogMask == r2.dirtyLogMask && r1.readable == r2.readable && r1.readonly == r2.readonly

/-- The inner loop of `flatview_simplify`: grow acc by every following
range that can be merged with the one before it. -/
def mergeRun (acc prev : FlatRange) : List FlatRange → FlatRange × List FlatRange
  | [] => (acc, [])
  | r :: rs =>
    if canMerge prev r then mergeRun { acc with addr := ⟨acc.addr.start, acc.addr.size + r.addr.size⟩ } r rs
    else (acc, r :: rs)

/-- The outer loop of `flatview_simplify`; each round emits one merged
range, so as many rounds as there are ranges finish it. -/
def simplifyLoop : ℕ → List FlatRange → List FlatRange
  | 0, view => view
  | _ + 1, [] => []
  | fuel + 1, r :: rs =>
    let m := mergeRun r r rs
    m.1 :: simplifyLoop fuel m.2

def flatviewSimplify (view : List FlatRange) : List FlatRange :=
  simplifyLoop view.length view

/-- `generate_memory_topology(root)`: the whole root clipped to [0, 2^64),
then simplified. -/
def generateMemoryTopology (regions : List MemoryRegion) (root : ℕ) : List FlatRange :=
  flatviewSimplify (renderMemoryRegion regions regions.length [] root 0 ⟨0, 2 ^ 64⟩ false)

/-! ## The region that answers an address

What the flat view is for: the region a guest access at address a reaches
by walking the tree, the first enabled subregion in priority order that
contains a, else the region itself if it terminates; with the offset of a
inside it and whether any region on the way was read-only. -/

def regionAt (regions : List MemoryRegion) :
    ℕ → ℕ → ℤ → Bool → ℤ → Option (ℕ × ℤ × Bool)
  | 0, _, _, _, _ => none
  | fuel + 1, mr, base, readonly, a =>
    match regions[mr]? with
    | none => none
    | some region =>
      if !region.enabled then none
      else
        let base := base + region.addr
        let readonly := readonly || region.readonly
        if !addrrangeContains ⟨base, region.size⟩ a then none
        else
          match region.aliasTarget with
          | some target =>
            let aliasAddr := ((regions[target]?).map MemoryRegion.addr).getD 0
            regionAt regions fuel target (base - aliasAddr - region.aliasOffset) readonly a
          | none =>
            (region.subregions.findSome? fun sub => regionAt regions fuel sub base readonly a).or
              (if region.terminates then some (mr, a - base, readonly) else none)

/-! ## Well-formed views -/

/-- The ranges are non-empty, in increasing order and disjoint. -/
def ViewSorted (view : List FlatRange) : Prop :=
  (∀ r ∈ view, 0 < r.addr.size) ∧ view.Pairwise fun r s => addrrangeEnd r.addr ≤ s.addr.start

instance (view : List FlatRange) : Decidable (ViewSorted view) :=
  inferInstanceAs (Decidable (_ ∧ _))

/-- base is not strictly inside a range of the view. -/
def OutsideAll (view : List FlatRange) (base : ℤ) : Prop :=
  ∀ r ∈ view, base ≤ r.addr.start ∨ addrrangeEnd r.addr ≤ base

theorem ViewSorted.tail {r : FlatRange} {rs : List FlatRange} (h : ViewSorted (r :: rs)) :
    ViewSorted rs :=
  ⟨fun x hx => h.1 x (List.mem_cons_of_mem r hx), (List.pairwise_cons.1 h.2).2⟩

/-! ## The gap-filling loop -/

section Gaps

variable {mr : ℕ} {dirtyLogMask : UInt8} {readable readonly : Bool}

theorem renderGaps_of_remain_zero (view : List FlatRange) {g : GapState} (h : g.remain = 0) :
    renderGaps mr dirtyLogMask readable readonly view g = view := by
  cases view with
  | nil => simp [renderGaps, h]
  | cons r rs => simp [renderGaps, h]

/-- The loop only inserts: the ranges already in the view, rendered from
higher-priority regions, stay in it and in their order. -/
theorem sublist_renderGaps (view : List FlatRange) (g : GapState) :
    view.Sublist (renderGaps mr dirtyLogMask readable readonly view g) := by
  induction view generalizing g with
  | nil => exact List.nil_sublist _
  | cons r rs ih =>
    simp only [renderGaps]
    split_ifs
    · exact List.Sublist.refl _
    · exact (ih g).cons_cons r
    · exact ((ih _).cons_cons r).trans (List.sublist_append_right _ _)

theorem passRange_remain_nonneg (r : FlatRange) {g : GapState} (hg : 0 ≤ g.remain) :
    0 ≤ (passRange r g).remain := by
  simp only [passRange, apply_ite GapState.remain, apply_ite GapState.base, GapState.advance_base,
    GapState.advance_remain]
  split_ifs <;> omega

theorem passRange_base_ge {r : FlatRange} {g : GapState} (hg : 0 ≤ g.remain)
    (hr : 0 ≤ r.addr.size) : g.base ≤ (passRange r g).base := by
  simp only [passRange, apply_ite GapState.remain, apply_ite GapState.base, GapState.advance_base,
    GapState.advance_remain]
  split_ifs <;> omega

/-- From a base at or below the start of r, the loop either uses up the
clip or comes out exactly at the end of r. -/
theorem passRange_past {r : FlatRange} {g : GapState} (hg : 0 ≤ g.remain) (hin : g.base ≤ r.addr.start) :
    (passRange r g).remain = 0 ∨ (passRange r g).base = addrrangeEnd r.addr := by
  simp only [passRange, addrrangeEnd, apply_ite GapState.remain, apply_ite GapState.base,
    GapState.advance_base, GapState.advance_remain]
  split_ifs <;> omega

theorem mem_gapBefore {r x : FlatRange} {g : GapState} (hg : 0 < g.remain)
    (hx : x ∈ gapBefore mr dirtyLogMask readable readonly r g) :
    g.base ≤ x.addr.start ∧ addrrangeEnd x.addr ≤ r.addr.start ∧ 0 < x.addr.size := by
  simp only [gapBefore] at hx
  split_ifs at hx with hlt
  · obtain rfl := List.mem_singleton.1 hx
    simp only [gapRange, addrrangeEnd]
    omega
  · simp at hx

theorem pairwise_gapBefore (r : FlatRange) (g : GapState) :
    (gapBefore mr dirtyLogMask readable readonly r g).Pairwise fun r s => addrrangeEnd r.addr ≤ s.addr.start := by
  simp only [gapBefore]
  split_ifs <;> simp

/-- A range of the result is either one of the view or a new one that
lies at or above base. -/
theorem mem_renderGaps {view : List FlatRange} {g : GapState} {x : FlatRange}
    (hg : 0 ≤ g.remain) (hv : ∀ r ∈ view, 0 < r.addr.size)
    (hx : x ∈ renderGaps mr dirtyLogMask readable readonly view g) :
    x ∈ view ∨ 0 < g.remain ∧ g.base ≤ x.addr.start ∧ 0 < x.addr.size := by
  induction view generalizing g with
  | nil =>
    simp only [renderGaps] at hx
    split_ifs at hx with h0
    · obtain rfl := List.mem_singleton.1 hx
      simp only [gapRange]
      omega
    · simp at hx
  | cons r rs ih =>
    have hrs : ∀ r ∈ rs, 0 < r.addr.size := fun r' h => hv r' (List.mem_cons_of_mem r h)
    simp only [renderGaps] at hx
    split_ifs at hx with h0 hend
    · exact Or.inl hx
    · rcases List.mem_cons.1 hx with rfl | hx
      · exact Or.inl List.mem_cons_self
      · rcases ih hg hrs hx with h | h
        · exact Or.inl (List.mem_cons_of_mem r h)
        · exact Or.inr h
    · have hpos : 0 < g.remain := lt_of_le_of_ne hg (Ne.symm h0)
      have hr : 0 ≤ r.addr.size := (hv r List.mem_cons_self).le
      rcases List.mem_append.1 hx with hx | hx
      · exact Or.inr ⟨hpos, (mem_gapBefore hpos hx).1, (mem_gapBefore hpos hx).2.2⟩
      rcases List.mem_cons.1 hx with rfl | hx
      · exact Or.inl List.mem_cons_self
      rcases ih (passRange_remain_nonneg r hg) hrs hx with h | ⟨-, hb, hs⟩
      · exact Or.inl (List.mem_cons_of_mem r h)
      · exact Or.inr ⟨hpos, (passRange_base_ge hg hr).trans hb, hs⟩

/-- The rest of the output after a range r whose end the loop has passed
(or with the clip used up) lies above r. -/
theorem renderGaps_above {r : FlatRange} {rs : List FlatRange} {g : GapState}
    (hg : 0 ≤ g.remain) (hv : ViewSorted (r :: rs))
    (hpast : g.remain = 0 ∨ addrrangeEnd r.addr ≤ g.base) :
    ∀ y ∈ renderGaps mr dirtyLogMask readable readonly rs g, addrrangeEnd r.addr ≤ y.addr.start := by
  intro y hy
  have hr := (List.pairwise_cons.1 hv.2).1
  rcases mem_renderGaps hg hv.tail.1 hy with h | ⟨hpos, hb, -⟩
  · exact hr y h
  · rcases hpast with h0 | hle
    · omega
    · exact hle.trans hb

/-- The gap filling keeps the view sorted and disjoint when it starts at a
base that is not strictly inside any range of the view. -/
theorem renderGaps_sorted {view : List FlatRange} {g : GapState} (hg : 0 ≤ g.remain)
    (hv : ViewSorted view) (hout : OutsideAll view g.base) :
    ViewSorted (renderGaps mr dirtyLogMask readable readonly view g) := by
  induction view generalizing g with
  | nil =>
    simp only [renderGaps]
    split_ifs with h0
    · refine ⟨fun x hx => ?_, List.pairwise_singleton _ _⟩
      obtain rfl := List.mem_singleton.1 hx
      simp only [gapRange]
      omega
    · exact ⟨by simp, List.Pairwise.nil⟩
  | cons r rs ih =>
    have hout' : OutsideAll rs g.base := fun r' h => hout r' (List.mem_cons_of_mem r h)
    have hr : 0 ≤ r.addr.size := (hv.1 r List.mem_cons_self).le
    simp only [renderGaps]
    split_ifs with h0 hend
    · exact hv
    · -- r lies below base: it stays first, the loop goes on with the rest
      have hrest := ih hg hv.tail hout'
      refine ⟨fun x hx => ?_, List.pairwise_cons.2 ⟨renderGaps_above hg hv (Or.inr hend), hrest.2⟩⟩
      rcases List.mem_cons.1 hx with rfl | hx
      · exact hv.1 _ List.mem_cons_self
      · exact hrest.1 x hx
    · -- base is below the end of r, hence at or below its start
      have hin : g.base ≤ r.addr.start := (hout r List.mem_cons_self).resolve_right hend
      have hpos : 0 < g.remain := lt_of_le_of_ne hg (Ne.symm h0)
      have hg' := passRange_remain_nonneg r hg
      have hpast : (passRange r g).remain = 0 ∨ addrrangeEnd r.addr ≤ (passRange r g).base :=
        (passRange_past hg hin).imp_right Eq.ge
      have hrest : ViewSorted (renderGaps mr dirtyLogMask readable readonly rs (passRange r g)) := by
        rcases passRange_past hg hin with h0' | heq
        · rw [renderGaps_of_remain_zero rs h0']
          exact hv.tail
        · refine ih hg' hv.tail fun r' h => Or.inl ?_
          rw [heq]
          exact (List.pairwise_cons.1 hv.2).1 r' h
      have habove : ∀ y ∈ renderGaps mr dirtyLogMask readable readonly rs (passRange r g),
          addrrangeEnd r.addr ≤ y.addr.start :=
        renderGaps_above hg' hv hpast
      refine ⟨fun x hx => ?_, ?_⟩
      · rcases List.mem_append.1 hx with hx | hx
        · exact (mem_gapBefore hpos hx).2.2
        rcases List.mem_cons.1 hx with rfl | hx
        · exact hv.1 _ List.mem_cons_self
        · exact hrest.1 x hx
      · refine List.pairwise_append.2 ⟨pairwise_gapBefore r g,
          List.pairwise_cons.2 ⟨habove, hrest.2⟩, fun x hx y hy => ?_⟩
        have hxr := (mem_gapBefore hpos hx).2.1
        rcases List.mem_cons.1 hy with rfl | hy
        · exact hxr
        · have := habove y hy
          simp only [addrrangeEnd] at this hxr ⊢
          omega

end Gaps

/-! ## Rendering -/

/-- Rendering a region never removes or reorders a range already in the
view: whatever a higher-priority region put there wins. -/
theorem sublist_renderMemoryRegion (regions : List MemoryRegion) (fuel : ℕ) (view : List FlatRange)
    (mr : ℕ) (base : ℤ) (clip : AddrRange) (readonly : Bool) :
    view.Sublist (renderMemoryRegion regions fuel view mr base clip readonly) := by
  induction fuel generalizing view mr base clip readonly with
  | zero => exact List.Sublist.refl _
  | succ fuel ih =>
    -- the subregion loop only ever passes the view on to a deeper render
    have hfold : ∀ (subs : List ℕ) (view : List FlatRange) base clip readonly,
        view.Sublist (subs.foldl
          (fun view sub => renderMemoryRegion regions fuel view sub base clip readonly) view) := by
      intro subs
      induction subs with
      | nil => intro view _ _ _; exact List.Sublist.refl _
      | cons sub subs ihs => intro view b c ro; exact (ih view sub b c ro).trans (ihs _ b c ro)
    simp only [renderMemoryRegion]
    split
    · exact List.Sublist.refl _
    · split
      · exact List.Sublist.refl _
      · split
        · exact List.Sublist.refl _
        · split
          · exact ih _ _ _ _ _
          · split
            · exact hfold _ _ _ _ _
            · exact (hfold _ _ _ _ _).trans (sublist_renderGaps _ _)

/-! ## What rendering reads

Rendering reads every region's address (an alias subtracts its target's
address before it looks at the target) and enabled flag, but the other
fields only of enabled regions, and never a region's parent, priority or
overlap flag: the order of the subregion list already says the priority. -/

/-- Two versions of a region that rendering cannot tell apart. -/
def SameRender (r r' : MemoryRegion) : Prop :=
  r.addr = r'.addr ∧ r.enabled = r'.enabled ∧
    (r.enabled = true → r.size = r'.size ∧ r.readonly = r'.readonly ∧ r.readable = r'.readable ∧
      r.terminates = r'.terminates ∧ r.aliasTarget = r'.aliasTarget ∧
      r.aliasOffset = r'.aliasOffset ∧ r.subregions = r'.subregions ∧
      r.dirtyLogMask = r'.dirtyLogMask)

theorem SameRender.refl (r : MemoryRegion) : SameRender r r :=
  ⟨rfl, rfl, fun _ => ⟨rfl, rfl, rfl, rfl, rfl, rfl, rfl, rfl⟩⟩

theorem SameRender.trans {r r' r'' : MemoryRegion} (h : SameRender r r') (h' : SameRender r' r'') :
    SameRender r r'' := by
  obtain ⟨ha, he, hf⟩ := h
  obtain ⟨ha', he', hf'⟩ := h'
  refine ⟨ha.trans ha', he.trans he', fun hr => ?_⟩
  obtain ⟨h1, h2, h3, h4, h5, h6, h7, h8⟩ := hf hr
  obtain ⟨h1', h2', h3', h4', h5', h6', h7', h8'⟩ := hf' (he ▸ hr)
  exact ⟨h1.trans h1', h2.trans h2', h3.trans h3', h4.trans h4', h5.trans h5', h6.trans h6',
    h7.trans h7', h8.trans h8'⟩

/-- A disabled region can change anything but its address and enabled flag. -/
theorem sameRender_of_disabled {r r' : MemoryRegion} (hr : r.enabled = false)
    (haddr : r.addr = r'.addr) (hen : r.enabled = r'.enabled) : SameRender r r' :=
  ⟨haddr, hen, fun h => absurd (hr ▸ h) Bool.false_ne_true⟩

/-- Stores whose regions rendering cannot tell apart, one by one. -/
def RenderEquiv (regions regions' : List MemoryRegion) : Prop :=
  regions.length = regions'.length ∧ ∀ i : ℕ, Option.Rel SameRender regions[i]? regions'[i]?

theorem RenderEquiv.refl (regions : List MemoryRegion) : RenderEquiv regions regions :=
  ⟨rfl, fun i => by
    cases regions[i]? with
    | none => exact Option.Rel.none
    | some r => exact Option.Rel.some (SameRender.refl r)⟩

theorem RenderEquiv.trans {l l' l'' : List MemoryRegion} (h : RenderEquiv l l')
    (h' : RenderEquiv l' l'') : RenderEquiv l l'' := by
  refine ⟨h.1.trans h'.1, fun i => ?_⟩
  have hi := h.2 i
  have hi' := h'.2 i
  revert hi hi'
  generalize l[i]? = a
  generalize l'[i]? = b
  generalize l''[i]? = c
  rintro (hab | _) hbc
  · cases hbc with
    | some hbc => exact Option.Rel.some (hab.trans hbc)
  · cases hbc
    exact Option.Rel.none

/-- Changing one region in a way rendering cannot see. -/
theorem renderEquiv_modify (regions : List MemoryRegion) (i : ℕ) (f : MemoryRegion → MemoryRegion)
    (hf : ∀ r, regions[i]? = some r → SameRender r (f r)) :
    RenderEquiv regions (regions.modify i f) := by
  refine ⟨(List.length_modify f regions i).symm, fun j => ?_⟩
  rw [List.getElem?_modify]
  cases hj : regions[j]? with
  | none => exact Option.Rel.none
  | some r =>
    refine Option.Rel.some ?_
    split
    · next hij => exact hf r (hij ▸ hj)
    · exact SameRender.refl r

theorem RenderEquiv.getElem? {regions regions' : List MemoryRegion} (h : RenderEquiv regions regions')
    (i : ℕ) : regions[i]? = none ∧ regions'[i]? = none ∨
      ∃ r r', regions[i]? = some r ∧ regions'[i]? = some r' ∧ SameRender r r' := by
  have hi := h.2 i
  revert hi
  generalize regions[i]? = a
  generalize regions'[i]? = b
  rintro (hab | _)
  · exact Or.inr ⟨_, _, rfl, rfl, hab⟩
  · exact Or.inl ⟨rfl, rfl⟩

theorem RenderEquiv.map_addr {regions regions' : List MemoryRegion} (h : RenderEquiv regions regions')
    (i : ℕ) : (regions[i]?).map MemoryRegion.addr = (regions'[i]?).map MemoryRegion.addr := by
  rcases h.getElem? i with ⟨h1, h2⟩ | ⟨r, r', h1, h2, hr⟩
  · rw [h1, h2]
  · rw [h1, h2, Option.map_some, Option.map_some, hr.1]

/-- The frame lemma of rendering: stores that rendering cannot tell apart
region by region render alike. -/
theorem renderMemoryRegion_congr {regions regions' : List MemoryRegion}
    (h : RenderEquiv regions regions') (fuel : ℕ) :
    ∀ view mr base clip readonly, renderMemoryRegion regions fuel view mr base clip readonly =
      renderMemoryRegion regions' fuel view mr base clip readonly := by
  induction fuel with
  | zero => intros; rfl
  | succ fuel ih =>
    intro view mr base clip readonly
    rcases h.getElem? mr with ⟨h1, h2⟩ | ⟨r, r', h1, h2, haddr, hen, hfields⟩
    · simp only [renderMemoryRegion, h1, h2]
    cases hr : r.enabled with
    | false => simp only [renderMemoryRegion, h1, h2, hr, ← hen, Bool.not_false, if_true]
    | true =>
      obtain ⟨hsize, hro, hrd, hterm, halias, hoff, hsubs, hmask⟩ := hfields hr
      simp only [renderMemoryRegion, h1, h2, ← haddr, ← hen, ← hsize, ← hro, ← hrd, ← hterm,
        ← halias, ← hoff, ← hsubs, ← hmask, ih, h.map_addr]

theorem generateMemoryTopology_congr {regions regions' : List MemoryRegion}
    (h : RenderEquiv regions regions') (root : ℕ) :
    generateMemoryTopology regions root = generateMemoryTopology regions' root := by
  rw [generateMemoryTopology, generateMemoryTopology, h.1, renderMemoryRegion_congr h]

/-! ## Overlapping siblings -/

/-- A root container holding two RAM regions, the first at [0x1000, 0x3000)
and, after it in priority order, the second at [0x2000, 0x4000). -/
def overlappingSiblings : List MemoryRegion :=
  [⟨0, 2 ^ 64, true, false, true, false, none, 0, [1, 2], 0, none, 0, false⟩,
   ⟨0x1000, 0x2000, true, false, true, true, none, 0, [], 0, some 0, 0, false⟩,
   ⟨0x2000, 0x2000, true, false, true, true, none, 0, [], 0, some 0, 0, false⟩]

/-- The clip of the second region starts at 0x2000, strictly inside the
range [0x1000, 0x3000) the first one rendered, so the loop never moves past
that range and inserts all of [0x2000, 0x4000): the view overlaps, and
address 0x2800, which the first region answers, also lies in a range of the
second. -/
theorem generateMemoryTopology_overlap :
    ¬ ViewSorted (generateMemoryTopology overlappingSiblings 0) ∧
      regionAt overlappingSiblings 3 0 0 false 0x2800 = some (1, 0x1800, false) ∧
      ∃ fr ∈ generateMemoryTopology overlappingSiblings 0,
        fr.mr = 2 ∧ addrrangeContains fr.addr 0x2800 = true := by
  decide

end QemuKvm.Memory
