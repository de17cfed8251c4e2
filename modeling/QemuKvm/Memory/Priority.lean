import QemuKvm.Memory.Api

/-!
# Priority order of subregions (memory.c)

`memory_region_add_subregion_common` inserts a subregion before the first
sibling of no greater priority, or at the tail, and `render_memory_region`
renders the subregions of a container in list order, an earlier sibling
taking the addresses it covers first. This file shows that every call of
the API keeps each container's list in that order, over every run, and that
rendering nevertheless does not give the higher-priority sibling every
address it covers.

The invariant `SubregionOrder` of the region store:

* every subregions list is ordered by non-increasing priority, holds each
  region once and only regions whose parent is that container
  (`SiblingList`; the source keeps `parent` and the list link together,
  and `memory_region_del_subregion` relies on it);
* a region with `may_overlap` false has priority 0, as
  `memory_region_init` and `memory_region_add_subregion` leave it, so that
  `memory_region_set_address`, which re-adds such a region through
  `memory_region_add_subregion`, keeps its priority.

Main results:

* `subregionOrder_memStep` and `subregionOrder_run` — every call keeps the
  invariant, so it holds along every run from regions as created;
* `addSubregionCommon_split` — a new subregion stands after the siblings of
  greater priority and before all the others, those of equal priority
  included;
* `setAddress_keeps` — moving a subregion keeps its parent, priority and
  `may_overlap`;
* `prioritySiblings_overlap` — a run that adds a priority-1 region and then
  a priority-0 region starting inside it leaves the list ordered, yet the
  flat view holds a range of the lower-priority region at an address the
  higher-priority one answers.
-/

namespace QemuKvm.Memory

open MemState

/-! ## The store after each call -/

namespace MemState

@[simp] theorem regions_modifyRegion (s : MemState) (i : ℕ) (f : MemoryRegion → MemoryRegion) :
    (s.modifyRegion i f).regions = s.regions.modify i f := rfl

@[simp] theorem regions_memoryRegionUpdateTopology (s : MemState) (mr : Option ℕ) :
    (s.memoryRegionUpdateTopology mr).regions = s.regions := by
  unfold memoryRegionUpdateTopology
  split_ifs <;> rfl

@[simp] theorem regions_memoryRegionTransactionBegin (s : MemState) :
    s.memoryRegionTransactionBegin.regions = s.regions := rfl

theorem regions_of_memoryRegionTransactionCommit {s s' : MemState}
    (h : s.memoryRegionTransactionCommit = some s') : s'.regions = s.regions := by
  unfold memoryRegionTransactionCommit at h
  split_ifs at h
  cases h
  split <;> simp

end MemState

@[simp] theorem regions_setFieldAndUpdate (s : MemState) (mr : ℕ) (f : MemoryRegion → MemoryRegion) :
    (setFieldAndUpdate s mr f).regions = s.regions.modify mr f := by
  simp [setFieldAndUpdate]

/-! ## Reading one field of the store -/

/-- Field `get` of region i, `d` when there is no region i: how the
insertion loop reads other->priority. -/
def regionField {β : Type} (get : MemoryRegion → β) (d : β) (regions : List MemoryRegion)
    (i : ℕ) : β :=
  ((regions[i]?).map get).getD d

section Field

variable {β : Type} (get : MemoryRegion → β) (d : β) {regions : List MemoryRegion}
  {f : MemoryRegion → MemoryRegion}

theorem regionField_of_getElem? {i : ℕ} {r : MemoryRegion} (h : regions[i]? = some r) :
    regionField get d regions i = get r := by
  simp [regionField, h]

theorem regionField_modify_ne {i j : ℕ} (hij : i ≠ j) :
    regionField get d (regions.modify i f) j = regionField get d regions j := by
  simp only [regionField, List.getElem?_modify_ne f regions hij]

theorem regionField_modify_self {i : ℕ} {r : MemoryRegion} (h : regions[i]? = some r) :
    regionField get d (regions.modify i f) i = get (f r) := by
  simp [regionField, List.getElem?_modify_eq, h]

theorem regionField_modify_of_keep (i : ℕ) (hf : ∀ r, get (f r) = get r) :
    regionField get d (regions.modify i f) = regionField get d regions := by
  funext j
  by_cases hij : i = j
  · subst hij
    cases hr : regions[i]? with
    | none => simp [regionField, List.getElem?_modify_eq, hr]
    | some r => rw [regionField_modify_self get d hr, hf, regionField_of_getElem? get d hr]
  · exact regionField_modify_ne get d hij

end Field

/-- What is found at j after `modify i f` is f of what was there, or that
itself. -/
theorem getElem?_modify_some {α : Type*} {l : List α} {f : α → α} {i j : ℕ} {y : α}
    (h : (l.modify i f)[j]? = some y) : ∃ x, l[j]? = some x ∧ y = if i = j then f x else x := by
  rw [List.getElem?_modify, Option.map_eq_map] at h
  obtain ⟨x, hx, rfl⟩ := Option.map_eq_some_iff.1 h
  exact ⟨x, hx, rfl⟩

/-- Two changes of different fields made in either order. -/
theorem modify_modify_comm {α : Type*} (l : List α) {i j : ℕ} {f g : α → α}
    (h : ∀ a, f (g a) = g (f a)) : (l.modify i f).modify j g = (l.modify j g).modify i f := by
  apply List.ext_getElem?
  intro k
  simp only [List.getElem?_modify]
  cases l[k]? with
  | none => rfl
  | some a => by_cases hi : i = k <;> by_cases hj : j = k <;> simp [hi, hj, h]

/-! ## Inserting into a subregion list -/

section Insert

variable (regions : List MemoryRegion) (sub p : ℕ)

theorem insertSubregion_cons (other : ℕ) (others : List ℕ) :
    insertSubregion regions sub p (other :: others) =
      if regionField MemoryRegion.priority 0 regions other ≤ p then sub :: other :: others
      else other :: insertSubregion regions sub p others := rfl

theorem insertSubregion_perm (l : List ℕ) : (insertSubregion regions sub p l).Perm (sub :: l) := by
  induction l with
  | nil => exact List.Perm.refl _
  | cons o l ih =>
    rw [insertSubregion_cons]
    split
    · exact List.Perm.refl _
    · exact (ih.cons o).trans (List.Perm.swap sub o l)

theorem mem_insertSubregion {x : ℕ} {l : List ℕ} :
    x ∈ insertSubregion regions sub p l ↔ x = sub ∨ x ∈ l := by
  rw [(insertSubregion_perm regions sub p l).mem_iff, List.mem_cons]

/-- The new subregion goes after the siblings of greater priority, before
the first one of no greater priority. -/
theorem insertSubregion_split (l : List ℕ) :
    ∃ l₁ l₂, l = l₁ ++ l₂ ∧ insertSubregion regions sub p l = l₁ ++ sub :: l₂ ∧
      (∀ o ∈ l₁, p < regionField MemoryRegion.priority 0 regions o) ∧
      ∀ o ∈ l₂.head?, regionField MemoryRegion.priority 0 regions o ≤ p := by
  induction l with
  | nil => exact ⟨[], [], rfl, rfl, by simp, by simp⟩
  | cons o l ih =>
    rw [insertSubregion_cons]
    split
    · next hle => exact ⟨[], o :: l, rfl, rfl, by simp, by simpa using hle⟩
    · next hgt =>
      obtain ⟨l₁, l₂, rfl, heq, h₁, h₂⟩ := ih
      refine ⟨o :: l₁, l₂, rfl, by rw [heq]; rfl, ?_, h₂⟩
      intro x hx
      rcases List.mem_cons.1 hx with rfl | hx
      · omega
      · exact h₁ x hx

variable {regions sub}

theorem pairwise_insertSubregion {l : List ℕ}
    (hl : l.Pairwise fun a b =>
      regionField MemoryRegion.priority 0 regions b ≤ regionField MemoryRegion.priority 0 regions a) :
    (insertSubregion regions sub (regionField MemoryRegion.priority 0 regions sub) l).Pairwise
      fun a b =>
        regionField MemoryRegion.priority 0 regions b ≤ regionField MemoryRegion.priority 0 regions a := by
  induction l with
  | nil => exact List.pairwise_singleton _ _
  | cons o l ih =>
    obtain ⟨ho, hl⟩ := List.pairwise_cons.1 hl
    rw [insertSubregion_cons]
    split
    · -- sub goes first: every later sibling is at most o, and o at most sub
      next hle =>
      refine List.pairwise_cons.2 ⟨fun b hb => ?_, List.pairwise_cons.2 ⟨ho, hl⟩⟩
      rcases List.mem_cons.1 hb with rfl | hb
      · exact hle
      · exact (ho b hb).trans hle
    · next hgt =>
      refine List.pairwise_cons.2 ⟨fun b hb => ?_, ih hl⟩
      rcases (mem_insertSubregion regions sub _).1 hb with rfl | hb
      · omega
      · exact ho b hb

end Insert

/-! ## The invariant -/

/-- What the subregion list l of container j keeps: ordered by
non-increasing priority, each region once, each with parent j. -/
structure SiblingList (regions : List MemoryRegion) (j : ℕ) (l : List ℕ) : Prop where
  sorted : l.Pairwise fun a b =>
    regionField MemoryRegion.priority 0 regions b ≤ regionField MemoryRegion.priority 0 regions a
  nodup : l.Nodup
  linked : ∀ x ∈ l, regionField MemoryRegion.parent none regions x = some j

/-- The invariant of the region store under the subregion API. -/
structure SubregionOrder (regions : List MemoryRegion) : Prop where
  lists : ∀ (j : ℕ) (r : MemoryRegion), regions[j]? = some r → SiblingList regions j r.subregions
  flat : ∀ (j : ℕ) (r : MemoryRegion), regions[j]? = some r → r.mayOverlap = false → r.priority = 0

/-- Region x stands in no subregion list. -/
def Unlisted (regions : List MemoryRegion) (x : ℕ) : Prop :=
  ∀ (j : ℕ) (r : MemoryRegion), regions[j]? = some r → x ∉ r.subregions

variable {regions : List MemoryRegion}

/-- A list keeps its properties in a store that agrees on the priority and
parent of its members. -/
theorem SiblingList.congr {regions' : List MemoryRegion} {j : ℕ} {l : List ℕ}
    (h : SiblingList regions j l)
    (hprio : ∀ x ∈ l,
      regionField MemoryRegion.priority 0 regions' x = regionField MemoryRegion.priority 0 regions x)
    (hpar : ∀ x ∈ l,
      regionField MemoryRegion.parent none regions' x = regionField MemoryRegion.parent none regions x) :
    SiblingList regions' j l where
  sorted := h.sorted.imp_of_mem fun ha hb hab => by rwa [hprio _ ha, hprio _ hb]
  nodup := h.nodup
  linked x hx := (hpar x hx).trans (h.linked x hx)

theorem SiblingList.insert {mr sub : ℕ} {l : List ℕ} (h : SiblingList regions mr l) (hsub : sub ∉ l)
    (hpar : regionField MemoryRegion.parent none regions sub = some mr) :
    SiblingList regions mr
      (insertSubregion regions sub (regionField MemoryRegion.priority 0 regions sub) l) where
  sorted := pairwise_insertSubregion h.sorted
  nodup := (insertSubregion_perm _ _ _ l).nodup_iff.2 (List.nodup_cons.2 ⟨hsub, h.nodup⟩)
  linked x hx := by
    rcases (mem_insertSubregion _ _ _).1 hx with rfl | hx
    · exact hpar
    · exact h.linked x hx

theorem SiblingList.erase {mr sub : ℕ} {l : List ℕ} (h : SiblingList regions mr l) :
    SiblingList regions mr (l.erase sub) where
  sorted := h.sorted.sublist List.erase_sublist
  nodup := h.nodup.erase sub
  linked x hx := h.linked x (List.mem_of_mem_erase hx)

theorem SubregionOrder.unlisted (h : SubregionOrder regions) {x : ℕ}
    (hx : regionField MemoryRegion.parent none regions x = none) : Unlisted regions x := by
  intro j r hr hmem
  rw [(h.lists j r hr).linked x hmem] at hx
  cases hx

theorem Unlisted.modify {x i : ℕ} {f : MemoryRegion → MemoryRegion} (h : Unlisted regions x)
    (hsub : ∀ r, (f r).subregions = r.subregions) : Unlisted (regions.modify i f) x := by
  intro j r' hr'
  obtain ⟨r, hr, rfl⟩ := getElem?_modify_some hr'
  split
  · rw [hsub]
    exact h j r hr
  · exact h j r hr

/-- Changing region i keeps the invariant when the subregion lists stay, no
listed region changes its priority or parent, and the new record is
flat if it does not overlap. -/
theorem SubregionOrder.modify (h : SubregionOrder regions) {i : ℕ} {f : MemoryRegion → MemoryRegion}
    (hsub : ∀ r, (f r).subregions = r.subregions)
    (hkeep : Unlisted regions i ∨ ∀ r, (f r).priority = r.priority ∧ (f r).parent = r.parent)
    (hflat : ∀ r, regions[i]? = some r → (f r).mayOverlap = false → (f r).priority = 0) :
    SubregionOrder (regions.modify i f) := by
  -- a region in a list reads the same priority and parent after the change
  have hlisted : ∀ (j : ℕ) (r : MemoryRegion) (x : ℕ), regions[j]? = some r → x ∈ r.subregions →
      regionField MemoryRegion.priority 0 (regions.modify i f) x =
          regionField MemoryRegion.priority 0 regions x ∧
        regionField MemoryRegion.parent none (regions.modify i f) x =
          regionField MemoryRegion.parent none regions x := by
    intro j r x hr hx
    by_cases hix : i = x
    · subst hix
      rcases hkeep with hun | hkeep
      · exact absurd hx (hun j r hr)
      · exact ⟨congrFun (regionField_modify_of_keep _ _ i fun r => (hkeep r).1) i,
          congrFun (regionField_modify_of_keep _ _ i fun r => (hkeep r).2) i⟩
    · exact ⟨regionField_modify_ne _ _ hix, regionField_modify_ne _ _ hix⟩
  refine ⟨fun j r' hr' => ?_, fun j r' hr' => ?_⟩
  · obtain ⟨r, hr, rfl⟩ := getElem?_modify_some hr'
    have hs : (if i = j then f r else r).subregions = r.subregions := by
      split
      · exact hsub r
      · rfl
    rw [hs]
    exact (h.lists j r hr).congr (fun x hx => (hlisted j r x hr hx).1)
      (fun x hx => (hlisted j r x hr hx).2)
  · obtain ⟨r, hr, rfl⟩ := getElem?_modify_some hr'
    split
    · next hij =>
      subst hij
      exact hflat r hr
    · exact h.flat j r hr

/-- A change of fields that neither the lists nor the order read. -/
theorem SubregionOrder.modify_keep (h : SubregionOrder regions) (i : ℕ)
    {f : MemoryRegion → MemoryRegion}
    (hf : ∀ r, (f r).subregions = r.subregions ∧ (f r).priority = r.priority ∧
      (f r).parent = r.parent ∧ (f r).mayOverlap = r.mayOverlap) :
    SubregionOrder (regions.modify i f) :=
  h.modify (fun r => (hf r).1) (.inr fun r => ⟨(hf r).2.1, (hf r).2.2.1⟩) fun r hr hov => by
    rw [(hf r).2.1]
    exact h.flat i r hr (by rw [← (hf r).2.2.2, hov])

/-- Replacing the list of container mr by one that is itself ordered and
linked to mr. -/
theorem SubregionOrder.setSubregions (h : SubregionOrder regions) {mr : ℕ} {g : List ℕ → List ℕ}
    (hg : ∀ r, regions[mr]? = some r → SiblingList regions mr (g r.subregions)) :
    SubregionOrder (regions.modify mr fun r => { r with subregions := g r.subregions }) := by
  have hprio : regionField MemoryRegion.priority 0
      (regions.modify mr fun r => { r with subregions := g r.subregions }) =
        regionField MemoryRegion.priority 0 regions :=
    regionField_modify_of_keep _ _ mr fun _ => rfl
  have hpar : regionField MemoryRegion.parent none
      (regions.modify mr fun r => { r with subregions := g r.subregions }) =
        regionField MemoryRegion.parent none regions :=
    regionField_modify_of_keep _ _ mr fun _ => rfl
  refine ⟨fun j r' hr' => ?_, fun j r' hr' => ?_⟩
  · obtain ⟨r, hr, rfl⟩ := getElem?_modify_some hr'
    split
    · next hij =>
      subst hij
      exact (hg r hr).congr (fun x _ => congrFun hprio x) (fun x _ => congrFun hpar x)
    · exact (h.lists j r hr).congr (fun x _ => congrFun hprio x) (fun x _ => congrFun hpar x)
  · obtain ⟨r, hr, rfl⟩ := getElem?_modify_some hr'
    split
    · exact h.flat j r hr
    · exact h.flat j r hr

/-- Regions as `memory_region_init` creates them. -/
theorem subregionOrder_of_fresh (h : ∀ r ∈ regions, r.subregions = [] ∧ r.priority = 0) :
    SubregionOrder regions where
  lists j r hr := by
    rw [(h r (List.mem_of_getElem? hr)).1]
    exact ⟨List.Pairwise.nil, List.nodup_nil, by simp⟩
  flat j r hr _ := (h r (List.mem_of_getElem? hr)).2

/-! ## Adding and deleting a subregion -/

section Calls

variable {s s' : MemState} {mr sub : ℕ}

theorem addSubregionCommon_eq {offset : ℕ}
    (hadd : memoryRegionAddSubregionCommon s mr offset sub = some s') :
    ∃ subregion, s.regions[sub]? = some subregion ∧ subregion.parent = none ∧
      mr < s.regions.length ∧
      s'.regions =
        (s.regions.modify sub fun r => { r with parent := some mr, addr := offset }).modify mr
          fun r => { r with
            subregions := insertSubregion
              (s.regions.modify sub fun r => { r with parent := some mr, addr := offset })
              sub subregion.priority r.subregions } := by
  unfold memoryRegionAddSubregionCommon at hadd
  split at hadd
  · cases hadd
  · next subregion hsub =>
    split_ifs at hadd with hbad
    cases hadd
    simp only [not_or, Bool.not_eq_true, Option.isSome_eq_false_iff, Option.isNone_iff_eq_none,
      not_le] at hbad
    exact ⟨subregion, hsub, hbad.1, hbad.2, by simp⟩

theorem delSubregion_eq (hdel : memoryRegionDelSubregion s mr sub = some s') :
    ∃ subregion, s.regions[sub]? = some subregion ∧ subregion.parent = some mr ∧
      s'.regions = (s.regions.modify sub fun r => { r with parent := none }).modify mr
        fun r => { r with subregions := r.subregions.erase sub } := by
  unfold memoryRegionDelSubregion at hdel
  split at hdel
  · cases hdel
  · next subregion hsub =>
    split_ifs at hdel with hbad
    cases hdel
    exact ⟨subregion, hsub, not_not.1 hbad, by simp⟩

theorem subregionOrder_addSubregionCommon {offset : ℕ} (h : SubregionOrder s.regions)
    (hadd : memoryRegionAddSubregionCommon s mr offset sub = some s') : SubregionOrder s'.regions := by
  obtain ⟨subregion, hsub, hnone, -, hregions⟩ := addSubregionCommon_eq hadd
  have hun : Unlisted s.regions sub :=
    h.unlisted (by rw [regionField_of_getElem? _ _ hsub, hnone])
  -- first sub is placed: it is in no list, so nothing the lists read changes
  have h₁ := h.modify (i := sub) (f := fun r => { r with parent := some mr, addr := offset })
    (fun _ => rfl) (.inl hun) (fun r hr => h.flat sub r hr)
  have hun₁ := hun.modify (i := sub) (f := fun r => { r with parent := some mr, addr := offset })
    fun _ => rfl
  -- then it is inserted into the list of mr, with the priority it has there
  have hprio : regionField MemoryRegion.priority 0
      (s.regions.modify sub fun r => { r with parent := some mr, addr := offset }) sub =
        subregion.priority :=
    regionField_modify_self MemoryRegion.priority 0 hsub
  rw [hregions, ← hprio]
  refine h₁.setSubregions fun r hr => (h₁.lists mr r hr).insert (hun₁ mr r hr) ?_
  exact regionField_modify_self MemoryRegion.parent none hsub

theorem subregionOrder_delSubregion (h : SubregionOrder s.regions)
    (hdel : memoryRegionDelSubregion s mr sub = some s') : SubregionOrder s'.regions := by
  obtain ⟨subregion, hsub, hparent, hregions⟩ := delSubregion_eq hdel
  rw [hregions, modify_modify_comm s.regions (f := fun r : MemoryRegion => { r with parent := none })
    (g := fun r : MemoryRegion => { r with subregions := r.subregions.erase sub }) fun _ => rfl]
  -- first sub leaves the list of mr, which it can stand in only once
  have h₁ := h.setSubregions (g := fun l => l.erase sub) fun r hr => (h.lists mr r hr).erase
  -- it now stands in no list: in any other it would have another parent
  have hun : Unlisted (s.regions.modify mr fun r => { r with subregions := r.subregions.erase sub })
      sub := by
    intro j r' hr'
    obtain ⟨r, hr, rfl⟩ := getElem?_modify_some hr'
    split
    · exact (h.lists j r hr).nodup.not_mem_erase
    · next hj =>
      intro hmem
      have hpar := (h.lists j r hr).linked sub hmem
      rw [regionField_of_getElem? _ _ hsub, hparent] at hpar
      exact hj (Option.some.inj hpar)
  exact h₁.modify (fun _ => rfl) (.inl hun) fun r hr => h₁.flat sub r hr

/-- `memory_region_add_subregion` and `_overlap` first set may_overlap and
the priority of sub, which is in no list if the call goes through. -/
theorem subregionOrder_addSubregionCommon_of_pre {offset : ℕ} (h : SubregionOrder s.regions)
    {f : MemoryRegion → MemoryRegion} (hsub : ∀ r, (f r).subregions = r.subregions)
    (hpar : ∀ r, (f r).parent = r.parent) (hflat : ∀ r, (f r).mayOverlap = false → (f r).priority = 0)
    (hadd : memoryRegionAddSubregionCommon (s.modifyRegion sub f) mr offset sub = some s') :
    SubregionOrder s'.regions := by
  obtain ⟨subregion, hsub', hnone, -⟩ := addSubregionCommon_eq hadd
  have hun : Unlisted s.regions sub := by
    obtain ⟨r, hr, hfr⟩ := getElem?_modify_some hsub'
    rw [if_pos rfl] at hfr
    exact h.unlisted (by rw [regionField_of_getElem? _ _ hr, ← hpar, ← hfr, hnone])
  exact subregionOrder_addSubregionCommon (h.modify hsub (.inl hun) fun r _ => hflat r) hadd

theorem subregionOrder_addSubregion {offset : ℕ} (h : SubregionOrder s.regions)
    (hadd : memoryRegionAddSubregion s mr offset sub = some s') : SubregionOrder s'.regions :=
  subregionOrder_addSubregionCommon_of_pre h (f := fun r => { r with mayOverlap := false, priority := 0 })
    (fun _ => rfl) (fun _ => rfl) (fun _ _ => rfl) hadd

theorem subregionOrder_addSubregionOverlap {offset priority : ℕ} (h : SubregionOrder s.regions)
    (hadd : memoryRegionAddSubregionOverlap s mr offset sub priority = some s') :
    SubregionOrder s'.regions :=
  subregionOrder_addSubregionCommon_of_pre h
    (f := fun r => { r with mayOverlap := true, priority := priority }) (fun _ => rfl) (fun _ => rfl)
    (fun _ hov => by cases hov) hadd

theorem subregionOrder_setAddress {addr : ℕ} (h : SubregionOrder s.regions)
    (hset : memoryRegionSetAddress s mr addr = some s') : SubregionOrder s'.regions := by
  unfold memoryRegionSetAddress at hset
  split at hset
  · cases hset
  · next region hr =>
    split at hset
    · cases hset
      exact h.modify_keep mr fun _ => ⟨rfl, rfl, rfl, rfl⟩
    · next parent hp =>
      by_cases haddr : addr = region.addr
      · rw [if_pos haddr] at hset
        cases hset
        exact h.modify_keep mr fun _ => ⟨rfl, rfl, rfl, rfl⟩
      · -- moved: deleted and added again inside one transaction
        rw [if_neg haddr] at hset
        obtain ⟨s₁, h₁, hset⟩ := Option.bind_eq_some_iff.1 hset
        have o₁ := subregionOrder_delSubregion (s := s.memoryRegionTransactionBegin) h h₁
        split at hset
        · obtain ⟨s₂, h₂, h₃⟩ := Option.bind_eq_some_iff.1 hset
          rw [regions_of_memoryRegionTransactionCommit h₃]
          exact subregionOrder_addSubregionOverlap o₁ h₂
        · obtain ⟨s₂, h₂, h₃⟩ := Option.bind_eq_some_iff.1 hset
          rw [regions_of_memoryRegionTransactionCommit h₃]
          exact subregionOrder_addSubregion o₁ h₂

end Calls

/-! ## Every call, every run -/

section Run

variable {s s' : MemState}

/-- Each call of the API keeps the invariant: the subregion calls as shown
above, the others change no list, no parent and no priority. -/
theorem subregionOrder_memApi {op : MemOp} (h : SubregionOrder s.regions)
    (hapi : memApi s op = some s') : SubregionOrder s'.regions := by
  cases op with
  | addSubregion mr offset sub => exact subregionOrder_addSubregion h hapi
  | addSubregionOverlap mr offset sub priority => exact subregionOrder_addSubregionOverlap h hapi
  | delSubregion mr sub => exact subregionOrder_delSubregion h hapi
  | setAddress mr addr => exact subregionOrder_setAddress h hapi
  | setEnabled mr enabled =>
    simp only [memApi, memoryRegionSetEnabled] at hapi
    split at hapi
    · contradiction
    · split_ifs at hapi <;> cases hapi
      · exact h
      · simp only [regions_memoryRegionUpdateTopology, regions_modifyRegion]
        exact h.modify_keep mr fun _ => ⟨rfl, rfl, rfl, rfl⟩
  | setAliasOffset mr offset =>
    simp only [memApi, memoryRegionSetAliasOffset] at hapi
    split at hapi
    · contradiction
    · split_ifs at hapi <;> cases hapi
      all_goals
        simp only [regions_memoryRegionUpdateTopology, regions_modifyRegion]
        exact h.modify_keep mr fun _ => ⟨rfl, rfl, rfl, rfl⟩
  | setReadonly mr readonly =>
    simp only [memApi, memoryRegionSetReadonly] at hapi
    split at hapi
    · contradiction
    · split_ifs at hapi <;> cases hapi
      · rw [regions_setFieldAndUpdate]
        exact h.modify_keep mr fun _ => ⟨rfl, rfl, rfl, rfl⟩
      · exact h
  | romDeviceSetReadable mr readable =>
    simp only [memApi, memoryRegionRomDeviceSetReadable] at hapi
    split at hapi
    · contradiction
    · split_ifs at hapi <;> cases hapi
      · rw [regions_setFieldAndUpdate]
        exact h.modify_keep mr fun _ => ⟨rfl, rfl, rfl, rfl⟩
      · exact h
  | setLog mr log client =>
    simp only [memApi, memoryRegionSetLog] at hapi
    split at hapi
    · contradiction
    · cases hapi
      rw [regions_setFieldAndUpdate]
      exact h.modify_keep mr fun _ => ⟨rfl, rfl, rfl, rfl⟩
  | addEventfd mr | delEventfd mr =>
    simp only [memApi, memoryRegionUpdateEventfds] at hapi
    split at hapi
    · contradiction
    · cases hapi
      simpa using h
  | transactionBegin =>
    cases hapi
    exact h
  | transactionCommit => rwa [regions_of_memoryRegionTransactionCommit hapi]
  | setSystemMemoryMap mr | setSystemIoMap mr =>
    cases hapi
    simpa [setSystemMemoryMap, setSystemIoMap] using h

theorem subregionOrder_memStep (h : SubregionOrder s.regions) (op : MemOp) :
    SubregionOrder (memStep s op).1.regions := by
  unfold memStep
  split
  · next s' hapi => exact subregionOrder_memApi h hapi
  · exact h

/-- Along every run of API calls, every container's list stays ordered. -/
theorem subregionOrder_run {regions : List MemoryRegion} (h : SubregionOrder regions)
    (ops : List MemOp) : SubregionOrder (run memStep (memInit regions) ops).regions :=
  run_invariant memStep (fun s => SubregionOrder s.regions) (fun _ op hs => subregionOrder_memStep hs op)
    h ops

end Run

/-! ## Where a new subregion goes, and what a move keeps -/

section Place

variable {s s' : MemState} {mr sub : ℕ}

/-- A new subregion stands after every sibling of greater priority and
before all the others, which have no greater priority: before every
sibling of equal priority. -/
theorem addSubregionCommon_split {offset : ℕ} {r : MemoryRegion} (h : SubregionOrder s.regions)
    (hadd : memoryRegionAddSubregionCommon s mr offset sub = some s') (hr : s.regions[mr]? = some r) :
    ∃ l₁ l₂, r.subregions = l₁ ++ l₂ ∧
      regionField MemoryRegion.subregions [] s'.regions mr = l₁ ++ sub :: l₂ ∧
      (∀ o ∈ l₁, regionField MemoryRegion.priority 0 s'.regions sub <
        regionField MemoryRegion.priority 0 s'.regions o) ∧
      ∀ o ∈ l₂, regionField MemoryRegion.priority 0 s'.regions o ≤
        regionField MemoryRegion.priority 0 s'.regions sub := by
  obtain ⟨subregion, hsub, -, -, hregions⟩ := addSubregionCommon_eq hadd
  have hprio₁ : regionField MemoryRegion.priority 0
      (s.regions.modify sub fun r => { r with parent := some mr, addr := offset }) =
        regionField MemoryRegion.priority 0 s.regions :=
    regionField_modify_of_keep _ _ sub fun _ => rfl
  have hprio : regionField MemoryRegion.priority 0 s'.regions =
      regionField MemoryRegion.priority 0 s.regions := by
    rw [hregions, regionField_modify_of_keep _ _ mr (f := fun r : MemoryRegion => { r with
      subregions := insertSubregion _ sub subregion.priority r.subregions }) fun _ => rfl, hprio₁]
  have hpsub : regionField MemoryRegion.priority 0 s.regions sub = subregion.priority :=
    regionField_of_getElem? _ _ hsub
  -- placing sub first leaves the list of mr as it was
  have hr₁ : ∃ r₁, (s.regions.modify sub fun r => { r with parent := some mr, addr := offset })[mr]? =
      some r₁ ∧ r₁.subregions = r.subregions := by
    by_cases hsm : sub = mr
    · subst hsm
      exact ⟨{ r with parent := some sub, addr := offset }, by rw [List.getElem?_modify_eq, hr]; rfl,
        rfl⟩
    · exact ⟨r, by rw [List.getElem?_modify_ne _ _ hsm, hr], rfl⟩
  obtain ⟨r₁, hr₁, hsubs⟩ := hr₁
  obtain ⟨l₁, l₂, hl, hins, h₁, h₂⟩ := insertSubregion_split
    (s.regions.modify sub fun r => { r with parent := some mr, addr := offset }) sub
    subregion.priority r.subregions
  rw [hprio₁, ← hpsub] at h₁ h₂
  rw [hprio]
  refine ⟨l₁, l₂, hl, ?_, h₁, fun o ho => ?_⟩
  · rw [hregions, regionField_modify_self _ _ hr₁]
    simpa only [hsubs] using hins
  · -- the siblings after sub are sorted, the first of them at most sub
    have hsorted := (h.lists mr r hr).sorted
    rw [hl, List.pairwise_append] at hsorted
    obtain ⟨o₀, rest, rfl⟩ := List.exists_cons_of_ne_nil (List.ne_nil_of_mem ho)
    have h₀ := h₂ o₀ (by simp)
    rcases List.mem_cons.1 ho with rfl | ho
    · exact h₀
    · exact ((List.pairwise_cons.1 hsorted.2.1).1 o ho).trans h₀

theorem addSubregionCommon_placed {offset : ℕ}
    (hadd : memoryRegionAddSubregionCommon s mr offset sub = some s') :
    ∃ subregion, s.regions[sub]? = some subregion ∧
      ∃ l, s'.regions[sub]? = some { subregion with parent := some mr, addr := offset, subregions := l } := by
  obtain ⟨subregion, hsub, -, -, hregions⟩ := addSubregionCommon_eq hadd
  refine ⟨subregion, hsub, ?_⟩
  rw [hregions]
  by_cases hms : mr = sub
  · subst hms
    rw [List.getElem?_modify_eq, List.getElem?_modify_eq, hsub]
    exact ⟨_, rfl⟩
  · rw [List.getElem?_modify_ne _ _ hms, List.getElem?_modify_eq, hsub]
    exact ⟨_, rfl⟩

theorem delSubregion_placed (hdel : memoryRegionDelSubregion s mr sub = some s') :
    ∃ subregion, s.regions[sub]? = some subregion ∧
      ∃ l, s'.regions[sub]? = some { subregion with parent := none, subregions := l } := by
  obtain ⟨subregion, hsub, -, hregions⟩ := delSubregion_eq hdel
  refine ⟨subregion, hsub, ?_⟩
  rw [hregions]
  by_cases hms : mr = sub
  · subst hms
    rw [List.getElem?_modify_eq, List.getElem?_modify_eq, hsub]
    exact ⟨_, rfl⟩
  · rw [List.getElem?_modify_ne _ _ hms, List.getElem?_modify_eq, hsub]
    exact ⟨_, rfl⟩

/-- Adding through `memory_region_add_subregion` or `_overlap`: the
subregion gets the flag and priority the call gives, its parent and
address. -/
theorem addSubregionCommon_placed_of_pre {offset : ℕ} {f : MemoryRegion → MemoryRegion}
    (hadd : memoryRegionAddSubregionCommon (s.modifyRegion sub f) mr offset sub = some s') :
    ∃ r, s.regions[sub]? = some r ∧
      ∃ l, s'.regions[sub]? = some { f r with parent := some mr, addr := offset, subregions := l } := by
  obtain ⟨subregion, hsub, l, h'⟩ := addSubregionCommon_placed hadd
  obtain ⟨r, hr, hfr⟩ := getElem?_modify_some hsub
  rw [if_pos rfl] at hfr
  subst hfr
  exact ⟨r, hr, l, h'⟩

/-- A move of a placed region: deleted from its parent and added back at
the new address, with the flag and priority the add call sets. -/
theorem setAddress_moved {parent addr : ℕ} {r : MemoryRegion} {f : MemoryRegion → MemoryRegion}
    {s₁ s₂ : MemState} (hr : s.regions[mr]? = some r)
    (hdel : memoryRegionDelSubregion s.memoryRegionTransactionBegin parent mr = some s₁)
    (hadd : memoryRegionAddSubregionCommon (s₁.modifyRegion mr f) parent addr mr = some s₂) :
    ∃ l₁ l, s₂.regions[mr]? = some { f { r with parent := none, subregions := l₁ } with
      parent := some parent, addr := addr, subregions := l } := by
  obtain ⟨r₀, hr₀, l₁, hs₁⟩ := delSubregion_placed hdel
  rw [regions_memoryRegionTransactionBegin, hr] at hr₀
  cases hr₀
  obtain ⟨r₁, hr₁, l, hs₂⟩ := addSubregionCommon_placed_of_pre hadd
  rw [hs₁] at hr₁
  cases hr₁
  exact ⟨l₁, l, hs₂⟩

/-- `memory_region_set_address` on a placed region moves it and keeps its
parent, priority and may_overlap. -/
theorem setAddress_keeps {addr : ℕ} {r : MemoryRegion} (h : SubregionOrder s.regions)
    (hset : memoryRegionSetAddress s mr addr = some s') (hr : s.regions[mr]? = some r) :
    ∃ r', s'.regions[mr]? = some r' ∧ r'.addr = addr ∧ r'.parent = r.parent ∧
      r'.priority = r.priority ∧ r'.mayOverlap = r.mayOverlap := by
  have hstore : (s.modifyRegion mr fun r => { r with addr := addr }).regions[mr]? =
      some { r with addr := addr } := by
    rw [regions_modifyRegion, List.getElem?_modify_eq, hr]
    rfl
  unfold memoryRegionSetAddress at hset
  rw [hr] at hset
  dsimp only at hset
  split at hset
  · cases hset
    exact ⟨_, hstore, rfl, rfl, rfl, rfl⟩
  · next parent hp =>
    split_ifs at hset with haddr hov
    · cases hset
      exact ⟨_, hstore, rfl, rfl, rfl, rfl⟩
    · -- re-added by memory_region_add_subregion_overlap at its own priority
      obtain ⟨s₁, h₁, hset⟩ := Option.bind_eq_some_iff.1 hset
      obtain ⟨s₂, h₂, h₃⟩ := Option.bind_eq_some_iff.1 hset
      rw [regions_of_memoryRegionTransactionCommit h₃]
      obtain ⟨l₁, l, hs₂⟩ := setAddress_moved hr h₁ h₂
      exact ⟨_, hs₂, rfl, hp.symm, rfl, hov.symm⟩
    · -- re-added by memory_region_add_subregion at priority 0, which a flat
      -- region has
      obtain ⟨s₁, h₁, hset⟩ := Option.bind_eq_some_iff.1 hset
      obtain ⟨s₂, h₂, h₃⟩ := Option.bind_eq_some_iff.1 hset
      rw [regions_of_memoryRegionTransactionCommit h₃]
      obtain ⟨l₁, l, hs₂⟩ := setAddress_moved hr h₁ h₂
      have hflat : r.mayOverlap = false := by simpa using hov
      exact ⟨_, hs₂, rfl, hp.symm, (h.flat mr r hr hflat).symm, hflat.symm⟩

end Place

/-! ## Ordered lists, overlapping view -/

/-- A root container 0 and two RAM regions of 0x2000 bytes, as
`memory_region_init` leaves them. -/
def prioritySiblings : List MemoryRegion :=
  [⟨0, 2 ^ 64, true, false, true, false, none, 0, [], 0, none, 0, false⟩,
   ⟨0, 0x2000, true, false, true, true, none, 0, [], 0, none, 0, false⟩,
   ⟨0, 0x2000, true, false, true, true, none, 0, [], 0, none, 0, false⟩]

/-- Make 0 the root of system memory, add region 1 at 0x1000 with priority
1, then region 2 at 0x2000 with `memory_region_add_subregion`. -/
def prioritySiblingOps : List MemOp :=
  [.setSystemMemoryMap 0, .addSubregionOverlap 0 0x1000 1 1, .addSubregion 0 0x2000 2]

/-- The list of the root is [1, 2], ordered by priority as everywhere along
every run, but region 2's clip starts inside the range region 1 rendered,
so all of [0x2000, 0x4000) goes to region 2: address 0x2800, which the
walk of the tree gives to region 1, lies in a range of region 2 in the
current map. -/
theorem prioritySiblings_overlap :
    SubregionOrder (run memStep (memInit prioritySiblings) prioritySiblingOps).regions ∧
      regionField MemoryRegion.subregions []
        (run memStep (memInit prioritySiblings) prioritySiblingOps).regions 0 = [1, 2] ∧
      regionField MemoryRegion.priority 0
          (run memStep (memInit prioritySiblings) prioritySiblingOps).regions 2 <
        regionField MemoryRegion.priority 0
          (run memStep (memInit prioritySiblings) prioritySiblingOps).regions 1 ∧
      regionAt (run memStep (memInit prioritySiblings) prioritySiblingOps).regions 3 0 0 false 0x2800 =
        some (1, 0x1800, false) ∧
      ∃ fr ∈ (run memStep (memInit prioritySiblings) prioritySiblingOps).memoryMap,
        fr.mr = 2 ∧ addrrangeContains fr.addr 0x2800 = true :=
  ⟨subregionOrder_run (subregionOrder_of_fresh (by decide)) _, by decide⟩

end QemuKvm.Memory
