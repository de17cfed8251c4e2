import QemuKvm.Memory.FlatView
import QemuKvm.Lib.Run

/-!
# The memory API and its transactions (memory.c)

Every mutator of the memory API changes a field of a region and then calls
`memory_region_update_topology(mr)`, which regenerates the flat view of both
address spaces at once, unless a transaction is open (then it only records
that an update is pending, and only if mr is enabled) or mr is disabled.
`memory_region_transaction_commit` runs the pending update when the
outermost transaction closes.

The state is the region store with the two roots and their current maps,
the transaction depth and the pending flag; each API call is one step. A
failed assertion of the source aborts; here the step answers `abort` and
leaves the state as it was.

Main results:

* `run_mapsCurrent` — whenever no transaction is open, the current maps are
  the flat views of the current tree, along every run whose calls take no
  shortcut: a mutator of a disabled region may skip the update, since
  rendering does not read the fields it changes (`renderMemoryRegion_congr`);
* `setAliasOffset_stale` — but `memory_region_set_alias_offset` also skips
  it for an alias without a parent, and such an alias is still rendered
  when another alias points at it.
-/

namespace QemuKvm.Memory

/-- The globals of memory.c: the region store, `address_space_memory` and
`address_space_io` (root and current map), the transaction depth and the
pending flag. -/
structure MemState where
  regions : List MemoryRegion
  transactionDepth : ℕ
  updatePending : Bool
  memoryRoot : Option ℕ
  ioRoot : Option ℕ
  memoryMap : List FlatRange
  ioMap : List FlatRange

namespace MemState

def modifyRegion (s : MemState) (i : ℕ) (f : MemoryRegion → MemoryRegion) : MemState :=
  { s with regions := s.regions.modify i f }

/-- !mr || mr->enabled, for the region the update is asked for. -/
def touchesEnabled (s : MemState) : Option ℕ → Bool
  | none => true
  | some mr => ((s.regions[mr]?).map MemoryRegion.enabled).getD false

/-- address_space_update_topology for each address space with a root. -/
def updateMaps (s : MemState) : MemState :=
  { s with
    memoryMap := match s.memoryRoot with
      | some root => generateMemoryTopology s.regions root
      | none => s.memoryMap
    ioMap := match s.ioRoot with
      | some root => generateMemoryTopology s.regions root
      | none => s.ioMap }

def memoryRegionUpdateTopology (s : MemState) (mr : Option ℕ) : MemState :=
  if s.transactionDepth ≠ 0 then { s with updatePending := s.updatePending || s.touchesEnabled mr }
  else if !s.touchesEnabled mr then s
  else { s.updateMaps with updatePending := false }

def memoryRegionTransactionBegin (s : MemState) : MemState :=
  { s with transactionDepth := s.transactionDepth + 1 }

def memoryRegionTransactionCommit (s : MemState) : Option MemState :=
  if s.transactionDepth = 0 then none
  else
    let s := { s with transactionDepth := s.transactionDepth - 1 }
    some (if s.transactionDepth = 0 ∧ s.updatePending = true then s.memoryRegionUpdateTopology none
      else s)

end MemState

open MemState

/-! ## Mutators -/

/-- The subregion list with sub inserted before the first region of no
greater priority, or at the tail. -/
def insertSubregion (regions : List MemoryRegion) (sub priority : ℕ) : List ℕ → List ℕ
  | [] => [sub]
  | other :: others =>
    if priority ≥ ((regions[other]?).map MemoryRegion.priority).getD 0 then sub :: other :: others
    else other :: insertSubregion regions sub priority others

/-- `memory_region_add_subregion_common`. Its collision check only prints
under #if 0 and is left out. -/
def memoryRegionAddSubregionCommon (s : MemState) (mr offset sub : ℕ) : Option MemState :=
  match s.regions[sub]? with
  | none => none
  | some subregion =>
    if subregion.parent.isSome ∨ s.regions.length ≤ mr then none
    else
      let s := s.modifyRegion sub fun r => { r with parent := some mr, addr := offset }
      let s := s.modifyRegion mr fun r =>
        { r with subregions := insertSubregion s.regions sub subregion.priority r.subregions }
      some (s.memoryRegionUpdateTopology (some mr))

def memoryRegionAddSubregion (s : MemState) (mr offset sub : ℕ) : Option MemState :=
  memoryRegionAddSubregionCommon (s.modifyRegion sub fun r => { r with mayOverlap := false, priority := 0 })
    mr offset sub

def memoryRegionAddSubregionOverlap (s : MemState) (mr offset sub priority : ℕ) : Option MemState :=
  memoryRegionAddSubregionCommon
    (s.modifyRegion sub fun r => { r with mayOverlap := true, priority := priority }) mr offset sub

def memoryRegionDelSubregion (s : MemState) (mr sub : ℕ) : Option MemState :=
  match s.regions[sub]? with
  | none => none
  | some subregion =>
    if subregion.parent ≠ some mr then none
    else
      let s := s.modifyRegion sub fun r => { r with parent := none }
      let s := s.modifyRegion mr fun r => { r with subregions := r.subregions.erase sub }
      some (s.memoryRegionUpdateTopology (some mr))

def memoryRegionSetEnabled (s : MemState) (mr : ℕ) (enabled : Bool) : Option MemState :=
  match s.regions[mr]? with
  | none => none
  | some region =>
    if enabled = region.enabled then some s
    else some ((s.modifyRegion mr fun r => { r with enabled := enabled }).memoryRegionUpdateTopology none)

/-- `memory_region_set_address`: the source tests addr == mr->addr || !parent
and then only stores the address; otherwise it moves the region inside its
parent by a delete and an add in one transaction. -/
def memoryRegionSetAddress (s : MemState) (mr addr : ℕ) : Option MemState :=
  match s.regions[mr]? with
  | none => none
  | some region =>
    match region.parent with
    | none => some (s.modifyRegion mr fun r => { r with addr := addr })
    | some parent =>
      if addr = region.addr then some (s.modifyRegion mr fun r => { r with addr := addr })
      else do
        let s ← memoryRegionDelSubregion s.memoryRegionTransactionBegin parent mr
        let s ← if region.mayOverlap then memoryRegionAddSubregionOverlap s parent addr mr region.priority
          else memoryRegionAddSubregion s parent addr mr
        s.memoryRegionTransactionCommit

def memoryRegionSetAliasOffset (s : MemState) (mr offset : ℕ) : Option MemState :=
  match s.regions[mr]? with
  | none => none
  | some region =>
    if region.aliasTarget.isNone then none
    else
      let s' := s.modifyRegion mr fun r => { r with aliasOffset := offset }
      if offset = region.aliasOffset ∨ region.parent.isNone then some s'
      else some (s'.memoryRegionUpdateTopology (some mr))

/-- The mutators that change one field of mr and then update for mr. -/
def setFieldAndUpdate (s : MemState) (mr : ℕ) (f : MemoryRegion → MemoryRegion) : MemState :=
  (s.modifyRegion mr f).memoryRegionUpdateTopology (some mr)

def memoryRegionSetReadonly (s : MemState) (mr : ℕ) (readonly : Bool) : Option MemState :=
  match s.regions[mr]? with
  | none => none
  | some region =>
    if region.readonly ≠ readonly then some (setFieldAndUpdate s mr fun r => { r with readonly := readonly })
    else some s

def memoryRegionRomDeviceSetReadable (s : MemState) (mr : ℕ) (readable : Bool) : Option MemState :=
  match s.regions[mr]? with
  | none => none
  | some region =>
    if region.readable ≠ readable then some (setFieldAndUpdate s mr fun r => { r with readable := readable })
    else some s

/-- `memory_region_set_log`: client is one bit of the dirty-log mask. -/
def memoryRegionSetLog (s : MemState) (mr : ℕ) (log : Bool) (client : ℕ) : Option MemState :=
  match s.regions[mr]? with
  | none => none
  | some _ =>
    let mask : UInt8 := UInt8.ofNat (2 ^ client)
    some (setFieldAndUpdate s mr fun r =>
      { r with dirtyLogMask := (r.dirtyLogMask &&& ~~~mask) ||| (if log then mask else 0) })

/-- `memory_region_add_eventfd` and `memory_region_del_eventfd` change the
region's ioeventfd list, which the flat view does not hold, and update. -/
def memoryRegionUpdateEventfds (s : MemState) (mr : ℕ) : Option MemState :=
  match s.regions[mr]? with
  | none => none
  | some _ => some (s.memoryRegionUpdateTopology (some mr))

def setSystemMemoryMap (s : MemState) (mr : ℕ) : MemState :=
  { s with memoryRoot := some mr }.memoryRegionUpdateTopology none

def setSystemIoMap (s : MemState) (mr : ℕ) : MemState :=
  { s with ioRoot := some mr }.memoryRegionUpdateTopology none

/-! ## The API as a machine -/

inductive MemOp
  | addSubregion (mr offset sub : ℕ)
  | addSubregionOverlap (mr offset sub priority : ℕ)
  | delSubregion (mr sub : ℕ)
  | setEnabled (mr : ℕ) (enabled : Bool)
  | setAddress (mr addr : ℕ)
  | setAliasOffset (mr offset : ℕ)
  | setReadonly (mr : ℕ) (readonly : Bool)
  | romDeviceSetReadable (mr : ℕ) (readable : Bool)
  | setLog (mr : ℕ) (log : Bool) (client : ℕ)
  | addEventfd (mr : ℕ)
  | delEventfd (mr : ℕ)
  | transactionBegin
  | transactionCommit
  | setSystemMemoryMap (mr : ℕ)
  | setSystemIoMap (mr : ℕ)

inductive MemReply
  | ok
  | abort
  deriving DecidableEq, Repr

def memApi (s : MemState) : MemOp → Option MemState
  | .addSubregion mr offset sub => memoryRegionAddSubregion s mr offset sub
  | .addSubregionOverlap mr offset sub priority => memoryRegionAddSubregionOverlap s mr offset sub priority
  | .delSubregion mr sub => memoryRegionDelSubregion s mr sub
  | .setEnabled mr enabled => memoryRegionSetEnabled s mr enabled
  | .setAddress mr addr => memoryRegionSetAddress s mr addr
  | .setAliasOffset mr offset => memoryRegionSetAliasOffset s mr offset
  | .setReadonly mr readonly => memoryRegionSetReadonly s mr readonly
  | .romDeviceSetReadable mr readable => memoryRegionRomDeviceSetReadable s mr readable
  | .setLog mr log client => memoryRegionSetLog s mr log client
  | .addEventfd mr => memoryRegionUpdateEventfds s mr
  | .delEventfd mr => memoryRegionUpdateEventfds s mr
  | .transactionBegin => some s.memoryRegionTransactionBegin
  | .transactionCommit => s.memoryRegionTransactionCommit
  | .setSystemMemoryMap mr => some (setSystemMemoryMap s mr)
  | .setSystemIoMap mr => some (setSystemIoMap s mr)

def memStep (s : MemState) (op : MemOp) : MemState × MemReply :=
  match memApi s op with
  | some s' => (s', .ok)
  | none => (s, .abort)

/-- The regions as created, before any of them is placed in a tree. -/
def memInit (regions : List MemoryRegion) : MemState :=
  ⟨regions, 0, false, none, none, [], []⟩

/-! ## Current maps -/

/-- The current map of an address space is the flat view of its root. -/
def MapCurrent (regions : List MemoryRegion) : Option ℕ → List FlatRange → Prop
  | none, _ => True
  | some root, map => map = generateMemoryTopology regions root

instance (regions : List MemoryRegion) (root : Option ℕ) (map : List FlatRange) :
    Decidable (MapCurrent regions root map) :=
  match root with
  | none => isTrue trivial
  | some _ => inferInstanceAs (Decidable (_ = _))

def MapsCurrent (s : MemState) : Prop :=
  MapCurrent s.regions s.memoryRoot s.memoryMap ∧ MapCurrent s.regions s.ioRoot s.ioMap

instance (s : MemState) : Decidable (MapsCurrent s) := inferInstanceAs (Decidable (_ ∧ _))

/-- What the transactions keep: no update is pending outside a transaction,
and unless one is pending the maps are current. -/
def Tracked (s : MemState) : Prop :=
  (s.transactionDepth = 0 → s.updatePending = false) ∧ (s.updatePending = true ∨ MapsCurrent s)

/-! ## Keeping track of the maps -/

namespace MemState

theorem mapCurrent_congr {regions regions' : List MemoryRegion} (h : RenderEquiv regions regions')
    (root : Option ℕ) (map : List FlatRange) :
    MapCurrent regions root map ↔ MapCurrent regions' root map := by
  cases root with
  | none => exact Iff.rfl
  | some root => simp only [MapCurrent, generateMemoryTopology_congr h]

theorem mapsCurrent_updateMaps (s : MemState) : MapsCurrent s.updateMaps := by
  constructor
  · cases h : s.memoryRoot <;> simp [MapCurrent, updateMaps, h]
  · cases h : s.ioRoot <;> simp [MapCurrent, updateMaps, h]

theorem touchesEnabled_modifyRegion (s : MemState) (i : ℕ) {f : MemoryRegion → MemoryRegion}
    (hf : ∀ r, (f r).enabled = r.enabled) (mr : Option ℕ) :
    (s.modifyRegion i f).touchesEnabled mr = s.touchesEnabled mr := by
  cases mr with
  | none => rfl
  | some j =>
    simp only [touchesEnabled, modifyRegion, List.getElem?_modify]
    cases s.regions[j]? with
    | none => rfl
    | some r =>
      simp only [Option.map_eq_map, Option.map_some, Option.getD_some]
      split <;> simp [hf]

theorem touchesEnabled_update (s : MemState) (mr x : Option ℕ) :
    (s.memoryRegionUpdateTopology mr).touchesEnabled x = s.touchesEnabled x := by
  unfold memoryRegionUpdateTopology
  split_ifs <;> rfl

theorem enabled_of_touchesEnabled {s : MemState} {i : ℕ} {r : MemoryRegion}
    (h : s.touchesEnabled (some i) = false) (hr : s.regions[i]? = some r) : r.enabled = false := by
  simpa [touchesEnabled, hr] using h

/-- An update never loses track: inside a transaction it can only add to
the pending flag; outside, it regenerates the maps or, for a disabled
region, leaves current maps as they are. -/
theorem tracked_update {s : MemState} (h : Tracked s) (mr : Option ℕ) :
    Tracked (s.memoryRegionUpdateTopology mr) := by
  obtain ⟨hdepth, hcur⟩ := h
  unfold memoryRegionUpdateTopology
  split_ifs with hd
  · refine ⟨fun h0 => absurd h0 hd, ?_⟩
    rcases hcur with hp | hc
    · exact Or.inl (by simp [hp])
    · exact Or.inr hc
  · exact ⟨hdepth, hcur⟩
  · exact ⟨fun _ => rfl, Or.inr (mapsCurrent_updateMaps s)⟩

/-- An update for an enabled region (or for none) is never skipped, so it
tracks any change to the tree. -/
theorem tracked_update_of_touches {s : MemState} {mr : Option ℕ} (h : s.touchesEnabled mr = true) :
    Tracked (s.memoryRegionUpdateTopology mr) := by
  unfold memoryRegionUpdateTopology
  split_ifs with hd htouch
  · exact ⟨fun h0 => absurd h0 hd, Or.inl (by simp [h])⟩
  · simp [h] at htouch
  · exact ⟨fun _ => rfl, Or.inr (mapsCurrent_updateMaps s)⟩

theorem tracked_of_equiv {s : MemState} (h : Tracked s) {regions' : List MemoryRegion}
    (hreg : RenderEquiv s.regions regions') : Tracked { s with regions := regions' } := by
  obtain ⟨hdepth, hcur⟩ := h
  refine ⟨hdepth, hcur.imp_right fun hc => ⟨?_, ?_⟩⟩
  · exact (mapCurrent_congr hreg _ _).1 hc.1
  · exact (mapCurrent_congr hreg _ _).1 hc.2

/-- A change to a region that rendering cannot see needs no update. -/
theorem tracked_modifyRegion {s : MemState} (h : Tracked s) {i : ℕ} {f : MemoryRegion → MemoryRegion}
    (hf : ∀ r, s.regions[i]? = some r → SameRender r (f r)) : Tracked (s.modifyRegion i f) :=
  tracked_of_equiv h (renderEquiv_modify s.regions i f hf)

theorem tracked_transactionBegin {s : MemState} (h : Tracked s) :
    Tracked s.memoryRegionTransactionBegin :=
  ⟨fun h0 => absurd h0 (Nat.succ_ne_zero _), h.2⟩

/-- Closing the outermost transaction runs the update that is pending. -/
theorem tracked_transactionCommit {s s' : MemState} (h : Tracked s)
    (hc : s.memoryRegionTransactionCommit = some s') : Tracked s' := by
  simp only [memoryRegionTransactionCommit] at hc
  split_ifs at hc with h0 hlast
  · cases hc
    exact tracked_update_of_touches rfl
  · cases hc
    obtain ⟨hdepth, hcur⟩ := h
    refine ⟨fun hz => ?_, hcur⟩
    cases hp : s.updatePending
    · rfl
    · exact absurd ⟨hz, hp⟩ hlast

end MemState

open MemState

/-- The field mutators: a change to an enabled region is tracked by its
update, and one to a disabled region is invisible. -/
theorem tracked_setFieldAndUpdate {s : MemState} (h : Tracked s) (mr : ℕ)
    {f : MemoryRegion → MemoryRegion} (hf : ∀ r, (f r).addr = r.addr ∧ (f r).enabled = r.enabled) :
    Tracked (setFieldAndUpdate s mr f) := by
  unfold setFieldAndUpdate
  cases ht : s.touchesEnabled (some mr) with
  | true =>
    exact tracked_update_of_touches (by rw [touchesEnabled_modifyRegion _ _ (fun r => (hf r).2)]; exact ht)
  | false =>
    exact tracked_update (tracked_modifyRegion h fun r hr =>
      sameRender_of_disabled (enabled_of_touchesEnabled ht hr) (hf r).1.symm (hf r).2.symm) _

theorem tracked_addSubregionCommon {s s' : MemState} {mr offset sub : ℕ}
    (hen : s.touchesEnabled (some mr) = true)
    (hadd : memoryRegionAddSubregionCommon s mr offset sub = some s') : Tracked s' := by
  simp only [memoryRegionAddSubregionCommon] at hadd
  split at hadd
  · contradiction
  · split_ifs at hadd
    cases hadd
    apply tracked_update_of_touches
    rw [touchesEnabled_modifyRegion, touchesEnabled_modifyRegion]
    · exact hen
    all_goals exact fun _ => rfl

theorem tracked_addSubregion {s s' : MemState} {mr offset sub : ℕ}
    (hen : s.touchesEnabled (some mr) = true)
    (hadd : memoryRegionAddSubregion s mr offset sub = some s') : Tracked s' :=
  tracked_addSubregionCommon (by rw [touchesEnabled_modifyRegion]; exacts [hen, fun _ => rfl]) hadd

theorem tracked_addSubregionOverlap {s s' : MemState} {mr offset sub priority : ℕ}
    (hen : s.touchesEnabled (some mr) = true)
    (hadd : memoryRegionAddSubregionOverlap s mr offset sub priority = some s') : Tracked s' :=
  tracked_addSubregionCommon (by rw [touchesEnabled_modifyRegion]; exacts [hen, fun _ => rfl]) hadd

theorem touchesEnabled_delSubregion {s s' : MemState} {mr sub : ℕ}
    (hdel : memoryRegionDelSubregion s mr sub = some s') (x : Option ℕ) :
    s'.touchesEnabled x = s.touchesEnabled x := by
  simp only [memoryRegionDelSubregion] at hdel
  split at hdel
  · contradiction
  · split_ifs at hdel
    cases hdel
    rw [touchesEnabled_update, touchesEnabled_modifyRegion, touchesEnabled_modifyRegion]
    all_goals exact fun _ => rfl

/-- Deleting a subregion of a disabled container needs no update: the
container's subregion list is not rendered, and no region's parent is. -/
theorem tracked_delSubregion {s s' : MemState} (h : Tracked s) {mr sub : ℕ}
    (hdel : memoryRegionDelSubregion s mr sub = some s') : Tracked s' := by
  simp only [memoryRegionDelSubregion] at hdel
  split at hdel
  · contradiction
  · split_ifs at hdel
    cases hdel
    cases ht : s.touchesEnabled (some mr) with
    | true =>
      apply tracked_update_of_touches
      rw [touchesEnabled_modifyRegion, touchesEnabled_modifyRegion]
      · exact ht
      all_goals exact fun _ => rfl
    | false =>
      have ht' : (s.modifyRegion sub fun r => { r with parent := none }).touchesEnabled (some mr) = false := by
        rw [touchesEnabled_modifyRegion]
        exacts [ht, fun _ => rfl]
      refine tracked_update (tracked_modifyRegion (tracked_modifyRegion h fun r _ => ?_) fun r hr => ?_) _
      · exact ⟨rfl, rfl, fun _ => ⟨rfl, rfl, rfl, rfl, rfl, rfl, rfl, rfl⟩⟩
      · exact sameRender_of_disabled (enabled_of_touchesEnabled ht' hr) rfl rfl

/-! ## Shortcuts -/

/-- The calls that take none of the shortcuts past an update that the tree
can see: adding into a disabled container (the subregion's new address may
be rendered elsewhere), and changing the address or alias offset of a
region without a parent. -/
def opSafe (s : MemState) : MemOp → Bool
  | .addSubregion mr _ _ | .addSubregionOverlap mr _ _ _ => s.touchesEnabled (some mr)
  | .setAddress mr addr =>
    match s.regions[mr]? with
    | some region =>
      addr == region.addr ||
        match region.parent with
        | some parent => s.touchesEnabled (some parent)
        | none => false
    | none => true
  | .setAliasOffset mr offset =>
    match s.regions[mr]? with
    | some region => offset == region.aliasOffset || region.parent.isSome
    | none => true
  | _ => true

/-- Storing the address a region already has changes nothing rendering sees. -/
theorem tracked_setSameAddress {s : MemState} (h : Tracked s) {mr addr : ℕ} {region : MemoryRegion}
    (hr : s.regions[mr]? = some region) (haddr : addr = region.addr) :
    Tracked (s.modifyRegion mr fun r => { r with addr := addr }) :=
  tracked_modifyRegion h fun r hr' => by
    obtain rfl := Option.some.inj (hr.symm.trans hr')
    exact ⟨haddr.symm, rfl, fun _ => ⟨rfl, rfl, rfl, rfl, rfl, rfl, rfl, rfl⟩⟩

theorem tracked_setAddress {s s' : MemState} (h : Tracked s) {mr addr : ℕ}
    (hsafe : opSafe s (.setAddress mr addr) = true)
    (hset : memoryRegionSetAddress s mr addr = some s') : Tracked s' := by
  simp only [memoryRegionSetAddress] at hset
  split at hset
  · contradiction
  next region hr =>
  simp only [opSafe, hr, Bool.or_eq_true, beq_iff_eq] at hsafe
  split at hset
  · -- no parent: the address is only stored, which the shortcut allows only if it stays
    next hp =>
    simp only [hp, Bool.false_eq_true, or_false] at hsafe
    cases hset
    exact tracked_setSameAddress h hr hsafe
  · next parent hp =>
    by_cases haddr : addr = region.addr
    · rw [if_pos haddr] at hset
      cases hset
      exact tracked_setSameAddress h hr haddr
    · -- moved inside its enabled parent within a transaction
      rw [if_neg haddr] at hset
      simp only [hp, haddr, false_or] at hsafe
      obtain ⟨s1, h1, hset⟩ := Option.bind_eq_some_iff.1 hset
      have e1 : s1.touchesEnabled (some parent) = true := by
        rw [touchesEnabled_delSubregion h1]
        exact hsafe
      split at hset
      · obtain ⟨s2, h2, h3⟩ := Option.bind_eq_some_iff.1 hset
        exact tracked_transactionCommit (tracked_addSubregionOverlap e1 h2) h3
      · obtain ⟨s2, h2, h3⟩ := Option.bind_eq_some_iff.1 hset
        exact tracked_transactionCommit (tracked_addSubregion e1 h2) h3

theorem tracked_setAliasOffset {s s' : MemState} (h : Tracked s) {mr offset : ℕ}
    (hsafe : opSafe s (.setAliasOffset mr offset) = true)
    (hset : memoryRegionSetAliasOffset s mr offset = some s') : Tracked s' := by
  simp only [memoryRegionSetAliasOffset] at hset
  split at hset
  · contradiction
  next region hr =>
  simp only [opSafe, hr, Bool.or_eq_true, beq_iff_eq] at hsafe
  split_ifs at hset with halias hshort
  · -- the shortcut, which is safe only when the offset stays
    cases hset
    have hoff : offset = region.aliasOffset := by
      rcases hshort with h1 | h1
      · exact h1
      · simpa [Option.isNone_iff_eq_none.1 h1] using hsafe
    refine tracked_modifyRegion h fun r hr' => ?_
    obtain rfl := Option.some.inj (hr.symm.trans hr')
    exact ⟨rfl, rfl, fun _ => ⟨rfl, rfl, rfl, rfl, rfl, hoff.symm, rfl, rfl⟩⟩
  · cases hset
    exact tracked_setFieldAndUpdate h mr fun _ => ⟨rfl, rfl⟩

/-- One API call that takes no shortcut keeps the maps tracked. -/
theorem tracked_memApi {s s' : MemState} (h : Tracked s) {op : MemOp} (hsafe : opSafe s op = true)
    (hapi : memApi s op = some s') : Tracked s' := by
  cases op with
  | addSubregion mr offset sub => exact tracked_addSubregion hsafe hapi
  | addSubregionOverlap mr offset sub priority => exact tracked_addSubregionOverlap hsafe hapi
  | delSubregion mr sub => exact tracked_delSubregion h hapi
  | setEnabled mr enabled =>
    simp only [memApi, memoryRegionSetEnabled] at hapi
    split at hapi
    · contradiction
    · split_ifs at hapi <;> cases hapi
      · exact h
      · exact tracked_update_of_touches rfl
  | setAddress mr addr => exact tracked_setAddress h hsafe hapi
  | setAliasOffset mr offset => exact tracked_setAliasOffset h hsafe hapi
  | setReadonly mr readonly =>
    simp only [memApi, memoryRegionSetReadonly] at hapi
    split at hapi
    · contradiction
    · split_ifs at hapi <;> cases hapi
      · exact tracked_setFieldAndUpdate h mr fun _ => ⟨rfl, rfl⟩
      · exact h
  | romDeviceSetReadable mr readable =>
    simp only [memApi, memoryRegionRomDeviceSetReadable] at hapi
    split at hapi
    · contradiction
    · split_ifs at hapi <;> cases hapi
      · exact tracked_setFieldAndUpdate h mr fun _ => ⟨rfl, rfl⟩
      · exact h
  | setLog mr log client =>
    simp only [memApi, memoryRegionSetLog] at hapi
    split at hapi
    · contradiction
    · cases hapi
      exact tracked_setFieldAndUpdate h mr fun _ => ⟨rfl, rfl⟩
  | addEventfd mr | delEventfd mr =>
    simp only [memApi, memoryRegionUpdateEventfds] at hapi
    split at hapi
    · contradiction
    · cases hapi
      exact tracked_update h _
  | transactionBegin =>
    cases hapi
    exact tracked_transactionBegin h
  | transactionCommit => exact tracked_transactionCommit h hapi
  | setSystemMemoryMap mr | setSystemIoMap mr =>
    cases hapi
    exact tracked_update_of_touches rfl

theorem tracked_memStep {s : MemState} (h : Tracked s) {op : MemOp} (hsafe : opSafe s op = true) :
    Tracked (memStep s op).1 := by
  unfold memStep
  split
  · next s' hapi => exact tracked_memApi h hsafe hapi
  · exact h

theorem tracked_memInit (regions : List MemoryRegion) : Tracked (memInit regions) :=
  ⟨fun _ => rfl, Or.inr ⟨trivial, trivial⟩⟩

/-- No topology change is lost: along every run of API calls from the
regions as created that takes no shortcut, whenever no transaction is
open the current maps are the flat views of the current tree. -/
theorem run_mapsCurrent (regions : List MemoryRegion) (ops : List MemOp)
    (hops : Guarded memStep (fun s op => opSafe s op = true) (memInit regions) ops)
    (hdepth : (run memStep (memInit regions) ops).transactionDepth = 0) :
    MapsCurrent (run memStep (memInit regions) ops) := by
  have h := run_invariant_guarded memStep Tracked (fun s op => opSafe s op = true)
    (fun _ _ hsafe hs => tracked_memStep hs hsafe) (tracked_memInit regions) ops hops
  have hpending := h.1 hdepth
  exact h.2.resolve_left (by simp [hpending])

/-! ## An alias without a parent -/

/-- A root container 0 holding alias 1, a window onto alias 2, which has
no parent and is a window onto RAM region 3. -/
def aliasChain : List MemoryRegion :=
  [⟨0, 2 ^ 64, true, false, true, false, none, 0, [], 0, none, 0, false⟩,
   ⟨0, 0x1000, true, false, true, false, some 2, 0, [], 0, none, 0, false⟩,
   ⟨0, 0x2000, true, false, true, false, some 3, 0, [], 0, none, 0, false⟩,
   ⟨0, 0x2000, true, false, true, true, none, 0, [], 0, none, 0, false⟩]

theorem run_mapsCurrent_aliasChain :
    Guarded memStep (fun s op => opSafe s op = true) (memInit aliasChain)
        [.setSystemMemoryMap 0, .addSubregion 0 0 1, .setAliasOffset 1 0x800] ∧
      (run memStep (memInit aliasChain)
        [.setSystemMemoryMap 0, .addSubregion 0 0 1, .setAliasOffset 1 0x800]).transactionDepth = 0 ∧
      MapsCurrent (run memStep (memInit aliasChain)
        [.setSystemMemoryMap 0, .addSubregion 0 0 1, .setAliasOffset 1 0x800]) :=
  ⟨by decide, rfl, run_mapsCurrent aliasChain _ (by decide) rfl⟩

/-- After the root is set and alias 1 is placed in it, changing the offset
of alias 2 changes what address 0 shows (RAM offset 0x1000 instead of 0),
but alias 2 has no parent, so the call returns before any update, outside
any transaction: the current map stays the old one. -/
theorem setAliasOffset_stale :
    outputs memStep (memInit aliasChain)
        [.setSystemMemoryMap 0, .addSubregion 0 0 1, .setAliasOffset 2 0x1000] = [.ok, .ok, .ok] ∧
      MapsCurrent (run memStep (memInit aliasChain) [.setSystemMemoryMap 0, .addSubregion 0 0 1]) ∧
      (run memStep (memInit aliasChain)
        [.setSystemMemoryMap 0, .addSubregion 0 0 1, .setAliasOffset 2 0x1000]).transactionDepth = 0 ∧
      ¬ MapsCurrent (run memStep (memInit aliasChain)
        [.setSystemMemoryMap 0, .addSubregion 0 0 1, .setAliasOffset 2 0x1000]) := by
  decide

end QemuKvm.Memory
