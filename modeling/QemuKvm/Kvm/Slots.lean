import QemuKvm.Exec.Dirty
import QemuKvm.Lib.Run

/-!
# KVM memory slots (kvm-all.c)

QEMU mirrors the RAM sections of the guest's address space into the
kernel's memory slots. `s->slots[32]` holds QEMU's copy of each slot (a slot
with `memory_size == 0` is free); `kvm_set_user_memory_region` hands a slot
to the kernel with `KVM_SET_USER_MEMORY_REGION`. The memory listener calls

* `kvm_region_add` / `kvm_region_del` → `kvm_set_phys_mem`, which trims the
  section to whole pages, removes every slot overlapping it (keeping the
  parts of an old slot before and after it as new slots) and registers the
  new slot;
* `kvm_log_start` / `kvm_log_stop` → `kvm_slot_dirty_pages_log_change` on
  the slot matching the section;
* `kvm_log_global_start` / `kvm_log_global_stop` → `kvm_set_migration_log`;
* `kvm_log_sync` → `kvm_physical_sync_dirty_bitmap`, which reads the
  kernel's dirty bitmap of every slot overlapping the section and marks the
  pages in `ram_list.phys_dirty` (`Exec.Dirty`).

The kernel side is `KVMState.kernel`, the last region each slot number was
given. The bitmaps `KVM_GET_DIRTY_LOG` returns are chosen by the
environment: they come with the event. `KVM_SET_USER_MEMORY_REGION` and
`KVM_GET_DIRTY_LOG` succeed; their error paths `abort()`.

Main results:

* `slotsDisjoint_kvmSetPhysMem` — adding or removing a section keeps the
  slots pairwise disjoint, and `run_slotsDisjoint` carries that over every
  run of listener callbacks from `kvm_init`'s empty table;
* `covers_kvmSetPhysMem` — a page-aligned RAM section that is added is
  covered page by page, each page mapped to the section's host memory;
* `kvmSetPhysMem_subpage_size` — the trimming takes its `delta` from the
  section's size instead of its start: a RAM section at 0 of size `0x1800`
  gets no slot, although its first page lies wholly inside it;
* `setMigrationLog_stop_skips` — `kvm_log_global_stop` skips the slots that
  `kvm_log_global_start` switched to logging, so the kernel keeps logging
  them.
-/

namespace QemuKvm.Kvm

open QemuKvm.Exec

/-! ## Data model -/

def KVM_MEM_LOG_DIRTY_PAGES : UInt32 := 1

/-- Bits of the host's `unsigned long`. -/
def HOST_LONG_BITS : ℕ := 64

/-- `ARRAY_SIZE(s->slots)`. -/
def KVM_SLOTS : ℕ := 32

/-- `KVMSlot`; the slot number `slot` is the index in `s->slots`. -/
structure KVMSlot where
  startAddr : ℕ
  memorySize : ℕ
  ram : ℕ
  flags : UInt32
  deriving DecidableEq, Repr

/-- What `KVM_SET_USER_MEMORY_REGION` last gave the kernel for a slot. -/
structure UserMemoryRegion where
  guestPhysAddr : ℕ
  memorySize : ℕ
  userspaceAddr : ℕ
  flags : UInt32
  deriving DecidableEq, Repr

/-- The fields of `KVMState` the memory code uses, and the kernel's table. -/
structure KVMState where
  slots : Fin KVM_SLOTS → KVMSlot
  brokenSetMemRegion : Bool
  migrationLog : Bool
  kernel : Fin KVM_SLOTS → UserMemoryRegion

/-- What the KVM listener reads of a `MemoryRegionSection` and its region:
`memory_region_is_ram`, `memory_region_is_logging`,
`memory_region_get_ram_ptr` and `mr->ram_addr`. -/
structure Section where
  offsetWithinAddressSpace : ℕ
  offsetWithinRegion : ℕ
  size : ℕ
  isRam : Bool
  logging : Bool
  ramPtr : ℕ
  ramAddr : ℕ
  deriving DecidableEq, Repr

/-- The table after `kvm_init`: every slot free. -/
def kvmInit (brokenSetMemRegion : Bool) : KVMState :=
  ⟨fun _ => ⟨0, 0, 0, 0⟩, brokenSetMemRegion, false, fun _ => ⟨0, 0, 0, 0⟩⟩

/-! ## Slot lookup and registration -/

/-- Replace slot `i`. -/
def KVMState.setSlot (s : KVMState) (i : Fin KVM_SLOTS) (mem : KVMSlot) : KVMState :=
  { s with slots := Function.update s.slots i mem }

def kvmSetUserMemoryRegion (s : KVMState) (i : Fin KVM_SLOTS) : KVMState :=
  let mem := s.slots i
  { s with
    kernel := Function.update s.kernel i
      ⟨mem.startAddr, mem.memorySize, mem.ram,
        if s.migrationLog then mem.flags ||| KVM_MEM_LOG_DIRTY_PAGES else mem.flags⟩ }

/-- `kvm_alloc_slot`: the first free slot; `none` is the `abort()`. -/
def kvmAllocSlot (s : KVMState) : Option (Fin KVM_SLOTS) :=
  (List.finRange KVM_SLOTS).find? fun i => (s.slots i).memorySize == 0

def kvmLookupMatchingSlot (s : KVMState) (startAddr endAddr : ℕ) : Option (Fin KVM_SLOTS) :=
  (List.finRange KVM_SLOTS).find? fun i =>
    startAddr == (s.slots i).startAddr &&
      endAddr == (s.slots i).startAddr + (s.slots i).memorySize

/-- The test of `kvm_lookup_overlapping_slot`. -/
def Overlaps (mem : KVMSlot) (startAddr endAddr : ℕ) : Prop :=
  endAddr > mem.startAddr ∧ startAddr < mem.startAddr + mem.memorySize

instance (mem : KVMSlot) (startAddr endAddr : ℕ) : Decidable (Overlaps mem startAddr endAddr) :=
  inferInstanceAs (Decidable (_ ∧ _))

/-- One pass of the loop of `kvm_lookup_overlapping_slot`. -/
def overlappingStep (s : KVMState) (startAddr endAddr : ℕ) (found : Option (Fin KVM_SLOTS))
    (i : Fin KVM_SLOTS) : Option (Fin KVM_SLOTS) :=
  let mem := s.slots i
  if mem.memorySize = 0 ∨ (found.any fun f => decide ((s.slots f).startAddr < mem.startAddr)) then
    found
  else if Overlaps mem startAddr endAddr then some i
  else found

/-- `kvm_lookup_overlapping_slot`: the overlapping slot with the lowest
start address. -/
def kvmLookupOverlappingSlot (s : KVMState) (startAddr endAddr : ℕ) : Option (Fin KVM_SLOTS) :=
  (List.finRange KVM_SLOTS).foldl (overlappingStep s startAddr endAddr) none

/-! ## Dirty logging -/

def kvmMemFlags (logDirty : Bool) : UInt32 :=
  if logDirty then KVM_MEM_LOG_DIRTY_PAGES else 0

def kvmSlotDirtyPagesLogChange (s : KVMState) (i : Fin KVM_SLOTS) (logDirty : Bool) : KVMState :=
  let mem := s.slots i
  let flags := (mem.flags &&& ~~~ KVM_MEM_LOG_DIRTY_PAGES) ||| kvmMemFlags logDirty
  let s' := s.setSlot i { mem with flags := flags }
  -- the test compares the flags with `migration_log` folded in against the
  -- slot's own old flags
  let flags := if s.migrationLog then flags ||| KVM_MEM_LOG_DIRTY_PAGES else flags
  if flags = mem.flags then s' else kvmSetUserMemoryRegion s' i

/-- `kvm_dirty_pages_log_change`; `none` is `-EINVAL`, on which
`kvm_log_start` and `kvm_log_stop` abort. -/
def kvmDirtyPagesLogChange (s : KVMState) (physAddr size : ℕ) (logDirty : Bool) :
    Option KVMState :=
  (kvmLookupMatchingSlot s physAddr (physAddr + size)).map
    fun i => kvmSlotDirtyPagesLogChange s i logDirty

/-- One slot of the loop of `kvm_set_migration_log`. -/
def migrationLogStep (enable : Bool) (s : KVMState) (i : Fin KVM_SLOTS) : KVMState :=
  let mem := s.slots i
  if mem.memorySize = 0 then s
  else if decide (mem.flags &&& KVM_MEM_LOG_DIRTY_PAGES ≠ 0) = enable then s
  else kvmSetUserMemoryRegion s i

def kvmSetMigrationLog (s : KVMState) (enable : Bool) : KVMState :=
  (List.finRange KVM_SLOTS).foldl (migrationLogStep enable) { s with migrationLog := enable }

/-- `memory_region_set_dirty`: every flag of the pages of the range. -/
def memoryRegionSetDirty (ram : RamState) (sec : Section) (addr size : ℕ) : RamState :=
  setDirtyRange ram (sec.ramAddr + addr) size 0xff

/-- `kvm_get_dirty_pages_log_range` with `hpratio` 1: every set bit `j` of
the first `len` longs of the bitmap marks page `j` of the section. -/
def kvmGetDirtyPagesLogRange (ram : RamState) (sec : Section) (bitmap : ℕ → Bool) : RamState :=
  let len := (sec.size / TARGET_PAGE_SIZE + HOST_LONG_BITS - 1) / HOST_LONG_BITS
  (List.range (len * HOST_LONG_BITS)).foldl (fun ram j =>
    if bitmap j then memoryRegionSetDirty ram sec (sec.offsetWithinRegion + j * TARGET_PAGE_SIZE)
      TARGET_PAGE_SIZE
    else ram) ram

/-- The bitmap `KVM_GET_DIRTY_LOG` fills for a slot: the kernel's bits for
the slot's pages, zero after them. -/
def slotBitmap (mem : KVMSlot) (log : ℕ → Bool) (j : ℕ) : Bool :=
  decide (j < mem.memorySize / TARGET_PAGE_SIZE) && log j

/-- The loop of `kvm_physical_sync_dirty_bitmap` from `startAddr`. Each
pass moves `startAddr` past the end of a slot that overlaps the rest of
the section, so `fuel` passes for `fuel` bytes are enough. -/
def syncLoop (s : KVMState) (sec : Section) (log : Fin KVM_SLOTS → ℕ → Bool) :
    ℕ → RamState → ℕ → RamState
  | 0, ram, _ => ram
  | fuel + 1, ram, startAddr =>
    let endAddr := sec.offsetWithinAddressSpace + sec.size
    if startAddr < endAddr then
      match kvmLookupOverlappingSlot s startAddr endAddr with
      | none => ram
      | some i =>
        syncLoop s sec log fuel (kvmGetDirtyPagesLogRange ram sec (slotBitmap (s.slots i) (log i)))
          ((s.slots i).startAddr + (s.slots i).memorySize)
    else ram

def kvmPhysicalSyncDirtyBitmap (s : KVMState) (sec : Section) (log : Fin KVM_SLOTS → ℕ → Bool)
    (ram : RamState) : RamState :=
  syncLoop s sec log sec.size ram sec.offsetWithinAddressSpace

/-! ## `kvm_set_phys_mem` -/

/-- The sub-page trimming at the top of `kvm_set_phys_mem`: `delta`, the
trimmed start and the trimmed size, or `none` for an early return. -/
def trimSection (sec : Section) : Option (ℕ × ℕ × ℕ) :=
  let size := sec.size
  let delta := alignUp TARGET_PAGE_SIZE size - size
  if delta > size then none
  else
    let startAddr := sec.offsetWithinAddressSpace + delta
    let size := alignDown TARGET_PAGE_SIZE (size - delta)
    if size = 0 ∨ startAddr % TARGET_PAGE_SIZE ≠ 0 then none
    else some (delta, startAddr, size)

/-- Register a new slot in the first free entry; `none` is the `abort()`
of `kvm_alloc_slot`. -/
def allocAndRegister (s : KVMState) (mem : KVMSlot) : Option KVMState :=
  (kvmAllocSlot s).map fun i => kvmSetUserMemoryRegion (s.setSlot i mem) i

/-- How one pass of the `while (1)` loop ends. -/
inductive LoopExit where
  /-- `break`: no slot overlaps the rest of the new slot. -/
  | brk (s : KVMState) (ram : RamState) (startAddr hostRam size : ℕ)
  /-- `return` from inside the loop: the new slot fits into an old one. -/
  | ret (s : KVMState) (ram : RamState)
  /-- `abort()`. -/
  | abort

/-- The loop of `kvm_set_phys_mem` over the slots overlapping
`[startAddr, startAddr + size)`, which maps to host memory from `hostRam`.
Every pass that goes on frees the overlapping slot it found. -/
def setPhysMemLoop (sec : Section) (add : Bool) (log : Fin KVM_SLOTS → ℕ → Bool) :
    ℕ → KVMState → RamState → ℕ → ℕ → ℕ → LoopExit
  | 0, _, _, _, _, _ => .abort
  | fuel + 1, s, ram, startAddr, hostRam, size =>
    match kvmLookupOverlappingSlot s startAddr (startAddr + size) with
    | none => .brk s ram startAddr hostRam size
    | some k =>
      let mem := s.slots k
      if add ∧ startAddr ≥ mem.startAddr ∧ startAddr + size ≤ mem.startAddr + mem.memorySize ∧
          (hostRam : ℤ) - startAddr = (mem.ram : ℤ) - mem.startAddr then
        .ret (kvmSlotDirtyPagesLogChange s k sec.logging) ram
      else
        let old := mem
        let ram := if old.flags &&& KVM_MEM_LOG_DIRTY_PAGES ≠ 0 then
          kvmPhysicalSyncDirtyBitmap s sec log ram else ram
        -- unregister the overlapping slot
        let s := kvmSetUserMemoryRegion (s.setSlot k { old with memorySize := 0 }) k
        if s.brokenSetMemRegion ∧ old.startAddr = startAddr ∧ old.memorySize < size ∧ add then
          match allocAndRegister s ⟨old.startAddr, old.memorySize, old.ram,
              kvmMemFlags sec.logging⟩ with
          | none => .abort
          | some s =>
            setPhysMemLoop sec add log fuel s ram (startAddr + old.memorySize)
              (hostRam + old.memorySize) (size - old.memorySize)
        else
          -- the prefix slot, then the suffix slot
          let prefixSlot : Option KVMState :=
            if old.startAddr < startAddr then
              allocAndRegister s ⟨old.startAddr, startAddr - old.startAddr, old.ram,
                kvmMemFlags sec.logging⟩
            else some s
          match prefixSlot with
          | none => .abort
          | some s =>
            let suffixSlot : Option KVMState :=
              if old.startAddr + old.memorySize > startAddr + size then
                let sizeDelta := startAddr + size - old.startAddr
                allocAndRegister s ⟨startAddr + size, old.memorySize - sizeDelta,
                  old.ram + sizeDelta, kvmMemFlags sec.logging⟩
              else some s
            match suffixSlot with
            | none => .abort
            | some s => setPhysMemLoop sec add log fuel s ram startAddr hostRam size

/-- `kvm_set_phys_mem`; `none` is an `abort()`. The loop gets one pass per
slot and one more, enough because each pass that goes on frees a slot that
overlaps the new one and registers none that does. -/
def kvmSetPhysMem (s : KVMState) (ram : RamState) (sec : Section) (add : Bool)
    (log : Fin KVM_SLOTS → ℕ → Bool) : Option (KVMState × RamState) :=
  match trimSection sec with
  | none => some (s, ram)
  | some (delta, startAddr, size) =>
    if ¬ sec.isRam then some (s, ram)
    else
      match setPhysMemLoop sec add log (KVM_SLOTS + 1) s ram startAddr
          (sec.ramPtr + sec.offsetWithinRegion + delta) size with
      | .abort => none
      | .ret s ram => some (s, ram)
      | .brk s ram startAddr hostRam size =>
        if size = 0 ∨ ¬ add then some (s, ram)
        else (allocAndRegister s ⟨startAddr, size, hostRam, kvmMemFlags sec.logging⟩).map
          fun s => (s, ram)

/-! ## Field lemmas -/

section Fields

variable (s : KVMState) (i : Fin KVM_SLOTS)

@[simp] theorem setSlot_slots (mem : KVMSlot) : (s.setSlot i mem).slots = Function.update s.slots i mem :=
  rfl

@[simp] theorem setSlot_brokenSetMemRegion (mem : KVMSlot) :
    (s.setSlot i mem).brokenSetMemRegion = s.brokenSetMemRegion := rfl

@[simp] theorem setSlot_migrationLog (mem : KVMSlot) :
    (s.setSlot i mem).migrationLog = s.migrationLog := rfl

@[simp] theorem kvmSetUserMemoryRegion_slots : (kvmSetUserMemoryRegion s i).slots = s.slots := rfl

@[simp] theorem kvmSetUserMemoryRegion_brokenSetMemRegion :
    (kvmSetUserMemoryRegion s i).brokenSetMemRegion = s.brokenSetMemRegion := rfl

@[simp] theorem kvmSetUserMemoryRegion_migrationLog :
    (kvmSetUserMemoryRegion s i).migrationLog = s.migrationLog := rfl

/-- A change of logging touches the flags of one slot only. -/
theorem kvmSlotDirtyPagesLogChange_slots (logDirty : Bool) :
    (kvmSlotDirtyPagesLogChange s i logDirty).slots = Function.update s.slots i
      { s.slots i with
        flags := (s.slots i).flags &&& ~~~ KVM_MEM_LOG_DIRTY_PAGES ||| kvmMemFlags logDirty } := by
  simp only [kvmSlotDirtyPagesLogChange]
  split <;> split <;> rfl

@[simp] theorem kvmSlotDirtyPagesLogChange_brokenSetMemRegion (logDirty : Bool) :
    (kvmSlotDirtyPagesLogChange s i logDirty).brokenSetMemRegion = s.brokenSetMemRegion := by
  simp only [kvmSlotDirtyPagesLogChange]
  split <;> split <;> rfl

theorem migrationLogStep_cases (enable : Bool) (t : KVMState) (j : Fin KVM_SLOTS) :
    migrationLogStep enable t j = t ∨ migrationLogStep enable t j = kvmSetUserMemoryRegion t j := by
  simp only [migrationLogStep]
  split
  · exact Or.inl rfl
  · split
    · exact Or.inl rfl
    · exact Or.inr rfl

/-- The loop of `kvm_set_migration_log` keeps whatever
`kvm_set_user_memory_region` keeps. -/
theorem foldl_migrationLogStep {β : Type} (f : KVMState → β)
    (hf : ∀ t j, f (kvmSetUserMemoryRegion t j) = f t) (enable : Bool) (l : List (Fin KVM_SLOTS))
    (t : KVMState) : f (l.foldl (migrationLogStep enable) t) = f t := by
  induction l generalizing t with
  | nil => rfl
  | cons j l ih =>
    rw [List.foldl_cons, ih]
    rcases migrationLogStep_cases enable t j with h | h <;> rw [h]
    exact hf t j

/-- `kvm_set_migration_log` only talks to the kernel. -/
@[simp] theorem kvmSetMigrationLog_slots (enable : Bool) :
    (kvmSetMigrationLog s enable).slots = s.slots :=
  foldl_migrationLogStep KVMState.slots (fun _ _ => rfl) enable _ _

@[simp] theorem kvmSetMigrationLog_brokenSetMemRegion (enable : Bool) :
    (kvmSetMigrationLog s enable).brokenSetMemRegion = s.brokenSetMemRegion :=
  foldl_migrationLogStep KVMState.brokenSetMemRegion (fun _ _ => rfl) enable _ _

@[simp] theorem kvmSetMigrationLog_migrationLog (enable : Bool) :
    (kvmSetMigrationLog s enable).migrationLog = enable :=
  foldl_migrationLogStep KVMState.migrationLog (fun _ _ => rfl) enable _ _

end Fields

/-! ## Lookups -/

section Lookup

variable {s : KVMState}

theorem kvmAllocSlot_free {i : Fin KVM_SLOTS} (h : kvmAllocSlot s = some i) :
    (s.slots i).memorySize = 0 := by
  have := List.find?_some h
  simpa using this

/-- What a successful registration of a new slot did: it filled a free
entry and handed it to the kernel. -/
theorem allocAndRegister_spec {mem : KVMSlot} {s' : KVMState} (h : allocAndRegister s mem = some s') :
    ∃ i, (s.slots i).memorySize = 0 ∧ s'.slots = Function.update s.slots i mem ∧
      s'.brokenSetMemRegion = s.brokenSetMemRegion := by
  unfold allocAndRegister at h
  obtain ⟨i, hi, rfl⟩ := Option.map_eq_some_iff.mp h
  exact ⟨i, kvmAllocSlot_free hi, rfl, rfl⟩

/-- The loop of `kvm_lookup_overlapping_slot` only ever holds a used slot
that overlaps the range. -/
theorem overlappingStep_foldl {startAddr endAddr : ℕ} (l : List (Fin KVM_SLOTS))
    {found : Option (Fin KVM_SLOTS)}
    (hfound : ∀ f ∈ found, (s.slots f).memorySize ≠ 0 ∧ Overlaps (s.slots f) startAddr endAddr)
    {k : Fin KVM_SLOTS} (h : l.foldl (overlappingStep s startAddr endAddr) found = some k) :
    (s.slots k).memorySize ≠ 0 ∧ Overlaps (s.slots k) startAddr endAddr := by
  induction l generalizing found with
  | nil => exact hfound k h
  | cons i l ih =>
    apply ih _ h
    intro f hf
    simp only [overlappingStep] at hf
    split at hf
    · exact hfound f hf
    · next hskip =>
      split at hf
      · next hov =>
        obtain rfl := Option.some.inj hf
        exact ⟨fun h0 => hskip (Or.inl h0), hov⟩
      · exact hfound f hf

theorem kvmLookupOverlappingSlot_some {startAddr endAddr : ℕ} {k : Fin KVM_SLOTS}
    (h : kvmLookupOverlappingSlot s startAddr endAddr = some k) :
    (s.slots k).memorySize ≠ 0 ∧ Overlaps (s.slots k) startAddr endAddr :=
  overlappingStep_foldl _ (by simp) h

/-- Nothing found: no used slot overlaps the range. While nothing is found
the skip test never fires, so every slot was tested. -/
theorem kvmLookupOverlappingSlot_none {startAddr endAddr : ℕ}
    (h : kvmLookupOverlappingSlot s startAddr endAddr = none) (i : Fin KVM_SLOTS)
    (hi : (s.slots i).memorySize ≠ 0) : ¬ Overlaps (s.slots i) startAddr endAddr := by
  suffices hl : ∀ (l : List (Fin KVM_SLOTS)) (found : Option (Fin KVM_SLOTS)),
      l.foldl (overlappingStep s startAddr endAddr) found = none →
        found = none ∧ ∀ j ∈ l, (s.slots j).memorySize ≠ 0 → ¬ Overlaps (s.slots j) startAddr endAddr from
    (hl _ none h).2 i (List.mem_finRange i) hi
  intro l
  induction l with
  | nil => intro found h; exact ⟨h, by simp⟩
  | cons j l ih =>
    intro found h
    obtain ⟨hstep, hrest⟩ := ih _ h
    simp only [overlappingStep] at hstep
    split at hstep
    · refine ⟨hstep, ?_⟩
      intro x hx hxs
      rcases List.mem_cons.mp hx with rfl | hx
      · -- `found` is `none`, so the skip came from a free slot
        next hskip =>
        subst hstep
        simp only [Option.any_none, Bool.false_eq_true, or_false] at hskip
        exact absurd hskip hxs
      · exact hrest x hx hxs
    · split at hstep
      · cases hstep
      · next hov =>
        refine ⟨hstep, ?_⟩
        intro x hx hxs
        rcases List.mem_cons.mp hx with rfl | hx
        · exact hov
        · exact hrest x hx hxs

end Lookup

/-! ## Disjoint slots -/

/-- `[a, a + m)` and `[b, b + n)` do not meet. -/
def Apart (a m b n : ℕ) : Prop := a + m ≤ b ∨ b + n ≤ a

/-- The used slots are pairwise disjoint. -/
def SlotsDisjoint (slots : Fin KVM_SLOTS → KVMSlot) : Prop :=
  ∀ i j, i ≠ j → (slots i).memorySize ≠ 0 → (slots j).memorySize ≠ 0 →
    Apart (slots i).startAddr (slots i).memorySize (slots j).startAddr (slots j).memorySize

/-- No used slot meets `[a, a + m)`. -/
def Clear (slots : Fin KVM_SLOTS → KVMSlot) (a m : ℕ) : Prop :=
  ∀ j, (slots j).memorySize ≠ 0 → Apart a m (slots j).startAddr (slots j).memorySize

section Disjoint

variable {slots : Fin KVM_SLOTS → KVMSlot} {s s' : KVMState}

/-- A part of a range is apart from whatever the range is apart from. -/
theorem Apart.of_sub {a m a' m' b n : ℕ} (h : Apart a m b n) (h1 : a ≤ a') (h2 : a' + m' ≤ a + m) :
    Apart a' m' b n := by
  unfold Apart at *
  omega

theorem Clear.mono {a m a' m' : ℕ} (h : Clear slots a m) (h1 : a ≤ a') (h2 : a' + m' ≤ a + m) :
    Clear slots a' m' :=
  fun j hj => (h j hj).of_sub h1 h2

theorem Clear.update {a m : ℕ} (h : Clear slots a m) (i : Fin KVM_SLOTS) {mem : KVMSlot}
    (hmem : mem.memorySize ≠ 0 → Apart a m mem.startAddr mem.memorySize) :
    Clear (Function.update slots i mem) a m := by
  intro j hj
  by_cases hji : j = i
  · subst hji
    rw [Function.update_self] at hj ⊢
    exact hmem hj
  · rw [Function.update_of_ne hji] at hj ⊢
    exact h j hj

/-- A slot that meets no used slot can be put anywhere without breaking
disjointness; so can a free one. -/
theorem SlotsDisjoint.update (h : SlotsDisjoint slots) (i : Fin KVM_SLOTS) {mem : KVMSlot}
    (hc : mem.memorySize ≠ 0 → Clear slots mem.startAddr mem.memorySize) :
    SlotsDisjoint (Function.update slots i mem) := by
  intro a b hab ha hb
  by_cases hai : a = i
  · subst hai
    have hbi : b ≠ a := fun hb' => hab hb'.symm
    rw [Function.update_self] at ha ⊢
    rw [Function.update_of_ne hbi] at hb ⊢
    exact hc ha b hb
  · rw [Function.update_of_ne hai] at ha ⊢
    by_cases hbi : b = i
    · subst hbi
      rw [Function.update_self] at hb ⊢
      exact (hc hb a ha).symm
    · rw [Function.update_of_ne hbi] at hb ⊢
      exact h a b hab ha hb

/-- After the overlapping slot is freed, no used slot meets its old range. -/
theorem SlotsDisjoint.clear_free (h : SlotsDisjoint slots) {k : Fin KVM_SLOTS}
    (hk : (slots k).memorySize ≠ 0) :
    Clear (Function.update slots k { slots k with memorySize := 0 }) (slots k).startAddr
      (slots k).memorySize := by
  intro j hj
  have hjk : j ≠ k := by
    rintro rfl
    simp at hj
  rw [Function.update_of_ne hjk] at hj ⊢
  exact h k j hjk.symm hk hj

theorem clear_of_lookup_none {a m : ℕ} (h : kvmLookupOverlappingSlot s a (a + m) = none) :
    Clear s.slots a m := by
  intro j hj
  have := kvmLookupOverlappingSlot_none h j hj
  unfold Overlaps at this
  unfold Apart
  omega

theorem allocAndRegister_disjoint {mem : KVMSlot} (h : allocAndRegister s mem = some s')
    (hs : SlotsDisjoint s.slots) (hc : Clear s.slots mem.startAddr mem.memorySize) :
    SlotsDisjoint s'.slots := by
  obtain ⟨i, -, hslots, -⟩ := allocAndRegister_spec h
  rw [hslots]
  exact hs.update i fun _ => hc

theorem allocAndRegister_clear {mem : KVMSlot} (h : allocAndRegister s mem = some s') {a m : ℕ}
    (hc : Clear s.slots a m) (hmem : mem.memorySize ≠ 0 → Apart a m mem.startAddr mem.memorySize) :
    Clear s'.slots a m := by
  obtain ⟨i, -, hslots, -⟩ := allocAndRegister_spec h
  rw [hslots]
  exact hc.update i hmem

/-- A change of logging keeps the slots disjoint: it touches flags only. -/
theorem slotsDisjoint_kvmSlotDirtyPagesLogChange (hs : SlotsDisjoint s.slots) (i : Fin KVM_SLOTS)
    (logDirty : Bool) : SlotsDisjoint (kvmSlotDirtyPagesLogChange s i logDirty).slots := by
  rw [kvmSlotDirtyPagesLogChange_slots]
  intro a b hab ha hb
  have hsame : ∀ j, (Function.update s.slots i
      { s.slots i with
        flags := (s.slots i).flags &&& ~~~ KVM_MEM_LOG_DIRTY_PAGES ||| kvmMemFlags logDirty } j).startAddr =
        (s.slots j).startAddr ∧ (Function.update s.slots i
      { s.slots i with
        flags := (s.slots i).flags &&& ~~~ KVM_MEM_LOG_DIRTY_PAGES ||| kvmMemFlags logDirty } j).memorySize =
        (s.slots j).memorySize := by
    intro j
    by_cases hj : j = i
    · subst hj
      simp
    · simp [Function.update_of_ne hj]
  rw [(hsame a).1, (hsame a).2, (hsame b).1, (hsame b).2] at *
  exact hs a b hab ha hb

end Disjoint

/-! ## `kvm_set_phys_mem` keeps the slots disjoint -/

/-- What the loop of `kvm_set_phys_mem` leaves behind: disjoint slots, and
on `break` none of them meets the rest of the new slot. -/
def LoopExit.Disjoint : LoopExit → Prop
  | .brk s _ a _ n => SlotsDisjoint s.slots ∧ Clear s.slots a n
  | .ret s _ => SlotsDisjoint s.slots
  | .abort => True

/-- The loop keeps the slots disjoint. A pass that goes on frees the
overlapping slot `k` and puts back only parts of `k`'s old range that lie
outside the new slot, so each of them meets no other used slot. -/
theorem setPhysMemLoop_disjoint (sec : Section) (add : Bool) (log : Fin KVM_SLOTS → ℕ → Bool)
    (fuel : ℕ) : ∀ s ram a h n, SlotsDisjoint s.slots →
      (setPhysMemLoop sec add log fuel s ram a h n).Disjoint := by
  induction fuel with
  | zero => intros; trivial
  | succ fuel ih =>
    intro s ram a h n hs
    simp only [setPhysMemLoop]
    split
    · next hnone => exact ⟨hs, clear_of_lookup_none hnone⟩
    · next k hk =>
      obtain ⟨hsize, hov⟩ := kvmLookupOverlappingSlot_some hk
      unfold Overlaps at hov
      split
      · -- the new slot fits into `k`: only flags change
        exact slotsDisjoint_kvmSlotDirtyPagesLogChange hs k _
      · have hs1 : SlotsDisjoint (Function.update s.slots k { s.slots k with memorySize := 0 }) :=
          hs.update k fun h0 => absurd rfl h0
        have hc1 := hs.clear_free hsize
        split
        · -- the workaround for old kernels: `k`'s range comes back as it was
          split
          · trivial
          · next s2 hs2 => exact ih _ _ _ _ _ (allocAndRegister_disjoint hs2 hs1 hc1)
        · split
          · trivial
          · next s2 hs2 =>
            -- after the prefix slot nothing meets the part of `k` after the new slot
            have hpre : SlotsDisjoint s2.slots ∧
                (a + n < (s.slots k).startAddr + (s.slots k).memorySize →
                  Clear s2.slots (a + n) ((s.slots k).startAddr + (s.slots k).memorySize - (a + n))) := by
              have hmono : a + n < (s.slots k).startAddr + (s.slots k).memorySize →
                  Clear (Function.update s.slots k { s.slots k with memorySize := 0 }) (a + n)
                    ((s.slots k).startAddr + (s.slots k).memorySize - (a + n)) :=
                fun hlt => hc1.mono (by omega) (by omega)
              split at hs2
              · next hlt =>
                refine ⟨allocAndRegister_disjoint hs2 hs1 (hc1.mono le_rfl
                  (show (s.slots k).startAddr + (a - (s.slots k).startAddr) ≤ _ by omega)),
                  fun hend => allocAndRegister_clear hs2 (hmono hend) fun _ => Or.inr ?_⟩
                show (s.slots k).startAddr + (a - (s.slots k).startAddr) ≤ a + n
                omega
              · cases hs2
                exact ⟨hs1, hmono⟩
            split
            · trivial
            · next s3 hs3 =>
              apply ih
              split at hs3
              · next hend =>
                refine allocAndRegister_disjoint hs3 hpre.1 ((hpre.2 hend).mono ?_ ?_)
                · exact le_rfl
                · show a + n + ((s.slots k).memorySize - (a + n - (s.slots k).startAddr)) ≤
                    a + n + ((s.slots k).startAddr + (s.slots k).memorySize - (a + n))
                  omega
              · cases hs3
                exact hpre.1

/-- `kvm_set_phys_mem`, for adding and for removing a section, keeps the
used slots pairwise disjoint. -/
theorem slotsDisjoint_kvmSetPhysMem {s s' : KVMState} {ram ram' : RamState} {sec : Section}
    {add : Bool} {log : Fin KVM_SLOTS → ℕ → Bool} (hs : SlotsDisjoint s.slots)
    (h : kvmSetPhysMem s ram sec add log = some (s', ram')) : SlotsDisjoint s'.slots := by
  unfold kvmSetPhysMem at h
  split at h
  · cases h
    exact hs
  · next _ delta startAddr size _ =>
    split at h
    · cases h
      exact hs
    · have hloop := setPhysMemLoop_disjoint sec add log (KVM_SLOTS + 1) s ram startAddr
        (sec.ramPtr + sec.offsetWithinRegion + delta) size hs
      split at h
      · cases h
      · next heq =>
        rw [heq] at hloop
        cases h
        exact hloop
      · next heq =>
        rw [heq] at hloop
        split at h
        · cases h
          exact hloop.1
        · obtain ⟨s'', hs'', hpair⟩ := Option.map_eq_some_iff.mp h
          cases hpair
          exact allocAndRegister_disjoint hs'' hloop.1 hloop.2

/-! ## An added page-aligned section is covered -/

/-- The slot holds `[a, a + n)` and maps it to host memory from `h`. -/
def Covers (mem : KVMSlot) (a h n : ℕ) : Prop :=
  mem.startAddr ≤ a ∧ a + n ≤ mem.startAddr + mem.memorySize ∧
    (h : ℤ) - a = (mem.ram : ℤ) - mem.startAddr

/-- What the loop leaves behind for an added slot `[a, a + n)` at `h`, when
the workaround for old kernels is off: either the slot that covers it, or
`break` with the new slot unchanged. -/
def LoopExit.Covers (a h n : ℕ) : LoopExit → Prop
  | .brk _ _ a' h' n' => a' = a ∧ h' = h ∧ n' = n
  | .ret s _ => ∃ i, Kvm.Covers (s.slots i) a h n
  | .abort => True

theorem allocAndRegister_brokenSetMemRegion {s s' : KVMState} {mem : KVMSlot}
    (h : allocAndRegister s mem = some s') : s'.brokenSetMemRegion = s.brokenSetMemRegion := by
  obtain ⟨_, -, -, hb⟩ := allocAndRegister_spec h
  exact hb

theorem setPhysMemLoop_covers (sec : Section) (log : Fin KVM_SLOTS → ℕ → Bool) (fuel : ℕ) :
    ∀ s ram a h n, s.brokenSetMemRegion = false →
      (setPhysMemLoop sec true log fuel s ram a h n).Covers a h n := by
  induction fuel with
  | zero => intros; trivial
  | succ fuel ih =>
    intro s ram a h n hb
    simp only [setPhysMemLoop]
    split
    · exact ⟨rfl, rfl, rfl⟩
    · next k _ =>
      split
      · -- the old slot `k` already maps the new one the same way
        next hfit =>
        refine ⟨k, ?_⟩
        rw [kvmSlotDirtyPagesLogChange_slots, Function.update_self]
        exact ⟨hfit.2.1, hfit.2.2.1, hfit.2.2.2⟩
      · split
        · next hbroken =>
          simp [hb] at hbroken
        · split
          · trivial
          · next s2 hs2 =>
            have hb2 : s2.brokenSetMemRegion = false := by
              split at hs2
              · rw [allocAndRegister_brokenSetMemRegion hs2]
                exact hb
              · cases hs2
                exact hb
            split
            · trivial
            · next s3 hs3 =>
              apply ih
              split at hs3
              · rw [allocAndRegister_brokenSetMemRegion hs3]
                exact hb2
              · cases hs3
                exact hb2

/-- A section of whole pages is not trimmed. -/
theorem trimSection_aligned {sec : Section} (hstart : TARGET_PAGE_SIZE ∣ sec.offsetWithinAddressSpace)
    (hsize : TARGET_PAGE_SIZE ∣ sec.size) (hpos : 0 < sec.size) :
    trimSection sec = some (0, sec.offsetWithinAddressSpace, sec.size) := by
  have hmod : sec.offsetWithinAddressSpace % TARGET_PAGE_SIZE = 0 := Nat.mod_eq_zero_of_dvd hstart
  have hne : sec.size ≠ 0 := Nat.pos_iff_ne_zero.mp hpos
  simp [trimSection, alignUp_of_dvd TARGET_PAGE_SIZE_pos hsize, alignDown_of_dvd hsize, hmod, hne]

/-- Adding a RAM section of whole pages, with the workaround for old kernels
off, leaves one used slot that holds all of it and maps each of its pages to
the section's host memory. -/
theorem covers_kvmSetPhysMem {s s' : KVMState} {ram ram' : RamState} {sec : Section}
    {log : Fin KVM_SLOTS → ℕ → Bool} (hb : s.brokenSetMemRegion = false) (hram : sec.isRam = true)
    (hstart : TARGET_PAGE_SIZE ∣ sec.offsetWithinAddressSpace) (hsize : TARGET_PAGE_SIZE ∣ sec.size)
    (hpos : 0 < sec.size) (h : kvmSetPhysMem s ram sec true log = some (s', ram')) :
    ∃ i, Covers (s'.slots i) sec.offsetWithinAddressSpace (sec.ramPtr + sec.offsetWithinRegion)
      sec.size := by
  rw [kvmSetPhysMem, trimSection_aligned hstart hsize hpos] at h
  simp only [hram, not_true_eq_false, if_false, Nat.add_zero] at h
  have hloop := setPhysMemLoop_covers sec log (KVM_SLOTS + 1) s ram sec.offsetWithinAddressSpace
    (sec.ramPtr + sec.offsetWithinRegion) sec.size hb
  split at h
  · cases h
  · next heq =>
    rw [heq] at hloop
    cases h
    exact hloop
  · next heq =>
    rw [heq] at hloop
    obtain ⟨rfl, rfl, rfl⟩ := hloop
    rw [if_neg (by simp; omega)] at h
    obtain ⟨s'', hs'', hpair⟩ := Option.map_eq_some_iff.mp h
    cases hpair
    obtain ⟨i, -, hslots, -⟩ := allocAndRegister_spec hs''
    refine ⟨i, ?_⟩
    rw [hslots, Function.update_self]
    exact ⟨le_rfl, le_rfl, rfl⟩

/-- The failing input of the trimming: a RAM section at 0 of `0x1800`
bytes. Its first page `[0, 0x1000)` lies wholly inside it, but `delta` is
taken from the size (`0x2000 - 0x1800 = 0x800`), the start moves to the
unaligned `0x800`, and the call returns without registering any slot. -/
theorem kvmSetPhysMem_subpage_size (broken : Bool) (ram : RamState)
    (log : Fin KVM_SLOTS → ℕ → Bool) :
    alignUp TARGET_PAGE_SIZE 0 + TARGET_PAGE_SIZE ≤ alignDown TARGET_PAGE_SIZE (0 + 0x1800) ∧
      ∃ s', kvmSetPhysMem (kvmInit broken) ram ⟨0, 0, 0x1800, true, false, 0, 0⟩ true log =
        some (s', ram) ∧ ∀ i, (s'.slots i).memorySize = 0 := by
  have htrim : trimSection ⟨0, 0, 0x1800, true, false, 0, 0⟩ = none := by decide
  refine ⟨by decide, kvmInit broken, ?_, fun _ => rfl⟩
  rw [kvmSetPhysMem, htrim]

/-! ## Global dirty logging -/

/-- `kvm_set_migration_log` hands slot `i` to the kernel again unless it is
free or its own logging flag already says `enable`. -/
theorem kvmSetMigrationLog_kernel (s : KVMState) (enable : Bool) (i : Fin KVM_SLOTS) :
    (kvmSetMigrationLog s enable).kernel i =
      if (s.slots i).memorySize = 0 ∨
          decide ((s.slots i).flags &&& KVM_MEM_LOG_DIRTY_PAGES ≠ 0) = enable then s.kernel i
      else ⟨(s.slots i).startAddr, (s.slots i).memorySize, (s.slots i).ram,
        if enable then (s.slots i).flags ||| KVM_MEM_LOG_DIRTY_PAGES else (s.slots i).flags⟩ := by
  unfold kvmSetMigrationLog
  -- the loop visits each slot once and only rewrites the kernel entry of the slot it visits
  suffices h : ∀ (l : List (Fin KVM_SLOTS)) (t : KVMState), l.Nodup → t.slots = s.slots →
      t.migrationLog = enable →
      (l.foldl (migrationLogStep enable) t).kernel i =
        if i ∈ l ∧ ¬ ((s.slots i).memorySize = 0 ∨
            decide ((s.slots i).flags &&& KVM_MEM_LOG_DIRTY_PAGES ≠ 0) = enable) then
          ⟨(s.slots i).startAddr, (s.slots i).memorySize, (s.slots i).ram,
            if enable then (s.slots i).flags ||| KVM_MEM_LOG_DIRTY_PAGES else (s.slots i).flags⟩
        else t.kernel i by
    rw [h _ { s with migrationLog := enable } (List.nodup_finRange _) rfl rfl]
    simp only [List.mem_finRange, true_and]
    split <;> split <;> first | rfl | (exfalso; tauto)
  intro l
  induction l with
  | nil => intro t _ _ _; simp
  | cons j l ih =>
    intro t hnd hslots hlog
    rw [List.foldl_cons]
    have hstep_slots : (migrationLogStep enable t j).slots = s.slots := by
      rcases migrationLogStep_cases enable t j with h | h <;> rw [h] <;> exact hslots
    have hstep_log : (migrationLogStep enable t j).migrationLog = enable := by
      rcases migrationLogStep_cases enable t j with h | h <;> rw [h] <;> exact hlog
    rw [ih _ (List.nodup_cons.mp hnd).2 hstep_slots hstep_log]
    by_cases hji : j = i
    · subst hji
      have hnot : j ∉ l := (List.nodup_cons.mp hnd).1
      simp only [hnot, false_and, if_false, List.mem_cons, true_or, true_and]
      simp only [migrationLogStep, hslots]
      split
      · next h0 => simp [h0]
      · next h0 =>
        split
        · next h1 => simp [h1]
        · next h1 =>
          simp only [h0, h1, or_self, not_false_eq_true, if_true, kvmSetUserMemoryRegion, hslots,
            hlog, Function.update_self]
    · have hmem : i ∈ j :: l ↔ i ∈ l := by
        simp only [List.mem_cons, or_iff_right (Ne.symm hji)]
      simp only [hmem]
      have hkern : (migrationLogStep enable t j).kernel i = t.kernel i := by
        simp only [migrationLogStep]
        split
        · rfl
        · split
          · rfl
          · exact Function.update_of_ne (Ne.symm hji) _ _
      rw [hkern]

/-- The flags `kvm_log_global_stop` leaves in the kernel: a used slot whose
region does not log keeps the `KVM_MEM_LOG_DIRTY_PAGES` that
`kvm_log_global_start` gave it, since the stop loop skips exactly the slots
whose own flag is clear. -/
theorem setMigrationLog_stop_skips (s : KVMState) (i : Fin KVM_SLOTS)
    (hused : (s.slots i).memorySize ≠ 0) (hoff : (s.slots i).flags &&& KVM_MEM_LOG_DIRTY_PAGES = 0) :
    (kvmSetMigrationLog (kvmSetMigrationLog s true) false).migrationLog = false ∧
      ((kvmSetMigrationLog (kvmSetMigrationLog s true) false).kernel i).flags &&&
        KVM_MEM_LOG_DIRTY_PAGES ≠ 0 := by
  refine ⟨kvmSetMigrationLog_migrationLog _ false, ?_⟩
  rw [kvmSetMigrationLog_kernel, kvmSetMigrationLog_slots, if_pos (Or.inr (by simp [hoff])),
    kvmSetMigrationLog_kernel, if_neg (by simp [hused, hoff])]
  simp only [if_true, UInt32.or_and_self]
  decide

/-! ## The memory listener -/

/-- One callback of `kvm_memory_listener`, with the bitmaps
`KVM_GET_DIRTY_LOG` returns during it. -/
inductive KvmEvent where
  | regionAdd (sec : Section) (log : Fin KVM_SLOTS → ℕ → Bool)
  | regionDel (sec : Section) (log : Fin KVM_SLOTS → ℕ → Bool)
  | logStart (sec : Section)
  | logStop (sec : Section)
  | logGlobalStart
  | logGlobalStop
  | logSync (sec : Section) (log : Fin KVM_SLOTS → ℕ → Bool)

inductive KvmReply where
  | ok
  /-- The callback called `abort()` (or failed an `assert`). -/
  | abort
  deriving DecidableEq, Repr

/-- QEMU's slot table with the kernel's, and `ram_list`'s dirty flags. -/
structure KvmHost where
  kvm : KVMState
  ram : RamState

/-- Run a callback that may abort: an abort leaves the host as it was. -/
def KvmHost.ofOption (h : KvmHost) : Option KvmHost → KvmHost × KvmReply
  | some h' => (h', .ok)
  | none => (h, .abort)

def kvmStep (h : KvmHost) : KvmEvent → KvmHost × KvmReply
  | .regionAdd sec log =>
    h.ofOption ((kvmSetPhysMem h.kvm h.ram sec true log).map fun r => ⟨r.1, r.2⟩)
  | .regionDel sec log =>
    h.ofOption ((kvmSetPhysMem h.kvm h.ram sec false log).map fun r => ⟨r.1, r.2⟩)
  | .logStart sec =>
    h.ofOption ((kvmDirtyPagesLogChange h.kvm sec.offsetWithinAddressSpace sec.size true).map
      fun s => ⟨s, h.ram⟩)
  | .logStop sec =>
    h.ofOption ((kvmDirtyPagesLogChange h.kvm sec.offsetWithinAddressSpace sec.size false).map
      fun s => ⟨s, h.ram⟩)
  | .logGlobalStart => (⟨kvmSetMigrationLog h.kvm true, h.ram⟩, .ok)
  | .logGlobalStop => (⟨kvmSetMigrationLog h.kvm false, h.ram⟩, .ok)
  | .logSync sec log => (⟨h.kvm, kvmPhysicalSyncDirtyBitmap h.kvm sec log h.ram⟩, .ok)

/-- An invariant of the host that every callback that does not abort keeps,
and that an abort trivially keeps. -/
theorem ofOption_inv (P : KvmHost → Prop) {h : KvmHost} {r : Option KvmHost} (hh : P h)
    (hr : ∀ h', r = some h' → P h') : P (h.ofOption r).1 := by
  cases r with
  | none => exact hh
  | some h' => exact hr h' rfl

/-- Every callback keeps the slots pairwise disjoint. -/
theorem slotsDisjoint_kvmStep {h : KvmHost} (hs : SlotsDisjoint h.kvm.slots) (e : KvmEvent) :
    SlotsDisjoint (kvmStep h e).1.kvm.slots := by
  cases e with
  | regionAdd sec log =>
    rw [kvmStep]
    refine ofOption_inv (fun h => SlotsDisjoint h.kvm.slots) hs fun h' hh' => ?_
    obtain ⟨r, hr, rfl⟩ := Option.map_eq_some_iff.mp hh'
    exact slotsDisjoint_kvmSetPhysMem hs hr
  | regionDel sec log =>
    rw [kvmStep]
    refine ofOption_inv (fun h => SlotsDisjoint h.kvm.slots) hs fun h' hh' => ?_
    obtain ⟨r, hr, rfl⟩ := Option.map_eq_some_iff.mp hh'
    exact slotsDisjoint_kvmSetPhysMem hs hr
  | logStart sec =>
    rw [kvmStep]
    refine ofOption_inv (fun h => SlotsDisjoint h.kvm.slots) hs fun h' hh' => ?_
    obtain ⟨s', hs', rfl⟩ := Option.map_eq_some_iff.mp hh'
    obtain ⟨i, -, rfl⟩ := Option.map_eq_some_iff.mp hs'
    exact slotsDisjoint_kvmSlotDirtyPagesLogChange hs i true
  | logStop sec =>
    rw [kvmStep]
    refine ofOption_inv (fun h => SlotsDisjoint h.kvm.slots) hs fun h' hh' => ?_
    obtain ⟨s', hs', rfl⟩ := Option.map_eq_some_iff.mp hh'
    obtain ⟨i, -, rfl⟩ := Option.map_eq_some_iff.mp hs'
    exact slotsDisjoint_kvmSlotDirtyPagesLogChange hs i false
  | logGlobalStart =>
    show SlotsDisjoint (kvmSetMigrationLog h.kvm true).slots
    rw [kvmSetMigrationLog_slots]
    exact hs
  | logGlobalStop =>
    show SlotsDisjoint (kvmSetMigrationLog h.kvm false).slots
    rw [kvmSetMigrationLog_slots]
    exact hs
  | logSync sec log => exact hs

/-- Over every run of listener callbacks from `kvm_init`'s empty table the
used slots stay pairwise disjoint. -/
theorem run_slotsDisjoint (broken : Bool) (ram : RamState) (es : List KvmEvent) :
    SlotsDisjoint (run kvmStep ⟨kvmInit broken, ram⟩ es).kvm.slots :=
  run_invariant kvmStep (fun h => SlotsDisjoint h.kvm.slots)
    (fun _ e hs => slotsDisjoint_kvmStep hs e) (fun _ _ _ h0 => absurd rfl h0) es

end QemuKvm.Kvm
