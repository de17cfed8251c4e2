import QemuKvm.Lib.Align
import QemuKvm.Lib.Bits

/-!
# Dirty pages and the RAM write paths (exec-obsolete.h, exec.c)

`ram_list.phys_dirty` holds one byte of flags per RAM page, one bit per
client of the dirty log (VGA, code, migration); `ram_list.dirty_pages`
counts the pages whose migration bit is set. Every path that writes guest
RAM outside the TLB has to set the flags of the pages it wrote, and the
paths here do it with the same block of code,

    if (!cpu_physical_memory_is_dirty(addr1)) {
        tb_invalidate_phys_page_range(addr1, addr1 + l, 0);
        cpu_physical_memory_set_dirty_flags(addr1, (0xff & ~CODE_DIRTY_FLAG));
    }

modelled once as `dirtyAfterWrite`. `cpu_physical_memory_rw` runs it once
per page it writes; `cpu_physical_memory_unmap` runs it once per step of
`TARGET_PAGE_SIZE` bytes from the start of the buffer, which need not be a
page start, and so marks the page of each step's first byte only.

The ranges handed to `tb_invalidate_phys_page_range` are returned, in
order, as the second component: the translated-code side consumes them.

Main results:

* `migDirty_dirtyAfterWrite` — the block marks the page of `addr1`;
* `marksWrites_cpuPhysicalMemoryWrite` — `cpu_physical_memory_rw` marks
  the page of every byte it changes;
* `dmaWrite_unmarked_page` — a DMA write of four bytes at ram address
  `0xffe`, unmapped with `access_len` 4, changes a byte of page 1 and leaves
  page 1's flags as they were.
-/

namespace QemuKvm.Exec

/-! ## Pages and flags -/

def TARGET_PAGE_BITS : ℕ := 12

def TARGET_PAGE_SIZE : ℕ := 2 ^ TARGET_PAGE_BITS

def VGA_DIRTY_FLAG : UInt8 := 0x01

def CODE_DIRTY_FLAG : UInt8 := 0x02

def MIGRATION_DIRTY_FLAG : UInt8 := 0x08

theorem TARGET_PAGE_SIZE_pos : 0 < TARGET_PAGE_SIZE := Nat.two_pow_pos _

/-- Guest RAM by `ram_addr_t`, and `ram_list`'s dirty bookkeeping. -/
structure RamState where
  mem : ℕ → UInt8
  physDirty : ℕ → UInt8
  dirtyPages : UInt64

/-- The flags of the page of `addr` (`phys_dirty[addr >> TARGET_PAGE_BITS]`). -/
def getDirtyFlags (s : RamState) (addr : ℕ) : UInt8 :=
  s.physDirty (addr / TARGET_PAGE_SIZE)

/-- Every client's bit is set. -/
def isDirty (s : RamState) (addr : ℕ) : Bool :=
  getDirtyFlags s addr == 0xff

/-- The OR, over the pages meeting `[start, start + length)`, of their
flags masked by `dirtyFlags`. -/
def getDirty (s : RamState) (start length : ℕ) (dirtyFlags : UInt8) : UInt8 :=
  (pageStarts TARGET_PAGE_SIZE start length).foldl
    (fun ret addr => ret ||| (getDirtyFlags s addr &&& dirtyFlags)) 0

def setDirtyFlags (s : RamState) (addr : ℕ) (dirtyFlags : UInt8) : RamState :=
  { s with
    dirtyPages :=
      if dirtyFlags &&& MIGRATION_DIRTY_FLAG ≠ 0 ∧
          getDirty s addr TARGET_PAGE_SIZE MIGRATION_DIRTY_FLAG = 0 then s.dirtyPages + 1
      else s.dirtyPages
    physDirty := Function.update s.physDirty (addr / TARGET_PAGE_SIZE)
      (getDirtyFlags s addr ||| dirtyFlags) }

def clearDirtyFlags (s : RamState) (addr : ℕ) (dirtyFlags : UInt8) : RamState :=
  { s with
    dirtyPages :=
      if dirtyFlags &&& MIGRATION_DIRTY_FLAG ≠ 0 ∧
          getDirty s addr TARGET_PAGE_SIZE MIGRATION_DIRTY_FLAG ≠ 0 then s.dirtyPages - 1
      else s.dirtyPages
    physDirty := Function.update s.physDirty (addr / TARGET_PAGE_SIZE)
      (getDirtyFlags s addr &&& ~~~ dirtyFlags) }

def setDirtyRange (s : RamState) (start length : ℕ) (dirtyFlags : UInt8) : RamState :=
  (pageStarts TARGET_PAGE_SIZE start length).foldl (fun s addr => setDirtyFlags s addr dirtyFlags) s

def maskDirtyRange (s : RamState) (start length : ℕ) (dirtyFlags : UInt8) : RamState :=
  (pageStarts TARGET_PAGE_SIZE start length).foldl
    (fun s addr => clearDirtyFlags s addr dirtyFlags) s

/-- `cpu_physical_memory_reset_dirty` without its TLB part
(`tlb_reset_dirty_range_all`, which re-arms the softmmu TLB). -/
def resetDirty (s : RamState) (start end_ : ℕ) (dirtyFlags : UInt8) : RamState :=
  let start := alignDown TARGET_PAGE_SIZE start
  let end_ := alignUp TARGET_PAGE_SIZE end_
  if end_ - start = 0 then s else maskDirtyRange s start (end_ - start) dirtyFlags

/-- The page of `page` (a page number) has its migration bit set. -/
def migDirty (s : RamState) (page : ℕ) : Prop :=
  s.physDirty page &&& MIGRATION_DIRTY_FLAG ≠ 0

instance (s : RamState) (page : ℕ) : Decidable (migDirty s page) :=
  inferInstanceAs (Decidable (_ ≠ _))

/-! ## The write paths -/

/-- `buf` written at `addr`. -/
def writeBytes (mem : ℕ → UInt8) (addr : ℕ) (buf : List UInt8) : ℕ → UInt8 :=
  fun a => if addr ≤ a ∧ a < addr + buf.length then buf.getD (a - addr) 0 else mem a

/-- The block every RAM write path runs after writing `[addr1, addr1 + l)`. -/
def dirtyAfterWrite (s : RamState) (addr1 l : ℕ) : RamState × List (ℕ × ℕ) :=
  if !isDirty s addr1 then
    (setDirtyFlags s addr1 (0xff &&& ~~~ CODE_DIRTY_FLAG), [(addr1, addr1 + l)])
  else (s, [])

/-- What `phys_page_find` finds for a page: RAM, with the `ram_addr_t` of
the page's first byte and the section's read-only flag, or an I/O region,
with the offset of the page's first byte inside it. -/
inductive PhysPage where
  | ram (ramAddr : ℕ) (readonly : Bool)
  | io (regionAddr : ℕ)
deriving DecidableEq, Repr

/-- The width of an I/O access of at most `l` bytes at `addr1`. -/
def ioWidth (addr1 l : ℕ) : ℕ :=
  if l ≥ 4 ∧ addr1 % 4 = 0 then 4
  else if l ≥ 2 ∧ addr1 % 2 = 0 then 2
  else 1

/-- One pass of the write loop of `cpu_physical_memory_rw`: the number of
bytes it consumes, and its effect. The I/O write itself goes to a device and
leaves RAM alone. -/
def rwWriteStep (phys : ℕ → PhysPage) (s : RamState) (addr : ℕ) (buf : List UInt8) :
    ℕ × RamState × List (ℕ × ℕ) :=
  let page := alignDown TARGET_PAGE_SIZE addr
  let l := min (page + TARGET_PAGE_SIZE - addr) buf.length
  match phys (page / TARGET_PAGE_SIZE) with
  | .io regionAddr => (ioWidth (regionAddr + (addr - page)) l, s, [])
  | .ram ramAddr readonly =>
    if readonly then (l, s, [])
    else
      let addr1 := ramAddr + (addr - page)
      let r := dirtyAfterWrite { s with mem := writeBytes s.mem addr1 (buf.take l) } addr1 l
      (l, r.1, r.2)

/-- The write loop of `cpu_physical_memory_rw`; every pass consumes at
least one byte, so `buf.length` passes are enough. -/
def rwWriteLoop (phys : ℕ → PhysPage) : ℕ → RamState → ℕ → List UInt8 → RamState × List (ℕ × ℕ)
  | 0, s, _, _ => (s, [])
  | fuel + 1, s, addr, buf =>
    if buf.length = 0 then (s, [])
    else
      let r := rwWriteStep phys s addr buf
      let r' := rwWriteLoop phys fuel r.2.1 (addr + r.1) (buf.drop r.1)
      (r'.1, r.2.2 ++ r'.2)

/-- `cpu_physical_memory_write` (`cpu_physical_memory_rw` with `is_write`). -/
def cpuPhysicalMemoryWrite (phys : ℕ → PhysPage) (s : RamState) (addr : ℕ) (buf : List UInt8) :
    RamState × List (ℕ × ℕ) :=
  rwWriteLoop phys buf.length s addr buf

/-- The write-back loop of `cpu_physical_memory_unmap` over a buffer that
was mapped directly (not the bounce buffer), from its `ram_addr_t` `addr1`.
Every pass consumes at least one byte. -/
def unmapLoop : ℕ → RamState → ℕ → ℕ → RamState × List (ℕ × ℕ)
  | 0, s, _, _ => (s, [])
  | fuel + 1, s, addr1, accessLen =>
    if accessLen = 0 then (s, [])
    else
      let l := min TARGET_PAGE_SIZE accessLen
      let r := dirtyAfterWrite s addr1 l
      let r' := unmapLoop fuel r.1 (addr1 + l) (accessLen - l)
      (r'.1, r.2 ++ r'.2)

/-- `cpu_physical_memory_unmap(buffer, len, 1, access_len)` for a buffer
mapped from RAM at `addr1`. -/
def cpuPhysicalMemoryUnmap (s : RamState) (addr1 accessLen : ℕ) : RamState × List (ℕ × ℕ) :=
  unmapLoop accessLen s addr1 accessLen

/-- A device's DMA write through `cpu_physical_memory_map`: the device fills
the mapped buffer at `addr1`, then unmaps it with `access_len` the bytes it
wrote. -/
def dmaWrite (s : RamState) (addr1 : ℕ) (buf : List UInt8) : RamState × List (ℕ × ℕ) :=
  cpuPhysicalMemoryUnmap { s with mem := writeBytes s.mem addr1 buf } addr1 buf.length

/-! ## Flags -/

attribute [simp] getDirtyFlags

@[simp] theorem setDirtyFlags_mem (s : RamState) (addr : ℕ) (f : UInt8) :
    (setDirtyFlags s addr f).mem = s.mem := rfl

@[simp] theorem clearDirtyFlags_mem (s : RamState) (addr : ℕ) (f : UInt8) :
    (clearDirtyFlags s addr f).mem = s.mem := rfl

theorem setDirtyFlags_physDirty (s : RamState) (addr : ℕ) (f : UInt8) (page : ℕ) :
    (setDirtyFlags s addr f).physDirty page =
      if page = addr / TARGET_PAGE_SIZE then s.physDirty page ||| f else s.physDirty page := by
  simp only [setDirtyFlags, Function.update_apply, getDirtyFlags]
  split <;> simp_all

theorem clearDirtyFlags_physDirty (s : RamState) (addr : ℕ) (f : UInt8) (page : ℕ) :
    (clearDirtyFlags s addr f).physDirty page =
      if page = addr / TARGET_PAGE_SIZE then s.physDirty page &&& ~~~ f
      else s.physDirty page := by
  simp only [clearDirtyFlags, Function.update_apply, getDirtyFlags]
  split <;> simp_all

/-- Setting flags never clears the migration bit of a page. -/
theorem migDirty_setDirtyFlags {s : RamState} {page : ℕ} (h : migDirty s page) (addr : ℕ)
    (f : UInt8) : migDirty (setDirtyFlags s addr f) page := by
  unfold migDirty
  rw [setDirtyFlags_physDirty]
  split
  · exact UInt8.or_and_ne_zero_left f h
  · exact h

/-- Clearing flags leaves every other page alone. -/
theorem clearDirtyFlags_physDirty_of_ne (s : RamState) {addr page : ℕ} (f : UInt8)
    (h : page ≠ addr / TARGET_PAGE_SIZE) :
    (clearDirtyFlags s addr f).physDirty page = s.physDirty page := by
  rw [clearDirtyFlags_physDirty, if_neg h]

@[simp] theorem setDirtyRange_mem (s : RamState) (start length : ℕ) (f : UInt8) :
    (setDirtyRange s start length f).mem = s.mem := by
  unfold setDirtyRange
  induction pageStarts TARGET_PAGE_SIZE start length generalizing s with
  | nil => rfl
  | cons a as ih => exact (ih _).trans (setDirtyFlags_mem s a f)

/-- A range set keeps every migration bit and sets those of the pages of its
start addresses. -/
theorem migDirty_setDirtyRange {s : RamState} {start length : ℕ} {f : UInt8}
    (hf : f &&& MIGRATION_DIRTY_FLAG ≠ 0) (page : ℕ) :
    migDirty (setDirtyRange s start length f) page ↔
      migDirty s page ∨ ∃ a ∈ pageStarts TARGET_PAGE_SIZE start length,
        page = a / TARGET_PAGE_SIZE := by
  unfold setDirtyRange
  induction pageStarts TARGET_PAGE_SIZE start length generalizing s with
  | nil => simp
  | cons a as ih =>
    rw [List.foldl_cons, ih]
    unfold migDirty
    rw [setDirtyFlags_physDirty]
    split
    · next hpage =>
      have hset := UInt8.or_and_ne_zero_right (s.physDirty page) hf
      simp only [hset, ne_eq, not_false_eq_true, true_or, List.mem_cons, true_iff]
      exact Or.inr ⟨a, Or.inl rfl, hpage⟩
    · next hpage =>
      simp only [List.mem_cons, exists_eq_or_imp, hpage, false_or]

@[simp] theorem maskDirtyRange_mem (s : RamState) (start length : ℕ) (f : UInt8) :
    (maskDirtyRange s start length f).mem = s.mem := by
  unfold maskDirtyRange
  induction pageStarts TARGET_PAGE_SIZE start length generalizing s with
  | nil => rfl
  | cons a as ih => exact (ih _).trans (clearDirtyFlags_mem s a f)

/-- A masked range clears the migration bit of the pages of its start
addresses and keeps every other page's flags. -/
theorem maskDirtyRange_physDirty (s : RamState) (start length : ℕ) (f : UInt8) (page : ℕ) :
    (maskDirtyRange s start length f).physDirty page =
      if ∃ a ∈ pageStarts TARGET_PAGE_SIZE start length, page = a / TARGET_PAGE_SIZE then
        s.physDirty page &&& ~~~ f
      else s.physDirty page := by
  unfold maskDirtyRange
  induction pageStarts TARGET_PAGE_SIZE start length generalizing s with
  | nil => simp
  | cons a as ih =>
    rw [List.foldl_cons, ih, clearDirtyFlags_physDirty]
    by_cases hpage : page = a / TARGET_PAGE_SIZE
    · simp only [hpage, if_true, List.mem_cons, exists_eq_or_imp, true_or]
      split <;> simp [UInt8.and_assoc]
    · simp only [hpage, if_false, List.mem_cons, exists_eq_or_imp, false_or]

/-- `memory_region_get_dirty` on one aligned page reads that page's flags. -/
theorem getDirty_page (s : RamState) {a : ℕ} (ha : TARGET_PAGE_SIZE ∣ a) (f : UInt8) :
    getDirty s a TARGET_PAGE_SIZE f = s.physDirty (a / TARGET_PAGE_SIZE) &&& f := by
  simp [getDirty, pageStarts_page TARGET_PAGE_SIZE_pos ha]

@[simp] theorem resetDirty_mem (s : RamState) (start end_ : ℕ) (f : UInt8) :
    (resetDirty s start end_ f).mem = s.mem := by
  simp only [resetDirty]
  split <;> simp

/-- Resetting one aligned page clears its flags `f` and no other page's. -/
theorem resetDirty_page_physDirty (s : RamState) {a : ℕ} (ha : TARGET_PAGE_SIZE ∣ a) (f : UInt8)
    (q : ℕ) :
    (resetDirty s a (a + TARGET_PAGE_SIZE) f).physDirty q =
      if q = a / TARGET_PAGE_SIZE then s.physDirty q &&& ~~~ f else s.physDirty q := by
  have hup : alignUp TARGET_PAGE_SIZE (a + TARGET_PAGE_SIZE) = a + TARGET_PAGE_SIZE :=
    alignUp_of_dvd TARGET_PAGE_SIZE_pos (Nat.dvd_add ha (Nat.dvd_refl _))
  simp only [resetDirty, alignDown_of_dvd ha, hup, Nat.add_sub_cancel_left]
  rw [if_neg TARGET_PAGE_SIZE_pos.ne', maskDirtyRange_physDirty,
    pageStarts_page TARGET_PAGE_SIZE_pos ha]
  simp

/-- After the migration scan resets an aligned page, that page is clean and
every other page keeps its migration bit. -/
theorem migDirty_resetDirty_page (s : RamState) {a : ℕ} (ha : TARGET_PAGE_SIZE ∣ a) (q : ℕ) :
    migDirty (resetDirty s a (a + TARGET_PAGE_SIZE) MIGRATION_DIRTY_FLAG) q ↔
      q ≠ a / TARGET_PAGE_SIZE ∧ migDirty s q := by
  unfold migDirty
  rw [resetDirty_page_physDirty s ha]
  split
  · next hq => simp [hq]
  · next hq => simp [hq]

/-! ## The block after a write -/

@[simp] theorem dirtyAfterWrite_mem (s : RamState) (addr1 l : ℕ) :
    (dirtyAfterWrite s addr1 l).1.mem = s.mem := by
  unfold dirtyAfterWrite
  split <;> rfl

/-- The page of `addr1` ends up dirty for migration, whichever branch runs. -/
theorem migDirty_dirtyAfterWrite (s : RamState) (addr1 l : ℕ) :
    migDirty (dirtyAfterWrite s addr1 l).1 (addr1 / TARGET_PAGE_SIZE) := by
  unfold dirtyAfterWrite migDirty
  split
  · rw [setDirtyFlags_physDirty, if_pos rfl]
    exact UInt8.or_and_ne_zero_right _ (by decide)
  · next hdirty =>
    -- the page is fully dirty already: all eight bits are set
    have hff : s.physDirty (addr1 / TARGET_PAGE_SIZE) = 0xff := by
      simpa [isDirty] using hdirty
    rw [hff]
    decide

/-- Only the page of `addr1` changes its flags, and no migration bit is
cleared. -/
theorem migDirty_dirtyAfterWrite_of_migDirty {s : RamState} {page : ℕ} (h : migDirty s page)
    (addr1 l : ℕ) : migDirty (dirtyAfterWrite s addr1 l).1 page := by
  unfold dirtyAfterWrite
  split
  · exact migDirty_setDirtyFlags h _ _
  · exact h

theorem dirtyAfterWrite_physDirty_of_ne (s : RamState) {addr1 page : ℕ} (l : ℕ)
    (h : page ≠ addr1 / TARGET_PAGE_SIZE) :
    (dirtyAfterWrite s addr1 l).1.physDirty page = s.physDirty page := by
  unfold dirtyAfterWrite
  split
  · rw [setDirtyFlags_physDirty, if_neg h]
  · rfl

/-! ## Marking what was written -/

/-- From `s` to `s'`, every byte that changed lies on a page whose migration
bit is set in `s'`: the migration scan will send it again. -/
def MarksWrites (s s' : RamState) : Prop :=
  ∀ x, s'.mem x ≠ s.mem x → migDirty s' (x / TARGET_PAGE_SIZE)

/-- Nothing written, only flags set: trivially marked. -/
theorem marksWrites_of_mem_eq {s s' : RamState} (h : s'.mem = s.mem) : MarksWrites s s' :=
  fun x hx => absurd (congrFun h x) hx

/-- Marked writes compose when the second leg clears no migration bit. -/
theorem MarksWrites.trans {s₁ s₂ s₃ : RamState} (h₁ : MarksWrites s₁ s₂) (h₂ : MarksWrites s₂ s₃)
    (hmono : ∀ page, migDirty s₂ page → migDirty s₃ page) : MarksWrites s₁ s₃ := by
  intro x hx
  by_cases hx₂ : s₃.mem x = s₂.mem x
  · rw [hx₂] at hx
    exact hmono _ (h₁ x hx)
  · exact h₂ x hx₂

/-- A write inside one page followed by the block after a write, on that page. -/
theorem marksWrites_write_dirtyAfterWrite (s : RamState) {addr1 : ℕ} {buf : List UInt8}
    (hpage : addr1 % TARGET_PAGE_SIZE + buf.length ≤ TARGET_PAGE_SIZE) (l : ℕ) :
    MarksWrites s (dirtyAfterWrite { s with mem := writeBytes s.mem addr1 buf } addr1 l).1 := by
  intro x hx
  simp only [dirtyAfterWrite_mem, writeBytes] at hx
  split at hx
  · next hin =>
    -- a written byte is on the page of `addr1`
    have hsame : x / TARGET_PAGE_SIZE = addr1 / TARGET_PAGE_SIZE := by
      have h1 := Nat.div_add_mod addr1 TARGET_PAGE_SIZE
      have h2 : x = TARGET_PAGE_SIZE * (addr1 / TARGET_PAGE_SIZE) + (addr1 % TARGET_PAGE_SIZE +
          (x - addr1)) := by omega
      have h3 : (addr1 % TARGET_PAGE_SIZE + (x - addr1)) / TARGET_PAGE_SIZE = 0 :=
        Nat.div_eq_of_lt (by omega)
      rw [h2, Nat.mul_add_div TARGET_PAGE_SIZE_pos, h3, Nat.add_zero]
    rw [hsame]
    exact migDirty_dirtyAfterWrite _ _ _
  · exact absurd rfl hx

/-- RAM pages start on page boundaries of `ram_addr_t`. -/
def RamAligned (phys : ℕ → PhysPage) : Prop :=
  ∀ p ramAddr readonly, phys p = .ram ramAddr readonly → TARGET_PAGE_SIZE ∣ ramAddr

theorem rwWriteStep_pos (phys : ℕ → PhysPage) (s : RamState) (addr : ℕ) {buf : List UInt8}
    (hbuf : buf.length ≠ 0) : 0 < (rwWriteStep phys s addr buf).1 := by
  have hlt := lt_alignDown_add TARGET_PAGE_SIZE_pos addr
  simp only [rwWriteStep]
  split
  · simp only [ioWidth]
    split <;> (try split) <;> omega
  · split <;> simp only <;> omega

theorem marksWrites_rwWriteStep {phys : ℕ → PhysPage} (hphys : RamAligned phys) (s : RamState)
    (addr : ℕ) (buf : List UInt8) : MarksWrites s (rwWriteStep phys s addr buf).2.1 := by
  have hlt := lt_alignDown_add TARGET_PAGE_SIZE_pos addr
  have hle := alignDown_le TARGET_PAGE_SIZE addr
  simp only [rwWriteStep]
  split
  · exact marksWrites_of_mem_eq rfl
  · next ramAddr readonly hpage =>
    split
    · exact marksWrites_of_mem_eq rfl
    · apply marksWrites_write_dirtyAfterWrite
      obtain ⟨k, hk⟩ := hphys _ _ _ hpage
      have hmod : (ramAddr + (addr - alignDown TARGET_PAGE_SIZE addr)) % TARGET_PAGE_SIZE =
          addr - alignDown TARGET_PAGE_SIZE addr := by
        rw [hk, Nat.mul_add_mod, Nat.mod_eq_of_lt (by omega)]
      rw [hmod, List.length_take]
      omega

theorem migDirty_rwWriteStep {phys : ℕ → PhysPage} {s : RamState} {page : ℕ}
    (h : migDirty s page) (addr : ℕ) (buf : List UInt8) :
    migDirty (rwWriteStep phys s addr buf).2.1 page := by
  simp only [rwWriteStep]
  split
  · exact h
  · split
    · exact h
    · apply migDirty_dirtyAfterWrite_of_migDirty
      exact h

theorem migDirty_rwWriteLoop {phys : ℕ → PhysPage} (fuel : ℕ) {s : RamState} {page : ℕ}
    (h : migDirty s page) (addr : ℕ) (buf : List UInt8) :
    migDirty (rwWriteLoop phys fuel s addr buf).1 page := by
  induction fuel generalizing s addr buf with
  | zero => exact h
  | succ fuel ih =>
    simp only [rwWriteLoop]
    split
    · exact h
    · exact ih (migDirty_rwWriteStep h addr buf) _ _

/-- `cpu_physical_memory_rw` marks the page of every byte it changes: the
loop walks the buffer page by page and runs the block after a write on the
page it just wrote. -/
theorem marksWrites_cpuPhysicalMemoryWrite {phys : ℕ → PhysPage} (hphys : RamAligned phys)
    (s : RamState) (addr : ℕ) (buf : List UInt8) :
    MarksWrites s (cpuPhysicalMemoryWrite phys s addr buf).1 := by
  unfold cpuPhysicalMemoryWrite
  -- induction on the passes of the loop, each one marked by `marksWrites_rwWriteStep`
  suffices h : ∀ fuel s addr, MarksWrites s (rwWriteLoop phys fuel s addr buf).1 from h _ _ _
  intro fuel
  induction fuel generalizing buf with
  | zero => intro s addr; exact marksWrites_of_mem_eq rfl
  | succ fuel ih =>
    intro s addr
    simp only [rwWriteLoop]
    split
    · exact marksWrites_of_mem_eq rfl
    · exact (marksWrites_rwWriteStep hphys s addr buf).trans (ih _ _ _)
        fun _ hp => migDirty_rwWriteLoop fuel hp _ _

theorem rwWriteLoop_nil (phys : ℕ → PhysPage) (fuel : ℕ) (s : RamState) (addr : ℕ) :
    rwWriteLoop phys fuel s addr [] = (s, []) := by
  cases fuel <;> rfl

/-- A write that stays inside one writable RAM page is one pass of the loop:
the bytes land at the page's `ram_addr_t`, then the block after a write
runs on them. -/
theorem cpuPhysicalMemoryWrite_ram {phys : ℕ → PhysPage} (s : RamState) {addr ramAddr : ℕ}
    {buf : List UInt8} (hphys : phys (addr / TARGET_PAGE_SIZE) = .ram ramAddr false)
    (hbuf : buf ≠ []) (hpage : addr % TARGET_PAGE_SIZE + buf.length ≤ TARGET_PAGE_SIZE) :
    (cpuPhysicalMemoryWrite phys s addr buf).1 =
      (dirtyAfterWrite { s with mem := writeBytes s.mem (ramAddr + addr % TARGET_PAGE_SIZE) buf }
        (ramAddr + addr % TARGET_PAGE_SIZE) buf.length).1 := by
  obtain ⟨n, hn⟩ := Nat.exists_eq_succ_of_ne_zero (List.length_pos_iff.2 hbuf).ne'
  have hsplit := Nat.div_add_mod addr TARGET_PAGE_SIZE
  have hdown : alignDown TARGET_PAGE_SIZE addr = addr - addr % TARGET_PAGE_SIZE := by
    unfold alignDown
    rw [Nat.mul_comm]
    omega
  have hsub : addr - alignDown TARGET_PAGE_SIZE addr = addr % TARGET_PAGE_SIZE := by omega
  have hl : min (alignDown TARGET_PAGE_SIZE addr + TARGET_PAGE_SIZE - addr) buf.length =
      buf.length := by omega
  unfold cpuPhysicalMemoryWrite
  rw [hn, rwWriteLoop, if_neg (by omega), ← hn]
  simp only [rwWriteStep, alignDown_div TARGET_PAGE_SIZE_pos, hphys, hl, hsub, Bool.false_eq_true,
    ↓reduceIte, List.take_length, List.drop_length, rwWriteLoop_nil]

theorem migDirty_cpuPhysicalMemoryWrite (phys : ℕ → PhysPage) {s : RamState} {page : ℕ}
    (h : migDirty s page) (addr : ℕ) (buf : List UInt8) :
    migDirty (cpuPhysicalMemoryWrite phys s addr buf).1 page :=
  migDirty_rwWriteLoop _ h addr buf

@[simp] theorem unmapLoop_mem (fuel : ℕ) (s : RamState) (addr1 accessLen : ℕ) :
    (unmapLoop fuel s addr1 accessLen).1.mem = s.mem := by
  induction fuel generalizing s addr1 accessLen with
  | zero => rfl
  | succ fuel ih =>
    simp only [unmapLoop]
    split
    · rfl
    · rw [ih, dirtyAfterWrite_mem]

theorem migDirty_unmapLoop (fuel : ℕ) {s : RamState} {page : ℕ} (h : migDirty s page)
    (addr1 accessLen : ℕ) : migDirty (unmapLoop fuel s addr1 accessLen).1 page := by
  induction fuel generalizing s addr1 accessLen with
  | zero => exact h
  | succ fuel ih =>
    simp only [unmapLoop]
    split
    · exact h
    · exact ih (migDirty_dirtyAfterWrite_of_migDirty h _ _) _ _

/-- A DMA write changes the bytes it writes, and clears no migration bit. -/
theorem dmaWrite_mem (s : RamState) (addr1 : ℕ) (buf : List UInt8) :
    (dmaWrite s addr1 buf).1.mem = writeBytes s.mem addr1 buf := unmapLoop_mem _ _ _ _

theorem migDirty_dmaWrite {s : RamState} {page : ℕ} (h : migDirty s page) (addr1 : ℕ)
    (buf : List UInt8) : migDirty (dmaWrite s addr1 buf).1 page := by
  unfold dmaWrite cpuPhysicalMemoryUnmap
  apply migDirty_unmapLoop
  exact h

/-- The unmap loop touches the flags of the pages of its steps' first bytes
`addr1 + k * TARGET_PAGE_SIZE`, and of no other page. -/
theorem unmapLoop_physDirty (fuel : ℕ) (s : RamState) (addr1 accessLen page : ℕ)
    (h : ∀ k, k * TARGET_PAGE_SIZE < accessLen →
      page ≠ (addr1 + k * TARGET_PAGE_SIZE) / TARGET_PAGE_SIZE) :
    (unmapLoop fuel s addr1 accessLen).1.physDirty page = s.physDirty page := by
  induction fuel generalizing s addr1 accessLen with
  | zero => rfl
  | succ fuel ih =>
    simp only [unmapLoop]
    split
    · rfl
    · next hlen =>
      have h0 := h 0 (by omega)
      simp only [zero_mul, Nat.add_zero] at h0
      rw [ih, dirtyAfterWrite_physDirty_of_ne _ _ h0]
      -- the remaining steps start one page further on
      intro k hk
      have hstep : min TARGET_PAGE_SIZE accessLen = TARGET_PAGE_SIZE := by
        by_contra hne
        have : accessLen - min TARGET_PAGE_SIZE accessLen = 0 := by omega
        omega
      have := h (k + 1) (by rw [Nat.succ_mul]; omega)
      rw [hstep]
      rwa [Nat.succ_mul, ← Nat.add_assoc, Nat.add_right_comm addr1] at this

/-- A DMA write of at most a page touches the flags of its first byte's
page only, also when it runs on into the next page. -/
theorem dmaWrite_physDirty_of_ne (s : RamState) {addr1 page : ℕ} {buf : List UInt8}
    (hlen : buf.length ≤ TARGET_PAGE_SIZE) (h : page ≠ addr1 / TARGET_PAGE_SIZE) :
    (dmaWrite s addr1 buf).1.physDirty page = s.physDirty page := by
  unfold dmaWrite cpuPhysicalMemoryUnmap
  rw [unmapLoop_physDirty]
  -- one step only: it starts at `addr1`
  intro k hk
  have hk0 : k = 0 := by
    by_contra hne
    have : TARGET_PAGE_SIZE ≤ k * TARGET_PAGE_SIZE := Nat.le_mul_of_pos_left _ (by omega)
    omega
  subst hk0
  simpa using h

/-- The failing input of the unmap path: four bytes DMA-written at ram
address `0xffe` straddle pages 0 and 1; byte `0x1000` changes, and page 1's
flags stay clear. -/
theorem dmaWrite_unmarked_page :
    let s : RamState := ⟨fun _ => 0, fun _ => 0, 0⟩
    let s' := (dmaWrite s 0xffe [1, 1, 1, 1]).1
    s'.mem 0x1000 ≠ s.mem 0x1000 ∧ ¬ migDirty s' (0x1000 / TARGET_PAGE_SIZE) ∧
      ¬ MarksWrites s s' := by
  intro s s'
  have hmem : s'.mem 0x1000 ≠ s.mem 0x1000 := by decide
  have hclean : ¬ migDirty s' (0x1000 / TARGET_PAGE_SIZE) := by
    -- the only step starts at 0xffe, on page 0
    have hflags : s'.physDirty 1 = 0 := dmaWrite_physDirty_of_ne s (by decide) (by decide)
    unfold migDirty
    rw [show 0x1000 / TARGET_PAGE_SIZE = 1 by decide, hflags]
    decide
  exact ⟨hmem, hclean, fun h => hclean (h _ hmem)⟩

end QemuKvm.Exec
