import QemuKvm.Exec.Tlb

/-!
# The x86 page walk and its debug copy

`cpu_x86_handle_mmu_fault` (target-i386/helper.c, x86-64 target) translates
a linear address through the guest page tables: with `CR0.PG` clear the
address is its own physical address; otherwise it walks the two-level
legacy tables (with 4 MiB pages under `CR4.PSE`), the three-level PAE
tables, or under `EFER.LMA` the four-level long-mode tables (with 2 MiB
pages under PAE). It sets accessed and dirty bits on the way, checks the
access against the `U/S`, `R/W` and `NX` bits, and ends in `tlb_set_page`
or in a #PF (or #GP for a non-canonical address).

`cpu_get_phys_page_debug` is a second copy of the walk for the gdbstub and
the monitor, with no permission logic and no writes. The copy differs from
the original in where it tests `CR0.PG`, in the masks it takes the next
table's address with, and in where it applies the A20 mask.

The model follows both functions statement by statement; physical memory
is a map from the addresses the walks access to the 32-bit word there
(`PhysMem`), which is how `ldl_phys`, `ldq_phys` and `stl_phys_notdirty`
see guest RAM at 4- and 8-aligned addresses. Results:

* `handleMmuFault_unpaged` — with paging off the handler installs the
  address's own page;
* `handleMmuFault_eventOk` — every page the handler installs is a call of
  `tlb_set_page` that the TLB invariant of Exec.Tlb admits: a page-aligned
  address and a power-of-two size of at least a page;
* `cpuGetPhysPageDebug_legacy` — without PAE, the debug walk returns the
  page the handler installs for a supervisor read, and returns -1 exactly
  where the handler raises a #PF for a not-present entry;
* `cpuGetPhysPageDebug_pae_unpaged` — with `CR4.PAE` set and `CR0.PG`
  clear the debug walk reads page tables the handler never reads, so it
  can return -1 for an address the handler maps to itself.
-/

namespace QemuKvm.X86

open BitVec QemuKvm.Tlb

/-! ## Constants (target-i386/cpu.h) -/

/-- `1 << 31` is a negative `int`; against the `target_ulong` `cr[0]` it is
sign-extended. -/
def CR0_PG_MASK : BitVec 64 := (1#32 <<< 31).signExtend 64
def CR0_WP_MASK : BitVec 64 := 1#64 <<< 16
def CR4_PSE_MASK : BitVec 64 := 1#64 <<< 4
def CR4_PAE_MASK : BitVec 64 := 1#64 <<< 5
def HF_LMA_MASK : BitVec 32 := 1#32 <<< 14
def MSR_EFER_NXE : BitVec 64 := 1#64 <<< 11

def PG_PRESENT_MASK : BitVec 64 := 1#64 <<< 0
def PG_RW_MASK : BitVec 64 := 1#64 <<< 1
def PG_USER_MASK : BitVec 64 := 1#64 <<< 2
def PG_ACCESSED_MASK : BitVec 64 := 1#64 <<< 5
def PG_DIRTY_MASK : BitVec 64 := 1#64 <<< 6
def PG_PSE_MASK : BitVec 64 := 1#64 <<< 7
def PG_HI_USER_MASK : BitVec 64 := 0x7ff0000000000000
def PG_NX_MASK : BitVec 64 := 1#64 <<< 63

def PG_ERROR_W_BIT : ℕ := 1
def PG_ERROR_P_MASK : BitVec 32 := 0x01
def PG_ERROR_U_MASK : BitVec 32 := 0x04
def PG_ERROR_RSVD_MASK : BitVec 32 := 0x08
def PG_ERROR_I_D_MASK : BitVec 32 := 0x10

def EXCP0D_GPF : BitVec 32 := 13
def EXCP0E_PAGE : BitVec 32 := 14

def MMU_USER_IDX : Fin NB_MMU_MODES := 1

/-- The physical address bits the handler keeps of an entry (x86-64 target). -/
def PHYS_ADDR_MASK : BitVec 64 := 0xfffffff000

/-- `offsetof(struct vmcb, control.exit_info_2)`. -/
def VMCB_EXIT_INFO_2 : BitVec 64 := 0x80

/-! ## State -/

/-- The fields of `CPUX86State` the two walks read or write. `a20_mask`,
`error_code` and `exception_index` are `int`s, `intercept_exceptions` and
`hflags` `uint32_t`s. -/
structure X86Env where
  cr0 : BitVec 64
  cr2 : BitVec 64
  cr3 : BitVec 64
  cr4 : BitVec 64
  hflags : BitVec 32
  a20Mask : BitVec 32
  efer : BitVec 64
  vmVmcb : BitVec 64
  interceptExceptions : BitVec 32
  errorCode : BitVec 32
  exceptionIndex : BitVec 32

/-- `env->a20_mask` against a 64-bit address: the `int32_t` sign-extended. -/
def X86Env.a20 (env : X86Env) : BitVec 64 :=
  env.a20Mask.signExtend 64

/-- Physical memory as the walks access it: the 32-bit word at each
address. Every access is to a 4-aligned (legacy tables) or 8-aligned (PAE
tables, the VMCB) address, so none straddles two words. -/
abbrev PhysMem := BitVec 64 → BitVec 32

def ldlPhys (m : PhysMem) (a : BitVec 64) : BitVec 32 :=
  m a

/-- `ldq_phys`: little-endian, the low word first. -/
def ldqPhys (m : PhysMem) (a : BitVec 64) : BitVec 64 :=
  m (a + 4) ++ m a

def stlPhysNotdirty (m : PhysMem) (a : BitVec 64) (v : BitVec 32) : PhysMem :=
  Function.update m a v

def stqPhys (m : PhysMem) (a : BitVec 64) (v : BitVec 64) : PhysMem :=
  Function.update (Function.update m a (v.setWidth 32)) (a + 4) ((v >>> 32).setWidth 32)

/-! ## `cpu_x86_handle_mmu_fault` -/

/-- Where the walk leaves for the fault path: the #GP of a non-canonical
address, `goto do_fault` with the error code set so far, or
`goto do_fault_protect`. -/
inductive WalkExit where
  | gpf
  | fault (errorCode : BitVec 32)
  | protect
  deriving DecidableEq, Repr

/-- What a paging walk hands to the code after it: the leaf entry `pte`,
the combined protections `ptep`, the page size and the page's linear
address. -/
structure Leaf where
  pte : BitVec 64
  ptep : BitVec 64
  pageSize : BitVec 64
  virtAddr : BitVec 64

/-- The walk's result with the memory its accessed and dirty updates left. -/
abbrev WalkResult := PhysMem × Except WalkExit Leaf

/-- The first tests on a PAE entry: present, and `NX` only under `EFER.NXE`. -/
def checkEntry (env : X86Env) (e : BitVec 64) : Except WalkExit Unit :=
  if e &&& PG_PRESENT_MASK = 0 then .error (.fault 0)
  else if env.efer &&& MSR_EFER_NXE = 0 ∧ e &&& PG_NX_MASK ≠ 0 then
    .error (.fault PG_ERROR_RSVD_MASK)
  else .ok ()

/-- `if (!(e & PG_ACCESSED_MASK)) { e |= PG_ACCESSED_MASK; stl_phys_notdirty(a, e); }` -/
def setAccessed (m : PhysMem) (a e : BitVec 64) : PhysMem × BitVec 64 :=
  if e &&& PG_ACCESSED_MASK = 0 then
    let e := e ||| PG_ACCESSED_MASK
    (stlPhysNotdirty m a (e.setWidth 32), e)
  else (m, e)

/-- The accessed and dirty update of a leaf entry. -/
def setAccessedDirty (m : PhysMem) (a e : BitVec 64) (isWrite : Bool) : PhysMem × BitVec 64 :=
  let isDirty := isWrite && e &&& PG_DIRTY_MASK = 0
  if e &&& PG_ACCESSED_MASK = 0 ∨ isDirty then
    let e := e ||| PG_ACCESSED_MASK
    let e := if isDirty then e ||| PG_DIRTY_MASK else e
    (stlPhysNotdirty m a (e.setWidth 32), e)
  else (m, e)

/-- The `U/S` and `R/W` tests of every leaf: `true` is `goto do_fault_protect`. -/
def protFault (env : X86Env) (isUser isWrite : Bool) (ptep : BitVec 64) : Bool :=
  if isUser then ptep &&& PG_USER_MASK = 0 || (isWrite && ptep &&& PG_RW_MASK = 0)
  else env.cr0 &&& CR0_WP_MASK ≠ 0 && isWrite && ptep &&& PG_RW_MASK = 0

/-- The two upper levels of the long-mode walk: the sign-extension test,
the PML4 entry and the page-directory-pointer entry; the result is the
PDPT entry and the protections so far. -/
def walkPml4 (env : X86Env) (m : PhysMem) (addr : BitVec 64) :
    PhysMem × Except WalkExit (BitVec 64 × BitVec 64) :=
  -- `sext = (int64_t)addr >> 47`, an `int32_t`
  let sext : BitVec 32 := (addr.sshiftRight 47).setWidth 32
  if sext ≠ 0 ∧ sext ≠ -1 then (m, .error .gpf)
  else
    let pml4eAddr := ((env.cr3 &&& ~~~0xfff#64) + (((addr >>> 39) &&& 0x1ff) <<< 3)) &&& env.a20
    let pml4e := ldqPhys m pml4eAddr
    match checkEntry env pml4e with
    | .error e => (m, .error e)
    | .ok () =>
      let (m, pml4e) := setAccessed m pml4eAddr pml4e
      let ptep := pml4e ^^^ PG_NX_MASK
      let pdpeAddr := ((pml4e &&& PHYS_ADDR_MASK) + (((addr >>> 30) &&& 0x1ff) <<< 3)) &&& env.a20
      let pdpe := ldqPhys m pdpeAddr
      match checkEntry env pdpe with
      | .error e => (m, .error e)
      | .ok () =>
        let ptep := ptep &&& (pdpe ^^^ PG_NX_MASK)
        let (m, pdpe) := setAccessed m pdpeAddr pdpe
        (m, .ok (pdpe, ptep))

/-- The PAE walk without long mode reads one of four PDPT entries, whose
protections it takes as allowing everything. -/
def walkPdpt (env : X86Env) (m : PhysMem) (addr : BitVec 64) :
    PhysMem × Except WalkExit (BitVec 64 × BitVec 64) :=
  let pdpeAddr := ((env.cr3 &&& ~~~0x1f#64) + ((addr >>> 27) &&& 0x18)) &&& env.a20
  let pdpe := ldqPhys m pdpeAddr
  if pdpe &&& PG_PRESENT_MASK = 0 then (m, .error (.fault 0))
  else (m, .ok (pdpe, PG_NX_MASK ||| PG_USER_MASK ||| PG_RW_MASK))

/-- The page-directory and page-table levels of the PAE walk, from the
PDPT entry and the protections of the levels above. -/
def walkPaePd (env : X86Env) (m : PhysMem) (addr : BitVec 64) (isWrite1 : BitVec 32)
    (isUser isWrite : Bool) (pdpe ptep : BitVec 64) : WalkResult :=
  let pdeAddr := ((pdpe &&& PHYS_ADDR_MASK) + (((addr >>> 21) &&& 0x1ff) <<< 3)) &&& env.a20
  let pde := ldqPhys m pdeAddr
  match checkEntry env pde with
  | .error e => (m, .error e)
  | .ok () =>
    let ptep := ptep &&& (pde ^^^ PG_NX_MASK)
    if pde &&& PG_PSE_MASK ≠ 0 then
      -- 2 MB page
      let pageSize : BitVec 64 := 2048 * 1024
      let ptep := ptep ^^^ PG_NX_MASK
      if ptep &&& PG_NX_MASK ≠ 0 ∧ isWrite1 = 2 then (m, .error .protect)
      else if protFault env isUser isWrite ptep then (m, .error .protect)
      else
        let (m, pde) := setAccessedDirty m pdeAddr pde isWrite
        (m, .ok ⟨pde &&& ((PHYS_ADDR_MASK &&& ~~~(pageSize - 1)) ||| 0xfff), ptep, pageSize,
          addr &&& ~~~(pageSize - 1)⟩)
    else
      -- 4 KB page
      let (m, pde) := setAccessed m pdeAddr pde
      let pteAddr := ((pde &&& PHYS_ADDR_MASK) + (((addr >>> 12) &&& 0x1ff) <<< 3)) &&& env.a20
      let pte := ldqPhys m pteAddr
      match checkEntry env pte with
      | .error e => (m, .error e)
      | .ok () =>
        let ptep := (ptep &&& (pte ^^^ PG_NX_MASK)) ^^^ PG_NX_MASK
        if ptep &&& PG_NX_MASK ≠ 0 ∧ isWrite1 = 2 then (m, .error .protect)
        else if protFault env isUser isWrite ptep then (m, .error .protect)
        else
          let (m, pte) := setAccessedDirty m pteAddr pte isWrite
          (m, .ok ⟨pte &&& (PHYS_ADDR_MASK ||| 0xfff), ptep, 4096, addr &&& ~~~0xfff#64⟩)

/-- The PAE walk, long mode or not. -/
def walkPae (env : X86Env) (m : PhysMem) (addr : BitVec 64) (isWrite1 : BitVec 32)
    (isUser isWrite : Bool) : WalkResult :=
  let (m, r) :=
    if env.hflags &&& HF_LMA_MASK ≠ 0 then walkPml4 env m addr else walkPdpt env m addr
  match r with
  | .error e => (m, .error e)
  | .ok (pdpe, ptep) => walkPaePd env m addr isWrite1 isUser isWrite pdpe ptep

/-- The legacy two-level walk. Its entries are `uint32_t`s, held here
zero-extended; the masks act on them as on the 32-bit values. -/
def walkLegacy (env : X86Env) (m : PhysMem) (addr : BitVec 64) (isUser isWrite : Bool) :
    WalkResult :=
  let pdeAddr := ((env.cr3 &&& ~~~0xfff#64) + ((addr >>> 20) &&& 0xffc)) &&& env.a20
  let pde := (ldlPhys m pdeAddr).setWidth 64
  if pde &&& PG_PRESENT_MASK = 0 then (m, .error (.fault 0))
  else if pde &&& PG_PSE_MASK ≠ 0 ∧ env.cr4 &&& CR4_PSE_MASK ≠ 0 then
    -- 4 MB page
    let pageSize : BitVec 64 := 4096 * 1024
    if protFault env isUser isWrite pde then (m, .error .protect)
    else
      let (m, pde) := setAccessedDirty m pdeAddr pde isWrite
      let pte := pde &&& ~~~((pageSize - 1) &&& ~~~0xfff#64)
      (m, .ok ⟨pte, pte, pageSize, addr &&& ~~~(pageSize - 1)⟩)
  else
    let (m, pde) := setAccessed m pdeAddr pde
    let pteAddr := ((pde &&& ~~~0xfff#64) + ((addr >>> 10) &&& 0xffc)) &&& env.a20
    let pte := (ldlPhys m pteAddr).setWidth 64
    if pte &&& PG_PRESENT_MASK = 0 then (m, .error (.fault 0))
    else
      let ptep := pte &&& pde
      if protFault env isUser isWrite ptep then (m, .error .protect)
      else
        let (m, pte) := setAccessedDirty m pteAddr pte isWrite
        (m, .ok ⟨pte, ptep, 4096, addr &&& ~~~0xfff#64⟩)

/-- The protections of a page found by the walk; write access only once
the page is dirty. -/
def leafProt (env : X86Env) (isUser : Bool) (l : Leaf) : BitVec 32 :=
  let prot := PAGE_READ
  let prot := if l.ptep &&& PG_NX_MASK = 0 then prot ||| PAGE_EXEC else prot
  if l.pte &&& PG_DIRTY_MASK ≠ 0 then
    if isUser then (if l.ptep &&& PG_RW_MASK ≠ 0 then prot ||| PAGE_WRITE else prot)
    else if env.cr0 &&& CR0_WP_MASK = 0 ∨ l.ptep &&& PG_RW_MASK ≠ 0 then prot ||| PAGE_WRITE
    else prot
  else prot

/-- The arguments of the handler's `tlb_set_page` call. -/
structure TlbSetPage where
  vaddr : BitVec 64
  paddr : BitVec 64
  prot : BitVec 32
  mmuIdx : Fin NB_MMU_MODES
  size : BitVec 64
  deriving DecidableEq, Repr

/-- How the handler ends: 0 after `tlb_set_page`, or 1 with the exception
recorded in the CPU state. Both carry the memory as left. -/
inductive MmuOutcome where
  | mapped (call : TlbSetPage) (m : PhysMem)
  | fault (env : X86Env) (m : PhysMem)

/-- The `tlb_set_page` call of a run that returns 0. -/
def MmuOutcome.installed : MmuOutcome → Option TlbSetPage
  | .mapped c _ => some c
  | .fault _ _ => none

/-- `do_mapping`: mask the entry with A20, and install the one small page
of `addr`. `page_offset` is a `uint32_t`; it is below the page size, so
the truncation loses nothing. -/
def doMapping (m : PhysMem) (env : X86Env) (addr : BitVec 64) (mmuIdx : Fin NB_MMU_MODES)
    (pte virtAddr pageSize : BitVec 64) (prot : BitVec 32) : MmuOutcome :=
  let pte := pte &&& env.a20
  let pageOffset := (addr &&& TARGET_PAGE_MASK) &&& (pageSize - 1)
  let paddr := (pte &&& TARGET_PAGE_MASK) + pageOffset
  let vaddr := virtAddr + pageOffset
  .mapped ⟨vaddr, paddr, prot, mmuIdx, pageSize⟩ m

/-- `do_fault`: the error code gets the access's `W`, `U` and `I/D` bits,
and the faulting address goes to `CR2`, or under an SVM intercept of #PF
to the VMCB's `exit_info_2`. -/
def doFault (m : PhysMem) (env : X86Env) (addr : BitVec 64) (isWrite1 : BitVec 32)
    (isUser isWrite : Bool) (errorCode : BitVec 32) : MmuOutcome :=
  let errorCode := errorCode ||| ((if isWrite then 1 else 0) <<< PG_ERROR_W_BIT)
  let errorCode := if isUser then errorCode ||| PG_ERROR_U_MASK else errorCode
  let errorCode :=
    if isWrite1 = 2 ∧ env.efer &&& MSR_EFER_NXE ≠ 0 ∧ env.cr4 &&& CR4_PAE_MASK ≠ 0 then
      errorCode ||| PG_ERROR_I_D_MASK
    else errorCode
  let (m, env) :=
    if env.interceptExceptions &&& (1 <<< EXCP0E_PAGE.toNat) ≠ 0 then
      (stqPhys m (env.vmVmcb + VMCB_EXIT_INFO_2) addr, env)
    else (m, { env with cr2 := addr })
  .fault { env with errorCode := errorCode, exceptionIndex := EXCP0E_PAGE } m

/-- `cpu_x86_handle_mmu_fault`. `isWrite1` is 0 for a read, 1 for a write
and 2 for an instruction fetch. -/
def handleMmuFault (env : X86Env) (m : PhysMem) (addr : BitVec 64) (isWrite1 : BitVec 32)
    (mmuIdx : Fin NB_MMU_MODES) : MmuOutcome :=
  let isUser := mmuIdx = MMU_USER_IDX
  let isWrite := isWrite1 &&& 1 ≠ 0
  if env.cr0 &&& CR0_PG_MASK = 0 then
    doMapping m env addr mmuIdx addr (addr &&& TARGET_PAGE_MASK) 4096
      (PAGE_READ ||| PAGE_WRITE ||| PAGE_EXEC)
  else
    let (m, r) :=
      if env.cr4 &&& CR4_PAE_MASK ≠ 0 then walkPae env m addr isWrite1 isUser isWrite
      else walkLegacy env m addr isUser isWrite
    match r with
    | .ok l => doMapping m env addr mmuIdx l.pte l.virtAddr l.pageSize (leafProt env isUser l)
    | .error .gpf => .fault { env with errorCode := 0, exceptionIndex := EXCP0D_GPF } m
    | .error (.fault errorCode) => doFault m env addr isWrite1 isUser isWrite errorCode
    | .error .protect => doFault m env addr isWrite1 isUser isWrite PG_ERROR_P_MASK

/-! ## `cpu_get_phys_page_debug` -/

/-- The entry bits the debug walk takes a table address from:
`~0xfff & ~(PG_NX_MASK | PG_HI_USER_MASK)`. -/
def debugAddrMask : BitVec 64 :=
  ~~~0xfff#64 &&& ~~~(PG_NX_MASK ||| PG_HI_USER_MASK)

/-- The PAE part of the debug walk: the entry and size of the page, or
`none` for the early `return -1`s. -/
def debugPae (env : X86Env) (m : PhysMem) (addr : BitVec 64) : Option (BitVec 64 × BitVec 64) := do
  let pdpe ← if env.hflags &&& HF_LMA_MASK ≠ 0 then
      let sext : BitVec 32 := (addr.sshiftRight 47).setWidth 32
      if sext ≠ 0 ∧ sext ≠ -1 then none
      else
        let pml4eAddr := ((env.cr3 &&& ~~~0xfff#64) + (((addr >>> 39) &&& 0x1ff) <<< 3)) &&& env.a20
        let pml4e := ldqPhys m pml4eAddr
        if pml4e &&& PG_PRESENT_MASK = 0 then none
        else
          let pdpeAddr :=
            ((pml4e &&& debugAddrMask) + (((addr >>> 30) &&& 0x1ff) <<< 3)) &&& env.a20
          let pdpe := ldqPhys m pdpeAddr
          if pdpe &&& PG_PRESENT_MASK = 0 then none else some pdpe
    else
      let pdpeAddr := ((env.cr3 &&& ~~~0x1f#64) + ((addr >>> 27) &&& 0x18)) &&& env.a20
      let pdpe := ldqPhys m pdpeAddr
      if pdpe &&& PG_PRESENT_MASK = 0 then none else some pdpe
  let pdeAddr := ((pdpe &&& debugAddrMask) + (((addr >>> 21) &&& 0x1ff) <<< 3)) &&& env.a20
  let pde := ldqPhys m pdeAddr
  if pde &&& PG_PRESENT_MASK = 0 then none
  else
    let (pte, pageSize) : BitVec 64 × BitVec 64 :=
      if pde &&& PG_PSE_MASK ≠ 0 then
        -- 2 MB page
        (pde &&& ~~~(((2048 * 1024 : BitVec 64) - 1) &&& ~~~0xfff#64), 2048 * 1024)
      else
        -- 4 KB page
        let pteAddr := ((pde &&& debugAddrMask) + (((addr >>> 12) &&& 0x1ff) <<< 3)) &&& env.a20
        (ldqPhys m pteAddr, 4096)
    let pte := pte &&& ~~~(PG_NX_MASK ||| PG_HI_USER_MASK)
    if pte &&& PG_PRESENT_MASK = 0 then none else some (pte, pageSize)

/-- The non-PAE part of the debug walk, A20 mask included. -/
def debugLegacy (env : X86Env) (m : PhysMem) (addr : BitVec 64) :
    Option (BitVec 64 × BitVec 64) := do
  let (pte, pageSize) ← if env.cr0 &&& CR0_PG_MASK = 0 then some (addr, (4096 : BitVec 64))
    else
      let pdeAddr := ((env.cr3 &&& ~~~0xfff#64) + ((addr >>> 20) &&& 0xffc)) &&& env.a20
      let pde := (ldlPhys m pdeAddr).setWidth 64
      if pde &&& PG_PRESENT_MASK = 0 then none
      else if pde &&& PG_PSE_MASK ≠ 0 ∧ env.cr4 &&& CR4_PSE_MASK ≠ 0 then
        some (pde &&& ~~~0x003ff000#64, 4096 * 1024)
      else
        let pteAddr := ((pde &&& ~~~0xfff#64) + ((addr >>> 10) &&& 0xffc)) &&& env.a20
        let pte := (ldlPhys m pteAddr).setWidth 64
        if pte &&& PG_PRESENT_MASK = 0 then none else some (pte, 4096)
  some (pte &&& env.a20, pageSize)

/-- `cpu_get_phys_page_debug`: -1 where the walk stops. -/
def cpuGetPhysPageDebug (env : X86Env) (m : PhysMem) (addr : BitVec 64) : BitVec 64 :=
  let r := if env.cr4 &&& CR4_PAE_MASK ≠ 0 then debugPae env m addr else debugLegacy env m addr
  match r with
  | none => -1
  | some (pte, pageSize) =>
    let pageOffset := (addr &&& TARGET_PAGE_MASK) &&& (pageSize - 1)
    (pte &&& TARGET_PAGE_MASK) + pageOffset

/-! ## Entries up to their accessed and dirty bits -/

/-- Two entries that differ at most in the accessed and dirty bits, which
are all an accessed or dirty update changes. -/
def SameEntry (x y : BitVec 64) : Prop :=
  x &&& ~~~0x60#64 = y &&& ~~~0x60#64

theorem SameEntry.refl (x : BitVec 64) : SameEntry x x :=
  rfl

theorem SameEntry.trans {x y z : BitVec 64} (hxy : SameEntry x y) (hyz : SameEntry y z) :
    SameEntry x z :=
  Eq.trans hxy hyz

/-- Under a mask without the accessed and dirty bits the two agree. -/
theorem SameEntry.and_eq {x y K : BitVec 64} (h : SameEntry x y) (hK : K &&& ~~~0x60#64 = K) :
    x &&& K = y &&& K :=
  calc x &&& K = (x &&& ~~~0x60#64) &&& K := by
        rw [BitVec.and_assoc, BitVec.and_comm (~~~0x60#64) K, hK]
    _ = (y &&& ~~~0x60#64) &&& K := by rw [h]
    _ = y &&& K := by rw [BitVec.and_assoc, BitVec.and_comm (~~~0x60#64) K, hK]

theorem SameEntry.and {x y : BitVec 64} (h : SameEntry x y) (z : BitVec 64) :
    SameEntry (x &&& z) (y &&& z) := by
  unfold SameEntry at *
  rw [BitVec.and_assoc, BitVec.and_comm z, ← BitVec.and_assoc, h, BitVec.and_assoc,
    BitVec.and_comm _ z, ← BitVec.and_assoc]

theorem sameEntry_or_accessed (e : BitVec 64) : SameEntry (e ||| PG_ACCESSED_MASK) e := by
  unfold SameEntry
  rw [and_or_distrib_right, show PG_ACCESSED_MASK &&& ~~~0x60#64 = 0#64 by decide, or_zero]

theorem setAccessed_sameEntry (m : PhysMem) (a e : BitVec 64) : SameEntry (setAccessed m a e).2 e := by
  unfold setAccessed
  split
  · exact sameEntry_or_accessed e
  · exact SameEntry.refl e

/-- A 32-bit entry with its accessed bit set, stored back and read again. -/
theorem setWidth_or_accessed (x : BitVec 32) :
    ((x.setWidth 64 ||| PG_ACCESSED_MASK).setWidth 32).setWidth 64 = x.setWidth 64 ||| PG_ACCESSED_MASK := by
  ext i hi
  simp only [← getLsbD_eq_getElem, getLsbD_setWidth, getLsbD_or, PG_ACCESSED_MASK, getLsbD_shiftLeft]
  by_cases hi32 : i < 32
  · simp [hi32, hi]
  · -- above the 32-bit word both sides are zero
    simp only [hi32, hi, decide_false, decide_true, Bool.false_and, Bool.true_and]
    rw [getLsbD_of_ge x i (by omega)]
    simp
    omega

/-- The legacy walk's update of a 32-bit entry leaves every word of
memory the same entry. -/
theorem setAccessed_fst_sameEntry (m : PhysMem) (a b : BitVec 64) :
    SameEntry (((setAccessed m a ((m a).setWidth 64)).1 b).setWidth 64) ((m b).setWidth 64) := by
  unfold setAccessed
  split
  · by_cases hb : b = a
    · subst hb
      dsimp only
      rw [stlPhysNotdirty, Function.update_self, setWidth_or_accessed]
      exact sameEntry_or_accessed _
    · dsimp only
      rw [stlPhysNotdirty, Function.update_of_ne hb]
      exact SameEntry.refl _
  · exact SameEntry.refl _

theorem setAccessedDirty_read (m : PhysMem) (a e : BitVec 64) :
    setAccessedDirty m a e false = setAccessed m a e := by
  simp [setAccessedDirty, setAccessed]

theorem protFault_read (env : X86Env) (ptep : BitVec 64) : protFault env false false ptep = false := by
  simp [protFault]

/-! ## Paging off -/

/-- The offset of an address within its small page has no bits above the page. -/
theorem pageOffset_small (x : BitVec 64) : x &&& TARGET_PAGE_MASK &&& 4095#64 = 0#64 := by
  rw [BitVec.and_assoc, show TARGET_PAGE_MASK &&& 4095#64 = 0#64 by decide, and_zero]

/-- With paging off the handler installs the address's own page, every
access allowed. -/
theorem handleMmuFault_unpaged (env : X86Env) (m : PhysMem) (addr : BitVec 64)
    (isWrite1 : BitVec 32) (mmuIdx : Fin NB_MMU_MODES) (hpg : env.cr0 &&& CR0_PG_MASK = 0) :
    handleMmuFault env m addr isWrite1 mmuIdx =
      .mapped ⟨addr &&& TARGET_PAGE_MASK, addr &&& env.a20 &&& TARGET_PAGE_MASK,
        PAGE_READ ||| PAGE_WRITE ||| PAGE_EXEC, mmuIdx, 4096⟩ m := by
  rw [handleMmuFault, if_pos hpg, doMapping]
  simp [pageOffset_small]

theorem cpuGetPhysPageDebug_unpaged (env : X86Env) (m : PhysMem) (addr : BitVec 64)
    (hpae : env.cr4 &&& CR4_PAE_MASK = 0) (hpg : env.cr0 &&& CR0_PG_MASK = 0) :
    cpuGetPhysPageDebug env m addr = addr &&& env.a20 &&& TARGET_PAGE_MASK := by
  simp [cpuGetPhysPageDebug, hpae, debugLegacy, hpg, pageOffset_small]

/-! ## PAE with paging off -/

/-- With `CR4.PAE` set and `CR0.PG` clear the handler does not look at the
page tables and installs the address's own page, while the debug walk,
which tests `CR4.PAE` before `CR0.PG`, reads a page-directory-pointer
entry through `CR3`; where that entry is not present it returns -1. -/
theorem cpuGetPhysPageDebug_pae_unpaged (env : X86Env) (m : PhysMem) (addr : BitVec 64)
    (isWrite1 : BitVec 32) (mmuIdx : Fin NB_MMU_MODES) (hpg : env.cr0 &&& CR0_PG_MASK = 0)
    (hpae : env.cr4 &&& CR4_PAE_MASK ≠ 0) (hlma : env.hflags &&& HF_LMA_MASK = 0)
    (hpdpe : ldqPhys m (((env.cr3 &&& ~~~0x1f#64) + ((addr >>> 27) &&& 0x18)) &&& env.a20) &&&
      PG_PRESENT_MASK = 0) :
    (handleMmuFault env m addr isWrite1 mmuIdx).installed =
      some ⟨addr &&& TARGET_PAGE_MASK, addr &&& env.a20 &&& TARGET_PAGE_MASK,
        PAGE_READ ||| PAGE_WRITE ||| PAGE_EXEC, mmuIdx, 4096⟩ ∧
    cpuGetPhysPageDebug env m addr = -1 := by
  refine ⟨by rw [handleMmuFault_unpaged env m addr isWrite1 mmuIdx hpg]; rfl, ?_⟩
  have hd : debugPae env m addr = none := by
    rw [debugPae, if_neg (not_not.2 hlma)]
    simp only [hpdpe, ↓reduceIte, Option.bind_eq_bind, Option.bind_none]
  rw [cpuGetPhysPageDebug, if_pos hpae, hd]

/-- Real mode with `CR4.PAE` left set and zeroed memory: the handler maps
the VGA text buffer at 0xb8000 to itself, the debug walk returns -1. -/
theorem cpuGetPhysPageDebug_pae_unpaged_vga :
    let env : X86Env := ⟨0, 0, 0, CR4_PAE_MASK, 0, -1, 0, 0, 0, 0, 0⟩
    env.cr0 &&& CR0_PG_MASK = 0 ∧ env.cr4 &&& CR4_PAE_MASK ≠ 0 ∧ env.hflags &&& HF_LMA_MASK = 0 ∧
      ldqPhys (fun _ => 0) (((env.cr3 &&& ~~~0x1f#64) + ((0xb8000 >>> 27) &&& 0x18)) &&& env.a20) &&&
        PG_PRESENT_MASK = 0 ∧
      ((handleMmuFault env (fun _ => 0) 0xb8000 0 0).installed =
        some ⟨0xb8000 &&& TARGET_PAGE_MASK, 0xb8000 &&& env.a20 &&& TARGET_PAGE_MASK,
          PAGE_READ ||| PAGE_WRITE ||| PAGE_EXEC, 0, 4096⟩ ∧
      cpuGetPhysPageDebug env (fun _ => 0) 0xb8000 = -1) := by
  intro env
  have hpg : env.cr0 &&& CR0_PG_MASK = 0 := by decide
  have hpae : env.cr4 &&& CR4_PAE_MASK ≠ 0 := by decide
  have hlma : env.hflags &&& HF_LMA_MASK = 0 := by decide
  have hpdpe : ldqPhys (fun _ => 0) (((env.cr3 &&& ~~~0x1f#64) + ((0xb8000 >>> 27) &&& 0x18)) &&&
      env.a20) &&& PG_PRESENT_MASK = 0 := by decide
  exact ⟨hpg, hpae, hlma, hpdpe,
    cpuGetPhysPageDebug_pae_unpaged env (fun _ => 0) 0xb8000 0 0 hpg hpae hlma hpdpe⟩

/-! ## Without PAE the debug walk agrees with the handler -/

theorem walkLegacy_read (env : X86Env) (m : PhysMem) (addr : BitVec 64)
    (hpg : env.cr0 &&& CR0_PG_MASK ≠ 0) :
    match (walkLegacy env m addr false false).2, debugLegacy env m addr with
    | .ok l, some (pte, size) =>
      size = l.pageSize ∧ pte &&& TARGET_PAGE_MASK = l.pte &&& env.a20 &&& TARGET_PAGE_MASK
    | .error e, none => e = .fault 0
    | _, _ => False := by
  rw [walkLegacy, debugLegacy, if_neg hpg]
  dsimp only [ldlPhys]
  generalize ((env.cr3 &&& ~~~0xfff#64) + ((addr >>> 20) &&& 0xffc)) &&& env.a20 = pdeAddr
  by_cases hp : (m pdeAddr).setWidth 64 &&& PG_PRESENT_MASK = 0
  · simp only [hp, ↓reduceIte, Option.bind_eq_bind, Option.bind_none]
  · simp only [hp, ↓reduceIte, protFault_read, Bool.false_eq_true, setAccessedDirty_read]
    by_cases hbig : (m pdeAddr).setWidth 64 &&& PG_PSE_MASK ≠ 0 ∧ env.cr4 &&& CR4_PSE_MASK ≠ 0
    · -- a 4 MB page: the directory entry is the leaf
      simp only [if_pos hbig]
      refine ⟨rfl, ?_⟩
      rw [show ~~~((4096 * 1024 : BitVec 64) - 1 &&& ~~~4095#64) = ~~~4190208#64 by decide]
      exact ((((setAccessed_sameEntry m pdeAddr _).and _).and _).and_eq (by decide)).symm
    · simp only [if_neg hbig]
      -- a 4 KB page: the handler reads the table entry after setting the
      -- directory entry's accessed bit, which changes nothing it reads
      have hdir : (setAccessed m pdeAddr ((m pdeAddr).setWidth 64)).2 &&& ~~~4095#64 =
          (m pdeAddr).setWidth 64 &&& ~~~4095#64 :=
        (setAccessed_sameEntry _ _ _).and_eq (by decide)
      rw [hdir]
      generalize ((m pdeAddr).setWidth 64 &&& ~~~4095#64) + (addr >>> 10 &&& 4092) &&& env.a20 = pteAddr
      have hpte := setAccessed_fst_sameEntry m pdeAddr pteAddr
      have hpres : ((setAccessed m pdeAddr ((m pdeAddr).setWidth 64)).1 pteAddr).setWidth 64 &&&
          PG_PRESENT_MASK = (m pteAddr).setWidth 64 &&& PG_PRESENT_MASK :=
        hpte.and_eq (by decide)
      rw [hpres]
      by_cases hq : (m pteAddr).setWidth 64 &&& PG_PRESENT_MASK = 0
      · simp only [if_pos hq, Option.bind_eq_bind, Option.bind_none]
      · simp only [if_neg hq]
        refine ⟨rfl, ?_⟩
        exact ((((setAccessed_sameEntry _ _ _).trans hpte).and _).and_eq (by decide)).symm

/-- The debug walk's result from its non-PAE part. -/
theorem cpuGetPhysPageDebug_of_legacy (env : X86Env) (m : PhysMem) (addr : BitVec 64)
    (hpae : env.cr4 &&& CR4_PAE_MASK = 0) :
    cpuGetPhysPageDebug env m addr =
      match debugLegacy env m addr with
      | none => -1
      | some (pte, pageSize) => (pte &&& TARGET_PAGE_MASK) + (addr &&& TARGET_PAGE_MASK &&& (pageSize - 1)) := by
  rw [cpuGetPhysPageDebug, if_neg (not_not.2 hpae)]

/-- A read's page fault for a not-present entry: error code 0, and `CR2`
or the VMCB holds the address. -/
theorem doFault_read (m : PhysMem) (env : X86Env) (addr : BitVec 64) :
    match doFault m env addr 0 false false 0 with
    | .mapped _ _ => False
    | .fault env' _ => env'.exceptionIndex = EXCP0E_PAGE ∧ env'.errorCode &&& PG_ERROR_P_MASK = 0 := by
  have h02 : ¬((0 : BitVec 32) = 2 ∧ env.efer &&& MSR_EFER_NXE ≠ 0 ∧ env.cr4 &&& CR4_PAE_MASK ≠ 0) :=
    fun h => absurd h.1 (by decide)
  unfold doFault
  simp only [if_neg h02, Bool.false_eq_true, ↓reduceIte]
  exact ⟨trivial, by decide⟩

/-- Without PAE, for a supervisor read, the debug walk agrees with the
handler: it returns the physical page the handler installs, and -1 where
the handler raises a #PF, which is then for a not-present entry. -/
theorem cpuGetPhysPageDebug_legacy (env : X86Env) (m : PhysMem) (addr : BitVec 64)
    (mmuIdx : Fin NB_MMU_MODES) (hpae : env.cr4 &&& CR4_PAE_MASK = 0) (hsup : mmuIdx ≠ MMU_USER_IDX) :
    match handleMmuFault env m addr 0 mmuIdx with
    | .mapped c _ => cpuGetPhysPageDebug env m addr = c.paddr
    | .fault env' _ => cpuGetPhysPageDebug env m addr = -1 ∧ env'.exceptionIndex = EXCP0E_PAGE ∧
        env'.errorCode &&& PG_ERROR_P_MASK = 0 := by
  by_cases hpg : env.cr0 &&& CR0_PG_MASK = 0
  · rw [handleMmuFault_unpaged env m addr 0 mmuIdx hpg]
    exact cpuGetPhysPageDebug_unpaged env m addr hpae hpg
  · have hw := walkLegacy_read env m addr hpg
    rw [handleMmuFault, if_neg hpg, cpuGetPhysPageDebug_of_legacy env m addr hpae]
    simp only [if_neg (not_not.2 hpae), decide_eq_false hsup,
      show decide ((0 : BitVec 32) &&& 1 ≠ 0) = false by decide]
    rcases hwl : walkLegacy env m addr false false with ⟨m', r⟩
    rw [hwl] at hw
    dsimp only at hw ⊢
    cases r with
    | ok l =>
      cases hd : debugLegacy env m addr with
      | none => simp only [hd] at hw
      | some p =>
        obtain ⟨pte, size⟩ := p
        simp only [hd] at hw
        obtain ⟨rfl, hpte⟩ := hw
        simp only [doMapping, hpte]
    | error e =>
      cases hd : debugLegacy env m addr with
      | none =>
        simp only [hd] at hw
        subst hw
        exact ⟨rfl, doFault_read m' env addr⟩
      | some p => simp only [hd] at hw

/-! ## The handler's `tlb_set_page` calls -/

/-- What a walk hands to `do_mapping`: a page size `tlb_set_page` accepts,
and the page's linear address, `addr` rounded down to that size. -/
def LeafOk (addr : BitVec 64) (l : Leaf) : Prop :=
  PageSize l.pageSize ∧ l.virtAddr = addr &&& ~~~(l.pageSize - 1)

theorem pageSize_4k : PageSize 4096 := ⟨12, le_rfl, by decide, by decide⟩
theorem pageSize_2m : PageSize (2048 * 1024) := ⟨21, by decide, by decide, by decide⟩
theorem pageSize_4m : PageSize (4096 * 1024) := ⟨22, by decide, by decide, by decide⟩

theorem leafOk_small (addr pte ptep : BitVec 64) : LeafOk addr ⟨pte, ptep, 4096, addr &&& ~~~0xfff#64⟩ := by
  refine ⟨pageSize_4k, ?_⟩
  show addr &&& ~~~0xfff#64 = addr &&& ~~~((4096 : BitVec 64) - 1)
  rw [show (4096 : BitVec 64) - 1 = 0xfff#64 by decide]

theorem targetPageMask_eq : TARGET_PAGE_MASK = highMask 64 12 :=
  not_sub_one_eq_highMask (by decide)

/-- `do_mapping`'s `vaddr` is the small page of `addr`. -/
theorem doMapping_vaddr {size : BitVec 64} (hsz : PageSize size) (addr : BitVec 64) :
    (addr &&& ~~~(size - 1)) + (addr &&& TARGET_PAGE_MASK &&& (size - 1)) =
      addr &&& TARGET_PAGE_MASK := by
  obtain ⟨j, hj, hmask⟩ := hsz.mask_eq
  have hlow : size - 1 = ~~~(highMask 64 j) := by rw [← hmask, BitVec.not_not]
  rw [hmask, hlow, targetPageMask_eq]
  exact and_highMask_add hj addr

theorem pageAligned_and_pageMask (x : BitVec 64) : PageAligned (x &&& TARGET_PAGE_MASK) := by
  unfold PageAligned
  rw [BitVec.and_assoc, BitVec.and_self]

theorem doMapping_eventOk (m : PhysMem) (env : X86Env) (addr : BitVec 64)
    (mmuIdx : Fin NB_MMU_MODES) (pte : BitVec 64) {virtAddr size : BitVec 64} (prot : BitVec 32)
    (hsz : PageSize size) (hv : virtAddr = addr &&& ~~~(size - 1)) {c : TlbSetPage}
    (h : (doMapping m env addr mmuIdx pte virtAddr size prot).installed = some c) :
    PageAligned c.vaddr ∧ PageSize c.size := by
  simp only [doMapping, MmuOutcome.installed, Option.some.injEq] at h
  subst h
  rw [hv, doMapping_vaddr hsz]
  exact ⟨pageAligned_and_pageMask addr, hsz⟩

theorem doFault_installed (m : PhysMem) (env : X86Env) (addr : BitVec 64) (isWrite1 : BitVec 32)
    (isUser isWrite : Bool) (errorCode : BitVec 32) :
    (doFault m env addr isWrite1 isUser isWrite errorCode).installed = none := by
  unfold doFault
  split <;> rfl

theorem walkLegacy_leafOk (env : X86Env) (m : PhysMem) (addr : BitVec 64) (isUser isWrite : Bool)
    {l : Leaf} (h : (walkLegacy env m addr isUser isWrite).2 = .ok l) : LeafOk addr l := by
  unfold walkLegacy at h
  dsimp only at h
  split at h
  · cases h
  · split at h
    · -- 4 MB page
      split at h
      · cases h
      · cases h
        exact ⟨pageSize_4m, rfl⟩
    · split at h
      · cases h
      · split at h
        · cases h
        · cases h
          exact leafOk_small _ _ _

theorem walkPaePd_leafOk (env : X86Env) (m : PhysMem) (addr : BitVec 64) (isWrite1 : BitVec 32)
    (isUser isWrite : Bool) (pdpe ptep : BitVec 64) {l : Leaf}
    (h : (walkPaePd env m addr isWrite1 isUser isWrite pdpe ptep).2 = .ok l) : LeafOk addr l := by
  unfold walkPaePd at h
  dsimp only at h
  split at h
  · cases h
  · split at h
    · -- 2 MB page
      split at h
      · cases h
      · split at h
        · cases h
        · cases h
          exact ⟨pageSize_2m, rfl⟩
    · split at h
      · cases h
      · split at h
        · cases h
        · split at h
          · cases h
          · cases h
            exact leafOk_small _ _ _

theorem walk_leafOk {p : Prop} [Decidable p] (env : X86Env) (m : PhysMem) (addr : BitVec 64)
    (isWrite1 : BitVec 32) (isUser isWrite : Bool) {l : Leaf}
    (h : (if p then walkPae env m addr isWrite1 isUser isWrite
      else walkLegacy env m addr isUser isWrite).2 = .ok l) : LeafOk addr l := by
  split at h
  · unfold walkPae at h
    dsimp only at h
    split at h
    · cases h
    · exact walkPaePd_leafOk env _ addr isWrite1 isUser isWrite _ _ h
  · exact walkLegacy_leafOk env m addr isUser isWrite h

/-- Every page the handler installs is a call of `tlb_set_page` that the
TLB invariant admits: a page-aligned address and a power-of-two size of at
least a page (`EventOk` of Exec.Tlb). -/
theorem handleMmuFault_eventOk (env : X86Env) (m : PhysMem) (addr : BitVec 64)
    (isWrite1 : BitVec 32) (mmuIdx : Fin NB_MMU_MODES) {c : TlbSetPage}
    (h : (handleMmuFault env m addr isWrite1 mmuIdx).installed = some c)
    (wps : List CPUWatchpoint) (sec : TlbSection) :
    EventOk (.setPage wps c.vaddr sec c.prot c.mmuIdx c.size) := by
  unfold handleMmuFault at h
  dsimp only at h
  split at h
  · -- paging off: the small page of `addr`
    exact doMapping_eventOk m env addr mmuIdx addr _ pageSize_4k rfl h
  · split at h
    · rename_i l hl
      have hleaf := walk_leafOk env m addr isWrite1 _ _ hl
      exact doMapping_eventOk _ env addr mmuIdx _ _ hleaf.1 hleaf.2 h
    · cases h
    · rw [doFault_installed] at h
      cases h
    · rw [doFault_installed] at h
      cases h

end QemuKvm.X86
