import QemuKvm.Exec.Dirty
import QemuKvm.Lib.HeapList

/-!
# Translation blocks and their lists (exec.c, exec-all.h)

exec.c keeps the translation blocks (TBs) in the array `tbs`, of which the
first `nb_tbs` are in use, and threads them on lists whose links live in
the TBs themselves:

* the chains of the hash table `tb_phys_hash`, through `phys_hash_next`,
  one per hash of the physical address of a TB's first instruction;
* the list of every physical page, from its `PageDesc`'s `first_tb`
  through `page_next[n]`, where a link carries in its low two bits which of
  the two pages of the next TB the page is (`PagePtr`);
* the circular list of the jumps to a TB, from its `jmp_first` through the
  `jmp_next[n]` of the jump slots chained to it, back to the TB itself
  tagged 2 (`JmpPtr`).

Beside the lists, the jump instruction of slot `n` of a TB is patched with
the address it jumps to (`tb_set_jmp_target` with direct jumps, as on
x86-64), and every CPU caches TBs by virtual pc in `tb_jmp_cache`.

The functions below are those of exec.c and exec-all.h that change these
structures: `tb_link_page` (with `tb_alloc_page`), the rest of
`tb_gen_code` around it (`tb_alloc`, `tb_flush`), `tb_add_jump`,
`tb_phys_invalidate` (with `tb_remove`, `tb_page_remove`, `tb_jmp_remove`,
`tb_reset_jump`), `tb_reset_jump_recursive`, and the store into
`tb_jmp_cache` at the end of `tb_find_slow`. Every `for (;;)` walk of a
list is a search of `HeapList` with a bound on its rounds; `none` stands
for a walk that would dereference `NULL` or not end. `tb_page_addr_t` is a
natural number and its `-1` is `tbPageAddrNone`.
-/

namespace QemuKvm.Exec

open Function HeapList

/-! ## Constants and hashes -/

def CODE_GEN_PHYS_HASH_BITS : ℕ := 15
def CODE_GEN_PHYS_HASH_SIZE : ℕ := 2 ^ CODE_GEN_PHYS_HASH_BITS
def TB_JMP_CACHE_BITS : ℕ := 12
def TB_JMP_CACHE_SIZE : ℕ := 2 ^ TB_JMP_CACHE_BITS
def TB_JMP_PAGE_BITS : ℕ := TB_JMP_CACHE_BITS / 2
def TB_JMP_PAGE_SIZE : ℕ := 2 ^ TB_JMP_PAGE_BITS
def TB_JMP_ADDR_MASK : ℕ := TB_JMP_PAGE_SIZE - 1
def TB_JMP_PAGE_MASK : ℕ := TB_JMP_CACHE_SIZE - TB_JMP_PAGE_SIZE
def CODE_GEN_ALIGN : ℕ := 16
def CODE_GEN_AVG_BLOCK_SIZE : ℕ := 128
def TCG_MAX_OP_SIZE : ℕ := 192
def OPC_BUF_SIZE : ℕ := 640

/-- `(tb_page_addr_t)-1`: no second page. -/
def tbPageAddrNone : ℕ := 2 ^ 64 - 1

/-- `tb_phys_hash_func`. -/
def tbPhysHashFunc (pc : ℕ) : ℕ := (pc >>> 2) &&& (CODE_GEN_PHYS_HASH_SIZE - 1)

/-- `tb_jmp_cache_hash_func`. -/
def tbJmpCacheHashFunc (pc : ℕ) : ℕ :=
  let tmp := pc ^^^ (pc >>> (TARGET_PAGE_BITS - TB_JMP_PAGE_BITS))
  ((tmp >>> (TARGET_PAGE_BITS - TB_JMP_PAGE_BITS)) &&& TB_JMP_PAGE_MASK) |||
    (tmp &&& TB_JMP_ADDR_MASK)

/-! ## Tagged pointers and the TB record -/

/-- A link of a page list, `(uintptr_t)tb | n`: the TB, and which of its
`page_next` links continues the list. -/
structure PagePtr where
  tb : ℕ
  n : Fin 2
  deriving DecidableEq, Repr

/-- A link of a jump list, `(uintptr_t)tb | n`: for `n` 0 or 1 the jump slot
`n` of `tb`, whose `jmp_next[n]` continues the list; for `n` 2 the TB the
list belongs to, whose `jmp_first` starts it. `jmp_next[2]` is `jmp_first`
in the layout of the struct, which the loops that follow the tag rely on. -/
inductive JmpPtr where
  | slot (tb : ℕ) (n : Fin 2)
  | first (tb : ℕ)
  deriving DecidableEq, Repr

/-- `(TranslationBlock *)((uintptr_t)p & ~3)`. -/
def JmpPtr.tb : JmpPtr → ℕ
  | .slot tb _ => tb
  | .first tb => tb

/-- The tag is 2. -/
def JmpPtr.isFirst : JmpPtr → Bool
  | .slot _ _ => false
  | .first _ => true

/-- The fields of `TranslationBlock` that the lists and jumps use.
`jmp_target n` is the address patched into the jump of slot `n`
(`tb_set_jmp_target`); a slot whose `tb_next_offset` is `0xffff` has no
jump. -/
structure TranslationBlock where
  pc : ℕ
  tcPtr : ℕ
  physHashNext : Option ℕ
  pageNext : Fin 2 → Option PagePtr
  pageAddr : Fin 2 → ℕ
  tbNextOffset : Fin 2 → ℕ
  jmpTarget : Fin 2 → ℕ
  jmpNext : Fin 2 → Option JmpPtr
  jmpFirst : JmpPtr

/-- The globals of exec.c that hold the TBs: `tbs` and `nb_tbs`,
`tb_phys_hash`, the `first_tb` of the `PageDesc` of every page index, the
`tb_jmp_cache` of every CPU, and the code buffer `code_gen_buffer` of
`code_gen_buffer_size` bytes with its fill pointer `code_gen_ptr`. -/
structure TbState where
  tbs : ℕ → TranslationBlock
  nbTbs : ℕ
  physHash : ℕ → Option ℕ
  firstTb : ℕ → Option PagePtr
  jmpCache : ℕ → ℕ → Option ℕ
  codeGenBuffer : ℕ
  codeGenBufferSize : ℕ
  codeGenPtr : ℕ

namespace TbState

variable (s : TbState)

/-- `code_gen_buffer_max_size`, as `code_gen_alloc` sets it. -/
def codeGenBufferMaxSize : ℕ := s.codeGenBufferSize - TCG_MAX_OP_SIZE * OPC_BUF_SIZE

/-- `code_gen_max_blocks`, as `code_gen_alloc` sets it. -/
def codeGenMaxBlocks : ℕ := s.codeGenBufferSize / CODE_GEN_AVG_BLOCK_SIZE

/-- A store into one TB. -/
def setTb (t : ℕ) (b : TranslationBlock) : TbState := { s with tbs := update s.tbs t b }

/-- The links of the hash chains. -/
def physLink (t : ℕ) : Option ℕ := (s.tbs t).physHashNext

/-- The links of the page lists. -/
def pageLink (x : PagePtr) : Option PagePtr := (s.tbs x.tb).pageNext x.n

/-- The links of the jump lists: `jmp_next[n]` of a slot, and `jmp_first`
of the TB the list closes on. -/
def jmpLink : JmpPtr → Option JmpPtr
  | .slot t n => (s.tbs t).jmpNext n
  | .first t => some (s.tbs t).jmpFirst

/-- `*ptb = p` at a location of a jump list. -/
def writeJmp : JmpPtr → JmpPtr → TbState
  | .slot t n, p => s.setTb t { s.tbs t with jmpNext := update (s.tbs t).jmpNext n (some p) }
  | .first t, p => s.setTb t { s.tbs t with jmpFirst := p }

/-- The hash chain of a TB: `tb_phys_hash_func(phys_pc)` with `phys_pc`
as `tb_phys_invalidate` computes it. -/
def physBucket (t : ℕ) : ℕ :=
  tbPhysHashFunc ((s.tbs t).pageAddr 0 + (s.tbs t).pc % TARGET_PAGE_SIZE)

end TbState

/-! ## The functions of exec.c -/

section Functions

variable (fuel : ℕ)

/-- `tb_alloc`: the next entry of `tbs`, or `NULL` when `tbs` or the code
buffer is full. -/
def tbAlloc (s : TbState) (pc : ℕ) : Option (TbState × ℕ) :=
  if s.codeGenMaxBlocks ≤ s.nbTbs ∨ s.codeGenBufferMaxSize ≤ s.codeGenPtr - s.codeGenBuffer then
    none
  else some ({ s.setTb s.nbTbs { s.tbs s.nbTbs with pc := pc } with nbTbs := s.nbTbs + 1 }, s.nbTbs)

/-- `tb_flush`; `none` is its `cpu_abort` on a code pointer past the
buffer. -/
def tbFlush (s : TbState) : Option TbState :=
  if s.codeGenBufferSize < s.codeGenPtr - s.codeGenBuffer then none
  else some { s with
    nbTbs := 0, jmpCache := fun _ _ => none, physHash := fun _ => none,
    firstTb := fun _ => none, codeGenPtr := s.codeGenBuffer }

/-- `tb_reset_jump`: the jump of slot `n` goes back to the code after it,
which leaves the TB. -/
def tbResetJump (s : TbState) (tb : ℕ) (n : Fin 2) : TbState :=
  s.setTb tb { s.tbs tb with
    jmpTarget := update (s.tbs tb).jmpTarget n ((s.tbs tb).tcPtr + (s.tbs tb).tbNextOffset n) }

/-- `tb_alloc_page`: `tb` goes to the head of the list of the page. -/
def tbAllocPage (s : TbState) (tb : ℕ) (n : Fin 2) (pageAddr : ℕ) : TbState :=
  let p := pageAddr >>> TARGET_PAGE_BITS
  let s := s.setTb tb { s.tbs tb with
    pageAddr := update (s.tbs tb).pageAddr n pageAddr,
    pageNext := update (s.tbs tb).pageNext n (s.firstTb p) }
  { s with firstTb := update s.firstTb p (some ⟨tb, n⟩) }

/-- `tb_link_page`: `tb` goes to the head of its hash chain and of the lists
of its pages, gets an empty list of jumps to it, and its jumps go back to
their exits. -/
def tbLinkPage (s : TbState) (tb physPc physPage2 : ℕ) : TbState :=
  let h := tbPhysHashFunc physPc
  let s := s.setTb tb { s.tbs tb with physHashNext := s.physHash h }
  let s := { s with physHash := update s.physHash h (some tb) }
  let s := tbAllocPage s tb 0 (physPc - physPc % TARGET_PAGE_SIZE)
  let s := if physPage2 ≠ tbPageAddrNone then tbAllocPage s tb 1 physPage2
    else s.setTb tb { s.tbs tb with pageAddr := update (s.tbs tb).pageAddr 1 tbPageAddrNone }
  let s := s.setTb tb { s.tbs tb with jmpFirst := .first tb, jmpNext := fun _ => none }
  let s := if (s.tbs tb).tbNextOffset 0 ≠ 0xffff then tbResetJump s tb 0 else s
  if (s.tbs tb).tbNextOffset 1 ≠ 0xffff then tbResetJump s tb 1 else s

/-- `tb_gen_code` around the code generator, with what it gets from
`get_page_addr_code` and `cpu_gen_code` as inputs: the physical address of
`pc`, that of the TB's second page or `-1`, the size of the generated code,
and the `tb_next_offset` of its two jump slots. -/
def tbGenCode (s : TbState) (pc physPc physPage2 codeGenSize : ℕ) (tbNextOffset : Fin 2 → ℕ) :
    Option (TbState × ℕ) := do
  let (s, tb) ← match tbAlloc s pc with
    | some r => some r
    | none => do
      let s ← tbFlush s
      tbAlloc s pc
  let s := s.setTb tb { s.tbs tb with tcPtr := s.codeGenPtr, tbNextOffset := tbNextOffset }
  let s := { s with codeGenPtr := alignUp CODE_GEN_ALIGN (s.codeGenPtr + codeGenSize) }
  some (tbLinkPage s tb physPc physPage2, tb)

/-- `tb_add_jump`: chain slot `n` of `tb` to `tbNext`, unless it is chained
already. -/
def tbAddJump (s : TbState) (tb : ℕ) (n : Fin 2) (tbNext : ℕ) : TbState :=
  if (s.tbs tb).jmpNext n = none then
    let s := s.setTb tb { s.tbs tb with
      jmpTarget := update (s.tbs tb).jmpTarget n (s.tbs tbNext).tcPtr,
      jmpNext := update (s.tbs tb).jmpNext n (some (s.tbs tbNext).jmpFirst) }
    s.setTb tbNext { s.tbs tbNext with jmpFirst := .slot tb n }
  else s

/-- `tb_remove` on the chain `h` of `tb_phys_hash`: the link to `tb` is
pointed at `tb->phys_hash_next`. The location of a link is `none` for the
chain's head. -/
def tbPhysHashRemove (s : TbState) (h tb : ℕ) : Option TbState := do
  let (ℓ, _) ← findLink s.physLink (· = tb) some fuel none (s.physHash h)
  match ℓ with
  | none => some { s with physHash := update s.physHash h (s.tbs tb).physHashNext }
  | some b => some (s.setTb b { s.tbs b with physHashNext := (s.tbs tb).physHashNext })

/-- `tb_page_remove` on the list of page `p`: the link to the first node of
`tb` is pointed at that node's `page_next`. -/
def tbPageRemove (s : TbState) (p tb : ℕ) : Option TbState := do
  let (ℓ, x) ← findLink s.pageLink (·.tb = tb) some fuel none (s.firstTb p)
  let v := (s.tbs x.tb).pageNext x.n
  match ℓ with
  | none => some { s with firstTb := update s.firstTb p v }
  | some y => some (s.setTb y.tb { s.tbs y.tb with pageNext := update (s.tbs y.tb).pageNext y.n v })

/-- `tb_jmp_remove`: slot `n` of `tb` leaves the circular list it is in,
searched from the slot itself. -/
def tbJmpRemove (s : TbState) (tb : ℕ) (n : Fin 2) : Option TbState :=
  match (s.tbs tb).jmpNext n with
  | none => some s
  | some p => do
    let (ℓ, _) ← findLink s.jmpLink (· = .slot tb n) id fuel (.slot tb n) (some p)
    let s := s.writeJmp ℓ p
    some (s.setTb tb { s.tbs tb with jmpNext := update (s.tbs tb).jmpNext n none })

/-- The last loop of `tb_phys_invalidate`: from `p` to the end of the list,
every slot is reset and unchained. -/
def tbResetJumps : ℕ → TbState → JmpPtr → Option TbState
  | 0, _, _ => none
  | _ + 1, s, .first _ => some s
  | fuel + 1, s, .slot t1 n1 =>
    match (s.tbs t1).jmpNext n1 with
    | none => none
    | some t2 =>
      let s := tbResetJump s t1 n1
      tbResetJumps fuel (s.setTb t1 { s.tbs t1 with jmpNext := update (s.tbs t1).jmpNext n1 none }) t2

/-- `tb_phys_invalidate`: `tb` leaves its hash chain, the lists of its
pages other than `pageAddr`, the `tb_jmp_cache` of every CPU and the jump
lists, and every jump to it is reset. -/
def tbPhysInvalidate (s : TbState) (tb pageAddr : ℕ) : Option TbState := do
  let t := s.tbs tb
  let physPc := t.pageAddr 0 + t.pc % TARGET_PAGE_SIZE
  let s ← tbPhysHashRemove fuel s (tbPhysHashFunc physPc) tb
  let s ← if t.pageAddr 0 ≠ pageAddr then tbPageRemove fuel s (t.pageAddr 0 >>> TARGET_PAGE_BITS) tb
    else some s
  let s ← if t.pageAddr 1 ≠ tbPageAddrNone ∧ t.pageAddr 1 ≠ pageAddr then
      tbPageRemove fuel s (t.pageAddr 1 >>> TARGET_PAGE_BITS) tb
    else some s
  let h := tbJmpCacheHashFunc t.pc
  let s := { s with
    jmpCache := fun c => if s.jmpCache c h = some tb then update (s.jmpCache c) h none
      else s.jmpCache c }
  let s ← tbJmpRemove fuel s tb 0
  let s ← tbJmpRemove fuel s tb 1
  let s ← tbResetJumps fuel s (s.tbs tb).jmpFirst
  some (s.setTb tb { s.tbs tb with jmpFirst := .first tb })

mutual

/-- `tb_reset_jump_recursive2`: if slot `n` of `tb` is chained, find the TB
it jumps to at the end of its list, take the slot out of that list, reset
its jump, and go on from that TB. `walk` bounds the loops; `fuel` the depth
of the recursion. -/
def tbResetJumpRecursive2 (walk : ℕ) : ℕ → TbState → ℕ → Fin 2 → Option TbState
  | 0, _, _, _ => none
  | fuel + 1, s, tb, n =>
    match (s.tbs tb).jmpNext n with
    | none => some s
    | some p => do
      let hd ← findNode s.jmpLink JmpPtr.isFirst walk (some p)
      let tbNext := hd.tb
      let (ℓ, _) ← findLink s.jmpLink (· = .slot tb n) id walk (.first tbNext)
        (some (s.tbs tbNext).jmpFirst)
      let s := s.writeJmp ℓ p
      let s := s.setTb tb { s.tbs tb with jmpNext := update (s.tbs tb).jmpNext n none }
      tbResetJumpRecursive walk fuel (tbResetJump s tb n) tbNext

/-- `tb_reset_jump_recursive`: both slots of `tb`. -/
def tbResetJumpRecursive (walk : ℕ) : ℕ → TbState → ℕ → Option TbState
  | 0, _, _ => none
  | fuel + 1, s, tb => do
    let s ← tbResetJumpRecursive2 walk fuel s tb 0
    tbResetJumpRecursive2 walk fuel s tb 1

end

/-- The end of `tb_find_slow`: the CPU caches the TB it found by its pc. -/
def tbJmpCacheSet (s : TbState) (cpu tb : ℕ) : TbState :=
  { s with
    jmpCache := update s.jmpCache cpu
      (update (s.jmpCache cpu) (tbJmpCacheHashFunc (s.tbs tb).pc) (some tb)) }

end Functions

/-! ## The parts of `tb_phys_invalidate` and `tb_link_page`

The proofs take these two functions a part at a time; each part is the
source's code between two of its statements. -/

/-- The part of `tb_phys_invalidate` that takes `tb`, whose fields were
`t`, out of the lists of its pages other than `pageAddr`. -/
def tbPageUnlink (fuel : ℕ) (s : TbState) (t : TranslationBlock) (tb pageAddr : ℕ) :
    Option TbState := do
  let s ← if t.pageAddr 0 ≠ pageAddr then tbPageRemove fuel s (t.pageAddr 0 >>> TARGET_PAGE_BITS) tb
    else some s
  if t.pageAddr 1 ≠ tbPageAddrNone ∧ t.pageAddr 1 ≠ pageAddr then
    tbPageRemove fuel s (t.pageAddr 1 >>> TARGET_PAGE_BITS) tb
  else some s

/-- The part of `tb_phys_invalidate` that takes `tb` out of the jump lists
and resets the jumps to it. -/
def tbJmpUnlink (fuel : ℕ) (s : TbState) (tb : ℕ) : Option TbState := do
  let s ← tbJmpRemove fuel s tb 0
  let s ← tbJmpRemove fuel s tb 1
  let s ← tbResetJumps fuel s (s.tbs tb).jmpFirst
  some (s.setTb tb { s.tbs tb with jmpFirst := .first tb })

/-- The part of `tb_link_page` that pushes `tb` on the chain of `phys_pc`. -/
def tbLinkPhys (s : TbState) (tb physPc : ℕ) : TbState :=
  let h := tbPhysHashFunc physPc
  let s := s.setTb tb { s.tbs tb with physHashNext := s.physHash h }
  { s with physHash := update s.physHash h (some tb) }

/-- The part of `tb_link_page` that adds `tb` to the lists of its pages. -/
def tbLinkPages (s : TbState) (tb physPc physPage2 : ℕ) : TbState :=
  let s := tbAllocPage s tb 0 (physPc - physPc % TARGET_PAGE_SIZE)
  if physPage2 ≠ tbPageAddrNone then tbAllocPage s tb 1 physPage2
  else s.setTb tb { s.tbs tb with pageAddr := update (s.tbs tb).pageAddr 1 tbPageAddrNone }

/-- The part of `tb_link_page` that empties the list of jumps to `tb` and
resets its own jumps. -/
def tbLinkJumps (s : TbState) (tb : ℕ) : TbState :=
  let s := s.setTb tb { s.tbs tb with jmpFirst := .first tb, jmpNext := fun _ => none }
  let s := if (s.tbs tb).tbNextOffset 0 ≠ 0xffff then tbResetJump s tb 0 else s
  if (s.tbs tb).tbNextOffset 1 ≠ 0xffff then tbResetJump s tb 1 else s

end QemuKvm.Exec
