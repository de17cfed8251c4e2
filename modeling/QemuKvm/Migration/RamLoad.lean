import QemuKvm.Migration.RamXbzrle

/-!
# `ram_load` on any incoming stream (arch_init.c)

`Migration.Ram` follows `ram_load` record by record on the stream the
sender writes. Here it reads bytes, as the destination does: each round
reads a be64 header whose low bits are flags and whose high bits are the
page offset, checks the block list of `RAM_SAVE_FLAG_MEM_SIZE`, then writes
the page the flags describe, and stops on an error of the stream, a
failed lookup or `RAM_SAVE_FLAG_EOS`. A read past the end of the data gives
zeros and sets the stream's error (`-EIO`), so every round either reads its
8-byte header from the data or is the last: `ramLoad_isSome` says that
`ram_load` ends on every stream, when the destination's blocks are not
empty.

`Sound` is what every state keeps: the pages written are at page offsets
of the destination's blocks, the block the header names or the last one
named (`ramLoad_sound`). Nothing keeps the offset below the block's length:
`host_from_stream_offset` adds it to the block's host memory unchecked,
and `ramLoad_compress_anywhere` writes a page past the end of a block.

At the end of the data `qemu_get_buffer` returns fewer bytes and the rest
of the name buffer `id` keeps what the stack held; the model reads the
name from the bytes there are.
-/

namespace QemuKvm.Migration.Incoming

open QemuKvm.Exec QemuKvm.Migration

/-! ## The page header -/

def RAM_SAVE_FLAG_COMPRESS : ℕ := 0x02
def RAM_SAVE_FLAG_MEM_SIZE : ℕ := 0x04
def RAM_SAVE_FLAG_PAGE : ℕ := 0x08
def RAM_SAVE_FLAG_EOS : ℕ := 0x10
def RAM_SAVE_FLAG_CONTINUE : ℕ := 0x20
def RAM_SAVE_FLAG_XBZRLE : ℕ := 0x40

def EINVAL : ℤ := 22
def EIO : ℤ := 5

/-! ## Reading the stream -/

/-- The reading end of the `QEMUFile`: the bytes not read yet, and whether
`last_error` is set. -/
structure InFile where
  rest : List UInt8
  error : Bool
deriving DecidableEq, Repr

/-- `n` bytes read: past the end of the data `qemu_fill_buffer` gets 0 from
the socket and sets `-EIO`. -/
def InFile.skip (f : InFile) (n : ℕ) : InFile :=
  ⟨f.rest.drop n, f.error || decide (f.rest.length < n)⟩

/-- `qemu_get_byte`. -/
def InFile.getByte (f : InFile) : ℕ × InFile := ((qemuGetByte f.rest).1, f.skip 1)

/-- `qemu_get_be16`. -/
def InFile.getBe16 (f : InFile) : ℕ × InFile := ((qemuGetBe16 f.rest).1, f.skip 2)

/-- `qemu_get_be64`. -/
def InFile.getBe64 (f : InFile) : ℕ × InFile := ((qemuGetBe64 f.rest).1, f.skip 8)

/-- `qemu_get_buffer`. -/
def InFile.getBuffer (f : InFile) (size : ℕ) : List UInt8 × InFile :=
  ((qemuGetBuffer f.rest size).1, f.skip (if size < 2 ^ 31 then size else 0))

/-! ## Blocks by name -/

/-- The bytes of `block->idstr`. -/
def idstrBytes (blk : RAMBlock) : List UInt8 := blk.idstr.toList.flatMap String.utf8EncodeChar

/-- `!strncmp(id, block->idstr, sizeof(id))`, with `id[len] = 0`. -/
def idMatches (id : List UInt8) (blk : RAMBlock) : Bool :=
  id.takeWhile (· ≠ 0) == (idstrBytes blk).takeWhile (· ≠ 0)

/-- `host_from_stream_offset`: the block the page is in (the host pointer is
its host memory plus the offset), the static `block` after the call, and
the stream. -/
def hostFromStreamOffset (blocks : List RAMBlock) (block : Option RAMBlock) (flags : ℕ)
    (f : InFile) : Option RAMBlock × Option RAMBlock × InFile :=
  if flags &&& RAM_SAVE_FLAG_CONTINUE ≠ 0 then (block, block, f)
  else
    let (len, f) := f.getByte
    let (id, f) := f.getBuffer len
    -- `QLIST_FOREACH` leaves the static `block` at the match, or NULL
    let found := blocks.find? (idMatches id)
    (found, found, f)

/-! ## `ram_load` -/

/-- What `ram_load` works on: the destination's RAM and the static `block`,
the stream, and the pages written so far, as block and offset in it. -/
structure Loading extends LoadState where
  file : InFile
  written : List (RAMBlock × ℕ)

/-- The `while (total_ram_bytes)` loop of `RAM_SAVE_FLAG_MEM_SIZE`: `none`
when the block list is accepted, `-EINVAL` otherwise. `total_ram_bytes` is
a `ram_addr_t`, so the subtraction wraps. -/
def ramBlockListLoop (blocks : List RAMBlock) : ℕ → ℕ → InFile → Option (Option ℤ × InFile)
  | 0, _, _ => none
  | fuel + 1, total, f =>
    if total = 0 then some (none, f)
    else
      let (len, f) := f.getByte
      let (id, f) := f.getBuffer len
      let (length, f) := f.getBe64
      match blocks.find? (idMatches id) with
      | none => some (some (-EINVAL), f)
      | some blk =>
        if blk.length ≠ length then some (some (-EINVAL), f)
        else ramBlockListLoop blocks fuel ((total + 2 ^ 64 - length) % 2 ^ 64) f

/-- The page part of one round of `ram_load`: the state after it, and the
return value if it returns (or jumps to `done`). `load_xbzrle` is inlined:
its header checks, then the decode of `loadXbzrle`. -/
def loadPage (blocks : List RAMBlock) (xbzrle : Bool) (flags addr : ℕ) (s : Loading) :
    Option ℤ × Loading :=
  if flags &&& RAM_SAVE_FLAG_COMPRESS ≠ 0 then
    match hostFromStreamOffset blocks s.block flags s.file with
    | (none, block, file) => (some (-EINVAL), { s with block := block, file := file })
    | (some blk, block, file) =>
      let (ch, file) := file.getByte
      (none, { mem := fillPage s.mem (blk.offset + addr) ch.toUInt8, block := block, file := file,
               written := s.written ++ [(blk, addr)] })
  else if flags &&& RAM_SAVE_FLAG_PAGE ≠ 0 then
    match hostFromStreamOffset blocks s.block flags s.file with
    | (none, block, file) => (some (-EINVAL), { s with block := block, file := file })
    | (some blk, block, file) =>
      let (data, file) := file.getBuffer TARGET_PAGE_SIZE
      (none, { mem := writeBytes s.mem (blk.offset + addr) data, block := block, file := file,
               written := s.written ++ [(blk, addr)] })
  else if flags &&& RAM_SAVE_FLAG_XBZRLE ≠ 0 then
    if !xbzrle then (some (-EINVAL), s)
    else
      match hostFromStreamOffset blocks s.block flags s.file with
      | (none, block, file) => (some (-EINVAL), { s with block := block, file := file })
      | (some blk, block, file) =>
        let (xhFlags, file) := file.getByte
        let (xhLen, file) := file.getBe16
        if xhFlags ≠ ENCODING_FLAG_XBZRLE.toNat ∨ xhLen > TARGET_PAGE_SIZE then
          (some (-EINVAL), { s with block := block, file := file })
        else
          let (data, file) := file.getBuffer xhLen
          let s' : Loading :=
            { s with block := block, file := file, written := s.written ++ [(blk, addr)] }
          match loadXbzrle s.mem (blk.offset + addr) xhFlags.toUInt8 xhLen data with
          | none => (some (-EINVAL), s')
          | some mem => (none, { s' with mem := mem })
  else (none, s)

/-- The `do ... while (!(flags & RAM_SAVE_FLAG_EOS))` loop of `ram_load`. -/
def ramLoadLoop (blocks : List RAMBlock) (xbzrle : Bool) : ℕ → Loading → Option (ℤ × Loading)
  | 0, _ => none
  | fuel + 1, s =>
    let (hdr, file) := s.file.getBe64
    -- `addr & ~TARGET_PAGE_MASK` and `addr & TARGET_PAGE_MASK`
    let flags := hdr % TARGET_PAGE_SIZE
    let addr := hdr - flags
    let list :=
      if flags &&& RAM_SAVE_FLAG_MEM_SIZE ≠ 0 then
        ramBlockListLoop blocks (file.rest.length + 1) addr file
      else some (none, file)
    match list with
    | none => none
    | some (some ret, file) => some (ret, { s with file := file })
    | some (none, file) =>
      match loadPage blocks xbzrle flags addr { s with file := file } with
      | (some ret, s) => some (ret, s)
      | (none, s) =>
        if s.file.error then some (- EIO, s)
        else if flags &&& RAM_SAVE_FLAG_EOS ≠ 0 then some (0, s)
        else ramLoadLoop blocks xbzrle fuel s

/-- `ram_load(f, opaque, version_id)`; `xbzrle` is `migrate_use_xbzrle()`. -/
def ramLoad (blocks : List RAMBlock) (xbzrle : Bool) (versionId : ℤ) (s : Loading) :
    Option (ℤ × Loading) :=
  if versionId < 4 ∨ versionId > 4 then some (-EINVAL, s)
  else ramLoadLoop blocks xbzrle (s.file.rest.length + 1) s

/-! ## Reading on -/

section Reading

/-- `f'` is `f` read further: no more bytes are left, and an error stays. -/
structure InFile.Later (f f' : InFile) : Prop where
  length_le : f'.rest.length ≤ f.rest.length
  error : f.error = true → f'.error = true

theorem InFile.Later.refl (f : InFile) : f.Later f := ⟨le_rfl, id⟩

theorem InFile.Later.trans {f g h : InFile} (hfg : f.Later g) (hgh : g.Later h) : f.Later h :=
  ⟨hgh.length_le.trans hfg.length_le, hgh.error ∘ hfg.error⟩

@[simp] theorem InFile.skip_rest (f : InFile) (n : ℕ) : (f.skip n).rest = f.rest.drop n := rfl

theorem InFile.later_skip (f : InFile) (n : ℕ) : f.Later (f.skip n) :=
  ⟨by simp, fun h => by simp [InFile.skip, h]⟩

/-- A read past the end sets the error. -/
theorem InFile.skip_error_of_lt {f : InFile} {n : ℕ} (h : f.rest.length < n) :
    (f.skip n).error = true := by
  simp [InFile.skip, h]

theorem InFile.later_getByte (f : InFile) : f.Later f.getByte.2 := f.later_skip 1
theorem InFile.later_getBe16 (f : InFile) : f.Later f.getBe16.2 := f.later_skip 2
theorem InFile.later_getBe64 (f : InFile) : f.Later f.getBe64.2 := f.later_skip 8
theorem InFile.later_getBuffer (f : InFile) (n : ℕ) : f.Later (f.getBuffer n).2 := f.later_skip _

/-- A byte read from a stream that has one. -/
theorem InFile.getByte_cons (b : UInt8) (r : List UInt8) (e : Bool) :
    InFile.getByte ⟨b :: r, e⟩ = (b.toNat, ⟨r, e⟩) := by
  simp [InFile.getByte, InFile.skip, qemuGetByte_cons]

/-- At the end of the data a read gives zeros and sets the error. -/
theorem InFile.getByte_of_nil {f : InFile} (h : f.rest = []) : f.getByte = (0, ⟨[], true⟩) := by
  obtain ⟨r, e⟩ := f
  subst h
  simp [InFile.getByte, InFile.skip, qemuGetByte]

theorem InFile.getBe64_of_nil {f : InFile} (h : f.rest = []) : f.getBe64 = (0, ⟨[], true⟩) := by
  obtain ⟨r, e⟩ := f
  subst h
  simp [InFile.getBe64, InFile.skip, qemuGetBe64, qemuGetBe32, qemuGetByte]

theorem InFile.getBuffer_of_nil {f : InFile} (h : f.rest = []) (n : ℕ) :
    (f.getBuffer n).1 = [] ∧ (f.getBuffer n).2.rest = [] := by
  simp [InFile.getBuffer, InFile.skip, qemuGetBuffer, h]

theorem InFile.getBe64_put {v : ℕ} (hv : v < 2 ^ 64) (r : List UInt8) (e : Bool) :
    InFile.getBe64 ⟨qemuPutBe64 v ++ r, e⟩ = (v, ⟨r, e⟩) := by
  have hlen : (qemuPutBe64 v).length = 8 := rfl
  simp [InFile.getBe64, InFile.skip, qemuGetBe64_put v hv, hlen, List.drop_left']

theorem InFile.getBuffer_append {buf : List UInt8} (hbuf : buf.length < 2 ^ 31) (r : List UInt8)
    (e : Bool) : InFile.getBuffer ⟨buf ++ r, e⟩ buf.length = (buf, ⟨r, e⟩) := by
  rw [InFile.getBuffer, qemuGetBuffer_put buf r hbuf, if_pos hbuf]
  simp [InFile.skip]

end Reading

/-! ## Finding the block -/

section Host

variable {blocks : List RAMBlock}

/-- The block found is the static `block` after the call. -/
theorem hostFromStreamOffset_block (block : Option RAMBlock) (flags : ℕ) (f : InFile) :
    (hostFromStreamOffset blocks block flags f).2.1 = (hostFromStreamOffset blocks block flags f).1 := by
  unfold hostFromStreamOffset
  split_ifs <;> rfl

theorem later_hostFromStreamOffset (block : Option RAMBlock) (flags : ℕ) (f : InFile) :
    f.Later (hostFromStreamOffset blocks block flags f).2.2 := by
  unfold hostFromStreamOffset
  split_ifs
  · exact .refl f
  · exact f.later_getByte.trans (InFile.later_getBuffer _ _)

/-- The block is the last one found, or the one the stream names. -/
theorem hostFromStreamOffset_mem {block : Option RAMBlock} (hb : ∀ b, block = some b → b ∈ blocks)
    (flags : ℕ) (f : InFile) : ∀ b, (hostFromStreamOffset blocks block flags f).1 = some b → b ∈ blocks := by
  unfold hostFromStreamOffset
  split_ifs
  · exact hb
  · intro b h
    exact List.mem_of_find?_eq_some h

/-- A header that names its block: the block of that name, whatever the offset. -/
theorem hostFromStreamOffset_named {flags : ℕ} (hc : flags &&& RAM_SAVE_FLAG_CONTINUE = 0)
    (block : Option RAMBlock) {name : List UInt8} (hname : name.length < 256) (rest : List UInt8)
    (e : Bool) :
    hostFromStreamOffset blocks block flags ⟨name.length.toUInt8 :: (name ++ rest), e⟩ =
      (blocks.find? (idMatches name), blocks.find? (idMatches name), ⟨rest, e⟩) := by
  have hlen : name.length.toUInt8.toNat = name.length := by
    rw [toNat_toUInt8, Nat.mod_eq_of_lt hname]
  rw [hostFromStreamOffset, if_neg (by rw [hc]; decide), InFile.getByte_cons, hlen]
  dsimp only
  rw [InFile.getBuffer_append (by omega)]

end Host

/-! ## The block list -/

section BlockList

variable {blocks : List RAMBlock}

theorem later_ramBlockListLoop :
    ∀ fuel total f r, ramBlockListLoop blocks fuel total f = some r → f.Later r.2 := by
  intro fuel
  induction fuel with
  | zero => intro total f r h; cases h
  | succ fuel ih =>
    intro total f r h
    rw [ramBlockListLoop] at h
    split_ifs at h with htot
    · cases h
      exact .refl f
    have h3 : f.Later ((f.getByte.2.getBuffer f.getByte.1).2.getBe64.2) :=
      f.later_getByte.trans ((InFile.later_getBuffer _ _).trans (InFile.later_getBe64 _))
    dsimp only at h
    split at h
    · cases h
      exact h3
    · split_ifs at h
      · cases h
        exact h3
      · exact h3.trans (ih _ _ _ h)

/-- With blocks of positive length the loop ends: a round reads at least a
byte, and at the end of the data it reads the empty name and the length 0,
which no block has. -/
theorem ramBlockListLoop_isSome (hpos : ∀ b ∈ blocks, 0 < b.length) :
    ∀ fuel total f, f.rest.length < fuel → (ramBlockListLoop blocks fuel total f).isSome := by
  intro fuel
  induction fuel with
  | zero => intro total f hf; omega
  | succ fuel ih =>
    intro total f hf
    rw [ramBlockListLoop]
    split_ifs with htot
    · rfl
    dsimp only
    obtain ⟨rest, e⟩ := f
    cases rest with
    | nil =>
      -- at the end of the data
      have hbuf := InFile.getBuffer_of_nil (f := ⟨[], true⟩) rfl 0
      rw [InFile.getByte_of_nil rfl]
      dsimp only
      rw [hbuf.1, InFile.getBe64_of_nil hbuf.2]
      dsimp only
      split
      · rfl
      · rename_i blk hblk
        rw [if_pos (Nat.pos_iff_ne_zero.1 (hpos blk (List.mem_of_find?_eq_some hblk)))]
        rfl
    | cons b r =>
      have hlater : InFile.Later ⟨r, e⟩ (((InFile.getBuffer ⟨r, e⟩ b.toNat).2).getBe64.2) :=
        (InFile.later_getBuffer _ _).trans (InFile.later_getBe64 _)
      rw [InFile.getByte_cons]
      dsimp only
      split
      · rfl
      · split_ifs
        · rfl
        · refine ih _ _ ?_
          have := hlater.length_le
          dsimp only at this
          simp only [List.length_cons] at hf
          omega

/-- The block-list stage of a round, as `ram_load` runs it: it ends. -/
theorem blockListStage_ne_none (hpos : ∀ b ∈ blocks, 0 < b.length) (c : Prop) [Decidable c]
    (total : ℕ) (f : InFile) :
    (if c then ramBlockListLoop blocks (f.rest.length + 1) total f else some (none, f)) ≠ none := by
  split_ifs
  · exact Option.isSome_iff_ne_none.1 (ramBlockListLoop_isSome hpos _ _ _ (Nat.lt_succ_self _))
  · exact Option.some_ne_none _

theorem later_blockListStage {c : Prop} [Decidable c] {total fuel : ℕ} {f f' : InFile}
    {o : Option ℤ} (h : (if c then ramBlockListLoop blocks fuel total f else some (none, f)) = some (o, f')) :
    f.Later f' := by
  split_ifs at h
  · exact later_ramBlockListLoop _ _ _ _ h
  · cases h
    exact .refl f

end BlockList

/-! ## One page -/

section Page

variable {blocks : List RAMBlock}

/-- What every state of `ram_load` has: the static `block` is one of the
destination's blocks, and every page written is at a page offset in one of
them. -/
structure Sound (blocks : List RAMBlock) (s : Loading) : Prop where
  block : ∀ b, s.block = some b → b ∈ blocks
  written : ∀ w ∈ s.written, w.1 ∈ blocks ∧ TARGET_PAGE_SIZE ∣ w.2

theorem hostFromStreamOffset_sound {s : Loading} (hs : Sound blocks s) {flags : ℕ}
    {host block : Option RAMBlock} {file : InFile}
    (hh : hostFromStreamOffset blocks s.block flags s.file = (host, block, file)) :
    block = host ∧ ∀ b, host = some b → b ∈ blocks := by
  have h1 := @hostFromStreamOffset_block blocks s.block flags s.file
  have h2 := hostFromStreamOffset_mem hs.block flags s.file
  rw [hh] at h1 h2
  exact ⟨h1, h2⟩

/-- A step that keeps the static `block` among the blocks and writes at
page offsets of blocks keeps the state sound. -/
theorem Sound.write {s : Loading} (hs : Sound blocks s) (mem : ℕ → UInt8)
    {block : Option RAMBlock} (hb : ∀ b, block = some b → b ∈ blocks) (file : InFile)
    {new : List (RAMBlock × ℕ)} (hnew : ∀ w ∈ new, w.1 ∈ blocks ∧ TARGET_PAGE_SIZE ∣ w.2) :
    Sound blocks { mem := mem, block := block, file := file, written := s.written ++ new } := by
  refine ⟨hb, fun w hw => ?_⟩
  rcases List.mem_append.1 hw with hw | hw
  · exact hs.written w hw
  · exact hnew w hw

theorem Sound.file {s : Loading} (hs : Sound blocks s) (f : InFile) :
    Sound blocks { s with file := f } :=
  ⟨hs.block, hs.written⟩

theorem loadPage_sound {s : Loading} (hs : Sound blocks s) {addr : ℕ} (ha : TARGET_PAGE_SIZE ∣ addr)
    (xbzrle : Bool) (flags : ℕ) : Sound blocks (loadPage blocks xbzrle flags addr s).2 := by
  -- a page is written at the offset of the header, in the block found
  have hpage : ∀ blk, blk ∈ blocks → ∀ w ∈ [(blk, addr)], w.1 ∈ blocks ∧ TARGET_PAGE_SIZE ∣ w.2 := by
    intro blk hblk w hw
    rw [List.mem_singleton.1 hw]
    exact ⟨hblk, ha⟩
  have hnone : ∀ (block : Option RAMBlock) (file : InFile), (∀ b, block = some b → b ∈ blocks) →
      Sound blocks { s with block := block, file := file } := by
    intro block file hb
    have h := @Sound.write blocks s hs s.mem block hb file [] (by simp)
    rwa [List.append_nil] at h
  unfold loadPage
  split_ifs with hc hp hx hxb
  · -- `RAM_SAVE_FLAG_COMPRESS`
    rcases hh : hostFromStreamOffset blocks s.block flags s.file with ⟨_ | blk, block, file⟩
    all_goals obtain ⟨rfl, hb⟩ := hostFromStreamOffset_sound hs hh
    · exact hnone _ _ hb
    · exact hs.write _ hb _ (hpage blk (hb blk rfl))
  · -- `RAM_SAVE_FLAG_PAGE`
    rcases hh : hostFromStreamOffset blocks s.block flags s.file with ⟨_ | blk, block, file⟩
    all_goals obtain ⟨rfl, hb⟩ := hostFromStreamOffset_sound hs hh
    · exact hnone _ _ hb
    · exact hs.write _ hb _ (hpage blk (hb blk rfl))
  · exact hs
  · -- `RAM_SAVE_FLAG_XBZRLE`
    rcases hh : hostFromStreamOffset blocks s.block flags s.file with ⟨_ | blk, block, file⟩
    all_goals obtain ⟨rfl, hb⟩ := hostFromStreamOffset_sound hs hh
    · exact hnone _ _ hb
    dsimp only
    split_ifs
    · exact hnone _ _ hb
    split
    · exact hs.write _ hb _ (hpage blk (hb blk rfl))
    · exact hs.write _ hb _ (hpage blk (hb blk rfl))
  · exact hs

theorem later_loadPage (s : Loading) (xbzrle : Bool) (flags addr : ℕ) :
    s.file.Later (loadPage blocks xbzrle flags addr s).2.file := by
  have hhost : ∀ {host block : Option RAMBlock} {file : InFile},
      hostFromStreamOffset blocks s.block flags s.file = (host, block, file) → s.file.Later file := by
    intro host block file hh
    have h := @later_hostFromStreamOffset blocks s.block flags s.file
    rwa [hh] at h
  unfold loadPage
  split_ifs with hc hp hx hxb
  · rcases hh : hostFromStreamOffset blocks s.block flags s.file with ⟨_ | blk, block, file⟩
    · exact hhost hh
    · exact (hhost hh).trans (InFile.later_getByte _)
  · rcases hh : hostFromStreamOffset blocks s.block flags s.file with ⟨_ | blk, block, file⟩
    · exact hhost hh
    · exact (hhost hh).trans (InFile.later_getBuffer _ _)
  · exact .refl _
  · rcases hh : hostFromStreamOffset blocks s.block flags s.file with ⟨_ | blk, block, file⟩
    · exact hhost hh
    have hhdr := (hhost hh).trans ((InFile.later_getByte _).trans (InFile.later_getBe16 _))
    dsimp only
    split_ifs
    · exact hhdr
    split
    · exact hhdr.trans (InFile.later_getBuffer _ _)
    · exact hhdr.trans (InFile.later_getBuffer _ _)
  · exact .refl _

/-- A `RAM_SAVE_FLAG_COMPRESS` page whose header names its block: the page
at the offset in that block is filled with the byte. -/
theorem loadPage_compress_named {s : Loading} {name : List UInt8} (hname : name.length < 256)
    {blk : RAMBlock} (hfind : blocks.find? (idMatches name) = some blk) (xbzrle : Bool) (addr : ℕ)
    {ch : UInt8} {rest : List UInt8} {e : Bool}
    (hf : s.file = ⟨name.length.toUInt8 :: (name ++ ch :: rest), e⟩) :
    loadPage blocks xbzrle RAM_SAVE_FLAG_COMPRESS addr s =
      (none, { mem := fillPage s.mem (blk.offset + addr) ch, block := some blk, file := ⟨rest, e⟩,
               written := s.written ++ [(blk, addr)] }) := by
  rw [loadPage, if_pos (by decide), hf, hostFromStreamOffset_named (by decide) _ hname, hfind]
  dsimp only
  rw [InFile.getByte_cons, Nat.toUInt8_eq, UInt8.ofNat_toNat]

/-- A header with no page flag reads and writes nothing more. -/
theorem loadPage_eos (xbzrle : Bool) (addr : ℕ) (s : Loading) :
    loadPage blocks xbzrle RAM_SAVE_FLAG_EOS addr s = (none, s) := by
  rw [loadPage, if_neg (by decide), if_neg (by decide), if_neg (by decide)]

end Page

/-! ## The loop -/

section Loop

variable {blocks : List RAMBlock} {xbzrle : Bool}

/-- With blocks of positive length `ram_load` ends: a round that goes on
has read its 8-byte header from the data, and one that read past the end
stops at the error check. -/
theorem ramLoadLoop_isSome (hpos : ∀ b ∈ blocks, 0 < b.length) :
    ∀ fuel s, s.file.rest.length < fuel → (ramLoadLoop blocks xbzrle fuel s).isSome := by
  intro fuel
  induction fuel with
  | zero => intro s h; omega
  | succ fuel ih =>
    intro s hs
    rw [ramLoadLoop]
    dsimp only
    split
    · rename_i heq
      exact absurd heq (blockListStage_ne_none hpos _ _ _)
    · rfl
    rename_i file' heq
    have hlist := later_blockListStage heq
    split
    · rfl
    rename_i s' heq'
    have hpage : file'.Later s'.file := by
      have h := @later_loadPage blocks { s with file := file' } xbzrle (s.file.getBe64.1 % TARGET_PAGE_SIZE)
        (s.file.getBe64.1 - s.file.getBe64.1 % TARGET_PAGE_SIZE)
      rwa [heq'] at h
    split_ifs with herr heos
    · rfl
    · rfl
    apply ih
    -- the round read its header from the data, or the error check stopped it
    by_cases h8 : s.file.rest.length < 8
    · exact absurd ((hlist.trans hpage).error (InFile.skip_error_of_lt h8)) herr
    · have h := (hlist.trans hpage).length_le
      simp only [InFile.getBe64, InFile.skip_rest, List.length_drop] at h
      omega

theorem ramLoadLoop_sound :
    ∀ fuel s, Sound blocks s → ∀ r, ramLoadLoop blocks xbzrle fuel s = some r → Sound blocks r.2 := by
  intro fuel
  induction fuel with
  | zero => intro s _ r h; cases h
  | succ fuel ih =>
    intro s hs r h
    rw [ramLoadLoop] at h
    dsimp only at h
    -- the page offset is the header with its flag bits cleared
    have ha : TARGET_PAGE_SIZE ∣ s.file.getBe64.1 - s.file.getBe64.1 % TARGET_PAGE_SIZE :=
      Nat.dvd_sub_mod _
    split at h
    · cases h
    · cases h
      exact hs.file _
    rename_i file' _
    have hpage := loadPage_sound (hs.file file') ha xbzrle (s.file.getBe64.1 % TARGET_PAGE_SIZE)
    split at h
    · cases h
      rename_i heq
      rw [heq] at hpage
      exact hpage
    rename_i s' heq
    rw [heq] at hpage
    split_ifs at h
    · cases h
      exact hpage
    · cases h
      exact hpage
    · exact ih s' hpage r h

/-- A round whose header does not carry `RAM_SAVE_FLAG_MEM_SIZE`: the page,
then the error check and the end of the section. -/
theorem ramLoadLoop_page {fuel : ℕ} {s : Loading} {hdr : ℕ} {file : InFile}
    (hg : s.file.getBe64 = (hdr, file)) (hm : hdr % TARGET_PAGE_SIZE &&& RAM_SAVE_FLAG_MEM_SIZE = 0) :
    ramLoadLoop blocks xbzrle (fuel + 1) s =
      match loadPage blocks xbzrle (hdr % TARGET_PAGE_SIZE) (hdr - hdr % TARGET_PAGE_SIZE)
          { s with file := file } with
      | (some ret, s) => some (ret, s)
      | (none, s) =>
        if s.file.error then some (- EIO, s)
        else if hdr % TARGET_PAGE_SIZE &&& RAM_SAVE_FLAG_EOS ≠ 0 then some (0, s)
        else ramLoadLoop blocks xbzrle fuel s := by
  rw [ramLoadLoop, hg]
  dsimp only
  rw [if_neg (by rw [hm]; decide)]

/-- The end of the section: a header of `RAM_SAVE_FLAG_EOS` alone. -/
theorem ramLoadLoop_eos {fuel : ℕ} {s : Loading} {rest : List UInt8}
    (hf : s.file = ⟨qemuPutBe64 RAM_SAVE_FLAG_EOS ++ rest, false⟩) :
    ramLoadLoop blocks xbzrle (fuel + 1) s = some (0, { s with file := ⟨rest, false⟩ }) := by
  have hg : s.file.getBe64 = (RAM_SAVE_FLAG_EOS, ⟨rest, false⟩) := by
    rw [hf]
    exact InFile.getBe64_put (by decide) rest false
  have heos : RAM_SAVE_FLAG_EOS % TARGET_PAGE_SIZE = RAM_SAVE_FLAG_EOS := Nat.mod_eq_of_lt (by decide)
  rw [ramLoadLoop_page hg (by rw [heos]; decide), heos, loadPage_eos]
  dsimp only
  rw [if_neg (by decide), if_pos (by decide)]

end Loop

/-! ## What `ram_load` does -/

section RamLoad

variable {blocks : List RAMBlock}

/-- `ram_load` ends on every stream, when the destination's blocks are not
empty. -/
theorem ramLoad_isSome (hpos : ∀ b ∈ blocks, 0 < b.length) (xbzrle : Bool) (versionId : ℤ)
    (s : Loading) : (ramLoad blocks xbzrle versionId s).isSome := by
  rw [ramLoad]
  split_ifs
  · rfl
  · exact ramLoadLoop_isSome hpos _ s (Nat.lt_succ_self _)

/-- Every page `ram_load` writes is at a page offset in one of the
destination's blocks: the one the header names, or the last one named. -/
theorem ramLoad_sound {s : Loading} (hs : Sound blocks s) (xbzrle : Bool) (versionId : ℤ) :
    ∀ r, ramLoad blocks xbzrle versionId s = some r → Sound blocks r.2 := by
  intro r h
  rw [ramLoad] at h
  split_ifs at h
  · cases h
    exact hs
  · exact ramLoadLoop_sound _ s hs r h

/-- `ram_load` writes a page wherever a `RAM_SAVE_FLAG_COMPRESS` header puts
it in a block it names, past the block's end as well:
`host_from_stream_offset` finds the block by name and adds the offset to
its host memory, and nothing compares the offset with `block->length`. -/
theorem ramLoad_compress_anywhere {name : List UInt8} (hname : name.length < 256) {blk : RAMBlock}
    (hfind : blocks.find? (idMatches name) = some blk) {off : ℕ} (hoff : TARGET_PAGE_SIZE ∣ off)
    (hlt : off + TARGET_PAGE_SIZE < 2 ^ 64) (ch : UInt8) (xbzrle : Bool) (rest : List UInt8)
    {s : Loading} (hs : s.file = ⟨qemuPutBe64 (off + RAM_SAVE_FLAG_COMPRESS) ++
      name.length.toUInt8 :: (name ++ ch :: (qemuPutBe64 RAM_SAVE_FLAG_EOS ++ rest)), false⟩) :
    ramLoad blocks xbzrle 4 s =
      some (0, { mem := fillPage s.mem (blk.offset + off) ch, block := some blk,
                 file := ⟨rest, false⟩, written := s.written ++ [(blk, off)] }) := by
  have hc : RAM_SAVE_FLAG_COMPRESS = 2 := rfl
  have hpage : RAM_SAVE_FLAG_COMPRESS < TARGET_PAGE_SIZE := by decide
  have hlen8 : ∀ v, (qemuPutBe64 v).length = 8 := fun _ => rfl
  -- the first header: the page offset and `RAM_SAVE_FLAG_COMPRESS`
  have hflags : (off + RAM_SAVE_FLAG_COMPRESS) % TARGET_PAGE_SIZE = RAM_SAVE_FLAG_COMPRESS := by
    obtain ⟨k, rfl⟩ := hoff
    rw [Nat.mul_add_mod, Nat.mod_eq_of_lt hpage]
  have hg : s.file.getBe64 = (off + RAM_SAVE_FLAG_COMPRESS,
      ⟨name.length.toUInt8 :: (name ++ ch :: (qemuPutBe64 RAM_SAVE_FLAG_EOS ++ rest)), false⟩) := by
    rw [hs, InFile.getBe64_put (by omega)]
  -- the page, then the second header: `RAM_SAVE_FLAG_EOS`
  have hl := @loadPage_compress_named blocks
    { s with file := ⟨name.length.toUInt8 :: (name ++ ch :: (qemuPutBe64 RAM_SAVE_FLAG_EOS ++ rest)), false⟩ }
    name hname blk hfind xbzrle off ch _ false rfl
  obtain ⟨n, hn⟩ : ∃ n, s.file.rest.length = n + 1 + 1 := ⟨s.file.rest.length - 2, by
    rw [hs]
    simp only [List.length_append, List.length_cons, hlen8]
    omega⟩
  rw [ramLoad, if_neg (by decide), hn, ramLoadLoop_page hg (by rw [hflags]; decide), hflags,
    Nat.add_sub_cancel, hl]
  dsimp only
  rw [if_neg (by decide), if_neg (by decide)]
  exact ramLoadLoop_eos rfl

theorem ramLoad_compress_anywhere_pcRam :
    ([112, 99, 46, 114, 97, 109] : List UInt8).length < 256 ∧
      [(⟨0, 4096, "pc.ram"⟩ : RAMBlock)].find? (idMatches [112, 99, 46, 114, 97, 109]) =
        some ⟨0, 4096, "pc.ram"⟩ ∧
      TARGET_PAGE_SIZE ∣ 4096 ∧ 4096 + TARGET_PAGE_SIZE < 2 ^ 64 ∧
      ramLoad [⟨0, 4096, "pc.ram"⟩] false 4
          ⟨⟨fun _ => 0, none⟩, ⟨[0, 0, 0, 0, 0, 0, 16, 2, 6, 112, 99, 46, 114, 97, 109, 171,
            0, 0, 0, 0, 0, 0, 0, 16], false⟩, []⟩ =
        some (0, { mem := fillPage (fun _ => 0) 4096 171, block := some ⟨0, 4096, "pc.ram"⟩,
                   file := ⟨[], false⟩, written := [(⟨0, 4096, "pc.ram"⟩, 4096)] }) :=
  ⟨by decide, by decide, by decide, by decide,
    @ramLoad_compress_anywhere [⟨0, 4096, "pc.ram"⟩] [112, 99, 46, 114, 97, 109] (by decide)
      ⟨0, 4096, "pc.ram"⟩ (by decide) 4096 (by decide) (by decide) 171 false []
      ⟨⟨fun _ => 0, none⟩, ⟨[0, 0, 0, 0, 0, 0, 16, 2, 6, 112, 99, 46, 114, 97, 109, 171,
        0, 0, 0, 0, 0, 0, 0, 16], false⟩, []⟩ (by decide)⟩

end RamLoad

end QemuKvm.Migration.Incoming
