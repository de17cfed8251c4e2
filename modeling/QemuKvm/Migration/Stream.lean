import Mathlib.Data.List.Infix
import Mathlib.Data.List.TakeWhile
import QemuKvm.Migration.RamLoad
import QemuKvm.Migration.State

/-!
# The section framing of the migration stream (savevm.c)

A migration stream is a header (`QEMU_VM_FILE_MAGIC`, `QEMU_VM_FILE_VERSION`)
and a run of sections, each a type byte and a header followed by what one
handler wrote, and a last `QEMU_VM_EOF` byte. The source writes it in three
calls: `qemu_savevm_state_begin` opens a section (`START`) for each live
handler, each `qemu_savevm_state_iterate` adds one (`PART`) for each live
handler until one asks to stop, and `qemu_savevm_state_complete` closes the
live handlers (`END`) and writes every device's state whole (`FULL`). Nothing
in the stream says how long a payload is: `qemu_loadvm_state` finds the
handler from the header and lets its `load_state` read on from there.

The handlers' own code is the environment on both sides: `Devices` is what
the source's hooks write and return, `Loaders` what the destination's
`vmstate_load` reads. The `QEMUFile`'s error and rate limit are read through
`Devices` too (`Migration.Buffered` models them); the reading end is
`Incoming.InFile`, which `FileRead.getRun_refines` relates to the socket
reader.

The round trip is `qemuLoadvmState_qemuSavevmState`: when each handler's
load reads back exactly what it wrote, leaving the two machines related by
some `R` (`Compatible`), the destination loads the stream of a successful
`qemu_savevm_state` to its end and its machine is related to the source's.
It takes two halves that meet at `Section`, the sections of a stream:
`loadLoop_sections` shows that the loader takes every run of sections the
handlers wrote, and the `_sections` lemmas of the writers that they only
write such runs, with each `PART` and `END` after its `START`.
-/

namespace QemuKvm.Migration.Incoming

/-- `qemu_get_be32`. -/
def InFile.getBe32 (f : InFile) : ℕ × InFile := ((qemuGetBe32 f.rest).1, f.skip 4)

theorem InFile.getByte_put (v : ℕ) (r : List UInt8) (e : Bool) :
    InFile.getByte ⟨qemuPutByte v ++ r, e⟩ = (v % 256, ⟨r, e⟩) := by
  simp [qemuPutByte, InFile.getByte_cons]

theorem InFile.later_getBe32 (f : InFile) : f.Later f.getBe32.2 := f.later_skip 4

theorem InFile.getBe32_put {v : ℕ} (hv : v < 2 ^ 32) (r : List UInt8) (e : Bool) :
    InFile.getBe32 ⟨qemuPutBe32 v ++ r, e⟩ = (v, ⟨r, e⟩) := by
  have hlen : (qemuPutBe32 v).length = 4 := rfl
  simp [InFile.getBe32, InFile.skip, qemuGetBe32_put v hv, hlen, List.drop_left']

end QemuKvm.Migration.Incoming

namespace QemuKvm.Migration.Stream

open Incoming (InFile EINVAL)

/-! ## The format -/

def QEMU_VM_FILE_MAGIC : ℕ := 0x5145564d
def QEMU_VM_FILE_VERSION_COMPAT : ℕ := 0x00000002
def QEMU_VM_FILE_VERSION : ℕ := 0x00000003

def QEMU_VM_EOF : ℕ := 0x00
def QEMU_VM_SECTION_START : ℕ := 0x01
def QEMU_VM_SECTION_PART : ℕ := 0x02
def QEMU_VM_SECTION_END : ℕ := 0x03
def QEMU_VM_SECTION_FULL : ℕ := 0x04

def ENOTSUP : ℤ := 95

/-! ## Registered handlers -/

/-- A C string held in a `char idstr[256]`: at most 255 bytes before its
NUL. -/
structure IdStr where
  bytes : List UInt8
  length_lt : bytes.length < 256
  zero_not_mem : (0 : UInt8) ∉ bytes

instance : DecidableEq IdStr := fun a b =>
  decidable_of_iff (a.bytes = b.bytes) (by cases a; cases b; simp)

/-- The hooks of a `SaveVMHandlers` that are set; the others are NULL. -/
structure SaveVMHandlers where
  setParams : Bool
  saveLiveSetup : Bool
  saveLiveIterate : Bool
  saveLiveComplete : Bool
  isActive : Bool
  cancel : Bool
  saveState : Bool
  deriving DecidableEq, Repr

/-- `CompatEntry`: the name and instance an older version saved under. -/
structure CompatEntry where
  idstr : IdStr
  instanceId : UInt32
  deriving DecidableEq

/-- `SaveStateEntry`, one element of `savevm_handlers`. The `int` ids are
kept as the `uint32_t` the stream carries and the loader compares them as.
`is_ram` is read only by `qemu_save_device_state` and is left out. -/
structure SaveStateEntry where
  idstr : IdStr
  instanceId : UInt32
  aliasId : UInt32
  versionId : UInt32
  sectionId : UInt32
  ops : Option SaveVMHandlers
  compat : Option CompatEntry
  noMigrate : Bool
  vmsd : Bool
  deriving DecidableEq

/-- `se->ops && se->ops->hook`. -/
def SaveStateEntry.has (se : SaveStateEntry) (hook : SaveVMHandlers → Bool) : Bool :=
  match se.ops with
  | some ops => hook ops
  | none => false

/-- `qemu_savevm_state_blocked`. -/
def qemuSavevmStateBlocked (handlers : List SaveStateEntry) : Bool :=
  handlers.any (·.noMigrate)

/-! ## The source -/

/-- The three calls of a live handler. -/
inductive LivePhase where
  | setup
  | iterate
  | complete
  deriving DecidableEq, Repr

/-- What the source's handlers do when the savevm code calls them, on the
source machine `σ`: the device code behind the hooks, and the `QEMUFile`'s
error and rate limit. -/
structure Devices (σ : Type) where
  setParams : MigrationParams → SaveStateEntry → σ → σ
  isActive : SaveStateEntry → σ → Bool
  /-- `save_live_setup`, `save_live_iterate` or `save_live_complete`: the
  value returned, the bytes put and the machine after. -/
  saveLive : LivePhase → SaveStateEntry → σ → ℤ × List UInt8 × σ
  /-- `vmstate_save`: `save_state`, or the fields of `vmsd`. -/
  saveState : SaveStateEntry → σ → List UInt8 × σ
  cancel : SaveStateEntry → σ → σ
  /-- `qemu_file_rate_limit(f)`. -/
  rateLimit : σ → Bool
  /-- `qemu_file_get_error(f)`. -/
  fileError : σ → ℤ

section Source

variable {σ : Type} (D : Devices σ) (handlers : List SaveStateEntry)

/-- Whether a handler takes part: it has no `is_active` hook, or the hook
says it is active. -/
def Devices.active (s : σ) (se : SaveStateEntry) : Bool :=
  !se.has (·.isActive) || D.isActive se s

/-- The header of a `START` or `FULL` section. -/
def sectionHeader (sectionType : ℕ) (se : SaveStateEntry) : List UInt8 :=
  qemuPutByte sectionType ++ qemuPutBe32 se.sectionId.toNat ++
    qemuPutByte se.idstr.bytes.length ++ se.idstr.bytes ++
    qemuPutBe32 se.instanceId.toNat ++ qemuPutBe32 se.versionId.toNat

/-- The header of a `PART` or `END` section. -/
def sectionRef (sectionType : ℕ) (se : SaveStateEntry) : List UInt8 :=
  qemuPutByte sectionType ++ qemuPutBe32 se.sectionId.toNat

/-- `qemu_savevm_state_cancel`. -/
def qemuSavevmStateCancel (s : σ) : σ :=
  handlers.foldl (fun s se => if se.has (·.cancel) then D.cancel se s else s) s

/-- The loop of `qemu_savevm_state_begin` over `ses`, the handlers not
visited yet: the negative value of a `save_live_setup` that fails (after
`qemu_savevm_state_cancel`), else 0. -/
def beginLoop : List SaveStateEntry → σ → ℤ × σ × List UInt8
  | [], s => (0, s, [])
  | se :: ses, s =>
    if !se.has (·.saveLiveSetup) || !D.active s se then beginLoop ses s
    else
      let r := D.saveLive .setup se s
      let w := sectionHeader QEMU_VM_SECTION_START se ++ r.2.1
      if r.1 < 0 then (r.1, qemuSavevmStateCancel D handlers r.2.2, w)
      else
        let r' := beginLoop ses r.2.2
        (r'.1, r'.2.1, w ++ r'.2.2)

/-- The first loop of `qemu_savevm_state_begin`: `set_params` of each
handler with the hook. -/
def setParamsLoop (params : MigrationParams) (s : σ) : σ :=
  handlers.foldl (fun s se => if se.has (·.setParams) then D.setParams params se s else s) s

/-- `qemu_savevm_state_begin`: the value returned, the machine after and
the bytes put. -/
def qemuSavevmStateBegin (params : MigrationParams) (s : σ) : ℤ × σ × List UInt8 :=
  let s := setParamsLoop D handlers params s
  let hdr := qemuPutBe32 QEMU_VM_FILE_MAGIC ++ qemuPutBe32 QEMU_VM_FILE_VERSION
  let r := beginLoop D handlers handlers s
  if r.1 < 0 then (r.1, r.2.1, hdr ++ r.2.2)
  else
    let ret := D.fileError r.2.1
    (ret, if ret ≠ 0 then qemuSavevmStateCancel D handlers r.2.1 else r.2.1, hdr ++ r.2.2)

/-- The loop of `qemu_savevm_state_iterate` from the value `ret` it holds:
`none` where the rate limit returns 0 from inside it, else the value it
ends with (it stops after a `save_live_iterate` that returns 0 or less). -/
def iterateLoop : List SaveStateEntry → ℤ → σ → Option ℤ × σ × List UInt8
  | [], ret, s => (some ret, s, [])
  | se :: ses, ret, s =>
    if !se.has (·.saveLiveIterate) || !D.active s se then iterateLoop ses ret s
    else if D.rateLimit s then (none, s, [])
    else
      let r := D.saveLive .iterate se s
      let w := sectionRef QEMU_VM_SECTION_PART se ++ r.2.1
      if r.1 ≤ 0 then (some r.1, r.2.2, w)
      else
        let r' := iterateLoop ses r.1 r.2.2
        (r'.1, r'.2.1, w ++ r'.2.2)

/-- `qemu_savevm_state_iterate`: negative on an error, 0 to be called
again, positive when the handlers are done. -/
def qemuSavevmStateIterate (s : σ) : ℤ × σ × List UInt8 :=
  match iterateLoop D handlers 1 s with
  | (none, s, w) => (0, s, w)
  | (some ret, s, w) =>
    if ret ≠ 0 then (ret, s, w)
    else
      let ret := D.fileError s
      (ret, if ret ≠ 0 then qemuSavevmStateCancel D handlers s else s, w)

/-- The first loop of `qemu_savevm_state_complete`, over the live
handlers: `some` of the negative value of a `save_live_complete` that
fails. -/
def completeLiveLoop : List SaveStateEntry → σ → Option ℤ × σ × List UInt8
  | [], s => (none, s, [])
  | se :: ses, s =>
    if !se.has (·.saveLiveComplete) || !D.active s se then completeLiveLoop ses s
    else
      let r := D.saveLive .complete se s
      let w := sectionRef QEMU_VM_SECTION_END se ++ r.2.1
      if r.1 < 0 then (some r.1, r.2.2, w)
      else
        let r' := completeLiveLoop ses r.2.2
        (r'.1, r'.2.1, w ++ r'.2.2)

/-- The second loop of `qemu_savevm_state_complete`: every handler with a
`save_state` hook or a `vmsd`, whether active or not. -/
def completeFullLoop : List SaveStateEntry → σ → σ × List UInt8
  | [], s => (s, [])
  | se :: ses, s =>
    if !se.has (·.saveState) && !se.vmsd then completeFullLoop ses s
    else
      let r := D.saveState se s
      let r' := completeFullLoop ses r.2
      (r'.1, sectionHeader QEMU_VM_SECTION_FULL se ++ r.1 ++ r'.2)

/-- `qemu_savevm_state_complete`. -/
def qemuSavevmStateComplete (s : σ) : ℤ × σ × List UInt8 :=
  match completeLiveLoop D handlers s with
  | (some ret, s, w) => (ret, s, w)
  | (none, s, w) =>
    let r := completeFullLoop D handlers s
    (D.fileError r.1, r.1, w ++ r.2 ++ qemuPutByte QEMU_VM_EOF)

/-- The `do ... while (ret == 0)` loop of `qemu_savevm_state` over
`qemu_savevm_state_iterate`, for at most `fuel` calls; `none` when they
all return 0. -/
def iterateWhileZero : ℕ → σ → Option (ℤ × σ × List UInt8)
  | 0, _ => none
  | fuel + 1, s =>
    let r := qemuSavevmStateIterate D handlers s
    if r.1 = 0 then (iterateWhileZero fuel r.2.1).map fun r' => (r'.1, r'.2.1, r.2.2 ++ r'.2.2)
    else some r

/-- `qemu_savevm_state` (`savevm` and `migrate "exec:"`): begin, iterate
until the handlers are done, complete; the `out:` label reads the file's
error when nothing else failed. `none` when `fuel` iterations are not
enough. -/
def qemuSavevmState (fuel : ℕ) (s : σ) : Option (ℤ × σ × List UInt8) :=
  let out := fun (ret : ℤ) (s : σ) (w : List UInt8) =>
    ((if ret = 0 then D.fileError s else ret), s, w)
  if qemuSavevmStateBlocked handlers then some (out (-EINVAL) s [])
  else
    let b := qemuSavevmStateBegin D handlers ⟨false, false⟩ s
    if b.1 < 0 then some (out b.1 b.2.1 b.2.2)
    else
      (iterateWhileZero D handlers fuel b.2.1).map fun i =>
        if i.1 < 0 then out i.1 i.2.1 (b.2.2 ++ i.2.2)
        else
          let c := qemuSavevmStateComplete D handlers i.2.1
          out c.1 c.2.1 (b.2.2 ++ i.2.2 ++ c.2.2)

end Source

/-! ## The destination -/

/-- `LoadStateEntry`: a section the loader has seen the header of. -/
structure LoadStateEntry where
  se : SaveStateEntry
  sectionId : UInt32
  versionId : UInt32
  deriving DecidableEq

/-- What the destination's `vmstate_load` does, on the destination machine
`τ`: the value returned, the machine after and the file read on. -/
structure Loaders (τ : Type) where
  vmstateLoad : SaveStateEntry → UInt32 → τ → InFile → ℤ × τ × InFile

/-- A C string read from a byte array: `strcmp` and `strstr` stop at the
first NUL. -/
def cstr (s : List UInt8) : List UInt8 := s.takeWhile (· != 0)

/-- `find_se(idstr, instance_id)` over `savevm_handlers`. -/
def findSe : List SaveStateEntry → List UInt8 → UInt32 → Option SaveStateEntry
  | [], _, _ => none
  | se :: ses, idstr, instanceId =>
    if se.idstr.bytes = cstr idstr ∧ (instanceId = se.instanceId ∨ instanceId = se.aliasId) then
      some se
    else
      match se.compat with
      | some c =>
        -- an older version saved the device under `compat`'s name
        if cstr idstr <:+: se.idstr.bytes ∧ c.idstr.bytes = cstr idstr ∧
            (instanceId = c.instanceId ∨ instanceId = se.aliasId) then some se
        else findSe ses idstr instanceId
      | none => findSe ses idstr instanceId

section Destination

variable {τ : Type} (L : Loaders τ) (handlers : List SaveStateEntry)

/-- The `while` loop of `qemu_loadvm_state`, with `loadvm_handlers` as
`les` (`QLIST_INSERT_HEAD` puts a new entry first), for at most `fuel`
sections. `idstr` is read into a `char[257]` and ended with a NUL; past the
end of the stream the array keeps bytes the model does not know, and the
model compares the bytes read. -/
def loadLoop : ℕ → List LoadStateEntry → τ → InFile → Option (ℤ × τ × InFile)
  | 0, _, _, _ => none
  | fuel + 1, les, t, f =>
    let (sectionType, f) := f.getByte
    if sectionType = QEMU_VM_EOF then some (0, t, f)
    else if sectionType = QEMU_VM_SECTION_START ∨ sectionType = QEMU_VM_SECTION_FULL then
      let (sectionId, f) := f.getBe32
      let (len, f) := f.getByte
      let (idstr, f) := f.getBuffer len
      let (instanceId, f) := f.getBe32
      let (versionId, f) := f.getBe32
      match findSe handlers idstr (UInt32.ofNat instanceId) with
      | none => some (-EINVAL, t, f)
      | some se =>
        if se.versionId < UInt32.ofNat versionId then some (-EINVAL, t, f)
        else
          let le : LoadStateEntry := ⟨se, UInt32.ofNat sectionId, UInt32.ofNat versionId⟩
          let r := L.vmstateLoad le.se le.versionId t f
          if r.1 < 0 then some r else loadLoop fuel (le :: les) r.2.1 r.2.2
    else if sectionType = QEMU_VM_SECTION_PART ∨ sectionType = QEMU_VM_SECTION_END then
      let (sectionId, f) := f.getBe32
      match les.find? (·.sectionId = UInt32.ofNat sectionId) with
      | none => some (-EINVAL, t, f)
      | some le =>
        let r := L.vmstateLoad le.se le.versionId t f
        if r.1 < 0 then some r else loadLoop fuel les r.2.1 r.2.2
    else some (-EINVAL, t, f)

/-- `qemu_loadvm_state`. Each pass of the loop reads a byte, so the
stream's length bounds the passes when the loads read on
(`qemuLoadvmState_isSome`). -/
def qemuLoadvmState (t : τ) (f : InFile) : Option (ℤ × τ × InFile) :=
  if qemuSavevmStateBlocked handlers then some (-EINVAL, t, f)
  else
    let (v, f) := f.getBe32
    if v ≠ QEMU_VM_FILE_MAGIC then some (-EINVAL, t, f)
    else
      let (v, f) := f.getBe32
      if v = QEMU_VM_FILE_VERSION_COMPAT then some (-ENOTSUP, t, f)
      else if v ≠ QEMU_VM_FILE_VERSION then some (-ENOTSUP, t, f)
      else
        (loadLoop L handlers (f.rest.length + 1) [] t f).map fun r =>
          -- `out:` reads the file's error when nothing else failed
          ((if r.1 = 0 then (if r.2.2.error then - Incoming.EIO else 0) else r.1), r.2.1, r.2.2)

end Destination


/-! ## The sections of a stream -/

/-- A section as the source writes it: the handler and the bytes its hook
put. -/
inductive Section where
  | live (ph : LivePhase) (se : SaveStateEntry) (payload : List UInt8)
  | full (se : SaveStateEntry) (payload : List UInt8)

/-- The bytes of a section: its header, then its payload. -/
def Section.encode : Section → List UInt8
  | .live .setup se p => sectionHeader QEMU_VM_SECTION_START se ++ p
  | .live .iterate se p => sectionRef QEMU_VM_SECTION_PART se ++ p
  | .live .complete se p => sectionRef QEMU_VM_SECTION_END se ++ p
  | .full se p => sectionHeader QEMU_VM_SECTION_FULL se ++ p

/-- The handler whose section it is. -/
def Section.handler : Section → SaveStateEntry
  | .live _ se _ => se
  | .full se _ => se

/-- The handler the loader adds to `loadvm_handlers` at a section: the
section's own at a `START` or `FULL`, none at a `PART` or `END`. -/
def Section.opened : Section → List SaveStateEntry
  | .live .setup se _ => [se]
  | .live .iterate _ _ => []
  | .live .complete _ _ => []
  | .full se _ => [se]

/-- Whether the loader can take a section once the handlers `started` are
in `loadvm_handlers`: a `START` or `FULL` of a registered handler, a `PART`
or `END` of a started one. -/
def Section.Admissible (handlers started : List SaveStateEntry) : Section → Prop
  | .live .setup se _ => se ∈ handlers
  | .live .iterate se _ => se ∈ started
  | .live .complete se _ => se ∈ started
  | .full se _ => se ∈ handlers

theorem Section.encode_ne_nil (sec : Section) : sec.encode ≠ [] := by
  cases sec with
  | live ph se p => cases ph <;> simp [Section.encode, sectionHeader, sectionRef, qemuPutByte]
  | full se p => simp [Section.encode, sectionHeader, qemuPutByte]

/-- Each section takes a byte at least, so the loader's fuel, the stream's
length, covers its sections. -/
theorem length_le_length_flatMap_encode (secs : List Section) :
    secs.length ≤ (secs.flatMap Section.encode).length := by
  induction secs with
  | nil => simp
  | cons sec secs ih =>
    have := List.length_pos_of_ne_nil sec.encode_ne_nil
    simp only [List.flatMap_cons, List.length_append, List.length_cons]
    omega

theorem Section.Admissible.mono {handlers started started' : List SaveStateEntry}
    (h : ∀ x ∈ started, x ∈ started') {sec : Section} (hs : sec.Admissible handlers started) :
    sec.Admissible handlers started' := by
  cases sec with
  | live ph se p => cases ph <;> simp_all [Section.Admissible]
  | full se p => exact hs

/-- The sections written after `qemu_savevm_state_begin`, by handlers of
`ses` active at `s`: a `PART` of one with `save_live_iterate`, an `END` of
one with `save_live_complete`, or a `FULL`. -/
def Section.AfterBegin {σ : Type} (D : Devices σ) (ses : List SaveStateEntry) (s : σ) :
    Section → Prop
  | .live .setup _ _ => False
  | .live .iterate se _ => se ∈ ses ∧ se.has (·.saveLiveIterate) = true ∧ D.active s se = true
  | .live .complete se _ => se ∈ ses ∧ se.has (·.saveLiveComplete) = true ∧ D.active s se = true
  | .full se _ => se ∈ ses

theorem Section.AfterBegin.mono {σ : Type} {D : Devices σ} {ses ses' : List SaveStateEntry}
    {s s' : σ} (hsub : ∀ x ∈ ses, x ∈ ses') (hact : D.active s = D.active s') {sec : Section}
    (h : sec.AfterBegin D ses s) : sec.AfterBegin D ses' s' := by
  cases sec with
  | live ph se p =>
    cases ph with
    | setup => exact h
    | iterate => exact ⟨hsub _ h.1, h.2.1, hact ▸ h.2.2⟩
    | complete => exact ⟨hsub _ h.1, h.2.1, hact ▸ h.2.2⟩
  | full se p => exact hsub _ h

/-- What the handlers wrote, call after call, from machine `s` to `s'`: the
savevm code went on after each call, so no live hook returned a negative
value. -/
inductive Wrote {σ : Type} (D : Devices σ) : σ → List Section → σ → Prop
  | nil (s : σ) : Wrote D s [] s
  | live {ph : LivePhase} {se : SaveStateEntry} {s s₁ s' : σ} {ret : ℤ} {p : List UInt8}
      {secs : List Section} :
      D.saveLive ph se s = (ret, p, s₁) → 0 ≤ ret → Wrote D s₁ secs s' →
      Wrote D s (.live ph se p :: secs) s'
  | full {se : SaveStateEntry} {s s₁ s' : σ} {p : List UInt8} {secs : List Section} :
      D.saveState se s = (p, s₁) → Wrote D s₁ secs s' → Wrote D s (.full se p :: secs) s'

/-- What the round trip needs of the source's environment: saving does not
change whether a handler is active, and the file's error is a negative
errno or 0. -/
structure Devices.Steady {σ : Type} (D : Devices σ) : Prop where
  isActive_saveLive : ∀ ph se se' s, D.isActive se' (D.saveLive ph se s).2.2 = D.isActive se' s
  isActive_saveState : ∀ se se' s, D.isActive se' (D.saveState se s).2 = D.isActive se' s
  fileError_nonpos : ∀ s, D.fileError s ≤ 0

/-- What the round trip needs of the handlers on the two sides, for a
relation `R` between the source machine and the destination machine: the
destination's `vmstate_load` at the source's version reads exactly the
bytes the source's hook wrote and keeps the machines related, and
`set_params` keeps them related. -/
structure Compatible {σ τ : Type} (D : Devices σ) (L : Loaders τ) (R : σ → τ → Prop) : Prop where
  setParams : ∀ {params se s t}, R s t → R (D.setParams params se s) t
  saveLive : ∀ {ph se s t ret p s'}, R s t → D.saveLive ph se s = (ret, p, s') → 0 ≤ ret →
    ∀ more, ∃ r t', 0 ≤ r ∧ R s' t' ∧
      L.vmstateLoad se se.versionId t ⟨p ++ more, false⟩ = (r, t', ⟨more, false⟩)
  saveState : ∀ {se s t p s'}, R s t → D.saveState se s = (p, s') →
    ∀ more, ∃ r t', 0 ≤ r ∧ R s' t' ∧
      L.vmstateLoad se se.versionId t ⟨p ++ more, false⟩ = (r, t', ⟨more, false⟩)

/-- What the loader needs of the list of handlers, the same on both sides:
distinct section ids (`global_section_id++`), `find_se` finds each handler
under its own name and instance, and a handler with a later live hook has a
`save_live_setup` that opens its section. -/
structure Registered (handlers : List SaveStateEntry) : Prop where
  sectionId_nodup : (handlers.map (·.sectionId)).Nodup
  findSe_self : ∀ se ∈ handlers, findSe handlers se.idstr.bytes se.instanceId = some se
  setup_of_live : ∀ se ∈ handlers,
    se.has (·.saveLiveIterate) || se.has (·.saveLiveComplete) → se.has (·.saveLiveSetup)

/-- The entry `qemu_loadvm_state` makes for a handler's section header. -/
def LoadStateEntry.ofSe (se : SaveStateEntry) : LoadStateEntry :=
  ⟨se, se.sectionId, se.versionId⟩

/-! ## The loader takes the sections -/

section Loading

variable {τ : Type} {L : Loaders τ} {handlers : List SaveStateEntry}

theorem loadLoop_eof (fuel : ℕ) (les : List LoadStateEntry) (t : τ) (more : List UInt8) :
    loadLoop L handlers (fuel + 1) les t ⟨qemuPutByte QEMU_VM_EOF ++ more, false⟩ =
      some (0, t, ⟨more, false⟩) := by
  simp [loadLoop, InFile.getByte_put, QEMU_VM_EOF]

/-- A `START` or `FULL` section of a registered handler: the loader finds
the handler, adds its entry, and its load reads the payload. -/
theorem loadLoop_header {ty : ℕ} (hty : ty = QEMU_VM_SECTION_START ∨ ty = QEMU_VM_SECTION_FULL)
    (hreg : Registered handlers) {se : SaveStateEntry} (hse : se ∈ handlers) {t t' : τ}
    {p rest : List UInt8} {r : ℤ}
    (hload : L.vmstateLoad se se.versionId t ⟨p ++ rest, false⟩ = (r, t', ⟨rest, false⟩))
    (hr : 0 ≤ r) (fuel : ℕ) (les : List LoadStateEntry) :
    loadLoop L handlers (fuel + 1) les t ⟨sectionHeader ty se ++ p ++ rest, false⟩ =
      loadLoop L handlers fuel (LoadStateEntry.ofSe se :: les) t' ⟨rest, false⟩ := by
  have hty' : ty % 256 = ty := by rcases hty with rfl | rfl <;> rfl
  have hlen : se.idstr.bytes.length % 256 = se.idstr.bytes.length :=
    Nat.mod_eq_of_lt se.idstr.length_lt
  have hbuf : se.idstr.bytes.length < 2 ^ 31 := by have := se.idstr.length_lt; omega
  have hne : ty ≠ QEMU_VM_EOF := by rcases hty with rfl | rfl <;> decide
  simp only [loadLoop, sectionHeader, List.append_assoc, InFile.getByte_put, hty',
    InFile.getBe32_put (UInt32.toNat_lt _), hlen, InFile.getBuffer_append hbuf,
    UInt32.ofNat_toNat, hreg.findSe_self se hse, if_neg hne, if_pos hty, UInt32.lt_irrefl,
    hload, not_lt.mpr hr, if_false]
  rfl

/-- A `PART` or `END` section whose entry the loader finds: its load reads
the payload. -/
theorem loadLoop_ref {ty : ℕ} (hty : ty = QEMU_VM_SECTION_PART ∨ ty = QEMU_VM_SECTION_END)
    {se : SaveStateEntry} {les : List LoadStateEntry}
    (hfind : les.find? (·.sectionId = se.sectionId) = some (LoadStateEntry.ofSe se))
    {t t' : τ} {p rest : List UInt8} {r : ℤ}
    (hload : L.vmstateLoad se se.versionId t ⟨p ++ rest, false⟩ = (r, t', ⟨rest, false⟩))
    (hr : 0 ≤ r) (fuel : ℕ) :
    loadLoop L handlers (fuel + 1) les t ⟨sectionRef ty se ++ p ++ rest, false⟩ =
      loadLoop L handlers fuel les t' ⟨rest, false⟩ := by
  have hty' : ty % 256 = ty := by rcases hty with rfl | rfl <;> rfl
  have hne : ty ≠ QEMU_VM_EOF := by rcases hty with rfl | rfl <;> decide
  have hnh : ¬(ty = QEMU_VM_SECTION_START ∨ ty = QEMU_VM_SECTION_FULL) := by
    rcases hty with rfl | rfl <;> decide
  simp only [loadLoop, sectionRef, List.append_assoc, InFile.getByte_put, hty',
    InFile.getBe32_put (UInt32.toNat_lt _), UInt32.ofNat_toNat, if_neg hne, if_neg hnh,
    if_pos hty, hfind]
  simp only [LoadStateEntry.ofSe, hload, not_lt.mpr hr, if_false]

/-- In `loadvm_handlers` made of registered handlers' entries, the entry
found for a handler's section id is the handler's own: section ids are
distinct. -/
theorem find?_ofSe (hnodup : (handlers.map (·.sectionId)).Nodup) {ses : List SaveStateEntry}
    (hsub : ∀ x ∈ ses, x ∈ handlers) {se : SaveStateEntry} (hse : se ∈ ses) :
    (ses.map LoadStateEntry.ofSe).find? (·.sectionId = se.sectionId) =
      some (LoadStateEntry.ofSe se) := by
  induction ses with
  | nil => simp at hse
  | cons x ses ih =>
    by_cases hx : x.sectionId = se.sectionId
    · have hxse : x = se := List.inj_on_of_nodup_map hnodup (hsub x (by simp))
        (hsub se hse) hx
      subst hxse
      simp [LoadStateEntry.ofSe]
    · have hse' : se ∈ ses := by
        rcases List.mem_cons.1 hse with rfl | h
        · exact absurd rfl hx
        · exact h
      simp [LoadStateEntry.ofSe, hx, ih (fun y hy => hsub y (by simp [hy])) hse']

/-- A `PART` or `END` section of a handler whose entry is in
`loadvm_handlers`: the loader takes it and adds no entry. -/
theorem loadLoop_ref_of_mem {ty : ℕ} (hty : ty = QEMU_VM_SECTION_PART ∨ ty = QEMU_VM_SECTION_END)
    (hreg : Registered handlers) {ses : List SaveStateEntry} (hsub : ∀ x ∈ ses, x ∈ handlers)
    {se : SaveStateEntry} (hse : se ∈ ses) {t t' : τ} {p rest : List UInt8} {r : ℤ}
    (hload : L.vmstateLoad se se.versionId t ⟨p ++ rest, false⟩ = (r, t', ⟨rest, false⟩))
    (hr : 0 ≤ r) (fuel : ℕ) :
    loadLoop L handlers (fuel + 1) (ses.map LoadStateEntry.ofSe) t
        ⟨sectionRef ty se ++ p ++ rest, false⟩ =
      loadLoop L handlers fuel (ses.map LoadStateEntry.ofSe) t' ⟨rest, false⟩ :=
  loadLoop_ref hty (find?_ofSe hreg.sectionId_nodup hsub hse) hload hr fuel

/-- The loader over a run of sections is its step over the first, then the
run of the others. -/
theorem loadLoop_cons {sec : Section} {secs : List Section} {les les₁ : List LoadStateEntry}
    {t t₁ : τ} {rest : List UInt8}
    (hstep : ∀ n, loadLoop L handlers (n + 1) les t
        ⟨sec.encode ++ (secs.flatMap Section.encode ++ rest), false⟩ =
      loadLoop L handlers n les₁ t₁ ⟨secs.flatMap Section.encode ++ rest, false⟩)
    {fuel : ℕ} {x : Option (ℤ × τ × InFile)}
    (hrun : loadLoop L handlers (fuel + secs.length) les₁ t₁
        ⟨secs.flatMap Section.encode ++ rest, false⟩ = x) :
    loadLoop L handlers (fuel + (sec :: secs).length) les t
        ⟨(sec :: secs).flatMap Section.encode ++ rest, false⟩ = x := by
  rw [List.flatMap_cons, List.append_assoc, List.length_cons, ← Nat.add_assoc, hstep, hrun]

variable {σ : Type} {D : Devices σ} {R : σ → τ → Prop}

/-- The loader takes every run of sections the handlers wrote: from related
machines, with every handler that a `PART` or `END` needs in
`loadvm_handlers` already, it reads the whole run, adds the entries of the
sections the run opens, and leaves the machines related. -/
theorem loadLoop_sections (hC : Compatible D L R) (hreg : Registered handlers)
    {s s' : σ} {secs : List Section} (hw : Wrote D s secs s') :
    ∀ {t : τ} (ses : List SaveStateEntry) (fuel : ℕ) (rest : List UInt8),
      R s t → (∀ x ∈ ses, x ∈ handlers) → (∀ sec ∈ secs, sec.Admissible handlers ses) →
      ∃ t', R s' t' ∧
        loadLoop L handlers (fuel + secs.length) (ses.map LoadStateEntry.ofSe) t
            ⟨secs.flatMap Section.encode ++ rest, false⟩ =
          loadLoop L handlers fuel
            (((secs.flatMap Section.opened).reverse ++ ses).map LoadStateEntry.ofSe) t'
            ⟨rest, false⟩ := by
  induction hw with
  | nil s => exact fun ses fuel rest hR _ _ => ⟨_, hR, by simp⟩
  | @live ph se s s₁ s' ret p secs hsave hret _ ih =>
    intro t ses fuel rest hR hsub hadm
    obtain ⟨r, t₁, hr, hR₁, hload⟩ :=
      hC.saveLive hR hsave hret (secs.flatMap Section.encode ++ rest)
    have hsec := hadm _ List.mem_cons_self
    have hadm' : ∀ sec ∈ secs, sec.Admissible handlers ses :=
      fun sec h => hadm sec (List.mem_cons_of_mem _ h)
    -- one step over this section, then the rest of the run
    cases ph with
    | setup =>
      obtain ⟨t', hR', hrun⟩ := ih (se :: ses) fuel rest hR₁ (by simpa using ⟨hsec, hsub⟩)
        (fun sec h => (hadm' sec h).mono (by simp_all))
      refine ⟨t', hR', (loadLoop_cons (fun n =>
        loadLoop_header (Or.inl rfl) hreg hsec hload hr n _) hrun).trans ?_⟩
      simp [Section.opened]
    | iterate =>
      obtain ⟨t', hR', hrun⟩ := ih ses fuel rest hR₁ hsub hadm'
      refine ⟨t', hR', (loadLoop_cons (fun n =>
        loadLoop_ref_of_mem (Or.inl rfl) hreg hsub hsec hload hr n) hrun).trans ?_⟩
      simp [Section.opened]
    | complete =>
      obtain ⟨t', hR', hrun⟩ := ih ses fuel rest hR₁ hsub hadm'
      refine ⟨t', hR', (loadLoop_cons (fun n =>
        loadLoop_ref_of_mem (Or.inr rfl) hreg hsub hsec hload hr n) hrun).trans ?_⟩
      simp [Section.opened]
  | @full se s s₁ s' p secs hsave _ ih =>
    intro t ses fuel rest hR hsub hadm
    obtain ⟨r, t₁, hr, hR₁, hload⟩ := hC.saveState hR hsave (secs.flatMap Section.encode ++ rest)
    have hsec : se ∈ handlers := hadm _ List.mem_cons_self
    obtain ⟨t', hR', hrun⟩ := ih (se :: ses) fuel rest hR₁ (by simpa using ⟨hsec, hsub⟩)
      (fun sec h => (hadm sec (List.mem_cons_of_mem _ h)).mono (by simp_all))
    refine ⟨t', hR', (loadLoop_cons (fun n =>
      loadLoop_header (Or.inr rfl) hreg hsec hload hr n _) hrun).trans ?_⟩
    simp [Section.opened]

/-! ## The loader ends -/

/-- A pass of `qemu_loadvm_state`'s loop returns, or goes on with fewer
bytes left: the section type byte was read, and every read after it, the
handler's load included, reads on. -/
theorem loadLoop_succ (hL : ∀ se v t (f : InFile), f.Later (L.vmstateLoad se v t f).2.2) (fuel : ℕ)
    (les : List LoadStateEntry) (t : τ) (f : InFile) :
    (loadLoop L handlers (fuel + 1) les t f).isSome ∨
      ∃ les' t' f', f'.rest.length < f.rest.length ∧
        loadLoop L handlers (fuel + 1) les t f = loadLoop L handlers fuel les' t' f' := by
  rcases hb : f.getByte with ⟨ty, f₁⟩
  by_cases h₀ : ty = QEMU_VM_EOF
  · left
    simp [loadLoop, hb, h₀]
  -- the type byte was there: at the end of the data it reads as `QEMU_VM_EOF`
  have hlt : f₁.rest.length < f.rest.length := by
    rcases hf : f.rest with _ | ⟨b, r⟩
    · rw [InFile.getByte_of_nil hf] at hb
      cases hb
      exact absurd rfl h₀
    · have hrest : f₁.rest = r := by
        rw [← congrArg (fun x => x.2.rest) hb]
        simp [InFile.getByte, hf]
      simp [hrest]
  have hload : ∀ se v t f₂, f₁.Later f₂ →
      (L.vmstateLoad se v t f₂).2.2.rest.length < f.rest.length :=
    fun se v t f₂ h => by
      have := (h.trans (hL se v t f₂)).length_le
      omega
  simp only [loadLoop, hb, if_neg h₀]
  split_ifs with h₁ h₂
  · -- a `START` or `FULL` header, then the handler's load
    rcases h3 : f₁.getBe32 with ⟨sid, f₂⟩
    rcases h4 : f₂.getByte with ⟨len, f₃⟩
    rcases h5 : f₃.getBuffer len with ⟨idstr, f₄⟩
    rcases h6 : f₄.getBe32 with ⟨inst, f₅⟩
    rcases h7 : f₅.getBe32 with ⟨ver, f₆⟩
    have hl : f₁.Later f₆ := by
      have l3 : f₁.Later f₂ := by simpa [h3] using f₁.later_getBe32
      have l4 : f₂.Later f₃ := by simpa [h4] using f₂.later_getByte
      have l5 : f₃.Later f₄ := by simpa [h5] using f₃.later_getBuffer len
      have l6 : f₄.Later f₅ := by simpa [h6] using f₄.later_getBe32
      have l7 : f₅.Later f₆ := by simpa [h7] using f₅.later_getBe32
      exact l3.trans (l4.trans (l5.trans (l6.trans l7)))
    simp only
    split
    · exact .inl rfl
    · split_ifs
      · exact .inl rfl
      · exact .inl rfl
      · exact .inr ⟨_, _, _, hload _ _ _ _ hl, rfl⟩
  · -- a `PART` or `END` header, then the handler's load
    rcases h3 : f₁.getBe32 with ⟨sid, f₂⟩
    have hl : f₁.Later f₂ := by simpa [h3] using f₁.later_getBe32
    simp only
    split
    · exact .inl rfl
    · split_ifs
      · exact .inl rfl
      · exact .inr ⟨_, _, _, hload _ _ _ _ hl, rfl⟩
  · exact .inl rfl

/-- The loop of `qemu_loadvm_state` returns within one pass more than the
stream has bytes. -/
theorem loadLoop_isSome (hL : ∀ se v t (f : InFile), f.Later (L.vmstateLoad se v t f).2.2) :
    ∀ (fuel : ℕ) (les : List LoadStateEntry) (t : τ) (f : InFile), f.rest.length < fuel →
      (loadLoop L handlers fuel les t f).isSome
  | 0, _, _, _, h => absurd h (Nat.not_lt_zero _)
  | fuel + 1, les, t, f, h => by
    rcases loadLoop_succ hL fuel les t f with hs | ⟨les', t', f', hlt, heq⟩
    · exact hs
    · rw [heq]
      exact loadLoop_isSome hL fuel les' t' f' (by omega)

/-- `qemu_loadvm_state` returns on every stream, well formed or not, when
the handlers' loads only read forward: the loop's `QEMU_VM_EOF` test sees a
0 once the data is used up. -/
theorem qemuLoadvmState_isSome (hL : ∀ se v t (f : InFile), f.Later (L.vmstateLoad se v t f).2.2)
    (t : τ) (f : InFile) : (qemuLoadvmState L handlers t f).isSome := by
  rw [qemuLoadvmState]
  split_ifs
  · rfl
  · rcases f.getBe32 with ⟨v, f₁⟩
    simp only
    rcases f₁.getBe32 with ⟨v', f₂⟩
    simp only
    split_ifs
    · rfl
    · rfl
    · rfl
    · simpa using loadLoop_isSome hL (f₂.rest.length + 1) [] t f₂ (Nat.lt_succ_self _)

end Loading

/-! ## The source writes runs of sections -/

section Writing

variable {σ : Type} {D : Devices σ} {handlers : List SaveStateEntry}

theorem Wrote.append {s s₁ s₂ : σ} {a b : List Section} (ha : Wrote D s a s₁)
    (hb : Wrote D s₁ b s₂) : Wrote D s (a ++ b) s₂ := by
  induction ha with
  | nil => exact hb
  | live hsave hret _ ih => exact .live hsave hret (ih hb)
  | full hsave _ ih => exact .full hsave (ih hb)

theorem Devices.Steady.active_saveLive (hD : D.Steady) (ph : LivePhase) (se : SaveStateEntry)
    (s : σ) : D.active (D.saveLive ph se s).2.2 = D.active s := by
  funext se'
  simp [Devices.active, hD.isActive_saveLive]

theorem Devices.Steady.active_saveState (hD : D.Steady) (se : SaveStateEntry) (s : σ) :
    D.active (D.saveState se s).2 = D.active s := by
  funext se'
  simp [Devices.active, hD.isActive_saveState]

/-- Along what the handlers write, which handlers are active stays as it
was. -/
theorem Wrote.active (hD : D.Steady) {s s' : σ} {secs : List Section} (hw : Wrote D s secs s') :
    D.active s' = D.active s := by
  induction hw with
  | nil => rfl
  | @live ph se s s₁ s' ret p secs hsave _ _ ih =>
    rw [ih, ← hD.active_saveLive ph se s, hsave]
  | @full se s s₁ s' p secs hsave _ ih =>
    rw [ih, ← hD.active_saveState se s, hsave]

/-- The sections `qemu_savevm_state_begin`'s loop writes when no
`save_live_setup` fails: a `START` for each handler of `ses` with the hook
that is active, in order. -/
theorem beginLoop_sections (hD : D.Steady) :
    ∀ {ses : List SaveStateEntry} {s s' : σ} {ret : ℤ} {w : List UInt8},
      beginLoop D handlers ses s = (ret, s', w) → 0 ≤ ret →
      ret = 0 ∧ ∃ secs, w = secs.flatMap Section.encode ∧ Wrote D s secs s' ∧
        secs.flatMap Section.opened =
          ses.filter (fun se => se.has (·.saveLiveSetup) && D.active s se) ∧
        ∀ sec ∈ secs, ∃ se ∈ ses, ∃ p, sec = .live .setup se p
  | [], s, s', ret, w, h, _ => by
    simp only [beginLoop, Prod.mk.injEq] at h
    obtain ⟨rfl, rfl, rfl⟩ := h
    exact ⟨rfl, [], rfl, .nil s, rfl, by simp⟩
  | se :: ses, s, s', ret, w, h, hret => by
    rw [beginLoop] at h
    by_cases hskip : (!se.has (·.saveLiveSetup) || !D.active s se) = true
    · -- the handler has no `save_live_setup` or is not active
      rw [if_pos hskip] at h
      obtain ⟨hret0, secs, rfl, hw, hopen, hsecs⟩ := beginLoop_sections hD h hret
      refine ⟨hret0, secs, rfl, hw, ?_, fun sec hsec => ?_⟩
      · have : (se.has (·.saveLiveSetup) && D.active s se) = false := by
          revert hskip
          cases se.has (·.saveLiveSetup) <;> cases D.active s se <;> decide
        simp [this, hopen]
      · obtain ⟨se', hse', hsec'⟩ := hsecs sec hsec
        exact ⟨se', List.mem_cons_of_mem _ hse', hsec'⟩
    · have hsel : (se.has (·.saveLiveSetup) && D.active s se) = true := by
        revert hskip
        cases se.has (·.saveLiveSetup) <;> cases D.active s se <;> decide
      rcases hsave : D.saveLive .setup se s with ⟨ret₁, p₁, s₁⟩
      rcases hb : beginLoop D handlers ses s₁ with ⟨ret₂, s₂, w₂⟩
      simp only [if_neg hskip, hsave, hb] at h
      by_cases hneg : ret₁ < 0
      · simp only [if_pos hneg, Prod.mk.injEq] at h
        omega
      · simp only [if_neg hneg, Prod.mk.injEq] at h
        obtain ⟨rfl, rfl, rfl⟩ := h
        obtain ⟨hret0, secs, rfl, hw, hopen, hsecs⟩ := beginLoop_sections hD hb hret
        refine ⟨hret0, .live .setup se p₁ :: secs, by simp [Section.encode], .live hsave (by omega) hw,
          ?_, ?_⟩
        · have hact : D.active s₁ = D.active s := by
            rw [← hD.active_saveLive .setup se s, hsave]
          rw [List.flatMap_cons, hopen, hact]
          simp [Section.opened, hsel]
        · intro sec hsec
          rcases List.mem_cons.1 hsec with rfl | hsec
          · exact ⟨se, List.mem_cons_self, _, rfl⟩
          · obtain ⟨se', hse', hsec'⟩ := hsecs sec hsec
            exact ⟨se', List.mem_cons_of_mem _ hse', hsec'⟩

/-- The sections the loop of `qemu_savevm_state_iterate` writes when it
does not end on a negative value: a `PART` for handlers of `ses` with the
hook that are active, in order, until the rate limit or a handler stops
it. -/
theorem iterateLoop_sections (hD : D.Steady) :
    ∀ {ses : List SaveStateEntry} {ret₀ : ℤ} {s s' : σ} {ret : Option ℤ} {w : List UInt8},
      iterateLoop D ses ret₀ s = (ret, s', w) → (∀ r, ret = some r → 0 ≤ r) →
      ∃ secs, w = secs.flatMap Section.encode ∧ Wrote D s secs s' ∧
        (∀ sec ∈ secs, sec.AfterBegin D ses s) ∧ ∀ sec ∈ secs, ∃ se p, sec = .live .iterate se p
  | [], ret₀, s, s', ret, w, h, _ => by
    simp only [iterateLoop, Prod.mk.injEq] at h
    obtain ⟨-, rfl, rfl⟩ := h
    exact ⟨[], rfl, .nil s, by simp, by simp⟩
  | se :: ses, ret₀, s, s', ret, w, h, hret => by
    rw [iterateLoop] at h
    have hsub : ∀ x ∈ ses, x ∈ se :: ses := fun x hx => List.mem_cons_of_mem _ hx
    by_cases hskip : (!se.has (·.saveLiveIterate) || !D.active s se) = true
    · -- the handler has no `save_live_iterate` or is not active
      rw [if_pos hskip] at h
      obtain ⟨secs, rfl, hw, hafter, hpart⟩ := iterateLoop_sections hD h hret
      exact ⟨secs, rfl, hw, fun sec hsec => (hafter sec hsec).mono hsub rfl, hpart⟩
    · have hsel : se.has (·.saveLiveIterate) = true ∧ D.active s se = true := by
        revert hskip
        cases se.has (·.saveLiveIterate) <;> cases D.active s se <;> decide
      rw [if_neg hskip] at h
      by_cases hlim : D.rateLimit s = true
      · -- `qemu_file_rate_limit` returns 0 from inside the loop
        simp only [if_pos hlim, Prod.mk.injEq] at h
        obtain ⟨-, rfl, rfl⟩ := h
        exact ⟨[], rfl, .nil s, by simp, by simp⟩
      · rcases hsave : D.saveLive .iterate se s with ⟨ret₁, p₁, s₁⟩
        have hact : D.active s₁ = D.active s := by
          rw [← hD.active_saveLive .iterate se s, hsave]
        simp only [if_neg hlim, hsave] at h
        by_cases hstop : ret₁ ≤ 0
        · -- the handler is not done: the loop stops after its section
          simp only [if_pos hstop, Prod.mk.injEq] at h
          obtain ⟨rfl, rfl, rfl⟩ := h
          refine ⟨[.live .iterate se p₁], by simp [Section.encode],
            .live hsave (hret ret₁ rfl) (.nil _), ?_, by simp⟩
          simpa [Section.AfterBegin] using hsel
        · rcases hb : iterateLoop D ses ret₁ s₁ with ⟨ret₂, s₂, w₂⟩
          simp only [if_neg hstop, hb, Prod.mk.injEq] at h
          obtain ⟨rfl, rfl, rfl⟩ := h
          obtain ⟨secs, rfl, hw, hafter, hpart⟩ := iterateLoop_sections hD hb hret
          refine ⟨.live .iterate se p₁ :: secs, by simp [Section.encode],
            .live hsave (by omega) hw, ?_, ?_⟩
          · intro sec hsec
            rcases List.mem_cons.1 hsec with rfl | hsec
            · exact ⟨List.mem_cons_self, hsel⟩
            · exact (hafter sec hsec).mono hsub hact
          · intro sec hsec
            rcases List.mem_cons.1 hsec with rfl | hsec
            · exact ⟨se, p₁, rfl⟩
            · exact hpart sec hsec

/-- The sections the first loop of `qemu_savevm_state_complete` writes when
no `save_live_complete` fails: an `END` for each handler of `ses` with the
hook that is active, in order. -/
theorem completeLiveLoop_sections (hD : D.Steady) :
    ∀ {ses : List SaveStateEntry} {s s' : σ} {ret : Option ℤ} {w : List UInt8},
      completeLiveLoop D ses s = (ret, s', w) → (∀ r, ret = some r → 0 ≤ r) →
      ret = none ∧ ∃ secs, w = secs.flatMap Section.encode ∧ Wrote D s secs s' ∧
        ∀ sec ∈ secs, sec.AfterBegin D ses s
  | [], s, s', ret, w, h, _ => by
    simp only [completeLiveLoop, Prod.mk.injEq] at h
    obtain ⟨rfl, rfl, rfl⟩ := h
    exact ⟨rfl, [], rfl, .nil s, by simp⟩
  | se :: ses, s, s', ret, w, h, hret => by
    rw [completeLiveLoop] at h
    have hsub : ∀ x ∈ ses, x ∈ se :: ses := fun x hx => List.mem_cons_of_mem _ hx
    by_cases hskip : (!se.has (·.saveLiveComplete) || !D.active s se) = true
    · rw [if_pos hskip] at h
      obtain ⟨hnone, secs, rfl, hw, hafter⟩ := completeLiveLoop_sections hD h hret
      exact ⟨hnone, secs, rfl, hw, fun sec hsec => (hafter sec hsec).mono hsub rfl⟩
    · have hsel : se.has (·.saveLiveComplete) = true ∧ D.active s se = true := by
        revert hskip
        cases se.has (·.saveLiveComplete) <;> cases D.active s se <;> decide
      rcases hsave : D.saveLive .complete se s with ⟨ret₁, p₁, s₁⟩
      have hact : D.active s₁ = D.active s := by
        rw [← hD.active_saveLive .complete se s, hsave]
      simp only [if_neg hskip, hsave] at h
      by_cases hneg : ret₁ < 0
      · simp only [if_pos hneg, Prod.mk.injEq] at h
        obtain ⟨rfl, -, -⟩ := h
        exact absurd (hret ret₁ rfl) (by omega)
      · rcases hb : completeLiveLoop D ses s₁ with ⟨ret₂, s₂, w₂⟩
        simp only [if_neg hneg, hb, Prod.mk.injEq] at h
        obtain ⟨rfl, rfl, rfl⟩ := h
        obtain ⟨hnone, secs, rfl, hw, hafter⟩ := completeLiveLoop_sections hD hb hret
        refine ⟨hnone, .live .complete se p₁ :: secs, by simp [Section.encode],
          .live hsave (by omega) hw, ?_⟩
        intro sec hsec
        rcases List.mem_cons.1 hsec with rfl | hsec
        · exact ⟨List.mem_cons_self, hsel⟩
        · exact (hafter sec hsec).mono hsub hact

/-- The sections the second loop of `qemu_savevm_state_complete` writes: a
`FULL` for each handler of `ses` with `save_state` or a `vmsd`. -/
theorem completeFullLoop_sections (hD : D.Steady) :
    ∀ {ses : List SaveStateEntry} {s s' : σ} {w : List UInt8},
      completeFullLoop D ses s = (s', w) →
      ∃ secs, w = secs.flatMap Section.encode ∧ Wrote D s secs s' ∧
        ∀ sec ∈ secs, sec.AfterBegin D ses s
  | [], s, s', w, h => by
    simp only [completeFullLoop, Prod.mk.injEq] at h
    obtain ⟨rfl, rfl⟩ := h
    exact ⟨[], rfl, .nil s, by simp⟩
  | se :: ses, s, s', w, h => by
    rw [completeFullLoop] at h
    have hsub : ∀ x ∈ ses, x ∈ se :: ses := fun x hx => List.mem_cons_of_mem _ hx
    split_ifs at h with hskip
    · obtain ⟨secs, rfl, hw, hafter⟩ := completeFullLoop_sections hD h
      exact ⟨secs, rfl, hw, fun sec hsec => (hafter sec hsec).mono hsub rfl⟩
    · rcases hsave : D.saveState se s with ⟨p₁, s₁⟩
      rcases hb : completeFullLoop D ses s₁ with ⟨s₂, w₂⟩
      simp only [hsave, hb, Prod.mk.injEq] at h
      obtain ⟨rfl, rfl⟩ := h
      obtain ⟨secs, rfl, hw, hafter⟩ := completeFullLoop_sections hD hb
      have hact : D.active s₁ = D.active s := by
        rw [← hD.active_saveState se s, hsave]
      refine ⟨.full se p₁ :: secs, by simp [Section.encode], .full hsave hw, ?_⟩
      intro sec hsec
      rcases List.mem_cons.1 hsec with rfl | hsec
      · exact List.mem_cons_self
      · exact (hafter sec hsec).mono hsub hact

/-- What `qemu_savevm_state_begin` writes when it succeeds: the file
header, then a `START` for each handler with `save_live_setup` that is
active after the `set_params` loop. -/
theorem qemuSavevmStateBegin_sections (hD : D.Steady) {params : MigrationParams} {s s' : σ}
    {ret : ℤ} {w : List UInt8} (h : qemuSavevmStateBegin D handlers params s = (ret, s', w))
    (hret : 0 ≤ ret) :
    ret = 0 ∧ ∃ secs, w = qemuPutBe32 QEMU_VM_FILE_MAGIC ++ qemuPutBe32 QEMU_VM_FILE_VERSION ++
        secs.flatMap Section.encode ∧ Wrote D (setParamsLoop D handlers params s) secs s' ∧
      secs.flatMap Section.opened = handlers.filter
        (fun se => se.has (·.saveLiveSetup) && D.active (setParamsLoop D handlers params s) se) ∧
      ∀ sec ∈ secs, ∃ se ∈ handlers, ∃ p, sec = .live .setup se p := by
  simp only [qemuSavevmStateBegin] at h
  rcases hb : beginLoop D handlers handlers (setParamsLoop D handlers params s) with ⟨ret₁, s₁, w₁⟩
  simp only [hb] at h
  by_cases hneg : ret₁ < 0
  · simp only [if_pos hneg, Prod.mk.injEq] at h
    omega
  · simp only [if_neg hneg, Prod.mk.injEq] at h
    obtain ⟨rfl, rfl, rfl⟩ := h
    -- the file's error is 0: no error is positive
    have hfe : D.fileError s₁ = 0 := le_antisymm (hD.fileError_nonpos s₁) hret
    obtain ⟨-, secs, rfl, hw, hopen, hsecs⟩ := beginLoop_sections hD hb (by omega)
    exact ⟨hfe, secs, by simp, by simpa [hfe] using hw, hopen, hsecs⟩

/-- What `qemu_savevm_state_iterate` writes when it does not fail: `PART`
sections of handlers with `save_live_iterate` that are active. -/
theorem qemuSavevmStateIterate_sections (hD : D.Steady) {s s' : σ} {ret : ℤ} {w : List UInt8}
    (h : qemuSavevmStateIterate D handlers s = (ret, s', w)) (hret : 0 ≤ ret) :
    ∃ secs, w = secs.flatMap Section.encode ∧ Wrote D s secs s' ∧
      ∀ sec ∈ secs, sec.AfterBegin D handlers s := by
  rw [qemuSavevmStateIterate] at h
  rcases hl : iterateLoop D handlers 1 s with ⟨_ | r, s₁, w₁⟩
  · -- the rate limit stopped the loop
    simp only [hl, Prod.mk.injEq] at h
    obtain ⟨-, rfl, rfl⟩ := h
    obtain ⟨secs, rfl, hw, hafter, -⟩ := iterateLoop_sections hD hl (by simp)
    exact ⟨secs, rfl, hw, hafter⟩
  · simp only [hl] at h
    by_cases hr : r ≠ 0
    · simp only [if_pos hr, Prod.mk.injEq] at h
      obtain ⟨rfl, rfl, rfl⟩ := h
      obtain ⟨secs, rfl, hw, hafter, -⟩ := iterateLoop_sections hD hl (by simpa using hret)
      exact ⟨secs, rfl, hw, hafter⟩
    · -- a handler is not done: the file's error decides
      simp only [if_neg hr, Prod.mk.injEq] at h
      obtain ⟨hfe, rfl, rfl⟩ := h
      have hfe0 : D.fileError s₁ = 0 := le_antisymm (hD.fileError_nonpos s₁) (hfe ▸ hret)
      obtain ⟨secs, rfl, hw, hafter, -⟩ := iterateLoop_sections hD hl (by simp; omega)
      exact ⟨secs, rfl, by simpa [hfe0] using hw, hafter⟩

/-- What `qemu_savevm_state_complete` writes when it succeeds: the `END`
sections of the active live handlers, the `FULL` sections, and
`QEMU_VM_EOF`. -/
theorem qemuSavevmStateComplete_sections (hD : D.Steady) {s s' : σ} {ret : ℤ}
    {w : List UInt8} (h : qemuSavevmStateComplete D handlers s = (ret, s', w)) (hret : 0 ≤ ret) :
    ∃ secs, w = secs.flatMap Section.encode ++ qemuPutByte QEMU_VM_EOF ∧ Wrote D s secs s' ∧
      ∀ sec ∈ secs, sec.AfterBegin D handlers s := by
  rw [qemuSavevmStateComplete] at h
  rcases hl : completeLiveLoop D handlers s with ⟨_ | r, s₁, w₁⟩
  · rcases hf : completeFullLoop D handlers s₁ with ⟨s₂, w₂⟩
    simp only [hl, hf, Prod.mk.injEq] at h
    obtain ⟨-, rfl, rfl⟩ := h
    obtain ⟨-, secs₁, rfl, hw₁, hafter₁⟩ := completeLiveLoop_sections hD hl (by simp)
    obtain ⟨secs₂, rfl, hw₂, hafter₂⟩ := completeFullLoop_sections hD hf
    refine ⟨secs₁ ++ secs₂, by simp, hw₁.append hw₂, fun sec hsec => ?_⟩
    rcases List.mem_append.1 hsec with hsec | hsec
    · exact hafter₁ sec hsec
    · exact (hafter₂ sec hsec).mono (fun _ hx => hx) (hw₁.active hD)
  · -- a `save_live_complete` failed
    simp only [hl, Prod.mk.injEq] at h
    obtain ⟨rfl, -, -⟩ := h
    exact absurd (completeLiveLoop_sections hD hl (by simpa using hret)).1 (by simp)

/-- What the `do ... while` loop of `qemu_savevm_state` writes when it ends
on a value that is not negative. -/
theorem iterateWhileZero_sections (hD : D.Steady) :
    ∀ {fuel : ℕ} {s s' : σ} {ret : ℤ} {w : List UInt8},
      iterateWhileZero D handlers fuel s = some (ret, s', w) → 0 ≤ ret →
      ∃ secs, w = secs.flatMap Section.encode ∧ Wrote D s secs s' ∧
        ∀ sec ∈ secs, sec.AfterBegin D handlers s
  | 0, _, _, _, _, h, _ => by simp [iterateWhileZero] at h
  | fuel + 1, s, s', ret, w, h, hret => by
    rcases hi : qemuSavevmStateIterate D handlers s with ⟨ret₁, s₁, w₁⟩
    simp only [iterateWhileZero, hi] at h
    by_cases h0 : ret₁ = 0
    · -- the handlers are not done: one more call
      simp only [if_pos h0, Option.map_eq_some_iff] at h
      obtain ⟨⟨ret₂, s₂, w₂⟩, hrec, heq⟩ := h
      simp only [Prod.mk.injEq] at heq
      obtain ⟨rfl, rfl, rfl⟩ := heq
      obtain ⟨secs₁, rfl, hw₁, hafter₁⟩ := qemuSavevmStateIterate_sections hD hi (by omega)
      obtain ⟨secs₂, rfl, hw₂, hafter₂⟩ := iterateWhileZero_sections hD hrec hret
      refine ⟨secs₁ ++ secs₂, by simp, hw₁.append hw₂, fun sec hsec => ?_⟩
      rcases List.mem_append.1 hsec with hsec | hsec
      · exact hafter₁ sec hsec
      · exact (hafter₂ sec hsec).mono (fun _ hx => hx) (hw₁.active hD)
    · simp only [if_neg h0, Option.some.injEq, Prod.mk.injEq] at h
      obtain ⟨rfl, rfl, rfl⟩ := h
      exact qemuSavevmStateIterate_sections hD hi hret

/-- What a `qemu_savevm_state` that returns 0 wrote: the file header, the
`START` sections of the handlers active after `set_params`, then `PART`,
`END` and `FULL` sections, then `QEMU_VM_EOF`. -/
theorem qemuSavevmState_sections (hD : D.Steady) {fuel : ℕ} {s s' : σ} {w : List UInt8}
    (h : qemuSavevmState D handlers fuel s = some (0, s', w)) :
    qemuSavevmStateBlocked handlers = false ∧
    ∃ secs₀ secs s₁,
      w = qemuPutBe32 QEMU_VM_FILE_MAGIC ++ qemuPutBe32 QEMU_VM_FILE_VERSION ++
        (secs₀.flatMap Section.encode ++ (secs.flatMap Section.encode ++
          qemuPutByte QEMU_VM_EOF)) ∧
      Wrote D (setParamsLoop D handlers ⟨false, false⟩ s) secs₀ s₁ ∧ Wrote D s₁ secs s' ∧
      secs₀.flatMap Section.opened = handlers.filter (fun se => se.has (·.saveLiveSetup) &&
        D.active (setParamsLoop D handlers ⟨false, false⟩ s) se) ∧
      (∀ sec ∈ secs₀, ∃ se ∈ handlers, ∃ p, sec = .live .setup se p) ∧
      ∀ sec ∈ secs, sec.AfterBegin D handlers (setParamsLoop D handlers ⟨false, false⟩ s) := by
  simp only [qemuSavevmState] at h
  by_cases hblk : qemuSavevmStateBlocked handlers = true
  · simp [hblk, EINVAL] at h
  refine ⟨by simpa using hblk, ?_⟩
  rcases hb : qemuSavevmStateBegin D handlers ⟨false, false⟩ s with ⟨ret₁, s₁, w₁⟩
  rw [if_neg hblk, hb] at h
  by_cases hneg₁ : ret₁ < 0
  · simp only [if_pos hneg₁, Option.some.injEq, Prod.mk.injEq] at h
    obtain ⟨h₁, -, -⟩ := h
    split_ifs at h₁ <;> omega
  simp only [if_neg hneg₁, Option.map_eq_some_iff] at h
  obtain ⟨⟨ret₂, s₂, w₂⟩, hi, heq⟩ := h
  by_cases hneg₂ : ret₂ < 0
  · simp only [if_pos hneg₂, Prod.mk.injEq] at heq
    obtain ⟨h₂, -, -⟩ := heq
    split_ifs at h₂ <;> omega
  rcases hc : qemuSavevmStateComplete D handlers s₂ with ⟨ret₃, s₃, w₃⟩
  simp only [if_neg hneg₂, hc, Prod.mk.injEq] at heq
  obtain ⟨hret₃, rfl, rfl⟩ := heq
  -- `out:` returns what `qemu_savevm_state_complete` returned when it is not 0
  have hret₃' : ret₃ = 0 := by split_ifs at hret₃ <;> omega
  obtain ⟨-, secs₀, rfl, hw₀, hopen, hsetup⟩ := qemuSavevmStateBegin_sections hD hb (by omega)
  obtain ⟨secsI, rfl, hwI, hafterI⟩ := iterateWhileZero_sections hD hi (by omega)
  obtain ⟨secsC, rfl, hwC, hafterC⟩ := qemuSavevmStateComplete_sections hD hc (by omega)
  have hact₁ := hw₀.active hD
  have hact₂ := hwI.active hD
  refine ⟨secs₀, secsI ++ secsC, s₁, by simp, hw₀, hwI.append hwC, hopen, hsetup,
    fun sec hsec => ?_⟩
  rcases List.mem_append.1 hsec with hsec | hsec
  · exact (hafterI sec hsec).mono (fun _ hx => hx) hact₁
  · exact (hafterC sec hsec).mono (fun _ hx => hx) (hact₂.trans hact₁)

end Writing

/-! ## The round trip -/

section RoundTrip

variable {σ τ : Type} {D : Devices σ} {L : Loaders τ} {R : σ → τ → Prop}
  {handlers : List SaveStateEntry}

theorem setParamsLoop_rel (hC : Compatible D L R) (params : MigrationParams) {t : τ} :
    ∀ {ses : List SaveStateEntry} {s : σ}, R s t → R (setParamsLoop D ses params s) t
  | [], _, hR => hR
  | se :: ses, s, hR => by
    rw [setParamsLoop, List.foldl_cons]
    split_ifs
    · exact setParamsLoop_rel hC params (hC.setParams hR)
    · exact setParamsLoop_rel hC params hR

/-- A section written after `qemu_savevm_state_begin` is one the loader
takes once the handlers `started` are in `loadvm_handlers`, when those are
the live handlers active at the start: a `PART` or `END` comes from a
handler with `save_live_setup`, which had its `START`. -/
theorem Section.AfterBegin.admissible (hreg : Registered handlers) {s₀ : σ}
    {started : List SaveStateEntry}
    (hstarted : ∀ se ∈ handlers, se.has (·.saveLiveSetup) = true → D.active s₀ se = true →
      se ∈ started)
    {sec : Section} (h : sec.AfterBegin D handlers s₀) : sec.Admissible handlers started := by
  cases sec with
  | live ph se p =>
    cases ph with
    | setup => exact h.elim
    | iterate =>
      obtain ⟨hse, hhook, hact⟩ := h
      exact hstarted se hse (hreg.setup_of_live se hse (by simp [hhook])) hact
    | complete =>
      obtain ⟨hse, hhook, hact⟩ := h
      exact hstarted se hse (hreg.setup_of_live se hse (by simp [hhook])) hact
  | full se p => exact h

/-- The header `qemu_loadvm_state` checks before its loop. -/
theorem qemuLoadvmState_header (hblk : qemuSavevmStateBlocked handlers = false) (t : τ)
    (rest : List UInt8) :
    qemuLoadvmState L handlers t
        ⟨qemuPutBe32 QEMU_VM_FILE_MAGIC ++ (qemuPutBe32 QEMU_VM_FILE_VERSION ++ rest), false⟩ =
      (loadLoop L handlers (rest.length + 1) [] t ⟨rest, false⟩).map fun r =>
        ((if r.1 = 0 then (if r.2.2.error then - Incoming.EIO else 0) else r.1), r.2.1, r.2.2) := by
  have hmagic : QEMU_VM_FILE_MAGIC < 2 ^ 32 := by decide
  have hversion : QEMU_VM_FILE_VERSION < 2 ^ 32 := by decide
  simp only [qemuLoadvmState, hblk, InFile.getBe32_put hmagic, InFile.getBe32_put hversion]
  simp [QEMU_VM_FILE_VERSION, QEMU_VM_FILE_VERSION_COMPAT]

/-- The migration stream round trip. When each destination load reads back
exactly what the source's hook wrote (`Compatible`) and the handlers are
the same on both sides (`Registered`), the destination loads the whole
stream of a `qemu_savevm_state` that returned 0: `qemu_loadvm_state`
returns 0, leaves the file just after the `QEMU_VM_EOF` byte, and the two
machines are related as the handlers' loads relate them. -/
theorem qemuLoadvmState_qemuSavevmState (hD : D.Steady) (hC : Compatible D L R)
    (hreg : Registered handlers) {fuel : ℕ} {s s' : σ} {t : τ} {w : List UInt8}
    (hR : R s t) (h : qemuSavevmState D handlers fuel s = some (0, s', w))
    (more : List UInt8) :
    ∃ t', qemuLoadvmState L handlers t ⟨w ++ more, false⟩ = some (0, t', ⟨more, false⟩) ∧
      R s' t' := by
  obtain ⟨hblk, secs₀, secs, s₁, rfl, hw₀, hw, hopen, hsetup, hafter⟩ :=
    qemuSavevmState_sections hD h
  set s₀ := setParamsLoop D handlers ⟨false, false⟩ s
  have hR₀ : R s₀ t := setParamsLoop_rel hC _ hR
  -- the loader's fuel, one more than the length of the stream, covers the sections
  set rest := secs.flatMap Section.encode ++ (qemuPutByte QEMU_VM_EOF ++ more)
  have hlen₀ := length_le_length_flatMap_encode secs₀
  have hlen := length_le_length_flatMap_encode secs
  have hlen' : (secs₀.flatMap Section.encode ++ rest).length =
      (secs₀.flatMap Section.encode).length + (secs.flatMap Section.encode).length +
        (qemuPutByte QEMU_VM_EOF ++ more).length := by
    simp only [rest, List.length_append]
    omega
  obtain ⟨k, hk⟩ : ∃ k, (secs₀.flatMap Section.encode ++ rest).length + 1 =
      k + 1 + secs.length + secs₀.length :=
    ⟨(secs₀.flatMap Section.encode ++ rest).length - secs.length - secs₀.length, by omega⟩
  -- the `START` sections of `qemu_savevm_state_begin`
  obtain ⟨t₁, hR₁, hrun₀⟩ := loadLoop_sections (L := L) hC hreg hw₀ []
    (k + 1 + secs.length) rest hR₀ (by simp) (fun sec hsec => by
      obtain ⟨se, hse, p, rfl⟩ := hsetup sec hsec
      exact hse)
  -- then the `PART`, `END` and `FULL` sections, with every live handler started
  set started := (secs₀.flatMap Section.opened).reverse ++ []
  have hstarted : ∀ se ∈ handlers, se.has (·.saveLiveSetup) = true → D.active s₀ se = true →
      se ∈ started := by
    intro se hse hs ha
    simp [started, hopen, hse, hs, ha]
  have hsub : ∀ x ∈ started, x ∈ handlers := by
    intro x hx
    simp only [started, hopen, List.append_nil, List.mem_reverse, List.mem_filter] at hx
    exact hx.1
  obtain ⟨t₂, hR₂, hrun⟩ := loadLoop_sections (L := L) hC hreg hw started (k + 1)
    (qemuPutByte QEMU_VM_EOF ++ more) hR₁ hsub
    (fun sec hsec => (hafter sec hsec).admissible hreg hstarted)
  refine ⟨t₂, ?_, hR₂⟩
  have hstream : qemuPutBe32 QEMU_VM_FILE_MAGIC ++ qemuPutBe32 QEMU_VM_FILE_VERSION ++
      (secs₀.flatMap Section.encode ++ (secs.flatMap Section.encode ++
        qemuPutByte QEMU_VM_EOF)) ++ more =
      qemuPutBe32 QEMU_VM_FILE_MAGIC ++ (qemuPutBe32 QEMU_VM_FILE_VERSION ++
        (secs₀.flatMap Section.encode ++ rest)) := by
    simp [rest]
  simp only [List.map_nil] at hrun₀
  rw [hstream, qemuLoadvmState_header hblk, hk, hrun₀, hrun, loadLoop_eof]
  simp

/-- Two handlers as a machine registers them: a live one like RAM's
(`save_live_setup`, `save_live_iterate`, `save_live_complete`, `cancel`)
and a device with a `vmsd`. -/
def liveAndDevice : List SaveStateEntry :=
  [⟨⟨[114, 97, 109], by decide, by decide⟩, 0, 0xffffffff, 4, 0,
      some ⟨false, true, true, true, false, true, false⟩, none, false, false⟩,
    ⟨⟨[100, 101, 118], by decide, by decide⟩, 0, 0xffffffff, 1, 1, none, none, false, true⟩]

/-- Handlers that write one byte, the number of calls so far, and say at
once that they are done; the file never fails. -/
def countingDevices : Devices ℕ where
  setParams _ _ s := s
  isActive _ _ := true
  saveLive _ _ s := (1, [s.toUInt8], s + 1)
  saveState _ s := ([s.toUInt8], s + 1)
  cancel _ s := s
  rateLimit _ := false
  fileError _ := 0

/-- Loads that read one byte and count. -/
def countingLoaders : Loaders ℕ where
  vmstateLoad _ _ t f := (0, t + 1, f.skip 1)

theorem qemuLoadvmState_qemuSavevmState_counting :
    ∃ w, qemuSavevmState countingDevices liveAndDevice 1 0 = some (0, 4, w) ∧
      ∃ t', qemuLoadvmState countingLoaders liveAndDevice 0 ⟨w ++ [], false⟩ =
        some (0, t', ⟨[], false⟩) ∧ 4 = t' := by
  have hD : countingDevices.Steady := ⟨fun _ _ _ _ => rfl, fun _ _ _ => rfl, fun _ => le_rfl⟩
  have hC : Compatible countingDevices countingLoaders (· = ·) := by
    refine ⟨fun hR => hR, ?_, ?_⟩
    · intro ph se s t ret p s' hR hsave _ more
      simp only [countingDevices, Prod.mk.injEq] at hsave
      obtain ⟨rfl, rfl, rfl⟩ := hsave
      exact ⟨0, s + 1, le_rfl, rfl, by simp [countingLoaders, InFile.skip, hR]⟩
    · intro se s t p s' hR hsave more
      simp only [countingDevices, Prod.mk.injEq] at hsave
      obtain ⟨rfl, rfl⟩ := hsave
      exact ⟨0, s + 1, le_rfl, rfl, by simp [countingLoaders, InFile.skip, hR]⟩
  have hsave : qemuSavevmState countingDevices liveAndDevice 1 0 = some (0, 4, _) := rfl
  have hreg : Registered liveAndDevice := ⟨by decide, by decide, by decide⟩
  exact ⟨_, hsave, qemuLoadvmState_qemuSavevmState hD hC hreg rfl hsave []⟩

theorem qemuLoadvmState_isSome_counting :
    (∀ se v t (f : InFile), f.Later (countingLoaders.vmstateLoad se v t f).2.2) ∧
      (qemuLoadvmState countingLoaders liveAndDevice 0 ⟨[1, 2, 3], false⟩).isSome := by
  have hL : ∀ se v t (f : InFile), f.Later (countingLoaders.vmstateLoad se v t f).2.2 :=
    fun _ _ _ f => f.later_skip 1
  exact ⟨hL, qemuLoadvmState_isSome hL 0 _⟩

end RoundTrip

end QemuKvm.Migration.Stream
