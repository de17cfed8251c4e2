import Mathlib.Data.List.Forall2
import Mathlib.Algebra.Group.Int.Defs

/-!
# CloudClone's disk switch (`clone_disk`, `blockdev.c`)

At the end of a cloning the source VM's disks are switched to new qcow2
overlays so that the clone can keep using the old images: for each drive,
`clone_disk` probes the image, creates `<file>_clone` with the image as
backing file, points the drive's `file` option at it (`qemu_opt_reset`),
closes the old image through the driver's `bdrv_close` hook and opens the
overlay in its place.

The block layer (`bdrv_open`, `bdrv_create`, `realpath`) is outside the
model: `BlockEnv` gives its results. The loop keeps the source's control
flow: drives are filtered by interface and media in a nested `switch`, and
the body can `continue`, fall through, or `return` in the middle of the
loop (`-1`, `ret`, `1`).

Main results:

* `cloneDisk_of_ok` — when `clone_disk` returns 0, every drive the switch
  lets through is switched to its `_clone` overlay (created with the old
  image as backing file and its size in whole sectors, reopened as qcow2
  without native AIO), and every other drive is untouched;
* `cloneDisk_skips_virtio` — a virtio disk is never switched.
-/

namespace QemuKvm.Block

/-! ## Data model -/

/-- `BlockInterfaceType` (without `IF_DEFAULT`, which no drive keeps). -/
inductive IfType where
  | none
  | ide
  | scsi
  | floppy
  | pflash
  | mtd
  | sd
  | virtio
  | xen
  | count
  deriving DecidableEq, Repr

/-- `QemuOpts`, newest option first: `qemu_opt_find` walks the list from
its tail, which here is a walk from the head. -/
abbrev QemuOpts := List (String × String)

/-- `qemu_opt_get`: the value of the newest option called `name`. -/
def qemuOptGet : QemuOpts → String → Option String
  | [], _ => none
  | (n, v) :: rest, name => if n = name then some v else qemuOptGet rest name

/-- `qemu_opt_reset` (a CloudClone addition): replace the value of the
option `qemu_opt_find` finds; nothing happens without one. -/
def qemuOptReset : QemuOpts → String → String → QemuOpts
  | [], _, _ => []
  | (n, v) :: rest, name, value =>
    if n = name then (n, value) :: rest else (n, v) :: qemuOptReset rest name value

/-- The image a `BlockDriverState` is attached to: file, driver, open
flags, and whether the driver's close hook has run on it. -/
structure Image where
  file : String
  fmt : String
  flags : UInt32
  closed : Bool
  deriving DecidableEq, Repr

/-- A `DriveInfo`: interface, options and its `BlockDriverState`. -/
structure Drive where
  type : IfType
  opts : QemuOpts
  image : Image
  deriving DecidableEq, Repr

/-- The options `clone_disk` passes to `bdrv_create`: `BLOCK_OPT_SIZE`,
`BLOCK_OPT_BACKING_FILE` and, when set, `BLOCK_OPT_BACKING_FMT`. -/
structure CreateOpts where
  size : Int
  backingFile : String
  backingFmt : Option String
  deriving DecidableEq, Repr

/-- Results of the block layer for `clone_disk`. -/
structure BlockEnv where
  /-- `bdrv_open(bs1, filename, 0, NULL)`: on success the image length
  (`bdrv_getlength`) and whether the probed driver is a protocol. -/
  probe : String → Option (Int × Bool)
  /-- `realpath`. -/
  realpath : String → String
  /-- `bdrv_create(bdrv_qcow2, filename, options)`. -/
  create : String → CreateOpts → Int
  /-- `bdrv_open(dinfo->bdrv, file, flags, bdrv_qcow2)`. -/
  reopen : String → UInt32 → Int

/-- `BDRV_O_NOCACHE`. -/
def BDRV_O_NOCACHE : UInt32 := 0x0020
/-- `BDRV_O_CACHE_WB`. -/
def BDRV_O_CACHE_WB : UInt32 := 0x0040
/-- `BDRV_O_NATIVE_AIO`. -/
def BDRV_O_NATIVE_AIO : UInt32 := 0x0080

/-- `PATH_MAX`: `snprintf` into a `char[PATH_MAX]` keeps `PATH_MAX - 1`
characters. -/
def PATH_MAX : ℕ := 4096

/-- `snprintf(buf, PATH_MAX, "%s", s)`. -/
def snprintfPath (s : String) : String := String.ofList (s.toList.take (PATH_MAX - 1))

/-! ## `clone_disk` -/

/-- The media a drive's options give, as `clone_disk` reads them. -/
inductive Media where
  | disk
  | cdrom
  deriving DecidableEq, Repr

/-- `media`: `MEDIA_DISK` unless the option says `cdrom`. -/
def cloneMedia (opts : QemuOpts) : Media :=
  match qemuOptGet opts "media" with
  | some buf => if buf = "disk" then .disk else if buf = "cdrom" then .cdrom else .disk
  | none => .disk

/-- The nested `switch` on the interface and the media: `true` when the
loop body goes on past it, `false` on `continue`. -/
def cloneSelects (t : IfType) (m : Media) : Bool :=
  match t with
  | .ide | .scsi | .xen | .none =>
    match m with
    | .disk => true
    | .cdrom => false
  | .sd | .floppy | .pflash | .mtd | .virtio | .count => false

/-- `cache`: 0 for `off`/`none`, 2 for `writeback`, 1 otherwise. -/
def cloneCache (opts : QemuOpts) : ℕ :=
  match qemuOptGet opts "cache" with
  | some buf =>
    if buf = "off" ∨ buf = "none" then 0
    else if buf = "writethrough" then 1
    else if buf = "writeback" then 2
    else 1
  | none => 1

/-- `bdrv_flags` for the overlay, from `cache` alone. -/
def cloneFlags (cache : ℕ) : UInt32 :=
  let flags : UInt32 :=
    if cache = 0 then 0 ||| BDRV_O_NOCACHE
    else if cache = 2 then 0 ||| BDRV_O_CACHE_WB
    else 0
  flags &&& ~~~ BDRV_O_NATIVE_AIO

/-- `snprintf(tmp_filename, PATH_MAX, "%s_clone", filename)`. -/
def cloneName (filename : String) : String := snprintfPath (filename ++ "_clone")

/-- `backing_filename`: the name itself for a protocol, else its
`realpath`. -/
def backingName (env : BlockEnv) (filename : String) (isProtocol : Bool) : String :=
  if isProtocol then snprintfPath filename else env.realpath filename

/-- The `bdrv_create` options. `total_size` is `bdrv_getlength(bs1) >>
BDRV_SECTOR_BITS`, a floor division; `drv` is always `NULL` where it is
tested, so no backing format is passed. -/
def cloneCreateOpts (len : Int) (backing : String) : CreateOpts :=
  let totalSize := len / 512
  ⟨totalSize * 512, backing, none⟩

/-- How the loop body ends for one drive, with the overlays it created. -/
inductive Body where
  /-- `continue`, or the end of the body. -/
  | next (d : Drive) (created : List (String × CreateOpts))
  /-- `return v` in the middle of the loop. -/
  | returned (d : Drive) (v : Int) (created : List (String × CreateOpts))
  /-- A NULL or freed pointer is dereferenced: no `file` option, or the
  driver's close hook runs on an image it already closed. -/
  | crashed

/-- The loop body of `clone_disk` for one drive. -/
def cloneDiskBody (env : BlockEnv) (d : Drive) : Body :=
  if !cloneSelects d.type (cloneMedia d.opts) then .next d [] else
  match qemuOptGet d.opts "file" with
  | none => .crashed
  | some filename =>
    match env.probe filename with
    | none => .returned d (-1) []
    | some (len, isProtocol) =>
      let tmp := cloneName filename
      let co := cloneCreateOpts len (backingName env filename isProtocol)
      let ret := env.create tmp co
      if ret < 0 then .returned d ret [(tmp, co)] else
      let opts := qemuOptReset d.opts "file" tmp
      match qemuOptGet opts "file" with
      | none => .crashed
      | some file =>
        let flags := cloneFlags (cloneCache d.opts)
        -- `dinfo->bdrv->drv->bdrv_close(dinfo->bdrv)`, then `bdrv_delete` of
        -- the protocol layer; `bs->drv` itself is left set
        if d.image.closed then .crashed else
        let d := { d with opts := opts, image := { d.image with closed := true } }
        if env.reopen file flags < 0 then .returned d 1 [(tmp, co)]
        else .next { d with image := ⟨file, "qcow2", flags, false⟩ } [(tmp, co)]

/-- `clone_disk` over `drives` in list order: the drives as it leaves
them, the overlays it created, and its return value (`none` when the
process crashed). A `return` in the body leaves the later drives as they
were. -/
def cloneDisk (env : BlockEnv) : List Drive → List Drive × List (String × CreateOpts) × Option Int
  | [] => ([], [], some 0)
  | d :: ds =>
    match cloneDiskBody env d with
    | .next d' c => let r := cloneDisk env ds; (d' :: r.1, c ++ r.2.1, r.2.2)
    | .returned d' v c => (d' :: ds, c, some v)
    | .crashed => (d :: ds, [], none)

/-! ## Options and flags -/

theorem qemuOptGet_qemuOptReset (opts : QemuOpts) (name value x : String)
    (h : qemuOptGet opts name = some x) : qemuOptGet (qemuOptReset opts name value) name = some value := by
  induction opts with
  | nil => simp [qemuOptGet] at h
  | cons p rest ih =>
    obtain ⟨n, v⟩ := p
    by_cases hn : n = name
    · simp [qemuOptReset, qemuOptGet, hn]
    · simp only [qemuOptGet, hn, if_false] at h
      simp [qemuOptReset, qemuOptGet, hn, ih h]

/-- The overlay is never opened with native AIO, whatever the cache
option. -/
theorem cloneFlags_nativeAio (cache : ℕ) : cloneFlags cache &&& BDRV_O_NATIVE_AIO = 0 := by
  unfold cloneFlags
  split
  · decide
  · split <;> decide

/-! ## The loop -/

/-- A drive `clone_disk` switched: its `file` option now names the
`_clone` overlay, created with a non-negative result with the old image as
backing file and the old size in whole sectors, and the drive is open on
the overlay with the qcow2 driver and without native AIO. -/
def Switched (env : BlockEnv) (d d' : Drive) : Prop :=
  ∃ filename len isProtocol co,
    qemuOptGet d.opts "file" = some filename ∧
    env.probe filename = some (len, isProtocol) ∧
    co.size = len / 512 * 512 ∧ co.backingFile = backingName env filename isProtocol ∧
    0 ≤ env.create (cloneName filename) co ∧
    d'.type = d.type ∧
    d'.opts = qemuOptReset d.opts "file" (cloneName filename) ∧
    d'.image.file = cloneName filename ∧ d'.image.fmt = "qcow2" ∧
    d'.image.closed = false ∧ d'.image.flags &&& BDRV_O_NATIVE_AIO = 0 ∧
    0 ≤ env.reopen (cloneName filename) d'.image.flags

/-- The body goes on to the next drive either past the `continue` of the
switch, with the drive untouched, or after switching it. -/
theorem cloneDiskBody_next (env : BlockEnv) {d d' : Drive} {c : List (String × CreateOpts)}
    (h : cloneDiskBody env d = .next d' c) :
    if cloneSelects d.type (cloneMedia d.opts) then Switched env d d' else d' = d := by
  simp only [cloneDiskBody] at h
  split at h
  · -- `continue` in the switch
    rename_i hsel
    cases h
    simp_all
  · rename_i hsel
    have hsel' : cloneSelects d.type (cloneMedia d.opts) = true := by simpa using hsel
    rw [if_pos hsel']
    split at h
    · cases h
    · rename_i filename hfile
      split at h
      · cases h
      · rename_i len isProtocol hprobe
        split at h
        · cases h
        · rename_i hcreate
          split at h
          · cases h
          · rename_i file hfile'
            have hname : file = cloneName filename := by
              rw [qemuOptGet_qemuOptReset d.opts "file" (cloneName filename) filename hfile] at hfile'
              exact (Option.some.inj hfile').symm
            split at h
            · cases h
            · split at h
              · cases h
              · rename_i hreopen
                cases h
                subst hname
                exact ⟨filename, len, isProtocol, cloneCreateOpts len (backingName env filename isProtocol),
                  hfile, hprobe, rfl, rfl, Int.not_lt.mp hcreate, rfl, rfl, rfl, rfl, rfl,
                  cloneFlags_nativeAio _, Int.not_lt.mp hreopen⟩

/-- Every `return` in the body returns a non-zero value (`-1`, a negative
`bdrv_create` result, or `1`). -/
theorem cloneDiskBody_returned_ne (env : BlockEnv) {d d' : Drive} {v : Int}
    {c : List (String × CreateOpts)} (h : cloneDiskBody env d = .returned d' v c) : v ≠ 0 := by
  simp only [cloneDiskBody] at h
  split at h
  · cases h
  · split at h
    · cases h
    · split at h
      · cases h
        decide
      · split at h
        · rename_i hneg
          cases h
          exact Int.ne_of_lt hneg
        · split at h
          · cases h
          · split at h
            · cases h
            · split at h
              · cases h
                decide
              · cases h

/-- When `clone_disk` returns 0, every drive the switch lets through is
switched to its overlay and every other drive is untouched. -/
theorem cloneDisk_of_ok (env : BlockEnv) (ds : List Drive) (hok : (cloneDisk env ds).2.2 = some 0) :
    List.Forall₂ (fun d d' => if cloneSelects d.type (cloneMedia d.opts) then Switched env d d'
      else d' = d) ds (cloneDisk env ds).1 := by
  induction ds with
  | nil => exact List.Forall₂.nil
  | cons d ds ih =>
    simp only [cloneDisk] at hok ⊢
    split at hok
    · rename_i d' c hbody
      exact List.Forall₂.cons (cloneDiskBody_next env hbody) (ih hok)
    · rename_i d' v c hbody
      cases hok
      exact absurd rfl (cloneDiskBody_returned_ne env hbody)
    · cases hok

/-- An ide disk on `/vm.img` with a block layer that succeeds everywhere:
`clone_disk` returns 0 and the disk is on `/vm.img_clone`. -/
theorem cloneDisk_of_ok_ide :
    let env : BlockEnv := ⟨fun _ => some (2 ^ 30, false), id, fun _ _ => 0, fun _ _ => 0⟩
    let d : Drive := ⟨.ide, [("file", "/vm.img")], ⟨"/vm.img", "raw", 0x0042, false⟩⟩
    (cloneDisk env [d]).2.2 = some 0 ∧
      List.Forall₂ (fun d d' => if cloneSelects d.type (cloneMedia d.opts) then Switched env d d'
        else d' = d) [d] (cloneDisk env [d]).1 :=
  ⟨by decide, cloneDisk_of_ok _ _ (by decide)⟩

/-- Whatever `clone_disk` returns, a drive its switch skips (virtio, sd,
floppy, pflash, mtd, or cdrom media) is left as it was. -/
theorem cloneDisk_unselected (env : BlockEnv) (ds : List Drive) :
    List.Forall₂ (fun d d' => cloneSelects d.type (cloneMedia d.opts) = false → d' = d)
      ds (cloneDisk env ds).1 := by
  induction ds with
  | nil => exact List.Forall₂.nil
  | cons d ds ih =>
    simp only [cloneDisk]
    split
    · rename_i d' c hbody
      refine List.Forall₂.cons (fun hsel => ?_) ih
      have hnext := cloneDiskBody_next env hbody
      rw [hsel] at hnext
      exact hnext
    · rename_i d' v c hbody
      refine List.Forall₂.cons (fun hsel => ?_) (List.forall₂_same.mpr fun _ _ _ => rfl)
      simp [cloneDiskBody, hsel] at hbody
    · exact List.Forall₂.cons (fun _ => rfl) (List.forall₂_same.mpr fun _ _ _ => rfl)

/-- A writable virtio disk (`rw`, writeback): `clone_disk` returns 0 and
leaves it on its raw image, no overlay created. -/
theorem cloneDisk_skips_virtio :
    let env : BlockEnv := ⟨fun _ => some (2 ^ 30, false), id, fun _ _ => 0, fun _ _ => 0⟩
    let d : Drive := ⟨.virtio, [("file", "/vm.img")], ⟨"/vm.img", "raw", 0x0042, false⟩⟩
    cloneDisk env [d] = ([d], [], some 0) := by
  decide

end QemuKvm.Block
