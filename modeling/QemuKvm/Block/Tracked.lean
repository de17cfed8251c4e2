import Mathlib.Data.Set.Card
import Mathlib.Logic.Function.Basic
import QemuKvm.Lib.Align
import QemuKvm.Coroutine.Lock

/-!
# Tracked requests and copy-on-read

block.c serialises a copy-on-read against the requests that touch its
clusters. Every read and write of a `BlockDriverState` is a tracked request
between `tracked_request_begin` and `tracked_request_end`. While
`copy_on_read_in_flight` is non-zero, a new request first waits in
`wait_for_overlapping_requests` until no tracked request overlaps its range
rounded to clusters. A request that ends wakes every coroutine waiting on it
(`qemu_co_queue_restart_all`, through `unlock_bh_queue`), and each of them
scans the list again. A copy-on-read reads the whole clusters of its range
into a bounce buffer and writes them back to the image.

The model (`BlockState`) holds the fields of the `BlockDriverState` that these
functions use, the wait queue of each tracked request, `unlock_bh_queue`, the
image's data, and for each coroutine the request it runs and where it is in
it (`running`). A coroutine runs from one yield to the next without
interruption, so an action (`BlockAction`) is one such stretch: a call of
`bdrv_co_do_readv` or `bdrv_co_do_writev` up to its first wait or its
`tracked_request_begin`, the driver I/O of a tracked request, its end, or one
round of the bottom half, which enters a waiter back in the loop of
`wait_for_overlapping_requests`. A read of the driver returns the image's
data, or the backing file's where the image has not allocated the sector
(`bdrvRead`).

`tracked_safe` says what holds after every run:
* no assert fails, so a coroutine never waits on its own request;
* `copy_on_read_in_flight` is the number of copy-on-read requests in
  progress;
* no tracked request shares a cluster with a tracked copy-on-read, so the
  bounce buffer of a copy-on-read still holds what the image reads, and its
  write-back changes no data that a read returns;
* a waiting coroutine is in the wait queue of a tracked request that
  overlaps its range, or already in `unlock_bh_queue`;
* no waiter is left behind: once the tracked requests end and the bottom
  half runs, every request can run to its end (`BlockInv.drain`).
-/

namespace QemuKvm.Block

open Function

variable {κ V : Type*}

/-- The sectors `[sectorNum, sectorNum + nbSectors)`. -/
def InRange (sectorNum nbSectors z : ℕ) : Prop :=
  sectorNum ≤ z ∧ z < sectorNum + nbSectors

instance (sectorNum nbSectors z : ℕ) : Decidable (InRange sectorNum nbSectors z) :=
  inferInstanceAs (Decidable (_ ∧ _))

/-- `round_to_clusters`: the range widened to whole clusters of `c` sectors.
`c` is `bdi.cluster_size / BDRV_SECTOR_SIZE`, and 0 when `bdrv_get_info`
gives no cluster size; every driver's cluster size is a whole number of
sectors. -/
def roundToClusters (c sectorNum nbSectors : ℕ) : ℕ × ℕ :=
  if c = 0 then (sectorNum, nbSectors)
  else
    let clusterSectorNum := alignDown c sectorNum
    (clusterSectorNum, alignUp c (sectorNum - clusterSectorNum + nbSectors))

/-- `BdrvTrackedRequest`: its range and its owner. -/
structure BdrvTrackedRequest (κ : Type*) where
  sectorNum : ℕ
  nbSectors : ℕ
  co : κ

/-- `tracked_request_overlaps`. -/
def trackedRequestOverlaps (req : BdrvTrackedRequest κ) (sectorNum nbSectors : ℕ) : Bool :=
  --        aaaa   bbbb
  if sectorNum ≥ req.sectorNum + req.nbSectors then false
  -- bbbb   aaaa
  else if req.sectorNum ≥ sectorNum + nbSectors then false
  else true

/-- A read, with `BDRV_REQ_COPY_ON_READ` or without, or a write of `data`
(`data z` for sector `z`). -/
inductive RequestKind (V : Type*) where
  | read (copyOnRead : Bool)
  | write (data : ℕ → V)

/-- The request is a copy-on-read. -/
def RequestKind.copyOnRead : RequestKind V → Bool
  | .read copyOnRead => copyOnRead
  | .write _ => false

/-- The arguments of a request. -/
structure Request (V : Type*) where
  sectorNum : ℕ
  nbSectors : ℕ
  kind : RequestKind V

/-- Where a request coroutine is. -/
inductive ReqPhase (V : Type*) where
  /-- in the loop of `wait_for_overlapping_requests` -/
  | waiting
  /-- after `tracked_request_begin`, before its I/O -/
  | tracked
  /-- a copy-on-read whose clusters are in the bounce buffer -/
  | bounced (buf : ℕ → V)
  /-- its I/O done, before `tracked_request_end` -/
  | done

/-- The phases between `tracked_request_begin` and `tracked_request_end`. -/
def ReqPhase.isTracked : ReqPhase V → Bool
  | .waiting => false
  | _ => true

/-- The fields of a `BlockDriverState` that the request path uses, the wait
queue of the tracked request each coroutine owns, `unlock_bh_queue`, the
data of the image and of its backing file, and each coroutine's request. -/
structure BlockState (κ V : Type*) where
  clusterSectors : ℕ
  copyOnRead : ℕ
  copyOnReadInFlight : ℕ
  trackedRequests : List (BdrvTrackedRequest κ)
  waitQueue : κ → List κ
  unlockBhQueue : List κ
  image : ℕ → Option V
  backing : ℕ → V
  running : κ → Option (Request V × ReqPhase V)

/-- A `BlockDriverState` with no request in progress. -/
def blockInit (clusterSectors copyOnRead : ℕ) (image : ℕ → Option V) (backing : ℕ → V) :
    BlockState κ V where
  clusterSectors := clusterSectors
  copyOnRead := copyOnRead
  copyOnReadInFlight := 0
  trackedRequests := []
  waitQueue _ := []
  unlockBhQueue := []
  image := image
  backing := backing
  running _ := none

/-- What the driver reads at sector `z`: the image's data, or the backing
file's where the image has none. -/
def bdrvRead (s : BlockState κ V) (z : ℕ) : V :=
  (s.image z).getD (s.backing z)

/-- `bdrv_co_is_allocated` over the range: every sector is allocated in the
image. -/
def isAllocated (s : BlockState κ V) (sectorNum nbSectors : ℕ) : Bool :=
  (List.range' sectorNum nbSectors).all fun z => (s.image z).isSome

/-! ## Clusters -/

/-- Sector `z` is in the range rounded to clusters of `c` sectors. -/
def InRounded (c sectorNum nbSectors z : ℕ) : Prop :=
  InRange (roundToClusters c sectorNum nbSectors).1 (roundToClusters c sectorNum nbSectors).2 z

/-- Two ranges share a cluster: their ranges rounded to clusters share a
sector. -/
def SharesCluster (c s₁ n₁ s₂ n₂ : ℕ) : Prop :=
  ∃ z, InRounded c s₁ n₁ z ∧ InRounded c s₂ n₂ z

section Clusters

variable {c sn nb z : ℕ}

theorem SharesCluster.symm {s₁ n₁ s₂ n₂ : ℕ} (h : SharesCluster c s₁ n₁ s₂ n₂) :
    SharesCluster c s₂ n₂ s₁ n₁ := by
  obtain ⟨z, h₁, h₂⟩ := h
  exact ⟨z, h₂, h₁⟩

/-- With a cluster size, the rounded range runs from the cluster of its first
sector to where its end rounds up to. -/
theorem inRounded_iff (hc : 0 < c) :
    InRounded c sn nb z ↔ alignDown c sn ≤ z ∧ z < alignUp c (sn + nb) := by
  simp only [InRounded, InRange, roundToClusters, if_neg hc.ne', alignDown_add_alignUp hc]

theorem inRounded_of_inRange (h : InRange sn nb z) : InRounded c sn nb z := by
  rcases Nat.eq_zero_or_pos c with rfl | hc
  · simpa [InRounded, roundToClusters] using h
  · rw [inRounded_iff hc]
    exact ⟨le_trans (alignDown_le c sn) h.1, lt_of_lt_of_le h.2 (le_alignUp hc _)⟩

theorem trackedRequestOverlaps_eq_true {req : BdrvTrackedRequest κ} :
    trackedRequestOverlaps req sn nb = true ↔
      sn < req.sectorNum + req.nbSectors ∧ req.sectorNum < sn + nb := by
  unfold trackedRequestOverlaps
  split_ifs <;> simp <;> omega

/-- The test of `wait_for_overlapping_requests` catches every tracked request
that shares a cluster with the new one. Only the new range is rounded, but
it is made of whole clusters, so it meets every tracked range that touches
one of them. -/
theorem trackedRequestOverlaps_of_sharesCluster {req : BdrvTrackedRequest κ}
    (h : SharesCluster c req.sectorNum req.nbSectors sn nb) :
    trackedRequestOverlaps req (roundToClusters c sn nb).1 (roundToClusters c sn nb).2 = true := by
  obtain ⟨z, hreq, hz⟩ := h
  rw [trackedRequestOverlaps_eq_true]
  rcases Nat.eq_zero_or_pos c with rfl | hc
  · simp [InRounded, InRange, roundToClusters] at hreq hz ⊢
    omega
  · have hend := alignDown_add_alignUp hc sn nb
    simp only [InRounded, InRange, roundToClusters, if_neg hc.ne'] at hz ⊢
    rw [inRounded_iff hc] at hreq
    rw [hend] at hz ⊢
    constructor
    · -- the start of the new range is a cluster boundary below the tracked end
      exact (lt_alignUp_iff hc (alignDown_dvd c sn)).mp (lt_of_le_of_lt hz.1 hreq.2)
    · -- and its end one above the tracked start
      exact (alignDown_lt_iff hc (alignUp_dvd c _)).mp (lt_of_le_of_lt hreq.1 hz.2)

end Clusters

/-! ## The request path -/

section RequestPath

variable [DecidableEq κ]

/-- `tracked_request_begin`: the request goes to the head of the list with
an empty wait queue, and its owner goes on with it tracked. -/
def trackedRequestBegin (s : BlockState κ V) (self : κ) (r : Request V) : BlockState κ V :=
  { s with
    trackedRequests := ⟨r.sectorNum, r.nbSectors, self⟩ :: s.trackedRequests
    waitQueue := update s.waitQueue self []
    running := update s.running self (some (r, .tracked)) }

/-- `tracked_request_end`: the request leaves the list, and every coroutine
waiting on it moves to `unlock_bh_queue`. -/
def trackedRequestEnd (s : BlockState κ V) (self : κ) : BlockState κ V :=
  let all := Coroutine.qemuCoQueueRestartAll (s.waitQueue self) s.unlockBhQueue
  { s with
    trackedRequests := s.trackedRequests.filter fun req => req.co != self
    waitQueue := update s.waitQueue self all.1
    unlockBhQueue := all.2 }

/-- One pass of the loop of `wait_for_overlapping_requests`: the first
tracked request, newest first, that overlaps the range rounded to clusters. -/
def firstOverlapping (s : BlockState κ V) (sectorNum nbSectors : ℕ) :
    Option (BdrvTrackedRequest κ) :=
  let rounded := roundToClusters s.clusterSectors sectorNum nbSectors
  s.trackedRequests.find? fun req => trackedRequestOverlaps req rounded.1 rounded.2

/-- `wait_for_overlapping_requests` from the top of its loop to the next
yield: the caller waits on the first tracked request that overlaps its
range, or `none` when that request is its own (the assert). With no such
request the function returns, and both its callers go straight on to
`tracked_request_begin`. -/
def waitForOverlappingRequests (s : BlockState κ V) (self : κ) (r : Request V) :
    Option (BlockState κ V) :=
  match firstOverlapping s r.sectorNum r.nbSectors with
  | some req =>
    if self = req.co then none
    else
      some { s with
        waitQueue := update s.waitQueue req.co
          (Coroutine.qemuCoQueueWait (s.waitQueue req.co) self)
        running := update s.running self (some (r, .waiting)) }
  | none => some (trackedRequestBegin s self r)

/-- `bdrv_co_do_readv` up to its first yield. -/
def bdrvCoDoReadv (s : BlockState κ V) (self : κ) (sectorNum nbSectors : ℕ)
    (copyOnRead : Bool) : Option (BlockState κ V) :=
  -- `bs->copy_on_read` turns `BDRV_REQ_COPY_ON_READ` on
  let cor := copyOnRead || decide (s.copyOnRead ≠ 0)
  let r : Request V := ⟨sectorNum, nbSectors, .read cor⟩
  let s := if cor then { s with copyOnReadInFlight := s.copyOnReadInFlight + 1 } else s
  if s.copyOnReadInFlight ≠ 0 then waitForOverlappingRequests s self r
  else some (trackedRequestBegin s self r)

/-- `bdrv_co_do_writev` up to its first yield. -/
def bdrvCoDoWritev (s : BlockState κ V) (self : κ) (sectorNum nbSectors : ℕ)
    (data : ℕ → V) : Option (BlockState κ V) :=
  let r : Request V := ⟨sectorNum, nbSectors, .write data⟩
  if s.copyOnReadInFlight ≠ 0 then waitForOverlappingRequests s self r
  else some (trackedRequestBegin s self r)

/-- `bdrv_co_do_copy_on_readv` up to the return of its `drv->bdrv_co_readv`:
the data of the image goes to the bounce buffer. -/
def bdrvCoDoCopyOnReadvRead (s : BlockState κ V) (self : κ) (r : Request V) :
    BlockState κ V :=
  { s with running := update s.running self (some (r, .bounced (bdrvRead s))) }

/-- The write-back of `bdrv_co_do_copy_on_readv`: the clusters of the range
get the bounce buffer's data. `drv->bdrv_co_writev` and, for a buffer of
zeros, `bdrv_co_do_write_zeroes` write the same. -/
def bdrvCoDoCopyOnReadvWrite (s : BlockState κ V) (self : κ) (r : Request V) (buf : ℕ → V) :
    BlockState κ V :=
  let rounded := roundToClusters s.clusterSectors r.sectorNum r.nbSectors
  { s with
    image := fun z => if InRange rounded.1 rounded.2 z then some (buf z) else s.image z
    running := update s.running self (some (r, .done)) }

/-- The `drv->bdrv_co_writev` of `bdrv_co_do_writev`. -/
def bdrvCoDoWritevWrite (s : BlockState κ V) (self : κ) (r : Request V) (data : ℕ → V) :
    BlockState κ V :=
  { s with
    image := fun z => if InRange r.sectorNum r.nbSectors z then some (data z) else s.image z
    running := update s.running self (some (r, .done)) }

/-- The end of `bdrv_co_do_readv` or `bdrv_co_do_writev`: `tracked_request_end`,
and a copy-on-read leaves `copy_on_read_in_flight`. -/
def requestEnd (s : BlockState κ V) (self : κ) (r : Request V) : BlockState κ V :=
  let s := trackedRequestEnd s self
  { s with
    copyOnReadInFlight :=
      if r.kind.copyOnRead then s.copyOnReadInFlight - 1 else s.copyOnReadInFlight
    running := update s.running self none }

/-- One round of the loop of `qemu_co_queue_next_bh`: the first coroutine of
`unlock_bh_queue` leaves it and, if it waits, scans the tracked requests
again. -/
def qemuCoQueueNextBh (s : BlockState κ V) : Option (BlockState κ V) :=
  match s.unlockBhQueue with
  | [] => some s
  | next :: rest =>
    match s.running next with
    | some (r, .waiting) => waitForOverlappingRequests { s with unlockBhQueue := rest } next r
    | _ => some { s with unlockBhQueue := rest }

end RequestPath

/-- What may happen next: a coroutine calls `bdrv_co_do_readv` (with its
`flags`' `BDRV_REQ_COPY_ON_READ`) or `bdrv_co_do_writev`, a tracked request
does its next driver I/O or ends, the bottom half runs a round, or copy-on-read
is turned on or off for the device. -/
inductive BlockAction (κ V : Type*) where
  | readv (c : κ) (sectorNum nbSectors : ℕ) (copyOnRead : Bool)
  | writev (c : κ) (sectorNum nbSectors : ℕ) (data : ℕ → V)
  | driverIo (c : κ)
  | complete (c : κ)
  | bh
  | enableCopyOnRead
  | disableCopyOnRead

section Step

variable [DecidableEq κ]

/-- One action. A call by a coroutine that runs a request already, I/O or an
end of a coroutine with no tracked request, and `bdrv_disable_copy_on_read`
with copy-on-read off are not actions the program makes, and change
nothing. -/
def BlockAction.step (s : BlockState κ V) : BlockAction κ V → Option (BlockState κ V)
  | .readv c sectorNum nbSectors copyOnRead =>
    if s.running c = none then bdrvCoDoReadv s c sectorNum nbSectors copyOnRead else some s
  | .writev c sectorNum nbSectors data =>
    if s.running c = none then bdrvCoDoWritev s c sectorNum nbSectors data else some s
  | .driverIo c =>
    match s.running c with
    | some (r, .tracked) =>
      match r.kind with
      | .read true =>
        -- `bdrv_co_is_allocated`: copy only a range that is not all allocated
        if isAllocated s r.sectorNum r.nbSectors then some s
        else some (bdrvCoDoCopyOnReadvRead s c r)
      | .read false => some s
      | .write data => some (bdrvCoDoWritevWrite s c r data)
    | some (r, .bounced buf) => some (bdrvCoDoCopyOnReadvWrite s c r buf)
    | _ => some s
  | .complete c =>
    match s.running c with
    | some (r, ph) => if ph.isTracked then some (requestEnd s c r) else some s
    | none => some s
  | .bh => qemuCoQueueNextBh s
  | .enableCopyOnRead => some { s with copyOnRead := s.copyOnRead + 1 }
  | .disableCopyOnRead =>
    if s.copyOnRead = 0 then some s else some { s with copyOnRead := s.copyOnRead - 1 }

/-- The state after a run of actions, `none` once an assert fails. -/
def runBlock (s : BlockState κ V) (acts : List (BlockAction κ V)) : Option (BlockState κ V) :=
  acts.foldlM BlockAction.step s

end Step

/-! ## The invariant -/

namespace BlockState

variable (s : BlockState κ V)

/-- `c` runs a copy-on-read. -/
def IsCopyOnRead (c : κ) : Prop :=
  ∃ r ph, s.running c = some (r, ph) ∧ r.kind.copyOnRead = true

/-- A waiter that is sure to be entered again: it is in `unlock_bh_queue`, or
in the wait queue of a tracked request that overlaps its range rounded to
clusters. -/
def Woken (c : κ) (r : Request V) : Prop :=
  c ∈ s.unlockBhQueue ∨
    ∃ req ∈ s.trackedRequests, c ∈ s.waitQueue req.co ∧
      trackedRequestOverlaps req (roundToClusters s.clusterSectors r.sectorNum r.nbSectors).1
        (roundToClusters s.clusterSectors r.sectorNum r.nbSectors).2 = true

end BlockState

/-- The invariant of the request path, but for the wake-ups. -/
structure TrackedInv (s : BlockState κ V) : Prop where
  /-- a coroutine tracks one request at a time -/
  nodup : (s.trackedRequests.map BdrvTrackedRequest.co).Nodup
  /-- a tracked request is the one its owner runs, past `tracked_request_begin` -/
  tracked_running : ∀ req ∈ s.trackedRequests, ∃ r ph, s.running req.co = some (r, ph) ∧
    ph.isTracked = true ∧ r.sectorNum = req.sectorNum ∧ r.nbSectors = req.nbSectors
  running_tracked : ∀ c r ph, s.running c = some (r, ph) → ph.isTracked = true →
    (⟨r.sectorNum, r.nbSectors, c⟩ : BdrvTrackedRequest κ) ∈ s.trackedRequests
  /-- `copy_on_read_in_flight` counts the copy-on-reads in progress -/
  inFlight : ∃ l : List κ, l.Nodup ∧ (∀ c, c ∈ l ↔ s.IsCopyOnRead c) ∧
    s.copyOnReadInFlight = l.length
  /-- nothing tracked shares a cluster with a tracked copy-on-read -/
  excl : ∀ req₁ ∈ s.trackedRequests, ∀ req₂ ∈ s.trackedRequests, req₁.co ≠ req₂.co →
    s.IsCopyOnRead req₁.co →
    ¬SharesCluster s.clusterSectors req₁.sectorNum req₁.nbSectors req₂.sectorNum req₂.nbSectors
  /-- a bounce buffer holds what the image reads on the clusters it copies -/
  bounce : ∀ c r buf, s.running c = some (r, .bounced buf) → r.kind.copyOnRead = true ∧
    ∀ z, InRounded s.clusterSectors r.sectorNum r.nbSectors z → buf z = bdrvRead s z

/-- The invariant of the request path. -/
structure BlockInv (s : BlockState κ V) : Prop extends TrackedInv s where
  wake : ∀ c r, s.running c = some (r, .waiting) → s.Woken c r

section Invariant

variable {s s' : BlockState κ V} {c : κ} {r : Request V} {ph : ReqPhase V}

theorem isCopyOnRead_of_running (hc : s.running c = some (r, ph)) :
    s.IsCopyOnRead c ↔ r.kind.copyOnRead = true := by
  simp [BlockState.IsCopyOnRead, hc]

theorem not_isCopyOnRead_of_running (hc : s.running c = none) : ¬s.IsCopyOnRead c := by
  simp [BlockState.IsCopyOnRead, hc]

/-- The invariant reads only the requests, the counter, the image and the
cluster size. -/
theorem TrackedInv.congr (h : TrackedInv s) (hcl : s'.clusterSectors = s.clusterSectors)
    (hf : s'.copyOnReadInFlight = s.copyOnReadInFlight)
    (ht : s'.trackedRequests = s.trackedRequests) (hi : s'.image = s.image)
    (hb : s'.backing = s.backing) (hr : s'.running = s.running) : TrackedInv s' := by
  have hread : bdrvRead s' = bdrvRead s := by
    funext z
    simp [bdrvRead, hi, hb]
  have hcor : ∀ c, s'.IsCopyOnRead c ↔ s.IsCopyOnRead c := by
    simp [BlockState.IsCopyOnRead, hr]
  obtain ⟨l, hl, hmem, hlen⟩ := h.inFlight
  refine ⟨ht ▸ h.nodup, ?_, ?_, ⟨l, hl, fun c => (hmem c).trans (hcor c).symm, hf ▸ hlen⟩,
    ?_, ?_⟩
  · rw [ht, hr]
    exact h.tracked_running
  · rw [ht, hr]
    exact h.running_tracked
  · rw [ht, hcl]
    intro req₁ h₁ req₂ h₂ hne hc
    exact h.excl req₁ h₁ req₂ h₂ hne ((hcor _).mp hc)
  · rw [hr, hcl, hread]
    exact h.bounce

/-- A coroutine that runs no tracked request owns no tracked request. -/
theorem TrackedInv.co_ne (h : TrackedInv s)
    (hc : ∀ r ph, s.running c = some (r, ph) → ph.isTracked = false) :
    ∀ req ∈ s.trackedRequests, req.co ≠ c := by
  intro req hreq he
  obtain ⟨r, ph, hr, hph, -⟩ := h.tracked_running req hreq
  rw [he] at hr
  rw [hc r ph hr] at hph
  exact Bool.false_ne_true hph

theorem TrackedInv.co_ne_of_waiting (h : TrackedInv s) (hc : s.running c = some (r, .waiting)) :
    ∀ req ∈ s.trackedRequests, req.co ≠ c :=
  h.co_ne fun r' ph' hr' => by
    rw [hc] at hr'
    cases hr'
    rfl

variable [DecidableEq κ]

theorem isCopyOnRead_update_of_ne {x : Option (Request V × ReqPhase V)}
    (hr : s'.running = update s.running c x) {c' : κ} (he : c' ≠ c) :
    s'.IsCopyOnRead c' ↔ s.IsCopyOnRead c' := by
  simp [BlockState.IsCopyOnRead, hr, update_of_ne he]

/-- A new phase of the request a coroutine runs keeps who runs a copy-on-read. -/
theorem isCopyOnRead_update (hc : s.running c = some (r, ph)) {ph' : ReqPhase V}
    (hr : s'.running = update s.running c (some (r, ph'))) (c' : κ) :
    s'.IsCopyOnRead c' ↔ s.IsCopyOnRead c' := by
  by_cases he : c' = c
  · rw [he, isCopyOnRead_of_running hc, isCopyOnRead_of_running (by rw [hr, update_self])]
  · exact isCopyOnRead_update_of_ne hr he

omit [DecidableEq κ] in
theorem overlaps_eq_false_of_firstOverlapping {sn nb : ℕ} (h : firstOverlapping s sn nb = none)
    {req : BdrvTrackedRequest κ} (hreq : req ∈ s.trackedRequests) :
    trackedRequestOverlaps req (roundToClusters s.clusterSectors sn nb).1
      (roundToClusters s.clusterSectors sn nb).2 = false := by
  unfold firstOverlapping at h
  simpa using List.find?_eq_none.mp h req hreq

omit [DecidableEq κ] in
theorem firstOverlapping_spec {sn nb : ℕ} {req : BdrvTrackedRequest κ}
    (h : firstOverlapping s sn nb = some req) :
    req ∈ s.trackedRequests ∧ trackedRequestOverlaps req (roundToClusters s.clusterSectors sn nb).1
      (roundToClusters s.clusterSectors sn nb).2 = true := by
  unfold firstOverlapping at h
  have hp := List.find?_some h
  exact ⟨List.mem_of_find?_eq_some h, hp⟩

/-- `tracked_request_begin` of a waiter keeps the invariant when no tracked
request shares a cluster with it, among those that are copy-on-reads or all of them
if it is one itself. -/
theorem TrackedInv.begin (h : TrackedInv s) (hc : s.running c = some (r, .waiting))
    (hex : ∀ req ∈ s.trackedRequests, (s.IsCopyOnRead req.co ∨ r.kind.copyOnRead = true) →
      ¬SharesCluster s.clusterSectors req.sectorNum req.nbSectors r.sectorNum r.nbSectors) :
    TrackedInv (trackedRequestBegin s c r) := by
  have hne := h.co_ne_of_waiting hc
  have hcor := isCopyOnRead_update hc
    (show (trackedRequestBegin s c r).running = update s.running c (some (r, .tracked)) from rfl)
  obtain ⟨l, hl, hmem, hlen⟩ := h.inFlight
  refine ⟨?_, fun req hreq => ?_, fun c' r' ph' hr' hph' => ?_,
    ⟨l, hl, fun c' => (hmem c').trans (hcor c').symm, hlen⟩,
    fun req₁ h₁ req₂ h₂ hne₁₂ hcor₁ => ?_, fun c' r' buf hr' => ?_⟩
  · -- `c` owned no tracked request
    simp only [trackedRequestBegin, List.map_cons, List.nodup_cons]
    refine ⟨fun hm => ?_, h.nodup⟩
    obtain ⟨req, hreq, he⟩ := List.mem_map.mp hm
    exact hne req hreq he
  · simp only [trackedRequestBegin, List.mem_cons] at hreq ⊢
    rcases hreq with rfl | hreq
    · exact ⟨r, .tracked, by simp, rfl, rfl, rfl⟩
    · rw [update_of_ne (hne req hreq)]
      exact h.tracked_running req hreq
  · simp only [trackedRequestBegin, List.mem_cons] at hr' ⊢
    by_cases he : c' = c
    · rw [he, update_self] at hr'
      cases hr'
      exact .inl (by rw [he])
    · rw [update_of_ne he] at hr'
      exact .inr (h.running_tracked c' r' ph' hr' hph')
  · rw [hcor] at hcor₁
    simp only [trackedRequestBegin, List.mem_cons] at h₁ h₂
    rcases h₁ with rfl | h₁ <;> rcases h₂ with rfl | h₂
    · exact absurd rfl hne₁₂
    · -- the new request is a copy-on-read
      exact fun hs => hex req₂ h₂ (.inr ((isCopyOnRead_of_running hc).mp hcor₁)) hs.symm
    · exact hex req₁ h₁ (.inl hcor₁)
    · exact h.excl req₁ h₁ req₂ h₂ hne₁₂ hcor₁
  · have he : c' ≠ c := by
      rintro rfl
      simp [trackedRequestBegin] at hr'
    simp only [trackedRequestBegin, update_of_ne he] at hr'
    exact h.bounce c' r' buf hr'

omit [DecidableEq κ] in
/-- A waiter stays sure to be woken while `unlock_bh_queue` keeps it and each
wait queue it is in keeps it or hands it to `unlock_bh_queue`. -/
theorem BlockState.Woken.mono {w : κ} {r' : Request V} (h : s.Woken w r')
    (hcl : s'.clusterSectors = s.clusterSectors)
    (hbh : w ∈ s.unlockBhQueue → w ∈ s'.unlockBhQueue)
    (hq : ∀ req ∈ s.trackedRequests, w ∈ s.waitQueue req.co →
      w ∈ s'.unlockBhQueue ∨ (req ∈ s'.trackedRequests ∧ w ∈ s'.waitQueue req.co)) :
    s'.Woken w r' := by
  rcases h with hb | ⟨req, hreq, hw, hov⟩
  · exact .inl (hbh hb)
  · rcases hq req hreq hw with hb | ⟨hreq', hw'⟩
    · exact .inl hb
    · exact .inr ⟨req, hreq', hw', hcl ▸ hov⟩

/-- `tracked_request_begin` of a waiter, when `TrackedInv.begin` allows it,
keeps the other waiters sure to be woken. -/
theorem begin_blockInv (h : TrackedInv s) (hc : s.running c = some (r, .waiting))
    (hex : ∀ req ∈ s.trackedRequests, (s.IsCopyOnRead req.co ∨ r.kind.copyOnRead = true) →
      ¬SharesCluster s.clusterSectors req.sectorNum req.nbSectors r.sectorNum r.nbSectors)
    (hw : ∀ w r', w ≠ c → s.running w = some (r', .waiting) → s.Woken w r') :
    BlockInv (trackedRequestBegin s c r) := by
  have hne := h.co_ne_of_waiting hc
  refine ⟨h.begin hc hex, fun w r' hw' => ?_⟩
  have hwc : w ≠ c := by
    rintro rfl
    simp [trackedRequestBegin] at hw'
  simp only [trackedRequestBegin, update_of_ne hwc] at hw'
  refine (hw w r' hwc hw').mono rfl id fun req hreq hq => .inr ⟨?_, ?_⟩
  · exact List.mem_cons_of_mem _ hreq
  · simpa [trackedRequestBegin, update_of_ne (hne req hreq)] using hq

/-- A waiter scans the tracked requests, at the start of its request or
entered again by the bottom half. No assert fails, and the invariant holds
after, given that the other waiters are sure to be woken. -/
theorem scan_blockInv (h : TrackedInv s) (hc : s.running c = some (r, .waiting))
    (hw : ∀ w r', w ≠ c → s.running w = some (r', .waiting) → s.Woken w r') :
    ∃ s', waitForOverlappingRequests s c r = some s' ∧ BlockInv s' := by
  have hne := h.co_ne_of_waiting hc
  cases hf : firstOverlapping s r.sectorNum r.nbSectors with
  | some req =>
    -- `c` waits on the first overlapping request, which is not its own
    obtain ⟨hreq, hov⟩ := firstOverlapping_spec hf
    have hco : c ≠ req.co := fun he => hne req hreq he.symm
    simp only [waitForOverlappingRequests, hf, if_neg hco]
    refine ⟨_, rfl, ?_⟩
    have hrun : update s.running c (some (r, .waiting)) = s.running := by
      rw [← hc, update_eq_self]
    refine ⟨h.congr rfl rfl rfl rfl rfl hrun, fun w r' hw' => ?_⟩
    simp only [hrun] at hw'
    by_cases hwc : w = c
    · rw [hwc, hc] at hw'
      cases hw'
      refine .inr ⟨req, hreq, ?_, hov⟩
      simp [hwc, Coroutine.qemuCoQueueWait]
    · refine (hw w r' hwc hw').mono rfl id fun req' hreq' hq => .inr ⟨hreq', ?_⟩
      by_cases he : req'.co = req.co
      · rw [he] at hq ⊢
        dsimp only
        rw [update_self, Coroutine.qemuCoQueueWait]
        exact List.mem_append_left _ hq
      · simpa [update_of_ne he] using hq
  | none =>
    -- no tracked request overlaps: `c` begins its own
    simp only [waitForOverlappingRequests, hf]
    refine ⟨_, rfl, begin_blockInv h hc (fun req hreq _ hs => ?_) hw⟩
    have hov := trackedRequestOverlaps_of_sharesCluster hs
    rw [overlaps_eq_false_of_firstOverlapping hf hreq] at hov
    exact Bool.false_ne_true hov

/-! ## The start of a request -/

omit [DecidableEq κ] in
/-- With `copy_on_read_in_flight` at 0 no copy-on-read is in progress. -/
theorem TrackedInv.not_isCopyOnRead (h : TrackedInv s) (h0 : s.copyOnReadInFlight = 0) (c : κ) :
    ¬s.IsCopyOnRead c := by
  obtain ⟨l, -, hmem, hlen⟩ := h.inFlight
  rw [h0, eq_comm, List.length_eq_zero_iff] at hlen
  rw [← hmem, hlen]
  exact List.not_mem_nil

/-- A coroutine with no request calls `bdrv_co_do_readv` or
`bdrv_co_do_writev`: a copy-on-read is counted in `copy_on_read_in_flight`,
and the coroutine is in the loop of `wait_for_overlapping_requests`. -/
theorem TrackedInv.enter (h : TrackedInv s) (hc : s.running c = none) (r : Request V)
    (hcl : s'.clusterSectors = s.clusterSectors)
    (hf : s'.copyOnReadInFlight = s.copyOnReadInFlight + if r.kind.copyOnRead then 1 else 0)
    (ht : s'.trackedRequests = s.trackedRequests) (hi : s'.image = s.image)
    (hb : s'.backing = s.backing) (hr : s'.running = update s.running c (some (r, .waiting))) :
    TrackedInv s' := by
  have hne := h.co_ne (c := c) fun r' ph' hr' => by
    rw [hc] at hr'
    cases hr'
  have hread : bdrvRead s' = bdrvRead s := by
    funext z
    simp [bdrvRead, hi, hb]
  -- who runs a copy-on-read: as before, and `c` if `r` is one
  have hcor : ∀ c', c' ≠ c → (s'.IsCopyOnRead c' ↔ s.IsCopyOnRead c') := fun c' he =>
    isCopyOnRead_update_of_ne hr he
  have hrun : s'.running c = some (r, .waiting) := by rw [hr, update_self]
  have hself : s'.IsCopyOnRead c ↔ r.kind.copyOnRead = true := isCopyOnRead_of_running hrun
  have hnot := not_isCopyOnRead_of_running hc
  obtain ⟨l, hl, hmem, hlen⟩ := h.inFlight
  refine ⟨ht ▸ h.nodup, fun req hreq => ?_, fun c' r' ph' hr' hph' => ?_, ?_,
    fun req₁ h₁ req₂ h₂ hne₁₂ hcor₁ => ?_, fun c' r' buf hr' => ?_⟩
  · rw [ht] at hreq
    rw [hr, update_of_ne (hne req hreq)]
    exact h.tracked_running req hreq
  · have he : c' ≠ c := by
      rintro rfl
      rw [hrun] at hr'
      cases hr'
      exact Bool.false_ne_true hph'
    rw [hr, update_of_ne he] at hr'
    rw [ht]
    exact h.running_tracked c' r' ph' hr' hph'
  · by_cases hcr : r.kind.copyOnRead = true
    · -- a copy-on-read: `c` joins them, and the count goes up by one
      refine ⟨c :: l, List.nodup_cons.mpr ⟨fun hm => hnot ((hmem c).mp hm), hl⟩,
        fun c' => ?_, by simp [hf, hcr, hlen]⟩
      by_cases he : c' = c
      · rw [he, hself]
        exact iff_of_true List.mem_cons_self hcr
      · rw [hcor c' he, List.mem_cons, hmem]
        exact or_iff_right he
    · -- not a copy-on-read: the same coroutines, the same count
      refine ⟨l, hl, fun c' => ?_, by simp [hf, hcr, hlen]⟩
      by_cases he : c' = c
      · rw [he, hself, hmem]
        exact iff_of_false hnot hcr
      · rw [hcor c' he, hmem]
  · rw [ht] at h₁ h₂
    rw [hcl]
    exact h.excl req₁ h₁ req₂ h₂ hne₁₂ ((hcor _ (hne req₁ h₁)).mp hcor₁)
  · have he : c' ≠ c := by
      rintro rfl
      rw [hrun] at hr'
      cases hr'
    rw [hr, update_of_ne he] at hr'
    rw [hcl, hread]
    exact h.bounce c' r' buf hr'

theorem trackedRequestBegin_update_running (x : Option (Request V × ReqPhase V)) :
    trackedRequestBegin { s with running := update s.running c x } c r =
      trackedRequestBegin s c r := by
  simp [trackedRequestBegin]

/-- The scan sets the phase of its caller whatever it was. -/
theorem waitForOverlappingRequests_update_running (x : Option (Request V × ReqPhase V)) :
    waitForOverlappingRequests { s with running := update s.running c x } c r =
      waitForOverlappingRequests s c r := by
  unfold waitForOverlappingRequests
  have hf : firstOverlapping { s with running := update s.running c x } r.sectorNum r.nbSectors =
      firstOverlapping s r.sectorNum r.nbSectors := rfl
  rw [hf]
  cases firstOverlapping s r.sectorNum r.nbSectors with
  | none => simp [trackedRequestBegin]
  | some req =>
    by_cases hco : c = req.co
    · simp [hco]
    · simp [hco]

/-- The start of `bdrv_co_do_readv` or `bdrv_co_do_writev` by a coroutine with
no request: the counter has counted a copy-on-read, and the request scans
the tracked requests or, with no copy-on-read in flight, begins at once. No
assert fails, and the invariant holds after. -/
theorem start_blockInv (h : BlockInv s) (hc : s.running c = none) (r : Request V)
    {s₁ : BlockState κ V}
    (hs₁ : s₁ = if r.kind.copyOnRead then
      { s with copyOnReadInFlight := s.copyOnReadInFlight + 1 } else s) :
    ∃ s', (if s₁.copyOnReadInFlight ≠ 0 then waitForOverlappingRequests s₁ c r
      else some (trackedRequestBegin s₁ c r)) = some s' ∧ BlockInv s' := by
  -- `s₁` differs from `s` in the counter only
  replace hs₁ : s₁ = { s with
      copyOnReadInFlight := s.copyOnReadInFlight + if r.kind.copyOnRead then 1 else 0 } := by
    rw [hs₁]
    split <;> rfl
  -- the state in which `c` is in the loop of `wait_for_overlapping_requests`
  have h₂ : TrackedInv { s₁ with running := update s₁.running c (some (r, .waiting)) } :=
    h.toTrackedInv.enter hc r (by rw [hs₁]) (by rw [hs₁]) (by rw [hs₁]) (by rw [hs₁])
      (by rw [hs₁]) (by rw [hs₁])
  have hc₂ : update s₁.running c (some (r, .waiting)) c = some (r, .waiting) := update_self ..
  -- the other waiters are as they were
  have hw₂ : ∀ w r', w ≠ c → update s₁.running c (some (r, .waiting)) w = some (r', .waiting) →
      BlockState.Woken { s₁ with running := update s₁.running c (some (r, .waiting)) } w r' := by
    intro w r' hwc hw'
    rw [update_of_ne hwc, hs₁] at hw'
    subst hs₁
    exact (h.wake w r' hw').mono rfl id fun _ _ hq => .inr ⟨‹_›, hq⟩
  split_ifs with h0
  · rw [← waitForOverlappingRequests_update_running (some (r, .waiting))]
    exact scan_blockInv h₂ hc₂ hw₂
  · -- no copy-on-read is in flight, neither `c` nor a tracked one
    rw [← trackedRequestBegin_update_running (some (r, .waiting))]
    refine ⟨_, rfl, begin_blockInv h₂ hc₂ (fun req _ hcor => ?_) hw₂⟩
    have hnone := h₂.not_isCopyOnRead (not_not.mp h0)
    rcases hcor with hcor | hcor
    · exact absurd hcor (hnone req.co)
    · exact absurd ((isCopyOnRead_of_running hc₂).mpr hcor) (hnone c)

/-! ## Driver I/O, the end of a request, the bottom half -/

/-- A tracked request does I/O: its phase moves on among the tracked ones,
and the image may change. The invariant holds after if every bounce buffer
still holds what the image reads. -/
theorem BlockInv.retrack (h : BlockInv s) (hc : s.running c = some (r, ph))
    (hph : ph.isTracked = true) (ph' : ReqPhase V) (hph' : ph'.isTracked = true)
    (hcl : s'.clusterSectors = s.clusterSectors)
    (hf : s'.copyOnReadInFlight = s.copyOnReadInFlight)
    (ht : s'.trackedRequests = s.trackedRequests) (hq : s'.waitQueue = s.waitQueue)
    (hbh : s'.unlockBhQueue = s.unlockBhQueue)
    (hr : s'.running = update s.running c (some (r, ph')))
    (hbounce : ∀ c' r' buf, s'.running c' = some (r', .bounced buf) →
      r'.kind.copyOnRead = true ∧
        ∀ z, InRounded s.clusterSectors r'.sectorNum r'.nbSectors z → buf z = bdrvRead s' z) :
    BlockInv s' := by
  have hcor := isCopyOnRead_update hc hr
  obtain ⟨l, hl, hmem, hlen⟩ := h.inFlight
  refine ⟨⟨ht ▸ h.nodup, fun req hreq => ?_, fun c' r' ph'' hr' hph'' => ?_,
    ⟨l, hl, fun c' => (hmem c').trans (hcor c').symm, hf ▸ hlen⟩,
    fun req₁ h₁ req₂ h₂ hne hcor₁ => ?_, fun c' r' buf hr' => ?_⟩, fun w r' hw => ?_⟩
  · rw [ht] at hreq
    obtain ⟨r₀, ph₀, hr₀, hph₀, hs₀, hn₀⟩ := h.tracked_running req hreq
    by_cases he : req.co = c
    · rw [he, hc] at hr₀
      cases hr₀
      exact ⟨r, ph', by rw [hr, he, update_self], hph', hs₀, hn₀⟩
    · exact ⟨r₀, ph₀, by rw [hr, update_of_ne he, hr₀], hph₀, hs₀, hn₀⟩
  · rw [ht]
    by_cases he : c' = c
    · rw [he, hr, update_self] at hr'
      cases hr'
      rw [he]
      exact h.running_tracked c r ph hc hph
    · rw [hr, update_of_ne he] at hr'
      exact h.running_tracked c' r' ph'' hr' hph''
  · rw [ht] at h₁ h₂
    rw [hcl]
    exact h.excl req₁ h₁ req₂ h₂ hne ((hcor _).mp hcor₁)
  · rw [hcl]
    exact hbounce c' r' buf hr'
  · have he : w ≠ c := by
      rintro rfl
      rw [hr, update_self] at hw
      cases hw
      exact Bool.false_ne_true hph'
    rw [hr, update_of_ne he] at hw
    refine (h.wake w r' hw).mono hcl (fun hb => hbh ▸ hb) fun req hreq hwq => .inr ⟨?_, ?_⟩
    · rw [ht]
      exact hreq
    · rw [hq]
      exact hwq

/-- The write-back of a copy-on-read changes no data that a read returns, as
long as its bounce buffer holds what the image reads on its clusters. -/
theorem bdrvRead_copyOnReadvWrite {buf : ℕ → V}
    (hbuf : ∀ z, InRounded s.clusterSectors r.sectorNum r.nbSectors z → buf z = bdrvRead s z) :
    bdrvRead (bdrvCoDoCopyOnReadvWrite s c r buf) = bdrvRead s := by
  funext z
  by_cases hz : InRounded s.clusterSectors r.sectorNum r.nbSectors z
  · have hz' : InRange (roundToClusters s.clusterSectors r.sectorNum r.nbSectors).1
        (roundToClusters s.clusterSectors r.sectorNum r.nbSectors).2 z := hz
    simp only [bdrvRead, bdrvCoDoCopyOnReadvWrite, if_pos hz', Option.getD_some]
    exact hbuf z hz
  · have hz' : ¬InRange (roundToClusters s.clusterSectors r.sectorNum r.nbSectors).1
        (roundToClusters s.clusterSectors r.sectorNum r.nbSectors).2 z := hz
    simp only [bdrvRead, bdrvCoDoCopyOnReadvWrite, if_neg hz']

/-- A guest write lands on no cluster of a copy-on-read in flight. -/
theorem bdrvRead_writevWrite (h : TrackedInv s) (hc : s.running c = some (r, .tracked))
    {data : ℕ → V} {c' : κ} {r' : Request V} {buf : ℕ → V}
    (hc' : s.running c' = some (r', .bounced buf)) {z : ℕ}
    (hz : InRounded s.clusterSectors r'.sectorNum r'.nbSectors z) :
    bdrvRead (bdrvCoDoWritevWrite s c r data) z = bdrvRead s z := by
  have hne : c' ≠ c := by
    rintro rfl
    rw [hc] at hc'
    cases hc'
  -- the two tracked requests share no cluster, the copy-on-read being one
  have hex := h.excl _ (h.running_tracked c' r' _ hc' rfl) _ (h.running_tracked c r _ hc rfl) hne
    ((isCopyOnRead_of_running hc').mpr (h.bounce c' r' buf hc').1)
  have hout : ¬InRange r.sectorNum r.nbSectors z := fun hin =>
    hex ⟨z, hz, inRounded_of_inRange hin⟩
  simp only [bdrvRead, bdrvCoDoWritevWrite, if_neg hout]

theorem driverIo_blockInv (h : BlockInv s) (c : κ) :
    ∃ s', (BlockAction.driverIo c).step s = some s' ∧ BlockInv s' := by
  rcases hc : s.running c with _ | ⟨r, ph⟩
  · exact ⟨s, by simp [BlockAction.step, hc], h⟩
  cases ph with
  | waiting => exact ⟨s, by simp [BlockAction.step, hc], h⟩
  | done => exact ⟨s, by simp [BlockAction.step, hc], h⟩
  | tracked =>
    rcases hk : r.kind with cor | data
    · cases cor
      · -- a plain read changes nothing
        exact ⟨s, by simp [BlockAction.step, hc, hk], h⟩
      by_cases ha : isAllocated s r.sectorNum r.nbSectors = true
      · exact ⟨s, by simp [BlockAction.step, hc, hk, ha], h⟩
      -- a copy-on-read reads its clusters into the bounce buffer
      have hstep : (BlockAction.driverIo c).step s = some (bdrvCoDoCopyOnReadvRead s c r) := by
        simp [BlockAction.step, hc, hk, ha]
      refine ⟨_, hstep, h.retrack hc rfl (.bounced (bdrvRead s)) rfl rfl rfl rfl rfl rfl rfl
        fun c' r' buf hr' => ?_⟩
      by_cases he : c' = c
      · rw [he] at hr'
        simp only [bdrvCoDoCopyOnReadvRead, update_self, Option.some.injEq, Prod.mk.injEq,
          ReqPhase.bounced.injEq] at hr'
        obtain ⟨rfl, rfl⟩ := hr'
        exact ⟨by simp [hk, RequestKind.copyOnRead], fun z _ => rfl⟩
      · simp only [bdrvCoDoCopyOnReadvRead, update_of_ne he] at hr'
        exact h.bounce c' r' buf hr'
    · -- a write lands, on no cluster of a copy-on-read in flight
      have hstep : (BlockAction.driverIo c).step s = some (bdrvCoDoWritevWrite s c r data) := by
        simp [BlockAction.step, hc, hk]
      refine ⟨_, hstep, h.retrack hc rfl .done rfl rfl rfl rfl rfl rfl rfl
        fun c' r' buf hr' => ?_⟩
      have he : c' ≠ c := by
        rintro rfl
        simp [bdrvCoDoWritevWrite] at hr'
      simp only [bdrvCoDoWritevWrite, update_of_ne he] at hr'
      refine ⟨(h.bounce c' r' buf hr').1, fun z hz => ?_⟩
      rw [bdrvRead_writevWrite h.toTrackedInv hc hr' hz]
      exact (h.bounce c' r' buf hr').2 z hz
  | bounced buf =>
    -- the write-back changes no data that a read returns
    have hread := bdrvRead_copyOnReadvWrite (c := c) (h.bounce c r buf hc).2
    have hstep : (BlockAction.driverIo c).step s = some (bdrvCoDoCopyOnReadvWrite s c r buf) := by
      simp [BlockAction.step, hc]
    refine ⟨_, hstep, h.retrack hc rfl .done rfl rfl rfl rfl rfl rfl rfl
      fun c' r' buf' hr' => ?_⟩
    have he : c' ≠ c := by
      rintro rfl
      simp [bdrvCoDoCopyOnReadvWrite] at hr'
    simp only [bdrvCoDoCopyOnReadvWrite, update_of_ne he] at hr'
    rw [hread]
    exact h.bounce c' r' buf' hr'

/-- The end of a request keeps the invariant: its waiters go to
`unlock_bh_queue`, and a copy-on-read leaves the count. -/
theorem BlockInv.complete (h : BlockInv s) (hc : s.running c = some (r, ph)) :
    BlockInv (requestEnd s c r) := by
  have hbh : (requestEnd s c r).unlockBhQueue = s.unlockBhQueue ++ s.waitQueue c := by
    simp [requestEnd, trackedRequestEnd, Coroutine.qemuCoQueueRestartAll_eq]
  have hq : (requestEnd s c r).waitQueue = update s.waitQueue c [] := by
    simp [requestEnd, trackedRequestEnd, Coroutine.qemuCoQueueRestartAll_eq]
  have hrun : (requestEnd s c r).running = update s.running c none := rfl
  have hmemt : ∀ req, req ∈ (requestEnd s c r).trackedRequests ↔
      req ∈ s.trackedRequests ∧ req.co ≠ c := by
    intro req
    simp [requestEnd, trackedRequestEnd]
  have hcor : ∀ c', c' ≠ c → ((requestEnd s c r).IsCopyOnRead c' ↔ s.IsCopyOnRead c') :=
    fun c' he => isCopyOnRead_update_of_ne hrun he
  have hself : ¬(requestEnd s c r).IsCopyOnRead c :=
    not_isCopyOnRead_of_running (by rw [hrun, update_self])
  -- `c` is the only coroutine whose state changes
  have hne : ∀ c' (x : Request V × ReqPhase V), (requestEnd s c r).running c' = some x → c' ≠ c := by
    rintro c' x hx rfl
    rw [hrun, update_self] at hx
    cases hx
  obtain ⟨l, hl, hmem, hlen⟩ := h.inFlight
  refine ⟨⟨?_, fun req hreq => ?_, fun c' r' ph' hr' hph' => ?_, ?_,
    fun req₁ h₁ req₂ h₂ hne₁₂ hcor₁ => ?_, fun c' r' buf hr' => ?_⟩, fun w r' hw => ?_⟩
  · exact h.nodup.sublist (List.filter_sublist.map _)
  · obtain ⟨hreq, hco⟩ := (hmemt req).mp hreq
    rw [hrun, update_of_ne hco]
    exact h.tracked_running req hreq
  · have he := hne c' _ hr'
    rw [hrun, update_of_ne he] at hr'
    exact (hmemt _).mpr ⟨h.running_tracked c' r' ph' hr' hph', he⟩
  · have hcount : (requestEnd s c r).copyOnReadInFlight =
        if r.kind.copyOnRead then s.copyOnReadInFlight - 1 else s.copyOnReadInFlight := rfl
    by_cases hcr : r.kind.copyOnRead = true
    · -- the copy-on-read leaves the count
      have hcl : c ∈ l := (hmem c).mpr ((isCopyOnRead_of_running hc).mpr hcr)
      refine ⟨l.erase c, hl.erase c, fun c' => ?_, ?_⟩
      · by_cases he : c' = c
        · rw [he]
          exact iff_of_false hl.not_mem_erase hself
        · rw [hl.mem_erase_iff, hcor c' he, hmem]
          exact and_iff_right he
      · rw [hcount, if_pos hcr, List.length_erase_of_mem hcl, hlen]
    · refine ⟨l, hl, fun c' => ?_, by rw [hcount, if_neg hcr, hlen]⟩
      by_cases he : c' = c
      · rw [he]
        exact iff_of_false (fun hm => hcr ((isCopyOnRead_of_running hc).mp ((hmem c).mp hm)))
          hself
      · rw [hcor c' he, hmem]
  · obtain ⟨h₁, hco₁⟩ := (hmemt _).mp h₁
    exact h.excl req₁ h₁ req₂ ((hmemt _).mp h₂).1 hne₁₂ ((hcor _ hco₁).mp hcor₁)
  · have he := hne c' _ hr'
    rw [hrun, update_of_ne he] at hr'
    exact h.bounce c' r' buf hr'
  · have he := hne w _ hw
    rw [hrun, update_of_ne he] at hw
    refine (h.wake w r' hw).mono rfl (fun hb => hbh ▸ List.mem_append_left _ hb)
      fun req hreq hwq => ?_
    by_cases hco : req.co = c
    · -- `tracked_request_end` hands the waiters of `c` to `unlock_bh_queue`
      rw [hco] at hwq
      exact .inl (hbh ▸ List.mem_append_right _ hwq)
    · exact .inr ⟨(hmemt req).mpr ⟨hreq, hco⟩, by rw [hq, update_of_ne hco]; exact hwq⟩

/-- A round of the bottom half keeps the invariant. The coroutine it enters
leaves `unlock_bh_queue` and, if it waits, scans the tracked requests
again. -/
theorem qemuCoQueueNextBh_blockInv (h : BlockInv s) :
    ∃ s', qemuCoQueueNextBh s = some s' ∧ BlockInv s' := by
  unfold qemuCoQueueNextBh
  split
  · exact ⟨s, rfl, h⟩
  · rename_i x rest hbh
    -- the state with `x` popped; the other waiters are still sure to be woken
    have h₁ : TrackedInv { s with unlockBhQueue := rest } :=
      h.toTrackedInv.congr rfl rfl rfl rfl rfl rfl
    have hw₁ : ∀ w r', w ≠ x → s.running w = some (r', .waiting) →
        BlockState.Woken { s with unlockBhQueue := rest } w r' := by
      intro w r' hwx hw
      refine (h.wake w r' hw).mono rfl (fun hb => ?_) fun req hreq hq => .inr ⟨hreq, hq⟩
      rw [hbh] at hb
      exact (List.mem_cons.mp hb).resolve_left hwx
    split
    · rename_i r hx
      exact scan_blockInv h₁ hx hw₁
    · rename_i hx
      refine ⟨_, rfl, h₁, fun w r' hw => hw₁ w r' ?_ hw⟩
      rintro rfl
      exact hx r' hw

omit [DecidableEq κ] in
theorem BlockInv.setCopyOnRead (h : BlockInv s) (n : ℕ) : BlockInv { s with copyOnRead := n } :=
  ⟨h.toTrackedInv.congr rfl rfl rfl rfl rfl rfl,
    fun w r' hw => (h.wake w r' hw).mono rfl id fun _ hreq hq => .inr ⟨hreq, hq⟩⟩

/-- Every action from a state of the invariant goes on, to a state of the
invariant. -/
theorem BlockAction.step_blockInv (h : BlockInv s) :
    ∀ a : BlockAction κ V, ∃ s', a.step s = some s' ∧ BlockInv s'
  | .readv c sectorNum nbSectors copyOnRead => by
    by_cases hc : s.running c = none
    · simp only [BlockAction.step, if_pos hc]
      exact start_blockInv h hc _ rfl
    · exact ⟨s, by simp [BlockAction.step, hc], h⟩
  | .writev c sectorNum nbSectors data => by
    by_cases hc : s.running c = none
    · simp only [BlockAction.step, if_pos hc]
      exact start_blockInv h hc _ rfl
    · exact ⟨s, by simp [BlockAction.step, hc], h⟩
  | .driverIo c => driverIo_blockInv h c
  | .complete c => by
    rcases hc : s.running c with _ | ⟨r, ph⟩
    · exact ⟨s, by simp [BlockAction.step, hc], h⟩
    by_cases hph : ph.isTracked = true
    · exact ⟨_, by simp [BlockAction.step, hc, hph], h.complete hc⟩
    · exact ⟨s, by simp [BlockAction.step, hc, hph], h⟩
  | .bh => qemuCoQueueNextBh_blockInv h
  | .enableCopyOnRead => ⟨_, rfl, h.setCopyOnRead _⟩
  | .disableCopyOnRead => by
    by_cases h0 : s.copyOnRead = 0
    · exact ⟨s, by simp [BlockAction.step, h0], h⟩
    · exact ⟨_, by simp [BlockAction.step, h0], h.setCopyOnRead (s.copyOnRead - 1)⟩

omit [DecidableEq κ] in
theorem blockInit_blockInv (clusterSectors copyOnRead : ℕ) (image : ℕ → Option V)
    (backing : ℕ → V) : BlockInv (blockInit clusterSectors copyOnRead image backing : BlockState κ V) where
  nodup := List.nodup_nil
  tracked_running _ h := absurd h List.not_mem_nil
  running_tracked _ _ _ h := by cases h
  inFlight := ⟨[], List.nodup_nil, fun c => by simp [BlockState.IsCopyOnRead, blockInit], rfl⟩
  excl _ h := absurd h List.not_mem_nil
  bounce _ _ _ h := by cases h
  wake _ _ h := by cases h

omit [DecidableEq κ] in
/-- The copy-on-reads in progress are as many as `copy_on_read_in_flight`
counts. -/
theorem TrackedInv.copyOnReadInFlight_eq (h : TrackedInv s) :
    {c | s.IsCopyOnRead c}.Finite ∧ s.copyOnReadInFlight = {c | s.IsCopyOnRead c}.ncard := by
  classical
  obtain ⟨l, hl, hmem, hlen⟩ := h.inFlight
  have hset : {c | s.IsCopyOnRead c} = ↑l.toFinset := by
    ext c
    simp [hmem]
  rw [hset, Set.ncard_coe_finset, List.toFinset_card_of_nodup hl, hlen]
  exact ⟨l.toFinset.finite_toSet, rfl⟩

/-! ## No waiter is left behind -/

theorem runBlock_cons (a : BlockAction κ V) (acts : List (BlockAction κ V)) :
    runBlock s (a :: acts) = (a.step s).bind fun s₁ => runBlock s₁ acts := by
  simp [runBlock, List.foldlM_cons]

theorem runBlock_append {s₁ : BlockState κ V} {acts₁ : List (BlockAction κ V)}
    (h₁ : runBlock s acts₁ = some s₁) (acts₂ : List (BlockAction κ V)) :
    runBlock s (acts₁ ++ acts₂) = runBlock s₁ acts₂ := by
  simp only [runBlock, List.foldlM_append] at h₁ ⊢
  rw [h₁]
  rfl

omit [DecidableEq κ] in
/-- With no tracked request and nothing in `unlock_bh_queue`, no coroutine
runs a request: a waiter always has one of the two to wake it. -/
theorem BlockInv.running_eq_none (h : BlockInv s) (ht : s.trackedRequests = [])
    (hbh : s.unlockBhQueue = []) (c : κ) : s.running c = none := by
  rcases hc : s.running c with _ | ⟨r, ph⟩
  · rfl
  exfalso
  by_cases hph : ph.isTracked = true
  · have hmem := h.running_tracked c r ph hc hph
    rw [ht] at hmem
    exact List.not_mem_nil hmem
  · have hw : ph = .waiting := by
      cases ph <;> simp_all [ReqPhase.isTracked]
    rw [hw] at hc
    rcases h.wake c r hc with hb | ⟨req, hreq, -⟩
    · rw [hbh] at hb
      exact List.not_mem_nil hb
    · rw [ht] at hreq
      exact List.not_mem_nil hreq

/-- Every tracked request can run to its end. -/
theorem completeAll_blockInv :
    ∀ n (s : BlockState κ V), BlockInv s → s.trackedRequests.length ≤ n →
      ∃ acts s', runBlock s acts = some s' ∧ BlockInv s' ∧ s'.trackedRequests = []
  | 0, s, h, hn => ⟨[], s, rfl, h, List.length_eq_zero_iff.mp (by omega)⟩
  | n + 1, s, h, hn => by
    rcases ht : s.trackedRequests with _ | ⟨req, rest⟩
    · exact ⟨[], s, rfl, h, ht⟩
    obtain ⟨r, ph, hr, hph, -⟩ := h.tracked_running req (ht ▸ List.mem_cons_self)
    -- the end of `req` leaves fewer tracked requests
    have hlen : (requestEnd s req.co r).trackedRequests.length ≤ n := by
      have hfilter : (requestEnd s req.co r).trackedRequests =
          rest.filter fun req' => req'.co != req.co := by
        simp [requestEnd, trackedRequestEnd, ht]
      rw [hfilter]
      rw [ht, List.length_cons] at hn
      exact le_trans (List.length_filter_le _ rest) (by omega)
    obtain ⟨acts, s', hrun, h', ht'⟩ := completeAll_blockInv n _ (h.complete hr) hlen
    refine ⟨.complete req.co :: acts, s', ?_, h', ht'⟩
    rw [runBlock_cons]
    simp [BlockAction.step, hr, hph, hrun]

/-- A round of the bottom half that finds a coroutine that does not wait
only pops it. -/
theorem qemuCoQueueNextBh_of_not_waiting {x : κ} {rest : List κ}
    (hbh : s.unlockBhQueue = x :: rest) (hx : ∀ r, s.running x ≠ some (r, .waiting)) :
    qemuCoQueueNextBh s = some { s with unlockBhQueue := rest } := by
  -- the case of a waiter is ruled out by `hx`, which simp takes from the context
  simp only [qemuCoQueueNextBh, hbh]

/-- With no tracked request, a round of the bottom half and the end of the
request it lets begin take the first coroutine out of `unlock_bh_queue`. -/
theorem BlockInv.round {x : κ} {rest : List κ} (h : BlockInv s) (ht : s.trackedRequests = [])
    (hbh : s.unlockBhQueue = x :: rest) :
    ∃ acts s', runBlock s acts = some s' ∧ BlockInv s' ∧ s'.trackedRequests = [] ∧
      s'.unlockBhQueue = rest := by
  by_cases hw : ∃ r, s.running x = some (r, .waiting)
  · -- a waiter finds nothing tracked, begins, and may end
    obtain ⟨r, hx⟩ := hw
    have hf : firstOverlapping { s with unlockBhQueue := rest } r.sectorNum r.nbSectors = none := by
      simp [firstOverlapping, ht]
    have hstep : BlockAction.bh.step s =
        some (trackedRequestBegin { s with unlockBhQueue := rest } x r) := by
      simp [BlockAction.step, qemuCoQueueNextBh, hbh, hx, waitForOverlappingRequests, hf]
    obtain ⟨s₁, hs₁, h₁⟩ := BlockAction.step_blockInv h .bh
    rw [hstep] at hs₁
    cases hs₁
    have hx₁ : (trackedRequestBegin { s with unlockBhQueue := rest } x r).running x =
        some (r, .tracked) := by
      simp [trackedRequestBegin]
    refine ⟨[.bh, .complete x], _, ?_, h₁.complete hx₁, ?_, ?_⟩
    · rw [runBlock_cons, hstep]
      simp [runBlock, BlockAction.step, hx₁, ReqPhase.isTracked]
    · simp [requestEnd, trackedRequestEnd, trackedRequestBegin, ht]
    · simp [requestEnd, trackedRequestEnd, trackedRequestBegin, Coroutine.qemuCoQueueRestartAll_eq]
  · -- not a waiter: the round only pops it
    have hstep : BlockAction.bh.step s = some { s with unlockBhQueue := rest } :=
      qemuCoQueueNextBh_of_not_waiting hbh fun r hx => hw ⟨r, hx⟩
    obtain ⟨s', hs', h'⟩ := BlockAction.step_blockInv h .bh
    rw [hstep] at hs'
    cases hs'
    exact ⟨[.bh], _, by rw [runBlock_cons, hstep]; rfl, h', ht, rfl⟩

/-- From a state with no tracked request, the bottom half and the ends of
the requests it lets begin bring every request to its end. -/
theorem drainBh_blockInv :
    ∀ n (s : BlockState κ V), BlockInv s → s.trackedRequests = [] → s.unlockBhQueue.length = n →
      ∃ acts s', runBlock s acts = some s' ∧ ∀ c, s'.running c = none
  | 0, s, h, ht, hn => ⟨[], s, rfl, h.running_eq_none ht (List.length_eq_zero_iff.mp hn)⟩
  | n + 1, s, h, ht, hn => by
    obtain ⟨x, rest, hbh⟩ := List.exists_cons_of_length_eq_add_one hn
    obtain ⟨acts₁, s₁, hrun₁, h₁, ht₁, hbh₁⟩ := h.round ht hbh
    have hlen : s₁.unlockBhQueue.length = n := by
      rw [hbh₁]
      rw [hbh, List.length_cons] at hn
      omega
    obtain ⟨acts₂, s₂, hrun₂, hidle⟩ := drainBh_blockInv n s₁ h₁ ht₁ hlen
    exact ⟨acts₁ ++ acts₂, s₂, by rw [runBlock_append hrun₁, hrun₂], hidle⟩

/-- No waiter is left behind: from a state of the invariant, the tracked
requests can end and the bottom half run so that every request ends. -/
theorem BlockInv.drain (h : BlockInv s) :
    ∃ acts s', runBlock s acts = some s' ∧ ∀ c, s'.running c = none := by
  obtain ⟨acts₁, s₁, hrun₁, h₁, ht₁⟩ := completeAll_blockInv _ s h le_rfl
  obtain ⟨acts₂, s₂, hrun₂, hidle⟩ := drainBh_blockInv _ s₁ h₁ ht₁ rfl
  exact ⟨acts₁ ++ acts₂, s₂, by rw [runBlock_append hrun₁, hrun₂], hidle⟩

end Invariant

/-- After every run: no assert has failed, and no waiting coroutine owns a
tracked request, so none waits on its own; `copy_on_read_in_flight` is the
number of copy-on-reads in progress; no tracked request shares a cluster with
a tracked copy-on-read; the bounce buffer of a copy-on-read holds what the
image reads on its clusters, so that its write-back changes no data that a
read returns; every waiting coroutine is in `unlock_bh_queue` or in the
wait queue of a tracked request that overlaps its range; and once the
tracked requests end and the bottom half runs, every request, waiters
included, can run to its end. -/
theorem tracked_safe [DecidableEq κ] (clusterSectors copyOnRead : ℕ) (image : ℕ → Option V)
    (backing : ℕ → V) (acts : List (BlockAction κ V)) :
    ∃ s, runBlock (blockInit clusterSectors copyOnRead image backing) acts = some s ∧
      (∀ c r, s.running c = some (r, .waiting) → ∀ req ∈ s.trackedRequests, req.co ≠ c) ∧
      ({c | s.IsCopyOnRead c}.Finite ∧ s.copyOnReadInFlight = {c | s.IsCopyOnRead c}.ncard) ∧
      (∀ req₁ ∈ s.trackedRequests, ∀ req₂ ∈ s.trackedRequests, req₁.co ≠ req₂.co →
        s.IsCopyOnRead req₁.co →
        ¬SharesCluster s.clusterSectors req₁.sectorNum req₁.nbSectors
          req₂.sectorNum req₂.nbSectors) ∧
      (∀ c r buf, s.running c = some (r, .bounced buf) →
        (∀ z, InRounded s.clusterSectors r.sectorNum r.nbSectors z → buf z = bdrvRead s z) ∧
        bdrvRead (bdrvCoDoCopyOnReadvWrite s c r buf) = bdrvRead s) ∧
      (∀ c r, s.running c = some (r, .waiting) → s.Woken c r) ∧
      (∃ acts' s', runBlock s acts' = some s' ∧ ∀ c, s'.running c = none) := by
  obtain ⟨s, hrun, hs⟩ := foldlM_invariant BlockAction.step BlockInv
    (fun s a hs => BlockAction.step_blockInv hs a) (blockInit_blockInv _ _ _ _) acts
  refine ⟨s, hrun, fun c r hc => hs.co_ne_of_waiting hc, hs.copyOnReadInFlight_eq, hs.excl,
    fun c r buf hc => ⟨(hs.bounce c r buf hc).2, ?_⟩, hs.wake, hs.drain⟩
  exact bdrvRead_copyOnReadvWrite (hs.bounce c r buf hc).2

end QemuKvm.Block
