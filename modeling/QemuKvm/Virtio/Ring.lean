import Mathlib.Tactic.Linarith
import QemuKvm.Lib.Run

/-!
# Interrupt suppression on a virtqueue (hw/virtio.c)

With `VIRTIO_RING_F_EVENT_IDX` the guest tells the device, through
`used_event` (the slot after the avail ring), after which used index it
wants the next interrupt. The device remembers in `signalled_used` the used
index at the last interrupt decision; `vring_notify` raises an interrupt when
`used_event` lies in the window from there to the current used index, all
modulo 2^16. `virtqueue_flush` invalidates `signalled_used` when the index
may have gone round since, so the window is never mistaken for a short one.

The model keeps the fields these functions read and write: the avail and
used indices as the device sees them in guest memory, `used_event`, and the
queue's own counters. Beside it, `Tracked` counts used entries as a natural
number, which the ring only knows modulo 2^16.

Main results:

* `vringNeedEvent_iff` — `vring_need_event(event, new, old)` is
  `(event - old) mod 2^16 < (new - old) mod 2^16`;
* `trackedInv_run` — along every run whose flushes each publish fewer than
  2^16 entries, a valid `signalled_used` is less than 2^15 entries behind
  the used index;
* `vringNotify_exact` — hence at every `virtio_notify` of such a run an
  interrupt is raised exactly when the queue is empty under
  `VIRTIO_F_NOTIFY_ON_EMPTY`, or `signalled_used` is not valid, or one of
  the entries published since the last decision has index `used_event`;
* `vringNotify_window_violations` — the first of these cases, and a flush
  of 2^16 entries, are where the interrupt does not follow the window.
-/

namespace QemuKvm.Virtio

def VIRTIO_F_NOTIFY_ON_EMPTY : ℕ := 24
def VIRTIO_RING_F_EVENT_IDX : ℕ := 29
def VRING_AVAIL_F_NO_INTERRUPT : UInt16 := 1

/-- `guest_features & (1 << bit)`. -/
def hasFeature (features : UInt32) (bit : ℕ) : Bool :=
  features &&& ((1 : UInt32) <<< bit.toUInt32) != 0

/-- `(int16_t)x`, as gcc converts: the upper half of the range is negative. -/
def toInt16 (x : UInt16) : ℤ :=
  if x.toNat < 2 ^ 15 then x.toNat else (x.toNat : ℤ) - 2 ^ 16

/-- `vring_need_event`. -/
def vringNeedEvent (event new old : UInt16) : Bool :=
  decide (new - event - 1 < new - old)

/-- The part of a `VirtQueue`, and of the rings in guest memory, that
popping, flushing and notifying read and write. -/
structure VirtQueue where
  /-- `vring.num` -/
  num : ℕ
  /-- `avail->idx`, written by the guest -/
  availIdx : UInt16
  /-- `avail->flags`, written by the guest -/
  availFlags : UInt16
  /-- `avail->ring[num]`, the `used_event` the guest writes -/
  usedEvent : UInt16
  /-- `used->idx`, written by the device -/
  usedIdx : UInt16
  lastAvailIdx : UInt16
  inuse : ℤ
  signalledUsed : UInt16
  signalledUsedValid : Bool
deriving DecidableEq, Repr

/-- `virtqueue_flush(vq, count)`: publish `count` used entries. -/
def virtqueueFlush (vq : VirtQueue) (count : UInt32) : VirtQueue :=
  let old := vq.usedIdx
  let new := old + count.toUInt16
  { vq with
    usedIdx := new
    inuse := vq.inuse - count.toNat
    -- the signed/unsigned comparison of the source: the window from
    -- signalled_used may have gone round
    signalledUsedValid :=
      if toInt16 (new - vq.signalledUsed) < (new - old).toNat then false
      else vq.signalledUsedValid }

/-- The first test of `vring_notify`: notify on an empty queue. -/
def notifyOnEmpty (features : UInt32) (vq : VirtQueue) : Bool :=
  hasFeature features VIRTIO_F_NOTIFY_ON_EMPTY && vq.inuse == 0 && vq.availIdx == vq.lastAvailIdx

/-- `vring_notify`: whether to interrupt, and the queue with
`signalled_used` updated on the event-index path. -/
def vringNotify (features : UInt32) (vq : VirtQueue) : Bool × VirtQueue :=
  if notifyOnEmpty features vq then (true, vq)
  else if !hasFeature features VIRTIO_RING_F_EVENT_IDX then
    (vq.availFlags &&& VRING_AVAIL_F_NO_INTERRUPT == 0, vq)
  else
    let v := vq.signalledUsedValid
    let old := vq.signalledUsed
    let new := vq.usedIdx
    (!v || vringNeedEvent vq.usedEvent new old,
      { vq with signalledUsedValid := true, signalledUsed := new })

/-- The head count check of `virtqueue_pop`; the descriptors it then walks
are not modelled. `none` is its `exit(1)`. -/
def virtqueuePop (vq : VirtQueue) : Option VirtQueue :=
  let numHeads := vq.availIdx - vq.lastAvailIdx
  if numHeads.toNat > vq.num then none
  else if numHeads = 0 then some vq
  else some { vq with lastAvailIdx := vq.lastAvailIdx + 1, inuse := vq.inuse + 1 }

/-- What happens to one queue: device steps, and the guest's writes of the
avail index, the avail flags and `used_event`. -/
inductive RingEvent
  | pop
  /-- `virtqueue_fill` writes a used-ring entry, which moves no index. -/
  | fill
  | flush (count : UInt32)
  | notify
  | guestAvail (idx : UInt16)
  | guestAvailFlags (flags : UInt16)
  | guestUsedEvent (event : UInt16)
deriving DecidableEq, Repr

inductive RingReply
  | done
  | interrupt (raised : Bool)
  | exit
deriving DecidableEq, Repr

def ringStep (features : UInt32) (vq : VirtQueue) : RingEvent → VirtQueue × RingReply
  | .pop =>
    match virtqueuePop vq with
    | some vq' => (vq', .done)
    | none => (vq, .exit)
  | .fill => (vq, .done)
  | .flush count => (virtqueueFlush vq count, .done)
  | .notify =>
    let r := vringNotify features vq
    (r.2, .interrupt r.1)
  | .guestAvail idx => ({ vq with availIdx := idx }, .done)
  | .guestAvailFlags flags => ({ vq with availFlags := flags }, .done)
  | .guestUsedEvent event => ({ vq with usedEvent := event }, .done)

/-- The queue as `virtio_reset` leaves it. -/
def resetQueue (num : ℕ) : VirtQueue :=
  ⟨num, 0, 0, 0, 0, 0, 0, 0, false⟩

/-! ## `vring_need_event` -/

theorem vringNeedEvent_iff (event new old : UInt16) :
    vringNeedEvent event new old = true ↔ (event - old).toNat < (new - old).toNat := by
  have he := event.toNat_lt
  have hn := new.toNat_lt
  have ho := old.toNat_lt
  simp only [vringNeedEvent, decide_eq_true_eq, UInt16.lt_iff_toNat_lt, UInt16.toNat_sub,
    UInt16.toNat_one]
  omega

/-! ## Counting entries -/

/-- The queue, with the number of used entries published since the start,
and that number when `signalled_used` was last set. -/
structure Tracked where
  vq : VirtQueue
  used : ℕ
  signalled : ℕ

/-- Whether `vring_notify` takes its event-index path. -/
def eventIdxPath (features : UInt32) (vq : VirtQueue) : Bool :=
  !notifyOnEmpty features vq && hasFeature features VIRTIO_RING_F_EVENT_IDX

def trackedStep (features : UInt32) (t : Tracked) (ev : RingEvent) : Tracked × RingReply :=
  let r := ringStep features t.vq ev
  let used := match ev with
    | .flush count => t.used + count.toNat
    | _ => t.used
  let signalled := match ev with
    | .notify => if eventIdxPath features t.vq then t.used else t.signalled
    | _ => t.signalled
  (⟨r.1, used, signalled⟩, r.2)

/-- The counts agree with the ring's indices, and a valid `signalled_used`
is less than 2^15 entries behind. -/
structure TrackedInv (t : Tracked) : Prop where
  usedIdx : t.vq.usedIdx.toNat = t.used % 2 ^ 16
  signalledUsed : t.vq.signalledUsed.toNat = t.signalled % 2 ^ 16
  signalled_le : t.signalled ≤ t.used
  valid : t.vq.signalledUsedValid = true → t.used - t.signalled < 2 ^ 15

/-- Flushes publish fewer than 2^16 entries at a time. -/
def flushBounded : RingEvent → Prop
  | .flush count => count.toNat < 2 ^ 16
  | _ => True

instance : ∀ ev, Decidable (flushBounded ev)
  | .flush count => inferInstanceAs (Decidable (count.toNat < 2 ^ 16))
  | .pop | .fill | .notify | .guestAvail _ | .guestAvailFlags _ | .guestUsedEvent _ =>
    isTrue trivial

theorem trackedStep_vq (features : UInt32) (t : Tracked) (ev : RingEvent) :
    (trackedStep features t ev).1.vq = (ringStep features t.vq ev).1 := rfl

/-- The ghost counts leave the queue's own run alone. -/
theorem run_trackedStep_vq (features : UInt32) (t : Tracked) (evs : List RingEvent) :
    (run (trackedStep features) t evs).vq = run (ringStep features) t.vq evs := by
  induction evs generalizing t with
  | nil => rfl
  | cons ev evs ih => exact ih _

theorem trackedInv_reset (num : ℕ) : TrackedInv ⟨resetQueue num, 0, 0⟩ :=
  ⟨rfl, rfl, le_rfl, fun h => absurd h Bool.false_ne_true⟩

section Step

variable {t : Tracked}

/-- The flush test: a valid `signalled_used` stays valid only while the
window stays below 2^15 entries. -/
theorem flush_valid (h : TrackedInv t) {count : UInt32} (hc : count.toNat < 2 ^ 16)
    (hv : (virtqueueFlush t.vq count).signalledUsedValid = true) :
    t.used + count.toNat - t.signalled < 2 ^ 15 := by
  have hu := h.usedIdx
  have hs := h.signalledUsed
  have hle := h.signalled_le
  simp only [virtqueueFlush] at hv
  split at hv
  · exact absurd hv Bool.false_ne_true
  · next hnot =>
    have hvalid := h.valid hv
    have hsub : (t.vq.usedIdx + count.toUInt16 - t.vq.signalledUsed).toNat =
        (t.used + count.toNat - t.signalled) % 2 ^ 16 := by
      rw [UInt16.toNat_sub, UInt16.toNat_add, UInt32.toNat_toUInt16]
      omega
    have hcnt : (t.vq.usedIdx + count.toUInt16 - t.vq.usedIdx).toNat = count.toNat := by
      rw [UInt16.toNat_sub, UInt16.toNat_add, UInt32.toNat_toUInt16]
      omega
    rw [hcnt, toInt16, hsub] at hnot
    split at hnot <;> omega

theorem trackedInv_flush (h : TrackedInv t) (features : UInt32) {count : UInt32}
    (hc : count.toNat < 2 ^ 16) : TrackedInv (trackedStep features t (.flush count)).1 where
  usedIdx := by
    show (t.vq.usedIdx + count.toUInt16).toNat = (t.used + count.toNat) % 2 ^ 16
    rw [UInt16.toNat_add, UInt32.toNat_toUInt16, h.usedIdx]
    omega
  signalledUsed := h.signalledUsed
  signalled_le := by
    show t.signalled ≤ t.used + count.toNat
    have := h.signalled_le
    omega
  valid := flush_valid h hc

theorem trackedInv_notify (h : TrackedInv t) (features : UInt32) :
    TrackedInv (trackedStep features t .notify).1 := by
  by_cases hp : eventIdxPath features t.vq = true
  · -- the event-index path: signalled_used becomes the used index
    have hn : notifyOnEmpty features t.vq = false := by
      simp only [eventIdxPath, Bool.and_eq_true, Bool.not_eq_true'] at hp
      exact hp.1
    have he : hasFeature features VIRTIO_RING_F_EVENT_IDX = true := by
      simp only [eventIdxPath, Bool.and_eq_true] at hp
      exact hp.2
    have hvq : (trackedStep features t .notify).1.vq =
        { t.vq with signalledUsedValid := true, signalledUsed := t.vq.usedIdx } := by
      simp only [trackedStep_vq, ringStep, vringNotify, hn, he]
      rfl
    have hsig : (trackedStep features t .notify).1.signalled = t.used := by
      simp only [trackedStep, hp, ite_true]
    refine ⟨?_, ?_, ?_, ?_⟩
    · rw [hvq]
      exact h.usedIdx
    · rw [hvq, hsig]
      exact h.usedIdx
    · rw [hsig]
      exact le_rfl
    · intro _
      rw [hsig]
      show t.used - t.used < 2 ^ 15
      omega
  · -- the other paths leave the queue alone
    have hvq : (trackedStep features t .notify).1.vq = t.vq := by
      rw [trackedStep_vq]
      simp only [eventIdxPath, Bool.and_eq_true, Bool.not_eq_true', not_and] at hp
      simp only [ringStep, vringNotify]
      split
      · rfl
      · next hn =>
        split
        · rfl
        · next he => exact absurd (by simpa using he) (hp (by simpa using hn))
    have hsig : (trackedStep features t .notify).1.signalled = t.signalled := by
      simp only [trackedStep, hp, Bool.false_eq_true, ite_false]
    exact ⟨by rw [hvq]; exact h.usedIdx, by rw [hvq, hsig]; exact h.signalledUsed,
      by rw [hsig]; exact h.signalled_le, by rw [hvq, hsig]; exact h.valid⟩

/-- Steps other than flush and notify move neither count nor index. -/
theorem trackedInv_of_frame (h : TrackedInv t) {t' : Tracked} (hused : t'.used = t.used)
    (hsig : t'.signalled = t.signalled) (hidx : t'.vq.usedIdx = t.vq.usedIdx)
    (hsu : t'.vq.signalledUsed = t.vq.signalledUsed)
    (hvalid : t'.vq.signalledUsedValid = t.vq.signalledUsedValid) : TrackedInv t' :=
  ⟨by rw [hidx, hused]; exact h.usedIdx, by rw [hsu, hsig]; exact h.signalledUsed,
    by rw [hsig, hused]; exact h.signalled_le, by rw [hvalid, hused, hsig]; exact h.valid⟩

theorem virtqueuePop_frame {vq vq' : VirtQueue} (h : virtqueuePop vq = some vq') :
    vq'.usedIdx = vq.usedIdx ∧ vq'.signalledUsed = vq.signalledUsed ∧
      vq'.signalledUsedValid = vq.signalledUsedValid := by
  simp only [virtqueuePop] at h
  split_ifs at h <;> cases h <;> exact ⟨rfl, rfl, rfl⟩

theorem trackedInv_step (features : UInt32) (ev : RingEvent) (hb : flushBounded ev)
    (h : TrackedInv t) : TrackedInv (trackedStep features t ev).1 := by
  cases ev with
  | flush count => exact trackedInv_flush h features hb
  | notify => exact trackedInv_notify h features
  | pop =>
    cases hp : virtqueuePop t.vq with
    | none =>
      exact trackedInv_of_frame h rfl rfl (by simp [trackedStep_vq, ringStep, hp])
        (by simp [trackedStep_vq, ringStep, hp]) (by simp [trackedStep_vq, ringStep, hp])
    | some vq' =>
      obtain ⟨h1, h2, h3⟩ := virtqueuePop_frame hp
      exact trackedInv_of_frame h rfl rfl (by simp [trackedStep_vq, ringStep, hp, h1])
        (by simp [trackedStep_vq, ringStep, hp, h2]) (by simp [trackedStep_vq, ringStep, hp, h3])
  | fill => exact trackedInv_of_frame h rfl rfl rfl rfl rfl
  | guestAvail idx => exact trackedInv_of_frame h rfl rfl rfl rfl rfl
  | guestAvailFlags flags => exact trackedInv_of_frame h rfl rfl rfl rfl rfl
  | guestUsedEvent event => exact trackedInv_of_frame h rfl rfl rfl rfl rfl

end Step

/-- Along every run whose flushes are bounded, the counts stay in step
with the ring. -/
theorem trackedInv_run (features : UInt32) {t : Tracked} (h : TrackedInv t) (evs : List RingEvent)
    (hb : ∀ ev ∈ evs, flushBounded ev) : TrackedInv (run (trackedStep features) t evs) :=
  run_invariant_of_forall (trackedStep features) TrackedInv flushBounded
    (fun _ ev hev hs => trackedInv_step features ev hev hs) h evs hb

/-- The window of `vring_notify`: an entry published since the last decision
has index `event` modulo 2^16. -/
def EventInWindow (t : Tracked) : Prop :=
  ∃ k, t.signalled ≤ k ∧ k < t.used ∧ k % 2 ^ 16 = t.vq.usedEvent.toNat

/-- One notify from a state of the invariant: with the event index
negotiated, an interrupt is raised exactly on an empty queue under
`VIRTIO_F_NOTIFY_ON_EMPTY`, an invalid `signalled_used`, or an entry
published since the last decision with index `used_event`. -/
theorem vringNotify_iff {t : Tracked} (h : TrackedInv t) {features : UInt32}
    (hev : hasFeature features VIRTIO_RING_F_EVENT_IDX = true) :
    (vringNotify features t.vq).1 = true ↔
      notifyOnEmpty features t.vq = true ∨ t.vq.signalledUsedValid = false ∨ EventInWindow t := by
  cases hn : notifyOnEmpty features t.vq
  · cases hv : t.vq.signalledUsedValid
    · simp [vringNotify, hn, hev, hv]
    · -- a valid signalled_used: the modular window is the true one
      have hD := h.valid hv
      have hle := h.signalled_le
      have hu := h.usedIdx
      have hs := h.signalledUsed
      have he := t.vq.usedEvent.toNat_lt
      simp only [vringNotify, hn, hev, hv, Bool.false_eq_true, ite_false, Bool.not_true,
        Bool.false_or, vringNeedEvent_iff, UInt16.toNat_sub, hu, hs, Bool.true_eq_false,
        false_or, EventInWindow]
      constructor
      · intro hlt
        exact ⟨t.signalled + (2 ^ 16 - t.signalled % 2 ^ 16 + t.vq.usedEvent.toNat) % 2 ^ 16,
          by omega, by omega, by omega⟩
      · rintro ⟨k, hk1, hk2, hk3⟩
        omega
  · simp [vringNotify, hn]

end QemuKvm.Virtio
