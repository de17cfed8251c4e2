import QemuKvm.Lib.Align
import QemuKvm.Lib.Bits
import QemuKvm.Migration.QemuFile

/-!
# Saving and loading a virtio device (hw/virtio.c)

`virtio_save` writes the device's status, ISR, selected queue, negotiated
features and config space, then the number of configured queues (those
before the first with `vring.num == 0`) and, for each, its size, ring
address and `last_avail_idx`. `virtio_load` reads the same fields back.

Of the lengths and counts in the stream the loader checks only the avail
index of each ring against `last_avail_idx`. The device's memory beyond its
arrays is part of the model: `vq` and `config` are functions on all
indices, of which the first `VIRTIO_PCI_QUEUE_MAX` and the first
`config_len` at allocation are the device's own.

Main results:

* `virtioLoad_virtioSave` — loading what `virtio_save` wrote restores the
  saved fields, when the destination supports the features, a ring address
  of zero comes with a zero `last_avail_idx`, and every saved ring's avail
  index is within `vring.num` of `last_avail_idx`;
* `virtioLoad_accepts_unchecked` — but a stream with 65 queues, one with a
  config space longer than the device's, and one with a ring of size zero
  at a non-zero address are all loaded with return value 0.
-/

namespace QemuKvm.Virtio

open QemuKvm.Migration

def VIRTIO_PCI_QUEUE_MAX : ℕ := 64
def VIRTQUEUE_MAX_SIZE : ℕ := 1024
def VIRTIO_PCI_VRING_ALIGN : ℕ := 4096

/-- The fields of a `VirtQueue` that saving and loading touch. -/
structure QueueState where
  /-- `vring.num` -/
  num : ℕ
  /-- `vring.desc`, `vring.avail` and `vring.used` -/
  desc : ℕ
  avail : ℕ
  used : ℕ
  pa : ℕ
  lastAvailIdx : ℕ
  signalledUsedValid : Bool
  notification : Bool
deriving DecidableEq, Repr, Inhabited

/-- The fields of a `VirtIODevice` that saving and loading touch. -/
structure VirtIODevice where
  status : UInt8
  isr : UInt8
  queueSel : UInt16
  guestFeatures : UInt32
  configLen : ℕ
  config : ℕ → UInt8
  vq : ℕ → QueueState

def VirtIODevice.setQueue (d : VirtIODevice) (i : ℕ) (q : QueueState) : VirtIODevice :=
  { d with vq := Function.update d.vq i q }

/-- `virtqueue_init`: the three parts of the ring laid out from `pa`. -/
def virtqueueInit (q : QueueState) : QueueState :=
  let avail := q.pa + q.num * 16
  { q with
    desc := q.pa
    avail := avail
    used := alignUp VIRTIO_PCI_VRING_ALIGN (avail + 4 + 2 * q.num) }

/-- `vring_avail_idx`: the guest's avail index, read from guest memory by
`lduw`. -/
def vringAvailIdx (lduw : ℕ → ℕ) (q : QueueState) : ℕ := lduw (q.avail + 2)

/-! ## Saving -/

/-- The queues `virtio_save` writes: those before the first with
`vring.num == 0`. -/
def savedQueueCount (d : VirtIODevice) : ℕ :=
  ((List.range VIRTIO_PCI_QUEUE_MAX).find? fun i => (d.vq i).num == 0).getD VIRTIO_PCI_QUEUE_MAX

def saveQueue (q : QueueState) : List UInt8 :=
  qemuPutBe32 q.num ++ qemuPutBe64 q.pa ++ qemuPutBe16 q.lastAvailIdx

/-- `virtio_save`, without the binding's own config and queue state. -/
def virtioSave (d : VirtIODevice) : List UInt8 :=
  qemuPutByte d.status.toNat ++ qemuPutByte d.isr.toNat ++ qemuPutBe16 d.queueSel.toNat ++
    qemuPutBe32 d.guestFeatures.toNat ++ qemuPutBe32 d.configLen ++
    (List.range d.configLen).map d.config ++ qemuPutBe32 (savedQueueCount d) ++
    (List.range (savedQueueCount d)).flatMap fun i => saveQueue (d.vq i)

/-! ## Loading -/

/-- `virtio_set_features`: keep the supported bits, and fail if others
were asked for. -/
def virtioSetFeatures (supported : UInt32) (d : VirtIODevice) (val : UInt32) :
    VirtIODevice × Bool :=
  ({ d with guestFeatures := val &&& supported }, val &&& ~~~supported != 0)

/-- One queue of `virtio_load`'s loop: `none` to go on, `some (-1)` for the
two error returns. -/
def loadQueue (lduw : ℕ → ℕ) (d : VirtIODevice) (i : ℕ) (f : List UInt8) :
    VirtIODevice × List UInt8 × Option ℤ :=
  let (num, f) := qemuGetBe32 f
  let (pa, f) := qemuGetBe64 f
  let (last, f) := qemuGetBe16 f
  let old := d.vq i
  let q : QueueState :=
    { old with
      num := num
      pa := pa
      lastAvailIdx := last
      signalledUsedValid := false
      notification := true }
  if pa ≠ 0 then
    let q := virtqueueInit q
    -- the only check of the stream's ring: its avail index against last_avail_idx
    let nheads := (vringAvailIdx lduw q + 2 ^ 16 - q.lastAvailIdx) % 2 ^ 16
    (d.setQueue i q, f, if nheads > q.num then some (-1) else none)
  else (d.setQueue i q, f, if q.lastAvailIdx ≠ 0 then some (-1) else none)

/-- `for (i = 0; i < num; i++)`, with the count of queues left to load. -/
def loadQueues (lduw : ℕ → ℕ) : ℕ → ℕ → VirtIODevice → List UInt8 → ℤ × VirtIODevice × List UInt8
  | 0, _, d, f => (0, d, f)
  | k + 1, i, d, f =>
    match loadQueue lduw d i f with
    | (d, f, some ret) => (ret, d, f)
    | (d, f, none) => loadQueues lduw k (i + 1) d f

/-- `(int)x` for a 32-bit unsigned value: the loop count is an `int`. -/
def toInt32 (x : ℕ) : ℤ := if x < 2 ^ 31 then x else (x : ℤ) - 2 ^ 32

/-- `virtio_load`, without the binding's own config and queue state:
the return value, the device as the loader leaves it, and the stream not
read. -/
def virtioLoad (supported : UInt32) (lduw : ℕ → ℕ) (d : VirtIODevice) (f : List UInt8) :
    ℤ × VirtIODevice × List UInt8 :=
  let (status, f) := qemuGetByte f
  let (isr, f) := qemuGetByte f
  let (queueSel, f) := qemuGetBe16 f
  let (features, f) := qemuGetBe32 f
  let d := { d with status := status.toUInt8, isr := isr.toUInt8, queueSel := queueSel.toUInt16 }
  let (d, bad) := virtioSetFeatures supported d features.toUInt32
  if bad then (-1, d, f)
  else
    let (configLen, f) := qemuGetBe32 f
    let (bytes, f) := qemuGetBuffer f configLen
    let d := { d with
      configLen := configLen
      config := fun a => if h : a < bytes.length then bytes[a] else d.config a }
    let (num, f) := qemuGetBe32 f
    loadQueues lduw (toInt32 num).toNat 0 d f

/-- `virtio_common_init`: a device with a zeroed config space of
`configSize` bytes and zeroed queues. -/
def virtioCommonInit (configSize : ℕ) : VirtIODevice :=
  ⟨0, 0, 0, 0, configSize, fun _ => 0, fun _ => default⟩

/-! ## What the loader accepts -/

/-- A queue the saver wrote and the loader takes back: a ring address of
zero comes with a zero `last_avail_idx`, and otherwise the guest's avail
index is within `vring.num` of it. -/
structure QueueLoadable (lduw : ℕ → ℕ) (q : QueueState) : Prop where
  num_lt : q.num < 2 ^ 32
  pa_lt : q.pa < 2 ^ 64
  last_lt : q.lastAvailIdx < 2 ^ 16
  zero : q.pa = 0 → q.lastAvailIdx = 0
  nheads : q.pa ≠ 0 →
    (vringAvailIdx lduw (virtqueueInit q) + 2 ^ 16 - q.lastAvailIdx) % 2 ^ 16 ≤ q.num

/-- The queue as the loader rebuilds it from the saved fields. -/
def loadedQueue (old q : QueueState) : QueueState :=
  let q' : QueueState :=
    { old with
      num := q.num
      pa := q.pa
      lastAvailIdx := q.lastAvailIdx
      signalledUsedValid := false
      notification := true }
  if q.pa ≠ 0 then virtqueueInit q' else q'

theorem loadQueue_saveQueue (lduw : ℕ → ℕ) (d : VirtIODevice) (i : ℕ) {q : QueueState}
    (hq : QueueLoadable lduw q) (f : List UInt8) :
    loadQueue lduw d i (saveQueue q ++ f) = (d.setQueue i (loadedQueue (d.vq i) q), f, none) := by
  simp only [saveQueue, List.append_assoc, loadQueue, qemuGetBe32_put _ hq.num_lt,
    qemuGetBe64_put _ hq.pa_lt, qemuGetBe16_put _ hq.last_lt, loadedQueue]
  by_cases hpa : q.pa = 0
  · simp only [hpa, ne_eq, not_true_eq_false, ite_false, hq.zero hpa]
  · have hn := hq.nheads hpa
    simp only [virtqueueInit, vringAvailIdx] at hn
    simp only [hpa, ne_eq, not_false_eq_true, ite_true, virtqueueInit, vringAvailIdx,
      gt_iff_lt, not_lt.2 hn, ite_false]

/-- The loop loads each saved queue in turn. -/
theorem loadQueues_saved (lduw : ℕ → ℕ) (qs : ℕ → QueueState) (k i : ℕ) (d : VirtIODevice)
    (hq : ∀ j, i ≤ j → j < i + k → QueueLoadable lduw (qs j)) (f : List UInt8) :
    ∃ d', loadQueues lduw k i d (((List.range k).flatMap fun j => saveQueue (qs (i + j))) ++ f) =
        (0, d', f) ∧
      (∀ j, i ≤ j → j < i + k → d'.vq j = loadedQueue (d.vq j) (qs j)) ∧
      (∀ j, (j < i ∨ i + k ≤ j) → d'.vq j = d.vq j) ∧
      d'.status = d.status ∧ d'.isr = d.isr ∧ d'.queueSel = d.queueSel ∧
      d'.guestFeatures = d.guestFeatures ∧ d'.configLen = d.configLen ∧ d'.config = d.config := by
  induction k generalizing i d with
  | zero =>
    exact ⟨d, rfl, fun j h1 h2 => by omega, fun _ _ => rfl, rfl, rfl, rfl, rfl, rfl, rfl⟩
  | succ k ih =>
    -- the first saved queue, then the rest from the next index
    have hfirst := loadQueue_saveQueue lduw d i (hq i le_rfl (by omega))
      (((List.range k).flatMap fun j => saveQueue (qs (i + 1 + j))) ++ f)
    obtain ⟨d', hrun, hset, hkeep, h1, h2, h3, h4, h5, h6⟩ :=
      ih (i + 1) (d.setQueue i (loadedQueue (d.vq i) (qs i)))
        (fun j hj1 hj2 => hq j (by omega) (by omega))
    have hlist : ((List.range (k + 1)).flatMap fun j => saveQueue (qs (i + j))) =
        saveQueue (qs i) ++ (List.range k).flatMap fun j => saveQueue (qs (i + 1 + j)) := by
      rw [List.range_succ_eq_map, List.flatMap_cons, List.flatMap_map]
      simp only [Nat.add_zero, Nat.succ_eq_add_one, Nat.add_comm 1, Nat.add_assoc]
    refine ⟨d', ?_, fun j hj1 hj2 => ?_, fun j hj => ?_, h1, h2, h3, h4, h5, h6⟩
    · rw [hlist, List.append_assoc, loadQueues, hfirst]
      exact hrun
    · rcases Nat.lt_or_ge i j with hlt | hge
      · rw [hset j hlt (by omega)]
        simp only [VirtIODevice.setQueue, Function.update_of_ne (Nat.ne_of_gt hlt)]
      · have hj : j = i := by omega
        subst hj
        rw [hkeep j (Or.inl (Nat.lt_succ_self j))]
        simp only [VirtIODevice.setQueue, Function.update_self]
    · rw [hkeep j (by omega)]
      simp only [VirtIODevice.setQueue, Function.update_of_ne (show j ≠ i by omega)]

theorem loadedQueue_num (old q : QueueState) : (loadedQueue old q).num = q.num := by
  unfold loadedQueue
  split <;> rfl

theorem loadedQueue_pa (old q : QueueState) : (loadedQueue old q).pa = q.pa := by
  unfold loadedQueue
  split <;> rfl

theorem loadedQueue_lastAvailIdx (old q : QueueState) :
    (loadedQueue old q).lastAvailIdx = q.lastAvailIdx := by
  unfold loadedQueue
  split <;> rfl

theorem savedQueueCount_le (d : VirtIODevice) : savedQueueCount d ≤ VIRTIO_PCI_QUEUE_MAX := by
  unfold savedQueueCount
  cases h : (List.range VIRTIO_PCI_QUEUE_MAX).find? fun i => (d.vq i).num == 0 with
  | none => exact le_rfl
  | some i => exact (List.mem_range.1 (List.mem_of_find?_eq_some h)).le

/-- What `virtio_save` wrote, `virtio_load` reads back: on any destination
device that supports the saved features, with the same guest memory, the
load returns 0 and restores status, ISR, selected queue, features and
config space, and each saved queue's size, ring address and
`last_avail_idx`. -/
theorem virtioLoad_virtioSave (supported : UInt32) (lduw : ℕ → ℕ) (d dst : VirtIODevice)
    (f : List UInt8) (hfeat : d.guestFeatures &&& ~~~supported = 0) (hcfg : d.configLen < 2 ^ 31)
    (hq : ∀ i < savedQueueCount d, QueueLoadable lduw (d.vq i)) :
    ∃ d', virtioLoad supported lduw dst (virtioSave d ++ f) = (0, d', f) ∧
      d'.status = d.status ∧ d'.isr = d.isr ∧ d'.queueSel = d.queueSel ∧
      d'.guestFeatures = d.guestFeatures ∧ d'.configLen = d.configLen ∧
      (∀ a < d.configLen, d'.config a = d.config a) ∧
      ∀ i < savedQueueCount d, (d'.vq i).num = (d.vq i).num ∧ (d'.vq i).pa = (d.vq i).pa ∧
        (d'.vq i).lastAvailIdx = (d.vq i).lastAvailIdx := by
  have hcount := savedQueueCount_le d
  have hcb : ((List.range d.configLen).map d.config).length < 2 ^ 31 := by simpa using hcfg
  -- the header and the config space read back field by field
  have hbuf := qemuGetBuffer_put ((List.range d.configLen).map d.config)
    (qemuPutBe32 (savedQueueCount d) ++
      (((List.range (savedQueueCount d)).flatMap fun i => saveQueue (d.vq i)) ++ f)) hcb
  rw [List.length_map, List.length_range] at hbuf
  have hint : (toInt32 (savedQueueCount d)).toNat = savedQueueCount d := by
    unfold toInt32 VIRTIO_PCI_QUEUE_MAX at *
    rw [if_pos (by omega)]
    rfl
  obtain ⟨d', hrun, hset, -, h1, h2, h3, h4, h5, h6⟩ :=
    loadQueues_saved lduw d.vq (savedQueueCount d) 0
      { dst with
        status := d.status
        isr := d.isr
        queueSel := d.queueSel
        guestFeatures := d.guestFeatures
        configLen := d.configLen
        config := fun a => if h : a < ((List.range d.configLen).map d.config).length then
          ((List.range d.configLen).map d.config)[a] else dst.config a }
      (fun j _ hj => hq j (by omega)) f
  simp only [Nat.zero_add] at hrun hset
  refine ⟨d', ?_, h1, h2, h3, h4, h5, fun a ha => ?_, fun i hi => ?_⟩
  · simp only [virtioSave, List.append_assoc, virtioLoad, qemuPutByte, List.cons_append,
      List.nil_append, qemuGetByte_cons, Nat.toUInt8_eq, UInt8.ofNat_toNat, Nat.toUInt16_eq,
      UInt16.ofNat_toNat, Nat.toUInt32_eq, UInt32.ofNat_toNat, qemuGetBe16_put _ d.queueSel.toNat_lt,
      qemuGetBe32_put _ d.guestFeatures.toNat_lt, virtioSetFeatures, hfeat, bne_self_eq_false,
      Bool.false_eq_true, ite_false, qemuGetBe32_put _ (show d.configLen < 2 ^ 32 by omega), hbuf,
      qemuGetBe32_put _ (show savedQueueCount d < 2 ^ 32 by unfold VIRTIO_PCI_QUEUE_MAX at hcount; omega),
      hint, UInt32.and_eq_self_of_and_not _ _ hfeat]
    simpa using hrun
  · rw [h6]
    simp [ha]
  · rw [hset i (Nat.zero_le i) (by omega)]
    exact ⟨loadedQueue_num _ _, loadedQueue_pa _ _, loadedQueue_lastAvailIdx _ _⟩

/-- A stream with 65 queues and nothing after the count: the reads past the
end give zeros, and the 65th queue is written past the device's array. -/
def streamQueues65 : List UInt8 := [0, 0, 0, 0, 0, 0, 0, 0, 0, 0, 0, 0, 0, 0, 0, 65]

/-- A stream whose config space is 256 bytes long. -/
def streamConfig256 : List UInt8 := [0, 0, 0, 0, 0, 0, 0, 0, 0, 0, 1, 0]

/-- A stream with one queue of size 0 whose ring is at 0x1000. -/
def streamRingZero : List UInt8 :=
  [0, 0, 0, 0, 0, 0, 0, 0, 0, 0, 0, 0, 0, 0, 0, 1] ++
    qemuPutBe32 0 ++ qemuPutBe64 0x1000 ++ qemuPutBe16 0

/-- Each of the three streams is loaded with return value 0 by a device
with 8 bytes of config space whose guest memory reads 0: the first writes a
65th queue past the array of 64, the second leaves a config length of 256,
the third a ring at 0x1000 of size 0, whose indices later go modulo 0. -/
theorem virtioLoad_accepts_unchecked :
    (virtioLoad 0 (fun _ => 0) (virtioCommonInit 8) streamQueues65).1 = 0 ∧
      (virtioLoad 0 (fun _ => 0) (virtioCommonInit 8) streamQueues65).2.1.vq
          VIRTIO_PCI_QUEUE_MAX ≠ (virtioCommonInit 8).vq VIRTIO_PCI_QUEUE_MAX ∧
    (virtioLoad 0 (fun _ => 0) (virtioCommonInit 8) streamConfig256).1 = 0 ∧
      (virtioLoad 0 (fun _ => 0) (virtioCommonInit 8) streamConfig256).2.1.configLen = 256 ∧
    (virtioLoad 0 (fun _ => 0) (virtioCommonInit 8) streamRingZero).1 = 0 ∧
      ((virtioLoad 0 (fun _ => 0) (virtioCommonInit 8) streamRingZero).2.1.vq 0).pa = 0x1000 ∧
      ((virtioLoad 0 (fun _ => 0) (virtioCommonInit 8) streamRingZero).2.1.vq 0).num = 0 := by
  decide

end QemuKvm.Virtio
