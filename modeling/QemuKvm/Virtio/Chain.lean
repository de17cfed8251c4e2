import Mathlib.Data.UInt
import QemuKvm.Virtio.Load
import QemuKvm.Virtio.Ring

/-!
# Walking a descriptor chain (hw/virtio.c)

`virtqueue_pop` takes the next head the guest made available and follows the
chain of descriptors from it, in the queue's descriptor table or, when the
head says `VRING_DESC_F_INDIRECT`, in a table of its own whose address and
length the head gives. Every field it reads is guest memory, so the walk
defends itself: the head must be below `vring.num`, each `next` below the
table's `max`, and a counter of descriptors collected above `max` means a
loop. `virtqueue_avail_bytes` walks the same chains, counting bytes.

The model reads guest memory through `mem`, the descriptor at each
physical address, and the avail ring through `availRing`; both are fixed
for the call. The walk records every descriptor it reads, as table address
and index, so that what the code reads can be stated.

Main results:

* `virtqueuePop_isSome` — the walk with `max + 1` rounds of fuel never runs
  out: every descriptor loop is caught by the counter;
* `virtqueuePop_bounded` — `in_num` and `out_num` never pass
  `VIRTQUEUE_MAX_SIZE`, so the element's arrays are written in bounds;
* `virtqueuePop_elem` — a popped chain has its head below `vring.num`,
  at most `max` buffers, and advances `last_avail_idx` by one;
* `virtqueuePop_refines` — popping a chain or finding the ring empty does
  to the queue what the index-level `Virtio.virtqueuePop` does;
* `virtqueuePop_reads` — every descriptor read is below the `max` of its
  table, except descriptor 0 of an empty indirect table, which is read
  before the counter is checked;
* `availBytes_isSome` and `availBytes_wraps` — `virtqueue_avail_bytes`
  terminates, but its byte totals are `int`s that a guest length of 2^31
  makes negative.
-/

namespace QemuKvm.Virtio.Chain

def VRING_DESC_F_NEXT : UInt16 := 1
def VRING_DESC_F_WRITE : UInt16 := 2
def VRING_DESC_F_INDIRECT : UInt16 := 4

/-- `VRingDesc`: one 16-byte descriptor in guest memory. -/
structure VRingDesc where
  addr : UInt64
  len : UInt32
  flags : UInt16
  next : UInt16
deriving DecidableEq, Repr

/-- Descriptor `i` of the table at `descPa`, as `vring_desc_addr`,
`vring_desc_len`, `vring_desc_flags` and `vring_desc_next` read it. -/
def descAt (mem : ℕ → VRingDesc) (descPa i : ℕ) : VRingDesc :=
  mem ((descPa + 16 * i) % 2 ^ 64)

/-- What a walk has done: the descriptors it read, as table address and
index, and the buffers it collected as guest address and length
(`in_addr`/`in_sg` and `out_addr`/`out_sg`; `in_num` is the length). -/
structure Walk where
  reads : List (ℕ × ℕ)
  inSg : List (UInt64 × UInt32)
  outSg : List (UInt64 × UInt32)
deriving DecidableEq, Repr

/-- `elem->in_num + elem->out_num`. -/
def Walk.count (w : Walk) : ℕ := w.inSg.length + w.outSg.length

/-- `in_num` and `out_num` within the element's arrays `in_sg`, `in_addr`,
`out_sg` and `out_addr` of `VIRTQUEUE_MAX_SIZE` entries. -/
structure Walk.Bounded (w : Walk) : Prop where
  inNum : w.inSg.length ≤ VIRTQUEUE_MAX_SIZE
  outNum : w.outSg.length ≤ VIRTQUEUE_MAX_SIZE

/-- The walk a round ends with, whether it goes on or `exit`s. -/
def Walk.ofExcept : Except Walk Walk → Walk
  | .ok w => w
  | .error w => w

/-- `virtqueue_next_desc(desc_pa, i, max)`: `max` at the end of the chain,
`none` for `exit(1)` on a `next` that leads off the table. -/
def virtqueueNextDesc (mem : ℕ → VRingDesc) (descPa i max : ℕ) : Option ℕ :=
  let d := descAt mem descPa i
  if d.flags &&& VRING_DESC_F_NEXT = 0 then some max
  else if max ≤ d.next.toNat then none
  else some d.next.toNat

/-- The body of the `do ... while` loop of `virtqueue_pop` at descriptor
`i`: the buffer goes to `in` or `out` by `VRING_DESC_F_WRITE`, and the
counter is checked after it. `.error` is `exit(1)`. -/
def popCollect (mem : ℕ → VRingDesc) (descPa max i : ℕ) (w : Walk) : Except Walk Walk :=
  let d := descAt mem descPa i
  let w := { w with reads := w.reads ++ [(descPa, i)] }
  let added : Except Walk Walk :=
    if d.flags &&& VRING_DESC_F_WRITE ≠ 0 then
      -- "Too many write descriptors in indirect table"
      if VIRTQUEUE_MAX_SIZE ≤ w.inSg.length then .error w
      else .ok { w with inSg := w.inSg ++ [(d.addr, d.len)] }
    else
      if VIRTQUEUE_MAX_SIZE ≤ w.outSg.length then .error w
      else .ok { w with outSg := w.outSg ++ [(d.addr, d.len)] }
  -- "Looped descriptor"
  added.bind fun w => if max < w.count then .error w else .ok w

/-- The `do ... while` loop of `virtqueue_pop` over the table at `descPa`
of `max` entries; `none` only when the fuel runs out. -/
def popLoop (mem : ℕ → VRingDesc) (descPa max : ℕ) :
    ℕ → ℕ → Walk → Option (Except Walk Walk)
  | 0, _, _ => none
  | fuel + 1, i, w =>
    match popCollect mem descPa max i w with
    | .error w => some (.error w)
    | .ok w =>
      match virtqueueNextDesc mem descPa i max with
      | none => some (.error w)
      | some next => if next = max then some (.ok w) else popLoop mem descPa max fuel next w

/-- `virtqueue_num_heads(vq, idx)`: the heads between `idx` and the guest's
avail index, modulo 2^16; `none` is `exit(1)` when there are more than
`vring.num`. -/
def virtqueueNumHeads (vq : VirtQueue) (idx : ℕ) : Option ℕ :=
  let numHeads := vq.availIdx - idx.toUInt16
  if vq.num < numHeads.toNat then none else some numHeads.toNat

/-- `virtqueue_get_head(vq, idx)`: the head in avail ring slot
`idx % vring.num`; `none` is `exit(1)` on a head not below `vring.num`. -/
def virtqueueGetHead (availRing : ℕ → UInt16) (vq : VirtQueue) (idx : ℕ) : Option ℕ :=
  let head := (availRing (idx % vq.num)).toNat
  if vq.num ≤ head then none else some head

/-- Where `virtqueue_pop` walks the chain of `head`: the table, its `max`
and the first index, in the indirect table when the head descriptor says
so; `none` is `exit(1)` on an indirect length that is not a multiple of
16. -/
def chainStart (mem : ℕ → VRingDesc) (descPa num head : ℕ) : Option (ℕ × ℕ × ℕ) :=
  let d := descAt mem descPa head
  if d.flags &&& VRING_DESC_F_INDIRECT ≠ 0 then
    if d.len.toNat % 16 ≠ 0 then none
    else some (d.addr.toNat, d.len.toNat / 16, 0)
  else some (descPa, num, head)

/-- How `virtqueue_pop` ends. -/
inductive PopResult
  /-- `return 0`: no head is available -/
  | empty
  /-- `exit(1)`, after the reads of the walk -/
  | exit (w : Walk)
  /-- a chain from `head`, with the queue as the call leaves it -/
  | elem (head : ℕ) (w : Walk) (vq : VirtQueue)
deriving DecidableEq, Repr

/-- The walk behind a result; finding the ring empty reads no descriptor. -/
def PopResult.walk : PopResult → Walk
  | .empty => ⟨[], [], []⟩
  | .exit w => w
  | .elem _ w _ => w

/-- The result of a walked chain: `exit`, or the element from `head` with
the queue as `virtqueue_pop` leaves it. -/
def PopResult.ofLoop (head : ℕ) (vq : VirtQueue) : Except Walk Walk → PopResult
  | .error w => .exit w
  | .ok w => .elem head w vq

/-- `virtqueue_pop`, up to mapping the buffers. The queue's descriptor table
is at `descPa`; the `avail_event` write under `VIRTIO_RING_F_EVENT_IDX` goes
to the used ring, which nothing here reads. -/
def virtqueuePop (mem : ℕ → VRingDesc) (availRing : ℕ → UInt16) (descPa : ℕ)
    (vq : VirtQueue) : Option PopResult :=
  match virtqueueNumHeads vq vq.lastAvailIdx.toNat with
  | none => some (.exit ⟨[], [], []⟩)
  | some 0 => some .empty
  | some (_ + 1) =>
    match virtqueueGetHead availRing vq vq.lastAvailIdx.toNat with
    | none => some (.exit ⟨[], [], []⟩)
    | some head =>
      let vq := { vq with lastAvailIdx := vq.lastAvailIdx + 1 }
      -- the head descriptor is read for its flags, and for an indirect
      -- table's address and length
      let w : Walk := ⟨[(descPa, head)], [], []⟩
      match chainStart mem descPa vq.num head with
      | none => some (.exit w)
      | some (pa, max, i) =>
        (popLoop mem pa max (max + 1) i w).map
          (PopResult.ofLoop head { vq with inuse := vq.inuse + 1 })

/-- `total += len` on an `int`: the sum is taken unsigned and converted
back, as gcc does. -/
def addLen (total : ℤ) (len : UInt32) : ℤ :=
  toInt32 ((total + len.toNat) % 2 ^ 32).toNat

/-- How the walk of one chain in `virtqueue_avail_bytes` ends. -/
inductive AvailEnd
  | exit
  /-- `return 1`: the bytes asked for are there -/
  | found
  /-- the chain ends, with the counter and the totals -/
  | done (numBufs : ℕ) (inTotal outTotal : ℤ)
deriving DecidableEq, Repr

/-- A descriptor's length added to the total of its direction, when that
direction is asked for; `true` when the total reaches what was asked. -/
def availCount (d : VRingDesc) (inBytes outBytes inTotal outTotal : ℤ) : Bool × ℤ × ℤ :=
  if d.flags &&& VRING_DESC_F_WRITE ≠ 0 then
    if 0 < inBytes then
      let t := addLen inTotal d.len
      (decide (inBytes ≤ t), t, outTotal)
    else (false, inTotal, outTotal)
  else
    if 0 < outBytes then
      let t := addLen outTotal d.len
      (decide (outBytes ≤ t), inTotal, t)
    else (false, inTotal, outTotal)

/-- The `do ... while` loop of `virtqueue_avail_bytes` over one chain. -/
def availLoop (mem : ℕ → VRingDesc) (descPa max : ℕ) (inBytes outBytes : ℤ) :
    ℕ → ℕ → ℕ → ℤ → ℤ → Option AvailEnd
  | 0, _, _, _, _ => none
  | fuel + 1, i, numBufs, inTotal, outTotal =>
    -- "Looped descriptor", checked here before the descriptor is read
    if max < numBufs + 1 then some .exit
    else
      match availCount (descAt mem descPa i) inBytes outBytes inTotal outTotal with
      | (true, _, _) => some .found
      | (false, inTotal, outTotal) =>
        match virtqueueNextDesc mem descPa i max with
        | none => some .exit
        | some next =>
          if next = max then some (.done (numBufs + 1) inTotal outTotal)
          else availLoop mem descPa max inBytes outBytes fuel next (numBufs + 1) inTotal outTotal

/-- Where `virtqueue_avail_bytes` walks the chain of `head`, and the count it
starts from: table, `max`, first index, `num_bufs` and whether it is
indirect. The source sets `i` to 0 before it reads the indirect table's
address, so the address is taken from descriptor 0 of the queue's table,
not from the head. -/
def availStart (mem : ℕ → VRingDesc) (descPa num head totalBufs : ℕ) :
    Option (ℕ × ℕ × ℕ × ℕ × Bool) :=
  let d := descAt mem descPa head
  if d.flags &&& VRING_DESC_F_INDIRECT ≠ 0 then
    if d.len.toNat % 16 ≠ 0 then none
    else if num ≤ totalBufs then none
    else some ((descAt mem descPa 0).addr.toNat, d.len.toNat / 16, 0, 0, true)
  else some (descPa, num, head, totalBufs, false)

/-- The `while` loop of `virtqueue_avail_bytes` from avail index `idx`
(an `unsigned int`): `some r` is `return r` and `none` is `exit(1)`; the
outer `none` only when the fuel runs out. -/
def availHeads (mem : ℕ → VRingDesc) (availRing : ℕ → UInt16) (descPa : ℕ) (vq : VirtQueue)
    (inBytes outBytes : ℤ) : ℕ → ℕ → ℕ → ℤ → ℤ → Option (Option ℤ)
  | 0, _, _, _, _ => none
  | fuel + 1, idx, totalBufs, inTotal, outTotal =>
    match virtqueueNumHeads vq idx with
    | none => some none
    | some 0 => some (some 0)
    | some (_ + 1) =>
      match virtqueueGetHead availRing vq idx with
      | none => some none
      | some head =>
        match availStart mem descPa vq.num head totalBufs with
        | none => some none
        | some (pa, max, i, numBufs, indirect) =>
          match availLoop mem pa max inBytes outBytes (max + 1) i numBufs inTotal outTotal with
          | none => none
          | some .exit => some none
          | some .found => some (some 1)
          | some (.done numBufs inTotal outTotal) =>
            availHeads mem availRing descPa vq inBytes outBytes fuel (idx + 1)
              (if indirect then totalBufs + 1 else numBufs) inTotal outTotal

/-- `virtqueue_avail_bytes(vq, in_bytes, out_bytes)`. -/
def virtqueueAvailBytes (mem : ℕ → VRingDesc) (availRing : ℕ → UInt16) (descPa : ℕ)
    (vq : VirtQueue) (inBytes outBytes : ℤ) : Option (Option ℤ) :=
  availHeads mem availRing descPa vq inBytes outBytes (vq.num + 1) vq.lastAvailIdx.toNat 0 0 0

section Walk

variable {mem : ℕ → VRingDesc} {descPa max i : ℕ} {w w' : Walk}

theorem virtqueueNextDesc_le {next : ℕ} (h : virtqueueNextDesc mem descPa i max = some next) :
    next ≤ max := by
  simp only [virtqueueNextDesc] at h
  split_ifs at h with hn hoff
  · cases h; rfl
  · cases h; omega

theorem ofExcept_check (v : Walk) :
    Walk.ofExcept (if max < v.count then .error v else .ok v) = v := by
  split <;> rfl

theorem check_ok {v : Walk} (h : (if max < v.count then .error v else .ok v) = Except.ok w') :
    w' = v ∧ v.count ≤ max := by
  split at h
  · cases h
  · cases h
    exact ⟨rfl, by omega⟩

/-- A round reads descriptor `i` and collects at most its buffer; the arrays
are checked before they are written. -/
theorem popCollect_walk (hb : w.Bounded) :
    (Walk.ofExcept (popCollect mem descPa max i w)).reads = w.reads ++ [(descPa, i)] ∧
      (Walk.ofExcept (popCollect mem descPa max i w)).Bounded := by
  obtain ⟨hin, hout⟩ := hb
  simp only [popCollect]
  split_ifs with hw hfull hfull'
  · exact ⟨rfl, hin, hout⟩
  · simp only [Except.bind, ofExcept_check, true_and]
    exact ⟨by simp only [List.length_append, List.length_singleton]; omega, hout⟩
  · exact ⟨rfl, hin, hout⟩
  · simp only [Except.bind, ofExcept_check, true_and]
    exact ⟨hin, by simp only [List.length_append, List.length_singleton]; omega⟩

/-- A round that goes on has collected one buffer more, and no more than
`max`. -/
theorem popCollect_ok (h : popCollect mem descPa max i w = .ok w') :
    w'.count = w.count + 1 ∧ w'.count ≤ max := by
  simp only [popCollect] at h
  split_ifs at h with hw hfull hfull'
  · cases h
  · obtain ⟨rfl, hle⟩ := check_ok h
    simp only [Walk.count, List.length_append, List.length_singleton] at hle ⊢
    omega
  · cases h
  · obtain ⟨rfl, hle⟩ := check_ok h
    simp only [Walk.count, List.length_append, List.length_singleton] at hle ⊢
    omega

/-- The loop ends within `max + 1` rounds from an empty element: a round
that goes on has collected one buffer more, and the counter stops the loop
once there are more than `max`. -/
theorem popLoop_isSome (fuel : ℕ) :
    ∀ i w, max - w.count < fuel → (popLoop mem descPa max fuel i w).isSome := by
  induction fuel with
  | zero => intro i w hf; omega
  | succ fuel ih =>
    intro i w hf
    simp only [popLoop]
    cases hc : popCollect mem descPa max i w with
    | error v => rfl
    | ok v =>
      obtain ⟨hcount, hle⟩ := popCollect_ok hc
      cases hn : virtqueueNextDesc mem descPa i max with
      | none => rfl
      | some next =>
        simp only
        split
        · rfl
        · exact ih next v (by omega)

/-- What a run reads: descriptor `i` first, then only descriptors below
`max` of the same table, which `virtqueue_next_desc` checked; and the arrays
stay in bounds throughout. -/
theorem popLoop_walk {r : Except Walk Walk} (fuel : ℕ) :
    ∀ i w, w.Bounded → popLoop mem descPa max fuel i w = some r →
      (∃ new, (Walk.ofExcept r).reads = w.reads ++ (descPa, i) :: new ∧
        ∀ p ∈ new, p.1 = descPa ∧ p.2 < max) ∧ (Walk.ofExcept r).Bounded := by
  induction fuel with
  | zero => intro i w _ h; cases h
  | succ fuel ih =>
    intro i w hb h
    simp only [popLoop] at h
    have hround := @popCollect_walk mem descPa max i w hb
    cases hc : popCollect mem descPa max i w with
    | error v =>
      rw [hc] at h hround
      cases h
      exact ⟨⟨[], by simpa [Walk.ofExcept] using hround.1, by simp⟩, hround.2⟩
    | ok v =>
      rw [hc] at h hround
      simp only [Walk.ofExcept] at hround
      obtain ⟨hreads, hvb⟩ := hround
      cases hn : virtqueueNextDesc mem descPa i max with
      | none =>
        rw [hn] at h
        cases h
        exact ⟨⟨[], by simpa [Walk.ofExcept] using hreads, by simp⟩, hvb⟩
      | some next =>
        rw [hn] at h
        simp only at h
        split at h
        · cases h
          exact ⟨⟨[], by simpa [Walk.ofExcept] using hreads, by simp⟩, hvb⟩
        · rename_i hne
          have hlt : next < max := lt_of_le_of_ne (virtqueueNextDesc_le hn) hne
          obtain ⟨⟨new, hnew, hall⟩, hrb⟩ := ih next v hvb h
          refine ⟨⟨(descPa, next) :: new, by simp [hnew, hreads], ?_⟩, hrb⟩
          intro p hp
          rcases List.mem_cons.1 hp with rfl | hp
          · exact ⟨rfl, hlt⟩
          · exact hall p hp

/-- A chain the loop collects has at most `max` buffers. -/
theorem popLoop_ok (fuel : ℕ) :
    ∀ i w, popLoop mem descPa max fuel i w = some (.ok w') → w'.count ≤ max := by
  induction fuel with
  | zero => intro i w h; cases h
  | succ fuel ih =>
    intro i w h
    simp only [popLoop] at h
    cases hc : popCollect mem descPa max i w with
    | error v => rw [hc] at h; cases h
    | ok v =>
      rw [hc] at h
      cases hn : virtqueueNextDesc mem descPa i max with
      | none => rw [hn] at h; cases h
      | some next =>
        rw [hn] at h
        simp only at h
        split at h
        · cases h
          exact (popCollect_ok hc).2
        · exact ih next v h

end Walk

@[simp] theorem PopResult.walk_ofLoop (head : ℕ) (vq : VirtQueue) (e : Except Walk Walk) :
    (PopResult.ofLoop head vq e).walk = Walk.ofExcept e := by
  cases e <;> rfl

section Pop

variable {mem : ℕ → VRingDesc} {availRing : ℕ → UInt16} {descPa : ℕ} {vq : VirtQueue}

theorem virtqueueGetHead_lt {idx head : ℕ} (h : virtqueueGetHead availRing vq idx = some head) :
    head < vq.num := by
  simp only [virtqueueGetHead] at h
  split_ifs at h with hle
  cases h
  omega

/-- The chain is walked in the queue's table from the head, or in an
indirect table from its first entry. -/
theorem chainStart_cases {num head pa max i : ℕ}
    (h : chainStart mem descPa num head = some (pa, max, i)) :
    (pa = descPa ∧ max = num ∧ i = head) ∨ i = 0 := by
  simp only [chainStart] at h
  split_ifs at h with hind hlen
  · cases h; exact .inr rfl
  · cases h; exact .inl ⟨rfl, rfl, rfl⟩

/-- What `virtqueue_pop` can do: `exit` on the head count, find no head,
`exit` on the head, `exit` on the size of an indirect table, or walk the
chain where `chainStart` says. -/
theorem virtqueuePop_cases {r : PopResult} (h : virtqueuePop mem availRing descPa vq = some r) :
    (virtqueueNumHeads vq vq.lastAvailIdx.toNat = none ∧ r = .exit ⟨[], [], []⟩) ∨
    (virtqueueNumHeads vq vq.lastAvailIdx.toNat = some 0 ∧ r = .empty) ∨
    ∃ k, virtqueueNumHeads vq vq.lastAvailIdx.toNat = some (k + 1) ∧
      ((virtqueueGetHead availRing vq vq.lastAvailIdx.toNat = none ∧ r = .exit ⟨[], [], []⟩) ∨
       ∃ head, virtqueueGetHead availRing vq vq.lastAvailIdx.toNat = some head ∧
        ((chainStart mem descPa vq.num head = none ∧ r = .exit ⟨[(descPa, head)], [], []⟩) ∨
         ∃ pa max i e, chainStart mem descPa vq.num head = some (pa, max, i) ∧
          popLoop mem pa max (max + 1) i ⟨[(descPa, head)], [], []⟩ = some e ∧
          r = PopResult.ofLoop head
            { vq with lastAvailIdx := vq.lastAvailIdx + 1, inuse := vq.inuse + 1 } e)) := by
  unfold virtqueuePop at h
  cases hn : virtqueueNumHeads vq vq.lastAvailIdx.toNat with
  | none => rw [hn] at h; cases h; exact .inl ⟨rfl, rfl⟩
  | some n =>
    rw [hn] at h
    cases n with
    | zero => cases h; exact .inr (.inl ⟨rfl, rfl⟩)
    | succ k =>
      refine .inr (.inr ⟨k, rfl, ?_⟩)
      simp only at h
      cases hg : virtqueueGetHead availRing vq vq.lastAvailIdx.toNat with
      | none => rw [hg] at h; cases h; exact .inl ⟨rfl, rfl⟩
      | some head =>
        rw [hg] at h
        refine .inr ⟨head, rfl, ?_⟩
        simp only at h
        cases hs : chainStart mem descPa vq.num head with
        | none => rw [hs] at h; cases h; exact .inl ⟨rfl, rfl⟩
        | some st =>
          obtain ⟨pa, max, i⟩ := st
          rw [hs] at h
          obtain ⟨e, he, rfl⟩ := Option.map_eq_some_iff.1 h
          exact .inr ⟨pa, max, i, e, rfl, he, rfl⟩

/-- `virtqueue_pop` never runs out of fuel: the descriptor loop ends within
`max + 1` rounds, whatever the guest wrote. -/
theorem virtqueuePop_isSome : (virtqueuePop mem availRing descPa vq).isSome := by
  unfold virtqueuePop
  cases virtqueueNumHeads vq vq.lastAvailIdx.toNat with
  | none => rfl
  | some n =>
    cases n with
    | zero => rfl
    | succ k =>
      simp only
      cases virtqueueGetHead availRing vq vq.lastAvailIdx.toNat with
      | none => rfl
      | some head =>
        simp only
        cases chainStart mem descPa vq.num head with
        | none => rfl
        | some st =>
          obtain ⟨pa, max, i⟩ := st
          rw [Option.isSome_map]
          exact popLoop_isSome (max + 1) i _ (by omega)

/-- `in_num` and `out_num` stay within `VIRTQUEUE_MAX_SIZE` up to the end of
the call, `exit` included. -/
theorem virtqueuePop_bounded {r : PopResult} (h : virtqueuePop mem availRing descPa vq = some r) :
    r.walk.Bounded := by
  rcases virtqueuePop_cases h with ⟨-, rfl⟩ | ⟨-, rfl⟩ |
    ⟨k, -, ⟨-, rfl⟩ | ⟨head, -, ⟨-, rfl⟩ | ⟨pa, max, i, e, -, he, rfl⟩⟩⟩
  · exact ⟨Nat.zero_le _, Nat.zero_le _⟩
  · exact ⟨Nat.zero_le _, Nat.zero_le _⟩
  · exact ⟨Nat.zero_le _, Nat.zero_le _⟩
  · exact ⟨Nat.zero_le _, Nat.zero_le _⟩
  · rw [PopResult.walk_ofLoop]
    exact (popLoop_walk (max + 1) i _ ⟨Nat.zero_le _, Nat.zero_le _⟩ he).2

/-- Every descriptor `virtqueue_pop` reads is below the `max` of the table
it walks, `vring.num` for the queue's own table, except one: descriptor 0 of
an indirect table of length 0, whose flags are read before the counter is
compared with `max = 0`. -/
theorem virtqueuePop_reads {r : PopResult} (h : virtqueuePop mem availRing descPa vq = some r) :
    ∀ p ∈ r.walk.reads, (p.1 = descPa ∧ p.2 < vq.num) ∨
      ∃ head max, virtqueueGetHead availRing vq vq.lastAvailIdx.toNat = some head ∧
        chainStart mem descPa vq.num head = some (p.1, max, 0) ∧
        (p.2 < max ∨ max = 0 ∧ p.2 = 0) := by
  rcases virtqueuePop_cases h with ⟨-, rfl⟩ | ⟨-, rfl⟩ |
    ⟨k, -, ⟨-, rfl⟩ | ⟨head, hg, ⟨-, rfl⟩ | ⟨pa, max, i, e, hs, he, rfl⟩⟩⟩
  · intro p hp; cases hp
  · intro p hp; cases hp
  · intro p hp; cases hp
  · intro p hp
    rw [PopResult.walk, List.mem_singleton] at hp
    subst hp
    exact .inl ⟨rfl, virtqueueGetHead_lt hg⟩
  · have hhead := virtqueueGetHead_lt hg
    obtain ⟨⟨new, hreads, hnew⟩, -⟩ :=
      popLoop_walk (max + 1) i _ ⟨Nat.zero_le _, Nat.zero_le _⟩ he
    intro p hp
    rw [PopResult.walk_ofLoop, hreads, List.singleton_append, List.mem_cons,
      List.mem_cons] at hp
    -- the head, the first descriptor of the table, or one a `next` led to
    rcases hp with rfl | rfl | hp
    · exact .inl ⟨rfl, hhead⟩
    · rcases chainStart_cases hs with ⟨rfl, rfl, rfl⟩ | rfl
      · exact .inl ⟨rfl, hhead⟩
      · exact .inr ⟨head, max, hg, hs, by omega⟩
    · obtain ⟨hpa, hlt⟩ := hnew p hp
      rcases chainStart_cases hs with ⟨rfl, rfl, rfl⟩ | rfl
      · exact .inl ⟨hpa, hlt⟩
      · exact .inr ⟨head, max, hg, by rw [hpa]; exact hs, .inl hlt⟩

/-- A popped chain: its head is below `vring.num`, it has at most `max`
buffers for the table it was walked in, and the queue has moved
`last_avail_idx` by one and counts one more element in use. -/
theorem virtqueuePop_elem {head : ℕ} {w : Walk} {vq' : VirtQueue}
    (h : virtqueuePop mem availRing descPa vq = some (.elem head w vq')) :
    head < vq.num ∧
      vq' = { vq with lastAvailIdx := vq.lastAvailIdx + 1, inuse := vq.inuse + 1 } ∧
      ∃ pa max i, chainStart mem descPa vq.num head = some (pa, max, i) ∧ w.count ≤ max := by
  rcases virtqueuePop_cases h with ⟨-, h⟩ | ⟨-, h⟩ |
    ⟨k, -, ⟨-, h⟩ | ⟨head', hg, ⟨-, h⟩ | ⟨pa, max, i, e, hs, he, h⟩⟩⟩
  · cases h
  · cases h
  · cases h
  · cases h
  · cases e with
    | error v => cases h
    | ok v =>
      cases h
      exact ⟨virtqueueGetHead_lt hg, rfl, pa, max, i, hs, popLoop_ok (max + 1) i _ he⟩

/-- The index-level pop of `Virtio.Ring` is what the head count decides. -/
theorem virtioPop_eq : Virtio.virtqueuePop vq =
    match virtqueueNumHeads vq vq.lastAvailIdx.toNat with
    | none => none
    | some 0 => some vq
    | some (_ + 1) =>
      some { vq with lastAvailIdx := vq.lastAvailIdx + 1, inuse := vq.inuse + 1 } := by
  simp only [Virtio.virtqueuePop, virtqueueNumHeads, Nat.toUInt16_eq, UInt16.ofNat_toNat]
  split_ifs with hgt hzero
  · rfl
  · rw [hzero]
    rfl
  · cases hk : (vq.availIdx - vq.lastAvailIdx).toNat with
    | zero => exact absurd (UInt16.toNat_inj.mp hk) hzero
    | succ k => rfl

/-- The walk refines the index-level pop: where the head count makes that
one fail the walk `exit`s, and where the walk finds the ring empty or pops a
chain the queue ends as the index-level pop leaves it. -/
theorem virtqueuePop_refines {r : PopResult}
    (h : virtqueuePop mem availRing descPa vq = some r) :
    (Virtio.virtqueuePop vq = none → ∃ w, r = .exit w) ∧
    (r = .empty → Virtio.virtqueuePop vq = some vq) ∧
    (∀ head w vq', r = .elem head w vq' → Virtio.virtqueuePop vq = some vq') := by
  rw [virtioPop_eq]
  rcases virtqueuePop_cases h with ⟨hn, rfl⟩ | ⟨hn, rfl⟩ |
    ⟨k, hn, ⟨-, rfl⟩ | ⟨head, -, ⟨-, rfl⟩ | ⟨pa, max, i, e, -, -, rfl⟩⟩⟩ <;> rw [hn]
  -- the head count fails: the walk exits too
  · exact ⟨fun _ => ⟨_, rfl⟩, fun h => (by cases h), fun _ _ _ h => (by cases h)⟩
  -- no head: both leave the queue as it is
  · exact ⟨fun h => (by cases h), fun _ => rfl, fun _ _ _ h => (by cases h)⟩
  -- a head: the walk exits, or pops what the index-level pop pops
  · exact ⟨fun h => (by cases h), fun h => (by cases h), fun _ _ _ h => (by cases h)⟩
  · exact ⟨fun h => (by cases h), fun h => (by cases h), fun _ _ _ h => (by cases h)⟩
  · refine ⟨fun h => (by cases h), fun h => (by cases e <;> cases h), ?_⟩
    intro head' w vq' h
    cases e with
    | error v => cases h
    | ok v => cases h; rfl

theorem virtqueuePop_reads_empty_table {k head : ℕ}
    (hheads : virtqueueNumHeads vq vq.lastAvailIdx.toNat = some (k + 1))
    (hhead : virtqueueGetHead availRing vq vq.lastAvailIdx.toNat = some head)
    (hind : (descAt mem descPa head).flags &&& VRING_DESC_F_INDIRECT ≠ 0)
    (hlen : (descAt mem descPa head).len = 0) :
    chainStart mem descPa vq.num head = some ((descAt mem descPa head).addr.toNat, 0, 0) ∧
      ∃ w, virtqueuePop mem availRing descPa vq = some (.exit w) ∧
        ((descAt mem descPa head).addr.toNat, 0) ∈ w.reads := by
  set pa := (descAt mem descPa head).addr.toNat
  have hs : chainStart mem descPa vq.num head = some (pa, 0, 0) := by
    simp [chainStart, hind, hlen, pa]
  refine ⟨hs, ?_⟩
  -- with `max = 0` the first round reads descriptor 0 and then exits
  cases hc : popCollect mem pa 0 0 ⟨[(descPa, head)], [], []⟩ with
  | ok v =>
    have hok := popCollect_ok hc
    simp only [Walk.count, List.length_nil] at hok
    omega
  | error v =>
    have hreads : v.reads = [(descPa, head), (pa, 0)] := by
      simpa [hc, Walk.ofExcept] using
        (@popCollect_walk mem pa 0 0 ⟨[(descPa, head)], [], []⟩
          ⟨Nat.zero_le _, Nat.zero_le _⟩).1
    refine ⟨v, ?_, by simp [hreads]⟩
    unfold virtqueuePop
    rw [hheads]
    simp only
    rw [hhead]
    simp only
    rw [hs]
    simp only [popLoop, hc]
    rfl

/-- The guest makes head 0 available on a queue of one descriptor, and that
descriptor names an indirect table of length 0 at 0x1000. -/
theorem virtqueuePop_reads_empty_table_at :
    let vq : VirtQueue := ⟨1, 1, 0, 0, 0, 0, 0, 0, false⟩
    let mem : ℕ → VRingDesc := fun _ => ⟨0x1000, 0, VRING_DESC_F_INDIRECT, 0⟩
    chainStart mem 0 vq.num 0 = some (0x1000, 0, 0) ∧
      ∃ w, virtqueuePop mem (fun _ => 0) 0 vq = some (.exit w) ∧ (0x1000, 0) ∈ w.reads :=
  virtqueuePop_reads_empty_table (k := 0) (by decide) (by decide) (by decide) rfl

end Pop

section Avail

variable {mem : ℕ → VRingDesc} {availRing : ℕ → UInt16} {descPa : ℕ} {vq : VirtQueue}
  {inBytes outBytes : ℤ}

/-- One head fewer from the next avail index. -/
theorem virtqueueNumHeads_succ {idx k : ℕ} (h : virtqueueNumHeads vq idx = some (k + 1)) :
    virtqueueNumHeads vq (idx + 1) = some k := by
  simp only [virtqueueNumHeads] at h ⊢
  split_ifs at h with hgt
  have hk : (vq.availIdx - idx.toUInt16).toNat = k + 1 := Option.some.inj h
  have hnext : (idx + 1).toUInt16 = idx.toUInt16 + 1 := by
    simp only [Nat.toUInt16_eq, UInt16.ofNat_add, UInt16.ofNat_one]
  have hsub : (vq.availIdx - (idx + 1).toUInt16).toNat = k := by
    rw [hnext, ← sub_sub, UInt16.toNat_sub_of_le]
    · simp [hk]
    · rw [UInt16.le_iff_toNat_le, hk]
      simp
  rw [hsub, if_neg (by omega)]

/-- The walk of one chain ends within `max + 1` rounds: the counter is
checked first in each round. -/
theorem availLoop_isSome {pa max : ℕ} (fuel : ℕ) :
    ∀ i numBufs inTotal outTotal, max - numBufs < fuel →
      (availLoop mem pa max inBytes outBytes fuel i numBufs inTotal outTotal).isSome := by
  induction fuel with
  | zero => intro i numBufs inTotal outTotal hf; omega
  | succ fuel ih =>
    intro i numBufs inTotal outTotal hf
    simp only [availLoop]
    split_ifs with hloop
    · rfl
    · obtain ⟨found, inTotal', outTotal'⟩ :=
        availCount (descAt mem pa i) inBytes outBytes inTotal outTotal
      cases found with
      | true => rfl
      | false =>
        simp only
        cases virtqueueNextDesc mem pa i max with
        | none => rfl
        | some next =>
          simp only
          split_ifs
          · rfl
          · exact ih next (numBufs + 1) inTotal' outTotal' (by omega)

/-- The loop over the heads ends: each round takes one head, and there are
at most as many as the fuel. -/
theorem availHeads_isSome (fuel : ℕ) :
    ∀ idx totalBufs inTotal outTotal, 0 < fuel →
      (∀ k, virtqueueNumHeads vq idx = some k → k < fuel) →
      (availHeads mem availRing descPa vq inBytes outBytes fuel idx totalBufs inTotal
        outTotal).isSome := by
  induction fuel with
  | zero => intro idx totalBufs inTotal outTotal hpos; omega
  | succ fuel ih =>
    intro idx totalBufs inTotal outTotal _ hheads
    simp only [availHeads]
    cases hn : virtqueueNumHeads vq idx with
    | none => rfl
    | some n =>
      cases n with
      | zero => rfl
      | succ k =>
        have hk := hheads (k + 1) hn
        simp only
        cases virtqueueGetHead availRing vq idx with
        | none => rfl
        | some head =>
          simp only
          cases availStart mem descPa vq.num head totalBufs with
          | none => rfl
          | some st =>
            obtain ⟨pa, max, i, numBufs, indirect⟩ := st
            simp only
            have hloop := @availLoop_isSome mem inBytes outBytes pa max (max + 1) i numBufs
              inTotal outTotal (by omega)
            cases hl : availLoop mem pa max inBytes outBytes (max + 1) i numBufs inTotal
                outTotal with
            | none => rw [hl] at hloop; cases hloop
            | some e =>
              cases e with
              | exit => rfl
              | found => rfl
              | done numBufs' inTotal' outTotal' =>
                simp only
                refine ih (idx + 1) _ inTotal' outTotal' (by omega) ?_
                intro k' hk'
                rw [virtqueueNumHeads_succ hn] at hk'
                cases hk'
                omega

/-- `virtqueue_avail_bytes` ends, whatever the guest wrote. -/
theorem virtqueueAvailBytes_isSome :
    (virtqueueAvailBytes mem availRing descPa vq inBytes outBytes).isSome := by
  refine availHeads_isSome (vq.num + 1) _ 0 0 0 (by omega) ?_
  intro k hk
  simp only [virtqueueNumHeads] at hk
  split_ifs at hk with hgt
  cases hk
  omega

/-- A single write buffer of 2^31 bytes makes the `int` `in_total`
negative, so a guest that offers it is told there is no room for one byte. -/
theorem availBytes_wraps {head : ℕ} {addr : UInt64} {next : UInt16}
    (hheads : virtqueueNumHeads vq vq.lastAvailIdx.toNat = some 1)
    (hhead : virtqueueGetHead availRing vq vq.lastAvailIdx.toNat = some head)
    (hdesc : descAt mem descPa head = ⟨addr, 0x80000000, VRING_DESC_F_WRITE, next⟩) :
    virtqueueAvailBytes mem availRing descPa vq 1 outBytes = some (some 0) := by
  obtain ⟨n, hn⟩ : ∃ n, vq.num = n + 1 :=
    Nat.exists_eq_add_one.2 (Nat.zero_lt_of_lt (virtqueueGetHead_lt hhead))
  have hstart : availStart mem descPa vq.num head 0 = some (descPa, vq.num, head, 0, false) := by
    have hdirect : VRING_DESC_F_WRITE &&& VRING_DESC_F_INDIRECT = 0 := by decide
    simp [availStart, hdesc, hdirect]
  -- 2^31 added to 0 as an `int` is -2^31, below the one byte asked for
  have hcount : availCount (descAt mem descPa head) 1 outBytes 0 0 = (false, -2 ^ 31, 0) := by
    have hwrite : VRING_DESC_F_WRITE &&& VRING_DESC_F_WRITE ≠ 0 := by decide
    have hwrap : addLen 0 0x80000000 = -2 ^ 31 := by decide
    rw [hdesc, availCount, if_pos hwrite, if_pos Int.one_pos]
    simp only [hwrap, Prod.mk.injEq, and_true]
    decide
  have hend : virtqueueNextDesc mem descPa head vq.num = some vq.num := by
    have hlast : VRING_DESC_F_WRITE &&& VRING_DESC_F_NEXT = 0 := by decide
    simp [virtqueueNextDesc, hdesc, hlast]
  have hloop : availLoop mem descPa vq.num 1 outBytes (vq.num + 1) head 0 0 0 =
      some (.done 1 (-2 ^ 31) 0) := by
    rw [availLoop, if_neg (by omega), hcount]
    simp only
    rw [hend]
    simp
  unfold virtqueueAvailBytes
  rw [availHeads, hheads]
  simp only
  rw [hhead]
  simp only
  rw [hstart]
  simp only
  rw [hloop]
  simp only [Bool.false_eq_true, if_false]
  rw [hn, availHeads, virtqueueNumHeads_succ hheads]

example : virtqueueAvailBytes (fun _ => ⟨0x1000, 0x80000000, VRING_DESC_F_WRITE, 0⟩)
    (fun _ => 0) 0 ⟨1, 1, 0, 0, 0, 0, 0, 0, false⟩ 1 0 = some (some 0) := by
  decide

end Avail

end QemuKvm.Virtio.Chain
