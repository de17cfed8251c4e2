import QemuKvm.Lib.Scatter

/-!
# Scatter/gather vectors (iov.c, qemu_iovec_concat)

A `struct iovec` array is a list of `(iov_base, iov_len)` buffers in one
memory; what the helpers of iov.c act on is C, the logical concatenation of
the buffers. Position `i` of C lives at address `(iovAddrs iov)[i]`, and
`iovContents mem iov` reads C out of memory `mem`.

`iov_from_buf`, `iov_to_buf` and `iov_memset` walk the vector with one
skip-then-copy loop and differ only in the copy they make; the loop is
`iovLoop`, parametrised by that copy, and `iovWalk` adds its closing
`assert(offset == 0)`. `iovLoop_spec` says once what the loop does for every
copy that is a store through the addresses it is given: it makes exactly
the copies for C[offset, offset + n), in order, with
`n = min(bytes, iov_size - offset)`. The three helpers' specifications
(`iovFromBuf_spec`, `iovToBuf_spec`, `iovMemset_spec`) are this lemma at
their own copy. `qemu_iovec_concat` has a loop of its own (its condition
lacks `offset ||`), with its own specification.

`iov_send_recv` trims the first and last elements of the caller's array in
place, hands the trimmed stretch to the transport and undoes the trimming.
The transport (`do_send_recv`) is a parameter: `iovSendRecv` gives back
what it returns on the stretch it was handed.

Sizes and offsets are `ℕ`: the loops never subtract past zero and never
add past `bytes`, and the buffers, being disjoint C objects none of which
holds the null address, total less than `2^64` bytes, so `iov_size` does
not wrap either.
-/

namespace QemuKvm.Iov

/-- `struct iovec`. -/
structure Iovec where
  iovBase : ℕ
  iovLen : ℕ
deriving DecidableEq, Repr

/-- The addresses of the element's buffer. -/
def Iovec.addrs (v : Iovec) : List ℕ := List.range' v.iovBase v.iovLen

@[simp] theorem Iovec.length_addrs (v : Iovec) : v.addrs.length = v.iovLen :=
  List.length_range'

/-- The addresses the vector covers, buffer after buffer. -/
def iovAddrs (iov : List Iovec) : List ℕ := iov.flatMap Iovec.addrs

/-- C, the logical concatenation of the vector's buffers, read from `mem`. -/
def iovContents {α : Type*} (mem : ℕ → α) (iov : List Iovec) : List α :=
  (iovAddrs iov).map mem

/-- `iov_size`: the lengths added up. -/
def iovSize : List Iovec → ℕ
  | [] => 0
  | v :: iov => v.iovLen + iovSize iov

/-- The buffers of the vector are pairwise disjoint. -/
def IovDisjoint (iov : List Iovec) : Prop :=
  iov.Pairwise fun v w => v.addrs.Disjoint w.addrs

@[simp] theorem iovAddrs_nil : iovAddrs [] = [] := rfl

@[simp] theorem iovAddrs_cons (v : Iovec) (iov : List Iovec) :
    iovAddrs (v :: iov) = v.addrs ++ iovAddrs iov := rfl

@[simp] theorem iovAddrs_append (l l' : List Iovec) :
    iovAddrs (l ++ l') = iovAddrs l ++ iovAddrs l' := List.flatMap_append

@[simp] theorem iovSize_nil : iovSize [] = 0 := rfl

@[simp] theorem iovSize_cons (v : Iovec) (iov : List Iovec) :
    iovSize (v :: iov) = v.iovLen + iovSize iov := rfl

@[simp] theorem iovSize_append (l l' : List Iovec) :
    iovSize (l ++ l') = iovSize l + iovSize l' := by
  induction l with
  | nil => simp
  | cons v l ih => simp [ih, Nat.add_assoc]

@[simp] theorem length_iovAddrs (iov : List Iovec) : (iovAddrs iov).length = iovSize iov := by
  induction iov with
  | nil => rfl
  | cons v iov ih => simp [ih]

theorem iovDisjoint_iff_nodup (iov : List Iovec) : IovDisjoint iov ↔ (iovAddrs iov).Nodup := by
  have helem : ∀ v ∈ iov, v.addrs.Nodup := fun v _ => List.nodup_range'
  rw [iovAddrs, List.nodup_flatMap, IovDisjoint]
  exact ⟨fun h => ⟨helem, h⟩, fun h => h.2⟩

/-- Past a whole first element, C continues with the rest of the vector. -/
theorem drop_iovAddrs_cons_of_le {v : Iovec} {offset : ℕ} (iov : List Iovec)
    (h : v.iovLen ≤ offset) :
    (iovAddrs (v :: iov)).drop offset = (iovAddrs iov).drop (offset - v.iovLen) := by
  rw [iovAddrs_cons, List.drop_append, List.drop_of_length_le (by simpa using h),
    Iovec.length_addrs, List.nil_append]

/-- Inside the first element, C continues with the rest of that element. -/
theorem drop_iovAddrs_cons_of_lt {v : Iovec} {offset : ℕ} (iov : List Iovec)
    (h : offset < v.iovLen) :
    (iovAddrs (v :: iov)).drop offset =
      List.range' (v.iovBase + offset) (v.iovLen - offset) ++ iovAddrs iov := by
  rw [iovAddrs_cons, List.drop_append, Iovec.length_addrs, Nat.sub_eq_zero_of_le h.le,
    List.drop_zero, Iovec.addrs, List.drop_range', Nat.mul_one]

/-- The slice of C that starts inside the first element: the rest of that
element, up to `r` bytes, then what is left of `r` from the next one on. -/
theorem slice_cons_of_lt {v : Iovec} {offset : ℕ} (iov : List Iovec) (r : ℕ)
    (h : offset < v.iovLen) :
    ((iovAddrs (v :: iov)).drop offset).take (min r (iovSize (v :: iov) - offset)) =
      List.range' (v.iovBase + offset) (min (v.iovLen - offset) r) ++
        (iovAddrs iov).take (min (r - min (v.iovLen - offset) r) (iovSize iov)) := by
  rw [drop_iovAddrs_cons_of_lt iov h, List.take_append, take_range', List.length_range',
    iovSize_cons]
  congr 2 <;> omega

/-- C from a position inside the second part of a cut vector. -/
theorem drop_iovAddrs_append (pre l : List Iovec) (o : ℕ) :
    (iovAddrs (pre ++ l)).drop (iovSize pre + o) = (iovAddrs l).drop o := by
  rw [iovAddrs_append, List.drop_append, List.drop_of_length_le (by simp),
    length_iovAddrs, Nat.add_sub_cancel_left, List.nil_append]

/-- C up to a position inside the second part of a cut vector. -/
theorem take_iovAddrs_append (pre l : List Iovec) (b : ℕ) :
    (iovAddrs (pre ++ l)).take (iovSize pre + b) = iovAddrs pre ++ (iovAddrs l).take b := by
  rw [iovAddrs_append, List.take_append, List.take_of_length_le (by simp),
    length_iovAddrs, Nat.add_sub_cancel_left]

/-! ## The loop of iov_from_buf, iov_to_buf and iov_memset -/

section Walk

variable {σ : Type*}

/-- `for (i = 0, done = 0; (offset || done < bytes) && i < iov_cnt; i++)`:
an element that starts at or past `offset` bytes gets `len` bytes copied at
`iov_base + offset` from buffer position `done`, where
`len = MIN(iov_len - offset, bytes - done)`, after which `offset` is 0; an
element wholly before `offset` is skipped and taken off `offset`. `copy` is
the helper's `memcpy` or `memset`. Gives back the state, `done` and
`offset`. -/
def iovLoop (copy : σ → ℕ → ℕ → ℕ → σ) (bytes : ℕ) :
    List Iovec → ℕ → ℕ → σ → σ × ℕ × ℕ
  | [], offset, done, s => (s, done, offset)
  | v :: iov, offset, done, s =>
    if offset ≠ 0 ∨ done < bytes then
      if offset < v.iovLen then
        let len := min (v.iovLen - offset) (bytes - done)
        iovLoop copy bytes iov 0 (done + len) (copy s (v.iovBase + offset) done len)
      else iovLoop copy bytes iov (offset - v.iovLen) done s
    else (s, done, offset)

/-- The loop followed by `assert(offset == 0)`; gives the state and `done`,
the helper's return value. -/
def iovWalk (copy : σ → ℕ → ℕ → ℕ → σ) (bytes : ℕ) (iov : List Iovec) (offset : ℕ)
    (s : σ) : Option (σ × ℕ) :=
  match iovLoop copy bytes iov offset 0 s with
  | (s, done, offset) => if offset = 0 then some (s, done) else none

variable (copy : σ → ℕ → ℕ → ℕ → σ) (act : σ → List ℕ → ℕ → σ)
  (hcopy : ∀ s a d len, copy s a d len = act s (List.range' a len) d)
  (happend : ∀ s as bs d, act (act s as d) bs (d + as.length) = act s (as ++ bs) d)
  (hnil : ∀ s d, act s [] d = s)

include hcopy happend hnil

/-- What the loop does, for a copy that acts through the addresses it is
given (`act s as d` copies between the addresses `as` and the buffer from
position `d`) and whose acts join: from any `offset` inside C and any
`done ≤ bytes`, it acts once on C's addresses
`[offset, offset + n)`, `n = min(bytes - done, iov_size - offset)`, and
stops with `done + n` and `offset = 0`. -/
theorem iovLoop_spec (bytes : ℕ) (iov : List Iovec) (offset done : ℕ) (s : σ)
    (hoff : offset ≤ iovSize iov) (hdone : done ≤ bytes) :
    iovLoop copy bytes iov offset done s =
      (act s (((iovAddrs iov).drop offset).take (min (bytes - done) (iovSize iov - offset)))
          done,
        done + min (bytes - done) (iovSize iov - offset), 0) := by
  induction iov generalizing offset done s with
  | nil =>
    obtain rfl : offset = 0 := by simpa using hoff
    simp [iovLoop, hnil]
  | cons v iov ih =>
    rw [iovSize_cons] at hoff
    by_cases hgo : offset ≠ 0 ∨ done < bytes
    · by_cases hlt : offset < v.iovLen
      · -- copy the rest of this element, then go on from the next one's start
        have hjoin := happend s (List.range' (v.iovBase + offset)
          (min (v.iovLen - offset) (bytes - done))) ((iovAddrs iov).take
          (min (bytes - (done + min (v.iovLen - offset) (bytes - done))) (iovSize iov))) done
        rw [List.length_range'] at hjoin
        rw [iovLoop, if_pos hgo, if_pos hlt, ih 0 _ _ (Nat.zero_le _) (by omega), hcopy,
          List.drop_zero, Nat.sub_zero, hjoin, slice_cons_of_lt iov _ hlt]
        simp only [iovSize_cons, Prod.mk.injEq, and_true]
        refine ⟨by congr 3; omega, by omega⟩
      · -- skip the whole element
        rw [iovLoop, if_pos hgo, if_neg hlt, ih _ _ _ (by omega) hdone,
          drop_iovAddrs_cons_of_le iov (by omega), iovSize_cons]
        have hleft : iovSize iov - (offset - v.iovLen) = v.iovLen + iovSize iov - offset := by
          omega
        rw [hleft]
    · -- `offset` is 0 and `done` has reached `bytes`
      obtain ⟨hoff0, hdone'⟩ : offset = 0 ∧ bytes ≤ done := by omega
      rw [iovLoop, if_neg hgo, hoff0, Nat.sub_eq_zero_of_le hdone']
      simp [hnil]

theorem iovWalk_spec (bytes : ℕ) (iov : List Iovec) (offset : ℕ) (s : σ)
    (hoff : offset ≤ iovSize iov) :
    iovWalk copy bytes iov offset s =
      some (act s (((iovAddrs iov).drop offset).take (min bytes (iovSize iov - offset))) 0,
        min bytes (iovSize iov - offset)) := by
  rw [iovWalk, iovLoop_spec copy act hcopy happend hnil bytes iov offset 0 s hoff
    (Nat.zero_le _)]
  simp

end Walk

/-! ## C's slices -/

section Slice

variable {α : Type*}

/-- C cut at `offset` and at `offset + n`. -/
theorem iovAddrs_slice_split (iov : List Iovec) (offset n : ℕ) :
    iovAddrs iov = (iovAddrs iov).take offset ++ ((iovAddrs iov).drop offset).take n ++
      (iovAddrs iov).drop (offset + n) := by
  rw [List.append_assoc, ← List.drop_drop, List.take_append_drop, List.take_append_drop]

theorem length_iovSlice (iov : List Iovec) {offset n : ℕ} (hn : n ≤ iovSize iov - offset) :
    (((iovAddrs iov).drop offset).take n).length = n := by
  simp only [List.length_take, List.length_drop, length_iovAddrs]
  omega

/-- A store of `vs` to C's addresses `[offset, offset + n)`, in a vector of
disjoint buffers, changes exactly that stretch of C. -/
theorem iovContents_storeList_slice (mem : ℕ → α) {iov : List Iovec} (hdisj : IovDisjoint iov)
    {offset n : ℕ} (hn : n ≤ iovSize iov - offset) {vs : List α} (hvs : vs.length = n) :
    iovContents (storeList mem (((iovAddrs iov).drop offset).take n) vs) iov =
      (iovContents mem iov).take offset ++ vs ++ (iovContents mem iov).drop (offset + n) := by
  have hsplit := iovAddrs_slice_split iov offset n
  have hnd := (iovDisjoint_iff_nodup iov).1 hdisj
  rw [hsplit] at hnd
  have hlen : (((iovAddrs iov).drop offset).take n).length = vs.length := by
    rw [length_iovSlice iov hn, hvs]
  have hmap := map_storeList_infix mem hnd hlen
  rw [← hsplit] at hmap
  rw [iovContents, hmap, iovContents, List.map_take, List.map_drop]

/-- Such a store leaves every address outside the vector alone. -/
theorem storeList_slice_of_not_mem (mem : ℕ → α) {iov : List Iovec} {offset n a : ℕ}
    (vs : List α) (ha : a ∉ iovAddrs iov) :
    storeList mem (((iovAddrs iov).drop offset).take n) vs a = mem a :=
  storeList_of_not_mem mem fun h => ha (List.mem_of_mem_drop (List.mem_of_mem_take h))

end Slice

/-! ## iov_from_buf, iov_to_buf and iov_memset -/

section Helpers

variable {α : Type*}

/-- `iov_from_buf`: copy `bytes` bytes of `buf` into C from position
`offset`; gives the memory and the number of bytes copied, or `none` when
the closing assertion fails. -/
def iovFromBuf (mem : ℕ → α) (iov : List Iovec) (offset : ℕ) (buf : ℕ → α) (bytes : ℕ) :
    Option ((ℕ → α) × ℕ) :=
  iovWalk (fun m a done len => memcpy m a buf done len) bytes iov offset mem

/-- `iov_to_buf`: copy C from position `offset` into `buf`; gives the buffer
and the number of bytes copied. -/
def iovToBuf (mem : ℕ → α) (iov : List Iovec) (offset : ℕ) (buf : ℕ → α) (bytes : ℕ) :
    Option ((ℕ → α) × ℕ) :=
  iovWalk (fun b a done len => memcpy b done mem a len) bytes iov offset buf

/-- `iov_memset`: `memset` stores `fillc` converted to `unsigned char`. -/
def iovMemset (mem : ℕ → UInt8) (iov : List Iovec) (offset : ℕ) (fillc : ℤ) (bytes : ℕ) :
    Option ((ℕ → UInt8) × ℕ) :=
  iovWalk (fun m a _ len => memset m a (UInt8.ofInt fillc) len) bytes iov offset mem

/-- `iov_from_buf`'s copies, as stores through C's addresses: the addresses
`as` get `buf` from position `d` on. -/
theorem iovFromBuf_eq (mem : ℕ → α) (iov : List Iovec) {offset : ℕ} (buf : ℕ → α)
    (bytes : ℕ) (hoff : offset ≤ iovSize iov) :
    iovFromBuf mem iov offset buf bytes =
      some (storeList mem (((iovAddrs iov).drop offset).take (min bytes (iovSize iov - offset)))
          ((List.range' 0 (min bytes (iovSize iov - offset))).map buf),
        min bytes (iovSize iov - offset)) := by
  rw [iovFromBuf, iovWalk_spec _ (fun m as d => storeList m as ((List.range' d as.length).map buf))
    (fun m a d len => by rw [memcpy, List.length_range'])
    (fun m as bs d => by
      rw [List.length_append, ← range'_append_one, List.map_append,
        storeList_append _ (by simp)])
    (fun _ _ => rfl) bytes iov offset mem hoff, length_iovSlice iov (Nat.min_le_right _ _)]

/-- `iov_to_buf`'s copies: buffer positions from `d` on get the cells at the
addresses `as`. -/
theorem iovToBuf_eq (mem : ℕ → α) (iov : List Iovec) {offset : ℕ} (buf : ℕ → α)
    (bytes : ℕ) (hoff : offset ≤ iovSize iov) :
    iovToBuf mem iov offset buf bytes =
      some (storeList buf (List.range' 0 (min bytes (iovSize iov - offset)))
          ((((iovAddrs iov).drop offset).take (min bytes (iovSize iov - offset))).map mem),
        min bytes (iovSize iov - offset)) := by
  rw [iovToBuf, iovWalk_spec _ (fun b as d => storeList b (List.range' d as.length) (as.map mem))
    (fun b a d len => by rw [memcpy, List.length_range'])
    (fun b as bs d => by
      rw [List.length_append, ← range'_append_one, List.map_append,
        storeList_append _ (by simp)])
    (fun _ _ => rfl) bytes iov offset buf hoff, length_iovSlice iov (Nat.min_le_right _ _)]

theorem iovMemset_eq (mem : ℕ → UInt8) (iov : List Iovec) {offset : ℕ} (fillc : ℤ)
    (bytes : ℕ) (hoff : offset ≤ iovSize iov) :
    iovMemset mem iov offset fillc bytes =
      some (storeList mem (((iovAddrs iov).drop offset).take (min bytes (iovSize iov - offset)))
          (List.replicate (min bytes (iovSize iov - offset)) (UInt8.ofInt fillc)),
        min bytes (iovSize iov - offset)) := by
  rw [iovMemset, iovWalk_spec _ (fun m as _ => storeList m as (List.replicate as.length
      (UInt8.ofInt fillc)))
    (fun m a d len => by rw [memset, List.length_range'])
    (fun m as bs d => by
      rw [List.length_append, ← List.replicate_append_replicate,
        storeList_append _ (by simp)])
    (fun _ _ => rfl) bytes iov offset mem hoff, length_iovSlice iov (Nat.min_le_right _ _)]

/-- `iov_from_buf` on disjoint buffers: C[offset, offset + n) becomes
buf[0, n), with `n = min(bytes, iov_size - offset)`, and nothing else in
memory changes. -/
theorem iovFromBuf_spec (mem : ℕ → α) {iov : List Iovec} (hdisj : IovDisjoint iov)
    {offset : ℕ} (buf : ℕ → α) (bytes : ℕ) (hoff : offset ≤ iovSize iov) :
    ∃ mem', iovFromBuf mem iov offset buf bytes = some (mem', min bytes (iovSize iov - offset)) ∧
      iovContents mem' iov = (iovContents mem iov).take offset ++
        (List.range (min bytes (iovSize iov - offset))).map buf ++
        (iovContents mem iov).drop (offset + min bytes (iovSize iov - offset)) ∧
      ∀ a ∉ iovAddrs iov, mem' a = mem a := by
  refine ⟨_, iovFromBuf_eq mem iov buf bytes hoff, ?_, fun a ha => ?_⟩
  · rw [iovContents_storeList_slice mem hdisj (Nat.min_le_right _ _) (by simp), List.range_eq_range']
  · exact storeList_slice_of_not_mem mem _ ha

/-- `iov_to_buf`: buf[0, n) becomes C[offset, offset + n) and the rest of
`buf` is left alone. -/
theorem iovToBuf_spec (mem : ℕ → α) (iov : List Iovec) {offset : ℕ} (buf : ℕ → α)
    (bytes : ℕ) (hoff : offset ≤ iovSize iov) :
    ∃ buf', iovToBuf mem iov offset buf bytes = some (buf', min bytes (iovSize iov - offset)) ∧
      (List.range (min bytes (iovSize iov - offset))).map buf' =
        ((iovContents mem iov).drop offset).take (min bytes (iovSize iov - offset)) ∧
      ∀ j, min bytes (iovSize iov - offset) ≤ j → buf' j = buf j := by
  refine ⟨_, iovToBuf_eq mem iov buf bytes hoff, ?_, fun j hj => ?_⟩
  · rw [List.range_eq_range', map_storeList _ List.nodup_range'
      (by rw [List.length_range', List.length_map, length_iovSlice iov (Nat.min_le_right _ _)]),
      iovContents, List.map_take, List.map_drop]
  · exact storeList_of_not_mem buf (by simp [List.mem_range']; omega)

/-- `iov_memset` on disjoint buffers: C[offset, offset + n) becomes `fillc`
and nothing else in memory changes. -/
theorem iovMemset_spec (mem : ℕ → UInt8) {iov : List Iovec} (hdisj : IovDisjoint iov)
    {offset : ℕ} (fillc : ℤ) (bytes : ℕ) (hoff : offset ≤ iovSize iov) :
    ∃ mem', iovMemset mem iov offset fillc bytes = some (mem', min bytes (iovSize iov - offset)) ∧
      iovContents mem' iov = (iovContents mem iov).take offset ++
        List.replicate (min bytes (iovSize iov - offset)) (UInt8.ofInt fillc) ++
        (iovContents mem iov).drop (offset + min bytes (iovSize iov - offset)) ∧
      ∀ a ∉ iovAddrs iov, mem' a = mem a := by
  refine ⟨_, iovMemset_eq mem iov fillc bytes hoff, ?_, fun a ha => ?_⟩
  · rw [iovContents_storeList_slice mem hdisj (Nat.min_le_right _ _) (by simp)]
  · exact storeList_slice_of_not_mem mem _ ha

end Helpers

/-! ## qemu_iovec_concat -/

/-- `QEMUIOVector`: `niov` is the length of `iov`, `nalloc` is `-1` for a
vector over an external array, and `size` is the total of the lengths,
as `qemu_iovec_init_external` and `qemu_iovec_add` keep it. -/
structure QEMUIOVector where
  iov : List Iovec
  nalloc : ℤ
  size : ℕ
  size_eq : size = iovSize iov

theorem QEMUIOVector.size_add_eq (qiov : QEMUIOVector) (base len : ℕ) :
    qiov.size + len = iovSize (qiov.iov ++ [⟨base, len⟩]) := by
  simp [qiov.size_eq]

/-- `qemu_iovec_add`: asserts a vector that owns its array, which grows to
`2 * nalloc + 1` slots when full. -/
def qemuIovecAdd (qiov : QEMUIOVector) (base len : ℕ) : Option QEMUIOVector :=
  if qiov.nalloc = -1 then none
  else some
    { iov := qiov.iov ++ [⟨base, len⟩]
      nalloc := if (qiov.iov.length : ℤ) = qiov.nalloc then 2 * qiov.nalloc + 1 else qiov.nalloc
      size := qiov.size + len
      size_eq := qiov.size_add_eq base len }

/-- The loop of `qemu_iovec_concat`,
`for (i = 0, done = 0; done < sbytes && i < src->niov; i++)`: the same
skip-then-add body as `iovLoop`, under a condition without `soffset ||`. -/
def qemuIovecConcatLoop (sbytes : ℕ) : List Iovec → ℕ → ℕ → QEMUIOVector → Option QEMUIOVector
  | [], _, _, dst => some dst
  | v :: siov, soffset, done, dst =>
    if done < sbytes then
      if soffset < v.iovLen then
        let len := min (v.iovLen - soffset) (sbytes - done)
        (qemuIovecAdd dst (v.iovBase + soffset) len).bind
          (qemuIovecConcatLoop sbytes siov 0 (done + len))
      else qemuIovecConcatLoop sbytes siov (soffset - v.iovLen) done dst
    else some dst

/-- `qemu_iovec_concat`, for two different vectors `dst` and `src`. -/
def qemuIovecConcat (dst src : QEMUIOVector) (soffset sbytes : ℕ) : Option QEMUIOVector :=
  if dst.nalloc = -1 then none
  else if src.size < soffset then none
  else qemuIovecConcatLoop sbytes src.iov soffset 0 dst

theorem qemuIovecAdd_spec (qiov : QEMUIOVector) (base len : ℕ) (h : qiov.nalloc ≠ -1) :
    ∃ q, qemuIovecAdd qiov base len = some q ∧ q.iov = qiov.iov ++ [⟨base, len⟩] ∧
      q.nalloc ≠ -1 := by
  refine ⟨_, if_neg h, rfl, ?_⟩
  dsimp only
  split <;> omega

/-- The concat loop from any `soffset` inside `src` and `done ≤ sbytes`
appends elements that cover exactly `src`'s addresses
`[soffset, soffset + n)`, `n = min(sbytes - done, size - soffset)`. -/
theorem qemuIovecConcatLoop_spec (sbytes : ℕ) (siov : List Iovec) (soffset done : ℕ)
    (dst : QEMUIOVector) (hdst : dst.nalloc ≠ -1) (hoff : soffset ≤ iovSize siov)
    (hdone : done ≤ sbytes) :
    ∃ dst' added, qemuIovecConcatLoop sbytes siov soffset done dst = some dst' ∧
      dst'.iov = dst.iov ++ added ∧ dst'.nalloc ≠ -1 ∧
      iovAddrs added =
        ((iovAddrs siov).drop soffset).take (min (sbytes - done) (iovSize siov - soffset)) := by
  induction siov generalizing soffset done dst with
  | nil => exact ⟨dst, [], rfl, by simp, hdst, by simp⟩
  | cons v siov ih =>
    rw [iovSize_cons] at hoff
    by_cases hgo : done < sbytes
    · by_cases hlt : soffset < v.iovLen
      · -- add the rest of this element, then go on from the next one's start
        obtain ⟨q, hq, hqiov, hqn⟩ := qemuIovecAdd_spec dst (v.iovBase + soffset)
          (min (v.iovLen - soffset) (sbytes - done)) hdst
        obtain ⟨dst', added, hrun, hiov, hn, haddrs⟩ :=
          ih 0 (done + min (v.iovLen - soffset) (sbytes - done)) q hqn (Nat.zero_le _) (by omega)
        refine ⟨dst', ⟨v.iovBase + soffset, min (v.iovLen - soffset) (sbytes - done)⟩ :: added,
          ?_, by simp [hiov, hqiov], hn, ?_⟩
        · rw [qemuIovecConcatLoop, if_pos hgo, if_pos hlt]
          simpa only [hq, Option.bind_some] using hrun
        · rw [iovAddrs_cons, haddrs, slice_cons_of_lt siov _ hlt, List.drop_zero, Nat.sub_zero]
          congr 3
          omega
      · -- skip the whole element
        obtain ⟨dst', added, hrun, hiov, hn, haddrs⟩ :=
          ih (soffset - v.iovLen) done dst hdst (by omega) hdone
        refine ⟨dst', added, ?_, hiov, hn, ?_⟩
        · rw [qemuIovecConcatLoop, if_pos hgo, if_neg hlt]
          exact hrun
        · rw [haddrs, drop_iovAddrs_cons_of_le siov (by omega), iovSize_cons]
          congr 2
          omega
    · -- `done` has reached `sbytes`: nothing more is added
      refine ⟨dst, [], ?_, by simp, hdst, ?_⟩
      · rw [qemuIovecConcatLoop, if_neg hgo]
      · rw [Nat.sub_eq_zero_of_le (by omega), Nat.zero_min, List.take_zero, iovAddrs_nil]

/-- `qemu_iovec_concat` into a vector that owns its array, from any
`soffset ≤ src->size`: the appended elements' concatenation is
`src`'s C[soffset, soffset + n), `n = min(sbytes, size - soffset)`, and
`dst->size` grows by `n`. -/
theorem qemuIovecConcat_spec (dst src : QEMUIOVector) (soffset sbytes : ℕ)
    (hdst : dst.nalloc ≠ -1) (hoff : soffset ≤ src.size) :
    ∃ dst' added, qemuIovecConcat dst src soffset sbytes = some dst' ∧
      dst'.iov = dst.iov ++ added ∧
      (∀ {α : Type} (mem : ℕ → α), iovContents mem added =
        ((iovContents mem src.iov).drop soffset).take (min sbytes (src.size - soffset))) ∧
      dst'.size = dst.size + min sbytes (src.size - soffset) := by
  rw [src.size_eq] at hoff ⊢
  obtain ⟨dst', added, hrun, hiov, -, haddrs⟩ :=
    qemuIovecConcatLoop_spec sbytes src.iov soffset 0 dst hdst hoff (Nat.zero_le _)
  rw [Nat.sub_zero] at haddrs
  have hsize : iovSize added = min sbytes (iovSize src.iov - soffset) := by
    rw [← length_iovAddrs, haddrs, length_iovSlice _ (Nat.min_le_right _ _)]
  refine ⟨dst', added, ?_, hiov, fun mem => ?_, ?_⟩
  · rw [qemuIovecConcat, if_neg hdst, if_neg (by rw [src.size_eq]; omega)]
    exact hrun
  · rw [iovContents, haddrs, iovContents, List.map_take, List.map_drop]
  · rw [dst'.size_eq, hiov, iovSize_append, ← dst.size_eq, hsize]

/-- The scatter/gather helpers on a vector of disjoint buffers, from any
`offset ≤ iov_size` and for any `bytes`, with `n = min(bytes, iov_size -
offset)`: `iov_from_buf`, `iov_to_buf` and `iov_memset` pass their assertion
and return `n`; `iov_from_buf` and `iov_memset` change exactly C[offset,
offset + n) of memory, to buf[0, n) and to `fillc`; `iov_to_buf` writes
exactly C[offset, offset + n) to buf[0, n); and `qemu_iovec_concat` appends
to a vector that owns its array elements whose concatenation is the source's
C[soffset, soffset + min(sbytes, size - soffset)), growing its size by that
much. -/
theorem iovHelpers_act_on_slice (mem buf : ℕ → UInt8) (iov : List Iovec) (hdisj : IovDisjoint iov)
    (offset bytes : ℕ) (hoff : offset ≤ iovSize iov) (fillc : ℤ) :
    (∃ mem', iovFromBuf mem iov offset buf bytes = some (mem', min bytes (iovSize iov - offset)) ∧
      iovContents mem' iov = (iovContents mem iov).take offset ++
        (List.range (min bytes (iovSize iov - offset))).map buf ++
        (iovContents mem iov).drop (offset + min bytes (iovSize iov - offset)) ∧
      ∀ a ∉ iovAddrs iov, mem' a = mem a) ∧
    (∃ buf', iovToBuf mem iov offset buf bytes = some (buf', min bytes (iovSize iov - offset)) ∧
      (List.range (min bytes (iovSize iov - offset))).map buf' =
        ((iovContents mem iov).drop offset).take (min bytes (iovSize iov - offset)) ∧
      ∀ j, min bytes (iovSize iov - offset) ≤ j → buf' j = buf j) ∧
    (∃ mem', iovMemset mem iov offset fillc bytes = some (mem', min bytes (iovSize iov - offset)) ∧
      iovContents mem' iov = (iovContents mem iov).take offset ++
        List.replicate (min bytes (iovSize iov - offset)) (UInt8.ofInt fillc) ++
        (iovContents mem iov).drop (offset + min bytes (iovSize iov - offset)) ∧
      ∀ a ∉ iovAddrs iov, mem' a = mem a) ∧
    ∀ (dst src : QEMUIOVector) (soffset sbytes : ℕ), dst.nalloc ≠ -1 → soffset ≤ src.size →
      ∃ dst' added, qemuIovecConcat dst src soffset sbytes = some dst' ∧
        dst'.iov = dst.iov ++ added ∧
        (∀ mem : ℕ → UInt8, iovContents mem added =
          ((iovContents mem src.iov).drop soffset).take (min sbytes (src.size - soffset))) ∧
        dst'.size = dst.size + min sbytes (src.size - soffset) := by
  refine ⟨iovFromBuf_spec mem hdisj buf bytes hoff, iovToBuf_spec mem iov buf bytes hoff,
    iovMemset_spec mem hdisj fillc bytes hoff, fun dst src soffset sbytes hdst hsoff => ?_⟩
  obtain ⟨dst', added, hrun, hiov, hC, hsize⟩ := qemuIovecConcat_spec dst src soffset sbytes hdst hsoff
  exact ⟨dst', added, hrun, hiov, fun mem => hC mem, hsize⟩

/-- The helpers on a vector with a zero-length element, from the boundary
just before it. -/
theorem iovHelpers_act_on_slice_boundary :
    IovDisjoint [⟨0, 2⟩, ⟨8, 0⟩, ⟨16, 3⟩] ∧ 2 ≤ iovSize [⟨0, 2⟩, ⟨8, 0⟩, ⟨16, 3⟩] ∧
    ((∃ mem', iovFromBuf (fun _ => 0) [⟨0, 2⟩, ⟨8, 0⟩, ⟨16, 3⟩] 2 (fun j => j.toUInt8) 2 =
        some (mem', min 2 (iovSize [⟨0, 2⟩, ⟨8, 0⟩, ⟨16, 3⟩] - 2)) ∧
      iovContents mem' [⟨0, 2⟩, ⟨8, 0⟩, ⟨16, 3⟩] =
        (iovContents (fun _ => 0) [⟨0, 2⟩, ⟨8, 0⟩, ⟨16, 3⟩]).take 2 ++
        (List.range (min 2 (iovSize [⟨0, 2⟩, ⟨8, 0⟩, ⟨16, 3⟩] - 2))).map (fun j => j.toUInt8) ++
        (iovContents (fun _ => 0) [⟨0, 2⟩, ⟨8, 0⟩, ⟨16, 3⟩]).drop
          (2 + min 2 (iovSize [⟨0, 2⟩, ⟨8, 0⟩, ⟨16, 3⟩] - 2)) ∧
      ∀ a ∉ iovAddrs [⟨0, 2⟩, ⟨8, 0⟩, ⟨16, 3⟩], mem' a = 0) ∧
    (∃ buf', iovToBuf (fun _ => 0) [⟨0, 2⟩, ⟨8, 0⟩, ⟨16, 3⟩] 2 (fun j => j.toUInt8) 2 =
        some (buf', min 2 (iovSize [⟨0, 2⟩, ⟨8, 0⟩, ⟨16, 3⟩] - 2)) ∧
      (List.range (min 2 (iovSize [⟨0, 2⟩, ⟨8, 0⟩, ⟨16, 3⟩] - 2))).map buf' =
        ((iovContents (fun _ => 0) [⟨0, 2⟩, ⟨8, 0⟩, ⟨16, 3⟩]).drop 2).take
          (min 2 (iovSize [⟨0, 2⟩, ⟨8, 0⟩, ⟨16, 3⟩] - 2)) ∧
      ∀ j, min 2 (iovSize [⟨0, 2⟩, ⟨8, 0⟩, ⟨16, 3⟩] - 2) ≤ j → buf' j = j.toUInt8) ∧
    (∃ mem', iovMemset (fun _ => 0) [⟨0, 2⟩, ⟨8, 0⟩, ⟨16, 3⟩] 2 0xff 2 =
        some (mem', min 2 (iovSize [⟨0, 2⟩, ⟨8, 0⟩, ⟨16, 3⟩] - 2)) ∧
      iovContents mem' [⟨0, 2⟩, ⟨8, 0⟩, ⟨16, 3⟩] =
        (iovContents (fun _ => 0) [⟨0, 2⟩, ⟨8, 0⟩, ⟨16, 3⟩]).take 2 ++
        List.replicate (min 2 (iovSize [⟨0, 2⟩, ⟨8, 0⟩, ⟨16, 3⟩] - 2)) (UInt8.ofInt 0xff) ++
        (iovContents (fun _ => 0) [⟨0, 2⟩, ⟨8, 0⟩, ⟨16, 3⟩]).drop
          (2 + min 2 (iovSize [⟨0, 2⟩, ⟨8, 0⟩, ⟨16, 3⟩] - 2)) ∧
      ∀ a ∉ iovAddrs [⟨0, 2⟩, ⟨8, 0⟩, ⟨16, 3⟩], mem' a = 0) ∧
    ∀ (dst src : QEMUIOVector) (soffset sbytes : ℕ), dst.nalloc ≠ -1 → soffset ≤ src.size →
      ∃ dst' added, qemuIovecConcat dst src soffset sbytes = some dst' ∧
        dst'.iov = dst.iov ++ added ∧
        (∀ mem : ℕ → UInt8, iovContents mem added =
          ((iovContents mem src.iov).drop soffset).take (min sbytes (src.size - soffset))) ∧
        dst'.size = dst.size + min sbytes (src.size - soffset)) := by
  have hdisj : IovDisjoint [⟨0, 2⟩, ⟨8, 0⟩, ⟨16, 3⟩] := (iovDisjoint_iff_nodup _).2 (by decide)
  exact ⟨hdisj, by decide, iovHelpers_act_on_slice (fun _ => 0) (fun j => j.toUInt8) _ hdisj 2 2
    (by decide) 0xff⟩

/-! ## iov_send_recv -/

section SendRecv

variable {σ : Type*}

/-- The two skip loops of `iov_send_recv`:
`for (si = 0; si < iov_cnt && offset >= iov[si].iov_len; ++si)`, taking
each element off `offset`, and from `si` the same walk under
`iov[ei].iov_len <= bytes`. Gives how many elements the walk passed and what
is left. -/
def skipWhole : List Iovec → ℕ → ℕ × ℕ
  | [], x => (0, x)
  | v :: iov, x =>
    if v.iovLen ≤ x then
      let r := skipWhole iov (x - v.iovLen)
      (r.1 + 1, r.2)
    else (0, x)

/-- `if (offset) { assert(si < iov_cnt); iov[si].iov_base += offset;
iov[si].iov_len -= offset; }` -/
def iovTrimStart (iov : List Iovec) (si offset : ℕ) : Option (List Iovec) :=
  if offset = 0 then some iov
  else if si < iov.length then
    some (iov.modify si fun v => ⟨v.iovBase + offset, v.iovLen - offset⟩)
  else none

/-- `if (bytes) { assert(ei < iov_cnt); assert(iov[ei].iov_len > bytes);
tail = iov[ei].iov_len - bytes; iov[ei].iov_len = bytes; bytes = tail;
++ei; }`: gives the array, `ei` and `bytes`. -/
def iovTrimEnd (iov : List Iovec) (ei bytes : ℕ) : Option (List Iovec × ℕ × ℕ) :=
  if bytes = 0 then some (iov, ei, bytes)
  else match iov[ei]? with
    | none => none
    | some v =>
      if bytes < v.iovLen then
        some (iov.modify ei (fun v => ⟨v.iovBase, bytes⟩), ei + 1, v.iovLen - bytes)
      else none

/-- The undo block: `if (offset) { iov[si].iov_base -= offset;
iov[si].iov_len += offset; }`, then `if (bytes) iov[ei-1].iov_len += bytes;`. -/
def iovUndoTrim (iov : List Iovec) (si ei offset bytes : ℕ) : List Iovec :=
  let iov := if offset ≠ 0 then
    iov.modify si (fun v => ⟨v.iovBase - offset, v.iovLen + offset⟩) else iov
  if bytes ≠ 0 then iov.modify (ei - 1) (fun v => ⟨v.iovBase, v.iovLen + bytes⟩) else iov

/-- `iov_send_recv`: `doSendRecv` is the transport (`do_send_recv`), handed
the stretch `iov + si` of `ei - si` elements; gives its return value, the
transport's state after it and the caller's array on return. -/
def iovSendRecv (doSendRecv : List Iovec → σ → ℤ × σ) (s : σ) (iov : List Iovec)
    (offset bytes : ℕ) : Option (ℤ × σ × List Iovec) :=
  if bytes = 0 then some (0, s, iov) else
  match skipWhole iov offset with
  | (si, offset) =>
    (iovTrimStart iov si offset).bind fun iov =>
    match skipWhole (iov.drop si) bytes with
    | (k, bytes) =>
      (iovTrimEnd iov (si + k) bytes).bind fun (iov, ei, bytes) =>
      match doSendRecv ((iov.drop si).take (ei - si)) s with
      | (ret, s) => some (ret, s, iovUndoTrim iov si ei offset bytes)

/-- The skip walk stops at an element it cannot pass whole, after elements
that make up what it skipped. -/
theorem skipWhole_spec (l : List Iovec) (x : ℕ) :
    (skipWhole l x).1 ≤ l.length ∧ x = iovSize (l.take (skipWhole l x).1) + (skipWhole l x).2 ∧
      ∀ w post, l.drop (skipWhole l x).1 = w :: post → (skipWhole l x).2 < w.iovLen := by
  induction l generalizing x with
  | nil => simp [skipWhole]
  | cons v l ih =>
    by_cases hv : v.iovLen ≤ x
    · obtain ⟨hk, hx, hhead⟩ := ih (x - v.iovLen)
      simp only [skipWhole, if_pos hv, List.length_cons, List.take_succ_cons, iovSize_cons,
        List.drop_succ_cons]
      exact ⟨by omega, by omega, hhead⟩
    · simp only [skipWhole, if_neg hv, List.take_zero, iovSize_nil, List.drop_zero,
        List.cons.injEq]
      exact ⟨Nat.zero_le _, by omega, fun w post h => h.1 ▸ by omega⟩

/-- Inside the vector, the walk stops at an element. -/
theorem skipWhole_lt_length {l : List Iovec} {x : ℕ}
    (h : x < iovSize l ∨ (x ≤ iovSize l ∧ (skipWhole l x).2 ≠ 0)) :
    (skipWhole l x).1 < l.length := by
  obtain ⟨hk, hx, -⟩ := skipWhole_spec l x
  by_contra hlt
  rw [List.take_of_length_le (by omega)] at hx
  omega

/-- Where the walk stops inside the vector, it cuts it into the elements it
passed and the element it stopped in. -/
theorem skipWhole_cut (l : List Iovec) (x : ℕ) (h : (skipWhole l x).1 < l.length) :
    ∃ pre v rest, l = pre ++ v :: rest ∧ pre.length = (skipWhole l x).1 ∧
      x = iovSize pre + (skipWhole l x).2 ∧ (skipWhole l x).2 < v.iovLen := by
  obtain ⟨hk, hx, hhead⟩ := skipWhole_spec l x
  have hdrop := List.drop_eq_getElem_cons h
  exact ⟨l.take (skipWhole l x).1, _, _, by rw [← hdrop, List.take_append_drop],
    List.length_take_of_le hk, hx, hhead _ _ hdrop⟩

theorem modify_append_length {α : Type*} (l₁ l₂ : List α) (i : ℕ) (f : α → α) :
    (l₁ ++ l₂).modify (l₁.length + i) f = l₁ ++ l₂.modify i f := by
  induction l₁ with
  | nil => simp
  | cons a l₁ ih =>
    rw [List.cons_append, List.length_cons, Nat.add_right_comm, List.modify_succ_cons, ih,
      List.cons_append]

theorem modify_append_cons {α : Type*} (l₁ l₂ : List α) (a : α) (f : α → α) :
    (l₁ ++ a :: l₂).modify l₁.length f = l₁ ++ f a :: l₂ := by
  have h := modify_append_length l₁ (a :: l₂) 0 f
  rwa [Nat.add_zero, List.modify_zero_cons] at h

/-- The front trim on an array cut at element `si`. -/
theorem iovTrimStart_eq (pre rest : List Iovec) (v : Iovec) (offset : ℕ) :
    iovTrimStart (pre ++ v :: rest) pre.length offset =
      some (pre ++ ⟨v.iovBase + offset, v.iovLen - offset⟩ :: rest) := by
  by_cases ho : offset = 0
  · subst ho
    simp [iovTrimStart]
  · rw [iovTrimStart, if_neg ho, if_pos (by simp), modify_append_cons]

/-- The end trim on an array cut at element `ei`, when `bytes` ends inside it. -/
theorem iovTrimEnd_eq (pre post : List Iovec) (w : Iovec) {bytes : ℕ} (hb : bytes ≠ 0)
    (hlt : bytes < w.iovLen) :
    iovTrimEnd (pre ++ w :: post) pre.length bytes =
      some (pre ++ ⟨w.iovBase, bytes⟩ :: post, pre.length + 1, w.iovLen - bytes) := by
  rw [iovTrimEnd, if_neg hb, List.getElem?_append_right le_rfl, Nat.sub_self,
    List.getElem?_cons_zero]
  simp only [if_pos hlt, modify_append_cons]

/-- Undoing a front trim alone. -/
theorem iovUndoTrim_start (pre rest : List Iovec) (v : Iovec) {offset : ℕ} (ei : ℕ)
    (ho : offset ≤ v.iovLen) :
    iovUndoTrim (pre ++ ⟨v.iovBase + offset, v.iovLen - offset⟩ :: rest) pre.length ei offset 0 =
      pre ++ v :: rest := by
  by_cases h0 : offset = 0
  · subst h0
    simp [iovUndoTrim]
  · simp only [iovUndoTrim, ne_eq, h0, not_false_eq_true, if_true, not_true_eq_false, if_false,
      modify_append_cons, Nat.add_sub_cancel, Nat.sub_add_cancel ho]

/-- Undoing the front trim of an array cut at element `si`, whatever else
the element was trimmed to. -/
theorem iovUndoFront (pre rest : List Iovec) (base len offset : ℕ) :
    (if offset ≠ 0 then (pre ++ ⟨base + offset, len⟩ :: rest).modify pre.length
        (fun v => ⟨v.iovBase - offset, v.iovLen + offset⟩)
      else pre ++ ⟨base + offset, len⟩ :: rest) =
      pre ++ ⟨base, len + offset⟩ :: rest := by
  by_cases h0 : offset = 0
  · subst h0
    simp
  · rw [if_pos h0, modify_append_cons, Nat.add_sub_cancel]

/-- Undoing both trims when they hit the same element: the two additive
undos give its length back whichever comes first. -/
theorem iovUndoTrim_same (pre rest : List Iovec) (v : Iovec) {offset bytes : ℕ}
    (hlt : offset + bytes < v.iovLen) :
    iovUndoTrim (pre ++ ⟨v.iovBase + offset, bytes⟩ :: rest) pre.length (pre.length + 1) offset
      (v.iovLen - offset - bytes) = pre ++ v :: rest := by
  have htail : v.iovLen - offset - bytes ≠ 0 := by omega
  have hlen : bytes + offset + (v.iovLen - offset - bytes) = v.iovLen := by omega
  rw [iovUndoTrim, iovUndoFront, if_pos htail, Nat.add_sub_cancel, modify_append_cons, hlen]

/-- Undoing both trims on different elements. -/
theorem iovUndoTrim_apart (pre mid post : List Iovec) (v w : Iovec) {offset bytes : ℕ}
    (ho : offset ≤ v.iovLen) (hb : bytes < w.iovLen) :
    iovUndoTrim (pre ++ ⟨v.iovBase + offset, v.iovLen - offset⟩ ::
        (mid ++ ⟨w.iovBase, bytes⟩ :: post))
        pre.length (pre.length + (mid.length + 1) + 1) offset (w.iovLen - bytes) =
      pre ++ v :: (mid ++ w :: post) := by
  have htail : w.iovLen - bytes ≠ 0 := by omega
  have hidx : pre.length + (mid.length + 1) + 1 - 1 = (pre ++ v :: mid).length := by
    simp only [List.length_append, List.length_cons]
    omega
  have hcut : ∀ y : Iovec, pre ++ v :: (mid ++ y :: post) = (pre ++ v :: mid) ++ y :: post := by
    simp
  rw [iovUndoTrim, iovUndoFront, Nat.sub_add_cancel ho, if_pos htail, hidx, hcut, modify_append_cons,
    Nat.add_sub_cancel' hb.le, ← hcut]

/-- Undoing both trims when the end trim keeps `b` bytes of element `w`,
with `mid` the elements from the trimmed front element on before it: the
array is the caller's again, whether both trims hit one element or two. -/
theorem iovUndoTrim_both (pre mid post rest : List Iovec) (v w : Iovec) {o b : ℕ}
    (ho : o < v.iovLen) (hbw : b < w.iovLen)
    (hcut : (⟨v.iovBase + o, v.iovLen - o⟩ : Iovec) :: rest = mid ++ w :: post) :
    iovUndoTrim ((pre ++ mid) ++ ⟨w.iovBase, b⟩ :: post) pre.length ((pre ++ mid).length + 1) o
      (w.iovLen - b) = pre ++ v :: rest := by
  rcases mid with _ | ⟨x, mid⟩
  · -- both trims hit the same element
    obtain ⟨rfl, rfl⟩ : ⟨v.iovBase + o, v.iovLen - o⟩ = w ∧ rest = post := by
      simpa using hcut
    have hob : o + b < v.iovLen := by
      dsimp only at hbw
      omega
    dsimp only
    rw [List.append_nil, iovUndoTrim_same pre rest v hob]
  · -- the trims hit different elements
    obtain ⟨rfl, rfl⟩ : ⟨v.iovBase + o, v.iovLen - o⟩ = x ∧ rest = mid ++ w :: post := by
      simpa using hcut
    have hidx : (pre ++ ⟨v.iovBase + o, v.iovLen - o⟩ :: mid).length + 1 =
        pre.length + (mid.length + 1) + 1 := by
      simp
    have hcut' : (pre ++ ⟨v.iovBase + o, v.iovLen - o⟩ :: mid) ++ ⟨w.iovBase, b⟩ :: post =
        pre ++ ⟨v.iovBase + o, v.iovLen - o⟩ :: (mid ++ ⟨w.iovBase, b⟩ :: post) := by
      simp
    rw [hidx, hcut', iovUndoTrim_apart pre mid post v w ho.le hbw]

/-- `iov_send_recv` with `0 < bytes` and `offset + bytes ≤ iov_size`: there
is one stretch of elements whose concatenation is C[offset, offset + bytes)
such that, whatever the transport, the call returns what the transport
returns on that stretch and leaves the caller's array as it was. -/
theorem iovSendRecv_slice_restores (iov : List Iovec) (offset bytes : ℕ) (hbytes : 0 < bytes)
    (hle : offset + bytes ≤ iovSize iov) :
    ∃ sub, iovAddrs sub = ((iovAddrs iov).drop offset).take bytes ∧
      ∀ {σ : Type} (doSendRecv : List Iovec → σ → ℤ × σ) (s : σ),
        iovSendRecv doSendRecv s iov offset bytes =
          some ((doSendRecv sub s).1, (doSendRecv sub s).2, iov) := by
  -- the front walk stops `o` bytes into element `si`
  obtain ⟨pre, v, rest, rfl, hpre, hx₁, ho⟩ :=
    skipWhole_cut iov offset (skipWhole_lt_length (.inl (by omega)))
  generalize hw₁ : skipWhole (pre ++ v :: rest) offset = w₁ at hpre hx₁ ho
  obtain ⟨si, o⟩ := w₁
  dsimp only at hpre hx₁ ho
  subst hpre
  -- C from `offset` on is the trimmed element and the rest
  have hC : (iovAddrs (pre ++ v :: rest)).drop offset =
      iovAddrs (⟨v.iovBase + o, v.iovLen - o⟩ :: rest) := by
    rw [hx₁, drop_iovAddrs_append, drop_iovAddrs_cons_of_lt rest ho]
    rfl
  have hfit : bytes ≤ iovSize (⟨v.iovBase + o, v.iovLen - o⟩ :: rest) := by
    rw [← length_iovAddrs, ← hC, List.length_drop, length_iovAddrs]
    omega
  have hrun : ∀ {σ : Type} (doSendRecv : List Iovec → σ → ℤ × σ) (s : σ),
      iovSendRecv doSendRecv s (pre ++ v :: rest) offset bytes =
        match skipWhole (⟨v.iovBase + o, v.iovLen - o⟩ :: rest) bytes with
        | (k, bytes) =>
          (iovTrimEnd (pre ++ ⟨v.iovBase + o, v.iovLen - o⟩ :: rest) (pre.length + k) bytes).bind
            fun (iov, ei, bytes) =>
            match doSendRecv ((iov.drop pre.length).take (ei - pre.length)) s with
            | (ret, s) => some (ret, s, iovUndoTrim iov pre.length ei o bytes) := by
    intro σ doSendRecv s
    rw [iovSendRecv, if_neg (by omega), hw₁]
    dsimp only
    rw [iovTrimStart_eq, Option.bind_some, List.drop_left' rfl]
  -- the end walk stops `b` bytes into the `k`-th element of what is left
  generalize hw₂ : skipWhole (⟨v.iovBase + o, v.iovLen - o⟩ :: rest) bytes = w₂ at hrun
  obtain ⟨k, b⟩ := w₂
  by_cases hb : b = 0
  · -- `bytes` ends at an element boundary: no end trim
    obtain ⟨hk₂, hx₂, -⟩ := skipWhole_spec (⟨v.iovBase + o, v.iovLen - o⟩ :: rest) bytes
    rw [hw₂] at hk₂ hx₂
    dsimp only at hk₂ hx₂
    subst hb
    refine ⟨(⟨v.iovBase + o, v.iovLen - o⟩ :: rest).take k, ?_, fun doSendRecv s => ?_⟩
    · rw [hC, ← List.take_append_drop k (⟨v.iovBase + o, v.iovLen - o⟩ :: rest), hx₂,
        take_iovAddrs_append, List.take_zero, List.append_nil, List.take_append_drop]
    · rw [hrun]
      dsimp only
      rw [iovTrimEnd, if_pos rfl, Option.bind_some]
      dsimp only
      rw [iovUndoTrim_start pre rest v _ ho.le, List.drop_left' rfl, Nat.add_sub_cancel_left]
  · -- `bytes` ends inside element `k`: trimmed to `b` bytes and restored after
    obtain ⟨mid, w, post, hcut, hmid, hx₂, hbw⟩ :=
      skipWhole_cut (⟨v.iovBase + o, v.iovLen - o⟩ :: rest) bytes
        (skipWhole_lt_length (.inr ⟨hfit, by rw [hw₂]; exact hb⟩))
    rw [hw₂] at hmid hx₂ hbw
    dsimp only at hmid hx₂ hbw
    subst hmid
    have hend : iovTrimEnd (pre ++ ⟨v.iovBase + o, v.iovLen - o⟩ :: rest) (pre.length + mid.length) b =
        some ((pre ++ mid) ++ ⟨w.iovBase, b⟩ :: post, (pre ++ mid).length + 1, w.iovLen - b) := by
      rw [hcut, ← List.append_assoc, ← List.length_append, iovTrimEnd_eq _ _ _ hb hbw]
    refine ⟨mid ++ [⟨w.iovBase, b⟩], ?_, fun doSendRecv s => ?_⟩
    · rw [hC, hcut, hx₂, take_iovAddrs_append, iovAddrs_append, iovAddrs_cons, iovAddrs_cons,
        iovAddrs_nil, List.append_nil, Iovec.addrs, Iovec.addrs, List.take_append_of_le_length
        (by simp; omega), take_range', Nat.min_eq_left hbw.le]
    · rw [hrun]
      dsimp only
      rw [hend, Option.bind_some]
      dsimp only
      have hlen : (pre ++ mid).length + 1 - pre.length = mid.length + 1 := by
        rw [List.length_append]
        omega
      have hsub : (((pre ++ mid) ++ ⟨w.iovBase, b⟩ :: post).drop pre.length).take
          ((pre ++ mid).length + 1 - pre.length) = mid ++ [⟨w.iovBase, b⟩] := by
        rw [List.append_assoc, List.drop_left' rfl, hlen, List.take_append,
          List.take_of_length_le (by omega), Nat.add_sub_cancel_left, List.take_succ_cons,
          List.take_zero]
      rw [hsub, iovUndoTrim_both pre mid post rest v w ho hbw hcut]

/-- A slice that starts and ends inside the same element. -/
theorem iovSendRecv_slice_restores_inside :
    0 < 2 ∧ 1 + 2 ≤ iovSize [⟨0, 4⟩, ⟨8, 0⟩, ⟨16, 3⟩] ∧
    ∃ sub, iovAddrs sub = ((iovAddrs [⟨0, 4⟩, ⟨8, 0⟩, ⟨16, 3⟩]).drop 1).take 2 ∧
      ∀ {σ : Type} (doSendRecv : List Iovec → σ → ℤ × σ) (s : σ),
        iovSendRecv doSendRecv s [⟨0, 4⟩, ⟨8, 0⟩, ⟨16, 3⟩] 1 2 =
          some ((doSendRecv sub s).1, (doSendRecv sub s).2, [⟨0, 4⟩, ⟨8, 0⟩, ⟨16, 3⟩]) :=
  ⟨by decide, by decide, iovSendRecv_slice_restores _ 1 2 (by decide) (by decide)⟩

end SendRecv

end QemuKvm.Iov
