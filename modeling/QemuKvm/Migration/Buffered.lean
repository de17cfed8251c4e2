import Mathlib.Data.List.Basic
import QemuKvm.Migration.QemuFile

/-!
# The buffered migration channel (buffered_file.c, savevm.c)

Outgoing migration writes through two buffers. The `QEMUFile` collects in
`buf` what `qemu_put_byte` and `qemu_put_buffer` put and hands it, once
`IO_BUF_SIZE` bytes are there and at `qemu_fclose`, to its `put_buffer`,
which for a migration is `buffered_put_buffer`. That one first flushes its
own buffer to the transport (`migrate_fd_put_buffer`), then writes the new
bytes to the transport until the transport would block (`-EAGAIN`, which
freezes the output until the next `qemu_file_put_notify`) or the rate limit
of the current tick is used up, and keeps the rest in its buffer.
`buffered_rate_tick` starts a new tick and flushes; `buffered_close` flushes
until its buffer is empty, waiting for the transport while it is frozen.

The transport is a parameter (`Transport`): at each write it takes a prefix
of what it is offered, or answers `-EAGAIN` or an error. The model keeps the
bytes it took (`sent`). What the channel calls back (`put_ready`, the
migration loop, and the timer) is the environment: a run is any sequence of
the operations, which is what those callbacks do.

* `bufRun_conserve` — over every run from `qemu_fopen_ops_buffered`, the
  invariant `BufInv` holds, and while no error is reported the bytes the
  transport took, then the buffered file's buffer, then the `QEMUFile`'s,
  are the bytes put;
* `bufRun_eq_none` — the write path never reaches an `abort()`: a run ends
  early only where a rate tick finds an error;
* `qemuFclose_sent` — `qemu_fclose` returns a value that is not negative
  exactly when no error is reported, and then the transport took every byte
  put, each once and in order.

The transport must answer a write of some bytes with a count of at least one
or a negative value (`Transport.NonZero`): a `0` stops `buffered_flush`
without an error, and `buffered_put_buffer` then sends new bytes ahead of
buffered ones.
-/

namespace QemuKvm.Migration.Buffered

/-- `IO_BUF_SIZE`. -/
def IO_BUF_SIZE : ℕ := 32768

/-- `EAGAIN`. -/
def EAGAIN : ℤ := 11

/-- `EINVAL`. -/
def EINVAL : ℤ := 22

/-- The transport under the buffered file: what its write
(`migrate_fd_put_buffer`) of `len` bytes returns after `k` writes, the number
of bytes it took from the front of them, `-EAGAIN`, or another error, never
more than it was offered; and what `migrate_fd_wait_for_unfreeze` reports
after `k` writes, `0` once the transport is writable or the negated `errno`
of a failed `select`. -/
structure Transport where
  write : ℕ → ℕ → ℤ
  write_le : ∀ k len, write k len ≤ len
  wait : ℕ → ℤ
  wait_nonpos : ∀ k, wait k ≤ 0

/-- A transport that answers a write of some bytes with a count of at least
one or a negative value, as `send` and `write` do. -/
def Transport.NonZero (T : Transport) : Prop :=
  ∀ k len, 0 < len → T.write k len ≠ 0

/-- A transport that is always writable and takes every byte it is offered. -/
def Transport.takeAll : Transport :=
  ⟨fun _ len => len, fun _ _ => Int.le_refl _, fun _ => 0, fun _ => Int.le_refl 0⟩

theorem Transport.takeAll_nonZero : Transport.takeAll.NonZero :=
  fun _ _ h => by simp only [Transport.takeAll]; omega

/-- The writing side of the channel: the fields of the `QEMUFile` (`buf` is
`buf[0 .. buf_index)`) and of the `QEMUFileBuffered` (`buffer` is
`buffer[0 .. buffer_size)`) the write path reads, and the transport's
writes so far with the bytes it took. -/
structure BufState where
  isWrite : Bool
  buf : List UInt8
  bufOffset : ℕ
  lastError : ℤ
  freezeOutput : Bool
  bytesXfer : ℕ
  xferLimit : ℕ
  buffer : List UInt8
  calls : ℕ
  sent : List UInt8

section Functions

variable (T : Transport)

/-- A write of `data` to the transport, `s->put_buffer(s->opaque, data,
len)`. -/
def transportWrite (s : BufState) (data : List UInt8) : ℤ × BufState :=
  let ret := T.write s.calls data.length
  (ret, { s with calls := s.calls + 1, sent := s.sent ++ data.take ret.toNat })

/-- The loop of `buffered_flush` over what is left of the buffer. The fuel
bounds the writes; the length of the buffer is enough, as a write that does
not end the loop takes a byte at least (`flushLoop_stops`). -/
def flushLoop : ℕ → List UInt8 → BufState → List UInt8 × BufState
  | 0, rest, s => (rest, s)
  | fuel + 1, rest, s =>
    if rest = [] then (rest, s)
    else
      let r := transportWrite T s rest
      if r.1 = -EAGAIN then (rest, { r.2 with freezeOutput := true })
      else if r.1 ≤ 0 then (rest, { r.2 with lastError := r.1 })
      else flushLoop fuel (rest.drop r.1.toNat) r.2

/-- `buffered_flush`: nothing after an error; otherwise the buffer is what
the transport did not take. -/
def bufferedFlush (s : BufState) : BufState :=
  if s.lastError ≠ 0 then s
  else
    let r := flushLoop T s.buffer.length s.buffer s
    { r.2 with buffer := r.1 }

/-- The loop of `buffered_put_buffer` that writes the new bytes to the
transport: what is left of them, or `none` after an error. -/
def putLoop : ℕ → List UInt8 → BufState → Option (List UInt8) × BufState
  | 0, rest, s => (some rest, s)
  | fuel + 1, rest, s =>
    if s.freezeOutput ∨ rest = [] then (some rest, s)
    -- the transfer limit of the tick is used up
    else if s.bytesXfer > s.xferLimit then (some rest, s)
    else
      let r := transportWrite T s rest
      if r.1 = -EAGAIN then (some rest, { r.2 with freezeOutput := true })
      else if r.1 ≤ 0 then (none, { r.2 with lastError := r.1 })
      else putLoop fuel (rest.drop r.1.toNat) { r.2 with bytesXfer := r.2.bytesXfer + r.1.toNat }

/-- `buffered_put_buffer(s, data, pos, size)`: the error already reported,
or after a flush and the direct writes, `size` with the rest of the bytes
buffered, or `-EINVAL` after an error of the transport. Its call of
`put_ready` for a notification (`pos` and `size` both `0`) belongs to the
environment. -/
def bufferedPutBuffer (data : List UInt8) (s : BufState) : ℤ × BufState :=
  if s.lastError ≠ 0 then (s.lastError, s)
  else
    let s := bufferedFlush T { s with freezeOutput := false }
    let r := putLoop T data.length data s
    match r.1 with
    | none => (-EINVAL, r.2)
    | some rest => (data.length, { r.2 with buffer := r.2.buffer ++ rest })

/-- `qemu_fflush`: the `QEMUFile` buffer goes to `buffered_put_buffer`. -/
def qemuFflush (s : BufState) : BufState :=
  if s.isWrite = true ∧ s.buf ≠ [] then
    let r := bufferedPutBuffer T s.buf s
    let s' := if 0 < r.1 then { r.2 with bufOffset := r.2.bufOffset + s.buf.length }
      else { r.2 with lastError := -EINVAL }
    { s' with buf := [] }
  else s

/-- The check at the top of `qemu_put_byte` and `qemu_put_buffer`: a write to
a file whose read buffer is not empty aborts. -/
def ReadBufferPending (s : BufState) : Prop :=
  s.lastError = 0 ∧ s.isWrite = false ∧ s.buf ≠ []

instance (s : BufState) : Decidable (ReadBufferPending s) :=
  inferInstanceAs (Decidable (s.lastError = 0 ∧ s.isWrite = false ∧ s.buf ≠ []))

/-- `qemu_put_byte`; `none` is the `abort()`. The byte is stored even after an
error. -/
def qemuPutByte (v : ℕ) (s : BufState) : Option BufState :=
  if ReadBufferPending s then none
  else
    let s := { s with buf := s.buf ++ [v.toUInt8], isWrite := true }
    some (if IO_BUF_SIZE ≤ s.buf.length then qemuFflush T s else s)

/-- The loop of `qemu_put_buffer`: the bytes go to `buf` as far as it has
room, and a full `buf` is flushed. -/
def putBufferLoop : ℕ → List UInt8 → BufState → BufState
  | 0, _, s => s
  | fuel + 1, data, s =>
    if s.lastError = 0 ∧ data ≠ [] then
      let l := min (IO_BUF_SIZE - s.buf.length) data.length
      let s := { s with buf := s.buf ++ data.take l, isWrite := true }
      putBufferLoop fuel (data.drop l) (if IO_BUF_SIZE ≤ s.buf.length then qemuFflush T s else s)
    else s

/-- `qemu_put_buffer`; `none` is the `abort()`. -/
def qemuPutBuffer (data : List UInt8) (s : BufState) : Option BufState :=
  if ReadBufferPending s then none else some (putBufferLoop T data.length data s)

/-- `qemu_file_put_notify`: the transport is writable again. -/
def qemuFilePutNotify (s : BufState) : BufState :=
  (bufferedPutBuffer T [] s).2

/-- `buffered_rate_tick`: a new tick of the rate limit, and a flush unless the
output is frozen. After an error it calls `buffered_close`, which frees the
buffered file: `none`. -/
def bufferedRateTick (s : BufState) : Option BufState :=
  if s.lastError ≠ 0 then none
  else if s.freezeOutput then some s
  else some (bufferedFlush T { s with bytesXfer := 0 })

/-- `buffered_set_rate_limit`: a tenth of the rate for each tick of 100 ms,
as a `size_t`. (`new_rate > SIZE_MAX` never holds of an `int64_t`.) -/
def bufferedSetRateLimit (newRate : ℤ) (s : BufState) : BufState :=
  if s.lastError ≠ 0 then s
  else { s with xferLimit := (newRate.tdiv 10 % 2 ^ 64).toNat }

/-- `buffered_rate_limit`: `0` while the migration may put more, `1` once the
output is frozen or the tick's limit is used up, or the error. -/
def bufferedRateLimit (s : BufState) : ℤ :=
  if s.lastError ≠ 0 then s.lastError
  else if s.freezeOutput ∨ s.bytesXfer > s.xferLimit then 1 else 0

/-- `migrate_fd_wait_for_unfreeze`: it returns once the transport is
writable, which its next answers stand for; a failed `select` is reported as
the file's error. -/
def migrateFdWaitForUnfreeze (s : BufState) : BufState :=
  if T.wait s.calls = 0 then s else { s with lastError := T.wait s.calls }

/-- The loop of `buffered_close`: flushes until the buffer is empty or an
error is reported, and waits for the transport after a flush that left the
output frozen. Out of fuel is a close that does not return. -/
def closeLoop : ℕ → BufState → Option BufState
  | 0, _ => none
  | fuel + 1, s =>
    if s.lastError = 0 ∧ s.buffer ≠ [] then
      let s := bufferedFlush T s
      closeLoop fuel (if s.freezeOutput then migrateFdWaitForUnfreeze T s else s)
    else some s

/-- `qemu_fclose` on the buffered file: `qemu_fflush`, then `buffered_close`,
whose `close` (`migrate_fd_close`) returns `closeRet`; the result is the
error reported, if any, and the state the channel was left in. -/
def qemuFclose (fuel : ℕ) (closeRet : ℤ) (s : BufState) : Option (ℤ × BufState) :=
  (closeLoop T fuel (qemuFflush T s)).map fun s =>
    -- qemu_fclose_internal: qemu_file_set_if_error
    let s := if closeRet < 0 ∧ s.lastError = 0 then { s with lastError := closeRet } else s
    (if s.lastError ≠ 0 then s.lastError else closeRet, s)

/-- `qemu_fopen_ops_buffered`. -/
def qemuFopenOpsBuffered (bytesPerSec : ℕ) : BufState where
  isWrite := false
  buf := []
  bufOffset := 0
  lastError := 0
  freezeOutput := false
  bytesXfer := 0
  xferLimit := bytesPerSec / 10
  buffer := []
  calls := 0
  sent := []

end Functions

/-- What the migration loop does to the channel between two points where it
returns to the main loop. -/
inductive BufOp where
  | putByte (v : ℕ)
  | putBuffer (data : List UInt8)
  | putNotify
  | rateTick
  | setRateLimit (newRate : ℤ)

/-- The bytes an operation puts. -/
def BufOp.bytes : BufOp → List UInt8
  | .putByte v => Migration.qemuPutByte v
  | .putBuffer data => data
  | _ => []

/-- One operation. -/
def bufStep (T : Transport) (s : BufState) : BufOp → Option BufState
  | .putByte v => qemuPutByte T v s
  | .putBuffer data => qemuPutBuffer T data s
  | .putNotify => some (qemuFilePutNotify T s)
  | .rateTick => bufferedRateTick T s
  | .setRateLimit newRate => some (bufferedSetRateLimit newRate s)

/-- A run of operations. -/
def bufRun (T : Transport) : List BufOp → BufState → Option BufState
  | [], s => some s
  | op :: ops, s => (bufStep T s op).bind (bufRun T ops)

/-! ## The transport loops -/

/-- `s'` has the `QEMUFile` fields of `s`. -/
def BufState.SameFile (s' s : BufState) : Prop :=
  s'.isWrite = s.isWrite ∧ s'.buf = s.buf ∧ s'.bufOffset = s.bufOffset

theorem BufState.SameFile.trans {s₁ s₂ s₃ : BufState} (h₂ : s₃.SameFile s₂) (h₁ : s₂.SameFile s₁) :
    s₃.SameFile s₁ :=
  ⟨h₂.1.trans h₁.1, h₂.2.1.trans h₁.2.1, h₂.2.2.trans h₁.2.2⟩

section Loops

variable {T : Transport}

theorem transportWrite_eq (s : BufState) (data : List UInt8) :
    transportWrite T s data = (T.write s.calls data.length,
      { s with calls := s.calls + 1, sent := s.sent ++ data.take (T.write s.calls data.length).toNat }) :=
  rfl

/-- What one round of `buffered_flush`'s loop can do: stop with nothing
left, freeze on `-EAGAIN`, stop on an error, or go on with what the
transport did not take. -/
theorem flushLoop_succ (fuel : ℕ) (rest : List UInt8) (s : BufState) :
    (rest = [] ∧ flushLoop T (fuel + 1) rest s = (rest, s)) ∨
    (rest ≠ [] ∧ T.write s.calls rest.length = -EAGAIN ∧
      flushLoop T (fuel + 1) rest s = (rest, { (transportWrite T s rest).2 with freezeOutput := true })) ∨
    (rest ≠ [] ∧ T.write s.calls rest.length ≠ -EAGAIN ∧ T.write s.calls rest.length ≤ 0 ∧
      flushLoop T (fuel + 1) rest s =
        (rest, { (transportWrite T s rest).2 with lastError := T.write s.calls rest.length })) ∨
    (rest ≠ [] ∧ 0 < T.write s.calls rest.length ∧
      flushLoop T (fuel + 1) rest s =
        flushLoop T fuel (rest.drop (T.write s.calls rest.length).toNat) (transportWrite T s rest).2) := by
  rw [flushLoop]
  dsimp only [transportWrite]
  by_cases h0 : rest = []
  · exact .inl ⟨h0, by rw [if_pos h0]⟩
  rw [if_neg h0]
  by_cases hag : T.write s.calls rest.length = -EAGAIN
  · exact .inr (.inl ⟨h0, hag, by rw [if_pos hag]⟩)
  rw [if_neg hag]
  by_cases hle : T.write s.calls rest.length ≤ 0
  · exact .inr (.inr (.inl ⟨h0, hag, hle, by rw [if_pos hle]⟩))
  · exact .inr (.inr (.inr ⟨h0, by omega, by rw [if_neg hle]⟩))

/-- `buffered_flush`'s loop changes neither the `QEMUFile`'s fields nor the
buffer. -/
theorem flushLoop_frame (fuel : ℕ) (rest : List UInt8) (s : BufState) :
    (flushLoop T fuel rest s).2.SameFile s ∧ (flushLoop T fuel rest s).2.buffer = s.buffer := by
  induction fuel generalizing rest s with
  | zero => exact ⟨⟨rfl, rfl, rfl⟩, rfl⟩
  | succ fuel ih =>
    rcases flushLoop_succ fuel rest s with ⟨-, h⟩ | ⟨-, -, h⟩ | ⟨-, -, -, h⟩ | ⟨-, -, h⟩ <;>
      rw [h]
    · exact ⟨⟨rfl, rfl, rfl⟩, rfl⟩
    · exact ⟨⟨rfl, rfl, rfl⟩, rfl⟩
    · exact ⟨⟨rfl, rfl, rfl⟩, rfl⟩
    · exact ih _ _

/-- What the transport took, then what is left, is what there was to flush. -/
theorem flushLoop_sent (fuel : ℕ) (rest : List UInt8) (s : BufState) :
    (flushLoop T fuel rest s).2.sent ++ (flushLoop T fuel rest s).1 = s.sent ++ rest := by
  induction fuel generalizing rest s with
  | zero => rfl
  | succ fuel ih =>
    rcases flushLoop_succ fuel rest s with ⟨-, h⟩ | ⟨-, hag, h⟩ | ⟨-, -, hle, h⟩ | ⟨-, -, h⟩
    · rw [h]
    · rw [h]
      simp [transportWrite_eq, Int.toNat_of_nonpos (show T.write s.calls rest.length ≤ 0 by
        rw [hag]; decide)]
    · rw [h]
      simp [transportWrite_eq, Int.toNat_of_nonpos hle]
    · rw [h, ih]
      simp [transportWrite_eq]

/-- A transport error ends the loop with that error, which is negative. -/
theorem flushLoop_lastError (hT : T.NonZero) (fuel : ℕ) (rest : List UInt8) (s : BufState) :
    (flushLoop T fuel rest s).2.lastError = s.lastError ∨ (flushLoop T fuel rest s).2.lastError < 0 := by
  induction fuel generalizing rest s with
  | zero => exact .inl rfl
  | succ fuel ih =>
    rcases flushLoop_succ fuel rest s with ⟨-, h⟩ | ⟨-, -, h⟩ | ⟨h0, -, hle, h⟩ | ⟨-, -, h⟩
    · exact .inl (by rw [h])
    · exact .inl (by rw [h]; rfl)
    · have : T.write s.calls rest.length ≠ 0 := hT _ _ (List.length_pos_iff.mpr h0)
      exact .inr (by rw [h]; simp only; omega)
    · rw [h]
      exact ih _ _

/-- The fuel is enough: with the length of what is left, the loop ends
with nothing left, frozen, or with an error. -/
theorem flushLoop_stops (hT : T.NonZero) (fuel : ℕ) (rest : List UInt8) (s : BufState)
    (hfuel : rest.length ≤ fuel) :
    (flushLoop T fuel rest s).1 = [] ∨ (flushLoop T fuel rest s).2.freezeOutput = true ∨
      (flushLoop T fuel rest s).2.lastError < 0 := by
  induction fuel generalizing rest s with
  | zero => exact .inl (List.eq_nil_of_length_eq_zero (Nat.le_zero.mp hfuel))
  | succ fuel ih =>
    rcases flushLoop_succ fuel rest s with ⟨h0, h⟩ | ⟨-, -, h⟩ | ⟨h0, -, hle, h⟩ | ⟨-, hpos, h⟩
    · exact .inl (by rw [h]; exact h0)
    · exact .inr (.inl (by rw [h]))
    · have : T.write s.calls rest.length ≠ 0 := hT _ _ (List.length_pos_iff.mpr h0)
      exact .inr (.inr (by rw [h]; simp only; omega))
    · -- the transport took one byte at least
      rw [h]
      apply ih
      rw [List.length_drop]
      omega

/-- What one round of `buffered_put_buffer`'s loop can do: stop with the
rest (frozen, nothing left, or the tick's limit used up), freeze on
`-EAGAIN`, give up on an error, or go on with what the transport did not
take. -/
theorem putLoop_succ (fuel : ℕ) (rest : List UInt8) (s : BufState) :
    ((s.freezeOutput = true ∨ rest = [] ∨ s.bytesXfer > s.xferLimit) ∧
      putLoop T (fuel + 1) rest s = (some rest, s)) ∨
    (rest ≠ [] ∧ T.write s.calls rest.length = -EAGAIN ∧
      putLoop T (fuel + 1) rest s = (some rest, { (transportWrite T s rest).2 with freezeOutput := true })) ∨
    (rest ≠ [] ∧ T.write s.calls rest.length ≠ -EAGAIN ∧ T.write s.calls rest.length ≤ 0 ∧
      putLoop T (fuel + 1) rest s =
        (none, { (transportWrite T s rest).2 with lastError := T.write s.calls rest.length })) ∨
    (rest ≠ [] ∧ 0 < T.write s.calls rest.length ∧
      putLoop T (fuel + 1) rest s =
        putLoop T fuel (rest.drop (T.write s.calls rest.length).toNat)
          { (transportWrite T s rest).2 with
            bytesXfer := (transportWrite T s rest).2.bytesXfer + (T.write s.calls rest.length).toNat }) := by
  rw [putLoop]
  dsimp only [transportWrite]
  by_cases h0 : s.freezeOutput = true ∨ rest = []
  · exact .inl ⟨h0.elim .inl (.inr ∘ .inl), by rw [if_pos h0]⟩
  rw [if_neg h0]
  by_cases hx : s.bytesXfer > s.xferLimit
  · exact .inl ⟨.inr (.inr hx), by rw [if_pos hx]⟩
  rw [if_neg hx]
  have hr : rest ≠ [] := fun h => h0 (.inr h)
  by_cases hag : T.write s.calls rest.length = -EAGAIN
  · exact .inr (.inl ⟨hr, hag, by rw [if_pos hag]⟩)
  rw [if_neg hag]
  by_cases hle : T.write s.calls rest.length ≤ 0
  · exact .inr (.inr (.inl ⟨hr, hag, hle, by rw [if_pos hle]⟩))
  · exact .inr (.inr (.inr ⟨hr, by omega, by rw [if_neg hle]⟩))

/-- `buffered_put_buffer`'s loop changes neither the `QEMUFile`'s fields nor
the buffer. -/
theorem putLoop_frame (fuel : ℕ) (rest : List UInt8) (s : BufState) :
    (putLoop T fuel rest s).2.SameFile s ∧ (putLoop T fuel rest s).2.buffer = s.buffer := by
  induction fuel generalizing rest s with
  | zero => exact ⟨⟨rfl, rfl, rfl⟩, rfl⟩
  | succ fuel ih =>
    rcases putLoop_succ fuel rest s with ⟨-, h⟩ | ⟨-, -, h⟩ | ⟨-, -, -, h⟩ | ⟨-, -, h⟩ <;>
      rw [h]
    · exact ⟨⟨rfl, rfl, rfl⟩, rfl⟩
    · exact ⟨⟨rfl, rfl, rfl⟩, rfl⟩
    · exact ⟨⟨rfl, rfl, rfl⟩, rfl⟩
    · exact ih _ _

/-- Where the loop leaves some bytes, the transport took the others, ahead
of them, and the loop reported no error. -/
theorem putLoop_some {fuel : ℕ} {rest rest' : List UInt8} {s : BufState}
    (h : (putLoop T fuel rest s).1 = some rest') :
    (putLoop T fuel rest s).2.sent ++ rest' = s.sent ++ rest ∧
      (putLoop T fuel rest s).2.lastError = s.lastError := by
  induction fuel generalizing rest s with
  | zero => cases h; exact ⟨rfl, rfl⟩
  | succ fuel ih =>
    rcases putLoop_succ fuel rest s with ⟨-, he⟩ | ⟨-, hag, he⟩ | ⟨-, -, -, he⟩ | ⟨-, -, he⟩
    · rw [he] at h ⊢
      cases h
      exact ⟨rfl, rfl⟩
    · have hz : (T.write s.calls rest.length).toNat = 0 :=
        Int.toNat_of_nonpos (by rw [hag]; decide)
      rw [he] at h ⊢
      cases h
      exact ⟨by simp [transportWrite_eq, hz], rfl⟩
    · rw [he] at h
      cases h
    · rw [he] at h ⊢
      obtain ⟨hs, he'⟩ := ih h
      exact ⟨by rw [hs]; simp [transportWrite_eq], he'⟩

/-- Where the loop gives up, the error it reports is negative. -/
theorem putLoop_none (hT : T.NonZero) {fuel : ℕ} {rest : List UInt8} {s : BufState}
    (h : (putLoop T fuel rest s).1 = none) : (putLoop T fuel rest s).2.lastError < 0 := by
  induction fuel generalizing rest s with
  | zero => cases h
  | succ fuel ih =>
    rcases putLoop_succ fuel rest s with ⟨-, he⟩ | ⟨-, -, he⟩ | ⟨h0, -, hle, he⟩ | ⟨-, -, he⟩
    · rw [he] at h
      cases h
    · rw [he] at h
      cases h
    · have : T.write s.calls rest.length ≠ 0 := hT _ _ (List.length_pos_iff.mpr h0)
      rw [he]
      simp only
      omega
    · rw [he] at h ⊢
      exact ih h

/-- While the output is frozen, the loop writes nothing. -/
theorem putLoop_frozen (fuel : ℕ) (rest : List UInt8) {s : BufState}
    (hf : s.freezeOutput = true) : putLoop T fuel rest s = (some rest, s) := by
  cases fuel with
  | zero => rfl
  | succ fuel => simp [putLoop, hf]

end Loops

/-! ## What each function does to the stream -/

/-- The bytes the transport took, then the buffered file's buffer. -/
def BufState.chan (s : BufState) : List UInt8 := s.sent ++ s.buffer

/-- The bytes the transport took, then the two buffers. -/
def BufState.stream (s : BufState) : List UInt8 := s.sent ++ s.buffer ++ s.buf

/-- From `s` to `s'` the channel went on with the bytes `d`, as `view` sees
it: an error, once reported, is negative and stays reported, and while none
is, what `view` shows is what it showed before, then `d`. -/
structure Extends (view : BufState → List UInt8) (s s' : BufState) (d : List UInt8) : Prop where
  nonpos : s.lastError ≤ 0 → s'.lastError ≤ 0
  sticky : s.lastError ≠ 0 → s'.lastError ≠ 0
  grows : s'.lastError = 0 → view s' = view s ++ d

section Extends

variable {view : BufState → List UInt8} {s₁ s₂ s₃ : BufState} {d₁ d₂ : List UInt8}

theorem Extends.refl (view : BufState → List UInt8) (s : BufState) : Extends view s s [] :=
  ⟨id, id, fun _ => by simp⟩

theorem Extends.trans (h₁ : Extends view s₁ s₂ d₁) (h₂ : Extends view s₂ s₃ d₂) :
    Extends view s₁ s₃ (d₁ ++ d₂) where
  nonpos := h₂.nonpos ∘ h₁.nonpos
  sticky := h₂.sticky ∘ h₁.sticky
  grows h := by
    have h2 : s₂.lastError = 0 := by
      by_contra hne
      exact h₂.sticky hne h
    rw [h₂.grows h, h₁.grows h2, List.append_assoc]

/-- Once the error reported is negative, anything may have happened. -/
theorem Extends.of_neg (view : BufState → List UInt8) (d : List UInt8) (h : s₂.lastError < 0) :
    Extends view s₁ s₂ d :=
  ⟨fun _ => Int.le_of_lt h, fun _ => Int.ne_of_lt h, fun h0 => absurd h0 (Int.ne_of_lt h)⟩

/-- While an error is reported, anything may happen that keeps one. -/
theorem Extends.of_error (view : BufState → List UInt8) (d : List UInt8)
    (h' : s₂.lastError ≠ 0) (hn : s₁.lastError ≤ 0 → s₂.lastError ≤ 0) :
    Extends view s₁ s₂ d :=
  ⟨hn, fun _ => h', fun h0 => absurd h0 h'⟩

end Extends

section Functions

variable {T : Transport}

theorem bufferedFlush_frame (s : BufState) : (bufferedFlush T s).SameFile s := by
  unfold bufferedFlush
  split_ifs
  · exact ⟨rfl, rfl, rfl⟩
  · exact (flushLoop_frame _ _ _).1

theorem bufferedFlush_chan (s : BufState) : (bufferedFlush T s).chan = s.chan := by
  unfold bufferedFlush BufState.chan
  split_ifs
  · rfl
  · exact flushLoop_sent _ _ _

theorem bufferedFlush_lastError (hT : T.NonZero) (s : BufState) :
    (bufferedFlush T s).lastError = s.lastError ∨ (bufferedFlush T s).lastError < 0 := by
  unfold bufferedFlush
  split_ifs
  · exact .inl rfl
  · exact flushLoop_lastError hT _ _ _

theorem bufferedFlush_extends (hT : T.NonZero) (s : BufState) :
    Extends BufState.stream s (bufferedFlush T s) [] := by
  have hlast := bufferedFlush_lastError hT s
  refine ⟨fun hn => by omega, fun hne => by omega, fun _ => ?_⟩
  have hchan := bufferedFlush_chan (T := T) s
  simp only [BufState.stream, BufState.chan, List.append_nil] at hchan ⊢
  rw [hchan, (bufferedFlush_frame s).2.1]

/-- With no error reported, `buffered_flush` empties the buffer unless the
transport froze the output or reported an error. -/
theorem bufferedFlush_stops (hT : T.NonZero) {s : BufState} (h0 : s.lastError = 0) :
    (bufferedFlush T s).buffer = [] ∨ (bufferedFlush T s).freezeOutput = true ∨
      (bufferedFlush T s).lastError < 0 := by
  unfold bufferedFlush
  rw [if_neg (by simpa using h0)]
  exact flushLoop_stops hT _ _ _ le_rfl

/-- What `buffered_put_buffer` can do: return the error already reported,
give up on a transport error, or buffer what the transport did not take
after the flush. -/
theorem bufferedPutBuffer_cases (data : List UInt8) (s : BufState) :
    let s₁ := bufferedFlush T { s with freezeOutput := false }
    let r := putLoop T data.length data s₁
    (s.lastError ≠ 0 ∧ bufferedPutBuffer T data s = (s.lastError, s)) ∨
    (s.lastError = 0 ∧ r.1 = none ∧ bufferedPutBuffer T data s = (-EINVAL, r.2)) ∨
    (s.lastError = 0 ∧ ∃ rest, r.1 = some rest ∧
      bufferedPutBuffer T data s = ((data.length : ℤ), { r.2 with buffer := r.2.buffer ++ rest })) := by
  intro s₁ r
  by_cases he : s.lastError ≠ 0
  · exact .inl ⟨he, by simp only [bufferedPutBuffer, if_pos he]⟩
  have he0 : s.lastError = 0 := not_not.mp he
  rcases hr : r.1 with _ | rest
  · exact .inr (.inl ⟨he0, rfl, by simp only [bufferedPutBuffer, if_neg he]; rw [hr]⟩)
  · exact .inr (.inr ⟨he0, rest, rfl, by simp only [bufferedPutBuffer, if_neg he]; rw [hr]⟩)

/-- `buffered_put_buffer` leaves the `QEMUFile`'s fields alone. -/
theorem bufferedPutBuffer_frame (data : List UInt8) (s : BufState) :
    (bufferedPutBuffer T data s).2.SameFile s := by
  have hflush := bufferedFlush_frame (T := T) { s with freezeOutput := false }
  rcases bufferedPutBuffer_cases (T := T) data s with ⟨-, h⟩ | ⟨-, -, h⟩ | ⟨-, rest, -, h⟩ <;>
    rw [h]
  · exact ⟨rfl, rfl, rfl⟩
  · exact (putLoop_frame _ _ _).1.trans hflush
  · exact (putLoop_frame _ _ _).1.trans hflush

/-- `buffered_put_buffer`: while no error is reported, it returns the size,
and the transport's bytes and the buffer go on with the bytes it was given.
After the flush the buffer is empty or the output frozen, so the new bytes
are never sent ahead of buffered ones. -/
theorem bufferedPutBuffer_extends (hT : T.NonZero) (data : List UInt8) (s : BufState) :
    Extends BufState.chan s (bufferedPutBuffer T data s).2 data ∧
      ((bufferedPutBuffer T data s).2.lastError = 0 → (bufferedPutBuffer T data s).1 = data.length) := by
  rcases bufferedPutBuffer_cases (T := T) data s with ⟨he, h⟩ | ⟨he0, hr, h⟩ | ⟨he0, rest, hr, h⟩ <;>
    rw [h]
  · exact ⟨Extends.of_error _ _ he id, fun h => absurd h he⟩
  · -- the transport reported an error
    have hneg := putLoop_none hT hr
    exact ⟨Extends.of_neg _ _ hneg, fun h => absurd h (Int.ne_of_lt hneg)⟩
  · have hflush := bufferedFlush_lastError hT { s with freezeOutput := false }
    have hstop := bufferedFlush_stops hT (s := { s with freezeOutput := false }) he0
    have hchan := bufferedFlush_chan (T := T) { s with freezeOutput := false }
    obtain ⟨hsent, hlast⟩ := putLoop_some hr
    have hbuffer := (putLoop_frame (T := T) data.length data
      (bufferedFlush T { s with freezeOutput := false })).2
    simp only [BufState.chan] at hflush hchan
    set s₁ := bufferedFlush T { s with freezeOutput := false } with hs₁
    refine ⟨⟨fun _ => by simp only; omega, fun h => absurd he0 h, fun h0 => ?_⟩, fun _ => rfl⟩
    simp only at h0
    simp only [BufState.chan]
    rw [hbuffer]
    rcases hstop with hempty | hfrozen | hneg
    · -- the buffer was flushed: the new bytes follow the old ones
      rw [hempty, List.nil_append, hsent, ← hchan, hempty, List.append_nil]
    · -- frozen: nothing was written, all of it is buffered
      have hq := putLoop_frozen (T := T) data.length data hfrozen
      rw [hq] at hr
      cases hr
      rw [hq, ← hchan, List.append_assoc]
    · omega

/- Why the transport must not answer `0`: `buffered_flush` then stops without
an error (`qemu_file_set_error(s->file, 0)`), and the new bytes go out ahead
of the buffered one. -/
example :
    let T : Transport :=
      ⟨fun k len => if k = 0 then 0 else len, fun k len => by split <;> omega, fun _ => 0, fun _ => Int.le_refl 0⟩
    let s : BufState := ⟨true, [], 0, 0, false, 0, 50, [1], 0, []⟩
    (bufferedPutBuffer T [2] s).2.chan = [2, 1] ∧ (bufferedPutBuffer T [2] s).2.lastError = 0 := by
  decide

/-- `qemu_fflush`: the `QEMUFile`'s buffer moves to the buffered file. -/
theorem qemuFflush_extends (hT : T.NonZero) (s : BufState) :
    Extends BufState.stream s (qemuFflush T s) [] := by
  unfold qemuFflush
  split_ifs with hw
  swap
  · exact Extends.refl _ _
  obtain ⟨hput, -⟩ := bufferedPutBuffer_extends hT s.buf s
  obtain ⟨-, hbuf, -⟩ := bufferedPutBuffer_frame (T := T) s.buf s
  dsimp only
  split_ifs with hpos
  · -- the buffered file took the whole `QEMUFile` buffer
    refine ⟨hput.nonpos, hput.sticky, fun h0 => ?_⟩
    have hg := hput.grows h0
    simp only [BufState.stream, BufState.chan] at hg ⊢
    rw [hg]
  · exact Extends.of_neg _ _ (by simp [EINVAL])

/-- Where the `QEMUFile` buffer holds bytes only when the file is open for
writing, `qemu_fflush` empties it. -/
theorem qemuFflush_buf {s : BufState} (hw : s.buf ≠ [] → s.isWrite = true) :
    (qemuFflush T s).buf = [] := by
  unfold qemuFflush
  split_ifs with h
  · rfl
  · -- nothing to flush: the buffer is empty already
    by_contra hne
    exact h ⟨hw hne, hne⟩

end Functions

/-! ## The invariant of the write path -/

/-- What every state of the channel keeps: the `QEMUFile` buffer has room for
one more byte, holds bytes only while the file is open for writing (so the
`abort()` of `qemu_put_byte` and `qemu_put_buffer` is never reached), and an
error, once reported, is negative. -/
structure BufInv (s : BufState) : Prop where
  buf_lt : s.buf.length < IO_BUF_SIZE
  isWrite_of_ne : s.buf ≠ [] → s.isWrite = true
  nonpos : s.lastError ≤ 0

section Inv

variable {T : Transport} {s s' : BufState}

theorem BufInv.not_pending (hi : BufInv s) : ¬ReadBufferPending s :=
  fun ⟨_, hw, hne⟩ => by simp [hi.isWrite_of_ne hne] at hw

theorem BufInv.of_sameFile (hi : BufInv s) (hs : s'.SameFile s) (hn : s'.lastError ≤ 0) :
    BufInv s' :=
  ⟨hs.2.1 ▸ hi.buf_lt, hs.1 ▸ hs.2.1 ▸ hi.isWrite_of_ne, hn⟩

/-- A state that differs only in fields the stream does not show extends it
by nothing. -/
theorem Extends.of_eq {view : BufState → List UInt8} (hl : s'.lastError = s.lastError)
    (hv : view s' = view s) : Extends view s s' [] :=
  ⟨fun h => hl ▸ h, fun h => hl ▸ h, fun _ => by rw [hv, List.append_nil]⟩

/-- What leaves the `QEMUFile` buffer alone and adds nothing to the buffered
file's channel adds nothing to the stream. -/
theorem Extends.stream_of_chan (h : Extends BufState.chan s s' []) (hb : s'.buf = s.buf) :
    Extends BufState.stream s s' [] :=
  ⟨h.nonpos, h.sticky, fun h0 => by
    have hg := h.grows h0
    simp only [BufState.chan, List.append_nil] at hg
    simp only [BufState.stream, List.append_nil]
    rw [hg, hb]⟩

theorem qemuFopenOpsBuffered_inv (bytesPerSec : ℕ) :
    BufInv (qemuFopenOpsBuffered bytesPerSec) ∧ (qemuFopenOpsBuffered bytesPerSec).stream = [] :=
  ⟨⟨show 0 < IO_BUF_SIZE by decide, fun h => absurd rfl h, Int.le_refl 0⟩, rfl⟩

/-- `qemu_fflush` keeps the invariant: it leaves the `QEMUFile` buffer empty,
whether or not it was full. -/
theorem qemuFflush_inv (hT : T.NonZero) (hw : s.buf ≠ [] → s.isWrite = true) (hn : s.lastError ≤ 0) :
    BufInv (qemuFflush T s) := by
  have hbuf : (qemuFflush T s).buf = [] := qemuFflush_buf hw
  refine ⟨?_, fun hne => absurd hbuf hne, (qemuFflush_extends hT s).nonpos hn⟩
  rw [hbuf]
  decide

/-- The step `qemu_put_byte` and each round of `qemu_put_buffer` take: the
bytes go to the `QEMUFile` buffer, which is flushed once it is full. -/
theorem putFile_extends (hT : T.NonZero) (hi : BufInv s) (d : List UInt8) (s₁ : BufState)
    (hs₁ : s₁ = { s with buf := s.buf ++ d, isWrite := true }) :
    BufInv (if IO_BUF_SIZE ≤ s₁.buf.length then qemuFflush T s₁ else s₁) ∧
      Extends BufState.stream s (if IO_BUF_SIZE ≤ s₁.buf.length then qemuFflush T s₁ else s₁) d := by
  have he : Extends BufState.stream s s₁ d := by
    subst hs₁
    exact ⟨id, id, fun _ => by simp [BufState.stream]⟩
  have hw : s₁.isWrite = true := by rw [hs₁]
  have hn : s₁.lastError ≤ 0 := by rw [hs₁]; exact hi.nonpos
  split_ifs with hfull
  · have := he.trans (qemuFflush_extends hT s₁)
    rw [List.append_nil] at this
    exact ⟨qemuFflush_inv hT (fun _ => hw) hn, this⟩
  · -- the buffer is not full: nothing is flushed
    refine ⟨⟨by omega, fun _ => hw, hn⟩, he⟩

theorem qemuPutByte_extends (hT : T.NonZero) {v : ℕ} (hi : BufInv s)
    (h : qemuPutByte T v s = some s') :
    BufInv s' ∧ Extends BufState.stream s s' [v.toUInt8] := by
  unfold qemuPutByte at h
  rw [if_neg hi.not_pending, Option.some.injEq] at h
  subst h
  exact putFile_extends hT hi _ _ rfl

/-- `qemu_put_buffer`'s loop, with fuel for one round a byte: while no error
is reported, the stream goes on with all of the bytes. -/
theorem putBufferLoop_extends (hT : T.NonZero) {fuel : ℕ} {data : List UInt8} (hi : BufInv s)
    (hfuel : data.length ≤ fuel) :
    BufInv (putBufferLoop T fuel data s) ∧ Extends BufState.stream s (putBufferLoop T fuel data s) data := by
  induction fuel generalizing data s with
  | zero =>
    rw [List.eq_nil_of_length_eq_zero (Nat.le_zero.mp hfuel)]
    exact ⟨hi, Extends.refl _ _⟩
  | succ fuel ih =>
    rw [putBufferLoop]
    by_cases hc : s.lastError = 0 ∧ data ≠ []
    · rw [if_pos hc]
      dsimp only
      -- a round copies `l` bytes, one at least since the buffer has room
      have hlt := hi.buf_lt
      have hpos : 0 < data.length := List.length_pos_iff.mpr hc.2
      obtain ⟨hi₁, he₁⟩ :=
        putFile_extends hT hi (data.take (min (IO_BUF_SIZE - s.buf.length) data.length)) _ rfl
      have hfuel' : (data.drop (min (IO_BUF_SIZE - s.buf.length) data.length)).length ≤ fuel := by
        rw [List.length_drop]
        omega
      obtain ⟨hi₂, he₂⟩ := ih hi₁ hfuel'
      have := he₁.trans he₂
      rw [List.take_append_drop] at this
      exact ⟨hi₂, this⟩
    · rw [if_neg hc]
      by_cases he : s.lastError = 0
      · have hnil : data = [] := by
          by_contra hne
          exact hc ⟨he, hne⟩
        rw [hnil]
        exact ⟨hi, Extends.refl _ _⟩
      · exact ⟨hi, Extends.of_error _ _ he id⟩

theorem qemuPutBuffer_extends (hT : T.NonZero) {data : List UInt8} (hi : BufInv s)
    (h : qemuPutBuffer T data s = some s') :
    BufInv s' ∧ Extends BufState.stream s s' data := by
  unfold qemuPutBuffer at h
  rw [if_neg hi.not_pending, Option.some.injEq] at h
  subst h
  exact putBufferLoop_extends hT hi le_rfl

theorem qemuFilePutNotify_extends (hT : T.NonZero) (hi : BufInv s) :
    BufInv (qemuFilePutNotify T s) ∧ Extends BufState.stream s (qemuFilePutNotify T s) [] := by
  obtain ⟨hput, -⟩ := bufferedPutBuffer_extends hT [] s
  have hframe := bufferedPutBuffer_frame (T := T) [] s
  exact ⟨hi.of_sameFile hframe (hput.nonpos hi.nonpos), hput.stream_of_chan hframe.2.1⟩

theorem bufferedRateTick_extends (hT : T.NonZero) (hi : BufInv s)
    (h : bufferedRateTick T s = some s') :
    BufInv s' ∧ Extends BufState.stream s s' [] := by
  unfold bufferedRateTick at h
  split_ifs at h with he hf
  · rw [Option.some.injEq] at h
    subst h
    exact ⟨hi, Extends.refl _ _⟩
  · -- a new tick, then a flush
    rw [Option.some.injEq] at h
    subst h
    have h₀ : Extends BufState.stream s { s with bytesXfer := 0 } [] := Extends.of_eq rfl rfl
    have h₁ := h₀.trans (bufferedFlush_extends hT _)
    exact ⟨hi.of_sameFile (bufferedFlush_frame _) (h₁.nonpos hi.nonpos), h₁⟩

theorem bufferedSetRateLimit_extends {newRate : ℤ} (hi : BufInv s) :
    BufInv (bufferedSetRateLimit newRate s) ∧
      Extends BufState.stream s (bufferedSetRateLimit newRate s) [] := by
  unfold bufferedSetRateLimit
  split_ifs
  · exact ⟨hi, Extends.refl _ _⟩
  · exact ⟨⟨hi.buf_lt, hi.isWrite_of_ne, hi.nonpos⟩, Extends.of_eq rfl rfl⟩

end Inv

/-! ## Runs -/

section Runs

variable {T : Transport} {s s' : BufState}

/-- One operation keeps the invariant and puts its bytes on the stream. -/
theorem bufStep_extends (hT : T.NonZero) {op : BufOp} (hi : BufInv s) (h : bufStep T s op = some s') :
    BufInv s' ∧ Extends BufState.stream s s' op.bytes := by
  cases op with
  | putByte v => exact qemuPutByte_extends hT hi h
  | putBuffer data => exact qemuPutBuffer_extends hT hi h
  | putNotify =>
    cases h
    exact qemuFilePutNotify_extends hT hi
  | rateTick => exact bufferedRateTick_extends hT hi h
  | setRateLimit r =>
    cases h
    exact bufferedSetRateLimit_extends hi

/-- An operation ends the run only where a tick finds an error: the write
path never reaches the `abort()` of `qemu_put_byte` or `qemu_put_buffer`. -/
theorem bufStep_eq_none {op : BufOp} (hi : BufInv s) (h : bufStep T s op = none) :
    op = .rateTick ∧ s.lastError ≠ 0 := by
  cases op with
  | putByte v =>
    simp only [bufStep, qemuPutByte, if_neg hi.not_pending] at h
    cases h
  | putBuffer data =>
    simp only [bufStep, qemuPutBuffer, if_neg hi.not_pending] at h
    cases h
  | putNotify => cases h
  | rateTick =>
    simp only [bufStep, bufferedRateTick] at h
    split_ifs at h with he
    exact ⟨rfl, he⟩
  | setRateLimit r => cases h

theorem bufRun_cons (op : BufOp) (ops : List BufOp) (s : BufState) :
    bufRun T (op :: ops) s = (bufStep T s op).bind (bufRun T ops) :=
  rfl

/-- The run lemma: from a state that keeps the invariant, a run keeps it and
puts the bytes of its operations on the stream, in order. -/
theorem bufRun_extends (hT : T.NonZero) (ops : List BufOp) (hi : BufInv s)
    (h : bufRun T ops s = some s') :
    BufInv s' ∧ Extends BufState.stream s s' (ops.flatMap BufOp.bytes) := by
  induction ops generalizing s with
  | nil =>
    cases h
    exact ⟨hi, Extends.refl _ _⟩
  | cons op ops ih =>
    rw [bufRun_cons, Option.bind_eq_some_iff] at h
    obtain ⟨s₁, h₁, hrest⟩ := h
    obtain ⟨hi₁, he₁⟩ := bufStep_extends hT hi h₁
    obtain ⟨hi', he'⟩ := ih hi₁ hrest
    exact ⟨hi', List.flatMap_cons ▸ he₁.trans he'⟩

/-- A run ends early only where a rate tick finds an error reported, which is
where `buffered_rate_tick` calls `buffered_close`. -/
theorem bufRun_eq_none (hT : T.NonZero) (ops : List BufOp) (hi : BufInv s)
    (h : bufRun T ops s = none) :
    ∃ pre post s₁, ops = pre ++ .rateTick :: post ∧ bufRun T pre s = some s₁ ∧ s₁.lastError ≠ 0 := by
  induction ops generalizing s with
  | nil => cases h
  | cons op ops ih =>
    rw [bufRun_cons] at h
    rcases h₁ : bufStep T s op with _ | s₁
    · -- the first operation ends the run
      obtain ⟨rfl, he⟩ := bufStep_eq_none hi h₁
      exact ⟨[], ops, s, rfl, rfl, he⟩
    · rw [h₁, Option.bind_some] at h
      obtain ⟨pre, post, s₂, rfl, hpre, he⟩ := ih (bufStep_extends hT hi h₁).1 h
      exact ⟨op :: pre, post, s₂, rfl, by rw [bufRun_cons, h₁, Option.bind_some, hpre], he⟩

/-- After an error, a byte is still put; the next tick ends the run. -/
theorem bufRun_eq_none_tick :
    let s : BufState := ⟨true, [], 0, -22, false, 0, 50, [], 1, []⟩
    BufInv s ∧ bufRun Transport.takeAll [.putByte 7, .rateTick] s = none ∧
      ∃ pre post s₁, [BufOp.putByte 7, .rateTick] = pre ++ .rateTick :: post ∧
        bufRun Transport.takeAll pre s = some s₁ ∧ s₁.lastError ≠ 0 :=
  have hi : BufInv ⟨true, [], 0, -22, false, 0, 50, [], 1, []⟩ := ⟨by decide, fun _ => rfl, by decide⟩
  have h : bufRun Transport.takeAll [.putByte 7, .rateTick] ⟨true, [], 0, -22, false, 0, 50, [], 1, []⟩ =
      none := rfl
  ⟨hi, h, bufRun_eq_none Transport.takeAll_nonZero _ hi h⟩

/-- While no error is reported, the bytes the transport took, then the
buffered file's buffer, then the `QEMUFile` buffer, are the bytes put by the
run since `qemu_fopen_ops_buffered`, each once and in order; and the
`QEMUFile` buffer never fills and never holds bytes of a read. -/
theorem bufRun_conserve (hT : T.NonZero) (bytesPerSec : ℕ) (ops : List BufOp)
    (h : bufRun T ops (qemuFopenOpsBuffered bytesPerSec) = some s') :
    BufInv s' ∧ (s'.lastError = 0 → s'.sent ++ s'.buffer ++ s'.buf = ops.flatMap BufOp.bytes) := by
  obtain ⟨hinit, hnil⟩ := qemuFopenOpsBuffered_inv bytesPerSec
  obtain ⟨hi, he⟩ := bufRun_extends hT ops hinit h
  refine ⟨hi, fun h0 => ?_⟩
  have := he.grows h0
  rwa [hnil, List.nil_append] at this

theorem bufRun_conserve_takeAll :
    let ops := [BufOp.putByte 1, .putBuffer [2, 3], .rateTick, .setRateLimit 500]
    let s : BufState := ⟨true, [1, 2, 3], 0, 0, false, 0, 50, [], 0, []⟩
    bufRun Transport.takeAll ops (qemuFopenOpsBuffered 1000) = some s ∧
      BufInv s ∧ (s.lastError = 0 → s.sent ++ s.buffer ++ s.buf = ops.flatMap BufOp.bytes) :=
  have h : bufRun Transport.takeAll [BufOp.putByte 1, .putBuffer [2, 3], .rateTick, .setRateLimit 500]
      (qemuFopenOpsBuffered 1000) = some ⟨true, [1, 2, 3], 0, 0, false, 0, 50, [], 0, []⟩ := rfl
  ⟨h, bufRun_conserve Transport.takeAll_nonZero 1000 _ h⟩

/-- A failed wait is reported as a negative error. -/
theorem migrateFdWaitForUnfreeze_extends (hi : BufInv s) :
    BufInv (migrateFdWaitForUnfreeze T s) ∧ Extends BufState.stream s (migrateFdWaitForUnfreeze T s) [] ∧
      (migrateFdWaitForUnfreeze T s).buf = s.buf := by
  unfold migrateFdWaitForUnfreeze
  split_ifs with hw
  · exact ⟨hi, Extends.refl _ _, rfl⟩
  · have hneg : T.wait s.calls < 0 := by
      have := T.wait_nonpos s.calls
      omega
    exact ⟨⟨hi.buf_lt, hi.isWrite_of_ne, Int.le_of_lt hneg⟩, Extends.of_neg _ _ hneg, rfl⟩

/-- `buffered_close`'s loop ends with the buffer empty, unless an error is
reported. -/
theorem closeLoop_extends (hT : T.NonZero) {fuel : ℕ} (hi : BufInv s) (h : closeLoop T fuel s = some s') :
    BufInv s' ∧ Extends BufState.stream s s' [] ∧ s'.buf = s.buf ∧ (s'.lastError = 0 → s'.buffer = []) := by
  induction fuel generalizing s with
  | zero => cases h
  | succ fuel ih =>
    rw [closeLoop] at h
    have he₁ := bufferedFlush_extends hT s
    have hframe := bufferedFlush_frame (T := T) s
    have hi₁ := hi.of_sameFile hframe (he₁.nonpos hi.nonpos)
    dsimp only at h
    split_ifs at h with hc hf
    · -- a flush that left the output frozen, then a wait
      obtain ⟨hi₂, he₂, hbuf₂⟩ := migrateFdWaitForUnfreeze_extends (T := T) hi₁
      obtain ⟨hi', he', hbuf, hempty⟩ := ih hi₂ h
      exact ⟨hi', (he₁.trans he₂).trans he', hbuf.trans (hbuf₂.trans hframe.2.1), hempty⟩
    · obtain ⟨hi', he', hbuf, hempty⟩ := ih hi₁ h
      exact ⟨hi', he₁.trans he', hbuf.trans hframe.2.1, hempty⟩
    · rw [Option.some.injEq] at h
      subst h
      refine ⟨hi, Extends.refl _ _, rfl, fun h0 => ?_⟩
      by_contra hne
      exact hc ⟨h0, hne⟩

/-- `qemu_fclose`: it returns a value that is not negative exactly when no
error is reported, and then both buffers are empty. -/
theorem qemuFclose_extends (hT : T.NonZero) {fuel : ℕ} {closeRet ret : ℤ} (hi : BufInv s)
    (h : qemuFclose T fuel closeRet s = some (ret, s')) :
    (0 ≤ ret ↔ s'.lastError = 0) ∧ Extends BufState.stream s s' [] ∧
      (s'.lastError = 0 → s'.buffer = [] ∧ s'.buf = []) := by
  unfold qemuFclose at h
  rw [Option.map_eq_some_iff] at h
  obtain ⟨s₂, hclose, hres⟩ := h
  have he₁ := qemuFflush_extends hT s
  have hi₁ := qemuFflush_inv (T := T) hT hi.isWrite_of_ne hi.nonpos
  obtain ⟨hi₂, he₂, hbuf, hempty⟩ := closeLoop_extends hT hi₁ hclose
  have hbuf₁ : (qemuFflush T s).buf = [] := qemuFflush_buf hi.isWrite_of_ne
  have he := he₁.trans he₂
  have hn := hi₂.nonpos
  dsimp only at hres
  split_ifs at hres with hc hl hl <;> rw [Prod.mk.injEq] at hres <;> obtain ⟨rfl, rfl⟩ := hres
  · -- `close` failed: its error is the one reported
    exact ⟨by simp only; omega, Extends.of_neg _ _ hc.1, fun h0 => absurd h0 (Int.ne_of_lt hc.1)⟩
  · simp only at hl
    omega
  · -- an error was reported before
    exact ⟨by omega, he, fun h0 => absurd h0 hl⟩
  · have hl0 : s₂.lastError = 0 := not_not.mp hl
    exact ⟨by omega, he, fun _ => ⟨hempty hl0, hbuf.trans hbuf₁⟩⟩

/-- `qemu_fclose` after a run from `qemu_fopen_ops_buffered` returns a value
that is not negative exactly when no error is reported, and then the
transport has taken every byte put, each once and in order. -/
theorem qemuFclose_sent (hT : T.NonZero) (bytesPerSec : ℕ) (ops : List BufOp) {s : BufState}
    {fuel : ℕ} {closeRet ret : ℤ} (hrun : bufRun T ops (qemuFopenOpsBuffered bytesPerSec) = some s)
    (h : qemuFclose T fuel closeRet s = some (ret, s')) :
    (0 ≤ ret ↔ s'.lastError = 0) ∧ (0 ≤ ret → s'.sent = ops.flatMap BufOp.bytes) := by
  obtain ⟨hinit, -⟩ := qemuFopenOpsBuffered_inv bytesPerSec
  obtain ⟨hi, hrun'⟩ := bufRun_extends hT ops hinit hrun
  obtain ⟨hret, hclose, hempty⟩ := qemuFclose_extends hT hi h
  refine ⟨hret, fun h0 => ?_⟩
  have hl : s'.lastError = 0 := hret.mp h0
  have hg := (hrun'.trans hclose).grows hl
  obtain ⟨hbuffer, hbuf⟩ := hempty hl
  simp only [BufState.stream, hbuffer, hbuf, List.append_nil] at hg
  exact hg

theorem qemuFclose_sent_takeAll :
    let ops := [BufOp.putByte 1, .putBuffer [2, 3], .rateTick, .setRateLimit 500]
    let s : BufState := ⟨true, [1, 2, 3], 0, 0, false, 0, 50, [], 0, []⟩
    let s' : BufState := ⟨true, [], 3, 0, false, 3, 50, [], 1, [1, 2, 3]⟩
    bufRun Transport.takeAll ops (qemuFopenOpsBuffered 1000) = some s ∧
      qemuFclose Transport.takeAll 1 0 s = some (0, s') ∧
      (0 ≤ (0 : ℤ) ↔ s'.lastError = 0) ∧ (0 ≤ (0 : ℤ) → s'.sent = ops.flatMap BufOp.bytes) :=
  have hrun : bufRun Transport.takeAll [BufOp.putByte 1, .putBuffer [2, 3], .rateTick, .setRateLimit 500]
      (qemuFopenOpsBuffered 1000) = some ⟨true, [1, 2, 3], 0, 0, false, 0, 50, [], 0, []⟩ := rfl
  have h : qemuFclose Transport.takeAll 1 0 ⟨true, [1, 2, 3], 0, 0, false, 0, 50, [], 0, []⟩ =
      some (0, ⟨true, [], 3, 0, false, 3, 50, [], 1, [1, 2, 3]⟩) := rfl
  ⟨hrun, h, qemuFclose_sent Transport.takeAll_nonZero 1000 _ hrun h⟩

end Runs


end QemuKvm.Migration.Buffered
