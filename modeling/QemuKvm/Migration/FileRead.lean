import Mathlib.Data.List.Infix
import QemuKvm.Migration.Buffered

/-!
# The reading side of a `QEMUFile` (savevm.c)

An incoming migration reads its stream through the `QEMUFile` buffer:
`qemu_fill_buffer` keeps the bytes not read yet, moves them to the front and
asks the source (`get_buffer`) for as many more as fit; `qemu_peek_byte` and
`qemu_peek_buffer` look ahead and fill the buffer once when it holds too few
bytes; `qemu_file_skip` consumes bytes of the buffer; `qemu_get_byte` and
`qemu_get_buffer` peek and skip. `QemuFile.lean` models the stream itself:
the list of bytes not read yet, with zeros past its end.

The source is a parameter (`Source`): each read delivers some bytes from the
front of what the sender has left, never more than asked, or answers
`-EAGAIN` or an error. The model keeps what the sender has not delivered
yet (`rest`); the bytes not read yet are then the buffered ones after
`buf_index`, then `rest` (`RdState.unread`).

* `rdRun_consumes` — whatever the source answers, every run of reads keeps
  the buffer's bounds (`RdInv`), takes bytes from the front of the stream
  only, never inventing, reordering or replaying one, and `qemu_ftell` is the
  number of bytes taken;
* `getRun_refines` — over a source that blocks until it can deliver,
  `qemu_get_byte`, `qemu_get_buffer` and `qemu_get_be16/32/64` return what
  the stream model returns, and leave its rest, on every run.

Peeks are not refined: `qemu_peek_buffer` reads the source once, so after a
short read it returns fewer bytes than the stream holds, and
`vmstate_subsection_load` then takes a subsection for absent. The file is
one open for reading: `is_write` is `0` and `get_buffer` is set, so the
`abort()` and early-return branches for a writing file are not reached.
-/

namespace QemuKvm.Migration.FileRead

open Buffered (IO_BUF_SIZE EAGAIN)

/-- `EIO`. -/
def EIO : ℤ := 5

/-- The source under a `QEMUFile` open for reading, its `get_buffer`
(`stdio_get_buffer`, `socket_get_buffer`): after `k` reads, with `avail`
bytes left to send, a read of up to `size` bytes answers the number of bytes
it delivered from the front of them, never more than asked or left, or
`-EAGAIN` or another error. -/
structure Source where
  read : ℕ → ℕ → ℕ → ℤ
  read_le_size : ∀ k size avail, read k size avail ≤ size
  read_le_avail : ∀ k size avail, read k size avail ≤ avail

/-- A source that blocks until it can deliver, as `fread` and a blocking
`recv` do while no error occurs: it never answers an error, and a read of
some bytes while some are left delivers one at least. -/
def Source.Blocking (S : Source) : Prop :=
  ∀ k size avail, 0 ≤ S.read k size avail ∧ (0 < size → 0 < avail → 0 < S.read k size avail)

/-- A source that delivers everything it is asked for, as far as there is. -/
def Source.eager : Source :=
  ⟨fun _ size avail => min size avail, fun _ _ _ => by omega, fun _ _ _ => by omega⟩

theorem Source.eager_blocking : Source.eager.Blocking :=
  fun _ _ _ => ⟨by simp only [Source.eager]; omega, fun h₁ h₂ => by simp only [Source.eager]; omega⟩

/-- The fields of the `QEMUFile` the read path uses (`buf` is
`buf[0 .. buf_size)`), the number of reads of the source so far, and the
bytes the sender has not delivered yet. -/
structure RdState where
  buf : List UInt8
  bufIndex : ℕ
  bufOffset : ℕ
  lastError : ℤ
  calls : ℕ
  rest : List UInt8

section Functions

variable (S : Source)

/-- `qemu_fill_buffer`: the unread bytes move to the front of the buffer and
the source is asked for as many more as fit. An answer of `0` is reported as
`-EIO`, `-EAGAIN` is not reported. -/
def qemuFillBuffer (s : RdState) : RdState :=
  let pending := s.buf.drop s.bufIndex
  let len := S.read s.calls (IO_BUF_SIZE - pending.length) s.rest.length
  let s := { s with buf := pending, bufIndex := 0, calls := s.calls + 1 }
  if 0 < len then
    { s with buf := s.buf ++ s.rest.take len.toNat, rest := s.rest.drop len.toNat,
             bufOffset := s.bufOffset + len.toNat }
  else if len = 0 then { s with lastError := - EIO }
  else if len ≠ -EAGAIN then { s with lastError := len }
  else s

/-- `qemu_file_skip`: only bytes that are in the buffer are skipped. -/
def qemuFileSkip (size : ℕ) (s : RdState) : RdState :=
  if s.bufIndex + size ≤ s.buf.length then { s with bufIndex := s.bufIndex + size } else s

/-- `qemu_peek_buffer(f, buf, size, offset)`: the bytes copied, at most
`size`, from `offset` past `buf_index`, after one fill if the buffer holds
fewer. -/
def qemuPeekBuffer (size offset : ℕ) (s : RdState) : List UInt8 × RdState :=
  let s := if (s.buf.length : ℤ) - (s.bufIndex + offset : ℕ) < size then qemuFillBuffer S s else s
  if (s.buf.length : ℤ) - (s.bufIndex + offset : ℕ) ≤ 0 then ([], s)
  else ((s.buf.drop (s.bufIndex + offset)).take size, s)

/-- The loop of `qemu_get_buffer`, with `pending` bytes still to read: it
stops when a peek finds nothing. The fuel bounds the rounds; `pending` is
enough, as a round that goes on reads a byte at least. -/
def getBufferLoop : ℕ → ℕ → RdState → List UInt8 × RdState
  | 0, _, s => ([], s)
  | fuel + 1, pending, s =>
    if pending = 0 then ([], s)
    else
      let r := qemuPeekBuffer S pending 0 s
      if r.1 = [] then ([], r.2)
      else
        let r' := getBufferLoop fuel (pending - r.1.length) (qemuFileSkip r.1.length r.2)
        (r.1 ++ r'.1, r'.2)

/-- `qemu_get_buffer(f, buf, size)` with its `int size`: nothing for a
negative size. -/
def qemuGetBuffer (size : ℕ) (s : RdState) : List UInt8 × RdState :=
  let size := if size < 2 ^ 31 then size else 0
  getBufferLoop S size size s

/-- `qemu_peek_byte(f, offset)`: `0` when the byte is not there after one
fill. -/
def qemuPeekByte (offset : ℕ) (s : RdState) : ℕ × RdState :=
  if s.bufIndex + offset < s.buf.length then ((s.buf.getD (s.bufIndex + offset) 0).toNat, s)
  else
    let s := qemuFillBuffer S s
    if s.bufIndex + offset < s.buf.length then ((s.buf.getD (s.bufIndex + offset) 0).toNat, s)
    else (0, s)

/-- `qemu_get_byte`. -/
def qemuGetByte (s : RdState) : ℕ × RdState :=
  let r := qemuPeekByte S 0 s
  (r.1, qemuFileSkip 1 r.2)

/-- `qemu_get_be16`. -/
def qemuGetBe16 (s : RdState) : ℕ × RdState :=
  let r1 := qemuGetByte S s
  let r0 := qemuGetByte S r1.2
  (r1.1 <<< 8 ||| r0.1, r0.2)

/-- `qemu_get_be32`. -/
def qemuGetBe32 (s : RdState) : ℕ × RdState :=
  let r3 := qemuGetByte S s
  let r2 := qemuGetByte S r3.2
  let r1 := qemuGetByte S r2.2
  let r0 := qemuGetByte S r1.2
  (r3.1 <<< 24 ||| r2.1 <<< 16 ||| r1.1 <<< 8 ||| r0.1, r0.2)

/-- `qemu_get_be64`. -/
def qemuGetBe64 (s : RdState) : ℕ × RdState :=
  let hi := qemuGetBe32 S s
  let lo := qemuGetBe32 S hi.2
  (hi.1 <<< 32 ||| lo.1, lo.2)

/-- `qemu_ftell`: the position of the next byte to read in the stream. -/
def qemuFtell (s : RdState) : ℤ := s.bufOffset - s.buf.length + s.bufIndex

/-- `qemu_fopen_ops` for reading, over a sender with `data` to send. -/
def qemuFopenOps (data : List UInt8) : RdState := ⟨[], 0, 0, 0, 0, data⟩

end Functions

/-! ## Runs of reads -/

/-- What a read of the stream returns. -/
inductive RdVal where
  | num (v : ℕ)
  | bytes (b : List UInt8)

/-- The reads that consume the stream, as the loaders of the devices and of
RAM call them. -/
inductive GetOp where
  | getByte
  | getBuffer (size : ℕ)
  | getBe16
  | getBe32
  | getBe64

/-- The reads of the stream, with the look-ahead of
`vmstate_subsection_load`. -/
inductive RdOp where
  | get (op : GetOp)
  | peekByte (offset : ℕ)
  | peekBuffer (size offset : ℕ)
  | skip (size : ℕ)

/-- A read through the `QEMUFile`. -/
def GetOp.step (S : Source) (s : RdState) : GetOp → RdVal × RdState
  | .getByte => let r := qemuGetByte S s; (.num r.1, r.2)
  | .getBuffer size => let r := qemuGetBuffer S size s; (.bytes r.1, r.2)
  | .getBe16 => let r := qemuGetBe16 S s; (.num r.1, r.2)
  | .getBe32 => let r := qemuGetBe32 S s; (.num r.1, r.2)
  | .getBe64 => let r := qemuGetBe64 S s; (.num r.1, r.2)

/-- The same read of the stream model (`QemuFile.lean`). -/
def GetOp.absStep (f : List UInt8) : GetOp → RdVal × List UInt8
  | .getByte => let r := Migration.qemuGetByte f; (.num r.1, r.2)
  | .getBuffer size => let r := Migration.qemuGetBuffer f size; (.bytes r.1, r.2)
  | .getBe16 => let r := Migration.qemuGetBe16 f; (.num r.1, r.2)
  | .getBe32 => let r := Migration.qemuGetBe32 f; (.num r.1, r.2)
  | .getBe64 => let r := Migration.qemuGetBe64 f; (.num r.1, r.2)

def RdOp.step (S : Source) (s : RdState) : RdOp → RdVal × RdState
  | .get op => op.step S s
  | .peekByte offset => let r := qemuPeekByte S offset s; (.num r.1, r.2)
  | .peekBuffer size offset => let r := qemuPeekBuffer S size offset s; (.bytes r.1, r.2)
  | .skip size => (.bytes [], qemuFileSkip size s)

/-- A run of reads through the `QEMUFile`: the values read and the final
state. -/
def getRun (S : Source) : List GetOp → RdState → List RdVal × RdState
  | [], s => ([], s)
  | op :: ops, s =>
    let r := op.step S s
    let r' := getRun S ops r.2
    (r.1 :: r'.1, r'.2)

/-- A run of reads of the stream model. -/
def absRun : List GetOp → List UInt8 → List RdVal × List UInt8
  | [], f => ([], f)
  | op :: ops, f =>
    let r := op.absStep f
    let r' := absRun ops r.2
    (r.1 :: r'.1, r'.2)

def rdRun (S : Source) : List RdOp → RdState → List RdVal × RdState
  | [], s => ([], s)
  | op :: ops, s =>
    let r := op.step S s
    let r' := rdRun S ops r.2
    (r.1 :: r'.1, r'.2)

/-! ## The bytes not read yet -/

/-- The buffered bytes after `buf_index`, then what the sender has left. -/
def RdState.unread (s : RdState) : List UInt8 := s.buf.drop s.bufIndex ++ s.rest

/-- The bounds every state keeps: `buf_index` within `buf_size`, which is
within `IO_BUF_SIZE`; the `memmove` and `memcpy` of the read path stay
inside the buffer. -/
structure RdInv (s : RdState) : Prop where
  index_le : s.bufIndex ≤ s.buf.length
  size_le : s.buf.length ≤ IO_BUF_SIZE

section Fill

variable {S : Source} {s : RdState}

/-- What `qemu_fill_buffer` does with the source's answer `len`; the error
it reports is read apart (`qemuFillBuffer_lastError`). -/
theorem qemuFillBuffer_fields (s : RdState) {len : ℤ}
    (hlen : S.read s.calls (IO_BUF_SIZE - (s.buf.drop s.bufIndex).length) s.rest.length = len) :
    (qemuFillBuffer S s).buf = s.buf.drop s.bufIndex ++ s.rest.take len.toNat ∧
      (qemuFillBuffer S s).bufIndex = 0 ∧
      (qemuFillBuffer S s).rest = s.rest.drop len.toNat ∧
      (qemuFillBuffer S s).bufOffset = s.bufOffset + len.toNat := by
  unfold qemuFillBuffer
  dsimp only
  rw [hlen]
  by_cases hpos : 0 < len
  · rw [if_pos hpos]
    exact ⟨rfl, rfl, rfl, rfl⟩
  · -- nothing was delivered: `len.toNat` is `0`
    have hz : len.toNat = 0 := Int.toNat_of_nonpos (by omega)
    rw [if_neg hpos, hz, List.take_zero, List.append_nil, List.drop_zero, Nat.add_zero]
    split_ifs <;> exact ⟨rfl, rfl, rfl, rfl⟩

/-- A fill moves bytes from the sender to the buffer: the bytes not read yet
stay the same. -/
theorem qemuFillBuffer_unread (s : RdState) : (qemuFillBuffer S s).unread = s.unread := by
  obtain ⟨hbuf, hidx, hrest, -⟩ := qemuFillBuffer_fields (S := S) s rfl
  simp only [RdState.unread, hbuf, hidx, hrest, List.drop_zero, List.append_assoc,
    List.take_append_drop]

theorem qemuFillBuffer_inv (hi : RdInv s) : RdInv (qemuFillBuffer S s) := by
  obtain ⟨hbuf, hidx, -, -⟩ := qemuFillBuffer_fields (S := S) s rfl
  have hle := S.read_le_size s.calls (IO_BUF_SIZE - (s.buf.drop s.bufIndex).length) s.rest.length
  have hsize := hi.size_le
  refine ⟨by rw [hidx]; omega, ?_⟩
  rw [hbuf, List.length_append, List.length_drop, List.length_take]
  rw [List.length_drop] at hle
  omega

/-- A fill keeps the number of bytes the source delivered and has left. -/
theorem qemuFillBuffer_total (s : RdState) :
    (qemuFillBuffer S s).bufOffset + (qemuFillBuffer S s).rest.length =
      s.bufOffset + s.rest.length := by
  have hav := S.read_le_avail s.calls (IO_BUF_SIZE - (s.buf.drop s.bufIndex).length) s.rest.length
  generalize hlen : S.read s.calls (IO_BUF_SIZE - (s.buf.drop s.bufIndex).length) s.rest.length = len
    at hav
  obtain ⟨-, -, hrest, hoff⟩ := qemuFillBuffer_fields (S := S) s hlen
  rw [hrest, hoff, List.length_drop]
  omega

/-- Over a blocking source, a fill with room in the buffer brings a byte at
least, while the sender has some left. -/
theorem qemuFillBuffer_grows (hS : S.Blocking) (hroom : (s.buf.drop s.bufIndex).length < IO_BUF_SIZE)
    (hrest : s.rest ≠ []) : (s.buf.drop s.bufIndex).length < (qemuFillBuffer S s).buf.length := by
  obtain ⟨hbuf, -, -, -⟩ := qemuFillBuffer_fields (S := S) s rfl
  have hpos := (hS s.calls (IO_BUF_SIZE - (s.buf.drop s.bufIndex).length) s.rest.length).2
    (by omega) (List.length_pos_iff.mpr hrest)
  have hav := S.read_le_avail s.calls (IO_BUF_SIZE - (s.buf.drop s.bufIndex).length) s.rest.length
  rw [hbuf, List.length_append, List.length_take]
  omega

end Fill

/-! ## What each read does to the stream -/

/-- From `s` to `s'` the reader took bytes from the front of the stream only
and kept its bounds, and the source's bytes, delivered or not, are the same. -/
structure Consumes (s s' : RdState) : Prop where
  inv : RdInv s'
  suffix : s'.unread <:+ s.unread
  total : s'.bufOffset + s'.rest.length = s.bufOffset + s.rest.length

section Consumes

variable {s₁ s₂ s₃ : RdState}

theorem Consumes.refl (hi : RdInv s₁) : Consumes s₁ s₁ := ⟨hi, List.suffix_refl _, rfl⟩

theorem Consumes.trans (h₁ : Consumes s₁ s₂) (h₂ : Consumes s₂ s₃) : Consumes s₁ s₃ :=
  ⟨h₂.inv, h₂.suffix.trans h₁.suffix, h₂.total.trans h₁.total⟩

end Consumes

section Reads

variable {S : Source} {s : RdState}

theorem qemuFillBuffer_consumes (hi : RdInv s) : Consumes s (qemuFillBuffer S s) :=
  ⟨qemuFillBuffer_inv hi, by rw [qemuFillBuffer_unread], qemuFillBuffer_total s⟩

/-- Skipping bytes that are in the buffer drops them from the front of the
stream. -/
theorem qemuFileSkip_unread {n : ℕ} (h : s.bufIndex + n ≤ s.buf.length) :
    (qemuFileSkip n s).unread = s.unread.drop n := by
  have hn : n ≤ (s.buf.drop s.bufIndex).length := by
    rw [List.length_drop]
    omega
  unfold qemuFileSkip
  rw [if_pos h]
  simp only [RdState.unread]
  rw [List.drop_append_of_le_length hn, List.drop_drop]

theorem qemuFileSkip_consumes (hi : RdInv s) (n : ℕ) : Consumes s (qemuFileSkip n s) := by
  by_cases h : s.bufIndex + n ≤ s.buf.length
  · have hu := qemuFileSkip_unread h
    unfold qemuFileSkip at hu ⊢
    rw [if_pos h] at hu ⊢
    exact ⟨⟨h, hi.size_le⟩, hu ▸ List.drop_suffix _ _, rfl⟩
  · unfold qemuFileSkip
    rw [if_neg h]
    exact Consumes.refl hi

/-- The next byte of the buffer is the next byte of the stream, and skipping
it leaves the rest. -/
theorem unread_eq_cons (h : s.bufIndex < s.buf.length) :
    s.unread = s.buf.getD s.bufIndex 0 :: (qemuFileSkip 1 s).unread := by
  rw [qemuFileSkip_unread h, RdState.unread, List.drop_eq_getElem_cons h, List.getD_eq_getElem?_getD,
    List.getElem?_eq_getElem h, Option.getD_some, List.cons_append, List.drop_succ_cons,
    List.drop_zero]

/-- The state `qemu_peek_buffer` leaves: filled once if the buffer held too
few bytes. -/
theorem qemuPeekBuffer_state (size offset : ℕ) (s : RdState) :
    ((s.buf.length : ℤ) - (s.bufIndex + offset : ℕ) < size ∧
        (qemuPeekBuffer S size offset s).2 = qemuFillBuffer S s) ∨
      (¬(s.buf.length : ℤ) - (s.bufIndex + offset : ℕ) < size ∧ (qemuPeekBuffer S size offset s).2 = s) := by
  unfold qemuPeekBuffer
  dsimp only
  by_cases h : (s.buf.length : ℤ) - (s.bufIndex + offset : ℕ) < size
  · refine .inl ⟨h, ?_⟩
    rw [if_pos h]
    split_ifs <;> rfl
  · refine .inr ⟨h, ?_⟩
    rw [if_neg h]
    split_ifs <;> rfl

/-- The bytes `qemu_peek_buffer` copies, read off the state it leaves. -/
theorem qemuPeekBuffer_fst (size offset : ℕ) (s : RdState) :
    (qemuPeekBuffer S size offset s).1 =
      if ((qemuPeekBuffer S size offset s).2.buf.length : ℤ) -
          ((qemuPeekBuffer S size offset s).2.bufIndex + offset : ℕ) ≤ 0 then []
      else ((qemuPeekBuffer S size offset s).2.buf.drop
        ((qemuPeekBuffer S size offset s).2.bufIndex + offset)).take size := by
  unfold qemuPeekBuffer
  dsimp only
  split_ifs <;> rfl

theorem qemuPeekBuffer_consumes (hi : RdInv s) (size offset : ℕ) :
    Consumes s (qemuPeekBuffer S size offset s).2 ∧ (qemuPeekBuffer S size offset s).2.unread = s.unread := by
  rcases qemuPeekBuffer_state (S := S) size offset s with ⟨-, h⟩ | ⟨-, h⟩ <;> rw [h]
  · exact ⟨qemuFillBuffer_consumes hi, qemuFillBuffer_unread s⟩
  · exact ⟨Consumes.refl hi, rfl⟩

/-- Whatever the source answers, a peek copies bytes of the stream from
`offset` on, at most `size` of them, from the buffer. -/
theorem qemuPeekBuffer_prefix (hi : RdInv s) (size offset : ℕ) :
    (qemuPeekBuffer S size offset s).1 <+: s.unread.drop offset ∧
      (qemuPeekBuffer S size offset s).1.length ≤ size ∧
      ((qemuPeekBuffer S size offset s).1 ≠ [] →
        (qemuPeekBuffer S size offset s).2.bufIndex + offset + (qemuPeekBuffer S size offset s).1.length ≤
          (qemuPeekBuffer S size offset s).2.buf.length) := by
  obtain ⟨hc, hu⟩ := qemuPeekBuffer_consumes (S := S) hi size offset
  rw [qemuPeekBuffer_fst, ← hu]
  generalize (qemuPeekBuffer S size offset s).2 = s₁ at hc
  split_ifs with hp
  · exact ⟨List.nil_prefix, Nat.zero_le _, fun h => absurd rfl h⟩
  · -- the bytes from `buf_index + offset` are in the buffer
    have hoff : offset ≤ (s₁.buf.drop s₁.bufIndex).length := by
      rw [List.length_drop]
      omega
    have hdrop : s₁.unread.drop offset = s₁.buf.drop (s₁.bufIndex + offset) ++ s₁.rest := by
      rw [RdState.unread, List.drop_append_of_le_length hoff, List.drop_drop, Nat.add_comm]
    refine ⟨?_, ?_, ?_⟩
    · rw [hdrop]
      exact (List.take_prefix _ _).trans (List.prefix_append _ _)
    · rw [List.length_take]
      omega
    · intro _
      rw [List.length_take, List.length_drop]
      omega

/- The copy can be short of what the stream holds: a peek reads the source
once, and a source that delivers a byte at a time leaves two of the three
bytes `vmstate_subsection_load` asks for at offset `2`, so it takes the
subsection for absent. -/
example :
    let S : Source := ⟨fun _ size avail => min 1 (min size avail), fun _ _ _ => by omega,
      fun _ _ _ => by omega⟩
    (qemuPeekBuffer S 3 2 ⟨[5, 3], 0, 2, 0, 0, [97, 98, 99]⟩).1 = [97] := by
  decide

/-- Over a blocking source, a peek at the front of the stream finds nothing
only at its end. -/
theorem qemuPeekBuffer_eq_nil (hS : S.Blocking) (hi : RdInv s) {size : ℕ} (hsize : 0 < size)
    (h : (qemuPeekBuffer S size 0 s).1 = []) : s.unread = [] := by
  rw [qemuPeekBuffer_fst] at h
  have hinv := (qemuPeekBuffer_consumes (S := S) hi size 0).1.inv
  split_ifs at h with hp
  · rcases qemuPeekBuffer_state (S := S) size 0 s with ⟨hlt, hs⟩ | ⟨hge, hs⟩
    · -- the fill brought nothing: the buffer was empty and the sender has nothing left
      rw [hs] at hp
      obtain ⟨-, hidx, -, -⟩ := qemuFillBuffer_fields (S := S) s rfl
      rw [hidx] at hp
      have hempty : (qemuFillBuffer S s).buf.length = 0 := by omega
      have hbuf : (s.buf.drop s.bufIndex).length = 0 := by
        obtain ⟨hb, -, -, -⟩ := qemuFillBuffer_fields (S := S) s rfl
        rw [hb, List.length_append] at hempty
        omega
      have hrest : s.rest = [] := by
        by_contra hne
        have := qemuFillBuffer_grows hS (by rw [hbuf]; decide) hne
        omega
      rw [RdState.unread, List.eq_nil_of_length_eq_zero hbuf, hrest, List.append_nil]
    · rw [hs] at hp
      omega
  · -- a copy of at least one byte is not empty
    rw [List.take_eq_nil_iff] at h
    rcases h with h | h
    · omega
    · have := congrArg List.length h
      rw [List.length_drop, List.length_nil] at this
      omega

/-- The loop of `qemu_get_buffer` returns exactly the bytes it takes from the
front of the stream, whatever the source answers. -/
theorem getBufferLoop_consumes (hi : RdInv s) (fuel pending : ℕ) :
    Consumes s (getBufferLoop S fuel pending s).2 ∧
      (getBufferLoop S fuel pending s).1 ++ (getBufferLoop S fuel pending s).2.unread = s.unread := by
  induction fuel generalizing pending s with
  | zero => exact ⟨Consumes.refl hi, rfl⟩
  | succ fuel ih =>
    rw [getBufferLoop]
    by_cases h0 : pending = 0
    · rw [if_pos h0]
      exact ⟨Consumes.refl hi, rfl⟩
    rw [if_neg h0]
    dsimp only
    obtain ⟨hc, hu⟩ := qemuPeekBuffer_consumes (S := S) hi pending 0
    obtain ⟨hpre, -, hin⟩ := qemuPeekBuffer_prefix (S := S) hi pending 0
    set r := qemuPeekBuffer S pending 0 s with hr
    by_cases hnil : r.1 = []
    · rw [if_pos hnil]
      exact ⟨hc, hu⟩
    rw [if_neg hnil]
    -- the copied bytes are the front of the stream, and in the buffer: skipping them drops them
    have hskip := qemuFileSkip_unread (n := r.1.length) (s := r.2) (by have := hin hnil; omega)
    have hcs := qemuFileSkip_consumes hc.inv r.1.length
    obtain ⟨hc', hu'⟩ := ih hcs.inv (pending - r.1.length)
    refine ⟨hc.trans (hcs.trans hc'), ?_⟩
    rw [List.append_assoc, hu', hskip, hu]
    have htake : r.1 = s.unread.take r.1.length := by
      rw [List.drop_zero] at hpre
      exact List.prefix_iff_eq_take.mp hpre
    calc r.1 ++ s.unread.drop r.1.length = s.unread.take r.1.length ++ s.unread.drop r.1.length := by
          rw [← htake]
      _ = s.unread := List.take_append_drop _ _

/-- Over a blocking source, the loop of `qemu_get_buffer` returns the next
`pending` bytes of the stream, or all of it if it holds fewer. -/
theorem getBufferLoop_take (hS : S.Blocking) (hi : RdInv s) {fuel pending : ℕ} (hfuel : pending ≤ fuel) :
    (getBufferLoop S fuel pending s).1 = s.unread.take pending := by
  induction fuel generalizing pending s with
  | zero => rw [Nat.le_zero.mp hfuel, List.take_zero]; rfl
  | succ fuel ih =>
    rw [getBufferLoop]
    by_cases h0 : pending = 0
    · rw [if_pos h0, h0, List.take_zero]
    rw [if_neg h0]
    dsimp only
    obtain ⟨hc, hu⟩ := qemuPeekBuffer_consumes (S := S) hi pending 0
    obtain ⟨hpre, hlen, hin⟩ := qemuPeekBuffer_prefix (S := S) hi pending 0
    set r := qemuPeekBuffer S pending 0 s with hr
    by_cases hnil : r.1 = []
    · -- the stream is at its end
      rw [if_pos hnil, qemuPeekBuffer_eq_nil hS hi (Nat.pos_of_ne_zero h0) hnil, List.take_nil]
    rw [if_neg hnil]
    have hpos : 0 < r.1.length := List.length_pos_iff.mpr hnil
    have hskip := qemuFileSkip_unread (n := r.1.length) (s := r.2) (by have := hin hnil; omega)
    have hcs := qemuFileSkip_consumes hc.inv r.1.length
    have htake : r.1 = s.unread.take r.1.length := by
      rw [List.drop_zero] at hpre
      exact List.prefix_iff_eq_take.mp hpre
    rw [ih hcs.inv (by omega), hskip, hu]
    calc r.1 ++ (s.unread.drop r.1.length).take (pending - r.1.length)
        = s.unread.take r.1.length ++ (s.unread.drop r.1.length).take (pending - r.1.length) := by
          rw [← htake]
      _ = s.unread.take (r.1.length + (pending - r.1.length)) := List.take_add.symm
      _ = s.unread.take pending := by rw [Nat.add_sub_cancel' hlen]

/-- Over a blocking source, `qemu_get_buffer` reads what the stream model
reads. -/
theorem qemuGetBuffer_refines (hS : S.Blocking) (hi : RdInv s) (size : ℕ) :
    (qemuGetBuffer S size s).1 = (Migration.qemuGetBuffer s.unread size).1 ∧
      (qemuGetBuffer S size s).2.unread = (Migration.qemuGetBuffer s.unread size).2 := by
  unfold qemuGetBuffer Migration.qemuGetBuffer
  dsimp only
  have ht := getBufferLoop_take hS hi (le_refl (if size < 2 ^ 31 then size else 0))
  have hc := (getBufferLoop_consumes (S := S) hi (if size < 2 ^ 31 then size else 0)
    (if size < 2 ^ 31 then size else 0)).2
  refine ⟨ht, ?_⟩
  rw [ht] at hc
  exact List.append_cancel_left (hc.trans (List.take_append_drop _ _).symm)

theorem qemuFileSkip_of_gt {n : ℕ} (h : s.buf.length < s.bufIndex + n) : qemuFileSkip n s = s := by
  unfold qemuFileSkip
  rw [if_neg (by omega)]

/-- What `qemu_get_byte` can do, whatever the source answers: take the next
byte of the stream, or return `0` and take nothing when the buffer was empty
and the fill brought nothing. -/
theorem qemuGetByte_cases (hi : RdInv s) :
    Consumes s (qemuGetByte S s).2 ∧
      ((∃ b t, s.unread = b :: t ∧ (qemuGetByte S s).1 = b.toNat ∧ (qemuGetByte S s).2.unread = t) ∨
        ((qemuGetByte S s).1 = 0 ∧ (qemuGetByte S s).2.unread = s.unread ∧
          s.buf.length ≤ s.bufIndex ∧ (qemuFillBuffer S s).buf = [])) := by
  unfold qemuGetByte qemuPeekByte
  dsimp only
  simp only [Nat.add_zero]
  by_cases h1 : s.bufIndex < s.buf.length
  · -- the byte is in the buffer
    rw [if_pos h1]
    exact ⟨qemuFileSkip_consumes hi 1, .inl ⟨_, _, unread_eq_cons h1, rfl, rfl⟩⟩
  rw [if_neg h1]
  have hf := qemuFillBuffer_consumes (S := S) hi
  by_cases h2 : (qemuFillBuffer S s).bufIndex < (qemuFillBuffer S s).buf.length
  · -- the fill brought it
    rw [if_pos h2]
    refine ⟨hf.trans (qemuFileSkip_consumes hf.inv 1), .inl ⟨_, _, ?_, rfl, rfl⟩⟩
    rw [← qemuFillBuffer_unread (S := S), unread_eq_cons h2]
  · rw [if_neg h2]
    dsimp only
    rw [qemuFileSkip_of_gt (by omega)]
    obtain ⟨-, hidx, -, -⟩ := qemuFillBuffer_fields (S := S) s rfl
    rw [hidx] at h2
    exact ⟨hf, .inr ⟨rfl, qemuFillBuffer_unread s, by omega,
      List.eq_nil_of_length_eq_zero (by omega)⟩⟩

theorem qemuGetByte_consumes (hi : RdInv s) : Consumes s (qemuGetByte S s).2 :=
  (qemuGetByte_cases hi).1

/-- Over a blocking source, `qemu_get_byte` reads what the stream model
reads: `0` only at the end of the stream. -/
theorem qemuGetByte_refines (hS : S.Blocking) (hi : RdInv s) :
    (qemuGetByte S s).1 = (Migration.qemuGetByte s.unread).1 ∧
      (qemuGetByte S s).2.unread = (Migration.qemuGetByte s.unread).2 := by
  obtain ⟨-, ⟨b, t, hu, hv, ht⟩ | ⟨hv, hu, hlen, hfill⟩⟩ := qemuGetByte_cases (S := S) hi
  · rw [hu, hv, ht]
    exact ⟨rfl, rfl⟩
  · -- the buffer was empty and the fill brought nothing: the stream is at its end
    have hbuf : s.buf.drop s.bufIndex = [] := List.drop_eq_nil_of_le hlen
    have hrest : s.rest = [] := by
      by_contra hne
      have := qemuFillBuffer_grows hS (by rw [hbuf]; decide) hne
      rw [hfill, hbuf] at this
      exact absurd this (Nat.lt_irrefl 0)
    have hend : s.unread = [] := by rw [RdState.unread, hbuf, hrest, List.append_nil]
    rw [hv, hu, hend]
    exact ⟨rfl, rfl⟩

/-! The big-endian reads, as the bytes they read in turn, in the model and in
the stream model. -/

theorem qemuGetBe16_eq (s : RdState) :
    qemuGetBe16 S s = ((qemuGetByte S s).1 <<< 8 ||| (qemuGetByte S (qemuGetByte S s).2).1,
      (qemuGetByte S (qemuGetByte S s).2).2) := rfl

theorem qemuGetBe32_eq (s : RdState) :
    qemuGetBe32 S s = ((qemuGetByte S s).1 <<< 24 ||| (qemuGetByte S (qemuGetByte S s).2).1 <<< 16 |||
      (qemuGetByte S (qemuGetByte S (qemuGetByte S s).2).2).1 <<< 8 |||
      (qemuGetByte S (qemuGetByte S (qemuGetByte S (qemuGetByte S s).2).2).2).1,
      (qemuGetByte S (qemuGetByte S (qemuGetByte S (qemuGetByte S s).2).2).2).2) := rfl

theorem qemuGetBe64_eq (s : RdState) :
    qemuGetBe64 S s = ((qemuGetBe32 S s).1 <<< 32 ||| (qemuGetBe32 S (qemuGetBe32 S s).2).1,
      (qemuGetBe32 S (qemuGetBe32 S s).2).2) := rfl

theorem stream_qemuGetBe16 (f : List UInt8) :
    Migration.qemuGetBe16 f = ((Migration.qemuGetByte f).1 <<< 8 |||
      (Migration.qemuGetByte (Migration.qemuGetByte f).2).1,
      (Migration.qemuGetByte (Migration.qemuGetByte f).2).2) := rfl

theorem stream_qemuGetBe32 (f : List UInt8) :
    Migration.qemuGetBe32 f = ((Migration.qemuGetByte f).1 <<< 24 |||
      (Migration.qemuGetByte (Migration.qemuGetByte f).2).1 <<< 16 |||
      (Migration.qemuGetByte (Migration.qemuGetByte (Migration.qemuGetByte f).2).2).1 <<< 8 |||
      (Migration.qemuGetByte (Migration.qemuGetByte (Migration.qemuGetByte (Migration.qemuGetByte f).2).2).2).1,
      (Migration.qemuGetByte (Migration.qemuGetByte (Migration.qemuGetByte (Migration.qemuGetByte f).2).2).2).2) :=
  rfl

theorem stream_qemuGetBe64 (f : List UInt8) :
    Migration.qemuGetBe64 f = ((Migration.qemuGetBe32 f).1 <<< 32 |||
      (Migration.qemuGetBe32 (Migration.qemuGetBe32 f).2).1,
      (Migration.qemuGetBe32 (Migration.qemuGetBe32 f).2).2) := rfl

/- Why the source must block: on `-EAGAIN` `qemu_fill_buffer` reports
nothing, and `qemu_get_byte` returns `0` for a byte it has not read. -/
example :
    let S : Source := ⟨fun k size avail => if k = 0 then -EAGAIN else min size avail,
      fun k _ _ => by unfold EAGAIN; split <;> omega,
      fun k _ _ => by unfold EAGAIN; split <;> omega⟩
    let r := qemuGetByte S (qemuFopenOps [7])
    r.1 = 0 ∧ r.2.lastError = 0 ∧ r.2.unread = [7] := by
  decide

theorem qemuGetBe16_consumes (hi : RdInv s) : Consumes s (qemuGetBe16 S s).2 := by
  simp only [qemuGetBe16_eq]
  exact (qemuGetByte_consumes hi).trans (qemuGetByte_consumes (qemuGetByte_consumes hi).inv)

theorem qemuGetBe16_refines (hS : S.Blocking) (hi : RdInv s) :
    (qemuGetBe16 S s).1 = (Migration.qemuGetBe16 s.unread).1 ∧
      (qemuGetBe16 S s).2.unread = (Migration.qemuGetBe16 s.unread).2 := by
  obtain ⟨h1v, h1u⟩ := qemuGetByte_refines hS hi
  obtain ⟨h0v, h0u⟩ := qemuGetByte_refines hS (qemuGetByte_consumes (S := S) hi).inv
  rw [h1u] at h0v h0u
  simp only [qemuGetBe16_eq, stream_qemuGetBe16]
  rw [h1v, h0v]
  exact ⟨rfl, h0u⟩

theorem qemuGetBe32_consumes (hi : RdInv s) : Consumes s (qemuGetBe32 S s).2 := by
  have hc₃ := qemuGetByte_consumes (S := S) hi
  have hc₂ := qemuGetByte_consumes (S := S) hc₃.inv
  have hc₁ := qemuGetByte_consumes (S := S) hc₂.inv
  simp only [qemuGetBe32_eq]
  exact hc₃.trans (hc₂.trans (hc₁.trans (qemuGetByte_consumes hc₁.inv)))

theorem qemuGetBe32_refines (hS : S.Blocking) (hi : RdInv s) :
    (qemuGetBe32 S s).1 = (Migration.qemuGetBe32 s.unread).1 ∧
      (qemuGetBe32 S s).2.unread = (Migration.qemuGetBe32 s.unread).2 := by
  -- four bytes, each read as the stream model reads it
  have hc₃ := qemuGetByte_consumes (S := S) hi
  have hc₂ := qemuGetByte_consumes (S := S) hc₃.inv
  have hc₁ := qemuGetByte_consumes (S := S) hc₂.inv
  obtain ⟨h3v, h3u⟩ := qemuGetByte_refines hS hi
  obtain ⟨h2v, h2u⟩ := qemuGetByte_refines hS hc₃.inv
  obtain ⟨h1v, h1u⟩ := qemuGetByte_refines hS hc₂.inv
  obtain ⟨h0v, h0u⟩ := qemuGetByte_refines hS hc₁.inv
  rw [h3u] at h2v h2u
  rw [h2u] at h1v h1u
  rw [h1u] at h0v h0u
  simp only [qemuGetBe32_eq, stream_qemuGetBe32]
  rw [h3v, h2v, h1v, h0v]
  exact ⟨rfl, h0u⟩

theorem qemuGetBe64_consumes (hi : RdInv s) : Consumes s (qemuGetBe64 S s).2 := by
  have h₁ := qemuGetBe32_consumes (S := S) hi
  simp only [qemuGetBe64_eq]
  exact h₁.trans (qemuGetBe32_consumes h₁.inv)

theorem qemuGetBe64_refines (hS : S.Blocking) (hi : RdInv s) :
    (qemuGetBe64 S s).1 = (Migration.qemuGetBe64 s.unread).1 ∧
      (qemuGetBe64 S s).2.unread = (Migration.qemuGetBe64 s.unread).2 := by
  obtain ⟨hhv, hhu⟩ := qemuGetBe32_refines hS hi
  obtain ⟨hlv, hlu⟩ := qemuGetBe32_refines hS (qemuGetBe32_consumes (S := S) hi).inv
  rw [hhu] at hlv hlu
  simp only [qemuGetBe64_eq, stream_qemuGetBe64]
  rw [hhv, hlv]
  exact ⟨rfl, hlu⟩

theorem qemuPeekByte_consumes (hi : RdInv s) (offset : ℕ) : Consumes s (qemuPeekByte S offset s).2 := by
  unfold qemuPeekByte
  dsimp only
  split_ifs
  · exact Consumes.refl hi
  · exact qemuFillBuffer_consumes hi
  · exact qemuFillBuffer_consumes hi

end Reads

/-! ## Runs -/

section Runs

variable {S : Source} {s : RdState}

theorem GetOp.step_consumes (hi : RdInv s) (op : GetOp) : Consumes s (op.step S s).2 := by
  cases op with
  | getByte => simpa only [GetOp.step] using qemuGetByte_consumes hi
  | getBuffer size => simpa only [GetOp.step, qemuGetBuffer] using (getBufferLoop_consumes hi _ _).1
  | getBe16 => simpa only [GetOp.step] using qemuGetBe16_consumes hi
  | getBe32 => simpa only [GetOp.step] using qemuGetBe32_consumes hi
  | getBe64 => simpa only [GetOp.step] using qemuGetBe64_consumes hi

/-- One read through the `QEMUFile` over a blocking source is the same read of
the stream model. -/
theorem GetOp.step_refines (hS : S.Blocking) (hi : RdInv s) (op : GetOp) :
    (op.step S s).1 = (op.absStep s.unread).1 ∧ (op.step S s).2.unread = (op.absStep s.unread).2 := by
  cases op with
  | getByte =>
    obtain ⟨hv, hu⟩ := qemuGetByte_refines hS hi
    simp only [GetOp.step, GetOp.absStep]
    exact ⟨congrArg RdVal.num hv, hu⟩
  | getBuffer size =>
    obtain ⟨hv, hu⟩ := qemuGetBuffer_refines hS hi size
    simp only [GetOp.step, GetOp.absStep]
    exact ⟨congrArg RdVal.bytes hv, hu⟩
  | getBe16 =>
    obtain ⟨hv, hu⟩ := qemuGetBe16_refines hS hi
    simp only [GetOp.step, GetOp.absStep]
    exact ⟨congrArg RdVal.num hv, hu⟩
  | getBe32 =>
    obtain ⟨hv, hu⟩ := qemuGetBe32_refines hS hi
    simp only [GetOp.step, GetOp.absStep]
    exact ⟨congrArg RdVal.num hv, hu⟩
  | getBe64 =>
    obtain ⟨hv, hu⟩ := qemuGetBe64_refines hS hi
    simp only [GetOp.step, GetOp.absStep]
    exact ⟨congrArg RdVal.num hv, hu⟩

theorem RdOp.step_consumes (hi : RdInv s) (op : RdOp) : Consumes s (op.step S s).2 := by
  cases op with
  | get op => exact op.step_consumes hi
  | peekByte offset => simpa only [RdOp.step] using qemuPeekByte_consumes hi offset
  | peekBuffer size offset => simpa only [RdOp.step] using (qemuPeekBuffer_consumes hi size offset).1
  | skip size => exact qemuFileSkip_consumes hi size

/-- The run lemma of the reader: over a blocking source, a run of reads
through the `QEMUFile` reads what the same run of the stream model reads. -/
theorem getRun_refines_of_inv (hS : S.Blocking) (ops : List GetOp) (hi : RdInv s) :
    (getRun S ops s).1 = (absRun ops s.unread).1 ∧ (getRun S ops s).2.unread = (absRun ops s.unread).2 := by
  induction ops generalizing s with
  | nil => exact ⟨rfl, rfl⟩
  | cons op ops ih =>
    obtain ⟨hv, hu⟩ := op.step_refines hS hi
    obtain ⟨hv', hu'⟩ := ih (op.step_consumes (S := S) hi).inv
    rw [hu] at hv' hu'
    exact ⟨by simp only [getRun, absRun, hv, hv'], hu'⟩

theorem rdRun_consumes_of_inv (ops : List RdOp) (hi : RdInv s) : Consumes s (rdRun S ops s).2 := by
  induction ops generalizing s with
  | nil => exact Consumes.refl hi
  | cons op ops ih => exact (op.step_consumes hi).trans (ih (op.step_consumes hi).inv)

theorem qemuFopenOps_inv (data : List UInt8) :
    RdInv (qemuFopenOps data) ∧ (qemuFopenOps data).unread = data :=
  ⟨⟨le_rfl, Nat.zero_le _⟩, rfl⟩

/-- Over a source that blocks until it can deliver, reading an incoming
migration through the `QEMUFile` with `qemu_get_byte`, `qemu_get_buffer` and
`qemu_get_be16/32/64` reads what the stream model reads from the bytes sent:
the same values, and the same bytes left. -/
theorem getRun_refines (hS : S.Blocking) (ops : List GetOp) (data : List UInt8) :
    (getRun S ops (qemuFopenOps data)).1 = (absRun ops data).1 ∧
      (getRun S ops (qemuFopenOps data)).2.unread = (absRun ops data).2 :=
  getRun_refines_of_inv hS ops (qemuFopenOps_inv data).1

theorem getRun_refines_eager :
    (getRun Source.eager [.getBe32, .getByte, .getBuffer 3] (qemuFopenOps [0, 0, 1, 2, 7, 8, 9])).1 =
        (absRun [.getBe32, .getByte, .getBuffer 3] [0, 0, 1, 2, 7, 8, 9]).1 ∧
      (getRun Source.eager [.getBe32, .getByte, .getBuffer 3] (qemuFopenOps [0, 0, 1, 2, 7, 8, 9])).2.unread =
        (absRun [.getBe32, .getByte, .getBuffer 3] [0, 0, 1, 2, 7, 8, 9]).2 :=
  getRun_refines Source.eager_blocking _ _

/-- Whatever the source answers, every run of reads, peeks and skips keeps
the buffer's bounds, takes bytes from the front of the stream only (what is
left to read is a suffix of what was sent), and `qemu_ftell` counts the
bytes taken. -/
theorem rdRun_consumes (S : Source) (ops : List RdOp) (data : List UInt8) :
    RdInv (rdRun S ops (qemuFopenOps data)).2 ∧ (rdRun S ops (qemuFopenOps data)).2.unread <:+ data ∧
      qemuFtell (rdRun S ops (qemuFopenOps data)).2 =
        data.length - (rdRun S ops (qemuFopenOps data)).2.unread.length := by
  have hc := rdRun_consumes_of_inv (S := S) ops (qemuFopenOps_inv data).1
  refine ⟨hc.inv, hc.suffix, ?_⟩
  -- the source has delivered `buf_offset` bytes of `data`, and `buf_index` of the buffered ones are read
  have htotal : (rdRun S ops (qemuFopenOps data)).2.bufOffset + (rdRun S ops (qemuFopenOps data)).2.rest.length =
      data.length := hc.total.trans (Nat.zero_add _)
  have hidx := hc.inv.index_le
  simp only [qemuFtell, RdState.unread, List.length_append, List.length_drop]
  omega

end Runs

end QemuKvm.Migration.FileRead
