import Mathlib.Data.Nat.Bitwise

/-!
# The byte stream of a migration (`QEMUFile`, savevm.c)

The writing end is the list of bytes put so far; the reading end is the
list of bytes not read yet. Reading past the end gives zeros, as
`qemu_peek_byte` does once `qemu_fill_buffer` finds no more data, and
`qemu_get_buffer` then returns fewer bytes than asked.

Numbers are big-endian. The getters are written with the shifts and ors of
the source; `qemuGetBe32_put` and its siblings say that reading what was
put gives the number back and leaves the rest of the stream.
-/

namespace QemuKvm.Migration

/-! ## Writing -/

def qemuPutByte (v : ℕ) : List UInt8 := [v.toUInt8]

def qemuPutBe16 (v : ℕ) : List UInt8 := qemuPutByte (v >>> 8) ++ qemuPutByte v

def qemuPutBe32 (v : ℕ) : List UInt8 :=
  qemuPutByte (v >>> 24) ++ qemuPutByte (v >>> 16) ++ qemuPutByte (v >>> 8) ++ qemuPutByte v

def qemuPutBe64 (v : ℕ) : List UInt8 := qemuPutBe32 (v >>> 32) ++ qemuPutBe32 (v % 2 ^ 32)

/-- `qemu_put_buffer(f, buf, size)` with its `int size`, given as its 32-bit
pattern as for `qemuGetBuffer`: the bytes at `buf`, none for a negative
size. -/
def qemuPutBuffer (buf : ℕ → UInt8) (size : ℕ) : List UInt8 :=
  (List.range (if size < 2 ^ 31 then size else 0)).map buf

/-! ## Reading -/

def qemuGetByte : List UInt8 → ℕ × List UInt8
  | [] => (0, [])
  | b :: f => (b.toNat, f)

def qemuGetBe16 (f : List UInt8) : ℕ × List UInt8 :=
  let (b1, f) := qemuGetByte f
  let (b0, f) := qemuGetByte f
  (b1 <<< 8 ||| b0, f)

def qemuGetBe32 (f : List UInt8) : ℕ × List UInt8 :=
  let (b3, f) := qemuGetByte f
  let (b2, f) := qemuGetByte f
  let (b1, f) := qemuGetByte f
  let (b0, f) := qemuGetByte f
  (b3 <<< 24 ||| b2 <<< 16 ||| b1 <<< 8 ||| b0, f)

def qemuGetBe64 (f : List UInt8) : ℕ × List UInt8 :=
  let (hi, f) := qemuGetBe32 f
  let (lo, f) := qemuGetBe32 f
  (hi <<< 32 ||| lo, f)

/-- `qemu_get_buffer(f, buf, size)` with its `int size`: the bytes read,
fewer at the end of the stream, none for a negative size. -/
def qemuGetBuffer (f : List UInt8) (size : ℕ) : List UInt8 × List UInt8 :=
  let n := if size < 2 ^ 31 then size else 0
  (f.take n, f.drop n)

/-! ## Reading back what was written -/

theorem toNat_toUInt8 (v : ℕ) : v.toUInt8.toNat = v % 256 := UInt8.toNat_ofNat'

theorem qemuGetByte_cons (b : UInt8) (f : List UInt8) : qemuGetByte (b :: f) = (b.toNat, f) := rfl

/-- An or of two numbers whose bits do not meet is their sum. -/
theorem or_eq_add_of_dvd {x b i : ℕ} (hx : 2 ^ i ∣ x) (hb : b < 2 ^ i) : x ||| b = x + b := by
  obtain ⟨k, rfl⟩ := hx
  rw [mul_comm, ← Nat.shiftLeft_eq, Nat.shiftLeft_add_eq_or_of_lt hb]

theorem qemuGetBe16_put (v : ℕ) (hv : v < 2 ^ 16) (f : List UInt8) :
    qemuGetBe16 (qemuPutBe16 v ++ f) = (v, f) := by
  simp only [qemuPutBe16, qemuPutByte, List.cons_append, List.nil_append, qemuGetBe16,
    qemuGetByte_cons, toNat_toUInt8, Nat.shiftRight_eq_div_pow, Nat.shiftLeft_eq]
  rw [or_eq_add_of_dvd (i := 8) (by omega) (by omega)]
  congr 1
  omega

theorem qemuGetBe32_put (v : ℕ) (hv : v < 2 ^ 32) (f : List UInt8) :
    qemuGetBe32 (qemuPutBe32 v ++ f) = (v, f) := by
  simp only [qemuPutBe32, qemuPutByte, List.cons_append, List.nil_append, qemuGetBe32,
    qemuGetByte_cons, toNat_toUInt8, Nat.shiftRight_eq_div_pow, Nat.shiftLeft_eq]
  -- each or adds a byte below the bits already there
  rw [or_eq_add_of_dvd (x := v / 2 ^ 24 % 256 * 2 ^ 24) (i := 24) (by omega) (by omega),
    or_eq_add_of_dvd (x := v / 2 ^ 24 % 256 * 2 ^ 24 + v / 2 ^ 16 % 256 * 2 ^ 16) (i := 16)
      (by omega) (by omega),
    or_eq_add_of_dvd (i := 8) (by omega) (by omega)]
  congr 1
  omega

theorem qemuGetBe64_put (v : ℕ) (hv : v < 2 ^ 64) (f : List UInt8) :
    qemuGetBe64 (qemuPutBe64 v ++ f) = (v, f) := by
  have hhi : v / 2 ^ 32 < 2 ^ 32 := by omega
  have hlo : v % 2 ^ 32 < 2 ^ 32 := Nat.mod_lt _ (Nat.two_pow_pos 32)
  simp only [qemuPutBe64, Nat.shiftRight_eq_div_pow, List.append_assoc, qemuGetBe64,
    qemuGetBe32_put _ hhi, qemuGetBe32_put _ hlo, Nat.shiftLeft_eq]
  rw [or_eq_add_of_dvd (i := 32) (by omega) hlo]
  congr 1
  omega

theorem qemuGetBuffer_put (buf f : List UInt8) (hlen : buf.length < 2 ^ 31) :
    qemuGetBuffer (buf ++ f) buf.length = (buf, f) := by
  simp only [qemuGetBuffer, if_pos hlen, List.take_left', List.drop_left']

/-- Reading with the size the bytes were put with gives them back, for any
size: a negative one puts and reads nothing. -/
theorem qemuGetBuffer_qemuPutBuffer (buf : ℕ → UInt8) (size : ℕ) (f : List UInt8) :
    qemuGetBuffer (qemuPutBuffer buf size ++ f) size = (qemuPutBuffer buf size, f) := by
  unfold qemuGetBuffer qemuPutBuffer
  split_ifs <;> simp

end QemuKvm.Migration
