import Mathlib.Data.Nat.Bitwise
import Mathlib.Tactic.Linarith
import Mathlib.Tactic.Ring

/-!
# Little-endian words of bytes

A machine word read from memory is the little-endian number of its bytes
(`leWord`). Bitwise operations act byte by byte (`bitwise_byte_add`), so two
words are equal exactly when their bytes are, and the xor of two words is
the word of the bytes' xors.

The word-at-a-time scan for a zero byte uses the test
`(x - 0x0101..01) & ~x & 0x8080..80`: with `x` the word of its bytes, the
result is non-zero exactly when one of the bytes is zero
(`hasZeroByte_iff`). Below the lowest zero byte every byte is at least 1,
so subtracting 1 from each borrows nothing and leaves bit 7 of a byte set
only where it was set in `x`; at the lowest zero byte the subtraction gives
0xff and sets bit 7 where `~x` has it too.
-/

namespace QemuKvm

/-- The little-endian number of a list of bytes. -/
def leWord : List ℕ → ℕ
  | [] => 0
  | b :: bs => b + 256 * leWord bs

/-- `(x - mask) & ~x & (mask << 7)` on words of `w` bytes. -/
def zeroTest (w x mask : ℕ) : ℕ :=
  ((x + 2 ^ (8 * w) - mask) % 2 ^ (8 * w)) &&& (2 ^ (8 * w) - 1 - x) &&& (mask <<< 7)

/-- The zero-byte test on a word of `w` bytes, with `mask` the byte 1 in
every lane. -/
def hasZeroByte (w x : ℕ) : Bool :=
  zeroTest w x (leWord (List.replicate w 1)) != 0

/-- Bytes are below 256. -/
def Bytes (bs : List ℕ) : Prop := ∀ b ∈ bs, b < 256

@[simp] theorem leWord_nil : leWord [] = 0 := rfl

@[simp] theorem leWord_cons (b : ℕ) (bs : List ℕ) : leWord (b :: bs) = b + 256 * leWord bs := rfl

theorem Bytes.cons {b : ℕ} {bs : List ℕ} (h : Bytes (b :: bs)) : b < 256 ∧ Bytes bs :=
  ⟨h b List.mem_cons_self, fun c hc => h c (List.mem_cons_of_mem _ hc)⟩

theorem leWord_lt {bs : List ℕ} (h : Bytes bs) : leWord bs < 2 ^ (8 * bs.length) := by
  induction bs with
  | nil => simp
  | cons b bs ih =>
    obtain ⟨hb, hbs⟩ := h.cons
    have := ih hbs
    rw [leWord_cons, List.length_cons, Nat.mul_succ, Nat.pow_add]
    generalize 2 ^ (8 * bs.length) = P at this ⊢
    omega

/-- A bitwise operation on two words acts on their low bytes and on the rest
apart. -/
theorem bitwise_byte_add {f : Bool → Bool → Bool} (hf : f false false = false) {a0 c0 : ℕ}
    (ha : a0 < 256) (hc : c0 < 256) (a c : ℕ) :
    Nat.bitwise f (a0 + 256 * a) (c0 + 256 * c) = Nat.bitwise f a0 c0 + 256 * Nat.bitwise f a c := by
  have hlt : Nat.bitwise f a0 c0 < 2 ^ 8 := by
    apply Nat.lt_pow_two_of_testBit
    intro i hi
    have h8 : (2 : ℕ) ^ 8 ≤ 2 ^ i := Nat.pow_le_pow_right (by norm_num) hi
    rw [Nat.testBit_bitwise hf, Nat.testBit_lt_two_pow (lt_of_lt_of_le ha h8),
      Nat.testBit_lt_two_pow (lt_of_lt_of_le hc h8), hf]
  apply Nat.eq_of_testBit_eq
  intro j
  rw [show a0 + 256 * a = 2 ^ 8 * a + a0 by ring, show c0 + 256 * c = 2 ^ 8 * c + c0 by ring,
    show Nat.bitwise f a0 c0 + 256 * Nat.bitwise f a c = 2 ^ 8 * Nat.bitwise f a c +
      Nat.bitwise f a0 c0 by ring, Nat.testBit_bitwise hf,
    Nat.testBit_two_pow_mul_add _ (show a0 < 2 ^ 8 by omega),
    Nat.testBit_two_pow_mul_add _ (show c0 < 2 ^ 8 by omega), Nat.testBit_two_pow_mul_add _ hlt]
  split <;> simp only [Nat.testBit_bitwise hf]

theorem land_byte_add {a0 c0 : ℕ} (ha : a0 < 256) (hc : c0 < 256) (a c : ℕ) :
    (a0 + 256 * a) &&& (c0 + 256 * c) = (a0 &&& c0) + 256 * (a &&& c) :=
  bitwise_byte_add rfl ha hc a c

theorem xor_byte_add {a0 c0 : ℕ} (ha : a0 < 256) (hc : c0 < 256) (a c : ℕ) :
    (a0 + 256 * a) ^^^ (c0 + 256 * c) = (a0 ^^^ c0) + 256 * (a ^^^ c) :=
  bitwise_byte_add rfl ha hc a c

/-- The word of the bytes' xors is the xor of the words. -/
theorem leWord_zipWith_xor {bs cs : List ℕ} (hb : Bytes bs) (hc : Bytes cs)
    (hlen : bs.length = cs.length) :
    leWord (List.zipWith (· ^^^ ·) bs cs) = leWord bs ^^^ leWord cs := by
  induction bs generalizing cs with
  | nil =>
    cases cs with
    | nil => rfl
    | cons c cs => simp at hlen
  | cons b bs ih =>
    cases cs with
    | nil => simp at hlen
    | cons c cs =>
      obtain ⟨hb0, hbs⟩ := hb.cons
      obtain ⟨hc0, hcs⟩ := hc.cons
      rw [List.zipWith_cons_cons, leWord_cons, leWord_cons, leWord_cons,
        ih hbs hcs (by simpa using hlen), xor_byte_add hb0 hc0]

/-- Two words of as many bytes are equal exactly when their bytes are. -/
theorem leWord_inj {bs cs : List ℕ} (hb : Bytes bs) (hc : Bytes cs) (hlen : bs.length = cs.length)
    (h : leWord bs = leWord cs) : bs = cs := by
  induction bs generalizing cs with
  | nil =>
    cases cs with
    | nil => rfl
    | cons c cs => simp at hlen
  | cons b bs ih =>
    cases cs with
    | nil => simp at hlen
    | cons c cs =>
      obtain ⟨hb0, hbs⟩ := hb.cons
      obtain ⟨hc0, hcs⟩ := hc.cons
      rw [leWord_cons, leWord_cons] at h
      have hbc : b = c := by omega
      have hrest : leWord bs = leWord cs := by omega
      rw [hbc, ih hbs hcs (by simpa using hlen) hrest]

/-! ## The zero-byte test -/

/-- Reducing a word whose low byte is `b0` modulo `256 * M` reduces the rest
modulo `M`. -/
theorem byte_add_mod {b0 : ℕ} (hb : b0 < 256) (y M : ℕ) :
    (b0 + 256 * y) % (256 * M) = b0 + 256 * (y % M) := by
  rcases Nat.eq_zero_or_pos M with rfl | hM
  · simp
  · conv_lhs => rw [← Nat.div_add_mod y M]
    have hr := Nat.mod_lt y hM
    rw [show b0 + 256 * (M * (y / M) + y % M) = (b0 + 256 * (y % M)) + (256 * M) * (y / M) by ring,
      Nat.add_mul_mod_self_left, Nat.mod_eq_of_lt]
    nlinarith

/-- A byte's bit 7 is set exactly when the byte is at least 128. -/
theorem land_128_eq_zero {x : ℕ} (hx : x < 256) (y : ℕ) (hxy : x < 128 ∨ y < 128) (hy : y < 256) :
    x &&& y &&& 128 = 0 := by
  apply Nat.eq_of_testBit_eq
  intro j
  rw [Nat.testBit_and, Nat.testBit_and, Nat.zero_testBit, show (128 : ℕ) = 2 ^ 7 from rfl,
    Nat.testBit_two_pow]
  by_cases hj : 7 = j
  · subst hj
    rw [Nat.testBit_eq_decide_div_mod_eq, Nat.testBit_eq_decide_div_mod_eq]
    simp only [decide_true, Bool.and_true, Bool.and_eq_false_iff, decide_eq_false_iff_not]
    omega
  · simp [hj]

theorem leWord_replicate_one_succ (n : ℕ) :
    leWord (List.replicate (n + 1) 1) = 1 + 256 * leWord (List.replicate n 1) := rfl

theorem bytes_replicate_one (n : ℕ) : Bytes (List.replicate n 1) := by
  intro b hb
  rw [List.eq_of_mem_replicate hb]
  norm_num

theorem leWord_replicate_lt (n : ℕ) : leWord (List.replicate n 1) < 2 ^ (8 * n) := by
  simpa using leWord_lt (bytes_replicate_one n)

theorem pow_succ_bytes (n : ℕ) : 2 ^ (8 * (n + 1)) = 256 * 2 ^ (8 * n) := by
  rw [Nat.mul_succ, Nat.pow_add, Nat.mul_comm]

/-- One more byte that is not zero: no borrow, bit 7 of the low byte clear,
and the test is the test of the rest, shifted. -/
theorem zeroTest_succ_pos {b x m n : ℕ} (hb0 : 0 < b) (hb : b < 256) (hx : x < 2 ^ (8 * n))
    (hm : m < 2 ^ (8 * n)) :
    zeroTest (n + 1) (b + 256 * x) (1 + 256 * m) = 256 * zeroTest n x m := by
  unfold zeroTest
  rw [pow_succ_bytes]
  have hmask : (1 + 256 * m) <<< 7 = 128 + 256 * (m <<< 7) := by
    simp only [Nat.shiftLeft_eq]
    ring
  generalize 2 ^ (8 * n) = P at hx hm ⊢
  have hsub : b + 256 * x + 256 * P - (1 + 256 * m) = (b - 1) + 256 * (x + P - m) := by omega
  have hnot : 256 * P - 1 - (b + 256 * x) = (255 - b) + 256 * (P - 1 - x) := by omega
  rw [hsub, byte_add_mod (by omega), hnot, hmask, land_byte_add (by omega) (by omega),
    land_byte_add (Nat.and_lt_two_pow _ (show 255 - b < 2 ^ 8 by omega)) (by norm_num),
    land_128_eq_zero (by omega) _ (by omega) (by omega), Nat.zero_add]

/-- One more byte that is zero: the subtraction borrows and bit 7 of the low
byte is set. -/
theorem zeroTest_succ_zero {x m n : ℕ} (hx : x < 2 ^ (8 * n)) (hm : m < 2 ^ (8 * n)) :
    128 ≤ zeroTest (n + 1) (0 + 256 * x) (1 + 256 * m) := by
  unfold zeroTest
  rw [pow_succ_bytes]
  have hmask : (1 + 256 * m) <<< 7 = 128 + 256 * (m <<< 7) := by
    simp only [Nat.shiftLeft_eq]
    ring
  generalize 2 ^ (8 * n) = P at hx hm ⊢
  have hsub : 0 + 256 * x + 256 * P - (1 + 256 * m) = 255 + 256 * (x + P - m - 1) := by omega
  have hnot : 256 * P - 1 - (0 + 256 * x) = 255 + 256 * (P - 1 - x) := by omega
  rw [hsub, byte_add_mod (by omega), hnot, hmask, land_byte_add (by omega) (by omega),
    land_byte_add (by norm_num) (by norm_num)]
  have : (255 &&& 255 &&& 128 : ℕ) = 128 := by decide
  omega

/-- The test reports a zero byte exactly when the word has one. -/
theorem hasZeroByte_iff {bs : List ℕ} (h : Bytes bs) :
    hasZeroByte bs.length (leWord bs) = true ↔ 0 ∈ bs := by
  induction bs with
  | nil => simp [hasZeroByte, zeroTest]
  | cons b bs ih =>
    obtain ⟨hb, hbs⟩ := h.cons
    have hx := leWord_lt hbs
    have hm := leWord_replicate_lt bs.length
    simp only [hasZeroByte, List.length_cons, leWord_cons, leWord_replicate_one_succ, bne_iff_ne,
      ne_eq, List.mem_cons]
    rcases Nat.eq_zero_or_pos b with rfl | hb0
    · -- a zero low byte
      have := zeroTest_succ_zero hx hm
      simp only [true_or, iff_true]
      omega
    · -- a non-zero low byte: the rest decides
      rw [zeroTest_succ_pos hb0 hb hx hm, ← ih hbs]
      simp only [hasZeroByte, bne_iff_ne, ne_eq]
      omega

end QemuKvm
