import Mathlib.Data.List.Basic
import Mathlib.Tactic.Ring

/-!
# One's-complement sums of 16-bit words

The Internet checksum of a run of octets is the complement of the
one's-complement sum of its 16-bit big-endian words, an odd last octet
padded with a zero (`internetChecksum`). One's-complement addition adds the
carry out of bit 15 back in at bit 0 (`onesAdd`); an implementation may
instead add the words wide and fold the carries back in at the end
(`foldCarries`). The two agree (`foldCarries_sum`): each is congruent to the
plain sum modulo `0xFFFF`, lies in `[0, 0xFFFF]`, and is zero only for a
zero sum, and these three facts pin a number down (`eq_of_mod_ffff`).
-/

namespace QemuKvm

/-- One's-complement addition of 16-bit words: a carry out of bit 15 comes
back in at bit 0. -/
def onesAdd (a b : ℕ) : ℕ := if a + b < 2 ^ 16 then a + b else a + b - 0xFFFF

/-- The one's-complement sum of words. -/
def onesSum (ws : List ℕ) : ℕ := ws.foldl onesAdd 0

/-- The 16-bit big-endian words of octets; an odd last octet is the high
half of a word whose low half is zero. -/
def words : List ℕ → List ℕ
  | [] => []
  | [a] => [a * 256]
  | a :: b :: rest => (a * 256 + b) :: words rest

/-- The Internet checksum of octets. -/
def internetChecksum (octets : List ℕ) : ℕ := 0xFFFF - onesSum (words octets)

/-- A wide sum with its carries folded back in until it fits in 16 bits. -/
def foldCarries (s : ℕ) : ℕ := if s < 2 ^ 16 then s else foldCarries (s % 2 ^ 16 + s / 2 ^ 16)
termination_by s
decreasing_by omega

/-! ## Numbers below `0xFFFF` modulo `0xFFFF` -/

/-- In `[0, 0xFFFF]` a number is fixed by its residue modulo `0xFFFF` and by
whether it is zero: `0xFFFF` is the non-zero number of residue 0. -/
theorem eq_of_mod_ffff {a b : ℕ} (ha : a ≤ 0xFFFF) (hb : b ≤ 0xFFFF) (hmod : a % 0xFFFF = b % 0xFFFF)
    (hzero : a = 0 ↔ b = 0) : a = b := by
  omega

/-! ## Folding the carries -/

theorem foldCarries_le (s : ℕ) : foldCarries s ≤ 0xFFFF := by
  induction s using foldCarries.induct with
  | case1 s hs => rw [foldCarries, if_pos hs]; omega
  | case2 s hs ih => rw [foldCarries, if_neg hs]; exact ih

/-- Folding a carry back in keeps the residue modulo `0xFFFF`, as
`2 ^ 16 ≡ 1`. -/
theorem foldCarries_mod (s : ℕ) : foldCarries s % 0xFFFF = s % 0xFFFF := by
  induction s using foldCarries.induct with
  | case1 s hs => rw [foldCarries, if_pos hs]
  | case2 s hs ih => rw [foldCarries, if_neg hs, ih]; omega

theorem foldCarries_eq_zero_iff (s : ℕ) : foldCarries s = 0 ↔ s = 0 := by
  induction s using foldCarries.induct with
  | case1 s hs => rw [foldCarries, if_pos hs]
  | case2 s hs ih => rw [foldCarries, if_neg hs, ih]; omega

/-! ## Adding in one's complement -/

section Ones

variable {a b : ℕ}

theorem onesAdd_le (ha : a ≤ 0xFFFF) (hb : b ≤ 0xFFFF) : onesAdd a b ≤ 0xFFFF := by
  unfold onesAdd
  split_ifs <;> omega

theorem onesAdd_mod (a b : ℕ) : onesAdd a b % 0xFFFF = (a + b) % 0xFFFF := by
  unfold onesAdd
  split_ifs <;> omega

theorem onesAdd_eq_zero_iff (a b : ℕ) : onesAdd a b = 0 ↔ a + b = 0 := by
  unfold onesAdd
  split_ifs <;> omega

/-- The sum from an accumulator: below `0xFFFF`, of the residue of the plain
sum, and zero only for a zero sum. -/
theorem foldl_onesAdd {ws : List ℕ} (hws : ∀ w ∈ ws, w ≤ 0xFFFF) :
    ∀ acc ≤ 0xFFFF, ws.foldl onesAdd acc ≤ 0xFFFF ∧
      ws.foldl onesAdd acc % 0xFFFF = (acc + ws.sum) % 0xFFFF ∧
      (ws.foldl onesAdd acc = 0 ↔ acc + ws.sum = 0) := by
  induction ws with
  | nil => intro acc hacc; simpa using hacc
  | cons w ws ih =>
    intro acc hacc
    have hw := hws w List.mem_cons_self
    obtain ⟨hle, hmod, hzero⟩ := ih (fun v hv => hws v (List.mem_cons_of_mem w hv))
      (onesAdd acc w) (onesAdd_le hacc hw)
    rw [List.foldl_cons, List.sum_cons]
    refine ⟨hle, ?_, ?_⟩
    · rw [hmod, Nat.add_mod, onesAdd_mod, ← Nat.add_mod]
      ring_nf
    · rw [hzero]
      have := onesAdd_eq_zero_iff acc w
      omega

/-- Adding the words wide and folding the carries back in is their
one's-complement sum. -/
theorem foldCarries_sum {ws : List ℕ} (hws : ∀ w ∈ ws, w ≤ 0xFFFF) :
    foldCarries ws.sum = onesSum ws := by
  obtain ⟨hle, hmod, hzero⟩ := foldl_onesAdd hws 0 (Nat.zero_le _)
  rw [zero_add] at hmod hzero
  apply eq_of_mod_ffff (foldCarries_le _) hle
  · rw [foldCarries_mod, hmod]
  · rw [foldCarries_eq_zero_iff, hzero]

end Ones

/-! ## Words of octets -/

theorem words_le {bs : List ℕ} (hbs : ∀ b ∈ bs, b < 256) : ∀ w ∈ words bs, w ≤ 0xFFFF := by
  induction bs using words.induct with
  | case1 => simp [words]
  | case2 a => simp only [words, List.mem_singleton]; intro w hw; have := hbs a (by simp); omega
  | case3 a b rest ih =>
    intro w hw
    rw [words, List.mem_cons] at hw
    rcases hw with rfl | hw
    · have := hbs a (by simp)
      have := hbs b (by simp)
      omega
    · exact ih (fun c hc => hbs c (by simp [hc])) w hw

/-- Octets of even length end on a word boundary. -/
theorem words_append {bs : List ℕ} (hbs : Even bs.length) (cs : List ℕ) :
    words (bs ++ cs) = words bs ++ words cs := by
  induction bs using words.induct with
  | case1 => rfl
  | case2 a => simp at hbs
  | case3 a b rest ih =>
    rw [List.cons_append, List.cons_append, words, words, ih (by simpa [Nat.even_add_one] using hbs),
      List.cons_append]

end QemuKvm
