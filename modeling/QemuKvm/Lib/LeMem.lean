import QemuKvm.Lib.Scatter
import QemuKvm.Lib.Word

/-!
# Little-endian words in a byte memory

A table of machine words is also a run of bytes: a stream may fill it
byte by byte while the code reads and writes it a word at a time.
`ldLe m a w` is the `w`-byte little-endian word at address `a` of a byte
memory `m`; `stLe m a w v` stores the low `w` bytes of `v` there, as a
store through the addresses `List.range' a w` (`Lib/Scatter`).

* `ldLe_congr` — a load reads its own `w` bytes and nothing else;
* `stLe_of_not_mem` — a store writes its own `w` bytes and nothing else;
* `ldLe_stLe` — loading the word just stored gives the value stored,
  modulo `2 ^ (8 * w)`; `ldLe_stLe_of_disjoint` — a load of a word that
  does not overlap it sees no change.
-/

namespace QemuKvm

/-- The `w` little-endian bytes of `v`; the bits above `8 * w` are dropped. -/
def leBytes : ℕ → ℕ → List UInt8
  | 0, _ => []
  | w + 1, v => v.toUInt8 :: leBytes w (v / 256)

/-- The `w`-byte little-endian word at `a`. -/
def ldLe (m : ℕ → UInt8) (a w : ℕ) : ℕ :=
  leWord ((List.range' a w).map fun x => (m x).toNat)

/-- Store the `w` little-endian bytes of `v` at `a`. -/
def stLe (m : ℕ → UInt8) (a w v : ℕ) : ℕ → UInt8 :=
  storeList m (List.range' a w) (leBytes w v)

@[simp] theorem length_leBytes (w v : ℕ) : (leBytes w v).length = w := by
  induction w generalizing v with
  | zero => rfl
  | succ w ih => simp [leBytes, ih]

/-- The bytes of `v` make up `v` again, cut to `w` bytes. -/
theorem leWord_leBytes (w v : ℕ) :
    leWord ((leBytes w v).map UInt8.toNat) = v % 2 ^ (8 * w) := by
  induction w generalizing v with
  | zero => simp [leBytes, Nat.mod_one]
  | succ w ih =>
    have hpow : 2 ^ (8 * (w + 1)) = 256 * 2 ^ (8 * w) := by ring
    rw [leBytes, List.map_cons, leWord_cons, ih, hpow, Nat.mod_mul]
    simp [Nat.toUInt8, UInt8.toNat_ofNat']

theorem ldLe_lt (m : ℕ → UInt8) (a w : ℕ) : ldLe m a w < 2 ^ (8 * w) := by
  have hbytes : Bytes ((List.range' a w).map fun x => (m x).toNat) := by
    intro b hb
    obtain ⟨x, -, rfl⟩ := List.mem_map.1 hb
    exact (m x).toNat_lt
  simpa [ldLe] using leWord_lt hbytes

theorem ldLe_congr {m m' : ℕ → UInt8} {a w : ℕ} (h : ∀ x, a ≤ x → x < a + w → m x = m' x) :
    ldLe m a w = ldLe m' a w := by
  unfold ldLe
  congr 1
  refine List.map_congr_left fun x hx => ?_
  obtain ⟨h1, h2⟩ := List.mem_range'_1.1 hx
  rw [h x h1 h2]

theorem stLe_of_not_mem (m : ℕ → UInt8) {a w x : ℕ} (v : ℕ) (hx : x < a ∨ a + w ≤ x) :
    stLe m a w v x = m x :=
  storeList_of_not_mem m fun h => by
    have := List.mem_range'_1.1 h
    omega

theorem ldLe_stLe (m : ℕ → UInt8) (a w v : ℕ) : ldLe (stLe m a w v) a w = v % 2 ^ (8 * w) := by
  have hback : (List.range' a w).map (stLe m a w v) = leBytes w v :=
    map_storeList m List.nodup_range' (by simp)
  rw [ldLe, ← leWord_leBytes, ← hback, List.map_map]
  rfl

theorem ldLe_stLe_of_disjoint (m : ℕ → UInt8) {a w b w' : ℕ} (v : ℕ)
    (h : b + w' ≤ a ∨ a + w ≤ b) : ldLe (stLe m a w v) b w' = ldLe m b w' :=
  ldLe_congr fun x h1 h2 => stLe_of_not_mem m v (by omega)

end QemuKvm
