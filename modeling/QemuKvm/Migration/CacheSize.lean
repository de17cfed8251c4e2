import QemuKvm.Lib.HighMask
import QemuKvm.Exec.Dirty
import QemuKvm.Migration.PageCache
import QemuKvm.Migration.State

/-!
# Setting the XBZRLE cache size (migration.c, arch_init.c, page_cache.c)

`migrate_set_cache_size` takes an `int64_t` from the monitor, checks it
against `size_t`, and stores `xbzrle_cache_resize(value)` as the migration's
`xbzrle_cache_size`. Without a cache that is `pow2floor(value)`; with one it
is `cache_resize(cache, value / TARGET_PAGE_SIZE) * TARGET_PAGE_SIZE`, and
`cache_resize` calls `pow2floor` on the page count before `cache_init`
rejects counts that are not positive.

This module models that path in the source's 64-bit arithmetic:
`pow2floor` takes and returns an `int64_t`, here a `BitVec 64` read as
signed where the source compares with 0. `pow2floor(v)` shifts
`0x8000000000000000ULL` right by `clz64(v)`, which is 64 for `v = 0`: that
shift is undefined in C, and the model returns `none` for it, and for every
call that reaches it. The caches are known by their number of slots only;
what `cache_resize` does to the pages is `Migration.CacheResize`, whose
model guards against a page count of 0.

Results:

* `pow2floor_of_ne_zero` — for every non-zero `v`, `pow2floor(v)` is the
  largest power of two not above `v` read as unsigned, as in the ℕ model
  (`pow2floor_eq_pow2floor`); `pow2floor_zero` — for 0 it is undefined;
* `qmpMigrateSetCacheSize_of_ge_page` — without a cache, a size of a page
  or more stores the largest power of two not above it;
  `xbzrleCacheResize_some_of_ge_page` — with a cache every call is defined;
* `qmpMigrateSetCacheSize_below_page` — the size check accepts every
  value; 0, and with a cache every size below a page, reach `pow2floor(0)`;
  without a cache a size below a page is stored as a power of two below a
  page, and a negative one as a negative size.
-/

namespace QemuKvm.Migration.CacheSize

open BitVec

/-- `is_power_of_2` on a `uint64_t`. -/
def isPowerOf2 (value : BitVec 64) : Bool :=
  if value = 0 then false else decide (value &&& (value - 1) = 0)

/-- `clz64`: the leading zero bits of a `uint64_t`, 64 for 0. -/
def clz64 (val : BitVec 64) : ℕ :=
  if val ≠ 0 then 63 - Nat.log2 val.toNat else 64

/-- `pow2floor` on an `int64_t`; `none` where it shifts by 64. -/
def pow2floor (value : BitVec 64) : Option (BitVec 64) :=
  if !isPowerOf2 value then
    if clz64 value < 64 then some (0x8000000000000000#64 >>> clz64 value) else none
  else some value

/-- The number of slots `cache_init(num_pages, ...)` gives a cache, `some
none` for `NULL`. -/
def cacheInit (numPages : BitVec 64) : Option (Option (BitVec 64)) :=
  if numPages.sle 0 then some none
  -- round down to the nearest power of 2
  else if !isPowerOf2 numPages then (pow2floor numPages).map some
  else some (some numPages)

/-- What `cache_resize` returns for a cache of `maxNumItems` slots. -/
def cacheResize (maxNumItems newNumPages : BitVec 64) : Option (BitVec 64) :=
  (pow2floor newNumPages).bind fun p =>
    -- same size
    if p = maxNumItems then some maxNumItems
    else (cacheInit newNumPages).map fun newCache => newCache.getD (-1)

/-- `xbzrle_cache_resize`; `cache` is the number of slots of `XBZRLE.cache`,
`none` for `NULL`. -/
def xbzrleCacheResize (cache : Option (BitVec 64)) (newSize : BitVec 64) : Option (BitVec 64) :=
  match cache with
  | some maxNumItems =>
    (cacheResize maxNumItems (newSize.sdiv (BitVec.ofNat 64 Exec.TARGET_PAGE_SIZE))).map
      (· * BitVec.ofNat 64 Exec.TARGET_PAGE_SIZE)
  | none => pow2floor newSize

/-- `qmp_migrate_set_cache_size`: the migration state after it and the
reply. The check for truncation compares `value` with `(size_t)value`,
which on a 64-bit host keeps every bit. -/
def qmpMigrateSetCacheSize (cache : Option (BitVec 64)) (value : BitVec 64) (s : MigrationState) :
    Option (MigrationState × Reply) :=
  if value.setWidth 64 ≠ value then
    some (s, .err (.invalidParameterValue "cache size" "exceeding address space"))
  else (xbzrleCacheResize cache value).map fun size => ({ s with xbzrleCacheSize := size.toInt }, .ok)

/-! ## `pow2floor` -/

/-- A value that is not negative has its top bit clear. -/
theorem two_mul_toNat_lt_of_nonneg {value : BitVec 64} (h : 0 ≤ value.toInt) :
    2 * value.toNat < 2 ^ 64 := by
  by_contra hc
  have := (toInt_neg_iff (x := value)).2 (by omega)
  omega

theorem isPowerOf2_iff (value : BitVec 64) :
    isPowerOf2 value = true ↔ value.toNat.isPowerOfTwo := by
  unfold isPowerOf2
  by_cases h0 : value = 0
  · subst h0
    simp only [↓reduceIte, Bool.false_eq_true, false_iff]
    rintro ⟨k, hk⟩
    have := Nat.one_le_two_pow (n := k)
    simp at hk
    omega
  · rw [if_neg h0, decide_eq_true_iff, ← and_sub_one_eq_zero_iff h0]
    rfl

theorem pow2floor_zero : pow2floor 0#64 = none := by
  decide

/-- For `v ≠ 0`, `pow2floor(v)` is `2 ^ ⌊log₂ v⌋`, `v` read as unsigned. -/
theorem pow2floor_of_ne_zero {value : BitVec 64} (h : value ≠ 0) :
    pow2floor value = some (BitVec.ofNat 64 (2 ^ Nat.log2 value.toNat)) := by
  have hv : value.toNat ≠ 0 := fun h0 => h (eq_of_toNat_eq (by simpa using h0))
  have hL : Nat.log2 value.toNat < 64 := (Nat.log2_lt hv).2 value.isLt
  unfold pow2floor
  by_cases hp : isPowerOf2 value = true
  · -- a power of two is its own floor
    rw [hp, Bool.not_true, if_neg Bool.false_ne_true]
    obtain ⟨j, hj⟩ := (isPowerOf2_iff value).1 hp
    congr 1
    apply eq_of_toNat_eq
    rw [toNat_ofNat, hj, Nat.log2_two_pow, Nat.mod_eq_of_lt (hj ▸ value.isLt)]
  · -- otherwise the top bit shifted down to the highest set bit
    have hclz : clz64 value = 63 - Nat.log2 value.toNat := by
      rw [clz64, if_pos h]
    rw [Bool.not_eq_true] at hp
    rw [hp, Bool.not_false, if_pos rfl, hclz, if_pos (by omega)]
    congr 1
    apply eq_of_toNat_eq
    rw [toNat_ushiftRight, show (0x8000000000000000#64).toNat = 2 ^ 63 from rfl, toNat_ofNat,
      Nat.shiftRight_eq_div_pow, Nat.pow_div (by omega) (by decide),
      show 63 - (63 - Nat.log2 value.toNat) = Nat.log2 value.toNat by omega,
      Nat.mod_eq_of_lt (Nat.pow_lt_pow_right (by decide) hL)]

/-- The same value as `Migration.pow2floor` on the unsigned reading. -/
theorem pow2floor_eq_pow2floor {value : BitVec 64} (h : value ≠ 0) :
    pow2floor value = some (BitVec.ofNat 64 (Migration.pow2floor value.toNat)) := by
  rw [pow2floor_of_ne_zero h, Migration.pow2floor, Nat.log2_eq_log_two]

/-! ## The stored size -/

theorem qmpMigrateSetCacheSize_eq (cache : Option (BitVec 64)) (value : BitVec 64)
    (s : MigrationState) :
    qmpMigrateSetCacheSize cache value s =
      (xbzrleCacheResize cache value).map fun size => ({ s with xbzrleCacheSize := size.toInt }, .ok) := by
  rw [qmpMigrateSetCacheSize, if_neg (by rw [setWidth_eq]; exact not_not.2 rfl)]

/-- A size from 0 to a page less one is less than a page. -/
theorem sdiv_page_eq_zero {value : BitVec 64} (h0 : 0 ≤ value.toInt) (h : value.toInt < 4096) :
    value.sdiv (BitVec.ofNat 64 Exec.TARGET_PAGE_SIZE) = 0 := by
  have hlt : 2 * value.toNat < 2 ^ 64 := two_mul_toNat_lt_of_nonneg h0
  have hmsb : value.msb = false := msb_eq_false_iff_two_mul_lt.2 hlt
  have hval : (value.toNat : ℤ) < 4096 := by
    rw [← toInt_eq_toNat_of_lt hlt]
    exact h
  rw [sdiv_eq, hmsb, show (BitVec.ofNat 64 Exec.TARGET_PAGE_SIZE).msb = false from rfl]
  apply eq_of_toNat_eq
  rw [udiv_eq, toNat_udiv, show (BitVec.ofNat 64 Exec.TARGET_PAGE_SIZE).toNat = 4096 from rfl,
    Nat.div_eq_of_lt (by omega)]
  rfl

/-- Without a cache, a size of a page or more is stored as the largest
power of two not above it, itself a multiple of the page. -/
theorem qmpMigrateSetCacheSize_of_ge_page (value : BitVec 64) (s : MigrationState)
    (h : 4096 ≤ value.toInt) :
    ∃ L, 12 ≤ L ∧ L ≤ 62 ∧ 2 ^ L ≤ value.toInt ∧ value.toInt < 2 ^ (L + 1) ∧
      qmpMigrateSetCacheSize none value s = some ({ s with xbzrleCacheSize := 2 ^ L }, .ok) := by
  have hlt : 2 * value.toNat < 2 ^ 64 := two_mul_toNat_lt_of_nonneg (by omega)
  have hint := toInt_eq_toNat_of_lt hlt
  have hv : value.toNat ≠ 0 := by omega
  have hne : value ≠ 0 := fun h0 => hv (by rw [h0]; rfl)
  have hlo := Nat.log2_self_le hv
  have hhi := Nat.lt_log2_self (n := value.toNat)
  have h12 : 12 ≤ Nat.log2 value.toNat := by
    rcases Nat.lt_or_ge (Nat.log2 value.toNat) 12 with hL | hL
    · have := (Nat.log2_lt hv).1 hL
      omega
    · exact hL
  have h62 : Nat.log2 value.toNat ≤ 62 := by
    have := (Nat.log2_lt hv).1 (show Nat.log2 value.toNat < 63 from (Nat.log2_lt hv).2 (by omega))
    have := (Nat.log2_lt hv).2 (show value.toNat < 2 ^ 63 by omega)
    omega
  refine ⟨Nat.log2 value.toNat, h12, h62, by rw [hint]; exact_mod_cast hlo,
    by rw [hint]; exact_mod_cast hhi, ?_⟩
  have hpow : 2 * 2 ^ Nat.log2 value.toNat < 2 ^ 64 := by
    rw [← Nat.pow_succ']
    exact Nat.pow_lt_pow_right (by decide) (by omega)
  rw [qmpMigrateSetCacheSize_eq, xbzrleCacheResize, pow2floor_of_ne_zero hne, Option.map_some]
  congr 3
  rw [toInt_eq_toNat_of_lt (by rw [toNat_ofNat, Nat.mod_eq_of_lt (by omega)]; exact hpow), toNat_ofNat,
    Nat.mod_eq_of_lt (by omega)]
  push_cast
  rfl

/-- With a cache, a size of a page or more is a positive page count, and
every `pow2floor` on the way is defined. -/
theorem xbzrleCacheResize_some_of_ge_page (maxNumItems value : BitVec 64)
    (h : 4096 ≤ value.toInt) : (xbzrleCacheResize (some maxNumItems) value).isSome := by
  have hlt : 2 * value.toNat < 2 ^ 64 := two_mul_toNat_lt_of_nonneg (by omega)
  have hint := toInt_eq_toNat_of_lt hlt
  have hmsb : value.msb = false := msb_eq_false_iff_two_mul_lt.2 hlt
  -- the page count `value / 4096` is positive and below `2 ^ 63`
  have hpages : (value.sdiv (BitVec.ofNat 64 Exec.TARGET_PAGE_SIZE)).toNat = value.toNat / 4096 := by
    rw [sdiv_eq, hmsb, show (BitVec.ofNat 64 Exec.TARGET_PAGE_SIZE).msb = false from rfl, udiv_eq,
      toNat_udiv]
    rfl
  have hpos : 1 ≤ value.toNat / 4096 := (Nat.le_div_iff_mul_le (by decide)).2 (by omega)
  have hne : value.sdiv (BitVec.ofNat 64 Exec.TARGET_PAGE_SIZE) ≠ 0 := by
    intro h0
    rw [h0, show (0 : BitVec 64).toNat = 0 from rfl] at hpages
    omega
  have hsle : ¬(value.sdiv (BitVec.ofNat 64 Exec.TARGET_PAGE_SIZE)).sle 0 = true := by
    rw [sle_iff_toInt_le, toInt_eq_toNat_of_lt (by rw [hpages]; omega), hpages,
      show (0 : BitVec 64).toInt = 0 from rfl]
    omega
  simp only [xbzrleCacheResize, cacheResize, pow2floor_of_ne_zero hne, Option.bind_some]
  split
  · rfl
  · simp only [cacheInit, if_neg hsle]
    split
    · simp [pow2floor_of_ne_zero hne]
    · rfl

/-- `migrate_set_cache_size` accepts every value, and below a page it
breaks: 0, and with a cache every size below a page, reach `pow2floor(0)`,
a shift by 64; without a cache, a size below a page is stored as a power
of two below a page, and a negative size as a negative one. -/
theorem qmpMigrateSetCacheSize_below_page (cache : Option (BitVec 64)) (s : MigrationState) :
    qmpMigrateSetCacheSize cache 0 s = none ∧
      (∀ value : BitVec 64, 0 < value.toInt → value.toInt < 4096 →
        (cache.isSome → qmpMigrateSetCacheSize cache value s = none) ∧
        (cache = none → ∃ size : BitVec 64,
          qmpMigrateSetCacheSize cache value s = some ({ s with xbzrleCacheSize := size.toInt }, .ok) ∧
            0 < size.toInt ∧ size.toInt < 4096)) ∧
      (∀ value : BitVec 64, value.toInt < 0 → cache = none → ∃ size : BitVec 64,
        qmpMigrateSetCacheSize cache value s = some ({ s with xbzrleCacheSize := size.toInt }, .ok) ∧
          size.toInt < 0) := by
  refine ⟨?_, ?_, ?_⟩
  · -- the value 0: `0 / TARGET_PAGE_SIZE` is 0 as well
    rw [qmpMigrateSetCacheSize_eq]
    cases cache with
    | none => simp [xbzrleCacheResize, pow2floor_zero]
    | some m =>
      simp [xbzrleCacheResize, cacheResize, pow2floor_zero]
  · intro value h0 h
    constructor
    · -- with a cache the page count is 0
      intro hc
      obtain ⟨m, rfl⟩ := Option.isSome_iff_exists.1 hc
      rw [qmpMigrateSetCacheSize_eq]
      simp [xbzrleCacheResize, cacheResize, sdiv_page_eq_zero h0.le h, pow2floor_zero]
    · -- without one the size is rounded down below the page
      rintro rfl
      have hlt : 2 * value.toNat < 2 ^ 64 := two_mul_toNat_lt_of_nonneg (by omega)
      have hint := toInt_eq_toNat_of_lt hlt
      have hv : value.toNat ≠ 0 := by omega
      have hne : value ≠ 0 := fun h0 => hv (by rw [h0]; rfl)
      have hL : Nat.log2 value.toNat < 12 := (Nat.log2_lt hv).2 (by omega)
      have hpow : 2 ^ Nat.log2 value.toNat < 2 ^ 12 := Nat.pow_lt_pow_right (by decide) hL
      have hsize : (BitVec.ofNat 64 (2 ^ Nat.log2 value.toNat)).toInt = 2 ^ Nat.log2 value.toNat := by
        rw [toInt_eq_toNat_of_lt (by rw [toNat_ofNat, Nat.mod_eq_of_lt (by omega)]; omega),
          toNat_ofNat, Nat.mod_eq_of_lt (by omega)]
        push_cast
        rfl
      refine ⟨BitVec.ofNat 64 (2 ^ Nat.log2 value.toNat), ?_, ?_, ?_⟩
      · rw [qmpMigrateSetCacheSize_eq, xbzrleCacheResize, pow2floor_of_ne_zero hne, Option.map_some]
      · rw [hsize]
        exact_mod_cast Nat.two_pow_pos _
      · rw [hsize]
        exact_mod_cast hpow
  · -- a negative size has its top bit set, and that bit is its floor
    rintro value h rfl
    have hge : 2 ^ 64 ≤ 2 * value.toNat := toInt_neg_iff.1 h
    have hv : value.toNat ≠ 0 := by omega
    have hne : value ≠ 0 := fun h0 => hv (by rw [h0]; rfl)
    have h63 : Nat.log2 value.toNat = 63 := by
      have h1 := (Nat.log2_lt hv).2 value.isLt
      have h2 : ¬Nat.log2 value.toNat < 63 := fun hl => by
        have := (Nat.log2_lt hv).1 hl
        omega
      omega
    refine ⟨BitVec.ofNat 64 (2 ^ 63), ?_, by decide⟩
    rw [qmpMigrateSetCacheSize_eq, xbzrleCacheResize, pow2floor_of_ne_zero hne, h63, Option.map_some]

/-- A size of one byte without a cache: accepted, and stored as 1. -/
theorem qmpMigrateSetCacheSize_below_page_oneByte :
    0 < (1 : BitVec 64).toInt ∧ (1 : BitVec 64).toInt < 4096 ∧
      ∃ size : BitVec 64, qmpMigrateSetCacheSize none 1 currentMigration =
        some ({ currentMigration with xbzrleCacheSize := size.toInt }, .ok) ∧
          0 < size.toInt ∧ size.toInt < 4096 :=
  ⟨by decide, by decide,
    (((qmpMigrateSetCacheSize_below_page none currentMigration).2.1 1 (by decide) (by decide)).2 rfl)⟩

end QemuKvm.Migration.CacheSize
