import QemuKvm.Lib.Word
import QemuKvm.Migration.QemuFile

/-!
# XBZRLE delta encoding (savevm.c, cutils.c)

`xbzrle_encode_buffer(old, new, slen, dst, dlen)` describes `new` as a
patch on `old`: alternately the length of a run of bytes where the two
agree (a zero run of their xor) and the length and bytes of a run where
they differ, lengths in ULEB128 of one or two bytes. The last zero run is
left out. Scans go byte by byte up to the alignment of a `long`, then a
`long` at a time; the end of a differing run inside a `long` is found by
the zero-byte test on the xor of the two words (`Lib.Word`).
`xbzrle_decode_buffer` applies such a patch to a buffer.

The model keeps the loops of the source with their counters; `sizeofLong`
is `sizeof(long)`. Each scan is one function, and the lemmas say what it
computes: the length of the run of equal bytes (`eqLen`) or of differing
bytes (`neLen`) from a position. The runs of the pair of buffers
(`runsFrom`) are the abstract content of a patch.

Main results:

* `xbzrleEncodeBuffer_spec` — when the encoder returns `d ≥ 0`, its output
  is exactly the runs of `old` and `new`, encoded, and `d` is its length,
  at most `dlen`;
* `xbzrleDecodeBuffer_encodeRuns` — decoding encoded runs onto a buffer
  writes each differing run at its place and nothing else;
* `xbzrle_roundtrip` — hence decoding what the encoder wrote onto `old`
  gives `new`.
-/

namespace QemuKvm.Migration

/-- `buf[i]`. -/
def byteAt (buf : List UInt8) (i : ℕ) : UInt8 := buf.getD i 0

/-- `*(long *)(buf + i)`: the `sizeofLong` bytes at `i`, little-endian. -/
def readLong (sizeofLong : ℕ) (buf : List UInt8) (i : ℕ) : ℕ :=
  leWord ((List.range sizeofLong).map fun j => (byteAt buf (i + j)).toNat)

/-! ## ULEB128 of at most 14 bits -/

/-- `uleb128_encode_small`; its assertion `n <= 0x3fff` holds at every call
of the encoder (`xbzrleEncodeBuffer_spec`). -/
def uleb128EncodeSmall (n : ℕ) : List UInt8 :=
  if n < 0x80 then [n.toUInt8]
  else [((n &&& 0x7f) ||| 0x80).toUInt8, (n >>> 7).toUInt8]

/-- `uleb128_decode_small(in + i, &n)`: the number and the bytes read, or
`none` for its `-1`. -/
def uleb128DecodeSmall (input : List UInt8) (i : ℕ) : Option (ℕ × ℕ) :=
  let b0 := (byteAt input i).toNat
  if b0 &&& 0x80 = 0 then some (b0, 1)
  else
    let b1 := (byteAt input (i + 1)).toNat
    -- more than 14 bits
    if b1 &&& 0x80 ≠ 0 then none
    else some ((b0 &&& 0x7f) ||| (b1 <<< 7), 2)

/-! ## The encoder's scans -/

section Scans

variable (sizeofLong : ℕ) (old new : List UInt8) (slen : ℕ)

/-- `while (res && old_buf[i] == new_buf[i])`: the zero run byte by byte up
to the alignment of a `long`; returns the `res` left, `i` and `zrun_len`. -/
def zrunBytes : ℕ → ℕ → ℕ → ℕ × ℕ × ℕ
  | 0, i, z => (0, i, z)
  | res + 1, i, z =>
    if byteAt old i = byteAt new i then zrunBytes res (i + 1) (z + 1) else (res + 1, i, z)

/-- The zero run a `long` at a time, for at most `fuel` words. -/
def zrunWords : ℕ → ℕ → ℕ → ℕ × ℕ
  | 0, i, z => (i, z)
  | fuel + 1, i, z =>
    if i < slen ∧ readLong sizeofLong old i = readLong sizeofLong new i then
      zrunWords fuel (i + sizeofLong) (z + sizeofLong)
    else (i, z)

/-- "go over the rest": the zero run byte by byte to its end. -/
def zrunRest : ℕ → ℕ → ℕ → ℕ × ℕ
  | 0, i, z => (i, z)
  | fuel + 1, i, z =>
    if i < slen ∧ byteAt old i = byteAt new i then zrunRest fuel (i + 1) (z + 1) else (i, z)

/-- The whole zero-run scan from `i`: `i` and `zrun_len` after it. -/
def zrunScan (i : ℕ) : ℕ × ℕ :=
  let (res, i, z) := zrunBytes old new ((slen - i) % sizeofLong) i 0
  if res = 0 then
    let (i, z) := zrunWords sizeofLong old new slen slen i z
    zrunRest old new slen slen i z
  else (i, z)

/-- `while (res && old_buf[i] != new_buf[i])`. -/
def nzrunBytes : ℕ → ℕ → ℕ → ℕ × ℕ × ℕ
  | 0, i, n => (0, i, n)
  | res + 1, i, n =>
    if byteAt old i ≠ byteAt new i then nzrunBytes res (i + 1) (n + 1) else (res + 1, i, n)

/-- `while (old_buf[i] != new_buf[i])` inside a `long` known to hold an equal
byte; `fuel` bytes at most. -/
def nzrunFind : ℕ → ℕ → ℕ → ℕ × ℕ
  | 0, i, n => (i, n)
  | fuel + 1, i, n =>
    if byteAt old i ≠ byteAt new i then nzrunFind fuel (i + 1) (n + 1) else (i, n)

/-- The non-zero run a `long` at a time: the zero-byte test on the xor of
the two words finds the word where it ends. -/
def nzrunWords : ℕ → ℕ → ℕ → ℕ × ℕ
  | 0, i, n => (i, n)
  | fuel + 1, i, n =>
    if i < slen then
      let xor := readLong sizeofLong old i ^^^ readLong sizeofLong new i
      if hasZeroByte sizeofLong xor then nzrunFind old new sizeofLong i n
      else nzrunWords fuel (i + sizeofLong) (n + sizeofLong)
    else (i, n)

/-- The whole non-zero-run scan from `i`: `i` and `nzrun_len` after it. -/
def nzrunScan (i : ℕ) : ℕ × ℕ :=
  let (res, i, n) := nzrunBytes old new ((slen - i) % sizeofLong) i 0
  if res = 0 then nzrunWords sizeofLong old new slen slen i n else (i, n)

end Scans

/-! ## The encoder and the decoder -/

/-- `buf[start .. start + n)`. -/
def slice (buf : List UInt8) (start n : ℕ) : List UInt8 := (buf.drop start).take n

/-- The loop of `xbzrle_encode_buffer` from position `i`, with `d` bytes
written to `dst`; one round per run, and `fuel` rounds at most. Returns the
return value and the bytes written. -/
def encodeLoop (sizeofLong : ℕ) (old new : List UInt8) (slen dlen : ℕ) :
    ℕ → ℕ → ℕ → List UInt8 → ℤ × List UInt8
  | 0, _, d, dst => (d, dst)
  | fuel + 1, i, d, dst =>
    if i < slen then
      -- overflow
      if d + 2 > dlen then (-1, dst)
      else
        let (i, z) := zrunScan sizeofLong old new slen i
        -- buffer unchanged
        if z = slen then (0, dst)
        -- skip last zero run
        else if i = slen then (d, dst)
        else
          let dst := dst ++ uleb128EncodeSmall z
          let d := d + (uleb128EncodeSmall z).length
          let nzrunStart := i
          if d + 2 > dlen then (-1, dst)
          else
            let (i, n) := nzrunScan sizeofLong old new slen i
            let dst := dst ++ uleb128EncodeSmall n
            let d := d + (uleb128EncodeSmall n).length
            if d + n > dlen then (-1, dst)
            else encodeLoop sizeofLong old new slen dlen fuel i (d + n) (dst ++ slice new nzrunStart n)
    else (d, dst)

/-- `xbzrle_encode_buffer`, once its alignment assertion holds: every round
consumes at least one byte, so `slen + 1` rounds are enough. -/
def xbzrleEncodeBuffer (sizeofLong : ℕ) (old new : List UInt8) (slen dlen : ℕ) :
    ℤ × List UInt8 :=
  encodeLoop sizeofLong old new slen dlen (slen + 1) 0 0 []

/-- `memcpy(dst + d, bytes, n)` on a buffer long enough. -/
def copyInto (dst : List UInt8) (d : ℕ) (bytes : List UInt8) : List UInt8 :=
  dst.take d ++ bytes ++ dst.drop (d + bytes.length)

/-- The loop of `xbzrle_decode_buffer(src, slen, dst, dlen)` from position
`i` of `src` and `d` of `dst`; `fuel` rounds at most. -/
def decodeLoop (src : List UInt8) (slen dlen : ℕ) : ℕ → ℕ → ℕ → List UInt8 → ℤ × List UInt8
  | 0, _, d, dst => (d, dst)
  | fuel + 1, i, d, dst =>
    if i < slen then
      -- zrun
      if slen - i < 2 then (-1, dst)
      else
        match uleb128DecodeSmall src i with
        | none => (-1, dst)
        | some (count, ret) =>
          if i ≠ 0 ∧ count = 0 then (-1, dst)
          else
            let i := i + ret
            let d := d + count
            -- overflow
            if d > dlen then (-1, dst)
            -- nzrun
            else if slen - i < 2 then (-1, dst)
            else
              match uleb128DecodeSmall src i with
              | none => (-1, dst)
              | some (count, ret) =>
                if count = 0 then (-1, dst)
                else
                  let i := i + ret
                  -- overflow
                  if d + count > dlen ∨ i + count > slen then (-1, dst)
                  else decodeLoop src slen dlen fuel (i + count) (d + count)
                    (copyInto dst d (slice src i count))
    else (d, dst)

/-- `xbzrle_decode_buffer`: every round reads at least two bytes of `src`. -/
def xbzrleDecodeBuffer (src : List UInt8) (slen : ℕ) (dst : List UInt8) (dlen : ℕ) :
    ℤ × List UInt8 :=
  decodeLoop src slen dlen (slen + 1) 0 0 dst

/-! ## Runs of the two buffers -/

section Runs

variable (old new : List UInt8) (slen : ℕ)

/-- The run of equal bytes from `i`, for at most `k` bytes. -/
def eqLenFrom : ℕ → ℕ → ℕ
  | 0, _ => 0
  | k + 1, i => if byteAt old i = byteAt new i then eqLenFrom k (i + 1) + 1 else 0

/-- The run of differing bytes from `i`, for at most `k` bytes. -/
def neLenFrom : ℕ → ℕ → ℕ
  | 0, _ => 0
  | k + 1, i => if byteAt old i ≠ byteAt new i then neLenFrom k (i + 1) + 1 else 0

/-- The run of equal bytes from `i` within the first `slen`. -/
def eqLen (i : ℕ) : ℕ := eqLenFrom old new (slen - i) i

/-- The run of differing bytes from `i` within the first `slen`. -/
def neLen (i : ℕ) : ℕ := neLenFrom old new (slen - i) i

variable {old new slen}

theorem eqLen_succ {i : ℕ} (hi : i < slen) (h : byteAt old i = byteAt new i) :
    eqLen old new slen i = eqLen old new slen (i + 1) + 1 := by
  unfold eqLen
  rw [show slen - i = (slen - (i + 1)) + 1 by omega, eqLenFrom, if_pos h]

theorem eqLen_stop {i : ℕ} (h : ¬ (i < slen ∧ byteAt old i = byteAt new i)) :
    eqLen old new slen i = 0 := by
  unfold eqLen
  rcases Nat.lt_or_ge i slen with hi | hi
  · rw [show slen - i = (slen - (i + 1)) + 1 by omega, eqLenFrom, if_neg (fun he => h ⟨hi, he⟩)]
  · rw [Nat.sub_eq_zero_of_le hi, eqLenFrom]

theorem neLen_succ {i : ℕ} (hi : i < slen) (h : byteAt old i ≠ byteAt new i) :
    neLen old new slen i = neLen old new slen (i + 1) + 1 := by
  unfold neLen
  rw [show slen - i = (slen - (i + 1)) + 1 by omega, neLenFrom, if_pos h]

theorem neLen_stop {i : ℕ} (h : ¬ (i < slen ∧ byteAt old i ≠ byteAt new i)) :
    neLen old new slen i = 0 := by
  unfold neLen
  rcases Nat.lt_or_ge i slen with hi | hi
  · rw [show slen - i = (slen - (i + 1)) + 1 by omega, neLenFrom, if_neg (fun he => h ⟨hi, he⟩)]
  · rw [Nat.sub_eq_zero_of_le hi, neLenFrom]

/-- A run of equal bytes of known length. -/
theorem eqLen_add {i k : ℕ} (h : ∀ j < k, i + j < slen ∧ byteAt old (i + j) = byteAt new (i + j)) :
    eqLen old new slen i = k + eqLen old new slen (i + k) := by
  induction k generalizing i with
  | zero => simp
  | succ k ih =>
    obtain ⟨hi, he⟩ := h 0 (Nat.succ_pos k)
    rw [Nat.add_zero] at hi he
    have hrest : ∀ j < k, i + 1 + j < slen ∧ byteAt old (i + 1 + j) = byteAt new (i + 1 + j) := by
      intro j hj
      rw [show i + 1 + j = i + (j + 1) by omega]
      exact h (j + 1) (by omega)
    rw [eqLen_succ hi he, ih hrest, show i + 1 + k = i + (k + 1) by omega]
    omega

/-- A run of differing bytes of known length. -/
theorem neLen_add {i k : ℕ} (h : ∀ j < k, i + j < slen ∧ byteAt old (i + j) ≠ byteAt new (i + j)) :
    neLen old new slen i = k + neLen old new slen (i + k) := by
  induction k generalizing i with
  | zero => simp
  | succ k ih =>
    obtain ⟨hi, he⟩ := h 0 (Nat.succ_pos k)
    rw [Nat.add_zero] at hi he
    have hrest : ∀ j < k, i + 1 + j < slen ∧ byteAt old (i + 1 + j) ≠ byteAt new (i + 1 + j) := by
      intro j hj
      rw [show i + 1 + j = i + (j + 1) by omega]
      exact h (j + 1) (by omega)
    rw [neLen_succ hi he, ih hrest, show i + 1 + k = i + (k + 1) by omega]
    omega

variable (old new slen) in
theorem eqLen_le (i : ℕ) : i + eqLen old new slen i ≤ max i slen := by
  induction h : slen - i generalizing i with
  | zero => rw [eqLen_stop (by omega)]; omega
  | succ k ih =>
    by_cases he : byteAt old i = byteAt new i
    · rw [eqLen_succ (by omega) he]
      have := ih (i + 1) (by omega)
      omega
    · rw [eqLen_stop (by tauto)]; omega

variable (old new slen) in
theorem neLen_le (i : ℕ) : i + neLen old new slen i ≤ max i slen := by
  induction h : slen - i generalizing i with
  | zero => rw [neLen_stop (by omega)]; omega
  | succ k ih =>
    by_cases he : byteAt old i ≠ byteAt new i
    · rw [neLen_succ (by omega) he]
      have := ih (i + 1) (by omega)
      omega
    · rw [neLen_stop (by tauto)]; omega

/-- Within the run the bytes are equal. -/
theorem eqLen_eq {i j : ℕ} (hj : j < eqLen old new slen i) :
    byteAt old (i + j) = byteAt new (i + j) := by
  induction j generalizing i with
  | zero =>
    by_contra hne
    rw [eqLen_stop (by tauto)] at hj
    omega
  | succ j ih =>
    by_cases h : i < slen ∧ byteAt old i = byteAt new i
    · rw [eqLen_succ h.1 h.2] at hj
      simpa [Nat.add_assoc, Nat.add_comm 1] using ih (i := i + 1) (by omega)
    · rw [eqLen_stop h] at hj
      omega

/-- Within the run the bytes differ. -/
theorem neLen_ne {i j : ℕ} (hj : j < neLen old new slen i) :
    byteAt old (i + j) ≠ byteAt new (i + j) := by
  induction j generalizing i with
  | zero =>
    intro heq
    rw [neLen_stop (by tauto)] at hj
    omega
  | succ j ih =>
    by_cases h : i < slen ∧ byteAt old i ≠ byteAt new i
    · rw [neLen_succ h.1 h.2] at hj
      simpa [Nat.add_assoc, Nat.add_comm 1] using ih (i := i + 1) (by omega)
    · rw [neLen_stop h] at hj
      omega

/-- A run of equal bytes that ends before `slen` ends at a differing byte. -/
theorem eqLen_end {i : ℕ} (h : i + eqLen old new slen i < slen) :
    byteAt old (i + eqLen old new slen i) ≠ byteAt new (i + eqLen old new slen i) := by
  intro heq
  have : eqLen old new slen i =
      (eqLen old new slen i + 1) + eqLen old new slen (i + (eqLen old new slen i + 1)) :=
    eqLen_add fun j hj => by
      rcases Nat.lt_succ_iff_lt_or_eq.1 hj with hj | rfl
      · exact ⟨by omega, eqLen_eq hj⟩
      · exact ⟨h, heq⟩
  omega

/-- A run of differing bytes that ends before `slen` ends at an equal byte. -/
theorem neLen_end {i : ℕ} (h : i + neLen old new slen i < slen) :
    byteAt old (i + neLen old new slen i) = byteAt new (i + neLen old new slen i) := by
  by_contra hne
  have : neLen old new slen i =
      (neLen old new slen i + 1) + neLen old new slen (i + (neLen old new slen i + 1)) :=
    neLen_add fun j hj => by
      rcases Nat.lt_succ_iff_lt_or_eq.1 hj with hj | rfl
      · exact ⟨by omega, neLen_ne hj⟩
      · exact ⟨h, hne⟩
  omega

end Runs

/-! ## What the scans compute -/

section ScanSpec

variable {sizeofLong : ℕ} {old new : List UInt8} {slen : ℕ}

theorem bytes_readLong (buf : List UInt8) (i : ℕ) :
    Bytes ((List.range sizeofLong).map fun j => (byteAt buf (i + j)).toNat) := by
  intro b hb
  obtain ⟨j, -, rfl⟩ := List.mem_map.1 hb
  exact UInt8.toNat_lt _

/-- Two `long`s are equal exactly when their bytes are. -/
theorem readLong_eq_iff (i : ℕ) :
    readLong sizeofLong old i = readLong sizeofLong new i ↔
      ∀ j < sizeofLong, byteAt old (i + j) = byteAt new (i + j) := by
  unfold readLong
  constructor
  · intro h j hj
    have hmap := leWord_inj (bytes_readLong old i) (bytes_readLong new i) (by simp) h
    rw [List.map_inj_left] at hmap
    exact UInt8.toNat_inj.1 (hmap j (List.mem_range.2 hj))
  · intro h
    rw [List.map_inj_left.2 fun j hj => by rw [h j (List.mem_range.1 hj)]]

/-- The zero-byte test on the xor of two `long`s finds an equal byte. -/
theorem hasZeroByte_xor_iff (i : ℕ) :
    hasZeroByte sizeofLong (readLong sizeofLong old i ^^^ readLong sizeofLong new i) = true ↔
      ∃ j < sizeofLong, byteAt old (i + j) = byteAt new (i + j) := by
  unfold readLong
  have hbytes : Bytes ((List.range sizeofLong).map fun j =>
      (byteAt old (i + j)).toNat ^^^ (byteAt new (i + j)).toNat) := by
    intro b hb
    obtain ⟨j, -, rfl⟩ := List.mem_map.1 hb
    exact Nat.xor_lt_two_pow (UInt8.toNat_lt _) (UInt8.toNat_lt _)
  rw [← leWord_zipWith_xor (bytes_readLong old i) (bytes_readLong new i) (by simp),
    List.zipWith_map, List.zipWith_self]
  have hlen := hasZeroByte_iff hbytes
  rw [List.length_map, List.length_range] at hlen
  rw [hlen, List.mem_map]
  simp only [List.mem_range, Nat.xor_eq_zero_iff, UInt8.toNat_inj]

theorem zrunRest_spec {fuel i z : ℕ} (h : slen - i ≤ fuel) :
    zrunRest old new slen fuel i z = (i + eqLen old new slen i, z + eqLen old new slen i) := by
  induction fuel generalizing i z with
  | zero => rw [zrunRest, eqLen_stop (by omega)]; rfl
  | succ fuel ih =>
    rw [zrunRest]
    split_ifs with hc
    · rw [ih (by omega), eqLen_succ hc.1 hc.2]
      ext <;> simp only <;> omega
    · rw [eqLen_stop hc]; rfl

variable (old new) in
/-- The word loop of the zero-run scan stays on equal bytes and on the
alignment of a `long`. -/
theorem zrunWords_spec (fuel : ℕ) {i z : ℕ} (hal : sizeofLong ∣ slen - i) :
    ∃ k, zrunWords sizeofLong old new slen fuel i z = (i + k, z + k) ∧
      eqLen old new slen i = k + eqLen old new slen (i + k) := by
  induction fuel generalizing i z with
  | zero => exact ⟨0, rfl, by simp⟩
  | succ fuel ih =>
    rw [zrunWords]
    split_ifs with hc
    · -- a whole `long` of equal bytes lies before `slen`
      have hroom : sizeofLong ≤ slen - i := Nat.le_of_dvd (by omega) hal
      have hword : eqLen old new slen i = sizeofLong + eqLen old new slen (i + sizeofLong) :=
        eqLen_add fun j hj => ⟨by omega, (readLong_eq_iff i).1 hc.2 j hj⟩
      have hal' : sizeofLong ∣ slen - (i + sizeofLong) := by
        rw [← Nat.sub_sub]; exact Nat.dvd_sub hal (Nat.dvd_refl _)
      obtain ⟨k, hk, hlen⟩ := ih (z := z + sizeofLong) hal'
      refine ⟨sizeofLong + k, ?_, ?_⟩
      · rw [hk]; ext <;> simp only <;> omega
      · rw [hword, hlen, Nat.add_assoc i]; omega
    · exact ⟨0, rfl, by simp⟩

variable (old new) in
/-- The byte loop of a scan: it stops after `res` bytes or at the end of
the run. -/
theorem zrunBytes_spec {res i z : ℕ} (h : res ≤ slen - i) :
    ∃ k ≤ res, zrunBytes old new res i z = (res - k, i + k, z + k) ∧
      eqLen old new slen i = k + eqLen old new slen (i + k) ∧
      (k < res → eqLen old new slen (i + k) = 0) := by
  induction res generalizing i z with
  | zero => exact ⟨0, le_rfl, rfl, by simp, by omega⟩
  | succ res ih =>
    rw [zrunBytes]
    split_ifs with he
    · obtain ⟨k, hk, hbytes, hlen, hstop⟩ := ih (i := i + 1) (z := z + 1) (by omega)
      refine ⟨k + 1, by omega, ?_, ?_, ?_⟩
      · rw [hbytes]; ext <;> simp only <;> omega
      · rw [eqLen_succ (by omega) he, hlen, show i + 1 + k = i + (k + 1) by omega]; omega
      · intro hlt; rw [← show i + 1 + k = i + (k + 1) by omega]; exact hstop (by omega)
    · exact ⟨0, by omega, rfl, by simp, fun _ => eqLen_stop (by tauto)⟩

/-- The zero-run scan from `i` ends where the run of equal bytes does. -/
theorem zrunScan_spec (i : ℕ) :
    zrunScan sizeofLong old new slen i = (i + eqLen old new slen i, eqLen old new slen i) := by
  obtain ⟨k, hk, hbytes, hlen, hstop⟩ :=
    zrunBytes_spec old new (z := 0) (Nat.mod_le (slen - i) sizeofLong)
  unfold zrunScan
  rw [hbytes]
  dsimp only
  split_ifs with hres
  · -- the bytes up to the alignment were all equal: the words and the rest follow
    have hk' : k = (slen - i) % sizeofLong := by omega
    have hal : sizeofLong ∣ slen - (i + k) := by
      rw [hk', ← Nat.sub_sub]; exact Nat.dvd_sub_mod _
    obtain ⟨k2, hk2, hlen2⟩ := zrunWords_spec old new slen (z := 0 + k) hal
    rw [hk2]
    dsimp only
    rw [zrunRest_spec (by omega)]
    ext <;> simp only <;> omega
  · rw [hstop (by omega)] at hlen
    ext <;> simp only <;> omega

theorem nzrunFind_spec {fuel i n : ℕ}
    (h : ∃ j < fuel, i + j < slen ∧ byteAt old (i + j) = byteAt new (i + j)) :
    nzrunFind old new fuel i n = (i + neLen old new slen i, n + neLen old new slen i) := by
  induction fuel generalizing i n with
  | zero => obtain ⟨j, hj, -⟩ := h; omega
  | succ fuel ih =>
    obtain ⟨j, hj, hjs, hje⟩ := h
    rw [nzrunFind]
    split_ifs with hne
    · -- the equal byte lies further on
      have hj0 : j ≠ 0 := by rintro rfl; exact hne hje
      have hnext : ∃ j < fuel, i + 1 + j < slen ∧ byteAt old (i + 1 + j) = byteAt new (i + 1 + j) :=
        ⟨j - 1, by omega, by rw [show i + 1 + (j - 1) = i + j by omega]; exact ⟨hjs, hje⟩⟩
      rw [ih hnext, neLen_succ (by omega) hne]
      ext <;> simp only <;> omega
    · rw [neLen_stop (by tauto)]; rfl

/-- The word loop of the non-zero-run scan, with fuel for every `long` left. -/
theorem nzrunWords_spec {fuel i n : ℕ} (hal : sizeofLong ∣ slen - i)
    (hfuel : slen - i ≤ fuel * sizeofLong) :
    nzrunWords sizeofLong old new slen fuel i n =
      (i + neLen old new slen i, n + neLen old new slen i) := by
  induction fuel generalizing i n with
  | zero => rw [nzrunWords, neLen_stop (by omega)]; rfl
  | succ fuel ih =>
    rw [nzrunWords]
    by_cases hi : i < slen
    · rw [if_pos hi]
      dsimp only
      have hroom : sizeofLong ≤ slen - i := Nat.le_of_dvd (by omega) hal
      split_ifs with hz
      · -- an equal byte inside this `long`: the byte loop finds it
        obtain ⟨j, hj, hje⟩ := (hasZeroByte_xor_iff i).1 hz
        exact nzrunFind_spec ⟨j, hj, by omega, hje⟩
      · -- a whole `long` of differing bytes
        have hall : ∀ j < sizeofLong, i + j < slen ∧ byteAt old (i + j) ≠ byteAt new (i + j) :=
          fun j hj => ⟨by omega, fun he => hz ((hasZeroByte_xor_iff i).2 ⟨j, hj, he⟩)⟩
        have hal' : sizeofLong ∣ slen - (i + sizeofLong) := by
          rw [← Nat.sub_sub]; exact Nat.dvd_sub hal (Nat.dvd_refl _)
        rw [ih hal' (by rw [Nat.succ_mul] at hfuel; omega), neLen_add hall]
        ext <;> simp only <;> omega
    · rw [if_neg hi, neLen_stop (by tauto)]; rfl

variable (old new) in
theorem nzrunBytes_spec {res i n : ℕ} (h : res ≤ slen - i) :
    ∃ k ≤ res, nzrunBytes old new res i n = (res - k, i + k, n + k) ∧
      neLen old new slen i = k + neLen old new slen (i + k) ∧
      (k < res → neLen old new slen (i + k) = 0) := by
  induction res generalizing i n with
  | zero => exact ⟨0, le_rfl, rfl, by simp, by omega⟩
  | succ res ih =>
    rw [nzrunBytes]
    split_ifs with hne
    · obtain ⟨k, hk, hbytes, hlen, hstop⟩ := ih (i := i + 1) (n := n + 1) (by omega)
      refine ⟨k + 1, by omega, ?_, ?_, ?_⟩
      · rw [hbytes]; ext <;> simp only <;> omega
      · rw [neLen_succ (by omega) hne, hlen, show i + 1 + k = i + (k + 1) by omega]; omega
      · intro hlt; rw [← show i + 1 + k = i + (k + 1) by omega]; exact hstop (by omega)
    · exact ⟨0, by omega, rfl, by simp, fun _ => neLen_stop (by tauto)⟩

/-- The non-zero-run scan from `i` ends where the run of differing bytes does. -/
theorem nzrunScan_spec (hw : 0 < sizeofLong) (i : ℕ) :
    nzrunScan sizeofLong old new slen i = (i + neLen old new slen i, neLen old new slen i) := by
  obtain ⟨k, hk, hbytes, hlen, hstop⟩ :=
    nzrunBytes_spec old new (n := 0) (Nat.mod_le (slen - i) sizeofLong)
  unfold nzrunScan
  rw [hbytes]
  dsimp only
  split_ifs with hres
  · have hk' : k = (slen - i) % sizeofLong := by omega
    have hal : sizeofLong ∣ slen - (i + k) := by
      rw [hk', ← Nat.sub_sub]; exact Nat.dvd_sub_mod _
    have hfuel : slen - (i + k) ≤ slen * sizeofLong := by
      have := Nat.le_mul_of_pos_right slen hw; omega
    rw [nzrunWords_spec hal hfuel]
    ext <;> simp only <;> omega
  · rw [hstop (by omega)] at hlen
    ext <;> simp only <;> omega

end ScanSpec

/-! ## ULEB128 round trip -/

theorem byteAt_append_length (pre l : List UInt8) (j : ℕ) :
    byteAt (pre ++ l) (pre.length + j) = byteAt l j := by
  unfold byteAt
  rw [List.getD_append_right _ _ _ _ (by omega), Nat.add_sub_cancel_left]

theorem land_0x80_of_lt {x : ℕ} (h : x < 0x80) : x &&& 0x80 = 0 := by
  rw [show (0x80 : ℕ) = 2 ^ 7 from rfl, Nat.and_two_pow, Nat.testBit_lt_two_pow h]
  rfl

theorem uleb128EncodeSmall_length_pos (n : ℕ) : 0 < (uleb128EncodeSmall n).length := by
  unfold uleb128EncodeSmall
  split_ifs <;> simp

theorem uleb128EncodeSmall_length_le (n : ℕ) : (uleb128EncodeSmall n).length ≤ 2 := by
  unfold uleb128EncodeSmall
  split_ifs <;> simp

/-- The decoder reads back a length of at most 14 bits, wherever it stands
in the stream. -/
theorem uleb128DecodeSmall_encode {n : ℕ} (hn : n < 0x4000) (pre rest : List UInt8) :
    uleb128DecodeSmall (pre ++ (uleb128EncodeSmall n ++ rest)) pre.length =
      some (n, (uleb128EncodeSmall n).length) := by
  have hb0 := byteAt_append_length pre (uleb128EncodeSmall n ++ rest) 0
  have hb1 := byteAt_append_length pre (uleb128EncodeSmall n ++ rest) 1
  rw [Nat.add_zero] at hb0
  unfold uleb128DecodeSmall
  rw [hb0, hb1]
  unfold uleb128EncodeSmall
  split_ifs with hsmall
  · -- one byte
    have hb : (byteAt ([n.toUInt8] ++ rest) 0).toNat = n := by
      simp [byteAt, Nat.mod_eq_of_lt (show n < 256 by omega)]
    rw [hb, if_pos (land_0x80_of_lt hsmall)]
    rfl
  · -- two bytes: the low seven bits with the continuation bit, then the rest
    have hlow : (n &&& 0x7f) ||| 0x80 = n % 0x80 + 0x80 := by
      rw [show (0x7f : ℕ) = 2 ^ 7 - 1 from rfl, Nat.and_two_pow_sub_one_eq_mod, Nat.lor_comm,
        or_eq_add_of_dvd (i := 7) (by norm_num) (Nat.mod_lt _ (by norm_num)), Nat.add_comm]
      rfl
    have hb0' : (byteAt ([((n &&& 0x7f) ||| 0x80).toUInt8, (n >>> 7).toUInt8] ++ rest) 0).toNat =
        n % 0x80 + 0x80 := by
      simp only [byteAt, List.cons_append, List.getD_cons_zero, toNat_toUInt8, hlow]
      omega
    have hb1' : (byteAt ([((n &&& 0x7f) ||| 0x80).toUInt8, (n >>> 7).toUInt8] ++ rest) 1).toNat =
        n / 0x80 := by
      simp only [byteAt, List.cons_append, List.getD_cons_succ, List.getD_cons_zero, toNat_toUInt8,
        Nat.shiftRight_eq_div_pow]
      omega
    have hcont : (n % 0x80 + 0x80) &&& 0x80 ≠ 0 := by
      rw [show (0x80 : ℕ) = 2 ^ 7 from rfl, Nat.and_two_pow, Nat.add_comm,
        Nat.testBit_two_pow_add_eq, Nat.testBit_lt_two_pow (Nat.mod_lt _ (by norm_num))]
      simp
    rw [hb0', hb1', if_neg hcont, if_neg (by rw [land_0x80_of_lt (by omega)]; simp)]
    -- the two halves put back together
    have hback : ((n % 0x80 + 0x80) &&& 0x7f) ||| ((n / 0x80) <<< 7) = n := by
      rw [show (0x7f : ℕ) = 2 ^ 7 - 1 from rfl, Nat.and_two_pow_sub_one_eq_mod, Nat.shiftLeft_eq,
        Nat.lor_comm, or_eq_add_of_dvd (i := 7) (Dvd.intro_left _ rfl) (Nat.mod_lt _ (by norm_num))]
      omega
    rw [hback]
    rfl

/-! ## The runs of a pair of buffers, and their encoding -/

/-- One run of a patch: the length of the run of equal bytes before it and
the bytes of the run of differing bytes. -/
abbrev Run := ℕ × List UInt8

/-- The runs of `old` and `new` from `i`, `fuel` of them at most; the last
run of equal bytes is left out. -/
def runsFrom (old new : List UInt8) (slen : ℕ) : ℕ → ℕ → List Run
  | 0, _ => []
  | fuel + 1, i =>
    if i < slen then
      if i + eqLen old new slen i = slen then []
      else
        let start := i + eqLen old new slen i
        (eqLen old new slen i, slice new start (neLen old new slen start)) ::
          runsFrom old new slen fuel (start + neLen old new slen start)
    else []

/-- A patch on the wire: each run as two ULEB128 lengths and the bytes. -/
def encodeRuns (rs : List Run) : List UInt8 :=
  rs.flatMap fun r => uleb128EncodeSmall r.1 ++ uleb128EncodeSmall r.2.length ++ r.2

@[simp] theorem encodeRuns_nil : encodeRuns [] = [] := rfl

@[simp] theorem encodeRuns_cons (r : Run) (rs : List Run) :
    encodeRuns (r :: rs) =
      uleb128EncodeSmall r.1 ++ uleb128EncodeSmall r.2.length ++ r.2 ++ encodeRuns rs := by
  simp [encodeRuns]

/-- What the decoder accepts of a run: lengths of at most 14 bits and a
non-empty run of differing bytes. -/
def RunWF (r : Run) : Prop := r.1 < 0x4000 ∧ 0 < r.2.length ∧ r.2.length < 0x4000

/-- The decoder's grammar: the first run of equal bytes may be empty, the
others may not. -/
def RunsWellFormed : List Run → Prop
  | [] => True
  | r :: rs => RunWF r ∧ ∀ r' ∈ rs, RunWF r' ∧ 0 < r'.1

theorem slice_length {buf : List UInt8} {start n : ℕ} (h : start + n ≤ buf.length) :
    (slice buf start n).length = n := by
  simp only [slice, List.length_take, List.length_drop]
  omega

section EncodeSpec

variable {sizeofLong : ℕ} {old new : List UInt8} {slen dlen : ℕ}

/-- After a run of equal bytes that ends before `slen`, the run of
differing bytes is not empty. -/
theorem neLen_pos_of_eqLen {i : ℕ} (h : i + eqLen old new slen i < slen) :
    0 < neLen old new slen (i + eqLen old new slen i) := by
  rw [neLen_succ h (eqLen_end h)]
  omega

/-- The loop of the encoder writes the runs from `i`, encoded, or gives up
with `-1`, which it does only when they do not fit with two bytes to
spare. -/
theorem encodeLoop_spec (hw : 0 < sizeofLong) (hnew : slen ≤ new.length) {fuel i d : ℕ}
    {dst : List UInt8} (hd : d ≤ dlen) (h0 : i = 0 → d = 0) :
    ((encodeLoop sizeofLong old new slen dlen fuel i d dst).1 = -1 ∧
        dlen < d + (encodeRuns (runsFrom old new slen fuel i)).length + 2) ∨
      (encodeLoop sizeofLong old new slen dlen fuel i d dst =
          (((d + (encodeRuns (runsFrom old new slen fuel i)).length : ℕ) : ℤ),
            dst ++ encodeRuns (runsFrom old new slen fuel i)) ∧
        d + (encodeRuns (runsFrom old new slen fuel i)).length ≤ dlen) := by
  induction fuel generalizing i d dst with
  | zero => exact Or.inr ⟨by simp [encodeLoop, runsFrom], by simpa [runsFrom] using hd⟩
  | succ fuel ih =>
    rw [encodeLoop, runsFrom]
    by_cases hi : i < slen
    swap
    · rw [if_neg hi, if_neg hi]
      exact Or.inr ⟨by simp, by simpa using hd⟩
    rw [if_pos hi, if_pos hi]
    by_cases hov : d + 2 > dlen
    · exact Or.inl ⟨by rw [if_pos hov], by omega⟩
    rw [if_neg hov, zrunScan_spec]
    dsimp only
    have hzle := eqLen_le old new slen i
    by_cases hall : eqLen old new slen i = slen
    · -- the buffers are equal: only possible from the start, with nothing written
      have hi0 : i = 0 := by omega
      rw [if_pos hall, if_pos (by omega)]
      exact Or.inr ⟨by simp [h0 hi0], by simpa using hd⟩
    rw [if_neg hall]
    by_cases hend : i + eqLen old new slen i = slen
    · -- the last run of equal bytes is left out
      rw [if_pos hend, if_pos hend]
      exact Or.inr ⟨by simp, by simpa using hd⟩
    rw [if_neg hend, if_neg hend]
    set z := eqLen old new slen i with hz
    set n := neLen old new slen (i + z) with hn
    have hnpos : 0 < n := neLen_pos_of_eqLen (by omega)
    have hnle := neLen_le old new slen (i + z)
    have hslice : (slice new (i + z) n).length = n := slice_length (by omega)
    -- the length of what this round and the later ones write
    have hlen : (encodeRuns ((z, slice new (i + z) n) ::
        runsFrom old new slen fuel (i + z + n))).length =
          (uleb128EncodeSmall z).length + (uleb128EncodeSmall n).length + n +
            (encodeRuns (runsFrom old new slen fuel (i + z + n))).length := by
      simp only [encodeRuns_cons, hslice, List.length_append]
    rw [hlen]
    by_cases hov2 : d + (uleb128EncodeSmall z).length + 2 > dlen
    · exact Or.inl ⟨by rw [if_pos hov2], by omega⟩
    rw [if_neg hov2, nzrunScan_spec hw]
    dsimp only
    by_cases hov3 : d + (uleb128EncodeSmall z).length + (uleb128EncodeSmall n).length + n > dlen
    · exact Or.inl ⟨by rw [if_pos hov3], by omega⟩
    rw [if_neg hov3]
    rcases @ih (i + z + n) (d + (uleb128EncodeSmall z).length + (uleb128EncodeSmall n).length + n)
        (dst ++ uleb128EncodeSmall z ++ uleb128EncodeSmall n ++ slice new (i + z) n)
        (by omega) (by omega) with ⟨hfail, hbig⟩ | ⟨heq, hle⟩
    · exact Or.inl ⟨hfail, by omega⟩
    · -- the rounds after this one write the rest of the runs
      refine Or.inr ⟨?_, by omega⟩
      rw [heq, encodeRuns_cons]
      simp only [hslice, List.append_assoc]
      push_cast
      ring_nf

end EncodeSpec

/-! ## The decoder on encoded runs -/

/-- A patch applied to a buffer from position `d`: each run of differing
bytes copied in at its place. Returns the position after the last run and
the buffer. -/
def applyRuns : List Run → ℕ → List UInt8 → ℕ × List UInt8
  | [], d, dst => (d, dst)
  | r :: rs, d, dst => applyRuns rs (d + r.1 + r.2.length) (copyInto dst (d + r.1) r.2)

theorem le_applyRuns_fst (rs : List Run) (d : ℕ) (dst : List UInt8) :
    d ≤ (applyRuns rs d dst).1 := by
  induction rs generalizing d dst with
  | nil => exact le_rfl
  | cons r rs ih => exact le_trans (by omega) (ih _ _)

theorem RunsWellFormed.tail {r : Run} {rs : List Run} (h : RunsWellFormed (r :: rs)) :
    RunsWellFormed rs := by
  cases rs with
  | nil => trivial
  | cons r' rs => exact ⟨(h.2 r' List.mem_cons_self).1, fun r'' hr => h.2 r'' (List.mem_cons_of_mem _ hr)⟩

/-- The decoder applies encoded runs, wherever they start in its input, as
long as the buffer is long enough. -/
theorem decodeLoop_encodeRuns {dlen : ℕ} {rs : List Run} (hwf : RunsWellFormed rs)
    {pre post : List UInt8} (hpre : pre ≠ [] → ∀ r ∈ rs, 0 < r.1) {fuel d : ℕ}
    {dst : List UInt8} (hfuel : rs.length ≤ fuel) (hfit : (applyRuns rs d dst).1 ≤ dlen) :
    decodeLoop (pre ++ encodeRuns rs ++ post) (pre.length + (encodeRuns rs).length) dlen fuel
      pre.length d dst = (((applyRuns rs d dst).1 : ℤ), (applyRuns rs d dst).2) := by
  induction rs generalizing pre fuel d dst with
  | nil =>
    cases fuel <;> simp [decodeLoop, applyRuns]
  | cons r rs ih =>
    obtain ⟨fuel, rfl⟩ : ∃ f, fuel = f + 1 := ⟨fuel - 1, by simp at hfuel; omega⟩
    have htail := hwf.tail
    obtain ⟨⟨hz, hn0, hn⟩, hlater⟩ := hwf
    have hz1 := uleb128EncodeSmall_length_pos r.1
    have hn1 := uleb128EncodeSmall_length_pos r.2.length
    have hz2 := uleb128EncodeSmall_length_le r.1
    have hn2 := uleb128EncodeSmall_length_le r.2.length
    have hrest := le_applyRuns_fst rs (d + r.1 + r.2.length) (copyInto dst (d + r.1) r.2)
    -- the two lengths, read where they stand
    have hdz : uleb128DecodeSmall (pre ++ encodeRuns (r :: rs) ++ post) pre.length =
        some (r.1, (uleb128EncodeSmall r.1).length) := by
      rw [← uleb128DecodeSmall_encode hz pre (uleb128EncodeSmall r.2.length ++ r.2 ++
        encodeRuns rs ++ post)]
      simp
    have hdn : uleb128DecodeSmall (pre ++ encodeRuns (r :: rs) ++ post)
        (pre.length + (uleb128EncodeSmall r.1).length) =
          some (r.2.length, (uleb128EncodeSmall r.2.length).length) := by
      rw [← uleb128DecodeSmall_encode hn (pre ++ uleb128EncodeSmall r.1)
        (r.2 ++ encodeRuns rs ++ post)]
      simp
    have hbytes : slice (pre ++ encodeRuns (r :: rs) ++ post)
        (pre.length + (uleb128EncodeSmall r.1).length + (uleb128EncodeSmall r.2.length).length)
          r.2.length = r.2 := by
      simp only [slice, encodeRuns_cons, List.append_assoc]
      rw [← List.append_assoc pre, ← List.append_assoc (pre ++ _),
        List.drop_left' (by simp [Nat.add_assoc]), List.take_left' rfl]
    have hlen : (encodeRuns (r :: rs)).length = (uleb128EncodeSmall r.1).length +
        (uleb128EncodeSmall r.2.length).length + r.2.length + (encodeRuns rs).length := by
      simp [Nat.add_assoc]
    rw [decodeLoop, if_pos (by omega), if_neg (by omega), hdz]
    dsimp only
    rw [if_neg (fun h => by
        have := hpre (List.ne_nil_of_length_pos (by omega)) r List.mem_cons_self
        omega),
      if_neg (by simp only [applyRuns] at hfit; omega), if_neg (by omega), hdn]
    dsimp only
    rw [if_neg (by omega), if_neg (by simp only [applyRuns] at hfit; omega), hbytes]
    -- the remaining runs stand after this one
    have hih := @ih htail (pre ++ (uleb128EncodeSmall r.1 ++ uleb128EncodeSmall r.2.length ++ r.2))
      (fun _ r' hr' => (hlater r' hr').2) fuel (d + r.1 + r.2.length) (copyInto dst (d + r.1) r.2)
      (by simp at hfuel; omega) (by simpa only [applyRuns] using hfit)
    convert hih using 2
    all_goals simp [applyRuns, Nat.add_assoc]

/-! ## Applying the runs of two buffers -/

theorem byteAt_copyInto {dst bytes : List UInt8} {d : ℕ} (hd : d ≤ dst.length) (p : ℕ) :
    byteAt (copyInto dst d bytes) p =
      if p < d then byteAt dst p
      else if p < d + bytes.length then byteAt bytes (p - d) else byteAt dst p := by
  have hmin : min d dst.length = d := Nat.min_eq_left hd
  simp only [copyInto, byteAt, List.getD_eq_getElem?_getD, List.getElem?_append,
    List.getElem?_take, List.getElem?_drop, List.length_append, List.length_take, hmin]
  split_ifs <;> first | rfl | (congr 2; omega)

theorem byteAt_slice (buf : List UInt8) (start n j : ℕ) :
    byteAt (slice buf start n) j = if j < n then byteAt buf (start + j) else 0 := by
  simp only [slice, byteAt, List.getD_eq_getElem?_getD, List.getElem?_take, List.getElem?_drop]
  split_ifs <;> rfl

theorem length_copyInto {dst bytes : List UInt8} {d : ℕ} (h : d + bytes.length ≤ dst.length) :
    (copyInto dst d bytes).length = dst.length := by
  simp only [copyInto, List.length_append, List.length_take, List.length_drop]
  omega

theorem eq_of_byteAt {l l' : List UInt8} (hlen : l.length = l'.length)
    (h : ∀ p < l.length, byteAt l p = byteAt l' p) : l = l' := by
  apply List.ext_getElem hlen
  intro p h1 h2
  have := h p h1
  rwa [byteAt, byteAt, List.getD_eq_getElem _ _ h1, List.getD_eq_getElem _ _ h2] at this

section Patch

variable {old new : List UInt8} {slen : ℕ}

/-- A buffer that holds `new` before `i` and `old` from `i` on. -/
def PatchedTo (old new : List UInt8) (slen i : ℕ) (buf : List UInt8) : Prop :=
  buf.length = slen ∧ ∀ p < slen, byteAt buf p = if p < i then byteAt new p else byteAt old p

/-- Past the run of equal bytes from `i`, the buffer also holds `new`. -/
theorem PatchedTo.skip {i : ℕ} {buf : List UInt8} (h : PatchedTo old new slen i buf) :
    PatchedTo old new slen (i + eqLen old new slen i) buf := by
  refine ⟨h.1, fun p hp => ?_⟩
  rw [h.2 p hp]
  split_ifs with h1 h2 h2
  · rfl
  · omega
  · -- inside the run of equal bytes
    have := eqLen_eq (show p - i < eqLen old new slen i by omega)
    rwa [Nat.add_sub_cancel' (by omega)] at this
  · rfl

/-- Copying in the run of differing bytes moves the boundary past it. -/
theorem PatchedTo.copy {i n : ℕ} {buf : List UInt8} (hnew : new.length = slen) (hn : i + n ≤ slen)
    (h : PatchedTo old new slen i buf) :
    PatchedTo old new slen (i + n) (copyInto buf i (slice new i n)) := by
  have hslice : (slice new i n).length = n := slice_length (by omega)
  have hlen := h.1
  refine ⟨by rw [length_copyInto (by omega), hlen], fun p hp => ?_⟩
  rw [byteAt_copyInto (by omega), hslice]
  split_ifs with h1 h2 h3 <;> first | omega | skip
  · rw [h.2 p hp, if_pos h1]
  · rw [byteAt_slice, if_pos (by omega), Nat.add_sub_cancel' (by omega)]
  · rw [h.2 p hp, if_neg (by omega)]

theorem PatchedTo.eq_new {i : ℕ} {buf : List UInt8} (hnew : new.length = slen) (hi : slen ≤ i)
    (h : PatchedTo old new slen i buf) : buf = new := by
  obtain ⟨hlen, hbytes⟩ := h
  refine eq_of_byteAt (by rw [hlen, hnew]) fun p hp => ?_
  rw [hbytes p (by omega), if_pos (by omega)]

/-- Applying the runs from `i` to a buffer patched up to `i` gives `new`,
ending at most at `slen`. -/
theorem applyRuns_runsFrom (hnew : new.length = slen) {fuel i : ℕ} (hfuel : slen - i < fuel)
    {buf : List UInt8} (h : PatchedTo old new slen i buf) :
    (applyRuns (runsFrom old new slen fuel i) i buf).2 = new ∧
      (applyRuns (runsFrom old new slen fuel i) i buf).1 ≤ max i slen := by
  induction fuel generalizing i buf with
  | zero => omega
  | succ fuel ih =>
    rw [runsFrom]
    by_cases hi : i < slen
    swap
    · rw [if_neg hi]
      exact ⟨h.eq_new hnew (by omega), by simp [applyRuns]⟩
    rw [if_pos hi]
    have hskip := h.skip
    have hzle := eqLen_le old new slen i
    split_ifs with hend
    · -- the rest is a run of equal bytes
      exact ⟨hskip.eq_new hnew (by omega), by simp [applyRuns]⟩
    · dsimp only
      have hnle := neLen_le old new slen (i + eqLen old new slen i)
      have hpos := neLen_pos_of_eqLen (show i + eqLen old new slen i < slen by omega)
      have hslice := slice_length (show i + eqLen old new slen i +
        neLen old new slen (i + eqLen old new slen i) ≤ new.length by omega)
      have hcopy := hskip.copy hnew (n := neLen old new slen (i + eqLen old new slen i)) (by omega)
      obtain ⟨hbuf, hend'⟩ := ih (by omega) hcopy
      simp only [applyRuns, hslice]
      exact ⟨hbuf, by omega⟩

/-- After the first run, every run of equal bytes is at least one byte
long: a run of differing bytes ends at an equal byte. -/
theorem pos_of_mem_runsFrom {fuel i : ℕ} (h : i < slen → byteAt old i = byteAt new i) :
    ∀ r ∈ runsFrom old new slen fuel i, 0 < r.1 := by
  induction fuel generalizing i with
  | zero => simp [runsFrom]
  | succ fuel ih =>
    rw [runsFrom]
    split_ifs with hi hend
    · simp
    · intro r hr
      rcases List.mem_cons.1 hr with rfl | hr
      · rw [eqLen_succ hi (h hi)]; omega
      · exact ih (fun hlt => neLen_end hlt) r hr
    · simp

variable (hslen : slen ≤ 0x3fff) (hnew : new.length = slen)
include hslen hnew

/-- Every run is one the decoder accepts. -/
theorem runWF_of_mem_runsFrom {fuel i : ℕ} : ∀ r ∈ runsFrom old new slen fuel i, RunWF r := by
  induction fuel generalizing i with
  | zero => simp [runsFrom]
  | succ fuel ih =>
    rw [runsFrom]
    split_ifs with hi hend
    · simp
    · have hzle := eqLen_le old new slen i
      have hnle := neLen_le old new slen (i + eqLen old new slen i)
      have hpos := neLen_pos_of_eqLen (show i + eqLen old new slen i < slen by omega)
      intro r hr
      rcases List.mem_cons.1 hr with rfl | hr
      · refine ⟨by omega, ?_, ?_⟩ <;> rw [slice_length (by omega)] <;> omega
      · exact ih r hr
    · simp

/-- The runs of two buffers follow the decoder's grammar. -/
theorem runsFrom_wellFormed {fuel i : ℕ} : RunsWellFormed (runsFrom old new slen fuel i) := by
  have hwf : ∀ r ∈ runsFrom old new slen fuel i, RunWF r := runWF_of_mem_runsFrom hslen hnew
  cases fuel with
  | zero => trivial
  | succ fuel =>
    rw [runsFrom] at hwf ⊢
    split_ifs at hwf ⊢ with hi hend
    · trivial
    · exact ⟨hwf _ List.mem_cons_self, fun r' hr' =>
        ⟨hwf r' (List.mem_cons_of_mem _ hr'), pos_of_mem_runsFrom (fun hlt => neLen_end hlt) r' hr'⟩⟩
    · trivial

end Patch

theorem length_le_encodeRuns (rs : List Run) : rs.length ≤ (encodeRuns rs).length := by
  induction rs with
  | nil => simp
  | cons r rs ih =>
    have := uleb128EncodeSmall_length_pos r.1
    simp only [encodeRuns_cons, List.length_append, List.length_cons]
    omega

/-- A patch of no runs changes nothing. -/
theorem runsFrom_eq_nil_of_eq {old : List UInt8} {slen : ℕ} (fuel : ℕ) :
    runsFrom old old slen fuel 0 = [] := by
  have hall : eqLen old old slen 0 = slen := by
    rw [eqLen_add (k := slen) fun j hj => ⟨by omega, rfl⟩, eqLen_stop (by omega)]
    rfl
  cases fuel with
  | zero => rfl
  | succ fuel =>
    rw [runsFrom]
    split_ifs with hi hend
    · rfl
    · omega
    · rfl

/-! ## The encoder and the decoder together -/

/-- When the encoder does not give up, it writes the runs of `old` and
`new`, encoded, and returns their length, at most `dlen`. -/
theorem xbzrleEncodeBuffer_spec {sizeofLong : ℕ} (hw : 0 < sizeofLong) {old new : List UInt8}
    {slen dlen : ℕ} (hnew : slen ≤ new.length) :
    ((xbzrleEncodeBuffer sizeofLong old new slen dlen).1 = -1 ∧
        dlen < (encodeRuns (runsFrom old new slen (slen + 1) 0)).length + 2) ∨
      (xbzrleEncodeBuffer sizeofLong old new slen dlen =
          (((encodeRuns (runsFrom old new slen (slen + 1) 0)).length : ℤ),
            encodeRuns (runsFrom old new slen (slen + 1) 0)) ∧
        (encodeRuns (runsFrom old new slen (slen + 1) 0)).length ≤ dlen) := by
  rcases @encodeLoop_spec sizeofLong old new slen dlen hw hnew (slen + 1) 0 0 []
      (Nat.zero_le _) (fun _ => rfl) with ⟨h, hbig⟩ | ⟨h, hle⟩
  · exact Or.inl ⟨h, by simpa using hbig⟩
  · refine Or.inr ⟨?_, by simpa using hle⟩
    rw [xbzrleEncodeBuffer, h]
    simp

/-- The decoder applies a patch of well-formed runs that fits in its
buffer. -/
theorem xbzrleDecodeBuffer_encodeRuns {rs : List Run} (hwf : RunsWellFormed rs) {dst : List UInt8}
    {dlen : ℕ} (hfit : (applyRuns rs 0 dst).1 ≤ dlen) :
    xbzrleDecodeBuffer (encodeRuns rs) (encodeRuns rs).length dst dlen =
      (((applyRuns rs 0 dst).1 : ℤ), (applyRuns rs 0 dst).2) := by
  have h := @decodeLoop_encodeRuns dlen rs hwf [] [] (fun h => absurd rfl h)
    ((encodeRuns rs).length + 1) 0 dst (by have := length_le_encodeRuns rs; omega) hfit
  simpa [xbzrleDecodeBuffer] using h

/-- What the encoder returns when it does not give up: the runs of `old`
and `new`, encoded, and their length. -/
theorem xbzrleEncodeBuffer_eq_of_nonneg {sizeofLong : ℕ} (hw : 0 < sizeofLong)
    {old new : List UInt8} {slen dlen : ℕ} (hnew : slen ≤ new.length) {d : ℤ} {dst : List UInt8}
    (henc : xbzrleEncodeBuffer sizeofLong old new slen dlen = (d, dst)) (hd : 0 ≤ d) :
    d = (encodeRuns (runsFrom old new slen (slen + 1) 0)).length ∧
      dst = encodeRuns (runsFrom old new slen (slen + 1) 0) ∧
      (encodeRuns (runsFrom old new slen (slen + 1) 0)).length ≤ dlen := by
  rcases @xbzrleEncodeBuffer_spec sizeofLong hw old new slen dlen hnew with ⟨h, -⟩ | ⟨h, hle⟩
  · rw [henc] at h
    simp only at h
    omega
  · rw [henc, Prod.mk.injEq] at h
    exact ⟨h.1, h.2, hle⟩

/-- The encoder's runs, decoded onto `old`, give `new`. -/
theorem xbzrleDecodeBuffer_runsFrom {old new : List UInt8} {slen : ℕ} (hslen : slen ≤ 0x3fff)
    (hold : old.length = slen) (hnew : new.length = slen) :
    xbzrleDecodeBuffer (encodeRuns (runsFrom old new slen (slen + 1) 0))
        (encodeRuns (runsFrom old new slen (slen + 1) 0)).length old slen =
      (((applyRuns (runsFrom old new slen (slen + 1) 0) 0 old).1 : ℤ), new) ∧
      (applyRuns (runsFrom old new slen (slen + 1) 0) 0 old).1 ≤ slen := by
  obtain ⟨happ, hend⟩ := applyRuns_runsFrom hnew (show slen - 0 < slen + 1 by omega)
    (show PatchedTo old new slen 0 old from ⟨hold, fun p _ => by simp⟩)
  refine ⟨?_, by omega⟩
  rw [xbzrleDecodeBuffer_encodeRuns (runsFrom_wellFormed hslen hnew) (by omega), happ]

/-- The encoder returns `0` only for equal buffers. -/
theorem eq_of_xbzrleEncodeBuffer_zero {sizeofLong : ℕ} (hw : 0 < sizeofLong)
    {old new : List UInt8} {slen dlen : ℕ} (hslen : slen ≤ 0x3fff) (hold : old.length = slen)
    (hnew : new.length = slen) {dst : List UInt8}
    (henc : xbzrleEncodeBuffer sizeofLong old new slen dlen = (0, dst)) : old = new := by
  obtain ⟨h0, -, -⟩ := xbzrleEncodeBuffer_eq_of_nonneg hw (le_of_eq hnew.symm) henc le_rfl
  have hcount := length_le_encodeRuns (runsFrom old new slen (slen + 1) 0)
  have hnil : runsFrom old new slen (slen + 1) 0 = [] := List.eq_nil_of_length_eq_zero (by omega)
  -- decoding nothing leaves `old`, and decoding the runs gives `new`
  have hdec := (xbzrleDecodeBuffer_runsFrom hslen hold hnew).1
  rw [hnil] at hdec
  simpa [xbzrleDecodeBuffer, decodeLoop, applyRuns] using hdec

theorem xbzrle_roundtrip {sizeofLong : ℕ} (hw : 0 < sizeofLong) {old new : List UInt8}
    {slen dlen : ℕ} (hslen : slen ≤ 0x3fff) (hold : old.length = slen) (hnew : new.length = slen)
    {d : ℤ} {dst : List UInt8} (henc : xbzrleEncodeBuffer sizeofLong old new slen dlen = (d, dst))
    (hd : 0 ≤ d) :
    d ≤ dlen ∧ dst.length = d ∧ (d = 0 ↔ old = new) ∧
      (0 < d → ∃ ret, xbzrleDecodeBuffer dst d.toNat old slen = (ret, new) ∧ 0 ≤ ret ∧
        ret ≤ slen) ∧
      ∃ rs, dst = encodeRuns rs ∧ RunsWellFormed rs := by
  obtain ⟨rfl, rfl, hle⟩ := xbzrleEncodeBuffer_eq_of_nonneg hw (le_of_eq hnew.symm) henc hd
  obtain ⟨hdec, hend⟩ := xbzrleDecodeBuffer_runsFrom hslen hold hnew
  have hcount := length_le_encodeRuns (runsFrom old new slen (slen + 1) 0)
  refine ⟨by exact_mod_cast hle, rfl, ⟨fun h0 => ?_, fun heq => ?_⟩, fun _ => ?_, _, rfl,
    runsFrom_wellFormed hslen hnew⟩
  · rw [h0] at henc
    exact eq_of_xbzrleEncodeBuffer_zero hw hslen hold hnew henc
  · subst heq
    rw [runsFrom_eq_nil_of_eq]
    rfl
  · exact ⟨_, by rw [Int.toNat_natCast, hdec], by omega, by omega⟩

/-- A byte changed inside the first word: one run of one byte. -/
theorem xbzrle_roundtrip_oneByte :
    0 < 8 ∧ 8 ≤ 0x3fff ∧ (List.replicate 8 (0 : UInt8)).length = 8 ∧
      [0, 5, 0, 0, 0, 0, 0, 0].length = 8 ∧
      xbzrleEncodeBuffer 8 (List.replicate 8 0) [0, 5, 0, 0, 0, 0, 0, 0] 8 100 = (3, [1, 1, 5]) ∧
      (0 : ℤ) ≤ 3 ∧
    ((3 : ℤ) ≤ (100 : ℕ) ∧ ([1, 1, 5] : List UInt8).length = (3 : ℤ) ∧
      ((3 : ℤ) = 0 ↔ List.replicate 8 (0 : UInt8) = [0, 5, 0, 0, 0, 0, 0, 0]) ∧
      ((0 : ℤ) < 3 → ∃ ret, xbzrleDecodeBuffer [1, 1, 5] (3 : ℤ).toNat (List.replicate 8 0) 8 =
          (ret, [0, 5, 0, 0, 0, 0, 0, 0]) ∧ 0 ≤ ret ∧ ret ≤ (8 : ℕ)) ∧
      ∃ rs, [1, 1, 5] = encodeRuns rs ∧ RunsWellFormed rs) :=
  have henc : xbzrleEncodeBuffer 8 (List.replicate 8 0) [0, 5, 0, 0, 0, 0, 0, 0] 8 100 =
      (3, [1, 1, 5]) := by decide
  ⟨by decide, by decide, rfl, rfl, henc, by decide,
    @xbzrle_roundtrip 8 (by decide) (List.replicate 8 0) [0, 5, 0, 0, 0, 0, 0, 0] 8 100 (by decide)
      rfl rfl 3 [1, 1, 5] henc (by decide)⟩

/-! ## The decoder on any input

The decoder reads a stream the other side wrote, so nothing is known of
`src`. `decodeRound` is one round of its loop with the checks it makes:
two bytes left before each length, the zero run within `dlen`, the copy
within both buffers. Every round that goes on reads at least three bytes of
`src`, and every byte it reads or writes lies below `slen` and `dlen`. -/

section AnyInput

variable {src : List UInt8} {slen dlen : ℕ}

/-- One round of the loop of `xbzrle_decode_buffer` at `i < slen` with `d`:
`none` for its `return -1`, or where the differing bytes stand in `src`,
how many there are, and where in `dst` they go. -/
def decodeRound (src : List UInt8) (slen dlen i d : ℕ) : Option (ℕ × ℕ × ℕ) :=
  if slen - i < 2 then none
  else
    match uleb128DecodeSmall src i with
    | none => none
    | some (count, ret) =>
      if i ≠ 0 ∧ count = 0 then none
      else if d + count > dlen then none
      else if slen - (i + ret) < 2 then none
      else
        match uleb128DecodeSmall src (i + ret) with
        | none => none
        | some (count', ret') =>
          if count' = 0 then none
          else if d + count + count' > dlen ∨ i + ret + ret' + count' > slen then none
          else some (i + ret + ret', count', d + count)

theorem decodeLoop_succ (fuel i d : ℕ) (dst : List UInt8) :
    decodeLoop src slen dlen (fuel + 1) i d dst =
      if i < slen then
        match decodeRound src slen dlen i d with
        | none => ((-1 : ℤ), dst)
        | some (s, n, e) => decodeLoop src slen dlen fuel (s + n) (e + n) (copyInto dst e (slice src s n))
      else ((d : ℤ), dst) := by
  rw [decodeLoop]
  by_cases hi : i < slen
  swap
  · rw [if_neg hi, if_neg hi]
  rw [if_pos hi, if_pos hi, decodeRound]
  -- the tests of the source, in its order, on both sides
  by_cases h2 : slen - i < 2
  · simp only [h2, if_true]
  simp only [h2, if_false]
  rcases uleb128DecodeSmall src i with _ | ⟨count, ret⟩
  · rfl
  dsimp only
  by_cases hz : i ≠ 0 ∧ count = 0
  · rw [if_pos hz, if_pos hz]
  rw [if_neg hz, if_neg hz]
  by_cases hov : d + count > dlen
  · rw [if_pos hov, if_pos hov]
  rw [if_neg hov, if_neg hov]
  by_cases h2' : slen - (i + ret) < 2
  · rw [if_pos h2', if_pos h2']
  rw [if_neg h2', if_neg h2']
  rcases uleb128DecodeSmall src (i + ret) with _ | ⟨count', ret'⟩
  · rfl
  dsimp only
  by_cases h0 : count' = 0
  · rw [if_pos h0, if_pos h0]
  rw [if_neg h0, if_neg h0]
  by_cases hov' : d + count + count' > dlen ∨ i + ret + ret' + count' > slen
  · rw [if_pos hov', if_pos hov']
  rw [if_neg hov', if_neg hov']

theorem byteAt_take {l : List UInt8} {n j : ℕ} (h : j < n) : byteAt (l.take n) j = byteAt l j := by
  simp only [byteAt, List.getD_eq_getElem?_getD, List.getElem?_take, if_pos h]

theorem slice_take {l : List UInt8} {n i k : ℕ} (h : i + k ≤ n) : slice (l.take n) i k = slice l i k := by
  rw [slice, slice, List.drop_take, List.take_take, Nat.min_eq_left (by omega)]

theorem uleb128DecodeSmall_take {l : List UInt8} {n i : ℕ} (h : i + 2 ≤ n) :
    uleb128DecodeSmall (l.take n) i = uleb128DecodeSmall l i := by
  simp only [uleb128DecodeSmall, byteAt_take (show i < n by omega),
    byteAt_take (show i + 1 < n by omega)]

theorem uleb128DecodeSmall_ret {l : List UInt8} {i count ret : ℕ}
    (h : uleb128DecodeSmall l i = some (count, ret)) : 1 ≤ ret ∧ ret ≤ 2 := by
  unfold uleb128DecodeSmall at h
  dsimp only at h
  split_ifs at h <;> (cases h; omega)

/-- A round that goes on moves past what it read, and what it copies lies in
both buffers. -/
theorem decodeRound_some {i d s n e : ℕ} (h : decodeRound src slen dlen i d = some (s, n, e)) :
    i < s ∧ 0 < n ∧ s + n ≤ slen ∧ d ≤ e ∧ e + n ≤ dlen := by
  unfold decodeRound at h
  split_ifs at h with h2
  split at h
  · cases h
  rename_i count ret hz
  split_ifs at h with hz0 hov h2'
  split at h
  · cases h
  rename_i count' ret' hn
  split_ifs at h with h0 hov'
  cases h
  have := (uleb128DecodeSmall_ret hz).1
  omega

/-- A round reads `src` only below `slen`. -/
theorem decodeRound_take (i d : ℕ) :
    decodeRound (src.take slen) slen dlen i d = decodeRound src slen dlen i d := by
  unfold decodeRound
  by_cases h2 : slen - i < 2
  · rw [if_pos h2, if_pos h2]
  rw [if_neg h2, if_neg h2, uleb128DecodeSmall_take (by omega)]
  rcases uleb128DecodeSmall src i with _ | ⟨count, ret⟩
  · rfl
  dsimp only
  by_cases h2' : slen - (i + ret) < 2
  · simp only [h2', if_true, ite_self]
  rw [uleb128DecodeSmall_take (l := src) (show i + ret + 2 ≤ slen by omega)]

/-- The decoder reads `src` only below `slen`. -/
theorem decodeLoop_take (fuel i d : ℕ) (dst : List UInt8) :
    decodeLoop (src.take slen) slen dlen fuel i d dst = decodeLoop src slen dlen fuel i d dst := by
  induction fuel generalizing i d dst with
  | zero => rfl
  | succ fuel ih =>
    rw [decodeLoop_succ, decodeLoop_succ, decodeRound_take]
    split_ifs with hi
    · rcases hr : decodeRound src slen dlen i d with _ | ⟨s, n, e⟩
      · rfl
      · obtain ⟨-, -, hsn, -, -⟩ := decodeRound_some hr
        dsimp only
        rw [slice_take hsn, ih]
    · rfl

/-- Every round reads at least two bytes, so a round more than `slen - i`
changes nothing: the loop has ended by then. -/
theorem decodeLoop_fuel {fuel i d : ℕ} {dst : List UInt8} (hfuel : slen - i < fuel) :
    decodeLoop src slen dlen (fuel + 1) i d dst = decodeLoop src slen dlen fuel i d dst := by
  induction fuel generalizing i d dst with
  | zero => omega
  | succ fuel ih =>
    rw [decodeLoop_succ (fuel + 1), decodeLoop_succ fuel]
    split_ifs with hi
    · rcases hr : decodeRound src slen dlen i d with _ | ⟨s, n, e⟩
      · rfl
      · obtain ⟨his, hn, -, -, -⟩ := decodeRound_some hr
        exact ih (by omega)
    · rfl

theorem decodeLoop_fuel_le {fuel i d : ℕ} {dst : List UInt8} (hfuel : slen - i < fuel) :
    ∀ k, decodeLoop src slen dlen (fuel + k) i d dst = decodeLoop src slen dlen fuel i d dst := by
  intro k
  induction k with
  | zero => rfl
  | succ k ih => rw [← Nat.add_assoc, decodeLoop_fuel (by omega), ih]

/-- What the loop returns from `d`: `-1`, or a length from `d` up to
`dlen`; and the buffer it leaves is `dst` changed below `dlen` only. -/
theorem decodeLoop_bounds {fuel i d : ℕ} {dst : List UInt8} (hd : d ≤ dlen) (hdst : dlen ≤ dst.length) :
    ((decodeLoop src slen dlen fuel i d dst).1 = -1 ∨
        (d ≤ (decodeLoop src slen dlen fuel i d dst).1 ∧ (decodeLoop src slen dlen fuel i d dst).1 ≤ dlen)) ∧
      (decodeLoop src slen dlen fuel i d dst).2.length = dst.length ∧
      ∀ p, dlen ≤ p → byteAt (decodeLoop src slen dlen fuel i d dst).2 p = byteAt dst p := by
  induction fuel generalizing i d dst with
  | zero =>
    refine ⟨.inr ⟨le_rfl, ?_⟩, rfl, fun _ _ => rfl⟩
    show (d : ℤ) ≤ dlen
    exact_mod_cast hd
  | succ fuel ih =>
    rw [decodeLoop_succ]
    split_ifs with hi
    · rcases hr : decodeRound src slen dlen i d with _ | ⟨s, n, e⟩
      · exact ⟨.inl rfl, rfl, fun _ _ => rfl⟩
      -- the copy stays below `dlen`, and the rest of the loop starts after it
      obtain ⟨-, -, -, hde, hen⟩ := decodeRound_some hr
      have hsl : (slice src s n).length ≤ n := by simp [slice]
      have hlen : (copyInto dst e (slice src s n)).length = dst.length := length_copyInto (by omega)
      obtain ⟨hret, hlen', hbytes⟩ := @ih (s + n) (e + n) (copyInto dst e (slice src s n)) hen
        (by omega)
      dsimp only
      refine ⟨?_, by rw [hlen', hlen], fun p hp => ?_⟩
      · rcases hret with h | ⟨h1, h2⟩
        · exact .inl h
        · exact .inr ⟨by omega, h2⟩
      · rw [hbytes p hp, byteAt_copyInto (by omega), if_neg (by omega), if_neg (by omega)]
    · refine ⟨.inr ⟨le_rfl, ?_⟩, rfl, fun _ _ => rfl⟩
      show (d : ℤ) ≤ dlen
      exact_mod_cast hd

/-- What `xbzrle_decode_buffer(src, slen, dst, dlen)` may do on any input:
read `src` below `slen` only, end within `slen + 1` rounds, write `dst`
below `dlen` only, and return `-1` or a length up to `dlen`. -/
structure DecodeSafe (src : List UInt8) (slen : ℕ) (dst : List UInt8) (dlen : ℕ) : Prop where
  reads : xbzrleDecodeBuffer (src.take slen) slen dst dlen = xbzrleDecodeBuffer src slen dst dlen
  ends : ∀ fuel, slen < fuel →
    decodeLoop src slen dlen fuel 0 0 dst = xbzrleDecodeBuffer src slen dst dlen
  length_eq : (xbzrleDecodeBuffer src slen dst dlen).2.length = dst.length
  writes : ∀ p, dlen ≤ p → byteAt (xbzrleDecodeBuffer src slen dst dlen).2 p = byteAt dst p
  ret : (xbzrleDecodeBuffer src slen dst dlen).1 = -1 ∨
    (0 ≤ (xbzrleDecodeBuffer src slen dst dlen).1 ∧ (xbzrleDecodeBuffer src slen dst dlen).1 ≤ dlen)

theorem decodeSafe (src : List UInt8) (slen : ℕ) {dst : List UInt8} {dlen : ℕ}
    (hdst : dlen ≤ dst.length) : DecodeSafe src slen dst dlen := by
  obtain ⟨hret, hlen, hbytes⟩ :=
    @decodeLoop_bounds src slen dlen (slen + 1) 0 0 dst (Nat.zero_le _) hdst
  refine ⟨decodeLoop_take _ _ _ _, fun fuel hfuel => ?_, hlen, hbytes, ?_⟩
  · -- any number of rounds past `slen` gives what `slen + 1` rounds give
    obtain ⟨k, rfl⟩ : ∃ k, fuel = slen + 1 + k := ⟨fuel - (slen + 1), by omega⟩
    exact decodeLoop_fuel_le (by omega) k
  · rcases hret with h | ⟨h1, h2⟩
    · exact .inl h
    · exact .inr ⟨le_trans (by simp) h1, h2⟩

end AnyInput

end QemuKvm.Migration
