import Mathlib.Algebra.Order.BigOperators.Group.List
import QemuKvm.Lib.OnesComplement

/-!
# IPv4 TCP and UDP checksums (net/checksum.c)

`net_checksum_calculate` finds the TCP or UDP checksum field of an Ethernet
frame from the IP header, zeroes it, and stores there the Internet checksum
of the pseudo-header and the segment. Its sum is exactly that checksum
(`netChecksumTcpudp_eq`, over `Lib.OnesComplement`): the wide `uint32_t`
sum never wraps for a 16-bit length, and folding its carries back in is the
one's-complement sum. `netChecksumCalculate_eq_store` gives what is stored,
and `netChecksumCalculate_of_ne` that nothing else changes.

The function never reads its `length`: the header length, the total length,
and with them the field's offset and the segment's extent, all come from
the packet. virtio-net's `work_around_broken_dhclient` hands it frames of 28
to 1499 octets whose IP header it does not check, and
`workAroundBrokenDhclient_writes_past_frame` is a 42-octet frame whose
checksum is stored at offset 80. A UDP checksum that computes to 0 is
stored as 0 (`netChecksumCalculate_udpZero`).

Memory is `ℕ → UInt8`: the octet at `data + i` for every `i`, in the frame
or past it.
-/

namespace QemuKvm.Net

def PROTO_TCP : ℕ := 6
def PROTO_UDP : ℕ := 17

/-! ## net/checksum.c -/

/-- What `net_checksum_add` adds for the octet at `i`: at an even offset it
is the high half of a word. -/
def checksumAddend (buf : ℕ → UInt8) (i : ℕ) : ℕ :=
  if i &&& 1 ≠ 0 then (buf i).toNat else (buf i).toNat <<< 8

/-- `net_checksum_add(len, buf)`; `sum` is a `uint32_t`. -/
def netChecksumAdd (len : ℕ) (buf : ℕ → UInt8) : ℕ :=
  (List.range len).foldl (fun sum i => (sum + checksumAddend buf i) % 2 ^ 32) 0

theorem finishLoop_lt {sum : ℕ} (h : ¬ sum >>> 16 = 0) : (sum &&& 0xFFFF) + (sum >>> 16) < sum := by
  have hand : sum &&& 0xFFFF = sum % 2 ^ 16 := Nat.and_two_pow_sub_one_eq_mod sum 16
  rw [hand, Nat.shiftRight_eq_div_pow] at *
  omega

/-- The `while (sum >> 16)` loop of `net_checksum_finish`. -/
def finishLoop (sum : ℕ) : ℕ :=
  if sum >>> 16 = 0 then sum else finishLoop ((sum &&& 0xFFFF) + (sum >>> 16))
termination_by sum
decreasing_by exact finishLoop_lt (by assumption)

/-- `net_checksum_finish(sum)`: `~sum` returned as a `uint16_t`. -/
def netChecksumFinish (sum : ℕ) : ℕ := (2 ^ 32 - 1 - finishLoop sum) % 2 ^ 16

/-- `net_checksum_tcpudp(length, proto, addrs, buf)`. -/
def netChecksumTcpudp (length proto : ℕ) (addrs buf : ℕ → UInt8) : ℕ :=
  let sum := netChecksumAdd length buf
  let sum := (sum + netChecksumAdd 8 addrs) % 2 ^ 32
  let sum := (sum + (proto + length)) % 2 ^ 32
  netChecksumFinish sum

/-- The IPv4 header length, `(data[14] & 0x0f) * 4`. -/
def ipHlen (data : ℕ → UInt8) : ℕ := ((data 14).toNat &&& 0x0f) * 4

/-- The IPv4 total length, `data[16] << 8 | data[17]`. -/
def ipTotalLen (data : ℕ → UInt8) : ℕ := (data 16).toNat <<< 8 ||| (data 17).toNat

/-- The `switch (proto)`: where the checksum sits in the segment. -/
def csumOffset (proto : ℕ) : Option ℕ :=
  if proto = PROTO_TCP then some 16 else if proto = PROTO_UDP then some 6 else none

/-- A 16-bit value stored big-endian at `o`. -/
def storeBe16 (data : ℕ → UInt8) (o v : ℕ) : ℕ → UInt8 :=
  Function.update (Function.update data o (v >>> 8).toUInt8) (o + 1) (v &&& 0xff).toUInt8

-- the source never reads `length`
set_option linter.unusedVariables false in
/-- `net_checksum_calculate(data, length)`: the memory after it, `data i`
being the octet at `data + i`, in the frame or past it. -/
def netChecksumCalculate (data : ℕ → UInt8) (length : ℕ) : ℕ → UInt8 :=
  -- not IPv4
  if (data 14).toNat &&& 0xf0 ≠ 0x40 then data
  else
    let hlen := ipHlen data
    let plen : ℤ := (ipTotalLen data : ℤ) - hlen
    let proto := (data 23).toNat
    match csumOffset proto with
    | none => data
    | some csumOffset =>
      if plen < csumOffset + 2 then data
      else
        let o := 14 + hlen + csumOffset
        let data := storeBe16 data o 0
        let csum := netChecksumTcpudp (plen.toNat % 2 ^ 16) proto (fun i => data (14 + 12 + i))
          (fun i => data (14 + hlen + i))
        storeBe16 data o csum

/-! ## virtio-net -/

/-- `work_around_broken_dhclient(hdr, buf, size)`: whether
`VIRTIO_NET_HDR_F_NEEDS_CSUM` stays set in `hdr->flags`, and the memory. -/
def workAroundBrokenDhclient (needsCsum : Bool) (buf : ℕ → UInt8) (size : ℕ) :
    Bool × (ℕ → UInt8) :=
  if needsCsum = true ∧ (size > 27 ∧ size < 1500) ∧ (buf 12 = 0x08 ∧ buf 13 = 0x00) ∧
      buf 23 = 17 ∧ (buf 34 = 0 ∧ buf 35 = 67) then
    (false, netChecksumCalculate buf size)
  else (needsCsum, buf)

/-! ## The sum of the words -/

/-- The octets `buf 0, …, buf (len - 1)`. -/
def octets (buf : ℕ → UInt8) (len : ℕ) : List ℕ := (List.range len).map fun i => (buf i).toNat

theorem octets_lt (buf : ℕ → UInt8) (len : ℕ) : ∀ b ∈ octets buf len, b < 256 := by
  intro b hb
  obtain ⟨i, -, rfl⟩ := List.mem_map.1 hb
  exact (buf i).toNat_lt

theorem octets_succ (buf : ℕ → UInt8) (len : ℕ) :
    octets buf (len + 1) = octets buf len ++ [(buf len).toNat] := by
  simp [octets, List.range_succ]

@[simp] theorem length_octets (buf : ℕ → UInt8) (len : ℕ) : (octets buf len).length = len := by
  simp [octets]

/-- A sum taken modulo `m` at each step is the sum modulo `m`. -/
theorem foldl_add_mod (f : ℕ → ℕ) (m : ℕ) :
    ∀ (l : List ℕ) (a : ℕ), l.foldl (fun s i => (s + f i) % m) (a % m) = (a + (l.map f).sum) % m := by
  intro l
  induction l with
  | nil => intro a; simp
  | cons i l ih =>
    intro a
    rw [List.foldl_cons, Nat.mod_add_mod, ih, List.map_cons, List.sum_cons, Nat.add_assoc]

theorem checksumAddend_even (buf : ℕ → UInt8) (k : ℕ) :
    checksumAddend buf (2 * k) = (buf (2 * k)).toNat * 256 := by
  rw [checksumAddend, if_neg (by rw [Nat.and_one_is_mod]; omega), Nat.shiftLeft_eq]

theorem checksumAddend_odd (buf : ℕ → UInt8) (k : ℕ) :
    checksumAddend buf (2 * k + 1) = (buf (2 * k + 1)).toNat := by
  rw [checksumAddend, if_pos (by rw [Nat.and_one_is_mod]; omega)]

/-- Two octets at a time, the addends are the words. -/
theorem sum_checksumAddend_even (buf : ℕ → UInt8) (k : ℕ) :
    ((List.range (2 * k)).map (checksumAddend buf)).sum = (words (octets buf (2 * k))).sum := by
  induction k with
  | zero => rfl
  | succ k ih =>
    have hk : 2 * (k + 1) = 2 * k + 1 + 1 := by ring
    have hoct : octets buf (2 * k + 1 + 1) =
        octets buf (2 * k) ++ [(buf (2 * k)).toNat, (buf (2 * k + 1)).toNat] := by
      rw [octets_succ, octets_succ, List.append_assoc, List.singleton_append]
    have hrange : List.range (2 * k + 1 + 1) = List.range (2 * k) ++ [2 * k, 2 * k + 1] := by
      rw [List.range_succ, List.range_succ, List.append_assoc, List.singleton_append]
    rw [hk, hoct, hrange, words_append (by rw [length_octets]; exact even_two_mul k), List.map_append,
      List.sum_append, List.sum_append, ih]
    simp only [List.map_cons, List.map_nil, List.sum_cons, List.sum_nil, checksumAddend_even,
      checksumAddend_odd, words]
    ring

theorem sum_checksumAddend (buf : ℕ → UInt8) (len : ℕ) :
    ((List.range len).map (checksumAddend buf)).sum = (words (octets buf len)).sum := by
  obtain ⟨k, rfl | rfl⟩ := Nat.even_or_odd' len
  · exact sum_checksumAddend_even buf k
  · -- an odd last octet is a word of its own
    rw [List.range_succ, octets_succ, words_append (by rw [length_octets]; exact even_two_mul k),
      List.map_append, List.sum_append, List.sum_append, sum_checksumAddend_even]
    simp [checksumAddend_even, words]

theorem netChecksumAdd_eq (len : ℕ) (buf : ℕ → UInt8) :
    netChecksumAdd len buf = (words (octets buf len)).sum % 2 ^ 32 := by
  have h := foldl_add_mod (checksumAddend buf) (2 ^ 32) (List.range len) 0
  rw [Nat.zero_mod, zero_add, sum_checksumAddend] at h
  exact h

/-! ## Folding and complementing -/

/-- The loop of `net_checksum_finish` folds the carries back in. -/
theorem finishLoop_eq (sum : ℕ) : finishLoop sum = foldCarries sum := by
  induction sum using Nat.strong_induction_on with
  | _ sum ih =>
    have hand : sum &&& 0xFFFF = sum % 2 ^ 16 := Nat.and_two_pow_sub_one_eq_mod sum 16
    have hshift : sum >>> 16 = sum / 2 ^ 16 := Nat.shiftRight_eq_div_pow sum 16
    rw [finishLoop, foldCarries]
    by_cases hs : sum < 2 ^ 16
    · rw [if_pos (by omega), if_pos hs]
    · have hlt := @finishLoop_lt sum (by omega)
      rw [if_neg (by omega), if_neg hs, ih _ hlt, hand, hshift]

theorem netChecksumFinish_eq (sum : ℕ) : netChecksumFinish sum = 0xFFFF - foldCarries sum := by
  have hle := foldCarries_le sum
  rw [netChecksumFinish, finishLoop_eq]
  omega

/-! ## The checksum of a segment -/

theorem length_words (bs : List ℕ) : (words bs).length = (bs.length + 1) / 2 := by
  induction bs using words.induct with
  | case1 => rfl
  | case2 a => simp [words]
  | case3 a b rest ih =>
    rw [words, List.length_cons, ih, List.length_cons, List.length_cons]
    omega

theorem sum_words_le {bs : List ℕ} (hbs : ∀ b ∈ bs, b < 256) :
    (words bs).sum ≤ (bs.length + 1) / 2 * 0xFFFF := by
  have h := List.sum_le_card_nsmul (words bs) 0xFFFF (words_le hbs)
  simpa [length_words] using h

/-- The pseudo-header of RFC 793 and RFC 768: the addresses, a zero octet,
the protocol and the segment's length. -/
def pseudoHeader (addrs : List ℕ) (proto length : ℕ) : List ℕ :=
  addrs ++ [0, proto, length / 256, length % 256]

/-- `net_checksum_tcpudp` is the Internet checksum of the pseudo-header and
the segment: its `uint32_t` sum never wraps for a 16-bit length. -/
theorem netChecksumTcpudp_eq {length proto : ℕ} (hlen : length < 2 ^ 16) (hproto : proto < 256)
    (addrs buf : ℕ → UInt8) :
    netChecksumTcpudp length proto addrs buf =
      internetChecksum (pseudoHeader (octets addrs 8) proto length ++ octets buf length) := by
  have hA := sum_words_le (octets_lt buf length)
  have hB := sum_words_le (octets_lt addrs 8)
  rw [length_octets] at hA hB
  -- the pseudo-header is 12 octets: its words are the addresses', the protocol and the length
  have hpseudo : (words (pseudoHeader (octets addrs 8) proto length)).sum =
      (words (octets addrs 8)).sum + (proto + length) := by
    rw [pseudoHeader, words_append (by rw [length_octets]; decide)]
    simp only [words, List.sum_append, List.sum_cons, List.sum_nil]
    omega
  have hoct : ∀ b ∈ pseudoHeader (octets addrs 8) proto length ++ octets buf length, b < 256 := by
    intro b hb
    simp only [pseudoHeader, List.mem_append, List.mem_cons, List.not_mem_nil] at hb
    rcases hb with (hb | rfl | rfl | rfl | rfl | hb) | hb
    · exact octets_lt addrs 8 b hb
    · decide
    · exact hproto
    · omega
    · omega
    · exact hb.elim
    · exact octets_lt buf length b hb
  have hsum : (words (octets buf length)).sum + (words (octets addrs 8)).sum + (proto + length) < 2 ^ 32 := by
    have : (length + 1) / 2 ≤ 2 ^ 15 := by omega
    have : (length + 1) / 2 * 0xFFFF ≤ 2 ^ 15 * 0xFFFF := Nat.mul_le_mul_right _ this
    omega
  have hpseudo_even : Even (pseudoHeader (octets addrs 8) proto length).length := by
    rw [pseudoHeader, List.length_append, length_octets]
    exact ⟨6, rfl⟩
  rw [netChecksumTcpudp, netChecksumAdd_eq, netChecksumAdd_eq,
    Nat.mod_eq_of_lt (by omega : (words (octets buf length)).sum < 2 ^ 32),
    Nat.mod_eq_of_lt (by omega : (words (octets addrs 8)).sum < 2 ^ 32),
    Nat.mod_eq_of_lt (by omega : (words (octets buf length)).sum + (words (octets addrs 8)).sum < 2 ^ 32),
    Nat.mod_eq_of_lt hsum, netChecksumFinish_eq, internetChecksum,
    ← foldCarries_sum (words_le hoct), words_append hpseudo_even, List.sum_append, hpseudo]
  congr 2
  ring

/-! ## What `net_checksum_calculate` writes -/

section Calculate

variable {data : ℕ → UInt8} {length : ℕ}

theorem storeBe16_of_ne {o i : ℕ} (v : ℕ) (h0 : i ≠ o) (h1 : i ≠ o + 1) : storeBe16 data o v i = data i := by
  simp [storeBe16, Function.update_of_ne h0, Function.update_of_ne h1]

theorem ipTotalLen_lt (data : ℕ → UInt8) : ipTotalLen data < 2 ^ 16 := by
  have h16 := (data 16).toNat_lt
  have h17 := (data 17).toNat_lt
  rw [ipTotalLen, Nat.shiftLeft_eq]
  exact Nat.or_lt_two_pow (by omega) (by omega)

/-- When `net_checksum_calculate` rewrites a checksum, it zeroes the field,
then stores there the Internet checksum of the pseudo-header and of the
segment the IP header declares, wherever the header puts them. -/
theorem netChecksumCalculate_eq_store {off : ℕ} (hv : (data 14).toNat &&& 0xf0 = 0x40)
    (hoff : csumOffset (data 23).toNat = some off) (hplen : ipHlen data + off + 2 ≤ ipTotalLen data) :
    let o := 14 + ipHlen data + off
    let plen := ipTotalLen data - ipHlen data
    let z := storeBe16 data o 0
    netChecksumCalculate data length =
      storeBe16 z o (internetChecksum (pseudoHeader (octets (fun i => z (26 + i)) 8) (data 23).toNat plen ++
        octets (fun i => z (14 + ipHlen data + i)) plen)) := by
  intro o plen z
  have hlt := ipTotalLen_lt data
  -- `plen` as the `int` of the source, and as the `uint16_t` it is passed as
  have hplen' : ((ipTotalLen data : ℤ) - ipHlen data).toNat % 2 ^ 16 = plen := by
    show _ = ipTotalLen data - ipHlen data
    omega
  rw [netChecksumCalculate, if_neg (not_not.2 hv)]
  dsimp only
  rw [hoff]
  dsimp only
  rw [if_neg (by omega), hplen', netChecksumTcpudp_eq (by omega) (data 23).toNat_lt]

/-- Frame: `net_checksum_calculate` changes no octet but the two of the
checksum field, at the offset the IP header gives. -/
theorem netChecksumCalculate_of_ne {i : ℕ}
    (hi : ∀ off, csumOffset (data 23).toNat = some off →
      i ≠ 14 + ipHlen data + off ∧ i ≠ 14 + ipHlen data + off + 1) :
    netChecksumCalculate data length i = data i := by
  by_cases hv : (data 14).toNat &&& 0xf0 = 0x40
  swap
  · rw [netChecksumCalculate, if_pos hv]
  rcases hoff : csumOffset (data 23).toNat with _ | off
  · rw [netChecksumCalculate, if_neg (not_not.2 hv)]
    dsimp only
    rw [hoff]
  by_cases hplen : ipHlen data + off + 2 ≤ ipTotalLen data
  · obtain ⟨h0, h1⟩ := hi off hoff
    rw [netChecksumCalculate_eq_store hv hoff hplen, storeBe16_of_ne _ h0 h1, storeBe16_of_ne _ h0 h1]
  · -- the segment is too short for the field
    rw [netChecksumCalculate, if_neg (not_not.2 hv)]
    dsimp only
    rw [hoff]
    dsimp only
    rw [if_pos (by omega)]

/-- The frame `work_around_broken_dhclient` passes as a DHCP reply: 42
octets, UDP from port 67, but an IP header length of 60 and a total length
of 80, so the UDP checksum field is at offset 80. -/
theorem workAroundBrokenDhclient_writes_past_frame (data : ℕ → UInt8)
    (hframe : ∀ i < 42, data i = ([0xff, 0xff, 0xff, 0xff, 0xff, 0xff, 0x52, 0x54, 0x00, 0x12, 0x34,
      0x56, 0x08, 0x00, 0x4f, 0x00, 0x00, 0x50, 0x00, 0x00, 0x00, 0x00, 0x40, 0x11, 0x00, 0x00,
      0x0a, 0x00, 0x02, 0x02, 0xff, 0xff, 0xff, 0xff, 0x00, 0x43, 0x00, 0x44, 0x00, 0x08, 0x00,
      0x00] : List UInt8).getD i 0) :
    ∃ c, workAroundBrokenDhclient true data 42 = (false, storeBe16 (storeBe16 data 80 0) 80 c) := by
  have h12 : data 12 = 0x08 := hframe 12 (by decide)
  have h13 : data 13 = 0x00 := hframe 13 (by decide)
  have h14 : data 14 = 0x4f := hframe 14 (by decide)
  have h16 : data 16 = 0x00 := hframe 16 (by decide)
  have h17 : data 17 = 0x50 := hframe 17 (by decide)
  have h23 : data 23 = 0x11 := hframe 23 (by decide)
  have h34 : data 34 = 0x00 := hframe 34 (by decide)
  have h35 : data 35 = 0x43 := hframe 35 (by decide)
  have hhlen : ipHlen data = 60 := by rw [ipHlen, h14]; rfl
  have htotal : ipTotalLen data = 80 := by rw [ipTotalLen, h16, h17]; rfl
  have hoff : csumOffset (data 23).toNat = some 6 := by rw [h23]; rfl
  rw [workAroundBrokenDhclient, if_pos ⟨rfl, by decide, ⟨h12, h13⟩, h23, ⟨h34, h35⟩⟩,
    netChecksumCalculate_eq_store (by rw [h14]; decide) hoff (by omega), hhlen]
  exact ⟨_, rfl⟩

theorem workAroundBrokenDhclient_writes_past_frame_zeros :
    let data : ℕ → UInt8 := fun i => ([0xff, 0xff, 0xff, 0xff, 0xff, 0xff, 0x52, 0x54, 0x00, 0x12, 0x34,
      0x56, 0x08, 0x00, 0x4f, 0x00, 0x00, 0x50, 0x00, 0x00, 0x00, 0x00, 0x40, 0x11, 0x00, 0x00,
      0x0a, 0x00, 0x02, 0x02, 0xff, 0xff, 0xff, 0xff, 0x00, 0x43, 0x00, 0x44, 0x00, 0x08, 0x00,
      0x00] : List UInt8).getD i 0
    (∀ i < 42, data i = ([0xff, 0xff, 0xff, 0xff, 0xff, 0xff, 0x52, 0x54, 0x00, 0x12, 0x34,
      0x56, 0x08, 0x00, 0x4f, 0x00, 0x00, 0x50, 0x00, 0x00, 0x00, 0x00, 0x40, 0x11, 0x00, 0x00,
      0x0a, 0x00, 0x02, 0x02, 0xff, 0xff, 0xff, 0xff, 0x00, 0x43, 0x00, 0x44, 0x00, 0x08, 0x00,
      0x00] : List UInt8).getD i 0) ∧
      ∃ c, workAroundBrokenDhclient true data 42 = (false, storeBe16 (storeBe16 data 80 0) 80 c) :=
  ⟨fun _ _ => rfl, workAroundBrokenDhclient_writes_past_frame _ (fun _ _ => rfl)⟩

/-- A UDP datagram whose one's-complement sum is `0xFFFF`: its checksum
computes to 0, and `net_checksum_calculate` stores 0, which RFC 768 reserves
for "no checksum" (it asks for `0xFFFF` in its place). -/
theorem netChecksumCalculate_udpZero :
    let frame : ℕ → UInt8 := fun i => ([0xff, 0xff, 0xff, 0xff, 0xff, 0xff, 0x52, 0x54, 0x00, 0x12,
      0x34, 0x56, 0x08, 0x00, 0x45, 0x00, 0x00, 0x1c, 0x00, 0x00, 0x00, 0x00, 0x40, 0x11, 0x00,
      0x00, 0x00, 0x00, 0x00, 0x00, 0x00, 0x00, 0x00, 0x00, 0x00, 0x43, 0xff, 0x9b, 0x00, 0x08,
      0x12, 0x34] : List UInt8).getD i 0
    netChecksumCalculate frame 42 40 = 0 ∧ netChecksumCalculate frame 42 41 = 0 := by
  intro frame
  rw [netChecksumCalculate_eq_store (by decide) (by decide : csumOffset (frame 23).toNat = some 6)
    (by decide)]
  decide

end Calculate

end QemuKvm.Net
