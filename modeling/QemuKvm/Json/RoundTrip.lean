import Mathlib.Data.List.TakeWhile
import QemuKvm.Json.Parser
import QemuKvm.Lib.Utf8

/-!
# Strings through `qobject_to_json` and `qobject_from_json`

`to_json` escapes a string a character at a time; the lexer reads the escaped
text between the quotes as one string token, the streamer hands that single
token over, and the parser's unescaper turns it back into octets. Each stage
is followed a unit at a time (`StringUnits` is what the lexer reads inside the
quotes), and `char_roundTrip` joins them for one character.

A character of one to three octets comes back as it was. One of four octets
does not: `to_json` takes its first three octets for a three-octet character
and its last one for a stray tail, written as `\uFFFF`, and it comes back
longer. `qstring_roundTrip` says this of every NUL-free UTF-8 string.
-/

namespace QemuKvm.Json

/-! ## Octets -/

section Octets

-- Facts about single octets, decided over all 256 values.
set_option maxRecDepth 8000

theorem land_0xE0_of_ascii : ∀ n < 256, n ≤ 0x7F → n &&& 0xE0 ≠ 0xE0 ∧ n &&& 0xE0 ≠ 0xC0 := by
  decide

theorem land_0xE0_of_two : ∀ n < 256, 0xC2 ≤ n → n ≤ 0xDF →
    n &&& 0xE0 = 0xC0 ∧ 0xC0 ||| (n &&& 0x1F) = n ∧ 2 ≤ n &&& 0x1F := by
  decide

theorem land_0xE0_of_lead : ∀ n < 256, 0xE0 ≤ n → n ≤ 0xF4 → n &&& 0xE0 = 0xE0 := by
  decide

theorem or_land_0x0F_of_three : ∀ n < 256, 0xE0 ≤ n → n ≤ 0xEF →
    0xE0 ||| (n &&& 0x0F) = n ∧ (0xE1 ≤ n → 1 ≤ n &&& 0x0F) := by
  decide

theorem land_0x0F_of_four : ∀ n < 256, 0xF1 ≤ n → n ≤ 0xF4 → 1 ≤ n &&& 0x0F := by
  decide

theorem land_0xE0_of_tail : ∀ n < 256, 0x80 ≤ n → n ≤ 0xBF → n &&& 0xE0 ≠ 0xE0 ∧ n &&& 0xE0 ≠ 0xC0 := by
  decide

theorem tail_bits : ∀ n < 256, 0x80 ≤ n → n ≤ 0xBF →
    n &&& 0x80 ≠ 0 ∧ 0x80 ||| (n &&& 0x3F) = n ∧ (0xA0 ≤ n → 0x20 ≤ n &&& 0x3F) ∧
      (0x90 ≤ n → 0x10 ≤ n &&& 0x3F) := by
  decide

end Octets

/-! ## The 16-bit codes -/

theorem wchar2_eq (a b : UInt8) :
    wchar2 a b = (a.toNat &&& 0x1F) * 64 + (b.toNat &&& 0x3F) := by
  have hb : b.toNat &&& 0x3F < 2 ^ 6 := Nat.lt_of_le_of_lt Nat.and_le_right (by decide)
  rw [wchar2, ← Nat.shiftLeft_add_eq_or_of_lt hb, Nat.shiftLeft_eq]

theorem wchar3_eq (a b d : UInt8) :
    wchar3 a b d = (a.toNat &&& 0x0F) * 4096 + (b.toNat &&& 0x3F) * 64 + (d.toNat &&& 0x3F) := by
  have hb : (b.toNat &&& 0x3F) <<< 6 < 2 ^ 12 := by
    rw [Nat.shiftLeft_eq]
    have : b.toNat &&& 0x3F ≤ 0x3F := Nat.and_le_right
    omega
  have hd : d.toNat &&& 0x3F < 2 ^ 6 := Nat.lt_of_le_of_lt Nat.and_le_right (by decide)
  have hdvd : (a.toNat &&& 0x0F) <<< 12 + (b.toNat &&& 0x3F) <<< 6 =
      ((a.toNat &&& 0x0F) * 64 + (b.toNat &&& 0x3F)) <<< 6 := by
    simp only [Nat.shiftLeft_eq]
    ring
  rw [wchar3, ← Nat.shiftLeft_add_eq_or_of_lt hb, hdvd, ← Nat.shiftLeft_add_eq_or_of_lt hd,
    Nat.shiftLeft_eq]
  ring


theorem land_0x3F (n : ℕ) : n &&& 0x3F = n % 64 := by
  simpa using Nat.and_two_pow_sub_one_eq_mod n 6

theorem land_0x0F (n : ℕ) : n &&& 0x0F = n % 16 := by
  simpa using Nat.and_two_pow_sub_one_eq_mod n 4

theorem land_0x1F (n : ℕ) : n &&& 0x1F = n % 32 := by
  simpa using Nat.and_two_pow_sub_one_eq_mod n 5

/-! ## `%04X` -/

theorem hexDigits_of_lt {fuel n : ℕ} (h : n < 16) : hexDigits (fuel + 1) n = [hexDigitUpper n] := by
  rw [hexDigits, if_pos (Nat.div_eq_of_lt h), Nat.mod_eq_of_lt h, List.nil_append]

theorem hexDigits_of_ge {fuel n : ℕ} (h : 16 ≤ n) :
    hexDigits (fuel + 1) n = hexDigits fuel (n / 16) ++ [hexDigitUpper (n % 16)] := by
  rw [hexDigits, if_neg (by omega)]

/-- A 16-bit code is escaped as its four hexadecimal digits. -/
theorem escapeU_of_lt {w : ℕ} (hw : w < 0x10000) :
    escapeU w = [0x5C, 0x75, hexDigitUpper (w / 4096), hexDigitUpper (w / 256 % 16),
      hexDigitUpper (w / 16 % 16), hexDigitUpper (w % 16)] := by
  have h0 : hexDigitUpper 0 = 0x30 := by decide
  -- the digits `%X` writes, by the number of them
  have hdigits : [hexDigitUpper (w / 4096), hexDigitUpper (w / 256 % 16),
      hexDigitUpper (w / 16 % 16), hexDigitUpper (w % 16)] = fmt04X w := by
    unfold fmt04X
    rcases (by omega : w < 16 ∨ (16 ≤ w ∧ w < 256) ∨ (256 ≤ w ∧ w < 4096) ∨ 4096 ≤ w) with
      h | ⟨h1, h2⟩ | ⟨h1, h2⟩ | h1
    · rw [hexDigits_of_lt h]
      simp only [List.length_singleton, show w / 4096 = 0 by omega, show w / 256 % 16 = 0 by omega,
        show w / 16 % 16 = 0 by omega, Nat.mod_eq_of_lt h, h0]
      rfl
    · rw [hexDigits_of_ge h1, hexDigits_of_lt (by omega)]
      simp only [List.length_append, List.length_singleton, show w / 4096 = 0 by omega,
        show w / 256 % 16 = 0 by omega, show w / 16 % 16 = w / 16 by omega, h0]
      rfl
    · rw [hexDigits_of_ge (by omega), hexDigits_of_ge (by omega), hexDigits_of_lt (by omega)]
      simp only [List.length_append, List.length_singleton, show w / 4096 = 0 by omega,
        show w / 16 / 16 = w / 256 % 16 by omega, h0]
      rfl
    · rw [hexDigits_of_ge (by omega), hexDigits_of_ge (by omega), hexDigits_of_ge (by omega),
        hexDigits_of_lt (by omega)]
      simp only [List.length_append, List.length_singleton, show w / 16 / 16 / 16 = w / 4096 by omega,
        show w / 16 / 16 % 16 = w / 256 % 16 by omega]
      rfl
  rw [escapeU, ← hdigits]
  rfl


theorem hexDigitUpper_spec : ∀ d < 16,
    isHexDigit (hexDigitUpper d) = true ∧ hex2decimal (hexDigitUpper d) = d := by
  decide

theorem unicodeChar_eq {h0 h1 h2 h3 : UInt8} (h1lt : hex2decimal h1 < 16) (h2lt : hex2decimal h2 < 16)
    (h3lt : hex2decimal h3 < 16) :
    unicodeChar h0 h1 h2 h3 =
      hex2decimal h0 * 4096 + hex2decimal h1 * 256 + hex2decimal h2 * 16 + hex2decimal h3 := by
  have hb : hex2decimal h1 <<< 8 < 2 ^ 12 := by rw [Nat.shiftLeft_eq]; omega
  have hc : hex2decimal h2 <<< 4 < 2 ^ 8 := by rw [Nat.shiftLeft_eq]; omega
  have hab : hex2decimal h0 <<< 12 + hex2decimal h1 <<< 8 =
      (hex2decimal h0 * 16 + hex2decimal h1) <<< 8 := by
    simp only [Nat.shiftLeft_eq]
    ring
  have habc : (hex2decimal h0 * 16 + hex2decimal h1) <<< 8 + hex2decimal h2 <<< 4 =
      ((hex2decimal h0 * 16 + hex2decimal h1) * 16 + hex2decimal h2) <<< 4 := by
    simp only [Nat.shiftLeft_eq]
    ring
  rw [unicodeChar, ← Nat.shiftLeft_add_eq_or_of_lt hb, hab,
    ← Nat.shiftLeft_add_eq_or_of_lt (show hex2decimal h2 <<< 4 < 2 ^ 8 from hc), habc,
    ← Nat.shiftLeft_add_eq_or_of_lt (show hex2decimal h3 < 2 ^ 4 from h3lt), Nat.shiftLeft_eq]
  ring

/-! ## `wchar_to_utf8` -/

/-- A code below 0x80 is one octet; the NUL is none. -/
theorem cstr_wcharToUtf8_ascii {n : ℕ} (h0 : n ≠ 0) (h : n < 0x80) :
    cstr (wcharToUtf8 n) = [n.toUInt8] := by
  have hn : n &&& 0x7F = n := by
    simpa [Nat.mod_eq_of_lt h] using Nat.and_two_pow_sub_one_eq_mod n 7
  have hne : n.toUInt8 ≠ 0 := by
    intro hz
    have := congrArg UInt8.toNat hz
    simp at this
    omega
  simp only [wcharToUtf8, if_pos (show n ≤ 0x7F by omega), hn, cstr]
  simp [hne]

theorem wcharToUtf8_two {a b : UInt8} (ha : 0xC2 ≤ a.toNat) (ha' : a.toNat ≤ 0xDF)
    (hb : TailNat b.toNat) : wcharToUtf8 (wchar2 a b) = [a, b] := by
  obtain ⟨-, hor, hge⟩ := land_0xE0_of_two a.toNat (UInt8.toNat_lt a) ha ha'
  obtain ⟨-, hbor, -⟩ := tail_bits b.toNat (UInt8.toNat_lt b) hb.1 hb.2
  have hx : a.toNat &&& 0x1F < 32 := Nat.lt_of_le_of_lt Nat.and_le_right (by decide)
  have hy : b.toNat &&& 0x3F < 64 := Nat.lt_of_le_of_lt Nat.and_le_right (by decide)
  rw [wchar2_eq, wcharToUtf8, if_neg (by omega), if_pos (by omega)]
  simp only [Nat.shiftRight_eq_div_pow, land_0x1F, land_0x3F] at hor hbor ⊢
  rw [show ((a.toNat % 32) * 64 + b.toNat % 64) / 2 ^ 6 % 32 = a.toNat % 32 by omega,
    show ((a.toNat % 32) * 64 + b.toNat % 64) % 64 = b.toNat % 64 by omega, hor, hbor]
  simp

theorem wcharToUtf8_three {a b c : UInt8} (hshape : Utf8Shape [a, b, c]) :
    wcharToUtf8 (wchar3 a b c) = [a, b, c] := by
  cases hshape with
  | three ha ha' hb hc hover =>
    obtain ⟨hor, hge⟩ := or_land_0x0F_of_three a.toNat (UInt8.toNat_lt a) ha ha'
    obtain ⟨-, hbor, hbA0, -⟩ := tail_bits b.toNat (UInt8.toNat_lt b) hb.1 hb.2
    obtain ⟨-, hcor, -, -⟩ := tail_bits c.toNat (UInt8.toNat_lt c) hc.1 hc.2
    simp only [land_0x0F, land_0x3F] at hor hge hbor hbA0 hcor
    -- not overlong: the code needs all three octets
    have hbig : 0x800 ≤ (a.toNat % 16) * 4096 + (b.toNat % 64) * 64 + c.toNat % 64 := by
      by_cases h : a.toNat = 0xE0
      · have := hbA0 (hover h)
        omega
      · have := hge (by omega)
        omega
    rw [wchar3_eq, wcharToUtf8, if_neg (by simp only [land_0x0F, land_0x3F]; omega),
      if_neg (by simp only [land_0x0F, land_0x3F]; omega)]
    simp only [Nat.shiftRight_eq_div_pow, land_0x0F, land_0x3F]
    have hx : a.toNat % 16 < 16 := Nat.mod_lt _ (by decide)
    have hy : b.toNat % 64 < 64 := Nat.mod_lt _ (by decide)
    have hz : c.toNat % 64 < 64 := Nat.mod_lt _ (by decide)
    rw [show ((a.toNat % 16) * 4096 + (b.toNat % 64) * 64 + c.toNat % 64) / 2 ^ 12 % 16 =
        a.toNat % 16 by omega,
      show ((a.toNat % 16) * 4096 + (b.toNat % 64) * 64 + c.toNat % 64) / 2 ^ 6 % 64 =
        b.toNat % 64 by omega,
      show ((a.toNat % 16) * 4096 + (b.toNat % 64) * 64 + c.toNat % 64) % 64 = c.toNat % 64 by omega,
      hor, hbor, hcor]
    simp


/-! ## `to_json` on one octet -/

set_option maxRecDepth 8000 in
theorem toJsonByte_tail : ∀ n < 256, 0x80 ≤ n → n ≤ 0xBF → toJsonByte n.toUInt8 = escapeU 0xFFFF := by
  decide

/-- An octet that starts no character comes out as the truncated escape of a
negative `char`. -/
theorem toJsonByte_of_tail {d : UInt8} (hd : TailNat d.toNat) : toJsonByte d = escapeU 0xFFFF := by
  simpa using toJsonByte_tail d.toNat (UInt8.toNat_lt d) hd.1 hd.2

set_option maxRecDepth 8000 in
/-- The three ways `to_json` writes an ASCII octet other than NUL: as it is,
as a one-character escape, or (a control character) as `\u00XX`. -/
theorem toJsonByte_ascii : ∀ n < 128, 0 < n →
    (toJsonByte n.toUInt8 = [n.toUInt8] ∧ isStringByte n.toUInt8 = true ∧ n.toUInt8 ≠ 0x22 ∧
        n.toUInt8 ≠ 0x5C) ∨
      (toJsonByte n.toUInt8 = [0x5C, (toJsonByte n.toUInt8).getD 1 0] ∧
        isSimpleEscape ((toJsonByte n.toUInt8).getD 1 0) = true ∧
        simpleEscape ((toJsonByte n.toUInt8).getD 1 0) = some n.toUInt8) ∨
      (toJsonByte n.toUInt8 = escapeU n ∧ n < 0x20) := by
  decide

/-! ## The unescaper, a unit at a time -/

section Unescape

variable {dq : Bool} {t : List UInt8}

theorem unescapeLoop_lit {c : UInt8} (h0 : c ≠ 0) (hq : c ≠ 0x22) (hb : c ≠ 0x5C) :
    unescapeLoop true (c :: t) = (unescapeLoop true t).map (c :: ·) := by
  rw [unescapeLoop.eq_def]
  dsimp only
  rw [if_neg (by simp [h0, hq]), if_neg hb]

theorem unescapeLoop_quote : unescapeLoop true (0x22 :: t) = some [] := by
  rw [unescapeLoop.eq_def]
  dsimp only
  rw [if_pos (by simp)]

theorem unescapeLoop_simple {e b : UInt8} (h : simpleEscape e = some b) :
    unescapeLoop dq (0x5C :: e :: t) = (unescapeLoop dq t).map (b :: ·) := by
  rw [unescapeLoop.eq_def]
  dsimp only
  rw [if_neg (by cases dq <;> decide), if_pos rfl]
  simp only [h]

theorem unescapeLoop_ucode {h0 h1 h2 h3 : UInt8} (hx : isHexDigit h0 = true ∧ isHexDigit h1 = true ∧
      isHexDigit h2 = true ∧ isHexDigit h3 = true) :
    unescapeLoop dq (0x5C :: 0x75 :: h0 :: h1 :: h2 :: h3 :: t) =
      (unescapeLoop dq t).map (cstr (wcharToUtf8 (unicodeChar h0 h1 h2 h3)) ++ ·) := by
  have hu : simpleEscape 0x75 = none := by decide
  rw [unescapeLoop.eq_3, if_neg (by cases dq <;> decide), if_pos rfl]
  simp only [hu, if_pos hx, if_true]

/-- The four digits of a 16-bit code read back as the code. -/
theorem unicodeChar_hexDigits {w : ℕ} (hw : w < 0x10000) :
    unicodeChar (hexDigitUpper (w / 4096)) (hexDigitUpper (w / 256 % 16))
      (hexDigitUpper (w / 16 % 16)) (hexDigitUpper (w % 16)) = w := by
  obtain ⟨-, e0⟩ := hexDigitUpper_spec (w / 4096) (by omega)
  obtain ⟨-, e1⟩ := hexDigitUpper_spec (w / 256 % 16) (Nat.mod_lt _ (by decide))
  obtain ⟨-, e2⟩ := hexDigitUpper_spec (w / 16 % 16) (Nat.mod_lt _ (by decide))
  obtain ⟨-, e3⟩ := hexDigitUpper_spec (w % 16) (Nat.mod_lt _ (by decide))
  rw [unicodeChar_eq (by omega) (by omega) (by omega), e0, e1, e2, e3]
  omega

theorem unescapeLoop_escapeU {w : ℕ} (hw : w < 0x10000) :
    unescapeLoop dq (escapeU w ++ t) = (unescapeLoop dq t).map (cstr (wcharToUtf8 w) ++ ·) := by
  have hx := fun d (hd : d < 16) => (hexDigitUpper_spec d hd).1
  rw [escapeU_of_lt hw, List.cons_append, List.cons_append, List.cons_append, List.cons_append,
    List.cons_append, List.cons_append, List.nil_append,
    unescapeLoop_ucode ⟨hx _ (by omega), hx _ (Nat.mod_lt _ (by decide)),
      hx _ (Nat.mod_lt _ (by decide)), hx _ (Nat.mod_lt _ (by decide))⟩, unicodeChar_hexDigits hw]

end Unescape

/-! ## The escaped text as the lexer reads it -/

/-- The text between the quotes of a double-quoted string token, unit by
unit: bytes that stand for themselves, one-character escapes, and `\u` with
four hexadecimal digits. -/
inductive StringUnits : List UInt8 → Prop where
  | nil : StringUnits []
  | lit {c : UInt8} {rest : List UInt8} : isStringByte c = true → c ≠ 0x22 → c ≠ 0x5C →
      StringUnits rest → StringUnits (c :: rest)
  | simple {e : UInt8} {rest : List UInt8} : isSimpleEscape e = true → StringUnits rest →
      StringUnits (0x5C :: e :: rest)
  | ucode {h0 h1 h2 h3 : UInt8} {rest : List UInt8} : isHexDigit h0 = true → isHexDigit h1 = true →
      isHexDigit h2 = true → isHexDigit h3 = true → StringUnits rest →
      StringUnits (0x5C :: 0x75 :: h0 :: h1 :: h2 :: h3 :: rest)

theorem StringUnits.append {u v : List UInt8} (hu : StringUnits u) (hv : StringUnits v) :
    StringUnits (u ++ v) := by
  induction hu with
  | nil => exact hv
  | lit hc hq hb _ ih => exact .lit hc hq hb ih
  | simple he _ ih => exact .simple he ih
  | ucode h0 h1 h2 h3 _ ih => exact .ucode h0 h1 h2 h3 ih

theorem stringUnits_escapeU {w : ℕ} (hw : w < 0x10000) : StringUnits (escapeU w) := by
  have hx := fun d (hd : d < 16) => (hexDigitUpper_spec d hd).1
  rw [escapeU_of_lt hw]
  exact .ucode (hx _ (by omega)) (hx _ (Nat.mod_lt _ (by decide))) (hx _ (Nat.mod_lt _ (by decide)))
    (hx _ (Nat.mod_lt _ (by decide))) .nil


/-! ## The lexer on a string token -/

section Lexer

variable {lx : JsonLexer} {ch : UInt8}

/-- A byte that moves the lexer to another state inside a token is appended
to the token. -/
theorem feedChar_state {s : LexState} (h : jsonLexer lx.state ch = .state s) (hs : s ≠ .error)
    (h0 : jsonLexer lx.state 0 ≠ .state s) (hlen : lx.token.length + 1 ≤ MAX_TOKEN_SIZE) :
    feedChar lx ch false = (⟨s, lx.token ++ [ch]⟩, []) := by
  have hc : (!decide (jsonLexer lx.state 0 = jsonLexer lx.state ch)) = true := by simp [h, h0]
  have hsz : sizeCheck ⟨s, lx.token ++ [ch]⟩ = (⟨s, lx.token ++ [ch]⟩, []) := by
    rw [sizeCheck, if_neg (by simp only [List.length_append, List.length_singleton]; omega)]
  rw [feedChar, feedCharLoop]
  dsimp only
  rw [hc]
  split
  · simp_all
  · simp_all
  · simp_all
  · rename_i s' hs'
    rw [h] at hs'
    cases hs'
    simp [hsz]

/-- A byte that ends a token (not white space) emits it with the byte. -/
theorem feedChar_token {t : TokenType} (h : jsonLexer lx.state ch = .token t) (ht : t ≠ .skip)
    (h0 : jsonLexer lx.state 0 ≠ .token t) :
    feedChar lx ch false = (⟨.start, []⟩, [⟨t, lx.token ++ [ch]⟩]) := by
  have hc : (!decide (jsonLexer lx.state 0 = jsonLexer lx.state ch)) = true := by simp [h, h0]
  have hsz : sizeCheck ⟨.start, []⟩ = (⟨.start, []⟩, []) := by
    rw [sizeCheck, if_neg (by simp [MAX_TOKEN_SIZE])]
  rw [feedChar, feedCharLoop]
  dsimp only
  rw [hc]
  split
  · simp_all
  · rename_i t' _ heq
    rw [h] at heq
    cases heq
    simp [hsz]
  · simp_all
  · simp_all

theorem lexerFeed_cons_state {s : LexState} {rest : List UInt8} (h : jsonLexer lx.state ch = .state s)
    (hs : s ≠ .error) (h0 : jsonLexer lx.state 0 ≠ .state s)
    (hlen : lx.token.length + 1 ≤ MAX_TOKEN_SIZE) :
    lexerFeed lx (ch :: rest) = lexerFeed ⟨s, lx.token ++ [ch]⟩ rest := by
  rw [lexerFeed, feedChar_state h hs h0 hlen, List.nil_append]

/-- Inside a double-quoted string the lexer reads the escaped text unit by
unit and grows the token, as long as it stays under the size limit. -/
theorem lexerFeed_stringUnits {u : List UInt8} (hu : StringUnits u) :
    ∀ (tok rest : List UInt8), tok.length + u.length ≤ MAX_TOKEN_SIZE →
      lexerFeed ⟨.dqString, tok⟩ (u ++ rest) = lexerFeed ⟨.dqString, tok ++ u⟩ rest := by
  have herr : ∀ st : LexState, st ∈ [LexState.dqString, .dqStringEscape, .dqUcode0, .dqUcode1,
      .dqUcode2, .dqUcode3] → jsonLexer st 0 = .state .error := by decide
  -- one case for each kind of unit; the token grows by the unit's bytes
  induction hu with
  | nil => intro tok rest _; simp
  | @lit c rest' hc hq hb _ ih =>
    intro tok rest hlen
    have hstep : jsonLexer .dqString c = .state .dqString := by simp [jsonLexer, hc, hq, hb]
    simp only [List.length_cons] at hlen
    rw [List.cons_append, lexerFeed_cons_state hstep (by decide) (by simp [herr]) (by simp; omega),
      ih _ _ (by simp; omega)]
    simp
  | @simple e rest' he _ ih =>
    intro tok rest hlen
    have h1 : jsonLexer .dqString 0x5C = .state .dqStringEscape := by decide
    have h2 : jsonLexer .dqStringEscape e = .state .dqString := by simp [jsonLexer, he]
    simp only [List.length_cons] at hlen
    rw [List.cons_append, List.cons_append,
      lexerFeed_cons_state h1 (by decide) (by simp [herr]) (by simp; omega),
      lexerFeed_cons_state h2 (by decide) (by simp [herr]) (by simp; omega),
      ih _ _ (by simp; omega)]
    simp
  | @ucode h0 h1 h2 h3 rest' hx0 hx1 hx2 hx3 _ ih =>
    intro tok rest hlen
    have e1 : jsonLexer .dqString 0x5C = .state .dqStringEscape := by decide
    have e2 : jsonLexer .dqStringEscape 0x75 = .state .dqUcode0 := by decide
    have e3 : jsonLexer .dqUcode0 h0 = .state .dqUcode1 := by simp [jsonLexer, hx0]
    have e4 : jsonLexer .dqUcode1 h1 = .state .dqUcode2 := by simp [jsonLexer, hx1]
    have e5 : jsonLexer .dqUcode2 h2 = .state .dqUcode3 := by simp [jsonLexer, hx2]
    have e6 : jsonLexer .dqUcode3 h3 = .state .dqString := by simp [jsonLexer, hx3]
    simp only [List.length_cons] at hlen
    simp only [List.cons_append]
    rw [lexerFeed_cons_state e1 (by decide) (by simp [herr]) (by simp; omega),
      lexerFeed_cons_state e2 (by decide) (by simp [herr]) (by simp; omega),
      lexerFeed_cons_state e3 (by decide) (by simp [herr]) (by simp; omega),
      lexerFeed_cons_state e4 (by decide) (by simp [herr]) (by simp; omega),
      lexerFeed_cons_state e5 (by decide) (by simp [herr]) (by simp; omega),
      lexerFeed_cons_state e6 (by decide) (by simp [herr]) (by simp; omega),
      ih _ _ (by simp; omega)]
    simp

/-- A string whose escaped text the lexer reads is one string token. -/
theorem lexerFeed_toJsonString {s : List UInt8} (hu : StringUnits (toJsonChars s))
    (hlen : (toJsonString s).length ≤ MAX_TOKEN_SIZE) :
    lexerFeed lexerInit (toJsonString s) = (⟨.start, []⟩, [⟨.string, toJsonString s⟩]) := by
  have hq : jsonLexer .start 0x22 = .state .dqString := by decide
  have hclose : jsonLexer .dqString 0x22 = .token .string := by decide
  simp only [toJsonString, List.length_append, List.length_singleton] at hlen
  rw [toJsonString, List.singleton_append, List.cons_append,
    lexerFeed_cons_state hq (by decide) (by decide) (by simp [lexerInit]; omega),
    lexerFeed_stringUnits hu _ _ (by simp [lexerInit]; omega), lexerFeed,
    feedChar_token hclose (by decide) (show jsonLexer .dqString 0 ≠ .token .string by decide)]
  simp [lexerFeed, lexerInit]

end Lexer


/-! ## The streamer and the parser on one string token -/

/-- A buffer that the lexer reads as one string token, back at `IN_START`,
is handed over as that token alone. -/
theorem messageParserEmits_of_string {buf : List UInt8}
    (h : lexerFeed lexerInit buf = (⟨.start, []⟩, [⟨.string, buf⟩])) :
    messageParserEmits buf = [some [⟨.string, buf⟩]] := by
  have hflush : lexerFlush ⟨.start, []⟩ = (⟨.start, []⟩, []) := by rw [lexerFlush, if_pos rfl]
  rw [messageParserEmits, h, hflush]
  simp [processTokens, processToken, messageParserInit]

theorem messageParserEmits_toJsonString {s : List UInt8} (hu : StringUnits (toJsonChars s))
    (hlen : (toJsonString s).length ≤ MAX_TOKEN_SIZE) :
    messageParserEmits (toJsonString s) = [some [⟨.string, toJsonString s⟩]] :=
  messageParserEmits_of_string (lexerFeed_toJsonString hu hlen)

theorem jsonParserParse_string (text : List UInt8) :
    jsonParserParse (some [⟨.string, text⟩]) = some ((qstringFromEscapedStr text).map .qstring) := by
  -- neither an object, an array nor a keyword: the literal
  have hobj : parseObject 1 [⟨.string, text⟩] 0 = .null := by simp [parseObject, tokenIsOperator]
  have harr : parseArray 1 [⟨.string, text⟩] 0 = .null := by simp [parseArray, tokenIsOperator]
  have hkw : parseKeyword [⟨.string, text⟩] 0 = .null := by simp [parseKeyword]
  simp only [jsonParserParse, List.length_singleton, parseValue, hobj, harr, hkw, parseLiteral,
    List.getElem?_cons_zero]
  cases qstringFromEscapedStr text <;> rfl

/-- A buffer that is one string token parses as what the unescaper makes
of its text. -/
theorem qobjectFromJson_of_string {buf : List UInt8}
    (h : lexerFeed lexerInit buf = (⟨.start, []⟩, [⟨.string, buf⟩])) :
    qobjectFromJson buf = some ((qstringFromEscapedStr buf).map .qstring) := by
  rw [qobjectFromJson, messageParserEmits_of_string h, List.foldl_cons, List.foldl_nil,
    Option.bind_some, jsonParserParse_string]

/-- A string whose escaped text the lexer reads comes back as what the
unescaper makes of it. -/
theorem qobjectFromJson_toJsonString {s : List UInt8} (hu : StringUnits (toJsonChars s))
    (hlen : (toJsonString s).length ≤ MAX_TOKEN_SIZE) :
    qobjectFromJson (toJsonString s) = some ((unescapeLoop true (toJsonChars s ++ [0x22])).map .qstring) := by
  rw [qobjectFromJson_of_string (lexerFeed_toJsonString hu hlen)]
  rfl


/-! ## `to_json` on one character -/

section Encode

variable {rest : List UInt8}

theorem toJsonChars_ascii {a : UInt8} (ha : a.toNat ≤ 0x7F) (h0 : a ≠ 0) :
    toJsonChars (a :: rest) = toJsonByte a ++ toJsonChars rest := by
  obtain ⟨h1, h2⟩ := land_0xE0_of_ascii a.toNat (UInt8.toNat_lt a) ha
  rw [toJsonChars, if_neg h0, if_neg (fun h => h1 h.1), if_neg (fun h => h2 h.1)]

theorem toJsonChars_two {a b : UInt8} (ha : 0xC2 ≤ a.toNat) (ha' : a.toNat ≤ 0xDF)
    (hb : TailNat b.toNat) : toJsonChars (a :: b :: rest) = escapeU (wchar2 a b) ++ toJsonChars rest := by
  obtain ⟨hC0, -, -⟩ := land_0xE0_of_two a.toNat (UInt8.toNat_lt a) ha ha'
  obtain ⟨hb8, -⟩ := tail_bits b.toNat (UInt8.toNat_lt b) hb.1 hb.2
  have h0 : a ≠ 0 := fun h => by subst h; simp at ha
  rw [toJsonChars, if_neg h0]
  simp only [List.headD_cons, List.drop_succ_cons, List.drop_zero]
  rw [if_neg (fun h => by rw [hC0] at h; exact absurd h.1 (by decide)), if_pos ⟨hC0, hb8⟩]

/-- A first octet from 0xE0 up and two tails are taken as one three-octet
character, whatever follows: this holds of the first three octets of a
four-octet character too. -/
theorem toJsonChars_lead {a b c : UInt8} (ha : 0xE0 ≤ a.toNat) (ha' : a.toNat ≤ 0xF4)
    (hb : TailNat b.toNat) (hc : TailNat c.toNat) :
    toJsonChars (a :: b :: c :: rest) = escapeU (wchar3 a b c) ++ toJsonChars rest := by
  have hE0 := land_0xE0_of_lead a.toNat (UInt8.toNat_lt a) ha ha'
  obtain ⟨hb8, -⟩ := tail_bits b.toNat (UInt8.toNat_lt b) hb.1 hb.2
  obtain ⟨hc8, -⟩ := tail_bits c.toNat (UInt8.toNat_lt c) hc.1 hc.2
  have h0 : a ≠ 0 := fun h => by subst h; simp at ha
  rw [toJsonChars, if_neg h0]
  simp only [List.headD_cons, List.drop_succ_cons, List.drop_zero]
  rw [if_pos ⟨hE0, hb8, hc8⟩]

theorem toJsonChars_tail {d : UInt8} (hd : TailNat d.toNat) :
    toJsonChars (d :: rest) = escapeU 0xFFFF ++ toJsonChars rest := by
  obtain ⟨h1, h2⟩ := land_0xE0_of_tail d.toNat (UInt8.toNat_lt d) hd.1 hd.2
  have h0 : d ≠ 0 := fun h => by subst h; simp [TailNat] at hd
  rw [toJsonChars, if_neg h0, if_neg (fun h => h1 h.1), if_neg (fun h => h2 h.1), toJsonByte_of_tail hd]

theorem toJsonChars_nil : toJsonChars [] = [] := by
  rw [toJsonChars]

end Encode

theorem cstr_of_ne_zero {l : List UInt8} (h : ∀ x ∈ l, x ≠ 0) : cstr l = l :=
  List.takeWhile_eq_self_iff.2 fun x hx => by simpa using h x hx

/-- A code from 0x80 up is written as two octets or more, none of them NUL. -/
theorem wcharToUtf8_ne_zero {w : ℕ} (hw : 0x7F < w) :
    2 ≤ (wcharToUtf8 w).length ∧ ∀ x ∈ wcharToUtf8 w, x ≠ 0 := by
  have hne : ∀ x < 64, (0x80 ||| x).toUInt8 ≠ 0 ∧ (0xC0 ||| x).toUInt8 ≠ 0 ∧
      (0xE0 ||| x).toUInt8 ≠ 0 := by decide
  have h3F : ∀ n : ℕ, n &&& 0x3F < 64 := fun n => Nat.lt_of_le_of_lt Nat.and_le_right (by decide)
  have h1F : ∀ n : ℕ, n &&& 0x1F < 64 := fun n => Nat.lt_of_le_of_lt Nat.and_le_right (by decide)
  have h0F : ∀ n : ℕ, n &&& 0x0F < 64 := fun n => Nat.lt_of_le_of_lt Nat.and_le_right (by decide)
  rw [wcharToUtf8, if_neg (by omega)]
  split_ifs
  · simp only [List.length_cons, List.forall_mem_cons, List.not_mem_nil, IsEmpty.forall_iff,
      implies_true]
    exact ⟨by omega, (hne _ (h1F _)).2.1, (hne _ (h3F _)).1, trivial⟩
  · simp only [List.length_cons, List.forall_mem_cons, List.not_mem_nil, IsEmpty.forall_iff,
      implies_true]
    exact ⟨by omega, (hne _ (h0F _)).2.2, (hne _ (h3F _)).1, (hne _ (h3F _)).1, trivial⟩


/-! ## One character there and back -/

theorem ne_zero_of_toNat_ge {x : UInt8} (h : 0x80 ≤ x.toNat) : x ≠ 0 := by
  rintro rfl
  exact absurd h (by decide)

/-- An ASCII octet other than NUL: the lexer reads its escaped text, and the
unescaper gives the octet back. -/
theorem toJsonByte_roundTrip {a : UInt8} (ha : a.toNat ≤ 0x7F) (h0 : a ≠ 0) :
    StringUnits (toJsonByte a) ∧
      ∀ t, unescapeLoop true (toJsonByte a ++ t) = (unescapeLoop true t).map (a :: ·) := by
  have hpos : a.toNat ≠ 0 := fun h => h0 (UInt8.toNat_inj.1 (by simpa using h))
  have ha' : a.toNat.toUInt8 = a := by simp
  rcases toJsonByte_ascii a.toNat (by omega) (by omega) with
    ⟨hlit, hs, hq, hb⟩ | ⟨hsim, he, hb⟩ | ⟨hu, hlt⟩
  · -- written as it is
    rw [ha'] at hlit hs hq hb
    rw [hlit]
    exact ⟨.lit hs hq hb .nil, fun t => unescapeLoop_lit h0 hq hb⟩
  · -- a one-character escape
    rw [ha'] at hsim he hb
    generalize (toJsonByte a).getD 1 0 = e at hsim he hb
    rw [hsim]
    exact ⟨.simple he .nil, fun t => unescapeLoop_simple hb⟩
  · -- a control character, as \u00XX
    rw [ha'] at hu
    rw [hu]
    refine ⟨stringUnits_escapeU (by omega), fun t => ?_⟩
    rw [unescapeLoop_escapeU (by omega), cstr_wcharToUtf8_ascii hpos (by omega), ha']
    rfl

/-- One character of a string: the escaped text `to_json` writes for it, which
the lexer reads, and what the unescaper makes of it. A character of three
octets at most comes back as it was; one of four octets (first octet 0xF0
up) comes back longer. -/
theorem char_roundTrip {c : List UInt8} (hc : Utf8Char c) (h0 : c ≠ [0]) :
    ∃ e img : List UInt8, (∀ rest, toJsonChars (c ++ rest) = e ++ toJsonChars rest) ∧
      StringUnits e ∧ (∀ t, unescapeLoop true (e ++ t) = (unescapeLoop true t).map (img ++ ·)) ∧
      ((img = c ∧ ∀ b ∈ c, b.toNat < 0xF0) ∨ (c.length < img.length ∧ ∃ b ∈ c, 0xF0 ≤ b.toNat)) := by
  have hshape := hc.shape
  cases hshape with
  | @one a ha =>
    have ha0 : a ≠ 0 := fun h => h0 (by rw [h])
    obtain ⟨hu, hun⟩ := toJsonByte_roundTrip ha ha0
    exact ⟨toJsonByte a, [a], fun rest => toJsonChars_ascii ha ha0, hu, hun,
      .inl ⟨rfl, by simp only [List.mem_singleton, forall_eq]; omega⟩⟩
  | @two a b ha ha' hb =>
    have hw : wchar2 a b < 0x800 := by
      have : a.toNat &&& 0x1F ≤ 0x1F := Nat.and_le_right
      have : b.toNat &&& 0x3F ≤ 0x3F := Nat.and_le_right
      rw [wchar2_eq]
      omega
    refine ⟨escapeU (wchar2 a b), [a, b], fun rest => toJsonChars_two ha ha' hb,
      stringUnits_escapeU (by omega), fun t => ?_, .inl ⟨rfl, ?_⟩⟩
    · rw [unescapeLoop_escapeU (by omega), wcharToUtf8_two ha ha' hb,
        cstr_of_ne_zero (by simp [ne_zero_of_toNat_ge (show 0x80 ≤ a.toNat by omega),
          ne_zero_of_toNat_ge hb.1])]
    · simp only [List.mem_cons, List.not_mem_nil, or_false, forall_eq_or_imp, forall_eq]
      exact ⟨by omega, by have := hb.2; omega⟩
  | @three a b d ha ha' hb hd hover =>
    have hw : wchar3 a b d < 0x10000 := by
      have : a.toNat &&& 0x0F ≤ 0x0F := Nat.and_le_right
      have : b.toNat &&& 0x3F ≤ 0x3F := Nat.and_le_right
      have : d.toNat &&& 0x3F ≤ 0x3F := Nat.and_le_right
      rw [wchar3_eq]
      omega
    refine ⟨escapeU (wchar3 a b d), [a, b, d], fun rest => toJsonChars_lead ha (by omega) hb hd,
      stringUnits_escapeU hw, fun t => ?_, .inl ⟨rfl, ?_⟩⟩
    · rw [unescapeLoop_escapeU hw, wcharToUtf8_three (.three ha ha' hb hd hover),
        cstr_of_ne_zero (by simp [ne_zero_of_toNat_ge (show 0x80 ≤ a.toNat by omega),
          ne_zero_of_toNat_ge hb.1, ne_zero_of_toNat_ge hd.1])]
    · simp only [List.mem_cons, List.not_mem_nil, or_false, forall_eq_or_imp, forall_eq]
      exact ⟨by omega, by have := hb.2; omega, by have := hd.2; omega⟩
  | @four a b d f ha ha' hb hd hf hover =>
    -- the first three octets are taken for a character, the last one for a stray tail
    have hw : 0x7F < wchar3 a b d ∧ wchar3 a b d < 0x10000 := by
      have : a.toNat &&& 0x0F ≤ 0x0F := Nat.and_le_right
      have : b.toNat &&& 0x3F ≤ 0x3F := Nat.and_le_right
      have : d.toNat &&& 0x3F ≤ 0x3F := Nat.and_le_right
      obtain ⟨-, -, -, hb10⟩ := tail_bits b.toNat (UInt8.toNat_lt b) hb.1 hb.2
      rw [wchar3_eq]
      by_cases hF0 : a.toNat = 0xF0
      · have := hb10 (hover hF0)
        omega
      · have := land_0x0F_of_four a.toNat (UInt8.toNat_lt a) (by omega) ha'
        omega
    have hFFFF : cstr (wcharToUtf8 0xFFFF) = [0xEF, 0xBF, 0xBF] := by decide
    obtain ⟨hlen, hnz⟩ := wcharToUtf8_ne_zero hw.1
    refine ⟨escapeU (wchar3 a b d) ++ escapeU 0xFFFF, cstr (wcharToUtf8 (wchar3 a b d)) ++ [0xEF, 0xBF, 0xBF],
      fun rest => ?_, (stringUnits_escapeU hw.2).append (stringUnits_escapeU (by decide)), fun t => ?_,
      .inr ⟨?_, a, by simp, ha⟩⟩
    · simp only [List.cons_append, List.nil_append]
      rw [toJsonChars_lead (by omega) ha' hb hd, toJsonChars_tail hf, List.append_assoc]
    · rw [List.append_assoc, unescapeLoop_escapeU hw.2, unescapeLoop_escapeU (by decide), hFFFF,
        Option.map_map]
      congr 1
      funext x
      simp
    · rw [cstr_of_ne_zero hnz, List.length_append]
      simp only [List.length_cons, List.length_nil]
      omega


/-! ## Strings there and back -/

/-- A NUL-free UTF-8 string, character by character: the lexer reads the
escaped text, and the unescaper gives back a string at least as long, equal
to the original exactly when no octet is 0xF0 or above. -/
theorem toJsonChars_roundTrip {s : List UInt8} (hs : Utf8Text (· ≠ [0]) s) :
    ∃ img : List UInt8, StringUnits (toJsonChars s) ∧
      (∀ t, unescapeLoop true (toJsonChars s ++ t) = (unescapeLoop true t).map (img ++ ·)) ∧
      s.length ≤ img.length ∧ (img = s ↔ ∀ b ∈ s, b.toNat < 0xF0) := by
  -- induction on the characters; each one is escaped and read back on its own
  induction hs with
  | nil =>
    rw [toJsonChars_nil]
    exact ⟨[], .nil, fun t => by simp, le_rfl, by simp⟩
  | @cons c rest hc h0 _ ih =>
    obtain ⟨img, hu, hun, hlen, hiff⟩ := ih
    obtain ⟨e, imgc, henc, hue, hunc, hcase⟩ := char_roundTrip hc h0
    refine ⟨imgc ++ img, ?_, fun t => ?_, ?_, ?_⟩
    · rw [henc]
      exact hue.append hu
    · rw [henc, List.append_assoc, hunc, hun, Option.map_map]
      congr 1
      funext x
      simp
    · rcases hcase with ⟨rfl, -⟩ | ⟨hlt, -⟩ <;> simp only [List.length_append] <;> omega
    · rcases hcase with ⟨rfl, hlo⟩ | ⟨hlt, b, hb, hge⟩
      · -- the character comes back as it was: the rest decides
        rw [List.append_cancel_left_eq, hiff, List.forall_mem_append]
        exact ⟨fun h => ⟨hlo, h⟩, fun h => h.2⟩
      · -- a four-octet character comes back longer, and has an octet from 0xF0 up
        constructor
        · intro h
          have := congrArg List.length h
          simp only [List.length_append] at this
          omega
        · intro h
          exact absurd (h b (List.mem_append_left _ hb)) (by omega)

theorem qobjectToJson_qstring (s : List UInt8) :
    qobjectToJson (.qstring s) = toJsonString s ∧ qobjectToJsonPretty (.qstring s) = toJsonString s := by
  exact ⟨rfl, rfl⟩

/-- A NUL-free UTF-8 string whose escaped text is under the token limit comes
back from `qobject_to_json` (or the pretty variant) and
`qobject_from_json` as a string at least as long, and the same string
exactly when it has no four-octet character (no octet from 0xF0 up). -/
theorem qstring_roundTrip {s : List UInt8} (hs : Utf8Text (· ≠ [0]) s)
    (hlen : (toJsonString s).length ≤ MAX_TOKEN_SIZE) :
    ∃ s', qobjectFromJson (qobjectToJson (.qstring s)) = some (some (.qstring s')) ∧
      qobjectFromJson (qobjectToJsonPretty (.qstring s)) = some (some (.qstring s')) ∧
      s.length ≤ s'.length ∧ (s' = s ↔ ∀ b ∈ s, b.toNat < 0xF0) := by
  obtain ⟨img, hu, hun, hle, hiff⟩ := toJsonChars_roundTrip hs
  have h : qobjectFromJson (toJsonString s) = some (some (.qstring img)) := by
    rw [qobjectFromJson_toJsonString hu hlen, hun, unescapeLoop_quote]
    simp
  obtain ⟨h1, h2⟩ := qobjectToJson_qstring s
  exact ⟨img, h1 ▸ h, h2 ▸ h, hle, hiff⟩

/-- U+1F600 (F0 9F 98 80) comes back as U+07D8 and U+FFFF (DF 98 EF BF BF). -/
theorem qobjectFromJson_fourOctet :
    qobjectFromJson (qobjectToJson (.qstring [0xF0, 0x9F, 0x98, 0x80])) =
      some (some (.qstring [0xDF, 0x98, 0xEF, 0xBF, 0xBF])) := by
  have hw : wchar3 0xF0 0x9F 0x98 = 0x7D8 := by decide
  have henc : toJsonChars [0xF0, 0x9F, 0x98, 0x80] = escapeU 0x7D8 ++ escapeU 0xFFFF := by
    rw [toJsonChars_lead (by decide) (by decide) ⟨by decide, by decide⟩ ⟨by decide, by decide⟩,
      toJsonChars_tail ⟨by decide, by decide⟩, hw, toJsonChars_nil, List.append_nil]
  have hu : StringUnits (toJsonChars [0xF0, 0x9F, 0x98, 0x80]) := by
    rw [henc]
    exact (stringUnits_escapeU (by decide)).append (stringUnits_escapeU (by decide))
  have hlen : (toJsonString [0xF0, 0x9F, 0x98, 0x80]).length ≤ MAX_TOKEN_SIZE := by
    rw [toJsonString, henc]
    decide
  have h7D8 : cstr (wcharToUtf8 0x7D8) = [0xDF, 0x98] := by decide
  have hFFFF : cstr (wcharToUtf8 0xFFFF) = [0xEF, 0xBF, 0xBF] := by decide
  rw [(qobjectToJson_qstring _).1, qobjectFromJson_toJsonString hu hlen, henc, List.append_assoc,
    unescapeLoop_escapeU (by decide), unescapeLoop_escapeU (by decide), unescapeLoop_quote, h7D8, hFFFF]
  rfl

end QemuKvm.Json
