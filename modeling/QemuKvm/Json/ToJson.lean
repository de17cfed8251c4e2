import Mathlib.Data.Nat.Digits.Defs
import Mathlib.Data.UInt

/-!
# QObjects and their JSON text (qjson.c)

`qobject_to_json` writes a `QObject` as JSON by the recursive `to_json`:
integers in decimal (`PRId64`), booleans as keywords, strings between
double quotes with their bytes escaped, lists and dictionaries with `, `
between items and `: ` after a key, and with the pretty variant a newline
and four spaces per level before every item and before the closing bracket.

The string loop reads UTF-8 a character at a time, and only as far as three
octets: a first octet with its top three bits set (`& 0xE0 == 0xE0`) and two
octets with their top bit set become one `\uXXXX` escape of the 16 bits
`to_json` collects from them, a two-octet character one escape too. The byte
tests run on `char`, which is signed on the hosts QEMU builds for, so an octet
from 0x80 up that starts no character passes `ptr[0] <= 0x1F`, and
`snprintf` truncates the escape of the negative number to `\uFFFF`. A
four-octet character (first octet 0xF0 to 0xF4) is taken for a three-octet
one and its last octet comes out as that `\uFFFF`.

`QFloat` is left out (its `%f` formatting and the parser's `strtod` are not
modelled), and so are `QError` and `QTYPE_NONE`, for which `to_json` writes
nothing.
-/

namespace QemuKvm.Json

/-- The `QObject` types the JSON writer and parser share. A string is its bytes
without the terminating NUL; a dictionary is its entries in the order
`qdict_iter` visits them. -/
inductive QObject where
  | qint (n : Int64)
  | qbool (b : Bool)
  | qstring (s : List UInt8)
  | qlist (items : List QObject)
  | qdict (entries : List (List UInt8 × QObject))
deriving Repr

/-! ## Text pieces -/

/-- The bytes of a decimal numeral, as `snprintf` writes them. -/
def decimalDigits (n : ℕ) : List UInt8 :=
  (Nat.toDigits 10 n).map fun ch => ch.toNat.toUInt8

/-- `snprintf(buffer, sizeof(buffer), "%" PRId64, v)`. -/
def fmtInt64 (v : Int64) : List UInt8 :=
  if v.toInt < 0 then 0x2D :: decimalDigits v.toInt.natAbs else decimalDigits v.toInt.natAbs

/-- The uppercase hexadecimal digit of `d < 16`. -/
def hexDigitUpper (d : ℕ) : UInt8 :=
  if d < 10 then (0x30 + d).toUInt8 else (0x41 + (d - 10)).toUInt8

/-- `%X`: the hexadecimal digits of `n`, most significant first, without
leading zeros; `fuel` bounds their number. -/
def hexDigits : ℕ → ℕ → List UInt8
  | 0, _ => []
  | fuel + 1, n => (if n / 16 = 0 then [] else hexDigits fuel (n / 16)) ++ [hexDigitUpper (n % 16)]

/-- `%04X` of an `unsigned int` (eight digits at most), padded with zeros to
four digits. -/
def fmt04X (n : ℕ) : List UInt8 :=
  List.replicate (4 - (hexDigits 8 n).length) 0x30 ++ hexDigits 8 n

/-- `snprintf(escape, sizeof(escape), "\\u%04X", v)` into `char escape[7]`:
six characters at most. -/
def escapeU (v : ℕ) : List UInt8 :=
  ([0x5C, 0x75] ++ fmt04X v).take 6

/-- A `char` as the `int` it is promoted to: signed, so octets from 0x80 up
are negative. -/
def signedChar (c : UInt8) : ℤ :=
  if c.toNat < 0x80 then c.toNat else (c.toNat : ℤ) - 256

/-- An `int` passed for `%X`, read as a 32-bit `unsigned int`. -/
def asUnsigned (v : ℤ) : ℕ := (v % 2 ^ 32).toNat

/-- The 16 bits `to_json` collects from a three-octet sequence. The masks
keep bits of the low octet only, where the sign extension of `char` leaves
the octet as it is. -/
def wchar3 (c0 c1 c2 : UInt8) : ℕ :=
  ((c0.toNat &&& 0x0F) <<< 12) ||| ((c1.toNat &&& 0x3F) <<< 6) ||| (c2.toNat &&& 0x3F)

/-- The 11 bits `to_json` collects from a two-octet sequence. -/
def wchar2 (c0 c1 : UInt8) : ℕ :=
  ((c0.toNat &&& 0x1F) <<< 6) ||| (c1.toNat &&& 0x3F)

/-- The `switch (ptr[0])` of the string loop: one byte that starts no
multi-octet sequence. -/
def toJsonByte (c : UInt8) : List UInt8 :=
  if c = 0x22 then [0x5C, 0x22]          -- \"
  else if c = 0x5C then [0x5C, 0x5C]     -- \\
  else if c = 0x08 then [0x5C, 0x62]     -- \b
  else if c = 0x0C then [0x5C, 0x66]     -- \f
  else if c = 0x0A then [0x5C, 0x6E]     -- \n
  else if c = 0x0D then [0x5C, 0x72]     -- \r
  else if c = 0x09 then [0x5C, 0x74]     -- \t
  else if signedChar c ≤ 0x1F then escapeU (asUnsigned (signedChar c))
  else [c]

/-- The `while (*ptr)` loop of `to_json` over a string's bytes; a list ends
where the C string has its NUL, and reading past it reads that NUL. -/
def toJsonChars : List UInt8 → List UInt8
  | [] => []
  | c :: cs =>
    if c = 0 then []
    else if c.toNat &&& 0xE0 = 0xE0 ∧ (cs.headD 0).toNat &&& 0x80 ≠ 0 ∧
        ((cs.drop 1).headD 0).toNat &&& 0x80 ≠ 0 then
      escapeU (wchar3 c (cs.headD 0) ((cs.drop 1).headD 0)) ++ toJsonChars (cs.drop 2)
    else if c.toNat &&& 0xE0 = 0xC0 ∧ (cs.headD 0).toNat &&& 0x80 ≠ 0 then
      escapeU (wchar2 c (cs.headD 0)) ++ toJsonChars (cs.drop 1)
    else toJsonByte c ++ toJsonChars cs
termination_by l => l.length
decreasing_by all_goals simp only [List.length_drop, List.length_cons]; omega

/-- A string in double quotes. -/
def toJsonString (s : List UInt8) : List UInt8 :=
  [0x22] ++ toJsonChars s ++ [0x22]

/-- With `pretty`, a newline and four spaces for each level of `indent`. -/
def newlineIndent (pretty : Bool) (indent : ℕ) : List UInt8 :=
  if pretty then 0x0A :: (List.replicate indent [0x20, 0x20, 0x20, 0x20]).flatten else []

/-- `", "` before every item but the first (`s->count`). -/
def separator (count : ℕ) : List UInt8 :=
  if count = 0 then [] else [0x2C, 0x20]

/-! ## `to_json` -/

mutual

/-- `to_json(obj, str, pretty, indent)`: what it appends to `str`. -/
def toJson (pretty : Bool) (indent : ℕ) : QObject → List UInt8
  | .qint n => fmtInt64 n
  | .qstring s => toJsonString s
  | .qdict es =>
    [0x7B] ++ toJsonDictIter pretty (indent + 1) 0 es ++ newlineIndent pretty indent ++ [0x7D]
  | .qlist xs =>
    [0x5B] ++ toJsonListIter pretty (indent + 1) 0 xs ++ newlineIndent pretty indent ++ [0x5D]
  | .qbool b => if b then [0x74, 0x72, 0x75, 0x65] else [0x66, 0x61, 0x6C, 0x73, 0x65]

/-- `qlist_iter` with `to_json_list_iter`, from the item numbered `count`. -/
def toJsonListIter (pretty : Bool) (indent count : ℕ) : List QObject → List UInt8
  | [] => []
  | o :: os =>
    separator count ++ newlineIndent pretty indent ++ toJson pretty indent o ++
      toJsonListIter pretty indent (count + 1) os

/-- `qdict_iter` with `to_json_dict_iter`: the key as a `QString`, then `": "`
and the value. -/
def toJsonDictIter (pretty : Bool) (indent count : ℕ) : List (List UInt8 × QObject) → List UInt8
  | [] => []
  | (k, v) :: es =>
    separator count ++ newlineIndent pretty indent ++ toJsonString k ++ [0x3A, 0x20] ++
      toJson pretty indent v ++ toJsonDictIter pretty indent (count + 1) es

end

/-- `qobject_to_json`. -/
def qobjectToJson (o : QObject) : List UInt8 := toJson false 0 o

/-- `qobject_to_json_pretty`. -/
def qobjectToJsonPretty (o : QObject) : List UInt8 := toJson true 0 o

end QemuKvm.Json
