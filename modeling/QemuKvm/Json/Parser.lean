import QemuKvm.Json.ToJson
import QemuKvm.Json.Lexer

/-!
# The JSON parser and `qobject_from_json` (json-parser.c, qjson.c)

A recursive-descent parser over the token list the streamer hands over.
`parse_value` tries an object, an array, an escape, a keyword and a literal
in turn; each of them pops tokens and on failure restores the position and
returns NULL. `parser_context_pop_token` and `_peek_token` assert that a
token is left (`g_assert`): when the list runs out in the middle of a value
the process aborts. A string token is unescaped by
`qstring_from_escaped_str`, which turns `\uXXXX` into the UTF-8 of a 16-bit
code (`wchar_to_utf8`); an integer token goes through `strtoll`.

Results are `Parsed`: a value with the position after it, NULL, or the abort.
`qobject_from_json` passes no `va_list`, so `parse_escape` gives NULL; a
float token would give a `QFloat`, which the model leaves out and reads as
NULL. Dictionaries keep their entries in the order they were put
(`qdict_put_obj` replaces the value of a key already there); the hash order
of `qdict_iter` is not modelled.
-/

namespace QemuKvm.Json

/-- What a parsing function returns. -/
inductive Parsed (α : Type) where
  /-- The value, and the position of the next token. -/
  | ok (a : α) (pos : ℕ)
  /-- NULL (or `-1` from `parse_pair`), with the position restored. -/
  | null
  /-- A failed `g_assert`: no token was left to pop or peek. -/
  | abort

/-- `token_is_operator`: `val[0] == op && val[1] == 0`. -/
def tokenIsOperator (t : Token) (op : UInt8) : Bool :=
  t.type = .operator && t.text = [op]

/-- `token_is_keyword`. -/
def tokenIsKeyword (t : Token) (value : List UInt8) : Bool :=
  t.type = .keyword && t.text = value

/-! ## Strings and numbers -/

/-- `hex2decimal` on a hexadecimal digit; its `-1` is never read, since the
caller tests `qemu_isxdigit` first. -/
def hex2decimal (ch : UInt8) : ℕ :=
  if isDigit ch then ch.toNat - 0x30
  else if 0x61 ≤ ch ∧ ch ≤ 0x66 then 10 + (ch.toNat - 0x61)
  else if 0x41 ≤ ch ∧ ch ≤ 0x46 then 10 + (ch.toNat - 0x41)
  else 0

/-- `wchar_to_utf8`: the bytes it writes before the terminating NUL. -/
def wcharToUtf8 (wchar : ℕ) : List UInt8 :=
  if wchar ≤ 0x007F then [(wchar &&& 0x7F).toUInt8]
  else if wchar ≤ 0x07FF then
    [(0xC0 ||| ((wchar >>> 6) &&& 0x1F)).toUInt8, (0x80 ||| (wchar &&& 0x3F)).toUInt8]
  else
    [(0xE0 ||| ((wchar >>> 12) &&& 0x0F)).toUInt8, (0x80 ||| ((wchar >>> 6) &&& 0x3F)).toUInt8,
      (0x80 ||| (wchar &&& 0x3F)).toUInt8]

/-- `qstring_append(str, cstr)`: the C string up to its NUL. -/
def cstr (buf : List UInt8) : List UInt8 := buf.takeWhile (· ≠ 0)

/-- The code of `\u` and four hexadecimal digits. -/
def unicodeChar (h0 h1 h2 h3 : UInt8) : ℕ :=
  (hex2decimal h0 <<< 12) ||| (hex2decimal h1 <<< 8) ||| (hex2decimal h2 <<< 4) ||| hex2decimal h3

/-- The byte a one-character escape stands for: `\"`, `\'`, `\\`, `\/`,
`\b`, `\f`, `\n`, `\r`, `\t`. -/
def simpleEscape (e : UInt8) : Option UInt8 :=
  if e = 0x22 then some 0x22
  else if e = 0x27 then some 0x27
  else if e = 0x5C then some 0x5C
  else if e = 0x2F then some 0x2F
  else if e = 0x62 then some 0x08
  else if e = 0x66 then some 0x0C
  else if e = 0x6E then some 0x0A
  else if e = 0x72 then some 0x0D
  else if e = 0x74 then some 0x09
  else none

/-- The loop of `qstring_from_escaped_str` from `ptr`: the bytes it appends
up to the closing quote (or the NUL), or `none` for `parse_error` and the
NULL it returns. -/
def unescapeLoop (doubleQuote : Bool) : List UInt8 → Option (List UInt8)
  | [] => some []
  | c :: cs =>
    if c = 0 ∨ (doubleQuote ∧ c = 0x22) ∨ (!doubleQuote ∧ c = 0x27) then some []
    else if c = 0x5C then
      match cs with
      | [] => none
      | e :: rest =>
        match simpleEscape e with
        | some b => (unescapeLoop doubleQuote rest).map (b :: ·)
        | none =>
          if e = 0x75 then
            match rest with
            | h0 :: h1 :: h2 :: h3 :: rest' =>
              if isHexDigit h0 ∧ isHexDigit h1 ∧ isHexDigit h2 ∧ isHexDigit h3 then
                (unescapeLoop doubleQuote rest').map
                  (cstr (wcharToUtf8 (unicodeChar h0 h1 h2 h3)) ++ ·)
              else none
            | _ => none
          else none
    else (unescapeLoop doubleQuote cs).map (c :: ·)

/-- `qstring_from_escaped_str` on a token's text, which starts with its quote. -/
def qstringFromEscapedStr (text : List UInt8) : Option (List UInt8) :=
  unescapeLoop (text.headD 0 = 0x22) text.tail

/-- The leading decimal digits of a text, as a number. -/
def leadingDigits : List UInt8 → ℕ → ℕ
  | [], acc => acc
  | c :: cs, acc => if isDigit c then leadingDigits cs (10 * acc + (c.toNat - 0x30)) else acc

/-- `strtoll(text, NULL, 10)` on an integer token (an optional `-`, then
digits), saturated at `LLONG_MIN` and `LLONG_MAX`. -/
def strtoll (text : List UInt8) : Int64 :=
  let v : ℤ :=
    if text.headD 0 = 0x2D then -(leadingDigits text.tail 0 : ℤ) else leadingDigits text 0
  Int64.ofInt (max (-2 ^ 63) (min v (2 ^ 63 - 1)))

/-- `qdict_put_obj`: a key already there has its value replaced. -/
def qdictPut (entries : List (List UInt8 × QObject)) (key : List UInt8) (value : QObject) :
    List (List UInt8 × QObject) :=
  if entries.any (·.1 = key) then entries.map fun e => if e.1 = key then (key, value) else e
  else entries ++ [(key, value)]

/-! ## Parsing rules -/

/-- `parse_keyword`. -/
def parseKeyword (toks : List Token) (pos : ℕ) : Parsed QObject :=
  match toks[pos]? with
  | none => .abort
  | some t =>
    if t.type ≠ .keyword then .null
    else if tokenIsKeyword t [0x74, 0x72, 0x75, 0x65] then .ok (.qbool true) (pos + 1)
    else if tokenIsKeyword t [0x66, 0x61, 0x6C, 0x73, 0x65] then .ok (.qbool false) (pos + 1)
    else .null

/-- `parse_literal`. -/
def parseLiteral (toks : List Token) (pos : ℕ) : Parsed QObject :=
  match toks[pos]? with
  | none => .abort
  | some t =>
    match t.type with
    | .string =>
      match qstringFromEscapedStr t.text with
      | some s => .ok (.qstring s) (pos + 1)
      | none => .null
    | .integer => .ok (.qint (strtoll t.text)) (pos + 1)
    | _ => .null

mutual

/-- `parse_value`, with `fuel` for the depth of the calls: each level pops
a token before it goes deeper, so one more than the number of tokens is
enough. -/
def parseValue : ℕ → List Token → ℕ → Parsed QObject
  | 0, _, _ => .abort
  | fuel + 1, toks, pos =>
    match parseObject fuel toks pos with
    | .null =>
      match parseArray fuel toks pos with
      | .null =>
        -- `parse_escape` has no `va_list` here and gives NULL
        match parseKeyword toks pos with
        | .null => parseLiteral toks pos
        | r => r
      | r => r
    | r => r

/-- `parse_pair`: a string key, `:`, a value. -/
def parsePair : ℕ → List Token → ℕ → Parsed (List UInt8 × QObject)
  | fuel, toks, pos =>
    match toks[pos]? with
    | none => .abort
    | some _ =>
      match parseValue fuel toks pos with
      | .abort => .abort
      | .null => .null
      | .ok key pos' =>
        match key with
        | .qstring k =>
          match toks[pos']? with
          | none => .abort
          | some t =>
            if !tokenIsOperator t 0x3A then .null
            else
              match parseValue fuel toks (pos' + 1) with
              | .ok v pos'' => .ok (k, v) pos''
              | .null => .null
              | .abort => .abort
        | _ => .null

/-- The `while` loop of `parse_object`, after an entry: `}` ends the
object, `,` brings another pair. -/
def objectLoop : ℕ → List Token → ℕ → List (List UInt8 × QObject) → Parsed QObject
  | 0, _, _, _ => .abort
  | fuel + 1, toks, pos, entries =>
    match toks[pos]? with
    | none => .abort
    | some t =>
      if tokenIsOperator t 0x7D then .ok (.qdict entries) (pos + 1)
      else if !tokenIsOperator t 0x2C then .null
      else
        match parsePair fuel toks (pos + 1) with
        | .ok kv pos' => objectLoop fuel toks pos' (qdictPut entries kv.1 kv.2)
        | .null => .null
        | .abort => .abort

/-- `parse_object`. -/
def parseObject : ℕ → List Token → ℕ → Parsed QObject
  | fuel, toks, pos =>
    match toks[pos]? with
    | none => .abort
    | some t =>
      if !tokenIsOperator t 0x7B then .null
      else
        match toks[pos + 1]? with
        | none => .abort
        | some peek =>
          if tokenIsOperator peek 0x7D then .ok (.qdict []) (pos + 2)
          else
            match parsePair fuel toks (pos + 1) with
            | .ok kv pos' => objectLoop fuel toks pos' (qdictPut [] kv.1 kv.2)
            | .null => .null
            | .abort => .abort

/-- The `while` loop of `parse_array`, after an item. -/
def arrayLoop : ℕ → List Token → ℕ → List QObject → Parsed QObject
  | 0, _, _, _ => .abort
  | fuel + 1, toks, pos, items =>
    match toks[pos]? with
    | none => .abort
    | some t =>
      if tokenIsOperator t 0x5D then .ok (.qlist items) (pos + 1)
      else if !tokenIsOperator t 0x2C then .null
      else
        match parseValue fuel toks (pos + 1) with
        | .ok o pos' => arrayLoop fuel toks pos' (items ++ [o])
        | .null => .null
        | .abort => .abort

/-- `parse_array`. -/
def parseArray : ℕ → List Token → ℕ → Parsed QObject
  | fuel, toks, pos =>
    match toks[pos]? with
    | none => .abort
    | some t =>
      if !tokenIsOperator t 0x5B then .null
      else
        match toks[pos + 1]? with
        | none => .abort
        | some peek =>
          if tokenIsOperator peek 0x5D then .ok (.qlist []) (pos + 2)
          else
            match parseValue fuel toks (pos + 1) with
            | .ok o pos' => arrayLoop fuel toks pos' [o]
            | .null => .null
            | .abort => .abort

end

/-- `json_parser_parse(tokens, NULL)`: `none` for the abort, and the value
or NULL otherwise. Tokens after the value are ignored. -/
def jsonParserParse : Option (List Token) → Option (Option QObject)
  | none => some none
  | some [] => some none
  | some toks =>
    match parseValue (toks.length + 1) toks 0 with
    | .ok o _ => some (some o)
    | .null => some none
    | .abort => none

/-- `qobject_from_json`: every list the streamer hands over is parsed as it
comes, and `s->result` keeps the last result; `none` is the abort. -/
def qobjectFromJson (s : List UInt8) : Option (Option QObject) :=
  (messageParserEmits s).foldl (fun acc e => acc.bind fun _ => jsonParserParse e) (some none)

end QemuKvm.Json
