import Mathlib.Data.UInt

/-!
# The JSON lexer and streamer (json-lexer.c, json-streamer.c)

The lexer is a table-driven automaton over bytes: `json_lexer[state][ch]` is
the next state, or the type of the token that the byte ends. A token that
ends by lookahead (a number, a keyword, white space) is recognised by the
table's entry for the byte 0 being that type (`TERMINAL_NEEDED_LOOKAHEAD`):
the byte is then not part of the token and is fed again from `IN_START`.
Every token but white space goes to the streamer, which counts braces and
brackets and hands the tokens gathered so far to the parser whenever both
counts are back at zero (or one is negative, or a limit is passed), and the
NULL list after a lexical error.

`jsonLexer` is the table, row by row in the source's order; `feedChar` is
`json_lexer_feed_char` and `processToken` is `json_message_process_token`.
The tokens' line and column (`x`, `y`) are left out: only error messages
read them.
-/

namespace QemuKvm.Json

/-- `enum json_lexer_state`. -/
inductive LexState where
  | error
  | dqUcode3 | dqUcode2 | dqUcode1 | dqUcode0 | dqStringEscape | dqString
  | sqUcode3 | sqUcode2 | sqUcode1 | sqUcode0 | sqStringEscape | sqString
  | zero | digits | digit | expE | mantissa | mantissaDigits | nonzeroNumber | negNonzeroNumber
  | keyword
  | escape | escapeL | escapeLL | escapeI | escapeI6 | escapeI64
  | whitespace
  | start
deriving DecidableEq, Repr

/-- `JSONTokenType`. A token cut at `MAX_TOKEN_SIZE` is emitted with the
lexer's state as its type (`oversized`). -/
inductive TokenType where
  | operator | integer | float | keyword | string | escape | skip | error
  | oversized (s : LexState)
deriving DecidableEq, Repr

/-- An entry of the table: a state, or the type of the token the byte ends
(the source keeps both in one `uint8_t`). -/
inductive LexNext where
  | state (s : LexState)
  | token (t : TokenType)
deriving DecidableEq, Repr

/-- A token: its type and its text (`qdict_put(dict, "token", token)`). -/
structure Token where
  type : TokenType
  text : List UInt8
deriving DecidableEq, Repr

def isDigit (c : UInt8) : Bool := 0x30 ≤ c && c ≤ 0x39

/-- `['0' ... '9']`, `['a' ... 'f']`, `['A' ... 'F']`. -/
def isHexDigit (c : UInt8) : Bool :=
  isDigit c || (0x61 ≤ c && c ≤ 0x66) || (0x41 ≤ c && c ≤ 0x46)

def isLower (c : UInt8) : Bool := 0x61 ≤ c && c ≤ 0x7A

/-- `[' ']`, `['\t']`, `['\r']`, `['\n']`. -/
def isJsonSpace (c : UInt8) : Bool := c = 0x20 || c = 0x09 || c = 0x0D || c = 0x0A

/-- The bytes a string may hold as they are: `[1 ... 0xBF]` and `[0xC2 ... 0xF4]`. -/
def isStringByte (c : UInt8) : Bool := (1 ≤ c && c ≤ 0xBF) || (0xC2 ≤ c && c ≤ 0xF4)

/-- The escapes after a backslash that stand for one character:
`b f n r t / \ ' "`. -/
def isSimpleEscape (c : UInt8) : Bool :=
  c = 0x62 || c = 0x66 || c = 0x6E || c = 0x72 || c = 0x74 || c = 0x2F || c = 0x5C || c = 0x27 ||
    c = 0x22

/-- `TERMINAL(state)`: the bytes `[0 ... 0x7F]` that end a token by lookahead. -/
def terminal (t : TokenType) (c : UInt8) : LexNext :=
  if c ≤ 0x7F then .token t else .state .error

/-- `json_lexer[state][ch]`. A later designated initializer of a row wins
over an earlier one, so the single bytes are tested before the ranges. -/
def jsonLexer : LexState → UInt8 → LexNext
  | .dqUcode3, c => if isHexDigit c then .state .dqString else .state .error
  | .dqUcode2, c => if isHexDigit c then .state .dqUcode3 else .state .error
  | .dqUcode1, c => if isHexDigit c then .state .dqUcode2 else .state .error
  | .dqUcode0, c => if isHexDigit c then .state .dqUcode1 else .state .error
  | .dqStringEscape, c =>
    if isSimpleEscape c then .state .dqString
    else if c = 0x75 then .state .dqUcode0
    else .state .error
  | .dqString, c =>
    if c = 0x5C then .state .dqStringEscape
    else if c = 0x22 then .token .string
    else if isStringByte c then .state .dqString
    else .state .error
  | .sqUcode3, c => if isHexDigit c then .state .sqString else .state .error
  | .sqUcode2, c => if isHexDigit c then .state .sqUcode3 else .state .error
  | .sqUcode1, c => if isHexDigit c then .state .sqUcode2 else .state .error
  | .sqUcode0, c => if isHexDigit c then .state .sqUcode1 else .state .error
  | .sqStringEscape, c =>
    -- the source's row sends `\/` and `\\` on in a double-quoted string
    if c = 0x2F || c = 0x5C then .state .dqString
    else if isSimpleEscape c then .state .sqString
    else if c = 0x75 then .state .sqUcode0
    else .state .error
  | .sqString, c =>
    if c = 0x5C then .state .sqStringEscape
    else if c = 0x27 then .token .string
    else if isStringByte c then .state .sqString
    else .state .error
  | .zero, c =>
    if c = 0x2E then .state .mantissa
    else if isDigit c then .state .error
    else terminal .integer c
  | .digits, c => if isDigit c then .state .digits else terminal .float c
  | .digit, c => if isDigit c then .state .digits else .state .error
  | .expE, c =>
    if c = 0x2D || c = 0x2B then .state .digit
    else if isDigit c then .state .digits
    else .state .error
  | .mantissaDigits, c =>
    if isDigit c then .state .mantissaDigits
    else if c = 0x65 || c = 0x45 then .state .expE
    else terminal .float c
  | .mantissa, c => if isDigit c then .state .mantissaDigits else .state .error
  | .nonzeroNumber, c =>
    if isDigit c then .state .nonzeroNumber
    else if c = 0x65 || c = 0x45 then .state .expE
    else if c = 0x2E then .state .mantissa
    else terminal .integer c
  | .negNonzeroNumber, c =>
    if c = 0x30 then .state .zero
    else if isDigit c then .state .nonzeroNumber
    else .state .error
  | .keyword, c => if isLower c then .state .keyword else terminal .keyword c
  | .whitespace, c => if isJsonSpace c then .state .whitespace else terminal .skip c
  | .escapeLL, c => if c = 0x64 then .token .escape else .state .error
  | .escapeL, c =>
    if c = 0x64 then .token .escape
    else if c = 0x6C then .state .escapeLL
    else .state .error
  | .escapeI64, c => if c = 0x64 then .token .escape else .state .error
  | .escapeI6, c => if c = 0x34 then .state .escapeI64 else .state .error
  | .escapeI, c => if c = 0x36 then .state .escapeI6 else .state .error
  | .escape, c =>
    if c = 0x64 || c = 0x69 || c = 0x70 || c = 0x73 || c = 0x66 then .token .escape
    else if c = 0x6C then .state .escapeL
    else if c = 0x49 then .state .escapeI
    else .state .error
  | .start, c =>
    if c = 0x22 then .state .dqString
    else if c = 0x27 then .state .sqString
    else if c = 0x30 then .state .zero
    else if isDigit c then .state .nonzeroNumber
    else if c = 0x2D then .state .negNonzeroNumber
    else if c = 0x7B || c = 0x7D || c = 0x5B || c = 0x5D || c = 0x2C || c = 0x3A then
      .token .operator
    else if isLower c then .state .keyword
    else if c = 0x25 then .state .escape
    else if isJsonSpace c then .state .whitespace
    else .state .error
  | .error, _ => .state .error

/-- `MAX_TOKEN_SIZE`, in the lexer and in the streamer: 64 MiB. -/
def MAX_TOKEN_SIZE : ℕ := 64 * 2 ^ 20

/-- `MAX_NESTING`. -/
def MAX_NESTING : ℤ := 2 ^ 10

/-- The lexer's state and the token it is building. -/
structure JsonLexer where
  state : LexState
  token : List UInt8
deriving DecidableEq, Repr

/-- The end of `json_lexer_feed_char`: a token grown past `MAX_TOKEN_SIZE`
is emitted as it is, and the lexer restarts. -/
def sizeCheck (lx : JsonLexer) : JsonLexer × List Token :=
  if lx.token.length > MAX_TOKEN_SIZE then (⟨.start, []⟩, [⟨.oversized lx.state, lx.token⟩])
  else (lx, [])

/-- The `do ... while (!char_consumed && !flush)` loop of
`json_lexer_feed_char`, with the tokens it emits. A byte that is not
consumed ended a token by lookahead, and is fed again from `IN_START`, where
it is consumed or is an error: two passes are always enough. -/
def feedCharLoop : ℕ → JsonLexer → UInt8 → Bool → JsonLexer × List Token
  | 0, lx, _, _ => (lx, [])
  | fuel + 1, lx, ch, flush =>
    let newState := jsonLexer lx.state ch
    let consumed := !decide (jsonLexer lx.state 0 = newState)
    let token := if consumed then lx.token ++ [ch] else lx.token
    -- after the `switch`: loop again or leave through the size check
    let next (lx' : JsonLexer) (emitted : List Token) : JsonLexer × List Token :=
      if !consumed && !flush then
        let r := feedCharLoop fuel lx' ch flush
        (r.1, emitted ++ r.2)
      else
        let r := sizeCheck lx'
        (r.1, emitted ++ r.2)
    match newState with
    | .token .skip => next ⟨.start, []⟩ []
    | .token t => next ⟨.start, []⟩ [⟨t, token⟩]
    -- `IN_ERROR`: the token so far as `JSON_ERROR`, and `return 0` at once
    | .state .error => (⟨.start, []⟩, [⟨.error, token⟩])
    | .state s => next ⟨s, token⟩ []

/-- `json_lexer_feed_char(lexer, ch, flush)`. -/
def feedChar (lx : JsonLexer) (ch : UInt8) (flush : Bool) : JsonLexer × List Token :=
  feedCharLoop 2 lx ch flush

/-- `json_lexer_feed`: every byte of the buffer. -/
def lexerFeed : JsonLexer → List UInt8 → JsonLexer × List Token
  | lx, [] => (lx, [])
  | lx, ch :: rest =>
    let r := feedChar lx ch false
    let r' := lexerFeed r.1 rest
    (r'.1, r.2 ++ r'.2)

/-- `json_lexer_flush`: the byte 0, fed with `flush`, ends what is pending. -/
def lexerFlush (lx : JsonLexer) : JsonLexer × List Token :=
  if lx.state = .start then (lx, []) else feedChar lx 0 true

/-- `json_lexer_init`. -/
def lexerInit : JsonLexer := ⟨.start, []⟩

/-! ## The streamer -/

/-- `JSONMessageParser` without its lexer. -/
structure JsonMessageParser where
  braceCount : ℤ
  bracketCount : ℤ
  tokens : List Token
  tokenSize : ℕ
deriving DecidableEq, Repr

def messageParserInit : JsonMessageParser := ⟨0, 0, [], 0⟩

/-- `json_message_process_token`: the streamer after the token, and what it
hands to the parser, if anything: the tokens so far, or `none` for the NULL
list after an error. -/
def processToken (p : JsonMessageParser) (t : Token) : JsonMessageParser × List (Option (List Token)) :=
  let brace :=
    if t.type = .operator ∧ t.text.headD 0 = 0x7B then p.braceCount + 1
    else if t.type = .operator ∧ t.text.headD 0 = 0x7D then p.braceCount - 1
    else p.braceCount
  let bracket :=
    if t.type = .operator ∧ t.text.headD 0 = 0x5B then p.bracketCount + 1
    else if t.type = .operator ∧ t.text.headD 0 = 0x5D then p.bracketCount - 1
    else p.bracketCount
  let tokens := p.tokens ++ [t]
  let size := p.tokenSize + t.text.length
  if t.type = .error then (messageParserInit, [none])
  else if brace < 0 ∨ bracket < 0 ∨ (brace = 0 ∧ bracket = 0) then (messageParserInit, [some tokens])
  else if size > MAX_TOKEN_SIZE ∨ bracket > MAX_NESTING ∨ brace > MAX_NESTING then
    (messageParserInit, [some tokens])
  else (⟨brace, bracket, tokens, size⟩, [])

/-- The streamer over the tokens the lexer emits, in order. -/
def processTokens : JsonMessageParser → List Token → JsonMessageParser × List (Option (List Token))
  | p, [] => (p, [])
  | p, t :: ts =>
    let r := processToken p t
    let r' := processTokens r.1 ts
    (r'.1, r.2 ++ r'.2)

/-- What `json_message_parser_feed` and `json_message_parser_flush` hand to
the parser for a whole buffer, in order. -/
def messageParserEmits (buf : List UInt8) : List (Option (List Token)) :=
  let fed := lexerFeed lexerInit buf
  let flushed := lexerFlush fed.1
  (processTokens messageParserInit (fed.2 ++ flushed.2)).2

end QemuKvm.Json
