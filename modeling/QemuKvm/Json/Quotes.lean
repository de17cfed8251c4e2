import QemuKvm.Json.RoundTrip

/-!
# Single- and double-quoted strings (json-lexer.c, json-parser.c)

The header of json-lexer.c gives one grammar for the text between either
kind of quotes, and `qstring_from_escaped_str` unescapes both alike, up to
the token's own quote. The table rows of the two kinds mirror each other
except in two cells: in `IN_SQ_STRING_ESCAPE` the escapes `\/` and `\\` lead
to `IN_DQ_STRING`. After either, a single-quoted string goes on under the
double-quoted rules, and a single quote no longer ends it.

`quoted q v` is a value v written between quotes q, with the quote and the
backslash escaped. Main results:

* `qobjectFromJson_quoted_dq` and `qobjectFromJson_quoted_sq` — a value
  comes back from between double quotes, and from between single quotes
  when it holds no backslash;
* `lexerFeed_sq_escape_dq` — after `\\` or `\/` in a single-quoted string
  the lexer is in the double-quoted state;
* `qobjectFromJson_quoted_backslash` — so a value with a backslash, and no
  double quote or other backslash after it, comes back from between double
  quotes but is NULL from between single quotes: the string never ends and
  the flush ends it as an error.
-/

namespace QemuKvm.Json

/-- How a byte of a value is written between quotes q: the quote and the
backslash escaped, every other byte as it is. -/
def escapeFor (q c : UInt8) : List UInt8 :=
  if c = q ∨ c = 0x5C then [0x5C, c] else [c]

/-- A value written between quotes q. -/
def quoted (q : UInt8) (v : List UInt8) : List UInt8 :=
  q :: v.flatMap (escapeFor q) ++ [q]

theorem length_flatMap_escapeFor_le (q : UInt8) (v : List UInt8) :
    (v.flatMap (escapeFor q)).length ≤ 2 * v.length := by
  induction v with
  | nil => simp
  | cons c v ih =>
    have hc : (escapeFor q c).length ≤ 2 := by
      unfold escapeFor
      split <;> simp
    simp only [List.flatMap_cons, List.length_append, List.length_cons]
    omega

/-! ## The unescaper -/

section Unescape

variable {q c : UInt8} {t : List UInt8}

/-- A byte that is neither NUL, the token's quote nor a backslash is copied. -/
theorem unescapeLoop_lit_of_ne (hq : q = 0x22 ∨ q = 0x27) (h0 : c ≠ 0) (hcq : c ≠ q)
    (hb : c ≠ 0x5C) :
    unescapeLoop (decide (q = 0x22)) (c :: t) =
      (unescapeLoop (decide (q = 0x22)) t).map (c :: ·) := by
  rw [unescapeLoop.eq_def]
  dsimp only
  have hstop : ¬(c = 0 ∨ (decide (q = 0x22) = true ∧ c = 0x22) ∨
      ((!decide (q = 0x22)) = true ∧ c = 0x27)) := by
    rcases hq with rfl | rfl <;> simp [h0, hcq]
  rw [if_neg hstop, if_neg hb]

/-- What `escapeFor` writes is read back up to the closing quote. -/
theorem unescapeLoop_quoted (hq : q = 0x22 ∨ q = 0x27) {v : List UInt8} (hv : ∀ c ∈ v, c ≠ 0) :
    unescapeLoop (decide (q = 0x22)) (v.flatMap (escapeFor q) ++ q :: t) = some v := by
  induction v with
  | nil =>
    rw [List.flatMap_nil, List.nil_append, unescapeLoop.eq_def]
    dsimp only
    rw [if_pos (by rcases hq with rfl | rfl <;> decide)]
  | cons c v ih =>
    have ih' := ih fun x hx => hv x (List.mem_cons_of_mem c hx)
    rw [List.flatMap_cons, escapeFor]
    split
    · -- the quote or the backslash, as a one-character escape
      next hc =>
      have hs : simpleEscape c = some c := by
        rcases hc with rfl | rfl
        · rcases hq with rfl | rfl <;> decide
        · decide
      rw [List.append_assoc, List.cons_append, List.cons_append, List.nil_append,
        unescapeLoop_simple hs, ih']
      rfl
    · next hc =>
      rw [List.singleton_append, List.cons_append,
        unescapeLoop_lit_of_ne hq (hv c List.mem_cons_self) (fun h => hc (.inl h))
          (fun h => hc (.inr h)), ih']
      rfl

/-- The unescaper on a value written between quotes q. -/
theorem qstringFromEscapedStr_quoted (hq : q = 0x22 ∨ q = 0x27) {v : List UInt8}
    (hv : ∀ c ∈ v, c ≠ 0) : qstringFromEscapedStr (quoted q v) = some v := by
  simpa [qstringFromEscapedStr, quoted] using unescapeLoop_quoted (t := []) hq hv

end Unescape

/-! ## The lexer inside the quotes -/

section Lexer

theorem ne_zero_of_isStringByte {c : UInt8} (h : isStringByte c = true) : c ≠ 0 := by
  rintro rfl
  exact absurd h (by decide)

/-- Between double quotes, the escaped text of a value is what the lexer
reads as a string's units. -/
theorem stringUnits_escapeFor_dq {v : List UInt8} (hv : ∀ c ∈ v, isStringByte c = true) :
    StringUnits (v.flatMap (escapeFor 0x22)) := by
  induction v with
  | nil => exact .nil
  | cons c v ih =>
    have ih' := ih fun x hx => hv x (List.mem_cons_of_mem c hx)
    rw [List.flatMap_cons, escapeFor]
    split
    · next hc =>
      have he : isSimpleEscape c = true := by rcases hc with rfl | rfl <;> decide
      exact .simple he ih'
    · next hc => exact .lit (hv c List.mem_cons_self) (fun h => hc (.inl h)) (fun h => hc (.inr h)) ih'

/-- Between single quotes, a value with no backslash is read byte by byte,
its quotes as `\'`. -/
theorem lexerFeed_sq_escapeFor {v : List UInt8} (hv : ∀ c ∈ v, isStringByte c = true ∧ c ≠ 0x5C) :
    ∀ (tok rest : List UInt8), tok.length + (v.flatMap (escapeFor 0x27)).length ≤ MAX_TOKEN_SIZE →
      lexerFeed ⟨.sqString, tok⟩ (v.flatMap (escapeFor 0x27) ++ rest) =
        lexerFeed ⟨.sqString, tok ++ v.flatMap (escapeFor 0x27)⟩ rest := by
  have herr : ∀ st : LexState, st ∈ [LexState.sqString, .sqStringEscape] →
      jsonLexer st 0 = .state .error := by decide
  -- one value byte at a time, the lexer back in IN_SQ_STRING after each
  induction v with
  | nil => intro tok rest _; simp
  | cons c v ih =>
    intro tok rest hlen
    obtain ⟨hc, hb⟩ := hv c List.mem_cons_self
    have ih' := ih fun x hx => hv x (List.mem_cons_of_mem c hx)
    rw [List.flatMap_cons] at hlen ⊢
    simp only [List.length_append] at hlen
    by_cases hq : c = 0x27
    · subst hq
      have e1 : jsonLexer .sqString 0x5C = .state .sqStringEscape := by decide
      have e2 : jsonLexer .sqStringEscape 0x27 = .state .sqString := by decide
      have hesc : escapeFor 0x27 0x27 = [0x5C, 0x27] := by decide
      rw [hesc] at hlen ⊢
      simp only [List.length_cons, List.length_nil] at hlen
      rw [List.append_assoc, List.cons_append, List.cons_append, List.nil_append,
        lexerFeed_cons_state e1 (by decide) (by simp [herr]) (by dsimp only; omega),
        lexerFeed_cons_state e2 (by decide) (by simp [herr]) (by simp only [List.length_append, List.length_cons, List.length_nil]; omega),
        ih' _ _ (by simp only [List.length_append, List.length_cons, List.length_nil]; omega)]
      simp
    · have e : jsonLexer .sqString c = .state .sqString := by simp [jsonLexer, hc, hq, hb]
      have hesc : escapeFor 0x27 c = [c] := by simp [escapeFor, hq, hb]
      rw [hesc] at hlen ⊢
      simp only [List.length_cons, List.length_nil] at hlen
      rw [List.append_assoc, List.singleton_append,
        lexerFeed_cons_state e (by decide) (by simp [herr]) (by dsimp only; omega),
        ih' _ _ (by simp only [List.length_append, List.length_cons, List.length_nil]; omega)]
      simp

theorem lexerFeed_quoted_dq {v : List UInt8} (hv : ∀ c ∈ v, isStringByte c = true)
    (hlen : (quoted 0x22 v).length ≤ MAX_TOKEN_SIZE) :
    lexerFeed lexerInit (quoted 0x22 v) = (⟨.start, []⟩, [⟨.string, quoted 0x22 v⟩]) := by
  have hq : jsonLexer .start 0x22 = .state .dqString := by decide
  have hclose : jsonLexer .dqString 0x22 = .token .string := by decide
  simp only [quoted, List.length_cons, List.length_append, List.length_nil] at hlen
  rw [quoted, List.cons_append, lexerFeed_cons_state hq (by decide) (by decide) (by decide),
    lexerFeed_stringUnits (stringUnits_escapeFor_dq hv) _ _
      (by simp only [lexerInit, List.nil_append, List.length_singleton]; omega),
    lexerFeed, feedChar_token hclose (by decide) (show jsonLexer .dqString 0 ≠ .token .string by decide)]
  simp [lexerFeed, lexerInit]

theorem lexerFeed_quoted_sq {v : List UInt8} (hv : ∀ c ∈ v, isStringByte c = true ∧ c ≠ 0x5C)
    (hlen : (quoted 0x27 v).length ≤ MAX_TOKEN_SIZE) :
    lexerFeed lexerInit (quoted 0x27 v) = (⟨.start, []⟩, [⟨.string, quoted 0x27 v⟩]) := by
  have hq : jsonLexer .start 0x27 = .state .sqString := by decide
  have hclose : jsonLexer .sqString 0x27 = .token .string := by decide
  simp only [quoted, List.length_cons, List.length_append, List.length_nil] at hlen
  rw [quoted, List.cons_append, lexerFeed_cons_state hq (by decide) (by decide) (by decide),
    lexerFeed_sq_escapeFor hv _ _ (by simp only [lexerInit, List.nil_append, List.length_singleton]; omega),
    lexerFeed, feedChar_token hclose (by decide) (show jsonLexer .sqString 0 ≠ .token .string by decide)]
  simp [lexerFeed, lexerInit]

/-- In a single-quoted string, the escapes `\\` and `\/` move the lexer to
the double-quoted state. -/
theorem lexerFeed_sq_escape_dq {p rest : List UInt8} {e : UInt8}
    (hp : ∀ c ∈ p, isStringByte c = true ∧ c ≠ 0x5C) (he : e = 0x5C ∨ e = 0x2F)
    (hlen : (p.flatMap (escapeFor 0x27)).length + 3 ≤ MAX_TOKEN_SIZE) :
    lexerFeed lexerInit (0x27 :: p.flatMap (escapeFor 0x27) ++ 0x5C :: e :: rest) =
      lexerFeed ⟨.dqString, 0x27 :: p.flatMap (escapeFor 0x27) ++ [0x5C, e]⟩ rest := by
  have hq : jsonLexer .start 0x27 = .state .sqString := by decide
  have e1 : jsonLexer .sqString 0x5C = .state .sqStringEscape := by decide
  -- the source's row for IN_SQ_STRING_ESCAPE
  have e2 : jsonLexer .sqStringEscape e = .state .dqString := by
    rcases he with rfl | rfl <;> decide
  rw [List.cons_append, lexerFeed_cons_state hq (by decide) (by decide) (by decide),
    lexerFeed_sq_escapeFor hp _ _ (by simp only [lexerInit, List.nil_append, List.length_singleton]; omega),
    lexerFeed_cons_state e1 (by decide) (by dsimp only; decide)
      (by simp only [lexerInit, List.nil_append, List.length_append, List.length_singleton]; omega),
    lexerFeed_cons_state e2 (by decide) (by dsimp only; decide)
      (by simp only [lexerInit, List.nil_append, List.length_append, List.length_singleton]; omega)]
  simp [lexerInit]

/-- Between double quotes, a single-quoted rendering with no backslash or
double quote is read as a string's units, its `\'` included. -/
theorem stringUnits_escapeFor_sq {s : List UInt8}
    (hs : ∀ c ∈ s, isStringByte c = true ∧ c ≠ 0x5C ∧ c ≠ 0x22) :
    StringUnits (s.flatMap (escapeFor 0x27)) := by
  induction s with
  | nil => exact .nil
  | cons c s ih =>
    have ih' := ih fun x hx => hs x (List.mem_cons_of_mem c hx)
    obtain ⟨hc, hb, hdq⟩ := hs c List.mem_cons_self
    rw [List.flatMap_cons, escapeFor]
    split
    · next hcq =>
      obtain rfl : c = 0x27 := hcq.resolve_right hb
      exact .simple (by decide) ih'
    · exact .lit hc hdq hb ih'

/-- A string left open is ended by the flush as an error. -/
theorem lexerFlush_dqString (tok : List UInt8) :
    lexerFlush ⟨.dqString, tok⟩ = (⟨.start, []⟩, [⟨.error, tok⟩]) := by
  simp [lexerFlush, feedChar, feedCharLoop, jsonLexer, isStringByte]

end Lexer

/-! ## Values through `qobject_from_json` -/

section Values

variable {v : List UInt8}

theorem length_quoted_le (q : UInt8) (v : List UInt8) :
    (quoted q v).length ≤ 2 * v.length + 2 := by
  have := length_flatMap_escapeFor_le q v
  simp only [quoted, List.length_cons, List.length_append, List.length_nil]
  omega

/-- Every value of string bytes comes back from between double quotes. -/
theorem qobjectFromJson_quoted_dq (hv : ∀ c ∈ v, isStringByte c = true)
    (hlen : 2 * v.length + 2 ≤ MAX_TOKEN_SIZE) :
    qobjectFromJson (quoted 0x22 v) = some (some (.qstring v)) := by
  rw [qobjectFromJson_of_string (lexerFeed_quoted_dq hv ((length_quoted_le _ v).trans hlen)),
    qstringFromEscapedStr_quoted (.inl rfl) fun c hc => ne_zero_of_isStringByte (hv c hc)]
  rfl

/-- A value with no backslash comes back from between single quotes. -/
theorem qobjectFromJson_quoted_sq (hv : ∀ c ∈ v, isStringByte c = true ∧ c ≠ 0x5C)
    (hlen : 2 * v.length + 2 ≤ MAX_TOKEN_SIZE) :
    qobjectFromJson (quoted 0x27 v) = some (some (.qstring v)) := by
  rw [qobjectFromJson_of_string (lexerFeed_quoted_sq hv ((length_quoted_le _ v).trans hlen)),
    qstringFromEscapedStr_quoted (.inr rfl) fun c hc => ne_zero_of_isStringByte (hv c hc).1]
  rfl

/-- A value with a backslash, and no double quote or second backslash after
it: from between double quotes it comes back, from between single quotes
the escaped backslash leaves the lexer in a double-quoted string that the
closing single quote does not end, the flush ends it as an error, and the
result is NULL. -/
theorem qobjectFromJson_quoted_backslash {p s : List UInt8}
    (hp : ∀ c ∈ p, isStringByte c = true ∧ c ≠ 0x5C)
    (hs : ∀ c ∈ s, isStringByte c = true ∧ c ≠ 0x5C ∧ c ≠ 0x22)
    (hlen : 2 * (p ++ 0x5C :: s).length + 2 ≤ MAX_TOKEN_SIZE) :
    qobjectFromJson (quoted 0x22 (p ++ 0x5C :: s)) = some (some (.qstring (p ++ 0x5C :: s))) ∧
      qobjectFromJson (quoted 0x27 (p ++ 0x5C :: s)) = some none := by
  have hv : ∀ c ∈ p ++ 0x5C :: s, isStringByte c = true := by
    intro c hc
    rcases List.mem_append.1 hc with hc | hc
    · exact (hp c hc).1
    · rcases List.mem_cons.1 hc with rfl | hc
      · decide
      · exact (hs c hc).1
  refine ⟨qobjectFromJson_quoted_dq hv hlen, ?_⟩
  have hlp := length_flatMap_escapeFor_le 0x27 p
  have hls := length_flatMap_escapeFor_le 0x27 s
  simp only [List.length_append, List.length_cons] at hlen
  have hopen : jsonLexer .dqString 0x27 = .state .dqString := by decide
  have hfeed : lexerFeed lexerInit (quoted 0x27 (p ++ 0x5C :: s)) =
      (⟨.dqString, quoted 0x27 (p ++ 0x5C :: s)⟩, []) := by
    have hesc : escapeFor 0x27 0x5C = [0x5C, 0x5C] := by decide
    rw [quoted, List.flatMap_append, List.flatMap_cons, hesc, List.cons_append, List.append_assoc,
      List.append_assoc, List.cons_append, List.cons_append, List.nil_append,
      ← List.cons_append, lexerFeed_sq_escape_dq hp (.inl rfl) (by omega),
      lexerFeed_stringUnits (stringUnits_escapeFor_sq hs) _ _
        (by simp only [List.length_append, List.length_cons, List.length_nil]; omega),
      lexerFeed_cons_state hopen (by decide) (by dsimp only; decide)
        (by simp only [List.length_append, List.length_cons, List.length_nil]; omega)]
    simp [lexerFeed]
  rw [qobjectFromJson, messageParserEmits, hfeed, lexerFlush_dqString]
  simp [processTokens, processToken, messageParserInit, jsonParserParse]

/-- The smallest such value: one backslash, `"\\"` against `'\\'`. -/
theorem qobjectFromJson_quoted_backslash_one :
    qobjectFromJson (quoted 0x22 [0x5C]) = some (some (.qstring [0x5C])) ∧
      qobjectFromJson (quoted 0x27 [0x5C]) = some none :=
  qobjectFromJson_quoted_backslash (p := []) (s := []) (by simp) (by simp) (by decide)

end Values

end QemuKvm.Json
