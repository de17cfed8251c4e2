import QemuKvm.Json.RoundTrip
import QemuKvm.Lib.Run

/-!
# Where `qobject_from_json` aborts

The parser pops and peeks tokens under a `g_assert` that one is left, and
assumes one is left after every opening bracket or brace, comma and colon.
The streamer hands it a token list when the brackets and braces balance,
when more are closed than opened, or when `MAX_TOKEN_SIZE` or `MAX_NESTING`
is passed.

The parse of a list is followed fuel by fuel (`parse_specs`): a value that
is parsed spans a balanced segment of the tokens, and a parse that aborts
ran out of tokens inside a value, so the tokens open more than they close.
The streamer keeps its counters equal to the counts of the tokens it holds
(`Counted`), so of the lists it hands over only those cut at a limit can
do that (`qobjectFromJson_eq_none`). A run of 1025 `[` is cut at
`MAX_NESTING` and the parser aborts on it (`qobjectFromJson_deepArray`).
-/

namespace QemuKvm.Json

/-! ## Counting braces and brackets -/

/-- What a token adds to the streamer's `brace_count`. -/
def braceDelta (t : Token) : ℤ :=
  if t.type = .operator ∧ t.text.headD 0 = 0x7B then 1
  else if t.type = .operator ∧ t.text.headD 0 = 0x7D then -1
  else 0

/-- What a token adds to the streamer's `bracket_count`. -/
def bracketDelta (t : Token) : ℤ :=
  if t.type = .operator ∧ t.text.headD 0 = 0x5B then 1
  else if t.type = .operator ∧ t.text.headD 0 = 0x5D then -1
  else 0

/-- The braces a list of tokens opens, less those it closes. -/
def braces (ts : List Token) : ℤ := (ts.map braceDelta).sum

/-- The brackets a list of tokens opens, less those it closes. -/
def brackets (ts : List Token) : ℤ := (ts.map bracketDelta).sum

@[simp] theorem braces_nil : braces [] = 0 := rfl
@[simp] theorem brackets_nil : brackets [] = 0 := rfl

@[simp] theorem braces_cons (t : Token) (ts : List Token) :
    braces (t :: ts) = braceDelta t + braces ts := by
  simp [braces]

@[simp] theorem brackets_cons (t : Token) (ts : List Token) :
    brackets (t :: ts) = bracketDelta t + brackets ts := by
  simp [brackets]

theorem braces_append (ts us : List Token) : braces (ts ++ us) = braces ts + braces us := by
  simp [braces]

theorem brackets_append (ts us : List Token) : brackets (ts ++ us) = brackets ts + brackets us := by
  simp [brackets]

/-- The operator the parser recognises counts as the streamer counts it. -/
theorem deltas_of_tokenIsOperator {t : Token} {op : UInt8} (h : tokenIsOperator t op = true) :
    braceDelta t = braceDelta ⟨.operator, [op]⟩ ∧ bracketDelta t = bracketDelta ⟨.operator, [op]⟩ := by
  obtain ⟨t, text⟩ := t
  simp only [tokenIsOperator, Bool.and_eq_true, decide_eq_true_eq] at h
  obtain ⟨rfl, rfl⟩ := h
  exact ⟨rfl, rfl⟩

/-- A value that is not an operator counts nothing. -/
theorem deltas_of_type_ne {t : Token} (h : t.type ≠ .operator) :
    braceDelta t = 0 ∧ bracketDelta t = 0 := by
  simp [braceDelta, bracketDelta, h]


/-! ## What the parser consumes -/

section Parse

variable {toks : List Token}

/-- From `pos` to `pos'` the tokens count `db` braces and `dk` brackets. -/
def Segment (toks : List Token) (pos pos' : ℕ) (db dk : ℤ) : Prop :=
  pos < pos' ∧ pos' ≤ toks.length ∧
    braces (toks.drop pos) = db + braces (toks.drop pos') ∧
    brackets (toks.drop pos) = dk + brackets (toks.drop pos')

/-- From `pos` to the end the tokens open at least as many braces and
brackets as they close. -/
def Unclosed (toks : List Token) (pos : ℕ) : Prop :=
  0 ≤ braces (toks.drop pos) ∧ 0 ≤ brackets (toks.drop pos)

/-- The end of the tokens falls inside a value that starts at `pos`: none is
left there, or more braces or brackets are opened than closed. -/
def RunsOut (toks : List Token) (pos : ℕ) : Prop :=
  Unclosed toks pos ∧ (toks.length ≤ pos ∨ 0 < braces (toks.drop pos) ∨ 0 < brackets (toks.drop pos))

theorem Segment.trans {p q r : ℕ} {db dk db' dk' eb ek : ℤ} (h : Segment toks p q db dk)
    (h' : Segment toks q r db' dk') (hb : db + db' = eb) (hk : dk + dk' = ek) :
    Segment toks p r eb ek := by
  obtain ⟨h1, -, h3, h4⟩ := h
  obtain ⟨h1', h2', h3', h4'⟩ := h'
  exact ⟨by omega, h2', by rw [h3, h3']; linarith, by rw [h4, h4']; linarith⟩

/-- After a segment that starts at or past `pos`, fewer tokens are left than
from `pos`: the fuel left for what follows the segment is enough. -/
theorem Segment.fuel_lt {pos q p f : ℕ} {db dk : ℤ} (hs : Segment toks q p db dk) (hq : pos ≤ q)
    (hf : toks.length - pos ≤ f) : toks.length - p < f := by
  obtain ⟨hqp, hp, -, -⟩ := hs
  omega

theorem Segment.token {pos : ℕ} {t : Token} (h : toks[pos]? = some t) :
    Segment toks pos (pos + 1) (braceDelta t) (bracketDelta t) := by
  obtain ⟨hlt, rfl⟩ := List.getElem?_eq_some_iff.1 h
  rw [Segment, List.drop_eq_getElem_cons hlt, braces_cons, brackets_cons]
  exact ⟨by omega, hlt, rfl, rfl⟩

/-- An operator the parser recognises, as one token of a segment. -/
theorem Segment.operator {pos : ℕ} {t : Token} {op : UInt8} {db dk : ℤ} (h : toks[pos]? = some t)
    (hop : tokenIsOperator t op = true) (hb : braceDelta ⟨.operator, [op]⟩ = db)
    (hk : bracketDelta ⟨.operator, [op]⟩ = dk) : Segment toks pos (pos + 1) db dk := by
  obtain ⟨hb', hk'⟩ := deltas_of_tokenIsOperator hop
  have hs := Segment.token h
  rwa [hb', hk', hb, hk] at hs

/-- A keyword, a string or a number, as one token of a segment. -/
theorem Segment.scalar {pos : ℕ} {t : Token} (h : toks[pos]? = some t) (ht : t.type ≠ .operator) :
    Segment toks pos (pos + 1) 0 0 := by
  obtain ⟨hb, hk⟩ := deltas_of_type_ne ht
  have hs := Segment.token h
  rwa [hb, hk] at hs

theorem unclosed_of_none {pos : ℕ} (h : toks[pos]? = none) : Unclosed toks pos := by
  rw [List.getElem?_eq_none_iff] at h
  simp [Unclosed, List.drop_eq_nil_of_le h]

theorem Unclosed.of_segment {pos pos' : ℕ} {db dk : ℤ} (hs : Segment toks pos pos' db dk)
    (hdb : 0 ≤ db) (hdk : 0 ≤ dk) (hu : Unclosed toks pos') : Unclosed toks pos := by
  obtain ⟨-, -, h3, h4⟩ := hs
  exact ⟨by rw [h3]; linarith [hu.1], by rw [h4]; linarith [hu.2]⟩

/-- A value that opened a bracket and runs to the end of the tokens. -/
theorem RunsOut.of_bracket {pos : ℕ} {t : Token} (ht : toks[pos]? = some t)
    (hop : tokenIsOperator t 0x5B = true) (hu : Unclosed toks (pos + 1)) : RunsOut toks pos := by
  obtain ⟨-, -, h3, h4⟩ : Segment toks pos (pos + 1) 0 1 :=
    Segment.operator ht hop (by decide) (by decide)
  exact ⟨⟨by rw [h3]; linarith [hu.1], by rw [h4]; linarith [hu.2]⟩,
    .inr (.inr (by rw [h4]; linarith [hu.2]))⟩

/-- A value that opened a brace and runs to the end of the tokens. -/
theorem RunsOut.of_brace {pos : ℕ} {t : Token} (ht : toks[pos]? = some t)
    (hop : tokenIsOperator t 0x7B = true) (hu : Unclosed toks (pos + 1)) : RunsOut toks pos := by
  obtain ⟨-, -, h3, h4⟩ : Segment toks pos (pos + 1) 1 0 :=
    Segment.operator ht hop (by decide) (by decide)
  exact ⟨⟨by rw [h3]; linarith [hu.1], by rw [h4]; linarith [hu.2]⟩,
    .inr (.inl (by rw [h3]; linarith [hu.1]))⟩

/-- No token is left at `pos`. -/
theorem RunsOut.of_le {pos : ℕ} (h : toks.length ≤ pos) : RunsOut toks pos :=
  ⟨unclosed_of_none (List.getElem?_eq_none_iff.2 h), .inl h⟩

theorem parseKeyword_spec (pos : ℕ) :
    (∀ v pos', parseKeyword toks pos = .ok v pos' → Segment toks pos pos' 0 0) ∧
      (parseKeyword toks pos = .abort → toks.length ≤ pos) := by
  rw [parseKeyword]
  rcases ht : toks[pos]? with _ | t
  · exact ⟨fun _ _ h => (by cases h), fun _ => List.getElem?_eq_none_iff.1 ht⟩
  dsimp only
  refine ⟨fun v pos' h => ?_, fun h => ?_⟩
  · -- a keyword is one token that is not an operator
    split_ifs at h with hk <;> cases h
    all_goals exact Segment.scalar ht (by rw [not_not.1 hk]; decide)
  · split_ifs at h

theorem parseLiteral_spec (pos : ℕ) :
    (∀ v pos', parseLiteral toks pos = .ok v pos' → Segment toks pos pos' 0 0) ∧
      (parseLiteral toks pos = .abort → toks.length ≤ pos) := by
  rw [parseLiteral]
  rcases ht : toks[pos]? with _ | t
  · exact ⟨fun _ _ h => (by cases h), fun _ => List.getElem?_eq_none_iff.1 ht⟩
  dsimp only
  refine ⟨fun v pos' h => ?_, fun h => ?_⟩
  · -- a string or a number is one token that is not an operator
    split at h
    · rename_i hty
      split at h <;> cases h
      exact Segment.scalar ht (by rw [hty]; decide)
    · rename_i hty
      cases h
      exact Segment.scalar ht (by rw [hty]; decide)
    · cases h
  · split at h
    · split at h <;> cases h
    · cases h
    · cases h

/-! ### The six parsing functions, fuel by fuel

Each function's spec says where a parse that succeeds ends (a segment that
closes what it opens, or one more bracket or brace for the loops, which
start inside the value), and what an abort means: the tokens ran out inside
a value. -/

/-- `parse_value` at fuel `f`. -/
def ValueSpec (f : ℕ) : Prop :=
  ∀ toks pos, (∀ v pos', parseValue f toks pos = .ok v pos' → Segment toks pos pos' 0 0) ∧
    (parseValue f toks pos = .abort → toks.length - pos < f → RunsOut toks pos)

/-- `parse_pair` at fuel `f`. -/
def PairSpec (f : ℕ) : Prop :=
  ∀ toks pos, (∀ kv pos', parsePair f toks pos = .ok kv pos' → Segment toks pos pos' 0 0) ∧
    (parsePair f toks pos = .abort → toks.length - pos < f → Unclosed toks pos)

/-- The loop of `parse_object` at fuel `f`. -/
def ObjectLoopSpec (f : ℕ) : Prop :=
  ∀ toks pos es,
    (∀ v pos', objectLoop f toks pos es = .ok v pos' → Segment toks pos pos' (-1) 0) ∧
      (objectLoop f toks pos es = .abort → toks.length - pos < f → Unclosed toks pos)

/-- `parse_object` at fuel `f`. -/
def ObjectSpec (f : ℕ) : Prop :=
  ∀ toks pos, (∀ v pos', parseObject f toks pos = .ok v pos' → Segment toks pos pos' 0 0) ∧
    (parseObject f toks pos = .abort → toks.length - pos ≤ f → RunsOut toks pos)

/-- The loop of `parse_array` at fuel `f`. -/
def ArrayLoopSpec (f : ℕ) : Prop :=
  ∀ toks pos items,
    (∀ v pos', arrayLoop f toks pos items = .ok v pos' → Segment toks pos pos' 0 (-1)) ∧
      (arrayLoop f toks pos items = .abort → toks.length - pos < f → Unclosed toks pos)

/-- `parse_array` at fuel `f`. -/
def ArraySpec (f : ℕ) : Prop :=
  ∀ toks pos, (∀ v pos', parseArray f toks pos = .ok v pos' → Segment toks pos pos' 0 0) ∧
    (parseArray f toks pos = .abort → toks.length - pos ≤ f → RunsOut toks pos)

theorem arraySpec {f : ℕ} (hV : ValueSpec f) (hAL : ArrayLoopSpec f) : ArraySpec f := by
  intro toks pos
  rw [parseArray]
  rcases ht : toks[pos]? with _ | t
  · exact ⟨fun _ _ h => (by cases h), fun _ _ => ⟨unclosed_of_none ht, .inl (List.getElem?_eq_none_iff.1 ht)⟩⟩
  have hlt : pos < toks.length := (List.getElem?_eq_some_iff.1 ht).1
  dsimp only
  by_cases hop : tokenIsOperator t 0x5B = true
  swap
  · rw [if_pos (by simp [hop])]
    exact ⟨fun _ _ h => (by cases h), fun h => (by cases h)⟩
  rw [if_neg (by simp [hop])]
  have hopen : Segment toks pos (pos + 1) 0 1 := Segment.operator ht hop (by decide) (by decide)
  rcases hp : toks[pos + 1]? with _ | peek
  · -- nothing after the bracket
    exact ⟨fun _ _ h => (by cases h), fun _ _ => RunsOut.of_bracket ht hop (unclosed_of_none hp)⟩
  dsimp only
  by_cases hclose : tokenIsOperator peek 0x5D = true
  · -- the empty array
    rw [if_pos hclose]
    refine ⟨fun v pos' h => ?_, fun h => (by cases h)⟩
    cases h
    have hshut : Segment toks (pos + 1) (pos + 1 + 1) 0 (-1) :=
      Segment.operator hp hclose (by decide) (by decide)
    exact hopen.trans hshut (by norm_num) (by norm_num)
  rw [if_neg hclose]
  rcases hv : parseValue f toks (pos + 1) with ⟨o, p1⟩ | _ | _
  · -- the first item, then the loop
    have hseg := (hV toks (pos + 1)).1 o p1 hv
    have hfirst : Segment toks pos p1 0 1 := hopen.trans hseg (by norm_num) (by norm_num)
    dsimp only
    refine ⟨fun v pos' h => ?_, fun h hf => ?_⟩
    · exact hfirst.trans ((hAL toks p1 [o]).1 v pos' h) (by norm_num) (by norm_num)
    · exact RunsOut.of_bracket ht hop (Unclosed.of_segment hseg le_rfl le_rfl
        ((hAL toks p1 [o]).2 h (hseg.fuel_lt (Nat.le_succ pos) hf)))
  · exact ⟨fun _ _ h => (by cases h), fun h => (by cases h)⟩
  · exact ⟨fun _ _ h => (by cases h),
      fun _ hf => RunsOut.of_bracket ht hop ((hV toks (pos + 1)).2 hv (by omega)).1⟩

theorem arrayLoopSpec_zero : ArrayLoopSpec 0 := by
  intro toks pos items
  rw [arrayLoop]
  exact ⟨fun _ _ h => (by cases h), fun _ hf => absurd hf (Nat.not_lt_zero _)⟩

theorem arrayLoopSpec_succ {f : ℕ} (hV : ValueSpec f) (hAL : ArrayLoopSpec f) :
    ArrayLoopSpec (f + 1) := by
  intro toks pos items
  rw [arrayLoop]
  rcases ht : toks[pos]? with _ | t
  · exact ⟨fun _ _ h => (by cases h), fun _ _ => unclosed_of_none ht⟩
  dsimp only
  by_cases hclose : tokenIsOperator t 0x5D = true
  · -- the closing bracket
    rw [if_pos hclose]
    refine ⟨fun v pos' h => ?_, fun h => (by cases h)⟩
    cases h
    exact Segment.operator ht hclose (by decide) (by decide)
  rw [if_neg hclose]
  by_cases hsep : tokenIsOperator t 0x2C = true
  swap
  · rw [if_pos (by simp [hsep])]
    exact ⟨fun _ _ h => (by cases h), fun h => (by cases h)⟩
  rw [if_neg (by simp [hsep])]
  have hcomma : Segment toks pos (pos + 1) 0 0 := Segment.operator ht hsep (by decide) (by decide)
  rcases hv : parseValue f toks (pos + 1) with ⟨o, p1⟩ | _ | _
  · -- another item, and the loop again
    have hitem : Segment toks pos p1 0 0 :=
      hcomma.trans ((hV toks (pos + 1)).1 o p1 hv) (by norm_num) (by norm_num)
    dsimp only
    refine ⟨fun v pos' h => ?_, fun h hf => ?_⟩
    · exact hitem.trans ((hAL toks p1 _).1 v pos' h) (by norm_num) (by norm_num)
    · exact Unclosed.of_segment hitem le_rfl le_rfl
        ((hAL toks p1 _).2 h (hitem.fuel_lt le_rfl (Nat.lt_succ_iff.1 hf)))
  · exact ⟨fun _ _ h => (by cases h), fun h => (by cases h)⟩
  · have hlt : pos < toks.length := (List.getElem?_eq_some_iff.1 ht).1
    exact ⟨fun _ _ h => (by cases h),
      fun _ hf => Unclosed.of_segment hcomma le_rfl le_rfl ((hV toks (pos + 1)).2 hv (by omega)).1⟩

theorem pairSpec {f : ℕ} (hV : ValueSpec f) : PairSpec f := by
  intro toks pos
  rw [parsePair]
  rcases ht : toks[pos]? with _ | t
  · exact ⟨fun _ _ h => (by cases h), fun _ _ => unclosed_of_none ht⟩
  dsimp only
  rcases hk : parseValue f toks pos with ⟨key, p1⟩ | _ | _
  swap
  · exact ⟨fun _ _ h => (by cases h), fun h => (by cases h)⟩
  swap
  · exact ⟨fun _ _ h => (by cases h), fun _ hf => ((hV toks pos).2 hk hf).1⟩
  have hkey := (hV toks pos).1 key p1 hk
  dsimp only
  cases key with
  | qstring k =>
    dsimp only
    rcases hc : toks[p1]? with _ | c
    · exact ⟨fun _ _ h => (by cases h),
        fun _ _ => Unclosed.of_segment hkey le_rfl le_rfl (unclosed_of_none hc)⟩
    dsimp only
    by_cases hcolon : tokenIsOperator c 0x3A = true
    swap
    · rw [if_pos (by simp [hcolon])]
      exact ⟨fun _ _ h => (by cases h), fun h => (by cases h)⟩
    rw [if_neg (by simp [hcolon])]
    have hcol : Segment toks p1 (p1 + 1) 0 0 := Segment.operator hc hcolon (by decide) (by decide)
    have hsep : Segment toks pos (p1 + 1) 0 0 := hkey.trans hcol (by norm_num) (by norm_num)
    rcases hv : parseValue f toks (p1 + 1) with ⟨v, p2⟩ | _ | _
    · refine ⟨fun kv pos' h => ?_, fun h => (by cases h)⟩
      cases h
      exact hsep.trans ((hV toks (p1 + 1)).1 v p2 hv) (by norm_num) (by norm_num)
    · exact ⟨fun _ _ h => (by cases h), fun h => (by cases h)⟩
    · exact ⟨fun _ _ h => (by cases h), fun _ hf => Unclosed.of_segment hsep le_rfl le_rfl
        ((hV toks (p1 + 1)).2 hv (by have := hkey.1; omega)).1⟩
  -- a key that is not a string makes the pair NULL
  | _ =>
    dsimp only
    exact ⟨fun _ _ h => (by cases h), fun h => (by cases h)⟩

theorem objectLoopSpec_zero : ObjectLoopSpec 0 := by
  intro toks pos es
  rw [objectLoop]
  exact ⟨fun _ _ h => (by cases h), fun _ hf => absurd hf (Nat.not_lt_zero _)⟩

theorem objectLoopSpec_succ {f : ℕ} (hP : PairSpec f) (hOL : ObjectLoopSpec f) :
    ObjectLoopSpec (f + 1) := by
  intro toks pos es
  rw [objectLoop]
  rcases ht : toks[pos]? with _ | t
  · exact ⟨fun _ _ h => (by cases h), fun _ _ => unclosed_of_none ht⟩
  have hlt : pos < toks.length := (List.getElem?_eq_some_iff.1 ht).1
  dsimp only
  by_cases hclose : tokenIsOperator t 0x7D = true
  · -- the closing brace
    rw [if_pos hclose]
    refine ⟨fun v pos' h => ?_, fun h => (by cases h)⟩
    cases h
    exact Segment.operator ht hclose (by decide) (by decide)
  rw [if_neg hclose]
  by_cases hsep : tokenIsOperator t 0x2C = true
  swap
  · rw [if_pos (by simp [hsep])]
    exact ⟨fun _ _ h => (by cases h), fun h => (by cases h)⟩
  rw [if_neg (by simp [hsep])]
  have hcomma : Segment toks pos (pos + 1) 0 0 := Segment.operator ht hsep (by decide) (by decide)
  rcases hp : parsePair f toks (pos + 1) with ⟨kv, p1⟩ | _ | _
  · -- another pair, and the loop again
    have hentry : Segment toks pos p1 0 0 :=
      hcomma.trans ((hP toks (pos + 1)).1 kv p1 hp) (by norm_num) (by norm_num)
    dsimp only
    refine ⟨fun v pos' h => ?_, fun h hf => ?_⟩
    · exact hentry.trans ((hOL toks p1 _).1 v pos' h) (by norm_num) (by norm_num)
    · exact Unclosed.of_segment hentry le_rfl le_rfl
        ((hOL toks p1 _).2 h (hentry.fuel_lt le_rfl (Nat.lt_succ_iff.1 hf)))
  · exact ⟨fun _ _ h => (by cases h), fun h => (by cases h)⟩
  · exact ⟨fun _ _ h => (by cases h),
      fun _ hf => Unclosed.of_segment hcomma le_rfl le_rfl ((hP toks (pos + 1)).2 hp (by omega))⟩

theorem objectSpec {f : ℕ} (hP : PairSpec f) (hOL : ObjectLoopSpec f) : ObjectSpec f := by
  intro toks pos
  rw [parseObject]
  rcases ht : toks[pos]? with _ | t
  · exact ⟨fun _ _ h => (by cases h), fun _ _ => RunsOut.of_le (List.getElem?_eq_none_iff.1 ht)⟩
  have hlt : pos < toks.length := (List.getElem?_eq_some_iff.1 ht).1
  dsimp only
  by_cases hop : tokenIsOperator t 0x7B = true
  swap
  · rw [if_pos (by simp [hop])]
    exact ⟨fun _ _ h => (by cases h), fun h => (by cases h)⟩
  rw [if_neg (by simp [hop])]
  have hopen : Segment toks pos (pos + 1) 1 0 := Segment.operator ht hop (by decide) (by decide)
  rcases hq : toks[pos + 1]? with _ | peek
  · -- nothing after the brace
    exact ⟨fun _ _ h => (by cases h), fun _ _ => RunsOut.of_brace ht hop (unclosed_of_none hq)⟩
  dsimp only
  by_cases hclose : tokenIsOperator peek 0x7D = true
  · -- the empty object
    rw [if_pos hclose]
    refine ⟨fun v pos' h => ?_, fun h => (by cases h)⟩
    cases h
    have hshut : Segment toks (pos + 1) (pos + 1 + 1) (-1) 0 :=
      Segment.operator hq hclose (by decide) (by decide)
    exact hopen.trans hshut (by norm_num) (by norm_num)
  rw [if_neg hclose]
  rcases hp : parsePair f toks (pos + 1) with ⟨kv, p1⟩ | _ | _
  · -- the first pair, then the loop
    have hpair := (hP toks (pos + 1)).1 kv p1 hp
    have hfirst : Segment toks pos p1 1 0 := hopen.trans hpair (by norm_num) (by norm_num)
    dsimp only
    refine ⟨fun v pos' h => ?_, fun h hf => ?_⟩
    · exact hfirst.trans ((hOL toks p1 _).1 v pos' h) (by norm_num) (by norm_num)
    · exact RunsOut.of_brace ht hop (Unclosed.of_segment hpair le_rfl le_rfl
        ((hOL toks p1 _).2 h (hpair.fuel_lt (Nat.le_succ pos) hf)))
  · exact ⟨fun _ _ h => (by cases h), fun h => (by cases h)⟩
  · exact ⟨fun _ _ h => (by cases h),
      fun _ hf => RunsOut.of_brace ht hop ((hP toks (pos + 1)).2 hp (by omega))⟩

theorem valueSpec_zero : ValueSpec 0 := by
  intro toks pos
  rw [parseValue]
  exact ⟨fun _ _ h => (by cases h), fun _ hf => absurd hf (Nat.not_lt_zero _)⟩

/-- One level of `parse_value`: an object, else an array, else a keyword,
else a literal, the first that is not NULL. -/
theorem valueSpec_succ {f : ℕ} (hO : ObjectSpec f) (hA : ArraySpec f) : ValueSpec (f + 1) := by
  intro toks pos
  rw [parseValue]
  rcases ho : parseObject f toks pos with ⟨v, p1⟩ | _ | _
  · exact ⟨fun _ _ h => by cases h; exact (hO toks pos).1 v p1 ho, fun h => (by cases h)⟩
  swap
  · exact ⟨fun _ _ h => (by cases h), fun _ hf => (hO toks pos).2 ho (by omega)⟩
  dsimp only
  rcases ha : parseArray f toks pos with ⟨v, p1⟩ | _ | _
  · exact ⟨fun _ _ h => by cases h; exact (hA toks pos).1 v p1 ha, fun h => (by cases h)⟩
  swap
  · exact ⟨fun _ _ h => (by cases h), fun _ hf => (hA toks pos).2 ha (by omega)⟩
  dsimp only
  have hkw := @parseKeyword_spec toks pos
  rcases hk : parseKeyword toks pos with ⟨v, p1⟩ | _ | _
  · exact ⟨fun _ _ h => by cases h; exact hkw.1 v p1 hk, fun h => (by cases h)⟩
  · -- neither object, array nor keyword: a literal
    dsimp only
    have hlit := @parseLiteral_spec toks pos
    exact ⟨hlit.1, fun h _ => RunsOut.of_le (hlit.2 h)⟩
  · exact ⟨fun _ _ h => (by cases h), fun _ _ => RunsOut.of_le (hkw.2 hk)⟩

/-- The specs at every fuel, by induction on the fuel: each function at
`f + 1` calls the others at `f`. -/
theorem parse_specs (f : ℕ) : ValueSpec f ∧ ObjectLoopSpec f ∧ ArrayLoopSpec f := by
  induction f with
  | zero => exact ⟨valueSpec_zero, objectLoopSpec_zero, arrayLoopSpec_zero⟩
  | succ f ih =>
    obtain ⟨hV, hOL, hAL⟩ := ih
    have hP := pairSpec hV
    exact ⟨valueSpec_succ (objectSpec hP hOL) (arraySpec hV hAL), objectLoopSpec_succ hP hOL,
      arrayLoopSpec_succ hV hAL⟩

/-- The parser aborts on a list only when its tokens open more braces or
brackets than they close, and close no more than they open. -/
theorem jsonParserParse_eq_none {e : Option (List Token)} (h : jsonParserParse e = none) :
    ∃ toks, e = some toks ∧ 0 ≤ braces toks ∧ 0 ≤ brackets toks ∧
      (0 < braces toks ∨ 0 < brackets toks) := by
  rcases e with _ | ⟨_ | ⟨t, ts⟩⟩
  · exact (by cases h)
  · exact (by cases h)
  rw [jsonParserParse.eq_3 _ (List.cons_ne_nil t ts)] at h
  split at h
  · exact (by cases h)
  · exact (by cases h)
  rename_i hv
  obtain ⟨⟨hb, hk⟩, hend⟩ := ((parse_specs _).1 (t :: ts) 0).2 hv (by omega)
  rw [List.drop_zero] at hb hk hend
  refine ⟨t :: ts, rfl, hb, hk, ?_⟩
  rcases hend with hend | hend
  · exact absurd hend (by simp)
  · exact hend

end Parse

/-! ## What the streamer hands over -/

section Stream

/-- The bytes of a list of tokens. -/
def textSize (ts : List Token) : ℕ := (ts.map fun t => t.text.length).sum

@[simp] theorem textSize_nil : textSize [] = 0 := rfl

theorem textSize_append (ts us : List Token) : textSize (ts ++ us) = textSize ts + textSize us := by
  simp [textSize]

/-- The streamer's counters are the counts of the tokens it holds. -/
structure Counted (p : JsonMessageParser) : Prop where
  brace : p.braceCount = braces p.tokens
  bracket : p.bracketCount = brackets p.tokens
  size : p.tokenSize = textSize p.tokens

theorem counted_init : Counted messageParserInit := ⟨rfl, rfl, rfl⟩

/-- A list the streamer hands to the parser: NULL after an error, or tokens
that close what they open, close more, or passed a limit. -/
def Handed : Option (List Token) → Prop
  | none => True
  | some ts => braces ts < 0 ∨ brackets ts < 0 ∨ (braces ts = 0 ∧ brackets ts = 0) ∨
      MAX_TOKEN_SIZE < textSize ts ∨ MAX_NESTING < brackets ts ∨ MAX_NESTING < braces ts

theorem brace_ite (c : ℤ) (t : Token) :
    (if t.type = .operator ∧ t.text.headD 0 = 0x7B then c + 1
      else if t.type = .operator ∧ t.text.headD 0 = 0x7D then c - 1 else c) = c + braceDelta t := by
  unfold braceDelta
  split_ifs <;> ring

theorem bracket_ite (c : ℤ) (t : Token) :
    (if t.type = .operator ∧ t.text.headD 0 = 0x5B then c + 1
      else if t.type = .operator ∧ t.text.headD 0 = 0x5D then c - 1 else c) = c + bracketDelta t := by
  unfold bracketDelta
  split_ifs <;> ring

/-- One token: the counters stay the counts, and what is handed over is a
list of one of the kinds the streamer emits. -/
theorem processToken_spec {p : JsonMessageParser} (hp : Counted p) (t : Token) :
    Counted (processToken p t).1 ∧ ∀ e ∈ (processToken p t).2, Handed e := by
  have hb : p.braceCount + braceDelta t = braces (p.tokens ++ [t]) := by
    rw [braces_append, hp.brace]; simp
  have hk : p.bracketCount + bracketDelta t = brackets (p.tokens ++ [t]) := by
    rw [brackets_append, hp.bracket]; simp
  have hs : p.tokenSize + t.text.length = textSize (p.tokens ++ [t]) := by
    rw [textSize_append, hp.size]; simp [textSize]
  rw [processToken, brace_ite, bracket_ite, hb, hk, hs]
  split_ifs with herr hbal hlim
  · exact ⟨counted_init, by simp [Handed]⟩
  · -- balanced, or closing more than was opened
    refine ⟨counted_init, ?_⟩
    simp only [List.mem_singleton, forall_eq, Handed]
    rcases hbal with h | h | h
    · exact .inl h
    · exact .inr (.inl h)
    · exact .inr (.inr (.inl h))
  · -- a limit passed
    refine ⟨counted_init, ?_⟩
    simp only [List.mem_singleton, forall_eq, Handed]
    exact .inr (.inr (.inr hlim))
  · exact ⟨⟨rfl, rfl, rfl⟩, by simp⟩

/-- The streamer over a list of tokens is the run of its one-token step. -/
theorem processTokens_eq (p : JsonMessageParser) (ts : List Token) :
    processTokens p ts = (run processToken p ts, (outputs processToken p ts).flatten) := by
  induction ts generalizing p with
  | nil => rfl
  | cons t ts ih => rw [processTokens, ih]; rfl

/-- Every list the streamer hands over, from a counted state, is of one of
the kinds it emits. -/
theorem processTokens_handed {p : JsonMessageParser} (hp : Counted p) (ts : List Token) :
    ∀ e ∈ (processTokens p ts).2, Handed e := by
  rw [processTokens_eq]
  intro e he
  obtain ⟨o, ho, he⟩ := List.mem_flatten.1 he
  exact outputs_forall processToken Counted (fun _ => True) (fun o => ∀ e ∈ o, Handed e)
    (fun q t _ hq => (processToken_spec hq t).1) (fun q t _ hq => (processToken_spec hq t).2)
    hp ts (fun _ _ => trivial) o ho e he

theorem messageParserEmits_handed (s : List UInt8) : ∀ e ∈ messageParserEmits s, Handed e :=
  processTokens_handed counted_init _

end Stream

/-! ## When `qobject_from_json` aborts -/

/-- The results fold to the abort only if some list's parse aborted. -/
theorem foldl_parse_eq_none {es : List (Option (List Token))} {acc : Option (Option QObject)}
    (h : es.foldl (fun acc e => acc.bind fun _ => jsonParserParse e) acc = none) :
    acc = none ∨ ∃ e ∈ es, jsonParserParse e = none := by
  induction es generalizing acc with
  | nil => exact .inl h
  | cons e es ih =>
    rcases ih h with h' | ⟨e', he', h'⟩
    · rcases acc with _ | a
      · exact .inl rfl
      · exact .inr ⟨e, List.mem_cons_self, h'⟩
    · exact .inr ⟨e', List.mem_cons_of_mem e he', h'⟩

/-- `qobject_from_json` aborts only on a list the streamer handed over
because it passed `MAX_TOKEN_SIZE` or `MAX_NESTING`: every other list it
hands over closes what it opens, or closes more, and on those the parser
never runs out of tokens. -/
theorem qobjectFromJson_eq_none {s : List UInt8} (h : qobjectFromJson s = none) :
    ∃ ts, some ts ∈ messageParserEmits s ∧
      (MAX_TOKEN_SIZE < textSize ts ∨ MAX_NESTING < brackets ts ∨ MAX_NESTING < braces ts) := by
  rcases foldl_parse_eq_none h with h | ⟨e, he, habort⟩
  · exact (by cases h)
  obtain ⟨ts, rfl, hb, hk, hopen⟩ := jsonParserParse_eq_none habort
  refine ⟨ts, he, ?_⟩
  rcases messageParserEmits_handed s _ he with h | h | ⟨h, h'⟩ | h
  · exact absurd h (not_lt.2 hb)
  · exact absurd h (not_lt.2 hk)
  · rcases hopen with h'' | h'' <;> omega
  · exact h

/-! ## Nesting deeper than `MAX_NESTING` -/

section Deep

theorem lexerFeed_opens (n : ℕ) :
    lexerFeed lexerInit (List.replicate n 0x5B) = (lexerInit, List.replicate n ⟨.operator, [0x5B]⟩) := by
  have hfeed : feedChar lexerInit 0x5B false = (lexerInit, [⟨.operator, [0x5B]⟩]) :=
    feedChar_token (by decide) (by decide) (by decide)
  induction n with
  | zero => rfl
  | succ n ih =>
    rw [List.replicate_succ, lexerFeed, hfeed]
    dsimp only
    rw [ih]
    rfl

theorem lexerFlush_init : lexerFlush lexerInit = (lexerInit, []) := by
  have h : lexerInit.state = .start := rfl
  rw [lexerFlush, if_pos h]

/-- The streamer holding `k` brackets and nothing else, fed one more. -/
theorem processToken_push {k : ℕ} (hk : k < MAX_TOKEN_SIZE) :
    processToken ⟨0, k, List.replicate k ⟨.operator, [0x5B]⟩, k⟩ ⟨.operator, [0x5B]⟩ =
      if MAX_NESTING < (k : ℤ) + 1 then
        (messageParserInit, [some (List.replicate (k + 1) ⟨.operator, [0x5B]⟩)])
      else (⟨0, ((k + 1 : ℕ) : ℤ), List.replicate (k + 1) ⟨.operator, [0x5B]⟩, k + 1⟩, []) := by
  have hb : braceDelta ⟨.operator, [0x5B]⟩ = 0 := by decide
  have hk' : bracketDelta ⟨.operator, [0x5B]⟩ = 1 := by decide
  rw [processToken, brace_ite, bracket_ite, hb, hk', ← List.replicate_succ']
  dsimp only
  have hsize : k + [(0x5B : UInt8)].length = k + 1 := rfl
  have hpos : (0 : ℤ) ≤ MAX_NESTING := by decide
  rw [if_neg (by decide), if_neg (by omega), hsize]
  by_cases hn : MAX_NESTING < (k : ℤ) + 1
  · rw [if_pos (.inr (.inl hn)), if_pos hn]
  · rw [if_neg (by omega), if_neg hn]
    push_cast
    rfl

/-- Below `MAX_NESTING` the streamer keeps one more `[` and hands nothing over. -/
theorem processToken_open {k : ℕ} (hk : k < 1024) :
    processToken ⟨0, k, List.replicate k ⟨.operator, [0x5B]⟩, k⟩ ⟨.operator, [0x5B]⟩ =
      (⟨0, ((k + 1 : ℕ) : ℤ), List.replicate (k + 1) ⟨.operator, [0x5B]⟩, k + 1⟩, []) := by
  have hn : ¬ MAX_NESTING < (k : ℤ) + 1 := by rw [MAX_NESTING]; omega
  rw [processToken_push (by rw [MAX_TOKEN_SIZE]; omega), if_neg hn]

/-- The `[` that passes `MAX_NESTING` makes the streamer hand over every
token so far, although none of the brackets is closed. -/
theorem processToken_nesting {k : ℕ} (hk : k = 1024) :
    processToken ⟨0, k, List.replicate k ⟨.operator, [0x5B]⟩, k⟩ ⟨.operator, [0x5B]⟩ =
      (messageParserInit, [some (List.replicate (k + 1) ⟨.operator, [0x5B]⟩)]) := by
  have hn : MAX_NESTING < (k : ℤ) + 1 := by rw [MAX_NESTING, hk]; norm_num
  rw [processToken_push (by rw [MAX_TOKEN_SIZE, hk]; norm_num), if_pos hn]

theorem processTokens_opens (m : ℕ) : ∀ k, k + m = 1024 →
    processTokens ⟨0, k, List.replicate k ⟨.operator, [0x5B]⟩, k⟩
        (List.replicate (m + 1) ⟨.operator, [0x5B]⟩) =
      (messageParserInit, [some (List.replicate (1024 + 1) ⟨.operator, [0x5B]⟩)]) := by
  induction m with
  | zero =>
    intro k hk
    have hk' : k = 1024 := hk
    rw [List.replicate_one, processTokens, processToken_nesting hk', hk']
    rfl
  | succ m ih =>
    intro k hk
    rw [List.replicate_succ, processTokens, processToken_open (by omega)]
    dsimp only
    rw [ih (k + 1) (by omega)]
    rfl

/-- On a run of `[` with nothing after it the parser pops them one by one
and fails to peek after the last, at every fuel. -/
theorem parseValue_opens (n : ℕ) :
    ∀ f pos, pos < n → parseValue f (List.replicate n ⟨.operator, [0x5B]⟩) pos = .abort := by
  intro f
  induction f with
  | zero => intro pos _; rw [parseValue]
  | succ f ih =>
    intro pos hpos
    have hobj : parseObject f (List.replicate n ⟨.operator, [0x5B]⟩) pos = .null := by
      rw [parseObject, List.getElem?_replicate_of_lt hpos]
      rfl
    have harr : parseArray f (List.replicate n ⟨.operator, [0x5B]⟩) pos = .abort := by
      have hopen : tokenIsOperator ⟨.operator, [0x5B]⟩ 0x5B = true := by decide
      rw [parseArray, List.getElem?_replicate_of_lt hpos]
      dsimp only
      rw [hopen, List.getElem?_replicate]
      by_cases hnext : pos + 1 < n
      · -- another bracket: one level deeper
        rw [if_pos hnext]
        dsimp only
        rw [ih (pos + 1) hnext]
        rfl
      · rw [if_neg hnext]
        rfl
    rw [parseValue, hobj, harr]

theorem jsonParserParse_opens (n : ℕ) :
    jsonParserParse (some (List.replicate (n + 1) ⟨.operator, [0x5B]⟩)) = none := by
  rw [jsonParserParse.eq_3 _ (by simp), parseValue_opens _ _ _ (Nat.succ_pos n)]

theorem messageParserEmits_opens :
    messageParserEmits (List.replicate (1024 + 1) 0x5B) =
      [some (List.replicate (1024 + 1) ⟨.operator, [0x5B]⟩)] := by
  have hinit : messageParserInit = ⟨0, ((0 : ℕ) : ℤ), List.replicate 0 ⟨.operator, [0x5B]⟩, 0⟩ := rfl
  rw [messageParserEmits, lexerFeed_opens, lexerFlush_init, List.append_nil, hinit,
    processTokens_opens 1024 0 rfl]

theorem qobjectFromJson_deepArray : qobjectFromJson (List.replicate 1025 0x5B) = none := by
  rw [qobjectFromJson, messageParserEmits_opens, List.foldl_cons, List.foldl_nil]
  exact jsonParserParse_opens 1024

end Deep

end QemuKvm.Json
