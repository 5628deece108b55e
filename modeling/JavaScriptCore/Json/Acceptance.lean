/-
# What `tryLiteralParse` accepts in `StrictJSON` mode

`JSON.parse` hands its text to a `LiteralParser` in `StrictJSON` mode and takes an empty result for
a syntax error.  This module says exactly which texts get a result.

The turn bound of `parse` is settled first: `parse_cases` says that from `StartParseExpression` the
loop always returns, with an empty value or with the value of the grammar (`run_expression`).

**The divergence.**  `tryLiteralParse` skips one `;` after the value, whatever the mode
(`LiteralParser.h`, `tryLiteralParse`).  The semicolon is there for `eval`, where a literal may be
an expression statement; in `StrictJSON` mode it makes `1;` a JSON text.  So the accepted texts are
the JSON texts of ES5.1 15.12.1 and those texts with a semicolon after them (`literalParse_iff`),
and acceptance agrees with the grammar on exactly the texts that are not of the second kind.
-/
import JavaScriptCore.Json.ParserSpec
import JavaScriptCore.Json.StringLengths

namespace JavaScriptCore.Json

open LiteralParser

variable {ν : Type} {ops : TokenOps ν} {mode : ParserMode}

/-! ## 1. The turn bound -/

variable {s r : List Nat}

theorem textBetween_length (h : r.length ≤ s.length) :
    (textBetween s r).length + r.length = s.length := by
  simp only [textBetween, List.length_take]
  omega

variable {t : List Nat}

/-- The current token and the text after it make up the text from the token on. -/
theorem lex_text_length (h : (lex ops mode t).token.type ≠ .TokError) :
    ∃ s, Ws t s ∧ (lex ops mode t).token.text.length + (lex ops mode t).ptr.length = s.length := by
  obtain ⟨s, hws, htok⟩ := lex_tokenAt ops mode t
  refine ⟨s, hws, ?_⟩
  generalize lex ops mode t = res at h htok
  cases htok with
  | string hq hs => exact textBetween_length (StringLiteral.intro hq hs).length_lt.le
  | number hn => exact textBetween_length hn.length_lt.le
  | word _ => exact (List.length_append).symm
  | identifier hid =>
    rw [hid.eq]
    exact (List.length_append).symm
  | finish => rfl
  | punctuator | dot | assign | semi => exact Nat.add_comm _ _
  | error => exact absurd rfl h

variable {p : LiteralParser ν}

/-- **The loop returns within its bound**, with an empty value or the value of the grammar. -/
theorem run_expression (hat : At ops mode p t) :
    (∃ p', Iteration.run (turn ops mode) (turnBound p.lexer)
        (.goto .StartParseExpression ⟨p, [], none, [], []⟩) = some (none, p')) ∨
    ∃ s v r p', Ws t s ∧ Value ops mode s v r ∧ At ops mode p' r ∧
      Iteration.run (turn ops mode) (turnBound p.lexer)
        (.goto .StartParseExpression ⟨p, [], none, [], []⟩) = some (some v, p') := by
  by_cases herr : (lex ops mode t).token.type = .TokError
  · -- an error token ends the first turn
    have hty : p.lexer.currentToken.type = .TokError := by rw [hat.token, herr]
    have hstep : step ops mode .StartParseExpression ⟨p, [], none, [], []⟩
        = Machine.fail ⟨p, [], none, [], []⟩ .couldNotParseValue := by
      simp only [step, startParseExpression, hty]
    exact .inl ⟨_, (steps_goto hstep).run_inr rfl (by unfold turnBound; omega)⟩
  · obtain ⟨s₀, hws₀, hlen⟩ := lex_text_length herr
    have hbound : turnBound p.lexer = 4 * s₀.length + 8 := by
      rw [turnBound, hat.token, hat.ptr, hlen]
    obtain ⟨k, c, hk, hout⟩ := value_reading s₀ ⟨p, [], none, [], []⟩ (hat.of_ws hws₀)
    rcases hout with ⟨⟨m', rfl⟩, hle, -⟩ | ⟨v, r, m', rfl, hd, hle, ⟨s, hws, hval⟩, -⟩
    · exact .inl ⟨_, hk.run_inr rfl (by omega)⟩
    · refine .inr ⟨s, v, r, m'.parser, hws₀.trans hws, hval, hd.position, hk.run_inr ?_ (by omega)⟩
      simp only [turn, hd.stateStack, hd.lastValue]

/-- What `parse(StartParseExpression)` returns in front of any text. -/
theorem parse_cases (hat : At ops mode p t) :
    (∃ p', p.parse ops mode .StartParseExpression = (none, p')) ∨
    ∃ s v r p', Ws t s ∧ Value ops mode s v r ∧ At ops mode p' r ∧
      p.parse ops mode .StartParseExpression = (some v, p') := by
  rcases run_expression hat with ⟨p', h⟩ | ⟨s, v, r, p', hws, hval, hat', h⟩
  · exact .inl ⟨p', by rw [parse, h]; rfl⟩
  · exact .inr ⟨s, v, r, p', hws, hval, hat', by rw [parse, h]; rfl⟩

/-- In front of a grammatical value the loop of `parse(StartParseExpression)` comes to its end with
the value, and `parse` returns it. -/
theorem parse_delivers {v : JSValue ν} (hat : At ops mode p t) (hws : Ws t s)
    (hval : Value ops mode s v r) (hr : NumberEnds r) : ∃ k m',
      Iteration.Steps (turn ops mode) k (.goto .StartParseExpression ⟨p, [], none, [], []⟩)
      (.leave m') ∧ Delivers ops mode ⟨p, [], none, [], []⟩ m' v r ∧
      p.parse ops mode .StartParseExpression = (some v, m'.parser) := by
  obtain ⟨k, m', hk, hd, -⟩ := value_complete hval (m := ⟨p, [], none, [], []⟩) hws hr hat
  have hrun := hk.run_inr (r := (some v, m'.parser))
    (by simp only [turn, hd.stateStack, hd.lastValue]) (Nat.lt_succ_self k)
  refine ⟨k, m', hk, hd, ?_⟩
  rw [parse]
  rcases run_expression hat with ⟨p', h⟩ | ⟨-, v', -, p', -, -, -, h⟩
  · rw [h, Iteration.run_unique h hrun]; rfl
  · rw [h, Iteration.run_unique h hrun]; rfl

theorem parse_value {v : JSValue ν} (hat : At ops mode p t) (hws : Ws t s)
    (hval : Value ops mode s v r) (hr : NumberEnds r) :
    ∃ p', At ops mode p' r ∧ p.parse ops mode .StartParseExpression =
      (some v, p') := by
  obtain ⟨_, m', -, hd, h⟩ := parse_delivers hat hws hval hr
  exact ⟨m'.parser, hd.position, h⟩

/-! ## 2. `StrictJSON` -/

/-- A JSON text with a semicolon after the value: white space, one value, white space, `;`, white
space. -/
def SemicolonText (ops : TokenOps ν) (mode : ParserMode) (text : List Nat) : Prop :=
  ∃ s v r r', Ws text s ∧ Value ops mode s v r ∧ Ws r (0x3B :: r') ∧ Ws r' []

theorem lex_end_inv (h : (lex ops mode t).token.type = .TokEnd) : Ws t [] := by
  obtain ⟨s, hws, htok⟩ := lex_tokenAt ops mode t
  generalize lex ops mode t = res at h htok
  cases htok with
  | finish => exact hws
  | punctuator hc => cases h; cases punctuator_isPunctuation hc
  | word hw => cases h; cases literalWord_isWord hw
  | string | number | dot | assign | semi | identifier | error => cases h

theorem lex_semicolon_inv (h : (lex ops mode t).token.type = .TokSemi) : ∃ r, Ws t (0x3B :: r) := by
  obtain ⟨s, hws, htok⟩ := lex_tokenAt ops mode t
  generalize lex ops mode t = res at h htok
  cases htok with
  | semi => exact ⟨_, hws⟩
  | punctuator hc => cases h; cases punctuator_isPunctuation hc
  | word hw => cases h; cases literalWord_isWord hw
  | string | number | dot | assign | finish | identifier | error => cases h

/-- The check `tryLiteralParse` makes after the value, in front of `r`. -/
def onlySemicolonLeft (ops : TokenOps ν) (mode : ParserMode) (p : LiteralParser ν) : Prop :=
  (if p.tokenType = .TokSemi then p.advance ops mode else p).tokenType = .TokEnd

theorem onlySemicolonLeft_iff (hat : At ops mode p r) :
    onlySemicolonLeft ops mode p ↔ Ws r [] ∨ ∃ r', Ws r (0x3B :: r') ∧ Ws r' [] := by
  unfold onlySemicolonLeft
  split_ifs with hsemi
  · obtain ⟨r', hws⟩ := lex_semicolon_inv (hat.tokenType.symm.trans hsemi)
    have hadv : At ops mode (p.advance ops mode) r' := hat.advance (lex_semicolon hws)
    rw [hadv.tokenType]
    constructor
    · intro h
      exact .inr ⟨r', hws, lex_end_inv h⟩
    · rintro (h | ⟨r'', hws', hend⟩)
      · rw [hat.tokenType, lex_end h] at hsemi
        cases hsemi
      · have hrr : r'' = r' := by
          have := (hws'.dropWhile_eq_cons (by decide)).symm.trans
            (hws.dropWhile_eq_cons (by decide))
          exact (List.cons.inj this).2
        rw [← hrr, lex_end hend]
        rfl
  · rw [hat.tokenType]
    constructor
    · intro h
      exact .inl (lex_end_inv h)
    · rintro (h | ⟨r', hws', -⟩)
      · rw [lex_end h]
        rfl
      · refine absurd ?_ hsemi
        rw [hat.tokenType, lex_semicolon hws']
        rfl

theorem Ws.numberEnds_semicolon (h : Ws s (0x3B :: r)) : NumberEnds s :=
  h.numberEnds (by decide) (by decide) (by decide) (by decide)

/-- A value is delivered exactly when `parse` delivers it and nothing but a semicolon follows. -/
theorem literalParse_isSome_iff {text : List Nat} : (literalParse ops .StrictJSON text).isSome ↔
      ∃ v p', ((ofText text).advance ops .StrictJSON).parse ops .StrictJSON
          .StartParseExpression = (some v, p') ∧ onlySemicolonLeft ops .StrictJSON p' := by
  simp only [literalParse, tryLiteralParse, if_true]
  generalize ((ofText text).advance ops .StrictJSON).parse ops .StrictJSON
    .StartParseExpression = res
  obtain ⟨value, p'⟩ := res
  simp only [onlySemicolonLeft, Prod.mk.injEq]
  split_ifs <;> simp_all [Option.isSome_iff_exists]

/-- **The accepted texts**, exactly: the JSON texts, and the JSON texts with a semicolon. -/
theorem literalParse_iff (ops : TokenOps ν) (text : List Nat) :
    (literalParse ops .StrictJSON text).isSome ↔
      JSONText ops .StrictJSON text ∨ SemicolonText ops .StrictJSON text := by
  have hat : At ops .StrictJSON ((ofText text).advance ops .StrictJSON) text :=
    at_advance rfl
  rw [literalParse_isSome_iff]
  constructor
  · rintro ⟨v, p', hparse, hleft⟩
    rcases parse_cases hat with ⟨p'', h⟩ | ⟨s, v', r, p'', hws, hval, hat', h⟩
    · rw [hparse] at h
      cases h
    · rw [hparse] at h
      cases h
      rcases (onlySemicolonLeft_iff hat').mp hleft with hend | ⟨r', hsemi, hend⟩
      · exact .inl ⟨s, v, r, hws, hval, hend⟩
      · exact .inr ⟨s, v, r, r', hws, hval, hsemi, hend⟩
  · rintro (⟨s, v, r, hws, hval, hend⟩ | ⟨s, v, r, r', hws, hval, hsemi, hend⟩)
    · obtain ⟨p', hat', h⟩ := parse_value hat hws hval hend.numberEnds_nil
      exact ⟨v, p', h, (onlySemicolonLeft_iff hat').mpr (.inl hend)⟩
    · obtain ⟨p', hat', h⟩ := parse_value hat hws hval hsemi.numberEnds_semicolon
      exact ⟨v, p', h, (onlySemicolonLeft_iff hat').mpr (.inr ⟨r', hsemi, hend⟩)⟩

/-- A JSON text gets the value of the grammar. -/
theorem literalParse_value {text : List Nat} {v : JSValue ν} (hws : Ws text s)
    (hval : Value ops .StrictJSON s v r) (hend : Ws r []) :
    literalParse ops .StrictJSON text = some v := by
  have hat : At ops .StrictJSON ((ofText text).advance ops .StrictJSON) text :=
    at_advance rfl
  obtain ⟨p', hat', h⟩ := parse_value hat hws hval hend.numberEnds_nil
  have hty : p'.tokenType = .TokEnd := by
    rw [hat'.tokenType, lex_end hend]
    rfl
  simp [literalParse, tryLiteralParse, h, hty]

/-- What is returned is the value of the grammar. -/
theorem literalParse_sound {text : List Nat} {v : JSValue ν}
    (h : literalParse ops .StrictJSON text = some v) :
    ∃ s r, Ws text s ∧ Value ops .StrictJSON s v r := by
  have hat : At ops .StrictJSON ((ofText text).advance ops .StrictJSON) text :=
    at_advance rfl
  simp only [literalParse, tryLiteralParse, if_true] at h
  rcases parse_cases hat with ⟨p', hparse⟩ | ⟨s, w, r, p', hws, hval, -, hparse⟩
  · simp only [hparse] at h
    split_ifs at h
  · simp only [hparse] at h
    split_ifs at h <;> cases h <;> exact ⟨s, r, hws, hval⟩

/-- The two kinds of accepted text exclude each other. -/
theorem SemicolonText.not_jsonText {text : List Nat} (h : SemicolonText ops mode text) :
    ¬ JSONText ops mode text := by
  rintro ⟨s₁, v₁, r₁, hws₁, hval₁, hend₁⟩
  obtain ⟨s, v, r, r', hws, hval, hsemi, -⟩ := h
  have hat : At ops mode ((ofText text).advance ops mode) text := at_advance rfl
  obtain ⟨p₁, hat₁, h₁⟩ := parse_value hat hws₁ hval₁ hend₁.numberEnds_nil
  obtain ⟨p, hat', h⟩ := parse_value hat hws hval hsemi.numberEnds_semicolon
  rw [h₁] at h
  cases h
  have hty := hat₁.tokenType.symm.trans hat'.tokenType
  rw [lex_end hend₁, lex_semicolon hsemi] at hty
  cases hty

/-- The length of a token decides nothing here. -/
theorem JSONText.reread {text : List Nat} (h : JSONText ops mode text) (ops' : TokenOps ν) :
    JSONText ops' mode text := by
  obtain ⟨s, v, r, hws, hval, hend⟩ := h
  obtain ⟨w, hw, -⟩ := hval.reread ops'
  exact ⟨s, w, r, hws, hw, hend⟩

theorem SemicolonText.reread {text : List Nat} (h : SemicolonText ops mode text)
    (ops' : TokenOps ν) :
    SemicolonText ops' mode text := by
  obtain ⟨s, v, r, r', hws, hval, hsemi, hend⟩ := h
  obtain ⟨w, hw, -⟩ := hval.reread ops'
  exact ⟨s, w, r, r', hws, hw, hsemi, hend⟩

/-- Numbers for running the parser on concrete texts: every number text is read as an integer. -/
def intOps : NumberOps Int where
  ofInt n := n
  parseDouble text := fastInt text
  toIndex n := if 0 ≤ n then some n.toNat else none

end JavaScriptCore.Json
