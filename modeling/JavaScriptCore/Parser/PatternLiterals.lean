/-
# A pattern that is parsed as a literal

When the parser goes back from what looked like a destructuring assignment, it parses the tokens of
the pattern as an array or object literal.  If that succeeds, the literal ends where the pattern
ended.

`Reads` is the grammar of patterns.  What `parseDeconstructionPattern` accepts is in it
(`reads_of_parseDeconstructionPattern`), it is unambiguous (`Reads.unique`), and by induction on it
the functions for literals stop at the same token (`Reads.lands`).
-/
import JavaScriptCore.Parser.ExpressionParser

namespace JavaScriptCore.Parser

open Lib.Effects List

variable {N F B : Type}

/-! ## 1. The grammar of patterns -/

/-- What is read: a pattern, the entries of an array pattern, or those of an object pattern. -/
inductive PatternPart where
  | pattern | entries | properties

/-- The tokens do not begin with this punctuation. -/
def NotAt (p : Punctuation) (tokens : List (Token N)) : Prop :=
  ∀ rest, tokens ≠ .punctuation p :: rest

/-- A token that names a property. -/
inductive NamesProperty : Token N → Prop where
  | ident (name : String) : NamesProperty (.ident name)
  | string (value : String) : NamesProperty (.string value)
  | number (value : N) : NamesProperty (.number value)
  | keyword (k : Keyword) : NamesProperty (.keyword k)

/-- **The grammar of patterns**: from some tokens on, a part of a pattern can be read up to others.
-/
inductive Reads : PatternPart → List (Token N) → List (Token N) → Prop where
  | binding {name rest} : Reads .pattern (.ident name :: rest) rest
  | array {tokens rest} : Reads .entries tokens (.punctuation .closeBracket :: rest) →
      Reads .pattern (.punctuation .openBracket :: tokens) rest
  | object {tokens rest} : Reads .properties tokens (.punctuation .closeBrace :: rest) →
      Reads .pattern (.punctuation .openBrace :: tokens) rest
  | skip {tokens rest} : Reads .entries tokens rest →
    Reads .entries (.punctuation .comma :: tokens) rest
  | lastEntry {tokens rest} : Reads .pattern tokens rest → NotAt .comma rest →
    Reads .entries tokens rest
  | entry {tokens tokens' rest} : Reads .pattern tokens (.punctuation .comma :: tokens') →
      Reads .entries tokens' rest → Reads .entries tokens rest
  | lastProperty {t tokens rest} : NamesProperty t → Reads .pattern tokens rest →
    NotAt .comma rest → Reads .properties (t :: .punctuation .colon :: tokens) rest
  | property {t tokens tokens' rest} : NamesProperty t →
      Reads .pattern tokens (.punctuation .comma :: tokens') → Reads .properties tokens' rest →
      Reads .properties (t :: .punctuation .colon :: tokens) rest
  | lastShorthand {name rest} : NotAt .colon rest → NotAt .comma rest →
      Reads .properties (.ident name :: rest) rest
  | shorthand {name tokens rest} : Reads .properties tokens rest →
      Reads .properties (.ident name :: .punctuation .comma :: tokens) rest

section Acceptance

variable (numericIdentifier : N → String)

theorem namesProperty_of_patternPropertyName {t : Token N} {r : String × Bool}
    (h : patternPropertyName numericIdentifier t = some r) : NamesProperty t := by
  cases t with
  | ident | regExp | punctuation => cases h
  | string value => exact .string value
  | number value => exact .number value
  | keyword k => exact .keyword k

/-- What each of the four functions reads, for one depth. -/
structure Accepts (depth : Nat) : Prop where
  pattern : ∀ {tokens p rest}, parseDeconstructionPattern numericIdentifier depth tokens = some (p,
    rest) → Reads .pattern tokens rest
  entries : ∀ {tokens es rest}, parseArrayPattern numericIdentifier depth tokens = some (es, rest) →
    Reads .entries tokens rest
  properties : ∀ {wasString tokens es rest},
    parseObjectPattern numericIdentifier depth wasString tokens = some (es, rest) →
      Reads .properties tokens rest
  afterEntry : ∀ {wasString name entry es rest},
    parseObjectPatternEntry numericIdentifier depth wasString name entry = some (es, rest) →
      (∃ p, entry = some (p, rest) ∧ NotAt .comma rest) ∨
        ∃ p tokens, entry = some (p, .punctuation .comma :: tokens) ∧ Reads .properties tokens rest

theorem accepts_zero : Accepts numericIdentifier 0 where
  pattern h := by rw [parseDeconstructionPattern] at h; cases h
  entries h := by rw [parseArrayPattern] at h; cases h
  properties h := by rw [parseObjectPattern] at h; cases h
  afterEntry h := by rw [parseObjectPatternEntry] at h; cases h

theorem accepts (depth : Nat) : Accepts numericIdentifier depth := by
  induction depth with
  | zero => exact accepts_zero numericIdentifier
  | succ depth ih =>
    constructor
    case pattern =>
      intro tokens p rest h
      rw [parseDeconstructionPattern.eq_def] at h
      split at h
      · next hdepth => cases hdepth
      · next d tokens hdepth =>
        cases hdepth
        split at h
        · next entries rest' harray =>
          cases h
          exact .array (ih.entries harray)
        · cases h
      · next d tokens hdepth =>
        cases hdepth
        split at h
        · next entries rest' hobject =>
          cases h
          exact .object (ih.properties hobject)
        · cases h
      · next d name tokens hdepth =>
        cases h
        exact .binding
      · cases h
    case entries =>
      intro tokens es rest h
      rw [parseArrayPattern.eq_def] at h
      split at h
      · next hdepth => cases hdepth
      · next d tokens hdepth =>
        cases hdepth
        split at h
        · next entries rest' hskip =>
          cases h
          exact .skip (ih.entries hskip)
        · cases h
      · next hdepth hcomma =>
        cases hdepth
        split at h
        · next pattern tokens' hpattern =>
          split at h
          · next entries rest' hentries =>
            cases h
            exact .entry (ih.pattern hpattern) (ih.entries hentries)
          · cases h
        · next pattern rest' hnot hpattern =>
          cases h
          exact .lastEntry (ih.pattern hpattern) fun rest'' h => hnot rest'' h
        · cases h
    case properties =>
      intro wasString tokens es rest h
      rw [parseObjectPattern.eq_def] at h
      split at h
      · next hdepth => cases hdepth
      · next hdepth =>
        cases hdepth
        rcases ih.afterEntry h with ⟨p, hentry, hcomma⟩ | ⟨p, tokens', hentry, hrest⟩
        · exact .lastProperty (.ident _) (ih.pattern hentry) hcomma
        · exact .property (.ident _) (ih.pattern hentry) hrest
      · next hcolon hdepth =>
        cases hdepth
        rcases ih.afterEntry h with ⟨p, hentry, hcomma⟩ | ⟨p, tokens', hentry, hrest⟩
        · cases hentry
          exact .lastShorthand hcolon hcomma
        · cases hentry
          exact .shorthand hrest
      · next hdepth =>
        cases hdepth
        split at h
        · next name isString hname =>
          have ht := namesProperty_of_patternPropertyName numericIdentifier hname
          rcases ih.afterEntry h with ⟨p, hentry, hcomma⟩ | ⟨p, tokens', hentry, hrest⟩
          · exact .lastProperty ht (ih.pattern hentry) hcomma
          · exact .property ht (ih.pattern hentry) hrest
        · cases h
      · cases h
    case afterEntry =>
      intro wasString name entry es rest h
      rw [parseObjectPatternEntry.eq_def] at h
      split at h
      · next hdepth => cases hdepth
      · next p tokens hdepth =>
        cases hdepth
        split at h
        · next entries rest' hrest =>
          cases h
          exact .inr ⟨p, tokens, rfl, ih.properties hrest⟩
        · cases h
      · next p rest' hcomma hdepth =>
        cases h
        exact .inl ⟨p, rfl, hcomma⟩
      · cases h

/-- **What the parser takes for a pattern is one.** -/
theorem reads_of_parseDeconstructionPattern {depth : Nat} {tokens rest : List (Token N)}
    {p : Pattern} (h : parseDeconstructionPattern numericIdentifier depth tokens = some (p, rest)) :
    Reads .pattern tokens rest := (accepts numericIdentifier depth).pattern h

end Acceptance

variable {tokens rest : List (Token N)} {part : PatternPart}

/-- What comes after a part of a pattern is the end of the tokens. -/
theorem Reads.suffix (h : Reads part tokens rest) : rest <:+ tokens := by
  induction h with
  | binding | lastShorthand _ _ => exact suffix_cons _ _
  | array _ ih | object _ ih => exact (suffix_cons _ _).trans (ih.trans (suffix_cons _ _))
  | skip _ ih => exact ih.trans (suffix_cons _ _)
  | lastEntry _ _ ih => exact ih
  | entry _ _ ih ih' => exact ih'.trans ((suffix_cons _ _).trans ih)
  | lastProperty _ _ _ ih | shorthand _ ih =>
    exact ih.trans ((suffix_cons _ _).trans (suffix_cons _ _))
  | property _ _ _ ih ih' =>
    exact ih'.trans ((suffix_cons _ _).trans (ih.trans ((suffix_cons _ _).trans (suffix_cons _ _))))

/-! ## 2. Patterns are unambiguous -/

/-- A pattern begins with an identifier, `[` or `{`. -/
theorem Reads.start (h : Reads .pattern tokens rest) : (∃ name, tokens = .ident name :: rest) ∨
      (∃ tokens', tokens = .punctuation .openBracket :: tokens' ∧
        Reads .entries tokens' (.punctuation .closeBracket :: rest)) ∨
      ∃ tokens', tokens = .punctuation .openBrace :: tokens' ∧
        Reads .properties tokens' (.punctuation .closeBrace :: rest) := by
  cases h with
  | binding => exact .inl ⟨_, rfl⟩
  | array h => exact .inr (.inl ⟨_, rfl, h⟩)
  | object h => exact .inr (.inr ⟨_, rfl, h⟩)

theorem Reads.not_comma (h : Reads .pattern (.punctuation .comma :: tokens) rest) : False := by
  cases h

theorem Reads.unique {tokens rest rest' : List (Token N)} (h : Reads part tokens rest)
    (h' : Reads part tokens rest') : rest = rest' := by
  induction h generalizing rest' with
  | binding => cases h'; rfl
  | array _ ih =>
    cases h' with
    | array h' => exact (List.cons.inj (ih h')).2
  | object _ ih =>
    cases h' with
    | object h' => exact (List.cons.inj (ih h')).2
  | skip _ ih =>
    cases h' with
    | skip h' => exact ih h'
    | lastEntry h' | entry h' => exact h'.not_comma.elim
  | lastEntry hpattern hcomma ih =>
    cases h' with
    | skip => exact hpattern.not_comma.elim
    | lastEntry h' => exact ih h'
    | entry h' => exact absurd (ih h') (hcomma _)
  | entry hpattern _ ih ih' =>
    cases h' with
    | skip => exact hpattern.not_comma.elim
    | lastEntry h' hcomma => exact absurd (ih h').symm (hcomma _)
    | entry h' hrest =>
      cases ih h'
      exact ih' hrest
  | lastProperty _ hpattern hcomma ih =>
    cases h' with
    | lastProperty _ h' => exact ih h'
    | property _ h' => exact absurd (ih h') (hcomma _)
    | lastShorthand hcolon => exact absurd rfl (hcolon _)
  | property _ hpattern _ ih ih' =>
    cases h' with
    | lastProperty _ h' hcomma => exact absurd (ih h').symm (hcomma _)
    | property _ h' hrest =>
      cases ih h'
      exact ih' hrest
    | lastShorthand hcolon => exact absurd rfl (hcolon _)
  | lastShorthand hcolon hcomma =>
    cases h' with
    | lastProperty | property => exact absurd rfl (hcolon _)
    | lastShorthand => rfl
    | shorthand => exact absurd rfl (hcomma _)
  | shorthand _ ih =>
    cases h' with
    | lastShorthand _ hcomma => exact absurd rfl (hcomma _)
    | shorthand h' => exact ih h'

/-! ## 3. Where a parsing function stops -/

/-- If the function succeeds, it stops at these tokens. -/
def Lands {α : Type} (rest : List (Token N)) (c : ParserM N B α) (s : ParserState N B) : Prop :=
  Ensures c s (fun _ s' => s'.tokens = rest) (fun _ _ => True)

/-- The tokens that end an operand after a pattern. -/
inductive EndsOperand : List (Token N) → Prop where
  | comma (rest : List _) : EndsOperand (.punctuation .comma :: rest)
  | closeBracket (rest : List _) : EndsOperand (.punctuation .closeBracket :: rest)
  | closeBrace (rest : List _) : EndsOperand (.punctuation .closeBrace :: rest)
  | equal (rest : List _) : EndsOperand (.punctuation .equal :: rest)

variable {s : ParserState N B}

theorem token_of_tokens {t : Token N} {rest : List (Token N)} (h : s.tokens = t :: rest) :
    s.token = t := by
  rw [ParserState.token, h, headD_cons]

variable {p : Punctuation}

theorem tokens_of_is (hp : p ≠ .eof) (h : s.token.is p = true) :
    s.tokens = .punctuation p :: s.tokens.tail := by
  cases htokens : s.tokens with
  | nil =>
    rw [ParserState.token, htokens, headD_nil, Token.is, beq_iff_eq] at h
    exact absurd h.symm hp
  | cons t tokens =>
    rw [token_of_tokens htokens] at h
    cases t with
    | punctuation q =>
      rw [Token.is, beq_iff_eq] at h
      rw [h, tail_cons]
    | ident | string | number | regExp | keyword => cases h

theorem notAt_of_is (h : ¬s.token.is p = true) : NotAt p s.tokens := by
  intro rest hs
  rw [token_of_tokens hs, Token.is, beq_self_eq_true] at h
  exact h rfl

theorem not_is_of_notAt (hp : p ≠ .eof) (h : NotAt p s.tokens) : ¬s.token.is p = true :=
  fun his => h _ (tokens_of_is hp his)

theorem Token.is_punctuation (p q : Punctuation) :
    (Token.punctuation q : Token N).is p = (q == p) := by
  rw [Token.is]

variable {E : ParserError N → ParserState N B → Prop}

theorem ensures_consumeOrFail {rest : List (Token N)} (hs : s.tokens = .punctuation p :: rest)
    {message : String} {Q : Unit → ParserState N B → Prop} :
    Ensures (consumeOrFail p message) s Q E ↔ Q () { s with tokens := rest } := by
  simp only [consumeOrFail, token, next, ensures_run, token_of_tokens hs, Token.is_punctuation,
      beq_self_eq_true, if_true, hs, tail_cons]

theorem semanticFailIfTrue_keeps (condition : Bool) (message : String) (s : ParserState N B) :
    Ensures (semanticFailIfTrue condition message) s (fun _ s' => s' = s) (fun _ _ => True) := by
  unfold semanticFailIfTrue
  split
  · exact trivial
  · rfl

theorem validateProperty_keeps (config : ParserConfig N F) (declared : ObjectValidationMap)
    (property : Property N F) (s : ParserState N B) :
    Ensures (validateProperty config declared property) s (fun _ s' => s' = s)
    (fun _ _ => True) := by
  unfold validateProperty
  cases property.name with
  | none => rfl
  | some name =>
    simp only
    split
    · rfl
    · split
      · exact trivial
      · rfl

/-- A loop that ends in its first round. -/
theorem ensures_whileTokens_once {α β : Type} {round : β → ParserM N B (β ⊕ α)} {b : β}
    {Q : α → ParserState N B → Prop}
    (h : Ensures (round b) s (fun r s' => match r with | .inl _ => False | .inr a => Q a s') E) :
    Ensures (whileTokens round b) s Q E := by
  rw [whileTokens, ensures_bind, ensures_get, loop, ensures_bind]
  refine h.mono (fun r s' hr => ?_) fun _ _ h => h
  cases r with
  | inl b' => exact hr.elim
  | inr a => exact hr

section Operands

variable (config : ParserConfig N F) (assignment : ParserM N B (Expression N F))

/-- A token that is the first of a pattern begins no unary operator, no `new` and no function. -/
def BeginsPrimary (t : Token N) : Prop :=
  t.unaryOperator = none ∧ t ≠ .keyword .newToken ∧ t ≠ .keyword .functionToken

variable {s : ParserState N B}

theorem Reads.beginsPrimary (h : Reads .pattern tokens rest)
    (hs : s.tokens = tokens) : BeginsPrimary s.token := by
  rcases h.start with ⟨name, rfl⟩ | ⟨tokens', rfl, -⟩ | ⟨tokens', rfl, -⟩
  all_goals
    rw [token_of_tokens hs]
    exact ⟨rfl, by simp, by simp⟩

variable {config assignment}

theorem lands_parseMemberSuffixes (hrest : EndsOperand rest) (base : Expression N F)
    (newCount : Nat) (hs : s.tokens = rest) :
    Lands rest (whileTokens (parseMemberSuffix assignment) (base, newCount)) s := by
  refine ensures_whileTokens_once ?_
  simp only [parseMemberSuffix, token, ensures_run]
  cases hrest <;> rw [token_of_tokens hs] <;> exact hs

variable (hbegin : ∀ s : ParserState N B, s.tokens = tokens →
  BeginsPrimary s.token) (hrest : EndsOperand rest)
  (hprimary : ∀ s, s.tokens = tokens → Lands rest (parsePrimaryExpression config assignment) s)

include hbegin hrest hprimary

theorem lands_parseMemberExpression (hs : s.tokens = tokens) :
    Lands rest (parseMemberExpression config assignment) s := by
  have hnew : Ensures (parseNewCount : ParserM N B Nat) s (fun _ s' => s' = s)
      (fun _ _ => True) := by
    refine ensures_whileTokens_once ?_
    simp only [token, ensures_run]
    split
    · next hnew => exact absurd hnew (hbegin s hs).2.1
    · rfl
  simp only [Lands, parseMemberExpression, ensures_bind]
  refine hnew.imp ?_
  rintro newCount _ rfl
  simp only [parseMemberBase, token, ensures_run]
  split
  · next hfunction => exact absurd hfunction (hbegin _ hs).2.2
  · refine (hprimary _ hs).imp fun base s' hs' => ?_
    exact (lands_parseMemberSuffixes hrest base newCount hs').imp fun _ _ h => h

theorem lands_parseUnaryExpression (hs : s.tokens = tokens) :
    Lands rest (parseUnaryExpression config assignment) s := by
  have hunary (s : ParserState N B) (hs : s.tokens = tokens) :
      Ensures (parseUnaryTokens config) s (fun r s' => r = [] ∧ s' = s) (fun _ _ => True) := by
    refine ensures_whileTokens_once ?_
    simp only [token, ensures_run, (hbegin s hs).1, and_self]
  simp only [Lands, parseUnaryExpression, ensures_run, ensures_afterwards]
  refine (hunary { s with allowsIn := true } hs).imp ?_
  rintro _ _ ⟨rfl, rfl⟩
  simp only [parsePostfixExpression, ensures_bind]
  refine (lands_parseMemberExpression hbegin hrest hprimary (s := { s with allowsIn := true })
    hs).imp
    fun expr s' hs' => ?_
  refine (semanticFailIfTrue_keeps _ _ s').imp ?_
  rintro _ _ rfl
  simp only [token, ensures_run]
  cases hrest <;> rw [token_of_tokens hs'] <;> exact hs'

theorem lands_parseConditionalExpression (hs : s.tokens = tokens) :
    Lands rest (parseConditionalExpression assignment (parseBinaryExpression config assignment))
      s := by
  have hbinary : Lands rest (parseBinaryExpression config assignment) s := by
    simp only [Lands, parseBinaryExpression, ensures_bind]
    refine Ensures.mono (Q := fun _ s' => s'.tokens = rest) (E := fun _ _ => True) ?_
      (fun r s' hs' => ?_) fun _ _ _ => trivial
    · refine ensures_whileTokens_once ?_
      simp only [parseBinaryRound, countingAssignments, assignmentCount, ensures_run]
      refine (lands_parseUnaryExpression hbegin hrest hprimary hs).imp fun expr s' hs' => ?_
      cases hrest <;> rw [token_of_tokens hs'] <;> exact hs'
    · obtain ⟨operators, operands⟩ := r
      simp only
      split
      · exact hs'
      · exact trivial
  simp only [Lands, parseConditionalExpression, ensures_bind]
  refine hbinary.imp fun cond s' hs' => ?_
  simp only [token, ensures_run]
  cases hrest <;> rw [token_of_tokens hs'] <;> exact hs'

end Operands

/-! ## 4. The literal ends where the pattern ended -/

section Literals

variable (config : ParserConfig N F)

/-- The tokens after the commas at the beginning. -/
def dropCommas : List (Token N) → List (Token N)
  | .punctuation .comma :: tokens => dropCommas tokens
  | tokens => tokens

theorem dropCommas_of_notAt {tokens : List (Token N)} (h : NotAt .comma tokens) :
    dropCommas tokens = tokens := by
  rw [dropCommas.eq_def]
  split
  · next tokens => exact absurd rfl (h tokens)
  · rfl

theorem parseElisions_ensures (s : ParserState N B) :
    Ensures (parseElisions : ParserM N B Nat) s (fun _ s' => s'.tokens = dropCommas s.tokens)
      (fun _ _ => True) := by
  rw [parseElisions, whileTokens, ensures_bind, ensures_get]
  refine ensures_loop (fun _ s' => dropCommas s'.tokens =
    dropCommas s.tokens) ?_ (fun _ _ _ => trivial)
    _ rfl
  intro elisions s' hs'
  simp only [token, next, ensures_run]
  split
  · next hcomma =>
    rw [tokens_of_is (by simp) hcomma, dropCommas] at hs'
    exact hs'
  · next hcomma =>
    rw [dropCommas_of_notAt (notAt_of_is hcomma)] at hs'
    exact hs'

variable {s : ParserState N B}

/-- An expression that begins like a pattern and is followed by one of the tokens stops there, if
the function for its operand does. -/
theorem lands_parseAssignmentExpression (hreads : Reads .pattern tokens rest)
    (hrest : EndsOperand rest) (hequal : NotAt .equal rest)
    (hprimary : ∀ (depth : Nat) (s : ParserState N B), s.tokens = tokens →
      Lands rest (parsePrimaryExpression config (parseAssignmentExpression config depth)) s)
      (depth : Nat)
    (hs : s.tokens = tokens) : Lands rest (parseAssignmentExpression config depth) s := by
  cases depth with
  | zero => exact trivial
  | succ depth =>
    have htry :
      Ensures (tryDeconstructingAssignment config (parseAssignmentExpression config depth)) s
        (fun r s' => r = none ∧ s' = s) (fun _ _ => True) := by
      simp only [tryDeconstructingAssignment, parseDeconstructingAssignment, createSavePoint, token,
          ensures_run]
      split
      · simp only [ensures_run]
        split
        · next p rest' hpattern =>
          -- The pattern is followed by `=`, but it can only be read up to `rest`.
          rw [hs] at hpattern
          have := hreads.unique (reads_of_parseDeconstructionPattern _ hpattern)
          exact absurd this (hequal _)
        · exact ⟨rfl, rfl⟩
      · exact ⟨rfl, rfl⟩
    have hassign : ∀ s' : ParserState N B, s'.tokens = rest →
        s'.token.assignmentOperator = none := by
      intro s' hs'
      cases hrest with
      | comma | closeBracket | closeBrace => rw [token_of_tokens hs']; rfl
      | equal rest => exact absurd rfl (hequal rest)
    rw [parseAssignmentExpression]
    simp only [Lands, parseAssignmentExpressionWith, ensures_run]
    refine htry.imp ?_
    rintro _ _ ⟨rfl, rfl⟩
    simp only [parseReferenceAssignment, ensures_bind]
    refine (lands_parseConditionalExpression (fun _ h => hreads.beginsPrimary h) hrest
      (hprimary depth) hs).imp
      fun lhs s' hs' => ?_
    simp only [nonLHSCount, ensures_run]
    split
    · simp only [failIfAssignment, token, semanticFailIfTrue, ensures_run, hassign s' hs',
        Option.isSome_none, Bool.false_eq_true, if_false]
      exact hs'
    · simp only [parseAssignments, ensures_bind]
      refine Ensures.mono (Q := fun r s'' => r.2 = [] ∧ s''.tokens = rest) (E := fun _ _ => True)
        (ensures_whileTokens_once ?_) ?_ fun _ _ _ => trivial
      · simp only [parseAssignmentRound, token, ensures_run, hassign s' hs']
        exact ⟨trivial, hs'⟩
      · rintro ⟨rhs, assignmentStack⟩ s'' ⟨rfl, hs''⟩
        simp only [assignmentCount, ensures_run, isEmpty_nil, if_true]
        exact hs''

/-- What is left after the first property of an object literal. -/
structure PropertiesLand (rest : List (Token N)) (depth : Nat) (property : Property N F)
    (s : ParserState N B) :
    Prop where
  constant : property.type = .constant
  constants : ∀ n properties, Ensures
    (loop .stackExhausted (parseConstantPropertyRound config (parseAssignmentExpression config
      depth)) n properties) s (fun r s' => r.isSome = true ∧ s'.tokens = rest) (fun _ _ => True)
  validated : ∀ n state, Ensures
    (loop .stackExhausted (parseValidatedPropertyRound config (parseAssignmentExpression config
      depth)) n state) s (fun _ s' => s'.tokens = rest) (fun _ _ => True)

/-- **A part of a pattern as a part of a literal**: where the functions for literals stop on it. -/
def PartLands (B : Type) : PatternPart → List (Token N) → List (Token N) → Prop
  | .pattern, tokens, rest => EndsOperand rest → ∀ (depth : Nat)
  (s : ParserState N B), s.tokens = tokens →
      Lands rest (parsePrimaryExpression config (parseAssignmentExpression config depth)) s
  | .entries, tokens, rest => ∀ rest', rest = .punctuation .closeBracket :: rest' →
      (NotAt .closeBracket (dropCommas tokens) ∧
        ∀ (depth elisions : Nat) (s : ParserState N B), s.tokens = dropCommas tokens →
          Ensures (parseElement (parseAssignmentExpression config depth) elisions) s
            (fun _ s' => ∀ n elements, Ensures (loop .stackExhausted
                (parseElementRound (parseAssignmentExpression config depth)) n elements) s'
              (fun r s'' => r.2 = none ∧ s''.tokens = rest) (fun _ _ => True))
            (fun _ _ => True))
  | .properties, tokens, rest => ∀ rest', rest = .punctuation .closeBrace :: rest' →
      (NotAt .closeBrace tokens ∧
        ∀ (depth : Nat) (s : ParserState N B), s.tokens = tokens →
          Ensures (parseProperty config (parseAssignmentExpression config depth)) s
            (fun property s' => PropertiesLand config rest depth property s') (fun _ _ => True))

theorem partLands_binding (name : String) (rest : List (Token N)) :
    PartLands config B .pattern (.ident name :: rest) rest := by
  intro _ depth s hs
  simp only [Lands, parsePrimaryExpression, token, ensures_run, token_of_tokens hs, atom, next,
    hs, tail_cons]

theorem partLands_array
    (ih : PartLands config B .entries tokens (.punctuation .closeBracket :: rest)) :
    PartLands config B .pattern (.punctuation .openBracket :: tokens) rest := by
  intro _ depth s hs
  obtain ⟨hclose, helement⟩ := ih rest rfl
  simp only [Lands, parsePrimaryExpression, parseArrayLiteral, token, nonLHSCount, ensures_run,
      token_of_tokens hs, ensures_consumeOrFail hs]
  refine (parseElisions_ensures _).imp fun elisions s1 hs1 => ?_
  simp only at hs1
  rw [if_neg (not_is_of_notAt (by simp) (hs1 ▸ hclose)), ensures_bind]
  refine (helement depth elisions s1 hs1).imp fun r s2 hs2 => ?_
  simp only [parseElements, whileTokens, ensures_run]
  refine (hs2 _ _).imp ?_
  rintro ⟨elements, trailing⟩ s3 ⟨rfl, hs3⟩
  simp only [ensures_run, token_of_tokens hs3, semanticFailIfTrue, Token.is_punctuation,
    reduceCtorEq, beq_iff_eq, if_false, setNonLHSCount]
  rw [ensures_consumeOrFail hs3]

theorem partLands_object
    (ih : PartLands config B .properties tokens (.punctuation .closeBrace :: rest)) :
    PartLands config B .pattern (.punctuation .openBrace :: tokens) rest := by
  intro _ depth s hs
  obtain ⟨hclose, hproperty⟩ := ih rest rfl
  have hclosed (s1 : ParserState N B) (hs1 : s1.tokens = tokens) :
      ¬s1.token.is .closeBrace = true :=
    not_is_of_notAt (by simp) (hs1 ▸ hclose)
  have hend (s1 : ParserState N B) (properties : EntryList N F) (count : Nat)
      (hs1 : s1.tokens = .punctuation .closeBrace :: rest) :
      Ensures (handleProductionOrFail .closeBrace "\x7d" "end" "object literal") s1
        (fun _ s' => Ensures (setNonLHSCount count) s'
          (fun _ s' => Ensures (pure (.object properties) : ParserM N B (Expression N F)) s'
            (fun _ s' => s'.tokens = rest) fun _ _ => True) fun _ _ => True) fun _ _ => True := by
    simp only [handleProductionOrFail, ensures_consumeOrFail hs1, setNonLHSCount, ensures_run]
  simp only [Lands, parsePrimaryExpression, token, ensures_run, token_of_tokens hs]
  split
  · simp only [parseStrictObjectLiteral, token, nonLHSCount, ensures_run, ensures_consumeOrFail hs]
    rw [if_neg (hclosed _ rfl)]
    simp only [parseValidatedProperties, whileTokens, ensures_run]
    refine (hproperty depth _ rfl).imp fun property s1 hs1 => ?_
    refine (validateProperty_keeps config _ property s1).imp ?_
    rintro declared _ rfl
    exact (hs1.validated _ _).imp fun properties s2 hs2 => hend s2 properties _ hs2
  · simp only [parseObjectLiteral, createSavePoint, token, nonLHSCount, ensures_run,
      ensures_consumeOrFail hs]
    rw [if_neg (hclosed _ rfl)]
    simp only [parseConstantProperties, ensures_bind]
    refine (hproperty depth _ rfl).imp fun property s1 hs1 => ?_
    have hmust : mustValidate config property = false := by
      rw [mustValidate, hs1.constant, bne_self_eq_false, Bool.and_false]
    simp only [hmust, Bool.false_eq_true, if_false, whileTokens, ensures_run]
    refine (hs1.constants _ _).imp ?_
    rintro properties s2 ⟨hsome, hs2⟩
    obtain ⟨properties, rfl⟩ := Option.isSome_iff_exists.mp hsome
    simp only [ensures_bind]
    exact hend s2 properties _ hs2

variable {p : Punctuation}

theorem Reads.head (h : Reads .pattern tokens rest)
    (hbracket : p ≠ .openBracket) (hbrace : p ≠ .openBrace) : NotAt p tokens := by
  intro rest' heq
  rcases h.start with ⟨name, rfl⟩ | ⟨tokens', rfl, -⟩ | ⟨tokens', rfl, -⟩
  · cases heq
  · cases heq
    exact hbracket rfl
  · cases heq
    exact hbrace rfl

theorem parseElement_lands (hreads : Reads .pattern tokens rest) (hrest : EndsOperand rest)
    (hequal : NotAt .equal rest) (ih : PartLands config B .pattern tokens rest)
    (depth elisions : Nat) (hs : s.tokens = tokens) :
    Lands rest (parseElement (parseAssignmentExpression config depth) elisions) s := by
  simp only [Lands, parseElement, parseSpread, token, ensures_run]
  rw [if_neg (not_is_of_notAt (by simp) (hs ▸ hreads.head (by simp) (by simp))), ensures_bind]
  exact lands_parseAssignmentExpression config hreads hrest hequal (ih hrest) depth hs

theorem notAt_cons {q : Punctuation} (h : p ≠ q) (rest : List (Token N)) :
    NotAt p (.punctuation q :: rest) := by
  intro rest' heq
  cases heq
  exact h rfl

theorem partLands_lastEntry (hreads : Reads .pattern tokens rest)
    (ih : PartLands config B .pattern tokens rest) : PartLands config B .entries tokens rest := by
  rintro rest' rfl
  rw [dropCommas_of_notAt (hreads.head (by simp) (by simp))]
  refine ⟨hreads.head (by simp) (by simp), fun depth elisions s hs => ?_⟩
  refine (parseElement_lands config hreads (.closeBracket _) (notAt_cons (by simp) _) ih depth
    elisions hs).imp fun r s' hs' n elements => ?_
  cases n with
  | zero => exact trivial
  | succ n =>
    simp only [loop, parseElementRound, token, ensures_run, token_of_tokens hs']
    exact ⟨rfl, hs'⟩

variable {tokens tokens' rest : List (Token N)}

theorem partLands_entry
    (hreads : Reads .pattern tokens (.punctuation .comma :: tokens'))
    (ih : PartLands config B .pattern tokens (.punctuation .comma :: tokens'))
    (ih' : PartLands config B .entries tokens' rest) : PartLands config B .entries tokens rest := by
  rintro rest' rfl
  obtain ⟨hclose, helement⟩ := ih' rest' rfl
  rw [dropCommas_of_notAt (hreads.head (by simp) (by simp))]
  refine ⟨hreads.head (by simp) (by simp), fun depth elisions s hs => ?_⟩
  refine (parseElement_lands config hreads (.comma _) (notAt_cons (by simp) _) ih depth
    elisions hs).imp
    fun r s' hs' n elements => ?_
  cases n with
  | zero => exact trivial
  | succ n =>
    simp only [loop, parseElementRound, token, next, ensures_run, token_of_tokens hs',
        Token.is_punctuation, beq_self_eq_true, if_true]
    refine (parseElisions_ensures _).imp fun elisions s1 hs1 => ?_
    simp only [hs', tail_cons] at hs1
    rw [if_neg (not_is_of_notAt (by simp) (hs1 ▸ hclose))]
    simp only [ensures_run]
    exact (helement depth elisions s1 hs1).imp fun r s2 hs2 => hs2 n _

variable {t : Token N} {assignment : ParserM N B (Expression N F)}

/-- A property with a colon. -/
theorem parseProperty_lands (ht : NamesProperty t)
    (hassignment : ∀ s : ParserState N B, s.tokens = tokens → Lands rest assignment s)
    (hs : s.tokens = t :: .punctuation .colon :: tokens) :
    Ensures (parseProperty config assignment) s
      (fun property s' => property.type = .constant ∧ s'.tokens = rest) (fun _ _ => True) := by
  have hnamed (name : String) (wasIdent : Bool) :
      Ensures (parseNamedProperty config assignment name wasIdent) s
        (fun property s' => property.type = .constant ∧ s'.tokens = rest) (fun _ _ => True) := by
    simp only [parseNamedProperty, nextExpectIdentifier, token, next, ensures_run, hs, tail_cons,
        ignoreReservedWords, ParserState.token, headD_cons, Token.is_punctuation,
        beq_self_eq_true, if_true]
    exact (hassignment _ rfl).imp fun _ _ hs' => ⟨rfl, hs'⟩
  simp only [parseProperty, token, ensures_run, token_of_tokens hs]
  cases ht with
  | ident name => exact hnamed name true
  | string value => exact hnamed value false
  | keyword k => exact hnamed k.name true
  | number value =>
    simp only [next, ensures_run]
    have hcolon : s.tokens.tail = .punctuation .colon :: tokens := by rw [hs, tail_cons]
    rw [ensures_consumeOrFail hcolon]
    exact (hassignment _ rfl).imp fun _ _ hs' => ⟨rfl, hs'⟩

/-- A property without a colon is an error, since it is followed by a comma or the end of the
pattern. -/
theorem parseProperty_shorthand {name : String} {tokens : List (Token N)} (hp : p ≠ .colon)
    (hs : s.tokens = .ident name :: .punctuation p :: tokens) :
    Ensures (parseProperty config assignment) s (fun _ _ => False) (fun _ _ => True) := by
  have haccessor (s' : ParserState N B) (hs' : s'.tokens =
    .punctuation p :: tokens) (type : PropertyType)
      (mode : FunctionParseMode) (description : String) :
      Ensures (parseAccessor config type mode description) s' (fun _ _ => False)
      (fun _ _ => True) := by
    simp only [parseAccessor, token, ensures_run, token_of_tokens hs', accessorName,
        failDueToUnexpectedToken, ensures_throw]
  have hcolon : (p == Punctuation.colon) = false := beq_eq_false_iff_ne.mpr hp
  simp only [parseProperty, token, ensures_run, parseNamedProperty, nextExpectIdentifier, hs,
      tail_cons, ignoreReservedWords, ParserState.token, headD_cons, Token.is_punctuation, hcolon,
      Bool.false_eq_true, if_false, Bool.not_true]
  split
  · exact haccessor _ rfl _ _ _
  · split
    · exact haccessor _ rfl _ _ _
    · simp only [failWithMessage, token, ensures_run, ensures_throw]

theorem NamesProperty.notAt (ht : NamesProperty t) (p : Punctuation) (rest : List (Token N)) :
    NotAt p (t :: rest) := by
  intro rest' heq
  cases ht <;> cases heq

theorem partLands_lastProperty (ht : NamesProperty t)
    (hreads : Reads .pattern tokens rest) (ih : PartLands config B .pattern tokens rest) :
    PartLands config B .properties (t :: .punctuation .colon :: tokens) rest := by
  rintro rest' rfl
  refine ⟨ht.notAt _ _, fun depth s hs => ?_⟩
  have hassignment (s : ParserState N B) (hs : s.tokens = tokens) :=
    lands_parseAssignmentExpression config hreads (.closeBrace _) (notAt_cons (by simp) _)
      (ih (.closeBrace _)) depth hs
  refine (parseProperty_lands config ht hassignment hs).imp ?_
  rintro property s' ⟨hconstant, hs'⟩
  refine ⟨hconstant, fun n properties => ?_, fun n state => ?_⟩
  · cases n with
    | zero => exact trivial
    | succ n =>
      simp only [loop, parseConstantPropertyRound, token, ensures_run, token_of_tokens hs']
      exact ⟨rfl, hs'⟩
  · cases n with
    | zero => exact trivial
    | succ n =>
      simp only [loop, parseValidatedPropertyRound, token, ensures_run, token_of_tokens hs']
      exact hs'

theorem partLands_property (ht : NamesProperty t)
    (hreads : Reads .pattern tokens (.punctuation .comma :: tokens'))
    (ih : PartLands config B .pattern tokens (.punctuation .comma :: tokens'))
    (ih' : PartLands config B .properties tokens' rest) :
    PartLands config B .properties (t :: .punctuation .colon :: tokens) rest := by
  rintro rest' rfl
  obtain ⟨hclose, hproperty⟩ := ih' rest' rfl
  refine ⟨ht.notAt _ _, fun depth s hs => ?_⟩
  have hassignment (s : ParserState N B) (hs : s.tokens = tokens) :=
    lands_parseAssignmentExpression config hreads (.comma _) (notAt_cons (by simp) _)
      (ih (.comma _)) depth hs
  refine (parseProperty_lands config ht hassignment hs).imp ?_
  rintro property s' ⟨hconstant, hs'⟩
  have hnext : ¬(ParserState.token { s' with tokens := tokens' }).is .closeBrace = true :=
    not_is_of_notAt (by simp) hclose
  refine ⟨hconstant, fun n properties => ?_, fun n state => ?_⟩
  · cases n with
    | zero => exact trivial
    | succ n =>
      simp only [loop, parseConstantPropertyRound, token, next, ensures_run, token_of_tokens hs',
          Token.is_punctuation, beq_self_eq_true, if_true, hs', tail_cons]
      rw [if_neg hnext, ensures_bind]
      refine (hproperty depth _ rfl).imp fun property s1 hs1 => ?_
      have hmust : mustValidate config property = false := by
        rw [mustValidate, hs1.constant, bne_self_eq_false, Bool.and_false]
      simp only [hmust, Bool.false_eq_true, if_false, ensures_pure]
      exact hs1.constants n _
  · cases n with
    | zero => exact trivial
    | succ n =>
      simp only [loop, parseValidatedPropertyRound, token, next, ensures_run, token_of_tokens hs',
          Token.is_punctuation, beq_self_eq_true, if_true, hs', tail_cons]
      rw [if_neg hnext, ensures_bind]
      refine (hproperty depth _ rfl).imp fun property s1 hs1 => ?_
      rw [ensures_bind]
      refine (validateProperty_keeps config _ property s1).imp ?_
      rintro declared _ rfl
      exact hs1.validated n _

theorem partLands_shorthand {name : String} (hp : p ≠ .colon) :
    PartLands config B .properties (.ident name :: .punctuation p :: tokens) rest :=
  fun _ _ => ⟨(NamesProperty.ident name).notAt _ _, fun _ _ hs =>
    (parseProperty_shorthand config hp hs).mono (fun _ _ h => h.elim) fun _ _ h => h⟩

/-- **On the tokens of a pattern the functions for literals stop where the pattern ends.** -/
theorem Reads.lands (h : Reads part tokens rest) :
    PartLands config B part tokens rest := by
  induction h with
  | binding => exact partLands_binding config _ _
  | array _ ih => exact partLands_array config ih
  | object _ ih => exact partLands_object config ih
  | skip _ ih => exact ih
  | lastEntry hreads _ ih => exact partLands_lastEntry config hreads ih
  | entry hreads _ ih ih' => exact partLands_entry config hreads ih ih'
  | lastProperty ht hreads _ ih => exact partLands_lastProperty config ht hreads ih
  | property ht hreads _ ih ih' => exact partLands_property config ht hreads ih ih'
  | lastShorthand hcolon =>
    -- Only in front of the end of the pattern is there something to show.
    rintro rest' rfl
    exact partLands_shorthand config (by simp) rest' rfl
  | shorthand => exact partLands_shorthand config (by simp)

/-- **After a pattern that is followed by `=` the parser stops at the `=`**, if it takes the pattern
for a literal and succeeds. -/
theorem parseConditionalExpression_lands (h : Reads .pattern tokens (.punctuation .equal :: rest))
    (depth : Nat) (hs : s.tokens = tokens) :
    Lands (.punctuation .equal :: rest)
    (parseConditionalExpression (parseAssignmentExpression config depth)
        (parseBinaryExpression config (parseAssignmentExpression config depth))) s :=
  lands_parseConditionalExpression (fun _ hs => h.beginsPrimary hs) (.equal rest)
    (h.lands config (.equal rest) depth) hs

end Literals

end JavaScriptCore.Parser
