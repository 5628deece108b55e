/-
# What `parse` accepts, and what it builds

The state machine of `Parser` against the grammar of `Grammar`.

The machine is reasoned about through `Iteration.Steps` only, which composes; the turn bound of
`parse` does not appear here.

A position is named by the text BEFORE the current token: `At m t` says that the current token
and the pointer are what `lex` delivers on `t`.  So "`parse` stands in front of `t`" reads the same
whether `t` starts with white space or not, and the grammar's `Ws t s` needs no bookkeeping.

From `StartParseExpression` in front of `t` the machine either returns an empty value, or leaves the
`switch` with the value of a grammatical `Value` at the start of `t`.  One induction on the text
shows this together with its converse (`value_reading`): where the machine gives up no value stands
in front of `t`, and where it delivers one there is no other.  So the machine is compared with the
grammar case by case, once.

It counts turns, at most four for each character that is consumed, which is what makes the bound
of `parse` sufficient (`Acceptance`).
-/
import JavaScriptCore.Json.LexerSpec
import JavaScriptCore.Json.Parser

namespace JavaScriptCore.Json

open List

open Iteration (Steps)

variable {ν : Type} {ops : TokenOps ν} {mode : ParserMode}

/-! ## 1. Turns of the machine -/

variable {m : Machine ν}

/-- One turn from a `goto`. -/
theorem steps_goto {state : ParserState} {c : Control ν} (h : step ops mode state m = c) :
    Steps (turn ops mode) 1 (.goto state m) c := .one (congrArg Sum.inl h)

/-- One turn after a `break`. -/
theorem steps_pop {state : ParserState} {rest : List ParserState} {c : Control ν}
    (hs : m.stateStack = state :: rest)
    (h : step ops mode state { m with stateStack := rest } = c) :
    Steps (turn ops mode) 1 (.leave m) c := by
  refine .one ?_
  rw [turn, hs]
  exact congrArg Sum.inl h

/-! ## 2. Positions -/

/-- The parser stands in front of `t`: its token and pointer are those `lex` delivers on `t`. -/
structure At (ops : TokenOps ν) (mode : ParserMode) (p : LiteralParser ν) (t : List Nat) :
    Prop where
  token : p.lexer.currentToken = (lex ops mode t).token
  ptr : p.lexer.ptr = (lex ops mode t).ptr

variable {p : LiteralParser ν} {t : List Nat}

theorem at_advance (hptr : p.lexer.ptr = t) : At ops mode (p.advance ops mode) t := by
  subst hptr
  exact ⟨rfl, rfl⟩

theorem At.advance (h : At ops mode p t) {res : LexResult ν} (hlex : lex ops mode t = res) :
    At ops mode (p.advance ops mode) res.ptr := by
  rw [← hlex]
  exact at_advance h.ptr

theorem At.tokenType (h : At ops mode p t) : p.tokenType = (lex ops mode t).token.type := by
  rw [← h.token]
  rfl

variable {s : List Nat}

theorem At.of_ws (h : At ops mode p t) (hws : Ws t s) : At ops mode p s := by
  constructor
  · rw [h.token, lex_ws hws]
  · rw [h.ptr, lex_ws hws]

/-- `Delivers m m' v r`: `m'` is `m` after it has read a value `v` and stands in front of `r`. -/
structure Delivers (ops : TokenOps ν) (mode : ParserMode) (m m' : Machine ν) (v : JSValue ν)
    (r : List Nat) : Prop where
  position : At ops mode m'.parser r
  lastValue : m'.lastValue = some v
  objectStack : m'.objectStack = m.objectStack
  stateStack : m'.stateStack = m.stateStack
  identifierStack : m'.identifierStack = m.identifierStack

variable {v : JSValue ν} {r : List Nat}

/-- Only the stacks of the first machine matter. -/
theorem Delivers.of_stacks {m₀ m' : Machine ν} (h : Delivers ops mode m m' v r)
    (ho : m.objectStack = m₀.objectStack) (hs : m.stateStack = m₀.stateStack)
    (hi : m.identifierStack = m₀.identifierStack) : Delivers ops mode m₀ m' v r :=
  ⟨h.position, h.lastValue, h.objectStack.trans ho, h.stateStack.trans hs,
    h.identifierStack.trans hi⟩

/-- `parse` gives up. -/
def Control.Fails (c : Control ν) : Prop := ∃ m, c = .ret none m

theorem Machine.fail_fails (m : Machine ν) (e : ParseError) : (m.fail e).Fails := ⟨_, rfl⟩

/-! ### Reading the token type back -/

/-- The character of a punctuator. -/
def TokenType.character : TokenType → Nat
  | .TokLBracket => 0x5B
  | .TokRBracket => 0x5D
  | .TokLParen => 0x28
  | .TokRParen => 0x29
  | .TokLBrace => 0x7B
  | .TokRBrace => 0x7D
  | .TokComma => 0x2C
  | .TokColon => 0x3A
  | _ => 0

variable {c : Nat} {ty : TokenType}

theorem punctuator_character (h : punctuator c = some ty) : c = ty.character := by
  unfold punctuator at h
  split_ifs at h <;> cases h <;> assumption

/-- The types of the literal words. -/
def TokenType.isWord : TokenType → Bool
  | .TokTrue | .TokFalse | .TokNull => true
  | _ => false

theorem literalWord_isWord {w : List Nat} (h : literalWord c = some (ty, w)) :
    ty.isWord = true := by
  unfold literalWord at h
  split_ifs at h <;> cases h <;> rfl

/-- The types of the punctuators. -/
def TokenType.isPunctuation : TokenType → Bool
  | .TokLBracket | .TokRBracket | .TokLParen | .TokRParen | .TokLBrace | .TokRBrace
  | .TokComma | .TokColon => true
  | _ => false

theorem punctuator_isPunctuation (h : punctuator c = some ty) : ty.isPunctuation = true := by
  unfold punctuator at h
  split_ifs at h <;> cases h <;> rfl

theorem TokenType.isWord_of_isPunctuation (h : ty.isPunctuation = true) : ty.isWord = false := by
  cases ty <;> first | rfl | cases h

/-- A punctuator, stored or returned, comes from its character. -/
theorem lex_punctuator_inv (hc : punctuator c = some ty)
    (h : (lex ops mode t).returned = ty ∨ (lex ops mode t).token.type = ty) :
    ∃ r, Ws t (c :: r) ∧ lex ops mode t = plainToken ty [c] r := by
  obtain ⟨s, hws, htok⟩ := lex_tokenAt ops mode t
  generalize lex ops mode t = res at h htok
  have hty := punctuator_isPunctuation hc
  cases htok with
  | punctuator hd =>
    have hty' : _ = ty := h.elim id id
    cases hty'
    cases (punctuator_character hc).trans (punctuator_character hd).symm
    exact ⟨_, hws, rfl⟩
  | word hw =>
    have hty' : _ = ty := h.elim id id
    cases hty'
    cases (literalWord_isWord hw).symm.trans (TokenType.isWord_of_isPunctuation hty)
  | finish | string | number | dot | assign | semi | identifier | error =>
    rcases h with rfl | rfl <;> cases hty

/-- A string token comes from a string literal. -/
theorem lex_string_inv (h : (lex ops mode t).returned = .TokString) :
    ∃ q s v r, Ws t (q :: s) ∧ IsQuote mode q ∧ StringCharacters mode q s v (q :: r) ∧
      lex ops mode t = stringToken (q :: s) (ops.string v) r := by
  obtain ⟨s, hws, htok⟩ := lex_tokenAt ops mode t
  generalize lex ops mode t = res at h htok
  cases htok with
  | string hq hs => exact ⟨_, _, _, _, hws, hq, hs, rfl⟩
  | punctuator hc => cases h; cases punctuator_isPunctuation hc
  | word hw => cases h; cases literalWord_isWord hw
  | finish | number | dot | assign | semi | identifier | error => cases h

/-- An identifier token, stored or returned, comes from an identifier. -/
theorem lex_identifier_inv
    (h : (lex ops mode t).returned = .TokIdentifier ∨
      (lex ops mode t).token.type = .TokIdentifier) :
    ∃ s k r, Ws t s ∧ IsIdentifier s k r ∧ lex ops mode t = identifierToken ops k r := by
  obtain ⟨s, hws, htok⟩ := lex_tokenAt ops mode t
  generalize lex ops mode t = res at h htok
  cases htok with
  | identifier hid => exact ⟨_, _, _, hws, hid, rfl⟩
  | punctuator hc => cases h.elim id id; cases punctuator_isPunctuation hc
  | word hw => cases h.elim id id; cases literalWord_isWord hw
  | finish | number | dot | assign | semi | string | error => rcases h with h | h <;> cases h

/-! ## 3. What stands in front of a text -/

theorem StringCharacters.length_le {q : Nat} {v : List Nat} (h : StringCharacters mode q s v r) :
    r.length ≤ s.length := by
  induction h with
  | nil => exact le_rfl
  | char _ _ ih | escape _ _ _ ih | unicode _ _ _ _ _ _ ih =>
    simp only [length_cons]
    omega

theorem StringLiteral.length_lt {v : List Nat} (h : StringLiteral mode s v r) :
    r.length < s.length := by
  obtain ⟨-, hs⟩ := h
  have := hs.length_le
  simp only [length_cons] at this ⊢
  omega

variable {k : List Nat}

theorem IsIdentifier.length_lt (h : IsIdentifier s k r) : r.length < s.length := by
  obtain ⟨c, t, hk, -⟩ := h.start
  rw [h.eq, hk, length_append, length_cons]
  omega

theorem MemberName.length_le (h : MemberName mode s k r) : r.length ≤ s.length := by
  cases h with
  | string h | identifier _ h => exact h.length_lt.le

theorem Number.length_lt (h : Number s r) : r.length < s.length := by
  have main : ∀ {s r : List Nat}, UnsignedNumber s r → r.length < s.length := by
    rintro s r ⟨hi, hf, he⟩
    have h₁ := hi.length_lt
    have h₂ := hf.suffix.length_le
    have h₃ := he.suffix.length_le
    omega
  cases h with
  | plain h => exact main h
  | minus h => exact (main h).trans (Nat.lt_succ_self _)

theorem literalWord_length_lt {w : List Nat} (h : literalWord c = some (ty, w)) (r : List Nat) :
    r.length < (w ++ r).length := by
  obtain ⟨w', rfl⟩ := literalWord_head h
  rw [length_append, length_cons]
  omega

theorem Ws.numberEnds (h : Ws s (c :: r)) (hd : ¬ IsDigit c) (hdot : c ≠ 0x2E) (he : c ≠ 0x65)
    (hE : c ≠ 0x45) : NumberEnds s := by
  intro d t hs
  subst hs
  cases h with
  | nil => exact ⟨hd, hdot, he, hE⟩
  | cons hw _ =>
    unfold IsWs at hw
    unfold IsDigit
    omega

theorem Ws.numberEnds_of_punctuator (h : Ws s (c :: r)) (ty : TokenType)
    (hc : punctuator c = some ty) :
    NumberEnds s := by
  have hne : ¬ IsDigit c ∧ c ≠ 0x2E ∧ c ≠ 0x65 ∧ c ≠ 0x45 := by
    unfold punctuator at hc
    unfold IsDigit
    split_ifs at hc <;> omega
  exact h.numberEnds hne.1 hne.2.1 hne.2.2.1 hne.2.2.2

theorem Ws.numberEnds_nil (h : Ws s []) : NumberEnds s := by
  intro d t hs
  subst hs
  cases h with
  | cons hw _ =>
    unfold IsWs at hw
    unfold IsDigit
    omega

theorem Ws.cons_inj {d : Nat} {r' : List Nat} (h : Ws t (c :: r)) (h' : Ws t (d :: r'))
    (hc : ¬ IsWs c) (hd : ¬ IsWs d) : c = d ∧ r = r' :=
  List.cons.inj ((h.dropWhile_eq_cons hc).symm.trans (h'.dropWhile_eq_cons hd))

/-- A value stands in front of `t`, and if it is a number it ends there. -/
def ValueAhead (ops : TokenOps ν) (mode : ParserMode) (t : List Nat) (v : JSValue ν)
    (r : List Nat) : Prop :=
  ∃ s, Ws t s ∧ Value ops mode s v r ∧ NumberEnds r

/-- What can follow the elements `vs` of an array: nothing but the bracket unless there was a comma,
or further elements. -/
def ArrayRest (ops : TokenOps ν) (mode : ParserMode) (comma : Prop) (vs : List (JSValue ν))
    (t : List Nat) (v : JSValue ν) (r : List Nat) : Prop :=
  ∃ ws, v = .array (vs ++ ws) ∧
    ((¬ comma ∧ ws = [] ∧ Ws t (0x5D :: r)) ∨ Elements ops mode t ws (0x5D :: r))

/-- The members that follow the properties `ps` of an object. -/
def MembersRest (ops : TokenOps ν) (mode : ParserMode) (ps : List (PropertyKey × JSValue ν))
    (t : List Nat) (v : JSValue ν) (r : List Nat) : Prop :=
  ∃ ms, v = .object (ms.foldl (fun ps p => putProperty ps p.1 p.2) ps) ∧
    Members ops mode t ms (0x7D :: r)

/-- The value of a token that is one by itself. -/
def scalarValue (token : LiteralParserToken ν) : Option (JSValue ν) :=
  match token.type with
  | .TokString => some (.string token.string)
  | .TokNumber => token.number.map .number
  | .TokNull => some .null
  | .TokTrue => some (.boolean true)
  | .TokFalse => some (.boolean false)
  | _ => none

theorem ValueAhead.cases (h : ValueAhead ops mode t v r) :
    (scalarValue (lex ops mode t).token = some v ∧ (lex ops mode t).ptr = r) ∨
    (∃ t', Ws t (0x5B :: t') ∧ ArrayRest ops mode False [] t' v r) ∨
    ∃ t', Ws t (0x7B :: t') ∧ ((v = .object [] ∧ Ws t' (0x7D :: r)) ∨
      MembersRest ops mode [] t' v r) := by
  obtain ⟨s, hws, hval, hr⟩ := h
  cases hval with
  | null => exact .inl (by rw [lex_word (c := 0x6E) rfl hws]; exact ⟨rfl, rfl⟩)
  | true => exact .inl (by rw [lex_word (c := 0x74) rfl hws]; exact ⟨rfl, rfl⟩)
  | false => exact .inl (by rw [lex_word (c := 0x66) rfl hws]; exact ⟨rfl, rfl⟩)
  | number hn => exact .inl (by rw [lex_number hws hn hr]; exact ⟨rfl, rfl⟩)
  | string hs =>
    obtain ⟨hq, hs⟩ := hs
    exact .inl (by rw [lex_string hq hws hs]; exact ⟨rfl, rfl⟩)
  | emptyArray hclose => exact .inr (.inl ⟨_, hws, [], rfl, .inl ⟨id, rfl, hclose⟩⟩)
  | array hel => exact .inr (.inl ⟨_, hws, _, rfl, .inr hel⟩)
  | emptyObject hclose => exact .inr (.inr ⟨_, hws, .inl ⟨rfl, hclose⟩⟩)
  | object hms => exact .inr (.inr ⟨_, hws, .inr ⟨_, rfl, hms⟩⟩)

/-- An element comes first, and then the bracket or a comma. -/
theorem Elements.cases {ws : List (JSValue ν)} (h : Elements ops mode t ws (0x5D :: r)) :
    ∃ v r₁, ValueAhead ops mode t v r₁ ∧ ((ws = [v] ∧ Ws r₁ (0x5D :: r)) ∨
      ∃ t' ws', ws = v :: ws' ∧ Ws r₁ (0x2C :: t') ∧ Elements ops mode t' ws' (0x5D :: r)) := by
  cases h with
  | one hws hval hclose =>
    exact ⟨_, _, ⟨_, hws, hval, hclose.numberEnds_of_punctuator .TokRBracket rfl⟩,
      .inl ⟨rfl, hclose⟩⟩
  | cons hws hval hcomma hel =>
    exact ⟨_, _, ⟨_, hws, hval, hcomma.numberEnds_of_punctuator .TokComma rfl⟩,
      .inr ⟨_, _, rfl, hcomma, hel⟩⟩

/-- A name, a colon and a value come first, and then the brace or a comma. -/
theorem Members.cases {ms : List (List Nat × JSValue ν)} (h : Members ops mode t ms (0x7D :: r)) :
    ∃ s k s₂ s₃ v r₁, Ws t s ∧ MemberName mode s k s₂ ∧ Ws s₂ (0x3A :: s₃) ∧
    ValueAhead ops mode s₃ v r₁ ∧ ((ms = [(ops.string k, v)] ∧ Ws r₁ (0x7D :: r)) ∨
        ∃ t' ms', ms = (ops.string k, v) :: ms' ∧ Ws r₁ (0x2C :: t') ∧
        Members ops mode t' ms' (0x7D :: r)) := by
  cases h with
  | one hws hmem hcolon hws₄ hval hclose =>
    exact ⟨_, _, _, _, _, _, hws, hmem, hcolon,
      ⟨_, hws₄, hval, hclose.numberEnds_of_punctuator .TokRBrace rfl⟩, .inl ⟨rfl, hclose⟩⟩
  | cons hws hmem hcolon hws₄ hval hcomma hms =>
    exact ⟨_, _, _, _, _, _, hws, hmem, hcolon,
      ⟨_, hws₄, hval, hcomma.numberEnds_of_punctuator .TokComma rfl⟩, .inr ⟨_, _, rfl, hcomma, hms⟩⟩

/-- The test both property cases make on the type `next` returned. -/
def IsNameToken (mode : ParserMode) (type : TokenType) : Prop :=
  type = .TokString ∨ (mode ≠ .StrictJSON ∧ type = .TokIdentifier)

theorem lex_name_inv (h : IsNameToken mode (lex ops mode t).returned) :
    ∃ s k r, Ws t s ∧ MemberName mode s k r ∧ (lex ops mode t).token.string = ops.string k ∧
      (lex ops mode t).ptr = r := by
  rcases h with h | ⟨hm, h⟩
  · obtain ⟨q, s, v, r, hws, hq, hs, hlex⟩ := lex_string_inv h
    rw [hlex]
    exact ⟨_, v, r, hws, .string (.intro hq hs), rfl, rfl⟩
  · obtain ⟨s, k, r, hws, hid, hlex⟩ := lex_identifier_inv (.inl h)
    rw [hlex]
    exact ⟨s, k, r, hws, .identifier hm hid, rfl, rfl⟩

theorem lex_name (ops : TokenOps ν) (hws : Ws t s) (h : MemberName mode s k r) :
    IsNameToken mode (lex ops mode t).returned ∧ (lex ops mode t).token.string = ops.string k ∧
      (lex ops mode t).ptr = r := by
  cases h with
  | string hs =>
    obtain ⟨hq, hs⟩ := hs
    rw [lex_string hq hws hs]
    exact ⟨.inl rfl, rfl, rfl⟩
  | identifier hm hid =>
    rw [lex_identifier hws hid]
    exact ⟨.inr ⟨hm, rfl⟩, rfl, rfl⟩

theorem Members.isNameToken {ms : List (List Nat × JSValue ν)}
    (h : Members ops mode t ms (0x7D :: r)) :
    IsNameToken mode (lex ops mode t).returned := by
  obtain ⟨_, _, _, _, _, _, hws, hmem, -⟩ := h.cases
  exact (lex_name ops hws hmem).1

/-! ## 4. What the machine reads -/

/-- **What reading comes to**, from `c₀`: the machine gives up, and then nothing that is `Complete`
is there to be read; or it delivers something `Sound`, and nothing else is `Complete`.  Four turns
are counted for each character that is left. -/
def Reading (ops : TokenOps ν) (mode : ParserMode) (extra n : Nat) (c₀ : Control ν) (m : Machine ν)
    (Sound Complete : JSValue ν → List Nat → Prop) : Prop :=
  ∃ k c, Steps (turn ops mode) k c₀ c ∧
    ((c.Fails ∧ k ≤ n + extra ∧ ∀ v r, ¬ Complete v r) ∨
      ∃ v r m', c = .leave m' ∧ Delivers ops mode m m' v r ∧ k + 4 * r.length ≤ n ∧ Sound v r ∧
        ∀ v' r', Complete v' r' → v' = v ∧ r' = r)

theorem Reading.of_steps {j extra extra' n n' : Nat} {c₀ c₁ : Control ν} {m₁ : Machine ν}
    {S C S' C' : JSValue ν → List Nat → Prop} (h : Reading ops mode extra n c₀ m S C)
    (hsteps : Steps (turn ops mode) j c₁ c₀) (hn : j + n ≤ n')
    (hextra : j + n + extra ≤ n' + extra') (ho : m.objectStack = m₁.objectStack)
    (hs : m.stateStack = m₁.stateStack) (hi : m.identifierStack = m₁.identifierStack)
    (hS : ∀ v r, S v r → S' v r) (hC : ∀ v r, C' v r → C v r) :
    Reading ops mode extra' n' c₁ m₁ S' C' := by
  obtain ⟨k, c, hk, ⟨hf, hle, hno⟩ | ⟨v, r, m', hc, hd, hle, hsound, honly⟩⟩ := h
  · exact ⟨j + k, c, hsteps.trans hk, .inl ⟨hf, by omega, fun v r h => hno v r (hC v r h)⟩⟩
  · exact ⟨j + k, c, hsteps.trans hk, .inr ⟨v, r, m', hc, hd.of_stacks ho hs hi, by omega,
      hS v r hsound, fun v' r' h => honly v' r' (hC v' r' h)⟩⟩

/-- Reading a value. -/
def ValueReading (ops : TokenOps ν) (mode : ParserMode) (t : List Nat) (m : Machine ν) : Prop :=
  Reading ops mode 4 (4 * t.length) (.goto .StartParseExpression m) m
    (fun v r => ∃ s, Ws t s ∧ Value ops mode s v r) (ValueAhead ops mode t)

/-- The turn that closes an array or an object. -/
theorem popObject_delivers (v : JSValue ν) (os : List (JSValue ν)) (hat : At ops mode m.parser r)
    (hos : m.objectStack = v :: os) :
    ∃ m', m.popObject = .leave m' ∧ Delivers ops mode { m with objectStack := os } m' v r :=
  ⟨_, rfl, ⟨hat, by simp [hos], by simp [hos], rfl, rfl⟩⟩

variable {os : List (JSValue ν)}

/-- What follows an element or a property: the array or object ends, or it goes on after a comma. -/
theorem endExpression_reading {j : Nat} {c₁ : Control ν} {m₁ : Machine ν} (close : TokenType)
    {again : ParserState} {e : ParseError} {S C : JSValue ν → List Nat → Prop}
    (More : List Nat → JSValue ν → List Nat → Prop)
    (hsteps : Steps (turn ops mode) j c₁ (endExpression ops mode again close e m))
    (hle : j + 4 * r.length ≤ 4 * t.length + 2) (hc : punctuator c = some close)
    (hne : close ≠ .TokComma) (hat : At ops mode m.parser r)
    (ho : m.objectStack = v :: m₁.objectStack) (hs : m.stateStack = m₁.stateStack)
    (hi : m.identifierStack = m₁.identifierStack) (hclose : ∀ R, Ws r (c :: R) → S v R)
    (hrest : ∀ V R, C V R → (V = v ∧ Ws r (c :: R)) ∨ ∃ t', Ws r (0x2C :: t') ∧ More t' V R)
    (hmore : ∀ t', Ws r (0x2C :: t') → m.tokenType = .TokComma → m.parser.lexer.ptr = t' →
      Reading ops mode 5 (4 * t'.length + 1) (.goto again m)
      { m with objectStack := m₁.objectStack } S (More t')) :
    Reading ops mode 5 (4 * t.length) c₁ m₁ S C := by
  have hty : m.tokenType = (lex ops mode r).token.type := hat.tokenType
  have hcomma {t'} (hws : Ws r (0x2C :: t')) : m.tokenType = .TokComma := by
    rw [hty, lex_punctuator .TokComma hws rfl]
    rfl
  have hclosed {R} (hws : Ws r (c :: R)) : m.tokenType = close := by
    rw [hty, lex_punctuator close hws hc]
    rfl
  unfold endExpression at hsteps
  split_ifs at hsteps with htype hother
  · obtain ⟨t', hws, hlex⟩ := lex_punctuator_inv (c := 0x2C) rfl (.inr (hty.symm.trans htype))
    have hlen := hws.length_lt
    refine (hmore t' hws htype (hat.ptr.trans (by rw [hlex]; rfl))).of_steps hsteps
      (by omega) (by omega)
      rfl hs hi (fun _ _ h => h) fun V R h => ?_
    rcases hrest V R h with ⟨-, hws'⟩ | ⟨t'', hws', h⟩
    · exact absurd ((hclosed hws').symm.trans htype) hne
    · cases hlex.symm.trans (lex_punctuator .TokComma hws' rfl)
      exact h
  · refine ⟨j, _, hsteps, .inl ⟨Machine.fail_fails _ _, by omega, fun V R h => ?_⟩⟩
    rcases hrest V R h with ⟨-, hws'⟩ | ⟨t'', hws', -⟩
    · exact hother (hclosed hws')
    · exact htype (hcomma hws')
  · obtain ⟨R, hws, hlex⟩ := lex_punctuator_inv hc (.inr (hty.symm.trans (not_not.mp hother)))
    have hadv : At ops mode (m.advance ops mode).parser R := hat.advance hlex
    obtain ⟨m', hm', hd⟩ := popObject_delivers v m₁.objectStack hadv ho
    have hlen := hws.length_lt
    refine ⟨j, _, hsteps, .inr ⟨v, R, m', hm', hd.of_stacks rfl hs hi, by omega, hclose R hws,
      fun V R' h => ?_⟩⟩
    rcases hrest V R' h with ⟨hV, hws'⟩ | ⟨t'', hws', -⟩
    · cases hlex.symm.trans (lex_punctuator close hws' hc)
      exact ⟨hV, rfl⟩
    · exact absurd (hcomma hws') htype

section

variable {N : Nat} (ih : ∀ t (m : Machine ν), t.length < N → At ops mode m.parser t →
  ValueReading ops mode t m)

include ih

/-- The array loop, given the value reader below the length `N`. -/
theorem arrayLoop_reading
    (t : List Nat) (m : Machine ν) (vs os : List (JSValue ν)) (comma : Prop)
    (hcomma : comma ↔ m.tokenType = .TokComma) (hN : t.length < N)
    (hptr : m.parser.lexer.ptr = t) (hos : m.objectStack = .array vs :: os) :
    Reading ops mode 5 (4 * t.length) (.goto .DoParseArrayStartExpression m)
    { m with objectStack := os }
      (ArrayRest ops mode comma vs t) (ArrayRest ops mode comma vs t) := by
  have hat : At ops mode (m.advance ops mode).parser t := at_advance hptr
  have hnext : (m.parser.lexer.next ops mode).1 = (lex ops mode t).returned := hptr ▸ rfl
  -- no element stands in front of the bracket
  have hnone {r} (hws : Ws t (0x5D :: r)) {ws R} (hel : Elements ops mode t ws (0x5D :: R)) :
      False := by
    obtain ⟨_, _, hvalue, -⟩ := hel.cases
    rcases hvalue.cases with ⟨hscalar, -⟩ | ⟨_, hws', -⟩ | ⟨_, hws', -⟩
    · rw [lex_punctuator .TokRBracket hws rfl] at hscalar
      cases hscalar
    · cases (hws.cons_inj hws' (by decide) (by decide)).1
    · cases (hws.cons_inj hws' (by decide) (by decide)).1
  have hall : Steps (turn ops mode) 1 (.goto .DoParseArrayStartExpression m) _ := steps_goto rfl
  simp only [step, doParseArrayStartExpression, hnext] at hall
  split_ifs at hall with hbracket hty
  · obtain ⟨r, hws, -⟩ := lex_punctuator_inv (c := 0x5D) rfl (.inl hbracket)
    refine ⟨1, _, hall, .inl ⟨Machine.fail_fails _ _, by omega, ?_⟩⟩
    rintro V R ⟨ws, -, ⟨hno, -⟩ | hel⟩
    · exact hno (hcomma.mpr hty)
    · exact hnone hws hel
  · obtain ⟨r, hws, hlex⟩ := lex_punctuator_inv (c := 0x5D) rfl (.inl hbracket)
    have hadv : At ops mode ((m.advance ops mode).advance ops mode).parser r := hat.advance hlex
    obtain ⟨m', hm', hd⟩ := popObject_delivers (.array vs) os hadv hos
    have hlen := hws.length_lt
    refine ⟨1, _, hall, .inr ⟨_, r, m', hm', hd.of_stacks rfl rfl rfl, by omega,
      ⟨[], by rw [append_nil], .inl ⟨fun h => hty (hcomma.mp h), rfl, hws⟩⟩, ?_⟩⟩
    rintro V R ⟨ws, rfl, ⟨-, rfl, hws'⟩ | hel⟩
    · exact ⟨by rw [append_nil], (hws'.cons_inj hws (by decide) (by decide)).2⟩
    · exact (hnone hws hel).elim
  · have helements {V R} (h : ArrayRest ops mode comma vs t V R) :
        ∃ ws, V = .array (vs ++ ws) ∧ Elements ops mode t ws (0x5D :: R) := by
      obtain ⟨ws, rfl, ⟨-, -, hws⟩ | hel⟩ := h
      · rw [lex_punctuator .TokRBracket hws rfl] at hbracket
        exact (hbracket rfl).elim
      · exact ⟨ws, rfl, hel⟩
    obtain ⟨k, c, hk, hout⟩ := ih t _ hN
      (show At ops mode { m.advance ops mode with
        stateStack := .DoParseArrayEndExpression :: m.stateStack : Machine ν }.parser t from hat)
    have hsteps := hall.trans hk
    rcases hout with ⟨hf, hle, hno⟩ | ⟨v, r, m₂, rfl, hd, hle, ⟨s, hws, hval⟩, honly⟩
    · refine ⟨_, c, hsteps, .inl ⟨hf, by omega, fun V R h => ?_⟩⟩
      obtain ⟨ws, -, hel⟩ := helements h
      obtain ⟨_, _, hvalue, -⟩ := hel.cases
      exact hno _ _ hvalue
    · -- the element has been read: `DoParseArrayEndExpression` is popped
      have hos₂ : appendElement m₂.objectStack m₂.lastValue = .array (vs ++ [v]) :: os := by
        rw [hd.objectStack, hd.lastValue, show (m.advance ops mode).objectStack = _ from hos]
        rfl
      refine endExpression_reading .TokRBracket (ArrayRest ops mode True (vs ++ [v]))
        (hsteps.trans (steps_pop hd.stateStack rfl)) (by omega) rfl nofun hd.position hos₂ rfl
        hd.identifierStack (fun R hws' => ⟨[v], rfl, .inr (.one hws hval hws')⟩)
        (fun V R h => ?_) fun t' hws' hty' hptr' => ?_
      · obtain ⟨ws, rfl, hel⟩ := helements h
        obtain ⟨_, _, hvalue, hcases⟩ := hel.cases
        obtain ⟨rfl, rfl⟩ := honly _ _ hvalue
        rcases hcases with ⟨rfl, hclose⟩ | ⟨t', ws', rfl, hws', hel'⟩
        · exact .inl ⟨rfl, hclose⟩
        · exact .inr ⟨t', hws', ws', by rw [append_assoc]; rfl, .inr hel'⟩
      · have hlen := hws'.length_lt
        refine (arrayLoop_reading t' _ (vs ++ [v]) os True (iff_of_true trivial hty') (by omega)
          hptr' hos₂).of_steps .refl (by omega) (by omega) rfl rfl rfl ?_ fun _ _ h => h
        rintro V R ⟨ws, rfl, ⟨hno, -⟩ | hel⟩
        · exact (hno trivial).elim
        · exact ⟨v :: ws, by rw [append_assoc]; rfl, .inr (.cons hws hval hws' hel)⟩
termination_by t.length

/-- The object loop, given the value reader below the length `N`. -/
theorem membersLoop_reading
    (t : List Nat) (m : Machine ν) (ps : List (PropertyKey × JSValue ν)) (os : List (JSValue ν))
    (e : ParseError) (hN : t.length < N) (hat : At ops mode m.parser t)
    (hname : IsNameToken mode (lex ops mode t).returned) (hos : m.objectStack = .object ps :: os) :
    Reading ops mode 5 (4 * t.length) (parseProperty ops mode e m) { m with objectStack := os }
      (MembersRest ops mode ps t) (MembersRest ops mode ps t) := by
  obtain ⟨s, name, s₂, hws, hmem, hstring, hptr⟩ := lex_name_inv hname
  have hptr' : m.parser.lexer.ptr = s₂ := hat.ptr.trans hptr
  have hnext : (m.parser.lexer.next ops mode).1 = (lex ops mode s₂).returned := hptr' ▸ rfl
  -- the name and what follows it are determined by the token
  have hmembers {V R} (h : MembersRest ops mode ps t V R) : ∃ s₃ v r₁, Ws s₂ (0x3A :: s₃) ∧
      ValueAhead ops mode s₃ v r₁ ∧
        ((V = .object (putProperty ps (ops.string name) v) ∧ Ws r₁ (0x7D :: R)) ∨
          ∃ t', Ws r₁ (0x2C :: t') ∧
            MembersRest ops mode (putProperty ps (ops.string name) v) t' V R) := by
    obtain ⟨ms, rfl, hms⟩ := h
    obtain ⟨_, _, _, s₃, v, r₁, hws', hmem', hcolon, hvalue, hcases⟩ := hms.cases
    obtain ⟨-, hstring', rfl⟩ := lex_name ops hws' hmem'
    rw [← hstring', hstring] at hcases
    refine ⟨s₃, v, r₁, hptr ▸ hcolon, hvalue, ?_⟩
    rcases hcases with ⟨rfl, hclose⟩ | ⟨t', ms', rfl, hcomma, hms'⟩
    · exact .inl ⟨rfl, hclose⟩
    · exact .inr ⟨t', hcomma, ms', rfl, hms'⟩
  by_cases hcolon : (lex ops mode s₂).returned = .TokColon
  · obtain ⟨s₃, hws₂, hlex⟩ := lex_punctuator_inv (c := 0x3A) rfl (.inl hcolon)
    have hlen : s₃.length < t.length := by
      have h₁ := hws.length_le
      have h₂ := hmem.length_le
      have h₃ := hws₂.length_lt
      omega
    let m₁ : Machine ν := { (m.advance ops mode).advance ops mode with
      identifierStack := m.parser.lexer.currentToken.string :: m.identifierStack
      stateStack := .DoParseObjectEndExpression :: m.stateStack }
    have hm₁ : parseProperty ops mode e m = .goto .StartParseExpression m₁ :=
      if_neg (not_not.mpr (hnext.trans hcolon))
    have hat₁ : At ops mode m₁.parser s₃ := (at_advance hptr').advance hlex
    obtain ⟨k, c, hk, hout⟩ := ih s₃ m₁ (by omega) hat₁
    rcases hout with ⟨hf, hle, hno⟩ | ⟨v, r, m₂, rfl, hd, hle, ⟨s₄, hws₄, hval⟩, honly⟩
    · refine ⟨k, c, hm₁ ▸ hk, .inl ⟨hf, by omega, fun V R h => ?_⟩⟩
      obtain ⟨s₃', v, r₁, hws₂', hvalue, -⟩ := hmembers h
      cases hlex.symm.trans (lex_punctuator .TokColon hws₂' rfl)
      exact hno _ _ hvalue
    · -- the value has been read: `DoParseObjectEndExpression` is popped
      let key := ops.string name
      have his₂ : m₂.identifierStack = key :: m.identifierStack := by
        rw [hd.identifierStack, show key = m.parser.lexer.currentToken.string from
          hstring.symm.trans (congrArg (·.string) hat.token.symm)]
      have hos₂ : storeProperty m₂.objectStack m₂.identifierStack m₂.lastValue
          = .object (putProperty ps key v) :: os := by
        rw [hd.objectStack, his₂, hd.lastValue, show m₁.objectStack = _ from hos]
        rfl
      let m₃ : Machine ν := { m₂ with
        stateStack := m.stateStack
        objectStack := storeProperty m₂.objectStack m₂.identifierStack m₂.lastValue
        identifierStack := m₂.identifierStack.tail }
      have his₃ : m₃.identifierStack = m.identifierStack := congrArg tail his₂
      refine endExpression_reading (m := m₃) .TokRBrace
        (MembersRest ops mode (putProperty ps key v))
        (hm₁ ▸ hk.trans (steps_pop hd.stateStack rfl)) (by omega) rfl nofun
          hd.position hos₂ rfl his₃
        (fun R hws' => ⟨[(key, v)], rfl, .one hws hmem hws₂ hws₄ hval hws'⟩) (fun V R h => ?_)
        fun t' hws' hty' hptr₃ => ?_
      · obtain ⟨s₃', v', r₁, hws₂', hvalue, hcases⟩ := hmembers h
        cases hlex.symm.trans (lex_punctuator .TokColon hws₂' rfl)
        obtain ⟨rfl, rfl⟩ := honly _ _ hvalue
        exact hcases
      · have hlen := hws'.length_lt
        have hnext' : (m₃.parser.lexer.next ops mode).1 = (lex ops mode t').returned := hptr₃ ▸ rfl
        have hall : Steps (turn ops mode) 1 (.goto .DoParseObjectStartExpression m₃) _ :=
          steps_goto rfl
        simp only [step, doParseObjectStartExpression, hnext'] at hall
        split_ifs at hall with hbad
        · refine ⟨1, _, hall, .inl ⟨Machine.fail_fails _ _, by omega, ?_⟩⟩
          rintro V R ⟨ms, -, hms⟩
          rcases hms.isNameToken with h | ⟨hm, h⟩
          · exact hbad.1 h
          · exact hbad.2.elim hm fun hne => hne h
        · have hname' : IsNameToken mode (lex ops mode t').returned := by
            simp only [not_and_or, not_or, not_not] at hbad
            exact hbad
          refine (membersLoop_reading t' (m₃.advance ops mode) (putProperty ps key v) os
            .expectedColon
            (by omega) (at_advance hptr₃) hname' hos₂).of_steps hall (by omega) (by omega)
            rfl rfl rfl ?_ fun _ _ h => h
          rintro V R ⟨ms, rfl, hms⟩
          exact ⟨(key, v) :: ms, rfl, .cons hws hmem hws₂ hws₄ hval hws' hms⟩
  · refine ⟨0, _, .refl, .inl ⟨?_, by omega, fun V R h => ?_⟩⟩
    · rw [parseProperty, if_pos (by rw [hnext]; exact hcolon)]
      exact Machine.fail_fails _ _
    · obtain ⟨s₃, _, _, hws₂, -⟩ := hmembers h
      rw [lex_punctuator .TokColon hws₂ rfl] at hcolon
      exact hcolon rfl
termination_by t.length

end

variable {res : LexResult ν} (hlex : lex ops mode t = res)

include hlex

/-- A token that is a value by itself. -/
theorem scalar_reading (hat : At ops mode m.parser t)
    (hstep : step ops mode .StartParseExpression m = (m.advance ops mode).finish v)
    (hscalar : scalarValue res.token = some v) (hptr : res.ptr = r) (hws : Ws t s)
    (hval : Value ops mode s v r) (hlen : r.length < s.length) : ValueReading ops mode t m := by
  subst hlex
  have hle := hws.length_le
  refine ⟨1, _, steps_goto hstep, .inr ⟨v, r, _, rfl, ⟨at_advance (hat.ptr.trans hptr), rfl, rfl,
    rfl, rfl⟩, by omega, ⟨s, hws, hval⟩, fun v' r' h => ?_⟩⟩
  rcases h.cases with ⟨hv, hr⟩ | ⟨t', hws', -⟩ | ⟨t', hws', -⟩
  · exact ⟨Option.some.inj (hv.symm.trans hscalar), hr.symm.trans hptr⟩
  · rw [lex_punctuator .TokLBracket hws' rfl] at hscalar
    cases hscalar
  · rw [lex_punctuator .TokLBrace hws' rfl] at hscalar
    cases hscalar

/-- A token that is no value and starts none. -/
theorem fail_reading {e : ParseError} (hstep : step ops mode .StartParseExpression m = m.fail e)
    (hscalar : scalarValue res.token = none) (hbracket : res.token.type ≠ .TokLBracket)
    (hbrace : res.token.type ≠ .TokLBrace) : ValueReading ops mode t m := by
  subst hlex
  refine ⟨1, _, steps_goto hstep, .inl ⟨Machine.fail_fails _ _, by omega, fun v r h => ?_⟩⟩
  rcases h.cases with ⟨hv, -⟩ | ⟨t', hws', -⟩ | ⟨t', hws', -⟩
  · cases hscalar.symm.trans hv
  · rw [lex_punctuator .TokLBracket hws' rfl] at hbracket
    exact hbracket rfl
  · rw [lex_punctuator .TokLBrace hws' rfl] at hbrace
    exact hbrace rfl

omit hlex

section

variable (hat : At ops mode m.parser t)
  (ih : ∀ t' (m : Machine ν), t'.length < t.length → At ops mode m.parser t' →
    ValueReading ops mode t' m)

include hat ih

theorem array_reading (hws : Ws t (0x5B :: r)) : ValueReading ops mode t m := by
  have hlex : lex ops mode t = _ := lex_punctuator .TokLBracket hws rfl
  have hty : m.tokenType = .TokLBracket := hat.tokenType.trans (by rw [hlex]; rfl)
  have hstep : step ops mode .StartParseExpression m = .goto .StartParseArray m := by
    simp only [step, startParseExpression]
    rw [show m.parser.lexer.currentToken.type = .TokLBracket from hty]
  have hlen := hws.length_lt
  let m₁ : Machine ν := { m with objectStack := .array [] :: m.objectStack }
  refine (arrayLoop_reading ih r m₁ [] m.objectStack False
    (iff_of_false id fun h => by cases hty.symm.trans h) (by omega)
    (hat.ptr.trans (by rw [hlex]; rfl))
    rfl).of_steps ((steps_goto hstep).trans (steps_goto rfl)) (by omega) (by omega)
      rfl rfl rfl ?_ ?_
  · rintro v r' ⟨ws, rfl, ⟨-, rfl, hclose⟩ | hel⟩
    · exact ⟨_, hws, .emptyArray hclose⟩
    · exact ⟨_, hws, .array hel⟩
  · intro v r' h
    rcases h.cases with ⟨hscalar, -⟩ | ⟨t', hws', h⟩ | ⟨t', hws', -⟩
    · rw [hlex] at hscalar
      cases hscalar
    · obtain ⟨-, rfl⟩ := hws.cons_inj hws' (by decide) (by decide)
      exact h
    · cases (hws.cons_inj hws' (by decide) (by decide)).1

theorem object_reading (hws : Ws t (0x7B :: r)) : ValueReading ops mode t m := by
  have hlex : lex ops mode t = _ := lex_punctuator .TokLBrace hws rfl
  have hty : m.tokenType = .TokLBrace := hat.tokenType.trans (by rw [hlex]; rfl)
  have hstep : step ops mode .StartParseExpression m = .goto .StartParseObject m := by
    simp only [step, startParseExpression]
    rw [show m.parser.lexer.currentToken.type = .TokLBrace from hty]
  have hptr : m.parser.lexer.ptr = r := hat.ptr.trans (by rw [hlex]; rfl)
  have hlen := hws.length_lt
  have hinner {v r'} (h : ValueAhead ops mode t v r') :
      (v = .object [] ∧ Ws r (0x7D :: r')) ∨ MembersRest ops mode [] r v r' := by
    rcases h.cases with ⟨hscalar, -⟩ | ⟨t', hws', -⟩ | ⟨t', hws', h⟩
    · rw [hlex] at hscalar
      cases hscalar
    · cases (hws.cons_inj hws' (by decide) (by decide)).1
    · obtain ⟨-, rfl⟩ := hws.cons_inj hws' (by decide) (by decide)
      exact h
  let m₁ : Machine ν := { m with objectStack := .object [] :: m.objectStack }
  have hat₁ : At ops mode (m₁.advance ops mode).parser r := at_advance hptr
  have hnext : (m.parser.lexer.next ops mode).1 = (lex ops mode r).returned := hptr ▸ rfl
  have hall := (steps_goto hstep).trans (steps_goto rfl)
  simp only [step, startParseObject, hnext] at hall
  split_ifs at hall with hname hbrace
  · refine (membersLoop_reading ih r (m₁.advance ops mode) [] m.objectStack
      .expectedColonBeforeValue (by omega)
      hat₁ hname rfl).of_steps hall (by omega) (by omega) rfl rfl rfl ?_ fun v r' h => ?_
    · rintro v r' ⟨ms, rfl, hms⟩
      exact ⟨_, hws, .object hms⟩
    · rcases hinner h with ⟨-, hclose⟩ | h
      · rw [lex_punctuator .TokRBrace hclose rfl] at hname
        rcases hname with h | ⟨-, h⟩ <;> cases h
      · exact h
  · refine ⟨_, _, hall, .inl ⟨Machine.fail_fails _ _, by omega, fun v r' h => ?_⟩⟩
    rcases hinner h with ⟨-, hclose⟩ | ⟨ms, -, hms⟩
    · rw [lex_punctuator .TokRBrace hclose rfl] at hbrace
      exact hbrace rfl
    · exact hname hms.isNameToken
  · obtain ⟨r', hclose, hlex'⟩ := lex_punctuator_inv (c := 0x7D) rfl (.inl (not_not.mp hbrace))
    have hadv : At ops mode ((m₁.advance ops mode).advance ops mode).parser r' := hat₁.advance hlex'
    have hlen' := hclose.length_lt
    obtain ⟨m', hm', hd⟩ := popObject_delivers (.object []) m.objectStack hadv rfl
    refine ⟨_, _, hall, .inr ⟨_, r', m', hm', hd.of_stacks rfl rfl rfl, by omega,
      ⟨_, hws, .emptyObject hclose⟩, fun v r'' h => ?_⟩⟩
    rcases hinner h with ⟨hv, hclose'⟩ | ⟨ms, -, hms⟩
    · exact ⟨hv, (hclose'.cons_inj hclose (by decide) (by decide)).2⟩
    · exact (hname hms.isNameToken).elim

end

/-- **In front of any text the machine gives up or delivers a grammatical value**, and it delivers
the value that stands there. -/
theorem value_reading (t : List Nat) (m : Machine ν) (hat : At ops mode m.parser t) :
    ValueReading ops mode t m := by
  have ih : ∀ t' (m : Machine ν), t'.length < t.length → At ops mode m.parser t' →
      ValueReading ops mode t' m := fun t' m' _ hat' => value_reading t' m' hat'
  obtain ⟨s, hws, htok⟩ := lex_tokenAt ops mode t
  have hstep : step ops mode .StartParseExpression m = startParseExpression ops mode m := rfl
  simp only [startParseExpression, hat.token] at hstep
  generalize hres : lex ops mode t = res at htok hstep
  cases htok with
  | string hq hs =>
    have hlit := StringLiteral.intro hq hs
    exact scalar_reading hres hat hstep rfl rfl hws (.string hlit) hlit.length_lt
  | number hn => exact scalar_reading hres hat hstep rfl rfl hws (.number hn) hn.length_lt
  | @word c ty w r hw =>
    have hlen := literalWord_length_lt hw r
    unfold literalWord at hw
    split_ifs at hw with h1 h2 h3 <;> cases hw
    · exact scalar_reading hres hat hstep rfl rfl hws .true hlen
    · exact scalar_reading hres hat hstep rfl rfl hws .false hlen
    · exact scalar_reading hres hat hstep rfl rfl hws .null hlen
  | @punctuator c ty r hc =>
    cases punctuator_character hc
    cases ty with
    | TokLBracket => exact array_reading hat ih hws
    | TokLBrace => exact object_reading hat ih hws
    | TokRBracket | TokRBrace | TokLParen | TokRParen | TokComma | TokColon =>
      exact fail_reading hres hstep rfl nofun nofun
    | _ => cases punctuator_isPunctuation hc
  | finish | dot | assign | semi | identifier | error =>
    exact fail_reading hres hstep rfl nofun nofun
termination_by t.length

/-- `m`, in front of `t`, gets from `c` to the delivery of `v` in front of `r`. -/
def Reads (ops : TokenOps ν) (mode : ParserMode) (t : List Nat) (c : Control ν) (m : Machine ν)
    (v : JSValue ν) (r : List Nat) : Prop :=
  ∃ k m', Steps (turn ops mode) k c (.leave m') ∧ Delivers ops mode m m' v r ∧
    k + 4 * r.length ≤ 4 * t.length

/-- **Completeness.**  In front of a grammatical value the machine delivers that value. -/
theorem value_complete (h : Value ops mode s v r) (hws : Ws t s) (hr : NumberEnds r)
    (hat : At ops mode m.parser t) : Reads ops mode t (.goto .StartParseExpression m) m v r := by
  obtain ⟨k, c, hk, ⟨-, -, hno⟩ | ⟨v', r', m', rfl, hd, hle, -, honly⟩⟩ := value_reading t m hat
  · exact (hno v r ⟨s, hws, h, hr⟩).elim
  · obtain ⟨rfl, rfl⟩ := honly v r ⟨s, hws, h, hr⟩
    exact ⟨k, m', hk, hd, hle⟩

end JavaScriptCore.Json
