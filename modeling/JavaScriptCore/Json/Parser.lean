/-
# `LiteralParser::parse`: the goto state machine

`parse` is one `while (1) switch (state)` whose cases jump into each other.  The locals of the
function are four: the stack of the arrays and objects under construction, the last finished
value, the stack of the states to return to, and the stack of the property names whose values are
being read.  They form, with the parser's own fields, the record `Machine`.

One turn of the `while` loop, or one `goto` inside it, is `step`.  It ends in one of three ways,
which is what `Control` says: it jumps to another case, it leaves the `switch` with `break` (and
then the loop pops `stateStack`, or returns if there is nothing to pop), or it returns from
`parse`.  An empty `JSValue`, the source's way to report failure, is `none`.

`turn` is what the `while` loop adds to it, and `parse` iterates `turn` under a bound on the number
of turns that is linear in the text still to be read; `Acceptance` shows that the bound is never
reached.
-/
import JavaScriptCore.Json.Value
import JavaScriptCore.Lib.Iteration

namespace JavaScriptCore.Json

inductive ParserState where
  | StartParseObject | StartParseArray | StartParseExpression
  | StartParseStatement | StartParseStatementEndStatement
  | DoParseObjectStartExpression | DoParseObjectEndExpression
  | DoParseArrayStartExpression | DoParseArrayEndExpression
  deriving DecidableEq, Repr

/-- The texts `m_parseErrorMessage` can hold. -/
inductive ParseError where
  | commaAtEndOfArray
  | expectedRBracket
  | expectedColonBeforeValue
  | expectedRBrace
  | propertyNameNotString
  | expectedColon
  | unexpectedToken (spelling : String)
  | unexpectedIdentifier (text : List Nat)
  | unexpectedIdentifierStatement
  | unexpectedEOF
  | couldNotParseValue
  | couldNotParseStatement
  | contentAtEnd
  deriving DecidableEq, Repr

def ParseError.message : ParseError → String
  | .commaAtEndOfArray => "Unexpected comma at the end of array expression"
  | .expectedRBracket => "Expected ']'"
  | .expectedColonBeforeValue => "Expected ':' before value in object property definition"
  | .expectedRBrace => "Expected '\x7d'"
  | .propertyNameNotString => "Property name must be a string literal"
  | .expectedColon => "Expected ':'"
  | .unexpectedToken spelling => "Unexpected token '" ++ spelling ++ "'"
  | .unexpectedIdentifier text => "Unexpected identifier \"" ++ asciiText text ++ "\""
  | .unexpectedIdentifierStatement => "Unexpected identifier"
  | .unexpectedEOF => "Unexpected EOF"
  | .couldNotParseValue => "Could not parse value expression"
  | .couldNotParseStatement => "Could not parse statement"
  | .contentAtEnd => "Unexpected content at end of JSON literal"

variable {ν : Type}

/-! ## 1. The lexer and the parser as objects -/

/-- `LiteralParser::Lexer`. -/
structure Lexer (ν : Type) where
  ptr : List Nat
  currentToken : LiteralParserToken ν
  lexErrorMessage : Option LexError
  deriving DecidableEq, Repr

/-- `Lexer::next`: the returned type, and the lexer with the token stored. -/
def Lexer.next (ops : TokenOps ν) (mode : ParserMode) (l : Lexer ν) : TokenType × Lexer ν :=
  let res := lex ops mode l.ptr
  (res.returned, ⟨res.ptr, res.token, res.error.or l.lexErrorMessage⟩)

/-- `LiteralParser`: `m_lexer` and `m_parseErrorMessage`. -/
structure LiteralParser (ν : Type) where
  lexer : Lexer ν
  parseErrorMessage : Option ParseError
  deriving DecidableEq, Repr

/-- The constructor.  The token is uninitialised until the first `next`; nothing reads it. -/
def LiteralParser.ofText (text : List Nat) : LiteralParser ν :=
  ⟨⟨text, errorToken, none⟩, none⟩

/-- `m_lexer.next()`, for the callers that ignore the returned type. -/
def LiteralParser.advance (ops : TokenOps ν) (mode : ParserMode) (p : LiteralParser ν) :
    LiteralParser ν :=
  { p with lexer := (p.lexer.next ops mode).2 }

/-- The stored type of the current token. -/
def LiteralParser.tokenType (p : LiteralParser ν) : TokenType := p.lexer.currentToken.type

/-- `getErrorMessage`: the lexer's message wins over the parser's. -/
def LiteralParser.getErrorMessage (p : LiteralParser ν) : String :=
  match p.lexer.lexErrorMessage, p.parseErrorMessage with
  | some e, _ => "JSON Parse error: " ++ e.message
  | none, some e => "JSON Parse error: " ++ e.message
  | none, none => "JSON Parse error: Unable to parse JSON string"

/-- A parser together with the locals of `parse`; the stacks have their top first. -/
structure Machine (ν : Type) where
  parser : LiteralParser ν
  objectStack : List (JSValue ν)
  lastValue : Option (JSValue ν)
  stateStack : List ParserState
  identifierStack : List (List Nat)

/-- How one turn of the `switch` ends. -/
inductive Control (ν : Type) where
  | goto (state : ParserState) (m : Machine ν)
  | leave (m : Machine ν)
  | ret (value : Option (JSValue ν)) (m : Machine ν)

/-- `m_parseErrorMessage = …; return JSValue();` -/
def Machine.fail (m : Machine ν) (e : ParseError) : Control ν :=
  .ret none { m with parser := { m.parser with parseErrorMessage := some e } }

def Machine.advance (ops : TokenOps ν) (mode : ParserMode) (m : Machine ν) : Machine ν :=
  { m with parser := m.parser.advance ops mode }

def Machine.tokenType (m : Machine ν) : TokenType := m.parser.tokenType

/-- `lastValue = objectStack.last(); objectStack.removeLast(); break;` -/
def Machine.popObject (m : Machine ν) : Control ν :=
  .leave { m with lastValue := m.objectStack.head?, objectStack := m.objectStack.tail }

/-- `lastValue = v; break;` -/
def Machine.finish (m : Machine ν) (v : JSValue ν) : Control ν :=
  .leave { m with lastValue := some v }

/-! ## 2. The cases of the `switch` -/

section Step

variable (ops : TokenOps ν) (mode : ParserMode)

/-- `case StartParseArray`, which falls through. -/
def startParseArray (m : Machine ν) : Control ν :=
  .goto .DoParseArrayStartExpression { m with objectStack := .array [] :: m.objectStack }

/-- `case DoParseArrayStartExpression`. -/
def doParseArrayStartExpression (m : Machine ν) : Control ν :=
  let lastToken := m.tokenType
  let m' := m.advance ops mode
  if (m.parser.lexer.next ops mode).1 = .TokRBracket then
    if lastToken = .TokComma then m'.fail .commaAtEndOfArray
    else (m'.advance ops mode).popObject
  else
    .goto .StartParseExpression
      { m' with stateStack := .DoParseArrayEndExpression :: m'.stateStack }

/-- `array->putDirectIndex(m_exec, array->length(), lastValue)` on the top of the stack. -/
def appendElement : List (JSValue ν) → Option (JSValue ν) → List (JSValue ν)
  | .array vs :: rest, some v => .array (vs ++ [v]) :: rest
  | stack, _ => stack

/-- What follows an element or a property: a comma and another one, or the closing token. -/
def endExpression (again : ParserState) (close : TokenType) (missingClose : ParseError)
    (m : Machine ν) : Control ν :=
  if m.tokenType = .TokComma then .goto again m
  else if m.tokenType ≠ close then m.fail missingClose
  else (m.advance ops mode).popObject

/-- `case DoParseArrayEndExpression`. -/
def doParseArrayEndExpression (m : Machine ν) : Control ν :=
  endExpression ops mode .DoParseArrayStartExpression .TokRBracket .expectedRBracket
    { m with objectStack := appendElement m.objectStack m.lastValue }

/-- The property name, the colon after it, and the jump to its value: the part the two cases that
read a property name share.  `m` has the name as its current token. -/
def parseProperty (missingColon : ParseError) (m : Machine ν) : Control ν :=
  let m' := m.advance ops mode
  if (m.parser.lexer.next ops mode).1 ≠ .TokColon then m'.fail missingColon
  else
    let m'' := m'.advance ops mode
    .goto .StartParseExpression
      { m'' with
        identifierStack := m.parser.lexer.currentToken.string :: m''.identifierStack
        stateStack := .DoParseObjectEndExpression :: m''.stateStack }

section

variable (m : Machine ν)

/-- `case StartParseObject`. -/
def startParseObject : Control ν :=
  let m := { m with objectStack := .object [] :: m.objectStack }
  let m' := m.advance ops mode
  let type := (m.parser.lexer.next ops mode).1
  if type = .TokString ∨ (mode ≠ .StrictJSON ∧ type = .TokIdentifier) then
    parseProperty ops mode .expectedColonBeforeValue m'
  else if type ≠ .TokRBrace then m'.fail .expectedRBrace
  else (m'.advance ops mode).popObject

/-- `case DoParseObjectStartExpression`. -/
def doParseObjectStartExpression : Control ν :=
  let m' := m.advance ops mode
  let type := (m.parser.lexer.next ops mode).1
  if type ≠ .TokString ∧ (mode = .StrictJSON ∨ type ≠ .TokIdentifier) then
    m'.fail .propertyNameNotString
  else parseProperty ops mode .expectedColon m'

/-- The store of `lastValue` under the name on top of `identifierStack`. -/
def storeProperty : List (JSValue ν) → List (List Nat) → Option (JSValue ν) → List (JSValue ν)
  | .object ps :: rest, ident :: _, some v => .object (putProperty ps ident v) :: rest
  | stack, _, _ => stack

/-- `case DoParseObjectEndExpression`. -/
def doParseObjectEndExpression : Control ν :=
  endExpression ops mode .DoParseObjectStartExpression .TokRBrace .expectedRBrace
    { m with
      objectStack := storeProperty m.objectStack m.identifierStack m.lastValue
      identifierStack := m.identifierStack.tail }

/-- `case StartParseExpression`. -/
def startParseExpression : Control ν :=
  let token := m.parser.lexer.currentToken
  match token.type with
  | .TokLBracket => .goto .StartParseArray m
  | .TokLBrace => .goto .StartParseObject m
  | .TokString => (m.advance ops mode).finish (.string token.string)
  | .TokNumber =>
    match token.number with
    | some n => (m.advance ops mode).finish (.number n)
    | none => .leave (m.advance ops mode)
  | .TokNull => (m.advance ops mode).finish .null
  | .TokTrue => (m.advance ops mode).finish (.boolean true)
  | .TokFalse => (m.advance ops mode).finish (.boolean false)
  | .TokRBracket => m.fail (.unexpectedToken "]")
  | .TokRBrace => m.fail (.unexpectedToken "\x7d")
  | .TokIdentifier => m.fail (.unexpectedIdentifier token.string)
  | .TokColon => m.fail (.unexpectedToken ":")
  | .TokLParen => m.fail (.unexpectedToken "(")
  | .TokRParen => m.fail (.unexpectedToken ")")
  | .TokComma => m.fail (.unexpectedToken ",")
  | .TokDot => m.fail (.unexpectedToken ".")
  | .TokAssign => m.fail (.unexpectedToken "=")
  | .TokSemi => m.fail (.unexpectedToken ";")
  | .TokEnd => m.fail .unexpectedEOF
  | .TokError => m.fail .couldNotParseValue

/-- `case StartParseStatement`: only a few kinds of literal may start a statement. -/
def startParseStatement : Control ν :=
  match m.tokenType with
  | .TokLBracket | .TokNumber | .TokString => .goto .StartParseExpression m
  | .TokLParen =>
    .goto .StartParseExpression
      { m.advance ops mode with
        stateStack := .StartParseStatementEndStatement :: m.stateStack }
  | .TokRBracket => m.fail (.unexpectedToken "]")
  | .TokLBrace => m.fail (.unexpectedToken "\x7b")
  | .TokRBrace => m.fail (.unexpectedToken "\x7d")
  | .TokIdentifier => m.fail .unexpectedIdentifierStatement
  | .TokColon => m.fail (.unexpectedToken ":")
  | .TokRParen => m.fail (.unexpectedToken ")")
  | .TokComma => m.fail (.unexpectedToken ",")
  | .TokTrue => m.fail (.unexpectedToken "true")
  | .TokFalse => m.fail (.unexpectedToken "false")
  | .TokNull => m.fail (.unexpectedToken "null")
  | .TokEnd => m.fail .unexpectedEOF
  | .TokDot => m.fail (.unexpectedToken ".")
  | .TokAssign => m.fail (.unexpectedToken "=")
  | .TokSemi => m.fail (.unexpectedToken ";")
  | .TokError => m.fail .couldNotParseStatement

/-- `case StartParseStatementEndStatement`. -/
def startParseStatementEndStatement : Control ν :=
  if m.tokenType ≠ .TokRParen then .ret none m
  else if (m.parser.lexer.next ops mode).1 = .TokEnd then .ret m.lastValue (m.advance ops mode)
  else (m.advance ops mode).fail .contentAtEnd

end

/-- One turn of the `switch`. -/
def step : ParserState → Machine ν → Control ν
  | .StartParseArray => startParseArray
  | .DoParseArrayStartExpression => doParseArrayStartExpression ops mode
  | .DoParseArrayEndExpression => doParseArrayEndExpression ops mode
  | .StartParseObject => startParseObject ops mode
  | .DoParseObjectStartExpression => doParseObjectStartExpression ops mode
  | .DoParseObjectEndExpression => doParseObjectEndExpression ops mode
  | .StartParseExpression => startParseExpression ops mode
  | .StartParseStatement => startParseStatement ops mode
  | .StartParseStatementEndStatement => startParseStatementEndStatement ops mode

/-! ## 3. The loop -/

/-- One turn of the `while (1)` loop.  After a `break` it takes the next state from `stateStack`, or
returns `lastValue` if there is none. -/
def turn : Control ν → Control ν ⊕ (Option (JSValue ν) × LiteralParser ν)
  | .goto state m => .inl (step ops mode state m)
  | .ret value m => .inr (value, m.parser)
  | .leave m =>
    match m.stateStack with
    | [] => .inr (m.lastValue, m.parser)
    | state :: rest => .inl (step ops mode state { m with stateStack := rest })

/-- The number of turns `parse` is given: the text from the current token on bounds it. -/
def turnBound (l : Lexer ν) : Nat := 4 * (l.currentToken.text.length + l.ptr.length) + 8

/-- `LiteralParser::parse(initialState)`. -/
def LiteralParser.parse (initialState : ParserState) (p : LiteralParser ν) :
    Option (JSValue ν) × LiteralParser ν :=
  (Iteration.run (turn ops mode) (turnBound p.lexer)
    (.goto initialState ⟨p, [], none, [], []⟩)).getD (none, p)

def LiteralParser.tryLiteralParse (p : LiteralParser ν) : Option (JSValue ν) × LiteralParser ν :=
  let p := p.advance ops mode
  let (result, p) :=
    p.parse ops mode (if mode = .StrictJSON then .StartParseExpression else .StartParseStatement)
  let p := if p.tokenType = .TokSemi then p.advance ops mode else p
  if p.tokenType ≠ .TokEnd then (none, p) else (result, p)

/-- `LiteralParser(exec, text, length, mode).tryLiteralParse()`. -/
def literalParse (text : List Nat) : Option (JSValue ν) :=
  ((LiteralParser.ofText text).tryLiteralParse ops mode).1

end Step

end JavaScriptCore.Json
