/-
# The expression parser

`parseExpression` to `parseUnaryExpression` of `parser/Parser.cpp`, with `ASTBuilder` as the tree
builder.  A parser has the tokens still to come and two counters: `m_assignmentCount`, which the
parser reads before and after a part of the text to see whether there was an assignment in it, and
`m_nonLHSCount`, which it reads to see whether an expression can stand on the left of an assignment.

* Every recursion goes through `parseAssignmentExpression`, so the other functions take it as a
  parameter, and `parseAssignmentExpression` itself is defined for a given depth of the stack.
* A save point is the list of tokens.  Going back to one leaves the counters as they are.
* `m_lastIdentifier` is the identifier of the `ResolveNode` just parsed wherever it is read, so the
  checks of strict mode look at the node.
* The parser of statements is a parameter: what it makes of a function, and how far it moves the
  counters.
* The error texts are those of the source; the parser reports the token it found with some of them.
-/
import JavaScriptCore.Parser.Expressions
import JavaScriptCore.Lib.Triples

namespace JavaScriptCore.Parser

open Operations
open Lib.Effects

/-! ## 1. The parser and its tokens -/

/-- The errors.  `stackExhausted` is that of `failIfStackOverflow`. -/
inductive ParserError (N : Type) where
  | unexpectedToken (token : Token N) (message : Option String)
  | semantic (message : String)
  | stackExhausted

/-- What changes while expressions are parsed.  `builder` is the state of the tree builder. -/
structure ParserState (N B : Type) where
  tokens : List (Token N)
  allowsIn : Bool
  assignmentCount : Nat
  nonLHSCount : Nat
  builder : B

/-- The parsing functions. -/
abbrev ParserM (N B α : Type) : Type := ExceptT (ParserError N) (StateM (ParserState N B)) α

inductive FunctionParseMode where
  | functionMode | getterMode | setterMode
  deriving DecidableEq, Repr

/-- What the parser of a function gives: the function and the tokens after it or an error, and what
it adds to the two counters. -/
structure FunctionOutcome (N F : Type) where
  result : Except (ParserError N) (F × List (Token N))
  assignments : Nat
  nonLHS : Nat

/-- What does not change while expressions are parsed.  `parseFunction` reads a function from its
name on. -/
structure ParserConfig (N F : Type) where
  strictMode : Bool
  syntaxAlreadyValidated : Bool
  arithmetic : NumberArithmetic N
  isZeroOrUnordered : N → Bool
  numericIdentifier : N → String
  tokenText : Token N → String
  parseFunction : FunctionParseMode → List (Token N) → FunctionOutcome N F

section Tokens

variable {N B : Type}

/-- The token is this punctuation. -/
def Token.is (p : Punctuation) : Token N → Bool
  | .punctuation q => q == p
  | _ => false

/-- `m_token`. -/
def ParserState.token (s : ParserState N B) : Token N := s.tokens.headD (.punctuation .eof)

/-- `m_token`. -/
def token : ParserM N B (Token N) := do return (← get).token

def next : ParserM N B Unit := modify fun s => { s with tokens := s.tokens.tail }

/-- Under `LexerFlagsIgnoreReservedWords` a keyword is an identifier. -/
def ignoreReservedWords : List (Token N) → List (Token N)
  | .keyword k :: tokens => .ident k.name :: tokens
  | tokens => tokens

/-- `nextExpectIdentifier(LexerFlagsIgnoreReservedWords)`. -/
def nextExpectIdentifier : ParserM N B Unit :=
  modify fun s => { s with tokens := ignoreReservedWords s.tokens.tail }

/-- The value of `m_assignmentCount`. -/
def assignmentCount : ParserM N B Nat := do return (← get).assignmentCount

/-- `m_assignmentCount++`. -/
def countAssignment : ParserM N B Unit :=
  modify fun s => { s with assignmentCount := s.assignmentCount + 1 }

/-- The value of `m_nonLHSCount`. -/
def nonLHSCount : ParserM N B Nat := do return (← get).nonLHSCount

/-- `m_nonLHSCount++`. -/
def countNonLHS : ParserM N B Unit := modify fun s => { s with nonLHSCount := s.nonLHSCount + 1 }

/-- `m_nonLHSCount = count`. -/
def setNonLHSCount (count : Nat) : ParserM N B Unit :=
  modify fun s => { s with nonLHSCount := count }

def createSavePoint : ParserM N B (List (Token N)) := do return (← get).tokens

def restoreSavePoint (tokens : List (Token N)) : ParserM N B Unit :=
  modify fun s => { s with tokens := tokens }

def failDueToUnexpectedToken {α : Type} : ParserM N B α :=
  do throw (.unexpectedToken (← token) none)

/-- `failWithMessage`: at the end of the text and at an invalid token the message is that token. -/
def failWithMessage {α : Type} (message : String) : ParserM N B α := do
  let t ← token
  throw (.unexpectedToken t (if t.is .eof || t.is .errorToken then none else some message))

def semanticFail {α : Type} (message : String) : ParserM N B α := throw (.semantic message)

def semanticFailIfTrue (condition : Bool) (message : String) : ParserM N B Unit :=
  if condition then semanticFail message else pure ()

def consumeOrFail (p : Punctuation) (message : String) : ParserM N B Unit := do
  let t ← token
  if t.is p then next else failWithMessage message

def handleProductionOrFail (p : Punctuation) (text operation production : String) :
    ParserM N B Unit :=
  consumeOrFail p ("Expected '" ++ text ++ "' to " ++ operation ++ " a " ++ production)

/-- A `while` loop of the parser.  Every round of one takes at least one token. -/
def whileTokens {α β : Type} (round : β → ParserM N B (β ⊕ α)) (b : β) : ParserM N B α := do
  let s ← get
  loop .stackExhausted round (s.tokens.length + 1) b

end Tokens

/-! ## 2. Patterns -/

section Patterns

variable {N : Type} (numericIdentifier : N → String)

/-- The name of a property in an object pattern, other than an identifier. -/
def patternPropertyName : Token N → Option (String × Bool)
  | .number value => some (numericIdentifier value, false)
  | .string value => some (value, true)
  | .keyword k => some (k.name, false)
  | _ => none

mutual

/-- `parseDeconstructionPattern` with `DeconstructToExpressions`, which fails silently. -/
def parseDeconstructionPattern : Nat → List (Token N) → Option (Pattern × List (Token N))
  | 0, _ => none
  | depth + 1, .punctuation .openBracket :: tokens =>
    match parseArrayPattern depth tokens with
    | some (entries, .punctuation .closeBracket :: rest) => some (.array entries, rest)
    | _ => none
  | depth + 1, .punctuation .openBrace :: tokens =>
    match parseObjectPattern depth false tokens with
    | some (entries, .punctuation .closeBrace :: rest) => some (.object entries, rest)
    | _ => none
  | _ + 1, .ident name :: tokens => some (.binding name, tokens)
  | _ + 1, _ => none

/-- The entries of an array pattern. -/
def parseArrayPattern : Nat → List (Token N) → Option (PatternList × List (Token N))
  | 0, _ => none
  | depth + 1, .punctuation .comma :: tokens =>
    match parseArrayPattern depth tokens with
    | some (entries, rest) => some (.skip entries, rest)
    | none => none
  | depth + 1, tokens =>
    match parseDeconstructionPattern depth tokens with
    | some (pattern, .punctuation .comma :: tokens') =>
      match parseArrayPattern depth tokens' with
      | some (entries, rest) => some (.index pattern entries, rest)
      | none => none
    | some (pattern, rest) => some (.index pattern .nil, rest)
    | none => none

/-- The entries of an object pattern.  `wasString` stays set after the first name that is a string.
-/
def parseObjectPattern : Nat → Bool → List (Token N) → Option (PatternList × List (Token N))
  | 0, _, _ => none
  | depth + 1, wasString, .ident name :: .punctuation .colon :: tokens =>
    parseObjectPatternEntry depth wasString name (parseDeconstructionPattern depth tokens)
  | depth + 1, wasString, .ident name :: tokens =>
    parseObjectPatternEntry depth wasString name (some (.binding name, tokens))
  | depth + 1, wasString, t :: .punctuation .colon :: tokens =>
    match patternPropertyName numericIdentifier t with
    | some (name, isString) =>
      parseObjectPatternEntry depth (wasString || isString) name
        (parseDeconstructionPattern depth tokens)
    | none => none
  | _ + 1, _, _ => none

/-- The rest of an object pattern after the pattern of one entry. -/
def parseObjectPatternEntry : Nat → Bool → String → Option (Pattern × List (Token N)) →
    Option (PatternList × List (Token N))
  | 0, _, _, _ => none
  | depth + 1, wasString, name, some (pattern, .punctuation .comma :: tokens) =>
    match parseObjectPattern depth wasString tokens with
    | some (entries, rest) => some (.property name wasString pattern entries, rest)
    | none => none
  | _ + 1, wasString, name, some (pattern, rest) =>
    some (.property name wasString pattern .nil, rest)
  | _ + 1, _, _, none => none

end

end Patterns

/-! ## 3. The parts of an expression -/

section Productions

variable {N F B : Type} (config : ParserConfig N F)

/-- `parseFunctionInfo`: the counters are saved before the body of the function and restored after
it. -/
def parseFunctionInfo (mode : FunctionParseMode) : ParserM N B F := do
  let oldState ← get
  let outcome := config.parseFunction mode oldState.tokens
  modify fun s => { s with assignmentCount := s.assignmentCount + outcome.assignments
                           nonLHSCount := s.nonLHSCount + outcome.nonLHS }
  modify fun s => { s with assignmentCount := oldState.assignmentCount
                           nonLHSCount := oldState.nonLHSCount }
  match outcome.result with
  | .ok (body, rest) => do
    restoreSavePoint rest
    pure body
  | .error e => throw e

variable (assignment : ParserM N B (Expression N F))

def parseExpression : ParserM N B (Expression N F) := do
  let node ← assignment
  if (← token).is .comma then
    next
    countNonLHS
    let right ← assignment
    whileTokens
      (fun commaNode => do
        if (← token).is .comma then
          next
          let right ← assignment
          pure (.inl (.comma commaNode right))
        else pure (.inr commaNode))
      (.comma node right)
  else pure node

/-- An expression whose effect on `m_nonLHSCount` is undone, unless it fails. -/
def keepingNonLHSCount {α : Type} (parse : ParserM N B α) : ParserM N B α := do
  let oldNonLHSCount ← nonLHSCount
  let result ← parse
  setNonLHSCount oldNonLHSCount
  pure result

/-- An expression whose effect on `m_nonLHSCount` is undone even if it fails; an attempt at a
destructuring assignment may go on after that. -/
def restoringNonLHSCount {α : Type} (parse : ParserM N B α) : ParserM N B α :=
  ofOutcome fun s =>
    let (result, s') := outcome parse s
    (result, { s' with nonLHSCount := s.nonLHSCount })

/-- An expression, and whether `m_assignmentCount` changed in it. -/
def countingAssignments {α : Type} (parse : ParserM N B α) : ParserM N B (α × Bool) := do
  let initialAssignments ← assignmentCount
  let result ← parse
  let assignments ← assignmentCount
  pure (result, initialAssignments != assignments)

/-- A `...` in front of an argument or an element, and the expression after it. -/
def parseSpread : ParserM N B (Bool × Expression N F) := do
  if (← token).is .dotDotDot then
    next
    let expr ← assignment
    pure (true, expr)
  else
    let expr ← assignment
    pure (false, expr)

/-- The rest of an argument list. -/
def parseArgumentsTail (args : EntryList N F) : ParserM N B (EntryList N F) :=
  whileTokens
    (fun args => do
      if (← token).is .comma then
        next
        let arg ← assignment
        pure (.inl (args.append .argument arg))
      else pure (.inr args))
    args

def parseArguments (allowSpread : Bool) : ParserM N B (EntryList N F) := do
  consumeOrFail .openParen "Expected opening '(' at start of argument list"
  let t ← token
  if t.is .closeParen then
    next
    pure .nil
  else if t.is .dotDotDot && allowSpread then
    next
    let spread ← assignment
    let t ← token
    semanticFailIfTrue (t.is .comma)
      "Spread operator may only be applied to the last argument passed to a function"
    handleProductionOrFail .closeParen ")" "end" "argument list"
    pure (.cons .spread spread .nil)
  else
    let firstArg ← assignment
    let args ← parseArgumentsTail assignment (.cons .argument firstArg .nil)
    let t ← token
    semanticFailIfTrue (t.is .dotDotDot)
      "The '...' operator should come before the target expression"
    handleProductionOrFail .closeParen ")" "end" "argument list"
    pure args

/-- The commas in front of an element. -/
def parseElisions : ParserM N B Nat :=
  whileTokens
    (fun elisions => do
      if (← token).is .comma then
        next
        pure (.inl (elisions + 1))
      else pure (.inr elisions))
    0

/-- An element of an array literal. -/
def parseElement (elisions : Nat) : ParserM N B (EntryKind × Expression N F) := do
  let (spread, elem) ← parseSpread assignment
  pure (if spread then .spreadElement elisions else .element elisions, elem)

/-- One more element of an array literal.  At a `]` after a comma the result has the number of
elisions. -/
def parseElementRound (elements : EntryList N F) :
    ParserM N B (EntryList N F ⊕ (EntryList N F × Option Nat)) := do
  if (← token).is .comma then
    next
    let elisions ← parseElisions
    if (← token).is .closeBracket then
      next
      pure (.inr (elements, some elisions))
    else
      let (kind, elem) ← parseElement assignment elisions
      pure (.inl (elements.append kind elem))
  else pure (.inr (elements, none))

/-- The rest of an array literal after its first element. -/
def parseElements (elements : EntryList N F) : ParserM N B (EntryList N F × Option Nat) :=
  whileTokens (parseElementRound assignment) elements

/-- `parseArrayLiteral`.  After a trailing comma `m_nonLHSCount` is left as it is. -/
def parseArrayLiteral : ParserM N B (Expression N F) := do
  consumeOrFail .openBracket "Expected an opening '[' at the beginning of an array literal"
  let oldNonLHSCount ← nonLHSCount
  let elisions ← parseElisions
  if (← token).is .closeBracket then
    next
    pure (.array .nil (some elisions))
  else
    let (kind, elem) ← parseElement assignment elisions
    match ← parseElements assignment (.cons kind elem .nil) with
    | (elements, some elisions) => pure (.array elements (some elisions))
    | (elements, none) =>
      let t ← token
      semanticFailIfTrue (t.is .dotDotDot)
        "The '...' operator should come before a target expression"
      consumeOrFail .closeBracket
        "Expected either a closing ']' or a ',' following an array element"
      setNonLHSCount oldNonLHSCount
      pure (.array elements none)

/-- The name of a getter or setter. -/
def accessorName : Token N → Option String
  | .ident name => some name
  | .string value => some value
  | .number value => some (config.numericIdentifier value)
  | _ => none

/-- A getter or setter after its `get` or `set`. -/
def parseAccessor (type : PropertyType) (mode : FunctionParseMode) (description : String) :
    ParserM N B (Property N F) := do
  match accessorName config (← token) with
  | some name =>
    next
    if (← token).is .openParen then
      let body ← parseFunctionInfo config mode
      pure (.named name type (.function body))
    else failWithMessage ("Expected a parameter list for " ++ description ++ " definition")
  | none => failDueToUnexpectedToken

/-- A property whose name is an identifier, a keyword or a string. -/
def parseNamedProperty (name : String) (wasIdent : Bool) : ParserM N B (Property N F) := do
  nextExpectIdentifier
  if (← token).is .colon then
    next
    let node ← assignment
    pure (.named name .constant node)
  else if !wasIdent then failWithMessage "Expected an identifier as property name"
  else if name == "get" then parseAccessor config .getter .getterMode "getter"
  else if name == "set" then parseAccessor config .setter .setterMode "setter"
  else failWithMessage ("Expected a ':' following the property name '" ++ name ++ "'")

/-- `parseProperty`.  A keyword goes to the case of identifiers. -/
def parseProperty : ParserM N B (Property N F) := do
  match ← token with
  | .ident name => parseNamedProperty config assignment name true
  | .string value => parseNamedProperty config assignment value false
  | .keyword k => parseNamedProperty config assignment k.name true
  | .number value =>
    next
    consumeOrFail .colon "Expected ':' after property name"
    let node ← assignment
    pure (.named (config.numericIdentifier value) .constant node)
  | .punctuation .openBracket =>
    next
    let name ← parseExpression assignment
    handleProductionOrFail .closeBracket "]" "end" "computed property name"
    consumeOrFail .colon "Expected ':' after property name"
    let node ← assignment
    pure (.computed name node)
  | _ => failWithMessage "Expected a property name"

/-- A getter or setter, if the syntax has not been validated before: then `parseObjectLiteral`
starts again. -/
def mustValidate (property : Property N F) : Bool :=
  !config.syntaxAlreadyValidated && property.type != .constant

/-- One more property of an object literal.  There is no result at a getter or setter. -/
def parseConstantPropertyRound (properties : EntryList N F) :
    ParserM N B (EntryList N F ⊕ Option (EntryList N F)) := do
  if (← token).is .comma then
    next
    -- An extra comma is allowed.
    if (← token).is .closeBrace then pure (.inr (some properties))
    else
      let property ← parseProperty config assignment
      if mustValidate config property then pure (.inr none)
      else pure (.inl (property.appendTo properties))
  else pure (.inr (some properties))

/-- The properties of an object literal, up to a getter or setter. -/
def parseConstantProperties : ParserM N B (Option (EntryList N F)) := do
  let property ← parseProperty config assignment
  if mustValidate config property then pure none
  else whileTokens (parseConstantPropertyRound config assignment) (property.appendTo .nil)

/-- What `objectValidator` knows of the properties so far. -/
abbrev ObjectValidationMap : Type := List (String × PropertyType)

/-- A property redefines an earlier one, unless the two are the getter and the setter of one name.
-/
def ObjectValidationMap.conflicts (declared : ObjectValidationMap) (name : String)
    (type : PropertyType) :
    Bool :=
  declared.any fun entry =>
    entry.1 == name && (entry.2 == .constant || type == .constant || entry.2 == type)

/-- Adds a property to `objectValidator`. -/
def validateProperty (declared : ObjectValidationMap) (property : Property N F) :
    ParserM N B ObjectValidationMap :=
  match property.name with
  | some name =>
    if config.syntaxAlreadyValidated then pure declared
    else if declared.conflicts name property.type then
      semanticFail ("Attempted to redefine property '" ++ name ++ "'")
    else pure ((name, property.type) :: declared)
  | none => pure declared

/-- One more property of an object literal, which may not redefine an earlier one. -/
def parseValidatedPropertyRound : EntryList N F × ObjectValidationMap →
    ParserM N B ((EntryList N F × ObjectValidationMap) ⊕ EntryList N F)
  | (properties, declared) => do
    if (← token).is .comma then
      next
      if (← token).is .closeBrace then pure (.inr properties)
      else
        let property ← parseProperty config assignment
        let declared ← validateProperty config declared property
        pure (.inl (property.appendTo properties, declared))
    else pure (.inr properties)

/-- The properties of an object literal, none of which may redefine an earlier one. -/
def parseValidatedProperties : ParserM N B (EntryList N F) := do
  let property ← parseProperty config assignment
  let declared ← validateProperty config [] property
  whileTokens (parseValidatedPropertyRound config assignment) (property.appendTo .nil, declared)

def parseStrictObjectLiteral : ParserM N B (Expression N F) := do
  consumeOrFail .openBrace "Expected opening '\x7b' at the start of an object literal"
  let oldNonLHSCount ← nonLHSCount
  if (← token).is .closeBrace then
    next
    pure (.object .nil)
  else
    let properties ← parseValidatedProperties config assignment
    handleProductionOrFail .closeBrace "\x7d" "end" "object literal"
    setNonLHSCount oldNonLHSCount
    pure (.object properties)

/-- `parseObjectLiteral`.  At a getter or setter it starts again, as `parseStrictObjectLiteral`. -/
def parseObjectLiteral : ParserM N B (Expression N F) := do
  let savePoint ← createSavePoint
  consumeOrFail .openBrace "Expected opening '\x7b' at the start of an object literal"
  let oldNonLHSCount ← nonLHSCount
  if (← token).is .closeBrace then
    next
    pure (.object .nil)
  else
    match ← parseConstantProperties config assignment with
    | none =>
      restoreSavePoint savePoint
      parseStrictObjectLiteral config assignment
    | some properties =>
      handleProductionOrFail .closeBrace "\x7d" "end" "object literal"
      setNonLHSCount oldNonLHSCount
      pure (.object properties)

/-- The expression that a token is by itself. -/
def atom : Token N → Option (Expression N F)
  | .keyword .thisToken => some .this
  | .ident name => some (.resolve name)
  | .string value => some (.constant (.string (ascii value)))
  | .number value => some (.number value)
  | .keyword .nullToken => some (.constant .null)
  | .keyword .trueToken => some (.constant (.boolean true))
  | .keyword .falseToken => some (.constant (.boolean false))
  | .regExp pattern flags => some (.regExp pattern flags)
  | _ => none

/-- `parsePrimaryExpression`.  A `/` or `/=` that is still a token begins no regular expression. -/
def parsePrimaryExpression : ParserM N B (Expression N F) := do
  match ← token with
  | .punctuation .openBrace =>
    if config.strictMode then parseStrictObjectLiteral config assignment
    else parseObjectLiteral config assignment
  | .punctuation .openBracket => parseArrayLiteral assignment
  | .punctuation .openParen =>
    next
    let result ← restoringNonLHSCount (parseExpression assignment)
    handleProductionOrFail .closeParen ")" "end" "compound expression"
    pure result
  | .punctuation .divide => failWithMessage "Invalid regular expression"
  | .punctuation .divEqual => failWithMessage "Invalid regular expression"
  | t =>
    match atom t with
    | some e =>
      next
      pure e
    | none => failDueToUnexpectedToken

/-- The number of `new` at the beginning of a member expression. -/
def parseNewCount : ParserM N B Nat :=
  whileTokens
    (fun newCount => do
      match ← token with
      | .keyword .newToken =>
        next
        pure (.inl (newCount + 1))
      | _ => pure (.inr newCount))
    0

/-- The base of a member expression. -/
def parseMemberBase : ParserM N B (Expression N F) := do
  match ← token with
  | .keyword .functionToken =>
    next
    let body ← parseFunctionInfo config .functionMode
    pure (.function body)
  | _ => parsePrimaryExpression config assignment

/-- One subscript, argument list or property name of a member expression. -/
def parseMemberSuffix : Expression N F × Nat →
    ParserM N B ((Expression N F × Nat) ⊕ (Expression N F × Nat))
  | (base, newCount) => do
    match ← token with
    | .punctuation .openBracket =>
      next
      let base ← keepingNonLHSCount do
        let (property, subscriptHasAssignments) ← countingAssignments (parseExpression assignment)
        handleProductionOrFail .closeBracket "]" "end" "subscript expression"
        pure (Expression.bracketAccess base property subscriptHasAssignments)
      pure (.inl (base, newCount))
    | .punctuation .openParen =>
      if newCount == 0 then
        let args ← keepingNonLHSCount (parseArguments assignment true)
        pure (.inl (.functionCall base args, newCount))
      else
        let args ← keepingNonLHSCount (parseArguments assignment false)
        pure (.inl (.newExpr base args, newCount - 1))
    | .punctuation .dot =>
      nextExpectIdentifier
      match ← token with
      | .ident name =>
        next
        pure (.inl (.dotAccess base name, newCount))
      | _ => failWithMessage "Expected a property name after '.'"
    | _ => pure (.inr (base, newCount))

/-- The `new` expressions without arguments around a member expression. -/
def createNewExprs : Nat → Expression N F → Expression N F
  | 0, base => base
  | newCount + 1, base => createNewExprs newCount (.newExpr base .nil)

def parseMemberExpression : ParserM N B (Expression N F) := do
  let newCount ← parseNewCount
  let base ← parseMemberBase config assignment
  let (base, newCount) ← whileTokens (parseMemberSuffix assignment) (base, newCount)
  pure (createNewExprs newCount base)

/-! ## 4. Unary and binary operators -/

def operatorString (isPrefix : Bool) : UnaryToken → String
  | .minusMinus | .autoMinusMinus => if isPrefix then "prefix-decrement" else "decrement"
  | .plusPlus | .autoPlusPlus => if isPrefix then "prefix-increment" else "increment"
  | .exclamation => "logical-not"
  | .tilde => "bitwise-not"
  | .typeofToken => "typeof"
  | .voidToken => "void"
  | .deleteToken => "delete"
  | .plus | .minus => "error"

/-- The unary operator changes its operand. -/
def UnaryToken.modifies : UnaryToken → Bool
  | .plusPlus | .minusMinus | .autoPlusPlus | .autoMinusMinus => true
  | _ => false

/-- The unary operator needs a reference, in strict mode. -/
def UnaryToken.requiresLExpr (op : UnaryToken) : Bool := op.modifies || op == .deleteToken

/-- The unary operators at the beginning of an expression, the last one first. -/
def parseUnaryTokens : ParserM N B (List UnaryToken) :=
  whileTokens
    (fun operators => do
      match (← token).unaryOperator with
      | some op =>
        semanticFailIfTrue (config.strictMode && operators.any UnaryToken.requiresLExpr)
          ("The " ++ operatorString true (operators.headD .plus) ++
            " operator requires a reference expression")
        countNonLHS
        next
        pure (.inl (op :: operators))
      | none => pure (.inr operators))
    []

/-- The expression is the identifier `eval` or `arguments`, which strict mode protects. -/
def isEvalOrArguments (expr : Expression N F) : Bool :=
  config.strictMode && !config.syntaxAlreadyValidated &&
    (expr.resolveIdentifier == some "eval" || expr.resolveIdentifier == some "arguments")

/-- A `++` or `--` after an expression. -/
def parsePostfix (op : IncrementOperator) (strictMessage : String → String)
    (operators : List UnaryToken) (expr : Expression N F) : ParserM N B (Expression N F) := do
  countNonLHS
  countAssignment
  semanticFailIfTrue (isEvalOrArguments config expr)
    (strictMessage (expr.resolveIdentifier.getD ""))
  semanticFailIfTrue (config.strictMode && operators.any UnaryToken.requiresLExpr)
    ("The " ++ operatorString false (operators.headD .plus) ++
      " operator requires a reference expression")
  next
  pure (.postfixNode op expr)

/-- Puts one unary operator in front of an expression. -/
def applyUnaryToken (op : UnaryToken) (expr : Expression N F) : ParserM N B (Expression N F) :=
  match op with
  | .exclamation => pure (expr.createLogicalNot config.isZeroOrUnordered)
  | .tilde => pure (expr.makeBitwiseNotNode config.arithmetic)
  | .minus => pure (expr.makeNegateNode config.arithmetic)
  | .plus => pure (.unaryPlus expr)
  | .plusPlus | .autoPlusPlus => do
    countAssignment
    pure (.prefixNode .opPlusPlus expr)
  | .minusMinus | .autoMinusMinus => do
    countAssignment
    pure (.prefixNode .opMinusMinus expr)
  | .typeofToken => pure (.unary .typeOf expr)
  | .voidToken => pure (.unary .void expr)
  | .deleteToken => do
    semanticFailIfTrue (config.strictMode && expr.resolveIdentifier.isSome)
      ("Cannot delete unqualified property '" ++ expr.resolveIdentifier.getD "" ++
        "' in strict mode")
    pure (.unary .delete expr)

/-- Puts the unary operators in front of an expression, the last one first. -/
def applyUnaryTokens : List UnaryToken → Expression N F → ParserM N B (Expression N F)
  | [], expr => pure expr
  | op :: operators, expr => do
    let expr ← applyUnaryToken config op expr
    applyUnaryTokens operators expr

/-- The operand of the unary operators, with a `++` or `--` after it. -/
def parsePostfixExpression (operators : List UnaryToken) : ParserM N B (Expression N F) := do
  let expr ← parseMemberExpression config assignment
  semanticFailIfTrue (isEvalOrArguments config expr && operators.any UnaryToken.modifies)
    ("Cannot modify '" ++ expr.resolveIdentifier.getD "" ++ "' in strict mode")
  match ← token with
  | .punctuation .plusPlus =>
    parsePostfix config .opPlusPlus (fun name => "Cannot modify '" ++ name ++ "' in strict mode")
      operators expr
  | .punctuation .minusMinus =>
    parsePostfix config .opMinusMinus (fun name => "'" ++ name ++
      "' cannot be modified in strict mode")
      operators expr
  | _ => pure expr

/-- `parseUnaryExpression`.  `AllowInOverride` allows `in` inside. -/
def parseUnaryExpression : ParserM N B (Expression N F) := do
  let s ← get
  afterwards (fun t => { t with allowsIn := s.allowsIn }) do
    modify fun t => { t with allowsIn := true }
    let operators ← parseUnaryTokens config
    let expr ← parsePostfixExpression config assignment operators
    applyUnaryTokens config operators expr

/-- `BinaryOperand`: an expression, and whether there are assignments in it. -/
abbrev BinaryOperand (N F : Type) : Type := Expression N F × Bool

def appendBinaryOperation (op : BinaryToken) (lhs rhs : BinaryOperand N F) : BinaryOperand N F :=
  (lhs.1.makeBinaryNode config.arithmetic op rhs.1 rhs.2, lhs.2 || rhs.2)

/-- Builds the operations whose operators have at least the given precedence.  The last operand and
the last operator come first. -/
def reduceOperations (precedence : Nat) : List BinaryToken → List (BinaryOperand N F) →
    List BinaryToken × List (BinaryOperand N F)
  | op :: operators, rhs :: lhs :: operands =>
    if precedence ≤ op.precedence then
      reduceOperations precedence operators (appendBinaryOperation config op lhs rhs :: operands)
    else (op :: operators, rhs :: lhs :: operands)
  | operators, operands => (operators, operands)

/-- One operand and the operator after it. -/
def parseBinaryRound : List BinaryToken × List (BinaryOperand N F) →
    ParserM N B ((List BinaryToken × List (BinaryOperand N F)) ⊕
      (List BinaryToken × List (BinaryOperand N F)))
  | (operators, operands) => do
    let current ← countingAssignments (parseUnaryExpression config assignment)
    let s ← get
    match s.token.binaryOperator s.allowsIn with
    | none => pure (.inr (operators, current :: operands))
    | some op =>
      countNonLHS
      next
      match reduceOperations config op.precedence operators (current :: operands) with
      | (operators, operands) => pure (.inl (op :: operators, operands))

def parseBinaryExpression : ParserM N B (Expression N F) := do
  let (operators, operands) ← whileTokens (parseBinaryRound config assignment) ([], [])
  match reduceOperations config 0 operators operands with
  | (_, (result, _) :: _) => pure result
  | (_, []) => throw .stackExhausted

variable (binary : ParserM N B (Expression N F))

/-- `parseConditionalExpression`, given `parseBinaryExpression`. -/
def parseConditionalExpression : ParserM N B (Expression N F) := do
  let cond ← binary
  if (← token).is .question then
    countNonLHS
    next
    let lhs ← assignment
    consumeOrFail .colon "Expected ':' in ternary operator"
    let rhs ← assignment
    pure (.conditional cond lhs rhs)
  else pure cond

/-! ## 5. Assignments -/

/-- `AssignmentInfo`: what stands on the left of an assignment. -/
structure AssignmentInfo (N F : Type) where
  node : Expression N F
  initAssignments : Nat
  op : AssignmentOperator

/-- A destructuring assignment: a pattern, `=` and an expression.  Otherwise the parser goes back.
-/
def parseDeconstructingAssignment : ParserM N B (Option (Expression N F)) := do
  let savePoint ← createSavePoint
  match parseDeconstructionPattern config.numericIdentifier (2 * savePoint.length) savePoint with
  | some (pattern, .punctuation .equal :: rest) =>
    restoreSavePoint rest
    match ← attempt assignment with
    | some rhs => pure (some (.deconstructingAssignment pattern rhs))
    | none =>
      restoreSavePoint savePoint
      pure none
  | _ => pure none

/-- The attempt at a destructuring assignment, which only a `\x7b` or `[` can begin. -/
def tryDeconstructingAssignment : ParserM N B (Option (Expression N F)) := do
  let t ← token
  if t.is .openBrace || t.is .openBracket then parseDeconstructingAssignment config assignment
  else pure none

/-- The error for an assignment to something else than a reference. -/
def failIfAssignment : ParserM N B Unit := do
  let t ← token
  semanticFailIfTrue t.assignmentOperator.isSome
    ("Left hand side of operator '" ++ config.tokenText t ++ "' must be a reference")

/-- One assignment operator and its right hand side, which then is the next left hand side. -/
def parseAssignmentRound (initialNonLHSCount : Nat) : Expression N F × List (AssignmentInfo N F) →
    ParserM N B ((Expression N F × List (AssignmentInfo N F)) ⊕
      (Expression N F × List (AssignmentInfo N F)))
  | (lhs, assignmentStack) => do
    match (← token).assignmentOperator with
    | none => pure (.inr (lhs, assignmentStack))
    | some op =>
      let assignments ← assignmentCount
      let assignmentStack := ⟨lhs, assignments, op⟩ :: assignmentStack
      countAssignment
      next
      semanticFailIfTrue (config.strictMode && lhs.resolveIdentifier == some "eval")
        "Cannot modify 'eval' in strict mode"
      semanticFailIfTrue (config.strictMode && lhs.resolveIdentifier == some "arguments")
        "Cannot modify 'arguments' in strict mode"
      let rhs ← assignment
      let count ← nonLHSCount
      if initialNonLHSCount != count then
        failIfAssignment config
        pure (.inr (rhs, assignmentStack))
      else pure (.inl (rhs, assignmentStack))

/-- `createAssignment`, for every assignment on the stack. -/
def createAssignments (initialAssignmentCount currentAssignmentCount : Nat) :
    List (AssignmentInfo N F) → Expression N F → Expression N F
  | [], rhs => rhs
  | info :: assignmentStack, rhs =>
    createAssignments initialAssignmentCount currentAssignmentCount assignmentStack
      (info.node.makeAssignNode info.op rhs (info.initAssignments != initialAssignmentCount)
        (info.initAssignments != currentAssignmentCount))

/-- The assignments after a left hand side. -/
def parseAssignments (initialAssignmentCount initialNonLHSCount : Nat) (lhs : Expression N F) :
    ParserM N B (Expression N F) := do
  let (rhs, assignmentStack) ← whileTokens (parseAssignmentRound config assignment
    initialNonLHSCount) (lhs, [])
  let currentAssignmentCount ← assignmentCount
  if assignmentStack.isEmpty then pure rhs
  else
    countNonLHS
    pure (createAssignments initialAssignmentCount currentAssignmentCount assignmentStack rhs)

/-- The part of `parseAssignmentExpression` after the attempt. -/
def parseReferenceAssignment (initialAssignmentCount initialNonLHSCount : Nat) :
    ParserM N B (Expression N F) := do
  let lhs ← parseConditionalExpression assignment binary
  let count ← nonLHSCount
  if initialNonLHSCount != count then
    failIfAssignment config
    pure lhs
  else parseAssignments config assignment initialAssignmentCount initialNonLHSCount lhs

/-- `parseAssignmentExpression`, given itself for the expressions inside and
`parseBinaryExpression`. -/
def parseAssignmentExpressionWith : ParserM N B (Expression N F) := do
  let initial ← get
  match ← tryDeconstructingAssignment config assignment with
  | some e => pure e
  | none =>
    parseReferenceAssignment config assignment binary initial.assignmentCount initial.nonLHSCount

end Productions

/-- `parseAssignmentExpression`, with a stack for so many calls inside each other. -/
def parseAssignmentExpression {N F B : Type} (config : ParserConfig N F) :
    Nat → ParserM N B (Expression N F)
  | 0 => throw .stackExhausted
  | depth + 1 =>
    parseAssignmentExpressionWith config (parseAssignmentExpression config depth)
      (parseBinaryExpression config (parseAssignmentExpression config depth))

end JavaScriptCore.Parser
