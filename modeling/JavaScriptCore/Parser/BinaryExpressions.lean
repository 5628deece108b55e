/-
# Binary expressions on the stacks of the tree builder

`parseBinaryExpression` of `parser/Parser.cpp` keeps the operands and operators it has not yet
combined on two stacks of the `ASTBuilder`, `m_binaryOperandStack` and `m_binaryOperatorStack`.
There is one pair of stacks for the whole parse: an expression inside an operand puts its operands
and operators on top of those of the expression around it, and each call only counts how many
entries are its own.

* The precedence of an operator is a part of its token type, so the types are here, with the
  encoding of `parser/ParserTokens.h`.  A regular expression is one token here and none there: it
  has the type after the last one that is used.
* Nothing puts the stacks back after an error.  When an attempt at a destructuring assignment fails
  inside an operand, the entries of the attempt stay where they are.
* The source asserts that there are two operands wherever it takes two; `reduceTop` does nothing
  otherwise.

`ExpressionParser.lean` has the same function with lists of its own.
-/
import JavaScriptCore.Parser.ExpressionParser

namespace JavaScriptCore.Parser

open Operations
open Lib.Effects

/-! ## 1. Token types -/

def unaryOpTokenFlag : Nat := 64

def keywordTokenFlag : Nat := 128

def binaryOpTokenPrecedenceShift : Nat := 8

def binaryOpTokenAllowsInPrecedenceAdditionalShift : Nat := 4

def binaryOpTokenPrecedenceMask : Nat := 15 <<< binaryOpTokenPrecedenceShift

def errorTokenFlag : Nat :=
  1 <<< (binaryOpTokenAllowsInPrecedenceAdditionalShift + binaryOpTokenPrecedenceShift + 7)

/-- `IN_OP_PRECEDENCE`. -/
def inOpPrecedence (prec : Nat) : Nat :=
  prec <<< (binaryOpTokenPrecedenceShift + binaryOpTokenAllowsInPrecedenceAdditionalShift)

/-- `BINARY_OP_PRECEDENCE`. -/
def binaryOpPrecedence (prec : Nat) : Nat :=
  prec <<< binaryOpTokenPrecedenceShift ||| inOpPrecedence prec

/-- The type of a token without data. -/
def Punctuation.type : Punctuation → Nat
  | .openBrace => 0
  | .closeBrace => 1
  | .openParen => 2
  | .closeParen => 3
  | .openBracket => 4
  | .closeBracket => 5
  | .comma => 6
  | .question => 7
  | .semicolon => 11
  | .colon => 12
  | .dot => 13
  | .eof => 14
  | .equal => 15
  | .plusEqual => 16
  | .minusEqual => 17
  | .multEqual => 18
  | .divEqual => 19
  | .lshiftEqual => 20
  | .rshiftEqual => 21
  | .urshiftEqual => 22
  | .andEqual => 23
  | .modEqual => 24
  | .xorEqual => 25
  | .orEqual => 26
  | .dotDotDot => 27
  | .plusPlus => 0 ||| unaryOpTokenFlag
  | .minusMinus => 1 ||| unaryOpTokenFlag
  | .exclamation => 2 ||| unaryOpTokenFlag
  | .tilde => 3 ||| unaryOpTokenFlag
  | .autoPlusPlus => 4 ||| unaryOpTokenFlag
  | .autoMinusMinus => 5 ||| unaryOpTokenFlag
  | .or => 0 ||| binaryOpPrecedence 1
  | .and => 1 ||| binaryOpPrecedence 2
  | .bitOr => 2 ||| binaryOpPrecedence 3
  | .bitXOr => 3 ||| binaryOpPrecedence 4
  | .bitAnd => 4 ||| binaryOpPrecedence 5
  | .eqEq => 5 ||| binaryOpPrecedence 6
  | .ne => 6 ||| binaryOpPrecedence 6
  | .strEq => 7 ||| binaryOpPrecedence 6
  | .strNeq => 8 ||| binaryOpPrecedence 6
  | .lt => 9 ||| binaryOpPrecedence 7
  | .gt => 10 ||| binaryOpPrecedence 7
  | .le => 11 ||| binaryOpPrecedence 7
  | .ge => 12 ||| binaryOpPrecedence 7
  | .lshift => 15 ||| binaryOpPrecedence 8
  | .rshift => 16 ||| binaryOpPrecedence 8
  | .urshift => 17 ||| binaryOpPrecedence 8
  | .plus => 18 ||| binaryOpPrecedence 9 ||| unaryOpTokenFlag
  | .minus => 19 ||| binaryOpPrecedence 9 ||| unaryOpTokenFlag
  | .times => 20 ||| binaryOpPrecedence 10
  | .divide => 21 ||| binaryOpPrecedence 10
  | .mod => 22 ||| binaryOpPrecedence 10
  | .errorToken => 0 ||| errorTokenFlag

/-- The keywords without an operator, in the order of the enumeration.  The two places of `RESERVED`
and `RESERVED_IF_STRICT` have no text of their own. -/
def keywordNames : List String :=
  ["null", "true", "false", "break", "case", "default", "for", "new", "var", "const",
    "continue", "function",
    "return", "if", "this", "do", "while", "switch", "with", "", "", "throw", "try",
    "catch", "finally",
    "debugger", "else"]

/-- The place of `RESERVED` in the enumeration. -/
def reservedIndex : Nat := 19

/-- The type of a keyword. -/
def Keyword.type : Keyword → Nat
  | .typeofToken => 6 ||| unaryOpTokenFlag ||| keywordTokenFlag
  | .voidToken => 7 ||| unaryOpTokenFlag ||| keywordTokenFlag
  | .deleteToken => 8 ||| unaryOpTokenFlag ||| keywordTokenFlag
  | .instanceofToken => 13 ||| binaryOpPrecedence 7 ||| keywordTokenFlag
  | .inToken => 14 ||| inOpPrecedence 7 ||| keywordTokenFlag
  | .nullToken => keywordTokenFlag
  | .trueToken => keywordTokenFlag + 1
  | .falseToken => keywordTokenFlag + 2
  | .newToken => keywordTokenFlag + 7
  | .functionToken => keywordTokenFlag + 11
  | .thisToken => keywordTokenFlag + 14
  | .reserved name => keywordTokenFlag + (keywordNames.findIdx? (· == name)).getD reservedIndex

/-- `JSTokenType`. -/
def Token.type {N : Type} : Token N → Nat
  | .number _ => 8
  | .ident _ => 9
  | .string _ => 10
  | .regExp _ _ => 28
  | .keyword k => k.type
  | .punctuation p => p.type

/-- `isBinaryOperator`: the precedence in a token type, or zero. -/
def isBinaryOperator (allowsIn : Bool) (type : Nat) : Nat :=
  if allowsIn then type &&& binaryOpTokenPrecedenceMask
    <<< binaryOpTokenAllowsInPrecedenceAdditionalShift
  else type &&& binaryOpTokenPrecedenceMask

/-! ## 2. The stacks of `ASTBuilder` -/

/-- `m_binaryOperandStack` and `m_binaryOperatorStack`, with the last entries first. -/
structure BinaryStacks (N F : Type) where
  operandStack : List (BinaryOperand N F)
  operatorStack : List (BinaryToken × Nat)

/-- `operandStackDepth` and `operatorStackDepth`: how many entries belong to one expression. -/
structure StackDepths where
  operand : Nat
  operator : Nat
  deriving DecidableEq, Repr

section Stacks

variable {N F : Type}

namespace BinaryStacks

def appendBinaryExpressionInfo (current : BinaryOperand N F) (b : BinaryStacks N F) :
    BinaryStacks N F :=
  { b with operandStack := current :: b.operandStack }

def operatorStackHasHigherPrecedence (precedence : Nat) (b : BinaryStacks N F) : Bool :=
  match b.operatorStack with
  | (_, last) :: _ => decide (precedence ≤ last)
  | [] => false

def operatorStackAppend (op : BinaryToken) (precedence : Nat) (b : BinaryStacks N F) :
    BinaryStacks N F :=
  { b with operatorStack := (op, precedence) :: b.operatorStack }

/-- The body of the two `while` loops: the last two operands become one, by the last operator. -/
def reduceTop (config : ParserConfig N F) (b : BinaryStacks N F) : BinaryStacks N F :=
  match b.operandStack, b.operatorStack with
  | rhs :: lhs :: operands, (op, _) :: operators =>
    ⟨appendBinaryOperation config op lhs rhs :: operands, operators⟩
  | _, _ => b

end BinaryStacks

/-- A `while (operatorStackDepth && condition)` loop of `parseBinaryExpression`. -/
def reduceWhile (config : ParserConfig N F) (condition : BinaryStacks N F → Bool) :
    Nat → Nat → BinaryStacks N F → StackDepths × BinaryStacks N F
  | operandStackDepth, 0, b => (⟨operandStackDepth, 0⟩, b)
  | operandStackDepth, operatorStackDepth + 1, b =>
    if condition b then
      reduceWhile config condition (operandStackDepth - 2 + 1) operatorStackDepth
        (b.reduceTop config)
    else (⟨operandStackDepth, operatorStackDepth + 1⟩, b)

end Stacks

/-! ## 3. The parser with the shared stacks -/

namespace Shared

section Productions

variable {N F : Type} (config : ParserConfig N F)

/-- A call of the tree builder. -/
def modifyBuilder {B : Type} (f : B → B) : ParserM N B Unit :=
  modify fun s => { s with builder := f s.builder }

/-- What comes after an operand: the operator, for which the operations that bind at least as
tightly are built; or the end of the loop. -/
def parseBinaryOperator (depths : StackDepths) (current : BinaryOperand N F) :
    ParserM N (BinaryStacks N F) (StackDepths ⊕ StackDepths) := do
  modifyBuilder (·.appendBinaryExpressionInfo current)
  let operandStackDepth := depths.operand + 1
  let s ← get
  match s.token.binaryOperator s.allowsIn with
  | none => pure (.inr ⟨operandStackDepth, depths.operator⟩)
  | some op =>
    let precedence := isBinaryOperator s.allowsIn s.token.type
    countNonLHS
    next
    let reduced :=
      reduceWhile config (·.operatorStackHasHigherPrecedence precedence) operandStackDepth
      depths.operator s.builder
    modifyBuilder fun _ => reduced.2.operatorStackAppend op precedence
    pure (.inl ⟨reduced.1.operand, reduced.1.operator + 1⟩)

variable (assignment : ParserM N (BinaryStacks N F) (Expression N F))

/-- One operand and the operator after it. -/
def parseBinaryRound (depths : StackDepths) :
    ParserM N (BinaryStacks N F) (StackDepths ⊕ StackDepths) := do
  let current ← countingAssignments (parseUnaryExpression config assignment)
  parseBinaryOperator config depths current

/-- The end of `parseBinaryExpression`: all operations are built, and `popOperandStack` gives the
result. -/
def popBinaryExpression (depths : StackDepths) : ParserM N (BinaryStacks N F) (Expression N F) := do
  let s ← get
  let reduced := (reduceWhile config (fun _ => true) depths.operand depths.operator s.builder).2
  match reduced.operandStack with
  | (result, _) :: operands =>
    modifyBuilder fun _ => { reduced with operandStack := operands }
    pure result
  | [] => throw .stackExhausted

def parseBinaryExpression : ParserM N (BinaryStacks N F) (Expression N F) := do
  let depths ← whileTokens (parseBinaryRound config assignment) ⟨0, 0⟩
  popBinaryExpression config depths

end Productions

/-- `parseAssignmentExpression`, with a stack for so many calls inside each other. -/
def parseAssignmentExpression {N F : Type} (config : ParserConfig N F) :
    Nat → ParserM N (BinaryStacks N F) (Expression N F)
  | 0 => throw .stackExhausted
  | depth + 1 =>
    parseAssignmentExpressionWith config (parseAssignmentExpression config depth)
      (parseBinaryExpression config (parseAssignmentExpression config depth))

end Shared

end JavaScriptCore.Parser
