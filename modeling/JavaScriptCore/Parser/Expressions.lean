/-
# Tokens, patterns and the expressions that the parser builds

The tokens of `parser/ParserTokens.h` that the expression parser tells apart, the patterns of
destructuring assignments, and the expression classes of `parser/Nodes.h` with all the flags the
parser puts into them.

A function expression is one node here: what stands between its parameters and its closing brace is
parsed by the parser of statements, which is a parameter of this development.
-/
import JavaScriptCore.Parser.ASTBuilder

namespace JavaScriptCore.Parser

open Operations

/-! ## 1. Tokens -/

/-- The tokens without data of their own. -/
inductive Punctuation where
  | openBrace | closeBrace | openParen | closeParen | openBracket | closeBracket
  | comma | question | semicolon | colon | dot | dotDotDot | eof | errorToken
  | equal | plusEqual | minusEqual | multEqual | divEqual | lshiftEqual | rshiftEqual | urshiftEqual
  | andEqual | modEqual | xorEqual | orEqual
  | plusPlus | minusMinus | autoPlusPlus | autoMinusMinus | exclamation | tilde
  | or | and | bitOr | bitXOr | bitAnd | eqEq | ne | strEq | strNeq | lt | gt | le | ge
  | lshift | rshift | urshift | plus | minus | times | divide | mod
  deriving DecidableEq, Repr

/-- The keywords.  `reserved` stands for the reserved words and for the keywords that only
statements begin with, which no function here tells apart. -/
inductive Keyword where
  | nullToken | trueToken | falseToken | thisToken | newToken | functionToken
  | typeofToken | voidToken | deleteToken | instanceofToken | inToken
  | reserved (name : String)
  deriving DecidableEq, Repr

/-- The text of a keyword, which is also its name as a property. -/
def Keyword.name : Keyword → String
  | .nullToken => "null"
  | .trueToken => "true"
  | .falseToken => "false"
  | .thisToken => "this"
  | .newToken => "new"
  | .functionToken => "function"
  | .typeofToken => "typeof"
  | .voidToken => "void"
  | .deleteToken => "delete"
  | .instanceofToken => "instanceof"
  | .inToken => "in"
  | .reserved name => name

/-- `JSToken`.  A regular expression is one token: where an expression may begin, the parser lets
the lexer scan a `/` or `/=` on to the end of the literal. -/
inductive Token (N : Type) where
  | ident (name : String)
  | string (value : String)
  | number (value : N)
  | regExp (pattern flags : String)
  | keyword (k : Keyword)
  | punctuation (p : Punctuation)

/-- `Operator`, as far as assignments use it. -/
inductive AssignmentOperator where
  | opEqual | opPlusEq | opMinusEq | opMultEq | opDivEq | opLShift | opRShift | opURShift
  | opAndEq | opXOrEq | opOrEq | opModEq
  deriving DecidableEq, Repr

/-- The tokens with `UnaryOpTokenFlag`. -/
inductive UnaryToken where
  | plusPlus | minusMinus | autoPlusPlus | autoMinusMinus | exclamation | tilde
  | typeofToken | voidToken | deleteToken | plus | minus
  deriving DecidableEq, Repr

/-- The comparisons, `instanceof` and `in`. -/
inductive ComparisonOperator where
  | equal | notEqual | strictEqual | notStrictEqual | less | greater | lessEq | greaterEq
  | instanceOf | inOperator
  deriving DecidableEq, Repr

/-- The tokens with a `BINARY_OP_PRECEDENCE`, by the nodes that `makeBinaryNode` makes for them. -/
inductive BinaryToken where
  | logicalOr
  | logicalAnd
  | arithmetic (op : BinaryOperator)
  | comparison (op : ComparisonOperator)
  deriving DecidableEq, Repr

namespace Token

variable {N : Type}

/-- The operator of an assignment. -/
def assignmentOperator : Token N → Option AssignmentOperator
  | .punctuation .equal => some .opEqual
  | .punctuation .plusEqual => some .opPlusEq
  | .punctuation .minusEqual => some .opMinusEq
  | .punctuation .multEqual => some .opMultEq
  | .punctuation .divEqual => some .opDivEq
  | .punctuation .lshiftEqual => some .opLShift
  | .punctuation .rshiftEqual => some .opRShift
  | .punctuation .urshiftEqual => some .opURShift
  | .punctuation .andEqual => some .opAndEq
  | .punctuation .xorEqual => some .opXOrEq
  | .punctuation .orEqual => some .opOrEq
  | .punctuation .modEqual => some .opModEq
  | _ => none

/-- `isUnaryOp`. -/
def unaryOperator : Token N → Option UnaryToken
  | .punctuation .plusPlus => some .plusPlus
  | .punctuation .minusMinus => some .minusMinus
  | .punctuation .autoPlusPlus => some .autoPlusPlus
  | .punctuation .autoMinusMinus => some .autoMinusMinus
  | .punctuation .exclamation => some .exclamation
  | .punctuation .tilde => some .tilde
  | .punctuation .plus => some .plus
  | .punctuation .minus => some .minus
  | .keyword .typeofToken => some .typeofToken
  | .keyword .voidToken => some .voidToken
  | .keyword .deleteToken => some .deleteToken
  | _ => none

/-- `isBinaryOperator`: `in` is an operator only where it is allowed. -/
def binaryOperator (allowsIn : Bool) : Token N → Option BinaryToken
  | .punctuation .or => some .logicalOr
  | .punctuation .and => some .logicalAnd
  | .punctuation .bitOr => some (.arithmetic .bitOr)
  | .punctuation .bitXOr => some (.arithmetic .bitXOr)
  | .punctuation .bitAnd => some (.arithmetic .bitAnd)
  | .punctuation .eqEq => some (.comparison .equal)
  | .punctuation .ne => some (.comparison .notEqual)
  | .punctuation .strEq => some (.comparison .strictEqual)
  | .punctuation .strNeq => some (.comparison .notStrictEqual)
  | .punctuation .lt => some (.comparison .less)
  | .punctuation .gt => some (.comparison .greater)
  | .punctuation .le => some (.comparison .lessEq)
  | .punctuation .ge => some (.comparison .greaterEq)
  | .keyword .instanceofToken => some (.comparison .instanceOf)
  | .keyword .inToken => if allowsIn then some (.comparison .inOperator) else none
  | .punctuation .lshift => some (.arithmetic .leftShift)
  | .punctuation .rshift => some (.arithmetic .rightShift)
  | .punctuation .urshift => some (.arithmetic .unsignedRightShift)
  | .punctuation .plus => some (.arithmetic .add)
  | .punctuation .minus => some (.arithmetic .sub)
  | .punctuation .times => some (.arithmetic .mult)
  | .punctuation .divide => some (.arithmetic .div)
  | .punctuation .mod => some (.arithmetic .mod)
  | _ => none

end Token

/-- The precedence of a binary operator. -/
def BinaryToken.precedence : BinaryToken → Nat
  | .logicalOr => 1
  | .logicalAnd => 2
  | .arithmetic .bitOr => 3
  | .arithmetic .bitXOr => 4
  | .arithmetic .bitAnd => 5
  | .comparison .equal | .comparison .notEqual | .comparison .strictEqual
  | .comparison .notStrictEqual => 6
  | .comparison _ => 7
  | .arithmetic .leftShift | .arithmetic .rightShift | .arithmetic .unsignedRightShift => 8
  | .arithmetic .add | .arithmetic .sub => 9
  | .arithmetic .mult | .arithmetic .div | .arithmetic .mod => 10

/-! ## 2. Patterns -/

mutual

/-- `DeconstructionPatternNode`: a `BindingNode`, an `ArrayPatternNode` or an `ObjectPatternNode`.
-/
inductive Pattern where
  | binding (boundProperty : String)
  | array (targetPatterns : PatternList)
  | object (targetPatterns : PatternList)

/-- The entries of a pattern.  `skip` is an elision of an array pattern. -/
inductive PatternList where
  | nil
  | skip (next : PatternList)
  | index (pattern : Pattern) (next : PatternList)
  | property (propertyName : String) (wasString : Bool) (pattern : Pattern) (next : PatternList)

end

/-! ## 3. Expressions -/

/-- `PropertyNode::Type`. -/
inductive PropertyType where
  | constant | getter | setter
  deriving DecidableEq, Repr

/-- What an entry of an argument list, an array literal or an object literal is.  A property with a
computed name is two entries. -/
inductive EntryKind where
  | argument
  | spread
  | element (elisions : Nat)
  | spreadElement (elisions : Nat)
  | property (name : String) (type : PropertyType)
  | computedName
  | computedProperty
  deriving DecidableEq, Repr

/-- The unary operators that `ASTBuilder` does not simplify on any operand but a number. -/
inductive UnaryOperator where
  | logicalNot | typeOf | void | delete
  deriving DecidableEq, Repr

/-- `OpPlusPlus` and `OpMinusMinus`. -/
inductive IncrementOperator where
  | opPlusPlus | opMinusMinus
  deriving DecidableEq, Repr

/-- `OpLogicalAnd` and `OpLogicalOr`. -/
inductive LogicalOperator where
  | opLogicalAnd | opLogicalOr
  deriving DecidableEq, Repr

mutual

/-- The expressions.  `F` is what the parser of statements makes of a function.  `elisions` is
`none` for an array literal that ends in an element, where `m_optional` is false. -/
inductive Expression (N F : Type) where
  | resolve (ident : String)
  | this
  | number (value : N)
  | constant (value : Primitive N)
  | regExp (pattern flags : String)
  | function (body : F)
  | array (elements : EntryList N F) (elisions : Option Nat)
  | object (properties : EntryList N F)
  | bracketAccess (base subscript : Expression N F) (subscriptHasAssignments : Bool)
  | dotAccess (base : Expression N F) (ident : String)
  | functionCall (func : Expression N F) (args : EntryList N F)
  | newExpr (expr : Expression N F) (args : EntryList N F)
  | postfixNode (op : IncrementOperator) (expr : Expression N F)
  | prefixNode (op : IncrementOperator) (expr : Expression N F)
  | unaryPlus (expr : Expression N F)
  | negate (expr : Expression N F)
  | bitwiseNot (expr : Expression N F)
  | unary (op : UnaryOperator) (expr : Expression N F)
  | logical (op : LogicalOperator) (expr1 expr2 : Expression N F)
  | binary (op : BinaryOperator) (expr1 expr2 : Expression N F) (rightHasAssignments : Bool)
  | comparison (op : ComparisonOperator) (expr1 expr2 : Expression N F) (rightHasAssignments : Bool)
  | conditional (logical expr1 expr2 : Expression N F)
  | assign (op : AssignmentOperator) (loc right : Expression N F)
      (locHasAssignments rightHasAssignments : Bool)
  | assignError
  | deconstructingAssignment (bindings : Pattern) (initializer : Expression N F)
  | comma (expr1 expr2 : Expression N F)

/-- The entries of an argument list, an array literal or an object literal. -/
inductive EntryList (N F : Type) where
  | nil
  | cons (kind : EntryKind) (expr : Expression N F) (next : EntryList N F)

end

/-- Appends an entry at the end. -/
def EntryList.append {N F : Type} (kind : EntryKind) (expr : Expression N F) :
    EntryList N F → EntryList N F
  | .nil => .cons kind expr .nil
  | .cons k e next => .cons k e (next.append kind expr)

/-- `isSimpleArray`, of the elements. -/
def EntryList.isSimple {N F : Type} : EntryList N F → Bool
  | .nil => true
  | .cons kind _ next => kind == .element 0 && next.isSimple

def EntryList.length {N F : Type} : EntryList N F → Nat
  | .nil => 0
  | .cons _ _ next => next.length + 1

def PatternList.length : PatternList → Nat
  | .nil => 0
  | .skip next | .index _ next | .property _ _ _ next => next.length + 1

/-- A `PropertyNode`. -/
inductive Property (N F : Type) where
  | named (name : String) (type : PropertyType) (assign : Expression N F)
  | computed (name assign : Expression N F)

namespace Property

variable {N F : Type}

/-- `PropertyNode::name`. -/
def name : Property N F → Option String
  | .named name _ _ => some name
  | .computed _ _ => none

/-- `PropertyNode::type`. -/
def type : Property N F → PropertyType
  | .named _ type _ => type
  | .computed _ _ => .constant

/-- `createPropertyList`, at the end of a list. -/
def appendTo (list : EntryList N F) : Property N F → EntryList N F
  | .named name type assign => list.append (.property name type) assign
  | .computed name assign => (list.append .computedName name).append .computedProperty assign

end Property

namespace Expression

variable {N F : Type}

def isLocation : Expression N F → Bool
  | .resolve _ => true
  | .bracketAccess _ _ _ => true
  | .dotAccess _ _ => true
  | _ => false

/-- `isResolveNode`, with the identifier. -/
def resolveIdentifier : Expression N F → Option String
  | .resolve ident => some ident
  | _ => none

/-- An expression as the simplifying functions see it. -/
def view : Expression N F → ExpressionNode N (Expression N F)
  | .number value => .number value
  | .unaryPlus expr => .unaryPlus (.leaf expr)
  | e => .leaf e

/-- The expression that a simplifying function built. -/
def ofNode : ExpressionNode N (Expression N F) → Expression N F
  | .number value => .number value
  | .constant value => .constant value
  | .unaryPlus e => .unaryPlus (ofNode e)
  | .negate e => .negate (ofNode e)
  | .bitwiseNot e => .bitwiseNot (ofNode e)
  | .binary op e1 e2 flag => .binary op (ofNode e1) (ofNode e2) flag
  | .leaf e => e

section Builder

variable (arithmetic : NumberArithmetic N)

def makeNegateNode (e : Expression N F) : Expression N F :=
  ofNode (ASTBuilder.makeNegateNode arithmetic e.view)

def makeBitwiseNotNode (e : Expression N F) : Expression N F :=
  ofNode (ASTBuilder.makeBitwiseNotNode arithmetic e.view)

def makeBinaryNode (op : BinaryToken) (lhs rhs : Expression N F) (rightHasAssignments : Bool) :
    Expression N F :=
  match op with
  | .logicalOr => .logical .opLogicalOr lhs rhs
  | .logicalAnd => .logical .opLogicalAnd lhs rhs
  | .arithmetic op =>
    ofNode (ASTBuilder.makeBinaryNode arithmetic op lhs.view rhs.view rightHasAssignments)
  | .comparison op => .comparison op lhs rhs rightHasAssignments

end Builder

def makeAssignNode (loc : Expression N F) (op : AssignmentOperator) (expr : Expression N F)
    (locHasAssignments exprHasAssignments : Bool) : Expression N F :=
  if loc.isLocation then .assign op loc expr locHasAssignments exprHasAssignments else .assignError

/-- `createLogicalNot`, given `isZeroOrUnordered`. -/
def createLogicalNot (isZeroOrUnordered : N → Bool) : Expression N F → Expression N F
  | .number value => .constant (.boolean (isZeroOrUnordered value))
  | e => .unary .logicalNot e

end Expression

end JavaScriptCore.Parser
