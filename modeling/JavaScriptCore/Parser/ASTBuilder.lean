/-
# The simplifying functions of `ASTBuilder`

`makeNegateNode` to `makeBitXOrNode` of `parser/ASTBuilder.h`.  Each builds the node of its
operator, after it has looked for numbers among the operands: two numbers are folded into one.
`makeMultNode`, `makeDivNode`, `makeModNode` and `makeSubNode` first take one unary plus off each
operand, since the operator converts its operands to numbers anyway, and `makeMultNode` turns a
multiplication by one into a unary plus.

`makeNegateNode` writes the negated value into the node it is given; the parser has no other
reference to that node, so here the function returns the node with the new value.
-/
import JavaScriptCore.Parser.Nodes

namespace JavaScriptCore.Parser.ASTBuilder

open Operations

variable {N Leaf : Type} (arithmetic : NumberArithmetic N)

/-! ## 1. The unary operators -/

def makeNegateNode (n : ExpressionNode N Leaf) : ExpressionNode N Leaf :=
  match n.numberValue with
  | some value => .number (arithmetic.negate value)
  | none => .negate n

def makeBitwiseNotNode (expr : ExpressionNode N Leaf) : ExpressionNode N Leaf :=
  match expr.numberValue with
  | some value => .number (arithmetic.ofInt32 (~~~arithmetic.toInt32 value))
  | none => .bitwiseNot expr

/-! ## 2. The binary operators -/

/-- Folds two numbers, and builds the node of the operator otherwise. -/
def foldNumbers (op : BinaryOperator) (expr1 expr2 : ExpressionNode N Leaf)
    (rightHasAssignments : Bool) :
    ExpressionNode N Leaf :=
  match expr1.numberValue, expr2.numberValue with
  | some a, some b => .number (op.onNumbers arithmetic a b)
  | _, _ => .binary op expr1 expr2 rightHasAssignments

/-- The node is the number one. -/
def isOne (expr : ExpressionNode N Leaf) : Bool :=
  match expr.numberValue with
  | some value => arithmetic.equalsOne value
  | none => false

section Operands

variable (expr1 expr2 : ExpressionNode N Leaf) (rightHasAssignments : Bool)

def makeMultNode : ExpressionNode N Leaf :=
  let expr1 := expr1.stripUnaryPlus
  let expr2 := expr2.stripUnaryPlus
  match expr1.numberValue, expr2.numberValue with
  | some a, some b => .number (arithmetic.multiply a b)
  | _, _ =>
    if isOne arithmetic expr1 then .unaryPlus expr2
    else if isOne arithmetic expr2 then .unaryPlus expr1
    else .binary .mult expr1 expr2 rightHasAssignments

def makeDivNode : ExpressionNode N Leaf :=
  foldNumbers arithmetic .div expr1.stripUnaryPlus expr2.stripUnaryPlus rightHasAssignments

def makeModNode : ExpressionNode N Leaf :=
  foldNumbers arithmetic .mod expr1.stripUnaryPlus expr2.stripUnaryPlus rightHasAssignments

def makeAddNode : ExpressionNode N Leaf :=
  foldNumbers arithmetic .add expr1 expr2 rightHasAssignments

def makeSubNode : ExpressionNode N Leaf :=
  foldNumbers arithmetic .sub expr1.stripUnaryPlus expr2.stripUnaryPlus rightHasAssignments

def makeLeftShiftNode : ExpressionNode N Leaf :=
  foldNumbers arithmetic .leftShift expr1 expr2 rightHasAssignments

def makeRightShiftNode : ExpressionNode N Leaf :=
  foldNumbers arithmetic .rightShift expr1 expr2 rightHasAssignments

def makeURightShiftNode : ExpressionNode N Leaf :=
  foldNumbers arithmetic .unsignedRightShift expr1 expr2 rightHasAssignments

def makeBitOrNode : ExpressionNode N Leaf :=
  foldNumbers arithmetic .bitOr expr1 expr2 rightHasAssignments

def makeBitAndNode : ExpressionNode N Leaf :=
  foldNumbers arithmetic .bitAnd expr1 expr2 rightHasAssignments

def makeBitXOrNode : ExpressionNode N Leaf :=
  foldNumbers arithmetic .bitXOr expr1 expr2 rightHasAssignments

end Operands

/-- The part of `makeBinaryNode` that calls these functions. -/
def makeBinaryNode : BinaryOperator → ExpressionNode N Leaf → ExpressionNode N Leaf → Bool →
    ExpressionNode N Leaf
  | .mult => makeMultNode arithmetic
  | .div => makeDivNode arithmetic
  | .mod => makeModNode arithmetic
  | .add => makeAddNode arithmetic
  | .sub => makeSubNode arithmetic
  | .leftShift => makeLeftShiftNode arithmetic
  | .rightShift => makeRightShiftNode arithmetic
  | .unsignedRightShift => makeURightShiftNode arithmetic
  | .bitOr => makeBitOrNode arithmetic
  | .bitAnd => makeBitAndNode arithmetic
  | .bitXOr => makeBitXOrNode arithmetic

end JavaScriptCore.Parser.ASTBuilder
