/-
# The expression nodes that `ASTBuilder` simplifies, and what they evaluate to

The classes of `parser/Nodes.h` that the simplifying functions of `ASTBuilder` look at.  An
expression of any other class is a `leaf`, which the environment evaluates.  `ExpressionNode.eval`
is the meaning of a tree by ES5.1 11.4 to 11.10, which is also the order in which
`BinaryOpNode::emitBytecode` and `UnaryOpNode::emitBytecode` emit the code: the operands from left
to right, then the instruction, which converts its operands from left to right.
-/
import JavaScriptCore.Runtime.Operations

namespace JavaScriptCore.Parser

open Operations

/-- The nodes.  `constant` is a `ConstantNode` other than a `NumberNode`: a string, a boolean or
`null`. -/
inductive ExpressionNode (N Leaf : Type) where
  | number (value : N)
  | constant (value : Primitive N)
  | unaryPlus (expr : ExpressionNode N Leaf)
  | negate (expr : ExpressionNode N Leaf)
  | bitwiseNot (expr : ExpressionNode N Leaf)
  | binary (op : BinaryOperator) (expr1 expr2 : ExpressionNode N Leaf) (rightHasAssignments : Bool)
  | leaf (l : Leaf)

namespace ExpressionNode

variable {N Leaf : Type}

/-- `stripUnaryPlus`: the operand of a `UnaryPlusNode`, and any other node itself. -/
def stripUnaryPlus : ExpressionNode N Leaf → ExpressionNode N Leaf
  | .unaryPlus expr => expr
  | e => e

/-- `NumberNode::value`, for a node that `isNumber`. -/
def numberValue : ExpressionNode N Leaf → Option N
  | .number value => some value
  | _ => none

/-- There is an operand in the tree that the environment has to evaluate. -/
def hasLeaf : ExpressionNode N Leaf → Bool
  | .number _ => false
  | .constant _ => false
  | .unaryPlus e => e.hasLeaf
  | .negate e => e.hasLeaf
  | .bitwiseNot e => e.hasLeaf
  | .binary _ e1 e2 _ => e1.hasLeaf || e2.hasLeaf
  | .leaf _ => true

/-- The node is such an operand itself, so that its value may be an object. -/
def isLeaf : ExpressionNode N Leaf → Bool
  | .leaf _ => true
  | _ => false

section Evaluation

variable (arithmetic : NumberArithmetic N) (env : Environment N Leaf)

/-- **The meaning of an expression.** -/
def eval : ExpressionNode N Leaf → env.Computation env.Value
  | .number value => pure (.primitive (.number value))
  | .constant value => pure (.primitive value)
  | .unaryPlus e => do
    let n ← toNumber arithmetic env (← eval e)
    pure (.primitive (.number n))
  | .negate e => do
    let n ← toNumber arithmetic env (← eval e)
    pure (.primitive (.number (arithmetic.negate n)))
  | .bitwiseNot e => do
    let n ← toNumber arithmetic env (← eval e)
    pure (.primitive (.number (arithmetic.ofInt32 (~~~arithmetic.toInt32 n))))
  | .binary op e1 e2 _ => do
    let v1 ← eval e1
    let v2 ← eval e2
    let p ← binaryOperation arithmetic env op v1 v2
    pure (.primitive p)
  | .leaf l => env.evaluate l

/-- **Only a leaf gives an object.**  Every other node computes a primitive value. -/
theorem eval_primitive {e : ExpressionNode N Leaf} (he : e.isLeaf = false) :
    ∃ c : env.Computation (Primitive N), e.eval arithmetic env = c >>= fun p =>
      pure (.primitive p) := by
  cases e with
  | number value => exact ⟨pure (.number value), by simp [eval]⟩
  | constant value => exact ⟨pure value, by simp [eval]⟩
  | unaryPlus e =>
    exact ⟨do let n ← toNumber arithmetic env (← e.eval arithmetic env); pure (.number n),
      by simp [eval]⟩
  | negate e =>
    exact ⟨do let n ← toNumber arithmetic env (← e.eval arithmetic env)
              pure (.number (arithmetic.negate n)), by simp [eval]⟩
  | bitwiseNot e =>
    exact ⟨do let n ← toNumber arithmetic env (← e.eval arithmetic env)
              pure (.number (arithmetic.ofInt32 (~~~arithmetic.toInt32 n))), by simp [eval]⟩
  | binary op e1 e2 flag =>
    exact ⟨do let v1 ← e1.eval arithmetic env
              let v2 ← e2.eval arithmetic env
              binaryOperation arithmetic env op v1 v2, by simp [eval]⟩
  | leaf l => exact absurd he (by simp [isLeaf])

/-- The instruction of an operator on two primitive values calls no conversion. -/
theorem binaryOperation_primitive (op : BinaryOperator) (p q : Primitive N) :
    ∃ r, binaryOperation arithmetic env op (.primitive p) (.primitive q) = pure r := by
  by_cases hop : op = .add
  · subst hop
    exact ⟨_, by simp [binaryOperation, addition]; rfl⟩
  · exact ⟨_, by rw [binaryOperation_of_ne arithmetic env hop]; simp [numericOperation]; rfl⟩

/-- **Without leaves there are no effects.** -/
theorem eval_of_not_hasLeaf {e : ExpressionNode N Leaf} (he : e.hasLeaf = false) :
    ∃ p, e.eval arithmetic env = pure (.primitive p) := by
  induction e with
  | number value | constant value => exact ⟨_, rfl⟩
  | unaryPlus e ih | negate e ih | bitwiseNot e ih =>
    obtain ⟨p, hp⟩ := ih he
    exact ⟨_, by simp [eval, hp]; rfl⟩
  | binary op e1 e2 flag ih1 ih2 =>
    rw [hasLeaf, Bool.or_eq_false_iff] at he
    obtain ⟨p, hp⟩ := ih1 he.1
    obtain ⟨q, hq⟩ := ih2 he.2
    obtain ⟨r, hr⟩ := binaryOperation_primitive arithmetic env op p q
    exact ⟨r, by simp [eval, hp, hq, hr]⟩
  | leaf l => exact absurd he (by simp [hasLeaf])

end Evaluation

end ExpressionNode

end JavaScriptCore.Parser
