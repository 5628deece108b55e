/-
# Values, conversions and the operators on values

What the operators of the language do to values: `JSValue::toPrimitive` and `JSValue::toNumber`, and
the additive, multiplicative, shift and bitwise operators of ES5.1 11.5 to 11.10.  A conversion of
an object calls its `valueOf` or `toString`, so it can run any program, throw, and change anything;
`Environment` gives it as a computation over a state of its own, and likewise the evaluation of the
expressions that the parts of this development do not look into.

Two programs have the same value and the same effects in the same order when they are equal as
computations in every environment: one of the environments writes a log of what it is asked.
-/
import Mathlib.Data.BitVec

namespace JavaScriptCore.Operations

/-! ## 1. Numbers and values -/

/-- The arithmetic of numbers.  It is the same when the parser folds constants and when the program
runs.  `equalsOne` is the comparison `value() == 1`. -/
structure NumberArithmetic (N : Type) where
  multiply : N → N → N
  divide : N → N → N
  fmod : N → N → N
  add : N → N → N
  subtract : N → N → N
  negate : N → N
  toInt32 : N → BitVec 32
  ofInt32 : BitVec 32 → N
  ofUInt32 : BitVec 32 → N
  nan : N
  equalsOne : N → Bool
  stringToNumber : List UInt16 → N
  numberToString : N → List UInt16
  multiply_of_equalsOne : ∀ {one : N}, equalsOne one = true → ∀ n, multiply one n = n
  multiply_equalsOne : ∀ {one : N}, equalsOne one = true → ∀ n, multiply n one = n

/-- The values that are not objects. -/
inductive Primitive (N : Type) where
  | undefined
  | null
  | boolean (b : Bool)
  | number (n : N)
  | string (s : List UInt16)

/-- The values. -/
inductive Value (N Object : Type) where
  | primitive (p : Primitive N)
  | object (o : Object)

inductive PreferredPrimitiveType where
  | noPreference
  | preferNumber
  | preferString
  deriving DecidableEq, Repr

/-- **An environment.**  What evaluating an expression from outside the model does, and what
converting an object to a primitive value does.  Both may throw, and both may read and change the
world. -/
structure Environment (N Leaf : Type) where
  World : Type
  Exception : Type
  Object : Type
  evaluate : Leaf → ExceptT Exception (StateM World) (Value N Object)
  toPrimitive : Object → PreferredPrimitiveType → ExceptT Exception (StateM World) (Primitive N)

namespace Environment

variable {N Leaf : Type}

/-- The values of an environment. -/
abbrev Value (env : Environment N Leaf) : Type := Operations.Value N env.Object

/-- The computations of an environment. -/
abbrev Computation (env : Environment N Leaf) (α : Type) : Type :=
  ExceptT env.Exception (StateM env.World) α

end Environment

/-! ## 2. Conversions -/

section Conversions

variable {N Leaf : Type} (arithmetic : NumberArithmetic N)

/-- `toNumber` of a value that is not an object. -/
def Primitive.toNumber : Primitive N → N
  | .undefined => arithmetic.nan
  | .null => arithmetic.ofInt32 0
  | .boolean b => arithmetic.ofInt32 (if b then 1 else 0)
  | .number n => n
  | .string s => arithmetic.stringToNumber s

/-- The code units of an ASCII text. -/
def ascii (s : String) : List UInt16 := s.toList.map fun c => UInt16.ofNat c.toNat

/-- `toString` of a value that is not an object. -/
def Primitive.toString : Primitive N → List UInt16
  | .undefined => ascii "undefined"
  | .null => ascii "null"
  | .boolean b => ascii (if b then "true" else "false")
  | .number n => arithmetic.numberToString n
  | .string s => s

/-- `isString` of a value that is not an object. -/
def Primitive.isString : Primitive N → Bool
  | .string _ => true
  | _ => false

variable (env : Environment N Leaf)

/-- `JSValue::toPrimitive`. -/
def toPrimitive (preferred : PreferredPrimitiveType) : env.Value → env.Computation (Primitive N)
  | .primitive p => pure p
  | .object o => env.toPrimitive o preferred

/-- `JSValue::toNumber`. -/
def toNumber (v : env.Value) : env.Computation N := do
  let p ← toPrimitive env .preferNumber v
  pure (p.toNumber arithmetic)

@[simp] theorem toPrimitive_primitive (preferred : PreferredPrimitiveType) (p : Primitive N) :
    toPrimitive env preferred (.primitive p) = pure p := rfl

@[simp] theorem toNumber_primitive (p : Primitive N) :
    toNumber arithmetic env (.primitive p) = pure (p.toNumber arithmetic) := by
  simp [toNumber]

end Conversions

/-! ## 3. The operators -/

/-- The binary operators that `ASTBuilder` simplifies. -/
inductive BinaryOperator where
  | mult | div | mod | add | sub
  | leftShift | rightShift | unsignedRightShift
  | bitOr | bitAnd | bitXOr
  deriving DecidableEq, Repr

section Operators

variable {N Leaf : Type} (arithmetic : NumberArithmetic N)

/-- The number of bits to shift by: the low five bits. -/
def shiftCount (n : N) : Nat := (arithmetic.toInt32 n &&& 0x1f#32).toNat

/-- An operator on two numbers. -/
def BinaryOperator.onNumbers : BinaryOperator → N → N → N
  | .mult, a, b => arithmetic.multiply a b
  | .div, a, b => arithmetic.divide a b
  | .mod, a, b => arithmetic.fmod a b
  | .add, a, b => arithmetic.add a b
  | .sub, a, b => arithmetic.subtract a b
  | .leftShift, a, b => arithmetic.ofInt32 (arithmetic.toInt32 a <<< shiftCount arithmetic b)
  | .rightShift, a, b =>
    arithmetic.ofInt32 ((arithmetic.toInt32 a).sshiftRight (shiftCount arithmetic b))
  | .unsignedRightShift, a, b =>
    arithmetic.ofUInt32 (arithmetic.toInt32 a >>> shiftCount arithmetic b)
  | .bitOr, a, b => arithmetic.ofInt32 (arithmetic.toInt32 a ||| arithmetic.toInt32 b)
  | .bitAnd, a, b => arithmetic.ofInt32 (arithmetic.toInt32 a &&& arithmetic.toInt32 b)
  | .bitXOr, a, b => arithmetic.ofInt32 (arithmetic.toInt32 a ^^^ arithmetic.toInt32 b)

/-- Addition after the conversions: concatenation when one of the two is a string. -/
def addPrimitives (p q : Primitive N) : Primitive N :=
  if p.isString || q.isString then .string (p.toString arithmetic ++ q.toString arithmetic)
  else .number (arithmetic.add (p.toNumber arithmetic) (q.toNumber arithmetic))

variable (env : Environment N Leaf)

/-- The addition of two values: both are converted, the left one first. -/
def addition (v w : env.Value) : env.Computation (Primitive N) := do
  let p ← toPrimitive env .noPreference v
  let q ← toPrimitive env .noPreference w
  pure (addPrimitives arithmetic p q)

/-- The instruction of an operator other than addition: both values become numbers, the left one
first. -/
def numericOperation (op : BinaryOperator) (v w : env.Value) : env.Computation (Primitive N) := do
  let a ← toNumber arithmetic env v
  let b ← toNumber arithmetic env w
  pure (.number (op.onNumbers arithmetic a b))

/-- The instruction of an operator. -/
def binaryOperation (op : BinaryOperator) (v w : env.Value) : env.Computation (Primitive N) :=
  match op with
  | .add => addition arithmetic env v w
  | op => numericOperation arithmetic env op v w

theorem binaryOperation_of_ne {op : BinaryOperator} (hop : op ≠ .add) (v w : env.Value) :
    binaryOperation arithmetic env op v w = numericOperation arithmetic env op v w := by
  cases op <;> first | rfl | exact absurd rfl hop

/-- **On two numbers no conversion is called**, and the instruction computes what the operator does.
-/
theorem binaryOperation_numbers (op : BinaryOperator) (a b : N) :
    binaryOperation arithmetic env op (.primitive (.number a)) (.primitive (.number b))
      = pure (.number (op.onNumbers arithmetic a b)) := by
  by_cases hop : op = .add
  · subst hop
    simp [binaryOperation, addition, addPrimitives, Primitive.isString, Primitive.toNumber,
      BinaryOperator.onNumbers]
  · rw [binaryOperation_of_ne arithmetic env hop]
    simp [numericOperation, Primitive.toNumber]

end Operators

end JavaScriptCore.Operations
