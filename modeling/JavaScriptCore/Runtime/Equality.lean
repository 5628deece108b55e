/-
# Truth values and comparisons

`JSValue::toBoolean`, and the comparisons of ES5.1 11.8 and 11.9.  The abstract equality comparison
follows `JSValue::equalSlowCaseInline`: it converts an object that is compared with a value of
another type, and an object that masquerades as `undefined` is equal to `null` and `undefined`.  The
relational operators and `in` call conversions and methods of objects; nothing here looks into them.
-/
import JavaScriptCore.Lib.Effects
import JavaScriptCore.Parser.Expressions
import JavaScriptCore.Runtime.Double

namespace JavaScriptCore.Operations

open JavaScriptCore.Runtime (Double)

/-- The comparisons that are one instruction.  `instanceof`, for which several are emitted, is none.
-/
inductive Comparison where
  | equal | notEqual | strictEqual | notStrictEqual | less | greater | lessEq | greaterEq
  | inOperator
  deriving DecidableEq, Repr

/-- An environment in which values can be compared. -/
structure ComparisonEnvironment (Leaf : Type) extends Environment Double Leaf where
  stringToNumber : List UInt16 → Double
  masqueradesAsUndefined : Object → Bool
  sameObject : Object → Object → Bool
  typeOf : Operations.Value Double Object → List UInt16
  relation : Comparison → Operations.Value Double Object → Operations.Value Double Object →
    ExceptT Exception (StateM World) Bool

/-! ## 1. Values that are not objects -/

def isNotZeroAndOrdered : Double → Bool
  | .nan | .negZero => false
  | .infinity _ => true
  | .finite q => q ≠ 0

/-- `toBoolean` of a value that is not an object. -/
def Primitive.toBoolean : Primitive Double → Bool
  | .undefined | .null => false
  | .boolean b => b
  | .number d => isNotZeroAndOrdered d
  | .string s => !s.isEmpty

def Primitive.isUndefinedOrNull : Primitive Double → Bool
  | .undefined | .null => true
  | _ => false

/-- The number that a value becomes in a comparison with a number. -/
def Primitive.comparedNumber (stringToNumber : List UInt16 → Double) : Primitive Double → Double
  | .undefined => .nan
  | .null => .finite 0
  | .boolean b => .finite (if b then 1 else 0)
  | .number d => d
  | .string s => stringToNumber s

/-- The abstract equality comparison of values that are not objects. -/
def Primitive.looseEquals (stringToNumber : List UInt16 → Double) :
    Primitive Double → Primitive Double → Bool
  | .string s, .string t => s == t
  | .boolean b, .boolean c => b == c
  | p, q =>
    if p.isUndefinedOrNull || q.isUndefinedOrNull then p.isUndefinedOrNull && q.isUndefinedOrNull
    else (p.comparedNumber stringToNumber).equals (q.comparedNumber stringToNumber)

/-- The strict equality comparison of values that are not objects. -/
def Primitive.strictEquals : Primitive Double → Primitive Double → Bool
  | .undefined, .undefined => true
  | .null, .null => true
  | .boolean b, .boolean c => b == c
  | .number d, .number e => d.equals e
  | .string s, .string t => s == t
  | _, _ => false

/-! ## 2. Values -/

section Values

variable {Leaf : Type} (env : ComparisonEnvironment Leaf)

def toBoolean : env.Value → Bool
  | .primitive p => p.toBoolean
  | .object o => !env.masqueradesAsUndefined o

/-- The instruction `op_eq_null`. -/
def isNullish : env.Value → Bool
  | .primitive p => p.isUndefinedOrNull
  | .object o => env.masqueradesAsUndefined o

/-- The abstract equality comparison. -/
def looseEquals : env.Value → env.Value → env.Computation Bool
  | .primitive p, .primitive q => pure (p.looseEquals env.stringToNumber q)
  | .object o, .object o' => pure (env.sameObject o o')
  | .object o, .primitive p =>
    if p.isUndefinedOrNull then pure (env.masqueradesAsUndefined o)
    else do return p.looseEquals env.stringToNumber (← env.toPrimitive o .noPreference)
  | .primitive p, .object o =>
    if p.isUndefinedOrNull then pure (env.masqueradesAsUndefined o)
    else do return p.looseEquals env.stringToNumber (← env.toPrimitive o .noPreference)

/-- The strict equality comparison. -/
def strictEquals : env.Value → env.Value → Bool
  | .primitive p, .primitive q => p.strictEquals q
  | .object o, .object o' => env.sameObject o o'
  | _, _ => false

/-- The instruction of a comparison. -/
def compare : Comparison → env.Value → env.Value → env.Computation Bool
  | .equal, v, w => looseEquals env v w
  | .notEqual, v, w => do return !(← looseEquals env v w)
  | .strictEqual, v, w => pure (strictEquals env v w)
  | .notStrictEqual, v, w => pure (!strictEquals env v w)
  | op, v, w => env.relation op v w

/-- **Comparing with `null`** is what `op_eq_null` does. -/
theorem looseEquals_null_right (v : env.Value) :
    looseEquals env v (.primitive .null) = pure (isNullish env v) := by
  cases v with
  | primitive p => cases p <;> rfl
  | object o => rfl

theorem looseEquals_null_left (v : env.Value) :
    looseEquals env (.primitive .null) v = pure (isNullish env v) := by
  cases v with
  | primitive p => cases p <;> rfl
  | object o => rfl

/-- A comparison with a string does not depend on the order. -/
theorem looseEquals_string_comm (s : List UInt16) (v : env.Value) :
    looseEquals env (.primitive (.string s)) v = looseEquals env v (.primitive (.string s)) := by
  cases v with
  | object o => rfl
  | primitive p =>
    cases p with
    | string t => exact congrArg pure Bool.beq_comm
    | undefined | null => rfl
    | boolean b | number d => exact congrArg pure (Double.equals_comm _ _)

theorem strictEquals_string_comm (s : List UInt16) (v : env.Value) :
    strictEquals env (.primitive (.string s)) v = strictEquals env v (.primitive (.string s)) := by
  cases v with
  | object o => rfl
  | primitive p =>
    cases p with
    | string t => exact Bool.beq_comm
    | _ => rfl

end Values

end JavaScriptCore.Operations
