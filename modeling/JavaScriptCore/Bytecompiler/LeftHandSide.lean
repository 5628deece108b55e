/-
# The left operand of a binary operator

`BytecodeGenerator::emitNodeForLeftHandSide` copies the left operand of a binary operator to a
temporary unless nothing can change it before the operator reads it.  A local variable is read from
its own register, so leaving out the copy is right only if evaluating the right operand leaves that
register alone.

`evaluate` says what the code of an expression does to the registers of the local variables.  All
that code outside the function can do is behind `Machine.operation`: a call, a conversion, a getter
or a setter runs any program.  Such a program reaches a local variable only through an `arguments`
object that shares the register; `Machine.aliased` says for which variables there is one.
-/
import JavaScriptCore.Parser.AssignmentCount

namespace JavaScriptCore.Bytecompiler.LeftHandSide

open Operations
open JavaScriptCore.Parser
open Lib.Effects

variable {N F : Type}

/-! ## 1. What the generator knows -/

inductive CodeType where
  | globalCode | evalCode | functionCode
  deriving DecidableEq, Repr

/-- The part of the generator's state that the left operand depends on.  `localVariable` is `none`
for a name without a register, and otherwise says whether the variable is read-only.
`optimizesArguments` is `willResolveToArguments` where there are no slow arguments. -/
structure GeneratorContext where
  codeType : CodeType
  needsFullScopeChain : Bool
  localVariable : String → Option Bool
  optimizesArguments : String → Bool

namespace GeneratorContext

def leftHandSideNeedsCopy (generator : GeneratorContext) (rightHasAssignments rightIsPure : Bool) :
    Bool :=
  (generator.codeType != .functionCode || generator.needsFullScopeChain || rightHasAssignments) &&
    !rightIsPure

/-- `isPure`: of the constants and of the local variables. -/
def isPure (generator : GeneratorContext) : Expression N F → Bool
  | .number _ | .constant _ => true
  | .resolve ident => (generator.localVariable ident).isSome
  | _ => false

/-- `emitNodeForLeftHandSide` takes the register of the left operand itself. -/
def skipsCopy (generator : GeneratorContext) (b : BinaryOperation N F) : Bool :=
  !generator.leftHandSideNeedsCopy b.rightHasAssignments (generator.isPure b.right)

end GeneratorContext

/-! ## 2. The machine -/

/-- The instructions that read more than registers, or that can run other code. -/
inductive Instruction (F : Type) where
  | newRegExp (pattern flags : String)
  | newFunction (body : F)
  | newArray | newObject | newArguments
  | append (kind : EntryKind)
  | putByIndex (index : Nat)
  | elide (elisions : Nat)
  | getFromScope (ident : String) | typeofFromScope (ident : String)
  | putToScope (ident : String) | deleteFromScope (ident : String)
  | getByVal | putByVal | deleteByVal | getArgumentByVal
  | getById (ident : String) | putById (ident : String) | deleteById (ident : String)
  | call | construct
  | toNumber | negate | bitwiseNot | typeOf
  | increment (op : IncrementOperator)
  | binary (op : BinaryOperator)
  | comparison (op : ComparisonOperator)
  | readOnlyException
  | throwReferenceError

/-- The registers of the local variables, and everything else. -/
structure MachineState (Value World : Type) where
  registers : String → Value
  world : World

/-- **What the code runs on.**  `operation` is what an instruction does, with all the code that it
calls; it cannot change the register of a variable that no `arguments` object shares. -/
structure Machine (N F : Type) where
  Value : Type
  World : Type
  Exception : Type
  constant : Primitive N → Value
  index : Nat → Value
  toBoolean : Value → Bool
  aliased : String → Bool
  operation : Instruction F → List Value →
    ExceptT Exception (StateM (MachineState Value World)) Value
  operation_keeps : ∀ instruction values x, aliased x = false → ∀ state,
    (outcome (operation instruction values) state).2.registers x = state.registers x

namespace Machine

variable (machine : Machine N F) (generator : GeneratorContext)

/-- The computations of a machine. -/
abbrev Computation (α : Type) : Type :=
  ExceptT machine.Exception (StateM (MachineState machine.Value machine.World)) α

/-- Reads the register of a local variable. -/
def load (x : String) : machine.Computation machine.Value := do return (← get).registers x

/-- Writes the register of a local variable. -/
def store (x : String) (value : machine.Value) : machine.Computation Unit :=
  modify fun s => { s with registers := fun y => if y = x then value else s.registers y }

/-- Reads a variable. -/
def read (x : String) : machine.Computation machine.Value :=
  match generator.localVariable x with
  | some _ => machine.load x
  | none => machine.operation (.getFromScope x) []

/-- `emitReadOnlyExceptionIfNeeded`, where the variable is a read-only local one. -/
def checkReadOnly (x : String) : machine.Computation Unit :=
  match generator.localVariable x with
  | some true => do discard <| machine.operation .readOnlyException []
  | _ => pure ()

/-- Writes a variable; a read-only one stays as it is. -/
def write (x : String) (value : machine.Value) : machine.Computation Unit :=
  match generator.localVariable x with
  | some true => pure ()
  | some false => machine.store x value
  | none => do discard <| machine.operation (.putToScope x) [value]

end Machine

/-- The binary operator of a compound assignment. -/
def compoundOperator : AssignmentOperator → Option BinaryOperator
  | .opEqual => none
  | .opPlusEq => some .add
  | .opMinusEq => some .sub
  | .opMultEq => some .mult
  | .opDivEq => some .div
  | .opLShift => some .leftShift
  | .opRShift => some .rightShift
  | .opURShift => some .unsignedRightShift
  | .opAndEq => some .bitAnd
  | .opXOrEq => some .bitXOr
  | .opOrEq => some .bitOr
  | .opModEq => some .mod

/-! ## 3. Evaluation -/

section Evaluation

variable (machine : Machine N F) (generator : GeneratorContext)

mutual

def bindValue : Pattern → machine.Value → machine.Computation Unit
  | .binding x, value => do
    machine.checkReadOnly generator x
    machine.write generator x value
  | .array targetPatterns, value =>
    bindValues targetPatterns 0 value fun i => machine.operation .getByVal [value, machine.index i]
  | .object targetPatterns, value => bindValues targetPatterns 0 value fun _ => pure value

/-- `bindValue` of the entries of a pattern, from the `i`th on, with the value of each element. -/
def bindValues : PatternList → Nat → machine.Value → (Nat → machine.Computation machine.Value) →
    machine.Computation Unit
  | .nil, _, _, _ => pure ()
  | .skip next, i, value, element => bindValues next (i + 1) value element
  | .index pattern next, i, value, element => do
    bindValue pattern (← element i)
    bindValues next (i + 1) value element
  | .property propertyName _ pattern next, i, value, element => do
    bindValue pattern (← machine.operation (.getById propertyName) [value])
    bindValues next (i + 1) value element

end

/-- How a pattern gets its values. -/
inductive BindingMode where
  /-- the elements of the `arguments` object, which is not made for this -/
  | argumentsOf (ident : String) (targetPatterns : PatternList)
  /-- the elements of an array literal, all of them evaluated before the first is bound -/
  | elements (targetPatterns : PatternList)
  /-- the value; an array has been made in vain if `madeArray` -/
  | value (madeArray : Bool)

/-- `ArrayPatternNode::emitDirectBinding`, as far as it decides.  A literal with a spread element of
the right length stops the compiler (`SpreadExpressionNode::emitBytecode`), and has no code to
describe. -/
def bindingMode : Pattern → Expression N F → BindingMode
  | .array targetPatterns, .resolve x =>
    if generator.optimizesArguments x then .argumentsOf x targetPatterns else .value false
  | .array targetPatterns, .array elements none =>
    if ¬ elements.isSimple then .value false
    else if targetPatterns.length = elements.length then .elements targetPatterns
    else .value true
  | _, _ => .value false

/-- The place that a location denotes. -/
inductive Reference (Value : Type) where
  | name (ident : String)
  | property (base subscript : Value)
  | namedProperty (base : Value) (ident : String)

namespace Reference

/-- Reads a place. -/
def get : Reference machine.Value → machine.Computation machine.Value
  | .name x => machine.read generator x
  | .property base subscript => machine.operation .getByVal [base, subscript]
  | .namedProperty base ident => machine.operation (.getById ident) [base]

/-- What comes before an assignment to a place. -/
def check : Reference machine.Value → machine.Computation Unit
  | .name x => machine.checkReadOnly generator x
  | _ => pure ()

/-- Writes a place. -/
def put (value : machine.Value) : Reference machine.Value → machine.Computation Unit
  | .name x => machine.write generator x value
  | .property base subscript => do discard <| machine.operation .putByVal [base, subscript, value]
  | .namedProperty base ident => do discard <| machine.operation (.putById ident) [base, value]

/-- Deletes a place: `DeleteResolveNode`, `DeleteBracketNode` and `DeleteDotNode`. -/
def delete : Reference machine.Value → machine.Computation machine.Value
  | .name x =>
    match generator.localVariable x with
    | some _ => pure (machine.constant (.boolean false))
    | none => machine.operation (.deleteFromScope x) []
  | .property base subscript => machine.operation .deleteByVal [base, subscript]
  | .namedProperty base ident => machine.operation (.deleteById ident) [base]

/-- `PrefixNode` and `PostfixNode`: the result is the new value, or the old one as a number. -/
def increment (op : IncrementOperator) (isPostfix : Bool) (ref : Reference machine.Value) :
    machine.Computation machine.Value := do
  ref.check machine generator
  let old ← ref.get machine generator
  let number ← if isPostfix then machine.operation .toNumber [old] else pure old
  let value ← machine.operation (.increment op) [old]
  ref.put machine generator value
  pure (if isPostfix then number else value)

/-- An assignment, and a compound one, which reads the place first. -/
def assign (op : AssignmentOperator) (right : machine.Computation machine.Value)
    (ref : Reference machine.Value) : machine.Computation machine.Value := do
  ref.check machine generator
  let value ← match compoundOperator op with
    | none => right
    | some op => do
      let old ← ref.get machine generator
      let value ← right
      machine.operation (.binary op) [old, value]
  ref.put machine generator value
  pure value

end Reference

/-- `TypeOfResolveNode`. -/
def typeofVariable (x : String) : machine.Computation machine.Value :=
  match generator.localVariable x with
  | some _ => do machine.operation .typeOf [← machine.load x]
  | none => machine.operation (.typeofFromScope x) []

mutual

/-- **What the code of an expression does.** -/
def evaluate : Expression N F → machine.Computation machine.Value
  | .resolve x => machine.read generator x
  | .this => machine.load "this"
  | .number value => pure (machine.constant (.number value))
  | .constant value => pure (machine.constant value)
  | .regExp pattern flags => machine.operation (.newRegExp pattern flags) []
  | .function body => machine.operation (.newFunction body) []
  | .array elements elisions => do
    let array ← machine.operation .newArray []
    evaluateEntries elements array
    machine.operation (.elide (elisions.getD 0)) [array]
  | .object properties => do
    let object ← machine.operation .newObject []
    evaluateEntries properties object
    pure object
  | .bracketAccess base subscript _ => do
    let base ← evaluate base
    let property ← evaluate subscript
    machine.operation .getByVal [base, property]
  | .dotAccess base ident => do machine.operation (.getById ident) [← evaluate base]
  | .functionCall func args => do
    let func ← evaluate func
    let list ← machine.operation .newArguments []
    evaluateEntries args list
    machine.operation .call [func, list]
  | .newExpr expr args => do
    let func ← evaluate expr
    let list ← machine.operation .newArguments []
    evaluateEntries args list
    machine.operation .construct [func, list]
  | .postfixNode op e => do
    match ← evaluateReference e with
    | some ref => ref.increment machine generator op true
    | none => machine.operation .throwReferenceError []
  | .prefixNode op e => do
    match ← evaluateReference e with
    | some ref => ref.increment machine generator op false
    | none => machine.operation .throwReferenceError []
  | .unaryPlus e => do machine.operation .toNumber [← evaluate e]
  | .negate e => do machine.operation .negate [← evaluate e]
  | .bitwiseNot e => do machine.operation .bitwiseNot [← evaluate e]
  | .unary .logicalNot e =>
    do return machine.constant (.boolean !(machine.toBoolean (← evaluate e)))
  | .unary .typeOf e =>
    match e.resolveIdentifier with
    | some x => typeofVariable machine generator x
    | none => do machine.operation .typeOf [← evaluate e]
  | .unary .void e => do
    discard <| evaluate e
    pure (machine.constant .undefined)
  | .unary .delete e => do
    match ← evaluateReference e with
    | some ref => ref.delete machine generator
    | none => do
      discard <| evaluate e
      pure (machine.constant (.boolean true))
  | .logical op e1 e2 => do
    let value ← evaluate e1
    if machine.toBoolean value = (op == .opLogicalAnd) then evaluate e2 else pure value
  | .binary op e1 e2 _ => do
    let value1 ← evaluate e1
    let value2 ← evaluate e2
    machine.operation (.binary op) [value1, value2]
  | .comparison op e1 e2 _ => do
    let value1 ← evaluate e1
    let value2 ← evaluate e2
    machine.operation (.comparison op) [value1, value2]
  | .conditional e e1 e2 => do
    if machine.toBoolean (← evaluate e) then evaluate e1 else evaluate e2
  | .assign op loc right _ _ => do
    match ← evaluateReference loc with
    | some ref => ref.assign machine generator op (evaluate right)
    | none => machine.operation .throwReferenceError []
  | .assignError => machine.operation .throwReferenceError []
  | .deconstructingAssignment bindings initializer =>
    -- the value is described as if it were always wanted; where it is not, the code makes no array
    match bindingMode generator bindings initializer with
    | .argumentsOf x targetPatterns => do
      bindValues machine generator targetPatterns 0 (machine.constant .undefined) fun i => do
        machine.operation .getArgumentByVal [← machine.load x, machine.index i]
      machine.read generator x
    | .elements targetPatterns => do
      let array ← machine.operation .newArray []
      let values ← evaluateElements initializer array
      bindValues machine generator targetPatterns 0 array fun i =>
        pure (values.getD i (machine.constant .undefined))
      pure array
    | .value madeArray => do
      if madeArray then discard <| machine.operation .newArray []
      let value ← evaluate initializer
      bindValue machine generator bindings value
      pure value
  | .comma e1 e2 => do
    discard <| evaluate e1
    evaluate e2

/-- Evaluates the parts of a location, and nothing if the expression is none. -/
def evaluateReference : Expression N F → machine.Computation (Option (Reference machine.Value))
  | .resolve x => pure (some (.name x))
  | .bracketAccess base subscript _ => do
    let base ← evaluate base
    let property ← evaluate subscript
    pure (some (.property base property))
  | .dotAccess base ident => do return some (.namedProperty (← evaluate base) ident)
  | _ => pure none

/-- Evaluates the entries of an argument list or of a literal, and puts each at its place. -/
def evaluateEntries : EntryList N F → machine.Value → machine.Computation Unit
  | .nil, _ => pure ()
  | .cons kind e next, list => do
    let value ← evaluate e
    discard <| machine.operation (.append kind) [list, value]
    evaluateEntries next list

/-- Evaluates the elements of an array literal for a direct binding, and nothing of another
expression. -/
def evaluateElements : Expression N F → machine.Value → machine.Computation (List machine.Value)
  | .array elements _, array => evaluateElementList elements 0 array
  | _, _ => pure []

/-- Evaluates the elements from the `i`th on, and puts each into the array that is the result. -/
def evaluateElementList : EntryList N F → Nat → machine.Value →
    machine.Computation (List machine.Value)
  | .nil, _, _ => pure []
  | .cons _ e next, i, array => do
    let value ← evaluate e
    discard <| machine.operation (.putByIndex i) [array, value]
    return value :: (← evaluateElementList next (i + 1) array)

end

/-- The operands that a binary operator gets: without a copy the register of a local variable on the
left is read after the right operand has been evaluated. -/
def evaluateOperands (b : BinaryOperation N F) :
    machine.Computation (machine.Value × machine.Value) := do
  let value1 ← evaluate machine generator b.left
  let value2 ← evaluate machine generator b.right
  match b.left.resolveIdentifier with
  | some x =>
    if (generator.localVariable x).isSome && generator.skipsCopy b then
      return (← machine.load x, value2)
    else return (value1, value2)
  | none => return (value1, value2)

end Evaluation

end JavaScriptCore.Bytecompiler.LeftHandSide
