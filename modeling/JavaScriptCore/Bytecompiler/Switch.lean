/-
# Switch statements: `SwitchNode` and `CaseBlockNode`

`tryTableSwitch` looks at the expressions of the case clauses.  When they are all integers or all
strings, and there are at least three, it chooses one of three instructions with a jump table:
`op_switch_imm` for integers that lie close together, `op_switch_char` for such characters,
`op_switch_string` for other strings.  Otherwise `emitBytecodeForBlock` emits a chain of
comparisons.  The statements of the clauses follow in the order of the source, each behind its
label, so that control falls from one clause into the next.

The statements of a clause are the words of their code.  An expression that is neither a number nor
a string is evaluated by the environment.  The switch expression leaves its value in the register
that `emitNode` returns: a new temporary, or the register of a variable when the expression is a
variable (or an assignment to one).
-/
import Mathlib.Data.UInt
import JavaScriptCore.Lib.PartialMap
import JavaScriptCore.Runtime.Double
import JavaScriptCore.Runtime.Operations

namespace JavaScriptCore.Bytecompiler.Switch

open Operations JavaScriptCore.Runtime

/-! ## 1. The statement -/

/-- The expression of a case clause: a `NumberNode`, a `StringNode` or any other node. -/
inductive ClauseExpression (Leaf : Type) where
  | number (value : Double)
  | string (value : List UInt16)
  | other (l : Leaf)

/-- `isNumber` or `isString`. -/
def ClauseExpression.isLiteral {Leaf : Type} : ClauseExpression Leaf → Bool
  | .other _ => false
  | _ => true

/-- `CaseBlockNode`: the clauses before and after the default clause. -/
structure CaseBlockNode (Leaf : Type) where
  list1 : List (ClauseExpression Leaf)
  hasDefaultClause : Bool
  list2 : List (ClauseExpression Leaf)

/-- The expressions of all clauses. -/
def CaseBlockNode.clauses {Leaf : Type} (block : CaseBlockNode Leaf) :
    List (ClauseExpression Leaf) :=
  block.list1 ++ block.list2

/-- The code of the statements of the clauses, by their number, and of the default clause. -/
structure Bodies (W : Type) where
  clause : Nat → List W
  defaultClause : List W

/-- The switch expression, by the register in which its code leaves the value. -/
inductive SwitchExpression (Leaf Variable : Type) where
  | inTemporary (l : Leaf)
  | inVariable (l : Leaf) (x : Variable)

/-! ## 2. The choice of the instruction -/

inductive SwitchKind where
  | unset
  | number
  | string
  | neither
  deriving DecidableEq, Repr

/-- The bits of a kind. -/
def SwitchKind.bits : SwitchKind → BitVec 2
  | .unset => 0
  | .number => 1
  | .string => 2
  | .neither => 3

/-- `typeForTable & ~kind`. -/
def SwitchKind.hasOther (typeForTable kind : SwitchKind) : Bool :=
  typeForTable.bits &&& ~~~kind.bits != 0

/-- `SwitchInfo::SwitchType`. -/
inductive SwitchType where
  | none
  | immediate
  | character
  | string
  deriving DecidableEq, Repr

/-- What `processClauseList` gathers. -/
structure Scan (Leaf : Type) where
  literalVector : List (ClauseExpression Leaf)
  typeForTable : SwitchKind
  singleCharacterSwitch : Bool
  minNum : Int
  maxNum : Int

section Scanning

variable {Leaf : Type}

/-- The smallest and the largest integer so far. -/
def Scan.note (s : Scan Leaf) (intVal : Int) : Scan Leaf :=
  { s with
    minNum := if intVal < s.minNum then intVal else s.minNum
    maxNum := if intVal > s.maxNum then intVal else s.maxNum }

def processClauseList : List (ClauseExpression Leaf) → Scan Leaf → Scan Leaf
  | [], s => s
  | clauseExpression :: list, s =>
    let s := { s with literalVector := s.literalVector ++ [clauseExpression] }
    match clauseExpression with
    | .number value =>
      let intVal := staticCastInt value
      if s.typeForTable.hasOther .number || !value.eqInt intVal then
        { s with typeForTable := .neither }
      else processClauseList list { s.note intVal with typeForTable := .number }
    | .string value =>
      if s.typeForTable.hasOther .string then { s with typeForTable := .neither }
      else
        let single := s.singleCharacterSwitch && value.length == 1
        let s := if single then s.note (value.headD 0).toNat else s
        processClauseList list { s with singleCharacterSwitch := single, typeForTable := .string }
    | .other _ => { s with typeForTable := .neither }

/-- `s_tableSwitchMinimum`. -/
def tableSwitchMinimum : Nat := 3

/-- The integers lie close together.  The difference is an `int32_t`; the division is one of
`size_t`. -/
def Scan.isDense (s : Scan Leaf) : Bool :=
  let range := (s.maxNum - s.minNum).bmod (2 ^ 32)
  s.minNum ≤ s.maxNum ∧ range ≤ 1000 ∧ (range % 2 ^ 64).toNat / s.literalVector.length < 10

/-- The state in which `emitBytecodeForBlock` calls `tryTableSwitch`. -/
def Scan.start : Scan Leaf where
  literalVector := []
  typeForTable := .unset
  singleCharacterSwitch := true
  minNum := 2 ^ 31 - 1
  maxNum := -2 ^ 31

def tryTableSwitch (block : CaseBlockNode Leaf) : SwitchType × Scan Leaf :=
  if block.clauses.length < tableSwitchMinimum then (.none, Scan.start)
  else
    let scan := processClauseList block.list2 (processClauseList block.list1 Scan.start)
    match scan.typeForTable with
    | .unset => (.none, scan)
    | .neither => (.none, scan)
    | .number => (if scan.isDense then .immediate else .none, scan)
    | .string => (if scan.singleCharacterSwitch && scan.isDense then .character else .string, scan)

end Scanning

/-! ## 3. Jump tables -/

/-- `UnlinkedSimpleJumpTable`. -/
structure SimpleJumpTable where
  min : Int
  branchOffsets : List Int

/-- `SimpleJumpTable::add`. -/
def SimpleJumpTable.add (table : SimpleJumpTable) (key : Int) (offset : Int) : SimpleJumpTable :=
  if table.branchOffsets.getD key.toNat 0 = 0 then
    { table with branchOffsets := table.branchOffsets.set key.toNat offset }
  else table

/-- `SimpleJumpTable::offsetForValue`. -/
def SimpleJumpTable.offsetForValue (table : SimpleJumpTable) (value defaultOffset : Int) : Int :=
  if value ≥ table.min ∧ (value - table.min).toNat < table.branchOffsets.length then
    let offset := table.branchOffsets.getD (value - table.min).toNat 0
    if offset ≠ 0 then offset else defaultOffset
  else defaultOffset

section Tables

variable {Leaf : Type}

/-- `keyForImmediateSwitch`; the node is a number. -/
def keyForImmediateSwitch (node : ClauseExpression Leaf) (min : Int) : Int :=
  match node with
  | .number value => staticCastInt value - min
  | _ => 0

/-- `keyForCharacterSwitch`; the node is a string of one character. -/
def keyForCharacterSwitch (node : ClauseExpression Leaf) (min : Int) : Int :=
  match node with
  | .string value => (value.headD 0).toNat - min
  | _ => 0

/-- The size of a table.  It is computed as an `int32_t` and converted to a `size_t`. -/
def tableSize (min max : Int) : Nat := ((max - min + 1).bmod (2 ^ 32) % 2 ^ 64).toNat

/-- `prepareJumpTableForSwitch`: the nodes come with the offsets of their labels. -/
def prepareJumpTableForSwitch (nodes : List (ClauseExpression Leaf × Int)) (min max : Int)
    (keyGetter : ClauseExpression Leaf → Int → Int) : SimpleJumpTable :=
  nodes.foldl (fun table node => table.add (keyGetter node.1 min) node.2)
    { min := min, branchOffsets := List.replicate (tableSize min max) 0 }

def prepareJumpTableForStringSwitch (nodes : List (ClauseExpression Leaf × Int)) :
    PartialMap (List UInt16) Int :=
  nodes.foldl (fun table node =>
    match node.1 with
    | .string value => table.add value node.2
    | _ => table) PartialMap.empty

end Tables

/-! ## 4. Emission -/

/-- The code that dispatches. -/
inductive Dispatch (Leaf : Type) where
  | compareChain (tests : List (ClauseExpression Leaf × Nat)) (defaultLocation : Nat)
  | switchImm (address : Nat) (table : SimpleJumpTable) (defaultOffset : Int)
  | switchChar (address : Nat) (table : SimpleJumpTable) (defaultOffset : Int)
  | switchString (address : Nat) (table : PartialMap (List UInt16) Int) (defaultOffset : Int)

/-- The code of a case block: the dispatch, and behind it the words of the statements. -/
structure Emitted (Leaf W : Type) where
  dispatch : Dispatch Leaf
  bodyLocation : Nat
  code : List W

section Emission

variable {Leaf W : Type}

/-- Emits the clauses of a list one after the other, from the clause with number `i` on: the
locations of their labels, and the code. -/
def emitClauses (bodies : Bodies W) : List (ClauseExpression Leaf) → Nat → Nat → List Nat × List W
  | [], _, _ => ([], [])
  | _ :: list, i, location =>
    let body := bodies.clause i
    let rest := emitClauses bodies list (i + 1) (location + body.length)
    (location :: rest.1, body ++ rest.2)

/-- What the labels are for: the comparisons of `emitBytecodeForBlock`, or the table that
`endSwitch` fills when the labels have been bound.  `Label::bind` gives the distance from the switch
instruction. -/
def emitDispatch (address : Nat) (clauses : List (ClauseExpression Leaf)) (switchType : SwitchType)
    (scan : Scan Leaf) (labelVector : List Nat) (defaultLabel : Nat) : Dispatch Leaf :=
  let bind (label : Nat) : Int := (label : Int) - address
  let nodes := scan.literalVector.zip (labelVector.map bind)
  match switchType with
  | .none => .compareChain (clauses.zip labelVector) defaultLabel
  | .immediate => .switchImm address
      (prepareJumpTableForSwitch nodes scan.minNum scan.maxNum keyForImmediateSwitch)
      (bind defaultLabel)
  | .character => .switchChar address
      (prepareJumpTableForSwitch nodes scan.minNum scan.maxNum keyForCharacterSwitch)
      (bind defaultLabel)
  | .string => .switchString address (prepareJumpTableForStringSwitch nodes) (bind defaultLabel)

/-- `emitBytecodeForBlock`, at an address.  `expressionSize` is the size of the code of an
expression. -/
def emitBytecodeForBlock (address : Nat) (expressionSize : ClauseExpression Leaf → Nat)
    (block : CaseBlockNode Leaf) (bodies : Bodies W) : Emitted Leaf W :=
  let (switchType, scan) := tryTableSwitch block
  let bodyLocation := match switchType with
    -- a comparison and a conditional jump for each clause, and the jump to the default label
    | .none => address + (block.clauses.map fun e => expressionSize e + 4 + 3).sum + 2
    | _ => address + 4
  let clauses1 := emitClauses bodies block.list1 0 bodyLocation
  let location1 := bodyLocation + clauses1.2.length
  let defaultCode := if block.hasDefaultClause then bodies.defaultClause else []
  let location2 := location1 + defaultCode.length
  let clauses2 := emitClauses bodies block.list2 block.list1.length location2
  let defaultLabel := if block.hasDefaultClause then location1 else location2 + clauses2.2.length
  { dispatch := emitDispatch address block.clauses switchType scan (clauses1.1
    ++ clauses2.1) defaultLabel
    bodyLocation := bodyLocation
    code := clauses1.2 ++ defaultCode ++ clauses2.2 }

end Emission

/-! ## 5. Execution -/

/-- **An environment of a switch statement**: what the expressions do, what is in the register of a
variable, and when two objects are the same. -/
structure SwitchEnvironment (Leaf Variable : Type) where
  World : Type
  Exception : Type
  Object : Type
  evaluate : Leaf → ExceptT Exception (StateM World) (Value Double Object)
  readVariable : Variable → World → Value Double Object
  sameObject : Object → Object → Bool

section Execution

variable {Leaf Variable W : Type} (env : SwitchEnvironment Leaf Variable)

/-- The computations of an environment. -/
abbrev SwitchEnvironment.Computation (α : Type) : Type := ExceptT env.Exception (StateM env.World) α

/-- The values of an environment. -/
abbrev SwitchEnvironment.Value : Type := Operations.Value Double env.Object

/-- `JSValue::strictEqual`. -/
def strictEqual : env.Value → env.Value → Bool
  | .primitive .undefined, .primitive .undefined => true
  | .primitive .null, .primitive .null => true
  | .primitive (.boolean b), .primitive (.boolean b') => b == b'
  | .primitive (.number d), .primitive (.number d') => d.equals d'
  | .primitive (.string s), .primitive (.string s') => s == s'
  | .object o, .object o' => env.sameObject o o'
  | _, _ => false

/-- The value of the expression of a clause. -/
def evaluateClause : ClauseExpression Leaf → env.Computation env.Value
  | .number value => pure (.primitive (.number value))
  | .string value => pure (.primitive (.string value))
  | .other l => env.evaluate l

/-- What is in the register of the switch expression, whose value was `v`. -/
def readRegister (e : SwitchExpression Leaf Variable) (v : env.Value) : env.Computation env.Value :=
  match e with
  | .inTemporary _ => pure v
  | .inVariable _ x => do pure (env.readVariable x (← get))

/-- The value of the switch expression. -/
def evaluateSwitchExpression (e : SwitchExpression Leaf Variable) : env.Computation env.Value :=
  match e with
  | .inTemporary l => env.evaluate l
  | .inVariable l x => do
    let _ ← env.evaluate l
    pure (env.readVariable x (← get))

/-- The comparisons: each evaluates its expression, and compares the value with what is in the
register. -/
def executeCompareChain (e : SwitchExpression Leaf Variable) (v : env.Value)
    (defaultLocation : Nat) :
    List (ClauseExpression Leaf × Nat) → env.Computation Nat
  | [] => pure defaultLocation
  | (clause, location) :: tests => do
    let clauseVal ← evaluateClause env clause
    let switchExpression ← readRegister env e v
    if strictEqual env clauseVal switchExpression then pure location
    else executeCompareChain e v defaultLocation tests

variable {env} in
/-- The distance that `op_switch_imm` jumps.  A number may be stored as a double. -/
def switchImmOffset (table : SimpleJumpTable) (defaultOffset : Int) (scrutinee : env.Value) : Int :=
  match scrutinee with
  | .primitive (.number value) =>
    let intValue := staticCastInt value
    if value.eqInt intValue then table.offsetForValue intValue defaultOffset else defaultOffset
  | _ => defaultOffset

variable {env} in
/-- The distance that `op_switch_char` jumps. -/
def switchCharOffset (table : SimpleJumpTable) (defaultOffset : Int) (scrutinee : env.Value) :
    Int :=
  match scrutinee with
  | .primitive (.string [c]) => table.offsetForValue c.toNat defaultOffset
  | _ => defaultOffset

variable {env} in
/-- The distance that `op_switch_string` jumps. -/
def switchStringOffset (table : PartialMap (List UInt16) Int) (defaultOffset : Int)
    (scrutinee : env.Value) : Int :=
  match scrutinee with
  | .primitive (.string s) => (table.find s).getD defaultOffset
  | _ => defaultOffset

/-- The dispatch: the location where it goes on. -/
def executeDispatch (e : SwitchExpression Leaf Variable) (v : env.Value) :
    Dispatch Leaf → env.Computation Nat
  | .compareChain tests defaultLocation => executeCompareChain env e v defaultLocation tests
  | .switchImm address table defaultOffset => do
    let scrutinee ← readRegister env e v
    pure (address + switchImmOffset table defaultOffset scrutinee).toNat
  | .switchChar address table defaultOffset => do
    let scrutinee ← readRegister env e v
    pure (address + switchCharOffset table defaultOffset scrutinee).toNat
  | .switchString address table defaultOffset => do
    let scrutinee ← readRegister env e v
    pure (address + switchStringOffset table defaultOffset scrutinee).toNat

/-- **The code of a switch statement**: evaluates the expression, dispatches, and gives the words of
the statements that are executed. -/
def executeSwitch (e : SwitchExpression Leaf Variable) (emitted : Emitted Leaf W) :
    env.Computation (List W) := do
  let v ← evaluateSwitchExpression env e
  let location ← executeDispatch env e v emitted.dispatch
  pure (emitted.code.drop (location - emitted.bodyLocation))

end Execution

end JavaScriptCore.Bytecompiler.Switch
