/-
# Branch code for conditions

`emitNodeInConditionContext` compiles an expression whose value only decides where the program goes
on.  It is given a label for each outcome and is told which of the two is emitted next, so that one
of them is reached by falling through.  The logical operators need no value, a comparison with a
constant is folded into the branch on the other operand where the static types allow it, and a jump
on the result of a comparison that was emitted just before takes the comparison back and becomes a
comparing jump.

The instructions are those of `bytecode/Opcode.h` that this code uses.  A leaf is an expression that
is none of these nodes.  Its code is whatever its class emits; the generator sees no more of it than
its last instruction.  An `InstanceOfNode`, whose code has a label of its own, is such a leaf.
-/
import JavaScriptCore.Bytecompiler.LeftHandSide
import JavaScriptCore.Parser.ResultType
import JavaScriptCore.Runtime.Equality

namespace JavaScriptCore.Bytecompiler.Conditions

open Operations
open JavaScriptCore.Parser
open JavaScriptCore.Runtime (Double)

/-! ## 1. Instructions -/

/-- `RegisterID`: a local variable, a temporary or a register of the constant pool. -/
inductive Register where
  | localVariable (index : Nat)
  | temporary (index : Nat)
  | constant (value : Primitive Double)

/-- `Label`, by its number. -/
abbrev Label : Type := Nat

/-- The strings that `typeof` gives. -/
inductive TypeName where
  | undefined | boolean | number | string | object | function
  deriving DecidableEq, Repr

/-- The string of a type. -/
def TypeName.text : TypeName → List UInt16
  | .undefined => ascii "undefined"
  | .boolean => ascii "boolean"
  | .number => ascii "number"
  | .string => ascii "string"
  | .object => ascii "object"
  | .function => ascii "function"

/-- The instructions that do not jump.  `compare` stands for `op_eq`, `op_neq`, `op_stricteq`,
`op_nstricteq`, `op_less`, `op_lesseq`, `op_greater`, `op_greatereq` and `op_in`, `isType` for
`op_is_undefined` and the five like it.  `block` is code that ends in any other instruction. -/
inductive Operation (Block : Type) where
  | block (code : Block)
  | move (dst src : Register)
  | not (dst src : Register)
  | eqNull (dst src : Register)
  | neqNull (dst src : Register)
  | typeOf (dst src : Register)
  | isType (type : TypeName) (dst src : Register)
  | compare (op : Comparison) (dst src1 src2 : Register)

/-- The comparisons that have jumps of their own. -/
inductive JumpComparison where
  | less | lessEq | greater | greaterEq
  deriving DecidableEq, Repr

/-- The operator of a comparing jump. -/
def JumpComparison.operator : JumpComparison → Comparison
  | .less => .less
  | .lessEq => .lessEq
  | .greater => .greater
  | .greaterEq => .greaterEq

/-- The jumps.  `ifCompare` stands for `op_jless`, `op_jnless` and the six like them. -/
inductive Jump where
  | always (target : Label)
  | ifTrue (cond : Register) (target : Label)
  | ifFalse (cond : Register) (target : Label)
  | ifNull (src : Register) (target : Label)
  | ifNotNull (src : Register) (target : Label)
  | ifCompare (op : JumpComparison) (negated : Bool) (src1 src2 : Register) (target : Label)

/-- An instruction. -/
inductive Instruction (Block : Type) where
  | operation (o : Operation Block)
  | jump (j : Jump)

/-! ## 2. The generator -/

/-- **The generator**, as far as conditions use it.  `last` is the last instruction while the
peephole optimizations may still see it: `m_lastOpcodeID` is `op_end`, or the opcode of a jump,
where it is `none`.  A label is bound before the last instruction or earlier, and so is every
recorded jump target. -/
structure Generator (Block : Type) where
  settled : List (Instruction Block)
  last : Option (Operation Block)
  locations : List (Option Nat)
  lastJumpTarget : Option Nat
  locations_le : ∀ q, some q ∈ locations → q ≤ settled.length
  lastJumpTarget_le : ∀ q, lastJumpTarget = some q → q ≤ settled.length

namespace Generator

variable {Block : Type} (g : Generator Block)

/-- `instructions()`. -/
def instructions : List (Instruction Block) := g.settled ++ (g.last.map .operation).toList

/-- The number of instructions. -/
def size : Nat := g.instructions.length

theorem length_settled_le : g.settled.length ≤ g.size := by simp [size, instructions]

/-- Emits an instruction that does not jump. -/
def emitOperation (o : Operation Block) : Generator Block where
  settled := g.instructions
  last := some o
  locations := g.locations
  lastJumpTarget := g.lastJumpTarget
  locations_le q hq := Nat.le_trans (g.locations_le q hq) g.length_settled_le
  lastJumpTarget_le q hq := Nat.le_trans (g.lastJumpTarget_le q hq) g.length_settled_le

/-- Emits a jump. -/
def emitBranch (j : Jump) : Generator Block where
  settled := g.instructions ++ [.jump j]
  last := none
  locations := g.locations
  lastJumpTarget := g.lastJumpTarget
  locations_le q hq := by
    rw [List.length_append]
    exact Nat.le_add_right_of_le (Nat.le_trans (g.locations_le q hq) g.length_settled_le)
  lastJumpTarget_le q hq := by
    rw [List.length_append]
    exact Nat.le_add_right_of_le (Nat.le_trans (g.lastJumpTarget_le q hq) g.length_settled_le)

/-- `rewindBinaryOp` and `rewindUnaryOp`: takes the last instruction back. -/
def rewind : Generator Block := { g with last := none }

def newLabel : Label × Generator Block :=
  (g.locations.length,
    { g with
      locations := g.locations ++ [none]
      locations_le := fun q hq => g.locations_le q (by simpa using hq) })

/-- `isForward`: the label is not bound yet. -/
def isForward (l : Label) : Bool := (g.locations[l]?.join).isNone

def setLocation (l : Label) (location : Nat) : List (Option Nat) :=
  g.locations.set l (some location)

/-- `emitLabel`.  Where the last label was emitted at the same place the peephole optimizations are
disabled already. -/
def emitLabel (l : Label) : Generator Block :=
  if h : g.lastJumpTarget = some g.size then
    { g with
      locations := g.setLocation l g.size
      locations_le := fun q hq => by
        rcases List.mem_or_eq_of_mem_set hq with hq | hq
        · exact g.locations_le q hq
        · cases hq
          exact g.lastJumpTarget_le _ h }
  else
    { settled := g.instructions
      last := none
      locations := g.setLocation l g.size
      lastJumpTarget := some g.size
      locations_le := fun q hq => by
        rcases List.mem_or_eq_of_mem_set hq with hq | hq
        · exact Nat.le_trans (g.locations_le q hq) g.length_settled_le
        · cases hq
          exact le_rfl
      lastJumpTarget_le := fun q hq => by
        cases hq
        exact le_rfl }

end Generator

/-! ## 3. Registers

The temporaries are reference counted, and `newTemporary` takes back all those behind the last one
that is referenced.  References are taken and given up in the order of a stack here, so the state of
all counts is one number `held`: the temporaries below it are referenced, and `newTemporary` returns
the one with that index. -/

namespace Register

/-- `index() == index()`. -/
def sameIndex : Register → Register → Bool
  | .localVariable i, .localVariable j => i == j
  | .temporary i, .temporary j => i == j
  | _, _ => false

/-- `isTemporary() && !refCount()`. -/
def isFree (held : Nat) : Register → Bool
  | .temporary k => held ≤ k
  | _ => false

/-- `isTemporary()`. -/
def isTemporary : Register → Bool
  | .temporary _ => true
  | _ => false

/-- The state of the counts while a register is in a `RefPtr`. -/
def hold (held : Nat) : Register → Nat
  | .temporary k => max held (k + 1)
  | _ => held

end Register

def tempDestination (held : Nat) : Option Register → Register
  | some (.temporary k) => .temporary k
  | _ => .temporary held

def finalDestination (held : Nat) (originalDst : Option Register) (tempDst : Option Register) :
    Register :=
  match originalDst, tempDst with
  | some dst, _ => dst
  | none, some (.temporary k) => .temporary k
  | none, _ => .temporary held

/-! ## 4. Jumps -/

section Jumps

variable {Block : Type}

/-- The comparisons with a jump of their own. -/
def jumpComparison : Comparison → Option JumpComparison
  | .less => some .less
  | .lessEq => some .lessEq
  | .greater => some .greater
  | .greaterEq => some .greaterEq
  | _ => none

/-- The jump that `emitJumpIfTrue` puts in the place of the last instruction. -/
def fusedJumpIfTrue (held : Nat) (cond : Register) (target : Label) (g : Generator Block) :
    Option Jump :=
  match g.last with
  | some (.compare op dst src1 src2) =>
    match jumpComparison op with
    | some op =>
      if cond.sameIndex dst && cond.isFree held then some (.ifCompare op false src1 src2 target)
      else none
    | none => none
  | some (.eqNull dst src) =>
    if g.isForward target && cond.sameIndex dst && cond.isFree held then some (.ifNull src target)
    else none
  | some (.neqNull dst src) =>
    if g.isForward target && cond.sameIndex dst && cond.isFree held then
      some (.ifNotNull src target) else none
  | _ => none

def emitJumpIfTrue (held : Nat) (cond : Register) (target : Label) (g : Generator Block) :
    Generator Block :=
  match fusedJumpIfTrue held cond target g with
  | some j => g.rewind.emitBranch j
  | none => g.emitBranch (.ifTrue cond target)

/-- The jump that `emitJumpIfFalse` puts in the place of the last instruction. -/
def fusedJumpIfFalse (held : Nat) (cond : Register) (target : Label) (g : Generator Block) :
    Option Jump :=
  match g.last with
  | some (.compare op dst src1 src2) =>
    match jumpComparison op with
    | some op =>
      if g.isForward target && cond.sameIndex dst && cond.isFree held then
        some (.ifCompare op true src1 src2 target)
      else none
    | none => none
  | some (.not dst src) =>
    if cond.sameIndex dst && cond.isFree held then some (.ifTrue src target) else none
  | some (.eqNull dst src) =>
    if g.isForward target && cond.sameIndex dst && cond.isFree held then
      some (.ifNotNull src target) else none
  | some (.neqNull dst src) =>
    if g.isForward target && cond.sameIndex dst && cond.isFree held then some (.ifNull src target)
    else none
  | _ => none

def emitJumpIfFalse (held : Nat) (cond : Register) (target : Label) (g : Generator Block) :
    Generator Block :=
  match fusedJumpIfFalse held cond target g with
  | some j => g.rewind.emitBranch j
  | none => g.emitBranch (.ifFalse cond target)

end Jumps

/-! ## 5. Expressions -/

/-- What a static type promises about a value: a boolean is one, and an `int32` is a number and not
NaN. -/
def Covers {Object : Type} (type : ResultType) (value : Value Double Object) : Prop :=
  (type.definitelyIsBoolean = true → ∃ b, value = .primitive (.boolean b)) ∧
  (type.isInt32 = true → ∃ d, d ≠ .nan ∧ value = .primitive (.number d))

/-- `ConstantNode`, with the type that it was made with. -/
structure ConstantNode where
  value : Primitive Double
  resultDescriptor : ResultType
  covers : ∀ Object : Type, Covers resultDescriptor (.primitive value : Value Double Object)

/-- **The expressions.**  The comparisons carry `m_rightHasAssignments`. -/
inductive Condition (Leaf : Type) where
  | leaf (l : Leaf)
  | constant (node : ConstantNode)
  | logicalNot (expr : Condition Leaf)
  | logical (op : LogicalOperator) (expr1 expr2 : Condition Leaf)
  | comparison (op : Comparison) (expr1 expr2 : Condition Leaf) (rightHasAssignments : Bool)

/-- The code of a leaf: a part that the generator does not look into, and its last instruction if it
does. -/
structure LeafCode (Block : Type) where
  block : Option Block
  last : Option (Operation Block)
  result : Register

/-- What the generator knows about the leaves and about the function it compiles.  `emitBytecode`
gets the state of the reference counts and the destination. -/
structure LeafEmitter (Leaf Block : Type) where
  context : LeftHandSide.GeneratorContext
  resultDescriptor : Leaf → ResultType
  isPure : Leaf → Bool
  emitBytecode : Leaf → Nat → Option Register → LeafCode Block

namespace Condition

variable {Leaf Block : Type} (leaves : LeafEmitter Leaf Block)

def resultDescriptor : Condition Leaf → ResultType
  | .leaf l => leaves.resultDescriptor l
  | .constant node => node.resultDescriptor
  | .logicalNot _ => ResultType.booleanType
  | .logical _ expr1 expr2 => ResultType.forLogicalOp expr1.resultDescriptor expr2.resultDescriptor
  -- an `InNode` is made without a type
  | .comparison .inOperator _ _ _ => ResultType.unknownType
  | .comparison _ _ _ _ => ResultType.booleanType

def isPure : Condition Leaf → Bool
  | .leaf l => leaves.isPure l
  | .constant _ => true
  | _ => false

/-- `isConstant`, with the value. -/
def constantValue : Condition Leaf → Option (Primitive Double)
  | .constant node => some node.value
  | _ => none

def isNull : Condition Leaf → Bool
  | .constant ⟨.null, _, _⟩ => true
  | _ => false

def isString : Condition Leaf → Bool
  | .constant ⟨.string _, _, _⟩ => true
  | _ => false

end Condition

/-! ## 6. Code for values -/

section Values

variable {Leaf Block : Type} (leaves : LeafEmitter Leaf Block)

/-- `emitNode` of one expression: from the state of the reference counts, the destination and the
generator to the register with the value. -/
abbrev Emitter (Block : Type) : Type :=
  Nat → Option Register → Generator Block → Register × Generator Block

/-- The code of a leaf. -/
def emitLeaf (l : Leaf) : Emitter Block := fun held dst g =>
  let code := leaves.emitBytecode l held dst
  let g := match code.block with
    | some b => g.emitOperation (.block b)
    | none => g
  let g := match code.last with
    | some o => g.emitOperation o
    | none => g
  (code.result, g)

def emitLoad (value : Primitive Double) : Emitter Block := fun _ dst g =>
  match dst with
  | some dst => (dst, g.emitOperation (.move dst (.constant value)))
  | none => (.constant value, g)

/-- `UnaryOpNode::emitBytecode`, of a `LogicalNotNode`. -/
def emitLogicalNot (expr : Emitter Block) : Emitter Block := fun held dst g =>
  let (src, g) := expr held none g
  let dst := finalDestination held dst none
  (dst, g.emitOperation (.not dst src))

def moveToDestinationIfNeeded (dst : Option Register) (src : Register) (g : Generator Block) :
    Register × Generator Block :=
  match dst with
  | some dst => if dst.sameIndex src then (src, g) else (dst, g.emitOperation (.move dst src))
  | none => (src, g)

/-- `LogicalOpNode::emitBytecode`. -/
def emitLogicalOp (op : LogicalOperator) (expr1 expr2 : Emitter Block) : Emitter Block :=
  fun held dst g =>
  let temp := tempDestination held dst
  let held := temp.hold held
  let (target, g) := g.newLabel
  let (_, g) := expr1 held (some temp) g
  let g := match op with
    | .opLogicalAnd => emitJumpIfFalse held temp target g
    | .opLogicalOr => emitJumpIfTrue held temp target g
  let (_, g) := expr2 held (some temp) g
  moveToDestinationIfNeeded dst temp (g.emitLabel target)

def emitNodeForLeftHandSide (rightHasAssignments rightIsPure : Bool) (node : Emitter Block)
    (held : Nat) (g : Generator Block) : Register × Generator Block :=
  if leaves.context.leftHandSideNeedsCopy rightHasAssignments rightIsPure then
    let dst := Register.temporary held
    let (_, g) := node (held + 1) (some dst) g
    (dst, g)
  else node held none g

/-- The type that a string constant names. -/
def typeNamed (value : List UInt16) : Option TypeName :=
  [TypeName.undefined, .boolean, .number, .string, .object, .function].find? fun type =>
    value == type.text

/-- The operation that `emitEqualityOp` puts in the place of a `typeof`. -/
def fusedTypeof (dst src1 src2 : Register) (g : Generator Block) : Option (Operation Block) :=
  match g.last, src2 with
  | some (.typeOf typeofDst typeofSrc), .constant (.string value) =>
    if src1.sameIndex typeofDst && src1.isTemporary then
      (typeNamed value).map fun type => .isType type dst typeofSrc
    else none
  | _, _ => none

def emitEqualityOp (op : Comparison) (dst src1 src2 : Register) (g : Generator Block) :
    Generator Block :=
  match fusedTypeof dst src1 src2 g with
  | some o => g.rewind.emitOperation o
  | none => g.emitOperation (.compare op dst src1 src2)

/-- `m_lastOpcodeID == op_typeof`. -/
def lastIsTypeof (g : Generator Block) : Bool :=
  match g.last with
  | some (.typeOf _ _) => true
  | _ => false

/-- The comparison of an expression with `null` by `op_eq_null` or `op_neq_null`. -/
def emitNullComparison (operation : Register → Register → Operation Block) (expr : Emitter Block) :
    Emitter Block := fun held dst g =>
  let src := tempDestination held dst
  let (_, g) := expr (src.hold held) (some src) g
  let dst := finalDestination (src.hold held) dst (some src)
  (dst, g.emitOperation (operation dst src))

/-- `EqualNode::emitBytecode` and `StrictEqualNode::emitBytecode`, after the special cases. -/
def emitEqual (op : Comparison) (rightHasAssignments rightIsPure : Bool)
    (left right : Emitter Block) : Emitter Block := fun held dst g =>
  let (src1, g) := emitNodeForLeftHandSide leaves rightHasAssignments rightIsPure left held g
  let held := src1.hold held
  let (src2, g) := right held none g
  let dst := finalDestination held dst (some src1)
  (dst, emitEqualityOp op dst src1 src2 g)

/-- `BinaryOpNode::emitBytecode` of `!=` and `!==`, after the special cases.  After a `typeof` it
negates the positive comparison, which `emitEqualityOp` can fuse with it. -/
def emitNotEqual (op positive : Comparison) (rightHasAssignments rightIsPure : Bool)
    (left right : Emitter Block) : Emitter Block := fun held dst g =>
  let (src1, g) := emitNodeForLeftHandSide leaves rightHasAssignments rightIsPure left held g
  let held := src1.hold held
  let wasTypeof := lastIsTypeof g
  let (src2, g) := right held none g
  if wasTypeof then
    let tmp := tempDestination held dst
    let held := tmp.hold held
    let g := emitEqualityOp positive (finalDestination held (some tmp) (some src1)) src1 src2 g
    let dst := finalDestination held dst (some tmp)
    (dst, g.emitOperation (.not dst tmp))
  else
    let dst := finalDestination held dst (some src1)
    (dst, g.emitOperation (.compare op dst src1 src2))

/-- `BinaryOpNode::emitBytecode` and `ThrowableBinaryOpNode::emitBytecode` of the other comparisons.
-/
def emitRelation (op : Comparison) (rightHasAssignments rightIsPure : Bool)
    (left right : Emitter Block) : Emitter Block := fun held dst g =>
  let (src1, g) := emitNodeForLeftHandSide leaves rightHasAssignments rightIsPure left held g
  let held := src1.hold held
  let (src2, g) := right held none g
  let dst := finalDestination held dst (some src1)
  (dst, g.emitOperation (.compare op dst src1 src2))

open Condition in
/-- `emitBytecode`. -/
def emitNode : Condition Leaf → Emitter Block
  | .leaf l => emitLeaf leaves l
  | .constant node => emitLoad node.value
  | .logicalNot expr => emitLogicalNot (emitNode expr)
  | .logical op expr1 expr2 => emitLogicalOp op (emitNode expr1) (emitNode expr2)
  | .comparison .equal expr1 expr2 flag =>
    if expr1.isNull then emitNullComparison .eqNull (emitNode expr2)
    else if expr2.isNull then emitNullComparison .eqNull (emitNode expr1)
    else if expr1.isString then
      emitEqual leaves .equal flag (expr2.isPure leaves) (emitNode expr2) (emitNode expr1)
    else emitEqual leaves .equal flag (expr2.isPure leaves) (emitNode expr1) (emitNode expr2)
  | .comparison .strictEqual expr1 expr2 flag =>
    if expr1.isString then
      emitEqual leaves .strictEqual flag (expr2.isPure leaves) (emitNode expr2) (emitNode expr1)
    else emitEqual leaves .strictEqual flag (expr2.isPure leaves) (emitNode expr1) (emitNode expr2)
  | .comparison .notEqual expr1 expr2 flag =>
    if expr1.isNull then emitNullComparison .neqNull (emitNode expr2)
    else if expr2.isNull then emitNullComparison .neqNull (emitNode expr1)
    else if expr1.isString then
      emitNotEqual leaves .notEqual .equal flag (expr1.isPure leaves) (emitNode expr2)
        (emitNode expr1)
    else emitNotEqual leaves .notEqual .equal flag (expr2.isPure leaves) (emitNode expr1)
      (emitNode expr2)
  | .comparison .notStrictEqual expr1 expr2 flag =>
    if expr1.isString then
      emitNotEqual leaves .notStrictEqual .strictEqual flag (expr1.isPure leaves) (emitNode expr2)
        (emitNode expr1)
    else
      emitNotEqual leaves .notStrictEqual .strictEqual flag (expr2.isPure leaves) (emitNode expr1)
        (emitNode expr2)
  | .comparison op expr1 expr2 flag =>
    emitRelation leaves op flag (expr2.isPure leaves) (emitNode expr1) (emitNode expr2)

end Values

/-! ## 7. Code for branches -/

inductive FallThroughMode where
  | fallThroughMeansTrue | fallThroughMeansFalse
  deriving DecidableEq, Repr

def FallThroughMode.invert : FallThroughMode → FallThroughMode
  | .fallThroughMeansTrue => .fallThroughMeansFalse
  | .fallThroughMeansFalse => .fallThroughMeansTrue

inductive TriState where
  | falseTriState | trueTriState | mixedTriState
  deriving DecidableEq, Repr

def triState (b : Bool) : TriState := if b then .trueTriState else .falseTriState

/-- `isInt32` and `asInt32`. -/
def asInt32 : Primitive Double → Option Int
  | .number (.finite q) => if q.den = 1 ∧ -2 ^ 31 ≤ q.num ∧ q.num < 2 ^ 31 then some q.num else none
  | _ => none

def isBoolean : Primitive Double → Bool
  | .boolean _ => true
  | _ => false

def canFoldToBranch (op : Comparison) (expressionType : ResultType) (constant : Primitive Double) :
    Bool :=
  if expressionType.definitelyIsBoolean && isBoolean constant then true
  else if expressionType.definitelyIsBoolean &&
    (asInt32 constant == some 0 || asInt32 constant == some 1) then
    op == .equal || op == .notEqual
  else if expressionType.isInt32 && asInt32 constant == some 0 then true
  else false

/-- The branch condition that a comparison with this constant becomes. -/
def foldedCondition (op : Comparison) (expressionType : ResultType) (constant : Primitive Double) :
    TriState :=
  if canFoldToBranch op expressionType constant then
    match op with
    | .equal | .strictEqual => triState constant.toBoolean
    | .notEqual | .notStrictEqual => triState (!constant.toBoolean)
    | _ => .mixedTriState
  else .mixedTriState

section Branches

variable {Leaf Block : Type} (leaves : LeafEmitter Leaf Block)

/-- `tryFoldToBranch`: the branch condition, and whether the branch expression is the first operand.
-/
def tryFoldToBranch (op : Comparison) (expr1 expr2 : Condition Leaf) : TriState × Bool :=
  match expr1.constantValue, expr2.constantValue with
  | some value, _ => (foldedCondition op (expr2.resultDescriptor leaves) value, false)
  | none, some value => (foldedCondition op (expr1.resultDescriptor leaves) value, true)
  | none, none => (.mixedTriState, false)

/-- `emitNodeInConditionContext` of one expression. -/
abbrev BranchEmitter (Block : Type) : Type :=
  Nat → Label → Label → FallThroughMode → Generator Block → Generator Block

/-- `ExpressionNode::emitBytecodeInConditionContext`. -/
def emitBranchOnValue (expr : Emitter Block) : BranchEmitter Block :=
  fun held trueTarget falseTarget mode g =>
  let (result, g) := expr held none g
  match mode with
  | .fallThroughMeansTrue => emitJumpIfFalse held result falseTarget g
  | .fallThroughMeansFalse => emitJumpIfTrue held result trueTarget g

/-- `ConstantNode::emitBytecodeInConditionContext`.  The constants are no objects, so
`pureToBoolean` is never mixed. -/
def emitBranchOnConstant (value : Primitive Double) : BranchEmitter Block :=
  fun _ trueTarget falseTarget mode g =>
    match value.toBoolean, mode with
    | true, .fallThroughMeansFalse => g.emitBranch (.always trueTarget)
    | false, .fallThroughMeansTrue => g.emitBranch (.always falseTarget)
    | _, _ => g

/-- `LogicalOpNode::emitBytecodeInConditionContext`. -/
def emitBranchOnLogicalOp (op : LogicalOperator) (expr1 expr2 : BranchEmitter Block) :
    BranchEmitter Block :=
  fun held trueTarget falseTarget mode g =>
    let (afterExpr1, g) := g.newLabel
    let g := match op with
      | .opLogicalAnd => expr1 held afterExpr1 falseTarget .fallThroughMeansTrue g
      | .opLogicalOr => expr1 held trueTarget afterExpr1 .fallThroughMeansFalse g
    expr2 held trueTarget falseTarget mode (g.emitLabel afterExpr1)

/-- The two targets and the mode, the other way round. -/
def swapTargets (expr : BranchEmitter Block) : BranchEmitter Block :=
  fun held trueTarget falseTarget mode g =>
  expr held falseTarget trueTarget mode.invert g

/-- **`emitNodeInConditionContext`.** -/
def emitNodeInConditionContext : Condition Leaf → BranchEmitter Block
  | .leaf l => emitBranchOnValue (emitNode leaves (.leaf l))
  | .constant node => emitBranchOnConstant node.value
  | .logicalNot expr => swapTargets (emitNodeInConditionContext expr)
  | .logical op expr1 expr2 =>
    emitBranchOnLogicalOp op (emitNodeInConditionContext expr1) (emitNodeInConditionContext expr2)
  | .comparison op expr1 expr2 flag =>
    match tryFoldToBranch leaves op expr1 expr2 with
    | (.mixedTriState, _) => emitBranchOnValue (emitNode leaves (.comparison op expr1 expr2 flag))
    | (.trueTriState, true) => emitNodeInConditionContext expr1
    | (.trueTriState, false) => emitNodeInConditionContext expr2
    | (.falseTriState, true) => swapTargets (emitNodeInConditionContext expr1)
    | (.falseTriState, false) => swapTargets (emitNodeInConditionContext expr2)

end Branches

end JavaScriptCore.Bytecompiler.Conditions
