/-
# What conditions and their code mean

`Condition.evaluate` is the meaning of an expression: the logical operators evaluate their second
operand only if they need it.  `Program.instruction` is the meaning of the code: every position has
an instruction, which returns the next position.

The two are compared over an arbitrary machine.  Its world holds the local variables and everything
else that the leaves and the conversions read and change, so two computations over it that are equal
evaluate the same leaves in the same order.  The temporaries are the code's own.
-/
import JavaScriptCore.Bytecompiler.Conditions
import JavaScriptCore.Lib.LeadsTo

namespace JavaScriptCore.Bytecompiler.Conditions

open Operations
open JavaScriptCore.Parser
open JavaScriptCore.Runtime (Double)
open Lib.Effects

/-! ## 1. The machine -/

/-- The state of the machine. -/
structure MachineState (Value World : Type) where
  temporaries : Nat → Value
  world : World

/-- **A machine.**  `runBlock` is what the code of a leaf does that the generator does not look
into. -/
structure Machine (Leaf Block : Type) extends ComparisonEnvironment Leaf where
  getLocal : World → Nat → Operations.Value Double Object
  setLocal : World → Nat → Operations.Value Double Object → World
  runBlock : Block →
    ExceptT Exception (StateM (MachineState (Operations.Value Double Object) World)) Unit

namespace Machine

variable {Leaf Block : Type} (machine : Machine Leaf Block)

/-- The values of a machine. -/
abbrev Value : Type := machine.toComparisonEnvironment.Value

/-- The states of a machine. -/
abbrev State : Type := MachineState machine.Value machine.World

/-- What the expressions compute. -/
abbrev Computation (α : Type) : Type := machine.toComparisonEnvironment.Computation α

/-- What the code computes. -/
abbrev Execution (α : Type) : Type := ExceptT machine.Exception (StateM machine.State) α

abbrev toBoolean (v : machine.Value) : Bool :=
  Operations.toBoolean machine.toComparisonEnvironment v

/-- What `op_eq_null` computes. -/
abbrev isNullish (v : machine.Value) : Bool :=
  Operations.isNullish machine.toComparisonEnvironment v

/-- The instruction of a comparison. -/
abbrev compare (op : Comparison) (v w : machine.Value) : machine.Computation Bool :=
  Operations.compare machine.toComparisonEnvironment op v w

/-- A boolean value. -/
def boolean (b : Bool) : machine.Value := .primitive (.boolean b)

/-- The value in a register. -/
def read (m : machine.State) : Register → machine.Value
  | .localVariable i => machine.getLocal m.world i
  | .temporary k => m.temporaries k
  | .constant value => .primitive value

/-- The state after a register has been written. -/
def write (m : machine.State) (r : Register) (value : machine.Value) : machine.State :=
  match r with
  | .localVariable i => { m with world := machine.setLocal m.world i value }
  | .temporary k => { m with temporaries := fun j => if j = k then value else m.temporaries j }
  | .constant _ => m

/-- A computation on the world. -/
def onWorld {α : Type} (c : machine.Computation α) : machine.Execution α :=
  ofOutcome fun m => ((outcome c m.world).1, { m with world := (outcome c m.world).2 })

/-- Writes a register with what a function makes of the value in another. -/
def transfer (dst src : Register) (f : machine.Value → machine.Value) : machine.Execution Unit :=
  modify fun m => machine.write m dst (f (machine.read m src))

/-- What an instruction that does not jump does. -/
def runOperation : Operation Block → machine.Execution Unit
  | .block code => machine.runBlock code
  | .move dst src => machine.transfer dst src id
  | .not dst src => machine.transfer dst src fun v => machine.boolean !(machine.toBoolean v)
  | .eqNull dst src => machine.transfer dst src fun v => machine.boolean (machine.isNullish v)
  | .neqNull dst src => machine.transfer dst src fun v => machine.boolean !(machine.isNullish v)
  | .typeOf dst src => machine.transfer dst src fun v => .primitive (.string (machine.typeOf v))
  | .isType type dst src => machine.transfer dst src fun v =>
    machine.boolean (machine.typeOf v == type.text)
  | .compare op dst src1 src2 => do
    let m ← get
    let b ← machine.onWorld (machine.compare op (machine.read m src1) (machine.read m src2))
    modify fun m => machine.write m dst (machine.boolean b)

/-- Whether a jump is taken. -/
def jumpTaken : Jump → machine.Execution Bool
  | .always _ => pure true
  | .ifTrue cond _ => do return machine.toBoolean (machine.read (← get) cond)
  | .ifFalse cond _ => do return !machine.toBoolean (machine.read (← get) cond)
  | .ifNull src _ => do return machine.isNullish (machine.read (← get) src)
  | .ifNotNull src _ => do return !machine.isNullish (machine.read (← get) src)
  | .ifCompare op negated src1 src2 _ => do
    let m ← get
    let b ← machine.onWorld (machine.compare op.operator (machine.read m src1)
      (machine.read m src2))
    pure (b != negated)

end Machine

/-- The label a jump goes to. -/
def Jump.target : Jump → Label
  | .always target | .ifTrue _ target | .ifFalse _ target | .ifNull _ target | .ifNotNull _ target
  | .ifCompare _ _ _ _ target => target

/-- The finished code, with the places of its labels. -/
structure Program (Block : Type) where
  code : List (Instruction Block)
  location : Label → Option Nat

/-- The instruction at a position. -/
def Program.instruction {Leaf Block : Type} (program : Program Block) (machine : Machine Leaf Block)
    (pc : Nat) : Option (machine.Execution Nat) :=
  match program.code[pc]? with
  | none => none
  | some (.operation o) => some do
    machine.runOperation o
    pure (pc + 1)
  | some (.jump j) =>
    (program.location j.target).map fun location => do
      if ← machine.jumpTaken j then pure location else pure (pc + 1)

/-! ## 2. Expressions -/

/-- **The value of an expression.** -/
def Condition.evaluate {Leaf Block : Type} (machine : Machine Leaf Block) :
    Condition Leaf → machine.Computation machine.Value
  | .leaf l => machine.evaluate l
  | .constant node => pure (.primitive node.value)
  | .logicalNot expr => do
    let v ← expr.evaluate machine
    pure (machine.boolean !(machine.toBoolean v))
  | .logical op expr1 expr2 => do
    let v ← expr1.evaluate machine
    if machine.toBoolean v = (op == .opLogicalAnd) then expr2.evaluate machine
    else pure v
  | .comparison op expr1 expr2 _ => do
    let v1 ← expr1.evaluate machine
    let v2 ← expr2.evaluate machine
    return machine.boolean (← machine.compare op v1 v2)

/-! ## 3. What leaves have to do -/

section Leaves

variable {Leaf Block : Type} (leaves : LeafEmitter Leaf Block) (machine : Machine Leaf Block)

/-- The computation returns, and its result and the state have `Q`. -/
def Finishes {α : Type} (c : machine.Computation α) (m : machine.State)
    (Q : α → machine.State → Prop) (m' : machine.State) : Prop :=
  ∃ a, outcome c m.world = (.ok a, m'.world) ∧ Q a m'

/-- The computation throws. -/
def Throws {α : Type} (c : machine.Computation α) (m : machine.State) (e : machine.Exception)
    (m' : machine.State) : Prop :=
  outcome c m.world = (.error e, m'.world)

/-- The referenced temporaries are as before, but for the destination. -/
def Agree (held : Nat) (dst : Option Register) (m m' : machine.State) : Prop :=
  ∀ k < held, dst ≠ some (.temporary k) → m'.temporaries k = m.temporaries k

/-- A destination is a referenced temporary. -/
def IsDestination (held : Nat) (dst : Option Register) : Prop :=
  ∀ d, dst = some d → ∃ k < held, d = .temporary k

/-- The code of a leaf. -/
def LeafCode.run (code : LeafCode Block) : machine.Execution Unit := do
  match code.block with
  | some b => machine.runOperation (.block b)
  | none => pure ()
  match code.last with
  | some o => machine.runOperation o
  | none => pure ()

/-- **The code of the leaves is right**: it evaluates the leaf, leaves the value in the register
that it returns and keeps to free temporaries.  It returns its destination if it is given one, and
otherwise a temporary only if it has just written it.  The static types of the leaves are right as
well. -/
structure LeafEmitter.Correct : Prop where
  covers : ∀ l, Returns (Covers (leaves.resultDescriptor l)) (machine.evaluate l)
  result_of_dst : ∀ l held d, (leaves.emitBytecode l held (some d)).result = d
  free_of_none : ∀ l held k, (leaves.emitBytecode l held none).result = .temporary k → held ≤ k
  written : ∀ l held dst k, (leaves.emitBytecode l held dst).result = .temporary k →
    (leaves.emitBytecode l held dst).block ≠ none ∨ (leaves.emitBytecode l held dst).last ≠ none
  runs : ∀ l held dst, IsDestination held dst → ∀ m,
    Ensures ((leaves.emitBytecode l held dst).run machine) m
      (fun _ m' => Finishes machine (machine.evaluate l) m
        (fun v m' => machine.read m' (leaves.emitBytecode l held dst).result = v ∧
          Agree machine held dst m m') m')
      (fun e m' => Throws machine (machine.evaluate l) m e m')

/-- **The flags of the comparisons are sound**: where the left operand is a local variable whose
register is not copied, the right operand leaves the register alone. -/
def Condition.FlagsSound : Condition Leaf → Prop
  | .leaf _ | .constant _ => True
  | .logicalNot expr => expr.FlagsSound
  | .logical _ expr1 expr2 => expr1.FlagsSound ∧ expr2.FlagsSound
  | .comparison _ expr1 expr2 flag =>
    expr1.FlagsSound ∧ expr2.FlagsSound ∧
    (leaves.context.leftHandSideNeedsCopy flag (expr2.isPure leaves) = false →
      ∀ held g i, (emitNode leaves expr1 held none g).1 = .localVariable i →
        Preserves (fun world => machine.getLocal world i) (expr2.evaluate machine))

end Leaves

end JavaScriptCore.Bytecompiler.Conditions
