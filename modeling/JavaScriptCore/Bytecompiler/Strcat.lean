/-
# String concatenation: the code of `BinaryOpNode` for trees of additions

`BinaryOpNode::emitBytecode` for `op_add`, `BinaryOpNode::emitStrcat`, the `+=` of
`emitReadModifyAssignment` and the instructions that they emit.  An addition whose left operand is
itself an addition that must give a string is not compiled to a sequence of `op_add`: the left spine
of the tree is flattened, the operands are evaluated into consecutive temporaries, `op_to_primitive`
is planted for each where the additions would have converted it, and one `op_strcat` concatenates
them all.

A node of any other class is an `operand` with the result type that the parser gave it.  Its code is
one step here, which evaluates it and leaves the value in the register that was asked for.
Temporaries are numbered; the generator hands out the next number, since everything that is still in
use is below it.
-/
import JavaScriptCore.Lib.Effects
import JavaScriptCore.Parser.ResultType
import JavaScriptCore.Runtime.Operations

namespace JavaScriptCore.Bytecompiler

open Operations JavaScriptCore.Parser List

/-! ## 1. Nodes -/

/-- The nodes: `StringNode`, `AddNode` and all others. -/
inductive AddTree (Leaf : Type) where
  | string (value : List UInt16)
  | operand (l : Leaf)
  | add (expr1 expr2 : AddTree Leaf)

/-- **An environment in which the result types tell the truth**: an operand whose type is definitely
a string evaluates to a string, if it does not throw. -/
structure TypedEnvironment (N Leaf : Type) extends Environment N Leaf where
  resultDescriptor : Leaf → ResultType
  evaluate_string : ∀ l, (resultDescriptor l).definitelyIsString = true →
    Lib.Effects.Returns (fun v => ∃ s, v = .primitive (.string s)) (evaluate l)

namespace AddTree

variable {N Leaf : Type}

def isString : AddTree Leaf → Bool
  | .string _ => true
  | _ => false

def isAdd : AddTree Leaf → Bool
  | .add _ _ => true
  | _ => false

/-- `resultDescriptor`, from the types of the operands. -/
def resultDescriptor (types : Leaf → ResultType) : AddTree Leaf → ResultType
  | .string _ => .stringType
  | .operand l => types l
  | .add e1 e2 => .forAdd (e1.resultDescriptor types) (e2.resultDescriptor types)

/-- The number of nodes. -/
def size : AddTree Leaf → Nat
  | .add e1 e2 => e1.size + e2.size + 1
  | _ => 1

end AddTree

/-! ## 2. Instructions -/

/-- A register. -/
abbrev Register := Nat

/-- The instructions.  `operand dst l` is the code of an operand. -/
inductive AddInstruction (Leaf : Type) where
  | operand (dst : Register) (l : Leaf)
  | load (dst : Register) (value : List UInt16)
  | add (dst src1 src2 : Register)
  | toPrimitive (dst src : Register)
  | strcat (dst src : Register) (count : Nat)

/-- What stops a piece of code: an exception of the program, or the error that `jsString` throws for
a string that is too long. -/
inductive Failure (Exception : Type) where
  | exception (e : Exception)
  | outOfMemory

section Execution

variable {N Leaf : Type} (arithmetic : NumberArithmetic N) (env : Environment N Leaf)

/-- What the code does. -/
abbrev Code (env : Environment N Leaf) (α : Type) : Type :=
  ExceptT (Failure env.Exception) (StateM env.World) α

variable {env} in
/-- A computation of the environment as a step of the code. -/
def raise {α : Type} (c : env.Computation α) : Code env α := ExceptT.adapt .exception c

/-- The lengths are `unsigned`; a string whose length does not fit is out of memory. -/
def lengthLimit : Nat := 2 ^ 32

/-- `jsString` of two strings. -/
def jsString (s t : List UInt16) : Code env (List UInt16) :=
  if s.length + t.length < lengthLimit then pure (s ++ t) else throw .outOfMemory

/-- `jsAdd`, after the conversions. -/
def jsAddPrimitives (p q : Primitive N) : Code env (Primitive N) :=
  if p.isString || q.isString then do
    let s ← jsString env (p.toString arithmetic) (q.toString arithmetic)
    pure (.string s)
  else pure (.number (arithmetic.add (p.toNumber arithmetic) (q.toNumber arithmetic)))

def jsAdd (v w : env.Value) : Code env (Primitive N) := do
  let p ← raise (toPrimitive env .noPreference v)
  let q ← raise (toPrimitive env .noPreference w)
  jsAddPrimitives arithmetic env p q

/-- `jsStringFromRegisterArray`: appends the values one by one to what has been built. -/
def jsStringFromRegisterArray (built : List UInt16) : List env.Value → Code env (List UInt16)
  | [] => pure built
  | v :: values => do
    let p ← raise (toPrimitive env .preferString v)
    let built' ← jsString env built (p.toString arithmetic)
    jsStringFromRegisterArray built' values

/-- The register file. -/
abbrev Registers (env : Environment N Leaf) : Type := Register → env.Value

/-- One instruction. -/
def executeOne (regs : Registers env) : AddInstruction Leaf → Code env (Registers env)
  | .operand dst l => do
    let v ← raise (env.evaluate l)
    pure (Function.update regs dst v)
  | .load dst value => pure (Function.update regs dst (.primitive (.string value)))
  | .add dst src1 src2 => do
    let p ← jsAdd arithmetic env (regs src1) (regs src2)
    pure (Function.update regs dst (.primitive p))
  | .toPrimitive dst src => do
    let p ← raise (toPrimitive env .noPreference (regs src))
    pure (Function.update regs dst (.primitive p))
  | .strcat dst src count => do
    let s ← jsStringFromRegisterArray arithmetic env [] ((range count).map fun i => regs (src + i))
    pure (Function.update regs dst (.primitive (.string s)))

/-- A sequence of instructions. -/
def execute (code : List (AddInstruction Leaf)) (regs : Registers env) : Code env (Registers env) :=
  code.foldlM (executeOne arithmetic env) regs

/-- **The meaning of the tree: one `op_add` for each node.** -/
def AddTree.evaluate : AddTree Leaf → Code env env.Value
  | .string value => pure (.primitive (.string value))
  | .operand l => raise (env.evaluate l)
  | .add e1 e2 => do
    let v ← e1.evaluate
    let w ← e2.evaluate
    let p ← jsAdd arithmetic env v w
    pure (.primitive p)

end Execution

/-! ## 3. Emission -/

section Emission

variable {Leaf : Type} (types : Leaf → ResultType)

/-- An addition that must give a string. -/
def AddTree.isStringAdd (e : AddTree Leaf) : Bool :=
  e.isAdd && (e.resultDescriptor types).definitelyIsString

/-- The loop of `emitStrcat` that goes down the left children: `leftMostAddChild`, and the right
children with the last that was appended in front. -/
def flattenStringAdds : AddTree Leaf → List (AddTree Leaf) → AddTree Leaf × List (AddTree Leaf)
  | .add e1 e2, expressions =>
    if (AddTree.add e1 e2).isStringAdd types then flattenStringAdds e1 (e2 :: expressions)
    else (.add e1 e2, expressions)
  | e, expressions => (e, expressions)

/-- The sizes of a list of trees. -/
def totalSize (es : List (AddTree Leaf)) : Nat := (es.map AddTree.size).sum

theorem AddTree.size_pos (e : AddTree Leaf) : 0 < e.size := by
  cases e <;> simp [AddTree.size]

/-- Flattening adds no nodes. -/
theorem size_flattenStringAdds (e : AddTree Leaf) (es : List (AddTree Leaf)) :
    (flattenStringAdds types e es).1.size + totalSize (flattenStringAdds types e es).2
      ≤ e.size + totalSize es := by
  induction e generalizing es with
  | add e1 e2 ih1 _ =>
    rw [flattenStringAdds]
    split
    · refine Nat.le_trans (ih1 (e2 :: es)) ?_
      simp only [totalSize, map_cons, sum_cons, AddTree.size]
      omega
    · exact le_rfl
  | _ => exact le_rfl

mutual

/-- `emitNode(dst, n)`, where the next temporary is `next`. -/
def emitNode (dst next : Register) : AddTree Leaf → List (AddInstruction Leaf)
  | .string value => [.load dst value]
  | .operand l => [.operand dst l]
  | .add e1 e2 =>
    -- `BinaryOpNode::emitBytecode`
    if e1.isStringAdd types then emitStrcat dst next none e1 e2
    else
      emitNode next (next + 1) e1 ++ emitNode (next + 1) (next + 2) e2 ++ [.add dst next (next + 1)]
  termination_by e => (e.size, 0)
  decreasing_by
    · exact Prod.Lex.left _ _ (Nat.lt_succ_self _)
    · exact Prod.Lex.left _ _ (by simp only [AddTree.size]; omega)
    · exact Prod.Lex.left _ _ (by simp only [AddTree.size]; omega)

/-- `emitStrcat` for the addition of `e1` and `e2`.  With an assignment, the first temporary is for
the converted value of its left-hand side. -/
def emitStrcat (dst next : Register) (lhs : Option Register) (e1 e2 : AddTree Leaf) :
    List (AddInstruction Leaf) :=
  let flat := flattenStringAdds types e1 [e2]
  let first := match lhs with
    | some _ => next + 1
    | none => next
  let leftMostAddChildTempRegister := if flat.1.isString then none else some first
  emitNode first (first + 1) flat.1
    ++ emitExpressions (first + 1) leftMostAddChildTempRegister flat.2
    ++ (match lhs with
      | some src => [.toPrimitive next src]
      | none => [])
    ++ [.strcat dst next (first + 1 + flat.2.length - next)]
  termination_by (e1.size + e2.size, 2)
  decreasing_by
    · have h := size_flattenStringAdds types e1 [e2]
      simp only [totalSize, map_cons, map_nil, sum_cons, sum_nil] at h
      rcases Nat.lt_or_ge (flattenStringAdds types e1 [e2]).1.size (e1.size + e2.size)
        with hlt | hge
      · exact Prod.Lex.left _ _ hlt
      · have heq : (flattenStringAdds types e1 [e2]).1.size = e1.size + e2.size := by omega
        rw [heq]
        exact Prod.Lex.right _ (by omega)
    · have h := size_flattenStringAdds types e1 [e2]
      have hpos := (flattenStringAdds types e1 [e2]).1.size_pos
      simp only [totalSize, map_cons, map_nil, sum_cons, sum_nil] at h
      exact Prod.Lex.left _ _ (by simp only [totalSize]; omega)

/-- The loop of `emitStrcat` over the right children: evaluate the next one, then convert the
leftmost operand if that has not been done, then the one that was just evaluated. -/
def emitExpressions (next : Register) (leftMostAddChildTempRegister : Option Register) :
    List (AddTree Leaf) → List (AddInstruction Leaf)
  | [] => []
  | node :: expressions =>
    emitNode next (next + 1) node
      ++ (match leftMostAddChildTempRegister with
        | some r => [.toPrimitive r r]
        | none => [])
      ++ (if node.isString then [] else [.toPrimitive next next])
      ++ emitExpressions (next + 1) none expressions
  termination_by es => (totalSize es, 1)
  decreasing_by
    · rcases Nat.eq_zero_or_pos (totalSize expressions) with h0 | hpos
      · have heq : totalSize (node :: expressions) = node.size := by
          simp only [totalSize, map_cons, sum_cons] at h0 ⊢
          omega
        rw [heq]
        exact Prod.Lex.right _ (by omega)
      · exact Prod.Lex.left _ _ (by
          simp only [totalSize, map_cons, sum_cons] at hpos ⊢
          omega)
    · exact Prod.Lex.left _ _ (by
        have := node.size_pos
        simp only [totalSize, map_cons, sum_cons]
        omega)

end

/-- The `+=` of `emitReadModifyAssignment`: the value of the left-hand side is in `src1`. -/
def emitPlusEq (dst next src1 : Register) (right : AddTree Leaf) : List (AddInstruction Leaf) :=
  match right with
  | .add e1 e2 =>
    if right.isStringAdd types then emitStrcat types dst next (some src1) e1 e2
    else emitNode types next (next + 1) right ++ [.add dst src1 next]
  | _ => emitNode types next (next + 1) right ++ [.add dst src1 next]

end Emission

end JavaScriptCore.Bytecompiler
