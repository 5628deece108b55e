/-
# Assignments in an expression, and the counter

`Expression.assigns` says that there is an assignment, a compound assignment, an increment or a
decrement outside nested functions, and `Expression.destructures` that there is a destructuring
assignment with a target.  The parser counts the former and not the latter: this module has the
rules by which the proof that it does follows the text of the parser.
-/
import JavaScriptCore.Parser.ParserInvariance

namespace JavaScriptCore.Parser

open Operations Bool
open Lib.Effects

variable {N F : Type}

/-! ## 1. What there is in an expression -/

/-- A node with a `rightHasAssignments` flag. -/
structure BinaryOperation (N F : Type) where
  left : Expression N F
  right : Expression N F
  rightHasAssignments : Bool

mutual

/-- There is an assignment, a compound assignment, an increment or a decrement outside nested
functions. -/
def Expression.assigns : Expression N F → Bool
  | .resolve _ | .this | .number _ | .constant _ | .regExp _ _ | .function _ => false
  | .array elements _ => elements.assigns
  | .object properties => properties.assigns
  | .bracketAccess base subscript _ => base.assigns || subscript.assigns
  | .dotAccess base _ => base.assigns
  | .functionCall func args => func.assigns || args.assigns
  | .newExpr expr args => expr.assigns || args.assigns
  | .postfixNode _ _ | .prefixNode _ _ => true
  | .unaryPlus e | .negate e | .bitwiseNot e | .unary _ e => e.assigns
  | .logical _ e1 e2 | .binary _ e1 e2 _ | .comparison _ e1 e2 _ => e1.assigns || e2.assigns
  | .conditional e e1 e2 => e.assigns || e1.assigns || e2.assigns
  | .assign _ _ _ _ _ | .assignError => true
  | .deconstructingAssignment _ e => e.assigns
  | .comma e1 e2 => e1.assigns || e2.assigns

/-- `Expression.assigns` for the entries of a list. -/
def EntryList.assigns : EntryList N F → Bool
  | .nil => false
  | .cons _ e next => e.assigns || next.assigns

end

mutual

/-- There is an identifier in the pattern: every target of a pattern is one. -/
def Pattern.bindsIdentifier : Pattern → Bool
  | .binding _ => true
  | .array targetPatterns | .object targetPatterns => targetPatterns.bindsIdentifier

/-- `Pattern.bindsIdentifier` for the entries of a pattern. -/
def PatternList.bindsIdentifier : PatternList → Bool
  | .nil => false
  | .skip next => next.bindsIdentifier
  | .index pattern next | .property _ _ pattern next =>
    pattern.bindsIdentifier || next.bindsIdentifier

end

mutual

/-- There is a destructuring assignment to an identifier outside nested functions. -/
def Expression.destructures : Expression N F → Bool
  | .resolve _ | .this | .number _ | .constant _ | .regExp _ _ | .function _ | .assignError => false
  | .array elements _ => elements.destructures
  | .object properties => properties.destructures
  | .bracketAccess base subscript _ => base.destructures || subscript.destructures
  | .dotAccess base _ => base.destructures
  | .functionCall func args => func.destructures || args.destructures
  | .newExpr expr args => expr.destructures || args.destructures
  | .postfixNode _ e | .prefixNode _ e => e.destructures
  | .unaryPlus e | .negate e | .bitwiseNot e | .unary _ e => e.destructures
  | .logical _ e1 e2 | .binary _ e1 e2 _ | .comparison _ e1 e2 _ =>
    e1.destructures || e2.destructures
  | .conditional e e1 e2 => e.destructures || e1.destructures || e2.destructures
  | .assign _ loc right _ _ => loc.destructures || right.destructures
  | .deconstructingAssignment bindings e => bindings.bindsIdentifier || e.destructures
  | .comma e1 e2 => e1.destructures || e2.destructures

/-- `Expression.destructures` for the entries of a list. -/
def EntryList.destructures : EntryList N F → Bool
  | .nil => false
  | .cons _ e next => e.destructures || next.destructures

end

mutual

/-- There is an assignment, a compound assignment, an increment or a decrement to an identifier
outside nested functions. -/
def Expression.assignsIdentifier : Expression N F → Bool
  | .resolve _ | .this | .number _ | .constant _ | .regExp _ _ | .function _ | .assignError => false
  | .array elements _ => elements.assignsIdentifier
  | .object properties => properties.assignsIdentifier
  | .bracketAccess base subscript _ => base.assignsIdentifier || subscript.assignsIdentifier
  | .dotAccess base _ => base.assignsIdentifier
  | .functionCall func args => func.assignsIdentifier || args.assignsIdentifier
  | .newExpr expr args => expr.assignsIdentifier || args.assignsIdentifier
  | .postfixNode _ e | .prefixNode _ e => e.resolveIdentifier.isSome || e.assignsIdentifier
  | .unaryPlus e | .negate e | .bitwiseNot e | .unary _ e => e.assignsIdentifier
  | .logical _ e1 e2 | .binary _ e1 e2 _ | .comparison _ e1 e2 _ =>
    e1.assignsIdentifier || e2.assignsIdentifier
  | .conditional e e1 e2 => e.assignsIdentifier || e1.assignsIdentifier || e2.assignsIdentifier
  | .assign _ loc right _ _ =>
    loc.resolveIdentifier.isSome || loc.assignsIdentifier || right.assignsIdentifier
  | .deconstructingAssignment _ e => e.assignsIdentifier
  | .comma e1 e2 => e1.assignsIdentifier || e2.assignsIdentifier

/-- `Expression.assignsIdentifier` for the entries of a list. -/
def EntryList.assignsIdentifier : EntryList N F → Bool
  | .nil => false
  | .cons _ e next => e.assignsIdentifier || next.assignsIdentifier

end

/-- There is an assignment of any of these kinds to an identifier outside nested functions. -/
def Expression.modifiesIdentifier (e : Expression N F) : Bool :=
  e.assignsIdentifier || e.destructures

mutual

/-- The nodes with a `rightHasAssignments` flag in an expression: the arithmetic operators, the
comparisons, `instanceof` and `in`. -/
def Expression.binaryOperations : Expression N F → List (BinaryOperation N F)
  | .resolve _ | .this | .number _ | .constant _ | .regExp _ _ | .function _ | .assignError => []
  | .array elements _ => elements.binaryOperations
  | .object properties => properties.binaryOperations
  | .bracketAccess base subscript _ => base.binaryOperations ++ subscript.binaryOperations
  | .dotAccess base _ => base.binaryOperations
  | .functionCall func args => func.binaryOperations ++ args.binaryOperations
  | .newExpr expr args => expr.binaryOperations ++ args.binaryOperations
  | .postfixNode _ e | .prefixNode _ e => e.binaryOperations
  | .unaryPlus e | .negate e | .bitwiseNot e | .unary _ e => e.binaryOperations
  | .logical _ e1 e2 => e1.binaryOperations ++ e2.binaryOperations
  | .binary _ e1 e2 flag | .comparison _ e1 e2 flag =>
    ⟨e1, e2, flag⟩ :: (e1.binaryOperations ++ e2.binaryOperations)
  | .conditional e e1 e2 => e.binaryOperations ++ e1.binaryOperations ++ e2.binaryOperations
  | .assign _ loc right _ _ => loc.binaryOperations ++ right.binaryOperations
  | .deconstructingAssignment _ e => e.binaryOperations
  | .comma e1 e2 => e1.binaryOperations ++ e2.binaryOperations

/-- `Expression.binaryOperations` for the entries of a list. -/
def EntryList.binaryOperations : EntryList N F → List (BinaryOperation N F)
  | .nil => []
  | .cons _ e next => e.binaryOperations ++ next.binaryOperations

end

attribute [local simp] Expression.assigns EntryList.assigns Expression.destructures
  EntryList.destructures
  Expression.assignsIdentifier EntryList.assignsIdentifier Expression.binaryOperations
    EntryList.binaryOperations

theorem or_mono {a b c d : Bool} (h : (a || b) = true) (hac : a = true → c = true)
    (hbd : b = true → d = true) :
    (c || d) = true := by
  rw [or_eq_true] at h ⊢
  exact h.imp hac hbd

mutual

theorem Expression.assigns_of_assignsIdentifier :
    ∀ {e : Expression N F}, e.assignsIdentifier = true → e.assigns = true
  | .resolve _, h | .this, h | .number _, h | .constant _, h | .regExp _ _, h | .function _, h
  | .assignError, h => by simp [Expression.assignsIdentifier] at h
  | .postfixNode _ _, _ | .prefixNode _ _, _ | .assign _ _ _ _ _, _ => by simp [Expression.assigns]
  | .array l _, h | .object l, h => EntryList.assigns_of_assignsIdentifier (l := l) h
  | .dotAccess e _, h | .unaryPlus e, h | .negate e, h | .bitwiseNot e, h | .unary _ e, h
  | .deconstructingAssignment _ e, h => Expression.assigns_of_assignsIdentifier (e := e) h
  | .bracketAccess e1 e2 _, h | .logical _ e1 e2, h | .binary _ e1 e2 _, h
  | .comparison _ e1 e2 _, h
  | .comma e1 e2, h =>
    or_mono h Expression.assigns_of_assignsIdentifier Expression.assigns_of_assignsIdentifier
  | .functionCall e args, h | .newExpr e args, h =>
    or_mono h Expression.assigns_of_assignsIdentifier EntryList.assigns_of_assignsIdentifier
  | .conditional e e1 e2, h =>
    or_mono h (or_mono · Expression.assigns_of_assignsIdentifier
      Expression.assigns_of_assignsIdentifier)
      Expression.assigns_of_assignsIdentifier

theorem EntryList.assigns_of_assignsIdentifier :
    ∀ {l : EntryList N F}, l.assignsIdentifier = true → l.assigns = true
  | .nil, h => by simp [EntryList.assignsIdentifier] at h
  | .cons _ e next, h =>
    or_mono h Expression.assigns_of_assignsIdentifier EntryList.assigns_of_assignsIdentifier

end

/-! ## 2. Exact flags -/

/-- **Every flag says whether the right operand assigns.** -/
def Expression.FlagsExact (e : Expression N F) : Prop :=
  ∀ b ∈ e.binaryOperations, b.rightHasAssignments = b.right.assigns

/-- `Expression.FlagsExact` for the entries of a list. -/
def EntryList.FlagsExact (l : EntryList N F) : Prop :=
  ∀ b ∈ l.binaryOperations, b.rightHasAssignments = b.right.assigns

theorem EntryList.assigns_append (kind : EntryKind) (e : Expression N F) :
    ∀ l : EntryList N F, (l.append kind e).assigns = (l.assigns || e.assigns)
  | .nil => by simp [EntryList.append, EntryList.assigns]
  | .cons _ e' next => by
    simp [EntryList.append, EntryList.assigns, EntryList.assigns_append kind e next, Bool.or_assoc]

theorem EntryList.flagsExact_nil : (EntryList.nil : EntryList N F).FlagsExact := by
  simp [EntryList.FlagsExact, EntryList.binaryOperations]

theorem EntryList.flagsExact_cons {kind : EntryKind} {e : Expression N F} {l : EntryList N F} :
    (EntryList.cons kind e l).FlagsExact ↔ e.FlagsExact ∧ l.FlagsExact := by
  simp only [EntryList.FlagsExact, Expression.FlagsExact, EntryList.binaryOperations,
    List.mem_append, or_imp, forall_and]

theorem EntryList.flagsExact_append {kind : EntryKind} {e : Expression N F} :
    ∀ {l : EntryList N F}, l.FlagsExact → e.FlagsExact → (l.append kind e).FlagsExact
  | .nil, _, he => EntryList.flagsExact_cons.mpr ⟨he, EntryList.flagsExact_nil⟩
  | .cons _ e' next, hl, he => by
    rw [EntryList.append, EntryList.flagsExact_cons]
    rw [EntryList.flagsExact_cons] at hl
    exact ⟨hl.1, EntryList.flagsExact_append hl.2 he⟩

namespace Expression

variable {e : Expression N F}

/-- A node without operands and flags. -/
theorem flagsExact_of_nil (h : e.binaryOperations = []) : e.FlagsExact := by
  rw [FlagsExact, h]
  exact fun b hb => absurd hb List.not_mem_nil

variable {e1 : Expression N F}

/-- A node with one operand. -/
theorem flagsExact_of_one (h : e.binaryOperations = e1.binaryOperations) (h1 : e1.FlagsExact) :
    e.FlagsExact := by
  rw [FlagsExact, h]
  exact h1

variable {e2 : Expression N F}

/-- A node with two operands, or with an operand and a list. -/
theorem flagsExact_of_two {l1 l2 : List (BinaryOperation N F)} (h : e.binaryOperations = l1 ++ l2)
    (h1 : ∀ b ∈ l1, b.rightHasAssignments = b.right.assigns)
    (h2 : ∀ b ∈ l2, b.rightHasAssignments = b.right.assigns) : e.FlagsExact := by
  intro b hb
  rw [h, List.mem_append] at hb
  exact hb.elim (h1 b) (h2 b)

/-- A node with two operands and a flag. -/
theorem flagsExact_of_flag {flag : Bool}
    (h : e.binaryOperations = ⟨e1, e2, flag⟩ :: (e1.binaryOperations ++ e2.binaryOperations))
    (h1 : e1.FlagsExact) (h2 : e2.FlagsExact) (hflag : flag = e2.assigns) : e.FlagsExact := by
  intro b hb
  rw [h, List.mem_cons, List.mem_append] at hb
  rcases hb with rfl | hb | hb
  · exact hflag
  · exact h1 b hb
  · exact h2 b hb

/-- A node with three operands. -/
theorem flagsExact_conditional (h : e.FlagsExact) (h1 : e1.FlagsExact) (h2 : e2.FlagsExact) :
    (conditional e e1 e2).FlagsExact :=
  flagsExact_of_two rfl (flagsExact_of_two (e := .comma e e1) rfl h h1) h2

/-! ## 3. The simplifying functions keep the assignments -/

/-- The expression of a node assigns as told, and its flags are exact. -/
def Represents (n : ExpressionNode N (Expression N F)) (a : Bool) : Prop :=
  (ofNode n).assigns = a ∧ (ofNode n).FlagsExact

theorem ofNode_view (e : Expression N F) : ofNode e.view = e := by
  cases e <;> rfl

theorem represents_view (h : e.FlagsExact) : Represents e.view e.assigns := by
  rw [Represents, ofNode_view]
  exact ⟨rfl, h⟩

theorem represents_number (value : N) :
    Represents (ExpressionNode.number value : ExpressionNode N (Expression N F)) false :=
  ⟨by simp [ofNode, assigns], flagsExact_of_nil (by simp [ofNode, binaryOperations])⟩

variable {n : ExpressionNode N (Expression N F)}

theorem Represents.stripUnaryPlus {a : Bool} (h : Represents n a) :
    Represents n.stripUnaryPlus a := by
  cases n with
  | unaryPlus | number | constant | negate | bitwiseNot | binary | leaf => exact h

theorem Represents.unaryPlus {a : Bool} (h : Represents n a) :
    Represents (.unaryPlus n) a := h

/-- A number does not assign. -/
theorem Represents.of_numberValue {a : Bool} {value : N} (h : Represents n a)
    (hn : n.numberValue = some value) : a = false := by
  cases n with
  | number v => exact h.1.symm
  | constant | unaryPlus | negate | bitwiseNot | binary | leaf => cases hn

theorem Represents.binary {n1 n2 : ExpressionNode N (Expression N F)} {a b : Bool}
    (h1 : Represents n1 a) (h2 : Represents n2 b) (op : BinaryOperator) :
    Represents (.binary op n1 n2 b) (a || b) := by
  refine ⟨?_, flagsExact_of_flag (by rw [ofNode, binaryOperations]) h1.2 h2.2 h2.1.symm⟩
  rw [ofNode, assigns, h1.1, h2.1]

section Builder

variable (arithmetic : NumberArithmetic N) {n1 n2 : ExpressionNode N (Expression N F)} {a b : Bool}

theorem Represents.foldNumbers (h1 : Represents n1 a) (h2 : Represents n2 b) (op : BinaryOperator) :
    Represents (ASTBuilder.foldNumbers arithmetic op n1 n2 b) (a || b) := by
  unfold ASTBuilder.foldNumbers
  split
  · next hv1 hv2 =>
    rw [h1.of_numberValue hv1, h2.of_numberValue hv2]
    exact represents_number _
  · exact h1.binary h2 op

/-- The number one does not assign. -/
theorem Represents.of_isOne (h : Represents n1 a) (hone : ASTBuilder.isOne arithmetic n1 = true) :
    a = false := by
  unfold ASTBuilder.isOne at hone
  split at hone
  · next hv => exact h.of_numberValue hv
  · cases hone

theorem Represents.makeMultNode (h1 : Represents n1 a) (h2 : Represents n2 b) :
    Represents (ASTBuilder.makeMultNode arithmetic n1 n2 b) (a || b) := by
  have h1' := h1.stripUnaryPlus
  have h2' := h2.stripUnaryPlus
  unfold ASTBuilder.makeMultNode
  simp only
  split
  · next hv1 hv2 =>
    rw [h1'.of_numberValue hv1, h2'.of_numberValue hv2]
    exact represents_number _
  · split
    · next hone =>
      rw [h1'.of_isOne arithmetic hone, Bool.false_or]
      exact h2'.unaryPlus
    · split
      · next hone =>
        have hb := h2'.of_isOne arithmetic hone
        rw [hb, Bool.or_false]
        exact h1'.unaryPlus
      · exact h1'.binary h2' .mult

theorem Represents.makeBinaryNode (h1 : Represents n1 a) (h2 : Represents n2 b)
    (op : BinaryOperator) :
    Represents (ASTBuilder.makeBinaryNode arithmetic op n1 n2 b) (a || b) := by
  cases op with
  | mult => exact h1.makeMultNode arithmetic h2
  | div | mod | sub => exact h1.stripUnaryPlus.foldNumbers arithmetic h2.stripUnaryPlus _
  | add | leftShift | rightShift | unsignedRightShift | bitOr | bitAnd | bitXOr =>
    exact h1.foldNumbers arithmetic h2 _

/-- **`makeBinaryNode` keeps the assignments and sets its flag right.** -/
theorem makeBinaryNode_spec {lhs rhs : Expression N F} (h1 : lhs.FlagsExact) (h2 : rhs.FlagsExact)
    (op : BinaryToken) :
    (lhs.makeBinaryNode arithmetic op rhs rhs.assigns).assigns = (lhs.assigns || rhs.assigns) ∧
      (lhs.makeBinaryNode arithmetic op rhs rhs.assigns).FlagsExact := by
  cases op with
  | logicalOr | logicalAnd =>
    exact ⟨by rw [makeBinaryNode, assigns],
      flagsExact_of_two (by rw [makeBinaryNode, binaryOperations]) h1 h2⟩
  | comparison op =>
    exact ⟨by rw [makeBinaryNode, assigns],
      flagsExact_of_flag (by rw [makeBinaryNode, binaryOperations]) h1 h2 rfl⟩
  | arithmetic op => exact (represents_view h1).makeBinaryNode arithmetic (represents_view h2) op

/-- An operator that is applied to a number at once. -/
theorem Represents.fold {m : ExpressionNode N (Expression N F)} (h : Represents n1 a)
    (h' : Represents m a) (f : N → N) :
    Represents (match n1.numberValue with | some value => .number (f value) | none => m) a := by
  split
  · next hvalue =>
    rw [h.of_numberValue hvalue]
    exact represents_number _
  · exact h'

theorem makeNegateNode_spec (h : e.FlagsExact) :
    (e.makeNegateNode arithmetic).assigns = e.assigns ∧ (e.makeNegateNode arithmetic).FlagsExact :=
  (represents_view h).fold (m := .negate e.view) (represents_view h) _

theorem makeBitwiseNotNode_spec (h : e.FlagsExact) :
    (e.makeBitwiseNotNode arithmetic).assigns = e.assigns ∧
    (e.makeBitwiseNotNode arithmetic).FlagsExact :=
  (represents_view h).fold (m := .bitwiseNot e.view) (represents_view h) _

end Builder

theorem createLogicalNot_spec (isZeroOrUnordered : N → Bool) (h : e.FlagsExact) :
    (e.createLogicalNot isZeroOrUnordered).assigns = e.assigns ∧
      (e.createLogicalNot isZeroOrUnordered).FlagsExact := by
  unfold createLogicalNot
  split
  · exact ⟨by simp [assigns], flagsExact_of_nil rfl⟩
  · exact ⟨by rw [assigns], flagsExact_of_one rfl h⟩

theorem makeAssignNode_assigns (loc expr : Expression N F) (op : AssignmentOperator)
    (flag1 flag2 : Bool) :
    (loc.makeAssignNode op expr flag1 flag2).assigns = true := by
  unfold makeAssignNode
  split
  · rw [assigns]
  · rw [assigns]

theorem makeAssignNode_flagsExact {loc expr : Expression N F} (h1 : loc.FlagsExact)
    (h2 : expr.FlagsExact) (op : AssignmentOperator) (flag1 flag2 : Bool) :
    (loc.makeAssignNode op expr flag1 flag2).FlagsExact := by
  unfold makeAssignNode
  split
  · exact flagsExact_of_two rfl h1 h2
  · exact flagsExact_of_nil rfl

end Expression

end JavaScriptCore.Parser
