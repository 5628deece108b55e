/-
# When the left operand needs no copy

The flag `rightHasAssignments` of a node is exact for the assignments that the parser counts
(`counts_parseAssignmentExpression`), and the parser does not count a destructuring assignment.  So
the flag is sound for a node exactly if a right operand with a destructuring assignment has a
counted one too (`rightHasAssignments_sound_iff`).  Where it is, the right operand of a node whose
copy is left out writes no register: `leaves_evaluate` is an induction over the expression.

In `x + ([x] = [5], 0)` the flag is wrong, and the sum is computed from the new value of `x`.
-/
import JavaScriptCore.Bytecompiler.LeftHandSide
import JavaScriptCore.Parser.CountedAssignments

namespace JavaScriptCore.Bytecompiler.LeftHandSide

open Operations
open JavaScriptCore.Parser
open Lib.Effects
open Bool (or_eq_false_iff)

variable {N F : Type}

/-! ## 1. What leaves a register alone -/

/-- What both parts of an expression do not assign. -/
theorem assigns_of_or {a b c d : Bool} (h : (a || b) = false ∧ (c || d) = false) :
    (a = false ∧ c = false) ∧ b = false ∧ d = false := by
  simp only [or_eq_false_iff] at h
  exact ⟨⟨h.1.1, h.2.1⟩, h.1.2, h.2.2⟩

section Registers

variable {machine : Machine N F} {x : String} (generator : GeneratorContext)

/-- The computation leaves the register of `x` alone. -/
abbrev Leaves (machine : Machine N F) (x : String) {α : Type} (c : machine.Computation α) : Prop :=
  Preserves (fun state => state.registers x) c

theorem leaves_operation (hx : machine.aliased x = false) (instruction : Instruction F)
    (values : List machine.Value) :
    Leaves machine x (machine.operation instruction values) :=
  machine.operation_keeps instruction values x hx

theorem leaves_read (hx : machine.aliased x = false) (y : String) :
    Leaves machine x (machine.read generator y) := by
  unfold Machine.read
  split
  · exact Preserves.of_get.bind fun _ => Preserves.of_pure _
  · exact leaves_operation hx _ _

theorem leaves_delete (hx : machine.aliased x = false) (ref : Reference machine.Value) :
    Leaves machine x (ref.delete machine generator) := by
  cases ref with
  | name y =>
    simp only [Reference.delete]
    split
    · exact .of_pure _
    · exact leaves_operation hx _ _
  | property base subscript | namedProperty base ident => exact leaves_operation hx _ _

theorem leaves_typeofVariable (hx : machine.aliased x = false) (y : String) :
    Leaves machine x (typeofVariable machine generator y) := by
  unfold typeofVariable
  split
  · exact (Preserves.of_get.bind fun _ => Preserves.of_pure _).bind fun _ => leaves_operation hx _ _
  · exact leaves_operation hx _ _

mutual

/-- A pattern without an identifier writes nothing. -/
theorem leaves_bindValue (hx : machine.aliased x = false) :
    ∀ {p : Pattern}, p.bindsIdentifier = false →
    ∀ value : machine.Value, Leaves machine x (bindValue machine generator p value)
  | .binding _, h, _ => by simp [Pattern.bindsIdentifier] at h
  | .array _, h, value => leaves_bindValues hx h 0 value fun _ => leaves_operation hx _ _
  | .object _, h, value => leaves_bindValues hx h 0 value fun _ => .of_pure _

theorem leaves_bindValues (hx : machine.aliased x = false) : ∀ {l : PatternList},
    l.bindsIdentifier = false → ∀ (i : Nat) (value : machine.Value)
      {element : Nat → machine.Computation machine.Value}, (∀ i, Leaves machine x (element i)) →
      Leaves machine x (bindValues machine generator l i value element)
  | .nil, _, _, _, _, _ => .of_pure _
  | .skip next, h, i, value, _, hel => leaves_bindValues hx (l := next) h (i + 1) value hel
  | .index p next, h, i, value, _, hel => by
    have h := or_eq_false_iff.mp h
    exact (hel i).bind fun _ => (leaves_bindValue hx h.1 _).bind fun _ =>
      leaves_bindValues hx h.2 _ _ hel
  | .property _ _ p next, h, i, value, _, hel => by
    have h := or_eq_false_iff.mp h
    exact (leaves_operation hx _ _).bind fun _ =>
      (leaves_bindValue hx h.1 _).bind fun _ => leaves_bindValues hx h.2 _ _ hel

end

/-- What is bound directly is an array pattern. -/
theorem eq_array_of_bindingMode {generator : GeneratorContext} {p : Pattern} {e : Expression N F}
    {l : PatternList} (h : bindingMode generator p e = .elements l ∨
      ∃ y, bindingMode generator p e = .argumentsOf y l) : p = .array l := by
  unfold bindingMode at h
  split at h
  · split_ifs at h <;> simp_all
  · split_ifs at h <;> simp_all
  · simp at h

/-! ## 2. An expression without assignments -/

mutual

/-- **An expression without assignments leaves every register alone** that no `arguments` object
shares. -/
theorem leaves_evaluate (hx : machine.aliased x = false) :
    ∀ {e : Expression N F}, e.assigns = false ∧ e.destructures = false →
    Leaves machine x (evaluate machine generator e)
  | .resolve y, _ => leaves_read generator hx y
  | .this, _ => Preserves.of_get.bind fun _ => Preserves.of_pure _
  | .number _, _ | .constant _, _ => Preserves.of_pure _
  | .regExp _ _, _ | .function _, _ => leaves_operation hx _ _
  | .array elements _, h => by
    rw [evaluate]
    exact (leaves_operation hx _ _).bind fun _ =>
      (leaves_evaluateEntries hx (l := elements) h _).bind fun _ => leaves_operation hx _ _
  | .object properties, h => by
    rw [evaluate]
    exact (leaves_operation hx _ _).bind fun _ =>
      (leaves_evaluateEntries hx (l := properties) h _).bind fun _ => .of_pure _
  | .functionCall func args, h | .newExpr func args, h => by
    obtain ⟨h1, h2⟩ := assigns_of_or h
    rw [evaluate]
    exact (leaves_evaluate hx h1).bind fun _ => (leaves_operation hx _ _).bind fun _ =>
      (leaves_evaluateEntries hx h2 _).bind fun _ => leaves_operation hx _ _
  | .postfixNode _ _, h | .prefixNode _ _, h | .assign _ _ _ _ _, h | .assignError, h => by
    exact Bool.noConfusion h.1
  | .dotAccess e _, h | .unaryPlus e, h | .negate e, h | .bitwiseNot e, h => by
    rw [evaluate]
    exact (leaves_evaluate hx (e := e) h).bind fun _ => leaves_operation hx _ _
  | .unary .logicalNot e, h => by
    rw [evaluate]
    exact (leaves_evaluate hx (e := e) h).bind fun _ => .of_pure _
  | .unary .typeOf e, h => by
    rw [evaluate]
    split
    · exact leaves_typeofVariable generator hx _
    · exact (leaves_evaluate hx (e := e) h).bind fun _ => leaves_operation hx _ _
  | .unary .void e, h => by
    rw [evaluate]
    exact (leaves_evaluate hx (e := e) h).discard.bind fun _ => .of_pure _
  | .unary .delete e, h => by
    rw [evaluate]
    refine (leaves_evaluateReference hx (e := e) h).bind fun r => ?_
    cases r with
    | some ref => exact leaves_delete generator hx ref
    | none => exact (leaves_evaluate hx (e := e) h).discard.bind fun _ => .of_pure _
  | .logical _ e1 e2, h => by
    obtain ⟨h1, h2⟩ := assigns_of_or h
    rw [evaluate]
    refine (leaves_evaluate hx h1).bind fun value => ?_
    split
    · exact leaves_evaluate hx h2
    · exact .of_pure _
  | .bracketAccess e1 e2 _, h | .binary _ e1 e2 _, h | .comparison _ e1 e2 _, h => by
    obtain ⟨h1, h2⟩ := assigns_of_or h
    rw [evaluate]
    exact (leaves_evaluate hx h1).bind fun _ =>
      (leaves_evaluate hx h2).bind fun _ => leaves_operation hx _ _
  | .conditional e e1 e2, h => by
    obtain ⟨h12, h3⟩ := assigns_of_or h
    obtain ⟨h1, h2⟩ := assigns_of_or h12
    rw [evaluate]
    refine (leaves_evaluate hx h1).bind fun value => ?_
    split
    · exact leaves_evaluate hx h2
    · exact leaves_evaluate hx h3
  | .deconstructingAssignment p e, h => by
    have hd := or_eq_false_iff.mp h.2
    have he : e.assigns = false ∧ e.destructures = false := ⟨h.1, hd.2⟩
    rw [evaluate]
    split
    · next y l hmode =>
      obtain rfl := eq_array_of_bindingMode (.inr ⟨y, hmode⟩)
      have helement : ∀ i, Leaves machine x (do
          machine.operation .getArgumentByVal [← machine.load y, machine.index i]) := fun i =>
        (Preserves.of_get.bind fun _ => Preserves.of_pure _).bind fun _ => leaves_operation hx _ _
      exact (leaves_bindValues generator hx (l := l) hd.1 _ _ helement).bind fun _ =>
        leaves_read generator hx y
    · next l hmode =>
      obtain rfl := eq_array_of_bindingMode (.inl hmode)
      exact (leaves_operation hx _ _).bind fun _ =>
        (leaves_evaluateElements hx he _).bind fun values =>
        (leaves_bindValues generator hx (l := l) hd.1 _ _ fun _ => .of_pure _).bind
          fun _ => .of_pure _
    · have hvalue := (leaves_evaluate hx he).bind fun value =>
        (leaves_bindValue generator hx hd.1 value).bind fun _ => Preserves.of_pure value
      split
      · exact (leaves_operation hx _ _).discard.bind fun _ => hvalue
      · exact hvalue
  | .comma e1 e2, h => by
    obtain ⟨h1, h2⟩ := assigns_of_or h
    rw [evaluate]
    exact (leaves_evaluate hx h1).discard.bind fun _ => leaves_evaluate hx h2

theorem leaves_evaluateReference (hx : machine.aliased x = false) :
    ∀ {e : Expression N F}, e.assigns = false ∧ e.destructures = false →
    Leaves machine x (evaluateReference machine generator e)
  | .bracketAccess base subscript _, h => by
    obtain ⟨h1, h2⟩ := assigns_of_or h
    rw [evaluateReference]
    exact (leaves_evaluate hx h1).bind fun _ => (leaves_evaluate hx h2).bind fun _ => .of_pure _
  | .dotAccess base _, h => by
    rw [evaluateReference]
    exact (leaves_evaluate hx (e := base) h).bind fun _ => .of_pure _
  | .resolve _, _ | .this, _ | .number _, _ | .constant _, _ | .regExp _ _, _
  | .function _, _ | .array _ _, _ | .object _, _ | .functionCall _ _, _ | .newExpr _ _, _
  | .postfixNode _ _, _ | .prefixNode _ _, _ | .unaryPlus _, _ | .negate _, _
  | .bitwiseNot _, _ | .unary _ _, _ | .logical _ _ _, _ | .binary _ _ _ _, _
  | .comparison _ _ _ _, _ | .conditional _ _ _, _ | .assign _ _ _ _ _, _ | .assignError, _
  | .deconstructingAssignment _ _, _ | .comma _ _, _ => .of_pure _

theorem leaves_evaluateEntries (hx : machine.aliased x = false) :
    ∀ {l : EntryList N F}, l.assigns = false ∧ l.destructures = false →
    ∀ list : machine.Value, Leaves machine x (evaluateEntries machine generator l list)
  | .nil, _, _ => .of_pure _
  | .cons _ e next, h, list => by
    obtain ⟨h1, h2⟩ := assigns_of_or h
    rw [evaluateEntries]
    exact (leaves_evaluate hx h1).bind fun _ => (leaves_operation hx _ _).discard.bind fun _ =>
      leaves_evaluateEntries hx h2 _

theorem leaves_evaluateElements (hx : machine.aliased x = false) :
    ∀ {e : Expression N F}, e.assigns = false ∧ e.destructures = false →
    ∀ array : machine.Value, Leaves machine x (evaluateElements machine generator e array)
  | .array elements _, h, array => leaves_evaluateElementList hx (l := elements) h 0 array
  | .resolve _, _, _ | .this, _, _ | .number _, _, _ | .constant _, _, _ | .regExp _ _, _, _
  | .function _, _, _ | .object _, _, _ | .bracketAccess _ _ _, _, _ | .dotAccess _ _, _, _
  | .functionCall _ _, _, _ | .newExpr _ _, _, _ | .postfixNode _ _, _, _ | .prefixNode _ _, _, _
  | .unaryPlus _, _, _ | .negate _, _, _ | .bitwiseNot _, _, _ | .unary _ _, _, _
  | .logical _ _ _, _, _
  | .binary _ _ _ _, _, _ | .comparison _ _ _ _, _, _ | .conditional _ _ _, _, _
  | .assign _ _ _ _ _, _, _ | .assignError, _, _ | .deconstructingAssignment _ _, _, _
  | .comma _ _, _, _ => .of_pure _

theorem leaves_evaluateElementList (hx : machine.aliased x = false) :
    ∀ {l : EntryList N F}, l.assigns = false ∧ l.destructures = false → ∀ (i : Nat)
    (array : machine.Value), Leaves machine x (evaluateElementList machine generator l i array)
  | .nil, _, _, _ => .of_pure _
  | .cons _ e next, h, i, array => by
    obtain ⟨h1, h2⟩ := assigns_of_or h
    rw [evaluateElementList]
    exact (leaves_evaluate hx h1).bind fun _ => (leaves_operation hx _ _).discard.bind fun _ =>
      (leaves_evaluateElementList hx h2 _ _).bind fun _ => .of_pure _

end

end Registers

/-! ## 3. The flag and the copy -/

/-- A pure right operand assigns nothing. -/
theorem assigns_of_isPure {generator : GeneratorContext} {e : Expression N F}
    (h : generator.isPure e = true) : e.assigns = false ∧ e.destructures = false := by
  unfold GeneratorContext.isPure at h
  split at h
  · exact ⟨rfl, rfl⟩
  · exact ⟨rfl, rfl⟩
  · exact ⟨rfl, rfl⟩
  · cases h

/-- In function code without a scope chain the copy is left out for a pure right operand, and where
the flag is not set. -/
theorem skipsCopy_iff {generator : GeneratorContext}
    (hfunction : generator.codeType = .functionCode)
    (hscope : generator.needsFullScopeChain = false) {b : BinaryOperation N F} :
    generator.skipsCopy b = true ↔ b.rightHasAssignments = false ∨
    generator.isPure b.right = true := by
  cases hflag : b.rightHasAssignments <;> cases hpure : generator.isPure b.right <;>
    simp [GeneratorContext.skipsCopy, GeneratorContext.leftHandSideNeedsCopy, hfunction,
      hscope, hflag, hpure]

/-- The flags of an expression that the parser returned. -/
theorem flagsExact_of_parse {B : Type} {config : ParserConfig N F} {depth : Nat}
    {s s' : ParserState N B} {e : Expression N F}
    (h : outcome (parseExpression (parseAssignmentExpression config depth)) s = (.ok e, s') ∨
      outcome (parseAssignmentExpression config depth) s = (.ok e, s')) : e.FlagsExact := by
  have htracks := tracks_free (B := B) config depth (m := 0) (n := 0)
  rcases h with h | h
  · have := (tracks_parseExpression htracks).counts s.assignmentCount s (Grew.refl _)
    exact ((ensures_iff_of_ok h).mp this).2.1
  · have := htracks.counts s.assignmentCount s (Grew.refl _)
    exact ((ensures_iff_of_ok h).mp this).2.1

/-- **When the right-has-assignments flag is sound.**  For every binary node of an expression that
the parser returns, the flag covers all assignments to identifiers in the right operand exactly if a
right operand with a destructuring assignment has another assignment as well.  Then, where function
code without a scope chain leaves out the copy of a local variable that no `arguments` object
shares, evaluating the right operand does not change its register. -/
theorem rightHasAssignments_sound_iff {B : Type} (config : ParserConfig N F) (depth : Nat)
    {s s' : ParserState N B} {e : Expression N F}
    (h : outcome (parseExpression (parseAssignmentExpression config depth)) s = (.ok e, s') ∨
      outcome (parseAssignmentExpression config depth) s = (.ok e, s'))
    {b : BinaryOperation N F} (hb : b ∈ e.binaryOperations) :
    ((b.right.modifiesIdentifier = true → b.rightHasAssignments = true) ↔
      (b.right.destructures = true → b.right.assigns = true)) ∧
    ((b.right.destructures = true → b.right.assigns = true) →
      ∀ (machine : Machine N F) (generator : GeneratorContext) (x : String),
        generator.codeType = .functionCode → generator.needsFullScopeChain = false →
        b.left = .resolve x → (generator.localVariable x).isSome = true →
        machine.aliased x = false → generator.skipsCopy b = true →
        ∀ state, (outcome (evaluate machine generator b.right) state).2.registers x =
          state.registers x) := by
  have hflag : b.rightHasAssignments = b.right.assigns := flagsExact_of_parse h b hb
  rw [hflag]
  refine ⟨⟨fun hsound hd => hsound ?_, fun hcond hm => ?_⟩, ?_⟩
  · rw [Expression.modifiesIdentifier, hd, Bool.or_true]
  · rw [Expression.modifiesIdentifier, Bool.or_eq_true] at hm
    exact hm.elim Expression.assigns_of_assignsIdentifier hcond
  · intro hcond machine generator x hfunction hscope _ _ hx hskip
    -- either the flag is clear, and then nothing is assigned, or the operand is pure
    have hnone : b.right.assigns = false ∧ b.right.destructures = false := by
      rcases (skipsCopy_iff hfunction hscope).mp hskip with hclear | hpure
      · rw [hflag] at hclear
        refine ⟨hclear, Bool.eq_false_iff.mpr fun hd => ?_⟩
        rw [hcond hd] at hclear
        cases hclear
      · exact assigns_of_isPure hpure
    exact leaves_evaluate generator hx hnone

/-! ## 4. An assignment that the parser does not count -/

/-- A machine with integers and one array. -/
def integerMachine : Machine Int Unit where
  Value := Int
  World := List Int
  Exception := Empty
  constant
    | .number n => n
    | _ => 0
  index i := i
  toBoolean v := v != 0
  aliased _ := false
  operation instruction values :=
    ofOutcome fun state =>
      match instruction, values with
      | .newArray, _ => (.ok 0, { state with world := [] })
      | .append _, [_, value] => (.ok 0, { state with world := state.world ++ [value] })
      | .getByVal, [_, index] => (.ok (state.world.getD index.toNat 0), state)
      | .binary .add, [value1, value2] => (.ok (value1 + value2), state)
      | _, _ => (.ok 0, state)
  operation_keeps instruction values x _ state := by
    rw [outcome_ofOutcome]
    split <;> rfl

/-- Function code with one local variable. -/
def functionContext : GeneratorContext where
  codeType := .functionCode
  needsFullScopeChain := false
  localVariable x := if x = "x" then some false else none
  optimizesArguments _ := false

/-- `x + f(y)`, a node with a call on the right. -/
def callOperation : BinaryOperation Int Unit where
  left := .resolve "x"
  right := .functionCall (.resolve "f") (.cons .argument (.resolve "y") .nil)
  rightHasAssignments := false

set_option maxRecDepth 4000 in
/-- The parser builds the node from its source, and calling `f` leaves `x` alone. -/
theorem rightHasAssignments_sound_call :
    let b := callOperation
    outcome (parseExpression (parseAssignmentExpression integerParser 3))
        ⟨[.ident "x", .punctuation .plus, .ident "f", .punctuation .openParen, .ident "y",
          .punctuation .closeParen], true, 0, 0, ()⟩ =
      (.ok (.binary .add b.left b.right b.rightHasAssignments), ⟨[], true, 0, 1, ()⟩) ∧
    functionContext.skipsCopy b = true ∧
    ((b.right.modifiesIdentifier = true → b.rightHasAssignments = true) ↔
      (b.right.destructures = true → b.right.assigns = true)) ∧
    ∀ state, (outcome (evaluate integerMachine functionContext b.right) state).2.registers "x" =
      state.registers "x" := by
  intro b
  have hparse : outcome (parseExpression (parseAssignmentExpression integerParser 3))
        ⟨[.ident "x", .punctuation .plus, .ident "f", .punctuation .openParen, .ident "y",
          .punctuation .closeParen], true, 0, 0, ()⟩ =
      (.ok (.binary .add b.left b.right b.rightHasAssignments), ⟨[], true, 0, 1, ()⟩) := rfl
  have hmem : b ∈ (Expression.binary .add b.left b.right b.rightHasAssignments).binaryOperations :=
    List.mem_cons_self
  obtain ⟨hiff, hkeeps⟩ := rightHasAssignments_sound_iff integerParser 3 (.inl hparse) hmem
  refine ⟨hparse, rfl, hiff, ?_⟩
  exact hkeeps (by decide) integerMachine functionContext "x" rfl rfl rfl rfl rfl rfl

/-- `x + ([x] = [5], 0)`, as the parser builds it. -/
def destructuringOperation : BinaryOperation Int Unit where
  left := .resolve "x"
  right := .comma (.deconstructingAssignment (.array (.index (.binding "x") .nil))
    (.array (.cons (.element 0) (.number 5) .nil) none)) (.number 0)
  rightHasAssignments := false

set_option maxRecDepth 4000 in
/-- **A destructuring assignment is not counted.**  The node for `x + ([x] = [5], 0)` has a clear
flag, so function code leaves out the copy, and with 1 in `x` the operator gets 5 and 0. -/
theorem destructuring_not_counted :
    let b := destructuringOperation
    let start : MachineState Int (List Int) := ⟨fun _ => 1, []⟩
    outcome (parseExpression (parseAssignmentExpression integerParser 5))
        ⟨[.ident "x", .punctuation .plus, .punctuation .openParen,
          .punctuation .openBracket, .ident "x",
          .punctuation .closeBracket, .punctuation .equal, .punctuation .openBracket, .number 5,
          .punctuation .closeBracket, .punctuation .comma, .number 0, .punctuation .closeParen],
          true, 0, 0, ()⟩ =
      (.ok (.binary .add b.left b.right b.rightHasAssignments), ⟨[], true, 0, 1, ()⟩) ∧
    b ∈ (Expression.binary .add b.left b.right b.rightHasAssignments).binaryOperations ∧
    b.right.modifiesIdentifier = true ∧ b.rightHasAssignments = false ∧
    functionContext.skipsCopy b = true ∧ integerMachine.aliased "x" = false ∧
    start.registers "x" = 1 ∧
    (outcome (evaluate integerMachine functionContext b.right) start).2.registers "x" = (5 : Int) ∧
    (outcome (evaluateOperands integerMachine functionContext b) start).1 =
      .ok ((5 : Int), (0 : Int)) :=
  ⟨rfl, List.mem_cons_self, rfl, rfl, rfl, rfl, rfl, rfl, rfl⟩

end JavaScriptCore.Bytecompiler.LeftHandSide
