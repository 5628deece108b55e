/-
# Binary expressions are grouped by precedence, and the stacks are left as they were

The parser with the stacks of the tree builder does what the parser with lists of its own does
(`tracks_sharedAssignment`), and wherever it succeeds the stacks are as they were.  The only place
where something could stay on them is a failed attempt at a destructuring assignment, since nothing
is taken off the stacks after an error.  But then no expression is returned either: what follows the
attempt parses the same right hand side again, and fails again (`parseReferenceAssignment_fails`).

The lists hold the parts of the tree that `Lib/Precedence.lean` builds
(`loop_parseBinaryRound_iff`), so the expression is made of the one tree that is grouped by
precedence.
-/
import JavaScriptCore.Lib.Precedence
import JavaScriptCore.Parser.BinaryExpressions
import JavaScriptCore.Parser.CountedAssignments

namespace JavaScriptCore.Parser

open Operations List ParserState Coupling BinaryToken
open Lib
open Lib.Effects

variable {N F B : Type}

/-! ## 1. Token types -/

/-- What `isBinaryOperator` gives for an operator: its precedence, shifted. -/
def shiftedPrecedence (allowsIn : Bool) (op : BinaryToken) : Nat :=
  op.precedence <<< (if allowsIn then 12 else 8)

theorem isBinaryOperator_of_lt {allowsIn : Bool} {type : Nat} (htype : type < 2 ^ 8) :
    isBinaryOperator allowsIn type = 0 := by
  have hmask (k : Nat) (hk : 8 ≤ k) : type &&& 15 <<< k = 0 := by
    apply Nat.eq_of_testBit_eq
    intro j
    rw [Nat.testBit_and, Nat.testBit_shiftLeft, Nat.zero_testBit]
    rcases Nat.lt_or_ge j k with hj | hj
    · simp [Nat.not_le_of_lt hj]
    · have hbit : type.testBit j = false :=
        Nat.testBit_lt_two_pow (htype.trans_le (Nat.pow_le_pow_right (by omega) (by omega)))
      rw [hbit, Bool.false_and]
  unfold isBinaryOperator
  split
  · exact hmask 12 (by omega)
  · exact hmask 8 (by omega)

theorem isBinaryOperator_punctuation (allowsIn : Bool) (p : Punctuation) :
    isBinaryOperator allowsIn p.type =
      ((Token.punctuation p : Token Unit).binaryOperator allowsIn).elim 0
        (shiftedPrecedence allowsIn) := by
  cases allowsIn <;> cases p <;> decide

theorem isBinaryOperator_keyword (allowsIn : Bool) (k : Keyword) :
    isBinaryOperator allowsIn k.type =
      ((Token.keyword k : Token Unit).binaryOperator allowsIn).elim 0
        (shiftedPrecedence allowsIn) := by
  cases k with
  | reserved name =>
    refine isBinaryOperator_of_lt ?_
    have hindex : (keywordNames.findIdx? (· == name)).getD reservedIndex < 27 := by
      cases h : keywordNames.findIdx? (· == name) with
      | none => decide
      | some i => exact (findIdx?_eq_some_iff_getElem.mp h).1
    rw [Keyword.type, keywordTokenFlag]
    omega
  | _ => cases allowsIn <;> decide

/-- **The masks pick the precedence of the binary operators**, and zero for every other token. -/
theorem isBinaryOperator_type (allowsIn : Bool) (t : Token N) :
    isBinaryOperator allowsIn t.type =
      (t.binaryOperator allowsIn).elim 0 (shiftedPrecedence allowsIn) := by
  cases t with
  | ident | string | number | regExp =>
    refine isBinaryOperator_of_lt ?_
    rw [Token.type]
    decide
  | punctuation p =>
    refine (isBinaryOperator_punctuation allowsIn p).trans ?_
    cases p <;> rfl
  | keyword k =>
    refine (isBinaryOperator_keyword allowsIn k).trans ?_
    cases k <;> rfl

theorem shiftedPrecedence_le_iff (allowsIn : Bool) (op op' : BinaryToken) :
    shiftedPrecedence allowsIn op ≤ shiftedPrecedence allowsIn op' ↔
    op.precedence ≤ op'.precedence := by
  unfold shiftedPrecedence
  rw [Nat.shiftLeft_eq, Nat.shiftLeft_eq]
  exact Nat.mul_le_mul_right_iff (Nat.two_pow_pos _)

/-! ## 2. The entries of one expression on the stacks -/

section Stacks

variable (config : ParserConfig N F)

/-- The stacks with the entries of one expression on top. -/
def BinaryStacks.under (b : BinaryStacks N F) (allowsIn : Bool) (operators : List BinaryToken)
    (operands : List (BinaryOperand N F)) : BinaryStacks N F :=
  ⟨operands ++ b.operandStack, operators.map (fun op => (op, shiftedPrecedence allowsIn op)) ++
    b.operatorStack⟩

theorem reduceOperations_eq (p : Nat) (operators : List BinaryToken)
    (operands : List (BinaryOperand N F)) :
    reduceOperations config p operators operands =
      Precedence.reduce precedence (appendBinaryOperation config) p operators operands := by
  induction operators generalizing operands with
  | nil => cases operands <;> rfl
  | cons op operators ih =>
    match operands with
    | [] | [_] => rfl
    | rhs :: lhs :: operands =>
      rw [reduceOperations, Precedence.reduce, ih]

/-- **The loops on the stacks reduce the entries of the expression**, and nothing below them, if the
condition is about the precedence of the last operator. -/
theorem reduceWhile_under (condition : BinaryStacks N F → Bool) (p : Nat) (b : BinaryStacks N F)
    (allowsIn : Bool)
    (hcondition : ∀ op operators operands,
      condition (b.under allowsIn (op :: operators) operands) = decide (p ≤ op.precedence))
    {operators : List BinaryToken} {operands : List (BinaryOperand N F)}
    (hlength : operands.length = operators.length + 1) :
    ∃ operators' operands', reduceOperations config p operators operands = (operators', operands') ∧
      operands'.length = operators'.length + 1 ∧
      reduceWhile config condition operands.length operators.length
        (b.under allowsIn operators operands) =
        (⟨operands'.length, operators'.length⟩, b.under allowsIn operators' operands') := by
  induction operators generalizing operands with
  | nil => exact ⟨[], operands, by cases operands <;> rfl, hlength, by rw [length_nil, reduceWhile]⟩
  | cons op operators ih =>
    match operands, hlength with
    | rhs :: lhs :: operands, hlength =>
      rw [length_cons (a := op), reduceWhile, hcondition, reduceOperations]
      simp only [decide_eq_true_eq]
      split
      · have hrest : (appendBinaryOperation config op lhs rhs :: operands).length =
            operators.length + 1 := by
          simpa using hlength
        exact ih hrest
      · exact ⟨op :: operators, rhs :: lhs :: operands, rfl, hlength, rfl⟩

end Stacks

/-! ## 3. Operands and operators, one after the other -/

section Operands

variable (config : ParserConfig N F) (assignment : ParserM N B (Expression N F))

/-- The parser after an operator. -/
def ParserState.afterOperator (s : ParserState N B) : ParserState N B :=
  { s with tokens := s.tokens.tail, nonLHSCount := s.nonLHSCount + 1 }

/-- **The operands and operators of a binary expression**: `unary` reads an operand at a time, and
after each one except the last the next token is a binary operator. -/
inductive Operands (unary : ParserM N B (Expression N F)) (allowsIn : Bool) : ParserState N B →
    BinaryOperand N F → List (BinaryToken × BinaryOperand N F) → ParserState N B → Prop where
  | last {s s' a} (hoperand : outcome (countingAssignments unary) s = (.ok a, s'))
      (hend : s'.token.binaryOperator allowsIn = none) : Operands unary allowsIn s a [] s'
  | more {s s1 s' a op b l} (hoperand : outcome (countingAssignments unary) s = (.ok a, s1))
      (hop : s1.token.binaryOperator allowsIn = some op)
      (hrest : Operands unary allowsIn s1.afterOperator b l s') :
        Operands unary allowsIn s a ((op, b) :: l) s'

/-- The operations on the two lists when an operator and an operand come. -/
abbrev shiftOperand (lists : List BinaryToken × List (BinaryOperand N F))
    (next : BinaryToken × BinaryOperand N F) : List BinaryToken × List (BinaryOperand N F) :=
  Precedence.shift precedence (appendBinaryOperation config) lists next

variable {config assignment}

variable {operators : List BinaryToken} {operands : List (BinaryOperand N F)}
  {s s1 s' : ParserState N B}
  {a : BinaryOperand N F}

theorem allowsIn_countingAssignments
    (h : outcome (countingAssignments (parseUnaryExpression config assignment)) s = (.ok a, s')) :
    s'.allowsIn = s.allowsIn := by
  have hunary : Ensures (parseUnaryExpression config assignment) s (fun _ s' =>
    s'.allowsIn = s.allowsIn)
      (fun _ _ => True) := by
    rw [parseUnaryExpression, ensures_bind, ensures_get, ensures_afterwards]
    exact ensures_of_forall fun _ _ => rfl
  have hcounting : Ensures (countingAssignments (parseUnaryExpression config assignment)) s
      (fun _ s' => s'.allowsIn = s.allowsIn) (fun _ _ => True) := by
    simp only [countingAssignments, assignmentCount, ensures_run]
    exact hunary
  exact (ensures_iff_of_ok h).mp hcounting

theorem parseBinaryRound_of_error {e : ParserError N}
    (h : outcome (countingAssignments (parseUnaryExpression config assignment)) s
      = (.error e, s1)) :
    outcome (parseBinaryRound config assignment (operators, operands)) s = (.error e, s1) :=
  outcome_bind_of_error h _

section

variable (h : outcome (countingAssignments (parseUnaryExpression config assignment)) s
  = (.ok a, s1))

include h

/-- A round at the last operand. -/
theorem parseBinaryRound_of_none (hop : s1.token.binaryOperator s.allowsIn = none) :
    outcome (parseBinaryRound config assignment (operators, operands)) s =
      (.ok (.inr (operators, a :: operands)), s1) := by
  have hin : s1.allowsIn = s.allowsIn := allowsIn_countingAssignments h
  rw [parseBinaryRound, outcome_bind_of_ok h, outcome_bind_of_ok (outcome_get s1), hin, hop]
  rfl

/-- A round at an operand with an operator after it. -/
theorem parseBinaryRound_of_some {operators' : List BinaryToken}
    {operands' : List (BinaryOperand N F)}
    {op : BinaryToken} (hop : s1.token.binaryOperator s.allowsIn = some op)
    (hreduce : reduceOperations config op.precedence operators (a :: operands) =
      (operators', operands')) :
    outcome (parseBinaryRound config assignment (operators, operands)) s =
      (.ok (.inl (op :: operators', operands')), s1.afterOperator) := by
  have hin : s1.allowsIn = s.allowsIn := allowsIn_countingAssignments h
  rw [parseBinaryRound, outcome_bind_of_ok h, outcome_bind_of_ok (outcome_get s1), hin, hop]
  simp only [hreduce]
  rfl

end

/-- **The loop reads operands and operators** and keeps the lists as the stacks of operator
precedence. -/
theorem loop_parseBinaryRound_iff {n : Nat} {lists : List BinaryToken × List (BinaryOperand N F)} :
    outcome (loop .stackExhausted (parseBinaryRound config assignment) n (operators, operands)) s =
      (.ok lists, s') ↔
      ∃ a l, Operands (parseUnaryExpression config assignment) s.allowsIn s a l s' ∧ l.length < n ∧
        lists = l.foldl (shiftOperand config) (operators, a :: operands) := by
  induction n generalizing operators operands s with
  | zero =>
    constructor
    · intro h
      cases h
    · rintro ⟨a, l, -, h, -⟩
      exact absurd h (Nat.not_lt_zero _)
  | succ n ih =>
    cases hunary : outcome (countingAssignments (parseUnaryExpression config assignment)) s with
    | mk result s1 =>
      cases result with
      | error e =>
        rw [loop, outcome_bind_of_error (parseBinaryRound_of_error hunary)]
        constructor
        · intro h
          cases h
        · rintro ⟨a, l, hoperands, -⟩
          cases hoperands with
          | last hoperand _ | more hoperand _ _ => cases hunary.symm.trans hoperand
      | ok a =>
        cases hop : s1.token.binaryOperator s.allowsIn with
        | none =>
          rw [loop, outcome_bind_of_ok (parseBinaryRound_of_none hunary hop)]
          constructor
          · intro h
            cases h
            exact ⟨a, [], .last hunary hop, Nat.succ_pos n, rfl⟩
          · rintro ⟨b, l, hoperands, -, rfl⟩
            cases hoperands with
            | last hoperand _ =>
              cases hunary.symm.trans hoperand
              rfl
            | more hoperand hop' _ =>
              cases hunary.symm.trans hoperand
              cases hop.symm.trans hop'
        | some op =>
          rw [loop, outcome_bind_of_ok (parseBinaryRound_of_some hunary hop rfl)]
          have hin : s1.allowsIn = s.allowsIn := allowsIn_countingAssignments hunary
          have hin' : s1.afterOperator.allowsIn = s.allowsIn := hin
          refine ih.trans ?_
          rw [hin', reduceOperations_eq]
          constructor
          · rintro ⟨b, l, hoperands, hlength, rfl⟩
            exact ⟨a, (op, b) :: l, .more hunary hop hoperands, Nat.succ_lt_succ hlength, rfl⟩
          · rintro ⟨b, l, hoperands, hlength, rfl⟩
            cases hoperands with
            | last hoperand hend =>
              cases hunary.symm.trans hoperand
              cases hop.symm.trans hend
            | more hoperand hop' hrest =>
              cases hunary.symm.trans hoperand
              cases hop.symm.trans hop'
              exact ⟨_, _, hrest, Nat.lt_of_succ_lt_succ hlength, rfl⟩

/-- **What `parseBinaryExpression` builds**: the grouped tree of the operands and operators it
reads. -/
theorem parseBinaryExpression_iff {s s' : ParserState N B} {e : Expression N F} :
    outcome (parseBinaryExpression config assignment) s = (.ok e, s') ↔
      ∃ a l, Operands (parseUnaryExpression config assignment) s.allowsIn s a l s' ∧
        l.length ≤ s.tokens.length ∧
        ∃ t : Precedence.Tree (BinaryOperand N F) BinaryToken, t.first = a ∧ t.rest = l ∧
          t.Grouped precedence ∧ e = (t.fold (appendBinaryOperation config)).1 := by
  have hloop {lists s1} : outcome (whileTokens (parseBinaryRound config assignment) ([], [])) s =
    (.ok lists, s1) ↔ _ :=
    loop_parseBinaryRound_iff (n := s.tokens.length + 1)
  constructor
  · intro h
    cases hlists : outcome (whileTokens (parseBinaryRound config assignment) ([], [])) s with
    | mk result s1 =>
      cases result with
      | error e' =>
        rw [parseBinaryExpression, outcome_bind_of_error hlists] at h
        cases h
      | ok lists =>
        obtain ⟨a, l, hoperands, hlength, rfl⟩ := hloop.mp hlists
        obtain ⟨t, hfirst, hrest, hgrouped, hreduce⟩ :=
          Precedence.reduce_shiftAll precedence (appendBinaryOperation config) a l
        rw [parseBinaryExpression, outcome_bind_of_ok hlists] at h
        simp only [reduceOperations_eq, hreduce] at h
        cases h
        exact ⟨a, l, hoperands, Nat.le_of_lt_succ hlength, t, hfirst, hrest, hgrouped, rfl⟩
  · rintro ⟨a, l, hoperands, hlength, t, rfl, rfl, hgrouped, rfl⟩
    have hlists := hloop.mpr ⟨t.first, t.rest, hoperands, Nat.lt_succ_of_le hlength, rfl⟩
    obtain ⟨t', hfirst, hrest, hgrouped', hreduce⟩ :=
      Precedence.reduce_shiftAll precedence (appendBinaryOperation config) t.first t.rest
    obtain rfl := hgrouped.unique hgrouped' hfirst.symm hrest.symm
    rw [parseBinaryExpression, outcome_bind_of_ok hlists]
    simp only [reduceOperations_eq, hreduce]
    rfl

end Operands

/-! ## 4. The parser with the shared stacks does the same -/

/-- The builders are these two, up to an error. -/
def Coupling.fixed (b b' : B) : Coupling N B where
  tokens _ := True
  builders x y := x = b ∧ y = b'
  buildersAfterError _ _ := True
  tail _ _ := trivial
  ignoreReservedWords _ _ := trivial
  builders_le _ _ _ := trivial

theorem Coupling.fixed_admits (b b' : B) (config : ParserConfig N F) :
    (Coupling.fixed b b').Admits config :=
  fun _ _ _ _ _ _ => trivial

section Shared

variable {config : ParserConfig N F}
  {assignment assignment' : ParserM N (BinaryStacks N F) (Expression N F)}

/-- The entries of an expression on the shared stacks, next to the lists of the other parser. -/
structure OnStacks (b b' : BinaryStacks N F) (flag : Bool) (m n extra : Nat) (depths : StackDepths)
    (lists : List BinaryToken × List (BinaryOperand N F)) (s t : ParserState N (BinaryStacks N F)) :
    Prop where
  length : lists.2.length = lists.1.length + extra
  depths : depths = ⟨lists.2.length, lists.1.length⟩
  allowsIn : s.allowsIn = flag
  related : (fixed (b.under flag lists.1 lists.2) b').Related m n s t

variable {b b' : BinaryStacks N F} {flag : Bool} {m n : Nat}

variable {lists : List BinaryToken × List (BinaryOperand N F)}
  {s t : ParserState N (BinaryStacks N F)}

theorem OnStacks.afterError {extra : Nat} {depths : StackDepths}

    (h : OnStacks b b' flag m n extra depths lists s t) : (fixed b b').RelatedAfterError m n s t :=
  ⟨trivial, h.related.tokens, h.related.allowsIn, h.related.assignmentCount,
    h.related.nonLHSCount, trivial⟩

variable (config b flag) in
/-- The loop at an operator reduces the entries of the expression. -/
theorem reduceWhile_precedence {operators : List BinaryToken} {operands : List (BinaryOperand N F)}
    (hlength : operands.length = operators.length + 1) (op : BinaryToken) :
    ∃ operators' operands', reduceOperations config op.precedence operators operands =
      (operators', operands') ∧ operands'.length = operators'.length + 1 ∧
      reduceWhile config (·.operatorStackHasHigherPrecedence (shiftedPrecedence flag op))
        operands.length
          operators.length (b.under flag operators operands) =
        (⟨operands'.length, operators'.length⟩, b.under flag operators' operands') :=
  reduceWhile_under config _ _ _ _
    (fun op' _ _ => decide_eq_decide.mpr (shiftedPrecedence_le_iff flag op op')) hlength

/-- **One round on the stacks**, next to one with the lists. -/
theorem alongside_parseBinaryRound
    (hassignment : ∀ x y, TracksExpression (.fixed x y) m n assignment assignment')
    (hplain : ∀ {m n}, TracksExpression .free m n assignment' assignment') {depths : StackDepths}
    (h : OnStacks b b' flag m n 0 depths lists s t) :
    Alongside (fun r r' s' t' => Sum.LiftRel (OnStacks b b' flag m n 0 · · s' t')
        (OnStacks b b' flag m n 1 · · s' t') r r') ((fixed b b').RelatedAfterError m n)
      (Shared.parseBinaryRound config assignment depths)
      (parseBinaryRound config assignment' lists) s t := by
  obtain ⟨operators, operands⟩ := lists
  obtain ⟨hlength, rfl, hflag, hrelated⟩ := h
  have hunary := (tracks_parseUnaryExpression (hassignment (b.under flag operators operands) b')
    (fixed_admits _ _ config) hplain).countingAssignments.after.coupled
  rcases hunary s t hrelated with ⟨a, _, s1, t1, hs, ht, rfl, hst⟩ | ⟨e, s1, t1, hs, ht, hst⟩
  · have hbuilder : s1.builder = b.under flag operators operands := hst.builder.1
    have hin : s1.allowsIn = flag := (allowsIn_countingAssignments hs).trans hflag
    have hint : t.allowsIn = flag := hrelated.allowsIn.trans hflag
    have htoken : t1.token = s1.token := hst.token
    have hlength' : (a :: operands).length = operators.length + 1 := by simpa using hlength
    cases hop : s1.token.binaryOperator flag with
    | none =>
      refine .inl ⟨_, _, { s1 with builder := b.under flag operators (a :: operands) }, t1, ?_,
        parseBinaryRound_of_none ht (by rw [htoken, hint, hop]),
        Sum.LiftRel.inr ⟨hlength', rfl, hin, ?_⟩⟩
      · rw [Shared.parseBinaryRound, outcome_bind_of_ok hs, Shared.parseBinaryOperator,
          Shared.modifyBuilder,
          outcome_bind_of_ok (outcome_modify _ s1), outcome_bind_of_ok (outcome_get _)]
        simp only [ParserState.token] at hop ⊢
        rw [hin, hop, hbuilder]
        rfl
      · exact ⟨trivial, hst.tokens, hst.allowsIn, hst.assignmentCount, hst.nonLHSCount, rfl,
          hst.builder.2⟩
    | some op =>
      obtain ⟨operators', operands', hreduce, hlength'', hwhile⟩ :=
        reduceWhile_precedence config b flag hlength' op
      have hprecedence : isBinaryOperator flag s1.token.type = shiftedPrecedence flag op := by
        rw [isBinaryOperator_type, hop]
        rfl
      refine .inl ⟨_, _,
        { s1.afterOperator with builder := b.under flag (op :: operators') operands' },
        t1.afterOperator, ?_, parseBinaryRound_of_some ht (by rw [htoken, hint, hop]) hreduce,
        .inl ⟨hlength'', rfl, hin, ?_⟩⟩
      · rw [Shared.parseBinaryRound, outcome_bind_of_ok hs, Shared.parseBinaryOperator,
          Shared.modifyBuilder,
          outcome_bind_of_ok (outcome_modify _ s1), outcome_bind_of_ok (outcome_get _)]
        simp only [ParserState.token] at hop hprecedence ⊢
        rw [hin, hop, hbuilder, hprecedence]
        have hreduced :
          reduceWhile config (·.operatorStackHasHigherPrecedence (shiftedPrecedence flag op))
            (operands.length + 1) operators.length
            ((b.under flag operators operands).appendBinaryExpressionInfo a) = _ := hwhile
        simp only [hreduced, afterOperator, hin]
        rfl
      · refine ⟨trivial, congrArg tail hst.tokens, hst.allowsIn, hst.assignmentCount, ?_, rfl,
          hst.builder.2⟩
        simp only [afterOperator, hst.nonLHSCount]
        omega
  · exact .inr ⟨e, s1, t1, outcome_bind_of_error hs _, parseBinaryRound_of_error ht, hst⟩

variable (config) in
/-- **The shared stacks are a way to keep the lists**: `parseBinaryExpression` gives the same
expression, and leaves the stacks as they were. -/
theorem coupled_parseBinaryExpression_shared
    (hassignment : ∀ x y, TracksExpression (.fixed x y) m n assignment assignment')
    (hplain : ∀ {m n}, TracksExpression .free m n assignment' assignment')
    (b b' : BinaryStacks N F) :
    Coupled (.fixed b b') m n (Shared.parseBinaryExpression config assignment)
      (parseBinaryExpression config assignment') := by
  intro s t hst
  have hstart : OnStacks b b' s.allowsIn m n 0 ⟨0, 0⟩ ([], []) s t := ⟨rfl, rfl, rfl, hst⟩
  have hloop : Alongside (OnStacks b b' s.allowsIn m n 1) ((fixed b b').RelatedAfterError m n)
      (whileTokens (Shared.parseBinaryRound config assignment) ⟨0, 0⟩)
      (whileTokens (parseBinaryRound config assignment') ([], [])) s t := by
    unfold Alongside whileTokens
    rw [outcome_bind_of_ok (outcome_get s), outcome_bind_of_ok (outcome_get t), hst.tokens]
    exact Alongside.loop (fun _ _ _ _ h => h.afterError)
      (fun _ _ _ _ h => alongside_parseBinaryRound hassignment hplain h) _ hstart
  refine hloop.bind ?_
  rintro depths ⟨operators, operands⟩ s1 t1 ⟨hlength, rfl, hflag, hrelated⟩
  obtain ⟨operators', operands', hreduce, hlength', hwhile⟩ :=
    reduceWhile_under config (fun _ => true) 0 b s.allowsIn
      (fun op _ _ => (decide_eq_true (Nat.zero_le op.precedence)).symm) hlength
  obtain ⟨x, hx⟩ := reduceOperations_zero config hlength
  obtain ⟨rfl, rfl⟩ := Prod.mk.inj (hreduce.symm.trans hx)
  have hbuilder : s1.builder = b.under s.allowsIn operators operands := hrelated.builder.1
  refine .inl ⟨x.1, x.1, { s1 with builder := b }, t1, ?_, ?_, rfl, ?_⟩
  · rw [Shared.popBinaryExpression, outcome_bind_of_ok (outcome_get s1), hbuilder]
    simp only [hwhile]
    rfl
  · simp only [hx]
    rfl
  · exact ⟨trivial, hrelated.tokens, hrelated.allowsIn, hrelated.assignmentCount,
      hrelated.nonLHSCount, rfl, hrelated.builder.2⟩

end Shared

/-! ## 5. A failed attempt -/

section Attempt

variable (config : ParserConfig N F)

/-- **The parser with the shared stacks does what the other one does**, and leaves the stacks as
they were. -/
theorem tracks_sharedAssignment (depth : Nat) (b b' : BinaryStacks N F) :
    TracksExpression (.fixed b b') m n (Shared.parseAssignmentExpression config depth)
      (parseAssignmentExpression config depth) := by
  refine .of_coupled ?_ (tracks_free config depth).counts
  induction depth generalizing b b' with
  | zero => exact (Tracks.of_throw (f := fun _ => none) (P := fun _ => True) _).coupled
  | succ depth ih =>
    have hplain {m n : Nat} := tracks_free (B := BinaryStacks N F) config depth (m := m) (n := n)
    have hassignment (x y : BinaryStacks N F) := Tracks.of_coupled (ih x y) hplain.counts
    have hbinary (x y : BinaryStacks N F) := Tracks.of_coupled
      (coupled_parseBinaryExpression_shared config hassignment hplain x y)
      (tracks_parseBinaryExpression hplain (free_admits config) hplain).counts
    intro s t hst
    have hreference (x y : BinaryStacks N F) :=
      (tracks_parseReferenceAssignment config (hassignment x y)
      (tracks_parseConditionalExpression (hassignment x y) (hbinary x y)) s.assignmentCount
      s.nonLHSCount).after.coupled
    rw [← hst.assignmentCount, ← hst.nonLHSCount] at hreference
    simp only [Alongside, Shared.parseAssignmentExpression, parseAssignmentExpression,
      parseAssignmentExpressionWith]
    rw [outcome_bind_of_ok (outcome_get s), outcome_bind_of_ok (outcome_get t)]
    cases hahead : patternAhead config s.tokens with
    | none =>
      have hahead' : patternAhead config t.tokens = none := by rw [hst.tokens, hahead]
      rw [outcome_bind_of_ok (tryDeconstructingAssignment_of_none _ hahead),
        outcome_bind_of_ok (tryDeconstructingAssignment_of_none _ hahead')]
      exact hreference b b' s t hst
    | some attempt =>
      obtain ⟨pattern, rest⟩ := attempt
      have hahead' : patternAhead config t.tokens = some (pattern, rest) := by
        rw [hst.tokens, hahead]
      have htry :=
        tryDeconstructingAssignment_of_some (Shared.parseAssignmentExpression config depth) hahead
      have htry' := tryDeconstructingAssignment_of_some
        (parseAssignmentExpression config depth : ParserM N (BinaryStacks N F) (Expression N F))
          hahead'
      have hattempt : (fixed b b').Related m n { s with tokens := rest } { t with
          tokens := rest } :=
        ⟨trivial, rfl, hst.allowsIn, hst.assignmentCount, hst.nonLHSCount, hst.builder⟩
      rcases ih b b' _ _ hattempt with ⟨rhs, _, s1, t1, hs, ht, rfl, hst1⟩
          | ⟨e, s1, t1, hs, ht, hst1⟩
      · rw [hs] at htry
        rw [ht] at htry'
        rw [outcome_bind_of_ok htry, outcome_bind_of_ok htry']
        exact .inl ⟨_, _, s1, t1, rfl, rfl, rfl, hst1⟩
      · rw [hs] at htry
        rw [ht] at htry'
        rw [outcome_bind_of_ok htry, outcome_bind_of_ok htry']
        -- the entries of the attempt stay on the stacks, but the second try fails too
        have hback : (fixed s1.builder t1.builder).Related m n { s1 with tokens := s.tokens }
            { t1 with tokens := t.tokens } :=
          ⟨trivial, hst.tokens, hst1.allowsIn, hst1.assignmentCount, hst1.nonLHSCount, rfl, rfl⟩
        have hin : t1.allowsIn = t.allowsIn :=
          ((ensures_iff_of_error ht).mp (hplain.counts _ { t with tokens := rest } (Grew.refl _))).2
        have hfails :=
          parseReferenceAssignment_fails config depth hplain (s := { t1 with tokens := t.tokens })
          (reads_of_patternAhead config hahead') ht rfl hin.symm t.assignmentCount t.nonLHSCount
        rcases hreference _ _ _ _ hback with ⟨_, e', _, t2, _, ht2, _⟩ | herror
        · exact ((ensures_iff_of_ok ht2).mp hfails).elim
        · exact .inr herror

end Attempt

/-! ## 6. The expression and the stacks -/

section Success

variable {α : Type} {c d : ParserM N B α} {s s' : ParserState N B} {a : α}

/-- Where two functions do the same, whatever is on the stacks, they succeed with the same state. -/
theorem outcome_ok_iff (h : ∀ b, Coupled (.fixed b b) 0 0 c d) :
    outcome c s = (.ok a, s') ↔ outcome d s = (.ok a, s') := by
  have hrelated : (fixed s.builder s.builder).Related 0 0 s s :=
    ⟨trivial, rfl, rfl, rfl, rfl, rfl, rfl⟩
  rcases h s.builder s s hrelated with ⟨x, _, s1, s2, hc, hd, rfl, hst⟩ | ⟨e, s1, s2, hc, hd, _⟩
  · have hstates : s1 = s2 := by
      obtain ⟨-, htokens, hin, hassignments, hnonLHS, hbuilder, hbuilder'⟩ := hst
      cases s1
      cases s2
      simp_all
    rw [hc, hd, hstates]
  · rw [hc, hd]
    simp

/-- And the builder is as it was. -/
theorem builder_of_ok (h : ∀ b, Coupled (.fixed b b) 0 0 c d) (hc : outcome c s = (.ok a, s')) :
    s'.builder = s.builder := by
  have hrelated : (fixed s.builder s.builder).Related 0 0 s s :=
    ⟨trivial, rfl, rfl, rfl, rfl, rfl, rfl⟩
  rcases h s.builder s s hrelated with ⟨_, _, _, _, hc', _, _, hst⟩ | ⟨_, _, _, hc', _⟩
  · cases hc.symm.trans hc'
    exact hst.builder.1
  · cases hc.symm.trans hc'

end Success

/-- The tokens to come are at most so many. -/
def Coupling.atMost (n : Nat) : Coupling N B where
  tokens l := l.length ≤ n
  builders _ _ := True
  buildersAfterError _ _ := True
  tail l hl := by
    rw [length_tail]
    omega
  ignoreReservedWords l hl := by
    unfold Parser.ignoreReservedWords
    split
    · exact hl
    · exact hl
  builders_le _ _ _ := trivial

/-- The parser of functions reads on: it leaves no more tokens than it found. -/
def ParserConfig.ReadsOn (config : ParserConfig N F) : Prop :=
  ∀ mode tokens body rest, (config.parseFunction mode tokens).result = .ok (body, rest) →
    rest.length ≤ tokens.length

namespace Operands

variable {unary unary' : ParserM N B (Expression N F)} {flag : Bool} {s s' : ParserState N B}
  {a : BinaryOperand N F} {l : List (BinaryToken × BinaryOperand N F)}

theorem mono (h : Operands unary flag s a l s')
    (hunary : ∀ {s s' a}, outcome (countingAssignments unary) s = (.ok a, s') →
      outcome (countingAssignments unary') s = (.ok a, s')) : Operands unary' flag s a l s' := by
  induction h with
  | last hoperand hend => exact last (hunary hoperand) hend
  | more hoperand hop _ ih => exact more (hunary hoperand) hop ih

/-- Every operator is a token. -/
theorem length_le (h : Operands unary flag s a l s')
    (hunary : ∀ {s s' a}, outcome (countingAssignments unary) s = (.ok a, s') →
      s'.tokens.length ≤ s.tokens.length) : l.length ≤ s.tokens.length := by
  induction h with
  | last _ _ => exact Nat.zero_le _
  | @more s s1 s' a op b l hoperand hop _ ih =>
    have hle := hunary hoperand
    have hpos : 0 < s1.tokens.length := by
      rw [length_pos_iff]
      intro hnil
      rw [ParserState.token, hnil] at hop
      cases hop
    rw [afterOperator, length_tail] at ih
    rw [length_cons]
    omega

end Operands

theorem parseUnaryExpression_length_le {config : ParserConfig N F} (hconfig : config.ReadsOn)
    (depth : Nat) {s s' : ParserState N B} {a : BinaryOperand N F}
    (h : outcome (countingAssignments (parseUnaryExpression config
    (parseAssignmentExpression config depth))) s =
      (.ok a, s')) : s'.tokens.length ≤ s.tokens.length := by
  have hadmits : (atMost s.tokens.length : Coupling N B).Admits config :=
    fun mode tokens body rest htokens hresult =>
      Nat.le_trans (hconfig mode tokens body rest hresult) htokens
  have hcoupled :=
    (tracks_parseUnaryExpression (tracks_parseAssignmentExpression rfl hadmits depth) hadmits
    (tracks_free config depth)).countingAssignments.after.coupled (m := 0) (n := 0)
  rcases hcoupled s s ⟨le_rfl, rfl, rfl, rfl, rfl, trivial⟩ with
    ⟨_, _, _, _, h', _, _, hst⟩ | ⟨_, _, _, h', _⟩
  · cases h.symm.trans h'
    exact hst.known
  · cases h.symm.trans h'

/-- The two parsers succeed on the same binary expressions. -/
theorem sharedBinaryExpression_iff {config : ParserConfig N F} {depth : Nat}
    {s s' : ParserState N (BinaryStacks N F)} {e : Expression N F} :
    outcome (Shared.parseBinaryExpression config (Shared.parseAssignmentExpression config depth)) s
      = (.ok e, s') ↔
      outcome (parseBinaryExpression config (parseAssignmentExpression config depth)) s
        = (.ok e, s') :=
  outcome_ok_iff fun b =>
    coupled_parseBinaryExpression_shared config (tracks_sharedAssignment config depth)
    (tracks_free config depth) b b

/-- **Binary expressions are grouped by precedence.**  `parseBinaryExpression` succeeds exactly
where operands can be read with binary operators between them, up to a token that is none.  It
returns what `makeBinaryNode` makes, from the leaves up, of the one tree that has the operands and
operators in this order and is grouped by precedence.  It leaves the two stacks as they were, and so
does every operand. -/
theorem binaryExpression_grouped (config : ParserConfig N F) (hconfig : config.ReadsOn)
    (depth : Nat) (s s' : ParserState N (BinaryStacks N F)) (e : Expression N F) :
    let assignment := Shared.parseAssignmentExpression config depth
    (outcome (Shared.parseBinaryExpression config assignment) s = (.ok e, s') ↔
      ∃ a l, Operands (parseUnaryExpression config assignment) s.allowsIn s a l s' ∧
        ∃ t : Precedence.Tree (BinaryOperand N F) BinaryToken,
          (t.first = a ∧ t.rest = l ∧ t.Grouped BinaryToken.precedence) ∧
          (∀ t' : Precedence.Tree (BinaryOperand N F) BinaryToken, t'.first = a → t'.rest = l →
            t'.Grouped BinaryToken.precedence → t' = t) ∧
          e = (t.fold (appendBinaryOperation config)).1) ∧
    (outcome (Shared.parseBinaryExpression config assignment) s = (.ok e, s') →
      s'.builder = s.builder) ∧ (outcome (parseUnaryExpression config assignment) s = (.ok e, s') →
        s'.builder = s.builder) := by
  intro assignment
  have hassignment := tracks_sharedAssignment config depth (m := 0) (n := 0)
  have hplain {m n : Nat} := tracks_free (B := BinaryStacks N F) config depth (m := m) (n := n)
  have hunary (b : BinaryStacks N F) := tracks_parseUnaryExpression (hassignment b b)
    (fixed_admits b b config) hplain
  have hbinary (b : BinaryStacks N F) :=
    coupled_parseBinaryExpression_shared config hassignment hplain b b
  have hoperand (b : BinaryStacks N F) := (hunary b).countingAssignments.after.coupled
  refine ⟨?_, builder_of_ok hbinary, builder_of_ok fun b => (hunary b).after.coupled⟩
  rw [sharedBinaryExpression_iff, parseBinaryExpression_iff]
  constructor
  · rintro ⟨a, l, hoperands, -, t, hfirst, hrest, hgrouped, rfl⟩
    refine ⟨a, l, hoperands.mono (outcome_ok_iff hoperand).mpr, t, ⟨hfirst, hrest, hgrouped⟩, ?_,
      rfl⟩
    intro t' hfirst' hrest' hgrouped'
    exact hgrouped'.unique hgrouped (hfirst'.trans hfirst.symm) (hrest'.trans hrest.symm)
  · rintro ⟨a, l, hoperands, t, ⟨hfirst, hrest, hgrouped⟩, -, rfl⟩
    have hoperands' := hoperands.mono (outcome_ok_iff hoperand).mp
    exact ⟨a, l, hoperands', hoperands'.length_le (parseUnaryExpression_length_le hconfig depth), t,
      hfirst, hrest, hgrouped, rfl⟩

/-- The stacks inside the operand of `z + (…)`. -/
def outerStacks : BinaryStacks Int Unit :=
  ⟨[(.resolve "z", false)], [(.arithmetic .add, shiftedPrecedence true (.arithmetic .add))]⟩

/-- A parser that takes one token for a function. -/
def functionParser : ParserConfig Int Unit :=
  { integerParser with parseFunction := fun _ tokens => ⟨.ok ((), tokens.tail), 0, 0⟩ }

theorem functionParser_readsOn : functionParser.ReadsOn := by
  rintro mode tokens body rest ⟨⟩
  exact tokens.length_tail ▸ Nat.sub_le _ _

set_option maxRecDepth 4000 in
/-- `v - w - x` inside an operand. -/
theorem binaryExpression_grouped_difference :
    let parse := Shared.parseBinaryExpression functionParser
      (Shared.parseAssignmentExpression functionParser 1)
    let s : ParserState Int (BinaryStacks Int Unit) :=
      ⟨[.ident "v", .punctuation .minus, .ident "w", .punctuation .minus, .ident "x"], true, 0, 0,
        outerStacks⟩
    functionParser.ReadsOn ∧
    ∃ s', outcome parse s = (.ok (.binary .sub (.binary .sub (.resolve "v") (.resolve "w") false)
        (.resolve "x") false), s') ∧ s'.builder = outerStacks := by
  have hlists :
    outcome (parseBinaryExpression functionParser (parseAssignmentExpression functionParser 1))
      ⟨[.ident "v", .punctuation .minus, .ident "w", .punctuation .minus, .ident "x"], true, 0, 0,
        outerStacks⟩ =
      (.ok (.binary .sub (.binary .sub (.resolve "v") (.resolve "w") false) (.resolve "x") false),
        ⟨[], true, 0, 2, outerStacks⟩) := rfl
  have hparse := sharedBinaryExpression_iff.mpr hlists
  exact ⟨functionParser_readsOn, _, hparse,
    (binaryExpression_grouped functionParser functionParser_readsOn 1 _ _ _).2.1 hparse⟩

/-- An operation without simplification: the node of the operator. -/
def plainOperation (op : BinaryToken) (lhs rhs : BinaryOperand N F) : BinaryOperand N F :=
  match op with
  | .logicalOr => (.logical .opLogicalOr lhs.1 rhs.1, lhs.2 || rhs.2)
  | .logicalAnd => (.logical .opLogicalAnd lhs.1 rhs.1, lhs.2 || rhs.2)
  | .arithmetic op => (.binary op lhs.1 rhs.1 rhs.2, lhs.2 || rhs.2)
  | .comparison op => (.comparison op lhs.1 rhs.1 rhs.2, lhs.2 || rhs.2)

/-- **`2 * 3` becomes the number 6**: the result is no tree with the two operands and the operator.
-/
theorem product_of_numbers_folded :
    let parse :=
  Shared.parseBinaryExpression integerParser (Shared.parseAssignmentExpression integerParser 1)
    outcome parse ⟨[.number 2, .punctuation .times, .number 3], true, 0, 0, ⟨[], []⟩⟩ =
      (.ok (.number 6), ⟨[], true, 0, 1, ⟨[], []⟩⟩) ∧
    ∀ t : Precedence.Tree (BinaryOperand Int Unit) BinaryToken, t.first = (.number 2, false) →
      t.rest = [(.arithmetic .mult, (.number 3, false))] →
      (t.fold plainOperation).1 ≠ .number 6 := by
  refine ⟨sharedBinaryExpression_iff.mpr rfl, ?_⟩
  intro t _ hrest
  cases t with
  | leaf a => cases hrest
  | node op left right => cases op <;> simp [Precedence.Tree.fold, plainOperation]

end JavaScriptCore.Parser
