/-
# The parser counts the assignments

Each parsing function moves `m_assignmentCount` exactly if the expression that it returns assigns,
and the flags in that expression are exact.  Here this is shown for the functions that
`parseAssignmentExpression` calls, if it is so for the calls inside them; two runs of them stay in
step too.

The parser parses some text twice, and the counter keeps what it counted the first time: at a getter
or setter `parseObjectLiteral` starts again.  The second time it finds the same properties, since
the parser does not depend on its counters, so what was counted the first time is in the result.
-/
import JavaScriptCore.Parser.ASTBuilderSpec
import JavaScriptCore.Parser.AssignmentCount

namespace JavaScriptCore.Parser

open Operations List EntryList Expression Property
open Lib.Effects

variable {N F B α β : Type}

/-! ## 1. Argument lists and literals -/

/-- The functions return an expression, after parts that assign or not. -/
abbrev TracksExpressionFrom (k : Coupling N B) (m n : Nat) (x : Option Bool)
    (c d : ParserM N B (Expression N F)) :
    Prop := Tracks k m n x Eq (fun e => some e.assigns) Expression.FlagsExact c d

/-- The functions return an expression. -/
abbrev TracksExpression (k : Coupling N B) (m n : Nat) (c d : ParserM N B (Expression N F)) :
    Prop :=
  TracksExpressionFrom k m n (some false) c d

/-- The functions return a list, after parts that assign or not. -/
abbrev TracksList (k : Coupling N B) (m n : Nat) (x : Option Bool)
    (c d : ParserM N B (EntryList N F)) : Prop :=
  Tracks k m n x Eq (fun list => some list.assigns) EntryList.FlagsExact c d

/-- `Expression.assigns` for a property. -/
def Property.assigns : Property N F → Bool
  | .named _ _ e => e.assigns
  | .computed name e => name.assigns || e.assigns

/-- `Expression.FlagsExact` for a property. -/
def Property.FlagsExact : Property N F → Prop
  | .named _ _ e => e.FlagsExact
  | .computed name e => name.FlagsExact ∧ e.FlagsExact

/-- The functions return a property. -/
abbrev TracksProperty (k : Coupling N B) (m n : Nat) (c d : ParserM N B (Property N F)) : Prop :=
  Tracks k m n (some false) Eq (fun property => some property.assigns) Property.FlagsExact c d

theorem Property.assigns_appendTo (list : EntryList N F) (property : Property N F) :
    (property.appendTo list).assigns = (list.assigns || property.assigns) := by
  cases property with
  | named name type e => rw [appendTo, assigns_append, assigns]
  | computed name e =>
    rw [appendTo, assigns_append, assigns_append, assigns, Bool.or_assoc]

theorem Property.flagsExact_appendTo {list : EntryList N F} {property : Property N F}
    (hl : list.FlagsExact) (hp : property.FlagsExact) : (property.appendTo list).FlagsExact := by
  cases property with
  | named name type e => exact flagsExact_append hl hp
  | computed name e => exact flagsExact_append (flagsExact_append hl hp.1) hp.2

/-- What a token is by itself does not assign. -/
theorem atom_spec {t : Token N} {e : Expression N F} (h : atom t = some e) :
    e.assigns = false ∧ e.binaryOperations = [] := by
  unfold atom at h
  split at h <;> cases h <;> exact ⟨by rw [Expression.assigns], by rw [Expression.binaryOperations]⟩

theorem createNewExprs_spec {base : Expression N F} (hbase : base.FlagsExact) (newCount : Nat) :
    (createNewExprs newCount base).assigns = base.assigns ∧
    (createNewExprs newCount base).FlagsExact := by
  induction newCount generalizing base with
  | zero => exact ⟨rfl, hbase⟩
  | succ newCount ih =>
    have hnew : (newExpr base .nil).FlagsExact :=
      flagsExact_of_two rfl hbase flagsExact_nil
    obtain ⟨hassigns, hflags⟩ := ih hnew
    exact ⟨by rw [createNewExprs, hassigns, Expression.assigns, EntryList.assigns, Bool.or_false],
      hflags⟩

theorem quiet_parseElisions {k : Coupling N B} : Quiet k (parseElisions : ParserM N B Nat) := by
  refine Quiet.whileTokens (fun elisions => .token fun t => .ite ?_ (.of_pure rfl trivial)) _
  exact .next fun _ => .of_pure rfl trivial

theorem quiet_parseNewCount {k : Coupling N B} : Quiet k (parseNewCount : ParserM N B Nat) := by
  refine Quiet.whileTokens (fun newCount => .token fun t => ?_) _
  split
  · exact .next fun _ => .of_pure rfl trivial
  · exact .of_pure rfl trivial

section Productions

variable {k : Coupling N B} {m n : Nat} (config : ParserConfig N F)
  {assignment assignment' : ParserM N B (Expression N F)}
  (h : TracksExpression k m n assignment assignment')

include h

attribute [local simp] either Expression.assigns EntryList.assigns Property.assigns

theorem tracks_parseExpression :
    TracksExpression k m n (parseExpression assignment) (parseExpression assignment') := by
  refine .bind h fun node hnode => .token fun t => .ite ?_ ?_
  · refine .next fun _ => .quiet quiet_countNonLHS fun _ => .bind h fun right hright => ?_
    refine .whileTokens (g := fun e => some e.assigns) (Q := Expression.FlagsExact) ?_
      (flagsExact_of_two rfl hnode hright)
      (by simp)
    intro commaNode hcomma
    refine .token fun t => .ite ?_ (.of_pure rfl hcomma)
    refine .next fun _ => .bind h fun right hright => ?_
    exact .of_pure (by simp) (flagsExact_of_two rfl hcomma hright)
  · exact .of_pure (by simp) hnode

theorem tracks_parseSpread : Tracks k m n (some false) Eq (fun r => some r.2.assigns)
    (fun r => r.2.FlagsExact) (parseSpread assignment) (parseSpread assignment') := by
  refine .token fun t => .ite ?_ ?_
  · exact .next fun _ => .bind h fun e he => .of_pure (by simp) he
  · exact .bind h fun e he => .of_pure (by simp) he

theorem tracks_parseArgumentsTail {args : EntryList N F} {x : Option Bool} (hargs : args.FlagsExact)
    (hx : some args.assigns = x) : TracksList k m n x (parseArgumentsTail assignment args)
      (parseArgumentsTail assignment' args) := by
  refine .whileTokens (g := fun list => some list.assigns) (Q := EntryList.FlagsExact) ?_ hargs hx
  intro args hargs
  refine .token fun t => .ite ?_ (.of_pure rfl hargs)
  refine .next fun _ => .bind h fun arg harg => ?_
  exact .of_pure (by simp [assigns_append]) (flagsExact_append hargs harg)

theorem tracks_parseArguments (allowSpread : Bool) :
    TracksList k m n (some false) (parseArguments assignment allowSpread)
      (parseArguments assignment' allowSpread) := by
  refine .quiet (quiet_consumeOrFail _ _) fun _ => .token fun t => .ite ?_ (.ite ?_ ?_)
  · exact .next fun _ => .of_pure (by simp) flagsExact_nil
  · refine .next fun _ => .bind h fun spread hspread =>
      .token fun t => .quiet (quiet_semanticFailIfTrue _ _) fun _ =>
        .quiet (quiet_handleProductionOrFail _ _ _ _) fun _ => ?_
    exact .of_pure (by simp) (flagsExact_cons.mpr ⟨hspread, flagsExact_nil⟩)
  · refine .bind h fun firstArg hfirst => ?_
    refine (tracks_parseArgumentsTail h (flagsExact_cons.mpr ⟨hfirst, flagsExact_nil⟩)
      (by simp)).andThen fun args hargs => ?_
    exact .token fun t => .quiet (quiet_semanticFailIfTrue _ _) fun _ =>
      .quiet (quiet_handleProductionOrFail _ _ _ _) fun _ => .of_pure rfl hargs

theorem tracks_parseElement (elisions : Nat)
    : Tracks k m n (some false) Eq (fun r => some r.2.assigns) (fun r => r.2.FlagsExact)
    (parseElement assignment elisions) (parseElement assignment' elisions) :=
  .bind (tracks_parseSpread h) fun _ he => .of_pure (by simp) he

theorem tracks_parseElements {elements : EntryList N F} {x : Option Bool}
    (helements : elements.FlagsExact) (hx : some elements.assigns = x) :
    Tracks k m n x Eq (fun r => some r.1.assigns)
    (fun r => r.1.FlagsExact)
      (parseElements assignment elements) (parseElements assignment' elements) := by
  refine .whileTokens (g := fun list => some list.assigns) (Q := EntryList.FlagsExact)
    ?_ helements hx
  intro elements helements
  refine .token fun t => .ite ?_ (.of_pure rfl helements)
  refine .next fun _ => .quiet quiet_parseElisions fun elisions => .token fun t => .ite ?_ ?_
  · exact .next fun _ => .of_pure rfl helements
  · refine .bind (tracks_parseElement h elisions) fun r hr => ?_
    exact .of_pure (by simp [assigns_append]) (flagsExact_append helements hr)

theorem tracks_parseArrayLiteral :
    TracksExpression k m n (parseArrayLiteral assignment) (parseArrayLiteral assignment') := by
  refine .quiet (quiet_consumeOrFail _ _) fun _ => tracks_nonLHSCount.andThenAs ?_
  rintro count _ rfl -
  refine .quiet quiet_parseElisions fun elisions => .token fun t => .ite ?_ ?_
  · exact .next fun _ => .of_pure (by simp) flagsExact_nil
  · refine .bind (tracks_parseElement h elisions) fun r hr => ?_
    refine (tracks_parseElements h (flagsExact_cons.mpr ⟨hr, flagsExact_nil⟩) (by simp)).andThen ?_
    rintro ⟨elements, trailing⟩ helements
    cases trailing with
    | some elisions => exact .of_pure (by simp) helements
    | none =>
      refine .token fun t => .quiet (quiet_semanticFailIfTrue _ _) fun _ =>
        .quiet (quiet_consumeOrFail _ _) fun _ =>
          (tracks_setNonLHSCount count).andThen fun _ _ => ?_
      exact .of_pure (by simp) helements

variable {config} (hconfig : k.Admits config)

include hconfig

omit h in
theorem tracks_parseAccessor (type : PropertyType) (mode : FunctionParseMode)
    (description : String) :
    TracksProperty k m n (parseAccessor config type mode description)
      (parseAccessor config type mode description) := by
  refine .token fun t => ?_
  cases accessorName config t with
  | none => exact tracks_failDueToUnexpectedToken
  | some name =>
    refine .next fun _ => .token fun t => .ite ?_ (tracks_failWithMessage _)
    refine .quiet (quiet_parseFunctionInfo hconfig mode) fun body => ?_
    exact .of_pure (by simp) (flagsExact_of_nil rfl)

theorem tracks_parseNamedProperty (name : String) (wasIdent : Bool) :
    TracksProperty k m n (parseNamedProperty config assignment name wasIdent)
      (parseNamedProperty config assignment' name wasIdent) := by
  refine .quiet quiet_nextExpectIdentifier fun _ => .token fun t =>
    .ite ?_ (.ite (tracks_failWithMessage _) (.ite (tracks_parseAccessor hconfig _ _ _)
      (.ite (tracks_parseAccessor hconfig _ _ _) (tracks_failWithMessage _))))
  exact .next fun _ => .bind h fun e he => .of_pure (by simp) he

theorem tracks_parseProperty :
    TracksProperty k m n (parseProperty config assignment) (parseProperty config assignment') := by
  refine .token fun t => ?_
  split
  · exact tracks_parseNamedProperty h hconfig _ _
  · exact tracks_parseNamedProperty h hconfig _ _
  · exact tracks_parseNamedProperty h hconfig _ _
  · exact .next fun _ => .quiet (quiet_consumeOrFail _ _) fun _ => .bind h fun e he =>
      .of_pure (by simp) he
  · exact .next fun _ => .bind (tracks_parseExpression h) fun name hname =>
      .quiet (quiet_handleProductionOrFail _ _ _ _) fun _ =>
        .quiet (quiet_consumeOrFail _ _) fun _ => .bind h fun e he => .of_pure (by simp) ⟨hname, he⟩
  · exact tracks_failWithMessage _

omit h hconfig in
theorem quiet_validateProperty (declared : ObjectValidationMap) (property : Property N F) :
    Quiet k (validateProperty config declared property : ParserM N B ObjectValidationMap) := by
  unfold validateProperty
  cases property.name with
  | none => exact .of_pure rfl trivial
  | some name => exact .ite (.of_pure rfl trivial) (.ite (.of_throw _) (.of_pure rfl trivial))

theorem tracks_parseValidatedProperties :
    TracksList k m n (some false) (parseValidatedProperties config assignment)
      (parseValidatedProperties config assignment') := by
  refine .bind (tracks_parseProperty h hconfig) fun property hproperty =>
    .quiet (quiet_validateProperty _ _) fun declared => ?_
  refine .whileTokens (g := fun state => some state.1.assigns) (Q := fun state =>
    state.1.FlagsExact) ?_
    (flagsExact_appendTo flagsExact_nil hproperty)
    (by simp [assigns_appendTo])
  rintro ⟨properties, declared⟩ hproperties
  refine .token fun t => .ite ?_ (.of_pure rfl hproperties)
  refine .next fun _ => .token fun t => .ite (.of_pure rfl hproperties) ?_
  refine .bind (tracks_parseProperty h hconfig) fun property hproperty =>
    .quiet (quiet_validateProperty _ _) fun declared => ?_
  exact .of_pure (by simp [assigns_appendTo]) (flagsExact_appendTo hproperties hproperty)

theorem tracks_parseStrictObjectLiteral :
    TracksExpression k m n (parseStrictObjectLiteral config assignment)
      (parseStrictObjectLiteral config assignment') := by
  refine .quiet (quiet_consumeOrFail _ _) fun _ => tracks_nonLHSCount.andThenAs ?_
  rintro count _ rfl -
  refine .token fun t => .ite (.next fun _ => .of_pure (by simp) flagsExact_nil) ?_
  refine .bind (tracks_parseValidatedProperties h hconfig) fun properties hproperties =>
    .quiet (quiet_handleProductionOrFail _ _ _ _) fun _ =>
      (tracks_setNonLHSCount count).andThen fun _ _ => ?_
  exact .of_pure (by simp) hproperties

/-- Nothing is known of what is counted in front of a getter. -/
theorem tracks_parseConstantProperties :
    Tracks k m n (some false) Eq (Option.map EntryList.assigns)
    (fun r => ∀ list ∈ r, list.FlagsExact)
      (parseConstantProperties config assignment) (parseConstantProperties config assignment') := by
  refine .bind (tracks_parseProperty h hconfig) fun property hproperty => .ite ?_ ?_
  · exact .forget (.of_pure rfl nofun)
  refine .whileTokens (g := fun list => some list.assigns) (Q := EntryList.FlagsExact) ?_
    (flagsExact_appendTo flagsExact_nil hproperty) (by simp [assigns_appendTo])
  intro properties hproperties
  have hend : ∀ list ∈ some properties, list.FlagsExact := by
    rintro _ ⟨⟩
    exact hproperties
  refine .token fun t => .ite ?_ (.of_pure rfl hend)
  refine .next fun _ => .token fun t => .ite (.of_pure rfl hend) ?_
  refine .bind (tracks_parseProperty h hconfig) fun property hproperty => .ite ?_ ?_
  · exact .forget (.of_pure rfl nofun)
  · exact .of_pure (by simp [assigns_appendTo]) (flagsExact_appendTo hproperties hproperty)

end Productions

/-! ## 2. Object literals that are parsed twice -/

section Twice

variable (config : ParserConfig N F) {assignment : ParserM N B (Expression N F)}
  (hparse : TracksProperty .free 0 0 (parseProperty config assignment)
    (parseProperty config assignment))
  {s s' : ParserState N B}

include hparse

/-- **The second run counts at least what the first one counted**: it finds the same properties up
to the getter.  The first run is at its end, or it is in its loop and will stop at a getter. -/
theorem loop_parseValidatedPropertyRound_of_none (n : Nat) (properties : EntryList N F)
    {properties' : EntryList N F} {declared : ObjectValidationMap}
    (hnone : s'.assignmentCount ≤ s.assignmentCount ∨
      Ensures (loop .stackExhausted (parseConstantPropertyRound config assignment) n properties) s
        (fun r s1 => r = none ∧ s1 = s') (fun _ _ => False)) :
    Ensures (loop .stackExhausted (parseValidatedPropertyRound config assignment) n
      (properties', declared)) s
      (fun _ s1 => s'.assignmentCount ≤ s1.assignmentCount) (fun _ _ => True) := by
  induction n generalizing properties properties' declared s with
  | zero => exact trivial
  | succ n ih =>
    simp only [loop, parseConstantPropertyRound, parseValidatedPropertyRound, token,
      next, ensures_run]
      at hnone ⊢
    cases hcomma : s.token.is .comma with
    | false =>
      simp only [hcomma, Bool.false_eq_true, if_false, ensures_pure] at hnone ⊢
      exact hnone.resolve_right (by simp)
    | true =>
      simp only [hcomma, if_true, ensures_run] at hnone ⊢
      cases hclose : (ParserState.token { s with tokens := s.tokens.tail }).is .closeBrace with
      | true =>
        simp only [hclose, if_true, ensures_pure] at hnone ⊢
        exact hnone.resolve_right (by simp)
      | false =>
        simp only [hclose, Bool.false_eq_true, if_false, ensures_bind] at hnone ⊢
        have hcounts := hparse.counts _ { s with tokens := s.tokens.tail } (Grew.refl _)
        cases ho : outcome (parseProperty config assignment) { s with tokens := s.tokens.tail } with
        | mk result s1 =>
          cases result with
          | error e =>
            rw [ensures_iff_of_error ho]
            trivial
          | ok property =>
            rw [ensures_iff_of_ok ho] at hcounts hnone ⊢
            refine (validateProperty_keeps config declared property s1).imp ?_
            rintro declared _ rfl
            refine ih (property.appendTo properties) ?_
            rcases hnone with hle | hnone
            · exact .inl (hle.trans hcounts.1.le)
            -- the first run stops at a property that must be validated
            · split at hnone
              · exact .inl (hnone.2 ▸ le_rfl)
              · exact .inr hnone

theorem parseValidatedProperties_of_none
    (hnone : Ensures (parseConstantProperties config assignment) s
      (fun r s1 => r = none ∧ s1 = s') (fun _ _ => False)) :
    Ensures (parseValidatedProperties config assignment) s
      (fun _ s1 => s'.assignmentCount ≤ s1.assignmentCount) (fun _ _ => True) := by
  unfold parseConstantProperties at hnone
  unfold parseValidatedProperties
  rw [ensures_bind] at hnone ⊢
  cases ho : outcome (parseProperty config assignment) s with
  | mk result s1 =>
    cases result with
    | error e =>
      rw [ensures_iff_of_error ho]
      trivial
    | ok property =>
      rw [ensures_iff_of_ok ho] at hnone ⊢
      rw [ensures_bind]
      refine (validateProperty_keeps config [] property s1).imp ?_
      rintro declared _ rfl
      rw [whileTokens, ensures_bind, ensures_get]
      refine loop_parseValidatedPropertyRound_of_none config hparse _ (property.appendTo .nil) ?_
      split at hnone
      · exact .inl (hnone.2 ▸ le_rfl)
      · exact .inr hnone

theorem parseStrictObjectLiteral_of_none (hopen : s.token.is .openBrace = true)
    (hclose : (ParserState.token { s with tokens := s.tokens.tail }).is .closeBrace = false)
    (hnone : Ensures (parseConstantProperties config assignment) { s with tokens := s.tokens.tail }
      (fun r s1 => r = none ∧ s1 = s') (fun _ _ => False)) :
    Ensures (parseStrictObjectLiteral config assignment) s
      (fun _ s1 => s'.assignmentCount ≤ s1.assignmentCount) (fun _ _ => True) := by
  simp only [parseStrictObjectLiteral, consumeOrFail, token, next, nonLHSCount, ensures_run, hopen,
      if_true, hclose, Bool.false_eq_true, if_false]
  refine (parseValidatedProperties_of_none config hparse hnone).imp fun properties s1 hle => ?_
  have hend :
      Quiet .free
        (handleProductionOrFail .closeBrace "\x7d" "end" "object literal" : ParserM N B Unit) :=
    quiet_handleProductionOrFail _ _ _ _
  refine (hend.counts _ s1 (Grew.refl _)).mono (fun _ s2 hs2 => ?_) fun _ _ _ => trivial
  simp only [setNonLHSCount, ensures_modify]
  exact hle.trans hs2.1.le

/-- **An object literal counts**, also when it is parsed twice. -/
theorem counts_parseObjectLiteral (hconstant : Counts (some false) (Option.map EntryList.assigns)
      (fun r => ∀ list ∈ r, list.FlagsExact) (parseConstantProperties config assignment))
    (hstrict : ∀ {m n}, TracksExpression .free m n (parseStrictObjectLiteral config assignment)
      (parseStrictObjectLiteral config assignment)) :
    Counts (some false) (fun e => some e.assigns) Expression.FlagsExact
      (parseObjectLiteral config assignment) := by
  intro i s hs
  have hi : i = s.assignmentCount := (hs.eq_iff _ rfl).mpr rfl
  subst hi
  simp only [parseObjectLiteral, createSavePoint, ensures_run]
  cases hopen : s.token.is .openBrace with
  | false =>
    simp only [consumeOrFail, failWithMessage, token, ensures_run, hopen, Bool.false_eq_true,
      if_false, ensures_throw]
    exact ⟨le_rfl, trivial⟩
  | true =>
    simp only [consumeOrFail, token, next, nonLHSCount, ensures_run, hopen, if_true]
    cases hclose : (ParserState.token { s with tokens := s.tokens.tail }).is .closeBrace with
    | true =>
      simp only [if_true, ensures_run]
      exact ⟨by rw [Expression.assigns, EntryList.assigns]; exact Grew.refl _,
        flagsExact_nil, trivial⟩
    | false =>
      simp only [Bool.false_eq_true, if_false, ensures_bind]
      have hfirst := hconstant _ { s with tokens := s.tokens.tail } (Grew.refl _)
      cases ho : outcome (parseConstantProperties config assignment) { s with
        tokens := s.tokens.tail } with
      | mk result s2 =>
        cases result with
        | error e =>
          rw [ensures_iff_of_error ho] at hfirst ⊢
          exact hfirst
        | ok properties =>
          rw [ensures_iff_of_ok ho] at hfirst ⊢
          obtain ⟨hgrew, hproperties, hin⟩ := hfirst
          cases properties with
          | some properties =>
            have hrest : TracksExpressionFrom .free 0 0 (some properties.assigns)
                (do handleProductionOrFail .closeBrace "\x7d" "end" "object literal"
                    setNonLHSCount s.nonLHSCount
                    pure (.object properties) : ParserM N B (Expression N F)) _ :=
              .quiet (quiet_handleProductionOrFail _ _ _ _) fun _ =>
                (tracks_setNonLHSCount _).andThen fun _ _ =>
                  .of_pure rfl (hproperties properties rfl)
            exact (hrest.counts _ s2 hgrew).mono (fun _ _ h => ⟨h.1, h.2.1, h.2.2.trans hin⟩)
              fun _ _ h => ⟨h.1, h.2.trans hin⟩
          | none =>
            have hle : s.assignmentCount ≤ s2.assignmentCount := hgrew.le
            simp only [restoreSavePoint, ensures_run]
            have hnone := (ensures_iff_of_ok (Q := fun r s1 => r = none ∧ s1 = s2)
              (E := fun _ _ => False) ho).mpr ⟨rfl, rfl⟩
            have hmore := parseStrictObjectLiteral_of_none config hparse hopen hclose hnone
            have hcounts := hstrict.counts _ s (Grew.refl _)
            have hsecond := hstrict.counts _ { s2 with tokens := s.tokens } (Grew.refl _)
            -- The second run ends as it would have from `s`, where its own counter tells whether it
            -- assigns.
            rcases Coupled.samePlace hstrict.after.coupled (s := s)
              (t := { s2 with tokens := s.tokens })
              ⟨rfl, hin⟩ with ⟨e, _, s3, t3, hs3, ht3, rfl, -⟩ | ⟨e, -, t3, -, ht3, -⟩
            · rw [ensures_iff_of_ok hs3] at hmore hcounts
              rw [ensures_iff_of_ok ht3] at hsecond ⊢
              obtain ⟨hgrew, hflags, hin'⟩ := hsecond
              refine ⟨⟨hle.trans hgrew.le, ?_⟩, hflags, hin'.trans hin⟩
              have hiff := (hgrew.eq_iff _ rfl).trans (hcounts.1.eq_iff _ rfl).symm
              have := hgrew.le
              rintro _ ⟨⟩
              rw [← hcounts.1.eq_iff _ rfl]
              simp only at hiff this hmore
              omega
            · rw [ensures_iff_of_error ht3] at hsecond ⊢
              exact ⟨hle.trans hsecond.1, hsecond.2.trans hin⟩

end Twice

/-! ## 3. Operands and operators -/

section Reductions

variable (config : ParserConfig N F)

/-- An operand as the parser keeps it: its flag is right. -/
def OperandExact (operand : BinaryOperand N F) : Prop :=
  operand.1.FlagsExact ∧ operand.2 = operand.1.assigns

/-- Some operand assigns. -/
def operandsAssign (operands : List (BinaryOperand N F)) : Bool :=
  operands.any fun operand => operand.1.assigns

theorem appendBinaryOperation_spec (op : BinaryToken) {lhs rhs : BinaryOperand N F}
    (hlhs : OperandExact lhs) (hrhs : OperandExact rhs) :
    OperandExact (appendBinaryOperation config op lhs rhs) ∧
      (appendBinaryOperation config op lhs rhs).1.assigns = (lhs.1.assigns || rhs.1.assigns) := by
  obtain ⟨hassigns, hflags⟩ := makeBinaryNode_spec config.arithmetic hlhs.1 hrhs.1 op
  unfold appendBinaryOperation OperandExact
  rw [hlhs.2, hrhs.2]
  exact ⟨⟨hflags, hassigns.symm⟩, hassigns⟩

theorem reduceOperations_spec (precedence : Nat) (operators : List BinaryToken)
    {operands : List (BinaryOperand N F)} (hoperands : ∀ operand ∈ operands, OperandExact operand) :
    (∀ operand ∈ (reduceOperations config precedence operators operands).2, OperandExact operand) ∧
      operandsAssign (reduceOperations config precedence operators operands).2 =
        operandsAssign operands := by
  induction operators generalizing operands with
  | nil => exact ⟨hoperands, rfl⟩
  | cons op operators ih =>
    match operands with
    | [] | [operand] => exact ⟨hoperands, rfl⟩
    | rhs :: lhs :: operands =>
      rw [reduceOperations]
      split
      · have happend :=
          appendBinaryOperation_spec config op (hoperands lhs (by simp)) (hoperands rhs (by simp))
        have hreduced : ∀ operand ∈ appendBinaryOperation config op lhs rhs :: operands,
            OperandExact operand := by
          intro operand hoperand
          rcases mem_cons.mp hoperand with rfl | hoperand
          · exact happend.1
          · exact hoperands operand (by simp [hoperand])
        obtain ⟨hexact, hassign⟩ := ih hreduced
        refine ⟨hexact, hassign.trans ?_⟩
        simp only [operandsAssign, any_cons, happend.2, Bool.or_left_comm, Bool.or_assoc]
      · exact ⟨hoperands, rfl⟩

/-- Every operation takes one operator and one operand away. -/
theorem reduceOperations_length (precedence : Nat) (operators : List BinaryToken)
    (operands : List (BinaryOperand N F)) :
    (reduceOperations config precedence operators operands).2.length + operators.length
      = operands.length + (reduceOperations config precedence operators operands).1.length := by
  induction operators generalizing operands with
  | nil => rfl
  | cons op operators ih =>
    match operands with
    | [] | [operand] => rfl
    | rhs :: lhs :: operands =>
      rw [reduceOperations]
      split
      · have := ih (appendBinaryOperation config op lhs rhs :: operands)
        simp only [length_cons] at this ⊢
        omega
      · rfl

/-- **At the end one operand is left.** -/
theorem reduceOperations_zero {operators : List BinaryToken} {operands : List (BinaryOperand N F)}
    (hlength : operands.length = operators.length + 1) :
    ∃ operand, reduceOperations config 0 operators operands = ([], [operand]) := by
  induction operators generalizing operands with
  | nil =>
    obtain ⟨operand, rfl⟩ := length_eq_one_iff.mp hlength
    exact ⟨operand, rfl⟩
  | cons op operators ih =>
    match operands with
    | rhs :: lhs :: operands =>
      rw [reduceOperations, if_pos (Nat.zero_le _)]
      refine ih ?_
      simp only [length_cons] at hlength ⊢
      omega

/-- The operands and operators after some rounds of `parseBinaryExpression`. -/
structure OperandsExact (missing : Nat) (r : List BinaryToken × List (BinaryOperand N F)) :
    Prop where
  exact : ∀ operand ∈ r.2, OperandExact operand
  length : r.2.length + missing = r.1.length + 1

end Reductions

section Operands

variable {k : Coupling N B} {m n : Nat} {config : ParserConfig N F}
  {assignment assignment' : ParserM N B (Expression N F)}
  (h : TracksExpression k m n assignment assignment') (hconfig : k.Admits config)

include h hconfig

theorem coupled_parseObjectLiteral :
    Coupled k m n (parseObjectLiteral config assignment)
    (parseObjectLiteral config assignment') := by
  refine Tracks.coupled (f := fun _ => none) (P := fun _ => True)
    (tracks_createSavePoint.andThenAs ?_)
  rintro savePoint _ ⟨rfl, hsavePoint⟩ -
  refine .quiet (quiet_consumeOrFail _ _) fun _ => tracks_nonLHSCount.andThenAs ?_
  rintro count _ rfl -
  refine .token fun t => .ite (.next fun _ => .of_pure rfl trivial) ?_
  refine .bind (tracks_parseConstantProperties h hconfig) fun properties _ => ?_
  cases properties with
  | none =>
    refine (tracks_restoreSavePoint hsavePoint).andThen fun _ _ => ?_
    exact (tracks_parseStrictObjectLiteral h hconfig).after.mono fun _ _ h _ => ⟨h, trivial⟩
  | some properties =>
    refine .quiet (quiet_handleProductionOrFail _ _ _ _) fun _ => ?_
    exact (tracks_setNonLHSCount count).andThen fun _ _ => .of_pure rfl trivial

variable (hplain : ∀ {m n}, TracksExpression .free m n assignment' assignment')

include hplain

theorem tracks_parseObjectLiteral :
    TracksExpression k m n (parseObjectLiteral config assignment)
      (parseObjectLiteral config assignment') :=
  .of_coupled (coupled_parseObjectLiteral h hconfig) (counts_parseObjectLiteral config
    (tracks_parseProperty hplain (Coupling.free_admits config))
    (tracks_parseConstantProperties hplain (Coupling.free_admits config)).counts
    (tracks_parseStrictObjectLiteral hplain (Coupling.free_admits config)))

theorem tracks_parsePrimaryExpression :
    TracksExpression k m n (parsePrimaryExpression config assignment)
      (parsePrimaryExpression config assignment') := by
  refine .token fun t => ?_
  split
  · exact .ite (tracks_parseStrictObjectLiteral h hconfig)
      (tracks_parseObjectLiteral h hconfig hplain)
  · exact tracks_parseArrayLiteral h
  · refine .next fun _ => (tracks_parseExpression h).restoringNonLHSCount.andThen fun e he =>
        .quiet (quiet_handleProductionOrFail _ _ _ _) fun _ => .of_pure rfl he
  · exact tracks_failWithMessage _
  · exact tracks_failWithMessage _
  · cases ht : (atom t : Option (Expression N F)) with
    | some e =>
      have he : e.assigns = false ∧ e.binaryOperations = [] := atom_spec ht
      exact .next fun _ => .of_pure (congrArg some he.1) (flagsExact_of_nil he.2)
    | none => exact tracks_failDueToUnexpectedToken

omit hconfig hplain in
theorem tracks_parseMemberSuffix {base : Expression N F} (hbase : base.FlagsExact)
    (newCount : Nat) :
    Tracks k m n (some base.assigns) Eq (Sum.elim (fun r => some r.1.assigns) fun r =>
      some r.1.assigns)
      (Sum.elim (fun r => r.1.FlagsExact) fun r => r.1.FlagsExact)
      (parseMemberSuffix assignment (base, newCount))
      (parseMemberSuffix assignment' (base, newCount)) := by
  refine .token fun t => ?_
  split
  · refine .next fun _ => .andThen (f := fun e => some e.assigns)
      (P := Expression.FlagsExact) (.keepingNonLHSCount ?_) fun e he => .of_pure rfl he
    refine .bind (tracks_parseExpression h).countingAssignments fun r hr =>
      .quiet (quiet_handleProductionOrFail _ _ _ _) fun _ => ?_
    exact .of_pure rfl (flagsExact_of_two rfl hbase hr.1)
  · refine .ite ?_ ?_
    · refine .bind (tracks_parseArguments h true).keepingNonLHSCount fun args hargs => ?_
      exact .of_pure (by simp [either, Expression.assigns]) (flagsExact_of_two rfl hbase hargs)
    · refine .bind (tracks_parseArguments h false).keepingNonLHSCount fun args hargs => ?_
      exact .of_pure (by simp [either, Expression.assigns]) (flagsExact_of_two rfl hbase hargs)
  · refine .quiet quiet_nextExpectIdentifier fun _ => .token fun t => ?_
    split
    · refine .next fun _ => ?_
      exact .of_pure (by simp [Expression.assigns]) (flagsExact_of_one rfl hbase)
    · exact tracks_failWithMessage _
  · exact .of_pure rfl hbase

theorem tracks_parseMemberExpression :
    TracksExpression k m n (parseMemberExpression config assignment)
      (parseMemberExpression config assignment') := by
  have hbase : TracksExpression k m n (parseMemberBase config assignment)
    (parseMemberBase config assignment') := by
    refine .token fun t => ?_
    split
    · refine .next fun _ => .quiet (quiet_parseFunctionInfo hconfig _) fun body => ?_
      exact .of_pure rfl (flagsExact_of_nil rfl)
    · exact tracks_parsePrimaryExpression h hconfig hplain
  refine .quiet quiet_parseNewCount fun newCount => hbase.andThen fun base hbase => ?_
  have hsuffixes : Tracks k m n (some base.assigns) Eq (fun r => some r.1.assigns) (fun r =>
    r.1.FlagsExact)
      (whileTokens (parseMemberSuffix assignment) (base, newCount))
      (whileTokens (parseMemberSuffix assignment') (base, newCount)) := by
    refine .whileTokens (g := fun r => some r.1.assigns) (Q := fun r => r.1.FlagsExact) ?_ hbase rfl
    rintro ⟨base, newCount⟩ hbase
    exact tracks_parseMemberSuffix h hbase newCount
  refine hsuffixes.andThen fun r hr => ?_
  obtain ⟨hassigns, hflags⟩ := createNewExprs_spec hr r.2
  exact .of_pure (congrArg some hassigns) hflags

omit h hconfig hplain in
theorem tracks_applyUnaryTokens (operators : List UnaryToken) {expr : Expression N F}
    (hexpr : expr.FlagsExact) : TracksExpressionFrom k m n (some expr.assigns)
      (applyUnaryTokens config operators expr) (applyUnaryTokens config operators expr) := by
  induction operators generalizing expr with
  | nil => exact .of_pure rfl hexpr
  | cons op operators ih =>
    refine .andThen (f := fun e => some e.assigns) (P := Expression.FlagsExact) ?_ fun e he => ih he
    have hone {e : Expression N F} (he : e.binaryOperations = expr.binaryOperations) :
        e.FlagsExact :=
      flagsExact_of_one he hexpr
    unfold applyUnaryToken
    cases op with
    | plusPlus | autoPlusPlus | minusMinus | autoMinusMinus =>
      exact tracks_countAssignment.andThen fun _ _ => .of_pure rfl (hone rfl)
    | deleteToken =>
      exact .quiet (quiet_semanticFailIfTrue _ _) fun _ => .of_pure rfl (hone rfl)
    | typeofToken | voidToken | plus =>
      exact .of_pure rfl (hone rfl)
    | exclamation =>
      obtain ⟨hassigns, hflags⟩ := createLogicalNot_spec config.isZeroOrUnordered hexpr
      exact .of_pure (congrArg some hassigns) hflags
    | tilde =>
      obtain ⟨hassigns, hflags⟩ := makeBitwiseNotNode_spec config.arithmetic hexpr
      exact .of_pure (congrArg some hassigns) hflags
    | minus =>
      obtain ⟨hassigns, hflags⟩ := makeNegateNode_spec config.arithmetic hexpr
      exact .of_pure (congrArg some hassigns) hflags

omit h hconfig hplain in
theorem tracks_parsePostfix {x : Option Bool} (op : IncrementOperator)
    (strictMessage : String → String) (operators : List UnaryToken) {expr : Expression N F}
    (hexpr : expr.FlagsExact) :
    TracksExpressionFrom k m n x (parsePostfix config op strictMessage operators expr)
      (parsePostfix config op strictMessage operators expr) := by
  refine .quiet quiet_countNonLHS fun _ => tracks_countAssignment.andThen fun _ _ =>
    .quiet (quiet_semanticFailIfTrue _ _) fun _ =>
      .quiet (quiet_semanticFailIfTrue _ _) fun _ => .next fun _ => ?_
  exact .of_pure rfl (flagsExact_of_one rfl hexpr)

theorem tracks_parsePostfixExpression (operators : List UnaryToken) :
    TracksExpression k m n (parsePostfixExpression config assignment operators)
      (parsePostfixExpression config assignment' operators) := by
  refine (tracks_parseMemberExpression h hconfig hplain).andThen fun expr hexpr =>
    .quiet (quiet_semanticFailIfTrue _ _) fun _ => .token fun t => ?_
  split
  · exact tracks_parsePostfix _ _ _ hexpr
  · exact tracks_parsePostfix _ _ _ hexpr
  · exact .of_pure rfl hexpr

omit h hconfig hplain in
theorem quiet_parseUnaryTokens :
    Quiet k (parseUnaryTokens config : ParserM N B (List UnaryToken)) := by
  refine Quiet.whileTokens (fun operators => .token fun t => ?_) _
  cases t.unaryOperator with
  | none => exact .of_pure rfl trivial
  | some op =>
    exact .quiet (quiet_semanticFailIfTrue _ _) fun _ => .quiet quiet_countNonLHS fun _ =>
      .next fun _ => .of_pure rfl trivial

theorem tracks_parseUnaryExpression :
    TracksExpression k m n (parseUnaryExpression config assignment)
      (parseUnaryExpression config assignment') := by
  have hinner : TracksExpression k m n (do
      let operators ← parseUnaryTokens config
      let expr ← parsePostfixExpression config assignment operators
      applyUnaryTokens config operators expr) (do
      let operators ← parseUnaryTokens config
      let expr ← parsePostfixExpression config assignment' operators
      applyUnaryTokens config operators expr) :=
    .quiet quiet_parseUnaryTokens fun operators =>
      (tracks_parsePostfixExpression h hconfig hplain operators).andThen fun expr hexpr =>
        tracks_applyUnaryTokens operators hexpr
  intro i s t hst hgrew
  unfold parseUnaryExpression Alongside
  rw [outcome_bind_of_ok (outcome_get s), outcome_bind_of_ok (outcome_get t), hst.allowsIn]
  refine Alongside.afterwards (hinner i { s with allowsIn := true } { t with allowsIn := true }
    ?_ hgrew) ?_ ?_
  · exact ⟨hst.known, hst.tokens, rfl, hst.assignmentCount, hst.nonLHSCount, hst.builder⟩
  · rintro a b s' t' ⟨hab, h, hgrew', -⟩
    exact ⟨hab, ⟨h.known, h.tokens, rfl, h.assignmentCount, h.nonLHSCount, h.builder⟩, hgrew', rfl⟩
  · rintro s' t' ⟨h, hle, -⟩
    exact ⟨⟨h.known, h.tokens, rfl, h.assignmentCount, h.nonLHSCount, h.builder⟩, hle, rfl⟩

theorem tracks_parseBinaryExpression :
    TracksExpression k m n (parseBinaryExpression config assignment)
      (parseBinaryExpression config assignment') := by
  have hrounds : Tracks k m n (some false) Eq (fun r => some (operandsAssign r.2)) (OperandsExact 0)
      (whileTokens (parseBinaryRound config assignment) ([], []))
      (whileTokens (parseBinaryRound config assignment') ([], [])) := by
    refine .whileTokens (g := fun r => some (operandsAssign r.2)) (Q := OperandsExact 1) ?_
      ⟨by simp, rfl⟩ rfl
    rintro ⟨operators, operands⟩ ⟨hoperands, hlength⟩
    refine .bind (tracks_parseUnaryExpression h hconfig hplain).countingAssignments
      fun current hcurrent => ?_
    have hexact : ∀ operand ∈ current :: operands, OperandExact operand := by
      intro operand hoperand
      rcases mem_cons.mp hoperand with rfl | hoperand
      · exact hcurrent
      · exact hoperands operand hoperand
    have hassign : operandsAssign (current :: operands) =
        (operandsAssign operands || current.1.assigns) := by
      rw [operandsAssign, any_cons, Bool.or_comm]
      rfl
    refine tracks_get.andThenAs fun s t hst _ => ?_
    rw [hst.token, hst.allowsIn]
    cases s.token.binaryOperator s.allowsIn with
    | none => exact .of_pure (congrArg some hassign) ⟨hexact, by simpa using hlength⟩
    | some op =>
      refine .quiet quiet_countNonLHS fun _ => .next fun _ => ?_
      obtain ⟨hexact', hassign'⟩ := reduceOperations_spec config op.precedence operators hexact
      have hreduced := reduceOperations_length config op.precedence operators (current :: operands)
      refine .of_pure (congrArg some (hassign'.trans hassign)) ⟨hexact', ?_⟩
      simp only [length_cons] at hlength hreduced ⊢
      omega
  refine hrounds.andThen ?_
  rintro ⟨operators, operands⟩ ⟨hoperands, hlength⟩
  obtain ⟨⟨result, flag⟩, hresult⟩ := reduceOperations_zero config hlength
  obtain ⟨hexact, hassign⟩ := reduceOperations_spec config 0 operators hoperands
  rw [hresult] at hexact hassign
  simp only [hresult]
  refine .of_pure (congrArg some ?_) (hexact (result, flag) (by simp)).1
  rw [← hassign, operandsAssign, any_cons, any_nil, Bool.or_false]

omit hconfig hplain in
theorem tracks_parseConditionalExpression {binary binary' : ParserM N B (Expression N F)}
    (hbinary : TracksExpression k m n binary binary') : TracksExpression k m n
      (parseConditionalExpression assignment binary)
      (parseConditionalExpression assignment' binary') := by
  refine hbinary.andThen fun cond hcond => .token fun t => .ite ?_ (.of_pure rfl hcond)
  refine .quiet quiet_countNonLHS fun _ => .next fun _ =>
    .bind h fun lhs hlhs => .quiet (quiet_consumeOrFail _ _) fun _ => .bind h fun rhs hrhs => ?_
  exact .of_pure rfl (flagsExact_conditional hcond hlhs hrhs)

end Operands

end JavaScriptCore.Parser
