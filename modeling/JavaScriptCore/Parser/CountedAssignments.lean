/-
# The parser counts the assignments: assignments

Two runs of `parseAssignmentExpression` stay in step, and it counts.  When the right hand side of
what looks like a destructuring assignment is no expression, the parser goes back and takes the
pattern for a literal.  The literal ends where the pattern ended, in front of the `=`
(`parseConditionalExpression_lands`), so that the same right hand side is parsed again, and fails
again (`parseReferenceAssignment_fails`).
-/
import JavaScriptCore.Parser.CountedParsing

namespace JavaScriptCore.Parser

open Operations List EntryList Expression Property
open Lib.Effects

variable {N F B α β : Type}

/-! ## 1. Assignments

The counts on the assignment stack are those of the parser, so they are apart too. -/

section Assignments

theorem quiet_failIfAssignment {k : Coupling N B} (config : ParserConfig N F) :
    Quiet k (failIfAssignment config : ParserM N B Unit) :=
  .token fun _ => quiet_semanticFailIfTrue _ _

/-- The assignment with its count moved. -/
def AssignmentInfo.ahead (m : Nat) (info : AssignmentInfo N F) : AssignmentInfo N F :=
  { info with initAssignments := info.initAssignments + m }

theorem createAssignments_ahead (m i j : Nat) (assignmentStack : List (AssignmentInfo N F))
    (rhs : Expression N F) :
    createAssignments (i + m) (j + m) (assignmentStack.map (AssignmentInfo.ahead m)) rhs
      = createAssignments i j assignmentStack rhs := by
  induction assignmentStack generalizing rhs with
  | nil => rfl
  | cons info assignmentStack ih =>
    simp only [List.map_cons, createAssignments, AssignmentInfo.ahead, bne_add_right, ih]

/-- Two stages of the assignment loop: the same expression, and stacks apart by the amount. -/
def AssignmentsAhead (m : Nat) (a b : Expression N F × List (AssignmentInfo N F)) : Prop :=
  b = (a.1, a.2.map (AssignmentInfo.ahead m))

/-- What stands on the left of the assignments on the stack has exact flags. -/
def StackExact (assignmentStack : List (AssignmentInfo N F)) : Prop :=
  ∀ info ∈ assignmentStack, info.node.FlagsExact

variable {assignmentStack : List (AssignmentInfo N F)}

theorem createAssignments_flagsExact (i j : Nat)
    {rhs : Expression N F} (hstack : StackExact assignmentStack) (hrhs : rhs.FlagsExact) :
    (createAssignments i j assignmentStack rhs).FlagsExact := by
  induction assignmentStack generalizing rhs with
  | nil => exact hrhs
  | cons info assignmentStack ih =>
    refine ih (fun info' hinfo' => hstack info' (mem_cons_of_mem _ hinfo')) ?_
    exact makeAssignNode_flagsExact (hstack info mem_cons_self) hrhs _ _ _

/-- With an assignment on the stack the expression assigns. -/
theorem createAssignments_assigns (i j : Nat)
    {rhs : Expression N F} (h : assignmentStack ≠ [] ∨ rhs.assigns = true) :
    (createAssignments i j assignmentStack rhs).assigns = true := by
  induction assignmentStack generalizing rhs with
  | nil => exact h.resolve_left fun hne => hne rfl
  | cons info assignmentStack ih => exact ih (.inr (makeAssignNode_assigns _ _ _ _ _))

/-- A stage of the assignment loop assigns. -/
def stageAssigns (stage : Expression N F × List (AssignmentInfo N F)) : Bool :=
  stage.1.assigns || !stage.2.isEmpty

/-- A stage of the assignment loop has exact flags. -/
def StageExact (stage : Expression N F × List (AssignmentInfo N F)) : Prop :=
  stage.1.FlagsExact ∧ StackExact stage.2

variable {k : Coupling N B} {m n : Nat} (config : ParserConfig N F)
  {assignment assignment' : ParserM N B (Expression N F)}
  (h : TracksExpression k m n assignment assignment')

include h

attribute [local simp] either stageAssigns

theorem tracks_parseAssignmentRound (initialNonLHSCount : Nat) {lhs : Expression N F}

    (hstage : StageExact (lhs, assignmentStack.map (AssignmentInfo.ahead m))) :
    Tracks k m n (some (stageAssigns (lhs, assignmentStack.map (AssignmentInfo.ahead m))))
      (Sum.LiftRel (AssignmentsAhead m) (AssignmentsAhead m))
      (Sum.elim (fun stage => some (stageAssigns stage)) fun stage => some (stageAssigns stage))
      (Sum.elim StageExact StageExact)
      (parseAssignmentRound config assignment initialNonLHSCount (lhs, assignmentStack))
      (parseAssignmentRound config assignment' (initialNonLHSCount + n)
        (lhs, assignmentStack.map (AssignmentInfo.ahead m))) := by
  refine .token fun t => ?_
  cases t.assignmentOperator with
  | none => exact .of_pureAs (.inr rfl) rfl hstage
  | some op =>
    refine tracks_assignmentCount.andThenAs ?_
    rintro count _ rfl -
    refine tracks_countAssignment.andThen fun _ _ => .next fun _ =>
      .quiet (quiet_semanticFailIfTrue _ _) fun _ =>
      .quiet (quiet_semanticFailIfTrue _ _) fun _ => .bind h fun rhs hrhs =>
        tracks_nonLHSCount.andThenAs ?_
    rintro nonLHS _ rfl -
    rw [bne_add_right]
    have hstage' : StageExact (rhs,
        ⟨lhs, count + m, op⟩ :: assignmentStack.map (AssignmentInfo.ahead m)) := by
      refine ⟨hrhs, fun info hinfo => ?_⟩
      rcases mem_cons.mp hinfo with rfl | hinfo
      · exact hstage.1
      · exact hstage.2 info hinfo
    refine .ite ?_ ?_
    · exact .quiet (quiet_failIfAssignment config) fun _ => .of_pureAs (.inr rfl) (by simp) hstage'
    · exact .of_pureAs (.inl rfl) (by simp) hstage'

theorem tracks_parseAssignments (i j : Nat) {lhs : Expression N F} (hlhs : lhs.FlagsExact) :
    TracksExpressionFrom k m n (some lhs.assigns) (parseAssignments config assignment i j lhs)
      (parseAssignments config assignment' (i + m) (j + n) lhs) := by
  refine .andThenAs (R := AssignmentsAhead m) (f := fun stage => some (stageAssigns stage))
    (P := StageExact)
    (.whileTokensAs (S := AssignmentsAhead m) (g := fun stage => some (stageAssigns stage))
      (Q := StageExact) ?_ rfl ⟨hlhs, fun info hinfo => absurd hinfo not_mem_nil⟩ (by simp)) ?_
  · rintro ⟨lhs, assignmentStack⟩ _ rfl hstage
    exact tracks_parseAssignmentRound config h j hstage
  · rintro ⟨rhs, assignmentStack⟩ _ rfl ⟨hrhs, hstack⟩
    refine tracks_assignmentCount.andThenAs ?_
    rintro count _ rfl -
    simp only [List.isEmpty_map, createAssignments_ahead]
    cases assignmentStack with
    | nil => exact .of_pure (by simp) hrhs
    | cons info assignmentStack =>
      refine .quiet quiet_countNonLHS fun _ => .of_pure ?_ ?_
      · rw [createAssignments_assigns i count (.inl (by simp))]
        simp
      · rw [← createAssignments_ahead m]
        exact createAssignments_flagsExact _ _ hstack hrhs

variable {binary binary' : ParserM N B (Expression N F)} (hconditional : TracksExpression k m n
  (parseConditionalExpression assignment binary) (parseConditionalExpression assignment' binary'))

include hconditional

theorem tracks_parseReferenceAssignment (i j : Nat) :
    TracksExpression k m n (parseReferenceAssignment config assignment binary i j)
      (parseReferenceAssignment config assignment' binary' (i + m) (j + n)) := by
  refine hconditional.andThen fun lhs hlhs => tracks_nonLHSCount.andThenAs ?_
  rintro nonLHS _ rfl -
  rw [bne_add_right]
  exact .ite (.quiet (quiet_failIfAssignment config) fun _ => .of_pure rfl hlhs)
    (tracks_parseAssignments config h i j hlhs)

omit hconditional in
/-- The attempt at a destructuring assignment, if the builders are related after an error as before
it.  What a failed attempt counted stays counted. -/
theorem tracks_tryDeconstructingAssignment (herror : k.buildersAfterError = k.builders) :
    Tracks k m n none Eq (fun _ => none) (fun _ => True)
    (tryDeconstructingAssignment config assignment)
      (tryDeconstructingAssignment config assignment') := by
  refine .token fun t => .ite (tracks_createSavePoint.andThenAs ?_) (.of_pure rfl trivial)
  rintro savePoint _ ⟨rfl, hsavePoint⟩ -
  split
  · next p rest hpattern =>
    have hsuffix := (reads_of_parseDeconstructionPattern _ hpattern).suffix
    have hrest : k.tokens rest := k.suffix ((List.suffix_cons _ _).trans hsuffix) hsavePoint
    have hattempt : Tracks k m n none Eq (fun _ => none) (fun _ => True) (attempt assignment)
        (attempt assignment') := by
      intro i s t hst hgrew
      refine (h.after i s t hst hgrew).attempt ?_ ?_
      · rintro a _ s' t' ⟨⟨rfl, -⟩, h⟩
        exact ⟨⟨rfl, trivial⟩, h⟩
      · rintro s' t' ⟨h, hle, hin⟩
        exact ⟨⟨rfl, trivial⟩, ⟨h.known, h.tokens, h.allowsIn, h.assignmentCount, h.nonLHSCount,
          herror ▸ h.builder⟩, ⟨hle, nofun⟩, hin⟩
    refine (tracks_restoreSavePoint hrest).andThen fun _ _ => hattempt.andThen fun result _ => ?_
    cases result with
    | some rhs => exact .of_pure rfl trivial
    | none => exact (tracks_restoreSavePoint hsavePoint).andThen fun _ _ => .of_pure rfl trivial
  · exact .of_pure rfl trivial

theorem coupled_parseAssignmentExpressionWith (herror : k.buildersAfterError = k.builders) :
    Coupled k m n (parseAssignmentExpressionWith config assignment binary)
      (parseAssignmentExpressionWith config assignment' binary') := by
  refine Tracks.coupled (f := fun _ => none) (P := fun _ => True)
    (tracks_get.andThenAs fun s t hst _ => ?_)
  rw [hst.assignmentCount, hst.nonLHSCount]
  refine (tracks_tryDeconstructingAssignment config h herror).andThen fun e _ => ?_
  cases e with
  | some e => exact .of_pure rfl trivial
  | none =>
    exact (tracks_parseReferenceAssignment config h hconditional _ _).after.mono fun _ _ h _ =>
      ⟨h, trivial⟩

end Assignments

/-! ## 2. Attempts -/

section Attempt

variable (config : ParserConfig N F)

/-- **After a pattern and `=` whose right hand side is no expression, nothing is returned**: the
right hand side is parsed again, from the same place. -/
theorem parseReferenceAssignment_fails (depth : Nat)
    (h : ∀ {m n}, TracksExpression (N := N) (F := F) (B := B) .free m n
      (parseAssignmentExpression config depth) (parseAssignmentExpression config depth))
    {rest : List (Token N)} {s t t' : ParserState N B} {e : ParserError N}
    (hreads : Reads .pattern s.tokens (.punctuation .equal :: rest))
    (hfail : outcome (parseAssignmentExpression config depth : ParserM N B (Expression N F)) t
      = (.error e, t'))
    (htokens : t.tokens = rest) (hin : t.allowsIn = s.allowsIn) (i k : Nat) :
    Ensures (parseReferenceAssignment config (parseAssignmentExpression config depth)
        (parseBinaryExpression config (parseAssignmentExpression config depth)) i k) s
      (fun _ _ => False) (fun _ _ => True) := by
  have hcounts := (tracks_parseConditionalExpression h (tracks_parseBinaryExpression h
    (Coupling.free_admits config) h)).counts s.assignmentCount s (Grew.refl _)
  have hlands := parseConditionalExpression_lands config hreads depth (s := s) rfl
  rw [parseReferenceAssignment, ensures_bind]
  refine (hcounts.and hlands).imp ?_
  rintro lhs s1 ⟨⟨-, -, hin1⟩, hs1⟩
  have hop : s1.token.assignmentOperator = some .opEqual := by
    rw [token_of_tokens hs1]
    rfl
  simp only [nonLHSCount, ensures_run]
  split
  · simp only [failIfAssignment, token, semanticFailIfTrue, ensures_run, hop, Option.isSome_some,
      if_true, semanticFail, ensures_throw]
  · simp only [parseAssignments, whileTokens, loop, parseAssignmentRound, token, ensures_run, hop,
      assignmentCount, countAssignment, next]
    refine (semanticFailIfTrue_keeps _ _ _).imp ?_
    rintro _ _ rfl
    refine (semanticFailIfTrue_keeps _ _ _).imp ?_
    rintro _ _ rfl
    -- the parser is at the place of the attempt that failed
    have hplace : SamePlace t { { s1 with assignmentCount := s1.assignmentCount + 1 } with
        tokens := s1.tokens.tail } := by
      refine ⟨?_, hin1.trans hin.symm⟩
      rw [hs1, htokens, tail_cons]
    rcases Coupled.samePlace h.after.coupled hplace with
      ⟨_, _, _, _, ht, _⟩ | ⟨e', _, s2, _, hs2, _⟩
    · cases hfail.symm.trans ht
    · rw [ensures_iff_of_error hs2]
      exact trivial

/-- The pattern of a destructuring assignment at these tokens, and what comes after its `=`. -/
def patternAhead (tokens : List (Token N)) : Option (Pattern × List (Token N)) :=
  if (tokens.headD (.punctuation .eof)).is .openBrace ||
      (tokens.headD (.punctuation .eof)).is .openBracket then
    match parseDeconstructionPattern config.numericIdentifier (2 * tokens.length) tokens with
    | some (pattern, .punctuation .equal :: rest) => some (pattern, rest)
    | _ => none
  else none

theorem patternAhead_some {tokens rest : List (Token N)} {pattern : Pattern}
    (h : patternAhead config tokens = some (pattern, rest)) :
    ((tokens.headD (.punctuation .eof)).is .openBrace ||
      (tokens.headD (.punctuation .eof)).is .openBracket) = true ∧
    parseDeconstructionPattern config.numericIdentifier (2 * tokens.length) tokens =
      some (pattern, .punctuation .equal :: rest) := by
  unfold patternAhead at h
  split at h
  · next hopen =>
    split at h
    · next hpattern =>
      cases h
      exact ⟨hopen, hpattern⟩
    · cases h
  · cases h

theorem reads_of_patternAhead {tokens rest : List (Token N)} {pattern : Pattern}
    (h : patternAhead config tokens = some (pattern, rest)) :
    Reads .pattern tokens (.punctuation .equal :: rest) :=
  reads_of_parseDeconstructionPattern _ (patternAhead_some config h).2

variable {config} (assignment : ParserM N B (Expression N F)) {s : ParserState N B}

/-- There is no attempt. -/
theorem tryDeconstructingAssignment_of_none (h : patternAhead config s.tokens = none) :
    outcome (tryDeconstructingAssignment config assignment) s = (.ok none, s) := by
  rw [tryDeconstructingAssignment, token, bind_assoc, outcome_bind_of_ok (outcome_get s), pure_bind]
  unfold patternAhead at h
  unfold ParserState.token
  split
  · next hopen =>
    rw [if_pos hopen] at h
    rw [parseDeconstructingAssignment, createSavePoint, bind_assoc,
      outcome_bind_of_ok (outcome_get s), pure_bind]
    split
    · next hpattern =>
      rw [hpattern] at h
      cases h
    · rfl
  · rfl

/-- There is an attempt, and if it fails the parser goes back. -/
theorem tryDeconstructingAssignment_of_some {pattern : Pattern} {rest : List (Token N)}
    (h : patternAhead config s.tokens = some (pattern, rest)) :
    outcome (tryDeconstructingAssignment config assignment) s =
      match outcome assignment { s with tokens := rest } with
      | (.ok rhs, s1) => (.ok (some (.deconstructingAssignment pattern rhs)), s1)
      | (.error _, s1) => (.ok none, { s1 with tokens := s.tokens }) := by
  rw [tryDeconstructingAssignment, token, bind_assoc, outcome_bind_of_ok (outcome_get s), pure_bind]
  obtain ⟨hopen, hpattern⟩ := patternAhead_some config h
  unfold ParserState.token
  rw [if_pos hopen, parseDeconstructingAssignment, createSavePoint, bind_assoc,
    outcome_bind_of_ok (outcome_get s), pure_bind, hpattern]
  simp only [restoreSavePoint]
  rw [outcome_bind_of_ok (outcome_modify _ s)]
  cases hrhs : outcome assignment { s with tokens := rest } with
  | mk result s1 =>
    cases result with
    | ok rhs =>
      have hattempt : outcome (attempt assignment) { s with tokens := rest } =
          (.ok (some rhs), s1) := by
        rw [attempt, outcome_ofOutcome, hrhs]
      rw [outcome_bind_of_ok hattempt]
      rfl
    | error e =>
      have hattempt : outcome (attempt assignment) { s with tokens := rest } =
          (.ok none, s1) := by
        rw [attempt, outcome_ofOutcome, hrhs]
      rw [outcome_bind_of_ok hattempt]
      rfl

end Attempt

/-- **One call of `parseAssignmentExpression` counts**, if those inside it do. -/
theorem counts_parseAssignmentExpression_succ {config : ParserConfig N F} {depth : Nat}
    (h : ∀ {m n}, TracksExpression (N := N) (F := F) (B := B) .free m n
      (parseAssignmentExpression config depth) (parseAssignmentExpression config depth)) :
    Counts (some false) (fun e => some e.assigns) Expression.FlagsExact
      (parseAssignmentExpression config (depth + 1) : ParserM N B (Expression N F)) := by
  intro i s hs
  have hi : i = s.assignmentCount := (hs.eq_iff _ rfl).mpr rfl
  subst hi
  have hconditional := tracks_parseConditionalExpression h (tracks_parseBinaryExpression h
    (Coupling.free_admits config) h (m := 0) (n := 0))
  have hreference :=
    (tracks_parseReferenceAssignment config h hconditional s.assignmentCount s.nonLHSCount).counts
  simp only [parseAssignmentExpression, parseAssignmentExpressionWith, ensures_run]
  cases hahead : patternAhead config s.tokens with
  | none =>
    rw [ensures_iff_of_ok (tryDeconstructingAssignment_of_none _ hahead)]
    exact hreference _ s (Grew.refl _)
  | some attempt =>
    obtain ⟨pattern, rest⟩ := attempt
    have htry := tryDeconstructingAssignment_of_some (parseAssignmentExpression config depth) hahead
    have hcounts := h.counts s.assignmentCount { s with tokens := rest } (Grew.refl _)
    cases hrhs : outcome (parseAssignmentExpression config depth) { s with tokens := rest } with
    | mk result s1 =>
      rw [hrhs] at htry
      cases result with
      | ok rhs =>
        rw [ensures_iff_of_ok hrhs] at hcounts
        rw [ensures_iff_of_ok htry]
        exact ⟨by rw [Expression.assigns]; exact hcounts.1, flagsExact_of_one rfl hcounts.2.1,
          hcounts.2.2⟩
      | error e =>
        rw [ensures_iff_of_error hrhs] at hcounts
        rw [ensures_iff_of_ok htry]
        -- what the attempt counted is lost with the error of the second try
        have hfails :=
          parseReferenceAssignment_fails config depth h (s := { s1 with tokens := s.tokens })
          (reads_of_patternAhead config hahead) hrhs rfl hcounts.2.symm
            s.assignmentCount s.nonLHSCount
        refine ((hreference _ { s1 with tokens := s.tokens } (Grew.refl _)).and hfails).mono ?_ ?_
        · rintro _ _ ⟨_, hfalse⟩
          exact hfalse.elim
        · rintro _ _ ⟨⟨hle, hin⟩, -⟩
          exact ⟨hcounts.1.trans hle, hin.trans hcounts.2⟩

/-- **The parser counts**: `parseAssignmentExpression` moves the counter exactly if the expression
that it returns assigns, and all the flags in the expression are exact.  Two runs of it stay in
step. -/
theorem tracks_parseAssignmentExpression {k : Coupling N B}
    (herror : k.buildersAfterError = k.builders) {config : ParserConfig N F}
    (hconfig : k.Admits config) (depth : Nat) {m n : Nat} :
    TracksExpression k m n
      (parseAssignmentExpression config depth) (parseAssignmentExpression config depth) := by
  induction depth generalizing k m n with
  | zero => exact .of_throw _
  | succ depth ih =>
    have h := ih herror hconfig (m := m) (n := n)
    have hplain {m n : Nat} := ih (k := .free) rfl (Coupling.free_admits config) (m := m) (n := n)
    have hconditional :=
      tracks_parseConditionalExpression h (tracks_parseBinaryExpression h hconfig hplain)
    exact .of_coupled (coupled_parseAssignmentExpressionWith config h hconditional herror)
      (counts_parseAssignmentExpression_succ hplain)

/-- Nothing need be known of the tokens and the builders. -/
theorem tracks_free (config : ParserConfig N F) (depth : Nat) {m n : Nat} :
    TracksExpression (B := B) .free m n
    (parseAssignmentExpression config depth) (parseAssignmentExpression config depth) :=
  tracks_parseAssignmentExpression rfl (Coupling.free_admits config) depth

/-- A parser for source without functions, over the integers. -/
def integerParser : ParserConfig Int Unit where
  strictMode := false
  syntaxAlreadyValidated := false
  arithmetic := ASTBuilder.integerArithmetic
  isZeroOrUnordered n := n == 0
  numericIdentifier := toString
  tokenText _ := ""
  parseFunction _ _ := ⟨.error .stackExhausted, 0, 0⟩

end JavaScriptCore.Parser
