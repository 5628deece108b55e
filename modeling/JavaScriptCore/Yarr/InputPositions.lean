/-
# Input positions of regular expressions

The interpreter checks once for all the input that the fixed parts of an alternative need.
`setupOffsets` adds these parts up in a `Checked<unsigned>`, whose overflow ends the process.  The
parser accepts each count up to `2 ^ 32 - 2`, and nothing bounds their sum.

`required` is what an alternative must consume, as a natural number.  `setupOffsets_sizes_iff` says
that `setupOffsets` returns, and finds what every alternative must consume, exactly if every
alternative, from where it begins, ends at a position that is an `unsigned`.
-/
import JavaScriptCore.Yarr.FrameLayout

namespace JavaScriptCore.Yarr

/-! ## 1. What a pattern requires -/

mutual

/-- What a term must consume: a fixed count, or the shortest alternative of a group that runs once.
Terms of variable length and groups that are repeated see to their own input. -/
def PatternTerm.required : PatternTerm → Nat
  | ⟨.patternCharacter, type, count, _, _⟩ | ⟨.characterClass, type, count, _, _⟩ =>
    if type = .fixedCount then count else 0
  | ⟨.parenthesesSubpattern d isCopy _, type, count, _, _⟩ =>
    if (count = 1 ∧ isCopy = false) ∧ type = .fixedCount then d.required else 0
  | _ => 0

def requiredTerms : List PatternTerm → Nat
  | [] => 0
  | term :: terms => term.required + requiredTerms terms

def PatternAlternative.required : PatternAlternative → Nat
  | ⟨terms, _, _⟩ => requiredTerms terms

def leastRequired : List PatternAlternative → Nat → Nat
  | [], n => n
  | alternative :: others, n => leastRequired others (min n alternative.required)

def PatternDisjunction.required : PatternDisjunction → Nat
  | ⟨first, others, _, _, _⟩ => leastRequired others first.required

end

mutual

/-- The alternatives in a term that begins at a position, each with its own position. -/
def PatternTerm.alternatives : PatternTerm → Nat → List (Nat × PatternAlternative)
  | ⟨.parenthesesSubpattern d _ _, _, _, _, _⟩, position | ⟨.parentheticalAssertion d, _, _, _, _⟩,
  position =>
    d.alternatives position
  | _, _ => []

def alternativesOfTerms : List PatternTerm → Nat → List (Nat × PatternAlternative)
  | [], _ => []
  | term :: terms, position =>
    term.alternatives position ++ alternativesOfTerms terms (position + term.required)

def PatternAlternative.alternatives : PatternAlternative → Nat → List (Nat × PatternAlternative)
  | ⟨terms, size, fixed⟩,
  position => (position, ⟨terms, size, fixed⟩) :: alternativesOfTerms terms position

def alternativesOf : List PatternAlternative → Nat → List (Nat × PatternAlternative)
  | [], _ => []
  | alternative :: others, position =>
    alternative.alternatives position ++ alternativesOf others position

def PatternDisjunction.alternatives : PatternDisjunction → Nat → List (Nat × PatternAlternative)
  | ⟨first, others, _, _, _⟩, position => first.alternatives position ++
    alternativesOf others position

end

/-- The alternatives end at positions that are `unsigned`. -/
def Fits (l : List (Nat × PatternAlternative)) : Prop := ∀ x ∈ l, x.1 + x.2.required < 2 ^ 32

/-- The sizes of the alternatives are what they must consume. -/
def Sized (l : List (Nat × PatternAlternative)) : Prop := ∀ x ∈ l, x.2.minimumSize = x.2.required

variable {l l' : List (Nat × PatternAlternative)}

theorem fits_append : Fits (l ++ l') ↔ Fits l ∧ Fits l' := List.forall_mem_append

theorem Sized.append (h : Sized l) (h' : Sized l') : Sized (l ++ l') :=
  List.forall_mem_append.2 ⟨h, h'⟩

/-! ## 2. Checked computations -/

/-- The computation returns what it should if `P` holds, and traps otherwise. -/
structure Computes {α : Type} (o : Option α) (P : Prop) (Q : α → Prop) : Prop where
  returns : P → ∃ r, o = some r ∧ Q r
  traps : o ≠ none → P

section Rules

variable {α β : Type} {o : Option α} {P P' : Prop} {Q : α → Prop} {R : β → Prop}

theorem Computes.of_some {a : α} (hP : P) (ha : Q a) : Computes (some a) P Q :=
  ⟨fun _ => ⟨a, rfl, ha⟩, fun _ => hP⟩

theorem Computes.of_checkedAdd (a b : Nat) : Computes (checkedAdd a b) (a + b < 2 ^ 32)
    (· = a + b) := by
  unfold checkedAdd
  split_ifs with h
  · exact .of_some h rfl
  · exact ⟨fun h' => absurd h' h, fun h' => absurd rfl h'⟩

theorem Computes.bind {f : α → Option β} (P' : Prop) (h : Computes o P Q)
    (hf : ∀ a, P → Q a → Computes (f a) P' R) :
    Computes (o >>= f) (P ∧ P') R := by
  constructor
  · rintro ⟨hP, hP'⟩
    obtain ⟨a, rfl, ha⟩ := h.returns hP
    exact (hf a hP ha).returns hP'
  · intro hne
    have hP : P := h.traps fun ho => hne (ho ▸ rfl)
    obtain ⟨a, rfl, ha⟩ := h.returns hP
    exact ⟨hP, (hf a hP ha).traps hne⟩

theorem Computes.congr (h : Computes o P Q) (hP : P ↔ P') : Computes o P' Q :=
  ⟨fun hP' => h.returns (hP.2 hP'), fun ho => hP.1 (h.traps ho)⟩

theorem Computes.map {f : α → β} (h : Computes o P Q) (hf : ∀ a, P → Q a → R (f a)) :
    Computes (o >>= fun a => some (f a)) P R :=
  (h.bind True fun a hP ha => .of_some trivial (hf a hP ha)).congr (and_iff_left trivial)

end Rules

/-! ## 3. `setupOffsets` -/

/-- How a part `x` of an alternative is set up at a position. -/
def Reads {β : Type} (required : β → Nat) (alternatives : β → Nat → List (Nat × PatternAlternative))
    (o : Option (β × Locals)) (x : β) (position : Nat) : Prop :=
  Computes o (Fits (alternatives x position) ∧ position + required x < 2 ^ 32) fun r =>
    required r.1 = required x ∧ Sized (alternatives r.1 position) ∧
      r.2.currentInputPosition = position + required x

mutual

theorem reads_term (initial : Nat) : ∀ (term : PatternTerm)
    (l : Locals), l.currentInputPosition < 2 ^ 32 →
    Reads PatternTerm.required PatternTerm.alternatives (setupTermOffsets initial term l) term
      l.currentInputPosition
  | ⟨.assertionBOL, _, _, _, _⟩, _, hl | ⟨.assertionEOL, _, _, _, _⟩, _, hl
  | ⟨.assertionWordBoundary, _, _, _, _⟩, _, hl | ⟨.forwardReference, _, _, _, _⟩, _, hl
  | ⟨.dotStarEnclosure, _, _, _, _⟩, _, hl | ⟨.backReference, _, _, _, _⟩, ⟨_, _, _⟩, hl => by
    rw [setupTermOffsets]
    exact .of_some ⟨nofun, hl⟩ ⟨rfl, nofun, rfl⟩
  | ⟨.patternCharacter, type, count, _, _⟩, l, hl
  | ⟨.characterClass, type, count, _, _⟩, l, hl => by
    rw [setupTermOffsets, setupAtomOffsets]
    by_cases htype : type = .fixedCount
    · rw [if_neg (not_not.2 htype)]
      refine ((Computes.of_checkedAdd _ _).map fun position _ hposition => ?_).congr ?_
      · simp [PatternTerm.required, PatternTerm.alternatives, Sized, htype, hposition]
      · simp [PatternTerm.required, PatternTerm.alternatives, Fits, htype]
    · rw [if_pos htype]
      refine .of_some ⟨nofun, ?_⟩ ⟨rfl, nofun, ?_⟩
      · simpa [PatternTerm.required, htype] using hl
      · simp [PatternTerm.required, htype]
  | ⟨.parenthesesSubpattern d isCopy isTerminal, type, count, _, _⟩, ⟨size, position, _⟩, hl => by
    have hplain (h : ¬((count = 1 ∧ isCopy = false) ∧ type = .fixedCount)) (size' f : Nat)
        (p : Int) (frame : PatternDisjunction → Nat) :
        Reads PatternTerm.required PatternTerm.alternatives
          (setupDisjunctionOffsets false d size' position >>= fun d' =>
            some (⟨.parenthesesSubpattern d' isCopy isTerminal, type, count,
              storedPosition position, size⟩, ⟨frame d', position, false⟩))
          ⟨.parenthesesSubpattern d isCopy isTerminal, type, count, p, f⟩ position := by
      simp only [Reads, PatternTerm.required, if_neg h]
      exact ((computes_disjunction false d size' position hl).map fun d' _ hd' =>
        ⟨by simp only [PatternTerm.required, if_neg h], hd'.2.1, rfl⟩).congr (and_iff_left hl).symm
    rw [setupTermOffsets]
    by_cases honce : count = 1 ∧ isCopy = false
    · by_cases htype : type = .fixedCount
      · simp only [Reads, PatternTerm.required, if_pos honce, if_pos htype,
          if_pos (And.intro honce htype)]
        refine (computes_disjunction false d _ position hl).bind (position + d.required < 2 ^ 32)
          fun d' _ ⟨hrequired, hsized, hsize⟩ => ?_
        rw [hsize]
        refine (Computes.of_checkedAdd _ _).map fun p _ hp => ⟨?_, hsized, hp⟩
        simp only [PatternTerm.required, if_pos (And.intro honce htype), hrequired]
      · simp only [if_pos honce, if_neg htype]
        exact hplain (fun h => htype h.2) _ _ _ _
    · rw [if_neg honce]
      split_ifs
      · exact hplain (fun h => honce h.1) _ _ _ _
      · exact hplain (fun h => honce h.1) _ _ _ _
  | ⟨.parentheticalAssertion d, _, _, _, _⟩, ⟨size, position, _⟩, hl => by
    rw [setupTermOffsets]
    refine ((computes_disjunction false d _ _ hl).map fun d' _ hd' => ⟨rfl, hd'.2.1, rfl⟩).congr ?_
    exact (and_iff_left hl).symm

theorem reads_terms (initial : Nat) : ∀ (terms : List PatternTerm)
    (l : Locals), l.currentInputPosition < 2 ^ 32 →
    Reads requiredTerms alternativesOfTerms (setupTermsOffsets initial terms l) terms
      l.currentInputPosition
  | [], _, hl => .of_some ⟨nofun, hl⟩ ⟨rfl, nofun, rfl⟩
  | term :: terms, l, hl => by
    rw [setupTermsOffsets]
    refine ((reads_term initial term l hl).bind
      (Fits (alternativesOfTerms terms (l.currentInputPosition + term.required)) ∧
        l.currentInputPosition + term.required + requiredTerms terms < 2 ^ 32) ?_).congr ?_
    · rintro ⟨term', l'⟩ ⟨-, hlt⟩ ⟨hrequired, hsized, hposition⟩
      have hterms := reads_terms initial terms l' (hposition ▸ hlt)
      rw [hposition] at hterms
      refine hterms.map fun r _ ⟨hrequired', hsized', hposition'⟩ => ⟨?_, ?_, ?_⟩
      · rw [requiredTerms, requiredTerms, hrequired, hrequired']
      · rw [alternativesOfTerms, hrequired]
        exact hsized.append hsized'
      · rw [hposition', requiredTerms, Nat.add_assoc]
    · rw [alternativesOfTerms, fits_append, requiredTerms, Nat.add_assoc]
      exact ⟨fun ⟨⟨h, _⟩, h', hlt⟩ => ⟨⟨h, h'⟩, hlt⟩,
        fun ⟨⟨h, h'⟩, hlt⟩ => ⟨⟨h, by omega⟩, h', hlt⟩⟩

theorem computes_alternative (size position : Nat) (hposition : position < 2 ^ 32) :
    ∀ (a : PatternAlternative) (t : Totals), Computes (setupAlternativeOffsets size position a t)
      (Fits (a.alternatives position)) fun r => r.1.required = a.required ∧
      Sized (r.1.alternatives position) ∧ r.2.minimumInputSize = min t.minimumInputSize a.required
  | ⟨terms, _, _⟩, t => by
    rw [setupAlternativeOffsets, PatternAlternative.alternatives]
    refine ((reads_terms position terms ⟨size, position, true⟩ hposition).map
      fun ⟨terms', l⟩ _ ⟨hrequired, hsized, hend⟩ => ?_).congr
        ⟨fun h => List.forall_mem_cons.2 h.symm, fun h => (List.forall_mem_cons.1 h).symm⟩
    have hsize : l.currentInputPosition - position = requiredTerms terms := by
      rw [hend]
      exact Nat.add_sub_cancel_left ..
    refine ⟨hrequired, List.forall_mem_cons.2 ⟨hsize.trans hrequired.symm, hsized⟩, ?_⟩
    exact congrArg (min _) hsize

theorem computes_alternatives (size position : Nat) (hposition : position < 2 ^ 32) :
    ∀ (as : List PatternAlternative)
    (t : Totals), Computes (setupAlternativesOffsets size position as t)
      (Fits (alternativesOf as position)) fun r => (∀ n, leastRequired r.1 n = leastRequired as n) ∧
        Sized (alternativesOf r.1 position) ∧
        r.2.minimumInputSize = leastRequired as t.minimumInputSize
  | [], _ => .of_some nofun ⟨fun _ => rfl, nofun, rfl⟩
  | a :: as, t => by
    rw [setupAlternativesOffsets]
    refine ((computes_alternative size position hposition a t).bind
      (Fits (alternativesOf as position))
      fun ⟨a', t'⟩ _ ⟨hrequired, hsized, ht⟩ => ?_).congr fits_append.symm
    refine (computes_alternatives size position hposition as t').map fun r _ ⟨hrequired',
      hsized', ht'⟩ => ?_
    refine ⟨fun n => ?_, hsized.append hsized', ?_⟩
    · rw [leastRequired, leastRequired, hrequired, hrequired']
    · rw [ht', ht, leastRequired]

theorem computes_disjunction (isBody : Bool) : ∀ (d : PatternDisjunction)
    (size position : Nat), position < 2 ^ 32 →
    Computes (setupDisjunctionOffsets isBody d size position) (Fits (d.alternatives position))
      fun d' => d'.required = d.required ∧ Sized (d'.alternatives position) ∧
      d'.minimumSize = d.required
  | ⟨first, others, _, _, _⟩, size, position, hposition => by
    rw [setupDisjunctionOffsets]
    refine ((computes_alternative _ position hposition first _).bind
      (Fits (alternativesOf others position))
      fun ⟨first', t⟩ hfits ⟨hrequired, hsized, ht⟩ => ?_).congr fits_append.symm
    refine (computes_alternatives _ position hposition others t).map fun r _ ⟨hrequired',
      hsized', ht'⟩ => ?_
    -- the loop starts with the largest `unsigned`, which no alternative exceeds
    have hmin : min (2 ^ 32 - 1) first.required = first.required := by
      have hend : position + first.required < 2 ^ 32 := by
        cases first
        exact hfits _ List.mem_cons_self
      omega
    refine ⟨?_, hsized.append hsized', ?_⟩
    · rw [PatternDisjunction.required, PatternDisjunction.required, hrequired, hrequired']
    · rw [ht', ht, hmin]
      rfl

end

/-- **`setupOffsets` returns, with the sizes of all alternatives right, exactly if no alternative
ends at a position that is no `unsigned`.** -/
theorem setupOffsets_sizes_iff (body : PatternDisjunction) :
    (∃ body', setupOffsets body = some body' ∧
      ∀ x ∈ body'.alternatives 0, x.2.minimumSize = x.2.required) ↔
    ∀ x ∈ body.alternatives 0, x.1 + x.2.required < 2 ^ 32 := by
  have h := computes_disjunction true body 0 0 (Nat.two_pow_pos 32)
  constructor
  · rintro ⟨body', hbody, -⟩
    refine h.traps fun hnone => ?_
    cases hnone.symm.trans hbody
  · intro hfits
    obtain ⟨body', hbody, -, hsized, -⟩ := h.returns hfits
    exact ⟨body', hbody, hsized⟩

/-- `a{4294967294}a{2}`: the second count makes the position overflow. -/
theorem setupOffsets_traps : setupOffsets ⟨⟨[⟨.patternCharacter, .fixedCount, 2 ^ 32 - 2, 0, 0⟩,
    ⟨.patternCharacter, .fixedCount, 2, 0, 0⟩], 0, false⟩, [], 0, 0, false⟩ = none := rfl

end JavaScriptCore.Yarr
