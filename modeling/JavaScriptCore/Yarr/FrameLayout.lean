/-
# Backtrack frames of regular expressions

`YarrPatternConstructor::setupOffsets` gives each term of a pattern its slots in a backtrack frame:
a recursion over disjunctions, alternatives and terms that hands out frame locations in order.
Groups that run at most once, terminal groups and lookaheads share the frame of the term around
them.  A counted group starts a frame of its own.  `ByteCompiler::emitDisjunction` then reads the
locations back, and computes the slot in which a group keeps its current alternative with constants
of its own.

Slots of two alternatives of one disjunction overlap, and may: only one of them runs.  So the slots
of a frame are given here by attempts: an attempt picks one alternative of every disjunction and
lists the slots of the terms that are then live.  `setupOffsets_frames_disjoint` says that the slots
of an attempt are disjoint and inside the frame, for every frame of every pattern.

Call frame sizes are natural numbers.  No frame has more than two words for each term of the pattern
(`callFrameSize_le`), and a pattern has at most `MAX_PATTERN_SIZE` (2 ^ 20) characters and no more
terms than characters, so an `unsigned` holds them.
-/
import JavaScriptCore.Lib.Tiling

namespace JavaScriptCore.Yarr

open Tiling Option

/-! ## 1. Patterns -/

inductive QuantifierType where
  | fixedCount | greedy | nonGreedy
  deriving DecidableEq

mutual

/-- `PatternTerm::Type`, with the fields of the term's union that the offsets depend on. -/
inductive TermType where
  | assertionBOL | assertionEOL | assertionWordBoundary | patternCharacter | characterClass
  | backReference | forwardReference | dotStarEnclosure
  | parenthesesSubpattern (disjunction : PatternDisjunction) (isCopy isTerminal : Bool)
  | parentheticalAssertion (disjunction : PatternDisjunction)

structure PatternTerm where
  type : TermType
  quantityType : QuantifierType
  quantityCount : Nat
  inputPosition : Int
  frameLocation : Nat

structure PatternAlternative where
  terms : List PatternTerm
  minimumSize : Nat
  hasFixedSize : Bool

/-- A disjunction is created with its first alternative, so it always has one. -/
structure PatternDisjunction where
  first : PatternAlternative
  others : List PatternAlternative
  minimumSize : Nat
  callFrameSize : Nat
  hasFixedSize : Bool

end

/-! ## 2. `setupOffsets` -/

-- `YarrStackSpaceForBackTrackInfo…`
def spaceForPatternCharacter : Nat := 1
def spaceForCharacterClass : Nat := 1
def spaceForBackReference : Nat := 2
def spaceForAlternative : Nat := 1
def spaceForParentheticalAssertion : Nat := 1
def spaceForParenthesesOnce : Nat := 1
def spaceForParenthesesTerminal : Nat := 1
def spaceForParentheses : Nat := 2

/-- The locals of the loop over the terms of an alternative. -/
structure Locals where
  currentCallFrameSize : Nat
  currentInputPosition : Nat
  hasFixedSize : Bool

/-- The locals of the loop over the alternatives of a disjunction. -/
structure Totals where
  minimumInputSize : Nat
  maximumCallFrameSize : Nat
  hasFixedSize : Bool

/-- `+=` of `Checked<unsigned>`: an overflow ends the process. -/
def checkedAdd (a b : Nat) : Option Nat := if a + b < 2 ^ 32 then some (a + b) else none

/-- The `int` in which a term keeps a position, which is an `unsigned`. -/
def storedPosition (position : Nat) : Int :=
  if position < 2 ^ 31 then position else position - 2 ^ 32

/-- The cases of a pattern character and of a character class. -/
def setupAtomOffsets (space : Nat) (term : PatternTerm) (l : Locals) :
    Option (PatternTerm × Locals) :=
  if term.quantityType ≠ .fixedCount then
    some ({ term with
      inputPosition := storedPosition l.currentInputPosition, frameLocation :=
        l.currentCallFrameSize }, ⟨l.currentCallFrameSize + space, l.currentInputPosition, false⟩)
  else do
    let position ← checkedAdd l.currentInputPosition term.quantityCount
    some ({ term with inputPosition := storedPosition l.currentInputPosition },
      { l with currentInputPosition := position })

mutual

def setupTermOffsets (initialInputPosition : Nat) :
    PatternTerm → Locals → Option (PatternTerm × Locals)
  | term@⟨.assertionBOL, _, _, _, _⟩, l | term@⟨.assertionEOL, _, _, _, _⟩, l
  | term@⟨.assertionWordBoundary, _, _, _, _⟩, l =>
    some ({ term with inputPosition := storedPosition l.currentInputPosition }, l)
  | ⟨.backReference, type, count, _, _⟩, ⟨size, position, _⟩ =>
    some (⟨.backReference, type, count, storedPosition position, size⟩,
      ⟨size + spaceForBackReference, position, false⟩)
  | term@⟨.forwardReference, _, _, _, _⟩, l => some (term, l)
  | term@⟨.patternCharacter, _, _, _, _⟩, l => setupAtomOffsets spaceForPatternCharacter term l
  | term@⟨.characterClass, _, _, _, _⟩, l => setupAtomOffsets spaceForCharacterClass term l
  | ⟨.parenthesesSubpattern d isCopy isTerminal, type, count, _, _⟩, ⟨size, position, _⟩ =>
    if count = 1 ∧ isCopy = false then do
      let own := if type ≠ .fixedCount then spaceForParenthesesOnce else 0
      let d ← setupDisjunctionOffsets false d (size + own) position
      -- a fixed group's minimum is checked together with the input of the terms around it
      let position ← (if type = .fixedCount then checkedAdd position d.minimumSize
        else some position)
      some (⟨.parenthesesSubpattern d isCopy isTerminal, type, count, storedPosition position,
        size⟩, ⟨d.callFrameSize, position, false⟩)
    else if isTerminal then do
      let d ← setupDisjunctionOffsets false d (size + spaceForParenthesesTerminal) position
      some (⟨.parenthesesSubpattern d isCopy isTerminal, type, count, storedPosition position,
        size⟩, ⟨d.callFrameSize, position, false⟩)
    else do
      let d ← setupDisjunctionOffsets false d 0 position
      some (⟨.parenthesesSubpattern d isCopy isTerminal, type, count, storedPosition position,
        size⟩, ⟨size + spaceForParentheses, position, false⟩)
  | ⟨.parentheticalAssertion d, type, count, _, _⟩, ⟨size, position, fixed⟩ => do
    let d ← setupDisjunctionOffsets false d (size + spaceForParentheticalAssertion) position
    some (⟨.parentheticalAssertion d, type, count, storedPosition position, size⟩,
      ⟨d.callFrameSize, position, fixed⟩)
  | term@⟨.dotStarEnclosure, _, _, _, _⟩, l =>
    some ({ term with inputPosition := storedPosition initialInputPosition },
      { l with hasFixedSize := false })

/-- The loop of `setupAlternativeOffsets`. -/
def setupTermsOffsets (initialInputPosition : Nat) :
    List PatternTerm → Locals → Option (List PatternTerm × Locals)
  | [], l => some ([], l)
  | term :: terms, l => do
    let (term, l) ← setupTermOffsets initialInputPosition term l
    let (terms, l) ← setupTermsOffsets initialInputPosition terms l
    some (term :: terms, l)

/-- One round of the loop of `setupDisjunctionOffsets`, with `setupAlternativeOffsets`. -/
def setupAlternativeOffsets (size position : Nat) :
    PatternAlternative → Totals → Option (PatternAlternative × Totals)
  | ⟨terms, _, _⟩, t => do
    let (terms, l) ← setupTermsOffsets position terms ⟨size, position, true⟩
    let minimumSize := l.currentInputPosition - position
    some (⟨terms, minimumSize, l.hasFixedSize⟩, ⟨min t.minimumInputSize minimumSize,
      max t.maximumCallFrameSize l.currentCallFrameSize, t.hasFixedSize && l.hasFixedSize⟩)

def setupAlternativesOffsets (size position : Nat) :
    List PatternAlternative → Totals → Option (List PatternAlternative × Totals)
  | [], t => some ([], t)
  | alternative :: others, t => do
    let (alternative, t) ← setupAlternativeOffsets size position alternative t
    let (others, t) ← setupAlternativesOffsets size position others t
    some (alternative :: others, t)

def setupDisjunctionOffsets (isBody : Bool) :
    PatternDisjunction → Nat → Nat → Option PatternDisjunction
  | ⟨first, others, _, _, _⟩, initialCallFrameSize, position => do
    let size := if !isBody && !others.isEmpty then initialCallFrameSize + spaceForAlternative
      else initialCallFrameSize
    let (first, t) ← setupAlternativeOffsets size position first ⟨2 ^ 32 - 1, 0, true⟩
    let (others, t) ← setupAlternativesOffsets size position others t
    some ⟨first, others, t.minimumInputSize, t.maximumCallFrameSize, t.hasFixedSize⟩

end

def setupOffsets (body : PatternDisjunction) : Option PatternDisjunction :=
  setupDisjunctionOffsets true body 0 0

/-! ## 3. `emitDisjunction` -/

/-- What compiled terms use: `attempts` lists, for each choice of alternatives, the slots in the
current frame; `frames` are the frames begun inside, each with its size and its attempts. -/
structure Usage where
  attempts : List (List Span)
  frames : List (Nat × List (List Span))

namespace Usage

def none : Usage := ⟨[[]], []⟩

def slot (location space : Nat) : Usage := ⟨[[⟨location, space⟩]], []⟩

/-- Both parts are live. -/
def seq (u v : Usage) : Usage :=
  ⟨u.attempts.flatMap fun s => v.attempts.map (s ++ ·), u.frames ++ v.frames⟩

/-- One of the two is. -/
def choice (u v : Usage) : Usage := ⟨u.attempts ++ v.attempts, u.frames ++ v.frames⟩

/-- The part runs in a frame of its own. -/
def fresh (u : Usage) (callFrameSize : Nat) : Usage :=
  ⟨[[]], (callFrameSize, u.attempts) :: u.frames⟩

end Usage

mutual

def emitTerm : PatternTerm → Usage
  | ⟨.patternCharacter, type, _, _, location⟩ =>
    if type = .fixedCount then .none else .slot location spaceForPatternCharacter
  | ⟨.characterClass, type, _, _, location⟩ =>
    if type = .fixedCount then .none else .slot location spaceForCharacterClass
  | ⟨.backReference, _, _, _, location⟩ => .slot location spaceForBackReference
  | ⟨.parenthesesSubpattern d isCopy isTerminal, type, count, _, location⟩ =>
    if count = 1 ∧ isCopy = false then
      if type = .fixedCount then emitDisjunction false location d
      else (Usage.slot location spaceForParenthesesOnce).seq
        (emitDisjunction false (location + spaceForParenthesesOnce) d)
    else if isTerminal then (Usage.slot location spaceForParenthesesTerminal).seq
      (emitDisjunction false (location + spaceForParenthesesOnce) d)
    else (Usage.slot location spaceForParentheses).seq
      ((emitDisjunction false 0 d).fresh d.callFrameSize)
  | ⟨.parentheticalAssertion d, _, _, _, location⟩ =>
    (Usage.slot location spaceForParentheticalAssertion).seq
      (emitDisjunction false (location + spaceForParentheticalAssertion) d)
  | _ => .none

def emitTerms : List PatternTerm → Usage
  | [] => .none
  | term :: terms => (emitTerm term).seq (emitTerms terms)

def emitAlternative : PatternAlternative → Usage
  | ⟨terms, _, _⟩ => emitTerms terms

def emitAlternatives : List PatternAlternative → Usage
  | [] => ⟨[], []⟩
  | alternative :: others => (emitAlternative alternative).choice (emitAlternatives others)

/-- `closeAlternative` removes the terms that use the alternative slot if there is one alternative
only, and the slot of the body is never read. -/
def emitDisjunction (isBody : Bool) (alternativeFrameLocation : Nat) : PatternDisjunction → Usage
  | ⟨first, others, _, _, _⟩ =>
    (if !isBody && !others.isEmpty then .slot alternativeFrameLocation spaceForAlternative
      else .none : Usage).seq
      ((emitAlternative first).choice (emitAlternatives others))

end

/-- `ByteCompiler::compile`: the frames of the pattern, the body's first. -/
def compile (body : PatternDisjunction) : List (Nat × List (List Span)) :=
  ((emitDisjunction true 0 body).fresh body.callFrameSize).frames

/-! ## 4. Slots of an attempt -/

namespace Usage

/-- Each attempt has its slots between `lo` and `hi`, and those of the inner frames lie in their
frames. -/
structure Sound (u : Usage) (lo hi : Nat) : Prop where
  attempts : ∀ s ∈ u.attempts, Within lo hi s
  frames : ∀ f ∈ u.frames, ∀ s ∈ f.2, Within 0 f.1 s

/-- Besides, there are at most `n` words between `lo` and `hi`, and in each inner frame. -/
structure Fits (u : Usage) (lo hi n : Nat) : Prop extends Sound u lo hi where
  size : hi ≤ lo + n
  below : ∀ f ∈ u.frames, f.1 ≤ n

variable {u v : Usage} {lo mid hi n m : Nat}

theorem Sound.mono {hi' : Nat} (h : u.Sound lo hi) (hhi : hi ≤ hi') : u.Sound lo hi' :=
  ⟨fun s hs => (h.attempts s hs).mono hhi, h.frames⟩

theorem Fits.mono (h : u.Fits lo hi n) (hn : n ≤ m) : u.Fits lo hi m :=
  ⟨h.toSound, h.size.trans (Nat.add_le_add_left hn _), fun f hf => (h.below f hf).trans hn⟩

theorem fits_none : none.Fits lo lo n :=
  ⟨⟨List.forall_mem_singleton.2 ⟨Nat.le_refl _, by simp, .nil⟩, nofun⟩, Nat.le_add_right _ _,
    nofun⟩

theorem fits_slot {space : Nat} (hspace : space ≤ n) : (slot lo space).Fits lo (lo + space) n := by
  refine ⟨⟨List.forall_mem_singleton.2 ⟨Nat.le_add_right _ _, ?_, List.pairwise_singleton _ _⟩,
    nofun⟩, Nat.add_le_add_left hspace _, nofun⟩
  exact List.forall_mem_singleton.2 ⟨Nat.le_refl _, Nat.le_refl _⟩

theorem Fits.seq (hu : u.Fits lo mid n) (hv : v.Fits mid hi n) (hsize : hi ≤ lo + n) :
    (u.seq v).Fits lo hi n := by
  refine ⟨⟨?_, List.forall_mem_append.2 ⟨hu.frames, hv.frames⟩⟩, hsize,
    List.forall_mem_append.2 ⟨hu.below, hv.below⟩⟩
  intro r hr
  obtain ⟨s, hs, hr⟩ := List.mem_flatMap.1 hr
  obtain ⟨t, ht, rfl⟩ := List.mem_map.1 hr
  exact (hu.attempts s hs).append (hv.attempts t ht)

theorem Fits.afterSlot {space : Nat} (h : u.Fits (lo + space) hi n) (hspace : space ≤ 1) :
    ((slot lo space).seq u).Fits lo hi (n + 1) :=
  (fits_slot (by omega)).seq (h.mono (Nat.le_succ n)) (by have := h.size; omega)

theorem Fits.choice (hu : u.Fits lo mid n) (hv : v.Fits lo hi m) (hle : mid ≤ hi) (hn : n ≤ m) :
    (u.choice v).Fits lo hi m :=
  ⟨⟨List.forall_mem_append.2 ⟨(hu.toSound.mono hle).attempts, hv.attempts⟩,
    List.forall_mem_append.2 ⟨hu.frames, hv.frames⟩⟩, hv.size,
    List.forall_mem_append.2 ⟨(hu.mono hn).below, hv.below⟩⟩

theorem Fits.fresh (h : u.Fits 0 hi n) (lo : Nat) : (u.fresh hi).Fits lo lo n :=
  ⟨⟨(fits_none (n := n)).attempts, List.forall_mem_cons.2 ⟨h.attempts, h.frames⟩⟩,
    Nat.le_add_right _ _, List.forall_mem_cons.2 ⟨by simpa using h.size, h.below⟩⟩

end Usage

mutual

/-- The number of terms, those inside groups too. -/
def PatternTerm.count : PatternTerm → Nat
  | ⟨.parenthesesSubpattern d _ _, _, _, _, _⟩
  | ⟨.parentheticalAssertion d, _, _, _, _⟩ => d.count + 1
  | _ => 1

def countTerms : List PatternTerm → Nat
  | [] => 0
  | term :: terms => term.count + countTerms terms

def PatternAlternative.count : PatternAlternative → Nat
  | ⟨terms, _, _⟩ => countTerms terms

def countAlternatives : List PatternAlternative → Nat
  | [] => 0
  | alternative :: others => alternative.count + countAlternatives others

def PatternDisjunction.count : PatternDisjunction → Nat
  | ⟨first, others, _, _, _⟩ => first.count + countAlternatives others

end

/-! ## 5. The slots that are handed out -/

theorem setupAtomOffsets_fits {space : Nat} {term term' : PatternTerm} {l l' : Locals}
    (h : setupAtomOffsets space term l = some (term', l')) (hspace : space ≤ 2) :
    term'.type = term.type ∧
      (if term'.quantityType = .fixedCount then .none
        else .slot term'.frameLocation space : Usage).Fits
        l.currentCallFrameSize l'.currentCallFrameSize 2 := by
  unfold setupAtomOffsets at h
  split_ifs at h with hq
  · cases h
    rw [if_neg hq]
    exact ⟨rfl, Usage.fits_slot hspace⟩
  · obtain ⟨position, _, h⟩ := bind_eq_some_iff.1 h
    cases h
    rw [if_pos (not_not.1 hq)]
    exact ⟨rfl, Usage.fits_none⟩

theorem isEmpty_setupAlternativesOffsets {size position : Nat} {as : List PatternAlternative}
    {t : Totals} {r : List PatternAlternative × Totals}
    (h : setupAlternativesOffsets size position as t = some r) :
    r.1.isEmpty = as.isEmpty := by
  cases as with
  | nil =>
    cases h
    rfl
  | cons a as =>
    obtain ⟨_, -, h⟩ := bind_eq_some_iff.1 h
    obtain ⟨_, -, h⟩ := bind_eq_some_iff.1 h
    cases h
    rfl

mutual

/-- A term takes at most two words, and two for each term inside. -/
theorem setupTermOffsets_fits {initial : Nat} : ∀ {term : PatternTerm} {l : Locals}
    {r : PatternTerm × Locals}, setupTermOffsets initial term l = some r →
      (emitTerm r.1).Fits l.currentCallFrameSize r.2.currentCallFrameSize (2 * term.count)
  | ⟨.assertionBOL, _, _, _, _⟩, _, _, h | ⟨.assertionEOL, _, _, _, _⟩, _, _, h
  | ⟨.assertionWordBoundary, _, _, _, _⟩, _, _, h | ⟨.forwardReference, _, _, _, _⟩, _, _, h
  | ⟨.dotStarEnclosure, _, _, _, _⟩, _, _, h => by
    cases h
    exact Usage.fits_none
  | ⟨.backReference, _, _, _, _⟩, ⟨_, _, _⟩, _, h => by
    cases h
    exact Usage.fits_slot (Nat.le_refl 2)
  | ⟨.patternCharacter, _, _, _, _⟩, _, ⟨⟨_, _, _, _, _⟩, _⟩, h
  | ⟨.characterClass, _, _, _, _⟩, _, ⟨⟨_, _, _, _, _⟩, _⟩, h => by
    obtain ⟨htype, hfits⟩ := setupAtomOffsets_fits h (by decide)
    cases htype
    rw [emitTerm]
    exact hfits
  | ⟨.parenthesesSubpattern d isCopy isTerminal, type, count, _, _⟩, ⟨size, position, _⟩, _, h => by
    rw [setupTermOffsets] at h
    rw [PatternTerm.count, Nat.mul_succ]
    by_cases honce : count = 1 ∧ isCopy = false
    · rw [if_pos honce] at h
      obtain ⟨d', hd, h⟩ := bind_eq_some_iff.1 h
      obtain ⟨_, _, h⟩ := bind_eq_some_iff.1 h
      cases h
      rw [emitTerm, if_pos honce]
      by_cases htype : type = .fixedCount
      · rw [if_neg (not_not.2 htype), Nat.add_zero] at hd
        rw [if_pos htype]
        exact (setupDisjunctionOffsets_fits hd).mono (Nat.le_succ _)
      · rw [if_pos htype] at hd
        rw [if_neg htype]
        exact (setupDisjunctionOffsets_fits hd).afterSlot (by decide)
    rw [if_neg honce] at h
    split_ifs at h with hterminal
    · obtain ⟨d', hd, h⟩ := bind_eq_some_iff.1 h
      cases h
      rw [emitTerm, if_neg honce, if_pos hterminal]
      exact (setupDisjunctionOffsets_fits hd).afterSlot (by decide)
    · obtain ⟨d', hd, h⟩ := bind_eq_some_iff.1 h
      cases h
      rw [emitTerm, if_neg honce, if_neg hterminal]
      have htwo : spaceForParentheses ≤ 2 * d.count + 2 := Nat.le_add_left 2 _
      exact (Usage.fits_slot htwo).seq
        (((setupDisjunctionOffsets_fits hd).fresh _).mono (Nat.le_succ _))
        (Nat.add_le_add_left htwo _)
  | ⟨.parentheticalAssertion d, _, _, _, _⟩, ⟨_, _, _⟩, _, h => by
    obtain ⟨d', hd, h⟩ := bind_eq_some_iff.1 h
    cases h
    rw [PatternTerm.count, Nat.mul_succ]
    exact (setupDisjunctionOffsets_fits hd).afterSlot (by decide)

theorem setupTermsOffsets_fits {initial : Nat} :
    ∀ {terms : List PatternTerm} {l : Locals} {r : List PatternTerm × Locals},
      setupTermsOffsets initial terms l = some r →
        (emitTerms r.1).Fits l.currentCallFrameSize r.2.currentCallFrameSize (2 * countTerms terms)
  | [], _, _, h => by
    cases h
    exact Usage.fits_none
  | _ :: _, _, _, h => by
    obtain ⟨_, hterm, h⟩ := bind_eq_some_iff.1 h
    obtain ⟨_, hterms, h⟩ := bind_eq_some_iff.1 h
    cases h
    have hfits := setupTermOffsets_fits hterm
    have hrest := setupTermsOffsets_fits hterms
    have hsize := hfits.size
    have hsize' := hrest.size
    rw [countTerms]
    exact (hfits.mono (by omega)).seq (hrest.mono (by omega)) (by dsimp only; omega)

/-- The totals only grow, and if there were at most `n` words so far, there are as many more as
the alternative takes. -/
theorem setupAlternativeOffsets_fits {size position n : Nat} :
    ∀ {a : PatternAlternative} {t : Totals} {r : PatternAlternative × Totals},
      setupAlternativeOffsets size position a t = some r → t.maximumCallFrameSize ≤ size + n →
        t.maximumCallFrameSize ≤ r.2.maximumCallFrameSize ∧
          (emitAlternative r.1).Fits size r.2.maximumCallFrameSize (n + 2 * a.count)
  | ⟨_, _, _⟩, _, _, h, hn => by
    obtain ⟨_, hterms, h⟩ := bind_eq_some_iff.1 h
    cases h
    have hfits := (setupTermsOffsets_fits hterms).mono (Nat.le_add_left _ n)
    exact ⟨Nat.le_max_left _ _, hfits.toSound.mono (Nat.le_max_right _ _),
      max_le (hn.trans (Nat.add_le_add_left (Nat.le_add_right _ _) _)) hfits.size, hfits.below⟩

theorem setupAlternativesOffsets_fits {size position n : Nat} :
    ∀ {as : List PatternAlternative} {t : Totals} {r : List PatternAlternative × Totals},
      setupAlternativesOffsets size position as t = some r → t.maximumCallFrameSize ≤ size + n →
        t.maximumCallFrameSize ≤ r.2.maximumCallFrameSize ∧
          (emitAlternatives r.1).Fits size r.2.maximumCallFrameSize (n + 2 * countAlternatives as)
  | [], _, _, h, hn => by
    cases h
    exact ⟨Nat.le_refl _, ⟨nofun, nofun⟩, hn, nofun⟩
  | _ :: _, _, _, h, hn => by
    obtain ⟨_, hfirst, h⟩ := bind_eq_some_iff.1 h
    obtain ⟨_, hothers, h⟩ := bind_eq_some_iff.1 h
    cases h
    obtain ⟨hle, hfirst⟩ := setupAlternativeOffsets_fits hfirst hn
    obtain ⟨hle', hothers⟩ := setupAlternativesOffsets_fits hothers hfirst.size
    rw [countAlternatives, Nat.mul_add, ← Nat.add_assoc]
    exact ⟨hle.trans hle', hfirst.choice hothers hle' (Nat.le_add_right _ _)⟩

/-- A group takes one word more than its terms, for its alternative. -/
theorem setupDisjunctionOffsets_fits {isBody : Bool} {size position : Nat} :
    ∀ {d d' : PatternDisjunction}, setupDisjunctionOffsets isBody d size position = some d' →
      (emitDisjunction isBody size d').Fits size d'.callFrameSize
        (2 * d.count + if isBody then 0 else 1)
  | ⟨_, others, _, _, _⟩, _, h => by
    obtain ⟨_, hfirst, h⟩ := bind_eq_some_iff.1 h
    obtain ⟨_, hothers, h⟩ := bind_eq_some_iff.1 h
    cases h
    obtain ⟨_, hfits⟩ := setupAlternativeOffsets_fits (n := 0) hfirst (Nat.zero_le _)
    obtain ⟨hle, hfits'⟩ := setupAlternativesOffsets_fits hothers hfits.size
    have hchoice := hfits.choice hfits' hle (Nat.le_add_right _ _)
    rw [Nat.zero_add, ← Nat.mul_add] at hchoice
    rw [emitDisjunction, isEmpty_setupAlternativesOffsets hothers, PatternDisjunction.count]
    split_ifs at hchoice ⊢ with hslot hbody
    · simp [hbody] at hslot
    · exact hchoice.afterSlot (by decide)
    · exact Usage.fits_none.seq hchoice hchoice.size
    · exact Usage.fits_none.seq (hchoice.mono (Nat.le_succ _)) (hchoice.mono (Nat.le_succ _)).size

end

/-! ## 6. Frames of a pattern -/

/-- **Backtrack frames never collide**: in each frame of a compiled pattern, whichever alternatives
an attempt takes, the slots of its live terms lie inside the frame and do not overlap. -/
theorem setupOffsets_frames_disjoint (body : PatternDisjunction) {body' : PatternDisjunction}
    (h : setupOffsets body = some body') :
    ∀ frame ∈ compile body', ∀ slots ∈ frame.2,
      (∀ slot ∈ slots, slot.stop ≤ frame.1) ∧ slots.Pairwise Span.Disjoint := by
  intro frame hframe slots hslots
  have hwithin := ((setupDisjunctionOffsets_fits h).fresh 0).frames frame hframe slots hslots
  exact ⟨fun slot hslot => (hwithin.inside slot hslot).2, hwithin.disjoint⟩

/-- `(?:a*|b)?(?:c*){2}` -/
def twoGroups : PatternDisjunction :=
  let star : PatternAlternative := ⟨[⟨.patternCharacter, .greedy, 2 ^ 32 - 1, 0, 0⟩], 0, false⟩
  let once : PatternAlternative := ⟨[⟨.patternCharacter, .fixedCount, 1, 0, 0⟩], 0, false⟩
  ⟨⟨[⟨.parenthesesSubpattern ⟨star, [once], 0, 0, false⟩ false false, .greedy, 1, 0, 0⟩,
    ⟨.parenthesesSubpattern ⟨star, [], 0, 0, false⟩ false false, .fixedCount, 2, 0, 0⟩], 0, false⟩,
    [], 0, 0, false⟩

/-- The group that is repeated has a frame of its own. -/
theorem setupOffsets_frames_twoGroups : ∃ body', setupOffsets twoGroups = some body' ∧
    compile body' = [(5, [[⟨0, 1⟩, ⟨1, 1⟩, ⟨2, 1⟩, ⟨3, 2⟩], [⟨0, 1⟩, ⟨1, 1⟩, ⟨3, 2⟩]]),
      (1, [[⟨0, 1⟩]])] ∧
    ∀ frame ∈ compile body', ∀ slots ∈ frame.2,
      (∀ slot ∈ slots, slot.stop ≤ frame.1) ∧ slots.Pairwise Span.Disjoint :=
  ⟨_, rfl, rfl, setupOffsets_frames_disjoint twoGroups rfl⟩

/-- **No frame has more than two words for each term of the pattern.** -/
theorem callFrameSize_le {body body' : PatternDisjunction} (h : setupOffsets body = some body') :
    ∀ frame ∈ compile body', frame.1 ≤ 2 * body.count :=
  ((setupDisjunctionOffsets_fits h).fresh 0).below

end JavaScriptCore.Yarr
