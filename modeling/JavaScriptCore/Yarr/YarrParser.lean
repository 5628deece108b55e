/-
# Numbers in regular expressions

`Parser::consumeNumber` reads the counts of a quantifier in braces and the number of a back
reference.  It computes in `unsigned` and goes on as long as the new value is not smaller than the
old one.  A value that wraps around may well be larger, and then it is taken.

**Which numbers slip through** (`numbers_exact_iff`).  The values of the prefixes of a digit string
grow, so at most one digit takes them to 2 ^ 32 or beyond.  If what is left modulo 2 ^ 32 is smaller
than the value before that digit, the loop stops in front of the digit, and what it returns is the
number of the digits that it has read.  Otherwise it goes on with a number that nobody wrote.

A quantifier needs a comma or a brace behind its numbers, so a loop that stops early leaves no
quantifier at all.  A back reference needs nothing behind it.  There it helps that the number is
compared with the number of groups, which is far too small for a number that has wrapped around.
-/
import Mathlib.Data.List.TakeWhile
import JavaScriptCore.Json.Lexer

namespace JavaScriptCore.Yarr

open List
open Json (isASCIIDigit)

/-! ## 1. The parser -/

def peekIsDigit : List Nat → Bool
  | [] => false
  | c :: _ => isASCIIDigit c

/-- The loop of `consumeNumber`. -/
def consumeDigits : Nat → List Nat → Nat × List Nat
  | n, [] => (n, [])
  | n, c :: s =>
    let newValue := (n * 10 + (c - 0x30)) % 2 ^ 32
    if isASCIIDigit c ∧ newValue ≥ n then consumeDigits newValue s else (n, c :: s)

/-- `consumeNumber`, in front of a digit. -/
def consumeNumber : List Nat → Nat × List Nat
  | [] => (0, [])
  | c :: s => consumeDigits (c - 0x30) s

def isASCIIOctalDigit (c : Nat) : Bool := 0x30 ≤ c && c ≤ 0x37

/-- The loop of `consumeOctal`. -/
def consumeOctalDigits : Nat → List Nat → Nat × List Nat
  | n, [] => (n, [])
  | n, c :: s =>
    if n < 32 ∧ isASCIIOctalDigit c then consumeOctalDigits (n * 8 + (c - 0x30)) s else (n, c :: s)

/-- `consumeOctal`, in front of an octal digit. -/
def consumeOctal : List Nat → Nat × List Nat
  | [] => (0, [])
  | c :: s => consumeOctalDigits (c - 0x30) s

def tryConsume (ch : Nat) : List Nat → Option (List Nat)
  | [] => none
  | c :: s => if c = ch then some s else none

def quantifyInfinite : Nat := 2 ^ 32 - 1

inductive ErrorCode where
  | QuantifierOutOfOrder
  | QuantifierWithoutAtom
  | QuantifierTooLarge
  deriving DecidableEq

/-- The arguments of `quantifyAtom`. -/
structure Quantity where
  min : Nat
  max : Nat
  greedy : Bool
  deriving DecidableEq

/-- `parseQuantifier`: the call of `quantifyAtom`, or an error. -/
def parseQuantifier (lastTokenWasAnAtom : Bool) (min max : Nat) (s : List Nat) :
    Except ErrorCode Quantity × List Nat :=
  if min = 2 ^ 32 - 1 then (.error .QuantifierTooLarge, s)
  else if lastTokenWasAnAtom then
    match tryConsume 0x3F s with
    | some s => (.ok ⟨min, max, false⟩, s)
    | none => (.ok ⟨min, max, true⟩, s)
  else (.error .QuantifierWithoutAtom, s)

/-- The counts behind a `{`, without the closing brace. -/
def consumeCounts (s : List Nat) : (Nat × Nat) × List Nat :=
  let (min, s) := consumeNumber s
  match tryConsume 0x2C s with
  | some s =>
    if peekIsDigit s then
      let (max, s) := consumeNumber s
      ((min, max), s)
    else ((min, quantifyInfinite), s)
  | none => ((min, min), s)

/-- `parseTokens` behind a `{`.  If there is no quantifier the brace is an ordinary character. -/
def parseBraces (lastTokenWasAnAtom : Bool) (s : List Nat) :
    Option (Except ErrorCode Quantity × List Nat) :=
  if peekIsDigit s then
    let ((min, max), s) := consumeCounts s
    match tryConsume 0x7D s with
    | some s =>
      if min ≤ max then some (parseQuantifier lastTokenWasAnAtom min max s)
      else some (.error .QuantifierOutOfOrder, s)
    | none => none
  else none

/-- What an escape of decimal digits reports to the delegate. -/
inductive EscapedAtom where
  | atomBackReference (subpatternId : Nat)
  | atomPatternCharacter (ch : Nat)
  deriving DecidableEq

/-- `parseEscape` outside of a character class, in front of one of the digits 1 to 9. -/
def parseDecimalEscape (backReferenceLimit : Nat) (s : List Nat) : EscapedAtom × List Nat :=
  let (backReference, rest) := consumeNumber s
  if backReference ≤ backReferenceLimit then (.atomBackReference backReference, rest)
  else if 0x38 ≤ s.headD 0 then (.atomPatternCharacter 0x5C, s)
  else
    let (ch, rest) := consumeOctal s
    (.atomPatternCharacter ch, rest)

/-! ## 2. What is written -/

/-- The number that the digits say. -/
def decimalValue (digits : List Nat) : Nat := digits.foldl (fun n c => n * 10 + (c - 0x30)) 0

/-- The digits at the cursor. -/
def digitsAt (s : List Nat) : List Nat := s.takeWhile isASCIIDigit

/-- **The digit `d` behind `q` slips through**: the value passes 2 ^ 32, and what is left of it is
not smaller than before. -/
def Slips (q : List Nat) (d : Nat) : Prop :=
  decimalValue q < 2 ^ 32 ∧ 2 ^ 32 ≤ decimalValue (q ++ [d]) ∧
    decimalValue q ≤ decimalValue (q ++ [d]) % 2 ^ 32

/-- None of the digits slips through. -/
def NeverSlips (digits : List Nat) : Prop := ∀ q d, q ++ [d] <+: digits → ¬ Slips q d

/-- The digits of the numbers in braces: one number, or two with a comma between them, of which the
second may be missing. -/
def numbersInBraces (s : List Nat) : List (List Nat) :=
  match tryConsume 0x2C (s.dropWhile isASCIIDigit) with
  | some rest => [digitsAt s, digitsAt rest]
  | none => [digitsAt s]

/-- The counts that the braces ask for. -/
def countsWritten : List (List Nat) → Nat × Nat
  | [n, []] => (decimalValue n, quantifyInfinite)
  | [n, m] => (decimalValue n, decimalValue m)
  | n :: _ => (decimalValue n, decimalValue n)
  | [] => (0, 0)

section

variable {p s : List Nat} {c : Nat}

theorem decimalValue_concat (p : List Nat) (c : Nat) :
    decimalValue (p ++ [c]) = decimalValue p * 10 + (c - 0x30) := by
  rw [decimalValue, foldl_append, foldl_cons, foldl_nil, decimalValue]

theorem decimalValue_le_append (p s : List Nat) : decimalValue p ≤ decimalValue (p ++ s) := by
  induction s generalizing p with
  | nil => rw [append_nil]
  | cons c s ih =>
    have hstep : decimalValue p ≤ decimalValue (p ++ [c]) := by
      rw [decimalValue_concat]
      omega
    rw [← singleton_append, ← append_assoc]
    exact hstep.trans (ih (p ++ [c]))

theorem digitsAt_cons_of_digit (hc : isASCIIDigit c) : digitsAt (c :: s) = c :: digitsAt s :=
  takeWhile_cons_of_pos hc

theorem digitsAt_cons_of_not_digit (hc : ¬ isASCIIDigit c) : digitsAt (c :: s) = [] :=
  takeWhile_cons_of_neg hc

theorem digitsAt_of_not_peek (h : peekIsDigit s = false) : digitsAt s = [] := by
  cases s with
  | nil => rfl
  | cons c s => exact digitsAt_cons_of_not_digit (ne_true_of_eq_false h)

/-- Digits in front of something else are the digits at the cursor. -/
theorem digitsAt_append {read rest : List Nat} (hread : ∀ c ∈ read, isASCIIDigit c)
    (hrest : peekIsDigit rest = false) : digitsAt (read ++ rest) = read := by
  rw [digitsAt, takeWhile_append_of_pos hread]
  exact (congrArg (read ++ ·) (digitsAt_of_not_peek hrest)).trans (append_nil read)

theorem neverSlips_nil : NeverSlips [] := fun q d h => absurd h.length_le (by simp)

/-! ## 3. The loop -/

/-- **What the loop computes** behind the digits `p`: the number of all digits, modulo 2 ^ 32. -/
theorem consumeDigits_spec (p s : List Nat) :
    ∃ read, s = read ++ (consumeDigits (decimalValue p % 2 ^ 32) s).2 ∧
      (∀ c ∈ read, isASCIIDigit c) ∧
      (consumeDigits (decimalValue p % 2 ^ 32) s).1 = decimalValue (p ++ read) % 2 ^ 32 := by
  induction s generalizing p with
  | nil => exact ⟨[], rfl, by simp, by rw [append_nil]; rfl⟩
  | cons c s ih =>
    rw [consumeDigits]
    split
    · next hgo =>
      have hvalue : (decimalValue p % 2 ^ 32 * 10 + (c - 0x30)) % 2 ^ 32 =
          decimalValue (p ++ [c]) % 2 ^ 32 := by
        rw [decimalValue_concat]
        omega
      rw [hvalue]
      obtain ⟨read, hread, hdigits, hnumber⟩ := ih (p ++ [c])
      refine ⟨c :: read, congrArg (cons c) hread, forall_mem_cons.mpr ⟨hgo.1, hdigits⟩, ?_⟩
      rw [hnumber, append_assoc, singleton_append]
    · exact ⟨[], rfl, by simp, by rw [append_nil]⟩

/-- The number is the one that the digits say that have been read. -/
def ExactBehind (p s : List Nat) (result : Nat × List Nat) : Prop :=
  ∃ read, s = read ++ result.2 ∧ result.1 = decimalValue (p ++ read)

/-- A turn of the loop moves a digit from the text to the digits read. -/
theorem exactBehind_cons {result : Nat × List Nat} (hlength : result.2.length ≤ s.length) :
    ExactBehind p (c :: s) result ↔ ExactBehind (p ++ [c]) s result := by
  constructor
  · rintro ⟨read, hread, hnumber⟩
    cases read with
    | nil =>
      have := congrArg length hread
      simp only [nil_append, length_cons] at this
      omega
    | cons d read =>
      obtain ⟨rfl, hs⟩ := cons.inj hread
      exact ⟨read, hs, by rw [hnumber, append_assoc, singleton_append]⟩
  · rintro ⟨read, hread, hnumber⟩
    refine ⟨c :: read, congrArg (cons c) hread, ?_⟩
    rw [hnumber, append_assoc, singleton_append]

theorem length_consumeDigits_le (n : Nat) (s : List Nat) :
    (consumeDigits n s).2.length ≤ s.length := by
  induction s generalizing n with
  | nil => exact Nat.le_refl 0
  | cons c s ih =>
    rw [consumeDigits]
    split
    · exact (ih _).trans (Nat.le_succ _)
    · exact Nat.le_refl _

/-- Once a digit has slipped through, the number is too small for ever. -/
theorem not_exactBehind_of_le (hp : 2 ^ 32 ≤ decimalValue p) :
    ¬ ExactBehind p s (consumeDigits (decimalValue p % 2 ^ 32) s) := by
  rintro ⟨read, hread, hnumber⟩
  obtain ⟨read', hread', -, hnumber'⟩ := consumeDigits_spec p s
  obtain rfl : read = read' := append_cancel_right (hread.symm.trans hread')
  have hle := decimalValue_le_append p read
  rw [hnumber] at hnumber'
  omega

/-- The first digit slips, or one behind it does. -/
theorem forall_not_slips_cons (hc : isASCIIDigit c) :
    (∀ q d, q ++ [d] <+: digitsAt (c :: s) → ¬ Slips (p ++ q) d) ↔
      ¬ Slips p c ∧ ∀ q d, q ++ [d] <+: digitsAt s → ¬ Slips (p ++ [c] ++ q) d := by
  rw [digitsAt_cons_of_digit hc]
  refine ⟨fun h => ⟨?_, fun q d hq => ?_⟩, fun ⟨hfirst, hrest⟩ q d hq => ?_⟩
  · have := h [] c (prefix_append [c] (digitsAt s))
    rwa [append_nil] at this
  · have := h (c :: q) d ((prefix_cons_inj c).2 hq)
    rwa [← singleton_append, ← append_assoc] at this
  · cases q with
    | nil =>
      obtain ⟨rfl, -⟩ := cons_prefix_cons.1 hq
      rwa [append_nil]
    | cons e q =>
      obtain ⟨rfl, hprefix⟩ := cons_prefix_cons.1 hq
      rw [← singleton_append, ← append_assoc]
      exact hrest q d hprefix

/-- **The loop is exact as long as no digit slips through**, and only then. -/
theorem consumeDigits_exact_iff (hp : decimalValue p < 2 ^ 32) :
    ExactBehind p s (consumeDigits (decimalValue p) s) ↔
      ∀ q d, q ++ [d] <+: digitsAt s → ¬ Slips (p ++ q) d := by
  induction s generalizing p with
  | nil =>
    refine ⟨fun _ q d h => absurd h.length_le (by simp [digitsAt]), fun _ => ⟨[], rfl, ?_⟩⟩
    rw [append_nil]
    rfl
  | cons c s ih =>
    by_cases hc : isASCIIDigit c
    · have hnew : (decimalValue p * 10 + (c - 0x30)) % 2 ^ 32 =
          decimalValue (p ++ [c]) % 2 ^ 32 := by
        rw [decimalValue_concat]
      rw [forall_not_slips_cons hc, consumeDigits, hnew]
      by_cases hsmall : decimalValue (p ++ [c]) < 2 ^ 32
      · -- no overflow: the loop goes on
        have hle := decimalValue_le_append p [c]
        rw [Nat.mod_eq_of_lt hsmall, if_pos ⟨hc, hle⟩,
          exactBehind_cons (length_consumeDigits_le _ s), ih hsmall]
        exact (and_iff_right fun h => absurd h.2.1 (by omega)).symm
      · rw [Nat.not_lt] at hsmall
        by_cases hslip : decimalValue p ≤ decimalValue (p ++ [c]) % 2 ^ 32
        · rw [if_pos ⟨hc, hslip⟩, exactBehind_cons (length_consumeDigits_le _ s)]
          exact ⟨fun h => absurd h (not_exactBehind_of_le hsmall),
            fun h => absurd ⟨hp, hsmall, hslip⟩ h.1⟩
        · -- the loop stops, and behind this digit nothing can slip
          rw [if_neg fun h => hslip h.2]
          refine ⟨fun _ => ⟨fun h => hslip h.2.2, fun q d _ h => ?_⟩, fun _ => ⟨[], rfl, ?_⟩⟩
          · have := decimalValue_le_append (p ++ [c]) q
            have := h.1
            omega
          · rw [append_nil]
    · rw [consumeDigits, if_neg fun h => hc h.1, digitsAt_cons_of_not_digit hc]
      refine ⟨fun _ q d h => absurd h.length_le (by simp), fun _ => ⟨[], rfl, ?_⟩⟩
      rw [append_nil]

/-- Below 2 ^ 32 the loop reads all digits. -/
theorem consumeDigits_of_lt (h : decimalValue (p ++ digitsAt s) < 2 ^ 32) :
    (consumeDigits (decimalValue p) s).1 = decimalValue (p ++ digitsAt s) := by
  induction s generalizing p with
  | nil => rw [digitsAt, takeWhile_nil, append_nil]; rfl
  | cons c s ih =>
    by_cases hc : isASCIIDigit c
    · have hmove : p ++ digitsAt (c :: s) = p ++ [c] ++ digitsAt s := by
        rw [digitsAt_cons_of_digit hc, append_assoc, singleton_append]
      rw [hmove] at h ⊢
      have hsmall := (decimalValue_le_append (p ++ [c]) (digitsAt s)).trans_lt h
      have hle := decimalValue_le_append p [c]
      rw [consumeDigits, ← decimalValue_concat, Nat.mod_eq_of_lt hsmall, if_pos ⟨hc, hle⟩, ih h]
    · rw [consumeDigits, if_neg fun h => hc h.1, digitsAt_cons_of_not_digit hc, append_nil]

theorem le_consumeDigits (n : Nat) (s : List Nat) : n ≤ (consumeDigits n s).1 := by
  induction s generalizing n with
  | nil => exact Nat.le_refl n
  | cons c s ih =>
    rw [consumeDigits]
    split
    · next hgo => exact hgo.2.trans (ih _)
    · exact Nat.le_refl n

/-- **A small result is no accident**: the values grow, so none of them has wrapped around, and no
digit is left. -/
theorem decimalValue_lt_of_consumeDigits
    (h : (consumeDigits (decimalValue p) s).1 < 429496729) :
    decimalValue (p ++ digitsAt s) < 2 ^ 32 := by
  induction s generalizing p with
  | nil =>
    rw [digitsAt, takeWhile_nil, append_nil]
    exact (le_consumeDigits _ _).trans_lt (h.trans (by decide))
  | cons c s ih =>
    have hp := (le_consumeDigits (decimalValue p) (c :: s)).trans_lt h
    by_cases hc : isASCIIDigit c
    · have hdigit : c - 0x30 ≤ 9 := by
        simp only [isASCIIDigit, Bool.and_eq_true, decide_eq_true_eq] at hc
        omega
      have hsmall : decimalValue (p ++ [c]) < 2 ^ 32 := by
        rw [decimalValue_concat]
        omega
      have hle := decimalValue_le_append p [c]
      rw [consumeDigits, ← decimalValue_concat, Nat.mod_eq_of_lt hsmall, if_pos ⟨hc, hle⟩] at h
      rw [digitsAt_cons_of_digit hc, ← singleton_append, ← append_assoc]
      exact ih h
    · rw [digitsAt_cons_of_not_digit hc, append_nil]
      exact hp.trans (by decide)

/-! ## 4. Numbers -/

theorem decimalValue_digit (hc : isASCIIDigit c) : decimalValue [c] = c - 0x30 ∧
    c - 0x30 < 2 ^ 32 := by
  simp only [isASCIIDigit, Bool.and_eq_true, decide_eq_true_eq] at hc
  refine ⟨?_, by omega⟩
  simp only [decimalValue, foldl_cons, foldl_nil]
  omega

/-- `consumeNumber` is its loop behind the first digit. -/
theorem consumeNumber_cons (hc : isASCIIDigit c) :
    consumeNumber (c :: s) = consumeDigits (decimalValue [c]) s := by
  rw [consumeNumber, (decimalValue_digit hc).1]

/-- **`consumeNumber` returns the number of the digits it has read** if no digit slips through. -/
theorem consumeNumber_exactBehind_iff (hs : peekIsDigit s) :
    ExactBehind [] s (consumeNumber s) ↔ NeverSlips (digitsAt s) := by
  obtain _ | ⟨c, s⟩ := s
  · cases hs
  have hc : isASCIIDigit c := hs
  obtain ⟨hvalue, hlt⟩ := decimalValue_digit hc
  rw [consumeNumber_cons hc, exactBehind_cons (length_consumeDigits_le _ s), nil_append,
    consumeDigits_exact_iff (hvalue ▸ hlt), digitsAt_cons_of_digit hc]
  refine ⟨fun h q d hq => ?_, fun h q d hq => h (c :: q) d ((prefix_cons_inj c).2 hq)⟩
  cases q with
  | nil =>
    -- one digit is no large number
    obtain ⟨rfl, -⟩ := cons_prefix_cons.1 hq
    exact fun hslip => absurd hslip.2.1 (by rw [nil_append, hvalue]; omega)
  | cons e q =>
    obtain ⟨rfl, hprefix⟩ := cons_prefix_cons.1 hq
    exact h q d hprefix

/-- In front of something else than a digit `consumeNumber` has read all digits, and then it is
exact if the number itself does not slip. -/
theorem consumeNumber_eq_iff (hs : peekIsDigit s)
    (hrest : peekIsDigit (consumeNumber s).2 = false) :
    ((consumeNumber s).1 = decimalValue (digitsAt s) ↔ NeverSlips (digitsAt s)) ∧
      s.dropWhile isASCIIDigit = (consumeNumber s).2 := by
  obtain _ | ⟨c, s⟩ := s
  · cases hs
  have hc : isASCIIDigit c := hs
  obtain ⟨read, hread, hdigits, -⟩ := consumeDigits_spec [c] s
  rw [Nat.mod_eq_of_lt ((decimalValue_digit hc).1 ▸ (decimalValue_digit hc).2),
    ← consumeNumber_cons hc] at hread
  have hsplit : c :: s = (c :: read) ++ (consumeNumber (c :: s)).2 := congrArg (cons c) hread
  have hall : digitsAt (c :: s) = c :: read := by
    rw [hsplit]
    exact digitsAt_append (forall_mem_cons.2 ⟨hc, hdigits⟩) hrest
  have hdrop : digitsAt (c :: s) ++ (c :: s).dropWhile isASCIIDigit = c :: s :=
    takeWhile_append_dropWhile
  refine ⟨?_, append_cancel_left (hdrop.trans (hall ▸ hsplit))⟩
  rw [← consumeNumber_exactBehind_iff hs, hall]
  refine ⟨fun h => ⟨c :: read, hsplit, h⟩, fun ⟨read', hread', hnumber⟩ => ?_⟩
  rwa [append_cancel_right (hread'.symm.trans hsplit)] at hnumber

/-- A comma and a closing brace are no digits. -/
theorem not_peek_of_tryConsume {ch : Nat} {rest : List Nat} (hch : ¬ isASCIIDigit ch)
    (h : tryConsume ch s = some rest) : peekIsDigit s = false := by
  obtain _ | ⟨c, s⟩ := s
  · cases h
  rw [tryConsume] at h
  split_ifs at h with hc
  rw [peekIsDigit, hc]
  exact Bool.eq_false_iff.2 hch

theorem quantity_of_parseQuantifier {atom : Bool} {min max : Nat} {quantity : Quantity}
    {rest : List Nat} (h : parseQuantifier atom min max s = (.ok quantity, rest)) :
    quantity.min = min ∧ quantity.max = max := by
  rw [parseQuantifier] at h
  split_ifs at h
  · cases h
  · split at h <;> cases h <;> exact ⟨rfl, rfl⟩
  · cases h

/-- The counts that are read are those in the braces if none of them slips. -/
theorem consumeCounts_eq_iff (hs : peekIsDigit s)
    (hrest : peekIsDigit (consumeCounts s).2 = false) :
    (consumeCounts s).1 = countsWritten (numbersInBraces s) ↔
      ∀ digits ∈ numbersInBraces s, NeverSlips digits := by
  cases hcomma : tryConsume 0x2C (consumeNumber s).2 with
  | none =>
    have hcounts : consumeCounts s =
        (((consumeNumber s).1, (consumeNumber s).1), (consumeNumber s).2) := by
      simp only [consumeCounts, hcomma]
    rw [hcounts] at hrest ⊢
    obtain ⟨hmin, hdrop⟩ := consumeNumber_eq_iff hs hrest
    have hnumbers : numbersInBraces s = [digitsAt s] := by rw [numbersInBraces, hdrop, hcomma]
    rw [hnumbers, forall_mem_singleton, ← hmin]
    exact Prod.mk.injEq .. ▸ and_self_iff
  | some t =>
    obtain ⟨hmin, hdrop⟩ := consumeNumber_eq_iff hs (not_peek_of_tryConsume (by decide) hcomma)
    have hnumbers : numbersInBraces s = [digitsAt s, digitsAt t] := by
      rw [numbersInBraces, hdrop, hcomma]
    rw [hnumbers, forall_mem_cons, forall_mem_singleton, ← hmin]
    by_cases ht : peekIsDigit t
    · have hcounts : consumeCounts s =
          (((consumeNumber s).1, (consumeNumber t).1), (consumeNumber t).2) := by
        simp only [consumeCounts, hcomma, if_pos ht]
      rw [hcounts] at hrest ⊢
      obtain ⟨hmax, -⟩ := consumeNumber_eq_iff ht hrest
      obtain _ | ⟨d, t⟩ := t
      · cases ht
      rw [← hmax, digitsAt_cons_of_digit ht, countsWritten, Prod.mk.injEq]
      simp
    · have hcounts : consumeCounts s = (((consumeNumber s).1, quantifyInfinite), t) := by
        simp only [consumeCounts, hcomma, if_neg ht]
      rw [hcounts, digitsAt_of_not_peek (Bool.eq_false_iff.2 ht), countsWritten, Prod.mk.injEq]
      exact and_congr_right fun _ => iff_of_true rfl neverSlips_nil

/-- **The counts of a quantifier are those in the braces** if none of them slips. -/
theorem parseBraces_eq_iff {atom : Bool} {quantity : Quantity} {rest : List Nat}
    (h : parseBraces atom s = some (.ok quantity, rest)) :
    (quantity.min, quantity.max) = countsWritten (numbersInBraces s) ↔
      ∀ digits ∈ numbersInBraces s, NeverSlips digits := by
  rw [parseBraces] at h
  split_ifs at h with hs
  cases hbrace : tryConsume 0x7D (consumeCounts s).2 with
  | none => simp [hbrace] at h
  | some t =>
    simp only [hbrace] at h
    split_ifs at h
    · obtain ⟨hmin, hmax⟩ := quantity_of_parseQuantifier (Option.some.inj h)
      rw [hmin, hmax]
      exact consumeCounts_eq_iff hs (not_peek_of_tryConsume (by decide) hbrace)
    · cases h

/-- **A back reference has the number that is written** if this is below 2 ^ 32, and whenever it is
one of fewer than 429496729 groups. -/
theorem backReference_eq_iff (hs : peekIsDigit s) {limit n : Nat} {rest : List Nat}
    (h : parseDecimalEscape limit s = (.atomBackReference n, rest)) :
    (n = decimalValue (digitsAt s) ↔ decimalValue (digitsAt s) < 2 ^ 32) ∧
      (limit < 429496729 → n = decimalValue (digitsAt s)) := by
  obtain _ | ⟨c, s⟩ := s
  · cases hs
  have hc : isASCIIDigit c := hs
  by_cases hlimit : (consumeNumber (c :: s)).1 ≤ limit
  · simp only [parseDecimalEscape, if_pos hlimit, Prod.mk.injEq,
      EscapedAtom.atomBackReference.injEq]
      at h
    obtain ⟨rfl, -⟩ := h
    rw [consumeNumber_cons hc] at hlimit ⊢
    have hread : decimalValue (digitsAt (c :: s)) < 2 ^ 32 →
        (consumeDigits (decimalValue [c]) s).1 = decimalValue (digitsAt (c :: s)) := by
      rw [digitsAt_cons_of_digit hc]
      exact consumeDigits_of_lt (p := [c])
    refine ⟨⟨fun h => ?_, hread⟩, fun hsmall => hread ?_⟩
    · obtain ⟨read, -, -, hnumber⟩ := consumeDigits_spec [c] s
      rw [Nat.mod_eq_of_lt ((decimalValue_digit hc).1 ▸ (decimalValue_digit hc).2)] at hnumber
      omega
    · rw [digitsAt_cons_of_digit hc]
      exact decimalValue_lt_of_consumeDigits (hlimit.trans_lt hsmall)
  · simp only [parseDecimalEscape, if_neg hlimit] at h
    split_ifs at h <;> simp at h

/-- **When the numbers of a pattern are read as they are written.**  What `consumeNumber` returns is
the number of the digits that it has read exactly if none of the digits at the cursor slips through.
The counts that `quantifyAtom` gets are those in the braces under the same condition on each of
them.  The number of a back reference is the one that is written exactly if that is below 2 ^ 32;
with a limit on the groups as the second pass over a pattern has one, it always is. -/
theorem numbers_exact_iff {s : List Nat} (hs : peekIsDigit s) :
    ((∃ read, s = read ++ (consumeNumber s).2 ∧ (consumeNumber s).1 = decimalValue read) ↔
      NeverSlips (digitsAt s)) ∧
    (∀ atom quantity rest, parseBraces atom s = some (.ok quantity, rest) →
      ((quantity.min, quantity.max) = countsWritten (numbersInBraces s) ↔
        ∀ digits ∈ numbersInBraces s, NeverSlips digits)) ∧
    ∀ limit n rest, parseDecimalEscape limit s = (.atomBackReference n, rest) →
      (n = decimalValue (digitsAt s) ↔ decimalValue (digitsAt s) < 2 ^ 32) ∧
        (limit < 429496729 → n = decimalValue (digitsAt s)) :=
  ⟨consumeNumber_exactBehind_iff hs, fun _ _ _ => parseBraces_eq_iff,
    fun _ _ _ => backReference_eq_iff hs⟩

end

/-- `{12}` and `\12`. -/
theorem numbers_exact_twelve :
    parseBraces true [0x31, 0x32, 0x7D] = some (.ok ⟨12, 12, true⟩, []) ∧
      ((12, 12) = countsWritten (numbersInBraces [0x31, 0x32, 0x7D]) ↔
        ∀ digits ∈ numbersInBraces [0x31, 0x32, 0x7D], NeverSlips digits) ∧
      parseDecimalEscape 20 [0x31, 0x32, 0x7D] = (.atomBackReference 12, [0x7D]) ∧
      12 = decimalValue (digitsAt [0x31, 0x32, 0x7D]) :=
  ⟨rfl, (numbers_exact_iff rfl).2.1 true ⟨12, 12, true⟩ [] rfl, rfl,
    ((numbers_exact_iff rfl).2.2 20 12 [0x7D] rfl).2 (by decide)⟩

/-- **`/a{5000000000}/` asks for 705032704 characters**, and not for the 5000000000 that it says. -/
theorem parseBraces_wraps :
    parseBraces true [0x35, 0x30, 0x30, 0x30, 0x30, 0x30, 0x30, 0x30, 0x30, 0x30, 0x7D]
      = some (.ok ⟨705032704, 705032704, true⟩, []) ∧
    countsWritten (numbersInBraces
      [0x35, 0x30, 0x30, 0x30, 0x30, 0x30, 0x30, 0x30, 0x30, 0x30, 0x7D])
      = (5000000000, 5000000000) := ⟨rfl, rfl⟩

end JavaScriptCore.Yarr
