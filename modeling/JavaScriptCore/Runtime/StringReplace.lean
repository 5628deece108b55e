/-
# `String.prototype.replace` with a regular expression and a string

`replaceUsingRegExpSearch` of `StringPrototype.cpp`, for a replacement that is not a function.  It
collects the ranges of the source between the matches and the expanded replacements, and puts them
together at the end; `removeUsingRegExpSearch` is the way for all matches and an empty replacement.

A string is stored with 8 or with 16 bits for a character.  The regular expression is the function
`performMatch`, and the number of its subpatterns.  `allocate` says whether there is memory for a
string of some length.  Positions and lengths in the source are not negative, and are natural
numbers here; a buffer that is filled from its beginning on is the list of what has been written.
-/
import Mathlib.Algebra.GroupWithZero.Nat
import JavaScriptCore.Lib.Iteration

namespace JavaScriptCore.Runtime.StringReplace

/-! ## 1. Strings -/

/-- A string with its characters. -/
inductive WTFString where
  | latin1 (characters8 : List UInt8)
  | utf16 (characters16 : List UInt16)
  deriving DecidableEq, Repr

namespace WTFString

/-- The code units. -/
def units : WTFString → List UInt16
  | .latin1 characters => characters.map UInt8.toUInt16
  | .utf16 characters => characters

def is8Bit : WTFString → Bool
  | .latin1 _ => true
  | .utf16 _ => false

def length (s : WTFString) : Nat := s.units.length

/-- Read only if `is8Bit`. -/
def characters8 : WTFString → List UInt8
  | .latin1 characters => characters
  | .utf16 _ => []

/-- Read only if not `is8Bit`. -/
def characters16 : WTFString → List UInt16
  | .latin1 _ => []
  | .utf16 characters => characters

/-- `operator[]`. -/
def get (s : WTFString) (i : Nat) : UInt16 := s.units.getD i 0

/-- `find`, from `start` on; `none` is `notFound`. -/
def find (s : WTFString) (c : UInt16) (start : Nat) : Option Nat :=
  ((s.units.drop start).findIdx? (· == c)).map (start + ·)

/-- The string that `StringImpl::create` makes of a part of another. -/
def substring (s : WTFString) (position length : Nat) : WTFString :=
  match s with
  | .latin1 characters => .latin1 ((characters.drop position).take length)
  | .utf16 characters => .utf16 ((characters.drop position).take length)

end WTFString

/-- The character types of the templates. -/
class CharType (α : Type) where
  getCharactersWithUpconvert : WTFString → List α
  adopt : List α → WTFString

instance : CharType UInt8 := ⟨WTFString.characters8, .latin1⟩

instance : CharType UInt16 := ⟨WTFString.units, .utf16⟩

/-! ## 2. Matches -/

/-- A match, with the spans of the captures that are defined. -/
structure Match where
  start : Nat
  stop : Nat
  captures : Nat → Option (Nat × Nat)

namespace Match

/-- `empty`. -/
def isEmpty (m : Match) : Bool := m.start == m.stop

/-- `ovector`: the span of the match, and behind it those of the captures. -/
def ovector (m : Match) (i : Nat) : Int :=
  if i = 0 then m.start
  else if i = 1 then m.stop
  else
    match m.captures (i / 2) with
    | none => -1
    | some (start, stop) => if i % 2 = 0 then start else stop

end Match

/-! ## 3. `substituteBackreferences` -/

def isDigit (c : UInt16) : Bool := 48 ≤ c && c ≤ 57

/-- The digit that a character is. -/
def digit (c : UInt16) : Nat := c.toNat - 48

section Substitute

variable {α : Type} [CharType α] (replacement source : WTFString) (m : Match) (numSubpatterns : Nat)

/-- The index of the capture for the digit `ref` behind the dollar sign at `i`, and `advance`. -/
def backrefIndex (i : Nat) (ref : UInt16) : Option (Nat × Nat) :=
  let index := digit ref
  if index > numSubpatterns then none
  else
    let (index, advance) :=
      if replacement.length > i + 2 then
        let ref := replacement.get (i + 2)
        if isDigit ref then
          let index := 10 * index + digit ref
          -- fall back to the 1-digit reference
          if index > numSubpatterns then (index / 10, 0) else (index, 1)
        else (index, 0)
      else (index, 0)
    if index = 0 then none else some (index, advance)

/-- `backrefStart`, `backrefLength` and `advance` for the character `ref` behind the dollar sign at
`i`. -/
def backreference (i : Nat) (ref : UInt16) : Option (Int × Int × Nat) :=
  -- the four characters are `&`, the grave accent, the apostrophe and the digits
  if ref = 38 then some (m.ovector 0, m.ovector 1 - m.ovector 0, 0)
  else if ref = 96 then some (0, m.ovector 0, 0)
  else if ref = 39 then some (m.ovector 1, source.length - m.ovector 1, 0)
  else if isDigit ref then
    (backrefIndex replacement numSubpatterns i ref).map fun (index, advance) =>
      (m.ovector (2 * index), m.ovector (2 * index + 1) - m.ovector (2 * index), advance)
  else none

/-- The state of the loop of `substituteBackreferencesSlow`. -/
structure Substitution (α : Type) where
  i : Nat
  offset : Nat
  substitutedReplacement : List α

/-- `append(characters + position, length)`. -/
def slice (s : WTFString) (position length : Nat) : List α :=
  ((CharType.getCharactersWithUpconvert s).drop position).take length

/-- The body of the loop behind the first test. -/
def substituteAt (s : Substitution α) : Substitution α :=
  let ref := replacement.get (s.i + 1)
  if ref = 36 then
    { i := s.i + 1
      offset := s.i + 2
      substitutedReplacement :=
        s.substitutedReplacement ++ slice replacement s.offset (s.i + 1 - s.offset) }
  else
    match backreference replacement source m numSubpatterns s.i ref with
    | none => s
    | some (backrefStart, backrefLength, advance) =>
      { i := s.i + 1 + advance
        offset := s.i + 2 + advance
        substitutedReplacement :=
          s.substitutedReplacement ++ slice replacement s.offset (s.i - s.offset) ++
          if backrefStart ≥ 0 then slice source backrefStart.toNat backrefLength.toNat else [] }

/-- One turn of the loop, with the test at its end. -/
def substituteTurn (s : Substitution α) : Substitution α ⊕ Substitution α :=
  if s.i + 1 = replacement.length then .inr s
  else
    let s := substituteAt replacement source m numSubpatterns s
    match replacement.find 36 (s.i + 1) with
    | none => .inr s
    | some i => .inl { s with i }

variable (α) in
def substituteBackreferencesSlow (i : Nat) : Option WTFString :=
  (Iteration.run (substituteTurn replacement source m numSubpatterns) (replacement.length + 1)
    (⟨i, 0, []⟩ : Substitution α)).map fun s =>
      CharType.adopt (s.substitutedReplacement ++
        slice replacement s.offset (replacement.length - s.offset))

def substituteBackreferences : Option WTFString :=
  match replacement.find 36 0 with
  | none => some replacement
  | some i =>
    if replacement.is8Bit && source.is8Bit then
      substituteBackreferencesSlow UInt8 replacement source m numSubpatterns i
    else substituteBackreferencesSlow UInt16 replacement source m numSubpatterns i

end Substitute

/-! ## 4. Putting the parts together -/

/-- `std::numeric_limits<int>::max()`. -/
def maxInt : Nat := 2 ^ 31 - 1

/-- The strings whose lengths and positions are values of an `int`.  A string can be longer, up to
`UINT_MAX` characters, and the source then converts its positions to negative numbers.  The naturals
of this model are the numbers of the source as long as the strings fit. -/
def FitsInt (s : WTFString) : Prop := s.length ≤ maxInt

/-- `position` and `length` are `int`s, as are `sourceSize`, `totalLength`, `bufferPos` and the
`offset` of `substituteBackreferencesSlow`. -/
structure StringRange where
  position : Nat
  length : Nat

section Splice

variable (allocate : Nat → Bool)

/-- The way for one range alone. -/
def singleRange (source : WTFString) (range : StringRange) : WTFString :=
  if range.position = 0 && range.length ≥ source.length then source
  else source.substring range.position (min source.length range.length)

/-- The buffer of a loop over ranges. -/
def fillRanges {α : Type} (sourceData : List α) (substringRanges : List StringRange) : List α :=
  substringRanges.foldl
    (fun buffer range =>
      if range.length ≠ 0 then buffer ++ (sourceData.drop range.position).take range.length
      else buffer) []

def jsSpliceSubstrings (source : WTFString) (substringRanges : List StringRange) :
    Except String WTFString :=
  match substringRanges with
  | [range] => .ok (singleRange source range)
  | _ =>
    let totalLength := (substringRanges.map StringRange.length).sum
    if totalLength = 0 then .ok (.latin1 [])
    else if !allocate totalLength then .error "Out of memory"
    else if source.is8Bit then .ok (.latin1 (fillRanges source.characters8 substringRanges))
    else .ok (.utf16 (fillRanges source.characters16 substringRanges))

/-- The buffer of a loop over ranges and separators; `range` and `separator` give their characters.
-/
def fillWithSeparators {α : Type} (range : StringRange → List α) (separator : WTFString → List α)
    (substringRanges : List StringRange) (separators : List WTFString) : List α :=
  (List.range (max substringRanges.length separators.length)).foldl
    (fun buffer i =>
      let buffer :=
        match substringRanges[i]? with
        | some r => if r.length ≠ 0 then buffer ++ range r else buffer
        | none => buffer
      match separators[i]? with
      | some s => if s.length ≠ 0 then buffer ++ separator s else buffer
      | none => buffer) []

def jsSpliceSubstringsWithSeparators (source : WTFString) (substringRanges : List StringRange)
    (separators : List WTFString) : Except String WTFString :=
  match substringRanges, separators with
  | [range], [] => .ok (singleRange source range)
  | _, _ =>
    let totalLength :=
      (substringRanges.map StringRange.length).sum + (separators.map WTFString.length).sum
    let allSeparators8Bit := separators.all fun s => s.length = 0 || s.is8Bit
    if totalLength > maxInt then .error "Out of memory"
    else if totalLength = 0 then .ok (.latin1 [])
    else if !allocate totalLength then .error "Out of memory"
    else if source.is8Bit && allSeparators8Bit then
      .ok (.latin1 (fillWithSeparators
        (fun r => (source.characters8.drop r.position).take r.length) WTFString.characters8
        substringRanges separators))
    else
      .ok (.utf16 (fillWithSeparators
        (fun r =>
          if source.is8Bit then
            ((source.characters8.drop r.position).take r.length).map UInt8.toUInt16
          else (source.characters16.drop r.position).take r.length)
        (fun s => if s.is8Bit then s.characters8.map UInt8.toUInt16 else s.characters16)
        substringRanges separators))

end Splice

/-! ## 5. The loops over the matches -/

section Search

variable (performMatch : Nat → Option Match) (allocate : Nat → Bool) (source : WTFString)

/-- `startPosition` behind a match; `none` if the loop is left. -/
def nextPosition (m : Match) : Option Nat :=
  if m.isEmpty then
    if m.stop + 1 > source.length then none else some (m.stop + 1)
  else some m.stop

/-- The state of the loop of `removeUsingRegExpSearch`. -/
structure Removing where
  lastIndex : Nat
  startPosition : Nat
  sourceRanges : List StringRange

def removeTurn (s : Removing) : Removing ⊕ Removing :=
  match performMatch s.startPosition with
  | none => .inr s
  | some m =>
    let sourceRanges :=
      if s.lastIndex < m.start then s.sourceRanges ++ [⟨s.lastIndex, m.start - s.lastIndex⟩]
      else s.sourceRanges
    match nextPosition source m with
    | none => .inr ⟨m.stop, m.stop + 1, sourceRanges⟩
    | some startPosition => .inl ⟨m.stop, startPosition, sourceRanges⟩

/-- `removeUsingRegExpSearch`.  `none` says that the turns do not suffice. -/
def removeUsingRegExpSearch (turns : Nat) : Option (Except String WTFString) :=
  (Iteration.run (removeTurn performMatch source) turns ⟨0, 0, []⟩).map fun s =>
    if s.lastIndex = 0 then .ok source
    else
      let sourceRanges :=
        if s.lastIndex < source.length then
          s.sourceRanges ++ [⟨s.lastIndex, source.length - s.lastIndex⟩]
        else s.sourceRanges
      jsSpliceSubstrings allocate source sourceRanges

variable (replacementString : WTFString) (numSubpatterns : Nat) (global : Bool)

/-- The state of the loop of `replaceUsingRegExpSearch`. -/
structure Replacing where
  lastIndex : Nat
  startPosition : Nat
  sourceRanges : List StringRange
  replacements : List WTFString

/-- The ranges and the replacements with those for a match. -/
def addReplacement (s : Replacing) (m : Match) : Option (List StringRange × List WTFString) :=
  if s.lastIndex < m.start || replacementString.length ≠ 0 then do
    let replacement ←
      if replacementString.length ≠ 0 then
        substituteBackreferences replacementString source m numSubpatterns
      else some (.latin1 [])
    return (s.sourceRanges ++
      [⟨s.lastIndex, m.start - s.lastIndex⟩], s.replacements ++ [replacement])
  else some (s.sourceRanges, s.replacements)

/-- One turn; the result is `none` if a replacement could not be computed. -/
def replaceTurn (s : Replacing) : Replacing ⊕ Option Replacing :=
  match performMatch s.startPosition with
  | none => .inr (some s)
  | some m =>
    match addReplacement source replacementString numSubpatterns s m with
    | none => .inr none
    | some (sourceRanges, replacements) =>
      match nextPosition source m with
      | none => .inr (some ⟨m.stop, m.stop + 1, sourceRanges, replacements⟩)
      | some startPosition =>
        let s := ⟨m.stop, startPosition, sourceRanges, replacements⟩
        if global then .inl s else .inr (some s)

/-- `replaceUsingRegExpSearch`, for a replacement that is a string. -/
def replaceUsingRegExpSearch (turns : Nat) : Option (Except String WTFString) :=
  if global && replacementString.length = 0 then
    removeUsingRegExpSearch performMatch allocate source turns
  else
    (Iteration.run (replaceTurn performMatch source replacementString numSubpatterns global) turns
      ⟨0, 0, [], []⟩).join.map fun s =>
        if s.lastIndex = 0 && s.replacements.isEmpty then .ok source
        else
          let sourceRanges :=
            if s.lastIndex < source.length then
              s.sourceRanges ++ [⟨s.lastIndex, source.length - s.lastIndex⟩]
            else s.sourceRanges
          jsSpliceSubstringsWithSeparators allocate source sourceRanges s.replacements

end Search

end JavaScriptCore.Runtime.StringReplace
