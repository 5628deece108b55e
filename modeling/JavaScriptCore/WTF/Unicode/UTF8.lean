/-
# Conversion between UTF-8, UTF-16 and Latin-1

The functions of `wtf/unicode/UTF8.cpp`.  A byte, a code unit and a character are their numeric
values.  A pair of pointers into a buffer is the list of elements that are still to be read, or the
list of those already written together with the capacity of the target.

The three conversions are loops that stop at the end of the source, at the first element they cannot
convert, or when the target is full; in the last two cases the source pointer stays before the
element.  A loop is `Iteration.run` of its body, with one turn for every source element and one more
to see the end.

`UChar32` is a 32-bit type.  `readUTF8Sequence` adds up the bytes with their marks and takes off the
marks of a whole sequence at once; the subtraction is that of 32-bit words.
-/
import JavaScriptCore.Lib.Iteration
import JavaScriptCore.Lib.Word

namespace JavaScriptCore.WTF.Unicode

inductive ConversionResult where
  | conversionOK
  | sourceExhausted
  | targetExhausted
  | sourceIllegal
  deriving DecidableEq, Repr

def replacementCharacter : Nat := 0xFFFD

/-! ## 1. Single sequences -/

def isASCII (c : Nat) : Bool := c &&& 0xFFFFFF80 == 0

def inlineUTF8SequenceLengthNonASCII (b0 : Nat) : Nat :=
  if b0 &&& 0xC0 ≠ 0xC0 then 0
  else if b0 &&& 0xE0 = 0xC0 then 2
  else if b0 &&& 0xF0 = 0xE0 then 3
  else if b0 &&& 0xF8 = 0xF0 then 4
  else 0

def inlineUTF8SequenceLength (b0 : Nat) : Nat :=
  if isASCII b0 then 1 else inlineUTF8SequenceLengthNonASCII b0

def UTF8SequenceLength (b0 : Nat) : Nat :=
  if isASCII b0 then 1 else inlineUTF8SequenceLengthNonASCII b0

/-- `decodeUTF8Sequence` of a buffer that ends with a zero; `none` is `-1`. -/
def decodeUTF8Sequence (sequence : List Nat) : Option Nat :=
  let b0 := sequence.getD 0 0
  let b1 := sequence.getD 1 0
  let b2 := sequence.getD 2 0
  let b3 := sequence.getD 3 0
  let b4 := sequence.getD 4 0
  let length := inlineUTF8SequenceLength b0
  if length = 0 then none
  else if length = 1 then
    if b1 ≠ 0 then none else some b0
  else if b1 &&& 0xC0 ≠ 0x80 then none
  else if length = 2 then
    if b2 ≠ 0 then none
    else
      let c := ((b0 &&& 0x1F) <<< 6) ||| (b1 &&& 0x3F)
      if c < 0x80 then none else some c
  else if b2 &&& 0xC0 ≠ 0x80 then none
  else if length = 3 then
    if b3 ≠ 0 then none
    else
      let c := ((b0 &&& 0xF) <<< 12) ||| ((b1 &&& 0x3F) <<< 6) ||| (b2 &&& 0x3F)
      if c < 0x800 then none
      else if c ≥ 0xD800 ∧ c ≤ 0xDFFF then none
      else some c
  else if b3 &&& 0xC0 ≠ 0x80 then none
  else if length = 4 then
    if b4 ≠ 0 then none
    else
      let c := ((b0 &&& 0x7) <<< 18) ||| ((b1 &&& 0x3F) <<< 12) ||| ((b2 &&& 0x3F) <<< 6)
        ||| (b3 &&& 0x3F)
      if c < 0x10000 ∨ c > 0x10FFFF then none else some c
  else none

/-- The test of a third or fourth byte in `isLegalUTF8`. -/
def isLegalTrail (a : Nat) : Bool := !(a < 0x80 || a > 0xBF)

/-- The test of the second byte: the inner `switch`, which has no upper bound to check again but,
for two of the lead bytes, no lower bound either. -/
def isLegalSecond (lead a : Nat) : Bool :=
  if a > 0xBF then false
  else if lead = 0xE0 then !(a < 0xA0)
  else if lead = 0xED then !(a > 0x9F)
  else if lead = 0xF0 then !(a < 0x90)
  else if lead = 0xF4 then !(a > 0x8F)
  else !(a < 0x80)

/-- The tests of the first byte, at `case 1` and behind the `switch`. -/
def isLegalLead (lead : Nat) : Bool := !(lead ≥ 0x80 && lead < 0xC2) && !(lead > 0xF4)

/-- `isLegalUTF8`; the cases of the outer `switch` fall through. -/
def isLegalUTF8 (source : List Nat) (length : Nat) : Bool :=
  let lead := source.getD 0 0
  let a1 := source.getD 1 0
  let a2 := source.getD 2 0
  let a3 := source.getD 3 0
  match length with
  | 4 => isLegalTrail a3 && isLegalTrail a2 && isLegalSecond lead a1 && isLegalLead lead
  | 3 => isLegalTrail a2 && isLegalSecond lead a1 && isLegalLead lead
  | 2 => isLegalSecond lead a1 && isLegalLead lead
  | 1 => isLegalLead lead
  | _ => false

/-- Magic values subtracted from a buffer value during UTF8 conversion. -/
def offsetsFromUTF8 : List Nat :=
  [0x00000000, 0x00003080, 0x000E2080, 0x03C82080, 0xFA082080, 0x82082080]

/-- `readUTF8Sequence` of the first `length` bytes. -/
def readUTF8Sequence (sequence : List Nat) (length : Nat) : Nat :=
  Word.sub 32 ((sequence.take length).foldl (fun character b => character * 64 + b) 0)
    (offsetsFromUTF8.getD (length - 1) 0)

/-! ## 2. UTF-8 to UTF-16 -/

def U_IS_BMP (c : Nat) : Bool := c ≤ 0xFFFF

def U_IS_SUPPLEMENTARY (c : Nat) : Bool := Word.sub 32 c 0x10000 ≤ 0xFFFFF

def U_IS_SURROGATE (c : Nat) : Bool := c &&& 0xFFFFF800 == 0xD800

def U16_LEAD (supplementary : Nat) : Nat := ((supplementary >>> 10) + 0xD7C0) % 2 ^ 16

def U16_TRAIL (supplementary : Nat) : Nat := ((supplementary &&& 0x3FF) ||| 0xDC00) % 2 ^ 16

/-- The locals of a conversion: what is still to be read and what has been written. -/
structure Cursor where
  source : List Nat
  target : List Nat
  orAllData : Nat
  deriving DecidableEq, Repr

/-- One turn of the loop of `convertUTF8ToUTF16`. -/
def convertUTF8ToUTF16Turn (capacity : Nat) (strict : Bool) (s : Cursor) :
    Cursor ⊕ (ConversionResult × Cursor) :=
  match s.source with
  | [] => .inr (.conversionOK, s)
  | b0 :: _ =>
    let utf8SequenceLength := inlineUTF8SequenceLength b0
    if s.source.length < utf8SequenceLength then .inr (.sourceExhausted, s)
    else if !isLegalUTF8 s.source utf8SequenceLength then .inr (.sourceIllegal, s)
    else
      let character := readUTF8Sequence s.source utf8SequenceLength
      let rest := s.source.drop utf8SequenceLength
      -- a failure below backs up the source pointer
      if capacity ≤ s.target.length then .inr (.targetExhausted, s)
      else if U_IS_BMP character then
        if U_IS_SURROGATE character then
          if strict then .inr (.sourceIllegal, s)
          else .inl ⟨rest, s.target ++ [replacementCharacter],
            s.orAllData ||| replacementCharacter⟩
        else .inl ⟨rest, s.target ++ [character], s.orAllData ||| character⟩
      else if U_IS_SUPPLEMENTARY character then
        if capacity ≤ s.target.length + 1 then .inr (.targetExhausted, s)
        else .inl ⟨rest, s.target ++ [U16_LEAD character, U16_TRAIL character], 0xFFFF⟩
      else if strict then .inr (.sourceIllegal, s)
      else .inl ⟨rest, s.target ++ [replacementCharacter], s.orAllData ||| replacementCharacter⟩

/-- What a conversion returns: its result, the source it has not read, the target it has written,
and `*sourceAllASCII`. -/
structure Conversion where
  result : ConversionResult
  source : List Nat
  target : List Nat
  sourceAllASCII : Bool
  deriving DecidableEq, Repr

def Conversion.ofCursor : ConversionResult × Cursor → Conversion
  | (result, s) => ⟨result, s.source, s.target, s.orAllData &&& 0xFF80 == 0⟩

def convertUTF8ToUTF16 (source : List Nat) (capacity : Nat) (strict : Bool) : Option Conversion :=
  (Iteration.run (convertUTF8ToUTF16Turn capacity strict) (source.length + 1) ⟨source, [], 0⟩).map
    Conversion.ofCursor

/-! ## 3. To UTF-8 -/

def firstByteMark : List Nat := [0x00, 0x00, 0xC0, 0xE0, 0xF0, 0xF8, 0xFC]

/-- The `switch` that writes the bytes of a character from the last one to the first one. -/
def writeBytes (mark : Nat) : Nat → Nat → List Nat
  | 0, _ => []
  | 1, ch => [(ch ||| mark) % 2 ^ 8]
  | n + 2, ch => writeBytes mark (n + 1) (ch >>> 6) ++ [((ch ||| 0x80) &&& 0xBF) % 2 ^ 8]

/-- One turn of the loop of `convertLatin1ToUTF8`. -/
def convertLatin1ToUTF8Turn (capacity : Nat) (s : Cursor) : Cursor ⊕ (ConversionResult × Cursor) :=
  match s.source with
  | [] => .inr (.conversionOK, s)
  | ch :: rest =>
    let bytesToWrite := if ch < 0x80 then 1 else 2
    if capacity < s.target.length + bytesToWrite then .inr (.targetExhausted, s)
    else .inl { s with
      source := rest
      target := s.target ++ writeBytes (firstByteMark.getD bytesToWrite 0) bytesToWrite ch }

def convertLatin1ToUTF8 (source : List Nat) (capacity : Nat) : Option (ConversionResult × Cursor) :=
  Iteration.run (convertLatin1ToUTF8Turn capacity) (source.length + 1) ⟨source, [], 0⟩

/-- The character at the source pointer of `convertUTF16ToUTF8`, with the units behind it. -/
def readUTF16Character (strict : Bool) (ch : Nat) (rest : List Nat) :
    ConversionResult ⊕ (Nat × List Nat) :=
  if ch ≥ 0xD800 ∧ ch ≤ 0xDBFF then
    match rest with
    | ch2 :: rest' =>
      if ch2 ≥ 0xDC00 ∧ ch2 ≤ 0xDFFF then
        .inr (((ch - 0xD800) <<< 10) + (ch2 - 0xDC00) + 0x0010000, rest')
      else if strict then .inl .sourceIllegal
      else .inr (ch, rest)
    | [] => .inl .sourceExhausted
  else if strict ∧ ch ≥ 0xDC00 ∧ ch ≤ 0xDFFF then .inl .sourceIllegal
  else .inr (ch, rest)

/-- `bytesToWrite` for a character. -/
def bytesToWrite (ch : Nat) : Nat :=
  if ch < 0x80 then 1
  else if ch < 0x800 then 2
  else if ch < 0x10000 then 3
  else if ch < 0x110000 then 4
  else 3

/-- One turn of the loop of `convertUTF16ToUTF8`. -/
def convertUTF16ToUTF8Turn (capacity : Nat) (strict : Bool) (s : Cursor) :
    Cursor ⊕ (ConversionResult × Cursor) :=
  match s.source with
  | [] => .inr (.conversionOK, s)
  | unit :: units =>
    match readUTF16Character strict unit units with
    | .inl result => .inr (result, s)
    | .inr (ch, rest) =>
      let n := bytesToWrite ch
      let ch := if ch < 0x110000 then ch else replacementCharacter
      if capacity < s.target.length + n then .inr (.targetExhausted, s)
      else .inl { s with
        source := rest
        target := s.target ++ writeBytes (firstByteMark.getD n 0) n ch }

def convertUTF16ToUTF8 (source : List Nat) (capacity : Nat) (strict : Bool) :
    Option (ConversionResult × Cursor) :=
  Iteration.run (convertUTF16ToUTF8Turn capacity strict) (source.length + 1) ⟨source, [], 0⟩

end JavaScriptCore.WTF.Unicode
