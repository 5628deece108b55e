/-
# `encodeURI`, `decodeURI` and their component forms

The functions `encode` and `decode` of `runtime/JSGlobalObjectFunctions.cpp` and the four global
functions made of them, and `escape` and `unescape`.  A string is a list of code units; `encode`
needs to know how its argument is stored, because the conversion to UTF-8 depends on it.

`decode` walks over the characters with an index `k`; the model keeps what stands from `k` on.  Its
`length` is an `int`, so a string of `2 ^ 31` characters or more has a negative length.  The local
`u` outlives a turn of the loop.

The string builder is the list of the units appended so far.  Its vectors hold at most `UINT_MAX`
bytes; beyond that an append fails, and `build` throws.  `unescape` writes to a `StringBuilder`
instead, which ends the process where a 16-bit result of about `2 ^ 31` units or more needs a buffer
of more than `UINT_MAX` bytes; this end is not modelled.
-/
import Mathlib.Data.Nat.SuccPred
import JavaScriptCore.Json.Lexer
import JavaScriptCore.WTF.Text.StringImpl

namespace JavaScriptCore.Runtime

open WTF WTF.Unicode
open Json (isASCIIHexDigit toASCIIHexValue convertUnicode)

/-- What the functions throw. -/
inductive Exception where
  | uriError (message : String)
  | outOfMemory
  deriving DecidableEq, Repr

/-- `JSStringBuilder::build`.  A unit from `FF` on has moved the units to the 16-bit buffer. -/
def build (units : List Nat) : Except Exception (List Nat) :=
  let size := if units.all (· < 0xFF) then units.length else units.length * 2
  if size > 0xFFFFFFFF then .error .outOfMemory else .ok units

/-! ## 1. `encode` -/

/-- A digit of the conversion `%02X`. -/
def upperHexDigit (n : Nat) : Nat := if n < 10 then 0x30 + n else 0x41 + (n - 10)

/-- What the loop of `encode` appends for a byte. -/
def escapeByte (doNotEscape : List Nat) (c : Nat) : List Nat :=
  if c ≠ 0 ∧ c ∈ doNotEscape then [c] else [0x25, upperHexDigit (c / 16), upperHexDigit (c % 16)]

def encode (argument : StringImpl) (doNotEscape : List Nat) :
    Option (Except Exception (List Nat)) :=
  (argument.utf8 .StrictConversion).map fun cstr =>
    match cstr with
    | none => .error (.uriError "String contained an illegal UTF-16 sequence.")
    | some bytes => build (bytes.foldl (fun builder c => builder ++ escapeByte doNotEscape c) [])

/-! ## 2. `decode` -/

/-- `Lexer::convertHex`. -/
def convertHex (c1 c2 : Nat) : Nat := toASCIIHexValue c1 <<< 4 ||| toASCIIHexValue c2

/-- The byte escaped at the start of the characters. -/
def escapedByte : List Nat → Option Nat
  | c :: c1 :: c2 :: _ =>
    if c = 0x25 ∧ isASCIIHexDigit c1 ∧ isASCIIHexDigit c2 then some (convertHex c1 c2) else none
  | _ => none

/-- The inner loop: the bytes of `n` escapes in a row. -/
def escapedBytes : Nat → List Nat → Option (List Nat)
  | 0, _ => some []
  | n + 1, p =>
    match escapedByte p with
    | none => none
    | some b => (escapedBytes n (p.drop 3)).map (b :: ·)

/-- What an escape was found to be: `charLen`, zero if there is none, a unit that has been appended
already, and `u`. -/
structure Escape where
  charLen : Nat
  appended : List Nat
  u : Nat
  deriving DecidableEq, Repr

/-- The escape at `p`, as a sequence of UTF-8 bytes. -/
def readEscape (p : List Nat) (u : Nat) : Escape :=
  match escapedByte p with
  | none => ⟨0, [], u⟩
  | some b0 =>
    let sequenceLen := UTF8SequenceLength b0
    if sequenceLen ≠ 0 ∧ sequenceLen * 3 ≤ p.length then
      match escapedBytes (sequenceLen - 1) (p.drop 3) with
      | none => ⟨0, [], u⟩
      | some bs =>
        match decodeUTF8Sequence (b0 :: (bs ++ [0])) with
        | none => ⟨0, [], u⟩
        | some character =>
          if character ≥ 0x110000 then ⟨0, [], u⟩
          else if character ≥ 0x10000 then
            ⟨sequenceLen * 3, [0xD800 ||| ((character - 0x10000) >>> 10)],
              0xDC00 ||| ((character - 0x10000) &&& 0x3FF)⟩
          else ⟨sequenceLen * 3, [], character⟩
    else ⟨0, [], u⟩

/-- The `%u` form that only the lenient mode knows. -/
def readUnicodeEscape (p : List Nat) (u : Nat) : Escape :=
  match p with
  | _ :: 0x75 :: c1 :: c2 :: c3 :: c4 :: _ =>
    if isASCIIHexDigit c1 ∧ isASCIIHexDigit c2 ∧ isASCIIHexDigit c3 ∧ isASCIIHexDigit c4 then
      ⟨6, [], convertUnicode c1 c2 c3 c4⟩
    else ⟨0, [], u⟩
  | _ => ⟨0, [], u⟩

/-- The locals of `decode`: the characters from `k` on, the builder, and `u`. -/
structure Decoder where
  rest : List Nat
  builder : List Nat
  u : Nat
  deriving DecidableEq, Repr

/-- One turn of the loop of `decode`. -/
def decodeTurn (doNotUnescape : List Nat) (strict : Bool) (s : Decoder) :
    Decoder ⊕ Except Exception (List Nat) :=
  match s.rest with
  | [] => .inr (build s.builder)
  | c :: rest =>
    if c = 0x25 then
      let e := readEscape s.rest s.u
      if e.charLen = 0 ∧ strict then .inr (.error (.uriError "URI error"))
      else
        let e := if e.charLen = 0 then readUnicodeEscape s.rest s.u else e
        if e.charLen ≠ 0 ∧ (e.u = 0 ∨ e.u ≥ 128 ∨ e.u ∉ doNotUnescape) then
          .inl ⟨s.rest.drop e.charLen, s.builder ++ e.appended ++ [e.u], e.u⟩
        else .inl ⟨rest, s.builder ++ e.appended ++ [c], e.u⟩
    else .inl ⟨rest, s.builder ++ [c], s.u⟩

/-- The `int` parameter that receives an `unsigned` length. -/
def intLength (n : Nat) : Int := (BitVec.ofNat 32 n).toInt

def decode (characters : List Nat) (doNotUnescape : List Nat) (strict : Bool) :
    Option (Except Exception (List Nat)) :=
  let characters := characters.take (intLength characters.length).toNat
  Iteration.run (decodeTurn doNotUnescape strict) (characters.length + 1) ⟨characters, [], 0⟩

/-! ## 3. The global functions -/

/-- The character codes of a string literal. -/
def literal (s : String) : List Nat := s.toList.map Char.toNat

def do_not_unescape_when_decoding_URI : List Nat := literal "#$&+,/:;=?@"

def do_not_escape_when_encoding_URI : List Nat :=
  literal ("ABCDEFGHIJKLMNOPQRSTUVWXYZ" ++ "abcdefghijklmnopqrstuvwxyz" ++ "0123456789"
    ++ "!#$&'()*+,-./:;=?@_~")

def do_not_escape_when_encoding_URI_component : List Nat :=
  literal ("ABCDEFGHIJKLMNOPQRSTUVWXYZ" ++ "abcdefghijklmnopqrstuvwxyz" ++ "0123456789"
    ++ "!'()*-._~")

def globalFuncDecodeURI (characters : List Nat) : Option (Except Exception (List Nat)) :=
  decode characters do_not_unescape_when_decoding_URI true

def globalFuncDecodeURIComponent (characters : List Nat) : Option (Except Exception (List Nat)) :=
  decode characters (literal "") true

def globalFuncEncodeURI (argument : StringImpl) : Option (Except Exception (List Nat)) :=
  encode argument do_not_escape_when_encoding_URI

def globalFuncEncodeURIComponent (argument : StringImpl) : Option (Except Exception (List Nat)) :=
  encode argument do_not_escape_when_encoding_URI_component

/-! ## 4. `escape` and `unescape`

Both have a loop for each width of the stored characters. -/

def do_not_escape : List Nat :=
  literal ("ABCDEFGHIJKLMNOPQRSTUVWXYZ" ++ "abcdefghijklmnopqrstuvwxyz" ++
    "0123456789" ++ "*+-./@_")

/-- What the 16-bit loop of `escape` appends for a unit.  The 8-bit loop has no first branch. -/
def escapeUnit (u : Nat) : List Nat :=
  if u > 255 then
    [0x25, 0x75, upperHexDigit (u / 4096), upperHexDigit (u / 256 % 16),
      upperHexDigit (u / 16 % 16), upperHexDigit (u % 16)]
  else escapeByte do_not_escape u

def escapedUnits (s : StringImpl) : List Nat :=
  s.characters.flatMap (if s.is8Bit then escapeByte do_not_escape else escapeUnit)

/-- The bytes in the builder.  A unit that is copied from a 16-bit string moves it to its 16-bit
buffer. -/
def builderSize (s : StringImpl) : Nat :=
  if !s.is8Bit && s.characters.any (· ∈ do_not_escape) then (escapedUnits s).length * 2
  else (escapedUnits s).length

/-- `allocated` says whether the builder got its memory each time it grew. -/
def globalFuncEscape (allocated : Bool) (s : StringImpl) : Except Exception (List Nat) :=
  if allocated ∧ builderSize s ≤ 0xFFFFFFFF then .ok (escapedUnits s) else .error .outOfMemory

/-- What the 8-bit loop of `unescape` appends for the characters from `k` on. -/
def unescape8 : List Nat → List Nat
  | [] => []
  | c :: p =>
    if c = 0x25 ∧ 5 ≤ p.length ∧ p.head? = some 0x75 then
      let e := readUnicodeEscape (c :: p) 0
      if e.charLen ≠ 0 then e.u :: unescape8 (p.drop 5) else c :: unescape8 p
    else
      match escapedByte (c :: p) with
      | some b => b :: unescape8 (p.drop 2)
      | none => c :: unescape8 p
  termination_by p => p.length

/-- The 16-bit loop appends in one place only. -/
def unescape16 : List Nat → List Nat
  | [] => []
  | c :: p =>
    let (k, converted) :=
      if c = 0x25 ∧ 5 ≤ p.length ∧ p.head? = some 0x75 then
        let e := readUnicodeEscape (c :: p) 0
        if e.charLen ≠ 0 then (5, e.u) else (0, c)
      else
        match escapedByte (c :: p) with
        | some b => (2, b)
        | none => (0, c)
    converted :: unescape16 (p.drop k)
  termination_by p => p.length

def globalFuncUnescape (is8Bit : Bool) (characters : List Nat) : List Nat :=
  let characters := characters.take (intLength characters.length).toNat
  if is8Bit then unescape8 characters else unescape16 characters

end JavaScriptCore.Runtime
