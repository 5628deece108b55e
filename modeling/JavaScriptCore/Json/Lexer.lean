/-
# `LiteralParser::Lexer`: the tokens of the three literal dialects

`LiteralParser` (`runtime/LiteralParser.cpp`) is one parser with three modes: `StrictJSON`
(`JSON.parse`), `NonStrictJSON` (the literal fast path of `eval`) and `JSONP` (the script fast
path of `Interpreter::execute`).  All three share the lexer of this module.

The pair of pointers `m_ptr`, `m_end` is the list of code units that are still to be read.  A code
unit is its numeric value, a `Nat`, for `LChar` and `UChar` text alike: the two instantiations of
the template only differ on characters that an 8-bit string cannot hold.

Two points of the source are kept exactly, because the parser depends on them:

* `lex` RETURNS a token type and STORES one in the token, and the two can differ: for `;` the
  stored type is `TokSemi` and the returned one is `TokAssign`;
* a failing `lex` leaves `TokError` in the token and does not promise anything about `m_ptr`.

Numbers are converted by code that is not part of the lexer (`parseDouble`), so the number type
and its conversions are a parameter, `NumberOps`.

A string token is a pointer and a `stringLength` of 31 bits.  What the characters of a string become
is a parameter too, `TokenOps`: `NumberOps.lexed` is the lexer of the source, which loses the
highest bit of the length, and `NumberOps.denoted` one that keeps all characters, as the language
defines strings.
-/
import Mathlib.Algebra.Group.Nat.Defs
import Mathlib.Data.List.Basic

namespace JavaScriptCore.Json

inductive ParserMode where
  | StrictJSON
  | NonStrictJSON
  | JSONP
  deriving DecidableEq, Repr

inductive TokenType where
  | TokLBracket | TokRBracket | TokLBrace | TokRBrace
  | TokString | TokIdentifier | TokNumber | TokColon
  | TokLParen | TokRParen | TokComma | TokTrue | TokFalse
  | TokNull | TokEnd | TokDot | TokAssign | TokSemi | TokError
  deriving DecidableEq, Repr

/-- The number library as the lexer and the parser see it: `token.numberToken = result` for the
`int` of the fast path, `parseDouble` for every other number text, and the test
`index == doubleIndex && index >= 0` that `tryJSONPParse` makes on a subscript. -/
structure NumberOps (ν : Type) where
  ofInt : Int → ν
  parseDouble : List Nat → ν
  toIndex : ν → Option Nat

/-- What the lexer makes of a token: its number, or its string. -/
structure TokenOps (ν : Type) extends NumberOps ν where
  string : List Nat → List Nat

/-- `stringToken` and `unsigned stringLength : 31`: the string that is read back from the token. -/
def stringOfToken (s : List Nat) : List Nat := s.take (s.length % 2 ^ 31)

/-- **The lexer of the source.** -/
def NumberOps.lexed {ν : Type} (ops : NumberOps ν) : TokenOps ν :=
  { ops with string := stringOfToken }

/-- Strings as the text denotes them. -/
def NumberOps.denoted {ν : Type} (ops : NumberOps ν) : TokenOps ν := { ops with string := id }

/-- The texts `m_lexErrorMessage` can hold. -/
inductive LexError where
  | singleQuotes
  | unrecognizedToken (c : Nat)
  | unterminatedString
  | unicodeEscapeLength
  | invalidUnicodeEscape (chars : List Nat)
  | invalidEscape (c : Nat)
  | invalidNumber
  | invalidDecimal
  | invalidExponent
  deriving DecidableEq, Repr

/-- `String::format` with one code unit, or `String(m_ptr, n).ascii()` with several. -/
def asciiText (cs : List Nat) : String := String.ofList (cs.map Char.ofNat)

def LexError.message : LexError → String
  | .singleQuotes => "Single quotes (\') are not allowed in JSON"
  | .unrecognizedToken c => "Unrecognized token '" ++ asciiText [c] ++ "'"
  | .unterminatedString => "Unterminated string"
  | .unicodeEscapeLength => "\\u must be followed by 4 hex digits"
  | .invalidUnicodeEscape cs => "\"\\" ++ asciiText cs ++ "\" is not a valid unicode escape"
  | .invalidEscape c => "Invalid escape character " ++ asciiText [c]
  | .invalidNumber => "Invalid number"
  | .invalidDecimal => "Invalid digits after decimal point"
  | .invalidExponent =>
    "Exponent symbols should be followed by an optional '+' or '-' and then by at least one number"

/-- `LiteralParserToken`: the stored type, the text between `start` and `end`, the string a
string token denotes, and the value of a number token. -/
structure LiteralParserToken (ν : Type) where
  type : TokenType
  text : List Nat
  string : List Nat
  number : Option ν
  deriving DecidableEq, Repr

/-- What one call of `lex` leaves behind: the returned type, the token, the new `m_ptr`, and the
message it stored, if any. -/
structure LexResult (ν : Type) where
  returned : TokenType
  token : LiteralParserToken ν
  ptr : List Nat
  error : Option LexError
  deriving DecidableEq, Repr

/-! ## 1. Character classes -/

def isJSONWhiteSpace (c : Nat) : Bool :=
  c == 0x20 || c == 0x9 || c == 0xA || c == 0xD

def isASCIIDigit (c : Nat) : Bool := 0x30 ≤ c && c ≤ 0x39

def isASCIIAlpha (c : Nat) : Bool := (0x61 ≤ c && c ≤ 0x7A) || (0x41 ≤ c && c ≤ 0x5A)

def isASCIIHexDigit (c : Nat) : Bool :=
  isASCIIDigit c || (0x61 ≤ c && c ≤ 0x66) || (0x41 ≤ c && c ≤ 0x46)

/-- `toASCIIHexValue`: the value of a hexadecimal digit of either case. -/
def toASCIIHexValue (c : Nat) : Nat :=
  if c < 0x41 then c - 0x30 else (c - 0x41 + 10) % 16

/-- The characters that may start an identifier token. -/
def isIdentifierStart (c : Nat) : Bool := isASCIIAlpha c || c == 0x5F || c == 0x24

/-- The characters `lexIdentifier` continues over; the last two only occur in 16-bit text. -/
def isIdentifierPart (c : Nat) : Bool :=
  isASCIIAlpha c || isASCIIDigit c || c == 0x5F || c == 0x24 || c == 0x200C || c == 0x200D

/-- `isSafeStringCharacter`: the characters a run of string text consists of. -/
def isSafeStringCharacter (mode : ParserMode) (terminator c : Nat) : Bool :=
  (0x20 ≤ c && (mode == .StrictJSON || c ≤ 0xff) && c != 0x5C && c != terminator)
    || (c == 0x9 && mode != .StrictJSON)

/-- `Lexer::convertUnicode`: the code unit a `\uXXXX` escape names. -/
def convertUnicode (c1 c2 c3 c4 : Nat) : Nat :=
  (toASCIIHexValue c1 * 16 + toASCIIHexValue c2) * 256
    + (toASCIIHexValue c3 * 16 + toASCIIHexValue c4)

/-! ## 2. Strings -/

/-- The one-character escapes of `lexString`, with the code unit each stands for. -/
def simpleEscape (mode : ParserMode) (c : Nat) : Option Nat :=
  if c = 0x22 then some 0x22          -- \"
  else if c = 0x5C then some 0x5C     -- \\
  else if c = 0x2F then some 0x2F     -- \/
  else if c = 0x62 then some 0x8      -- \b
  else if c = 0x66 then some 0xC      -- \f
  else if c = 0x6E then some 0xA      -- \n
  else if c = 0x72 then some 0xD      -- \r
  else if c = 0x74 then some 0x9      -- \t
  else if c = 0x27 ∧ mode ≠ .StrictJSON then some 0x27
  else none

/-- The `switch` on the character after a backslash: the code unit appended to the builder and
the new `m_ptr`. -/
def lexEscape (mode : ParserMode) : List Nat → Except LexError (Nat × List Nat)
  | [] => .error .unterminatedString
  | 0x75 :: rest =>
    match rest with
    | c1 :: c2 :: c3 :: c4 :: rest' =>
      if isASCIIHexDigit c1 && isASCIIHexDigit c2 && isASCIIHexDigit c3 && isASCIIHexDigit c4 then
        .ok (convertUnicode c1 c2 c3 c4, rest')
      else .error (.invalidUnicodeEscape [0x75, c1, c2, c3, c4])
    | _ => .error .unicodeEscapeLength
  | c :: rest =>
    match simpleEscape mode c with
    | some u => .ok (u, rest)
    | none => .error (.invalidEscape c)

/-- The `do … while` loop of `lexString`, entered with `m_ptr = ptr` and the builder's contents.
The result is the builder, the last `runStart`, and `m_ptr` when the loop is left.  `fuel`
bounds the iterations; every one that is followed by another consumes a character. -/
def lexStringLoop (mode : ParserMode) (terminator : Nat) :
    Nat → List Nat → List Nat →
      Except LexError (List Nat × List Nat × List Nat)
  | 0, _, _ => .error .unterminatedString
  | fuel + 1, builder, runStart =>
    let run := runStart.takeWhile (isSafeStringCharacter mode terminator)
    let ptr := runStart.dropWhile (isSafeStringCharacter mode terminator)
    let builder := if builder.length ≠ 0 then builder ++ run else builder
    let again (builder ptr : List Nat) :=
      -- while (mode != NonStrictJSON && m_ptr != runStart && m_ptr < m_end && *m_ptr != terminator)
      if mode ≠ .NonStrictJSON ∧ ptr.length ≠ runStart.length ∧ ptr ≠ []
          ∧ ptr.head? ≠ some terminator then
        lexStringLoop mode terminator fuel builder ptr
      else .ok (builder, runStart, ptr)
    match ptr with
    | 0x5C :: afterSlash =>
      if mode ≠ .NonStrictJSON then
        let builder := if builder = [] ∧ run ≠ [] then builder ++ run else builder
        match lexEscape mode afterSlash with
        | .error e => .error e
        | .ok (u, ptr') => again (builder ++ [u]) ptr'
      else again builder ptr
    | _ => again builder ptr

variable {ν : Type}

def errorToken : LiteralParserToken ν := ⟨.TokError, [], [], none⟩

def lexFailure (ptr : List Nat) (e : LexError) : LexResult ν :=
  ⟨.TokError, errorToken, ptr, some e⟩

/-- `lexString<mode, terminator>`, with `m_ptr` at the opening quote. -/
def lexString (ops : TokenOps ν) (mode : ParserMode) (terminator : Nat) (start : List Nat) :
    LexResult ν :=
  match lexStringLoop mode terminator (start.tail.length + 1) [] start.tail with
  | .error e => lexFailure start e
  | .ok (builder, runStart, ptr) =>
    match ptr with
    | [] => lexFailure ptr .unterminatedString
    | c :: rest =>
      if c ≠ terminator then lexFailure ptr .unterminatedString
      else
        -- an empty builder means that no escape was seen: the token is the run itself
        let string := if builder = [] then runStart.take (runStart.length - ptr.length) else builder
        ⟨.TokString, ⟨.TokString, start.take (start.length - rest.length), ops.string string, none⟩,
          rest, none⟩

/-! ## 3. Numbers -/

/-- The `int` loop of the fast path, `result = result * 10 + (*digit++) - '0'`. -/
def digitsToInt (digits : List Nat) : Int :=
  digits.foldl (fun (result : Int) (d : Nat) => result * 10 + (d : Int) - 0x30) 0

/-- `token.numberToken` on the fast path: at most nine characters, no fraction, no exponent. -/
def fastInt : List Nat → Int
  | 0x2D :: digits => digitsToInt digits * -1
  | digits => digitsToInt digits

/-- `(0 | [1-9][0-9]*)`: the integer part, or nothing. -/
def lexIntegerPart : List Nat → Option (List Nat)
  | [] => none
  | c :: rest =>
    if c = 0x30 then some rest
    else if 0x31 ≤ c ∧ c ≤ 0x39 then some (rest.dropWhile isASCIIDigit)
    else none

/-- `[0-9]+`: at least one digit. -/
def lexDigits : List Nat → Option (List Nat)
  | [] => none
  | c :: rest => if isASCIIDigit c then some (rest.dropWhile isASCIIDigit) else none

/-- `[eE][+-]? [0-9]+` after the letter. -/
def lexExponent : List Nat → Option (List Nat)
  | 0x2B :: rest => lexDigits rest
  | 0x2D :: rest => lexDigits rest
  | rest => lexDigits rest

def numberToken (text : List Nat) (value : ν) (rest : List Nat) : LexResult ν :=
  ⟨.TokNumber, ⟨.TokNumber, text, [], some value⟩, rest, none⟩

/-- The characters from `start` up to `ptr`, a later position in the same text. -/
def textBetween (start ptr : List Nat) : List Nat := start.take (start.length - ptr.length)

/-- The tail of `lexNumber`: the optional exponent, then `parseDouble` on the whole text. -/
def lexExponentPart (ops : NumberOps ν) (start ptr : List Nat) : LexResult ν :=
  match ptr with
  | [] => numberToken (textBetween start ptr) (ops.parseDouble (textBetween start ptr)) ptr
  | c :: rest =>
    if c = 0x65 ∨ c = 0x45 then
      match lexExponent rest with
      | none => lexFailure rest .invalidExponent
      | some ptr' =>
        numberToken (textBetween start ptr') (ops.parseDouble (textBetween start ptr')) ptr'
    else numberToken (textBetween start ptr) (ops.parseDouble (textBetween start ptr)) ptr

/-- `-?`. -/
def skipMinus : List Nat → List Nat
  | 0x2D :: rest => rest
  | rest => rest

/-- `lexNumber`, with `m_ptr` at the minus sign or the first digit. -/
def lexNumber (ops : NumberOps ν) (start : List Nat) : LexResult ν :=
  match lexIntegerPart (skipMinus start) with
  | none => lexFailure (skipMinus start) .invalidNumber
  | some ptr =>
    match ptr with
    | 0x2E :: rest =>
      match lexDigits rest with
      | none => lexFailure rest .invalidDecimal
      | some ptr' => lexExponentPart ops start ptr'
    | c :: _ =>
      if (c ≠ 0x65 ∧ c ≠ 0x45) ∧ (textBetween start ptr).length < 10 then
        numberToken (textBetween start ptr) (ops.ofInt (fastInt (textBetween start ptr))) ptr
      else lexExponentPart ops start ptr
    | [] => lexExponentPart ops start ptr

/-! ## 4. `lex` -/

/-- The one-character tokens of the `switch`. -/
def punctuator (c : Nat) : Option TokenType :=
  if c = 0x5B then some .TokLBracket
  else if c = 0x5D then some .TokRBracket
  else if c = 0x28 then some .TokLParen
  else if c = 0x29 then some .TokRParen
  else if c = 0x7B then some .TokLBrace
  else if c = 0x7D then some .TokRBrace
  else if c = 0x2C then some .TokComma
  else if c = 0x3A then some .TokColon
  else none

/-- The literal words of the `switch`: the type and the characters that spell it. -/
def literalWord (c : Nat) : Option (TokenType × List Nat) :=
  if c = 0x74 then some (.TokTrue, [0x74, 0x72, 0x75, 0x65])
  else if c = 0x66 then some (.TokFalse, [0x66, 0x61, 0x6C, 0x73, 0x65])
  else if c = 0x6E then some (.TokNull, [0x6E, 0x75, 0x6C, 0x6C])
  else none

/-- A token without payload that is stored and returned under the same type. -/
def plainToken (type : TokenType) (text rest : List Nat) : LexResult ν :=
  ⟨type, ⟨type, text, [], none⟩, rest, none⟩

def lexIdentifier (ops : TokenOps ν) (start : List Nat) : LexResult ν :=
  let text := start.takeWhile isIdentifierPart
  ⟨.TokIdentifier, ⟨.TokIdentifier, text, ops.string text, none⟩, start.dropWhile isIdentifierPart,
    none⟩

/-- The tests after the `switch`, for a character no `case` returned on. -/
def lexAfterSwitch (ops : TokenOps ν) (mode : ParserMode) (c : Nat) (rest : List Nat) :
    LexResult ν :=
  if c = 0x2E then plainToken .TokDot [c] rest
  else if c = 0x3D then plainToken .TokAssign [c] rest
  else if c = 0x3B then
    -- token.type = TokSemi; … return TokAssign;
    ⟨.TokAssign, ⟨.TokSemi, [c], [], none⟩, rest, none⟩
  else if isIdentifierStart c then lexIdentifier ops (c :: rest)
  else if c = 0x27 then
    if mode = .StrictJSON then lexFailure (c :: rest) .singleQuotes
    else lexString ops mode 0x27 (c :: rest)
  else lexFailure (c :: rest) (.unrecognizedToken c)

/-- The `switch` on the first character of a token. -/
def lexToken (ops : TokenOps ν) (mode : ParserMode) (c : Nat) (rest : List Nat) :
    LexResult ν :=
  match punctuator c with
  | some type => plainToken type [c] rest
  | none =>
    if c = 0x22 then lexString ops mode 0x22 (c :: rest)
    else if c = 0x2D ∨ isASCIIDigit c then lexNumber ops.toNumberOps (c :: rest)
    else
      match literalWord c with
      | some (type, word) =>
        if word <+: (c :: rest) then plainToken type word ((c :: rest).drop word.length)
        else lexAfterSwitch ops mode c rest
      | none => lexAfterSwitch ops mode c rest

/-- `Lexer::lex<mode>`. -/
def lex (ops : TokenOps ν) (mode : ParserMode) (ptr : List Nat) : LexResult ν :=
  match ptr.dropWhile isJSONWhiteSpace with
  | [] => ⟨.TokEnd, ⟨.TokEnd, [], [], none⟩, [], none⟩
  | c :: rest => lexToken ops mode c rest

end JavaScriptCore.Json
