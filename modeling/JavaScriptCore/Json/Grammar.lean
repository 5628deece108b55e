/-
# The JSON grammar of ES5.1 15.12.1, and its two relaxations

The grammar is written over code units and in difference form: `Value s v r` says that `s` starts
with the text of a JSON value denoting `v`, and that `r` is what follows that text.  So a whole
text is a JSON text when `Ws text s`, `Value s v r` and `Ws r []`.

In `StrictJSON` mode the rules are those of 15.12.1, no more and no less.  The other two modes of
`LiteralParser` relax them (single quotes, bare identifiers as property names, tabs in strings)
and restrict them (no characters above `0xff` in a string, no escapes in `NonStrictJSON`); the
rules that differ carry the mode as a side condition, so that one grammar serves all three.

Nothing here refers to the lexer or to the parser, except for the values of the tokens.  The grammar
takes the value of a number text to be the one that the conversion routines give for that text
(`numberValue`), and what a string becomes is a parameter: with `NumberOps.denoted` it is the
sequence of its code units.
-/
import JavaScriptCore.Json.Value

namespace JavaScriptCore.Json

/-! ## 1. The lexical grammar -/

/-- JSONWhiteSpace: TAB, LF, CR or SP. -/
def IsWs (c : Nat) : Prop := c = 0x9 ∨ c = 0xA ∨ c = 0xD ∨ c = 0x20

instance (c : Nat) : Decidable (IsWs c) :=
  inferInstanceAs (Decidable (c = 0x9 ∨ c = 0xA ∨ c = 0xD ∨ c = 0x20))

/-- `Ws s r`: `s` is any number of white space characters followed by `r`. -/
inductive Ws : List Nat → List Nat → Prop where
  | nil {s} : Ws s s
  | cons {c s r} : IsWs c → Ws s r → Ws (c :: s) r

def IsDigit (c : Nat) : Prop := 0x30 ≤ c ∧ c ≤ 0x39

instance (c : Nat) : Decidable (IsDigit c) := inferInstanceAs (Decidable (0x30 ≤ c ∧ c ≤ 0x39))

def IsHexDigit (c : Nat) : Prop :=
  (0x30 ≤ c ∧ c ≤ 0x39) ∨ (0x61 ≤ c ∧ c ≤ 0x66) ∨ (0x41 ≤ c ∧ c ≤ 0x46)

/-- `Digits s r`: at least one digit, then `r`. -/
inductive Digits : List Nat → List Nat → Prop where
  | one {c r} : IsDigit c → Digits (c :: r) r
  | cons {c s r} : IsDigit c → Digits s r → Digits (c :: s) r

/-- DecimalIntegerLiteral: `0`, or a digit other than `0` and any number of digits. -/
inductive IntegerPart : List Nat → List Nat → Prop where
  | zero {r} : IntegerPart (0x30 :: r) r
  | digit {c r} : IsDigit c → c ≠ 0x30 → IntegerPart (c :: r) r
  | digits {c s r} : IsDigit c → c ≠ 0x30 → Digits s r → IntegerPart (c :: s) r

/-- JSONFraction, which may be absent. -/
inductive FractionPart : List Nat → List Nat → Prop where
  | none {r} : FractionPart r r
  | some {s r} : Digits s r → FractionPart (0x2E :: s) r

/-- ExponentPart, which may be absent. -/
inductive ExponentPart : List Nat → List Nat → Prop where
  | none {r} : ExponentPart r r
  | unsigned {e s r} : e = 0x65 ∨ e = 0x45 → Digits s r → ExponentPart (e :: s) r
  | signed {e c s r} : e = 0x65 ∨ e = 0x45 → c = 0x2B ∨ c = 0x2D → Digits s r →
      ExponentPart (e :: c :: s) r

/-- JSONNumber without its sign. -/
inductive UnsignedNumber : List Nat → List Nat → Prop where
  | intro {s s₁ s₂ r} : IntegerPart s s₁ → FractionPart s₁ s₂ → ExponentPart s₂ r →
      UnsignedNumber s r

/-- JSONNumber. -/
inductive Number : List Nat → List Nat → Prop where
  | plain {s r} : UnsignedNumber s r → Number s r
  | minus {s r} : UnsignedNumber s r → Number (0x2D :: s) r

/-- JSONStringCharacter, the unescaped ones, inside quotes of kind `q`. -/
def IsStringCharacter (mode : ParserMode) (q c : Nat) : Prop :=
  c ≠ 0x5C ∧ c ≠ q ∧
    match mode with
    | .StrictJSON => 0x20 ≤ c
    | _ => (0x20 ≤ c ∧ c ≤ 0xff) ∨ c = 0x9

/-- JSONEscapeCharacter: the character after the backslash and the code unit it stands for. -/
inductive Escape (mode : ParserMode) : Nat → Nat → Prop where
  | quote : Escape mode 0x22 0x22
  | slash : Escape mode 0x2F 0x2F
  | backslash : Escape mode 0x5C 0x5C
  | b : Escape mode 0x62 0x8
  | f : Escape mode 0x66 0xC
  | n : Escape mode 0x6E 0xA
  | r : Escape mode 0x72 0xD
  | t : Escape mode 0x74 0x9
  | apostrophe : mode ≠ .StrictJSON → Escape mode 0x27 0x27

/-- JSONStringCharacters: the text, the code units it denotes, and what follows. -/
inductive StringCharacters (mode : ParserMode) (q : Nat) :
    List Nat → List Nat → List Nat → Prop where
  | nil {r} : StringCharacters mode q r [] r
  | char {c s v r} : IsStringCharacter mode q c → StringCharacters mode q s v r →
      StringCharacters mode q (c :: s) (c :: v) r
  | escape {c u s v r} : mode ≠ .NonStrictJSON → Escape mode c u → StringCharacters mode q s v r →
      StringCharacters mode q (0x5C :: c :: s) (u :: v) r
  | unicode {c1 c2 c3 c4 s v r} : mode ≠ .NonStrictJSON →
      IsHexDigit c1 → IsHexDigit c2 → IsHexDigit c3 → IsHexDigit c4 →
      StringCharacters mode q s v r →
      StringCharacters mode q (0x5C :: 0x75 :: c1 :: c2 :: c3 :: c4 :: s)
        (convertUnicode c1 c2 c3 c4 :: v) r

/-- The quotes a string may be written in. -/
def IsQuote (mode : ParserMode) (q : Nat) : Prop :=
  q = 0x22 ∨ (mode ≠ .StrictJSON ∧ q = 0x27)

/-- JSONString. -/
inductive StringLiteral (mode : ParserMode) : List Nat → List Nat → List Nat → Prop where
  | intro {q s v r} : IsQuote mode q → StringCharacters mode q s v (q :: r) →
      StringLiteral mode (q :: s) v r

/-- An identifier as `lexIdentifier` delimits it: ASCII letters, digits, `_`, `$`, not starting
with a digit, and taken as far as it goes.  A text that starts with the letters of `true`,
`false` or `null` is that literal, not an identifier. -/
structure IsIdentifier (s ident r : List Nat) : Prop where
  eq : s = ident ++ r
  start : ∃ c t, ident = c :: t ∧ isIdentifierStart c = true
  part : ∀ c ∈ ident, isIdentifierPart c = true
  stop : ∀ c t, r = c :: t → isIdentifierPart c = false
  notWord : ¬ [0x74, 0x72, 0x75, 0x65] <+: s ∧ ¬ [0x66, 0x61, 0x6C, 0x73, 0x65] <+: s
    ∧ ¬ [0x6E, 0x75, 0x6C, 0x6C] <+: s

/-- A property name: a string, or outside `StrictJSON` an identifier. -/
inductive MemberName (mode : ParserMode) : List Nat → List Nat → List Nat → Prop where
  | string {s k r} : StringLiteral mode s k r → MemberName mode s k r
  | identifier {s k r} : mode ≠ .StrictJSON → IsIdentifier s k r → MemberName mode s k r

/-! ## 2. The syntactic grammar -/

/-- A number text made of an optional sign and digits only. -/
def isIntegerText (text : List Nat) : Bool :=
  text.all fun c => c == 0x2D || isASCIIDigit c

variable {ν : Type}

/-- The value of a number text, as the lexer delivers it: a short integer text that is not at the
end of the input is converted by hand, every other text by `parseDouble`. -/
def numberValue (ops : NumberOps ν) (text r : List Nat) : ν :=
  if r ≠ [] ∧ isIntegerText text = true ∧ text.length < 10 then ops.ofInt (fastInt text)
  else ops.parseDouble text

mutual

/-- JSONValue. -/
inductive Value (ops : TokenOps ν) (mode : ParserMode) :
    List Nat → JSValue ν → List Nat → Prop where
  | null {r} : Value ops mode ([0x6E, 0x75, 0x6C, 0x6C] ++ r) .null r
  | true {r} : Value ops mode ([0x74, 0x72, 0x75, 0x65] ++ r) (.boolean true) r
  | false {r} : Value ops mode ([0x66, 0x61, 0x6C, 0x73, 0x65] ++ r) (.boolean false) r
  | number {s r} : Number s r →
    Value ops mode s (.number (numberValue ops.toNumberOps (textBetween s r) r)) r
  | string {s v r} : StringLiteral mode s v r → Value ops mode s (.string (ops.string v)) r
  | emptyArray {s r} : Ws s (0x5D :: r) → Value ops mode (0x5B :: s) (.array []) r
  | array {s vs r} : Elements ops mode s vs (0x5D :: r) →
      Value ops mode (0x5B :: s) (.array vs) r
  | emptyObject {s r} : Ws s (0x7D :: r) → Value ops mode (0x7B :: s) (.object []) r
  | object {s ms r} : Members ops mode s ms (0x7D :: r) →
      Value ops mode (0x7B :: s) (.object (objectOf ms)) r

/-- JSONElementList, with the white space around it. -/
inductive Elements (ops : TokenOps ν) (mode : ParserMode) :
    List Nat → List (JSValue ν) → List Nat → Prop where
  | one {s s₁ v s₂ r} : Ws s s₁ → Value ops mode s₁ v s₂ → Ws s₂ r → Elements ops mode s [v] r
  | cons {s s₁ v s₂ s₃ vs r} : Ws s s₁ → Value ops mode s₁ v s₂ → Ws s₂ (0x2C :: s₃) →
      Elements ops mode s₃ vs r → Elements ops mode s (v :: vs) r

/-- JSONMemberList, with the white space around it. -/
inductive Members (ops : TokenOps ν) (mode : ParserMode) :
    List Nat → List (List Nat × JSValue ν) → List Nat → Prop where
  | one {s s₁ k s₂ s₃ s₄ v s₅ r} : Ws s s₁ → MemberName mode s₁ k s₂ → Ws s₂ (0x3A :: s₃) →
      Ws s₃ s₄ → Value ops mode s₄ v s₅ → Ws s₅ r → Members ops mode s [(ops.string k, v)] r
  | cons {s s₁ k s₂ s₃ s₄ v s₅ s₆ ms r} : Ws s s₁ → MemberName mode s₁ k s₂ →
      Ws s₂ (0x3A :: s₃) → Ws s₃ s₄ → Value ops mode s₄ v s₅ → Ws s₅ (0x2C :: s₆) →
      Members ops mode s₆ ms r → Members ops mode s ((ops.string k, v) :: ms) r

end

/-- JSONText: white space, one value, white space, and nothing else. -/
def JSONText (ops : TokenOps ν) (mode : ParserMode) (text : List Nat) : Prop :=
  ∃ s v r, Ws text s ∧ Value ops mode s v r ∧ Ws r []

end JavaScriptCore.Json
