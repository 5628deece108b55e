/-
# The bits of floating point numbers

The binary formats of IEEE 754 that `float` and `double` have, and the conversions of C++ between
them and the integers: `decode` gives the number that some bits stand for, and `encode` rounds a
number to the nearest one of the format, the one with the even significand if there are two.
-/
import JavaScriptCore.Runtime.Double
import Mathlib.Data.Int.Log

namespace JavaScriptCore.Runtime

/-- A binary format: the width of its exponent and of the fraction of its significand. -/
structure FloatFormat where
  exponentBits : Nat
  fractionBits : Nat

namespace FloatFormat

/-- `float`. -/
def binary32 : FloatFormat := ⟨8, 23⟩

/-- `double`. -/
def binary64 : FloatFormat := ⟨11, 52⟩

variable (format : FloatFormat)

/-- The number of bits. -/
def width : Nat := 1 + format.exponentBits + format.fractionBits

/-- The exponent of the smallest normal number. -/
def minExponent : Int := 2 - 2 ^ (format.exponentBits - 1)

/-- The bits of infinity. -/
def infinityBits : Nat := (2 ^ format.exponentBits - 1) * 2 ^ format.fractionBits

/-- The bits of a NaN that is quiet. -/
def nanBits : Nat := format.infinityBits + 2 ^ (format.fractionBits - 1)

/-- The bit of the sign. -/
def signBit (negative : Bool) : Nat :=
  if negative then 2 ^ (format.exponentBits + format.fractionBits) else 0

/-- The number that some bits stand for. -/
def decode (bits : Nat) : Double :=
  let negative := bits / 2 ^ (format.exponentBits + format.fractionBits) % 2 = 1
  let exponent := bits / 2 ^ format.fractionBits % 2 ^ format.exponentBits
  let fraction := bits % 2 ^ format.fractionBits
  let sign : ℚ := if negative then -1 else 1
  if exponent = 2 ^ format.exponentBits - 1 then
    if fraction = 0 then .infinity negative else .nan
  else if exponent = 0 then
    if fraction = 0 then (if negative then .negZero else .finite 0)
    else .finite (sign * fraction * 2 ^ (format.minExponent - format.fractionBits))
  else .finite (sign * (2 ^ format.fractionBits + fraction) *
    2 ^ (format.minExponent + (exponent - 1 : Int) - format.fractionBits))

/-- The nearest integer, and the even one of two. -/
def roundHalfEven (q : ℚ) : Int :=
  let floor := q.floor
  let rest := q - floor
  if rest < 1 / 2 then floor
  else if 1 / 2 < rest then floor + 1
  else if floor % 2 = 0 then floor else floor + 1

/-- The bits of the positive number that is nearest to a positive one. -/
def encodePositive (q : ℚ) : Nat :=
  let exponent := max (Int.log 2 q) format.minExponent
  let significand := roundHalfEven (q / 2 ^ (exponent - format.fractionBits))
  -- a significand without its leading bit, or one that was rounded up to the next power, needs no
  -- case of its own
  min format.infinityBits
    ((exponent - format.minExponent).toNat * 2 ^ format.fractionBits + significand.toNat)

/-- The bits of the number of the format that is nearest to a number.  Every NaN gets one pattern,
the quiet one without a sign; the hardware may keep the sign and the other bits of the NaN that it
converts. -/
def encode : Double → Nat
  | .nan => format.nanBits
  | .negZero => format.signBit true
  | .infinity negative => format.signBit negative + format.infinityBits
  | .finite q =>
    if q = 0 then 0
    else if q < 0 then format.signBit true + format.encodePositive (-q)
    else format.encodePositive q

end FloatFormat

/-- `toInt32`: the integer part modulo `2 ^ 32`. -/
def toInt32 : Double → Int
  | .finite q => ((if q < 0 then q.ceil else q.floor) : Int).bmod (2 ^ 32)
  | _ => 0

end JavaScriptCore.Runtime
