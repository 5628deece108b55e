/-
# The values `LiteralParser::parse` builds

A JSON value as the parser leaves it: primitives, arrays, and plain objects.  An object is the
list of its own enumerable properties in the order `JSObject::getOwnPropertyNames` reports them:
the indexed properties first, ascending, then the named ones in insertion order.

`parse` stores a property under the index its name spells, if it spells one
(`PropertyName::asIndex`), and under the name otherwise.  The two stores are `putDirectIndex` and
`putDirect`; each overwrites a property that is already there and keeps the order above.
-/
import JavaScriptCore.Json.Lexer

namespace JavaScriptCore.Json

/-! ## 1. Property names -/

/-- `PropertyName::NotAnIndex`, that is `UINT_MAX`. -/
def NotAnIndex : Nat := 0xFFFFFFFF

/-- The loop of `toUInt32FromCharacters` over the characters after the first one, in `uint32_t`
arithmetic. -/
def accumulateIndex : Nat → List Nat → Nat
  | value, [] => value
  | value, c :: cs =>
    if value > 0xFFFFFFFF / 10 then NotAnIndex
    else if ¬ isASCIIDigit c then NotAnIndex
    else
      let newValue := ((c - 0x30) + value * 10) % 2 ^ 32
      if newValue < value * 10 then NotAnIndex else accumulateIndex newValue cs

/-- `toUInt32FromCharacters`, which is `PropertyName::asIndex`. -/
def asIndex : List Nat → Nat
  | [] => NotAnIndex
  | c :: cs =>
    if ¬ isASCIIDigit c then NotAnIndex
    -- a leading zero is only accepted on its own
    else if c = 0x30 ∧ cs ≠ [] then NotAnIndex
    else accumulateIndex (c - 0x30) cs

/-- Where a property lives: in the indexed storage or in the property table. -/
inductive PropertyKey where
  | index (i : Nat)
  | name (s : List Nat)
  deriving DecidableEq, Repr

/-- The storage a property name selects. -/
def PropertyKey.ofIdentifier (ident : List Nat) : PropertyKey :=
  if asIndex ident ≠ NotAnIndex then .index (asIndex ident) else .name ident

/-! ## 2. Values and property stores -/

inductive JSValue (ν : Type) where
  | null
  | boolean (b : Bool)
  | string (s : List Nat)
  | number (n : ν)
  | array (elements : List (JSValue ν))
  | object (properties : List (PropertyKey × JSValue ν))
  deriving Repr

variable {ν : Type}

/-- `putDirectIndex`: the indexed properties come first and ascend. -/
def putDirectIndex (i : Nat) (v : JSValue ν) :
    List (PropertyKey × JSValue ν) → List (PropertyKey × JSValue ν)
  | [] => [(.index i, v)]
  | (.index j, w) :: rest =>
    if i = j then (.index j, v) :: rest
    else if i < j then (.index i, v) :: (.index j, w) :: rest
    else (.index j, w) :: putDirectIndex i v rest
  | (.name s, w) :: rest => (.index i, v) :: (.name s, w) :: rest

/-- `putDirect`: a new named property is listed after all others. -/
def putDirect (s : List Nat) (v : JSValue ν) :
    List (PropertyKey × JSValue ν) → List (PropertyKey × JSValue ν)
  | [] => [(.name s, v)]
  | (k, w) :: rest => if k = .name s then (k, v) :: rest else (k, w) :: putDirect s v rest

/-- The store of `DoParseObjectEndExpression`. -/
def putProperty (properties : List (PropertyKey × JSValue ν)) (ident : List Nat)
    (v : JSValue ν) : List (PropertyKey × JSValue ν) :=
  match PropertyKey.ofIdentifier ident with
  | .index i => putDirectIndex i v properties
  | .name s => putDirect s v properties

/-- The object that storing a list of members, one after the other, builds. -/
def objectOf (members : List (List Nat × JSValue ν)) : List (PropertyKey × JSValue ν) :=
  members.foldl (fun ps m => putProperty ps m.1 m.2) []

end JavaScriptCore.Json
