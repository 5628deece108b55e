/-
# `JSON.stringify`: the holder-stack machine

`Stringifier` (`runtime/JSONObject.cpp`) writes a value into a string builder without recursion.
An array or an object that is met on the way is pushed on `m_holderStack` as a `Holder`, and the
outermost call of `appendStringifiedValue` keeps asking the holder on top of the stack for its next
property until the stack is empty.

Three things are decided by looking at what is already in the builder: a property is preceded by a
comma unless the last character is `{`, the closing bracket goes on a new line unless it is, and a
property whose value turns out to be undefined is rolled back by cutting the builder.

The heap is a list of cells and an object is a position in it, so that the cycle check can compare
objects as the source does.  What runs user code (a `toJSON` method, a replacer function) is a
parameter, `Hooks`; it may change the heap and it may throw.  Number conversion is a parameter too.
-/
import Mathlib.Data.Nat.Digits.Defs
import JavaScriptCore.Json.Value
import JavaScriptCore.Lib.Iteration

namespace JavaScriptCore.Json

/-! ## 1. Values, cells and the number library -/

/-- A run-time value: a primitive, or the position of a cell. -/
inductive Val (ν : Type) where
  | undefined
  | null
  | boolean (b : Bool)
  | string (s : List Nat)
  | number (n : ν)
  | cell (id : Nat)
  deriving DecidableEq, Repr

def Val.isUndefined {ν : Type} : Val ν → Bool
  | .undefined => true
  | _ => false

/-- A heap cell.  An array may have holes; an object is listed as
`getOwnPropertyNames(ExcludeDontEnumProperties)` reports it; `boxed` is a `Number`, `String` or
`Boolean` object. -/
inductive Cell (ν : Type) where
  | array (elements : List (Option (Val ν)))
  | object (properties : List (PropertyKey × Val ν))
  | function
  | boxed (primitive : Val ν)
  deriving Repr

/-- `String::numberToStringECMAScript` and `std::isfinite`. -/
structure NumberText (ν : Type) where
  numberToString : ν → List Nat
  isFinite : ν → Bool

/-- The user code `stringify` may run.  `none` is an exception. -/
structure Hooks (ν : Type) where
  /-- heap, value, property name -/
  toJSON : List (Cell ν) → Val ν → List Nat → Option (Val ν × List (Cell ν))
  /-- heap, holder, property name, value -/
  replacer : Option (List (Cell ν) → Nat → List Nat → Val ν → Option (Val ν × List (Cell ν)))
  arrayReplacerPropertyNames : Option (List (List Nat))

/-- No `toJSON`, no replacer. -/
def Hooks.none {ν : Type} : Hooks ν := ⟨fun heap v _ => some (v, heap), Option.none, Option.none⟩

/-- The decimal digits of a natural number, as code units. -/
def natText (n : Nat) : List Nat :=
  if n = 0 then [0x30] else (Nat.digits 10 n).reverse.map (0x30 + ·)

/-- The property name of a key. -/
def PropertyKey.toIdentifier : PropertyKey → List Nat
  | .index i => natText i
  | .name s => s

/-! ## 2. The machine's state -/

inductive StringifyResult where
  | StringifyFailed
  | StringifySucceeded
  | StringifyFailedDueToUndefinedValue
  deriving DecidableEq, Repr

inductive StringifyException where
  | cyclic
  | thrown
  deriving DecidableEq, Repr

/-- `Stringifier::Holder`. -/
structure Holder where
  object : Nat
  isArray : Bool
  index : Nat
  size : Nat
  propertyNames : List (List Nat)
  deriving DecidableEq, Repr

/-- `Stringifier`, with the builder it writes to; the holder stack has its top first. -/
structure Stringifier (ν : Type) where
  heap : List (Cell ν)
  holderStack : List Holder
  repeatedGap : List Nat
  indent : List Nat
  builder : List Nat
  exception : Option StringifyException

variable {ν : Type}

def Stringifier.append (s : Stringifier ν) (text : List Nat) : Stringifier ν :=
  { s with builder := s.builder ++ text }

/-- The last character of the builder. -/
def Stringifier.lastCharacter (s : Stringifier ν) : Option Nat := s.builder.getLast?

/-! ## 3. Strings and indentation -/

/-- `hexDigits[n]`. -/
def hexDigit (n : Nat) : Nat := if n < 10 then 0x30 + n else 0x61 + (n - 10)

/-- What `appendStringToStringBuilder` writes for one code unit; the source writes a run of plain
ones at once. -/
def escapeCharacter (c : Nat) : List Nat :=
  if 0x1F < c ∧ c ≠ 0x22 ∧ c ≠ 0x5C then [c]
  else if c = 0x9 then [0x5C, 0x74]
  else if c = 0xD then [0x5C, 0x72]
  else if c = 0xA then [0x5C, 0x6E]
  else if c = 0xC then [0x5C, 0x66]
  else if c = 0x8 then [0x5C, 0x62]
  else if c = 0x22 then [0x5C, 0x22]
  else if c = 0x5C then [0x5C, 0x5C]
  else [0x5C, 0x75, hexDigit (c / 4096 % 16), hexDigit (c / 256 % 16), hexDigit (c / 16 % 16),
    hexDigit (c % 16)]

/-- The loop runs while `i < length`, so that it writes nothing if `length` is negative. -/
def appendStringToStringBuilder (builder data : List Nat) (length : Int) : List Nat :=
  builder ++ (data.take length.toNat).flatMap escapeCharacter

/-- `int length = value.length()`, where `length()` is an `unsigned`. -/
def intLength (value : List Nat) : Int := Int.bmod value.length (2 ^ 32)

def Stringifier.appendQuotedString (s : Stringifier ν) (value : List Nat) : Stringifier ν :=
  { s with builder :=
    appendStringToStringBuilder (s.builder ++ [0x22]) value (intLength value) ++ [0x22] }

section Gap

variable (gap : List Nat)

/-- `indent`. -/
def Stringifier.indentMore (s : Stringifier ν) : Stringifier ν :=
  let newSize := s.indent.length + gap.length
  let repeatedGap := if newSize > s.repeatedGap.length then s.repeatedGap ++ gap else s.repeatedGap
  { s with repeatedGap := repeatedGap, indent := repeatedGap.take newSize }

def Stringifier.unindent (s : Stringifier ν) : Stringifier ν :=
  { s with indent := s.repeatedGap.take (s.indent.length - gap.length) }

def Stringifier.startNewLine (s : Stringifier ν) : Stringifier ν :=
  if gap = [] then s else s.append (0xA :: s.indent)

end Gap

/-! ## 4. Values -/

section Machine

variable (num : NumberText ν) (hooks : Hooks ν) (gap : List Nat)

def unwrapBoxedPrimitive (heap : List (Cell ν)) (value : Val ν) : Val ν :=
  match value with
  | .cell id =>
    match heap[id]? with
    | some (.boxed primitive) => primitive
    | _ => value
  | _ => value

/-- `holder->inherits(JSArray::info())`. -/
def isArrayCell (heap : List (Cell ν)) (id : Nat) : Bool :=
  match heap[id]? with
  | some (.array _) => true
  | _ => false

def isFunctionCell (heap : List (Cell ν)) (id : Nat) : Bool :=
  match heap[id]? with
  | some .function => true
  | _ => false

/-- The calls of `toJSON` and of the replacer function at the start of
`appendStringifiedValue`. -/
def applyHooks (s : Stringifier ν) (value : Val ν) (holder : Nat) (propertyName : List Nat) :
    Option (Val ν × List (Cell ν)) :=
  match hooks.toJSON s.heap value propertyName with
  | none => none
  | some (value, heap) =>
    match hooks.replacer with
    | none => some (value, heap)
    | some replacer => replacer heap holder propertyName value

/-- `appendStringifiedValue` up to the point where an object has been pushed on the holder stack.
The loop that empties the stack belongs to the outermost call and is in `stringify`. -/
def appendStringifiedValue (s : Stringifier ν) (value : Val ν) (holder : Nat)
    (propertyName : List Nat) : StringifyResult × Stringifier ν :=
  match applyHooks hooks s value holder propertyName with
  | none => (.StringifyFailed, { s with exception := some .thrown })
  | some (value, heap) =>
    let s := { s with heap := heap }
    if value.isUndefined ∧ ¬ isArrayCell heap holder then
      (.StringifyFailedDueToUndefinedValue, s)
    else
      match unwrapBoxedPrimitive heap value with
      | .null => (.StringifySucceeded, s.append [0x6E, 0x75, 0x6C, 0x6C])
      | .boolean true => (.StringifySucceeded, s.append [0x74, 0x72, 0x75, 0x65])
      | .boolean false => (.StringifySucceeded, s.append [0x66, 0x61, 0x6C, 0x73, 0x65])
      | .string stringValue => (.StringifySucceeded, s.appendQuotedString stringValue)
      | .number number =>
        if num.isFinite number then (.StringifySucceeded, s.append (num.numberToString number))
        else (.StringifySucceeded, s.append [0x6E, 0x75, 0x6C, 0x6C])
      | .undefined => (.StringifyFailed, s)
      | .cell object =>
        if isFunctionCell heap object then
          if isArrayCell heap holder then
            (.StringifySucceeded, s.append [0x6E, 0x75, 0x6C, 0x6C])
          else (.StringifyFailedDueToUndefinedValue, s)
        else if s.holderStack.any (fun h => h.object == object) then
          (.StringifyFailed, { s with exception := some .cyclic })
        else
          (.StringifySucceeded,
            { s with holderStack := ⟨object, isArrayCell heap object, 0, 0, []⟩ :: s.holderStack })

/-! ## 5. Holders -/

/-- The first visit of a holder: its size, its property names, and the opening bracket. -/
def Holder.firstVisit (hd : Holder) (s : Stringifier ν) : Holder × Stringifier ν :=
  match s.heap[hd.object]? with
  | some (.array elements) =>
    ({ hd with size := elements.length }, (s.append [0x5B]).indentMore gap)
  | some (.object properties) =>
    let names := hooks.arrayReplacerPropertyNames.getD (properties.map fun p => p.1.toIdentifier)
    ({ hd with size := names.length, propertyNames := names }, (s.append [0x7B]).indentMore gap)
  | _ => ({ hd with size := 0 }, (s.append [0x7B]).indentMore gap)

/-- The element at an index: a hole reads as undefined. -/
def getElement (heap : List (Cell ν)) (object index : Nat) : Val ν :=
  match heap[object]? with
  | some (.array elements) => (elements[index]?.join).getD .undefined
  | _ => .undefined

/-- `getOwnPropertySlot` and the slot's value. -/
def getOwnProperty (heap : List (Cell ν)) (object : Nat) (propertyName : List Nat) :
    Option (Val ν) :=
  match heap[object]? with
  | some (.object properties) => properties.lookup (.ofIdentifier propertyName)
  | _ => none

/-- The `switch` on the result that ends `appendNextProperty`. -/
def finishProperty (rollBackPoint : Nat) : StringifyResult × Stringifier ν → Stringifier ν
  | (.StringifyFailed, s) => s.append [0x6E, 0x75, 0x6C, 0x6C]
  | (.StringifySucceeded, s) => s
  | (.StringifyFailedDueToUndefinedValue, s) => { s with builder := s.builder.take rollBackPoint }

/-- `Holder::appendNextProperty` after the initialisation, on the holder `hd` on top of the stack
`hd :: rest`. -/
def appendPropertyAt (hd : Holder) (rest : List Holder) (s : Stringifier ν) :
    Bool × Stringifier ν :=
  if hd.index = hd.size then
    let s := s.unindent gap
    let s := if hd.size ≠ 0 ∧ s.lastCharacter ≠ some 0x7B then s.startNewLine gap else s
    let s := s.append [if hd.isArray then 0x5D else 0x7D]
    (false, { s with holderStack := hd :: rest })
  else
    let index := hd.index
    let hd := { hd with index := index + 1 }
    let s := { s with holderStack := hd :: rest }
    if hd.isArray then
      let value := getElement s.heap hd.object index
      let s := if index ≠ 0 then s.append [0x2C] else s
      let s := s.startNewLine gap
      (true, finishProperty 0
        (appendStringifiedValue num hooks s value hd.object (natText index)))
    else
      let propertyName := hd.propertyNames.getD index []
      match getOwnProperty s.heap hd.object propertyName with
      | none => (true, s)
      | some value =>
        let rollBackPoint := s.builder.length
        let s := if s.lastCharacter ≠ some 0x7B then s.append [0x2C] else s
        let s := s.startNewLine gap
        let s := s.appendQuotedString propertyName
        let s := s.append [0x3A]
        let s := if gap ≠ [] then s.append [0x20] else s
        (true, finishProperty rollBackPoint
          (appendStringifiedValue num hooks s value hd.object propertyName))

/-- `Holder::appendNextProperty`. -/
def appendNextProperty (hd : Holder) (rest : List Holder) (s : Stringifier ν) :
    Bool × Stringifier ν :=
  let (hd, s) := if hd.index = 0 then hd.firstVisit hooks gap s else (hd, s)
  appendPropertyAt num hooks gap hd rest s

/-- What the loop does with the result of `appendNextProperty`: stop on an exception, go on, or
remove a finished holder. -/
def afterProperty :
    Bool × Stringifier ν → Stringifier ν ⊕ (StringifyResult × Stringifier ν)
  | (true, s) => if s.exception.isSome then .inr (.StringifyFailed, s) else .inl s
  | (false, s) => .inl { s with holderStack := s.holderStack.tail }

/-- One turn of the loop that empties the holder stack. -/
def holderTurn (s : Stringifier ν) : Stringifier ν ⊕ (StringifyResult × Stringifier ν) :=
  match s.holderStack with
  | [] => .inr (.StringifySucceeded, s)
  | hd :: rest => afterProperty (appendNextProperty num hooks gap hd rest s)

/-- `Stringifier::stringify`: the text, or `none` for `undefined`; the outer `none` says that
`fuel` turns do not suffice. -/
def stringify (fuel : Nat) (heap : List (Cell ν)) (value : Val ν) : Option (Option (List Nat)) :=
  -- the holder of the top-level value is a new object
  let holder := heap.length
  let heap := heap ++ [.object [(.name [], value)]]
  let (result, s) :=
    appendStringifiedValue num hooks ⟨heap, [], [], [], [], none⟩ value holder []
  if result ≠ .StringifySucceeded then some none
  else
    match Iteration.run (holderTurn num hooks gap) fuel s with
    | none => none
    | some (result, s) =>
      if result ≠ .StringifySucceeded ∨ s.exception.isSome then some none
      else some (some s.builder)

end Machine

end JavaScriptCore.Json
