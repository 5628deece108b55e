/-
# Copying between typed arrays

`JSGenericTypedArrayView::set` from another typed array, with the conversions of
`TypedArrayAdaptors.h`.  A native value is the number in its bytes.

`setWithSpecificType` chooses between three ways to copy.  Views that cannot overlap, and views of
elements of one size where the destination view begins behind the source view, are copied from the
last element to the first; other views of elements of one size from the first to the last; the rest
goes through a buffer.
-/
import JavaScriptCore.Lib.ByteMemory
import JavaScriptCore.Runtime.FloatFormat

namespace JavaScriptCore.Runtime.TypedArray

open Lib.Bytes FloatFormat

/-! ## 1. Native values -/

inductive TypedArrayType where
  | int8 | uint8 | uint8Clamped | int16 | uint16 | int32 | uint32 | float32 | float64
  deriving DecidableEq, Repr

namespace TypedArrayType

def elementSize : TypedArrayType → Nat
  | .int8 | .uint8 | .uint8Clamped => 1
  | .int16 | .uint16 => 2
  | .int32 | .uint32 | .float32 => 4
  | .float64 => 8

section

variable (type : TypedArrayType)

/-- The integer that a native value of an integral type is. -/
def toInteger (native : Nat) : Int :=
  match type with
  | .int8 | .int16 | .int32 => (native : Int).bmod (256 ^ type.elementSize)
  | _ => native

/-- `static_cast` of an integer to an integral type. -/
def staticCast (value : Int) : Nat := (value % 256 ^ type.elementSize).toNat

/-- `Uint8ClampedAdaptor::clamp`. -/
def clamp (value : Int) : Nat := if value < 0 then 0 else if value > 255 then 255 else value.toNat

def toNativeFromInt32 (value : Int) : Nat :=
  match type with
  | .uint8Clamped => clamp value
  | .float32 => binary32.encode (.finite value)
  | .float64 => binary64.encode (.finite value)
  | type => type.staticCast value

def toNativeFromUint32 (value : Nat) : Nat :=
  match type with
  | .uint8Clamped => min 255 value
  | .float32 => binary32.encode (.finite value)
  | .float64 => binary64.encode (.finite value)
  | type => type.staticCast value

/-- `Uint8ClampedAdaptor::toNativeFromDouble`. -/
def clampDouble : Double → Nat
  | .nan | .negZero => 0
  | .infinity negative => if negative then 0 else 255
  | .finite q => if q < 0 then 0 else if q > 255 then 255 else (roundHalfEven q).toNat

/-- `toNativeFromDouble`.  The cast to an integer comes first, and `toInt32` where it changes the
number. -/
def toNativeFromDouble (value : Double) : Nat :=
  match type with
  | .uint8Clamped => clampDouble value
  | .float32 => binary32.encode value
  | .float64 => binary64.encode value
  | type =>
    let result := staticCastInt value
    type.staticCast (if value.eqInt result then result else toInt32 value)

end

def convertTo (source destination : TypedArrayType) (native : Nat) : Nat :=
  match source with
  | .float32 => destination.toNativeFromDouble (binary32.decode native)
  | .float64 => destination.toNativeFromDouble (binary64.decode native)
  | .uint32 => destination.toNativeFromUint32 native
  | source => destination.toNativeFromInt32 (source.toInteger native)

end TypedArrayType

/-! ## 2. Views -/

/-- A `JSGenericTypedArrayView`.  `vector` is the address of its first byte.  `buffer` is its
`ArrayBuffer` if `hasArrayBuffer`; a view without one owns its bytes. -/
structure View where
  type : TypedArrayType
  vector : Nat
  length : Nat
  buffer : Option Nat
  byteLength_lt : length * type.elementSize < 2 ^ 32

namespace View

/-- The address of an element. -/
def element (view : View) (i : Nat) : Nat := view.vector + i * view.type.elementSize

/-- `getIndexQuicklyAsNativeValue`. -/
def get (view : View) (mem : Memory) (i : Nat) : Nat :=
  read mem (view.element i) view.type.elementSize

def byteLength (view : View) : Nat := view.length * view.type.elementSize % 2 ^ 32

def canAccessRangeQuickly (view : View) (offset length : Nat) : Bool :=
  offset ≤ view.length && (offset + length) % 2 ^ 32 ≤ view.length && offset
    ≤ (offset + length) % 2 ^ 32

end View

/-- **Two views.**  Different views share bytes only if they are views of one `ArrayBuffer`; there
each begins at a multiple of its element size. -/
structure ViewPair where
  destination : View
  source : View
  apart : destination.type ≠ source.type →
    ¬(destination.buffer.isSome ∧ destination.buffer = source.buffer) →
    Apart destination.vector (destination.length * destination.type.elementSize)
      source.vector (source.length * source.type.elementSize)
  aligned : destination.buffer.isSome → destination.buffer = source.buffer → ∃ data i j,
    destination.vector = data + i * destination.type.elementSize ∧
      source.vector = data + j * source.type.elementSize

/-! ## 3. `set` -/

namespace ViewPair

variable (views : ViewPair)

/-- `hasArrayBuffer() && other->hasArrayBuffer() && existingBuffer() == other->existingBuffer()`. -/
def sharesBuffer : Bool :=
  views.destination.buffer.isSome && views.source.buffer.isSome &&
    views.destination.buffer == views.source.buffer

/-- The conversion of the elements. -/
def convert (native : Nat) : Nat := views.source.type.convertTo views.destination.type native

/-- Copies the elements with these indices. -/
def copy (offset : Nat) (indices : List Nat) (mem : Memory) : Memory :=
  copyElements (views.destination.element offset) views.destination.type.elementSize
    views.source.vector
    views.source.type.elementSize views.convert indices mem

/-- Writes the elements of the transfer buffer. -/
def writeTransferBuffer (offset : Nat) (transferBuffer : List Nat) (mem : Memory) : Memory :=
  writeElements (views.destination.element offset) views.destination.type.elementSize
    (fun _ i => transferBuffer.getD i 0) (List.range transferBuffer.length).reverse mem

def setWithSpecificType (offset length : Nat) (mem : Memory) : Except String Memory :=
  let length := min length views.source.length
  if !views.destination.canAccessRangeQuickly offset length then
    .error "Range consisting of offset and length are out of bounds"
  else if views.source.length ≠ length then
    .error "Length of incoming array changed unexpectedly."
  else if !views.sharesBuffer ||
      (views.destination.type.elementSize == views.source.type.elementSize &&
        views.source.vector < views.destination.vector) then
    .ok (views.copy offset (List.range length).reverse mem)
  else if views.destination.type.elementSize == views.source.type.elementSize then
    .ok (views.copy offset (List.range length) mem)
  else
    .ok (views.writeTransferBuffer offset ((List.range length).map fun i =>
      views.convert (views.source.get mem i)) mem)

/-- `set`, from a typed array. -/
def set (offset length : Nat) (mem : Memory) : Except String Memory :=
  if views.source.type = views.destination.type then
    let length := min length views.source.length
    if !views.destination.canAccessRangeQuickly offset length then
      .error "Range consisting of offset and length are out of bounds"
    else .ok (memmove mem (views.destination.element offset) views.source.vector
      views.source.byteLength)
  else views.setWithSpecificType offset length mem

end ViewPair

end JavaScriptCore.Runtime.TypedArray
