/-
# `ResultType`

What the parser knows about the type of an expression's value: `parser/ResultType.h`.  One bit
stands for each type that the value may have, and one more for a number that is an `int32`.
-/
import Mathlib.Data.BitVec

namespace JavaScriptCore.Parser

/-- `ResultType`, by its `m_type`. -/
structure ResultType where
  type : BitVec 8
  deriving DecidableEq, Repr

namespace ResultType

def TypeInt32 : BitVec 8 := 1
def TypeMaybeNumber : BitVec 8 := 0x04
def TypeMaybeString : BitVec 8 := 0x08
def TypeMaybeNull : BitVec 8 := 0x10
def TypeMaybeBool : BitVec 8 := 0x20
def TypeMaybeOther : BitVec 8 := 0x40

/-- The bits of the types, without `TypeInt32`. -/
def TypeBits : BitVec 8 :=
  TypeMaybeNumber ||| TypeMaybeString ||| TypeMaybeNull ||| TypeMaybeBool ||| TypeMaybeOther

def isInt32 (t : ResultType) : Bool := t.type &&& TypeInt32 != 0

def definitelyIsNumber (t : ResultType) : Bool := t.type &&& TypeBits == TypeMaybeNumber

def definitelyIsString (t : ResultType) : Bool := t.type &&& TypeBits == TypeMaybeString

def definitelyIsBoolean (t : ResultType) : Bool := t.type &&& TypeBits == TypeMaybeBool

def booleanType : ResultType := ⟨TypeMaybeBool⟩
def numberType : ResultType := ⟨TypeMaybeNumber⟩
def stringOrNumberType : ResultType := ⟨TypeMaybeNumber ||| TypeMaybeString⟩
def stringType : ResultType := ⟨TypeMaybeString⟩
def unknownType : ResultType := ⟨TypeBits⟩

def forAdd (op1 op2 : ResultType) : ResultType :=
  if op1.definitelyIsNumber && op2.definitelyIsNumber then numberType
  else if op1.definitelyIsString || op2.definitelyIsString then stringType
  else stringOrNumberType

/-- `forLogicalOp`: the value is that of the operand that was evaluated last. -/
def forLogicalOp (op1 op2 : ResultType) : ResultType :=
  if op1.definitelyIsBoolean && op2.definitelyIsBoolean then booleanType
  else if op1.definitelyIsNumber && op2.definitelyIsNumber then numberType
  else if op1.definitelyIsString && op2.definitelyIsString then stringType
  else unknownType

/-- **A logical operator is known to give a boolean only when both of its operands are.** -/
theorem definitelyIsBoolean_forLogicalOp {op1 op2 : ResultType}
    (h : (forLogicalOp op1 op2).definitelyIsBoolean = true) :
    op1.definitelyIsBoolean = true ∧ op2.definitelyIsBoolean = true := by
  unfold forLogicalOp at h
  split at h
  · next hb => exact (Bool.and_eq_true _ _).mp hb
  · split at h
    · exact absurd h (by decide)
    · split at h
      · exact absurd h (by decide)
      · exact absurd h (by decide)

/-- It is never known to give an `int32`. -/
theorem isInt32_forLogicalOp (op1 op2 : ResultType) : (forLogicalOp op1 op2).isInt32 = false := by
  unfold forLogicalOp
  split
  · rfl
  · split
    · rfl
    · split <;> rfl

/-- **An addition is known to give a string only when one of its operands is.** -/
theorem definitelyIsString_forAdd {op1 op2 : ResultType}
    (h : (forAdd op1 op2).definitelyIsString = true) :
    op1.definitelyIsString = true ∨ op2.definitelyIsString = true := by
  unfold forAdd at h
  split at h
  · exact absurd h (by decide)
  · split at h
    · next hs => exact (Bool.or_eq_true _ _).mp hs
    · exact absurd h (by decide)

/-- A string is not a number. -/
theorem not_definitelyIsNumber {t : ResultType} (h : t.definitelyIsString = true) :
    t.definitelyIsNumber = false := by
  rw [definitelyIsString, beq_iff_eq] at h
  rw [definitelyIsNumber, h]
  decide

/-- One string operand is enough. -/
theorem forAdd_of_left {op1 : ResultType} (h : op1.definitelyIsString = true) (op2 : ResultType) :
    forAdd op1 op2 = stringType := by
  simp [forAdd, h, not_definitelyIsNumber h]

end ResultType

end JavaScriptCore.Parser
