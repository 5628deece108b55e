/-
# Checked arithmetic

The templates of `CheckedArithmetic.h` predict overflow by comparisons that are themselves computed
in machine arithmetic.  A value is an integer in the range of its type, and `wrap` is what an
expression of a type makes of an exact result; it is applied to every intermediate result, in the
type that C++ gives it.  (For signed types an overflow is undefined; `wrap` is what processors do.)

There are templates for two signed types, two unsigned types, and `int` with `unsigned`.  The tests
are exact, except that

* the signed subtraction refuses a difference that is just the minimum of the result type;
* the signed multiplication of an `int` with an `int64_t` negates the `int` in its own type, where
  its minimum is its own negation;
* a check of the bounds is left out whenever the target is wider, also if the source is signed and
  the target is not.
-/
import Mathlib.Tactic.Linarith

namespace JavaScriptCore.WTF.CheckedArithmetic

/-! ## 1. Types -/

inductive IntegerType where
  | int32
  | uint32
  | int64
  | uint64
  deriving DecidableEq

namespace IntegerType

def signed : IntegerType → Bool
  | int32 | int64 => true
  | uint32 | uint64 => false

def width : IntegerType → Nat
  | int32 | uint32 => 32
  | int64 | uint64 => 64

/-- `std::numeric_limits<T>::min()`. -/
def min (t : IntegerType) : Int := if t.signed then -2 ^ (t.width - 1) else 0

/-- `std::numeric_limits<T>::max()`. -/
def max (t : IntegerType) : Int := if t.signed then 2 ^ (t.width - 1) - 1 else 2 ^ t.width - 1

/-- The value is representable. -/
def InRange (t : IntegerType) (v : Int) : Prop := t.min ≤ v ∧ v ≤ t.max

instance (t : IntegerType) (v : Int) : Decidable (t.InRange v) :=
  inferInstanceAs (Decidable (_ ∧ _))

/-- What an expression of the type makes of an exact result. -/
def wrap (t : IntegerType) (v : Int) : Int := (v - t.min) % 2 ^ t.width + t.min

/-- `Result<U, V>::ResultType`. -/
def result (u v : IntegerType) : IntegerType :=
  if u.width > v.width then u else if u.width < v.width then v else if u.signed then v else u

/-- There is a specialisation of `ArithmeticOperations`. -/
def Supported (u v : IntegerType) : Prop := u.signed = v.signed ∨ (u.width = 32 ∧ v.width = 32)

instance (u v : IntegerType) : Decidable (Supported u v) := inferInstanceAs (Decidable (_ ∨ _))

end IntegerType

open IntegerType

variable (u v r : IntegerType) (lhs rhs result : Int)

/-! ## 2. The operations

They return whether they succeeded, and the new value of `result`. -/

/-- `(lhs ^ rhs) >= 0`: the sign bits agree. -/
def signsMatch : Bool := decide (0 ≤ lhs) = decide (0 ≤ rhs)

def signedAdd : Bool × Int :=
  if signsMatch lhs rhs ∧
      (if 0 ≤ lhs then r.wrap (r.max - rhs) < lhs else rhs < r.wrap (-r.wrap (lhs - r.min))) then
    (false, result)
  else (true, r.wrap (lhs + rhs))

def signedSub : Bool × Int :=
  if ¬ signsMatch lhs rhs ∧ (if 0 ≤ lhs then r.wrap (r.max + rhs) < lhs
    else r.wrap (r.max + lhs) < rhs) then
    (false, result)
  else (true, r.wrap (lhs - rhs))

/-- The negations of `lhs` and `rhs` are computed in the types of the operands. -/
def signedMultiply : Bool × Int :=
  let overflows :=
    if signsMatch lhs rhs then
      if 0 ≤ lhs then lhs ≠ 0 ∧ r.max.tdiv lhs < rhs
      else lhs = r.min ∨ rhs = r.min ∨ r.max.tdiv (u.wrap (-lhs)) < v.wrap (-rhs)
    else if lhs < 0 then rhs ≠ 0 ∧ lhs < r.min.tdiv rhs
    else lhs ≠ 0 ∧ rhs < r.min.tdiv lhs
  if overflows then (false, result) else (true, r.wrap (lhs * rhs))

def unsignedAdd : Bool × Int :=
  if r.wrap (lhs + rhs) < lhs then (false, result) else (true, r.wrap (lhs + rhs))

def unsignedSub : Bool × Int :=
  if lhs < r.wrap (lhs - rhs) then (false, result) else (true, r.wrap (lhs - rhs))

def unsignedMultiply : Bool × Int :=
  if lhs = 0 ∨ rhs = 0 then (true, 0)
  else if r.max.tdiv lhs < rhs then (false, result)
  else (true, r.wrap (lhs * rhs))

/-- The end of the operations on `int` and `unsigned`, which compute in 64 bits. -/
def storeWide (exact : Int) : Bool × Int :=
  let temp := int64.wrap exact
  if temp < r.min then (false, result) else if r.max < temp then (false, result)
  else (true, r.wrap temp)

/-- The template for the two types. -/
def select (signed unsigned wide : Bool × Int) : Bool × Int :=
  if u.signed ≠ v.signed then wide else if u.signed then signed else unsigned

def safeAdd : Bool × Int :=
  select u v (signedAdd r lhs rhs result) (unsignedAdd r lhs rhs result)
    (storeWide r result (lhs + rhs))

def safeSub : Bool × Int :=
  select u v (signedSub r lhs rhs result) (unsignedSub r lhs rhs result)
    (storeWide r result (lhs - rhs))

def safeMultiply : Bool × Int :=
  select u v (signedMultiply u v r lhs rhs result) (unsignedMultiply r lhs rhs result)
    (storeWide r result (lhs * rhs))

/-- `BoundsChecker<Target, Source>::inBounds`. -/
def boundsChecker (target source : IntegerType) (value : Int) : Bool :=
  match target.signed, source.signed with
  | false, false => value ≤ target.max
  | true, true => target.min ≤ value ∧ value ≤ target.max
  | false, true =>
    if value < 0 then false
    else if target.width ≥ source.width then target.wrap value ≤ target.max
    else value ≤ source.wrap target.max
  | true, false => if target.width ≤ source.width then value ≤ source.wrap target.max else true

def isInBounds (target source : IntegerType) (value : Int) : Bool :=
  if target = source ∨ target.width > source.width then true else boundsChecker target source value

/-- What the constructor of `Checked<T>` makes of a value of type `U`: whether it reports an
overflow, and the value. -/
def construct (target source : IntegerType) (value : Int) : Bool × Int :=
  (!isInBounds target source value, target.wrap value)

/-! ## 3. Exactness -/

/-- An `int` and an `int64_t`, both negative, of which the `int` is its own negation, and the
prediction is wrong: a wide `rhs` is refused although the product is representable, a wide `lhs` is
accepted although it is not. -/
def NegationSlips : Prop :=
  (u = int32 ∧ v = int64 ∧ lhs = int32.min ∧ -2 ^ 32 < rhs ∧ rhs < 0) ∨
    (u = int64 ∧ v = int32 ∧ rhs = int32.min ∧ int64.min < lhs ∧ lhs ≤ -2 ^ 32)

/-- The operation succeeds exactly if its result is representable, and then stores it. -/
def Exact (p : Bool × Int) (exact : Int) : Prop :=
  p = if r.InRange exact then (true, exact) else (false, result)

variable {u v r lhs rhs result}

theorem wrap_of_inRange {x : Int} (h : r.InRange x) : r.wrap x = x := by
  obtain ⟨hmin, hmax⟩ := h
  rw [wrap, Int.emod_eq_of_lt] <;> cases r <;> simp [IntegerType.min, IntegerType.max, signed,
    width] at * <;> omega

/-- **An operation that predicts an overflow by `P` is exact where `P` is right.** -/
theorem exact_ite {P : Prop} [Decidable P] {exact : Int} :
    Exact r result (if P then (false, result) else (true, r.wrap exact)) exact ↔
    (P ↔ ¬ r.InRange exact) := by
  unfold Exact
  by_cases hexact : r.InRange exact <;> by_cases hP : P <;> simp [hexact, hP, wrap_of_inRange]

section Types

attribute [local simp] InRange IntegerType.min IntegerType.max signed width

/-- Division truncates, so that a quotient and a product are compared alike. -/
theorem tdiv_lt_iff {a b m : Int} (ha : 0 < a) (hm : 0 ≤ m) : m.tdiv a < b ↔ m < b * a := by
  rw [Int.tdiv_eq_ediv_of_nonneg hm, Int.ediv_lt_iff_lt_mul ha]

theorem lt_tdiv_iff {a b m : Int} (ha : 0 < a) (hm : m ≤ 0) : b < m.tdiv a ↔ b * a < m := by
  have h := tdiv_lt_iff (b := -b) ha (by omega : 0 ≤ -m)
  rw [Int.neg_tdiv, Int.neg_mul] at h
  omega

theorem exact_signedAdd (hr : r.signed = true) (hlhs : r.InRange lhs) (hrhs : r.InRange rhs) :
    Exact r result (signedAdd r lhs rhs result) (lhs + rhs) := by
  refine exact_ite.2 ?_
  cases r <;> simp [wrap, signsMatch] at * <;> split_ifs <;> omega

theorem exact_signedSub_iff (hr : r.signed = true) (hlhs : r.InRange lhs) (hrhs : r.InRange rhs) :
    Exact r result (signedSub r lhs rhs result) (lhs - rhs) ↔ lhs - rhs ≠ r.min := by
  refine exact_ite.trans ?_
  cases r <;> simp [wrap, signsMatch] at * <;> split_ifs <;> omega

theorem exact_unsignedAdd (hr : r.signed = false) (hlhs : r.InRange lhs) (hrhs : r.InRange rhs) :
    Exact r result (unsignedAdd r lhs rhs result) (lhs + rhs) := by
  refine exact_ite.2 ?_
  cases r <;> simp [wrap] at * <;> omega

theorem exact_unsignedSub (hr : r.signed = false) (hlhs : r.InRange lhs) (hrhs : r.InRange rhs) :
    Exact r result (unsignedSub r lhs rhs result) (lhs - rhs) := by
  refine exact_ite.2 ?_
  cases r <;> simp [wrap] at * <;> omega

/-- **Both operands negative**: the prediction computes with the negations, in the types of the
operands. -/
theorem negative_multiply_iff (hu : u.signed = true) (hv : v.signed = true) (hlhs : u.InRange lhs)
    (hrhs : v.InRange rhs) (hl : lhs < 0) (hr : rhs < 0) :
    ((lhs = (u.result v).min ∨ rhs = (u.result v).min ∨
      (u.result v).max.tdiv (u.wrap (-lhs)) < v.wrap (-rhs)) ↔
      (u.result v).max < lhs * rhs) ↔ ¬ NegationSlips u v lhs rhs := by
  have hmax : 0 ≤ (u.result v).max := by cases u <;> cases v <;> decide
  by_cases hneg : u.InRange (-lhs) ∧ v.InRange (-rhs)
  · rw [wrap_of_inRange hneg.1, wrap_of_inRange hneg.2, tdiv_lt_iff (by omega) hmax,
      neg_mul_neg, mul_comm rhs]
    cases u <;> cases v <;> simp at hu hv <;> simp [result, NegationSlips] at * <;> omega
  · -- one of the operands is the minimum of its type
    obtain hmin | hmin : lhs = u.min ∨ rhs = v.min := by
      cases u <;> cases v <;> simp at * <;> omega
    all_goals
      have hquotient : 0 ≤ u.wrap (-lhs) → 0 ≤ (u.result v).max.tdiv (u.wrap (-lhs)) :=
        Int.tdiv_nonneg hmax
      subst hmin
      cases u <;> cases v <;> simp at hu hv <;> simp [result, wrap, NegationSlips] at * <;> omega

/-- **The check of the bounds** is exact, unless it is left out for a signed source and a wider
unsigned target. -/
theorem construct_iff {target source : IntegerType} {value : Int} (hvalue : source.InRange value) :
    ((construct target source value).1 = true ↔ ¬ target.InRange value) ↔
      ¬ (target = uint64 ∧ source = int32 ∧ value < 0) := by
  cases target <;> cases source <;> simp [construct, isInBounds, boundsChecker, wrap] at * <;> omega

theorem inRange_result (h : u.signed = v.signed) (hlhs : u.InRange lhs) (hrhs : v.InRange rhs) :
    (u.result v).InRange lhs ∧ (u.result v).InRange rhs := by
  cases u <;> cases v <;> simp at h <;> simp [result] at * <;> omega

/-- Sums, differences and products of an `int` and an `unsigned` fit 64 bits. -/
theorem inRange_wide (h : u.signed ≠ v.signed) (hwidth : u.width = 32 ∧ v.width = 32)
    (hlhs : u.InRange lhs) (hrhs : v.InRange rhs) :
    int64.InRange (lhs + rhs) ∧ int64.InRange (lhs - rhs) ∧ int64.InRange (lhs * rhs) := by
  cases u <;> cases v <;> simp at h hwidth <;> simp at * <;>
    refine ⟨by omega, by omega, by nlinarith, by nlinarith⟩

end Types

theorem exact_unsignedMultiply (hr : r.signed = false) (hlhs : r.InRange lhs)
    (hrhs : r.InRange rhs) :
    Exact r result (unsignedMultiply r lhs rhs result) (lhs * rhs) := by
  have hmin : r.min = 0 := by simp [IntegerType.min, hr]
  obtain ⟨hlhs, -⟩ := hlhs
  obtain ⟨hrhs, hmax⟩ := hrhs
  rw [hmin] at hlhs hrhs
  have hproduct : 0 ≤ lhs * rhs := mul_nonneg hlhs hrhs
  by_cases hzero : lhs = 0 ∨ rhs = 0
  · have hexact : lhs * rhs = 0 := mul_eq_zero.2 hzero
    simp [unsignedMultiply, hzero, Exact, InRange, hexact, hmin, hrhs.trans hmax]
  · rw [unsignedMultiply, if_neg hzero, exact_ite, tdiv_lt_iff (by omega) (by omega),
      mul_comm, InRange]
    omega

theorem exact_storeWide {exact : Int} (h : int64.InRange exact) :
    Exact r result (storeWide r result exact) exact := by
  have htest : storeWide r result exact =
      if ¬ r.InRange exact then (false, result) else (true, r.wrap exact) := by
    simp only [storeWide, wrap_of_inRange h, InRange]
    grind
  rw [htest, exact_ite]

theorem exact_signedMultiply_iff (hu : u.signed = true) (hv : v.signed = true)
    (hlhs : u.InRange lhs) (hrhs : v.InRange rhs) :
    Exact (u.result v) result (signedMultiply u v (u.result v) lhs rhs result) (lhs * rhs) ↔
      ¬ NegationSlips u v lhs rhs := by
  have hmin : (u.result v).min < 0 := by cases u <;> cases v <;> simp_all [signed] <;> decide
  have hmax : 0 < (u.result v).max := by cases u <;> cases v <;> simp_all [signed] <;> decide
  have hslip (h : 0 ≤ lhs ∨ 0 ≤ rhs) : ¬ NegationSlips u v lhs rhs := by
    simp [NegationSlips, IntegerType.min, signed, width]
    omega
  refine exact_ite.trans ?_
  rcases Int.lt_or_le lhs 0 with hl | hl <;> rcases Int.lt_or_le rhs 0 with hr | hr
  · rw [← negative_multiply_iff hu hv hlhs hrhs hl hr]
    have hproduct : 0 < lhs * rhs := mul_pos_of_neg_of_neg hl hr
    simp [signsMatch, hl.not_ge, hr.not_ge, InRange, (hmin.trans hproduct).le]
  · have hproduct : lhs * rhs ≤ 0 := mul_nonpos_of_nonpos_of_nonneg hl.le hr
    obtain rfl | hpos := hr.eq_or_lt'
    · simp [signsMatch, hl, hl.not_ge, InRange, hmin.le, hmax.le, hslip]
    · simp [signsMatch, hl, hl.not_ge, hr, hpos.ne', lt_tdiv_iff hpos hmin.le, InRange, hslip,
        hproduct.trans hmax.le]
  · have hproduct : lhs * rhs ≤ 0 := mul_nonpos_of_nonneg_of_nonpos hl hr.le
    obtain rfl | hpos := hl.eq_or_lt'
    · simp [signsMatch, hr.not_ge, InRange, hmin.le, hmax.le, hslip]
    · simp [signsMatch, hl, hl.not_gt, hr.not_ge, hpos.ne', lt_tdiv_iff hpos hmin.le, mul_comm rhs,
        InRange, hslip, hproduct.trans hmax.le]
  · have hproduct : 0 ≤ lhs * rhs := mul_nonneg hl hr
    obtain rfl | hpos := hl.eq_or_lt'
    · simp [signsMatch, hr, InRange, hmin.le, hmax.le, hslip]
    · simp [signsMatch, hl, hr, hpos.ne', tdiv_lt_iff hpos hmax.le, mul_comm rhs, InRange, hslip,
        hmin.le.trans hproduct]

/-! ## 4. The templates -/

/-- **The checked arithmetic is exact** except for a signed difference that is the minimum, the
negated `int`, and a negative `int` that is made a `Checked<uint64_t>`. -/
theorem exact_iff {target source : IntegerType} {value : Int} (hs : Supported u v)
    (hlhs : u.InRange lhs) (hrhs : v.InRange rhs) (hvalue : source.InRange value) :
    (Exact (u.result v) result (safeAdd u v (u.result v) lhs rhs result) (lhs + rhs) ∧
      Exact (u.result v) result (safeSub u v (u.result v) lhs rhs result) (lhs - rhs) ∧
      Exact (u.result v) result (safeMultiply u v (u.result v) lhs rhs result) (lhs * rhs) ∧
      ((construct target source value).1 = true ↔ ¬ target.InRange value)) ↔
    ¬ ((u.result v).signed = true ∧ lhs - rhs = (u.result v).min) ∧ ¬ NegationSlips u v lhs rhs ∧
      ¬ (target = uint64 ∧ source = int32 ∧ value < 0) := by
  rw [construct_iff hvalue]
  by_cases hsigned : u.signed = v.signed
  · obtain ⟨hl, hr⟩ := inRange_result hsigned hlhs hrhs
    have hresult : (u.result v).signed = u.signed := by
      cases u <;> cases v <;> first | rfl | cases hsigned
    cases hu : u.signed with
    | true =>
      rw [hu] at hresult
      simp [safeAdd, safeSub, safeMultiply, select, ← hsigned, hu, hresult,
        exact_signedAdd hresult hl hr,
        exact_signedSub_iff hresult hl hr, exact_signedMultiply_iff hu (hsigned ▸ hu) hlhs hrhs]
    | false =>
      rw [hu] at hresult
      have hslip : ¬ NegationSlips u v lhs rhs := by rintro (⟨rfl, -⟩ | ⟨rfl, -⟩) <;> cases hu
      simp [safeAdd, safeSub, safeMultiply, select, ← hsigned, hu, hresult,
        exact_unsignedAdd hresult hl hr,
        exact_unsignedSub hresult hl hr, exact_unsignedMultiply hresult hl hr, hslip]
  · obtain ⟨hadd, hsub, hmultiply⟩ := inRange_wide hsigned (hs.resolve_left hsigned) hlhs hrhs
    have hslip : ¬ NegationSlips u v lhs rhs := by
      rintro (⟨rfl, rfl, -⟩ | ⟨rfl, rfl, -⟩) <;> exact hsigned rfl
    have hresult : (u.result v).signed = false :=
      by cases u <;> cases v <;> simp_all [Supported, signed, width] <;> rfl
    simp [safeAdd, safeSub, safeMultiply, select, hsigned, exact_storeWide hadd,
      exact_storeWide hsub, exact_storeWide hmultiply, hresult, hslip]

/-- Operands of different widths and signs, and a negative `int` that is refused as an `unsigned`.
-/
theorem exact_iff_mixedWidths :
    Exact int64 0 (safeAdd int32 int64 int64 (-3) 5 0) 2 ∧
    Exact int64 0 (safeSub int32 int64 int64 (-3) 5 0) (-8) ∧
      Exact int64 0 (safeMultiply int32 int64 int64 (-3) 5 0) (-15) ∧
      ((construct uint32 int32 (-1)).1 = true ↔ ¬ uint32.InRange (-1)) :=
  (exact_iff (u := int32) (v := int64) (by decide) (by decide) (by decide) (by decide)).2 (by
    refine ⟨by decide, ?_, by decide⟩
    rintro (⟨-, -, h, -⟩ | ⟨h, -⟩)
    · exact absurd h (by decide)
    · cases h)

/-- `-1 - INT_MAX` is `INT_MIN`, and refused; `INT_MIN * -1` is representable as an `int64_t`, and
refused; the product of `-2 ^ 62` and `INT_MIN` is accepted as zero; and `-1` is no overflow of a
`Checked<uint64_t>`. -/
theorem safeSub_refuses_minimum :
    (safeSub int32 int32 int32 (-1) int32.max 7 = (false, 7) ∧ int32.InRange (-1 - int32.max)) ∧
      (safeMultiply int32 int64 int64 int32.min (-1) 7 = (false, 7) ∧
        int64.InRange (int32.min * -1)) ∧
      (safeMultiply int64 int32 int64 (-2 ^ 62) int32.min 7 = (true, 0) ∧
        ¬ int64.InRange (-2 ^ 62 * int32.min)) ∧
      ((construct uint64 int32 (-1)).1 = false ∧ ¬ uint64.InRange (-1)) := by
  decide

end JavaScriptCore.WTF.CheckedArithmetic
