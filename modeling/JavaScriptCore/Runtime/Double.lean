/-
# Doubles, as far as they are compared and converted to integers

A double is a rational number, one of the infinities, NaN or the negative zero.  The comparisons are
those of C++: NaN is equal to nothing and the two zeros are equal.
-/
import Mathlib.Data.Rat.Floor

namespace JavaScriptCore.Runtime

/-- The numbers that are stored as doubles. -/
inductive Double where
  | nan
  | negZero
  | infinity (negative : Bool)
  | finite (q : ℚ)
  deriving DecidableEq

/-- `static_cast<int>` of a double; what is out of range gives the smallest integer. -/
def staticCastInt : Double → Int
  | .finite q =>
    let i := if q < 0 then q.ceil else q.floor
    if -2 ^ 31 ≤ i ∧ i < 2 ^ 31 then i else -2 ^ 31
  | .negZero => 0
  | _ => -2 ^ 31

/-- The comparison `i == d`. -/
def Double.eqInt (d : Double) (i : Int) : Bool :=
  match d with
  | .nan => false
  | .negZero => i = 0
  | .infinity _ => false
  | .finite q => q = i

/-- The comparison `d == e`. -/
def Double.equals : Double → Double → Bool
  | .infinity n, .infinity n' => n == n'
  | .finite q, .finite q' => q = q'
  | .finite q, .negZero => q = 0
  | .negZero, .finite q => q = 0
  | .negZero, .negZero => true
  | _, _ => false

theorem Double.equals_comm (d e : Double) : d.equals e = e.equals d := by
  cases d with
  | nan | negZero => cases e <;> rfl
  | infinity n =>
    cases e with
    | infinity n' => exact Bool.beq_comm
    | _ => rfl
  | finite q =>
    cases e with
    | finite q' => exact decide_eq_decide.mpr eq_comm
    | _ => rfl

/-- A double that is equal to an `int` is converted to it. -/
theorem staticCastInt_of_eqInt {d : Double} {i : Int} (h : d.eqInt i = true) (hlo : -2 ^ 31 ≤ i)
    (hhi : i < 2 ^ 31) : staticCastInt d = i := by
  cases d with
  | nan | infinity n => exact absurd h (by simp [Double.eqInt])
  | negZero =>
    rw [Double.eqInt, decide_eq_true_eq] at h
    exact h.symm
  | finite q =>
    rw [Double.eqInt, decide_eq_true_eq] at h
    subst h
    have hround : (if (i : ℚ) < 0 then (i : ℚ).ceil else (i : ℚ).floor) = i := by simp
    simp only [staticCastInt, hround]
    exact if_pos ⟨hlo, hhi⟩

/-- Two doubles of which one is equal to an integer are equal when the other is equal to it as well.
-/
theorem equals_iff_eqInt {c d : Double} {i : Int} (h : c.eqInt i = true) :
    c.equals d = d.eqInt i := by
  cases c with
  | nan | infinity n => exact absurd h (by simp [Double.eqInt])
  | negZero =>
    rw [Double.eqInt, decide_eq_true_eq] at h
    subst h
    cases d <;> simp [Double.equals, Double.eqInt]
  | finite q =>
    rw [Double.eqInt, decide_eq_true_eq] at h
    subst h
    cases d with
    | finite q' =>
      simp only [Double.equals, Double.eqInt]
      exact decide_eq_decide.mpr eq_comm
    | _ => simp [Double.equals, Double.eqInt]

end JavaScriptCore.Runtime
