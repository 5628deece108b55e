/-
# Unsigned machine arithmetic on natural numbers

A value of an unsigned type of `w` bits is a natural number below `2 ^ w`.  Addition and subtraction
wrap around; both are the exact operation as soon as the exact result is a value of the type, and
this is the only thing a proof about them should use (`add_of_lt`, `sub_of_le`).

`clearLow w k x` is the C idiom `x & ~((1 << k) - 1)`, which rounds down to a multiple of `2 ^ k`.
-/
import Mathlib.Data.Nat.Bitwise

namespace Word

open Nat

/-- `a + b` in `w` bits. -/
def add (w a b : Nat) : Nat := (a + b) % 2 ^ w

/-- `a - b` in `w` bits. -/
def sub (w a b : Nat) : Nat := (a + (2 ^ w - b)) % 2 ^ w

/-- `x & ~((1 << k) - 1)` in `w` bits. -/
def clearLow (w k x : Nat) : Nat := x &&& (2 ^ w - 2 ^ k)

variable {w a b k x : Nat}

theorem add_of_lt (h : a + b < 2 ^ w) : add w a b = a + b := mod_eq_of_lt h

theorem sub_of_le (h : b ≤ a) (ha : a < 2 ^ w) : sub w a b = a - b := by
  have hsum : a + (2 ^ w - b) = (a - b) + 2 ^ w := by omega
  rw [sub, hsum, add_mod_right]
  exact mod_eq_of_lt (by omega)

/-- The mask keeps the bits from `k` on. -/
theorem two_pow_sub_two_pow (hk : k ≤ w) : 2 ^ w - 2 ^ k = (2 ^ (w - k) - 1) <<< k := by
  rw [Nat.shiftLeft_eq, Nat.sub_mul, one_mul, ← pow_add, Nat.sub_add_cancel hk]

/-- **Masking rounds down.** -/
theorem clearLow_eq (hk : k ≤ w) (hx : x < 2 ^ w) : clearLow w k x = x / 2 ^ k * 2 ^ k := by
  have hquot : x / 2 ^ k < 2 ^ (w - k) := by
    rw [Nat.div_lt_iff_lt_mul (Nat.two_pow_pos k), ← pow_add, Nat.sub_add_cancel hk]
    exact hx
  have hmask : x &&& ((2 ^ (w - k) - 1) <<< k) = ((x >>> k) &&& (2 ^ (w - k) - 1)) <<< k := by
    apply eq_of_testBit_eq
    intro i
    simp only [testBit_and, testBit_shiftLeft, testBit_shiftRight]
    by_cases hi : k ≤ i
    · simp [hi, Nat.add_sub_cancel' hi]
    · simp [hi]
  rw [clearLow, two_pow_sub_two_pow hk, hmask, and_two_pow_sub_one_eq_mod,
    shiftRight_eq_div_pow, mod_eq_of_lt hquot, shiftLeft_eq]

/-! ## Rounding up to a multiple of a power of two -/

/-- `(x + 2 ^ k - 1) & ~(2 ^ k - 1)`, the usual way to round up. -/
def alignUp (w k x : Nat) : Nat := clearLow w k (sub w (add w x (2 ^ k)) 1)

/-- The intermediate sum may be `2 ^ w` itself: it wraps to zero and the subtraction wraps back. -/
theorem sub_add_one (hpos : 0 < a + b) (h : a + b ≤ 2 ^ w) : sub w (add w a b) 1 = a + b - 1 := by
  rcases lt_or_eq_of_le h with hlt | heq
  · rw [add_of_lt hlt, sub_of_le hpos hlt]
  · rw [add, heq, mod_self, sub, zero_add, mod_eq_of_lt (by omega)]

/-- **Rounding up**, as long as the largest sum is a value of the type. -/
theorem alignUp_eq (hk : k ≤ w) (hx : x + 2 ^ k ≤ 2 ^ w) :
    alignUp w k x = (x + 2 ^ k - 1) / 2 ^ k * 2 ^ k := by
  have hpos : 0 < 2 ^ k := Nat.two_pow_pos k
  rw [alignUp, sub_add_one (by omega) hx, clearLow_eq hk (by omega)]

theorem le_ceil_mul (k x : Nat) : x ≤ (x + 2 ^ k - 1) / 2 ^ k * 2 ^ k := by
  have hpos : 0 < 2 ^ k := Nat.two_pow_pos k
  have := div_add_mod (x + 2 ^ k - 1) (2 ^ k)
  rw [mul_comm]
  omega

theorem ceil_mul_lt (k x : Nat) : (x + 2 ^ k - 1) / 2 ^ k * 2 ^ k < x + 2 ^ k := by
  have hpos : 0 < 2 ^ k := Nat.two_pow_pos k
  have := div_mul_le_self (x + 2 ^ k - 1) (2 ^ k)
  omega

/-- Rounding up never passes a multiple that was above already. -/
theorem ceil_mul_le {m : Nat} (h : x ≤ m * 2 ^ k) :
    (x + 2 ^ k - 1) / 2 ^ k * 2 ^ k ≤ m * 2 ^ k := by
  have hlt := ceil_mul_lt k x
  have : (x + 2 ^ k - 1) / 2 ^ k < m + 1 := by
    apply Nat.lt_of_mul_lt_mul_right
    calc (x + 2 ^ k - 1) / 2 ^ k * 2 ^ k < x + 2 ^ k := hlt
      _ ≤ (m + 1) * 2 ^ k := by rw [Nat.add_mul, one_mul]; omega
  exact Nat.mul_le_mul_right _ (by omega)

end Word
