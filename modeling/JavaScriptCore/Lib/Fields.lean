/-
# Numbers made of fields

A number is read as a row of fields of one width.  **Neighbouring fields are added all at once** by
masking every other field and adding what is left to the same of the shifted number (`merge`): the
sum of the fields stays what it was, and there are half as many of them.  From the single bits three
such steps lead to bytes.

The code of a population count varies the step.  The first one subtracts (`sub_eq_merge`), the last
one adds before it masks (`and_mask_eq_merge`), which is right when the sums fit into a field.
-/
import Mathlib.Algebra.Order.Group.Nat
import Mathlib.Data.Nat.Bitwise
import Mathlib.Tactic.Ring

namespace JavaScriptCore.Fields

open List

/-- The sum of the lowest `n` fields of `w` bits. -/
def sum (w : Nat) : Nat → Nat → Nat
  | 0, _ => 0
  | n + 1, x => x % 2 ^ w + sum w n (x / 2 ^ w)

/-- None of the lowest `n` fields is larger than `b`. -/
def Bounded (w b : Nat) : Nat → Nat → Prop
  | 0, _ => True
  | n + 1, x => x % 2 ^ w ≤ b ∧ Bounded w b n (x / 2 ^ w)

/-- The lower half of each of `n` fields of `2 * w` bits. -/
def mask (w : Nat) : Nat → Nat
  | 0 => 0
  | n + 1 => (2 ^ w - 1) + 2 ^ (2 * w) * mask w n

/-- The two halves of each of `n` fields, added. -/
def merge (w n x : Nat) : Nat := (x &&& mask w n) + ((x >>> w) &&& mask w n)

section

variable {w n x b : Nat}

/-- Masking goes field by field. -/
theorem and_mask_succ (w n x : Nat) :
    x &&& mask w (n + 1) = x % 2 ^ w + 2 ^ (2 * w) * (x / 2 ^ (2 * w) &&& mask w n) := by
  have hlow : 2 ^ w - 1 < 2 ^ (2 * w) :=
    Nat.lt_of_lt_of_le (Nat.sub_lt (Nat.two_pow_pos w) Nat.one_pos)
      (Nat.pow_le_pow_right (by decide) (by omega))
  have hmod : x % 2 ^ w < 2 ^ (2 * w) :=
    (Nat.mod_lt x (Nat.two_pow_pos w)).trans_le (Nat.pow_le_pow_right (by decide) (by omega))
  refine Nat.eq_of_testBit_eq fun i => ?_
  rw [mask, Nat.testBit_and, Nat.add_comm (2 ^ w - 1), Nat.add_comm (x % 2 ^ w),
    Nat.testBit_two_pow_mul_add _ hlow, Nat.testBit_two_pow_mul_add _ hmod]
  split
  · rw [Nat.testBit_two_pow_sub_one, Nat.testBit_mod_two_pow, Bool.and_comm]
  · rw [Nat.testBit_and, Nat.testBit_div_two_pow, Nat.sub_add_cancel (by omega)]

theorem div_div_fields (w x : Nat) : x / 2 ^ w / 2 ^ w = x / 2 ^ (2 * w) := by
  rw [Nat.div_div_eq_div_mul, ← Nat.pow_add, Nat.two_mul]

/-- **A step of merging**: the two halves of the lowest field, and the fields above. -/
theorem merge_succ (w n x : Nat) : merge w (n + 1) x =
    (x % 2 ^ w + x / 2 ^ w % 2 ^ w) + 2 ^ (2 * w) * merge w n (x / 2 ^ (2 * w)) := by
  have hshift : x >>> w / 2 ^ (2 * w) = (x / 2 ^ (2 * w)) >>> w := by
    rw [Nat.shiftRight_eq_div_pow, Nat.shiftRight_eq_div_pow, Nat.div_right_comm]
  rw [merge, merge, and_mask_succ, and_mask_succ, hshift, Nat.shiftRight_eq_div_pow, Nat.mul_add]
  omega

/-- Two fields fit into one of twice the width. -/
theorem two_fields_lt (hw : 0 < w) (x y : Nat) : x % 2 ^ w + y % 2 ^ w < 2 ^ (2 * w) := by
  have hx := Nat.mod_lt x (Nat.two_pow_pos w)
  have hy := Nat.mod_lt y (Nat.two_pow_pos w)
  have htwo : 2 ^ w + 2 ^ w ≤ 2 ^ (2 * w) := by
    rw [← Nat.two_mul, ← Nat.pow_succ']
    exact Nat.pow_le_pow_right (by decide) (by omega)
  omega

/-- The lowest field after merging, and the number above it. -/
theorem merge_succ_fields (hw : 0 < w) (n x : Nat) :
    merge w (n + 1) x % 2 ^ (2 * w) = x % 2 ^ w + x / 2 ^ w % 2 ^ w ∧
      merge w (n + 1) x / 2 ^ (2 * w) = merge w n (x / 2 ^ (2 * w)) := by
  have hlt := two_fields_lt hw x (x / 2 ^ w)
  rw [merge_succ, Nat.add_mul_mod_self_left, Nat.mod_eq_of_lt hlt,
    Nat.add_mul_div_left _ _ (Nat.two_pow_pos _), Nat.div_eq_of_lt hlt, Nat.zero_add]
  exact ⟨rfl, rfl⟩

/-- **Merging keeps the sum of the fields.** -/
theorem sum_merge (hw : 0 < w) (n x : Nat) : sum (2 * w) n (merge w n x) = sum w (2 * n) x := by
  induction n generalizing x with
  | zero => rfl
  | succ n ih =>
    obtain ⟨hlow, hhigh⟩ := merge_succ_fields hw n x
    rw [sum, hlow, hhigh, ih, Nat.mul_succ, sum, sum, div_div_fields, Nat.add_assoc]

/-- Merging at most doubles the fields. -/
theorem Bounded.merge (hw : 0 < w) (h : Bounded w b (2 * n) x) :
    Bounded (2 * w) (2 * b) n (merge w n x) := by
  induction n generalizing x with
  | zero => trivial
  | succ n ih =>
    obtain ⟨hlow, hhigh⟩ := merge_succ_fields hw n x
    obtain ⟨hfirst, hsecond, hrest⟩ := h
    rw [div_div_fields] at hrest
    refine ⟨?_, hhigh ▸ ih hrest⟩
    rw [hlow]
    omega

/-- **Subtracting the upper halves** leaves the sum of both halves. -/
theorem sub_eq_merge (n : Nat) {x : Nat} (hx : x < 2 ^ (2 * n)) :
    x - ((x >>> 1) &&& mask 1 n) = merge 1 n x := by
  have hsplit : x = (x &&& mask 1 n) + 2 * ((x >>> 1) &&& mask 1 n) := by
    induction n generalizing x with
    | zero =>
      obtain rfl : x = 0 := by simpa using hx
      rfl
    | succ n ih =>
      have hhigh := ih (x := x / 2 ^ (2 * 1)) (by rw [Nat.mul_succ, Nat.pow_add] at hx; omega)
      have hshift : x >>> 1 / 2 ^ (2 * 1) = (x / 2 ^ (2 * 1)) >>> 1 := by
        rw [Nat.shiftRight_eq_div_pow, Nat.shiftRight_eq_div_pow, Nat.div_right_comm]
      rw [and_mask_succ, and_mask_succ, hshift, Nat.shiftRight_eq_div_pow]
      omega
  rw [merge]
  omega

/-- A number plus itself shifted by a field: each field gets its upper neighbour. -/
theorem add_shiftRight (w x : Nat) : x + (x >>> w) = (x % 2 ^ w + x / 2 ^ w % 2 ^ w) +
    2 ^ w * ((x / 2 ^ w % 2 ^ w + x / 2 ^ (2 * w) % 2 ^ w) +
      2 ^ w * (x / 2 ^ (2 * w) + (x / 2 ^ (2 * w)) >>> w)) := by
  rw [Nat.shiftRight_eq_div_pow, Nat.shiftRight_eq_div_pow, ← div_div_fields]
  have hx := Nat.mod_add_div x (2 ^ w)
  have hy := Nat.mod_add_div (x / 2 ^ w) (2 ^ w)
  have hz := Nat.mod_add_div (x / 2 ^ w / 2 ^ w) (2 ^ w)
  calc x + x / 2 ^ w
      = (x % 2 ^ w + 2 ^ w * (x / 2 ^ w % 2 ^ w + 2 ^ w * (x / 2 ^ w / 2 ^ w))) +
        (x / 2 ^ w % 2 ^ w + 2 ^ w *
          (x / 2 ^ w / 2 ^ w % 2 ^ w + 2 ^ w * (x / 2 ^ w / 2 ^ w / 2 ^ w))) := by
        rw [hz, hy, hx]
    _ = _ := by ring

/-- **Adding before masking** is right if the sum of neighbouring fields fits into a field. -/
theorem and_mask_eq_merge (h : Bounded w b (2 * n) x) (hb : 2 * b < 2 ^ w) :
    (x + (x >>> w)) &&& mask w n = merge w n x := by
  induction n generalizing x with
  | zero => rw [merge, mask, Nat.and_zero, Nat.and_zero, Nat.and_zero]
  | succ n ih =>
    obtain ⟨hfirst, hsecond, hrest⟩ := h
    rw [div_div_fields] at hrest
    have hpos := Nat.two_pow_pos w
    have hfits : x % 2 ^ w + x / 2 ^ w % 2 ^ w < 2 ^ w := by omega
    have hlow : (x + (x >>> w)) % 2 ^ w = x % 2 ^ w + x / 2 ^ w % 2 ^ w := by
      rw [add_shiftRight, Nat.add_mul_mod_self_left, Nat.mod_eq_of_lt hfits]
    have hhigh : (x + (x >>> w)) / 2 ^ (2 * w) &&& mask w n = merge w n (x / 2 ^ (2 * w)) := by
      obtain _ | n := n
      · rw [merge, mask, Nat.and_zero, Nat.and_zero, Nat.and_zero]
      · have hthird : x / 2 ^ (2 * w) % 2 ^ w ≤ b := hrest.1
        have hnext : x / 2 ^ w % 2 ^ w + x / 2 ^ (2 * w) % 2 ^ w < 2 ^ w := by omega
        rw [← ih hrest, ← div_div_fields w (x + _), add_shiftRight, Nat.add_mul_div_left _ _ hpos,
          Nat.div_eq_of_lt hfits, Nat.zero_add, Nat.add_mul_div_left _ _ hpos,
          Nat.div_eq_of_lt hnext, Nat.zero_add]
    rw [and_mask_succ, hlow, hhigh, merge_succ]

/-- The fields of one bit count the bits. -/
theorem sum_one (n x : Nat) : sum 1 n x = (range n).countP x.testBit := by
  induction n generalizing x with
  | zero => rfl
  | succ n ih =>
    have hbit : x % 2 = if x.testBit 0 then 1 else 0 := by
      rw [Nat.testBit_zero]
      simp only [decide_eq_true_eq]
      split <;> omega
    have hrest : (range n).countP (x.testBit ∘ Nat.succ) = (range n).countP (x / 2).testBit :=
      countP_congr fun i _ => by rw [Function.comp_apply, Nat.testBit_succ]
    rw [sum, ih, range_succ_eq_map, countP_cons, countP_map, hrest, Nat.pow_one,
      ← hbit, Nat.add_comm]

theorem bounded_one (n x : Nat) : Bounded 1 1 n x := by
  induction n generalizing x with
  | zero => trivial
  | succ n ih => exact ⟨by omega, ih _⟩

end

end JavaScriptCore.Fields
