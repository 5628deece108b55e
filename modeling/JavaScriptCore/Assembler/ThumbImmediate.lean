/-
# Thumb-2 modified immediates

`ARMThumbImmediate::makeEncodedImm` of `assembler/ARMv7Assembler.h` looks for the 12 bits that the
architecture expands to a 32-bit constant.  `thumbExpandImm` is that expansion, as the architecture
defines it.

**The encoder finds exactly the constants that can be expressed** (`makeEncodedImm_exact`), and the
expansion of what it finds is the constant.
-/
import Mathlib.Algebra.Order.Ring.Nat
import Mathlib.Data.Nat.Log
import JavaScriptCore.Lib.Word

namespace JavaScriptCore.Assembler

open Nat Word

/-! ## 1. The encoder -/

/-- The new `value` and `zeros`. -/
def countLeadingZerosPartial : Nat × Nat → Nat → Nat × Nat
  | (value, zeros), N => if clearLow 32 N value ≠ 0 then (value >>> N, zeros)
    else (value, zeros + N)

def countLeadingZeros (value : Nat) : Nat :=
  if value = 0 then 32 else ([16, 8, 4, 2, 1].foldl countLeadingZerosPartial (value, 0)).2

/-- The bit fields `pattern` and `immediate`. -/
def patternEncoding (pattern immediate : Nat) : Nat := pattern * 256 + immediate

/-- The bit fields `shiftAmount` and `shiftValue7`; what does not fit is dropped. -/
def shiftEncoding (shiftAmount shiftValue7 : Nat) : Nat :=
  shiftAmount % 2 ^ 5 * 128 + shiftValue7 % 2 ^ 7

/-- `byte0` to `byte3` of `PatternBytes`. -/
def byte (value i : Nat) : Nat := value >>> (8 * i) % 256

/-- The end of `makeEncodedImm`, where the bytes are compared.  `none` is `TypeInvalid`. -/
def makePattern (value : Nat) : Option Nat :=
  if byte value 0 = byte value 1 ∧ byte value 0 = byte value 2 ∧ byte value 0 = byte value 3 then
    some (patternEncoding 3 (byte value 0))
  else if byte value 0 = byte value 2 ∧ byte value 1 ||| byte value 3 = 0 then
    some (patternEncoding 1 (byte value 0))
  else if byte value 1 = byte value 3 ∧ byte value 0 ||| byte value 2 = 0 then
    some (patternEncoding 2 (byte value 1))
  else none

def makeEncodedImm (value : Nat) : Option Nat :=
  if value < 256 then some (patternEncoding 0 value)
  else
    let leadingZeros := countLeadingZeros value
    let rightShiftAmount := 24 - leadingZeros
    if value = (value >>> rightShiftAmount) <<< rightShiftAmount then
      some (shiftEncoding (8 + leadingZeros) (value >>> rightShiftAmount))
    else makePattern value

/-! ## 2. The architecture -/

/-- The rotation of a word. -/
def ror (x r : Nat) : Nat := x >>> r ||| x <<< (32 - r) % 2 ^ 32

/-- `ThumbExpandImm`; `none` is UNPREDICTABLE. -/
def thumbExpandImm (imm12 : Nat) : Option Nat :=
  let imm8 := imm12 % 256
  if imm12 / 1024 = 0 then
    match imm12 / 256 with
    | 0 => some imm8
    | 1 => if imm8 = 0 then none else some (imm8 * 0x00010001)
    | 2 => if imm8 = 0 then none else some (imm8 * 0x01000100)
    | _ => if imm8 = 0 then none else some (imm8 * 0x01010101)
  else some (ror (128 + imm12 % 128) (imm12 / 128))

/-- A byte, a byte repeated in one of three ways, or a rotated byte with its top bit set. -/
def IsModifiedImmediate (value : Nat) : Prop :=
  value < 256 ∨
  (∃ b < 256, value = b * 0x00010001 ∨ value = b * 0x01000100 ∨ value = b * 0x01010101) ∨
  ∃ b r, 128 ≤ b ∧ b < 256 ∧ 8 ≤ r ∧ r ≤ 31 ∧ value = ror b r

/-- A value is encoded exactly if it has the property, and expanding the encoding gives it back. -/
def Encodes (value : Nat) (encoding : Option Nat) (property : Prop) : Prop :=
  (encoding.isSome ↔ property) ∧ ∀ e, encoding = some e → e < 2 ^ 12 ∧ thumbExpandImm e = some value

/-! ## 3. Leading zeros -/

variable {value b s : Nat} {property : Prop}

/-- The numbers that are tried: `2 ^ (n - 1), …, 2, 1`. -/
def halves : Nat → List Nat
  | 0 => []
  | n + 1 => 2 ^ n :: halves n

/-- **The bits above the highest one are counted.** -/
theorem foldl_countLeadingZerosPartial {n : Nat} (zeros : Nat) (hn : 2 ^ n ≤ 32) (h0 : value ≠ 0)
    (h : value < 2 ^ 2 ^ n) :
    ((halves n).foldl countLeadingZerosPartial (value, zeros)).2 + log 2 value + 1 =
      zeros + 2 ^ n := by
  induction n generalizing value zeros with
  | zero =>
    obtain rfl : value = 1 := by
      rw [pow_zero, pow_one] at h
      omega
    rfl
  | succ n ih =>
    have hn' : 2 ^ (n + 1) = 2 ^ n + 2 ^ n := by rw [pow_succ, mul_two]
    have hpos := Nat.two_pow_pos (2 ^ n)
    rw [halves, List.foldl_cons, countLeadingZerosPartial, clearLow_eq (by omega)
      (h.trans_le (Nat.pow_le_pow_right two_pos hn))]
    by_cases hhigh : 2 ^ 2 ^ n ≤ value
    · have hdiv := Nat.div_pos hhigh hpos
      have hlog := (Nat.le_log_iff_pow_le (by decide) h0).2 hhigh
      have := ih zeros (by omega) hdiv.ne'
        (by rwa [Nat.div_lt_iff_lt_mul hpos, ← pow_add, ← hn'])
      rw [log_div_base_pow] at this
      rw [if_pos (Nat.mul_pos hdiv hpos).ne', shiftRight_eq_div_pow]
      omega
    · have := ih (zeros + 2 ^ n) (by omega) h0 (not_le.1 hhigh)
      rw [Nat.div_eq_of_lt (not_le.1 hhigh), zero_mul, if_neg (not_not.2 rfl)]
      omega

theorem countLeadingZeros_eq (h0 : value ≠ 0) (h : value < 2 ^ 32) :
    countLeadingZeros value = 31 - log 2 value := by
  have := foldl_countLeadingZerosPartial (n := 5) 0 (by decide) h0 h
  rw [countLeadingZeros, if_neg h0, show [16, 8, 4, 2, 1] = halves 5 from rfl]
  omega

/-- A shift by `s` leaves eight bits. -/
def Leaves (value s : Nat) : Prop := 128 ≤ value >>> s ∧ value >>> s < 256

theorem leaves_iff (h0 : value ≠ 0) : Leaves value s ↔ log 2 value = s + 7 := by
  have hpow : 2 ^ (s + 7) = 128 * 2 ^ s := by rw [pow_add, mul_comm]; rfl
  rw [Leaves, shiftRight_eq_div_pow, Nat.le_div_iff_mul_le (Nat.two_pow_pos s),
    Nat.div_lt_iff_lt_mul (Nat.two_pow_pos s), Nat.log_eq_iff (.inr ⟨by decide, h0⟩),
    pow_succ 2 (s + 7), hpow]
  omega

/-- The code shifts until the highest eight bits are left. -/
theorem makeEncodedImm_of_le (hlow : 256 ≤ value) (h : value < 2 ^ 32) :
    ∃ s, 1 ≤ s ∧ s ≤ 24 ∧ Leaves value s ∧ makeEncodedImm value =
      if value = (value >>> s) <<< s then some (shiftEncoding (32 - s) (value >>> s))
      else makePattern value := by
  have h0 : value ≠ 0 := by omega
  have hlog : 8 ≤ log 2 value := (Nat.le_log_iff_pow_le (by decide) h0).2 hlow
  have hlog' : log 2 value < 32 := (Nat.log_lt_iff_lt_pow (by decide) h0).2 h
  refine ⟨log 2 value - 7, by omega, by omega, (leaves_iff h0).2 (by omega), ?_⟩
  rw [makeEncodedImm, if_neg (by omega), countLeadingZeros_eq h0 h]
  simp only [show 24 - (31 - log 2 value) = log 2 value - 7 by omega,
    show 8 + (31 - log 2 value) = 32 - (log 2 value - 7) by omega]

/-! ## 4. Exactness -/

theorem Encodes.some {e : Nat} (h : e < 2 ^ 12 ∧ thumbExpandImm e = some value) (hp : property) :
    Encodes value (some e) property :=
  ⟨⟨fun _ => hp, fun _ => rfl⟩, fun _ he => Option.some.inj he ▸ h⟩

/-- A rotated byte is a shifted one. -/
theorem ror_eq (hb : b < 256) (hs : s ≤ 24) : ror b (32 - s) = b <<< s := by
  have hlow : b >>> (32 - s) = 0 := by
    rw [shiftRight_eq_div_pow]
    exact Nat.div_eq_of_lt (hb.trans_le (Nat.pow_le_pow_right (i := 8) two_pos (by omega)))
  have hhigh : b <<< s < 2 ^ 32 := by
    rw [shiftLeft_eq]
    calc b * 2 ^ s < 2 ^ 8 * 2 ^ s := Nat.mul_lt_mul_of_pos_right hb (Nat.two_pow_pos s)
      _ ≤ 2 ^ 8 * 2 ^ 24 := Nat.mul_le_mul_left _ (Nat.pow_le_pow_right two_pos hs)
  rw [ror, hlow, Nat.zero_or, Nat.sub_sub_self (by omega), mod_eq_of_lt hhigh]

theorem thumbExpandImm_shift (hb : 128 ≤ b) (hb' : b < 256) (hs : 1 ≤ s) (hs' : s ≤ 24) :
    shiftEncoding (32 - s) b < 2 ^ 12 ∧ thumbExpandImm (shiftEncoding (32 - s) b) =
      some (b <<< s) := by
  have hfields : shiftEncoding (32 - s) b / 1024 ≠ 0 ∧ 128 + shiftEncoding (32 - s) b % 128 = b ∧
      shiftEncoding (32 - s) b / 128 = 32 - s ∧ shiftEncoding (32 - s) b < 2 ^ 12 := by
    rw [shiftEncoding]
    omega
  rw [thumbExpandImm, if_neg hfields.1, hfields.2.1, hfields.2.2.1, ror_eq hb' hs']
  exact ⟨hfields.2.2.2, rfl⟩

theorem thumbExpandImm_pattern {p : Nat} (hb : b < 256) (h0 : b ≠ 0)
    (hp : p = 1 ∧ value = b * 0x00010001 ∨ p = 2 ∧ value = b * 0x01000100 ∨ p = 3 ∧
      value = b * 0x01010101) :
    patternEncoding p b < 2 ^ 12 ∧ thumbExpandImm (patternEncoding p b) = some value := by
  have hfields : patternEncoding p b < 1024 ∧ patternEncoding p b / 256 = p ∧
      patternEncoding p b % 256 = b := by
    rw [patternEncoding]
    omega
  refine ⟨by omega, ?_⟩
  rw [thumbExpandImm, if_pos (Nat.div_eq_of_lt hfields.1), hfields.2.1, hfields.2.2]
  obtain ⟨rfl, rfl⟩ | ⟨rfl, rfl⟩ | ⟨rfl, rfl⟩ := hp <;> exact if_neg h0

theorem eq_bytes (h : value < 2 ^ 32) :
    value = byte value 0 + byte value 1 * 2 ^ 8 + byte value 2 * 2 ^ 16 + byte value 3 * 2 ^ 24 ∧
      byte value 0 < 256 ∧ byte value 1 < 256 ∧ byte value 2 < 256 ∧ byte value 3 < 256 := by
  simp only [byte, shiftRight_eq_div_pow]
  omega

/-- **The comparison of the bytes** finds the three patterns. -/
theorem encodes_makePattern (h0 : value ≠ 0) (h : value < 2 ^ 32) :
    Encodes value (makePattern value)
    (∃ b < 256, value = b * 0x00010001 ∨ value = b * 0x01000100 ∨ value = b * 0x01010101) := by
  obtain ⟨hbytes, hlt⟩ := eq_bytes h
  simp only [makePattern, Nat.or_eq_zero_iff]
  generalize byte value 0 = b0, byte value 1 = b1, byte value 2 = b2, byte value 3 = b3 at *
  split_ifs with h3 h1 h2
  · exact .some (thumbExpandImm_pattern (by omega) (by omega) (by omega)) ⟨b0, by omega, by omega⟩
  · exact .some (thumbExpandImm_pattern (by omega) (by omega) (by omega)) ⟨b0, by omega, by omega⟩
  · exact .some (thumbExpandImm_pattern (by omega) (by omega) (by omega)) ⟨b1, by omega, by omega⟩
  · refine ⟨⟨nofun, ?_⟩, nofun⟩
    rintro ⟨b, hb, hvalue⟩
    have h0 : b0 = b ∨ b0 = 0 := by omega
    have h1 : b1 = b ∨ b1 = 0 := by omega
    have h2 : b2 = b ∨ b2 = 0 := by omega
    omega

/-- **The encoder is exact.** -/
theorem makeEncodedImm_exact (value : BitVec 32) :
    Encodes value.toNat (makeEncodedImm value.toNat) (IsModifiedImmediate value.toNat) := by
  have h := value.isLt
  generalize value.toNat = value at h
  obtain hbyte | hlow := Nat.lt_or_ge value 256
  · rw [makeEncodedImm, if_pos hbyte]
    refine .some ?_ (.inl hbyte)
    rw [patternEncoding, zero_mul, zero_add, thumbExpandImm, if_pos (Nat.div_eq_of_lt (by omega)),
      Nat.div_eq_of_lt hbyte, mod_eq_of_lt hbyte]
    exact ⟨by omega, rfl⟩
  obtain ⟨s, hs, hs', htop, hmake⟩ := makeEncodedImm_of_le hlow h
  rw [hmake]
  split_ifs with hshift
  · have hexpand := thumbExpandImm_shift htop.1 htop.2 hs hs'
    have hror := ror_eq htop.2 hs'
    rw [← hshift] at hexpand hror
    exact .some hexpand (.inr (.inr ⟨_, 32 - s, htop.1, htop.2, by omega, by omega, hror.symm⟩))
  · have hpattern := encodes_makePattern (by omega) h
    refine ⟨hpattern.1.trans ⟨fun hp => .inr (.inl hp), ?_⟩, hpattern.2⟩
    rintro (hbyte | hp | ⟨b, r, hb, hb', hr, hr', hror⟩)
    · omega
    · exact hp
    -- A shifted byte would have been found: its highest bit gives the amount.
    · rw [← Nat.sub_sub_self (show r ≤ 32 by omega), ror_eq hb' (by omega)] at hror
      have hrest : value >>> (32 - r) = b := by rw [hror, Nat.shiftLeft_shiftRight]
      have hlog :=
        (leaves_iff (by omega)).1 (show Leaves value (32 - r) from ⟨hrest ▸ hb, hrest ▸ hb'⟩)
      rw [(leaves_iff (by omega)).1 htop, Nat.add_right_cancel_iff] at hlog
      rw [hlog, hrest] at hshift
      exact absurd hror hshift

end JavaScriptCore.Assembler
