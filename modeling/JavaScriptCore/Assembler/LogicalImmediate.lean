/-
# ARM64 logical immediates

`LogicalImmediate` of `assembler/ARM64Assembler.h` looks for the fields `immN:immr:imms` that stand
for a constant.  `decodeBitMasks` is what the architecture makes of them.

**Both functions find exactly the constants that can be expressed** (`create_exact`).  A value in
which a range of bits is found is one of a few that are made of masks, so what its fields stand for
is computed.  The `ASSERT`s of `encodeLogicalImmediate` hold for what `findBitRange` returns
(`findBitRange_bounds`), so its differences are not negative.
-/
import JavaScriptCore.Lib.Word

namespace JavaScriptCore.Assembler.LogicalImmediate

open Nat Word

/-! ## 1. The encoder -/

def mask (hsb : Nat) : Nat := (2 ^ 64 - 1) >>> (63 - hsb)

/-- The new `value` and `result`. -/
def partialHSB : Nat × Nat → Nat → Nat × Nat
  | (value, result), N =>
    match clearLow 64 N value with
    | 0 => (value, result)
    | _ + 1 => (value >>> N, result + N)

def highestSetBit (value : Nat) : Nat := ([32, 16, 8, 4, 2, 1].foldl partialHSB (value, 0)).2

structure BitRange where
  hsb : Nat
  lsb : Nat
  inverted : Bool

def findBitRange (width value : Nat) : Option BitRange :=
  let inverted : Bool := value &&& 1 <<< (width - 1) ≠ 0
  let value := if inverted then value ^^^ mask (width - 1) else value
  let hsb := highestSetBit value
  let value := value ^^^ mask hsb
  if value = 0 then some ⟨hsb, 0, inverted⟩
  else
    let lsb := highestSetBit value
    if value ^^^ mask lsb = 0 then some ⟨hsb, lsb + 1, inverted⟩ else none

def encodeLogicalImmediate (width : Nat) (range : BitRange) : Nat :=
  let immN := if width = 64 then 1 else 0
  let imms := if width = 64 then 0 else 63 &&& (2 ^ 32 - 1 - (width + width - 1))
  let length := range.hsb - range.lsb + 1
  if range.inverted then immN <<< 12 ||| (width - 1 - range.hsb) <<< 6
    ||| (imms ||| width - length - 1)
  else immN <<< 12 ||| ((width - range.lsb) &&& (width - 1)) <<< 6 ||| (imms ||| length - 1)

/-- A range of bits, or two equal halves that are tried in turn.  `none` is
`InvalidLogicalImmediate`. -/
def createWidth (width : Nat) (narrower : Nat → Option Nat) (value : Nat) : Option Nat :=
  match findBitRange width value with
  | some range => some (encodeLogicalImmediate width range)
  | none =>
    if value % 2 ^ (width / 2) = value >>> (width / 2) then narrower (value % 2 ^ (width / 2))
    else none

/-- `create32` from the pattern of `2 ^ n` bits on. -/
def createFrom : Nat → Nat → Option Nat
  | 0, _ => none
  | n + 1, value => createWidth (2 ^ (n + 1)) (createFrom n) value

def create32 (value : Nat) : Option Nat :=
  if value = 0 ∨ value = 2 ^ 32 - 1 then none else createFrom 5 value

def create64 (value : Nat) : Option Nat :=
  if value = 0 ∨ value = 2 ^ 64 - 1 then none else createWidth 64 create32 value

/-! ## 2. The architecture -/

/-- Copies of an element of `e` bits. -/
def replicate (e x : Nat) : Nat → Nat
  | 0 => 0
  | n + 1 => x ||| replicate e x n <<< e

/-- A run of `k` ones in `e` bits, rotated to the right by `r`, repeated in `M` bits. -/
def rotatedRun (M e k r : Nat) : Nat :=
  replicate e ((2 ^ k - 1) >>> r ||| (2 ^ k - 1) <<< (e - r) % 2 ^ e) (M / e)

/-- `DecodeBitMasks` of the fields of an immediate; `none` is UNDEFINED. -/
def decodeBitMasks (M encoding : Nat) : Option Nat :=
  let imms := encoding % 64
  let len := log2 ((encoding >>> 12) * 64 + (63 - imms))
  let levels := 2 ^ len - 1
  if len < 1 ∨ M < 2 ^ len ∨ imms &&& levels = levels then none
  else some (rotatedRun M (2 ^ len) ((imms &&& levels) + 1) ((encoding >>> 6) % 64 &&& levels))

/-- A run with a period of `2, 4, …, M` bits that is neither empty nor fills the period. -/
def IsLogicalImmediate (M value : Nat) : Prop :=
  ∃ n k r, 2 ^ n ≤ M ∧ 0 < k ∧ k < 2 ^ n ∧ r < 2 ^ n ∧ value = rotatedRun M (2 ^ n) k r

/-- The value is encoded exactly if it is a logical immediate, and decoding gives it back. -/
def Encodes (M value : Nat) (encoding : Option Nat) : Prop :=
  (encoding.isSome ↔ IsLogicalImmediate M value) ∧
    ∀ e, encoding = some e → e < 2 ^ 13 ∧ decodeBitMasks M e = some value

/-! ## 3. What is found is decoded -/

variable {M n e value width : Nat}

theorem isLogicalImmediate_of_decodeBitMasks (h : decodeBitMasks M e = some value) :
    IsLogicalImmediate M value := by
  simp only [decodeBitMasks] at h
  generalize log2 _ = len at h
  split_ifs at h with hundefined
  have hlevels : e % 64 &&& 2 ^ len - 1 ≤ 2 ^ len - 1 := and_le_right
  have hpos := Nat.two_pow_pos len
  refine ⟨len, _, _, by omega, Nat.succ_pos _, by omega, ?_, (Option.some.inj h).symm⟩
  exact Nat.lt_of_le_pred hpos and_le_right

theorem foldl_partialHSB_le (s : Nat × Nat) (l : List Nat) :
    (l.foldl partialHSB s).2 ≤ s.2 + l.sum := by
  induction l generalizing s with
  | nil => exact Nat.le_refl _
  | cons N l ih =>
    have hstep : (partialHSB s N).2 ≤ s.2 + N := by
      rw [partialHSB]
      split <;> simp
    have := ih (partialHSB s N)
    rw [List.foldl_cons, List.sum_cons]
    omega

theorem highestSetBit_lt (value : Nat) : highestSetBit value < 64 :=
  Nat.lt_succ_of_le (foldl_partialHSB_le (value, 0) [32, 16, 8, 4, 2, 1])

def below : Nat → Nat
  | 0 => 0
  | lsb + 1 => mask lsb

/-- The bits from `lsb` to `hsb`. -/
def BitRange.bits (range : BitRange) : Nat := mask range.hsb ^^^ below range.lsb

/-- The value in which the range is found. -/
def BitRange.source (width : Nat) (range : BitRange) : Nat :=
  range.bits ^^^ if range.inverted then mask (width - 1) else 0

/-- **A value in which a range is found is made of masks.** -/
theorem findBitRange_spec {range : BitRange} (h : findBitRange width value = some range) :
    value = range.source width ∧ highestSetBit range.bits = range.hsb ∧ range.hsb < 64 ∧
    range.lsb < 65 := by
  simp only [findBitRange] at h
  generalize decide (value &&& 1 <<< (width - 1) ≠ 0) = inverted at h
  obtain ⟨v, hv, hvalue⟩ : ∃ v, (if inverted then value ^^^ mask (width - 1) else value) = v ∧
      value = v ^^^ if inverted then mask (width - 1) else 0 := by
    refine ⟨_, rfl, ?_⟩
    split_ifs
    · rw [Nat.xor_assoc, Nat.xor_self, Nat.xor_zero]
    · rw [Nat.xor_zero]
  rw [hv] at h
  obtain ⟨lsb, hlsb, hbelow, rfl⟩ : ∃ lsb < 65, v ^^^ mask (highestSetBit v) = below lsb ∧
      ⟨highestSetBit v, lsb, inverted⟩ = range := by
    split_ifs at h with hzero hone
    · exact ⟨0, by decide, hzero, Option.some.inj h⟩
    · exact ⟨_, Nat.succ_lt_succ (highestSetBit_lt _), Nat.xor_eq_zero_iff.1 hone,
        Option.some.inj h⟩
  have hbits : v = BitRange.bits ⟨highestSetBit v, lsb, inverted⟩ := by
    rw [BitRange.bits, ← hbelow, Nat.xor_comm v (mask _), ← Nat.xor_assoc,
      Nat.xor_self, Nat.zero_xor]
  rw [BitRange.source, ← hbits]
  exact ⟨hvalue, rfl, highestSetBit_lt v, hlsb⟩

/-- How often `2 ^ n` bits are repeated in `M` bits, as a factor. -/
def factor (M n : Nat) : Nat := (2 ^ M - 1) / (2 ^ 2 ^ n - 1)

/-- The value is neither zero nor all ones in `b` bits. -/
def Mixed (b value : Nat) : Prop := 0 < value ∧ value < 2 ^ b - 1

instance (b : Nat) : Decidable (Mixed b value) := by
  unfold Mixed
  infer_instance

/-- The range lies in the width and is decoded to the copies of its value. -/
def Decodes (n : Nat) (range : BitRange) : Prop :=
  Mixed (2 ^ n) (range.source (2 ^ n)) →
    (range.lsb ≤ range.hsb ∧ range.hsb < 2 ^ n) ∧
    ∀ M ∈ [32, 64], 2 ^ n ≤ M →
      encodeLogicalImmediate (2 ^ n) range < 2 ^ 13 ∧
      decodeBitMasks M (encodeLogicalImmediate (2 ^ n) range)
        = some (range.source (2 ^ n) * factor M n)

instance (range : BitRange) : Decidable (Decodes n range) := by
  unfold Decodes
  infer_instance

theorem decodes : ∀ hsb < 64, ∀ lsb < 65, highestSetBit (BitRange.bits ⟨hsb, lsb, false⟩) = hsb →
    ∀ n < 7, ∀ inverted, Decodes n ⟨hsb, lsb, inverted⟩ := by
  decide +kernel

theorem decodes_of_findBitRange {range : BitRange} (hn : n < 7)
    (h : findBitRange (2 ^ n) value = some range) :
    value = range.source (2 ^ n) ∧ Decodes n range := by
  obtain ⟨hvalue, hbits, hhsb, hlsb⟩ := findBitRange_spec h
  exact ⟨hvalue, decodes _ hhsb _ hlsb hbits n hn _⟩

/-- **The `ASSERT`s of `encodeLogicalImmediate` hold** for a range that was found. -/
theorem findBitRange_bounds {range : BitRange} (hn : n < 7) (hmixed : Mixed (2 ^ n) value)
    (h : findBitRange (2 ^ n) value = some range) :
    range.lsb ≤ range.hsb ∧ range.hsb < 2 ^ n := by
  obtain ⟨rfl, hdecodes⟩ := decodes_of_findBitRange hn h
  exact (hdecodes hmixed).1

/-- **Equal halves: the value is two copies of one, which is again neither zero nor all ones.** -/
theorem Mixed.low {b : Nat} (h : value % 2 ^ b = value >>> b) (hmixed : Mixed (2 * b) value) :
    value = value % 2 ^ b * (2 ^ b + 1) ∧ Mixed b (value % 2 ^ b) := by
  rw [Nat.shiftRight_eq_div_pow] at h
  have hvalue : value = value % 2 ^ b * (2 ^ b + 1) := by
    calc value = 2 ^ b * (value / 2 ^ b) + value % 2 ^ b := (Nat.div_add_mod _ _).symm
      _ = value % 2 ^ b * (2 ^ b + 1) := by rw [← h, Nat.mul_succ, Nat.mul_comm]
  have hones : 2 ^ (2 * b) - 1 = (2 ^ b - 1) * (2 ^ b + 1) := by
    rw [Nat.two_mul, Nat.pow_add, Nat.mul_comm (2 ^ b - 1), ← Nat.mul_self_sub_mul_self_eq,
      Nat.one_mul]
  obtain ⟨hpos, hlt⟩ := hmixed
  rw [hones, hvalue] at hlt
  rw [hvalue] at hpos
  exact ⟨hvalue, Nat.pos_of_mul_pos_right hpos, Nat.lt_of_mul_lt_mul_right hlt⟩

theorem factor_succ : ∀ M ∈ [32, 64], ∀ n < 6, 2 ^ (n + 1) ≤ M →
    factor M n = (2 ^ 2 ^ n + 1) * factor M (n + 1) := by
  decide +kernel

/-- The encoding, if there is one, is decoded to the copies of the value. -/
def Sound (M n value : Nat) (encoding : Option Nat) : Prop :=
  ∀ e, encoding = some e → e < 2 ^ 13 ∧ decodeBitMasks M e = some (value * factor M n)

section Sound

variable (hM : M ∈ [32, 64])

include hM

/-- **One width**, and the narrower ones after it. -/
theorem createWidth_sound {narrower : Nat → Option Nat} (hn : n < 6) (hle : 2 ^ (n + 1) ≤ M)
    (h : Mixed (2 ^ (n + 1)) value)
    (hnarrower : ∀ {v}, Mixed (2 ^ n) v → Sound M n v (narrower v)) :
    Sound M (n + 1) value (createWidth (2 ^ (n + 1)) narrower value) := by
  intro e he
  rw [createWidth] at he
  split at he
  next range hrange =>
    obtain ⟨rfl, hdecodes⟩ := decodes_of_findBitRange (by omega) hrange
    cases he
    exact (hdecodes h).2 M hM hle
  next =>
    rw [Nat.pow_succ, Nat.mul_div_cancel _ Nat.two_pos] at he
    split_ifs at he with hhalves
    obtain ⟨hvalue, hlow⟩ := Mixed.low hhalves (by rwa [← Nat.pow_succ'])
    rw [hvalue, Nat.mul_assoc, ← factor_succ M hM n hn hle]
    exact hnarrower hlow e he

theorem createFrom_sound (hn : n < 6) (h : Mixed (2 ^ n) value) :
    Sound M n value (createFrom n value) := by
  induction n generalizing value with
  | zero =>
    intro e he
    cases he
  | succ n ih =>
    have hle : 2 ^ (n + 1) ≤ 2 ^ 5 := Nat.pow_le_pow_right Nat.two_pos (by omega)
    have hM' : 2 ^ 5 ≤ M := by
      simp only [List.mem_cons, List.not_mem_nil, or_false] at hM
      omega
    exact createWidth_sound hM (by omega) (hle.trans hM') h (ih (by omega))

theorem create32_sound (hlt : value < 2 ^ 32) : Sound M 5 value (create32 value) := by
  intro e he
  rw [create32] at he
  split_ifs at he
  exact createFrom_sound hM (by decide) ⟨by omega, by omega⟩ e he

end Sound

theorem create64_sound (hlt : value < 2 ^ 64) : Sound 64 6 value (create64 value) := by
  intro e he
  rw [create64] at he
  split_ifs at he
  exact createWidth_sound (by decide) (by decide) (by decide) ⟨by omega, by omega⟩
    (fun hv => create32_sound (by decide) (hv.2.trans (by decide))) e he

/-! ## 4. Exactness -/

theorem create32_rotatedRun : ∀ n < 6, ∀ k < 2 ^ n, 0 < k → ∀ r < 2 ^ n,
    (create32 (rotatedRun 32 (2 ^ n) k r)).isSome := by
  decide +kernel

theorem create64_rotatedRun : ∀ n < 7, ∀ k < 2 ^ n, 0 < k → ∀ r < 2 ^ n,
    (create64 (rotatedRun 64 (2 ^ n) k r)).isSome := by
  decide +kernel

theorem encodes {create : Nat → Option Nat} (hM : M = 2 ^ n) (hfactor : factor M n = 1)
    (hsound : Sound M n value (create value))
    (hcomplete : ∀ m < n + 1, ∀ k < 2 ^ m, 0 < k →
      ∀ r < 2 ^ m, (create (rotatedRun M (2 ^ m) k r)).isSome) :
    Encodes M value (create value) := by
  rw [Sound, hfactor, Nat.mul_one] at hsound
  refine ⟨⟨fun h => ?_, ?_⟩, hsound⟩
  · obtain ⟨e, he⟩ := Option.isSome_iff_exists.1 h
    exact isLogicalImmediate_of_decodeBitMasks (hsound e he).2
  · rintro ⟨m, k, r, hm, hk, hk', hr, rfl⟩
    exact hcomplete m (Nat.lt_succ_of_le ((Nat.pow_le_pow_iff_right Nat.one_lt_two).1 (hM ▸ hm))) k
      hk' hk r hr

/-- **The logical immediates are encoded, and nothing else.** -/
theorem create_exact : (∀ value : BitVec 64, Encodes 64 value.toNat (create64 value.toNat)) ∧
    ∀ value : BitVec 32, Encodes 32 value.toNat (create32 value.toNat) :=
  ⟨fun value => encodes (n := 6) rfl (by decide) (create64_sound value.isLt) create64_rotatedRun,
    fun value => encodes (n := 5) rfl (by decide) (create32_sound (by decide) value.isLt)
      create32_rotatedRun⟩

end JavaScriptCore.Assembler.LogicalImmediate
