/-
# Base64

`base64EncodeInternal` and `base64DecodeInternal` of `wtf/text/Base64.cpp`.  The decoder first
writes the sextets of its text into the output vector, and then packs them there.

**Decoding gives back what was encoded**, and what is decoded is the leading bits of the sextets.
But where a text is not empty and has no character of the alphabet, the vector keeps the length of
the text.

* A vector that is written in place is a function of the position; what it holds at first is
  arbitrary.
* The encoder only writes at the end of its output, which is a list.  Its limit keeps the lengths
  from wrapping.
* The directions of the characters from 0x80 on are ICU's (`whiteSpaceNeutral`).
-/
import Mathlib.Data.List.Basic
import Mathlib.Data.Nat.Bitwise
import Mathlib.Tactic.IntervalCases

namespace JavaScriptCore.WTF.Base64

open List
open Function (update update_of_ne update_self)

/-! ## 1. The code -/

inductive Base64EncodePolicy where
  | Base64DoNotInsertLFs | Base64InsertLFs | Base64URLPolicy
  deriving DecidableEq, Repr

inductive Base64DecodePolicy where
  | Base64FailOnInvalidCharacterOrExcessPadding | Base64FailOnInvalidCharacter
  | Base64IgnoreWhitespace | Base64IgnoreInvalidCharacters
  deriving DecidableEq, Repr

inductive Alphabet where
  | base64 | base64URL
  deriving DecidableEq, Repr

/-- `base64EncMap` and `base64URLEncMap` -/
def Alphabet.encodeMap (alphabet : Alphabet) : List Nat :=
  range' 0x41 26 ++ range' 0x61 26 ++ range' 0x30 10 ++
    match alphabet with
    | .base64 => [0x2B, 0x2F]
    | .base64URL => [0x2D, 0x5F]

/-- `base64DecMap` and `base64URLDecMap`; `nonAlphabet` is `none`. -/
def Alphabet.decodeMap (alphabet : Alphabet) : List (Option Nat) :=
  let gap (n : Nat) : List (Option Nat) := replicate n none
  let values (start n : Nat) : List (Option Nat) := (range' start n).map some
  match alphabet with
  | .base64 =>
    gap 43 ++ values 62 1 ++ gap 3 ++ values 63 1 ++ values 52 10 ++ gap 7 ++
      values 0 26 ++ gap 6 ++
      values 26 26 ++ gap 5
  | .base64URL =>
    gap 45 ++ values 62 1 ++ gap 2 ++ values 52 10 ++ gap 7 ++ values 0 26 ++ gap 4 ++
      values 63 1 ++
      gap 1 ++ values 26 26 ++ gap 5

def threeBytes (a b c : Nat) : List Nat :=
  [a >>> 2 &&& 63, (b >>> 4 &&& 15) ||| (a <<< 4 &&& 63), (c >>> 6 &&& 3) ||| (b <<< 2 &&& 63),
    c &&& 63]

def twoBytes (a b : Nat) : List Nat :=
  [a >>> 2 &&& 63, (b >>> 4 &&& 15) ||| (a <<< 4 &&& 63), b <<< 2 &&& 63]

def oneByte (a : Nat) : List Nat := [a >>> 2 &&& 63, a <<< 4 &&& 63]

section Encoder

variable (encode : Nat → Nat) (insertLFs : Bool)

def lineFeed (count : Nat) : List Nat :=
  if insertLFs ∧ count ≠ 0 ∧ count % 76 = 0 then [0x0A] else []

/-- The loop of the encoder, and the one or two bytes that it leaves. -/
def encodeGroups : Nat → List Nat → List Nat
  | count, a :: b :: c :: data =>
    lineFeed insertLFs count ++ (threeBytes a b c).map encode ++ encodeGroups (count + 4) data
  | count, [a, b] => lineFeed insertLFs count ++ (twoBytes a b).map encode
  | count, [a] => lineFeed insertLFs count ++ (oneByte a).map encode
  | _, [] => []

end Encoder

def maxInputBufferSize : Nat := (2 ^ 32 - 1) / 77 * 76 / 4 * 3 - 2

def insertLFs (policy : Base64EncodePolicy) (len : Nat) : Bool :=
  policy = .Base64InsertLFs && (len + 2) / 3 * 4 > 76

def base64EncodeInternal (data : List UInt8) (policy : Base64EncodePolicy) (alphabet : Alphabet) :
    List Nat :=
  if data.length = 0 ∨ data.length > maxInputBufferSize then []
  else
    let outLength := (data.length + 2) / 3 * 4
    let insertLFs := insertLFs policy data.length
    let outLength := if insertLFs then outLength + (outLength - 1) / 76 else outLength
    let out := encodeGroups (alphabet.encodeMap.getD · 0) insertLFs 0 (data.map UInt8.toNat)
    if policy = .Base64URLPolicy then out else out ++ replicate (outLength - out.length) 0x3D

def base64Encode (data : List UInt8) (policy : Base64EncodePolicy) : List Nat :=
  base64EncodeInternal data policy .base64

def base64URLEncode (data : List UInt8) : List Nat :=
  base64EncodeInternal data .Base64URLPolicy .base64URL

/-- The arguments of `base64DecodeInternal`, with ICU's white space and what is in the new vector.
-/
structure Decoder where
  alphabet : Alphabet
  policy : Base64DecodePolicy
  whiteSpaceNeutral : Nat → Bool
  memory : Nat → Nat

section Decoder

variable (d : Decoder)

/-- `isSpaceOrNewline`, which takes a `UChar` -/
def Decoder.isSpaceOrNewline (ch : Nat) : Bool :=
  let c := ch % 2 ^ 16
  if c ≤ 0x7F then c = 0x20 || (c ≤ 0xD && c ≥ 0x9) else d.whiteSpaceNeutral c

def Alphabet.decode (alphabet : Alphabet) (ch : Nat) : Option Nat := alphabet.decodeMap[ch]?.join

/-- The first loop of the decoder: the equals signs, `outLength` and the vector. -/
def Decoder.scan (length : Nat) : List Nat → Nat → Nat → (Nat → Nat) →
    Option (Nat × Nat × (Nat → Nat))
  | [], equalsSignCount, outLength, out => some (equalsSignCount, outLength, out)
  | ch :: data, equalsSignCount, outLength, out =>
    if ch = 0x3D then
      if d.policy = .Base64FailOnInvalidCharacterOrExcessPadding ∧
        (length % 4 ≠ 0 ∨ equalsSignCount + 1 > 2) then none
      else scan length data (equalsSignCount + 1) outLength out
    else
      match d.alphabet.decode ch with
      | some decodedCharacter =>
        if equalsSignCount ≠ 0 then none
        else scan length data equalsSignCount (outLength + 1)
          (update out outLength decodedCharacter)
      | none =>
        if d.policy = .Base64FailOnInvalidCharacterOrExcessPadding ∨
          d.policy = .Base64FailOnInvalidCharacter ∨
            (d.policy = .Base64IgnoreWhitespace ∧ ¬d.isSpaceOrNewline ch) then none
        else scan length data equalsSignCount outLength out

def firstByte (a b : Nat) : Nat := (a <<< 2 &&& 255) ||| (b >>> 4 &&& 3)
def secondByte (b c : Nat) : Nat := (b <<< 4 &&& 255) ||| (c >>> 2 &&& 15)
def thirdByte (c d : Nat) : Nat := (c <<< 6 &&& 255) ||| (d &&& 63)

/-- The second loop of the decoder. -/
def packGroups (outLength sidx didx : Nat) (out : Nat → Nat) : Nat × Nat × (Nat → Nat) :=
  if didx < outLength - 2 then
    let out := update out didx (firstByte (out sidx) (out (sidx + 1)))
    let out := update out (didx + 1) (secondByte (out (sidx + 1)) (out (sidx + 2)))
    let out := update out (didx + 2) (thirdByte (out (sidx + 2)) (out (sidx + 3)))
    packGroups outLength (sidx + 4) (didx + 3) out
  else (sidx, didx, out)
termination_by outLength - didx

/-- The second loop, and the one or two bytes that it leaves. -/
def pack (outLength : Nat) (out : Nat → Nat) : Nat → Nat :=
  let (sidx, didx, out) := if outLength > 1 then packGroups outLength 0 0 out else (0, 0, out)
  let out :=
    if didx < outLength then update out didx (firstByte (out sidx) (out (sidx + 1))) else out
  if didx + 1 < outLength then update out (didx + 1) (secondByte (out (sidx + 1)) (out (sidx + 2)))
  else out

/-- `base64DecodeInternal`: the vector where it returns true. -/
def Decoder.base64DecodeInternal (data : List Nat) : Option (List Nat) :=
  if data.length = 0 then some []
  else
    (d.scan data.length data 0 0 d.memory).bind fun (equalsSignCount, n, out) =>
      if n = 0 then if equalsSignCount = 0 then some ((range data.length).map out) else none
      else if n % 4 = 1 then none
      else
        let outLength := n - (n + 3) / 4
        if outLength = 0 then none
        else some ((range (min outLength data.length)).map (pack outLength out))

end Decoder

/-! ## 2. Bits -/

/-- Bit `i` of units with `w` bits each, the most significant one first. -/
def bit (w : Nat) (units : Nat → Nat) (i : Nat) : Bool := (units (i / w)).testBit (w - 1 - i % w)

variable {s out : Nat → Nat}

theorem bit_group (s : Nat → Nat) (k i : Nat) :
    bit 6 s (24 * k + i) = (s (4 * k + i / 6)).testBit (5 - i % 6) := by
  have hdiv : (24 * k + i) / 6 = 4 * k + i / 6 := by omega
  have hmod : (24 * k + i) % 6 = i % 6 := by omega
  rw [bit, hdiv, hmod]

theorem testBit_mask (i : Nat) : Nat.testBit 3 i = decide (i < 2) ∧
    Nat.testBit 15 i = decide (i < 4) ∧
    Nat.testBit 63 i = decide (i < 6) ∧ Nat.testBit 255 i = decide (i < 8) :=
  ⟨Nat.testBit_two_pow_sub_one 2 i, Nat.testBit_two_pow_sub_one 4 i,
    Nat.testBit_two_pow_sub_one 6 i, Nat.testBit_two_pow_sub_one 8 i⟩

/-- Bytes with the same bits are the same. -/
theorem eq_of_bit_eq {l l' : List Nat} (hlength : l.length = l'.length) (hl : ∀ b ∈ l, b < 256)
    (hl' : ∀ b ∈ l', b < 256)
    (h : ∀ i < 8 * l.length, bit 8 (l.getD · 0) i = bit 8 (l'.getD · 0) i) : l = l' := by
  refine ext_getElem hlength fun j hj hj' => Nat.eq_of_testBit_eq fun r => ?_
  by_cases hr : r < 8
  · have hbit := h (8 * j + (7 - r)) (by omega)
    have hdiv : (8 * j + (7 - r)) / 8 = j := by omega
    have hmod : 8 - 1 - (8 * j + (7 - r)) % 8 = r := by omega
    rw [bit, bit, hdiv, hmod] at hbit
    simpa [hj, hj'] using hbit
  · have hpow : 2 ^ 8 ≤ 2 ^ r := Nat.pow_le_pow_right (by omega) (by omega)
    have hlt := hl _ (getElem_mem hj)
    have hlt' := hl' _ (getElem_mem hj')
    rw [Nat.testBit_lt_two_pow (by omega), Nat.testBit_lt_two_pow (by omega)]

/-! ## 3. Packing -/

/-- **The invariant**: the bytes below `didx` have the bits of the sextets `s`, which are there from
`sidx` on. -/
structure Packed (s : Nat → Nat) (didx sidx : Nat) (out : Nat → Nat) : Prop where
  bytes : ∀ j < didx, out j < 256
  bits : ∀ i < 8 * didx, bit 8 out i = bit 6 s i
  rest : ∀ j ≥ sidx, out j = s j

theorem Packed.write {d p x : Nat} (h : Packed s d p out) (hdp : d ≤ p) (hx : x < 2 ^ 8)
    (hbits : ∀ r < 8, x.testBit (7 - r) = bit 6 s (8 * d + r)) : Packed s (d + 1) (p + 1)
    (update out d x) := by
  refine ⟨fun j hj => ?_, fun i hi => ?_, fun j hj => ?_⟩
  · rcases eq_or_ne j d with rfl | hne
    · simpa using hx
    · rw [update_of_ne hne]
      exact h.bytes j (by omega)
  · by_cases hid : i / 8 = d
    · have hsplit : 8 * d + i % 8 = i := by omega
      rw [← hsplit, ← hbits (i % 8) (by omega), hsplit, bit, hid, update_self]
    · rw [bit, update_of_ne hid]
      exact h.bits i (by omega)
  · rw [update_of_ne (by omega)]
    exact h.rest j (by omega)

theorem or_lt_256 {x y m n : Nat} (hm : m < 2 ^ 8) (hn : n < 2 ^ 8) :
    (x &&& m) ||| (y &&& n) < 2 ^ 8 :=
  Nat.or_lt_two_pow (Nat.and_lt_two_pow _ hm) (Nat.and_lt_two_pow _ hn)

variable {k : Nat}

attribute [local simp] testBit_mask bit

theorem Packed.first (h : Packed s (3 * k) (4 * k) out) :
    Packed s (3 * k + 1) (4 * k + 1)
    (update out (3 * k) (firstByte (out (4 * k)) (out (4 * k + 1)))) := by
  refine h.write (by omega) (or_lt_256 (by simp) (by simp)) fun r hr => ?_
  rw [h.rest _ (by omega), h.rest _ (by omega), ← Nat.mul_assoc, bit_group]
  interval_cases r <;> simp [firstByte]

theorem Packed.second (h : Packed s (3 * k + 1) (4 * k + 1) out) :
    Packed s (3 * k + 2) (4 * k + 2)
    (update out (3 * k + 1) (secondByte (out (4 * k + 1)) (out (4 * k + 2)))) := by
  refine h.write (by omega) (or_lt_256 (by simp) (by simp)) fun r hr => ?_
  rw [h.rest _ (by omega), h.rest _ (by omega), show 8 * (3 * k + 1) + r =
    24 * k + (8 + r) by omega, bit_group]
  interval_cases r <;> simp [secondByte]

theorem Packed.third (h : Packed s (3 * k + 2) (4 * k + 2) out) :
    Packed s (3 * (k + 1)) (4 * (k + 1))
      (update out (3 * k + 2) (thirdByte (out (4 * k + 2)) (out (4 * k + 3)))) := by
  have hwrite := h.write (x := thirdByte (out (4 * k + 2)) (out (4 * k + 3))) (by omega)
    (or_lt_256 (by simp) (by simp)) fun r hr => ?_
  · exact ⟨hwrite.bytes, hwrite.bits, fun j hj => hwrite.rest j (by omega)⟩
  · rw [h.rest _ (by omega), h.rest _ (by omega), show 8 * (3 * k + 2) + r =
      24 * k + (16 + r) by omega, bit_group]
    interval_cases r <;> simp [thirdByte]

theorem Packed.packGroups {outLength k : Nat} {out : Nat → Nat} (h : Packed s (3 * k) (4 * k) out)
    (hk : 3 * k ≤ outLength) :
    ∃ k' out', packGroups outLength (4 * k) (3 * k) out = (4 * k', 3 * k', out') ∧
      Packed s (3 * k') (4 * k') out' ∧ outLength - 2 ≤ 3 * k' ∧ 3 * k' ≤ outLength := by
  rw [Base64.packGroups]
  split
  · exact h.first.second.third.packGroups (by omega)
  · exact ⟨k, out, rfl, h, by omega, hk⟩
termination_by outLength - 3 * k

/-- **The vector holds the leading bits of the sextets.** -/
theorem packed_pack (outLength : Nat) (s : Nat → Nat) :
    (∀ j < outLength, pack outLength s j < 256) ∧
      ∀ i < 8 * outLength, bit 8 (pack outLength s) i = bit 6 s i := by
  obtain ⟨k, out, hgroups, hpacked, hlow, hhigh⟩ : ∃ k out,
      (if outLength > 1 then packGroups outLength 0 0 s else (0, 0, s)) = (4 * k, 3 * k, out) ∧
      Packed s (3 * k) (4 * k) out ∧ outLength - 2 ≤ 3 * k ∧ 3 * k ≤ outLength := by
    have hstart : Packed s (3 * 0) (4 * 0) s := ⟨by simp, by simp, fun _ _ => rfl⟩
    split
    · exact hstart.packGroups (by omega)
    · exact ⟨0, s, rfl, hstart, by omega, by omega⟩
  unfold pack
  simp only [hgroups]
  obtain hend | hend | hend : outLength = 3 * k ∨ outLength = 3 * k + 1 ∨
      outLength = 3 * k + 2 := by omega
  · simpa [hend] using And.intro hpacked.bytes hpacked.bits
  · simpa [hend] using And.intro hpacked.first.bytes hpacked.first.bits
  · simpa [hend] using And.intro hpacked.first.second.bytes hpacked.first.second.bits

/-! ## 4. Decoding -/

section Decoder

variable {d : Decoder} {length : Nat} {data : List Nat}

/-- The sextets of the characters of the alphabet. -/
def Alphabet.sextets (alphabet : Alphabet) (data : List Nat) : List Nat :=
  data.filterMap alphabet.decode

theorem decode_equals (alphabet : Alphabet) : alphabet.decode 0x3D = none := by
  cases alphabet <;> rfl

theorem scan_sextets {e n e' n' : Nat} {out out' : Nat → Nat}
    (h : d.scan length data e n out = some (e', n', out')) :
    n' = n + (d.alphabet.sextets data).length ∧ (∀ j < n, out' j = out j) ∧
      ∀ j < (d.alphabet.sextets data).length, out' (n + j) =
        (d.alphabet.sextets data).getD j 0 := by
  induction data generalizing e n out with
  | nil =>
    cases h
    simp [Alphabet.sextets]
  | cons ch data ih =>
    unfold Decoder.scan at h
    split at h
    · next hequals =>
      have hskip : d.alphabet.sextets (ch :: data) = d.alphabet.sextets data := by
        rw [Alphabet.sextets, hequals, filterMap_cons_none (decode_equals _), Alphabet.sextets]
      split at h
      · cases h
      · exact hskip ▸ ih h
    · split at h
      · next c hc =>
        have hcons : d.alphabet.sextets (ch :: data) = c :: d.alphabet.sextets data :=
          filterMap_cons_some hc
        split at h
        · cases h
        · obtain ⟨hn', hbefore, hafter⟩ := ih h
          rw [hcons]
          refine ⟨by rw [hn', length_cons]; omega, fun j hj => ?_, fun j hj => ?_⟩
          · rw [hbefore j (by omega), update_of_ne (by omega)]
          · cases j with
            | zero => simp [hbefore n (by omega)]
            | succ j =>
              rw [getD_cons_succ, ← hafter j (by simpa using hj)]
              congr 1
              omega
      · next hnone =>
        have hskip : d.alphabet.sextets (ch :: data) = d.alphabet.sextets data :=
          filterMap_cons_none hnone
        split at h
        · cases h
        · exact hskip ▸ ih h

/-- The vector is the leading bits of the sextets. -/
def Leading (sextets out : List Nat) : Prop :=
  out.length = 3 * sextets.length / 4 ∧ (∀ b ∈ out, b < 256) ∧
    ∀ i < 8 * out.length, bit 8 (out.getD · 0) i = bit 6 (sextets.getD · 0) i

theorem leading_pack {n : Nat} {s : Nat → Nat} {sextets : List Nat} (hn : n = sextets.length)
    (hs : ∀ j < sextets.length, s j = sextets.getD j 0) (hlength : n ≤ length) (_ : n % 4 ≠ 1) :
    Leading sextets ((range (min (n - (n + 3) / 4) length)).map (pack (n - (n + 3) / 4) s)) := by
  have hmin : min (n - (n + 3) / 4) length = 3 * n / 4 := by omega
  have hout : n - (n + 3) / 4 = 3 * n / 4 := by omega
  obtain ⟨hbytes, hbits⟩ := packed_pack (3 * n / 4) s
  rw [hmin, hout]
  refine ⟨by simp [hn], by simpa using hbytes, fun i hi => ?_⟩
  simp only [length_map, length_range] at hi
  have hi8 : i / 8 < 3 * n / 4 := by omega
  have hi6 := hbits i hi
  rw [bit, bit, hs (i / 6) (by omega)] at hi6
  simpa [hi8] using hi6

/-- What is returned, by whether there is a character of the alphabet. -/
theorem decode_cases {out : List Nat} (h : d.base64DecodeInternal data = some out) :
    ((d.alphabet.sextets data).length = 0 → out.length = data.length) ∧
      ((d.alphabet.sextets data).length ≠ 0 → Leading (d.alphabet.sextets data) out) := by
  unfold Decoder.base64DecodeInternal at h
  split at h
  · next hnil =>
    cases h
    simp [Alphabet.sextets, eq_nil_of_length_eq_zero hnil]
  · obtain ⟨⟨e, n, s⟩, hscan, h⟩ := Option.bind_eq_some_iff.mp h
    obtain ⟨hn, -, hs⟩ := scan_sextets hscan
    simp only [Nat.zero_add] at hn hs
    simp only [hn] at h
    split_ifs at h with hzero _ hmod
    · cases h
      simp [hzero]
    · cases h
      exact ⟨fun hnone => absurd hnone hzero,
        fun _ => leading_pack rfl hs (length_filterMap_le _ _) hmod⟩

theorem leading_decode_iff {out : List Nat} (h : d.base64DecodeInternal data = some out) :
    Leading (d.alphabet.sextets data) out ↔ data = [] ∨ (d.alphabet.sextets data).length ≠ 0 := by
  refine ⟨fun hleading => ?_, ?_⟩
  · by_contra hnot
    rw [not_or, not_not] at hnot
    have hlength := (decode_cases h).1 hnot.2
    rw [hleading.1, hnot.2] at hlength
    exact hnot.1 (eq_nil_of_length_eq_zero hlength.symm)
  · rintro (rfl | hsextets)
    · cases h
      simp [Leading, Alphabet.sextets]
    · exact (decode_cases h).2 hsextets

/-- The policy skips line feeds. -/
def Base64DecodePolicy.SkipsLFs (policy : Base64DecodePolicy) : Prop :=
  policy = .Base64IgnoreWhitespace ∨ policy = .Base64IgnoreInvalidCharacters

/-- Characters of the alphabet, and line feeds where they are skipped, are read. -/
theorem scan_body {body : List Nat} (length : Nat) (rest : List Nat) (n : Nat) (out : Nat → Nat)
    (h : ∀ ch ∈ body, (d.alphabet.decode ch).isSome ∨ ch = 0x0A ∧ d.policy.SkipsLFs) :
    ∃ n' out', d.scan length (body ++ rest) 0 n out = d.scan length rest 0 n' out' := by
  induction body generalizing n out with
  | nil => exact ⟨n, out, rfl⟩
  | cons ch body ih =>
    rw [forall_mem_cons] at h
    rw [cons_append, Decoder.scan]
    rcases h.1 with hsome | ⟨rfl, hskips⟩
    · obtain ⟨c, hc⟩ := Option.isSome_iff_exists.mp hsome
      have hne : ch ≠ 0x3D := by
        rintro rfl
        simp [decode_equals] at hc
      simpa [hne, hc] using ih _ _ h.2
    · have hnone : d.alphabet.decode 0x0A = none := by cases d.alphabet <;> rfl
      rcases hskips with hpolicy | hpolicy <;>
        simpa [hpolicy, hnone, Decoder.isSpaceOrNewline] using ih n out h.2

theorem scan_padding {p e : Nat} (n : Nat) (out : Nat → Nat)
    (h : d.policy = .Base64FailOnInvalidCharacterOrExcessPadding → p ≠ 0 →
      length % 4 = 0 ∧ e + p ≤ 2) :
    d.scan length (replicate p 0x3D) e n out = some (e + p, n, out) := by
  induction p generalizing e with
  | zero => rfl
  | succ p ih =>
    have hpads : ¬(d.policy = .Base64FailOnInvalidCharacterOrExcessPadding ∧
        (length % 4 ≠ 0 ∨ e + 1 > 2)) := by
      rintro ⟨hpolicy, hbad⟩
      have := h hpolicy p.succ_ne_zero
      omega
    rw [replicate_succ, Decoder.scan, if_pos rfl, if_neg hpads, ih, Nat.add_assoc, Nat.add_comm 1 p]
    intro hpolicy _
    have := h hpolicy p.succ_ne_zero
    omega

end Decoder

/-! ## 5. Encoding -/

variable {alphabet : Alphabet} {lfs : Bool} {text l l' : List Nat}

/-- The sextets that are encoded. -/
def sextetsOf : List Nat → List Nat
  | a :: b :: c :: data => threeBytes a b c ++ sextetsOf data
  | [a, b] => twoBytes a b
  | [a] => oneByte a
  | [] => []

theorem length_sextetsOf (data : List Nat) :
    (sextetsOf data).length = (4 * data.length + 2) / 3 := by
  fun_induction sextetsOf data with
  | case1 a b c data ih =>
    simp only [threeBytes, length_append, length_cons, length_nil, ih]
    omega
  | case2 | case3 | case4 => simp [twoBytes, oneByte]

theorem bit_append {w : Nat} (hw : 0 < w) (l l' : List Nat) (i : Nat) :
    bit w ((l ++ l').getD · 0) (w * l.length + i) = bit w (l'.getD · 0) i := by
  rw [bit, Nat.mul_add_div hw, Nat.mul_add_mod, bit]
  simp [getElem?_append_right]

/-- **The sextets have the bits of the bytes.** -/
theorem bit_sextetsOf (data : List Nat) :
    ∀ i < 8 * data.length, bit 6 ((sextetsOf data).getD · 0) i = bit 8 (data.getD · 0) i := by
  fun_induction sextetsOf data with
  | case1 a b c data ih =>
    intro i hi
    by_cases hlt : i < 24
    · interval_cases i <;> simp [threeBytes]
    · obtain ⟨i, rfl⟩ := Nat.exists_eq_add_of_le (Nat.not_lt.mp hlt)
      have hshift := bit_append (w := 8) (by simp) [a, b, c] data i
      rw [show [a, b, c] ++ data = a :: b :: c :: data from rfl] at hshift
      rw [show 24 = 6 * (threeBytes a b c).length from rfl, bit_append (by simp),
        ih i (by simp at hi; omega)]
      exact hshift.symm
  | case2 a b =>
    intro i (hi : i < 16)
    interval_cases i <;> simp [twoBytes]
  | case3 a =>
    intro i (hi : i < 8)
    interval_cases i <;> simp [oneByte]
  | case4 => exact fun i hi => absurd hi (by simp)

theorem decode_encodeMap (alphabet : Alphabet) :
    ∀ v < 64, alphabet.decode (alphabet.encodeMap.getD v 0) = some v := by
  cases alphabet <;> decide

/-- A text of characters of the alphabet for sextets `l`, and of line feeds. -/
structure Encodes (alphabet : Alphabet) (lfs : Bool) (text l : List Nat) : Prop where
  sextets : alphabet.sextets text = l
  read : ∀ ch ∈ text, (alphabet.decode ch).isSome ∨ ch = 0x0A ∧ lfs = true

/-- One group of sextets, with its line feed. -/
theorem Encodes.group (h : Encodes alphabet lfs text l') (count : Nat) (hl : ∀ v ∈ l, v < 64) :
    Encodes alphabet lfs (lineFeed lfs count ++ l.map (alphabet.encodeMap.getD · 0) ++ text)
    (l ++ l') := by
  have hdecode (v : Nat) (hv : v ∈ l) := decode_encodeMap alphabet v (hl v hv)
  have hfeed : alphabet.sextets (lineFeed lfs count) = [] := by
    unfold lineFeed
    split_ifs
    · cases alphabet <;> rfl
    · rfl
  constructor
  · have hmap : alphabet.sextets (l.map (alphabet.encodeMap.getD · 0)) = l := by
      rw [Alphabet.sextets, filterMap_map, Function.comp_def, filterMap_congr hdecode,
        filterMap_some]
    rw [Alphabet.sextets, filterMap_append, filterMap_append, ← Alphabet.sextets,
      ← Alphabet.sextets, ← Alphabet.sextets, hfeed, hmap, h.sextets, nil_append]
  · intro ch hch
    rw [mem_append, mem_append, mem_map] at hch
    rcases hch with (hch | ⟨v, hv, rfl⟩) | hch
    · unfold lineFeed at hch
      split_ifs at hch with hlfs
      · exact .inr ⟨mem_singleton.mp hch, hlfs.1⟩
      · cases hch
    · exact .inl (by rw [hdecode v hv]; rfl)
    · exact h.read ch hch

theorem encodes_encodeGroups (alphabet : Alphabet) (lfs : Bool) (count : Nat) (data : List Nat) :
    Encodes alphabet lfs (encodeGroups (alphabet.encodeMap.getD · 0) lfs count data)
    (sextetsOf data) := by
  have hmask (x : Nat) : x &&& 63 < 64 := Nat.and_lt_two_pow x (by simp : 63 < 2 ^ 6)
  have hmasks {x y m n : Nat} (hm : m < 2 ^ 6) (hn : n < 2 ^ 6) : (x &&& m) ||| (y &&& n) < 64 :=
    Nat.or_lt_two_pow (Nat.and_lt_two_pow _ hm) (Nat.and_lt_two_pow _ hn)
  have hnil : Encodes alphabet lfs [] [] := ⟨rfl, by simp⟩
  fun_induction encodeGroups (alphabet.encodeMap.getD · 0) lfs count data with
  | case1 count a b c data ih => exact ih.group count (by simp [threeBytes, hmask, hmasks])
  | case2 count a b =>
    simpa [sextetsOf] using hnil.group (l := twoBytes a b) count (by simp [twoBytes, hmask, hmasks])
  | case3 count a =>
    simpa [sextetsOf] using hnil.group (l := oneByte a) count (by simp [oneByte, hmask])
  | case4 => exact hnil

theorem length_encodeGroups (encode : Nat → Nat) (count : Nat) (data : List Nat) :
    (encodeGroups encode false count data).length = (sextetsOf data).length := by
  fun_induction encodeGroups encode false count data with
  | case1 count a b c data ih => simp [sextetsOf, lineFeed, ih]
  | case2 | case3 | case4 => simp [sextetsOf, lineFeed]

section RoundTrip

variable {d : Decoder}

/-- **Decoding an encoded text**, with its padding. -/
theorem decode_encodes {data : List Nat} {p : Nat}
    (h : Encodes d.alphabet lfs text (sextetsOf data))
    (hdata : data ≠ []) (hbytes : ∀ b ∈ data, b < 256) (hlfs : lfs = true → d.policy.SkipsLFs)
    (hpad : d.policy = .Base64FailOnInvalidCharacterOrExcessPadding → p ≠ 0 →
      (text.length + p) % 4 = 0 ∧ p ≤ 2) :
    d.base64DecodeInternal (text ++ replicate p 0x3D) = some data := by
  have hsextets : d.alphabet.sextets (text ++ replicate p 0x3D) = sextetsOf data := by
    rw [Alphabet.sextets, filterMap_append, ← Alphabet.sextets, h.sextets,
      filterMap_replicate_of_none (decode_equals _), append_nil]
  have hn := length_sextetsOf data
  have hpos := length_pos_iff.mpr hdata
  obtain ⟨n, s, hscan⟩ := scan_body (text.length + p) (replicate p 0x3D) 0 d.memory fun ch hch =>
    (h.read ch hch).imp_right fun hlf => ⟨hlf.1, hlfs hlf.2⟩
  rw [scan_padding n s (by simpa using hpad)] at hscan
  obtain ⟨hcount, -⟩ := scan_sextets hscan
  have hfits : (sextetsOf data).length ≤ (text ++ replicate p 0x3D).length :=
    hsextets ▸ length_filterMap_le _ _
  rw [hsextets, Nat.zero_add] at hcount
  obtain ⟨out, hout⟩ : ∃ out, d.base64DecodeInternal (text ++ replicate p 0x3D) = some out := by
    rw [Decoder.base64DecodeInternal, if_neg (by omega), length_append, length_replicate, hscan,
      Option.bind_some]
    simp only
    rw [if_neg (by omega), if_neg (by omega), if_neg (by omega)]
    exact ⟨_, rfl⟩
  obtain ⟨hlength, hbytes', hbits⟩ := (decode_cases hout).2 (by rw [hsextets]; omega)
  rw [hsextets] at hlength hbits
  rw [hout, eq_of_bit_eq (by omega) hbytes' hbytes fun i hi => ?_]
  rw [hbits i hi, bit_sextetsOf data i (by omega)]

theorem decode_base64EncodeInternal {data : List UInt8} {encodePolicy : Base64EncodePolicy}
    (hlength : data.length < 2 ^ 30) (hlfs : insertLFs encodePolicy data.length = true →
      d.policy.SkipsLFs) :
    d.base64DecodeInternal (base64EncodeInternal data encodePolicy d.alphabet) =
      some (data.map UInt8.toNat) := by
  unfold base64EncodeInternal
  rcases eq_or_ne data [] with rfl | hdata
  · rfl
  · have hbound : ¬(data.length = 0 ∨ data.length > maxInputBufferSize) := by
      have := length_pos_iff.mpr hdata
      simp only [maxInputBufferSize]
      omega
    have hencodes :=
      encodes_encodeGroups d.alphabet (insertLFs encodePolicy data.length) 0 (data.map UInt8.toNat)
    have hbytes : ∀ b ∈ data.map UInt8.toNat, b < 256 := by simpa using fun b _ => UInt8.toNat_lt b
    have hne : data.map UInt8.toNat ≠ [] := by simpa using hdata
    rw [if_neg hbound]
    split
    · simpa using decode_encodes (p := 0) hencodes hne hbytes hlfs (by simp)
    · refine decode_encodes hencodes hne hbytes hlfs fun hpolicy _ => ?_
      have hno : insertLFs encodePolicy data.length = false := by
        by_contra hyes
        rcases hlfs (by simpa using hyes) with h | h <;> simp [hpolicy] at h
      have hbody := length_encodeGroups (d.alphabet.encodeMap.getD · 0) 0 (data.map UInt8.toNat)
      rw [length_sextetsOf, length_map] at hbody
      simp only [hno, hbody, Bool.false_eq_true, if_false]
      omega

end RoundTrip

/-- **Decoding gives back what was encoded**, and gives the leading bits of the sextets exactly
where the text is empty or has a character of the alphabet. -/
theorem base64_invertible_iff (d : Decoder) :
    (∀ data : List UInt8, data.length < 2 ^ 30 →
      (∀ encodePolicy, d.alphabet = .base64 →
        (insertLFs encodePolicy data.length = true → d.policy.SkipsLFs) →
        d.base64DecodeInternal (base64Encode data encodePolicy) = some (data.map UInt8.toNat)) ∧
      (d.alphabet = .base64URL →
        d.base64DecodeInternal (base64URLEncode data) = some (data.map UInt8.toNat))) ∧
    ∀ text out, d.base64DecodeInternal text = some out →
      (Leading (d.alphabet.sextets text) out ↔
        text = [] ∨ (d.alphabet.sextets text).length ≠ 0) := by
  refine ⟨fun data hlength => ⟨fun encodePolicy halphabet hlfs => ?_, fun halphabet => ?_⟩,
    fun text out => leading_decode_iff⟩
  · rw [base64Encode, ← halphabet]
    exact decode_base64EncodeInternal hlength hlfs
  · rw [base64URLEncode, ← halphabet]
    exact decode_base64EncodeInternal hlength (by simp [insertLFs])

/-- A byte with its padding. -/
theorem base64_invertible_iff_byte :
    base64Encode [0x4D] .Base64InsertLFs = [0x54, 0x51, 0x3D, 0x3D] ∧
      Decoder.base64DecodeInternal ⟨.base64, .Base64FailOnInvalidCharacter,
        fun _ => false, fun _ => 0⟩
        (base64Encode [0x4D] .Base64InsertLFs) = some [0x4D] :=
  ⟨by decide, ((base64_invertible_iff ⟨.base64, .Base64FailOnInvalidCharacter, fun _ => false,
    fun _ => 0⟩).1 [0x4D] (by decide)).1 .Base64InsertLFs rfl (by simp [insertLFs])⟩

/-- **A blank is decoded to one byte**, which nobody has written. -/
theorem base64_keeps_length : Alphabet.base64.sextets [0x20] = [] ∧
    Decoder.base64DecodeInternal ⟨.base64, .Base64IgnoreWhitespace, fun _ => false,
      fun _ => 7⟩ [0x20] = some [7] :=
  ⟨rfl, rfl⟩

end JavaScriptCore.WTF.Base64
