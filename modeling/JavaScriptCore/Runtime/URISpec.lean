/-
# Decoding undoes encoding

For an unescaped set of ASCII characters without `%`, and a reserved set inside it, `decode` reads
back what `encode` has written, one scalar value in each turn of its loop (`decodeTurn_scalar`):

* a character of the unescaped set stands for itself;
* any other ASCII character is one escape, and the reserved set does not hold it back because it
  lies in the unescaped set;
* every other scalar value is an escape for each of its UTF-8 bytes.

`encode` fails on unpaired surrogates, as it should, and the round trip is lost on long strings
only.

**The residual.**  `StringImpl::utf8` gives up on more than `maxUTF8Length` characters, which
`encode` reports as an illegal sequence, and `decode` takes a string of `2 ^ 31` characters for an
empty one.  `roundTrips_iff` says that this is all: the length of the encoded string is
`escapedLength`.
-/
import JavaScriptCore.Runtime.URI

set_option maxRecDepth 10000

namespace JavaScriptCore.Runtime

open WTF WTF.Unicode Utf List
open Json (isASCIIHexDigit toASCIIHexValue convertUnicode)

/-! ## 1. Escapes -/

theorem escapedByte_escape {b : Nat} (hb : b < 256) (rest : List Nat) :
    escapedByte (0x25 :: upperHexDigit (b / 16) :: upperHexDigit (b % 16) :: rest) = some b := by
  have hdigit : ∀ n < 16, isASCIIHexDigit (upperHexDigit n) = true := by decide
  have hbyte : ∀ b < 256, convertHex (upperHexDigit (b / 16)) (upperHexDigit (b % 16)) = b := by
    decide +kernel
  rw [escapedByte, if_pos ⟨rfl, hdigit _ (by omega), hdigit _ (by omega)⟩, hbyte b hb]

variable {D : List Nat}

/-- The bytes that are escaped in any case. -/
theorem escapeByte_of_ge (hD : ∀ c ∈ D, c < 0x80) {b : Nat} (hb : 0x80 ≤ b) :
    escapeByte D b = [0x25, upperHexDigit (b / 16), upperHexDigit (b % 16)] := by
  rw [escapeByte, if_neg]
  rintro ⟨-, hmem⟩
  have := hD b hmem
  omega

theorem length_escapeBytes (hD : ∀ c ∈ D, c < 0x80) {bs : List Nat}
    (hbs : ∀ b ∈ bs, 0x80 ≤ b) : (bs.flatMap (escapeByte D)).length = 3 * bs.length := by
  induction bs with
  | nil => rfl
  | cons b bs ih =>
    have htail := ih fun d hd => hbs d (mem_cons_of_mem _ hd)
    rw [flatMap_cons, length_append, htail, escapeByte_of_ge hD (hbs b mem_cons_self), length_cons]
    simp only [length_cons, length_nil]
    omega

/-- **The inner loop reads a run of escapes back.** -/
theorem escapedBytes_escape (hD : ∀ c ∈ D, c < 0x80) {bs : List Nat}
    (hbs : ∀ b ∈ bs, 0x80 ≤ b ∧ b < 256) (rest : List Nat) :
    escapedBytes bs.length (bs.flatMap (escapeByte D) ++ rest) = some bs := by
  induction bs with
  | nil => rfl
  | cons b bs ih =>
    have hb := hbs b mem_cons_self
    have htail := ih fun d hd => hbs d (mem_cons_of_mem _ hd)
    rw [flatMap_cons, escapeByte_of_ge hD hb.1, length_cons, escapedBytes]
    simp only [cons_append, nil_append]
    rw [escapedByte_escape hb.2]
    simp only [drop_succ_cons, drop_zero, htail, Option.map_some]

/-! ## 2. The bytes of a scalar value -/

/-- A scalar value, as `encode` writes it. -/
def escapeScalar (D : List Nat) (c : Nat) : List Nat := (utf8 c).flatMap (escapeByte D)

variable {c : Nat}

/-- Behind ASCII, the encoder writes a lead byte that tells the length, and continuation bytes. -/
theorem utf8_nonASCII (hc : IsScalar c) (h : 0x80 ≤ c) :
    ∃ b bs, utf8 c = b :: bs ∧ UTF8SequenceLength b = (b :: bs).length ∧
      ∀ d ∈ b :: bs, 0x80 ≤ d ∧ d < 256 := by
  have hlen : ∀ b < 256, UTF8SequenceLength b =
      if b < 0x80 then 1 else if b < 0xC0 then 0 else if b < 0xE0 then 2
      else if b < 0xF0 then 3 else if b < 0xF8 then 4 else 0 := by decide
  unfold IsScalar at hc
  unfold utf8
  rw [if_neg (by omega)]
  -- in each case the lead byte lies in the interval for its length
  split_ifs
  all_goals
    refine ⟨_, _, rfl, ?_, ?_⟩
    · rw [hlen _ (by omega)]
      split_ifs <;> first | omega | rfl
    · simp only [mem_cons, not_mem_nil, or_false]
      omega

/-- The low bits of a byte, as `decodeUTF8Sequence` takes them. -/
theorem continuation_bits (x : Nat) :
    (0x80 + x % 0x40) &&& 0xC0 = 0x80 ∧ (0x80 + x % 0x40) &&& 0x3F = x % 0x40 := by
  have hbits : ∀ b < 0x40, (0x80 + b) &&& 0xC0 = 0x80 ∧ (0x80 + b) &&& 0x3F = b := by decide
  exact hbits (x % 0x40) (Nat.mod_lt _ (by decide))

theorem shiftLeft_or {a b : Nat} (k : Nat) (hb : b < 2 ^ k) : a <<< k ||| b = a * 2 ^ k + b := by
  rw [← Nat.shiftLeft_add_eq_or_of_lt hb, Nat.shiftLeft_eq]

/-- **`decodeUTF8Sequence` undoes the encoder.** -/
theorem decodeUTF8Sequence_utf8 (hc : IsScalar c) (h : 0x80 ≤ c) :
    decodeUTF8Sequence (utf8 c ++ [0]) = some c := by
  have htwo : ∀ x < 0x20, inlineUTF8SequenceLength (0xC0 + x) = 2 ∧ (0xC0 + x) &&& 0x1F = x := by
    decide
  have hthree : ∀ x < 0x10, inlineUTF8SequenceLength (0xE0 + x) = 3 ∧ (0xE0 + x) &&& 0xF = x := by
    decide
  have hfour : ∀ x < 5, inlineUTF8SequenceLength (0xF0 + x) = 4 ∧ (0xF0 + x) &&& 0x7 = x := by
    decide
  unfold IsScalar at hc
  unfold utf8
  split_ifs with h1 h2 h3
  · omega
  · obtain ⟨hlen, hbits⟩ := htwo (c / 0x40) (by omega)
    have hvalue : ((0xC0 + c / 0x40) &&& 0x1F) <<< 6 ||| ((0x80 + c % 0x40) &&& 0x3F) = c := by
      rw [hbits, (continuation_bits c).2, shiftLeft_or 6 (by omega)]
      omega
    simp [decodeUTF8Sequence, hlen, (continuation_bits _).1, hvalue, h1]
  · obtain ⟨hlen, hbits⟩ := hthree (c / 0x1000) (by omega)
    have hvalue : ((0xE0 + c / 0x1000) &&& 0xF) <<< 12 ||| ((0x80 + c / 0x40 % 0x40) &&& 0x3F) <<< 6
        ||| ((0x80 + c % 0x40) &&& 0x3F) = c := by
      rw [hbits, (continuation_bits _).2, (continuation_bits _).2, Nat.or_assoc,
        shiftLeft_or 6 (by omega), shiftLeft_or 12 (by omega)]
      omega
    have hsurrogate : ¬ (c ≥ 0xD800 ∧ c ≤ 0xDFFF) := by omega
    simp [decodeUTF8Sequence, hlen, (continuation_bits _).1, hvalue, h2, hsurrogate]
  · obtain ⟨hlen, hbits⟩ := hfour (c / 0x40000) (by omega)
    have hvalue :
      ((0xF0 + c / 0x40000) &&& 0x7) <<< 18 ||| ((0x80 + c / 0x1000 % 0x40) &&& 0x3F) <<< 12
        ||| ((0x80 + c / 0x40 % 0x40) &&& 0x3F) <<< 6 ||| ((0x80 + c % 0x40) &&& 0x3F) = c := by
      rw [hbits, (continuation_bits _).2, (continuation_bits _).2, (continuation_bits _).2,
        Nat.or_assoc, Nat.or_assoc, shiftLeft_or 6 (by omega),
        shiftLeft_or 12 (by omega), shiftLeft_or 18 (by omega)]
      omega
    have hrange : ¬ (c < 0x10000 ∨ c > 0x10FFFF) := by omega
    simp [decodeUTF8Sequence, hlen, (continuation_bits _).1, hvalue, hrange]

/-! ## 3. One turn of `decode` -/

section

variable {D R : List Nat} (hD : ∀ c ∈ D, c < 0x80 ∧ c ≠ 0x25) (hR : ∀ c ∈ R, c ∈ D)

include hD

/-- The escapes of a scalar value beyond ASCII. -/
theorem readEscape_nonASCII (hc : IsScalar c) (h : 0x80 ≤ c) (rest : List Nat) (u : Nat) :
    ∃ e, readEscape (escapeScalar D c ++ rest) u = e ∧
      e.charLen = (escapeScalar D c).length ∧ e.appended ++ [e.u] = utf16 c ∧ 128 ≤ e.u := by
  have hascii : ∀ c ∈ D, c < 0x80 := fun c hc => (hD c hc).1
  obtain ⟨b, bs, hbytes, hlen, hrange⟩ := utf8_nonASCII hc h
  have hdecode := decodeUTF8Sequence_utf8 hc h
  have hlength := length_escapeBytes hascii fun d hd => (hrange d hd).1
  have hb := hrange b mem_cons_self
  have htail := escapedBytes_escape hascii (fun d hd => hrange d (mem_cons_of_mem _ hd)) rest
  rw [hbytes] at hdecode
  rw [escapeScalar, hbytes]
  have hfirst : (b :: bs).flatMap (escapeByte D) ++ rest
      = 0x25 :: upperHexDigit (b / 16) :: upperHexDigit (b % 16) ::
        (bs.flatMap (escapeByte D) ++ rest) := by
    rw [flatMap_cons, escapeByte_of_ge hascii hb.1]
    rfl
  have hroom : UTF8SequenceLength b ≠ 0 ∧
      UTF8SequenceLength b * 3 ≤ ((b :: bs).flatMap (escapeByte D) ++ rest).length := by
    rw [length_append, hlength, hlen]
    refine ⟨Nat.succ_ne_zero _, by omega⟩
  have hread : readEscape ((b :: bs).flatMap (escapeByte D) ++ rest) u =
      if c ≥ 0x10000 then ⟨(b :: bs).length * 3, [0xD800 ||| ((c - 0x10000) >>> 10)],
        0xDC00 ||| ((c - 0x10000) &&& 0x3FF)⟩
      else ⟨(b :: bs).length * 3, [], c⟩ := by
    have hlt : ¬ c ≥ 0x110000 := by
      unfold IsScalar at hc
      omega
    rw [readEscape, hfirst, escapedByte_escape hb.2]
    simp only
    rw [if_pos (hfirst ▸ hroom), hlen]
    simp only [length_cons, Nat.add_sub_cancel, drop_succ_cons, drop_zero, htail]
    rw [cons_append] at hdecode
    simp only [hdecode]
    rw [if_neg hlt]
  refine ⟨_, hread, ?_⟩
  rw [hlength]
  unfold IsScalar at hc
  split_ifs with hsupp
  · have hlow : (c - 0x10000) % 2 ^ 10 < 2 ^ 10 := Nat.mod_lt _ (by decide)
    have hhigh : (c - 0x10000) / 2 ^ 10 < 2 ^ 10 := by omega
    have hlead := Nat.two_pow_add_eq_or_of_lt hhigh 54
    have htrail := Nat.two_pow_add_eq_or_of_lt hlow 55
    have hand : (c - 0x10000) &&& 0x3FF = (c - 0x10000) % 2 ^ 10 :=
      Nat.and_two_pow_sub_one_eq_mod _ 10
    refine ⟨Nat.mul_comm _ _, ?_, ?_⟩
    · simp only [hand, Nat.shiftRight_eq_div_pow]
      rw [utf16, if_neg (by omega)]
      show [2 ^ 10 * 54 ||| (c - 0x10000) / 2 ^ 10, 2 ^ 10 * 55 ||| (c - 0x10000) % 2 ^ 10] = _
      rw [← hlead, ← htrail]
      rfl
    · simp only [hand]
      show 128 ≤ 2 ^ 10 * 55 ||| (c - 0x10000) % 2 ^ 10
      rw [← htrail]
      omega
  · refine ⟨Nat.mul_comm _ _, ?_, h⟩
    rw [utf16, if_pos (by omega)]
    rfl

include hR

/-- **A turn reads one scalar value back.** -/
theorem decodeTurn_scalar (hc : IsScalar c) (rest builder : List Nat) (u : Nat) :
    ∃ u', decodeTurn R true ⟨escapeScalar D c ++ rest, builder, u⟩
      = .inl ⟨rest, builder ++ utf16 c, u'⟩ := by
  rcases Nat.lt_or_ge c 0x80 with hascii | hge
  · have hutf8 : escapeScalar D c = escapeByte D c := by
      rw [escapeScalar, utf8, if_pos hascii, flatMap_cons, flatMap_nil, append_nil]
    have hutf16 : utf16 c = [c] := by rw [utf16, if_pos (by omega)]
    rw [hutf8, hutf16]
    by_cases hplain : c ≠ 0 ∧ c ∈ D
    · -- the character stands for itself
      rw [escapeByte, if_pos hplain]
      refine ⟨u, ?_⟩
      simp only [decodeTurn, cons_append, nil_append]
      rw [if_neg (hD c hplain.2).2]
    · rw [escapeByte, if_neg hplain]
      have hlen : UTF8SequenceLength c = 1 := by
        have : ∀ b < 0x80, UTF8SequenceLength b = 1 := by decide
        exact this c hascii
      have hdecode : decodeUTF8Sequence [c, 0] = some c := by
        have : ∀ b < 0x80, decodeUTF8Sequence [b, 0] = some b := by decide
        exact this c hascii
      have hread : readEscape (0x25 :: upperHexDigit (c / 16) :: upperHexDigit (c % 16) :: rest) u
          = ⟨3, [], c⟩ := by
        rw [readEscape, escapedByte_escape (by omega)]
        simp only [hlen]
        rw [if_pos ⟨by decide, by simp⟩]
        simp only [Nat.sub_self, escapedBytes, nil_append, hdecode]
        rw [if_neg (by omega), if_neg (by omega)]
      refine ⟨c, ?_⟩
      simp only [decodeTurn, cons_append, nil_append, hread]
      have hunescape : 3 ≠ 0 ∧ (c = 0 ∨ c ≥ 128 ∨ c ∉ R) := by
        refine ⟨by decide, ?_⟩
        by_contra hnot
        push Not at hnot
        exact hplain ⟨hnot.1, hR c hnot.2.2⟩
      rw [if_pos trivial, if_neg (fun h => absurd h.1 (by decide))]
      simp only [show ¬ (3 = 0) by decide, if_false]
      rw [if_pos hunescape]
      simp only [drop_succ_cons, drop_zero, append_nil]
  · obtain ⟨e, hread, hlen, hunits, hbig⟩ := readEscape_nonASCII hD hc hge rest u
    have hpos : escapeScalar D c ++ rest ≠ [] ∧ e.charLen ≠ 0 ∧
        ∃ t, escapeScalar D c ++ rest = 0x25 :: t := by
      obtain ⟨b, bs, hbytes, -, hrange⟩ := utf8_nonASCII hc hge
      rw [hlen, escapeScalar, hbytes, flatMap_cons,
        escapeByte_of_ge (fun c hc => (hD c hc).1) (hrange b mem_cons_self).1]
      exact ⟨by simp, by simp, _, rfl⟩
    obtain ⟨-, hne, t, ht⟩ := hpos
    refine ⟨e.u, ?_⟩
    have hdrop : (escapeScalar D c ++ rest).drop e.charLen = rest := by
      rw [hlen]
      exact drop_left
    simp only [decodeTurn]
    rw [ht] at hread hdrop ⊢
    simp only [hread]
    rw [if_pos trivial, if_neg (fun h => hne h.1), if_neg hne, if_pos ⟨hne, .inr (.inl hbig)⟩,
      hdrop, append_assoc, hunits]

/-- **The loop reads all of them back.** -/
theorem steps_decode {cs : List Nat} (hcs : ∀ c ∈ cs, IsScalar c) (builder : List Nat) (u : Nat) :
    ∃ u', Iteration.Steps (decodeTurn R true) cs.length
      ⟨cs.flatMap (escapeScalar D), builder, u⟩
      ⟨[], builder ++ cs.flatMap utf16, u'⟩ := by
  induction cs generalizing builder u with
  | nil =>
    refine ⟨u, ?_⟩
    rw [flatMap_nil, flatMap_nil, append_nil]
    exact .refl
  | cons c cs ih =>
    obtain ⟨u₁, hturn⟩ := decodeTurn_scalar hD hR (hcs c mem_cons_self)
      (cs.flatMap (escapeScalar D)) builder u
    obtain ⟨u₂, hsteps⟩ := ih (fun d hd => hcs d (mem_cons_of_mem _ hd)) (builder ++ utf16 c) u₁
    refine ⟨u₂, .head hturn ?_⟩
    rwa [flatMap_cons, ← append_assoc]

end

/-! ## 4. Lengths -/

/-- How many characters a code unit becomes: one in the unescaped set, three for each of its bytes
otherwise; the four bytes of a pair are shared by its two units. -/
def escapedUnitLength (D : List Nat) (u : Nat) : Nat :=
  if u ≠ 0 ∧ u ∈ D then 1
  else if u < 0x80 then 3
  else if u < 0x800 then 6
  else if 0xD800 ≤ u ∧ u ≤ 0xDFFF then 6
  else 9

/-- The length of the encoded string. -/
def escapedLength (D s : List Nat) : Nat := (s.map (escapedUnitLength D)).sum

theorem length_escapeByte (D : List Nat) (c : Nat) :
    (escapeByte D c).length = if c ≠ 0 ∧ c ∈ D then 1 else 3 := by
  unfold escapeByte
  split_ifs <;> rfl

theorem length_escape_scalar (hD : ∀ c ∈ D, c < 0x80) (hc : IsScalar c) :
    (escapeScalar D c).length = escapedLength D (utf16 c) := by
  have hnot {u : Nat} (hu : 0x80 ≤ u) : ¬ (u ≠ 0 ∧ u ∈ D) := by
    rintro ⟨-, hmem⟩
    have := hD u hmem
    omega
  rw [escapeScalar]
  rcases Nat.lt_or_ge c 0x80 with hascii | hge
  · rw [utf8, if_pos hascii, utf16, if_pos (by omega)]
    simp only [flatMap_cons, flatMap_nil, append_nil, length_escapeByte, escapedLength,
      map_cons, map_nil, sum_cons, sum_nil, Nat.add_zero, escapedUnitLength,
      if_pos hascii]
  · obtain ⟨b, bs, hbytes, -, hrange⟩ := utf8_nonASCII hc hge
    rw [length_escapeBytes hD (by rw [hbytes]; exact fun d hd => (hrange d hd).1)]
    unfold IsScalar at hc
    unfold utf8 utf16 escapedLength
    have h80 : ¬ c < 0x80 := by omega
    rw [if_neg h80]
    by_cases hbmp : c < 0x10000
    · simp only [if_pos hbmp, map_cons, map_nil, sum_cons, sum_nil,
        escapedUnitLength, if_neg (hnot hge), if_neg h80]
      by_cases h800 : c < 0x800
      · rw [if_pos h800, if_pos h800]
        rfl
      · rw [if_neg h800, if_neg h800, if_neg (by omega)]
        rfl
    · simp only [if_neg hbmp, if_neg (show ¬ c < 0x800 by omega), map_cons, map_nil,
        sum_cons, sum_nil, escapedUnitLength]
      rw [if_neg (hnot (by omega)), if_neg (by omega), if_neg (by omega), if_pos (by omega),
        if_neg (hnot (by omega)), if_neg (by omega), if_neg (by omega), if_pos (by omega)]
      rfl

theorem length_escape (hD : ∀ c ∈ D, c < 0x80) {cs : List Nat}
    (hcs : ∀ c ∈ cs, IsScalar c) : (cs.flatMap (escapeScalar D)).length
      = escapedLength D (cs.flatMap utf16) := by
  induction cs with
  | nil => rfl
  | cons c cs ih =>
    have htail := ih fun d hd => hcs d (mem_cons_of_mem _ hd)
    rw [flatMap_cons, flatMap_cons, length_append, htail,
      length_escape_scalar hD (hcs c mem_cons_self), escapedLength, escapedLength, escapedLength,
      map_append, sum_append]

theorem intLength_of_lt {n : Nat} (h : n < 2 ^ 31) : (intLength n).toNat = n := by
  rw [intLength, BitVec.toInt_eq_toNat_cond, BitVec.toNat_ofNat, Nat.mod_eq_of_lt (by omega),
    if_pos (by omega)]
  rfl

/-- A length that does not fit is read as a negative one. -/
theorem intLength_of_ge {n : Nat} (h : 2 ^ 31 ≤ n) (h' : n < 2 ^ 32) : (intLength n).toNat = 0 := by
  rw [intLength, BitVec.toInt_eq_toNat_cond, BitVec.toNat_ofNat, Nat.mod_eq_of_lt h',
    if_neg (by omega)]
  omega

/-! ## 5. The round trip -/

theorem build_of_le {units : List Nat} (h : units.length ≤ 0x7FFFFFFF) :
    build units = .ok units := by
  have hsize : ¬ (if units.all (· < 0xFF) then units.length
      else units.length * 2) > 0xFFFFFFFF := by
    split_ifs <;> omega
  exact if_neg hsize

/-- A buffer of bytes may be longer. -/
theorem build_bytes {units : List Nat} (h : ∀ u ∈ units, u < 0xFF) :
    build units = if units.length > 0xFFFFFFFF then .error .outOfMemory else .ok units := by
  have hall : units.all (· < 0xFF) = true := by simpa using h
  simp only [build, hall, if_true]

theorem escapeByte_lt (hD : ∀ c ∈ D, c < 0x80) {b : Nat} (hb : b < 256) :
    ∀ u ∈ escapeByte D b, u < 0xFF := by
  have hdigit : ∀ n < 16, upperHexDigit n < 0xFF := by decide
  unfold escapeByte
  split_ifs with hplain
  · have := hD b hplain.2
    simp only [mem_singleton, forall_eq]
    omega
  · simp only [mem_cons, not_mem_nil, or_false, forall_eq_or_imp, forall_eq]
    exact ⟨by decide, hdigit _ (by omega), hdigit _ (by omega)⟩

/-- The characters that `encode` writes are ASCII. -/
theorem escape_lt (hD : ∀ c ∈ D, c < 0x80) {cs : List Nat} (hcs : ∀ c ∈ cs, IsScalar c) :
    ∀ u ∈ cs.flatMap (escapeScalar D), u < 0xFF := by
  intro u hu
  obtain ⟨c, hc, hu⟩ := mem_flatMap.1 hu
  obtain ⟨b, hb, hu⟩ := mem_flatMap.1 hu
  refine escapeByte_lt hD ?_ u hu
  rcases Nat.lt_or_ge c 0x80 with hascii | hge
  · rw [utf8, if_pos hascii, mem_singleton] at hb
    omega
  · obtain ⟨_, _, hbytes, -, hrange⟩ := utf8_nonASCII (hcs c hc) hge
    rw [hbytes] at hb
    exact (hrange b hb).2

/-- **What `encode` does**: it throws, or escapes the UTF-8 of the scalar values. -/
theorem encode_cases (s : StringImpl) (D : List Nat) :
    ((∃ m, encode s D = some (.error (.uriError m))) ∧
      (maxUTF8Length < s.characters.length ∨ ∃ i, UnpairedAt s.characters i)) ∨
    (s.characters.length ≤ maxUTF8Length ∧ (∀ i, ¬ UnpairedAt s.characters i) ∧
      ∃ cs : List Nat, (∀ c ∈ cs, IsScalar c) ∧ s.characters = cs.flatMap utf16 ∧
        encode s D = some (build (cs.flatMap (escapeScalar D)))) := by
  rcases utf8_strict s with ⟨hnull, hwhy⟩ | ⟨hlen, cs, hscalar, hunits, hbytes⟩
  · refine .inl ⟨⟨_, by rw [encode, hnull]; rfl⟩, hwhy.imp id fun hno => ?_⟩
    rw [paired_iff] at hno
    push Not at hno
    exact hno
  · refine .inr ⟨hlen, ?_, cs, hscalar, hunits, ?_⟩
    · rw [← paired_iff, hunits]
      exact paired_utf16 hscalar
    · rw [encode, hbytes]
      simp only [Option.map_some, foldl_append_eq_append, nil_append, ← flatMap_def, flatMap_assoc]
      rfl

/-- Every scalar value is at least one character. -/
theorem length_le_escape (D : List Nat) (cs : List Nat) :
    cs.length ≤ (cs.flatMap (escapeScalar D)).length := by
  have hone (c : Nat) : 1 ≤ (escapeScalar D c).length := by
    obtain ⟨b, bs, hbytes⟩ : ∃ b bs, utf8 c = b :: bs := by
      unfold utf8
      split_ifs <;> exact ⟨_, _, rfl⟩
    rw [escapeScalar, hbytes, flatMap_cons, length_append, length_escapeByte]
    split_ifs <;> omega
  induction cs with
  | nil => exact Nat.zero_le _
  | cons c cs ih =>
    have := hone c
    rw [flatMap_cons, length_append, length_cons]
    omega

/-- **`decode` reads back what `encode` wrote**, if the lengths fit. -/
theorem decode_escape {D R : List Nat} (hD : ∀ c ∈ D, c < 0x80 ∧ c ≠ 0x25) (hR : ∀ c ∈ R, c ∈ D)
    {cs : List Nat} (hcs : ∀ c ∈ cs, IsScalar c)
    (hunits : (cs.flatMap utf16).length ≤ maxUTF8Length)
    (hlen : escapedLength D (cs.flatMap utf16) < 2 ^ 31) :
    decode (cs.flatMap (escapeScalar D)) R true = some (.ok (cs.flatMap utf16)) := by
  have hlength := length_escape (fun c hc => (hD c hc).1) hcs
  obtain ⟨u, hsteps⟩ := steps_decode hD hR hcs [] 0
  have hlast : decodeTurn R true ⟨[], [] ++ cs.flatMap utf16, u⟩ =
      .inr (.ok (cs.flatMap utf16)) := by
    rw [← build_of_le (hunits.trans (by decide))]
    rfl
  rw [decode, intLength_of_lt (hlength ▸ hlen), take_length]
  exact hsteps.run_inr hlast (Nat.lt_succ_of_le (length_le_escape D cs))

/-- A string of `2 ^ 31` characters is taken for an empty one. -/
theorem decode_long {characters : List Nat} (h : 2 ^ 31 ≤ characters.length)
    (h' : characters.length < 2 ^ 32) (R : List Nat) (strict : Bool) :
    decode characters R strict = some (.ok []) := by
  rw [decode, intLength_of_ge h h']
  rfl

/-- `encode` throws a `URIError` exactly on unpaired surrogates, and `decode` undoes it. -/
def RoundTrips (encode : StringImpl → Option (Except Exception (List Nat)))
    (decode : List Nat → Option (Except Exception (List Nat))) (s : StringImpl) : Prop :=
  ((∃ m, encode s = some (.error (.uriError m))) ↔ ∃ i, UnpairedAt s.characters i) ∧
    ((∀ i, ¬ UnpairedAt s.characters i) →
      ∃ r, encode s = some (.ok r) ∧ decode r = some (.ok s.characters))

/-- **Where the round trip holds**, for any pair of sets. -/
theorem roundTrips_iff {D R : List Nat} (hD : ∀ c ∈ D, c < 0x80 ∧ c ≠ 0x25) (hR : ∀ c ∈ R, c ∈ D)
    (s : StringImpl) : RoundTrips (encode · D) (decode · R true) s ↔
    (∃ i, UnpairedAt s.characters i) ∨
        (s.characters.length ≤ maxUTF8Length ∧ escapedLength D s.characters < 2 ^ 31) := by
  have hascii : ∀ c ∈ D, c < 0x80 := fun c hc => (hD c hc).1
  rcases encode_cases s D with ⟨⟨m, hthrow⟩, hwhy⟩ | ⟨hlen, hpaired, cs, hscalar, hunits, hencode⟩
  · constructor
    · rintro ⟨hiff, -⟩
      exact .inl (hiff.1 ⟨m, hthrow⟩)
    · intro h
      have hunpaired : ∃ i, UnpairedAt s.characters i := by
        refine h.elim id fun hshort => hwhy.resolve_left ?_
        omega
      exact ⟨⟨fun _ => hunpaired, fun _ => ⟨m, hthrow⟩⟩,
        fun hno => absurd hunpaired (not_exists.2 hno)⟩
  · have hlength := length_escape hascii hscalar
    rw [build_bytes (escape_lt hascii hscalar), hlength, ← hunits] at hencode
    constructor
    · rintro ⟨-, htrip⟩
      refine .inr ⟨hlen, ?_⟩
      by_contra hlong
      obtain ⟨r, hr, hdecode⟩ := htrip hpaired
      rw [show encode s D = some (.ok r) from hr] at hencode
      split_ifs at hencode with hhuge
      · simp at hencode
      -- the decoded string is empty, and the original is not
      obtain rfl : r = _ := Except.ok.inj (Option.some.inj hencode)
      have hnil :=
        decode_long (by rw [hlength, ← hunits]; omega) (by rw [hlength, ← hunits]; omega) R true
      have hempty : s.characters = [] :=
        Except.ok.inj (Option.some.inj (hdecode.symm.trans hnil))
      rw [hempty] at hlong
      exact hlong (Nat.two_pow_pos 31)
    · intro h
      have hshort : escapedLength D s.characters < 2 ^ 31 :=
        (h.resolve_left (not_exists.2 hpaired)).2
      rw [if_neg (by omega)] at hencode
      refine ⟨⟨?_, fun hun => absurd hun (not_exists.2 hpaired)⟩, fun _ => ⟨_, hencode, ?_⟩⟩
      · rintro ⟨m, hthrow⟩
        cases hencode.symm.trans hthrow
      · rw [hunits] at hlen hshort ⊢
        exact decode_escape hD hR hscalar hlen hshort

/-- **`decodeURI` undoes `encodeURI` and `decodeURIComponent` undoes `encodeURIComponent`** exactly
on the strings with an unpaired surrogate, where both encoders throw, and on those that have at most
`maxUTF8Length` units and fewer than `2 ^ 31` characters in their encoded form. -/
theorem globalFunc_roundTrips (s : StringImpl) :
    (RoundTrips globalFuncEncodeURI globalFuncDecodeURI s ↔
      (∃ i, UnpairedAt s.characters i) ∨ (s.characters.length ≤ maxUTF8Length ∧
        escapedLength do_not_escape_when_encoding_URI s.characters < 2 ^ 31)) ∧
    (RoundTrips globalFuncEncodeURIComponent globalFuncDecodeURIComponent s ↔
      (∃ i, UnpairedAt s.characters i) ∨ (s.characters.length ≤ maxUTF8Length ∧
        escapedLength do_not_escape_when_encoding_URI_component s.characters < 2 ^ 31)) :=
  ⟨roundTrips_iff (by decide) (by decide) s, roundTrips_iff (by decide) (by decide) s⟩

/-- A string of letters. -/
def letters (n : Nat) : StringImpl where
  is8Bit := true
  characters := List.replicate n 0x61
  latin1 := fun _ c hc => by
    rw [eq_of_mem_replicate hc]
    decide
  units := fun c hc => by
    rw [eq_of_mem_replicate hc]
    decide

theorem encode_letters {n : Nat} (h : maxUTF8Length < n) (D : List Nat) : encode (letters n) D
      = some (.error (.uriError "String contained an illegal UTF-16 sequence.")) ∧
      ∀ i, ¬ UnpairedAt (letters n).characters i := by
  have hlength : (letters n).characters.length = n := length_replicate
  constructor
  · rw [encode, StringImpl.utf8]
    simp only [hlength]
    rw [if_neg (by omega), if_pos h]
    rfl
  · rintro i ⟨u, hu, hsurrogate⟩
    obtain rfl : u = 0x61 := eq_of_mem_replicate (mem_of_getElem? hu)
    rcases hsurrogate with ⟨hlead, -⟩ | ⟨htrail, -⟩
    · exact absurd hlead (by unfold IsLead; omega)
    · exact absurd htrail (by unfold IsTrail; omega)

/-- **A long string of letters is called an illegal UTF-16 sequence.** -/
theorem encodeURI_throws_on_letters :
    globalFuncEncodeURI (letters 0x55555556)
      = some (.error (.uriError "String contained an illegal UTF-16 sequence.")) ∧
      ∀ i, ¬ UnpairedAt (letters 0x55555556).characters i :=
  encode_letters (by decide) _

/-! ## 6. `escape` and `unescape` -/

theorem unescape8_eq (p : List Nat) : unescape8 p = unescape16 p := by
  fun_induction unescape8 p with
  | case1 => rw [unescape16]
  | case2 c p h e he ih => rw [unescape16, if_pos h, if_pos he, ih]
  | case3 c p h e he ih =>
    rw [unescape16, if_pos h, if_neg he, ih]
    rfl
  | case4 c p h b hb ih => rw [unescape16, if_neg h, hb, ih]
  | case5 c p h hb ih =>
    rw [unescape16, if_neg h, hb, ih]
    rfl

theorem globalFuncUnescape_eq (is8Bit : Bool) (characters : List Nat) :
    globalFuncUnescape is8Bit characters
    = unescape16 (characters.take (intLength characters.length).toNat) := by
  simp only [globalFuncUnescape, unescape8_eq, ite_self]

theorem escapedByte_of_ne {c : Nat} (h : c ≠ 0x25) (p : List Nat) :
    escapedByte (c :: p) = none := by
  unfold escapedByte
  split
  · next heq =>
    obtain ⟨rfl, -⟩ := cons.inj heq
    exact if_neg fun hc => h hc.1
  · rfl

/-- **What a unit has become is read back.** -/
theorem unescape16_escapeUnit {u : Nat} (hu : u < 0x10000) (rest : List Nat) :
    unescape16 (escapeUnit u ++ rest) = u :: unescape16 rest := by
  have hdigit : ∀ n < 16, isASCIIHexDigit (upperHexDigit n) = true ∧
      toASCIIHexValue (upperHexDigit n) = n ∧ upperHexDigit n ≠ 0x75 := by decide
  have hmod (n : Nat) := hdigit (n % 16) (Nat.mod_lt _ (by decide))
  unfold escapeUnit escapeByte
  split_ifs with hwide hcopied
  · have hfirst := hdigit (u / 4096) (by omega)
    have hvalue : (u / 4096 * 16 + u / 256 % 16) * 256 + (u / 16 % 16 * 16 + u % 16) = u := by omega
    simp [unescape16, readUnicodeEscape, convertUnicode, hfirst, hmod, hvalue]
  · have hne : u ≠ 0x25 := by
      rintro rfl
      exact absurd hcopied (by decide)
    simp [unescape16, hne, escapedByte_of_ne]
  · have hfirst := (hdigit (u / 16) (by omega)).2.2
    simp [unescape16, hfirst, escapedByte_escape (by omega : u < 256)]

theorem unescape16_escapedUnits (s : StringImpl) : unescape16 (escapedUnits s) = s.characters := by
  have hunit : ∀ c ∈ s.characters, (if s.is8Bit then escapeByte do_not_escape else escapeUnit) c =
      escapeUnit c := by
    intro c hc
    split
    · next h => rw [escapeUnit, if_neg (by have := s.latin1 h c hc; omega)]
    · rfl
  rw [escapedUnits, flatMap_congr hunit]
  have hunits := s.units
  generalize s.characters = cs at hunits
  induction cs with
  | nil => rw [flatMap_nil, unescape16]
  | cons c cs ih =>
    rw [flatMap_cons, unescape16_escapeUnit (hunits c mem_cons_self),
      ih fun d hd => hunits d (mem_cons_of_mem _ hd)]

theorem globalFuncUnescape_long {is8Bit : Bool} {characters : List Nat}
    (h : 2 ^ 31 ≤ characters.length) (h' : characters.length < 2 ^ 32) :
    globalFuncUnescape is8Bit characters = [] := by
  rw [globalFuncUnescape_eq, intLength_of_ge h h', take_zero, unescape16]

theorem escape_letters (n : Nat) : (escapedUnits (letters n)).length = n ∧
    builderSize (letters n) = n := by
  have hone : (escapeByte do_not_escape 0x61).length = 1 := by decide
  have hlength : (escapedUnits (letters n)).length = n := by
    simp [escapedUnits, letters, length_flatMap, hone]
  exact ⟨hlength, hlength⟩

end JavaScriptCore.Runtime
