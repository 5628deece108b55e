/-
# The hash of a UTF-8 text

`calculateStringHashAndLengthFromUTF8MaskingTop8Bits` hashes the UTF-16 units of a text without
writing them.  It has a loop of its own, which hands the units to a `StringHasher` one at a time or,
for a supplementary character, two at once.  A string is hashed two units at a time
(`computeHashAndMaskTop8Bits`).

* A hasher is determined by its hash and its pending unit (`state`), and however the units come, it
  absorbs them one after the other (section 2).
* The loop goes in step with that of the strict `convertUTF8ToUTF16` (`InStep`).  So it stops at the
  same bytes, and what it has absorbed is what the conversion has written.

**The bytes are counted in an `unsigned`.**  Hash and lengths are those of the converted text if and
only if it has fewer than 2 ^ 32 bytes (`hashFromUTF8_agrees_iff`).
-/
import Mathlib.Data.List.GetD
import JavaScriptCore.WTF.Unicode.UTF8Spec

namespace JavaScriptCore.WTF

open List

/-! ## 1. The hasher -/

structure StringHasher where
  m_hash : UInt32 := 0x9E3779B9
  m_hasPendingCharacter : Bool := false
  m_pendingCharacter : Nat := 0

namespace StringHasher

/-- What `addCharactersAssumingAligned` does to `m_hash`. -/
def mix (hash : UInt32) (a b : Nat) : UInt32 :=
  let hash := hash + UInt32.ofNat a
  let hash := (hash <<< 16) ^^^ ((UInt32.ofNat b <<< 11) ^^^ hash)
  hash + (hash >>> 11)

variable (h : StringHasher)

def addCharactersAssumingAligned (a b : Nat) : StringHasher :=
  { h with m_hash := mix h.m_hash a b }

def addCharacter (character : Nat) : StringHasher :=
  if h.m_hasPendingCharacter then
    ({ h with m_hasPendingCharacter := false }).addCharactersAssumingAligned
      h.m_pendingCharacter character
  else { h with m_pendingCharacter := character, m_hasPendingCharacter := true }

def addCharacters (a b : Nat) : StringHasher :=
  if h.m_hasPendingCharacter then
    { h.addCharactersAssumingAligned h.m_pendingCharacter a with m_pendingCharacter := b }
  else h.addCharactersAssumingAligned a b

/-- `addCharactersAssumingAligned` of a whole buffer: the pairs, and then the remainder. -/
def addDataAssumingAligned (h : StringHasher) : List Nat → StringHasher
  | a :: b :: data => (h.addCharactersAssumingAligned a b).addDataAssumingAligned data
  | [a] => h.addCharacter a
  | [] => h

def avalancheBits : UInt32 :=
  let result := h.m_hash
  let result :=
    if h.m_hasPendingCharacter then
      let result := result + UInt32.ofNat h.m_pendingCharacter
      let result := result ^^^ (result <<< 11)
      result + (result >>> 17)
    else result
  let result := result ^^^ (result <<< 3)
  let result := result + (result >>> 5)
  let result := result ^^^ (result <<< 2)
  let result := result + (result >>> 15)
  result ^^^ (result <<< 10)

def hashWithTop8BitsMasked : UInt32 :=
  let result := h.avalancheBits &&& ((1 : UInt32) <<< 24 - 1)
  if result = 0 then (0x80000000 : UInt32) >>> 8 else result

def computeHashAndMaskTop8Bits (data : List Nat) : UInt32 :=
  (addDataAssumingAligned {} data).hashWithTop8BitsMasked

/-! ## 2. What a hasher has absorbed -/

/-- The hash and the pending unit.  Without one, `m_pendingCharacter` is not read. -/
def state : UInt32 × Option Nat :=
  (h.m_hash, if h.m_hasPendingCharacter then some h.m_pendingCharacter else none)

/-- One more unit. -/
def absorb : UInt32 × Option Nat → Nat → UInt32 × Option Nat
  | (hash, none), c => (hash, some c)
  | (hash, some a), c => (mix hash a c, none)

theorem state_addCharacter (c : Nat) : (h.addCharacter c).state = absorb h.state c := by
  obtain ⟨hash, hasPending, pending⟩ := h
  cases hasPending <;> rfl

theorem state_addCharacters (a b : Nat) :
    (h.addCharacters a b).state = absorb (absorb h.state a) b := by
  obtain ⟨hash, hasPending, pending⟩ := h
  cases hasPending <;> rfl

theorem state_addDataAssumingAligned {h : StringHasher} (haligned : h.m_hasPendingCharacter = false)
    (data : List Nat) : (h.addDataAssumingAligned data).state = data.foldl absorb h.state := by
  fun_induction addDataAssumingAligned h data with
  | case1 h a b data ih =>
    rw [ih haligned, foldl_cons, foldl_cons]
    simp [state, addCharactersAssumingAligned, absorb, haligned]
  | case2 h a => exact state_addCharacter h a
  | case3 h => rfl

theorem hash_eq_of_state {h h' : StringHasher} (heq : h.state = h'.state) :
    h.hashWithTop8BitsMasked = h'.hashWithTop8BitsMasked := by
  obtain ⟨hash, hasPending, pending⟩ := h
  obtain ⟨hash', hasPending', pending'⟩ := h'
  cases hasPending <;> cases hasPending' <;> simp [state] at heq
  · subst heq
    simp [hashWithTop8BitsMasked, avalancheBits]
  · obtain ⟨rfl, rfl⟩ := heq
    rfl

end StringHasher

namespace Unicode

open Utf

/-! ## 3. The loop -/

/-- The locals of the loop: the bytes ahead, the hasher and the two lengths. -/
structure HashCursor where
  data : List Nat
  stringHasher : StringHasher := {}
  dataLength : UInt32 := 0
  utf16Length : UInt32 := 0

/-- The test for the end of the bytes.  Without a `dataEnd` the bytes end with a zero. -/
def atEnd (hasDataEnd : Bool) (data : List Nat) : Bool :=
  data.isEmpty || (!hasDataEnd && data.getD 0 0 == 0)

/-- Fewer than `length` bytes are ahead. -/
def isCutShort (hasDataEnd : Bool) (data : List Nat) (length : Nat) : Bool :=
  if hasDataEnd then data.length < length
  else (range' 1 (length - 1)).any fun i => data.getD i 0 == 0

/-- One turn of the loop; the result is the hash, with the locals. -/
def hashTurn (hasDataEnd : Bool) (s : HashCursor) : HashCursor ⊕ (UInt32 × HashCursor) :=
  if atEnd hasDataEnd s.data then .inr (s.stringHasher.hashWithTop8BitsMasked, s)
  else
    let b0 := s.data.getD 0 0
    if isASCII b0 then
      .inl ⟨s.data.drop 1, s.stringHasher.addCharacter b0, s.dataLength + 1, s.utf16Length + 1⟩
    else
      let utf8SequenceLength := inlineUTF8SequenceLengthNonASCII b0
      let dataLength := s.dataLength + UInt32.ofNat utf8SequenceLength
      if isCutShort hasDataEnd s.data utf8SequenceLength then .inr (0, { s with dataLength })
      else if !isLegalUTF8 s.data utf8SequenceLength then .inr (0, { s with dataLength })
      else
        let character := readUTF8Sequence s.data utf8SequenceLength
        let data := s.data.drop utf8SequenceLength
        if U_IS_BMP character then
          if U_IS_SURROGATE character then .inr (0, { s with data, dataLength })
          else
            .inl ⟨data, s.stringHasher.addCharacter character, dataLength, s.utf16Length + 1⟩
        else if U_IS_SUPPLEMENTARY character then
          .inl ⟨data, s.stringHasher.addCharacters (U16_LEAD character) (U16_TRAIL character),
            dataLength, s.utf16Length + 2⟩
        else .inr (0, { s with data, dataLength })

def calculateStringHashAndLengthFromUTF8MaskingTop8Bits (hasDataEnd : Bool) (data : List Nat) :
    Option (UInt32 × HashCursor) :=
  Iteration.run (hashTurn hasDataEnd) (data.length + 1) { data }

/-! ## 4. In step with the conversion -/

/-- The bytes of a text: without a `dataEnd` none of them is zero. -/
def IsText (hasDataEnd : Bool) (bytes : List Nat) : Prop :=
  ∀ b ∈ bytes, b < 256 ∧ (hasDataEnd = false → b ≠ 0)

/-- **The two loops are at the same place** of a text of `total` bytes, and the hasher has absorbed
what the conversion has written. -/
structure InStep (hasDataEnd : Bool) (total : Nat) (s : Cursor) (t : HashCursor) : Prop where
  text : IsText hasDataEnd s.source
  data : t.data = s.source
  hasher : t.stringHasher.state = s.target.foldl StringHasher.absorb ({} : StringHasher).state
  utf16Length : t.utf16Length = UInt32.ofNat s.target.length
  dataLength : t.dataLength + UInt32.ofNat s.source.length = UInt32.ofNat total
  room : s.target.length + s.source.length ≤ total

/-- The results of the two loops. -/
def Matches (total : Nat) (r : ConversionResult × Cursor) (p : UInt32 × HashCursor) : Prop :=
  if r.1 = .conversionOK then
    p.1 = StringHasher.computeHashAndMaskTop8Bits r.2.target ∧
      p.2.dataLength = UInt32.ofNat total ∧
      p.2.utf16Length = UInt32.ofNat r.2.target.length ∧ r.2.target.length ≤ total
  else p.1 = 0

/-- One turn of each loop: both go on, in step, or both stop, with results that match. -/
def TurnsTogether (hasDataEnd : Bool) (total capacity : Nat) (s : Cursor) (t : HashCursor) : Prop :=
  (∃ s' t', convertUTF8ToUTF16Turn capacity true s = .inl s' ∧ hashTurn hasDataEnd t = .inl t' ∧
    InStep hasDataEnd total s' t') ∨
  ∃ r p, convertUTF8ToUTF16Turn capacity true s = .inr r ∧ hashTurn hasDataEnd t = .inr p ∧
    Matches total r p

section

variable {hasDataEnd : Bool} {total capacity : Nat}

theorem isCutShort_eq {data : List Nat} (htext : IsText hasDataEnd data) (hne : data ≠ [])
    (length : Nat) : isCutShort hasDataEnd data length = decide (data.length < length) := by
  have hpos := length_pos_of_ne_nil hne
  unfold isCutShort
  split_ifs with hend
  · rfl
  have hzero (i : Nat) : (data.getD i 0 == 0) = decide (data.length ≤ i) := by
    by_cases hi : i < data.length
    · have := (htext _ (getElem_mem hi)).2 (by simpa using hend)
      rw [getD_eq_getElem _ _ hi, beq_false_of_ne this, decide_eq_false (Nat.not_le.2 hi)]
    · rw [getD_eq_default _ _ (by omega)]
      simp
      omega
  simp only [hzero]
  rw [Bool.eq_iff_iff]
  simp only [any_eq_true, mem_range'_1, decide_eq_true_eq]
  exact ⟨fun ⟨i, hi, hle⟩ => by omega, fun hlt => ⟨data.length, by omega, le_rfl⟩⟩

theorem IsText.drop {data : List Nat} (h : IsText hasDataEnd data) (n : Nat) :
    IsText hasDataEnd (data.drop n) := fun b hb => h b (mem_of_mem_drop hb)

/-- A unit, or two, of a sequence of `n` bytes. -/
theorem InStep.advance {s : Cursor} {t : HashCursor} (h : InStep hasDataEnd total s t) (n : Nat)
    (units : List Nat) (hasher : StringHasher) (hn : n ≤ s.source.length)
    (hunits : units.length ≤ n)
    (hhasher : hasher.state = units.foldl StringHasher.absorb t.stringHasher.state)
    (orAllData : Nat) :
    InStep hasDataEnd total ⟨s.source.drop n, s.target ++ units, orAllData⟩
      ⟨s.source.drop n, hasher, t.dataLength + UInt32.ofNat n,
        t.utf16Length + UInt32.ofNat units.length⟩ where
  text := h.text.drop n
  data := rfl
  hasher := by rw [hhasher, h.hasher, foldl_append]
  utf16Length := by rw [h.utf16Length, length_append, UInt32.ofNat_add]
  dataLength := by
    rw [← h.dataLength, UInt32.add_assoc, ← UInt32.ofNat_add, length_drop,
      Nat.add_sub_cancel' hn]
  room := by
    have := h.room
    simp only [length_append, length_drop]
    omega

theorem inlineUTF8SequenceLengthNonASCII_cases (b0 : Nat) :
    inlineUTF8SequenceLengthNonASCII b0 = 0 ∨ 2 ≤ inlineUTF8SequenceLengthNonASCII b0 := by
  unfold inlineUTF8SequenceLengthNonASCII
  split_ifs <;> simp

theorem isASCII_eq {b : Nat} (hb : b < 256) : isASCII b = decide (b < 0x80) := by
  revert b
  decide +kernel

theorem legal_ascii {b0 : Nat} (hb0 : b0 < 0x80) : Sequence legalTable [b0] := by
  have hlength : inlineUTF8SequenceLength b0 = 1 := by
    rw [inlineUTF8SequenceLength, isASCII_eq (by omega), if_pos (decide_eq_true hb0)]
  have hlegal : isLegalUTF8 [b0] 1 = true := by
    simp [isLegalUTF8, isLegalLead]
    omega
  have hsequence : Sequence legalTable ([b0].take (inlineUTF8SequenceLength b0)) :=
    legal_of_isLegalUTF8 (by omega) hlength.le (by rwa [hlength])
  rwa [hlength] at hsequence

/-- The conversion writes an ASCII byte as it is. -/
theorem convertUTF8ToUTF16Turn_ascii {b0 : Nat} (rest : List Nat) {target : List Nat}
    (orAllData : Nat) (hb0 : b0 < 0x80) (hcap : target.length + 1 ≤ capacity) :
    ∃ orAllData', convertUTF8ToUTF16Turn capacity true ⟨b0 :: rest, target, orAllData⟩
      = .inl ⟨rest, target ++ [b0], orAllData'⟩ := by
  obtain ⟨orAllData', hturn⟩ := turn_sequence true rest orAllData (legal_ascii hb0) hcap
  rw [sequenceValue_one hb0, utf16, if_pos (by omega)] at hturn
  exact ⟨orAllData', hturn⟩

theorem atEnd_cons {b0 : Nat} {rest : List Nat} (h : IsText hasDataEnd (b0 :: rest)) :
    atEnd hasDataEnd (b0 :: rest) = false := by
  have hzero := (h b0 mem_cons_self).2
  cases hasDataEnd <;> simp [atEnd] at hzero ⊢
  exact hzero

section

variable {b0 : Nat} {rest target : List Nat} {orAllData : Nat} {hasher : StringHasher}
  {dataLength utf16Length : UInt32}

theorem InStep.turn_nil
    (h : InStep hasDataEnd total ⟨[], target, orAllData⟩ ⟨[], hasher, dataLength, utf16Length⟩) :
    TurnsTogether hasDataEnd total capacity ⟨[], target, orAllData⟩
      ⟨[], hasher, dataLength, utf16Length⟩ := by
  refine .inr ⟨_, _, rfl, rfl, ?_⟩
  have hhash := StringHasher.state_addDataAssumingAligned (h := {}) rfl target
  have hlength := h.dataLength
  rw [Matches, if_pos rfl]
  refine ⟨StringHasher.hash_eq_of_state (h.hasher.trans hhash.symm), ?_, h.utf16Length, h.room⟩
  simpa using hlength

variable (h : InStep hasDataEnd total ⟨b0 :: rest, target, orAllData⟩
  ⟨b0 :: rest, hasher, dataLength, utf16Length⟩) (htotal : total ≤ capacity)

include h htotal

theorem InStep.turn_ascii (hascii : isASCII b0 = true) :
    TurnsTogether hasDataEnd total capacity ⟨b0 :: rest, target, orAllData⟩
      ⟨b0 :: rest, hasher, dataLength, utf16Length⟩ := by
  have hlow := hascii
  rw [isASCII_eq (h.text b0 mem_cons_self).1, decide_eq_true_eq] at hlow
  have hroom : target.length + 1 ≤ capacity := by
    have := h.room
    simp only [length_cons] at this
    omega
  obtain ⟨orAllData', hturn⟩ := convertUTF8ToUTF16Turn_ascii rest orAllData hlow hroom
  refine .inl ⟨_, _, hturn, ?_, h.advance 1 [b0] _ (by simp) le_rfl
    (StringHasher.state_addCharacter hasher b0) _⟩
  simp only [hashTurn, atEnd_cons h.text, Bool.false_eq_true, if_false, getD_cons_zero, hascii,
    if_true]
  rfl

/-- From the length of the sequence on, the two bodies ask the same questions. -/
theorem InStep.turn_nonASCII (hascii : ¬ isASCII b0 = true) :
    TurnsTogether hasDataEnd total capacity ⟨b0 :: rest, target, orAllData⟩
      ⟨b0 :: rest, hasher, dataLength, utf16Length⟩ := by
  have hroom := h.room
  have hlength : inlineUTF8SequenceLength b0 = inlineUTF8SequenceLengthNonASCII b0 :=
    if_neg hascii
  simp only [TurnsTogether, hashTurn, atEnd_cons h.text, getD_cons_zero, convertUTF8ToUTF16Turn,
    hlength, hascii, isCutShort_eq h.text (cons_ne_nil _ _), Bool.false_eq_true, if_false]
  have hcases := inlineUTF8SequenceLengthNonASCII_cases b0
  generalize inlineUTF8SequenceLengthNonASCII b0 = n at hcases
  by_cases hshort : (b0 :: rest).length < n
  · simp only [hshort, decide_true, if_true]
    exact .inr ⟨_, _, rfl, rfl, rfl⟩
  by_cases hlegal : isLegalUTF8 (b0 :: rest) n = true
  swap
  · simp only [hshort, hlegal, decide_false]
    exact .inr ⟨_, _, rfl, rfl, rfl⟩
  have htwo : 2 ≤ n := hcases.resolve_left (by rintro rfl; cases hlegal)
  have hle : n ≤ (b0 :: rest).length := Nat.le_of_not_lt hshort
  simp only at hroom
  have hcap : ¬ capacity ≤ target.length := by omega
  have hcap' : ¬ capacity ≤ target.length + 1 := by omega
  simp only [hshort, hlegal, hcap, hcap', decide_false, Bool.not_true, Bool.false_eq_true,
    if_false, if_true]
  generalize readUTF8Sequence (b0 :: rest) n = character
  by_cases hbmp : U_IS_BMP character = true
  · by_cases hsurrogate : U_IS_SURROGATE character = true
    · simp only [hbmp, hsurrogate, if_true]
      exact .inr ⟨_, _, rfl, rfl, rfl⟩
    · simp only [hbmp, hsurrogate, if_true]
      refine .inl ⟨_, _, rfl, rfl, ?_⟩
      exact h.advance n [character] _ hle (by simp only [length_singleton]; omega)
        (StringHasher.state_addCharacter hasher character) _
  · by_cases hsupplementary : U_IS_SUPPLEMENTARY character = true
    · simp only [hbmp, hsupplementary, if_true]
      refine .inl ⟨_, _, rfl, rfl, ?_⟩
      exact h.advance n [U16_LEAD character, U16_TRAIL character] _ hle htwo
        (StringHasher.state_addCharacters hasher _ _) _
    · simp only [hbmp, hsupplementary]
      exact .inr ⟨_, _, rfl, rfl, rfl⟩

end

/-- **The loops stay in step.** -/
theorem InStep.turn {s : Cursor} {t : HashCursor} (h : InStep hasDataEnd total s t)
    (htotal : total ≤ capacity) : TurnsTogether hasDataEnd total capacity s t := by
  obtain ⟨source, target, orAllData⟩ := s
  obtain ⟨data, hasher, dataLength, utf16Length⟩ := t
  obtain rfl : data = source := h.data
  cases data with
  | nil => exact h.turn_nil
  | cons b0 rest =>
    by_cases hascii : isASCII b0 = true
    · exact h.turn_ascii htotal hascii
    · exact h.turn_nonASCII htotal hascii

end

/-! ## 5. The whole text -/

/-- **The two loops end together**, with results that match. -/
theorem exists_matches (hasDataEnd : Bool) {bytes : List Nat} {capacity : Nat}
    (htext : IsText hasDataEnd bytes) (hcap : bytes.length ≤ capacity) :
    ∃ r p, convertUTF8ToUTF16 bytes capacity true = some (.ofCursor r) ∧
      calculateStringHashAndLengthFromUTF8MaskingTop8Bits hasDataEnd bytes = some p ∧
      Matches bytes.length r p := by
  have hstart : InStep hasDataEnd bytes.length ⟨bytes, [], 0⟩ { data := bytes } :=
    ⟨htext, rfl, rfl, rfl, by simp, by simp⟩
  obtain ⟨r, hrun, -⟩ := run_converts true 0 (fun b hb => (htext b hb).1)
    (show ([] : List Nat).length + bytes.length ≤ capacity by simpa using hcap)
  obtain ⟨p, hhash, hmatches⟩ :=
    Iteration.run_of_inStep (fun _ _ h => InStep.turn h hcap) hstart hrun
  exact ⟨r, p, by rw [convertUTF8ToUTF16, hrun]; rfl, hhash, hmatches⟩

/-- Hash and lengths are those of the units. -/
def Agrees (bytes units : List Nat) (p : UInt32 × HashCursor) : Prop :=
  p.1 = StringHasher.computeHashAndMaskTop8Bits units ∧
    p.2.dataLength.toNat = bytes.length ∧ p.2.utf16Length.toNat = units.length

/-- **The hash of a text is that of its conversion**, and zero if there is none.  The lengths are
right exactly if the text has fewer than 2 ^ 32 bytes. -/
theorem hashFromUTF8_agrees_iff (hasDataEnd : Bool) (bytes : List Nat) {capacity : Nat}
    (htext : IsText hasDataEnd bytes) (hcap : bytes.length ≤ capacity) :
    ∃ r p, convertUTF8ToUTF16 bytes capacity true = some r ∧
      calculateStringHashAndLengthFromUTF8MaskingTop8Bits hasDataEnd bytes = some p ∧
      (r.result ≠ .conversionOK → p.1 = 0) ∧
      (r.result = .conversionOK →
        p.1 = StringHasher.computeHashAndMaskTop8Bits r.target ∧
        (Agrees bytes r.target p ↔ bytes.length < 2 ^ 32)) := by
  obtain ⟨r, p, hconvert, hhash, hmatches⟩ := exists_matches hasDataEnd htext hcap
  refine ⟨_, p, hconvert, hhash, fun hfailed => ?_, fun hok => ?_⟩
  · rwa [Matches, if_neg (show r.1 ≠ _ from hfailed)] at hmatches
  · rw [Matches, if_pos (show r.1 = _ from hok)] at hmatches
    obtain ⟨hhash, hdata, hutf16, hle⟩ := hmatches
    refine ⟨hhash, fun hagrees => ?_, fun hlt => ⟨hhash, ?_, ?_⟩⟩
    · rw [← hagrees.2.1]
      exact p.2.dataLength.toNat_lt
    · rw [hdata, UInt32.toNat_ofNat_of_lt' hlt]
    · rw [hutf16, UInt32.toNat_ofNat_of_lt' (Nat.lt_of_le_of_lt hle hlt)]
      rfl

/-- The three bytes of `€`, followed by a zero. -/
theorem hashFromUTF8_agrees_euro : ∃ p,
    calculateStringHashAndLengthFromUTF8MaskingTop8Bits false [0xE2, 0x82, 0xAC] = some p ∧
      Agrees [0xE2, 0x82, 0xAC] [0x20AC] p := by
  have htext : IsText false [0xE2, 0x82, 0xAC] := by simp [IsText]
  obtain ⟨r, p, hconvert, hhash, -, hok⟩ :=
    hashFromUTF8_agrees_iff false [0xE2, 0x82, 0xAC] htext (Nat.le_refl 3)
  cases hconvert
  exact ⟨p, hhash, (hok rfl).2.2 (by decide)⟩

theorem legal_letters (n : Nat) : Legal (replicate n 0x61) (replicate n 0x61) := by
  induction n with
  | zero => exact .nil
  | succ n ih =>
    have hcons : Legal ([0x61] ++ replicate n 0x61) (sequenceValue [0x61] :: replicate n 0x61) :=
      .cons (legal_ascii (by decide)) ih
    rwa [sequenceValue_one (by decide)] at hcons

theorem dataLength_letters (n : Nat) :
    ∃ r p, convertUTF8ToUTF16 (replicate n 0x61) n true = some r ∧ r.result = .conversionOK ∧
      calculateStringHashAndLengthFromUTF8MaskingTop8Bits true (replicate n 0x61) = some p ∧
      p.2.dataLength = UInt32.ofNat n := by
  have htext : IsText true (replicate n 0x61) := fun b hb =>
    ⟨by rw [eq_of_mem_replicate hb]; decide, nofun⟩
  have hcap : (replicate n 0x61).length ≤ n := length_replicate.le
  obtain ⟨r, p, hconvert, hhash, hmatches⟩ := exists_matches true htext hcap
  obtain ⟨r', hr', hspec⟩ := convertUTF8ToUTF16_spec true (fun b hb => (htext b hb).1) hcap
  obtain rfl : Conversion.ofCursor r = r' := Option.some.inj (hconvert.symm.trans hr')
  have hok : (Conversion.ofCursor r).result = .conversionOK := by
    rcases hspec with ⟨hok, -⟩ | ⟨-, hnone⟩
    · exact hok
    · exact absurd (legal_letters n) (hnone _)
  rw [Matches, if_pos (show r.1 = _ from hok), length_replicate] at hmatches
  exact ⟨_, p, hconvert, hok, hhash, hmatches.2.1⟩

/-- **The length of 2 ^ 32 letters is counted as zero.** -/
theorem hashFromUTF8_counts_zero :
    ∃ r p, convertUTF8ToUTF16 (replicate (2 ^ 32) 0x61) (2 ^ 32) true = some r ∧
      r.result = .conversionOK ∧
      calculateStringHashAndLengthFromUTF8MaskingTop8Bits true (replicate (2 ^ 32) 0x61) = some p ∧
      p.2.dataLength = 0 :=
  dataLength_letters (2 ^ 32)

end Unicode

end JavaScriptCore.WTF
