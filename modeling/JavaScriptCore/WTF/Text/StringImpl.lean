/-
# The UTF-8 form of a string

`StringImpl::utf8ForRange` of `wtf/text/StringImpl.cpp` over the whole string, and what it returns
in the strict mode.  A string is stored with 8 or with 16 bits for a character, and the two kinds
take different conversions; a null `CString` is `none`.

**Two things make a strict conversion fail**: an unpaired surrogate, and a length above a third of
the largest `unsigned` (`utf8_strict`).  Every other string comes out as the UTF-8 encoding of its
scalar values.
-/
import JavaScriptCore.Lib.Utf
import JavaScriptCore.WTF.Unicode.UTF8

set_option maxRecDepth 10000

namespace JavaScriptCore.WTF

open Unicode Utf List Iteration

/-! ## 1. The model -/

/-- The characters of a string, and whether they are stored in 8 bits each. -/
structure StringImpl where
  is8Bit : Bool
  characters : List Nat
  latin1 : is8Bit = true → ∀ c ∈ characters, c < 0x100
  units : ∀ c ∈ characters, c < 0x10000

inductive ConversionMode where
  | LenientConversion
  | StrictConversion
  | StrictConversionReplacingUnpairedSurrogatesWithFFFD
  deriving DecidableEq, Repr

/-- The three bytes that `putUTF8Triple` writes. -/
def putUTF8Triple (ch : Nat) : List Nat :=
  [((ch >>> 12) &&& 0x0F) ||| 0xE0, ((ch >>> 6) &&& 0x3F) ||| 0x80, (ch &&& 0x3F) ||| 0x80]

/-- One turn of the loop that replaces unpaired surrogates: what is left of the source, and the
buffer. -/
def replaceUnpairedTurn (bufferSize : Nat) :
    List Nat × List Nat → (List Nat × List Nat) ⊕ (Bool × List Nat)
  | ([], buffer) => .inr (true, buffer)
  | (characters, buffer) =>
    match convertUTF16ToUTF8 characters (bufferSize - buffer.length) true with
    | none => .inr (false, buffer)
    | some (.conversionOK, s) => .inl (s.source, buffer ++ s.target)
    | some (_, s) =>
      .inl (s.source.drop 1, buffer ++ s.target ++ putUTF8Triple replacementCharacter)

/-- `utf8Impl`: whether it succeeded, and the buffer. -/
def utf8Impl (characters : List Nat) (bufferSize : Nat) (mode : ConversionMode) :
    Option (Bool × List Nat) :=
  if mode = .StrictConversionReplacingUnpairedSurrogatesWithFFFD then
    run (replaceUnpairedTurn bufferSize) (characters.length + 1) (characters, [])
  else
    let strict := mode = .StrictConversion
    (convertUTF16ToUTF8 characters bufferSize strict).map fun (result, s) =>
      match result with
      | .sourceIllegal => (false, s.target)
      | .sourceExhausted =>
        if strict then (false, s.target)
        else (true, s.target ++ putUTF8Triple (s.source.headD 0))
      | _ => (true, s.target)

/-- `std::numeric_limits<unsigned>::max() / 3`. -/
def maxUTF8Length : Nat := 0xFFFFFFFF / 3

/-- `utf8`: the inner option is the `CString`. -/
def StringImpl.utf8 (s : StringImpl) (mode : ConversionMode) : Option (Option (List Nat)) :=
  let length := s.characters.length
  if length = 0 then some (some [])
  else if length > maxUTF8Length then some none
  else if s.is8Bit then
    (convertLatin1ToUTF8 s.characters (length * 3)).map fun (_, c) => some c.target
  else
    (utf8Impl s.characters (length * 3) mode).map fun (ok, buffer) =>
      if ok then some buffer else none

/-! ## 2. Writing one character -/

/-- `(ch | byteMark) & byteMask` keeps six bits and puts the mark before them. -/
theorem continuation_eq (ch : Nat) : ((ch ||| 0x80) &&& 0xBF) % 2 ^ 8 = 0x80 + ch % 0x40 := by
  have hmask : ch &&& 0xBF = (ch % 2 ^ 8) &&& 0xBF := by
    rw [← Nat.and_two_pow_sub_one_eq_mod, Nat.and_assoc]
    rfl
  have hbyte : ∀ b < 256, ((b &&& 0xBF) ||| 0x80) % 2 ^ 8 = 0x80 + b % 0x40 := by decide
  rw [Nat.and_or_distrib_right, hmask, show 0x80 &&& 0xBF = 0x80 by rfl,
    hbyte (ch % 2 ^ 8) (Nat.mod_lt _ (by decide))]
  omega

/-- **The bytes of a character are those of its encoding.** -/
theorem writeBytes_eq_utf8 {ch : Nat} (h : ch < 0x110000) :
    writeBytes (firstByteMark.getD (bytesToWrite ch) 0) (bytesToWrite ch) ch = Utf.utf8 ch := by
  have htwo : ∀ b < 0x20, (b ||| 0xC0) % 2 ^ 8 = 0xC0 + b := by decide
  have hthree : ∀ b < 0x10, (b ||| 0xE0) % 2 ^ 8 = 0xE0 + b := by decide
  have hfour : ∀ b < 5, (b ||| 0xF0) % 2 ^ 8 = 0xF0 + b := by decide
  unfold bytesToWrite Utf.utf8
  split_ifs with h1 h2 h3
  · show [(ch ||| 0) % 2 ^ 8] = [ch]
    rw [Nat.or_zero, Nat.mod_eq_of_lt (by omega)]
  · show [(ch >>> 6 ||| 0xC0) % 2 ^ 8] ++ [((ch ||| 0x80) &&& 0xBF) % 2 ^ 8] = _
    rw [continuation_eq, Nat.shiftRight_eq_div_pow, htwo _ (by omega)]
    rfl
  · show [(ch >>> 6 >>> 6 ||| 0xE0) % 2 ^ 8] ++ [((ch >>> 6 ||| 0x80) &&& 0xBF) % 2 ^ 8]
      ++ [((ch ||| 0x80) &&& 0xBF) % 2 ^ 8] = _
    rw [continuation_eq, continuation_eq, Nat.shiftRight_eq_div_pow, Nat.shiftRight_eq_div_pow,
      Nat.div_div_eq_div_mul, hthree _ (by omega)]
    rfl
  · show [(ch >>> 6 >>> 6 >>> 6 ||| 0xF0) % 2 ^ 8] ++ [((ch >>> 6 >>> 6 ||| 0x80) &&& 0xBF) % 2 ^ 8]
      ++ [((ch >>> 6 ||| 0x80) &&& 0xBF) % 2 ^ 8] ++ [((ch ||| 0x80) &&& 0xBF) % 2 ^ 8] = _
    rw [continuation_eq, continuation_eq, continuation_eq, Nat.shiftRight_eq_div_pow,
      Nat.shiftRight_eq_div_pow, Nat.shiftRight_eq_div_pow, Nat.div_div_eq_div_mul,
      Nat.div_div_eq_div_mul, Nat.div_div_eq_div_mul, hfour _ (by omega)]
    rfl

theorem bytesToWrite_eq_length (ch : Nat) (h : ch < 0x110000) :
    bytesToWrite ch = (Utf.utf8 ch).length := by
  unfold bytesToWrite Utf.utf8
  split_ifs <;> rfl

/-- A scalar value takes at most three bytes for each of its units. -/
theorem length_utf8_le (c : Nat) : (Utf.utf8 c).length ≤ 3 * (utf16 c).length := by
  unfold Utf.utf8 utf16
  split_ifs <;> simp

/-! ## 3. 16-bit strings -/

theorem readUTF16Character_single {strict : Bool} {ch : Nat} (rest : List Nat)
    (hlead : ¬ IsLead ch) (htrail : ¬ IsTrail ch) :
    readUTF16Character strict ch rest = .inr (ch, rest) := by
  unfold readUTF16Character
  rw [if_neg (show ¬ (ch ≥ 0xD800 ∧ ch ≤ 0xDBFF) from hlead), if_neg fun h => htrail h.2]

theorem readUTF16Character_pair {strict : Bool} {ch ch2 : Nat} (rest : List Nat)
    (hlead : IsLead ch) (htrail : IsTrail ch2) : readUTF16Character strict ch (ch2 :: rest)
      = .inr ((ch - 0xD800) * 0x400 + (ch2 - 0xDC00) + 0x10000, rest) := by
  unfold readUTF16Character
  rw [if_pos (show ch ≥ 0xD800 ∧ ch ≤ 0xDBFF from hlead)]
  simp only
  rw [if_pos (show ch2 ≥ 0xDC00 ∧ ch2 ≤ 0xDFFF from htrail), Nat.shiftLeft_eq]

/-- The two ways in which a lead surrogate can lack its trail. -/
theorem readUTF16Character_lead {ch : Nat} {rest : List Nat} (hlead : IsLead ch)
    (hrest : ∀ v t, rest = v :: t → ¬ IsTrail v) :
    ∃ result, readUTF16Character true ch rest = .inl result ∧
      (result = .sourceIllegal ∨ result = .sourceExhausted) := by
  unfold readUTF16Character
  rw [if_pos (show ch ≥ 0xD800 ∧ ch ≤ 0xDBFF from hlead)]
  match rest with
  | [] => exact ⟨_, rfl, .inr rfl⟩
  | v :: t =>
    have hv : ¬ (v ≥ 0xDC00 ∧ v ≤ 0xDFFF) := hrest v t rfl
    simp only
    rw [if_neg hv]
    exact ⟨_, rfl, .inl rfl⟩

theorem readUTF16Character_trail {ch : Nat} (rest : List Nat) (htrail : IsTrail ch) :
    readUTF16Character true ch rest = .inl .sourceIllegal := by
  have hlead : ¬ (ch ≥ 0xD800 ∧ ch ≤ 0xDBFF) := not_isLead_of_isTrail htrail
  unfold readUTF16Character
  rw [if_neg hlead, if_pos ⟨rfl, htrail⟩]

/-- **A turn takes off the units of one scalar value** and writes its bytes. -/
theorem utf16Turn_scalar {capacity c : Nat} (strict : Bool) (rest : List Nat) {target : List Nat}
    (orAllData : Nat) (hc : IsScalar c) (hcap : target.length + 3 * (utf16 c).length ≤ capacity) :
    convertUTF16ToUTF8Turn capacity strict ⟨utf16 c ++ rest, target, orAllData⟩
      = .inl ⟨rest, target ++ Utf.utf8 c, orAllData⟩ := by
  have hlt : c < 0x110000 := by
    unfold IsScalar at hc
    omega
  have hroom : ¬ capacity < target.length + bytesToWrite c := by
    have := length_utf8_le c
    rw [bytesToWrite_eq_length c hlt]
    omega
  have hread : ∃ u units, utf16 c ++ rest = u :: units ∧
      readUTF16Character strict u units = .inr (c, rest) := by
    rcases utf16_cases hc with ⟨-, hunit, hlead, htrail⟩ | ⟨u, v, -, hunits, hlead, htrail, hval⟩
    · exact ⟨c, rest, by rw [hunit]; rfl, readUTF16Character_single rest hlead htrail⟩
    · refine ⟨u, v :: rest, by rw [hunits]; rfl, ?_⟩
      rw [readUTF16Character_pair rest hlead htrail, ← hval]
  obtain ⟨u, units, hsource, hchar⟩ := hread
  simp only [convertUTF16ToUTF8Turn, hsource, hchar]
  rw [if_neg hroom, if_pos hlt, writeBytes_eq_utf8 hlt]

/-- What the strict conversion makes of a source, behind a target already written. -/
def Encodes (target source : List Nat) (r : ConversionResult × Cursor) : Prop :=
  (r.1 = .conversionOK ∧ ∃ cs : List Nat, (∀ c ∈ cs, IsScalar c) ∧ source = cs.flatMap utf16 ∧
      r.2.target = target ++ cs.flatMap Utf.utf8) ∨
    ((r.1 = .sourceIllegal ∨ r.1 = .sourceExhausted) ∧ ¬ Paired source)

theorem Encodes.cons {c : Nat} {rest target : List Nat} {r : ConversionResult × Cursor}
    (hc : IsScalar c) (h : Encodes (target ++ Utf.utf8 c) rest r) :
    Encodes target (utf16 c ++ rest) r := by
  refine h.imp (And.imp_right ?_) (And.imp_right fun hno hp => hno ?_)
  · rintro ⟨cs, hcs, rfl, htarget⟩
    refine ⟨c :: cs, ?_, flatMap_cons.symm, by rw [htarget, flatMap_cons, append_assoc]⟩
    intro d hd
    rcases mem_cons.1 hd with rfl | hd
    · exact hc
    · exact hcs d hd
  · rcases utf16_cases hc with ⟨-, hunit, hlead, -⟩ | ⟨u, v, -, hunits, hlead, -⟩
    · rw [hunit] at hp
      exact hp.tail_single hlead
    · rw [hunits] at hp
      exact hp.tail_pair hlead

/-- A source starts with a scalar value, or with a surrogate that the strict conversion rejects. -/
theorem utf16_uncons {source : List Nat} (hne : source ≠ []) (hunits : ∀ u ∈ source, u < 0x10000) :
    (∃ c rest, IsScalar c ∧ source = utf16 c ++ rest) ∨
    (¬ Paired source ∧ ∀ capacity target orAllData, ∃ result,
      convertUTF16ToUTF8Turn capacity true ⟨source, target, orAllData⟩
        = .inr (result, ⟨source, target, orAllData⟩) ∧
      (result = .sourceIllegal ∨ result = .sourceExhausted)) := by
  match source, hne with
  | u :: t, _ =>
    have hu := hunits u mem_cons_self
    by_cases hlead : IsLead u
    · by_cases hpair : ∃ v t', t = v :: t' ∧ IsTrail v
      · obtain ⟨v, t, rfl, htrail⟩ := hpair
        refine .inl ⟨0x10000 + (u - 0xD800) * 0x400 + (v - 0xDC00), t, ?_, ?_⟩
        · unfold IsLead IsTrail IsScalar at *
          omega
        · unfold IsLead IsTrail at *
          rw [utf16, if_neg (by omega), cons_append, cons_append, nil_append]
          simp only [List.cons.injEq, and_true]
          omega
      · obtain ⟨result, hread, hresult⟩ := readUTF16Character_lead hlead
          fun v t' ht hv => hpair ⟨v, t', ht, hv⟩
        refine .inr ⟨fun hp => ?_, fun capacity target orAllData => ⟨result, ?_, hresult⟩⟩
        · cases hp with
          | single h => exact h hlead
          | pair _ h => exact hpair ⟨_, _, rfl, h⟩
        · simp only [convertUTF16ToUTF8Turn, hread]
    · by_cases htrail : IsTrail u
      · have hread := readUTF16Character_trail t htrail
        refine .inr ⟨fun hp => ?_, fun capacity target orAllData => ⟨_, ?_, .inl rfl⟩⟩
        · cases hp with
          | single _ h => exact h htrail
          | pair h => exact hlead h
        · simp only [convertUTF16ToUTF8Turn, hread]
      · refine .inl ⟨u, t, ?_, by rw [utf16, if_pos hu]; rfl⟩
        unfold IsLead IsTrail IsScalar at *
        omega

/-- **The loop ends**: with the encoding of the whole source, or at an unpaired surrogate. -/
theorem run_encodes {capacity : Nat} {source target : List Nat} (orAllData : Nat)
    (hunits : ∀ u ∈ source, u < 0x10000) (hcap : target.length + 3 * source.length ≤ capacity) :
    ∃ r, run (convertUTF16ToUTF8Turn capacity true) (source.length + 1)
      ⟨source, target, orAllData⟩ = some r ∧ Encodes target source r := by
  induction hn : source.length using Nat.strongRecOn generalizing source target with
  | ind n ih =>
    by_cases hne : source = []
    · subst hne
      exact ⟨(.conversionOK, ⟨[], target, orAllData⟩), run_succ_inr rfl n,
        .inl ⟨rfl, [], by simp, rfl, by simp⟩⟩
    rcases utf16_uncons hne hunits with ⟨c, rest, hc, rfl⟩ | ⟨hno, hstuck⟩
    · have hpos : 0 < (utf16 c).length := by
        unfold utf16
        split_ifs <;> simp
      have hbytes := length_utf8_le c
      rw [length_append] at hn hcap
      have hroom : target.length + 3 * (utf16 c).length ≤ capacity := by omega
      have hroom' : (target ++ Utf.utf8 c).length + 3 * rest.length ≤ capacity := by
        rw [length_append]
        omega
      obtain ⟨r, hrun, hr⟩ := ih rest.length (by omega)
        (fun u hu => hunits u (mem_append_right _ hu)) hroom' rfl
      refine ⟨r, ?_, hr.cons hc⟩
      rw [run_succ_inl (utf16Turn_scalar true rest orAllData hc hroom)]
      obtain ⟨j, hj⟩ := Nat.exists_eq_add_of_le (show rest.length + 1 ≤ n by omega)
      rw [hj]
      exact run_mono hrun j
    · obtain ⟨result, hturn, hresult⟩ := hstuck capacity target orAllData
      exact ⟨_, run_succ_inr hturn n, .inr ⟨hresult, hno⟩⟩

/-! ## 4. 8-bit strings -/

/-- A Latin-1 character is its own scalar value. -/
theorem utf16_latin1 {cs : List Nat} (h : ∀ c ∈ cs, c < 0x100) :
    (∀ c ∈ cs, IsScalar c) ∧ cs.flatMap utf16 = cs := by
  induction cs with
  | nil => exact ⟨by simp, rfl⟩
  | cons c cs ih =>
    obtain ⟨hscalar, hunits⟩ := ih fun d hd => h d (mem_cons_of_mem _ hd)
    have hc := h c mem_cons_self
    refine ⟨?_, by rw [flatMap_cons, hunits, utf16, if_pos (by omega)]; rfl⟩
    intro d hd
    rcases mem_cons.1 hd with rfl | hd
    · exact .inl (by omega)
    · exact hscalar d hd

theorem latin1Turn {capacity c : Nat} (rest : List Nat) {target : List Nat} (orAllData : Nat)
    (hc : c < 0x100) (hcap : target.length + 3 ≤ capacity) :
    convertLatin1ToUTF8Turn capacity ⟨c :: rest, target, orAllData⟩
      = .inl ⟨rest, target ++ Utf.utf8 c, orAllData⟩ := by
  have hbytes : (if c < 0x80 then 1 else 2) = bytesToWrite c := by
    unfold bytesToWrite
    split_ifs <;> first | rfl | omega
  have hroom : ¬ capacity < target.length + bytesToWrite c := by
    rw [← hbytes]
    split_ifs <;> omega
  simp only [convertLatin1ToUTF8Turn, hbytes]
  rw [if_neg hroom, writeBytes_eq_utf8 (by omega)]

/-- **The Latin-1 loop encodes every character.** -/
theorem run_latin1 {capacity : Nat} {source target : List Nat} (orAllData : Nat)
    (hlatin : ∀ c ∈ source, c < 0x100) (hcap : target.length + 3 * source.length ≤ capacity) :
    run (convertLatin1ToUTF8Turn capacity) (source.length + 1) ⟨source, target, orAllData⟩
      = some (.conversionOK, ⟨[], target ++ source.flatMap Utf.utf8, orAllData⟩) := by
  induction source generalizing target with
  | nil => simp [run, convertLatin1ToUTF8Turn]
  | cons c rest ih =>
    have hc := hlatin c mem_cons_self
    rw [length_cons] at hcap ⊢
    have hbytes : (Utf.utf8 c).length ≤ 3 := by
      refine (length_utf8_le c).trans ?_
      rw [utf16, if_pos (by omega)]
      rfl
    rw [run_succ_inl (latin1Turn rest orAllData hc (by omega)),
      ih (fun d hd => hlatin d (mem_cons_of_mem _ hd))
        (by rw [length_append]; omega), flatMap_cons, append_assoc]

/-! ## 5. The strict conversion -/

/-- **The strict UTF-8 form of a string**: none if it is too long or has an unpaired surrogate, and
otherwise the encoding of its scalar values. -/
theorem utf8_strict (s : StringImpl) : (s.utf8 .StrictConversion = some none ∧
      (maxUTF8Length < s.characters.length ∨ ¬ Paired s.characters)) ∨
    (s.characters.length ≤ maxUTF8Length ∧ ∃ cs : List Nat, (∀ c ∈ cs, IsScalar c) ∧
      s.characters = cs.flatMap utf16 ∧
      s.utf8 .StrictConversion = some (some (cs.flatMap Utf.utf8))) := by
  by_cases hempty : s.characters.length = 0
  · refine .inr ⟨by omega, [], by simp, eq_nil_of_length_eq_zero hempty, ?_⟩
    rw [StringImpl.utf8]
    simp only [hempty, if_pos]
    rfl
  by_cases hlong : s.characters.length > maxUTF8Length
  · refine .inl ⟨?_, .inl hlong⟩
    rw [StringImpl.utf8]
    rw [if_neg hempty, if_pos hlong]
  have hroom : ([] : List Nat).length + 3 * s.characters.length ≤ s.characters.length * 3 := by
    rw [length_nil]
    omega
  have hutf8 : s.utf8 .StrictConversion = if s.is8Bit then
      (convertLatin1ToUTF8 s.characters (s.characters.length * 3)).map fun (_, c) => some c.target
    else
      (utf8Impl s.characters (s.characters.length * 3) .StrictConversion).map fun (ok, buffer) =>
        if ok then some buffer else none := by
    rw [StringImpl.utf8]
    rw [if_neg hempty, if_neg hlong]
  rw [hutf8]
  by_cases h8 : s.is8Bit = true
  · have hlatin := s.latin1 h8
    obtain ⟨hscalar, hunits⟩ := utf16_latin1 hlatin
    refine .inr ⟨by omega, s.characters, hscalar, hunits.symm, ?_⟩
    rw [if_pos h8, convertLatin1ToUTF8, run_latin1 0 hlatin hroom]
    rfl
  · obtain ⟨r, hrun, hr⟩ := run_encodes 0 s.units hroom
    rw [if_neg h8, utf8Impl, if_neg (by decide)]
    simp only [convertUTF16ToUTF8, decide_true, hrun]
    rcases hr with ⟨hok, cs, hscalar, hsource, htarget⟩ | ⟨hfail, hno⟩
    · refine .inr ⟨by omega, cs, hscalar, hsource, ?_⟩
      obtain ⟨result, c⟩ := r
      obtain rfl : result = .conversionOK := hok
      show some (some c.target) = _
      rw [show c.target = cs.flatMap Utf.utf8 from htarget]
    · refine .inl ⟨?_, .inr hno⟩
      obtain ⟨result, c⟩ := r
      rcases hfail with rfl | rfl <;> rfl

end JavaScriptCore.WTF
