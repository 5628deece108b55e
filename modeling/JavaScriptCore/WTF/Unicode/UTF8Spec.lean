/-
# What `convertUTF8ToUTF16` accepts

The strict conversion decides by `isLegalUTF8`, and the inner `switch` of that function has no lower
bound for the second byte behind the lead bytes `ED` and `F4`: their cases test only the upper bound
and then `break`.  So the table the code uses is `legalTable`, the table of the Unicode standard
with those two rows widened, and

* a turn of the loop takes off exactly one sequence of `legalTable` and writes the UTF-16 units of
  its value (`turn_sequence`), or stops at bytes that start with no such sequence (`turn_stuck`);
* the whole loop returns `conversionOK` if and only if the bytes are a concatenation of such
  sequences (`convertUTF8ToUTF16_spec`);
* a sequence of the two widened rows has an ordinary character as its value, so nothing behind
  `isLegalUTF8` rejects it.

**The residual.**  `Sloppy bytes` is the exact condition under which the conversion departs from the
standard: the bytes split into sequences of `legalTable`, one of which is in a widened row only.
-/
import JavaScriptCore.Lib.Utf
import JavaScriptCore.WTF.Unicode.UTF8

set_option maxRecDepth 10000

namespace JavaScriptCore.WTF.Unicode

open Utf List Word

/-! ## 1. The table of the code -/

/-- The sequences that `isLegalUTF8` accepts and the standard does not. -/
def extraRows : List (List (Nat × Nat)) :=
  [ [(0xED, 0xED), (0x00, 0x7F), (0x80, 0xBF)],
    [(0xF4, 0xF4), (0x00, 0x7F), (0x80, 0xBF), (0x80, 0xBF)] ]

/-- The sequences that `isLegalUTF8` accepts. -/
def legalTable : List (List (Nat × Nat)) := table37 ++ extraRows

/-- The value that the code gives to a sequence. -/
def sequenceValue (bs : List Nat) : Nat := readUTF8Sequence bs bs.length

variable {bs : List Nat}

theorem sequence_legalTable : Sequence legalTable bs ↔ Sequence table37 bs ∨
    Sequence extraRows bs := by
  simp only [Sequence, legalTable, mem_append, or_and_right, exists_or]

attribute [local simp] Sequence Matches legalTable table37 extraRows

/-- The sequences of `legalTable`, by length. -/
theorem legal_cases (h : Sequence legalTable bs) : (∃ a, bs = [a] ∧ a < 0x80) ∨
    (∃ a b, bs = [a, b] ∧ (0xC2 ≤ a ∧ a ≤ 0xDF) ∧ (0x80 ≤ b ∧ b ≤ 0xBF)) ∨
    (∃ a b c, bs = [a, b, c] ∧ (0xE0 ≤ a ∧ a ≤ 0xEF) ∧ (a ≠ 0xED → 0x80 ≤ b) ∧ b ≤ 0xBF ∧
      (a = 0xE0 → 0xA0 ≤ b) ∧ (a = 0xED → b ≤ 0x9F) ∧ (0x80 ≤ c ∧ c ≤ 0xBF)) ∨
    (∃ a b c d, bs = [a, b, c, d] ∧ (0xF0 ≤ a ∧ a ≤ 0xF4) ∧ (a ≠ 0xF4 → 0x80 ≤ b) ∧ b ≤ 0xBF ∧
      (a = 0xF0 → 0x90 ≤ b) ∧ (a = 0xF4 → b ≤ 0x8F) ∧ (0x80 ≤ c ∧ c ≤ 0xBF) ∧
      (0x80 ≤ d ∧ d ≤ 0xBF)) := by
  match bs with
  | [] => simp at h
  | [a] =>
    simp at h
    exact .inl ⟨a, rfl, by omega⟩
  | [a, b] =>
    simp at h
    exact .inr (.inl ⟨a, b, rfl, by omega⟩)
  | [a, b, c] =>
    simp at h
    exact .inr (.inr (.inl ⟨a, b, c, rfl, by omega⟩))
  | [a, b, c, d] =>
    simp at h
    exact .inr (.inr (.inr ⟨a, b, c, d, rfl, by omega⟩))
  | _ :: _ :: _ :: _ :: _ :: _ => simp at h

/-- The first byte of a sequence of the table, as `inlineUTF8SequenceLength` classifies it. -/
theorem inlineUTF8SequenceLength_eq : ∀ b < 256, inlineUTF8SequenceLength b =
    if b < 0x80 then 1 else if b < 0xC0 then 0 else if b < 0xE0 then 2
    else if b < 0xF0 then 3 else if b < 0xF8 then 4 else 0 := by
  decide

/-- The first byte of a sequence tells its length. -/
theorem legal_length (h : Sequence legalTable bs) :
    ∃ a t, bs = a :: t ∧ bs.length = inlineUTF8SequenceLength a := by
  rcases legal_cases h with ⟨a, rfl, ha⟩ | ⟨a, b, rfl, ha, -⟩ | ⟨a, b, c, rfl, ha, -⟩ |
    ⟨a, b, c, d, rfl, ha, -⟩
  all_goals
    refine ⟨a, _, rfl, ?_⟩
    rw [inlineUTF8SequenceLength_eq a (by omega)]
    split_ifs <;> first | omega | rfl

/-- Bytes start with at most one sequence of the table. -/
theorem legal_append_inj {s t x y : List Nat} (hs : Sequence legalTable s)
    (ht : Sequence legalTable t) (h : s ++ x = t ++ y) : s = t ∧ x = y := by
  obtain ⟨a, s', rfl, hslen⟩ := legal_length hs
  obtain ⟨b, t', rfl, htlen⟩ := legal_length ht
  obtain rfl : a = b := (List.cons.inj h).1
  exact append_inj h (hslen.trans htlen.symm)

variable {cs : List Nat}

/-- So a sequence at the front is the first one of any way to split the bytes. -/
theorem WellFormedBy.uncons {table : List (List (Nat × Nat))} {value : List Nat → Nat}
    (hsub : ∀ s, Sequence table s → Sequence legalTable s) {rest : List Nat}
    (hs : Sequence legalTable bs) (h : WellFormedBy table value (bs ++ rest) cs) :
    Sequence table bs ∧ ∃ cs', cs = value bs :: cs' ∧ WellFormedBy table value rest cs' := by
  generalize hbytes : bs ++ rest = bytes at h
  cases h with
  | nil =>
    obtain ⟨a, t, rfl, -⟩ := legal_length hs
    cases hbytes
  | cons hseq hrest =>
    obtain ⟨rfl, rfl⟩ := legal_append_inj hs (hsub _ hseq) hbytes
    exact ⟨hseq, _, rfl, hrest⟩

/-! ## 2. `isLegalUTF8` is membership in the table -/

variable {a : Nat}

@[simp] theorem isLegalTrail_iff : isLegalTrail a = true ↔ 0x80 ≤ a ∧ a ≤ 0xBF := by
  simp [isLegalTrail]

@[simp] theorem isLegalLead_iff : isLegalLead a = true ↔ (a < 0x80 ∨ 0xC2 ≤ a) ∧ a ≤ 0xF4 := by
  simp [isLegalLead]

@[simp] theorem isLegalSecond_iff {lead : Nat} : isLegalSecond lead a = true ↔
    a ≤ 0xBF ∧ (lead = 0xE0 → 0xA0 ≤ a) ∧ (lead = 0xED → a ≤ 0x9F) ∧ (lead = 0xF0 → 0x90 ≤ a) ∧
      (lead = 0xF4 → a ≤ 0x8F) ∧ (lead ≠ 0xED → lead ≠ 0xF4 → 0x80 ≤ a) := by
  unfold isLegalSecond
  split_ifs <;> simp <;> omega

variable {b c : Nat}

/-- **What `isLegalUTF8` lets through is a sequence of the table.** -/
theorem legal_of_isLegalUTF8 {b0 : Nat} {rest : List Nat} (hb0 : b0 < 256)
    (hlen : inlineUTF8SequenceLength b0 ≤ (b0 :: rest).length)
    (h : isLegalUTF8 (b0 :: rest) (inlineUTF8SequenceLength b0) = true) :
    Sequence legalTable ((b0 :: rest).take (inlineUTF8SequenceLength b0)) := by
  rw [inlineUTF8SequenceLength_eq b0 hb0] at h hlen ⊢
  split_ifs at h hlen ⊢ with h1 hC0 h2 h3 h4
  · simp
    omega
  · simp [isLegalUTF8] at h
  · match rest, hlen with
    | b1 :: _, _ =>
      simp [isLegalUTF8] at h
      simp
      omega
  · match rest, hlen with
    | b1 :: b2 :: _, _ =>
      simp [isLegalUTF8] at h
      simp
      omega
  · match rest, hlen with
    | b1 :: b2 :: b3 :: _, _ =>
      simp [isLegalUTF8] at h
      simp
      omega
  · simp [isLegalUTF8] at h

/-- **A sequence of the table passes `isLegalUTF8`.** -/
theorem isLegalUTF8_of_legal (h : Sequence legalTable bs) (rest : List Nat) :
    isLegalUTF8 (bs ++ rest) bs.length = true := by
  rcases legal_cases h with ⟨a, rfl, ha⟩ | ⟨a, b, rfl, ha, hb⟩ |
    ⟨a, b, c, rfl, ha, hlow, hb, h0, hD, hc⟩ | ⟨a, b, c, d, rfl, ha, hlow, hb, h0, h4, hc, hd⟩
  · show isLegalLead a = true
    rw [isLegalLead_iff]
    omega
  · show (isLegalSecond a b && isLegalLead a) = true
    rw [Bool.and_eq_true, isLegalSecond_iff, isLegalLead_iff]
    omega
  · show (isLegalTrail c && isLegalSecond a b && isLegalLead a) = true
    simp only [Bool.and_eq_true, isLegalSecond_iff, isLegalLead_iff, isLegalTrail_iff]
    omega
  · show (isLegalTrail d && isLegalTrail c && isLegalSecond a b && isLegalLead a) = true
    simp only [Bool.and_eq_true, isLegalSecond_iff, isLegalLead_iff, isLegalTrail_iff]
    omega

/-! ## 3. The values -/

theorem readUTF8Sequence_append (bs rest : List Nat) :
    readUTF8Sequence (bs ++ rest) bs.length = sequenceValue bs := by
  rw [sequenceValue, readUTF8Sequence, readUTF8Sequence, take_left, take_length]

theorem sequenceValue_one (ha : a < 0x80) : sequenceValue [a] = a := by
  show sub 32 (0 * 64 + a) 0 = a
  rw [sub_of_le (by omega) (by omega)]
  omega

theorem sequenceValue_two (ha : 0xC2 ≤ a ∧ a ≤ 0xDF) (hb : 0x80 ≤ b ∧ b ≤ 0xBF) :
    sequenceValue [a, b] = a * 64 + b - 0x3080 := by
  show sub 32 ((0 * 64 + a) * 64 + b) 0x3080 = _
  rw [sub_of_le (by omega) (by omega)]
  omega

theorem sequenceValue_three (ha : 0xE0 ≤ a ∧ a ≤ 0xEF) (hlow : a ≠ 0xED → 0x80 ≤ b) (hb : b ≤ 0xBF)
    (hc : 0x80 ≤ c ∧ c ≤ 0xBF) : sequenceValue [a, b, c] = (a * 64 + b) * 64 + c - 0xE2080 := by
  show sub 32 (((0 * 64 + a) * 64 + b) * 64 + c) 0xE2080 = _
  rw [sub_of_le (by omega) (by omega)]
  omega

theorem sequenceValue_four {d : Nat} (ha : 0xF0 ≤ a ∧ a ≤ 0xF4) (hlow : a ≠ 0xF4 → 0x80 ≤ b)
    (hb : b ≤ 0xBF) (hc : 0x80 ≤ c ∧ c ≤ 0xBF) (hd : 0x80 ≤ d ∧ d ≤ 0xBF) :
    sequenceValue [a, b, c, d] = ((a * 64 + b) * 64 + c) * 64 + d - 0x3C82080 := by
  show sub 32 ((((0 * 64 + a) * 64 + b) * 64 + c) * 64 + d) 0x3C82080 = _
  rw [sub_of_le (by omega) (by omega)]
  omega

/-- On the standard's table the code's value is the standard's. -/
theorem sequenceValue_eq_scalarValue (h : Sequence table37 bs) :
    sequenceValue bs = scalarValue bs := by
  rcases legal_cases (sequence_legalTable.2 (.inl h)) with ⟨a, rfl, ha⟩ | ⟨a, b, rfl, ha, hb⟩ |
    ⟨a, b, c, rfl, ha, hlow, hb, -, -, hc⟩ | ⟨a, b, c, d, rfl, ha, hlow, hb, -, -, hc, hd⟩
  · exact sequenceValue_one ha
  · rw [sequenceValue_two ha hb, scalarValue_two]
    omega
  · simp at h
    rw [sequenceValue_three ha hlow hb hc, scalarValue_three]
    omega
  · simp at h
    rw [sequenceValue_four ha hlow hb hc hd, scalarValue_four]
    omega

/-- **Every value is a scalar value**, also those of the widened rows, and takes no more units than
its sequence has bytes. -/
theorem isScalar_sequenceValue (h : Sequence legalTable bs) :
    IsScalar (sequenceValue bs) ∧ (utf16 (sequenceValue bs)).length ≤ bs.length := by
  have hunits (c : Nat) : (utf16 c).length ≤ 2 := by
    unfold utf16
    split_ifs <;> simp
  have hunit {c : Nat} (hc : c < 0x10000) : (utf16 c).length = 1 := by
    rw [utf16, if_pos hc]
    rfl
  unfold IsScalar
  rcases legal_cases h with ⟨a, rfl, ha⟩ | ⟨a, b, rfl, ha, hb⟩ |
    ⟨a, b, c, rfl, ha, hlow, hb, h0, hD, hc⟩ | ⟨a, b, c, d, rfl, ha, hlow, hb, h0, h4, hc, hd⟩
  · rw [sequenceValue_one ha, hunit (by omega)]
    exact ⟨.inl (by omega), Nat.le_refl 1⟩
  · rw [sequenceValue_two ha hb]
    exact ⟨.inl (by omega), hunits _⟩
  · rw [sequenceValue_three ha hlow hb hc]
    exact ⟨by omega, (hunits _).trans (by simp)⟩
  · rw [sequenceValue_four ha hlow hb hc hd]
    exact ⟨by omega, (hunits _).trans (by simp)⟩

/-! ## 4. One turn of the loop -/

theorem U_IS_SURROGATE_of_isScalar (hc : IsScalar c) : U_IS_SURROGATE c = false := by
  unfold IsScalar at hc
  have hmask : c &&& 0xFFFFF800 = c / 2 ^ 11 * 2 ^ 11 :=
    clearLow_eq (w := 32) (k := 11) (by decide) (by omega)
  rw [U_IS_SURROGATE, hmask, beq_eq_false_iff_ne]
  omega

theorem U_IS_SUPPLEMENTARY_of_isScalar (hc : IsScalar c) (h : ¬ c < 0x10000) :
    U_IS_SUPPLEMENTARY c = true := by
  unfold IsScalar at hc
  rw [U_IS_SUPPLEMENTARY, sub_of_le (by omega) (by omega), decide_eq_true_iff]
  omega

theorem surrogates_eq_utf16 (hc : IsScalar c) (h : ¬ c < 0x10000) :
    [U16_LEAD c, U16_TRAIL c] = utf16 c := by
  unfold IsScalar at hc
  have htrail : (c &&& 0x3FF) ||| 0xDC00 = 0xDC00 + c % 2 ^ 10 := by
    have hlow : c % 2 ^ 10 < 2 ^ 10 := Nat.mod_lt _ (by decide)
    have hor := Nat.two_pow_add_eq_or_of_lt hlow 55
    have hand : c &&& 0x3FF = c % 2 ^ 10 := Nat.and_two_pow_sub_one_eq_mod c 10
    rw [hand, Nat.or_comm]
    exact hor.symm
  rw [utf16, if_neg h, U16_LEAD, U16_TRAIL, htrail, Nat.shiftRight_eq_div_pow]
  simp only [List.cons.injEq, and_true]
  omega

variable {capacity : Nat}

/-- **A turn takes off one sequence** and writes the units of its value. -/
theorem turn_sequence (strict : Bool) (rest : List Nat) {target : List Nat} (orAllData : Nat)
    (h : Sequence legalTable bs) (hcap : target.length + bs.length ≤ capacity) :
    ∃ orAllData', convertUTF8ToUTF16Turn capacity strict ⟨bs ++ rest, target, orAllData⟩
      = .inl ⟨rest, target ++ utf16 (sequenceValue bs), orAllData'⟩ := by
  obtain ⟨hscalar, hunits⟩ := isScalar_sequenceValue h
  have hlegal := isLegalUTF8_of_legal h rest
  have hread := readUTF8Sequence_append bs rest
  obtain ⟨a, t, rfl, hlen⟩ := legal_length h
  have hdrop : (a :: t ++ rest).drop (a :: t).length = rest := drop_left
  have hpos : 0 < (a :: t).length := Nat.succ_pos _
  have hshort : ¬ (a :: t ++ rest).length < (a :: t).length := by simp
  simp only [convertUTF8ToUTF16Turn, cons_append]
  rw [← hlen, ← cons_append, hlegal, hread, hdrop, if_neg hshort]
  simp only [Bool.not_true, Bool.false_eq_true, if_false]
  rw [if_neg (by omega)]
  by_cases hbmp : sequenceValue (a :: t) < 0x10000
  · have : U_IS_BMP (sequenceValue (a :: t)) = true := decide_eq_true (by omega)
    rw [if_pos this, U_IS_SURROGATE_of_isScalar hscalar]
    exact ⟨_, by rw [utf16, if_pos hbmp]; rfl⟩
  · have : ¬ U_IS_BMP (sequenceValue (a :: t)) = true := by
      rw [U_IS_BMP, decide_eq_true_iff]
      omega
    have htwo : (utf16 (sequenceValue (a :: t))).length = 2 := by
      rw [utf16, if_neg hbmp]
      rfl
    rw [if_neg this, if_pos (U_IS_SUPPLEMENTARY_of_isScalar hscalar hbmp), if_neg (by omega),
      surrogates_eq_utf16 hscalar hbmp]
    exact ⟨_, rfl⟩

/-- **A turn stops where no sequence starts.** -/
theorem turn_stuck (capacity : Nat) (strict : Bool) (s : Cursor) (hne : s.source ≠ [])
    (hbytes : ∀ b ∈ s.source, b < 256)
    (h : ∀ bs rest, s.source = bs ++ rest → ¬ Sequence legalTable bs) :
    ∃ result, convertUTF8ToUTF16Turn capacity strict s = .inr (result, s) ∧
    result ≠ .conversionOK := by
  obtain ⟨source, target, orAllData⟩ := s
  match source, hne with
  | b0 :: t, _ =>
    simp only [convertUTF8ToUTF16Turn]
    by_cases hshort : (b0 :: t).length < inlineUTF8SequenceLength b0
    · rw [if_pos hshort]
      exact ⟨_, rfl, by decide⟩
    rw [if_neg hshort]
    have hillegal : isLegalUTF8 (b0 :: t) (inlineUTF8SequenceLength b0) = false := by
      by_contra hlegal
      refine h _ _ (take_append_drop (inlineUTF8SequenceLength b0) (b0 :: t)).symm ?_
      exact legal_of_isLegalUTF8 (hbytes b0 mem_cons_self) (by omega)
        (Bool.eq_true_of_not_eq_false hlegal)
    rw [hillegal]
    exact ⟨_, rfl, by decide⟩

/-! ## 5. The whole conversion -/

/-- The bytes split into sequences that `isLegalUTF8` accepts. -/
abbrev Legal : List Nat → List Nat → Prop := WellFormedBy legalTable sequenceValue

/-- What a conversion that has already written `target` makes of the rest of the source. -/
def Converts (target source : List Nat) (r : ConversionResult × Cursor) : Prop :=
  (r.1 = .conversionOK ∧ ∃ cs, Legal source cs ∧ r.2.target = target ++ cs.flatMap utf16) ∨
    (r.1 ≠ .conversionOK ∧ ∀ cs, ¬ Legal source cs)

/-- A sequence at the front leaves the question to the rest. -/
theorem Converts.cons {rest target : List Nat} {r : ConversionResult × Cursor}
    (h : Sequence legalTable bs) (hr : Converts (target ++ utf16 (sequenceValue bs)) rest r) :
    Converts target (bs ++ rest) r := by
  refine hr.imp (And.imp_right ?_) (And.imp_right ?_)
  · rintro ⟨cs, hcs, htarget⟩
    exact ⟨sequenceValue bs :: cs, .cons h hcs, by rw [htarget, flatMap_cons, append_assoc]⟩
  · intro hno cs hcs
    obtain ⟨-, cs', -, hrest⟩ := WellFormedBy.uncons (fun _ => id) h hcs
    exact hno cs' hrest

/-- **The loop ends, and returns `conversionOK` exactly on the bytes that split.** -/
theorem run_converts (strict : Bool) {source target : List Nat} (orAllData : Nat)
    (hbytes : ∀ b ∈ source, b < 256) (hcap : target.length + source.length ≤ capacity) :
    ∃ r, Iteration.run (convertUTF8ToUTF16Turn capacity strict) (source.length + 1)
      ⟨source, target, orAllData⟩ = some r ∧ Converts target source r := by
  induction hn : source.length using Nat.strongRecOn generalizing source target orAllData with
  | ind n ih =>
    by_cases hne : source = []
    · subst hne
      exact ⟨(.conversionOK, ⟨[], target, orAllData⟩), Iteration.run_succ_inr rfl n,
        .inl ⟨rfl, [], .nil, by simp⟩⟩
    by_cases hseq : ∃ bs rest, source = bs ++ rest ∧ Sequence legalTable bs
    · obtain ⟨bs, rest, rfl, hseq⟩ := hseq
      have hpos : 0 < bs.length := by
        obtain ⟨a, t, rfl, -⟩ := legal_length hseq
        exact Nat.succ_pos _
      obtain ⟨-, hunits⟩ := isScalar_sequenceValue hseq
      rw [length_append] at hn hcap
      have hroom : target.length + bs.length ≤ capacity := by omega
      have hroom' : (target ++ utf16 (sequenceValue bs)).length + rest.length ≤ capacity := by
        rw [length_append]
        omega
      obtain ⟨orAllData', hturn⟩ := turn_sequence strict rest orAllData hseq hroom
      obtain ⟨r, hrun, hr⟩ := ih rest.length (by omega) orAllData'
        (fun b hb => hbytes b (mem_append_right _ hb)) hroom' rfl
      refine ⟨r, ?_, hr.cons hseq⟩
      rw [Iteration.run_succ_inl hturn]
      obtain ⟨j, hj⟩ := Nat.exists_eq_add_of_le (show rest.length + 1 ≤ n by omega)
      rw [hj]
      exact Iteration.run_mono hrun j
    · have hstuck : ∀ bs rest, source = bs ++ rest → ¬ Sequence legalTable bs :=
        fun bs rest h hs => hseq ⟨bs, rest, h, hs⟩
      obtain ⟨result, hturn, hresult⟩ := turn_stuck capacity strict
        ⟨source, target, orAllData⟩ hne hbytes hstuck
      refine ⟨_, Iteration.run_succ_inr hturn n, .inr ⟨hresult, fun cs hcs => ?_⟩⟩
      cases hcs with
      | nil => exact hne rfl
      | cons hs _ => exact hstuck _ _ rfl hs

variable {bytes : List Nat}

/-- **The table decides**: with room for the target the conversion is `conversionOK` if and only if
the bytes split into sequences of `legalTable`, and then writes the UTF-16 units of their values. -/
theorem convertUTF8ToUTF16_spec (strict : Bool) (hbytes : ∀ b ∈ bytes, b < 256)
    (hcap : bytes.length ≤ capacity) : ∃ r, convertUTF8ToUTF16 bytes capacity strict = some r ∧
      ((r.result = .conversionOK ∧ ∃ cs, Legal bytes cs ∧ r.target = cs.flatMap utf16) ∨
        (r.result ≠ .conversionOK ∧ ∀ cs, ¬ Legal bytes cs)) := by
  have hroom : ([] : List Nat).length + bytes.length ≤ capacity := by
    rw [length_nil]
    omega
  obtain ⟨r, hrun, hr⟩ := run_converts strict 0 hbytes hroom
  refine ⟨.ofCursor r, by rw [convertUTF8ToUTF16, hrun]; rfl, ?_⟩
  exact hr

/-! ## 6. The standard's table -/

/-- The bytes split into sequences that `isLegalUTF8` accepts, and one of them has a second byte
below `80` behind a lead byte `ED` or `F4`. -/
def Sloppy (bytes : List Nat) : Prop :=
  ∃ p q r cp cr, bytes = p ++ (q ++ r) ∧ Legal p cp ∧ Sequence extraRows q ∧ Legal r cr

theorem Legal.of_wellFormed (h : WellFormed bytes cs) : Legal bytes cs := by
  induction h with
  | nil => exact .nil
  | cons hseq _ ih =>
    rw [← sequenceValue_eq_scalarValue hseq]
    exact .cons (sequence_legalTable.2 (.inl hseq)) ih

theorem Legal.unique {cs' : List Nat} (h : Legal bytes cs) (h' : Legal bytes cs') : cs = cs' := by
  induction h generalizing cs' with
  | nil =>
    generalize hbytes : ([] : List Nat) = bytes at h'
    cases h' with
    | nil => rfl
    | cons hseq _ =>
      obtain ⟨a, t, rfl, -⟩ := legal_length hseq
      cases hbytes
  | cons hseq _ ih =>
    obtain ⟨-, cs'', rfl, hrest⟩ := WellFormedBy.uncons (fun _ => id) hseq h'
    rw [ih hrest]

theorem Sloppy.legal (h : Sloppy bytes) : ∃ cs, Legal bytes cs := by
  obtain ⟨p, q, r, cp, cr, rfl, hp, hq, hr⟩ := h
  exact ⟨_, hp.append (.cons (sequence_legalTable.2 (.inr hq)) hr)⟩

/-- The two widened rows have no sequence in common with the standard's table. -/
theorem not_extra (h : Sequence table37 bs) : ¬ Sequence extraRows bs := by
  rcases legal_cases (sequence_legalTable.2 (.inl h)) with ⟨a, rfl, -⟩ | ⟨a, b, rfl, -⟩
      | ⟨a, b, c, rfl, -⟩ |
    ⟨a, b, c, d, rfl, -⟩ <;> simp at h ⊢ <;> omega

/-- **Sloppy bytes are not well-formed.** -/
theorem Sloppy.not_wellFormed (h : Sloppy bytes) (cs : List Nat) : ¬ WellFormed bytes cs := by
  obtain ⟨p, q, r, cp, cr, rfl, hp, hq, -⟩ := h
  -- both ways to split the bytes agree up to the sequence in question
  have hsub (s : List Nat) (h : Sequence table37 s) := sequence_legalTable.2 (.inl h)
  induction hp generalizing cs with
  | nil =>
    intro hwf
    obtain ⟨hseq, -⟩ := WellFormedBy.uncons hsub (sequence_legalTable.2 (.inr hq)) hwf
    exact not_extra hseq hq
  | cons hs _ ih =>
    intro hwf
    rw [append_assoc] at hwf
    obtain ⟨-, cs', -, hrest⟩ := WellFormedBy.uncons hsub hs hwf
    exact ih cs' hrest

/-- Bytes that the code accepts are well-formed, with the same values, or sloppy. -/
theorem Legal.wellFormed_or_sloppy (h : Legal bytes cs) : WellFormed bytes cs ∨ Sloppy bytes := by
  induction h with
  | nil => exact .inl .nil
  | @cons bs rest cs hseq hrest ih =>
    rcases sequence_legalTable.1 hseq with hstd | hextra
    · refine ih.imp (fun h => ?_) ?_
      · rw [sequenceValue_eq_scalarValue hstd]
        exact .cons hstd h
      · rintro ⟨p, q, r, cp, cr, rfl, hp, hq, hr⟩
        exact ⟨bs ++ p, q, r, _, cr, by rw [append_assoc], .cons hseq hp, hq, hr⟩
    · exact .inr ⟨[], bs, rest, [], cs, rfl, .nil, hextra, hrest⟩

/-- **The strict conversion accepts exactly well-formed UTF-8 and writes its UTF-16, unless the
bytes are sloppy**; on sloppy bytes it does not. -/
theorem convertUTF8ToUTF16_strict (bytes : List Nat) (capacity : Nat)
    (hbytes : ∀ b ∈ bytes, b < 256) (hcap : bytes.length ≤ capacity) :
    ∃ r, convertUTF8ToUTF16 bytes capacity true = some r ∧
      (((r.result = .conversionOK ↔ ∃ cs, WellFormed bytes cs) ∧
        ∀ cs, WellFormed bytes cs → r.target = cs.flatMap utf16) ↔ ¬ Sloppy bytes) := by
  obtain ⟨r, hrun, hr⟩ := convertUTF8ToUTF16_spec true hbytes hcap
  refine ⟨r, hrun, ?_, ?_⟩
  · rintro ⟨hiff, -⟩ hsloppy
    rcases hr with ⟨hok, -⟩ | ⟨-, hno⟩
    · obtain ⟨cs, hwf⟩ := hiff.1 hok
      exact hsloppy.not_wellFormed cs hwf
    · obtain ⟨cs, hcs⟩ := hsloppy.legal
      exact hno cs hcs
  · intro hsloppy
    rcases hr with ⟨hok, cs, hlegal, htarget⟩ | ⟨hno, hillegal⟩
    · have hwf := hlegal.wellFormed_or_sloppy.resolve_right hsloppy
      refine ⟨⟨fun _ => ⟨cs, hwf⟩, fun _ => hok⟩, fun cs' hwf' => ?_⟩
      rw [htarget, hlegal.unique (Legal.of_wellFormed hwf')]
    · refine ⟨⟨fun hok => absurd hok hno, ?_⟩, ?_⟩
      · rintro ⟨cs, hwf⟩
        exact absurd (Legal.of_wellFormed hwf) (hillegal cs)
      · intro cs hwf
        exact absurd (Legal.of_wellFormed hwf) (hillegal cs)

/-- The euro sign, as UTF-8 has it. -/
theorem convertUTF8ToUTF16_strict_euro : ∃ r,
    convertUTF8ToUTF16 [0xE2, 0x82, 0xAC] 3 true = some r ∧
      (((r.result = .conversionOK ↔ ∃ cs, WellFormed [0xE2, 0x82, 0xAC] cs) ∧
        ∀ cs, WellFormed [0xE2, 0x82, 0xAC] cs → r.target = cs.flatMap utf16) ↔
          ¬ Sloppy [0xE2, 0x82, 0xAC]) :=
  convertUTF8ToUTF16_strict [0xE2, 0x82, 0xAC] 3 (by decide) (by decide)

/-- **A space behind `ED` is taken for a continuation byte**: the bytes `ED 20 80` come out as the
one unit `B800`, though no well-formed UTF-8 contains them. -/
theorem convertUTF8ToUTF16_accepts_illformed :
    convertUTF8ToUTF16 [0xED, 0x20, 0x80] 3 true = some ⟨.conversionOK, [], [0xB800], false⟩ ∧
      ∀ cs, ¬ WellFormed [0xED, 0x20, 0x80] cs := by
  refine ⟨by decide +kernel, Sloppy.not_wellFormed ?_⟩
  exact ⟨[], [0xED, 0x20, 0x80], [], [], [], rfl, .nil,
    by simp, .nil⟩

end JavaScriptCore.WTF.Unicode
