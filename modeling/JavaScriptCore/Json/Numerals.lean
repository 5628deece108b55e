/-
# Decimal numerals

`natText n` is the numeral of a number.  Three parts of the code read numerals: `asIndex` takes a
property name for an index, the grammar of numbers begins with one, and the lexer converts short
ones by hand.  All of them go from the left to the right, so the induction here puts one more digit
behind a numeral (`decimal_induction`).

* `asIndex` recognises exactly the numerals of the array indices (`asIndex_eq_iff`).
* The lexer reads a short integer as an `int`, which has no negative zero.  So the text `-0` gets
  another value in front of a bracket or a comma than at the end of the input, and it is the only
  one (`lexNumber_value_iff`).
-/
import Mathlib.Data.Nat.Digits.Lemmas
import JavaScriptCore.Json.LexerSpec
import JavaScriptCore.Json.Stringify
import JavaScriptCore.Runtime.Double

namespace JavaScriptCore.Json

open List
open JavaScriptCore.Runtime (Double)

/-! ## 1. One more digit -/

variable {n d : Nat}

theorem natText_digit (hd : d < 10) : natText d = [0x30 + d] := by
  by_cases h : d = 0
  · rw [h]
    rfl
  · rw [natText, if_neg h, Nat.digits_of_lt 10 d h hd]
    rfl

theorem natText_append (hn : 0 < n) (hd : d < 10) :
    natText (10 * n + d) = natText n ++ [0x30 + d] := by
  rw [natText, if_neg (by omega), natText, if_neg hn.ne', Nat.digits_def' (by decide) (by omega),
    show (10 * n + d) % 10 = d by omega, show (10 * n + d) / 10 = n by omega]
  simp

/-- **Numbers are made from the left to the right.** -/
theorem decimal_induction {P : Nat → Prop} (digit : ∀ d < 10, P d)
    (append : ∀ n d, 0 < n → d < 10 → P n → P (10 * n + d)) (n : Nat) : P n := by
  induction n using Nat.strongRecOn with
  | ind n ih =>
    rcases Nat.lt_or_ge n 10 with h | h
    · exact digit n h
    · have hstep := append (n / 10) (n % 10) (by omega) (by omega) (ih _ (by omega))
      rwa [Nat.div_add_mod] at hstep

theorem isDigit_add (h : d < 10) : IsDigit (0x30 + d) := by
  unfold IsDigit
  omega

theorem natText_digits (n : Nat) : ∀ c ∈ natText n, IsDigit c := by
  induction n using decimal_induction with
  | digit d hd => simpa [natText_digit hd] using isDigit_add hd
  | append n d hn hd ih => simpa [natText_append hn hd, or_imp, forall_and, isDigit_add hd] using ih

theorem digitsToInt_natText (n : Nat) : digitsToInt (natText n) = n := by
  induction n using decimal_induction with
  | digit d hd =>
    simp only [natText_digit hd, digitsToInt, foldl_cons, foldl_nil]
    omega
  | append n d hn hd ih =>
    rw [natText_append hn hd, digitsToInt, foldl_append, ← digitsToInt, ih]
    simp only [foldl_cons, foldl_nil]
    omega

theorem natText_injective : Function.Injective natText := by
  intro m n h
  have hvalue := congrArg digitsToInt h
  rw [digitsToInt_natText, digitsToInt_natText] at hvalue
  exact Int.ofNat.inj hvalue

/-! ## 2. Array indices -/

theorem accumulateIndex_append (cs : List Nat) (v c : Nat) :
    accumulateIndex v (cs ++ [c]) = accumulateIndex (accumulateIndex v cs) [c] := by
  induction cs generalizing v with
  | nil => rfl
  | cons c' cs ih =>
    have hend : accumulateIndex NotAnIndex [c] = NotAnIndex := if_pos (by decide)
    rw [cons_append, accumulateIndex.eq_2 v c', accumulateIndex.eq_2 v c']
    split_ifs
    · exact hend.symm
    · simp only
      split_ifs
      · exact hend.symm
      · exact ih _
    · exact hend.symm

/-- The numeral of an index is recognised. -/
theorem asIndex_natText {i : Nat} (h : i < NotAnIndex) : asIndex (natText i) = i := by
  induction i using decimal_induction with
  | digit d hd =>
    rw [natText_digit hd, asIndex, if_neg (by simp [isDigit_add hd]), if_neg (by simp)]
    exact Nat.add_sub_cancel_left ..
  | append n d hn hd ih =>
    have hlt : 10 * n + d < 2 ^ 32 - 1 := h
    have hindex := ih (by unfold NotAnIndex; omega)
    rw [natText_append hn hd]
    cases htext : natText n with
    | nil =>
      rw [htext, asIndex, NotAnIndex] at hindex
      omega
    | cons c cs =>
      rw [htext, asIndex] at hindex
      split_ifs at hindex with hc hzero
      · rw [NotAnIndex] at hindex
        omega
      · have hnonzero : ¬(c = 0x30 ∧ cs ++ [0x30 + d] ≠ []) := by
          rintro ⟨rfl, -⟩
          obtain rfl : cs = [] := by simpa using hzero
          exact hn.ne hindex
        rw [cons_append, asIndex, if_neg (not_not.2 hc), if_neg hnonzero, accumulateIndex_append,
          hindex, accumulateIndex, if_neg (by omega), if_neg (by simp [isDigit_add hd])]
        simp only [Nat.add_sub_cancel_left]
        rw [Nat.mod_eq_of_lt (by omega), if_neg (by omega), accumulateIndex]
        omega
      · rw [NotAnIndex] at hindex
        omega

/-- What the loop returns is the number that was written. -/
theorem natText_accumulateIndex {cs : List Nat} {v : Nat} (hv : 0 < v) (hlt : v < 2 ^ 32)
    (h : accumulateIndex v cs ≠ NotAnIndex) :
    natText (accumulateIndex v cs) = natText v ++ cs ∧ accumulateIndex v cs < NotAnIndex := by
  induction cs generalizing v with
  | nil =>
    rw [accumulateIndex, NotAnIndex] at *
    exact ⟨(append_nil _).symm, by omega⟩
  | cons c cs ih =>
    rw [accumulateIndex] at h ⊢
    split_ifs at h ⊢ with hlarge hdigit
    · exact absurd rfl h
    · simp only at h ⊢
      split_ifs at h ⊢ with hwrap
      · exact absurd rfl h
      · rw [isASCIIDigit_iff, IsDigit] at hdigit
        have hnew : (c - 0x30 + v * 10) % 2 ^ 32 = 10 * v + (c - 0x30) := by omega
        rw [hnew] at h ⊢
        obtain ⟨htext, hindex⟩ := ih (by omega) (by omega) h
        refine ⟨?_, hindex⟩
        rw [htext, natText_append hv (by omega), show 0x30 + (c - 0x30) = c by omega, append_assoc]
        rfl
    · exact absurd rfl h

/-- What is recognised is the numeral of an index. -/
theorem natText_asIndex {s : List Nat} (h : asIndex s ≠ NotAnIndex) :
    natText (asIndex s) = s ∧ asIndex s < NotAnIndex := by
  cases s with
  | nil => exact absurd rfl h
  | cons c cs =>
    rw [asIndex] at h ⊢
    split_ifs at h ⊢ with hdigit hzero
    · exact absurd rfl h
    · rw [isASCIIDigit_iff, IsDigit] at hdigit
      by_cases hc : c = 0x30
      · have hcs : cs = [] := by simpa [hc] using hzero
        subst hc hcs
        exact ⟨rfl, by decide⟩
      · obtain ⟨htext, hindex⟩ := natText_accumulateIndex (by omega) (by omega) h
        rw [htext, natText_digit (by omega), show 0x30 + (c - 0x30) = c by omega]
        exact ⟨rfl, hindex⟩
    · exact absurd rfl h

/-- **`asIndex` recognises exactly the array indices**: the numerals of the numbers below `2 ^ 32 -
1`. -/
theorem asIndex_eq_iff (s : List Nat) (i : Nat) :
    asIndex s = i ∧ i ≠ NotAnIndex ↔ s = natText i ∧ i < 2 ^ 32 - 1 := by
  constructor
  · rintro ⟨rfl, hne⟩
    obtain ⟨htext, hlt⟩ := natText_asIndex hne
    exact ⟨htext.symm, hlt⟩
  · rintro ⟨rfl, hlt⟩
    exact ⟨asIndex_natText hlt, Nat.ne_of_lt hlt⟩

/-- Names that select the same place are the same. -/
theorem ofIdentifier_injective : Function.Injective PropertyKey.ofIdentifier := by
  intro s t h
  unfold PropertyKey.ofIdentifier at h
  split_ifs at h with hs ht
  · rw [← (natText_asIndex hs).1, PropertyKey.index.inj h, (natText_asIndex ht).1]
  · exact PropertyKey.name.inj h

/-! ## 3. Integers in front of other text -/

section Integers

variable {s r : List Nat}

theorem Digits.snoc {c : Nat} (h : Digits s (c :: r)) (hc : IsDigit c) : Digits s r := by
  generalize ht : c :: r = t at h
  induction h with
  | one hd =>
    subst ht
    exact .cons hd (.one hc)
  | cons hd _ ih => exact .cons hd (ih ht)

theorem integerPart_natText (n : Nat) (r : List Nat) : IntegerPart (natText n ++ r) r := by
  induction n using decimal_induction generalizing r with
  | digit d hd =>
    rw [natText_digit hd]
    by_cases hzero : d = 0
    · rw [hzero]
      exact .zero
    · exact .digit (isDigit_add hd) (by omega)
  | append n d hn hd ih =>
    have hzero : natText n ≠ [0x30] := fun h => hn.ne' (natText_injective h)
    rw [natText_append hn hd, append_assoc]
    have h := ih ([0x30 + d] ++ r)
    generalize hs : natText n ++ ([0x30 + d] ++ r) = s at h ⊢
    cases h with
    | zero => exact absurd (append_cancel_right (show _ = [0x30] ++ _ from hs)) hzero
    | digit hc h0 => exact .digits hc h0 (.one (isDigit_add hd))
    | digits hc h0 hds => exact .digits hc h0 (hds.snoc (isDigit_add hd))

theorem Digits.natText_append (h : Digits s r) {v : Nat} (hv : 0 < v) :
    ∃ n, natText v ++ s = natText n ++ r := by
  induction h generalizing v with
  | @one c r hc =>
    unfold IsDigit at hc
    refine ⟨10 * v + (c - 0x30), ?_⟩
    rw [Json.natText_append hv (by omega), show 0x30 + (c - 0x30) = c by omega, append_assoc]
    rfl
  | @cons c s r hc _ ih =>
    unfold IsDigit at hc
    obtain ⟨n, hn⟩ := ih (v := 10 * v + (c - 0x30)) (by omega)
    rw [Json.natText_append hv (by omega), show 0x30 + (c - 0x30) = c by omega, append_assoc] at hn
    exact ⟨n, hn⟩

/-- The integer part of a number is a numeral. -/
theorem IntegerPart.eq_natText (h : IntegerPart s r) : ∃ n, s = natText n ++ r := by
  have hdigit {c : Nat} (hc : IsDigit c) : natText (c - 0x30) = [c] := by
    unfold IsDigit at hc
    rw [natText_digit (by omega), show 0x30 + (c - 0x30) = c by omega]
  cases h with
  | zero => exact ⟨0, rfl⟩
  | @digit c r hc _ => exact ⟨c - 0x30, by rw [hdigit hc]; rfl⟩
  | @digits c s r hc h0 hs =>
    obtain ⟨n, hn⟩ := hs.natText_append (v := c - 0x30) (by unfold IsDigit at hc; omega)
    rw [hdigit hc] at hn
    exact ⟨n, hn⟩

/-- A number without fraction and exponent is a numeral. -/
theorem UnsignedNumber.integer (h : UnsignedNumber s r) (sign : List Nat)
    (hint : isIntegerText (textBetween (sign ++ s) r) = true) :
    ∃ n, textBetween (sign ++ s) r = sign ++ natText n := by
  obtain ⟨hi, hf, he⟩ := h
  obtain ⟨n, rfl⟩ := hi.eq_natText
  rw [← append_assoc] at hint ⊢
  cases hf with
  | some hds =>
    rw [isIntegerText_textBetween _ (.inl rfl) (he.suffix.trans hds.suffix)] at hint
    cases hint
  | none =>
    cases he with
    | none => exact ⟨n, textBetween_append _ _⟩
    | unsigned hc hds =>
      rw [isIntegerText_textBetween _ (.inr hc) hds.suffix] at hint
      cases hint
    | signed hc _ hds =>
      rw [isIntegerText_textBetween _ (.inr hc) (hds.suffix.trans (suffix_cons _ _))] at hint
      cases hint

theorem natText_ne_minus (n : Nat) (ds : List Nat) : natText n ≠ 0x2D :: ds := by
  intro heq
  have := natText_digits n 0x2D (by simp [heq])
  revert this
  decide

theorem fastInt_natText (n : Nat) : fastInt (natText n) = n := by
  rw [fastInt, digitsToInt_natText]
  exact natText_ne_minus n

theorem fastInt_minus (n : Nat) : fastInt (0x2D :: natText n) = -n := by
  rw [fastInt, digitsToInt_natText, mul_neg_one]

/-- Doubles, with a `parseDouble` that is exact on the short integers. -/
structure ExactIntegers (ops : NumberOps Double) : Prop where
  ofInt : ∀ n, ops.ofInt n = .finite n
  plain : ∀ n, (natText n).length < 10 → ops.parseDouble (natText n) = .finite n
  minus : ∀ n, 0 < n → (natText n).length < 9 → ops.parseDouble (0x2D :: natText n) = .finite (-n)
  minusZero : ops.parseDouble [0x2D, 0x30] = .negZero

theorem numberValue_eq_iff {ops : NumberOps Double} (hops : ExactIntegers ops) {start r : List Nat}
    (hnumber : Number start r) :
    numberValue ops (textBetween start r) r = ops.parseDouble (textBetween start r) ↔
      ¬(textBetween start r = [0x2D, 0x30] ∧ r ≠ []) := by
  rw [numberValue]
  split_ifs with hfast
  · obtain ⟨hr, hint, hlength⟩ := hfast
    -- the fast path has converted an integer: `-0` is the one that is not a double of its own
    rw [hops.ofInt]
    cases hnumber with
    | plain h =>
      obtain ⟨n, htext⟩ := h.integer [] hint
      rw [nil_append, nil_append] at htext
      rw [htext] at hlength ⊢
      simp [fastInt_natText, hops.plain n hlength, natText_ne_minus]
    | minus h =>
      obtain ⟨n, htext⟩ := h.integer [0x2D] hint
      rw [singleton_append, singleton_append] at htext
      rw [htext] at hlength ⊢
      rw [fastInt_minus]
      by_cases hn : n = 0
      · subst hn
        simp [natText, hops.minusZero, hr]
      · have hzero : natText n ≠ [0x30] := fun h => hn (natText_injective h)
        rw [hops.minus n (by omega) (Nat.lt_of_succ_lt_succ hlength)]
        simp [hzero]
  · refine iff_of_true rfl fun h => hfast ⟨h.2, ?_⟩
    rw [h.1]
    decide

/-- **A number has the value of its text, unless it is a `-0` with something behind it.**  This is
said of the JSON numbers that what follows does not continue, and of every token `lexNumber`
delivers. -/
theorem lexNumber_value_iff {ops : NumberOps Double} (hops : ExactIntegers ops) (start : List Nat) :
    (∀ r, Number start r → NumberEnds r →
      ((lexNumber ops start).token.number = some (ops.parseDouble (textBetween start r)) ↔
        ¬(textBetween start r = [0x2D, 0x30] ∧ r ≠ []))) ∧
    ((lexNumber ops start).returned = .TokNumber →
      ((lexNumber ops start).token.number =
        some (ops.parseDouble (lexNumber ops start).token.text) ↔
        ¬((lexNumber ops start).token.text = [0x2D, 0x30] ∧ (lexNumber ops start).ptr ≠ []))) := by
  constructor
  · intro r hnumber hend
    rw [lexNumber_complete ops hnumber hend]
    exact Option.some_inj.trans (numberValue_eq_iff hops hnumber)
  · intro hreturned
    rcases lexNumber_cases ops start with ⟨r, hnumber, heq⟩ | ⟨ptr, e, heq⟩
    · rw [heq]
      exact Option.some_inj.trans (numberValue_eq_iff hops hnumber)
    · rw [heq] at hreturned
      cases hreturned

/-- A `parseDouble` for integers. -/
def readInteger (text : List Nat) : Double :=
  if text = [0x2D, 0x30] then .negZero else .finite (fastInt text)

/-- Doubles, with only the integers as texts. -/
def integerOps : NumberOps Double where
  ofInt n := .finite n
  parseDouble := readInteger
  toIndex _ := none

theorem integerOps_exact : ExactIntegers integerOps where
  ofInt _ := rfl
  plain n _ := by
    simp [integerOps, readInteger, natText_ne_minus, fastInt_natText]
  minus n hn _ := by
    have hzero : natText n ≠ [0x30] := fun h => hn.ne' (natText_injective h)
    simp [integerOps, readInteger, hzero, fastInt_minus]
  minusZero := rfl

theorem lexNumber_value_twelve :
    (lexNumber integerOps [0x31, 0x32, 0x2C]).token.number = some (readInteger [0x31, 0x32]) :=
  ((lexNumber_value_iff integerOps_exact [0x31, 0x32, 0x2C]).2 rfl).2 (by decide)

/-- In `[-0]` the zero loses its sign, which it keeps where the text ends. -/
theorem lexNumber_minus_zero :
    (lexNumber integerOps [0x2D, 0x30, 0x5D]).token.number = some (.finite 0) ∧
      (lexNumber integerOps [0x2D, 0x30]).token.number = some .negZero := by
  decide

end Integers

end JavaScriptCore.Json
