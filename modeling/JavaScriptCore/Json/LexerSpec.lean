/-
# What `lex` reads, in terms of the grammar

One inversion lemma says everything a call of `lex` can do (`lex_tokenAt`): the text starts with
white space and a token of the grammar, the result is that token, and `m_ptr` stands right behind
it; or the result is an error token.  In the other direction there is one lemma for each kind of
token (`lex_punctuator`, `lex_string`, `lex_number`, `lex_word`, …).

Numbers are the one place where the grammar alone does not fix where a token ends: `12` starts
with the JSON numbers `1` and `12`.  The lexer takes the longest one, so the converse lemma asks
that what follows does not continue the number (`NumberEnds`).  Nothing the grammar allows after
a value does.
-/
import Mathlib.Data.List.DropRight
import JavaScriptCore.Json.Grammar

namespace JavaScriptCore.Json

open List

/-! ## 1. Character classes -/

@[simp] theorem isJSONWhiteSpace_iff (c : Nat) : isJSONWhiteSpace c = true ↔ IsWs c := by
  simp only [isJSONWhiteSpace, IsWs, Bool.or_eq_true, beq_iff_eq]
  omega

@[simp] theorem isASCIIDigit_iff (c : Nat) : isASCIIDigit c = true ↔ IsDigit c := by
  simp [isASCIIDigit, IsDigit]

@[simp] theorem isASCIIHexDigit_iff (c : Nat) : isASCIIHexDigit c = true ↔ IsHexDigit c := by
  simp [isASCIIHexDigit, isASCIIDigit, IsHexDigit, or_assoc]

theorem isSafeStringCharacter_iff (mode : ParserMode) {q : Nat} (hq : q ≠ 0x9) (c : Nat) :
    isSafeStringCharacter mode q c = true ↔ IsStringCharacter mode q c := by
  cases mode <;> simp [isSafeStringCharacter, IsStringCharacter] <;> omega

theorem simpleEscape_iff (mode : ParserMode) (c u : Nat) :
    simpleEscape mode c = some u ↔ Escape mode c u := by
  constructor
  · intro h
    unfold simpleEscape at h
    split_ifs at h with h1 h2 h3 h4 h5 h6 h7 h8 h9 <;> cases h
    · subst h1; exact .quote
    · subst h2; exact .backslash
    · subst h3; exact .slash
    · subst h4; exact .b
    · subst h5; exact .f
    · subst h6; exact .n
    · subst h7; exact .r
    · subst h8; exact .t
    · obtain ⟨rfl, hm⟩ := h9
      exact .apostrophe hm
  · intro h
    cases h <;> simp_all [simpleEscape]

/-! ## 2. White space -/

theorem Ws.trans {s t r : List Nat} (h₁ : Ws s t) (h₂ : Ws t r) : Ws s r := by
  induction h₁ with
  | nil => exact h₂
  | cons hc _ ih => exact .cons hc (ih h₂)

section Texts

variable {s r : List Nat}

theorem Ws.length_le (h : Ws s r) : r.length ≤ s.length := by
  induction h with
  | nil => exact Nat.le_refl _
  | cons _ _ ih => exact Nat.le_succ_of_le ih

variable {c : Nat}

theorem Ws.length_lt (h : Ws s (c :: r)) : r.length < s.length := h.length_le

theorem ws_dropWhile : ∀ s : List Nat, Ws s (s.dropWhile isJSONWhiteSpace)
  | [] => .nil
  | c :: s => by
    rw [dropWhile_cons]
    split
    · next hc => exact .cons ((isJSONWhiteSpace_iff c).mp hc) (ws_dropWhile s)
    · exact .nil

/-- Skipping white space by hand or by the lexer comes to the same. -/
theorem Ws.dropWhile_eq (h : Ws s r) :
    s.dropWhile isJSONWhiteSpace = r.dropWhile isJSONWhiteSpace := by
  induction h with
  | nil => rfl
  | cons hc _ ih => rw [dropWhile_cons_of_pos ((isJSONWhiteSpace_iff _).mpr hc), ih]

/-- A text that starts with white space up to a character that is none. -/
theorem Ws.dropWhile_eq_cons (h : Ws s (c :: r)) (hc : ¬ IsWs c) :
    s.dropWhile isJSONWhiteSpace = c :: r := by
  rw [h.dropWhile_eq, dropWhile_cons_of_neg (by simpa using hc)]

theorem Ws.dropWhile_eq_nil {s : List Nat} (h : Ws s []) : s.dropWhile isJSONWhiteSpace = [] := by
  rw [h.dropWhile_eq, dropWhile_nil]

/-! ## 3. Strings -/

section Strings

variable {mode : ParserMode} {q : Nat}

theorem StringCharacters.append {s v r v' r' : List Nat} (h : StringCharacters mode q s v r)
    (h' : StringCharacters mode q r v' r') : StringCharacters mode q s (v ++ v') r' := by
  induction h with
  | nil => exact h'
  | char hc _ ih => exact .char hc (ih h')
  | escape hm he _ ih => exact .escape hm he (ih h')
  | unicode hm h1 h2 h3 h4 _ ih => exact .unicode hm h1 h2 h3 h4 (ih h')

/-- A run of safe characters stands for itself. -/
theorem stringCharacters_takeWhile (mode : ParserMode) (hq : q ≠ 0x9) : ∀ s : List Nat,
    StringCharacters mode q s (s.takeWhile (isSafeStringCharacter mode q))
      (s.dropWhile (isSafeStringCharacter mode q))
  | [] => .nil
  | c :: s => by
    rw [takeWhile_cons, dropWhile_cons]
    split
    · next hc =>
      exact .char ((isSafeStringCharacter_iff mode hq c).mp hc)
        (stringCharacters_takeWhile mode hq s)
    · exact .nil

theorem lexEscape_ok {s s' : List Nat} {u : Nat} (hm : mode ≠ .NonStrictJSON)
    (h : lexEscape mode s = .ok (u, s')) {v r : List Nat} (hs : StringCharacters mode q s' v r) :
    StringCharacters mode q (0x5C :: s) (u :: v) r ∧ s'.length < s.length := by
  unfold lexEscape at h
  split at h
  · cases h
  · split at h
    · split at h
      · next hx =>
        simp only [Bool.and_eq_true, isASCIIHexDigit_iff] at hx
        obtain ⟨⟨⟨h1, h2⟩, h3⟩, h4⟩ := hx
        cases h
        exact ⟨.unicode hm h1 h2 h3 h4 hs, by simp only [length_cons]; omega⟩
      · cases h
    · cases h
  · split at h
    · next hu =>
      cases h
      exact ⟨.escape hm ((simpleEscape_iff _ _ _).mp hu) hs, by simp⟩
    · cases h

theorem lexEscape_of_escape {c u : Nat} (h : Escape mode c u) (s : List Nat) :
    lexEscape mode (c :: s) = .ok (u, s) := by
  have hu := (simpleEscape_iff mode c u).mpr h
  have hc : c ≠ 0x75 := by cases h <;> decide
  unfold lexEscape
  split
  · next heq => cases heq
  · next heq => exact absurd (List.cons.inj heq).1 hc
  · next heq =>
    cases heq
    rw [hu]

theorem lexEscape_of_unicode {c1 c2 c3 c4 : Nat} (h1 : IsHexDigit c1) (h2 : IsHexDigit c2)
    (h3 : IsHexDigit c3) (h4 : IsHexDigit c4) (s : List Nat) :
    lexEscape mode (0x75 :: c1 :: c2 :: c3 :: c4 :: s) = .ok (convertUnicode c1 c2 c3 c4, s) := by
  simp [lexEscape, h1, h2, h3, h4]

/-- How the builder and the token text relate to the denoted string: without an escape the
builder stays empty and the token is the run from `runStart` on; with one the builder holds
everything. -/
def BuilderHolds (b₀ s b runStart v ptr : List Nat) : Prop :=
  (b = [] ∧ b₀ = [] ∧ runStart = s ∧ s = v ++ ptr) ∨ (b ≠ [] ∧ b = b₀ ++ v)

theorem BuilderHolds.string_eq {s b runStart v ptr : List Nat}
    (h : BuilderHolds [] s b runStart v ptr) :
    (if b = [] then runStart.take (runStart.length - ptr.length) else b) = v := by
  rcases h with ⟨rfl, -, rfl, rfl⟩ | ⟨hb, rfl⟩
  · simp
  · exact if_neg hb

/-- The builder after a run and an escape. -/
theorem builder_escape (b run : List Nat) : (if (if b.length ≠ 0 then b ++ run else b) = [] ∧
    run ≠ [] then (if b.length ≠ 0 then b ++ run else b) ++ run
      else (if b.length ≠ 0 then b ++ run else b)) = b ++ run := by
  cases b with
  | nil => cases run <;> simp
  | cons a b => simp

/-- One iteration that ends at an escape, written as the loop on the rest. -/
theorem lexStringLoop_escape {fuel : Nat} {b s afterSlash ptr : List Nat} {u : Nat}
    (hm : mode ≠ .NonStrictJSON)
    (hd : s.dropWhile (isSafeStringCharacter mode q) = 0x5C :: afterSlash)
    (he : lexEscape mode afterSlash = .ok (u, ptr)) : lexStringLoop mode q (fuel + 1) b s =
      if ptr.length ≠ s.length ∧ ptr ≠ [] ∧ ptr.head? ≠ some q then
        lexStringLoop mode q fuel (b ++ s.takeWhile (isSafeStringCharacter mode q) ++ [u]) ptr
      else .ok (b ++ s.takeWhile (isSafeStringCharacter mode q) ++ [u], s, ptr) := by
  conv_lhs => unfold lexStringLoop
  simp only [hd, he, builder_escape, ne_eq, hm, not_false_eq_true, true_and, if_true]

/-- One iteration that does not end at an escape. -/
theorem lexStringLoop_plain {fuel : Nat} {b s : List Nat}
    (hd : mode = .NonStrictJSON ∨ ∀ t, s.dropWhile (isSafeStringCharacter mode q) ≠ 0x5C :: t) :
    lexStringLoop mode q (fuel + 1) b s =
      let run := s.takeWhile (isSafeStringCharacter mode q)
      let ptr := s.dropWhile (isSafeStringCharacter mode q)
      let b' := if b.length ≠ 0 then b ++ run else b
      if mode ≠ .NonStrictJSON ∧ ptr.length ≠ s.length ∧ ptr ≠ [] ∧ ptr.head? ≠ some q then
        lexStringLoop mode q fuel b' ptr
      else .ok (b', s, ptr) := by
  conv_lhs => unfold lexStringLoop
  simp only []
  split
  · next t ht =>
    rcases hd with hm | hd
    · rw [if_neg (not_not_intro hm)]
    · exact absurd ht (hd t)
  · rfl

/-- **`lexString` only accepts string text.**  If the loop stops at the closing quote, what it
read is a sequence of string characters, and the builder holds what they denote. -/
theorem lexStringLoop_sound (hq : q ≠ 0x9) : ∀ (fuel : Nat) (b s b' runStart r : List Nat),
    lexStringLoop mode q fuel b s = .ok (b', runStart, q :: r) →
    ∃ v, StringCharacters mode q s v (q :: r) ∧ BuilderHolds b s b' runStart v (q :: r) := by
  intro fuel
  induction fuel with
  | zero => intro b s b' runStart r h; simp [lexStringLoop] at h
  | succ fuel ih =>
    intro b s b' runStart r h
    have hrun := stringCharacters_takeWhile mode hq s
    have hsplit : s = s.takeWhile (isSafeStringCharacter mode q)
        ++ s.dropWhile (isSafeStringCharacter mode q) := (takeWhile_append_dropWhile).symm
    by_cases hesc : mode ≠ .NonStrictJSON ∧
      ∃ t, s.dropWhile (isSafeStringCharacter mode q) = 0x5C :: t
    · obtain ⟨hm, t, ht⟩ := hesc
      cases he : lexEscape mode t with
      | error e =>
        unfold lexStringLoop at h
        simp [ht, he, hm] at h
      | ok up =>
        obtain ⟨u, ptr⟩ := up
        rw [lexStringLoop_escape hm ht he] at h
        split at h
        · obtain ⟨v, hv, hb⟩ := ih _ _ _ _ _ h
          have hchars := (lexEscape_ok hm he hv).1
          rw [ht] at hrun
          refine ⟨_, hrun.append hchars, .inr ?_⟩
          rcases hb with ⟨-, hnil, -, -⟩ | ⟨hne, hb⟩
          · simp at hnil
          · exact ⟨hne, by simp [hb]⟩
        · simp only [Except.ok.injEq, Prod.mk.injEq] at h
          obtain ⟨hb', -, hptr⟩ := h
          have hnil : StringCharacters mode q ptr [] (q :: r) := hptr ▸ .nil
          have hchars := (lexEscape_ok hm he hnil).1
          rw [ht] at hrun
          exact ⟨_, hrun.append hchars, .inr ⟨by simp [← hb'], by simp [← hb']⟩⟩
    · have hplain : mode = .NonStrictJSON ∨
          ∀ t, s.dropWhile (isSafeStringCharacter mode q) ≠ 0x5C :: t := by
        by_cases hm : mode = .NonStrictJSON
        · exact .inl hm
        · exact .inr fun t ht => hesc ⟨hm, t, ht⟩
      rw [lexStringLoop_plain hplain] at h
      simp only [] at h
      split at h
      · next hagain =>
        -- a second round can only stop where it starts, and that is not at the quote
        exfalso
        cases fuel with
        | zero => simp [lexStringLoop] at h
        | succ fuel =>
          have hidem : (s.dropWhile (isSafeStringCharacter mode q)).dropWhile
              (isSafeStringCharacter mode q) = s.dropWhile (isSafeStringCharacter mode q) :=
            dropWhile_idempotent _ _
          rw [lexStringLoop_plain (hplain.imp id (by rw [hidem]; exact id))] at h
          simp only [hidem, ne_eq, not_true_eq_false, false_and, and_false, if_false,
            Except.ok.injEq, Prod.mk.injEq] at h
          rw [h.2.2] at hagain
          simp at hagain
      · simp only [Except.ok.injEq, Prod.mk.injEq] at h
        obtain ⟨hb', hstart, hptr⟩ := h
        rw [hptr] at hrun hsplit
        refine ⟨_, hrun, ?_⟩
        cases b with
        | nil => exact .inl ⟨by simpa using hb'.symm, rfl, hstart.symm, hsplit⟩
        | cons a b => exact .inr ⟨by simp [← hb'], by simp [← hb']⟩

theorem not_safe_backslash : isSafeStringCharacter mode q 0x5C = false := by
  cases mode <;> simp [isSafeStringCharacter]

theorem not_safe_terminator (hq : q ≠ 0x9) : isSafeStringCharacter mode q q = false := by
  cases mode <;> simp [isSafeStringCharacter, hq]

attribute [local simp] not_safe_backslash

variable {s v r : List Nat}

/-- The leading run of safe characters can be split off a string's text. -/
theorem StringCharacters.split_run (hq : q ≠ 0x9)
    (h : StringCharacters mode q s v (q :: r)) :
    ∃ v', v = s.takeWhile (isSafeStringCharacter mode q) ++ v' ∧
      StringCharacters mode q (s.dropWhile (isSafeStringCharacter mode q)) v' (q :: r) := by
  generalize hr : q :: r = e at h
  induction h with
  | nil =>
    subst hr
    refine ⟨[], ?_, ?_⟩
    · rw [takeWhile_cons_of_neg (by simp [not_safe_terminator hq]), append_nil]
    · rw [dropWhile_cons_of_neg (by simp [not_safe_terminator hq])]
      exact .nil
  | @char c s v e hc _ ih =>
    obtain ⟨v', hv, h'⟩ := ih hr
    have hsafe := (isSafeStringCharacter_iff mode hq c).mpr hc
    refine ⟨v', ?_, ?_⟩
    · rw [takeWhile_cons_of_pos hsafe, hv, cons_append]
    · rw [dropWhile_cons_of_pos hsafe]
      exact h'
  | @escape c u s v e hm he h' =>
    refine ⟨u :: v, ?_, ?_⟩
    · rw [takeWhile_cons_of_neg (by simp), nil_append]
    · rw [dropWhile_cons_of_neg (by simp)]
      exact .escape hm he h'
  | @unicode c1 c2 c3 c4 s v e hm h1 h2 h3 h4 h' =>
    refine ⟨convertUnicode c1 c2 c3 c4 :: v, ?_, ?_⟩
    · rw [takeWhile_cons_of_neg (by simp), nil_append]
    · rw [dropWhile_cons_of_neg (by simp)]
      exact .unicode hm h1 h2 h3 h4 h'

theorem StringCharacters.ne_nil (h : StringCharacters mode q s v (q :: r)) : s ≠ [] := by
  cases h <;> simp

/-- String text that starts with its own terminator is empty. -/
theorem StringCharacters.of_head (hq : q ≠ 0x5C)
    (h : StringCharacters mode q s v (q :: r)) (hs : s.head? = some q) : v = [] ∧ s = q :: r := by
  cases h with
  | nil => exact ⟨rfl, rfl⟩
  | char hc _ => exact absurd (Option.some.inj hs) hc.2.1
  | escape | unicode => exact absurd (Option.some.inj hs).symm hq

/-- What the loop does from an escape on, given what it does on the text after it. -/
theorem lexStringLoop_complete_escape {fuel : Nat} {b s t s' v r : List Nat} {u : Nat}
    (hq' : q ≠ 0x5C) (hm : mode ≠ .NonStrictJSON)
    (ih : ∀ b, s'.length < fuel → ∃ b' rs, lexStringLoop mode q fuel b s' = .ok (b', rs, q :: r) ∧
      BuilderHolds b s' b' rs v (q :: r)) (hlen : s.length < fuel + 1) (ht : t.length < s.length)
    (hd : s.dropWhile (isSafeStringCharacter mode q) = 0x5C :: t)
    (he : lexEscape mode t = .ok (u, s')) (hv : StringCharacters mode q s' v (q :: r)) :
    ∃ b' rs, lexStringLoop mode q (fuel + 1) b s = .ok (b', rs, q :: r) ∧
      BuilderHolds b s b' rs (s.takeWhile (isSafeStringCharacter mode q) ++ u :: v) (q :: r) := by
  have hlt : s'.length < t.length := (lexEscape_ok hm he hv).2
  rw [lexStringLoop_escape hm hd he]
  by_cases hhead : s'.head? = some q
  · obtain ⟨rfl, rfl⟩ := hv.of_head hq' hhead
    rw [if_neg (by simp)]
    exact ⟨_, _, rfl, .inr ⟨by simp, by simp⟩⟩
  · rw [if_pos ⟨by omega, hv.ne_nil, hhead⟩]
    obtain ⟨b', rs, hrun, hb⟩ := ih _ (by omega)
    refine ⟨b', rs, hrun, .inr ?_⟩
    rcases hb with ⟨-, hnil, -, -⟩ | ⟨hne, hb⟩
    · simp at hnil
    · exact ⟨hne, by simp [hb]⟩

/-- **`lexString` accepts all string text.**  The induction is on the fuel, one round of the loop
for each escape; the run before the escape is split off first. -/
theorem lexStringLoop_complete (hq : q ≠ 0x9) (hq' : q ≠ 0x5C) :
    ∀ (fuel : Nat) (s v r b : List Nat), s.length < fuel → StringCharacters mode q s v (q :: r) →
      ∃ b' rs, lexStringLoop mode q fuel b s = .ok (b', rs, q :: r) ∧
      BuilderHolds b s b' rs v (q :: r) := by
  intro fuel
  induction fuel with
  | zero => intro s v r b hlen _; omega
  | succ fuel ih =>
    intro s v r b hlen h
    obtain ⟨v', rfl, h'⟩ := h.split_run hq
    have hsplit : s = s.takeWhile (isSafeStringCharacter mode q)
        ++ s.dropWhile (isSafeStringCharacter mode q) := (takeWhile_append_dropWhile).symm
    have hlen' : (s.dropWhile (isSafeStringCharacter mode q)).length ≤ s.length :=
      (dropWhile_suffix _).length_le
    have hsafe := head?_dropWhile_not (isSafeStringCharacter mode q) s
    generalize hp : s.dropWhile (isSafeStringCharacter mode q) = p at h' hlen' hsafe hsplit
    cases h' with
    | nil =>
      have hplain : ∀ t, s.dropWhile (isSafeStringCharacter mode q) ≠ 0x5C :: t := by
        rw [hp]
        intro t ht
        exact hq' (List.cons.inj ht).1
      rw [lexStringLoop_plain (.inr hplain)]
      simp only [hp, head?_cons, ne_eq, not_true_eq_false, and_false, if_false, append_nil]
      refine ⟨_, _, rfl, ?_⟩
      cases b with
      | nil => exact .inl ⟨by simp, rfl, rfl, hsplit⟩
      | cons a b => exact .inr ⟨by simp, by simp⟩
    | char hc _ =>
      simp [(isSafeStringCharacter_iff mode hq _).mpr hc] at hsafe
    | @escape c u s' v _ hm he hv =>
      refine lexStringLoop_complete_escape hq' hm (fun b hl => ih _ _ _ b hl hv) hlen ?_ hp
        (lexEscape_of_escape he s') hv
      simp only [length_cons] at hlen' ⊢
      omega
    | @unicode c1 c2 c3 c4 s' v _ hm h1 h2 h3 h4 hv =>
      refine lexStringLoop_complete_escape hq' hm (fun b hl => ih _ _ _ b hl hv) hlen ?_ hp
        (lexEscape_of_unicode h1 h2 h3 h4 s') hv
      simp only [length_cons] at hlen' ⊢
      omega

variable {ν : Type}

/-- The string token for the text between `start` and `r`, with the string `v`. -/
def stringToken (start v r : List Nat) : LexResult ν :=
  ⟨.TokString, ⟨.TokString, textBetween start r, v, none⟩, r, none⟩

theorem lexString_complete (ops : TokenOps ν) (hq : q ≠ 0x9) (hq' : q ≠ 0x5C)
    (h : StringCharacters mode q s v (q :: r)) :
    lexString ops mode q (q :: s) = stringToken (q :: s) (ops.string v) r := by
  obtain ⟨b, rs, hrun, hb⟩ :=
    lexStringLoop_complete hq hq' (s.length + 1) s v r [] (by omega) h
  have hstr := hb.string_eq
  simp only [lexString, tail_cons, hrun, ne_eq, not_true_eq_false, if_false]
  rw [hstr]
  rfl

/-- Either a string of the grammar, or an error token. -/
theorem lexString_cases (ops : TokenOps ν) (mode : ParserMode) (hq : q ≠ 0x9) (s : List Nat) :
    (∃ v r, StringCharacters mode q s v (q :: r) ∧
      lexString ops mode q (q :: s) = stringToken (q :: s) (ops.string v) r) ∨
    (∃ ptr e, lexString ops mode q (q :: s) = lexFailure ptr e) := by
  simp only [lexString, tail_cons]
  cases hrun : lexStringLoop mode q (s.length + 1) [] s with
  | error e => exact .inr ⟨_, _, rfl⟩
  | ok res =>
    obtain ⟨b, rs, ptr⟩ := res
    cases ptr with
    | nil => exact .inr ⟨_, _, rfl⟩
    | cons c r =>
      by_cases hc : c = q
      · subst hc
        obtain ⟨v, hv, hb⟩ := lexStringLoop_sound hq _ _ _ _ _ _ hrun
        refine .inl ⟨v, r, hv, ?_⟩
        have hstr := hb.string_eq
        simp only [ne_eq, not_true_eq_false, if_false]
        rw [hstr]
        rfl
      · exact .inr ⟨c :: r,
          .unterminatedString, by simp only [ne_eq, hc, not_false_eq_true, if_true]⟩

end Strings

/-! ## 4. Numbers -/

/-- `r` does not start with a digit. -/
def DigitsEnd (r : List Nat) : Prop := ∀ c t, r = c :: t → ¬ IsDigit c

/-- `r` does not continue a number: no digit, no decimal point, no exponent. -/
def NumberEnds (r : List Nat) : Prop :=
  ∀ c t, r = c :: t → ¬ IsDigit c ∧ c ≠ 0x2E ∧ c ≠ 0x65 ∧ c ≠ 0x45

theorem NumberEnds.digitsEnd {r : List Nat} (h : NumberEnds r) : DigitsEnd r :=
  fun c t hr => (h c t hr).1

theorem digitsEnd_cons {t : List Nat} (hc : ¬ IsDigit c) : DigitsEnd (c :: t) := by
  intro c' t' h
  cases h
  exact hc

theorem digitsEnd_dropWhile : ∀ s : List Nat, DigitsEnd (s.dropWhile isASCIIDigit)
  | [] => by intro c t h; simp at h
  | d :: s => by
    rw [dropWhile_cons]
    split
    · exact digitsEnd_dropWhile s
    · next hd => exact digitsEnd_cons (by simpa using hd)

theorem DigitsEnd.dropWhile_eq {r : List Nat} (h : DigitsEnd r) : r.dropWhile isASCIIDigit = r := by
  cases r with
  | nil => rfl
  | cons c t => exact dropWhile_cons_of_neg (by simpa using h c t rfl)

theorem Digits.dropWhile_eq (h : Digits s r) (hr : DigitsEnd r) : s.dropWhile isASCIIDigit = r := by
  induction h with
  | one hc => rw [dropWhile_cons_of_pos (by simpa using hc), hr.dropWhile_eq]
  | cons hc _ ih => rw [dropWhile_cons_of_pos (by simpa using hc), ih hr]

theorem digits_dropWhile : ∀ {s : List Nat} {c : Nat}, IsDigit c →
    Digits (c :: s) (s.dropWhile isASCIIDigit)
  | [], _, hc => .one hc
  | d :: s, _, hc => by
    rw [dropWhile_cons]
    split
    · next hd => exact .cons hc (digits_dropWhile (by simpa using hd))
    · exact .one hc

theorem lexDigits_sound (h : lexDigits s = some r) : Digits s r ∧ DigitsEnd r := by
  cases s with
  | nil => simp [lexDigits] at h
  | cons c s =>
    simp only [lexDigits] at h
    split at h
    · next hc =>
      cases h
      exact ⟨digits_dropWhile (by simpa using hc), digitsEnd_dropWhile s⟩
    · cases h

theorem lexDigits_complete (h : Digits s r) (hr : DigitsEnd r) : lexDigits s = some r := by
  cases h with
  | one hc => simp [lexDigits, hc, hr.dropWhile_eq]
  | cons hc h => simp [lexDigits, hc, h.dropWhile_eq hr]

theorem lexIntegerPart_sound (h : lexIntegerPart s = some r) : IntegerPart s r := by
  cases s with
  | nil => simp [lexIntegerPart] at h
  | cons c s =>
    simp only [lexIntegerPart] at h
    split_ifs at h with h0 h1
    · cases h
      subst h0
      exact .zero
    · cases h
      have hd : IsDigit c := ⟨by omega, h1.2⟩
      cases s with
      | nil => exact .digit hd h0
      | cons d s =>
        rw [dropWhile_cons]
        split
        · next hd' => exact .digits hd h0 (digits_dropWhile (by simpa using hd'))
        · exact .digit hd h0

theorem lexIntegerPart_complete (h : IntegerPart s r) (hr : DigitsEnd r) :
    lexIntegerPart s = some r := by
  cases h with
  | zero => simp [lexIntegerPart]
  | digit hc h0 =>
    have h1 := hc.1
    have h2 := hc.2
    simp only [lexIntegerPart, h0, if_false]
    rw [if_pos ⟨by omega, h2⟩, hr.dropWhile_eq]
  | digits hc h0 h =>
    have h1 := hc.1
    have h2 := hc.2
    simp only [lexIntegerPart, h0, if_false]
    rw [if_pos ⟨by omega, h2⟩, h.dropWhile_eq hr]

theorem lexExponent_sound {e : Nat} (he : e = 0x65 ∨ e = 0x45)
    (h : lexExponent s = some r) : ExponentPart (e :: s) r := by
  unfold lexExponent at h
  split at h
  · exact .signed he (.inl rfl) (lexDigits_sound h).1
  · exact .signed he (.inr rfl) (lexDigits_sound h).1
  · exact .unsigned he (lexDigits_sound h).1

/-- A digit is neither a sign, nor a decimal point, nor an exponent letter. -/
theorem Digits.head_isDigit (h : Digits s r) : ∃ c t, s = c :: t ∧ IsDigit c := by
  cases h with
  | one hc | cons hc _ => exact ⟨_, _, rfl, hc⟩

theorem lexExponent_unsigned (h : Digits s r) (hr : DigitsEnd r) : lexExponent s = some r := by
  obtain ⟨c, t, rfl, hc⟩ := h.head_isDigit
  have h1 := hc.1
  unfold lexExponent
  split
  · next heq => cases heq; omega
  · next heq => cases heq; omega
  · exact lexDigits_complete h hr

theorem lexExponent_signed (hc : c = 0x2B ∨ c = 0x2D)
    (h : Digits s r) (hr : DigitsEnd r) : lexExponent (c :: s) = some r := by
  rcases hc with rfl | rfl <;> exact lexDigits_complete h hr

/-! ### The text of a number -/

theorem textBetween_append (a b : List Nat) : textBetween (a ++ b) b = a := by
  simp [textBetween]

theorem isIntegerText_append (a b : List Nat) :
    isIntegerText (a ++ b) = (isIntegerText a && isIntegerText b) := all_append

attribute [local simp] isIntegerText

theorem Digits.exists_append (h : Digits s r) : ∃ n, s = n ++ r ∧ isIntegerText n = true := by
  induction h with
  | @one c r hc => exact ⟨[c], rfl, by simp [hc]⟩
  | @cons c s r hc _ ih =>
    obtain ⟨n, rfl, hn⟩ := ih
    exact ⟨c :: n, rfl, by simpa [hc] using hn⟩

theorem IntegerPart.exists_append (h : IntegerPart s r) :
    ∃ n, s = n ++ r ∧ isIntegerText n = true := by
  cases h with
  | zero => exact ⟨[0x30], rfl, by decide⟩
  | @digit c r hc _ => exact ⟨[c], rfl, by simp [hc]⟩
  | @digits c s r hc _ h =>
    obtain ⟨n, rfl, hn⟩ := h.exists_append
    exact ⟨c :: n, rfl, by simpa [hc] using hn⟩

theorem Digits.suffix (h : Digits s r) : r <:+ s := h.exists_append.imp fun _ hn => hn.1.symm

theorem FractionPart.suffix (h : FractionPart s r) : r <:+ s := by
  cases h with
  | none => exact suffix_refl _
  | some h => exact h.suffix.trans (suffix_cons _ _)

theorem ExponentPart.suffix (h : ExponentPart s r) : r <:+ s := by
  cases h with
  | none => exact suffix_refl _
  | unsigned _ h => exact h.suffix.trans (suffix_cons _ _)
  | signed _ _ h => exact (h.suffix.trans (suffix_cons _ _)).trans (suffix_cons _ _)

theorem Digits.length_lt (h : Digits s r) : r.length < s.length := by
  induction h with
  | one _ => simp
  | cons _ _ ih => exact Nat.lt_succ_of_lt ih

theorem lexExponent_suffix (h : lexExponent s = some r) : r <:+ s := by
  unfold lexExponent at h
  split at h
  · exact (lexDigits_sound h).1.suffix.trans (suffix_cons _ _)
  · exact (lexDigits_sound h).1.suffix.trans (suffix_cons _ _)
  · exact (lexDigits_sound h).1.suffix

theorem skipMinus_append (start : List Nat) :
    ∃ sign, start = sign ++ skipMinus start ∧ isIntegerText sign = true := by
  unfold skipMinus
  split
  · exact ⟨[0x2D], rfl, by decide⟩
  · exact ⟨[], rfl, by decide⟩

theorem number_of_parts {start s₁ s₂ r : List Nat} (hi : IntegerPart (skipMinus start) s₁)
    (hf : FractionPart s₁ s₂) (he : ExponentPart s₂ r) : Number start r := by
  unfold skipMinus at hi
  split at hi
  · exact .minus ⟨hi, hf, he⟩
  · exact .plain ⟨hi, hf, he⟩

/-- The integer part with its sign is the text up to `s₁`, and an integer text. -/
theorem integer_text {start s₁ : List Nat} (hi : IntegerPart (skipMinus start) s₁) :
    ∃ a, start = a ++ s₁ ∧ isIntegerText a = true := by
  obtain ⟨sign, hs, hsign⟩ := skipMinus_append start
  obtain ⟨n, hn, hint⟩ := hi.exists_append
  refine ⟨sign ++ n, ?_, by rw [isIntegerText_append, hsign, hint]; rfl⟩
  rw [append_assoc, ← hn]
  exact hs

/-! ### Where a number ends -/

/-- Where the fraction ends, if there is one. -/
def endOfFraction : List Nat → Option (List Nat)
  | 0x2E :: s => lexDigits s
  | s => some s

/-- Where the exponent ends, if there is one. -/
def endOfExponent : List Nat → Option (List Nat)
  | [] => some []
  | c :: s => if c = 0x65 ∨ c = 0x45 then lexExponent s else some (c :: s)

/-- Where `lexNumber` ends, apart from the value that it computes on the way. -/
def endOfNumber (start : List Nat) : Option (List Nat) :=
  ((lexIntegerPart (skipMinus start)).bind endOfFraction).bind endOfExponent

theorem endOfFraction_sound (h : endOfFraction s = some r) : FractionPart s r := by
  unfold endOfFraction at h
  split at h
  · exact .some (lexDigits_sound h).1
  · cases h
    exact .none

theorem endOfExponent_sound (h : endOfExponent s = some r) : ExponentPart s r := by
  unfold endOfExponent at h
  split at h
  · cases h
    exact .none
  · split at h
    · next he => exact lexExponent_sound he h
    · cases h
      exact .none

/-- **Only JSON numbers have an end.** -/
theorem endOfNumber_sound {start : List Nat} (h : endOfNumber start = some r) : Number start r := by
  obtain ⟨s₂, h, he⟩ := Option.bind_eq_some_iff.mp h
  obtain ⟨s₁, hi, hf⟩ := Option.bind_eq_some_iff.mp h
  exact number_of_parts (lexIntegerPart_sound hi) (endOfFraction_sound hf) (endOfExponent_sound he)

theorem endOfExponent_complete (h : ExponentPart s r) (hr : NumberEnds r) :
    endOfExponent s = some r := by
  cases h with
  | none =>
    cases s with
    | nil => rfl
    | cons c t => exact if_neg (not_or.mpr (hr c t rfl).2.2)
  | unsigned he h => exact (if_pos he).trans (lexExponent_unsigned h hr.digitsEnd)
  | signed he hc h => exact (if_pos he).trans (lexExponent_signed hc h hr.digitsEnd)

/-- What follows the integer or the fraction digits is no digit and no decimal point. -/
theorem ExponentPart.head (he : ExponentPart s r) (hr : NumberEnds r) {t : List Nat}
    (hs : s = c :: t) : ¬ IsDigit c ∧ c ≠ 0x2E := by
  cases he with
  | none => exact ⟨(hr c t hs).1, (hr c t hs).2.1⟩
  | unsigned he _ | signed he _ _ =>
    cases hs
    rcases he with rfl | rfl <;> decide

theorem ExponentPart.digitsEnd (he : ExponentPart s r) (hr : NumberEnds r) : DigitsEnd s :=
  fun _ _ hs => (he.head hr hs).1

/-- **Every JSON number ends** where it is not continued by what follows it. -/
theorem endOfNumber_of_parts {start s₁ s₂ : List Nat} (hi : IntegerPart (skipMinus start) s₁)
    (hf : FractionPart s₁ s₂) (he : ExponentPart s₂ r) (hr : NumberEnds r) :
    endOfNumber start = some r := by
  obtain ⟨hend, hfraction⟩ : DigitsEnd s₁ ∧ endOfFraction s₁ = some s₂ := by
    cases hf with
    | none =>
      refine ⟨he.digitsEnd hr, ?_⟩
      unfold endOfFraction
      split
      · exact absurd rfl (he.head hr rfl).2
      · rfl
    | some h => exact ⟨digitsEnd_cons (by decide), lexDigits_complete h (he.digitsEnd hr)⟩
  rw [endOfNumber, lexIntegerPart_complete hi hend, Option.bind_some, hfraction, Option.bind_some,
    endOfExponent_complete he hr]

section Numbers

variable {ν : Type} (ops : NumberOps ν)

/-- The token a number text gives. -/
def numberTokenAt (start r : List Nat) : LexResult ν :=
  numberToken (textBetween start r) (numberValue ops (textBetween start r) r) r

variable {start r : List Nat}

/-- A number with a fraction or an exponent, or at the end of the input, is converted by
`parseDouble`. -/
theorem numberTokenAt_slow (h : r = [] ∨ isIntegerText (textBetween start r) = false
      ∨ 10 ≤ (textBetween start r).length) : numberTokenAt ops start r
      = numberToken (textBetween start r) (ops.parseDouble (textBetween start r)) r := by
  rw [numberTokenAt, numberValue, if_neg]
  rintro ⟨h1, h2, h3⟩
  rcases h with h | h | h
  · exact h1 h
  · rw [h] at h2
    cases h2
  · omega

theorem numberTokenAt_fast (hr : r ≠ [])
    (hint : isIntegerText (textBetween start r) = true) (hlen : (textBetween start r).length < 10) :
    numberTokenAt ops start r
      = numberToken (textBetween start r) (ops.ofInt (fastInt (textBetween start r))) r := by
  rw [numberTokenAt, numberValue, if_pos ⟨hr, hint, hlen⟩]

/-- The fraction and the exponent spoil the integer text. -/
theorem isIntegerText_textBetween (a : List Nat) {t r : List Nat}
    (hc : c = 0x2E ∨ c = 0x65 ∨ c = 0x45) (hr : r <:+ t) :
    isIntegerText (textBetween (a ++ c :: t) r) = false := by
  obtain ⟨m, rfl⟩ := hr
  rw [← cons_append, ← append_assoc, textBetween_append, isIntegerText_append]
  rcases hc with rfl | rfl | rfl <;> simp [IsDigit]

/-- The last part of `lexNumber`, from the end of the fraction on. -/
theorem lexExponentPart_cases {start s₂ : List Nat} (hslow : ∀ r, endOfExponent s₂ = some r →
      numberTokenAt ops start r
        = numberToken (textBetween start r) (ops.parseDouble (textBetween start r)) r) :
    (∃ r, endOfExponent s₂ = some r ∧ lexExponentPart ops start s₂ = numberTokenAt ops start r) ∨
      endOfExponent s₂ = none ∧ ∃ ptr e, lexExponentPart ops start s₂ = lexFailure ptr e := by
  cases s₂ with
  | nil => exact .inl ⟨[], rfl, (hslow [] rfl).symm⟩
  | cons c t =>
    simp only [endOfExponent, lexExponentPart] at hslow ⊢
    split
    · next hc =>
      cases hx : lexExponent t with
      | none => exact .inr ⟨rfl, _, _, rfl⟩
      | some r => exact .inl ⟨r, rfl, (hslow r (by rw [if_pos hc, hx])).symm⟩
    · next hc => exact .inl ⟨c :: t, rfl, (hslow _ (if_neg hc)).symm⟩

/-- **`lexNumber` delivers the value of the text up to the end of the number.** -/
theorem lexNumber_end (start : List Nat) :
    (∃ r, endOfNumber start = some r ∧ lexNumber ops start = numberTokenAt ops start r) ∨
      endOfNumber start = none ∧ ∃ ptr e, lexNumber ops start = lexFailure ptr e := by
  unfold lexNumber endOfNumber
  cases hx : lexIntegerPart (skipMinus start) with
  | none => exact .inr ⟨rfl, _, _, rfl⟩
  | some s₁ =>
    obtain ⟨a, rfl, hint⟩ := integer_text (lexIntegerPart_sound hx)
    simp only [Option.bind_some]
    split
    · next rest =>
      rw [endOfFraction]
      cases hd : lexDigits rest with
      | none => exact .inr ⟨rfl, _, _, rfl⟩
      | some s₂ =>
        refine lexExponentPart_cases ops fun r hr => numberTokenAt_slow ops (.inr (.inl ?_))
        exact isIntegerText_textBetween a (.inl rfl)
          ((endOfExponent_sound hr).suffix.trans (lexDigits_sound hd).1.suffix)
    · next c t hdot =>
      have hfraction : endOfFraction (c :: t) = some (c :: t) := by
        unfold endOfFraction
        split
        · next heq => exact (hdot (List.cons.inj heq).1).elim
        · rfl
      rw [hfraction, Option.bind_some]
      split
      · next hc =>
        refine .inl ⟨c :: t, if_neg (not_or.mpr hc.1), ?_⟩
        rw [numberTokenAt_fast ops (by simp) (by rwa [textBetween_append]) hc.2]
      · next hc =>
        refine lexExponentPart_cases ops fun r hr => numberTokenAt_slow ops (.inr ?_)
        rw [endOfExponent] at hr
        split at hr
        · next he => exact .inl (isIntegerText_textBetween a (.inr he) (lexExponent_suffix hr))
        · next he =>
          cases hr
          by_contra hlt
          exact hc ⟨not_or.mp he, by omega⟩
    · exact .inl ⟨[], rfl, (numberTokenAt_slow ops (.inl rfl)).symm⟩

/-- **`lexNumber` only accepts JSON numbers**, and delivers the value of the text it read. -/
theorem lexNumber_cases (start : List Nat) :
    (∃ r, Number start r ∧ lexNumber ops start = numberTokenAt ops start r) ∨
      ∃ ptr e, lexNumber ops start = lexFailure ptr e := by
  rcases lexNumber_end ops start with ⟨r, hr, htoken⟩ | ⟨_, hfailure⟩
  · exact .inl ⟨r, endOfNumber_sound hr, htoken⟩
  · exact .inr hfailure

theorem IntegerPart.head (h : IntegerPart s r) : ∃ c t, s = c :: t ∧ IsDigit c := by
  cases h with
  | zero => exact ⟨_, _, rfl, by decide⟩
  | digit hc _ | digits hc _ _ => exact ⟨_, _, rfl, hc⟩

theorem IntegerPart.length_lt (h : IntegerPart s r) : r.length < s.length := by
  cases h with
  | zero | digit _ _ => simp
  | digits _ _ h => exact Nat.lt_succ_of_lt h.length_lt

theorem skipMinus_of_digit {t : List Nat} (hc : IsDigit c) : skipMinus (c :: t) = c :: t := by
  have := hc.1
  unfold skipMinus
  split
  · next heq => cases heq; omega
  · rfl

theorem endOfNumber_complete {start : List Nat} (h : Number start r) (hr : NumberEnds r) :
    endOfNumber start = some r := by
  cases h with
  | plain h =>
    obtain ⟨hi, hf, he⟩ := h
    obtain ⟨c, t, rfl, hc⟩ := hi.head
    exact endOfNumber_of_parts (by rwa [skipMinus_of_digit hc]) hf he hr
  | minus h =>
    obtain ⟨hi, hf, he⟩ := h
    exact endOfNumber_of_parts hi hf he hr

/-- **`lexNumber` accepts every JSON number** that is not continued by what follows it. -/
theorem lexNumber_complete (h : Number start r) (hr : NumberEnds r) :
    lexNumber ops start = numberTokenAt ops start r := by
  have hend := endOfNumber_complete h hr
  rcases lexNumber_end ops start with ⟨r', hr', htoken⟩ | ⟨hnone, _⟩
  · cases hend.symm.trans hr'
    exact htoken
  · cases hend.symm.trans hnone

end Numbers

end Texts

/-! ## 5. `lex` -/

section Lex

variable {ν : Type} (ops : TokenOps ν) (mode : ParserMode)

/-- The token for an identifier. -/
def identifierToken (k r : List Nat) : LexResult ν :=
  ⟨.TokIdentifier, ⟨.TokIdentifier, k, ops.string k, none⟩, r, none⟩

/-- The token for a semicolon: stored as `TokSemi`, returned as `TokAssign`. -/
def semicolonToken (r : List Nat) : LexResult ν :=
  ⟨.TokAssign, ⟨.TokSemi, [0x3B], [], none⟩, r, none⟩

/-- The token at the end of the input. -/
def endToken : LexResult ν := ⟨.TokEnd, ⟨.TokEnd, [], [], none⟩, [], none⟩

/-- `TokenAt s res`: `res` is what `lex` may deliver for a text that starts with the token, and
its `ptr` is what follows the token in `s`. -/
inductive TokenAt : List Nat → LexResult ν → Prop where
  | finish : TokenAt [] endToken
  | punctuator {c ty r} : punctuator c = some ty → TokenAt (c :: r) (plainToken ty [c] r)
  | string {q s v r} : IsQuote mode q → StringCharacters mode q s v (q :: r) →
      TokenAt (q :: s) (stringToken (q :: s) (ops.string v) r)
  | number {s r} : Number s r → TokenAt s (numberTokenAt ops.toNumberOps s r)
  | word {c ty w r} : literalWord c = some (ty, w) → TokenAt (w ++ r) (plainToken ty w r)
  | dot {r} : TokenAt (0x2E :: r) (plainToken .TokDot [0x2E] r)
  | assign {r} : TokenAt (0x3D :: r) (plainToken .TokAssign [0x3D] r)
  | semi {r} : TokenAt (0x3B :: r) (semicolonToken r)
  | identifier {s k r} : IsIdentifier s k r → TokenAt s (identifierToken ops k r)
  | error {s ptr e} : TokenAt s (lexFailure ptr e)

variable {ops mode}

theorem IsQuote.ne_tab {q : Nat} (h : IsQuote mode q) : q ≠ 0x9 ∧ q ≠ 0x5C := by
  rcases h with rfl | ⟨-, rfl⟩ <;> decide

variable {c : Nat}

theorem isIdentifierStart_part (h : isIdentifierStart c = true) : isIdentifierPart c = true := by
  simp only [isIdentifierStart, isIdentifierPart, Bool.or_eq_true] at h ⊢
  tauto

/-- The text starts with none of the words. -/
def NoWord (s : List Nat) : Prop := ¬ [0x74, 0x72, 0x75, 0x65] <+: s
  ∧ ¬ [0x66, 0x61, 0x6C, 0x73, 0x65] <+: s ∧ ¬ [0x6E, 0x75, 0x6C, 0x6C] <+: s

variable {rest : List Nat}

theorem isIdentifier_lexIdentifier (hc : isIdentifierStart c = true)
    (hw : NoWord (c :: rest)) :
    IsIdentifier (c :: rest) ((c :: rest).takeWhile isIdentifierPart)
      ((c :: rest).dropWhile isIdentifierPart) where
  eq := (takeWhile_append_dropWhile).symm
  start :=
    ⟨c, rest.takeWhile isIdentifierPart, takeWhile_cons_of_pos (isIdentifierStart_part hc), hc⟩
  part := fun d hd => mem_takeWhile_imp hd
  stop := by
    intro d t h
    have := head?_dropWhile_not isIdentifierPart (c :: rest)
    rw [h] at this
    simpa using this
  notWord := hw

theorem IsIdentifier.takeWhile_eq {s k r : List Nat} (h : IsIdentifier s k r) :
    s.takeWhile isIdentifierPart = k ∧ s.dropWhile isIdentifierPart = r := by
  obtain ⟨rfl, -, hpart, hstop, -⟩ := h
  have hr : r.takeWhile isIdentifierPart = [] ∧ r.dropWhile isIdentifierPart = r := by
    cases r with
    | nil => exact ⟨rfl, rfl⟩
    | cons c t =>
      have hc := hstop c t rfl
      exact ⟨takeWhile_cons_of_neg (by simp [hc]), dropWhile_cons_of_neg (by simp [hc])⟩
  rw [takeWhile_append_of_pos hpart, dropWhile_append_of_pos hpart, hr.1, hr.2, append_nil]
  exact ⟨rfl, rfl⟩

theorem lexString_tokenAt (hq : IsQuote mode q) (rest : List Nat) :
    TokenAt ops mode (q :: rest) (lexString ops mode q (q :: rest)) := by
  rcases lexString_cases ops mode hq.ne_tab.1 rest with ⟨v, r, hv, heq⟩ | ⟨ptr, e, heq⟩
  · rw [heq]; exact .string hq hv
  · rw [heq]; exact .error

theorem lexAfterSwitch_tokenAt (hw : NoWord (c :: rest)) :
    TokenAt ops mode (c :: rest) (lexAfterSwitch ops mode c rest) := by
  unfold lexAfterSwitch
  split_ifs with h1 h2 h3 h4 h5 h6
  · subst h1; exact .dot
  · subst h2; exact .assign
  · subst h3; exact .semi
  · exact .identifier (isIdentifier_lexIdentifier h4 hw)
  · exact .error
  · subst h5
    exact lexString_tokenAt (.inr ⟨h6, rfl⟩) rest
  · exact .error

/-- A word of the `switch` starts with the character that selects it. -/
theorem literalWord_head {ty : TokenType} {w : List Nat}
    (h : literalWord c = some (ty, w)) : ∃ t, w = c :: t := by
  unfold literalWord at h
  split_ifs at h with h1 h2 h3 <;> cases h
  · exact ⟨_, by rw [h1]⟩
  · exact ⟨_, by rw [h2]⟩
  · exact ⟨_, by rw [h3]⟩

/-- If the word that the first character selects is not there, no word is. -/
theorem noWord_of_literalWord
    (h : ∀ ty w, literalWord c = some (ty, w) → ¬ w <+: c :: rest) : NoWord (c :: rest) := by
  refine ⟨?_, ?_, ?_⟩ <;> intro hp
  · have hc : 0x74 = c := (cons_prefix_cons.mp hp).1
    exact h .TokTrue _ (by simp [literalWord, ← hc]) hp
  · have hc : 0x66 = c := (cons_prefix_cons.mp hp).1
    exact h .TokFalse _ (by simp [literalWord, ← hc]) hp
  · have hc : 0x6E = c := (cons_prefix_cons.mp hp).1
    exact h .TokNull _ (by simp [literalWord, ← hc]) hp

theorem lexToken_tokenAt (c : Nat) (rest : List Nat) :
    TokenAt ops mode (c :: rest) (lexToken ops mode c rest) := by
  unfold lexToken
  split
  · next ty hty => exact .punctuator hty
  · split_ifs with h1 h2
    · subst h1
      exact lexString_tokenAt (.inl rfl) rest
    · rcases lexNumber_cases ops.toNumberOps (c :: rest) with ⟨r, hr, heq⟩ | ⟨ptr, e, heq⟩
      · rw [heq]; exact .number hr
      · rw [heq]; exact .error
    · split
      · next ty w hw =>
        split_ifs with hp
        · obtain ⟨r, hr⟩ := hp
          rw [← hr, drop_left]
          exact .word hw
        · refine lexAfterSwitch_tokenAt (noWord_of_literalWord fun ty' w' hw' => ?_)
          rw [hw] at hw'
          cases hw'
          exact hp
      · next hw =>
        refine lexAfterSwitch_tokenAt (noWord_of_literalWord fun ty' w' hw' => ?_)
        rw [hw] at hw'
        cases hw'

/-- **Everything a call of `lex` can do.** -/
theorem lex_tokenAt (ops : TokenOps ν) (mode : ParserMode) (t : List Nat) :
    ∃ s, Ws t s ∧ TokenAt ops mode s (lex ops mode t) := by
  refine ⟨_, ws_dropWhile t, ?_⟩
  unfold lex
  split
  · next h => rw [h]; exact .finish
  · next h => rw [h]; exact lexToken_tokenAt _ _

/-! ### The converse, for each kind of token -/

theorem lex_ws {t s : List Nat} (h : Ws t s) : lex ops mode t = lex ops mode s := by
  simp only [lex, h.dropWhile_eq]

theorem lex_end {t : List Nat} (h : Ws t []) : lex ops mode t = endToken := by
  simp only [lex, h.dropWhile_eq_nil]
  rfl

variable {t r : List Nat}

theorem lex_cons (h : Ws t (c :: r)) (hc : ¬ IsWs c) : lex ops mode t = lexToken ops mode c r := by
  simp only [lex, h.dropWhile_eq_cons hc]

theorem lex_punctuator (ty : TokenType) (h : Ws t (c :: r))
    (hc : punctuator c = some ty) : lex ops mode t = plainToken ty [c] r := by
  have hws : ¬ IsWs c := by
    unfold punctuator at hc
    unfold IsWs
    split_ifs at hc <;> omega
  rw [lex_cons h hws, lexToken, hc]

theorem lex_string {t s v r : List Nat} {q : Nat} (hq : IsQuote mode q) (h : Ws t (q :: s))
    (hs : StringCharacters mode q s v (q :: r)) : lex ops mode t = stringToken (q :: s)
    (ops.string v) r := by
  have hlex := lexString_complete ops hq.ne_tab.1 hq.ne_tab.2 hs
  rcases hq with rfl | ⟨hm, rfl⟩
  · rw [lex_cons h (by decide), ← hlex]
    rfl
  · rw [lex_cons h (by decide), ← hlex]
    simp [lexToken, punctuator, literalWord, lexAfterSwitch, isIdentifierStart,
      isASCIIAlpha, hm, IsDigit]

theorem Number.head {s r : List Nat} (h : Number s r) :
    ∃ c t, s = c :: t ∧ (c = 0x2D ∨ IsDigit c) := by
  cases h with
  | plain h =>
    obtain ⟨hi, -, -⟩ := h
    obtain ⟨c, t, rfl, hc⟩ := hi.head
    exact ⟨c, t, rfl, .inr hc⟩
  | minus _ => exact ⟨_, _, rfl, .inl rfl⟩

theorem lex_number {t s r : List Nat} (h : Ws t s) (hs : Number s r) (hr : NumberEnds r) :
    lex ops mode t = numberTokenAt ops.toNumberOps s r := by
  obtain ⟨c, s', rfl, hc⟩ := hs.head
  have hp : punctuator c = none := by
    unfold punctuator
    unfold IsDigit at hc
    split_ifs <;> first | omega | rfl
  have hws : ¬ IsWs c := by
    unfold IsWs
    unfold IsDigit at hc
    omega
  have hq : c ≠ 0x22 := by
    unfold IsDigit at hc
    omega
  have hd : c = 0x2D ∨ isASCIIDigit c = true := by simpa using hc
  rw [lex_cons h hws, lexToken, hp, ← lexNumber_complete ops.toNumberOps hs hr]
  simp only [hq, if_false, hd, if_true]

theorem lex_word {ty : TokenType} {w : List Nat} (hw : literalWord c = some (ty, w))
    (h : Ws t (w ++ r)) :
    lex ops mode t = plainToken ty w r := by
  obtain ⟨w', rfl⟩ := literalWord_head hw
  have hp : (c :: w') <+: c :: (w' ++ r) := ⟨r, rfl⟩
  have hne : punctuator c = none ∧ ¬ IsWs c ∧ c ≠ 0x22 ∧ ¬ (c = 0x2D ∨ isASCIIDigit c = true) := by
    unfold literalWord at hw
    split_ifs at hw with h1 h2 h3
    · subst h1; decide
    · subst h2; decide
    · subst h3; decide
  rw [cons_append] at h
  rw [lex_cons h hne.2.1, lexToken, hne.1]
  simp only [hne.2.2, if_false, hw, hp, if_true, length_cons, drop_succ_cons, drop_left]

theorem lex_assign (h : Ws t (0x3D :: r)) : lex ops mode t = plainToken .TokAssign [0x3D] r := by
  rw [lex_cons h (by decide)]
  rfl

theorem lex_dot (h : Ws t (0x2E :: r)) : lex ops mode t = plainToken .TokDot [0x2E] r := by
  rw [lex_cons h (by decide)]
  rfl

theorem lex_semicolon (h : Ws t (0x3B :: r)) : lex ops mode t = semicolonToken r := by
  rw [lex_cons h (by decide)]
  rfl

theorem lex_identifier {t s k r : List Nat} (h : Ws t s) (hs : IsIdentifier s k r) :
    lex ops mode t = identifierToken ops k r := by
  obtain ⟨htake, hdrop⟩ := hs.takeWhile_eq
  obtain ⟨c, k', rfl, hc⟩ := hs.start
  have hse := hs.eq
  rw [cons_append] at hse
  subst hse
  have hne : punctuator c = none ∧ ¬ IsWs c ∧ c ≠ 0x22 ∧ ¬ (c = 0x2D ∨ isASCIIDigit c = true)
      ∧ c ≠ 0x2E ∧ c ≠ 0x3D ∧ c ≠ 0x3B := by
    simp only [isIdentifierStart, isASCIIAlpha, Bool.or_eq_true, Bool.and_eq_true,
      decide_eq_true_eq, beq_iff_eq] at hc
    simp only [isASCIIDigit_iff, IsDigit, IsWs, punctuator]
    refine ⟨?_, ?_, ?_, ?_, ?_, ?_, ?_⟩
    · split_ifs <;> first | omega | rfl
    all_goals omega
  have hafter : lexAfterSwitch ops mode c (k' ++ r) = identifierToken ops (c :: k') r := by
    simp only [lexAfterSwitch, hne.2.2.2.2, if_false, hc, if_true, lexIdentifier, htake, hdrop]
    rfl
  rw [lex_cons h hne.2.1, lexToken, hne.1]
  simp only [hne.2.2.1, hne.2.2.2.1, if_false]
  split
  · next ty w hw =>
    rw [if_neg, hafter]
    unfold literalWord at hw
    split_ifs at hw <;> cases hw
    · exact hs.notWord.1
    · exact hs.notWord.2.1
    · exact hs.notWord.2.2
  · exact hafter

end Lex

end JavaScriptCore.Json
