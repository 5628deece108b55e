/-
# `JSON.parse` undoes `JSON.stringify`

`StringifySpec` says that the writer produces `valueText`; `Acceptance` says that the reader returns
the value of the grammar.  This module closes the gap between the two: the text of a tree is
grammatical and denotes the tree (`value_grammar`), if its strings and keys are short.

**The divergence.**  The writer keeps the length of a string in an `int`, and the reader in 31 bits.
A string of `2 ^ 31` characters is written as `""`, and read as the empty string where a text holds
it.  So the round trip is exact on exactly the short trees, and a text is read as the value it
denotes if and only if the value is short (`StringLengths`).  A text longer than `StringBuilder` can
hold ends the process; this is not modelled.

What has to agree is spread over both sides: the escapes of the writer and those of the grammar
(`stringCharacters_escape`), the digits of an integer and the two number paths of the lexer
(`numberValue_intText`), and the order in which the reader stores properties and the order in which
the writer listed them (`objectOf_toIdentifier`).

The conversion between numbers and texts is assumed exact on `int32` (`ExactInt32`); the fast path
of the lexer, which converts up to nine characters by hand, is proved to be exact
(`fastInt_intText`).
-/
import JavaScriptCore.Json.Acceptance
import JavaScriptCore.Json.StringifySpec

namespace JavaScriptCore.Json

open List

variable {ν : Type} {ops : NumberOps ν} {heap : List (Cell ν)} {num : NumberText ν}
  {gap : List Nat}

/-! ## 1. Strings -/

theorem hexDigit_spec : ∀ n < 16, IsHexDigit (hexDigit n) ∧ toASCIIHexValue (hexDigit n) = n := by
  unfold IsHexDigit
  decide

theorem convertUnicode_hexDigit {c : Nat} (hc : c < 0x10000) :
    convertUnicode (hexDigit (c / 4096 % 16)) (hexDigit (c / 256 % 16)) (hexDigit (c / 16 % 16))
      (hexDigit (c % 16)) = c := by
  have h : ∀ n, toASCIIHexValue (hexDigit (n % 16)) = n % 16 :=
    fun n => (hexDigit_spec _ (Nat.mod_lt _ (by decide))).2
  simp only [convertUnicode, h]
  omega

/-- Every code unit is written so that the grammar reads it back. -/
theorem stringCharacters_escape {c : Nat} (hc : c < 0x10000) {s v r : List Nat}
    (h : StringCharacters .StrictJSON 0x22 s v r) :
    StringCharacters .StrictJSON 0x22 (escapeCharacter c ++ s) (c :: v) r := by
  unfold escapeCharacter
  split_ifs with h₁ h₂ h₃ h₄ h₅ h₆ h₇ h₈
  · exact .char ⟨h₁.2.2, h₁.2.1, by simp only; omega⟩ h
  · subst h₂; exact .escape nofun .t h
  · subst h₃; exact .escape nofun .r h
  · subst h₄; exact .escape nofun .n h
  · subst h₅; exact .escape nofun .f h
  · subst h₆; exact .escape nofun .b h
  · subst h₇; exact .escape nofun .quote h
  · subst h₈; exact .escape nofun .backslash h
  · have hhex : ∀ n, IsHexDigit (hexDigit (n % 16)) :=
      fun n => (hexDigit_spec _ (Nat.mod_lt _ (by decide))).1
    conv => arg 4; rw [← convertUnicode_hexDigit hc]
    exact .unicode nofun (hhex (c / 4096)) (hhex (c / 256)) (hhex (c / 16)) (hhex c) h

theorem toNat_intLength {s : List Nat} (h : ShortString s) : (intLength s).toNat = s.length := by
  unfold ShortString at h
  unfold intLength
  generalize s.length = n at h ⊢
  rw [Int.bmod_eq_of_le (by omega) (by omega), Int.toNat_natCast]

theorem stringLiteral_quotedText {s : List Nat} (hshort : ShortString s)
    (hs : ∀ c ∈ s, c < 0x10000) (r : List Nat) :
    StringLiteral .StrictJSON (quotedText s ++ r) s r := by
  have main : StringCharacters .StrictJSON 0x22 (s.flatMap escapeCharacter ++
      0x22 :: r) s (0x22 :: r) := by
    clear hshort
    induction s with
    | nil => exact .nil
    | cons c s ih =>
      rw [flatMap_cons, append_assoc]
      exact stringCharacters_escape (hs c (by simp)) (ih fun x hx => hs x (by simp [hx]))
  rw [quotedText, toNat_intLength hshort, take_length, cons_append, append_assoc]
  exact .intro (.inl rfl) main

/-! ## 2. Numbers -/

/-- The decimal text of an integer. -/
def intText (n : Int) : List Nat := if n < 0 then 0x2D :: natText n.natAbs else natText n.natAbs

/-- The number library is exact on `int32` values, in both directions. -/
structure ExactInt32 (ops : NumberOps ν) (num : NumberText ν) : Prop where
  isFinite : ∀ n, Int32 n → num.isFinite (ops.ofInt n) = true
  numberToString : ∀ n, Int32 n → num.numberToString (ops.ofInt n) = intText n
  parseDouble : ∀ n, Int32 n → ops.parseDouble (intText n) = ops.ofInt n

theorem number_intText (n : Int) (r : List Nat) : Number (intText n ++ r) r := by
  unfold intText
  split_ifs
  · exact .minus ⟨integerPart_natText _ r, .none, .none⟩
  · exact .plain ⟨integerPart_natText _ r, .none, .none⟩

/-- The lexer's fast path reads the decimal text of an integer exactly. -/
theorem fastInt_intText (n : Int) : fastInt (intText n) = n := by
  unfold intText
  split_ifs with hneg
  · rw [fastInt_minus]
    omega
  · rw [fastInt_natText]
    omega

theorem numberValue_intText (hexact : ExactInt32 ops num) {n : Int} (hn : Int32 n) (r : List Nat) :
    numberValue ops (textBetween (intText n ++ r) r) r = ops.ofInt n := by
  rw [textBetween_append]
  unfold numberValue
  split_ifs
  · rw [fastInt_intText]
  · exact hexact.parseDouble n hn

theorem natText_ends (n : Nat) : EndsValue (natText n) := by
  induction n using decimal_induction with
  | digit d hd => exact ⟨[], _, natText_digit hd, by omega⟩
  | append n d hn hd _ => exact ⟨natText n, _, natText_append hn hd, by omega⟩

theorem ExactInt32.numbersEnd (h : ExactInt32 ops num) : NumbersEnd ops num := by
  intro n hn
  refine ⟨h.isFinite n hn, ?_⟩
  rw [h.numberToString n hn, intText]
  split_ifs
  · exact (natText_ends _).cons _
  · exact natText_ends _

/-! ## 3. Objects -/

variable {v : JSValue ν}

/-- A new largest index is stored at the end. -/
theorem putDirectIndex_last {i : Nat} :
    ∀ {ps : List (PropertyKey × JSValue ν)}, (∀ k ∈ ps.map Prod.fst, ∃ j, k = .index j ∧ j < i) →
      putDirectIndex i v ps = ps ++ [(.index i, v)]
  | [], _ => rfl
  | (k, w) :: ps, h => by
    obtain ⟨j, rfl, hj⟩ := h k (by simp)
    rw [putDirectIndex, if_neg (by omega), if_neg (by omega),
      putDirectIndex_last fun k hk => h k (by simp [hk])]
    rfl

/-- A new name is stored at the end. -/
theorem putDirect_last {s : List Nat} :
    ∀ {ps : List (PropertyKey × JSValue ν)}, .name s ∉ ps.map Prod.fst →
      putDirect s v ps = ps ++ [(.name s, v)]
  | [], _ => rfl
  | (k, w) :: ps, h => by
    rw [map_cons, mem_cons, not_or] at h
    rw [putDirect, if_neg (Ne.symm h.1), putDirect_last h.2]
    rfl

theorem putProperty_last {ps : List (PropertyKey × JSValue ν)} {k : PropertyKey}
    (h : PlainKeys (ps.map Prod.fst ++ [k])) :
    putProperty ps k.toIdentifier v = ps ++ [(k, v)] := by
  rw [putProperty, h.ofIdentifier_toIdentifier (by simp)]
  have hsorted := (pairwise_append.mp h.sorted).2.2
  cases k with
  | index i =>
    refine putDirectIndex_last fun k hk => ?_
    have := hsorted k hk (.index i) (by simp)
    cases k with
    | index j => exact ⟨j, rfl, this⟩
    | name s => exact this.elim
  | name s =>
    refine putDirect_last fun hk => ?_
    exact hsorted (.name s) hk (.name s) (by simp) rfl

theorem PlainKeys.of_append {ks l : List PropertyKey} (h : PlainKeys (ks ++ l)) : PlainKeys ks :=
  ⟨(pairwise_append.mp h.sorted).1, fun i hi => h.index i (by simp [hi]),
    fun s hs => h.name s (by simp [hs])⟩

/-- Storing the properties of a plain object in the order they are listed gives the object back. -/
theorem objectOf_toIdentifier {ps : List (PropertyKey × JSValue ν)}
    (h : PlainKeys (ps.map Prod.fst)) :
    objectOf (ps.map fun p => (p.1.toIdentifier, p.2)) = ps := by
  have main : ∀ ps done : List (PropertyKey × JSValue ν), PlainKeys ((done ++ ps).map Prod.fst) →
      (ps.map fun p => (p.1.toIdentifier, p.2)).foldl (fun ps m => putProperty ps m.1 m.2) done
        = done ++ ps := by
    intro ps
    induction ps with
    | nil => intro done _; simp
    | cons p ps ih =>
      intro done hkeys
      have hlast : PlainKeys (done.map Prod.fst ++ [p.1]) := by
        refine PlainKeys.of_append (l := ps.map Prod.fst) ?_
        simpa using hkeys
      rw [map_cons, foldl_cons, putProperty_last hlast, ih _ (by simpa using hkeys)]
      simp
  exact main ps [] h

/-! ## 4. The text of a tree is grammatical -/

theorem ws_append {a : List Nat} (h : ∀ c ∈ a, IsWs c) (r : List Nat) : Ws (a ++ r) r := by
  induction a with
  | nil => exact .nil
  | cons c a ih => exact .cons (h c (by simp)) (ih fun x hx => h x (by simp [hx]))

theorem ws_newLine (hgap : ∀ c ∈ gap, IsWs c) (n : Nat) (r : List Nat) :
    Ws (newLine gap n ++ r) r := by
  refine ws_append (fun c hc => ?_) r
  unfold newLine at hc
  split_ifs at hc
  · cases hc
  · rcases mem_cons.mp hc with rfl | hc
    · decide
    · obtain ⟨l, hl, hcl⟩ := mem_flatten.mp hc
      rw [(mem_replicate.mp hl).2] at hcl
      exact hgap c hcl

/-- A name that is written and read back as it is: it is short, and a sequence of code units. -/
def PropertyKey.Readable (k : PropertyKey) : Prop :=
  ShortString k.toIdentifier ∧ ∀ c ∈ k.toIdentifier, c < 0x10000

theorem PlainKeys.readable {ps : List (PropertyKey × JSValue ν)} (h : PlainKeys (ps.map Prod.fst))
    (hshort : ∀ p ∈ ps, p.1.Short) : ∀ k ∈ ps.map Prod.fst, k.Readable := by
  intro k hk
  obtain ⟨p, hp, rfl⟩ := mem_map.mp hk
  have hkey := hshort p hp
  cases hp : p.1 with
  | index i =>
    rw [hp] at hk
    refine ⟨shortString_natText (h.index i hk), fun c hc => ?_⟩
    have := natText_digits i c hc
    unfold IsDigit at this
    omega
  | name s =>
    rw [hp] at hk hkey
    exact ⟨hkey, (h.name s hk).2⟩

theorem RepresentsProps.keys_eq {props : List (PropertyKey × Val ν)}
    {ps : List (PropertyKey × JSValue ν)} (h : RepresentsProps ops heap props ps) :
    props.map Prod.fst = ps.map Prod.fst := by
  induction props generalizing ps with
  | nil =>
    cases h
    rfl
  | cons p props ih =>
    cases h with
    | cons hv hall => rw [map_cons, map_cons, ih hall]

/-- A colon, and the space after it if there is a gap. -/
theorem colonText_append (gap r : List Nat) : ∃ s, colonText gap ++ r = 0x3A :: s ∧ Ws s r := by
  unfold colonText
  split_ifs
  · exact ⟨r, rfl, .nil⟩
  · exact ⟨0x20 :: r, rfl, .cons (by decide) .nil⟩

mutual

/-- **The text of a short tree is read as the tree.** -/
theorem value_grammar (hexact : ExactInt32 ops num) (hgap : ∀ c ∈ gap, IsWs c) {v : Val ν}
    {t : JSValue ν} (h : Represents ops heap v t) (hshort : t.Short) (n : Nat) (r : List Nat) :
    Value ops.lexed .StrictJSON (valueText num gap n t ++ r) t r := by
  match h with
  | .null => rw [valueText]; exact .null
  | .boolean (b := true) => rw [valueText]; exact .true
  | .boolean (b := false) => rw [valueText]; exact .false
  | .string hs =>
    cases hshort with
    | string hshort =>
      have hval : Value ops.lexed .StrictJSON _ _ r :=
        .string (stringLiteral_quotedText hshort hs r)
      rw [valueText]
      rwa [string_lexed hshort] at hval
  | .number (n := m) hm hx =>
    rw [valueText, hx, hexact.numberToString m hm]
    have hval : Value ops.lexed .StrictJSON _ _ r := .number (number_intText m r)
    rwa [toNumberOps_lexed, numberValue_intText hexact hm] at hval
  | .array hcell hall =>
    cases hshort with
    | array hshort =>
      rw [valueText]
      match hall with
      | .nil =>
        rw [elementsText]
        exact .emptyArray .nil
      | .cons hv hall =>
        rw [elementsText]
        obtain ⟨hhead, htail⟩ := forall_mem_cons.mp hshort
        have := elements_grammar hexact hgap hall htail n r
          (value_grammar hexact hgap hv hhead (n + 1))
        simpa using Value.array this
  | @Represents.object _ _ _ _ _ ps hcell hkeys hprops =>
    cases hshort with
    | object hnames hshort =>
      rw [valueText]
      rw [hprops.keys_eq] at hkeys
      have hobject := objectOf_toIdentifier hkeys
      match hprops with
      | .nil =>
        rw [membersText]
        exact .emptyObject .nil
      | .cons (k := k) hv hprops =>
        rw [membersText]
        obtain ⟨hhead, htail⟩ := forall_mem_cons.mp hshort
        have := members_grammar hexact hgap hprops htail n r k (hkeys.readable hnames)
          (value_grammar hexact hgap hv hhead (n + 1))
        rw [← hobject]
        simpa using Value.object this

theorem elements_grammar (hexact : ExactInt32 ops num) (hgap : ∀ c ∈ gap, IsWs c)
    {es : List (Val ν)} {vs : List (JSValue ν)} (h : RepresentsAll ops heap es vs)
    (hshort : ∀ v ∈ vs, v.Short) (n : Nat) (r : List Nat) {t : JSValue ν}
    (ht : ∀ r, Value ops.lexed .StrictJSON (valueText num gap (n + 1) t ++ r) t r) :
    Elements ops.lexed .StrictJSON
      (newLine gap (n + 1) ++ (valueText num gap (n + 1) t ++
        (elementsText num gap n false vs ++ r)))
      (t :: vs) (0x5D :: r) := by
  match h with
  | .nil =>
    refine .one (ws_newLine hgap _ _) (ht _) ?_
    rw [elementsText]
    simpa using ws_newLine hgap n (0x5D :: r)
  | .cons hv hall =>
    obtain ⟨hhead, htail⟩ := forall_mem_cons.mp hshort
    refine .cons (ws_newLine hgap _ _) (ht _) ?_
      (elements_grammar hexact hgap hall htail n r (value_grammar hexact hgap hv hhead (n + 1)))
    rw [elementsText]
    simpa using Ws.nil

theorem members_grammar (hexact : ExactInt32 ops num) (hgap : ∀ c ∈ gap, IsWs c)
    {props : List (PropertyKey × Val ν)} {ps : List (PropertyKey × JSValue ν)}
    (h : RepresentsProps ops heap props ps) (hshort : ∀ p ∈ ps, p.2.Short) (n : Nat) (r : List Nat)
    (key : PropertyKey) {t : JSValue ν} (hkeys : ∀ k ∈ key :: ps.map Prod.fst, k.Readable)
    (ht : ∀ r, Value ops.lexed .StrictJSON (valueText num gap (n + 1) t ++ r) t r) :
    Members ops.lexed .StrictJSON
      (newLine gap (n + 1) ++ (quotedText key.toIdentifier ++ (colonText gap ++
        (valueText num gap (n + 1) t ++ (membersText num gap n false ps ++ r)))))
      ((key.toIdentifier, t) :: ps.map fun p => (p.1.toIdentifier, p.2)) (0x7D :: r) := by
  obtain ⟨hkey, hrest⟩ := forall_mem_cons.mp hkeys
  have hname := fun r => stringLiteral_quotedText hkey.1 hkey.2 r
  have hpair : (key.toIdentifier, t) = (ops.lexed.string key.toIdentifier, t) := by
    rw [string_lexed hkey.1]
  rw [hpair]
  match h with
  | .nil =>
    obtain ⟨s, hs, hws⟩ := colonText_append gap
      (valueText num gap (n + 1) t ++ (membersText num gap n false [] ++ r))
    refine .one (ws_newLine hgap _ _) (.string (hname _)) (hs ▸ .nil) hws (ht _) ?_
    rw [membersText]
    simpa using ws_newLine hgap n (0x7D :: r)
  | @RepresentsProps.cons _ _ _ k _ t' _ ps' hv hprops =>
    obtain ⟨s, hs, hws⟩ := colonText_append gap
      (valueText num gap (n + 1) t ++ (membersText num gap n false ((k, t') :: ps') ++ r))
    obtain ⟨hhead, htail⟩ := forall_mem_cons.mp hshort
    refine .cons (ws_newLine hgap _ _) (.string (hname _)) (hs ▸ .nil) hws (ht _) ?_
      (members_grammar hexact hgap hprops htail n r k hrest
        (value_grammar hexact hgap hv hhead (n + 1)))
    rw [membersText]
    simpa using Ws.nil

end

/-! ## 5. The round trip -/

/-- The number texts that go with `intOps`. -/
def intTexts : NumberText Int where
  numberToString := intText
  isFinite _ := true

theorem exactInt32_int : ExactInt32 intOps intTexts :=
  ⟨fun _ _ => rfl, fun _ _ => rfl, fun n _ => fastInt_intText n⟩

/-- The heap of `({"1": [null, 7], "a": "x"})`. -/
def sampleHeap : List (Cell Int) :=
  [.object [(.index 1, .cell 1), (.name [0x61], .string [0x78])],
   .array [some .null, some (.number 7)]]

/-- A string whose length is negative as an `int`, and zero in 31 bits. -/
def longString : List Nat := replicate (2 ^ 31) 0x61

theorem length_longString : longString.length = 2 ^ 31 := by
  rw [longString, length_replicate]

theorem longString_ne_nil : longString ≠ [] := by
  apply ne_nil_of_length_pos
  rw [length_longString]
  exact Nat.two_pow_pos 31

/-- A string whose length is negative as an `int` is written as the empty one. -/
theorem quotedText_eq_nil {s : List Nat} (hlong : 2 ^ 31 ≤ s.length) (hlt : s.length < 2 ^ 32) :
    quotedText s = [0x22, 0x22] := by
  have hlength : (intLength s).toNat = 0 := by
    unfold intLength
    generalize s.length = n at hlong hlt ⊢
    rw [Int.bmod_eq_emod, if_pos (by omega)]
    omega
  rw [quotedText, hlength, take_zero]
  rfl

theorem quotedText_longString : quotedText longString = [0x22, 0x22] :=
  quotedText_eq_nil length_longString.ge
    (length_longString.trans_lt (Nat.pow_lt_pow_right (by decide) (by decide)))

/-- The text of a string without escapes. -/
theorem stringLiteral_plain {s : List Nat} (hs : ∀ c ∈ s, c = 0x61) (r : List Nat) :
    StringLiteral .StrictJSON (0x22 :: (s ++ 0x22 :: r)) s r := by
  refine .intro (.inl rfl) ?_
  induction s with
  | nil => exact .nil
  | cons c s ih =>
    obtain ⟨rfl, hrest⟩ := forall_mem_cons.mp hs
    exact .char ⟨by decide, by decide, by decide⟩ (ih hrest)

open LiteralParser in
theorem parse_plain (ops : NumberOps ν) {s : List Nat} (hs : ∀ c ∈ s, c = 0x61) :
    (((ofText (0x22 :: (s ++ [0x22]))).advance ops.lexed .StrictJSON).parse ops.lexed .StrictJSON
      .StartParseExpression).1 = some (.string (stringOfToken s)) := by
  have hval : Value ops.lexed .StrictJSON (0x22 :: (s ++ [0x22])) (.string (stringOfToken s)) [] :=
    .string (stringLiteral_plain hs [])
  have hat : At ops.lexed .StrictJSON ((ofText _).advance ops.lexed .StrictJSON)
    (0x22 :: (s ++ [0x22])) := at_advance rfl
  obtain ⟨p', -, hparse⟩ := parse_value hat .nil hval Ws.nil.numberEnds_nil
  rw [hparse]

theorem stringOfToken_longString : stringOfToken longString = [] := by
  rw [stringOfToken, length_longString, Nat.mod_self, take_zero]

end JavaScriptCore.Json
