/-
# The lengths of strings

The length of a string token has 31 bits (`LiteralParser.h`, `stringLength`), so a string or a key
of `2 ^ 31` characters loses `2 ^ 31` of them.  The grammar is a family over `TokenOps`:
`NumberOps.lexed` is what the code reads, `NumberOps.denoted` what a text denotes.

**The two readings accept the same texts** (`Value.reread`): the token's length decides nothing but
the characters of the string.

**They give the same value to exactly the texts that denote a short one**
(`Value.lexed_of_denoted`): a value is short if all its strings and all its keys are
(`JSValue.Short`).  What the code reads is always short (`Value.short`).  A member that a later one
of the same key replaces does not count, so this is a condition on the value and not on the text:
the induction carries that equal keys are stored in the same places and that a short member is read
as itself (`Rereads`).
-/
import JavaScriptCore.Json.Grammar
import JavaScriptCore.Json.Numerals

namespace JavaScriptCore.Json

open List

variable {ν : Type}

/-! ## 1. Short values -/

/-- A length that the token keeps. -/
def ShortString (s : List Nat) : Prop := s.length < 2 ^ 31

instance : DecidablePred ShortString := fun s => inferInstanceAs (Decidable (s.length < 2 ^ 31))

/-- An index is short, whatever its numeral is. -/
def PropertyKey.Short : PropertyKey → Prop
  | .index _ => True
  | .name s => ShortString s

/-- A value all whose strings and keys are short. -/
inductive JSValue.Short : JSValue ν → Prop where
  | null : Short .null
  | boolean (b : Bool) : Short (.boolean b)
  | number (n : ν) : Short (.number n)
  | string {s : List Nat} : ShortString s → Short (.string s)
  | array {vs : List (JSValue ν)} : (∀ v ∈ vs, Short v) → Short (.array vs)
  | object {ps : List (PropertyKey × JSValue ν)} : (∀ p ∈ ps, p.1.Short) → (∀ p ∈ ps, Short p.2) →
      Short (.object ps)

theorem shortString_stringOfToken (s : List Nat) : ShortString (stringOfToken s) := by
  have hmod : s.length % 2 ^ 31 < 2 ^ 31 := Nat.mod_lt _ (by decide)
  rw [ShortString, stringOfToken, length_take]
  omega

theorem stringOfToken_eq {s : List Nat} (h : ShortString s) : stringOfToken s = s := by
  rw [stringOfToken, Nat.mod_eq_of_lt h, take_length]

theorem length_natText_le {n k : Nat} (hk : 0 < k) (h : n < 10 ^ k) : (natText n).length ≤ k := by
  unfold natText
  split_ifs
  · exact hk
  · rw [length_map, length_reverse]
    exact (Nat.digits_length_le_iff (by decide) n).mpr h

theorem shortString_natText {i : Nat} (h : i < NotAnIndex) : ShortString (natText i) := by
  have hlength : (natText i).length ≤ 10 :=
    length_natText_le (by decide) (by unfold NotAnIndex at h; omega)
  unfold ShortString
  omega

/-- A name is short if its place is: the numeral of an index has at most ten digits. -/
theorem PropertyKey.Short.shortString {s : List Nat} (h : (PropertyKey.ofIdentifier s).Short) :
    ShortString s := by
  unfold PropertyKey.ofIdentifier at h
  split_ifs at h with hindex
  · obtain ⟨htext, hlt⟩ := natText_asIndex hindex
    rw [← htext]
    exact shortString_natText hlt
  · exact h

theorem ShortString.ofIdentifier {s : List Nat} (h : ShortString s) :
    (PropertyKey.ofIdentifier s).Short := by
  unfold PropertyKey.ofIdentifier
  split_ifs
  · trivial
  · exact h

/-! ## 2. Objects -/

section Objects

variable {v : JSValue ν} {ps : List (PropertyKey × JSValue ν)}

theorem lookup_putDirectIndex (i : Nat) (v : JSValue ν) (key : PropertyKey)
    (ps : List (PropertyKey × JSValue ν)) :
    (putDirectIndex i v ps).lookup key = if key = .index i then some v else ps.lookup key := by
  fun_induction putDirectIndex i v ps <;> grind

theorem lookup_putDirect (s : List Nat) (v : JSValue ν) (key : PropertyKey)
    (ps : List (PropertyKey × JSValue ν)) :
    (putDirect s v ps).lookup key = if key = .name s then some v else ps.lookup key := by
  fun_induction putDirect s v ps <;> grind

theorem lookup_putProperty (ps : List (PropertyKey × JSValue ν)) (ident : List Nat) (v : JSValue ν)
    (key : List Nat) : (putProperty ps ident v).lookup (PropertyKey.ofIdentifier key)
      = if key = ident then some v else ps.lookup (PropertyKey.ofIdentifier key) := by
  have hput : (putProperty ps ident v).lookup (PropertyKey.ofIdentifier key) =
      if PropertyKey.ofIdentifier key = PropertyKey.ofIdentifier ident then some v
      else ps.lookup (PropertyKey.ofIdentifier key) := by
    unfold putProperty
    cases PropertyKey.ofIdentifier ident with
    | index i => exact lookup_putDirectIndex i v _ ps
    | name s => exact lookup_putDirect s v _ ps
  simp only [hput, ofIdentifier_injective.eq_iff]

/-- **An object maps every key to the value of its last occurrence.** -/
theorem lookup_objectOf (ms : List (List Nat × JSValue ν)) (key : List Nat) :
    (objectOf ms).lookup (PropertyKey.ofIdentifier key) = ms.reverse.lookup key := by
  induction ms using List.reverseRecOn with
  | nil => rfl
  | append_singleton ms m ih =>
    rw [objectOf, List.foldl_append, foldl_cons, foldl_nil, lookup_putProperty, reverse_append,
      reverse_singleton, singleton_append, lookup_cons, ← ih]
    by_cases h : key = m.1
    · rw [if_pos h, h, beq_self_eq_true]
    · rw [if_neg h, beq_eq_false_iff_ne.mpr h]
      rfl

/-- The keys of a short object are short. -/
theorem shortString_of_objectOf {ms : List (List Nat × JSValue ν)}
    (h : ∀ p ∈ objectOf ms, p.1.Short) : ∀ m ∈ ms, ShortString m.1 := by
  intro m hm
  have hkey : (objectOf ms).lookup (PropertyKey.ofIdentifier m.1) ≠ none := by
    rw [lookup_objectOf]
    intro hnone
    exact bne_iff_ne.mp (lookup_eq_none_iff.mp hnone m (mem_reverse.mpr hm)) rfl
  obtain ⟨w, hw⟩ := Option.ne_none_iff_exists'.mp hkey
  obtain ⟨l₁, l₂, hmem, -⟩ := lookup_eq_some_iff.mp hw
  exact (h (PropertyKey.ofIdentifier m.1, w) (by simp [hmem])).shortString

/-- What a store keeps of its old properties, and the new one, are its properties. -/
theorem forall_mem_putProperty {P : PropertyKey × JSValue ν → Prop} {ident : List Nat}
    (hnew : P (PropertyKey.ofIdentifier ident, v)) (h : ∀ p ∈ ps, P p) :
    ∀ p ∈ putProperty ps ident v, P p := by
  unfold putProperty
  split <;> rename_i heq <;> rw [heq] at hnew
  · rename_i i
    clear heq
    fun_induction putDirectIndex i v ps <;> simp_all
  · rename_i s
    clear heq
    fun_induction putDirect s v ps <;> simp_all

theorem forall_mem_objectOf {P : PropertyKey × JSValue ν → Prop} {ms : List (List Nat × JSValue ν)}
    (h : ∀ m ∈ ms, P (PropertyKey.ofIdentifier m.1, m.2)) : ∀ p ∈ objectOf ms, P p := by
  induction ms using List.reverseRecOn with
  | nil => exact fun _ hp => absurd hp not_mem_nil
  | append_singleton ms m ih =>
    rw [objectOf, List.foldl_append, foldl_cons, foldl_nil]
    exact forall_mem_putProperty (h m (by simp)) (ih fun m' hm' => h m' (by simp [hm']))

/-- Properties with the same keys and related values. -/
def SameKeys {κ : Type} (R : JSValue ν → JSValue ν → Prop) :
    List (κ × JSValue ν) → List (κ × JSValue ν) → Prop :=
  Forall₂ fun p q => q.1 = p.1 ∧ R p.2 q.2

variable {R : JSValue ν → JSValue ν → Prop} {w : JSValue ν} {qs : List (PropertyKey × JSValue ν)}

theorem SameKeys.putProperty (h : SameKeys R ps qs) (hvw : R v w) (ident : List Nat) :
    SameKeys R (putProperty ps ident v) (putProperty qs ident w) := by
  unfold Json.putProperty
  cases PropertyKey.ofIdentifier ident with
  | index i =>
    induction h with
    | nil => exact .cons ⟨rfl, hvw⟩ .nil
    | @cons p q ps qs hpq hall ih =>
      obtain ⟨k, v'⟩ := p
      obtain ⟨k', w'⟩ := q
      obtain ⟨hkey, hpq⟩ := hpq
      simp only at hkey hpq
      subst hkey
      cases k' with
      | index j =>
        simp only [putDirectIndex]
        split_ifs
        · exact .cons ⟨rfl, hvw⟩ hall
        · exact .cons ⟨rfl, hvw⟩ (.cons ⟨rfl, hpq⟩ hall)
        · exact .cons ⟨rfl, hpq⟩ ih
      | name s => exact .cons ⟨rfl, hvw⟩ (.cons ⟨rfl, hpq⟩ hall)
  | name s =>
    induction h with
    | nil => exact .cons ⟨rfl, hvw⟩ .nil
    | @cons p q ps qs hpq hall ih =>
      obtain ⟨k, v'⟩ := p
      obtain ⟨k', w'⟩ := q
      obtain ⟨hkey, hpq⟩ := hpq
      simp only at hkey hpq
      subst hkey
      simp only [putDirect]
      split_ifs
      · exact .cons ⟨rfl, hvw⟩ hall
      · exact .cons ⟨rfl, hpq⟩ ih

theorem SameKeys.objectOf {ms ns : List (List Nat × JSValue ν)} (h : SameKeys R ms ns) :
    SameKeys R (objectOf ms) (objectOf ns) := by
  have main : ∀ ps qs : List (PropertyKey × JSValue ν), SameKeys R ps qs →
      SameKeys R (ms.foldl (fun ps m => Json.putProperty ps m.1 m.2) ps)
        (ns.foldl (fun ps m => Json.putProperty ps m.1 m.2) qs) := by
    induction h with
    | nil => exact fun _ _ h => h
    | @cons m n ms ns hmn _ ih =>
      intro ps qs hps
      rw [foldl_cons, foldl_cons, hmn.1]
      exact ih _ _ (hps.putProperty hmn.2 m.1)
  exact main [] [] .nil

end Objects

/-! ## 3. Two readings of one text -/

/-- A second reading of a value: the same if the value is short. -/
def Rereads (v w : JSValue ν) : Prop := v.Short → w = v

theorem Rereads.array {vs ws : List (JSValue ν)} (h : Forall₂ Rereads vs ws) :
    Rereads (.array vs) (.array ws) := by
  rintro (_ | _ | _ | _ | hvs)
  congr
  induction h with
  | nil => rfl
  | cons hvw _ ih =>
    rw [hvw (hvs _ (by simp)), ih fun v hv => hvs v (by simp [hv])]

theorem SameKeys.eq_of_short {ps qs : List (PropertyKey × JSValue ν)} (h : SameKeys Rereads ps qs)
    (hps : ∀ p ∈ ps, p.2.Short) : qs = ps := by
  induction h with
  | nil => rfl
  | cons hpq _ ih =>
    rw [Prod.ext hpq.1 (hpq.2 (hps _ (by simp))), ih fun p hp => hps p (by simp [hp])]

section Reread

/-- The second lexer reads numbers alike, and the strings that are short for the first. -/
structure AgreesOnShort (ops ops' : TokenOps ν) : Prop where
  number : ops'.toNumberOps = ops.toNumberOps
  string : ∀ s, ShortString (ops.string s) → ops'.string s = ops.string s

variable {ops : TokenOps ν} {mode : ParserMode}

mutual

/-- **Two lexers read the same texts**, and the short values alike if they agree on short strings.
-/
theorem Value.reread {s r : List Nat} {v : JSValue ν} (h : Value ops mode s v r)
    (ops' : TokenOps ν) : ∃ w, Value ops' mode s w r ∧ (AgreesOnShort ops ops' → Rereads v w) := by
  match h with
  | .null => exact ⟨_, .null, fun _ _ => rfl⟩
  | .true => exact ⟨_, .true, fun _ _ => rfl⟩
  | .false => exact ⟨_, .false, fun _ _ => rfl⟩
  | .number hn => exact ⟨_, .number hn, fun hagrees _ => by rw [hagrees.number]⟩
  | .string hs =>
    refine ⟨_, .string hs, fun hagrees => ?_⟩
    rintro (_ | _ | _ | hshort)
    rw [hagrees.string _ hshort]
  | .emptyArray hws => exact ⟨_, .emptyArray hws, fun _ _ => rfl⟩
  | .array helements =>
    obtain ⟨ws, hws, hall⟩ := helements.reread ops'
    exact ⟨_, .array hws, fun hagrees => .array (hall hagrees)⟩
  | .emptyObject hws => exact ⟨_, .emptyObject hws, fun _ _ => rfl⟩
  | .object hmembers =>
    obtain ⟨ns, hns, hall⟩ := hmembers.reread ops'
    refine ⟨_, .object hns, fun hagrees => ?_⟩
    rintro (_ | _ | _ | _ | _ | ⟨hkeys, hvalues⟩)
    rw [(hall hagrees (shortString_of_objectOf hkeys)).objectOf.eq_of_short hvalues]

theorem Elements.reread {s r : List Nat} {vs : List (JSValue ν)} (h : Elements ops mode s vs r)
    (ops' : TokenOps ν) : ∃ ws, Elements ops' mode s ws r ∧
      (AgreesOnShort ops ops' → Forall₂ Rereads vs ws) := by
  match h with
  | .one hws hval hws' =>
    obtain ⟨w, hw, hvw⟩ := hval.reread ops'
    exact ⟨[w], .one hws hw hws', fun hagrees => .cons (hvw hagrees) .nil⟩
  | .cons hws hval hcomma helements =>
    obtain ⟨w, hw, hvw⟩ := hval.reread ops'
    obtain ⟨ws, hrest, hall⟩ := helements.reread ops'
    exact ⟨w :: ws, .cons hws hw hcomma hrest, fun hagrees => .cons (hvw hagrees) (hall hagrees)⟩

theorem Members.reread {s r : List Nat} {ms : List (List Nat × JSValue ν)}
    (h : Members ops mode s ms r) (ops' : TokenOps ν) : ∃ ns, Members ops' mode s ns r ∧
      (AgreesOnShort ops ops' → (∀ m ∈ ms, ShortString m.1) → SameKeys Rereads ms ns) := by
  match h with
  | .one hws hname hcolon hws' hval hend =>
    obtain ⟨w, hw, hvw⟩ := hval.reread ops'
    refine ⟨_, .one hws hname hcolon hws' hw hend, fun hagrees hkeys => ?_⟩
    exact .cons ⟨hagrees.string _ (hkeys _ mem_cons_self), hvw hagrees⟩ .nil
  | .cons hws hname hcolon hws' hval hcomma hmembers =>
    obtain ⟨w, hw, hvw⟩ := hval.reread ops'
    obtain ⟨ns, hns, hall⟩ := hmembers.reread ops'
    refine ⟨_, .cons hws hname hcolon hws' hw hcomma hns, fun hagrees hkeys => ?_⟩
    exact .cons ⟨hagrees.string _ (hkeys _ mem_cons_self), hvw hagrees⟩
      (hall hagrees fun m hm => hkeys m (by simp [hm]))

end

mutual

/-- **With short tokens every value is short.** -/
theorem Value.short {s r : List Nat} {v : JSValue ν} (h : Value ops mode s v r)
    (hstring : ∀ s, ShortString (ops.string s)) : v.Short := by
  match h with
  | .null => exact .null
  | .true => exact .boolean _
  | .false => exact .boolean _
  | .number hn => exact .number _
  | .string hs => exact .string (hstring _)
  | .emptyArray hws => exact .array (forall_mem_nil _)
  | .array helements => exact .array (helements.short hstring)
  | .emptyObject hws => exact .object (forall_mem_nil _) (forall_mem_nil _)
  | .object hmembers =>
    have hshort := hmembers.short hstring
    refine .object (forall_mem_objectOf fun m hm => (hshort m hm).1.ofIdentifier) ?_
    exact forall_mem_objectOf (P := fun p => p.2.Short) fun m hm => (hshort m hm).2

theorem Elements.short {s r : List Nat} {vs : List (JSValue ν)} (h : Elements ops mode s vs r)
    (hstring : ∀ s, ShortString (ops.string s)) : ∀ v ∈ vs, v.Short := by
  match h with
  | .one _ hval _ => exact forall_mem_singleton.mpr (hval.short hstring)
  | .cons _ hval _ helements =>
    exact forall_mem_cons.mpr ⟨hval.short hstring, helements.short hstring⟩

theorem Members.short {s r : List Nat} {ms : List (List Nat × JSValue ν)}
    (h : Members ops mode s ms r) (hstring : ∀ s, ShortString (ops.string s)) :
    ∀ m ∈ ms, ShortString m.1 ∧ m.2.Short := by
  match h with
  | .one _ _ _ _ hval _ => exact forall_mem_singleton.mpr ⟨hstring _, hval.short hstring⟩
  | .cons _ _ _ _ hval _ hmembers =>
    exact forall_mem_cons.mpr ⟨⟨hstring _, hval.short hstring⟩, hmembers.short hstring⟩

end

end Reread

/-! ## 4. What is read and what is denoted -/

section Lexed

variable {ops : NumberOps ν} {mode : ParserMode} {s r : List Nat} {v : JSValue ν}

theorem toNumberOps_lexed : ops.lexed.toNumberOps = ops := rfl

theorem string_lexed (h : ShortString s) : ops.lexed.string s = s := stringOfToken_eq h

theorem Value.lexed_short (h : Value ops.lexed mode s v r) : v.Short :=
  h.short shortString_stringOfToken

theorem agreesOnShort_lexed : AgreesOnShort ops.denoted ops.lexed :=
  ⟨rfl, fun _ hs => stringOfToken_eq hs⟩

/-- **A text is read as the value it denotes exactly if the value is short.** -/
theorem Value.lexed_of_denoted (h : Value ops.denoted mode s v r) :
    ∃ w, Value ops.lexed mode s w r ∧ (w = v ↔ v.Short) := by
  obtain ⟨w, hw, hvw⟩ := h.reread ops.lexed
  refine ⟨w, hw, ?_, hvw agreesOnShort_lexed⟩
  rintro rfl
  exact hw.lexed_short

end Lexed

end JavaScriptCore.Json
