/-
# Two parsers in step

Two runs of the parser on the same tokens whose counters are apart by constant amounts do the same:
they return the same expression or report the same error, and their counters stay apart by these
amounts.  That is what makes it harmless to parse a piece of text twice, as `parseObjectLiteral`
does at a getter.

The rules also compare two parsers that differ in the functions for the expressions inside, and say
what is known of the tokens to come and of the tree builders: a `Coupling`.  With it they follow how
far the counter of the assignments moves: `Tracks` says both for a part of a function, and its rules
follow the text of the parser.
-/
import JavaScriptCore.Parser.PatternLiterals

namespace JavaScriptCore.Parser

open Lib.Effects

variable {N F B α β : Type}

/-- What two parsers have in common: a property of the tokens to come, and how their builders are
related, also after an error. -/
structure Coupling (N B : Type) where
  tokens : List (Token N) → Prop
  builders : B → B → Prop
  buildersAfterError : B → B → Prop
  tail : ∀ l, tokens l → tokens l.tail
  ignoreReservedWords : ∀ l, tokens l → tokens (ignoreReservedWords l)
  builders_le : ∀ b b', builders b b' → buildersAfterError b b'

/-- Nothing is known of the tokens and the builders. -/
def Coupling.free : Coupling N B where
  tokens _ := True
  builders _ _ := True
  buildersAfterError _ _ := True
  tail _ _ := trivial
  ignoreReservedWords _ _ := trivial
  builders_le _ _ _ := trivial

/-- The property of the tokens stays true after a function. -/
def Coupling.Admits (k : Coupling N B) (config : ParserConfig N F) : Prop :=
  ∀ mode tokens body rest, k.tokens tokens → (config.parseFunction mode tokens).result =
    .ok (body, rest) → k.tokens rest

theorem Coupling.free_admits (config : ParserConfig N F) :
    (Coupling.free : Coupling N B).Admits config :=
  fun _ _ _ _ _ _ => trivial

theorem Coupling.suffix (k : Coupling N B) {rest l : List (Token N)} (h : rest <:+ l)
    (hl : k.tokens l) :
    k.tokens rest := by
  obtain ⟨read, rfl⟩ := h
  induction read with
  | nil => exact hl
  | cons t read ih => exact ih (k.tail _ hl)

/-- The two parsers are at the same place; the counters of the second are ahead. -/
structure Ahead (tokens : List (Token N) → Prop) (builders : B → B → Prop)
    (assignments nonLHS : Nat) (s t : ParserState N B) : Prop where
  known : tokens s.tokens
  tokens : t.tokens = s.tokens
  allowsIn : t.allowsIn = s.allowsIn
  assignmentCount : t.assignmentCount = s.assignmentCount + assignments
  nonLHSCount : t.nonLHSCount = s.nonLHSCount + nonLHS
  builder : builders s.builder t.builder

theorem Ahead.token {K : List (Token N) → Prop} {P : B → B → Prop} {m n : Nat}
    {s t : ParserState N B} (h : Ahead K P m n s t) : t.token = s.token := by
  rw [ParserState.token, h.tokens, ParserState.token]

theorem bne_add_right (i j m : Nat) : (i + m != j + m) = (i != j) := by
  rw [bne, bne, Bool.not_inj_iff, Bool.eq_iff_iff, beq_iff_eq, beq_iff_eq]
  omega

namespace Coupling

variable (k : Coupling N B)

/-- The two parsers, with their counters apart. -/
abbrev Related (m n : Nat) : ParserState N B → ParserState N B → Prop :=
  Ahead k.tokens k.builders m n

/-- The two parsers after an error. -/
abbrev RelatedAfterError (m n : Nat) : ParserState N B → ParserState N B → Prop :=
  Ahead k.tokens k.buildersAfterError m n

theorem related_le (m n : Nat) (s t : ParserState N B) (h : k.Related m n s t) :
    k.RelatedAfterError m n s t :=
  ⟨h.known, h.tokens, h.allowsIn, h.assignmentCount, h.nonLHSCount, k.builders_le _ _ h.builder⟩

end Coupling

/-- **Two parsing functions do the same**, with the counters apart by these amounts. -/
def Coupled (k : Coupling N B) (m n : Nat) (c d : ParserM N B α) : Prop :=
  ∀ s t, k.Related m n s t →
    Alongside (fun a b s' t' => a = b ∧ k.Related m n s' t') (k.RelatedAfterError m n) c d s t

/-- The two parsers are at the same place, whatever their counters are. -/
def SamePlace (s t : ParserState N B) : Prop := t.tokens = s.tokens ∧ t.allowsIn = s.allowsIn

/-- **From the same place a function does the same**, whatever the counters are. -/
theorem Coupled.samePlace {c : ParserM N B α} (h : ∀ {m n}, Coupled .free m n c c)
    {s t : ParserState N B} (hst : SamePlace s t) :
    Alongside (fun a b s' t' => a = b ∧ SamePlace s' t') SamePlace c c s t := by
  -- Both are compared with the run whose counters start at zero.
  have hs := h ⟨s.tokens, s.allowsIn, 0, 0, s.builder⟩ s
    ⟨trivial, rfl, rfl, (Nat.zero_add _).symm, (Nat.zero_add _).symm, trivial⟩
  have ht := h ⟨s.tokens, s.allowsIn, 0, 0, s.builder⟩ t
    ⟨trivial, hst.1, hst.2, (Nat.zero_add _).symm, (Nat.zero_add _).symm, trivial⟩
  rcases hs with ⟨a, _, b, s', hb, hs, rfl, hbs⟩ | ⟨e, b, s', hb, hs, hbs⟩
  · rcases ht with ⟨a', _, b', t', hb', ht, rfl, hbt⟩ | ⟨e, b', t', hb', ht, hbt⟩
    · obtain ⟨ha, rfl⟩ := Prod.mk.inj (hb.symm.trans hb')
      cases ha
      exact .inl ⟨a, a, s', t', hs, ht, rfl, hbt.tokens.trans hbs.tokens.symm,
        hbt.allowsIn.trans hbs.allowsIn.symm⟩
    · cases (Prod.mk.inj (hb.symm.trans hb')).1
  · rcases ht with ⟨a', _, b', t', hb', ht, rfl, hbt⟩ | ⟨e', b', t', hb', ht, hbt⟩
    · cases (Prod.mk.inj (hb.symm.trans hb')).1
    · obtain ⟨he, rfl⟩ := Prod.mk.inj (hb.symm.trans hb')
      cases he
      exact .inr ⟨e, s', t', hs, ht, hbt.tokens.trans hbs.tokens.symm,
        hbt.allowsIn.trans hbs.allowsIn.symm⟩

/-! ## 1. Rules -/

/-- The counter went from `i` to `j`, and where it is known whether there was an assignment, it
moved exactly if there was one. -/
structure Grew (i : Nat) (x : Option Bool) (j : Nat) : Prop where
  le : i ≤ j
  eq_iff : ∀ a ∈ x, (i = j ↔ a = false)

/-- There is an assignment in one of two parts. -/
def either (x y : Option Bool) : Option Bool := x.bind fun a => y.map (a || ·)

section Grew

variable {i j : Nat} {x : Option Bool}

theorem Grew.refl (i : Nat) : Grew i (some false) i := ⟨Nat.le_refl i, by simp⟩

theorem Grew.trans {l : Nat} {y : Option Bool} (h : Grew i x j) (h' : Grew j y l) :
    Grew i (either x y) l := by
  refine ⟨h.le.trans h'.le, ?_⟩
  cases x with
  | none => nofun
  | some a =>
    cases y with
    | none => nofun
    | some b =>
      rintro _ ⟨⟩
      rw [Bool.or_eq_false_iff, ← h.eq_iff a rfl, ← h'.eq_iff b rfl]
      have := h.le
      have := h'.le
      omega

theorem Grew.succ (h : Grew i x j) : Grew i (some true) (j + 1) := by
  refine ⟨Nat.le_succ_of_le h.le, ?_⟩
  rintro _ ⟨⟩
  have := h.le
  simp only [Bool.true_eq_false, iff_false]
  omega

end Grew

/-- **The second computation counts, and the first one is in step with it.**  After parts that
assign or not by `x`, the counter has moved exactly if the result assigns by `f`, and the result has
the property `P`.  Whether `in` is allowed is as before. -/
def Tracks (k : Coupling N B) (m n : Nat) (x : Option Bool) (R : α → β → Prop) (f : β → Option Bool)
    (P : β → Prop) (c : ParserM N B α) (d : ParserM N B β) : Prop :=
  ∀ i s t, k.Related m n s t → Grew i x t.assignmentCount →
    Alongside (fun a b s' t' => (R a b ∧ P b) ∧ k.Related m n s' t' ∧
      Grew i (f b) t'.assignmentCount ∧ t'.allowsIn = t.allowsIn)
      (fun s' t' => k.RelatedAfterError m n s' t' ∧ i ≤ t'.assignmentCount ∧
        t'.allowsIn = t.allowsIn) c d s t

/-- The computation does not move the counter, and does not depend on it. -/
abbrev Quiet (k : Coupling N B) (c : ParserM N B α) : Prop :=
  ∀ {m n x}, Tracks k m n x Eq (fun _ => x) (fun _ => True) c c

/-- The computation counts. -/
def Counts (x : Option Bool) (f : α → Option Bool) (P : α → Prop) (c : ParserM N B α) : Prop :=
  ∀ i s, Grew i x s.assignmentCount →
    Ensures c s (fun a s' => Grew i (f a) s'.assignmentCount ∧ P a ∧ s'.allowsIn = s.allowsIn)
      (fun _ s' => i ≤ s'.assignmentCount ∧ s'.allowsIn = s.allowsIn)

section Rules

variable {α' β' : Type} {k : Coupling N B} {m n : Nat} {x : Option Bool} {R : α → α' → Prop}
  {f : α' → Option Bool}
  {P : α' → Prop} {S : β → β' → Prop} {g : β' → Option Bool} {Q : β' → Prop} {c : ParserM N B α}
  {d : ParserM N B α'} {p : α → ParserM N B β} {q : α' → ParserM N B β'}

namespace Tracks

theorem of_pureAs {a : α} {b : α'} (hR : R a b)
    (hf : f b = x) (hP : P b) : Tracks k m n x R f P (pure a) (pure b) :=
  fun _ s t hst hgrew => .inl ⟨a, b, s, t, rfl, rfl, ⟨hR, hP⟩, hst, hf ▸ hgrew, rfl⟩

theorem of_throw (e : ParserError N) : Tracks k m n x R f P (throw e) (throw e) :=
  fun _ s t hst hgrew => .inr ⟨e, s, t, rfl, rfl, k.related_le m n s t hst, hgrew.le, rfl⟩

theorem mono {R' : α → α' → Prop} {P' : α' → Prop} (h : Tracks k m n x R f P c d)
    (hR : ∀ a b, R a b → P b → R' a b ∧ P' b) : Tracks k m n x R' f P' c d :=
  fun i s t hst hgrew => (h i s t hst hgrew).mono (fun a b _ _ h => ⟨hR a b h.1.1 h.1.2,
    h.2⟩) fun _ _ h => h

theorem forget (h : Tracks k m n none R f P c d) : Tracks k m n x R f P c d :=
  fun i s t hst hgrew => h i s t hst ⟨hgrew.le, nofun⟩

/-- A part of a function that counts from where it is, and what comes after it. -/
theorem andThenAs (h : Tracks k m n x R f P c d)
    (hpq : ∀ a b, R a b → P b → Tracks k m n (f b) S g Q (p a) (q b)) :
      Tracks k m n x S g Q (c >>= p) (d >>= q) := by
  intro i s t hst hgrew
  refine (h i s t hst hgrew).bind ?_
  rintro a b s' t' ⟨⟨hR, hP⟩, hst', hgrew', hin⟩
  exact (hpq a b hR hP i s' t' hst' hgrew').mono
    (fun _ _ _ _ h => ⟨h.1, h.2.1, h.2.2.1, h.2.2.2.trans hin⟩) fun _ _ h =>
      ⟨h.1, h.2.1, h.2.2.trans hin⟩

/-- A function that counts, after other parts. -/
theorem after (h : Tracks k m n (some false) R f P c d) :
    Tracks k m n x R (fun b => either x (f b)) P c d := by
  intro i s t hst hgrew
  exact (h t.assignmentCount s t hst (Grew.refl _)).mono
    (fun _ _ _ _ h => ⟨h.1, h.2.1, hgrew.trans h.2.2.1, h.2.2.2⟩) fun _ _ h =>
      ⟨h.1, hgrew.le.trans h.2.1, h.2.2⟩

theorem ite {p : Prop} [Decidable p] {c' : ParserM N B α} {d' : ParserM N B α'}
    (h : Tracks k m n x R f P c d) (h' : Tracks k m n x R f P c' d') :
    Tracks k m n x R f P (if p then c else c')
    (if p then d else d') := by
  split
  · exact h
  · exact h'

theorem whileTokensAs {round : β → ParserM N B (β ⊕ α)} {round' : β' → ParserM N B (β' ⊕ α')}
    (h : ∀ b b', S b b' → Q b' →
      Tracks k m n (g b') (Sum.LiftRel S R) (Sum.elim g f) (Sum.elim Q P) (round b) (round' b'))
    {b : β} {b' : β'} (hb : S b b') (hQ : Q b') (hx : g b' = x) :
    Tracks k m n x R f P (whileTokens round b) (whileTokens round' b') := by
  intro i s t hst hgrew
  unfold Alongside Parser.whileTokens
  rw [outcome_bind_of_ok (outcome_get s), outcome_bind_of_ok (outcome_get t), hst.tokens]
  refine Alongside.loop (J := fun b b' s' t' => (S b b' ∧ Q b') ∧ k.Related m n s' t' ∧
      Grew i (g b') t'.assignmentCount ∧ t'.allowsIn = t.allowsIn)
    (fun _ _ s' t' h => ⟨k.related_le m n s' t' h.2.1, h.2.2.1.le, h.2.2.2⟩) ?_ _
    ⟨⟨hb, hQ⟩, hst, hx ▸ hgrew, rfl⟩
  rintro b b' s' t' ⟨⟨hb, hQ⟩, hst', hgrew', hin⟩
  refine (h b b' hb hQ i s' t' hst' hgrew').mono ?_ fun _ _ h => ⟨h.1, h.2.1, h.2.2.trans hin⟩
  rintro r r' s'' t'' ⟨⟨hr, hP⟩, hst'', hgrew'', hin'⟩
  cases hr with
  | inl hS => exact .inl ⟨⟨hS, hP⟩, hst'', hgrew'', hin'.trans hin⟩
  | inr hR => exact .inr ⟨⟨hR, hP⟩, hst'', hgrew'', hin'.trans hin⟩

variable {f : α → Option Bool} {P : α → Prop} {c d : ParserM N B α} {q : α → ParserM N B β'}

/-! Most functions return the same in both runs. -/

theorem of_pure {a : α} (hf : f a = x) (hP : P a) : Tracks k m n x Eq f P (pure a) (pure a) :=
  .of_pureAs rfl hf hP

theorem andThen (h : Tracks k m n x Eq f P c d)
    (hpq : ∀ a, P a → Tracks k m n (f a) S g Q (p a) (q a)) :
    Tracks k m n x S g Q (c >>= p) (d >>= q) := by
  refine h.andThenAs ?_
  rintro a _ rfl
  exact hpq a

/-- A function that counts, and what comes after it. -/
theorem bind (h : Tracks k m n (some false) Eq f P c d)
    (hpq : ∀ a, P a → Tracks k m n (either x (f a)) S g Q (p a) (q a)) :
      Tracks k m n x S g Q (c >>= p) (d >>= q) :=
  h.after.andThen hpq

/-- A function that does not touch the counter, and what comes after it. -/
theorem quiet (hc : Quiet k c) (hpq : ∀ a, Tracks k m n x S g Q (p a) (q a)) :
    Tracks k m n x S g Q (c >>= p) (c >>= q) := andThen hc fun a _ => hpq a

theorem whileTokens {g : β → Option Bool} {Q : β → Prop} {round round' : β → ParserM N B (β ⊕ α)}
    (h : ∀ b, Q b → Tracks k m n (g b) Eq (Sum.elim g f) (Sum.elim Q P) (round b) (round' b))
    {b : β} (hb : Q b) (hx : g b = x) :
    Tracks k m n x Eq f P (whileTokens round b) (whileTokens round' b) := by
  refine .whileTokensAs (S := Eq) ?_ rfl hb hx
  rintro b _ rfl hb
  refine (h b hb).mono ?_
  rintro (b | a) _ rfl hr
  · exact ⟨.inl rfl, hr⟩
  · exact ⟨.inr rfl, hr⟩

/-- What is counted need not be known. -/
theorem coupled (h : Tracks k m n none Eq f P c d) : Coupled k m n c d :=
  fun s t hst => (h t.assignmentCount s t hst ⟨le_rfl, nofun⟩).mono (fun _ _ _ _ h =>
    ⟨h.1.1, h.2.1⟩)
    fun _ _ h => h.1

theorem counts (h : Tracks .free 0 0 x Eq f P c c) : Counts x f P c := by
  intro i s hgrew
  rcases h i s s ⟨trivial, rfl, rfl, rfl, rfl, trivial⟩ hgrew with
    ⟨a, _, _, s', _, hs, ⟨rfl, hP⟩, _, hgrew', hin⟩ | ⟨e, _, s', _, hs, _, herror⟩
  · exact (ensures_iff_of_ok hs).mpr ⟨hgrew', hP, hin⟩
  · exact (ensures_iff_of_error hs).mpr herror

theorem of_coupled (h : Coupled k m n c d) (hd : Counts x f P d) : Tracks k m n x Eq f P c d := by
  intro i s t hst hgrew
  have hcounts := hd i t hgrew
  rcases h s t hst with ⟨a, _, s', t', hs, ht, rfl, hst'⟩ | ⟨e, s', t', hs, ht, hst'⟩
  · rw [ensures_iff_of_ok ht] at hcounts
    exact .inl ⟨a, a, s', t', hs, ht, ⟨rfl, hcounts.2.1⟩, hst', hcounts.1, hcounts.2.2⟩
  · rw [ensures_iff_of_error ht] at hcounts
    exact .inr ⟨e, s', t', hs, ht, hst', hcounts⟩

end Tracks

theorem Quiet.whileTokens {round : β → ParserM N B (β ⊕ α)} (h : ∀ b, Quiet k (round b)) (b : β) :
    Quiet k (whileTokens round b) := by
  intro m n x
  refine Tracks.whileTokens (g := fun _ => x) (Q := fun _ => True) (fun b _ => ?_) trivial rfl
  rw [Sum.elim_lam_const_lam_const, Sum.elim_lam_const_lam_const]
  exact h b

end Rules

/-! ## 2. Tokens and counters -/

section Primitives

variable {k : Coupling N B} {m n : Nat} {x : Option Bool} {f : α → Option Bool} {P : α → Prop}

theorem quiet_token : Quiet k (token : ParserM N B (Token N)) :=
  fun _ s t hst hgrew => .inl ⟨_, _, s, t, rfl, rfl, ⟨hst.token.symm, trivial⟩, hst, hgrew, rfl⟩

theorem quiet_next : Quiet k (next : ParserM N B Unit) :=
  fun _ _ _ h hgrew => .inl ⟨_, _, _, _, rfl, rfl, ⟨rfl, trivial⟩, ⟨k.tail _ h.known,
    congrArg List.tail h.tokens, h.allowsIn, h.assignmentCount, h.nonLHSCount,
    h.builder⟩, hgrew, rfl⟩

theorem quiet_nextExpectIdentifier : Quiet k (nextExpectIdentifier : ParserM N B Unit) :=
  fun _ _ _ h hgrew => .inl ⟨_, _, _, _, rfl, rfl, ⟨rfl, trivial⟩,
    ⟨k.ignoreReservedWords _ (k.tail _ h.known),
      congrArg (fun tokens => ignoreReservedWords tokens.tail) h.tokens, h.allowsIn,
      h.assignmentCount, h.nonLHSCount, h.builder⟩, hgrew, rfl⟩

theorem quiet_countNonLHS : Quiet k (countNonLHS : ParserM N B Unit) :=
  fun _ _ _ h hgrew => .inl ⟨_, _, _, _, rfl, rfl, ⟨rfl, trivial⟩, ⟨h.known, h.tokens, h.allowsIn,
    h.assignmentCount, by simp only [h.nonLHSCount]; omega, h.builder⟩, hgrew, rfl⟩

theorem tracks_get : Tracks k m n x (k.Related m n) (fun _ => x) (fun _ => True)
    (get : ParserM N B (ParserState N B)) get :=
  fun _ s t hst hgrew => .inl ⟨s, t, s, t, rfl, rfl, ⟨hst, trivial⟩, hst, hgrew, rfl⟩

/-- A save point has the property of the tokens. -/
theorem tracks_createSavePoint : Tracks k m n x (fun a b => a = b ∧ k.tokens a) (fun _ => x)
    (fun _ => True)
    (createSavePoint : ParserM N B (List (Token N))) createSavePoint :=
  fun _ s t hst hgrew => .inl ⟨_, _, s, t, rfl, rfl, ⟨⟨hst.tokens.symm, hst.known⟩, trivial⟩,
    hst, hgrew, rfl⟩

theorem tracks_nonLHSCount : Tracks k m n x (fun a b => b = a + n) (fun _ => x) (fun _ => True)
    (nonLHSCount : ParserM N B Nat) nonLHSCount :=
  fun _ s t hst hgrew => .inl ⟨_, _, s, t, rfl, rfl, ⟨hst.nonLHSCount, trivial⟩, hst, hgrew, rfl⟩

theorem tracks_assignmentCount : Tracks k m n x (fun a b => b = a + m) (fun _ => x) (fun _ => True)
    (assignmentCount : ParserM N B Nat) assignmentCount :=
  fun _ s t hst hgrew => .inl ⟨_, _, s, t, rfl, rfl, ⟨hst.assignmentCount, trivial⟩,
    hst, hgrew, rfl⟩

theorem tracks_setNonLHSCount (count : Nat) : Tracks k m n x Eq (fun _ => x) (fun _ => True)
    (setNonLHSCount count : ParserM N B Unit) (setNonLHSCount (count + n)) :=
  fun _ _ _ h hgrew => .inl ⟨_, _, _, _, rfl, rfl, ⟨rfl, trivial⟩,
    ⟨h.known, h.tokens, h.allowsIn, h.assignmentCount, rfl, h.builder⟩, hgrew, rfl⟩

theorem tracks_restoreSavePoint {tokens : List (Token N)} (htokens : k.tokens tokens) :
    Tracks k m n x Eq (fun _ => x) (fun _ => True) (restoreSavePoint tokens)
    (restoreSavePoint tokens) :=
  fun _ _ _ h hgrew => .inl ⟨_, _, _, _, rfl, rfl, ⟨rfl, trivial⟩,
    ⟨htokens, rfl, h.allowsIn, h.assignmentCount, h.nonLHSCount, h.builder⟩, hgrew, rfl⟩

theorem tracks_countAssignment : Tracks k m n x Eq (fun _ => some true) (fun _ => True)
    (countAssignment : ParserM N B Unit) countAssignment :=
  fun _ _ _ h hgrew => .inl ⟨_, _, _, _, rfl, rfl, ⟨rfl, trivial⟩,
    ⟨h.known, h.tokens, h.allowsIn, by simp only [h.assignmentCount]; omega, h.nonLHSCount,
      h.builder⟩, hgrew.succ, rfl⟩

theorem Tracks.token {R : α → β → Prop} {f : β → Option Bool} {P : β → Prop}
    {p : Token N → ParserM N B α} {q : Token N → ParserM N B β}
    (h : ∀ t, Tracks k m n x R f P (p t) (q t)) :
    Tracks k m n x R f P (token >>= p) (token >>= q) := quiet quiet_token h

theorem Tracks.next {R : α → β → Prop} {f : β → Option Bool} {P : β → Prop}
    {p : Unit → ParserM N B α} {q : Unit → ParserM N B β}
    (h : ∀ u, Tracks k m n x R f P (p u) (q u)) :
    Tracks k m n x R f P (next >>= p) (next >>= q) := quiet quiet_next h

theorem quiet_semanticFailIfTrue (condition : Bool) (message : String) :
    Quiet k (semanticFailIfTrue condition message : ParserM N B Unit) :=
  Tracks.ite (.of_throw _) (.of_pure rfl trivial)

theorem tracks_failWithMessage (message : String) :
    Tracks k m n x Eq f P (failWithMessage message : ParserM N B α) (failWithMessage message) :=
  .token fun _ => .of_throw _

theorem tracks_failDueToUnexpectedToken :
    Tracks k m n x Eq f P (failDueToUnexpectedToken : ParserM N B α) failDueToUnexpectedToken :=
  .token fun _ => .of_throw _

theorem quiet_consumeOrFail (p : Punctuation) (message : String) :
    Quiet k (consumeOrFail p message : ParserM N B Unit) :=
  .token fun _ => .ite quiet_next (tracks_failWithMessage message)

theorem quiet_handleProductionOrFail (p : Punctuation) (text operation production : String) :
    Quiet k (handleProductionOrFail p text operation production : ParserM N B Unit) :=
  quiet_consumeOrFail p _

variable {c d : ParserM N B α}

theorem Tracks.keepingNonLHSCount (h : Tracks k m n x Eq f P c d) :
    Tracks k m n x Eq f P (keepingNonLHSCount c) (keepingNonLHSCount d) := by
  refine tracks_nonLHSCount.andThenAs ?_
  rintro count _ rfl -
  exact h.andThen fun a ha => (tracks_setNonLHSCount count).andThen fun _ _ => .of_pure rfl ha

theorem Tracks.restoringNonLHSCount (h : Tracks k m n x Eq f P c d) :
    Tracks k m n x Eq f P (restoringNonLHSCount c) (restoringNonLHSCount d) := by
  intro i s t hst hgrew
  rcases h i s t hst hgrew with ⟨a, b, s', t', hc, hd, hresult, hst', hgrew', hin⟩ |
    ⟨e, s', t', hc, hd, hst', hle, hin⟩
  · refine .inl ⟨a, b, { s' with nonLHSCount := s.nonLHSCount },
      { t' with nonLHSCount := t.nonLHSCount }, ?_, ?_, hresult, ?_, hgrew', hin⟩
    · rw [Parser.restoringNonLHSCount, outcome_ofOutcome, hc]
    · rw [Parser.restoringNonLHSCount, outcome_ofOutcome, hd]
    · exact ⟨hst'.known, hst'.tokens, hst'.allowsIn, hst'.assignmentCount,
        hst.nonLHSCount, hst'.builder⟩
  · refine .inr ⟨e, { s' with nonLHSCount := s.nonLHSCount },
      { t' with nonLHSCount := t.nonLHSCount }, ?_, ?_, ?_, hle, hin⟩
    · rw [Parser.restoringNonLHSCount, outcome_ofOutcome, hc]
    · rw [Parser.restoringNonLHSCount, outcome_ofOutcome, hd]
    · exact ⟨hst'.known, hst'.tokens, hst'.allowsIn, hst'.assignmentCount,
        hst.nonLHSCount, hst'.builder⟩

/-- **The difference of the counter tells whether there was an assignment.** -/
theorem Tracks.countingAssignments {f : α → Bool} (h
    : Tracks k m n (some false) Eq (fun a => some (f a)) P c d) :
    Tracks k m n (some false) Eq (fun r => some (f r.1)) (fun r => P r.1 ∧ r.2 = f r.1)
    (countingAssignments c)
      (countingAssignments d) := by
  intro i s t hst hgrew
  have hi : i = t.assignmentCount := (hgrew.eq_iff _ rfl).mpr rfl
  subst hi
  refine Alongside.bind (P := fun a b s' t' => (a = s.assignmentCount ∧ b = t.assignmentCount) ∧
    s' = s ∧ t' = t)
    (.inl ⟨_, _, s, t, rfl, rfl, ⟨rfl, rfl⟩, rfl, rfl⟩) ?_
  rintro _ _ s t ⟨⟨rfl, rfl⟩, rfl, rfl⟩
  refine (h _ s t hst hgrew).bind ?_
  rintro a _ s' t' ⟨⟨rfl, hP⟩, hst', hgrew', hin⟩
  refine .inl ⟨_, _, s', t', rfl, rfl, ⟨?_, hP, ?_⟩, hst', hgrew', hin⟩
  · rw [hst.assignmentCount, hst'.assignmentCount, bne_add_right]
  · have hiff := hgrew'.eq_iff _ rfl
    cases hf : f a with
    | false => exact bne_eq_false_iff_eq.mpr (hiff.mpr hf)
    | true => exact bne_iff_ne.mpr fun heq => absurd (hf.symm.trans (hiff.mp heq)) (by simp)

/-- **The assignments in a function are not counted.** -/
theorem quiet_parseFunctionInfo {config : ParserConfig N F} (hconfig : k.Admits config)
    (mode : FunctionParseMode) :
    Quiet k (parseFunctionInfo config mode : ParserM N B F) := by
  intro m n x i s t hst hgrew
  have hrun (s : ParserState N B) : outcome (parseFunctionInfo config mode : ParserM N B F) s =
      match (config.parseFunction mode s.tokens).result with
      | .ok r => (.ok r.1, { s with tokens := r.2 })
      | .error e => (.error e, s) := by
    rw [parseFunctionInfo, outcome_bind_of_ok (outcome_get s)]
    simp only
    rw [outcome_bind_of_ok (outcome_modify _ _), outcome_bind_of_ok (outcome_modify _ _)]
    cases (config.parseFunction mode s.tokens).result with
    | ok r | error e => rfl
  unfold Alongside
  rw [hrun, hrun, hst.tokens]
  cases hresult : (config.parseFunction mode s.tokens).result with
  | ok r =>
    exact .inl ⟨_, _, _, _, rfl, rfl, ⟨rfl, trivial⟩,
      ⟨hconfig mode s.tokens r.1 r.2 hst.known hresult, rfl,
      hst.allowsIn, hst.assignmentCount, hst.nonLHSCount, hst.builder⟩, hgrew, rfl⟩
  | error e => exact .inr ⟨e, s, t, rfl, rfl, k.related_le m n s t hst, hgrew.le, rfl⟩

end Primitives

end JavaScriptCore.Parser
