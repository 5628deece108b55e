/-
# What a computation ensures, and computations that run in step

Three ways to reason about a program of `ExceptT ε (StateM σ)` without running it.

* `Ensures c s Q E`: from the state `s` the computation `c` either returns a result and a state with
  `Q`, or throws an exception and leaves a state with `E`.  There is one rule for each way to build
  a program, so a proof follows the text of the program and cites one such fact for each function it
  calls.
* `Preserves f c`: `c` leaves the part `f` of the state alone.
* `Alongside P E c d s t`: from the states `s` and `t` the two computations either both return, with
  results and states related by `P`, or both throw the same exception and leave states related by
  `E`.

`loop` is a loop under a bound on its rounds.
-/
import JavaScriptCore.Lib.Effects

namespace JavaScriptCore.Lib.Effects

variable {ε σ α β γ : Type}

/-! ## 1. The ways to build a program -/

@[simp] theorem outcome_get (s : σ) : outcome (get : ExceptT ε (StateM σ) σ) s = (.ok s, s) := rfl

@[simp] theorem outcome_modify (f : σ → σ) (s : σ) :
    outcome (modify f : ExceptT ε (StateM σ) PUnit) s = (.ok ⟨⟩, f s) := rfl

/-- Runs a computation and goes on without a result if it throws; what it did to the state stays. -/
def attempt (c : ExceptT ε (StateM σ) α) : ExceptT ε (StateM σ) (Option α) :=
  ofOutcome fun s =>
    match outcome c s with
    | (.ok a, s') => (.ok (some a), s')
    | (.error _, s') => (.ok none, s')

/-- Runs a computation and then changes the state, also when it throws. -/
def afterwards (f : σ → σ) (c : ExceptT ε (StateM σ) α) : ExceptT ε (StateM σ) α :=
  ofOutcome fun s => ((outcome c s).1, f (outcome c s).2)

/-- At most `n` rounds of a loop: a round either goes on with a new value or ends with a result. -/
def loop (exhausted : ε) (round : β → ExceptT ε (StateM σ) (β ⊕ α)) :
    Nat → β → ExceptT ε (StateM σ) α
  | 0, _ => throw exhausted
  | n + 1, b => do
    match ← round b with
    | .inl b' => loop exhausted round n b'
    | .inr a => pure a

/-! ## 2. What a computation ensures -/

/-- From the state `s` the computation ends with `Q`, or throws with `E`. -/
def Ensures (c : ExceptT ε (StateM σ) α) (s : σ) (Q : α → σ → Prop) (E : ε → σ → Prop) : Prop :=
  match outcome c s with
  | (.ok a, s') => Q a s'
  | (.error e, s') => E e s'

section Rules

variable {s : σ} {Q : α → σ → Prop} {E : ε → σ → Prop}

@[simp] theorem ensures_pure {a : α} : Ensures (pure a : ExceptT ε (StateM σ) α) s Q E ↔ Q a s :=
  Iff.rfl

@[simp] theorem ensures_throw {e : ε} : Ensures (throw e : ExceptT ε (StateM σ) α) s Q E ↔ E e s :=
  Iff.rfl

@[simp] theorem ensures_get {Q : σ → σ → Prop} :
    Ensures (get : ExceptT ε (StateM σ) σ) s Q E ↔ Q s s := Iff.rfl

@[simp] theorem ensures_modify {Q : PUnit → σ → Prop} (f : σ → σ) :
    Ensures (modify f : ExceptT ε (StateM σ) PUnit) s Q E ↔ Q ⟨⟩ (f s) := Iff.rfl

/-- **A sequence**: its first part ensures what its second part needs. -/
@[simp] theorem ensures_bind {c : ExceptT ε (StateM σ) β} {f : β → ExceptT ε (StateM σ) α} :
    Ensures (c >>= f) s Q E ↔ Ensures c s (fun b s' => Ensures (f b) s' Q E) E := by
  unfold Ensures
  cases hs : outcome c s with
  | mk result s' =>
    cases result with
    | ok b => rw [outcome_bind_of_ok hs]
    | error e => rw [outcome_bind_of_error hs]

/-- The rules for sequences and for access to the state, as one for `simp`. -/
theorem ensures_run : (∀ (α : Type) (a : α) (s : σ) Q (E : ε → σ → Prop),
      Ensures (pure a : ExceptT ε (StateM σ) α) s Q E ↔ Q a s) ∧
    (∀ (s : σ) Q (E : ε → σ → Prop), Ensures (get : ExceptT ε (StateM σ) σ) s Q E ↔ Q s s) ∧
    (∀ f (s : σ) Q (E : ε → σ → Prop), Ensures (modify f : ExceptT ε (StateM σ) PUnit) s Q E ↔
      Q ⟨⟩ (f s)) ∧
    ∀ (α β : Type) (c : ExceptT ε (StateM σ) β) (f : β → ExceptT ε (StateM σ) α) s Q E,
      Ensures (c >>= f) s Q E ↔ Ensures c s (fun b s' => Ensures (f b) s' Q E) E :=
  ⟨fun _ _ _ _ _ => ensures_pure, fun _ _ _ => ensures_get, fun f _ _ _ => ensures_modify f,
    fun _ _ _ _ _ _ _ => ensures_bind⟩

@[simp] theorem ensures_afterwards {c : ExceptT ε (StateM σ) α} (f : σ → σ) :
    Ensures (afterwards f c) s Q E ↔ Ensures c s (fun a s' => Q a (f s'))
    (fun e s' => E e (f s')) := by
  unfold Ensures afterwards
  rw [outcome_ofOutcome]
  cases outcome c s with
  | mk result s' => cases result <;> rfl

variable {c : ExceptT ε (StateM σ) α} {Q' : α → σ → Prop}

/-- What is ensured may be weakened. -/
theorem Ensures.mono {E' : ε → σ → Prop}
    (h : Ensures c s Q E) (hQ : ∀ a s', Q a s' → Q' a s') (hE : ∀ e s', E e s' → E' e s') :
    Ensures c s Q' E' := by
  unfold Ensures at h ⊢
  cases hs : outcome c s with
  | mk result s' =>
    rw [hs] at h
    cases result with
    | ok a => exact hQ a s' h
    | error e => exact hE e s' h

theorem Ensures.trivial : Ensures c s (fun _ _ => True) (fun _ _ => True) := by
  unfold Ensures
  cases hs : outcome c s with
  | mk result s' => cases result <;> exact True.intro

/-- Where nothing is asked of a run that throws. -/
theorem Ensures.imp (h : Ensures c s Q E)
    (hQ : ∀ a s', Q a s' → Q' a s') : Ensures c s Q' (fun _ _ => True) :=
  h.mono hQ fun _ _ _ => True.intro

theorem ensures_of_forall (h : ∀ a s', Q a s') : Ensures c s Q (fun _ _ => True) :=
  Ensures.trivial.imp fun a s' _ => h a s'

/-- A computation ensures that it does what it does. -/
theorem ensures_outcome (c : ExceptT ε (StateM σ) α) (s : σ) :
    Ensures c s (fun a s' => outcome c s = (.ok a, s'))
    (fun e s' => outcome c s = (.error e, s')) := by
  unfold Ensures
  cases outcome c s with
  | mk result s' => cases result <;> rfl

/-- What is ensured of a run that returned. -/
theorem ensures_iff_of_ok {a : α} {s' : σ} (hs : outcome c s = (.ok a, s')) :
    Ensures c s Q E ↔ Q a s' := by
  unfold Ensures
  rw [hs]

/-- What is ensured of a run that threw. -/
theorem ensures_iff_of_error {e : ε} {s' : σ}
    (hs : outcome c s = (.error e, s')) : Ensures c s Q E ↔ E e s' := by
  unfold Ensures
  rw [hs]

theorem Ensures.and {E' : ε → σ → Prop} (h : Ensures c s Q E) (h' : Ensures c s Q' E') :
    Ensures c s (fun a s' => Q a s' ∧ Q' a s') (fun e s' => E e s' ∧ E' e s') := by
  unfold Ensures at h h' ⊢
  cases hs : outcome c s with
  | mk result s' =>
    rw [hs] at h h'
    cases result with
    | ok a | error e => exact ⟨h, h'⟩

/-- **A loop**: an invariant that every round keeps. -/
theorem ensures_loop {exhausted : ε} {round : β → ExceptT ε (StateM σ) (β ⊕ α)} (I : β → σ → Prop)
    (hround : ∀ b s, I b s →
      Ensures (round b) s (fun r s' => match r with | .inl b' => I b' s' | .inr a => Q a s') E)
    (hexhausted : ∀ b s, I b s → E exhausted s) (n : Nat) {b : β} (hb : I b s) :
    Ensures (loop exhausted round n b) s Q E := by
  induction n generalizing b s with
  | zero => exact hexhausted b s hb
  | succ n ih =>
    rw [loop, ensures_bind]
    refine (hround b s hb).mono ?_ fun _ _ h => h
    intro r s' hr
    cases r with
    | inl b' => exact ih hr
    | inr a => exact hr

end Rules

/-! ## 3. What a computation leaves alone -/

/-- Every run leaves `f` of the state as it was, also one that throws. -/
def Preserves {τ : Type} (f : σ → τ) (c : ExceptT ε (StateM σ) α) : Prop :=
  ∀ s, f (outcome c s).2 = f s

namespace Preserves

variable {τ : Type} {f : σ → τ}

theorem of_pure (a : α) : Preserves f (pure a : ExceptT ε (StateM σ) α) := fun _ => rfl

theorem of_get : Preserves f (get : ExceptT ε (StateM σ) σ) := fun _ => rfl

/-- **A sequence leaves alone what its parts do.** -/
theorem bind {c : ExceptT ε (StateM σ) α} {k : α → ExceptT ε (StateM σ) β} (hc : Preserves f c)
    (hk : ∀ a, Preserves f (k a)) : Preserves f (c >>= k) := by
  intro s
  have hs := hc s
  cases hcs : outcome c s with
  | mk result s' =>
    rw [hcs] at hs
    cases result with
    | ok a => rw [outcome_bind_of_ok hcs, hk a s', hs]
    | error e => rw [outcome_bind_of_error hcs, hs]

theorem discard {c : ExceptT ε (StateM σ) α} (hc : Preserves f c) : Preserves f (discard c) := by
  rw [Functor.discard, map_const, Function.comp_apply, ← bind_pure_comp]
  exact hc.bind fun _ => of_pure _

end Preserves

/-! ## 4. Two computations in step -/

/-- From these two states both computations return, and `P` relates the results and states; or both
throw the same exception, and then `E` relates the states. -/
def Alongside (P : α → β → σ → σ → Prop) (E : σ → σ → Prop) (c : ExceptT ε (StateM σ) α)
    (d : ExceptT ε (StateM σ) β) (s t : σ) : Prop :=
  (∃ a b s' t', outcome c s = (.ok a, s') ∧ outcome d t = (.ok b, t') ∧ P a b s' t') ∨
  (∃ e s' t', outcome c s = (.error e, s') ∧ outcome d t = (.error e, t') ∧ E s' t')

namespace Alongside

variable {P : α → β → σ → σ → Prop} {E : σ → σ → Prop} {c : ExceptT ε (StateM σ) α}
  {d : ExceptT ε (StateM σ) β} {s t : σ}

variable {P' : α → β → σ → σ → Prop} {E' : σ → σ → Prop}

theorem mono (h : Alongside P E c d s t)
    (hP : ∀ a b s' t', P a b s' t' → P' a b s' t') (hE : ∀ s' t', E s' t' → E' s' t') :
    Alongside P' E' c d s t :=
  h.imp (fun ⟨a, b, s', t', hc, hd, h⟩ => ⟨a, b, s', t', hc, hd, hP a b s' t' h⟩)
    fun ⟨e, s', t', hc, hd, h⟩ => ⟨e, s', t', hc, hd, hE s' t' h⟩

theorem bind {δ : Type} {Q : γ → δ → σ → σ → Prop} {f : α → ExceptT ε (StateM σ) γ}
    {g : β → ExceptT ε (StateM σ) δ} (h : Alongside P E c d s t)
    (hfg : ∀ a b s' t', P a b s' t' → Alongside Q E (f a) (g b) s' t') :
    Alongside Q E (c >>= f) (d >>= g) s t := by
  rcases h with ⟨a, b, s', t', hc, hd, hP⟩ | ⟨e, s', t', hc, hd, hE⟩
  · unfold Alongside
    rw [outcome_bind_of_ok hc, outcome_bind_of_ok hd]
    exact hfg a b s' t' hP
  · exact .inr ⟨e, s', t', outcome_bind_of_error hc f, outcome_bind_of_error hd g, hE⟩

/-- **Loops run alongside each other** when their rounds do. -/
theorem loop {β' α' : Type} {J : β → β' → σ → σ → Prop} {K : α → α' → σ → σ → Prop} {exhausted : ε}
    {round : β → ExceptT ε (StateM σ) (β ⊕ α)} {round' : β' → ExceptT ε (StateM σ) (β' ⊕ α')}
    (hJE : ∀ b b' s t, J b b' s t → E s t) (h : ∀ b b' s t, J b b' s t →
      Alongside (fun r r' s' t' => Sum.LiftRel (J · · s' t') (K · · s' t') r r') E (round b)
      (round' b') s t)
    (n : Nat) {b : β} {b' : β'} (hb : J b b' s t) :
    Alongside K E (loop exhausted round n b) (loop exhausted round' n b') s t := by
  induction n generalizing b b' s t with
  | zero => exact .inr ⟨exhausted, s, t, rfl, rfl, hJE b b' s t hb⟩
  | succ n ih =>
    refine (h b b' s t hb).bind ?_
    rintro _ _ s' t' (hJ | hK)
    · exact ih hJ
    · exact .inl ⟨_, _, s', t', rfl, rfl, hK⟩

theorem attempt {Q : Option α → Option β → σ → σ → Prop} (h : Alongside P E c d s t)
    (hP : ∀ a b s' t', P a b s' t' → Q (some a) (some b) s' t')
    (hE : ∀ s' t', E s' t' → Q none none s' t') :
    Alongside Q E' (attempt c) (attempt d) s t := by
  simp only [Alongside, Effects.attempt, outcome_ofOutcome]
  rcases h with ⟨a, b, s', t', hc, hd, h⟩ | ⟨e, s', t', hc, hd, h⟩
  · rw [hc, hd]
    exact .inl ⟨some a, some b, s', t', rfl, rfl, hP a b s' t' h⟩
  · rw [hc, hd]
    exact .inl ⟨none, none, s', t', rfl, rfl, hE s' t' h⟩

theorem afterwards {f g : σ → σ} (h : Alongside P E c d s t)
    (hP : ∀ a b s' t', P a b s' t' → P' a b (f s') (g t'))
    (hE : ∀ s' t', E s' t' → E' (f s') (g t')) :
    Alongside P' E' (afterwards f c) (afterwards g d) s t := by
  simp only [Alongside, Effects.afterwards, outcome_ofOutcome]
  rcases h with ⟨a, b, s', t', hc, hd, h⟩ | ⟨e, s', t', hc, hd, h⟩
  · rw [hc, hd]
    exact .inl ⟨a, b, f s', g t', rfl, rfl, hP a b s' t' h⟩
  · rw [hc, hd]
    exact .inr ⟨e, f s', g t', rfl, rfl, hE s' t' h⟩

end Alongside

end JavaScriptCore.Lib.Effects
