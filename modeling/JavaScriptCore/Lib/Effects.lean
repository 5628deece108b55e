/-
# Computations that throw and change a state

`ExceptT ε (StateM σ)` is the monad of programs that may throw an exception and that keep the
changes they made to the state when they do.  `outcome` runs one, and the two rules say how a
sequence runs: it stops where its first part throws, and otherwise goes on from the state that the
first part left.

`FollowsUnless` compares two computations: a program and the code it is translated to.  The
translation may be allowed to notice some exceptions, such as the end of a resource, later than the
program.
-/
import Mathlib.Control.Monad.Basic

namespace JavaScriptCore.Lib.Effects

variable {ε σ α β : Type}

/-- What a computation does from a state: its result or exception, and the state afterwards. -/
def outcome (c : ExceptT ε (StateM σ) α) (s : σ) : Except ε α × σ := c.run.run s

/-- A computation given by its outcome. -/
def ofOutcome (f : σ → Except ε α × σ) : ExceptT ε (StateM σ) α := ExceptT.mk (StateT.mk f)

@[simp] theorem outcome_ofOutcome (f : σ → Except ε α × σ) (s : σ) :
    outcome (ofOutcome f) s = f s := rfl

variable {c : ExceptT ε (StateM σ) α}

theorem outcome_bind_of_error {s s' : σ} {e : ε}
    (h : outcome c s = (.error e, s')) (f : α → ExceptT ε (StateM σ) β) :
    outcome (c >>= f) s = (.error e, s') := by
  unfold outcome at h ⊢
  rw [ExceptT.run_bind, StateT.run_bind, h]
  rfl

theorem outcome_bind_of_ok {s s' : σ} {a : α}
    (h : outcome c s = (.ok a, s')) (f : α → ExceptT ε (StateM σ) β) :
    outcome (c >>= f) s = outcome (f a) s' := by
  unfold outcome at h ⊢
  rw [ExceptT.run_bind, StateT.run_bind, h]
  rfl

variable {c c' : ExceptT ε (StateM σ) α}

/-- A sequence depends on its first part only through its outcome. -/
theorem outcome_bind_congr {s : σ} (h : outcome c s = outcome c' s)
    (f : α → ExceptT ε (StateM σ) β) : outcome (c >>= f) s = outcome (c' >>= f) s := by
  cases hs : outcome c s with
  | mk result s' =>
    have hs' : outcome c' s = (result, s') := h ▸ hs
    cases result with
    | ok a => rw [outcome_bind_of_ok hs, outcome_bind_of_ok hs']
    | error e => rw [outcome_bind_of_error hs, outcome_bind_of_error hs']

/-- Two computations with the same outcomes are the same. -/
theorem ext_outcome (h : ∀ s, outcome c s = outcome c' s) : c = c' := funext h

/-- Every result of the computation has the property. -/
def Returns (P : α → Prop) (c : ExceptT ε (StateM σ) α) : Prop :=
  ∀ s a s', outcome c s = (.ok a, s') → P a

variable {P : α → Prop}

theorem Returns.pure {a : α} (h : P a) : Returns P (Pure.pure a : ExceptT ε (StateM σ) α) := by
  intro s b s' hb
  cases hb
  exact h

variable {f : α → ExceptT ε (StateM σ) β}

theorem Returns.bind {Q : β → Prop}
    (hc : Returns P c) (hf : ∀ a, P a → Returns Q (f a)) :
    Returns Q (c >>= f) := by
  intro s b s' hb
  cases hs : outcome c s with
  | mk result s1 =>
    cases result with
    | ok a =>
      rw [outcome_bind_of_ok hs] at hb
      exact hf a (hc s a s1 hs) s1 b s' hb
    | error e =>
      rw [outcome_bind_of_error hs] at hb
      cases hb

theorem Returns.mono {P Q : α → Prop} (h : Returns P c) (hPQ : ∀ a, P a → Q a) : Returns Q c :=
  fun s a s' hs => hPQ a (h s a s' hs)

/-- What comes after a computation matters only for the values that it returns. -/
theorem bind_congr_of_returns (h : Returns P c)
    {f g : α → ExceptT ε (StateM σ) β} (hfg : ∀ a, P a → f a = g a) : c >>= f = c >>= g := by
  apply ext_outcome
  intro s
  cases hs : outcome c s with
  | mk result s' =>
    cases result with
    | ok a => rw [outcome_bind_of_ok hs, outcome_bind_of_ok hs, hfg a (h s a s' hs)]
    | error e => rw [outcome_bind_of_error hs, outcome_bind_of_error hs]

theorem Returns.trivial (c : ExceptT ε (StateM σ) α) : Returns (fun _ => True) c :=
  fun _ _ _ _ => True.intro

/-! ## 2. One computation follows another -/

/-- **`c` follows `d`**: from every state it leaves the same state, with a related result or the
same exception.  Only where `d` throws an excused exception it need not stop at the same place, but
it does not return a result either. -/
def FollowsUnless (excused : ε → Prop) (R : α → β → Prop) (c : ExceptT ε (StateM σ) α)
    (d : ExceptT ε (StateM σ) β) : Prop :=
  ∀ s,
    (∀ b s', outcome d s = (.ok b, s') → ∃ a, outcome c s = (.ok a, s') ∧ R a b) ∧
    (∀ e s', outcome d s = (.error e, s') →
      outcome c s = (.error e, s') ∨ excused e ∧ ∃ e' s'', outcome c s = (.error e', s''))

namespace FollowsUnless

variable {excused : ε → Prop} {R : α → β → Prop} {c : ExceptT ε (StateM σ) α}
  {d : ExceptT ε (StateM σ) β}

/-- The two cases, by what the computation that is followed does. -/
theorem of_outcome
    (h : ∀ s, match outcome d s with
      | (.ok b, s') => ∃ a, outcome c s = (.ok a, s') ∧ R a b
      | (.error e, s') =>
        outcome c s = (.error e, s') ∨ excused e ∧ ∃ e' s'', outcome c s = (.error e', s'')) :
    FollowsUnless excused R c d := by
  intro s
  have hs := h s
  constructor
  · intro b s' hd
    rw [hd] at hs
    exact hs
  · intro e s' hd
    rw [hd] at hs
    exact hs

theorem pure {a : α} {b : β} (h : R a b) :
    FollowsUnless excused R (Pure.pure a : ExceptT ε (StateM σ) α) (Pure.pure b) :=
  of_outcome fun _ => ⟨a, rfl, h⟩

theorem refl {R : α → α → Prop} (hR : ∀ a, R a a) (c : ExceptT ε (StateM σ) α) :
    FollowsUnless excused R c c := by
  intro s
  exact ⟨fun b s' h => ⟨b, h, hR b⟩, fun e s' h => Or.inl h⟩

section

variable (h : FollowsUnless excused R c d)

include h

theorem mono {S : α → β → Prop} (hRS : ∀ a b, R a b → S a b) : FollowsUnless excused S c d := by
  intro s
  refine ⟨fun b s' hd => ?_, (h s).2⟩
  obtain ⟨a, hc, hR⟩ := (h s).1 b s' hd
  exact ⟨a, hc, hRS a b hR⟩

/-- A property of the results of the followed computation. -/
theorem and_returns {P : β → Prop} (hd : Returns P d) :
    FollowsUnless excused (fun a b => R a b ∧ P b) c d := by
  intro s
  refine ⟨fun b s' hb => ?_, (h s).2⟩
  obtain ⟨a, hc, hR⟩ := (h s).1 b s' hb
  exact ⟨a, hc, hR, hd s b s' hb⟩

/-- Where the first computation returns a result, so does the one it follows. -/
theorem returns : Returns (fun a => ∃ b, R a b) c := by
  intro s a s' hc
  cases hd : outcome d s with
  | mk result s'' =>
    cases result with
    | ok b =>
      obtain ⟨a', hc', hR⟩ := (h s).1 b s'' hd
      rw [hc] at hc'
      cases hc'
      exact ⟨b, hR⟩
    | error e =>
      rcases (h s).2 e s'' hd with hc' | ⟨_, e', s3, hc'⟩
      · rw [hc] at hc'
        cases hc'
      · rw [hc] at hc'
        cases hc'

/-- **Sequences follow each other** when their parts do. -/
theorem bind {γ δ : Type} {S : γ → δ → Prop} {f : α → ExceptT ε (StateM σ) γ}
    {g : β → ExceptT ε (StateM σ) δ} (hfg : ∀ a b, R a b → FollowsUnless excused S (f a) (g b)) :
    FollowsUnless excused S (c >>= f) (d >>= g) := by
  apply of_outcome
  intro s
  cases hd : outcome d s with
  | mk result s' =>
    cases result with
    | ok b =>
      obtain ⟨a, hc, hR⟩ := (h s).1 b s' hd
      rw [outcome_bind_of_ok hd, outcome_bind_of_ok hc]
      cases hg : outcome (g b) s' with
      | mk result' s'' =>
        cases result' with
        | ok y => exact (hfg a b hR s').1 y s'' hg
        | error e => exact (hfg a b hR s').2 e s'' hg
    | error e =>
      rw [outcome_bind_of_error hd]
      rcases (h s).2 e s' hd with hc | ⟨he, e', s'', hc⟩
      · exact Or.inl (outcome_bind_of_error hc f)
      · exact Or.inr ⟨he, e', s'', outcome_bind_of_error hc f⟩

end

end FollowsUnless

/-- **A computation that never returns a result.** -/
def Fails (c : ExceptT ε (StateM σ) α) : Prop := ∀ s, ∃ e s', outcome c s = (.error e, s')

/-- Where the computation that is followed throws an excused exception at once, it is enough to
fail. -/
theorem FollowsUnless.of_fails {excused : ε → Prop} {R : α → β → Prop}
    (hc : Fails c) {e : ε} (he : excused e) :
    FollowsUnless excused R c (throw e : ExceptT ε (StateM σ) β) := by
  apply of_outcome
  intro s
  exact Or.inr ⟨he, hc s⟩

theorem fails_throw (e : ε) : Fails (throw e : ExceptT ε (StateM σ) α) := fun s => ⟨e, s, rfl⟩

/-- A sequence fails when its second part does after every result of the first. -/
theorem Fails.bind
    (hc : Returns P c) (h : ∀ a, P a → Fails (f a)) : Fails (c >>= f) := by
  intro s
  cases hs : outcome c s with
  | mk result s' =>
    cases result with
    | ok a =>
      obtain ⟨e, s'', he⟩ := h a (hc s a s' hs) s'
      exact ⟨e, s'', by rw [outcome_bind_of_ok hs, he]⟩
    | error e => exact ⟨e, s', outcome_bind_of_error hs f⟩

end JavaScriptCore.Lib.Effects
