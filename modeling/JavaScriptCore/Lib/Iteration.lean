/-
# Loops that run under a bound

A loop is a function `step : σ → σ ⊕ ρ`: one turn either goes on from a new state or ends with a
result.  `run step n s` gives it `n` turns and is `none` if they do not suffice.

Reasoning about such a loop never mentions the bound until the very end.  `Steps step k s s'` says
that `k` turns lead from `s` to `s'`; it composes, and `Steps.run` cashes it in.  More turns never
hurt (`run_mono`).

`run_of_measure` is the rule for a loop with an invariant and a measure that goes down: it ends with
a result, for which the loop's last turn vouches.
-/
import Mathlib.Data.Nat.Init
import Mathlib.Order.Basic

namespace Iteration

variable {σ ρ : Type*} (step : σ → σ ⊕ ρ)

/-- At most `n` turns of the loop. -/
def run : Nat → σ → Option ρ
  | 0, _ => none
  | n + 1, s =>
    match step s with
    | .inl s' => run n s'
    | .inr r => some r

/-- `k` turns lead from one state to another. -/
inductive Steps : Nat → σ → σ → Prop where
  | refl {s} : Steps 0 s s
  | head {k s s' s''} : step s = .inl s' → Steps k s' s'' → Steps (k + 1) s s''

variable {step}

theorem run_succ_inl {s s' : σ} (h : step s = .inl s') (n : Nat) :
    run step (n + 1) s = run step n s' := by
  rw [run, h]

theorem run_succ_inr {s : σ} {r : ρ} (h : step s = .inr r) (n : Nat) :
    run step (n + 1) s = some r := by
  rw [run, h]

/-! ## 1. Turns compose -/

theorem Steps.one {s s' : σ} (h : step s = .inl s') : Steps step 1 s s' := .head h .refl

theorem Steps.trans {j k : Nat} {s s' s'' : σ} (h₁ : Steps step j s s')
    (h₂ : Steps step k s' s'') : Steps step (j + k) s s'' := by
  induction h₁ with
  | refl => rwa [Nat.zero_add]
  | head hs _ ih =>
    rw [Nat.add_right_comm]
    exact .head hs (ih h₂)

/-- The turns spent on `Steps` come off the bound. -/
theorem Steps.run {k : Nat} {s s' : σ} (h : Steps step k s s') (n : Nat) :
    run step (n + k) s = run step n s' := by
  induction h with
  | refl => rfl
  | head hs _ ih => rw [← Nat.add_assoc, run_succ_inl hs, ih]

theorem Steps.run_inr {k : Nat} {s s' : σ} {r : ρ} (h : Steps step k s s')
    (hr : step s' = .inr r) {n : Nat} (hn : k < n) : Iteration.run step n s = some r := by
  obtain ⟨j, rfl⟩ := Nat.exists_eq_add_of_lt hn
  rw [show k + j + 1 = (j + 1) + k by omega, h.run, run_succ_inr hr]

/-! ## 2. The bound does not matter -/

/-- More turns do not change a result. -/
theorem run_mono {n : Nat} {s : σ} {r : ρ} (h : run step n s = some r) (j : Nat) :
    run step (n + j) s = some r := by
  induction n generalizing s with
  | zero => cases h
  | succ n ih =>
    rw [Nat.add_right_comm]
    cases hs : step s with
    | inl s' => rw [run_succ_inl hs] at h ⊢; exact ih h
    | inr r' => rw [run_succ_inr hs] at h ⊢; exact h

theorem run_unique {m n : Nat} {s : σ} {r r' : ρ} (h : run step m s = some r)
    (h' : run step n s = some r') : r = r' := by
  have := run_mono h n
  rw [Nat.add_comm, run_mono h' m] at this
  exact (Option.some.inj this).symm

/-! ## 3. Loops that end -/

/-- **A loop with an invariant and a measure**: each turn keeps the one and decreases the other, or
ends the loop. -/
theorem run_of_measure {Inv : σ → Prop} {Post : ρ → Prop} (measure : σ → Nat)
    (hstep : ∀ s, Inv s → (∃ s', step s = .inl s' ∧ Inv s' ∧ measure s' < measure s) ∨
      ∃ r, step s = .inr r ∧ Post r)
    {n : Nat} {s : σ} (hs : Inv s) (hn : measure s < n) : ∃ r, run step n s = some r ∧ Post r := by
  induction n generalizing s with
  | zero => exact absurd hn (Nat.not_lt_zero _)
  | succ n ih =>
    rcases hstep s hs with ⟨s', hnext, hinv, hlt⟩ | ⟨r, hend, hpost⟩
    · rw [run_succ_inl hnext]
      exact ih hinv (by omega)
    · exact ⟨r, run_succ_inr hend n, hpost⟩

/-! ## 4. Two loops in step -/

/-- **Loops that go in step end together**: related states lead to related states, or both end with
related results. -/
theorem run_of_inStep {τ π : Type*} {step' : τ → τ ⊕ π} {R : σ → τ → Prop} {Q : ρ → π → Prop}
    (hstep : ∀ s t, R s t → (∃ s' t', step s = .inl s' ∧ step' t = .inl t' ∧ R s' t') ∨
      ∃ r p, step s = .inr r ∧ step' t = .inr p ∧ Q r p)
    {n : Nat} {s : σ} {t : τ} (h : R s t) {r : ρ} (hrun : run step n s = some r) :
    ∃ p, run step' n t = some p ∧ Q r p := by
  induction n generalizing s t with
  | zero => cases hrun
  | succ n ih =>
    rcases hstep s t h with ⟨s', t', hs, ht, hnext⟩ | ⟨r', p, hs, ht, hend⟩
    · rw [run_succ_inl hs] at hrun
      rw [run_succ_inl ht]
      exact ih hnext hrun
    · rw [run_succ_inr hs] at hrun
      cases hrun
      exact ⟨p, run_succ_inr ht n, hend⟩

end Iteration
