/-
# Runs of a system that takes one action after another

A system is a function `step : σ → α → Option σ`; `none` means that the action does not return.  The
`guard` says which actions its users may take in a state.  `Run guard step s as s'` says that taking
the actions `as` from `s`, each allowed in the state in which it is taken, ends in `s'`.

`Run.invariant` is the only induction: what holds at first and is kept by every allowed action holds
at the end of every run.
-/
import Mathlib.Init

namespace Transition

variable {σ α : Type*}

inductive Run (guard : σ → α → Prop) (step : σ → α → Option σ) : σ → List α → σ → Prop where
  | nil {s} : Run guard step s [] s
  | cons {s a s' as s''} :
      guard s a → step s a = some s' → Run guard step s' as s'' → Run guard step s (a :: as) s''

variable {guard guard' : σ → α → Prop} {step : σ → α → Option σ}

/-- **The invariant rule.** -/
theorem Run.invariant {Inv : σ → Prop}
    (hstep : ∀ s a s', guard s a → Inv s → step s a = some s' → Inv s')
    {s s' : σ} {as : List α} (hrun : Run guard step s as s') (hinit : Inv s) : Inv s' := by
  induction hrun with
  | nil => exact hinit
  | cons hg hs _ ih => exact ih (hstep _ _ _ hg hinit hs)

end Transition
