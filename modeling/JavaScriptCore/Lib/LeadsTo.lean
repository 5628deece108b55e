/-
# Where a program with jumps comes to

A program gives for every position what the instruction there does and where the program goes on: a
computation that returns the next position.  `LeadsTo program Q E pc s` says that the program,
started at the position `pc` in the state `s`, comes after some steps to a position and a state with
`Q`, or throws an exception in a state with `E`.  It does not say that the program stops there.
-/
import JavaScriptCore.Lib.Triples

namespace JavaScriptCore.Lib.Effects

variable {ε σ : Type}

/-- **The program leads to `Q`**, or throws with `E`. -/
inductive LeadsTo (program : Nat → Option (ExceptT ε (StateM σ) Nat)) (Q : Nat → σ → Prop)
    (E : ε → σ → Prop) : Nat → σ → Prop where
  | here {pc s} : Q pc s → LeadsTo program Q E pc s
  | next {pc s c pc' s'} : program pc = some c → outcome c s = (.ok pc', s') →
      LeadsTo program Q E pc' s' → LeadsTo program Q E pc s
  | thrown {pc s c e s'} : program pc = some c → outcome c s = (.error e, s') → E e s' →
      LeadsTo program Q E pc s

namespace LeadsTo

variable {program : Nat → Option (ExceptT ε (StateM σ) Nat)} {Q Q' : Nat → σ → Prop}
  {E : ε → σ → Prop}

/-- What is reached may be weakened. -/
theorem mono {E' : ε → σ → Prop} {pc : Nat} {s : σ} (h : LeadsTo program Q E pc s)
    (hQ : ∀ pc' s', Q pc' s' → Q' pc' s') (hE : ∀ e s', E e s' → E' e s') :
    LeadsTo program Q' E' pc s := by
  induction h with
  | here hq => exact .here (hQ _ _ hq)
  | next hc hs _ ih => exact .next hc hs ih
  | thrown hc hs he => exact .thrown hc hs (hE _ _ he)

/-- **Runs compose.** -/
theorem bind {pc : Nat} {s : σ} (h : LeadsTo program Q E pc s)
    (hQ : ∀ pc' s', Q pc' s' → LeadsTo program Q' E pc' s') : LeadsTo program Q' E pc s := by
  induction h with
  | here hq => exact hQ _ _ hq
  | next hc hs _ ih => exact .next hc hs ih
  | thrown hc hs he => exact .thrown hc hs he

/-- One step, by what its instruction ensures. -/
theorem step {pc : Nat} {s : σ} {c : ExceptT ε (StateM σ) Nat} (hc : program pc = some c)
    (h : Ensures c s (fun pc' s' => LeadsTo program Q E pc' s') E) : LeadsTo program Q E pc s := by
  unfold Ensures at h
  cases hs : outcome c s with
  | mk result s' =>
    rw [hs] at h
    cases result with
    | ok pc' => exact .next hc hs h
    | error e => exact .thrown hc hs h

end LeadsTo

end JavaScriptCore.Lib.Effects
