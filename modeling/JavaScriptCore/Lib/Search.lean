/-
# Marking with a worklist

Many algorithms mark the members of a finite set that can be reached from some roots: an item that
is met for the first time is marked and put on a worklist, and an item that is taken from the
worklist has its successors met.  `Search` is the state of such an algorithm, `push` meets an item.

* `Sound U P s` says that only items of `U` with the property `P` are marked or waiting.
* `Closed U succ s` says that the successors of a marked item are marked, unless it is waiting.
* `size U s` bounds the number of turns that are left.

All three are kept by `push` and by taking an item from the worklist.
-/
import Mathlib.Data.Finset.Card

structure Search (ι : Type*) where
  marked : ι → Bool
  work : List ι

namespace Search

variable {ι : Type*} [DecidableEq ι] {s : Search ι} {m n : ι} {l : List ι}

/-- Meet an item. -/
def push (s : Search ι) (n : ι) : Search ι :=
  if s.marked n then s else ⟨Function.update s.marked n true, n :: s.work⟩

def pushAll (s : Search ι) (l : List ι) : Search ι := l.foldl push s

theorem marked_push : (s.push n).marked m = true ↔ m = n ∨ s.marked m = true := by
  by_cases hn : s.marked n
  · rw [push, if_pos hn]
    exact ⟨.inr, fun h => h.elim (fun hmn => hmn ▸ hn) id⟩
  · rw [push, if_neg hn]
    by_cases hmn : m = n <;> simp [hmn]

theorem mem_work_push : m ∈ (s.push n).work ↔ m ∈ s.work ∨ m = n ∧ s.marked n = false := by
  by_cases hn : s.marked n
  · simp [push, hn]
  · rw [push, if_neg hn, List.mem_cons]
    simp [hn, or_comm]

theorem marked_pushAll : (s.pushAll l).marked m = true ↔ m ∈ l ∨ s.marked m = true := by
  induction l generalizing s with
  | nil => simp [pushAll]
  | cons n l ih =>
    have hcons : s.pushAll (n :: l) = (s.push n).pushAll l := rfl
    rw [hcons, ih, marked_push, List.mem_cons]
    tauto

theorem mem_work_pushAll (h : m ∈ s.work) : m ∈ (s.pushAll l).work := by
  induction l generalizing s with
  | nil => exact h
  | cons n l ih => exact ih (mem_work_push.2 (.inl h))

/-- An item that has become marked is waiting. -/
theorem mem_work_of_pushAll (hold : s.marked m = false) (h : (s.pushAll l).marked m = true) :
    m ∈ (s.pushAll l).work := by
  induction l generalizing s with
  | nil =>
    have hm : s.marked m = true := h
    rw [hold] at hm
    cases hm
  | cons n l ih =>
    by_cases hmn : m = n
    · subst hmn
      exact mem_work_pushAll (s := s.push m) (mem_work_push.2 (.inr ⟨rfl, hold⟩))
    · refine ih (s := s.push n) (Bool.eq_false_iff.2 fun hm => ?_) h
      rcases marked_push.1 hm with hm | hm
      · exact hmn hm
      · rw [hold] at hm
        cases hm

/-! ## What is marked -/

variable {U : Finset ι} {P : ι → Prop} {succ : ι → List ι}

/-- Only items of `U` with the property `P` are marked, and only marked items of `U` are waiting. -/
structure Sound (U : Finset ι) (P : ι → Prop) (s : Search ι) : Prop where
  work : ∀ n ∈ s.work, n ∈ U ∧ s.marked n = true
  marked : ∀ n ∈ U, s.marked n = true → P n

theorem Sound.push (h : s.Sound U P) (hn : n ∈ U) (hP : P n) : (s.push n).Sound U P := by
  refine ⟨fun m hm => ?_, fun m hm hmarked => ?_⟩
  · rw [marked_push]
    rcases mem_work_push.1 hm with hm | ⟨rfl, -⟩
    · exact ⟨(h.work m hm).1, .inr (h.work m hm).2⟩
    · exact ⟨hn, .inl rfl⟩
  · rcases marked_push.1 hmarked with rfl | hmarked
    · exact hP
    · exact h.marked m hm hmarked

theorem Sound.pushAll (h : s.Sound U P) (hl : ∀ n ∈ l, n ∈ U ∧ P n) : (s.pushAll l).Sound U P := by
  induction l generalizing s with
  | nil => exact h
  | cons n l ih =>
    obtain ⟨hn, hl⟩ := List.forall_mem_cons.1 hl
    exact ih (h.push hn.1 hn.2) hl

omit [DecidableEq ι] in
theorem Sound.pop (h : s.Sound U P) (hwork : s.work = n :: l) :
    Sound U P { s with work := l } :=
  ⟨fun m hm => h.work m (hwork ▸ List.mem_cons_of_mem n hm), h.marked⟩

/-- A marked item is waiting, or its successors are marked. -/
def Closed (U : Finset ι) (succ : ι → List ι) (s : Search ι) : Prop :=
  ∀ n ∈ U, s.marked n = true → n ∈ s.work ∨ ∀ m ∈ succ n, s.marked m = true

theorem Closed.pushAll (h : s.Closed U succ) (l : List ι) : (s.pushAll l).Closed U succ := by
  intro m hm hmarked
  by_cases hold : s.marked m = true
  · refine (h m hm hold).imp mem_work_pushAll fun hsucc k hk => ?_
    exact marked_pushAll.2 (.inr (hsucc k hk))
  · exact .inl (mem_work_of_pushAll (Bool.eq_false_iff.2 hold) hmarked)

/-- **A turn**: the item taken from the worklist has its successors met. -/
theorem Closed.turn (h : s.Closed U succ) (hwork : s.work = n :: l) :
    ({ s with work := l }.pushAll (succ n) : Search ι).Closed U succ := by
  intro m hm hmarked
  by_cases hmn : m = n
  · subst hmn
    exact .inr fun k hk => marked_pushAll.2 (.inl hk)
  · by_cases hold : s.marked m = true
    · rcases h m hm hold with hw | hsucc
      · rw [hwork, List.mem_cons] at hw
        exact .inl (mem_work_pushAll (hw.resolve_left hmn))
      · exact .inr fun k hk => marked_pushAll.2 (.inr (hsucc k hk))
    · exact .inl (mem_work_of_pushAll (s := { s with work := l })
        (Bool.eq_false_iff.2 hold) hmarked)

/-! ## How long it takes -/

/-- Each item that is not marked can still be put on the worklist and taken from it. -/
def size (U : Finset ι) (s : Search ι) : Nat :=
  2 * (U.filter fun n => s.marked n = false).card + s.work.length

theorem size_push (hn : n ∈ U) : (s.push n).size U + (if s.marked n then 0 else 1) = s.size U := by
  by_cases hm : s.marked n
  · rw [push, if_pos hm, if_pos hm, Nat.add_zero]
  · have hfilter : (U.filter fun m => Function.update s.marked n true m = false) =
        (U.filter fun m => s.marked m = false).erase n := by
      ext m
      by_cases hmn : m = n <;> simp [hmn]
    have hmem : n ∈ U.filter fun m => s.marked m = false :=
      Finset.mem_filter.2 ⟨hn, Bool.eq_false_iff.2 hm⟩
    have hpos := Finset.card_pos.2 ⟨n, hmem⟩
    rw [push, if_neg hm, if_neg hm, size, size, hfilter, Finset.card_erase_of_mem hmem,
      List.length_cons]
    omega

theorem size_pushAll_le (hl : ∀ n ∈ l, n ∈ U) : (s.pushAll l).size U ≤ s.size U := by
  induction l generalizing s with
  | nil => exact le_rfl
  | cons n l ih =>
    obtain ⟨hn, hl⟩ := List.forall_mem_cons.1 hl
    have hpush := size_push (s := s) hn
    exact Nat.le_trans (ih hl) (by omega)

/-- **A turn makes the rest shorter.** -/
theorem size_turn_lt (hwork : s.work = n :: l) {k : List ι} (hk : ∀ m ∈ k, m ∈ U) :
    ({ s with work := l }.pushAll k : Search ι).size U < s.size U := by
  refine Nat.lt_of_le_of_lt (size_pushAll_le hk) ?_
  rw [size, size, hwork, List.length_cons]
  exact Nat.lt_succ_self _

end Search
