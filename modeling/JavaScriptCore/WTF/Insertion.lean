/-
# `executeInsertions`

A pass over a vector collects what it wants to insert, with the index at which it is to stand, and
`executeInsertions` moves the elements of the vector apart in place, from the last insertion to the
first.  The insertions have to be sorted by their indices.

* When all of them have the same index, the elements are inserted there
  (`executeInsertions_same_index`).
* Whatever their order, nothing is written at or below an index that is smaller than the place of
  every insertion (`getElem?_executeInsertions_of_lt`).
-/
import Mathlib.Data.List.GetD
import Mathlib.Tactic.SplitIfs
import Mathlib.Logic.Function.Basic

namespace JavaScriptCore.WTF

open List Function

variable {α : Type*}

/-- An element and the index at which it is to stand. -/
structure Insertion (α : Type*) where
  index : Nat
  element : α

namespace Insertion

/-- The inner loop: `target[i] = target[i - indexOffset]` for `i` from `lastIndex - 1` down to
`firstIndex + 1`.  The source would wrap around for a `lastIndex` of zero, which does not occur: it
is the place of an insertion that is not the first, or the size of the vector. -/
def shift (firstIndex indexOffset : Nat) : Nat → (Nat → α) → Nat → α
  | 0, target => target
  | i + 1, target =>
    if i > firstIndex then
      shift firstIndex indexOffset i (update target i (target (i - indexOffset)))
    else target

/-- One turn of the outer loop, on the vector and `lastIndex`. -/
def turn (s : (Nat → α) × Nat) (insertion : Insertion α) (indexInInsertions : Nat) :
    (Nat → α) × Nat :=
  let firstIndex := insertion.index + indexInInsertions
  let indexOffset := indexInInsertions + 1
  let target := shift firstIndex indexOffset s.2 s.1
  (update target firstIndex insertion.element, firstIndex)

/-- The outer loop, from the last insertion to the first. -/
def execute : List (Insertion α) → Nat → (Nat → α) × Nat → (Nat → α) × Nat
  | [], _, s => s
  | insertion :: rest, k, s => turn (execute rest (k + 1) s) insertion k

end Insertion

open Insertion

/-- The vector grows by elements that are not initialised. -/
def executeInsertions (garbage : α) (target : List α) (insertions : List (Insertion α)) : List α :=
  if insertions.length = 0 then target
  else
    let size := target.length + insertions.length
    let memory := execute insertions 0 (fun i => target.getD i garbage, size)
    (List.range size).map memory.1

/-! ## 1. The inner loop -/

/-- Each element is read before it is overwritten. -/
theorem shift_apply {firstIndex indexOffset : Nat} (hoffset : 0 < indexOffset) (lastIndex : Nat)
    (target : Nat → α) (j : Nat) : shift firstIndex indexOffset lastIndex target j =
      if firstIndex < j ∧ j < lastIndex then target (j - indexOffset) else target j := by
  induction lastIndex generalizing target with
  | zero => rw [shift, if_neg fun h => Nat.not_lt_zero j h.2]
  | succ i ih =>
    rw [shift]
    by_cases hi : i > firstIndex
    · rw [if_pos hi, ih]
      by_cases hj : j = i
      · subst hj
        rw [if_neg fun h => Nat.lt_irrefl j h.2, if_pos ⟨hi, Nat.lt_succ_self j⟩, update_self]
      · rw [update_of_ne hj]
        by_cases hlt : firstIndex < j ∧ j < i
        · rw [if_pos hlt, if_pos ⟨hlt.1, Nat.lt_succ_of_lt hlt.2⟩, update_of_ne (by omega)]
        · rw [if_neg hlt, if_neg (by omega)]
    · rw [if_neg hi, if_neg (by omega)]

theorem turn_apply (s : (Nat → α) × Nat) (insertion : Insertion α) (k j : Nat) :
    (turn s insertion k).1 j = if j = insertion.index + k then insertion.element
      else if insertion.index + k < j ∧ j < s.2 then s.1 (j - (k + 1)) else s.1 j := by
  rw [turn]
  by_cases hj : j = insertion.index + k
  · rw [if_pos hj, hj]
    exact update_self ..
  · rw [if_neg hj, ← shift_apply (Nat.succ_pos k)]
    exact update_of_ne hj ..

/-! ## 2. Insertions at one index -/

/-- The insertions from number `k` on have been executed. -/
theorem execute_same_index (target : Nat → α) (size : Nat) {i : Nat} {l : List α} (hl : l ≠ [])
    (k : Nat) : (execute (l.map (Insertion.mk i)) k (target, size)).2 = i + k ∧
      ∀ j < size, (execute (l.map (Insertion.mk i)) k (target, size)).1 j =
        if j < i + k then target j
        else if h : j - (i + k) < l.length then l[j - (i + k)]
        else target (j - (k + l.length)) := by
  induction l generalizing k with
  | nil => exact absurd rfl hl
  | cons x l ih =>
    refine ⟨rfl, fun j hj => ?_⟩
    rw [map_cons, execute, turn_apply]
    by_cases hlast : l = []
    · subst hlast
      simp only [map_nil, execute, length_singleton]
      by_cases hji : j = i + k
      · subst hji
        simp
      · rw [if_neg hji]
        by_cases hlt : i + k < j
        · rw [if_pos ⟨hlt, hj⟩, if_neg (by omega), dif_neg (by omega)]
        · rw [if_neg fun h => hlt h.1, if_pos (by omega)]
    · obtain ⟨hlast, hvalues⟩ := ih hlast (k + 1)
      rw [hlast]
      by_cases hji : j = i + k
      · subst hji
        simp
      · -- the elements were moved by the insertions before this one
        rw [if_neg hji, if_neg (show ¬(i + k < j ∧ j < i + (k + 1)) by omega), hvalues j hj]
        by_cases hlt : j < i + k
        · rw [if_pos hlt, if_pos (by omega)]
        · rw [if_neg hlt, if_neg (by omega)]
          have hsub : j - (i + k) = (j - (i + (k + 1))) + 1 := by omega
          by_cases hin : j - (i + (k + 1)) < l.length
          · rw [dif_pos hin, dif_pos (by simp only [length_cons]; omega)]
            simp only [hsub, getElem_cons_succ]
          · rw [dif_neg hin, dif_neg (by simp only [length_cons]; omega)]
            congr 1
            simp only [length_cons]
            omega

/-- **Insertions at one index.** -/
theorem executeInsertions_same_index (garbage : α) {target : List α} {i : Nat}
    (hi : i ≤ target.length) (l : List α) :
    executeInsertions garbage target (l.map (Insertion.mk i)) =
      target.take i ++ (l ++ target.drop i) := by
  rw [executeInsertions]
  by_cases hl : l = []
  · subst hl
    simp
  · have hpos : 0 < l.length := length_pos_iff.2 hl
    rw [if_neg (by rw [length_map]; omega), length_map]
    obtain ⟨-, hvalues⟩ := execute_same_index (fun j => target.getD j garbage)
      (target.length + l.length) (i := i) hl 0
    refine ext_getElem (by simp; omega) fun j hj _ => ?_
    have hj : j < target.length + l.length := by simpa using hj
    rw [getElem_map, getElem_range, hvalues j hj, Nat.add_zero, Nat.zero_add]
    have htake : (target.take i).length = i := by simp [hi]
    by_cases hji : j < i
    · rw [if_pos hji, getElem_append_left (by omega), getElem_take, getD_eq_getElem _ _ (by omega)]
    · rw [if_neg hji, getElem_append_right (by omega)]
      simp only [htake]
      by_cases hin : j - i < l.length
      · rw [dif_pos hin, getElem_append_left hin]
      · rw [dif_neg hin, getElem_append_right (by omega), getElem_drop,
          getD_eq_getElem _ _ (by omega)]
        congr 1
        omega

/-! ## 3. Insertions in any order -/

theorem execute_of_lt (target : Nat → α) (size : Nat) {i : Nat} (insertions : List (Insertion α))
    (k : Nat) (h : ∀ m x, insertions[m]? = some x → i < x.index + (k + m)) {j : Nat} (hj : j ≤ i) :
    (execute insertions k (target, size)).1 j = target j := by
  induction insertions generalizing k with
  | nil => rfl
  | cons x rest ih =>
    have hx : i < x.index + k := by simpa using h 0 x rfl
    have hrest := ih (k + 1) fun m y hy => by
      have := h (m + 1) y (by simpa using hy)
      omega
    rw [execute, turn_apply, if_neg (by omega), if_neg (by omega), hrest]

/-- **Nothing is written below the places of the insertions.** -/
theorem getElem?_executeInsertions_of_lt (garbage : α) (target : List α) {i : Nat}
    (insertions : List (Insertion α)) (h : ∀ m x, insertions[m]? = some x → i < x.index + m)
    (hi : i < target.length) {j : Nat} (hj : j ≤ i) :
    (executeInsertions garbage target insertions)[j]? = target[j]? := by
  rw [executeInsertions]
  split_ifs with hempty
  · rfl
  · have hmemory := execute_of_lt (fun j => target.getD j garbage)
      (target.length + insertions.length) insertions 0 (by simpa using h) hj
    have hj' : j < target.length := by omega
    rw [getElem?_map, getElem?_range (by omega), Option.map_some, hmemory,
      getD_eq_getElem _ _ hj', getElem?_eq_getElem hj']

end JavaScriptCore.WTF
