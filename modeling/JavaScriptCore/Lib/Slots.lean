/-
# Arrays of slots, some of which are dead

Items that are appended to an array and removed by marking their slot dead keep their order; the
array is packed from time to time by moving the live items to the front.  A slot is `none` when it
is dead.  `live mem n` is the list of the live items among the first `n` slots, and `rank mem i` the
number of them before slot `i`: the slot to which packing moves the item of slot `i`.
-/
import Mathlib.Data.List.Nodup

namespace Slots

open List

variable {ε : Type*} (mem : Nat → Option ε)

/-- The live items of the first `n` slots, in the order of the slots. -/
def live (n : Nat) : List ε := (List.range n).filterMap mem

/-- The number of live items before slot `n`. -/
def rank (n : Nat) : Nat := (live mem n).length

variable {mem} {mem' : Nat → Option ε} {n i j : Nat} {e : ε}

theorem live_succ : live mem (n + 1) = live mem n ++ (mem n).toList := by
  rw [live, range_succ, filterMap_append, live]
  cases h : mem n <;> simp [h]

theorem mem_live : e ∈ live mem n ↔ ∃ i < n, mem i = some e := by
  simp only [live, mem_filterMap, mem_range]

theorem live_congr (h : ∀ i < n, mem' i = mem i) : live mem' n = live mem n :=
  filterMap_congr fun i hi => h i (mem_range.1 hi)

/-- An item in one slot only is removed. -/
theorem live_filter_ne [DecidableEq ε] (hdead : ∀ i < n, mem i = some e → mem' i = none)
    (hkeep : ∀ i < n, mem i ≠ some e → mem' i = mem i) :
    live mem' n = (live mem n).filter (· ≠ e) := by
  induction n with
  | zero => rfl
  | succ n ih =>
    rw [live_succ, live_succ, filter_append,
      ih (fun i hi => hdead i (by omega)) fun i hi => hkeep i (by omega)]
    by_cases he : mem n = some e
    · rw [hdead n (by omega) he, he]
      simp
    · rw [hkeep n (by omega) he]
      cases hn : mem n with
      | none => rfl
      | some e' => simp [show e' ≠ e from fun h => he (h ▸ hn)]

/-- No item is listed twice if none is in two slots. -/
theorem nodup_live (h : ∀ i < n, ∀ j < n, ∀ e, mem i = some e → mem j = some e → i = j) :
    (live mem n).Nodup := by
  induction n with
  | zero => exact nodup_nil
  | succ n ih =>
    rw [live_succ]
    have hn := ih fun i hi j hj => h i (by omega) j (by omega)
    cases hlast : mem n with
    | none => simpa using hn
    | some e =>
      refine nodup_append'.2 ⟨hn, nodup_singleton e, ?_⟩
      intro e' he' hlist
      obtain rfl := mem_singleton.1 hlist
      obtain ⟨i, hi, hmem⟩ := mem_live.1 he'
      have := h i (by omega) n (by omega) e' hmem hlast
      omega

/-! ## Packing -/

theorem rank_succ_of_some (h : mem n = some e) : rank mem (n + 1) = rank mem n + 1 := by
  rw [rank, live_succ, h, length_append]
  rfl

theorem rank_succ_of_none (h : mem n = none) : rank mem (n + 1) = rank mem n := by
  rw [rank, live_succ, h, Option.toList_none, append_nil, rank]

theorem rank_mono (h : i ≤ n) : rank mem i ≤ rank mem n := by
  induction h with
  | refl => exact Nat.le_refl _
  | @step n _ ih =>
    cases hn : mem n with
    | none => rwa [Nat.succ_eq_add_one, rank_succ_of_none hn]
    | some e =>
      rw [Nat.succ_eq_add_one, rank_succ_of_some hn]
      omega

/-- A live item is moved to one of the first `rank n` slots. -/
theorem rank_lt (h : i < n) (hi : mem i = some e) : rank mem i < rank mem n := by
  have hmono : rank mem (i + 1) ≤ rank mem n := rank_mono h
  rw [rank_succ_of_some hi] at hmono
  exact hmono

theorem rank_le : rank mem n ≤ n := by
  rw [rank, live]
  exact Nat.le_trans (length_filterMap_le _ _) (by simp)

/-- An item without a dead slot before it stays where it is. -/
theorem rank_eq_self (h : ∀ j < i, mem j ≠ none) : rank mem i = i := by
  induction i with
  | zero => rfl
  | succ i ih =>
    obtain ⟨e, he⟩ := Option.ne_none_iff_exists'.1 (h i (by omega))
    rw [rank_succ_of_some he, ih fun j hj => h j (by omega)]

/-- Each of the first `rank n` slots receives the item of some slot. -/
theorem exists_rank_eq (h : j < rank mem n) : ∃ i < n, ∃ e, mem i = some e ∧ rank mem i = j := by
  induction n with
  | zero => exact absurd h (Nat.not_lt_zero _)
  | succ n ih =>
    by_cases hj : j < rank mem n
    · obtain ⟨i, hi, hrank⟩ := ih hj
      exact ⟨i, by omega, hrank⟩
    · cases hn : mem n with
      | none =>
        rw [rank_succ_of_none hn] at h
        exact absurd h hj
      | some e =>
        rw [rank_succ_of_some hn] at h
        exact ⟨n, by omega, e, hn, by omega⟩

/-- **Packing keeps the live items and their order.** -/
theorem live_packed (h : ∀ i < n, ∀ e, mem i = some e → mem' (rank mem i) = some e) :
    live mem' (rank mem n) = live mem n := by
  induction n with
  | zero => rfl
  | succ n ih =>
    have hlive := ih fun i hi => h i (by omega)
    cases hn : mem n with
    | none => rw [rank_succ_of_none hn, live_succ, hlive, hn, Option.toList_none, append_nil]
    | some e => rw [rank_succ_of_some hn, live_succ, live_succ, hlive, h n (by omega) e hn, hn]

end Slots
