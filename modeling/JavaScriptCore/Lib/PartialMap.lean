/-
# Partial maps with the operations of a hash map

What a client of a hash map sees of it: a partial function from keys to values.  `add` keeps a value
that is already there, as the `add` of most C++ hash maps does; `set` overwrites; `remove` takes the
key out.  Every operation is described by what `find` returns afterwards.

`Indexes m l key` says that the map is an index of the items `l` by their `key`: it holds each of
them under its own key, and nothing else.  Removing and adding an item keep it so.
-/
import Mathlib.Data.List.Perm.Basic

/-- A partial map from `κ` to `α`. -/
def PartialMap (κ α : Type*) := κ → Option α

namespace PartialMap

variable {κ α : Type*}

def empty : PartialMap κ α := fun _ => none

def find (m : PartialMap κ α) (k : κ) : Option α := m k

@[ext] theorem ext {m m' : PartialMap κ α} (h : ∀ k, m.find k = m'.find k) : m = m' := funext h

@[simp] theorem find_empty {k : κ} : (empty : PartialMap κ α).find k = none := rfl

/-- Change every value. -/
def mapValues (m : PartialMap κ α) (f : α → α) : PartialMap κ α := fun k => (m k).map f

variable [DecidableEq κ]

/-- Overwrite the value of `k`. -/
def set (m : PartialMap κ α) (k : κ) (v : α) : PartialMap κ α :=
  fun k' => if k' = k then some v else m k'

/-- Add `k` with the value `v`, unless `k` has a value. -/
def add (m : PartialMap κ α) (k : κ) (v : α) : PartialMap κ α :=
  match m k with
  | some _ => m
  | none => m.set k v

def remove (m : PartialMap κ α) (k : κ) : PartialMap κ α :=
  fun k' => if k' = k then none else m k'

variable {m : PartialMap κ α} {k k' : κ} {v : α}

theorem find_set : (m.set k v).find k' = if k' = k then some v else m.find k' := rfl

theorem find_remove : (m.remove k).find k' = if k' = k then none else m.find k' := rfl

/-- `add` on a key without a value is `set`. -/
theorem add_eq_set (h : m.find k = none) : m.add k v = m.set k v := by
  have hk : m k = none := h
  rw [add, hk]

theorem find_add (h : m.find k = none) : (m.add k v).find k' = if k' = k then some v
      else m.find k' := by
  rw [add_eq_set h, find_set]

/-- A value that is there stays; otherwise the new one is found under its key. -/
theorem find_add_or : (m.add k v).find k' = (m.find k').or (if k' = k then some v else none) := by
  cases hk : m.find k with
  | none =>
    rw [find_add hk]
    split_ifs with heq
    · rw [heq, hk]
      rfl
    · rw [Option.or_none]
  | some w =>
    have hadd : m.add k v = m := by
      have hk' : m k = some w := hk
      rw [add, hk']
    rw [hadd]
    split_ifs with heq
    · rw [heq, hk]
      rfl
    · rw [Option.or_none]

/-- Taking a key out and adding it back with the value it had changes nothing. -/
theorem add_remove_self (h : m.find k = some v) : (m.remove k).add k v = m := by
  apply ext
  intro k'
  rw [find_add (by rw [find_remove, if_pos rfl]), find_remove]
  split_ifs with hk
  · rw [hk, h]
  · rfl

theorem remove_comm (k k' : κ) : (m.remove k).remove k' = (m.remove k').remove k := by
  apply ext
  intro j
  simp only [find_remove]
  split_ifs <;> rfl

/-! ## Maps that index items by a key -/

/-- The map holds exactly the items of `l`, each under its key. -/
def Indexes (m : PartialMap κ α) (l : List α) (key : α → κ) : Prop :=
  ∀ k x, m.find k = some x ↔ x ∈ l ∧ key x = k

variable {l l' : List α} {key : α → κ} {x : α}

variable (h : m.Indexes l key)

include h

omit [DecidableEq κ] in
theorem Indexes.find_key (hx : x ∈ l) : m.find (key x) = some x := (h _ x).2 ⟨hx, rfl⟩

omit [DecidableEq κ] in
/-- No item has a key that is not in the map. -/
theorem Indexes.key_ne (hk : m.find k = none) (hx : x ∈ l) : key x ≠ k := by
  rintro rfl
  rw [h.find_key hx] at hk
  cases hk

theorem Indexes.remove [DecidableEq α] (hl : l.Nodup) (hx : x ∈ l) :
    (m.remove (key x)).Indexes (l.erase x) key := by
  intro k y
  rw [hl.mem_erase_iff, and_assoc, ← h k y, find_remove]
  split_ifs with hk
  · -- the entry removed was the one of `x`
    rw [hk, h.find_key hx]
    simp [eq_comm]
  · refine ⟨fun hy => ⟨?_, hy⟩, fun hy => hy.2⟩
    rintro rfl
    exact hk ((h k y).1 hy).2.symm

/-- The new item may be one whose key was changed meanwhile, as long as it was not in the map. -/
theorem Indexes.add (key' : α → κ) (hx : x ∉ l) (hl : l'.Perm (x :: l))
    (hkey : ∀ y ∈ l, key' y = key y) (hfree : m.find (key' x) = none) :
    (m.add (key' x) x).Indexes l' key' := by
  intro k y
  rw [find_add hfree, hl.mem_iff, List.mem_cons]
  by_cases hy : y = x
  · subst hy
    split_ifs with hk
    · simp [hk]
    · have : m.find k ≠ some y := fun hf => hx ((h k y).1 hf).1
      simp [this, Ne.symm hk]
  · rw [or_iff_right hy]
    split_ifs with hk
    · refine ⟨fun e => absurd (Option.some.inj e).symm hy, fun ⟨hmem, hkey'⟩ => ?_⟩
      rw [hkey y hmem, hk] at hkey'
      exact absurd hkey' (h.key_ne hfree hmem)
    · rw [h k y]
      exact and_congr_right fun hmem => by rw [hkey y hmem]

omit h

end PartialMap
