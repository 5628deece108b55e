/-
# Sets of abstract heaps

`ClobberSet` keeps the heaps that were added in one map, together with their supertypes: `true` is
the mark of a heap that was added itself, `false` of one that is there for a subtype.  `add` stops
at the first supertype that it finds, which is right only because the supertypes of that one are
there too.

The code decodes the kind and the payload of a heap from the number by which heaps are compared.
Here they are the heap, and the number has them (`decode_m_value`).

**The set answers exactly** (`clobberSet_exact`): whatever is added, directly or with another set
and in any order, `contains` finds the heaps that were added and `overlaps` those that overlap with
one of them.
-/
import Mathlib.Algebra.Group.Int.Defs
import Mathlib.Algebra.Group.Nat.Defs
import JavaScriptCore.Lib.PartialMap

namespace JavaScriptCore.DFG

/-! ## 1. The hierarchy -/

/-- A value of at most 49 bits, which `encode` leaves room for. -/
structure Payload where
  value : Int
  bounded : -2 ^ 48 ≤ value ∧ value < 2 ^ 48

/-- A valid `AbstractHeap`: `World`, a kind, or a kind with a payload.  The kinds after `World` are
numbered, and may be as many as 14 bits can tell apart. -/
inductive AbstractHeap where
  | world
  | top (kind : Fin 16382)
  | payload (kind : Fin 16382) (value : Payload)

namespace AbstractHeap

/-- The fields do not overlap, so that the sum is what the bitwise `or` gives. -/
def encode (kind : Nat) (isTop : Bool) (value : Int) : Int :=
  kind + isTop.toNat * 2 ^ 14 + value * 2 ^ 15

/-- What heaps are compared by. -/
def m_value : AbstractHeap → Int
  | world => encode 1 true 0
  | top kind => encode (kind + 2) true 0
  | payload kind value => encode (kind + 2) false value.value

/-- The heaps that `supertype` leads to. -/
def supertypes : AbstractHeap → List AbstractHeap
  | world => []
  | top _ => [world]
  | payload kind _ => [top kind, world]

def isDisjoint : AbstractHeap → AbstractHeap → Bool
  | world, _ | _, world => false
  | top kind, top kind' | top kind, payload kind' _ | payload kind _, top kind' => kind ≠ kind'
  | payload kind value, payload kind' value' => kind ≠ kind' ∨ value.value ≠ value'.value

/-- `kind()`: the low 14 bits. -/
def kindOf (value : Int) : Nat := (value % 2 ^ 14).toNat

/-- `payloadImpl()`: the bit above the kind, and the bits above that one. -/
def payloadOf (value : Int) : Bool × Int := (value / 2 ^ 14 % 2 = 1, value / 2 ^ 15)

/-- `isDisjoint()`, on what heaps are compared by. -/
def isDisjointOf (v w : Int) : Bool :=
  if kindOf v = 1 ∨ kindOf w = 1 then false
  else if kindOf v ≠ kindOf w then true
  else if (payloadOf v).1 ∨ (payloadOf w).1 then false
  else (payloadOf v).2 ≠ (payloadOf w).2

/-- `supertype()`, of a heap other than `World`. -/
def supertypeOf (v : Int) : Int :=
  if (payloadOf v).1 then encode 1 true 0 else encode (kindOf v) true 0

theorem kindOf_encode {kind : Nat} (hkind : kind < 2 ^ 14) (isTop : Bool) (value : Int) :
    kindOf (encode kind isTop value) = kind := by
  unfold kindOf encode
  omega

theorem payloadOf_encode {kind : Nat} (hkind : kind < 2 ^ 14) (isTop : Bool) (value : Int) :
    payloadOf (encode kind isTop value) = (isTop, value) := by
  unfold payloadOf encode
  cases isTop <;> simp only [Bool.toNat_true, Bool.toNat_false, Prod.mk.injEq, decide_eq_true_eq,
    decide_eq_false_iff_not] <;> omega

/-- What a heap is compared by tells its kind and its payload. -/
theorem decode_m_value (a : AbstractHeap) : (kindOf a.m_value, payloadOf a.m_value) =
    match a with
    | world => (1, true, 0)
    | top kind => (kind + 2, true, 0)
    | payload kind value => (kind + 2, false, value.value) := by
  rcases a with _ | kind | ⟨kind, value⟩
  · rfl
  all_goals
    have hkind : kind.val + 2 < 2 ^ 14 := by omega
    rw [m_value, kindOf_encode hkind, payloadOf_encode hkind]

theorem m_value_inj {a b : AbstractHeap} : a.m_value = b.m_value ↔ a = b := by
  refine ⟨fun h => ?_, congrArg _⟩
  have hdecode := (decode_m_value a).symm.trans (h ▸ decode_m_value b)
  clear h
  rcases a with _ | k | ⟨k, v, hv⟩ <;> rcases b with _ | k' | ⟨k', v', hv'⟩ <;>
    simp only [Prod.mk.injEq, top.injEq, payload.injEq, Payload.mk.injEq,
      Fin.ext_iff] at hdecode ⊢ <;>
    grind

/-- **The code decides on the decoded fields what the model decides on the heaps.** -/
theorem isDisjoint_eq_isDisjointOf (a b : AbstractHeap) :
    a.isDisjoint b = isDisjointOf a.m_value b.m_value := by
  have ha := decode_m_value a
  have hb := decode_m_value b
  rcases a with _ | k | ⟨k, v, hv⟩ <;> rcases b with _ | k' | ⟨k', v', hv'⟩ <;>
    simp_all [isDisjoint, isDisjointOf, Fin.ext_iff]

theorem supertypeOf_m_value {a b : AbstractHeap} {l : List AbstractHeap}
    (h : a.supertypes = b :: l) :
    supertypeOf a.m_value = b.m_value ∧ b.supertypes = l := by
  have ha := decode_m_value a
  rcases a with _ | k | ⟨k, v⟩ <;> simp_all [supertypes, supertypeOf, m_value] <;>
    grind [supertypes, m_value]

/-- **Two heaps overlap if one is a supertype of the other.** -/
theorem isDisjoint_eq_false_iff {a b : AbstractHeap} :
    a.isDisjoint b = false ↔ b ∈ a :: a.supertypes ∨ a ∈ b.supertypes := by
  rcases a with _ | k | ⟨k, v, hv⟩ <;> rcases b with _ | k' | ⟨k', v', hv'⟩ <;>
    grind [isDisjoint, supertypes]

end AbstractHeap

/-! ## 2. The set -/

/-- The heaps of a set, by `m_value`, and whether they were added directly. -/
abbrev ClobberSet := PartialMap Int Bool

namespace ClobberSet

open AbstractHeap PartialMap

/-- The loop of `add`, which stops at the first heap that is there. -/
def addSupertypes (set : ClobberSet) : List AbstractHeap → ClobberSet
  | [] => set
  | heap :: heaps =>
    match set.find heap.m_value with
    | some _ => set
    | none => addSupertypes (PartialMap.add set heap.m_value false) heaps

def add (set : ClobberSet) (heap : AbstractHeap) : ClobberSet :=
  if set.find heap.m_value = some true then set
  else addSupertypes (set.set heap.m_value true) heap.supertypes

/-- What the loop of `addAll` does with an entry of the other set: `add` puts the value where there
was no entry. -/
def addEntry (set : ClobberSet) (entry : Int × Bool) : ClobberSet :=
  set.set entry.1 ((set.find entry.1).getD entry.2 || entry.2)

/-- `addAll`.  The loop visits each entry of the other set once, and writes to the entry of the same
key only; so the order does not matter (`foldl_addEntry`). -/
def addAll (set other : ClobberSet) : ClobberSet := fun key =>
  match other.find key with
  | none => set.find key
  | some value => some ((set.find key).getD value || value)

def contains (set : ClobberSet) (heap : AbstractHeap) : Bool := (set.find heap.m_value).getD false

def overlaps (set : ClobberSet) (heap : AbstractHeap) : Bool :=
  (set.find heap.m_value).isSome || heap.supertypes.any set.contains

/-- How a set is built. -/
inductive Building where
  | empty
  | add (b : Building) (heap : AbstractHeap)
  | addAll (b other : Building)

def Building.build : Building → ClobberSet
  | empty => .empty
  | add b heap => b.build.add heap
  | addAll b other => b.build.addAll other.build

/-- The heap was added directly. -/
def Building.Added : Building → AbstractHeap → Prop
  | empty, _ => False
  | add b heap, h => b.Added h ∨ h = heap
  | addAll b other, h => b.Added h ∨ other.Added h

/-! ## 3. Exactness -/

/-- **The set holds the heaps that were added, and their supertypes.** -/
structure Holds (set : ClobberSet) (S : AbstractHeap → Prop) : Prop where
  direct : ∀ h, set.find h.m_value = some true ↔ S h
  found : ∀ h, (set.find h.m_value).isSome ↔ ∃ a, S a ∧ h ∈ a :: a.supertypes

variable {set other : ClobberSet} {S T : AbstractHeap → Prop} {heap h : AbstractHeap}

theorem direct_addSupertypes (heaps : List AbstractHeap) :
    (set.addSupertypes heaps).find h.m_value = some true ↔ set.find h.m_value = some true := by
  induction heaps generalizing set with
  | nil => rfl
  | cons a heaps ih =>
    rw [addSupertypes]
    split
    · rfl
    · next hnone =>
      rw [ih, find_add hnone]
      split_ifs with hh
      · simp [hh, hnone]
      · rfl

theorem found_add (hnone : set.find heap.m_value = none) :
    ((PartialMap.add set heap.m_value false).find h.m_value).isSome ↔ (set.find h.m_value).isSome ∨
    h = heap := by
  rw [find_add hnone]
  by_cases hh : h = heap
  · simp [hh]
  · simp [hh, m_value_inj]

theorem found_addSupertypes_world : ((set.addSupertypes [world]).find h.m_value).isSome ↔
    (set.find h.m_value).isSome ∨ h = world := by
  rw [addSupertypes]
  split
  · next hfound =>
    refine ⟨.inl, fun hh => hh.elim id ?_⟩
    rintro rfl
    simp [hfound]
  · next hnone => rw [addSupertypes, found_add hnone]

/-- The loop may stop early, as what it finds has its own supertypes there. -/
theorem found_addSupertypes (hclosed : ∀ kind value, heap = payload kind value →
      (set.find (top kind).m_value).isSome → (set.find world.m_value).isSome) :
    ((set.addSupertypes heap.supertypes).find h.m_value).isSome ↔
      (set.find h.m_value).isSome ∨ h ∈ heap.supertypes := by
  cases heap with
  | world => simp [supertypes, addSupertypes]
  | top kind => simp [supertypes, found_addSupertypes_world]
  | payload kind value =>
    rw [supertypes, addSupertypes]
    split
    · next hfound =>
      have hworld := hclosed kind value rfl (by simp [hfound])
      grind
    · next hnone =>
      rw [found_addSupertypes_world, found_add hnone]
      simp [or_assoc]

theorem Holds.add (hset : Holds set S) : Holds (set.add heap) fun h => S h ∨ h = heap := by
  rw [ClobberSet.add]
  split_ifs with hdirect
  · have hheap := (hset.direct heap).1 hdirect
    refine ⟨fun h => ?_, fun h => ?_⟩
    · rw [hset.direct]
      grind
    · rw [hset.found]
      grind
  · refine ⟨fun h => ?_, fun h => ?_⟩
    · rw [direct_addSupertypes, find_set, ← hset.direct]
      by_cases hh : h = heap
      · simp [hh]
      · simp [hh, m_value_inj]
    · rw [found_addSupertypes, find_set]
      · by_cases hh : h = heap
        · simp [hh]
        · simp only [hh, m_value_inj, if_false, hset.found]
          grind
      · rintro kind value rfl
        simp only [find_set, m_value_inj, reduceCtorEq, if_false, hset.found]
        rintro ⟨a, ha, hmem⟩
        refine ⟨a, ha, ?_⟩
        cases a <;> simp_all [supertypes]

theorem find_addEntry (entry : Int × Bool) (key : Int) : (set.addEntry entry).find key =
    if key = entry.1 then some ((set.find key).getD entry.2 || entry.2) else set.find key := by
  rw [addEntry, find_set]
  split_ifs with hkey
  · rw [hkey]
  · rfl

theorem find_foldl_addEntry {entries : List (Int × Bool)} (hnodup : (entries.map Prod.fst).Nodup)
    (set : ClobberSet) (key : Int) :
    (∀ value, (key, value) ∈ entries →
      (entries.foldl addEntry set).find key = some ((set.find key).getD value || value)) ∧
    (key ∉ entries.map Prod.fst → (entries.foldl addEntry set).find key = set.find key) := by
  induction entries generalizing set with
  | nil => simp
  | cons entry entries ih =>
    obtain ⟨hnot, hnodup⟩ := List.nodup_cons.1 hnodup
    obtain ⟨hmem, hother⟩ := ih hnodup (set.addEntry entry)
    rw [find_addEntry] at hmem hother
    refine ⟨fun value hvalue => ?_, fun hkey => ?_⟩
    · rcases List.mem_cons.1 hvalue with rfl | hvalue
      · rw [List.foldl_cons, hother hnot, if_pos rfl]
      · have hne : key ≠ entry.1 := fun heq => hnot (heq ▸ List.mem_map_of_mem hvalue)
        rw [List.foldl_cons, hmem value hvalue, if_neg hne]
    · rw [List.map_cons, List.mem_cons, not_or] at hkey
      rw [List.foldl_cons, hother hkey.2, if_neg hkey.1]

/-- **The loop of `addAll`**, in whatever order the table of the other set lists its entries. -/
theorem foldl_addEntry {entries : List (Int × Bool)} (hnodup : (entries.map Prod.fst).Nodup)
    (hentries : ∀ key value, (key, value) ∈ entries ↔ other.find key = some value) :
    entries.foldl addEntry set = set.addAll other := by
  apply PartialMap.ext
  intro key
  obtain ⟨hmem, hother⟩ := find_foldl_addEntry hnodup set key
  change _ = match other.find key with
    | none => set.find key
    | some value => some ((set.find key).getD value || value)
  split
  · next hnone =>
    refine hother fun hkey => ?_
    obtain ⟨⟨key, value⟩, hentry, rfl⟩ := List.mem_map.1 hkey
    cases hnone.symm.trans ((hentries key value).1 hentry)
  · next value hsome => exact hmem value ((hentries key value).2 hsome)

theorem Holds.addAll (hset : Holds set S) (hother : Holds other T) :
    Holds (set.addAll other) fun h => S h ∨ T h := by
  have hfind (h : AbstractHeap) : (set.addAll other).find h.m_value =
    match other.find h.m_value with
      | none => set.find h.m_value
      | some value => some ((set.find h.m_value).getD value || value) := rfl
  refine ⟨fun h => ?_, fun h => ?_⟩
  · rw [← hset.direct, ← hother.direct, hfind]
    cases other.find h.m_value <;> cases set.find h.m_value <;> simp
  · simp only [or_and_right, exists_or, ← hset.found, ← hother.found, hfind]
    cases other.find h.m_value <;> simp

theorem holds_build (b : Building) : Holds b.build b.Added := by
  induction b with
  | empty => constructor <;> simp [Building.build, Building.Added]
  | add set heap ih => exact ih.add
  | addAll set other ih ih' => exact ih.addAll ih'

/-- **A set answers exactly**, however it was built. -/
theorem clobberSet_exact (b : Building) (h : AbstractHeap) :
    (b.build.overlaps h = true ↔ ∃ a, b.Added a ∧ a.isDisjoint h = false) ∧
      (b.build.contains h = true ↔ b.Added h) := by
  have hcontains (h : AbstractHeap) : b.build.contains h = true ↔ b.Added h := by
    rw [← (holds_build b).direct, contains]
    cases b.build.find h.m_value <;> simp
  refine ⟨?_, hcontains h⟩
  simp only [overlaps, Bool.or_eq_true, (holds_build b).found, List.any_eq_true, hcontains,
    isDisjoint_eq_false_iff]
  grind

end ClobberSet

end JavaScriptCore.DFG
