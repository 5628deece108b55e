/-
# Arrays

Three functions of `runtime/JSArray.cpp`.

* `unshiftCountSlowCase` makes room for elements in front of a vector or behind it.  **At the end
  the sizes can wrap**: the capacity is clamped to the largest one, but the vector gets room for
  `count` more elements all the same.
* `sortNumeric` moves the values of an array of integers to the front and calls the `qsort` of the C
  library.  **Its comparison is a difference**, which overflows where two values are far apart.  No
  script gets that far: `sort` calls `sortNumeric` for a comparator that the bytecode generator has
  recognised as numeric, and `isArgumentNumber`, which it asks, answers no for every parameter.
* `setLengthWithArrayStorage` removes the entries behind the new end, from the top, up to one that
  must not be deleted.
-/
import JavaScriptCore.Lib.Word
import Mathlib.Data.List.AList
import Mathlib.Data.List.ReduceOption

namespace JavaScriptCore.Runtime.JSArray

open Word List

/-! ## 1. The sizes in `unshiftCountSlowCase` -/

def MAX_STORAGE_VECTOR_LENGTH : Nat := 0x10000000
def BASE_VECTOR_LEN : Nat := 4
def minDensityMultiplier : Nat := 8

def isDenseEnoughForVector (length numValues : Nat) : Bool :=
  length / minDensityMultiplier ≤ numValues

/-- The sizes of an `ArrayStorage`. -/
structure StorageSizes where
  length : Nat
  vectorLength : Nat
  m_indexBias : Nat

/-- What `unshiftCountSlowCase` computes. -/
structure NewSizes where
  requiredVectorLength : Nat
  newStorageCapacity : Nat
  newVectorLength : Nat
  newIndexBias : Nat
  deriving DecidableEq

def desiredCapacity (requiredVectorLength : Nat) : Nat :=
  min MAX_STORAGE_VECTOR_LENGTH (max BASE_VECTOR_LEN requiredVectorLength * 2 % 2 ^ 32)

/-- Step 2; `allocates` is the answer of `tryAllocateStorage`. -/
def newStorageCapacity (currentCapacity requiredVectorLength : Nat) (allocates : Bool) :
    Option Nat :=
  if currentCapacity > desiredCapacity requiredVectorLength ∧
      isDenseEnoughForVector currentCapacity requiredVectorLength then some currentCapacity
  else if allocates then some (desiredCapacity requiredVectorLength)
  else none

/-- Step 3. -/
def postCapacity (storage : StorageSizes) (addToFront : Bool) (count free : Nat) : Nat :=
  if !addToFront then max free count
  else if storage.length < storage.vectorLength then
    min (sub 32 storage.vectorLength storage.length / 2) free
  else 0

def unshiftCountSlowCase (storage : StorageSizes) (allocates addToFront : Bool) (count : Nat) :
    Option NewSizes :=
  let usedVectorLength := min storage.vectorLength storage.length
  if count > sub 32 MAX_STORAGE_VECTOR_LENGTH usedVectorLength then none
  else
    let required := add 32 usedVectorLength count
    (newStorageCapacity (add 32 storage.vectorLength storage.m_indexBias) required allocates).map
      fun capacity =>
      let newVectorLength :=
        add 32 required (postCapacity storage addToFront count (sub 32 capacity required))
      ⟨required, capacity, newVectorLength, sub 32 capacity newVectorLength⟩

/-- The vector is long enough, and with the bias in front of it it fills its storage. -/
def NewSizes.Fit (sizes : NewSizes) : Prop :=
  sizes.requiredVectorLength ≤ sizes.newVectorLength ∧
    sizes.newVectorLength ≤ sizes.newStorageCapacity ∧
    sizes.newStorageCapacity ≤ MAX_STORAGE_VECTOR_LENGTH ∧
    sizes.newIndexBias + sizes.newVectorLength = sizes.newStorageCapacity

/-- The capacity is the largest one, or at least twice what is required. -/
theorem newStorageCapacity_spec {current required capacity : Nat} {allocates : Bool}
    (hcurrent : current ≤ MAX_STORAGE_VECTOR_LENGTH)
    (hrequired : required ≤ MAX_STORAGE_VECTOR_LENGTH)
    (h : newStorageCapacity current required allocates = some capacity) :
    required ≤ capacity ∧ capacity ≤ MAX_STORAGE_VECTOR_LENGTH ∧
      (capacity = MAX_STORAGE_VECTOR_LENGTH ∨ 2 * required ≤ capacity) := by
  have hdesired : desiredCapacity required =
      min MAX_STORAGE_VECTOR_LENGTH (max 4 required * 2) := by
    rw [desiredCapacity, Nat.mod_eq_of_lt]
    · rfl
    · simp only [MAX_STORAGE_VECTOR_LENGTH, BASE_VECTOR_LEN] at *
      omega
  rw [newStorageCapacity, hdesired] at h
  split_ifs at h with hkeep
  · cases h
    omega
  · cases h
    omega

/-- **The sizes fit exactly if the elements are added in front**, or there may be twice as many at
the end. -/
theorem unshiftCount_sizes_fit_iff (storage : StorageSizes) (allocates addToFront : Bool)
    (count : Nat) {sizes : NewSizes}
    (hstorage : storage.vectorLength + storage.m_indexBias ≤ MAX_STORAGE_VECTOR_LENGTH)
    (h : unshiftCountSlowCase storage allocates addToFront count = some sizes) :
    sizes.Fit ↔ addToFront = true ∨
      min storage.vectorLength storage.length + 2 * count ≤ MAX_STORAGE_VECTOR_LENGTH := by
  have hmax : MAX_STORAGE_VECTOR_LENGTH = 2 ^ 28 := rfl
  simp only [unshiftCountSlowCase] at h
  generalize hused : min storage.vectorLength storage.length = used at h ⊢
  have hcurrent : add 32 storage.vectorLength storage.m_indexBias =
      storage.vectorLength + storage.m_indexBias :=
    add_of_lt (by omega)
  rw [sub_of_le (by omega) (by omega), hcurrent] at h
  split_ifs at h with hcount
  rw [add_of_lt (by omega)] at h
  obtain ⟨capacity, hcapacity, rfl⟩ := Option.map_eq_some_iff.1 h
  obtain ⟨hle, hle', htwice⟩ := newStorageCapacity_spec hstorage (by omega) hcapacity
  rw [sub_of_le hle (by omega), NewSizes.Fit]
  generalize hpost : postCapacity storage addToFront count (capacity - (used + count)) = post
  cases addToFront with
  | true =>
    have hfree : post ≤ capacity - (used + count) := by
      rw [← hpost, postCapacity, if_neg (by decide)]
      split_ifs <;> omega
    rw [add_of_lt (by omega), sub_of_le (by omega) (by omega)]
    simp only [true_or, iff_true]
    omega
  | false =>
    obtain rfl : max (capacity - (used + count)) count = post := hpost
    rw [add_of_lt (by omega)]
    by_cases hfit : used + 2 * count ≤ MAX_STORAGE_VECTOR_LENGTH
    · rw [sub_of_le (by omega) (by omega)]
      simp only [hfit, or_true, iff_true]
      omega
    · simp only [hfit, Bool.false_eq_true, or_self, iff_false]
      omega

theorem unshiftCount_sizes_fit_two : (⟨3, 8, 8, 0⟩ : NewSizes).Fit ↔
    false = true ∨ min 2 2 + 2 * 1 ≤ MAX_STORAGE_VECTOR_LENGTH :=
  unshiftCount_sizes_fit_iff ⟨2, 2, 0⟩ true false 1 (by decide) rfl

/-- A vector that is almost full, and as many elements as a call can have arguments. -/
theorem unshiftCount_sizes_wrap :
    unshiftCountSlowCase ⟨2 ^ 28 - 70000, 2 ^ 28 - 70000, 0⟩ true false 65000 =
      some ⟨2 ^ 28 - 5000, 2 ^ 28, 2 ^ 28 + 60000, 2 ^ 32 - 60000⟩ := by
  decide

/-! ## 2. `sortNumeric` of an array of integers -/

/-- The difference; `none` where it is not an `int`. -/
def compareNumbersForQSortWithInt32 (ia ib : Int32) : Option Int :=
  let difference := ia.toInt - ib.toInt
  if -2 ^ 31 ≤ difference ∧ difference < 2 ^ 31 then some difference else none

/-- The second loop of `compactForSorting`, at `i`: the vector, and `numDefined`. -/
def compactSlot (s : List (Option Int32) × Nat) (i : Nat) : List (Option Int32) × Nat :=
  match s.1[i]?.join with
  | none => s
  | some v => (s.1.set s.2 (some v), s.2 + 1)

/-- `compactForSorting`: the vector, and `newRelevantLength`. -/
def compactForSorting (vector : List (Option Int32)) : List (Option Int32) × Nat :=
  let numDefined := (vector.takeWhile Option.isSome).length
  let s := (range' numDefined (vector.length - numDefined)).foldl compactSlot (vector, numDefined)
  ((range' s.2 (vector.length - s.2)).foldl (fun vector i => vector.set i none) s.1, s.2)

/-- The `qsort` of the C library: a comparison, and the values. -/
abbrev QSort := (Int32 → Int32 → Option Int) → List Int32 → List Int32

/-- `sortNumeric`, called from C++ with an array of integers; no script makes the engine call it. -/
def sortNumeric (qsort : QSort) (vector : List (Option Int32)) : List (Option Int32) :=
  let s := compactForSorting vector
  if s.2 = 0 then s.1
  else (qsort compareNumbersForQSortWithInt32 (s.1.take s.2).reduceOption).map some ++ s.1.drop s.2

/-- `a` may stand before `b`. -/
def NotAfter (compare : Int32 → Int32 → Option Int) (a b : Int32) : Prop :=
  ∃ d ≤ 0, compare a b = some d

/-- The comparison is a total preorder of the values, and does not overflow. -/
structure Consistent (compare : Int32 → Int32 → Option Int) (l : List Int32) : Prop where
  defined : ∀ a ∈ l, ∀ b ∈ l, compare a b ≠ none
  total : ∀ a ∈ l, ∀ b ∈ l, NotAfter compare a b ∨ NotAfter compare b a
  trans : ∀ a ∈ l, ∀ b ∈ l, ∀ c ∈ l, NotAfter compare a b → NotAfter compare b c →
    NotAfter compare a c

/-- What is assumed of `qsort`. -/
def QSort.Sorts (qsort : QSort) : Prop := ∀ compare l, Consistent compare l →
  (qsort compare l).Perm l ∧ (qsort compare l).Pairwise (NotAfter compare)

/-- The values in order, and then the holes. -/
def SortedCopy (vector sorted : List (Option Int32)) : Prop :=
  ∃ values : List Int32, sorted = values.map some ++ replicate (vector.length - values.length)
    none ∧ values.Perm vector.reduceOption ∧ values.Pairwise (·.toInt ≤ ·.toInt)

section Compaction

/-- The values go to the front; behind them the slots are as they were. -/
theorem foldl_compactSlot (values : List Int32) (stale vector : List (Option Int32)) :
    (range' (values.length + stale.length) vector.length).foldl compactSlot
        (values.map some ++ (stale ++ vector), values.length) =
      ((values ++ vector.reduceOption).map some ++
        (stale ++ vector).drop vector.reduceOption.length,
        (values ++ vector.reduceOption).length) := by
  induction vector generalizing values stale with
  | nil => simp
  | cons v vector ih =>
    have hv : (values.map some ++ (stale ++ v :: vector))[values.length + stale.length]? =
        some v := by simp
    rw [length_cons, range'_succ, foldl_cons, compactSlot, hv]
    cases v with
    | none =>
      have h := ih values (stale ++ [none])
      simpa [Nat.add_assoc] using h
    | some x =>
      have h := ih (values ++ [x]) (stale ++ [some x]).tail
      cases stale <;> simpa [Nat.add_assoc, Nat.add_comm 1, Nat.add_left_comm 1] using h

theorem foldl_clear (front back : List (Option Int32)) :
    (range' front.length back.length).foldl (fun vector i => vector.set i none) (front ++ back)
      = front ++ replicate back.length none := by
  induction back generalizing front with
  | nil => simp
  | cons v back ih =>
    have h := ih (front ++ [none])
    simpa [range'_succ, replicate_succ] using h

/-- The values in front of the first hole. -/
theorem exists_takeWhile_isSome (vector : List (Option Int32)) :
    ∃ (values : List Int32) (rest : List (Option Int32)),
    vector = values.map some ++ rest ∧ (vector.takeWhile Option.isSome).length = values.length := by
  induction vector with
  | nil => exact ⟨[], [], rfl, rfl⟩
  | cons v vector ih =>
    cases v with
    | none => exact ⟨[], none :: vector, rfl, rfl⟩
    | some x =>
      obtain ⟨values, rest, hvector, hlength⟩ := ih
      exact ⟨x :: values, rest, congrArg _ hvector, congrArg Nat.succ hlength⟩

/-- **The values in their order, and then the holes.** -/
theorem compactForSorting_spec (vector : List (Option Int32)) : compactForSorting vector =
    (vector.reduceOption.map some ++ replicate (vector.length - vector.reduceOption.length) none,
      vector.reduceOption.length) := by
  obtain ⟨values, rest, rfl, hfirst⟩ := exists_takeWhile_isSome vector
  have hreduce : (values.map some ++ rest).reduceOption = values ++ rest.reduceOption := by
    simp [reduceOption]
  have hmoved := foldl_compactSlot values [] rest
  have hclear :=
    foldl_clear ((values ++ rest.reduceOption).map some) (rest.drop rest.reduceOption.length)
  simp only [length_nil, Nat.add_zero, nil_append, length_map, length_append,
    length_drop] at hmoved hclear
  simp only [compactForSorting, hfirst, hreduce, length_append, length_map, Nat.add_sub_cancel_left,
    hmoved, Nat.add_sub_add_left, hclear]

end Compaction

/-- What is left of `sortNumeric`. -/
theorem sortNumeric_eq (qsort : QSort) (vector : List (Option Int32))
    (h : vector.reduceOption ≠ []) :
    sortNumeric qsort vector =
      (qsort compareNumbersForQSortWithInt32 vector.reduceOption).map some ++
      replicate (vector.length - vector.reduceOption.length) none := by
  have hvalues : (vector.reduceOption.map some).reduceOption = vector.reduceOption := by
    simp [reduceOption]
  simp only [sortNumeric, compactForSorting_spec]
  rw [if_neg (by simpa using h), take_left' (length_map _), drop_left' (length_map _), hvalues]

/-- A sort that gives nothing where nothing is assumed of it. -/
theorem exists_qsort : ∃ qsort : QSort, qsort.Sorts ∧ ∀ compare l, ¬ Consistent compare l →
    qsort compare l = [] := by
  classical
  have hsorted (compare : Int32 → Int32 → Option Int) (l : List Int32) : ∃ sorted : List Int32,
      (Consistent compare l → sorted.Perm l ∧ sorted.Pairwise (NotAfter compare)) ∧
        (¬ Consistent compare l → sorted = []) := by
    by_cases h : Consistent compare l
    · refine ⟨(l.attach.mergeSort fun a b => NotAfter compare a b).map Subtype.val,
        fun _ => ⟨?_, ?_⟩, absurd h⟩
      · exact ((mergeSort_perm _ _).map _).trans (by rw [attach_map_subtype_val])
      · refine pairwise_map.2 ((pairwise_mergeSort ?_ ?_ _).imp of_decide_eq_true)
        · simpa using fun a ha b hb c hc => h.trans a ha b hb c hc
        · simpa using h.total
    · exact ⟨[], fun hl => absurd hl h, fun _ => rfl⟩
  choose qsort hqsort using hsorted
  exact ⟨qsort, fun compare l => (hqsort compare l).1, fun compare l => (hqsort compare l).2⟩

section Sorting

variable {vector : List (Option Int32)}

theorem not_sorts_of_overflow {a b : Int32} (ha : a ∈ vector.reduceOption)
    (hb : b ∈ vector.reduceOption) (hab : ¬ a.toInt - b.toInt < 2 ^ 31) :
    ¬ ∀ qsort : QSort, qsort.Sorts → SortedCopy vector (sortNumeric qsort vector) := by
  intro h
  obtain ⟨qsort, hsorts, hnil⟩ := exists_qsort
  obtain ⟨values, hvalues, hperm, -⟩ := h qsort hsorts
  rw [sortNumeric_eq _ _ (ne_nil_of_mem ha), hnil _ _ fun hconsistent =>
    hconsistent.defined a ha b hb (if_neg fun hlt => hab hlt.2)] at hvalues
  have hmem := mem_append_left (replicate (vector.length - values.length) none)
    (mem_map_of_mem (f := some) (hperm.mem_iff.2 ha))
  rw [← hvalues] at hmem
  simp at hmem

/-- **The array is sorted exactly if no difference of two values overflows.** -/
theorem sortNumeric_sorts_iff (vector : List (Option Int32)) :
    (∀ qsort : QSort, qsort.Sorts → SortedCopy vector (sortNumeric qsort vector)) ↔
      ∀ a b, some a ∈ vector → some b ∈ vector → a.toInt - b.toInt < 2 ^ 31 := by
  simp only [← reduceOption_mem_iff]
  constructor
  · intro h a b ha hb
    by_contra hab
    exact not_sorts_of_overflow ha hb hab h
  · intro h qsort hsorts
    by_cases hne : vector.reduceOption = []
    · exact ⟨[], by simp [sortNumeric, compactForSorting_spec, hne]⟩
    · have hcompare {a b : Int32} (ha : a ∈ vector.reduceOption) (hb : b ∈ vector.reduceOption) :
          compareNumbersForQSortWithInt32 a b = some (a.toInt - b.toInt) :=
        if_pos ⟨by have := h b a hb ha; omega, h a b ha hb⟩
      have hle {a b : Int32} (ha : a ∈ vector.reduceOption) (hb : b ∈ vector.reduceOption) :
          NotAfter compareNumbersForQSortWithInt32 a b ↔ a.toInt ≤ b.toInt := by
        simp only [NotAfter, hcompare ha hb, Option.some.injEq, exists_eq_right']
        omega
      obtain ⟨hperm, hpairwise⟩ := hsorts compareNumbersForQSortWithInt32 vector.reduceOption
        { defined := fun a ha b hb => by simp [hcompare ha hb]
          total := fun a ha b hb => by simpa [hle, ha, hb] using Int.le_total a.toInt b.toInt
          trans := fun a ha b hb c hc => by simpa [hle, ha, hb, hc] using Int.le_trans }
      refine ⟨_, by rw [sortNumeric_eq _ _ hne, hperm.length_eq], hperm,
        hpairwise.imp_of_mem fun ha hb => ?_⟩
      exact (hle (hperm.mem_iff.1 ha) (hperm.mem_iff.1 hb)).1

/-- The largest value and a negative one: their difference is no `int`. -/
theorem sortNumeric_overflows : ¬ ∀ qsort : QSort, qsort.Sorts →
    SortedCopy [some 2147483647, some (-1)] (sortNumeric qsort [some 2147483647, some (-1)]) :=
  not_sorts_of_overflow mem_cons_self (mem_cons_of_mem _ mem_cons_self) (by decide)

end Sorting

/-! ## 3. `setLengthWithArrayStorage` -/

section Truncation

/-- A value and `attributes & DontDelete`. -/
structure SparseArrayEntry (V : Type) where
  value : V
  dontDelete : Bool

/-- The entries, in the order of the iterator. -/
abbrev Entries (V : Type) := AList fun _ : Nat => SparseArrayEntry V

structure SparseArrayValueMap (V : Type) where
  entries : Entries V
  sparseMode : Bool
  lengthIsReadOnly : Bool

structure ArrayStorage (V : Type) where
  length : Nat
  m_vector : List (Option V)
  m_numValuesInVector : Nat
  m_sparseMap : Option (SparseArrayValueMap V)

variable {V : Type}

def compareKeysForQSort (da db : Nat) : Int :=
  (if da > db then 1 else 0) - (if da < db then 1 else 0)

/-- The keys are removed in this order, up to one that must not be. -/
def removeKeys (map : Entries V) : List Nat → Entries V × Option Nat
  | [] => (map, none)
  | index :: keys =>
    match map.lookup index with
    | some ⟨_, true⟩ => (map, some index)
    | _ => removeKeys (map.erase index) keys

def eraseKeys (map : Entries V) : List Nat → Entries V
  | [] => map
  | key :: keys => eraseKeys (map.erase key) keys

def clearSlot (storage : ArrayStorage V) (i : Nat) : ArrayStorage V :=
  { storage with
    m_vector := storage.m_vector.set i none
    m_numValuesInVector :=
      sub 32 storage.m_numValuesInVector (storage.m_vector[i]?.join.elim 0 fun _ => 1) }

/-- What is done when the map is. -/
def truncateVector (storage : ArrayStorage V) (newLength : Nat) :
    ArrayStorage V × Except String Unit :=
  let slots := range' newLength (min storage.length storage.m_vector.length - newLength)
  ({ slots.foldl clearSlot storage with length := newLength }, .ok ())

/-- An error is what `reject` is called with. -/
def setLengthWithArrayStorage (storage : ArrayStorage V) (newLength : Nat) :
    ArrayStorage V × Except String Unit :=
  match storage.m_sparseMap with
  | none => truncateVector storage newLength
  | some map =>
    if map.lengthIsReadOnly then (storage, .error "Attempted to assign to readonly property.")
    else if newLength < storage.length then
      let keys := map.entries.keys.filter fun index => index < storage.length ∧ index ≥ newLength
      if map.sparseMode then
        -- the keys are distinct, so `qsort` has one result; its last key is the first to be removed
        let (entries, stopped) :=
          removeKeys map.entries (keys.mergeSort (compareKeysForQSort · · ≤ 0)).reverse
        let storage := { storage with m_sparseMap := some { map with entries := entries } }
        match stopped with
        | some index =>
          ({ storage with length := add 32 index 1 }, .error "Unable to delete property.")
        | none => truncateVector storage newLength
      else
        let entries := eraseKeys map.entries keys
        let sparseMap := if entries.keys.isEmpty then none else some { map with entries := entries }
        truncateVector { storage with m_sparseMap := sparseMap } newLength
    else truncateVector storage newLength

def ArrayStorage.entryAt (storage : ArrayStorage V) (i : Nat) : Option (SparseArrayEntry V) :=
  storage.m_sparseMap.bind fun map => map.entries.lookup i

/-- The array ends at `length`; what is below it is as it was. -/
def TruncatedTo (storage : ArrayStorage V) (length : Nat) (result : Except String Unit)
    (r : ArrayStorage V × Except String Unit) : Prop :=
  r.2 = result ∧ r.1.length = length ∧
    ∀ i, r.1.entryAt i = if i < length then storage.entryAt i else none

section Keys

variable {map : Entries V} {keys : List Nat} {i : Nat}

theorem lookup_eraseKeys : (eraseKeys map keys).lookup i = if i ∈ keys then none
      else map.lookup i := by
  induction keys generalizing map with
  | nil => rfl
  | cons k keys ih =>
    rw [eraseKeys, ih]
    by_cases hik : i = k
    · subst hik
      simp
    · simp [hik, AList.lookup_erase_ne]

/-- Without the keys from `length` on. -/
theorem lookup_eraseKeys_from {length : Nat} (h : ∀ i, i ∈ keys ↔ length ≤ i ∧ i ∈ map) :
    (eraseKeys map keys).lookup i = if i < length then map.lookup i else none := by
  rw [lookup_eraseKeys]
  split_ifs with hi hlt hlt
  · exact absurd ((h i).1 hi).1 (Nat.not_le.2 hlt)
  · rfl
  · rfl
  · exact AList.lookup_eq_none.2 fun hmem => hi ((h i).2 ⟨Nat.not_lt.1 hlt, hmem⟩)

/-- The keys that may be removed are. -/
theorem removeKeys_append (rest : List Nat) (h : ∀ i ∈ keys, ∀ e, map.lookup i = some e →
    e.dontDelete = false) :
    removeKeys map (keys ++ rest) = removeKeys (eraseKeys map keys) rest := by
  induction keys generalizing map with
  | nil => rfl
  | cons k keys ih =>
    rw [cons_append, removeKeys, eraseKeys, ← ih]
    · split
      · next heq => cases h k mem_cons_self _ heq
      · rfl
    · intro i hi e he
      by_cases hik : i = k
      · rw [hik, AList.lookup_erase] at he
        cases he
      · rw [AList.lookup_erase_ne hik] at he
        exact h i (mem_cons_of_mem _ hi) e he

/-- The keys from the top. -/
theorem pairwise_sortedKeys (h : keys.Nodup) :
    (keys.mergeSort (compareKeysForQSort · · ≤ 0)).reverse.Pairwise (· > ·) := by
  have hle (a b : Nat) : compareKeysForQSort a b ≤ 0 ↔ a ≤ b := by
    rw [compareKeysForQSort]
    split_ifs <;> omega
  have hsorted := @pairwise_mergeSort _ (compareKeysForQSort · · ≤ 0)
    (by simpa [hle] using fun _ _ _ => Nat.le_trans) (by simpa [hle] using Nat.le_total) keys
  have hnodup := (mergeSort_perm keys (compareKeysForQSort · · ≤ 0)).nodup_iff.2 h
  rw [pairwise_reverse]
  refine (hsorted.and hnodup).imp fun ⟨hab, hne⟩ => ?_
  exact Nat.lt_of_le_of_ne ((hle _ _).1 (of_decide_eq_true hab)) hne

end Keys

theorem m_sparseMap_truncateVector (storage : ArrayStorage V) (newLength : Nat) :
    (truncateVector storage newLength).1.m_sparseMap = storage.m_sparseMap := by
  rw [truncateVector]
  generalize range' _ _ = slots
  induction slots generalizing storage with
  | nil => rfl
  | cons i slots ih => exact ih (clearSlot storage i)

/-- **A truncation stops behind the last entry that must not be deleted**, and is rejected then.  An
array has no entry at its length or behind it. -/
theorem setLength_truncates {storage : ArrayStorage V} {map : SparseArrayValueMap V}
    {newLength : Nat} (hmap : storage.m_sparseMap = some map) (hsparse : map.sparseMode = true)
    (hwritable : map.lengthIsReadOnly = false) (hlength : newLength < storage.length)
    (hbound : storage.length < 2 ^ 32) (hkeys : ∀ i ∈ map.entries.keys, i < storage.length) :
    ((∀ i e, newLength ≤ i → storage.entryAt i = some e → e.dontDelete = false) →
      TruncatedTo storage newLength (.ok ()) (setLengthWithArrayStorage storage newLength)) ∧
    ∀ k e, newLength ≤ k → storage.entryAt k = some e → e.dontDelete = true →
      (∀ i e, k < i → storage.entryAt i = some e → e.dontDelete = false) →
      TruncatedTo storage (k + 1) (.error "Unable to delete property.")
        (setLengthWithArrayStorage storage newLength) := by
  have hentry (i : Nat) : storage.entryAt i = map.entries.lookup i := by
    rw [ArrayStorage.entryAt, hmap]
    rfl
  have hdesc :=
    pairwise_sortedKeys (map.entries.keys_nodup.filter fun i => i < storage.length ∧ i ≥ newLength)
  have hmem (i : Nat) : i ∈ (mergeSort (map.entries.keys.filter fun i => i < storage.length ∧
      i ≥ newLength) (compareKeysForQSort · · ≤ 0)).reverse ↔ newLength ≤ i ∧ i ∈ map.entries := by
    simp only [mem_reverse, mem_mergeSort, mem_filter, decide_eq_true_eq, ← AList.mem_keys]
    exact ⟨fun h => ⟨h.2.2, h.1⟩, fun h => ⟨h.2, hkeys i h.2, h.1⟩⟩
  unfold setLengthWithArrayStorage
  simp only [hmap, hwritable, hsparse, hlength, if_true, Bool.false_eq_true, if_false, hentry]
  generalize (mergeSort _ _).reverse = keys at hdesc hmem
  refine ⟨fun h => ?_, fun k e hk he hdont h => ?_⟩
  · have hall := removeKeys_append [] fun i hi e he => h i e ((hmem i).1 hi).1 he
    rw [append_nil, removeKeys] at hall
    rw [hall]
    refine ⟨rfl, rfl, fun i => ?_⟩
    rw [ArrayStorage.entryAt, m_sparseMap_truncateVector, hentry]
    exact lookup_eraseKeys_from hmem
  · -- the keys above `k` are removed, then `k` is met
    obtain ⟨above, below, rfl⟩ := append_of_mem
      ((hmem k).2 ⟨hk, AList.lookup_isSome.1 (Option.isSome_of_mem he)⟩)
    obtain ⟨-, hbelow, habove⟩ := pairwise_append.1 hdesc
    have hgt (i : Nat) (hi : i ∈ above) : k < i := habove i hi k mem_cons_self
    have hfrom (i : Nat) : i ∈ above ↔ k + 1 ≤ i ∧ i ∈ map.entries := by
      refine ⟨fun hi => ⟨hgt i hi, ((hmem i).1 (mem_append_left _ hi)).2⟩, fun ⟨hlt, hi⟩ => ?_⟩
      rcases mem_append.1 ((hmem i).2 ⟨by omega, hi⟩) with hi | hi
      · exact hi
      · rcases mem_cons.1 hi with rfl | hi
        · omega
        · have := (pairwise_cons.1 hbelow).1 i hi
          omega
    obtain ⟨value, dontDelete⟩ := e
    obtain rfl : dontDelete = true := hdont
    have hstop : (eraseKeys map.entries above).lookup k = some ⟨value, true⟩ := by
      rw [lookup_eraseKeys_from hfrom, if_pos (Nat.lt_succ_self k), he]
    rw [removeKeys_append _ fun i hi e he => h i e (hgt i hi) he, removeKeys, hstop]
    refine ⟨rfl, add_of_lt ?_, fun i => ?_⟩
    · have := hkeys k (AList.lookup_isSome.1 (Option.isSome_of_mem he))
      omega
    · rw [hentry]
      exact lookup_eraseKeys_from hfrom

/-- An array with one entry, which must not be deleted. -/
theorem setLength_stops_at_three :
    TruncatedTo (⟨5, [], 0, some ⟨.singleton 3 ⟨'a', true⟩, true, false⟩⟩ : ArrayStorage Char) 4
      (.error "Unable to delete property.")
      (setLengthWithArrayStorage ⟨5, [], 0, some ⟨.singleton 3 ⟨'a', true⟩, true, false⟩⟩ 1) := by
  refine (setLength_truncates rfl rfl rfl (by decide) (by decide) (by decide)).2 3 _
    (by decide) rfl rfl ?_
  intro i e hi he
  have hmem := AList.mem_keys.1 (AList.lookup_isSome.1 (Option.isSome_of_mem he))
  rw [AList.keys_singleton, mem_singleton] at hmem
  omega

end Truncation

end JavaScriptCore.Runtime.JSArray
