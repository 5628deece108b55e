/-
# `MapData` as an insertion-ordered map

What the component is for is a map from keys to values together with the order in which the keys
were first set (`World.values`, `World.order`).  A key is the text of a string, the address of
another cell, or another value, after `KeyType`.

**Two functions forget the table of the cells.**  `clear` does not empty it, and packing does not
give it the new indices.  The stale index is read later: after `set(o, v)`, `clear()`, `set("a",
w)`, the map says that it contains `o`, with the value `w` (`World.clear_keeps_cells`).

**Everything else is right** (`World.run_refines`): as long as `clear` is called without a cell
among the keys, and an array that is packed has no hole before the entry of a cell, every run of
operations and of replacements of the array refines the insertion-ordered map.
-/
import JavaScriptCore.Lib.Run
import JavaScriptCore.Lib.Slots
import JavaScriptCore.Runtime.MapData

namespace JavaScriptCore.Runtime.MapData

open Option Slots PartialMap

variable {d : MapData} {k k' : TableKey} {i j : Nat}

/-! ## 1. The invariant -/

/-- The key that an entry holds. -/
def Entry.slot (e : Entry) : Option TableKey := if e.alive then some (tableKey e.key) else none

def slot (d : MapData) (i : Nat) : Option TableKey := (d.entry i).slot

/-- The keys of the live entries in index order. -/
def order (d : MapData) : List TableKey := Slots.live d.slot d.m_size

/-- The values that the tables lead to. -/
def values (d : MapData) : PartialMap TableKey JSValue :=
  fun k => (d.lookup k).map fun i => (d.entry i).value

/-- **The tables index the entries.** -/
structure Consistent (d : MapData) : Prop where
  space : d.m_size ≤ d.m_capacity
  store : d.m_entries = none ↔ d.m_capacity = 0
  index : ∀ k i, d.lookup k = some i ↔ i < d.m_size ∧ d.slot i = some k
  count : d.m_deletedCount + d.order.length = d.m_size

theorem Entry.slot_of_ne {e : Entry} (h : e.key ≠ .empty) : e.slot = some (tableKey e.key) :=
  if_pos (decide_eq_true h)

theorem Entry.slot_empty (v : JSValue) : (⟨.empty, v⟩ : Entry).slot = none := rfl

theorem Entry.slot_none {e : Entry} (h : e.alive = false) : e.slot = none := by
  rw [slot, h]
  rfl

theorem values_find : d.values.find k = (d.lookup k).map fun i => (d.entry i).value := rfl

namespace Consistent

section

variable (h : d.Consistent)

include h

/-- Two slots do not hold the same key. -/
theorem slot_inj (hi : i < d.m_size) (hj : j < d.m_size) (hki : d.slot i = some k)
    (hkj : d.slot j = some k) : i = j :=
  some.inj (((h.index k i).2 ⟨hi, hki⟩).symm.trans ((h.index k j).2 ⟨hj, hkj⟩))

theorem mem_order : k ∈ d.order ↔ ∃ i, d.lookup k = some i := by
  rw [order, mem_live]
  exact exists_congr fun i => (h.index k i).symm

theorem notMem_order : k ∉ d.order ↔ d.lookup k = none := by
  rw [h.mem_order, eq_none_iff_forall_ne_some, not_exists]

theorem isSome_entries (hk : d.lookup k = some i) : d.m_entries.isSome := by
  have hi := ((h.index k i).1 hk).1
  have hspace := h.space
  cases hentries : d.m_entries with
  | none =>
    have := h.store.1 hentries
    omega
  | some memory => rfl

/-- A found index is one of the array. -/
theorem find_eq (key : JSValue) : d.find key = d.lookup (tableKey key) := by
  unfold find
  cases hk : d.lookup (tableKey key) with
  | none => rfl
  | some i =>
    obtain ⟨memory, hmemory⟩ := isSome_iff_exists.1 (h.isSome_entries hk)
    simp [hmemory]

theorem get_eq (key : JSValue) : d.get key = (d.values.find (tableKey key)).getD .empty := by
  rw [get, h.find_eq, values_find]
  cases d.lookup (tableKey key) <;> rfl

theorem contains_eq (key : JSValue) : d.contains key = (d.values.find (tableKey key)).isSome := by
  rw [contains, h.find_eq, values_find, isSome_map]

theorem size_eq : d.size = d.order.length := by
  have := h.count
  rw [size]
  omega

theorem nodup_order : d.order.Nodup :=
  nodup_live fun _ hi _ hj _ hki hkj => h.slot_inj hi hj hki hkj

end

end Consistent

/-! ## 2. Writing to the tables and to the array -/

theorem lookup_tableAdd (h : d.lookup k = none) :
    (d.tableAdd k i).lookup k' = if k' = k then some i else d.lookup k' := by
  cases k <;> cases k' <;> simp_all [tableAdd, lookup, find_add]

theorem lookup_tableRemove : (d.tableRemove k).lookup k' = if k' = k then none
      else d.lookup k' := by
  cases k <;> cases k' <;> simp [tableRemove, lookup, find_remove]

theorem entry_setEntry (h : d.m_entries.isSome) (e : Entry) :
    (d.setEntry i e).entry j = if j = i then e else d.entry j := by
  obtain ⟨memory, hmemory⟩ := isSome_iff_exists.1 h
  simp [setEntry, entry, hmemory, Function.update_apply]

theorem slot_setEntry (h : d.m_entries.isSome) (e : Entry) :
    (d.setEntry i e).slot j = if j = i then e.slot else d.slot j := by
  rw [slot, entry_setEntry h, slot]
  split_ifs <;> rfl

theorem tableAdd_fields (d : MapData) (k : TableKey) (i : Nat) :
    (d.tableAdd k i).m_size = d.m_size ∧ (d.tableAdd k i).m_capacity = d.m_capacity ∧
      (d.tableAdd k i).m_deletedCount = d.m_deletedCount ∧
      (d.tableAdd k i).m_entries = d.m_entries := by
  cases k <;> exact ⟨rfl, rfl, rfl, rfl⟩

theorem tableRemove_fields (d : MapData) (k : TableKey) :
    (d.tableRemove k).m_size = d.m_size ∧ (d.tableRemove k).m_capacity = d.m_capacity ∧
      (d.tableRemove k).m_deletedCount = d.m_deletedCount ∧
      (d.tableRemove k).m_entries = d.m_entries := by
  cases k <;> exact ⟨rfl, rfl, rfl, rfl⟩

/-! ## 3. Replacing the array -/

/-- **What the packing loop does.**  The entry of slot `i` goes to slot `rank i`, and its old place
is left with this number. -/
theorem Packing.loop_spec (destination memory : Nat → Entry) (n : Nat) :
    (loop destination memory n).newEnd = Slots.rank (fun i => (memory i).slot) n ∧
      (∀ i < n, ∀ k, (memory i).slot = some k →
        (loop destination memory n).destination (Slots.rank (fun i => (memory i).slot) i) = memory
          i ∧ ((loop destination memory n).entries i).value =
            .int32 (Slots.rank (fun i => (memory i).slot) i)) ∧
      ∀ i, n ≤ i → (loop destination memory n).entries i = memory i := by
  induction n with
  | zero => exact ⟨rfl, fun i hi => absurd hi (Nat.not_lt_zero i), fun i _ => rfl⟩
  | succ n ih =>
    obtain ⟨hend, hmoved, hrest⟩ := ih
    have hturn : loop destination memory (n + 1) = (loop destination memory n).turn n := by
      rw [loop, List.range_succ, List.foldl_append]
      rfl
    rw [hturn]
    generalize loop destination memory n = packed at *
    have hn : packed.entries n = memory n := hrest n (Nat.le_refl n)
    cases halive : (memory n).alive with
    | false =>
      have hslot : (memory n).slot = none := Entry.slot_none halive
      have hsame : packed.turn n = packed := by
        rw [turn, hn, halive]
        rfl
      rw [hsame, rank_succ_of_none hslot]
      refine ⟨hend, fun i hi k hk => ?_, fun i hi => hrest i (by omega)⟩
      have hne : i ≠ n := by
        rintro rfl
        rw [hslot] at hk
        cases hk
      exact hmoved i (by omega) k hk
    | true =>
      have hslot : (memory n).slot = some (tableKey (memory n).key) := by
        rw [Entry.slot, if_pos halive]
      have hnext : packed.turn n =
          { destination := Function.update packed.destination
              packed.newEnd (memory n)
            entries := Function.update packed.entries n
              { memory n with value := .int32 packed.newEnd }
            newEnd := packed.newEnd + 1 } := by
        rw [turn, hn, halive]
        rfl
      rw [hnext, hend, rank_succ_of_some hslot]
      refine ⟨rfl, fun i hi k hk => ?_, fun i hi => ?_⟩
      · by_cases hin : i = n
        · subst hin
          simp
        · -- the entries that were moved before stand below `newEnd`
          have hlt : i < n := by omega
          have hrank : rank (fun i => (memory i).slot) i <
              rank (fun i => (memory i).slot) n := rank_lt hlt hk
          have := hmoved i hlt k hk
          simpa [Function.update_of_ne hrank.ne, Function.update_of_ne hin] using this
      · simpa [Function.update_of_ne (show i ≠ n by omega)] using hrest i (by omega)

/-- A cell that is not a string. -/
def TableKey.isCell : TableKey → Bool
  | .cell _ => true
  | _ => false

/-- There is no hole before the entry of a cell, if the array is packed. -/
def PackSafe (d : MapData) : Prop :=
  d.shouldPack → ∀ i < d.m_size, (d.slot i).any TableKey.isCell → ∀ j < i, d.slot j ≠ none

instance : Decidable d.PackSafe :=
  inferInstanceAs (Decidable (_ → ∀ i < d.m_size, _ → ∀ j < i, d.slot j ≠ none))

/-- The object holds these values, with the keys in this order. -/
structure Holds (d : MapData) (values : PartialMap TableKey JSValue) (order : List TableKey) :
    Prop where
  consistent : d.Consistent
  values : d.values = values
  order : d.order = order

variable {d' : MapData}

variable (h : d.Consistent)

include h

/-- **Packing gives every key the index of its entry**, also the keys of the table that it leaves
alone, when it leaves their entries where they are. -/
theorem lookup_replaceAndPack (hsafe : d.PackSafe) (hpack : d.shouldPack)
    (destination : Nat → Entry) (newCapacity : Nat) (k : TableKey) :
    (d.replaceAndPackBackingStore destination newCapacity).lookup k =
      (d.lookup k).map (Slots.rank d.slot) := by
  obtain ⟨-, hmoved, -⟩ := Packing.loop_spec destination d.entry d.m_size
  have hindex (i : Nat) (hk : d.lookup k = some i) :
      asInt32 ((Packing.loop destination d.entry d.m_size).entries i).value = rank d.slot i := by
    obtain ⟨hi, hslot⟩ := (h.index k i).1 hk
    rw [(hmoved i hi k hslot).2]
    rfl
  cases k with
  | cell c =>
    have hsame : (d.replaceAndPackBackingStore destination newCapacity).lookup (.cell c) =
        d.lookup (.cell c) := rfl
    rw [hsame]
    cases hk : d.lookup (.cell c) with
    | none => rfl
    | some i =>
      obtain ⟨hi, hslot⟩ := (h.index _ i).1 hk
      have hstays := rank_eq_self (hsafe hpack i hi (by rw [hslot]; rfl))
      rw [map_some, hstays]
  | string text | value v => exact map_congr hindex

variable {newCapacity : Nat}

theorem replaceAndPack_sameMap (hsafe : d.PackSafe) (hpack : d.shouldPack)
    (destination : Nat → Entry) (hcapacity : d.m_size ≤ newCapacity) (hpos : 0 < newCapacity) :
    (d.replaceAndPackBackingStore destination newCapacity).Holds d.values d.order := by
  set d' := d.replaceAndPackBackingStore destination newCapacity
  obtain ⟨hend, hmoved, -⟩ := Packing.loop_spec destination d.entry d.m_size
  have hlookup := lookup_replaceAndPack h hsafe hpack destination newCapacity
  have hsize : d'.m_size = rank d.slot d.m_size := hend
  have hentry (i : Nat) (hi : i < d.m_size) (k : TableKey) (hk : d.slot i = some k) :
      d'.entry (rank d.slot i) = d.entry i := (hmoved i hi k hk).1
  have hslot (i : Nat) (hi : i < d.m_size) (k : TableKey) (hk : d.slot i = some k) :
      d'.slot (rank d.slot i) = some k := by
    rw [slot, hentry i hi k hk]
    exact hk
  have horder : d'.order = d.order := by
    rw [order, hsize]
    exact live_packed hslot
  have hle : rank d.slot d.m_size ≤ d.m_size := rank_le
  refine ⟨⟨?_, ?_, fun k j => ?_, ?_⟩, ext fun k => ?_, horder⟩
  · rw [hsize]
    exact hle.trans hcapacity
  · exact iff_of_false (by simp [d', replaceAndPackBackingStore]) hpos.ne'
  · rw [hlookup, map_eq_some_iff, hsize]
    constructor
    · rintro ⟨i, hk, rfl⟩
      obtain ⟨hi, hki⟩ := (h.index k i).1 hk
      exact ⟨rank_lt hi hki, hslot i hi k hki⟩
    · rintro ⟨hj, hk⟩
      obtain ⟨i, hi, k', hki, rfl⟩ := exists_rank_eq hj
      obtain rfl : k' = k := some.inj ((hslot i hi k' hki).symm.trans hk)
      exact ⟨i, (h.index _ i).2 ⟨hi, hki⟩, rfl⟩
  · rw [horder, hsize]
    exact Nat.zero_add _
  · rw [values_find, values_find, hlookup, map_map]
    refine map_congr fun i hk => ?_
    obtain ⟨hi, hki⟩ := (h.index k i).1 hk
    exact congrArg Entry.value (hentry i hi k hki)

theorem replaceBackingStore_sameMap (destination : Nat → Entry)
    (hcapacity : d.m_size ≤ newCapacity) (hpos : 0 < newCapacity) :
    (d.replaceBackingStore destination newCapacity).Holds d.values d.order := by
  set d' := d.replaceBackingStore destination newCapacity
  have hentry (i : Nat) (hi : i < d.m_size) : d'.entry i = d.entry i := if_pos hi
  have hslot (i : Nat) (hi : i < d.m_size) : d'.slot i = d.slot i := by
    rw [slot, hentry i hi, slot]
  have hlookup (k : TableKey) : d'.lookup k = d.lookup k := by
    cases k <;> rfl
  have horder : d'.order = d.order := live_congr hslot
  refine ⟨⟨hcapacity, ?_, fun k i => ?_, ?_⟩, ext fun k => ?_, horder⟩
  · exact iff_of_false (by simp [d', replaceBackingStore]) hpos.ne'
  · rw [hlookup, h.index]
    exact and_congr_right fun hi => by rw [hslot i hi]
  · rw [horder]
    exact h.count
  · rw [values_find, values_find, hlookup]
    refine map_congr fun i hk => ?_
    exact congrArg Entry.value (hentry i ((h.index k i).1 hk).1)

/-- **A replacement of the array does not change the map.** -/
theorem replace_sameMap (hsafe : d.PackSafe) (destination : Nat → Entry)
    (hcapacity : d.m_size ≤ newCapacity) (hpos : 0 < newCapacity) :
    (d.replace destination newCapacity).Holds d.values d.order := by
  rw [replace]
  split_ifs with hpack
  · exact replaceAndPack_sameMap h hsafe hpack destination hcapacity hpos
  · exact replaceBackingStore_sameMap h destination hcapacity hpos

theorem copyBackingStore_sameMap (hsafe : d.PackSafe) (newEntries : Nat → Entry) :
    (d.copyBackingStore newEntries).Holds d.values d.order := by
  rw [copyBackingStore]
  cases hentries : d.m_entries with
  | none => exact ⟨h, rfl, rfl⟩
  | some memory =>
    refine replace_sameMap h hsafe newEntries h.space (Nat.pos_of_ne_zero fun hzero => ?_)
    rw [h.store.2 hzero] at hentries
    cases hentries

omit h

/-- The capacity that growth asks for can be computed with `int32_t`. -/
def GrowthFits (d : MapData) : Prop := d.m_capacity + d.m_capacity / 2 + 1 < 2 ^ 31

instance : Decidable d.GrowthFits := inferInstanceAs (Decidable (_ < _))

theorem requiredSize_gt (h : d.GrowthFits) : d.m_capacity < d.requiredSize := by
  rw [GrowthFits] at h
  have hint : (BitVec.ofNat 32 (d.m_capacity + d.m_capacity / 2 + 1)).toInt =
      ((d.m_capacity + d.m_capacity / 2 + 1 : Nat) : Int) := by
    rw [BitVec.toInt_eq_toNat_cond, BitVec.toNat_ofNat,
      Nat.mod_eq_of_lt (show d.m_capacity + d.m_capacity / 2 + 1 < 2 ^ 32 by omega)]
    exact if_pos (by omega)
  rw [requiredSize, hint]
  omega

theorem replace_m_size_le (destination : Nat → Entry) (newCapacity : Nat) :
    (d.replace destination newCapacity).m_size ≤ d.m_size ∧
      (d.replace destination newCapacity).m_capacity = newCapacity := by
  rw [replace]
  split_ifs
  · refine ⟨?_, rfl⟩
    have hend : (d.replaceAndPackBackingStore destination newCapacity).m_size =
        rank d.slot d.m_size := (Packing.loop_spec destination d.entry d.m_size).1
    rw [hend]
    exact rank_le
  · exact ⟨le_rfl, rfl⟩

variable {newStorage : Option (Nat → Entry)}

include h

/-- **`ensureSpaceForAppend` leaves room for an entry.** -/
theorem ensureSpaceForAppend_spec (hgrow : d.m_capacity ≤ d.m_size → newStorage.isSome →
    d.PackSafe ∧ d.GrowthFits)
    (hd' : d.ensureSpaceForAppend newStorage = some d') :
    d'.Holds d.values d.order ∧ d'.m_size < d'.m_capacity := by
  rw [ensureSpaceForAppend] at hd'
  split_ifs at hd' with hroom
  · cases hd'
    exact ⟨⟨h, rfl, rfl⟩, hroom⟩
  · obtain ⟨newEntries, hstorage, rfl⟩ := map_eq_some_iff.1 hd'
    obtain ⟨hsafe, hfits⟩ := hgrow (by omega) (by rw [hstorage]; rfl)
    have hspace := h.space
    have hrequired := requiredSize_gt hfits
    obtain ⟨hsize, hcapacity⟩ := replace_m_size_le (d := d) newEntries d.requiredSize
    exact ⟨replace_sameMap h hsafe newEntries (by omega) (by omega), by omega⟩

/-! ## 4. Operations -/

/-- A key is set that has an entry: the value is overwritten. -/
theorem setEntry_value_spec (hk : d.lookup k = some i) (value : JSValue) :
    (d.setEntry i { d.entry i with value := value }).Holds (d.values.set k value) d.order := by
  set d' := d.setEntry i { d.entry i with value := value }
  have hsome := h.isSome_entries hk
  obtain ⟨hi, hki⟩ := (h.index k i).1 hk
  have hslot (j : Nat) : d'.slot j = d.slot j := by
    rw [slot_setEntry hsome]
    split_ifs with hj
    · rw [hj]
      rfl
    · rfl
  have hlookup (k : TableKey) : d'.lookup k = d.lookup k := by
    cases k <;> rfl
  have horder : d'.order = d.order := live_congr fun j _ => hslot j
  refine ⟨⟨h.space, ?_, fun k j => ?_, ?_⟩, ext fun k' => ?_, horder⟩
  · exact map_eq_none_iff.trans h.store
  · rw [hlookup, hslot]
    exact h.index k j
  · rw [horder]
    exact h.count
  · rw [values_find, hlookup, find_set, values_find]
    split_ifs with hkk
    · rw [hkk, hk, map_some, entry_setEntry hsome, if_pos rfl]
    · -- the entry of another key is another one
      refine map_congr fun j hj => ?_
      have hji : j ≠ i := by
        rintro rfl
        exact hkk (some.inj (((h.index k' j).1 hj).2.symm.trans hki))
      rw [entry_setEntry hsome, if_neg hji]

omit h

/-- The object with an entry appended for a key. -/
def append (d : MapData) (key value : JSValue) : MapData :=
  ({ d.tableAdd (tableKey key) d.m_size with m_size := d.m_size + 1 }).setEntry d.m_size
    ⟨key, value⟩

theorem entry_append (h : d.m_entries.isSome) (key value : JSValue) (j : Nat) :
    (d.append key value).entry j = if j = d.m_size then ⟨key, value⟩ else d.entry j := by
  obtain ⟨-, -, -, hentries⟩ := tableAdd_fields d (tableKey key) d.m_size
  rw [append, entry_setEntry (by rw [hentries]; exact h)]
  refine ite_congr rfl (fun _ => rfl) fun _ => ?_
  rw [entry, entry, hentries]

include h in
/-- A key is set that has no entry: one is appended. -/
theorem append_spec {key : JSValue} (hkey : key ≠ .empty)
    (hk : d.lookup (tableKey key) = none) (hroom : d.m_size < d.m_capacity) (value : JSValue) :
    (d.append key value).Holds (d.values.set (tableKey key) value) (d.order ++ [tableKey key]) := by
  obtain ⟨-, hcapacity, hdeleted, hentries⟩ := tableAdd_fields d (tableKey key) d.m_size
  have hnone : d.m_entries ≠ none := fun hnone => by
    have := h.store.1 hnone
    omega
  have hsome : d.m_entries.isSome := isSome_iff_ne_none.2 hnone
  have hsize : (d.append key value).m_size = d.m_size + 1 := rfl
  have hentry := entry_append hsome key value
  have hlast : (d.append key value).slot d.m_size = some (tableKey key) := by
    rw [slot, hentry, if_pos rfl]
    exact Entry.slot_of_ne hkey
  have hslot (j : Nat) (hj : j < d.m_size) : (d.append key value).slot j = d.slot j := by
    rw [slot, hentry, if_neg hj.ne, slot]
  have hlookup (k : TableKey) : (d.append key value).lookup k =
      if k = tableKey key then some d.m_size else d.lookup k := by
    rw [← lookup_tableAdd hk]
    cases k <;> rfl
  have horder : (d.append key value).order = d.order ++ [tableKey key] := by
    rw [order, hsize, live_succ, hlast, live_congr hslot]
    rfl
  refine ⟨⟨?_, ?_, fun k j => ?_, ?_⟩, ext fun k => ?_, horder⟩
  · exact hcapacity ▸ hroom
  · have hsome' : (d.append key value).m_entries ≠ none := by
      simpa [append, setEntry, hentries] using hnone
    refine iff_of_false hsome' fun hzero => ?_
    have hzero' : d.m_capacity = 0 := hcapacity ▸ hzero
    omega
  · rw [hlookup]
    rw [hsize]
    by_cases hj : j = d.m_size
    · subst hj
      rw [hlast]
      split_ifs with hkk
      · simp [hkk]
      · refine iff_of_false (fun hlook => ?_) fun hlook => hkk (some.inj hlook.2).symm
        exact absurd ((h.index k _).1 hlook).1 (Nat.lt_irrefl _)
    · have hlt : j < d.m_size + 1 ↔ j < d.m_size := by omega
      rw [hlt]
      have hold : d.lookup k = some j ↔ j < d.m_size ∧ (d.append key value).slot j = some k := by
        rw [h.index k j]
        exact and_congr_right fun hlt => by rw [hslot j hlt]
      rw [← hold]
      split_ifs with hkk
      · rw [hkk, hk]
        simp [Ne.symm hj]
      · rfl
  · have hdel : (d.append key value).m_deletedCount = d.m_deletedCount := hdeleted
    have hcount := h.count
    rw [horder, List.length_append, List.length_singleton, hsize, hdel]
    omega
  · rw [values_find, hlookup, find_set, values_find]
    split_ifs with hkk
    · rw [map_some, hentry, if_pos rfl]
    · refine map_congr fun j hj => ?_
      rw [hentry, if_neg ((h.index k j).1 hj).1.ne]

/-- **What `set` can do**: write the value of a key that is found, or append an entry. -/
theorem set_cases {key value : JSValue} (h : d.set newStorage key value = some d') :
    (∃ i, d.lookup (tableKey key) = some i ∧
      d' = (match d.find key with
        | none => d
        | some i => d.setEntry i { d.entry i with value := value })) ∨
    (d.lookup (tableKey key) = none ∧
      ∃ d₁, d.ensureSpaceForAppend newStorage = some d₁ ∧ d' = d₁.append key value) := by
  rw [set, add] at h
  cases hk : d.lookup (tableKey key) with
  | some i =>
    rw [hk] at h
    refine .inl ⟨i, rfl, ?_⟩
    cases hfind : d.find key with
    | none | some j =>
      rw [hfind] at h
      exact (some.inj h).symm
  | none =>
    simp only [hk, bind_eq_bind, bind_eq_some_iff, pure_def] at h
    obtain ⟨⟨d₂, location⟩, ⟨d₁, hspace, heq⟩, h⟩ := h
    refine .inr ⟨rfl, d₁, hspace, ?_⟩
    cases heq
    -- the value is written to the entry that has just been appended
    cases h
    obtain ⟨-, -, -, hentries⟩ := tableAdd_fields d₁ (tableKey key) d₁.m_size
    cases hmemory : d₁.m_entries with
    | none | some memory => simp [append, setEntry, entry, hentries, hmemory]

include h in
/-- **`set`**, when it does not throw. -/
theorem set_spec {key : JSValue} (hkey : key ≠ .empty)
    (hgrow : d.lookup (tableKey key) = none → d.m_capacity ≤ d.m_size → newStorage.isSome →
      d.PackSafe ∧ d.GrowthFits) {value : JSValue} (hd' : d.set newStorage key value = some d') :
    d'.Holds (d.values.set (tableKey key) value)
      (if tableKey key ∈ d.order then d.order else d.order ++ [tableKey key]) := by
  rcases set_cases hd' with ⟨i, hk, rfl⟩ | ⟨hk, d₁, hspace, rfl⟩
  · rw [h.find_eq, hk]
    rw [if_pos (h.mem_order.2 ⟨i, hk⟩)]
    exact setEntry_value_spec h hk value
  · obtain ⟨hsame, hroom⟩ := ensureSpaceForAppend_spec h (hgrow hk) hspace
    have hnew := h.notMem_order.2 hk
    rw [if_neg hnew, ← hsame.order, ← hsame.values]
    exact append_spec hsame.consistent hkey (hsame.consistent.notMem_order.1 (hsame.order ▸ hnew))
      hroom value

/-- The object without the key `k`, whose entry was `i`. -/
def unlink (d : MapData) (k : TableKey) (i : Nat) : MapData :=
  { (d.tableRemove k).setEntry i ⟨.empty, .empty⟩ with
    m_deletedCount := (d.tableRemove k).m_deletedCount + 1 }

include h

/-- A key is removed: its entry becomes a hole. -/
theorem unlink_spec (hk : d.lookup k = some i) :
    (d.unlink k i).Holds (d.values.remove k) (d.order.filter (· ≠ k)) := by
  obtain ⟨hi, hki⟩ := (h.index _ i).1 hk
  obtain ⟨hsize, hcapacity, hdeleted, hentries⟩ := tableRemove_fields d k
  have hsize' : (d.unlink k i).m_size = d.m_size := hsize
  have hsome := h.isSome_entries hk
  have hentry (j : Nat) : (d.unlink k i).entry j =
      if j = i then ⟨.empty, .empty⟩ else d.entry j := by
    refine (entry_setEntry (by rw [hentries]; exact hsome) _).trans ?_
    refine ite_congr rfl (fun _ => rfl) fun _ => ?_
    rw [entry, entry, hentries]
  have hdead : (d.unlink k i).slot i = none := by
    rw [slot, hentry, if_pos rfl]
    exact Entry.slot_empty _
  have hslot (j : Nat) (hj : j ≠ i) : (d.unlink k i).slot j = d.slot j := by
    rw [slot, hentry, if_neg hj, slot]
  have hother (k' : TableKey) (hk' : k' ≠ k) (j : Nat) (hj : d.lookup k' = some j) : j ≠ i := by
    rintro rfl
    exact hk' (some.inj (((h.index k' j).1 hj).2.symm.trans hki))
  have hlookup (k' : TableKey) :
      (d.unlink k i).lookup k' = if k' = k then none else d.lookup k' := by
    rw [← lookup_tableRemove]
    cases k' <;> rfl
  have horder : (d.unlink k i).order = d.order.filter (· ≠ k) := by
    rw [order, hsize']
    refine live_filter_ne (fun j hj hkj => ?_) fun j hj hkj => hslot j ?_
    · rw [h.slot_inj hj hi hkj hki]
      exact hdead
    · rintro rfl
      exact hkj hki
  have hlength : (d.unlink k i).order.length + 1 = d.order.length := by
    have hmem : k ∈ d.order := h.mem_order.2 ⟨i, hk⟩
    have herase : d.order.filter (· ≠ k) = d.order.erase k := by
      rw [h.nodup_order.erase_eq_filter]
      exact List.filter_congr fun k' _ => by by_cases hkk : k' = k <;> simp [hkk]
    rw [horder, herase, List.length_erase_of_mem hmem]
    exact Nat.succ_pred_eq_of_pos (List.length_pos_of_mem hmem)
  refine ⟨⟨?_, ?_, fun k' j => ?_, ?_⟩, ext fun k' => ?_, horder⟩
  · rw [hsize']
    exact hcapacity ▸ h.space
  · have hcapacity' : (d.unlink k i).m_capacity = d.m_capacity := hcapacity
    rw [hcapacity', ← h.store]
    exact map_eq_none_iff.trans (by rw [hentries])
  · rw [hlookup, hsize']
    by_cases hj : j = i
    · subst hj
      rw [hdead]
      refine iff_of_false (fun hlook => ?_) (by simp)
      split_ifs at hlook with hkk
      exact hother k' hkk j hlook rfl
    · rw [hslot j hj, ← h.index k' j]
      split_ifs with hkk
      · rw [hkk, hk]
        simp [Ne.symm hj]
      · rfl
  · have hdeleted' : (d.unlink k i).m_deletedCount = d.m_deletedCount + 1 :=
      congrArg (· + 1) hdeleted
    have hcount := h.count
    rw [hdeleted', hsize']
    omega
  · rw [values_find, hlookup, find_remove, values_find]
    split_ifs with hkk
    · rfl
    · refine map_congr fun j hj => ?_
      rw [hentry, if_neg (hother k' hkk j hj)]

/-- **`remove`.** -/
theorem remove_spec (key : JSValue) :
    (d.remove key).1.Holds (d.values.remove (tableKey key))
    (d.order.filter (· ≠ tableKey key)) := by
  rw [remove]
  cases hk : d.lookup (tableKey key) with
  | some i => exact unlink_spec h hk
  | none =>
    refine ⟨h, ext fun k => ?_, ?_⟩
    · rw [find_remove]
      split_ifs with hkk
      · rw [hkk, values_find, hk]
        rfl
      · rfl
    · refine (List.filter_eq_self.2 fun k hmem => decide_eq_true ?_).symm
      rintro rfl
      exact h.notMem_order.2 hk hmem

/-- **`clear`**, when no cell is a key. -/
theorem clear_spec (hcells : ∀ k ∈ d.order, k.isCell = false) :
    d.clear.Holds .empty [] := by
  have hlookup (k : TableKey) : d.clear.lookup k = none := by
    cases k with
    | cell c =>
      have hmem : .cell c ∉ d.order :=
        fun hmem => absurd (hcells _ hmem) (by simp [TableKey.isCell])
      exact h.notMem_order.1 hmem
    | string text | value v => rfl
  refine ⟨⟨le_rfl, iff_of_true rfl rfl, fun k i => ?_, rfl⟩, ext fun k => ?_, rfl⟩
  · rw [hlookup]
    exact iff_of_false (by simp) fun hi => absurd hi.1 (Nat.not_lt_zero i)
  · rw [values_find, hlookup]
    rfl

omit h

theorem create_consistent : create.Consistent :=
  ⟨le_rfl, iff_of_true rfl rfl, fun k i => iff_of_false (by cases k <;> simp [create, lookup])
      fun hi => absurd hi.1 (Nat.not_lt_zero i), rfl⟩

/-! ## 5. Runs -/

/-- The object, with the map that it should be. -/
structure World where
  data : MapData
  values : PartialMap TableKey JSValue
  order : List TableKey

/-- A value of the language: not the empty value. -/
abbrev Key := { v : JSValue // v ≠ .empty }

/-- What the users, the collector and the iterators do. -/
inductive Operation where
  | set (newStorage : Option (Nat → Entry)) (key : Key) (value : JSValue)
  | remove (key : Key)
  | clear
  | copyBackingStore (newEntries : Nat → Entry)
  | destroyIterator

/-- The key under which a value is known. -/
def Key.table (key : Key) : TableKey := tableKey (KeyType key.val)

theorem KeyType_ne_empty (key : Key) : KeyType key.val ≠ .empty := by
  obtain ⟨v, hv⟩ := key
  cases v with
  | empty => exact absurd rfl hv
  | double d =>
    simp only [KeyType]
    split_ifs <;> simp
  | _ => simp [KeyType]

/-- A call of `set` that throws has not set anything. -/
def World.step (w : World) : Operation → Option World
  | .set newStorage key value =>
    match w.data.set newStorage (KeyType key.val) value with
    | none => some w
    | some d => some ⟨d, w.values.set key.table value,
        if key.table ∈ w.order then w.order else w.order ++ [key.table]⟩
  | .remove key => some ⟨(w.data.remove (KeyType key.val)).1, w.values.remove key.table,
      w.order.filter (· ≠ key.table)⟩
  | .clear => some ⟨w.data.clear, .empty, []⟩
  | .copyBackingStore newEntries => some { w with data := w.data.copyBackingStore newEntries }
  | .destroyIterator => some { w with data := w.data.destroyIterator }

def World.initial : World := ⟨create, .empty, []⟩

/-- **The condition**: no cell is a key when the map is cleared; an array that is packed has no hole
before the entry of a cell; and the capacity does not overflow. -/
def World.Condition (w : World) : Operation → Prop
  | .set newStorage key _ => key.table ∉ w.order → w.data.m_capacity ≤ w.data.m_size →
      newStorage.isSome → w.data.PackSafe ∧ w.data.GrowthFits
  | .remove _ => True
  | .clear => ∀ k ∈ w.order, k.isCell = false
  | .copyBackingStore _ => w.data.PackSafe
  | .destroyIterator => True

instance (w : World) (op : Operation) : Decidable (w.Condition op) :=
  match op with
  | .set newStorage key _ => inferInstanceAs (Decidable (key.table ∉ w.order → _ ≤ _ →
      newStorage.isSome → w.data.PackSafe ∧ w.data.GrowthFits))
  | .remove _ => inferInstanceAs (Decidable True)
  | .clear => inferInstanceAs (Decidable (∀ k ∈ w.order, k.isCell = false))
  | .copyBackingStore _ => inferInstanceAs (Decidable w.data.PackSafe)
  | .destroyIterator => inferInstanceAs (Decidable True)

/-- **The object is the insertion-ordered map.** -/
structure World.Refines (w : World) : Prop where
  get : ∀ v, w.data.get (KeyType v) = (w.values.find (tableKey (KeyType v))).getD .empty
  contains : ∀ v, w.data.contains (KeyType v) = (w.values.find (tableKey (KeyType v))).isSome
  size : w.data.size = w.order.length
  keys : ∀ k, k ∈ w.order ↔ (w.values.find k).isSome
  nodup : w.order.Nodup
  order : w.data.order = w.order
  index : ∀ k i, w.data.lookup k = some i → i < w.data.m_size ∧ (w.data.entry i).slot = some k

theorem World.refines_of_holds {w : World} (h : w.data.Holds w.values w.order) : w.Refines where
  get v := by rw [h.consistent.get_eq, h.values]
  contains v := by rw [h.consistent.contains_eq, h.values]
  size := by rw [h.consistent.size_eq, h.order]
  keys k := by
    rw [← h.order, h.consistent.mem_order, ← h.values, values_find, isSome_map, isSome_iff_exists]
  nodup := h.order ▸ h.consistent.nodup_order
  order := h.order
  index k i hk := (h.consistent.index k i).1 hk

/-- **Every operation under the condition keeps the map.** -/
theorem World.step_holds {w w' : World} {op : Operation} (hop : w.Condition op)
    (h : w.data.Holds w.values w.order) (hstep : w.step op = some w') :
    w'.data.Holds w'.values w'.order := by
  obtain ⟨data, values, order⟩ := w
  obtain ⟨hcons, rfl, rfl⟩ : data.Holds values order := h
  cases op with
  | set newStorage key value =>
    rw [step] at hstep
    cases hset : data.set newStorage (KeyType key.val) value with
    | none =>
      rw [hset] at hstep
      cases hstep
      exact ⟨hcons, rfl, rfl⟩
    | some d =>
      rw [hset] at hstep
      cases hstep
      exact set_spec hcons (KeyType_ne_empty key) (fun hk => hop (hcons.notMem_order.2 hk)) hset
  | remove key =>
    cases hstep
    exact remove_spec hcons (KeyType key.val)
  | clear =>
    cases hstep
    exact clear_spec hcons hop
  | copyBackingStore newEntries =>
    cases hstep
    exact copyBackingStore_sameMap hcons hop newEntries
  | destroyIterator =>
    cases hstep
    have hlookup (k : TableKey) : data.destroyIterator.lookup k = data.lookup k := by
      cases k <;> rfl
    refine ⟨⟨hcons.space, hcons.store, fun k i => ?_, hcons.count⟩, ext fun k => ?_, rfl⟩
    · rw [hlookup]
      exact hcons.index k i
    · rw [values_find, hlookup]
      rfl

/-- **Every run under the condition refines the insertion-ordered map.** -/
theorem World.run_refines {ops : List Operation} {w : World}
    (hrun : Transition.Run Condition step initial ops w) : w.Refines := by
  refine refines_of_holds (hrun.invariant (fun _ _ _ => step_holds) ⟨create_consistent,
    ext fun k => ?_, rfl⟩)
  cases k <;> rfl

/-- A string and an object are set, the string is removed and the object read again. -/
theorem World.run_refines_strings : ∃ w, Transition.Run Condition step initial
    [.set (some fun _ => ⟨.empty, .empty⟩) ⟨.string 0 [97], by decide⟩ (.int32 1),
      .set none ⟨.cell 1, by decide⟩ (.int32 2), .remove ⟨.cell 1, by decide⟩,
      .copyBackingStore fun _ => ⟨.empty, .empty⟩, .clear] w ∧ w.Refines := by
  refine Exists.imp (fun w hrun => ⟨hrun, run_refines hrun⟩) ?_
  exact ⟨_, .cons (by decide) rfl (.cons (by decide) rfl (.cons trivial rfl (.cons (by decide) rfl
    (.cons (by decide) rfl .nil))))⟩

/-- **`clear` keeps the keys that are cells, and packing their old indices.**  After `set(o, 1)`,
`clear()`, `set("a", 2)` the map answers `2` for `o`.  After `set("a", 1)`, `set(o, 2)`,
`remove("a")` and a collection the map answers for `o` with what the new array holds behind the last
entry. -/
theorem World.clear_keeps_cells :
    (∃ w, Transition.Run (fun _ _ => True) step initial
      [.set (some fun _ => ⟨.empty, .empty⟩) ⟨.cell 1, by decide⟩ (.int32 1), .clear,
        .set (some fun _ => ⟨.empty, .empty⟩) ⟨.string 0 [97], by decide⟩ (.int32 2)] w ∧
      w.values.find (.cell 1) = none ∧ w.data.contains (.cell 1) = true ∧
      w.data.get (.cell 1) = .int32 2 ∧ ¬ w.Refines) ∧
    ∀ junk : JSValue, ∃ w, Transition.Run (fun _ _ => True) step initial
      [.set (some fun _ => ⟨.empty, .empty⟩) ⟨.string 0 [97], by decide⟩ (.int32 1),
        .set none ⟨.cell 1, by decide⟩ (.int32 2), .remove ⟨.string 0 [97], by decide⟩,
        .copyBackingStore fun _ => ⟨.empty, junk⟩] w ∧
      w.values.find (.cell 1) = some (.int32 2) ∧ w.data.get (.cell 1) = junk := by
  constructor
  · refine ⟨_, .cons trivial rfl (.cons trivial rfl (.cons trivial rfl .nil)), rfl, rfl, rfl, ?_⟩
    intro h
    exact absurd (h.contains (.cell 1)) (by decide)
  · intro junk
    exact ⟨_, .cons trivial rfl (.cons trivial rfl (.cons trivial rfl (.cons trivial rfl .nil))),
      rfl, rfl⟩

end JavaScriptCore.Runtime.MapData
