/-
# What the iterators of `MapData` see

**The count is not the number of the iterators**: the destructor decrements `m_iteratorCount` and no
constructor increments it, so it is minus the number of iterators that have been destroyed
(`Holds.count`).  As long as none has been, an array with holes is packed under the iterators that
are alive, and an iterator then misses the entries that were moved behind it
(`packing_under_iterator`).

**Where the entries stay in their places, iteration is right** (`iteration_survives`): every
iterator stands on the entries in the order in which they were added, on each once, and leaves no
entry behind that was there when the iterator came to its place.
-/
import JavaScriptCore.Runtime.MapIterator
import Mathlib.Data.BitVec
import Mathlib.Data.List.GetD

namespace JavaScriptCore.Runtime.MapData

open Lib List Option

variable {d : MapData}

/-! ## 1. Moving an iterator -/

theorem toSize_natCast (n : Nat) : toSize n = n := rfl

/-- The loop stops at an entry or at the end, and passes holes only. -/
theorem skipHoles_spec (d : MapData) (remaining index : Nat) :
    index ≤ d.skipHoles remaining index ∧ d.skipHoles remaining index ≤ index + remaining ∧
      ∀ p, index ≤ p → p < d.skipHoles remaining index → (d.entry p).alive = false := by
  induction remaining generalizing index with
  | zero => exact ⟨le_rfl, le_rfl, fun p hle hlt => absurd hle (Nat.not_le.mpr hlt)⟩
  | succ remaining ih =>
    rw [skipHoles]
    split
    · exact ⟨le_rfl, by omega, fun p hle hlt => absurd hle (Nat.not_le.mpr hlt)⟩
    next hhole =>
      obtain ⟨hlo, hhi, hholes⟩ := ih (index + 1)
      refine ⟨by omega, by omega, fun p hle hlt => ?_⟩
      rcases Nat.eq_or_lt_of_le hle with rfl | hle
      · exact Bool.eq_false_iff.mpr hhole
      · exact hholes p hle hlt

theorem bmod_natCast {n : Nat} (h : n < 2 ^ 31) : (n : Int).bmod (2 ^ 32) = n :=
  Int.bmod_eq_of_le (by omega) (by omega)

/-- **`internalIncrement` goes on to the next entry.** -/
theorem internalIncrement_spec {m_index : Int} (hlo : -1 ≤ m_index) (hhi : m_index + 1 < 2 ^ 31)
    (hsize : d.m_size < 2 ^ 31) :
    m_index < d.internalIncrement m_index ∧ d.internalIncrement m_index < 2 ^ 31 ∧
      ∀ p < d.m_size, (d.entry p).alive → m_index < p → d.internalIncrement m_index ≤ p := by
  obtain ⟨n, hn⟩ : ∃ n : Nat, m_index + 1 = n := ⟨(m_index + 1).toNat, by omega⟩
  have hn' : n < 2 ^ 31 := by omega
  obtain ⟨hstart, hend, hholes⟩ := d.skipHoles_spec (d.m_size - n) n
  have hskip : d.skipHoles (d.m_size - n) n < 2 ^ 31 := by omega
  have heq : d.internalIncrement m_index = d.skipHoles (d.m_size - n) n := by
    unfold internalIncrement
    rw [hn, bmod_natCast hn', toSize_natCast, bmod_natCast hskip]
  rw [heq]
  refine ⟨by omega, by omega, fun p hp halive hlt => ?_⟩
  by_contra hle
  rw [hholes p (by omega) (by omega)] at halive
  cases halive

/-- `ensureSlot` stays where it is or moves like `++`. -/
theorem ensureSlot_cases (d : MapData) (m_index : Int) :
    (d.ensureSlot m_index).1 = m_index ∨
    (d.ensureSlot m_index).1 = d.internalIncrement m_index := by
  by_cases h : (toSize m_index < d.m_size && (d.entry (toSize m_index)).alive) = true
  · left
    unfold ensureSlot
    rw [if_pos h]
  · right
    unfold ensureSlot
    rw [if_neg h]

/-! ## 2. The array -/

/-- There is an array if there is a capacity, and the indices are numbers of `int32_t`. -/
structure Room (d : MapData) : Prop where
  space : d.m_size ≤ d.m_capacity
  fits : d.m_capacity < 2 ^ 31
  store : 0 < d.m_capacity → d.m_entries.isSome

theorem requiredSize_lt (d : MapData) : d.requiredSize < 2 ^ 31 := by
  have hint : (BitVec.ofNat 32 (d.m_capacity + d.m_capacity / 2 + 1)).toInt < 2 ^ 31 :=
    BitVec.toInt_lt
  rw [requiredSize, minimumMapSize]
  omega

theorem room_replace (destination : Nat → Entry) {newCapacity : Nat}
    (hle : d.m_size ≤ newCapacity) (hlt : newCapacity < 2 ^ 31) :
    (d.replace destination newCapacity).Room := by
  obtain ⟨hsize, hcapacity⟩ := replace_m_size_le (d := d) destination newCapacity
  refine ⟨by omega, by omega, fun _ => ?_⟩
  rw [replace]
  split <;> rfl

/-- The array with the times at which its entries were added. -/
def timelineOf (d : MapData) (born : Nat → Nat) (clock : Nat) : Timeline :=
  ⟨d.m_size, fun i => (d.entry i).alive, born, clock⟩

theorem m_iteratorCount_replace (destination : Nat → Entry) (newCapacity : Nat) :
    (d.replace destination newCapacity).m_iteratorCount = d.m_iteratorCount := by
  rw [replace]
  split <;> rfl

section Replace

variable {born : Nat → Nat} {clock : Nat}

/-- A replacement that does not pack leaves the entries where they are. -/
theorem shrinks_replace (hpack : d.shouldPack = false) (destination : Nat → Entry)
    (newCapacity : Nat) :
    (d.replace destination newCapacity).m_size = d.m_size ∧ (d.timelineOf born clock).Shrinks
      ((d.replace destination newCapacity).timelineOf (d.replaceBorn born) clock) := by
  rw [replace, replaceBorn, hpack]
  have hentry (i : Nat) (hi : i < d.m_size) :
      (d.replaceBackingStore destination newCapacity).entry i = d.entry i := if_pos hi
  exact ⟨rfl, rfl, fun i hi => ⟨hi.1, (congrArg Entry.alive (hentry i hi.1)).symm.trans hi.2⟩,
    fun _ _ => rfl⟩

/-- Packing counts the entries. -/
theorem m_size_replaceAndPack (destination : Nat → Entry) (newCapacity : Nat) :
    (d.replaceAndPackBackingStore destination newCapacity).m_size =
      ((List.range d.m_size).filter fun i => (d.entry i).alive).length := by
  have hend : (d.replaceAndPackBackingStore destination newCapacity).m_size =
      Slots.rank d.slot d.m_size := (Packing.loop_spec destination d.entry d.m_size).1
  have halive : (isSome ∘ d.slot) = fun i => (d.entry i).alive := by
    funext i
    rw [Function.comp, slot, Entry.slot]
    cases (d.entry i).alive <;> rfl
  rw [hend, Slots.rank, Slots.live, length_filterMap_eq_countP, countP_eq_length_filter]
  exact congrArg (fun f => ((range d.m_size).filter f).length) halive

/-- **A replacement keeps the order of insertion**, also when it packs. -/
theorem ordered_replace (h : (d.timelineOf born clock).Ordered) (destination : Nat → Entry)
    (newCapacity : Nat) :
    ((d.replace destination newCapacity).timelineOf (d.replaceBorn born) clock).Ordered := by
  cases hpack : d.shouldPack with
  | false => exact h.of_shrinks (shrinks_replace hpack destination newCapacity).2
  | true =>
    rw [replace, replaceBorn, hpack]
    set live := (range d.m_size).filter fun i => (d.entry i).alive
    -- slot `j` holds what was in the `j`th slot that is alive
    have hlive {j : Nat} (hj : j < (d.replaceAndPackBackingStore destination newCapacity).m_size) :
        ∃ hj : j < live.length, (d.timelineOf born clock).Live (live[j]) := by
      rw [m_size_replaceAndPack] at hj
      refine ⟨hj, ?_⟩
      have hmem := getElem_mem hj
      rw [mem_filter, mem_range] at hmem
      exact hmem
    have hsorted : live.Pairwise (· < ·) := pairwise_lt_range.filter _
    refine ⟨fun i j hij hi hj => ?_, fun i hi => ?_⟩
    · obtain ⟨hi', hilive⟩ := hlive hi.1
      obtain ⟨hj', hjlive⟩ := hlive hj.1
      have := h.increasing _ _ (pairwise_iff_getElem.mp hsorted i j hi' hj' hij) hilive hjlive
      rwa [← getD_eq_getElem _ 0 hi', ← getD_eq_getElem _ 0 hj'] at this
    · obtain ⟨hi', hilive⟩ := hlive hi.1
      have := h.past _ hilive
      rwa [← getD_eq_getElem _ 0 hi'] at this

/-- **`ensureSpaceForAppend`** leaves room, and the entries in their order. -/
theorem ensureSpaceForAppend_timeline (hroom : d.Room)
    (hordered : (d.timelineOf born clock).Ordered) {newStorage : Option (Nat → Entry)}
    {d₁ : MapData} (hgrow : d.m_capacity ≤ d.m_size → newStorage.isSome → d.GrowthFits)
    (h : d.ensureSpaceForAppend newStorage = some d₁) :
    d₁.Room ∧ d₁.m_size < d₁.m_capacity ∧ d₁.m_iteratorCount = d.m_iteratorCount ∧
      (d₁.timelineOf (d.appendBorn born) clock).Ordered := by
  rw [ensureSpaceForAppend] at h
  rw [appendBorn]
  split_ifs at h ⊢ with hspace
  · cases h
    exact ⟨hroom, hspace, rfl, hordered⟩
  · obtain ⟨newEntries, hstorage, rfl⟩ := map_eq_some_iff.mp h
    have hrequired := requiredSize_gt (hgrow (by omega) (by rw [hstorage]; rfl))
    have hspace' := hroom.space
    obtain ⟨hsize, hcapacity⟩ := replace_m_size_le (d := d) newEntries d.requiredSize
    refine ⟨room_replace newEntries (by omega) d.requiredSize_lt, by omega, ?_,
      ordered_replace hordered _ _⟩
    exact m_iteratorCount_replace newEntries d.requiredSize

/-- `ensureSpaceForAppend` leaves the entries in their places, if the array is not packed. -/
theorem ensureSpaceForAppend_shrinks {newStorage : Option (Nat → Entry)} {d₁ : MapData}
    (hpack : d.m_capacity ≤ d.m_size → newStorage.isSome → d.shouldPack = false)
    (h : d.ensureSpaceForAppend newStorage = some d₁) :
    d₁.m_size = d.m_size ∧
    (d.timelineOf born clock).Shrinks (d₁.timelineOf (d.appendBorn born) clock) := by
  rw [ensureSpaceForAppend] at h
  rw [appendBorn]
  split_ifs at h ⊢ with hspace
  · cases h
    exact ⟨rfl, rfl, fun _ hi => hi, fun _ _ => rfl⟩
  · obtain ⟨newEntries, hstorage, rfl⟩ := map_eq_some_iff.mp h
    exact shrinks_replace (hpack (by omega) (by rw [hstorage]; rfl)) newEntries d.requiredSize

/-- **An entry is appended.** -/
theorem appended_append (hroom : d.Room) (hspace : d.m_size < d.m_capacity) (key value : JSValue) :
    (d.append key value).Room ∧ (d.timelineOf born clock).Appended
      ((d.append key value).timelineOf (Function.update born d.m_size clock) (clock + 1)) := by
  obtain ⟨-, hcapacity, -, hentries⟩ := tableAdd_fields d (tableKey key) d.m_size
  have hsome := hroom.store (by omega)
  have hsize : (d.append key value).m_size = d.m_size + 1 := rfl
  have hcapacity' : (d.append key value).m_capacity = d.m_capacity := hcapacity
  have hentry (i : Nat) (hi : i ≠ d.m_size) : (d.append key value).entry i = d.entry i := by
    rw [entry_append hsome, if_neg hi]
  refine ⟨⟨by omega, hcapacity' ▸ hroom.fits, fun _ => ?_⟩, rfl, fun i hi => ?_, fun i hi _ => ?_,
    Function.update_self _ _ _⟩
  · rw [append, setEntry, isSome_map, hentries]
    exact hsome
  · by_cases hlast : i = d.m_size
    · exact .inr hlast
    · have hlt : i < d.m_size + 1 := hi.1
      exact .inl ⟨show i < d.m_size by omega,
        (congrArg Entry.alive (hentry i hlast)).symm.trans hi.2⟩
  · exact Function.update_of_ne hi.ne_size _ _

/-- A value is written: no slot dies or is revived. -/
theorem alive_setEntry_value (i j : Nat) (value : JSValue) :
    ((d.setEntry i { d.entry i with value := value }).entry j).alive = (d.entry j).alive := by
  cases hentries : d.m_entries with
  | none => simp [setEntry, entry, hentries]
  | some memory =>
    rw [entry_setEntry (by rw [hentries]; rfl)]
    split
    next hji =>
      rw [hji]
      rfl
    · rfl

/-- **`remove`** makes at most a hole. -/
theorem remove_shrinks (hroom : d.Room) (key : JSValue) :
    (d.remove key).1.Room ∧ (d.remove key).1.m_iteratorCount = d.m_iteratorCount ∧
      (d.timelineOf born clock).Shrinks ((d.remove key).1.timelineOf born clock) := by
  rw [remove]
  cases hk : d.lookup (tableKey key) with
  | none => exact ⟨hroom, rfl, rfl, fun _ hi => hi, fun _ _ => rfl⟩
  | some location =>
    obtain ⟨hsize, hcapacity, -, hentries⟩ := tableRemove_fields d (tableKey key)
    have hcount : (d.tableRemove (tableKey key)).m_iteratorCount = d.m_iteratorCount := by
      cases tableKey key <;> rfl
    refine ⟨⟨?_, ?_, fun hpos => ?_⟩, hcount, rfl, fun i hi => ⟨hi.1.trans_eq hsize, ?_⟩,
      fun _ _ => rfl⟩
    · exact (hsize.trans_le hroom.space).trans_eq hcapacity.symm
    · exact hcapacity.trans_lt hroom.fits
    · have hsome := hroom.store (hcapacity ▸ hpos)
      exact isSome_map.trans (hentries ▸ hsome)
    · -- an entry that is alive is not the one that was cleared
      have halive : (((d.tableRemove (tableKey key)).setEntry location ⟨.empty, .empty⟩).entry
          i).alive = true := hi.2
      have hsame : (d.tableRemove (tableKey key)).entry i = d.entry i := by
        rw [entry, entry, hentries]
      by_cases hnone : d.m_entries = none
      · simp [setEntry, entry, hentries, hnone, Entry.alive] at halive
      · rw [entry_setEntry (by rw [hentries]; exact isSome_iff_ne_none.mpr hnone)] at halive
        split at halive
        · cases halive
        · rw [hsame] at halive
          exact halive

end Replace

/-! ## 3. Runs -/

namespace IteratedData

/-- What holds of the object and of each iterator. -/
structure Holds (P : Timeline → Cursor → Prop) (w : IteratedData) : Prop where
  room : w.data.Room
  ordered : w.timeline.Ordered
  cursors : ∀ iterator ∈ w.iterators,
    P w.timeline iterator ∧ -1 ≤ iterator.position ∧ iterator.position < 2 ^ 31
  count : w.data.m_iteratorCount = -BitVec.ofNat 32 w.destroyed
  number : w.iterators.length + w.destroyed = w.created

variable {w w' : IteratedData}

theorem Holds.valid (h : w.Holds fun t c => c.Sound t) : w.Holds fun t c => c.Valid t :=
  ⟨h.room, h.ordered, fun iterator hmem => (h.cursors iterator hmem).imp_left fun hsound =>
    hsound.toValid, h.count, h.number⟩

/-- After every action the iterators look where they stand. -/
theorem Holds.observe (h : w.Holds fun t c => c.Valid t) :
    w.observe.Holds fun t c => c.Sound t where
  room := h.room
  ordered := h.ordered
  cursors := by
    intro iterator hmem
    obtain ⟨before, hbefore, rfl⟩ := mem_map.mp hmem
    rw [Cursor.observe_position]
    exact (h.cursors before hbefore).imp_left fun hvalid => hvalid.observe h.ordered
  count := h.count
  number := by
    rw [IteratedData.observe, length_map]
    exact h.number

section

variable (h : w.Holds fun t c => c.Valid t)

include h

/-- The object changes, and no slot but those that die. -/
theorem Holds.of_shrinks {d : MapData} (hroom : d.Room)
    (hcount : d.m_iteratorCount = w.data.m_iteratorCount)
    (hshrinks : w.timeline.Shrinks (d.timelineOf w.born w.clock)) :
    ({ w with data := d } : IteratedData).Holds fun t c => c.Valid t :=
  ⟨hroom, h.ordered.of_shrinks hshrinks, fun iterator hmem => (h.cursors iterator hmem).imp_left
    fun hvalid => hvalid.of_shrinks hshrinks, hcount.trans h.count, h.number⟩

/-- **`set`.** -/
theorem holds_afterSet {newStorage : Option (Nat → Entry)} {key : Key}
    {value : JSValue} (hcondition : w.Condition (.set newStorage key value)) {d : MapData}
    (hset : w.data.set newStorage (KeyType key.val) value = some d) :
    (w.afterSet key d).Holds fun t c => c.Valid t := by
  rcases set_cases hset with ⟨i, hk, rfl⟩ | ⟨hk, d₁, hspace, rfl⟩
  · -- a value is written
    rw [afterSet, if_pos (by rw [Key.table, hk]; rfl)]
    cases hfind : w.data.find (KeyType key.val) with
    | none => exact h
    | some j =>
      refine h.of_shrinks ⟨h.room.space, h.room.fits, fun hpos => ?_⟩ rfl ⟨rfl,
        fun i hi => ⟨hi.1, ?_⟩, fun _ _ => rfl⟩
      · exact isSome_map.trans (h.room.store hpos)
      · exact (alive_setEntry_value j i value).symm.trans hi.2
  · -- an entry is appended
    have hgrow (hfull : w.data.m_capacity ≤ w.data.m_size) (hstorage : newStorage.isSome) :=
      hcondition hk hfull hstorage
    obtain ⟨hroom, hspace', hcount, hordered⟩ := ensureSpaceForAppend_timeline h.room h.ordered
      (fun hfull hstorage => (hgrow hfull hstorage).1) hspace
    obtain ⟨hroom', happended⟩ := appended_append hroom hspace' (KeyType key.val) value
    have hlast : (d₁.append (KeyType key.val) value).m_size - 1 = d₁.m_size := rfl
    have hcount' : (d₁.append (KeyType key.val) value).m_iteratorCount = d₁.m_iteratorCount := by
      unfold append
      cases tableKey (KeyType key.val) <;> rfl
    rw [afterSet, if_neg (by rw [Key.table, hk]; decide), hlast]
    refine ⟨hroom', hordered.of_appended happended, fun iterator hmem => ?_,
      (hcount'.trans hcount).trans h.count, ?_⟩
    · obtain ⟨before, hbefore, rfl⟩ := mem_map.mp hmem
      -- there is an iterator, so the entries have not moved
      have hpack (hfull : w.data.m_capacity ≤ w.data.m_size) (hstorage : newStorage.isSome) :
          w.data.shouldPack = false :=
        (hgrow hfull hstorage).2.resolve_left (ne_nil_of_mem hbefore)
      obtain ⟨hsize, hshrinks⟩ := ensureSpaceForAppend_shrinks hpack hspace
      rw [Cursor.noteAppend_position]
      exact (h.cursors before hbefore).imp_left fun hvalid =>
        (hvalid.of_shrinks hshrinks).of_appended hordered happended
    · rw [length_map]
      exact h.number

/-- **A new iterator.** -/
theorem holds_construct {iterator : Cursor} (hvalid : iterator.Valid w.timeline ∧
      -1 ≤ iterator.position ∧ iterator.position < 2 ^ 31) :
    (w.construct iterator).Holds fun t c => c.Valid t where
  room := h.room
  ordered := h.ordered
  cursors := by
    intro other hmem
    rcases mem_append.mp hmem with hmem | hmem
    · exact h.cursors other hmem
    · rw [mem_singleton.mp hmem]
      exact hvalid
  count := h.count
  number := by
    have := h.number
    rw [construct, length_append, length_singleton]
    dsimp only
    omega

/-- A replacement of the array by the collector. -/
theorem holds_copyBackingStore (hkeeps : w.KeepsPlaces)
    (newEntries : Nat → Entry) (hact : w.act (.copyBackingStore newEntries) = some w') :
    w'.Holds fun t c => c.Valid t := by
  cases hact
  rw [copyBackingStore]
  cases hentries : w.data.m_entries with
  | none => exact h
  | some memory =>
    refine ⟨room_replace newEntries h.room.space h.room.fits, ordered_replace h.ordered _ _,
      fun iterator hmem => ?_, (m_iteratorCount_replace _ _).trans h.count, h.number⟩
    have hpack := hkeeps.resolve_left (ne_nil_of_mem hmem)
    exact (h.cursors iterator hmem).imp_left fun hvalid =>
      hvalid.of_shrinks (shrinks_replace hpack newEntries w.data.m_capacity).2

end

/-- **An iterator moves on**, or stays. -/
theorem holds_move (h : w.Holds fun t c => c.Sound t) {n : Nat} {position : Int → Int}
    (hposition : ∀ iterator ∈ w.iterators[n]?, position iterator.position = iterator.position ∨
      position iterator.position = w.data.internalIncrement iterator.position ∧
      iterator.position + 1 < 2 ^ 31)
    (hmove : w.move n position = some w') : w'.Holds fun t c => c.Valid t := by
  obtain ⟨iterator, hiterator, rfl⟩ := map_eq_some_iff.mp hmove
  have hmem : iterator ∈ w.iterators := mem_of_getElem? hiterator
  obtain ⟨hsound, hlo, hhi⟩ := h.cursors iterator hmem
  have hmoved : ({ iterator with position := position iterator.position } : Cursor).Valid
      w.timeline ∧ -1 ≤ position iterator.position ∧ position iterator.position < 2 ^ 31 := by
    rcases hposition iterator hiterator with hsame | ⟨hnext, hfits⟩
    · rw [hsame]
      exact ⟨hsound.toValid, hlo, hhi⟩
    · have hsize : w.data.m_size < 2 ^ 31 := h.room.space.trans_lt h.room.fits
      obtain ⟨hlt, hfits', hholes⟩ := internalIncrement_spec hlo hfits hsize
      rw [hnext]
      exact ⟨hsound.advance hlt fun p hp => hholes p hp.1 hp.2, by omega, hfits'⟩
  refine ⟨h.room, h.ordered, fun other hother => ?_, h.count, ?_⟩
  · rcases mem_or_eq_of_mem_set hother with hother | rfl
    · exact h.valid.cursors other hother
    · exact hmoved
  · rw [length_set]
    exact h.number

/-- **Every action under the condition.** -/
theorem act_holds {action : Action} (hcondition : w.Condition action)
    (h : w.Holds fun t c => c.Sound t) (hact : w.act action = some w') :
    w'.Holds fun t c => c.Valid t := by
  have hsame := h.valid
  cases action with
  | set newStorage key value =>
    rw [act] at hact
    cases hset : w.data.set newStorage (KeyType key.val) value with
    | none =>
      rw [hset] at hact
      exact some.inj hact ▸ hsame
    | some d =>
      rw [hset] at hact
      exact some.inj hact ▸ holds_afterSet hsame hcondition hset
  | remove key =>
    cases hact
    obtain ⟨hroom, hcount, hshrinks⟩ := remove_shrinks h.room (KeyType key.val)
    exact hsame.of_shrinks hroom hcount hshrinks
  | clear =>
    cases hact
    have hnone : w.iterators = [] := hcondition
    have hdead {i : Nat} (hi : (w.data.clear.timelineOf w.born w.clock).Live i) : False :=
      Nat.not_lt_zero i hi.1
    exact ⟨⟨Nat.le_refl 0, (show 0 < 2 ^ 31 by decide), fun hpos => absurd hpos (Nat.lt_irrefl 0)⟩,
      ⟨fun i j _ hi => (hdead hi).elim, fun i hi => (hdead hi).elim⟩,
      fun iterator hmem => absurd (hnone ▸ hmem) not_mem_nil, h.count, h.number⟩
  | copyBackingStore newEntries => exact holds_copyBackingStore hsame hcondition newEntries hact
  | begin =>
    have hact' : w.construct ⟨w.data.internalIncrement (-1), [], []⟩ = w' := some.inj hact
    have hsize : w.data.m_size < 2 ^ 31 := h.room.space.trans_lt h.room.fits
    obtain ⟨hlt, hfits, hholes⟩ := internalIncrement_spec (Int.le_refl (-1)) (by omega) hsize
    have hlo : -1 ≤ w.data.internalIncrement (-1) := Int.le_of_lt hlt
    have hahead (p : Nat) (hp : w.timeline.Live p) : w.data.internalIncrement (-1) ≤ p :=
      hholes p hp.1 hp.2 (by omega)
    generalize w.data.internalIncrement (-1) = position at *
    rw [← hact']
    exact holds_construct hsame ⟨.fresh hahead, hlo, hfits⟩
  | endIterator =>
    cases hact
    exact holds_construct hsame ⟨.fresh fun p _ => (show (-1 : Int) ≤ p by omega),
      Int.le_refl _, by decide⟩
  | copyIterator n =>
    obtain ⟨iterator, hiterator, rfl⟩ := map_eq_some_iff.mp hact
    exact holds_construct hsame (hsame.cursors iterator (mem_of_getElem? hiterator))
  | destroyIterator n =>
    obtain ⟨iterator, hiterator, rfl⟩ := map_eq_some_iff.mp hact
    have hlt : n < w.iterators.length := (List.getElem?_eq_some_iff.mp hiterator).1
    have hnumber := h.number
    refine ⟨⟨h.room.space, h.room.fits, h.room.store⟩, h.ordered,
      fun other hmem => hsame.cursors other (mem_of_mem_eraseIdx hmem), ?_, ?_⟩
    · have hcount : w.data.m_iteratorCount - 1 = -BitVec.ofNat 32 (w.destroyed + 1) := by
        rw [h.count, BitVec.ofNat_add, neg_add, sub_eq_add_neg]
        rfl
      exact hcount
    · rw [length_eraseIdx_of_lt hlt]
      dsimp only
      omega
  | increment n =>
    exact holds_move h (fun iterator hiterator => .inr ⟨rfl, hcondition iterator hiterator⟩) hact
  | ensureSlot n =>
    have hmove : w.move n (fun index => (w.data.ensureSlot index).1) = some w' := hact
    refine holds_move h (fun iterator hiterator => ?_) hmove
    exact (w.data.ensureSlot_cases iterator.position).imp_right fun hnext =>
      ⟨hnext, hcondition iterator hiterator⟩

/-- **Every step under the condition.** -/
theorem step_holds {action : Action} (hcondition : w.Condition action)
    (h : w.Holds fun t c => c.Sound t) (hstep : w.step action = some w') :
    w'.Holds fun t c => c.Sound t := by
  obtain ⟨acted, hact, rfl⟩ := map_eq_some_iff.mp hstep
  exact (act_holds hcondition h hact).observe

theorem initial_holds : initial.Holds fun t c => c.Sound t where
  room := ⟨Nat.le_refl 0, by decide, fun hpos => absurd hpos (Nat.lt_irrefl 0)⟩
  ordered :=
    ⟨fun i j _ hi => absurd hi.1 (Nat.not_lt_zero i), fun i hi => absurd hi.1 (Nat.not_lt_zero i)⟩
  cursors _ hmem := absurd hmem not_mem_nil
  count := rfl
  number := rfl

/-- **The iterator has seen what it should see.**  `visits` are the times of insertion of the
entries on which it has stood, `late` those of entries that were added behind it, at a place that it
had left before. -/
structure HasSeen (w : IteratedData) (iterator : Cursor) : Prop where
  /-- In the order of insertion, and each once. -/
  sorted : iterator.visits.Pairwise (· < ·)
  /-- No entry that is there has been passed over. -/
  behind : ∀ p : Nat, w.timeline.Live p → (p : Int) < iterator.position →
    w.born p ∈ iterator.visits ∨ w.born p ∈ iterator.late
  /-- The entry on which it stands. -/
  here : ∀ p : Nat, w.timeline.Live p → iterator.position = p → w.born p ∈ iterator.visits
  /-- What came too late is not visited. -/
  missed : ∀ b ∈ iterator.late, b ∉ iterator.visits

/-- **Iteration survives every change under the condition.**  The count is the number of the
iterators exactly if none has been created, up to a multiple of `2 ^ 32`. -/
theorem iteration_survives {actions : List Action} {w : IteratedData}
    (hrun : Transition.Run Condition step initial actions w) :
    (w.data.m_iteratorCount = BitVec.ofNat 32 w.iterators.length ↔ w.created % 2 ^ 32 = 0) ∧
      ∀ iterator ∈ w.iterators, w.HasSeen iterator := by
  have hkeep (w : IteratedData) (action : Action) (w' : IteratedData)
    (hcondition : w.Condition action)
      (h : w.Holds fun t c => c.Sound t) (hstep : w.step action = some w') : w'.Holds fun t c =>
        c.Sound t :=
    step_holds hcondition h hstep
  have h : w.Holds fun t c => c.Sound t := hrun.invariant hkeep initial_holds
  refine ⟨?_, fun iterator hmem => ?_⟩
  · have hnumber := h.number
    rw [h.count, ← BitVec.toNat_inj, BitVec.toNat_neg, BitVec.toNat_ofNat, BitVec.toNat_ofNat]
    omega
  · obtain ⟨hsound, -⟩ := h.cursors iterator hmem
    exact ⟨hsound.sorted, hsound.behind, hsound.stood, fun b hb => (hsound.missed b hb).1⟩

/-- The key that is a string of one character. -/
def keyOf (character : Nat) : Key := ⟨.string character [character], by simp⟩

/-- An iterator stands on the second of two entries.  The first one is removed, and the collector
moves the array, which is not packed as another iterator has been destroyed before. -/
theorem iteration_survives_copy : ∃ w, Transition.Run Condition step initial
    [.set (some fun _ => ⟨.empty, .empty⟩) (keyOf 97) (.int32 1), .set none (keyOf 98) (.int32 2),
      .endIterator, .destroyIterator 0, .begin, .increment 0, .remove (keyOf 97),
      .copyBackingStore fun _ => ⟨.empty, .empty⟩] w ∧
    ∀ iterator ∈ w.iterators, w.HasSeen iterator := by
  refine Exists.imp (fun w hrun => ⟨hrun, (iteration_survives hrun).2⟩) ?_
  refine ⟨_,
    .cons (fun _ _ _ => ⟨by decide, .inl rfl⟩) rfl
      (.cons (fun _ hfull _ => absurd hfull (by decide)) rfl
    (.cons trivial rfl (.cons trivial rfl (.cons trivial rfl (.cons ?_ rfl (.cons trivial rfl
    (.cons (.inr rfl) rfl .nil)))))))⟩
  have hfits {iterators : Option Cursor} (h : iterators = some ⟨0, [0], []⟩) (iterator : Cursor)
      (hmem : iterator ∈ iterators) : iterator.position + 1 < 2 ^ 31 := by
    cases h.symm.trans hmem
    decide
  exact hfits (by decide +kernel)

/-- **The array is packed under an iterator.**  An iterator of four entries stands on the third one.
The first two are removed, and the collector packs the array, as `m_iteratorCount` is zero.  The
fourth entry is then behind the iterator, which has not seen it. -/
theorem packing_under_iterator : ∃ w, Transition.Run (fun _ _ => True) step initial
    [.set (some fun _ => ⟨.empty, .empty⟩) (keyOf 97) (.int32 1), .set none (keyOf 98) (.int32 2),
      .set none (keyOf 99) (.int32 3), .set none (keyOf 100) (.int32 4), .begin, .increment 0,
      .increment 0, .remove (keyOf 97), .remove (keyOf 98),
      .copyBackingStore fun _ => ⟨.empty, .empty⟩] w ∧
    w.iterators.length = 1 ∧ w.data.m_iteratorCount = 0 ∧
    ∀ iterator ∈ w.iterators, ¬w.HasSeen iterator := by
  refine ⟨_,
    .cons trivial rfl (.cons trivial rfl (.cons trivial rfl (.cons trivial rfl (.cons trivial rfl
    (.cons trivial rfl (.cons trivial rfl
      (.cons trivial rfl (.cons trivial rfl (.cons trivial rfl .nil))))))))), rfl, rfl, ?_⟩
  intro iterator hmem hseen
  have honly {iterators : List Cursor} (h : iterators =
    [⟨2, [0, 1, 2], []⟩]) (hmem : iterator ∈ iterators) :
      iterator = ⟨2, [0, 1, 2], []⟩ := mem_singleton.mp (h ▸ hmem)
  obtain rfl := honly (by decide +kernel) hmem
  have hpassed := hseen.behind 1 (by decide) (by decide)
  exact absurd hpassed (by decide)

end IteratedData

end JavaScriptCore.Runtime.MapData
