/-
# Iterators of `MapData`

A `const_iterator` is an index into the entries of a `MapData`; `++` and `ensureSlot` move it on to
the next entry with a key.  The array must not be packed while there are iterators, and
`m_iteratorCount` is there to prevent it: the destructor decrements it.  No constructor increments
it.

A `World` is a `MapData` with all iterators of it that are alive.  For each entry it keeps the time
at which the entry was added (`born`), and for each iterator what it has seen (`Cursor`); these are
for the specification, and no function of the source reads them.
-/
import JavaScriptCore.Lib.Cursor
import JavaScriptCore.Runtime.MapDataSpec

namespace JavaScriptCore.Runtime.MapData

open Lib

/-! ## 1. The functions of an iterator -/

/-- The cast of an `int32_t` to `size_t`. -/
def toSize : Int → Nat
  | .ofNat n => n
  | .negSucc n => 2 ^ 64 - (n + 1)

/-- `while (index < end && !entries[index].key) index++`, with the number of slots before the end.
-/
def skipHoles (d : MapData) : Nat → Nat → Nat
  | 0, index => index
  | remaining + 1, index =>
    if (d.entry index).alive then index else skipHoles d remaining (index + 1)

/-- The new `m_index`. -/
def internalIncrement (d : MapData) (m_index : Int) : Int :=
  let index := toSize ((m_index + 1).bmod (2 ^ 32))
  ((d.skipHoles (d.m_size - index) index : Nat) : Int).bmod (2 ^ 32)

/-- The new `m_index`, and whether there is an entry. -/
def ensureSlot (d : MapData) (m_index : Int) : Int × Bool :=
  let index := toSize m_index
  if index < d.m_size && (d.entry index).alive then (m_index, true)
  else
    let m_index := d.internalIncrement m_index
    (m_index, toSize m_index < d.m_size)

/-- The `m_index` of a new iterator. -/
def begin (d : MapData) : Int := d.internalIncrement (-1)

/-- The `m_index` of the iterator `end`. -/
def endIndex : Int := -1

/-! ## 2. An object and its iterators -/

/-- The times of insertion after a replacement of the array: packing moves the entries together. -/
def replaceBorn (d : MapData) (born : Nat → Nat) : Nat → Nat :=
  if d.shouldPack then
    fun j => born (((List.range d.m_size).filter fun i => (d.entry i).alive).getD j 0)
  else born

/-- The times of insertion after `ensureSpaceForAppend`. -/
def appendBorn (d : MapData) (born : Nat → Nat) : Nat → Nat :=
  if d.m_capacity > d.m_size then born else d.replaceBorn born

/-- The object, the times at which its entries were added, and the iterators that are alive. -/
structure IteratedData where
  data : MapData
  born : Nat → Nat
  clock : Nat
  iterators : List Cursor
  created : Nat
  destroyed : Nat

namespace IteratedData

def initial : IteratedData := ⟨create, fun _ => 0, 0, [], 0, 0⟩

/-- The entries with the times at which they were added. -/
def timeline (w : IteratedData) : Timeline :=
  ⟨w.data.m_size, fun i => (w.data.entry i).alive, w.born, w.clock⟩

/-- Each iterator notes the entry on which it stands. -/
def observe (w : IteratedData) : IteratedData :=
  { w with iterators := w.iterators.map (·.observe w.timeline) }

/-- What happens to the object and to its iterators.  An iterator is given by its place among those
that are alive. -/
inductive Action where
  | set (newStorage : Option (Nat → Entry)) (key : Key) (value : JSValue)
  | remove (key : Key)
  | clear
  | copyBackingStore (newEntries : Nat → Entry)
  | begin
  | endIterator
  | copyIterator (n : Nat)
  | destroyIterator (n : Nat)
  | increment (n : Nat)
  | ensureSlot (n : Nat)

section

variable (w : IteratedData)

/-- A `set` that returns. -/
def afterSet (key : Key) (d : MapData) : IteratedData :=
  if (w.data.lookup key.table).isSome then { w with data := d }
  else
    -- a new entry is the last one
    { w with
      data := d
      born := Function.update (w.data.appendBorn w.born) (d.m_size - 1) w.clock
      clock := w.clock + 1
      iterators := w.iterators.map (·.noteAppend (d.m_size - 1) w.clock) }

/-- An iterator that is constructed. -/
def construct (iterator : Cursor) : IteratedData :=
  { w with iterators := w.iterators ++ [iterator], created := w.created + 1 }

/-- Moves an iterator. -/
def move (n : Nat) (position : Int → Int) : Option IteratedData :=
  w.iterators[n]?.map fun iterator =>
    { w with iterators := w.iterators.set n { iterator with
      position := position iterator.position } }

/-- The action itself. -/
def act : Action → Option IteratedData
  | .set newStorage key value =>
    match w.data.set newStorage (KeyType key.val) value with
    | none => some w
    | some d => some (w.afterSet key d)
  | .remove key => some { w with data := (w.data.remove (KeyType key.val)).1 }
  | .clear => some { w with data := w.data.clear }
  | .copyBackingStore newEntries =>
    some { w with
      data := w.data.copyBackingStore newEntries
      born := if w.data.m_entries.isNone then w.born else w.data.replaceBorn w.born }
  | .begin => some (w.construct ⟨w.data.begin, [], []⟩)
  | .endIterator => some (w.construct ⟨endIndex, [], []⟩)
  | .copyIterator n => w.iterators[n]?.map w.construct
  | .destroyIterator n => w.iterators[n]?.map fun _ =>
    { w with
      data := w.data.destroyIterator
      iterators := w.iterators.eraseIdx n
      destroyed := w.destroyed + 1 }
  | .increment n => w.move n w.data.internalIncrement
  | .ensureSlot n => w.move n fun index => (w.data.ensureSlot index).1

/-- One action, after which the iterators look where they stand. -/
def step (action : Action) : Option IteratedData := (w.act action).map observe

/-! ## 3. The condition -/

/-- A replacement of the array leaves the entries where they are, if there is an iterator. -/
def KeepsPlaces : Prop := w.iterators = [] ∨ w.data.shouldPack = false

/-- **The condition on the actions**: the array is not packed or cleared while there is an iterator,
and the numbers do not overflow. -/
def Condition : Action → Prop
  | .set newStorage key _ => w.data.lookup key.table = none → w.data.m_capacity ≤ w.data.m_size →
      newStorage.isSome → w.data.GrowthFits ∧ w.KeepsPlaces
  | .clear => w.iterators = []
  | .copyBackingStore _ => w.KeepsPlaces
  | .increment n | .ensureSlot n => ∀ iterator ∈ w.iterators[n]?, iterator.position + 1 < 2 ^ 31
  | _ => True

end

end IteratedData

end JavaScriptCore.Runtime.MapData
