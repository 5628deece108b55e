/-
# `MapData`: the store behind `Map` and `Set`

The entries stand in one array in the order in which their keys were first set.  Three hash tables
hold the index of each key: one for strings, by their text, one for the other cells, by their
address, and one for all other values, by their encoding.  `remove` leaves a hole in the array; when
the array is replaced, by growth or by the copying collector, the holes may be packed away, and then
the tables have to be given the new indices.

The storage that the allocators return is given by the caller of an operation, with what it holds
before anything is written to it.  `tryAllocateStorage` may fail; `set` then throws.  The text of a
rope is resolved by the caller.
-/
import JavaScriptCore.Lib.PartialMap
import JavaScriptCore.Runtime.Double

namespace JavaScriptCore.Runtime

/-! ## 1. Values -/

/-- The values of the language, as far as `MapData` tells them apart.  Two strings of the same text
may be two cells; `JSValue()` is `empty`; `other` stands for `undefined`, `null`, `true` and
`false`. -/
inductive JSValue where
  | empty
  | string (cell : Nat) (text : List Nat)
  | cell (cell : Nat)
  | int32 (i : Int)
  | double (d : Double)
  | other (tag : Nat)
  deriving DecidableEq

namespace MapData

/-- A number that is an `int32` is the same key in both representations, except for `-0`. -/
def KeyType (v : JSValue) : JSValue :=
  match v with
  | .double d =>
    if d = .nan ∨ d = .negZero then v
    else
      let i := staticCastInt d
      if d.eqInt i then .int32 i else v
  | v => v

structure Entry where
  key : JSValue
  value : JSValue
  deriving DecidableEq

/-- Whether `entry.key` is not the empty value. -/
def Entry.alive (e : Entry) : Bool := e.key ≠ .empty

end MapData

/-! ## 2. The object -/

open MapData in
structure MapData where
  m_cellKeyedTable : PartialMap Nat Nat
  m_valueKeyedTable : PartialMap JSValue Nat
  m_stringKeyedTable : PartialMap (List Nat) Nat
  m_capacity : Nat
  m_size : Nat
  m_deletedCount : Nat
  m_iteratorCount : BitVec 32
  /-- The null pointer, or the array. -/
  m_entries : Option (Nat → Entry)

namespace MapData

def minimumMapSize : Int := 8

/-- The constructor. -/
def create : MapData := ⟨.empty, .empty, .empty, 0, 0, 0, 0, none⟩

/-- A key as one of the tables has it: the text of a string, the address of another cell, or the
encoded value. -/
inductive TableKey where
  | string (text : List Nat)
  | cell (cell : Nat)
  | value (v : JSValue)
  deriving DecidableEq

def tableKey : JSValue → TableKey
  | .string _ text => .string text
  | .cell c => .cell c
  | v => .value v

section

variable (d : MapData)

/-- `iter->value`, if the key is found in its table. -/
def lookup : TableKey → Option Nat
  | .string text => d.m_stringKeyedTable.find text
  | .cell c => d.m_cellKeyedTable.find c
  | .value v => d.m_valueKeyedTable.find v

/-- `map.add(key, index)` on the table of the key. -/
def tableAdd (k : TableKey) (index : Nat) : MapData :=
  match k with
  | .string text => { d with m_stringKeyedTable := d.m_stringKeyedTable.add text index }
  | .cell c => { d with m_cellKeyedTable := d.m_cellKeyedTable.add c index }
  | .value v => { d with m_valueKeyedTable := d.m_valueKeyedTable.add v index }

/-- `map.remove(iter)` on the table of the key. -/
def tableRemove (k : TableKey) : MapData :=
  match k with
  | .string text => { d with m_stringKeyedTable := d.m_stringKeyedTable.remove text }
  | .cell c => { d with m_cellKeyedTable := d.m_cellKeyedTable.remove c }
  | .value v => { d with m_valueKeyedTable := d.m_valueKeyedTable.remove v }

/-- What `m_entries[i]` holds; the null pointer has nothing to read. -/
def entry (i : Nat) : Entry :=
  match d.m_entries with
  | none => ⟨.empty, .empty⟩
  | some memory => memory i

/-- Write to `m_entries[i]`. -/
def setEntry (i : Nat) (e : Entry) : MapData :=
  { d with m_entries := d.m_entries.map fun memory => Function.update memory i e }

/-- `&m_entries[i]`, which is null when `m_entries` is null and `i` is zero. -/
def find (key : JSValue) : Option Nat :=
  match d.lookup (tableKey key) with
  | none => none
  | some i => if d.m_entries.isNone ∧ i = 0 then none else some i

def contains (key : JSValue) : Bool := (d.find key).isSome

def get (key : JSValue) : JSValue :=
  match d.find key with
  | some i => (d.entry i).value
  | none => .empty

def size : Nat := d.m_size - d.m_deletedCount

def shouldPack : Bool := d.m_deletedCount ≠ 0 ∧ d.m_iteratorCount = 0

end

/-! ## 3. Replacing the array -/

/-- The state of the loop of `replaceAndPackBackingStore`. -/
structure Packing where
  destination : Nat → Entry
  entries : Nat → Entry
  newEnd : Nat

/-- One turn: the entry is copied, and the old one is left with the index of the new one. -/
def Packing.turn (s : Packing) (i : Nat) : Packing :=
  let entry := s.entries i
  if !entry.alive then s
  else
    { destination := Function.update s.destination s.newEnd entry
      entries := Function.update s.entries i { entry with value := .int32 s.newEnd }
      newEnd := s.newEnd + 1 }

def Packing.loop (destination entries : Nat → Entry) (size : Nat) : Packing :=
  (List.range size).foldl Packing.turn ⟨destination, entries, 0⟩

/-- `asInt32` of a value that is an integer. -/
def asInt32 : JSValue → Nat
  | .int32 i => i.toNat
  | _ => 0

section

variable (d : MapData)

/-- The value table and the string table are given the new indices. -/
def replaceAndPackBackingStore (destination : Nat → Entry) (newCapacity : Nat) :
    MapData :=
  let s := Packing.loop destination d.entry d.m_size
  { d with
    m_valueKeyedTable := d.m_valueKeyedTable.mapValues fun i => asInt32 (s.entries i).value
    m_stringKeyedTable := d.m_stringKeyedTable.mapValues fun i => asInt32 (s.entries i).value
    m_deletedCount := 0
    m_capacity := newCapacity
    m_size := s.newEnd
    m_entries := some s.destination }

/-- `memcpy` of the entries. -/
def replaceBackingStore (destination : Nat → Entry) (newCapacity : Nat) : MapData :=
  { d with
    m_capacity := newCapacity
    m_entries := some fun i => if i < d.m_size then d.entry i else destination i }

/-- The choice that both callers make. -/
def replace (destination : Nat → Entry) (newCapacity : Nat) : MapData :=
  if d.shouldPack then d.replaceAndPackBackingStore destination newCapacity
  else d.replaceBackingStore destination newCapacity

/-- The capacity after growth, computed with `int32_t`. -/
def requiredSize : Nat :=
  (max (BitVec.ofNat 32 (d.m_capacity + d.m_capacity / 2 + 1)).toInt minimumMapSize).toNat

section

variable (newStorage : Option (Nat → Entry))

/-- `none` is the thrown out-of-memory error. -/
def ensureSpaceForAppend : Option MapData :=
  if d.m_capacity > d.m_size then some d
  else newStorage.map fun newEntries => d.replace newEntries d.requiredSize

/-- The collector moves the array, if there is one. -/
def copyBackingStore (newEntries : Nat → Entry) : MapData :=
  match d.m_entries with
  | none => d
  | some _ => d.replace newEntries d.m_capacity

/-! ## 4. Operations -/

/-- The index of the entry of the key, which is a new one if there was none. -/
def add (key : JSValue) :
    Option (MapData × Option Nat) :=
  match d.lookup (tableKey key) with
  | some _ => some (d, d.find key)
  | none => do
    let d ← d.ensureSpaceForAppend newStorage
    let index := d.m_size
    let d := d.tableAdd (tableKey key) index
    return (({ d with m_size := index + 1 }).setEntry index ⟨key, .empty⟩, some index)

/-- `none` when an error was thrown; the object is then as it was. -/
def set (key value : JSValue) : Option MapData := do
  let (d, location) ← d.add newStorage key
  match location with
  | none => return d
  | some i => return d.setEntry i { d.entry i with value := value }

end

def remove (key : JSValue) : MapData × Bool :=
  match d.lookup (tableKey key) with
  | none => (d, false)
  | some location =>
    let d := d.tableRemove (tableKey key)
    let d := d.setEntry location ⟨.empty, .empty⟩
    ({ d with m_deletedCount := d.m_deletedCount + 1 }, true)

/-- The table of the cells is not cleared. -/
def clear : MapData :=
  { d with
    m_valueKeyedTable := .empty
    m_stringKeyedTable := .empty
    m_capacity := 0
    m_size := 0
    m_deletedCount := 0
    m_entries := none }

/-- The destructor of an iterator; no constructor increments the count. -/
def destroyIterator : MapData := { d with m_iteratorCount := d.m_iteratorCount - 1 }

end

end MapData

end JavaScriptCore.Runtime
