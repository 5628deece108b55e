/-
# `MetaAllocator`: the allocator of executable memory

`MetaAllocator` hands out pieces of the memory it was given and takes them back.  Its free memory is
a set of `FreeSpaceNode`s, each a maximal run of free bytes, and three containers refer to every
node by pointer: a red-black tree ordered by size, a hash map from the start address and a hash map
from the end address.  The nodes live in malloc'd memory, so the model has a memory of nodes, and a
pointer is a number.  A fourth container counts, for every page, the handles that use it.

`size_t` and `uintptr_t` have 64 bits.  Their values are natural numbers and their arithmetic is
that of `Word`, wrapping where the source's does.  A null pointer is `0`.

The hash maps are partial maps.  Of the size tree only the operations are used; which of several
nodes of one size `findLeastGreaterThanOrEqual` returns depends on the shape of the tree, and
`SizeTree` leaves it open.  `SizeMap.lean` gives the instance for the model of `RedBlackTree`.

`World` is an allocator together with the live `MetaAllocatorHandle`s, and `Op` are the calls its
users make.  What the operating system answers to `allocateNewSpace` is part of the call.
-/
import JavaScriptCore.Lib.PartialMap
import JavaScriptCore.Lib.Tiling
import JavaScriptCore.Lib.Word

namespace JavaScriptCore.WTF

open Tiling (Span)

/-! ## 1. Geometry -/

/-- `m_logAllocationGranule` and `m_logPageSize`, as the constructor leaves them. -/
structure Geometry where
  logAllocationGranule : Nat
  logPageSize : Nat
  logAllocationGranule_lt : logAllocationGranule < 32
  logPageSize_lt : logPageSize < 32

namespace Geometry

def allocationGranule (g : Geometry) : Nat := 2 ^ g.logAllocationGranule

def pageSize (g : Geometry) : Nat := 2 ^ g.logPageSize

/-- The constructor's loop `for (log = 0; log < 32; ++log)`. -/
def findLog (size : Nat) : Nat := ((List.range 32).find? fun log => 1 <<< log == size).getD 32

theorem findLog_two_pow {k : Nat} (hk : k < 32) : findLog (2 ^ k) = k := by
  have : ∀ k < 32, findLog (2 ^ k) = k := by decide
  exact this k hk

/-- The constructor; `none` if one of its two assertions fails. -/
def create (allocationGranule pageSize : Nat) : Option Geometry :=
  if h : findLog allocationGranule < 32 ∧ findLog pageSize < 32 then
    some ⟨findLog allocationGranule, findLog pageSize, h.1, h.2⟩
  else none

/-- Powers of two pass the assertions. -/
theorem create_two_pow {a p : Nat} (ha : a < 32) (hp : p < 32) :
    create (2 ^ a) (2 ^ p) = some ⟨a, p, ha, hp⟩ := by
  simp [create, findLog_two_pow, ha, hp]

/-- `MetaAllocator::roundUp`; `none` is `CRASH()`. -/
def roundUp (g : Geometry) (sizeInBytes : Nat) : Option Nat :=
  if 2 ^ 64 - 1 - g.allocationGranule ≤ sizeInBytes then none
  else some (Word.alignUp 64 g.logAllocationGranule sizeInBytes)

/-- `address >> m_logPageSize`. -/
def pageOf (g : Geometry) (address : Nat) : Nat := address >>> g.logPageSize

/-- The page of the last byte: `(address + sizeInBytes - 1) >> m_logPageSize`. -/
def lastPageOf (g : Geometry) (address sizeInBytes : Nat) : Nat :=
  g.pageOf (Word.sub 64 (Word.add 64 address sizeInBytes) 1)

end Geometry

/-! ## 2. Nodes and their indices -/

structure FreeSpaceNode where
  start : Nat
  sizeInBytes : Nat
  deriving DecidableEq, Repr

/-- `FreeSpaceNode*`. -/
abbrev NodePtr := Nat

/-- `MetaAllocatorHandle*`. -/
abbrev HandlePtr := Nat

/-- **What the allocator uses of `RedBlackTree<FreeSpaceNode, size_t>`.**  `nodes` is the walk from
`first()` along `successor()`.  The keys are the sizes, read from the nodes' memory; the laws hold
as long as the tree is ordered by the keys as they are now. -/
class SizeTree (τ : Type) where
  empty : τ
  nodes : τ → List NodePtr
  insert : (key : NodePtr → Nat) → NodePtr → τ → τ
  remove : NodePtr → τ → τ
  findLeastGreaterThanOrEqual : (key : NodePtr → Nat) → Nat → τ → Option NodePtr
  nodes_empty : nodes empty = []
  nodes_insert : ∀ {key x t}, (nodes t).Pairwise (fun p q => key p ≤ key q) → x ∉ nodes t →
    (nodes (insert key x t)).Perm (x :: nodes t) ∧
      (nodes (insert key x t)).Pairwise (fun p q => key p ≤ key q)
  nodes_remove : ∀ {x t}, x ∈ nodes t → nodes (remove x t) = (nodes t).erase x
  find_some : ∀ {key n x t}, (nodes t).Pairwise (fun p q => key p ≤ key q) →
    findLeastGreaterThanOrEqual key n t = some x →
      x ∈ nodes t ∧ n ≤ key x ∧ ∀ y ∈ nodes t, n ≤ key y → key x ≤ key y
  find_none : ∀ {key n t}, (nodes t).Pairwise (fun p q => key p ≤ key q) →
    findLeastGreaterThanOrEqual key n t = none → ∀ y ∈ nodes t, key y < n

/-- Insertion behind the nodes whose key is not larger. -/
def insertByKey (key : NodePtr → Nat) (x : NodePtr) : List NodePtr → List NodePtr
  | [] => [x]
  | p :: t => if key p ≤ key x then p :: insertByKey key x t else x :: p :: t

theorem insertByKey_perm (key : NodePtr → Nat) (x : NodePtr) (t : List NodePtr) :
    (insertByKey key x t).Perm (x :: t) := by
  induction t with
  | nil => exact List.Perm.refl _
  | cons p t ih =>
    rw [insertByKey]
    split_ifs
    · exact (ih.cons p).trans (List.Perm.swap x p t)
    · exact List.Perm.refl _

theorem insertByKey_sorted {key : NodePtr → Nat} (x : NodePtr) {t : List NodePtr}
    (ht : t.Pairwise fun p q => key p ≤ key q) :
    (insertByKey key x t).Pairwise fun p q => key p ≤ key q := by
  induction ht with
  | nil => exact List.pairwise_singleton _ _
  | @cons p t hp ht ih =>
    rw [insertByKey]
    split_ifs with hle
    · refine List.pairwise_cons.2 ⟨fun q hq => ?_, ih⟩
      rcases List.mem_cons.1 ((insertByKey_perm key x t).mem_iff.1 hq) with rfl | hq
      · exact hle
      · exact hp q hq
    · refine List.pairwise_cons.2 ⟨fun q hq => ?_, List.pairwise_cons.2 ⟨hp, ht⟩⟩
      rcases List.mem_cons.1 hq with rfl | hq
      · omega
      · have := hp q hq
        omega

/-- The first fit of an ordered list is a least one. -/
theorem find_least {key : NodePtr → Nat} {n x : Nat} {t : List NodePtr}
    (ht : t.Pairwise fun p q => key p ≤ key q) (h : t.find? (fun p => n ≤ key p) = some x) :
    ∀ y ∈ t, n ≤ key y → key x ≤ key y := by
  induction ht with
  | nil => cases h
  | @cons p t hp _ ih =>
    intro y hy hn
    rw [List.find?_cons] at h
    split at h
    · cases h
      rcases List.mem_cons.1 hy with rfl | hy
      · exact Nat.le_refl _
      · exact hp y hy
    · rename_i hsmall
      rcases List.mem_cons.1 hy with rfl | hy
      · exact absurd hn (of_decide_eq_false hsmall)
      · exact ih h y hy hn

/-- A list in the order of the keys has the laws too; with it the model runs. -/
instance : SizeTree (List NodePtr) where
  empty := []
  nodes := id
  insert := insertByKey
  remove x t := t.erase x
  findLeastGreaterThanOrEqual key n t := t.find? fun p => n ≤ key p
  nodes_empty := rfl
  nodes_insert ht _ := ⟨insertByKey_perm _ _ _, insertByKey_sorted _ ht⟩
  nodes_remove _ := rfl
  find_some ht h :=
    ⟨List.mem_of_find?_eq_some h, by simpa using List.find?_some h, find_least ht h⟩
  find_none _ h y hy := by simpa using List.find?_eq_none.1 h y hy

/-- The members that describe the free space, with the memory the nodes live in. -/
structure FreeSpaceIndex (τ : Type) where
  node : NodePtr → FreeSpaceNode
  nextNode : NodePtr
  freeSpaceSizeMap : τ
  freeSpaceStartAddressMap : PartialMap Nat NodePtr
  freeSpaceEndAddressMap : PartialMap Nat NodePtr

namespace FreeSpaceIndex

variable {τ : Type} [SizeTree τ]

def empty : FreeSpaceIndex τ where
  node := fun _ => ⟨0, 0⟩
  nextNode := 0
  freeSpaceSizeMap := SizeTree.empty
  freeSpaceStartAddressMap := .empty
  freeSpaceEndAddressMap := .empty

def nodes (m : FreeSpaceIndex τ) : List NodePtr := SizeTree.nodes m.freeSpaceSizeMap

/-- `node->key()`. -/
def key (m : FreeSpaceIndex τ) (p : NodePtr) : Nat := (m.node p).sizeInBytes

/-! The elementary writes, each to one field. -/

def sizeMapInsert (p : NodePtr) (m : FreeSpaceIndex τ) : FreeSpaceIndex τ :=
  { m with freeSpaceSizeMap := SizeTree.insert m.key p m.freeSpaceSizeMap }

def sizeMapRemove (p : NodePtr) (m : FreeSpaceIndex τ) : FreeSpaceIndex τ :=
  { m with freeSpaceSizeMap := SizeTree.remove p m.freeSpaceSizeMap }

def startMapAdd (address : Nat) (p : NodePtr) (m : FreeSpaceIndex τ) : FreeSpaceIndex τ :=
  { m with freeSpaceStartAddressMap := m.freeSpaceStartAddressMap.add address p }

def startMapRemove (address : Nat) (m : FreeSpaceIndex τ) : FreeSpaceIndex τ :=
  { m with freeSpaceStartAddressMap := m.freeSpaceStartAddressMap.remove address }

def endMapAdd (address : Nat) (p : NodePtr) (m : FreeSpaceIndex τ) : FreeSpaceIndex τ :=
  { m with freeSpaceEndAddressMap := m.freeSpaceEndAddressMap.add address p }

def endMapRemove (address : Nat) (m : FreeSpaceIndex τ) : FreeSpaceIndex τ :=
  { m with freeSpaceEndAddressMap := m.freeSpaceEndAddressMap.remove address }

/-- `node->m_start = start; node->m_sizeInBytes = sizeInBytes`. -/
def setNode (p : NodePtr) (n : FreeSpaceNode) (m : FreeSpaceIndex τ) : FreeSpaceIndex τ :=
  { m with node := fun q => if q = p then n else m.node q }

/-- `allocFreeSpaceNode`: memory that no node in use occupies.  Freed nodes are not reused. -/
def allocFreeSpaceNode (m : FreeSpaceIndex τ) : NodePtr × FreeSpaceIndex τ :=
  (m.nextNode, setNode m.nextNode ⟨0, 0⟩ { m with nextNode := m.nextNode + 1 })

/-! ## 3. Free space -/

/-- `findAndRemoveFreeSpace`: the address found, or null. -/
def findAndRemoveFreeSpace (g : Geometry) (sizeInBytes : Nat) (m : FreeSpaceIndex τ) :
    Nat × FreeSpaceIndex τ :=
  match SizeTree.findLeastGreaterThanOrEqual m.key sizeInBytes m.freeSpaceSizeMap with
  | none => (0, m)
  | some node =>
    let start := (m.node node).start
    let nodeSize := (m.node node).sizeInBytes
    let m := m.sizeMapRemove node
    if nodeSize = sizeInBytes then
      -- perfect fit: the node goes away
      (start, (m.startMapRemove start).endMapRemove (Word.add 64 start nodeSize))
    else
      let firstPage := g.pageOf start
      let lastPage := g.lastPageOf start nodeSize
      let lastPageForLeftAllocation := g.lastPageOf start sizeInBytes
      let firstPageForRightAllocation :=
        g.pageOf (Word.sub 64 (Word.add 64 start nodeSize) sizeInBytes)
      if Word.add 64 (Word.sub 64 lastPageForLeftAllocation firstPage) 1
          ≤ Word.add 64 (Word.sub 64 lastPage firstPageForRightAllocation) 1 then
        -- allocate at the left end, and slide the node to the right
        let newStart := Word.add 64 start sizeInBytes
        (start,
          m.startMapRemove start
            |>.setNode node ⟨newStart, Word.sub 64 nodeSize sizeInBytes⟩
            |>.sizeMapInsert node
            |>.startMapAdd newStart node)
      else
        -- allocate at the right end; the node keeps its start
        let result := Word.sub 64 (Word.add 64 start nodeSize) sizeInBytes
        (result,
          m.endMapRemove (Word.add 64 start nodeSize)
            |>.setNode node ⟨start, Word.sub 64 nodeSize sizeInBytes⟩
            |>.sizeMapInsert node
            |>.endMapAdd result node)

/-- `addFreeSpace`: coalesce with the left neighbour, the right one, both or none. -/
def addFreeSpace (start sizeInBytes : Nat) (m : FreeSpaceIndex τ) : FreeSpaceIndex τ :=
  let stop := Word.add 64 start sizeInBytes
  match m.freeSpaceEndAddressMap.find start, m.freeSpaceStartAddressMap.find stop with
  | some leftNode, some rightNode =>
    let leftStart := (m.node leftNode).start
    let leftSize := (m.node leftNode).sizeInBytes
    let leftEnd := Word.add 64 leftStart leftSize
    let rightStart := stop
    let rightSize := (m.node rightNode).sizeInBytes
    let rightEnd := Word.add 64 rightStart rightSize
    m.sizeMapRemove leftNode
      |>.endMapRemove leftEnd
      |>.sizeMapRemove rightNode
      |>.startMapRemove rightStart
      |>.endMapRemove rightEnd
      |>.setNode leftNode ⟨leftStart, Word.add 64 leftSize (Word.add 64 sizeInBytes rightSize)⟩
      |>.sizeMapInsert leftNode
      |>.endMapAdd rightEnd leftNode
  | some leftNode, none =>
    let leftStart := (m.node leftNode).start
    let leftSize := (m.node leftNode).sizeInBytes
    let leftEnd := Word.add 64 leftStart leftSize
    m.sizeMapRemove leftNode
      |>.endMapRemove leftEnd
      |>.setNode leftNode ⟨leftStart, Word.add 64 leftSize sizeInBytes⟩
      |>.sizeMapInsert leftNode
      |>.endMapAdd stop leftNode
  | none, some rightNode =>
    let rightStart := stop
    let rightSize := (m.node rightNode).sizeInBytes
    m.sizeMapRemove rightNode
      |>.startMapRemove rightStart
      |>.setNode rightNode ⟨start, Word.add 64 rightSize sizeInBytes⟩
      |>.sizeMapInsert rightNode
      |>.startMapAdd start rightNode
  | none, none =>
    let (node, m) := m.allocFreeSpaceNode
    m.setNode node ⟨start, sizeInBytes⟩
      |>.sizeMapInsert node
      |>.startMapAdd start node
      |>.endMapAdd stop node

/-- `debugFreeSpaceSize`: the sum along the size tree. -/
def debugFreeSpaceSize (m : FreeSpaceIndex τ) : Nat := (m.nodes.map m.key).sum

end FreeSpaceIndex

/-! ## 4. Page occupancy

A count is a natural number: it counts objects, and there are fewer than `2 ^ 64` of them. -/

/-- The calls of the two virtual functions that commit and uncommit a page. -/
inductive Notification where
  | needPage (address : Nat)
  | pageIsFree (address : Nat)
  deriving DecidableEq, Repr

/-- The members that describe the committed pages, with the notifications sent so far. -/
structure PageTable where
  pageOccupancyMap : PartialMap Nat Nat
  bytesCommitted : Nat
  notifications : List Notification

namespace PageTable

def empty : PageTable := ⟨.empty, 0, []⟩

def incrementPage (g : Geometry) (m : PageTable) (page : Nat) : PageTable :=
  match m.pageOccupancyMap.find page with
  | none =>
    { m with
      pageOccupancyMap := m.pageOccupancyMap.add page 1
      bytesCommitted := Word.add 64 m.bytesCommitted g.pageSize
      notifications := m.notifications ++ [.needPage (page <<< g.logPageSize)] }
  | some n => { m with pageOccupancyMap := m.pageOccupancyMap.set page (n + 1) }

def decrementPage (g : Geometry) (m : PageTable) (page : Nat) : PageTable :=
  match m.pageOccupancyMap.find page with
  | none => m -- the source asserts that the page has an entry
  | some n =>
    if n - 1 = 0 then
      { m with
        pageOccupancyMap := m.pageOccupancyMap.remove page
        bytesCommitted := Word.sub 64 m.bytesCommitted g.pageSize
        notifications := m.notifications ++ [.pageIsFree (page <<< g.logPageSize)] }
    else { m with pageOccupancyMap := m.pageOccupancyMap.set page (n - 1) }

/-- The pages of `for (page = firstPage; page <= lastPage; ++page)`. -/
def pagesFrom (firstPage lastPage : Nat) : List Nat :=
  List.range' firstPage (lastPage + 1 - firstPage)

def incrementPageOccupancy (g : Geometry) (address sizeInBytes : Nat) (m : PageTable) :
    PageTable :=
  (pagesFrom (g.pageOf address) (g.lastPageOf address sizeInBytes)).foldl (incrementPage g) m

def decrementPageOccupancy (g : Geometry) (address sizeInBytes : Nat) (m : PageTable) :
    PageTable :=
  (pagesFrom (g.pageOf address) (g.lastPageOf address sizeInBytes)).foldl (decrementPage g) m

end PageTable

/-! ## 5. Allocation -/

/-- The fields of `MetaAllocator`.  `m_tracker` is `none` when it is null, else the contents of its
tree. -/
structure MetaAllocator (τ : Type) extends FreeSpaceIndex τ, PageTable where
  bytesAllocated : Nat
  bytesReserved : Nat
  tracker : Option (List HandlePtr)

namespace MetaAllocator

variable {τ : Type} [SizeTree τ]

/-- A new allocator; the tracker may be attached before the first call. -/
def new (tracker : Option (List HandlePtr)) : MetaAllocator τ :=
  { FreeSpaceIndex.empty, PageTable.empty with
    bytesAllocated := 0, bytesReserved := 0, tracker := tracker }

def addFreeSpaceFromReleasedHandle (start sizeInBytes : Nat) (m : MetaAllocator τ) :
    MetaAllocator τ :=
  { m with
    bytesAllocated := Word.sub 64 m.bytesAllocated sizeInBytes
    toFreeSpaceIndex := m.addFreeSpace start sizeInBytes }

def addFreshFreeSpace (start sizeInBytes : Nat) (m : MetaAllocator τ) : MetaAllocator τ :=
  { m with
    bytesReserved := Word.add 64 m.bytesReserved sizeInBytes
    toFreeSpaceIndex := m.addFreeSpace start sizeInBytes }

/-- `requestedNumberOfPages` for a rounded size. -/
def requestedNumberOfPages (g : Geometry) (sizeInBytes : Nat) : Nat :=
  Word.sub 64 (Word.add 64 sizeInBytes g.pageSize) 1 >>> g.logPageSize

/-- What `allocate` gives the handle, and the run of pages that `allocateNewSpace` had to supply
for it, if any. -/
structure Allocation where
  start : Nat
  sizeInBytes : Nat
  newSpace : Option Span
  deriving DecidableEq, Repr

/-- The end of `allocate`: the space found becomes a handle's. -/
def commit (g : Geometry) (a : Allocation) (m : MetaAllocator τ) : MetaAllocator τ :=
  { m with
    toPageTable := m.incrementPageOccupancy g a.start a.sizeInBytes
    bytesAllocated := Word.add 64 m.bytesAllocated a.sizeInBytes }

/-- `allocate`.  `allocateNewSpace` maps the number of pages asked for to a start address and the
number of pages granted, or fails.  The outer `none` is `CRASH()`, the inner one the null handle. -/
def allocate (g : Geometry) (sizeInBytes : Nat) (allocateNewSpace : Nat → Option (Nat × Nat))
    (m : MetaAllocator τ) : Option (Option Allocation × MetaAllocator τ) :=
  if sizeInBytes = 0 then some (none, m)
  else
    match g.roundUp sizeInBytes with
    | none => none
    | some sizeInBytes =>
      let (start, index) := m.findAndRemoveFreeSpace g sizeInBytes
      let m := { m with toFreeSpaceIndex := index }
      if start = 0 then
        match allocateNewSpace (requestedNumberOfPages g sizeInBytes) with
        | none => some (none, m)
        | some (start, numberOfPages) =>
          let roundedUpSize := (numberOfPages <<< g.logPageSize) % 2 ^ 64
          let m := { m with bytesReserved := Word.add 64 m.bytesReserved roundedUpSize }
          let m :=
            if roundedUpSize > sizeInBytes then
              { m with
                toFreeSpaceIndex := m.addFreeSpace (Word.add 64 start sizeInBytes)
                  (Word.sub 64 roundedUpSize sizeInBytes) }
            else m
          let a : Allocation := ⟨start, sizeInBytes, some ⟨start, roundedUpSize⟩⟩
          some (some a, m.commit g a)
      else
        let a : Allocation := ⟨start, sizeInBytes, none⟩
        some (some a, m.commit g a)

end MetaAllocator

/-! ## 6. Handles -/

structure MetaAllocatorHandle where
  self : HandlePtr
  start : Nat
  sizeInBytes : Nat
  ownerUID : Nat
  deriving DecidableEq, Repr

namespace MetaAllocatorHandle

def span (h : MetaAllocatorHandle) : Span := ⟨h.start, h.sizeInBytes⟩

variable {τ : Type} [SizeTree τ]

/-- `MetaAllocatorHandle::shrink`: the allocator and the handle afterwards. -/
def shrink (g : Geometry) (h : MetaAllocatorHandle) (newSizeInBytes : Nat) (m : MetaAllocator τ) :
    Option (MetaAllocatorHandle × MetaAllocator τ) :=
  match g.roundUp newSizeInBytes with
  | none => none
  | some newSizeInBytes =>
    if newSizeInBytes = h.sizeInBytes then some (h, m)
    else
      let freeStart := Word.add 64 h.start newSizeInBytes
      let freeSize := Word.sub 64 h.sizeInBytes newSizeInBytes
      let freeEnd := Word.add 64 freeStart freeSize
      let firstCompletelyFreePage := Word.alignUp 64 g.logPageSize freeStart
      let m :=
        if firstCompletelyFreePage < freeEnd then
          { m with
            toPageTable := m.decrementPageOccupancy g firstCompletelyFreePage
              (Word.sub 64 freeSize (Word.sub 64 firstCompletelyFreePage freeStart)) }
        else m
      some ({ h with sizeInBytes := newSizeInBytes },
        m.addFreeSpaceFromReleasedHandle freeStart freeSize)

/-- `MetaAllocator::release`, which the destructor of the handle calls. -/
def release (g : Geometry) (h : MetaAllocatorHandle) (m : MetaAllocator τ) : MetaAllocator τ :=
  let m :=
    if h.sizeInBytes ≠ 0 then
      let m := { m with toPageTable := m.decrementPageOccupancy g h.start h.sizeInBytes }
      m.addFreeSpaceFromReleasedHandle h.start h.sizeInBytes
    else m
  { m with tracker := m.tracker.map fun allocations => allocations.erase h.self }

end MetaAllocatorHandle

/-! ## 7. The allocator and its users -/

/-- The allocator and the handles that have not been destroyed.  `reserved` remembers every region
the allocator was ever given. -/
structure World (τ : Type) where
  allocator : MetaAllocator τ
  handles : List MetaAllocatorHandle
  nextHandle : HandlePtr
  reserved : List Span

inductive Op where
  | addFreshFreeSpace (start sizeInBytes : Nat)
  | allocate (sizeInBytes ownerUID : Nat) (allocateNewSpace : Nat → Option (Nat × Nat))
  | shrink (handle : MetaAllocatorHandle) (newSizeInBytes : Nat)
  | release (handle : MetaAllocatorHandle)

namespace World

variable {τ : Type} [SizeTree τ]

def new (tracker : Option (List HandlePtr)) : World τ := ⟨.new tracker, [], 0, []⟩

/-- `new MetaAllocatorHandle(...)`, and `m_tracker->notify(handle)`. -/
def newHandle (a : MetaAllocator.Allocation) (ownerUID : Nat) (m : MetaAllocator τ)
    (w : World τ) : World τ where
  allocator := { m with tracker := m.tracker.map fun allocations => w.nextHandle :: allocations }
  handles := ⟨w.nextHandle, a.start, a.sizeInBytes, ownerUID⟩ :: w.handles
  nextHandle := w.nextHandle + 1
  reserved := a.newSpace.toList ++ w.reserved

/-- One call; `none` if it crashes. -/
def step (g : Geometry) (w : World τ) : Op → Option (World τ)
  | .addFreshFreeSpace start sizeInBytes =>
    some { w with
      allocator := w.allocator.addFreshFreeSpace start sizeInBytes
      reserved := ⟨start, sizeInBytes⟩ :: w.reserved }
  | .allocate sizeInBytes ownerUID allocateNewSpace =>
    match w.allocator.allocate g sizeInBytes allocateNewSpace with
    | none => none
    | some (none, m) => some { w with allocator := m }
    | some (some a, m) => some (w.newHandle a ownerUID m)
  | .shrink handle newSizeInBytes =>
    match handle.shrink g newSizeInBytes w.allocator with
    | none => none
    | some (h, m) => some { w with allocator := m, handles := h :: w.handles.erase handle }
  | .release handle =>
    some { w with
      allocator := handle.release g w.allocator
      handles := w.handles.erase handle }

end World

end JavaScriptCore.WTF
