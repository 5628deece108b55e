/-
# The size map of `MetaAllocator` is a `RedBlackTree`

The model of `MetaAllocator` asks of `m_freeSpaceSizeMap` only the laws of `SizeTree`.  In the
source it is a `RedBlackTree` whose links live in the free nodes.  `SizeMap` is such a tree, a
memory of links that holds a balanced tree, and it has the laws: what is proved about the allocator
holds with the tree that the source uses.

**The shape of the tree is determined by the memory** (`Represents.unique`).  So the operations of a
`SizeMap` are those of the code, and nothing is chosen but the proof that the result is a tree
again.
-/
import JavaScriptCore.WTF.MetaAllocator
import JavaScriptCore.WTF.RedBlackInvariant

namespace JavaScriptCore.WTF

open RedBlack RedBlack.RBTree RedBlackTree

/-! ## 1. The memory determines the tree -/

/-- Below one link there is one tree. -/
theorem RedBlackTree.Linked.unique {ι : Type*} {node : ι → Node ι} {T T' : RBTree ι}
    {p p' : Option ι} (h : Linked node T p) (h' : Linked node T' p') (htop : T.top = T'.top) :
    T = T' := by
  induction T generalizing T' p p' with
  | nil =>
    cases T' with
    | nil => rfl
    | node c l n r => cases htop
  | node c l n r ihl ihr =>
    cases T' with
    | nil => cases htop
    | node c' l' n' r' =>
      obtain rfl := Option.some.inj htop
      obtain ⟨hcell, hl, hr⟩ := h
      obtain ⟨hcell', hl', hr'⟩ := h'
      obtain ⟨htopl, htopr, -, rfl⟩ := Node.mk.inj (hcell.symm.trans hcell')
      rw [ihl hl hl' htopl, ihr hr hr' htopr]

theorem RedBlackTree.Represents.unique {ι : Type*} {t : RedBlackTree ι} {T T' : RBTree ι}
    (h : Represents t T) (h' : Represents t T') : T = T' :=
  h.linked.unique h'.linked (h.root.symm.trans h'.root)

/-! ## 2. Size maps -/

/-- **A memory of links that holds a red-black tree**, with the tree that it holds. -/
structure SizeMap where
  tree : RedBlackTree NodePtr
  shape : RBTree NodePtr
  represents : Represents tree shape
  balanced : Balanced shape

namespace SizeMap

variable {m : SizeMap} {t : RedBlackTree NodePtr} {T : RBTree NodePtr} {x : NodePtr}

/-- The nodes from `first()` along `successor()`. -/
def nodes (m : SizeMap) : List NodePtr := m.shape.inorder

/-- Turns enough for every loop. -/
def fuel (m : SizeMap) : Nat := m.nodes.length + 2

/-- A tree without nodes. -/
def empty : SizeMap where
  tree := ⟨fun _ => ⟨none, none, none, .red⟩, none⟩
  shape := .nil
  represents := ⟨List.nodup_nil, rfl, trivial⟩
  balanced := ⟨⟨0, .nil⟩, rfl⟩

open Classical in
/-- The map after an operation of the tree; the map itself if the code would crash or not return, or
if the memory held no tree any more. -/
noncomputable def after (m : SizeMap) (result : Option (RedBlackTree NodePtr)) : SizeMap :=
  if h : ∃ m' : SizeMap, result = some m'.tree then h.choose else m

theorem nodes_after (hrep : Represents t T) (hbalanced : Balanced T) :
    (m.after (some t)).nodes = T.inorder := by
  have h : ∃ m' : SizeMap, some t = some m'.tree := ⟨⟨t, T, hrep, hbalanced⟩, rfl⟩
  have hchosen : Represents h.choose.tree T := Option.some.inj h.choose_spec ▸ hrep
  rw [after, dif_pos h, nodes, hchosen.unique h.choose.represents]

noncomputable def insert (key : NodePtr → Nat) (x : NodePtr) (m : SizeMap) : SizeMap :=
  m.after (m.tree.insert m.fuel key x)

noncomputable def remove (x : NodePtr) (m : SizeMap) : SizeMap :=
  m.after ((m.tree.remove m.fuel x).map Prod.fst)

def findLeastGreaterThanOrEqual (key : NodePtr → Nat) (n : Nat) (m : SizeMap) : Option NodePtr :=
  (m.tree.findLeastGreaterThanOrEqual m.fuel key n).join

/-- **The search returns**, with the answer of the library's search. -/
theorem findLeastGreaterThanOrEqual_eq (key : NodePtr → Nat) (n : Nat) :
    m.findLeastGreaterThanOrEqual key n = leastGE key n none m.shape := by
  have hplug : Represents m.tree (Context.plug [] m.shape) := m.represents
  have hfind : m.tree.findLeastGreaterThanOrEqual m.fuel key n =
      some (leastGE key n none m.shape) := by
    rw [RedBlackTree.findLeastGreaterThanOrEqual, m.represents.root]
    refine run_findLeast key n hplug none ?_
    rw [fuel, nodes]
    omega
  rw [findLeastGreaterThanOrEqual, hfind]
  rfl

/-- **A `RedBlackTree` has the laws that the allocator relies on.** -/
noncomputable instance : SizeTree SizeMap where
  empty := empty
  nodes := nodes
  insert := insert
  remove := remove
  findLeastGreaterThanOrEqual := findLeastGreaterThanOrEqual
  nodes_empty := rfl
  nodes_insert {key x m} hordered hx := by
    obtain ⟨t, T, hinsert, hrep, hbalanced, hT, hperm⟩ :=
      insert_spec m.represents m.balanced hordered hx (Nat.le_refl m.fuel)
    rw [insert, hinsert, nodes_after hrep hbalanced]
    exact ⟨hperm, hT⟩
  nodes_remove {x m} hx := by
    obtain ⟨t, T, hremove, hrep, hrb, hroot, horder⟩ :=
      remove_spec m.represents m.balanced hx (Nat.le_refl m.fuel)
    rw [remove, hremove]
    exact (nodes_after hrep ⟨hrb, hroot⟩).trans horder
  find_some {key n x m} hordered h := by
    rw [findLeastGreaterThanOrEqual_eq] at h
    rcases leastGE_spec hordered none with ⟨y, hy, hspec⟩ | ⟨hnone, -⟩
    · obtain rfl : y = x := Option.some.inj (hy.symm.trans h)
      exact hspec
    · cases hnone.symm.trans h
  find_none {key n m} hordered h := by
    rw [findLeastGreaterThanOrEqual_eq] at h
    rcases leastGE_spec hordered none with ⟨y, hy, -⟩ | ⟨-, hall⟩
    · cases hy.symm.trans h
    · exact hall

end SizeMap

end JavaScriptCore.WTF
