/-
# `RedBlackTree`

The intrusive tree of `wtf/RedBlackTree.h`.  Nodes are pointers, `ι`; `node` is the memory of their
links and `m_root` the only field of the tree.  The key of a node does not change while the node is
in the tree, so `key` is a parameter.  `NodeType* parent` and the color, which the source packs into
one word, are two fields.

Every use of a null pointer makes a function return `none`, and so does a loop that has not ended
after `fuel` turns.  That neither happens is part of what is proved.

The source writes each half of a case out with left and right exchanged.  Here the half is a
parameter `d : Dir`, the side named first in the source's `then` clause; `leftRotate` and
`rightRotate` are one function.  The test `x == x->parent()->left()` by which a node is replaced
below its parent is the same in both halves of the source (`replaceChild`).
-/
import JavaScriptCore.Lib.Iteration
import JavaScriptCore.Lib.RedBlack

namespace JavaScriptCore.WTF

open RedBlack (Color Dir)

/-- The links of a node. -/
structure Node (ι : Type*) where
  left : Option ι
  right : Option ι
  parent : Option ι
  color : Color

def Node.child {ι : Type*} (m : Node ι) : Dir → Option ι
  | .left => m.left
  | .right => m.right

def Node.withChild {ι : Type*} (m : Node ι) (d : Dir) (p : Option ι) : Node ι :=
  match d with
  | .left => { m with left := p }
  | .right => { m with right := p }

structure RedBlackTree (ι : Type*) where
  node : ι → Node ι
  m_root : Option ι

namespace RedBlackTree

variable {ι : Type*} [DecidableEq ι]

/-! ## 1. Links -/

section

variable (t : RedBlackTree ι)

def modify (n : ι) (f : Node ι → Node ι) : RedBlackTree ι :=
  { t with node := Function.update t.node n (f (t.node n)) }

def child (d : Dir) (n : ι) : Option ι := (t.node n).child d

def left (n : ι) : Option ι := (t.node n).left

def right (n : ι) : Option ι := (t.node n).right

def parent (n : ι) : Option ι := (t.node n).parent

def color (n : ι) : Color := (t.node n).color

def setChild (d : Dir) (n : ι) (p : Option ι) : RedBlackTree ι :=
  t.modify n fun m => m.withChild d p

def setParent (n : ι) (p : Option ι) : RedBlackTree ι :=
  t.modify n fun m => { m with parent := p }

def setColor (n : ι) (c : Color) : RedBlackTree ι :=
  t.modify n fun m => { m with color := c }

/-- `reset`: no links, and red. -/
def reset (n : ι) : RedBlackTree ι := t.modify n fun _ => ⟨none, none, none, .red⟩

/-- `if (p) p->setParent(q)`. -/
def setParentOf (p : Option ι) (q : Option ι) : RedBlackTree ι :=
  match p with
  | none => t
  | some p => t.setParent p q

/-- Puts `new` where `old` hangs: at the root if there is no parent. -/
def replaceChild (parent : Option ι) (old : ι) (new : Option ι) :
    RedBlackTree ι :=
  match parent with
  | none => { t with m_root := new }
  | some p => if t.left p = some old then t.setChild .left p new else t.setChild .right p new

/-- `!p || p->color() == Black`. -/
def isBlack (p : Option ι) : Bool :=
  match p with
  | none => true
  | some p => t.color p = .black

/-! ## 2. Rotations -/

/-- `leftRotate` for `d` left, `rightRotate` for `d` right. -/
def rotate (d : Dir) (x : ι) : Option (RedBlackTree ι) :=
  match t.child d.other x with
  | none => none
  | some y =>
    -- turn the inner subtree of `y` into one of `x`
    let t := t.setChild d.other x (t.child d y)
    let t := t.setParentOf (t.child d y) (some x)
    -- link the parent of `x` to `y`
    let t := t.setParent y (t.parent x)
    let t := t.replaceChild (t.parent x) x (some y)
    -- put `x` below `y`
    let t := t.setChild d y (some x)
    some (t.setParent x (some y))

def leftRotate (x : ι) : Option (RedBlackTree ι) := t.rotate .left x

def rightRotate (y : ι) : Option (RedBlackTree ι) := t.rotate .right y

end

/-! ## 3. Walks -/

def treeMinimum (fuel : Nat) (t : RedBlackTree ι) (x : ι) : Option ι :=
  Iteration.run (fun x => match t.left x with | some l => .inl l | none => .inr x) fuel x

/-- `successor`; the inner option is the returned pointer. -/
def successor (fuel : Nat) (t : RedBlackTree ι) (x : ι) : Option (Option ι) :=
  match t.right x with
  | some r => (treeMinimum fuel t r).map some
  | none =>
    Iteration.run (fun (s : ι × Option ι) =>
      match s.2 with
      | none => .inr none
      | some y => if t.right y = some s.1 then .inl (y, t.parent y) else .inr (some y))
      fuel (x, t.parent x)

section

variable {κ : Type*} [LinearOrder κ]

def findExact (fuel : Nat) (key : ι → κ) (t : RedBlackTree ι) (k : κ) : Option (Option ι) :=
  Iteration.run (fun current =>
    match current with
    | none => .inr none
    | some n =>
      if key n = k then .inr (some n)
      else if k < key n then .inl (t.left n)
      else .inl (t.right n)) fuel t.m_root

def findLeastGreaterThanOrEqual (fuel : Nat) (key : ι → κ) (t : RedBlackTree ι) (k : κ) :
    Option (Option ι) :=
  Iteration.run (fun (s : Option ι × Option ι) =>
    match s.2 with
    | none => .inr s.1
    | some n =>
      if key n = k then .inr (some n)
      else if key n < k then .inl (s.1, t.right n)
      else .inl (some n, t.left n)) fuel (none, t.m_root)

/-! ## 4. Insertion -/

/-- The loop of `treeInsert`: the last node on the way down. -/
def insertionParent (fuel : Nat) (key : ι → κ) (t : RedBlackTree ι) (z : ι) : Option (Option ι) :=
  Iteration.run (fun (s : Option ι × Option ι) =>
    match s.2 with
    | none => .inr s.1
    | some x => .inl (some x, if key z < key x then t.left x else t.right x)) fuel (none, t.m_root)

def treeInsert (fuel : Nat) (key : ι → κ) (t : RedBlackTree ι) (z : ι) : Option (RedBlackTree ι) :=
  (insertionParent fuel key t z).map fun y =>
    let t := t.setParent z y
    match y with
    | none => { t with m_root := some z }
    | some y => if key z < key y then t.setChild .left y (some z) else t.setChild .right y (some z)

end

/-- Case 3 of an insertion: the parent of `x` is on the side `d` of its own parent. -/
def insertCase3 (t : RedBlackTree ι) (d : Dir) (x : ι) : Option (RedBlackTree ι × ι) := do
  let p ← t.parent x
  let t := t.setColor p .black
  let g ← t.parent p
  let t := t.setColor g .red
  let t ← t.rotate d.other g
  return (t, x)

/-- Cases 2 and 3 of an insertion, with the parent `p` of `x`. -/
def insertRotate (t : RedBlackTree ι) (d : Dir) (x p : ι) : Option (RedBlackTree ι × ι) :=
  if t.child d.other p = some x then (t.rotate d p).bind fun t => t.insertCase3 d p
  else t.insertCase3 d x

/-- The body of the loop of `insert`, with the parent `p` of `x` on the side `d` of its own parent
`g`. -/
def insertFixupSide (t : RedBlackTree ι) (d : Dir) (x p g : ι) : Option (RedBlackTree ι × ι) :=
  match t.child d.other g with
  | none => t.insertRotate d x p
  | some y =>
    if t.color y = .red then
      some (((t.setColor p .black).setColor y .black).setColor g .red, g)
    else t.insertRotate d x p

/-- One turn of the loop of `insert`. -/
def insertFixupTurn (s : RedBlackTree ι × ι) : (RedBlackTree ι × ι) ⊕ Option (RedBlackTree ι) :=
  let (t, x) := s
  if some x = t.m_root then .inr (some t)
  else
    match t.parent x with
    | none => .inr none
    | some p =>
      if t.color p ≠ .red then .inr (some t)
      else
        match t.parent p with
        | none => .inr none
        | some g =>
          let d := if t.left g = some p then Dir.left else Dir.right
          match t.insertFixupSide d x p g with
          | none => .inr none
          | some s => .inl s

def insert {κ : Type*} [LinearOrder κ] (fuel : Nat) (key : ι → κ) (t : RedBlackTree ι) (x : ι) :
    Option (RedBlackTree ι) := do
  let t := t.reset x
  let t ← t.treeInsert fuel key x
  let t := t.setColor x .red
  let t ← (Iteration.run insertFixupTurn fuel (t, x)).join
  let r ← t.m_root
  return t.setColor r .black

/-! ## 5. Removal -/

/-- Case 1: a red sibling `w` is rotated above the parent `p`; the sibling afterwards. -/
def fixupRedSibling (t : RedBlackTree ι) (d : Dir) (p w : ι) : Option (RedBlackTree ι × ι) :=
  if t.color w = .red then do
    let t := (t.setColor w .black).setColor p .red
    let t ← t.rotate d p
    let w ← t.child d.other p
    return (t, w)
  else some (t, w)

/-- Case 3: the red child of `w` is on the side of `x`; the sibling afterwards. -/
def fixupInnerChild (t : RedBlackTree ι) (d : Dir) (p w : ι) : Option (RedBlackTree ι × ι) :=
  if t.isBlack (t.child d.other w) then do
    let a ← t.child d w
    let t := (t.setColor a .black).setColor w .red
    let t ← t.rotate d.other w
    let w ← t.child d.other p
    return (t, w)
  else some (t, w)

/-- Case 4: the child of `w` on the far side is red. -/
def fixupOuterChild (t : RedBlackTree ι) (d : Dir) (p w : ι) :
    Option (RedBlackTree ι × Option ι × Option ι) := do
  let t := t.setColor w (t.color p)
  let t := t.setColor p .black
  let t := match t.child d.other w with
    | some r => t.setColor r .black
    | none => t
  let t ← t.rotate d p
  let x ← t.m_root
  return (t, some x, t.parent x)

/-- The body of the loop of `removeFixup`, with `x` on the side `d` of its parent `p`: the new `x`
and `xParent`. -/
def removeFixupSide (t : RedBlackTree ι) (d : Dir) (p : ι) :
    Option (RedBlackTree ι × Option ι × Option ι) := do
  let w ← t.child d.other p
  let (t, w) ← t.fixupRedSibling d p w
  if t.isBlack (t.child d w) && t.isBlack (t.child d.other w) then
    -- Case 2
    let t := t.setColor w .red
    return (t, some p, t.parent p)
  else
    let (t, w) ← t.fixupInnerChild d p w
    t.fixupOuterChild d p w

/-- One turn of the loop of `removeFixup`, and what comes behind it. -/
def removeFixupTurn (s : RedBlackTree ι × Option ι × Option ι) :
    (RedBlackTree ι × Option ι × Option ι) ⊕ Option (RedBlackTree ι) :=
  let (t, x, xParent) := s
  if x ≠ t.m_root ∧ t.isBlack x then
    match xParent with
    | none => .inr none
    | some p =>
      let d := if x = t.left p then Dir.left else Dir.right
      match t.removeFixupSide d p with
      | none => .inr none
      | some s => .inl s
  else
    match x with
    | none => .inr (some t)
    | some x => .inr (some (t.setColor x .black))

def removeFixup (fuel : Nat) (t : RedBlackTree ι) (x xParent : Option ι) :
    Option (RedBlackTree ι) :=
  (Iteration.run removeFixupTurn fuel (t, x, xParent)).join

/-- `y` takes the place of `z`, with its links and its color. -/
def substitute (t : RedBlackTree ι) (y z : ι) : RedBlackTree ι :=
  let t := t.setParent y (t.parent z)
  let t := t.setColor y (t.color z)
  let t := t.setChild .left y (t.left z)
  let t := t.setChild .right y (t.right z)
  let t := t.setParentOf (t.left z) (some y)
  let t := t.setParentOf (t.right z) (some y)
  t.replaceChild (t.parent z) z (some y)

/-- The middle of `remove(NodeType*)`: `y` is unlinked from the tree, and the tree is repaired.  `x`
is the child of `y` that might replace it. -/
def unlink (fuel : Nat) (t : RedBlackTree ι) (y : ι) : Option (RedBlackTree ι) :=
  let x := if t.left y ≠ none then t.left y else t.right y
  let t := t.setParentOf x (t.parent y)
  let xParent := t.parent y
  let t := t.replaceChild (t.parent y) y x
  if t.color y = .black then t.removeFixup fuel x xParent else some t

/-- `remove(NodeType*)`. -/
def remove (fuel : Nat) (t : RedBlackTree ι) (z : ι) : Option (RedBlackTree ι × ι) := do
  -- `y` is the node to be unlinked from the tree
  let y ← if t.left z = none ∨ t.right z = none then some z else (t.successor fuel z).join
  let t ← t.unlink fuel y
  if y ≠ z then return (t.substitute y z, z)
  else return (t, z)

/-- `remove(const KeyType&)`. -/
def removeKey {κ : Type*} [LinearOrder κ] (fuel : Nat) (key : ι → κ) (t : RedBlackTree ι) (k : κ) :
    Option (RedBlackTree ι × Option ι) := do
  let result ← t.findExact fuel key k
  match result with
  | none => return (t, none)
  | some z =>
    let (t, z) ← t.remove fuel z
    return (t, some z)

end RedBlackTree

end JavaScriptCore.WTF
