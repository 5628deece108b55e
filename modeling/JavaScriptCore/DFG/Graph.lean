/-
# The graph of the data flow compiler

A `Graph` is a list of basic blocks, some of which may have been removed, and a memory of nodes.  A
node refers to its children by edges; an edge says how its node is used, and whether the use has
been proved to need no check.  A node has up to three children of its own, or a range of the graph's
`m_varArgChildren`.

Of the node types the ones are listed that the modelled phases tell apart; all others are `other`.
Of the node flags the two are kept that these phases read.  The reference counts stand beside the
nodes.
-/
import Mathlib.Data.List.Basic

namespace JavaScriptCore.DFG

open Function

/-- The address of a node. -/
abbrev NodeId := Nat

abbrev BlockIndex := Nat

/-! ## 1. Edges -/

inductive UseKind where
  | untypedUse
  | int32Use
  | knownInt32Use
  | machineIntUse
  | realNumberUse
  | numberUse
  | knownNumberUse
  | booleanUse
  | cellUse
  | knownCellUse
  | objectUse
  | finalObjectUse
  | objectOrOtherUse
  | stringIdentUse
  | stringUse
  | knownStringUse
  | stringObjectUse
  | stringOrStringObjectUse
  | notCellUse
  | otherUse
  deriving DecidableEq

structure Edge where
  node : Option NodeId := none
  useKind : UseKind := .untypedUse
  isProved : Bool := false
  deriving DecidableEq

namespace Edge

def isSet (e : Edge) : Bool := e.node.isSome

def willNotHaveCheck (e : Edge) : Bool := e.isProved || e.useKind = .untypedUse

def willHaveCheck (e : Edge) : Bool := !e.willNotHaveCheck

end Edge

/-- The children that a node holds itself. -/
structure AdjacencyList where
  child1 : Edge := {}
  child2 : Edge := {}
  child3 : Edge := {}
  deriving DecidableEq

namespace AdjacencyList

def size : Nat := 3

def child (l : AdjacencyList) : Nat → Edge
  | 0 => l.child1
  | 1 => l.child2
  | _ => l.child3

/-- The children after the removed one move up. -/
def removeEdge (l : AdjacencyList) : Nat → AdjacencyList
  | 0 => ⟨l.child2, l.child3, {}⟩
  | 1 => ⟨l.child1, l.child3, {}⟩
  | _ => ⟨l.child1, l.child2, {}⟩

/-- The children up to the first missing one. -/
def edges (l : AdjacencyList) : List Edge := [l.child1, l.child2, l.child3].takeWhile Edge.isSet

end AdjacencyList

/-! ## 2. Nodes -/

inductive NodeType where
  | getLocal
  | setLocal
  | movHint
  | zombieHint
  | getArgument
  | phantom
  | check
  | upsilon
  | phi
  | flush
  | phantomLocal
  | setArgument
  | jump
  | branch
  | switch
  | other (op : Nat)
  deriving DecidableEq

structure NodeFlags where
  mustGenerate : Bool := false
  hasVarArgs : Bool := false
  deriving DecidableEq

/-- The flags of the node types that a phase turns nodes into. -/
def defaultFlags : NodeType → NodeFlags
  | .getArgument | .phantom | .flush | .phantomLocal | .jump | .branch | .switch =>
    { mustGenerate := true }
  | _ => {}

structure Node where
  op : NodeType
  flags : NodeFlags
  children : AdjacencyList := {}
  firstChild : Nat := 0
  numChildren : Nat := 0
  /-- The `Phi` of an `Upsilon`. -/
  phi : NodeId := 0
  /-- The targets of a terminal. -/
  successors : List BlockIndex := []
  codeOrigin : Nat := 0
  deriving DecidableEq

def Node.setOpAndDefaultFlags (n : Node) (op : NodeType) : Node :=
  { n with op := op, flags := defaultFlags op }

/-! ## 3. Blocks and graphs -/

/-- A bytecode variable. -/
inductive Operand where
  | argument (index : Nat)
  | local (index : Nat)
  deriving DecidableEq

abbrev Operands := Operand → Option NodeId

structure BasicBlock where
  nodes : List NodeId
  phis : List NodeId := []
  variablesAtHead : Operands := fun _ => none
  variablesAtTail : Operands := fun _ => none

inductive GraphForm where
  | loadStore
  | threadedCPS
  | ssa
  deriving DecidableEq

structure Graph where
  node : NodeId → Node
  refCount : NodeId → Nat
  /-- The address that `addNode` gives out next. -/
  nextNode : NodeId
  blocks : List (Option BasicBlock)
  m_varArgChildren : Nat → Edge
  m_arguments : List (Option NodeId)
  m_form : GraphForm

namespace Graph

section

variable (g : Graph)

def numBlocks : Nat := g.blocks.length

/-- The block with this index, unless it has been removed. -/
def block (i : BlockIndex) : Option BasicBlock := (g.blocks[i]?).join

def setBlock (i : BlockIndex) (b : BasicBlock) : Graph :=
  { g with blocks := g.blocks.set i (some b) }

section

variable (n : NodeId)

def setNode (node : Node) : Graph :=
  { g with node := update g.node n node }

def setRefCount (count : Nat) : Graph :=
  { g with refCount := update g.refCount n count }

def shouldGenerate : Bool := g.refCount n ≠ 0

/-- A new node has one reference. -/
def addNode (node : Node) : Graph × NodeId :=
  ({ g with
      node := update g.node g.nextNode node
      refCount := update g.refCount g.nextNode 1
      nextNode := g.nextNode + 1 }, g.nextNode)

/-- The range of `m_varArgChildren` that belongs to a node. -/
def varArgs (node : Node) : List Edge :=
  (List.range node.numChildren).map fun i => g.m_varArgChildren (node.firstChild + i)

end

/-- The edges that `DFG_NODE_DO_TO_CHILDREN` visits. -/
def childEdges (n : NodeId) : List Edge :=
  if (g.node n).flags.hasVarArgs then (g.varArgs (g.node n)).filter Edge.isSet
  else (g.node n).children.edges

/-- The successors of a block are those of its last node. -/
def successors (b : BasicBlock) : List BlockIndex :=
  match b.nodes.getLast? with
  | none => []
  | some n => (g.node n).successors

end

section Lemmas

variable {g : Graph}

theorem lt_numBlocks_of_block {i : BlockIndex} (h : (g.block i).isSome) : i < g.blocks.length := by
  by_contra hge
  rw [block, List.getElem?_eq_none (Nat.le_of_not_lt hge)] at h
  cases h

theorem block_setBlock {i : BlockIndex} (hi : (g.block i).isSome) (b : BasicBlock)
    (j : BlockIndex) :
    (g.setBlock i b).block j = if j = i then some b else g.block j := by
  rw [block, setBlock, List.getElem?_set]
  rcases eq_or_ne i j with rfl | hij
  · rw [if_pos rfl, if_pos (lt_numBlocks_of_block hi), if_pos rfl]
    rfl
  · rw [if_neg hij, if_neg hij.symm, block]

end Lemmas

end Graph

/-! ## 4. Blocks in depth-first order -/

/-- The blocks seen so far, in the order of `result`, and the worklist. -/
structure DepthFirst where
  result : List BlockIndex
  worklist : List BlockIndex

def DepthFirst.addForDepthFirstSort (s : DepthFirst) (i : BlockIndex) : DepthFirst :=
  if i ∈ s.result then s else ⟨s.result ++ [i], i :: s.worklist⟩

namespace Graph

/-- The successors of the block with index `i`. -/
def successorsAt (g : Graph) (i : BlockIndex) : List BlockIndex :=
  match g.block i with
  | none => []
  | some b => g.successors b

def depthFirstLoop (g : Graph) : Nat → DepthFirst → Option (List BlockIndex)
  | 0, _ => none
  | fuel + 1, s =>
    match s.worklist with
    | [] => some s.result
    | i :: worklist =>
      g.depthFirstLoop fuel
        ((g.successorsAt i).reverse.foldl DepthFirst.addForDepthFirstSort ⟨s.result, worklist⟩)

def getBlocksInDepthFirstOrder (g : Graph) (fuel : Nat) : Option (List BlockIndex) :=
  g.depthFirstLoop fuel (DepthFirst.addForDepthFirstSort ⟨[], []⟩ 0)

end Graph

end JavaScriptCore.DFG
