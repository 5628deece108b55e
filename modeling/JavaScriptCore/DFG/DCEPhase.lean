/-
# Dead code elimination of the data flow compiler

`DCEPhase::run` counts the references of the nodes that have to stay, starting from the nodes that
must be generated and from the edges that carry a check, and then rewrites each block: a node
without references becomes a `Phantom`, which only keeps the edges that carry a check.  A node with
a range of children cannot keep them; each such edge gets a `Phantom` of its own, which is queued
for insertion before the node.

The loops that wait for a worklist to become empty take a number of turns that is given by `fuel`;
the result is `none` when it is not enough, and when a `ZombieHint` is met, at which the source
stops.  `garbage` is what the memory of a vector holds that has grown.
-/
import JavaScriptCore.DFG.Graph
import JavaScriptCore.WTF.Insertion

namespace JavaScriptCore.DFG.DCEPhase

open WTF (Insertion executeInsertions)

/-! ## 1. Counting references -/

/-- The reference counts and `m_worklist`, with its last element first. -/
structure Marking where
  refCount : NodeId → Nat
  worklist : List NodeId

/-- A node that gets its first reference goes to the worklist. -/
def countNode (s : Marking) (n : NodeId) : Marking where
  refCount := Function.update s.refCount n (s.refCount n + 1)
  worklist := if s.refCount n = 0 then n :: s.worklist else s.worklist

/-- An edge that carries a check keeps its node alive. -/
def findTypeCheckRoot (s : Marking) (e : Edge) : Marking :=
  if e.willNotHaveCheck then s else e.node.elim s (countNode s)

/-- The edges that carry a check have been counted before. -/
def countEdge (s : Marking) (e : Edge) : Marking :=
  if e.willHaveCheck then s else e.node.elim s (countNode s)

/-- The blocks that have not been removed. -/
def blocks (g : Graph) : List BasicBlock := g.blocks.filterMap id

def resetRefCounts (g : Graph) : NodeId → Nat :=
  (blocks g).foldl (fun refCount b =>
    (b.nodes.reverse ++ b.phis.reverse).foldl (fun refCount n => Function.update refCount n 0)
      refCount) g.refCount

def findRootsAt (g : Graph) (s : Marking) (n : NodeId) : Marking :=
  let s := (g.childEdges n).foldl findTypeCheckRoot s
  if (g.node n).flags.mustGenerate then countNode s n else s

def findRoots (g : Graph) : Marking :=
  (blocks g).foldl (fun s b => b.nodes.reverse.foldl (findRootsAt g) s) ⟨resetRefCounts g, []⟩

/-- An `Upsilon` stays if its `Phi` does. -/
def countUpsilon (g : Graph) (s : Marking) (n : NodeId) : Marking :=
  if (g.node n).op ≠ .upsilon then s
  else if s.refCount n ≠ 0 then s
  else if s.refCount (g.node n).phi ≠ 0 then countNode s n
  else s

def countUpsilons (g : Graph) (s : Marking) : Marking :=
  (blocks g).reverse.foldl (fun s b => b.nodes.reverse.foldl (countUpsilon g) s) s

/-- The two nested loops; the outer one is left when nothing is waiting after `countUpsilons`. -/
def mark (g : Graph) : Nat → Marking → Option Marking
  | 0, _ => none
  | fuel + 1, s =>
    match s.worklist with
    | n :: worklist =>
      mark g fuel ((g.childEdges n).foldl countEdge { s with worklist := worklist })
    | [] =>
      if g.m_form = .ssa then
        let s := countUpsilons g s
        if s.worklist = [] then some s else mark g fuel s
      else some s

def findLive (g : Graph) (fuel : Nat) : Option Marking :=
  let s := findRoots g
  if s.worklist = [] then some s else mark g fuel s

/-! ## 2. Rewriting a block -/

/-- The loop over the children of a node that becomes a `Phantom`: `i` stays when a child is
removed, since the next one takes its place. -/
def eliminateIrrelevantPhantomChildren : Nat → Nat → AdjacencyList → AdjacencyList
  | 0, _, children => children
  | fuel + 1, i, children =>
    if i < AdjacencyList.size then
      let edge := children.child i
      if !edge.isSet then eliminateIrrelevantPhantomChildren fuel (i + 1) children
      else if edge.willNotHaveCheck then
        eliminateIrrelevantPhantomChildren fuel i (children.removeEdge i)
      else eliminateIrrelevantPhantomChildren fuel (i + 1) children
    else children

/-- The graph and `m_insertionSet`. -/
structure Fixup where
  graph : Graph
  insertions : List (Insertion NodeId)

/-- `insertNode(indexInBlock, SpecNone, Phantom, node->codeOrigin, edge)` for an edge that carries a
check. -/
def insertPhantom (indexInBlock codeOrigin : Nat) (s : Fixup) (e : Edge) : Fixup :=
  if !e.isSet || e.willNotHaveCheck then s
  else
    let (graph, phantom) := s.graph.addNode
      { op := .phantom, flags := defaultFlags .phantom, children := ⟨e, {}, {}⟩,
        codeOrigin := codeOrigin }
    ⟨graph, s.insertions ++ [⟨indexInBlock, phantom⟩]⟩

/-- The default case of the switch: the node becomes a `Phantom`. -/
def eliminateNode (s : Fixup) (n : NodeId) (indexInBlock : Nat) : Fixup :=
  let node := s.graph.node n
  if node.flags.hasVarArgs then
    let s := (s.graph.varArgs node).foldl (insertPhantom indexInBlock node.codeOrigin) s
    let phantom := { node.setOpAndDefaultFlags .phantom with children := {} }
    { s with graph := (s.graph.setNode n phantom).setRefCount n 1 }
  else
    let phantom := { node.setOpAndDefaultFlags .phantom with
      children := eliminateIrrelevantPhantomChildren 7 0 node.children }
    { s with graph := (s.graph.setNode n phantom).setRefCount n 1 }

/-- A node without references is rewritten. -/
def fixupNode (s : Fixup) (n : NodeId) (indexInBlock : Nat) : Option Fixup :=
  let node := s.graph.node n
  if s.graph.shouldGenerate n then some s
  else
    match node.op with
    | .movHint =>
      if !(node.children.child1.node.elim false s.graph.shouldGenerate) then
        let node := node.setOpAndDefaultFlags .zombieHint
        some { s with
          graph := s.graph.setNode n { node with children := { node.children with child1 := {} } } }
      else some { s with graph := s.graph.setNode n (node.setOpAndDefaultFlags .movHint) }
    | .zombieHint => none
    | _ => some (eliminateNode s n indexInBlock)

/-- The nodes of a block, from the last one to the first. -/
def fixupNodes (s : Fixup) : List (NodeId × Nat) → Option Fixup
  | [] => some s
  | (n, indexInBlock) :: rest => do
    let s ← fixupNode s n indexInBlock
    fixupNodes s rest

/-- A variable whose node is dead refers to the node behind a dead `GetLocal`, or to nothing. -/
def cleanVariable (g : Graph) : Option NodeId → Option NodeId
  | none => none
  | some n =>
    if (g.node n).op ≠ .phantom ∧ g.shouldGenerate n then some n
    else if (g.node n).op = .getLocal then
      (g.node n).children.child1.node.filter g.shouldGenerate
    else none

def cleanVariables (g : Graph) (operands : Operands) : Operands :=
  fun operand => cleanVariable g (operands operand)

/-- A dead `Phi` is replaced by the last one of the block. -/
def removeDeadPhis (g : Graph) : Nat → Nat → List NodeId → List NodeId
  | 0, _, phis => phis
  | fuel + 1, phiIndex, phis =>
    match phis[phiIndex]? with
    | none => phis
    | some phi =>
      if !g.shouldGenerate phi then
        removeDeadPhis g fuel phiIndex ((phis.set phiIndex (phis.getLastD phi)).dropLast)
      else removeDeadPhis g fuel (phiIndex + 1) phis

/-- What is done to the links of a block before its nodes are rewritten. -/
def cleanBlock (g : Graph) (b : BasicBlock) : BasicBlock :=
  match g.m_form with
  | .threadedCPS =>
    { b with
      phis := removeDeadPhis g b.phis.length 0 b.phis
      variablesAtHead := cleanVariables g b.variablesAtHead
      variablesAtTail := cleanVariables g b.variablesAtTail }
  | _ => b

def fixupBlock (garbage : NodeId) (g : Graph) (i : BlockIndex) : Option Graph :=
  match g.block i with
  | none => some g
  | some b => do
    let s ← fixupNodes ⟨g, []⟩ b.nodes.zipIdx.reverse
    let b := cleanBlock g b
    return s.graph.setBlock i
      { b with nodes := executeInsertions garbage b.nodes s.insertions }

def fixupBlocks (garbage : NodeId) (g : Graph) : List BlockIndex → Option Graph
  | [] => some g
  | i :: rest => do
    let g ← fixupBlock garbage g i
    fixupBlocks garbage g rest

/-! ## 3. The phase -/

/-- The blocks in the order in which they are rewritten. -/
def order (g : Graph) (fuel : Nat) : Option (List BlockIndex) :=
  match g.m_form with
  | .ssa => (g.getBlocksInDepthFirstOrder fuel).map List.reverse
  | .threadedCPS => some (List.range g.numBlocks)
  | .loadStore => none

def run (garbage : NodeId) (fuel : Nat) (g : Graph) : Option Graph := do
  let s ← findLive g fuel
  let g := { g with refCount := s.refCount }
  let order ← order g fuel
  let g ← fixupBlocks garbage g order
  if g.m_form = .threadedCPS then
    return { g with m_arguments := g.m_arguments.map (cleanVariable g) }
  else return g

end JavaScriptCore.DFG.DCEPhase
