/-
# Store barrier elision

A store barrier records its base for the next collection, which has to look at old objects that were
written to.  `StoreBarrierElisionPhase` walks each block with a set `dontNeedBarriers` of nodes:
objects allocated since the last node that could cause a collection, and bases of barriers since
then.  A barrier on a member of the set becomes a `Phantom`.

What counts at run time is the set `recorded`: the objects that were allocated or recorded since the
last collection.  The phase puts the base of every barrier into its set, also of a
`ConditionalStoreBarrier` that finds a value that is no cell and records nothing.
`elidedRecorded_handleBlock_iff` says exactly when this does no harm: each barrier that would act
and whose base already has a barrier, with no node in between that could cause a collection, finds
its object allocated or recorded anyway.
-/
import JavaScriptCore.DFG.Graph

namespace JavaScriptCore.DFG.StoreBarrierElisionPhase

/-! ## 1. The phase -/

/-- The node types that the phase tells apart.  Of the others it asks whether they write `GCState`.
-/
inductive NodeType where
  | newObject
  | newArray
  | newArrayWithSize
  | newArrayBuffer
  | newTypedArray
  | newRegexp
  | storeBarrier
  | conditionalStoreBarrier
  | storeBarrierWithNullCheck
  | phantom
  | other (writesGCState : Bool)
  deriving DecidableEq

structure Node where
  id : NodeId
  op : NodeType
  child1 : Option NodeId := none
  child2 : Option NodeId := none
  deriving DecidableEq

def allocatesFreshObject (node : Node) : Bool :=
  node.op ∈ [.newObject, .newArray, .newArrayWithSize, .newArrayBuffer, .newTypedArray, .newRegexp]

def Node.isStoreBarrier (node : Node) : Bool :=
  node.op ∈ [.storeBarrier, .conditionalStoreBarrier, .storeBarrierWithNullCheck]

/-- `writesOverlap` for `GCState`: by `clobberize` all allocations write it, and the barriers do
not. -/
def couldCauseGC (node : Node) : Bool := allocatesFreshObject node || node.op = .other true

def Node.convertToPhantom (node : Node) : Node := { node with op := .phantom }

/-- What the set is when a barrier is looked at: it is cleared first, and then takes in a fresh
object. -/
def noticeNode (dontNeedBarriers : List NodeId) (node : Node) : List NodeId :=
  let dontNeedBarriers := if couldCauseGC node then [] else dontNeedBarriers
  if allocatesFreshObject node then node.id :: dontNeedBarriers else dontNeedBarriers

def shouldBeElided (dontNeedBarriers : List NodeId) (node : Node) : Bool :=
  node.child1.any (· ∈ dontNeedBarriers)

def handleNode (dontNeedBarriers : List NodeId) (node : Node) : List NodeId × Node :=
  let dontNeedBarriers := noticeNode dontNeedBarriers node
  if !node.isStoreBarrier then (dontNeedBarriers, node)
  else if shouldBeElided dontNeedBarriers node then (dontNeedBarriers, node.convertToPhantom)
  else (node.child1.toList ++ dontNeedBarriers, node)

/-- The loop of `handleBlock`. -/
def handleNodes (dontNeedBarriers : List NodeId) : List Node → List Node
  | [] => []
  | node :: block =>
    (handleNode dontNeedBarriers node).2 :: handleNodes (handleNode dontNeedBarriers node).1 block

def handleBlock (block : List Node) : List Node := handleNodes [] block

/-- The bases of the barriers since the last node that could cause a collection, after one more
node. -/
def namesBase (bases : List NodeId) (node : Node) : List NodeId :=
  if couldCauseGC node then [] else if node.isStoreBarrier then node.child1.toList ++ bases
  else bases

/-! ## 2. Executions -/

/-- An execution of a block: the values of the nodes, and the nodes that run a collection. -/
structure Execution (Value : Type) where
  value : NodeId → Value
  isCell : Value → Bool
  isNull : Value → Bool
  collects : NodeId → Bool

namespace Execution

variable {Value : Type} (e : Execution Value)

/-- Whether a barrier records its base. -/
def acts (node : Node) : Bool :=
  match node.op with
  | .storeBarrier => true
  | .conditionalStoreBarrier => node.child2.any fun child => e.isCell (e.value child)
  | .storeBarrierWithNullCheck => node.child1.any fun child => !e.isNull (e.value child)
  | _ => false

/-- The objects allocated or recorded since the last collection, after one more node. -/
def step (recorded : List Value) (node : Node) : List Value :=
  let recorded := if e.collects node.id then [] else recorded
  if allocatesFreshObject node then e.value node.id :: recorded
  else if e.acts node then node.child1.toList.map e.value ++ recorded else recorded

/-- Collections run only at nodes that could cause one. -/
def CollectsAtGC (block : List Node) : Prop :=
  ∀ node ∈ block, e.collects node.id = true → couldCauseGC node = true

instance (block : List Node) : Decidable (e.CollectsAtGC block) :=
  inferInstanceAs (Decidable (∀ node ∈ block, _))

/-- **Every barrier that was removed would have done nothing, or its object has been allocated or
recorded** since the last collection.  `recorded` follows the block that the phase leaves. -/
def ElidedRecorded [DecidableEq Value] (recorded : List Value) : List Node → List Node → Bool
  | node :: block, node' :: block' =>
    (node' = node || !e.acts node || node.child1.all fun base => e.value base ∈ recorded) &&
      ElidedRecorded (e.step recorded node') block block'
  | _, _ => true

/-- **A barrier that acts on a base that has had a barrier**, with no node since then that could
cause a collection, finds its object allocated or recorded since the last collection.  `recorded`
follows the block before the phase. -/
def NamedRecorded [DecidableEq Value] (bases : List NodeId) (recorded : List Value) :
    List Node → Bool
  | node :: block =>
    (!e.acts node || node.child1.all fun base => base ∉ bases || e.value base ∈ recorded) &&
      NamedRecorded (namesBase bases node) (e.step recorded node) block
  | [] => true

end Execution

/-! ## 3. What is elided -/

section Soundness

variable {Value : Type} {e : Execution Value} {node : Node} {set bases : List NodeId}
  {r r' : List Value}

variable (h : node.isStoreBarrier = true)

include h in
theorem not_couldCauseGC_of_barrier : couldCauseGC node = false ∧
    allocatesFreshObject node = false := by
  obtain ⟨id, op, child1, child2⟩ := node
  cases op <;> simp_all [Node.isStoreBarrier, couldCauseGC, allocatesFreshObject]

theorem isStoreBarrier_of_acts (h : e.acts node = true) : node.isStoreBarrier = true := by
  obtain ⟨id, op, child1, child2⟩ := node
  cases op <;> simp_all [Node.isStoreBarrier, Execution.acts]

theorem not_acts_of_not_barrier (h : ¬ node.isStoreBarrier = true) : e.acts node = false := by
  rw [← Bool.not_eq_true]
  exact mt isStoreBarrier_of_acts h

include h

/-- A barrier runs no collection. -/
theorem step_of_barrier (hc : e.collects node.id = true → couldCauseGC node = true) :
    e.step r node = if e.acts node then node.child1.toList.map e.value ++ r else r := by
  obtain ⟨hgc, hfresh⟩ := not_couldCauseGC_of_barrier h
  simp_all [Execution.step]

theorem step_phantom (hc : e.collects node.id = true → couldCauseGC node = true) :
    e.step r node.convertToPhantom = r := by
  obtain ⟨hgc, -⟩ := not_couldCauseGC_of_barrier h
  simp_all [Execution.step, Node.convertToPhantom, allocatesFreshObject, Execution.acts]

theorem convertToPhantom_ne : node.convertToPhantom ≠ node := by
  intro heq
  rw [← heq] at h
  simp [Node.isStoreBarrier, Node.convertToPhantom] at h

omit h

/-- **What the phase does with a node.** -/
theorem handleNode_cases (set : List NodeId) (node : Node) :
    (node.isStoreBarrier = false ∧ handleNode set node = (noticeNode set node, node)) ∨
    (node.isStoreBarrier = true ∧ ∃ base, node.child1 = some base ∧ base ∈ set ∧
      handleNode set node = (set, node.convertToPhantom)) ∨
    (node.isStoreBarrier = true ∧ (∀ base, node.child1 = some base → base ∉ set) ∧
      handleNode set node = (node.child1.toList ++ set, node)) := by
  cases hbarrier : node.isStoreBarrier with
  | false => simp [handleNode, hbarrier]
  | true =>
    obtain ⟨hgc, hfresh⟩ := not_couldCauseGC_of_barrier hbarrier
    cases hchild : node.child1 with
    | none => simp [handleNode, noticeNode, shouldBeElided, hbarrier, hgc, hfresh, hchild]
    | some base => by_cases h : base ∈ set <;>
        simp [handleNode, noticeNode, shouldBeElided, hbarrier, hgc, hfresh, hchild, h]

/-- **A second run changes nothing.** -/
theorem handleNodes_idem (block : List Node) :
    handleNodes set (handleNodes set block) = handleNodes set block := by
  induction block generalizing set with
  | nil => rfl
  | cons node block ih =>
    have hnode : handleNode set (handleNode set node).2 = handleNode set node := by
      rcases handleNode_cases set node with ⟨-, h⟩ | ⟨-, _, -, -, h⟩ | ⟨-, -, h⟩ <;> rw [h]
      exacts [h, rfl, h]
    rw [handleNodes, handleNodes, hnode, ih]

theorem step_congr (h : ∀ v, v ∈ r' ↔ v ∈ r) (v : Value) :
    v ∈ e.step r' node ↔ v ∈ e.step r node := by
  simp only [Execution.step]
  split_ifs <;> grind

/-! A node that could not cause a collection and is no barrier changes nothing. -/

theorem noticeNode_of_other (hgc : couldCauseGC node = false) : noticeNode set node = set := by
  simp [noticeNode, hgc, (Bool.or_eq_false_iff.mp hgc).1]

theorem namesBase_of_other (hbarrier : node.isStoreBarrier = false)
    (hgc : couldCauseGC node = false) :
    namesBase bases node = bases := by
  simp [namesBase, hbarrier, hgc]

theorem step_of_other (hbarrier : node.isStoreBarrier = false) (hgc : couldCauseGC node = false)
    (hc : e.collects node.id = true → couldCauseGC node = true) : e.step r node = r := by
  have hacts : e.acts node = false := not_acts_of_not_barrier (by simp [hbarrier])
  have hfresh : allocatesFreshObject node = false := (Bool.or_eq_false_iff.mp hgc).1
  simp_all [Execution.step]

include h in
theorem namesBase_of_barrier : namesBase bases node = node.child1.toList ++ bases := by
  simp [namesBase, h, (not_couldCauseGC_of_barrier h).1]

variable [DecidableEq Value]

/-- The induction is on the block.  The set of the phase has the bases, and a member of it that is
no base is recorded; the block that the phase leaves records what the one before records. -/
theorem elidedRecorded_iff_namedRecorded {block : List Node} (hc : e.CollectsAtGC block)
    (hbases : bases ⊆ set)
    (hset : ∀ b ∈ set, b ∈ bases ∨ e.value b ∈ r) (hr : ∀ v, v ∈ r' ↔ v ∈ r) :
    e.ElidedRecorded r' block (handleNodes set block) = true ↔
    e.NamedRecorded bases r block = true := by
  induction block generalizing set bases r r' with
  | nil => exact Iff.rfl
  | cons node block ih =>
    have hcollects := hc node (by simp)
    have hblock : e.CollectsAtGC block := fun n hn => hc n (by simp [hn])
    simp only [handleNodes, Execution.ElidedRecorded, Execution.NamedRecorded, Bool.and_eq_true]
    rcases handleNode_cases set node with
      ⟨hbarrier, heq⟩ | ⟨hbarrier, base, hchild, hbase, heq⟩ | ⟨hbarrier, hkept, heq⟩ <;> rw [heq]
    · have hacts : e.acts node = false := not_acts_of_not_barrier (by simp [hbarrier])
      refine and_congr (by simp [hacts]) ?_
      cases hgc : couldCauseGC node with
      | true =>
        refine ih hblock (by simp [namesBase, hgc]) (fun b hb => ?_) (step_congr hr)
        simp only [noticeNode, hgc, if_true] at hb
        simp only [Execution.step]
        split_ifs at hb ⊢ <;> simp_all
      | false =>
        rw [noticeNode_of_other hgc, namesBase_of_other hbarrier hgc]
        refine ih hblock hbases ?_ (step_congr hr)
        rwa [step_of_other hbarrier hgc hcollects]
    · have hrecorded := hset base hbase
      rw [step_phantom hbarrier hcollects, namesBase_of_barrier hbarrier,
        step_of_barrier hbarrier hcollects]
      simp only [convertToPhantom_ne hbarrier, hchild, Option.all_some]
      -- the object is recorded on both sides, so the barrier may go
      refine (and_congr_left' ?_).trans (and_congr_right fun hhead => ih hblock ?_ ?_ ?_) <;> grind
    · refine and_congr ?_ (ih hblock ?_ ?_ (step_congr hr))
      · cases hchild : node.child1 with
        | none => simp
        | some base => simp [mt (@hbases base) (hkept base hchild)]
      · rw [namesBase_of_barrier hbarrier]
        grind
      · rw [namesBase_of_barrier hbarrier, step_of_barrier hbarrier hcollects]
        grind

/-- **When elision is sound**: in every execution, the barriers that are removed have nothing to
record exactly if each barrier that acts on a base that has had a barrier finds its object allocated
or recorded since the last collection. -/
theorem elidedRecorded_handleBlock_iff (block : List Node) (e : Execution Value)
    (hc : e.CollectsAtGC block) :
    e.ElidedRecorded [] block (handleBlock block) = true ↔ e.NamedRecorded [] [] block = true :=
  elidedRecorded_iff_namedRecorded hc (List.Subset.refl _) (by simp) fun _ => Iff.rfl

/-- A `StoreBarrier` before a `ConditionalStoreBarrier` on the same base. -/
theorem elidedRecorded_handleBlock_storeBarrier :
    Execution.ElidedRecorded ⟨id, fun _ => true, fun _ => false, fun _ => false⟩ []
      [⟨2, .storeBarrier, some 0, none⟩, ⟨3, .conditionalStoreBarrier, some 0, some 1⟩]
      (handleBlock
        [⟨2, .storeBarrier, some 0, none⟩, ⟨3, .conditionalStoreBarrier, some 0, some 1⟩]) = true :=
  (elidedRecorded_handleBlock_iff _ _ (by decide)).mpr (by decide)

/-- Two stores into one object: first a value that is no cell, then a cell, which nobody records. -/
theorem not_elidedRecorded_conditional :
    ∃ (block : List Node) (e : Execution Nat), e.CollectsAtGC block ∧
      e.ElidedRecorded [] block (handleBlock block) = false :=
  ⟨[⟨3, .conditionalStoreBarrier, some 0, some 1⟩, ⟨4, .conditionalStoreBarrier, some 0, some 2⟩],
    ⟨id, fun v => v = 2, fun _ => false, fun _ => false⟩, by decide, by decide⟩

end Soundness

end JavaScriptCore.DFG.StoreBarrierElisionPhase
