/-
# Dead code elimination: how the blocks are rewritten

`fixupBlock` rewrites the nodes without references of one block and inserts the `Phantom`s of those
that have a range of children.  `NodeFixed` says what becomes of a node and `BlockFixed` what
becomes of a block; both only speak of the node itself and of new nodes, so that what is done to
other blocks does not matter (`Extends`).  `fixupBlocks_spec` says it of all blocks.
-/
import JavaScriptCore.DFG.DCELiveness

namespace JavaScriptCore.DFG.DCEPhase

open List Function Nat
open JavaScriptCore.DFG.Graph

open WTF (Insertion executeInsertions)

variable {g g' g'' : Graph} {n p : NodeId} {S T : NodeId → Prop}

/-! ## 1. The children of a `Phantom` -/

/-- **A `Phantom` keeps the edges that carry a check.** -/
theorem edges_eliminate (children : AdjacencyList) :
    (eliminateIrrelevantPhantomChildren 7 0 children).edges =
      children.edges.filter Edge.willHaveCheck := by
  obtain ⟨a, b, c⟩ := children
  have hempty : ({} : Edge).isSet = false := rfl
  cases ha : a.isSet <;> cases hb : b.isSet <;> cases hc : c.isSet <;>
    cases hac : a.willNotHaveCheck <;> cases hbc : b.willNotHaveCheck <;>
    cases hcc : c.willNotHaveCheck <;>
    simp [eliminateIrrelevantPhantomChildren, AdjacencyList.size, AdjacencyList.child,
      AdjacencyList.removeEdge, AdjacencyList.edges, Edge.willHaveCheck, takeWhile,
      ha, hb, hc, hac, hbc, hcc, hempty]

/-! ## 2. Rewriting a node -/

/-- The nodes outside of `S` are as they were. -/
structure Extends (S : NodeId → Prop) (g g' : Graph) : Prop where
  next : g.nextNode ≤ g'.nextNode
  varArgs : g'.m_varArgChildren = g.m_varArgChildren
  form : g'.m_form = g.m_form
  same : ∀ m < g.nextNode, ¬S m → g'.node m = g.node m ∧ g'.refCount m = g.refCount m

theorem Extends.refl (S : NodeId → Prop) (g : Graph) : Extends S g g :=
  ⟨le_refl _, rfl, rfl, fun _ _ _ => ⟨rfl, rfl⟩⟩

theorem Extends.trans (h : Extends S g g') (h' : Extends T g' g'') :
    Extends (fun m => S m ∨ T m) g g'' := by
  refine ⟨le_trans h.next h'.next, h'.varArgs.trans h.varArgs, h'.form.trans h.form,
    fun m hm hS => ?_⟩
  obtain ⟨hnode, hcount⟩ := h.same m hm fun hs => hS (Or.inl hs)
  obtain ⟨hnode', hcount'⟩ := h'.same m (lt_of_lt_of_le hm h.next) fun ht => hS (Or.inr ht)
  exact ⟨hnode'.trans hnode, hcount'.trans hcount⟩

theorem Extends.mono (h : Extends S g g') (hST : ∀ m < g.nextNode, S m → T m) : Extends T g g' :=
  ⟨h.next, h.varArgs, h.form, fun m hm hT => h.same m hm fun hS => hT (hST m hm hS)⟩

theorem Extends.childEdges (h : Extends S g g') (hn : n < g.nextNode) (hS : ¬S n) :
    g'.childEdges n = g.childEdges n := by
  rw [Graph.childEdges, Graph.childEdges, Graph.varArgs, Graph.varArgs, h.varArgs,
    (h.same n hn hS).1]

/-- The `Phantom` that carries an edge. -/
def phantomNode (codeOrigin : Nat) (e : Edge) : Node where
  op := .phantom
  flags := defaultFlags .phantom
  children := ⟨e, {}, {}⟩
  codeOrigin := codeOrigin

/-- The edges that get a `Phantom` of their own. -/
def phantomEdges (g : Graph) (n : NodeId) : List Edge :=
  if g.shouldGenerate n then []
  else if (g.node n).flags.hasVarArgs then (g.childEdges n).filter Edge.willHaveCheck
  else []

/-- **What becomes of a node**: `phantoms` are inserted before it. -/
structure NodeFixed (g g' : Graph) (n : NodeId) (phantoms : List NodeId) : Prop where
  inserted : phantoms.map g'.node = (phantomEdges g n).map (phantomNode (g.node n).codeOrigin)
  live : g.shouldGenerate n = true → g'.node n = g.node n
  eliminated : g.shouldGenerate n = false → (g.node n).op ≠ .movHint → (g'.node n).op = .phantom ∧
    g'.childEdges n =
      if (g.node n).flags.hasVarArgs then [] else (g.childEdges n).filter Edge.willHaveCheck

/-- What is done elsewhere does not matter. -/
theorem NodeFixed.extends {phantoms : List NodeId} (h : NodeFixed g g' n phantoms)
    (he : Extends S g' g'') (hn : n < g'.nextNode) (hS : ¬S n)
    (hp : ∀ p ∈ phantoms, p < g'.nextNode ∧ ¬S p) : NodeFixed g g'' n phantoms := by
  refine ⟨?_, fun hlive => ?_, fun hdead hop => ?_⟩
  · rw [← h.inserted]
    exact map_congr_left fun p hmem => (he.same p (hp p hmem).1 (hp p hmem).2).1
  · rw [(he.same n hn hS).1, h.live hlive]
  · rw [(he.same n hn hS).1, he.childEdges hn hS]
    exact h.eliminated hdead hop

/-- The loop over the range of children. -/
theorem insertPhantom_foldl (indexInBlock codeOrigin : Nat) (s : Fixup) (l : List Edge) :
    ∃ phantoms : List NodeId, (l.foldl (insertPhantom indexInBlock codeOrigin) s).insertions =
        s.insertions ++ phantoms.map (Insertion.mk indexInBlock) ∧
      phantoms.map (l.foldl (insertPhantom indexInBlock codeOrigin) s).graph.node =
        ((l.filter Edge.isSet).filter Edge.willHaveCheck).map (phantomNode codeOrigin) ∧
      (∀ p ∈ phantoms, s.graph.nextNode ≤ p ∧
        p < (l.foldl (insertPhantom indexInBlock codeOrigin) s).graph.nextNode) ∧
      Extends (fun _ => False) s.graph (l.foldl (insertPhantom indexInBlock codeOrigin) s).graph ∧
      (l.foldl (insertPhantom indexInBlock codeOrigin) s).graph.blocks = s.graph.blocks := by
  induction l generalizing s with
  | nil => exact ⟨[], by simp, rfl, by simp, Extends.refl _ _, rfl⟩
  | cons e l ih =>
    rw [foldl_cons]
    obtain ⟨phantoms, hins, hnodes, hids, hext, hblocks⟩ :=
      ih (insertPhantom indexInBlock codeOrigin s e)
    generalize hs' : insertPhantom indexInBlock codeOrigin s e = s' at *
    rw [insertPhantom] at hs'
    by_cases hskip : (!e.isSet || e.willNotHaveCheck) = true
    · rw [if_pos hskip] at hs'
      subst hs'
      refine ⟨phantoms, hins, ?_, hids, hext, hblocks⟩
      rw [hnodes]
      cases hset : e.isSet <;> simp_all [Edge.willHaveCheck]
    · rw [if_neg hskip] at hs'
      have hcheck : e.isSet = true ∧ e.willHaveCheck = true := by
        simpa [Edge.willHaveCheck] using hskip
      have hnode : s'.graph.node s.graph.nextNode = phantomNode codeOrigin e := by
        rw [← hs']
        exact update_self ..
      have hnext : s'.graph.nextNode = s.graph.nextNode + 1 := by
        rw [← hs']
        rfl
      have hlt : s.graph.nextNode < s'.graph.nextNode := hnext ▸ lt_succ_self _
      have hadd : Extends (fun _ => False) s.graph s'.graph := by
        refine ⟨hlt.le, by rw [← hs']; rfl, by rw [← hs']; rfl, fun m hm _ => ?_⟩
        rw [← hs']
        exact ⟨update_of_ne hm.ne .., update_of_ne hm.ne ..⟩
      refine ⟨s.graph.nextNode :: phantoms, ?_, ?_, ?_, (hadd.trans hext).mono (by simp), ?_⟩
      · rw [hins, ← hs', map_cons, append_assoc]
        rfl
      · rw [map_cons, hnodes, (hext.same _ hlt id).1, hnode]
        simp [hcheck.1, hcheck.2]
      · refine forall_mem_cons.2 ⟨⟨le_refl _, lt_of_lt_of_le hlt hext.next⟩, ?_⟩
        exact fun p hp => ⟨le_trans hlt.le (hids p hp).1, (hids p hp).2⟩
      · rw [hblocks, ← hs']
        rfl

/-- Turning a node into a `Phantom`. -/
theorem extends_setPhantom (g : Graph) (n : NodeId) (node : Node) (count : Nat) :
    Extends (· = n) g ((g.setNode n node).setRefCount n count) := by
  refine ⟨le_refl _, rfl, rfl, fun m _ hm => ⟨?_, ?_⟩⟩
  · exact update_of_ne hm ..
  · exact update_of_ne hm ..

theorem extends_setNode (g : Graph) (n : NodeId) (node : Node) :
    Extends (· = n) g (g.setNode n node) :=
  ⟨le_refl _, rfl, rfl, fun _ _ hm => ⟨update_of_ne hm .., rfl⟩⟩

/-- What `fixupNode` does, seen from the graph `g` in which the phase began to rewrite. -/
structure FixesNode (g : Graph) (s s' : Fixup) (n indexInBlock : NodeId) (phantoms : List NodeId) :
    Prop where
  insertions : s'.insertions = s.insertions ++ phantoms.map (Insertion.mk indexInBlock)
  fixed : NodeFixed g s'.graph n phantoms
  new : ∀ p ∈ phantoms, s.graph.nextNode ≤ p ∧ p < s'.graph.nextNode
  frame : Extends (· = n) s.graph s'.graph
  blocks : s'.graph.blocks = s.graph.blocks

/-- The default case of the switch. -/
theorem eliminateNode_spec {s : Fixup} (hext : Extends S g s.graph) (hn : n < g.nextNode)
    (hS : ¬S n) (hdead : g.shouldGenerate n = false) (indexInBlock : Nat) :
    ∃ phantoms, FixesNode g s (eliminateNode s n indexInBlock) n indexInBlock phantoms := by
  obtain ⟨hnode, -⟩ := hext.same n hn hS
  have hn' : n < s.graph.nextNode := lt_of_lt_of_le hn hext.next
  have hnotLive : g.shouldGenerate n = true → False := fun h => by
    rw [hdead] at h
    cases h
  have hfixed (graph : Graph) (children : AdjacencyList) :
      ((graph.setNode n { (g.node n).setOpAndDefaultFlags .phantom with
        children := children }).setRefCount n 1).node n =
      { (g.node n).setOpAndDefaultFlags .phantom with children := children } :=
    update_self ..
  rw [eliminateNode, hnode]
  cases hargs : (g.node n).flags.hasVarArgs with
  | true =>
    obtain ⟨phantoms, hins, hnodes, hids, hadd, hblocks⟩ := insertPhantom_foldl indexInBlock
      (g.node n).codeOrigin s (s.graph.varArgs (g.node n))
    have hvarArgs : s.graph.varArgs (g.node n) = g.varArgs (g.node n) := by
      rw [varArgs, varArgs, hext.varArgs]
    refine ⟨phantoms, hins, ⟨?_, fun h => (hnotLive h).elim, fun _ _ => ?_⟩, hids, ?_, hblocks⟩
    · -- the new nodes are not the node that is rewritten
      have hne (p : NodeId) (hp : p ∈ phantoms) : p ≠ n :=
        (lt_of_lt_of_le hn' (hids p hp).1).ne'
      rw [phantomEdges, hdead, hargs, childEdges, hargs]
      simp only [Bool.false_eq_true, if_false, if_true]
      rw [← hvarArgs, ← hnodes]
      exact map_congr_left fun p hp => update_of_ne (hne p hp) ..
    · rw [hargs, if_pos rfl, childEdges]
      simp only [if_true, hfixed]
      exact ⟨rfl, rfl⟩
    · exact (hadd.trans (extends_setPhantom _ n _ 1)).mono fun m _ hm => hm.resolve_left id
  | false =>
    refine ⟨[], by simp, ⟨?_, fun h => (hnotLive h).elim, fun _ _ => ?_⟩, by simp,
      extends_setPhantom _ _ _ _, rfl⟩
    · rw [phantomEdges, hdead, hargs]
      rfl
    · rw [hargs, if_neg Bool.false_ne_true, childEdges, childEdges, hargs]
      simp only [Bool.false_eq_true, if_false, hfixed]
      exact ⟨rfl, edges_eliminate _⟩

theorem fixupNode_spec {s : Fixup} (hext : Extends S g s.graph) (hn : n < g.nextNode) (hS : ¬S n)
    (hzombie : (g.node n).op ≠ .zombieHint)
    (hmov : (g.node n).op = .movHint → (g.node n).flags.hasVarArgs = false) (indexInBlock : Nat) :
    ∃ s', fixupNode s n indexInBlock = some s' ∧
    ∃ phantoms, FixesNode g s s' n indexInBlock phantoms := by
  obtain ⟨hnode, hcount⟩ := hext.same n hn hS
  have hgen : s.graph.shouldGenerate n = g.shouldGenerate n := by
    rw [shouldGenerate, shouldGenerate, hcount]
  rw [fixupNode, hgen, hnode]
  cases hlive : g.shouldGenerate n with
  | true =>
    refine ⟨s, rfl, [], by simp, ⟨?_, fun _ => hnode, fun hdead => ?_⟩, by simp,
      Extends.refl _ _, rfl⟩
    · rw [phantomEdges, if_pos hlive]
      rfl
    · rw [hlive] at hdead
      cases hdead
  | false =>
    have hmovHint (hop : (g.node n).op = .movHint) (node : Node) :
        FixesNode g s { s with graph := s.graph.setNode n node } n indexInBlock [] := by
      refine ⟨by simp, ⟨?_, fun h => ?_, fun _ h => absurd hop h⟩, by simp,
        extends_setNode _ _ _, rfl⟩
      · rw [phantomEdges, hlive, hmov hop]
        rfl
      · rw [hlive] at h
        cases h
    have heliminated := eliminateNode_spec hext hn hS hlive indexInBlock
    simp only [Bool.false_eq_true, if_false]
    cases hop : (g.node n).op with
    | movHint =>
      simp only
      split_ifs <;> exact ⟨_, rfl, [], hmovHint hop _⟩
    | zombieHint => exact absurd hop hzombie
    | _ => exact ⟨_, rfl, heliminated⟩

/-! ## 3. Rewriting a block -/

/-- The insertions that are queued for a block. -/
def queued (nodes : List (NodeId × Nat)) (phantoms : NodeId → List NodeId) :
    List (Insertion NodeId) :=
  nodes.flatMap fun x => (phantoms x.1).map (Insertion.mk x.2)

/-- The nodes of a block can be rewritten. -/
structure Fixable (g : Graph) (nodes : List NodeId) : Prop where
  nodup : nodes.Nodup
  allocated : ∀ n ∈ nodes, n < g.nextNode
  zombieHint : ∀ n ∈ nodes, (g.node n).op ≠ .zombieHint
  movHint : ∀ n ∈ nodes, (g.node n).op = .movHint → (g.node n).flags.hasVarArgs = false

/-- **The nodes of a block are rewritten one by one**, and their insertions queued in this order. -/
theorem fixupNodes_spec {s : Fixup} (hext : Extends S g s.graph) {nodes : List (NodeId × Nat)}
    (hnodes : Fixable g (nodes.map Prod.fst)) (hS : ∀ n ∈ nodes.map Prod.fst, ¬S n) :
    ∃ s' phantoms, fixupNodes s nodes = some s' ∧ s'.insertions = s.insertions ++
      queued nodes phantoms ∧ (∀ n ∈ nodes.map Prod.fst, NodeFixed g s'.graph n (phantoms n) ∧
        ∀ p ∈ phantoms n, g.nextNode ≤ p ∧ p < s'.graph.nextNode) ∧
      Extends (· ∈ nodes.map Prod.fst) s.graph s'.graph ∧ s'.graph.blocks = s.graph.blocks := by
  induction nodes generalizing s S with
  | nil =>
    exact ⟨s, fun _ => [], rfl, by simp [queued], fun n hn => absurd hn not_mem_nil,
      Extends.refl _ _, rfl⟩
  | cons x nodes ih =>
    obtain ⟨n, i⟩ := x
    have hmap : ((n, i) :: nodes).map Prod.fst = n :: nodes.map Prod.fst := rfl
    rw [hmap] at hnodes hS ⊢
    obtain ⟨hnotMem, hnodup⟩ := nodup_cons.1 hnodes.nodup
    obtain ⟨hn, halloc⟩ := forall_mem_cons.1 hnodes.allocated
    obtain ⟨hzombie, hzombies⟩ := forall_mem_cons.1 hnodes.zombieHint
    obtain ⟨hmov, hmovs⟩ := forall_mem_cons.1 hnodes.movHint
    obtain ⟨hSn, hS⟩ := forall_mem_cons.1 hS
    obtain ⟨s₁, hs₁, own, hfixes⟩ := fixupNode_spec hext hn hSn hzombie hmov i
    obtain ⟨s₂, phantoms, hs₂, hins, hfixed, hframe, hblocks⟩ := ih (s := s₁)
      (hext.trans hfixes.frame) ⟨hnodup, halloc, hzombies, hmovs⟩ (by
        rintro m hm (hSm | rfl)
        · exact hS m hm hSm
        · exact hnotMem hm)
    have hnext : g.nextNode ≤ s.graph.nextNode := hext.next
    -- the phantoms of `n` are new, so they are not among the nodes that come after it
    have hold (p : NodeId) (hp : p ∈ own) : p ∉ nodes.map Prod.fst := fun hmem =>
      lt_irrefl p (lt_of_lt_of_le (halloc p hmem) (le_trans hnext (hfixes.new p hp).1))
    have hother (m : NodeId) (hm : m ∈ nodes.map Prod.fst) : update phantoms n own m = phantoms m :=
      update_of_ne (by rintro rfl; exact hnotMem hm) ..
    refine ⟨s₂, update phantoms n own, ?_, ?_, ?_, ?_, ?_⟩
    · rw [fixupNodes, hs₁]
      exact hs₂
    · have hqueued : queued nodes (update phantoms n own) = queued nodes phantoms := by
        refine flatMap_congr fun x hx => ?_
        rw [hother x.1 (mem_map_of_mem hx)]
      rw [hins, hfixes.insertions, append_assoc, ← hqueued]
      simp [queued]
    · refine forall_mem_cons.2 ⟨?_, fun m hm => ?_⟩
      · rw [update_self]
        have hn₁ : n < s₁.graph.nextNode :=
          lt_of_lt_of_le hn (le_trans hnext hfixes.frame.next)
        refine ⟨hfixes.fixed.extends hframe hn₁ hnotMem fun p hp => ⟨(hfixes.new p hp).2,
          hold p hp⟩, fun p hp => ⟨le_trans hnext (hfixes.new p hp).1, ?_⟩⟩
        exact lt_of_lt_of_le (hfixes.new p hp).2 hframe.next
      · rw [hother m hm]
        exact hfixed m hm
    · exact (hfixes.frame.trans hframe).mono fun m _ hm => mem_cons.2 hm
    · rw [hblocks, hfixes.blocks]

theorem nodes_cleanBlock (g : Graph) (b : BasicBlock) : (cleanBlock g b).nodes = b.nodes := by
  rw [cleanBlock]
  cases g.m_form <;> rfl

/-- **What becomes of a block.** -/
def BlockFixed (garbage : NodeId) (g g' : Graph) (b b' : BasicBlock) : Prop :=
  ∃ phantoms : NodeId → List NodeId,
    b'.nodes = executeInsertions garbage b.nodes (queued b.nodes.zipIdx.reverse phantoms) ∧
    ∀ n ∈ b.nodes, NodeFixed g g' n (phantoms n) ∧
      ∀ p ∈ phantoms n, g.nextNode ≤ p ∧ p < g'.nextNode

/-- What is done to other blocks does not matter. -/
theorem BlockFixed.extends {garbage : NodeId} {b b' : BasicBlock} (h : BlockFixed garbage g g' b b')
    (he : Extends S g' g'') (hnext : g.nextNode ≤ g'.nextNode)
    (hn : ∀ n ∈ b.nodes, n < g.nextNode ∧ ¬S n) (hS : ∀ p, S p → p < g.nextNode) :
    BlockFixed garbage g g'' b b' := by
  obtain ⟨phantoms, hnodes, hfixed⟩ := h
  refine ⟨phantoms, hnodes, fun n hmem => ?_⟩
  obtain ⟨hnode, hnew⟩ := hfixed n hmem
  refine ⟨hnode.extends he (lt_of_lt_of_le (hn n hmem).1 hnext) (hn n hmem).2 fun p hp => ?_,
    fun p hp => ⟨(hnew p hp).1, lt_of_lt_of_le (hnew p hp).2 he.next⟩⟩
  exact ⟨(hnew p hp).2, fun hs => absurd (hS p hs) (not_lt.2 (hnew p hp).1)⟩

theorem fixupBlock_spec (garbage : NodeId) {i : BlockIndex} {b : BasicBlock} (hext : Extends S g g')
    (hb : g'.block i = some b) (hnodes : Fixable g b.nodes) (hS : ∀ n ∈ b.nodes, ¬S n) :
    ∃ g'' b', fixupBlock garbage g' i = some g'' ∧ g''.block i = some b' ∧
      BlockFixed garbage g g'' b b' ∧ Extends (· ∈ b.nodes) g' g'' ∧
      ∀ j, j ≠ i → g''.block j = g'.block j := by
  have hmem (n : NodeId) : n ∈ (b.nodes.zipIdx.reverse).map Prod.fst ↔ n ∈ b.nodes := by
    rw [map_reverse, zipIdx_map_fst, mem_reverse]
  have hfixable : Fixable g ((b.nodes.zipIdx.reverse).map Prod.fst) := by
    refine ⟨?_, fun n hn => hnodes.allocated n ((hmem n).1 hn),
      fun n hn => hnodes.zombieHint n ((hmem n).1 hn), fun n hn => hnodes.movHint n ((hmem n).1 hn)⟩
    rw [map_reverse, zipIdx_map_fst]
    exact nodup_reverse.2 hnodes.nodup
  obtain ⟨s, phantoms, hs, hins, hfixed, hframe, hblocks⟩ := fixupNodes_spec (s := ⟨g', []⟩) hext
    hfixable fun n hn => hS n ((hmem n).1 hn)
  have hsome : (s.graph.block i).isSome := by
    rw [block, hblocks, ← block, hb]
    rfl
  let b' := { cleanBlock g' b with
    nodes := executeInsertions garbage (cleanBlock g' b).nodes s.insertions }
  have hrun : fixupBlock garbage g' i = some (s.graph.setBlock i b') := by
    rw [fixupBlock, hb]
    simp only [hs]
    rfl
  have hset : Extends (fun _ => False) s.graph (s.graph.setBlock i b') :=
    ⟨le_refl _, rfl, rfl, fun _ _ _ => ⟨rfl, rfl⟩⟩
  refine ⟨s.graph.setBlock i b', b', hrun, ?_, ⟨phantoms, ?_, fun n hn => ?_⟩, ?_, fun j hj => ?_⟩
  · rw [block_setBlock hsome, if_pos rfl]
  · rw [show b'.nodes = executeInsertions garbage (cleanBlock g' b).nodes s.insertions from rfl,
      nodes_cleanBlock, hins, nil_append]
  · obtain ⟨hnode, hnew⟩ := hfixed n ((hmem n).2 hn)
    have hn' : n < s.graph.nextNode :=
      lt_of_lt_of_le (hnodes.allocated n hn) (le_trans hext.next hframe.next)
    exact ⟨hnode.extends hset hn' id fun p hp => ⟨(hnew p hp).2, id⟩, hnew⟩
  · exact (hframe.trans hset).mono fun n _ hn => (hmem n).1 (hn.resolve_right id)
  · rw [block_setBlock hsome, if_neg hj, block, hblocks]
    rfl

/-! ## 4. Rewriting the graph -/

/-- The nodes of the block with index `i`. -/
def nodesAt (g : Graph) (i : BlockIndex) : List NodeId := (g.block i).elim [] BasicBlock.nodes

theorem nodesAt_eq {i : BlockIndex} {b : BasicBlock} (h : g.block i = some b) :
    nodesAt g i = b.nodes := by
  rw [nodesAt, h]
  rfl

theorem mem_blocks_of_block {i : BlockIndex} {b : BasicBlock} (h : g.block i = some b) :
    b ∈ blocks g := by
  rw [blocks, mem_filterMap]
  exact ⟨some b, mem_of_getElem? (Option.join_eq_some_iff.1 h), rfl⟩

/-- No node stands in two blocks. -/
theorem WellFormed.disjoint (hg : WellFormed g) {i j : BlockIndex} (hij : i ≠ j)
    (hi : n ∈ nodesAt g i) : n ∉ nodesAt g j := by
  intro hj
  -- the blocks are pairwise disjoint in the list that holds the removed ones as well
  have hpairwise := (List.nodup_flatMap.1 hg.nodup).2
  rw [blocks, List.pairwise_filterMap] at hpairwise
  have hblock (k : BlockIndex) (hk : n ∈ nodesAt g k) :
      ∃ b : BasicBlock, g.blocks[k]? = some (some b) ∧ n ∈ b.nodes ++ b.phis := by
    cases hb : g.block k with
    | none => rw [nodesAt, hb] at hk; cases hk
    | some b =>
      rw [nodesAt_eq hb] at hk
      exact ⟨b, Option.join_eq_some_iff.1 hb, List.mem_append_left _ hk⟩
  have hlt (i j : BlockIndex) (hij : i < j) (hi : n ∈ nodesAt g i) (hj : n ∈ nodesAt g j) :
      False := by
    obtain ⟨b, hb, hnb⟩ := hblock i hi
    obtain ⟨c, hc, hnc⟩ := hblock j hj
    obtain ⟨hilt, hb⟩ := List.getElem?_eq_some_iff.1 hb
    obtain ⟨hjlt, hc⟩ := List.getElem?_eq_some_iff.1 hc
    exact List.pairwise_iff_getElem.1 hpairwise i j hilt hjlt hij b hb c hc hnb hnc
  rcases lt_or_gt_of_ne hij with h | h
  · exact hlt i j h hi hj
  · exact hlt j i h hj hi

theorem WellFormed.fixable (hg : WellFormed g) {i : BlockIndex} {b : BasicBlock}
    (h : g.block i = some b) : Fixable g b.nodes := by
  have hb := mem_blocks_of_block h
  refine ⟨?_, fun n hn => hg.allocated n (mem_threaded_of_mem hb hn),
    fun n hn => hg.zombieHint b hb n hn, fun n hn hop => (hg.movHint b hb n hn hop).1⟩
  exact (nodup_append'.1 ((nodup_flatMap.1 hg.nodup).1 b hb)).1

/-- **Every block of a list is rewritten**, from a graph in which it is as it was. -/
theorem fixupBlocks_spec (garbage : NodeId) (hg : WellFormed g) {l : List BlockIndex} (hl : l.Nodup)
    (hext : Extends S g g') (hS : ∀ i ∈ l, ∀ n ∈ nodesAt g i, ¬S n)
    (hblocks : ∀ i ∈ l, g'.block i = g.block i) : ∃ g'', fixupBlocks garbage g' l = some g'' ∧
      (∀ i ∈ l, ∀ b, g.block i = some b → ∃ b', g''.block i = some b' ∧
        BlockFixed garbage g g'' b b') ∧ Extends (fun n => ∃ i ∈ l, n ∈ nodesAt g i) g' g'' ∧
        ∀ j, j ∉ l → g''.block j = g'.block j := by
  induction l generalizing g' S with
  | nil =>
    exact ⟨g', rfl, fun i hi => absurd hi not_mem_nil, Extends.refl _ _, fun _ _ => rfl⟩
  | cons i l ih =>
    obtain ⟨hi, hl⟩ := nodup_cons.1 hl
    obtain ⟨hSi, hS⟩ := forall_mem_cons.1 hS
    obtain ⟨hblock, hblocks⟩ := forall_mem_cons.1 hblocks
    cases hb : g.block i with
    | none =>
      obtain ⟨g'', hrun, hfixed, hframe, hother⟩ := ih hl hext hS hblocks
      refine ⟨g'', ?_, forall_mem_cons.2 ⟨fun b hb' => ?_, hfixed⟩, hframe.mono ?_, fun j hj => ?_⟩
      · rw [fixupBlocks, fixupBlock, hblock, hb]
        exact hrun
      · rw [hb] at hb'
        cases hb'
      · rintro n - ⟨j, hj, hn⟩
        exact ⟨j, mem_cons_of_mem i hj, hn⟩
      · exact hother j fun hmem => hj (mem_cons_of_mem i hmem)
    | some b =>
      rw [nodesAt_eq hb] at hSi
      obtain ⟨g₁, b', hrun₁, hb', hfixed₁, hframe₁, hother₁⟩ := fixupBlock_spec garbage hext
        (hblock.trans hb) (hg.fixable hb) hSi
      obtain ⟨g₂, hrun₂, hfixed₂, hframe₂, hother₂⟩ := ih hl (hext.trans hframe₁) (by
          rintro j hj n hn (hSn | hnb)
          · exact hS j hj n hn hSn
          · refine hg.disjoint (fun hij => ?_) (nodesAt_eq hb ▸ hnb) hn
            exact hi (hij ▸ hj)) (fun j hj => by
          rw [hother₁ j (by rintro rfl; exact hi hj), hblocks j hj])
      refine ⟨g₂, ?_, forall_mem_cons.2 ⟨fun b₀ hb₀ => ?_, hfixed₂⟩, ?_, fun j hj => ?_⟩
      · rw [fixupBlocks, hrun₁]
        exact hrun₂
      · obtain rfl : b = b₀ := Option.some.inj (hb.symm.trans hb₀)
        refine ⟨b', by rw [hother₂ i hi, hb'], hfixed₁.extends hframe₂ ?_ (fun n hn => ⟨?_, ?_⟩) ?_⟩
        · exact le_trans hext.next hframe₁.next
        · exact (hg.fixable hb).allocated n hn
        · rintro ⟨j, hj, hnj⟩
          exact hg.disjoint (by rintro rfl; exact hi hj) (nodesAt_eq hb ▸ hn) hnj
        · rintro p ⟨j, -, hp⟩
          cases hbj : g.block j with
          | none => rw [nodesAt, hbj] at hp; cases hp
          | some c => exact (hg.fixable hbj).allocated p (nodesAt_eq hbj ▸ hp)
      · refine (hframe₁.trans hframe₂).mono ?_
        rintro n - (hn | ⟨j, hj, hn⟩)
        · exact ⟨i, mem_cons_self, nodesAt_eq hb ▸ hn⟩
        · exact ⟨j, mem_cons_of_mem i hj, hn⟩
      · rw [hother₂ j fun hmem => hj (mem_cons_of_mem i hmem),
          hother₁ j (by rintro rfl; exact hj mem_cons_self)]

end JavaScriptCore.DFG.DCEPhase
