/-
# Dead code elimination keeps what is alive

After the phase every live node should stand in its block once and in the old order, and each edge
of an eliminated node that carries a check should be carried by a `Phantom` at the place of this
node (`Keeps`).

**This is so if and only if no block has two dead nodes with a range of children among which an edge
carries a check** (`run_keeps_iff`).  `fixupBlock` walks a block backwards and queues the insertions
for such a node when it meets it, so that the insertions of two of them are queued in the wrong
order for `executeInsertions`, which then writes over other nodes of the block (`run_loses_node`).
-/
import Mathlib.Data.List.TakeWhile
import JavaScriptCore.DFG.DCEFixup

namespace JavaScriptCore.DFG.DCEPhase

open List Option
open JavaScriptCore.DFG.Graph

open WTF (Insertion executeInsertions executeInsertions_same_index getElem?_executeInsertions_of_lt)

variable {g g' : Graph} {b b' : BasicBlock} {n p : NodeId}

/-! ## 1. What the phase is for -/

/-- What a block should keep.  The nodes of the graph before the phase are those below `nextNode`.
-/
structure KeepsBlock (g g' : Graph) (b b' : BasicBlock) : Prop where
  order : b'.nodes.filter (fun n => decide (n < g.nextNode)) = b.nodes
  live : ∀ n ∈ b.nodes, Live g n → g'.node n = g.node n ∧ b'.nodes.count n = 1
  checks : ∀ before n after, b.nodes = before ++ n :: after →
    ∃ before' phantoms after', b'.nodes = before' ++ (phantoms ++ n :: after') ∧
      before'.filter (fun n => decide (n < g.nextNode)) = before ∧
      (∀ p ∈ phantoms, g.nextNode ≤ p ∧ (g'.node p).op = .phantom) ∧
      ∀ e ∈ g.childEdges n, e.willHaveCheck = true → ∃ p ∈ phantoms ++ [n], e ∈ g'.childEdges p ∧
        (g'.node n ≠ g.node n → (g'.node p).op = .phantom)

/-- **What the phase is for.** -/
def Keeps (g g' : Graph) : Prop :=
  ∀ i b, g.block i = some b → ∃ b', g'.block i = some b' ∧ KeepsBlock g g' b b'

/-- A dead node that needs `Phantom`s of its own. -/
def NeedsPhantoms (g : Graph) (n : NodeId) : Prop :=
  ¬Live g n ∧ (g.node n).flags.hasVarArgs = true ∧ ∃ e ∈ g.childEdges n, e.willHaveCheck = true

/-- **The condition.** -/
def AtMostOne (g : Graph) (b : BasicBlock) : Prop :=
  ∀ n ∈ b.nodes, ∀ m ∈ b.nodes, NeedsPhantoms g n → NeedsPhantoms g m → n = m

/-! ## 2. Insertions in the right order -/

variable {phantoms : NodeId → List NodeId}

theorem queued_eq_nil {nodes : List (NodeId × Nat)} (h : ∀ x ∈ nodes, phantoms x.1 = []) :
    queued nodes phantoms = [] := flatMap_eq_nil_iff.2 fun x hx => by rw [h x hx]; rfl

variable {nodes : List NodeId}

theorem fst_mem_of_mem_zipIdx {k : Nat} {x : NodeId × Nat}
    (h : x ∈ nodes.zipIdx k) : x.1 ∈ nodes := by
  have hmap := mem_map_of_mem (f := Prod.fst) h
  rwa [zipIdx_map_fst] at hmap

/-- The insertions of a block, at a node of which the ones before have none. -/
theorem queued_split (before after : List NodeId) (n : NodeId) (h : ∀ m ∈ before, phantoms m = []) :
    queued (before ++ n :: after).zipIdx.reverse phantoms =
      queued (after.zipIdx (before.length + 1)).reverse phantoms ++
        (phantoms n).map (Insertion.mk before.length) := by
  rw [zipIdx_append, zipIdx_cons, reverse_append, reverse_cons, queued, flatMap_append,
    flatMap_append]
  have hbefore :
      (before.zipIdx.reverse).flatMap (fun x => (phantoms x.1).map (Insertion.mk x.2)) = [] :=
    queued_eq_nil fun x hx => h x.1 (fst_mem_of_mem_zipIdx (mem_reverse.1 hx))
  rw [hbefore, append_nil]
  simp [queued]

/-- **With insertions for one node only, they are put before it.** -/
theorem nodes_of_one (garbage : NodeId) (nodes : List NodeId)
    (h : ∀ n ∈ nodes, ∀ m ∈ nodes, phantoms n ≠ [] → phantoms m ≠ [] → n = m)
    (hnodup : nodes.Nodup) :
    executeInsertions garbage nodes (queued nodes.zipIdx.reverse phantoms) =
      nodes.flatMap fun n => phantoms n ++ [n] := by
  have hself (l : List NodeId) (hl : ∀ n ∈ l, phantoms n = []) :
      l.flatMap (fun n => phantoms n ++ [n]) = l := by
    induction l with
    | nil => rfl
    | cons n l ih =>
      obtain ⟨hn, hl⟩ := forall_mem_cons.1 hl
      rw [flatMap_cons, ih hl, hn]
      rfl
  by_cases hnone : ∀ n ∈ nodes, phantoms n = []
  · rw [queued_eq_nil fun x hx => hnone x.1 (fst_mem_of_mem_zipIdx (mem_reverse.1 hx)),
      hself nodes hnone]
    rfl
  · obtain ⟨n, hn, hne⟩ : ∃ n ∈ nodes, phantoms n ≠ [] := by simpa using hnone
    obtain ⟨before, after, rfl⟩ := append_of_mem hn
    obtain ⟨-, hcons, hdisjoint⟩ := nodup_append'.1 hnodup
    -- all other nodes have no insertions
    have hother (m : NodeId) (hm : m ∈ before ++ n :: after) (hmn : m ≠ n) : phantoms m = [] := by
      by_contra hnm
      exact hmn (h m hm n hn hnm hne)
    have hbefore (m : NodeId) (hm : m ∈ before) : phantoms m = [] :=
      hother m (mem_append_left _ hm) fun hmn => hdisjoint hm (hmn ▸ mem_cons_self)
    have hafter (m : NodeId) (hm : m ∈ after) : phantoms m = [] :=
      hother m (mem_append_right _ (mem_cons_of_mem n hm)) fun hmn =>
        (nodup_cons.1 hcons).1 (hmn ▸ hm)
    rw [queued_split before after n hbefore,
      queued_eq_nil fun x hx => hafter x.1 (fst_mem_of_mem_zipIdx (mem_reverse.1 hx)),
      nil_append, executeInsertions_same_index garbage (by simp), flatMap_append,
      flatMap_cons, hself before hbefore, hself after hafter]
    simp

/-! ## 3. Insertions in the wrong order -/

theorem le_index_of_mem_queued {k : Nat} {x : Insertion NodeId}
    (h : x ∈ queued (nodes.zipIdx k).reverse phantoms) : k ≤ x.index := by
  obtain ⟨y, hy, hx⟩ := mem_flatMap.1 h
  obtain ⟨p, -, rfl⟩ := mem_map.1 hx
  exact (mem_zipIdx (mem_reverse.1 hy)).1

/-- **With insertions for a second node behind it, those for the first one are not put before it.**
-/
theorem nodes_of_two (garbage : NodeId) (before after : List NodeId) (n : NodeId)
    (hbefore : ∀ m ∈ before, phantoms m = []) (hafter : ∃ m ∈ after, phantoms m ≠ []) :
    ∃ rest, executeInsertions garbage (before ++ n :: after)
      (queued (before ++ n :: after).zipIdx.reverse phantoms) = before ++ n :: rest := by
  rw [queued_split before after n hbefore]
  generalize hlater : queued (after.zipIdx (before.length + 1)).reverse phantoms = later
  have hne : later ≠ [] := by
    obtain ⟨m, hm, hphantoms⟩ := hafter
    rw [← hlater]
    intro hnil
    obtain ⟨i, hi, rfl⟩ := mem_iff_getElem.1 hm
    have hmem : (after[i], before.length + 1 + i) ∈ (after.zipIdx (before.length + 1)).reverse := by
      rw [mem_reverse, mk_add_mem_zipIdx_iff_getElem?]
      exact getElem?_eq_getElem hi
    exact hphantoms (map_eq_nil_iff.1 (flatMap_eq_nil_iff.1 hnil _ hmem))
  have hplace (k : Nat) (x : Insertion NodeId)
      (hx : (later ++ (phantoms n).map (Insertion.mk before.length))[k]? = some x) :
      before.length < x.index + k := by
    obtain ⟨y, hy⟩ := exists_cons_of_ne_nil hne
    obtain ⟨tail, hy⟩ := hy
    have hlaterIndex (x : Insertion NodeId) (hmem : x ∈ later) : before.length + 1 ≤ x.index :=
      le_index_of_mem_queued (hlater ▸ hmem)
    cases k with
    | zero =>
      rw [hy] at hx
      obtain rfl := some.inj hx
      exact hlaterIndex y (hy ▸ mem_cons_self)
    | succ k =>
      rcases mem_append.1 (mem_of_getElem? hx) with hmem | hmem
      · have := hlaterIndex x hmem
        omega
      · obtain ⟨p, -, rfl⟩ := mem_map.1 hmem
        exact Nat.lt_add_of_pos_right (Nat.succ_pos k)
  have hsame {j : Nat} (hj : j ≤ before.length) :=
    getElem?_executeInsertions_of_lt garbage (before ++ n :: after) _ hplace (by simp) hj
  generalize executeInsertions garbage (before ++ n :: after) _ = result at hsame
  refine ⟨result.drop (before.length + 1), ?_⟩
  have htake : result.take (before.length + 1) = before ++ [n] := by
    refine ext_getElem? fun j => ?_
    rw [getElem?_take]
    split_ifs with hj
    · rw [hsame (Nat.le_of_lt_succ hj), append_cons, getElem?_append_left (by simpa using hj)]
    · rw [getElem?_eq_none (by simpa using hj)]
  calc result = result.take (before.length + 1) ++ result.drop (before.length + 1) :=
        (take_append_drop _ _).symm
    _ = before ++ n :: result.drop (before.length + 1) := by rw [htake, ← append_cons]

/-! ## 4. Blocks -/

/-- The graph when its references have been counted. -/
structure Counted (g g₁ : Graph) : Prop where
  node : g₁.node = g.node
  varArgs : g₁.m_varArgChildren = g.m_varArgChildren
  next : g₁.nextNode = g.nextNode
  live : ∀ n ∈ threaded g, g₁.shouldGenerate n = true ↔ Live g n

variable {g₁ : Graph}

theorem Counted.childEdges (h : Counted g g₁) (n : NodeId) : g₁.childEdges n = g.childEdges n := by
  rw [Graph.childEdges, Graph.childEdges, Graph.varArgs, Graph.varArgs, h.node, h.varArgs]

theorem Counted.dead (h : Counted g g₁) (hn : n ∈ threaded g) :
    g₁.shouldGenerate n = false ↔ ¬Live g n := by
  rw [← h.live n hn, Bool.not_eq_true]

theorem Counted.phantomEdges_ne_nil (h : Counted g g₁) (hn : n ∈ threaded g) :
    phantomEdges g₁ n ≠ [] ↔ NeedsPhantoms g n := by
  rw [NeedsPhantoms, ← h.dead hn, phantomEdges, h.childEdges, h.node]
  cases g₁.shouldGenerate n with
  | true => simp
  | false =>
    cases (g.node n).flags.hasVarArgs with
    | true | false => simp

variable {own : List NodeId}

/-- A node needs phantoms if and only if some are inserted. -/
theorem NodeFixed.ne_nil_iff (hfixed : NodeFixed g₁ g' n own) (h : Counted g g₁)
    (hn : n ∈ threaded g) : own ≠ [] ↔ NeedsPhantoms g n := by
  rw [← h.phantomEdges_ne_nil hn, ← not_iff_not, not_not, not_not, ← map_eq_nil_iff (f := g'.node),
    hfixed.inserted, map_eq_nil_iff]

/-- The node of a phantom that was inserted. -/
theorem NodeFixed.node_phantom (hfixed : NodeFixed g₁ g' n own) (hp : p ∈ own) :
    ∃ e, g'.node p = phantomNode (g₁.node n).codeOrigin e := by
  have hmem := mem_map_of_mem (f := g'.node) hp
  rw [hfixed.inserted] at hmem
  obtain ⟨e, -, he⟩ := mem_map.1 hmem
  exact ⟨e, he.symm⟩

theorem childEdges_phantomNode {e : Edge} {codeOrigin : Nat}
    (h : g'.node p = phantomNode codeOrigin e) (he : e.isSet = true) : e ∈ g'.childEdges p := by
  rw [childEdges, h]
  simp [phantomNode, defaultFlags, AdjacencyList.edges, takeWhile, he]

theorem isSet_of_mem_childEdges {e : Edge} (h : e ∈ g.childEdges n) : e.isSet = true := by
  rw [childEdges] at h
  split_ifs at h
  · exact (mem_filter.1 h).2
  · exact mem_takeWhile_imp h

/-- **Every edge with a check is carried by the node or by a phantom before it.** -/
theorem NodeFixed.carries (hfixed : NodeFixed g₁ g' n own) (h : Counted g g₁)
    (hvarArgs : g'.m_varArgChildren = g.m_varArgChildren)
    (hmov : (g.node n).op = .movHint → ∀ e ∈ g.childEdges n, e.willNotHaveCheck = true)
    {e : Edge} (he : e ∈ g.childEdges n) (hcheck : e.willHaveCheck = true) :
    ∃ p ∈ own ++ [n], e ∈ g'.childEdges p ∧ (g'.node n ≠ g.node n → (g'.node p).op = .phantom) := by
  have hself : n ∈ own ++ [n] := mem_append_right _ (mem_singleton_self n)
  have hop : (g₁.node n).op ≠ .movHint := fun hop => by
    rw [h.node] at hop
    rw [Edge.willHaveCheck, hmov hop e he] at hcheck
    cases hcheck
  cases hgen : g₁.shouldGenerate n with
  | true =>
    have hnode : g'.node n = g.node n := by rw [hfixed.live hgen, h.node]
    refine ⟨n, hself, ?_, fun hne => absurd hnode hne⟩
    rw [childEdges, hnode, varArgs, hvarArgs]
    exact he
  | false =>
    obtain ⟨hphantom, hedges⟩ := hfixed.eliminated hgen hop
    cases hargs : (g.node n).flags.hasVarArgs with
    | false =>
      refine ⟨n, hself, ?_, fun _ => hphantom⟩
      rw [hedges, h.node, hargs, h.childEdges]
      exact mem_filter.2 ⟨he, hcheck⟩
    | true =>
      have hmem : e ∈ phantomEdges g₁ n := by
        rw [phantomEdges, hgen, h.node, hargs, h.childEdges]
        exact mem_filter.2 ⟨he, hcheck⟩
      have hcarrier := mem_map_of_mem (f := phantomNode (g₁.node n).codeOrigin) hmem
      rw [← hfixed.inserted] at hcarrier
      obtain ⟨p, hp, hnode⟩ := mem_map.1 hcarrier
      refine ⟨p, mem_append_left _ hp, childEdges_phantomNode hnode (isSet_of_mem_childEdges he),
        ?_⟩
      rw [hnode]
      exact fun _ => rfl

theorem filter_inserted {next : Nat} (hnodes : ∀ n ∈ nodes, n < next)
    (hnew : ∀ n ∈ nodes, ∀ p ∈ phantoms n, next ≤ p) :
    (nodes.flatMap fun n => phantoms n ++ [n]).filter (fun n => decide (n < next)) = nodes := by
  induction nodes with
  | nil => rfl
  | cons n nodes ih =>
    obtain ⟨hn, hnodes⟩ := forall_mem_cons.1 hnodes
    obtain ⟨hp, hnew⟩ := forall_mem_cons.1 hnew
    have hphantoms : (phantoms n).filter (fun n => decide (n < next)) = [] :=
      filter_eq_nil_iff.2 fun p hmem => by simpa using hp p hmem
    rw [flatMap_cons, filter_append, filter_append, ih hnodes hnew, hphantoms]
    simp [hn]

/-- **A block with at most one such node keeps what it should.** -/
theorem keepsBlock_of_atMostOne {garbage : NodeId} (hg : WellFormed g) (h : Counted g g₁)
    (hvarArgs : g'.m_varArgChildren = g.m_varArgChildren) (hb : b ∈ blocks g)
    (hnodup : b.nodes.Nodup) (hfixed : BlockFixed garbage g₁ g' b b') (hone : AtMostOne g b) :
    KeepsBlock g g' b b' := by
  obtain ⟨phantoms, hnodes, hfixed⟩ := hfixed
  have hthreaded (n : NodeId) (hn : n ∈ b.nodes) : n ∈ threaded g := mem_threaded_of_mem hb hn
  have hold (n : NodeId) (hn : n ∈ b.nodes) : n < g.nextNode := hg.allocated n (hthreaded n hn)
  have hnew (n : NodeId) (hn : n ∈ b.nodes) (p : NodeId) (hp : p ∈ phantoms n) : g.nextNode ≤ p :=
    h.next ▸ ((hfixed n hn).2 p hp).1
  rw [nodes_of_one garbage b.nodes (fun n hn m hm hpn hpm => hone n hn m hm
    (((hfixed n hn).1.ne_nil_iff h (hthreaded n hn)).1 hpn)
    (((hfixed m hm).1.ne_nil_iff h (hthreaded m hm)).1 hpm)) hnodup] at hnodes
  have horder : b'.nodes.filter (fun n => decide (n < g.nextNode)) = b.nodes := by
    rw [hnodes]
    exact filter_inserted hold hnew
  refine ⟨horder, fun n hn hlive => ⟨?_, ?_⟩, fun before n after hsplit => ?_⟩
  · rw [(hfixed n hn).1.live ((h.live n (hthreaded n hn)).2 hlive), h.node]
  · rw [← count_filter (p := fun n => decide (n < g.nextNode)) (decide_eq_true (hold n hn)), horder]
    exact count_eq_one_of_mem hnodup hn
  · have hn : n ∈ b.nodes := hsplit ▸ mem_append_right _ mem_cons_self
    have hsub (m : NodeId) (hm : m ∈ before) : m ∈ b.nodes := hsplit ▸ mem_append_left _ hm
    refine ⟨before.flatMap fun n => phantoms n ++ [n], phantoms n,
      after.flatMap fun n => phantoms n ++ [n], ?_, ?_, fun p hp => ⟨hnew n hn p hp, ?_⟩, ?_⟩
    · rw [hnodes, hsplit, flatMap_append, flatMap_cons, append_assoc]
      rfl
    · exact filter_inserted (fun m hm => hold m (hsub m hm)) fun m hm => hnew m (hsub m hm)
    · obtain ⟨e, he⟩ := (hfixed n hn).1.node_phantom hp
      rw [he]
      rfl
    · intro e he hcheck
      exact (hfixed n hn).1.carries h hvarArgs (fun hop => (hg.movHint b hb n hn hop).2) he hcheck

/-- **A block with two such nodes does not.** -/
theorem atMostOne_of_keepsBlock {garbage : NodeId} (hg : WellFormed g) (h : Counted g g₁)
    (hb : b ∈ blocks g) (hnodup : b.nodes.Nodup) (hfixed : BlockFixed garbage g₁ g' b b')
    (hkeeps : KeepsBlock g g' b b') : AtMostOne g b := by
  obtain ⟨phantoms, hnodes, hfixed⟩ := hfixed
  have hneeds (n : NodeId) (hn : n ∈ b.nodes) : phantoms n ≠ [] ↔ NeedsPhantoms g n :=
    (hfixed n hn).1.ne_nil_iff h (mem_threaded_of_mem hb hn)
  intro n₁ hn₁ n₂ hn₂ hneeds₁ hneeds₂
  by_contra hne
  -- the first node of the block that needs phantoms
  obtain ⟨n, hfind⟩ : ∃ n, b.nodes.find? (fun n => decide (phantoms n ≠ [])) = some n := by
    rw [← isSome_iff_exists, find?_isSome]
    exact ⟨n₁, hn₁, decide_eq_true ((hneeds n₁ hn₁).2 hneeds₁)⟩
  obtain ⟨hphantoms, before, after, hsplit, hbefore⟩ := find?_eq_some_iff_append.1 hfind
  have hphantoms : phantoms n ≠ [] := of_decide_eq_true hphantoms
  have hbefore (m : NodeId) (hm : m ∈ before) : phantoms m = [] := by simpa using hbefore m hm
  have hn : n ∈ b.nodes := hsplit ▸ mem_append_right _ mem_cons_self
  have hafter : ∃ m ∈ after, phantoms m ≠ [] := by
    have hmem (m : NodeId) (hm : m ∈ b.nodes) (hpm : phantoms m ≠ []) (hmn : m ≠ n) :
        m ∈ after := by
      rw [hsplit] at hm
      rcases mem_append.1 hm with hm | hm
      · exact absurd (hbefore m hm) hpm
      · exact (mem_cons.1 hm).resolve_left hmn
    by_cases h₁ : n₁ = n
    · exact ⟨n₂, hmem n₂ hn₂ ((hneeds n₂ hn₂).2 hneeds₂) fun h₂ => hne (h₁.trans h₂.symm),
        (hneeds n₂ hn₂).2 hneeds₂⟩
    · exact ⟨n₁, hmem n₁ hn₁ ((hneeds n₁ hn₁).2 hneeds₁) h₁, (hneeds n₁ hn₁).2 hneeds₁⟩
  obtain ⟨rest, hrest⟩ := nodes_of_two garbage before after n hbefore hafter
  obtain ⟨before', inserted, after', hsplit', hbefore', hinserted, hcarried⟩ :=
    hkeeps.checks before n after hsplit
  rw [hsplit] at hnodes
  rw [hnodes, hrest] at hsplit'
  -- `n` stands in the new block once, so nothing is inserted before it
  have honce : (before ++ n :: rest).count n = 1 := by
    rw [← hrest, ← hnodes]
    have hold : n < g.nextNode := hg.allocated n (mem_threaded_of_mem hb hn)
    rw [← count_filter (p := fun n => decide (n < g.nextNode)) (decide_eq_true hold), hkeeps.order]
    exact count_eq_one_of_mem hnodup hn
  rw [count_append, count_cons_self] at honce
  have hnotBefore : n ∉ before := count_eq_zero.1 (by omega)
  have hnotRest : n ∉ rest := count_eq_zero.1 (by omega)
  rw [← append_assoc] at hsplit'
  obtain ⟨hstart, -, -⟩ := (append_cons_inj_of_notMem hnotBefore hnotRest).1 hsplit'
  have hnil : inserted = [] := by
    refine eq_nil_iff_forall_not_mem.2 fun p hp => ?_
    have hmem : p ∈ b.nodes := by
      rw [hsplit, hstart]
      exact mem_append_left _ (mem_append_right _ hp)
    exact Nat.not_le_of_lt (hg.allocated p (mem_threaded_of_mem hb hmem)) (hinserted p hp).1
  -- but `n` itself does not carry its edges any more
  obtain ⟨hdead, hargs, e, he, hcheck⟩ := (hneeds n hn).1 hphantoms
  obtain ⟨p, hp, hmem, -⟩ := hcarried e he hcheck
  rw [hnil] at hp
  obtain rfl := mem_singleton.1 hp
  have hop : (g₁.node p).op ≠ .movHint := fun hop => by
    rw [h.node] at hop
    rw [(hg.movHint b hb p hn hop).1] at hargs
    cases hargs
  have hedges := ((hfixed p hn).1.eliminated ((h.dead (mem_threaded_of_mem hb hn)).2 hdead) hop).2
  rw [h.node, hargs, if_pos rfl] at hedges
  rw [hedges] at hmem
  cases hmem

/-! ## 5. The phase -/

/-- The blocks that are rewritten: all of them, or those that can be reached from the root. -/
def Visited (g : Graph) (i : BlockIndex) : Prop := g.m_form = .ssa → Reachable g i

theorem order_spec (hg : WellFormed g) {fuel : Nat} (hfuel : 2 * g.numBlocks < fuel) :
    ∃ l, order g fuel = some l ∧ l.Nodup ∧ ∀ i, (g.block i).isSome → (i ∈ l ↔ Visited g i) := by
  rw [order]
  cases hform : g.m_form with
  | loadStore => exact absurd hform hg.form
  | threadedCPS =>
    refine ⟨_, rfl, nodup_range, fun i hi => iff_of_true (mem_range.2 ?_) fun hssa => ?_⟩
    · exact Finset.mem_range.1 (Finset.mem_filter.1 (mem_validBlocks.2 hi)).1
    · rw [hform] at hssa
      cases hssa
  | ssa =>
    obtain ⟨l, hl, hnodup, hmem⟩ := getBlocksInDepthFirstOrder_spec hg hform hfuel
    refine ⟨l.reverse, by simp only [hl]; rfl, nodup_reverse.2 hnodup, fun i _ => ?_⟩
    rw [mem_reverse, hmem]
    exact ⟨fun h _ => h, fun h => h hform⟩

theorem Reachable.congr (h : ∀ i, g'.successorsAt i = g.successorsAt i) {i : BlockIndex}
    (hi : Reachable g i) : Reachable g' i := by
  induction hi with
  | root => exact .root
  | successor _ hj ih => exact .successor ih (h _ ▸ hj)

/-- A block that is not rewritten keeps everything. -/
theorem keepsBlock_self (hg : WellFormed g) (hb : b ∈ blocks g) (hnodup : b.nodes.Nodup)
    (hvarArgs : g'.m_varArgChildren = g.m_varArgChildren)
    (hsame : ∀ n ∈ b.nodes, g'.node n = g.node n) : KeepsBlock g g' b b := by
  have hold (l : List NodeId) (hl : ∀ n ∈ l, n ∈ b.nodes) :
      l.filter (fun n => decide (n < g.nextNode)) = l :=
    filter_eq_self.2 fun n hn => decide_eq_true (hg.allocated n (mem_threaded_of_mem hb (hl n hn)))
  refine ⟨hold _ fun _ hn => hn, fun n hn _ => ⟨hsame n hn, count_eq_one_of_mem hnodup hn⟩, ?_⟩
  intro before n after hsplit
  have hn : n ∈ b.nodes := hsplit ▸ mem_append_right _ mem_cons_self
  refine ⟨before, [], after, hsplit, hold before fun m hm => hsplit ▸ mem_append_left _ hm,
    fun p hp => absurd hp not_mem_nil, fun e he _ => ⟨n, mem_singleton_self n, ?_, ?_⟩⟩
  · rw [childEdges, hsame n hn, varArgs, hvarArgs]
    exact he
  · exact fun hne => absurd (hsame n hn) hne

/-- **What the phase does**, with enough turns for its loops. -/
theorem run_spec (hg : WellFormed g) (garbage : NodeId) {fuel : Nat}
    (hfuel : 2 * (threaded g).length + 2 * g.numBlocks < fuel) :
    ∃ g₁ g', run garbage fuel g = some g' ∧ Counted g g₁ ∧
    g'.m_varArgChildren = g.m_varArgChildren ∧ ∀ i b, g.block i = some b →
    ∃ b', g'.block i = some b' ∧ (Visited g i → BlockFixed garbage g₁ g' b b') ∧
        (¬Visited g i → b' = b ∧ ∀ n ∈ b.nodes, g'.node n = g.node n) := by
  obtain ⟨s, hs, hlive⟩ := findLive_spec hg (show 2 * (threaded g).length < fuel by omega)
  let g₁ : Graph := { g with refCount := s.refCount }
  have hg₁ : WellFormed g₁ := ⟨hg.form, hg.nodup, hg.allocated, hg.children, hg.phis, hg.movHint,
    hg.upsilon, hg.zombieHint, hg.root, hg.successors⟩
  have hcounted : Counted g g₁ := by
    refine ⟨rfl, rfl, rfl, fun n hn => ?_⟩
    rw [← hlive n hn]
    exact decide_eq_true_iff
  obtain ⟨l, horder, hl, hvisited⟩ := order_spec hg₁ (show 2 * g.numBlocks < fuel by omega)
  obtain ⟨g₂, hfixup, hfixed, hframe, hother⟩ :=
    fixupBlocks_spec (S := fun _ => False) garbage hg₁ hl
    (Extends.refl _ g₁) (fun _ _ _ _ => id) fun _ _ => rfl
  let g' : Graph :=
    if g₂.m_form = .threadedCPS then
      { g₂ with m_arguments := g₂.m_arguments.map (cleanVariable g₂) }
    else g₂
  have hrun : run garbage fuel g = some g' := by
    rw [run, hs]
    simp only [bind_eq_bind, bind_some]
    rw [horder]
    simp only [bind_some]
    rw [hfixup]
    simp only [bind_some, g']
    split_ifs <;> rfl
  obtain ⟨hnode, hblock, hend⟩ :
      g'.node = g₂.node ∧ g'.block = g₂.block ∧ Extends (fun _ => False) g₂ g' := by
    simp only [g']
    split_ifs
    · exact ⟨rfl, rfl, Nat.le_refl _, rfl, rfl, fun _ _ _ => ⟨rfl, rfl⟩⟩
    · exact ⟨rfl, rfl, Extends.refl _ _⟩
  refine ⟨g₁, g', hrun, hcounted, (hframe.trans hend).varArgs, fun i b hb => ?_⟩
  have hsuccessors (j : BlockIndex) : g₁.successorsAt j = g.successorsAt j := rfl
  have hvisits : Visited g₁ i ↔ Visited g i :=
    imp_congr_right fun _ => ⟨Reachable.congr fun j => (hsuccessors j).symm,
      Reachable.congr hsuccessors⟩
  have hsome : (g₁.block i).isSome := isSome_iff_exists.2 ⟨b, hb⟩
  have hmem := (hvisited i hsome).trans hvisits
  by_cases hvisit : Visited g i
  · obtain ⟨b', hb', hblockFixed⟩ := hfixed i (hmem.2 hvisit) b hb
    refine ⟨b', hblock ▸ hb', fun _ => ?_, fun hnot => absurd hvisit hnot⟩
    exact hblockFixed.extends hend hframe.next
      (fun n hn => ⟨(hg₁.fixable hb).allocated n hn, id⟩) fun _ h => h.elim
  · have hi : i ∉ l := fun hi => hvisit (hmem.1 hi)
    refine ⟨b, ?_, fun h => absurd h hvisit, fun _ => ⟨rfl, fun n hn => ?_⟩⟩
    · rw [hblock, hother i hi]
      exact hb
    · have hn' : n ∈ nodesAt g₁ i := nodesAt_eq (g := g₁) hb ▸ hn
      have hsame := hframe.same n ((hg₁.fixable hb).allocated n hn) (by
        rintro ⟨j, hj, hnj⟩
        exact hg₁.disjoint (by rintro rfl; exact hi hj) hn' hnj)
      rw [hnode]
      exact hsame.1

/-- **Dead code elimination keeps what it should if and only if no block that is rewritten has two
dead nodes that need `Phantom`s of their own.** -/
theorem run_keeps_iff (g : Graph) (hg : WellFormed g) (garbage : NodeId) (fuel : Nat)
    (hfuel : 2 * (threaded g).length + 2 * g.numBlocks < fuel) :
    ∃ g', run garbage fuel g = some g' ∧
      ((∀ i b, g.block i = some b → Visited g i → AtMostOne g b) ↔ Keeps g g') := by
  obtain ⟨g₁, g', hrun, hcounted, hvarArgs, hblocks⟩ := run_spec hg garbage hfuel
  refine ⟨g', hrun, fun hone i b hb => ?_, fun hkeeps i b hb hvisit => ?_⟩
  · obtain ⟨b', hb', hfixed, hsame⟩ := hblocks i b hb
    refine ⟨b', hb', ?_⟩
    have hmem := mem_blocks_of_block hb
    have hnodup := (hg.fixable hb).nodup
    by_cases hvisit : Visited g i
    · exact keepsBlock_of_atMostOne hg hcounted hvarArgs hmem hnodup (hfixed hvisit)
        (hone i b hb hvisit)
    · obtain ⟨rfl, hnodes⟩ := hsame hvisit
      exact keepsBlock_self hg hmem hnodup hvarArgs hnodes
  · obtain ⟨b', hb', hfixed, -⟩ := hblocks i b hb
    obtain ⟨b'', hb'', hkept⟩ := hkeeps i b hb
    obtain rfl : b' = b'' := some.inj (hb'.symm.trans hb'')
    exact atMostOne_of_keepsBlock hg hcounted (mem_blocks_of_block hb) (hg.fixable hb).nodup
      (hfixed hvisit) hkept

/-! ## 6. Two arrays that nobody uses -/

/-- Nodes `1` and `4` are array literals with node `0` as their element, which is checked to be an
integer; nodes `2`, `3` and `5` have effects. -/
def arrays (nodes : List NodeId) : Graph where
  node n :=
    if n = 1 ∨ n = 4 then { op := .other 1, flags := { hasVarArgs := true }, numChildren := 1 }
    else { op := .other n, flags := { mustGenerate := decide (n ≠ 0) } }
  refCount _ := 1
  nextNode := 6
  blocks := [some { nodes := nodes }]
  m_varArgChildren _ := { node := some 0, useKind := .int32Use }
  m_arguments := []
  m_form := .ssa

theorem arrays_wellFormed (hnodup : nodes.Nodup) (hsmall : ∀ n ∈ nodes, n < 6)
    (hzero : 0 ∈ nodes) : WellFormed (arrays nodes) := by
  have hblocks : blocks (arrays nodes) = [{ nodes := nodes }] := rfl
  have hthreaded : threaded (arrays nodes) = nodes := by simp [threaded, hblocks]
  have hop (n : NodeId) : (∃ k, ((arrays nodes).node n).op = .other k) ∧
      ((arrays nodes).node n).successors = [] := by
    simp only [arrays]
    split_ifs
    · exact ⟨⟨1, rfl⟩, rfl⟩
    · exact ⟨⟨n, rfl⟩, rfl⟩
  have hno {n : NodeId} {op : NodeType} {P : Prop} (h : ((arrays nodes).node n).op = op)
      (hother : ∀ k, .other k ≠ op) : P := by
    obtain ⟨⟨k, hk⟩, -⟩ := hop n
    exact absurd (hk.symm.trans h) (hother k)
  refine ⟨by simp [arrays], by rwa [hthreaded], by rwa [hthreaded], ?_, ?_,
    fun _ _ _ _ h => hno h fun _ => NodeType.noConfusion,
    fun _ _ _ _ h => hno h fun _ => NodeType.noConfusion,
    fun _ _ _ _ h => hno h fun _ => NodeType.noConfusion, fun _ => rfl, ?_⟩
  · intro n _ e he c hc
    rw [hthreaded]
    rw [childEdges] at he
    split_ifs at he with hargs
    · obtain ⟨k, -, rfl⟩ := mem_map.1 (mem_filter.1 he).1
      obtain rfl : 0 = c := some.inj hc
      exact hzero
    · simp only [arrays] at he
      split_ifs at he <;> simp [AdjacencyList.edges, takeWhile, Edge.isSet] at he
  · intro b hb n hn
    rw [hblocks] at hb
    obtain rfl := mem_singleton.1 hb
    cases hn
  · intro _ i hi j hj
    rw [successorsAt] at hj
    cases hb : (arrays nodes).block i with
    | none => rw [hb] at hj; cases hj
    | some b =>
      rw [hb] at hj
      simp only [successors] at hj
      cases hlast : b.nodes.getLast? with
      | none => rw [hlast] at hj; cases hj
      | some n =>
        rw [hlast] at hj
        simp only [(hop n).2] at hj
        cases hj

/-- With one array the block keeps what it should. -/
theorem run_keeps_iff_array : ∃ g', run 0 100 (arrays [0, 1, 2, 3, 5]) = some g' ∧
    Keeps (arrays [0, 1, 2, 3, 5]) g' := by
  obtain ⟨g', hrun, hiff⟩ := run_keeps_iff (arrays [0, 1, 2, 3, 5])
    (arrays_wellFormed (by decide) (by decide) (by decide)) 0 100 (by decide)
  refine ⟨g', hrun, hiff.1 fun i b hb _ n hn m hm hneeds hneeds' => ?_⟩
  obtain rfl : b = { nodes := [0, 1, 2, 3, 5] } := by
    simpa [blocks, arrays] using mem_blocks_of_block hb
  have hargs : ∀ n ∈ [0, 1, 2, 3, 5],
      ((arrays [0, 1, 2, 3, 5]).node n).flags.hasVarArgs = true → n = 1 := by decide
  rw [hargs n hn hneeds.2.1, hargs m hm hneeds'.2.1]

/-- **With two arrays node `2`, which must be generated, is lost**, and node `1` stands in the block
twice. -/
theorem run_loses_node : ∃ g', run 0 100 (arrays [0, 1, 2, 3, 4, 5]) = some g' ∧
    (g'.block 0).map BasicBlock.nodes = some [0, 1, 7, 1, 6, 3, 4, 5] ∧
    Live (arrays [0, 1, 2, 3, 4, 5]) 2 ∧ ¬Keeps (arrays [0, 1, 2, 3, 4, 5]) g' := by
  have hrun : ∃ g', run 0 100 (arrays [0, 1, 2, 3, 4, 5]) = some g' ∧
      (g'.block 0).map BasicBlock.nodes = some [0, 1, 7, 1, 6, 3, 4, 5] := ⟨_, rfl, rfl⟩
  obtain ⟨g', hrun, hnodes⟩ := hrun
  refine ⟨g', hrun, hnodes, ?_, fun hkeeps => ?_⟩
  · exact .mustGenerate (b := { nodes := [0, 1, 2, 3, 4, 5] }) (mem_singleton_self _)
      (by decide) rfl
  · obtain ⟨b', hb', hkept⟩ := hkeeps 0 { nodes := [0, 1, 2, 3, 4, 5] } rfl
    rw [hb'] at hnodes
    have hnodes : b'.nodes = [0, 1, 7, 1, 6, 3, 4, 5] := some.inj hnodes
    have horder := hkept.order
    rw [hnodes] at horder
    exact absurd horder (by decide)

end JavaScriptCore.DFG.DCEPhase
