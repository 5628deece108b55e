/-
# Dead code elimination: which nodes are alive, and which blocks are visited

**A node gets references if and only if it is live** (`findLive_spec`).  A node is live if it must
be generated, if an edge that carries a check refers to it, if it is a child of a live node, or, in
SSA form, if it is an `Upsilon` of a live `Phi`.

**The blocks in depth-first order are the blocks that can be reached from the root**, each once
(`getBlocksInDepthFirstOrder_spec`).  Both loops are searches with a worklist, and they end.
-/
import Mathlib.Order.Interval.Finset.Nat
import JavaScriptCore.DFG.DCEPhase
import JavaScriptCore.Lib.Search

namespace JavaScriptCore.DFG.DCEPhase

open List Search Function Marking DepthFirst

variable {g : Graph} {s : Marking} {m n : NodeId}

/-! ## 1. Graphs -/

/-- The nodes of the blocks, with the `Phi`s that stand beside them. -/
def threaded (g : Graph) : List NodeId := (blocks g).flatMap fun b => b.nodes ++ b.phis

/-- What the phases before this one leave. -/
structure WellFormed (g : Graph) : Prop where
  form : g.m_form ≠ .loadStore
  nodup : (threaded g).Nodup
  allocated : ∀ n ∈ threaded g, n < g.nextNode
  children : ∀ n ∈ threaded g, ∀ e ∈ g.childEdges n, ∀ c, e.node = some c → c ∈ threaded g
  phis : ∀ b ∈ blocks g, ∀ n ∈ b.phis, ∀ e ∈ g.childEdges n, e.willNotHaveCheck = true
  movHint : ∀ b ∈ blocks g, ∀ n ∈ b.nodes, (g.node n).op = .movHint →
    (g.node n).flags.hasVarArgs = false ∧ ∀ e ∈ g.childEdges n, e.willNotHaveCheck = true
  upsilon : ∀ b ∈ blocks g, ∀ n ∈ b.nodes, (g.node n).op = .upsilon → (g.node n).phi ∈ threaded g
  zombieHint : ∀ b ∈ blocks g, ∀ n ∈ b.nodes, (g.node n).op ≠ .zombieHint
  root : g.m_form = .ssa → (g.block 0).isSome
  successors : g.m_form = .ssa → ∀ i, (g.block i).isSome → ∀ j ∈ g.successorsAt i,
    (g.block j).isSome

/-- The nodes that have to stay. -/
inductive Live (g : Graph) : NodeId → Prop where
  | mustGenerate {b n} : b ∈ blocks g → n ∈ b.nodes → (g.node n).flags.mustGenerate = true →
    Live g n
  | check {b n e c} : b ∈ blocks g → n ∈ b.nodes → e ∈ g.childEdges n → e.willHaveCheck = true →
      e.node = some c → Live g c
  | child {n e c} : Live g n → e ∈ g.childEdges n → e.node = some c → Live g c
  | upsilon {b n} : g.m_form = .ssa → b ∈ blocks g → n ∈ b.nodes → (g.node n).op = .upsilon →
      Live g (g.node n).phi → Live g n

theorem mem_threaded_of_mem {b : BasicBlock} (hb : b ∈ blocks g) (hn : n ∈ b.nodes) :
    n ∈ threaded g :=
  mem_flatMap.2 ⟨b, hb, mem_append_left _ hn⟩

variable (hg : WellFormed g)

include hg in
theorem Live.mem_threaded (h : Live g n) : n ∈ threaded g := by
  induction h with
  | mustGenerate hb hn _ | upsilon _ hb hn _ _ _ => exact mem_threaded_of_mem hb hn
  | check hb hn he _ hc => exact hg.children _ (mem_threaded_of_mem hb hn) _ he _ hc
  | child _ he hc ih => exact hg.children _ ih _ he _ hc

/-! ## 2. The marking as a search -/

def Marking.search (s : Marking) : Search NodeId := ⟨fun n => s.refCount n ≠ 0, s.worklist⟩

theorem marked_search : s.search.marked n = true ↔ s.refCount n ≠ 0 := decide_eq_true_iff

theorem search_countNode (s : Marking) (n : NodeId) : (countNode s n).search = s.search.push n := by
  by_cases hn : s.refCount n = 0
  · have hmarked : s.search.marked n = false := decide_eq_false (not_not_intro hn)
    rw [push, if_neg (by rw [hmarked]; exact Bool.false_ne_true), search, countNode]
    simp only [hn, if_true, search]
    congr 1
    funext m
    by_cases hm : m = n <;> simp [hm, update_of_ne]
  · rw [push, if_pos (marked_search.2 hn), search, countNode]
    simp only [hn, if_false, search]
    congr 1
    funext m
    by_cases hm : m = n <;> simp [hm, hn, update_of_ne]

/-- The items that are met by a loop over a list. -/
theorem search_foldl {ι : Type*} {f : Marking → ι → Marking} {targets : ι → List NodeId}
    (h : ∀ s x, (f s x).search = s.search.pushAll (targets x)) (s : Marking) (l : List ι) :
    (l.foldl f s).search = s.search.pushAll (l.flatMap targets) := by
  induction l generalizing s with
  | nil => rfl
  | cons x l ih =>
    rw [foldl_cons, ih, h, flatMap_cons, pushAll, pushAll, pushAll, foldl_append]

/-- The node that an edge keeps alive by its check. -/
def checkedTarget (e : Edge) : List NodeId := if e.willNotHaveCheck then [] else e.node.toList

/-- The node that an edge without a check keeps alive. -/
def uncheckedTarget (e : Edge) : List NodeId := if e.willHaveCheck then [] else e.node.toList

theorem search_findTypeCheckRoot (s : Marking) (e : Edge) :
    (findTypeCheckRoot s e).search = s.search.pushAll (checkedTarget e) := by
  rw [findTypeCheckRoot, checkedTarget]
  cases e.willNotHaveCheck with
  | true => rfl
  | false =>
    cases e.node with
    | none => rfl
    | some n => exact search_countNode s n

theorem search_countEdge (s : Marking) (e : Edge) :
    (countEdge s e).search = s.search.pushAll (uncheckedTarget e) := by
  rw [countEdge, uncheckedTarget]
  cases e.willHaveCheck with
  | true => rfl
  | false =>
    cases e.node with
    | none => rfl
    | some n => exact search_countNode s n

theorem mem_checkedTarget {e : Edge} : n ∈ checkedTarget e ↔ e.willHaveCheck = true ∧
    e.node = some n := by
  rw [checkedTarget, Edge.willHaveCheck]
  cases e.willNotHaveCheck <;> simp

theorem mem_uncheckedTarget {e : Edge} :
    n ∈ uncheckedTarget e ↔ e.willHaveCheck = false ∧ e.node = some n := by
  rw [uncheckedTarget]
  cases e.willHaveCheck <;> simp

def rootsAt (g : Graph) (n : NodeId) : List NodeId :=
  (g.childEdges n).flatMap checkedTarget ++ if (g.node n).flags.mustGenerate then [n] else []

def roots (g : Graph) : List NodeId :=
  (blocks g).flatMap fun b => b.nodes.reverse.flatMap (rootsAt g)

/-- The nodes that a live node keeps alive without a check. -/
def kept (g : Graph) (n : NodeId) : List NodeId := (g.childEdges n).flatMap uncheckedTarget

theorem search_findRoots (g : Graph) : (findRoots g).search =
      (search ⟨resetRefCounts g, []⟩).pushAll (roots g) := by
  refine search_foldl (fun s b => search_foldl (fun s n => ?_) s b.nodes.reverse) _ _
  have hchecks := search_foldl search_findTypeCheckRoot s (g.childEdges n)
  rw [findRootsAt, rootsAt, pushAll, foldl_append]
  split_ifs
  · exact (search_countNode _ n).trans (congrArg (push · n) hchecks)
  · exact hchecks

theorem search_pop (s : Marking) (n : NodeId) (worklist : List NodeId) :
    ((g.childEdges n).foldl countEdge { s with worklist := worklist }).search =
      { s.search with work := worklist }.pushAll (kept g n) :=
  search_foldl search_countEdge _ _

/-- Every node of a block or beside it starts without references. -/
theorem resetRefCounts_eq_zero (h : n ∈ threaded g) : resetRefCounts g n = 0 := by
  have hfold (l : List NodeId) (refCount : NodeId → Nat) (h : n ∈ l ∨ refCount n = 0) :
      l.foldl (fun refCount n => update refCount n 0) refCount n = 0 := by
    induction l generalizing refCount with
    | nil => exact h.resolve_left not_mem_nil
    | cons m l ih =>
      refine ih _ ?_
      by_cases hm : n = m
      · subst hm
        exact .inr (update_self ..)
      · refine h.imp (fun h => (mem_cons.1 h).resolve_left hm) fun h => ?_
        exact (update_of_ne hm ..).trans h
  rw [resetRefCounts, ← foldl_flatMap]
  exact hfold _ _ (.inl (by simpa [threaded] using h))

/-! ## 3. The live nodes are marked -/

include hg in
theorem kept_mem_threaded (hn : n ∈ threaded g) (hm : m ∈ kept g n) : m ∈ threaded g := by
  obtain ⟨e, he, hm⟩ := mem_flatMap.1 hm
  exact hg.children n hn e he m (mem_uncheckedTarget.1 hm).2

theorem live_of_kept (hn : Live g n) (hm : m ∈ kept g n) : Live g m := by
  obtain ⟨e, he, hm⟩ := mem_flatMap.1 hm
  exact .child hn he (mem_uncheckedTarget.1 hm).2

theorem live_of_roots (hn : n ∈ roots g) : Live g n := by
  obtain ⟨b, hb, hn⟩ := mem_flatMap.1 hn
  obtain ⟨m, hm, hn⟩ := mem_flatMap.1 hn
  have hm := mem_reverse.1 hm
  rcases mem_append.1 hn with hn | hn
  · obtain ⟨e, he, hn⟩ := mem_flatMap.1 hn
    obtain ⟨hcheck, hnode⟩ := mem_checkedTarget.1 hn
    exact .check hb hm he hcheck hnode
  · split_ifs at hn with hmust
    · obtain rfl := mem_singleton.1 hn
      exact .mustGenerate hb hm hmust
    · cases hn

/-- An `Upsilon` of a marked `Phi` is marked. -/
def UpsilonsMarked (g : Graph) (s : Marking) : Prop :=
  ∀ b ∈ blocks g, ∀ n ∈ b.nodes, (g.node n).op = .upsilon → s.refCount (g.node n).phi ≠ 0 →
    s.refCount n ≠ 0

include hg in
/-- **A marking without waiting nodes has marked every live node.** -/
theorem marked_of_live (hroots : ∀ n ∈ roots g, s.refCount n ≠ 0)
    (hclosed : s.search.Closed (threaded g).toFinset (kept g)) (hwork : s.worklist = [])
    (hupsilons : g.m_form = .ssa → UpsilonsMarked g s) (h : Live g n) : s.refCount n ≠ 0 := by
  have hroot {b : BasicBlock} {n m : NodeId} (hb : b ∈ blocks g) (hn : n ∈ b.nodes)
      (hm : m ∈ rootsAt g n) : s.refCount m ≠ 0 :=
    hroots m (mem_flatMap.2 ⟨b, hb, mem_flatMap.2 ⟨n, mem_reverse.2 hn, hm⟩⟩)
  have hcheck {b : BasicBlock} {n c : NodeId} {e : Edge} (hb : b ∈ blocks g) (hn : n ∈ b.nodes)
      (he : e ∈ g.childEdges n) (hcheck : e.willHaveCheck = true) (hc : e.node = some c) :
      s.refCount c ≠ 0 :=
    hroot hb hn (mem_append_left _ (mem_flatMap.2 ⟨e, he, mem_checkedTarget.2 ⟨hcheck, hc⟩⟩))
  induction h with
  | mustGenerate hb hn hmust =>
    exact hroot hb hn (mem_append_right _ (by rw [if_pos hmust]; exact mem_singleton_self _))
  | check hb hn he hwill hc => exact hcheck hb hn he hwill hc
  | @child n e c hlive he hc ih =>
    have hn := hlive.mem_threaded hg
    cases hwill : e.willHaveCheck with
    | true =>
      -- the edges with a check have been counted at the node's place in its block
      obtain ⟨b, hb, hmem⟩ := mem_flatMap.1 hn
      rcases mem_append.1 hmem with hmem | hmem
      · exact hcheck hb hmem he hwill hc
      · rw [Edge.willHaveCheck, hg.phis b hb n hmem e he] at hwill
        cases hwill
    | false =>
      have hsucc := (hclosed n (mem_toFinset.2 hn) (marked_search.2 ih)).resolve_left (by
        rw [search, hwork]
        exact not_mem_nil)
      exact marked_search.1 (hsucc c (mem_flatMap.2 ⟨e, he, mem_uncheckedTarget.2 ⟨hwill, hc⟩⟩))
  | upsilon hform hb hn hop _ ih => exact hupsilons hform _ hb _ hn hop ih

/-! ## 4. The loops -/

/-- What `mark` keeps. -/
structure Marks (g : Graph) (s : Marking) : Prop where
  sound : s.search.Sound (threaded g).toFinset (Live g)
  closed : s.search.Closed (threaded g).toFinset (kept g)
  roots : ∀ n ∈ roots g, s.refCount n ≠ 0

/-- Nodes that are met by a marking that is sound are live. -/
theorem Marks.live (h : Marks g s) (hn : n ∈ threaded g) (hmarked : s.refCount n ≠ 0) : Live g n :=
  h.sound.marked n (mem_toFinset.2 hn) (marked_search.2 hmarked)

include hg

theorem marks_findRoots : Marks g (findRoots g) := by
  have hzero (n : NodeId) (hn : n ∈ (threaded g).toFinset)
      (hmarked : (search ⟨resetRefCounts g, []⟩).marked n = true) : False :=
    marked_search.1 hmarked (resetRefCounts_eq_zero (mem_toFinset.1 hn))
  have hroots (n : NodeId) (hn : n ∈ DCEPhase.roots g) : n ∈ (threaded g).toFinset ∧ Live g n :=
    ⟨mem_toFinset.2 ((live_of_roots hn).mem_threaded hg), live_of_roots hn⟩
  refine ⟨?_, ?_, fun n hn => marked_search.1 ?_⟩
  · rw [search_findRoots]
    exact Search.Sound.pushAll ⟨fun n hn => absurd hn not_mem_nil,
      fun n hn hmarked => (hzero n hn hmarked).elim⟩ hroots
  · rw [search_findRoots]
    exact Search.Closed.pushAll (fun n hn hmarked => (hzero n hn hmarked).elim) _
  · rw [search_findRoots, marked_pushAll]
    exact .inl hn

theorem size_findRoots :
    (findRoots g).search.size (threaded g).toFinset ≤ 2 * (threaded g).length := by
  rw [search_findRoots]
  refine Nat.le_trans (size_pushAll_le fun n hn =>
    mem_toFinset.2 ((live_of_roots hn).mem_threaded hg)) ?_
  rw [size]
  refine Nat.mul_le_mul_left 2 (Nat.le_trans (Finset.card_filter_le _ _) ?_)
  exact toFinset_card_le _

/-- Taking a node from the worklist. -/
theorem Marks.pop (h : Marks g s) {worklist : List NodeId}
    (hwork : s.worklist = n :: worklist) :
    Marks g ((g.childEdges n).foldl countEdge { s with worklist := worklist }) := by
  obtain ⟨hmem, hmarked⟩ := h.sound.work n (by
    rw [search, hwork]
    exact mem_cons_self)
  have hlive : Live g n := h.sound.marked n hmem hmarked
  refine ⟨?_, ?_, fun m hm => marked_search.1 ?_⟩
  · rw [search_pop]
    refine (h.sound.pop hwork).pushAll fun m hm => ⟨?_, live_of_kept hlive hm⟩
    exact mem_toFinset.2 (kept_mem_threaded hg (mem_toFinset.1 hmem) hm)
  · rw [search_pop]
    exact h.closed.turn hwork
  · rw [search_pop, marked_pushAll]
    exact .inr (marked_search.2 (h.roots m hm))

omit hg

/-- A live `Upsilon` is counted. -/
theorem Marks.countNode (h : Marks g s) (hlive : Live g n) (hn : n ∈ threaded g) :
    Marks g (countNode s n) := by
  have hpush : (DCEPhase.countNode s n).search = s.search.pushAll [n] := search_countNode s n
  refine ⟨?_, ?_, fun m hm => marked_search.1 ?_⟩
  · rw [hpush]
    exact h.sound.pushAll fun m hm => by
      obtain rfl := mem_singleton.1 hm
      exact ⟨mem_toFinset.2 hn, hlive⟩
  · rw [hpush]
    exact h.closed.pushAll _
  · rw [hpush, marked_pushAll]
    exact .inr (marked_search.2 (h.roots m hm))

theorem countUpsilon_cases (g : Graph) (s : Marking) (n : NodeId) : countUpsilon g s n = s ∧
        ((g.node n).op = .upsilon → s.refCount (g.node n).phi ≠ 0 → s.refCount n ≠ 0) ∨
      countUpsilon g s n = countNode s n ∧ (g.node n).op = .upsilon ∧ s.refCount n = 0 ∧
        s.refCount (g.node n).phi ≠ 0 := by
  rw [countUpsilon]
  split_ifs with hop hn hphi
  · exact .inl ⟨rfl, fun h => absurd h hop⟩
  · exact .inl ⟨rfl, fun _ _ => hn⟩
  · exact .inr ⟨rfl, not_not.1 hop, not_not.1 hn, hphi⟩
  · exact .inl ⟨rfl, fun _ h => absurd h hphi⟩

theorem worklist_countUpsilon (g : Graph) (s : Marking) (l : List NodeId) (h : s.worklist ≠ []) :
    (l.foldl (countUpsilon g) s).worklist ≠ [] := by
  induction l generalizing s with
  | nil => exact h
  | cons n l ih =>
    refine ih _ ?_
    rcases countUpsilon_cases g s n with ⟨hsame, -⟩ | ⟨hcount, -, hn, -⟩
    · rwa [hsame]
    · rw [hcount, countNode]
      simp only [hn, if_true]
      exact cons_ne_nil _ _

include hg in
/-- **One scan for `Upsilon`s**: the rest becomes shorter, or nothing has changed and every
`Upsilon` of a marked `Phi` is marked. -/
theorem countUpsilon_scan (hform : g.m_form = .ssa) (h : Marks g s)
    (l : List NodeId) (hl : ∀ n ∈ l, ∃ b ∈ blocks g, n ∈ b.nodes) :
    Marks g (l.foldl (countUpsilon g) s) ∧
      (l.foldl (countUpsilon g) s).search.size (threaded g).toFinset ≤ s.search.size
        (threaded g).toFinset ∧ ((l.foldl (countUpsilon g) s).search.size (threaded g).toFinset <
          s.search.size (threaded g).toFinset ∧ (l.foldl (countUpsilon g) s).worklist ≠ [] ∨
        l.foldl (countUpsilon g) s = s ∧ ∀ n ∈ l, (g.node n).op = .upsilon →
          s.refCount (g.node n).phi ≠ 0 → s.refCount n ≠ 0) := by
  induction l generalizing s with
  | nil => exact ⟨h, le_rfl, .inr ⟨rfl, fun n hn => absurd hn not_mem_nil⟩⟩
  | cons n l ih =>
    obtain ⟨⟨b, hb, hn⟩, hl⟩ := forall_mem_cons.1 hl
    rw [foldl_cons]
    rcases countUpsilon_cases g s n with ⟨hsame, hmarked⟩ | ⟨hcount, hop, hzero, hphi⟩
    · rw [hsame]
      obtain ⟨hmarks, hle, hrest⟩ := ih h hl
      exact ⟨hmarks, hle, hrest.imp_right fun hrest => ⟨hrest.1,
        forall_mem_cons.2 ⟨hmarked, hrest.2⟩⟩⟩
    · rw [hcount]
      have hmem := mem_threaded_of_mem hb hn
      have hlive : Live g n := .upsilon hform hb hn hop (h.live (hg.upsilon b hb n hn hop) hphi)
      obtain ⟨hmarks, hle, -⟩ := ih (h.countNode hlive hmem) hl
      have hsize := size_push (s := s.search) (mem_toFinset.2 hmem)
      rw [if_neg (by rw [marked_search]; exact not_not_intro hzero), ← search_countNode] at hsize
      refine ⟨hmarks, by omega, .inl ⟨by omega, worklist_countUpsilon g _ l ?_⟩⟩
      rw [DCEPhase.countNode]
      simp only [hzero, if_true]
      exact cons_ne_nil _ _

theorem countUpsilons_eq (g : Graph) (s : Marking) : countUpsilons g s =
      ((blocks g).reverse.flatMap fun b => b.nodes.reverse).foldl (countUpsilon g) s := by
  rw [countUpsilons, foldl_flatMap]

include hg

/-- **`mark` returns**, and nothing is waiting then. -/
theorem mark_spec (h : Marks g s) {fuel : Nat}
    (hfuel : s.search.size (threaded g).toFinset < fuel) :
    ∃ s', mark g fuel s = some s' ∧ Marks g s' ∧ s'.worklist = [] ∧
      (g.m_form = .ssa → UpsilonsMarked g s') := by
  induction fuel generalizing s with
  | zero => exact absurd hfuel (Nat.not_lt_zero _)
  | succ fuel ih =>
    rw [mark]
    cases hwork : s.worklist with
    | cons n worklist =>
      refine ih (h.pop hg hwork) (Nat.lt_of_lt_of_le ?_ (Nat.le_of_lt_succ hfuel))
      rw [search_pop]
      obtain ⟨hmem, -⟩ := h.sound.work n (by
        rw [search, hwork]
        exact mem_cons_self)
      refine size_turn_lt hwork fun m hm => ?_
      exact mem_toFinset.2 (kept_mem_threaded hg (mem_toFinset.1 hmem) hm)
    | nil =>
      by_cases hform : g.m_form = .ssa
      · simp only [if_pos hform, countUpsilons_eq]
        obtain ⟨hmarks, -, ⟨hsize, hne⟩ | ⟨hsame, hupsilons⟩⟩ := countUpsilon_scan hg hform h
          ((blocks g).reverse.flatMap fun b => b.nodes.reverse) (by simp)
        · rw [if_neg hne]
          exact ih hmarks (by omega)
        · rw [hsame, if_pos hwork]
          refine ⟨s, rfl, h, hwork, fun _ b hb n hn => hupsilons n ?_⟩
          exact mem_flatMap.2 ⟨b, mem_reverse.2 hb, mem_reverse.2 hn⟩
      · rw [if_neg hform]
        exact ⟨s, rfl, h, hwork, fun hssa => absurd hssa hform⟩

/-- **The nodes with references are the live nodes.** -/
theorem findLive_spec {fuel : Nat} (hfuel : 2 * (threaded g).length < fuel) :
    ∃ s, findLive g fuel = some s ∧ ∀ n ∈ threaded g, s.refCount n ≠ 0 ↔ Live g n := by
  have hroots := marks_findRoots hg
  have hmarked : ∃ s, findLive g fuel = some s ∧ Marks g s ∧ s.worklist = [] ∧
      (g.m_form = .ssa → UpsilonsMarked g s) := by
    rw [findLive]
    by_cases hwork : (findRoots g).worklist = []
    · refine ⟨findRoots g, if_pos hwork, hroots, hwork, fun _ b hb n hn hop hphi => ?_⟩
      -- there are no roots at all, so nothing is marked
      have hzero := resetRefCounts_eq_zero (hg.upsilon b hb n hn hop)
      have hwaiting := mem_work_of_pushAll (l := roots g)
        (s := search ⟨resetRefCounts g, []⟩) (decide_eq_false (not_not_intro hzero))
        (by rw [← search_findRoots]; exact marked_search.2 hphi)
      rw [← search_findRoots, search, hwork] at hwaiting
      exact absurd hwaiting not_mem_nil
    · simp only [if_neg hwork]
      exact mark_spec hg hroots (Nat.lt_of_le_of_lt (size_findRoots hg) hfuel)
  obtain ⟨s, hs, hmarks, hwork, hupsilons⟩ := hmarked
  refine ⟨s, hs, fun n hn => ⟨hmarks.live hn, fun hlive => ?_⟩⟩
  exact marked_of_live hg hmarks.roots hmarks.closed hwork hupsilons hlive

omit hg

/-! ## 5. Blocks in depth-first order -/

/-- The blocks that control can reach. -/
inductive Reachable (g : Graph) : BlockIndex → Prop where
  | root : Reachable g 0
  | successor {i j} : Reachable g i → j ∈ g.successorsAt i → Reachable g j

def depthFirstSearch (s : DepthFirst) : Search BlockIndex := ⟨fun i => i ∈ s.result, s.worklist⟩

theorem marked_depthFirstSearch {s : DepthFirst} {i : BlockIndex} :
    (depthFirstSearch s).marked i = true ↔ i ∈ s.result := decide_eq_true_iff

theorem depthFirstSearch_add (s : DepthFirst) (i : BlockIndex) :
    depthFirstSearch (s.addForDepthFirstSort i) = (depthFirstSearch s).push i := by
  rw [addForDepthFirstSort, push]
  by_cases hi : i ∈ s.result
  · rw [if_pos hi, if_pos (marked_depthFirstSearch.2 hi)]
  · rw [if_neg hi, if_neg (mt marked_depthFirstSearch.1 hi), depthFirstSearch, depthFirstSearch]
    congr 1
    funext j
    by_cases hj : j = i <;> simp [hj, update_of_ne]

theorem depthFirstSearch_foldl (s : DepthFirst) (l : List BlockIndex) :
    depthFirstSearch (l.foldl addForDepthFirstSort s) = (depthFirstSearch s).pushAll l := by
  induction l generalizing s with
  | nil => rfl
  | cons i l ih => rw [foldl_cons, ih, depthFirstSearch_add]; rfl

theorem nodup_addForDepthFirstSort {s : DepthFirst} (h : s.result.Nodup) (l : List BlockIndex) :
    (l.foldl addForDepthFirstSort s).result.Nodup := by
  induction l generalizing s with
  | nil => exact h
  | cons i l ih =>
    refine ih ?_
    rw [addForDepthFirstSort]
    split_ifs with hi
    · exact h
    · exact nodup_append'.2 ⟨h, nodup_singleton i, disjoint_singleton.2 hi⟩

/-- The indices of the blocks that have not been removed. -/
def validBlocks (g : Graph) : Finset BlockIndex :=
  (Finset.range g.numBlocks).filter fun i => (g.block i).isSome

theorem mem_validBlocks {i : BlockIndex} : i ∈ validBlocks g ↔ (g.block i).isSome := by
  rw [validBlocks, Finset.mem_filter, Finset.mem_range, and_iff_right_iff_imp]
  intro h
  by_contra hlt
  rw [Graph.block, getElem?_eq_none (not_lt.1 hlt)] at h
  cases h

include hg

theorem depthFirstLoop_spec (hform : g.m_form = .ssa) {s : DepthFirst}
    (hsound : (depthFirstSearch s).Sound (validBlocks g) (Reachable g))
    (hclosed : (depthFirstSearch s).Closed (validBlocks g) fun i => (g.successorsAt i).reverse)
    (hvalid : ∀ i ∈ s.result, (g.block i).isSome) (hroot : 0 ∈ s.result) (hnodup : s.result.Nodup)
    {fuel : Nat} (hfuel : (depthFirstSearch s).size (validBlocks g) < fuel) :
    ∃ l, g.depthFirstLoop fuel s = some l ∧ l.Nodup ∧ ∀ i, i ∈ l ↔ Reachable g i := by
  induction fuel generalizing s with
  | zero => exact absurd hfuel (Nat.not_lt_zero _)
  | succ fuel ih =>
    rw [Graph.depthFirstLoop]
    cases hwork : s.worklist with
    | nil =>
      refine ⟨s.result, rfl, hnodup, fun i => ⟨fun hi => ?_, fun hi => ?_⟩⟩
      · exact hsound.marked i (mem_validBlocks.2 (hvalid i hi)) (marked_depthFirstSearch.2 hi)
      · induction hi with
        | root => exact hroot
        | @successor i j _ hj ih =>
          have hmarked := marked_depthFirstSearch.2 ih
          have hsucc := (hclosed i (mem_validBlocks.2 (hvalid i ih)) hmarked).resolve_left
            (by rw [depthFirstSearch, hwork]; exact not_mem_nil)
          exact marked_depthFirstSearch.1 (hsucc j (mem_reverse.2 hj))
    | cons i worklist =>
      have hi := hsound.work i (by rw [depthFirstSearch, hwork]; exact mem_cons_self)
      have hreachable : Reachable g i := hsound.marked i hi.1 hi.2
      have hsucc (j : BlockIndex) (hj : j ∈ (g.successorsAt i).reverse) : j ∈ validBlocks g :=
        mem_validBlocks.2 (hg.successors hform i (mem_validBlocks.1 hi.1) j (mem_reverse.1 hj))
      have hsearch := depthFirstSearch_foldl ⟨s.result, worklist⟩ (g.successorsAt i).reverse
      have hresult (j : BlockIndex) : j ∈ ((g.successorsAt i).reverse.foldl
          addForDepthFirstSort ⟨s.result, worklist⟩).result ↔
            j ∈ (g.successorsAt i).reverse ∨ j ∈ s.result := by
        rw [← marked_depthFirstSearch, hsearch, marked_pushAll, marked_depthFirstSearch]
      refine ih ?_ ?_ (fun j hj => ?_) ((hresult 0).2 (.inr hroot))
        (nodup_addForDepthFirstSort (s := ⟨s.result, worklist⟩) hnodup _) ?_
      · rw [hsearch]
        exact Search.Sound.pushAll (Search.Sound.pop hsound hwork) fun j hj =>
          ⟨hsucc j hj, .successor hreachable (mem_reverse.1 hj)⟩
      · rw [hsearch]
        exact Search.Closed.turn hclosed hwork
      · rcases (hresult j).1 hj with hj | hj
        · exact mem_validBlocks.1 (hsucc j hj)
        · exact hvalid j hj
      · rw [hsearch]
        have hlt := size_turn_lt (s := depthFirstSearch s) hwork hsucc
        exact hlt.trans_le (Nat.le_of_lt_succ hfuel)

/-- **The blocks in depth-first order are the reachable blocks.** -/
theorem getBlocksInDepthFirstOrder_spec (hform : g.m_form = .ssa) {fuel : Nat}
    (hfuel : 2 * g.numBlocks < fuel) :
    ∃ l, g.getBlocksInDepthFirstOrder fuel = some l ∧ l.Nodup ∧ ∀ i, i ∈ l ↔ Reachable g i := by
  have hroot : 0 ∈ validBlocks g := mem_validBlocks.2 (hg.root hform)
  have hsearch : depthFirstSearch (addForDepthFirstSort ⟨[], []⟩ 0) =
      (depthFirstSearch ⟨[], []⟩).pushAll [0] := depthFirstSearch_add _ 0
  refine depthFirstLoop_spec hg hform ?_ ?_ ?_ ?_ ?_ ?_
  · rw [hsearch]
    refine Search.Sound.pushAll ⟨fun i hi => absurd hi not_mem_nil, fun i _ hi => ?_⟩ fun i hi => ?_
    · exact absurd (marked_depthFirstSearch.1 hi) not_mem_nil
    · obtain rfl := mem_singleton.1 hi
      exact ⟨hroot, .root⟩
  · rw [hsearch]
    exact Search.Closed.pushAll (fun i _ hi => absurd (marked_depthFirstSearch.1 hi) not_mem_nil) _
  · intro i hi
    obtain rfl := mem_singleton.1 (show i ∈ [0] from hi)
    exact hg.root hform
  · exact mem_singleton_self 0
  · exact nodup_singleton 0
  · rw [hsearch]
    refine Nat.lt_of_le_of_lt (size_pushAll_le fun i hi => ?_) (Nat.lt_of_le_of_lt ?_ hfuel)
    · obtain rfl := mem_singleton.1 hi
      exact hroot
    · refine Nat.mul_le_mul_left 2 (Nat.le_trans (Finset.card_filter_le _ _) ?_)
      exact Nat.le_trans (Finset.card_filter_le _ _) (Finset.card_range _).le

omit hg

end JavaScriptCore.DFG.DCEPhase
