/-
# The invariant of `RedBlackTree` over whole runs

A user inserts nodes that are not in the tree, removes nodes that are, and removes by key.  `World`
is the tree together with the set of the nodes that have been inserted and not removed, which the
code does not store.  The loops get a turn for each of these nodes, and three more.

**In every world that a run reaches** (`World.run_holds`):

* the memory holds a tree, with parent links that mirror the child links, whose nodes are exactly
  those of the set, ordered by key, with a black root, without a red child of a red node, and with
  the same number of black nodes on all paths to a null pointer;
* `findExact` and `findLeastGreaterThanOrEqual` return, and answer as they should;
* `remove` takes out the node it is given, and `remove(key)` takes out and returns a node with this
  key if there is one, and leaves the tree alone otherwise;
* every operation that the user may call returns.  In particular `removeFixup` finds no null
  sibling.
-/
import Mathlib.Data.Finset.Card
import JavaScriptCore.Lib.Run
import JavaScriptCore.WTF.RedBlackRemove

namespace JavaScriptCore.WTF.RedBlackTree

open RedBlack RedBlack.RBTree RedBlack.Context Iteration List

variable {ι : Type*} {κ : Type*} [LinearOrder κ]

/-! ## 1. Search -/

variable {t : RedBlackTree ι}

/-- **`findExact` is the search of the library.** -/
theorem run_findExact (key : ι → κ) (k : κ) {ctx : Context ι} {s : RBTree ι}
    (h : Represents t (plug ctx s)) {fuel : Nat} (hfuel : s.inorder.length < fuel) :
    Iteration.run (fun current =>
      match current with
      | none => .inr none
      | some n =>
        if key n = k then .inr (some n)
        else if k < key n then .inl (t.left n)
        else .inl (t.right n)) fuel s.top = some (find key k s) := by
  induction s generalizing ctx fuel with
  | nil =>
    obtain _ | fuel := fuel
    · omega
    exact run_succ_inr rfl fuel
  | node c l n r ihl ihr =>
    obtain _ | fuel := fuel
    · omega
    rw [inorder, length_append, length_cons] at hfuel
    have hnode := Represents.node_focus (d := .left) h
    rw [find]
    split_ifs with hk hlt
    · refine run_succ_inr ?_ fuel
      simp only [top, if_pos hk]
    · refine (run_succ_inl ?_ fuel).trans
        (ihl (show Represents t (plug (⟨.left, c, n, r⟩ :: ctx) l) from h) (by omega))
      simp only [top, if_neg hk, if_pos hlt, left, hnode]
      rfl
    · refine (run_succ_inl ?_ fuel).trans
        (ihr (show Represents t (plug (⟨.right, c, n, l⟩ :: ctx) r) from h) (by omega))
      simp only [top, if_neg hk, if_neg hlt, right, hnode]
      rfl

/-- **So is `findLeastGreaterThanOrEqual`.** -/
theorem run_findLeast (key : ι → κ) (k : κ) {ctx : Context ι} {s : RBTree ι}
    (h : Represents t (plug ctx s))
    (best : Option ι) {fuel : Nat} (hfuel : s.inorder.length < fuel) :
    Iteration.run (fun (s : Option ι × Option ι) =>
      match s.2 with
      | none => .inr s.1
      | some n =>
        if key n = k then .inr (some n)
        else if key n < k then .inl (s.1, t.right n)
        else .inl (some n, t.left n)) fuel (best, s.top) = some (leastGE key k best s) := by
  induction s generalizing ctx best fuel with
  | nil =>
    obtain _ | fuel := fuel
    · omega
    exact run_succ_inr rfl fuel
  | node c l n r ihl ihr =>
    obtain _ | fuel := fuel
    · omega
    rw [inorder, length_append, length_cons] at hfuel
    have hnode := Represents.node_focus (d := .left) h
    rw [leastGE]
    split_ifs with hk hlt
    · refine run_succ_inr ?_ fuel
      simp only [top, if_pos hk]
    · refine (run_succ_inl ?_ fuel).trans
        (ihr (show Represents t (plug (⟨.right, c, n, l⟩ :: ctx) r) from h) best (by omega))
      simp only [top, if_neg hk, if_pos hlt, right, hnode]
      rfl
    · refine (run_succ_inl ?_ fuel).trans
        (ihl (show Represents t (plug (⟨.left, c, n, r⟩ :: ctx) l) from h) (some n) (by omega))
      simp only [top, if_neg hk, if_neg hlt, left, hnode]
      rfl

/-! ## 2. Worlds -/

/-- The tree, and the nodes that should be in it. -/
structure World (ι : Type*) where
  tree : RedBlackTree ι
  content : Finset ι

/-- What a user calls. -/
inductive Operation (ι κ : Type*) where
  | insert (x : ι)
  | remove (z : ι)
  | removeKey (k : κ)

/-- Nodes are inserted when they are not in the tree, and removed when they are. -/
def World.Admissible (w : World ι) : Operation ι κ → Prop
  | .insert x => x ∉ w.content
  | .remove z => z ∈ w.content
  | .removeKey _ => True

/-- A turn for each node, and three more. -/
def World.fuel (w : World ι) : Nat := w.content.card + 3

variable [DecidableEq ι]

instance (w : World ι) (op : Operation ι κ) : Decidable (w.Admissible op) :=
  match op with
  | .insert x => inferInstanceAs (Decidable (x ∉ w.content))
  | .remove z => inferInstanceAs (Decidable (z ∈ w.content))
  | .removeKey _ => inferInstanceAs (Decidable True)

/-- An operation.  Of several nodes with one key, what `remove(key)` returns says which one has left
the tree; `World.Good.removeKey` says that it is one of them. -/
def World.step (key : ι → κ) (w : World ι) : Operation ι κ → Option (World ι)
  | .insert x => (w.tree.insert w.fuel key x).map fun t => ⟨t, Insert.insert x w.content⟩
  | .remove z => (w.tree.remove w.fuel z).map fun (t, _) => ⟨t, w.content.erase z⟩
  | .removeKey k => (w.tree.removeKey w.fuel key k).map fun (t, result) =>
      match result with
      | none => ⟨t, w.content⟩
      | some z => ⟨t, w.content.erase z⟩

/-- A tree without nodes; their memory holds anything. -/
def World.empty (memory : ι → Node ι) : World ι := ⟨⟨memory, none⟩, ∅⟩

omit [LinearOrder κ] [DecidableEq ι] in
/-- **The memory is a red-black tree of these nodes.** -/
structure World.Good [LinearOrder κ] (key : ι → κ) (w : World ι) (T : RBTree ι) : Prop where
  rep : Represents w.tree T
  root : T.color = .black
  colors : NoRedRed T
  balanced : ∃ k, ∀ i ∈ paths T, i = k
  ordered : Ordered key T
  nodes : ∀ n, n ∈ T.inorder ↔ n ∈ w.content

variable {w : World ι} {T : RBTree ι}

omit [DecidableEq ι] in
theorem World.Good.rb {key : ι → κ} (h : w.Good key T) : Balanced T :=
  ⟨h.balanced.elim fun j hj => ⟨j, rb_iff.2 ⟨h.colors, hj⟩⟩, h.root⟩

omit [DecidableEq ι] in
theorem World.good_of_rb {key : ι → κ} (hrep : Represents w.tree T) (hrb : Balanced T)
    (hordered : Ordered key T) (hnodes : ∀ n, n ∈ T.inorder ↔ n ∈ w.content) : w.Good key T := by
  obtain ⟨⟨j, hj⟩, hroot⟩ := hrb
  obtain ⟨hcolors, hpaths⟩ := rb_iff.1 hj
  exact ⟨hrep, hroot, hcolors, ⟨j, hpaths⟩, hordered, hnodes⟩

omit [DecidableEq ι] in
theorem World.Good.length {key : ι → κ} (h : w.Good key T) : T.inorder.length = w.content.card := by
  classical
  rw [← toFinset_card_of_nodup h.rep.nodup]
  congr 1
  ext n
  rw [mem_toFinset, h.nodes]

/-- A node has left the tree. -/
theorem World.Good.erase {key : ι → κ} {T' : RBTree ι} (h : w.Good key T) {z : ι}
    (hrep : Represents t T') (hrb : Balanced T') (horder : T'.inorder = T.inorder.erase z) :
    Good key ⟨t, w.content.erase z⟩ T' := by
  refine good_of_rb hrep hrb ?_ fun n => ?_
  · rw [Ordered, horder]
    exact h.ordered.sublist erase_sublist
  · rw [horder, h.rep.nodup.mem_erase_iff, Finset.mem_erase, h.nodes]

/-! ## 3. Steps -/

section

variable {key : ι → κ} (h : w.Good key T)

include h

omit [DecidableEq ι] in
theorem World.Good.fuel_bound : T.inorder.length + 2 ≤ w.fuel := by
  rw [h.length, fuel]
  omega

omit [DecidableEq ι] in
theorem World.Good.findExact (k : κ) :
    w.tree.findExact w.fuel key k = some (find key k T) := by
  have hfuel := h.fuel_bound
  rw [RedBlackTree.findExact, h.rep.root]
  exact run_findExact key k (show Represents w.tree (plug [] T) from h.rep) (by omega)

/-- **`remove` takes out the node it is given.** -/
theorem World.Good.remove {z : ι} (hz : z ∈ w.content) :
    ∃ t, w.tree.remove w.fuel z = some (t, z) ∧ ∃ T', Good key ⟨t, w.content.erase z⟩ T' := by
  obtain ⟨t, T', hremove, hrep, hrb, hroot, horder⟩ :=
    remove_spec h.rep h.rb ((h.nodes z).2 hz) h.fuel_bound
  exact ⟨t, hremove, T', h.erase hrep ⟨hrb, hroot⟩ horder⟩

/-- **`remove(key)` takes out a node with this key**, or finds that there is none. -/
theorem World.Good.removeKey (k : κ) :
    (∃ n ∈ w.content, key n = k ∧ ∃ t, w.tree.removeKey w.fuel key k = some (t, some n) ∧
      ∃ T', Good key ⟨t, w.content.erase n⟩ T') ∨
    ((∀ n ∈ w.content, key n ≠ k) ∧ w.tree.removeKey w.fuel key k = some (w.tree, none)) := by
  rw [RedBlackTree.removeKey, h.findExact]
  cases hresult : find key k T with
  | none =>
    exact .inr ⟨fun n hn => find_none h.ordered hresult n ((h.nodes n).2 hn), rfl⟩
  | some z =>
    obtain ⟨hz, hk⟩ := find_some hresult
    obtain ⟨t, hremove, T', hgood⟩ := h.remove ((h.nodes z).1 hz)
    refine .inl ⟨z, (h.nodes z).1 hz, hk, t, ?_, T', hgood⟩
    simp only [Option.bind_eq_bind, Option.bind_some, hremove]
    rfl

/-- **Every admissible operation returns, and keeps the tree good.** -/
theorem World.step_good (op : Operation ι κ) (hop : w.Admissible op) :
    ∃ w', w.step key op = some w' ∧ ∃ T', w'.Good key T' := by
  cases op with
  | insert x =>
    obtain ⟨t, T', hinsert, hrep, hrb, hordered, hperm⟩ :=
      insert_spec h.rep h.rb h.ordered (fun hx => hop ((h.nodes x).1 hx)) h.fuel_bound
    refine ⟨⟨t, Insert.insert x w.content⟩, by rw [step, hinsert]; rfl, T',
      good_of_rb hrep hrb hordered fun n => ?_⟩
    rw [hperm.mem_iff, mem_cons, Finset.mem_insert, h.nodes]
  | remove z =>
    obtain ⟨t, hremove, T', hgood⟩ := h.remove hop
    exact ⟨_, by rw [step, hremove]; rfl, T', hgood⟩
  | removeKey k =>
    rcases h.removeKey k with ⟨z, -, -, t, hremove, T', hgood⟩ | ⟨-, hremove⟩
    · exact ⟨_, by rw [step, hremove]; rfl, T', hgood⟩
    · exact ⟨_, by rw [step, hremove]; rfl, T, h⟩

end

/-! ## 4. Runs -/

/-- What holds in every world. -/
structure World.Holds (key : ι → κ) (w : World ι) : Prop where
  good : ∃ T, w.Good key T
  findExact : ∀ k, ∃ r, w.tree.findExact w.fuel key k = some r ∧
    ((∃ n ∈ w.content, key n = k) → ∃ n ∈ w.content, r = some n ∧ key n = k) ∧
    ((∀ n ∈ w.content, key n ≠ k) → r = none)
  findLeast : ∀ k, ∃ r, w.tree.findLeastGreaterThanOrEqual w.fuel key k = some r ∧
    ((∃ n ∈ w.content, k ≤ key n) → ∃ n ∈ w.content, r = some n ∧ k ≤ key n ∧
      ∀ m ∈ w.content, k ≤ key m → key n ≤ key m) ∧
    ((∀ n ∈ w.content, key n < k) → r = none)
  remove : ∀ z ∈ w.content, ∃ t, w.tree.remove w.fuel z = some (t, z) ∧
    ∃ T, Good key ⟨t, w.content.erase z⟩ T
  removeKey : ∀ k,
    (∃ n ∈ w.content, key n = k ∧ ∃ t, w.tree.removeKey w.fuel key k = some (t, some n) ∧
      ∃ T, Good key ⟨t, w.content.erase n⟩ T) ∨
    ((∀ n ∈ w.content, key n ≠ k) ∧ w.tree.removeKey w.fuel key k = some (w.tree, none))
  returns : ∀ op : Operation ι κ, w.Admissible op → ∃ w', w.step key op = some w'

theorem World.Good.holds {key : ι → κ} (h : w.Good key T) : w.Holds key := by
  have hfuel := h.fuel_bound
  have hrep : Represents w.tree (plug [] T) := h.rep
  refine ⟨⟨T, h⟩, fun k => ?_, fun k => ?_, fun z hz => h.remove hz, h.removeKey, fun op hop => ?_⟩
  · refine ⟨find key k T, h.findExact k, ?_, ?_⟩
    · rintro ⟨n, hn, hk⟩
      cases hresult : find key k T with
      | none => exact absurd hk (find_none h.ordered hresult n ((h.nodes n).2 hn))
      | some m => exact ⟨m, (h.nodes m).1 (find_some hresult).1, rfl, (find_some hresult).2⟩
    · intro hnone
      cases hresult : find key k T with
      | none => rfl
      | some m =>
        exact absurd (find_some hresult).2 (hnone m ((h.nodes m).1 (find_some hresult).1))
  · refine ⟨leastGE key k none T, ?_, ?_, ?_⟩
    · rw [findLeastGreaterThanOrEqual, h.rep.root]
      exact run_findLeast key k hrep none (by omega)
    · rintro ⟨n, hn, hk⟩
      rcases leastGE_spec h.ordered none with ⟨m, hresult, hm, hge, hleast⟩ | ⟨-, hall⟩
      · exact ⟨m, (h.nodes m).1 hm, hresult, hge, fun i hi => hleast i ((h.nodes i).2 hi)⟩
      · exact absurd hk (not_le.2 (hall n ((h.nodes n).2 hn)))
    · intro hnone
      rcases leastGE_spec h.ordered none with ⟨m, -, hm, hge, -⟩ | ⟨hresult, -⟩
      · exact absurd hge (not_le.2 (hnone m ((h.nodes m).1 hm)))
      · exact hresult
  · obtain ⟨w', hstep, -⟩ := step_good h op hop
    exact ⟨w', hstep⟩

omit [DecidableEq ι] in
theorem World.empty_good (key : ι → κ) (memory : ι → Node ι) : (empty memory).Good key .nil :=
  good_of_rb ⟨nodup_nil, rfl, trivial⟩ ⟨⟨0, .nil⟩, rfl⟩ List.Pairwise.nil (by simp [empty, inorder])

/-- **The invariant of every run** from an empty tree. -/
theorem World.run_holds (key : ι → κ) (memory : ι → Node ι) {ops : List (Operation ι κ)}
    {w : World ι} (hrun : Transition.Run Admissible (step key) (empty memory) ops w) :
    w.Holds key := by
  have hkeep (w : World ι) (op : Operation ι κ) (w' : World ι) (hop : w.Admissible op)
      (hw : ∃ T, w.Good key T) (hstep : w.step key op = some w') : ∃ T, w'.Good key T := by
    obtain ⟨T, hT⟩ := hw
    obtain ⟨w'', hstep', hgood⟩ := step_good hT op hop
    obtain rfl : w'' = w' := Option.some.inj (hstep'.symm.trans hstep)
    exact hgood
  obtain ⟨T, hgood⟩ := hrun.invariant hkeep ⟨.nil, empty_good key memory⟩
  exact hgood.holds

/-- Three nodes with two keys, and the removal of the one in the middle. -/
theorem World.run_holds_three :
    ∃ w, Transition.Run Admissible (step fun n : Fin 3 => n.val / 2)
        (empty fun _ => ⟨none, none, none, .red⟩)
        [.insert 0, .insert 1, .insert 2, .remove 1, .removeKey 1] w ∧
      w.Holds fun n : Fin 3 => n.val / 2 := by
  have hrun : ∃ w, Transition.Run Admissible (step fun n : Fin 3 => n.val / 2)
      (empty fun _ => ⟨none, none, none, .red⟩)
      [.insert 0, .insert 1, .insert 2, .remove 1, .removeKey 1] w :=
    ⟨_, .cons (by decide) rfl (.cons (by decide) rfl (.cons (by decide) rfl
      (.cons (by decide) rfl (.cons trivial rfl .nil))))⟩
  obtain ⟨w, hw⟩ := hrun
  exact ⟨w, hw, run_holds _ _ hw⟩

end JavaScriptCore.WTF.RedBlackTree
