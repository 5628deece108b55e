/-
# The tree in memory

`Represents t T` says that the links in the memory of `t` are those of the tree `T`, parent links
included, and that no node occurs twice.  It is the only connection between the pointers and the
trees of the library.  Later proofs use it through

* `Represents.node_focus` and `Represents.node_top`, what a node at the focus of a context reads;
* `Represents.setColor` and `Represents.rotate`, the two edits of the repairs.

Each of them splits the memory into the context and the subtrees around the focus
(`represents_plug`).  An edit of a node is invisible to the parts the node is not in
(`Linked.modify`, `ContextLinked.modify`).
-/
import Mathlib.Data.List.Nodup
import JavaScriptCore.WTF.RedBlackTree

namespace JavaScriptCore.WTF.RedBlackTree

open RedBlack RedBlack.RBTree RedBlack.Context List

variable {ι : Type*}

/-! ## 1. Cells -/

/-- The links of a node with the child `x` on the side `d`. -/
def cell (d : Dir) (x y p : Option ι) (c : Color) : Node ι :=
  match d with
  | .left => ⟨x, y, p, c⟩
  | .right => ⟨y, x, p, c⟩

section

variable (d : Dir) (x y z p q : Option ι) (c c' : Color)

@[simp] theorem child_cell : (cell d x y p c).child d = x := by cases d <;> rfl

@[simp] theorem child_other_cell : (cell d x y p c).child d.other = y := by cases d <;> rfl

@[simp] theorem parent_cell : (cell d x y p c).parent = p := by cases d <;> rfl

@[simp] theorem color_cell : (cell d x y p c).color = c := by cases d <;> rfl

@[simp] theorem withChild_cell : (cell d x y p c).withChild d z = cell d z y p c := by
  cases d <;> rfl

@[simp] theorem withChild_other_cell : (cell d x y p c).withChild d.other z = cell d x z p c := by
  cases d <;> rfl

@[simp] theorem withParent_cell : { cell d x y p c with parent := q } = cell d x y q c := by
  cases d <;> rfl

@[simp] theorem withColor_cell : { cell d x y p c with color := c' } = cell d x y p c' := by
  cases d <;> rfl

end

/-! ## 2. Memory and trees -/

/-- The links of the nodes of a tree that hangs below `p`. -/
def Linked (node : ι → Node ι) : RBTree ι → Option ι → Prop
  | .nil, _ => True
  | .node c l n r, p =>
    node n = ⟨l.top, r.top, p, c⟩ ∧ Linked node l (some n) ∧ Linked node r (some n)

/-- The links of the nodes of a context, below which `top` hangs. -/
def ContextLinked (t : RedBlackTree ι) : Context ι → Option ι → Prop
  | [], top => t.m_root = top
  | f :: fs, top =>
    t.node f.n = cell f.d top f.sib.top (Context.parent fs) f.c ∧ Linked t.node f.sib (some f.n) ∧
      ContextLinked t fs (some f.n)

/-- **The memory holds this tree.** -/
structure Represents (t : RedBlackTree ι) (T : RBTree ι) : Prop where
  nodup : T.inorder.Nodup
  root : t.m_root = T.top
  linked : Linked t.node T none

variable {a b s : RBTree ι} {n : ι} {t : RedBlackTree ι} {ctx : Context ι} {c : Color} {d : Dir}

theorem linked_join {node : ι → Node ι} {p : Option ι} : Linked node (join d c a n b) p ↔
      node n = cell d a.top b.top p c ∧ Linked node a (some n) ∧ Linked node b (some n) := by
  cases d with
  | left => exact Iff.rfl
  | right => exact and_congr_right fun _ => and_comm

theorem linked_plug : (t.m_root = (plug ctx s).top ∧ Linked t.node (plug ctx s) none) ↔
      ContextLinked t ctx s.top ∧ Linked t.node s (Context.parent ctx) := by
  induction ctx generalizing s with
  | nil => exact Iff.rfl
  | cons f fs ih =>
    rw [plug, ih, linked_join, top_join, ContextLinked]
    simp only [Context.parent]
    constructor
    · rintro ⟨hfs, hn, hs, hsib⟩
      exact ⟨⟨hn, hsib, hfs⟩, hs⟩
    · rintro ⟨⟨hn, hsib, hfs⟩, hs⟩
      exact ⟨hfs, hn, hs, hsib⟩

theorem represents_plug :
    Represents t (plug ctx s) ↔ (ctx.nodes ++ s.inorder).Nodup ∧ ContextLinked t ctx s.top ∧
      Linked t.node s (Context.parent ctx) := by
  rw [← (inorder_plug_perm ctx s).nodup_iff, ← linked_plug]
  exact ⟨fun h => ⟨h.nodup, h.root, h.linked⟩, fun h => ⟨h.1, h.2.1, h.2.2⟩⟩

variable {m : ι}

theorem mem_join : m ∈ (join d c a n b).inorder ↔ m = n ∨ m ∈ a.inorder ∨ m ∈ b.inorder := by
  rw [(inorder_join_perm d c a b n).mem_iff, mem_cons, mem_append]

theorem nodup_join (h : (join d c a n b).inorder.Nodup) :
    n ∉ a.inorder ∧ n ∉ b.inorder ∧ a.inorder.Nodup ∧ b.inorder.Nodup ∧
    a.inorder.Disjoint b.inorder := by
  rw [(inorder_join_perm d c a b n).nodup_iff, nodup_cons, mem_append, not_or, nodup_append'] at h
  obtain ⟨⟨hna, hnb⟩, ha, hb, hab⟩ := h
  exact ⟨hna, hnb, ha, hb, hab⟩

/-- Memory that agrees on the nodes of a tree holds it as well. -/
theorem Linked.congr {node node' : ι → Node ι} {p : Option ι}
    (hs : Linked node s p) (h : ∀ m ∈ s.inorder, node' m = node m) : Linked node' s p := by
  induction s generalizing p with
  | nil => trivial
  | node c l n r ihl ihr =>
    simp only [inorder, mem_append, mem_cons] at h
    obtain ⟨hn, hl, hr⟩ := hs
    exact ⟨(h n (.inr (.inl rfl))).trans hn, ihl hl fun m hm => h m (.inl hm),
      ihr hr fun m hm => h m (.inr (.inr hm))⟩

theorem ContextLinked.congr {t t' : RedBlackTree ι} {top : Option ι}
    (hctx : ContextLinked t ctx top) (hroot : t'.m_root = t.m_root)
    (h : ∀ m ∈ ctx.nodes, t'.node m = t.node m) : ContextLinked t' ctx top := by
  induction ctx generalizing top with
  | nil => exact hroot.trans hctx
  | cons f fs ih =>
    simp only [nodes, mem_cons, mem_append] at h
    obtain ⟨hn, hsib, hfs⟩ := hctx
    exact ⟨(h f.n (.inl rfl)).trans hn, hsib.congr fun m hm => h m (.inr (.inl hm)),
      ih hfs fun m hm => h m (.inr (.inr hm))⟩

/-- What a node at the focus reads. -/
theorem Represents.node_focus (h : Represents t (plug ctx (join d c a n b))) :
    t.node n = cell d a.top b.top (Context.parent ctx) c :=
  (linked_join.1 (represents_plug.1 h).2.2).1

/-- The parts of the memory around a node, and that they are apart. -/
theorem nodup_focus (h : (ctx.nodes ++ (join d c a n b).inorder).Nodup) :
    ctx.nodes.Nodup ∧ n ∉ ctx.nodes ∧ n ∉ a.inorder ∧ n ∉ b.inorder ∧
      ctx.nodes.Disjoint a.inorder ∧ ctx.nodes.Disjoint b.inorder ∧ a.inorder.Disjoint b.inorder ∧
        a.inorder.Nodup ∧ b.inorder.Nodup := by
  rw [nodup_append'] at h
  obtain ⟨hctx, hjoin, hdis⟩ := h
  obtain ⟨hna, hnb, ha, hb, hab⟩ := nodup_join hjoin
  refine ⟨hctx, fun hn => hdis hn (mem_join.2 (.inl rfl)), hna, hnb, ?_, ?_, hab, ha, hb⟩
  · exact fun m hm hma => hdis hm (mem_join.2 (.inr (.inl hma)))
  · exact fun m hm hmb => hdis hm (mem_join.2 (.inr (.inr hmb)))

/-- Another node at the focus. -/
theorem nodup_focus_replace
    (h : (ctx.nodes ++ (join d c a n b).inorder).Nodup) (hctx : m ∉ ctx.nodes) (hma : m ∉ a.inorder)
    (hmb : m ∉ b.inorder) : (ctx.nodes ++ (join d c a m b).inorder).Nodup := by
  obtain ⟨hnodup, -, -, -, hctxa, hctxb, hab, ha, hb⟩ := nodup_focus h
  refine nodup_append'.2 ⟨hnodup, ?_, fun i hi hmem => ?_⟩
  · rw [(inorder_join_perm d c a b m).nodup_iff, nodup_cons, mem_append, not_or]
    exact ⟨⟨hma, hmb⟩, nodup_append'.2 ⟨ha, hb, hab⟩⟩
  · rcases mem_join.1 hmem with rfl | hi' | hi'
    · exact hctx hi
    · exact hctxa hi hi'
    · exact hctxb hi hi'

/-- A permutation of the nodes at the focus is still without repetition. -/
theorem nodup_focus_congr {s s' : RBTree ι} (heq : s'.inorder = s.inorder)
    (h : (ctx.nodes ++ s.inorder).Nodup) : (ctx.nodes ++ s'.inorder).Nodup := by
  rwa [heq]

/-- The topmost nodes of two subtrees are different. -/
theorem top_ne_top {s s' : RBTree ι} (hdis : s.inorder.Disjoint s'.inorder) (hs : s ≠ .nil) :
    s.top ≠ s'.top := by
  intro h
  cases hm : s.top with
  | none => exact hs (top_eq_none.1 hm)
  | some m => exact hdis (mem_of_top hm) (mem_of_top (h ▸ hm))

/-- Below a node the focus is not the root, even if it is a null pointer. -/
theorem Represents.root_ne {f : Frame ι} {fs : Context ι}
    (h : Represents t (plug (f :: fs) s)) : s.top ≠ t.m_root := by
  obtain ⟨r, hr, htop⟩ := top_plug_mem f fs s
  rw [h.root, htop]
  intro hs
  have hnodup := nodup_append'.1 (represents_plug.1 h).1
  exact hnodup.2.2 hr (mem_of_top hs)

/-- What the topmost node of a subtree reads. -/
theorem Represents.node_top (h : Represents t (plug ctx s)) (hm : s.top = some m) :
    t.parent m = Context.parent ctx ∧ t.color m = s.color := by
  rcases eq_nil_or_join .left s with rfl | ⟨c, a, n, b, rfl⟩
  · cases hm
  · rw [top_join] at hm
    cases hm
    rw [parent, color, h.node_focus, parent_cell, color_cell, color_join]
    exact ⟨rfl, rfl⟩

theorem Represents.isBlack_top
    (h : Represents t (plug ctx s)) : t.isBlack s.top = true ↔ s.color = .black := by
  cases hm : s.top with
  | none =>
    rw [top_eq_none.1 hm]
    exact ⟨fun _ => rfl, fun _ => rfl⟩
  | some m => rw [isBlack, decide_eq_true_iff, (h.node_top hm).2]

section Parent

variable {sib : RBTree ι} {fs : Context ι} (h : Represents t (plug (⟨d, c, n, sib⟩ :: fs) s))

include h

/-- The subtrees on both sides of the parent of the focus are apart. -/
theorem Represents.disjoint_sib : s.inorder.Disjoint sib.inorder := by
  rw [plug, represents_plug] at h
  exact (nodup_focus h.1).2.2.2.2.2.2.1

/-- What the parent of the focus reads. -/
theorem Represents.node_parent : t.node n = cell d s.top sib.top (Context.parent fs) c :=
  node_focus (show Represents t (plug fs (join d c s n sib)) from h)

theorem Represents.child_sib : t.child d.other n = sib.top := by
  rw [child, h.node_parent, child_other_cell]

/-- The sibling as the focus. -/
theorem Represents.at_sib : Represents t (plug (⟨d.other, c, n, s⟩ :: fs) sib) := by
  rw [plug_other]
  exact h

theorem Represents.isBlack_child : t.isBlack (t.child d n) = true ↔ s.color = .black := by
  rw [child, h.node_parent, child_cell]
  exact h.isBlack_top

theorem Represents.isBlack_sib : t.isBlack (t.child d.other n) = true ↔ sib.color = .black := by
  rw [h.child_sib]
  exact h.at_sib.isBlack_top

end Parent

/-! ## 3. Edits elsewhere -/

variable [DecidableEq ι]

/-- The side on which a node hangs is found by comparing it with the left child. -/
theorem side_eq {x y p : Option ι} (h : t.node n = cell d x y p c) (hne : y ≠ x) :
    (if t.left n = x then Dir.left else Dir.right) = d := by
  cases d with
  | left => exact if_pos (by rw [left, h]; rfl)
  | right => exact if_neg (by rw [left, h]; exact hne)

@[simp] theorem modify_node_self (t : RedBlackTree ι) (n : ι) (f : Node ι → Node ι) :
    (t.modify n f).node n = f (t.node n) := Function.update_self ..

theorem modify_node_of_ne (h : m ≠ n) (t : RedBlackTree ι) (f : Node ι → Node ι) :
    (t.modify n f).node m = t.node m := Function.update_of_ne h ..

@[simp] theorem setParentOf_m_root (t : RedBlackTree ι) (o q : Option ι) :
    (t.setParentOf o q).m_root = t.m_root := by cases o <;> rfl

theorem setParentOf_node_of_notMem (h : m ∉ b.inorder) (t : RedBlackTree ι) (q : Option ι) :
    (t.setParentOf b.top q).node m = t.node m := by
  cases b with
  | nil => rfl
  | node c l n r =>
    have hmn : m ≠ n := fun hmn => h (hmn ▸ mem_of_top rfl)
    rw [top, setParentOf, setParent]
    exact modify_node_of_ne hmn _ _

theorem replaceChild_node_of_notMem (h : m ∉ ctx.nodes) (t : RedBlackTree ι) (old : ι)
    (new : Option ι) :
    (t.replaceChild (Context.parent ctx) old new).node m = t.node m := by
  cases ctx with
  | nil => rfl
  | cons f fs =>
    have hmn : m ≠ f.n := fun hmn => h (hmn ▸ mem_cons_self)
    rw [Context.parent, replaceChild]
    split_ifs
    · exact modify_node_of_ne hmn _ _
    · exact modify_node_of_ne hmn _ _

section

variable {t : RedBlackTree ι} {s : RBTree ι} {p : Option ι} (hs : Linked t.node s p)

include hs

theorem Linked.modify {n : ι} (hn : n ∉ s.inorder) (f : Node ι → Node ι) :
    Linked (t.modify n f).node s p :=
  hs.congr fun _ hm => modify_node_of_ne (ne_of_mem_of_not_mem hm hn) _ _

theorem Linked.setParentOf (hdis : s.inorder.Disjoint b.inorder) (q : Option ι) :
    Linked (t.setParentOf b.top q).node s p :=
  hs.congr fun _ hm => setParentOf_node_of_notMem (hdis hm) _ _

theorem Linked.replaceChild (hdis : ctx.nodes.Disjoint s.inorder) (old : ι) (new : Option ι) :
    Linked (t.replaceChild (Context.parent ctx) old new).node s p :=
  hs.congr fun _ hm => replaceChild_node_of_notMem (fun h => hdis h hm) _ _ _

/-- Below another parent. -/
theorem Linked.reparent (hnodup : s.inorder.Nodup) (q : Option ι) :
    Linked (t.setParentOf s.top q).node s q := by
  cases s with
  | nil => trivial
  | node c l n r =>
    obtain ⟨hn, hl, hr⟩ := hs
    obtain ⟨hnl, hnr, -⟩ := nodup_join (d := .left) hnodup
    refine ⟨?_, hl.modify hnl _, hr.modify hnr _⟩
    rw [top, RedBlackTree.setParentOf, RedBlackTree.setParent, modify_node_self, hn]

end

section

variable {t : RedBlackTree ι} {ctx : Context ι} {top : Option ι} (hctx : ContextLinked t ctx top)

include hctx

theorem ContextLinked.modify {n : ι} (hn : n ∉ ctx.nodes) (f : Node ι → Node ι) :
    ContextLinked (t.modify n f) ctx top :=
  hctx.congr rfl fun _ hm => modify_node_of_ne (ne_of_mem_of_not_mem hm hn) _ _

theorem ContextLinked.setParentOf (hdis : ctx.nodes.Disjoint b.inorder) (q : Option ι) :
    ContextLinked (t.setParentOf b.top q) ctx top :=
  hctx.congr (setParentOf_m_root ..) fun _ hm => setParentOf_node_of_notMem (hdis hm) _ _

/-- Another node below a parent, on the side of the focus. -/
theorem ContextLinked.setChild {n : ι} {sib : RBTree ι} {fs : Context ι}
    (hcons : ctx = ⟨d, c, n, sib⟩ :: fs) (hnodup : ctx.nodes.Nodup) (new : Option ι) :
    ContextLinked (t.setChild d n new) ctx new := by
  subst hcons
  obtain ⟨hn, hsib, hfs⟩ := hctx
  rw [nodes, nodup_cons, mem_append, not_or] at hnodup
  obtain ⟨⟨hnsib, hnfs⟩, -⟩ := hnodup
  refine ⟨?_, hsib.modify hnsib _, hfs.modify hnfs _⟩
  exact (modify_node_self t n _).trans (by rw [hn, withChild_cell])

/-- **Another node below a context**: the parent's link is found by comparing with the left child,
which is the other subtree if the old node was on the right. -/
theorem ContextLinked.replaceChild {old : ι} (htop : top = some old) (hold : old ∉ ctx.nodes)
    (hnodup : ctx.nodes.Nodup) (new : Option ι) :
    ContextLinked (t.replaceChild (Context.parent ctx) old new) ctx new := by
  subst htop
  cases ctx with
  | nil => rfl
  | cons f fs =>
    obtain ⟨d, c, n, sib⟩ := f
    obtain ⟨hn, -⟩ := id hctx
    rw [nodes, mem_cons, mem_append, not_or, not_or] at hold
    have hchild : (t.replaceChild (some n) old new) = t.setChild d n new := by
      cases d with
      | left => exact if_pos (by rw [left, hn]; rfl)
      | right =>
        refine if_neg fun hleft => hold.2.1 (mem_of_top ?_)
        rw [← hleft, left, hn]
        rfl
    rw [show Context.parent (⟨d, c, n, sib⟩ :: fs) = some n from rfl, hchild]
    exact hctx.setChild rfl hnodup new

end

/-! ## 4. Edits at the focus -/

theorem Represents.modify {T : RBTree ι} (h : Represents t T) (hn : n ∉ T.inorder)
    (f : Node ι → Node ι) : Represents (t.modify n f) T :=
  ⟨h.nodup, h.root, h.linked.modify hn f⟩

/-- **Setting a color.** -/
theorem Represents.setColor (h : Represents t (plug ctx (join d c a n b))) (c' : Color) :
    Represents (t.setColor n c') (plug ctx (join d c' a n b)) := by
  obtain ⟨hnodup, hctx, hjoin⟩ := represents_plug.1 h
  obtain ⟨hn, ha, hb⟩ := linked_join.1 hjoin
  obtain ⟨-, hnctx, hna, hnb, -⟩ := nodup_focus hnodup
  refine represents_plug.2 ⟨nodup_focus_congr ?_ hnodup, ?_, linked_join.2 ⟨?_, ?_, ?_⟩⟩
  · rw [inorder_join, inorder_join]
  · rw [top_join] at hctx ⊢
    exact hctx.modify hnctx _
  · exact (modify_node_self t n _).trans (by rw [hn, withColor_cell])
  · exact ha.modify hna _
  · exact hb.modify hnb _

section

variable {fs : Context ι}

theorem Represents.setColor_parent {sib : RBTree ι}
    (h : Represents t (plug (⟨d, c, n, sib⟩ :: fs) s)) (c' : Color) :
    Represents (t.setColor n c') (plug (⟨d, c', n, sib⟩ :: fs) s) :=
  setColor (show Represents t (plug fs (join d c s n sib)) from h) c'

theorem Represents.setColor_sib {d' : Dir} {p : ι} {cs : Color}
    (h : Represents t (plug (⟨d, c, p, join d' cs a n b⟩ :: fs) s)) (c' : Color) :
    Represents (t.setColor n c') (plug (⟨d, c, p, join d' c' a n b⟩ :: fs) s) := by
  rw [← plug_other]
  exact h.at_sib.setColor c'

end

/-- **A rotation.** -/
theorem Represents.rotate {cx cy : Color} {e : RBTree ι}
    {x y : ι} (h : Represents t (plug ctx (join d cx a x (join d cy b y e)))) :
    ∃ t', t.rotate d x = some t' ∧ Represents t' (plug ctx (join d cy (join d cx a x b) y e)) := by
  obtain ⟨hnodup, hctx, hjoin⟩ := represents_plug.1 h
  obtain ⟨hx, ha, hjoin⟩ := linked_join.1 hjoin
  obtain ⟨hy, hb, he⟩ := linked_join.1 hjoin
  obtain ⟨hctxnodup, hxctx, hxa, hxye, hctxa, hctxye, haye, -, hyenodup⟩ := nodup_focus hnodup
  obtain ⟨hyb, hye, hbnodup, -, hbe⟩ := nodup_join hyenodup
  rw [top_join] at hx hctx
  -- the nodes that are edited, and what they are not in
  have hxy : x ≠ y := fun hxy => hxye (mem_join.2 (.inl hxy))
  have hxb : x ∉ b.inorder := fun hm => hxye (mem_join.2 (.inr (.inl hm)))
  have hxe : x ∉ e.inorder := fun hm => hxye (mem_join.2 (.inr (.inr hm)))
  have hya : y ∉ a.inorder := fun hm => haye hm (mem_join.2 (.inl rfl))
  have hyctx : y ∉ ctx.nodes := fun hm => hctxye hm (mem_join.2 (.inl rfl))
  have hctxb : ctx.nodes.Disjoint b.inorder :=
    fun m hm hmb => hctxye hm (mem_join.2 (.inr (.inl hmb)))
  have hctxe : ctx.nodes.Disjoint e.inorder :=
    fun m hm hme => hctxye hm (mem_join.2 (.inr (.inr hme)))
  have hab : a.inorder.Disjoint b.inorder := fun m hm hmb => haye hm (mem_join.2 (.inr (.inl hmb)))
  -- the tree after each edit
  let t₁ := t.setChild d.other x b.top
  let t₂ := t₁.setParentOf b.top (some x)
  let t₃ := t₂.setParent y (Context.parent ctx)
  let t₄ := t₃.replaceChild (Context.parent ctx) x (some y)
  let t₅ := t₄.setChild d y (some x)
  let t₆ := t₅.setParent x (some y)
  have hx₁ : t₁.node x = cell d a.top b.top (Context.parent ctx) cx := by
    rw [show t₁.node x = _ from modify_node_self .., hx, withChild_other_cell]
  have hy₁ : t₁.node y = t.node y := modify_node_of_ne hxy.symm ..
  have hx₂ : t₂.node x = t₁.node x := setParentOf_node_of_notMem hxb ..
  have hy₂ : t₂.node y = t.node y := (setParentOf_node_of_notMem hyb ..).trans hy₁
  have hx₃ : t₃.node x = t₁.node x := (modify_node_of_ne hxy ..).trans hx₂
  have hy₃ : t₃.node y = cell d b.top e.top (Context.parent ctx) cy := by
    rw [show t₃.node y = _ from modify_node_self .., hy₂, hy, withParent_cell]
  have hx₅ : t₅.node x = t₁.node x :=
    (modify_node_of_ne hxy ..).trans ((replaceChild_node_of_notMem hxctx ..).trans hx₃)
  have hy₅ : t₅.node y = cell d (some x) e.top (Context.parent ctx) cy := by
    rw [show t₅.node y = _ from modify_node_self ..,
      show t₄.node y = t₃.node y from replaceChild_node_of_notMem hyctx .., hy₃, withChild_cell]
  have hx₆ : t₆.node x = cell d a.top b.top (some y) cx := by
    rw [show t₆.node x = _ from modify_node_self .., hx₅, hx₁, withParent_cell]
  have hy₆ : t₆.node y = t₅.node y := modify_node_of_ne hxy.symm ..
  refine ⟨t₆, ?_, represents_plug.2 ⟨nodup_focus_congr (inorder_rotate ..) hnodup, ?_, ?_⟩⟩
  · have hother : t.child d.other x = some y := by rw [child, hx, child_other_cell]
    have hinner : t.child d y = b.top := by rw [child, hy, child_cell]
    have hinner₁ : t₁.child d y = b.top := by rw [child, hy₁, hy, child_cell]
    have hparent₂ : t₂.parent x = Context.parent ctx := by rw [parent, hx₂, hx₁, parent_cell]
    have hparent₃ : t₃.parent x = Context.parent ctx := by rw [parent, hx₃, hx₁, parent_cell]
    rw [RedBlackTree.rotate, hother]
    simp only [hinner]
    rw [hinner₁, hparent₂, hparent₃]
  · have hctx₃ : ContextLinked t₃ ctx (some x) :=
      ((hctx.modify hxctx _).setParentOf hctxb _).modify hyctx _
    rw [top_join]
    exact ((hctx₃.replaceChild rfl hxctx hctxnodup _).modify hyctx _).modify hxctx _
  · refine linked_join.2 ⟨?_, linked_join.2 ⟨hx₆, ?_, ?_⟩, ?_⟩
    · rw [hy₆, hy₅, top_join]
    · have ha₃ : Linked t₃.node a (some x) :=
        ((ha.modify hxa _).setParentOf hab _).modify hya _
      exact ((ha₃.replaceChild hctxa _ _).modify hya _).modify hxa _
    · have hb₃ : Linked t₃.node b (some x) :=
        ((hb.modify hxb _).reparent hbnodup _).modify hyb _
      exact ((hb₃.replaceChild hctxb _ _).modify hyb _).modify hxb _
    · have he₃ : Linked t₃.node e (some y) :=
        ((he.modify hxe _).setParentOf (disjoint_comm.1 hbe) _).modify hye _
      exact ((he₃.replaceChild hctxe _ _).modify hye _).modify hxe _

end JavaScriptCore.WTF.RedBlackTree
