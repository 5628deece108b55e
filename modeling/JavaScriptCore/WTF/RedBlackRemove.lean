/-
# Removal from a red-black tree

`removeFixup` repairs a tree in which the subtree at `x` has one black node too few: around it a
tree of black height `k + 1` is expected and one of height `k` is there.  `x` may be a null pointer,
and the fix-up runs while the node to be removed is still in place.

* **The sibling is never null**, because a tree of black height `k + 1` has a node
  (`Fits.sib`, `RB.exists_join`); this is the comment in the source.
* Case 1 makes the sibling black (`fixupRedSibling_spec`); Case 2 moves the gap one node up; Cases 3
  and 4 close it (`fixupInnerChild_spec`, `fixupOuterChild_spec`).
* After Case 1, Case 2 leaves a red node at the focus, so the loop takes at most one turn for each
  node above `x`, and two more (`run_removeFixup`).

`remove` unlinks the node itself or its successor (`unlink`), repairs, and in the second case puts
the successor in the place of the node (`Represents.substitute`).
-/
import JavaScriptCore.WTF.RedBlackInsert

namespace JavaScriptCore.WTF.RedBlackTree

open RedBlack RedBlack.RBTree RedBlack.Context List Represents

variable {ι : Type*}

/-! ## 1. The four cases -/

/-- What is around a gap, with the sibling `w`. -/
structure Gap (t : RedBlackTree ι) (d : Dir) (c : Color) (p : ι) (w : RBTree ι) (fs : Context ι)
    (s : RBTree ι) (k : Nat) : Prop where
  rep : Represents t (plug (⟨d, c, p, w⟩ :: fs) s)
  fits : Fits (⟨d, c, p, w⟩ :: fs) (k + 1)

variable {t : RedBlackTree ι} {d : Dir} {c : Color} {p : ι} {w s : RBTree ι}
  {fs : Context ι} {k : Nat}

variable {a b : RBTree ι} {n : ι}

/-- The child of the sibling on the near side as the focus. -/
theorem Gap.near {cs : Color} (h : Gap t d c p (join d cs a n b) fs s k) :
    Represents t (plug (⟨d, cs, n, b⟩ :: ⟨d.other, c, p, s⟩ :: fs) a) := h.rep.at_sib

variable [DecidableEq ι]

/-- **Case 1**: afterwards the sibling is black, and if there was something to do the parent is
red. -/
theorem fixupRedSibling_spec (h : Gap t d c p w fs s k) (hn : w.top = some n) :
    ∃ t' c' w' n' fs', t.fixupRedSibling d p n = some (t', n') ∧ Gap t' d c' p w' fs' s k ∧
      w'.top = some n' ∧ w'.color = .black ∧
      (plug (⟨d, c', p, w'⟩ :: fs') s).inorder = (plug (⟨d, c, p, w⟩ :: fs) s).inorder ∧
      (c' = .black → fs' = fs) ∧ fs'.length ≤ fs.length + 1 := by
  have hw := h.fits.sib
  have hcolor : t.color n = w.color := (h.rep.at_sib.node_top hn).2
  cases hwc : w.color with
  | black =>
    refine ⟨t, c, w, n, fs, ?_, h, hn, hwc, rfl, fun _ => rfl, Nat.le_succ _⟩
    rw [fixupRedSibling, if_neg (by rw [hcolor, hwc]; decide)]
  | red =>
    obtain ⟨a, m, b, rfl⟩ := exists_join_of_red d hwc
    rw [top_join] at hn
    obtain rfl := Option.some.inj hn
    obtain ⟨ha, hb, hac, hbc⟩ := hw.of_join_red
    -- a red sibling has a black parent
    have hc : c = .black := by
      cases c with
      | black => rfl
      | red =>
        have := h.fits.of_red.1
        rw [color_join] at this
        cases this
    subst hc
    have h₁ : Represents ((t.setColor m .black).setColor p .red)
        (plug fs (join d .red s p (join d .black a m b))) :=
      (h.rep.setColor_sib .black).setColor_parent .red
    obtain ⟨t', hrotate, h₂⟩ := h₁.rotate
    have hgap : Gap t' d .red p a (⟨d, .black, m, b⟩ :: fs) s k :=
      ⟨h₂, .red ha hac rfl (.black hb h.fits.of_black)⟩
    obtain ⟨ca, al, am, ar, rfl⟩ := ha.exists_join d
    refine ⟨t', .red, _, am, _, ?_, hgap, top_join .., hac, ?_, nofun, Nat.le_refl _⟩
    · have hsib := hgap.rep.child_sib
      rw [top_join] at hsib
      rw [fixupRedSibling, if_pos (by rw [hcolor, color_join])]
      simp only [hrotate, hsib, Option.bind_eq_bind, Option.bind_some, Option.pure_def]
    · exact inorder_plug_congr fs (inorder_rotate ..)

/-- **Case 3**: afterwards the child of the sibling on the far side is red. -/
theorem fixupInnerChild_spec (h : Gap t d c p (join d .black a n b) fs s k)
    (hred : ¬ (a.color = .black ∧ b.color = .black)) :
    ∃ t' a' n' b', t.fixupInnerChild d p n = some (t', n') ∧
      Gap t' d c p (join d .black a' n' b') fs s k ∧ b'.color = .red ∧
      (join d .black a' n' b').inorder = (join d .black a n b).inorder := by
  have hwsib := h.fits.sib
  obtain ⟨j, hj, ha, hb⟩ := hwsib.of_join_black
  have hfar := h.near.isBlack_sib
  cases hbc : b.color with
  | red =>
    refine ⟨t, a, n, b, ?_, h, hbc, rfl⟩
    rw [fixupInnerChild, if_neg (by rw [hfar, hbc]; decide)]
  | black =>
    have hac : a.color = .red := by
      cases hac : a.color with
      | red => rfl
      | black => exact absurd ⟨hac, hbc⟩ hred
    obtain ⟨x, m, y, rfl⟩ := exists_join_of_red d hac
    obtain ⟨hx, hy, hxc, hyc⟩ := ha.of_join_red
    have h₁ : Represents ((t.setColor m .black).setColor n .red)
        (plug (⟨d.other, c, p, s⟩ :: fs) (join d.other .red b n (join d.other .black y m x))) := by
      rw [join_other, join_other]
      exact (h.near.setColor .black).setColor_parent .red
    obtain ⟨t', hrotate, h₂⟩ := h₁.rotate
    rw [join_other, join_other] at h₂
    have hgap : Gap t' d c p (join d .black x m (join d .red y n b)) fs s k := by
      refine ⟨?_, ?_⟩
      · rw [plug_other] at h₂
        exact h₂
      · exact h.fits.replace (hj ▸ hx.join_black (hy.join_red hb hyc hbc d n) d m) (color_join ..) p
    refine ⟨t', x, m, join d .red y n b, ?_, hgap, color_join .., ?_⟩
    · have hnear : t.child d n = some m := by rw [child, h.near.node_parent, child_cell, top_join]
      have hsib := hgap.rep.child_sib
      rw [top_join] at hsib
      rw [fixupInnerChild, if_pos (hfar.2 hbc)]
      simp only [hnear, hrotate, hsib, Option.bind_eq_bind, Option.bind_some, Option.pure_def]
    · exact (inorder_rotate ..).symm

/-- A red-black tree again, in this order. -/
abbrev Rebuilt (t : RedBlackTree ι) (T : RBTree ι) (order : List ι) : Prop :=
  Represents t T ∧ (∃ j, RB T j) ∧ T.color = .black ∧ T.inorder = order

/-- **Case 4** closes the gap. -/
theorem fixupOuterChild_spec (h : Gap t d c p (join d .black a n b) fs s k) (hs : RB s k)
    (hbc : b.color = .red) : ∃ t' T', t.fixupOuterChild d p n = some (t', T'.top, none) ∧
      Rebuilt t' T' (plug (⟨d, c, p, join d .black a n b⟩ :: fs) s).inorder := by
  have hwsib := h.fits.sib
  obtain ⟨j, hj, ha, hb⟩ := hwsib.of_join_black
  obtain rfl := Nat.succ.inj hj
  have hcolor : t.color p = c := by rw [color, h.rep.node_parent, color_cell]
  obtain ⟨x, m, y, rfl⟩ := exists_join_of_red d hbc
  have h₁ : Represents ((t.setColor n c).setColor p .black)
      (plug (⟨d, c, n, join d .red x m y⟩ :: ⟨d.other, .black, p, s⟩ :: fs) a) :=
    ((h.rep.setColor_sib c).setColor_parent .black).at_sib
  have hfar : ((t.setColor n c).setColor p .black).child d.other n = some m := by
    rw [h₁.child_sib, top_join]
  have h₂ : Represents (((t.setColor n c).setColor p .black).setColor m .black)
      (plug fs (join d .black s p (join d c a n (join d .black x m y)))) := by
    have := h₁.setColor_sib .black
    rwa [plug, plug_other] at this
  obtain ⟨t', hrotate, h₃⟩ := h₂.rotate
  -- both children of the new topmost node have the height that is expected here
  have hfits := h.fits.replace (hb.blacken_red hbc) (color_blacken _) n
  rw [blacken_join] at hfits
  have hrb := hfits.plug (hs.join_black ha d p) fun hc => by
    rw [color_join] at hc
    cases hc
  refine ⟨t', _, ?_, h₃, hrb.1, hrb.2, ?_⟩
  · obtain ⟨r, hr⟩ : ∃ r, t'.m_root = some r := by
      rw [h₃.root]
      exact ⟨_, (top_plug_mem (⟨d, c, n, join d .black x m y⟩) fs _).choose_spec.2⟩
    have htop := hr ▸ h₃.root
    have hparent : t'.parent r = none :=
      (node_top (show Represents t' (plug [] _) from h₃) htop.symm).1
    rw [← htop]
    simp only [fixupOuterChild, hcolor, hfar, hrotate, hr, hparent, Option.bind_eq_bind,
      Option.bind_some, Option.pure_def]
  · refine inorder_plug_congr fs ?_
    simp only [inorder_join, Dir.append_assoc]

/-! ## 2. The loop -/

/-- The subtree at the focus has one black node too few; if it is red it can be made black. -/
structure Deficit (t : RedBlackTree ι) (ctx : Context ι) (s : RBTree ι) (k : Nat) : Prop where
  rep : Represents t (plug ctx s)
  fits : Fits ctx (k + 1)
  black : s.color = .black → RB s k
  red : s.color = .red → RB s.blacken (k + 1)

/-- **The body of the loop** closes the gap, or moves it up, or leaves a red node at the focus. -/
theorem removeFixupSide_spec (h : Deficit t (⟨d, c, p, w⟩ :: fs) s k) (hsc : s.color = .black) :
    ∃ t' ctx' s' k', t.removeFixupSide d p = some (t', s'.top, Context.parent ctx') ∧
      Deficit t' ctx' s' k' ∧ (s'.color = .black → ctx'.length ≤ fs.length) ∧
      (plug ctx' s').inorder = (plug (⟨d, c, p, w⟩ :: fs) s).inorder := by
  have hs := h.black hsc
  have hgap : Gap t d c p w fs s k := ⟨h.rep, h.fits⟩
  obtain ⟨cw, wa, n, wb, hw⟩ := hgap.fits.sib.exists_join d
  have hn : w.top = some n := by rw [show w = _ from hw, top_join]
  obtain ⟨t₁, c₁, w₁, n₁, fs₁, hcase1, hgap₁, hn₁, hw₁, horder₁, hfs₁, hlen₁⟩ :=
    fixupRedSibling_spec hgap hn
  obtain ⟨cw, a, n, b, rfl⟩ := hgap₁.fits.sib.exists_join d
  rw [color_join] at hw₁
  subst hw₁
  rw [top_join] at hn₁
  obtain rfl := Option.some.inj hn₁
  have hnear := hgap₁.near.isBlack_child
  have hfar := hgap₁.near.isBlack_sib
  have hsib := hgap.rep.child_sib
  rw [hn] at hsib
  by_cases hblack : a.color = .black ∧ b.color = .black
  · -- Case 2: the sibling becomes red, and the gap is above the parent
    obtain ⟨j, hj, ha, hb⟩ := hgap₁.fits.sib.of_join_black
    obtain rfl := Nat.succ.inj hj
    have h₂ : Represents (t₁.setColor n .red) (plug fs₁ (join d c₁ s p (join d .red a n b))) :=
      hgap₁.rep.setColor_sib .red
    have hsibling := ha.join_red hb hblack.1 hblack.2 d n
    refine ⟨_, fs₁, _, if c₁ = .black then k + 1 else k, ?_, ⟨h₂, ?_, ?_, ?_⟩, ?_, ?_⟩
    · have hparent : (t₁.setColor n .red).parent p = Context.parent fs₁ :=
        (h₂.node_top (top_join ..)).1
      have htest : (t₁.isBlack (t₁.child d n) && t₁.isBlack (t₁.child d.other n)) = true := by
        rw [Bool.and_eq_true]
        exact ⟨hnear.2 hblack.1, hfar.2 hblack.2⟩
      simp only [removeFixupSide, hsib, hcase1, htest, if_true, hparent, top_join,
        Option.bind_eq_bind, Option.bind_some, Option.pure_def]
    · cases c₁ with
      | black => exact hgap₁.fits.of_black
      | red => exact hgap₁.fits.of_red.2.1
    · rw [color_join]
      rintro rfl
      exact hs.join_black hsibling d p
    · rw [color_join, blacken_join]
      rintro rfl
      exact hs.join_black hsibling d p
    · rw [color_join]
      intro hc
      exact Nat.le_of_eq (congrArg List.length (hfs₁ hc))
    · rw [← horder₁]
      refine inorder_plug_congr fs₁ ?_
      simp only [inorder_join]
  · obtain ⟨t₂, a₂, n₂, b₂, hcase3, hgap₂, hb₂, horder₂⟩ := fixupInnerChild_spec hgap₁ hblack
    obtain ⟨t₃, T, hcase4, hrep, ⟨j, hrb⟩, hroot, horder₃⟩ := fixupOuterChild_spec hgap₂ hs hb₂
    refine ⟨t₃, [], T, j, ?_, ⟨hrep, .nil, fun _ => hrb, ?_⟩, fun _ => Nat.zero_le _, ?_⟩
    · have htest : (t₁.isBlack (t₁.child d n) && t₁.isBlack (t₁.child d.other n)) = false := by
        rw [Bool.eq_false_iff, ne_eq, Bool.and_eq_true, hnear, hfar]
        exact hblack
      simp only [removeFixupSide, hsib, hcase1, htest, hcase3, hcase4, Bool.false_eq_true, if_false,
        Option.bind_eq_bind, Option.bind_some]
      rfl
    · rw [hroot]
      nofun
    · rw [plug, horder₃, ← horder₁]
      refine inorder_plug_congr fs₁ ?_
      simp only [inorder_join] at horder₂ ⊢
      rw [horder₂]

variable {ctx : Context ι}

/-- **The loop of `removeFixup`** ends with a red-black tree and keeps the order. -/
theorem run_removeFixup {fuel : Nat} (h : Deficit t ctx s k) (hpos : 1 ≤ fuel)
    (hfuel : s.color = .black → ctx.length + 2 ≤ fuel) :
    ∃ t' T', t.removeFixup fuel s.top (Context.parent ctx) = some t' ∧
    Rebuilt t' T' (plug ctx s).inorder := by
  induction fuel generalizing t ctx s k with
  | zero => omega
  | succ fuel ih =>
    by_cases hgo : s.top ≠ t.m_root ∧ t.isBlack s.top
    · -- not at the root, and the node at the focus is black
      have hsc := h.rep.isBlack_top.1 hgo.2
      cases ctx with
      | nil => exact absurd h.rep.root.symm hgo.1
      | cons f fs =>
        obtain ⟨d, c, p, w⟩ := f
        have hfuel' := hfuel hsc
        rw [length_cons] at hfuel'
        obtain ⟨t', ctx', s', k', hbody, h', hlen, horder⟩ := removeFixupSide_spec h hsc
        obtain ⟨t'', T, hrun, hrep, hrb, hroot, horder'⟩ := ih h' (by omega) fun hc => by
          have := hlen hc; omega
        refine ⟨t'', T, ?_, hrep, hrb, hroot, horder'.trans horder⟩
        have hw : w ≠ .nil := by
          obtain ⟨_, _, _, _, hw⟩ := h.fits.sib.exists_join d
          intro hnil
          rw [show w = _ from hw] at hnil
          cases d <;> cases hnil
        have hdis := h.rep.disjoint_sib
        have hside : (if s.top = t.left p then Dir.left else Dir.right) = d := by
          rw [← side_eq h.rep.node_parent (top_ne_top (disjoint_comm.1 hdis) hw)]
          simp only [eq_comm]
        have hturn : removeFixupTurn (t, s.top, Context.parent (⟨d, c, p, w⟩ :: fs))
            = .inl (t', s'.top, Context.parent ctx') := by
          simp only [removeFixupTurn, if_pos hgo, Context.parent, hside, hbody]
        rw [← hrun, removeFixup, removeFixup, Iteration.run_succ_inl hturn]
    · -- the focus becomes black
      have hrb : RB s.blacken (k + 1) ∨ (ctx = [] ∧ s.color = .black) := by
        cases hsc : s.color with
        | red => exact .inl (h.red hsc)
        | black =>
          refine .inr ⟨?_, rfl⟩
          cases ctx with
          | nil => rfl
          | cons f fs => exact absurd ⟨h.rep.root_ne, h.rep.isBlack_top.2 hsc⟩ hgo
      have hexit : ∃ t', removeFixupTurn (t, s.top, Context.parent ctx) = .inr (some t') ∧
          Represents t' (plug ctx s.blacken) := by
        simp only [removeFixupTurn, if_neg hgo]
        rcases eq_nil_or_join .left s with rfl | ⟨c, a, n, b, rfl⟩
        · exact ⟨t, rfl, h.rep⟩
        · exact ⟨t.setColor n .black, rfl, h.rep.setColor .black⟩
      obtain ⟨t', hturn, hrep⟩ := hexit
      refine ⟨t', plug ctx s.blacken, ?_, hrep, ?_⟩
      · rw [removeFixup, Iteration.run_succ_inr hturn]
        rfl
      · have horder := inorder_plug_congr ctx (inorder_blacken s)
        rcases hrb with hrb | ⟨rfl, hsc⟩
        · refine and_assoc.1 ⟨h.fits.plug hrb fun hc => ?_, horder⟩
          rw [color_blacken] at hc
          cases hc
        · refine ⟨⟨k, ?_⟩, color_blacken s, horder⟩
          rw [plug, blacken_of_black hsc]
          exact h.black hsc

/-! ## 3. Unlinking a node -/

variable {x : RBTree ι} {y : ι}

/-- A node with at most one child is replaced by that child. -/
theorem Represents.splice (h : Represents t (plug ctx (join d c x y .nil))) :
    Represents ((t.setParentOf x.top (Context.parent ctx)).replaceChild
      (Context.parent ctx) y x.top)
        (plug ctx x) ∧
      ((t.setParentOf x.top (Context.parent ctx)).replaceChild (Context.parent ctx) y x.top).node y
        = t.node y := by
  obtain ⟨hnodup, hctx, hjoin⟩ := represents_plug.1 h
  obtain ⟨-, hx, -⟩ := linked_join.1 hjoin
  obtain ⟨hctxnodup, hyctx, hyx, -, hctxx, -, -, hxnodup, -⟩ := nodup_focus hnodup
  rw [top_join] at hctx
  refine ⟨represents_plug.2 ⟨nodup_append'.2 ⟨hctxnodup, hxnodup, hctxx⟩, ?_, ?_⟩, ?_⟩
  · have := hctx.setParentOf hctxx (Context.parent ctx)
    exact this.replaceChild rfl hyctx hctxnodup _
  · exact (hx.reparent hxnodup _).replaceChild hctxx _ _
  · rw [replaceChild_node_of_notMem hyctx, setParentOf_node_of_notMem hyx]

/-- **Unlinking a node with at most one child** keeps a red-black tree, and the order of the rest.
-/
theorem unlink_spec (h : Represents t (plug ctx (join d c x y .nil)))
    (hrb : Balanced (plug ctx (join d c x y .nil)))
    (hchild : (if t.left y ≠ none then t.left y else t.right y) = x.top) {fuel : Nat}
    (hfuel : ctx.length + 2 ≤ fuel) :
    ∃ t' T', t.unlink fuel y = some t' ∧ Rebuilt t' T' (plug ctx x).inorder := by
  obtain ⟨hsplice, hnode⟩ := h.splice
  have hy := h.node_focus
  have hparent : t.parent y = Context.parent ctx := by rw [parent, hy, parent_cell]
  have hparent' : (t.setParentOf x.top (Context.parent ctx)).parent y = Context.parent ctx := by
    have hyx := (nodup_focus (represents_plug.1 h).1).2.2.1
    rw [parent, setParentOf_node_of_notMem hyx, hy, parent_cell]
  have hcolor : ((t.setParentOf x.top (Context.parent ctx)).replaceChild (Context.parent ctx) y
      x.top).color y = c := by rw [color, hnode, hy, color_cell]
  obtain ⟨k, hfits, hfocus, hred⟩ := hrb.focus
  rw [color_join] at hred
  rw [unlink, hchild, hparent]
  simp only [hparent', hcolor]
  cases c with
  | red =>
    obtain ⟨hx, -, hxc, -⟩ := hfocus.of_join_red
    refine ⟨_, _, if_neg (by decide), hsplice, and_assoc.1 ⟨hfits.plug hx fun hc => ?_, rfl⟩⟩
    rw [hxc] at hc
    cases hc
  | black =>
    obtain ⟨k, rfl, hx, -⟩ := hfocus.of_join_black
    have hdeficit : Deficit _ ctx x k := ⟨hsplice, hfits, fun _ => hx, hx.blacken_red⟩
    rw [if_pos rfl]
    exact run_removeFixup hdeficit (by omega) fun _ => hfuel

variable {z : ι}

/-- **The substitution**: `y`, which is not in the tree, takes the place of `z`. -/
theorem Represents.substitute (h : Represents t (plug ctx (.node c a z b))) (hy : y ∉ ctx.nodes)
    (hya : y ∉ a.inorder) (hyb : y ∉ b.inorder) (hyz : y ≠ z) :
    Represents (t.substitute y z) (plug ctx (.node c a y b)) := by
  obtain ⟨hnodup, hctx, hz, ha, hb⟩ := represents_plug.1 h
  obtain ⟨hctxnodup, hzctx, hza, hzb, hctxa, hctxb, hab, hanodup, hbnodup⟩ :=
    nodup_focus (d := .left) hnodup
  -- the four links of `y`
  let t₄ :=
    (((t.setParent y (Context.parent ctx)).setColor y c).setChild .left y a.top).setChild .right y
      b.top
  let t₅ := t₄.setParentOf a.top (some y)
  let t₆ := t₅.setParentOf b.top (some y)
  have hy₄ : t₄.node y = ⟨a.top, b.top, Context.parent ctx, c⟩ := by
    simp only [t₄, RedBlackTree.setColor, setChild, setParent, modify_node_self, Node.withChild]
  have hz₁ : (t.setParent y (Context.parent ctx)).node z = t.node z := modify_node_of_ne hyz.symm ..
  have hz₂ : ((t.setParent y (Context.parent ctx)).setColor y c).node z = t.node z :=
    (modify_node_of_ne hyz.symm ..).trans hz₁
  have hz₃ : (((t.setParent y (Context.parent ctx)).setColor y c).setChild .left y a.top).node z
      = t.node z := (modify_node_of_ne hyz.symm ..).trans hz₂
  have hz₄ : t₄.node z = t.node z := (modify_node_of_ne hyz.symm ..).trans hz₃
  have hz₅ : t₅.node z = t.node z := (setParentOf_node_of_notMem hza ..).trans hz₄
  have hz₆ : t₆.node z = t.node z := (setParentOf_node_of_notMem hzb ..).trans hz₅
  have hy₆ : t₆.node y = ⟨a.top, b.top, Context.parent ctx, c⟩ :=
    (setParentOf_node_of_notMem hyb ..).trans ((setParentOf_node_of_notMem hya ..).trans hy₄)
  have heq : t.substitute y z = t₆.replaceChild (Context.parent ctx) z (some y) := by
    simp only [RedBlackTree.substitute, parent, color, left, right, hz, hz₁, hz₂, hz₃]
    rw [show t₄.node z = _ from hz₄, hz]
    rw [show t₅.node z = _ from hz₅, hz]
    rw [show t₆.node z = _ from hz₆, hz]
  have hy₇ : (t₆.replaceChild (Context.parent ctx) z (some y)).node y = t₆.node y :=
    replaceChild_node_of_notMem hy ..
  rw [heq]
  refine represents_plug.2 ⟨nodup_focus_replace (d := .left) hnodup hy hya hyb, ?_,
    hy₇.trans hy₆, ?_, ?_⟩
  · have hctx₄ : ContextLinked t₄ ctx (some z) :=
      (((hctx.modify hy _).modify hy _).modify hy _).modify hy _
    have hctx₆ : ContextLinked t₆ ctx (some z) :=
      (hctx₄.setParentOf hctxa _).setParentOf hctxb _
    exact hctx₆.replaceChild rfl hzctx hctxnodup _
  · have ha₄ : Linked t₄.node a (some z) :=
      (((ha.modify hya _).modify hya _).modify hya _).modify hya _
    have ha₆ : Linked t₆.node a (some y) :=
      (ha₄.reparent hanodup _).setParentOf hab _
    exact ha₆.replaceChild hctxa _ _
  · have hb₄ : Linked t₄.node b (some z) :=
      (((hb.modify hyb _).modify hyb _).modify hyb _).modify hyb _
    have hb₆ : Linked t₆.node b (some y) :=
      (hb₄.setParentOf (disjoint_comm.1 hab) _).reparent hbnodup _
    exact hb₆.replaceChild hctxb _ _

/-! ## 4. `remove` -/

omit [DecidableEq ι] in
/-- **`treeMinimum` ends at the first node in order.** -/
theorem treeMinimum_spec {x : ι} (h : Represents t (plug ctx s)) (hx : s.top = some x) {fuel : Nat}
    (hfuel : s.inorder.length ≤ fuel) :
    ∃ ctx' c n r, s = plug ctx' (.node c .nil n r) ∧ Context.before ctx' = [] ∧
      t.treeMinimum fuel x = some n := by
  induction s generalizing ctx x fuel with
  | nil => cases hx
  | node c l n r ihl _ =>
    obtain rfl : n = x := Option.some.inj hx
    rw [inorder, length_append, length_cons] at hfuel
    obtain _ | fuel := fuel
    · omega
    have hleft : t.left n = l.top := by
      rw [left, node_focus (d := .left) h]
      rfl
    cases hl : l.top with
    | none =>
      obtain rfl := top_eq_none.1 hl
      refine ⟨[], c, n, r, rfl, rfl, Iteration.run_succ_inr ?_ fuel⟩
      simp only [hleft, hl]
    | some m =>
      obtain ⟨ctx', c', n', r', hplug, hbefore, hmin⟩ :=
        ihl (show Represents t (plug (⟨.left, c, n, r⟩ :: ctx) l) from h) hl
          (show l.inorder.length ≤ fuel by omega)
      refine ⟨ctx' ++ [⟨.left, c, n, r⟩], c', n', r', ?_, ?_, ?_⟩
      · rw [plug_append, ← hplug]
        rfl
      · rw [before_append, hbefore]
        rfl
      · rw [← hmin]
        refine Iteration.run_succ_inl ?_ fuel
        simp only [hleft, hl]

/-- A removal in the middle of a list without repetitions. -/
theorem erase_middle {A B : List ι} (h : (A ++ z :: B).Nodup) : (A ++ z :: B).erase z = A ++ B := by
  have hz : z ∉ A := fun hz => (nodup_append'.1 h).2.2 hz mem_cons_self
  rw [erase_append_right _ hz, erase_cons_head]

/-- A node with at most one child: it is unlinked itself. -/
theorem remove_self (h : Represents t (plug ctx (join d c x z .nil)))
    (hrb : Balanced (plug ctx (join d c x z .nil))) {fuel : Nat} (hfuel : ctx.length + 2 ≤ fuel) :
    ∃ t' T', t.remove fuel z = some (t', z) ∧
      Rebuilt t' T' ((plug ctx (join d c x z .nil)).inorder.erase z) := by
  have hnode := h.node_focus
  have hchild : (if t.left z ≠ none then t.left z else t.right z) = x.top ∧
      (t.left z = none ∨ t.right z = none) := by
    cases d with
    | left =>
      rw [left, right, hnode]
      exact ⟨by cases x <;> rfl, .inr rfl⟩
    | right =>
      rw [left, right, hnode]
      exact ⟨if_neg (not_not.2 rfl), .inl rfl⟩
  obtain ⟨t', T', hunlink, hrep, hrb', hroot, horder⟩ := unlink_spec h hrb hchild.1 hfuel
  refine ⟨t', T', ?_, hrep, hrb', hroot, ?_⟩
  · simp only [remove, if_pos hchild.2, hunlink, Option.bind_eq_bind, Option.bind_some, ne_eq,
      not_true_eq_false, if_false, Option.pure_def]
  · have hnodup := h.nodup
    rw [horder, inorder_plug]
    cases d with
    | left =>
      have hT : (plug ctx (join .left c x z .nil)).inorder = (ctx.before ++ x.inorder) ++
          z :: ctx.after := by
        simp [inorder_plug, join, inorder]
      rw [hT] at hnodup ⊢
      rw [erase_middle hnodup, append_assoc]
    | right =>
      have hT : (plug ctx (join .right c x z .nil)).inorder
          = ctx.before ++ z :: (x.inorder ++ ctx.after) := by
        simp [inorder_plug, join, inorder]
      rw [hT] at hnodup ⊢
      rw [erase_middle hnodup]

/-- A node with two children: its successor is unlinked and takes its place. -/
theorem remove_successor {l r : RBTree ι} (h : Represents t (plug ctx (.node c l z r)))
    (hrb : Balanced (plug ctx (.node c l z r))) (hl : l.top ≠ none) (hr : r.top ≠ none) {fuel : Nat}
    (hfuel : (plug ctx (.node c l z r)).inorder.length + 2 ≤ fuel) :
    ∃ t' T', t.remove fuel z = some (t', z) ∧
    Rebuilt t' T' ((plug ctx (.node c l z r)).inorder.erase z) := by
  have hnode := node_focus (d := .left) h
  have hright : t.right z = r.top := by
    rw [right, hnode]
    rfl
  obtain ⟨x, hx⟩ := Option.ne_none_iff_exists'.1 hr
  have hrlength : r.inorder.length ≤ fuel := by
    rw [inorder_plug, inorder] at hfuel
    simp only [length_append, length_cons] at hfuel
    omega
  -- the successor is below a path of left children in the right subtree
  obtain ⟨ctx', cy, y, yr, rfl, hbefore, hmin⟩ := treeMinimum_spec
    (show Represents t (plug (⟨.right, c, z, l⟩ :: ctx) r) from h) hx hrlength
  have hplug : plug ctx (.node c l z (plug ctx' (.node cy .nil y yr)))
      = plug (ctx' ++ ⟨.right, c, z, l⟩ :: ctx) (join .right cy yr y .nil) := by
    rw [plug_append]
    rfl
  have hbefore' : before (ctx' ++ ⟨.right, c, z, l⟩ :: ctx) = (ctx.before ++ l.inorder) ++ [z] := by
    rw [before_append, hbefore, append_nil, before, append_assoc]
  rw [hplug] at h hrb hfuel ⊢
  have hnodup := h.nodup
  have hy := h.node_focus
  generalize hctxY : ctx' ++ ⟨.right, c, z, l⟩ :: ctx = ctxY at *
  have hT : (plug ctxY (join .right cy yr y .nil)).inorder
      = (ctx.before ++ l.inorder) ++ z :: y :: (yr.inorder ++ ctxY.after) := by
    simp [inorder_plug, join, inorder, hbefore']
  have hlength : ctxY.length + 2 ≤ fuel := by
    rw [(inorder_plug_perm ctxY _).length_eq, length_append] at hfuel
    have := length_le_nodes ctxY
    omega
  obtain ⟨t₁, T₁, hunlink, h₁, hrb₁, hroot₁, horder₁⟩ := unlink_spec h hrb (by
      rw [left, right, hy]
      exact if_neg (not_not.2 rfl)) hlength
  have hT₁ : T₁.inorder = (ctx.before ++ l.inorder) ++ z :: (yr.inorder ++ ctxY.after) := by
    rw [horder₁, inorder_plug, hbefore']
    simp
  -- and it takes the place of the node
  obtain ⟨ctx₁, c₁, l₁, r₁, rfl⟩ : ∃ ctx c l r, T₁ = plug ctx (.node c l z r) := by
    refine exists_plug ?_
    rw [hT₁]
    exact mem_append_right _ mem_cons_self
  rw [hT] at hnodup
  have hyz : y ≠ z := by
    rintro rfl
    exact (nodup_cons.1 (nodup_append'.1 hnodup).2.1).1 mem_cons_self
  have hy₁ : y ∉ ctx₁.nodes ++ (l₁.inorder ++ z :: r₁.inorder) := by
    have hmiddle : (((ctx.before ++ l.inorder) ++ [z]) ++
        y :: (yr.inorder ++ ctxY.after)).Nodup := by
      rwa [append_assoc _ [z]]
    rw [nodup_middle, nodup_cons, append_assoc _ [z]] at hmiddle
    intro hmem
    refine hmiddle.1 ?_
    rw [singleton_append, ← hT₁]
    exact (inorder_plug_perm ctx₁ _).mem_iff.2 hmem
  simp only [mem_append, mem_cons, not_or] at hy₁
  obtain ⟨hyctx, hyl, -, hyr⟩ := hy₁
  obtain ⟨k, hfits, hfocus, hcolor⟩ := Balanced.focus ⟨hrb₁, hroot₁⟩
  refine ⟨_, _, ?_, h₁.substitute hyctx hyl hyr hyz,
    and_assoc.1 ⟨hfits.plug (hfocus.rename y) hcolor, ?_⟩⟩
  · have hboth : ¬ (t.left z = none ∨ t.right z = none) := by
      rw [not_or, hright, left, hnode]
      exact ⟨hl, hr⟩
    have hsucc : (t.successor fuel z).join = some y := by
      rw [successor, hright, hx]
      simp only [hmin]
      rfl
    simp only [remove, if_neg hboth, hsucc, hunlink, Option.bind_eq_bind, Option.bind_some,
      if_pos hyz, Option.pure_def]
  · have hsplit : (ctx₁.before ++ l₁.inorder) ++ z :: (r₁.inorder ++ ctx₁.after)
        = (ctx.before ++ l.inorder) ++ z :: (yr.inorder ++ ctxY.after) := by
      rw [← hT₁, inorder_plug, inorder]
      simp only [append_assoc, cons_append]
    have hnodup₁ := h₁.nodup
    rw [hT₁, nodup_middle, nodup_cons, mem_append, not_or] at hnodup₁
    rw [eq_comm, append_cons_inj_of_notMem hnodup₁.1.1 hnodup₁.1.2] at hsplit
    rw [hT, erase_middle hnodup, hsplit.1, hsplit.2.2, inorder_plug, inorder]
    simp only [append_assoc, cons_append]

/-- **Removing a node** keeps a red-black tree, and the order of the rest. -/
theorem remove_spec {T : RBTree ι} (h : Represents t T) (hrb : Balanced T) (hz : z ∈ T.inorder)
    {fuel : Nat} (hfuel : T.inorder.length + 2 ≤ fuel) :
    ∃ t' T', t.remove fuel z = some (t', z) ∧ Rebuilt t' T' (T.inorder.erase z) := by
  obtain ⟨ctx, c, l, r, rfl⟩ := exists_plug hz
  have hlength : ctx.length + 2 ≤ fuel := by
    rw [(inorder_plug_perm ctx _).length_eq, length_append] at hfuel
    have := length_le_nodes ctx
    omega
  cases hl : l.top with
  | none =>
    obtain rfl := top_eq_none.1 hl
    exact remove_self (d := .right) h hrb hlength
  | some m =>
    cases hr : r.top with
    | none =>
      obtain rfl := top_eq_none.1 hr
      exact remove_self (d := .left) h hrb hlength
    | some m' =>
      exact remove_successor h hrb (by rw [hl]; nofun) (by rw [hr]; nofun) hfuel

end JavaScriptCore.WTF.RedBlackTree
