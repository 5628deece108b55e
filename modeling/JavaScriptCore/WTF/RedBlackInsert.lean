/-
# Insertion into a red-black tree

`treeInsert` hangs the new node below the place that `descend` finds (`treeInsert_spec`).  The loop
of `insert` then moves a red node with a red parent up until the conflict is gone:

* **Case 1** recolors and moves the conflict two nodes up (`insertFixupSide_red`);
* **Cases 2 and 3** rotate the conflict away (`insertRotate_spec`), and the next turn ends the loop.

`run_insertFixup` is the loop: the context above the node gets shorter, so a turn for each node
above it, and two more, suffice.
-/
import JavaScriptCore.WTF.RedBlackShape

namespace JavaScriptCore.WTF.RedBlackTree

open RedBlack RedBlack.RBTree RedBlack.Context List Represents Iteration Option

variable {ι : Type*}

/-! ## 1. Hanging a node in -/

variable {t : RedBlackTree ι} {ctx : Context ι}

/-- A node that is not in the tree, below a free place. -/
theorem Represents.attach {t' : RedBlackTree ι} {z : ι} (h : Represents t (plug ctx .nil))
    (hz : z ∉ ctx.nodes) (hnode : t'.node z = ⟨none, none, Context.parent ctx, .red⟩)
    (hctx : ContextLinked t' ctx (some z)) : Represents t' (plug ctx (.node .red .nil z .nil)) := by
  have hnodup := (represents_plug.1 h).1
  rw [inorder, append_nil] at hnodup
  refine represents_plug.2 ⟨?_, hctx, hnode, trivial, trivial⟩
  refine nodup_append'.2 ⟨hnodup, nodup_singleton z, ?_⟩
  exact fun m hm hmz => hz (mem_singleton.1 hmz ▸ hm)

section

variable {κ : Type*} [LinearOrder κ]

/-- **The loop of `treeInsert` takes the way down of `descend`.** -/
theorem insertionParent_spec {t : RedBlackTree ι} (key : ι → κ) (z : ι) {ctx : Context ι}
    {s : RBTree ι} (h : Represents t (plug ctx s)) {fuel : Nat} (hfuel : s.inorder.length < fuel) :
    Iteration.run (fun (s : Option ι × Option ι) =>
      match s.2 with
      | none => .inr s.1
      | some x => .inl (some x, if key z < key x then t.left x else t.right x)) fuel
        (Context.parent ctx, s.top) = some (Context.parent (descend key z ctx s)) := by
  induction s generalizing ctx fuel with
  | nil =>
    obtain _ | fuel := fuel
    · omega
    exact run_succ_inr rfl fuel
  | node c l n r ihl ihr =>
    obtain _ | fuel := fuel
    · omega
    rw [inorder, length_append, length_cons] at hfuel
    have hnode : t.node n = cell .left l.top r.top (Context.parent ctx) c :=
      node_focus (d := .left) h
    rw [descend]
    split_ifs with hlt
    · refine (run_succ_inl ?_ fuel).trans
        (ihl (show Represents t (plug (⟨.left, c, n, r⟩ :: ctx) l) from h) (by omega))
      simp only [top, if_pos hlt, left, hnode]
      rfl
    · refine (run_succ_inl ?_ fuel).trans
        (ihr (show Represents t (plug (⟨.right, c, n, l⟩ :: ctx) r) from h) (by omega))
      simp only [top, if_neg hlt, right, hnode]
      rfl

variable [DecidableEq ι]

/-- **`treeInsert` hangs the node in at that place.** -/
theorem treeInsert_spec {t : RedBlackTree ι} (key : ι → κ) {z : ι} {T : RBTree ι}
    (h : Represents t T) (hz : z ∉ T.inorder) (hnode : t.node z = ⟨none, none, none, .red⟩)
    {fuel : Nat} (hfuel : T.inorder.length < fuel) : ∃ t', t.treeInsert fuel key z = some t' ∧
      Represents t' (plug (descend key z [] T) (.node .red .nil z .nil)) := by
  have hparent : t.insertionParent fuel key z = some (Context.parent (descend key z [] T)) := by
    rw [insertionParent, h.root]
    exact insertionParent_spec key z (show Represents t (plug [] T) from h) hfuel
  have hside : ∀ f ∈ descend key z [] T, f.d = if key z < key f.n then .left else .right :=
    side_of_mem_descend (forall_mem_nil _)
  have hplug := plug_descend key z [] T
  generalize descend key z [] T = ctx at hparent hside hplug ⊢
  have hrep : Represents t (plug ctx .nil) := by rwa [hplug]
  have hzctx : z ∉ ctx.nodes := fun hm => hz (by
    rw [show T = plug [] T from rfl, ← hplug, (inorder_plug_perm ctx _).mem_iff]
    exact mem_append_left _ hm)
  obtain ⟨hnodup, hctx, -⟩ := represents_plug.1 hrep
  rw [inorder, append_nil] at hnodup
  have hctx₁ := hctx.modify hzctx fun m => { m with parent := Context.parent ctx }
  have hnode₁ : (t.setParent z (Context.parent ctx)).node z =
      ⟨none, none, Context.parent ctx, .red⟩ := by
    rw [setParent, modify_node_self, hnode]
  rw [treeInsert, hparent]
  cases ctx with
  | nil => exact ⟨_, rfl, hrep.attach hzctx hnode₁ rfl⟩
  | cons f fs =>
    obtain ⟨d, c, n, sib⟩ := f
    have hzn : z ≠ n := fun hzn => hzctx (hzn ▸ mem_cons_self)
    have hd := hside _ mem_cons_self
    have hchild (t : RedBlackTree ι) : (if key z < key n then t.setChild .left n (some z)
        else t.setChild .right n (some z)) = t.setChild d n (some z) := by
      split_ifs at hd ⊢ with hlt <;> rw [show d = _ from hd]
    simp only [Context.parent, Option.map_some, hchild]
    refine ⟨_, rfl, hrep.attach hzctx ?_ (hctx₁.setChild rfl hnodup _)⟩
    exact (modify_node_of_ne hzn _ _).trans hnode₁

end

/-! ## 2. Moving the conflict up -/

variable [DecidableEq ι]

variable {d : Dir} {gs : Context ι} {u : RBTree ι} {x g : ι}

/-- **Case 3**: a red node `x` below a red node `m`, both on the same side of a black node. -/
theorem insertCase3_spec {A B : RBTree ι} {m : ι}
    (h : Represents t (plug gs (join d .black (join d .red A m B) g u))) (hx : A.top = some x) :
    ∃ t', t.insertCase3 d x = some (t', x) ∧
      Represents t' (plug gs (join d .black A m (join d .red B g u))) := by
  have hA : Represents t (plug (⟨d, .red, m, B⟩ :: ⟨d, .black, g, u⟩ :: gs) A) := h
  have hm : t.parent x = some m := (hA.node_top hx).1
  have h₁ :
      Represents (t.setColor m .black) (plug (⟨d, .black, g, u⟩ :: gs) (join d .black A m B)) :=
    hA.setColor_parent .black
  have hg : (t.setColor m .black).parent m = some g := (h₁.node_top (top_join ..)).1
  have h₂ : Represents ((t.setColor m .black).setColor g .red)
      (plug gs (join d.other .red u g (join d.other .black B m A))) := by
    rw [join_other, join_other]
    exact h₁.setColor_parent .red
  obtain ⟨t', hrotate, h₃⟩ := h₂.rotate
  refine ⟨t', ?_, ?_⟩
  · simp only [insertCase3, hm, hg, hrotate, Option.bind_eq_bind, Option.bind_some, Option.pure_def]
  · rwa [join_other, join_other] at h₃

variable {fd : Dir} {X s : RBTree ι} {p : ι}

/-- **Cases 2 and 3**: the conflict is rotated away. -/
theorem insertRotate_spec {k : Nat}
    (h : Represents t (plug (⟨fd, .red, p, s⟩ :: ⟨d, .black, g, u⟩ :: gs) X)) (hx : X.top = some x)
    (hX : RB X k) (hXc : X.color = .red) (hs : RB s k) (hsc : s.color = .black) (hu : RB u k)
    (huc : u.color = .black) : ∃ t' x' A m B, t.insertRotate d x p = some (t', x') ∧
    A.top = some x' ∧ Represents t' (plug gs (join d .black A m B)) ∧ RB A k ∧ RB B k ∧
      (join d .black A m B).inorder = (join d .black (join fd .red X p s) g u).inorder := by
  have hp : t.node p = cell fd (some x) s.top (some g) .red := by
    rw [← hx]
    exact h.node_parent
  by_cases hside : fd = d
  · subst hside
    have hne : ¬ t.child fd.other p = some x := by
      rw [child, hp, child_other_cell, ← hx]
      exact (top_ne_top h.disjoint_sib (fun hnil => by rw [hnil] at hx; cases hx)).symm
    obtain ⟨t', heq, h'⟩ := insertCase3_spec h hx
    refine ⟨t', x, X, p, join fd .red s g u, ?_, hx, h', hX, hs.join_red hu hsc huc _ _,
      (inorder_rotate ..).symm⟩
    rw [insertRotate, if_neg hne, heq]
  · -- the node is on the inner side: a rotation at its parent brings it to the outer one
    obtain rfl := Dir.eq_other_of_ne hside
    obtain ⟨a, n, b, rfl⟩ := exists_join_of_red d hXc
    rw [top_join] at hx
    obtain rfl := some.inj hx
    obtain ⟨ha, hb, hac, hbc⟩ := hX.of_join_red
    have h₁ :
        Represents t (plug (⟨d, .black, g, u⟩ :: gs) (join d .red s p (join d .red a n b))) := by
      rw [← join_other]
      exact h
    obtain ⟨t₁, hrotate, h₂⟩ := h₁.rotate
    obtain ⟨t', heq, h'⟩ := insertCase3_spec
      (show Represents t₁ (plug gs (join d .black (join d .red (join d .red s p a) n b) g u))
        from h₂)
      (top_join ..)
    refine ⟨t', p, join d .red s p a, n, join d .red b g u, ?_, top_join .., h',
      hs.join_red ha hsc hac _ _, hb.join_red hu hbc huc _ _, ?_⟩
    · have hinner : t.child d.other p = some n := by rw [child, hp, child_cell]
      rw [insertRotate, if_pos hinner, hrotate]
      exact heq
    · rw [join_other]
      simp only [inorder_join, Dir.append_assoc]

/-- **Case 1**: a red uncle; the conflict moves two nodes up. -/
theorem insertFixupSide_red {a b : RBTree ι} {y : ι}
    (h : Represents t (plug (⟨fd, .red, p, s⟩ :: ⟨d, .black, g, join d .red a y b⟩ :: gs) X)) :
    ∃ t', t.insertFixupSide d x p g = some (t', g) ∧
      Represents t' (plug gs (join d .red (join fd .black X p s) g (join d .black a y b))) := by
  have hp : Represents t (plug (⟨d, .black, g, join d .red a y b⟩ :: gs) (join fd .red X p s)) := h
  have hy : t.color y = .red := by rw [(hp.at_sib.node_top (top_join ..)).2, color_join]
  have h₁ : Represents (t.setColor p .black)
      (plug (⟨d, .black, g, join d .red a y b⟩ :: gs) (join fd .black X p s)) := hp.setColor .black
  refine ⟨_, ?_, (h₁.setColor_sib .black).setColor_parent .red⟩
  rw [insertFixupSide, hp.child_sib, top_join]
  simp only [hy, if_true]

/-! ## 3. The loop -/

/-- A turn with a red parent is one of the cases above, on the right side. -/
theorem insertFixupTurn_red
      (h : Represents t (plug (⟨fd, .red, p, s⟩ :: ⟨d, .black, g, u⟩ :: gs) X))
    (hx : X.top = some x) {t' : RedBlackTree ι} {x' : ι}
    (hcase : t.insertFixupSide d x p g = some (t', x')) :
    insertFixupTurn (t, x) = .inl (t', x') := by
  have hp := h.node_parent
  have h' : Represents t (plug (⟨d, .black, g, u⟩ :: gs) (join fd .red X p s)) := h
  have hside : (if t.left g = some p then Dir.left else Dir.right) = d := by
    have hne : u.top ≠ (join fd .red X p s).top :=
      (top_ne_top h'.disjoint_sib (fun hnil => by cases fd <;> cases hnil)).symm
    rw [← side_eq h'.node_parent hne, top_join]
  have hroot : ¬ some x = t.m_root := hx ▸ h.root_ne
  have hparent : t.parent x = some p := (h.node_top hx).1
  have hcolor : t.color p = .red := by rw [color, hp, color_cell]
  have hgrand : t.parent p = some g := by
    rw [parent, hp, parent_cell]
    rfl
  simp only [insertFixupTurn, if_neg hroot, hparent, hcolor, ne_eq, not_true_eq_false, if_false,
    hgrand, hside, hcase]

/-- **A turn ends the loop** at the root or below a black node. -/
theorem insertFixupTurn_done (h : Represents t (plug ctx X)) (hx : X.top = some x)
    (hctx : ∀ f fs, ctx = f :: fs → f.c = .black) : insertFixupTurn (t, x) = .inr (some t) := by
  cases ctx with
  | nil =>
    have hroot : some x = t.m_root := by
      rw [h.root, ← hx]
      rfl
    simp only [insertFixupTurn, if_pos hroot]
  | cons f fs =>
    obtain ⟨d, c, p, s⟩ := f
    obtain rfl : c = .black := hctx _ _ rfl
    have hroot : ¬ some x = t.m_root := hx ▸ h.root_ne
    have hparent : t.parent x = some p := (h.node_top hx).1
    have hcolor : t.color p ≠ .red := by
      rw [color, h.node_parent, color_cell]
      decide
    simp only [insertFixupTurn, if_neg hroot, hparent, if_pos hcolor]

/-- **The loop of `insert`** removes the conflict and keeps the order. -/
theorem run_insertFixup {k : Nat} (h : Represents t (plug ctx X)) (hx : X.top = some x)
    (hX : RB X k) (hXc : X.color = .red) (hctx : Fits ctx k) {fuel : Nat}
    (hfuel : ctx.length + 2 ≤ fuel) :
    ∃ t' T', Iteration.run insertFixupTurn fuel (t, x) = some (some t') ∧ Represents t' T' ∧
      T'.inorder = (plug ctx X).inorder ∧ ∃ j, RB T' j := by
  induction hn : ctx.length using Nat.strongRecOn generalizing t ctx X x k fuel with
  | ind n ih =>
    obtain ⟨fuel, rfl⟩ := Nat.exists_eq_add_of_le' (show 2 ≤ fuel by omega)
    match ctx, hctx with
    | [], _ =>
      have hdone := insertFixupTurn_done h hx nofun
      exact ⟨t, X, run_succ_inr hdone _, h, rfl, k, hX⟩
    | ⟨fd, .black, p, s⟩ :: fs, hctx =>
      have hdone := insertFixupTurn_done h hx fun f fs hcons => by cases hcons; rfl
      exact ⟨t, _, run_succ_inr hdone _, h, rfl, (hctx.plug hX fun _ => ⟨_, _, rfl, rfl⟩).1⟩
    | ⟨fd, .red, p, s⟩ :: fs, hctx =>
      have hs := hctx.sib
      obtain ⟨hsc, hfs, d, g, u, gs, rfl⟩ := hctx.of_red
      have hu := hfs.sib
      have hgs := hfs.of_black
      cases huc : u.color with
      | red =>
        obtain ⟨a, y, b, rfl⟩ := exists_join_of_red d huc
        obtain ⟨t₁, hcase, h₁⟩ := insertFixupSide_red (x := x) h
        have huncle : RB (join d .black a y b) (k + 1) := by
          have := hu.blacken_red huc
          rwa [blacken_join] at this
        have hX₁ : RB (join d .red (join fd .black X p s) g (join d .black a y b)) (k + 1) :=
          (hX.join_black hs fd p).join_red huncle (color_join ..) (color_join ..) d g
        simp only [length_cons] at hn hfuel
        obtain ⟨t', T', hrun, hrep, horder, hrb⟩ := ih gs.length (by omega) h₁ (top_join ..) hX₁
          (color_join ..) hgs (show gs.length + 2 ≤ fuel + 1 by omega) rfl
        refine ⟨t', T', ?_, hrep, horder.trans ?_, hrb⟩
        · rw [← hrun]
          exact run_succ_inl (insertFixupTurn_red h hx hcase) (fuel + 1)
        · refine inorder_plug_congr gs ?_
          simp only [inorder_join]
      | black =>
        obtain ⟨t₁, x₁, A, m, B, hrotate, hA, h₁, hArb, hBrb, horder⟩ :=
          insertRotate_spec h hx hX hXc hs hsc hu huc
        have hcase : t.insertFixupSide d x p g = some (t₁, x₁) := by
          have hp : Represents t (plug (⟨d, .black, g, u⟩ :: gs) (join fd .red X p s)) := h
          have hblack : t.isBlack u.top = true := hp.at_sib.isBlack_top.2 huc
          rw [insertFixupSide, hp.child_sib]
          cases htop : u.top with
          | none => exact hrotate
          | some y =>
            rw [htop, isBlack, decide_eq_true_iff] at hblack
            simp only [hblack]
            exact hrotate
        have hdone :=
          insertFixupTurn_done (show Represents t₁ (plug (⟨d, .black, m, B⟩ :: gs) A) from h₁)
          hA fun f fs hcons => by cases hcons; rfl
        refine ⟨t₁, _, ?_, h₁, inorder_plug_congr gs horder, ?_⟩
        · exact (run_succ_inl (insertFixupTurn_red h hx hcase) (fuel + 1)).trans
            (run_succ_inr hdone fuel)
        · refine (hgs.plug (hArb.join_black hBrb d m) fun hc => ?_).1
          rw [color_join] at hc
          cases hc

/-! ## 4. `insert` -/

/-- Blackening the root. -/
theorem Represents.blacken_root {T : RBTree ι} (h : Represents t T) {r : ι}
    (hr : t.m_root = some r) :
    Represents (t.setColor r .black) T.blacken := by
  rcases eq_nil_or_join .left T with rfl | ⟨c, a, n, b, rfl⟩
  · rw [h.root] at hr
    cases hr
  · rw [h.root, top_join] at hr
    obtain rfl := some.inj hr
    exact setColor (show Represents t (plug [] (join .left c a n b)) from h) .black

/-- **Insertion keeps a red-black tree** and its order, and adds the node. -/
theorem insert_spec {κ : Type*} [LinearOrder κ] {T : RBTree ι} {key : ι → κ} (h : Represents t T)
    (hrb : Balanced T) (hordered : Ordered key T) (hx : x ∉ T.inorder)
    {fuel : Nat} (hfuel : T.inorder.length + 2 ≤ fuel) :
    ∃ t' T', t.insert fuel key x = some t' ∧ Represents t' T' ∧ Balanced T' ∧ Ordered key T' ∧
      T'.inorder.Perm (x :: T.inorder) := by
  have h₁ : Represents (t.reset x) T := h.modify hx _
  obtain ⟨t₂, htree, h₂⟩ := treeInsert_spec key h₁ hx (modify_node_self ..)
    (show T.inorder.length < fuel by omega)
  have hplug := plug_descend key x [] T
  have hplaces : Places key x (descend key x [] T) :=
    places_descend hordered ⟨forall_mem_nil _, forall_mem_nil _⟩
  generalize descend key x [] T = ctx at h₂ hplug hplaces
  have hT : T = plug ctx .nil := hplug.symm
  subst hT
  -- the new node is a red tree of black height zero, as the free place was
  obtain ⟨k, hfits, hnil, -⟩ := hrb.focus
  cases hnil
  have hleaf : RB (.node .red .nil x .nil) 0 := .red .nil .nil rfl rfl
  have h₃ : Represents (t₂.setColor x .red) (plug ctx (.node .red .nil x .nil)) :=
    Represents.setColor (d := .left) h₂ .red
  have hlength : ctx.length ≤ (plug ctx .nil).inorder.length := by
    rw [(inorder_plug_perm ctx .nil).length_eq, length_append]
    exact Nat.le_trans (length_le_nodes ctx) (Nat.le_add_right _ _)
  obtain ⟨t₃, T₃, hrun, h₄, horder, hrb₃⟩ :=
    run_insertFixup h₃ rfl hleaf rfl hfits (show ctx.length + 2 ≤ fuel by omega)
  obtain ⟨r, hr⟩ : ∃ r, t₃.m_root = some r := by
    rw [h₄.root]
    rcases eq_nil_or_join .left T₃ with rfl | ⟨c, a, n, b, rfl⟩
    · rw [inorder_plug] at horder
      simp [inorder] at horder
    · exact ⟨n, top_join ..⟩
  have hinorder : T₃.blacken.inorder = ctx.before ++ x :: ctx.after := by
    rw [inorder_blacken, horder, inorder_plug]
    rfl
  refine ⟨_, _, ?_, h₄.blacken_root hr, ⟨hrb₃.elim fun _ hj => hj.blacken, color_blacken _⟩,
    hordered.insert hplaces hinorder, ?_⟩
  · rw [insert]
    simp only [htree, Option.bind_eq_bind, Option.bind_some, hrun, Option.join_some, hr,
      Option.pure_def]
  · rw [hinorder, inorder_plug, inorder, nil_append]
    exact perm_middle

end JavaScriptCore.WTF.RedBlackTree
