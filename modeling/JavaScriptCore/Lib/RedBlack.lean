/-
# Red-black trees with a focus

A tree of colored nodes, and a context: the path from a focused subtree up to the root, innermost
frame first.  `plug ctx t` is the whole tree.  Left and right are a parameter `d : Dir` throughout;
`join d c a n b` is the node `n` with `a` on the side `d` and `b` on the other one, so that a
rotation and its mirror image are one equation.

**The invariant comes in two halves.**  `RB t k` says that `t` has no red node with a red child and
`k` black nodes on every path down.  `Fits ctx k` says the same of everything around a hole in which
a tree of black height `k` is missing, and that the outermost node is black.  `Fits.plug` puts the
halves together.  The two repairs of a red-black tree are then lemmas about a context: a red node
that hangs below another red one, and a subtree whose black height is one too small.

`rb_iff` gives `RB` in the usual terms: colors of neighbours, and the black nodes on the paths to a
null pointer (`paths`).  The last section is about search in an ordered tree.
-/
import Mathlib.Data.List.Perm.Basic
import Mathlib.Order.Lattice

namespace RedBlack

inductive Color where
  | red
  | black
  deriving DecidableEq, Repr

inductive Dir where
  | left
  | right
  deriving DecidableEq, Repr

def Dir.other : Dir → Dir
  | .left => .right
  | .right => .left

theorem Dir.eq_other_of_ne {d e : Dir} (h : e ≠ d) : e = d.other := by
  cases d <;> cases e <;> first | rfl | exact absurd rfl h

/-- Concatenation from the side `d` on. -/
def Dir.append {α : Type*} (d : Dir) (u v : List α) : List α :=
  match d with
  | .left => u ++ v
  | .right => v ++ u

theorem Dir.append_assoc {α : Type*} (d : Dir) (u v w : List α) :
    d.append (d.append u v) w = d.append u (d.append v w) := by
  cases d <;> simp [append]

theorem Dir.append_perm {α : Type*} (d : Dir) (u v : List α) : (d.append u v).Perm (u ++ v) := by
  cases d with
  | left => exact .refl _
  | right => exact List.perm_append_comm

inductive RBTree (ι : Type*) where
  | nil
  | node (c : Color) (l : RBTree ι) (n : ι) (r : RBTree ι)

variable {ι : Type*}

/-! ## 1. Trees -/

namespace RBTree

def top : RBTree ι → Option ι
  | nil => none
  | node _ _ n _ => some n

/-- The color of the topmost node; a null pointer counts as black. -/
def color : RBTree ι → Color
  | nil => .black
  | node c _ _ _ => c

def inorder : RBTree ι → List ι
  | nil => []
  | node _ l n r => l.inorder ++ n :: r.inorder

section

variable (d : Dir)

/-- The node `n` with `a` on the side `d`. -/
def join (c : Color) (a : RBTree ι) (n : ι) (b : RBTree ι) : RBTree ι :=
  match d with
  | .left => node c a n b
  | .right => node c b n a

variable (c : Color) (a b : RBTree ι) (n : ι)

include c a b n

@[simp] theorem top_join : (join d c a n b).top = some n := by cases d <;> rfl

@[simp] theorem color_join : (join d c a n b).color = c := by cases d <;> rfl

theorem join_other : join d.other c a n b = join d c b n a := by cases d <;> rfl

theorem inorder_join : (join d c a n b).inorder = d.append a.inorder (d.append [n] b.inorder) := by
  cases d <;> simp [join, inorder, Dir.append]

omit c a b n

/-- **A rotation keeps the order.** -/
theorem inorder_rotate (cx cy cx' cy' : Color) (a b e : RBTree ι) (x y : ι) :
    (join d cy' (join d cx' a x b) y e).inorder = (join d cx a x (join d cy b y e)).inorder := by
  simp only [inorder_join, Dir.append_assoc]

include c a b n in
theorem inorder_join_perm : (join d c a n b).inorder.Perm (n :: (a.inorder ++ b.inorder)) := by
  rw [inorder_join]
  refine (Dir.append_perm _ _ _).trans ?_
  refine ((Dir.append_perm d [n] b.inorder).append_left _).trans ?_
  exact List.perm_middle

/-- The tree with its topmost node black. -/
def blacken : RBTree ι → RBTree ι
  | nil => nil
  | node _ l n r => node .black l n r

include c a b n in
@[simp] theorem blacken_join : (join d c a n b).blacken = join d .black a n b := by cases d <;> rfl

end

theorem inorder_blacken (t : RBTree ι) : t.blacken.inorder = t.inorder := by cases t <;> rfl

theorem color_blacken (t : RBTree ι) : t.blacken.color = .black := by cases t <;> rfl

variable {t : RBTree ι}

theorem blacken_of_black (h : t.color = .black) : t.blacken = t := by
  cases t with
  | nil => rfl
  | node c l n r => rw [blacken, ← show c = .black from h]

/-- Every tree with a node can be seen from either side. -/
theorem eq_nil_or_join (d : Dir) (t : RBTree ι) : t = nil ∨ ∃ c a n b, t = join d c a n b := by
  cases t with
  | nil => exact .inl rfl
  | node c l n r =>
    cases d with
    | left => exact .inr ⟨c, l, n, r, rfl⟩
    | right => exact .inr ⟨c, r, n, l, rfl⟩

theorem exists_join_of_red (d : Dir) (h : t.color = .red) : ∃ a n b, t = join d .red a n b := by
  rcases eq_nil_or_join d t with rfl | ⟨c, a, n, b, rfl⟩
  · cases h
  · rw [color_join] at h
    exact ⟨a, n, b, by rw [h]⟩

theorem top_eq_none : t.top = none ↔ t = nil := by cases t <;> simp [top]

theorem mem_of_top {n : ι} (h : t.top = some n) : n ∈ t.inorder := by
  cases t with
  | nil => cases h
  | node c l m r =>
    obtain rfl : m = n := Option.some.inj h
    simp [inorder]

end RBTree

open RBTree

/-! ## 2. Contexts -/

/-- A node above the focus: the focus is its child on the side `d`. -/
structure Frame (ι : Type*) where
  d : Dir
  c : Color
  n : ι
  sib : RBTree ι

/-- The path to the root, innermost frame first. -/
abbrev Context (ι : Type*) := List (Frame ι)

namespace Context

def plug : Context ι → RBTree ι → RBTree ι
  | [], t => t
  | f :: fs, t => plug fs (join f.d f.c t f.n f.sib)

/-- The node right above the focus. -/
def parent : Context ι → Option ι
  | [] => none
  | f :: _ => some f.n

/-- The nodes of the context. -/
def nodes : Context ι → List ι
  | [] => []
  | f :: fs => f.n :: (f.sib.inorder ++ nodes fs)

/-- What comes before the focus in order. -/
def before : Context ι → List ι
  | [] => []
  | ⟨.left, _, _, _⟩ :: fs => before fs
  | ⟨.right, _, n, sib⟩ :: fs => before fs ++ (sib.inorder ++ [n])

/-- What comes after the focus in order. -/
def after : Context ι → List ι
  | [] => []
  | ⟨.left, _, n, sib⟩ :: fs => (n :: sib.inorder) ++ after fs
  | ⟨.right, _, _, _⟩ :: fs => after fs

theorem inorder_plug (ctx : Context ι) (t : RBTree ι) :
    (plug ctx t).inorder = ctx.before ++ (t.inorder ++ ctx.after) := by
  induction ctx generalizing t with
  | nil => simp [plug, before, after]
  | cons f fs ih =>
    obtain ⟨d, c, n, sib⟩ := f
    rw [plug, ih]
    cases d <;> simp [join, inorder, before, after]

theorem inorder_plug_congr (ctx : Context ι) {s t : RBTree ι} (h : s.inorder = t.inorder) :
    (plug ctx s).inorder = (plug ctx t).inorder := by
  rw [inorder_plug, inorder_plug, h]

/-- The sibling of the focus as the focus. -/
theorem plug_other (d : Dir) (c : Color) (n : ι) (s t : RBTree ι) (fs : Context ι) :
    plug (⟨d.other, c, n, s⟩ :: fs) t = plug (⟨d, c, n, t⟩ :: fs) s := by
  rw [plug, plug, join_other]

theorem inorder_plug_perm (ctx : Context ι) (t : RBTree ι) :
    (plug ctx t).inorder.Perm (ctx.nodes ++ t.inorder) := by
  induction ctx generalizing t with
  | nil => exact .refl _
  | cons f fs ih =>
    refine (ih _).trans ?_
    refine ((inorder_join_perm f.d f.c t f.sib f.n).append_left _).trans ?_
    rw [nodes]
    refine List.perm_middle.trans (List.Perm.cons _ ?_)
    refine (List.Perm.append_left _ List.perm_append_comm).trans ?_
    rw [← List.append_assoc]
    exact List.Perm.append_right _ List.perm_append_comm

theorem plug_append (ctx ctx' : Context ι) (t : RBTree ι) :
    plug (ctx ++ ctx') t = plug ctx' (plug ctx t) := by
  induction ctx generalizing t with
  | nil => rfl
  | cons f fs ih => exact ih _

theorem before_append (ctx ctx' : Context ι) :
    Context.before (ctx ++ ctx') = ctx'.before ++ Context.before ctx := by
  induction ctx with
  | nil => rw [List.nil_append, before, List.append_nil]
  | cons f fs ih =>
    obtain ⟨d, c, n, sib⟩ := f
    cases d with
    | left => exact ih
    | right => rw [List.cons_append, before, before, ih, List.append_assoc]

theorem length_le_nodes (ctx : Context ι) : ctx.length ≤ ctx.nodes.length := by
  induction ctx with
  | nil => exact Nat.le_refl _
  | cons f fs ih =>
    rw [nodes, List.length_cons, List.length_cons, List.length_append]
    omega

/-- Below a node the focus is not the root. -/
theorem top_plug_mem (f : Frame ι) (fs : Context ι) (t : RBTree ι) :
    ∃ r ∈ nodes (f :: fs), (plug (f :: fs) t).top = some r := by
  induction fs generalizing f t with
  | nil => exact ⟨f.n, List.mem_cons_self, top_join ..⟩
  | cons g gs ih =>
    obtain ⟨r, hr, htop⟩ := ih g (join f.d f.c t f.n f.sib)
    exact ⟨r, List.mem_cons_of_mem _ (List.mem_append_right _ hr), htop⟩

/-- A node of a tree is at the focus of some context. -/
theorem exists_plug {t : RBTree ι} {n : ι} (h : n ∈ t.inorder) :
    ∃ ctx c l r, t = plug ctx (.node c l n r) := by
  induction t with
  | nil => cases h
  | node c l m r ihl ihr =>
    simp only [inorder, List.mem_append, List.mem_cons] at h
    rcases h with h | rfl | h
    · obtain ⟨ctx, c', l', r', rfl⟩ := ihl h
      exact ⟨ctx ++ [⟨.left, c, m, r⟩], c', l', r', by rw [plug_append]; rfl⟩
    · exact ⟨[], c, l, r, rfl⟩
    · obtain ⟨ctx, c', l', r', rfl⟩ := ihr h
      exact ⟨ctx ++ [⟨.right, c, m, l⟩], c', l', r', by rw [plug_append]; rfl⟩

end Context

open Context

/-! ## 3. The invariant -/

/-- No red node has a red child, and every path down has `k` black nodes. -/
inductive RB : RBTree ι → Nat → Prop where
  | nil : RB nil 0
  | red {l n r k} : RB l k → RB r k → l.color = .black → r.color = .black → RB (node .red l n r) k
  | black {l n r k} : RB l k → RB r k → RB (node .black l n r) (k + 1)

section

variable {a b : RBTree ι} {k : Nat} {d : Dir} {n : ι}

theorem RB.join_red (ha : RB a k) (hb : RB b k) (hca : a.color = .black) (hcb : b.color = .black)
    (d : Dir) (n : ι) : RB (join d .red a n b) k := by
  cases d with
  | left => exact .red ha hb hca hcb
  | right => exact .red hb ha hcb hca

theorem RB.join_black (ha : RB a k) (hb : RB b k) (d : Dir) (n : ι) :
    RB (join d .black a n b) (k + 1) := by
  cases d with
  | left => exact .black ha hb
  | right => exact .black hb ha

theorem RB.of_join_red (h : RB (join d .red a n b) k) :
    RB a k ∧ RB b k ∧ a.color = .black ∧ b.color = .black := by
  cases d with
  | left =>
    cases h with
    | red ha hb hca hcb => exact ⟨ha, hb, hca, hcb⟩
  | right =>
    cases h with
    | red hb ha hcb hca => exact ⟨ha, hb, hca, hcb⟩

theorem RB.of_join_black (h : RB (join d .black a n b) k) : ∃ j, k = j + 1 ∧
    RB a j ∧ RB b j := by
  cases d with
  | left =>
    cases h with
    | black ha hb => exact ⟨_, rfl, ha, hb⟩
  | right =>
    cases h with
    | black hb ha => exact ⟨_, rfl, ha, hb⟩

variable {t : RBTree ι}

/-- A tree of positive black height has a node. -/
theorem RB.exists_join (h : RB t (k + 1)) (d : Dir) : ∃ c a n b, t = join d c a n b := by
  rcases eq_nil_or_join d t with rfl | h'
  · cases h
  · exact h'

theorem RB.blacken (h : RB t k) : ∃ j, RB t.blacken j := by
  cases h with
  | nil => exact ⟨0, .nil⟩
  | red hl hr | black hl hr => exact ⟨_, .black hl hr⟩

/-- A red tree gains a black node. -/
theorem RB.blacken_red (h : RB t k) (hc : t.color = .red) : RB t.blacken (k + 1) := by
  cases h with
  | nil | black => cases hc
  | red hl hr => exact .black hl hr

/-- The names of the nodes do not matter. -/
theorem RB.rename {c : Color} {l r : RBTree ι} (h : RB (node c l n r) k) (m : ι) :
    RB (node c l m r) k := by
  cases h with
  | red hl hr hlc hrc => exact .red hl hr hlc hrc
  | black hl hr => exact .black hl hr

end

variable {t : RBTree ι}

/-- Everything around a hole is as it should be, a tree of black height `k` is missing, and the
outermost node is black. -/
inductive Fits : Context ι → Nat → Prop where
  | nil {k} : Fits [] k
  | red {d n sib g fs k} : RB sib k → sib.color = .black → g.c = .black → Fits (g :: fs) k →
      Fits (⟨d, .red, n, sib⟩ :: g :: fs) k
  | black {d n sib fs k} : RB sib k → Fits fs (k + 1) → Fits (⟨d, .black, n, sib⟩ :: fs) k

theorem Fits.sib {f : Frame ι} {fs : Context ι} {k : Nat} (h : Fits (f :: fs) k) : RB f.sib k := by
  cases h with
  | red hsib | black hsib => exact hsib

variable {d : Dir} {c : Color} {n : ι} {sib : RBTree ι} {fs : Context ι} {k : Nat}

/-- Another black subtree beside the hole, and another node above it. -/
theorem Fits.replace (h : Fits (⟨d, c, n, sib⟩ :: fs) k) {sib' : RBTree ι} (hsib : RB sib' k)
    (hcolor : sib'.color = .black) (n' : ι) : Fits (⟨d, c, n', sib'⟩ :: fs) k := by
  cases h with
  | red _ _ hg hfs => exact .red hsib hcolor hg hfs
  | black _ hfs => exact .black hsib hfs

/-- Above a black node one black node more is expected. -/
theorem Fits.of_black (h : Fits (⟨d, .black, n, sib⟩ :: fs) k) : Fits fs (k + 1) := by
  cases h with
  | black _ h => exact h

/-- A red node has a black sibling of the hole below it, and a black node above it. -/
theorem Fits.of_red (h : Fits (⟨d, .red, n, sib⟩ :: fs) k) : sib.color = .black ∧ Fits fs k ∧
      ∃ gd gn gsib gs, fs = ⟨gd, .black, gn, gsib⟩ :: gs := by
  cases h with
  | @red _ _ _ g gs _ _ hsibc hg h =>
    obtain ⟨gd, gc, gn, gsib⟩ := g
    obtain rfl : gc = .black := hg
    exact ⟨hsibc, h, gd, gn, gsib, gs, rfl⟩

/-- A red-black tree with a black root. -/
def Balanced (t : RBTree ι) : Prop := (∃ k, RB t k) ∧ t.color = .black

/-- **The two halves make a red-black tree with a black root.** -/
theorem Fits.plug {ctx : Context ι} (h : Fits ctx k) (ht : RB t k)
    (hcolor : t.color = .red → ∃ f fs, ctx = f :: fs ∧ f.c = .black) : Balanced (plug ctx t) := by
  induction h generalizing t with
  | nil =>
    refine ⟨⟨_, ht⟩, ?_⟩
    cases hc : t.color with
    | black => exact hc
    | red =>
      obtain ⟨f, fs, hnil, -⟩ := hcolor hc
      cases hnil
  | @red d n sib g fs k hsib hsibc hg _ ih =>
    have htc : t.color = .black := by
      cases hc : t.color with
      | black => rfl
      | red =>
        obtain ⟨f, fs, hcons, hf⟩ := hcolor hc
        cases hcons
        cases hf
    exact ih (ht.join_red hsib htc hsibc d n) fun _ => ⟨g, fs, rfl, hg⟩
  | @black d n sib fs k hsib _ ih =>
    refine ih (ht.join_black hsib d n) fun hc => ?_
    rw [color_join] at hc
    cases hc

/-- What lies at the focus of a red-black tree, and around it. -/
theorem Balanced.focus {ctx : Context ι} (h : Balanced (plug ctx t)) :
    ∃ k, Fits ctx k ∧ RB t k ∧ (t.color = .red → ∃ f fs, ctx = f :: fs ∧ f.c = .black) := by
  induction ctx generalizing t with
  | nil =>
    obtain ⟨⟨k, hk⟩, hroot⟩ := h
    refine ⟨k, .nil, hk, fun hc => ?_⟩
    rw [plug, hc] at hroot
    cases hroot
  | cons f fs ih =>
    obtain ⟨d, c, n, sib⟩ := f
    obtain ⟨k, hfits, hrb, hcolor⟩ := ih h
    cases c with
    | red =>
      obtain ⟨ht, hsib, htc, hsibc⟩ := hrb.of_join_red
      obtain ⟨g, gs, rfl, hg⟩ := hcolor (color_join _ _ _ _ _)
      refine ⟨k, .red hsib hsibc hg hfits, ht, fun hc => ?_⟩
      rw [htc] at hc
      cases hc
    | black =>
      obtain ⟨j, rfl, ht, hsib⟩ := hrb.of_join_black
      exact ⟨j, .black hsib hfits, ht, fun _ => ⟨_, fs, rfl, rfl⟩⟩

/-! ### In the usual terms -/

/-- No red node has a red child. -/
def NoRedRed : RBTree ι → Prop
  | nil => True
  | node c l _ r => (c = .red → l.color = .black ∧ r.color = .black) ∧ NoRedRed l ∧ NoRedRed r

def Color.weight : Color → Nat
  | .red => 0
  | .black => 1

/-- The number of black nodes on each path to a null pointer. -/
def paths : RBTree ι → List Nat
  | nil => [0]
  | node c l _ r => (paths l ++ paths r).map (· + c.weight)

theorem exists_mem_paths (t : RBTree ι) : ∃ i, i ∈ paths t := by
  induction t with
  | nil => exact ⟨0, List.mem_singleton.2 rfl⟩
  | node c l n r ihl _ =>
    obtain ⟨i, hi⟩ := ihl
    exact ⟨_, List.mem_map_of_mem (List.mem_append_left _ hi)⟩

theorem rb_iff {k : Nat} : RB t k ↔ NoRedRed t ∧ ∀ i ∈ paths t, i = k := by
  constructor
  · intro h
    induction h with
    | nil => simp [NoRedRed, paths]
    | red _ _ hl hr ihl ihr =>
      refine ⟨⟨fun _ => ⟨hl, hr⟩, ihl.1, ihr.1⟩, ?_⟩
      simp only [paths, Color.weight, List.mem_map, List.mem_append]
      rintro i ⟨j, hj | hj, rfl⟩
      · exact ihl.2 j hj
      · exact ihr.2 j hj
    | black _ _ ihl ihr =>
      refine ⟨⟨nofun, ihl.1, ihr.1⟩, ?_⟩
      simp only [paths, Color.weight, List.mem_map, List.mem_append]
      rintro i ⟨j, hj | hj, rfl⟩
      · rw [ihl.2 j hj]
      · rw [ihr.2 j hj]
  · rintro ⟨hcolors, hpaths⟩
    induction t generalizing k with
    | nil =>
      obtain rfl : 0 = k := hpaths 0 (by simp [paths])
      exact .nil
    | node c l n r ihl ihr =>
      obtain ⟨hc, hl, hr⟩ := hcolors
      simp only [paths, List.mem_map, List.mem_append] at hpaths
      cases c with
      | red =>
        refine .red (ihl hl fun i hi => ?_) (ihr hr fun i hi => ?_) (hc rfl).1 (hc rfl).2
        · exact hpaths i ⟨i, .inl hi, rfl⟩
        · exact hpaths i ⟨i, .inr hi, rfl⟩
      | black =>
        obtain ⟨i, hi⟩ := exists_mem_paths l
        obtain rfl : i + 1 = k := hpaths _ ⟨i, .inl hi, rfl⟩
        refine .black (ihl hl fun j hj => ?_) (ihr hr fun j hj => ?_)
        · exact Nat.succ.inj (hpaths _ ⟨j, .inl hj, rfl⟩)
        · exact Nat.succ.inj (hpaths _ ⟨j, .inr hj, rfl⟩)

/-! ## 4. Search -/

section

variable {κ : Type*} [LinearOrder κ]

/-- The keys do not decrease from left to right; equal keys may stand on either side. -/
def Ordered (key : ι → κ) (t : RBTree ι) : Prop := t.inorder.Pairwise fun a b => key a ≤ key b

variable {key : ι → κ}

theorem ordered_node {c : Color} {l r : RBTree ι} {n : ι} :
    Ordered key (node c l n r) ↔ Ordered key l ∧ Ordered key r ∧ (∀ m ∈ l.inorder, key m ≤ key n) ∧
      (∀ m ∈ r.inorder, key n ≤ key m) ∧ ∀ a ∈ l.inorder, ∀ b ∈ r.inorder, key a ≤ key b := by
  simp only [Ordered, inorder, List.pairwise_append, List.pairwise_cons, List.mem_cons,
    forall_eq_or_imp]
  constructor
  · rintro ⟨hl, ⟨hn, hr⟩, hlr⟩
    exact ⟨hl, hr, fun m hm => (hlr m hm).1, hn, fun a ha => (hlr a ha).2⟩
  · rintro ⟨hl, hr, hln, hn, hlr⟩
    exact ⟨hl, ⟨hn, hr⟩, fun a ha => ⟨hln a ha, hlr a ha⟩⟩

/-- Search for a node with a given key. -/
def find (key : ι → κ) (k : κ) : RBTree ι → Option ι
  | nil => none
  | node _ l n r => if key n = k then some n else if k < key n then find key k l else find key k r

variable {t : RBTree ι}

theorem find_some {k : κ} {n : ι} (h : find key k t = some n) : n ∈ t.inorder ∧ key n = k := by
  induction t with
  | nil => cases h
  | node c l m r ihl ihr =>
    simp only [find] at h
    simp only [inorder, List.mem_append, List.mem_cons]
    split_ifs at h with hk hlt
    · cases h
      exact ⟨.inr (.inl rfl), hk⟩
    · exact ⟨.inl (ihl h).1, (ihl h).2⟩
    · exact ⟨.inr (.inr (ihr h).1), (ihr h).2⟩

/-- **The search misses no key.** -/
theorem find_none {k : κ} (ht : Ordered key t) (h : find key k t = none) :
    ∀ m ∈ t.inorder, key m ≠ k := by
  induction t with
  | nil => exact fun m hm => nomatch hm
  | node c l n r ihl ihr =>
    obtain ⟨hl, hr, hln, hnr, -⟩ := ordered_node.1 ht
    simp only [find] at h
    simp only [inorder, List.mem_append, List.mem_cons]
    split_ifs at h with hk hlt
    · rintro m (hm | rfl | hm)
      · exact ihl hl h m hm
      · exact hk
      · exact ((hlt.trans_le (hnr m hm)).ne')
    · rintro m (hm | rfl | hm)
      · have hgt : key n < k := lt_of_le_of_ne (not_lt.1 hlt) hk
        exact ((hln m hm).trans_lt hgt).ne
      · exact hk
      · exact ihr hr h m hm

/-- Search for the least key that is not below a given one; `best` is the candidate so far. -/
def leastGE (key : ι → κ) (k : κ) : Option ι → RBTree ι → Option ι
  | best, nil => best
  | best, node _ l n r =>
    if key n = k then some n
    else if key n < k then leastGE key k best r
    else leastGE key k (some n) l

/-- **The search ends at the least such key**, or with the candidate if the tree has none. -/
theorem leastGE_spec {k : κ} (ht : Ordered key t) (best : Option ι) :
    (∃ n, leastGE key k best t = some n ∧ n ∈ t.inorder ∧ k ≤ key n ∧
      ∀ m ∈ t.inorder, k ≤ key m → key n ≤ key m) ∨
    (leastGE key k best t = best ∧ ∀ m ∈ t.inorder, key m < k) := by
  induction t generalizing best with
  | nil => exact .inr ⟨rfl, fun m hm => nomatch hm⟩
  | node c l n r ihl ihr =>
    obtain ⟨hl, hr, hln, hnr, hlr⟩ := ordered_node.1 ht
    simp only [leastGE, inorder, List.mem_append, List.mem_cons]
    split_ifs with hk hlt
    · exact .inl ⟨n, rfl, .inr (.inl rfl), hk.ge, fun m _ hm => hk.le.trans hm⟩
    · -- the node and everything on its left are too small
      rcases ihr hr best with ⟨n', heq, hmem, hge, hleast⟩ | ⟨heq, hall⟩
      · refine .inl ⟨n', heq, .inr (.inr hmem), hge, ?_⟩
        rintro m (hm | rfl | hm) hkm
        · exact absurd ((hkm.trans (hln m hm)).trans_lt hlt) (lt_irrefl k)
        · exact absurd (hkm.trans_lt hlt) (lt_irrefl k)
        · exact hleast m hm hkm
      · refine .inr ⟨heq, ?_⟩
        rintro m (hm | rfl | hm)
        · exact (hln m hm).trans_lt hlt
        · exact hlt
        · exact hall m hm
    · -- the node is a candidate, and only smaller ones can replace it
      have hnk : k ≤ key n := not_lt.1 hlt
      rcases ihl hl (some n) with ⟨n', heq, hmem, hge, hleast⟩ | ⟨heq, hall⟩
      · refine .inl ⟨n', heq, .inl hmem, hge, ?_⟩
        rintro m (hm | rfl | hm) hkm
        · exact hleast m hm hkm
        · exact hln n' hmem
        · exact hlr n' hmem m hm
      · refine .inl ⟨n, heq, .inr (.inl rfl), hnk, ?_⟩
        rintro m (hm | rfl | hm) hkm
        · exact absurd (hkm.trans_lt (hall m hm)) (lt_irrefl k)
        · exact le_rfl
        · exact hnr m hm

/-- A place for `z` in the order: at the focus of the context, which is empty. -/
def Places (key : ι → κ) (z : ι) (ctx : Context ι) : Prop :=
  (∀ m ∈ ctx.before, key m ≤ key z) ∧ ∀ m ∈ ctx.after, key z ≤ key m

/-- Where an insertion ends up: equal keys go to the right. -/
def descend (key : ι → κ) (z : ι) : Context ι → RBTree ι → Context ι
  | ctx, nil => ctx
  | ctx, node c l n r =>
    if key z < key n then descend key z (⟨.left, c, n, r⟩ :: ctx) l
    else descend key z (⟨.right, c, n, l⟩ :: ctx) r

theorem plug_descend (key : ι → κ) (z : ι) (ctx : Context ι) (t : RBTree ι) :
    plug (descend key z ctx t) nil = plug ctx t := by
  induction t generalizing ctx with
  | nil => rfl
  | node c l n r ihl ihr =>
    rw [descend]
    split_ifs
    · exact ihl _
    · exact ihr _

variable {z : ι} {ctx : Context ι}

/-- The way down turns left exactly at the larger keys. -/
theorem side_of_mem_descend (hctx : ∀ f ∈ ctx, f.d = if key z < key f.n then .left else .right) :
    ∀ f ∈ descend key z ctx t, f.d = if key z < key f.n then .left else .right := by
  induction t generalizing ctx with
  | nil => exact hctx
  | node c l n r ihl ihr =>
    rw [descend]
    split_ifs with hlt
    · exact ihl (List.forall_mem_cons.2 ⟨(if_pos hlt).symm, hctx⟩)
    · exact ihr (List.forall_mem_cons.2 ⟨(if_neg hlt).symm, hctx⟩)

/-- **The place found is one that keeps the order.** -/
theorem places_descend (ht : Ordered key t) (hctx : Places key z ctx) :
    Places key z (descend key z ctx t) := by
  induction t generalizing ctx with
  | nil => exact hctx
  | node c l n r ihl ihr =>
    obtain ⟨hl, hr, hln, hnr, -⟩ := ordered_node.1 ht
    rw [descend]
    split_ifs with hlt
    · refine ihl hl ⟨hctx.1, ?_⟩
      simp only [after, List.mem_append, List.mem_cons]
      rintro m ((rfl | hm) | hm)
      · exact hlt.le
      · exact hlt.le.trans (hnr m hm)
      · exact hctx.2 m hm
    · refine ihr hr ⟨?_, hctx.2⟩
      simp only [before, List.mem_append, List.mem_singleton]
      rintro m (hm | hm | rfl)
      · exact hctx.1 m hm
      · exact (hln m hm).trans (not_lt.1 hlt)
      · exact not_lt.1 hlt

/-- A node at such a place. -/
theorem Ordered.insert {T : RBTree ι} (hT : Ordered key (plug ctx nil))
    (hctx : Places key z ctx) (horder : T.inorder = ctx.before ++ z :: ctx.after) :
    Ordered key T := by
  rw [Ordered, inorder_plug, inorder, List.nil_append, List.pairwise_append] at hT
  rw [Ordered, horder, List.pairwise_append, List.pairwise_cons]
  obtain ⟨hbefore, hafter, hba⟩ := hT
  refine ⟨hbefore, ⟨hctx.2, hafter⟩, fun a ha b hb => ?_⟩
  rcases List.mem_cons.1 hb with rfl | hb
  · exact hctx.1 a ha
  · exact hba a ha b hb

end

end RedBlack
