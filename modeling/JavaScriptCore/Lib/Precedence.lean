/-
# Operator precedence, and the two stacks that parse by it

A `Tree` has operands at its leaves and binary operators at its nodes.  It is `Grouped` by a
precedence if no operator stands below one that binds tighter, and operators of the same precedence
group to the left.  There is at most one such tree for a given sequence of operands and operators
(`Tree.Grouped.unique`).

`reduce` builds the operations on top of a stack of operands, as long as their operators bind at
least as tightly as a given precedence; `shift` reduces, and then puts the next operator and operand
on the stacks.  `reduce_shiftAll` is the result: after all operators and operands the stacks have
built the grouped tree.  The stacks hold the trees, or what is built of the operands from the leaves
up (`Tree.fold`).
-/
import Mathlib.Data.List.Basic

namespace JavaScriptCore.Lib.Precedence

open List

variable {A O : Type}

/-! ## 1. Trees -/

/-- A tree of binary operations. -/
inductive Tree (A O : Type) where
  | leaf (operand : A)
  | node (op : O) (left right : Tree A O)

namespace Tree

/-- The leftmost operand. -/
def first : Tree A O → A
  | leaf a => a
  | node _ left _ => left.first

/-- The operators from left to right, each with the operand after it. -/
def rest : Tree A O → List (O × A)
  | leaf _ => []
  | node op left right => left.rest ++ (op, right.first) :: right.rest

/-- The operators from left to right. -/
def operators (t : Tree A O) : List O := t.rest.map Prod.fst

@[simp] theorem operators_leaf (a : A) : (leaf a : Tree A O).operators = [] := rfl

@[simp] theorem operators_node (op : O) (left right : Tree A O) :
    (node op left right).operators = left.operators ++ op :: right.operators := by
  rw [operators, rest, map_append, map_cons, operators, operators]

/-- What is built of the operands from the leaves up. -/
def fold (build : O → A → A → A) : Tree A O → A
  | leaf a => a
  | node op left right => build op (left.fold build) (right.fold build)

/-- **Every operator binds its operands by precedence**, and to the left within one precedence. -/
def Grouped (precedence : O → Nat) : Tree A O → Prop
  | leaf _ => True
  | node op left right =>
    (∀ o ∈ left.operators, precedence op ≤ precedence o) ∧
      (∀ o ∈ right.operators, precedence op < precedence o) ∧
      left.Grouped precedence ∧ right.Grouped precedence

end Tree

open Tree

section Unique

variable {precedence : O → Nat}

/-- The operator at the root is the last one of those with the lowest precedence, so two grouped
trees of one sequence have it at the same place. -/
theorem root_unique {op op' : O} {left right left' right' : Tree A O}
    (h : (node op left right).Grouped precedence) (h' : (node op' left' right').Grouped precedence)
    (hrest : (node op left right).rest = (node op' left' right').rest) :
    left.rest = left'.rest ∧ op = op' ∧ right.first = right'.first ∧ right.rest = right'.rest := by
  rw [rest, rest] at hrest
  rcases append_eq_append_iff.mp hrest with ⟨between, hleft', hright⟩ | ⟨between, hleft, hright'⟩
  · cases between with
    | nil =>
      rw [append_nil] at hleft'
      rw [nil_append, cons.injEq, Prod.mk.injEq] at hright
      exact ⟨hleft'.symm, hright.1.1, hright.1.2, hright.2⟩
    | cons x between =>
      -- `op` stands on the left of `op'`, and `op'` on the right of `op`
      rw [cons_append, cons.injEq] at hright
      have hop : op ∈ left'.operators := by
        rw [operators, hleft', ← hright.1, map_append, map_cons]
        exact mem_append_right _ mem_cons_self
      have hop' : op' ∈ right.operators := by
        rw [operators, hright.2, map_append, map_cons]
        exact mem_append_right _ mem_cons_self
      exact absurd (h'.1 op hop) (Nat.not_le_of_lt (h.2.1 op' hop'))
  · cases between with
    | nil =>
      rw [append_nil] at hleft
      rw [nil_append, cons.injEq, Prod.mk.injEq] at hright'
      exact ⟨hleft, hright'.1.1.symm, hright'.1.2.symm, hright'.2.symm⟩
    | cons x between =>
      rw [cons_append, cons.injEq] at hright'
      have hop' : op' ∈ left.operators := by
        rw [operators, hleft, ← hright'.1, map_append, map_cons]
        exact mem_append_right _ mem_cons_self
      have hop : op ∈ right'.operators := by
        rw [operators, hright'.2, map_append, map_cons]
        exact mem_append_right _ mem_cons_self
      exact absurd (h.1 op' hop') (Nat.not_le_of_lt (h'.2.1 op hop))

/-- **There is at most one grouped tree** with given operands and operators. -/
theorem Tree.Grouped.unique {t t' : Tree A O} (h : t.Grouped precedence)
    (h' : t'.Grouped precedence) (hfirst : t.first = t'.first) (hrest : t.rest = t'.rest) :
    t = t' := by
  induction t generalizing t' with
  | leaf a =>
    cases t' with
    | leaf b => exact congrArg leaf hfirst
    | node op left right => simp [rest] at hrest
  | node op left right ihleft ihright =>
    cases t' with
    | leaf b => simp [rest] at hrest
    | node op' left' right' =>
      obtain ⟨hleft, rfl, hright, hrest'⟩ := root_unique h h' hrest
      rw [ihleft h.2.2.1 h'.2.2.1 hfirst hleft, ihright h.2.2.2 h'.2.2.2 hright hrest']

end Unique

/-! ## 2. The two stacks -/

section Stacks

variable (precedence : O → Nat)

/-- Builds the operations whose operators have at least the precedence `p`.  The last operator and
the last operand come first. -/
def reduce (build : O → A → A → A) (p : Nat) : List O → List A → List O × List A
  | op :: operators, right :: left :: operands =>
    if p ≤ precedence op then reduce build p operators (build op left right :: operands)
    else (op :: operators, right :: left :: operands)
  | operators, operands => (operators, operands)

/-- The next operator and operand. -/
def shift (build : O → A → A → A) (stack : List O × List A) (next : O × A) : List O × List A :=
  let reduced := reduce precedence build (precedence next.1) stack.1 stack.2
  (next.1 :: reduced.1, next.2 :: reduced.2)

variable (build : O → A → A → A)

/-- What is built of operands is what is built of the trees over them. -/
theorem reduce_fold (p : Nat) (operators : List O) (trees : List (Tree A O)) :
    reduce precedence build p operators (trees.map (Tree.fold build)) =
      ((reduce precedence node p operators trees).1,
        (reduce precedence node p operators trees).2.map (Tree.fold build)) := by
  induction operators generalizing trees with
  | nil => cases trees <;> rfl
  | cons op operators ih =>
    match trees with
    | [] | [_] => rfl
    | right :: left :: trees =>
      simp only [map_cons, reduce]
      split
      · exact ih (node op left right :: trees)
      · rfl

theorem shift_fold (operators : List O) (trees : List (Tree A O)) (op : O) (a : A) :
    shift precedence build (operators, trees.map (Tree.fold build)) (op, a) =
      ((shift precedence node (operators, trees) (op, leaf a)).1,
        (shift precedence node (operators, trees) (op, leaf a)).2.map (Tree.fold build)) := by
  simp only [shift, reduce_fold, map_cons, fold]

/-! ## 3. The stacks hold the parts of a grouped tree -/

/-- **The stacks during the parse**: the operators bind tighter and tighter towards the top, a tree
binds tighter than the operator below it and at least as tightly as the one above it.  `a` and `l`
are the operands and operators of all the trees. -/
inductive Stacked : List O → List (Tree A O) → A → List (O × A) → Prop where
  | bottom {t : Tree A O} (ht : t.Grouped precedence) : Stacked [] [t] t.first t.rest
  | push {operators : List O} {left : Tree A O} {trees : List (Tree A O)} {a : A}
    {l : List (O × A)} {op : O}
      {t : Tree A O} (below : Stacked operators (left :: trees) a l)
      (hleft : ∀ o ∈ left.operators, precedence op ≤ precedence o)
      (hop : ∀ o ∈ operators.head?, precedence o < precedence op)
      (ht : t.Grouped precedence) (htop : ∀ o ∈ t.operators, precedence op < precedence o) :
      Stacked (op :: operators) (t :: left :: trees) a (l ++ (op, t.first) :: t.rest)

variable {precedence}

variable {trees : List (Tree A O)} {a : A} {l : List (O × A)} {operators : List O}

theorem Stacked.top_grouped {t : Tree A O}
    (h : Stacked precedence operators (t :: trees) a l) : t.Grouped precedence := by
  cases h with
  | bottom ht | push _ _ _ ht _ => exact ht

/-- One operation is built. -/
theorem Stacked.build_top {op : O} {right left : Tree A O}
    (h : Stacked precedence (op :: operators) (right :: left :: trees) a l) :
    Stacked precedence operators (node op left right :: trees) a l ∧
      ∀ o ∈ (node op left right).operators, precedence op ≤ precedence o := by
  cases h with
  | @push _ _ _ _ l _ _ below hleft hop ht htop =>
    have hgrouped : (node op left right).Grouped precedence := ⟨hleft, htop, below.top_grouped, ht⟩
    have hle : ∀ o ∈ (node op left right).operators, precedence op ≤ precedence o := by
      intro o ho
      rw [operators_node, mem_append, mem_cons] at ho
      rcases ho with ho | rfl | ho
      · exact hleft o ho
      · exact Nat.le_refl _
      · exact Nat.le_of_lt (htop o ho)
    refine ⟨?_, hle⟩
    cases below with
    | bottom hleft' => exact Stacked.bottom hgrouped
    | @push _ _ _ _ l op' _ below' hleft' hop' ht' htop' =>
      have hlt : ∀ o ∈ (node op left right).operators, precedence op' < precedence o :=
        fun o ho => Nat.lt_of_lt_of_le (hop op' rfl) (hle o ho)
      have hstacked := Stacked.push below' hleft' hop' hgrouped hlt
      rwa [first, rest, ← cons_append, ← append_assoc] at hstacked

/-- **Reducing** leaves operators below the precedence, and a tree on top that binds at least as
tightly. -/
theorem Stacked.reduce {p : Nat} {t : Tree A O}
    (h : Stacked precedence operators (t :: trees) a l) (ht : ∀ o ∈ t.operators, p ≤ precedence o) :
    ∃ operators' t' trees', reduce precedence node p operators (t :: trees) =
      (operators', t' :: trees') ∧
      Stacked precedence operators' (t' :: trees') a l ∧ (∀ o ∈ t'.operators, p ≤ precedence o) ∧
      ∀ o ∈ operators'.head?, precedence o < p := by
  induction operators generalizing t trees with
  | nil => exact ⟨[], t, trees, by cases trees <;> rfl, h, ht, by simp⟩
  | cons op operators ih =>
    cases trees with
    | nil => cases h
    | cons left trees =>
      rw [reduce]
      split
      · next hle =>
        obtain ⟨hstacked, hop⟩ := h.build_top
        exact ih hstacked fun o ho => Nat.le_trans hle (hop o ho)
      · next hlt =>
        refine ⟨op :: operators, t, left :: trees, rfl, h, ht, ?_⟩
        rintro o ⟨⟩
        exact Nat.lt_of_not_le hlt

/-- The next operator and operand come on the stacks. -/
theorem Stacked.shift {b : A} (h : Stacked precedence operators (leaf b :: trees) a l)
    (op : O) (c : A) :
    ∃ trees', (Precedence.shift precedence node (operators, leaf b :: trees) (op, leaf c)).2 =
      leaf c :: trees' ∧
      Stacked precedence (Precedence.shift precedence node (operators,
        leaf b :: trees) (op, leaf c)).1
        (leaf c :: trees') a (l ++ [(op, c)]) := by
  obtain ⟨operators', t, trees', hreduce, hstacked, ht, hop⟩ :=
    h.reduce (p := precedence op) (by simp)
  simp only [Precedence.shift, hreduce]
  exact ⟨t :: trees', rfl, Stacked.push (t := leaf c) hstacked ht hop trivial (by simp)⟩

/-- The stacks after all operators and operands. -/
theorem Stacked.shiftAll {b : A}
    (h : Stacked precedence operators (leaf b :: trees) a l) (rest : List (O × A)) :
    ∃ operators' c trees', rest.foldl (Precedence.shift precedence build)
    (operators, (leaf b :: trees).map (Tree.fold build)) =
        (operators', (leaf c :: trees').map (Tree.fold build)) ∧
      Stacked precedence operators' (leaf c :: trees') a (l ++ rest) := by
  induction rest generalizing operators b trees l with
  | nil => exact ⟨operators, b, trees, rfl, by rwa [append_nil]⟩
  | cons next rest ih =>
    obtain ⟨op, c⟩ := next
    obtain ⟨trees', htrees, hstacked⟩ := h.shift op c
    obtain ⟨operators', d, trees'', hfold, hstacked'⟩ := ih hstacked
    refine ⟨operators', d, trees'', ?_, ?_⟩
    · rw [foldl_cons, shift_fold, htrees, hfold]
    · rwa [append_assoc] at hstacked'

variable (precedence) in
/-- **The stacks build the grouped tree.** -/
theorem reduce_shiftAll (a : A) (l : List (O × A)) :
    ∃ t : Tree A O, t.first = a ∧ t.rest = l ∧ t.Grouped precedence ∧
      reduce precedence build 0 (l.foldl (shift precedence build) ([], [a])).1
        (l.foldl (shift precedence build) ([], [a])).2 = ([], [t.fold build]) := by
  have hbottom : Stacked precedence [] [leaf a] a ([] : List (O × A)) :=
    Stacked.bottom (t := leaf a) trivial
  obtain ⟨operators, c, trees, hfold, hstacked⟩ := hbottom.shiftAll build l
  obtain ⟨operators', t, trees', hreduce, hall, -, hop⟩ := hstacked.reduce (p := 0) (by simp)
  have hresult : reduce precedence build 0 (l.foldl (shift precedence build) ([], [a])).1
      (l.foldl (shift precedence build) ([], [a])).2 =
        (operators', (t :: trees').map (fold build)) := by
    have hfold' : l.foldl (shift precedence build) ([], [a]) = _ := hfold
    rw [hfold', reduce_fold, hreduce]
  rw [nil_append] at hall
  -- no operator is left, since none has a precedence below zero
  cases operators' with
  | cons op operators' => exact absurd (hop op rfl) (Nat.not_lt_zero _)
  | nil =>
    cases hall with
    | bottom ht => exact ⟨t, rfl, rfl, ht, hresult⟩

end Stacks

end JavaScriptCore.Lib.Precedence
