/-
# What `stringify` writes

`valueText` is the serialisation of a tree by plain recursion, with no stack, no builder to look
at and nothing to roll back.  This module shows that the holder-stack machine writes exactly that
text for every heap value that represents a tree (`stringify_text`).

`Represents heap v t` relates a heap value to a finite tree.  Since the tree is finite and the value
determines it (`Represents.unique`), an object cannot occur inside itself, and the cycle check
never fires: every holder below the current value represents a larger tree.

The machine's three looks at the builder are discharged by one fact: the text of a value is not
empty and does not end in `{` (`valueText_ends`).
-/
import JavaScriptCore.Json.Numerals

namespace JavaScriptCore.Json

open List Stringifier

open Iteration (Steps)

variable {ν : Type}

/-! ## 1. The text of a tree -/

section Text

variable (num : NumberText ν) (gap : List Nat)

/-- A string literal, with as many characters as the `int` length says. -/
def quotedText (s : List Nat) : List Nat :=
  0x22 :: ((s.take (intLength s).toNat).flatMap escapeCharacter ++ [0x22])

/-- A line break and `n` gaps, if there is a gap. -/
def newLine (n : Nat) : List Nat :=
  if gap = [] then [] else 0xA :: (replicate n gap).flatten

/-- What stands between a property name and its value. -/
def colonText : List Nat := if gap = [] then [0x3A] else [0x3A, 0x20]

mutual

/-- The text of a tree at nesting depth `n`. -/
def valueText (n : Nat) : JSValue ν → List Nat
  | .null => [0x6E, 0x75, 0x6C, 0x6C]
  | .boolean true => [0x74, 0x72, 0x75, 0x65]
  | .boolean false => [0x66, 0x61, 0x6C, 0x73, 0x65]
  | .string s => quotedText s
  | .number x => num.numberToString x
  | .array vs => 0x5B :: elementsText n true vs
  | .object ps => 0x7B :: membersText n true ps

/-- The elements of an array that are still to come, and the closing bracket. -/
def elementsText (n : Nat) : Bool → List (JSValue ν) → List Nat
  | first, [] => (if first then [] else newLine gap n) ++ [0x5D]
  | first, v :: vs =>
    (if first then [] else [0x2C]) ++ newLine gap (n + 1) ++ valueText (n + 1) v
      ++ elementsText n false vs

/-- The properties of an object that are still to come, and the closing brace. -/
def membersText (n : Nat) : Bool → List (PropertyKey × JSValue ν) → List Nat
  | first, [] => (if first then [] else newLine gap n) ++ [0x7D]
  | first, (k, v) :: ps =>
    (if first then [] else [0x2C]) ++ newLine gap (n + 1) ++ quotedText k.toIdentifier
      ++ colonText gap ++ valueText (n + 1) v ++ membersText n false ps

end

end Text

/-! ## 2. Trees in the heap -/

def Int32 (n : Int) : Prop := -2 ^ 31 ≤ n ∧ n < 2 ^ 31

/-- The keys of a plain object in the order `getOwnPropertyNames` reports them: indices ascending,
then distinct names that are no indices. -/
structure PlainKeys (keys : List PropertyKey) : Prop where
  sorted : keys.Pairwise fun
    | .index i, .index j => i < j
    | .index _, .name _ => True
    | .name _, .index _ => False
    | .name s, .name t => s ≠ t
  index : ∀ i, .index i ∈ keys → i < NotAnIndex
  name : ∀ s, .name s ∈ keys → asIndex s = NotAnIndex ∧ ∀ c ∈ s, c < 0x10000

mutual

/-- The heap value `v` is a finite tree of null, booleans, strings of code units, `int32` numbers,
dense arrays and plain objects. -/
inductive Represents (ops : NumberOps ν) (heap : List (Cell ν)) : Val ν → JSValue ν → Prop where
  | null : Represents ops heap .null .null
  | boolean {b} : Represents ops heap (.boolean b) (.boolean b)
  | string {s} : (∀ c ∈ s, c < 0x10000) → Represents ops heap (.string s) (.string s)
  | number {x n} : Int32 n → x = ops.ofInt n → Represents ops heap (.number x) (.number x)
  | array {id es vs} : heap[id]? = some (.array (es.map some)) → RepresentsAll ops heap es vs →
      Represents ops heap (.cell id) (.array vs)
  | object {id props ps} : heap[id]? = some (.object props) → PlainKeys (props.map Prod.fst) →
      RepresentsProps ops heap props ps → Represents ops heap (.cell id) (.object ps)

inductive RepresentsAll (ops : NumberOps ν) (heap : List (Cell ν)) :
    List (Val ν) → List (JSValue ν) → Prop where
  | nil : RepresentsAll ops heap [] []
  | cons {v t es vs} : Represents ops heap v t → RepresentsAll ops heap es vs →
      RepresentsAll ops heap (v :: es) (t :: vs)

inductive RepresentsProps (ops : NumberOps ν) (heap : List (Cell ν)) :
    List (PropertyKey × Val ν) → List (PropertyKey × JSValue ν) → Prop where
  | nil : RepresentsProps ops heap [] []
  | cons {k v t props ps} : Represents ops heap v t → RepresentsProps ops heap props ps →
      RepresentsProps ops heap ((k, v) :: props) ((k, t) :: ps)

end

variable {ops : NumberOps ν} {heap : List (Cell ν)}

mutual

/-- A heap value represents at most one tree. -/
theorem Represents.unique {v : Val ν} {t t' : JSValue ν} (h : Represents ops heap v t)
    (h' : Represents ops heap v t') : t = t' := by
  match h with
  | .null | .boolean | .string _ | .number _ _ => cases h'; rfl
  | .array hcell hall =>
    cases h' with
    | array hcell' hall' =>
      rw [hcell] at hcell'
      have hes := Cell.array.inj (Option.some.inj hcell')
      rw [← map_injective_iff.mpr (Option.some_injective _) hes] at hall'
      rw [hall.unique hall']
    | object hcell' _ _ =>
      rw [hcell] at hcell'
      cases hcell'
  | .object hcell hkeys hprops =>
    cases h' with
    | array hcell' _ =>
      rw [hcell] at hcell'
      cases hcell'
    | object hcell' _ hprops' =>
      rw [hcell] at hcell'
      cases hcell'
      rw [hprops.unique hprops']

theorem RepresentsAll.unique {es : List (Val ν)} {vs vs' : List (JSValue ν)}
    (h : RepresentsAll ops heap es vs) (h' : RepresentsAll ops heap es vs') : vs = vs' := by
  match h with
  | .nil => cases h'; rfl
  | .cons hv hall =>
    cases h' with
    | cons hv' hall' => rw [hv.unique hv', hall.unique hall']

theorem RepresentsProps.unique {props : List (PropertyKey × Val ν)}
    {ps ps' : List (PropertyKey × JSValue ν)} (h : RepresentsProps ops heap props ps)
    (h' : RepresentsProps ops heap props ps') : ps = ps' := by
  match h with
  | .nil => cases h'; rfl
  | .cons hv hall =>
    cases h' with
    | cons hv' hall' => rw [hv.unique hv', hall.unique hall']

end

/-! ## 3. The ends of texts -/

/-- Not empty, and not ending in an opening brace. -/
def EndsValue (text : List Nat) : Prop := ∃ init c, text = init ++ [c] ∧ c ≠ 0x7B

theorem EndsValue.append {text : List Nat} (h : EndsValue text) (pre : List Nat) :
    EndsValue (pre ++ text) := by
  obtain ⟨init, c, rfl, hc⟩ := h
  exact ⟨pre ++ init, c, by rw [append_assoc], hc⟩

theorem EndsValue.cons {text : List Nat} (h : EndsValue text) (c : Nat) :
    EndsValue (c :: text) := h.append [c]

theorem EndsValue.getLast_ne {text : List Nat} (h : EndsValue text) (builder : List Nat) :
    (builder ++ text).getLast? ≠ some 0x7B := by
  obtain ⟨init, c, rfl, hc⟩ := h
  rw [← append_assoc, getLast?_concat]
  exact fun heq => hc (Option.some.inj heq)

variable {num : NumberText ν} {gap : List Nat}

theorem elementsText_ends : ∀ (n : Nat) (first : Bool) (vs : List (JSValue ν)),
    EndsValue (elementsText num gap n first vs)
  | n, first, [] => by
    rw [elementsText]
    exact ⟨_, 0x5D, rfl, by decide⟩
  | n, first, v :: vs => by
    rw [elementsText]
    exact (elementsText_ends n false vs).append _

theorem membersText_ends : ∀ (n : Nat) (first : Bool) (ps : List (PropertyKey × JSValue ν)),
    EndsValue (membersText num gap n first ps)
  | n, first, [] => by
    rw [membersText]
    exact ⟨_, 0x7D, rfl, by decide⟩
  | n, first, (k, v) :: ps => by
    rw [membersText]
    exact (membersText_ends n false ps).append _

/-- The number text of an `int32` ends in a digit; this is all the writer needs to know. -/
def NumbersEnd (ops : NumberOps ν) (num : NumberText ν) : Prop :=
  ∀ n, Int32 n → num.isFinite (ops.ofInt n) = true ∧ EndsValue (num.numberToString (ops.ofInt n))

variable {v : Val ν} {t : JSValue ν}

theorem valueText_ends (hnum : NumbersEnd ops num) (n : Nat) (h : Represents ops heap v t) :
    EndsValue (valueText num gap n t) := by
  cases h with
  | null => exact ⟨[0x6E, 0x75, 0x6C], 0x6C, by rw [valueText]; rfl, by decide⟩
  | @boolean b =>
    cases b
    · exact ⟨[0x66, 0x61, 0x6C, 0x73], 0x65, by rw [valueText]; rfl, by decide⟩
    · exact ⟨[0x74, 0x72, 0x75], 0x65, by rw [valueText]; rfl, by decide⟩
  | string _ =>
    rw [valueText, quotedText]
    exact EndsValue.cons ⟨_, 0x22, rfl, by decide⟩ _
  | number hn hx =>
    rw [valueText, hx]
    exact (hnum _ hn).2
  | array _ _ =>
    rw [valueText]
    exact (elementsText_ends n true _).cons _
  | object _ _ _ =>
    rw [valueText]
    exact (membersText_ends n true _).cons _

/-! ## 4. Indentation -/

/-- The indentation strings at nesting depth `n`. -/
structure Indented (gap : List Nat) (s : Stringifier ν) (n : Nat) : Prop where
  indent : s.indent = (replicate n gap).flatten
  repeated : ∃ m, n ≤ m ∧ s.repeatedGap = (replicate m gap).flatten

variable {n : Nat}

theorem take_replicate_flatten (gap : List Nat) {m : Nat} (h : n ≤ m) :
    (replicate m gap).flatten.take (n * gap.length) = (replicate n gap).flatten := by
  obtain ⟨k, rfl⟩ := Nat.exists_eq_add_of_le h
  rw [replicate_add, flatten_append]
  exact take_left' (by simp)

theorem replicate_flatten_length (gap : List Nat) (n : Nat) :
    (replicate n gap).flatten.length = n * gap.length := by simp

variable {s : Stringifier ν}

theorem Indented.indentMore (h : Indented gap s n) : Indented gap (s.indentMore gap) (n + 1) := by
  obtain ⟨m, hm, hrep⟩ := h.repeated
  have hsize : s.indent.length + gap.length = (n + 1) * gap.length := by
    rw [h.indent, replicate_flatten_length, Nat.succ_mul]
  -- the repeated gap grows exactly when it is used up, so that it is long enough afterwards
  have hgrow : ∃ m', n + 1 ≤ m' ∧ (s.indentMore gap).repeatedGap = (replicate m' gap).flatten := by
    simp only [Stringifier.indentMore, hsize, hrep, replicate_flatten_length]
    split_ifs with hlt
    · exact ⟨m + 1, by omega, by rw [replicate_succ', flatten_concat]⟩
    · rcases Nat.lt_or_ge n m with hnm | hnm
      · exact ⟨m, hnm, rfl⟩
      · have hmn : m = n := by omega
        subst hmn
        have hgap : gap = [] := by
          rw [← length_eq_zero_iff]
          by_contra hne
          exact hlt (Nat.mul_lt_mul_of_pos_right (Nat.lt_succ_self m) (Nat.pos_of_ne_zero hne))
        exact ⟨m + 1, le_rfl, by simp [hgap]⟩
  obtain ⟨m', hm', hrep'⟩ := hgrow
  refine ⟨?_, m', hm', hrep'⟩
  have : (s.indentMore gap).indent =
      (s.indentMore gap).repeatedGap.take (s.indent.length + gap.length) := rfl
  rw [this, hrep', hsize, take_replicate_flatten gap hm']

theorem Indented.unindent (h : Indented gap s (n + 1)) : Indented gap (s.unindent gap) n := by
  obtain ⟨m, hm, hrep⟩ := h.repeated
  refine ⟨?_, m, by omega, hrep⟩
  have hsize : s.indent.length - gap.length = n * gap.length := by
    rw [h.indent, replicate_flatten_length, Nat.succ_mul, Nat.add_sub_cancel]
  rw [Stringifier.unindent, hsize, hrep, take_replicate_flatten gap (by omega)]

theorem startNewLine_eq (h : Indented gap s n) : s.startNewLine gap = s.append (newLine gap n) := by
  unfold startNewLine newLine
  split_ifs
  · simp [append]
  · rw [h.indent]

/-! ## 5. Property names -/

variable {k : PropertyKey}

theorem PlainKeys.ofIdentifier_toIdentifier {keys : List PropertyKey} (h : PlainKeys keys)
    (hk : k ∈ keys) : PropertyKey.ofIdentifier k.toIdentifier = k := by
  cases k with
  | index i =>
    have hi := h.index i hk
    rw [PropertyKey.toIdentifier, PropertyKey.ofIdentifier, asIndex_natText hi, if_pos hi.ne]
  | name s =>
    rw [PropertyKey.toIdentifier, PropertyKey.ofIdentifier, if_neg (not_not.mpr (h.name s hk).1)]

theorem PlainKeys.nodup {keys : List PropertyKey} (h : PlainKeys keys) : keys.Nodup := by
  refine h.sorted.imp ?_
  rintro (i | s) (j | t) hab heq
  · cases heq
    exact Nat.lt_irrefl _ hab
  · cases heq
  · cases heq
  · cases heq
    exact hab rfl

theorem lookup_append_cons {done props : List (PropertyKey × Val ν)}
    (h : ((done ++ (k, v) :: props).map Prod.fst).Nodup) :
    (done ++ (k, v) :: props).lookup k = some v := by
  induction done with
  | nil => simp
  | cons p done ih =>
    rw [cons_append, map_cons, nodup_cons] at h
    have hne : (k == p.1) = false := by
      rw [beq_eq_false_iff_ne]
      rintro rfl
      exact h.1 (by simp)
    rw [cons_append, lookup_cons, hne]
    exact ih h.2

/-! ## 6. The machine -/

/-- From `s` to `s'` the machine wrote `text`, and ended with the given stack and depth. -/
structure Wrote (gap : List Nat) (s s' : Stringifier ν) (text : List Nat) (stack : List Holder)
    (n : Nat) : Prop where
  builder : s'.builder = s.builder ++ text
  stack : s'.holderStack = stack
  heap : s'.heap = s.heap
  exception : s'.exception = none
  indented : Indented gap s' n

/-- The holders below a value represent larger trees. -/
def Above (ops : NumberOps ν) (heap : List (Cell ν)) (size : Nat) (stack : List Holder) : Prop :=
  ∀ hd ∈ stack, ∃ T, Represents ops heap (.cell hd.object) T ∧ size < sizeOf T

variable {stack : List Holder}

theorem Above.mono {size size' : Nat} (h : Above ops heap size stack) (hle : size' ≤ size) :
    Above ops heap size' stack := by
  intro hd hmem
  obtain ⟨T, hT, hlt⟩ := h hd hmem
  exact ⟨T, hT, by omega⟩

variable {hd : Holder} {rest : List Holder}

/-- The stack below looks at the holders' objects only. -/
theorem Above.set_index {size : Nat} {hd' : Holder}
    (h : Above ops heap size (hd :: rest)) (hobj : hd'.object = hd.object) :
    Above ops heap size (hd' :: rest) := by
  intro x hx
  rcases mem_cons.mp hx with rfl | hx
  · rw [hobj]
    exact h hd (by simp)
  · exact h x (by simp [hx])

/-- A tree does not contain itself, so the cycle check does not fire. -/
theorem Above.not_cyclic {id : Nat} (h : Above ops heap (sizeOf t) stack)
    (hrep : Represents ops heap (.cell id) t) : stack.any (fun hd => hd.object == id) = false := by
  rw [any_eq_false]
  intro hd hmem heq
  obtain ⟨T, hT, hlt⟩ := h hd hmem
  rw [eq_of_beq heq] at hT
  rw [hT.unique hrep] at hlt
  exact Nat.lt_irrefl _ hlt

/-- The holder of a newly met object. -/
def freshHolder (heap : List (Cell ν)) (id : Nat) : Holder := ⟨id, isArrayCell heap id, 0, 0, []⟩

theorem appendQuotedString_eq (s : Stringifier ν) (value : List Nat) :
    s.appendQuotedString value = s.append (quotedText value) := by
  unfold appendQuotedString append appendStringToStringBuilder quotedText
  generalize (value.take (intLength value).toNat).flatMap escapeCharacter = text
  rw [append_assoc, append_assoc, singleton_append]

/-- What `appendStringifiedValue` does with a tree: it writes a primitive and pushes the rest. -/
theorem appendStringifiedValue_eq (gap : List Nat) (hnum : NumbersEnd ops num)
    (h : Represents ops heap v t) (hheap : s.heap = heap)
    (habove : Above ops heap (sizeOf t) s.holderStack) (n holder : Nat) (name : List Nat) :
    appendStringifiedValue num Hooks.none s v holder name =
      match v with
      | .cell id => (.StringifySucceeded,
          { s with holderStack := freshHolder heap id :: s.holderStack })
      | _ => (.StringifySucceeded, s.append (valueText num gap n t)) := by
  subst hheap
  have push : ∀ {id : Nat} {c : Cell ν}, s.heap[id]? = some c →
      (∀ p, c ≠ .boxed p) → c ≠ .function → Represents ops s.heap (.cell id) t →
      appendStringifiedValue num Hooks.none s (.cell id) holder name =
        (.StringifySucceeded,
          { s with holderStack := freshHolder s.heap id :: s.holderStack }) := by
    intro id c hcell hbox hfun hrep
    have hunwrap : unwrapBoxedPrimitive s.heap (.cell id) = .cell id := by
      simp only [unwrapBoxedPrimitive, hcell]
      split
      · next p heq => exact absurd (Option.some.inj heq) (hbox p)
      · rfl
    have hnotfun : isFunctionCell s.heap id = false := by
      simp only [isFunctionCell, hcell]
      split
      · next heq => exact absurd (Option.some.inj heq) hfun
      · rfl
    simp only [appendStringifiedValue, applyHooks, Hooks.none, Val.isUndefined, hunwrap, hnotfun,
      habove.not_cyclic hrep, Bool.false_eq_true, false_and, if_false]
    rfl
  cases h with
  | null => rw [valueText]; rfl
  | @boolean b => cases b <;> (rw [valueText]; rfl)
  | string _ =>
    rw [valueText]
    simp only [appendStringifiedValue, applyHooks, Hooks.none, Val.isUndefined,
      unwrapBoxedPrimitive, Bool.false_eq_true, false_and, if_false]
    rw [appendQuotedString_eq]
  | number hn hx =>
    subst hx
    rw [valueText]
    simp only [appendStringifiedValue, applyHooks, Hooks.none, Val.isUndefined,
      unwrapBoxedPrimitive, Bool.false_eq_true, false_and, if_false, (hnum _ hn).1, if_true]
  | array hcell hall => exact push hcell nofun nofun (.array hcell hall)
  | object hcell hkeys hprops => exact push hcell nofun nofun (.object hcell hkeys hprops)

/-- What is written from a visit of a holder on, until the holder is left. -/
def Visits (num : NumberText ν) (gap : List Nat) (hd : Holder) (rest : List Holder)
    (s : Stringifier ν) (text : List Nat) (n : Nat) : Prop :=
  ∃ s₁ k s', afterProperty (appendPropertyAt num Hooks.none gap hd rest s) = .inl s₁ ∧
    Steps (holderTurn num Hooks.none gap) k s₁ s' ∧ Wrote gap s s' text rest n

/-- The last visit of a holder. -/
theorem close_written (num : NumberText ν) (rest : List Holder) (hidx : hd.index = hd.size)
    (hind : Indented gap s (n + 1)) (hexc : s.exception = none)
    (hlast : hd.size ≠ 0 → s.lastCharacter ≠ some 0x7B) :
    Visits num gap hd rest s ((if hd.size = 0 then [] else newLine gap n)
      ++ [if hd.isArray then 0x5D else 0x7D]) n := by
  have hun := hind.unindent
  have hlast' : (s.unindent gap).lastCharacter = s.lastCharacter := rfl
  unfold Visits
  simp only [appendPropertyAt, hidx, if_true, hlast', afterProperty]
  refine ⟨_, 0, _, rfl, .refl, ?_⟩
  by_cases hsize : hd.size = 0
  · simp only [hsize, ne_eq, not_true_eq_false, false_and, if_false, if_true]
    exact ⟨rfl, rfl, rfl, hexc, hun.indent, hun.repeated⟩
  · simp only [hsize, ne_eq, not_false_eq_true, hlast hsize, and_self, if_true, if_false,
      startNewLine_eq hun]
    exact ⟨append_assoc _ _ _, rfl, rfl, hexc, hun.indent, hun.repeated⟩

theorem holderTurn_later (hstack : s.holderStack = hd :: rest) (hidx : hd.index ≠ 0) :
    holderTurn num Hooks.none gap s =
      afterProperty (appendPropertyAt num Hooks.none gap hd rest s) := by
  simp only [holderTurn, hstack, appendNextProperty, hidx, if_false]

theorem holderTurn_first (hstack : s.holderStack = hd :: rest) (hidx : hd.index = 0) :
    holderTurn num Hooks.none gap s
      = afterProperty (appendPropertyAt num Hooks.none gap (hd.firstVisit Hooks.none gap s).1 rest
          (hd.firstVisit Hooks.none gap s).2) := by
  simp only [holderTurn, hstack, appendNextProperty, hidx, if_true]

/-- A visit that wrote a separator and then a value. -/
theorem afterProperty_value {rollBackPoint : Nat} {s₁ : Stringifier ν}
    (hexc : s₁.exception = none) :
    afterProperty (true, finishProperty rollBackPoint (.StringifySucceeded, s₁)) = .inl s₁ := by
  simp only [finishProperty, afterProperty, hexc, Option.isSome_none, Bool.false_eq_true, if_false]

theorem Wrote.trans {s' s'' : Stringifier ν} {text text' : List Nat} {stack' : List Holder}
    {n' : Nat} (h : Wrote gap s s' text stack n) (h' : Wrote gap s' s'' text' stack' n') :
    Wrote gap s s'' (text ++ text') stack' n' :=
  ⟨by rw [h'.builder, h.builder, append_assoc], h'.stack, h'.heap.trans h.heap,
    h'.exception, h'.indented⟩

/-- Writing text leaves everything but the builder alone. -/
theorem wrote_append (hind : Indented gap s n) (hexc : s.exception = none) (text : List Nat) :
    Wrote gap s (s.append text) text s.holderStack n :=
  ⟨rfl, rfl, rfl, hexc, hind.indent, hind.repeated⟩

/-- The stack while the inside of `T` is written. -/
theorem Above.push {T : JSValue ν} {size : Nat} (h : Above ops heap (sizeOf T) stack)
    (hrep : Represents ops heap (.cell hd.object) T) (hlt : size < sizeOf T) :
    Above ops heap size (hd :: stack) := by
  intro x hx
  rcases mem_cons.mp hx with rfl | hx
  · exact ⟨T, hrep, hlt⟩
  · obtain ⟨T', hT', hlt'⟩ := h x hx
    exact ⟨T', hT', by omega⟩

/-- The first visit: the opening bracket is written and the rest happens one level deeper. -/
theorem first_visit {hd' : Holder} {open_ : Nat} {text : List Nat}
    (hstack : s.holderStack = hd :: rest) (hidx : hd.index = 0)
    (hinit : hd.firstVisit Hooks.none gap s = (hd', (s.append [open_]).indentMore gap))
    (hinside : Visits num gap hd' rest ((s.append [open_]).indentMore gap) text n) :
    ∃ k s', Steps (holderTurn num Hooks.none gap) k s s' ∧
    Wrote gap s s' (open_ :: text) rest n := by
  obtain ⟨s₁, k, s', hs₁, hk, hw⟩ := hinside
  refine ⟨k + 1, s', .head ?_ hk, ?_⟩
  · rw [holderTurn_first hstack hidx, hinit, hs₁]
  · refine ⟨hw.builder.trans ?_, hw.stack, hw.heap, hw.exception, hw.indented⟩
    exact append_assoc s.builder [open_] text

/-- The state in which property `i` is visited, behind its separator. -/
abbrev visiting (hd : Holder) (rest : List Holder) (s : Stringifier ν) (i : Nat)
    (separator : List Nat) :
    Stringifier ν := { s with holderStack := { hd with index := i + 1 } :: rest }.append separator

/-- **A visit that writes a value**: the holder is asked again when the value has been written. -/
theorem visits_value {name separator text : List Nat} {i rollBackPoint : Nat} {t : JSValue ν}
    (hnum : NumbersEnd ops num) (hv : Represents ops heap v t)
    (hvisit : appendPropertyAt num Hooks.none gap hd rest s =
      (true, finishProperty rollBackPoint (appendStringifiedValue num Hooks.none
        (visiting hd rest s i separator) v hd.object name)))
    (hvalue : ∃ s₁ k s', appendStringifiedValue num Hooks.none (visiting hd rest s i separator) v
      hd.object name = (.StringifySucceeded, s₁) ∧
      s₁.exception = none ∧ Steps (holderTurn num Hooks.none gap) k s₁ s' ∧
      Wrote gap (visiting hd rest s i separator) s' (valueText num gap (n + 1) t)
      ({ hd with index := i + 1 } :: rest) (n + 1))
    (hlater : ∀ s' : Stringifier ν, s'.heap = s.heap → s'.exception = none →
      Indented gap s' (n + 1) →
      s'.lastCharacter ≠ some 0x7B → Visits num gap { hd with index := i + 1 } rest s' text n) :
    Visits num gap hd rest s (separator ++ valueText num gap (n + 1) t ++ text) n := by
  obtain ⟨s₁, k, s', heq, hexc₁, hk, hw⟩ := hvalue
  have hw₀ : Wrote gap s s' (separator ++ valueText num gap (n + 1) t)
      ({ hd with index := i + 1 } :: rest) (n + 1) :=
    ⟨by rw [hw.builder, ← append_assoc]; rfl, hw.stack, hw.heap, hw.exception, hw.indented⟩
  obtain ⟨s₂, j, s'', hs₂, hj, hw'⟩ := hlater s' hw.heap hw.exception hw.indented <| by
    rw [lastCharacter, hw₀.builder]
    exact ((valueText_ends hnum (n + 1) hv).append _).getLast_ne _
  refine ⟨s₁, _, s'', ?_,
    hk.trans (.head ((holderTurn_later hw.stack (Nat.succ_ne_zero _)).trans hs₂) hj), hw₀.trans hw'⟩
  rw [hvisit, heq, afterProperty_value hexc₁]

/-- An array holder in the middle of its array. -/
theorem appendPropertyAt_element {es : List (Val ν)} {done : List (Val ν)}
    (hcell : heap[hd.object]? = some (.array ((done ++ v :: es).map some)))
    (hsize : hd.size = done.length + (es.length + 1)) (hidx : hd.index = done.length)
    (harr : hd.isArray = true) (hheap : s.heap = heap) (hind : Indented gap s (n + 1)) :
    appendPropertyAt num Hooks.none gap hd rest s =
      (true, finishProperty 0 (appendStringifiedValue num Hooks.none
        (visiting hd rest s done.length ((if done.isEmpty then [] else [0x2C]) ++
          newLine gap (n + 1)))
        v hd.object (natText done.length))) := by
  subst hheap
  have hget : getElement s.heap hd.object done.length = v := by
    simp [getElement, hcell]
  have hne : ¬ done.length = hd.size := by omega
  simp only [appendPropertyAt, visiting, hidx, hne, if_false, harr, if_true, hget]
  congr 3
  by_cases hdone : done = [] <;> by_cases hgap : gap = [] <;>
    simp [hdone, hgap, append, startNewLine, newLine, hind.indent]

/-- An object holder in the middle of its properties. -/
theorem appendPropertyAt_member (num : NumberText ν) {props done : List (PropertyKey × Val ν)}
    (rest : List Holder) (hcell : heap[hd.object]? = some (.object (done ++ (k, v) :: props)))
    (hkeys : PlainKeys ((done ++ (k, v) :: props).map Prod.fst))
    (hnames : hd.propertyNames = (done ++ (k, v) :: props).map fun p => p.1.toIdentifier)
    (hsize : hd.size = done.length + (props.length + 1)) (hidx : hd.index = done.length)
    (harr : hd.isArray = false) (hheap : s.heap = heap) (hind : Indented gap s (n + 1))
    (hlast : s.lastCharacter = some 0x7B ↔ done = []) :
    ∃ rollBackPoint, appendPropertyAt num Hooks.none gap hd rest s =
      (true, finishProperty rollBackPoint (appendStringifiedValue num Hooks.none
        (visiting hd rest s done.length ((if done.isEmpty then [] else [0x2C]) ++
          newLine gap (n + 1)
          ++ quotedText k.toIdentifier ++ colonText gap)) v hd.object k.toIdentifier)) := by
  subst hheap
  have hname : hd.propertyNames.getD done.length [] = k.toIdentifier := by simp [hnames]
  have hget : getOwnProperty s.heap hd.object k.toIdentifier = some v := by
    simp only [getOwnProperty, hcell]
    rw [hkeys.ofIdentifier_toIdentifier (by simp)]
    exact lookup_append_cons hkeys.nodup
  have hne : ¬ done.length = hd.size := by omega
  refine ⟨s.builder.length, ?_⟩
  simp only [appendPropertyAt, visiting, hidx, hne, if_false, harr, Bool.false_eq_true, hname, hget]
  congr 3
  have hl : s.builder.getLast? = some 0x7B ↔ done = [] := hlast
  by_cases hdone : done = [] <;> by_cases hgap : gap = [] <;>
    simp [lastCharacter, hl, hdone, hgap, appendQuotedString_eq, append, startNewLine, newLine,
      colonText, hind.indent]

mutual

/-- **A value is written as its text**, whatever is on the stack below. -/
theorem value_written (hnum : NumbersEnd ops num) {v : Val ν} {t : JSValue ν}
    (h : Represents ops heap v t) {s : Stringifier ν} {n : Nat} (holder : Nat) (name : List Nat)
    (hheap : s.heap = heap) (hexc : s.exception = none) (hind : Indented gap s n)
    (habove : Above ops heap (sizeOf t) s.holderStack) :
    ∃ s₁ k s', appendStringifiedValue num Hooks.none s v holder name = (.StringifySucceeded, s₁) ∧
      s₁.exception = none ∧ Steps (holderTurn num Hooks.none gap) k s₁ s' ∧
      Wrote gap s s' (valueText num gap n t) s.holderStack n := by
  have heq := appendStringifiedValue_eq gap hnum h hheap habove n holder name
  match h with
  | .null | .boolean | .string _ | .number _ _ =>
    exact ⟨_, 0, _, heq, hexc, .refl, wrote_append hind hexc _⟩
  | @Represents.array _ _ _ id es vs hcell hall =>
    let s₁ : Stringifier ν := { s with holderStack := freshHolder heap id :: s.holderStack }
    have hinit : (freshHolder heap id).firstVisit Hooks.none gap s₁
        = ({ freshHolder heap id with size := es.length }, (s₁.append [0x5B]).indentMore gap) := by
      simp [Holder.firstVisit, s₁, hheap, freshHolder, hcell]
    have harr : isArrayCell heap id = true := by simp [isArrayCell, hcell]
    have hinside :=
      elements_written hnum hall [] { freshHolder heap id with size := es.length } s.holderStack
      (s := (s₁.append [0x5B]).indentMore gap) (n := n) hcell (by simp) rfl harr hheap hexc
      (Indented.indentMore ⟨hind.indent, hind.repeated⟩) (fun h => absurd rfl h)
      (habove.push (.array hcell hall) (by simp))
    obtain ⟨k, s', hk, hw⟩ := first_visit (s := s₁) rfl rfl hinit hinside
    refine ⟨s₁, k, s', heq, hexc, hk, ?_⟩
    rw [valueText]
    exact ⟨hw.builder, hw.stack, hw.heap, hw.exception, hw.indented⟩
  | @Represents.object _ _ _ id props ps hcell hkeys hprops =>
    let s₁ : Stringifier ν := { s with holderStack := freshHolder heap id :: s.holderStack }
    let hd : Holder := { freshHolder heap id with
      size := props.length
      propertyNames := props.map fun p => p.1.toIdentifier }
    have hinit : (freshHolder heap id).firstVisit Hooks.none gap s₁
        = (hd, (s₁.append [0x7B]).indentMore gap) := by
      simp [Holder.firstVisit, s₁, hd, hheap, freshHolder, hcell, Hooks.none]
    have harr : isArrayCell heap id = false := by simp [isArrayCell, hcell]
    have hinside := members_written hnum hprops [] hd
      s.holderStack (s := (s₁.append [0x7B]).indentMore gap) (n := n) hcell hkeys rfl
      (by simp [hd]) rfl harr hheap hexc (Indented.indentMore ⟨hind.indent, hind.repeated⟩)
      (by simp [lastCharacter, append, indentMore])
      (habove.push (.object hcell hkeys hprops) (by simp))
    obtain ⟨k, s', hk, hw⟩ := first_visit (s := s₁) rfl rfl hinit hinside
    refine ⟨s₁, k, s', heq, hexc, hk, ?_⟩
    rw [valueText]
    exact ⟨hw.builder, hw.stack, hw.heap, hw.exception, hw.indented⟩

theorem elements_written (hnum : NumbersEnd ops num) {es : List (Val ν)} {vs : List (JSValue ν)}
    (h : RepresentsAll ops heap es vs) (done : List (Val ν)) (hd : Holder) (rest : List Holder)
    {s : Stringifier ν} {n : Nat} (hcell : heap[hd.object]? = some (.array ((done ++ es).map some)))
    (hsize : hd.size = done.length + es.length) (hidx : hd.index = done.length)
    (harr : hd.isArray = true) (hheap : s.heap = heap) (hexc : s.exception = none)
    (hind : Indented gap s (n + 1)) (hlast : done ≠ [] → s.lastCharacter ≠ some 0x7B)
    (habove : Above ops heap (sizeOf vs) (hd :: rest)) :
    Visits num gap hd rest s (elementsText num gap n done.isEmpty vs) n := by
  match h with
  | .nil =>
    have hclose := close_written num rest (hidx.trans (by simp [hsize])) hind hexc
      fun h0 => hlast (by rintro rfl; simp [hsize] at h0)
    simpa [elementsText, harr, hsize] using hclose
  | @RepresentsAll.cons _ _ _ v t es vs hv hall =>
    have habove' : Above ops heap (sizeOf t) ({ hd with index := done.length + 1 } :: rest) :=
      (habove.mono (by simp; omega)).set_index rfl
    rw [elementsText]
    refine visits_value hnum hv (appendPropertyAt_element hcell hsize hidx harr hheap hind)
      (value_written hnum hv _ _ hheap hexc ⟨hind.indent, hind.repeated⟩ habove')
      fun s' hheap' hexc' hind' hlast' => ?_
    have hlater :=
      elements_written hnum hall (done ++ [v]) { hd with index := done.length + 1 } rest (s := s')
      (n := n) (by simpa using hcell) (by simp [hsize]; omega) (by simp) harr
      (hheap'.trans hheap) hexc' hind' (fun _ => hlast') ((habove.mono (by simp)).set_index rfl)
    have hfalse : (done ++ [v]).isEmpty = false := by simp
    rwa [hfalse] at hlater

theorem members_written (hnum : NumbersEnd ops num) {props : List (PropertyKey × Val ν)}
    {ps : List (PropertyKey × JSValue ν)} (h : RepresentsProps ops heap props ps)
    (done : List (PropertyKey × Val ν)) (hd : Holder) (rest : List Holder) {s : Stringifier ν}
    {n : Nat} (hcell : heap[hd.object]? = some (.object (done ++ props)))
    (hkeys : PlainKeys ((done ++ props).map Prod.fst))
    (hnames : hd.propertyNames = (done ++ props).map fun p => p.1.toIdentifier)
    (hsize : hd.size = done.length + props.length) (hidx : hd.index = done.length)
    (harr : hd.isArray = false) (hheap : s.heap = heap) (hexc : s.exception = none)
    (hind : Indented gap s (n + 1)) (hlast : s.lastCharacter = some 0x7B ↔ done = [])
    (habove : Above ops heap (sizeOf ps) (hd :: rest)) :
    Visits num gap hd rest s (membersText num gap n done.isEmpty ps) n := by
  match h with
  | .nil =>
    have hclose := close_written num rest (hidx.trans (by simp [hsize])) hind hexc
      fun h0 hl => by simp [hlast.mp hl, hsize] at h0
    simpa [membersText, harr, hsize] using hclose
  | @RepresentsProps.cons _ _ _ key v t props ps hv hall =>
    have habove' : Above ops heap (sizeOf t) ({ hd with index := done.length + 1 } :: rest) :=
      (habove.mono (by simp; omega)).set_index rfl
    obtain ⟨rollBackPoint, hvisit⟩ :=
      appendPropertyAt_member num rest hcell hkeys hnames hsize hidx harr hheap hind hlast
    rw [membersText]
    refine visits_value hnum hv hvisit (value_written hnum hv _ _ hheap hexc ⟨hind.indent,
      hind.repeated⟩ habove')
      fun s' hheap' hexc' hind' hlast' => ?_
    have hlater :=
      members_written hnum hall (done ++ [(key, v)]) { hd with index := done.length + 1 }
        rest (s := s')
      (n := n) (by simpa using hcell) (by simpa using hkeys) (by simpa using hnames)
      (by simp [hsize]; omega) (by simp) harr (hheap'.trans hheap) hexc' hind'
      (by simp [hlast']) ((habove.mono (by simp)).set_index rfl)
    have hfalse : (done ++ [(key, v)]).isEmpty = false := by simp
    rwa [hfalse] at hlater

end

/-! ## 7. `stringify` -/

mutual

theorem Represents.append {v : Val ν} {t : JSValue ν} (h : Represents ops heap v t)
    (cells : List (Cell ν)) : Represents ops (heap ++ cells) v t := by
  match h with
  | .null => exact .null
  | .boolean => exact .boolean
  | .string hs => exact .string hs
  | .number hn hx => exact .number hn hx
  | .array hcell hall =>
    exact .array (List.getElem?_append_left (List.getElem?_eq_some_iff.mp hcell).1 ▸ hcell)
      (hall.append cells)
  | .object hcell hkeys hprops =>
    exact .object (List.getElem?_append_left (List.getElem?_eq_some_iff.mp hcell).1 ▸ hcell) hkeys
      (hprops.append cells)

theorem RepresentsAll.append {es : List (Val ν)} {vs : List (JSValue ν)}
    (h : RepresentsAll ops heap es vs) (cells : List (Cell ν)) :
    RepresentsAll ops (heap ++ cells) es vs := by
  match h with
  | .nil => exact .nil
  | .cons hv hall => exact .cons (hv.append cells) (hall.append cells)

theorem RepresentsProps.append {props : List (PropertyKey × Val ν)}
    {ps : List (PropertyKey × JSValue ν)} (h : RepresentsProps ops heap props ps)
    (cells : List (Cell ν)) : RepresentsProps ops (heap ++ cells) props ps := by
  match h with
  | .nil => exact .nil
  | .cons hv hall => exact .cons (hv.append cells) (hall.append cells)

end

/-- **`stringify` succeeds on every tree and writes its text**, given enough turns. -/
theorem stringify_text (hnum : NumbersEnd ops num) (h : Represents ops heap v t) :
    ∃ N, ∀ fuel, N ≤ fuel →
      stringify num Hooks.none gap fuel heap v = some (some (valueText num gap 0 t)) := by
  let heap' := heap ++ [.object [(.name [], v)]]
  have hind : Indented gap (⟨heap', [], [], [], [], none⟩ : Stringifier ν) 0 :=
    ⟨rfl, 0, le_rfl, rfl⟩
  obtain ⟨s₁, k, s', heq, -, hk, hw⟩ := value_written hnum (h.append [.object [(.name [], v)]])
    heap.length [] rfl rfl hind (fun _ hmem => absurd hmem not_mem_nil)
  refine ⟨k + 1, fun fuel hfuel => ?_⟩
  have hrun := hk.run_inr (r := (.StringifySucceeded, s')) (n := fuel)
    (by simp only [holderTurn, hw.stack]) hfuel
  simp only [stringify]
  rw [heq]
  simp only [hrun, ne_eq, not_true_eq_false, if_false, hw.exception, hw.builder]
  rfl

end JavaScriptCore.Json
