/-
# When a simplified node means the same as the plain one

Folding two numbers and rewriting a multiplication by one never change what an expression means.
Taking a unary plus off an operand can: in `+x * y` the conversion of `x` to a number happens before
`y` is evaluated, in `x * y` after it; and in `x * +y` the operand `y` is converted before `x` is,
in `x * y` after it.  `Harmless` says when neither can be seen, by the form of the operands alone,
and `simplification_preserves_meaning_iff` that the simplified node and the plain one are equal in
every environment exactly then.
-/
import JavaScriptCore.Lib.Effects
import JavaScriptCore.Parser.ASTBuilder

namespace JavaScriptCore.Parser.ASTBuilder

open Operations ExpressionNode

variable {N Leaf : Type} (arithmetic : NumberArithmetic N)

/-! ## 1. Equality in every environment -/

/-- **The same value and the same effects in the same order**, whatever the leaves and the
conversions of objects do. -/
def SameMeaning (e e' : ExpressionNode N Leaf) : Prop :=
  ∀ env : Environment N Leaf, e.eval arithmetic env = e'.eval arithmetic env

variable {arithmetic}

theorem SameMeaning.trans {e e' e'' : ExpressionNode N Leaf} (h : SameMeaning arithmetic e e')
    (h' : SameMeaning arithmetic e' e'') : SameMeaning arithmetic e e'' :=
  fun env => (h env).trans (h' env)

theorem SameMeaning.symm {e e' : ExpressionNode N Leaf} (h : SameMeaning arithmetic e e') :
    SameMeaning arithmetic e' e := fun env => (h env).symm

attribute [local simp] eval Primitive.toNumber numericOperation

variable {e : ExpressionNode N Leaf}

theorem eq_number_of_numberValue {value : N}
    (h : e.numberValue = some value) : e = .number value := by
  cases e <;> simp_all [numberValue]

/-! ## 2. Folding numbers -/

variable (arithmetic) in
/-- Two numbers are folded to what the operator computes at run time. -/
theorem folded_sameMeaning (op : BinaryOperator) (a b : N) (flag : Bool) :
    SameMeaning arithmetic (.number (op.onNumbers arithmetic a b) : ExpressionNode N Leaf)
      (.binary op (.number a) (.number b) flag) := by
  intro env
  simp [binaryOperation_numbers]

variable (arithmetic) in
theorem makeNegateNode_sameMeaning (e : ExpressionNode N Leaf) :
    SameMeaning arithmetic (makeNegateNode arithmetic e) (.negate e) := by
  intro env
  rw [makeNegateNode]
  cases hv : e.numberValue with
  | none => rfl
  | some value =>
    rw [eq_number_of_numberValue hv]
    simp

variable (arithmetic) in
theorem makeBitwiseNotNode_sameMeaning (e : ExpressionNode N Leaf) :
    SameMeaning arithmetic (makeBitwiseNotNode arithmetic e) (.bitwiseNot e) := by
  intro env
  rw [makeBitwiseNotNode]
  cases hv : e.numberValue with
  | none => rfl
  | some value =>
    rw [eq_number_of_numberValue hv]
    simp

variable (arithmetic) in
theorem foldNumbers_sameMeaning (op : BinaryOperator) (e1 e2 : ExpressionNode N Leaf)
    (flag : Bool) :
    SameMeaning arithmetic (foldNumbers arithmetic op e1 e2 flag) (.binary op e1 e2 flag) := by
  rw [foldNumbers]
  cases h1 : e1.numberValue with
  | none => exact fun _ => rfl
  | some a =>
    cases h2 : e2.numberValue with
    | none => exact fun _ => rfl
    | some b =>
      rw [eq_number_of_numberValue h1, eq_number_of_numberValue h2]
      exact folded_sameMeaning arithmetic op a b flag

/-! ## 3. Multiplication by one -/

theorem eq_number_of_isOne (h : isOne arithmetic e = true) :
    ∃ one, e = .number one ∧ arithmetic.equalsOne one = true := by
  rw [isOne] at h
  cases hv : e.numberValue with
  | none => simp [hv] at h
  | some value => exact ⟨value, eq_number_of_numberValue hv, by simpa [hv] using h⟩

/-- `1 * e` converts `e` to a number, and so does `+e`. -/
theorem unaryPlus_sameMeaning_one_mult {one : N} (hone : arithmetic.equalsOne one = true)
    (e : ExpressionNode N Leaf) (flag : Bool) :
    SameMeaning arithmetic (.unaryPlus e) (.binary .mult (.number one) e flag) := by
  intro env
  simp [binaryOperation, BinaryOperator.onNumbers, arithmetic.multiply_of_equalsOne hone]

/-- `e * 1` likewise. -/
theorem unaryPlus_sameMeaning_mult_one {one : N} (hone : arithmetic.equalsOne one = true)
    (e : ExpressionNode N Leaf) (flag : Bool) :
    SameMeaning arithmetic (.unaryPlus e) (.binary .mult e (.number one) flag) := by
  intro env
  simp [binaryOperation, BinaryOperator.onNumbers, arithmetic.multiply_equalsOne hone]

/-- Apart from the unary pluses it takes off, `makeMultNode` keeps the meaning. -/
theorem makeMultNode_sameMeaning (e1 e2 : ExpressionNode N Leaf) (flag : Bool) :
    SameMeaning arithmetic (makeMultNode arithmetic e1 e2 flag)
      (.binary .mult e1.stripUnaryPlus e2.stripUnaryPlus flag) := by
  rw [makeMultNode]
  split
  · next a b h1 h2 =>
    rw [eq_number_of_numberValue h1, eq_number_of_numberValue h2]
    exact folded_sameMeaning arithmetic .mult a b flag
  · split
    · next h1 =>
      obtain ⟨one, he, hone⟩ := eq_number_of_isOne h1
      rw [he]
      exact unaryPlus_sameMeaning_one_mult hone _ flag
    · split
      · next h2 =>
        obtain ⟨one, he, hone⟩ := eq_number_of_isOne h2
        rw [he]
        exact unaryPlus_sameMeaning_mult_one hone _ flag
      · exact fun _ => rfl

/-! ## 4. The operands that are left -/

/-- The operators whose function takes the unary pluses off. -/
def stripsUnaryPlus : BinaryOperator → Bool
  | .mult | .div | .mod | .sub => true
  | _ => false

/-- The operand that an operator's function goes on with. -/
def operand (op : BinaryOperator) (e : ExpressionNode N Leaf) : ExpressionNode N Leaf :=
  if stripsUnaryPlus op then e.stripUnaryPlus else e

variable (arithmetic) in
/-- **All that can change the meaning is the removal of the unary pluses.** -/
theorem makeBinaryNode_sameMeaning (op : BinaryOperator) (e1 e2 : ExpressionNode N Leaf)
    (flag : Bool) :
    SameMeaning arithmetic (makeBinaryNode arithmetic op e1 e2 flag)
      (.binary op (operand op e1) (operand op e2) flag) := by
  cases op with
  | mult => exact makeMultNode_sameMeaning e1 e2 flag
  | _ => exact foldNumbers_sameMeaning arithmetic _ _ _ flag

/-- When taking the unary pluses off cannot be seen: a left operand `+x` is followed by no leaf, and
a right operand `+y` is preceded by no leaf that is converted after it. -/
def Harmless (op : BinaryOperator) (e1 e2 : ExpressionNode N Leaf) : Prop :=
  stripsUnaryPlus op = true →
    (∀ l, e1 = .unaryPlus (.leaf l) → e2.hasLeaf = false) ∧
    (∀ l, e2 = .unaryPlus (.leaf l) → e1.isLeaf = false)

variable {op : BinaryOperator}

theorem ne_add_of_strips (hop : stripsUnaryPlus op = true) : op ≠ .add := by
  rintro rfl
  exact absurd hop (by decide)

/-! ## 5. Harmless removals -/

section Sufficient

variable {op : BinaryOperator} {e1 e2 : ExpressionNode N Leaf} {flag : Bool}

section

variable (hop : op ≠ .add)

include hop

/-- The plus of a left operand.  If the operand is no leaf, its value is primitive, and converting
it early or late is the same; before an operand without leaves, nothing happens between the two
conversions. -/
theorem left_plus (he : e1.isLeaf = false ∨ e2.hasLeaf = false) :
    SameMeaning arithmetic (.binary op e1 e2 flag) (.binary op (.unaryPlus e1) e2 flag) := by
  intro env
  rcases he with he | he
  · obtain ⟨c, hc⟩ := eval_primitive arithmetic env he
    simp [hc, binaryOperation_of_ne arithmetic env hop]
  · obtain ⟨p, hp⟩ := eval_of_not_hasLeaf arithmetic env he
    simp [hp, binaryOperation_of_ne arithmetic env hop]

/-- The plus of a right operand, if one of the two is no leaf: at most one of the conversions has an
effect. -/
theorem right_plus (he : e1.isLeaf = false ∨ e2.isLeaf = false) :
    SameMeaning arithmetic (.binary op e1 e2 flag) (.binary op e1 (.unaryPlus e2) flag) := by
  intro env
  rcases he with he | he
  all_goals
    obtain ⟨c, hc⟩ := eval_primitive arithmetic env he
    simp [hc, binaryOperation_of_ne arithmetic env hop]

/-- The left operand may lose its plus. -/
theorem strip_left (h : ∀ l, e1 = .unaryPlus (.leaf l) → e2.hasLeaf = false) :
    SameMeaning arithmetic (.binary op e1.stripUnaryPlus e2 flag) (.binary op e1 e2 flag) := by
  cases e1 with
  | unaryPlus e =>
    cases e with
    | leaf l => exact left_plus hop (.inr (h l rfl))
    | _ => exact left_plus hop (.inl rfl)
  | _ => exact fun _ => rfl

/-- The right operand may lose its plus. -/
theorem strip_right (h : ∀ l, e2 = .unaryPlus (.leaf l) → e1.isLeaf = false) :
    SameMeaning arithmetic (.binary op e1 e2.stripUnaryPlus flag) (.binary op e1 e2 flag) := by
  cases e2 with
  | unaryPlus e =>
    cases e with
    | leaf l => exact right_plus hop (.inl (h l rfl))
    | _ => exact right_plus hop (.inr rfl)
  | _ => exact fun _ => rfl

end

/-- **A harmless removal keeps the meaning.**  The right plus goes first. -/
theorem operands_sameMeaning (h : Harmless op e1 e2) :
    SameMeaning arithmetic (.binary op (operand op e1) (operand op e2) flag)
    (.binary op e1 e2 flag) := by
  by_cases hop : stripsUnaryPlus op = true
  · obtain ⟨hleft, hright⟩ := h hop
    have hne := ne_add_of_strips hop
    simp only [operand, hop, if_true]
    refine SameMeaning.trans ?_ (strip_left hne hleft)
    refine strip_right hne fun l hl => ?_
    -- If the left operand becomes a leaf by losing its plus, the right one had no leaf.
    cases e1 with
    | unaryPlus e =>
      cases e with
      | leaf l' => exact absurd (hleft l' rfl) (by simp [hl, hasLeaf])
      | _ => rfl
    | leaf l' => exact absurd (hright l hl) (by simp [isLeaf])
    | _ => rfl
  · simp only [operand, hop]
    exact fun _ => rfl

end Sufficient

/-! ## 6. Harmful removals -/

section Necessary

open Lib.Effects

/-- The events that the first environment below throws. -/
inductive Event where
  | evaluation
  | conversion
  deriving DecidableEq

/-- **Which comes first, the second evaluation or a conversion?**  The first leaf gives an object,
the second one throws, and so does a conversion. -/
def secondEvaluationThrows (N Leaf : Type) : Environment N Leaf where
  World := Bool
  Exception := Event
  Object := Unit
  evaluate _ := ofOutcome fun evaluated =>
    if evaluated then (.error .evaluation, true) else (.ok (.object ()), true)
  toPrimitive _ _ := throw .conversion

/-- **Which operand is converted first?**  The leaves give objects with increasing numbers; a
conversion throws the number of the object. -/
def conversionThrows (N Leaf : Type) : Environment N Leaf where
  World := Nat
  Exception := Nat
  Object := Nat
  evaluate _ := ofOutcome fun count => (.ok (.object count), count + 1)
  toPrimitive o _ := throw o

/-- After the first leaf, an expression with a leaf throws when it evaluates it: before that there
is no object that could be converted. -/
theorem outcome_eval_of_hasLeaf (he : e.hasLeaf = true) :
    outcome (e.eval arithmetic (secondEvaluationThrows N Leaf)) true =
      (.error .evaluation, true) := by
  induction e with
  | number value | constant value => exact absurd he (by simp [hasLeaf])
  | unaryPlus e ih | negate e ih | bitwiseNot e ih => exact outcome_bind_of_error (ih he) _
  | binary op e1 e2 flag ih1 ih2 =>
    cases h1 : e1.hasLeaf with
    | true => exact outcome_bind_of_error (ih1 h1) _
    | false =>
      have h2 : e2.hasLeaf = true := by simpa [hasLeaf, h1] using he
      obtain ⟨p, hp⟩ := eval_of_not_hasLeaf arithmetic (secondEvaluationThrows N Leaf) h1
      rw [eval, hp, pure_bind]
      exact outcome_bind_of_error (ih2 h2) _
  | leaf l => rfl

theorem hasLeaf_stripUnaryPlus (e : ExpressionNode N Leaf) :
    e.stripUnaryPlus.hasLeaf = e.hasLeaf := by
  cases e <;> rfl

/-- A leaf that is evaluated first. -/
theorem outcome_eval_first (l : Leaf) :
    outcome ((.leaf l : ExpressionNode N Leaf).eval arithmetic (secondEvaluationThrows N Leaf))
      false
      = (.ok (.object ()), true) := rfl

/-- Where a leaf `+x` loses its plus before an operand with a leaf, the conversion comes too late.
-/
theorem not_sameMeaning_left {l : Leaf} {e2 : ExpressionNode N Leaf} {flag : Bool}
    (he : e2.hasLeaf = true) :
    ¬ SameMeaning arithmetic (.binary op (.leaf l) e2.stripUnaryPlus flag)
        (.binary op (.unaryPlus (.leaf l)) e2 flag) := by
  intro h
  have hstripped :
    outcome ((.binary op (.leaf l) e2.stripUnaryPlus flag : ExpressionNode N Leaf).eval
      arithmetic (secondEvaluationThrows N Leaf)) false = (.error .evaluation, true) := by
    rw [eval, outcome_bind_of_ok (outcome_eval_first l)]
    exact outcome_bind_of_error (outcome_eval_of_hasLeaf ((hasLeaf_stripUnaryPlus e2).trans he)) _
  have hplain : outcome ((.binary op (.unaryPlus (.leaf l)) e2 flag : ExpressionNode N Leaf).eval
      arithmetic (secondEvaluationThrows N Leaf)) false = (.error .conversion, true) :=
    outcome_bind_of_error rfl _
  rw [h (secondEvaluationThrows N Leaf), hplain] at hstripped
  exact absurd (Except.error.inj (Prod.mk.inj hstripped).1) (nofun : Event.conversion ≠ .evaluation)

/-- Where a leaf `+y` loses its plus after another leaf, the two conversions change places. -/
theorem not_sameMeaning_right (hop : op ≠ .add) {l l' : Leaf} {flag : Bool} :
    ¬ SameMeaning arithmetic (.binary op (.leaf l) (.leaf l') flag)
        (.binary op (.leaf l) (.unaryPlus (.leaf l')) flag) := by
  intro h
  have hstripped : outcome ((.binary op (.leaf l) (.leaf l') flag : ExpressionNode N Leaf).eval
      arithmetic (conversionThrows N Leaf)) (0 : Nat) = (.error (0 : Nat), (2 : Nat)) := by
    simp only [eval, binaryOperation_of_ne arithmetic _ hop]
    rfl
  have hplain :
    outcome ((.binary op (.leaf l) (.unaryPlus (.leaf l')) flag : ExpressionNode N Leaf).eval
      arithmetic (conversionThrows N Leaf)) (0 : Nat) = (.error (1 : Nat), (2 : Nat)) := rfl
  rw [h (conversionThrows N Leaf), hplain] at hstripped
  exact absurd (Except.error.inj (Prod.mk.inj hstripped).1) (nofun : (1 : Nat) ≠ 0)

/-- **A removal that keeps the meaning is harmless.** -/
theorem harmless_of_sameMeaning {e1 e2 : ExpressionNode N Leaf} {flag : Bool}
    (h : SameMeaning arithmetic (.binary op (operand op e1) (operand op e2) flag)
      (.binary op e1 e2 flag)) : Harmless op e1 e2 := by
  intro hop
  simp only [operand, hop, if_true] at h
  constructor
  · rintro l rfl
    by_contra hleaf
    exact not_sameMeaning_left (by simpa using hleaf) h
  · rintro l rfl
    cases e1 with
    | leaf l' => exact absurd h (not_sameMeaning_right (ne_add_of_strips hop))
    | _ => rfl

end Necessary

/-! ## 7. The result -/

/-- **When parse-time simplification preserves meaning.**  The functions of the unary operators
always keep it.  Those of the binary operators keep it, for every environment, exactly when the
unary pluses that they take off are harmless; that is always so for addition, the shifts and the
bitwise operators. -/
theorem simplification_preserves_meaning_iff (arithmetic : NumberArithmetic N) :
    (∀ e : ExpressionNode N Leaf,
      SameMeaning arithmetic (makeNegateNode arithmetic e) (.negate e)) ∧
    (∀ e : ExpressionNode N Leaf,
      SameMeaning arithmetic (makeBitwiseNotNode arithmetic e) (.bitwiseNot e)) ∧
    (∀ (op : BinaryOperator) (e1 e2 : ExpressionNode N Leaf) (flag : Bool),
      SameMeaning arithmetic (makeBinaryNode arithmetic op e1 e2 flag) (.binary op e1 e2 flag) ↔
        Harmless op e1 e2) := by
  refine ⟨makeNegateNode_sameMeaning arithmetic, makeBitwiseNotNode_sameMeaning arithmetic, ?_⟩
  intro op e1 e2 flag
  have hmake := makeBinaryNode_sameMeaning arithmetic op e1 e2 flag
  constructor
  · intro h
    exact harmless_of_sameMeaning (hmake.symm.trans h)
  · intro h
    exact hmake.trans (operands_sameMeaning h)

/-- An arithmetic to compute with: integers, where every division gives zero. -/
def integerArithmetic : NumberArithmetic Int where
  multiply := (· * ·)
  divide _ _ := 0
  fmod _ _ := 0
  add := (· + ·)
  subtract := (· - ·)
  negate := (- ·)
  toInt32 := BitVec.ofInt 32
  ofInt32 := BitVec.toInt
  ofUInt32 b := b.toNat
  nan := 0
  equalsOne n := n == 1
  stringToNumber _ := 0
  numberToString _ := []
  multiply_of_equalsOne h n := by rw [eq_of_beq h, one_mul]
  multiply_equalsOne h n := by rw [eq_of_beq h, mul_one]

/-- **`+x * y` evaluates `y` before it converts `x`.**  With an `x` that cannot be converted and a
`y` that throws, the plain node throws the exception of the conversion, and the node that
`makeMultNode` returns throws that of `y`. -/
theorem makeMultNode_reorders_conversion :
    let node : ExpressionNode Int Bool :=
      makeMultNode integerArithmetic (.unaryPlus (.leaf false)) (.leaf true) false
    let plain : ExpressionNode Int Bool :=
      .binary .mult (.unaryPlus (.leaf false)) (.leaf true) false
    Lib.Effects.outcome (node.eval integerArithmetic (secondEvaluationThrows Int Bool)) false
        = (.error .evaluation, true) ∧
      Lib.Effects.outcome (plain.eval integerArithmetic (secondEvaluationThrows Int Bool)) false
        = (.error .conversion, true) :=
  ⟨rfl, rfl⟩

end JavaScriptCore.Parser.ASTBuilder
