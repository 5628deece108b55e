/-
# Switch statements go to the right clause

ES5.1 12.11: the expressions of the clauses are evaluated in the order of the source until one is
strictly equal to the value of the switch expression; the statements from that clause on are
executed, and those from the default clause on, or none, when there is no such clause.

The code does this whatever instruction `tryTableSwitch` chooses, with one exception.  When the
value of the switch expression is in the register of a variable, the chain of comparisons compares
with what the variable holds by then, and the expression of a clause may have changed it.  `Safe`
says when that cannot happen, by the form of the statement, and `switch_dispatches_iff` that it is
the exact condition.
-/
import JavaScriptCore.Lib.Effects
import JavaScriptCore.Bytecompiler.SwitchTables

namespace JavaScriptCore.Bytecompiler.Switch

open Operations JavaScriptCore.Runtime Lib.Effects List CaseBlockNode

variable {Leaf Variable W : Type}

/-! ## 1. The meaning of a switch statement -/

namespace CaseBlockNode

variable (block : CaseBlockNode Leaf)

/-- One section of statements for each clause, in the order of the source. -/
def sections (bodies : Bodies W) : List (List W) :=
  (range' 0 block.list1.length).map bodies.clause
    ++ (if block.hasDefaultClause then [bodies.defaultClause] else [])
    ++ (range' block.list1.length block.list2.length).map bodies.clause

/-- The number of default clauses. -/
def defaultCount : Nat := if block.hasDefaultClause then 1 else 0

/-- The expressions of the clauses, with the positions of their sections. -/
def positions : List (ClauseExpression Leaf × Nat) :=
  block.clauses.zip (range' 0 block.list1.length
    ++ range' (block.list1.length + block.defaultCount) block.list2.length)

/-- Where to go on when no clause fits: the default clause, or behind the last one. -/
def defaultPosition : Nat :=
  if block.hasDefaultClause then block.list1.length else block.list1.length + block.list2.length

end CaseBlockNode

section Semantics

variable (env : SwitchEnvironment Leaf Variable)

/-- Evaluates the expressions one after the other until one is strictly equal to `v`. -/
def firstEqual {α : Type} (v : env.Value) (default : α) :
    List (ClauseExpression Leaf × α) → env.Computation α
  | [] => pure default
  | (clause, target) :: clauses => do
    let clauseVal ← evaluateClause env clause
    if strictEqual env clauseVal v then pure target else firstEqual v default clauses

/-- **The meaning of a switch statement**, as the words of the statements that are executed. -/
def evaluateSwitch (e : SwitchExpression Leaf Variable) (block : CaseBlockNode Leaf)
    (bodies : Bodies W) :
    env.Computation (List W) := do
  let v ← evaluateSwitchExpression env e
  let position ← firstEqual env v block.defaultPosition block.positions
  pure ((block.sections bodies).drop position).flatten

end Semantics

/-! ## 2. Where the labels are -/

section Layout

/-- The locations of sections that are emitted one after the other. -/
def locate (location : Nat) : List (List W) → List Nat
  | [] => []
  | body :: bodies => location :: locate (location + body.length) bodies

theorem emitClauses_eq (bodies : Bodies W) (list : List (ClauseExpression Leaf))
    (i location : Nat) :
    emitClauses bodies list i location =
      (locate location ((range' i list.length).map bodies.clause),
        ((range' i list.length).map bodies.clause).flatten) := by
  induction list generalizing i location with
  | nil => rfl
  | cons e list ih =>
    rw [emitClauses, length_cons, range'_succ, map_cons, flatten_cons, locate, ih]

/-- The location of the section at a position. -/
def locationOf (start : Nat) (sections : List (List W)) (position : Nat) : Nat :=
  start + (sections.take position).flatten.length

/-- Sections in the middle of others are at the locations of their positions. -/
theorem locate_eq (start : Nat) (before bodies after : List (List W)) :
    locate (start + before.flatten.length) bodies = (range' before.length bodies.length).map
        (locationOf start (before ++ bodies ++ after)) := by
  induction bodies generalizing before with
  | nil => rfl
  | cons body bodies ih =>
    have hhead : locationOf start (before ++ body :: bodies ++ after) before.length
        = start + before.flatten.length := by
      simp [locationOf]
    have htail := ih (before ++ [body])
    simp only [flatten_append, length_append, flatten_cons, flatten_nil,
      append_nil, append_assoc, singleton_append, length_singleton] at htail
    rw [locate, length_cons, range'_succ, map_cons, hhead, Nat.add_assoc, htail]
    simp

/-- **From its label on, the code is that of the section and all later ones.** -/
theorem drop_locationOf (start : Nat) (sections : List (List W)) (position : Nat) :
    sections.flatten.drop (locationOf start sections position - start)
      = (sections.drop position).flatten := by
  rw [locationOf, Nat.add_sub_cancel_left]
  conv => lhs; arg 2; rw [← take_append_drop position sections, flatten_append]
  exact drop_left

variable (address : Nat) (expressionSize : ClauseExpression Leaf → Nat) (block : CaseBlockNode Leaf)
  (bodies : Bodies W)

/-- Where the statements begin. -/
def bodyStart : Nat := (emitBytecodeForBlock address expressionSize block bodies).bodyLocation

/-- The location of the label of a position. -/
def labelOf (position : Nat) : Nat :=
  locationOf (bodyStart address expressionSize block bodies) (block.sections bodies) position

/-- The statements come behind the instruction. -/
theorem address_lt_bodyStart : address < bodyStart address expressionSize block bodies := by
  unfold bodyStart emitBytecodeForBlock
  simp only
  split <;> omega

theorem address_lt_labelOf (position : Nat) :
    address < labelOf address expressionSize block bodies position :=
  Nat.lt_of_lt_of_le (address_lt_bodyStart address expressionSize block bodies)
    (Nat.le_add_right _ _)

theorem emitted_code :
    (emitBytecodeForBlock address expressionSize block bodies).code =
      (block.sections bodies).flatten := by
  unfold emitBytecodeForBlock CaseBlockNode.sections
  simp only [emitClauses_eq, flatten_append]
  cases block.hasDefaultClause <;> simp

/-- The parts of the emission that give the labels. -/
theorem emitted_labels (start : Nat) :
    let clauses1 := emitClauses bodies block.list1 0 start
    let location1 := start + clauses1.2.length
    let defaultCode := if block.hasDefaultClause then bodies.defaultClause else []
    let clauses2 :=
      emitClauses bodies block.list2 block.list1.length (location1 + defaultCode.length)
    clauses1.1 ++ clauses2.1 = (range' 0 block.list1.length
        ++ range' (block.list1.length + block.defaultCount) block.list2.length).map
          (locationOf start (block.sections bodies)) ∧
      (if block.hasDefaultClause then location1
        else location1 + defaultCode.length + clauses2.2.length)
        = locationOf start (block.sections bodies) block.defaultPosition := by
  simp only [emitClauses_eq]
  generalize hsections1 : (range' 0 block.list1.length).map bodies.clause = sections1
  generalize hsections2 :
    (range' block.list1.length block.list2.length).map bodies.clause = sections2
  generalize hmiddle : (if block.hasDefaultClause then [bodies.defaultClause] else []) = middle
  have hlength1 : sections1.length = block.list1.length := by simp [← hsections1]
  have hlength2 : sections2.length = block.list2.length := by simp [← hsections2]
  have hcount : block.defaultCount = middle.length := by
    rw [defaultCount, ← hmiddle]
    split <;> rfl
  have hcode : (if block.hasDefaultClause then bodies.defaultClause else []) = middle.flatten := by
    rw [← hmiddle]
    split <;> simp
  have hsections : block.sections bodies = sections1 ++ middle ++ sections2 := by
    rw [← hsections1, ← hsections2, ← hmiddle]
    rfl
  have hfirst := locate_eq start [] sections1 (middle ++ sections2)
  have hsecond := locate_eq start (sections1 ++ middle) sections2 []
  simp only [flatten_nil, length_nil, Nat.add_zero, nil_append, append_nil, flatten_append,
    length_append, ← append_assoc, ← Nat.add_assoc] at hfirst hsecond
  rw [hsections, map_append, hcode, hcount, hfirst, hsecond, hlength1, hlength2]
  refine ⟨rfl, ?_⟩
  rw [defaultPosition]
  split_ifs at hmiddle ⊢
  · rw [← hlength1, locationOf, append_assoc, take_left]
  · rw [← hmiddle, append_nil, ← hlength1, ← hlength2, locationOf, ← length_append, take_length,
      flatten_append, length_append, flatten_nil, length_nil, Nat.add_zero, Nat.add_assoc]

theorem zip_labels (label : Nat → Nat) : block.clauses.zip ((range' 0 block.list1.length
    ++ range' (block.list1.length + block.defaultCount) block.list2.length).map label)
      = block.positions.map fun c => (c.1, label c.2) := by
  rw [zip_map_right]
  rfl

/-- **The dispatch that is emitted**, with the labels in their places. -/
theorem emitted_dispatch : (emitBytecodeForBlock address expressionSize block bodies).dispatch
      = emitDispatch address block.clauses (tryTableSwitch block).1 (tryTableSwitch block).2
          ((range' 0 block.list1.length
            ++ range' (block.list1.length + block.defaultCount) block.list2.length).map
              (labelOf address expressionSize block bodies))
          (labelOf address expressionSize block bodies block.defaultPosition) := by
  obtain ⟨hlabels, hdefault⟩ :=
    emitted_labels block bodies (bodyStart address expressionSize block bodies)
  unfold labelOf
  rw [← hlabels, ← hdefault]
  rfl

end Layout

/-! ## 3. Literal clauses -/

section Literals

variable (env : SwitchEnvironment Leaf Variable)

/-- The value of a literal. -/
def literalValue : ClauseExpression Leaf → env.Value
  | .number value => .primitive (.number value)
  | .string value => .primitive (.string value)
  | .other _ => .primitive .undefined

theorem evaluateClause_literal {clause : ClauseExpression Leaf} (h : clause.isLiteral = true) :
    evaluateClause env clause = pure (literalValue env clause) := by
  cases clause with
  | number value | string value => rfl
  | other l => exact absurd h (by simp [ClauseExpression.isLiteral])

/-- The test that finds the clause of a value. -/
def equalTo (v : env.Value) (clause : ClauseExpression Leaf) : Bool :=
  strictEqual env (literalValue env clause) v

/-- With literals only, the meaning has no effects. -/
theorem firstEqual_literals {α : Type} (v : env.Value) (default : α)
    (clauses : List (ClauseExpression Leaf × α)) (h : ∀ c ∈ clauses, c.1.isLiteral = true) :
    firstEqual env v default clauses = pure (firstTarget (equalTo env v) clauses default) := by
  induction clauses with
  | nil => rfl
  | cons c clauses ih =>
    rw [firstEqual, evaluateClause_literal env (h c mem_cons_self), pure_bind, firstTarget_cons,
      ih fun c' hc' => h c' (mem_cons_of_mem _ hc')]
    show (if equalTo env v c.1 then _ else _) = _
    split <;> rfl

/-- What is in the register in a state. -/
def registerValue (e : SwitchExpression Leaf Variable) (v : env.Value) (w : env.World) :
    env.Value :=
  match e with
  | .inTemporary _ => v
  | .inVariable _ x => env.readVariable x w

/-- Reading the register changes nothing. -/
theorem outcome_readRegister_bind {α : Type} (e : SwitchExpression Leaf Variable) (v : env.Value)
    (f : env.Value → env.Computation α) (w : env.World) :
    outcome (readRegister env e v >>= f) w = outcome (f (registerValue env e v w)) w := by
  cases e <;> rfl

end Literals

/-! ## 4. Tables -/

section Tables

variable {env : SwitchEnvironment Leaf Variable} {address : Nat}
  {tests : List (ClauseExpression Leaf × Nat)} {defaultLabel : Nat}

/-- The nodes of a table, from the labels. -/
def nodesOf (address : Nat) (tests : List (ClauseExpression Leaf × Nat)) :
    List (ClauseExpression Leaf × Int) :=
  tests.map fun test => (test.1, (test.2 : Int) - address)

theorem mem_nodesOf {node : ClauseExpression Leaf × Int} (h : node ∈ nodesOf address tests) :
    ∃ test ∈ tests, node = (test.1, (test.2 : Int) - address) := by
  obtain ⟨test, htest, heq⟩ := mem_map.mp h
  exact ⟨test, htest, heq.symm⟩

/-- A label behind the instruction is not at distance zero. -/
theorem offset_ne_zero (hafter : ∀ test ∈ tests, address < test.2) :
    ∀ node ∈ nodesOf address tests, node.2 ≠ 0 := by
  intro node hnode
  obtain ⟨test, htest, rfl⟩ := mem_nodesOf hnode
  have := hafter test htest
  omega

/-- A test of the clauses that agrees with strict equality finds the label. -/
theorem firstTarget_nodesOf {p q : ClauseExpression Leaf → Bool}
    (h : ∀ test ∈ tests, p test.1 = q test.1) :
    firstTarget p (nodesOf address tests) ((defaultLabel : Int) - address)
      = ((firstTarget q tests defaultLabel : Nat) : Int) - address := by
  rw [← firstTarget_congr h]
  exact firstTarget_map fun label : Nat => (label : Int) - address

/-- When no clause is strictly equal, the distance is that of the default label. -/
theorem default_of_none {r : env.Value} (h : ∀ test ∈ tests, equalTo env r test.1 = false) :
    ((defaultLabel : Int) - address)
      = ((firstTarget (equalTo env r) tests defaultLabel : Nat) : Int) - address := by
  rw [firstTarget_of_none h]

theorem equalTo_integer {e : ClauseExpression Leaf} {i : Int} (he : IsInteger e i)
    (value : Double) :
    equalTo env (.primitive (.number value)) e = value.eqInt i := by
  obtain ⟨c, rfl, hc, _⟩ := he
  exact equals_iff_eqInt hc

/-- Only one integer can be equal to a double, the one it is converted to. -/
theorem eqInt_iff_staticCastInt {value : Double} {i : Int} (hi : IsInt32 i) :
    value.eqInt i = true ↔ value.eqInt (staticCastInt value) = true ∧ staticCastInt value = i := by
  constructor
  · intro h
    have hcast := staticCastInt_of_eqInt h hi.1 hi.2
    exact ⟨hcast ▸ h, hcast⟩
  · rintro ⟨h, rfl⟩
    exact h

/-- **`op_switch_imm` goes to the first clause that is strictly equal.** -/
theorem switchImmOffset_eq {min max : Int} (hrange : min ≤ max ∧ max - min ≤ 1000)
    (hclauses : ∀ test ∈ tests, ∃ i, IsInteger test.1 i ∧ min ≤ i ∧ i ≤ max)
    (hafter : ∀ test ∈ tests, address < test.2) (r : env.Value) :
    switchImmOffset (prepareJumpTableForSwitch (nodesOf address tests) min max
      keyForImmediateSwitch)
        ((defaultLabel : Int) - address) r
      = ((firstTarget (equalTo env r) tests defaultLabel : Nat) : Int) - address := by
  have hkey : ∀ test ∈ tests, ∀ i, IsInteger test.1 i →
      keyForImmediateSwitch test.1 min = i - min := by
    rintro test _ i ⟨value, hvalue, _, hcast⟩
    rw [hvalue, keyForImmediateSwitch, hcast]
  match r with
  | .primitive (.number value) =>
    have hequal : ∀ test ∈ tests, ∀ i, IsInteger test.1 i →
        (equalTo env (.primitive (.number value)) test.1 = true
          ↔ value.eqInt (staticCastInt value) = true ∧ staticCastInt value = i) := by
      intro test _ i hi
      rw [equalTo_integer hi]
      obtain ⟨c, _, _, hcast⟩ := hi
      exact eqInt_iff_staticCastInt (hcast ▸ isInt32_staticCastInt c)
    rw [switchImmOffset]
    split
    · next hint =>
      rw [offsetForValue_prepareJumpTable hrange.1 hrange.2 ?_ (offset_ne_zero hafter)]
      · refine firstTarget_nodesOf fun test htest => ?_
        obtain ⟨i, hi, _⟩ := hclauses test htest
        rw [Bool.eq_iff_iff, hequal test htest i hi, decide_eq_true_eq, hkey test htest i hi]
        constructor
        · intro h
          exact ⟨hint, by omega⟩
        · rintro ⟨_, h⟩
          omega
      · intro node hnode
        obtain ⟨test, htest, rfl⟩ := mem_nodesOf hnode
        obtain ⟨i, hi, hmin, hmax⟩ := hclauses test htest
        rw [hkey test htest i hi]
        omega
    · next hint =>
      refine default_of_none fun test htest => ?_
      obtain ⟨i, hi, _⟩ := hclauses test htest
      rw [← Bool.not_eq_true, hequal test htest i hi]
      exact fun h => hint h.1
  | .primitive .undefined | .primitive .null | .primitive (.boolean _) | .primitive (.string _)
  | .object _ =>
    refine default_of_none fun test htest => ?_
    obtain ⟨i, ⟨c, hc, _⟩, _⟩ := hclauses test htest
    rw [hc]
    rfl

/-- **`op_switch_char` goes to the first clause that is strictly equal.** -/
theorem switchCharOffset_eq {min max : Int} (hrange : min ≤ max ∧ max - min ≤ 1000)
    (hclauses : ∀ test ∈ tests, ∃ c : UInt16, IsCharacter test.1 c ∧ min ≤ c.toNat ∧ c.toNat ≤ max)
    (hafter : ∀ test ∈ tests, address < test.2) (r : env.Value) :
    switchCharOffset (prepareJumpTableForSwitch (nodesOf address tests) min max
      keyForCharacterSwitch)
        ((defaultLabel : Int) - address) r
      = ((firstTarget (equalTo env r) tests defaultLabel : Nat) : Int) - address := by
  have hstring : ∀ s : List UInt16, s.length ≠ 1 → ∀ test ∈ tests,
      equalTo env (.primitive (.string s)) test.1 = false := by
    intro s hs test htest
    obtain ⟨c, hc, _⟩ := hclauses test htest
    rw [hc]
    refine beq_eq_false_iff_ne.mpr ?_
    rintro rfl
    exact hs rfl
  match r with
  | .primitive (.string [c]) =>
    rw [switchCharOffset,
      offsetForValue_prepareJumpTable hrange.1 hrange.2 ?_ (offset_ne_zero hafter)]
    · refine firstTarget_nodesOf fun test htest => ?_
      obtain ⟨c', hc', _⟩ := hclauses test htest
      rw [hc', Bool.eq_iff_iff, decide_eq_true_eq]
      show ((c'.toNat : Int) - min = c.toNat - min) ↔ ([c'] == [c]) = true
      rw [beq_iff_eq, cons.injEq, and_iff_left rfl, ← UInt16.toNat_inj]
      omega
    · intro node hnode
      obtain ⟨test, htest, rfl⟩ := mem_nodesOf hnode
      obtain ⟨c', hc', hmin, hmax⟩ := hclauses test htest
      rw [hc', keyForCharacterSwitch]
      show 0 ≤ (c'.toNat : Int) - min ∧ (c'.toNat : Int) - min ≤ max - min
      omega
  | .primitive (.string []) => exact default_of_none (hstring [] (by decide))
  | .primitive (.string (c :: c' :: s)) => exact default_of_none (hstring _ (by simp))
  | .primitive .undefined | .primitive .null | .primitive (.boolean _) | .primitive (.number _)
  | .object _ =>
    refine default_of_none fun test htest => ?_
    obtain ⟨c, hc, _⟩ := hclauses test htest
    rw [hc]
    rfl

/-- **`op_switch_string` goes to the first clause that is strictly equal.** -/
theorem switchStringOffset_eq (hclauses : ∀ test ∈ tests, IsStringClause test.1) (r : env.Value) :
    switchStringOffset (prepareJumpTableForStringSwitch (nodesOf address tests))
        ((defaultLabel : Int) - address) r
      = ((firstTarget (equalTo env r) tests defaultLabel : Nat) : Int) - address := by
  match r with
  | .primitive (.string s) =>
    rw [switchStringOffset, find_prepareJumpTableForStringSwitch]
    refine firstTarget_nodesOf fun test htest => ?_
    obtain ⟨value, hvalue⟩ := hclauses test htest
    rw [hvalue, Bool.eq_iff_iff]
    show decide (value = s) = true ↔ (value == s) = true
    rw [decide_eq_true_eq, beq_iff_eq]
  | .primitive .undefined | .primitive .null | .primitive (.boolean _) | .primitive (.number _)
  | .object _ =>
    refine default_of_none fun test htest => ?_
    obtain ⟨value, hvalue⟩ := hclauses test htest
    rw [hvalue]
    rfl

/-- **An instruction with a table looks the value of the register up**, whichever was chosen. -/
theorem executeDispatch_table (env : SwitchEnvironment Leaf Variable) (block : CaseBlockNode Leaf)
    (hlength : block.clauses.length < 2 ^ 32) (htableChosen : (tryTableSwitch block).1 ≠ .none)
    {labels : List Nat} (hlabels : ∀ label ∈ labels, address < label)
    (e : SwitchExpression Leaf Variable) (v : env.Value) :
    executeDispatch env e v (emitDispatch address block.clauses (tryTableSwitch block).1
        (tryTableSwitch block).2 labels defaultLabel) = readRegister env e v >>= fun r =>
        pure (firstTarget (equalTo env r) (block.clauses.zip labels) defaultLabel) := by
  have hmem : ∀ test ∈ block.clauses.zip labels, test.1 ∈ block.clauses ∧ test.2 ∈ labels :=
    fun test htest => ⟨(of_mem_zip htest).1, (of_mem_zip htest).2⟩
  have hafter : ∀ test ∈ block.clauses.zip labels, address < test.2 := fun test htest =>
    hlabels _ (hmem test htest).2
  -- An instruction with a table jumps by the distance of the label.
  have htable : ∀ offset : env.Value → Int,
      (∀ r, offset r =
        ((firstTarget (equalTo env r) (block.clauses.zip labels) defaultLabel : Nat) : Int)
        - address) →
      (readRegister env e v >>= fun r => pure (address + offset r).toNat) =
        readRegister env e v >>= fun r =>
          pure (firstTarget (equalTo env r) (block.clauses.zip labels) defaultLabel) := by
    intro offset hoffset
    refine bind_congr fun r => ?_
    rw [hoffset r]
    refine congrArg _ ?_
    omega
  have h := tryTableSwitch_chosen block htableChosen
  have hrange := range_of_chosen hlength h
  have hnodes : (tryTableSwitch block).2.literalVector.zip
      (labels.map fun label : Nat => (label : Int) - address)
        = nodesOf address (block.clauses.zip labels) := by
    rw [h.vector, zip_map_right]
    rfl
  generalize tryTableSwitch block = choice at htableChosen h hnodes hrange ⊢
  obtain ⟨switchType, scan⟩ := choice
  cases switchType with
  | none => exact absurd rfl htableChosen
  | immediate =>
    refine htable _ fun r => ?_
    rw [hnodes]
    refine switchImmOffset_eq (hrange (h.immediate rfl).2) (fun test htest => ?_) hafter r
    exact h.ok.number (h.immediate rfl).1 _ (h.vector ▸ (hmem test htest).1)
  | character =>
    refine htable _ fun r => ?_
    rw [hnodes]
    refine switchCharOffset_eq (hrange (h.character rfl).2.2) (fun test htest => ?_) hafter r
    exact h.ok.character (h.character rfl).1 (h.character rfl).2.1 _
      (h.vector ▸ (hmem test htest).1)
  | string =>
    refine htable _ fun r => ?_
    rw [hnodes]
    refine switchStringOffset_eq (fun test htest => ?_) r
    exact h.ok.string (h.string rfl) _ (h.vector ▸ (hmem test htest).1)

end Tables

/-! ## 5. When the register keeps the value -/

section Stable

variable (env : SwitchEnvironment Leaf Variable)

/-- **The expressions of the clauses leave the register of the switch expression alone.** -/
def Stable (e : SwitchExpression Leaf Variable) (block : CaseBlockNode Leaf) : Prop :=
  ∀ clause ∈ block.clauses, ∀ w c w', outcome (evaluateClause env clause) w = (.ok c, w') →
    ∀ v, registerValue env e v w' = registerValue env e v w

/-- The code of a switch statement does what the statement means, whatever its clauses contain. -/
def Correct (e : SwitchExpression Leaf Variable) (block : CaseBlockNode Leaf) : Prop :=
  ∀ (W : Type) (address : Nat) (expressionSize : ClauseExpression Leaf → Nat) (bodies : Bodies W),
    executeSwitch env e (emitBytecodeForBlock address expressionSize block bodies)
      = evaluateSwitch env e block bodies

variable {e : SwitchExpression Leaf Variable}

theorem registerValue_after {w w' : env.World} {v : env.Value}
    (h : outcome (evaluateSwitchExpression env e) w = (.ok v, w')) :
    registerValue env e v w' = v := by
  cases e with
  | inTemporary l => rfl
  | inVariable l x =>
    rw [evaluateSwitchExpression] at h
    cases hl : outcome (env.evaluate l) w with
    | mk result w1 =>
      cases result with
      | ok c =>
        rw [outcome_bind_of_ok hl] at h
        cases h
        rfl
      | error exception =>
        rw [outcome_bind_of_error hl] at h
        cases h

theorem firstEqual_map {α β : Type} (v : env.Value) (default : α) (f : α → β)
    (clauses : List (ClauseExpression Leaf × α)) :
    firstEqual env v (f default) (clauses.map fun c => (c.1, f c.2))
      = firstEqual env v default clauses >>= fun target => pure (f target) := by
  induction clauses with
  | nil => simp [firstEqual]
  | cons c clauses ih =>
    rw [map_cons, firstEqual, firstEqual, ih, bind_assoc]
    refine bind_congr fun clauseVal => ?_
    split <;> simp

variable {block : CaseBlockNode Leaf}

/-- The comparisons, as long as the register keeps the value. -/
theorem outcome_executeCompareChain (hstable : Stable env e block) (v : env.Value)
    (defaultLocation : Nat) (tests : List (ClauseExpression Leaf × Nat))
    (htests : ∀ test ∈ tests, test.1 ∈ block.clauses) (w : env.World)
    (hw : registerValue env e v w = v) :
    outcome (executeCompareChain env e v defaultLocation tests) w
      = outcome (firstEqual env v defaultLocation tests) w := by
  induction tests generalizing w with
  | nil => rfl
  | cons test tests ih =>
    obtain ⟨clause, location⟩ := test
    rw [executeCompareChain, firstEqual]
    cases hclause : outcome (evaluateClause env clause) w with
    | mk result w' =>
      cases result with
      | error exception => rw [outcome_bind_of_error hclause, outcome_bind_of_error hclause]
      | ok c =>
        have hw' : registerValue env e v w' = v :=
          (hstable clause (htests _ mem_cons_self) w c w' hclause v).trans hw
        rw [outcome_bind_of_ok hclause, outcome_bind_of_ok hclause, outcome_readRegister_bind, hw']
        split
        · rfl
        · exact ih (fun test htest => htests test (mem_cons_of_mem _ htest)) w' hw'

theorem isLiteral_of_table (h : (tryTableSwitch block).1 ≠ .none) :
    ∀ c ∈ block.clauses, c.isLiteral = true := by
  have hchosen := tryTableSwitch_chosen block h
  intro c hc
  rw [← hchosen.vector] at hc
  cases htype : (tryTableSwitch block).1 with
  | none => exact absurd htype h
  | immediate =>
    obtain ⟨i, ⟨value, rfl, _⟩, _⟩ := hchosen.ok.number (hchosen.immediate htype).1 c hc
    rfl
  | character =>
    obtain ⟨value, rfl⟩ := hchosen.ok.string (hchosen.character htype).1 c hc
    rfl
  | string =>
    obtain ⟨value, rfl⟩ := hchosen.ok.string (hchosen.string htype) c hc
    rfl

/-- The dispatch, with all labels in their places. -/
theorem outcome_executeDispatch (hlength : block.clauses.length < 2 ^ 32)
    (hstable : Stable env e block) (address : Nat) (expressionSize : ClauseExpression Leaf → Nat)
    (bodies : Bodies W) (v : env.Value) (w : env.World) (hw : registerValue env e v w = v) :
    outcome (executeDispatch env e v (emitBytecodeForBlock address expressionSize block
      bodies).dispatch) w
      = outcome (firstEqual env v block.defaultPosition block.positions >>= fun position =>
        pure (labelOf address expressionSize block bodies position)) w := by
  rw [emitted_dispatch, ← firstEqual_map]
  by_cases htable : (tryTableSwitch block).1 = .none
  · rw [htable]
    show outcome (executeCompareChain env e v _ (block.clauses.zip _)) w = _
    rw [zip_labels]
    refine outcome_executeCompareChain env hstable v _ _ ?_ w hw
    intro test htest
    obtain ⟨c, hc, rfl⟩ := mem_map.mp htest
    exact (of_mem_zip hc).1
  · rw [executeDispatch_table env block hlength htable ?_, zip_labels, firstEqual_literals,
      outcome_readRegister_bind, hw]
    · intro c hc
      obtain ⟨c', hc', rfl⟩ := mem_map.mp hc
      exact isLiteral_of_table htable _ (of_mem_zip hc').1
    · intro label hlabel
      obtain ⟨position, _, rfl⟩ := mem_map.mp hlabel
      exact address_lt_labelOf address expressionSize block bodies position

/-- **The code is right when the register keeps the value.** -/
theorem correct_of_stable
    (hlength : block.clauses.length < 2 ^ 32) (hstable : Stable env e block) :
    Correct env e block := by
  intro W address expressionSize bodies
  apply ext_outcome
  intro w
  rw [executeSwitch, evaluateSwitch]
  cases hv : outcome (evaluateSwitchExpression env e) w with
  | mk result w' =>
    cases result with
    | error exception => rw [outcome_bind_of_error hv, outcome_bind_of_error hv]
    | ok v =>
      rw [outcome_bind_of_ok hv, outcome_bind_of_ok hv, outcome_bind_congr
        (outcome_executeDispatch env hlength hstable address expressionSize bodies v w'
          (registerValue_after env hv)), bind_assoc]
      simp only [pure_bind, emitted_code]
      refine congrFun (congrArg outcome (bind_congr fun position => congrArg pure ?_)) w'
      exact drop_locationOf _ _ _

end Stable

/-! ## 6. When it does not -/

section Disturbed

/-- **Every expression assigns a new object to the variable** and returns it. -/
abbrev assigningEnvironment (Leaf Variable : Type) : SwitchEnvironment Leaf Variable where
  World := Nat
  Exception := Empty
  Object := Nat
  evaluate _ := ofOutcome fun n => (.ok (.object (n + 1)), n + 1)
  readVariable _ n := .object n
  sameObject := (· == ·)

/-- One word for each clause. -/
def oneWordBodies : Bodies Unit where
  clause _ := [()]
  defaultClause := [()]

/-- The first expression that is not a literal is equal to what it has just assigned. -/
theorem outcome_executeCompareChain_assigning {α : Type} (l0 : Leaf) (x : Variable)
    (v : (assigningEnvironment Leaf Variable).Value) (defaultLocation n : Nat) (label : α → Nat)
    {clauses : List (ClauseExpression Leaf × α)} (h : ∃ c ∈ clauses, c.1.isLiteral = false) :
    ∃ c ∈ clauses,
    outcome (executeCompareChain (assigningEnvironment Leaf Variable) (.inVariable l0 x) v
      defaultLocation (clauses.map fun c => (c.1, label c.2))) n =
        (.ok (label c.2), (n + 1 : Nat)) := by
  induction clauses with
  | nil => simp at h
  | cons c clauses ih =>
    obtain ⟨clause, target⟩ := c
    cases clause with
    | other l =>
      refine ⟨_, mem_cons_self, ?_⟩
      show outcome (if (n + 1 == n + 1) = true then _ else _) (n + 1 : Nat) = _
      rw [if_pos (beq_self_eq_true _)]
      rfl
    | number value | string value =>
      obtain ⟨c, hc, hchain⟩ := ih (by simpa [ClauseExpression.isLiteral] using h)
      exact ⟨c, mem_cons_of_mem _ hc, hchain⟩

/-- The first object is equal to none of the later ones. -/
theorem outcome_firstEqual_assigning {α : Type} (default : α)
    (clauses : List (ClauseExpression Leaf × α)) (n : Nat) : ∃ n' : Nat,
    outcome (firstEqual (assigningEnvironment Leaf Variable) (.object (1 : Nat)) default clauses)
      (n + 1 : Nat) = (.ok default, n') := by
  induction clauses generalizing n with
  | nil => exact ⟨n + 1, rfl⟩
  | cons c clauses ih =>
    obtain ⟨clause, target⟩ := c
    rw [firstEqual]
    cases clause with
    | other l =>
      obtain ⟨n', hn'⟩ := ih (n + 1)
      refine ⟨n', ?_⟩
      have hl :
        outcome (evaluateClause (assigningEnvironment Leaf Variable) (.other l)) (n + 1 : Nat)
          = (.ok (.object (n + 1 + 1 : Nat)), (n + 1 + 1 : Nat)) := rfl
      rw [outcome_bind_of_ok hl, if_neg (by simp [strictEqual])]
      exact hn'
    | number value | string value => exact ih n

/-- With one word for each clause, the statements from different positions on are different. -/
theorem length_drop_sections (block : CaseBlockNode Leaf) (position : Nat) :
    ((block.sections oneWordBodies).drop position).flatten.length
      = block.list1.length + block.defaultCount + block.list2.length - position := by
  have hdefault : (if block.hasDefaultClause then [[()]] else []) =
      replicate block.defaultCount [()] := by
    rw [defaultCount]
    split <;> rfl
  simp [CaseBlockNode.sections, oneWordBodies, hdefault]

/-- The position of a clause is in the list of the sections, and not that of the default clause. -/
theorem positions_ne_default {block : CaseBlockNode Leaf} {c : ClauseExpression Leaf × Nat}
    (h : c ∈ block.positions) : c.2 < block.list1.length + block.defaultCount + block.list2.length ∧
      c.2 ≠ block.defaultPosition := by
  have hmem := (of_mem_zip h).2
  rw [defaultPosition]
  unfold defaultCount at *
  rcases mem_append.mp hmem with h1 | h2
  · have h1' := mem_range'_1.mp h1
    split <;> omega
  · have h2' := mem_range'_1.mp h2
    split at h2' <;> split <;> simp_all <;> omega

/-- **A variable and an expression that can assign to it**: the code goes to the clause of the
expression, which is equal to the new value and not to the old one. -/
theorem not_correct_of_other (l0 : Leaf) (x : Variable) {block : CaseBlockNode Leaf}
    (h : ∃ c ∈ block.clauses, c.isLiteral = false) :
    ¬ Correct (assigningEnvironment Leaf Variable) (.inVariable l0 x) block := by
  intro hcorrect
  have hnone : (tryTableSwitch block).1 = .none := by
    by_contra htable
    obtain ⟨c, hc, hliteral⟩ := h
    rw [isLiteral_of_table htable c hc] at hliteral
    cases hliteral
  have hfirst : ∃ c ∈ block.positions, c.1.isLiteral = false := by
    obtain ⟨c, hc, hliteral⟩ := h
    have hfst : block.positions.map Prod.fst = block.clauses :=
      map_fst_zip (by simp [clauses])
    rw [← hfst] at hc
    obtain ⟨c', hc', rfl⟩ := mem_map.mp hc
    exact ⟨c', hc', hliteral⟩
  let label := labelOf 0 (fun _ => 0) block oneWordBodies
  obtain ⟨c, hc, hchain⟩ := outcome_executeCompareChain_assigning l0 x (.object (1 : Nat))
    (label block.defaultPosition) 1 label hfirst
  have hdispatch : (emitBytecodeForBlock 0 (fun _ => 0) block oneWordBodies).dispatch =
      .compareChain (block.positions.map fun c => (c.1, label c.2))
      (label block.defaultPosition) := by
    rw [emitted_dispatch, hnone, ← zip_labels]
    rfl
  have hvalue : outcome (evaluateSwitchExpression (assigningEnvironment Leaf Variable)
      (.inVariable l0 x)) (0 : Nat) = (.ok (.object (1 : Nat)), (1 : Nat)) := rfl
  have hcode : outcome (executeSwitch (assigningEnvironment Leaf Variable) (.inVariable l0 x)
      (emitBytecodeForBlock 0 (fun _ => 0) block oneWordBodies)) (0 : Nat)
      = (.ok ((block.sections oneWordBodies).drop c.2).flatten, (2 : Nat)) := by
    rw [executeSwitch, outcome_bind_of_ok hvalue, hdispatch, executeDispatch,
      outcome_bind_of_ok hchain,
      emitted_code, ← drop_locationOf (bodyStart 0 (fun _ => 0) block oneWordBodies)]
    rfl
  obtain ⟨n', hmeaning⟩ : ∃ n' : Nat, outcome (firstEqual (assigningEnvironment Leaf Variable)
      (.object (1 : Nat)) block.defaultPosition block.positions) (0 + 1 : Nat)
        = (.ok block.defaultPosition, n') :=
    outcome_firstEqual_assigning block.defaultPosition block.positions 0
  have hspec : outcome (evaluateSwitch (assigningEnvironment Leaf Variable) (.inVariable l0 x) block
      oneWordBodies) (0 : Nat)
      = (.ok ((block.sections oneWordBodies).drop block.defaultPosition).flatten, n') := by
    rw [evaluateSwitch, outcome_bind_of_ok hvalue, outcome_bind_of_ok hmeaning]
    rfl
  rw [hcorrect Unit 0 (fun _ => 0) oneWordBodies, hspec] at hcode
  have hsame := congrArg length (Except.ok.inj (Prod.mk.inj hcode).1)
  rw [length_drop_sections, length_drop_sections] at hsame
  obtain ⟨hlt, hne⟩ := positions_ne_default hc
  omega

end Disturbed

/-! ## 7. The result -/

/-- **The statement is safe**: the value of the switch expression has a register of its own, or all
clauses are literals. -/
def Safe (e : SwitchExpression Leaf Variable) (block : CaseBlockNode Leaf) : Prop :=
  (∃ l, e = .inTemporary l) ∨ ∀ c ∈ block.clauses, c.isLiteral = true

theorem stable_of_safe (env : SwitchEnvironment Leaf Variable) {e : SwitchExpression Leaf Variable}
    {block : CaseBlockNode Leaf} (h : Safe e block) : Stable env e block := by
  intro clause hclause w c w' heval v
  rcases h with ⟨l, rfl⟩ | hliteral
  · rfl
  · rw [evaluateClause_literal env (hliteral clause hclause)] at heval
    cases heval
    rfl

/-- **The sizes and the indices of the tables are in range.** -/
def TablesInRange (block : CaseBlockNode Leaf) : Prop :=
  let scan := (tryTableSwitch block).2
  let inRange (key : ClauseExpression Leaf → Int → Int) : Prop :=
    tableSize scan.minNum scan.maxNum ≤ 1001 ∧
      ∀ c ∈ block.clauses, 0 ≤ key c scan.minNum ∧
        (key c scan.minNum).toNat < tableSize scan.minNum scan.maxNum
  ((tryTableSwitch block).1 = .immediate → inRange keyForImmediateSwitch) ∧
    ((tryTableSwitch block).1 = .character → inRange keyForCharacterSwitch)

theorem tablesInRange (block : CaseBlockNode Leaf) (hlength : block.clauses.length < 2 ^ 32) :
    TablesInRange block := by
  constructor
  · intro htype
    have h := tryTableSwitch_chosen block (by rw [htype]; exact nofun)
    obtain ⟨hle, hshort⟩ := range_of_chosen hlength h (h.immediate htype).2
    rw [tableSize_eq hle hshort]
    refine ⟨by omega, fun c hc => ?_⟩
    obtain ⟨i, ⟨value, rfl, _, hcast⟩, hmin, hmax⟩ :=
      h.ok.number (h.immediate htype).1 c (h.vector ▸ hc)
    rw [keyForImmediateSwitch, hcast]
    omega
  · intro htype
    have h := tryTableSwitch_chosen block (by rw [htype]; exact nofun)
    obtain ⟨hle, hshort⟩ := range_of_chosen hlength h (h.character htype).2.2
    rw [tableSize_eq hle hshort]
    refine ⟨by omega, fun c hc => ?_⟩
    obtain ⟨c', hc', hmin, hmax⟩ :=
      h.ok.character (h.character htype).1 (h.character htype).2.1 c (h.vector ▸ hc)
    rw [hc', keyForCharacterSwitch]
    show 0 ≤ (c'.toNat : Int) - _ ∧ ((c'.toNat : Int) - _).toNat < _
    omega

/-- **When switch statements dispatch to the right clause.**  The tables are always in range.  The
code does what the statement means in every environment in which the expressions of the clauses
leave the register of the switch expression alone, and it does so in all environments exactly when
the statement is safe. -/
theorem switch_dispatches_iff (e : SwitchExpression Leaf Variable) (block : CaseBlockNode Leaf)
    (hlength : block.clauses.length < 2 ^ 32) :
    TablesInRange block ∧
    (∀ env : SwitchEnvironment Leaf Variable, Stable env e block → Correct env e block) ∧
    ((∀ env : SwitchEnvironment Leaf Variable, Correct env e block) ↔ Safe e block) := by
  refine ⟨tablesInRange block hlength, fun env => correct_of_stable env hlength, ?_, ?_⟩
  · intro h
    cases e with
    | inTemporary l => exact Or.inl ⟨l, rfl⟩
    | inVariable l x =>
      refine Or.inr fun c hc => ?_
      by_contra hliteral
      exact not_correct_of_other l x ⟨c, hc, by simpa using hliteral⟩ (h _)
  · intro h env
    exact correct_of_stable env hlength (stable_of_safe env h)

/-- `switch (x) { case 1: case 2: case 3: default: }`. -/
def threeCases : CaseBlockNode Unit where
  list1 := [.number (.finite 1), .number (.finite 2), .number (.finite 3)]
  hasDefaultClause := true
  list2 := []

theorem switch_dispatches_iff_threeCases :
    TablesInRange threeCases ∧
    (∀ env : SwitchEnvironment Unit Unit, Stable env (.inVariable () ()) threeCases →
      Correct env (.inVariable () ()) threeCases) ∧
    ((∀ env : SwitchEnvironment Unit Unit, Correct env (.inVariable () ()) threeCases) ↔
      Safe (.inVariable () () : SwitchExpression Unit Unit) threeCases) :=
  switch_dispatches_iff (.inVariable () ()) threeCases (by decide)

/-- The expressions `x` (`false`) and `x = 5` (`true`), for a variable `x`. -/
def assignFive : SwitchEnvironment Bool Unit where
  World := Value Double Empty
  Exception := Empty
  Object := Empty
  evaluate l := ofOutcome fun x =>
    if l then (.ok (.primitive (.number (.finite 5))), .primitive (.number (.finite 5)))
    else (.ok x, x)
  readVariable _ x := x
  sameObject := nofun

/-- **`switch (x) { case x = 5: … }` takes the clause when `x` is zero.**  The expression of the
clause changes the variable, and the comparison reads the variable again. -/
theorem switch_compares_changed_variable :
    let block : CaseBlockNode Bool := ⟨[.other true], false, []⟩
    let bodies : Bodies Unit := ⟨fun _ => [()], []⟩
    let zero : Value Double Empty := .primitive (.number (.finite 0))
    let five : Value Double Empty := .primitive (.number (.finite 5))
    outcome (executeSwitch assignFive (.inVariable false ())
        (emitBytecodeForBlock 0 (fun _ => 2) block bodies)) zero = (.ok [()], five) ∧
      outcome (evaluateSwitch assignFive (.inVariable false ()) block bodies) zero =
        (.ok [], five) :=
  ⟨rfl, rfl⟩

end JavaScriptCore.Bytecompiler.Switch
