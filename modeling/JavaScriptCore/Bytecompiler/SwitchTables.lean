/-
# The jump tables of switch statements

Two things about the tables, apart from where the labels are.  What `tryTableSwitch` knows when it
chooses a table: the expressions of all clauses are literals of one kind, and for the integers and
the characters the smallest and the largest are right and at most a thousand apart.  And what a
table answers: the offset of the first clause with the value that is looked up.
-/
import Mathlib.Data.List.GetD
import JavaScriptCore.Bytecompiler.Switch

namespace JavaScriptCore.Bytecompiler.Switch

open Operations JavaScriptCore.Runtime List SimpleJumpTable Scan

variable {Leaf : Type}

/-! ## 1. Scanning the clauses -/

/-- The value is an `int32_t`. -/
def IsInt32 (i : Int) : Prop := -2 ^ 31 ≤ i ∧ i < 2 ^ 31

theorem isInt32_smallest : IsInt32 (-2 ^ 31) := ⟨by decide, by decide⟩

theorem isInt32_largest : IsInt32 (2 ^ 31 - 1) := ⟨by decide, by decide⟩

theorem isInt32_staticCastInt (d : Double) : IsInt32 (staticCastInt d) := by
  cases d with
  | finite q =>
    simp only [staticCastInt]
    generalize (if q < 0 then q.ceil else q.floor) = i
    split
    · next h => exact h
    · exact isInt32_smallest
  | negZero => exact ⟨by decide, by decide⟩
  | nan | infinity n => exact isInt32_smallest

theorem isInt32_toNat (c : UInt16) : IsInt32 c.toNat := by
  have h := c.toNat_lt
  constructor <;> omega

/-- The clause is the integer `i`. -/
def IsInteger (e : ClauseExpression Leaf) (i : Int) : Prop :=
  ∃ value : Double, e = .number value ∧ value.eqInt i = true ∧ staticCastInt value = i

/-- The clause is a string. -/
def IsStringClause (e : ClauseExpression Leaf) : Prop := ∃ value, e = .string value

/-- The clause is the character `c`. -/
def IsCharacter (e : ClauseExpression Leaf) (c : UInt16) : Prop := e = .string [c]

/-- **What holds while the clauses are scanned**, as long as a table is still possible. -/
structure ScanOk (s : Scan Leaf) : Prop where
  int32 : IsInt32 s.minNum ∧ IsInt32 s.maxNum
  unset : s.typeForTable = .unset → s.literalVector = []
  number : s.typeForTable = .number →
    ∀ e ∈ s.literalVector, ∃ i, IsInteger e i ∧ s.minNum ≤ i ∧ i ≤ s.maxNum
  string : s.typeForTable = .string → ∀ e ∈ s.literalVector, IsStringClause e
  character : s.typeForTable = .string → s.singleCharacterSwitch = true →
    ∀ e ∈ s.literalVector, ∃ c : UInt16, IsCharacter e c ∧ s.minNum ≤ c.toNat ∧ c.toNat ≤ s.maxNum

theorem scanOk_start : ScanOk (Scan.start : Scan Leaf) where
  int32 := ⟨isInt32_largest, isInt32_smallest⟩
  unset _ := rfl
  number h := nomatch h
  string h := nomatch h
  character h := nomatch h

section Note

variable (s : Scan Leaf) (i : Int)

/-- The range takes the integer in, and keeps what was in it. -/
theorem note_range {j : Int} (h : j = i ∨ s.minNum ≤ j ∧ j ≤ s.maxNum) :
    (s.note i).minNum ≤ j ∧ j ≤ (s.note i).maxNum := by
  simp only [note]
  constructor <;> split <;> omega

theorem isInt32_note {s : Scan Leaf} {i : Int} (hs : IsInt32 s.minNum ∧ IsInt32 s.maxNum)
    (hi : IsInt32 i) :
    IsInt32 (s.note i).minNum ∧ IsInt32 (s.note i).maxNum := by
  simp only [note]
  constructor <;> split
  · exact hi
  · exact hs.1
  · exact hi
  · exact hs.2

end Note

/-- A kind without other bits is the one that is asked for, or none was set yet. -/
theorem hasOther_eq_false {k kind : SwitchKind} (hkind : kind = .number ∨ kind = .string)
    (h : k.hasOther kind = false) : k = .unset ∨ k = kind := by
  rcases hkind with rfl | rfl <;> cases k <;> simp_all [SwitchKind.hasOther, SwitchKind.bits]

variable {s : Scan Leaf}

/-- What holds of the clauses so far, if there are any, and of the next one. -/
theorem ScanOk.forall_append (h : ScanOk s) {kind : SwitchKind} {e : ClauseExpression Leaf}
    {P : ClauseExpression Leaf → Prop} (hk : s.typeForTable = .unset ∨ s.typeForTable = kind)
    (he : P e) (hold : s.typeForTable = kind → ∀ e ∈ s.literalVector, P e) :
    ∀ e' ∈ s.literalVector ++ [e], P e' := by
  intro e' he'
  rcases mem_append.mp he' with he' | he'
  · rcases hk with hk | hk
    · rw [h.unset hk] at he'
      exact absurd he' not_mem_nil
    · exact hold hk e' he'
  · rwa [mem_singleton.mp he']

/-- The scan after an integer. -/
theorem ScanOk.number_step (h : ScanOk s) {e : ClauseExpression Leaf} {i : Int} (he : IsInteger e i)
    (hi : IsInt32 i) (hk : s.typeForTable = .unset ∨ s.typeForTable = .number) :
    ScanOk { (note { s with literalVector := s.literalVector ++ [e] } i) with
      typeForTable := .number } where
  int32 := isInt32_note h.int32 hi
  unset hk' := nomatch hk'
  number _ := by
    refine h.forall_append hk ⟨i, he, note_range _ i (.inl rfl)⟩ fun hk e' hold => ?_
    obtain ⟨j, hj, hrange⟩ := h.number hk e' hold
    exact ⟨j, hj, note_range _ i (.inr hrange)⟩
  string hk' := nomatch hk'
  character hk' := nomatch hk'

/-- The scan after a string that is not a single character, or after one that followed such a
string. -/
theorem ScanOk.string_step (h : ScanOk s) (value : List UInt16)
    (hk : s.typeForTable = .unset ∨ s.typeForTable = .string) :
    ScanOk { s with
      literalVector := s.literalVector ++ [.string value]
      singleCharacterSwitch := false
      typeForTable := .string } where
  int32 := h.int32
  unset hk' := nomatch hk'
  number hk' := nomatch hk'
  string _ := h.forall_append hk ⟨value, rfl⟩ h.string
  character _ hsingle := nomatch hsingle

/-- The scan after a single character, when all strings so far were. -/
theorem ScanOk.character_step (h : ScanOk s) (c : UInt16)
    (hk : s.typeForTable = .unset ∨ s.typeForTable = .string)
    (hsingle : s.singleCharacterSwitch = true) :
    ScanOk { (note { s with literalVector := s.literalVector ++ [.string [c]] } c.toNat) with
      singleCharacterSwitch := true
      typeForTable := .string } where
  int32 := isInt32_note h.int32 (isInt32_toNat c)
  unset hk' := nomatch hk'
  number hk' := nomatch hk'
  string _ := h.forall_append hk ⟨[c], rfl⟩ h.string
  character _ _ := by
    refine h.forall_append hk ⟨c, rfl, note_range _ _ (.inl rfl)⟩ fun hk e hold => ?_
    obtain ⟨c', hc', hrange⟩ := h.character hk hsingle e hold
    exact ⟨c', hc', note_range _ _ (.inr hrange)⟩

/-- **The whole scan.**  Unless the kinds are mixed, all clauses have been looked at. -/
theorem processClauseList_spec (list : List (ClauseExpression Leaf)) (s : Scan Leaf) (h : ScanOk s)
    (hresult : (processClauseList list s).typeForTable ≠ .neither) :
    ScanOk (processClauseList list s) ∧
      (processClauseList list s).literalVector = s.literalVector ++ list := by
  induction list generalizing s with
  | nil => exact ⟨h, (append_nil _).symm⟩
  | cons e list ih =>
    have happend : ∀ s' : Scan Leaf, s'.literalVector = s.literalVector ++ [e] → ScanOk s' →
        (processClauseList list s').typeForTable ≠ .neither →
        ScanOk (processClauseList list s') ∧
          (processClauseList list s').literalVector = s.literalVector ++ (e :: list) := by
      intro s' hs' hok hne
      obtain ⟨hok', hvector⟩ := ih s' hok hne
      exact ⟨hok', by rw [hvector, hs', append_assoc, singleton_append]⟩
    cases e with
    | number value =>
      rw [processClauseList] at hresult ⊢
      split at hresult
      · exact absurd rfl hresult
      · next hcond =>
        rw [if_neg hcond]
        rw [Bool.or_eq_true, not_or, Bool.not_eq_true, Bool.not_eq_true,
          Bool.not_eq_false'] at hcond
        refine happend _ rfl (h.number_step ⟨value, rfl, hcond.2,
          rfl⟩ (isInt32_staticCastInt value) ?_)
          hresult
        exact hasOther_eq_false (Or.inl rfl) hcond.1
    | string value =>
      rw [processClauseList] at hresult ⊢
      split at hresult
      · exact absurd rfl hresult
      · next hcond =>
        rw [if_neg hcond]
        have hk := hasOther_eq_false (Or.inr rfl) (Bool.not_eq_true _ ▸ hcond)
        cases hsingle : s.singleCharacterSwitch && value.length == 1 with
        | false =>
          simp only [hsingle, Bool.false_eq_true, if_false] at hresult ⊢
          exact happend _ rfl (h.string_step value hk) hresult
        | true =>
          simp only [hsingle, if_true] at hresult ⊢
          rw [Bool.and_eq_true, beq_iff_eq, length_eq_one_iff] at hsingle
          obtain ⟨hs, c, rfl⟩ := hsingle
          exact happend _ rfl (h.character_step c hk hs) hresult
    | other l =>
      rw [processClauseList] at hresult
      exact absurd rfl hresult

/-! ## 2. The choice of a table -/

/-- A dense range is short.  The difference of two `int32_t` may overflow and become negative; as a
`size_t` it is then so large that no number of clauses makes it dense. -/
theorem range_of_isDense (hs : ScanOk s) (hpos : 0 < s.literalVector.length)
    (hlength : s.literalVector.length < 2 ^ 32) (h : s.isDense = true) : s.minNum ≤ s.maxNum ∧
    s.maxNum - s.minNum ≤ 1000 := by
  simp only [isDense, decide_eq_true_eq] at h
  obtain ⟨hle, hrange, hdense⟩ := h
  refine ⟨hle, ?_⟩
  obtain ⟨⟨hmin, hmin'⟩, hmax, hmax'⟩ := hs.int32
  by_contra hlarge
  have hnegative : (s.maxNum - s.minNum).bmod (2 ^ 32) = s.maxNum - s.minNum - 2 ^ 32 := by
    rw [Int.bmod_def] at hrange ⊢
    split at hrange <;> omega
  rw [hnegative] at hdense
  rw [Nat.div_lt_iff_lt_mul hpos] at hdense
  omega

/-- Once the kinds are mixed, they stay mixed. -/
theorem processClauseList_neither (list : List (ClauseExpression Leaf))
    (h : s.typeForTable = .neither) : (processClauseList list s).typeForTable = .neither := by
  cases list with
  | nil => exact h
  | cons e list =>
    cases e with
    | number value | string value =>
      rw [processClauseList, if_pos]
      rw [h]
      rfl
    | other l => rw [processClauseList]

/-- **What is known when a table is chosen.** -/
structure Chosen (block : CaseBlockNode Leaf) (switchType : SwitchType) (scan : Scan Leaf) :
    Prop where
  ok : ScanOk scan
  vector : scan.literalVector = block.clauses
  minimum : tableSwitchMinimum ≤ block.clauses.length
  immediate : switchType = .immediate → scan.typeForTable = .number ∧ scan.isDense = true
  character : switchType = .character →
    scan.typeForTable = .string ∧ scan.singleCharacterSwitch = true ∧ scan.isDense = true
  string : switchType = .string → scan.typeForTable = .string

theorem tryTableSwitch_chosen (block : CaseBlockNode Leaf) (h : (tryTableSwitch block).1 ≠ .none) :
    Chosen block (tryTableSwitch block).1 (tryTableSwitch block).2 := by
  rw [tryTableSwitch] at h ⊢
  split at h
  · exact absurd rfl h
  · next hminimum =>
    rw [if_neg hminimum]
    generalize hscan : processClauseList block.list2 (processClauseList block.list1 start) = scan
      at h ⊢
    have hspec : scan.typeForTable ≠ .neither → ScanOk scan ∧
        scan.literalVector = block.clauses := by
      intro hne
      subst hscan
      have hfirst : (processClauseList block.list1 start).typeForTable ≠ .neither :=
        fun hn => hne (processClauseList_neither _ hn)
      obtain ⟨hok1, hvector1⟩ := processClauseList_spec block.list1 _ scanOk_start hfirst
      obtain ⟨hok2, hvector2⟩ := processClauseList_spec block.list2 _ hok1 hne
      refine ⟨hok2, ?_⟩
      rw [hvector2, hvector1]
      rfl
    cases htype : scan.typeForTable with
    | unset | neither =>
      simp only [htype] at h
      exact absurd rfl h
    | number =>
      simp only [htype] at h ⊢
      obtain ⟨hok, hvector⟩ := hspec (by rw [htype]; exact nofun)
      cases hdense : scan.isDense with
      | false =>
        simp only [hdense] at h
        exact absurd rfl h
      | true =>
        exact ⟨hok, hvector, Nat.not_lt.mp hminimum, fun _ => ⟨htype, hdense⟩, nofun, nofun⟩
    | string =>
      simp only [htype] at h ⊢
      obtain ⟨hok, hvector⟩ := hspec (by rw [htype]; exact nofun)
      cases hdense : scan.singleCharacterSwitch && scan.isDense with
      | false =>
        exact ⟨hok, hvector, Nat.not_lt.mp hminimum, nofun, nofun, fun _ => htype⟩
      | true =>
        rw [Bool.and_eq_true] at hdense
        exact ⟨hok, hvector, Nat.not_lt.mp hminimum, nofun, fun _ => ⟨htype, hdense⟩, nofun⟩

/-- The range of a chosen table is short. -/
theorem range_of_chosen {block : CaseBlockNode Leaf} {switchType : SwitchType} {scan : Scan Leaf}
    (hlength : block.clauses.length < 2 ^ 32) (h : Chosen block switchType scan)
    (hdense : scan.isDense = true) : scan.minNum ≤ scan.maxNum ∧
    scan.maxNum - scan.minNum ≤ 1000 := by
  have hminimum := h.minimum
  rw [← h.vector] at hlength hminimum
  exact range_of_isDense h.ok (Nat.lt_of_lt_of_le (by decide) hminimum) hlength hdense

/-! ## 3. Looking a value up -/

/-- The target of the first of the nodes that pass the test. -/
def firstTarget {α : Type} (p : ClauseExpression Leaf → Bool)
    (nodes : List (ClauseExpression Leaf × α)) (defaultTarget : α) : α :=
  ((nodes.find? fun node => p node.1).map Prod.snd).getD defaultTarget

section FirstTarget

variable {α β : Type} {p q : ClauseExpression Leaf → Bool}
  {nodes : List (ClauseExpression Leaf × α)}
  {defaultTarget : α}

theorem firstTarget_cons (node : ClauseExpression Leaf × α) :
    firstTarget p (node :: nodes) defaultTarget
      = if p node.1 then node.2 else firstTarget p nodes defaultTarget := by
  rw [firstTarget, find?_cons]
  cases p node.1 <;> rfl

theorem firstTarget_map (f : α → β) :
    firstTarget p (nodes.map fun node => (node.1, f node.2)) (f defaultTarget)
      = f (firstTarget p nodes defaultTarget) := by
  induction nodes with
  | nil => rfl
  | cons node nodes ih =>
    rw [map_cons, firstTarget_cons, firstTarget_cons, ih]
    split <;> rfl

theorem firstTarget_congr (h : ∀ node ∈ nodes, p node.1 = q node.1) :
    firstTarget p nodes defaultTarget = firstTarget q nodes defaultTarget := by
  induction nodes with
  | nil => rfl
  | cons node nodes ih =>
    rw [firstTarget_cons, firstTarget_cons, h node mem_cons_self,
      ih fun n hn => h n (mem_cons_of_mem _ hn)]

theorem firstTarget_of_none (h : ∀ node ∈ nodes, p node.1 = false) :
    firstTarget p nodes defaultTarget = defaultTarget := by
  induction nodes with
  | nil => rfl
  | cons node nodes ih =>
    rw [firstTarget_cons, h node mem_cons_self, ih fun n hn => h n (mem_cons_of_mem _ hn)]
    rfl

/-- Zero can stand for the default offset, since no label is at the instruction itself. -/
theorem firstTarget_zero {nodes : List (ClauseExpression Leaf × Int)} {defaultOffset : Int}
    (h : ∀ node ∈ nodes, node.2 ≠ 0) :
    (if firstTarget p nodes 0 ≠ 0 then firstTarget p nodes 0 else defaultOffset)
      = firstTarget p nodes defaultOffset := by
  induction nodes with
  | nil => rfl
  | cons node nodes ih =>
    simp only [firstTarget_cons]
    cases p node.1 with
    | true => simp [h node mem_cons_self]
    | false => simpa using ih fun n hn => h n (mem_cons_of_mem _ hn)

end FirstTarget

section

variable (table : SimpleJumpTable)

theorem SimpleJumpTable.length_add (key offset : Int) :
    (table.add key offset).branchOffsets.length = table.branchOffsets.length := by
  rw [add]
  split
  · exact length_set
  · rfl

theorem SimpleJumpTable.min_add (key offset : Int) : (table.add key offset).min = table.min := by
  rw [add]
  split <;> rfl

/-- **`add` keeps the first offset of a key.** -/
theorem SimpleJumpTable.getD_add_self {key : Int} (offset : Int)
    (hkey : key.toNat < table.branchOffsets.length) :
    (table.add key offset).branchOffsets.getD key.toNat 0
      = if table.branchOffsets.getD key.toNat 0 = 0 then offset
        else table.branchOffsets.getD key.toNat 0 := by
  rw [add]
  split
  · simp [getD_eq_getElem?_getD, getElem?_set_self hkey]
  · rfl

theorem SimpleJumpTable.getD_add_of_ne {key : Int} (offset : Int) {k : Nat} (hk : k ≠ key.toNat) :
    (table.add key offset).branchOffsets.getD k 0 = table.branchOffsets.getD k 0 := by
  rw [add]
  split
  · simp [getD_eq_getElem?_getD, getElem?_set_ne (Ne.symm hk)]
  · rfl

end

variable {keyGetter : ClauseExpression Leaf → Int → Int}

/-- What a table holds after more nodes have been added: what it held before, or else the offset of
the first node with the key. -/
theorem getD_foldl_add {min : Int} (nodes : List (ClauseExpression Leaf × Int))
    (table : SimpleJumpTable)
    (hkey : ∀ node ∈ nodes, (keyGetter node.1 min).toNat < table.branchOffsets.length)
    (hoffset : ∀ node ∈ nodes, node.2 ≠ 0) (k : Nat) :
    (nodes.foldl (fun table node => table.add (keyGetter node.1 min) node.2)
      table).branchOffsets.getD k 0
      = if table.branchOffsets.getD k 0 = 0 then
        firstTarget (fun e => (keyGetter e min).toNat = k) nodes 0
        else table.branchOffsets.getD k 0 := by
  induction nodes generalizing table with
  | nil =>
    rw [foldl_nil]
    split
    · next h => rw [h]; rfl
    · rfl
  | cons node nodes ih =>
    have hne := hoffset node mem_cons_self
    rw [foldl_cons, ih _ ?_ (fun n hn => hoffset n (mem_cons_of_mem _ hn))]
    · by_cases hk : k = (keyGetter node.1 min).toNat
      · have hfirst : firstTarget (fun e => (keyGetter e min).toNat = k) (node :: nodes) 0
            = node.2 := by
          rw [firstTarget_cons, if_pos (by simp [hk])]
        rw [hfirst, hk, table.getD_add_self node.2 (hkey node mem_cons_self)]
        by_cases h0 : table.branchOffsets.getD (keyGetter node.1 min).toNat 0 = 0
        · simp only [h0, if_true, if_neg hne]
        · simp only [h0, if_false]
      · have hfirst : firstTarget (fun e => (keyGetter e min).toNat = k) (node :: nodes) 0
            = firstTarget (fun e => (keyGetter e min).toNat = k) nodes 0 := by
          rw [firstTarget_cons, if_neg (by simpa using Ne.symm hk)]
        rw [hfirst, table.getD_add_of_ne node.2 hk]
    · intro n hn
      rw [length_add]
      exact hkey n (mem_cons_of_mem _ hn)

theorem foldl_add_shape {min : Int} (nodes : List (ClauseExpression Leaf × Int))
    (table : SimpleJumpTable) :
    (nodes.foldl (fun table node => table.add (keyGetter node.1 min) node.2) table).min =
      table.min ∧
    (nodes.foldl (fun table node => table.add (keyGetter node.1 min) node.2)
      table).branchOffsets.length
      = table.branchOffsets.length := by
  induction nodes generalizing table with
  | nil => exact ⟨rfl, rfl⟩
  | cons node nodes ih =>
    rw [foldl_cons, (ih _).1, (ih _).2, min_add, length_add]
    exact ⟨rfl, rfl⟩

/-- In a short range the size does not overflow. -/
theorem tableSize_eq {min max : Int} (hle : min ≤ max) (hrange : max - min ≤ 1000) :
    tableSize min max = (max - min + 1).toNat := by
  have hbmod : (max - min + 1).bmod (2 ^ 32) = max - min + 1 := by
    rw [Int.bmod_def]
    split <;> omega
  rw [tableSize, hbmod]
  omega

/-- **A table answers with the first clause of the value.** -/
theorem offsetForValue_prepareJumpTable {min max : Int}
    {nodes : List (ClauseExpression Leaf × Int)} (hle : min ≤ max) (hshort : max - min ≤ 1000)
    (hkey : ∀ node ∈ nodes, 0 ≤ keyGetter node.1 min ∧ keyGetter node.1 min ≤ max - min)
    (hoffset : ∀ node ∈ nodes, node.2 ≠ 0) (value defaultOffset : Int) :
    (prepareJumpTableForSwitch nodes min max keyGetter).offsetForValue value defaultOffset
      = firstTarget (fun e => keyGetter e min = value - min) nodes defaultOffset := by
  have hsize : ∀ node ∈ nodes, (keyGetter node.1 min).toNat <
      (List.replicate (tableSize min max) (0 : Int)).length := by
    intro node hnode
    have h := hkey node hnode
    rw [length_replicate, tableSize_eq hle hshort]
    omega
  obtain ⟨hmin, hlength⟩ : (prepareJumpTableForSwitch nodes min max keyGetter).min = min ∧
      (prepareJumpTableForSwitch nodes min max keyGetter).branchOffsets.length =
        (max - min + 1).toNat := by
    obtain ⟨hmin, hlength⟩ := foldl_add_shape nodes ⟨min, List.replicate (tableSize min max) 0⟩
    exact ⟨hmin, hlength.trans (length_replicate.trans (tableSize_eq hle hshort))⟩
  rw [offsetForValue, hmin, hlength]
  by_cases hrange : value ≥ min ∧ (value - min).toNat < (max - min + 1).toNat
  · rw [if_pos hrange]
    have hcontent : (prepareJumpTableForSwitch nodes min max keyGetter).branchOffsets.getD
        (value - min).toNat 0 = firstTarget (fun e => keyGetter e min = value - min) nodes 0 := by
      rw [prepareJumpTableForSwitch, getD_foldl_add nodes _ hsize hoffset]
      have hzero :
          (List.replicate (tableSize min max) (0 : Int)).getD (value - min).toNat 0 = 0 := by
        rw [tableSize_eq hle hshort, getD_eq_getElem?_getD, getElem?_replicate, if_pos hrange.2]
        rfl
      rw [if_pos hzero]
      refine firstTarget_congr fun node hnode => decide_eq_decide.mpr ?_
      have := hkey node hnode
      omega
    simp only [hcontent]
    exact firstTarget_zero hoffset
  · rw [if_neg hrange]
    refine (firstTarget_of_none fun node hnode => decide_eq_false fun heq => ?_).symm
    have := hkey node hnode
    omega

/-- The clause is the string `s`. -/
def hasText (s : List UInt16) : ClauseExpression Leaf → Bool
  | .string value => value = s
  | _ => false

/-- **The table of the strings likewise.** -/
theorem find_prepareJumpTableForStringSwitch (nodes : List (ClauseExpression Leaf × Int))
    (s : List UInt16) (defaultOffset : Int) :
    ((prepareJumpTableForStringSwitch nodes).find s).getD defaultOffset
      = firstTarget (hasText s) nodes defaultOffset := by
  have hfold : ∀ table : PartialMap (List UInt16) Int, ((nodes.foldl (fun table node =>
        match node.1 with
        | .string value => table.add value node.2
        | _ => table) table).find s).getD defaultOffset
      = (table.find s).getD (firstTarget (hasText s) nodes defaultOffset) := by
    induction nodes with
    | nil => exact fun table => rfl
    | cons node nodes ih =>
      intro table
      rw [foldl_cons, ih, firstTarget_cons]
      cases hnode : node.1 with
      | string value =>
        simp only [hasText, decide_eq_true_eq]
        rw [PartialMap.find_add_or]
        by_cases heq : value = s
        · rw [if_pos heq, if_pos heq.symm]
          cases table.find s <;> rfl
        · rw [if_neg heq, if_neg (Ne.symm heq), Option.or_none]
      | number value | other l => rfl
  exact hfold PartialMap.empty

end JavaScriptCore.Bytecompiler.Switch
