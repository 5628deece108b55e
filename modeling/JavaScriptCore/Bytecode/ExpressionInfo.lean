/-
# The positions of expressions

`addExpressionInfo` records the position of an expression for the instructions from an offset on,
and `expressionRangeForBytecodeOffset` looks for the last entry at or before an instruction.  An
entry packs the line and the column into 30 bits, or keeps them in a table beside it.

**The offset is stored in 25 bits without a check**, so the search goes wrong as soon as an offset
does not fit (`expressionInfo_roundTrips_iff`).
-/
import Mathlib.Data.List.Forall2
import Mathlib.Data.List.Induction
import Mathlib.Data.Nat.Bitwise
import Mathlib.Tactic.SplitIfs

namespace JavaScriptCore.Bytecode

open List

/-! ## 1. Entries -/

inductive PositionMode where
  | fatLineMode
  | fatColumnMode
  | fatLineAndColumnMode

structure FatPosition where
  line : Nat
  column : Nat
  deriving DecidableEq

/-- The fields have 25, 7, 25, 7, 2 and 30 bits. -/
structure ExpressionRangeInfo where
  instructionOffset : Nat
  startOffset : Nat
  divotPoint : Nat
  endOffset : Nat
  mode : PositionMode
  position : Nat

/-- The arguments of `addExpressionInfo`. -/
structure ExpressionInfo where
  instructionOffset : Nat
  divot : Int := 0
  startOffset : Int := 0
  endOffset : Int := 0
  position : FatPosition

def MaxOffset : Int := 2 ^ 7 - 1
def MaxDivot : Int := 2 ^ 25 - 1
def MaxFatLineModeLine : Nat := 2 ^ 22 - 1
def MaxFatLineModeColumn : Nat := 2 ^ 8 - 1
def MaxFatColumnModeLine : Nat := 2 ^ 8 - 1
def MaxFatColumnModeColumn : Nat := 2 ^ 22 - 1

def encode (lineBits columnBits : Nat) (p : FatPosition) : Nat :=
  (p.line &&& (2 ^ lineBits - 1)) <<< columnBits ||| p.column &&& (2 ^ columnBits - 1)

def decode (lineBits columnBits position : Nat) : FatPosition :=
  ⟨position >>> columnBits &&& (2 ^ lineBits - 1), position &&& (2 ^ columnBits - 1)⟩

def encodeFatLineMode : FatPosition → Nat := encode 22 8
def decodeFatLineMode : Nat → FatPosition := decode 22 8
def encodeFatColumnMode : FatPosition → Nat := encode 8 22
def decodeFatColumnMode : Nat → FatPosition := decode 8 22

structure UnlinkedCodeBlock where
  m_expressionInfo : List ExpressionRangeInfo := []
  m_expressionInfoFatPositions : List FatPosition := []

variable (block : UnlinkedCodeBlock)

/-- The mode and the position of an entry, and what is added to the table. -/
def encodePosition (p : FatPosition) : PositionMode × Nat × List FatPosition :=
  if p.line ≤ MaxFatLineModeLine ∧ p.column ≤ MaxFatLineModeColumn then
    (.fatLineMode, encodeFatLineMode p, [])
  else if p.line ≤ MaxFatColumnModeLine ∧ p.column ≤ MaxFatColumnModeColumn then
    (.fatColumnMode, encodeFatColumnMode p, [])
  else (.fatLineAndColumnMode, block.m_expressionInfoFatPositions.length, [p])

def addExpressionInfo (e : ExpressionInfo) : UnlinkedCodeBlock :=
  let (divot, startOffset, endOffset) :=
    if e.divot > MaxDivot then (0, 0, 0)
    else if e.startOffset > MaxOffset then (e.divot, 0, 0)
    else if e.endOffset > MaxOffset then (e.divot, e.startOffset, 0)
    else (e.divot, e.startOffset, e.endOffset)
  let (mode, position, fat) := encodePosition block e.position
  { m_expressionInfo := block.m_expressionInfo ++ [{
      instructionOffset := e.instructionOffset % 2 ^ 25
      startOffset := (startOffset % 2 ^ 7).toNat
      divotPoint := (divot % 2 ^ 25).toNat
      endOffset := (endOffset % 2 ^ 7).toNat
      mode := mode
      position := position % 2 ^ 30 }]
    m_expressionInfoFatPositions := block.m_expressionInfoFatPositions ++ fat }

/-- The line and the column that are stored; `none` is an access outside the table. -/
def decodePosition (fat : List FatPosition) (mode : PositionMode) (position : Nat) :
    Option FatPosition :=
  match mode with
  | .fatLineMode => decodeFatLineMode position
  | .fatColumnMode => decodeFatColumnMode position
  | .fatLineAndColumnMode => fat[position]?

def positionOf (info : ExpressionRangeInfo) : Option FatPosition :=
  decodePosition block.m_expressionInfoFatPositions info.mode info.position

/-- The loop, with a number of turns; `isBefore mid` is the test. -/
def search (isBefore : Nat → Bool) : Nat → Nat → Nat → Nat
  | 0, low, _ => low
  | turns + 1, low, high =>
    if low < high then
      let mid := low + (high - low) / 2
      if isBefore mid then search isBefore turns (mid + 1) high else search isBefore turns low mid
    else low

/-- `expressionInfo[mid].instructionOffset <= bytecodeOffset`. -/
def isBefore (bytecodeOffset mid : Nat) : Bool :=
  block.m_expressionInfo[mid]?.any (·.instructionOffset ≤ bytecodeOffset)

/-- The divot, the two offsets and the position. -/
def expressionRangeForBytecodeOffset (bytecodeOffset : Nat) :
    Option (Nat × Nat × Nat × FatPosition) :=
  let size := block.m_expressionInfo.length
  let low := search (isBefore block bytecodeOffset) size 0 size
  match block.m_expressionInfo[max low 1 - 1]? with
  | none => some (0, 0, 0, ⟨0, 0⟩)
  | some info =>
    (positionOf block info).map (info.divotPoint, info.startOffset, info.endOffset, ·)

def record (entries : List ExpressionInfo) : UnlinkedCodeBlock := entries.foldl addExpressionInfo {}

/-! ## 2. What is stored -/

theorem decode_encode {l c : Nat} {p : FatPosition} (hl : p.line < 2 ^ l) (hc : p.column < 2 ^ c) :
    decode l c (encode l c p) = p ∧ encode l c p < 2 ^ (l + c) := by
  have hpack : encode l c p = 2 ^ c * p.line + p.column := by
    rw [encode, Nat.and_two_pow_sub_one_of_lt_two_pow hl, Nat.and_two_pow_sub_one_of_lt_two_pow hc,
      ← Nat.shiftLeft_add_eq_or_of_lt hc, Nat.shiftLeft_eq, Nat.mul_comm]
  rw [hpack, decode, Nat.shiftRight_eq_div_pow, Nat.mul_add_div (Nat.two_pow_pos c),
    Nat.div_eq_of_lt hc, Nat.add_zero, Nat.and_two_pow_sub_one_of_lt_two_pow hl,
    Nat.and_two_pow_sub_one_eq_mod, Nat.mul_add_mod, Nat.mod_eq_of_lt hc]
  refine ⟨rfl, ?_⟩
  calc 2 ^ c * p.line + p.column < 2 ^ c * (p.line + 1) := Nat.add_lt_add_left hc _
    _ ≤ 2 ^ c * 2 ^ l := Nat.mul_le_mul_left _ hl
    _ = 2 ^ (l + c) := by rw [Nat.add_comm, Nat.pow_add]

/-- The entry is stored, with what fits into 25 bits of its offset. -/
def Stores (e : ExpressionInfo) (info : ExpressionRangeInfo) : Prop :=
  info.instructionOffset = e.instructionOffset % 2 ^ 25 ∧ positionOf block info = some e.position

/-- **The block keeps the entries.** -/
def Keeps (entries : List ExpressionInfo) : Prop :=
  block.m_expressionInfoFatPositions.length ≤ entries.length ∧
    Forall₂ (Stores block) entries block.m_expressionInfo

variable {block} {entries : List ExpressionInfo} {e : ExpressionInfo}

theorem decodePosition_append {fat more : List FatPosition} {mode : PositionMode} {position : Nat}
    {p : FatPosition} (h : decodePosition fat mode position = some p) :
    decodePosition (fat ++ more) mode position = some p := by
  cases mode with
  | fatLineAndColumnMode =>
    obtain ⟨hlt, -⟩ := List.getElem?_eq_some_iff.1 h
    exact (getElem?_append_left hlt).trans h
  | _ => exact h

theorem encodePosition_spec {p : FatPosition}
    (hsize : block.m_expressionInfoFatPositions.length < 2 ^ 30) :
    ∃ mode position fat, encodePosition block p = (mode, position, fat) ∧ fat.length ≤ 1 ∧
      position < 2 ^ 30 ∧
      decodePosition (block.m_expressionInfoFatPositions ++ fat) mode position = some p := by
  rw [encodePosition, MaxFatLineModeLine, MaxFatLineModeColumn, MaxFatColumnModeLine,
    MaxFatColumnModeColumn]
  by_cases hline : p.line ≤ 2 ^ 22 - 1 ∧ p.column ≤ 2 ^ 8 - 1
  · obtain ⟨hdecode, hlt⟩ := decode_encode (p := p) (l := 22) (c := 8) (by omega) (by omega)
    exact ⟨_, _, _, if_pos hline, Nat.zero_le 1, hlt, congrArg some hdecode⟩
  by_cases hcolumn : p.line ≤ 2 ^ 8 - 1 ∧ p.column ≤ 2 ^ 22 - 1
  · obtain ⟨hdecode, hlt⟩ := decode_encode (p := p) (l := 8) (c := 22) (by omega) (by omega)
    exact ⟨_, _, _, (if_neg hline).trans (if_pos hcolumn), Nat.zero_le 1, hlt,
      congrArg some hdecode⟩
  · exact ⟨_, _, _, (if_neg hline).trans (if_neg hcolumn), Nat.le_refl 1, hsize,
      by simp [decodePosition]⟩

theorem Keeps.add (h : Keeps block entries) (hsize : entries.length < 2 ^ 30) :
    Keeps (addExpressionInfo block e) (entries ++ [e]) := by
  obtain ⟨hfat, hkeeps⟩ := h
  obtain ⟨mode, position, fat, hencode, hlength, hlt, hdecode⟩ :=
    encodePosition_spec (p := e.position) (hfat.trans_lt hsize)
  simp only [Keeps, addExpressionInfo, hencode, length_append]
  refine ⟨Nat.add_le_add hfat hlength, rel_append ?_ (.cons ⟨rfl, ?_⟩ .nil)⟩
  · exact hkeeps.imp fun _ _ h => ⟨h.1, decodePosition_append h.2⟩
  · rw [positionOf, Nat.mod_eq_of_lt hlt]
    exact hdecode

/-- `Vector` crashes before it holds as many entries. -/
theorem keeps_record (hsize : entries.length < 2 ^ 30) : Keeps (record entries) entries := by
  induction entries using reverseRecOn with
  | nil => exact ⟨Nat.le_refl 0, .nil⟩
  | append_singleton entries e ih =>
    rw [length_append] at hsize
    rw [record, foldl_append]
    exact (ih (by omega)).add (by omega)

theorem Keeps.stores_getElem (h : Keeps block entries) {i : Nat} (hi : i < entries.length) :
    ∃ info, block.m_expressionInfo[i]? = some info ∧ Stores block entries[i] info := by
  obtain ⟨hlength, hget⟩ := forall₂_iff_get.1 h.2
  exact ⟨_, getElem?_eq_getElem (hlength ▸ hi), hget i hi (hlength ▸ hi)⟩

theorem Keeps.isBefore_eq (h : Keeps block entries) (b : Nat) {i : Nat} (hi : i < entries.length) :
    isBefore block b i = decide (entries[i].instructionOffset % 2 ^ 25 ≤ b) := by
  obtain ⟨info, hinfo, hoffset, -⟩ := h.stores_getElem hi
  rw [isBefore, hinfo, Option.any_some, hoffset]

/-! ## 3. The search -/

/-- Where the indices that pass the test come first, the search finds their number. -/
theorem search_eq {isBefore : Nat → Bool} {n size : Nat} (hbefore : ∀ i < n, isBefore i = true)
    (hafter : ∀ i, n ≤ i → i < size → isBefore i = false) (turns : Nat) :
    ∀ low high, low ≤ n → n ≤ high → high ≤ size → high ≤ low + turns →
      search isBefore turns low high = n := by
  induction turns with
  | zero =>
    intro low high hlow hhigh _ hturns
    rw [search]
    omega
  | succ turns ih =>
    intro low high hlow hhigh hsize hturns
    rw [search]
    split_ifs with hlt
    · dsimp only
      rcases Nat.lt_or_ge (low + (high - low) / 2) n with hmid | hmid
      · rw [hbefore _ hmid]
        exact ih _ _ hmid hhigh hsize (by omega)
      · rw [hafter _ hmid (by omega)]
        exact ih _ _ hlow hmid (by omega) (by omega)
    · omega

/-- **The lookup finds the last of the entries whose stored offsets are not behind.** -/
theorem range_of_split (before after : List ExpressionInfo) {b : Nat}
    (hsize : (before ++ after).length < 2 ^ 30)
    (hbefore : ∀ e ∈ before, e.instructionOffset % 2 ^ 25 ≤ b)
    (hafter : ∀ e ∈ after, b < e.instructionOffset % 2 ^ 25) (he : before.getLast? = some e) :
    (expressionRangeForBytecodeOffset (record (before ++ after)) b).map (·.2.2.2)
      = some e.position := by
  have hkeeps := keeps_record hsize
  generalize record (before ++ after) = block at hkeeps
  have hlength := hkeeps.2.length_eq
  have hfound : search (isBefore block b) block.m_expressionInfo.length 0
      block.m_expressionInfo.length = before.length := by
    rw [← hlength]
    refine search_eq (fun i hi => ?_) (fun i hi hi' => ?_) _ _ _ (Nat.zero_le _) ?_
      (Nat.le_refl _) (Nat.le_add_left _ _)
    · rw [hkeeps.isBefore_eq b (by rw [length_append]; omega), getElem_append_left hi]
      exact decide_eq_true (hbefore _ (getElem_mem hi))
    · rw [hkeeps.isBefore_eq b hi', getElem_append_right hi]
      exact decide_eq_false (Nat.not_le.2 (hafter _ (getElem_mem _)))
    · rw [length_append]
      omega
  obtain ⟨init, rfl⟩ := getLast?_eq_some_iff.1 he
  obtain ⟨info, hinfo, -, hposition⟩ := hkeeps.stores_getElem (i := init.length) (by simp)
  have hindex : max (init ++ [e]).length 1 - 1 = init.length := by simp
  simp only [expressionRangeForBytecodeOffset, hfound, hindex, hinfo]
  simp [hposition]

/-- The entries at or before an offset come first. -/
theorem exists_split (h : entries.Pairwise (·.instructionOffset ≤ ·.instructionOffset)) (b : Nat) :
    ∃ before after, entries = before ++ after ∧
      entries.filter (·.instructionOffset ≤ b) = before ∧ ∀ e ∈ after, b < e.instructionOffset := by
  induction h with
  | nil => exact ⟨[], [], rfl, rfl, nofun⟩
  | @cons e entries hle _ ih =>
    by_cases he : e.instructionOffset ≤ b
    · obtain ⟨before, after, rfl, hfilter, hafter⟩ := ih
      exact ⟨e :: before, after, rfl, by simp [he, hfilter], hafter⟩
    · have hafter (e' : ExpressionInfo) (he' : e' ∈ e :: entries) : b < e'.instructionOffset := by
        rcases mem_cons.1 he' with rfl | he'
        · omega
        · exact Nat.lt_of_lt_of_le (Nat.not_le.1 he) (hle e' he')
      refine ⟨[], e :: entries, rfl, filter_eq_nil_iff.2 fun e' he' => ?_, hafter⟩
      simpa using hafter e' he'

/-! ## 4. Offsets that do not fit -/

/-- Every stored offset is at or before `b`: the lookup finds the last entry. -/
theorem range_of_large (entries : List ExpressionInfo) {b : Nat} (hsize : entries.length < 2 ^ 30)
    (hb : 2 ^ 25 - 1 ≤ b) (he : entries.getLast? = some e) :
    (expressionRangeForBytecodeOffset (record entries) b).map (·.2.2.2) = some e.position := by
  have hstored (e : ExpressionInfo) (_ : e ∈ entries) : e.instructionOffset % 2 ^ 25 ≤ b :=
    (Nat.le_sub_one_of_lt (Nat.mod_lt _ (Nat.two_pow_pos 25))).trans hb
  have hrange := range_of_split entries [] (by rwa [append_nil]) hstored nofun he
  rwa [append_nil] at hrange

/-- With an offset that does not fit, the lookup finds the last entry for an instruction before
it. -/
theorem exists_wrong {offsets : List Nat} (hsorted : offsets.Pairwise (· ≤ ·))
    (hsize : offsets.length < 2 ^ 30) {b o o' : Nat} (hb : 2 ^ 25 - 1 ≤ b) (ho : o ∈ offsets)
    (hle : o ≤ b) (ho' : o' ∈ offsets) (hlt : b < o') :
    ∃ entries : List ExpressionInfo, entries.map (·.instructionOffset) = offsets ∧ ∃ e,
      (entries.filter (·.instructionOffset ≤ b)).getLast? = some e ∧
      (expressionRangeForBytecodeOffset (record entries) b).map (·.2.2.2) ≠ some e.position := by
  -- The entries behind `b` are on another line than those before it.
  let entry (o : Nat) : ExpressionInfo :=
    { instructionOffset := o, position := ⟨if o ≤ b then 0 else 1, 0⟩ }
  refine ⟨offsets.map entry, ?_, ?_⟩
  · rw [map_map]
    exact map_id _
  obtain ⟨e, he⟩ : ∃ e,
      ((offsets.map entry).filter (·.instructionOffset ≤ b)).getLast? = some e :=
    Option.isSome_iff_exists.1 (by simpa [entry] using ⟨o, ho, hle⟩)
  refine ⟨e, he, ?_⟩
  obtain ⟨hmem, hbefore⟩ := mem_filter.1 (mem_of_getLast? he)
  obtain ⟨k, -, rfl⟩ := mem_map.1 hmem
  obtain rfl | ⟨init, last, rfl⟩ := eq_nil_or_concat' offsets
  · cases ho
  have hlast : b < last := by
    rcases mem_append.1 ho' with h | h
    · exact Nat.lt_of_lt_of_le hlt ((pairwise_append.1 hsorted).2.2 o' h last mem_cons_self)
    · exact mem_singleton.1 h ▸ hlt
  have hk : k ≤ b := by simpa [entry] using hbefore
  rw [range_of_large (e := entry last) _ (by simpa using hsize) hb (by simp)]
  simp [entry, hk, Nat.not_le.2 hlast]

/-- Two offsets differ and one does not fit: some instruction behind `2 ^ 25 - 2` lies between
two of them. -/
theorem exists_between {offsets : List Nat} {large o o' : Nat} (hlarge : large ∈ offsets)
    (hle : 2 ^ 25 ≤ large) (ho : o ∈ offsets) (ho' : o' ∈ offsets) (hne : o ≠ o') :
    ∃ b, ∃ x ∈ offsets, ∃ y ∈ offsets, 2 ^ 25 - 1 ≤ b ∧ x ≤ b ∧ b < y := by
  rcases Nat.lt_or_ge o (2 ^ 25) with hlt | hge
  · exact ⟨2 ^ 25 - 1, o, ho, large, hlarge, by omega⟩
  rcases Nat.lt_or_gt_of_ne hne with hlt | hgt
  · exact ⟨o, o, ho, o', ho', by omega⟩
  · exact ⟨max o' (2 ^ 25 - 1), o', ho', o, ho, by omega⟩

theorem range_of_fit (hsorted : entries.Pairwise (·.instructionOffset ≤ ·.instructionOffset))
    (hsize : entries.length < 2 ^ 30)
    (hfit : (∀ e ∈ entries, e.instructionOffset < 2 ^ 25) ∨
      ∀ e ∈ entries, ∀ e' ∈ entries, e.instructionOffset = e'.instructionOffset)
    {b : Nat} (he : (entries.filter (·.instructionOffset ≤ b)).getLast? = some e) :
    (expressionRangeForBytecodeOffset (record entries) b).map (·.2.2.2) = some e.position := by
  obtain ⟨before, after, rfl, hfilter, hafter⟩ := exists_split hsorted b
  have hbefore (e : ExpressionInfo) (h : e ∈ before) : e.instructionOffset ≤ b := by
    rw [← hfilter] at h
    simpa using (mem_filter.1 h).2
  rw [hfilter] at he
  refine range_of_split before after hsize
    (fun e h => (Nat.mod_le _ _).trans (hbefore e h)) (fun e' he' => ?_) he
  have hbehind := hafter e' he'
  rcases hfit with hfit | hsame
  · rwa [Nat.mod_eq_of_lt (hfit e' (mem_append_right _ he'))]
  · have hmem := mem_of_getLast? he
    have := hsame e (mem_append_left _ hmem) e' (mem_append_right _ he')
    have := hbefore e hmem
    omega

/-- **Positions round-trip exactly if the offsets fit into 25 bits**, or are all the same.  An entry
takes 12 bytes, so a `Vector` crashes before it holds more than the last hypothesis allows. -/
theorem expressionInfo_roundTrips_iff (offsets : List Nat) (hsorted : offsets.Pairwise (· ≤ ·))
    (hunsigned : ∀ o ∈ offsets, o < 2 ^ 32) (hsize : 12 * offsets.length < 2 ^ 32) :
    (∀ entries : List ExpressionInfo, entries.map (·.instructionOffset) = offsets →
        ∀ b < 2 ^ 32, ∀ e, (entries.filter (·.instructionOffset ≤ b)).getLast? = some e →
        (expressionRangeForBytecodeOffset (record entries) b).map (·.2.2.2) = some e.position) ↔
      (∀ o ∈ offsets, o < 2 ^ 25) ∨ ∀ o ∈ offsets, ∀ o' ∈ offsets, o = o' := by
  constructor
  · intro h
    by_contra hnot
    simp only [not_or, not_forall, exists_prop, Nat.not_lt] at hnot
    obtain ⟨⟨large, hlarge, hle⟩, o, ho, o', ho', hne⟩ := hnot
    obtain ⟨b, x, hx, y, hy, hb, hxb, hby⟩ := exists_between hlarge hle ho ho' hne
    obtain ⟨entries, hentries, e, he, hwrong⟩ :=
      exists_wrong hsorted (by omega) hb hx hxb hy hby
    exact hwrong (h entries hentries b (hby.trans (hunsigned y hy)) e he)
  · rintro hfit entries rfl b _ e he
    simp only [forall_mem_map] at hfit
    rw [length_map] at hsize
    exact range_of_fit (pairwise_map.1 hsorted) (by omega) hfit he

theorem expressionInfo_roundTrips_two :
    (expressionRangeForBytecodeOffset
      (record [⟨0, 3, 1, 1, ⟨1, 5⟩⟩, ⟨8, 9, 1, 1, ⟨2, 300⟩⟩]) 7).map (·.2.2.2) = some ⟨1, 5⟩ :=
  (expressionInfo_roundTrips_iff [0, 8] (by decide) (by decide) (by decide)).2 (.inl (by decide))
    [⟨0, 3, 1, 1, ⟨1, 5⟩⟩, ⟨8, 9, 1, 1, ⟨2, 300⟩⟩] rfl 7 (by decide) _ rfl

/-- The second offset is stored as `0`. -/
theorem expressionInfo_wraps :
    expressionRangeForBytecodeOffset
      (record [⟨0, 3, 1, 1, ⟨1, 5⟩⟩, ⟨2 ^ 25, 9, 1, 1, ⟨2, 6⟩⟩]) 7 = some (9, 1, 1, ⟨2, 6⟩) := by
  decide

end JavaScriptCore.Bytecode
