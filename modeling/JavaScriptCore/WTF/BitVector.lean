/-
# Bit vectors

A `BitVector` is a set of natural numbers.  It is one word whose highest bit is a tag, or a pointer
to a chunk of words.  Every binary operation has code of its own for each combination of the two
forms.  Here the form is the constructor, and the inline word comes with a proof that its tag is
set, so that no operation can lose it.

`word v k` is what both forms have in common: the word `k` without the tag, and zero where there is
none.  Each operation is the same operation on all the words (section 4), except two:

* `mergeSlow` runs over the words of this vector and reads the other one behind its end when it has
  fewer words;
* `filterSlow` with an inline argument leaves all words but the first as they are.

`OutOfLineBits::create` masks the number of bits with an `unsigned`.  No vector has 2 ^ 32 bits, and
one that is asked for so many gets fewer words than it needs.

`bitCount` adds what `WTF::bitCount` returns for each word; section 2 shows that this is the number
of its bits.
-/
import JavaScriptCore.Lib.Fields
import JavaScriptCore.Lib.Run
import Mathlib.Algebra.GroupWithZero.Nat
import Mathlib.Order.Interval.Finset.Nat

namespace JavaScriptCore.WTF

open List Function

/-! ## 1. The class -/

/-- `uintptr_t`. -/
abbrev UIntPtr := BitVec 64

/-- `static_cast<uintptr_t>(1) << maxInlineBits()`. -/
def inlineTag : UIntPtr := 1#64 <<< 63

def cleanseInlineBits (bits : UIntPtr) : UIntPtr := bits &&& ~~~inlineTag

/-- `static_cast<uintptr_t>(1) << (bit & (bitsInPointer() - 1))`. -/
def bitMask (bit : Nat) : UIntPtr := 1#64 <<< (bit % 64)

/-- `WTF::bitCount` of an `unsigned`. -/
def bitCount32 (bits : BitVec 32) : Nat :=
  let bits := bits - ((bits >>> 1) &&& 0x55555555)
  let bits := (bits &&& 0x33333333) + ((bits >>> 2) &&& 0x33333333)
  ((((bits + (bits >>> 4)) &&& 0x0F0F0F0F) * 0x01010101) >>> 24).toNat

/-- `WTF::bitCount` of a `uint64_t`. -/
def bitCount64 (bits : BitVec 64) : Nat :=
  bitCount32 (bits.setWidth 32) + bitCount32 ((bits >>> 32).setWidth 32)

/-- The words of an out-of-line vector are all in use: `create` rounds the number of bits up. -/
inductive BitVector where
  | inline (m_bitsOrPointer : UIntPtr) (tagged : m_bitsOrPointer.getLsbD 63 = true)
  | outOfLine (words : List UIntPtr) (pos : 0 < words.length)

namespace BitVector

@[simp, grind =] theorem getLsbD_inlineTag (i : Nat) : inlineTag.getLsbD i = decide (i = 63) := by
  rw [inlineTag, ← BitVec.twoPow_eq, BitVec.getLsbD_twoPow]
  grind

@[simp, grind =] theorem getLsbD_bitMask (bit i : Nat) :
    (bitMask bit).getLsbD i = decide (i = bit % 64) := by
  rw [bitMask, ← BitVec.twoPow_eq, BitVec.getLsbD_twoPow]
  grind

@[simp, grind =] theorem getElem_inlineTag (i : Nat) (h : i < 64) :
    inlineTag[i] = decide (i = 63) :=
  getLsbD_inlineTag i

@[simp, grind =] theorem getElem_bitMask (bit i : Nat) (h : i < 64) :
    (bitMask bit)[i] = decide (i = bit % 64) :=
  getLsbD_bitMask bit i

/-- `BitVector()`. -/
def empty : BitVector := inline inlineTag (by simp)

def isInline : BitVector → Bool
  | inline _ _ => true
  | outOfLine _ _ => false

def size : BitVector → Nat
  | inline _ _ => 63
  | outOfLine words _ => 64 * words.length

/-- `bits()`. -/
def bits : BitVector → List UIntPtr
  | inline w _ => [w]
  | outOfLine words _ => words

def quickGet (v : BitVector) (bit : Nat) : Bool := (v.bits.getD (bit / 64) 0 &&& bitMask bit) ≠ 0

def get (v : BitVector) (bit : Nat) : Bool := if bit ≥ v.size then false else v.quickGet bit

def quickSet (bit : Nat) : BitVector → BitVector
  | inline w h => inline (w ||| bitMask bit) (by simp [h])
  | outOfLine words h => outOfLine (words.modify (bit / 64) (· ||| bitMask bit)) (by simpa using h)

def quickClear (bit : Nat) : (v : BitVector) → bit < v.size → BitVector
  | inline w h, hbit => inline (w &&& ~~~bitMask bit) (by
      have hne : ¬ 63 = bit % 64 := by simp only [size] at hbit; omega
      simp [h, hne])
  | outOfLine words h, _ =>
    outOfLine (words.modify (bit / 64) (· &&& ~~~bitMask bit)) (by simpa using h)

/-- `numWords()` of what `OutOfLineBits::create` makes: `~(bitsInPointer() - 1)` is an `unsigned`,
so that only 32 bits of the sum are left. -/
def newNumWords (numBits : Nat) : Nat := (numBits + 63) % 2 ^ 32 / 64

/-- `resizeOutOfLine` for a larger size.  It is `none` where the old words do not fit into the new
ones and are written behind them. -/
def resizeOutOfLine (numBits : Nat) : BitVector → Option BitVector
  | inline w _ =>
    if 1 ≤ newNumWords numBits then
      some (outOfLine (cleanseInlineBits w :: replicate (newNumWords numBits - 1) 0) (by simp))
    else none
  | outOfLine words h =>
    if words.length ≤ newNumWords numBits then
      some (outOfLine (words ++ replicate (newNumWords numBits - words.length) 0) (by simp; omega))
    else none

def ensureSize (numBits : Nat) (v : BitVector) : Option BitVector :=
  if numBits ≤ v.size then some v else v.resizeOutOfLine numBits

/-- `set`; `none` where `quickSet` writes behind the words. -/
def set (bit : Nat) (v : BitVector) : Option BitVector := do
  let v ← v.ensureSize (bit + 1)
  if bit < v.size then some (v.quickSet bit) else none

def clear (bit : Nat) (v : BitVector) : BitVector :=
  if h : bit < v.size then v.quickClear bit h else v

theorem length_bits_pos (v : BitVector) : 0 < v.bits.length := by
  cases v with
  | inline => exact Nat.one_pos
  | outOfLine _ h => exact h

/-- The loop of `mergeSlow`, which runs over the words of this vector; it is `none` where there is
no word of the other one to read. -/
def mergeWords (words' : List UIntPtr) (pos : 0 < words'.length) (v : BitVector) :
    Option BitVector := do
  let v ← v.ensureSize (64 * words'.length)
  if v.bits.length ≤ words'.length then
    some (outOfLine (zipWith (· ||| ·) v.bits words') (by simp [pos, length_bits_pos]))
  else none

/-- `merge` and `mergeSlow`. -/
def merge : BitVector → BitVector → Option BitVector
  | inline w h, inline w' _ => some (inline (w ||| w') (by simp [h]))
  | outOfLine words h, inline w' _ =>
    some (outOfLine (words.modify 0 (· ||| cleanseInlineBits w')) (by simpa using h))
  | v, outOfLine words' h => v.mergeWords words' h

/-- `filter` and `filterSlow`. -/
def filter : BitVector → BitVector → BitVector
  | inline w h, inline w' h' => inline (w &&& w') (by simp [h, h'])
  | outOfLine words h, inline w' _ =>
    outOfLine (words.modify 0 (· &&& cleanseInlineBits w')) (by simpa using h)
  | inline w _, outOfLine words' _ => inline (w &&& words'.getD 0 0 ||| inlineTag) (by simp)
  | outOfLine words h, outOfLine words' h' =>
    outOfLine (zipWith (· &&& ·) words words' ++ replicate (words.length - words'.length) 0)
      (by simp; omega)

/-- `exclude` and `excludeSlow`. -/
def exclude : BitVector → BitVector → BitVector
  | inline w _, inline w' _ => inline (w &&& ~~~w' ||| inlineTag) (by simp)
  | outOfLine words h, inline w' _ =>
    outOfLine (words.modify 0 (· &&& ~~~cleanseInlineBits w')) (by simpa using h)
  | inline w _, outOfLine words' _ => inline (w &&& ~~~words'.getD 0 0 ||| inlineTag) (by simp)
  | outOfLine words h, outOfLine words' h' =>
    outOfLine (zipWith (· &&& ~~~·) words words' ++ words.drop words'.length) (by simp; omega)

def bitCount : BitVector → Nat
  | inline w _ => bitCount64 (cleanseInlineBits w)
  | outOfLine words _ => (words.map bitCount64).sum

/-- `operator==` and `equalsSlowCase`, whose counter is an `unsigned`. -/
def equals : BitVector → BitVector → Bool
  | inline w _, inline w' _ => w = w'
  | v, other => (range (max v.size other.size % 2 ^ 32)).all fun i => v.get i = other.get i

/-- The word that is hashed; `hashSlowCase`. -/
def hashValue : BitVector → UIntPtr
  | inline w _ => cleanseInlineBits w
  | outOfLine words _ => words.foldr (· ^^^ ·) 0

/-- `intHash` of 64 bits. -/
def intHash (key : BitVec 64) : BitVec 32 :=
  let key := key + ~~~(key <<< 32)
  let key := key ^^^ (key >>> 22)
  let key := key + ~~~(key <<< 13)
  let key := key ^^^ (key >>> 8)
  let key := key + (key <<< 3)
  let key := key ^^^ (key >>> 15)
  let key := key + ~~~(key <<< 27)
  let key := key ^^^ (key >>> 31)
  key.setWidth 32

def hash (v : BitVector) : BitVec 32 := intHash v.hashValue

/-! ## 2. Counting the bits of a word -/

section

variable (bits : BitVec 32)

/-- The first line: the bits of every pair are added. -/
theorem toNat_pairs :
    (bits - ((bits >>> 1) &&& 0x55555555)).toNat = Fields.merge 1 16 bits.toNat := by
  have hle : (bits >>> 1) &&& 0x55555555 ≤ bits := by
    rw [BitVec.le_def, BitVec.toNat_and, BitVec.toNat_ushiftRight]
    exact Nat.and_le_left.trans (Nat.shiftRight_le _ _)
  rw [BitVec.toNat_sub_of_le hle, BitVec.toNat_and, BitVec.toNat_ushiftRight]
  exact Fields.sub_eq_merge 16 bits.isLt

/-- The second line: the pairs are added. -/
theorem toNat_nibbles : ((bits &&& 0x33333333) + ((bits >>> 2) &&& 0x33333333)).toNat =
    Fields.merge 2 8 bits.toNat := by
  have hlow : bits.toNat &&& 0x33333333 ≤ 0x33333333 := Nat.and_le_right
  have hhigh : bits.toNat >>> 2 &&& 0x33333333 ≤ 0x33333333 := Nat.and_le_right
  rw [BitVec.toNat_add, BitVec.toNat_and, BitVec.toNat_and, BitVec.toNat_ushiftRight]
  exact Nat.mod_eq_of_lt (show (bits.toNat &&& 0x33333333) + (bits.toNat >>> 2 &&& 0x33333333)
    < 2 ^ 32 by omega)

/-- The product with 0x01010101 has the sum of all bytes in its highest byte. -/
theorem sum_bytes {a b c d : Nat} (ha : a ≤ 8) (hb : b ≤ 8) (hc : c ≤ 8) (hd : d ≤ 8) :
    (a + 2 ^ 8 * (b + 2 ^ 8 * (c + 2 ^ 8 * d))) * 0x01010101 % 2 ^ 32 / 2 ^ 24 = a + b + c + d := by
  have hproduct : (a + 2 ^ 8 * (b + 2 ^ 8 * (c + 2 ^ 8 * d))) * 0x01010101 =
      2 ^ 32 * (b + c + d + 2 ^ 8 * (c + d) + 2 ^ 16 * d) +
        (2 ^ 24 * (a + b + c + d) + (2 ^ 16 * (a + b + c) + 2 ^ 8 * (a + b) + a)) := by omega
  rw [hproduct, Nat.mul_add_mod, Nat.mod_eq_of_lt (by omega), Nat.mul_add_div (by decide),
    Nat.div_eq_of_lt (by omega), Nat.add_zero]

/-- The third line: the nibbles are added, and a multiplication adds the bytes. -/
theorem toNat_bytes (hbits : bits.toNat ≤ 0x66666666) (h : Fields.Bounded 4 4 8 bits.toNat) :
    ((((bits + (bits >>> 4)) &&& 0x0F0F0F0F) * 0x01010101) >>> 24).toNat =
      Fields.sum 4 8 bits.toNat := by
  have hbytes : ((bits + (bits >>> 4)) &&& 0x0F0F0F0F).toNat = Fields.merge 4 4 bits.toNat := by
    have hshift : bits.toNat >>> 4 = bits.toNat / 16 := Nat.shiftRight_eq_div_pow _ 4
    rw [BitVec.toNat_and, BitVec.toNat_add, BitVec.toNat_ushiftRight,
      Nat.mod_eq_of_lt (by omega)]
    exact Fields.and_mask_eq_merge (n := 4) h (by decide)
  obtain ⟨h₀, h₁, h₂, h₃, -⟩ := h.merge (n := 4) (by decide)
  have hfactor : (0x01010101 : BitVec 32).toNat = 0x01010101 := rfl
  have hlt := ((bits + (bits >>> 4)) &&& 0x0F0F0F0F).isLt
  rw [BitVec.toNat_ushiftRight, BitVec.toNat_mul, hfactor, ← Fields.sum_merge (n := 4) (by decide),
    Nat.shiftRight_eq_div_pow, Fields.sum, Fields.sum, Fields.sum, Fields.sum, Fields.sum]
  rw [hbytes] at hlt ⊢
  generalize Fields.merge 4 4 bits.toNat = s at *
  rw [← Nat.add_assoc, ← Nat.add_assoc, ← Nat.add_assoc, Nat.add_zero, ← sum_bytes h₀ h₁ h₂ h₃]
  congr 3
  omega

/-- **`bitCount` counts the bits of a word.** -/
theorem bitCount32_eq : bitCount32 bits = (range 32).countP bits.getLsbD := by
  have hpairs := toNat_pairs bits
  have hnibbles := toNat_nibbles (bits - ((bits >>> 1) &&& 0x55555555))
  rw [hpairs] at hnibbles
  have hbounded : Fields.Bounded 4 4 8 (Fields.merge 2 8 (Fields.merge 1 16 bits.toNat)) :=
    ((Fields.bounded_one 32 bits.toNat).merge (n := 16) (by decide)).merge (n := 8) (by decide)
  have hle : Fields.merge 2 8 (Fields.merge 1 16 bits.toNat) ≤ 0x66666666 :=
    Nat.add_le_add Nat.and_le_right Nat.and_le_right
  rw [bitCount32, toNat_bytes _ (hnibbles ▸ hle) (hnibbles ▸ hbounded), hnibbles]
  calc Fields.sum 4 8 (Fields.merge 2 8 (Fields.merge 1 16 bits.toNat))
      = Fields.sum 2 16 (Fields.merge 1 16 bits.toNat) := Fields.sum_merge (by decide) 8 _
    _ = Fields.sum 1 32 bits.toNat := Fields.sum_merge (by decide) 16 _
    _ = (range 32).countP bits.getLsbD := Fields.sum_one 32 _

end

/-- The number of bits of a word. -/
def countBits (bits : UIntPtr) : Nat := (List.range 64).countP bits.getLsbD

theorem bitCount64_eq (bits : UIntPtr) : bitCount64 bits = countBits bits := by
  have hlow : (range 32).countP (bits.setWidth 32).getLsbD = (range 32).countP bits.getLsbD :=
    countP_congr fun i hi => by simp [mem_range.1 hi]
  have hhigh : (range 32).countP ((bits >>> 32).setWidth 32).getLsbD =
      (range 32).countP (bits.getLsbD ∘ (32 + ·)) :=
    countP_congr fun i hi => by simp [mem_range.1 hi]
  rw [bitCount64, bitCount32_eq, bitCount32_eq, hlow, hhigh, countBits,
    show List.range 64 = List.range (32 + 32) from rfl, range_add, countP_append, countP_map]

/-! ## 3. Words -/

/-- The words of either form, without the tag. -/
def allWords : BitVector → List UIntPtr
  | inline w _ => [cleanseInlineBits w]
  | outOfLine words _ => words

def word (v : BitVector) (k : Nat) : UIntPtr := v.allWords.getD k 0

@[grind =] theorem getLsbD_cleanseInlineBits (w : UIntPtr) (i : Nat) :
    (cleanseInlineBits w).getLsbD i = (w.getLsbD i && decide (i ≠ 63)) := by
  by_cases hi : i < 64
  · simp [cleanseInlineBits, hi]
  · simp [cleanseInlineBits, BitVec.getLsbD_of_ge w i (by omega)]

@[grind =] theorem getElem_cleanseInlineBits (w : UIntPtr) (i : Nat) (h : i < 64) :
    (cleanseInlineBits w)[i] = (w[i] && decide (i ≠ 63)) := getLsbD_cleanseInlineBits w i

theorem quickGet_eq (v : BitVector) (i : Nat) :
    v.quickGet i = (v.bits.getD (i / 64) 0).getLsbD (i % 64) := by
  unfold quickGet
  generalize v.bits.getD (i / 64) 0 = w
  rw [Bool.eq_iff_iff, decide_eq_true_iff]
  constructor
  · intro hne
    by_contra hbit
    refine hne (BitVec.eq_of_getLsbD_eq fun j hj => ?_)
    by_cases hj' : j = i % 64 <;> simp_all
  · intro hbit hzero
    have := congrArg (BitVec.getLsbD · (i % 64)) hzero
    simp [hbit] at this

/-- **What `get` reads** is a bit of a word. -/
theorem get_eq (v : BitVector) (i : Nat) : v.get i = (v.word (i / 64)).getLsbD (i % 64) := by
  by_cases hi : i ≥ v.size
  · rw [get, if_pos hi]
    cases v with
    | inline w h =>
      simp only [size] at hi
      by_cases hi' : i = 63
      · simp [word, allWords, hi', getElem_cleanseInlineBits]
      · simp [word, allWords, show ¬ i < 64 by omega]
    | outOfLine words h =>
      simp only [size] at hi
      simp [word, allWords, getElem?_eq_none (show words.length ≤ i / 64 by omega)]
  · rw [get, if_neg hi, quickGet_eq]
    cases v with
    | inline w h =>
      simp only [size, not_le, ge_iff_le] at hi
      simp [word, allWords, bits, Nat.div_eq_of_lt (show i < 64 by omega),
        Nat.mod_eq_of_lt (show i < 64 by omega), getLsbD_cleanseInlineBits, hi.ne]
    | outOfLine => rfl

theorem get_eq_iff_word {v v' : BitVector} : (∀ i, v.get i = v'.get i) ↔
    ∀ k, v.word k = v'.word k := by
  constructor
  · intro h k
    refine BitVec.eq_of_getLsbD_eq fun j hj => ?_
    have := h (64 * k + j)
    rwa [get_eq, get_eq, Nat.mul_add_div (by decide), Nat.mul_add_mod, Nat.div_eq_of_lt hj,
      Nat.mod_eq_of_lt hj] at this
  · intro h i
    rw [get_eq, get_eq, h]

/-! ## 4. Each operation is an operation on words -/

section Operations

variable (v other : BitVector) (k : Nat)

attribute [local grind] word allWords

theorem newNumWords_of_lt {numBits : Nat} (h : numBits + 63 < 2 ^ 32) :
    newNumWords numBits = (numBits + 63) / 64 := by
  rw [newNumWords, Nat.mod_eq_of_lt h]

theorem exists_ensureSize {numBits : Nat} (h : numBits + 63 < 2 ^ 32) :
    ∃ v', v.ensureSize numBits = some v' := by
  have hwords := newNumWords_of_lt h
  unfold ensureSize
  split
  · exact ⟨v, rfl⟩
  · next hlarge =>
    cases v with
    | inline w hw =>
      rw [size] at hlarge
      exact ⟨_, if_pos (by omega)⟩
    | outOfLine words hw =>
      rw [size] at hlarge
      exact ⟨_, if_pos (by omega)⟩

variable {v} {v' : BitVector} {numBits : Nat}

theorem word_ensureSize (h : v.ensureSize numBits = some v') : v'.word k = v.word k := by
  unfold ensureSize at h
  split at h
  · grind
  · cases v with
    | inline w hw => cases k <;> grind [resizeOutOfLine]
    | outOfLine words hw => grind [resizeOutOfLine]

theorem size_ensureSize (hn : numBits + 63 < 2 ^ 32) (h : v.ensureSize numBits = some v') :
    numBits ≤ v'.size ∧ v'.size ≤ max v.size (numBits + 63) := by
  have hwords := newNumWords_of_lt hn
  unfold ensureSize at h
  split at h
  · grind
  · cases v <;> grind [resizeOutOfLine, size]

/-- Room for a whole word makes a vector out of line. -/
theorem bits_ensureSize {n : Nat} (hn : 0 < n) (hlt : 64 * n < 2 ^ 32)
    (h : v.ensureSize (64 * n) = some v') :
    v'.bits.getD k 0 = v.word k ∧ v'.bits.length = max v.bits.length n := by
  have hwords := newNumWords_of_lt (show 64 * n + 63 < 2 ^ 32 by omega)
  cases v <;> grind [ensureSize, resizeOutOfLine, bits, size]

variable (v)

theorem word_quickSet {bit : Nat} (h : bit < v.size) :
    (v.quickSet bit).word k = if k = bit / 64 then v.word k ||| bitMask bit else v.word k := by
  cases v with
  | inline w hw =>
    simp only [size] at h
    grind [quickSet]
  | outOfLine words hw => grind [quickSet, size]

theorem word_quickClear {bit : Nat} (h : bit < v.size) :
    (v.quickClear bit h).word k = if k = bit / 64 then v.word k &&& ~~~bitMask bit
      else v.word k := by
  cases v with
  | inline w hw =>
    simp only [size] at h
    grind [quickClear]
  | outOfLine words hw => grind [quickClear, size]

variable {v} in
theorem get_set {bit : Nat} (h : v.set bit = some v') (i : Nat) :
    v'.get i = (decide (i = bit) || v.get i) := by
  obtain ⟨v₁, hsize, h⟩ := Option.bind_eq_some_iff.1 h
  split at h
  · next hbit =>
    obtain rfl := Option.some.inj h
    rw [get_eq, get_eq, word_quickSet _ _ hbit, word_ensureSize _ hsize]
    grind
  · cases h

theorem get_clear (bit i : Nat) : (v.clear bit).get i = (v.get i && decide (i ≠ bit)) := by
  unfold clear
  split
  · next h =>
    rw [get_eq, get_eq, word_quickClear]
    grind
  · grind [get]

variable {v other}

/-- **`merge` is the union**, where it does not read behind the other vector. -/
theorem word_merge (hlt : other.size < 2 ^ 32) (h : v.merge other = some v') :
    v'.word k = v.word k ||| other.word k := by
  cases other with
  | inline w' h' =>
    cases v with
    | inline w hw | outOfLine words hw =>
      cases h
      grind
  | outOfLine words' h' =>
    have hwords : v.mergeWords words' h' = some v' := by cases v <;> exact h
    obtain ⟨v₁, hsize, h⟩ := Option.bind_eq_some_iff.1 hwords
    obtain ⟨hword, hlength⟩ := bits_ensureSize k h' hlt hsize
    grind

theorem word_exclude : (v.exclude other).word k = v.word k &&& ~~~other.word k := by
  cases v with
  | inline w hw =>
    cases other with
    | inline w' h' =>
      have hcleanse : cleanseInlineBits (w &&& ~~~w' ||| inlineTag) =
          cleanseInlineBits w &&& ~~~cleanseInlineBits w' := by
        ext i hi
        grind
      grind [exclude]
    | outOfLine words' h' =>
      grind [exclude]
  | outOfLine words hw => cases other <;> grind [exclude]

/-- **`filter` is the intersection**, except that an inline argument leaves all words but the first.
-/
theorem word_filter (h : v.isInline = true ∨ other.isInline = false ∨ k = 0 ∨ v.word k = 0) :
    (v.filter other).word k = v.word k &&& other.word k := by
  cases v with
  | inline w hw =>
    cases other with
    | inline w' h' =>
      have hcleanse : cleanseInlineBits (w &&& w') =
          cleanseInlineBits w &&& cleanseInlineBits w' := by
        ext i hi
        grind
      grind [filter]
    | outOfLine words' h' =>
      grind [filter]
  | outOfLine words hw => cases other <;> grind [filter, isInline]

end Operations

/-! ## 5. Counting, comparing and hashing -/

section Observations

variable {v other : BitVector}

/-- The members of a vector. -/
def members (v : BitVector) : Finset Nat := (Finset.range v.size).filter (v.get · = true)

theorem mem_members {i : Nat} : i ∈ v.members ↔ v.get i = true := by
  grind [members, get]

theorem members_eq_iff : v.members = other.members ↔ ∀ k, v.word k = other.word k := by
  simp only [Finset.ext_iff, mem_members, ← Bool.eq_iff_iff, get_eq_iff_word]

theorem size_le (v : BitVector) : v.size ≤ 64 * v.allWords.length := by
  cases v <;> simp [size, allWords]

/-- The bits of the words, counted word by word. -/
theorem countP_range_words (f : Nat → UIntPtr) (n : Nat) :
    (range (64 * n)).countP (fun i => (f (i / 64)).getLsbD (i % 64)) =
      ((range n).map fun k => countBits (f k)).sum := by
  induction n with
  | zero => rfl
  | succ n ih =>
    have hword : (range 64).countP ((fun i => (f (i / 64)).getLsbD (i % 64)) ∘ (64 * n + ·)) =
      countBits (f n) := by
      refine countP_congr fun j hj => ?_
      have hj := mem_range.mp hj
      simp [Nat.mul_add_div, Nat.div_eq_of_lt hj, Nat.mod_eq_of_lt hj]
    rw [Nat.mul_succ, range_add, countP_append, ih, countP_map, hword, range_succ,
      map_append, sum_append]
    simp

/-- **`bitCount` is the cardinality.** -/
theorem bitCount_eq_card (v : BitVector) : v.bitCount = v.members.card := by
  have hcount : v.bitCount = (v.allWords.map countBits).sum := by
    cases v with
    | inline w h => rw [bitCount, bitCount64_eq, allWords, map_singleton, sum_singleton]
    | outOfLine words h => rw [bitCount, funext bitCount64_eq, allWords]
  have hwords : (range v.allWords.length).map v.word = v.allWords := by
    refine ext_getElem (by simp) fun i _ hi => ?_
    simp [word, hi]
  have hmembers : v.members = (Finset.range (64 * v.allWords.length)).filter (v.get · = true) := by
    have := v.size_le
    grind [members, get]
  calc v.bitCount = ((range v.allWords.length).map fun k => countBits (v.word k)).sum := by
        rw [hcount, ← comp_def, ← map_map, hwords]
    _ = (range (64 * v.allWords.length)).countP v.get := by
        rw [← countP_range_words]
        simp only [← get_eq]
    _ = v.members.card := by
        rw [hmembers, countP_eq_length_filter]
        show _ = ((range _).filter fun i => decide (v.get i = true)).length
        simp only [Bool.decide_eq_true]

/-- **Equality is that of the sets**, for vectors of less than `2 ^ 32` bits. -/
theorem equals_iff (hv : v.size < 2 ^ 32) (hother : other.size < 2 ^ 32) :
    v.equals other = true ↔ v.members = other.members := by
  have hslow : ((range (max v.size other.size % 2 ^ 32)).all fun i => v.get i = other.get i) =
      true ↔ v.members = other.members := by
    rw [Nat.mod_eq_of_lt (by omega)]
    simp only [all_eq_true, mem_range, Finset.ext_iff, mem_members]
    grind [get]
  cases v with
  | inline w h =>
    cases other with
    | inline w' h' =>
      have hcleanse : cleanseInlineBits w = cleanseInlineBits w' → w = w' := by
        intro heq
        ext i hi
        have := congrArg (·.getLsbD i) heq
        by_cases hi' : i = 63 <;> grind
      rw [members_eq_iff, equals, decide_eq_true_iff]
      constructor
      · rintro rfl k
        rfl
      · intro hword
        exact hcleanse (hword 0)
    | outOfLine => exact hslow
  | outOfLine => exact hslow

/-- Zeros at the end do not change the exclusive or of a list. -/
theorem foldr_xor_congr {l l' : List UIntPtr} (h : ∀ k, l.getD k 0 = l'.getD k 0) :
    l.foldr (· ^^^ ·) 0 = l'.foldr (· ^^^ ·) 0 := by
  induction l generalizing l' with
  | nil =>
    induction l' with
    | nil => rfl
    | cons w l' ih =>
      obtain rfl : 0 = w := by simpa using h 0
      have htail := ih fun k => by simpa using h (k + 1)
      simpa using htail
  | cons w l ih =>
    cases l' with
    | nil =>
      obtain rfl : w = 0 := by simpa using h 0
      have htail : l.foldr (· ^^^ ·) 0 = ([] : List UIntPtr).foldr (· ^^^ ·) 0 :=
        ih fun k => by simpa using h (k + 1)
      simpa using htail
    | cons w' l' =>
      obtain rfl : w = w' := by simpa using h 0
      have htail := ih fun k => by simpa using h (k + 1)
      simp only [foldr_cons, htail]

theorem hash_eq (h : v.members = other.members) : v.hash = other.hash := by
  have hvalue : ∀ v : BitVector, v.hashValue = v.allWords.foldr (· ^^^ ·) 0 := by
    intro v
    cases v <;> simp [hashValue, allWords]
  rw [hash, hash, hvalue, hvalue, foldr_xor_congr (members_eq_iff.mp h)]

end Observations

/-! ## 6. Runs -/

/-- The operations on a family of vectors. -/
inductive Operation where
  | set (i bit : Nat)
  | clear (i bit : Nat)
  | ensureSize (i numBits : Nat)
  | assign (i j : Nat)
  | merge (i j : Nat)
  | filter (i j : Nat)
  | exclude (i j : Nat)

/-- One operation; `none` if it reads or writes behind a vector.  `operator=` and `setSlow` copy all
the words. -/
def step (s : Nat → BitVector) : Operation → Option (Nat → BitVector)
  | .set i bit => ((s i).set bit).map (update s i)
  | .clear i bit => some (update s i ((s i).clear bit))
  | .ensureSize i numBits => ((s i).ensureSize numBits).map (update s i)
  | .assign i j => some (update s i (s j))
  | .merge i j => ((s i).merge (s j)).map (update s i)
  | .filter i j => some (update s i ((s i).filter (s j)))
  | .exclude i j => some (update s i ((s i).exclude (s j)))

/-- The same operation on sets. -/
def setStep (a : Nat → Finset Nat) : Operation → Nat → Finset Nat
  | .set i bit => update a i (insert bit (a i))
  | .clear i bit => update a i ((a i).erase bit)
  | .ensureSize _ _ => a
  | .assign i j => update a i (a j)
  | .merge i j => update a i (a i ∪ a j)
  | .filter i j => update a i (a i ∩ a j)
  | .exclude i j => update a i (a i \ a j)

/-- **When an operation is right**: a vector is merged with another that has as many words, or with
an inline one; it is filtered by an inline one only when it has no members beyond the first word;
and no vector gets `2 ^ 32` bits. -/
def Admissible (s : Nat → BitVector) : Operation → Prop
  | .set _ bit => bit + 64 < 2 ^ 32
  | .ensureSize _ numBits => numBits + 63 < 2 ^ 32
  | .merge i j => (s i).isInline = true ∨ (s j).isInline = true ∨ (s i).size ≤ (s j).size
  | .filter i j => (s i).isInline = true ∨ (s j).isInline = false ∨ ∀ bit ∈ (s i).members, bit < 64
  | _ => True

/-- The vectors stand for the sets. -/
structure Refines (s : Nat → BitVector) (a : Nat → Finset Nat) : Prop where
  members : ∀ i, (s i).members = a i
  size : ∀ i, (s i).size < 2 ^ 32

variable {s s' : Nat → BitVector} {a a' : Nat → Finset Nat}

theorem Refines.update (h : Refines s a) {i : Nat} {v : BitVector} {t : Finset Nat}
    (hv : v.members = t) (hsize : v.size < 2 ^ 32) : Refines (update s i v) (update a i t) := by
  constructor <;> intro j <;> by_cases hj : j = i <;> grind [Refines, update]

section Members

variable {v v' other : BitVector}

theorem members_set {bit : Nat} (h : v.set bit = some v') : v'.members = insert bit v.members := by
  ext i
  simp [mem_members, get_set h]

theorem members_clear (bit : Nat) : (v.clear bit).members = v.members.erase bit := by
  ext i
  simp [mem_members, get_clear, and_comm]

theorem members_ensureSize {numBits : Nat} (h : v.ensureSize numBits = some v') :
    v'.members = v.members :=
  members_eq_iff.mpr fun k => word_ensureSize k h

theorem members_merge (hlt : other.size < 2 ^ 32) (h : v.merge other = some v') :
    v'.members = v.members ∪ other.members := by
  ext i
  simp [mem_members, get_eq, word_merge _ hlt h]

theorem members_exclude : (v.exclude other).members = v.members \ other.members := by
  ext i
  have := Nat.mod_lt i (show 64 > 0 by decide)
  simp [mem_members, get_eq, word_exclude, this]

theorem word_eq_zero (h : ∀ bit ∈ v.members, bit < 64) {k : Nat} (hk : k ≠ 0) : v.word k = 0 := by
  refine BitVec.eq_of_getLsbD_eq fun j hj => ?_
  simp only [BitVec.ofNat_eq_ofNat, BitVec.getLsbD_zero, ← Bool.not_eq_true]
  intro hbit
  have hmem : 64 * k + j ∈ v.members := by
    rw [mem_members, get_eq, Nat.mul_add_div (by decide), Nat.mul_add_mod, Nat.div_eq_of_lt hj,
      Nat.mod_eq_of_lt hj]
    exact hbit
  have := h _ hmem
  omega

theorem members_filter (h : v.isInline = true ∨ other.isInline = false ∨
    ∀ bit ∈ v.members, bit < 64) :
    (v.filter other).members = v.members ∩ other.members := by
  have hword : ∀ k, (v.filter other).word k = v.word k &&& other.word k := fun k =>
    word_filter k (h.imp_right (Or.imp_right fun hsmall =>
      (Decidable.em (k = 0)).imp_right (word_eq_zero hsmall)))
  ext i
  simp [mem_members, get_eq, hword]

theorem size_filter : (v.filter other).size = v.size := by
  cases v <;> cases other <;> simp [filter, size]
  omega

theorem size_exclude : (v.exclude other).size = v.size := by
  cases v <;> cases other <;> simp [exclude, size]
  omega

theorem size_merge (hlt : other.size < 2 ^ 32) (h : v.merge other = some v') :
    v'.size ≤ max v.size other.size := by
  cases other with
  | inline w' h' => cases v <;> grind [merge, size]
  | outOfLine words' h' =>
    have hwords : v.mergeWords words' h' = some v' := by cases v <;> exact h
    obtain ⟨v₁, hsize, h⟩ := Option.bind_eq_some_iff.1 hwords
    grind [size]

theorem size_set {bit : Nat} (hbit : bit + 64 < 2 ^ 32) (h : v.set bit = some v') :
    v'.size ≤ max v.size (bit + 64) := by
  obtain ⟨v₁, hsize, h⟩ := Option.bind_eq_some_iff.1 h
  have hle := (size_ensureSize (by omega) hsize).2
  split at h
  · obtain rfl := Option.some.inj h
    cases v₁ <;> simp_all [quickSet, size]
  · cases h

theorem size_clear (bit : Nat) : (v.clear bit).size = v.size := by
  unfold clear
  split
  · cases v <;> simp [quickClear, size]
  · rfl

/-- Setting a bit returns. -/
theorem exists_set {bit : Nat} (hbit : bit + 64 < 2 ^ 32) : ∃ v', v.set bit = some v' := by
  obtain ⟨v₁, hv₁⟩ := v.exists_ensureSize (show bit + 1 + 63 < 2 ^ 32 by omega)
  have hsize := (size_ensureSize (by omega) hv₁).1
  exact ⟨_, Option.bind_eq_some_iff.2 ⟨v₁, hv₁, if_pos hsize⟩⟩

/-- Merging with a vector that has as many words returns. -/
theorem exists_merge (hlt : other.size < 2 ^ 32)
    (h : v.isInline = true ∨ other.isInline = true ∨ v.size ≤ other.size) :
    ∃ v', v.merge other = some v' := by
  cases other with
  | inline w' h' => cases v <;> exact ⟨_, rfl⟩
  | outOfLine words' h' =>
    rw [size] at hlt
    obtain ⟨v₁, hv₁⟩ := v.exists_ensureSize (show 64 * words'.length + 63 < 2 ^ 32 by omega)
    have hlength := (bits_ensureSize 0 h' hlt hv₁).2
    have hle : v₁.bits.length ≤ words'.length := by cases v <;> grind [bits, size, isInline]
    have hwords : ∃ v', v.mergeWords words' h' = some v' :=
      ⟨_, Option.bind_eq_some_iff.2 ⟨v₁, hv₁, if_pos hle⟩⟩
    cases v <;> exact hwords

end Members

/-- **One operation keeps the refinement.** -/
theorem step_refines {op : Operation} (h : Refines s a) (hop : Admissible s op)
    (hstep : step s op = some s') :
    Refines s' (setStep a op) := by
  cases op with
  | set i bit =>
    obtain ⟨v, hv, rfl⟩ := Option.map_eq_some_iff.mp hstep
    exact h.update (by rw [members_set hv, h.members])
      (Nat.lt_of_le_of_lt (size_set hop hv) (max_lt (h.size i) hop))
  | clear i bit =>
    cases hstep
    exact h.update (by rw [members_clear, h.members]) (by rw [size_clear]; exact h.size i)
  | ensureSize i numBits =>
    obtain ⟨v, hv, rfl⟩ := Option.map_eq_some_iff.mp hstep
    have hsize := (size_ensureSize hop hv).2
    have hupdate := h.update (i := i) ((members_ensureSize hv).trans (h.members i))
      (hsize.trans_lt (max_lt (h.size i) hop))
    rwa [update_eq_self] at hupdate
  | assign i j =>
    cases hstep
    exact h.update (h.members j) (h.size j)
  | merge i j =>
    obtain ⟨v, hv, rfl⟩ := Option.map_eq_some_iff.mp hstep
    exact h.update (by rw [members_merge (h.size j) hv, h.members, h.members])
      (Nat.lt_of_le_of_lt (size_merge (h.size j) hv) (max_lt (h.size i) (h.size j)))
  | filter i j =>
    cases hstep
    exact h.update (by rw [members_filter hop, h.members, h.members])
      (by rw [size_filter]; exact h.size i)
  | exclude i j =>
    cases hstep
    exact h.update (by rw [members_exclude, h.members, h.members])
      (by rw [size_exclude]; exact h.size i)

/-- An admissible operation reads and writes nothing behind a vector. -/
theorem exists_step {op : Operation} (h : Refines s a) (hop : Admissible s op) :
    ∃ s', step s op = some s' := by
  cases op with
  | set i bit =>
    obtain ⟨v', hv'⟩ := exists_set (v := s i) hop
    exact ⟨update s i v', by rw [step, hv', Option.map_some]⟩
  | ensureSize i numBits =>
    obtain ⟨v', hv'⟩ := (s i).exists_ensureSize hop
    exact ⟨update s i v', by rw [step, hv', Option.map_some]⟩
  | merge i j =>
    obtain ⟨v', hv'⟩ := exists_merge (h.size j) hop
    exact ⟨update s i v', by rw [step, hv', Option.map_some]⟩
  | _ => exact ⟨_, rfl⟩

/-- The vectors and the sets side by side. -/
def stepBoth (p : (Nat → BitVector) × (Nat → Finset Nat)) (op : Operation) :
    Option ((Nat → BitVector) × (Nat → Finset Nat)) :=
  (step p.1 op).map (·, setStep p.2 op)

/-- **Bit vectors are finite sets**: after every run of admissible operations, `get` is membership
in the set that the same operations make, `bitCount` is its cardinality, and vectors with the same
members are equal and have the same hash.  The next admissible operation returns. -/
theorem run_agrees {ops : List Operation} (h : Refines s a)
    (hrun : Transition.Run (fun p => Admissible p.1) stepBoth (s, a) ops (s', a')) :
    (∀ i bit, (s' i).get bit = true ↔ bit ∈ a' i) ∧ (∀ i, (s' i).bitCount = (a' i).card) ∧
    (∀ i j, (s' i).equals (s' j) = true ↔ a' i = a' j) ∧
    (∀ i j, a' i = a' j → (s' i).hash = (s' j).hash) ∧
    ∀ op, Admissible s' op → ∃ s'', step s' op = some s'' := by
  have hkept : ∀ p op p', Admissible p.1 op → Refines p.1 p.2 → stepBoth p op = some p' →
      Refines p'.1 p'.2 := by
    intro p op p' hop hp hstep
    obtain ⟨s'', hs'', rfl⟩ := Option.map_eq_some_iff.mp hstep
    exact step_refines hp hop hs''
  have hrefines : Refines s' a' := hrun.invariant hkept h
  refine ⟨fun i bit => ?_, fun i => ?_, fun i j => ?_, fun i j hij => ?_,
    fun op hop => exists_step hrefines hop⟩
  · rw [← hrefines.members, mem_members]
  · rw [bitCount_eq_card, hrefines.members]
  · rw [equals_iff (hrefines.size i) (hrefines.size j), hrefines.members, hrefines.members]
  · exact hash_eq (by rw [hrefines.members, hrefines.members, hij])

/-- The member 100, added and taken away again, leaves an out-of-line vector that equals the inline
empty one. -/
theorem run_agrees_set_clear :
    ∃ v, empty.set 100 = some v ∧ (v.clear 100).equals empty = true := by
  have hempty : Refines (fun _ => empty) fun _ => ∅ := ⟨fun _ => by decide, fun _ => by decide⟩
  have hrun := run_agrees hempty (.cons (a := .set 0 100) (by simp [Admissible]) rfl
    (.cons (a := .clear 0 100) (by exact trivial) rfl .nil))
  exact ⟨_, rfl, (hrun.2.2.1 0 1).mpr (by decide)⟩

/-- A vector with a member beyond the first word keeps it when it is filtered by an inline vector,
and reads behind a smaller out-of-line vector with which it is merged.  A vector that is asked to
hold the number 2 ^ 32 - 1 is left without a word. -/
theorem filter_keeps_member :
    (empty.set 100).map (fun v => (v.filter empty).get 100) = some true ∧
      ((empty.set 100).bind fun v => (empty.ensureSize 64).bind v.merge) = none ∧
      (empty.ensureSize 64).isSome ∧ empty.set (2 ^ 32 - 1) = none := by
  decide

end BitVector

end JavaScriptCore.WTF
