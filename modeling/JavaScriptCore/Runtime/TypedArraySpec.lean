/-
# When `set` copies as if the source were read first

Whether `set` copies rightly depends on the views and the offset, and not on the bytes:
`set_copies_iff` says for which of them it does so with every memory.  The comparison that chooses
the direction is between the first bytes of the two views.  It should be with the first byte that is
written, which is `offset` elements further on; so the copy goes the wrong way where the destination
view does not begin behind the source view, but its first element to be written lies inside the
source.
-/
import JavaScriptCore.Runtime.TypedArray

namespace JavaScriptCore.Runtime

open Lib.Bytes List Nat

/-! ## 1. Native values fit into their bytes -/

namespace FloatFormat

theorem encodePositive_le (format : FloatFormat) (q : ℚ) :
    format.encodePositive q ≤ format.infinityBits :=
  min_le_left _ _

theorem encode_lt (format : FloatFormat) (h : 0 < format.fractionBits) (d : Double) :
    format.encode d < 2 ^ format.width := by
  have hwidth : 2 ^ format.width = 2 ^ (format.exponentBits + format.fractionBits) +
      2 ^ (format.exponentBits + format.fractionBits) := by
    rw [width, Nat.add_assoc, pow_add, pow_one, Nat.two_mul]
  have hpow : 0 < 2 ^ format.exponentBits := Nat.two_pow_pos _
  have hpow' : 0 < 2 ^ format.fractionBits := Nat.two_pow_pos _
  have hfraction : 2 ^ (format.fractionBits - 1) < 2 ^ format.fractionBits :=
    Nat.pow_lt_pow_right (by omega) (by omega)
  have hinfinity : format.infinityBits + 2 ^ format.fractionBits =
      2 ^ (format.exponentBits + format.fractionBits) := by
    obtain ⟨n, hn⟩ : ∃ n, 2 ^ format.exponentBits = n + 1 := ⟨_, (Nat.sub_add_cancel hpow).symm⟩
    rw [infinityBits, pow_add, hn, Nat.add_sub_cancel, Nat.add_mul, Nat.one_mul]
  have hle := format.encodePositive_le
  cases d with
  | nan =>
    simp only [encode, nanBits]
    omega
  | negZero =>
    simp only [encode, signBit, if_true]
    omega
  | infinity negative =>
    simp only [encode, signBit]
    split <;> omega
  | finite q =>
    simp only [encode, signBit, if_true]
    have := hle q
    have := hle (-q)
    split
    · omega
    · split <;> omega

theorem roundHalfEven_le {q : ℚ} {n : Int} (h : q ≤ n) : roundHalfEven q ≤ n := by
  have hfloor : q.floor ≤ n := by
    have := Int.floor_le_floor h
    rwa [Int.floor_intCast] at this
  unfold roundHalfEven
  dsimp only
  rcases Int.lt_or_eq_of_le hfloor with hlt | heq
  · split
    · exact hfloor
    · split
      · omega
      · split <;> omega
  · -- the number is the integer itself
    have hq : q = n := le_antisymm h (by rw [← heq]; exact Int.floor_le q)
    have hrest : q - (q.floor : ℚ) = 0 := by rw [heq, hq, sub_self]
    simp only [hrest]
    rw [if_pos (by norm_num)]
    exact hfloor

end FloatFormat

namespace TypedArray

open FloatFormat

namespace TypedArrayType

section

variable (type : TypedArrayType)

theorem elementSize_pos : 0 < type.elementSize := by
  cases type <;> decide

theorem staticCast_lt (value : Int) : type.staticCast value < 256 ^ type.elementSize := by
  have hpos : (0 : Int) < 256 ^ type.elementSize := by positivity
  have hlt := Int.emod_lt_of_pos value hpos
  have hnonneg := Int.emod_nonneg value (ne_of_gt hpos)
  unfold staticCast
  zify
  rwa [Int.toNat_of_nonneg hnonneg]

theorem clampDouble_lt (d : Double) : clampDouble d < 256 := by
  cases d with
  | nan | negZero => decide
  | infinity negative =>
    rw [clampDouble]
    split <;> decide
  | finite q =>
    simp only [clampDouble]
    split
    · decide
    · split
      · decide
      · next hq =>
        have hle : roundHalfEven q ≤ 255 := roundHalfEven_le (by push_cast; exact not_lt.mp hq)
        omega

theorem toNativeFromDouble_lt (d : Double) :
    type.toNativeFromDouble d < 256 ^ type.elementSize := by
  cases type with
  | uint8Clamped => exact clampDouble_lt d
  | float32 => exact binary32.encode_lt (by decide) d
  | float64 => exact binary64.encode_lt (by decide) d
  | _ => exact staticCast_lt _ _

theorem toNativeFromInt32_lt (value : Int) :
    type.toNativeFromInt32 value < 256 ^ type.elementSize := by
  cases type with
  | uint8Clamped =>
    simp only [toNativeFromInt32, clamp, elementSize, pow_one]
    split
    · decide
    · split <;> omega
  | float32 => exact binary32.encode_lt (by decide) (.finite value)
  | float64 => exact binary64.encode_lt (by decide) (.finite value)
  | _ => exact staticCast_lt _ _

theorem toNativeFromUint32_lt (value : Nat) :
    type.toNativeFromUint32 value < 256 ^ type.elementSize := by
  cases type with
  | uint8Clamped =>
    simp only [toNativeFromUint32, elementSize, pow_one]
    omega
  | float32 => exact binary32.encode_lt (by decide) (.finite value)
  | float64 => exact binary64.encode_lt (by decide) (.finite value)
  | _ => exact staticCast_lt _ _

/-- **A converted value fits.** -/
theorem convertTo_lt (source destination : TypedArrayType) (native : Nat) :
    source.convertTo destination native < 256 ^ destination.elementSize := by
  cases source with
  | float32 | float64 => exact toNativeFromDouble_lt _ _
  | uint32 => exact toNativeFromUint32_lt _ _
  | _ => exact toNativeFromInt32_lt _ _

/-- The native value of the number one, in the types that have another one of their size. -/
def one : TypedArrayType → Nat
  | .float32 => 127 * 2 ^ 23
  | _ => 1

theorem one_lt : type.one < 256 ^ type.elementSize := by
  cases type <;> decide

end

theorem decode_one : binary32.decode (127 * 2 ^ 23) = .finite 1 := by
  have hbits : binary32.decode (127 * 2 ^ 23) =
      .finite (1 * (2 ^ 23 + (0 : Nat)) * 2 ^ (-126 + (127 - 1) - 23 : Int)) := rfl
  rw [hbits]
  norm_num

theorem encodePositive_one : binary32.encodePositive 1 ≠ 0 := by
  have hexponent : max (Int.log 2 (1 : ℚ)) binary32.minExponent = 0 := by
    rw [Int.log_one_right]
    decide
  unfold encodePositive
  rw [hexponent]
  have hterm : ((0 : Int) - binary32.minExponent).toNat * 2 ^ binary32.fractionBits =
      126 * 2 ^ 23 := rfl
  have hinfinity : binary32.infinityBits = 255 * 2 ^ 23 := rfl
  simp only [hterm, hinfinity]
  omega

/-- **No conversion between types of one size is constant.** -/
theorem convertTo_ne {source destination : TypedArrayType} (hne : source ≠ destination)
    (hsize : source.elementSize = destination.elementSize) :
    source.convertTo destination 0 ≠ source.convertTo destination source.one := by
  have hencode : binary32.encode (.finite 0) ≠ binary32.encode (.finite 1) := by
    rw [encode, encode, if_pos rfl, if_neg one_ne_zero, if_neg (by norm_num)]
    exact encodePositive_one.symm
  cases source <;> cases destination <;> first
    | exact absurd rfl hne
    | exact absurd hsize (by decide)
    | exact hencode
    | decide
    | (simp only [convertTo, one, decode_one]
       decide)

end TypedArrayType

/-! ## 2. The elements of a view -/

namespace View

theorem element_add (view : View) (i j : Nat) :
    view.element (i + j) = view.element i + j * view.type.elementSize := by
  unfold element
  rw [add_mul]
  omega

theorem byteLength_eq (view : View) : view.byteLength = view.length * view.type.elementSize :=
  mod_eq_of_lt view.byteLength_lt

theorem length_lt (view : View) : view.length < 2 ^ 32 :=
  (Nat.le_mul_of_pos_right _ view.type.elementSize_pos).trans_lt view.byteLength_lt

/-- The sum in the check of a range that is inside does not overflow. -/
theorem canAccessRangeQuickly_of_le {view : View} {offset length : Nat}
    (h : offset + length ≤ view.length) :
    view.canAccessRangeQuickly offset length = true := by
  have hlt := view.length_lt
  have hmod : (offset + length) % 2 ^ 32 = offset + length := mod_eq_of_lt (by omega)
  rw [canAccessRangeQuickly, hmod, Bool.and_eq_true, Bool.and_eq_true, decide_eq_true_eq,
    decide_eq_true_eq, decide_eq_true_eq]
  omega

end View

namespace ViewPair

variable (views : ViewPair)

/-- What `set` makes of an element: between views of one type nothing is converted. -/
def elementConversion (native : Nat) : Nat :=
  if views.source.type = views.destination.type then native else views.convert native

/-- **The source was copied as if it had been read first**, and nothing else has changed. -/
structure Copied (offset : Nat) (mem mem' : Memory) : Prop where
  elements : ∀ i < views.source.length,
    views.destination.get mem' (offset + i) = views.elementConversion (views.source.get mem i)
  others : ∀ x, x < views.destination.element offset ∨
    views.destination.element (offset + views.source.length) ≤ x → mem' x = mem x

/-- **The condition on the views and the offset**: the elements that are written do not begin inside
the source where the copy goes upwards through one buffer. -/
def DirectionRight (offset : Nat) : Prop :=
  views.source.type = views.destination.type ∨ views.sharesBuffer = false ∨
    views.destination.type.elementSize ≠ views.source.type.elementSize ∨
    views.source.vector < views.destination.vector ∨
    views.destination.element offset ≤ views.source.vector ∨
    views.source.element views.source.length ≤ views.destination.element offset

variable {views}

theorem convert_mod (native : Nat) :
    views.convert native % 256 ^ views.destination.type.elementSize = views.convert native :=
  mod_eq_of_lt (TypedArrayType.convertTo_lt _ _ native)

/-! ## 3. The ways to copy -/

variable {offset : Nat}

/-- The elements are written inside the range. -/
theorem writeElements_others {value : Memory → Nat → Nat} {indices : List Nat}
    (hindices : ∀ i ∈ indices, i < views.source.length) (mem : Memory) {x : Nat}
    (hx : x < views.destination.element offset ∨
      views.destination.element (offset + views.source.length) ≤ x) :
    writeElements (views.destination.element offset) views.destination.type.elementSize value
      indices mem x =
      mem x := by
  refine writeElements_of_apart (fun i hi => ?_) mem
  have hend := mul_le_mul_right views.destination.type.elementSize (succ_le_of_lt (hindices i hi))
  rw [succ_mul] at hend
  rw [View.element_add] at hx
  omega

/-- Writing an element does not touch another one of the source. -/
def ApartAt (views : ViewPair) (offset : Nat) : Nat → Nat → Prop := fun j i =>
  Apart (views.destination.element (offset + j)) views.destination.type.elementSize
    (views.source.element i)
    views.source.type.elementSize

variable (hne : views.source.type ≠ views.destination.type)

include hne

/-- **One element after the other**, in an order in which none is overwritten before it is read. -/
theorem copied_copy {indices : List Nat} (hnodup : indices.Nodup)
    (hindices : ∀ i, i ∈ indices ↔ i < views.source.length)
    (horder : indices.Pairwise (views.ApartAt offset)) (mem : Memory) :
    views.Copied offset mem (views.copy offset indices mem) where
  elements i hi := by
    unfold ApartAt at horder
    simp only [View.element_add] at horder
    rw [elementConversion, if_neg hne, View.get, View.element_add, ← convert_mod]
    exact copyElements_spec hnodup horder mem ((hindices i).mpr hi)
  others x hx := writeElements_others (fun i => (hindices i).mp) mem hx

/-- **Through the transfer buffer.** -/
theorem copied_writeTransferBuffer (mem : Memory) :
    views.Copied offset mem (views.writeTransferBuffer offset
      ((range views.source.length).map fun i => views.convert (views.source.get mem i)) mem) where
  elements i hi := by
    rw [elementConversion, if_neg hne, View.get, View.element_add, ← convert_mod,
      writeTransferBuffer, length_map, length_range]
    have hvalue :
      ((range views.source.length).map fun i => views.convert (views.source.get mem i)).getD i 0 =
        views.convert (views.source.get mem i) := by
      simp [hi]
    rw [← hvalue]
    exact writeElements_spec (nodup_reverse.mpr nodup_range)
      (pairwise_of_forall fun _ _ _ _ => rfl) mem (by simpa using hi)
  others x hx := by
    rw [writeTransferBuffer, length_map, length_range]
    exact writeElements_others (fun i hi => by simpa using hi) mem hx

omit hne

/-- **By `memmove`.** -/
theorem copied_memmove (heq : views.source.type = views.destination.type) (mem : Memory) :
    views.Copied offset mem
      (memmove mem (views.destination.element offset) views.source.vector views.source.byteLength)
        where
  elements i hi := by
    have hend := mul_le_mul_right views.source.type.elementSize (succ_le_of_lt hi)
    rw [succ_mul] at hend
    rw [elementConversion, if_pos heq, View.get, View.element_add, ← heq, View.byteLength_eq]
    exact read_memmove mem hend
  others x hx := by
    rw [View.element_add, ← heq] at hx
    rw [View.byteLength_eq]
    exact memmove_of_apart hx

/-! ## 4. The directions -/

include hne in
/-- Views that do not share a buffer have no element in common. -/
theorem apart_of_not_sharesBuffer (hshares : views.sharesBuffer = false) {offset i j : Nat}
    (hi : i < views.source.length) (hj : offset + j < views.destination.length) :
    views.ApartAt offset j i := by
  have hapart := views.apart hne.symm (by
    rintro ⟨hsome, hbuffer⟩
    rw [sharesBuffer, ← hbuffer, hsome, beq_self_eq_true] at hshares
    exact absurd hshares (by decide))
  have hsource := mul_le_mul_right views.source.type.elementSize (succ_le_of_lt hi)
  have hdestination := mul_le_mul_right views.destination.type.elementSize (succ_le_of_lt hj)
  rw [succ_mul] at hsource hdestination
  unfold ApartAt Apart View.element at *
  omega

variable (hsize : views.destination.type.elementSize = views.source.type.elementSize)

include hsize

/-- Downwards into what lies behind. -/
theorem apart_of_vector_lt (hvector : views.source.vector < views.destination.vector)
    {offset i j : Nat} (h : i < j) :
    views.ApartAt offset j i := by
  have hmul := mul_le_mul_right views.source.type.elementSize (show i.succ ≤ offset + j by omega)
  rw [succ_mul] at hmul
  unfold ApartAt Apart View.element
  rw [hsize]
  omega

/-- Upwards into what lies before. -/
theorem apart_of_element_le (hoffset : views.destination.element offset ≤ views.source.vector)
    {i j : Nat} (h : j < i) :
    views.ApartAt offset j i := by
  have hmul := mul_le_mul_right views.source.type.elementSize (succ_le_of_lt h)
  rw [succ_mul] at hmul
  rw [ApartAt, View.element_add, hsize]
  unfold Apart View.element at *
  omega

omit hsize

/-- Into what lies behind the whole source. -/
theorem apart_of_le_element
    (hoffset : views.source.element views.source.length ≤ views.destination.element offset)
    {i : Nat} (hi : i < views.source.length) (j : Nat) : views.ApartAt offset j i := by
  have hmul := mul_le_mul_right views.source.type.elementSize (succ_le_of_lt hi)
  rw [succ_mul] at hmul
  rw [ApartAt, View.element_add]
  unfold Apart View.element at *
  omega

/-- The indices from the last one to the first. -/
theorem pairwise_reverse_range {R : Nat → Nat → Prop} {n : Nat} (h : ∀ i j, i < j → j < n → R j i) :
    (range n).reverse.Pairwise R := by
  rw [pairwise_reverse]
  exact pairwise_lt_range.imp_of_mem fun _ hj hlt => h _ _ hlt (mem_range.mp hj)

/-- The indices from the first one to the last. -/
theorem pairwise_range {R : Nat → Nat → Prop} {n : Nat} (h : ∀ i j, j < i → i < n → R j i) :
    (range n).Pairwise R := pairwise_lt_range.imp_of_mem fun _ hi hlt => h _ _ hlt (mem_range.mp hi)

/-! ## 5. `set` -/

section Set

variable {offset : Nat} (hfits : offset + views.source.length ≤ views.destination.length)
include hfits

theorem set_of_type_eq (heq : views.source.type = views.destination.type) (mem : Memory) :
    views.set offset views.source.length mem =
      .ok (memmove mem (views.destination.element offset) views.source.vector
        views.source.byteLength) := by
  rw [set, if_pos heq, min_self]
  dsimp only
  rw [View.canAccessRangeQuickly_of_le hfits]
  rfl

include hne

/-- Between views of two types that fit, `set` is the choice between the three loops. -/
theorem set_of_type_ne (mem : Memory) : views.set offset views.source.length mem =
      if !views.sharesBuffer || (views.destination.type.elementSize == views.source.type.elementSize
        && views.source.vector < views.destination.vector) then
        .ok (views.copy offset (range views.source.length).reverse mem)
      else if views.destination.type.elementSize == views.source.type.elementSize then
        .ok (views.copy offset (range views.source.length) mem)
          else .ok (views.writeTransferBuffer offset ((range views.source.length).map fun i =>
            views.convert (views.source.get mem i)) mem) := by
  rw [set, if_neg hne, setWithSpecificType, min_self, View.canAccessRangeQuickly_of_le hfits]
  simp only [Bool.not_true, Bool.false_eq_true, if_false, ne_eq, not_true_eq_false]

/-- **Downwards**: views without a common buffer, or a destination that begins behind the source. -/
theorem copied_downwards (h : views.sharesBuffer = false ∨ views.destination.type.elementSize =
    views.source.type.elementSize ∧ views.source.vector < views.destination.vector) (mem : Memory) :
    views.Copied offset mem (views.copy offset (range views.source.length).reverse mem) := by
  refine copied_copy hne (nodup_reverse.mpr nodup_range) (fun i => by simp)
    (pairwise_reverse_range fun i j hij hj => ?_) mem
  rcases h with hshares | ⟨hsize, hvector⟩
  · exact apart_of_not_sharesBuffer hne hshares (by omega) (by omega)
  · exact apart_of_vector_lt hsize hvector hij

include hsize in
omit hfits in
/-- **Upwards**: the elements that are written begin before the source, or behind all of it. -/
theorem copied_upwards (h : views.destination.element offset ≤ views.source.vector ∨
      views.source.element views.source.length ≤ views.destination.element offset) (mem : Memory) :
    views.Copied offset mem (views.copy offset (range views.source.length) mem) := by
  refine copied_copy hne nodup_range (fun i => mem_range) (pairwise_range fun i j hij hi => ?_) mem
  rcases h with hbefore | hbehind
  · exact apart_of_element_le hsize hbefore hij
  · exact apart_of_le_element hbehind hi j

omit hne

/-- The condition is enough. -/
theorem set_copies_of_directionRight (h : views.DirectionRight offset) (mem : Memory) :
    ∃ mem', views.set offset views.source.length mem = .ok mem' ∧ views.Copied offset mem mem' := by
  by_cases heq : views.source.type = views.destination.type
  · exact ⟨_, set_of_type_eq hfits heq mem, copied_memmove heq mem⟩
  rw [set_of_type_ne heq hfits]
  split
  next hdown =>
    rw [Bool.or_eq_true, Bool.not_eq_true', Bool.and_eq_true, beq_iff_eq,
      decide_eq_true_eq] at hdown
    exact ⟨_, rfl, copied_downwards heq hfits hdown mem⟩
  next hdown =>
    rw [Bool.or_eq_true, Bool.not_eq_true', Bool.and_eq_true, beq_iff_eq, decide_eq_true_eq, not_or,
      not_and] at hdown
    split
    next hsize =>
      rw [beq_iff_eq] at hsize
      refine ⟨_, rfl, copied_upwards heq hsize ?_ mem⟩
      -- the first four parts of the condition are excluded by the branch
      rcases h with h | h | h | h | h
      · exact absurd h heq
      · exact absurd h hdown.1
      · exact absurd hsize h
      · exact absurd h (hdown.2 hsize)
      · exact h
    next hsize => exact ⟨_, rfl, copied_writeTransferBuffer heq mem⟩

omit hfits in
/-- The first element that is written inside the source is a whole number of elements from its
beginning. -/
theorem exists_element_eq (hshares : views.sharesBuffer = true)
    (hsize : views.destination.type.elementSize = views.source.type.elementSize)
    (hlt : views.source.vector < views.destination.element offset)
    (hend : views.destination.element offset < views.source.element views.source.length) :
    ∃ d, 0 < d ∧ d < views.source.length ∧ views.destination.element offset =
      views.source.element d := by
  rw [sharesBuffer, Bool.and_eq_true, Bool.and_eq_true, beq_iff_eq] at hshares
  obtain ⟨data, i, j, hdestination, hsource⟩ := views.aligned hshares.1.1 hshares.2
  unfold View.element at *
  rw [hsize] at *
  rw [hdestination, hsource] at hlt hend ⊢
  generalize views.source.type.elementSize = n at *
  have hj : j < i + offset := by
    by_contra hle
    have := Nat.mul_le_mul_right n (Nat.le_of_not_lt hle)
    rw [Nat.add_mul] at this
    omega
  obtain ⟨d, hd⟩ := Nat.exists_eq_add_of_lt hj
  have hmul : i * n + offset * n = j * n + (d + 1) * n := by
    rw [← Nat.add_mul, ← Nat.add_mul, hd, Nat.add_assoc]
  refine ⟨d + 1, Nat.succ_pos d, ?_, by omega⟩
  by_contra hle
  have := Nat.mul_le_mul_right n (Nat.le_of_not_lt hle)
  omega

/-- The condition is necessary: otherwise an element arrives that has been converted twice. -/
theorem directionRight_of_set_copies
    (h : ∀ mem, ∃ mem', views.set offset views.source.length mem = .ok mem' ∧
      views.Copied offset mem mem') :
    views.DirectionRight offset := by
  by_contra hcondition
  simp only [DirectionRight, not_or, not_lt, not_le, not_not, Bool.not_eq_false] at hcondition
  obtain ⟨hne, hshares, hsize, hvector, hlt, hend⟩ := hcondition
  obtain ⟨d, hpos, hd, helement⟩ := exists_element_eq hshares hsize hlt hend
  -- element `d` of the source is overwritten by element 0 before it is read
  have htwice (mem : Memory) : views.convert (views.source.get mem d) =
      views.convert (views.convert (views.source.get mem 0)) := by
    obtain ⟨mem', hset, hcopied⟩ := h mem
    rw [set_of_type_ne hne hfits, hshares, hsize, beq_self_eq_true,
      decide_eq_false (not_lt.mpr hvector)] at hset
    injection hset with hmem
    have hread := hcopied.elements d hd
    rw [elementConversion, if_neg hne, ← hmem, View.get, View.element_add, copy, hsize,
      copyElements_overwritten helement hpos hd, ← hsize, convert_mod, convert_mod, hsize] at hread
    rw [← hread, View.get, View.element, zero_mul, add_zero]
  have hany {v : Nat} (hv : v < 256 ^ views.source.type.elementSize) :
      views.convert v = views.convert (views.convert 0) := by
    have hapart : Apart (views.source.element 0) views.source.type.elementSize
        (views.source.element d) views.source.type.elementSize := apart_elements hpos.ne
    obtain ⟨mem, hfirst, hlater⟩ := exists_read_read hapart (by positivity) hv
    have := htwice mem
    rwa [View.get, View.get, hfirst, hlater] at this
  refine TypedArrayType.convertTo_ne hne hsize.symm ?_
  exact (hany (by positivity)).trans (hany views.source.type.one_lt).symm

end Set

/-- **`set` copies as if the source were read first, whatever the bytes are, exactly where its
elements are not written upwards into their own source.** -/
theorem set_copies_iff (views : ViewPair) {offset : Nat}
    (hfits : offset + views.source.length ≤ views.destination.length) :
    (∀ mem, ∃ mem', views.set offset views.source.length mem = .ok mem' ∧
      views.Copied offset mem mem') ↔ views.DirectionRight offset :=
  ⟨directionRight_of_set_copies hfits, fun h mem => set_copies_of_directionRight hfits h mem⟩

/-- A `Uint8Array` of three bytes and an `Int8Array` of the first two of them. -/
def bytesAndSigned : ViewPair where
  destination := ⟨.uint8, 0, 3, some 0, by decide⟩
  source := ⟨.int8, 0, 2, some 0, by decide⟩
  apart _ h := absurd ⟨rfl, rfl⟩ h
  aligned _ _ := ⟨0, 0, 0, rfl, rfl⟩

/-- From the beginning on, the two bytes are copied onto themselves. -/
theorem set_copies_bytes_at_zero :
    0 + bytesAndSigned.source.length ≤ bytesAndSigned.destination.length ∧
      ∃ mem', bytesAndSigned.set 0 2 (fun x => UInt8.ofNat (x + 1)) = .ok mem' ∧
        bytesAndSigned.Copied 0 (fun x => UInt8.ofNat (x + 1)) mem' :=
  ⟨by decide,
    (set_copies_iff bytesAndSigned (by decide)).mpr (.inr (.inr (.inr (.inr (.inl (by decide))))))
      _⟩

/-- **One byte further on**, the bytes 1, 2, 3 become 1, 1, 1: the second byte is overwritten before
it is read. -/
theorem set_overwrites_source :
    ¬∃ mem', bytesAndSigned.set 1 2 (fun x => UInt8.ofNat (x + 1)) = .ok mem' ∧
      bytesAndSigned.Copied 1 (fun x => UInt8.ofNat (x + 1)) mem' := by
  rintro ⟨mem', hset, hcopied⟩
  have hrun : bytesAndSigned.set 1 2 (fun x => UInt8.ofNat (x + 1)) =
      .ok (bytesAndSigned.copy 1 [0, 1] fun x => UInt8.ofNat (x + 1)) := rfl
  rw [hrun] at hset
  injection hset with hmem
  have hread := hcopied.elements 1 (by decide)
  rw [← hmem] at hread
  exact absurd hread (by decide)

end ViewPair

end TypedArray

end JavaScriptCore.Runtime
