/-
# Memory by bytes, and copying it element by element

A memory gives a byte for every address.  `read` and `write` are little-endian accesses of some
bytes, and `memmove` copies a block as if all of it were read first.

`writeElements` is a loop that writes one element after the other, for the indices in a given order,
and `copyElements` the one whose values are elements read elsewhere and converted.
`copyElements_spec` is the rule for it: the elements arrive as they were at the beginning if none is
overwritten before it is read.  `copyElements_overwritten` says what arrives if one is.
-/
import Mathlib.Data.List.Nodup
import Mathlib.Data.Nat.ModEq
import Mathlib.Tactic.Ring

namespace JavaScriptCore.Lib.Bytes

open List Nat

/-- A byte for every address. -/
abbrev Memory : Type := Nat → UInt8

/-- Two blocks of bytes without a common one. -/
def Apart (a n b m : Nat) : Prop := a + n ≤ b ∨ b + m ≤ a

theorem Apart.symm {a n b m : Nat} (h : Apart a n b m) : Apart b m a n := Or.symm h

/-! ## 1. Accesses -/

/-- The number in `n` bytes from `a` on, the lowest byte first. -/
def read (mem : Memory) (a : Nat) : Nat → Nat
  | 0 => 0
  | n + 1 => (mem a).toNat + 256 * read mem (a + 1) n

/-- Writes the lowest `n` bytes of a number from `a` on. -/
def write (mem : Memory) (a n v : Nat) : Memory := fun x =>
  if a ≤ x ∧ x < a + n then UInt8.ofNat (v / 256 ^ (x - a)) else mem x

/-- Copies `n` bytes from `src` to `dst`. -/
def memmove (mem : Memory) (dst src n : Nat) : Memory := fun x =>
  if dst ≤ x ∧ x < dst + n then mem (src + (x - dst)) else mem x

theorem read_congr {mem mem' : Memory} {a b n : Nat} (h : ∀ k < n, mem' (b + k) = mem (a + k)) :
    read mem' b n = read mem a n := by
  induction n generalizing a b with
  | zero => rfl
  | succ n ih =>
    have htail : read mem' (b + 1) n = read mem (a + 1) n := by
      refine ih fun k hk => ?_
      have := h (k + 1) (by omega)
      rwa [add_assoc, add_assoc, add_comm 1 k]
    rw [read, read, htail, show mem' b = mem a from h 0 (succ_pos n)]

theorem write_of_apart {mem : Memory} {a n v x : Nat} (h : x < a ∨ a + n ≤ x) :
    write mem a n v x = mem x := by
  rw [write, if_neg (by omega)]

/-- A write elsewhere is not seen. -/
theorem read_write_of_apart {mem : Memory} {a n v b m : Nat} (h : Apart a n b m) :
    read (write mem a n v) b m = read mem b m := by
  refine read_congr fun k hk => write_of_apart ?_
  unfold Apart at h
  omega

/-- What was written is read. -/
theorem read_write (mem : Memory) (a n v : Nat) : read (write mem a n v) a n = v % 256 ^ n := by
  induction n generalizing mem a v with
  | zero => rw [read, pow_zero, mod_one]
  | succ n ih =>
    have hfirst : (write mem a (n + 1) v a).toNat = v % 256 := by
      rw [write, if_pos ⟨Nat.le_refl a, by omega⟩, Nat.sub_self, pow_zero, Nat.div_one]
      exact UInt8.toNat_ofNat'
    have hrest : read (write mem a (n + 1) v) (a + 1) n =
        read (write mem (a + 1) n (v / 256)) (a + 1) n := by
      refine read_congr fun k hk => ?_
      rw [write, write, if_pos ⟨by omega, by omega⟩, if_pos ⟨by omega, by omega⟩,
        Nat.div_div_eq_div_mul]
      congr 2
      rw [show a + 1 + k - a = (a + 1 + k - (a + 1)) + 1 by omega, pow_succ, mul_comm]
    rw [read, hfirst, hrest, ih, pow_succ, mul_comm (256 ^ n), mod_mul]

theorem memmove_of_apart {mem : Memory} {dst src n x : Nat} (h : x < dst ∨ dst + n ≤ x) :
    memmove mem dst src n x = mem x := by
  rw [memmove, if_neg (by omega)]

/-- A part of what was copied. -/
theorem read_memmove (mem : Memory) {dst src n k m : Nat} (h : k + m ≤ n) :
    read (memmove mem dst src n) (dst + k) m = read mem (src + k) m := by
  refine read_congr fun j hj => ?_
  rw [memmove, if_pos ⟨by omega, by omega⟩]
  congr 1
  omega

/-- A memory with two given elements. -/
theorem exists_read_read {a b n v w : Nat} (h : Apart a n b n) (hv : v < 256 ^ n)
    (hw : w < 256 ^ n) :
    ∃ mem : Memory, read mem a n = v ∧ read mem b n = w := by
  refine ⟨write (write (fun _ => 0) a n v) b n w, ?_, ?_⟩
  · rw [read_write_of_apart h.symm, read_write, mod_eq_of_lt hv]
  · rw [read_write, mod_eq_of_lt hw]

/-! ## 2. Writing element by element -/

section Write

variable (dst n : Nat) (value : Memory → Nat → Nat)

/-- Writes the `i`th element from `dst` on, with a value that may depend on the memory. -/
def writeElement (mem : Memory) (i : Nat) : Memory := write mem (dst + i * n) n (value mem i)

/-- Writes the elements with these indices, in this order. -/
def writeElements (indices : List Nat) (mem : Memory) : Memory :=
  indices.foldl (writeElement dst n value) mem

variable {dst n value}

theorem apart_elements {i j : Nat} (h : i ≠ j) : Apart (dst + i * n) n (dst + j * n) n := by
  unfold Apart
  rcases lt_or_gt_of_ne h with h | h
  · have := mul_le_mul_right n (show i + 1 ≤ j from h)
    rw [add_mul, one_mul] at this
    omega
  · have := mul_le_mul_right n (show j + 1 ≤ i from h)
    rw [add_mul, one_mul] at this
    omega

/-- What lies apart from all elements that are written stays. -/
theorem writeElements_of_apart {indices : List Nat} {x : Nat}
    (h : ∀ i ∈ indices, x < dst + i * n ∨ dst + i * n + n ≤ x) (mem : Memory) :
    writeElements dst n value indices mem x = mem x := by
  induction indices generalizing mem with
  | nil => rfl
  | cons i indices ih =>
    rw [writeElements, foldl_cons]
    refine (ih (fun j hj => h j (mem_cons_of_mem i hj)) _).trans ?_
    exact write_of_apart (h i mem_cons_self)

/-- An element is not written again. -/
theorem read_writeElements_of_not_mem {indices : List Nat} {i : Nat} (hi : i ∉ indices)
    (mem : Memory) :
    read (writeElements dst n value indices mem) (dst + i * n) n = read mem (dst + i * n) n := by
  refine read_congr fun k hk => writeElements_of_apart (fun j hj => ?_) mem
  have hne : j ≠ i := fun h => hi (h ▸ hj)
  have hapart : Apart (dst + j * n) n (dst + i * n) n := apart_elements hne
  unfold Apart at hapart
  omega

/-- **The loop writes the values of the beginning** if no value depends on an element that is
written before it is computed. -/
theorem writeElements_spec {indices : List Nat} (hnodup : indices.Nodup)
    (horder : indices.Pairwise fun j i => ∀ mem v,
      value (write mem (dst + j * n) n v) i = value mem i)
    (mem : Memory) {i : Nat} (hi : i ∈ indices) :
    read (writeElements dst n value indices mem) (dst + i * n) n = value mem i % 256 ^ n := by
  induction indices generalizing mem with
  | nil => cases hi
  | cons j indices ih =>
    rw [nodup_cons] at hnodup
    rw [pairwise_cons] at horder
    rw [writeElements, foldl_cons]
    rcases mem_cons.mp hi with rfl | hi
    · refine (read_writeElements_of_not_mem hnodup.1 _).trans ?_
      rw [writeElement, read_write]
    · refine (ih hnodup.2 horder.2 _ hi).trans ?_
      rw [writeElement, horder.1 i hi]

end Write

/-! ## 3. Copying element by element -/

section Copy

variable (dst n src m : Nat) (convert : Nat → Nat)

/-- Copies the elements with these indices, in this order: reads the `i`th element from `src`,
converts it and writes it as the `i`th element from `dst`. -/
def copyElements (indices : List Nat) (mem : Memory) : Memory :=
  writeElements dst n (fun mem i => convert (read mem (src + i * m) m)) indices mem

variable {dst n src m convert}

/-- **The loop copies** if no element is overwritten before it is read. -/
theorem copyElements_spec {indices : List Nat} (hnodup : indices.Nodup)
    (horder : indices.Pairwise fun j i => Apart (dst + j * n) n (src + i * m) m) (mem : Memory)
    {i : Nat} (hi : i ∈ indices) :
    read (copyElements dst n src m convert indices mem) (dst + i * n) n =
      convert (read mem (src + i * m) m) % 256 ^ n := by
  refine writeElements_spec hnodup (horder.imp ?_) mem hi
  intro j i hapart mem v
  rw [read_write_of_apart hapart]

/-- **Upwards into its own source**: where the first element is written over a later one, the later
one arrives as the first one, converted twice. -/
theorem copyElements_overwritten {d length : Nat} (hdst : dst = src + d * n) (hpos : 0 < d)
    (hd : d < length) (mem : Memory) :
    read (copyElements dst n src n convert (range length) mem) (dst + d * n) n =
      convert (convert (read mem src n) % 256 ^ n) % 256 ^ n := by
  -- the element `d` is read after the elements below it have been written, and not written
  -- afterwards
  have hrange : range length = (range d ++ [d]) ++ (range (length - (d + 1))).map (d + 1 + ·) := by
    rw [← range_succ, ← range_add]
    congr 1
    omega
  have hbelow : range d = 0 :: (range (d - 1)).map (1 + ·) := by
    obtain ⟨e, rfl⟩ : ∃ e, d = 1 + e := ⟨d - 1, by omega⟩
    rw [range_add, Nat.add_sub_cancel_left]
    rfl
  have hread : read (copyElements dst n src n convert (range d) mem) (src + d * n) n =
      convert (read mem src n) % 256 ^ n := by
    rw [← hdst, hbelow, copyElements, writeElements, foldl_cons]
    have hfirst : (0 : Nat) ∉ (range (d - 1)).map (1 + ·) := by simp
    have hlater (value : Memory → Nat → Nat) (mem : Memory) :
        read (writeElements dst n value ((range (d - 1)).map (1 + ·)) mem) dst n =
          read mem dst n := by
      have hstays : read (writeElements dst n value _ mem) (dst + 0 * n) n = _ :=
        read_writeElements_of_not_mem hfirst mem
      rwa [zero_mul, add_zero] at hstays
    refine (hlater _ _).trans ?_
    rw [writeElement, zero_mul, add_zero, add_zero, read_write]
  rw [hrange, copyElements, writeElements, foldl_append, foldl_append, foldl_cons, foldl_nil]
  have hlast : d ∉ (range (length - (d + 1))).map (d + 1 + ·) := by
    rw [mem_map]
    rintro ⟨x, -, hx⟩
    omega
  refine (read_writeElements_of_not_mem hlast _).trans ?_
  rw [writeElement, read_write]
  exact congrArg (fun v => convert v % 256 ^ n) hread

end Copy

end JavaScriptCore.Lib.Bytes
