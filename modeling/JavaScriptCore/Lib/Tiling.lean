/-
# Tilings of a set of addresses by spans

A `Span` is a half-open interval `[start, start + size)` of natural numbers, possibly empty.  A list
of spans tiles a set if the spans are pairwise disjoint and their union is the set.

Proofs about tilings count: `cover rs a` is the number of spans of `rs` that contain `a`.  Counting
forgets the order of the list, adds up over concatenation, and does not see a span cut in two
(`cover_cut`), so an operation that only moves, splits and joins spans keeps it by arithmetic.
`tiles_iff_cover` translates back.

`Apart` is the relation between two free spans of an allocator that coalesces: neither overlapping
nor touching.  `Within` says that spans are disjoint and all in one interval; such lists are put one
behind the other.
-/
import Mathlib.Algebra.BigOperators.Group.Finset.Piecewise
import Mathlib.Algebra.GroupWithZero.Nat
import Mathlib.Algebra.Order.BigOperators.Group.Finset
import Mathlib.Order.Interval.Finset.Nat

namespace Tiling

open Finset

structure Span where
  start : Nat
  size : Nat
  deriving DecidableEq, Repr

namespace Span

/-- One past the last address. -/
def stop (r : Span) : Nat := r.start + r.size

instance : Membership Nat Span := ⟨fun r a => r.start ≤ a ∧ a < r.stop⟩

theorem mem_iff {a : Nat} {r : Span} : a ∈ r ↔ r.start ≤ a ∧ a < r.start + r.size := Iff.rfl

instance (a : Nat) (r : Span) : Decidable (a ∈ r) :=
  inferInstanceAs (Decidable (_ ∧ _))

/-- No address is in both. -/
def Disjoint (r s : Span) : Prop := ∀ a, a ∈ r → a ∉ s

/-- Neither overlapping nor touching. -/
def Apart (r s : Span) : Prop := r.stop < s.start ∨ s.stop < r.start

theorem Apart.symm {r s : Span} (h : r.Apart s) : s.Apart r := Or.symm h

instance : Std.Symm Apart := ⟨fun _ _ => Apart.symm⟩

/-- Nonempty disjoint spans lie one behind the other. -/
theorem Disjoint.before {r s : Span} (h : r.Disjoint s) (hr : 0 < r.size) (hs : 0 < s.size) :
    r.stop ≤ s.start ∨ s.stop ≤ r.start := by
  by_contra hcon
  rw [not_or, Nat.not_le, Nat.not_le] at hcon
  -- the larger of the two starts is in both
  have hmax : max r.start s.start ∈ r ∧ max r.start s.start ∈ s := by
    unfold stop at hcon
    constructor <;> rw [mem_iff] <;> omega
  exact h _ hmax.1 hmax.2

end Span

/-! ## 1. Counting -/

/-- How many of the spans contain `a`. -/
def cover (rs : List Span) (a : Nat) : Nat := rs.countP (fun r => decide (a ∈ r))

/-- The sum of the sizes. -/
def total (rs : List Span) : Nat := (rs.map Span.size).sum

@[simp] theorem total_nil : total [] = 0 := rfl

@[simp] theorem cover_nil (a : Nat) : cover [] a = 0 := rfl

@[simp] theorem cover_cons (r : Span) (rs : List Span) (a : Nat) :
    cover (r :: rs) a = cover rs a + if a ∈ r then 1 else 0 := by
  simp [cover, List.countP_cons]

@[simp] theorem cover_append (rs ts : List Span) (a : Nat) :
    cover (rs ++ ts) a = cover rs a + cover ts a := List.countP_append

@[simp] theorem total_cons (r : Span) (rs : List Span) : total (r :: rs) = r.size + total rs := by
  simp [total]

@[simp] theorem total_append (rs ts : List Span) : total (rs ++ ts) = total rs + total ts := by
  simp [total]

variable {rs ts : List Span}

theorem cover_perm (h : rs.Perm ts) (a : Nat) : cover rs a = cover ts a := h.countP_eq _

theorem total_perm (h : rs.Perm ts) : total rs = total ts := (h.map Span.size).sum_eq

/-- **A span cut in two contains the same addresses, each once.** -/
theorem cover_cut {s m n a : Nat} : (if a ∈ (⟨s, m + n⟩ : Span) then 1 else 0)
      = (if a ∈ (⟨s, m⟩ : Span) then 1 else 0) + if a ∈ (⟨s + m, n⟩ : Span) then 1 else 0 := by
  simp only [Span.mem_iff]
  split_ifs <;> omega

variable {rs : List Span}

theorem cover_pos_iff {a : Nat} : 0 < cover rs a ↔ ∃ r ∈ rs, a ∈ r := by
  simp [cover, List.countP_pos_iff]

/-! ## 2. Tilings -/

/-- Pairwise disjoint, and the union is `S`. -/
structure Tiles (rs : List Span) (S : Set Nat) : Prop where
  disjoint : rs.Pairwise Span.Disjoint
  covers : ∀ a, a ∈ S ↔ ∃ r ∈ rs, a ∈ r

theorem pairwise_disjoint_iff_cover : rs.Pairwise Span.Disjoint ↔ ∀ a, cover rs a ≤ 1 := by
  induction rs with
  | nil => simp
  | cons r rs ih =>
    rw [List.pairwise_cons, ih]
    constructor
    · rintro ⟨hr, hrs⟩ a
      rw [cover_cons]
      split_ifs with ha
      · have hzero : ¬ 0 < cover rs a := by
          rw [cover_pos_iff]
          rintro ⟨s, hs, has⟩
          exact hr s hs a ha has
        omega
      · exact hrs a
    · intro h
      refine ⟨fun s hs a har has => ?_, fun a => ?_⟩
      · have hpos : 0 < cover rs a := cover_pos_iff.2 ⟨s, hs, has⟩
        have := h a
        rw [cover_cons, if_pos har] at this
        omega
      · have := h a
        rw [cover_cons] at this
        omega

/-- **A tiling counts every address of the set once and no other.** -/
theorem tiles_iff_cover {S : Set Nat} :
    Tiles rs S ↔ ∀ a, cover rs a ≤ 1 ∧ (0 < cover rs a ↔ a ∈ S) := by
  constructor
  · rintro ⟨hd, hc⟩ a
    exact ⟨pairwise_disjoint_iff_cover.1 hd a, by rw [cover_pos_iff, hc a]⟩
  · intro h
    exact ⟨pairwise_disjoint_iff_cover.2 fun a => (h a).1,
      fun a => by rw [← (h a).2, cover_pos_iff]⟩

/-! ## 3. Sizes -/

/-- The sizes add up to the number of addresses, each counted as often as it is covered. -/
theorem total_eq_sum_cover {n : Nat} (h : ∀ r ∈ rs, r.stop ≤ n) :
    total rs = ∑ a ∈ range n, cover rs a := by
  induction rs with
  | nil => simp
  | cons r rs ih =>
    have hr : r.stop ≤ n := h r List.mem_cons_self
    have hico : (range n).filter (· ∈ r) = Finset.Ico r.start r.stop := by
      ext a
      simp only [mem_filter, mem_range, mem_Ico, Span.mem_iff, Span.stop] at *
      omega
    have hcard : ∑ a ∈ range n, (if a ∈ r then 1 else 0) = r.size := by
      rw [← card_filter, hico, Nat.card_Ico, Span.stop, Nat.add_sub_cancel_left]
    simp only [cover_cons, sum_add_distrib, hcard, total_cons,
      ih fun s hs => h s (List.mem_cons_of_mem _ hs)]
    exact Nat.add_comm _ _

theorem exists_stop_le (rs : List Span) : ∃ n, ∀ r ∈ rs, r.stop ≤ n := by
  induction rs with
  | nil => exact ⟨0, by simp⟩
  | cons r rs ih =>
    obtain ⟨n, hn⟩ := ih
    refine ⟨max r.stop n, ?_⟩
    rintro s (_ | ⟨_, hs⟩)
    · exact Nat.le_max_left _ _
    · exact (hn s hs).trans (Nat.le_max_right _ _)

/-- Lists that cover alike have the same total size. -/
theorem total_eq_of_cover_eq (h : ∀ a, cover rs a = cover ts a) :
    total rs = total ts := by
  obtain ⟨n, hn⟩ := exists_stop_le (rs ++ ts)
  rw [total_eq_sum_cover fun r hr => hn r (List.mem_append_left _ hr),
    total_eq_sum_cover fun r hr => hn r (List.mem_append_right _ hr)]
  exact sum_congr rfl fun a _ => h a

/-- Disjoint spans below `n` have at most `n` addresses in all. -/
theorem total_le_of_disjoint {n : Nat} (hd : ∀ a, cover rs a ≤ 1)
    (h : ∀ r ∈ rs, r.stop ≤ n) : total rs ≤ n := by
  rw [total_eq_sum_cover h]
  calc ∑ a ∈ range n, cover rs a ≤ ∑ _a ∈ range n, 1 :=
        sum_le_sum fun a _ => hd a
    _ = n := by simp

/-! ## 4. Spans in an interval -/

/-- Disjoint spans, all between `lo` and `hi`. -/
structure Within (lo hi : Nat) (rs : List Span) : Prop where
  le : lo ≤ hi
  inside : ∀ r ∈ rs, lo ≤ r.start ∧ r.stop ≤ hi
  disjoint : rs.Pairwise Span.Disjoint

theorem Within.mono {lo hi hi' : Nat} (h : Within lo hi rs) (hhi : hi ≤ hi') :
    Within lo hi' rs :=
  ⟨h.le.trans hhi, fun r hr => ⟨(h.inside r hr).1, (h.inside r hr).2.trans hhi⟩, h.disjoint⟩

theorem Within.append {lo mid hi : Nat} (hrs : Within lo mid rs)
    (hts : Within mid hi ts) : Within lo hi (rs ++ ts) where
  le := hrs.le.trans hts.le
  inside := List.forall_mem_append.2 ⟨(hrs.mono hts.le).inside, fun r hr =>
    ⟨hrs.le.trans (hts.inside r hr).1, (hts.inside r hr).2⟩⟩
  disjoint := by
    refine List.pairwise_append.2 ⟨hrs.disjoint, hts.disjoint, fun r hr t ht a har hat => ?_⟩
    have hlt : a < mid := Nat.lt_of_lt_of_le har.2 (hrs.inside r hr).2
    exact absurd ((hts.inside t ht).1.trans hat.1) (Nat.not_le.2 hlt)

end Tiling
