/-
# Character classes of regular expressions

`CharacterClassConstructor` collects the characters and the ranges of a class in sorted vectors,
those of ASCII apart from the others.  `addSorted` finds the place of a character by a binary
search.  `addSortedRange` walks over the ranges and merges the new one with those that it overlaps
or touches.

Every sequence of calls leaves the vectors canonical, and they hold what was added
(`run_canonical`).  A bound such as `ranges[i].end + 1` is computed in `int` from a 16-bit
character, so it does not wrap around.
-/
import Mathlib.Data.List.GetD
import Mathlib.Data.List.Induction
import Mathlib.Tactic.SplitIfs
import Mathlib.Tactic.Tauto

namespace JavaScriptCore.Yarr

open List

/-! ## 1. The vectors -/

structure CharacterRange where
  begin : Nat
  end_ : Nat

def CharacterRange.Has (r : CharacterRange) (x : Nat) : Prop := r.begin ≤ x ∧ x ≤ r.end_

/-- The vectors of a class, and the two that hold the characters above `0x7f`. -/
structure CharacterClassConstructor where
  m_matches : List Nat := []
  m_ranges : List CharacterRange := []
  m_matchesUnicode : List Nat := []
  m_rangesUnicode : List CharacterRange := []

namespace CharacterClassConstructor

/-- The loop of `addSorted`: where the character goes, or `none` if it is there already. -/
def chop (chars : List Nat) (ch pos range : Nat) : Option Nat :=
  if range = 0 then some pos
  else
    let index := range / 2
    let c := chars.getD (pos + index) 0
    if c = ch then none
    else if c > ch then chop chars ch pos index
    else chop chars ch (pos + (index + 1)) (range - (index + 1))
  termination_by range

def addSorted (chars : List Nat) (ch : Nat) : List Nat :=
  match chop chars ch 0 chars.length with
  | none => chars
  | some pos =>
    if pos = chars.length then chars ++ [ch] else chars.take pos ++ ch :: chars.drop pos

/-- The inner loop of `addSortedRange`: `r` takes in the ranges after it that it reaches. -/
def subsume (r : CharacterRange) : List CharacterRange → List CharacterRange
  | [] => [r]
  | next :: rest =>
    if next.begin ≤ r.end_ + 1 then subsume ⟨r.begin, max r.end_ next.end_⟩ rest
    else r :: next :: rest

def addSortedRange (ranges : List CharacterRange) (lo hi : Nat) : List CharacterRange :=
  match ranges with
  | [] => [⟨lo, hi⟩]
  | r :: rest =>
    if hi < r.begin then
      if hi = r.begin - 1 then ⟨lo, r.end_⟩ :: rest else ⟨lo, hi⟩ :: r :: rest
    else if lo ≤ r.end_ + 1 then subsume ⟨min r.begin lo, max r.end_ hi⟩ rest
    else r :: addSortedRange rest lo hi

/-- The calls, each with whether it is made on a vector of characters above `0x7f`.  A range is not
empty. -/
inductive Call where
  | addSorted (unicode : Bool) (ch : Nat)
  | addSortedRange (unicode : Bool) (lo hi : Nat) (h : lo ≤ hi)

def call (c : CharacterClassConstructor) : Call → CharacterClassConstructor
  | .addSorted false ch => { c with m_matches := addSorted c.m_matches ch }
  | .addSorted true ch => { c with m_matchesUnicode := addSorted c.m_matchesUnicode ch }
  | .addSortedRange false lo hi _ => { c with m_ranges := addSortedRange c.m_ranges lo hi }
  | .addSortedRange true lo hi _ =>
    { c with m_rangesUnicode := addSortedRange c.m_rangesUnicode lo hi }

/-! ## 2. Characters -/

variable {chars : List Nat} {ch : Nat}

/-- The characters up to one of a sorted vector, and those from it on. -/
theorem sorted_split (hs : chars.Pairwise (· < ·)) {k : Nat} (hk : k < chars.length) :
    chars.getD k 0 ∈ chars ∧
    (∀ x ∈ chars.take (k + 1), x ≤ chars.getD k 0) ∧ ∀ x ∈ chars.drop k, chars.getD k 0 ≤ x := by
  rw [getD_eq_getElem _ _ hk]
  have hdrop := drop_eq_getElem_cons hk
  rw [← take_append_drop k chars, hdrop, pairwise_append, pairwise_cons] at hs
  refine ⟨getElem_mem hk, ?_, ?_⟩
  · rw [take_succ_eq_append_getElem hk]
    simp only [mem_append, mem_singleton]
    rintro x (hx | rfl)
    · exact Nat.le_of_lt (hs.2.2 x hx _ mem_cons_self)
    · exact Nat.le_refl _
  · rw [hdrop]
    simp only [mem_cons]
    rintro x (rfl | hx)
    · exact Nat.le_refl _
    · exact Nat.le_of_lt (hs.2.1.1 x hx)

/-- The character is there, or it belongs to the place that was found. -/
def Place (chars : List Nat) (ch : Nat) : Option Nat → Prop
  | none => ch ∈ chars
  | some p => (∀ x ∈ chars.take p, x < ch) ∧ ∀ x ∈ chars.drop p, ch < x

/-- **The binary search**: what is before `pos` is smaller, and what is after the range is larger.
-/
theorem chop_spec (hs : chars.Pairwise (· < ·)) {pos range : Nat} (hle : pos + range ≤ chars.length)
    (hlow : ∀ x ∈ chars.take pos, x < ch) (hhigh : ∀ x ∈ chars.drop (pos + range), ch < x) :
    Place chars ch (chop chars ch pos range) := by
  fun_induction chop chars ch pos range with
  | case1 pos => exact ⟨hlow, hhigh⟩
  | case2 pos range _ index c hc => exact hc ▸ (sorted_split hs (show pos + index < _ by omega)).1
  | case3 pos range _ index c _ hgt ih =>
    have hsplit := sorted_split hs (show pos + index < _ by omega)
    exact ih (by omega) hlow fun x hx => Nat.lt_of_lt_of_le hgt (hsplit.2.2 x hx)
  | case4 pos range _ index c hne hgt ih =>
    have hsplit := sorted_split hs (show pos + index < _ by omega)
    refine ih (by omega) (fun x hx => ?_) fun x hx => hhigh x ?_
    · exact Nat.lt_of_le_of_lt (hsplit.2.1 x hx) (by omega)
    · rwa [show pos + range = pos + (index + 1) + (range - (index + 1)) by omega]

theorem addSorted_spec (hs : chars.Pairwise (· < ·)) (ch : Nat) :
    (addSorted chars ch).Pairwise (· < ·) ∧ ∀ x, x ∈ addSorted chars ch ↔ x = ch ∨ x ∈ chars := by
  have hchop : Place chars ch (chop chars ch 0 chars.length) :=
    chop_spec hs (by simp) (by simp) (by simp)
  unfold addSorted
  cases hp : chop chars ch 0 chars.length with
  | none =>
    rw [hp] at hchop
    exact ⟨hs, fun x => ⟨.inr, fun hx => hx.elim (· ▸ hchop) id⟩⟩
  | some p =>
    rw [hp] at hchop
    have hinsert : (if p = chars.length then chars ++ [ch] else chars.take p ++ ch :: chars.drop p)
        = chars.take p ++ ch :: chars.drop p := by
      split_ifs with hlast
      · rw [hlast, take_length, drop_length]
      · rfl
    rw [← take_append_drop p chars, pairwise_append] at hs
    simp only [hinsert]
    refine ⟨pairwise_append.2 ⟨hs.1, pairwise_cons.2 ⟨hchop.2, hs.2.1⟩, fun x hx => ?_⟩,
      fun x => ?_⟩
    · exact forall_mem_cons.2 ⟨hchop.1 x hx, hs.2.2 x hx⟩
    · have hmem : x ∈ chars ↔ x ∈ chars.take p ∨ x ∈ chars.drop p := by
        rw [← mem_append, take_append_drop]
      simp only [hmem, mem_append, mem_cons]
      tauto

/-! ## 3. Ranges -/

def Covers (ranges : List CharacterRange) (x : Nat) : Prop := ∃ r ∈ ranges, r.Has x

/-- **The ranges are sorted**, and between two of them a character is missing. -/
def Canonical (ranges : List CharacterRange) : Prop :=
  (∀ r ∈ ranges, r.begin ≤ r.end_) ∧ ranges.Pairwise fun r s => r.end_ + 1 < s.begin

/-- The result is canonical, starts where it should, and covers what `r` has in addition. -/
structure Adds (r : CharacterRange) (ranges result : List CharacterRange) : Prop where
  canonical : Canonical result
  first : ∀ b ≤ r.begin, (∀ s ∈ ranges, b ≤ s.begin) → ∀ s ∈ result, b ≤ s.begin
  covers : ∀ x, Covers result x ↔ r.Has x ∨ Covers ranges x

variable {r : CharacterRange} {ranges : List CharacterRange}

@[simp] theorem covers_cons {x : Nat} : Covers (r :: ranges) x ↔ r.Has x ∨ Covers ranges x := by
  simp [Covers]

theorem canonical_cons : Canonical (r :: ranges) ↔
    r.begin ≤ r.end_ ∧ (∀ s ∈ ranges, r.end_ + 1 < s.begin) ∧ Canonical ranges := by
  simp only [Canonical, forall_mem_cons, pairwise_cons]
  tauto

theorem adds_subsume (hr : r.begin ≤ r.end_) (h : Canonical ranges)
    (hle : ∀ s ∈ ranges, r.begin ≤ s.begin) :
    Adds r ranges (subsume r ranges) := by
  fun_induction subsume r ranges with
  | case1 r => exact ⟨by simp [Canonical, hr], by simp, fun x => by simp⟩
  | case2 r next rest hreach ih =>
    obtain ⟨hnext, hsep, hrest⟩ := canonical_cons.1 h
    rw [forall_mem_cons] at hle
    obtain ⟨hcanonical, hfirst, hcovers⟩ := ih (by simp; omega) hrest hle.2
    refine ⟨hcanonical, fun b hb hall => hfirst b hb (forall_mem_cons.1 hall).2,
      fun x => (hcovers x).trans ?_⟩
    have hunion : CharacterRange.Has ⟨r.begin, max r.end_ next.end_⟩ x ↔ r.Has x ∨ next.Has x := by
      simp only [CharacterRange.Has]
      omega
    rw [hunion, or_assoc, covers_cons]
  | case3 r next rest hreach =>
    obtain ⟨hnext, hsep, hrest⟩ := canonical_cons.1 h
    refine ⟨canonical_cons.2 ⟨hr, forall_mem_cons.2 ⟨by omega, fun s hs => ?_⟩, h⟩, ?_,
      fun x => covers_cons⟩
    · have := hsep s hs
      omega
    · exact fun b hb hall => forall_mem_cons.2 ⟨hb, hall⟩

theorem adds_addSortedRange {lo hi : Nat} (hlo : lo ≤ hi) (h : Canonical ranges) :
    Adds ⟨lo, hi⟩ ranges (addSortedRange ranges lo hi) := by
  induction ranges with
  | nil =>
    exact ⟨by simp [Canonical, addSortedRange, hlo], by simp [addSortedRange], fun x => covers_cons⟩
  | cons r rest ih =>
    obtain ⟨hr, hsep, hrest⟩ := canonical_cons.1 h
    rw [addSortedRange]
    split_ifs with hbefore htouch hmeets
    · refine ⟨canonical_cons.2 ⟨by simp; omega, hsep, hrest⟩, ?_, fun x => ?_⟩
      · exact fun b hb hall => forall_mem_cons.2 ⟨hb, (forall_mem_cons.1 hall).2⟩
      · simp only [covers_cons, CharacterRange.Has, ← or_assoc]
        refine or_congr_left ?_
        omega
    · refine ⟨canonical_cons.2 ⟨hlo, forall_mem_cons.2 ⟨by simp; omega, fun s hs => ?_⟩, h⟩, ?_,
        fun x => covers_cons⟩
      · have := hsep s hs
        simp only
        omega
      · exact fun b hb hall => forall_mem_cons.2 ⟨hb, hall⟩
    · obtain ⟨hcanonical, hfirst, hcovers⟩ :=
        adds_subsume (r := ⟨min r.begin lo, max r.end_ hi⟩) (by simp; omega) hrest
        fun s hs => by
          have := hsep s hs
          simp only
          omega
      refine ⟨hcanonical, fun b hb hall => ?_, fun x => (hcovers x).trans ?_⟩
      · rw [forall_mem_cons] at hall
        exact hfirst b (Nat.le_min.2 ⟨hall.1, hb⟩) hall.2
      · simp only [covers_cons, CharacterRange.Has, ← or_assoc]
        refine or_congr_left ?_
        omega
    · obtain ⟨hcanonical, hfirst, hcovers⟩ := ih hrest
      refine ⟨canonical_cons.2 ⟨hr, ?_, hcanonical⟩, fun b hb hall => ?_, fun x => ?_⟩
      · exact hfirst (r.end_ + 2) (by simp; omega) hsep
      · rw [forall_mem_cons] at hall
        exact forall_mem_cons.2 ⟨hall.1, hfirst b hb hall.2⟩
      · rw [covers_cons, hcovers, covers_cons, or_left_comm]

/-! ## 4. Runs -/

/-- A vector of characters is sorted and holds the added ones. -/
structure HoldsMatches (chars : List Nat) (unicode : Bool) (calls : List Call) : Prop where
  sorted : chars.Pairwise (· < ·)
  mem_iff : ∀ x, x ∈ chars ↔ .addSorted unicode x ∈ calls

/-- A vector of ranges is canonical and covers the union of the added ones. -/
structure HoldsRanges (ranges : List CharacterRange) (unicode : Bool) (calls : List Call) :
    Prop where
  canonical : Canonical ranges
  covers_iff : ∀ x, Covers ranges x ↔
    ∃ lo hi h, .addSortedRange unicode lo hi h ∈ calls ∧ lo ≤ x ∧ x ≤ hi

section

variable {unicode : Bool} {calls : List Call}

theorem HoldsMatches.addSorted (h : HoldsMatches chars unicode calls) (ch : Nat) :
    HoldsMatches (addSorted chars ch) unicode (calls ++ [.addSorted unicode ch]) := by
  obtain ⟨hsorted, hmem⟩ := addSorted_spec h.sorted ch
  refine ⟨hsorted, fun x => (hmem x).trans ?_⟩
  rw [h.mem_iff, mem_append, mem_singleton, Call.addSorted.injEq, or_comm]
  simp

/-- A call on another vector adds no character to this one. -/
theorem HoldsMatches.other (h : HoldsMatches chars unicode calls) {call : Call}
    (hcall : ∀ ch, call ≠ .addSorted unicode ch) :
    HoldsMatches chars unicode (calls ++ [call]) := by
  refine ⟨h.sorted, fun x => (h.mem_iff x).trans ?_⟩
  simp [(hcall x).symm]

theorem HoldsRanges.addSortedRange (h : HoldsRanges ranges unicode calls) {lo hi : Nat}
    (hlo : lo ≤ hi) :
    HoldsRanges (addSortedRange ranges lo hi) unicode
      (calls ++ [.addSortedRange unicode lo hi hlo]) := by
  have hadds := adds_addSortedRange hlo h.canonical
  refine ⟨hadds.canonical, fun x => (hadds.covers x).trans ?_⟩
  rw [h.covers_iff]
  simp only [mem_append, mem_singleton]
  constructor
  · rintro (hx | ⟨lo', hi', h', hcall, hx⟩)
    · exact ⟨lo, hi, hlo, .inr rfl, hx⟩
    · exact ⟨lo', hi', h', .inl hcall, hx⟩
  · rintro ⟨lo', hi', h', hcall | hcall, hx⟩
    · exact .inr ⟨lo', hi', h', hcall, hx⟩
    · cases hcall
      exact .inl hx

/-- A call on another vector adds no range to this one. -/
theorem HoldsRanges.other (h : HoldsRanges ranges unicode calls) {call : Call}
    (hcall : ∀ lo hi hlo, call ≠ .addSortedRange unicode lo hi hlo) :
    HoldsRanges ranges unicode (calls ++ [call]) := by
  refine ⟨h.canonical, fun x => (h.covers_iff x).trans ?_⟩
  simp [fun lo hi hlo => (hcall lo hi hlo).symm]

end

/-- The four vectors hold what the calls have added to each. -/
structure Holds (c : CharacterClassConstructor) (calls : List Call) : Prop where
  m_matches : HoldsMatches c.m_matches false calls
  m_ranges : HoldsRanges c.m_ranges false calls
  m_matchesUnicode : HoldsMatches c.m_matchesUnicode true calls
  m_rangesUnicode : HoldsRanges c.m_rangesUnicode true calls

theorem Holds.call {c : CharacterClassConstructor} {calls : List Call} (h : c.Holds calls)
    (call : Call) : (c.call call).Holds (calls ++ [call]) := by
  obtain ⟨hmatches, hranges, hmatchesUnicode, hrangesUnicode⟩ := h
  -- The call changes one vector and is foreign to the three others.
  match call with
  | .addSorted false ch =>
    exact ⟨hmatches.addSorted ch, hranges.other nofun, hmatchesUnicode.other nofun,
      hrangesUnicode.other nofun⟩
  | .addSorted true ch =>
    exact ⟨hmatches.other nofun, hranges.other nofun, hmatchesUnicode.addSorted ch,
      hrangesUnicode.other nofun⟩
  | .addSortedRange false lo hi hlo =>
    exact ⟨hmatches.other nofun, hranges.addSortedRange hlo, hmatchesUnicode.other nofun,
      hrangesUnicode.other nofun⟩
  | .addSortedRange true lo hi hlo =>
    exact ⟨hmatches.other nofun, hranges.other nofun, hmatchesUnicode.other nofun,
      hrangesUnicode.addSortedRange hlo⟩

/-- **The vectors stay canonical over every sequence of calls**, and hold what was added. -/
theorem run_canonical (calls : List Call) : (calls.foldl call {}).Holds calls := by
  induction calls using reverseRecOn with
  | nil => exact ⟨⟨.nil, by simp⟩, ⟨⟨by simp, .nil⟩, by simp [Covers]⟩, ⟨.nil, by simp⟩,
      ⟨⟨by simp, .nil⟩, by simp [Covers]⟩⟩
  | append_singleton calls call ih =>
    rw [foldl_append]
    exact ih.call call

end CharacterClassConstructor

end JavaScriptCore.Yarr
