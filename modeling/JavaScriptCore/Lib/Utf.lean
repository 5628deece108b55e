/-
# UTF-8 and UTF-16

The encoding forms of the Unicode standard, over natural numbers: a scalar value, a code unit of 16
bits and a byte are all numbers, in their ranges.

Well-formed UTF-8 is given as the standard gives it, by a table of byte ranges (`table37`), and the
scalar value of a sequence by the distribution of its bits (`scalarValue`).  The notions are
parametrised over the table (`WellFormedBy`), so that a decoder that uses another table can be
compared with the standard's.

A string of 16-bit code units splits into single units and pairs exactly if it has no unpaired
surrogate (`paired_iff`), and the units of scalar values do (`paired_utf16`).
-/
import Mathlib.Data.List.Forall2

namespace Utf

/-! ## 1. Scalar values and their encodings -/

/-- A Unicode scalar value: a code point that is not a surrogate. -/
def IsScalar (c : Nat) : Prop := c < 0xD800 ∨ (0xE000 ≤ c ∧ c < 0x110000)

/-- The UTF-16 code units of a scalar value. -/
def utf16 (c : Nat) : List Nat :=
  if c < 0x10000 then [c] else [0xD800 + (c - 0x10000) / 0x400, 0xDC00 + (c - 0x10000) % 0x400]

/-- The UTF-8 bytes of a scalar value. -/
def utf8 (c : Nat) : List Nat :=
  if c < 0x80 then [c]
  else if c < 0x800 then [0xC0 + c / 0x40, 0x80 + c % 0x40]
  else if c < 0x10000 then [0xE0 + c / 0x1000, 0x80 + c / 0x40 % 0x40, 0x80 + c % 0x40]
  else [0xF0 + c / 0x40000, 0x80 + c / 0x1000 % 0x40, 0x80 + c / 0x40 % 0x40, 0x80 + c % 0x40]

/-! ## 2. Tables of byte ranges -/

/-- Each byte lies in the range at its place. -/
def Matches (bs : List Nat) (row : List (Nat × Nat)) : Prop :=
  List.Forall₂ (fun b r => r.1 ≤ b ∧ b ≤ r.2) bs row

/-- The well-formed sequences of the Unicode standard (its Table 3-7). -/
def table37 : List (List (Nat × Nat)) :=
  [ [(0x00, 0x7F)],
    [(0xC2, 0xDF), (0x80, 0xBF)],
    [(0xE0, 0xE0), (0xA0, 0xBF), (0x80, 0xBF)],
    [(0xE1, 0xEC), (0x80, 0xBF), (0x80, 0xBF)],
    [(0xED, 0xED), (0x80, 0x9F), (0x80, 0xBF)],
    [(0xEE, 0xEF), (0x80, 0xBF), (0x80, 0xBF)],
    [(0xF0, 0xF0), (0x90, 0xBF), (0x80, 0xBF), (0x80, 0xBF)],
    [(0xF1, 0xF3), (0x80, 0xBF), (0x80, 0xBF), (0x80, 0xBF)],
    [(0xF4, 0xF4), (0x80, 0x8F), (0x80, 0xBF), (0x80, 0xBF)] ]

/-- The bit distribution: what a sequence contributes after the marks of its bytes are taken off. -/
def scalarValue : List Nat → Nat
  | [a] => a
  | [a, b] => (a - 0xC0) * 0x40 + (b - 0x80)
  | [a, b, c] => (a - 0xE0) * 0x1000 + (b - 0x80) * 0x40 + (c - 0x80)
  | [a, b, c, d] => (a - 0xF0) * 0x40000 + (b - 0x80) * 0x1000 + (c - 0x80) * 0x40 + (d - 0x80)
  | _ => 0

/-- A sequence of the table. -/
def Sequence (table : List (List (Nat × Nat))) (bs : List Nat) : Prop :=
  ∃ row ∈ table, Matches bs row

/-- Bytes that are a concatenation of sequences of the table, with the values of the sequences. -/
inductive WellFormedBy (table : List (List (Nat × Nat))) (value : List Nat → Nat) :
    List Nat → List Nat → Prop where
  | nil : WellFormedBy table value [] []
  | cons {bs rest cs} : Sequence table bs → WellFormedBy table value rest cs →
      WellFormedBy table value (bs ++ rest) (value bs :: cs)

/-- **Well-formed UTF-8**, with the scalar values it encodes. -/
abbrev WellFormed : List Nat → List Nat → Prop := WellFormedBy table37 scalarValue

theorem WellFormedBy.append {table : List (List (Nat × Nat))} {value : List Nat → Nat}
    {p q cp cq : List Nat} (hp : WellFormedBy table value p cp)
    (hq : WellFormedBy table value q cq) : WellFormedBy table value (p ++ q) (cp ++ cq) := by
  induction hp with
  | nil => exact hq
  | cons hseq _ ih =>
    rw [List.append_assoc]
    exact .cons hseq ih

/-! ## 3. Values, by length -/

theorem scalarValue_two (a b : Nat) :
    scalarValue [a, b] = (a - 0xC0) * 0x40 + (b - 0x80) := rfl

theorem scalarValue_three (a b c : Nat) :
    scalarValue [a, b, c] = (a - 0xE0) * 0x1000 + (b - 0x80) * 0x40 + (c - 0x80) := rfl

theorem scalarValue_four (a b c d : Nat) : scalarValue [a, b, c, d]
    = (a - 0xF0) * 0x40000 + (b - 0x80) * 0x1000 + (c - 0x80) * 0x40 + (d - 0x80) := rfl

/-! ## 4. Surrogates -/

def IsLead (u : Nat) : Prop := 0xD800 ≤ u ∧ u ≤ 0xDBFF

def IsTrail (u : Nat) : Prop := 0xDC00 ≤ u ∧ u ≤ 0xDFFF

/-- The unit at index `i` is a lead surrogate without a trail surrogate behind it, or a trail
surrogate without a lead surrogate before it. -/
def UnpairedAt (s : List Nat) (i : Nat) : Prop :=
  ∃ u, s[i]? = some u ∧
    ((IsLead u ∧ ∀ v, s[i + 1]? = some v → ¬ IsTrail v) ∨
      (IsTrail u ∧ ∀ j v, i = j + 1 → s[j]? = some v → ¬ IsLead v))

/-- The units are single ones that are no surrogates, and pairs of a lead and a trail. -/
inductive Paired : List Nat → Prop where
  | nil : Paired []
  | single {u s} : ¬ IsLead u → ¬ IsTrail u → Paired s → Paired (u :: s)
  | pair {u v s} : IsLead u → IsTrail v → Paired s → Paired (u :: v :: s)

theorem not_isLead_of_isTrail {u : Nat} (h : IsTrail u) : ¬ IsLead u := by
  unfold IsTrail IsLead at *
  omega

theorem Paired.tail_single {u : Nat} {s : List Nat} (hu : ¬ IsLead u) (h : Paired (u :: s)) :
    Paired s := by
  cases h with
  | single _ _ h => exact h
  | pair hlead => exact absurd hlead hu

theorem Paired.tail_pair {u v : Nat} {s : List Nat} (hu : IsLead u) (h : Paired (u :: v :: s)) :
    Paired s := by
  cases h with
  | single hlead => exact absurd hu hlead
  | pair _ _ h => exact h

/-- What stands before matters only for a trail surrogate, and only if it is a lead surrogate. -/
theorem unpairedAt_cons {u : Nat} (hu : ¬ IsLead u) {s : List Nat} {i : Nat} :
    UnpairedAt (u :: s) (i + 1) ↔ UnpairedAt s i := by
  simp only [UnpairedAt, List.getElem?_cons_succ]
  refine exists_congr fun w => and_congr_right fun _ =>
    or_congr Iff.rfl (and_congr_right fun _ => ?_)
  constructor
  · intro h j v hj hv
    exact h (j + 1) v (by omega) hv
  · intro h j v hj hv
    cases j with
    | zero =>
      obtain rfl : u = v := by simpa using hv
      exact hu
    | succ j => exact h j v (by omega) hv

/-- **No unit is unpaired if and only if the string splits into single units and pairs.** -/
theorem paired_iff {s : List Nat} : Paired s ↔ ∀ i, ¬ UnpairedAt s i := by
  constructor
  · intro h
    induction h with
    | nil =>
      rintro i ⟨u, hu, -⟩
      cases hu
    | @single u s hlead htrail _ ih =>
      intro i
      cases i with
      | zero =>
        rintro ⟨w, hw, h⟩
        obtain rfl : u = w := by simpa using hw
        exact h.elim (fun h => hlead h.1) fun h => htrail h.1
      | succ i =>
        rw [unpairedAt_cons hlead]
        exact ih i
    | @pair u v s hlead htrail _ ih =>
      intro i
      match i with
      | 0 =>
        rintro ⟨w, hw, h⟩
        obtain rfl : u = w := by simpa using hw
        refine h.elim (fun h => h.2 v rfl htrail) fun h => not_isLead_of_isTrail h.1 hlead
      | 1 =>
        rintro ⟨w, hw, h⟩
        obtain rfl : v = w := by simpa using hw
        exact h.elim (fun h => not_isLead_of_isTrail htrail h.1) fun h => h.2 0 u rfl rfl hlead
      | i + 2 =>
        intro h
        refine ih i ?_
        rw [← unpairedAt_cons (not_isLead_of_isTrail htrail)]
        -- the unit two places back is not the one right before
        obtain ⟨w, hw, hc⟩ := h
        refine ⟨w, hw, hc.imp id (And.imp id fun hprev j x hj hx => ?_)⟩
        exact hprev (j + 1) x (by omega) hx
  · intro h
    induction hn : s.length using Nat.strongRecOn generalizing s with
    | ind n ih =>
      match s, hn with
      | [], _ => exact .nil
      | u :: t, hn =>
        by_cases hlead : IsLead u
        · -- a trail must follow
          cases t with
          | nil => exact absurd ⟨u, rfl, .inl ⟨hlead, by simp⟩⟩ (h 0)
          | cons v t =>
            have htrail : IsTrail v := by
              by_contra hv
              refine h 0 ⟨u, rfl, .inl ⟨hlead, fun w hw => ?_⟩⟩
              obtain rfl : v = w := by simpa using hw
              exact hv
            refine .pair hlead htrail (ih t.length (by simp at hn; omega) (fun i hi => ?_) rfl)
            rw [← unpairedAt_cons (not_isLead_of_isTrail htrail)] at hi
            obtain ⟨w, hw, hc⟩ := hi
            refine h (i + 2) ⟨w, hw, hc.imp id (And.imp id fun hprev j x hj hx => ?_)⟩
            cases j with
            | zero => omega
            | succ j => exact hprev j x (by omega) hx
        · have htrail : ¬ IsTrail u :=
            fun htrail => h 0 ⟨u, rfl, .inr ⟨htrail, fun j v hj => by omega⟩⟩
          refine .single hlead htrail (ih t.length (by simp at hn; omega) (fun i hi => ?_) rfl)
          rw [← unpairedAt_cons hlead] at hi
          exact h (i + 1) hi

/-- The units of a scalar value: one that is no surrogate, or a pair. -/
theorem utf16_cases {c : Nat} (hc : IsScalar c) : (c < 0x10000 ∧ utf16 c = [c] ∧ ¬ IsLead c ∧
    ¬ IsTrail c) ∨ (∃ u v, 0x10000 ≤ c ∧ utf16 c = [u, v] ∧ IsLead u ∧ IsTrail v ∧
      c = (u - 0xD800) * 0x400 + (v - 0xDC00) + 0x10000) := by
  unfold IsScalar at hc
  unfold utf16 IsLead IsTrail
  split_ifs with hbmp
  · exact .inl ⟨hbmp, rfl, by omega, by omega⟩
  · exact .inr ⟨_, _, by omega, rfl, by omega, by omega, by omega⟩

/-- The units of scalar values are paired. -/
theorem paired_utf16 {cs : List Nat} (h : ∀ c ∈ cs, IsScalar c) : Paired (cs.flatMap utf16) := by
  induction cs with
  | nil => exact .nil
  | cons c cs ih =>
    have hc := h c List.mem_cons_self
    have htail := ih fun d hd => h d (List.mem_cons_of_mem _ hd)
    rw [List.flatMap_cons]
    rcases utf16_cases hc with ⟨-, hunit, hlead, htrail⟩ | ⟨u, v, -, hunits, hlead, htrail, -⟩
    · rw [hunit]
      exact .single hlead htrail htail
    · rw [hunits]
      exact .pair hlead htrail htail

end Utf
