/-
# Cursors over slots that are appended and removed

Items are appended to an array of slots, and removed by marking their slot dead.  A `Timeline` is
such an array with the times at which its items were inserted; a `Cursor` is a position in it that
only moves on.  `visits` lists the items on which the cursor has stood while they were alive, and
`late` those that were put behind it, at a place that it had left when nothing was there.

`Cursor.Sound` says what a cursor is for: it stands on every item once, in the order of insertion,
and leaves none behind.  There is one rule for each thing that can happen: a slot dies
(`Sound.of_shrinks`), an item is appended (`Sound.of_appended`), the cursor moves on over dead slots
(`Sound.advance`).  No rule allows that items move to other slots.
-/
import Mathlib.Algebra.Order.Ring.Int
import Mathlib.Data.List.Nodup

namespace JavaScriptCore.Lib

open List

/-! ## 1. Slots and the times of insertion -/

/-- An array of slots.  Only the first `size` of them are in use. -/
structure Timeline where
  size : Nat
  alive : Nat → Bool
  born : Nat → Nat
  clock : Nat

namespace Timeline

/-- Slot `i` holds an item. -/
def Live (t : Timeline) (i : Nat) : Prop := i < t.size ∧ t.alive i = true

instance (t : Timeline) (i : Nat) : Decidable (t.Live i) := inferInstanceAs (Decidable (_ ∧ _))

/-- **The slots are in the order of insertion.** -/
structure Ordered (t : Timeline) : Prop where
  increasing : ∀ i j, i < j → t.Live i → t.Live j → t.born i < t.born j
  past : ∀ i, t.Live i → t.born i < t.clock

/-- Some slots have died, and nothing else has changed. -/
structure Shrinks (t t' : Timeline) : Prop where
  clock : t'.clock = t.clock
  live : ∀ i, t'.Live i → t.Live i
  born : ∀ i, t'.Live i → t'.born i = t.born i

/-- An item was appended. -/
structure Appended (t t' : Timeline) : Prop where
  clock : t'.clock = t.clock + 1
  live : ∀ i, t'.Live i → t.Live i ∨ i = t.size
  born : ∀ i, t.Live i → t'.Live i → t'.born i = t.born i
  last : t'.born t.size = t.clock

variable {t t' : Timeline}

theorem Live.ne_size {i : Nat} (h : t.Live i) : i ≠ t.size := h.1.ne

theorem Ordered.of_shrinks (h : t.Ordered) (hs : t.Shrinks t') : t'.Ordered where
  increasing i j hij hi hj := by
    rw [hs.born i hi, hs.born j hj]
    exact h.increasing i j hij (hs.live i hi) (hs.live j hj)
  past i hi := by
    rw [hs.born i hi, hs.clock]
    exact h.past i (hs.live i hi)

theorem Ordered.of_appended (h : t.Ordered) (ha : t.Appended t') : t'.Ordered where
  increasing i j hij hi hj := by
    rcases ha.live j hj with hj' | rfl
    · rcases ha.live i hi with hi' | rfl
      · rw [ha.born i hi' hi, ha.born j hj' hj]
        exact h.increasing i j hij hi' hj'
      · exact absurd hj'.1 (Nat.not_lt.mpr hij.le)
    · rcases ha.live i hi with hi' | rfl
      · rw [ha.born i hi' hi, ha.last]
        exact h.past i hi'
      · exact absurd hij (Nat.lt_irrefl _)
  past i hi := by
    rw [ha.clock]
    rcases ha.live i hi with hi' | rfl
    · rw [ha.born i hi' hi]
      exact Nat.lt_succ_of_lt (h.past i hi')
    · rw [ha.last]
      exact Nat.lt_succ_self _

end Timeline

/-! ## 2. Cursors -/

/-- A position, which is negative before the first slot, with what has been seen. -/
structure Cursor where
  position : Int
  visits : List Nat
  late : List Nat
  deriving DecidableEq

namespace Cursor

open Timeline

/-- The item on which the cursor stands is noted, once. -/
def observe (t : Timeline) (c : Cursor) : Cursor :=
  if 0 ≤ c.position ∧ t.Live c.position.toNat ∧ t.born c.position.toNat ∉ c.visits then
    { c with visits := c.visits ++ [t.born c.position.toNat] }
  else c

/-- An item that is appended at a place which the cursor has left is noted. -/
def noteAppend (size clock : Nat) (c : Cursor) : Cursor :=
  if (size : Int) < c.position then { c with late := c.late ++ [clock] } else c

/-- What holds of a cursor, also before the item on which it stands is noted. -/
structure Valid (t : Timeline) (c : Cursor) : Prop where
  sorted : c.visits.Pairwise (· < ·)
  past : ∀ b ∈ c.visits, b < t.clock
  ahead : ∀ b ∈ c.visits, ∀ p, t.Live p → c.position < p → b < t.born p
  here : ∀ p : Nat, t.Live p → c.position = p → t.born p ∈ c.visits ∨ ∀ b ∈ c.visits, b < t.born p
  behind : ∀ p : Nat, t.Live p → (p : Int) < c.position → t.born p ∈ c.visits ∨ t.born p ∈ c.late
  latePast : ∀ b ∈ c.late, b < t.clock
  missed : ∀ b ∈ c.late, b ∉ c.visits ∧ ∀ p : Nat, t.Live p → c.position ≤ p → t.born p ≠ b

/-- **The cursor has stood on every item that it has reached.** -/
structure Sound (t : Timeline) (c : Cursor) : Prop extends Valid t c where
  stood : ∀ p : Nat, t.Live p → c.position = p → t.born p ∈ c.visits

variable {t t' : Timeline} {c : Cursor}

@[simp] theorem observe_position : (c.observe t).position = c.position := by
  unfold observe
  split <;> rfl

@[simp] theorem noteAppend_position {size clock : Nat} :
    (c.noteAppend size clock).position = c.position := by
  unfold noteAppend
  split <;> rfl

/-- Looking at the item makes a cursor sound. -/
theorem Valid.observe (h : c.Valid t) (ht : t.Ordered) : (c.observe t).Sound t := by
  unfold Cursor.observe
  split
  next hcond =>
    obtain ⟨hpos, hlive, hnew⟩ := hcond
    have hposition : c.position = c.position.toNat := (Int.toNat_of_nonneg hpos).symm
    have hbelow := (h.here _ hlive hposition).resolve_left hnew
    generalize c.position.toNat = p at *
    refine ⟨⟨?_, ?_, ?_, ?_, ?_, h.latePast, ?_⟩, ?_⟩
    · refine pairwise_append.mpr ⟨h.sorted, pairwise_singleton _ _, ?_⟩
      intro b hb b' hb'
      rw [mem_singleton.mp hb']
      exact hbelow b hb
    · intro b hb
      rcases mem_append.mp hb with hb | hb
      · exact h.past b hb
      · rw [mem_singleton.mp hb]
        exact ht.past p hlive
    · intro b hb q hq hlt
      rcases mem_append.mp hb with hb | hb
      · exact h.ahead b hb q hq hlt
      · rw [mem_singleton.mp hb]
        exact ht.increasing p q (by simpa [hposition] using hlt) hlive hq
    · intro q hq heq
      left
      obtain rfl : p = q := by exact_mod_cast hposition.symm.trans heq
      exact mem_append_right _ mem_cons_self
    · intro q hq hlt
      rcases h.behind q hq hlt with hvisit | hlate
      · exact .inl (mem_append_left _ hvisit)
      · exact .inr hlate
    · intro b hb
      obtain ⟨hnot, hother⟩ := h.missed b hb
      refine ⟨fun hmem => ?_, hother⟩
      rcases mem_append.mp hmem with hmem | hmem
      · exact hnot hmem
      · exact hother p hlive hposition.le (mem_singleton.mp hmem).symm
    · intro q hq heq
      obtain rfl : p = q := by exact_mod_cast hposition.symm.trans heq
      exact mem_append_right _ mem_cons_self
  next hcond =>
    refine ⟨h, fun p hp heq => ?_⟩
    by_contra hnew
    have hnat : c.position.toNat = p := by omega
    exact hcond ⟨by omega, hnat.symm ▸ hp, hnat.symm ▸ hnew⟩

/-- **Slots die.** -/
theorem Valid.of_shrinks (h : c.Valid t) (hs : t.Shrinks t') : c.Valid t' where
  sorted := h.sorted
  past b hb := hs.clock ▸ h.past b hb
  ahead b hb p hp hlt := hs.born p hp ▸ h.ahead b hb p (hs.live p hp) hlt
  here p hp heq := hs.born p hp ▸ h.here p (hs.live p hp) heq
  behind p hp hlt := hs.born p hp ▸ h.behind p (hs.live p hp) hlt
  latePast b hb := hs.clock ▸ h.latePast b hb
  missed b hb :=
    ⟨(h.missed b hb).1, fun p hp hle => hs.born p hp ▸ (h.missed b hb).2 p (hs.live p hp) hle⟩

/-- **An item is appended**: ahead of the cursor, under it, or behind it. -/
theorem Valid.of_appended (h : c.Valid t) (ht : t.Ordered) (ha : t.Appended t') :
    (c.noteAppend t.size t.clock).Valid t' := by
  have hnew (b : Nat) (hb : b ∈ c.visits) : b < t'.born t.size := ha.last ▸ h.past b hb
  have hclock {b : Nat} (hb : b < t.clock) : b < t'.clock := by
    rw [ha.clock]
    exact Nat.lt_succ_of_lt hb
  have hahead (b : Nat) (hb : b ∈ c.visits) (p : Nat) (hp : t'.Live p) (hlt : c.position < p) :
      b < t'.born p := by
    rcases ha.live p hp with hp' | rfl
    · exact ha.born p hp' hp ▸ h.ahead b hb p hp' hlt
    · exact hnew b hb
  have hhere (p : Nat) (hp : t'.Live p) (heq : c.position = p) :
      t'.born p ∈ c.visits ∨ ∀ b ∈ c.visits, b < t'.born p := by
    rcases ha.live p hp with hp' | rfl
    · exact ha.born p hp' hp ▸ h.here p hp' heq
    · exact .inr hnew
  unfold noteAppend
  split
  next hlate =>
    -- the new item is behind the cursor
    refine ⟨h.sorted, fun b hb => hclock (h.past b hb), hahead, hhere, ?_, ?_, ?_⟩
    · intro p hp hlt
      rcases ha.live p hp with hp' | rfl
      · rw [ha.born p hp' hp]
        exact (h.behind p hp' hlt).imp_right (mem_append_left _)
      · rw [ha.last]
        exact .inr (mem_append_right _ mem_cons_self)
    · intro b hb
      rcases mem_append.mp hb with hb | hb
      · exact hclock (h.latePast b hb)
      · rw [mem_singleton.mp hb, ha.clock]
        exact Nat.lt_succ_self _
    · intro b hb
      rcases mem_append.mp hb with hb | hb
      · refine ⟨(h.missed b hb).1, fun p hp hle => ?_⟩
        rcases ha.live p hp with hp' | rfl
        · exact ha.born p hp' hp ▸ (h.missed b hb).2 p hp' hle
        · exact absurd hle (not_le.mpr hlate)
      · rw [mem_singleton.mp hb]
        refine ⟨fun hmem => absurd (h.past _ hmem) (Nat.lt_irrefl _), fun p hp hle => ?_⟩
        rcases ha.live p hp with hp' | rfl
        · exact ha.born p hp' hp ▸ (ht.past p hp').ne
        · exact absurd hle (not_le.mpr hlate)
  next hlate =>
    refine ⟨h.sorted, fun b hb => hclock (h.past b hb), hahead, hhere, ?_,
      fun b hb => hclock (h.latePast b hb), ?_⟩
    · intro p hp hlt
      rcases ha.live p hp with hp' | rfl
      · exact ha.born p hp' hp ▸ h.behind p hp' hlt
      · exact absurd hlt hlate
    · intro b hb
      refine ⟨(h.missed b hb).1, fun p hp hle => ?_⟩
      rcases ha.live p hp with hp' | rfl
      · exact ha.born p hp' hp ▸ (h.missed b hb).2 p hp' hle
      · exact ha.last ▸ (h.latePast b hb).ne'

/-- **The cursor moves on**, over dead slots. -/
theorem Sound.advance (h : c.Sound t) {position : Int} (hlt : c.position < position)
    (hdead : ∀ p : Nat, t.Live p → c.position < p → position ≤ p) :
    ({ c with position } : Cursor).Valid t where
  sorted := h.sorted
  past := h.past
  ahead b hb p hp hp' := h.ahead b hb p hp (hlt.trans hp')
  here p hp heq := .inr fun b hb => h.ahead b hb p hp (hlt.trans_eq heq)
  behind p hp hp' := by
    rcases lt_trichotomy (p : Int) c.position with hbefore | heq | hafter
    · exact h.behind p hp hbefore
    · exact .inl (h.stood p hp heq.symm)
    · exact absurd (hdead p hp hafter) (not_le.mpr hp')
  latePast := h.latePast
  missed b hb := ⟨(h.missed b hb).1, fun p hp hle => (h.missed b hb).2 p hp (hlt.le.trans hle)⟩

/-- A new cursor, with nothing alive behind it. -/
theorem Valid.fresh {position : Int} (hdead : ∀ p : Nat, t.Live p → position ≤ p) :
    (⟨position, [], []⟩ : Cursor).Valid t where
  sorted := List.Pairwise.nil
  past _ hb := absurd hb not_mem_nil
  ahead _ hb := absurd hb not_mem_nil
  here _ _ _ := .inr fun _ hb => absurd hb not_mem_nil
  behind p hp hlt := absurd (hdead p hp) (not_le.mpr hlt)
  latePast _ hb := absurd hb not_mem_nil
  missed _ hb := absurd hb not_mem_nil

end Cursor

end JavaScriptCore.Lib
