/-
# The page accounting of `MetaAllocator`

`m_pageOccupancyMap` counts, for every page, the live handles with a byte in it.  `PageTable.Counts`
says so for an arbitrary count; the loops of `incrementPageOccupancy` and `decrementPageOccupancy`
add one to the count, or take one off, on each page of an interval, and send the notifications of
this change (`foldl_changes`).

It remains to see that the interval is the right one.  `allocate` and `release` visit the pages of
the handle.  `shrink` visits the pages from the first multiple of the page size behind the bytes
that stay; these are the pages that the handle stops using if any byte stays.  If none does, the
page in which the handle starts is given up only if the handle starts at its beginning, and the
later `release` skips the handle because it is empty.  So the count of that page stays too large for
good: `shrink_to_zero_leaks`.
-/
import Mathlib.Data.Set.Card
import JavaScriptCore.WTF.AllocatorInvariant

namespace JavaScriptCore.WTF

open Tiling List Word MetaAllocatorHandle PageTable
open JavaScriptCore.WTF.Geometry

/-! ## 1. The pages of a span -/

namespace Geometry

variable {g : Geometry} {p a : Nat} {r : Span}

/-- The span has a byte in the page `[p * pageSize, (p + 1) * pageSize)`. -/
def Meets (g : Geometry) (r : Span) (p : Nat) : Prop :=
  max r.start (p * g.pageSize) < min r.stop ((p + 1) * g.pageSize)

instance (g : Geometry) (r : Span) (p : Nat) : Decidable (g.Meets r p) :=
  inferInstanceAs (Decidable (_ < _))

theorem pageSize_pos (g : Geometry) : 0 < g.pageSize := Nat.two_pow_pos _

/-- The number of pages in the address space. -/
theorem pages_mul_pageSize (g : Geometry) : 2 ^ (64 - g.logPageSize) * g.pageSize = 2 ^ 64 := by
  have hlog := g.logPageSize_lt
  rw [pageSize, ← pow_add, Nat.sub_add_cancel (by omega)]

theorem pageOf_eq : g.pageOf a = a / g.pageSize := Nat.shiftRight_eq_div_pow _ _

/-- **The pages of a nonempty span are those from its first to its last.** -/
theorem meets_iff {s k : Nat} (hk : 0 < k) :
    g.Meets ⟨s, k⟩ p ↔ g.pageOf s ≤ p ∧ p ≤ g.pageOf (s + k - 1) := by
  have hpos := g.pageSize_pos
  rw [pageOf_eq, pageOf_eq, Nat.le_div_iff_mul_le hpos, ← Nat.lt_succ_iff,
    Nat.div_lt_iff_lt_mul hpos, Nat.succ_eq_add_one]
  unfold Meets Span.stop
  dsimp only
  have : (p + 1) * g.pageSize = p * g.pageSize + g.pageSize := by rw [Nat.add_mul, one_mul]
  omega

theorem not_meets_empty {s : Nat} : ¬ g.Meets ⟨s, 0⟩ p := by
  unfold Meets Span.stop
  dsimp only
  omega

theorem mem_pagesFrom {first last : Nat} : p ∈ pagesFrom first last ↔ first ≤ p ∧ p ≤ last := by
  rw [pagesFrom, mem_range'_1]
  omega

theorem nodup_pagesFrom (first last : Nat) : (PageTable.pagesFrom first last).Nodup := nodup_range'

/-- The pages that the loops visit are those of the span. -/
theorem mem_pages_iff {s k : Nat} (hk : 0 < k) (hhi : s + k ≤ 2 ^ 64) :
    p ∈ pagesFrom (g.pageOf s) (g.lastPageOf s k) ↔ g.Meets ⟨s, k⟩ p := by
  rw [mem_pagesFrom, lastPageOf, sub_add_one (by omega) hhi, meets_iff hk]

end Geometry

/-! ## 2. Counts -/

namespace PageTable

variable {g : Geometry} {t : PageTable} {n n' n'' : Nat → Nat} {p : Nat} {ps : List Nat}

/-- The pages that have a number, except the first. -/
def ValidPage (g : Geometry) (p : Nat) : Prop := 0 < p ∧ (p + 1) * g.pageSize ≤ 2 ^ 64

/-- **The table holds the counts `n`**: a page with count zero has no entry, and the committed bytes
are those of the pages with an entry. -/
structure Counts (g : Geometry) (t : PageTable) (n : Nat → Nat) : Prop where
  find_eq : ∀ p, t.pageOccupancyMap.find p = if n p = 0 then none else some (n p)
  valid : ∀ p, n p ≠ 0 → ValidPage g p
  finite : {p | n p ≠ 0}.Finite
  committed : t.bytesCommitted = g.pageSize * {p | n p ≠ 0}.ncard

theorem counts_empty : Counts g empty fun _ => 0 := by
  constructor
  · intro p
    rfl
  · intro p hp
    exact absurd rfl hp
  · simp
  · simp [empty]

/-- There are fewer than `2 ^ 64` bytes in all the valid pages together. -/
theorem mul_ncard_lt {s : Set Nat} (hs : ∀ p ∈ s, ValidPage g p) :
    g.pageSize * s.ncard < 2 ^ 64 := by
  have hpow := g.pages_mul_pageSize
  have hsub : s ⊆ (Finset.Ico 1 (2 ^ (64 - g.logPageSize)) : Finset Nat) := by
    intro p hp
    obtain ⟨h0, h1⟩ := hs p hp
    rw [← hpow] at h1
    have := Nat.le_of_mul_le_mul_right h1 g.pageSize_pos
    rw [Finset.mem_coe, Finset.mem_Ico]
    omega
  have hcard : s.ncard ≤ 2 ^ (64 - g.logPageSize) - 1 := by
    have := Set.ncard_le_ncard hsub (Finset.finite_toSet _)
    rwa [Set.ncard_coe_finset, Nat.card_Ico] at this
  have hpos : 0 < 2 ^ (64 - g.logPageSize) := Nat.two_pow_pos _
  calc g.pageSize * s.ncard ≤ g.pageSize * (2 ^ (64 - g.logPageSize) - 1) :=
        Nat.mul_le_mul_left _ hcard
    _ < g.pageSize * 2 ^ (64 - g.logPageSize) :=
        Nat.mul_lt_mul_of_pos_left (by omega) g.pageSize_pos
    _ = 2 ^ 64 := by rw [Nat.mul_comm, hpow]

/-- The count with one more on the pages of a list. -/
def plus (n : Nat → Nat) (ps : List Nat) (q : Nat) : Nat := n q + if q ∈ ps then 1 else 0

/-- The count with one less on the pages of a list. -/
def minus (n : Nat → Nat) (ps : List Nat) (q : Nat) : Nat := n q - if q ∈ ps then 1 else 0

/-! ## 3. Notifications -/

/-- **The notifications of a change from the counts `n` to `n'`**: one call of `notifyNeedPage` for
each page whose count leaves zero, one of `notifyPageIsFree` for each whose count gets there, and no
other call. -/
structure Notifies (g : Geometry) (n n' : Nat → Nat) (sent : List Notification) : Prop where
  needPage : ∀ p, sent.count (.needPage (p <<< g.logPageSize))
    = if n p = 0 ∧ n' p ≠ 0 then 1 else 0
  pageIsFree : ∀ p, sent.count (.pageIsFree (p <<< g.logPageSize))
    = if n p ≠ 0 ∧ n' p = 0 then 1 else 0
  others : ∀ x ∈ sent, ∃ p, x = .needPage (p <<< g.logPageSize) ∨
    x = .pageIsFree (p <<< g.logPageSize)

theorem notifies_nil (h : ∀ p, n' p = 0 ↔ n p = 0) : Notifies g n n' [] := by
  constructor
  · intro p
    simp [h p]
  · intro p
    simp [h p]
  · intro x hx
    cases hx

/-- Two changes of different pages. -/
theorem Notifies.trans {sent sent' : List Notification} (h : Notifies g n n' sent)
    (h' : Notifies g n' n'' sent') (hone : ∀ p, n' p = n p ∨ n'' p = n' p) :
    Notifies g n n'' (sent ++ sent') := by
  constructor
  · intro p
    rw [count_append, h.needPage, h'.needPage]
    grind
  · intro p
    rw [count_append, h.pageIsFree, h'.pageIsFree]
    grind
  · intro x hx
    exact (mem_append.1 hx).elim (h.others x) (h'.others x)

theorem shiftLeft_inj {k p q : Nat} : p <<< k = q <<< k ↔ p = q := by
  rw [Nat.shiftLeft_eq, Nat.shiftLeft_eq]
  exact Nat.mul_left_inj (Nat.pos_iff_ne_zero.1 (Nat.two_pow_pos k))

section OnePage

variable (hother : ∀ q, q ≠ p → n' q = n q)

include hother

/-- The change of one page. -/
theorem notifies_one : Notifies g n n' (if n p = 0 ∧ n' p ≠ 0 then [.needPage (p <<< g.logPageSize)]
    else if n p ≠ 0 ∧ n' p = 0 then [.pageIsFree (p <<< g.logPageSize)] else []) := by
  constructor
  · intro q
    by_cases hq : q = p
    · subst hq
      split_ifs <;> simp
    · rw [hother q hq, if_neg (c := n q = 0 ∧ n q ≠ 0) fun h => h.2 h.1]
      split_ifs <;> simp [shiftLeft_inj, Ne.symm hq]
  · intro q
    by_cases hq : q = p
    · subst hq
      split_ifs with hneed hfree <;> simp_all
    · rw [hother q hq, if_neg (c := n q ≠ 0 ∧ n q = 0) fun h => h.1 h.2]
      split_ifs <;> simp [shiftLeft_inj, Ne.symm hq]
  · intro x hx
    refine ⟨p, ?_⟩
    split_ifs at hx <;> simp_all

/-- The count of a page changes, but not from or to zero. -/
theorem Counts.setEntry (h : Counts g t n) (hp : n p ≠ 0) (hp' : n' p ≠ 0) :
    Counts g { t with pageOccupancyMap := t.pageOccupancyMap.set p (n' p) } n' := by
  have hiff : ∀ q, n' q = 0 ↔ n q = 0 := by
    intro q
    by_cases hq : q = p
    · simp [hq, hp, hp']
    · rw [hother q hq]
  have hset : {q | n' q ≠ 0} = {q | n q ≠ 0} := by simp only [ne_eq, hiff]
  refine ⟨fun q => ?_, fun q hq => h.valid q (by rwa [ne_eq, ← hiff]), hset ▸ h.finite,
    hset ▸ h.committed⟩
  rw [PartialMap.find_set, h.find_eq]
  by_cases hq : q = p
  · simp [hq, hp']
  · simp [hq, hother q hq]

end OnePage

/-! ## 4. The loops over pages -/

/-- **From the counts `n` to the counts `n'`**, with the notifications of the change. -/
structure Changes (g : Geometry) (t : PageTable) (n : Nat → Nat) (t' : PageTable) (n' : Nat → Nat) :
    Prop where
  counts : Counts g t' n'
  sent : ∃ sent, t'.notifications = t.notifications ++ sent ∧ Notifies g n n' sent

theorem incrementPage_changes (h : Counts g t n) (hp : ValidPage g p) :
    Changes g t n (incrementPage g t p) (plus n [p]) := by
  have hself : plus n [p] p = n p + 1 := by simp [plus]
  have hother : ∀ q, q ≠ p → plus n [p] q = n q := fun q hq => by simp [plus, hq]
  generalize plus n [p] = n' at hself hother
  have hfind := h.find_eq p
  unfold incrementPage
  by_cases hzero : n p = 0
  · -- the page was free
    rw [if_pos hzero] at hfind
    have hset : {q | n' q ≠ 0} = insert p {q | n q ≠ 0} := by
      ext q
      by_cases hqp : q = p <;> simp [hqp, hself, hother]
    have hvalid : ∀ q, n' q ≠ 0 → ValidPage g q := by
      intro q hq
      by_cases hqp : q = p
      · rwa [hqp]
      · exact h.valid q (by rwa [← hother q hqp])
    have hout : p ∉ {q | n q ≠ 0} := fun hmem => hmem hzero
    rw [hfind]
    refine ⟨⟨fun q => ?_, hvalid, ?_, ?_⟩, _, rfl, ?_⟩
    · rw [PartialMap.find_add hfind, h.find_eq]
      by_cases hqp : q = p
      · simp [hqp, hself, hzero]
      · simp [hqp, hother q hqp]
    · rw [hset]
      exact h.finite.insert p
    · have hlt := mul_ncard_lt (s := {q | n' q ≠ 0}) hvalid
      rw [hset, Set.ncard_insert_of_notMem hout h.finite, Nat.mul_add, Nat.mul_one] at hlt ⊢
      rw [h.committed]
      exact add_of_lt hlt
    · simpa [hzero, hself] using notifies_one (g := g) hother
  · rw [if_neg hzero] at hfind
    rw [hfind]
    dsimp only
    rw [← hself]
    refine ⟨h.setEntry hother hzero (by omega), [], (append_nil _).symm, ?_⟩
    simpa [hzero, hself] using notifies_one (g := g) hother

theorem decrementPage_changes (h : Counts g t n) (hp : n p ≠ 0) :
    Changes g t n (decrementPage g t p) (minus n [p]) := by
  have hself : minus n [p] p = n p - 1 := by simp [minus]
  have hother : ∀ q, q ≠ p → minus n [p] q = n q := fun q hq => by simp [minus, hq]
  generalize minus n [p] = n' at hself hother
  have hfind := h.find_eq p
  rw [if_neg hp] at hfind
  unfold decrementPage
  rw [hfind]
  dsimp only
  rw [← hself]
  split_ifs with hone
  · -- the last user of the page goes
    have hset : {q | n' q ≠ 0} = {q | n q ≠ 0} \ {p} := by
      ext q
      by_cases hqp : q = p <;> simp [hqp, hone, hother]
    refine ⟨⟨fun q => ?_, fun q hq => ?_, ?_, ?_⟩, _, rfl, ?_⟩
    · rw [PartialMap.find_remove, h.find_eq]
      by_cases hqp : q = p
      · simp [hqp, hone]
      · simp [hqp, hother q hqp]
    · exact h.valid q (hset.subset hq).1
    · rw [hset]
      exact h.finite.sdiff
    · have hlt := mul_ncard_lt (s := {q | n q ≠ 0}) h.valid
      have hcard := Set.ncard_sdiff_singleton_add_one (s := {q | n q ≠ 0}) hp h.finite
      rw [← hcard, Nat.mul_add, Nat.mul_one] at hlt
      rw [hset, h.committed, ← hcard, Nat.mul_add, Nat.mul_one]
      exact (sub_of_le (Nat.le_add_left _ _) hlt).trans (Nat.add_sub_cancel _ _)
    · simpa [hp, hone] using notifies_one (g := g) hother
  · refine ⟨h.setEntry hother hp hone, [], (append_nil _).symm, ?_⟩
    simpa [hp, hone] using notifies_one (g := g) hother

/-- **A loop over pages**, whose body changes the count of its page and no other. -/
theorem foldl_changes {step : PageTable → Nat → PageTable}
    {change : (Nat → Nat) → List Nat → Nat → Nat} {f : Nat → Nat} {P : Nat → Nat → Prop}
    (hchange : ∀ n ps q, change n ps q = if q ∈ ps then f (n q) else n q)
    (hstep : ∀ t n p, Counts g t n → P p (n p) → Changes g t n (step t p) (change n [p]))
    (hps : ps.Nodup) (h : Counts g t n) (hok : ∀ p ∈ ps, P p (n p)) :
    Changes g t n (ps.foldl step t) (change n ps) := by
  induction ps generalizing t n with
  | nil =>
    have hnil : change n [] = n := by
      funext q
      simp [hchange]
    rw [hnil]
    exact ⟨h, [], (append_nil _).symm, notifies_nil fun _ => Iff.rfl⟩
  | cons p ps ih =>
    obtain ⟨hp, hps⟩ := nodup_cons.1 hps
    -- the pages still to be visited have the count they had
    have hsame : ∀ q, q ≠ p → change n [p] q = n q := fun q hq => by simp [hchange, hq]
    have hrest : change (change n [p]) ps = change n (p :: ps) := by
      funext q
      by_cases hq : q = p
      · simp [hchange, hq, hp]
      · simp [hchange, hq]
    obtain ⟨hone, sent, hsent, hnotifies⟩ := hstep t n p h (hok p mem_cons_self)
    obtain ⟨hall, sent', hsent', hnotifies'⟩ := ih hps hone fun q hq => by
      rw [hsame q (ne_of_mem_of_not_mem hq hp)]
      exact hok q (mem_cons_of_mem _ hq)
    rw [hrest] at hall hnotifies'
    refine ⟨hall, sent ++ sent', ?_, hnotifies.trans hnotifies' fun q => ?_⟩
    · rw [foldl_cons, hsent', hsent, append_assoc]
    · by_cases hq : q = p
      · exact .inr (by simp [hchange, hq])
      · exact .inl (hsame q hq)

/-- **The loop of `incrementPageOccupancy`.** -/
theorem foldl_incrementPage (hps : ps.Nodup) (h : Counts g t n) (hvalid : ∀ p ∈ ps, ValidPage g p) :
    Changes g t n (ps.foldl (incrementPage g) t) (plus n ps) :=
  foldl_changes (P := fun p _ => ValidPage g p) (fun n ps q => by unfold plus; split <;> rfl)
    (fun _ _ _ => incrementPage_changes) hps h hvalid

/-- **The loop of `decrementPageOccupancy`.** -/
theorem foldl_decrementPage (hps : ps.Nodup) (h : Counts g t n) (hused : ∀ p ∈ ps, n p ≠ 0) :
    Changes g t n (ps.foldl (decrementPage g) t) (minus n ps) :=
  foldl_changes (f := (· - 1)) (P := fun _ k => k ≠ 0)
    (fun n ps q => by unfold minus; split <;> rfl)
    (fun _ _ _ => decrementPage_changes) hps h hused

end PageTable

/-! ## 5. The pages that `shrink` gives up -/

namespace MetaAllocatorHandle

variable {g : Geometry} {h : MetaAllocatorHandle} {r p : Nat}

/-- The list of pages that `shrinkPages` visits. -/
def freedPages (g : Geometry) (h : MetaAllocatorHandle) (r : Nat) : List Nat :=
  pagesFrom ((h.start + r + g.pageSize - 1) / g.pageSize)
    (g.pageOf (h.start + h.sizeInBytes - 1))

/-- `shrinkPages` visits the pages from the first whole page behind the `r` bytes that stay. -/
theorem shrinkPages_eq (hr : r < h.sizeInBytes) (hhi : h.start + h.sizeInBytes < 2 ^ 64)
    (hround : h.start + r + g.pageSize ≤ 2 ^ 64) (t : PageTable) :
    h.shrinkPages g r t = (h.freedPages g r).foldl (decrementPage g) t := by
  have hlog := g.logPageSize_lt
  have hpos := g.pageSize_pos
  have hceil := le_ceil_mul g.logPageSize (h.start + r)
  have halign : alignUp 64 g.logPageSize (h.start + r)
      = (h.start + r + g.pageSize - 1) / g.pageSize * g.pageSize :=
    alignUp_eq (by omega) hround
  unfold shrinkPages
  dsimp only
  rw [add_of_lt (by omega), sub_of_le (by omega) (by omega), halign,
    add_of_lt (by omega), show h.start + r + (h.sizeInBytes - r) = h.start + h.sizeInBytes by omega]
  generalize hF : (h.start + r + g.pageSize - 1) / g.pageSize = c at *
  have hle : h.start + r ≤ c * g.pageSize := by
    rw [← hF]
    exact hceil
  split_ifs with hlt
  · have hskip : sub 64 (c * g.pageSize) (h.start + r) = c * g.pageSize - (h.start + r) :=
      sub_of_le hle (by omega)
    rw [hskip, sub_of_le (by omega) (by omega),
      decrementPageOccupancy, lastPageOf, sub_add_one (by omega) (by omega),
      freedPages, hF, pageOf_eq, Nat.mul_div_cancel _ hpos]
    congr 4
    omega
  · -- no whole page is left, and the list is empty
    have hempty : h.freedPages g r = [] := by
      have hlast : g.pageOf (h.start + h.sizeInBytes - 1) < c := by
        rw [pageOf_eq, Nat.div_lt_iff_lt_mul hpos]
        omega
      rw [freedPages, hF, pagesFrom, Nat.sub_eq_zero_of_le (by omega)]
      rfl
    rw [hempty]
    rfl

/-- **They are the pages that the handle stops using**, if a byte stays or the handle starts with a
page. -/
theorem mem_freedPages (hr : r < h.sizeInBytes) (hstart : r = 0 → g.pageSize ∣ h.start) :
    p ∈ h.freedPages g r ↔ g.Meets h.span p ∧ ¬ g.Meets ⟨h.start, r⟩ p := by
  have hpos := g.pageSize_pos
  rw [freedPages, mem_pagesFrom, span, meets_iff (by omega)]
  rcases Nat.eq_zero_or_pos r with hzero | hkeep
  · obtain ⟨k, hk⟩ := hstart hzero
    have hceil : (h.start + r + g.pageSize - 1) / g.pageSize = g.pageOf h.start := by
      rw [hzero, pageOf_eq, hk, Nat.add_zero, Nat.mul_div_cancel_left _ hpos,
        Nat.add_sub_assoc hpos, Nat.mul_add_div hpos, Nat.div_eq_of_lt (by omega), Nat.add_zero]
    rw [hceil, hzero]
    exact ⟨fun hp => ⟨hp, not_meets_empty⟩, fun hp => hp.1⟩
  · have hceil : (h.start + r + g.pageSize - 1) / g.pageSize = g.pageOf (h.start + r - 1) + 1 := by
      rw [pageOf_eq, show h.start + r + g.pageSize - 1 = h.start + r - 1 + g.pageSize by omega,
        Nat.add_div_right _ hpos]
    have hmono : g.pageOf h.start ≤ g.pageOf (h.start + r - 1) := by
      rw [pageOf_eq, pageOf_eq]
      exact Nat.div_le_div_right (by omega)
    rw [hceil, meets_iff hkeep]
    omega

end MetaAllocatorHandle

/-! ## 6. The accounting over every run -/

namespace World

variable {τ : Type} [SizeTree τ] {g : Geometry} {w w' : World τ}

/-- The number of live handles with a byte in the page. -/
def pageCount (g : Geometry) (w : World τ) (p : Nat) : Nat :=
  w.handles.countP fun h => g.Meets h.span p

/-- **The page accounting is right.** -/
structure PageInvariant (g : Geometry) (w : World τ) : Prop where
  occupancy : ∀ p, w.allocator.pageOccupancyMap.find p
    = if w.pageCount g p = 0 then none else some (w.pageCount g p)
  committed : w.allocator.bytesCommitted = g.pageSize * {p | w.pageCount g p ≠ 0}.ncard

/-- A handle is shrunk to nothing only if it is empty or starts with a page, and the end of the
bytes that stay can be rounded up to a page boundary. -/
def Accountable (g : Geometry) : Op → Prop
  | .shrink handle newSizeInBytes =>
    (newSizeInBytes = 0 → handle.sizeInBytes = 0 ∨ g.pageSize ∣ handle.start) ∧
      ∀ r, g.roundUp newSizeInBytes = some r → handle.start + r + g.pageSize ≤ 2 ^ 64
  | _ => True

/-- The internal invariant. -/
structure Accounted (g : Geometry) (w : World τ) : Prop where
  good : w.Good g
  not_null : ∀ r ∈ w.reserved, g.pageSize ≤ r.start
  counts : w.allocator.toPageTable.Counts g (w.pageCount g)

/-- What one call does to the page table. -/
structure PageStep (g : Geometry) (w w' : World τ) : Prop where
  counts : w'.allocator.toPageTable.Counts g (w'.pageCount g)
  sent : ∃ sent, w'.allocator.notifications = w.allocator.notifications ++ sent ∧
    PageTable.Notifies g (w.pageCount g) (w'.pageCount g) sent

theorem accounted_new (tracker : Option (List HandlePtr)) :
    (new tracker : World τ).Accounted g := by
  refine ⟨good_new tracker, ?_, counts_empty⟩
  intro r hr
  cases hr

omit [SizeTree τ] in
theorem pageCount_perm {l : List MetaAllocatorHandle} (hl : w.handles.Perm l) (p : Nat) :
    w.pageCount g p = l.countP fun h => g.Meets h.span p := hl.countP_eq _

omit [SizeTree τ] in
theorem countP_cons_meets (h : MetaAllocatorHandle) (l : List MetaAllocatorHandle) (p : Nat) :
    (h :: l).countP (fun h => g.Meets h.span p)
      = (l.countP fun h => g.Meets h.span p) + if g.Meets h.span p then 1 else 0 := by
  simp [countP_cons]

variable (h : w.Accounted g)

include h

/-- A call that leaves the page table and the pages of the handles as they are. -/
theorem pageStep_same (htable : w'.allocator.toPageTable = w.allocator.toPageTable)
    (hcount : ∀ p, w'.pageCount g p = w.pageCount g p) : PageStep g w w' := by
  have hfun : w'.pageCount g = w.pageCount g := funext hcount
  refine ⟨?_, [], ?_, ?_⟩
  · rw [htable, hfun]
    exact h.counts
  · rw [htable, append_nil]
  · rw [hfun]
    exact notifies_nil fun _ => Iff.rfl

omit h [SizeTree τ] in
theorem pageStep_of_changes {t : PageTable} {n : Nat → Nat}
    (hchanges : Changes g w.allocator.toPageTable (w.pageCount g) t n)
    (htable : w'.allocator.toPageTable = t) (hcount : ∀ p, w'.pageCount g p = n p) :
    PageStep g w w' := by
  obtain rfl : w'.pageCount g = n := funext hcount
  subst htable
  exact ⟨hchanges.counts, hchanges.sent⟩

omit h

/-- A page of a span in the address space, behind the null page, is a valid one. -/
theorem validPage_of_meets {r : Span} {p : Nat} (hp : g.Meets r p) (hlo : g.pageSize ≤ r.start)
    (hhi : r.stop ≤ 2 ^ 64) : PageTable.ValidPage g p := by
  have hpow := g.pages_mul_pageSize
  unfold Geometry.Meets at hp
  constructor
  · by_contra hzero
    obtain rfl : p = 0 := by omega
    omega
  · rw [← hpow] at hhi ⊢
    refine Nat.mul_le_mul_right _ ?_
    have : p * g.pageSize < 2 ^ (64 - g.logPageSize) * g.pageSize := by omega
    exact Nat.lt_of_mul_lt_mul_right this

variable {handle : MetaAllocatorHandle}

/-- A handle that is not empty starts behind the null page. -/
theorem pageSize_le_start (h : w.Good g) (hnull : ∀ r ∈ w.reserved, g.pageSize ≤ r.start)
    (hh : handle ∈ w.handles) (hsize : 0 < handle.sizeInBytes) : g.pageSize ≤ handle.start := by
  -- its first byte is in a region that does
  have hfirst : 0 < cover w.used handle.start := by
    refine cover_pos_iff.2 ⟨handle.span, mem_map.2 ⟨handle, hh, rfl⟩, ?_⟩
    rw [Span.mem_iff, MetaAllocatorHandle.span]
    dsimp only
    omega
  obtain ⟨r, hr, hmem⟩ := cover_pos_iff.1
    (show 0 < cover w.reserved handle.start by rw [← h.partition.cover_eq]; omega)
  have := hnull r hr
  rw [Span.mem_iff] at hmem
  omega

omit [SizeTree τ] in
theorem newHandle_toPageTable (a : MetaAllocator.Allocation) (ownerUID : Nat)
    (m : MetaAllocator τ) : (w.newHandle a ownerUID m).allocator.toPageTable = m.toPageTable := rfl

include h

/-- The new handle adds one to the count of its pages. -/
theorem newHandle_pageStep {a : MetaAllocator.Allocation} {ownerUID : Nat} {m : MetaAllocator τ}
    (hsize : 0 < a.sizeInBytes) (htable : m.toPageTable = w.allocator.toPageTable)
    (hgood : (w.newHandle a ownerUID (m.commit g a)).Good g)
    (hnull : ∀ r ∈ a.newSpace.toList ++ w.reserved, g.pageSize ≤ r.start) :
    PageStep g w (w.newHandle a ownerUID (m.commit g a)) := by
  have hself : (⟨w.nextHandle, a.start, a.sizeInBytes, ownerUID⟩ : MetaAllocatorHandle) ∈
      (w.newHandle a ownerUID (m.commit g a)).handles := mem_cons_self
  have hhi : 0 < a.start ∧ a.start + a.sizeInBytes < 2 ^ 64 := hgood.located _ hself
  have hlo : g.pageSize ≤ a.start := pageSize_le_start hgood hnull hself hsize
  have hmeets : ∀ p, p ∈ pagesFrom (g.pageOf a.start) (g.lastPageOf a.start a.sizeInBytes) ↔
      g.Meets ⟨a.start, a.sizeInBytes⟩ p := fun p => mem_pages_iff hsize (by omega)
  refine pageStep_of_changes (foldl_incrementPage (nodup_pagesFrom (g.pageOf a.start)
    (g.lastPageOf a.start a.sizeInBytes)) h.counts fun p hp => ?_) ?_ fun p => ?_
  · exact validPage_of_meets ((hmeets p).1 hp) hlo (by unfold Span.stop; dsimp only; omega)
  · rw [newHandle_toPageTable, ← htable]
    rfl
  · rw [plus]
    simp only [hmeets]
    exact countP_cons_meets _ _ p

theorem allocate_pageStep {sizeInBytes ownerUID : Nat} {f : Nat → Option (Nat × Nat)}
    (hgood : w'.Good g) (hnull : ∀ r ∈ w'.reserved, g.pageSize ≤ r.start)
    (hs : w.step g (.allocate sizeInBytes ownerUID f) = some w') : PageStep g w w' := by
  cases halloc : w.allocator.allocate g sizeInBytes f with
  | none =>
    simp only [step, halloc] at hs
    cases hs
  | some result =>
    obtain ⟨res, m'⟩ := result
    simp only [step, halloc] at hs
    rcases MetaAllocator.allocate_cases h.good.partition.wellFormed halloc with
      ⟨rfl, rfl⟩ | ⟨r, hround, hr, ⟨start, index, htake, rfl, rfl⟩ | ⟨start, pages, hf, rfl, rfl⟩⟩
    · cases hs
      exact pageStep_same h rfl fun p => rfl
    · cases hs
      exact newHandle_pageStep h hr rfl hgood hnull
    · cases hs
      exact newHandle_pageStep h hr rfl hgood hnull

omit h

omit [SizeTree τ] in
/-- The count splits into that of one live handle and that of the others. -/
theorem pageCount_erase (hh : handle ∈ w.handles) (p : Nat) :
    w.pageCount g p = ((w.handles.erase handle).countP fun h => g.Meets h.span p)
      + if g.Meets handle.span p then 1 else 0 := by
  rw [pageCount_perm (perm_cons_erase hh), countP_cons_meets]

theorem released_toPageTable {m : MetaAllocator τ} (t : PageTable) (start n : Nat) :
    (MetaAllocator.addFreeSpaceFromReleasedHandle start n
      { m with toPageTable := t }).toPageTable = t := rfl

include h

theorem shrink_pageStep {n : Nat} (hh : handle ∈ w.handles) (hn : n ≤ handle.sizeInBytes)
    (hacc : Accountable g (.shrink handle n)) (hs : w.step g (.shrink handle n) = some w') :
    PageStep g w w' := by
  cases hshrink : handle.shrink g n w.allocator with
  | none =>
    simp only [step, hshrink] at hs
    cases hs
  | some result =>
    obtain ⟨h', m'⟩ := result
    simp only [step, hshrink] at hs
    cases hs
    obtain ⟨r, hround, hcases⟩ := shrink_cases hshrink
    obtain ⟨hnr, -, -, hleast⟩ := roundUp_spec hround
    have hle : r ≤ handle.sizeInBytes := hleast _ (h.good.granule handle hh) hn
    have hloc := h.good.located handle hh
    rcases hcases with ⟨-, rfl, rfl⟩ | ⟨hne, rfl, rfl⟩
    · exact pageStep_same h rfl fun p => (pageCount_perm (perm_cons_erase hh) p).symm
    · have hlt : r < handle.sizeInBytes := Nat.lt_of_le_of_ne hle hne
      have hmem : ∀ p, p ∈ handle.freedPages g r ↔
          g.Meets handle.span p ∧ ¬ g.Meets ⟨handle.start, r⟩ p := fun p =>
        mem_freedPages hlt fun hzero => (hacc.1 (by omega)).resolve_left (by omega)
      have hnodup : (handle.freedPages g r).Nodup := nodup_pagesFrom _ _
      refine pageStep_of_changes (foldl_decrementPage hnodup h.counts fun p hp => ?_) ?_ fun p => ?_
      · rw [pageCount_erase hh, if_pos ((hmem p).1 hp).1]
        exact Nat.succ_ne_zero _
      · rw [released_toPageTable]
        exact shrinkPages_eq hlt hloc.2 (hacc.2 r hround) _
      · -- a page that the rest of the handle uses was used by all of it
        have hsub : g.Meets ⟨handle.start, r⟩ p → g.Meets handle.span p := by
          unfold Geometry.Meets Span.stop MetaAllocatorHandle.span
          dsimp only
          omega
        rw [minus, pageCount_erase hh]
        simp only [hmem]
        show ({ handle with sizeInBytes := r } :: w.handles.erase handle).countP _ = _
        rw [countP_cons_meets, MetaAllocatorHandle.span]
        split_ifs <;> first | omega | tauto

theorem release_pageStep (hh : handle ∈ w.handles) (hs : w.step g (.release handle) = some w') :
    PageStep g w w' := by
  cases hs
  have hloc := h.good.located handle hh
  unfold release
  by_cases hsize : handle.sizeInBytes = 0
  · rw [if_neg (not_not.2 hsize)]
    refine pageStep_same h rfl fun p => ?_
    have hnot : ¬ g.Meets handle.span p := by
      rw [MetaAllocatorHandle.span, hsize]
      exact not_meets_empty
    rw [pageCount_erase hh, if_neg hnot]
    rfl
  · rw [if_pos hsize]
    have hmem : ∀ p, p ∈ pagesFrom (g.pageOf handle.start)
        (g.lastPageOf handle.start handle.sizeInBytes) ↔ g.Meets handle.span p := fun p =>
      mem_pages_iff (Nat.pos_of_ne_zero hsize) (by omega)
    refine pageStep_of_changes (foldl_decrementPage (nodup_pagesFrom (g.pageOf handle.start)
      (g.lastPageOf handle.start handle.sizeInBytes)) h.counts fun p hp => ?_) ?_ fun p => ?_
    · rw [pageCount_erase hh, if_pos ((hmem p).1 hp)]
      exact Nat.succ_ne_zero _
    · exact released_toPageTable (m := w.allocator) _ handle.start handle.sizeInBytes
    · rw [minus, pageCount_erase hh]
      simp only [hmem]
      exact (Nat.add_sub_cancel _ _).symm

theorem addFreshFreeSpace_pageStep {start sizeInBytes : Nat}
    (hs : w.step g (.addFreshFreeSpace start sizeInBytes) = some w') : PageStep g w w' := by
  cases hs
  exact pageStep_same h rfl fun p => rfl

omit h

/-- Only `addFreshFreeSpace` and `allocate` reserve memory, and only fresh memory. -/
theorem reserved_fresh {op : Op} (h : w.Good g) (hadm : w.Admissible g op)
    (hs : w.step g op = some w') : ∀ r ∈ w'.reserved, r ∈ w.reserved ∨ g.pageSize ≤ r.start := by
  intro r hr
  cases op with
  | addFreshFreeSpace start sizeInBytes =>
    cases hs
    rcases mem_cons.1 hr with rfl | hr
    · exact .inr hadm.not_null
    · exact .inl hr
  | allocate sizeInBytes ownerUID f =>
    cases halloc : w.allocator.allocate g sizeInBytes f with
    | none =>
      simp only [step, halloc] at hs
      cases hs
    | some result =>
      obtain ⟨res, m'⟩ := result
      simp only [step, halloc] at hs
      rcases MetaAllocator.allocate_cases h.partition.wellFormed halloc with
        ⟨rfl, -⟩ | ⟨rounded, hround, -, ⟨start, index, -, rfl, -⟩ | ⟨start, pages, hf, rfl, -⟩⟩
      · cases hs
        exact .inl hr
      · cases hs
        exact .inl hr
      · cases hs
        rcases mem_cons.1 hr with rfl | hr
        · exact .inr (hadm rounded start pages hround hf).2.2.not_null
        · exact .inl hr
  | shrink handle n =>
    cases hshrink : handle.shrink g n w.allocator with
    | none =>
      simp only [step, hshrink] at hs
      cases hs
    | some result =>
      simp only [step, hshrink] at hs
      cases hs
      exact .inl hr
  | release handle =>
    cases hs
    exact .inl hr

include h in
/-- **Every call keeps the page accounting**, and sends the notifications of the change. -/
theorem step_accounted {op : Op} (hadm : w.Admissible g op)
    (hwrap : NoWrap g op) (hacc : Accountable g op) (hs : w.step g op = some w') :
    w'.Accounted g ∧ PageStep g w w' := by
  have hgood := step_good h.good hadm hwrap hs
  have hnull : ∀ r ∈ w'.reserved, g.pageSize ≤ r.start := by
    intro r hr
    rcases reserved_fresh h.good hadm hs r hr with hold | hnew
    · exact h.not_null r hold
    · exact hnew
  have hpages : PageStep g w w' := by
    cases op with
    | addFreshFreeSpace start sizeInBytes => exact addFreshFreeSpace_pageStep h hs
    | allocate sizeInBytes ownerUID f => exact allocate_pageStep h hgood hnull hs
    | shrink handle n => exact shrink_pageStep h hadm.1 hadm.2 hacc hs
    | release handle => exact release_pageStep h hadm hs
  exact ⟨⟨hgood, hnull, hpages.counts⟩, hpages⟩

/-- The calls for which the accounting is proved. -/
def Accounting (g : Geometry) (w : World τ) (op : Op) : Prop :=
  w.Admissible g op ∧ NoWrap g op ∧ Accountable g op

/-- **The page accounting is right after every run, and every further call notifies exactly the
pages whose count leaves or reaches zero.** -/
theorem run_pageInvariant {tracker : Option (List HandlePtr)} {ops : List Op} {w : World τ}
    (hrun : Transition.Run (Accounting g) (step g) (new tracker) ops w) :
    w.PageInvariant g ∧ ∀ op w', w.Accounting g op → w.step g op = some w' →
      ∃ sent, w'.allocator.notifications = w.allocator.notifications ++ sent ∧
        PageTable.Notifies g (w.pageCount g) (w'.pageCount g) sent := by
  have hacc : w.Accounted g := hrun.invariant
    (fun _ _ _ hguard hacc hs => (step_accounted hacc hguard.1 hguard.2.1 hguard.2.2 hs).1)
    (accounted_new tracker)
  constructor
  · exact ⟨hacc.counts.find_eq, hacc.counts.committed⟩
  · intro op w' hguard hs
    exact (step_accounted hacc hguard.1 hguard.2.1 hguard.2.2 hs).2.sent

/-- An ordinary run: two handles in one page, one of them shrunk. -/
theorem run_pageInvariant_jit :
    ∃ w : World (List NodePtr),
      Transition.Run (Accounting jitGeometry) (step jitGeometry) (new none)
        [.addFreshFreeSpace 4096 8192, .allocate 64 7 fun _ => none,
          .shrink ⟨0, 4096, 64, 7⟩ 20] w ∧ w.PageInvariant jitGeometry := by
  refine Exists.imp (fun w hrun => ⟨hrun, (run_pageInvariant hrun).1⟩) ?_
  refine ⟨_, .cons ⟨⟨by decide, by decide, by decide, ?_⟩, trivial, trivial⟩ rfl
    (.cons ⟨?_, ?_, trivial⟩ rfl (.cons ⟨⟨by decide, by decide⟩, trivial, by decide, ?_⟩ rfl .nil))⟩
  · intro s hs
    cases hs
  · intro r start pages _ hf
    cases hf
  · intro r hr
    have hround : jitGeometry.roundUp 64 = some 64 := by decide
    cases hround.symm.trans hr
    decide
  · intro r hr
    have hround : jitGeometry.roundUp 20 = some 32 := by decide
    cases hround.symm.trans hr
    decide

/-- **Shrinking to nothing leaks a page.**  The second of two handles of 32 bytes starts in the
middle of the page.  After it was shrunk to zero the page still counts two handles, and has one. -/
theorem shrink_to_zero_leaks :
    ∃ (ops : List Op) (w : World (List NodePtr)),
      Transition.Run (fun w op => w.Admissible jitGeometry op ∧ NoWrap jitGeometry op)
        (step jitGeometry) (new none) ops w ∧ ¬ w.PageInvariant jitGeometry := by
  refine ⟨[.addFreshFreeSpace 4096 4096, .allocate 32 0 fun _ => none,
    .allocate 32 0 fun _ => none, .shrink ⟨1, 4128, 32, 0⟩ 0], _,
    .cons ⟨⟨by decide, by decide, by decide, ?_⟩, trivial⟩ rfl
      (.cons ⟨?_, ?_⟩ rfl (.cons ⟨?_, ?_⟩ rfl (.cons ⟨⟨by decide, by decide⟩, trivial⟩ rfl .nil))),
      ?_⟩
  · intro s hs
    cases hs
  · intro r start pages _ hf
    cases hf
  · intro r hr
    have hround : jitGeometry.roundUp 32 = some 32 := by decide
    cases hround.symm.trans hr
    decide
  · intro r start pages _ hf
    cases hf
  · intro r hr
    have hround : jitGeometry.roundUp 32 = some 32 := by decide
    cases hround.symm.trans hr
    decide
  · intro hinv
    exact absurd (hinv.occupancy 1) (by decide)

end World

end JavaScriptCore.WTF
