/-
# The invariant of `MetaAllocator` over every run

`Partition` is the allocator as its users should see it: the reserved memory is cut into the spans
in use and the free spans, every reserved byte is in exactly one of them, and the free spans are
well formed.  Four things can happen to a partition.  A region is added, free or in use
(`Partition.addFree`, `Partition.addUsed`); a free span is put to use (`Partition.take`); the tail
of a used span is set free (`Partition.giveTail`).  `allocate`, `shrink` and `release` are made of
these: a run of pages fresh from the operating system, for instance, is added as a used span whose
tail is set free at once.

`World.Good` ties the partition to the fields of the allocator and to its live handles, and
`step_good` shows that every call keeps it.

The calls have one precondition beyond what their users can be held to (`Op.NoWrap`): the size of an
allocation, rounded up to whole pages, must be a `size_t`.  `allocate` itself checks only that
rounding up to the allocation granule does not wrap, and `allocate_wraps` shows the damage.
-/
import JavaScriptCore.Lib.Run
import JavaScriptCore.WTF.FreeSpace

namespace JavaScriptCore.WTF

open Tiling List FreeSpaceIndex Word Nat MetaAllocatorHandle MetaAllocator
open JavaScriptCore.WTF.Geometry

variable {τ : Type} [SizeTree τ]

/-! ## 1. The reserved memory as a partition -/

/-- **The reserved memory is cut into used and free spans.** -/
structure Partition (m : FreeSpaceIndex τ) (used reserved : List Span) : Prop where
  wellFormed : m.WellFormed
  cover_eq : ∀ a, cover used a + cover m.freeSpans a = cover reserved a
  once : ∀ a, cover reserved a ≤ 1
  bounded : ∀ r ∈ reserved, 0 < r.start ∧ r.stop < 2 ^ 64

namespace Partition

variable {m m' : FreeSpaceIndex τ} {used used' reserved : List Span} {r : Span}

theorem empty : Partition (.empty : FreeSpaceIndex τ) [] [] := by
  constructor
  · exact wellFormed_empty
  · intro a
    rw [freeSpans, nodes_empty]
    rfl
  · intro a
    exact zero_le _
  · intro r hr
    cases hr

theorem perm (h : Partition m used reserved) (hp : used.Perm used') : Partition m used' reserved :=
  ⟨h.wellFormed, fun a => by rw [← cover_perm hp, h.cover_eq], h.once, h.bounded⟩

/-- A span whose bytes are not reserved, or in use, meets no free span. -/
theorem disjoint_free (h : Partition m used reserved)
    (hr : ∀ a ∈ r, cover reserved a ≤ cover used a) : ∀ s ∈ m.freeSpans, r.Disjoint s := by
  intro s hs a har has
  have hpos : 0 < cover m.freeSpans a := cover_pos_iff.2 ⟨s, hs, has⟩
  have := h.cover_eq a
  have := hr a har
  omega

theorem cover_eq_zero (hr : ∀ s ∈ reserved, r.Disjoint s) : ∀ a ∈ r, cover reserved a = 0 := by
  intro a ha
  by_contra hne
  obtain ⟨s, hs, has⟩ := cover_pos_iff.1 (pos_of_ne_zero hne)
  exact hr s hs a ha has

section

variable (h : Partition m used reserved)

include h

theorem once_cons (hr : ∀ s ∈ reserved, r.Disjoint s) (a : Nat) : cover (r :: reserved) a ≤ 1 := by
  rw [cover_cons]
  split_ifs with ha
  · rw [cover_eq_zero hr a ha]
  · exact h.once a

theorem bounded_cons (hlo : 0 < r.start) (hhi : r.stop < 2 ^ 64) :
    ∀ s ∈ r :: reserved, 0 < s.start ∧ s.stop < 2 ^ 64 := by
  intro s hs
  rcases mem_cons.1 hs with rfl | hs
  · exact ⟨hlo, hhi⟩
  · exact h.bounded s hs

/-- A fresh region becomes free space. -/
theorem addFree {s n : Nat} (hn : 0 < n) (hlo : 0 < s)
    (hhi : s + n < 2 ^ 64) (hr : ∀ q ∈ reserved, Span.Disjoint ⟨s, n⟩ q) :
    Partition (m.addFreeSpace s n) used (⟨s, n⟩ :: reserved) := by
  have hgives := addFreeSpace_spec h.wellFormed hn hhi hlo
    (h.disjoint_free fun a ha => by rw [cover_eq_zero hr a ha]; exact zero_le _)
  refine ⟨hgives.wellFormed, fun a => ?_, h.once_cons hr, h.bounded_cons hlo hhi⟩
  have := h.cover_eq a
  rw [hgives.cover_eq, cover_cons]
  omega

/-- A fresh region is put to use. -/
theorem addUsed (hlo : 0 < r.start) (hhi : r.stop < 2 ^ 64)
    (hr : ∀ s ∈ reserved, r.Disjoint s) : Partition m (r :: used) (r :: reserved) := by
  refine ⟨h.wellFormed, fun a => ?_, h.once_cons hr, h.bounded_cons hlo hhi⟩
  have := h.cover_eq a
  rw [cover_cons, cover_cons]
  omega

/-- A free span is put to use. -/
theorem take (ht : m.Takes r m') : Partition m' (r :: used) reserved := by
  refine ⟨ht.wellFormed, fun a => ?_, h.once, h.bounded⟩
  have := h.cover_eq a
  have := ht.cover_eq a
  rw [cover_cons]
  omega

end

/-- The tail of a used span is set free. -/
theorem giveTail {s k n : Nat} (h : Partition m (⟨s, k + n⟩ :: used) reserved) (hn : 0 < n)
    (hlo : 0 < s) (hhi : s + (k + n) < 2 ^ 64) :
    Partition (m.addFreeSpace (s + k) n) (⟨s, k⟩ :: used) reserved := by
  have hcut : ∀ a, cover (⟨s, k + n⟩ :: used) a
      = cover (⟨s, k⟩ :: used) a + if a ∈ (⟨s + k, n⟩ : Span) then 1 else 0 := by
    intro a
    rw [cover_cons, cover_cons, cover_cut]
    omega
  have hfree : ∀ q ∈ m.freeSpans, Span.Disjoint ⟨s + k, n⟩ q := h.disjoint_free fun a ha => by
    rw [hcut, if_pos ha]
    exact (h.once a).trans (le_add_left _ _)
  have hgives := addFreeSpace_spec h.wellFormed hn (by omega) (by omega) hfree
  refine ⟨hgives.wellFormed, fun a => ?_, h.once, h.bounded⟩
  have := h.cover_eq a
  have := hcut a
  rw [hgives.cover_eq]
  omega

/-- An empty span in front makes no difference. -/
theorem of_empty {s : Nat} (h : Partition m (⟨s, 0⟩ :: used) reserved) :
    Partition m used reserved := by
  refine ⟨h.wellFormed, fun a => ?_, h.once, h.bounded⟩
  rw [← h.cover_eq, cover_cons, if_neg (by rw [Span.mem_iff]; dsimp only; omega), add_zero]

section

variable (h : Partition m used reserved)

include h

theorem total_eq : total used + total m.freeSpans = total reserved := by
  rw [← total_append]
  exact total_eq_of_cover_eq fun a => by rw [cover_append, h.cover_eq]

theorem total_lt : total reserved < 2 ^ 64 := by
  have := total_le_of_disjoint (n := 2 ^ 64 - 1) h.once
    (fun r hr => by have := (h.bounded r hr).2; omega)
  omega

/-- A used span lies in the address space, if it is not empty. -/
theorem used_bounded (hr : r ∈ used) (hsize : 0 < r.size) : 0 < r.start ∧ r.stop < 2 ^ 64 := by
  -- its first and its last byte are reserved
  have hmem : ∀ a ∈ r, 0 < a ∧ a + 1 < 2 ^ 64 := by
    intro a ha
    have hpos : 0 < cover used a := cover_pos_iff.2 ⟨r, hr, ha⟩
    obtain ⟨s, hs, has⟩ := cover_pos_iff.1 (show 0 < cover reserved a by rw [← h.cover_eq]; omega)
    have hb := h.bounded s hs
    rw [Span.mem_iff] at has
    unfold Span.stop at hb
    omega
  have hfirst := hmem r.start (Span.mem_iff.2 (by omega))
  have hlast := hmem (r.start + r.size - 1) (Span.mem_iff.2 (by omega))
  unfold Span.stop
  omega

/-- **Used and free spans tile the reserved memory.** -/
theorem tiles :
    Tiles (used ++ m.freeSpans) {a | ∃ r ∈ reserved, a ∈ r} := by
  rw [tiles_iff_cover]
  intro a
  rw [cover_append, h.cover_eq]
  exact ⟨h.once a, cover_pos_iff⟩

end

end Partition

/-! ## 2. What the calls do -/

namespace Geometry

variable {g : Geometry} {n r : Nat}

/-- A size that passes the check of `roundUp` is rounded up to a multiple of the granule. -/
theorem roundUp_spec (h : g.roundUp n = some r) : n ≤ r ∧ g.allocationGranule ∣ r ∧ r < 2 ^ 64 ∧
      ∀ k, g.allocationGranule ∣ k → n ≤ k → r ≤ k := by
  unfold roundUp at h
  split_ifs at h with hcrash
  have hlog := g.logAllocationGranule_lt
  have hsum : n + 2 ^ g.logAllocationGranule ≤ 2 ^ 64 := by
    unfold allocationGranule at hcrash
    omega
  rw [alignUp_eq (by omega) hsum] at h
  cases h
  have hlt := ceil_mul_lt g.logAllocationGranule n
  refine ⟨le_ceil_mul _ _, dvd_mul_left _ _, by omega, ?_⟩
  rintro k ⟨j, rfl⟩ hk
  rw [allocationGranule, mul_comm] at hk
  rw [allocationGranule, mul_comm _ j]
  exact ceil_mul_le hk

/-- The pages asked for hold the size asked for, unless their computation wraps. -/
theorem le_requestedNumberOfPages (h : r + g.pageSize ≤ 2 ^ 64) :
    r ≤ requestedNumberOfPages g r * g.pageSize := by
  have hpos : 0 < g.pageSize := Nat.two_pow_pos _
  rw [requestedNumberOfPages, sub_add_one (by omega) h, shiftRight_eq_div_pow]
  exact le_ceil_mul g.logPageSize r

end Geometry

namespace MetaAllocator

variable {g : Geometry} {m m' : MetaAllocator τ} {n : Nat} {f : Nat → Option (Nat × Nat)}

omit [SizeTree τ] in
/-- Only the page table and the byte count change.  (The table is a variable here because comparing
two allocators field by field would evaluate the loop over the pages.) -/
theorem toFreeSpaceIndex_with (t : PageTable) (b : Nat) :
    ({ m with toPageTable := t, bytesAllocated := b } : MetaAllocator τ).toFreeSpaceIndex
      = m.toFreeSpaceIndex := rfl

omit [SizeTree τ] in
theorem bytesReserved_with (t : PageTable) (b : Nat) :
    ({ m with toPageTable := t, bytesAllocated := b } : MetaAllocator τ).bytesReserved
      = m.bytesReserved := rfl

omit [SizeTree τ] in
theorem commit_toFreeSpaceIndex (a : Allocation) :
    (m.commit g a).toFreeSpaceIndex = m.toFreeSpaceIndex := by
  unfold commit
  exact toFreeSpaceIndex_with _ _

omit [SizeTree τ] in
theorem commit_bytesReserved (a : Allocation) : (m.commit g a).bytesReserved = m.bytesReserved := by
  unfold commit
  exact bytesReserved_with _ _

omit [SizeTree τ] in
theorem commit_bytesAllocated (a : Allocation) :
    (m.commit g a).bytesAllocated = add 64 m.bytesAllocated a.sizeInBytes := rfl

/-- The allocator after a successful `allocateNewSpace`, before the handle is made. -/
def reserve (start sizeInBytes roundedUpSize : Nat) (m : MetaAllocator τ) : MetaAllocator τ :=
  { m with
    bytesReserved := add 64 m.bytesReserved roundedUpSize
    toFreeSpaceIndex :=
      if roundedUpSize > sizeInBytes then
        m.addFreeSpace (add 64 start sizeInBytes) (sub 64 roundedUpSize sizeInBytes)
      else m.toFreeSpaceIndex }

/-- **Everything `allocate` can do.**  It returns null and changes nothing, or it uses a span it
found free, or one it got from `allocateNewSpace`. -/
theorem allocate_cases {res : Option Allocation} (hwf : m.WellFormed)
    (h : m.allocate g n f = some (res, m')) :
    (res = none ∧ m' = m) ∨
    ∃ r, g.roundUp n = some r ∧ 0 < r ∧
      ((∃ start index, m.Takes ⟨start, r⟩ index ∧ res = some ⟨start, r, none⟩ ∧
          m' = commit g ⟨start, r, none⟩ { m with toFreeSpaceIndex := index }) ∨
        ∃ start pages, f (requestedNumberOfPages g r) = some (start, pages) ∧
          res = some ⟨start, r, some ⟨start, (pages <<< g.logPageSize) % 2 ^ 64⟩⟩ ∧
          m' = commit g ⟨start, r, some ⟨start, (pages <<< g.logPageSize) % 2 ^ 64⟩⟩
            (m.reserve start r ((pages <<< g.logPageSize) % 2 ^ 64))) := by
  unfold allocate at h
  by_cases hn : n = 0
  · rw [if_pos hn] at h
    cases h
    exact .inl ⟨rfl, rfl⟩
  rw [if_neg hn] at h
  cases hround : g.roundUp n with
  | none =>
    rw [hround] at h
    cases h
  | some r =>
    have hr : 0 < r := by
      have := (roundUp_spec hround).1
      omega
    rw [hround] at h
    dsimp only at h
    rcases findAndRemoveFreeSpace_spec g hwf hr with ⟨hnone, -⟩ | htake
    · rw [hnone, if_pos rfl] at h
      cases hf : f (requestedNumberOfPages g r) with
      | none =>
        rw [hf] at h
        cases h
        exact .inl ⟨rfl, rfl⟩
      | some answer =>
        obtain ⟨start, pages⟩ := answer
        rw [hf] at h
        cases h
        refine .inr ⟨r, rfl, hr, .inr ⟨start, pages, hf, rfl, ?_⟩⟩
        unfold reserve
        split_ifs <;> rfl
    · rw [if_neg (pos_iff_ne_zero.1 htake.start_pos)] at h
      cases h
      exact .inr ⟨r, rfl, hr, .inl ⟨_, _, htake, rfl, rfl⟩⟩

end MetaAllocator

namespace MetaAllocatorHandle

variable {g : Geometry} {h h' : MetaAllocatorHandle} {m m' : MetaAllocator τ} {n : Nat}

/-- The pages of the handle that `shrink` gives up, when it keeps `r` bytes. -/
def shrinkPages (g : Geometry) (h : MetaAllocatorHandle) (r : Nat) (t : PageTable) : PageTable :=
  let freeStart := add 64 h.start r
  let freeSize := sub 64 h.sizeInBytes r
  let firstCompletelyFreePage := alignUp 64 g.logPageSize freeStart
  if firstCompletelyFreePage < add 64 freeStart freeSize then
    t.decrementPageOccupancy g firstCompletelyFreePage
      (sub 64 freeSize (sub 64 firstCompletelyFreePage freeStart))
  else t

/-- **Everything `shrink` can do.** -/
theorem shrink_cases (hs : h.shrink g n m = some (h', m')) :
    ∃ r, g.roundUp n = some r ∧
      ((r = h.sizeInBytes ∧ h' = h ∧ m' = m) ∨
        (r ≠ h.sizeInBytes ∧ h' = { h with sizeInBytes := r } ∧
          m' = addFreeSpaceFromReleasedHandle (add 64 h.start r)
            (sub 64 h.sizeInBytes r)
            { m with toPageTable := h.shrinkPages g r m.toPageTable })) := by
  unfold shrink at hs
  cases hround : g.roundUp n with
  | none =>
    rw [hround] at hs
    cases hs
  | some r =>
    rw [hround] at hs
    refine ⟨r, rfl, ?_⟩
    dsimp only at hs
    by_cases hr : r = h.sizeInBytes
    · rw [if_pos hr] at hs
      cases hs
      exact .inl ⟨hr, rfl, rfl⟩
    · rw [if_neg hr] at hs
      cases hs
      refine .inr ⟨hr, rfl, ?_⟩
      unfold shrinkPages
      dsimp only
      split_ifs <;> rfl

end MetaAllocatorHandle

/-! ## 3. The invariant -/

namespace World

/-- Memory the allocator may be given: not empty, in no region it was given before, not in the null
page, and ending at an address that is not the deleted-entry marker of the hash maps. -/
structure Fresh (g : Geometry) (w : World τ) (r : Span) : Prop where
  nonempty : 0 < r.size
  not_null : g.pageSize ≤ r.start
  stop_lt : r.stop < 2 ^ 64 - 1
  disjoint : ∀ s ∈ w.reserved, r.Disjoint s

/-- **What the users of the allocator and the operating system keep to.**  Fresh regions are fresh;
`allocateNewSpace` fails or returns a fresh run of at least as many pages as it was asked for; a
handle is used only while it is alive, and shrunk to at most its size. -/
def Admissible (g : Geometry) (w : World τ) : Op → Prop
  | .addFreshFreeSpace start sizeInBytes => w.Fresh g ⟨start, sizeInBytes⟩
  | .allocate sizeInBytes _ allocateNewSpace =>
    ∀ r start pages, g.roundUp sizeInBytes = some r →
      allocateNewSpace (requestedNumberOfPages g r) = some (start, pages) →
      requestedNumberOfPages g r ≤ pages ∧ g.pageSize ∣ start ∧
        w.Fresh g ⟨start, pages * g.pageSize⟩
  | .shrink handle newSizeInBytes => handle ∈ w.handles ∧ newSizeInBytes ≤ handle.sizeInBytes
  | .release handle => handle ∈ w.handles

/-- The spans of the live handles. -/
def used (w : World τ) : List Span := w.handles.map MetaAllocatorHandle.span

/-- The internal invariant. -/
structure Good (g : Geometry) (w : World τ) : Prop where
  partition : Partition w.allocator.toFreeSpaceIndex w.used w.reserved
  bytesAllocated : w.allocator.bytesAllocated = total w.used
  bytesReserved : w.allocator.bytesReserved = total w.reserved
  granule : ∀ h ∈ w.handles, g.allocationGranule ∣ h.sizeInBytes
  located : ∀ h ∈ w.handles, 0 < h.start ∧ h.start + h.sizeInBytes < 2 ^ 64

/-- The size of an allocation, rounded up to whole pages, is a `size_t`. -/
def NoWrap (g : Geometry) : Op → Prop
  | .allocate sizeInBytes _ _ => ∀ r, g.roundUp sizeInBytes = some r → r + g.pageSize ≤ 2 ^ 64
  | _ => True

variable {g : Geometry} {w w' : World τ}

theorem good_new (tracker : Option (List HandlePtr)) : (new tracker : World τ).Good g := by
  constructor
  · exact Partition.empty
  · rfl
  · rfl
  · intro h hh
    cases hh
  · intro h hh
    cases hh

variable {handle : MetaAllocatorHandle}

omit [SizeTree τ] in
theorem used_perm (hh : handle ∈ w.handles) :
    w.used.Perm (handle.span :: (w.handles.erase handle).map span) :=
  (perm_cons_erase hh).map MetaAllocatorHandle.span

variable (h : w.Good g)

include h

theorem addFreshFreeSpace_good {start sizeInBytes : Nat} (hf : w.Fresh g ⟨start, sizeInBytes⟩)
    (hs : w.step g (.addFreshFreeSpace start sizeInBytes) = some w') :
    w'.Good g := by
  cases hs
  have hpage : 0 < g.pageSize := Nat.two_pow_pos _
  have hlo : g.pageSize ≤ start := hf.not_null
  have hhi : start + sizeInBytes < 2 ^ 64 - 1 := hf.stop_lt
  have hsize : 0 < sizeInBytes := hf.nonempty
  have hpart := h.partition.addFree hsize (by omega) (by omega) hf.disjoint
  refine ⟨hpart, h.bytesAllocated, ?_, h.granule, h.located⟩
  have hlt := hpart.total_lt
  rw [total_cons, add_comm] at hlt
  show add 64 w.allocator.bytesReserved sizeInBytes = total (_ :: w.reserved)
  rw [h.bytesReserved, add_of_lt hlt, total_cons, add_comm]

section

variable {m : MetaAllocator τ} {a : MetaAllocator.Allocation} {ownerUID : Nat}
  (hpart : Partition m.toFreeSpaceIndex (⟨a.start, a.sizeInBytes⟩ :: w.used)
    (a.newSpace.toList ++ w.reserved))
  (hreserved : m.bytesReserved = total (a.newSpace.toList ++ w.reserved))
  (hdvd : g.allocationGranule ∣ a.sizeInBytes) (hsize : 0 < a.sizeInBytes)

include hpart hreserved hdvd hsize

/-- A new handle on a span that the partition counts as used. -/
theorem newHandle_good (hallocated : m.bytesAllocated =
    total (⟨a.start, a.sizeInBytes⟩ :: w.used)) :
    (w.newHandle a ownerUID m).Good g := by
  have hbound : 0 < a.start ∧ a.start + a.sizeInBytes < 2 ^ 64 :=
    hpart.used_bounded mem_cons_self hsize
  refine ⟨hpart, hallocated, hreserved, ?_, ?_⟩
  · intro x hx
    rcases mem_cons.1 hx with rfl | hx
    · exact hdvd
    · exact h.granule x hx
  · intro x hx
    rcases mem_cons.1 hx with rfl | hx
    · exact hbound
    · exact h.located x hx

/-- `allocate` turns a span that is about to be used into a handle. -/
theorem commit_good (hallocated : m.bytesAllocated = total w.used) :
    (w.newHandle a ownerUID (m.commit g a)).Good g := by
  have hlt : total w.used + a.sizeInBytes < 2 ^ 64 := by
    have htotal := hpart.total_eq
    have := hpart.total_lt
    rw [total_cons] at htotal
    dsimp only at htotal
    omega
  apply newHandle_good h
  · rw [commit_toFreeSpaceIndex]
    exact hpart
  · rw [commit_bytesReserved]
    exact hreserved
  · exact hdvd
  · exact hsize
  · rw [commit_bytesAllocated, hallocated, add_of_lt hlt, total_cons, add_comm]

end

omit h

/-- A fresh run of pages, of which the first `r` bytes are used. -/
theorem reserve_partition {m : MetaAllocator τ} {used reserved : List Span} {start r n : Nat}
    (h : Partition m.toFreeSpaceIndex used reserved) (hlo : 0 < start) (hhi : start + n < 2 ^ 64)
    (hfresh : ∀ s ∈ reserved, Span.Disjoint ⟨start, n⟩ s) (hr : r ≤ n) :
    Partition (m.reserve start r n).toFreeSpaceIndex (⟨start, r⟩ :: used)
    (⟨start, n⟩ :: reserved) := by
  have hall := h.addUsed (r := ⟨start, n⟩) hlo hhi hfresh
  unfold reserve
  split_ifs with hgt
  · obtain ⟨k, rfl⟩ := Nat.exists_eq_add_of_le hr
    rw [add_of_lt (by omega), sub_of_le hr (by omega), Nat.add_sub_cancel_left]
    exact hall.giveTail (by omega) hlo hhi
  · obtain rfl : r = n := by omega
    exact hall

include h

theorem allocate_good {sizeInBytes ownerUID : Nat} {f : Nat → Option (Nat × Nat)}
    (hadm : w.Admissible g (.allocate sizeInBytes ownerUID f))
    (hwrap : NoWrap g (.allocate sizeInBytes ownerUID f))
    (hs : w.step g (.allocate sizeInBytes ownerUID f) = some w') : w'.Good g := by
  cases halloc : w.allocator.allocate g sizeInBytes f with
  | none =>
    simp only [step, halloc] at hs
    cases hs
  | some result =>
    obtain ⟨res, m'⟩ := result
    simp only [step, halloc] at hs
    rcases allocate_cases h.partition.wellFormed halloc with
      ⟨rfl, rfl⟩ | ⟨r, hround, hr, ⟨start, index, htake, rfl, rfl⟩ | ⟨start, pages, hf, rfl, rfl⟩⟩
    · cases hs
      exact h
    · cases hs
      exact commit_good h (h.partition.take htake) h.bytesReserved (roundUp_spec hround).2.1 hr
        h.bytesAllocated
    · cases hs
      obtain ⟨hpages, -, hfresh⟩ := hadm r start pages hround hf
      have hpage : 0 < g.pageSize := Nat.two_pow_pos _
      have hlo : g.pageSize ≤ start := hfresh.not_null
      have hhi : start + pages * g.pageSize < 2 ^ 64 - 1 := hfresh.stop_lt
      -- the run is large enough because the number of pages was computed without wrapping
      have hfit : r ≤ pages * g.pageSize :=
        (le_requestedNumberOfPages (hwrap r hround)).trans (mul_le_mul_right _ hpages)
      have hrounded : (pages <<< g.logPageSize) % 2 ^ 64 = pages * g.pageSize := by
        rw [shiftLeft_eq]
        exact mod_eq_of_lt (by unfold pageSize at *; omega)
      rw [hrounded]
      have hpart := reserve_partition h.partition (by omega) (by omega) hfresh.disjoint hfit
      refine commit_good h hpart ?_ (roundUp_spec hround).2.1 hr h.bytesAllocated
      have hlt := hpart.total_lt
      rw [total_cons, add_comm] at hlt
      show add 64 w.allocator.bytesReserved (pages * g.pageSize) = total (_ :: w.reserved)
      rw [h.bytesReserved, add_of_lt hlt, total_cons, add_comm]

/-- Setting the tail of a live handle free. -/
theorem giveTail_good (hh : handle ∈ w.handles) {k : Nat} (hk : k < handle.sizeInBytes) :
    Partition (w.allocator.addFreeSpace (handle.start + k) (handle.sizeInBytes - k))
        (⟨handle.start, k⟩ :: (w.handles.erase handle).map span) w.reserved ∧
      sub 64 w.allocator.bytesAllocated (handle.sizeInBytes - k)
        = total (⟨handle.start, k⟩ :: (w.handles.erase handle).map span) := by
  have hperm := used_perm hh
  have hloc := h.located handle hh
  have hpart := h.partition.perm hperm
  obtain ⟨n, hn⟩ := Nat.exists_eq_add_of_lt hk
  have hspan : handle.span = ⟨handle.start, k + (n + 1)⟩ := by
    rw [MetaAllocatorHandle.span, hn, Nat.add_assoc]
  have htail : handle.sizeInBytes - k = n + 1 := by omega
  constructor
  · rw [hspan] at hpart
    rw [htail]
    exact hpart.giveTail (Nat.succ_pos n) hloc.1 (by omega)
  · have htotal := total_perm hperm
    have hle := h.partition.total_eq
    have hlt := h.partition.total_lt
    rw [total_cons, hspan] at htotal
    dsimp only at htotal
    rw [htail, h.bytesAllocated, sub_of_le (by omega) (by omega), total_cons]
    dsimp only
    omega

/-- A live handle is replaced, after its tail was set free, or its last bytes with it. -/
theorem released_good (handles : List MetaAllocatorHandle) {start n : Nat}
    (t : PageTable) (tracker : Option (List HandlePtr))
    (hpart : Partition (w.allocator.addFreeSpace start n) (handles.map span)
      w.reserved)
    (hbytes : sub 64 w.allocator.bytesAllocated n
      = total (handles.map span))
    (hgranule : ∀ x ∈ handles, g.allocationGranule ∣ x.sizeInBytes)
    (hlocated : ∀ x ∈ handles, 0 < x.start ∧ x.start + x.sizeInBytes < 2 ^ 64) :
    Good g { w with
      allocator := { addFreeSpaceFromReleasedHandle start n
        { w.allocator with toPageTable := t } with tracker := tracker }
      handles := handles } :=
  ⟨hpart, hbytes, h.bytesReserved, hgranule, hlocated⟩

theorem shrink_good {n : Nat} (hh : handle ∈ w.handles) (hn : n ≤ handle.sizeInBytes)
    (hs : w.step g (.shrink handle n) = some w') : w'.Good g := by
  cases hshrink : handle.shrink g n w.allocator with
  | none =>
    simp only [step, hshrink] at hs
    cases hs
  | some result =>
    obtain ⟨h', m'⟩ := result
    simp only [step, hshrink] at hs
    cases hs
    obtain ⟨r, hround, hcases⟩ := shrink_cases hshrink
    -- handles have whole granules, so rounding up does not pass the size
    have hle : r ≤ handle.sizeInBytes :=
      (roundUp_spec hround).2.2.2 _ (h.granule handle hh) hn
    have hloc := h.located handle hh
    rcases hcases with ⟨-, rfl, rfl⟩ | ⟨hne, rfl, rfl⟩
    · have hperm := perm_cons_erase hh
      refine ⟨h.partition.perm (hperm.map _), ?_, h.bytesReserved, ?_, ?_⟩
      · rw [h.bytesAllocated]
        exact total_perm (hperm.map _)
      · exact fun x hx => h.granule x (hperm.mem_iff.2 hx)
      · exact fun x hx => h.located x (hperm.mem_iff.2 hx)
    · rw [add_of_lt (by omega), sub_of_le hle (by omega)]
      obtain ⟨hpart, hbytes⟩ := giveTail_good h hh (lt_of_le_of_ne hle hne)
      refine released_good h (_ :: w.handles.erase handle) _ _ hpart hbytes ?_ ?_
      · intro x hx
        rcases mem_cons.1 hx with rfl | hx
        · exact (roundUp_spec hround).2.1
        · exact h.granule x (mem_of_mem_erase hx)
      · intro x hx
        rcases mem_cons.1 hx with rfl | hx
        · exact ⟨hloc.1, by dsimp only; omega⟩
        · exact h.located x (mem_of_mem_erase hx)

theorem release_good (hh : handle ∈ w.handles) (hs : w.step g (.release handle) = some w') :
    w'.Good g := by
  cases hs
  have hgranule : ∀ x ∈ w.handles.erase handle, g.allocationGranule ∣ x.sizeInBytes :=
    fun x hx => h.granule x (mem_of_mem_erase hx)
  have hlocated : ∀ x ∈ w.handles.erase handle, 0 < x.start ∧ x.start + x.sizeInBytes < 2 ^ 64 :=
    fun x hx => h.located x (mem_of_mem_erase hx)
  unfold release
  by_cases hsize : handle.sizeInBytes = 0
  · rw [if_neg (not_not.2 hsize)]
    have hperm := used_perm hh
    have hspan : handle.span = ⟨handle.start, 0⟩ := by rw [MetaAllocatorHandle.span, hsize]
    rw [hspan] at hperm
    refine ⟨(h.partition.perm hperm).of_empty, ?_, h.bytesReserved, hgranule, hlocated⟩
    have := total_perm hperm
    rw [total_cons] at this
    exact h.bytesAllocated.trans (this.trans (zero_add _))
  · rw [if_pos hsize]
    obtain ⟨hpart, hbytes⟩ := giveTail_good h hh (pos_of_ne_zero hsize)
    rw [total_cons, zero_add] at hbytes
    exact released_good h _ _ _ hpart.of_empty hbytes hgranule hlocated

/-- **Every call keeps the invariant.** -/
theorem step_good {op : Op} (hadm : w.Admissible g op) (hwrap : NoWrap g op)
    (hs : w.step g op = some w') : w'.Good g := by
  cases op with
  | addFreshFreeSpace start sizeInBytes => exact addFreshFreeSpace_good h hadm hs
  | allocate sizeInBytes ownerUID f => exact allocate_good h hadm hwrap hs
  | shrink handle n => exact shrink_good h hadm.1 hadm.2 hs
  | release handle => exact release_good h hadm hs

omit h

/-- **What holds of the allocator at all times.**  Handles and free nodes are disjoint and tile the
reserved memory, no free node touches another one, the three containers agree, and the byte counts
add up. -/
structure Invariant (w : World τ) : Prop where
  tiles : Tiles (w.used ++ w.allocator.freeSpans) {a | ∃ r ∈ w.reserved, a ∈ r}
  separate : ∀ r ∈ w.allocator.freeSpans, ∀ s ∈ w.allocator.freeSpans, r.stop ≠ s.start
  indexed : w.allocator.Indexed
  bytes : w.allocator.bytesReserved = w.allocator.bytesAllocated + w.allocator.debugFreeSpaceSize

theorem debugFreeSpaceSize_eq (m : FreeSpaceIndex τ) :
    m.debugFreeSpaceSize = total m.freeSpans := by
  rw [debugFreeSpaceSize, total, freeSpans, map_map]
  rfl

/-- Nonempty spans that are pairwise apart do not touch, themselves included. -/
theorem stop_ne_start {m : FreeSpaceIndex τ} (h : m.WellFormed) :
    ∀ r ∈ m.freeSpans, ∀ s ∈ m.freeSpans, r.stop ≠ s.start := by
  intro r hr s hs htouch
  have hss := h.nonempty s hs
  by_cases heq : r = s
  · subst heq
    unfold Span.stop at htouch
    omega
  · have hapart := h.apart.forall hr hs heq
    unfold Span.Apart Span.stop at *
    omega

include h in
theorem Good.invariant : w.Invariant := by
  constructor
  · exact h.partition.tiles
  · exact stop_ne_start h.partition.wellFormed
  · exact h.partition.wellFormed.indexed
  · rw [debugFreeSpaceSize_eq, h.bytesReserved, h.bytesAllocated, h.partition.total_eq]

/-- **Every run keeps the invariant**, if no allocation is so large that its size wraps when it is
rounded up to whole pages. -/
theorem run_invariant {tracker : Option (List HandlePtr)} {ops : List Op} {w : World τ}
    (hrun : Transition.Run (fun w op => w.Admissible g op ∧ NoWrap g op) (step g)
      (new tracker) ops w) : w.Invariant :=
  (hrun.invariant (fun _ _ _ hguard hgood hs => step_good hgood hguard.1 hguard.2 hs)
    (good_new tracker)).invariant

/-- Granules of 32 bytes and pages of 4096, as the JIT uses them. -/
def jitGeometry : Geometry := ⟨5, 12, by decide, by decide⟩

/-- The condition and the guards are met by an ordinary run. -/
theorem run_invariant_jit :
    ∃ w : World (List NodePtr),
      Transition.Run (fun w op => w.Admissible jitGeometry op ∧ NoWrap jitGeometry op)
        (step jitGeometry) (new none)
        [.addFreshFreeSpace 4096 8192, .allocate 40 7 fun _ => none] w ∧ w.Invariant := by
  refine Exists.imp (fun w hrun => ⟨hrun, run_invariant hrun⟩) ?_
  refine ⟨_, .cons ⟨⟨by decide, by decide, by decide, ?_⟩, trivial⟩ rfl (.cons ⟨?_, ?_⟩ rfl .nil)⟩
  · intro s hs
    cases hs
  · intro r start pages _ hf
    cases hf
  · intro r hr
    have hround : jitGeometry.roundUp 40 = some 64 := by decide
    cases hround.symm.trans hr
    decide

/-- **Without the condition the invariant fails.**  The size `2 ^ 64 - 64` passes the check of
`roundUp`, but adding the page size wraps, so `allocate` asks for no pages at all and hands out the
one page it gets as a handle of nearly `2 ^ 64` bytes. -/
theorem allocate_wraps :
    ∃ (ops : List Op) (w : World (List NodePtr)),
      Transition.Run (Admissible jitGeometry) (step jitGeometry) (new none) ops w ∧
        ¬ w.Invariant := by
  let op : Op := .allocate (2 ^ 64 - 64) 0 fun _ => some (4096, 1)
  have hadm : Admissible jitGeometry (new none : World (List NodePtr)) op := by
    intro r start pages hr hf
    cases hf
    have hround : jitGeometry.roundUp (2 ^ 64 - 64) = some (2 ^ 64 - 64) := by decide
    cases hround.symm.trans hr
    refine ⟨by decide, by decide, by decide, by decide, by decide, ?_⟩
    intro s hs
    cases hs
  refine ⟨[op], _, .cons hadm rfl .nil, ?_⟩
  intro hinv
  exact absurd hinv.bytes (by decide)

end World

end JavaScriptCore.WTF
