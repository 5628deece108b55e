/-
# The free space of a `MetaAllocator` and its three indices

`FreeSpaceIndex.Indexed` says that the size tree, the start-address map and the end-address map hold
the same nodes, each under its right key.  The source keeps this by hand: on each of its seven paths
it touches only the keys that change.  Here two operations stand behind all seven.  `unlink` takes a
node out of the three containers and `link` writes a node and puts it into all three; each keeps
`Indexed` by one proof.  The source's paths are compositions of the two (`addFreeSpace_eq_new` and
so on), because taking a key out and putting it back changes nothing.

What an operation does to the free bytes is then counted with `cover`: the list of the free spans
changes by one span at a time.
-/
import JavaScriptCore.WTF.MetaAllocator

namespace JavaScriptCore.WTF

open Tiling List Word Span SizeTree

namespace FreeSpaceIndex

variable {τ : Type} [SizeTree τ] {m : FreeSpaceIndex τ} {p : NodePtr} {n : FreeSpaceNode}

/-! ## 1. The indices -/

def nodeSpan (m : FreeSpaceIndex τ) (p : NodePtr) : Span :=
  ⟨(m.node p).start, (m.node p).sizeInBytes⟩

/-- The free spans, by size. -/
def freeSpans (m : FreeSpaceIndex τ) : List Span := m.nodes.map m.nodeSpan

/-- **The three containers hold exactly the same nodes under their right keys.** -/
structure Indexed (m : FreeSpaceIndex τ) : Prop where
  nodup : m.nodes.Nodup
  sorted : m.nodes.Pairwise fun p q => m.key p ≤ m.key q
  starts : m.freeSpaceStartAddressMap.Indexes m.nodes fun p => (m.nodeSpan p).start
  ends : m.freeSpaceEndAddressMap.Indexes m.nodes fun p => (m.nodeSpan p).stop
  allocated : ∀ p ∈ m.nodes, p < m.nextNode

theorem nodes_empty : (empty : FreeSpaceIndex τ).nodes = [] := SizeTree.nodes_empty

theorem indexed_empty : (empty : FreeSpaceIndex τ).Indexed := by
  constructor
  · rw [nodes_empty]
    exact nodup_nil
  · rw [nodes_empty]
    exact List.Pairwise.nil
  · intro a p
    rw [nodes_empty]
    simp [empty]
  · intro a p
    rw [nodes_empty]
    simp [empty]
  · rw [nodes_empty]
    intro p hp
    cases hp

theorem mem_freeSpans {r : Span} : r ∈ m.freeSpans ↔ ∃ p ∈ m.nodes, m.nodeSpan p = r := mem_map

theorem Indexed.start_ne (h : m.Indexed) {a : Nat} (ha : m.freeSpaceStartAddressMap.find a = none) :
    ∀ r ∈ m.freeSpans, r.start ≠ a := by
  intro r hr
  obtain ⟨p, hp, rfl⟩ := mem_freeSpans.1 hr
  exact h.starts.key_ne ha hp

theorem Indexed.end_ne (h : m.Indexed) {a : Nat} (ha : m.freeSpaceEndAddressMap.find a = none) :
    ∀ r ∈ m.freeSpans, r.stop ≠ a := by
  intro r hr
  obtain ⟨p, hp, rfl⟩ := mem_freeSpans.1 hr
  exact h.ends.key_ne ha hp

/-! ## 2. Taking a node out and putting one in -/

/-- Take a node out of the three containers. -/
def unlink (p : NodePtr) (m : FreeSpaceIndex τ) : FreeSpaceIndex τ :=
  m.sizeMapRemove p |>.startMapRemove (m.nodeSpan p).start |>.endMapRemove (m.nodeSpan p).stop

/-- Write a node and put it into the three containers. -/
def link (p : NodePtr) (n : FreeSpaceNode) (m : FreeSpaceIndex τ) : FreeSpaceIndex τ :=
  m.setNode p n |>.sizeMapInsert p |>.startMapAdd n.start p
    |>.endMapAdd (n.start + n.sizeInBytes) p

theorem nodeSpan_unlink (q : NodePtr) : (m.unlink p).nodeSpan q = m.nodeSpan q := by
  simp only [nodeSpan, unlink, sizeMapRemove, startMapRemove, endMapRemove]

theorem nodeSpan_link (q : NodePtr) :
    (m.link p n).nodeSpan q = if q = p then ⟨n.start, n.sizeInBytes⟩ else m.nodeSpan q := by
  simp only [nodeSpan, link, setNode, sizeMapInsert, startMapAdd, endMapAdd]
  split_ifs <;> rfl

theorem nodes_unlink (hp : p ∈ m.nodes) : (m.unlink p).nodes = m.nodes.erase p := nodes_remove hp

theorem not_mem_unlink (h : m.Indexed) (hp : p ∈ m.nodes) : p ∉ (m.unlink p).nodes := by
  rw [nodes_unlink hp]
  exact h.nodup.not_mem_erase

theorem Indexed.unlink (h : m.Indexed) (hp : p ∈ m.nodes) : (m.unlink p).Indexed := by
  constructor
  · rw [nodes_unlink hp]
    exact h.nodup.erase p
  · rw [nodes_unlink hp]
    exact h.sorted.sublist erase_sublist
  · rw [nodes_unlink hp]
    exact h.starts.remove h.nodup hp
  · rw [nodes_unlink hp]
    exact h.ends.remove h.nodup hp
  · rw [nodes_unlink hp]
    intro q hq
    exact h.allocated q (mem_of_mem_erase hq)

/-- The nodes are ordered by their keys also after a write to a node that is not among them. -/
theorem sorted_setNode (h : m.Indexed) (hp : p ∉ m.nodes) :
    m.nodes.Pairwise fun q r => (m.setNode p n).key q ≤ (m.setNode p n).key r := by
  refine h.sorted.imp_of_mem fun {q r} hq hr hle => ?_
  have hqp : q ≠ p := fun e => hp (e ▸ hq)
  have hrp : r ≠ p := fun e => hp (e ▸ hr)
  simpa only [key, setNode, if_neg hqp, if_neg hrp] using hle

theorem nodes_link (h : m.Indexed) (hp : p ∉ m.nodes) : (m.link p n).nodes.Perm (p :: m.nodes) :=
  (nodes_insert (sorted_setNode h hp) hp).1

/-- Writing `p` leaves the other nodes as they are. -/
theorem nodeSpan_link_of_mem (hp : p ∉ m.nodes) {q : NodePtr} (hq : q ∈ m.nodes) :
    (m.link p n).nodeSpan q = m.nodeSpan q := by
  rw [nodeSpan_link, if_neg]
  rintro rfl
  exact hp hq

theorem Indexed.link (h : m.Indexed) (hp : p ∉ m.nodes) (hnext : p < m.nextNode)
    (hstart : m.freeSpaceStartAddressMap.find n.start = none)
    (hend : m.freeSpaceEndAddressMap.find (n.start + n.sizeInBytes) = none) :
    (m.link p n).Indexed := by
  have hself : (m.link p n).nodeSpan p = ⟨n.start, n.sizeInBytes⟩ := by
    rw [nodeSpan_link, if_pos rfl]
  constructor
  · exact (nodes_link h hp).nodup_iff.2 (nodup_cons.2 ⟨hp, h.nodup⟩)
  · exact (nodes_insert (sorted_setNode h hp) hp).2
  · have hadd :=
      h.starts.add (fun q => ((m.link p n).nodeSpan q).start) hp (nodes_link h hp (n := n))
      (fun q hq => by rw [nodeSpan_link_of_mem hp hq]) (by rwa [hself])
    rwa [hself] at hadd
  · have hadd := h.ends.add (fun q => ((m.link p n).nodeSpan q).stop) hp (nodes_link h hp (n := n))
      (fun q hq => by rw [nodeSpan_link_of_mem hp hq]) (by rwa [hself])
    rwa [hself] at hadd
  · intro q hq
    rcases mem_cons.1 ((nodes_link h hp).mem_iff.1 hq) with rfl | hq
    · exact hnext
    · exact h.allocated q hq

theorem freeSpans_unlink (hp : p ∈ m.nodes) :
    m.freeSpans.Perm (m.nodeSpan p :: (m.unlink p).freeSpans) := by
  rw [freeSpans, freeSpans, nodes_unlink hp]
  exact (perm_cons_erase hp).map m.nodeSpan

theorem freeSpans_link (h : m.Indexed) (hp : p ∉ m.nodes) :
    (m.link p n).freeSpans.Perm (⟨n.start, n.sizeInBytes⟩ :: m.freeSpans) := by
  have hsame : m.nodes.map (m.link p n).nodeSpan = m.nodes.map m.nodeSpan := by
    exact map_congr_left fun q hq => nodeSpan_link_of_mem hp hq
  have := (nodes_link h hp (n := n)).map (m.link p n).nodeSpan
  rwa [map_cons, hsame, nodeSpan_link, if_pos rfl] at this

/-! ## 3. The free space as a set of spans -/

/-- **The free-space invariant.**  The containers agree, the spans are nonempty and in the address
space, and no two of them overlap or touch. -/
structure WellFormed (m : FreeSpaceIndex τ) : Prop where
  indexed : m.Indexed
  nonempty : ∀ r ∈ m.freeSpans, 0 < r.size
  bounded : ∀ r ∈ m.freeSpans, 0 < r.start ∧ r.stop < 2 ^ 64
  apart : m.freeSpans.Pairwise Span.Apart

theorem wellFormed_empty : (empty : FreeSpaceIndex τ).WellFormed := by
  have hnil : (empty : FreeSpaceIndex τ).freeSpans = [] := by
    rw [freeSpans, nodes_empty, map_nil]
  refine ⟨indexed_empty, ?_, ?_, ?_⟩ <;> rw [hnil] <;> simp

variable (h : m.WellFormed)

include h

/-- A node taken out: what is left is well formed, and apart from it. -/
theorem WellFormed.unlink (hp : p ∈ m.nodes) :
    (m.unlink p).WellFormed ∧ ∀ r ∈ (m.unlink p).freeSpans, (m.nodeSpan p).Apart r := by
  have hperm := freeSpans_unlink hp
  have hsub : ∀ r ∈ (m.unlink p).freeSpans, r ∈ m.freeSpans := fun r hr =>
    hperm.mem_iff.2 (mem_cons_of_mem _ hr)
  have hpair := (hperm.pairwise_iff fun h => Span.Apart.symm h).1 h.apart
  rw [pairwise_cons] at hpair
  exact ⟨⟨h.indexed.unlink hp, fun r hr => h.nonempty r (hsub r hr),
    fun r hr => h.bounded r (hsub r hr), hpair.2⟩, hpair.1⟩

/-- A node put in, apart from the others. -/
theorem WellFormed.link (hp : p ∉ m.nodes) (hnext : p < m.nextNode)
    (hsize : 0 < n.sizeInBytes) (hlo : 0 < n.start) (hhi : n.start + n.sizeInBytes < 2 ^ 64)
    (hapart : ∀ r ∈ m.freeSpans, Span.Apart ⟨n.start, n.sizeInBytes⟩ r) :
    (m.link p n).WellFormed := by
  have hperm := freeSpans_link h.indexed hp (n := n)
  have hmem : ∀ r ∈ (m.link p n).freeSpans, r = ⟨n.start, n.sizeInBytes⟩ ∨ r ∈ m.freeSpans :=
    fun r hr => mem_cons.1 (hperm.mem_iff.1 hr)
  constructor
  · -- a node with this start, or with this end, would not be apart from the new one
    apply h.indexed.link hp hnext
    · refine Option.eq_none_iff_forall_ne_some.2 fun q hq => ?_
      obtain ⟨hq, hstart⟩ := (h.indexed.starts _ q).1 hq
      have := hapart _ (mem_freeSpans.2 ⟨q, hq, rfl⟩)
      unfold Span.Apart stop at this
      dsimp only at this hstart
      omega
    · refine Option.eq_none_iff_forall_ne_some.2 fun q hq => ?_
      obtain ⟨hq, hstop⟩ := (h.indexed.ends _ q).1 hq
      have := hapart _ (mem_freeSpans.2 ⟨q, hq, rfl⟩)
      unfold Span.Apart stop at this
      unfold stop at hstop
      dsimp only at this hstop
      omega
  · intro r hr
    rcases hmem r hr with rfl | hr
    · exact hsize
    · exact h.nonempty r hr
  · intro r hr
    rcases hmem r hr with rfl | hr
    · exact ⟨hlo, hhi⟩
    · exact h.bounded r hr
  · rw [hperm.pairwise_iff fun h => Span.Apart.symm h, pairwise_cons]
    exact ⟨hapart, h.apart⟩

omit h

/-! ## 4. The source's paths are compositions of the two

A path that only moves one end of a node touches the two containers whose keys change.  Unlinking
the node and linking it again would also remove and add the key that stays, to the same effect. -/

theorem link_unlink_of_stop_eq (h : m.Indexed) (hp : p ∈ m.nodes) (n : FreeSpaceNode) {a : Nat}
    (hstart : (m.nodeSpan p).start = a) (hstop : (m.nodeSpan p).stop = n.start + n.sizeInBytes) :
    (m.unlink p).link p n = (m.sizeMapRemove p |>.startMapRemove a |>.setNode p n
      |>.sizeMapInsert p |>.startMapAdd n.start p) := by
  have hkeep : (m.freeSpaceEndAddressMap.remove (m.nodeSpan p).stop).add (m.nodeSpan p).stop p
      = m.freeSpaceEndAddressMap := PartialMap.add_remove_self (h.ends.find_key hp)
  subst hstart
  simp only [link, unlink, sizeMapRemove, startMapRemove, endMapRemove, setNode, sizeMapInsert,
    startMapAdd, endMapAdd, ← hstop, hkeep]
  rfl

theorem link_unlink_of_start_eq (h : m.Indexed) (hp : p ∈ m.nodes) (n : FreeSpaceNode) {e e' : Nat}
    (hstart : (m.nodeSpan p).start = n.start) (hstop : (m.nodeSpan p).stop = e)
    (hend : n.start + n.sizeInBytes = e') :
    (m.unlink p).link p n = (m.sizeMapRemove p |>.endMapRemove e |>.setNode p n
      |>.sizeMapInsert p |>.endMapAdd e' p) := by
  have hkeep : (m.freeSpaceStartAddressMap.remove (m.nodeSpan p).start).add (m.nodeSpan p).start p
      = m.freeSpaceStartAddressMap := PartialMap.add_remove_self (h.starts.find_key hp)
  subst hstop hend
  simp only [link, unlink, sizeMapRemove, startMapRemove, endMapRemove, setNode, sizeMapInsert,
    startMapAdd, endMapAdd, ← hstart, hkeep]
  rfl

/-- Two nodes become one that starts where the left one did. -/
theorem link_unlink_unlink (h : m.Indexed) {q : NodePtr} (hp : p ∈ m.nodes) (n : FreeSpaceNode)
    {a e e' : Nat} (hne : (m.nodeSpan p).start ≠ (m.nodeSpan q).start)
    (hstart : (m.nodeSpan p).start = n.start) (hstop : (m.nodeSpan p).stop = e)
    (hqstart : (m.nodeSpan q).start = a) (hqstop : (m.nodeSpan q).stop = e')
    (hend : n.start + n.sizeInBytes = e') :
    ((m.unlink p).unlink q).link p n = (m.sizeMapRemove p |>.endMapRemove e |>.sizeMapRemove q
      |>.startMapRemove a |>.endMapRemove e' |>.setNode p n |>.sizeMapInsert p
        |>.endMapAdd e' p) := by
  have hfind : (m.freeSpaceStartAddressMap.remove (m.nodeSpan q).start).find (m.nodeSpan p).start
      = some p := by
    rw [PartialMap.find_remove, if_neg hne, h.starts.find_key hp]
  have hkeep := PartialMap.add_remove_self hfind
  rw [PartialMap.remove_comm] at hkeep
  subst hstop hqstart hqstop
  simp only [link, unlink, sizeMapRemove, startMapRemove, endMapRemove, setNode, sizeMapInsert,
    startMapAdd, endMapAdd, nodeSpan] at hkeep hend hstart ⊢
  simp only [← hstart] at hend ⊢
  simp only [hend, hkeep]
  rfl

include h in
/-- A node of which one or both ends were moved, still apart from the others. -/
theorem WellFormed.relink (hp : p ∈ m.nodes) (hsize : 0 < n.sizeInBytes)
    (hlo : 0 < n.start) (hhi : n.start + n.sizeInBytes < 2 ^ 64)
    (hapart : ∀ r ∈ (m.unlink p).freeSpans, Span.Apart ⟨n.start, n.sizeInBytes⟩ r) :
    ((m.unlink p).link p n).WellFormed ∧ ((m.unlink p).link p n).freeSpans.Perm
      (⟨n.start, n.sizeInBytes⟩ :: (m.unlink p).freeSpans) := by
  have hout := not_mem_unlink h.indexed hp
  exact ⟨(h.unlink hp).1.link hout (h.indexed.allocated p hp) hsize hlo hhi hapart,
    freeSpans_link (h.indexed.unlink hp) hout⟩

/-! ## 5. Taking space -/

/-- `m'` is `m` without the bytes of `r`, which were free. -/
structure Takes (m : FreeSpaceIndex τ) (r : Span) (m' : FreeSpaceIndex τ) : Prop where
  start_pos : 0 < r.start
  stop_lt : r.stop < 2 ^ 64
  wellFormed : m'.WellFormed
  cover_eq : ∀ a, cover m.freeSpans a = cover m'.freeSpans a + if a ∈ r then 1 else 0

include h

/-- The node as a whole is taken. -/
theorem takes_unlink (hp : p ∈ m.nodes) : m.Takes (m.nodeSpan p) (m.unlink p) := by
  have hb := h.bounded _ (mem_freeSpans.2 ⟨p, hp, rfl⟩)
  refine ⟨hb.1, hb.2, (h.unlink hp).1, fun a => ?_⟩
  rw [cover_perm (freeSpans_unlink hp), cover_cons]

/-- One end of the node is taken and the other one stays. -/
theorem takes_part (hp : p ∈ m.nodes) {s k : Nat} (hn : 0 < n.sizeInBytes)
    (hcut : (m.nodeSpan p = ⟨s, k + n.sizeInBytes⟩ ∧ n.start = s + k) ∨
      (m.nodeSpan p = ⟨n.start, n.sizeInBytes + k⟩ ∧ s = n.start + n.sizeInBytes)) :
    m.Takes ⟨s, k⟩ ((m.unlink p).link p n) := by
  have hb := h.bounded _ (mem_freeSpans.2 ⟨p, hp, rfl⟩)
  have hinside : (m.nodeSpan p).start ≤ n.start ∧ n.start + n.sizeInBytes ≤ (m.nodeSpan p).stop ∧
      (m.nodeSpan p).start ≤ s ∧ s + k ≤ (m.nodeSpan p).stop := by
    rcases hcut with ⟨hs, hc⟩ | ⟨hs, hc⟩ <;> rw [hs, stop] <;> dsimp only <;> omega
  -- a part of the node is at least as far from the other nodes as the node was
  have hapart : ∀ q ∈ (m.unlink p).freeSpans, Span.Apart ⟨n.start, n.sizeInBytes⟩ q := by
    intro q hq
    have := (h.unlink hp).2 q hq
    unfold Span.Apart stop at *
    dsimp only
    omega
  have hrelink := h.relink hp hn (by omega) (by omega) hapart
  refine ⟨by dsimp only; omega, by rw [stop]; dsimp only; omega, hrelink.1, fun a => ?_⟩
  rw [cover_perm (freeSpans_unlink hp), cover_perm hrelink.2, cover_cons, cover_cons]
  rcases hcut with ⟨hs, hc⟩ | ⟨hs, hc⟩
  · rw [hs, cover_cut, hc]
    omega
  · rw [hs, cover_cut, ← hc]
    omega

omit h

/-- **`findAndRemoveFreeSpace`** either finds no node that is large enough, or takes a span of the
size asked for. -/
theorem findAndRemoveFreeSpace_spec (g : Geometry) (h : m.WellFormed) {sizeInBytes : Nat}
    (hsize : 0 < sizeInBytes) :
    (m.findAndRemoveFreeSpace g sizeInBytes = (0, m) ∧ ∀ r ∈ m.freeSpans, r.size < sizeInBytes) ∨
    m.Takes ⟨(m.findAndRemoveFreeSpace g sizeInBytes).1, sizeInBytes⟩
      (m.findAndRemoveFreeSpace g sizeInBytes).2 := by
  unfold findAndRemoveFreeSpace
  cases hfind : findLeastGreaterThanOrEqual m.key sizeInBytes m.freeSpaceSizeMap with
  | none =>
    refine .inl ⟨rfl, fun r hr => ?_⟩
    obtain ⟨p, hp, rfl⟩ := mem_freeSpans.1 hr
    exact find_none h.indexed.sorted hfind p hp
  | some p =>
    right
    obtain ⟨hp, hfit, -⟩ := find_some h.indexed.sorted hfind
    have hb := h.bounded _ (mem_freeSpans.2 ⟨p, hp, rfl⟩)
    have hfit' : sizeInBytes ≤ (m.node p).sizeInBytes := hfit
    have hbound : (m.node p).start + (m.node p).sizeInBytes < 2 ^ 64 := hb.2
    have hstop : add 64 (m.node p).start (m.node p).sizeInBytes
        = (m.node p).start + (m.node p).sizeInBytes := add_of_lt hbound
    dsimp only
    by_cases hexact : (m.node p).sizeInBytes = sizeInBytes
    · subst hexact
      rw [if_pos rfl, hstop]
      exact takes_unlink h hp
    · have hadd : add 64 (m.node p).start sizeInBytes = (m.node p).start + sizeInBytes :=
        add_of_lt (by omega)
      have hsub : sub 64 (m.node p).sizeInBytes sizeInBytes
          = (m.node p).sizeInBytes - sizeInBytes := sub_of_le hfit' (by omega)
      rw [if_neg hexact, hstop, hadd, hsub]
      split
      · -- the left end goes; the node keeps its end address
        have htake := takes_part (s := (m.node p).start) (k := sizeInBytes)
          (n := ⟨(m.node p).start + sizeInBytes, (m.node p).sizeInBytes - sizeInBytes⟩) h hp
          (by dsimp only; omega)
          (.inl ⟨by rw [nodeSpan, Nat.add_sub_cancel' hfit'], rfl⟩)
        rw [link_unlink_of_stop_eq h.indexed hp _ rfl (by rw [stop, nodeSpan]; dsimp only; omega)]
          at htake
        exact htake
      · -- the right end goes; the node keeps its start address
        have hres : sub 64 ((m.node p).start + (m.node p).sizeInBytes) sizeInBytes
            = (m.node p).start + ((m.node p).sizeInBytes - sizeInBytes) := by
          rw [sub_of_le (by omega) hbound]
          omega
        have htake := takes_part
          (s := (m.node p).start + ((m.node p).sizeInBytes - sizeInBytes)) (k := sizeInBytes)
          (n := ⟨(m.node p).start, (m.node p).sizeInBytes - sizeInBytes⟩) h hp
          (by dsimp only; omega)
          (.inr ⟨by rw [nodeSpan, Nat.sub_add_cancel hfit'], rfl⟩)
        rw [link_unlink_of_start_eq h.indexed hp
          ⟨(m.node p).start, (m.node p).sizeInBytes - sizeInBytes⟩ rfl rfl rfl] at htake
        rw [hres]
        exact htake

/-! ## 6. Giving space back -/

/-- `m'` is `m` with the bytes of `r`, which were not free. -/
structure Gives (m : FreeSpaceIndex τ) (r : Span) (m' : FreeSpaceIndex τ) : Prop where
  wellFormed : m'.WellFormed
  cover_eq : ∀ a, cover m'.freeSpans a = cover m.freeSpans a + if a ∈ r then 1 else 0

include h in
/-- A fresh node changes neither the containers nor the nodes in them. -/
theorem WellFormed.allocated_succ :
    ({ m with nextNode := m.nextNode + 1 } : FreeSpaceIndex τ).WellFormed :=
  ⟨⟨h.indexed.nodup, h.indexed.sorted, h.indexed.starts, h.indexed.ends,
    fun p hp => Nat.lt_succ_of_lt (h.indexed.allocated p hp)⟩, h.nonempty, h.bounded, h.apart⟩

omit [SizeTree τ] in
theorem setNode_setNode (n' : FreeSpaceNode) : (m.setNode p n').setNode p n = m.setNode p n := by
  simp only [setNode]
  congr
  funext q
  split_ifs <;> rfl

/-- **Joining.**  The nodes `joined` were taken out of `m` and left `m₀`; a node that covers their
bytes and those of `r` is put in. -/
theorem gives_link {m₀ : FreeSpaceIndex τ} (joined : List Span) {r : Span} (h₀ : m₀.WellFormed)
    (hperm : m.freeSpans.Perm (joined ++ m₀.freeSpans)) (hp : p ∉ m₀.nodes)
    (hnext : p < m₀.nextNode)
    (hsize : 0 < n.sizeInBytes) (hlo : 0 < n.start) (hhi : n.start + n.sizeInBytes < 2 ^ 64)
    (hapart : ∀ q ∈ m₀.freeSpans, Span.Apart ⟨n.start, n.sizeInBytes⟩ q)
    (hcover : ∀ a, (if a ∈ (⟨n.start, n.sizeInBytes⟩ : Span) then 1 else 0)
      = cover joined a + if a ∈ r then 1 else 0) : m.Gives r (m₀.link p n) := by
  refine ⟨h₀.link hp hnext hsize hlo hhi hapart, fun a => ?_⟩
  rw [cover_perm (freeSpans_link h₀.indexed hp), cover_perm hperm, cover_cons, cover_append, hcover]
  omega

section AddFreeSpace

variable {start sizeInBytes : Nat} {left right : NodePtr}

include h

/-- The node that ends where a span starts. -/
theorem WellFormed.left_eq (hend : m.freeSpaceEndAddressMap.find start = some left) :
    left ∈ m.nodes ∧ (m.node left).start + (m.node left).sizeInBytes = start ∧
    0 < (m.node left).start := by
  obtain ⟨hl, hstop⟩ := (h.indexed.ends _ left).1 hend
  exact ⟨hl, hstop, (h.bounded _ (mem_freeSpans.2 ⟨left, hl, rfl⟩)).1⟩

/-- The node that starts where a span ends. -/
theorem WellFormed.right_eq {stop : Nat}
    (hstart : m.freeSpaceStartAddressMap.find stop = some right) :
    right ∈ m.nodes ∧ (m.node right).start = stop ∧
    (m.node right).start + (m.node right).sizeInBytes < 2 ^ 64 := by
  obtain ⟨hr, hspan⟩ := (h.indexed.starts _ right).1 hstart
  exact ⟨hr, hspan, (h.bounded _ (mem_freeSpans.2 ⟨right, hr, rfl⟩)).2⟩

omit h

/-! The four cases of `addFreeSpace`, as compositions of `unlink` and `link`. -/

theorem addFreeSpace_eq_new (hhi : start + sizeInBytes < 2 ^ 64)
    (hend : m.freeSpaceEndAddressMap.find start = none)
    (hstart : m.freeSpaceStartAddressMap.find (start + sizeInBytes) = none) :
    m.addFreeSpace start sizeInBytes =
      ({ m with nextNode := m.nextNode + 1 } : FreeSpaceIndex τ).link m.nextNode
        ⟨start, sizeInBytes⟩ := by
  simp only [addFreeSpace, add_of_lt hhi, hend, hstart, allocFreeSpaceNode, setNode_setNode]
  rfl

include h

theorem addFreeSpace_eq_left (hhi : start + sizeInBytes < 2 ^ 64)
    (hend : m.freeSpaceEndAddressMap.find start = some left)
    (hstart : m.freeSpaceStartAddressMap.find (start + sizeInBytes) = none) :
    m.addFreeSpace start sizeInBytes = (m.unlink left).link left
      ⟨(m.node left).start, (m.node left).sizeInBytes + sizeInBytes⟩ := by
  obtain ⟨hl, hspan, -⟩ := h.left_eq hend
  have hstop : add 64 (m.node left).start (m.node left).sizeInBytes = start := by
    rw [add_of_lt (by omega), hspan]
  have hsum : add 64 (m.node left).sizeInBytes sizeInBytes
      = (m.node left).sizeInBytes + sizeInBytes := add_of_lt (by omega)
  simp only [addFreeSpace, add_of_lt hhi, hend, hstart, hsum, hstop]
  refine (link_unlink_of_start_eq h.indexed hl _ ?_ hspan ?_).symm
  · rfl
  · dsimp only
    omega

theorem addFreeSpace_eq_right (hhi : start + sizeInBytes < 2 ^ 64)
    (hend : m.freeSpaceEndAddressMap.find start = none)
    (hstart : m.freeSpaceStartAddressMap.find (start + sizeInBytes) = some right) :
    m.addFreeSpace start sizeInBytes = (m.unlink right).link right
      ⟨start, (m.node right).sizeInBytes + sizeInBytes⟩ := by
  obtain ⟨hr, hspan, hb⟩ := h.right_eq hstart
  have hsum : add 64 (m.node right).sizeInBytes sizeInBytes
      = (m.node right).sizeInBytes + sizeInBytes := add_of_lt (by omega)
  simp only [addFreeSpace, add_of_lt hhi, hend, hstart, hsum]
  refine (link_unlink_of_stop_eq h.indexed hr _ hspan ?_).symm
  rw [stop, nodeSpan]
  dsimp only
  omega

theorem addFreeSpace_eq_both (hsize : 0 < sizeInBytes) (hhi : start + sizeInBytes < 2 ^ 64)
    (hend : m.freeSpaceEndAddressMap.find start = some left)
    (hstart : m.freeSpaceStartAddressMap.find (start + sizeInBytes) = some right) :
    m.addFreeSpace start sizeInBytes =
      ((m.unlink left).unlink right).link left ⟨(m.node left).start,
        (m.node left).sizeInBytes + (sizeInBytes + (m.node right).sizeInBytes)⟩ := by
  obtain ⟨hl, hlspan, -⟩ := h.left_eq hend
  obtain ⟨hr, hrspan, hb⟩ := h.right_eq hstart
  have hstop : add 64 (m.node left).start (m.node left).sizeInBytes = start := by
    rw [add_of_lt (by omega), hlspan]
  have hrstop : add 64 (start + sizeInBytes) (m.node right).sizeInBytes
      = start + sizeInBytes + (m.node right).sizeInBytes := add_of_lt (by omega)
  have hsum : add 64 sizeInBytes (m.node right).sizeInBytes
      = sizeInBytes + (m.node right).sizeInBytes := add_of_lt (by omega)
  have hsum' : add 64 (m.node left).sizeInBytes (sizeInBytes + (m.node right).sizeInBytes)
      = (m.node left).sizeInBytes + (sizeInBytes + (m.node right).sizeInBytes) :=
    add_of_lt (by omega)
  simp only [addFreeSpace, add_of_lt hhi, hend, hstart, hstop, hrstop, hsum, hsum']
  refine (link_unlink_unlink h.indexed hl _ ?_ ?_ hlspan hrspan ?_ ?_).symm
  · show (m.node left).start ≠ (m.node right).start
    omega
  · rfl
  · rw [stop, nodeSpan]
    dsimp only
    omega
  · dsimp only
    omega

omit h

variable (h : m.WellFormed) (hsize : 0 < sizeInBytes) (hhi : start + sizeInBytes < 2 ^ 64)
  (hside : ∀ r ∈ m.freeSpans, start + sizeInBytes ≤ r.start ∨ r.stop ≤ start)

include h hsize hhi hside

theorem gives_new (hlo : 0 < start) (hend : m.freeSpaceEndAddressMap.find start = none)
    (hstart : m.freeSpaceStartAddressMap.find (start + sizeInBytes) = none) :
    m.Gives ⟨start, sizeInBytes⟩ (m.addFreeSpace start sizeInBytes) := by
  have hnew : m.nextNode ∉ m.nodes := fun hm => Nat.lt_irrefl _ (h.indexed.allocated _ hm)
  rw [addFreeSpace_eq_new hhi hend hstart]
  refine gives_link [] h.allocated_succ (List.Perm.refl _) hnew (Nat.lt_succ_self _) hsize hlo hhi
    (fun q hq => ?_) (fun a => by rw [cover_nil, Nat.zero_add])
  have := hside q hq
  have := h.indexed.end_ne hend q hq
  have := h.indexed.start_ne hstart q hq
  unfold Span.Apart stop at *
  dsimp only
  omega

theorem gives_left (hend : m.freeSpaceEndAddressMap.find start = some left)
    (hstart : m.freeSpaceStartAddressMap.find (start + sizeInBytes) = none) :
    m.Gives ⟨start, sizeInBytes⟩ (m.addFreeSpace start sizeInBytes) := by
  obtain ⟨hl, hspan, hlpos⟩ := h.left_eq hend
  have hperm := freeSpans_unlink hl
  rw [addFreeSpace_eq_left h hhi hend hstart]
  refine gives_link [m.nodeSpan left] (h.unlink hl).1 hperm (not_mem_unlink h.indexed hl)
    (h.indexed.allocated _ hl) (by dsimp only; omega) hlpos (by dsimp only; omega)
    (fun q hq => ?_) (fun a => ?_)
  · have hqm := hperm.mem_iff.2 (mem_cons_of_mem _ hq)
    have := hside q hqm
    have := h.indexed.start_ne hstart q hqm
    have := (h.unlink hl).2 q hq
    unfold Span.Apart stop nodeSpan at *
    dsimp only at *
    omega
  · rw [cover_cons, cover_nil, cover_cut, hspan, Nat.zero_add, nodeSpan]

theorem gives_right (hlo : 0 < start) (hend : m.freeSpaceEndAddressMap.find start = none)
    (hstart : m.freeSpaceStartAddressMap.find (start + sizeInBytes) = some right) :
    m.Gives ⟨start, sizeInBytes⟩ (m.addFreeSpace start sizeInBytes) := by
  obtain ⟨hr, hspan, hbound⟩ := h.right_eq hstart
  have hperm := freeSpans_unlink hr
  rw [addFreeSpace_eq_right h hhi hend hstart]
  refine gives_link [m.nodeSpan right] (h.unlink hr).1 hperm (not_mem_unlink h.indexed hr)
    (h.indexed.allocated _ hr) (by dsimp only; omega) hlo (by dsimp only; omega)
    (fun q hq => ?_) (fun a => ?_)
  · have hqm := hperm.mem_iff.2 (mem_cons_of_mem _ hq)
    have := hside q hqm
    have := h.indexed.end_ne hend q hqm
    have := (h.unlink hr).2 q hq
    unfold Span.Apart stop nodeSpan at *
    dsimp only at *
    omega
  · rw [cover_cons, cover_nil, Nat.add_comm (m.node right).sizeInBytes, cover_cut, ← hspan,
      Nat.zero_add, Nat.add_comm, nodeSpan]

theorem gives_both (hend : m.freeSpaceEndAddressMap.find start = some left)
    (hstart : m.freeSpaceStartAddressMap.find (start + sizeInBytes) = some right) :
    m.Gives ⟨start, sizeInBytes⟩ (m.addFreeSpace start sizeInBytes) := by
  obtain ⟨hl, hlspan, hlpos⟩ := h.left_eq hend
  obtain ⟨hr, hrspan, hrbound⟩ := h.right_eq hstart
  -- the two neighbours are different nodes, as the new span lies between them
  have hr' : right ∈ (m.unlink left).nodes := by
    rw [nodes_unlink hl, h.indexed.nodup.mem_erase_iff]
    refine ⟨?_, hr⟩
    rintro rfl
    omega
  have hlperm := freeSpans_unlink hl
  have hrperm := freeSpans_unlink hr'
  rw [addFreeSpace_eq_both h hsize hhi hend hstart]
  refine gives_link [m.nodeSpan left, m.nodeSpan right] ((h.unlink hl).1.unlink hr').1
    (hlperm.trans (hrperm.cons _)) (fun hmem => ?_) (h.indexed.allocated _ hl)
    (by dsimp only; omega)
    hlpos (by dsimp only; omega)
    (fun q hq => ?_) (fun a => ?_)
  · rw [nodes_unlink hr'] at hmem
    exact not_mem_unlink h.indexed hl (mem_of_mem_erase hmem)
  · have hq' := hrperm.mem_iff.2 (mem_cons_of_mem _ hq)
    have hqm := hlperm.mem_iff.2 (mem_cons_of_mem _ hq')
    have := hside q hqm
    have := (h.unlink hl).2 q hq'
    have := ((h.unlink hl).1.unlink hr').2 q hq
    unfold Span.Apart stop at *
    simp only [nodeSpan_unlink] at *
    unfold nodeSpan at *
    dsimp only at *
    omega
  · simp only [cover_cons, cover_nil, cover_cut, hlspan, ← hrspan, nodeSpan]
    omega

omit hside in
/-- **`addFreeSpace`** makes a span free, whichever neighbours it is coalesced with. -/
theorem addFreeSpace_spec (hlo : 0 < start)
    (hfree : ∀ r ∈ m.freeSpans, Span.Disjoint ⟨start, sizeInBytes⟩ r) :
    m.Gives ⟨start, sizeInBytes⟩ (m.addFreeSpace start sizeInBytes) := by
  -- every free span lies before or behind the new one
  have hside : ∀ r ∈ m.freeSpans, start + sizeInBytes ≤ r.start ∨ r.stop ≤ start := fun r hr =>
    (hfree r hr).before hsize (h.nonempty r hr)
  cases hend : m.freeSpaceEndAddressMap.find start with
  | none =>
    cases hstart : m.freeSpaceStartAddressMap.find (start + sizeInBytes) with
    | none => exact gives_new h hsize hhi hside hlo hend hstart
    | some right => exact gives_right h hsize hhi hside hlo hend hstart
  | some left =>
    cases hstart : m.freeSpaceStartAddressMap.find (start + sizeInBytes) with
    | none => exact gives_left h hsize hhi hside hend hstart
    | some right => exact gives_both h hsize hhi hside hend hstart

end AddFreeSpace

end FreeSpaceIndex

end JavaScriptCore.WTF
