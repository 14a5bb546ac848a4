import Pdc.Proofs.QueryDeal
import Pdc.Proofs.StorageMessage

/-!
# The messages with the storage regions of an object

The first query for an object deals its storage regions out in blocks, one for each
server that gets some. A block is one message, or a copy in the cache if the server
that deals them out is itself in turn. Which server gets which block never goes
wrong. The bytes of a message do when a record makes the buffer grow, since the
sender keeps to the old one, and when a region has no path, since it is left out but
counted.
-/

namespace Pdc

open List Lib

/-! ## The buffers of several blocks -/

section

variable {ndim alloc : Nat} (h₁ : 1 ≤ ndim) (h₃ : ndim ≤ 3) {blocks : List (List StoredRegion)}
  (hdims : ∀ rs ∈ blocks, ∀ r ∈ rs, r.region.ndim = ndim)
include h₁ h₃ hdims

theorem fits_of_encodeBlocks {bufs : List Bytes}
    (hbufs : encodeBlocks movingRealloc alloc blocks = some bufs)
    (hread : List.Forall₂ (ReadAs ndim) bufs blocks) : ∀ rs ∈ blocks, BlockFits alloc rs := by
  induction blocks generalizing bufs with
  | nil => simp
  | cons rs blocks ih =>
    rw [forall_mem_cons] at hdims
    obtain ⟨buf, hbuf, hbufs⟩ := Option.bind_eq_some_iff.mp hbufs
    obtain ⟨rest, hrest, heq⟩ := Option.bind_eq_some_iff.mp hbufs
    obtain rfl := Option.some.inj heq
    obtain ⟨hfirst, hread⟩ := forall₂_cons.mp hread
    obtain ⟨hlen, hfits⟩ := fits_of_readAs h₁ h₃ hdims.1 hbuf hfirst
    rw [hlen] at hrest
    exact forall_mem_cons.mpr ⟨hfits, ih hdims.2 hrest hread⟩

theorem encodeBlocks_of_fits (re : Realloc) (h : ∀ rs ∈ blocks, BlockFits alloc rs) :
    ∃ bufs, encodeBlocks re alloc blocks = some bufs ∧
      List.Forall₂ (ReadAs ndim) bufs blocks := by
  induction blocks with
  | nil => exact ⟨[], rfl, .nil⟩
  | cons rs blocks ih =>
    rw [forall_mem_cons] at hdims h
    obtain ⟨buf, hbuf, hlen, hread⟩ := readAs_of_fits h₁ h₃ hdims.1 re h.1
    obtain ⟨bufs, hbufs, hreads⟩ := ih hdims.2 h.2
    refine ⟨buf.cells.take buf.next :: bufs, ?_, .cons hread hreads⟩
    rw [encodeBlocks, hbuf, Option.bind_eq_bind, Option.bind_some, hlen, hbufs]
    rfl

end

/-! ## Who gets the regions -/

/-- The pieces are what the servers get: each in the only message to its server or, at the
sender, in its cache. The messages are received as their pieces whatever `realloc` does. -/
structure DealtOut (C : Cluster StoredRegion) (ndim rank manager : Nat) (objId : UInt64)
    (st st' : SpreadState StoredRegion) (pieces : List (Piece StoredRegion)) : Prop where
  regions : pieces.flatMap Piece.regions = C.regions objId
  targets : (pieces.map Piece.target).Nodup
  piece : ∀ p ∈ pieces, p.target ≠ manager ∧ p.target < C.size ∧ p.regions ≠ []
  nSentServer : st'.nSentServer = pieces.length
  cache : st'.cache objId =
    ((pieces.filter fun p => p.target = rank).flatMap Piece.regions).reverse ++ st.cache objId
  sent : st'.sent = st.sent ++ (pieces.filter fun p => p.target ≠ rank).map (Piece.toBulk rank)
  received : ∀ re, ∃ bufs, bulkBuffers re (C.avgCount st.nSentServer objId)
      ((pieces.filter fun p => p.target ≠ rank).map Piece.regions) = some bufs ∧
    List.Forall₂ (ReadAs ndim) bufs ((pieces.filter fun p => p.target ≠ rank).map Piece.regions)

def DistributesAll (C : Cluster StoredRegion) (ndim rank manager capacity : Nat)
    (st : SpreadState StoredRegion) (objId : UInt64) : Prop :=
  ∃ st' pieces, distributeQueryStorageInfo C rank manager capacity st objId = some st' ∧
    DealtOut C ndim rank manager objId st st' pieces

/-- The size of the buffers is an `int`, and the blocks for the other servers fit. -/
def BlocksFit (C : Cluster StoredRegion) (rank manager n : Nat) (objId : UInt64) : Prop :=
  4096 * C.avgCount n objId < 2 ^ 31 ∧ ∀ p ∈ C.objectPieces manager n objId, p.target ≠ rank →
    BlockFits (4096 * C.avgCount n objId) p.regions

theorem toBulk_injective {ρ : Type} (rank : Nat) :
    Function.Injective (Piece.toBulk rank : Piece ρ → MetaBulk ρ) := by
  rintro ⟨objId, target, regions⟩ ⟨objId', target', regions'⟩ h
  obtain ⟨-, rfl, rfl, -, rfl⟩ := MetaBulk.mk.inj h
  rfl

section

variable {C : Cluster StoredRegion} {ndim rank manager capacity : Nat}
  {st : SpreadState StoredRegion} {objId : UInt64} (h₁ : 1 ≤ ndim) (h₃ : ndim ≤ 3)
  (hdims : ∀ r ∈ C.regions objId, r.region.ndim = ndim)

include hdims in
theorem ndim_of_mem_pieces : ∀ rs ∈ ((C.objectPieces manager st.nSentServer objId).filter
    fun p => p.target ≠ rank).map Piece.regions, ∀ r ∈ rs, r.region.ndim = ndim := by
  rw [forall_mem_map]
  intro p hp r hr
  refine hdims r ?_
  rw [← C.flatMap_objectPieces manager st.nSentServer objId]
  exact mem_flatMap.mpr ⟨p, mem_of_mem_filter hp, hr⟩

variable (hhome : C.home objId = rank) (hnew : objId ∉ st.objIds)
  (hfirst : st.distributed objId = false) (hcap : st.objIds.length < capacity)
  (hn : st.nSentServer < C.size)
include h₁ h₃ hdims hhome hnew hfirst hcap hn

theorem blocksFit_of_distributesAll (h : DistributesAll C ndim rank manager capacity st objId) :
    BlocksFit C rank manager st.nSentServer objId := by
  obtain ⟨st', hst', hspread⟩ := distributeQueryStorageInfo_new manager hn hnew hhome hcap
  obtain ⟨st'', pieces, hst'', hdealt⟩ := h
  obtain rfl := Option.some.inj (hst'.symm.trans hst'')
  -- The messages are those of the blocks.
  have hsame : pieces.filter (fun p => p.target ≠ rank) =
      (C.objectPieces manager st.nSentServer objId).filter fun p => p.target ≠ rank := by
    have heq := append_cancel_left (hdealt.sent.symm.trans hspread.sent)
    simp only [Cluster.pieces, hfirst, Bool.false_eq_true, if_false, append_nil] at heq
    exact (toBulk_injective rank).list_map heq
  obtain ⟨bufs, hbufs, hread⟩ := hdealt.received movingRealloc
  rw [hsame] at hbufs hread
  rw [bulkBuffers] at hbufs
  split at hbufs
  · next hint =>
    have hfits := fits_of_encodeBlocks h₁ h₃ (ndim_of_mem_pieces hdims) hbufs hread
    refine ⟨hint, fun p hp hne => hfits _ (mem_map_of_mem ?_)⟩
    exact mem_filter.mpr ⟨hp, decide_eq_true hne⟩
  · cases hbufs

/-- The regions of an object that is met for the first time are all distributed just if
the buffers have room for the blocks they are for. -/
theorem distributesAll_iff : DistributesAll C ndim rank manager capacity st objId ↔
    BlocksFit C rank manager st.nSentServer objId := by
  refine ⟨blocksFit_of_distributesAll h₁ h₃ hdims hhome hnew hfirst hcap hn,
    fun ⟨hint, hfits⟩ => ?_⟩
  obtain ⟨st', hst', hspread⟩ := distributeQueryStorageInfo_new manager hn hnew hhome hcap
  have hpieces : C.pieces manager st.distributed st.nSentServer [objId] =
      C.objectPieces manager st.nSentServer objId := by
    simp [Cluster.pieces, hfirst]
  have hsent := hspread.sent
  have hcache := hspread.cache objId
  rw [hpieces] at hsent hcache
  have hself : ∀ p ∈ C.objectPieces manager st.nSentServer objId,
      decide (p.target = rank ∧ p.objId = objId) = decide (p.target = rank) :=
    fun p hp => by simp [Cluster.objId_of_mem hp]
  rw [filter_congr hself] at hcache
  refine ⟨st', C.objectPieces manager st.nSentServer objId, hst', C.flatMap_objectPieces _ _ _,
    C.nodup_objectPieces _ _ _, fun p hp => ?_, ?_, hcache, hsent, fun re => ?_⟩
  · obtain ⟨i, hi, rfl⟩ := Cluster.mem_objectPieces.mp hp
    have hlt := C.receivers_lt hn objId
    exact ⟨skipping_ne _ _, skipping_lt (by omega), block_ne_nil (C.avgCount_pos _ _) hi⟩
  · rw [hspread.nSent]
    simp [Cluster.sentAfter, Cluster.nextSent, hfirst, Cluster.objectPieces]
  · rw [bulkBuffers, if_pos hint]
    refine encodeBlocks_of_fits h₁ h₃ (ndim_of_mem_pieces hdims) re ?_
    rw [forall_mem_map]
    intro p hp
    rw [mem_filter, decide_eq_true_eq] at hp
    exact hfits p hp.1 hp.2

end

/-- Servers where every object has these regions. -/
def sameRegions (size : Nat) (rs : List StoredRegion) (hsize : 2 ≤ size) (hrs : rs ≠ []) :
    Cluster StoredRegion := ⟨size, hsize, fun _ => rs, fun _ => hrs, fun _ => 0⟩

/-- Nothing has been distributed. -/
def nothingSpread : SpreadState StoredRegion where
  nSentServer := 0
  distributed := fun _ => false
  cache := fun _ => []
  attached := fun _ => false

/-- One region goes to server 0, and one stays on server 1. -/
theorem distributesAll_two_regions :
    DistributesAll (sameRegions 3 [eightBytes, eightBytes] (by decide) (by simp)) 1 1 2 1
      nothingSpread 2000000000 := by
  refine (distributesAll_iff (by decide) (by decide) (by simp [sameRegions, eightBytes])
    (by decide) (by simp [nothingSpread]) rfl (by decide) (by decide)).mpr
    ⟨by decide, fun p hp hne => ?_⟩
  rcases mem_cons.mp hp with rfl | hp
  · exact ⟨⟨by decide, by decide +kernel⟩, trivial⟩
  · exact absurd (mem_singleton.mp hp ▸ rfl) hne

theorem avgCount_sameRegions {rs : List StoredRegion} (hrs : rs ≠ []) (objId : UInt64) :
    Cluster.avgCount (sameRegions 2 rs (by decide) hrs) 0 objId = rs.length := by
  have hpos := length_pos_of_ne_nil hrs
  have hamong : Cluster.among (sameRegions 2 rs (by decide) hrs) 0 objId = 1 := by
    show (if 2 ≤ rs.length then 1 else rs.length) = 1
    split
    · rfl
    · omega
  rw [Cluster.avgCount, hamong]
  exact ceilDiv_one _

/-- As many regions as make the product of `int`s overflow. -/
def manyRegions : List StoredRegion :=
  replicate 524288 { eightBytes with hist := none, hist_wf := nofun }

theorem length_manyRegions : manyRegions.length = 524288 := length_replicate

theorem manyRegions_ne_nil : manyRegions ≠ [] :=
  ne_nil_of_length_pos (length_manyRegions ▸ by decide)

/-- They are all for server 1, and the size of the buffer for them is `2 ^ 31`. -/
theorem not_distributesAll_manyRegions :
    Cluster.home (sameRegions 2 manyRegions (by decide) manyRegions_ne_nil) 1000000000 = 0 ∧
      ¬ DistributesAll (sameRegions 2 manyRegions (by decide) manyRegions_ne_nil) 1 0 0 1
        nothingSpread 1000000000 := by
  have hhome : Cluster.home (sameRegions 2 manyRegions (by decide) manyRegions_ne_nil)
      1000000000 = 0 := by decide
  have hdims : ∀ r ∈ manyRegions, r.region.ndim = 1 := by
    intro r hr
    rw [eq_of_mem_replicate hr]
    rfl
  refine ⟨hhome, fun h => ?_⟩
  obtain ⟨hint, -⟩ := blocksFit_of_distributesAll (le_refl 1) (by decide) hdims hhome
    (by simp [nothingSpread]) rfl Nat.zero_lt_one (Nat.zero_lt_succ 1) h
  rw [show nothingSpread.nSentServer = 0 from rfl, avgCount_sameRegions, length_manyRegions] at hint
  exact absurd hint (by decide)

end Pdc
