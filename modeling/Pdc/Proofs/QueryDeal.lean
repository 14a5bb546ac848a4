import Pdc.Server.QueryDistribute
import Pdc.Lib.Deal
import Pdc.Proofs.QueryXfer

/-!
# What a server sends out for its objects

`deal_spec` says what the loop over the storage regions of an object does: it
deals them out in blocks to the servers from 0 on, without the manager, keeps a
block of its own, and puts the right number of regions into each message. Each
object starts from the number of servers the one before has led to, or from all
servers but the manager. `Cluster.pieces` lists the blocks for all objects of a
server, and `distributeQueryWorkload_eq` says that the server sends these.
-/

namespace Pdc

open List Lib

variable {ρ : Type} {C : Cluster ρ} {size rank manager count avg k n i : Nat} {objId o : UInt64}
  {st : DealState ρ} {place : Nat} {os : List UInt64} {d : UInt64 → Bool}

/-! ## The loop over the regions -/

def placeOf (size manager serverId : Nat) : Nat :=
  if serverId = manager then (serverId + 1) % size else serverId

/-- The object of the last region of a block, whose leaves get the region attached if
the server keeps the block. -/
def Cluster.lastObjId (C : Cluster ρ) (bl : List ρ) : Option UInt64 :=
  bl.getLast?.map C.regionObjId

theorem deal_block (C : Cluster ρ) (rank k : Nat) (objId : UInt64) (hne : place ≠ manager)
    {bl : List ρ} (hbl : bl ≠ []) (hplace : placeOf C.size manager st.serverId = place)
    (hend : st.nsentServer + bl.length = avg ∨ st.nsent + bl.length = count)
    (hlen : st.nsentServer + bl.length ≤ avg) (hcount : st.nsent + bl.length ≤ count)
    (hbuf : place = rank → st.buf = []) :
    bl.foldl (dealStep C rank manager objId count avg k) st =
      { serverId := (place + 1) % C.size
        nsent := st.nsent + bl.length
        nsentServer := 0
        buf := []
        cached := if place = rank then bl.reverse ++ st.cached else st.cached
        attached := fun o => st.attached o || decide (place = rank ∧ C.lastObjId bl = some o)
        sent := if place = rank then st.sent
          else st.sent ++ [⟨rank, place, objId,
            if st.nsent + bl.length = count then count - avg * (k - 1) else avg,
            st.buf ++ bl⟩] } := by
  induction bl generalizing st with
  | nil => exact absurd rfl hbl
  | cons y ys ih =>
    rw [length_cons] at hlen hcount hend
    cases ys with
    | nil =>
      have hlast : avg ≤ st.nsentServer + 1 ∨ st.nsent + 1 = count := by
        rw [length_nil] at hend
        omega
      unfold placeOf at hplace
      by_cases hrank : place = rank
      · have hattached : Function.update st.attached (C.regionObjId y) true =
            fun o => st.attached o || decide (C.regionObjId y = o) := by
          funext o
          by_cases ho : o = C.regionObjId y
          · simp [ho]
          · simp [ho, Ne.symm ho]
        simp [dealStep, hplace, hlast, hrank, hbuf hrank, Cluster.lastObjId, hattached]
      · simp [dealStep, hplace, hlast, hrank]
    | cons z zs =>
      rw [length_cons] at hlen hcount hend
      have hopen : ¬ (avg ≤ st.nsentServer + 1 ∨ st.nsent + 1 = count) := by omega
      have hstep : dealStep C rank manager objId count avg k st y =
          { st with
            serverId := place
            cached := if place = rank then y :: st.cached else st.cached
            buf := if place = rank then st.buf else st.buf ++ [y]
            nsent := st.nsent + 1
            nsentServer := st.nsentServer + 1 } := by
        unfold placeOf at hplace
        simp only [dealStep, hplace, if_neg hopen]
      rw [foldl_cons, hstep, ih (cons_ne_nil z zs)]
      · by_cases hrank : place = rank
        · simp [hrank, Nat.add_assoc, Nat.add_comm 1, Cluster.lastObjId]
        · simp [hrank, Nat.add_assoc, Nat.add_comm 1]
      · exact if_neg hne
      all_goals simp only [length_cons]
      · omega
      · omega
      · omega
      · intro hrank
        rw [if_pos hrank, hbuf hrank]

/-! ## The pieces of one object -/

/-- Storage regions of an object that go to one server. -/
structure Piece (ρ : Type) where
  objId : UInt64
  target : Nat
  regions : List ρ
  deriving DecidableEq

/-- The number of servers an object's regions are divided among, after an object that
has led to `n`. -/
def Cluster.among (C : Cluster ρ) (n : Nat) (objId : UInt64) : Nat :=
  if n = 0 then if C.size ≤ (C.regions objId).length then C.size - 1 else (C.regions objId).length
  else n

/-- The most regions a server gets. -/
def Cluster.avgCount (C : Cluster ρ) (n : Nat) (objId : UInt64) : Nat :=
  (C.regions objId).length ⌈/⌉ C.among n objId

/-- The number of servers that get some. -/
def Cluster.receivers (C : Cluster ρ) (n : Nat) (objId : UInt64) : Nat :=
  (C.regions objId).length ⌈/⌉ C.avgCount n objId

def Cluster.objectPieces (C : Cluster ρ) (manager n : Nat) (objId : UInt64) : List (Piece ρ) :=
  (List.range (C.receivers n objId)).map fun i =>
    ⟨objId, skipping manager i, block (C.avgCount n objId) (C.regions objId) i⟩

def Piece.toBulk (rank : Nat) (p : Piece ρ) : MetaBulk ρ :=
  ⟨rank, p.target, p.objId, p.regions.length, p.regions⟩

section

variable (C : Cluster ρ)

theorem Cluster.length_regions_pos (objId : UInt64) :
    0 < (C.regions objId).length := length_pos_iff.mpr (C.regions_ne_nil objId)

theorem Cluster.among_pos (n : Nat) (objId : UInt64) : 0 < C.among n objId := by
  have hsize := C.two_le_size
  have hpos := C.length_regions_pos objId
  unfold Cluster.among
  split
  · split <;> omega
  · omega

theorem Cluster.among_lt (hn : n < C.size) (objId : UInt64) :
    C.among n objId < C.size := by
  unfold Cluster.among
  split
  · split <;> omega
  · exact hn

theorem Cluster.avgCount_pos (n : Nat) (objId : UInt64) : 0 < C.avgCount n objId :=
  ceilDiv_pos (C.length_regions_pos objId) (C.among_pos n objId)

theorem Cluster.receivers_pos (n : Nat) (objId : UInt64) : 0 < C.receivers n objId :=
  ceilDiv_pos (C.length_regions_pos objId) (C.avgCount_pos n objId)

theorem Cluster.receivers_le (n : Nat) (objId : UInt64) : C.receivers n objId ≤ C.among n objId :=
  ceilDiv_ceilDiv_le (C.length_regions_pos objId) (C.among_pos n objId)

theorem Cluster.receivers_lt (hn : n < C.size) (objId : UInt64) :
    C.receivers n objId < C.size :=
  (C.receivers_le n objId).trans_lt (C.among_lt hn objId)

theorem Cluster.flatMap_objectPieces (manager n : Nat) (objId : UInt64) :
    (C.objectPieces manager n objId).flatMap Piece.regions = C.regions objId := by
  have hblocks := flatten_blocks (C.avgCount_pos n objId) (C.regions objId)
  rw [Cluster.objectPieces, flatMap_map]
  exact hblocks

end

theorem Cluster.mem_objectPieces {p : Piece ρ} :
    p ∈ C.objectPieces manager n objId ↔ ∃ i < C.receivers n objId,
      p = ⟨objId, skipping manager i, block (C.avgCount n objId) (C.regions objId) i⟩ := by
  simp [Cluster.objectPieces, eq_comm]

theorem Cluster.objId_of_mem {p : Piece ρ} (h : p ∈ C.objectPieces manager n objId) :
    p.objId = objId := by
  obtain ⟨i, -, rfl⟩ := Cluster.mem_objectPieces.mp h
  rfl

theorem Cluster.nodup_objectPieces (C : Cluster ρ) (manager n : Nat) (objId : UInt64) :
    ((C.objectPieces manager n objId).map Piece.target).Nodup := by
  rw [Cluster.objectPieces, map_map]
  exact nodup_range.map (skipping_injective manager)

/-- What the loop leaves in its variables after the first `i` blocks. -/
structure Dealt (C : Cluster ρ) (rank manager n : Nat) (objId : UInt64) (cached : List ρ)
    (attached : UInt64 → Bool) (i : Nat) (st : DealState ρ) : Prop where
  place : i < C.receivers n objId → placeOf C.size manager st.serverId = skipping manager i
  nsent : st.nsent = min (C.avgCount n objId * i) (C.regions objId).length
  nsentServer : st.nsentServer = 0
  buf : st.buf = []
  cached : st.cached =
    ((((C.objectPieces manager n objId).take i).filter fun p => p.target = rank).flatMap
      Piece.regions).reverse ++ cached
  attached : ∀ o, st.attached o = (attached o || ((C.objectPieces manager n objId).take i).any
    fun p => p.target = rank ∧ C.lastObjId p.regions = some o)
  sent : st.sent =
    (((C.objectPieces manager n objId).take i).filter fun p => p.target ≠ rank).map
      (Piece.toBulk rank)

theorem Cluster.take_objectPieces_succ (manager : Nat) (hi : i < C.receivers n objId) :
    (C.objectPieces manager n objId).take (i + 1) = (C.objectPieces manager n objId).take i ++
        [⟨objId, skipping manager i, block (C.avgCount n objId) (C.regions objId) i⟩] := by
  rw [take_add_one]
  simp [Cluster.objectPieces, hi]

theorem Dealt.block {cached : List ρ} {attached : UInt64 → Bool} (hn : n < C.size)
    (hi : i < C.receivers n objId) (h : Dealt C rank manager n objId cached attached i st) :
    Dealt C rank manager n objId cached attached (i + 1)
      ((Lib.block (C.avgCount n objId) (C.regions objId) i).foldl
        (dealStep C rank manager objId (C.regions objId).length (C.avgCount n objId)
          (C.receivers n objId)) st) := by
  have havg := C.avgCount_pos n objId
  have hstart := mul_lt_of_lt_ceilDiv havg hi
  have hlen := length_block (C.avgCount n objId) (C.regions objId) i
  have hnsent : st.nsent = C.avgCount n objId * i := by rw [h.nsent]; omega
  have hend : st.nsentServer + (Lib.block (C.avgCount n objId) (C.regions objId) i).length =
        C.avgCount n objId ∨
      st.nsent + (Lib.block (C.avgCount n objId) (C.regions objId) i).length =
        (C.regions objId).length := by
    rw [h.nsentServer]
    omega
  -- The number in the message is the length of the block, also for the last one.
  have hcnt : (if st.nsent + (Lib.block (C.avgCount n objId) (C.regions objId) i).length =
        (C.regions objId).length
      then (C.regions objId).length - C.avgCount n objId * (C.receivers n objId - 1)
      else C.avgCount n objId) =
        (Lib.block (C.avgCount n objId) (C.regions objId) i).length := by
    rcases Nat.lt_or_ge (i + 1) (C.receivers n objId) with hlt | hge
    · have hnext := mul_lt_of_lt_ceilDiv havg hlt
      have hfull := length_block_of_succ_lt havg hlt
      rw [Nat.mul_add] at hnext
      rw [if_neg (by rw [hnsent, hfull]; omega), hfull]
    · have hlast : i + 1 = C.receivers n objId := by omega
      have hrest := length_block_last havg hlast
      rw [if_pos (by rw [hnsent, hrest]; omega), hrest, ← hlast, Nat.add_sub_cancel]
  have hblock := deal_block C rank (C.receivers n objId) objId (skipping_ne manager i)
    (block_ne_nil havg hi) (h.place hi) hend (by rw [h.nsentServer, hlen]; omega)
    (by rw [hnsent, hlen]; omega) fun _ => h.buf
  rw [hcnt, h.buf] at hblock
  rw [hblock]
  have htake := Cluster.take_objectPieces_succ manager hi
  refine ⟨fun hnext => ?_, ?_, rfl, rfl, ?_, fun o => ?_, ?_⟩
  · have hlt : skipping manager (i + 1) < C.size :=
      skipping_lt (by have := C.receivers_lt hn objId; omega)
    have hsucc := skipping_succ manager i
    show (if (skipping manager i + 1) % C.size = manager
      then ((skipping manager i + 1) % C.size + 1) % C.size
      else (skipping manager i + 1) % C.size) = _
    split at hsucc
    · next heq =>
      rw [Nat.mod_eq_of_lt (by omega), if_pos heq, Nat.mod_eq_of_lt (by omega), hsucc]
    · next hne =>
      rw [Nat.mod_eq_of_lt (by omega), if_neg hne, hsucc]
  · show st.nsent + _ = _
    rw [Nat.mul_add]
    omega
  · rw [htake]
    by_cases hrank : skipping manager i = rank
    · simp [hrank, h.cached]
    · simp [hrank, h.cached]
  · rw [htake, any_append, ← Bool.or_assoc, ← h.attached o]
    simp
  · rw [htake]
    by_cases hrank : skipping manager i = rank
    · simp [hrank, h.sent]
    · simp [hrank, h.sent, Piece.toBulk]

theorem deal_spec (C : Cluster ρ) (rank manager : Nat) (objId : UInt64)
    (hn : n < C.size) (cached : List ρ) (attached : UInt64 → Bool) :
    Dealt C rank manager n objId cached attached (C.receivers n objId)
      ((C.regions objId).foldl (dealStep C rank manager objId (C.regions objId).length
        (C.avgCount n objId) (C.receivers n objId))
        { cached := cached, attached := attached }) := by
  rw [foldl_eq_foldl_blocks (C.avgCount_pos n objId)]
  refine foldl_range_induction
    (fun i st hi h => h.block hn hi) ⟨fun _ => ?_, by simp, rfl, rfl, by simp, by simp, by simp⟩
  have hsize := C.two_le_size
  unfold placeOf skipping
  show (if 0 = manager then (0 + 1) % C.size else 0) = _
  split
  · next h => rw [if_neg (by omega), Nat.mod_eq_of_lt (by omega)]
  · rw [if_pos (by omega)]

/-! ## The pieces of all objects of a server -/

/-- The number of servers after an object, where `d` says what has been distributed. -/
def Cluster.nextSent (C : Cluster ρ) (d : UInt64 → Bool) (n : Nat) (objId : UInt64) : Nat :=
  if d objId then C.among n objId else C.receivers n objId

def Cluster.sentAfter (C : Cluster ρ) (d : UInt64 → Bool) (n : Nat) (os : List UInt64) : Nat :=
  os.foldl (C.nextSent d) n

def Cluster.pieces (C : Cluster ρ) (manager : Nat) (d : UInt64 → Bool) :
    Nat → List UInt64 → List (Piece ρ)
  | _, [] => []
  | n, o :: os =>
    (if d o then [] else C.objectPieces manager n o) ++ C.pieces manager d (C.nextSent d n o) os

section

variable (C : Cluster ρ) (d : UInt64 → Bool)

theorem Cluster.nextSent_pos (n : Nat) (o : UInt64) : 0 < C.nextSent d n o := by
  unfold Cluster.nextSent
  split
  · exact C.among_pos n o
  · exact C.receivers_pos n o

theorem Cluster.nextSent_lt (hn : n < C.size) (o : UInt64) : C.nextSent d n o < C.size := by
  unfold Cluster.nextSent
  split
  · exact C.among_lt hn o
  · exact C.receivers_lt hn o

theorem Cluster.sentAfter_lt (hn : n < C.size)
    (os : List UInt64) : C.sentAfter d n os < C.size := by
  induction os generalizing n with
  | nil => exact hn
  | cons o os ih => exact ih (C.nextSent_lt d hn o)

theorem Cluster.sentAfter_pos (n : Nat) (hos : os ≠ []) : 0 < C.sentAfter d n os := by
  rw [← dropLast_append_getLast hos, Cluster.sentAfter, foldl_append]
  exact C.nextSent_pos d _ _

end

theorem Cluster.pieces_append (C : Cluster ρ) (manager : Nat) (d : UInt64 → Bool) (n : Nat)
    (os os' : List UInt64) :
    C.pieces manager d n (os ++ os') =
      C.pieces manager d n os ++ C.pieces manager d (C.sentAfter d n os) os' := by
  induction os generalizing n with
  | nil => rfl
  | cons o os ih =>
    rw [cons_append, Cluster.pieces, Cluster.pieces, ih, append_assoc]
    rfl

theorem Cluster.nextSent_congr {d' : UInt64 → Bool} (h : d o = d' o) (n : Nat) :
    C.nextSent d n o = C.nextSent d' n o := by
  rw [Cluster.nextSent, Cluster.nextSent, h]

section

variable {d d' : UInt64 → Bool} {os : List UInt64} (h : ∀ o ∈ os, d o = d' o)
include h

theorem Cluster.sentAfter_congr (n : Nat) : C.sentAfter d n os = C.sentAfter d' n os := by
  induction os generalizing n with
  | nil => rfl
  | cons o os ih =>
    rw [forall_mem_cons] at h
    show C.sentAfter d (C.nextSent d n o) os = C.sentAfter d' (C.nextSent d' n o) os
    rw [Cluster.nextSent_congr h.1, ih h.2]

theorem Cluster.pieces_congr (manager n : Nat) :
    C.pieces manager d n os = C.pieces manager d' n os := by
  induction os generalizing n with
  | nil => rfl
  | cons o os ih =>
    rw [forall_mem_cons] at h
    rw [Cluster.pieces, Cluster.pieces, h.1, Cluster.nextSent_congr h.1, ih h.2]

end

theorem Cluster.mem_pieces {p : Piece ρ} (h : p ∈ C.pieces manager d n os) (hn : n < C.size) :
    p.objId ∈ os ∧ d p.objId = false ∧ ∃ n' < C.size, p ∈ C.objectPieces manager n' p.objId := by
  induction os generalizing n with
  | nil => exact absurd h not_mem_nil
  | cons o os ih =>
    rw [Cluster.pieces, mem_append] at h
    rcases h with h | h
    · split at h
      · simp at h
      · next hd =>
        obtain rfl := Cluster.objId_of_mem h
        exact ⟨mem_cons_self, Bool.eq_false_iff.mpr hd, n, hn, h⟩
    · obtain ⟨hos, hrest⟩ := ih h (C.nextSent_lt d hn o)
      exact ⟨mem_cons_of_mem o hos, hrest⟩

theorem Cluster.filter_pieces (hnodup : os.Nodup)
    (ho : o ∈ os) (hd : d o = false) (manager : Nat) (hn : n < C.size) :
    ∃ n' < C.size, (C.pieces manager d n os).filter (fun p => p.objId = o) =
      C.objectPieces manager n' o := by
  have hall : ∀ n, (C.objectPieces manager n o).filter (fun p => p.objId = o) =
      C.objectPieces manager n o := by
    intro n
    rw [filter_eq_self]
    exact fun p hp => decide_eq_true (Cluster.objId_of_mem hp)
  have hother : ∀ (o' : UInt64) (n : Nat), o' ≠ o →
      (C.objectPieces manager n o').filter (fun p => p.objId = o) = [] := by
    intro o' n hne
    rw [filter_eq_nil_iff]
    intro p hp
    simpa [Cluster.objId_of_mem hp] using hne
  have hnone : ∀ (os : List UInt64) (n : Nat), o ∉ os → n < C.size →
      (C.pieces manager d n os).filter (fun p => p.objId = o) = [] := by
    intro os n hnot hn
    rw [filter_eq_nil_iff]
    intro p hp heq
    exact hnot (of_decide_eq_true heq ▸ (Cluster.mem_pieces hp hn).1)
  induction os generalizing n with
  | nil => simp at ho
  | cons a os ih =>
    rw [nodup_cons] at hnodup
    rw [Cluster.pieces, filter_append]
    rcases mem_cons.mp ho with rfl | hmem
    · refine ⟨n, hn, ?_⟩
      rw [if_neg (by rw [hd]; exact Bool.false_ne_true), hall,
        hnone os _ hnodup.1 (C.nextSent_lt d hn o), append_nil]
    · have hne : a ≠ o := fun heq => hnodup.1 (heq ▸ hmem)
      obtain ⟨n', hn', hrest⟩ := ih hnodup.2 hmem (C.nextSent_lt d hn a)
      refine ⟨n', hn', ?_⟩
      rw [hrest]
      split
      · rfl
      · rw [hother a n hne, nil_append]

/-! ## The walk over the query -/

/-- What a server has done for the objects `os`. -/
structure Spread (C : Cluster ρ) (rank manager : Nat) (st : SpreadState ρ) (os : List UInt64)
    (st' : SpreadState ρ) : Prop where
  nSent : st'.nSentServer = C.sentAfter st.distributed st.nSentServer os
  objIds : st'.objIds = st.objIds ++ os
  distributed : ∀ o, st'.distributed o = (st.distributed o || decide (o ∈ os))
  cache : ∀ o, st'.cache o =
    (((C.pieces manager st.distributed st.nSentServer os).filter
      fun p => p.target = rank ∧ p.objId = o).flatMap Piece.regions).reverse ++ st.cache o
  attached : ∀ o, st'.attached o = (st.attached o ||
    (C.pieces manager st.distributed st.nSentServer os).any
      fun p => p.target = rank ∧ C.lastObjId p.regions = some o)
  sent : st'.sent = st.sent ++
    ((C.pieces manager st.distributed st.nSentServer os).filter fun p => p.target ≠ rank).map
      (Piece.toBulk rank)

theorem Spread.refl (C : Cluster ρ) (rank manager : Nat) (st : SpreadState ρ) :
    Spread C rank manager st [] st :=
  ⟨rfl, by simp, by simp, by simp [Cluster.pieces], by simp [Cluster.pieces],
    by simp [Cluster.pieces]⟩

theorem Spread.trans {st st₁ st₂ : SpreadState ρ} {os' : List UInt64}
    (h : Spread C rank manager st os st₁) (h' : Spread C rank manager st₁ os' st₂)
    (hdisj : ∀ o ∈ os', o ∉ os) : Spread C rank manager st (os ++ os') st₂ := by
  -- The objects of the second part have the flags they had at first.
  have hflags : ∀ o ∈ os', st₁.distributed o = st.distributed o := by
    intro o ho
    rw [h.distributed, decide_eq_false (hdisj o ho), Bool.or_false]
  have hpieces : C.pieces manager st₁.distributed st₁.nSentServer os' =
      C.pieces manager st.distributed (C.sentAfter st.distributed st.nSentServer os) os' := by
    rw [Cluster.pieces_congr hflags, h.nSent]
  refine ⟨?_, ?_, fun o => ?_, fun o => ?_, fun o => ?_, ?_⟩
  · rw [h'.nSent, Cluster.sentAfter_congr hflags, h.nSent]
    exact foldl_append.symm
  · rw [h'.objIds, h.objIds, append_assoc]
  · rw [h'.distributed, h.distributed, Bool.or_assoc]
    simp [mem_append]
  · rw [h'.cache, h.cache, hpieces, Cluster.pieces_append, filter_append,
      flatMap_append, reverse_append, append_assoc]
  · rw [h'.attached, h.attached, hpieces, Cluster.pieces_append, any_append, Bool.or_assoc]
  · rw [h'.sent, h.sent, hpieces, Cluster.pieces_append, filter_append, map_append, append_assoc]

theorem distributeQueryStorageInfo_new {st : SpreadState ρ} (manager : Nat) {capacity : Nat}
    (hn : st.nSentServer < C.size) (hnew : objId ∉ st.objIds) (hhome : C.home objId = rank)
    (hcap : st.objIds.length < capacity) :
    ∃ st', distributeQueryStorageInfo C rank manager capacity st objId = some st' ∧
      Spread C rank manager st [objId] st' := by
  unfold distributeQueryStorageInfo
  rw [if_neg hnew, if_neg (not_not.mpr hhome), if_neg (Nat.not_le.mpr hcap)]
  by_cases hd : st.distributed objId = true
  · refine ⟨_, if_pos hd, ?_, rfl, fun o => ?_, ?_, ?_, ?_⟩
    · simp only [Cluster.sentAfter, foldl_cons, foldl_nil, Cluster.nextSent, hd, if_true]
      rfl
    · by_cases ho : o = objId
      · simp [ho, hd]
      · simp [ho]
    · simp [Cluster.pieces, hd]
    · simp [Cluster.pieces, hd]
    · simp [Cluster.pieces, hd]
  · have hpieces : C.pieces manager st.distributed st.nSentServer [objId] =
        C.objectPieces manager st.nSentServer objId := by
      simp [Cluster.pieces, hd]
    have hdeal := deal_spec C rank manager objId hn (st.cache objId) st.attached
    have htake : (C.objectPieces manager st.nSentServer objId).take
        (C.receivers st.nSentServer objId) = C.objectPieces manager st.nSentServer objId :=
      take_of_length_le (by simp [Cluster.objectPieces])
    have hobj : ∀ o, o ≠ objId → ∀ p ∈ C.objectPieces manager st.nSentServer objId,
        ¬ (p.target = rank ∧ p.objId = o) :=
      fun o ho p hp h => ho (h.2.symm.trans (Cluster.objId_of_mem hp))
    have hself : ∀ p ∈ C.objectPieces manager st.nSentServer objId,
        decide (p.target = rank ∧ p.objId = objId) = decide (p.target = rank) :=
      fun p hp => by simp [Cluster.objId_of_mem hp]
    refine ⟨_, if_neg hd, ?_, rfl, fun o => ?_, fun o => ?_, fun o => ?_, ?_⟩
    · simp only [Cluster.sentAfter, foldl_cons, foldl_nil, Cluster.nextSent, hd]
      rfl
    · by_cases ho : o = objId
      · simp [ho]
      · simp [ho]
    · rw [hpieces]
      by_cases ho : o = objId
      · subst ho
        rw [filter_congr hself, ← htake]
        simp only [Function.update_self]
        exact hdeal.cached
      · rw [filter_eq_nil_iff.mpr (by simpa using hobj o ho)]
        simp [ho]
    · rw [hpieces, ← htake]
      exact hdeal.attached o
    · rw [hpieces, ← htake]
      exact congrArg (st.sent ++ ·) hdeal.sent

/-- The objects of a server among those of a query, each once, in the order they are
met. -/
def Cluster.newOwn (C : Cluster ρ) (rank : Nat) : List UInt64 → List UInt64 → List UInt64
  | _, [] => []
  | met, o :: os =>
    if o ∈ met ∨ C.home o ≠ rank then C.newOwn rank met os
    else o :: C.newOwn rank (met ++ [o]) os

theorem Cluster.mem_newOwn {met : List UInt64} :
    o ∈ C.newOwn rank met os ↔ o ∈ os ∧ o ∉ met ∧ C.home o = rank := by
  induction os generalizing met with
  | nil => simp [Cluster.newOwn]
  | cons a os ih =>
    rw [Cluster.newOwn]
    split
    · next h =>
      rw [ih, mem_cons]
      refine and_congr_left fun hmet => ⟨.inr, fun ho => ho.resolve_left ?_⟩
      rintro rfl
      exact h.elim hmet.1 fun hhome => hhome hmet.2
    · next h =>
      rw [not_or, not_not] at h
      rw [mem_cons, ih]
      by_cases ha : o = a
      · simp [ha, h.1, h.2]
      · simp [ha]

theorem Cluster.nodup_newOwn (C : Cluster ρ) (rank : Nat) (met os : List UInt64) :
    (C.newOwn rank met os).Nodup := by
  induction os generalizing met with
  | nil => exact nodup_nil
  | cons o os ih =>
    rw [Cluster.newOwn]
    split
    · exact ih met
    · refine nodup_cons.mpr ⟨fun hmem => ?_, ih _⟩
      exact (Cluster.mem_newOwn.mp hmem).2.1 (by simp)

theorem distributeQueryWorkload_eq (C : Cluster ρ) (rank manager capacity : Nat) (query : Query)
    (st : SpreadState ρ) :
    distributeQueryWorkload C rank manager capacity query st =
      (query.leaves.map Constraint.objId).foldlM
        (distributeQueryStorageInfo C rank manager capacity) st := by
  induction query generalizing st with
  | leaf c => simp [distributeQueryWorkload, QueryTree.leaves]
  | node op left right ihl ihr =>
    rw [distributeQueryWorkload, QueryTree.leaves, map_append, foldlM_append, ihl]
    exact bind_congr fun st => ihr st

/-- The walk over the objects gives them all out, if `obj_ids` has room for them. -/
theorem foldlM_storageInfo (C : Cluster ρ) (rank manager capacity : Nat) (os : List UInt64) :
    ∀ st : SpreadState ρ, st.nSentServer < C.size → st.objIds.length ≤ capacity →
      if st.objIds.length + (C.newOwn rank st.objIds os).length ≤ capacity then
        ∃ st', os.foldlM (distributeQueryStorageInfo C rank manager capacity) st = some st' ∧
          Spread C rank manager st (C.newOwn rank st.objIds os) st'
      else os.foldlM (distributeQueryStorageInfo C rank manager capacity) st = none := by
  induction os with
  | nil =>
    intro st _ hlen
    rw [if_pos (by simpa [Cluster.newOwn] using hlen)]
    exact ⟨st, rfl, Spread.refl C rank manager st⟩
  | cons o os ih =>
    intro st hn hlen
    rw [foldlM_cons, Cluster.newOwn]
    by_cases hold : o ∈ st.objIds ∨ C.home o ≠ rank
    · have hskip : distributeQueryStorageInfo C rank manager capacity st o = some st := by
        unfold distributeQueryStorageInfo
        rcases hold with h | h
        · rw [if_pos h]
        · rw [if_pos h, ite_self]
      rw [if_pos hold, hskip]
      exact ih st hn hlen
    · rw [if_neg hold]
      rw [not_or, not_not] at hold
      rw [length_cons]
      by_cases hfull : capacity ≤ st.objIds.length
      · have hnone : distributeQueryStorageInfo C rank manager capacity st o = none := by
          unfold distributeQueryStorageInfo
          rw [if_neg hold.1, if_neg (not_not.mpr hold.2), if_pos hfull]
        rw [if_neg (by omega), hnone]
        rfl
      · obtain ⟨st₁, hst₁, hspread⟩ := distributeQueryStorageInfo_new manager hn
          hold.1 hold.2 (Nat.lt_of_not_le hfull)
        have hlen₁ : st₁.objIds.length = st.objIds.length + 1 := by
          rw [hspread.objIds, length_append, length_singleton]
        have hrest := ih st₁ (hspread.nSent ▸ C.sentAfter_lt _ hn _) (by omega)
        rw [hlen₁, hspread.objIds] at hrest
        rw [hst₁]
        by_cases hfits : st.objIds.length +
            ((C.newOwn rank (st.objIds ++ [o]) os).length + 1) ≤ capacity
        · rw [if_pos hfits]
          rw [if_pos (by omega)] at hrest
          obtain ⟨st', hst', hspread'⟩ := hrest
          refine ⟨st', hst', hspread.trans hspread' fun o' ho' hmem => ?_⟩
          exact (Cluster.mem_newOwn.mp ho').2.1 (by simp [hmem])
        · rw [if_neg hfits]
          rw [if_neg (by omega)] at hrest
          exact hrest

end Pdc
