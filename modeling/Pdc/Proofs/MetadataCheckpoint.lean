import Mathlib.Tactic.NormNum
import Pdc.Proofs.MetadataServer

/-!
# Checkpoints of the region metadata

`transfer_request_metadata_query_init` reads what
`transfer_request_metadata_query_checkpoint` wrote, field by field, and the
two agree on the layout. Three things keep the round trip from being the
identity. The checkpoint copies the bytes of a region's *node* where the
bytes of its coordinates belong. The reader cannot link a third region of an
object. And it never terminates the list of objects it builds. What is read
back is `restoredObj`, and `checkpoint_roundtrip_iff` says when that is what
was written.
-/

namespace Pdc

open List Lib

variable {temp : ObjMetadata} {bs rest : Bytes} {ndim : Nat} {heap : Heap}

/-! ## What is written -/

theorem length_heap_read (heap : Heap) (addr : UInt64) (len : Nat) :
    (heap.read addr len).length = len := by
  simp [Heap.read]

theorem length_nodeImage (heap : Heap) (ndim i j : Nat) (r : RegionMetadata) (next : UInt64) :
    (nodeImage heap ndim i j r next).length = 8 * ndim * 2 := by
  simp only [nodeImage, length_take, length_append, length_u64Bytes, length_u32Bytes,
    length_heap_read]
  omega

/-- The bytes written for one region, which is where they should be its
coordinates. -/
def regionBytes (heap : Heap) (temp : ObjMetadata) (i : Nat) (p : RegionMetadata × Nat) : Bytes :=
  nodeImage heap temp.ndim i p.2 p.1 (nextNode heap temp i p.2)

theorem length_regionBytes (heap : Heap) (temp : ObjMetadata) (i : Nat)
    (p : RegionMetadata × Nat) : (regionBytes heap temp i p).length = 8 * temp.ndim * 2 :=
  length_nodeImage ..

theorem length_checkpointObj (heap : Heap) (temp : ObjMetadata) (i : Nat) :
    (checkpointObj heap temp i).length =
      4 * 2 + 8 + temp.regions.length * (4 + 8 * 2 * temp.ndim) := by
  have hregions : ∀ p ∈ temp.regions.zipIdx, (u32Bytes p.1.dataServerId ++
      nodeImage heap temp.ndim i p.2 p.1 (nextNode heap temp i p.2)).length =
        4 + 8 * 2 * temp.ndim := by
    intro p _
    rw [length_append, length_u32Bytes, length_nodeImage]
    ring
  have hlen := length_flatMap_of_const hregions
  rw [length_zipIdx] at hlen
  rw [checkpointObj, length_append, hlen, length_append, length_append,
    length_u64Bytes, length_intBytes, length_intBytes]

theorem length_checkpoint (heap : Heap) (objs : List ObjMetadata) :
    (transferRequestMetadataQueryCheckpoint heap objs).length = checkpointSize objs := by
  have hobjs : ∀ (l : List ObjMetadata) (k : Nat),
      ((l.zipIdx k).flatMap fun p => checkpointObj heap p.1 p.2).length =
      (l.map fun temp => 4 * 2 + 8 + temp.regions.length * (4 + 8 * 2 * temp.ndim)).sum := by
    intro l
    induction l with
    | nil => simp
    | cons temp l ih =>
      intro k
      rw [zipIdx_cons, flatMap_cons, length_append, ih, length_checkpointObj, map_cons, sum_cons]
  rw [transferRequestMetadataQueryCheckpoint, length_append]
  exact congrArg (4 + ·) (hobjs objs 0)

/-! ## What is read back -/

def coordsOf (ndim : Nat) (bs : Bytes) : Region where
  offset := u64sOf ndim (bs.take (8 * ndim))
  size := u64sOf ndim (bs.drop (8 * ndim))

def coordsBytes (r : Region) : Bytes := u64sBytes r.offset ++ u64sBytes r.size

theorem coordsBytes_coordsOf (h : bs.length = 8 * ndim * 2) :
    coordsBytes (coordsOf ndim bs) = bs := by
  rw [coordsBytes, coordsOf, u64sBytes_u64sOf (by rw [length_take]; omega),
    u64sBytes_u64sOf (by rw [length_drop]; omega), take_append_drop]

theorem coordsOf_eq_iff (h : bs.length = 8 * ndim * 2) {r : Region}
    (hoff : r.offset.length = ndim) (hsize : r.size.length = ndim) :
    coordsOf ndim bs = r ↔ bs = coordsBytes r := by
  constructor
  · intro heq
    rw [← heq, coordsBytes_coordsOf h]
  · intro heq
    have hbytes := coordsBytes_coordsOf h
    rw [heq, coordsBytes, coordsBytes] at hbytes
    have hlen : (u64sBytes (coordsOf ndim (u64sBytes r.offset ++ u64sBytes r.size)).offset).length =
        (u64sBytes r.offset).length := by
      rw [length_u64sBytes, length_u64sBytes, hoff, coordsOf, length_u64sOf]
    obtain ⟨hoffset, hsizes⟩ := append_inj hbytes hlen
    rw [heq]
    have hoffset' := u64sBytes_inj (by rw [hoff, coordsOf, length_u64sOf]) hoffset
    have hsizes' := u64sBytes_inj (by rw [hsize, coordsOf, length_u64sOf]) hsizes
    calc coordsOf ndim (u64sBytes r.offset ++ u64sBytes r.size)
        = ⟨(coordsOf ndim (u64sBytes r.offset ++ u64sBytes r.size)).offset,
            (coordsOf ndim (u64sBytes r.offset ++ u64sBytes r.size)).size⟩ := rfl
      _ = r := by rw [hoffset', hsizes']

def restoredRegion (heap : Heap) (temp : ObjMetadata) (i : Nat) (p : RegionMetadata × Nat) :
    RegionMetadata where
  region := coordsOf temp.ndim (regionBytes heap temp i p)
  dataServerId := p.1.dataServerId

def restoredObj (heap : Heap) (p : ObjMetadata × Nat) : ObjMetadata :=
  { p.1 with regions := p.1.regions.zipIdx.map (restoredRegion heap p.1 p.2) }

theorem readRegionMetadata_reads (heap : Heap) (temp : ObjMetadata) (i : Nat)
    (p : RegionMetadata × Nat) :
    Reads (readRegionMetadata temp.ndim)
      (u32Bytes p.1.dataServerId ++ regionBytes heap temp i p) (restoredRegion heap temp i p) := by
  have hoff := Reads.u64s (coordsOf temp.ndim (regionBytes heap temp i p)).offset
  have hsize := Reads.u64s (coordsOf temp.ndim (regionBytes heap temp i p)).size
  rw [coordsOf, length_u64sOf] at hoff hsize
  rw [← coordsBytes_coordsOf (length_regionBytes heap temp i p)]
  exact (Reads.u32 _).bind (hoff.bind (hsize.map _))

def regionEntry (heap : Heap) (temp : ObjMetadata) (i : Nat) (p : RegionMetadata × Nat) : Bytes :=
  u32Bytes p.1.dataServerId ++ regionBytes heap temp i p

theorem readRegionsLoop_reads (heap : Heap) (temp : ObjMetadata) (i : Nat)
    (first : RegionMetadata) {ps : List (RegionMetadata × Nat)} (hone : ps.length ≤ 1) :
    Reads (readRegionsLoop temp.ndim ps.length [first]) (ps.flatMap (regionEntry heap temp i))
      (first :: ps.map (restoredRegion heap temp i)) := by
  match ps with
  | [] => exact Reads.pure _
  | [p] => exact (readRegionMetadata_reads heap temp i p).bind (Reads.pure _)
  | _ :: _ :: _ => simp at hone

theorem readObjMetadata_reads (heap : Heap) (i : Nat) (hwf : temp.WF)
    (htwo : temp.regions.length ≤ 2) :
    Reads readObjMetadata (checkpointObj heap temp i) (restoredObj heap (temp, i)) := by
  have hndim : Reads readInt (intBytes temp.ndim) temp.ndim :=
    Reads.int (by omega) (by have := hwf.ndim_lt; omega)
  have hcount : Reads readInt (intBytes temp.regions.length) temp.regions.length :=
    Reads.int (by omega) (by omega)
  obtain ⟨p, ps, hps⟩ : ∃ p ps, temp.regions.zipIdx = p :: ps :=
    exists_cons_of_ne_nil (by simpa using hwf.regions_ne)
  have hlen : temp.regions.length = ps.length + 1 := by
    rw [← length_zipIdx, hps, length_cons]
  have hloop := readRegionsLoop_reads heap temp i (restoredRegion heap temp i p)
    (show ps.length ≤ 1 by omega)
  have hbytes : checkpointObj heap temp i = u64Bytes temp.objId ++ (intBytes temp.ndim ++
      (intBytes temp.regions.length ++ (regionEntry heap temp i p ++
        ps.flatMap (regionEntry heap temp i)))) := by
    rw [checkpointObj, hps]
    rfl
  have hobj : restoredObj heap (temp, i) = { temp with
      regions := restoredRegion heap temp i p :: ps.map (restoredRegion heap temp i) } := by
    rw [restoredObj, hps]
    rfl
  rw [hbytes, hobj]
  refine (Reads.u64 _).bind (hndim.bind (hcount.bind ?_))
  rw [hlen]
  exact (readRegionMetadata_reads heap temp i p).bind (hloop.map _)

theorem init_checkpoint {objs : List ObjMetadata} (heap : Heap) (uninit : UInt64)
    (hwf : ∀ temp ∈ objs, temp.WF) (hlen : objs.length < 2 ^ 31)
    (htwo : ∀ temp ∈ objs, temp.regions.length ≤ 2) :
    transferRequestMetadataQueryInit (transferRequestMetadataQueryCheckpoint heap objs) uninit =
      some { objs := objs.zipIdx.map (restoredObj heap)
             objsEndNext := if objs = [] then 0 else uninit
             unread := [] } := by
  have hcount : Reads readInt (intBytes objs.length) objs.length :=
    Reads.int (by omega) (by omega)
  have hmany : Reads (readMany readObjMetadata objs.zipIdx.length)
      (objs.zipIdx.flatMap fun p => checkpointObj heap p.1 p.2)
      (objs.zipIdx.map (restoredObj heap)) := by
    refine Reads.many fun p hp => ?_
    have hmem : p.1 ∈ objs := fst_mem_of_mem_zipIdx hp
    exact readObjMetadata_reads heap p.2 (hwf p.1 hmem) (htwo p.1 hmem)
  rw [length_zipIdx] at hmany
  have hread : Reads readCheckpoint (transferRequestMetadataQueryCheckpoint heap objs)
      (objs.zipIdx.map (restoredObj heap)) := by
    refine Reads.bind hcount ?_
    exact hmany
  rw [transferRequestMetadataQueryInit, hread.run_eq]
  simp

/-! ## What the reader can return -/

theorem readRegionsLoop_length {k : Nat} {first : RegionMetadata} {regions : List RegionMetadata}
    (h : readRegionsLoop ndim k [first] bs = some (regions, rest)) : regions.length ≤ 2 := by
  match k with
  | 0 =>
    obtain ⟨rfl, _⟩ := pure_eq_some.mp h
    simp
  | 1 =>
    obtain ⟨r, cs, _, h⟩ := bind_eq_some.mp h
    obtain ⟨rfl, _⟩ := pure_eq_some.mp h
    simp
  | k + 2 =>
    obtain ⟨r, cs, _, h⟩ := bind_eq_some.mp h
    exact absurd h failure_ne_some

theorem readObjMetadata_length
    (h : readObjMetadata bs = some (temp, rest)) : temp.regions.length ≤ 2 := by
  obtain ⟨objId, bs₁, _, h⟩ := bind_eq_some.mp h
  obtain ⟨ndim, bs₂, _, h⟩ := bind_eq_some.mp h
  obtain ⟨regCount, bs₃, _, h⟩ := bind_eq_some.mp h
  obtain ⟨first, bs₄, _, h⟩ := bind_eq_some.mp h
  obtain ⟨regions, bs₅, hloop, h⟩ := bind_eq_some.mp h
  obtain ⟨rfl, _⟩ := pure_eq_some.mp h
  exact readRegionsLoop_length hloop

theorem init_eq_some {checkpoint : Bytes} {uninit : UInt64} {res : Restored}
    (h : transferRequestMetadataQueryInit checkpoint uninit = some res) :
    res.objs.length < 2 ^ 31 ∧ (∀ temp ∈ res.objs, temp.regions.length ≤ 2) ∧
      (res.objs ≠ [] → res.objsEndNext = uninit) := by
  rw [transferRequestMetadataQueryInit, Option.map_eq_some_iff] at h
  obtain ⟨⟨objs, unread⟩, hread, rfl⟩ := h
  obtain ⟨n, cs, hn, hmany⟩ := bind_eq_some.mp hread
  obtain ⟨hlen, hall⟩ := readMany_eq_some
    (fun _ _ _ => readObjMetadata_length) hmany
  obtain ⟨m, ds, _, hpure⟩ := bind_eq_some.mp hn
  obtain ⟨rfl, _⟩ := pure_eq_some.mp hpure
  have hlt : Int.bmod m (2 ^ 32) < 2 ^ 31 := by
    have h := Int.bmod_lt (x := m) (m := 2 ^ 32) (by decide)
    omega
  refine ⟨?_, hall, fun hne => if_neg hne⟩
  dsimp only
  omega

/-! ## When the round trip is the identity -/

theorem restoredRegion_eq_iff {i : Nat} {p : RegionMetadata × Nat}
    (hcoords : p.1.region.offset.length = temp.ndim ∧ p.1.region.size.length = temp.ndim) :
    restoredRegion heap temp i p = p.1 ↔ regionBytes heap temp i p = coordsBytes p.1.region := by
  rw [← coordsOf_eq_iff (length_regionBytes heap temp i p) hcoords.1 hcoords.2]
  constructor
  · intro h
    exact congrArg RegionMetadata.region h
  · intro h
    rw [restoredRegion, h]

theorem map_zipIdx_eq_iff {α : Type} {f : α × Nat → α} {l : List α} :
    l.zipIdx.map f = l ↔ ∀ p ∈ l.zipIdx, f p = p.1 := by
  have hself : l.zipIdx.map Prod.fst = l := zipIdx_map_fst 0 l
  constructor
  · intro h
    exact map_inj_left.mp (h.trans hself.symm)
  · intro h
    rw [map_congr_left h, hself]

theorem restoredObj_eq_iff (hwf : temp.WF) (i : Nat) :
    restoredObj heap (temp, i) = temp ↔
      ∀ p ∈ temp.regions.zipIdx, regionBytes heap temp i p = coordsBytes p.1.region := by
  have hregions : restoredObj heap (temp, i) = temp ↔
      temp.regions.zipIdx.map (restoredRegion heap temp i) = temp.regions := by
    constructor
    · intro h
      exact congrArg ObjMetadata.regions h
    · intro h
      rw [restoredObj, h]
  rw [hregions, map_zipIdx_eq_iff]
  refine forall₂_congr fun p hp => ?_
  exact restoredRegion_eq_iff (hwf.coords p.1 (fst_mem_of_mem_zipIdx hp))

/-- A checkpoint restores the objects it was taken of, reading all of its
`checkpoint_size` bytes, exactly when there are none, or when no object has
more than two regions, the bytes of every region's node are those of its
coordinates, and the memory of the last object's node was zero where its
`next` is. -/
theorem checkpoint_roundtrip_iff {objs : List ObjMetadata} (hwf : ∀ temp ∈ objs, temp.WF)
    (heap : Heap) (uninit : UInt64) :
    (transferRequestMetadataQueryInit (transferRequestMetadataQueryCheckpoint heap objs) uninit =
        some { objs := objs, objsEndNext := 0, unread := [] } ∧
      (transferRequestMetadataQueryCheckpoint heap objs).length = checkpointSize objs) ↔
    objs = [] ∨ (objs.length < 2 ^ 31 ∧ uninit = 0 ∧ ∀ o ∈ objs.zipIdx, o.1.regions.length ≤ 2 ∧
        ∀ p ∈ o.1.regions.zipIdx, regionBytes heap o.1 o.2 p = coordsBytes p.1.region) := by
  rw [and_iff_left (length_checkpoint heap objs)]
  by_cases hnil : objs = []
  · have hinit := init_checkpoint heap uninit hwf (by simp [hnil]) (by simp [hnil])
    rw [hinit]
    simp [hnil]
  constructor
  · intro h
    obtain ⟨hlen, htwo, hnext⟩ := init_eq_some h
    have hinit := init_checkpoint heap uninit hwf hlen htwo
    rw [h, Option.some.injEq, Restored.mk.injEq] at hinit
    have hobj := map_zipIdx_eq_iff.mp hinit.1.symm
    refine .inr ⟨hlen, (hnext hnil).symm, fun o ho => ?_⟩
    have hmem : o.1 ∈ objs := fst_mem_of_mem_zipIdx ho
    exact ⟨htwo o.1 hmem, (restoredObj_eq_iff (hwf o.1 hmem) o.2).mp (hobj o ho)⟩
  · intro h
    obtain ⟨hlen, hnext, hall⟩ := h.resolve_left hnil
    have hself : objs.zipIdx.map Prod.fst = objs := zipIdx_map_fst 0 objs
    have htwo : ∀ temp ∈ objs, temp.regions.length ≤ 2 := by
      intro temp htemp
      rw [← hself, mem_map] at htemp
      obtain ⟨o, ho, rfl⟩ := htemp
      exact (hall o ho).1
    have hobj : objs.zipIdx.map (restoredObj heap) = objs := by
      refine map_zipIdx_eq_iff.mpr fun o ho => ?_
      exact (restoredObj_eq_iff (hwf o.1 (fst_mem_of_mem_zipIdx ho)) o.2).mpr (hall o ho).2
    rw [init_checkpoint heap uninit hwf hlen htwo, hobj, if_neg hnil, hnext]

/-- A heap whose regions have their coordinates at address 64. -/
def heapAt64 : Heap where
  node := fun _ _ => 32
  coords := fun _ _ => 64
  byte := fun _ => 0

/-- A region whose coordinates happen to be the addresses of its arrays. -/
theorem checkpoint_roundtrip_addresses :
    transferRequestMetadataQueryInit (transferRequestMetadataQueryCheckpoint heapAt64
        [{ ndim := 1, objId := 7, regions := [{ region := ⟨[64], [72]⟩, dataServerId := 3 }] }]) 0 =
      some { objs :=
              [{ ndim := 1, objId := 7,
                 regions := [{ region := ⟨[64], [72]⟩, dataServerId := 3 }] }]
             objsEndNext := 0, unread := [] } :=
  ((checkpoint_roundtrip_iff (by
    intro temp htemp
    rw [mem_singleton.mp htemp]
    exact ⟨by decide, by decide, by decide⟩) heapAt64 0).mpr
    (.inr ⟨by decide, rfl, by decide⟩)).1

def tenElements : MetadataRequest where
  objId := 7
  dataServerId := 0
  regionPartition := .regionDynamic
  ndim := 1
  unit := 4
  region := ⟨[0], [10]⟩

/-- One registered region: the restored one has its addresses for
coordinates. -/
theorem checkpoint_restores_addresses :
    (transferRequestMetadataQueryAppend (MetadataServer.init 1) tenElements).1.objs =
      [{ ndim := 1, objId := 7, regions := [{ region := ⟨[0], [10]⟩, dataServerId := 0 }] }] ∧
    transferRequestMetadataQueryInit (transferRequestMetadataQueryCheckpoint heapAt64
      (transferRequestMetadataQueryAppend (MetadataServer.init 1) tenElements).1.objs) 0 =
      some { objs :=
              [{ ndim := 1, objId := 7,
                 regions := [{ region := ⟨[64], [72]⟩, dataServerId := 0 }] }]
             objsEndNext := 0, unread := [] } := by
  decide +kernel

end Pdc
