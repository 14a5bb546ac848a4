import Pdc.Proofs.MetadataResponse
import Pdc.Proofs.RegionCache

/-!
# Reading and writing through a metadata server

With `PDC_REGION_DYNAMIC` and `PDC_REGION_LOCAL` the cells of an object are
spread over the data servers, and a cell may live on several: a write that is
not contained in one registered region is registered as a region of its own,
on a server of its own, even where it overlaps others. What keeps the copies
together is that a write is answered with every registered region it
overlaps, and goes to all of them.

A batch is registered as a whole before it is answered. So a write may be
sent to a region that only a later request of its batch has registered, and
the order in which a batch is sent decides what the common cells end up
holding. `PartitionInv` is the invariant: whatever region is registered, its
server has the last value written to each of its cells, and every cell ever
written is in a registered region. In between, while a batch is being sent,
only the regions that were registered before the batch are known to be up to
date; a new one becomes so because the request it was registered for covers
all of it.

All this is about what the client makes of the answers. A batch with a request
on an object nobody has written, or with a request that overlaps nothing before
one that overlaps something, is answered in bytes that the client takes for
something else, so `Answerable` is asked of each batch.
-/

namespace Pdc

open List Lib Function

variable {q : MetadataRequest} {objs : List ObjMetadata} {batch : List (MetadataRequest × Bytes)}
  {r : RegionMetadata} {requests : List MetadataRequest} {n : Nat} {dims : UInt64 → Nat}

/-! ## Requests on the wire -/

theorem regionPartitionOf_value (p : RegionPartition) : regionPartitionOf p.value = p := by
  cases p <;> rfl

theorem readMetadataRequest_reads (hq : q.WF dims) :
    Reads readMetadataRequest (packRequest q) q := by
  have hpartition : Reads (readNat 1) (leBytes 1 q.regionPartition.value)
      q.regionPartition.value := Reads.nat (by cases q.regionPartition <;> decide)
  have hlt := hq.ndim_lt
  have hndim : Reads readInt (intBytes q.ndim) (q.ndim : Int) := Reads.int (by omega) (by omega)
  have hoff := Reads.u64s q.region.offset
  have hsize := Reads.u64s q.region.size
  rw [hq.coords.1] at hoff
  rw [hq.coords.2] at hsize
  refine (Reads.u64 q.objId).bind ((Reads.u32 q.dataServerId).bind (hpartition.bind ?_))
  refine hndim.bind ((Reads.u64 q.unit).bind ?_)
  rw [regionPartitionOf_value]
  exact hoff.bind (hsize.map _)

theorem parse_pack (hq : ∀ q ∈ requests, q.WF dims) (s : MetadataServer) (isWrite : Bool) :
    transferRequestMetadataQueryParse s requests.length (packRegionMetadataQuery requests) isWrite =
      some (metadataQueryBatch s isWrite requests) := by
  have hread : Reads (readMany readMetadataRequest requests.length) (requests.flatMap packRequest)
      (requests.map id) := Reads.many fun q hmem => readMetadataRequest_reads (hq q hmem)
  rw [map_id] at hread
  rw [transferRequestMetadataQueryParse, packRegionMetadataQuery, hread.run_eq]
  rfl

/-! ## The system

A metadata server and the data servers, and a client that sends a write to the
pairs it has unpacked from the answer. -/

/-- A batch goes to the metadata server, and the client fetches the answer and unpacks it. -/
def askBatch (s : MetadataServer) (isWrite : Bool) (requests : List MetadataRequest) :
    Option (MetadataServer × List RegionPkg) := do
  let (s, queryId, _) ← transferRequestMetadataQueryParse s requests.length
    (packRegionMetadataQuery requests) isWrite
  let (s, buf) := lookupQueryBuf s queryId
  let pkgs ← unpackRegionMetadataQuery (← buf) requests
  pure (s, pkgs)

/-- The metadata server and what each data server stores. -/
structure PartitionState (io : StorageIO) where
  metadata : MetadataServer
  data : UInt32 → io.State

/-- A batch of requests; a write comes with its buffer. -/
inductive PartitionOp where
  | write (batch : List (MetadataRequest × Bytes))
  | read (batch : List MetadataRequest)
  deriving DecidableEq, Repr

def PartitionOp.isWrite : PartitionOp → Bool
  | .write _ => true
  | .read _ => false

def PartitionOp.queries : PartitionOp → List MetadataRequest
  | .write batch => batch.map Prod.fst
  | .read batch => batch

/-- A region of a request, as its data server is asked for it. -/
def pkgRequest (objDims : UInt64 → List UInt64) (q : MetadataRequest) (r : Region) : IoRequest where
  objNdim := q.ndim
  objDims := objDims q.objId
  ndim := q.ndim
  region := r
  unit := q.unit.toNat

section System

variable {io : StorageIO} (pack : MetadataRequest → Bytes → Region → Bytes)
  (objDims : UInt64 → List UInt64)

def sendPkg (w : MetadataRequest × Bytes) (data : UInt32 → io.State) (r : RegionMetadata) :
    UInt32 → io.State :=
  Function.update data r.dataServerId
    (io.write (data r.dataServerId) w.1.objId (pkgRequest objDims w.1 r.region)
      (pack w.1 w.2 r.region))

/-- Send a write to the regions of the packages that were unpacked for it. -/
def sendWrite (pkgs : List RegionPkg) (data : UInt32 → io.State)
    (w : (MetadataRequest × Bytes) × Nat) : UInt32 → io.State :=
  ((pkgs.filter fun pkg => pkg.request = w.2).map RegionPkg.overlap).foldl
    (sendPkg pack objDims w.1) data

/-- What a batch does to the data servers: writes are sent, request by request. -/
def PartitionOp.send (pkgs : List RegionPkg) (data : UInt32 → io.State) :
    PartitionOp → UInt32 → io.State
  | .write batch => batch.zipIdx.foldl (sendWrite pack objDims pkgs) data
  | .read _ => data

/-- A batch: the metadata server is asked, and what has been unpacked says where to send. There
is no outcome once the client has read past the end of an answer. -/
def partitionStep (s : Option (PartitionState io)) (op : PartitionOp) :
    Option (PartitionState io) :=
  s.bind fun s => (askBatch s.metadata op.isWrite op.queries).map fun (metadata, pkgs) =>
    ⟨metadata, op.send pack objDims pkgs s.data⟩

end System

/-- What a write on the object `o` of `n` dimensions and `unit`-byte elements
has to be. Nothing is asked of the other objects but the form of their
requests. -/
def WriteOk (o : UInt64) (n unit : Nat) (w : MetadataRequest × Bytes) : Prop :=
  w.1.objId = o → w.1.unit.toNat = unit ∧ w.1.region.NoWrap n ∧
    w.2.length = w.1.region.count n * unit

/-- What the requests of a batch have to be. -/
def PartitionOp.Ok (dims : UInt64 → Nat) (o : UInt64) (unit : Nat) : PartitionOp → Prop
  | .write batch => ∀ w ∈ batch, w.1.WF dims ∧ WriteOk o (dims o) unit w
  | .read batch => ∀ q ∈ batch, q.WF dims

/-- The writes of a batch that are on the object, in order. -/
def patchesOn (o : UInt64) (n unit : Nat) (batch : List (MetadataRequest × Bytes)) :
    List (Patch (Fin n → ℕ) (List UInt8)) :=
  (batch.filter fun w => w.1.objId = o).map fun w => boxPatch n unit w.1.region w.2

/-- The writes on the object that a batch makes. -/
def PartitionOp.patches (o : UInt64) (n unit : Nat) :
    PartitionOp → List (Patch (Fin n → ℕ) (List UInt8))
  | .write batch => patchesOn o n unit batch
  | .read _ => []

theorem mem_patchesOn {o : UInt64} {unit : Nat} {p : Patch (Fin n → ℕ) (List UInt8)} :
    p ∈ patchesOn o n unit batch ↔
      ∃ w ∈ batch, w.1.objId = o ∧ boxPatch n unit w.1.region w.2 = p := by
  simp [patchesOn, and_assoc]

/-! ## Answers -/

/-- Every request is on an object that is known, the overlaps can be counted by an `int`, and
behind a request that overlaps nothing there is none that overlaps something. -/
def Answerable (objs : List ObjMetadata) (requests : List MetadataRequest) : Prop :=
  (∀ q ∈ requests, findMetadata objs q.objId ≠ none) ∧ overlapTotal objs requests < 2 ^ 31 ∧
    requests.Pairwise fun q q' => overlapsOf objs q = [] → overlapsOf objs q' = []

/-- A batch can be answered, once its writes are registered. -/
def PartitionOp.Answered {io : StorageIO} (s : PartitionState io) (op : PartitionOp) : Prop :=
  Answerable (metadataQueryBatch s.metadata op.isWrite op.queries).1.objs op.queries

theorem Answerable.unpack (h : Answerable objs requests) :
    unpackRegionMetadataQuery ((queryBuf objs requests).1.take (queryBuf objs requests).2)
        requests =
      some (pkgsFrom objs 0 requests) := by
  obtain ⟨hknown, htotal, hpair⟩ := h
  have hcount : requests.countP (fun q => (findMetadata objs q.objId).isNone) = 0 := by
    rw [countP_eq_zero]
    intro q hq
    rw [Option.isNone_iff_eq_none]
    exact hknown q hq
  have hsize := queryBufSizes_size objs requests
  rw [hcount, Nat.mul_zero, Nat.add_zero] at hsize
  rw [← hsize, take_length]
  obtain ⟨qs, rest, rfl, hqs, hrest⟩ | ⟨qs, z, rest, rfl, _, hz, q, hq, hne⟩ :=
    requests_cases objs requests
  · exact unpack_queryBuf htotal hqs hrest
  · rw [pairwise_append, pairwise_cons] at hpair
    exact absurd (hpair.2.1.1 q hq hz) hne

theorem lookupQueryBuf_create {s : MetadataServer} (hbufs : s.queryBufs = [])
    (requests : List MetadataRequest) :
    lookupQueryBuf (metadataQueryBufCreate s requests).1 (metadataQueryBufCreate s requests).2.1 =
      ({ (metadataQueryBufCreate s requests).1 with queryBufs := [] },
        some ((queryBuf s.objs requests).1.take (queryBuf s.objs requests).2)) := by
  simp [lookupQueryBuf, metadataQueryBufCreate, hbufs]

/-- The answer to a batch is fetched, and nothing is left of it at the server. -/
theorem askBatch_eq {s : MetadataServer} {isWrite : Bool} (hbufs : s.queryBufs = [])
    (hq : ∀ q ∈ requests, q.WF dims)
    (h : Answerable (metadataQueryBatch s isWrite requests).1.objs requests) :
    askBatch s isWrite requests =
      some ({ (metadataQueryBatch s isWrite requests).1 with queryBufs := [] },
        pkgsFrom (metadataQueryBatch s isWrite requests).1.objs 0 requests) := by
  have hkept (qs : List MetadataRequest) : (qs.foldl
      (fun s q => (transferRequestMetadataQueryAppend s q).1) s).queryBufs = [] := by
    refine foldlRecOn (motive := fun s : MetadataServer => s.queryBufs = []) qs _ hbufs
      fun s hs q _ => ?_
    rw [← hs, transferRequestMetadataQueryAppend]
    split <;> rfl
  obtain ⟨s', hbufs', hbatch⟩ : ∃ s' : MetadataServer, s'.queryBufs = [] ∧
      metadataQueryBatch s isWrite requests = metadataQueryBufCreate s' requests := by
    cases isWrite with
    | false => exact ⟨s, hbufs, rfl⟩
    | true => exact ⟨_, hkept requests, rfl⟩
  rw [hbatch] at h ⊢
  have hunpack : unpackRegionMetadataQuery ((queryBuf s'.objs requests).1.take
      (queryBuf s'.objs requests).2) requests = some (pkgsFrom s'.objs 0 requests) := h.unpack
  rw [askBatch, parse_pack hq, hbatch]
  simp only [Option.bind_eq_bind, Option.bind_some, lookupQueryBuf_create hbufs', hunpack]
  rfl

/-! ## What registering a batch does -/

/-- The regions of the object `o` after the requests were registered: those
of before, and regions of requests; and each request is inside one. -/
structure Registers (o : UInt64) (n : Nat) (requests : List MetadataRequest)
    (objs objs' : List ObjMetadata) : Prop where
  keep : ∀ r ∈ registered objs o, r ∈ registered objs' o
  origin : ∀ r ∈ registered objs' o, r ∈ registered objs o ∨
    ∃ q ∈ requests, q.objId = o ∧ q.region = r.region
  host : ∀ q ∈ requests, q.objId = o → ∃ r ∈ registered objs' o, q.region.Inside n r.region

theorem Registers.nil (o : UInt64) (n : Nat) (objs : List ObjMetadata) :
    Registers o n [] objs objs where
  keep := fun _ h => h
  origin := fun _ h => .inl h
  host := by simp

section

variable {o : UInt64} {n : Nat}

theorem Registers.cons {q : MetadataRequest}
    {requests : List MetadataRequest} {objs objs₁ objs' : List ObjMetadata}
    (h : Registers o n [q] objs objs₁) (h' : Registers o n requests objs₁ objs') :
    Registers o n (q :: requests) objs objs' where
  keep := fun r hr => h'.keep r (h.keep r hr)
  origin := by
    intro r hr
    obtain hr | ⟨q', hq', hid, hreg⟩ := h'.origin r hr
    · refine (h.origin r hr).imp_right ?_
      intro ⟨q', hq', hid, hreg⟩
      exact ⟨q', by rw [mem_singleton.mp hq']; exact mem_cons_self, hid, hreg⟩
    · exact .inr ⟨q', mem_cons_of_mem _ hq', hid, hreg⟩
  host := by
    intro q' hq' hid
    obtain rfl | hq' := mem_cons.mp hq'
    · obtain ⟨r, hr, hin⟩ := h.host q' mem_cons_self hid
      exact ⟨r, h'.keep r hr, hin⟩
    · exact h'.host q' hq' hid

theorem Registers.noWrap {objs' : List ObjMetadata} (h : Registers o n requests objs objs')
    (hobjs : ∀ r ∈ registered objs o, r.region.NoWrap n)
    (hq : ∀ q ∈ requests, q.objId = o → q.region.NoWrap n) :
    ∀ r ∈ registered objs' o, r.region.NoWrap n := by
  intro r hr
  obtain hr | ⟨q, hmem, hid, hreg⟩ := h.origin r hr
  · exact hobjs r hr
  · rw [← hreg]
    exact hq q hmem hid

theorem registers_queryAppend (s : MetadataServer)
    (hobjs : ∀ r ∈ registered s.objs o, r.region.NoWrap n)
    (hq : q.objId = o → q.ndim = n ∧ q.region.NoWrap n) :
    Registers o n [q] s.objs (transferRequestMetadataQueryAppend s q).1.objs := by
  obtain ⟨heq, r, hr, hcont⟩ | ⟨server, heq⟩ := queryAppend_cases s q
  · rw [heq]
    refine ⟨fun _ h => h, fun _ h => .inl h, ?_⟩
    intro q' hq' hid
    rw [mem_singleton.mp hq'] at hid ⊢
    obtain ⟨hndim, hnoWrap⟩ := hq hid
    rw [hid] at hr
    rw [hndim] at hcont
    exact ⟨r, hr, (detectRegionContained_iff hnoWrap (hobjs r hr)).mp hcont⟩
  · rw [heq]
    have hreg := registered_addRegion q.ndim q.objId ⟨q.region, server⟩ s.objs o
    refine ⟨?_, ?_, ?_⟩
    · intro r hr
      rw [hreg]
      exact mem_append_left _ hr
    · intro r hr
      rw [hreg] at hr
      refine (mem_append.mp hr).imp_right fun hr => ?_
      split at hr
      · next hid => exact ⟨q, mem_cons_self, hid.symm, by rw [mem_singleton.mp hr]⟩
      · cases hr
    · intro q' hq' hid
      rw [mem_singleton.mp hq'] at hid ⊢
      refine ⟨⟨q.region, server⟩, ?_, Region.Inside.refl n q.region⟩
      rw [hreg, if_pos hid.symm]
      exact mem_append_right _ mem_cons_self

/-- Registering a batch, by induction on the requests. -/
theorem registers_batch :
    ∀ {requests : List MetadataRequest} {s : MetadataServer},
      (∀ r ∈ registered s.objs o, r.region.NoWrap n) →
      (∀ q ∈ requests, q.objId = o → q.ndim = n ∧ q.region.NoWrap n) →
      Registers o n requests s.objs (metadataQueryBatch s true requests).1.objs := by
  intro requests
  induction requests with
  | nil => intro s _ _; exact Registers.nil o n s.objs
  | cons q requests ih =>
    intro s hobjs hq
    rw [forall_mem_cons] at hq
    have hfirst := registers_queryAppend s hobjs hq.1
    refine hfirst.cons (ih (hfirst.noWrap hobjs ?_) hq.2)
    intro q' hq' hid
    rw [mem_singleton.mp hq'] at hid ⊢
    exact (hq.1 hid).2

end

/-! ## What a package carries -/

theorem mem_overlapsOf :
    r ∈ overlapsOf objs q ↔ ∃ host ∈ registered objs q.objId,
      regionOverlapDetect q.ndim host.region q.region = some r.region ∧
        r.dataServerId = host.dataServerId := by
  rw [overlapsOf, mem_filterMap]
  refine exists_congr fun host => and_congr_right fun _ => ?_
  rw [Option.map_eq_some_iff]
  constructor
  · intro h
    obtain ⟨ov, hov, rfl⟩ := h
    exact ⟨hov, rfl⟩
  · intro h
    exact ⟨r.region, h.1, by rw [← h.2]⟩

theorem exists_mem_overlapsOf
    (hndim : q.ndim = n) {host : RegionMetadata} (hhost : host ∈ registered objs q.objId)
    (hnoWrap : host.region.NoWrap n) (hq : q.region.NoWrap n) {c : Fin n → ℕ}
    (hc : c ∈ host.region.cells n) (hcq : c ∈ q.region.cells n) :
    ∃ r ∈ overlapsOf objs q, r.dataServerId = host.dataServerId ∧ c ∈ r.region.cells n := by
  subst hndim
  cases hov : regionOverlapDetect q.ndim host.region q.region with
  | none => exact absurd hcq (regionOverlapDetect_none hnoWrap hq hov hc)
  | some ov =>
    refine ⟨⟨ov, host.dataServerId⟩, mem_overlapsOf.mpr ⟨host, hhost, hov, rfl⟩, rfl, ?_⟩
    rw [regionOverlapDetect_cells hnoWrap hq hov]
    exact ⟨hc, hcq⟩

theorem Region.Inside.noWrap {a b : Region} (h : a.Inside n b) (hb : b.NoWrap n) :
    a.NoWrap n := by
  intro i hi
  have := h i hi
  have := hb i hi
  omega

/-- The buffer of a package holds what the write has for its cells. -/
def Packs (n unit : Nat) (pack : MetadataRequest → Bytes → Region → Bytes) : Prop :=
  ∀ ⦃q : MetadataRequest⦄ ⦃buf : Bytes⦄ ⦃ov : Region⦄, q.ndim = n → q.unit.toNat = unit →
    buf.length = q.region.count n * unit → ov.Inside n q.region →
    (pack q buf ov).length = ov.count n * unit ∧ ∀ c ∈ ov.cells n,
      elem unit (pack q buf ov) (ov.index n c) = elem unit buf (q.region.index n c)

theorem pkgBuf_packs (unit : Nat) (hn : n = 1 ∨ n = 2 ∨ n = 3) : Packs n unit pkgBuf := by
  intro q buf ov hndim hunit hbuf hin
  have hsub : ∀ i < n, ((subOffset q ov.offset)[i]!).toNat = ov.off i - q.region.off i := by
    intro i hi
    rw [subOffset, hndim, getElem!_map_range _ hi]
    exact UInt64.toNat_sub_of_le _ _ (UInt64.le_iff_toNat_le.mpr (hin i hi).1)
  have hlen : (List.replicate (unit * ov.count n) (0 : UInt8)).length = ov.count n * unit := by
    rw [length_replicate, Nat.mul_comm]
  rw [pkgBuf, hndim, hunit, memcpySubregion_write hn hin hsub]
  refine ⟨by rw [length_memcpyOverlapSubregion, hlen], fun c hc => ?_⟩
  exact (memcpyOverlapSubregion_elem hn hin (Region.Inside.refl n ov) hbuf.ge hlen.ge hc).1 hc

/-! ## What sending does to the servers -/

section Send

variable {io : StorageIO} {o : UInt64} {n unit : Nat} {arr : io.ArrayAt o (ioLayout n unit)}
  {pack : MetadataRequest → Bytes → Region → Bytes} (objDims : UInt64 → List UInt64)
  {w : MetadataRequest × Bytes} {m : UInt32 → (Fin n → ℕ) → Option (List UInt8)}

/-- Each data server stands for an array of the object. -/
def Stand (arr : io.ArrayAt o (ioLayout n unit)) (data : UInt32 → io.State)
    (m : UInt32 → (Fin n → ℕ) → Option (List UInt8)) : Prop :=
  ∀ server, arr.Rep (data server) (m server)

theorem Stand.sendPkg_other {data : UInt32 → io.State} (h : Stand arr data m) (hid : w.1.objId ≠ o)
    (r : RegionMetadata) : Stand arr (sendPkg pack objDims w data r) m := by
  intro server
  by_cases hserver : server = r.dataServerId
  · subst hserver
    rw [sendPkg, update_self]
    exact arr.write_other hid (h _)
  · rw [sendPkg, update_of_ne hserver]
    exact h server

theorem Stand.sendPkg {data : UInt32 → io.State} (h : Stand arr data m) (hid : w.1.objId = o)
    (hndim : w.1.ndim = n) (hunit : w.1.unit.toNat = unit) (hnoWrap : r.region.NoWrap n)
    (hlen : (pack w.1 w.2 r.region).length = r.region.count n * unit) :
    Stand arr (sendPkg pack objDims w data r) (update m r.dataServerId
      (overlay (m r.dataServerId) (boxPatch n unit r.region (pack w.1 w.2 r.region)))) := by
  intro server
  by_cases hserver : server = r.dataServerId
  · subst hserver
    rw [Pdc.sendPkg, update_self, update_self, hid]
    exact arr.write (h _) ⟨hndim, hndim, hunit, hnoWrap, hlen⟩
  · rw [Pdc.sendPkg, update_of_ne hserver, update_of_ne hserver]
    exact h server

/-- Packages of a write, by induction on them: the servers they go to get the
write's values for their cells, and nothing else changes. -/
theorem Stand.sendPkgs (hpack : Packs n unit pack) (hid : w.1.objId = o) (hndim : w.1.ndim = n)
    (hw : WriteOk o n unit w) :
    ∀ {rs : List RegionMetadata} {data : UInt32 → io.State}
      {m : UInt32 → (Fin n → ℕ) → Option (List UInt8)},
      (∀ r ∈ rs, r.region.Inside n w.1.region) → Stand arr data m →
      ∃ m', Stand arr (rs.foldl (Pdc.sendPkg pack objDims w) data) m' ∧
        (∀ r ∈ rs, ∀ c ∈ r.region.cells n,
          m' r.dataServerId c = some (elem unit w.2 (w.1.region.index n c))) ∧
        ∀ server c, (∀ r ∈ rs, r.dataServerId = server → c ∉ r.region.cells n) →
          m' server c = m server c := by
  obtain ⟨hunit, hnoWrap, hbuf⟩ := hw hid
  intro rs
  induction rs with
  | nil => intro data m _ h; exact ⟨m, h, by simp, fun _ _ _ => rfl⟩
  | cons r rs ih =>
    intro data m hin h
    rw [forall_mem_cons] at hin
    obtain ⟨hlen, hval⟩ := hpack hndim hunit hbuf hin.1
    have hfirst := h.sendPkg objDims hid hndim hunit (hin.1.noWrap hnoWrap) hlen
    obtain ⟨m', hm', hsent, hkept⟩ := ih hin.2 hfirst
    refine ⟨m', hm', ?_, ?_⟩
    · intro r' hr' c hc
      -- A later package for the same cell carries the same value.
      by_cases hlater : ∃ r'' ∈ rs, r''.dataServerId = r'.dataServerId ∧ c ∈ r''.region.cells n
      · obtain ⟨r'', hr'', hserver, hc''⟩ := hlater
        rw [← hserver]
        exact hsent r'' hr'' c hc''
      · obtain rfl | hr' := mem_cons.mp hr'
        · rw [hkept _ c fun r'' hr'' hserver hc'' => hlater ⟨r'', hr'', hserver, hc''⟩,
            update_self, overlay_of_mem hc, boxPatch_value, hval c hc]
        · exact absurd ⟨r', hr', rfl, hc⟩ hlater
    · intro server c hnot
      rw [forall_mem_cons] at hnot
      rw [hkept server c hnot.2]
      by_cases hserver : server = r.dataServerId
      · subst hserver
        rw [update_self, overlay_of_not_mem (hnot.1 rfl)]
      · rw [update_of_ne hserver]

variable {objs : List ObjMetadata}

/-- Packages that are attributed to the writes they answer take each write to the registered
regions it overlaps. -/
theorem foldl_sendWrite {pkgs : List RegionPkg} :
    ∀ {batch : List (MetadataRequest × Bytes)} {k : Nat} (data : UInt32 → io.State),
      (∀ p ∈ (batch.map Prod.fst).zipIdx k,
        (pkgs.filter fun pkg => pkg.request = p.2).map RegionPkg.overlap = overlapsOf objs p.1) →
      (batch.zipIdx k).foldl (sendWrite pack objDims pkgs) data = batch.foldl
        (fun data w => (overlapsOf objs w.1).foldl (sendPkg pack objDims w) data) data := by
  intro batch
  induction batch with
  | nil => intro k data _; rfl
  | cons w batch ih =>
    intro k data hattr
    rw [map_cons, zipIdx_cons, forall_mem_cons] at hattr
    rw [zipIdx_cons, foldl_cons, foldl_cons, ih _ hattr.2, sendWrite, hattr.1]

theorem Stand.sendWrite (hpack : Packs n unit pack) (hid : w.1.objId = o) (hndim : w.1.ndim = n)
    (hw : WriteOk o n unit w) (hobjs : ∀ r ∈ registered objs o, r.region.NoWrap n)
    {data : UInt32 → io.State} (h : Stand arr data m) :
    ∃ m', Stand arr ((overlapsOf objs w.1).foldl (Pdc.sendPkg pack objDims w) data) m' ∧
      ∀ r ∈ registered objs o, ∀ c ∈ r.region.cells n, m' r.dataServerId c =
          overlay (m r.dataServerId) (boxPatch n unit w.1.region w.2) c := by
  obtain ⟨_, hnoWrap, _⟩ := hw hid
  have hpart : ∀ r ∈ overlapsOf objs w.1, r.region.Inside n w.1.region := by
    intro r hr
    obtain ⟨host, hhost, hov, _⟩ := mem_overlapsOf.mp hr
    rw [hndim] at hov
    exact (regionOverlapDetect_inside (hobjs host (hid ▸ hhost)) hnoWrap hov).2
  obtain ⟨m', hm', hsent, hkept⟩ := Stand.sendPkgs objDims hpack hid hndim hw hpart h
  refine ⟨m', hm', ?_⟩
  intro r hr c hc
  by_cases hcw : c ∈ w.1.region.cells n
  · rw [overlay_of_mem hcw]
    obtain ⟨r', hr', hserver, hc'⟩ :=
      exists_mem_overlapsOf hndim (hid ▸ hr) (hobjs r hr) hnoWrap hc hcw
    rw [← hserver]
    exact hsent r' hr' c hc'
  · rw [overlay_of_not_mem hcw]
    exact hkept _ c fun r' hr' _ hc' => hcw ((hpart r' hr').cells_subset hc')

theorem Stand.sendWrite_other (hid : w.1.objId ≠ o) {data : UInt32 → io.State}
    (h : Stand arr data m) :
    Stand arr ((overlapsOf objs w.1).foldl (Pdc.sendPkg pack objDims w) data) m :=
  foldlRecOn (motive := fun data => Stand arr data m) _ _ h
    fun _ h r _ => h.sendPkg_other objDims hid r

/-- A batch, by induction on its writes: on the registered regions the servers
end up with the batch laid over what they had. -/
theorem Stand.sendBatch (hpack : Packs n unit pack)
    (hobjs : ∀ r ∈ registered objs o, r.region.NoWrap n) :
    ∀ {batch : List (MetadataRequest × Bytes)} {data : UInt32 → io.State}
      {m : UInt32 → (Fin n → ℕ) → Option (List UInt8)},
      (∀ w ∈ batch, (w.1.objId = o → w.1.ndim = n) ∧ WriteOk o n unit w) → Stand arr data m →
      ∃ m', Stand arr (batch.foldl
          (fun data w => (overlapsOf objs w.1).foldl (Pdc.sendPkg pack objDims w) data) data) m' ∧
        ∀ r ∈ registered objs o, ∀ c ∈ r.region.cells n,
          m' r.dataServerId c = (patchesOn o n unit batch).foldl overlay (m r.dataServerId) c := by
  intro batch
  induction batch with
  | nil => intro data m _ h; exact ⟨m, h, fun _ _ _ _ => rfl⟩
  | cons w batch ih =>
    intro data m hw h
    rw [forall_mem_cons] at hw
    by_cases hid : w.1.objId = o
    · obtain ⟨m₁, hm₁, heq⟩ := h.sendWrite objDims hpack hid (hw.1.1 hid) hw.1.2 hobjs
      obtain ⟨m', hm', hrest⟩ := ih hw.2 hm₁
      refine ⟨m', hm', fun r hr c hc => ?_⟩
      rw [hrest r hr c hc, patchesOn, patchesOn, filter_cons_of_pos (by simpa using hid)]
      exact foldl_overlay_congr (.inl (heq r hr c hc))
    · obtain ⟨m', hm', hrest⟩ := ih hw.2 (h.sendWrite_other objDims hid)
      refine ⟨m', hm', fun r hr c hc => ?_⟩
      rw [hrest r hr c hc, patchesOn, patchesOn, filter_cons_of_neg (by simpa using hid)]

end Send

/-! ## The invariant -/

/-- After writes that leave the object as `m`. -/
structure PartitionInv {io : StorageIO} {o : UInt64} {n unit : Nat}
    (arr : io.ArrayAt o (ioLayout n unit)) (m : (Fin n → ℕ) → Option (List UInt8))
    (s : PartitionState io) : Prop where
  fetched : s.metadata.queryBufs = []
  noWrap : ∀ r ∈ registered s.metadata.objs o, r.region.NoWrap n
  covered : ∀ c v, m c = some v → ∃ r ∈ registered s.metadata.objs o, c ∈ r.region.cells n
  held : ∃ ms, Stand arr s.data ms ∧ ∀ r ∈ registered s.metadata.objs o,
    ∀ c ∈ r.region.cells n, ms r.dataServerId c = m c

section Step

variable {io : StorageIO} {o : UInt64} {dims : UInt64 → Nat} {unit : Nat}
  {arr : io.ArrayAt o (ioLayout (dims o) unit)} {pack : MetadataRequest → Bytes → Region → Bytes}
  (objDims : UInt64 → List UInt64) {s : PartitionState io}

theorem PartitionInv.init (pdcServerSize : Nat) {data : UInt32 → io.State}
    (h : ∀ server, arr.Rep (data server) fun _ => none) :
    PartitionInv arr (fun _ => none) ⟨MetadataServer.init pdcServerSize, data⟩ where
  fetched := rfl
  noWrap := by simp [registered, findMetadata, MetadataServer.init]
  covered := fun _ _ h => by cases h
  held := ⟨fun _ _ => none, h, fun _ _ _ _ => rfl⟩

theorem PartitionInv.write (hpack : Packs (dims o) unit pack)
    {hist : List (Patch (Fin (dims o) → ℕ) (List UInt8))} (h : PartitionInv arr (lastWrite hist) s)
    (hok : (PartitionOp.write batch).Ok dims o unit)
    (hanswer : (PartitionOp.write batch).Answered s) :
    ∃ s', partitionStep pack objDims (some s) (.write batch) = some s' ∧
      PartitionInv arr (lastWrite (hist ++ patchesOn o (dims o) unit batch)) s' := by
  have hwf : ∀ q ∈ batch.map Prod.fst, q.WF dims := by
    rw [forall_mem_map]
    exact fun w hw => (hok w hw).1
  have hown : ∀ q ∈ batch.map Prod.fst, q.objId = o →
    q.ndim = dims o ∧ q.region.NoWrap (dims o) := by
    intro q hq hid
    obtain ⟨w, hw, rfl⟩ := mem_map.mp hq
    exact ⟨by rw [(hok w hw).1.ndim_eq, hid], ((hok w hw).2 hid).2.1⟩
  have hreg := registers_batch h.noWrap hown
  have hnoWrap := hreg.noWrap h.noWrap fun q hq hid => (hown q hq hid).2
  obtain ⟨ms, hms, hheld⟩ := h.held
  have hwrites : ∀ w ∈ batch, (w.1.objId = o → w.1.ndim = dims o) ∧ WriteOk o (dims o) unit w :=
    fun w hw => ⟨fun hid => by rw [(hok w hw).1.ndim_eq, hid], (hok w hw).2⟩
  obtain ⟨ms', hms', hsent⟩ := Stand.sendBatch objDims hpack hnoWrap hwrites hms
  have hask : askBatch s.metadata (PartitionOp.write batch).isWrite
      (PartitionOp.write batch).queries = _ := askBatch_eq h.fetched hwf hanswer
  rw [← foldl_sendWrite objDims s.data (attributed_pkgsFrom _ (batch.map Prod.fst) 0)] at hms'
  refine ⟨_, by rw [partitionStep, Option.bind_some, hask, Option.map_some], ?_⟩
  rw [lastWrite_append]
  refine ⟨rfl, hnoWrap, ?_, ms', hms', ?_⟩
  · intro c v hv
    by_cases hnew : ∃ p ∈ patchesOn o (dims o) unit batch, c ∈ p.cells
    · obtain ⟨p, hp, hc⟩ := hnew
      obtain ⟨w, hw, hid, rfl⟩ := mem_patchesOn.mp hp
      obtain ⟨r, hr, hin⟩ := hreg.host w.1 (mem_map.mpr ⟨w, hw, rfl⟩) hid
      exact ⟨r, hr, hin.cells_subset hc⟩
    · rw [foldl_overlay_of_not_mem fun p hp hc => hnew ⟨p, hp, hc⟩] at hv
      obtain ⟨r, hr, hc⟩ := h.covered c v hv
      exact ⟨r, hreg.keep r hr, hc⟩
  · intro r hr c hc
    rw [hsent r hr c hc]
    refine foldl_overlay_congr ?_
    -- A region of before was up to date; a new one is covered by its request.
    obtain hr | ⟨q, hq, hid, heq⟩ := hreg.origin r hr
    · exact .inl (hheld r hr c hc)
    · obtain ⟨w, hw, rfl⟩ := mem_map.mp hq
      exact .inr ⟨_, mem_patchesOn.mpr ⟨w, hw, hid, rfl⟩, by rw [boxPatch_cells, heq]; exact hc⟩

theorem PartitionInv.read {m : (Fin (dims o) → ℕ) → Option (List UInt8)} (h : PartitionInv arr m s)
    {batch : List MetadataRequest} (hok : (PartitionOp.read batch).Ok dims o unit)
    (hanswer : (PartitionOp.read batch).Answered s) :
    ∃ s', partitionStep pack objDims (some s) (.read batch) = some s' ∧ PartitionInv arr m s' := by
  have hask : askBatch s.metadata (PartitionOp.read batch).isWrite
      (PartitionOp.read batch).queries = _ := askBatch_eq h.fetched hok hanswer
  refine ⟨_, by rw [partitionStep, Option.bind_some, hask, Option.map_some], ?_⟩
  exact ⟨rfl, h.noWrap, h.covered, h.held⟩

theorem PartitionInv.of_run (hpack : Packs (dims o) unit pack) (pdcServerSize : Nat)
    {data : UInt32 → io.State} (hdata : ∀ server, arr.Rep (data server) fun _ => none)
    {ops : List PartitionOp} (hok : ∀ op ∈ ops, op.Ok dims o unit)
    (hanswer : Along (partitionStep pack objDims) (fun s op => ∀ s' ∈ s, op.Answered s')
      (some ⟨MetadataServer.init pdcServerSize, data⟩) ops) :
    ∃ s, run (partitionStep pack objDims) (some ⟨MetadataServer.init pdcServerSize, data⟩) ops =
        some s ∧
      PartitionInv arr (lastWrite (ops.flatMap (PartitionOp.patches o (dims o) unit))) s := by
  induction ops using List.reverseRecOn with
  | nil => exact ⟨_, rfl, PartitionInv.init pdcServerSize hdata⟩
  | append_singleton ops op ih =>
    rw [Along.append] at hanswer
    obtain ⟨s, hrun, hprev⟩ := ih (fun op' hop' => hok op' (mem_append_left _ hop')) hanswer.1
    have hop := hok op (mem_append_right _ mem_cons_self)
    rw [hrun] at hanswer
    have hlast := hanswer.2.1 s rfl
    rw [run_append, hrun, run_cons, run_nil, flatMap_append, flatMap_singleton]
    cases op with
    | write batch => exact hprev.write objDims hpack hop hlast
    | read batch =>
      rw [PartitionOp.patches, append_nil]
      exact hprev.read objDims hop hlast

section

variable {m : (Fin (dims o) → ℕ) → Option (List UInt8)} {s : PartitionState io}
  (h : PartitionInv arr m s) {q : MetadataRequest} (hq : q.WF dims) (hid : q.objId = o)
  {c : Fin (dims o) → ℕ} {v : List UInt8}
include h hq hid

theorem PartitionInv.read_overlap (hunit : q.unit.toNat = unit) (hnoWrap : q.region.NoWrap (dims o))
    (hr : r ∈ overlapsOf s.metadata.objs q) (hc : c ∈ r.region.cells (dims o)) (hv : m c = some v)
    {buf : List UInt8} (hbuf : buf.length = r.region.count (dims o) * unit) :
    elem unit (io.read (s.data r.dataServerId) o (pkgRequest objDims q r.region) buf)
      (r.region.index (dims o) c) = v := by
  have hndim : q.ndim = dims o := by rw [hq.ndim_eq, hid]
  obtain ⟨host, hhost, hov, hserver⟩ := mem_overlapsOf.mp hr
  rw [hid] at hhost
  rw [hndim] at hov
  have hin := regionOverlapDetect_inside (h.noWrap host hhost) hnoWrap hov
  obtain ⟨ms, hms, hheld⟩ := h.held
  have hval : ms r.dataServerId c = some v := by
    rw [hserver, hheld host hhost c (hin.1.cells_subset hc), hv]
  exact arr.read (r := pkgRequest objDims q r.region) (hms r.dataServerId)
    ⟨hndim, hndim, hunit, hin.2.noWrap hnoWrap, hbuf⟩ hc hval

theorem PartitionInv.mem_overlap (hnoWrap : q.region.NoWrap (dims o))
    (hc : c ∈ q.region.cells (dims o)) (hv : m c = some v) :
    ∃ r ∈ overlapsOf s.metadata.objs q, c ∈ r.region.cells (dims o) := by
  have hndim : q.ndim = dims o := by rw [hq.ndim_eq, hid]
  obtain ⟨host, hhost, hch⟩ := h.covered c v hv
  obtain ⟨r, hr, -, hcr⟩ :=
    exists_mem_overlapsOf hndim (hid ▸ hhost) (h.noWrap host hhost) hnoWrap hch hc
  exact ⟨r, hr, hcr⟩

end

end Step

/-! ## Reading after batches -/

section Read

variable {io : StorageIO} {o : UInt64} {dims : UInt64 → Nat} {unit : Nat}
  {pack : MetadataRequest → Bytes → Region → Bytes}

variable (pack) in
/-- After batches, a batch of reads is answered. The packages that the client has unpacked for a
read are on servers that have the last value written to every written cell of the package, and
if the whole region of the read was written, they cover it. -/
def ReadsLastWrites (o : UInt64) (dims : UInt64 → Nat) (unit : Nat) (objDims : UInt64 → List UInt64)
    (start : PartitionState io) (ops : List PartitionOp) (batch : List MetadataRequest) : Prop :=
  ∃ s metadata pkgs, run (partitionStep pack objDims) (some start) ops = some s ∧
    askBatch s.metadata false batch = some (metadata, pkgs) ∧
    ∀ p ∈ batch.zipIdx, p.1.objId = o → p.1.unit.toNat = unit → p.1.region.NoWrap (dims o) →
      (∀ pkg ∈ pkgs, pkg.request = p.2 → ∀ c ∈ pkg.overlap.region.cells (dims o), ∀ v,
        lastWrite (ops.flatMap (PartitionOp.patches o (dims o) unit)) c = some v →
        ∀ buf : List UInt8, buf.length = pkg.overlap.region.count (dims o) * unit →
          elem unit (io.read (s.data pkg.dataServerId) o
            (pkgRequest objDims p.1 pkg.overlap.region) buf)
            (pkg.overlap.region.index (dims o) c) = v) ∧
      ((∀ c ∈ p.1.region.cells (dims o),
          ∃ v, lastWrite (ops.flatMap (PartitionOp.patches o (dims o) unit)) c = some v) →
        ∀ c ∈ p.1.region.cells (dims o),
          ∃ pkg ∈ pkgs, pkg.request = p.2 ∧ c ∈ pkg.overlap.region.cells (dims o))

/-- Reads return what was last written if every batch, those of before and the batch of reads,
can be answered. -/
theorem partition_read_lastWrite (hpack : Packs (dims o) unit pack)
    (arr : io.ArrayAt o (ioLayout (dims o) unit)) (objDims : UInt64 → List UInt64)
    (pdcServerSize : Nat) (data : UInt32 → io.State)
    (hdata : ∀ server, arr.Rep (data server) fun _ => none) (ops : List PartitionOp)
    (batch : List MetadataRequest) (hok : ∀ op ∈ ops ++ [.read batch], op.Ok dims o unit)
    (hanswer : Along (partitionStep pack objDims) (fun s op => ∀ s' ∈ s, op.Answered s')
      (some ⟨MetadataServer.init pdcServerSize, data⟩) (ops ++ [.read batch])) :
    ReadsLastWrites pack o dims unit objDims ⟨MetadataServer.init pdcServerSize, data⟩ ops
      batch := by
  rw [forall_mem_append, forall_mem_singleton] at hok
  rw [Along.append] at hanswer
  obtain ⟨s, hrun, hinv⟩ := PartitionInv.of_run objDims hpack pdcServerSize hdata hok.1 hanswer.1
  rw [hrun] at hanswer
  refine ⟨s, _, _, hrun, askBatch_eq hinv.fetched hok.2 (hanswer.2.1 s rfl), ?_⟩
  intro p hp hid hunit hnoWrap
  have hq := hok.2 p.1 (fst_mem_of_mem_zipIdx hp)
  have hpkgs := attributed_pkgsFrom s.metadata.objs batch 0 p hp
  constructor
  · intro pkg hpkg hrequest c hc v hv buf hbuf
    have hr : pkg.overlap ∈ overlapsOf s.metadata.objs p.1 := by
      rw [← hpkgs]
      exact mem_map_of_mem (mem_filter.mpr ⟨hpkg, decide_eq_true hrequest⟩)
    exact hinv.read_overlap objDims hq hid hunit hnoWrap hr hc hv hbuf
  · intro hall c hc
    obtain ⟨v, hv⟩ := hall c hc
    obtain ⟨r, hr, hcr⟩ := hinv.mem_overlap hq hid hnoWrap hc hv
    rw [← hpkgs] at hr
    obtain ⟨pkg, hpkg, rfl⟩ := mem_map.mp hr
    rw [mem_filter, decide_eq_true_eq] at hpkg
    exact ⟨pkg, hpkg.1, hpkg.2, hcr⟩

end Read

def requestAt (objId : UInt64) (offset size : List UInt64) : MetadataRequest where
  objId := objId
  dataServerId := 0
  regionPartition := .regionDynamic
  ndim := 2
  unit := 1
  region := ⟨offset, size⟩

theorem requestAt_wf {objId : UInt64} {offset size : List UInt64} (hoff : offset.length = 2)
    (hsize : size.length = 2) : (requestAt objId offset size).WF fun _ => 2 :=
  ⟨rfl, (by decide : 2 < 2 ^ 31), hoff, hsize⟩

def sharedWrites : List PartitionOp :=
  [.write [(requestAt 7 [0, 0] [1, 2], [1, 1]), (requestAt 7 [0, 1] [1, 2], [2, 2])]]

/-- Two data servers that have nothing yet. -/
def emptyServers : PartitionState (regionStore true fun _ => 0) :=
  ⟨MetadataServer.init 2, fun _ _ => ⟨⟨[], 0⟩, []⟩⟩

/-- The writes are registered on different servers. -/
def sharedMetadata : MetadataServer where
  objs := [{ ndim := 2, objId := 7, regions := [⟨⟨[0, 0], [1, 2]⟩, 0⟩, ⟨⟨[0, 1], [1, 2]⟩, 1⟩] }]
  dataServerBytes := [2, 2]
  queryId := 100001
  queryBufs := []

theorem metadata_sharedWrites :
    (run (partitionStep pkgBuf fun _ => []) (some emptyServers) sharedWrites).map
      PartitionState.metadata = some sharedMetadata := by
  decide +kernel

/-- Both servers answer a read of the shared element with the second write's value. -/
theorem partition_read_lastWrite_shared :
    ReadsLastWrites pkgBuf 7 (fun _ => 2) 1 (fun _ => []) emptyServers sharedWrites
      [requestAt 7 [0, 1] [1, 1]] := by
  refine partition_read_lastWrite (pkgBuf_packs 1 (.inr (.inl rfl)))
    (regionStoreArrayAt 1 (.inl rfl) true (fun _ => 0) 7) (fun _ => []) 2 _
    (fun _ => StorageInv.empty 2 1 ⟨[], 0⟩) _ _ ?_ ?_
  · intro op hop
    obtain rfl | rfl : op = _ ∨ op = _ := by simpa [sharedWrites] using hop
    · intro w hw
      obtain rfl | rfl : w = _ ∨ w = _ := by simpa using hw
      all_goals exact ⟨requestAt_wf rfl rfl, fun _ => ⟨rfl, by decide, by decide⟩⟩
    · exact forall_mem_singleton.mpr (requestAt_wf rfl rfl)
  · rw [Along.append]
    refine ⟨⟨?_, trivial⟩, ?_, trivial⟩
    · intro s hs
      obtain rfl := Option.some.inj hs
      change _ ∧ _ ∧ _
      decide +kernel
    · intro s hs
      have hmetadata := metadata_sharedWrites
      change run (partitionStep pkgBuf fun _ => []) (some emptyServers) sharedWrites = some s at hs
      rw [hs, Option.map_some, Option.some.injEq] at hmetadata
      rw [PartitionOp.Answered, hmetadata]
      change _ ∧ _ ∧ _
      decide +kernel

/-- A read of an object nobody has written comes before the read of a written one in its batch:
the package of the second read is taken for one of the first. -/
theorem not_readsLastWrites_unknown :
    ¬ ReadsLastWrites pkgBuf 7 (fun _ => 2) 1 (fun _ => []) emptyServers sharedWrites
      [requestAt 8 [0, 0] [1, 1], requestAt 7 [0, 1] [1, 1]] := by
  intro ⟨s, metadata, pkgs, hrun, hask, hread⟩
  have hmetadata := metadata_sharedWrites
  rw [hrun, Option.map_some, Option.some.injEq] at hmetadata
  have hfirst : (askBatch sharedMetadata false
      [requestAt 8 [0, 0] [1, 1], requestAt 7 [0, 1] [1, 1]]).map
        (fun answer => answer.2.map RegionPkg.request) = some [0, 0] := by decide +kernel
  rw [← hmetadata, hask, Option.map_some, Option.some.injEq] at hfirst
  have hin : Region.Inside 2 ⟨[0, 1], [1, 1]⟩ ⟨[0, 1], [1, 2]⟩ := by decide
  obtain ⟨pkg, hpkg, hrequest, _⟩ :=
    (hread (requestAt 7 [0, 1] [1, 1], 1) (by decide) rfl rfl (by decide)).2
      (fun c hc => ⟨_, lastWrite_last [_] (hin.cells_subset hc)⟩) (fun i => i.val) (by decide)
  have hmem := mem_map_of_mem (f := RegionPkg.request) hpkg
  rw [hfirst, hrequest] at hmem
  exact absurd hmem (by decide)

end Pdc
