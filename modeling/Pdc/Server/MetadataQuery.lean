import Pdc.Lib.Codec
import Pdc.Utils.Region

/-!
# The region metadata server (`pdc_server_region_transfer_metadata_query.c`)

For objects whose regions are placed dynamically or locally, a metadata
server remembers which data server holds which region. A write registers its
region, unless a registered one contains it; every request is answered with
the data servers whose regions it overlaps, and the overlaps. Answers are
kept as byte buffers under a query id until they are fetched.

The static variables of the source are `MetadataServer`. Its linked lists are
lists here. Sizes of buffers are natural numbers; the counters that go into
the buffers are the source's `int`s.

`transfer_request_metadata_query_checkpoint` copies, for each region, the
bytes that start at the *address* of the node's first field. Which bytes
those are depends on where the nodes lie, so a checkpoint is taken in a
`Heap`. `transfer_request_metadata_query_init` leaves a field of the last
object's node as `malloc` returned it, and takes that value as an argument.
-/

namespace Pdc

open Lib

/-- `pdc_region_metadata_pkg`. -/
structure RegionMetadata where
  region : Region
  dataServerId : UInt32
  deriving DecidableEq, Repr

/-- `pdc_obj_metadata_pkg`. -/
structure ObjMetadata where
  ndim : Nat
  objId : UInt64
  regions : List RegionMetadata
  deriving DecidableEq, Repr

/-- What the parser takes from a request: a `pdc_obj_region_metadata`, and the
fields that are only used to register a write. -/
structure MetadataRequest where
  objId : UInt64
  dataServerId : UInt32
  regionPartition : RegionPartition
  ndim : Nat
  unit : UInt64
  region : Region
  deriving DecidableEq, Repr

/-- The static variables. `pdc_server_size` is the length of
`dataServerBytes`. -/
structure MetadataServer where
  objs : List ObjMetadata
  dataServerBytes : List UInt64
  queryId : UInt64
  queryBufs : List (UInt64 × Bytes)
  deriving DecidableEq, Repr

/-! ## Registering a region -/

/-- The search for an object that opens every function. -/
def findMetadata (objs : List ObjMetadata) (objId : UInt64) : Option ObjMetadata :=
  objs.find? fun temp => temp.objId == objId

/-- The regions registered for an object, in the order they were. -/
def registered (objs : List ObjMetadata) (objId : UInt64) : List RegionMetadata :=
  match findMetadata objs objId with
  | none => []
  | some temp => temp.regions

/-- The loop of `transfer_request_metadata_reg_append` that finds the server
with the fewest bytes. -/
def minBytesServer (dataServerBytes : List UInt64) : Nat :=
  ((List.range' 1 (dataServerBytes.length - 1)).foldl (fun (minBytes, server) i =>
    if minBytes > dataServerBytes[i]! then (dataServerBytes[i]!, i) else (minBytes, server))
    (dataServerBytes[0]!, 0)).2

/-- `total_reg_size`. -/
def totalRegSize (ndim : Nat) (unit : UInt64) (r : Region) : UInt64 :=
  (List.range ndim).foldl (fun total i => total * r.size[i]!) unit

/-- `transfer_request_metadata_reg_append`: the new node, and the bytes of the
data servers. -/
def transferRequestMetadataRegAppend (dataServerBytes : List UInt64) (q : MetadataRequest) :
    RegionMetadata × List UInt64 :=
  if q.regionPartition = .regionDynamic then
    let server := minBytesServer dataServerBytes
    ({ region := q.region, dataServerId := UInt32.ofNat server }, dataServerBytes.set server
        (dataServerBytes[server]! + totalRegSize q.ndim q.unit q.region))
  else ({ region := q.region, dataServerId := q.dataServerId }, dataServerBytes)

/-- Put a node at the end of its object's regions, with a new object at the
end of the list if there is none. -/
def addRegion (ndim : Nat) (objId : UInt64) (region : RegionMetadata) :
    List ObjMetadata → List ObjMetadata
  | [] => [{ ndim := ndim, objId := objId, regions := [region] }]
  | temp :: rest =>
    if temp.objId = objId then { temp with regions := temp.regions ++ [region] } :: rest
    else temp :: addRegion ndim objId region rest

/-- `transfer_request_metadata_query_append`, with the server id it returns. -/
def transferRequestMetadataQueryAppend (s : MetadataServer) (q : MetadataRequest) :
    MetadataServer × UInt32 :=
  match (registered s.objs q.objId).find?
      fun r => detectRegionContained q.ndim q.region r.region with
  | some r => (s, r.dataServerId)
  | none =>
    let (region, dataServerBytes) := transferRequestMetadataRegAppend s.dataServerBytes q
    ({ s with
        objs := addRegion q.ndim q.objId region s.objs
        dataServerBytes := dataServerBytes }, region.dataServerId)

/-! ## Answering -/

/-- One transfer request's counter: how many stored regions it overlaps. -/
def transferRequestCounter (q : MetadataRequest) (temp : ObjMetadata) : Nat :=
  temp.regions.countP fun r => checkOverlap q.ndim r.region q.region

/-- The first loop of `metadata_query_buf_create`: `total_data_size`, the
counters and `transfer_request_counter_total`. -/
def queryBufSizes (objs : List ObjMetadata) :
    List MetadataRequest → Nat × List Nat × Nat
  | [] => (4, [], 0)
  | q :: rest =>
    let (totalDataSize, counters, total) := queryBufSizes objs rest
    match findMetadata objs q.objId with
    | some temp =>
      let counter := transferRequestCounter q temp
      (totalDataSize + 4 + counter * (4 + 8 * q.ndim * 2), counter :: counters, total + counter)
    | none => (totalDataSize, 0 :: counters, total)

/-- What the second loop writes for one stored region. -/
def overlapRecord (q : MetadataRequest) (r : RegionMetadata) : Bytes :=
  match regionOverlapDetect q.ndim r.region q.region with
  | some ov => u32Bytes r.dataServerId ++ u64sBytes ov.offset ++ u64sBytes ov.size
  | none => []

/-- The second loop of `metadata_query_buf_create`, for one request. -/
def queryBufEntry (objs : List ObjMetadata) (q : MetadataRequest) (counter : Nat) : Bytes :=
  intBytes counter ++
    match findMetadata objs q.objId with
    | some temp => temp.regions.flatMap (overlapRecord q)
    | none => []

/-- The bytes `metadata_query_buf_create` writes, and the size of the buffer
it writes them to. -/
def queryBuf (objs : List ObjMetadata) (requests : List MetadataRequest) : Bytes × Nat :=
  let (totalDataSize, counters, total) := queryBufSizes objs requests
  (intBytes total ++
    (requests.zip counters).flatMap (fun (q, counter) => queryBufEntry objs q counter),
    totalDataSize)

/-- `metadata_query_buf_create`: the server with the new buffer, its id and
its size. What is written past the end of the buffer is not part of it. -/
def metadataQueryBufCreate (s : MetadataServer) (requests : List MetadataRequest) :
    MetadataServer × UInt64 × Nat :=
  let (buf, totalDataSize) := queryBuf s.objs requests
  ({ s with
      queryId := s.queryId + 1
      queryBufs := s.queryBufs ++ [(s.queryId, buf.take totalDataSize)] }, s.queryId, totalDataSize)

/-- The byte `region_partition`. The source only asks whether it is the value
of `PDC_REGION_DYNAMIC`. -/
def regionPartitionOf : Nat → RegionPartition
  | 0 => .objStatic
  | 1 => .regionStatic
  | 2 => .regionDynamic
  | _ => .regionLocal

/-- One turn of the parsing loop. -/
def readMetadataRequest : Reader MetadataRequest := do
  let objId ← readU64
  let dataServerId ← readU32
  let regionPartition ← readNat 1
  let ndim ← readInt
  let unit ← readU64
  let regOffset ← readMany readU64 ndim.toNat
  let regSize ← readMany readU64 ndim.toNat
  pure {
    objId := objId
    dataServerId := dataServerId
    regionPartition := regionPartitionOf regionPartition
    ndim := ndim.toNat
    unit := unit
    region := { offset := regOffset, size := regSize } }

/-- What the parser does with the requests it reads: register them all if they
are writes, then answer. -/
def metadataQueryBatch (s : MetadataServer) (isWrite : Bool) (requests : List MetadataRequest) :
    MetadataServer × UInt64 × Nat :=
  let s := if isWrite then
      requests.foldl (fun s q => (transferRequestMetadataQueryAppend s q).1) s
    else s
  metadataQueryBufCreate s requests

/-- `transfer_request_metadata_query_parse`; `none` if it would read past the
end of its buffer. -/
def transferRequestMetadataQueryParse (s : MetadataServer) (nObjs : Nat) (buf : Bytes)
    (isWrite : Bool) : Option (MetadataServer × UInt64 × Nat) :=
  (readMany readMetadataRequest nObjs buf).map fun (requests, _) =>
    metadataQueryBatch s isWrite requests

/-- `transfer_request_metadata_query_lookup_query_buf`: the buffer is taken out of the list. -/
def lookupQueryBuf (s : MetadataServer) (queryId : UInt64) : MetadataServer × Option Bytes :=
  ({ s with queryBufs := s.queryBufs.eraseP fun metadataQuery => metadataQuery.1 = queryId },
    (s.queryBufs.find? fun metadataQuery => metadataQuery.1 = queryId).map Prod.snd)

/-! ## Checkpoints -/

/-- Where `malloc` put the nodes and the coordinates of the regions, by object
and by region, and what the bytes hold that no field describes. -/
structure Heap where
  node : Nat → Nat → UInt64
  coords : Nat → Nat → UInt64
  byte : UInt64 → UInt8

/-- `len` bytes of the heap. -/
def Heap.read (heap : Heap) (addr : UInt64) (len : Nat) : Bytes :=
  (List.range len).map fun k => heap.byte (addr + UInt64.ofNat k)

/-- The `8 * ndim * 2` bytes that start at a node's field `reg_offset`: the two
pointers, the server id and four bytes of padding, the pointer to the next
node, and whatever follows the node. -/
def nodeImage (heap : Heap) (ndim i j : Nat) (r : RegionMetadata) (next : UInt64) : Bytes :=
  let regOffset := heap.coords i j
  let image := u64Bytes regOffset ++ u64Bytes (regOffset + UInt64.ofNat (8 * ndim)) ++
    u32Bytes r.dataServerId ++ heap.read (heap.node i j + 20) 4 ++ u64Bytes next ++
    heap.read (heap.node i j + 32) (8 * ndim * 2 - 32)
  image.take (8 * ndim * 2)

/-- The pointer `next` of a node. -/
def nextNode (heap : Heap) (temp : ObjMetadata) (i j : Nat) : UInt64 :=
  if j + 1 < temp.regions.length then heap.node i (j + 1) else 0

/-- What the checkpoint writes for one object. -/
def checkpointObj (heap : Heap) (temp : ObjMetadata) (i : Nat) : Bytes :=
  u64Bytes temp.objId ++ intBytes temp.ndim ++ intBytes temp.regions.length ++
    temp.regions.zipIdx.flatMap fun (r, j) =>
      u32Bytes r.dataServerId ++ nodeImage heap temp.ndim i j r (nextNode heap temp i j)

/-- `checkpoint_size`. -/
def checkpointSize (objs : List ObjMetadata) : Nat :=
  4 + (objs.map fun temp => 4 * 2 + 8 + temp.regions.length * (4 + 8 * 2 * temp.ndim)).sum

/-- `transfer_request_metadata_query_checkpoint`. -/
def transferRequestMetadataQueryCheckpoint (heap : Heap) (objs : List ObjMetadata) : Bytes :=
  intBytes objs.length ++ objs.zipIdx.flatMap fun (temp, i) => checkpointObj heap temp i

/-- The reading of one region in `transfer_request_metadata_query_init`. -/
def readRegionMetadata (ndim : Nat) : Reader RegionMetadata := do
  let dataServerId ← readU32
  let regOffset ← readMany readU64 ndim
  let regSize ← readMany readU64 ndim
  pure { region := { offset := regOffset, size := regSize }, dataServerId := dataServerId }

/-- The loop over the regions after the first. The new node goes behind the
first one, and `regions_end` moves to its own `next`. The first time
`regions_end` is the first node, so it moves to the new node; the next time
its `next` is NULL, which is then written to. -/
def readRegionsLoop (ndim : Nat) : Nat → List RegionMetadata → Reader (List RegionMetadata)
  | 0, regions => pure regions
  | k + 1, [first] => do
      let r ← readRegionMetadata ndim
      readRegionsLoop ndim k [first, r]
  | _ + 1, _ => failure

/-- The reading of one object. The first region is read whatever `reg_count`
says. -/
def readObjMetadata : Reader ObjMetadata := do
  let objId ← readU64
  let ndim ← readInt
  let regCount ← readInt
  let first ← readRegionMetadata ndim.toNat
  let regions ← readRegionsLoop ndim.toNat (regCount.toNat - 1) [first]
  pure { ndim := ndim.toNat, objId := objId, regions := regions }

/-- What `transfer_request_metadata_query_init` has made of a checkpoint: the
objects it linked, the `next` field of the last one, and the bytes it did not
read. -/
structure Restored where
  objs : List ObjMetadata
  objsEndNext : UInt64
  unread : Bytes
  deriving DecidableEq, Repr

/-- The reading of a checkpoint: the number of objects and the objects. -/
def readCheckpoint : Reader (List ObjMetadata) := do
  let nObjs ← readInt
  readMany readObjMetadata nObjs.toNat

/-- The part of `transfer_request_metadata_query_init` that loads a checkpoint;
`none` if it reads past the end or writes through NULL. `uninit` is what
`malloc` left in the `next` field of the last object. -/
def transferRequestMetadataQueryInit (checkpoint : Bytes) (uninit : UInt64) : Option Restored :=
  (readCheckpoint checkpoint).map fun (objs, unread) =>
    { objs := objs, objsEndNext := if objs = [] then 0 else uninit, unread := unread }

/-- `transfer_request_metadata_query_init` without a checkpoint. -/
def MetadataServer.init (pdcServerSize : Nat) : MetadataServer where
  objs := []
  dataServerBytes := List.replicate pdcServerSize 0
  queryId := 100000
  queryBufs := []

end Pdc
