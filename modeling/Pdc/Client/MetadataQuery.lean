import Pdc.Server.MetadataQuery

/-!
# Asking a metadata server (`pdc_region_transfer.c`)

A client packs the regions of its transfer requests, sends them to a metadata
server, and unpacks the answer into packages, each for one data server. The
answer has no marks between the requests: it starts with the number of
packages, and before the packages of each request comes their number. The
client starts a new request whenever its counter has run down to zero.
-/

namespace Pdc

open Lib

/-- `pack_region_metadata_query`, for one package. -/
def packRequest (q : MetadataRequest) : Bytes :=
  u64Bytes q.objId ++ (u32Bytes q.dataServerId ++ (leBytes 1 q.regionPartition.value ++
    (intBytes q.ndim ++ (u64Bytes q.unit ++
      (u64sBytes q.region.offset ++ u64sBytes q.region.size)))))

/-- `pack_region_metadata_query`. -/
def packRegionMetadataQuery (requests : List MetadataRequest) : Bytes :=
  requests.flatMap packRequest

/-- A `pdc_transfer_request_start_all_pkg` as it is unpacked. `request` is the
position of its `transfer_request` in the list that was packed. -/
structure RegionPkg where
  request : Nat
  index : Int
  dataServerId : UInt32
  remoteOffset : List UInt64
  remoteSize : List UInt64
  subOffset : List UInt64
  deriving DecidableEq, Repr

/-- Where a region starts in the region of its request. -/
def subOffset (q : MetadataRequest) (remoteOffset : List UInt64) : List UInt64 :=
  (List.range q.ndim).map fun j => remoteOffset[j]! - q.region.offset[j]!

/-- The reading of one package, for the transfer request at a position. -/
def readPkg (requests : List MetadataRequest) (request : Nat) (index : Int) : Reader RegionPkg :=
  match requests[request]? with
  | none => failure
  | some q => do
      let dataServerId ← readU32
      let remoteOffset ← readMany readU64 q.ndim
      let remoteSize ← readMany readU64 q.ndim
      pure {
        request := request
        index := index
        dataServerId := dataServerId
        remoteOffset := remoteOffset
        remoteSize := remoteSize
        subOffset := subOffset q remoteOffset }

/-- The loop of `unpack_region_metadata_query`, with `counter`, `index`, the
position of `local_request` and its `n_obj_servers`. -/
def unpackLoop (requests : List MetadataRequest) :
    Nat → Int → Nat → Nat → Int → Reader (List RegionPkg)
  | 0, _, _, _, _ => pure []
  | k + 1, counter, index, localRequest, nObjServers => do
      let (counter, localRequest, nObjServers) ← (if counter = 0 then do
          let counter ← readInt
          pure (counter, index, counter)
        else pure (counter, localRequest, nObjServers) : Reader (Int × Nat × Int))
      let pkg ← readPkg requests localRequest (nObjServers - counter)
      let pkgs ← unpackLoop requests k (counter - 1)
        (if counter - 1 = 0 then index + 1 else index) localRequest nObjServers
      pure (pkg :: pkgs)

/-- `unpack_region_metadata_query`; `none` if it would read past the end of the
buffer or of the requests. -/
def unpackRegionMetadataQuery (buf : Bytes) (requests : List MetadataRequest) :
    Option (List RegionPkg) :=
  ((do let size ← readInt
       unpackLoop requests size.toNat 0 0 0 0 : Reader (List RegionPkg)) buf).map Prod.fst

/-- The data of a write that goes with one of its packages: the sub-region of
the request's buffer, in a buffer of its own. -/
def pkgBuf (q : MetadataRequest) (buf : Bytes) (r : Region) : Bytes :=
  (memcpySubregion q.ndim q.unit.toNat .write buf q.region.size
    (List.replicate (q.unit.toNat * r.count q.ndim) 0) (subOffset q r.offset) r.size).2

end Pdc
