import Pdc.Lib.Codec
import Pdc.Utils.Region

/-!
# Reading the requests of a client

`parse_bulk_data` (`pdc_server_region_transfer.c`) walks the buffer a client has
packed, in the same two passes, and `transfer_request_all_bulk_transfer_read_cb`
(`pdc_server_region_request_handler.h`) lays the data it has read out one object
after the other in the reply.
-/

namespace Pdc

open Lib

/-- One object of a `transfer_request_all_data` after the first pass. -/
structure RequestHead where
  objId : UInt64
  objNdim : Int
  remoteNdim : Int
  unit : UInt64
  deriving DecidableEq, Repr

/-- One object of a `transfer_request_all_data`. `data_buf` is set for a write. -/
structure RequestData extends RequestHead where
  remoteOffset : List UInt64
  remoteLength : List UInt64
  objDims : List UInt64
  dataBuf : Option Bytes
  deriving DecidableEq, Repr

/-- The first pass, for one object. -/
def readRequestHead : Reader RequestHead := do
  let objId ← readU64
  let objNdim ← readInt
  let remoteNdim ← readInt
  let unit ← readU64
  pure { objId, objNdim, remoteNdim, unit }

/-- `data_size`. -/
def requestDataSize (h : RequestHead) (remoteLength : List UInt64) : UInt64 :=
  (List.range' 1 (h.remoteNdim.toNat - 1)).foldl (fun size j => size * remoteLength[j]!)
    (remoteLength[0]! * h.unit)

/-- The second pass, for one object. -/
def readRequestBody (access : Access) (h : RequestHead) : Reader RequestData := do
  let remoteOffset ← readMany readU64 h.remoteNdim.toNat
  let remoteLength ← readMany readU64 h.remoteNdim.toNat
  let objDims ← readMany readU64 h.objNdim.toNat
  if access = .write then do
    let dataBuf ← readBytes (requestDataSize h remoteLength).toNat
    pure { toRequestHead := h, remoteOffset, remoteLength, objDims, dataBuf := some dataBuf }
  else pure { toRequestHead := h, remoteOffset, remoteLength, objDims, dataBuf := none }

/-- `parse_bulk_data`; `none` if it would read past the end of the buffer. -/
def parseBulkData (nObjs : Nat) (access : Access) (buf : Bytes) : Option (List RequestData) :=
  ((do let heads ← readMany readRequestHead nObjs
       readEach (readRequestBody access) heads : Reader (List RequestData)) buf).map Prod.fst

/-- `mem_size`. -/
def memSize (d : RequestData) : UInt64 :=
  (List.range d.remoteNdim.toNat).foldl (fun size j => size * d.remoteLength[j]!) d.unit

/-- Where the reply has the data of each object, from `ptr` on. -/
def replyPositions (ptr : UInt64) : List RequestData → List UInt64
  | [] => []
  | d :: objs => ptr :: replyPositions (ptr + memSize d) objs

end Pdc
