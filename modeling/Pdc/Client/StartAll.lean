import Pdc.Lib.Codec
import Pdc.Utils.Region
import Pdc.Server.Posix

/-!
# Packing the requests for one data server (`pdc_region_transfer.c`)

`PDC_Client_pack_all_requests` puts the packages for one data server into one
buffer: first a fixed-size record for each, then for each its region, the
object's dimensions and, for a write, the data. The size of the buffer is
computed before, from three arrays of `remote_region_ndim` numbers for each
package, whatever the number of dimensions of the object.

For a read the same buffer takes the reply, and `read_bulk_buf` says where the
client will look for the data of each package. All sizes are 64-bit numbers.
-/

namespace Pdc

open Lib

/-- A `pdc_transfer_request_start_all_pkg` with what is used of its transfer
request. The arrays have the lengths the two dimension counts say. -/
structure StartAllPkg where
  objId : UInt64
  objNdim : Nat
  remoteRegionNdim : Nat
  unit : UInt64
  remoteOffset : List UInt64
  remoteSize : List UInt64
  objDims : List UInt64
  buf : Bytes
  offset_length : remoteOffset.length = remoteRegionNdim
  size_length : remoteSize.length = remoteRegionNdim
  dims_length : objDims.length = objNdim
  ndim_pos : 1 ≤ remoteRegionNdim
  ndim_le : remoteRegionNdim ≤ 3
  objNdim_lt : objNdim < 2 ^ 31
  deriving DecidableEq, Repr

/-- `obj_data_size`. -/
def objDataSize (p : StartAllPkg) : UInt64 :=
  (List.range' 1 (p.remoteRegionNdim - 1)).foldl (fun size j => size * p.remoteSize[j]!)
    (p.remoteSize[0]! * p.unit)

/-- `metadata_size`. -/
def packMetadataSize (nObjs : Nat) : UInt64 := UInt64.ofNat nObjs * (8 + 4 * 2 + 8)

/-- The loop that computes `data_size` and `total_obj_data_size`. -/
def packSizes (access : Access) (pkgs : List StartAllPkg) : UInt64 × UInt64 :=
  pkgs.foldl (fun sizes p =>
    if access = .write then
      (sizes.1 + (8 * UInt64.ofNat p.remoteRegionNdim * 3 + objDataSize p), sizes.2)
    else
      (sizes.1 + 8 * UInt64.ofNat p.remoteRegionNdim * 3, sizes.2 + objDataSize p)) (0, 0)

/-- `total_buf_size`. -/
def totalBufSize (access : Access) (pkgs : List StartAllPkg) : UInt64 :=
  let metadataSize := packMetadataSize pkgs.length
  let (dataSize, totalObjDataSize) := packSizes access pkgs
  if access = .write then metadataSize + dataSize
  else if metadataSize + dataSize < totalObjDataSize then totalObjDataSize
  else metadataSize + dataSize

/-- `MEMCPY_INC`: the buffer and the bytes written to it so far. -/
def memcpyInc (st : Bytes × Nat) (a : Bytes) : Bytes × Nat :=
  (memcpy st.1 st.2 a 0 a.length, st.2 + a.length)

/-- What the first loop copies for one package. -/
def packHead (p : StartAllPkg) : List Bytes :=
  [u64Bytes p.objId, intBytes p.objNdim, intBytes p.remoteRegionNdim, u64Bytes p.unit]

/-- What the second loop copies for one package. -/
def packBody (access : Access) (p : StartAllPkg) : List Bytes :=
  [u64sBytes p.remoteOffset, u64sBytes p.remoteSize, u64sBytes p.objDims] ++
    if access = .write then [slice p.buf 0 (objDataSize p).toNat] else []

/-- `read_bulk_buf`, as positions in the buffer, from `ptr2` on. -/
def readBulkBuf (ptr2 : UInt64) : List StartAllPkg → List UInt64
  | [] => []
  | p :: pkgs => ptr2 :: readBulkBuf (ptr2 + objDataSize p) pkgs

/-- What `PDC_Client_pack_all_requests` leaves: the buffer, how many bytes have
been written to it, its size, and the positions for the reply of a read. -/
structure Packed where
  bulkBuf : Bytes
  written : Nat
  totalBufSize : UInt64
  readBulkBuf : List UInt64
  deriving DecidableEq, Repr

/-- `PDC_Client_pack_all_requests`. -/
def clientPackAllRequests (junk : Nat → UInt8) (access : Access) (pkgs : List StartAllPkg) :
    Packed :=
  let size := totalBufSize access pkgs
  let packed := (pkgs.flatMap packHead ++ pkgs.flatMap (packBody access)).foldl memcpyInc
    (malloc junk size.toNat, 0)
  { bulkBuf := packed.1
    written := packed.2
    totalBufSize := size
    readBulkBuf := if access = .read then readBulkBuf 0 pkgs else [] }

end Pdc
