import Pdc.Lib.Codec

/-!
# Reading objects by their names (`pdc_client_connect.c`, `pdc_server_data.c`)

The server that has read the objects sends one message with the names of the
segments of shared memory the data is in, each with the zero byte at its end,
and then the sizes of the data. The client looks for the names in the message,
with a loop whose index it also moves by itself, and copies the segments. The
request the client has kept meanwhile has a pointer to the caller's array for
the sizes.

A position in the message is a natural number, and the size of the message is
passed on as an `int`. A segment is mapped with the size that was sent for it;
its name is removed after it has been read.
-/

namespace Pdc

open Lib

/-- A region of the list of completed ones. -/
structure CompletedRegion where
  shmAddr : Bytes
  dataSize : UInt64
  deriving DecidableEq, Repr

def addrBytes (rs : List CompletedRegion) : Bytes := rs.flatMap fun r => r.shmAddr ++ [0]

/-- What `PDC_Server_notify_client_multi_io_complete` sends. -/
def notifyMessage (rs : List CompletedRegion) : Bytes :=
  addrBytes rs ++ u64sBytes (rs.map CompletedRegion.dataSize)

/-- The string at a position of the message. -/
def shmString (msg : Bytes) (i : Nat) : Bytes := (msg.drop i).takeWhile (· ≠ 0)

/-- The loop of `PDC_Client_query_read_complete`, from `i` on: the strings it finds, and
where it ends. It moves on in each round, so that `size` rounds are enough. -/
def scanAddrs (msg : Bytes) (size : Int) (nShm : Nat) : Nat → Nat → List Bytes → List Bytes × Nat
  | 0, i, found => (found, i)
  | rounds + 1, i, found =>
    if (i : Int) < size - 1 then
      if i = 0 ∨ 1 < i ∧ msg[i - 1]? = some 0 then
        let found := found ++ [shmString msg i]
        let i := i + (shmString msg i).length
        if nShm ≤ found.length then (found, i) else scanAddrs msg size nShm rounds (i + 1) found
      else scanAddrs msg size nShm rounds (i + 1) found
    else (found, i)

/-- `PDC_Client_complete_read_request`: the buffers for the names and sizes, where a NULL
pointer is `none` and `unlinked` has the names that have been removed. A segment of no
bytes cannot be mapped. -/
def completeReadRequest (shm : Bytes → Option Bytes) (unlinked : List Bytes) :
    List (Option Bytes × UInt64) → List (Option Bytes)
  | [] => []
  | (addr, size) :: rest =>
    match addr with
    | none => none :: completeReadRequest shm unlinked rest
    | some a =>
      match if a ∈ unlinked then none else shm a with
      | none => none :: completeReadRequest shm unlinked rest
      | some segment =>
        if size = 0 then none :: completeReadRequest shm unlinked rest
        else some (segment.take size.toNat) :: completeReadRequest shm (a :: unlinked) rest

/-- What a call has left when it returns: the arrays of its request and those of its
caller. -/
structure NameRead where
  shmAddrArr : List (Option Bytes)
  shmSizeArr : List UInt64
  outBuf : List (Option Bytes)
  outBufSizes : List UInt64

/-- `PDC_Client_query_read_complete`. The request's `shm_size_arr` was the caller's
`out_buf_sizes`, and is set to the sizes in the message. -/
def queryReadComplete (shm : Bytes → Option Bytes) (msg : Bytes) (nShm : Nat)
    (outBufSizes : List UInt64) : NameRead :=
  let size := Int.bmod msg.length (2 ^ 32)
  let scan := scanAddrs msg size nShm size.toNat 0 []
  let shmAddrArr := (List.range nShm).map fun k => scan.1[k]?
  let shmSizeArr := u64sOf nShm (msg.drop (scan.2 + 1))
  { shmAddrArr, shmSizeArr, outBufSizes
    outBuf := completeReadRequest shm [] (shmAddrArr.zip shmSizeArr) }

/-- `PDC_Client_query_name_read_entire_obj`, for which the server has completed the
regions. -/
def queryNameReadEntireObj (shm : Bytes → Option Bytes) (rs : List CompletedRegion)
    (outBufSizes : List UInt64) : NameRead :=
  queryReadComplete shm (notifyMessage rs) rs.length outBufSizes

end Pdc
