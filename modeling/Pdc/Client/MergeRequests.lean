import Pdc.Utils.Region
import Pdc.Server.Posix

/-!
# Merging transfer requests (`pdc_region_transfer.c`)

`PDCregion_transfer_start_all` replaces more than `PDC_MERGE_TRANSFER_MIN_COUNT`
requests by one request if they are on one object, all `PDC_REGION_LOCAL`, and
their remote regions follow one another. `PDCregion_transfer_wait_all` waits for
that one request and then looks after the reads among the original ones.

Requests are one-dimensional here: the source merges no others. What the data
servers hold of the object is `Remote`, the bytes of each element, and a
transfer is its effect on that and on the buffers. The places of a transfer and
of the copies are byte positions as the source computes them, and `none` stands
for a run that leaves a buffer or follows a null pointer.
-/

namespace Pdc

open Lib

/-- The bytes the data servers hold for each element of the object. -/
abbrev Remote := Nat → List UInt8

/-- What is used of a one-dimensional `pdc_transfer_request` besides `buf`. -/
structure LocalRequest where
  access : Access
  localObjId : UInt64
  regionPartition : RegionPartition
  localOffset : Nat
  remoteOffset : Nat
  remoteSize : Nat
  deriving DecidableEq, Repr

/-- `total_data_size`. -/
def LocalRequest.totalDataSize (unit : Nat) (r : LocalRequest) : Nat := unit * r.remoteSize

/-! ## Starting and waiting for requests one by one -/

/-- A write of `n` elements. -/
def writeElems (unit : Nat) (remote : Remote) (off n : Nat) (data : List UInt8) : Remote :=
  fun e => if off ≤ e ∧ e < off + n then elem unit data (e - off) else remote e

/-- A read of `n` elements. -/
def readElems (remote : Remote) (off n : Nat) : List UInt8 :=
  (List.range n).flatMap fun i => remote (off + i)

/-- The data of a write: for a one-dimensional local region `pack_region_buffer`
points into the user's buffer. -/
def writeData (unit : Nat) (x : LocalRequest × List UInt8) : List UInt8 :=
  slice x.2 (x.1.localOffset * unit) (x.1.remoteSize * unit)

/-- What the write requests leave at the data servers. -/
def transferWrites (unit : Nat) (remote : Remote) (xs : List (LocalRequest × List UInt8)) :
    Remote :=
  xs.foldl (fun remote x =>
    if x.1.access = .write then
      writeElems unit remote x.1.remoteOffset x.1.remoteSize (writeData unit x)
    else remote) remote

/-- What the read requests leave in the user's buffers. -/
def transferReads (unit : Nat) (remote : Remote) (xs : List (LocalRequest × List UInt8)) :
    List (List UInt8) :=
  xs.map fun x =>
    if x.1.access = .read then
      memcpy x.2 (x.1.localOffset * unit)
        (readElems remote x.1.remoteOffset x.1.remoteSize) 0 (x.1.remoteSize * unit)
    else x.2

/-- Starting and waiting for all requests, the writes first: the servers' data
and the buffers afterwards. -/
def transferAll (unit : Nat) (remote : Remote) (xs : List (LocalRequest × List UInt8)) :
    Remote × List (List UInt8) :=
  (transferWrites unit remote xs, transferReads unit (transferWrites unit remote xs) xs)

/-! ## Merging -/

/-- `PDC_MERGE_TRANSFER_MIN_COUNT`. -/
def mergeTransferMinCount : Nat := 50

/-- The checks on the requests after the first. -/
def mergeCheckRest (objId : UInt64) : LocalRequest → List LocalRequest → Bool
  | _, [] => true
  | prev, r :: rs =>
    r.regionPartition == .regionLocal && r.localObjId == objId &&
      r.remoteOffset == prev.remoteOffset + prev.remoteSize && mergeCheckRest objId r rs

/-- The checks of `merge_transfer_request_ids`: `flag` stays 0. -/
def mergeCheck : List LocalRequest → Bool
  | [] => true
  | r :: rs => r.regionPartition == .regionLocal && mergeCheckRest r.localObjId r rs

/-- A range of `n` bytes at `off` is inside a block, or is not accessed. -/
def inBlock (len off n : Nat) : Bool := n == 0 || decide (off + n ≤ len)

/-- `new_buf_size`. -/
def newBufSize (unit : Nat) (xs : List (LocalRequest × List UInt8)) : Nat :=
  (xs.map fun x => x.1.totalDataSize unit).sum

/-- The loop that copies the requests' data into `new_buf`, from `copy_off` on. -/
def mergeCopy (unit : Nat) : List (LocalRequest × List UInt8) → List UInt8 → Nat →
    Option (List UInt8)
  | [], newBuf, _ => some newBuf
  | x :: xs, newBuf, copyOff =>
    let n := x.1.totalDataSize unit
    if inBlock newBuf.length copyOff n && inBlock x.2.length 0 n then
      mergeCopy unit xs (memcpy newBuf copyOff x.2 0 n) (copyOff + n)
    else none

/-- The request `merge_transfer_request_ids` creates: both regions are as long
as the new buffer. -/
def mergedRequest (first : LocalRequest) (newBufSize : Nat) : LocalRequest :=
  { first with remoteSize := newBufSize }

/-- The loop of `PDCregion_transfer_wait_all` over the original requests, with
`is_first` and `merge_off`: every read gets a buffer of its own, `new_buf`, and
bytes of the merged request's `read_bulk_buf[0]`. -/
def redistribute (unit : Nat) (readBulkBuf : Option (List UInt8)) :
    List LocalRequest → Bool → Nat → Option (List (List UInt8))
  | [], _, _ => some []
  | r :: rs, isFirst, mergeOff =>
    if r.access = .read then
      let mergeOff := if isFirst then r.remoteOffset else mergeOff
      match readBulkBuf with
      | none => none
      | some bulk =>
        if inBlock bulk.length mergeOff (r.totalDataSize unit) then
          (redistribute unit readBulkBuf rs false mergeOff).map
            (slice bulk mergeOff (r.totalDataSize unit) :: ·)
        else none
    else redistribute unit readBulkBuf rs isFirst mergeOff

/-- Starting and waiting for the merged request. The user's buffers are not
written. -/
def transferMerged (unit : Nat) (junk : Nat → UInt8) (remote : Remote)
    (first : LocalRequest) (xs : List (LocalRequest × List UInt8)) :
    Option (Remote × List (List UInt8)) := do
  let newBuf ← mergeCopy unit xs (malloc junk (newBufSize unit xs)) first.localOffset
  let merged := mergedRequest first (newBufSize unit xs)
  if inBlock newBuf.length (merged.localOffset * unit) (merged.totalDataSize unit) then do
    let remote' := transferWrites unit remote [(merged, newBuf)]
    let readBulkBuf := if merged.access = .read then
      some (readElems remote' merged.remoteOffset merged.remoteSize) else none
    let _ ← redistribute unit readBulkBuf (xs.map Prod.fst) true 0
    some (remote', xs.map Prod.snd)
  else none

/-- `PDCregion_transfer_start_all` followed by `PDCregion_transfer_wait_all`. -/
def startWaitAll (unit : Nat) (junk : Nat → UInt8) (remote : Remote)
    (xs : List (LocalRequest × List UInt8)) : Option (Remote × List (List UInt8)) :=
  match xs with
  | [] => some (transferAll unit remote [])
  | x :: rest =>
    if xs.length > mergeTransferMinCount && mergeCheck (xs.map Prod.fst) then
      transferMerged unit junk remote x.1 (x :: rest)
    else some (transferAll unit remote xs)

end Pdc
