import Pdc.Server.Posix
import Pdc.Utils.Region

/-!
# Storage by region (`pdc_server_data.c`)

A data server keeps an object as a list of regions it has been sent, in the
order it was sent them, and one file that holds their bytes one after the
other. A write first patches every stored region it overlaps, then appends
itself unless some stored region contains it. A read copies out of every
stored region it overlaps, in list order.

In one dimension a stored region is patched in place. In two and three there
are two ways, chosen by `data_sieving_g`: load the whole stored region, patch
the copy, store it back; or write only the overlap, in one piece when it
spans whole rows or planes of the stored region and line by line otherwise.

The definitions keep the order of the source's calls and its error exits.
Compression (`ENABLE_ZFP`) is off.
-/

namespace Pdc

open Lib

/-- A `region_list_t` of the storage list: where the region lies in the
object and where its bytes lie in the file. -/
structure StorageRegion where
  region : Region
  offset : Nat
  dataSize : Nat
  deriving DecidableEq, Repr

/-- A `data_server_region_t`: the object's file and `region_storage_head`. -/
structure DataServerRegion where
  file : File
  storage : List StorageRegion
  deriving DecidableEq, Repr

/-! ## Writing -/

/-- The one-dimensional patch of a stored region, `pos` check included. -/
def writeOverlap1D (unit : Nat) (f : File) (sr : StorageRegion) (info : Region)
    (buf : List UInt8) (ov : Region) : File × Perr :=
  let pos := (ov.off 0 - sr.region.off 0) * unit
  if pos > info.writeSize 1 unit then (f, .fail)
  else
    serverPosixWrite (f.seekSet (sr.offset + pos)) buf ((ov.off 0 - info.off 0) * unit)
      (ov.len 0 * unit)

/-- The patch with data sieving: load the region, patch it, store it back. -/
def writeOverlapSieving (junk : Nat → UInt8) (ndim unit : Nat) (f : File) (sr : StorageRegion)
    (info : Region) (buf : List UInt8) (ov : Region) : File × Perr :=
  let tmp := preadInto f (malloc junk sr.dataSize) 0 sr.dataSize sr.offset
  let tmp := memcpyOverlapSubregion ndim unit buf info tmp sr.region ov
  serverPosixWrite (f.seekSet sr.offset) tmp 0 sr.dataSize

/-- The two-dimensional patch without data sieving. -/
def writeOverlap2D (junk : Nat → UInt8) (unit : Nat) (f : File) (sr : StorageRegion)
    (info : Region) (buf : List UInt8) (ov : Region) : File × Perr :=
  if ov.off 1 = sr.region.off 1 ∧ ov.len 1 = sr.region.len 1 then
    let f := f.seekSet (sr.offset + (ov.off 0 - sr.region.off 0) * sr.region.len 1 * unit)
    if ov.off 1 = info.off 1 ∧ ov.len 1 = info.len 1 then
      -- The rows are whole rows of the request as well.
      serverPosixWrite f buf ((ov.off 0 - info.off 0) * info.len 1 * unit)
        (ov.len 0 * ov.len 1 * unit)
    else
      let tmp := memcpyOverlapSubregion 2 unit buf info
        (malloc junk (ov.len 0 * ov.len 1 * unit)) ov ov
      serverPosixWrite f tmp 0 (ov.len 0 * ov.len 1 * unit)
  else
    (List.range (ov.len 0)).foldl (fun (st : File × Perr) i =>
      match st with
      | (f, .fail) => (f, .fail)
      | (f, .succeed) =>
        serverPosixWrite (f.seekSet (sr.offset +
            ((ov.off 0 - sr.region.off 0 + i) * sr.region.len 1 + ov.off 1
              - sr.region.off 1) * unit))
          buf (((ov.off 0 - info.off 0 + i) * info.len 1 + ov.off 1 - info.off 1) * unit)
          (ov.len 1 * unit)) (f, .succeed)

/-- The three-dimensional patch without data sieving. The source does not
look at what these writes return. -/
def writeOverlap3D (junk : Nat → UInt8) (unit : Nat) (f : File) (sr : StorageRegion)
    (info : Region) (buf : List UInt8) (ov : Region) : File × Perr :=
  if ov.off 2 = sr.region.off 2 ∧ ov.len 2 = sr.region.len 2 ∧
      ov.off 1 = sr.region.off 1 ∧ ov.len 1 = sr.region.len 1 then
    let f := f.seekSet (sr.offset +
      (ov.off 0 - sr.region.off 0) * sr.region.len 1 * sr.region.len 2 * unit)
    if ov.off 2 = info.off 2 ∧ ov.len 2 = info.len 2 ∧
        ov.off 1 = info.off 1 ∧ ov.len 1 = info.len 1 then
      ((serverPosixWrite f buf ((ov.off 0 - info.off 0) * info.len 1 * info.len 2 * unit)
        (ov.len 0 * ov.len 1 * ov.len 2 * unit)).1, .succeed)
    else
      let tmp := memcpyOverlapSubregion 3 unit buf info
        (malloc junk (ov.len 0 * ov.len 1 * ov.len 2 * unit)) ov ov
      ((serverPosixWrite f tmp 0 (ov.len 0 * ov.len 1 * ov.len 2 * unit)).1, .succeed)
  else
    ((List.range (ov.len 0)).foldl (fun f i =>
      (List.range (ov.len 1)).foldl (fun f j =>
        (serverPosixWrite (f.seekSet (sr.offset +
            (((ov.off 0 - sr.region.off 0 + i) * sr.region.len 1
              + (ov.off 1 - sr.region.off 1 + j)) * sr.region.len 2 + ov.off 2
              - sr.region.off 2) * unit))
          buf
          ((((ov.off 0 - info.off 0 + i) * info.len 1 + (ov.off 1 - info.off 1 + j))
            * info.len 2 + ov.off 2 - info.off 2) * unit)
          (ov.len 2 * unit)).1) f) f, .succeed)

/-- What the write loop does with a stored region it overlaps. -/
def writeOverlap (sieving : Bool) (junk : Nat → UInt8) (ndim unit : Nat) (f : File)
    (sr : StorageRegion) (info : Region) (buf : List UInt8) (ov : Region) : File × Perr :=
  if ndim = 1 then writeOverlap1D unit f sr info buf ov
  else if sieving then writeOverlapSieving junk ndim unit f sr info buf ov
  else if ndim = 2 then writeOverlap2D junk unit f sr info buf ov
  else writeOverlap3D junk unit f sr info buf ov

/-- The loop over the stored regions: the file, `is_contained`, and the error
that ended the loop early. -/
def writeOutLoop (sieving : Bool) (junk : Nat → UInt8) (ndim unit : Nat) (info : Region)
    (buf : List UInt8) : List StorageRegion → File → Bool → File × Bool × Perr
  | [], f, isContained => (f, isContained, .succeed)
  | sr :: rest, f, isContained =>
    match regionOverlapDetect ndim info sr.region with
    | none => writeOutLoop sieving junk ndim unit info buf rest f isContained
    | some ov =>
      let isContained := isContained || detectRegionContained ndim info sr.region
      match writeOverlap sieving junk ndim unit f sr info buf ov with
      | (f, .fail) => (f, isContained, .fail)
      | (f, .succeed) => writeOutLoop sieving junk ndim unit info buf rest f isContained

/-- `PDC_Server_data_write_out`. -/
def serverDataWriteOut (sieving : Bool) (junk : Nat → UInt8) (ndim unit : Nat)
    (region : DataServerRegion) (info : Region) (buf : List UInt8) :
    DataServerRegion × Perr :=
  match writeOutLoop sieving junk ndim unit info buf region.storage region.file false with
  | (f, _, .fail) => ({ region with file := f }, .fail)
  | (f, true, .succeed) => ({ region with file := f }, .succeed)
  | (f, false, .succeed) =>
    let (f, offset) := f.seekEnd
    let writeSize := info.writeSize ndim unit
    match serverPosixWrite f buf 0 writeSize with
    | (f, .fail) => ({ region with file := f }, .fail)
    | (f, .succeed) =>
      ({ file := f
         storage := region.storage ++ [{ region := info, offset, dataSize := writeSize }] },
        .succeed)

/-! ## Reading -/

/-- `read_max`, one gigabyte. -/
def readMax : Nat := 1 * 1024 * 1024 * 1024

/-- The loop that loads a large region a gigabyte at a time. -/
def readLarge (f : File) : Nat → List UInt8 → (bufOff regOff leftover readSize : Nat) → List UInt8
  | 0, tmp, _, _, _, _ => tmp
  | fuel + 1, tmp, bufOff, regOff, leftover, readSize =>
    if leftover > 0 then
      let tmp := preadInto f tmp bufOff readSize regOff
      let leftover := leftover - readSize
      readLarge f fuel tmp (bufOff + readSize) (regOff + readSize) leftover
        (if leftover < readSize then leftover else readSize)
    else tmp

/-- The read of a stored region with data sieving. -/
def readOverlapSieving (junk : Nat → UInt8) (ndim unit : Nat) (f : File) (sr : StorageRegion)
    (info : Region) (buf : List UInt8) (ov : Region) : List UInt8 :=
  let tmp := malloc junk sr.dataSize
  let tmp :=
    if sr.dataSize > readMax then
      readLarge f (sr.dataSize / readMax + 1) tmp 0 sr.offset sr.dataSize readMax
    else preadInto f tmp 0 sr.dataSize sr.offset
  memcpyOverlapSubregion ndim unit tmp sr.region buf info ov

/-- The two-dimensional read without data sieving. -/
def readOverlap2D (junk : Nat → UInt8) (unit : Nat) (f : File) (sr : StorageRegion)
    (info : Region) (buf : List UInt8) (ov : Region) : List UInt8 :=
  if ov.off 1 = sr.region.off 1 ∧ ov.len 1 = sr.region.len 1 then
    let pos := (ov.off 0 - sr.region.off 0) * sr.region.len 1 * unit
    if ov.off 1 = info.off 1 ∧ ov.len 1 = info.len 1 then
      preadInto f buf ((ov.off 0 - info.off 0) * info.len 1 * unit)
        (ov.len 0 * ov.len 1 * unit) (sr.offset + pos)
    else
      let tmp := preadInto f (malloc junk (ov.len 0 * ov.len 1 * unit)) 0
        (ov.len 0 * ov.len 1 * unit) (sr.offset + pos)
      memcpyOverlapSubregion 2 unit tmp ov buf info ov
  else
    (List.range (ov.len 0)).foldl (fun buf i =>
      let pos := ((ov.off 0 - sr.region.off 0 + i) * sr.region.len 1 + ov.off 1
        - sr.region.off 1) * unit
      preadInto f buf (((ov.off 0 - info.off 0 + i) * info.len 1 + ov.off 1 - info.off 1) * unit)
        (ov.len 1 * unit) (sr.offset + pos)) buf

/-- The three-dimensional read without data sieving. -/
def readOverlap3D (junk : Nat → UInt8) (unit : Nat) (f : File) (sr : StorageRegion)
    (info : Region) (buf : List UInt8) (ov : Region) : List UInt8 :=
  if ov.off 2 = sr.region.off 2 ∧ ov.len 2 = sr.region.len 2 ∧
      ov.off 1 = sr.region.off 1 ∧ ov.len 1 = sr.region.len 1 then
    let pos := (ov.off 0 - sr.region.off 0) * sr.region.len 1 * sr.region.len 2 * unit
    if ov.off 2 = info.off 2 ∧ ov.len 2 = info.len 2 ∧
        ov.off 1 = info.off 1 ∧ ov.len 1 = info.len 1 then
      preadInto f buf ((ov.off 0 - info.off 0) * info.len 1 * info.len 2 * unit)
        (ov.len 0 * ov.len 1 * ov.len 2 * unit) (sr.offset + pos)
    else
      let tmp := preadInto f (malloc junk (ov.len 0 * ov.len 1 * ov.len 2 * unit)) 0
        (ov.len 0 * ov.len 1 * ov.len 2 * unit) (sr.offset + pos)
      memcpyOverlapSubregion 3 unit tmp ov buf info ov
  else
    (List.range (ov.len 0)).foldl (fun buf i =>
      (List.range (ov.len 1)).foldl (fun buf j =>
        let pos := (((ov.off 0 - sr.region.off 0 + i) * sr.region.len 1
          + (ov.off 1 - sr.region.off 1 + j)) * sr.region.len 2 + ov.off 2
          - sr.region.off 2) * unit
        preadInto f buf ((((ov.off 0 - info.off 0 + i) * info.len 1 + (ov.off 1 - info.off 1 + j))
            * info.len 2 + ov.off 2 - info.off 2) * unit)
          (ov.len 2 * unit) (sr.offset + pos)) buf) buf

/-- What the read loop does with a stored region it overlaps. -/
def readOverlap (sieving : Bool) (junk : Nat → UInt8) (ndim unit : Nat) (f : File)
    (sr : StorageRegion) (info : Region) (buf : List UInt8) (ov : Region) : List UInt8 :=
  if ndim = 1 then
    let pos := (ov.off 0 - sr.region.off 0) * unit
    preadInto f buf ((ov.off 0 - info.off 0) * unit) (ov.len 0 * unit) (sr.offset + pos)
  else if sieving then readOverlapSieving junk ndim unit f sr info buf ov
  else if ndim = 2 then readOverlap2D junk unit f sr info buf ov
  else readOverlap3D junk unit f sr info buf ov

/-- The body of the read loop. -/
def readFromRegion (sieving : Bool) (junk : Nat → UInt8) (ndim unit : Nat) (f : File)
    (info : Region) (buf : List UInt8) (sr : StorageRegion) : List UInt8 :=
  match regionOverlapDetect ndim info sr.region with
  | none => buf
  | some ov => readOverlap sieving junk ndim unit f sr info buf ov

/-- `PDC_Server_data_read_from`: the caller's buffer after the loop. -/
def serverDataReadFrom (sieving : Bool) (junk : Nat → UInt8) (ndim unit : Nat)
    (region : DataServerRegion) (info : Region) (buf : List UInt8) : List UInt8 :=
  region.storage.foldl (readFromRegion sieving junk ndim unit region.file info) buf

end Pdc
