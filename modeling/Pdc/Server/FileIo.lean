import Pdc.Server.StorageMeta
import Pdc.Utils.Region

/-!
# Reading and writing a list of requests (`pdc_server_data.c`)

`PDC_Server_posix_one_file_io` goes through a list of requests. A write appends
its data to the file of its path and reports the place. A read first looks up
which storage regions it overlaps, then creates a segment of shared memory and
copies into it, storage region after storage region, what they have in common.

The look-up is made by the first request that has not been done, for all reads
from there on. A read that has been done before and has not been closed is
skipped, unless the counter says that there are still reads to be made in spite
of the cache.

Files are found by their path and only grow at the end. Segments of shared
memory are numbered; the source takes random numbers for their names. The
metadata of the objects is on this server, the only one, which has been built
with MPI, and no histograms are made. A lookup for more requests than the array
for them has room for has no outcome. Neither has an empty list or a failed
segment for the last request, after which the code marks a request behind the
end of the list as not ready.
-/

namespace Pdc

open Lib

/-! ## Overlaps -/

/-- The last index of a region in a dimension, as it is computed. -/
def RegionInfo.last (r : RegionInfo) (i : Nat) : UInt64 := r.offset[i]! + r.size[i]! - 1

/-- `is_overlap_1D`, `is_overlap_2D` and `is_overlap_3D` of two regions. -/
def isOverlap (ndim : Nat) (a b : RegionInfo) : Bool :=
  (List.range ndim).all fun i => isOverlap1D a.offset[i]! (a.last i) b.offset[i]! (b.last i)

/-- `PDC_is_contiguous_region_overlap`, whether it is 1. In four dimensions nothing is
compared. -/
def RegionInfo.isContiguousRegionOverlap (a b : RegionInfo) : Bool :=
  if a.ndim ≠ b.ndim ∨ a.ndim = 0 then false
  else if a.ndim ≤ 3 then isOverlap a.ndim a b
  else true

/-- `PDC_get_overlap_start_count`, for one to three dimensions: start and count of the
overlap in each of them. -/
def getOverlapStartCount (ndim : Nat) (a b : RegionInfo) : Option (List (UInt64 × UInt64)) :=
  if isOverlap ndim a b then
    some ((List.range ndim).map fun i =>
      let start := max a.offset[i]! b.offset[i]!
      (start, min (a.offset[i]! + a.size[i]!) (b.offset[i]! + b.size[i]!) - start))
  else none

/-- `fread(buf + k, 1, n, fp)` with the file at `pos`, and whether it read `n` bytes. -/
def freadInto (file : Bytes) (pos : Nat) (buf : Bytes) (k n : Nat) : Bytes × Bool :=
  (memcpy buf k file pos n, decide (n = 0 ∨ pos + n ≤ file.length))

/-- Rows of `n` bytes, each with its position in the buffer and in the file. -/
def readRows (file : Bytes) (n : Nat) : List (Nat × Nat) → Bytes → Bytes × Perr
  | [], buf => (buf, .succeed)
  | (k, pos) :: rows, buf =>
    match freadInto file pos buf k n with
    | (buf, true) => readRows file n rows buf
    | (buf, false) => (buf, .fail)

/-- `req_start` and `req_count` afterwards: a request for no bytes becomes one for the whole
storage region. -/
def RegionInfo.requested (req stor : RegionInfo) : RegionInfo where
  ndim := req.ndim
  offset := if req.ndim ≤ 3 ∧ req.size[0]! = 0 then req.offset.set 0 0 else req.offset
  size := if req.ndim ≤ 3 ∧ req.size[0]! = 0 then req.size.set 0 stor.size[0]! else req.size
  offset_length := by
    split
    · rw [List.length_set, req.offset_length]
    · exact req.offset_length
  size_length := by
    split
    · rw [List.length_set, req.size_length]
    · exact req.size_length

/-- `PDC_Server_read_overlap_regions`: the buffer afterwards. -/
def readOverlapRegions (req stor : RegionInfo) (file : Bytes) (fileOffset : Nat) (buf : Bytes) :
    Bytes × Perr :=
  let ndim := req.ndim
  if 3 < ndim ∨ ndim = 0 then (buf, .fail)
  else if req.size[0]! = 0 then readRows file stor.size[0]!.toNat [(0, fileOffset)] buf
  else
    match getOverlapStartCount ndim req stor with
    | none => (buf, .fail)
    | some overlap =>
      let count := fun i => (overlap[i]!).2
      let bufStart := fun i => (overlap[i]!).1 - req.offset[i]!
      let physical := fun i => (overlap[i]!).1 - stor.offset[i]!
      let totalBytes := (List.range ndim).foldl (fun n i => n * count i) 1
      let bufOffset := bufStart 0 + (if 2 ≤ ndim then bufStart 1 * req.size[0]! else 0) +
        (if 3 ≤ ndim then bufStart 2 * req.size[0]! * req.size[1]! else 0)
      let storageOffset := fileOffset + (physical 0 +
        (if 2 ≤ ndim then physical 1 * stor.size[0]! else 0) +
        (if 3 ≤ ndim then physical 2 * stor.size[0]! * stor.size[1]! else 0)).toNat
      let isAllSelected := (List.range ndim).all fun i =>
        decide ((overlap[i]!).1 = stor.offset[i]!) && decide (count i = stor.size[i]!)
      if ndim = 1 ∨ isAllSelected then
        readRows file totalBytes.toNat [(bufOffset.toNat, storageOffset)] buf
      else
        let rows := (List.range (if ndim = 2 then 1 else (count 2).toNat)).flatMap fun j =>
          (List.range (count 1).toNat).map fun i =>
            (bufOffset.toNat + i * req.size[0]!.toNat + j * (req.size[0]! * req.size[1]!).toNat,
              storageOffset + j * (stor.size[0]! * stor.size[1]!).toNat + i * stor.size[0]!.toNat)
        readRows file (count 0).toNat rows buf

/-! ## Requests -/

/-- A `region_list_t` of a request. -/
structure IoRegion where
  objId : UInt64
  region : RegionInfo
  accessType : Access
  clientId : UInt32 := 0
  dataSize : UInt64 := 0
  buf : Bytes := []
  shmAddr : Option Nat := none
  isShmClosed : Bool := false
  storageLocation : Bytes := []
  offset : Nat := 0
  cacheLocation : Bytes := []
  cacheOffset : Nat := 0
  overlaps : List StorageEntry := []
  isIoDone : Bool := false
  isDataReady : Int := 0
  one_le_ndim : 1 ≤ region.ndim
  ndim_le_four : region.ndim ≤ 4

/-- What `PDC_region_list_t_deep_cp` puts into an object's storage list. -/
def IoRegion.entry (elt : IoRegion) : StorageEntry where
  region := elt.region
  dataSize := elt.dataSize
  storageLocation := elt.storageLocation
  offset := elt.offset
  cacheLocation := elt.cacheLocation
  cacheOffset := elt.cacheOffset
  one_le_ndim := elt.one_le_ndim
  ndim_le_four := elt.ndim_le_four

def IoRegion.withBuf (elt : IoRegion) (buf : Bytes) : IoRegion := { elt with buf }

def IoRegion.withOverlaps (elt : IoRegion) (overlaps : List StorageEntry) : IoRegion :=
  { elt with overlaps }

/-- What a data server works on. -/
structure FileServer where
  files : Bytes → Option Bytes := fun _ => none
  lists : StorageLists
  currentReadFromCache : Nat := 0
  totalReadFromCache : Nat := 0
  nextShm : Nat := 0

/-! ## Look-ups -/

/-- `PDC_MAX_OVERLAP_REGION_NUM`. -/
def maxOverlapRegionNum : Nat := 8

/-- `PDC_SERVER_MAX_PROC_PER_NODE`. -/
def serverMaxProcPerNode : Nat := 32

/-- `PDC_Server_get_local_storage_location_of_region`. -/
def getLocalStorageLocationOfRegion (lists : StorageLists) (objId : UInt64) (region : RegionInfo) :
    Option (List StorageEntry) :=
  match lists objId with
  | none => none
  | some list =>
    let found := list.filter fun elt => RegionInfo.isContiguousRegionOverlap elt.region region
    if maxOverlapRegionNum < found.length ∨ found = [] then none else some found

/-- How a look-up ends. -/
inductive Lookup where
  | found (regions : List IoRegion)
  | fail
  | undefined

/-- The results of the look-ups are put into the requests. -/
def placeOverlaps (lists : StorageLists) : List IoRegion → Option (List IoRegion)
  | [] => some []
  | elt :: rest =>
    if elt.accessType = .read then do
      let found ← getLocalStorageLocationOfRegion lists elt.objId elt.region
      let rest ← placeOverlaps lists rest
      pure (elt.withOverlaps found :: rest)
    else do
      let rest ← placeOverlaps lists rest
      pure (elt :: rest)

/-- `PDC_Server_get_storage_location_of_region_mpi`, for the reads of a list. -/
def getStorageLocationOfRegionMpi (lists : StorageLists) (objId : UInt64)
    (regions : List IoRegion) : Lookup :=
  let reads := regions.filter fun elt => elt.accessType = .read
  if reads.any fun elt => elt.objId ≠ objId then .fail
  else if serverMaxProcPerNode < reads.length then .undefined
  else
    match placeOverlaps lists regions with
    | none => .fail
    | some regions => .found regions

/-- How a pass over the requests goes on: they have all been gone through, it has
stopped with an error, or there is no outcome. -/
inductive Pass (α : Type) where
  | done (regions : List IoRegion) (a : α)
  | stop (regions : List IoRegion) (a : α)
  | undefined

def Pass.cons {α : Type} (elt : IoRegion) : Pass α → Pass α
  | .done regions a => .done (elt :: regions) a
  | .stop regions a => .stop (elt :: regions) a
  | .undefined => .undefined

def IoRegion.notReady (elt : IoRegion) : IoRegion := { elt with isDataReady := -1 }

/-- The first pass, over the given number of requests: each read that has not been done
looks up the places for the reads from it on. -/
def lookupPass (lists : StorageLists) : Nat → List IoRegion → Pass Unit
  | 0, regions => .done regions ()
  | _ + 1, [] => .done [] ()
  | n + 1, elt :: rest =>
    if elt.accessType = .read ∧ elt.isIoDone = false then
      match getStorageLocationOfRegionMpi lists elt.objId (elt :: rest) with
      | .found (elt :: rest) => (lookupPass lists n rest).cons elt
      | .found [] => .done [] ()
      | .fail => .stop (elt.notReady :: rest) ()
      | .undefined => .undefined
    else (lookupPass lists n rest).cons elt

/-! ## The second pass -/

/-- The file that is open for reading, and `prev_path`. -/
structure OpenFile where
  fpRead : Option Bytes := none
  prevPath : Option Bytes := none

/-- The size of the segment for a read. -/
def IoRegion.shmSize (elt : IoRegion) : UInt64 :=
  if elt.dataSize = 0 then getRegionSize elt.region else elt.dataSize

/-- A request with a new segment, the memory of which is zero. -/
def IoRegion.mapped (elt : IoRegion) (addr : Nat) : IoRegion :=
  { elt with
    shmAddr := some addr
    dataSize := elt.shmSize
    buf := List.replicate elt.shmSize.toNat 0 }

/-- `PDC_create_shm_segment`, for a new segment. No memory is mapped without a byte. -/
def createShmSegment (elt : IoRegion) (addr : Nat) : Option IoRegion :=
  if elt.shmSize = 0 then none else some (elt.mapped addr)

/-- A request's region after a storage region has been read for it. -/
def IoRegion.requested (elt : IoRegion) (stor : RegionInfo) : IoRegion :=
  { elt with
    region := elt.region.requested stor
    one_le_ndim := elt.one_le_ndim
    ndim_le_four := elt.ndim_le_four }

/-- A file is opened for reading, unless it is the one of `prev_path`. -/
def OpenFile.reopen (f : OpenFile) (files : Bytes → Option Bytes) (path : Bytes) : OpenFile :=
  if f.prevPath = some path then f
  else { f with fpRead := if path ≠ [] ∧ (files path).isSome then some path else none }

/-- Reading from the storage regions that were found. -/
def readStorage (files : Bytes → Option Bytes) :
    List StorageEntry → OpenFile → IoRegion → OpenFile × IoRegion × Perr
  | [], f, elt => (f, elt, .succeed)
  | stor :: rest, f, elt =>
    let f := f.reopen files stor.storageLocation
    match f.fpRead with
    | none => (f, elt, .fail)
    | some path =>
      match readOverlapRegions elt.region stor.region ((files path).getD []) stor.offset
          elt.buf with
      | (buf, .fail) =>
        ({ f with fpRead := none }, (elt.requested stor.region).withBuf buf, .fail)
      | (buf, .succeed) =>
        readStorage files rest { f with prevPath := some stor.storageLocation }
          ((elt.requested stor.region).withBuf buf)

/-- `strstr`, whether it finds something. -/
def strstr (haystack needle : Bytes) : Bool := decide (needle <:+: haystack)

/-- `"PDCcacheBB"`. -/
def pdcCacheBB : Bytes := [80, 68, 67, 99, 97, 99, 104, 101, 66, 66]

/-- Where the second pass is: the server, the files and `ret_value`. -/
structure IoLoop where
  server : FileServer
  file : OpenFile := {}
  ret : Perr := .succeed

/-- What the second pass does with a request. -/
inductive IoStep where
  | next (st : IoLoop) (elt : IoRegion)
  | stop (st : IoLoop) (elt : IoRegion)
  | undefined

def IoRegion.ready (elt : IoRegion) : IoRegion := { elt with isDataReady := 1, isIoDone := true }

/-- A read for which there is a segment. -/
def readIntoShm (st : IoLoop) (elt : IoRegion) : IoStep :=
  if strstr elt.cacheLocation pdcCacheBB then
    let file := st.file.reopen st.server.files elt.cacheLocation
    match file.fpRead with
    | none => .undefined
    | some path =>
      match freadInto ((st.server.files path).getD []) elt.cacheOffset elt.buf 0
          elt.dataSize.toNat with
      | (buf, true) => .next { st with file } (elt.withBuf buf).ready
      | (buf, false) => .next { st with file } (elt.withBuf buf)
  else
    match readStorage st.server.files elt.overlaps st.file elt with
    | (file, elt, .fail) => .stop { st with file } elt
    | (file, elt, .succeed) => .next { st with file } elt.ready

/-- The counters when a read is made. -/
def FileServer.countRead (s : FileServer) (cached : Bool) : FileServer :=
  { s with
    currentReadFromCache :=
      if cached then s.currentReadFromCache + 1 else s.currentReadFromCache
    nextShm := s.nextShm + 1 }

/-- A read. -/
def readRequest (st : IoLoop) (elt : IoRegion) : IoStep :=
  let cached := elt.isIoDone && !elt.isShmClosed
  if cached && decide (st.server.totalReadFromCache ≤ st.server.currentReadFromCache) then
    .next st elt
  else
    let addr := st.server.nextShm
    let server := st.server.countRead cached
    match createShmSegment elt addr with
    | none => .next { st with server, ret := .fail } { elt with shmAddr := some addr }
    | some elt => readIntoShm { st with server, ret := .succeed } elt

/-- A write: the data is appended to the file of its path. -/
def writeRequest (st : IoLoop) (elt : IoRegion) : IoStep :=
  if elt.isIoDone then .next st elt
  else if elt.storageLocation = [] then .stop st elt
  else
    let content := (st.server.files elt.storageLocation).getD []
    let files := Function.update st.server.files elt.storageLocation
      (some (content ++ elt.buf.take elt.dataSize.toNat))
    let elt := { elt with offset := content.length }
    match updateLocalRegionStorageLoc st.server.lists elt.entry elt.objId .storage with
    | (lists, .fail) => .stop { st with server := { st.server with files, lists } } elt
    | (lists, .succeed) =>
      .next { st with server := { st.server with files, lists }, ret := .succeed } elt.ready

/-- The second pass over the requests. -/
def ioPass : List IoRegion → IoLoop → Pass IoLoop
  | [], st => .done [] st
  | elt :: rest, st =>
    let step :=
      match elt.accessType with
      | .read => readRequest st elt
      | .write => writeRequest st elt
      | .na => .stop st elt
    match step with
    | .next st elt => (ioPass rest st).cons elt
    | .stop st elt => .stop (elt.notReady :: rest) st
    | .undefined => .undefined

/-- `PDC_Server_posix_one_file_io`. -/
def serverPosixOneFileIo (s : FileServer) (regions : List IoRegion) :
    Option (FileServer × List IoRegion × Perr) :=
  if regions = [] then none
  else
    match lookupPass s.lists regions.length regions with
    | .undefined => none
    | .stop regions () => some (s, regions, .fail)
    | .done regions () =>
      match ioPass regions { server := s } with
      | .undefined => none
      | .stop regions st => some (st.server, regions, .fail)
      | .done regions st =>
        match st.ret with
        | .fail => none
        | .succeed => some (st.server, regions, .succeed)

/-- The server after a list of requests. -/
def FileServer.afterIo (s : FileServer) (regions : List IoRegion) : FileServer :=
  match serverPosixOneFileIo s regions with
  | some (s, _, _) => s
  | none => s

end Pdc
