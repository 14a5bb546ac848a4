import Pdc.Lib.Copies
import Pdc.Server.Data

/-!
# The server region cache (`pdc_server_region_cache.c`)

The cache holds, per object, a list of regions with their data, in the order
they were registered. A write patches the cached regions it overlaps and
stops at the first that contains it; if none does, the write is registered as
a region of its own. A read is served from the first cached region that
contains it, and otherwise from storage after the object has been flushed.

A flush writes the object's regions to storage in list order. For a
one-dimensional object they are first sorted by offset and merged into
disjoint runs by `merge_requests`, which lays the merged bytes out itself.

Each call holds `pdc_obj_cache_list_mutex` while it works, so calls are the
steps of the model; the recycling thread only ever calls
`PDC_region_cache_flush_by_pointer`. Timestamps and log output are left out,
and `PDC_SERVER_CACHE_NO_FLUSH` is not set.
-/

namespace Pdc

open Lib

/-- The arguments of `PDC_Server_transfer_request_io` between the object id
and the buffer, and the unit. -/
structure IoRequest where
  objNdim : Nat
  objDims : List UInt64
  ndim : Nat
  region : Region
  unit : Nat
  deriving DecidableEq, Repr

/-- The storage below the cache, `PDC_Server_transfer_request_io` with
`is_write` 1 and 0, by object id. -/
abbrev StorageIO := KeyedStore UInt64 IoRequest (List UInt8)

/-- `PDC_Server_transfer_request_io` with `io_by_region_g` set: each object
has its `data_server_region_t`. -/
def regionStore (sieving : Bool) (junk : Nat → UInt8) : StorageIO where
  State := UInt64 → DataServerRegion
  write s objId req buf := Function.update s objId
    (serverDataWriteOut sieving junk req.ndim req.unit (s objId) req.region buf).1
  read s objId req buf :=
    serverDataReadFrom sieving junk req.ndim req.unit (s objId) req.region buf

/-- A `struct pdc_region_info` of the cache. -/
structure CacheRegion where
  ndim : Nat
  region : Region
  buf : List UInt8
  unit : Nat
  deriving DecidableEq, Repr

/-- A `pdc_obj_cache`. -/
structure ObjCache where
  objId : UInt64
  ndim : Nat
  dims : List UInt64
  regionCache : List CacheRegion
  deriving DecidableEq, Repr

/-- The cache's globals, and the storage it writes to. -/
structure CacheState (io : StorageIO) where
  objCacheList : List ObjCache
  totalCacheSize : UInt64
  storage : io.State

/-! ## Looking an object up -/

/-- The lookup of `PDC_region_cache_register` and `PDC_region_cache_flush`,
which stops at the first match. -/
def findObj (objs : List ObjCache) (objId : UInt64) : Option ObjCache :=
  objs.find? fun obj => obj.objId == objId

/-- The lookup of `PDC_transfer_request_data_write_out` and
`PDC_region_fetch`, which runs through the whole list. -/
def findLastObj (objs : List ObjCache) (objId : UInt64) : Option ObjCache :=
  objs.foldl (fun found obj => if obj.objId == objId then some obj else found) none

/-- The list with an object's regions replaced. -/
def setRegions (objs : List ObjCache) (objId : UInt64) (regions : List CacheRegion) :
    List ObjCache :=
  objs.map fun obj => if obj.objId == objId then { obj with regionCache := regions } else obj

/-! ## Merging -/

/-- A merged request: `new_start[i]`, `new_end[i]` and the bytes at
`new_buf[i]`. -/
structure MergedRun where
  start : UInt64
  stop : UInt64
  buf : List UInt8
  deriving DecidableEq, Repr

/-- The request that opens a run. -/
def MergedRun.ofRegion (unit : Nat) (rc : CacheRegion) : MergedRun where
  start := rc.region.offset[0]!
  stop := rc.region.offset[0]! + rc.region.size[0]!
  buf := slice rc.buf 0
    ((rc.region.offset[0]! + rc.region.size[0]! - rc.region.offset[0]!).toNat * unit)

/-- The second loop of `merge_requests`. The bytes of a run are laid out as
they are met, so extending the run that is open appends to its bytes. The
part of a request past the end of the run is taken `new_end - start` bytes
into the request's buffer. -/
def mergeLoop (unit : Nat) : MergedRun → List CacheRegion → List MergedRun
  | run, [] => [run]
  | run, rc :: rest =>
    let start := rc.region.offset[0]!
    let stop := start + rc.region.size[0]!
    if run.stop < start then run :: mergeLoop unit (MergedRun.ofRegion unit rc) rest
    else if stop > run.stop then
      mergeLoop unit
        { run with
          stop := stop
          buf := run.buf ++
            slice rc.buf (run.stop - start).toNat ((stop - run.stop).toNat * unit) } rest
    else mergeLoop unit run rest

/-- `merge_requests`, on requests sorted by their start. -/
def mergeRequests (unit : Nat) : List CacheRegion → List MergedRun
  | [] => []
  | rc :: rest => mergeLoop unit (MergedRun.ofRegion unit rc) rest

/-- What `qsort` with `sort_by_offset` promises. It need not be stable. -/
structure OffsetSort where
  sort : List CacheRegion → List CacheRegion
  perm : ∀ regions, (sort regions).Perm regions
  sorted : ∀ regions,
    (sort regions).Pairwise fun a b => a.region.offset[0]! ≤ b.region.offset[0]!

/-- The merged requests written over the first regions of the list; the
other regions are freed. -/
def mergedRegions (qsort : OffsetSort) (regions : List CacheRegion) : List CacheRegion :=
  match regions with
  | [] => []
  | first :: _ =>
    List.zipWith (fun rc run => { rc with
        region := { offset := [run.start], size := [run.stop - run.start] }, buf := run.buf })
      regions (mergeRequests first.unit (qsort.sort regions))

/-! ## Flushing -/

/-- One region of the flush loop: the write to storage, and
`total_cache_size`. -/
def flushRegion (io : StorageIO) (obj : ObjCache) (st : io.State × UInt64) (rc : CacheRegion) :
    io.State × UInt64 :=
  (io.write st.1 obj.objId ⟨obj.ndim, obj.dims, rc.ndim, rc.region, rc.unit⟩ rc.buf,
    st.2 - UInt64.ofNat (rc.region.writeSize obj.ndim rc.unit))

/-- `PDC_region_cache_flush_by_pointer`. The caller's object is left without
regions. -/
def regionCacheFlushByPointer (qsort : OffsetSort) (io : StorageIO) (obj : ObjCache)
    (st : io.State × UInt64) : io.State × UInt64 :=
  let regions := if obj.ndim = 1 then mergedRegions qsort obj.regionCache else obj.regionCache
  regions.foldl (flushRegion io obj) st

/-- `PDC_region_cache_flush`, and one round of the recycling thread. -/
def regionCacheFlush (qsort : OffsetSort) {io : StorageIO} (s : CacheState io)
    (objId : UInt64) : CacheState io :=
  match findObj s.objCacheList objId with
  | none => s
  | some obj =>
    let st := regionCacheFlushByPointer qsort io obj (s.storage, s.totalCacheSize)
    { objCacheList := setRegions s.objCacheList objId []
      totalCacheSize := st.2
      storage := st.1 }

/-- `PDC_region_cache_flush_all`. -/
def regionCacheFlushAll (qsort : OffsetSort) {io : StorageIO} (s : CacheState io) : CacheState io :=
  let st := s.objCacheList.foldl (fun st obj => regionCacheFlushByPointer qsort io obj st)
    (s.storage, s.totalCacheSize)
  { objCacheList := [], totalCacheSize := st.2, storage := st.1 }

/-! ## Writing and reading -/

/-- The list with a region appended to an object's regions, after the object
itself if it was not there. -/
def appendRegion (objs : List ObjCache) (objId : UInt64) (req : IoRequest) (rc : CacheRegion) :
    List ObjCache :=
  match findObj objs objId with
  | none => objs ++ [{ objId, ndim := req.objNdim, dims := req.objDims, regionCache := [rc] }]
  | some obj => setRegions objs objId (obj.regionCache ++ [rc])

/-- `PDC_region_cache_register`. -/
def regionCacheRegister (maximumCacheSize : UInt64) (qsort : OffsetSort) {io : StorageIO}
    (s : CacheState io) (objId : UInt64) (req : IoRequest) (buf : List UInt8)
    (bufSize : Nat) : CacheState io × Perr :=
  if req.objNdim ≠ req.ndim ∧ req.objNdim > 0 then (s, .fail)
  else
    let rc : CacheRegion :=
      { ndim := req.ndim, region := req.region, buf := slice buf 0 bufSize, unit := req.unit }
    let s := { s with
      objCacheList := appendRegion s.objCacheList objId req rc
      totalCacheSize := s.totalCacheSize + UInt64.ofNat bufSize }
    if s.totalCacheSize > maximumCacheSize then (regionCacheFlushAll qsort s, .succeed)
    else (s, .succeed)

/-- The loop of `PDC_transfer_request_data_write_out` over the cached
regions, with the `flag` it leaves behind. -/
def cacheWriteLoop (ndim unit : Nat) (info : Region) (buf : List UInt8) :
    List CacheRegion → List CacheRegion × Bool
  | [] => ([], false)
  | rc :: rest =>
    match regionOverlapDetect ndim info rc.region with
    | none =>
      let (rest, flag) := cacheWriteLoop ndim unit info buf rest
      (rc :: rest, flag)
    | some ov =>
      let rc' := { rc with
        buf := memcpyOverlapSubregion ndim unit buf info rc.buf rc.region ov }
      if detectRegionContained ndim info rc.region then (rc' :: rest, true)
      else
        let (rest, flag) := cacheWriteLoop ndim unit info buf rest
        (rc' :: rest, flag)

/-- `PDC_transfer_request_data_write_out`. What the registration returns is
not looked at. -/
def transferRequestDataWriteOut (maximumCacheSize : UInt64) (qsort : OffsetSort)
    {io : StorageIO} (s : CacheState io) (objId : UInt64) (req : IoRequest)
    (buf : List UInt8) : CacheState io :=
  let (s, flag) :=
    match findLastObj s.objCacheList objId with
    | none => (s, false)
    | some obj =>
      let (regions, flag) :=
        cacheWriteLoop req.ndim req.unit req.region buf obj.regionCache
      ({ s with objCacheList := setRegions s.objCacheList objId regions }, flag)
  if flag then s
  else
    (regionCacheRegister maximumCacheSize qsort s objId req buf
      (req.region.writeSize req.ndim req.unit)).1

/-- `PDC_region_fetch`, which is all of `PDC_transfer_request_data_read_from`:
the cache and the caller's buffer afterwards. -/
def regionFetch (qsort : OffsetSort) {io : StorageIO} (s : CacheState io) (objId : UInt64)
    (req : IoRequest) (buf : List UInt8) : CacheState io × List UInt8 :=
  match findLastObj s.objCacheList objId with
  | none => (s, io.read s.storage objId req buf)
  | some obj =>
    match obj.regionCache.find? fun rc =>
        detectRegionContained req.ndim req.region rc.region with
    | some rc =>
      (s, match regionOverlapDetect req.ndim req.region rc.region with
        | none => buf
        | some ov =>
          memcpyOverlapSubregion req.ndim req.unit rc.buf rc.region buf req.region ov)
    | none =>
      let st := regionCacheFlushByPointer qsort io obj (s.storage, s.totalCacheSize)
      let s := { objCacheList := setRegions s.objCacheList objId []
                 totalCacheSize := st.2
                 storage := st.1 : CacheState io }
      (s, io.read s.storage objId req buf)

end Pdc
