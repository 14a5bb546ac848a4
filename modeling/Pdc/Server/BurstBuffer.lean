import Pdc.Server.DataIo

/-!
# Copies in the burst buffer (`pdc_server_data.c`, `pdc_server_metadata.c`)

When a server's cache in memory is full, the data of a read is appended to a
file in the burst buffer and the segment is closed. The place is reported with
`PDC_UPDATE_CACHE`, which sets the second location an entry of a storage list
has. `PDC_copy_all_storage_meta` gives each region with one location: that of
the copy, if there ever was one.

The file is open from the first copy on. Its path is not empty, so that the
report is not refused, and the metadata of the object is on this server.
-/

namespace Pdc

open Lib

/-- `"%s/PDCcacheBB.%d"`. -/
def cacheFilePath (bbDataPath : Bytes) (rank : Nat) : Bytes :=
  bbDataPath ++ [47] ++ pdcCacheBB ++ [46] ++ decimal rank

/-- A region with the place of its copy. -/
def IoRegion.copiedTo (elt : IoRegion) (path : Bytes) (offset : Nat) : IoRegion :=
  { elt with storageLocation := path, offset, cacheLocation := path, cacheOffset := offset }

/-- `PDC_Server_cache_region_to_BB`. -/
def cacheRegionToBB (path : Bytes) (s : FileServer) (region : IoRegion) :
    FileServer × IoRegion × Perr :=
  let content := (s.files path).getD []
  let files := Function.update s.files path
    (some (content ++ region.buf.take region.dataSize.toNat))
  let region := region.copiedTo path content.length
  match updateLocalRegionStorageLoc s.lists region.entry region.objId .cache with
  | (lists, .fail) => ({ s with files, lists }, region, .fail)
  | (lists, .succeed) =>
    ({ s with files, lists }, { region.closeShm with isDataReady := 0, isIoDone := false },
      .succeed)

/-- `region_storage_meta_t`. -/
structure RegionStorageMeta where
  objId : UInt64
  regionTransfer : RegionInfoTransfer
  storageLocation : Bytes
  offset : Nat
  size : UInt64

/-- `PDC_region_list_t_to_transfer`, of a region that is zero behind its dimensions. -/
def regionListToTransfer (r : RegionInfo) : RegionInfoTransfer where
  ndim := r.ndim
  start0 := r.offset.getD 0 0
  start1 := r.offset.getD 1 0
  start2 := r.offset.getD 2 0
  start3 := r.offset.getD 3 0
  count0 := r.size.getD 0 0
  count1 := r.size.getD 1 0
  count2 := r.size.getD 2 0
  count3 := r.size.getD 3 0

/-- `"PDCcache"`. -/
def pdcCache : Bytes := [80, 68, 67, 99, 97, 99, 104, 101]

/-- Where the region of an entry is said to be. -/
def StorageEntry.available (e : StorageEntry) : Bytes × Nat :=
  if strstr e.cacheLocation pdcCache then (e.cacheLocation, e.cacheOffset)
  else (e.storageLocation, e.offset)

/-- The storage regions of an object, as they are sent to a client. -/
def storageMetaOf (objId : UInt64) (regions : List StorageEntry) : List RegionStorageMeta :=
  regions.map fun e =>
    { objId
      regionTransfer := regionListToTransfer e.region
      storageLocation := e.available.1
      offset := e.available.2
      size := e.dataSize }

/-- `PDC_copy_all_storage_meta`. -/
def copyAllStorageMeta (lists : StorageLists) (objId : UInt64) : Option (List RegionStorageMeta) :=
  (lists objId).map (storageMetaOf objId)

end Pdc
