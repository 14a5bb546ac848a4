import Pdc.Lib.Records
import Pdc.Server.Posix
import Pdc.Server.StorageMessage

/-!
# Where regions are stored (`pdc_server_data.c`, `pdc_server_metadata.c`)

The metadata of an object has a list of its storage regions, each with the file
it was written to and where in it, and with the place of a copy in the burst
buffer if one was made. The list is changed when a server reports that it has
written a region: one at a time, or a batch of reports in one message.

A report for a region that is in the list replaces its location. Otherwise the
region is added at the end. A batch does the same in a loop, in which
`update_success` is set and never cleared, and without the search when the list
was empty before the first region.
-/

namespace Pdc

open Lib

/-- A `region_list_t` of an object's storage list. -/
structure StorageEntry where
  region : RegionInfo
  dataSize : UInt64 := 0
  storageLocation : Bytes := []
  offset : Nat := 0
  cacheLocation : Bytes := []
  cacheOffset : Nat := 0
  hist : Option Histogram := none
  one_le_ndim : 1 ≤ region.ndim
  ndim_le_four : region.ndim ≤ 4

/-- `update_region_storage_meta_bulk_t`. -/
structure StorageReport where
  regionTransfer : RegionInfoTransfer
  storageLocation : Bytes
  offset : Nat
  one_le_ndim : 1 ≤ regionTransfer.ndim
  ndim_le_four : regionTransfer.ndim ≤ 4

/-- The objects a server has the metadata of, with their storage lists:
`find_metadata_by_id`. -/
abbrev StorageLists := UInt64 → Option (List StorageEntry)

/-- `PDC_UPDATE_CACHE` and `PDC_UPDATE_STORAGE`. -/
inductive UpdateType where
  | cache
  | storage
  deriving DecidableEq

/-- `PDC_get_region_size`. -/
def getRegionSize (r : RegionInfo) : UInt64 := r.size.foldl (· * ·) 1

/-- A data size that is not known yet. -/
def StorageEntry.withSize (e : StorageEntry) : StorageEntry :=
  if e.dataSize = 0 then { e with dataSize := getRegionSize e.region } else e

/-- The entry of a region that is reported again. -/
def StorageEntry.relocate (type : UpdateType) (region elt : StorageEntry) : StorageEntry :=
  match type with
  | .cache =>
    { elt with cacheLocation := region.storageLocation, cacheOffset := region.offset }.withSize
  | .storage =>
    { elt with
      storageLocation := region.storageLocation
      offset := region.offset
      hist := region.hist <|> elt.hist }.withSize

/-- The change of a storage list: `PDC_region_list_t_deep_cp` does not fail on a region of
one to four dimensions. -/
def putStorageLoc (type : UpdateType) (region : StorageEntry) (list : List StorageEntry) :
    List StorageEntry :=
  match modifyFirst (fun elt => isSameRegionList elt.region region.region)
      (StorageEntry.relocate type region) list with
  | some list => list
  | none => list ++ [region.withSize]

/-- `PDC_Server_update_local_region_storage_loc`. -/
def updateLocalRegionStorageLoc (lists : StorageLists) (region : StorageEntry) (objId : UInt64)
    (type : UpdateType) : StorageLists × Perr :=
  match lists objId with
  | none => (lists, .fail)
  | some list => (Function.update lists objId (some (putStorageLoc type region list)), .succeed)

/-- The region a report is turned into. -/
def StorageReport.newRegion (b : StorageReport) : StorageEntry where
  region := (regionTransferToList b.regionTransfer RegionList.zero).info
  dataSize := getRegionSize (regionTransferToList b.regionTransfer RegionList.zero).info
  storageLocation := b.storageLocation
  offset := b.offset
  one_le_ndim := by
    rw [info_regionTransferToList b.one_le_ndim b.ndim_le_four]
    exact b.one_le_ndim
  ndim_le_four := by
    rw [info_regionTransferToList b.one_le_ndim b.ndim_le_four]
    exact b.ndim_le_four

/-- One turn of the loop over a batch: the list and `update_success`. -/
def bulkLocalStep (expressInsert : Bool) (st : List StorageEntry × Bool) (b : StorageReport) :
    List StorageEntry × Bool :=
  let newRegion := b.newRegion
  let found :=
    if expressInsert then none
    else modifyFirst (fun elt => isSameRegionList elt.region newRegion.region) (fun elt =>
        { elt with storageLocation := newRegion.storageLocation, offset := newRegion.offset }) st.1
  match found with
  | some list => (list, true)
  | none => if st.2 then st else (st.1 ++ [newRegion], st.2)

/-- The change of a storage list by a batch; `express_insert` is decided at the first
region. -/
def putStorageBatch (reports : List StorageReport) (list : List StorageEntry) : List StorageEntry :=
  (reports.foldl (bulkLocalStep list.isEmpty) (list, false)).1

/-- `PDC_Server_update_region_storage_meta_bulk_local`, on a message with an object's id
and a batch of reports. -/
def updateRegionStorageMetaBulkLocal (lists : StorageLists) (objId : UInt64)
    (reports : List StorageReport) : StorageLists × Perr :=
  match reports, lists objId with
  | [], _ => (lists, .succeed)
  | _ :: _, none => (lists, .fail)
  | _ :: _, some list =>
    (Function.update lists objId (some (putStorageBatch reports list)), .succeed)

/-- A report that reaches the server of an object's metadata. -/
inductive StorageEvent where
  | bulk (reports : List StorageReport)
  | update (region : StorageEntry)

/-- One of them is handled. -/
def storageStep (objId : UInt64) (lists : StorageLists) : StorageEvent → StorageLists
  | .bulk reports => (updateRegionStorageMetaBulkLocal lists objId reports).1
  | .update region => (updateLocalRegionStorageLoc lists region objId .storage).1

end Pdc
