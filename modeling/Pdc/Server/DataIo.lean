import Pdc.Server.FileIo

/-!
# Requests of the clients of a node (`pdc_server_data.c`)

A client does not read or write by itself. It sends a request for a region to
the server of its node, which keeps it in a list for the object until it has
got the requests of all clients, and then goes through all lists at once. The
lists are kept afterwards. A write that has been made is not made again, and a
read that has been made is a cache: another request for its region is not added,
and its data is read anew only as long as the share of the cache that the
clients asked for has not been used up.

The client asks later whether its request is done (`readCheck`, `writeCheck`).
For that the request is looked for with `region_list_cmp`, which compares the
starts of two regions, for sorting.

The segment a client writes from is part of its request, and the client leaves
it alone until the write is done; closing segments does not fail. The path of
an object's container is shorter than the buffers for it, and clients of one
object agree on its number of dimensions, so that `DL_SORT` is by client id.
-/

namespace Pdc

open Lib

/-! ## Paths -/

/-- `%d` of a natural number. -/
def decimal (n : Nat) : Bytes := (Nat.toDigits 10 n).map fun c => c.toNat.toUInt8

/-- `"%.200s/pdc_data/cont_%" PRIu64`. -/
def containerPath (dataPath : Bytes) (contId : UInt64) : Bytes :=
  dataPath.take 200 ++ [47, 112, 100, 99, 95, 100, 97, 116, 97, 47, 99, 111, 110, 116, 95] ++
    decimal contId.toNat

/-- `"%.200s/server%d/s%04d.bin"`. -/
def serverFile (rank : Nat) (path : Bytes) : Bytes :=
  path.take 200 ++ [47, 115, 101, 114, 118, 101, 114] ++ decimal rank ++ [47, 115] ++
    (decimal rank).leftpad 4 48 ++ [46, 98, 105, 110]

/-- What a server is started with: its rank, `write_to_bb_percentage_g`, and the
directories for data and for the burst buffer. -/
structure IoConfig where
  rank : Nat
  writeToBBPercentage : Nat
  dataPath : Bytes
  bbDataPath : Option Bytes

/-! ## Requests -/

/-- `data_server_io_info_t`, with the data in the client's segment for a write. -/
structure IoInfo where
  ioType : Access
  clientId : UInt32 := 0
  nclient : Nat
  nbufferRequest : Nat
  cachePercentage : Nat := 0
  contId : UInt64 := 0
  objId : UInt64
  region : RegionInfoTransfer
  shm : Bytes := []
  one_le_ndim : 1 ≤ region.ndim
  ndim_le_four : region.ndim ≤ 4

/-- The region that `data_server_read_cb` and `data_server_write_cb` make of a message. -/
def IoInfo.request (info : IoInfo) : IoRegion where
  objId := info.objId
  region := (regionTransferToList info.region RegionList.zero).info
  accessType := info.ioType
  clientId := info.clientId
  buf := info.shm
  one_le_ndim := by
    rw [info_regionTransferToList info.one_le_ndim info.ndim_le_four]
    exact info.one_le_ndim
  ndim_le_four := by
    rw [info_regionTransferToList info.one_le_ndim info.ndim_le_four]
    exact info.ndim_le_four

/-- `pdc_data_server_io_list_t`: the requests for one object. -/
structure IoList where
  objId : UInt64
  total : Nat
  path : Bytes := []
  bbPath : Bytes := []
  regions : List IoRegion := []

/-- A list for an object without one. -/
def IoConfig.newList (cfg : IoConfig) (info : IoInfo) : IoList where
  objId := info.objId
  total := info.nclient
  path := if info.ioType = .write then containerPath cfg.dataPath info.contId else []
  bbPath :=
    match info.ioType, cfg.bbDataPath with
    | .write, some path => containerPath path info.contId
    | _, _ => []

/-- A request is put into the list of its object: a write replaces those for the same
region, a read is not added when there is one. -/
def IoList.add (info : IoInfo) (list : IoList) : IoList :=
  let same := fun elt : IoRegion => isSameRegionList info.request.region elt.region
  if info.ioType = .read then
    if list.regions.any same then list
    else { list with regions := list.regions ++ [info.request] }
  else { list with regions := (list.regions.filter fun elt => !same elt) ++ [info.request] }

/-- The requests of one kind, and how many there are and have to be before they are gone
through. -/
structure IoQueue where
  lists : List IoList := []
  total : Nat := 0
  num : Nat := 0

/-- A request is received. -/
def IoQueue.receive (cfg : IoConfig) (q : IoQueue) (info : IoInfo) : IoQueue where
  lists :=
    match modifyFirst (fun list => decide (info.objId = list.objId)) (IoList.add info) q.lists with
    | some lists => lists
    | none => q.lists ++ [(cfg.newList info).add info]
  total := if q.total = 0 then info.nbufferRequest * info.nclient else q.total
  num := q.num + 1

/-! ## Writing -/

/-- `region_list_cmp_by_client_id`. -/
def regionListCmpByClientId (a b : IoRegion) : Int :=
  if a.region.ndim ≠ b.region.ndim then -1
  else ((a.clientId - b.clientId).toNat : Int).bmod (2 ^ 32)

/-- Where the request at a position is written to. -/
def IoConfig.storageLocation (cfg : IoConfig) (list : IoList) (currCnt : Nat) : Bytes :=
  let writeToBBCnt := list.total * cfg.writeToBBPercentage / 100
  let toBB :=
    if cfg.rank % 2 = 0 then decide (currCnt < writeToBBCnt)
    else decide (list.total ≤ currCnt + writeToBBCnt)
  if 0 < cfg.writeToBBPercentage ∧ list.bbPath ≠ [] ∧ toBB then serverFile cfg.rank list.bbPath
  else serverFile cfg.rank list.path

def IoRegion.locatedAt (elt : IoRegion) (path : Bytes) : IoRegion :=
  { elt with storageLocation := path }

/-- The requests of a list in the order they are written, with their files. `DL_SORT` is
stable, as this sort is. -/
def IoConfig.located (cfg : IoConfig) (list : IoList) : List IoRegion :=
  (list.regions.insertionSort fun a b => regionListCmpByClientId a b ≤ 0).mapIdx
    fun i elt => elt.locatedAt (cfg.storageLocation list i)

def IoRegion.withDataSize (elt : IoRegion) : IoRegion := { elt with dataSize := elt.shmSize }

/-- The clients' segments are mapped. -/
def openClientShm : List IoRegion → List IoRegion × Perr
  | [] => ([], .succeed)
  | elt :: rest =>
    if elt.isIoDone then
      let r := openClientShm rest
      (elt :: r.1, r.2)
    else if elt.shmSize = 0 then (elt.withDataSize :: rest, .fail)
    else
      let r := openClientShm rest
      (elt.withDataSize :: r.1, r.2)

/-- `PDC_Server_close_shm`. -/
def IoRegion.closeShm (elt : IoRegion) : IoRegion :=
  if elt.isShmClosed then elt else { elt with buf := [], shmAddr := none, isShmClosed := true }

/-- The segments of the writes that are done are closed, which sets `ret_value`. -/
def closeDone (regions : List IoRegion) (ret : Perr) : List IoRegion × Perr :=
  (regions.map fun elt => if elt.isIoDone then elt.closeShm else elt,
    if regions.any IoRegion.isIoDone then .succeed else ret)

/-- `PDC_Server_data_write_from_shm`. -/
def dataWriteFromShm (s : FileServer) (regions : List IoRegion) :
    Option (FileServer × List IoRegion × Perr) :=
  match openClientShm regions with
  | (regions, .fail) => some (s, closeDone regions .fail)
  | (regions, .succeed) =>
    match serverPosixOneFileIo s regions with
    | none => none
    | some (s, regions, ret) => some (s, closeDone regions ret)

def IoList.withRegions (list : IoList) (regions : List IoRegion) : IoList := { list with regions }

/-- All lists are written, up to the first that fails. -/
def writeLists (cfg : IoConfig) (s : FileServer) :
    List IoList → Option (FileServer × List IoList × Perr)
  | [] => some (s, [], .succeed)
  | list :: rest =>
    match dataWriteFromShm s (cfg.located list) with
    | none => none
    | some (s, regions, .fail) => some (s, list.withRegions regions :: rest, .fail)
    | some (s, regions, .succeed) =>
      match writeLists cfg s rest with
      | none => none
      | some (s, rest, ret) => some (s, list.withRegions regions :: rest, ret)

/-! ## Reading -/

/-- All lists are read, up to the first that fails. With a percentage of 100 a list in
which everything is cached is left out. -/
def readLists (cachePercentage : Nat) (s : FileServer) :
    List IoList → Option (FileServer × List IoList × Perr)
  | [] => some (s, [], .succeed)
  | list :: rest =>
    if cachePercentage = 100 ∧ list.regions.all IoRegion.isIoDone then
      match readLists cachePercentage s rest with
      | none => none
      | some (s, rest, ret) => some (s, list :: rest, ret)
    else
      match serverPosixOneFileIo s list.regions with
      | none => none
      | some (s, regions, .fail) => some (s, list.withRegions regions :: rest, .fail)
      | some (s, regions, .succeed) =>
        match readLists cachePercentage s rest with
        | none => none
        | some (s, rest, ret) => some (s, list.withRegions regions :: rest, ret)

/-! ## The server -/

/-- A data server with the requests of its clients. -/
structure IoServer where
  fs : FileServer
  writes : IoQueue := {}
  reads : IoQueue := {}

/-- The queue after its lists have been gone through. -/
def IoQueue.finish (q : IoQueue) (lists : List IoList) : Perr → IoQueue
  | .succeed => { lists }
  | .fail => { q with lists }

/-- All requests to write have been received. -/
def IoServer.startWriting (cfg : IoConfig) (s : IoServer) : Option IoServer :=
  match writeLists cfg s.fs s.writes.lists with
  | none => none
  | some (fs, lists, ret) => some { s with fs, writes := s.writes.finish lists ret }

/-- The counters for a batch of reads. -/
def FileServer.startCache (s : FileServer) (total : Nat) : FileServer :=
  { s with currentReadFromCache := 0, totalReadFromCache := total }

/-- All requests to read have been received; the percentage is that of the last one. -/
def IoServer.startReading (s : IoServer) (cachePercentage : Nat) : Option IoServer :=
  match readLists cachePercentage (s.fs.startCache (s.reads.total * cachePercentage / 100))
      s.reads.lists with
  | none => none
  | some (fs, lists, ret) => some { s with fs, reads := s.reads.finish lists ret }

/-- `PDC_Server_data_io_via_shm`. -/
def dataIoViaShm (cfg : IoConfig) (s : IoServer) (info : IoInfo) : Option IoServer :=
  match info.ioType with
  | .na => some s
  | .write =>
    let s := { s with writes := s.writes.receive cfg info }
    if s.writes.total ≤ s.writes.num ∧ s.writes.total ≠ 0 then s.startWriting cfg else some s
  | .read =>
    let s := { s with reads := s.reads.receive cfg info }
    if s.reads.num = s.reads.total ∧ s.reads.total ≠ 0 then s.startReading info.cachePercentage
    else some s

/-! ## Checks -/

/-- The first difference of the starts of two regions, as an `int`. -/
def startsCmp : List UInt64 → List UInt64 → Int
  | a :: as, b :: bs =>
    let tmp := a - b
    if tmp ≠ 0 then (tmp.toNat : Int).bmod (2 ^ 32) else startsCmp as bs
  | _, _ => 0

/-- `region_list_cmp`. -/
def regionListCmp (a b : RegionInfo) : Int :=
  if a.ndim ≠ b.ndim then -1 else startsCmp a.offset b.offset

/-- The request a check speaks about. -/
def findRequest (lists : List IoList) (objId : UInt64) (target : RegionInfo) : Option IoRegion :=
  match lists.find? fun list => objId = list.objId with
  | none => none
  | some list => list.regions.find? fun elt => regionListCmp elt.region target = 0

/-- `server_read_check_out_t`. The address is set when the data is ready. -/
structure ReadCheckOut where
  ret : Int
  shmAddr : Option (Option Nat) := none
  isCacheToBB : Bool := false
  deriving DecidableEq

/-- `PDC_Server_read_check`, `isCacheFull` being whether the cache in memory exceeds its
limit. -/
def readCheck (isCacheFull : Bool) (lists : List IoList) (objId : UInt64)
    (region : RegionInfoTransfer) : ReadCheckOut :=
  match findRequest lists objId (regionTransferToList region RegionList.zero).info with
  | none => { ret := -1 }
  | some elt =>
    if elt.isDataReady = 1 then
      { ret := elt.isDataReady
        shmAddr := some elt.shmAddr
        isCacheToBB := isCacheFull && !strstr elt.cacheLocation pdcCacheBB }
    else { ret := elt.isDataReady }

/-- `PDC_Server_write_check`: `out->ret`. -/
def writeCheck (lists : List IoList) (objId : UInt64) (region : RegionInfoTransfer) : Int :=
  match findRequest lists objId (regionTransferToList region RegionList.zero).info with
  | none => -1
  | some elt => elt.isDataReady

end Pdc
