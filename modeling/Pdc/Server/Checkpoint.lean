import Pdc.Lib.SortUnique
import Pdc.Server.Kvtag

/-!
# Checkpoints (`pdc_server.c`)

A server writes its two tables to a file: first the containers, then the lists
of objects, each object with its tags and its storage regions, and a storage
region with its histogram. Then follow the regions of the data server, and what
`transfer_request_metadata_query_checkpoint` made of the regions it knows, which
is taken as it is.

Structs are written as they stand in memory, with the pointers that are in them.
A restarted server reads the file in the same order. It fills the tags, regions and
histograms of an object from the file, and sets the pointers that are left to
null. For a container it reads the struct and nothing else. The key of an entry is
made anew from the name in it.

The counter for ids is set when a server starts, and not by the file.
-/

namespace Pdc

open Lib

variable {B : Type}

/-! ## Structs -/

/-- A pointer that is read from a file. -/
def Pointer.forget {α : Type} : Pointer α → Pointer α
  | .null => .null
  | .valid _ | .stale => .stale

/-- A container that is read from a file. -/
def Container.forget (cont : Container) : Container :=
  { cont with objIds := cont.objIds.forget, kvtagListHead := cont.kvtagListHead.forget }

/-- The fields of an object that are in its struct. -/
def Metadata.fields (m : Metadata) : Metadata := { m with kvtags := [], regions := [] }

/-- The fields of a region that are in its struct. -/
def StorageEntry.fields (e : StorageEntry) : StorageEntry := { e with hist := none }

/-- The layout of the structs that are written. -/
structure StructLayout where
  container : StructImage Container fun cont cont' => cont' = cont.forget
  metadata : StructImage Metadata fun m m' => m'.fields = m.fields
  region : StructImage StorageEntry fun e e' =>
    e'.fields = e.fields ∧ (e.hist = none → e'.hist = none)

/-- What is written of a `data_server_region_t`: its list of storage regions. -/
structure SavedDataServerRegion where
  objId : UInt64
  regionStorage : List StorageEntry

/-- What a checkpoint is made of. -/
structure CheckpointState (B : Type) where
  server : ObjectServer B
  dataServerRegions : List SavedDataServerRegion := []
  transferCheckpoint : Bytes := []

/-! ## The writer -/

section Writer

variable (layout : StructLayout)

def kvtagBytes (tag : Kvtag) : Bytes :=
  intBytes (tag.name.length + 1) ++ (tag.name ++ [0]) ++ u32Bytes (UInt32.ofNat tag.value.length) ++
    [tag.type.toUInt8] ++ tag.value

def regionHistBytes : Option Histogram → Bytes
  | none => intBytes 0
  | some h =>
    intBytes 1 ++ intBytes h.dtype ++ intBytes h.nbin ++ u64sBytes h.range ++ u64sBytes h.bin ++
      u64Bytes h.incr

def regionListBytes (e : StorageEntry) : Bytes := layout.region.image e ++ regionHistBytes e.hist

def metadataBytes (m : Metadata) : Bytes :=
  layout.metadata.image m ++ intBytes m.kvtags.length ++ m.kvtags.flatMap kvtagBytes ++
    intBytes m.regions.length ++ m.regions.flatMap (regionListBytes layout)

/-- `head->metadata->obj_name`, of a list that is not empty. -/
def HashEntry.firstName (entry : HashEntry B) : Bytes := (entry.metadata.headD {}).objName

def hashEntryBytes (entry : HashEntry B) : Bytes :=
  intBytes entry.nObj ++ u32Bytes (getHashByName entry.firstName) ++
    entry.metadata.flatMap (metadataBytes layout)

def containerBytes (cont : Container) : Bytes :=
  u32Bytes (getHashByName cont.contName) ++ layout.container.image cont

def dataServerRegionBytes (r : SavedDataServerRegion) : Bytes :=
  u64Bytes r.objId ++ intBytes r.regionStorage.length ++ r.regionStorage.flatMap layout.region.image

/-- `PDC_Server_checkpoint`. -/
def checkpoint (s : CheckpointState B) : Bytes :=
  intBytes s.server.containers.entries.length ++
    s.server.containers.entries.flatMap (fun pair => containerBytes layout pair.2) ++
    intBytes s.server.table.entries.length ++
    s.server.table.entries.flatMap (fun pair => hashEntryBytes layout pair.2) ++
    intBytes s.dataServerRegions.length ++
    s.dataServerRegions.flatMap (dataServerRegionBytes layout) ++
    u64Bytes (UInt64.ofNat s.transferCheckpoint.length) ++ s.transferCheckpoint

end Writer

/-! ## The reader -/

/-- `region_cmp`, whether it is not positive. -/
def regionCmp (a b : StorageEntry) : Bool :=
  let start (e : StorageEntry) := u64sBytes ((List.range 4).map fun i => e.region.offset.getD i 0)
  memcmpLe ((start a).take (8 * a.region.ndim)) ((start b).take (8 * a.region.ndim))

/-- `DL_SORT` of storage regions. -/
def sortRegions (regions : List StorageEntry) : List StorageEntry := regions.mergeSort regionCmp

section Reader

variable (layout : StructLayout) (ops : BloomOps B)

def readKvtag : Reader Kvtag := do
  let keyLen ← readInt
  let name ← readBytes keyLen.toNat
  let size ← readU32
  let type ← readNat 1
  let value ← readBytes size.toNat
  pure { name := name.takeWhile (· ≠ 0), type := (UInt8.ofNat type).toInt8, value }

/-- The histogram of a region, or the pointer that is in its struct. -/
def readRegionHist (raw : Option Histogram) : Reader (Option Histogram) := do
  let hasHist ← readInt
  if hasHist = 1 then
    let dtype ← readInt
    let nbin ← readInt
    let range ← readMany readU64 (2 * nbin.toNat)
    let bin ← readMany readU64 nbin.toNat
    let incr ← readU64
    pure (some { dtype, nbin := nbin.toNat, incr, range, bin })
  else pure raw

def readRegionList : Reader StorageEntry := do
  let e ← layout.region.read
  let hist ← readRegionHist e.hist
  pure { e with dataSize := getRegionSize e.region, hist }

def readMetadata : Reader Metadata := do
  let m ← layout.metadata.read
  let nKvtag ← readInt
  let kvtags ← readMany readKvtag nKvtag.toNat
  let nRegion ← readInt
  if nRegion < 0 then failure
  else
    let regions ← readMany (readRegionList layout) nRegion.toNat
    pure { m with kvtags, regions := sortRegions regions, allStorageRegionDistributed := 0 }

/-- An entry of the table of objects: its key and its objects. -/
def readHashEntry : Reader (UInt32 × List Metadata) := do
  let count ← readInt
  let hashKey ← readU32
  let metadata ← readMany (readMetadata layout) count.toNat
  pure (hashKey, metadata)

def readContainer : Reader (UInt32 × Container) := do
  let hashKey ← readU32
  let contEntry ← layout.container.read
  pure (hashKey, contEntry)

def readDataServerRegion : Reader SavedDataServerRegion := do
  let objId ← readU64
  let nRegion ← readInt
  let regionStorage ← readMany layout.region.read nRegion.toNat
  pure { objId, regionStorage }

/-- The table of the entries that were read. -/
def restoreTable (entries : List (UInt32 × List Metadata)) : HashTable (HashEntry B) :=
  entries.foldl (fun table p => table.insert p.1 (p.2.foldl (hashTableListInsert ops) {})) ∅

def restoreContainers (entries : List (UInt32 × Container)) : HashTable Container :=
  entries.foldl (fun table p => table.insert p.1 p.2) ∅

/-- `PDC_Server_restart`, of a server whose counter for ids has been set. -/
def restart (idSeq : UInt64) : Reader (CheckpointState B) := do
  let nCont ← readInt
  let containers ← readMany (readContainer layout) nCont.toNat
  let nEntry ← readInt
  let entries ← readMany (readHashEntry layout) nEntry.toNat
  let nObjs ← readInt
  let dataServerRegions ← readMany (readDataServerRegion layout) nObjs.toNat
  let checkpointSize ← readU64
  let transferCheckpoint ← readBytes checkpointSize.toNat
  pure
    { server :=
        { table := restoreTable ops entries
          containers := restoreContainers containers
          idSeq }
      dataServerRegions
      transferCheckpoint }

end Reader

/-- `PDC_SERVER_ID_INTERVEL`. -/
def serverIdIntervel : Nat := 1000000000

/-- `pdc_id_seq_g` after `PDC_Server_init`. -/
def initialIdSeq (rank : Nat) : UInt64 := UInt64.ofNat (serverIdIntervel * (rank + 1))

end Pdc
