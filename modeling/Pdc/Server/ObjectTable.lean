import Mathlib.Data.List.AList
import Pdc.Server.BurstBuffer

/-!
# The table of objects (`pdc_server_metadata.c`)

A metadata server keeps its objects in a hash table. The key is the hash of an
object's name, as the client sends it, and the value a list of the objects with
that key. From the 65th object on a list has a bloom filter, which is asked for
the name and the time step before the list is searched.

An object is new if none in the list compares equal to it. A comparison passes
over a field that one of the two does not have: a negative time step, an empty
name, a user id that is not positive. An update finds its object by id and sets
the fields it was given.

Tables of `pdc_hash_table.c` are association lists in some order. The bloom
filter is a library of its own, given by its operations. Of the fields of an
object only the pointers are left out that no function here follows. Texts are
taken to fit into the arrays they are copied to, but for the name of a
container; where it matters the results say so.

The loop that deletes an object by its id goes on after it has freed the entry
of the last object of a list, and reads the pointer to the next one from the
memory it has just given back; here it reads what was there.
-/

namespace Pdc

open Lib

/-- `HashTable`, with keys of 32 bits. -/
abbrev HashTable (V : Type) := AList fun _ : UInt32 => V

/-- A `pdc_kvtag_t`; its size is the length of the value. -/
structure Kvtag where
  name : Bytes
  type : Int8
  value : Bytes
  deriving DecidableEq

/-- What a pointer leads to. One that was written to a file and read back by another process
leads nowhere. -/
inductive Pointer (α : Type) where
  | null
  | valid (block : α)
  | stale
  deriving DecidableEq

/-- `struct _pdc_transform_state`. -/
structure TransformState where
  storageOrder : Int := 0
  dtype : Int := 0
  ndim : UInt64 := 0
  dims : List UInt64 := [0, 0, 0, 0]
  metaIndex : Int := 0

/-- A `pdc_metadata_t`. -/
structure Metadata where
  objId : UInt64 := 0
  objName : Bytes := []
  timeStep : Int := 0
  userId : Int := 0
  appName : Bytes := []
  tags : Bytes := []
  dataLocation : Bytes := []
  regions : List StorageEntry := []
  dataType : Int := -1
  contId : UInt64 := 0
  createTime : Int := 0
  lastModifiedTime : Int := 0
  dataServerId : UInt32 := 0
  regionPartition : UInt8 := 0
  consistency : UInt8 := 0
  kvtags : List Kvtag := []
  ndim : UInt64 := 0
  dims : List UInt64 := [0, 0, 0, 0]
  allStorageRegionDistributed : Int := 0
  transformState : Int := 0
  currentState : TransformState := {}

/-! ## Names -/

/-- `pdc_hash_djb2`. A `char` is signed. -/
def hashDjb2 (name : Bytes) : UInt32 :=
  name.foldl (fun hash c => (hash <<< 5) + hash + c.toInt8.toInt32.toUInt32) 5381

/-- `PDC_get_hash_by_name`. -/
def getHashByName (name : Bytes) : UInt32 := hashDjb2 name

/-- `PDC_get_server_by_name`. -/
def getServerByName (name : Bytes) (nServer : Nat) : Nat := (getHashByName name).toNat % nServer

/-- `%d` of a number. -/
def decimalInt : Int → Bytes
  | .ofNat n => decimal n
  | .negSucc n => 45 :: decimal (n + 1)

/-- `combine_obj_info_to_string`, with at most `TAG_LEN_MAX` bytes. -/
def combineObjInfoToString (m : Metadata) : Bytes :=
  (m.objName ++ decimalInt m.timeStep).take 2047

/-- `PDC_metadata_cmp`, whether it is 0. -/
def metadataCmp (a b : Metadata) : Bool :=
  decide (0 ≤ a.timeStep ∧ 0 ≤ b.timeStep → a.timeStep = b.timeStep) &&
    decide (a.objName ≠ [] ∧ b.objName ≠ [] → a.objName = b.objName) &&
    decide (0 < a.userId ∧ 0 < b.userId → a.userId = b.userId) &&
    decide (a.appName ≠ [] ∧ b.appName ≠ [] → a.appName = b.appName)

/-! ## Entries -/

/-- `BLOOM_NEW`, `BLOOM_ADD`, `BLOOM_REMOVE` and `BLOOM_CHECK`. The two in the middle always
succeed. -/
structure BloomOps (B : Type) where
  new : B
  add : B → Bytes → B
  remove : B → Bytes → B
  check : B → Bytes → Bool

/-- `pdc_hash_table_entry_head`. -/
structure HashEntry (B : Type) where
  nObj : Nat := 0
  bloom : Option B := none
  metadata : List Metadata := []

section Table

variable {B : Type} (ops : BloomOps B)

/-- `find_identical_metadata`. -/
def findIdenticalMetadata (entry : HashEntry B) (a : Metadata) : Option Metadata :=
  match entry.bloom with
  | some bloom =>
    if a.userId ≠ 0 ∧ a.appName ≠ [] ∧ ops.check bloom (combineObjInfoToString a) = false then none
    else entry.metadata.find? fun elt => metadataCmp elt a
  | none => entry.metadata.find? fun elt => metadataCmp elt a

/-- `CREATE_BLOOM_THRESHOLD`. -/
def createBloomThreshold : Nat := 64

/-- `PDC_Server_add_to_bloom`. -/
def addToBloom (bloom : B) (m : Metadata) : B := ops.add bloom (combineObjInfoToString m)

/-- `PDC_Server_remove_from_bloom`. -/
def removeFromBloom (bloom : B) (m : Metadata) : B := ops.remove bloom (combineObjInfoToString m)

/-- `PDC_Server_hash_table_list_insert`. -/
def hashTableListInsert (head : HashEntry B) (new : Metadata) : HashEntry B where
  nObj := head.nObj + 1
  bloom :=
    if head.nObj = createBloomThreshold then
      some (addToBloom ops (head.metadata.foldl (addToBloom ops) ops.new) new)
    else if createBloomThreshold ≤ head.nObj ∨ head.bloom.isSome then
      head.bloom.map fun bloom => addToBloom ops bloom new
    else head.bloom
  metadata := head.metadata ++ [new]

/-- An object is taken out of a list that has others. -/
def HashEntry.delete (entry : HashEntry B) (target : Metadata) (p : Metadata → Bool) :
    HashEntry B where
  nObj := entry.nObj - 1
  bloom := entry.bloom.map fun bloom => removeFromBloom ops bloom target
  metadata := entry.metadata.eraseP p

/-! ## Requests -/

/-- `pdc_cont_hash_table_entry_t`. The array of ids has `nAllocated` entries, of which the
first `nObj` are in use and are what is kept here. -/
structure Container where
  contId : UInt64
  contName : Bytes
  nObj : Nat := 0
  nDeleted : Nat := 0
  nAllocated : Nat := 0
  objIds : Pointer (List UInt64) := .null
  kvtagListHead : Pointer (List Kvtag) := .null

/-- A metadata server: its two tables and `pdc_id_seq_g`. -/
structure ObjectServer (B : Type) where
  table : HashTable (HashEntry B) := ∅
  containers : HashTable Container := ∅
  idSeq : UInt64

/-- `PDC_Server_gen_obj_id`. -/
def ObjectServer.genObjId (s : ObjectServer B) : ObjectServer B × UInt64 :=
  ({ s with idSeq := s.idSeq + 1 }, s.idSeq)

/-- `gen_obj_id_in_t`. -/
structure GenObjIdIn where
  hashValue : UInt32
  objName : Bytes
  timeStep : Int
  userId : Int
  appName : Bytes
  tags : Bytes := []
  dataLocation : Bytes := []
  dataType : Int := -1
  contId : UInt64 := 0
  dataServerId : UInt32 := 0
  regionPartition : UInt8 := 0
  consistency : UInt8 := 0
  ndim : UInt64 := 0
  dims0 : UInt64 := 0
  dims1 : UInt64 := 0
  dims2 : UInt64 := 0
  dims3 : UInt64 := 0

/-- The object of a request. -/
def GenObjIdIn.metadata (req : GenObjIdIn) (objId : UInt64) : Metadata where
  objId
  objName := req.objName
  timeStep := req.timeStep
  userId := req.userId
  appName := req.appName
  tags := req.tags
  dataLocation := req.dataLocation
  dataType := req.dataType
  contId := req.contId
  dataServerId := req.dataServerId
  regionPartition := req.regionPartition
  consistency := req.consistency
  ndim := req.ndim
  dims :=
    [if req.ndim ≤ 0 then 0 else req.dims0, if req.ndim ≤ 1 then 0 else req.dims1,
      if req.ndim ≤ 2 then 0 else req.dims2, if req.ndim ≤ 3 then 0 else req.dims3]

/-- `PDC_insert_metadata_to_hash_table`: the server and the id of the object. -/
def insertMetadataToHashTable (s : ObjectServer B) (req : GenObjIdIn) : ObjectServer B × UInt64 :=
  -- a key that is new gets an empty entry
  let entry := (s.table.lookup req.hashValue).getD {}
  match findIdenticalMetadata ops entry (req.metadata 0) with
  | some _ => (s, 0)
  | none =>
    let (s, objId) := s.genObjId
    let entry := hashTableListInsert ops entry (req.metadata objId)
    ({ s with table := s.table.insert req.hashValue entry }, objId)

/-- `metadata_update_in_t`. -/
structure MetadataUpdateIn where
  hashValue : UInt32
  objId : UInt64
  timeStep : Int := -1
  appName : Bytes := []
  dataLocation : Bytes := []
  tags : Bytes := []
  currentState : Int := 0
  tDtype : Int := 0
  tNdim : UInt64 := 0
  tDims : List UInt64 := [0, 0, 0, 0]
  tMetaIndex : Int := 0

/-- A text that was given: neither empty nor a blank. -/
def isGiven (text : Bytes) : Bool := decide (text ≠ [] ∧ text ≠ [32])

/-- The fields that are set. -/
def MetadataUpdateIn.apply (req : MetadataUpdateIn) (target : Metadata) : Metadata :=
  { target with
    timeStep := if req.timeStep ≠ -1 then req.timeStep else target.timeStep
    appName := if isGiven req.appName then req.appName else target.appName
    dataLocation := if isGiven req.dataLocation then req.dataLocation else target.dataLocation
    tags := if isGiven req.tags then target.tags ++ [44] ++ req.tags else target.tags
    transformState := if req.currentState ≠ 0 then req.currentState else target.transformState
    currentState :=
      if req.currentState ≠ 0 then
        { target.currentState with
          dtype := req.tDtype
          ndim := req.tNdim
          dims := req.tDims
          metaIndex := req.tMetaIndex }
      else target.currentState }

/-- `PDC_Server_update_metadata`. -/
def updateMetadata (s : ObjectServer B) (req : MetadataUpdateIn) : ObjectServer B × Perr :=
  match s.table.lookup req.hashValue with
  | none => (s, .fail)
  | some entry =>
    match modifyFirst (fun m => decide (m.objId = req.objId)) req.apply entry.metadata with
    | none => (s, .fail)
    | some metadata =>
      ({ s with table := s.table.insert req.hashValue { entry with metadata } }, .succeed)

/-- `metadata_delete_in_t`. -/
structure MetadataDeleteIn where
  hashValue : UInt32
  objName : Bytes
  timeStep : Int

/-- What is searched for to be deleted. -/
def MetadataDeleteIn.metadata (req : MetadataDeleteIn) : Metadata where
  objName := req.objName
  timeStep := req.timeStep
  userId := -1

/-- `PDC_delete_metadata_from_hash_table`. -/
def deleteMetadataFromHashTable (s : ObjectServer B) (req : MetadataDeleteIn) :
    ObjectServer B × Perr :=
  match s.table.lookup req.hashValue with
  | none => (s, .fail)
  | some entry =>
    match findIdenticalMetadata ops entry req.metadata with
    | none => (s, .fail)
    | some target =>
      if 1 < entry.nObj then
        let entry := entry.delete ops target fun m => metadataCmp m req.metadata
        ({ s with table := s.table.insert req.hashValue entry }, .succeed)
      else ({ s with table := s.table.erase req.hashValue }, .succeed)

/-- An object with the id, in the entry of a key. -/
def deleteFromEntry (objId : UInt64) (key : UInt32) (table : HashTable (HashEntry B))
    (target : Metadata) : HashTable (HashEntry B) :=
  match table.lookup key with
  | none => table
  | some entry =>
    if 1 < entry.nObj then
      table.insert key (entry.delete ops target fun m => decide (m.objId = objId))
    else table.erase (getHashByName target.objName)

/-- `PDC_Server_delete_metadata_by_id`: a container, or else all objects with the id. -/
def deleteMetadataById (s : ObjectServer B) (objId : UInt64) : ObjectServer B :=
  match s.containers.entries.find? fun pair => decide (pair.2.contId = objId) with
  | some pair => { s with containers := s.containers.erase pair.1 }
  | none =>
    let table := s.table.entries.foldl (fun table pair =>
      (pair.2.metadata.filter fun m => decide (m.objId = objId)).foldl
        (deleteFromEntry ops objId pair.1) table) s.table
    { s with table }

/-- `PDC_Server_search_with_name_timestep`. -/
def searchWithNameTimestep (table : HashTable (HashEntry B)) (objName : Bytes) (hashKey : UInt32)
    (ts : Int) : Option Metadata :=
  match table.lookup hashKey with
  | none => none
  | some entry => findIdenticalMetadata ops entry { objName, timeStep := ts }

/-- `PDC_Server_get_storage_meta_by_names`: all storage regions of the objects, one after the
other. The code looks into the first region of each object it has found, so that there is
no outcome if an object has none. -/
def getStorageMetaByNames (table : HashTable (HashEntry B)) :
    List Bytes → Option (List RegionStorageMeta)
  | [] => some []
  | name :: names =>
    match searchWithNameTimestep ops table name (getHashByName name) 0 with
    | none => getStorageMetaByNames table names
    | some m =>
      if m.regions = [] then none
      else (getStorageMetaByNames table names).map (storageMetaOf m.objId m.regions ++ ·)

end Table

end Pdc
