import Pdc.Server.Container

/-!
# Tags of objects and containers (`pdc_server_metadata.c`)

A tag is a name with a value of some type. An object and a container have a list
of tags each: a new tag goes to the end, a search stops at the first tag with the
name, and a deletion takes out that one.

A request has the hash of a name and an id. If there is an entry for the hash in
the table of objects, the object with the id is looked for in it. Otherwise the
request is for the container with the hash.

With RocksDB the tags are in one store, under a key made of the id and the name.
The store is a library of its own, whose calls are parameters here.
-/

namespace Pdc

open Lib

variable {B : Type}

/-! ## Lists of tags -/

/-- `PDC_add_kvtag_to_list`. -/
def addKvtagToList (list : List Kvtag) (tag : Kvtag) : List Kvtag := list ++ [tag]

/-- `PDC_get_kvtag_value_from_list`: the tag that is found. -/
def getKvtagValueFromList (list : List Kvtag) (key : Bytes) : Option Kvtag :=
  list.find? fun tag => decide (tag.name = key)

/-- `PDC_del_kvtag_value_from_list`. -/
def delKvtagValueFromList (list : List Kvtag) (key : Bytes) : List Kvtag :=
  list.eraseP fun tag => decide (tag.name = key)

/-- The list that starts at a pointer. -/
def Pointer.list {α : Type} : Pointer (List α) → Option (List α)
  | .null => some []
  | .valid list => some list
  | .stale => none

/-- The pointer to the start of a list. -/
def Pointer.ofList {α : Type} : List α → Pointer (List α)
  | [] => .null
  | a :: list => .valid (a :: list)

/-! ## Requests -/

/-- `metadata_add_kvtag_in_t`. -/
structure MetadataAddKvtagIn where
  objId : UInt64
  hashValue : UInt32
  kvtag : Kvtag

/-- `metadata_get_kvtag_in_t`. -/
structure MetadataGetKvtagIn where
  objId : UInt64
  hashValue : UInt32
  key : Bytes

/-- `metadata_get_kvtag_out_t`, which is cleared before a request is handled. -/
structure MetadataGetKvtagOut where
  ret : Int := -1
  name : Option Bytes := none
  value : Option Bytes := none

/-- `find_metadata_by_id_from_list`. -/
def findMetadataByIdFromList (list : List Metadata) (objId : UInt64) : Option Metadata :=
  list.find? fun m => decide (m.objId = objId)

/-- An object's list of tags is changed. -/
def Metadata.changeTags (change : List Kvtag → List Kvtag) (m : Metadata) : Metadata :=
  { m with kvtags := change m.kvtags }

/-- The list of tags a request is for is changed: the server and `ret`. -/
def changeTagsSometa (change : List Kvtag → List Kvtag) (s : ObjectServer B) (hashValue : UInt32)
    (objId : UInt64) : Option (ObjectServer B × Int) :=
  match s.table.lookup hashValue with
  | some entry =>
    match modifyFirst (fun m => decide (m.objId = objId)) (Metadata.changeTags change)
        entry.metadata with
    | some metadata =>
      some ({ s with table := s.table.insert hashValue { entry with metadata } }, 1)
    | none => some (s, -1)
  | none =>
    match s.containers.lookup hashValue with
    | some cont =>
      cont.kvtagListHead.list.map fun list =>
        let cont := { cont with kvtagListHead := .ofList (change list) }
        ({ s with containers := s.containers.insert hashValue cont }, 1)
    | none => some (s, -1)

/-- `PDC_Server_add_kvtag_someta`. -/
def addKvtagSometa (s : ObjectServer B) (req : MetadataAddKvtagIn) :
    Option (ObjectServer B × Int) :=
  changeTagsSometa (addKvtagToList · req.kvtag) s req.hashValue req.objId

/-- `PDC_Server_del_kvtag_someta`. -/
def delKvtagSometa (s : ObjectServer B) (req : MetadataGetKvtagIn) :
    Option (ObjectServer B × Int) :=
  changeTagsSometa (delKvtagValueFromList · req.key) s req.hashValue req.objId

/-- The answer that is read off a list of tags. -/
def kvtagOut (list : List Kvtag) (key : Bytes) : MetadataGetKvtagOut :=
  match getKvtagValueFromList list key with
  | some tag => { ret := 1, name := some tag.name, value := some tag.value }
  | none => { ret := 1 }

/-- `PDC_Server_get_kvtag_someta`. -/
def getKvtagSometa (s : ObjectServer B) (req : MetadataGetKvtagIn) : Option MetadataGetKvtagOut :=
  match s.table.lookup req.hashValue with
  | some entry =>
    match findMetadataByIdFromList entry.metadata req.objId with
    | some target => some (kvtagOut target.kvtags req.key)
    | none => some {}
  | none =>
    match s.containers.lookup req.hashValue with
    | some cont => cont.kvtagListHead.list.map fun list => kvtagOut list req.key
    | none => some {}

/-! ## RocksDB -/

/-- The calls of RocksDB on a store. A change gives the store and the text of the error, if
there is one. -/
structure RocksDb (Store : Type) where
  put : Store → Bytes → Bytes → Store × Option Bytes
  get : Store → Bytes → Option Bytes
  delete : Store → Bytes → Store × Option Bytes

/-- The key of a tag, a number and a name with a backquote between them and a zero after
them. There is none if it does not fit into its `TAG_LEN_MAX` bytes. -/
def rocksdbKey (objId : UInt64) (name : Bytes) : Option Bytes :=
  let key := decimal objId.toNat ++ [96] ++ name ++ [0]
  if key.length ≤ 2048 then some key else none

section

variable {Store : Type} (rocksdb : RocksDb Store) (db : Store)

/-- `PDC_Server_add_kvtag_rocksdb`: the store and `ret`, which the caller has set to -1. -/
def addKvtagRocksdb (req : MetadataAddKvtagIn) : Option (Store × Int) :=
  (rocksdbKey req.objId req.kvtag.name).map fun key =>
    let (db, err) := rocksdb.put db key req.kvtag.value
    (db, if err.isSome then -1 else 1)

/-- `PDC_Server_get_kvtag_rocksdb`, with whether it returns `SUCCEED`. -/
def getKvtagRocksdb (req : MetadataGetKvtagIn) : Option (MetadataGetKvtagOut × Bool) :=
  (rocksdbKey req.objId req.key).map fun key =>
    let value := rocksdb.get db key
    ({ ret := 1, name := some req.key, value }, value.isSome)

/-- `PDC_Server_del_kvtag_rocksdb`. -/
def delKvtagRocksdb (req : MetadataGetKvtagIn) : Option (Store × Int) :=
  (rocksdbKey req.objId req.key).map fun key =>
    let (db, err) := rocksdb.delete db key
    (db, if err.isSome then -1 else 1)

end

end Pdc
