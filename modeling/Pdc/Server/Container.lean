import Pdc.Server.ObjectTable

/-!
# Containers (`pdc_server_metadata.c`)

The table of containers has one container for a key, the hash of the name as
the client sends it. Creating a container looks for the key alone. A search by
name compares the name of the container it finds, and one by id walks through
the table.

A container owns an array with the ids of its objects, which grows when objects
are added. Deleting an object writes a 0 over its id. The first array has
`PDC_ALLOC_BASE_NUM` entries, whatever the number of objects that are added to
it.
-/

namespace Pdc

open Lib

variable {B : Type}

/-- `ADDR_MAX`. -/
def addrMax : Nat := 1024

/-- `PDC_ALLOC_BASE_NUM`. -/
def allocBaseNum : Nat := 64

/-- `gen_cont_id_in_t`. -/
structure GenContIdIn where
  hashValue : UInt32
  contName : Bytes

/-- `PDC_Server_create_container`: the server and the id of the container. `strcpy` leaves the
array of a name that does not fit, and there is no outcome. -/
def createContainer (s : ObjectServer B) (req : GenContIdIn) : Option (ObjectServer B × UInt64) :=
  match s.containers.lookup req.hashValue with
  | some entry => some (s, entry.contId)
  | none =>
    if req.contName.length < addrMax then
      let (s, contId) := s.genObjId
      let entry : Container := { contId, contName := req.contName }
      some ({ s with containers := s.containers.insert req.hashValue entry }, contId)
    else none

/-- `PDC_Client_create_cont_id`: the request for a name. -/
def GenContIdIn.ofName (contName : Bytes) : GenContIdIn where
  hashValue := getHashByName contName
  contName

/-- `PDC_Server_find_container_by_name`. -/
def findContainerByName (containers : HashTable Container) (contName : Bytes) : Option Container :=
  match containers.lookup (getHashByName contName) with
  | some entry => if contName = entry.contName then some entry else none
  | none => none

/-- `PDC_Server_find_container_by_id`, with the key of the container. -/
def findContainerById (containers : HashTable Container) (contId : UInt64) :
    Option (UInt32 × Container) :=
  (containers.entries.find? fun pair => decide (pair.2.contId = contId)).map fun pair =>
    (pair.1, pair.2)

/-! ## Members -/

/-- The size of the array when `n` ids are to be added. -/
def Container.allocated (entry : Container) (n : Nat) : Nat :=
  if entry.nAllocated = 0 then allocBaseNum
  else if entry.nAllocated < entry.nObj + n then 2 * max entry.nAllocated n
  else entry.nAllocated

/-- The ids that are in the array before some are added: a new array, or the one that is
there, which is moved. -/
def Container.members (entry : Container) : Option (List UInt64) :=
  if entry.nAllocated = 0 then some []
  else
    match entry.objIds with
    | .valid ids => some ids
    | .null | .stale => none

/-- Ids are added to a container. There is no outcome if they are copied past the end of the
array. -/
def Container.addObjs (entry : Container) (objIds : List UInt64) : Option Container :=
  if entry.nObj + objIds.length ≤ entry.allocated objIds.length then
    entry.members.map fun ids =>
      { entry with
        nObj := entry.nObj + objIds.length
        nAllocated := entry.allocated objIds.length
        objIds := .valid (ids ++ objIds) }
  else none

/-- The first entry with an id is set to 0. -/
def Container.delObj (entry : Container) (objId : UInt64) : Option Container :=
  if entry.nObj = 0 then some entry
  else
    match entry.objIds with
    | .valid ids =>
      match modifyFirst (fun id => decide (id = objId)) (fun _ => 0) ids with
      | some ids => some { entry with objIds := .valid ids, nDeleted := entry.nDeleted + 1 }
      | none => some entry
    | .null | .stale => none

/-- A container that is looked up by its id is changed. -/
def changeContainer (change : Container → Option Container) (containers : HashTable Container)
    (contId : UInt64) : Option (HashTable Container × Perr) :=
  match findContainerById containers contId with
  | some (key, entry) => (change entry).map fun entry => (containers.insert key entry, .succeed)
  | none => some (containers, .fail)

/-- `PDC_Server_container_add_objs`. -/
def containerAddObjs (containers : HashTable Container) (objIds : List UInt64) (contId : UInt64) :
    Option (HashTable Container × Perr) :=
  changeContainer (fun entry => entry.addObjs objIds) containers contId

/-- `PDC_Server_container_del_objs`. -/
def containerDelObjs (containers : HashTable Container) (objIds : List UInt64) (contId : UInt64) :
    Option (HashTable Container × Perr) :=
  changeContainer (fun entry => objIds.foldlM Container.delObj entry) containers contId

end Pdc
