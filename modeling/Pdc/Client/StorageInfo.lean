import Pdc.Server.ObjectTable

/-!
# Asking for storage regions by name (`pdc_client_connect.c`)

The names are sorted by the server that has their metadata, with an array that
says for each name of a server which one of the caller's names it is. Each server
that has got names sends back one list of storage regions, and the client takes
the region at a position of the list as that of the name at the same position.

The messages arrive as they were sent. A position behind the array of the mapping
has no outcome.
-/

namespace Pdc

open Lib

/-- `obj_names_by_server`, with the names that have been put there, and
`obj_names_server_seq_mapping_1d`, which has a row for each server. -/
structure NamesByServer where
  names : List (List Bytes)
  mapping : List Nat

/-- A name is added to those of its server. -/
def NamesByServer.add (nServer nobj : Nat) (g : NamesByServer) (name : Bytes × Nat) :
    NamesByServer :=
  let server := getServerByName name.1 nServer
  let j := (g.names.getD server []).length
  { names := g.names.modify server (· ++ [name.1])
    mapping := g.mapping.set (server * nobj + j) name.2 }

/-- The names sorted by their servers. -/
def sortNames (nServer : Nat) (names : List Bytes) : NamesByServer :=
  names.zipIdx.foldl (NamesByServer.add nServer names.length)
    { names := List.replicate nServer []
      mapping := List.replicate (names.length * nServer) 0 }

/-- What the servers answer; one without names is not asked. -/
def askServers {B : Type} (ops : BloomOps B) :
    List (HashTable (HashEntry B)) → List (List Bytes) → Option (List (List RegionStorageMeta))
  | [], _ => some []
  | _ :: _, [] => some []
  | table :: tables, group :: groups =>
    let answer := if group = [] then some [] else getStorageMetaByNames ops table group
    answer.bind fun infos => (askServers ops tables groups).map (infos :: ·)

/-- The regions of a server's list are put into the slots of its names, from position `j`
on. -/
def placeAnswers (mapping : List Nat) (row : Nat) :
    Nat → List RegionStorageMeta → List (Option RegionStorageMeta) →
      Option (List (Option RegionStorageMeta))
  | _, [], all => some all
  | j, info :: infos, all => do
      let loc ← mapping[row + j]?
      placeAnswers mapping row (j + 1) infos (all.set loc (some info))

/-- The lists of all servers, from number `iter` on. -/
def placeAllAnswers (mapping : List Nat) (nobj : Nat) :
    Nat → List (List RegionStorageMeta) → List (Option RegionStorageMeta) →
      Option (List (Option RegionStorageMeta))
  | _, [], all => some all
  | iter, infos :: rest, all => do
      let all ← placeAnswers mapping (iter * nobj) 0 infos all
      placeAllAnswers mapping nobj (iter + 1) rest all

/-- `PDC_Client_query_multi_storage_info`: `all_storage_meta` afterwards. -/
def queryMultiStorageInfo {B : Type} (ops : BloomOps B) (servers : List (HashTable (HashEntry B)))
    (names : List Bytes) : Option (List (Option RegionStorageMeta)) := do
  let sorted := sortNames servers.length names
  let answers ← askServers ops servers sorted.names
  placeAllAnswers sorted.mapping names.length 0 answers (List.replicate names.length none)

end Pdc
