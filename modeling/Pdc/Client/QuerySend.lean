import Pdc.Client.Query

/-!
# Sending a query to the servers (`pdc_client_connect.c`)

`PDC_send_data_query` finds the servers that have the metadata of the queried
objects, its targets, and makes the first of them the manager of the query.
Every server is sent the query, one after the other, together with its
neighbours in the list of targets. `prev_server` and `next_server` are declared
outside the loop over the servers, and what one round leaves in them is there
in the next.
-/

namespace Pdc

/-- `PDC_get_server_by_obj_id`, with `PDC_SERVER_ID_INTERVEL`. -/
def getServerByObjId (objId : UInt64) (nServer : Nat) : Nat :=
  ((objId / 1000000000).toUInt32 - 1).toNat % nServer

/-- `PDC_get_server_from_query`. -/
def getServerFromQuery (nServer : Nat) : Query → List Nat → List Nat
  | .leaf c, servers =>
    let id := getServerByObjId c.objId nServer
    if id ∈ servers then servers else servers ++ [id]
  | .node _ left right, servers =>
    getServerFromQuery nServer right (getServerFromQuery nServer left servers)

/-- `prev_server` and `next_server`. -/
structure Neighbours where
  prev : Int
  next : Int
  deriving DecidableEq

/-- The loop over the targets, from the one after `before` on. -/
def scanTargets (serverId : Nat) : Option Nat → List Nat → Neighbours → Neighbours
  | _, [], nb => nb
  | before, target :: rest, nb =>
    if serverId = target then
      { prev := (before.map Int.ofNat).getD nb.prev
        next := (rest.head?.map Int.ofNat).getD nb.next }
    else scanTargets serverId (some target) rest ⟨-1, -1⟩

/-- What a server is sent besides the query. -/
structure QueryMessage where
  serverId : Nat
  neighbours : Neighbours
  deriving DecidableEq

/-- The loop over the servers. -/
def sendToServers (targets : List Nat) : List Nat → Neighbours → List QueryMessage
  | [], _ => []
  | serverId :: rest, nb =>
    let nb := scanTargets serverId none targets nb
    ⟨serverId, nb⟩ :: sendToServers targets rest nb

/-- `PDC_send_data_query`. -/
def sendDataQuery (nServer : Nat) (query : Query) : List QueryMessage :=
  sendToServers (getServerFromQuery nServer query []) (List.range nServer) ⟨0, 0⟩

end Pdc
