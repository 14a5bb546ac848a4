import Pdc.Server.RegionTransfer
import Pdc.Utils.Region

/-!
# Asking for the status of a transfer (`pdc_region_transfer.c`)

A transfer whose region is partitioned is split over data servers, and each
server keeps its own status entry for its part. `PDCregion_transfer_status`
asks the servers in order and stops at the first part that is not complete.
Once every part has reported complete the client forgets the ids of the
parts. The copies of read data and the frees it then makes are left out; they
touch neither the servers nor what is reported.
-/

namespace Pdc

/-- The fields of `pdc_transfer_request` that `PDCregion_transfer_status` reads
and writes to find and report the status. -/
structure TransferRequest where
  regionPartition : RegionPartition
  metadataId : Option (List UInt64)
  objServers : List Nat
  dataServerId : Nat
  isDone : Bool
  deriving DecidableEq, Repr

/-- `PDC_Client_transfer_request_status`: the servers after the call, and the
status that was sent back. -/
def clientTransferRequestStatus (servers : Nat → RequestState) (id : UInt64) (server : Nat) :
    (Nat → RequestState) × TransferStatus :=
  (Function.update servers server (transferRequestStatus (servers server) id),
    (checkRequest id (servers server).statusList).2)

/-- The loop over the parts. `completed` is what the last call stored. -/
def statusLoop : List (UInt64 × Nat) → (Nat → RequestState) → TransferStatus →
    (Nat → RequestState) × TransferStatus
  | [], servers, completed => (servers, completed)
  | (id, server) :: rest, servers, _ =>
    let (servers, completed) := clientTransferRequestStatus servers id server
    if completed ≠ .complete then (servers, completed)
    else statusLoop rest servers completed

/-- The request once all its parts have reported complete. -/
def TransferRequest.done (request : TransferRequest) : TransferRequest :=
  { request with metadataId := none, isDone := true }

/-- `PDCregion_transfer_status` on the request `PDC_find_id` found, with the
value `completed` had before the call. -/
def regionTransferStatus (servers : Nat → RequestState) (request : TransferRequest)
    (completed : TransferStatus) :
    (Nat → RequestState) × TransferRequest × TransferStatus :=
  match request.metadataId with
  | none => (servers, request, .notFound)
  | some metadataId =>
    let parts := match request.regionPartition with
      | .objStatic => [(metadataId[0]!, request.dataServerId)]
      | _ => metadataId.zip request.objServers
    let (servers, completed) := statusLoop parts servers completed
    if completed ≠ .complete then (servers, request, completed)
    else (servers, request.done, completed)

/-! ## Runs -/

/-- The data servers and the client's request. -/
structure TransferWorld where
  servers : Nat → RequestState
  request : TransferRequest

/-- A call on a server's status list, or a status call by the client. -/
inductive TransferEvent where
  | server (server : Nat) (action : RequestAction)
  | poll
  deriving DecidableEq, Repr

/-- What the client's status call reports. -/
def TransferWorld.reported (w : TransferWorld) : TransferStatus :=
  (regionTransferStatus w.servers w.request .pending).2.2

/-- One event. -/
def transferStep (w : TransferWorld) : TransferEvent → TransferWorld
  | .server server action =>
    { w with
      servers := Function.update w.servers server (requestStep (w.servers server) action) }
  | .poll =>
    let (servers, request, _) := regionTransferStatus w.servers w.request .pending
    { servers := servers, request := request }

end Pdc
