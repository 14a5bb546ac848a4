import Pdc.Lib.Buffer

/-!
# Collecting the results of a query (`pdc_server_data.c`)

The servers that work on a query send what they have found to its manager,
who counts their messages and answers the client after the last one. The
coordinates of each server are kept until then, in an array with one entry
for each server.

A coordinate of an object of `ndim` dimensions is a tuple of `ndim` numbers,
and `coords` is an array of numbers. `malloc` does not clear it, so what it
holds before the copies is a parameter. A copy that reads or writes beyond an
array has no outcome.

A message says how many hits it brings as a 64-bit number, and the handler
keeps that number in an `int`.
-/

namespace Pdc

open Lib

/-- What `bulk_args->cnt`, an `int`, makes of the number of hits of a message,
as the `uint64_t` it is used as. -/
def messageCount (cnt : Nat) : Nat := (Int.bmod cnt (2 ^ 32) % 2 ^ 64).toNat

/-- A message with the coordinates one server has found. -/
structure CoordsMessage (ndim : Nat) where
  origin : Nat
  cnt : Nat
  coords : List UInt64
  length_coords : coords.length = cnt * ndim

/-- The fields of a `query_task_t` that collect coordinates. -/
structure CoordsTask where
  nSentServer : Nat
  nRecv : Nat := 0
  nhits : Nat := 0
  coordsArr : Option (List (Option (List UInt64))) := none
  nHitsFromServer : Option (List Nat) := none
  coords : List UInt64 := []

/-- What the client is sent: the number of hits and the coordinates. -/
structure CoordsReply where
  cnt : Nat
  coords : List UInt64
  deriving DecidableEq

/-- The manager's task, and what it has answered so far. -/
structure CoordsState where
  task : CoordsTask
  replies : List CoordsReply := []

/-- `PDC_Server_send_coords_to_client`, with more than one server. -/
def sendCoordsToClient (ndim : Nat) (task : CoordsTask) : CoordsReply :=
  { cnt := task.nhits
    coords := if 0 < task.nhits then slice task.coords 0 (task.nhits * ndim) else [] }

/-- The loop that copies the coordinates of all servers behind one another,
with `off`. -/
def gatherCoords (ndim : Nat) :
    List (Option (List UInt64) × Nat) → Nat → List UInt64 → Option (List UInt64)
  | [], _, coords => some coords
  | (none, _) :: rest, off, coords => gatherCoords ndim rest off coords
  | (some arr, n) :: rest, off, coords =>
    if n * ndim ≤ arr.length ∧ off + n * ndim ≤ coords.length then
      gatherCoords ndim rest (off + n) (memcpy coords off arr 0 (n * ndim))
    else none

/-- What `PDC_recv_coords` does after the last message. -/
def aggregateCoords (ndim : Nat) (junk : Nat → UInt64) (arr : List (Option (List UInt64)))
    (hits : List Nat) (task : CoordsTask) : Option CoordsTask :=
  let total := hits.sum % 2 ^ 64
  if 0 < total then do
    let coords ← gatherCoords ndim (arr.zip hits) 0 ((List.range (total * ndim)).map junk)
    pure { task with coords := coords, coordsArr := none }
  else pure task

/-- `PDC_recv_coords`, for a query whose task the manager has. -/
def recvCoords (size ndim : Nat) (junk : Nat → UInt64) (s : CoordsState)
    (msg : CoordsMessage ndim) : Option CoordsState :=
  let nhits := messageCount msg.cnt
  let arr := s.task.coordsArr.getD (List.replicate size none)
  let hits := s.task.nHitsFromServer.getD (List.replicate size 0)
  let arr := if 0 < nhits then arr.set msg.origin (some msg.coords) else arr
  let hits := if 0 < nhits then hits.set msg.origin nhits else hits
  let task : CoordsTask := { s.task with
    coordsArr := some arr
    nHitsFromServer := some hits
    nhits := (s.task.nhits + nhits) % 2 ^ 64
    nRecv := s.task.nRecv + 1 }
  if task.nRecv = task.nSentServer then do
    let task ← aggregateCoords ndim junk arr hits task
    pure { task := task, replies := s.replies ++ [sendCoordsToClient ndim task] }
  else pure { s with task := task }

end Pdc
