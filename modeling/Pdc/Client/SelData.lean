import Pdc.Server.QueryResult
import Pdc.Lib.Codec

/-!
# Reading the data of a selection (`pdc_client_connect.c`)

`PDC_Client_get_sel_data` sends a request to a server and waits twice on the
pending-work counter: for the response, and then for the data, which the
servers send in messages of their own. A wait triggers the callbacks of all
that has arrived, and ends once it finds the counter at zero or below. So a
message may be handled in either wait, and also after the one that brought the
counter to zero.

`PDC_recv_read_coords_data` keeps each message's data under the rank of its
server and adds up the hits; when they are as many as the selection has, it
decrements the counter. The program has one counter for everything it waits
for.

A message of no hits has no bulk data. If the number of hits is not zero but
becomes zero in an `int`, the bulk is not accessed, and what the uninitialised
pointer leads to is copied, which `stray` says.
-/

namespace Pdc

open Lib

/-- The entry of a query in `pdcquery_result_list_head_g`, as far as its data is
concerned. -/
structure QueryResultElt where
  nhits : Nat
  recvDataNhits : Nat := 0
  dataArr : Option (List (Option Bytes)) := none
  deriving DecidableEq

/-- What a server sends: the query, the server's rank, the number of its hits and
the elements at them. -/
structure DataMessage where
  queryId : Nat
  rank : Nat
  cnt : Nat
  data : Bytes
  deriving DecidableEq

/-- Where in `PDC_Client_get_sel_data` the client is. Whether the response has
set `lookup_args` matters to the first wait. -/
inductive ReadPhase where
  | idle
  | response (queryId : Nat) (answered : Bool)
  | data (queryId : Nat)
  deriving DecidableEq

/-- The client: `atomic_work_todo_g`, its queries' results, and what its reads
have returned. -/
structure ReadClient where
  todo : Int
  results : Nat → QueryResultElt
  phase : ReadPhase
  returned : List (Option Bytes)

/-- The entry for each server; the first message allocates them. -/
def QueryResultElt.slots (size : Nat) (elt : QueryResultElt) : List (Option Bytes) :=
  elt.dataArr.getD (List.replicate size none)

/-- What `PDC_recv_read_coords_data` stores for a message. -/
def QueryResultElt.store (size : Nat) (stray : Nat → UInt8) (elt : QueryResultElt)
    (msg : DataMessage) : QueryResultElt :=
  let nhits := messageCount msg.cnt
  let buf := if 0 < nhits then msg.data else (List.range msg.data.length).map stray
  { elt with
    dataArr := some ((elt.slots size).set msg.rank (some buf))
    recvDataNhits := (elt.recvDataNhits + nhits) % 2 ^ 64 }

def ReadClient.setResult (c : ReadClient) (queryId : Nat) (elt : QueryResultElt) : ReadClient :=
  { c with results := fun q => if q = queryId then elt else c.results q }

/-- `PDC_recv_read_coords_data`. -/
def recvReadCoordsData (size : Nat) (stray : Nat → UInt8) (c : ReadClient) (msg : DataMessage) :
    ReadClient :=
  let elt := (c.results msg.queryId).store size stray msg
  let c := c.setResult msg.queryId elt
  if elt.recvDataNhits = elt.nhits then { c with todo := c.todo - 1 } else c

/-- `PDC_Client_get_sel_data`, up to its first wait. -/
def getSelDataCall (c : ReadClient) (queryId : Nat) : ReadClient :=
  { c with todo := 1, phase := .response queryId false }

/-- `pdc_client_check_int_ret_cb`, for the response. -/
def checkIntRet (c : ReadClient) : ReadClient :=
  match c.phase with
  | .response queryId _ => { c with todo := c.todo - 1, phase := .response queryId true }
  | _ => { c with todo := c.todo - 1 }

/-- What is copied to the user's buffer, and the entry after that. -/
def QueryResultElt.takeData (elt : QueryResultElt) : Option (Bytes × QueryResultElt) :=
  elt.dataArr.map fun arr =>
    (arr.flatMap fun slot => slot.getD [],
      { elt with dataArr := some (arr.map fun _ => none), recvDataNhits := 0 })

/-- A wait ends, and `PDC_Client_get_sel_data` goes on from there. It has failed
if the response has not come or there is no array. -/
def getSelDataWake (c : ReadClient) : ReadClient :=
  if 0 < c.todo then c
  else
    match c.phase with
    | .idle => c
    | .response queryId true => { c with todo := 1, phase := .data queryId }
    | .response _ false => { c with phase := .idle, returned := c.returned ++ [none] }
    | .data queryId =>
      match (c.results queryId).takeData with
      | none => { c with phase := .idle, returned := c.returned ++ [none] }
      | some (data, elt) =>
        { c.setResult queryId elt with
          phase := .idle
          returned := c.returned ++ [some data] }

/-! ## Runs of the client -/

/-- A read: the query, and the messages the servers send for it. -/
structure PlannedRead where
  queryId : Nat
  messages : List DataMessage

/-- What happens next: the program calls `PDC_Client_get_sel_data`, the callback
of the response or of a message of the `k`-th read is triggered, or a wait ends. -/
inductive ReadAction where
  | call
  | respond
  | data (k : Nat) (msg : DataMessage)
  | wake

/-- The client with a record of its run: how many reads it has begun, the messages of
the last one that were handled, how often a message has decremented the counter since
the call, and that number for each read that has returned. -/
structure ReadWorld where
  client : ReadClient
  started : Nat := 0
  handled : List DataMessage := []
  signals : Nat := 0
  counts : List Nat := []

/-- A client that has made its queries, of `nhits` hits each, and read nothing yet. -/
def ReadWorld.start (nhits : Nat → Nat) : ReadWorld where
  client := { todo := 0, results := fun q => { nhits := nhits q }, phase := .idle, returned := [] }

def readStep (size : Nat) (stray : Nat → UInt8) (plan : Nat → PlannedRead) (w : ReadWorld) :
    ReadAction → ReadWorld
  | .call =>
    { w with
      client := getSelDataCall w.client (plan w.started).queryId
      started := w.started + 1
      handled := []
      signals := 0 }
  | .respond => { w with client := checkIntRet w.client }
  | .data k msg =>
    let client := recvReadCoordsData size stray w.client msg
    { w with
      client := client
      handled := if k + 1 = w.started then w.handled ++ [msg] else w.handled
      signals := if client.todo < w.client.todo then w.signals + 1 else w.signals }
  | .wake =>
    let client := getSelDataWake w.client
    { w with
      client := client
      counts := if client.phase = .idle then w.counts ++ [w.signals] else w.counts }

end Pdc
