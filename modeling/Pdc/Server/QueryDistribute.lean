import Pdc.Client.QuerySend
import Pdc.Server.QueryEvaluate
import Pdc.Lib.Run
import Mathlib.Algebra.Order.Floor.Div

/-!
# Distributing the work of a query (`pdc_server_data.c`)

The storage regions of an object are listed with its metadata, on one server.
For a query that server sends them in blocks to the others, which keep them,
evaluate the query on the regions they have once they have some of every object
of the query, and report to the query's manager. The manager counts the reports.
It sends out the regions of its own objects when it gets the query. Each other
server that has metadata of queried objects does so when it gets regions from
the one before it in the list of targets.

The handler of a query answers the client before it calls
`PDC_Server_recv_data_query`, so the client goes on to the next server while the
query may still have to be handled here. All queries are therefore on their way
from the beginning, and messages are handled in any order.

The averages are computed with `ceil` from doubles. A quotient of two `int`s has
a double close enough for that to be the quotient of the numbers, rounded up.

A write behind the end of an array has no outcome, which `undefined` records.
The result a report brings along is the subject of another module.
-/

namespace Pdc

open Lib

/-- The servers and the storage regions listed with each object's metadata. A region
also has an `obj_id` of its own, which is 0 unless it was recorded in bulk or restored. -/
structure Cluster (ρ : Type) where
  size : Nat
  two_le_size : 2 ≤ size
  regions : UInt64 → List ρ
  regions_ne_nil : ∀ o, regions o ≠ []
  regionObjId : ρ → UInt64

variable {ρ : Type}

/-- The server that has the metadata of an object. -/
def Cluster.home (C : Cluster ρ) (objId : UInt64) : Nat := getServerByObjId objId C.size

def Cluster.targets (C : Cluster ρ) (query : Query) : List Nat :=
  getServerFromQuery C.size query []

def Cluster.manager (C : Cluster ρ) (query : Query) : Nat := (C.targets query).headD 0

/-- A message with storage regions of an object. -/
structure MetaBulk (ρ : Type) where
  origin : Nat
  target : Nat
  objId : UInt64
  cnt : Nat
  regions : List ρ

/-! ## The regions of one object -/

/-- The variables of the loop over the storage regions, with the cached regions of
the object on this server and the objects whose leaves have a region attached. -/
structure DealState (ρ : Type) where
  serverId : Nat := 0
  nsent : Nat := 0
  nsentServer : Nat := 0
  buf : List ρ := []
  cached : List ρ
  attached : UInt64 → Bool
  sent : List (MetaBulk ρ) := []

/-- The body of the loop. -/
def dealStep (C : Cluster ρ) (rank manager : Nat) (objId : UInt64)
    (count avgCount nSentServer : Nat) (st : DealState ρ) (elt : ρ) : DealState ρ :=
  -- Do not send to manager
  let serverId := if st.serverId = manager then (st.serverId + 1) % C.size else st.serverId
  let st := { st with
    serverId := serverId
    cached := if serverId = rank then elt :: st.cached else st.cached
    buf := if serverId = rank then st.buf else st.buf ++ [elt]
    nsent := st.nsent + 1
    nsentServer := st.nsentServer + 1 }
  if avgCount ≤ st.nsentServer ∨ st.nsent = count then
    -- Last server may get less than average
    let cnt := if st.nsent = count then count - avgCount * (nSentServer - 1) else avgCount
    { st with
      sent := if serverId = rank then st.sent
        else st.sent ++ [⟨rank, serverId, objId, cnt, st.buf⟩]
      buf := if serverId = rank then st.buf else []
      -- attach_storage_region_to_query, which goes by the id in the region
      attached := if serverId = rank then Function.update st.attached (C.regionObjId elt) true
        else st.attached
      nsentServer := 0
      serverId := (serverId + 1) % C.size }
  else st

/-- What a server changes while it distributes the regions of its objects: fields of
the task, the objects met so far, the flags of its metadata, its cache, and the
messages it has sent. -/
structure SpreadState (ρ : Type) where
  nSentServer : Nat
  objIds : List UInt64 := []
  distributed : UInt64 → Bool
  cache : UInt64 → List ρ
  attached : UInt64 → Bool
  sent : List (MetaBulk ρ) := []

/-- `PDC_Server_distribute_query_storage_info`, with `capacity` entries in `obj_ids`. -/
def distributeQueryStorageInfo (C : Cluster ρ) (rank manager capacity : Nat) (st : SpreadState ρ)
    (objId : UInt64) : Option (SpreadState ρ) :=
  if objId ∈ st.objIds then some st
  else if C.home objId ≠ rank then some st
  else if capacity ≤ st.objIds.length then none
  else
    let count := (C.regions objId).length
    let n :=
      if st.nSentServer = 0 then if C.size ≤ count then C.size - 1 else count
      else st.nSentServer
    let st := { st with objIds := st.objIds ++ [objId], nSentServer := n }
    if st.distributed objId then some st
    else
      let avgCount := count ⌈/⌉ n
      let n := count ⌈/⌉ avgCount
      let deal := (C.regions objId).foldl (dealStep C rank manager objId count avgCount n)
        { cached := st.cache objId, attached := st.attached }
      some { st with
        nSentServer := n
        distributed := Function.update st.distributed objId true
        cache := Function.update st.cache objId deal.cached
        attached := deal.attached
        sent := st.sent ++ deal.sent }

/-- `PDC_Server_distribute_query_workload`. -/
def distributeQueryWorkload (C : Cluster ρ) (rank manager capacity : Nat) :
    Query → SpreadState ρ → Option (SpreadState ρ)
  | .leaf c, st => distributeQueryStorageInfo C rank manager capacity st c.objId
  | .node _ left right, st => do
      let st ← distributeQueryWorkload C rank manager capacity left st
      distributeQueryWorkload C rank manager capacity right st

/-! ## The objects met -/

/-- What `PDC_Server_distribute_query_storage_info` does to `obj_ids` on a server with the
metadata of the objects `own`. -/
def storeObjId (own : UInt64 → Bool) (objIds : List UInt64) (objId : UInt64) : List UInt64 :=
  if objId ∈ objIds then objIds else if own objId then objIds ++ [objId] else objIds

/-- What `PDC_Server_distribute_query_workload` does to it. -/
def storeObjIds (own : UInt64 → Bool) : Query → List UInt64 → List UInt64
  | .leaf c, objIds => storeObjId own objIds c.objId
  | .node _ left right, objIds => storeObjIds own right (storeObjIds own left objIds)

/-- `obj_ids` of the manager, the first target. A single server distributes nothing. -/
def managerObjIds (size : Nat) (own : Nat → UInt64 → Bool) (query : Query) : List UInt64 :=
  if size = 1 then []
  else storeObjIds (own ((getServerFromQuery size query []).headD 0)) query []

/-- `n_unique_obj`, which `PDC_send_data_query` sets to `ntarget`. -/
def nUniqueObj (size : Nat) (query : Query) : Nat := (getServerFromQuery size query []).length

/-! ## Servers -/

/-- A `query_task_t`. `attached` says for which objects the leaves of the query have a
`storage_region_list_head`. The default values are what `calloc` makes of it. -/
structure DistTask where
  query : Option Query := none
  manager : Nat := 0
  getOp : GetOp := .none
  neighbours : Neighbours := ⟨0, 0⟩
  nSentServer : Nat := 0
  nRecv : Nat := 0
  attached : UInt64 → Bool := fun _ => false
  isDone : Bool := false

/-- A server: its task for the query, `all_storage_region_distributed` of its
objects, and its cached storage regions. -/
structure DistServer (ρ : Type) where
  task : Option DistTask
  distributed : UInt64 → Bool
  cache : UInt64 → List ρ

/-- `has_more_storage_region_to_recv` at the leaves of a query. -/
def hasMore (attached : UInt64 → Bool) : Query → Bool
  | .leaf c => !attached c.objId
  | .node _ left right => hasMore attached left || hasMore attached right

/-- All servers with the messages on their way, and a record of the run: who has
evaluated the query, and how many reports had come each time the client was
answered. -/
structure QueryWorld (ρ : Type) where
  servers : Nat → DistServer ρ
  queries : List QueryMessage
  bulks : List (MetaBulk ρ) := []
  reports : List Nat := []
  evaluated : List Nat := []
  answered : List Nat := []
  undefined : Bool := false

def QueryWorld.setServer (w : QueryWorld ρ) (rank : Nat) (server : DistServer ρ) : QueryWorld ρ :=
  { w with servers := Function.update w.servers rank server }

/-- The end of both handlers: nothing while there is more to receive, otherwise
`PDC_Server_do_query` and `PDC_Server_send_query_result_to_manager`. -/
def evaluateAndReport (w : QueryWorld ρ) (rank : Nat) (server : DistServer ρ)
    (task : DistTask) : QueryWorld ρ :=
  if task.query.any (hasMore task.attached) then
    w.setServer rank { server with task := some task }
  else
    { w.setServer rank { server with task := some { task with isDone := true } } with
      evaluated :=
        if task.isDone = false ∧ task.query.isSome then w.evaluated ++ [rank] else w.evaluated
      reports := if task.getOp = .nhits ∨ task.getOp = .sel then w.reports ++ [rank]
        else w.reports }

/-- A server distributes the regions of its objects, as part of a handler. -/
def spreadOwn (C : Cluster ρ) (rank capacity : Nat) (query : Query) (server : DistServer ρ)
    (task : DistTask) : Option (DistServer ρ × DistTask × List (MetaBulk ρ)) := do
  let st ← distributeQueryWorkload C rank task.manager capacity query
    { nSentServer := task.nSentServer
      distributed := server.distributed
      cache := server.cache
      attached := task.attached }
  pure ({ server with distributed := st.distributed, cache := st.cache },
    { task with nSentServer := st.nSentServer, attached := st.attached }, st.sent)

/-- `PDC_Server_recv_data_query`, with at least two servers. -/
def recvDataQuery (C : Cluster ρ) (query : Query) (getOp : GetOp) (w : QueryWorld ρ)
    (msg : QueryMessage) : QueryWorld ρ :=
  let rank := msg.serverId
  let server := w.servers rank
  let task := { server.task.getD {} with
    query := some query
    manager := C.manager query
    getOp := getOp
    neighbours := msg.neighbours
    -- attach_cache_storage_region_to_query
    attached := fun o => !(server.cache o).isEmpty }
  if rank = C.manager query then
    match spreadOwn C rank (C.targets query).length query server task with
    | none => { w with undefined := true }
    | some (server, task, sent) =>
      { w.setServer rank { server with task := some task } with bulks := w.bulks ++ sent }
  else evaluateAndReport w rank server task

/-- `PDC_recv_query_metadata_bulk`. -/
def recvQueryMetadataBulk (C : Cluster ρ) (w : QueryWorld ρ) (msg : MetaBulk ρ) : QueryWorld ρ :=
  let rank := msg.target
  let server := w.servers rank
  if msg.cnt = 0 then { w with undefined := true }
  else
    let task := server.task.getD {}
    let server := { server with
      cache := Function.update server.cache msg.objId
        ((msg.regions.take msg.cnt).reverse ++ server.cache msg.objId) }
    match task.query with
    | none => evaluateAndReport w rank server task
    | some query =>
      let task := { task with attached := Function.update task.attached msg.objId true }
      if (msg.origin : Int) = task.neighbours.prev ∨ task.neighbours.prev = -1 then
        match spreadOwn C rank C.size query server task with
        | none => { w with undefined := true }
        | some (server, task, sent) =>
          evaluateAndReport { w with bulks := w.bulks ++ sent } rank server task
      else evaluateAndReport w rank server task

/-- The manager gets a report: `PDC_recv_nhits`, or `PDC_recv_coords`, which makes a
task if there is none. Without a task `PDC_recv_nhits` answers an older query, if
any, and the report is lost. -/
def recvReport (C : Cluster ρ) (query : Query) (getOp : GetOp) (w : QueryWorld ρ) : QueryWorld ρ :=
  let rank := C.manager query
  let server := w.servers rank
  match getOp, server.task with
  | .nhits, none => w
  | _, task =>
    let task := task.getD {}
    let task := { task with nRecv := task.nRecv + 1 }
    { w.setServer rank { server with task := some task } with
      answered :=
        if task.nRecv = task.nSentServer ∨ getOp = .nhits ∧ task.nSentServer ≤ task.nRecv then
          w.answered ++ [task.nRecv]
        else w.answered }

/-! ## Runs -/

/-- One of the messages on their way is handled. -/
inductive QueryAction where
  | query (i : Nat)
  | bulk (i : Nat)
  | report (i : Nat)

def queryStep (C : Cluster ρ) (query : Query) (getOp : GetOp) (w : QueryWorld ρ) :
    QueryAction → QueryWorld ρ
  | .query i =>
    match w.queries[i]? with
    | none => w
    | some msg => recvDataQuery C query getOp { w with queries := w.queries.eraseIdx i } msg
  | .bulk i =>
    match w.bulks[i]? with
    | none => w
    | some msg => recvQueryMetadataBulk C { w with bulks := w.bulks.eraseIdx i } msg
  | .report i =>
    match w.reports[i]? with
    | none => w
    | some _ => recvReport C query getOp { w with reports := w.reports.eraseIdx i }

/-- What the servers keep from one query to the next. -/
structure Storage (ρ : Type) where
  distributed : Nat → UInt64 → Bool
  cache : Nat → UInt64 → List ρ

/-- No regions have been distributed yet. -/
def Storage.fresh : Storage ρ := ⟨fun _ _ => false, fun _ _ => []⟩

def QueryWorld.start (C : Cluster ρ) (query : Query) (σ : Storage ρ) : QueryWorld ρ where
  servers := fun rank => ⟨none, σ.distributed rank, σ.cache rank⟩
  queries := sendDataQuery C.size query

def QueryWorld.storage (w : QueryWorld ρ) : Storage ρ :=
  ⟨fun rank => (w.servers rank).distributed, fun rank => (w.servers rank).cache⟩

/-- Nothing is on its way. -/
def QueryWorld.Quiet (w : QueryWorld ρ) : Prop :=
  w.queries = [] ∧ w.bulks = [] ∧ w.reports = []

end Pdc
