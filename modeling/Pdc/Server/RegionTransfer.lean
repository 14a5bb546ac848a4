import Mathlib.Logic.Function.Basic

/-!
# Transfer request status (`pdc_server_region_transfer.c`)

A data server keeps one entry per transfer request, from the commit until
the client has been told that it completed. Clients ask in three ways. A
status call is answered at once. A wait on one request, or on many, is
answered at once when there is nothing to wait for; otherwise its RPC handle
is bound to the pending entries it names, a counter shared by those entries
counts them, and `PDC_finish_request` answers the handle when it takes the
last of them off the list.

Every handler works under `transfer_request_status_mutex`, so handlers are
the steps of the model. RPC handles are numbered in the order the RPCs
arrive. A wait allocates at most one `handle_ref` cell, so the cell carries
the number of its handle. What the handlers send with `HG_Respond` is
appended to `sent`. `committed`, `finished` and `received` record which
calls were made; no handler reads them.
-/

namespace Pdc

/-- `pdc_transfer_status_t`. -/
inductive TransferStatus where
  | complete
  | pending
  | notFound
  deriving DecidableEq, Repr

/-- `pdc_transfer_request_status`. -/
structure RequestStatus where
  handle : Nat
  transferRequestId : UInt64
  status : TransferStatus
  handleRef : Option Nat
  outType : Int
  deriving DecidableEq, Repr

/-- A response to an RPC. -/
inductive Reply where
  | status (handle : Nat) (id : UInt64) (status : TransferStatus)
  | wait (handle : Nat)
  | waitAll (handle : Nat)
  deriving DecidableEq, Repr

/-- The RPC a reply answers. -/
def Reply.handle : Reply → Nat
  | .status handle _ _ => handle
  | .wait handle => handle
  | .waitAll handle => handle

/-! ## The status list -/

/-- `PDC_commit_request`. -/
def commitRequest (list : List RequestStatus) (id : UInt64) : List RequestStatus :=
  list ++ [{ handle := 0, transferRequestId := id, status := .pending, handleRef := none,
             outType := -1 }]

/-- `PDC_finish_request`: the list, the counters and what is sent. The walk
ends at the first entry of the request that is bound to a handle. -/
def finishRequest (id : UInt64) :
    List RequestStatus → (Nat → Int) → List RequestStatus × (Nat → Int) × List Reply
  | [], refs => ([], refs, [])
  | ptr :: rest, refs =>
    if ptr.transferRequestId = id then
      let ptr := { ptr with status := .complete }
      match ptr.handleRef with
      | some ref =>
        let refs := Function.update refs ref (refs ref - 1)
        let sent :=
          if refs ref = 0 then
            if ptr.outType ≠ 0 then [Reply.waitAll ptr.handle] else [Reply.wait ptr.handle]
          else []
        (rest, refs, sent)
      | none =>
        let (rest, refs, sent) := finishRequest id rest refs
        (ptr :: rest, refs, sent)
    else
      let (rest, refs, sent) := finishRequest id rest refs
      (ptr :: rest, refs, sent)

/-- `PDC_check_request`. An entry reported complete is taken off the list,
unless it is bound to a handle. -/
def checkRequest (id : UInt64) : List RequestStatus → List RequestStatus × TransferStatus
  | [] => ([], .notFound)
  | ptr :: rest =>
    if ptr.transferRequestId = id then
      if ptr.handleRef ≠ none then (ptr :: rest, .complete)
      else if ptr.status = .complete then (rest, .complete)
      else (ptr :: rest, ptr.status)
    else
      let (rest, status) := checkRequest id rest
      (ptr :: rest, status)

/-- `PDC_try_finish_request`. -/
def tryFinishRequest (id : UInt64) (handle ref : Nat) (outType : Int) :
    List RequestStatus → (Nat → Int) → List RequestStatus × (Nat → Int)
  | [], refs => ([], refs)
  | ptr :: rest, refs =>
    if ptr.transferRequestId = id then
      ({ ptr with handle := handle, outType := outType, handleRef := some ref } :: rest,
        Function.update refs ref (refs ref + 1))
    else
      let (rest, refs) := tryFinishRequest id handle ref outType rest refs
      (ptr :: rest, refs)

/-- The two calls a wait makes for a request: check it, and bind the handle
to it if it is pending. -/
def checkOrBind (handle : Nat) (outType : Int) (id : UInt64) (list : List RequestStatus)
    (refs : Nat → Int) : List RequestStatus × (Nat → Int) × TransferStatus :=
  let (list, status) := checkRequest id list
  if status = .pending then
    let (list, refs) := tryFinishRequest id handle handle outType list refs
    (list, refs, status)
  else (list, refs, status)

/-- The loop of `transfer_request_wait_all_bulk_transfer_cb`, with
`fast_return`. -/
def waitAllLoop (handle : Nat) :
    List UInt64 → List RequestStatus → (Nat → Int) → Bool → List RequestStatus × (Nat → Int) × Bool
  | [], list, refs, fastReturn => (list, refs, fastReturn)
  | id :: ids, list, refs, fastReturn =>
    let (list, refs, status) := checkOrBind handle 1 id list refs
    waitAllLoop handle ids list refs (fastReturn && status = .complete)

/-! ## The server -/

/-- The status list, the `handle_ref` cells, and the record of calls and
responses. -/
structure RequestState where
  statusList : List RequestStatus
  refs : Nat → Int
  nextHandle : Nat
  sent : List Reply
  committed : List UInt64
  finished : List UInt64
  received : List (Nat × List UInt64)

/-- `PDC_server_transfer_request_init`. -/
def RequestState.init : RequestState where
  statusList := []
  refs := fun _ => 0
  nextHandle := 0
  sent := []
  committed := []
  finished := []
  received := []

/-- The calls on a server's status list. -/
inductive RequestAction where
  | commit (id : UInt64)
  | finish (id : UInt64)
  | status (id : UInt64)
  | wait (id : UInt64)
  | waitAll (ids : List UInt64)
  deriving DecidableEq, Repr

/-- `transfer_request_status`. -/
def transferRequestStatus (s : RequestState) (id : UInt64) : RequestState :=
  let (list, status) := checkRequest id s.statusList
  { s with
    statusList := list
    nextHandle := s.nextHandle + 1
    sent := s.sent ++ [.status s.nextHandle id status] }

/-- `transfer_request_wait`. -/
def transferRequestWait (s : RequestState) (id : UInt64) : RequestState :=
  let (list, refs, status) :=
    checkOrBind s.nextHandle 0 id s.statusList (Function.update s.refs s.nextHandle 0)
  { s with
    statusList := list
    refs := refs
    nextHandle := s.nextHandle + 1
    sent := if status = .pending then s.sent else s.sent ++ [.wait s.nextHandle]
    received := s.received ++ [(s.nextHandle, [id])] }

/-- `transfer_request_wait_all_bulk_transfer_cb`. -/
def transferRequestWaitAll (s : RequestState) (ids : List UInt64) : RequestState :=
  let (list, refs, fastReturn) :=
    waitAllLoop s.nextHandle ids s.statusList (Function.update s.refs s.nextHandle 0) true
  { s with
    statusList := list
    refs := refs
    nextHandle := s.nextHandle + 1
    sent := if fastReturn then s.sent ++ [.waitAll s.nextHandle] else s.sent
    received := s.received ++ [(s.nextHandle, ids)] }

/-- One call. -/
def requestStep (s : RequestState) : RequestAction → RequestState
  | .commit id =>
    { s with statusList := commitRequest s.statusList id, committed := s.committed ++ [id] }
  | .finish id =>
    let (list, refs, sent) := finishRequest id s.statusList s.refs
    { s with
      statusList := list, refs := refs, sent := s.sent ++ sent
      finished := s.finished ++ [id] }
  | .status id => transferRequestStatus s id
  | .wait id => transferRequestWait s id
  | .waitAll ids => transferRequestWaitAll s ids

end Pdc
