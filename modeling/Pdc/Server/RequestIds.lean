import Mathlib.Data.List.Basic

/-!
# Ids of transfer requests

`PDC_transfer_request_id_register` (`pdc_server_region_transfer.c`) returns the
global counter and increments it. The handler of `transfer_request` calls it
once, the handler of `transfer_request_all` once for each object of the batch and
answers with the first id only; the client takes the `i`-th object of the batch to
have the first id plus `i`. No lock is held: the calls that would take
`transfer_request_id_mutex` are commented out in both handlers.

With `ENABLE_MULTITHREAD` several handlers run at once. The increment is not
atomic, so a registration is three accesses to the counter: it is loaded for the
return value, loaded again to be incremented, and stored. An interleaving is a
list of handlers, each entry being the next access of that handler.
-/

namespace Pdc

/-- Where a handler is in `PDC_transfer_request_id_register`. -/
inductive RegisterPc where
  /-- Before the call. -/
  | idle
  /-- `ret_value` has been loaded. -/
  | loaded (retValue : UInt64)
  /-- The counter has been loaded again to be incremented. -/
  | incremented (retValue tmp : UInt64)
  deriving DecidableEq, Repr

/-- A handler: the number of objects of its batch, and the ids it has registered
so far, `transfer_request_id[0]`, `transfer_request_id[1]`, …. -/
structure IdHandler where
  nObjs : Nat
  ids : List UInt64
  pc : RegisterPc
  deriving DecidableEq, Repr

/-- The counter of a server, and its handlers. -/
structure IdServer where
  transferRequestIdG : UInt64
  handlers : Nat → IdHandler

/-- A server whose handlers are for batches of the given sizes; a single request
is a batch of one. -/
def IdServer.init (sizes : Nat → Nat) : IdServer :=
  ⟨1, fun k => ⟨sizes k, [], .idle⟩⟩

/-- The server with one handler replaced. -/
def IdServer.setHandler (s : IdServer) (k : Nat) (h : IdHandler) : IdServer :=
  { s with handlers := Function.update s.handlers k h }

/-- The next access of handler `k`; nothing if it has registered all its ids. -/
def registerStep (s : IdServer) (k : Nat) : IdServer :=
  let h := s.handlers k
  if h.ids.length < h.nObjs then
    match h.pc with
    | .idle => s.setHandler k { h with pc := .loaded s.transferRequestIdG }
    | .loaded retValue => s.setHandler k { h with pc := .incremented retValue s.transferRequestIdG }
    | .incremented retValue tmp =>
      { s.setHandler k { h with ids := h.ids ++ [retValue], pc := .idle } with
        transferRequestIdG := tmp + 1 }
  else s

/-- The ids a client derives from the first one, as `PDC_Client_transfer_request_all`
does. -/
def clientIds (metadataId : UInt64) (nObjs : Nat) : List UInt64 :=
  (List.range nObjs).map fun i => metadataId + UInt64.ofNat i

end Pdc
