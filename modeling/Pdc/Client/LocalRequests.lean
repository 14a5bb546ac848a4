import Pdc.Lib.LinkedList

/-!
# The requests attached to an object (`pdc_region_transfer.c`)

An object keeps the transfer requests that have been started and not yet waited
for in a linked list, with pointers to its first and its last node and a count.
`attach_local_transfer_request` appends a node and `remove_local_transfer_request`
takes the first node with an id out.

Nodes are allocated and freed. An address is given by `malloc` with the call, and
using a null pointer or a node that has been freed has no outcome.
-/

namespace Pdc

open Lib

/-- A `pdc_local_transfer_request`: `local_id` is the value of the cell. -/
abbrev RequestNode := Cell Nat UInt64

/-- The list of an object, and the nodes that are allocated. -/
structure ObjRequests where
  heap : Nat → Option RequestNode
  localTransferRequestHead : Option Nat
  localTransferRequestEnd : Option Nat
  localTransferRequestSize : Int

/-- The list of an object that has just been opened. -/
def ObjRequests.empty : ObjRequests := ⟨fun _ => none, none, none, 0⟩

/-- `attach_local_transfer_request`; `malloc` returns `addr`. -/
def attachLocalTransferRequest (p : ObjRequests) (addr : Nat) (transferRequestId : UInt64) :
    Option ObjRequests :=
  let heap := Function.update p.heap addr (some ⟨0, none⟩)
  match p.localTransferRequestHead with
  | some _ => do
      let last ← p.localTransferRequestEnd
      let node ← heap last
      let heap := Function.update heap last (some { node with next := some addr })
      some { p with
        heap := Function.update heap addr (some ⟨transferRequestId, none⟩)
        localTransferRequestEnd := some addr
        localTransferRequestSize := p.localTransferRequestSize + 1 }
  | none =>
    some { p with
      heap := Function.update heap addr (some ⟨transferRequestId, none⟩)
      localTransferRequestHead := some addr
      localTransferRequestEnd := some addr
      localTransferRequestSize := p.localTransferRequestSize + 1 }

/-- The loop of `remove_local_transfer_request`. -/
def removeLoop (p : ObjRequests) (transferRequestId : UInt64) :
    Nat → Option Nat → Option Nat → Option ObjRequests
  | 0, _, _ => none
  | _ + 1, _, none => some p
  | fuel + 1, previous, some temp => do
      let node ← p.heap temp
      if node.value = transferRequestId then
        match previous with
        | none => do
            let first ← p.localTransferRequestHead
            let firstNode ← p.heap first
            some { p with
              heap := Function.update p.heap first none
              localTransferRequestHead := firstNode.next
              localTransferRequestSize := p.localTransferRequestSize - 1 }
        | some previous => do
            let previousNode ← p.heap previous
            let heap := Function.update p.heap previous
              (some { previousNode with next := node.next })
            some { p with
              heap := Function.update heap temp none
              localTransferRequestSize := p.localTransferRequestSize - 1 }
      else removeLoop p transferRequestId fuel (some temp) node.next

/-- `remove_local_transfer_request`, with at most `fuel` rounds of the loop. -/
def removeLocalTransferRequest (fuel : Nat) (p : ObjRequests) (transferRequestId : UInt64) :
    Option ObjRequests :=
  removeLoop p transferRequestId fuel none p.localTransferRequestHead

end Pdc
