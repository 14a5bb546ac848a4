import Pdc.Client.Query
import Pdc.Lib.Fill
import Pdc.Server.RegionList

/-!
# Sending a query (`pdc_client_server_common.c`)

A query is sent as two arrays. `serialize` walks the tree from the root, left
part first, and writes the operator of every node, and -1 for every missing
child; the constraints of the leaves go to a second array in the order they
are met. The arrays are allocated first, from counts of nodes and leaves made
by two other walks. `deSerialize` reads the operators back with one counter
for each array, and takes a node with operator zero for a leaf.

`QueryPtr` is a query as it lies in memory, where nothing but the pointers
tells a leaf from a node. `Query.ptr` is what `PDCquery_create`, `PDCquery_and`
and `PDCquery_or` leave there: `calloc` makes the operator of a leaf zero.

The counters are `int` in the source. They count the nodes of a tree that is
in memory, and are natural numbers here.
-/

namespace Pdc

open Lib

/-! ## Queries with a region -/

/-- A `pdc_query_t` and its `region`, NULL or the one it is restricted to. -/
structure RegionQuery where
  tree : Query
  region : Option RegionInfo

/-- Whether `PDCquery_and` switches its arguments: an upper bound comes first and
a lower bound on the same object second. -/
def switched : Query → Query → Bool
  | .leaf c₁, .leaf c₂ =>
    decide (c₁.objId = c₂.objId ∧ c₁.type = c₂.type) && (c₂.op.isLower && c₁.op.isUpper)
  | _, _ => false

/-- `PDCquery_create` with `region`, which is NULL. -/
def RegionQuery.create (objId : UInt64) (op : QueryOp) (ty : CVarType) (value : Bytes) :
    Option RegionQuery :=
  (queryCreate objId op ty value).map fun tree => ⟨tree, none⟩

/-- `PDCquery_sel_region`. -/
def RegionQuery.selRegion (q : RegionQuery) (region : RegionInfo) : RegionQuery :=
  { q with region := some region }

/-- `PDCquery_and` with `region`: that of the first query if it has one, once
the queries are in order. -/
def RegionQuery.and (m : Machine) (q₁ q₂ : RegionQuery) : Option RegionQuery :=
  (queryAnd m q₁.tree q₂.tree).map fun tree =>
    ⟨tree, if switched q₁.tree q₂.tree then q₂.region <|> q₁.region
      else q₁.region <|> q₂.region⟩

/-- `PDCquery_or` with `region`. -/
def RegionQuery.or (q₁ q₂ : RegionQuery) : RegionQuery :=
  ⟨queryOr q₁.tree q₂.tree, q₁.region <|> q₂.region⟩

/-! ## The tree in memory -/

/-- The enumerator's value. -/
def CombineOp.value : CombineOp → Int
  | .none => 0
  | .and => 1
  | .or => 2

/-- A `pdc_query_t *`. -/
inductive QueryPtr where
  | null
  | node (combineOp : Int) (constraint : Option Constraint) (left right : QueryPtr)
  deriving DecidableEq

/-- A query in memory. -/
def QueryTree.ptr : Query → QueryPtr
  | .leaf c => .node CombineOp.none.value (some c) .null .null
  | .node op l r => .node op.combineOp.value none l.ptr r.ptr

namespace QueryPtr

/-- `PDC_query_get_nnode`. -/
def nnode : QueryPtr → Nat
  | .null => 0
  | .node _ _ l r => 1 + l.nnode + r.nnode

/-- `PDC_query_get_nleaf`. -/
def nleaf : QueryPtr → Nat → Nat
  | .null, n => n
  | .node _ _ .null .null, n => n + 1
  | .node _ _ l r, n => r.nleaf (l.nleaf n)

end QueryPtr

/-! ## The two arrays -/

/-- `combine_ops` with `cnt` and `constraints` with `constraint_cnt`. -/
structure QueryArrays where
  combineOps : Fill Int
  constraints : Fill Constraint

def QueryArrays.putOp (a : QueryArrays) (op : Int) : Option QueryArrays :=
  (a.combineOps.puts [op]).map fun ops => { a with combineOps := ops }

/-- The `memcpy` of a constraint; there is no constraint behind a NULL pointer. -/
def QueryArrays.putConstraint (a : QueryArrays) (c : Option Constraint) : Option QueryArrays := do
  let cs ← a.constraints.puts [← c]
  pure { a with constraints := cs }

/-- `serialize`. -/
def serialize : QueryPtr → QueryArrays → Option QueryArrays
  | .null, a => a.putOp (-1)
  | .node op c l r, a => do
      let a ← if l = .null ∧ r = .null then a.putConstraint c else pure a
      let a ← a.putOp op
      let a ← serialize l a
      serialize r a

/-- `deSerialize`, with the constraint and the operator counter. A call reads an
operator before it calls itself, so there are no more calls than operators. -/
def deSerialize (constraints : List Constraint) (combineOps : List Int) :
    Nat → Nat → Nat → Option (QueryPtr × Nat × Nat)
  | 0, _, _ => none
  | fuel + 1, constraintIdx, orderIdx => do
      let op ← combineOps[orderIdx]?
      if op = -1 then
        pure (.null, constraintIdx, orderIdx + 1)
      else if op = 0 then
        let c ← constraints[constraintIdx]?
        let l ← deSerialize constraints combineOps fuel (constraintIdx + 1) (orderIdx + 1)
        let r ← deSerialize constraints combineOps fuel l.2.1 l.2.2
        pure (.node op (some c) l.1 r.1, r.2)
      else
        let l ← deSerialize constraints combineOps fuel constraintIdx (orderIdx + 1)
        let r ← deSerialize constraints combineOps fuel l.2.1 l.2.2
        pure (.node op none l.1 r.1, r.2)

/-- The part of a `pdc_query_xfer_t` that `PDC_serialize_query` fills in. -/
structure QueryXfer where
  nCombineOps : Nat
  nConstraints : Nat
  arrays : QueryArrays
  region : RegionInfoTransfer

/-- A `pdc_query_constraint_t` of zeros. -/
def Constraint.zero : Constraint := ⟨0, .none, .unknown, 0, false, .none, 0⟩

/-- The region of a message, which stays zero without one. -/
def regionXfer : Option RegionInfo → RegionInfoTransfer
  | none => {}
  | some r => regionInfoToTransfer r {}

/-- `PDC_serialize_query`. -/
def serializeQuery (q : RegionQuery) : Option QueryXfer := do
  let nnode := q.tree.ptr.nnode
  let nleaf := q.tree.ptr.nleaf 0
  let arrays ← serialize q.tree.ptr
    { combineOps := ⟨List.replicate (nnode * 2 + 1) 0, 0⟩
      constraints := ⟨List.replicate nleaf Constraint.zero, 0⟩ }
  pure {
    nCombineOps := nnode * 2 + 1
    nConstraints := nleaf
    arrays := arrays
    region := regionXfer q.region }

/-- What `PDC_deserialize_query` allocates: the tree, and at its root the region
constraint. -/
structure ReceivedQuery where
  root : QueryPtr
  regionConstraint : RegionList

/-- `PDC_deserialize_query`. The region constraint is in memory from `malloc`. -/
def deserializeQuery (stray : RegionList) (xfer : QueryXfer) : Option ReceivedQuery := do
  let res ← deSerialize xfer.arrays.constraints.cells xfer.arrays.combineOps.cells
    xfer.nCombineOps 0 0
  pure ⟨res.1, regionTransferToList xfer.region stray⟩

end Pdc
