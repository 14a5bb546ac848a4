import Pdc.Client.Query
import Pdc.Lib.SortUnique

/-!
# Evaluating data queries (`pdc_server_data.c`)

The server visits the leaves of a query tree one after another. All of them
work on one selection, a list of coordinates: the first leaf fills it, and
each later one either removes the coordinates that do not match from it or
adds those that do, depending on the operator it is visited with.

The objects are one-dimensional and stored as a list of regions, whose start
and count are in bytes. A query has no region constraint here, and neither
histograms nor indexes are in use. Coordinates are kept as numbers without a
bound, since those of an object fit 64 bits even after they have been
multiplied by the element's size.

An index past the end of a region's buffer reads what happens to be there,
which `stray` says.
-/

namespace Pdc

open Lib

/-- A `region_list_t` of a leaf's storage regions, with the state and the
elements of the region that caches its data. -/
structure QueryRegion where
  start : Nat
  count : Nat
  dataSize : Nat
  isDataReady : Bool
  buf : List Int
  deriving DecidableEq, Repr

/-- What the leaves change: the number of elements in `query_task_t`, which
the first one finds out, and the selection. `nhits` is the length. -/
structure QueryState where
  totalElem : Nat
  coords : List Nat
  deriving DecidableEq, Repr

/-! ## One leaf -/

def ullongMax : Nat := 2 ^ 64 - 1

/-- `coord_to_region_index`. A region that starts at zero is taken for a
missing argument. -/
def coordToRegionIndex (unit : Nat) (r : QueryRegion) (coord : Nat) : Nat :=
  if r.start = 0 ∨ r.count = 0 then 0 else coord - r.start / unit

/-- `is_coord_within_region`. -/
def isCoordWithinRegion (unit : Nat) (r : QueryRegion) (coord : Nat) : Bool :=
  !(decide (coord * unit < r.start) || decide (r.start + r.count < coord * unit))

/-- The types a range can be evaluated for. -/
def CVarType.hasRanges : CVarType → Bool
  | .float | .double | .int | .uint | .int64 | .uint64 => true
  | _ => false

/-- The comparison the macros make with an element. There is none for an
operator or a type that they report as an error. -/
def Constraint.test (m : Machine) (c : Constraint) : Option (Int → Bool) :=
  match c.type with
  | .float | .double => some (m.floatTest c)
  | .int | .uint | .int64 | .uint64 =>
    if c.isRange then
      if c.op.isLower && c.op2.isUpper then
        some fun x =>
          c.op.compare x (castDouble m c.type c.value) &&
            c.op2.compare x (castDouble m c.type c.value2)
      else none
    else if c.op = .none then none
    else some fun x => c.op.compare x (rawValue c.type c.value)
  | _ => none

/-- `edata[i]`. -/
def QueryRegion.edata (stray : QueryRegion → Nat → Int) (r : QueryRegion) (i : Nat) : Int :=
  r.buf.getD i (stray r i)

/-- The coordinates of a region's elements that pass the test. -/
def scanRegion (stray : QueryRegion → Nat → Int) (test : Int → Bool) (unit : Nat)
    (r : QueryRegion) : List Nat :=
  ((List.range (r.count / unit)).filter fun i => test (r.edata stray i)).map (· + r.start / unit)

/-- A coordinate is invalidated if it is in the region and fails the test. -/
def markCoord (stray : QueryRegion → Nat → Int) (test : Int → Bool) (unit : Nat)
    (r : QueryRegion) (coord : Nat) : Nat :=
  if coord ≠ ullongMax ∧ isCoordWithinRegion unit r coord = true then
    if test (r.edata stray (coordToRegionIndex unit r coord)) then coord else ullongMax
  else coord

/-- The coordinates are marked first, and if any of them was, the marked ones
are removed. -/
def filterRegion (stray : QueryRegion → Nat → Int) (test : Int → Bool) (unit : Nat)
    (r : QueryRegion) (coords : List Nat) : List Nat :=
  let marked := coords.map (markCoord stray test unit r)
  if marked = coords then coords else marked.filter (· ≠ ullongMax)

/-- `MACRO_QUERY_EVALUATE_SCAN_OPT` and `MACRO_QUERY_RANGE_EVALUATE_SCAN_OPT`,
which differ in the comparison only. A comparison they do not have is an
error once there is an element to make it with. -/
def queryEvaluateScanOpt (stray : QueryRegion → Nat → Int) (test : Option (Int → Bool))
    (unit : Nat) (op : CombineOp) (coords : List Nat) (r : QueryRegion) : Option (List Nat) :=
  match op with
  | .and =>
    if coords.any fun c => decide (c ≠ ullongMax) && isCoordWithinRegion unit r c then
      test.map fun p => filterRegion stray p unit r coords
    else some coords
  | _ =>
    if 0 < r.count / unit then test.map fun p => coords ++ scanRegion stray p unit r
    else some coords

/-- Duplicates are removed after an OR of two objects. Whether it is one takes
the object of the left query, which an inner node does not have. -/
def removeDuplicates (c : Constraint) (left : Option Query) (op : CombineOp)
    (coords : List Nat) : Option (List Nat) :=
  if op = .or ∧ 1 < coords.length then
    match left with
    | some (.leaf c') =>
      some (if c'.objId ≠ c.objId then sortUnique (bytesLe 8) coords else coords)
    | _ => none
  else some coords

/-- `PDC_Server_query_evaluate_merge_opt`, with the storage regions the server
has found for the leaf. There is no outcome if the NULL pointer of an inner
node's constraint is followed; an error leaves the selection as it is. -/
def queryEvaluateMergeOpt (m : Machine) (stray : QueryRegion → Nat → Int)
    (regions : List QueryRegion) (c : Constraint) (left : Option Query) (op : CombineOp)
    (s : QueryState) : Option QueryState :=
  if regions = [] then some s
  else
    let unit := getVarTypeSize c.type
    let total :=
      if s.totalElem = 0 then (regions.map fun r => r.dataSize / unit).sum else s.totalElem
    let s : QueryState := { s with totalElem := total }
    if s.coords.length = total ∧ op = .or then some s
    else if s.coords.length = 0 ∧ op = .and then some s
    -- The type of a range is looked at first, with nothing else done.
    else if c.isRange = true ∧ c.type.hasRanges = false then some s
    else
      let ready := regions.filter (·.isDataReady)
      match ready.foldlM (queryEvaluateScanOpt stray (c.test m) unit op) s.coords with
      | none => some s
      | some coords =>
        let coords := if ready = [] ∧ op = .and then [] else coords
        (removeDuplicates c left op coords).map fun coords => { s with coords := coords }

/-! ## The tree -/

/-- `pdc_query_get_op_t`. -/
inductive GetOp where
  | none | nhits | sel | data
  deriving DecidableEq, Repr

/-- `query_task_t`, with the selection of its query. -/
structure QueryTask (α : Type) where
  query : QueryTree α
  getOp : GetOp
  isDone : Bool
  totalElem : Nat
  nhits : Nat
  coords : List Nat
  deriving DecidableEq, Repr

/-- The task of a query that has just arrived. -/
def QueryTask.new {α : Type} (query : QueryTree α) (getOp : GetOp) : QueryTask α :=
  { query := query, getOp := getOp, isDone := false, totalElem := 0, nhits := 0, coords := [] }

/-- `PDC_query_visit`: the right part of a node is visited with the left part
and the node's operator, the left part with what the node itself was given. -/
def queryVisit {α : Type}
    (func : α → Option (QueryTree α) → CombineOp → QueryState → Option QueryState) :
    QueryTree α → Option (QueryTree α) → CombineOp → QueryState → Option QueryState
  | .leaf a, left, op, s => func a left op s
  | .node op' l r, left, op, s =>
    (queryVisit func l left op s).bind (queryVisit func r (some l) op'.combineOp)

/-- `PDC_Server_do_query`. The coordinates are dropped if only their number
was asked for. -/
def doQuery {α : Type}
    (func : α → Option (QueryTree α) → CombineOp → QueryState → Option QueryState)
    (task : QueryTask α) : Option (QueryTask α) :=
  if task.isDone then some task
  else
    (queryVisit func task.query none .none ⟨task.totalElem, task.coords⟩).map fun s =>
      { task with
        isDone := true
        totalElem := s.totalElem
        nhits := s.coords.length
        coords := if task.getOp = .nhits then [] else s.coords }

end Pdc
