import Pdc.Server.QueryEvaluate
import Pdc.Server.RegionList

/-!
# Skipping regions in a query (`pdc_server_data.c`)

A leaf need not look at all storage regions of its object. A query can have a
region constraint, and then the regions that do not overlap it are skipped and
the elements outside of it are not selected. And if histograms are in use
(`gen_hist_g`), a region whose histogram shows that it has no hits is neither
read nor scanned. The positions of such regions are kept in the task, in
`invalid_region_ids`, and later leaves visited with AND skip them too.

The objects are one-dimensional, as in `QueryEvaluate`, and so is the region
constraint. What `PDC_region_has_hits_from_hist` compares is a parameter. The
regions on an object's io list are kept as their positions: two regions of
one list with the same start and count have no elements.
-/

namespace Pdc

open Lib

/-- The start and the count of a region constraint. -/
structure RegionBounds where
  start : UInt64
  count : UInt64
  deriving DecidableEq, Repr

/-- What a leaf is evaluated with besides its regions: `hist` is the verdict
of a constraint on the histogram of the region at a position. -/
structure QueryEnv where
  machine : Machine
  stray : QueryRegion → Nat → Int
  hist : Constraint → Nat → Bool
  bounds : Option RegionBounds

/-- What the leaves of a task change. `coordsAlloc` is the number of coordinates there
is room for. `loaded` has the regions of each object that are on its io list. -/
structure SkipState where
  totalElem : Nat
  coords : List Nat
  coordsAlloc : Nat
  invalid : List Nat
  loaded : List (UInt64 × Nat)
  deriving DecidableEq, Repr

/-- The state of a task that has just arrived. It starts without rejected
regions; what is loaded is what earlier queries have left. -/
def SkipState.start (loaded : List (UInt64 × Nat)) : SkipState := ⟨0, [], 8192, [], loaded⟩

/-! ## The region constraint -/

/-- The constraint in bytes, as the regions are. -/
def RegionBounds.toBytes (unit : Nat) (b : RegionBounds) : RegionBounds :=
  ⟨b.start * UInt64.ofNat unit, b.count * UInt64.ofNat unit⟩

/-- `PDC_is_contiguous_region_overlap`. -/
def isContiguousRegionOverlap (r : QueryRegion) (b : RegionBounds) : Bool :=
  isOverlap1D (UInt64.ofNat r.start) (UInt64.ofNat r.start + UInt64.ofNat r.count - 1)
    b.start (b.start + b.count - 1)

/-- `is_idx_within_region`. -/
def isIdxWithinRegion (unit : Nat) (r : QueryRegion) (b : RegionBounds) (idx : Nat) : Bool :=
  let coord := UInt64.ofNat idx * UInt64.ofNat unit + UInt64.ofNat r.start
  !(decide (coord < b.start) || decide (b.start + b.count < coord))

/-- A region is looked at if there is no constraint or it overlaps it. -/
def overlapsBounds (unit : Nat) (bounds : Option RegionBounds) (r : QueryRegion) : Bool :=
  match bounds with
  | none => true
  | some b => isContiguousRegionOverlap r (b.toBytes unit)

/-- An element is looked at if there is no constraint or it is within. -/
def idxWithinBounds (unit : Nat) (bounds : Option RegionBounds) (r : QueryRegion) (idx : Nat) :
    Bool :=
  match bounds with
  | none => true
  | some b => isIdxWithinRegion unit r (b.toBytes unit) idx

/-- The coordinates of a region's elements that are within and pass the test. -/
def scanRegionWithin (stray : QueryRegion → Nat → Int) (test : Int → Bool) (unit : Nat)
    (bounds : Option RegionBounds) (r : QueryRegion) : List Nat :=
  ((List.range (r.count / unit)).filter fun i =>
    idxWithinBounds unit bounds r i && test (r.edata stray i)).map (· + r.start / unit)

/-- The two macros with their region constraint, which AND does not look at. -/
def queryEvaluateScanWithin (stray : QueryRegion → Nat → Int) (test : Option (Int → Bool))
    (unit : Nat) (bounds : Option RegionBounds) (op : CombineOp) (coords : List Nat)
    (r : QueryRegion) : Option (List Nat) :=
  match op with
  | .and => queryEvaluateScanOpt stray test unit .and coords r
  | _ =>
    if (List.range (r.count / unit)).any (idxWithinBounds unit bounds r) then
      test.map fun p => coords ++ scanRegionWithin stray p unit bounds r
    else some coords

/-- `coords_alloc` after a leaf has stored the coordinates from `first` on, up to `last`.
It is doubled at each one there is no room for. If there is no room then either, as
when it is zero, the coordinate is written behind the end of the array. -/
def growAlloc (alloc first last : Nat) : Option Nat :=
  (List.range' first (last - first)).foldlM (fun alloc k =>
    if k + 1 ≤ alloc then some alloc
    else if k + 1 ≤ alloc * 2 then some (alloc * 2)
    else none) alloc

/-! ## Histograms -/

/-- `PDC_region_has_hits_from_hist` for the region at a position. A type it
does not know is an error, which is not taken for a rejection. -/
def QueryEnv.regionHasHits (e : QueryEnv) (c : Constraint) (iter : Nat) : Bool :=
  !c.type.hasRanges || e.hist c iter

/-- A position is added to `invalid_region_ids` unless it is there. -/
def addInvalid (invalid : List Nat) (iter : Nat) : List Nat :=
  if iter ∈ invalid then invalid else invalid ++ [iter]

/-- One round of `PDC_Server_load_query_data`. -/
def loadRegion (e : QueryEnv) (genHist : Bool) (c : Constraint) (op : CombineOp) (s : SkipState)
    (iter : Nat) : SkipState :=
  -- An OR forgets the rejected regions, in each round anew.
  let s := if op = .or then { s with invalid := [] } else s
  if op = .and ∧ iter ∈ s.invalid then s
  else if genHist = true ∧ e.regionHasHits c iter = false then
    { s with invalid := addInvalid s.invalid iter }
  else if (c.objId, iter) ∈ s.loaded then s
  else { s with loaded := s.loaded ++ [(c.objId, iter)] }

/-- `PDC_Server_load_query_data`. -/
def loadQueryData (e : QueryEnv) (genHist : Bool) (c : Constraint) (op : CombineOp)
    (count : Nat) (s : SkipState) : SkipState :=
  (List.range count).foldl (loadRegion e genHist c op) s

/-! ## One leaf -/

/-- The region loop of `PDC_Server_query_evaluate_merge_opt`, with the number
of regions evaluated so far. An error ends it with what has been done. There is no
outcome if a coordinate is written behind the end of the array. -/
def evaluateRegions (e : QueryEnv) (genHist : Bool) (c : Constraint) (op : CombineOp) :
    Nat → List QueryRegion → SkipState → Nat → Option (Except SkipState (SkipState × Nat))
  | _, [], s, nEval => some (.ok (s, nEval))
  | iter, r :: rs, s, nEval =>
    let unit := getVarTypeSize c.type
    if op = .and ∧ iter ∈ s.invalid then evaluateRegions e genHist c op (iter + 1) rs s nEval
    else if overlapsBounds unit e.bounds r = false then
      evaluateRegions e genHist c op (iter + 1) rs s nEval
    else if ¬ ((c.objId, iter) ∈ s.loaded ∧ r.isDataReady = true) then
      evaluateRegions e genHist c op (iter + 1) rs s nEval
    else if genHist = true ∧ e.regionHasHits c iter = false then
      evaluateRegions e genHist c op (iter + 1) rs
        { s with invalid := addInvalid s.invalid iter } nEval
    else if c.type.hasRanges = false then some (.error s)
    else
      match queryEvaluateScanWithin e.stray (c.test e.machine) unit e.bounds op s.coords r with
      | none => some (.error s)
      | some coords => do
        let alloc ← growAlloc s.coordsAlloc s.coords.length coords.length
        evaluateRegions e genHist c op (iter + 1) rs
          { s with coords := coords, coordsAlloc := alloc } (nEval + 1)

/-- An AND leaf that has evaluated no regions clears the selection. The array is freed
with it, and not allocated again. -/
def SkipState.afterRegions (s : SkipState) (op : CombineOp) (nEval : Nat) : SkipState :=
  if nEval = 0 ∧ op = .and ∧ s.coords ≠ [] then { s with coords := [], coordsAlloc := 0 } else s

/-- `PDC_Server_query_evaluate_merge_opt`, with the storage regions of every
object. -/
def queryEvaluateSkip (e : QueryEnv) (genHist : Bool) (regions : UInt64 → List QueryRegion)
    (c : Constraint) (left : Option Query) (op : CombineOp) (s : SkipState) : Option SkipState :=
  let rs := regions c.objId
  if rs = [] then some s
  else
    let unit := getVarTypeSize c.type
    let total :=
      if s.totalElem = 0 then (rs.map fun r => r.dataSize / unit).sum else s.totalElem
    let s : SkipState := { s with totalElem := total }
    if s.coords.length = total ∧ op = .or then some s
    else if s.coords.length = 0 ∧ op = .and then some s
    else if c.isRange = true ∧ c.type.hasRanges = false then some s
    else
      match evaluateRegions e genHist c op 0 rs (loadQueryData e genHist c op rs.length s) 0 with
      | none => none
      | some (.error s) => some s
      | some (.ok (s, nEval)) =>
        let s := s.afterRegions op nEval
        (removeDuplicates c left op s.coords).map fun coords => { s with coords := coords }

/-! ## The tree -/

/-- A call that `PDC_query_visit` makes for a leaf. -/
structure LeafVisit where
  leaf : Constraint
  left : Option Query
  op : CombineOp

/-- The calls of `PDC_query_visit`, in order. -/
def QueryTree.visits : Query → Option Query → CombineOp → List LeafVisit
  | .leaf c, left, op => [⟨c, left, op⟩]
  | .node op' l r, left, op => l.visits left op ++ r.visits (some l) op'.combineOp

/-- The state after a list of calls. There is none once a NULL pointer has
been followed or a coordinate written behind the end of the array. -/
def visitLeaves (e : QueryEnv) (genHist : Bool) (regions : UInt64 → List QueryRegion)
    (s : SkipState) (vs : List LeafVisit) : Option SkipState :=
  vs.foldlM (fun s v => queryEvaluateSkip e genHist regions v.leaf v.left v.op s) s

/-- `PDC_Server_do_query`. A task starts without rejected regions; what is
loaded is what earlier queries have left. -/
def doQuerySkip (e : QueryEnv) (genHist : Bool) (regions : UInt64 → List QueryRegion)
    (loaded : List (UInt64 × Nat)) (task : QueryTask Constraint) :
    Option (QueryTask Constraint) :=
  if task.isDone then some task
  else
    (visitLeaves e genHist regions ⟨task.totalElem, task.coords, 8192, [], loaded⟩
      (task.query.visits none .none)).map fun s =>
        { task with
          isDone := true
          totalElem := s.totalElem
          nhits := s.coords.length
          coords := if task.getOp = .nhits then [] else s.coords }

end Pdc
