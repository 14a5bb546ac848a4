import Pdc.Server.QueryEvaluate

/-!
# The selection of a query on objects of up to three dimensions (`pdc_server_data.c`)

Each hit takes as many entries of the array `coords` as the object has
dimensions. The array is doubled when a conservative test says that a hit may
not fit, hits that a later leaf rejects are removed, and a leaf without any
region to evaluate frees the array and sets `coords_alloc` to zero.

The macros write the coordinates of a hit into the array as they compute
them, in 64 bits. What they do not write keeps what the array had there,
which `stale` says. Start and count of a region are in bytes in every
dimension.

Which of its regions a leaf evaluates is decided by checks that do not look
at the selection: that the region overlaps the region constraint, that its
data is loaded, and that neither a histogram nor an earlier leaf excludes it.
All the regions of a query have one number of dimensions, allocations succeed
and no index of bitmaps is in use.
-/

namespace Pdc

open Lib

/-- A `region_list_t`, with the elements of its buffer and whether the leaf
evaluates it. -/
structure CoordRegion where
  start : Nat → UInt64
  count : Nat → UInt64
  dataSize : Nat
  edata : Nat → Int
  evaluated : Bool

/-- What the leaves of a query share: the dimensions, the region constraint in
elements, and what uninitialised entries of `coords` and of a local array hold. -/
structure CoordTask where
  ndim : Nat
  regionConstraint : Option ((Nat → UInt64) × (Nat → UInt64))
  stale : Nat → Nat → UInt64
  junk : Nat → UInt64
  ndim_eq : ndim = 1 ∨ ndim = 2 ∨ ndim = 3

/-! ## Indices and coordinates -/

/-- `region_index_to_coord`: the array `coord` afterwards. -/
def regionIndexToCoord (ndim : Nat) (idx : UInt64) (sizes coord : Nat → UInt64) : Nat → UInt64 :=
  let (coord, idx) :=
    if ndim = 3 then
      (Function.update coord 2 (idx / (sizes 1 * sizes 0)), idx - sizes 1 * sizes 0)
    else (coord, idx)
  let (coord, idx) :=
    if ndim = 2 then (Function.update coord 1 (idx / sizes 0), idx - sizes 0) else (coord, idx)
  Function.update coord 0 idx

/-- `coord_to_region_index`. -/
def CoordRegion.coordToRegionIndex (ndim : Nat) (coord : Nat → UInt64) (region : CoordRegion)
    (unit : UInt64) : UInt64 :=
  if ndim = 0 ∨ region.start 0 = 0 ∨ region.count 0 = 0 ∨ 3 < ndim then 0
  else
    let off :=
      if ndim = 3 then
        (coord 2 - region.start 2 / unit) * region.count 0 / unit * region.count 1 / unit
      else 0
    let off :=
      if ndim = 2 then off + (coord 1 - region.start 1 / unit) * region.count 0 / unit else off
    off + (coord 0 - region.start 0 / unit)

/-- `is_coord_within_region`. -/
def CoordRegion.isCoordWithinRegion (ndim : Nat) (coord : Nat → UInt64) (region : CoordRegion)
    (unit : UInt64) : Bool :=
  (List.range ndim).all fun i =>
    !(decide (coord i * unit < region.start i) ||
      decide (coord i * unit > region.start i + region.count i))

/-- `is_idx_within_region`, with a constraint in elements. -/
def CoordRegion.isIdxWithinRegion (t : CoordTask) (idx : UInt64) (region : CoordRegion)
    (unit : UInt64) : Bool :=
  match t.regionConstraint with
  | none => true
  | some (start, count) =>
    let coord := regionIndexToCoord t.ndim idx region.count t.junk
    (List.range t.ndim).all fun i =>
      let x := coord i * unit + region.start i
      !(decide (x < start i * unit) || decide (x > start i * unit + count i * unit))

/-- The coordinates the scan writes for the hit at `iii`, over `coords`. -/
def CoordRegion.hitCoord (ndim : Nat) (region : CoordRegion) (unit : UInt64)
    (coords : Nat → UInt64) (iii : UInt64) : Nat → UInt64 :=
  let n (i : Nat) := region.count i / unit
  let s (i : Nat) := region.start i / unit
  let ttt := iii
  let (coords, ttt) :=
    if ndim = 3 then
      let x := ttt / n 1 * n 0 + s 2
      (Function.update coords 2 x, ttt - x * n 1 * n 0)
    else (coords, ttt)
  let (coords, ttt) :=
    if ndim = 2 then
      let x := ttt / n 0 + s 1
      (Function.update coords 1 x, ttt - x * n 0)
    else (coords, ttt)
  Function.update coords 0 (ttt + s 0)

/-- `nelem`, with the product in 64 bits. -/
def CoordRegion.nelem (ndim : Nat) (region : CoordRegion) (unit : UInt64) : UInt64 :=
  ((List.range ndim).map region.count).foldl (· * ·) 1 / unit

/-! ## The selection -/

/-- A `pdc_selection_t` with the number of elements in `query_task_t`. `nhits`
is the number of hits. `overrun` records that a coordinate was stored at or
past `coords_alloc`, `crashed` that a NULL pointer was followed. -/
structure Selection where
  totalElem : Nat := 0
  hits : List (List UInt64) := []
  coordsAlloc : Nat := 8192
  overrun : Bool := false
  crashed : Bool := false

/-- A leaf of a query: its constraint's object, the size of its elements, the
comparison, if there is one, whether a range can be evaluated for its type,
and its storage regions. -/
structure CoordLeaf where
  objId : UInt64
  unit : UInt64
  test : Option (Int → Bool)
  typed : Bool
  regions : List CoordRegion

/-- The scan stores a hit; it began with `nhits` of them. -/
def storeHit (t : CoordTask) (nhits : Nat) (write : (Nat → UInt64) → Nat → UInt64)
    (sel : Selection) : Selection :=
  let istart := nhits * t.ndim
  let curCount := sel.hits.length - nhits
  let alloc :=
    if (istart + curCount + 1) * t.ndim > sel.coordsAlloc then sel.coordsAlloc * 2
    else sel.coordsAlloc
  { sel with
    hits := sel.hits ++ [(List.range t.ndim).map (write (t.stale sel.hits.length))]
    coordsAlloc := alloc
    overrun := sel.overrun || decide (alloc ≤ istart + curCount * t.ndim + (t.ndim - 1)) }

/-- The elements of a region that are compared when there is no selection to
go by, and those of them that pass. -/
def CoordRegion.compared (t : CoordTask) (unit : UInt64) (r : CoordRegion) : List Nat :=
  (List.range (r.nelem t.ndim unit).toNat).filter fun iii =>
    r.isIdxWithinRegion t (UInt64.ofNat iii) unit

def CoordLeaf.passing (t : CoordTask) (c : CoordLeaf) (r : CoordRegion) : List Nat :=
  (r.compared t c.unit).filter fun iii => c.test.any fun p => p (r.edata iii)

/-- The loop of the macros over the elements of a region. -/
def CoordLeaf.scan (t : CoordTask) (c : CoordLeaf) (sel : Selection) (r : CoordRegion) :
    Selection :=
  (c.passing t r).foldl (fun s iii =>
    storeHit t sel.hits.length (r.hitCoord t.ndim c.unit · (UInt64.ofNat iii)) s) sel

/-- A hit in the region that fails the comparison is marked. -/
def CoordRegion.markHit (t : CoordTask) (unit : UInt64) (p : Int → Bool) (r : CoordRegion)
    (hit : List UInt64) : List UInt64 :=
  let coord (i : Nat) := hit.getD i 0
  if coord 0 ≠ UInt64.ofNat ullongMax ∧ r.isCoordWithinRegion t.ndim coord unit = true ∧
      p (r.edata (r.coordToRegionIndex t.ndim coord unit).toNat) = false then
    hit.set 0 (UInt64.ofNat ullongMax)
  else hit

/-- `MACRO_QUERY_EVALUATE_SCAN_OPT` and `MACRO_QUERY_RANGE_EVALUATE_SCAN_OPT`.
There is no outcome if they report an error. -/
def CoordLeaf.scanOpt (t : CoordTask) (c : CoordLeaf) (op : CombineOp) (sel : Selection)
    (r : CoordRegion) : Option Selection :=
  match op with
  | .and =>
    if sel.hits.any fun hit => decide (hit.getD 0 0 ≠ UInt64.ofNat ullongMax) &&
        r.isCoordWithinRegion t.ndim (hit.getD · 0) c.unit then
      c.test.map fun p =>
        let marked := sel.hits.map (r.markHit t c.unit p)
        { sel with hits := if marked = sel.hits then sel.hits
            else marked.filter fun hit => hit.getD 0 0 ≠ UInt64.ofNat ullongMax }
    else some sel
  | _ =>
    if c.test.isNone ∧ r.compared t c.unit ≠ [] then none
    else some (c.scan t sel r)

/-- The order of `memcmp` on the coordinates of hits. -/
def hitLe (a b : List UInt64) : Bool :=
  memcmpLe (a.flatMap fun x => leBytes 8 x.toNat) (b.flatMap fun x => leBytes 8 x.toNat)

/-- Duplicates are removed after an OR of two objects. -/
def removeDuplicateHits (c : CoordLeaf) (left : Option (QueryTree CoordLeaf)) (op : CombineOp)
    (sel : Selection) : Selection :=
  if op = .or ∧ 1 < sel.hits.length then
    match left with
    | some (.leaf c') =>
      if c'.objId ≠ c.objId then { sel with hits := sortUnique hitLe sel.hits } else sel
    | _ => { sel with crashed := true }
  else sel

def CoordLeaf.total (c : CoordLeaf) (sel : Selection) : Nat :=
  if sel.totalElem = 0 then (c.regions.map fun r => r.dataSize / c.unit.toNat).sum
  else sel.totalElem

/-- The leaf is left before anything is evaluated. -/
def CoordLeaf.Exits (c : CoordLeaf) (op : CombineOp) (sel : Selection) : Prop :=
  sel.crashed = true ∨ c.regions = [] ∨ (sel.hits.length = c.total sel ∧ op = .or) ∨
    (sel.hits.length = 0 ∧ op = .and) ∨ c.typed = false

instance CoordLeaf.Exits.decidable (c : CoordLeaf) (op : CombineOp) (sel : Selection) :
    Decidable (c.Exits op sel) :=
  inferInstanceAs (Decidable (_ ∨ (_ = _) ∨ _ ∨ _ ∨ _))

def CoordLeaf.evaluatedRegions (c : CoordLeaf) : List CoordRegion :=
  c.regions.filter (·.evaluated)

/-- A leaf as `PDC_query_visit` comes to it, with the left part and the operator. -/
abbrev CoordVisit := CoordLeaf × Option (QueryTree CoordLeaf) × CombineOp

/-- `PDC_Server_query_evaluate_merge_opt`. -/
def evaluateMergeOpt (t : CoordTask) (sel : Selection) : CoordVisit → Selection
  | (c, left, op) =>
    let new := { sel with totalElem := if c.regions = [] then sel.totalElem else c.total sel }
    if c.Exits op sel then new
    else
      match c.evaluatedRegions.foldlM (c.scanOpt t op) new with
      | none => new
      | some sel =>
        removeDuplicateHits c left op
          (if c.evaluatedRegions = [] ∧ op = .and then { sel with hits := [], coordsAlloc := 0 }
          else sel)

/-- The order `PDC_query_visit` takes the leaves in. -/
def QueryTree.leafVisits {α : Type} : QueryTree α → Option (QueryTree α) → CombineOp →
    List (α × Option (QueryTree α) × CombineOp)
  | .leaf a, left, op => [(a, left, op)]
  | .node op' l r, left, op => l.leafVisits left op ++ r.leafVisits (some l) op'.combineOp

end Pdc
