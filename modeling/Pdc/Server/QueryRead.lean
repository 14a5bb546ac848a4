import Pdc.Server.QueryEvaluate
import Pdc.Lib.Fill

/-!
# Reading the selected data (`pdc_server_data.c`)

A server that has coordinates looks each of them up in the storage regions of
an object and copies the element at it into one array. `PDC_Server_read_coords`
does so for coordinates that it was sent, with the regions and the type of the
object's constraint in the query; `PDC_Server_recv_read_sel_obj_data` does so
for its own part of a selection, with the regions and the type it has cached.
Both have the same loop.

A coordinate has an entry for each dimension. The start and the count of a
region are in bytes, in the order of the coordinate's entries, and the buffer
is what has been read of it. An index past its end reads what happens to be
there, which `stray` says; `junk` is what `malloc` leaves in the array.
-/

namespace Pdc

open Lib

/-- A storage region of an object, with the bytes that have been read for it. -/
structure ReadRegion (ndim : Nat) where
  start : Fin ndim → Nat
  count : Fin ndim → Nat
  buf : Bytes

/-- `coord_to_offset`. The second dimension counts only if there are two. -/
def coordToOffset : (ndim : Nat) → (coord start count : Fin ndim → Nat) → Nat → Nat
  | 0, _, _, _, _ => ullongMax
  | 1, coord, start, _, unit => coord 0 * unit - start 0
  | 2, coord, start, count, unit =>
    (coord 1 * unit - start 1) * count 0 + (coord 0 * unit - start 0)
  | 3, coord, start, count, unit =>
    (coord 2 * unit - start 2) * count 0 * count 1 + (coord 0 * unit - start 0)
  | _ + 4, _, _, _, _ => 0

/-- `is_coord_in_region`. -/
def isCoordInRegion {ndim : Nat} (coord : Fin ndim → Nat) (unit : Nat) (r : ReadRegion ndim) :
    Bool :=
  decide (0 < ndim) && decide (∀ i, ¬ (coord i * unit < r.start i ∨
    r.start i + r.count i < coord i * unit))

/-- The bytes that are copied for a coordinate in a region. -/
def ReadRegion.element {ndim : Nat} (stray : ReadRegion ndim → Nat → UInt8) (unit : Nat)
    (r : ReadRegion ndim) (coord : Fin ndim → Nat) : Bytes :=
  (List.range unit).map fun k =>
    r.buf.getD (coordToOffset ndim coord r.start r.count unit + k)
      (stray r (coordToOffset ndim coord r.start r.count unit + k))

/-- One coordinate: the first region that seems to have it is read. -/
def readCoord {ndim : Nat} (stray : ReadRegion ndim → Nat → UInt8) (unit : Nat)
    (regions : List (ReadRegion ndim)) (data : Fill UInt8) (coord : Fin ndim → Nat) :
    Option (Fill UInt8) :=
  match regions.find? (isCoordInRegion coord unit) with
  | none => some data
  | some r => data.puts (r.element stray unit coord)

/-- The loop over the coordinates, and the array it leaves. -/
def assembleData {ndim : Nat} (stray : ReadRegion ndim → Nat → UInt8) (junk : Nat → UInt8)
    (unit : Nat) (regions : List (ReadRegion ndim)) (coords : List (Fin ndim → Nat)) :
    Option Bytes :=
  (coords.foldlM (readCoord stray unit regions)
    ⟨(List.range (coords.length * unit)).map junk, 0⟩).map Fill.cells

/-! ## With the regions of the query -/

/-- `PDC_Server_get_constraint_from_query`, which looks into the left part twice. -/
def getConstraintFromQuery {α : Type} (objId : UInt64) :
    QueryTree (Constraint × α) → Option (Constraint × α)
  | .leaf c => if c.1.objId = objId then some c else none
  | .node _ left _ =>
    match getConstraintFromQuery objId left with
    | some c => some c
    | none => getConstraintFromQuery objId left

/-- `PDC_Server_read_coords`: the data that is sent, if any is. -/
def serverReadCoords {ndim : Nat} (stray : ReadRegion ndim → Nat → UInt8) (junk : Nat → UInt8)
    (query : QueryTree (Constraint × List (ReadRegion ndim))) (objId : UInt64)
    (coords : List (Fin ndim → Nat)) : Option Bytes :=
  match getConstraintFromQuery objId query with
  | none => none
  | some (c, regions) =>
    if regions.isEmpty then none
    else assembleData stray junk (getVarTypeSize c.type) regions coords

/-! ## With the cached regions -/

/-- `cache_storage_region_t`. -/
structure CacheStorageRegion (ndim : Nat) where
  objId : UInt64
  dataType : CVarType
  regions : List (ReadRegion ndim)

/-- A region is put in front of those of the first entry for its object. -/
def prependRegion {ndim : Nat} (objId : UInt64) (region : ReadRegion ndim) :
    List (CacheStorageRegion ndim) → List (CacheStorageRegion ndim)
  | [] => []
  | elt :: cache =>
    if elt.objId = objId then { elt with regions := region :: elt.regions } :: cache
    else elt :: prependRegion objId region cache

/-- `add_to_cache_storage_region`. A new entry is what `calloc` makes, with the
object's id. -/
def addToCacheStorageRegion {ndim : Nat} (cache : List (CacheStorageRegion ndim))
    (add : UInt64 × ReadRegion ndim) : List (CacheStorageRegion ndim) :=
  if cache.any fun elt => decide (elt.objId = add.1) then prependRegion add.1 add.2 cache
  else ⟨add.1, .unknown, [add.2]⟩ :: cache

/-- `PDC_Server_recv_read_sel_obj_data` at a server with a part of the
selection: the data that is sent, if any is. -/
def recvReadSelObjData {ndim : Nat} (stray : ReadRegion ndim → Nat → UInt8) (junk : Nat → UInt8)
    (cache : List (CacheStorageRegion ndim)) (objId : UInt64) (coords : List (Fin ndim → Nat)) :
    Option Bytes :=
  match cache.find? fun elt => decide (elt.objId = objId) with
  | none => none
  | some elt =>
    if elt.regions.isEmpty then none
    else assembleData stray junk (getVarTypeSize elt.dataType) elt.regions coords

end Pdc
