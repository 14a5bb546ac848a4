import Pdc.Commons.Generic
import Pdc.Lib.Codec

/-!
# BULKI structures (`bulki.c`, `bulki.h`)

A BULKI is a table of keys and values, both of them entities. An entity is an
item or an array of a base type, a nested BULKI, an array of BULKIs, or an
array of entities, and it caches its own size; a BULKI caches its total size
and keeps the sizes of its keys and of its values in two running counters.

An entity holds the structure it was made from. In the source it holds a
pointer, so a nested BULKI may still be extended after it was put into
another one, and then the caches above it are stale until
`get_BULKI_size` is next called on the outer one. The tree here is what the
pointers lead to at one moment, with whatever the caches and counters hold
then: `Valid` asks nothing of them but that they fit their fields.

Sizes are natural numbers; the two counters go through subtractions and are
kept modulo `2 ^ 64`, as `uint64_t` keeps them. Arrays of strings are arrays
of pointers, and are left out: `get_size_by_class_n_type` adds up the strings,
but the serializer copies that many bytes of the array of pointers.
-/

namespace Pdc

open Lib

/-! ## Sizes of base data (`pdc_generic.h`) -/

def strlen : Bytes → Nat
  | [] => 0
  | b :: bs => if b = 0 then 0 else strlen bs + 1

/-- `get_size_by_class_n_type`, arrays of strings apart. -/
def getSizeByClassNType (data : Bytes) (count : Nat) : CVarClass → CVarType → Nat
  | .item, .string => strlen data + 1
  | .item, ty => getSizeByDtype ty
  | .array, ty => count * getSizeByDtype ty

/-! ## Structures -/

mutual

/-- `BULKI_Entity`. The class and type of the nested kinds are the
constructor, and the count of an array is the length of its list. -/
inductive Entity where
  | base (pdcClass : CVarClass) (pdcType : CVarType) (count size : Nat) (data : Bytes)
  | bulki (count size : Nat) (b : Bulki)
  | bulkiArray (size : Nat) (bs : List Bulki)
  | entityArray (size : Nat) (es : List Entity)

/-- `BULKI`: its counters and its live slots, `numKeys` of them. -/
inductive Bulki where
  | mk (totalSize headerSize dataSize : Nat) (keys values : List Entity)

end

namespace Bulki

def totalSize : Bulki → Nat | mk n _ _ _ _ => n
def headerSize : Bulki → Nat | mk _ n _ _ _ => n
def dataSize : Bulki → Nat | mk _ _ n _ _ => n
def keys : Bulki → List Entity | mk _ _ _ ks _ => ks
def values : Bulki → List Entity | mk _ _ _ _ vs => vs
def numKeys (b : Bulki) : Nat := b.keys.length

end Bulki

namespace Entity

def pdcClass : Entity → CVarClass
  | .base cls .. => cls
  | .bulki .. => .item
  | .bulkiArray .. | .entityArray .. => .array

def pdcType : Entity → CVarType
  | .base _ ty .. => ty
  | .bulki .. | .bulkiArray .. => .bulki
  | .entityArray .. => .bulkiEnt

def count : Entity → Nat
  | .base _ _ count .. | .bulki count .. => count
  | .bulkiArray _ bs => bs.length
  | .entityArray _ es => es.length

/-- The cached size. -/
def size : Entity → Nat
  | .base _ _ _ size _ | .bulki _ size _ | .bulkiArray size _ | .entityArray size _ => size

end Entity

/-! ## Sizes -/

mutual

/-- `get_BULKI_Entity_size`. The test for an item that is an entity has no
`else` before it, so an item that is a BULKI is counted twice, as the BULKI
and as the pointer to it. -/
def getBulkiEntitySize : Entity → Nat
  | .base cls ty count _ data => 18 + getSizeByClassNType data count cls ty
  | .bulki _ _ b => 18 + getBulkiSize b + getSizeByDtype .bulki
  | .bulkiArray _ bs => 18 + bulkiSizes bs
  | .entityArray _ es => 18 + entitySizes es

/-- `get_BULKI_size`. -/
def getBulkiSize : Bulki → Nat
  | .mk _ _ _ keys values => 48 + entitySizes keys + entitySizes values

def bulkiSizes : List Bulki → Nat
  | [] => 0
  | b :: bs => getBulkiSize b + bulkiSizes bs

def entitySizes : List Entity → Nat
  | [] => 0
  | e :: es => getBulkiEntitySize e + entitySizes es

end

mutual

/-- The entity as `get_BULKI_Entity_size` leaves it, with every cached size
below it brought up to date. -/
def Entity.sized : Entity → Entity
  | .base cls ty count _ data => .base cls ty count (18 + getSizeByClassNType data count cls ty)
    data
  | .bulki count _ b => .bulki count (18 + getBulkiSize b + getSizeByDtype .bulki) b.sized
  | .bulkiArray _ bs => .bulkiArray (18 + bulkiSizes bs) (bulkisSized bs)
  | .entityArray _ es => .entityArray (18 + entitySizes es) (entitiesSized es)

/-- The BULKI as `get_BULKI_size` leaves it. -/
def Bulki.sized : Bulki → Bulki
  | .mk _ headerSize dataSize keys values =>
    .mk (48 + entitySizes keys + entitySizes values) headerSize dataSize
      (entitiesSized keys) (entitiesSized values)

def bulkisSized : List Bulki → List Bulki
  | [] => []
  | b :: bs => b.sized :: bulkisSized bs

def entitiesSized : List Entity → List Entity
  | [] => []
  | e :: es => e.sized :: entitiesSized es

end

/-! ## Comparing -/

mutual

/-- `BULKI_Entity_equal`. -/
def bulkiEntityEqual : Entity → Entity → Bool
  | .base cls ty count size data, .base cls' ty' count' size' data' =>
    ty == ty' && cls == cls' && count == count' && size == size' &&
      data.take (size - 18) == data'.take (size - 18)
  | .bulki count size b, .bulki count' size' b' =>
    count == count' && size == size' && bulkiEqual b b'
  | .bulkiArray size bs, .bulkiArray size' bs' => size == size' && bulkisEqual bs bs'
  | .entityArray size es, .entityArray size' es' => size == size' && entitiesEqual es es'
  | _, _ => false
termination_by structural e => e

/-- `BULKI_equal`. The capacities are not compared. -/
def bulkiEqual : Bulki → Bulki → Bool
  | .mk total header data keys values, .mk total' header' data' keys' values' =>
    total == total' && header == header' && data == data' &&
      entitiesEqual keys keys' && entitiesEqual values values'
termination_by structural b => b

def bulkisEqual : List Bulki → List Bulki → Bool
  | [], [] => true
  | b :: bs, b' :: bs' => bulkiEqual b b' && bulkisEqual bs bs'
  | _, _ => false
termination_by structural bs => bs

def entitiesEqual : List Entity → List Entity → Bool
  | [], [] => true
  | e :: es, e' :: es' => bulkiEntityEqual e e' && entitiesEqual es es'
  | _, _ => false
termination_by structural es => es

end

/-! ## Building -/

/-- `BULKI_ENTITY` for the base types: the bytes the size calls for are
copied. There is no entity if the caller's memory does not hold them. -/
def bulkiEntityBase (data : Bytes) (count : Nat) (ty : CVarType) (cls : CVarClass) :
    Option Entity :=
  let count' := match cls with | .item => 1 | .array => count
  let size := getSizeByClassNType data count cls ty
  if size ≤ data.length then some (Entity.base cls ty count' 0 (data.take size)).sized else none

/-- `BULKI_ENTITY` for an item that is a BULKI. -/
def bulkiEntityBulki (b : Bulki) : Entity := (Entity.bulki 1 0 b).sized

/-- `BULKI_ENTITY` for an array of BULKIs, and `empty_BULKI_Array_Entity`
for the empty one. -/
def bulkiEntityBulkis (bs : List Bulki) : Entity := (Entity.bulkiArray 0 bs).sized

/-- `BULKI_ENTITY` for an array of entities, and `empty_Bent_Array_Entity`
for the empty one. -/
def bulkiEntityEntities (es : List Entity) : Entity := (Entity.entityArray 0 es).sized

/-- `BULKI_ENTITY_append_BULKI`. -/
def appendBulki (dest : Entity) (src : Bulki) : Option Entity :=
  match dest with
  | .bulkiArray size bs => some (Entity.bulkiArray size (bs ++ [src])).sized
  | _ => none

/-- `BULKI_ENTITY_append_BULKI_Entity`. -/
def appendBulkiEntity (dest src : Entity) : Option Entity :=
  match dest with
  | .entityArray size es => some (Entity.entityArray size (es ++ [src])).sized
  | _ => none

/-! ## The table -/

/-- A BULKI that is being built: the structure, and how many slots the two
arrays behind it have. -/
structure BulkiTable where
  bulki : Bulki
  capacity : Nat

/-- `BULKI_init`. -/
def bulkiInit (initialFieldCount : Nat) : BulkiTable :=
  { bulki := (Bulki.mk 0 0 0 [] []).sized, capacity := initialFieldCount }

/-- The slot of a key. -/
def keySlot (b : Bulki) (key : Entity) : Option Nat :=
  b.keys.findIdx? fun k => bulkiEntityEqual k key

/-- `BULKI_get`. -/
def bulkiGet (b : Bulki) (key : Entity) : Option Entity := (keySlot b key).bind (b.values[·]?)

/-- `x -= y` and `x += y` on a `uint64_t`. -/
def sub64 (x y : Nat) : Nat := (x + (2 ^ 64 - y % 2 ^ 64)) % 2 ^ 64

@[inherit_doc sub64]
def add64 (x y : Nat) : Nat := (x + y) % 2 ^ 64

/-- `BULKI_put`. -/
def bulkiPut (t : BulkiTable) (key value : Entity) : BulkiTable :=
  let b := t.bulki
  match keySlot b key with
  | some i =>
    let existing := b.values.getD i value
    let header := add64 (sub64 b.headerSize key.size) key.size
    let data := add64 (sub64 b.dataSize existing.size) value.size
    { t with bulki := (Bulki.mk b.totalSize header data b.keys (b.values.set i value)).sized }
  | none =>
    { bulki := (Bulki.mk b.totalSize (add64 b.headerSize key.size)
        (add64 b.dataSize value.size) (b.keys ++ [key]) (b.values ++ [value])).sized
      capacity := if t.capacity ≤ b.numKeys then t.capacity * 2 else t.capacity }

/-- What `BULKI_delete` copies from: the slot before the last of the live
ones, `numKeys` having been lowered already. With no key left the index is
negative, and `stray` is what lies before the array. -/
def slotBefore (stray : Entity) (slots : List Entity) (numKeys : Nat) : Entity :=
  if numKeys = 0 then stray else slots.getD (numKeys - 1) stray

/-- `BULKI_delete`. The pointer it returns is to the slot of the key, which
has been written over by then. -/
def bulkiDelete (stray : Entity) (t : BulkiTable) (key : Entity) : BulkiTable × Option Entity :=
  let b := t.bulki
  match keySlot b key with
  | none => ({ t with bulki := b.sized }, none)
  | some i =>
    let value := b.values.getD i stray
    let header := sub64 b.headerSize key.size
    let data := sub64 b.dataSize value.size
    let numKeys := b.numKeys - 1
    let keys := b.keys.set i (slotBefore stray b.keys numKeys)
    let values := b.values.set i (slotBefore stray b.values numKeys)
    ({ t with bulki := (Bulki.mk b.totalSize header data (keys.take numKeys)
        (values.take numKeys)).sized },
      some (values.getD i stray))

/-! ## Well-formed structures -/

mutual

/-- What the library builds and can hold. -/
def Entity.Valid : Entity → Prop
  | .base cls ty count _ data =>
    ty ≠ .bulki ∧ ty ≠ .bulkiEnt ∧ (cls = .item → count = 1) ∧ (cls = .array → ty ≠ .string) ∧
      count < 2 ^ 64 ∧ data.length = getSizeByClassNType data count cls ty
  | .bulki count _ b => count = 1 ∧ b.Valid
  | .bulkiArray _ bs => BulkisValid bs
  | .entityArray _ es => EntitiesValid es

@[inherit_doc Entity.Valid]
def Bulki.Valid : Bulki → Prop
  | .mk _ headerSize dataSize keys values =>
    keys.length = values.length ∧ headerSize < 2 ^ 64 ∧ dataSize < 2 ^ 64 ∧
      EntitiesValid keys ∧ EntitiesValid values

def BulkisValid : List Bulki → Prop
  | [] => True
  | b :: bs => b.Valid ∧ BulkisValid bs

def EntitiesValid : List Entity → Prop
  | [] => True
  | e :: es => e.Valid ∧ EntitiesValid es

end

theorem bulkisValid_iff {bs : List Bulki} : BulkisValid bs ↔ ∀ b ∈ bs, b.Valid := by
  induction bs with
  | nil => simp [BulkisValid]
  | cons b bs ih => rw [BulkisValid, ih, List.forall_mem_cons]

theorem entitiesValid_iff {es : List Entity} : EntitiesValid es ↔ ∀ e ∈ es, e.Valid := by
  induction es with
  | nil => simp [EntitiesValid]
  | cons e es ih => rw [EntitiesValid, ih, List.forall_mem_cons]

end Pdc
