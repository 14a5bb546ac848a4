import Pdc.Commons.Bulki
import Pdc.Lib.PosCodec

/-!
# The BULKI wire format (`bulki_serde.c`, `bulki_vle_util.c`)

The serializer writes into one buffer and keeps its offset in it. A BULKI is
four numbers (total size, number of keys, the two counters), its keys, the
offset the writer stands at, its values, and the offset again; the reader
checks both offsets against its own. An entity is its size, a byte for type
and class, its count and its data. All numbers are varints.

The buffer is allocated from `get_BULKI_size`, where a number counts for
eight bytes although a varint may take ten, and is never checked for room: a
model of the bytes alone has to be read together with a bound on their
number. The reader follows the nesting it finds, so the model of it carries a
budget of calls, the length of the buffer.
-/

namespace Pdc

open Lib

/-- `BULKI_vle_encode_uint`: ten groups hold a `uint64_t`. -/
def vleEncodeUint (n : Nat) : Bytes := varintBytes 9 n

/-- `BULKI_vle_decode_uint`: the bits past the sixty-fourth are shifted out. -/
def vleDecodeUint : PosReader Nat := do
  let n ← PosReader.varint
  pure (n % 2 ^ 64)

/-- The loop of `BULKI_vle_encoded_uint_size`. -/
def vleSizeLoop (value bytesWritten : Nat) : Nat :=
  if value ≥ 0x80 then vleSizeLoop (value >>> 7) (bytesWritten + 1) else bytesWritten
termination_by value
decreasing_by
  rw [Nat.shiftRight_eq_div_pow]
  omega

def vleEncodedUintSize (value : Nat) : Nat := vleSizeLoop value 1

/-- The zig-zag number of a signed one. The left shift of a negative number drops its
highest bit, as compilers have it. -/
def zigzagEncoded (value : Int64) : UInt64 := ((value <<< 1) ^^^ (value >>> 63)).toUInt64

def vleEncodeInt (value : Int64) : Bytes := vleEncodeUint (zigzagEncoded value).toNat

def vleDecodeInt : PosReader Int64 := do
  let zigzag := UInt64.ofNat (← vleDecodeUint)
  pure ((zigzag >>> 1) ^^^ -(zigzag &&& 1)).toInt64

def vleEncodedIntSize (value : Int64) : Nat := vleEncodedUintSize (zigzagEncoded value).toNat

/-! ## Serialize -/

/-- `serialize_type_class`: the type in the low five bits, the class above. -/
def serializeTypeClass (ty : CVarType) (cls : CVarClass) : UInt8 :=
  UInt8.ofNat (ty.value + 32 * match cls with | .item => 0 | .array => 1)

/-- Size, type and class, count: what comes before an entity's data. -/
def Entity.head (e : Entity) : Bytes :=
  vleEncodeUint (getBulkiEntitySize e) ++
    ([serializeTypeClass e.pdcType e.pdcClass] ++ vleEncodeUint e.count)

/-- The four numbers a BULKI starts with. -/
def bulkiHead (totalSize numKeys headerSize dataSize : Nat) : Bytes :=
  vleEncodeUint totalSize ++ (vleEncodeUint numKeys ++
    (vleEncodeUint headerSize ++ vleEncodeUint dataSize))

mutual

/-- `BULKI_Entity_serialize_to_buffer` at an offset. -/
def entitySerializeTo (offset : Nat) : Entity → Bytes
  | .base cls ty count size data =>
    let e := Entity.base cls ty count size data
    e.head ++ data.take (getBulkiEntitySize e - 18)
  | .bulki count size b =>
    let head := (Entity.bulki count size b).head
    head ++ bulkiSerializeTo (offset + head.length) b
  | .bulkiArray size bs =>
    let head := (Entity.bulkiArray size bs).head
    head ++ bulkisSerializeTo (offset + head.length) bs
  | .entityArray size es =>
    let head := (Entity.entityArray size es).head
    head ++ entitiesSerializeTo (offset + head.length) es

/-- `BULKI_serialize_to_buffer` at an offset. -/
def bulkiSerializeTo (offset : Nat) : Bulki → Bytes
  | .mk totalSize headerSize dataSize keys values =>
    let head := bulkiHead totalSize keys.length headerSize dataSize
    let header := entitiesSerializeTo (offset + head.length) keys
    let ofst := offset + head.length + header.length
    let mark := vleEncodeUint ofst
    let data := entitiesSerializeTo (ofst + mark.length) values
    head ++ (header ++ (mark ++ (data ++ vleEncodeUint (ofst + mark.length + data.length))))

def bulkisSerializeTo (offset : Nat) : List Bulki → Bytes
  | [] => []
  | b :: bs =>
    let bytes := bulkiSerializeTo offset b
    bytes ++ bulkisSerializeTo (offset + bytes.length) bs

def entitiesSerializeTo (offset : Nat) : List Entity → Bytes
  | [] => []
  | e :: es =>
    let bytes := entitySerializeTo offset e
    bytes ++ entitiesSerializeTo (offset + bytes.length) es

end

/-- `BULKI_serialize`: the bytes, and the structure as the call leaves it,
its cached sizes brought up to date. -/
def bulkiSerialize (b : Bulki) : Bytes × Bulki := (bulkiSerializeTo 0 b.sized, b.sized)

/-- `BULKI_Entity_serialize`. -/
def bulkiEntitySerialize (e : Entity) : Bytes × Entity := (entitySerializeTo 0 e.sized, e.sized)

/-! ## Deserialize -/

/-- `deserialize_type_class`, for the numbers that are types. -/
def deserializeTypeClass (byte : UInt8) : Option (CVarType × CVarClass) :=
  (CVarType.ofValue (byte.toNat % 32)).map fun ty =>
    (ty, if byte.toNat / 32 % 2 = 0 then .item else .array)

/-- The data of an entity, given readers for what may be nested in it. An
item that is an entity, which nothing can build, is refused here. -/
def entityDataFrom (entity : PosReader Entity) (bulki : PosReader Bulki) (size count : Nat) :
    Option (CVarType × CVarClass) → PosReader Entity
  | none | some (.bulkiEnt, .item) => failure
  | some (.bulki, .item) => do
      let b ← bulki
      pure (.bulki count size b)
  | some (.bulki, .array) => do
      let bs ← PosReader.many bulki count
      pure (.bulkiArray size bs)
  | some (.bulkiEnt, .array) => do
      let es ← PosReader.many entity count
      pure (.entityArray size es)
  | some (ty, cls) => do
      let data ← PosReader.bytes (sub64 size 18)
      pure (.base cls ty count size data)

mutual

/-- `BULKI_Entity_deserialize_from_buffer`. -/
def entityDeserializeFrom : Nat → PosReader Entity
  | 0 => failure
  | fuel + 1 => do
      let size ← vleDecodeUint
      let typeClass ← PosReader.byte
      let count ← vleDecodeUint
      entityDataFrom (entityDeserializeFrom fuel) (bulkiDeserializeFrom fuel) size count
        (deserializeTypeClass typeClass)

/-- `BULKI_deserialize_from_buffer`. -/
def bulkiDeserializeFrom : Nat → PosReader Bulki
  | 0 => failure
  | fuel + 1 => do
      let totalSize ← vleDecodeUint
      let numKeys ← vleDecodeUint
      let headerSize ← vleDecodeUint
      let dataSize ← vleDecodeUint
      let keys ← PosReader.many (entityDeserializeFrom fuel) numKeys
      let offset ← PosReader.position
      let dataOffset ← vleDecodeUint
      PosReader.check (dataOffset == offset)
      let values ← PosReader.many (entityDeserializeFrom fuel) numKeys
      let offset ← PosReader.position
      let dataOffset ← vleDecodeUint
      PosReader.check (dataOffset == offset)
      pure (.mk totalSize headerSize dataSize keys values)

end

/-- `BULKI_deserialize`: the structure, and how many bytes were read. -/
def bulkiDeserialize (buffer : Bytes) : Option (Bulki × Nat) :=
  (bulkiDeserializeFrom buffer.length ⟨0, buffer⟩).map fun r => (r.1, r.2.pos)

/-- `BULKI_Entity_deserialize`. -/
def bulkiEntityDeserialize (buffer : Bytes) : Option (Entity × Nat) :=
  (entityDeserializeFrom buffer.length ⟨0, buffer⟩).map fun r => (r.1, r.2.pos)

end Pdc
