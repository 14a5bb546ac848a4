import Pdc.Proofs.BulkiSerde

/-!
# The BULKI writer stays inside its buffer

The block a structure is written into is allocated from `get_BULKI_size`, which
counts eight bytes for every number and two for the type and the class. A number
below `2 ^ 56` takes no more than eight bytes as a varint, and type and class share
one byte. So no structure with small numbers needs more than was allocated, whatever
is nested in it and whatever its data is: nothing has to be known of how the
structure was built.

The offsets that are written are no larger than the number of bytes before them, and
these are bounded by the same induction.
-/

namespace Pdc

open Lib

mutual

/-- The counts and counters are below `2 ^ 56`. -/
def Entity.Small : Entity → Prop
  | .base _ _ count _ _ => count < 2 ^ 56
  | .bulki count _ b => count < 2 ^ 56 ∧ b.Small
  | .bulkiArray _ bs => BulkisSmall bs
  | .entityArray _ es => EntitiesSmall es

@[inherit_doc Entity.Small]
def Bulki.Small : Bulki → Prop
  | .mk totalSize headerSize dataSize keys values =>
    totalSize < 2 ^ 56 ∧ headerSize < 2 ^ 56 ∧ dataSize < 2 ^ 56 ∧ EntitiesSmall keys ∧
      EntitiesSmall values

def BulkisSmall : List Bulki → Prop
  | [] => True
  | b :: bs => b.Small ∧ BulkisSmall bs

def EntitiesSmall : List Entity → Prop
  | [] => True
  | e :: es => e.Small ∧ EntitiesSmall es

end

/-- A BULKI as `BULKI_serialize_to_buffer` writes it: the sizes of the entities are brought up to
date, and the total size is what its field holds. -/
def Bulki.entitiesSized : Bulki → Bulki
  | .mk totalSize headerSize dataSize keys values =>
    .mk totalSize headerSize dataSize (Pdc.entitiesSized keys) (Pdc.entitiesSized values)

theorem Entity.Small.count_lt {e : Entity} (h : e.Small) (hsize : getBulkiEntitySize e < 2 ^ 56) :
    e.count < 2 ^ 56 := by
  cases e with
  | base cls ty count size data =>
    exact h
  | bulki count size b =>
    exact h.1
  | bulkiArray size bs =>
    have hlen := length_le_bulkiSizes bs
    rw [getBulkiEntitySize] at hsize
    rw [Entity.count]
    omega
  | entityArray size es =>
    have hlen := length_le_entitySizes es
    rw [getBulkiEntitySize] at hsize
    rw [Entity.count]
    omega

theorem BulkisSmall.small {bs : List Bulki} (h : BulkisSmall bs) : ∀ b ∈ bs, b.Small := by
  induction bs with
  | nil => simp
  | cons b bs ih =>
    exact List.forall_mem_cons.mpr ⟨h.1, ih h.2⟩

theorem EntitiesSmall.small {es : List Entity} (h : EntitiesSmall es) : ∀ e ∈ es, e.Small := by
  induction es with
  | nil => simp
  | cons e es ih =>
    exact List.forall_mem_cons.mpr ⟨h.1, ih h.2⟩

theorem shortHeads_small : ShortHeads Entity.Small Bulki.Small where
  head h hsize := by
    have hsizeBytes := length_vle_le_eight hsize
    have hcountBytes := length_vle_le_eight (h.count_lt hsize)
    rw [length_head]
    omega
  bulkiHead {b} total h htotal hkeys := by
    cases b with
    | mk _ header data keys values =>
      have hnum := length_le_entitySizes keys
      have htotalBytes := length_vle_le_eight htotal
      have hnumBytes := length_vle_le_eight (Nat.lt_of_le_of_lt hnum hkeys)
      have hheaderBytes := length_vle_le_eight h.2.1
      have hdataBytes := length_vle_le_eight h.2.2.1
      simp only [Bulki.keys, Bulki.values, Bulki.headerSize, Bulki.dataSize, length_bulkiHead]
      omega
  bulki h := by
    exact h.2
  bulkiArray h := by
    exact h.small
  entityArray h := by
    exact h.small
  keys {b} h := by
    cases b
    exact h.2.2.2.1.small
  values {b} h := by
    cases b
    exact h.2.2.2.2.small

/-- Whatever is nested in a structure and whenever its cached sizes were last brought up to date:
if its sizes, counts and counters are below `2 ^ 56`, then no more bytes are written than
`BULKI_serialize` and `BULKI_Entity_serialize` allocate. -/
theorem serialize_within_allocated :
    (∀ b : Bulki, b.Small → getBulkiSize b < 2 ^ 56 →
      (bulkiSerializeTo 0 b.entitiesSized).length ≤ getBulkiSize b ∧
      (bulkiSerialize b).1.length ≤ getBulkiSize b) ∧
    (∀ e : Entity, e.Small → getBulkiEntitySize e < 2 ^ 56 →
      (bulkiEntitySerialize e).1.length ≤ getBulkiEntitySize e) := by
  refine ⟨fun b h hsize => ⟨?_, ?_⟩, fun e h hsize => ?_⟩
  · obtain ⟨total, header, data, keys, values⟩ := b
    have htotal : total < 2 ^ 56 := by
      exact h.1
    exact length_bulkiSerializeTo_total shortHeads_small h htotal (by omega)
  · exact length_bulkiSerializeTo shortHeads_small h (by omega)
  · exact Nat.le_of_succ_le (length_entitySerializeTo shortHeads_small h (by omega))

def stringTable : Bulki :=
  .mk 88 20 20 [.base .item .string 1 20 [97, 0]] [.base .item .string 1 20 [98, 0]]

theorem serialize_within_allocated_stringTable :
    (bulkiSerializeTo 0 stringTable.entitiesSized).length ≤ 88 ∧
      (bulkiEntitySerialize (.bulki 1 114 stringTable)).1.length ≤ 114 := by
  have hsmall : stringTable.Small := by
    simp [stringTable, Bulki.Small, EntitiesSmall, Entity.Small]
  have hentity : (Entity.bulki 1 114 stringTable).Small := by
    exact ⟨by decide, hsmall⟩
  exact ⟨(serialize_within_allocated.1 _ hsmall (by decide)).1,
    serialize_within_allocated.2 _ hentity (by decide)⟩

end Pdc
