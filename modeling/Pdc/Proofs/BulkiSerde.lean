import Pdc.Commons.BulkiSerde
import Pdc.Proofs.Bulki

/-!
# The BULKI wire format round trips

The reader undoes the writer, structure by structure: what
`entitySerializeTo` emits at an offset is exactly what
`entityDeserializeFrom` takes there, and the same for a BULKI and for lists
of either. Two things have to be known of the bytes before that can be
shown. The offsets written into them must fit, and the budget of the reader
must cover the nesting; both follow from how many bytes there are, so
the length is bounded first.

That bound is also what keeps the writer inside its buffer. The sizes behind
the allocation give a number eight bytes, and one below `2 ^ 56` takes no
more. The two counters of a BULKI can pass that: they go through
subtractions with sizes that may have changed since they were added, and a
counter that has wrapped takes ten. What pays for those four bytes is the
byte an entity's class is counted for and not written in: every entity stays
one byte under its size, and a BULKI without keys has short offsets.
-/

namespace Pdc

open List Lib

variable {n : Nat} {ty : CVarType} {bs : Bytes}

/-! ## Numbers and types -/

theorem readsAt_vle {pos : Nat} (h : n < 2 ^ 64) :
    ReadsAt vleDecodeUint pos (vleEncodeUint n) n := by
  have hread := (@ReadsAt.varint 9 n pos (show n < 128 ^ 10 by omega)).map (· % 2 ^ 64)
  rwa [Nat.mod_eq_of_lt h] at hread

theorem one_le_length_vle (n : Nat) : 1 ≤ (vleEncodeUint n).length := one_le_length_varintBytes 9 n

theorem length_vle_le (n : Nat) : (vleEncodeUint n).length ≤ 10 := length_varintBytes_le_groups 9 n

theorem length_vle_le_eight (h : n < 2 ^ 56) : (vleEncodeUint n).length ≤ 8 :=
  length_varintBytes_le 9 (show n < 128 ^ 8 by omega)

theorem length_vle_le_one (h : n < 128) : (vleEncodeUint n).length ≤ 1 :=
  length_varintBytes_le 9 (show n < 128 ^ 1 by omega)

theorem length_vle_le_linear (n : Nat) : (vleEncodeUint n).length ≤ 4 + 2 * n := by
  by_cases hn : n < 128
  · have := length_vle_le_one hn
    omega
  · have := length_vle_le n
    omega

theorem deserializeTypeClass_serialize (ty : CVarType) (cls : CVarClass) :
    deserializeTypeClass (serializeTypeClass ty cls) = some (ty, cls) := by
  cases ty <;> cases cls <;> rfl

/-! ## The size of a number, and signed numbers -/

theorem vleSizeLoop_eq {k : Nat} (h : n < 128 ^ (k + 1)) (b : Nat) :
    vleSizeLoop n (b + 1) = b + (varintBytes k n).length := by
  induction k generalizing n b with
  | zero =>
    rw [vleSizeLoop, if_neg (by omega)]
    rfl
  | succ k ih =>
    have hdiv : n / 128 < 128 ^ (k + 1) := Nat.div_lt_of_lt_mul (by rwa [Nat.pow_succ'] at h)
    rw [vleSizeLoop, varintBytes]
    split
    · rw [if_neg (by omega), Nat.shiftRight_eq_div_pow, ih hdiv, length_cons]
      omega
    · rw [if_pos (by omega)]
      rfl

theorem length_vle_eq (h : n < 2 ^ 64) : (vleEncodeUint n).length = vleEncodedUintSize n := by
  rw [vleEncodedUintSize, vleSizeLoop_eq (show n < 128 ^ 10 by omega) 0, Nat.zero_add]
  rfl

theorem sshiftRight_last (x : BitVec 64) :
    x.sshiftRight 63 = if x.msb then .allOnes 64 else 0#64 := by
  ext i hi
  rw [BitVec.getElem_sshiftRight]
  split
  · obtain rfl : i = 0 := by omega
    cases hx : x.msb <;> simpa [BitVec.msb_eq_getLsbD_last] using hx
  · cases x.msb <;> simp [-BitVec.reduceAllOnes]

/-- The sign of `x` is the lowest bit of its zig-zag number, and tells whether the others are
flipped. -/
theorem zigzag_bits (x : BitVec 64) :
    (x <<< 1 ^^^ x.sshiftRight 63) >>> 1 ^^^ -((x <<< 1 ^^^ x.sshiftRight 63) &&& 1#64) = x := by
  have hlow : (x <<< 1 ^^^ x.sshiftRight 63) &&& 1#64 = if x.msb then 1#64 else 0#64 := by
    rw [sshiftRight_last]
    ext i hi
    cases x.msb <;> simp [-BitVec.reduceAllOnes] <;> grind
  have hlast : ∀ i < 64, ¬ 1 + i < 64 → x.getLsbD i = x.msb := by
    intro i hi hend
    rw [BitVec.msb_eq_getLsbD_last, show i = 64 - 1 by omega]
  rw [hlow, sshiftRight_last]
  ext i hi
  have hi' := hlast i hi
  cases hx : x.msb <;> by_cases hend : 1 + i < 64 <;>
    simp_all [-BitVec.reduceAllOnes, BitVec.neg_one_eq_allOnes]

theorem decode_zigzagEncoded (value : Int64) :
    ((zigzagEncoded value >>> 1) ^^^ -(zigzagEncoded value &&& 1)).toInt64 = value :=
  Int64.toBitVec_inj.mp (by simpa [zigzagEncoded] using zigzag_bits value.toBitVec)

/-- A number is read back, signed or not, with as many bytes as were written, and these are as
many as its size says. -/
theorem vle_roundTrip :
    (∀ (value : UInt64) (rest : Bytes),
      (vleEncodeUint value.toNat).length = vleEncodedUintSize value.toNat ∧
      vleDecodeUint ⟨0, vleEncodeUint value.toNat ++ rest⟩ =
        some (value.toNat, ⟨vleEncodedUintSize value.toNat, rest⟩)) ∧
    ∀ (value : Int64) (rest : Bytes),
      (vleEncodeInt value).length = vleEncodedIntSize value ∧
      vleDecodeInt ⟨0, vleEncodeInt value ++ rest⟩ =
        some (value, ⟨vleEncodedIntSize value, rest⟩) := by
  have huint : ∀ (value : UInt64) (rest : Bytes),
      vleDecodeUint ⟨0, vleEncodeUint value.toNat ++ rest⟩ =
        some (value.toNat, ⟨vleEncodedUintSize value.toNat, rest⟩) := by
    intro value rest
    rw [readsAt_vle value.toNat_lt rest, length_vle_eq value.toNat_lt, Nat.zero_add]
  refine ⟨fun value rest => ⟨length_vle_eq value.toNat_lt, huint value rest⟩,
    fun value rest => ⟨length_vle_eq (UInt64.toNat_lt _), ?_⟩⟩
  rw [vleDecodeInt, vleEncodeInt]
  simp only [StateT.bind, bind, huint, Option.bind_some, UInt64.ofNat_toNat, decode_zigzagEncoded]
  rfl

/-! ## What is written for an up-to-date structure -/

theorem head_sized (e : Entity) : e.sized.head = e.head := by
  have hsize := getBulkiEntitySize_sized e
  rw [Entity.head, hsize]
  cases e with
  | base => rw [Entity.sized]; rfl
  | bulki => rw [Entity.sized]; rfl
  | bulkiArray =>
    rw [Entity.sized, Entity.count, length_bulkisSized]
    rfl
  | entityArray =>
    rw [Entity.sized, Entity.count, length_entitiesSized]
    rfl

theorem entitySerializeTo_base {cls : CVarClass} {count size : Nat} {data : Bytes}
    (pos : Nat) (hlen : data.length = getSizeByClassNType data count cls ty) :
    entitySerializeTo pos (Entity.base cls ty count size data).sized =
      (Entity.base cls ty count size data).head ++ data := by
  have hsize : getBulkiEntitySize (.base cls ty count size data) - 18 = data.length := by
    rw [getBulkiEntitySize]
    omega
  have htake : data.take (getBulkiEntitySize (Entity.base cls ty count size data).sized - 18) =
      data := by rw [getBulkiEntitySize_sized, hsize, take_length]
  rw [Entity.sized] at htake
  rw [← head_sized, Entity.sized, entitySerializeTo, htake]

theorem entitySerializeTo_bulki (pos count size : Nat) (b : Bulki) :
    entitySerializeTo pos (Entity.bulki count size b).sized = (Entity.bulki count size b).head ++
        bulkiSerializeTo (pos + (Entity.bulki count size b).head.length) b.sized := by
  rw [← head_sized, Entity.sized, entitySerializeTo]

theorem entitySerializeTo_bulkiArray (pos size : Nat) (bs : List Bulki) :
    entitySerializeTo pos (Entity.bulkiArray size bs).sized = (Entity.bulkiArray size bs).head ++
        bulkisSerializeTo (pos + (Entity.bulkiArray size bs).head.length) (bulkisSized bs) := by
  rw [← head_sized, Entity.sized, entitySerializeTo]

theorem entitySerializeTo_entityArray (pos size : Nat) (es : List Entity) :
    entitySerializeTo pos (Entity.entityArray size es).sized =
      (Entity.entityArray size es).head ++
        entitiesSerializeTo (pos + (Entity.entityArray size es).head.length)
          (entitiesSized es) := by
  rw [← head_sized, Entity.sized, entitySerializeTo]

theorem bulkiSerializeTo_entitiesSized (pos total header data : Nat) (keys values : List Entity) :
    bulkiSerializeTo pos (.mk total header data (entitiesSized keys) (entitiesSized values)) =
      (let head := bulkiHead total keys.length header data
      let keyBytes := entitiesSerializeTo (pos + head.length) (entitiesSized keys)
      let ofst := pos + head.length + keyBytes.length
      let mark := vleEncodeUint ofst
      let valueBytes := entitiesSerializeTo (ofst + mark.length) (entitiesSized values)
      head ++ (keyBytes ++ (mark ++ (valueBytes ++
        vleEncodeUint (ofst + mark.length + valueBytes.length))))) := by
  rw [bulkiSerializeTo, length_entitiesSized]

/-! ## How many bytes are written -/

theorem length_head (e : Entity) : e.head.length =
    (vleEncodeUint (getBulkiEntitySize e)).length + (vleEncodeUint e.count).length + 1 := by
  rw [Entity.head, length_append, length_append, length_singleton]
  omega

theorem count_le_size {e : Entity} (hv : e.Valid) :
    e.count ≤ getBulkiEntitySize e ∨ getBulkiEntitySize e = 18 := by
  cases e with
  | base cls ty count size data =>
    rw [getBulkiEntitySize, Entity.count]
    cases cls with
    | item =>
      have := hv.2.2.1 rfl
      omega
    | array =>
      rw [getSizeByClassNType]
      rcases Nat.eq_zero_or_pos (getSizeByDtype ty) with hzero | hpos
      · rw [hzero]
        omega
      · have := Nat.le_mul_of_pos_right count hpos
        omega
  | bulki count size b =>
    rw [Entity.Valid] at hv
    rw [getBulkiEntitySize, Entity.count]
    omega
  | bulkiArray size bs =>
    have := length_le_bulkiSizes bs
    rw [getBulkiEntitySize, Entity.count]
    omega
  | entityArray size es =>
    have := length_le_entitySizes es
    rw [getBulkiEntitySize, Entity.count]
    omega

theorem length_head_le {e : Entity} (hv : e.Valid) (hsize : getBulkiEntitySize e < 2 ^ 56) :
    e.head.length ≤ 17 := by
  rw [length_head]
  rcases count_le_size hv with hcount | hcount
  · have h₁ := length_vle_le_eight hsize
    have h₂ := length_vle_le_eight (show e.count < 2 ^ 56 by omega)
    omega
  · have h₁ := length_vle_le_one (show getBulkiEntitySize e < 128 by omega)
    have h₂ := length_vle_le e.count
    omega

theorem length_bulkiHead (total numKeys header data : Nat) :
    (bulkiHead total numKeys header data).length =
      (vleEncodeUint total).length + (vleEncodeUint numKeys).length +
        (vleEncodeUint header).length + (vleEncodeUint data).length := by
  rw [bulkiHead, length_append, length_append, length_append]
  omega

/-- Both counters may take ten bytes. The count of keys takes four, or there
are keys enough to make up for it. -/
theorem length_bulkiHead_le {total : Nat} {keys : List Entity} (header data : Nat)
    (htotal : total < 2 ^ 56) (hkeys : entitySizes keys < 2 ^ 56) :
    (bulkiHead total keys.length header data).length ≤ 36 ∧
      (bulkiHead total keys.length header data).length ≤ 32 + 2 * keys.length := by
  have hnum := length_le_entitySizes keys
  have htotal := length_vle_le_eight htotal
  have hcount := length_vle_le_eight (show keys.length < 2 ^ 56 by omega)
  have hcount' := length_vle_le_linear keys.length
  have hheader := length_vle_le header
  have hdata := length_vle_le data
  rw [length_bulkiHead]
  omega

/-- Properties of structures that are those of their parts, and keep the bytes in front of
the data below what is counted for them. -/
structure ShortHeads (P : Entity → Prop) (Q : Bulki → Prop) : Prop where
  head : ∀ {e}, P e → getBulkiEntitySize e < 2 ^ 56 → e.head.length ≤ 17
  bulkiHead : ∀ {b : Bulki} {total}, Q b → total < 2 ^ 56 → entitySizes b.keys < 2 ^ 56 →
    (bulkiHead total b.keys.length b.headerSize b.dataSize).length ≤ 36 ∧
      (bulkiHead total b.keys.length b.headerSize b.dataSize).length ≤
        32 + b.keys.length + b.values.length
  bulki : ∀ {count size b}, P (.bulki count size b) → Q b
  bulkiArray : ∀ {size bs}, P (.bulkiArray size bs) → ∀ b ∈ bs, Q b
  entityArray : ∀ {size es}, P (.entityArray size es) → ∀ e ∈ es, P e
  keys : ∀ {b : Bulki}, Q b → ∀ e ∈ b.keys, P e
  values : ∀ {b : Bulki}, Q b → ∀ e ∈ b.values, P e

theorem shortHeads_valid : ShortHeads Entity.Valid Bulki.Valid where
  head := length_head_le
  bulkiHead {b} total h htotal hkeys := by
    have hlen := length_bulkiHead_le b.headerSize b.dataSize htotal hkeys
    cases b
    rw [Bulki.Valid] at h
    simp only [Bulki.keys, Bulki.values] at hlen ⊢
    omega
  bulki h := by
    exact h.2
  bulkiArray h := by
    exact bulkisValid_iff.mp h
  entityArray h := by
    exact entitiesValid_iff.mp h
  keys {b} h := by
    cases b
    exact entitiesValid_iff.mp h.2.2.2.1
  values {b} h := by
    cases b
    exact entitiesValid_iff.mp h.2.2.2.2

section

variable {P : Entity → Prop} {Q : Bulki → Prop}

mutual

theorem length_entitySerializeTo (h : ShortHeads P Q) {e : Entity} {pos : Nat} (he : P e)
    (hpos : pos + getBulkiEntitySize e < 2 ^ 56) :
    (entitySerializeTo pos e.sized).length + 1 ≤ getBulkiEntitySize e := by
  have hhead := h.head he (show getBulkiEntitySize e < 2 ^ 56 by omega)
  match e with
  | .base cls ty count size data =>
    rw [← head_sized, Entity.sized] at hhead
    rw [Entity.sized, entitySerializeTo, length_append, length_take, getBulkiEntitySize,
      getBulkiEntitySize]
    omega
  | .bulki count size b =>
    rw [getBulkiEntitySize] at hpos ⊢
    have hb := length_bulkiSerializeTo h (h.bulki he)
      (show pos + (Entity.bulki count size b).head.length + getBulkiSize b < 2 ^ 56 by omega)
    rw [entitySerializeTo_bulki, length_append]
    omega
  | .bulkiArray size bs =>
    rw [getBulkiEntitySize] at hpos ⊢
    have hbs := length_bulkisSerializeTo h (h.bulkiArray he)
      (show pos + (Entity.bulkiArray size bs).head.length + bulkiSizes bs < 2 ^ 56 by omega)
    rw [entitySerializeTo_bulkiArray, length_append]
    omega
  | .entityArray size es =>
    rw [getBulkiEntitySize] at hpos ⊢
    have hes := length_entitiesSerializeTo h (h.entityArray he)
      (show pos + (Entity.entityArray size es).head.length + entitySizes es < 2 ^ 56 by omega)
    rw [entitySerializeTo_entityArray, length_append]
    omega

/-- The total size that is written may be any small number. -/
theorem length_bulkiSerializeTo_total (h : ShortHeads P Q) {b : Bulki} {total pos : Nat} (hb : Q b)
    (htotal : total < 2 ^ 56) (hpos : pos + getBulkiSize b < 2 ^ 56) :
    (bulkiSerializeTo pos (.mk total b.headerSize b.dataSize (entitiesSized b.keys)
      (entitiesSized b.values))).length ≤ getBulkiSize b := by
  match b with
  | .mk _ header data keys values =>
    rw [getBulkiSize] at hpos ⊢
    show (bulkiSerializeTo pos (.mk total header data (entitiesSized keys)
      (entitiesSized values))).length ≤ _
    rw [bulkiSerializeTo_entitiesSized]
    extract_lets head keyBytes ofst mark valueBytes
    have hhead : head.length ≤ 36 ∧ head.length ≤ 32 + keys.length + values.length :=
      h.bulkiHead hb htotal (show entitySizes keys < 2 ^ 56 by omega)
    have hkeyBytes : keyBytes.length + keys.length ≤ entitySizes keys :=
      length_entitiesSerializeTo h (h.keys hb) (by omega)
    have hmark : mark.length ≤ 8 := length_vle_le_eight (by omega)
    have hvalueBytes : valueBytes.length + values.length ≤ entitySizes values :=
      length_entitiesSerializeTo h (h.values hb) (by omega)
    have hend := length_vle_le_eight (show ofst + mark.length + valueBytes.length < 2 ^ 56 by omega)
    simp only [length_append]
    omega

theorem length_bulkiSerializeTo (h : ShortHeads P Q) {b : Bulki} {pos : Nat} (hb : Q b)
    (hpos : pos + getBulkiSize b < 2 ^ 56) :
    (bulkiSerializeTo pos b.sized).length ≤ getBulkiSize b := by
  have hlen := length_bulkiSerializeTo_total h hb (show getBulkiSize b < 2 ^ 56 by omega) hpos
  cases b
  rwa [getBulkiSize] at hlen ⊢

theorem length_bulkisSerializeTo (h : ShortHeads P Q) {bs : List Bulki} {pos : Nat}
    (hbs : ∀ b ∈ bs, Q b) (hpos : pos + bulkiSizes bs < 2 ^ 56) :
    (bulkisSerializeTo pos (bulkisSized bs)).length ≤ bulkiSizes bs := by
  match bs with
  | [] => exact Nat.zero_le _
  | b :: bs =>
    rw [forall_mem_cons] at hbs
    rw [bulkiSizes] at hpos ⊢
    have hb := length_bulkiSerializeTo h hbs.1 (show pos + getBulkiSize b < 2 ^ 56 by omega)
    have hrest := length_bulkisSerializeTo h hbs.2
      (show pos + (bulkiSerializeTo pos b.sized).length + bulkiSizes bs < 2 ^ 56 by omega)
    rw [bulkisSized, bulkisSerializeTo, length_append]
    omega

theorem length_entitiesSerializeTo (h : ShortHeads P Q) {es : List Entity} {pos : Nat}
    (hes : ∀ e ∈ es, P e) (hpos : pos + entitySizes es < 2 ^ 56) :
    (entitiesSerializeTo pos (entitiesSized es)).length + es.length ≤ entitySizes es := by
  match es with
  | [] => exact Nat.zero_le _
  | e :: es =>
    rw [forall_mem_cons] at hes
    rw [entitySizes] at hpos ⊢
    have he := length_entitySerializeTo h hes.1 (show pos + getBulkiEntitySize e < 2 ^ 56 by omega)
    have hrest := length_entitiesSerializeTo h hes.2
      (show pos + (entitySerializeTo pos e.sized).length + entitySizes es < 2 ^ 56 by omega)
    rw [entitiesSized, entitiesSerializeTo, length_append, length_cons]
    omega

end

end

/-! ## The reader undoes the writer -/

theorem length_head_le_serializeTo (pos : Nat) (e : Entity) :
    e.head.length ≤ (entitySerializeTo pos e).length := by
  cases e <;> rw [entitySerializeTo, length_append] <;> exact Nat.le_add_right ..

theorem count_lt {e : Entity} (hv : e.Valid) (hsize : getBulkiEntitySize e < 2 ^ 56) :
    e.count < 2 ^ 64 := by
  cases e with
  | base cls ty count size data =>
    exact hv.2.2.2.2.1
  | bulki count size b =>
    rw [Entity.Valid] at hv
    rw [Entity.count]
    omega
  | bulkiArray size bs =>
    have := length_le_bulkiSizes bs
    rw [getBulkiEntitySize] at hsize
    rw [Entity.count]
    omega
  | entityArray size es =>
    have := length_le_entitySizes es
    rw [getBulkiEntitySize] at hsize
    rw [Entity.count]
    omega

theorem entityDataFrom_base (hbulki : ty ≠ .bulki) (hent : ty ≠ .bulkiEnt)
    (entity : PosReader Entity) (bulki : PosReader Bulki) (size count : Nat) (cls : CVarClass) :
    entityDataFrom entity bulki size count (some (ty, cls)) = (do
      let data ← PosReader.bytes (sub64 size 18)
      pure (.base cls ty count size data)) := by
  cases ty with
  | bulki => exact absurd rfl hbulki
  | bulkiEnt => exact absurd rfl hent
  | _ => rfl

theorem readsAt_head {fuel pos : Nat} {e x : Entity} (hv : e.Valid)
    (hsize : getBulkiEntitySize e < 2 ^ 56)
    (h : ReadsAt (entityDataFrom (entityDeserializeFrom fuel) (bulkiDeserializeFrom fuel)
      (getBulkiEntitySize e) e.count (some (e.pdcType, e.pdcClass))) (pos + e.head.length) bs x) :
    ReadsAt (entityDeserializeFrom (fuel + 1)) pos (e.head ++ bs) x := by
  have hcount := count_lt hv hsize
  rw [← deserializeTypeClass_serialize] at h
  rw [Entity.head, append_assoc]
  refine (readsAt_vle (by omega)).bind ((ReadsAt.byte _).bind ((readsAt_vle hcount).bind ?_))
  have hend : pos + (vleEncodeUint (getBulkiEntitySize e)).length + 1 +
      (vleEncodeUint e.count).length = pos + e.head.length := by
    rw [length_head]
    omega
  rw [length_singleton, hend]
  exact h

theorem readsAt_bulkiHead {α : Type} {pos total num header data : Nat} {x : α}
    {f : Nat → Nat → Nat → Nat → PosReader α} (htotal : total < 2 ^ 64) (hnum : num < 2 ^ 64)
    (hheader : header < 2 ^ 64) (hdata : data < 2 ^ 64)
    (h : ReadsAt (f total num header data) (pos + (bulkiHead total num header data).length) bs x) :
    ReadsAt (do
      let total ← vleDecodeUint
      let num ← vleDecodeUint
      let header ← vleDecodeUint
      let data ← vleDecodeUint
      f total num header data) pos (bulkiHead total num header data ++ bs) x := by
  have hend : pos + (vleEncodeUint total).length + (vleEncodeUint num).length +
      (vleEncodeUint header).length + (vleEncodeUint data).length =
        pos + (bulkiHead total num header data).length := by
    rw [length_bulkiHead]
    omega
  rw [bulkiHead, append_assoc, append_assoc, append_assoc]
  refine (readsAt_vle htotal).bind ((readsAt_vle hnum).bind ((readsAt_vle hheader).bind
    ((readsAt_vle hdata).bind ?_)))
  rw [hend]
  exact h

mutual

theorem readsAt_entity (fuel : Nat) {pos : Nat} {e : Entity} (hv : e.Valid)
    (hpos : pos + getBulkiEntitySize e < 2 ^ 56)
    (hfuel : (entitySerializeTo pos e.sized).length ≤ fuel) :
    ReadsAt (entityDeserializeFrom fuel) pos (entitySerializeTo pos e.sized) e.sized := by
  have hsize : getBulkiEntitySize e < 2 ^ 56 := by omega
  have hhead := length_head_le hv hsize
  have hpositive : 1 ≤ e.head.length := by rw [length_head]; omega
  cases fuel with
  | zero =>
    have := length_head_le_serializeTo pos e.sized
    rw [head_sized] at this
    omega
  | succ fuel =>
  match e with
  | .base cls ty count size data =>
    have hbase := hv
    obtain ⟨hbulki, hent, _, _, _, hlen⟩ := hbase
    rw [entitySerializeTo_base pos hlen]
    refine readsAt_head hv hsize ?_
    rw [getBulkiEntitySize] at hsize ⊢
    have hbytes : sub64 (18 + getSizeByClassNType data count cls ty) 18 = data.length := by
      rw [sub64]
      omega
    show ReadsAt (entityDataFrom _ _ _ count (some (ty, cls))) _ data _
    rw [entityDataFrom_base hbulki hent, hbytes]
    exact (ReadsAt.bytes data).map _
  | .bulki count size b =>
    have hnested := hv
    rw [getBulkiEntitySize] at hpos
    rw [entitySerializeTo_bulki] at hfuel ⊢
    rw [length_append] at hfuel
    have hb := readsAt_bulki fuel hnested.2
      (show pos + (Entity.bulki count size b).head.length + getBulkiSize b < 2 ^ 56 by omega)
      (by omega)
    refine readsAt_head hv hsize ?_
    exact hb.map _
  | .bulkiArray size bs =>
    have hnested := hv
    rw [getBulkiEntitySize] at hpos
    rw [entitySerializeTo_bulkiArray] at hfuel ⊢
    rw [length_append] at hfuel
    have hbs := readsAt_bulkis fuel hnested
      (show pos + (Entity.bulkiArray size bs).head.length + bulkiSizes bs < 2 ^ 56 by omega)
      (by omega)
    refine readsAt_head hv hsize ?_
    exact hbs.map _
  | .entityArray size es =>
    have hnested := hv
    rw [getBulkiEntitySize] at hpos
    rw [entitySerializeTo_entityArray] at hfuel ⊢
    rw [length_append] at hfuel
    have hes := readsAt_entities fuel hnested
      (show pos + (Entity.entityArray size es).head.length + entitySizes es < 2 ^ 56 by omega)
      (by omega)
    refine readsAt_head hv hsize ?_
    exact hes.map _

theorem readsAt_bulki (fuel : Nat) {pos : Nat} {b : Bulki} (hv : b.Valid)
    (hpos : pos + getBulkiSize b < 2 ^ 56) (hfuel : (bulkiSerializeTo pos b.sized).length ≤ fuel) :
    ReadsAt (bulkiDeserializeFrom fuel) pos (bulkiSerializeTo pos b.sized) b.sized := by
  match b with
  | .mk total header data keys values =>
    obtain ⟨hlen, hheader, hdata, hkeys, hvalues⟩ := hv
    rw [getBulkiSize] at hpos
    rw [Bulki.sized, bulkiSerializeTo_entitiesSized] at hfuel ⊢
    extract_lets head keyBytes ofst mark valueBytes
    replace hfuel : (head ++ (keyBytes ++ (mark ++ (valueBytes ++
      vleEncodeUint (ofst + mark.length + valueBytes.length))))).length ≤ fuel := hfuel
    have hhead : head.length ≤ 36 ∧ head.length ≤ 32 + 2 * keys.length :=
      length_bulkiHead_le header data (by omega) (by omega)
    have hkeyBytes : keyBytes.length + keys.length ≤ entitySizes keys :=
      length_entitiesSerializeTo shortHeads_valid (entitiesValid_iff.mp hkeys) (by omega)
    have hmark : mark.length ≤ 8 := length_vle_le_eight (by omega)
    have hvalueBytes : valueBytes.length + values.length ≤ entitySizes values :=
      length_entitiesSerializeTo shortHeads_valid (entitiesValid_iff.mp hvalues) (by omega)
    simp only [length_append] at hfuel
    cases fuel with
    | zero =>
      have hone : 1 ≤ mark.length := one_le_length_vle ofst
      omega
    | succ fuel =>
      have hone : 1 ≤ mark.length := one_le_length_vle ofst
      have hread := readsAt_entities fuel hkeys
        (show pos + head.length + entitySizes keys < 2 ^ 56 by omega)
        (show keyBytes.length ≤ fuel by omega)
      have hread' := readsAt_entities fuel hvalues
        (show ofst + mark.length + entitySizes values < 2 ^ 56 by omega)
        (show valueBytes.length ≤ fuel by omega)
      rw [← hlen] at hread'
      refine readsAt_bulkiHead (by omega) (by omega) hheader hdata (hread.bind ?_)
      refine ReadsAt.position.bind_nil ((readsAt_vle (by omega)).bind ?_)
      refine (ReadsAt.check (by rw [beq_iff_eq])).bind_nil (hread'.bind ?_)
      refine ReadsAt.position.bind_nil ?_
      rw [← append_nil (vleEncodeUint _)]
      refine (readsAt_vle (by omega)).bind ?_
      refine (ReadsAt.check (by rw [beq_iff_eq])).bind_nil ?_
      exact ReadsAt.pure _

theorem readsAt_bulkis (fuel : Nat) {pos : Nat} {bs : List Bulki} (hv : BulkisValid bs)
    (hpos : pos + bulkiSizes bs < 2 ^ 56)
    (hfuel : (bulkisSerializeTo pos (bulkisSized bs)).length ≤ fuel) :
    ReadsAt (PosReader.many (bulkiDeserializeFrom fuel) bs.length) pos
      (bulkisSerializeTo pos (bulkisSized bs)) (bulkisSized bs) := by
  match bs with
  | [] =>
    exact ReadsAt.many_zero
  | b :: bs =>
    rw [bulkiSizes] at hpos
    rw [bulkisSized, bulkisSerializeTo] at hfuel ⊢
    rw [length_append] at hfuel
    have hfirst : pos + getBulkiSize b < 2 ^ 56 := by omega
    have hlen := length_bulkiSerializeTo shortHeads_valid hv.1 hfirst
    have hb := readsAt_bulki fuel hv.1 hfirst (by omega)
    have hbs := readsAt_bulkis fuel hv.2
      (show pos + (bulkiSerializeTo pos b.sized).length + bulkiSizes bs < 2 ^ 56 by omega)
      (by omega)
    exact hb.many_succ hbs

theorem readsAt_entities (fuel : Nat) {pos : Nat} {es : List Entity} (hv : EntitiesValid es)
    (hpos : pos + entitySizes es < 2 ^ 56)
    (hfuel : (entitiesSerializeTo pos (entitiesSized es)).length ≤ fuel) :
    ReadsAt (PosReader.many (entityDeserializeFrom fuel) es.length) pos
      (entitiesSerializeTo pos (entitiesSized es)) (entitiesSized es) := by
  match es with
  | [] =>
    exact ReadsAt.many_zero
  | e :: es =>
    rw [entitySizes] at hpos
    rw [entitiesSized, entitiesSerializeTo] at hfuel ⊢
    rw [length_append] at hfuel
    have hfirst : pos + getBulkiEntitySize e < 2 ^ 56 := by omega
    have hlen := length_entitySerializeTo shortHeads_valid hv.1 hfirst
    have he := readsAt_entity fuel hv.1 hfirst (by omega)
    have hes := readsAt_entities fuel hv.2
      (show pos + (entitySerializeTo pos e.sized).length + entitySizes es < 2 ^ 56 by omega)
      (by omega)
    exact he.many_succ hes

end

/-! ## The round trip -/

/-- The structure read back is the one that was written, all of the buffer
is read, and all of it lay in the block that was allocated for it. The bound
is the allocation's: no 64-bit machine gives a process `2 ^ 56` bytes. The
serializer brings the caches of its argument up to date and changes nothing
else in it; in what the library's calls build they are up to date already. -/
theorem bulkiSerialize_roundTrip :
    (∀ b : Bulki, b.Valid → getBulkiSize b < 2 ^ 56 → (bulkiSerialize b).1.length ≤ getBulkiSize b ∧
      (bulkiSerialize b).2 = b.sized ∧
      ∃ b', bulkiDeserialize (bulkiSerialize b).1 = some (b', (bulkiSerialize b).1.length) ∧
        bulkiEqual b.sized b' = true) ∧
    (∀ e : Entity, e.Valid → getBulkiEntitySize e < 2 ^ 56 →
      (bulkiEntitySerialize e).1.length ≤ getBulkiEntitySize e ∧
      (bulkiEntitySerialize e).2 = e.sized ∧
      ∃ e', bulkiEntityDeserialize (bulkiEntitySerialize e).1 =
          some (e', (bulkiEntitySerialize e).1.length) ∧
        bulkiEntityEqual e.sized e' = true) ∧
    (∀ t, BuiltTable t → t.bulki.Valid ∧ t.bulki.sized = t.bulki) ∧
    (∀ e, BuiltEntity e → e.Valid ∧ e.sized = e) := by
  refine ⟨?_, ?_, fun t ht => ⟨ht.valid, ht.current⟩, fun e he => ⟨he.valid, he.proper.current⟩⟩
  · intro b hv hsize
    have hpos : 0 + getBulkiSize b < 2 ^ 56 := by omega
    refine ⟨length_bulkiSerializeTo shortHeads_valid hv hpos, rfl, b.sized, ?_, bulkiEqual_self _⟩
    have hread := (readsAt_bulki _ hv hpos (Nat.le_refl _)).run_eq
    rw [bulkiSerialize, bulkiDeserialize, hread, Option.map_some, Nat.zero_add]
  · intro e hv hsize
    have hpos : 0 + getBulkiEntitySize e < 2 ^ 56 := by omega
    refine ⟨Nat.le_of_succ_le (length_entitySerializeTo shortHeads_valid hv hpos), rfl, e.sized, ?_,
      bulkiEntityEqual_self _⟩
    have hread := (readsAt_entity _ hv hpos (Nat.le_refl _)).run_eq
    rw [bulkiEntitySerialize, bulkiEntityDeserialize, hread, Option.map_some, Nat.zero_add]

/-- A table with the string key `"a"` and an empty BULKI under it. -/
def nestedTable : BulkiTable :=
  bulkiPut (bulkiInit 1) (.base .item .string 1 20 [97, 0]) (bulkiEntityBulki (bulkiInit 1).bulki)

/-- The table, and the table as an entity. -/
theorem bulkiSerialize_roundTrip_nested :
    ∃ b e, bulkiDeserialize (bulkiSerialize nestedTable.bulki).1 = some (b, 21) ∧
      bulkiEqual nestedTable.bulki b = true ∧
      bulkiEntityDeserialize (bulkiEntitySerialize (bulkiEntityBulki nestedTable.bulki)).1 =
        some (e, 25) ∧
      bulkiEntityEqual (bulkiEntityBulki nestedTable.bulki) e = true := by
  have hkey : BuiltEntity (.base .item .string 1 20 [97, 0]) :=
    @BuiltEntity.base [97, 0] 1 .string .item _ rfl (by decide) (by decide) (by decide) (by decide)
  have ht : BuiltTable nestedTable := .put (.init (by decide)) hkey (.bulki (.init (by decide)))
  obtain ⟨htables, hentities, hbuilt, hbuiltEntity⟩ := bulkiSerialize_roundTrip
  obtain ⟨hv, hcurrent⟩ := hbuilt _ ht
  obtain ⟨hv', hcurrent'⟩ := hbuiltEntity _ (.bulki ht)
  obtain ⟨_, _, b, hb, heq⟩ := htables _ hv (by decide)
  obtain ⟨_, _, e, he, heq'⟩ := hentities _ hv' (by decide)
  rw [hcurrent] at heq
  rw [hcurrent'] at heq'
  exact ⟨b, e, hb, heq, he, heq'⟩

end Pdc
