import Pdc.Commons.Bulki

/-!
# BULKI structures are well formed and comparable

Everything the library builds is `Valid`, and its cached sizes are the sizes:
`get_BULKI_Entity_size` changes nothing in it. On such structures
`BULKI_Entity_equal` and `BULKI_equal` decide equality. The comparison of a
base entity looks at as many bytes as the cached size says, so a stale size
would make it look at too few, and that is the only place where the caches
matter.
-/

namespace Pdc

open List Lib Bool

variable {cls : CVarClass} {count : Nat}

/-! ## Cached sizes -/

mutual

theorem getBulkiEntitySize_sized (e : Entity) :
    getBulkiEntitySize e.sized = getBulkiEntitySize e := by
  match e with
  | .base .. => rw [Entity.sized, getBulkiEntitySize, getBulkiEntitySize]
  | .bulki _ _ b =>
    rw [Entity.sized, getBulkiEntitySize, getBulkiEntitySize, getBulkiSize_sized b]
  | .bulkiArray _ bs =>
    rw [Entity.sized, getBulkiEntitySize, getBulkiEntitySize, bulkiSizes_sized bs]
  | .entityArray _ es =>
    rw [Entity.sized, getBulkiEntitySize, getBulkiEntitySize, entitySizes_sized es]

theorem getBulkiSize_sized (b : Bulki) : getBulkiSize b.sized = getBulkiSize b := by
  match b with
  | .mk _ _ _ keys values =>
    rw [Bulki.sized, getBulkiSize, getBulkiSize, entitySizes_sized keys, entitySizes_sized values]

theorem bulkiSizes_sized (bs : List Bulki) : bulkiSizes (bulkisSized bs) = bulkiSizes bs := by
  match bs with
  | [] => rw [bulkisSized]
  | b :: bs => rw [bulkisSized, bulkiSizes, bulkiSizes, getBulkiSize_sized b, bulkiSizes_sized bs]

theorem entitySizes_sized (es : List Entity) : entitySizes (entitiesSized es) = entitySizes es := by
  match es with
  | [] => rw [entitiesSized]
  | e :: es =>
    rw [entitiesSized, entitySizes, entitySizes, getBulkiEntitySize_sized e, entitySizes_sized es]

end

@[simp] theorem length_bulkisSized (bs : List Bulki) : (bulkisSized bs).length = bs.length := by
  induction bs with
  | nil => rw [bulkisSized]
  | cons b bs ih => rw [bulkisSized, length_cons, ih, length_cons]

@[simp] theorem length_entitiesSized (es : List Entity) : (entitiesSized es).length =
  es.length := by
  induction es with
  | nil => rw [entitiesSized]
  | cons e es ih => rw [entitiesSized, length_cons, ih, length_cons]

theorem eighteen_le_getBulkiEntitySize (e : Entity) : 18 ≤ getBulkiEntitySize e := by
  cases e <;> rw [getBulkiEntitySize] <;> omega

theorem length_le_bulkiSizes (bs : List Bulki) : bs.length ≤ bulkiSizes bs := by
  induction bs with
  | nil => exact Nat.zero_le _
  | cons b bs ih =>
    have hb : 48 ≤ getBulkiSize b := by cases b; rw [getBulkiSize]; omega
    rw [bulkiSizes, length_cons]
    omega

theorem length_le_entitySizes (es : List Entity) : es.length ≤ entitySizes es := by
  induction es with
  | nil => exact Nat.zero_le _
  | cons e es ih =>
    have he := eighteen_le_getBulkiEntitySize e
    rw [entitySizes, length_cons]
    omega

mutual

theorem Entity.sized_sized (e : Entity) : e.sized.sized = e.sized := by
  match e with
  | .base .. => rw [Entity.sized, Entity.sized]
  | .bulki _ _ b => rw [Entity.sized, Entity.sized, getBulkiSize_sized, Bulki.sized_sized b]
  | .bulkiArray _ bs => rw [Entity.sized, Entity.sized, bulkiSizes_sized, bulkisSized_sized bs]
  | .entityArray _ es => rw [Entity.sized, Entity.sized, entitySizes_sized, entitiesSized_sized es]

theorem Bulki.sized_sized (b : Bulki) : b.sized.sized = b.sized := by
  match b with
  | .mk _ _ _ keys values =>
    rw [Bulki.sized, Bulki.sized, entitySizes_sized, entitySizes_sized,
      entitiesSized_sized keys, entitiesSized_sized values]

theorem bulkisSized_sized (bs : List Bulki) : bulkisSized (bulkisSized bs) = bulkisSized bs := by
  match bs with
  | [] => rw [bulkisSized, bulkisSized]
  | b :: bs => rw [bulkisSized, bulkisSized, Bulki.sized_sized b, bulkisSized_sized bs]

theorem entitiesSized_sized (es : List Entity) :
    entitiesSized (entitiesSized es) = entitiesSized es := by
  match es with
  | [] => rw [entitiesSized, entitiesSized]
  | e :: es => rw [entitiesSized, entitiesSized, Entity.sized_sized e, entitiesSized_sized es]

end

/-! ## What the library builds -/

mutual

theorem Entity.Valid.sized {e : Entity} (hv : e.Valid) : e.sized.Valid := by
  match e with
  | .base .. =>
    exact hv
  | .bulki _ _ b =>
    exact ⟨hv.1, hv.2.sized⟩
  | .bulkiArray _ bs =>
    rw [Entity.Valid] at hv
    exact hv.sized
  | .entityArray _ es =>
    rw [Entity.Valid] at hv
    exact hv.sized

theorem Bulki.Valid.sized {b : Bulki} (hv : b.Valid) : b.sized.Valid := by
  match b with
  | .mk _ _ _ keys values =>
    obtain ⟨hlen, hheader, hdata, hkeys, hvalues⟩ := hv
    rw [Bulki.sized, Bulki.Valid, length_entitiesSized, length_entitiesSized]
    exact ⟨hlen, hheader, hdata, hkeys.sized, hvalues.sized⟩

theorem BulkisValid.sized {bs : List Bulki} (hv : BulkisValid bs) :
    BulkisValid (bulkisSized bs) := by
  match bs with
  | [] =>
    exact hv
  | b :: bs =>
    exact ⟨hv.1.sized, hv.2.sized⟩

theorem EntitiesValid.sized {es : List Entity} (hv : EntitiesValid es) :
    EntitiesValid (entitiesSized es) := by
  match es with
  | [] =>
    exact hv
  | e :: es =>
    exact ⟨hv.1.sized, hv.2.sized⟩

end

theorem strlen_take (data : Bytes) : strlen (data.take (strlen data + 1)) = strlen data := by
  induction data with
  | nil => rfl
  | cons b data ih =>
    by_cases hb : b = 0
    · rw [strlen, if_pos hb, take_succ_cons, strlen, if_pos hb]
    · rw [strlen, if_neg hb, take_succ_cons, strlen, if_neg hb, ih]

theorem getSizeByClassNType_take (data : Bytes) {count' : Nat}
    (ty : CVarType) (hcount : cls = .array → count' = count) :
    getSizeByClassNType (data.take (getSizeByClassNType data count cls ty)) count' cls ty =
      getSizeByClassNType data count cls ty := by
  cases cls with
  | array =>
    rw [hcount rfl]
    rfl
  | item =>
    cases ty with
    | string =>
      show strlen (data.take (strlen data + 1)) + 1 = strlen data + 1
      rw [strlen_take]
    | _ => rfl

theorem bulkiEntityBase_valid {data : Bytes} {ty : CVarType}
    {e : Entity} (h : bulkiEntityBase data count ty cls = some e) (hbulki : ty ≠ .bulki)
    (hent : ty ≠ .bulkiEnt) (hstring : cls = .array → ty ≠ .string) (hcount : count < 2 ^ 64) :
    e.Valid := by
  obtain ⟨hfits, h⟩ := Option.ite_none_right_eq_some.mp h
  obtain rfl := Option.some.inj h
  refine Entity.Valid.sized ?_
  refine ⟨hbulki, hent, fun hitem => by rw [hitem], hstring, ?_, ?_⟩
  · cases cls with
    | item => exact Nat.one_lt_two_pow (by decide)
    | array => exact hcount
  · rw [getSizeByClassNType_take data ty (by rintro rfl; rfl), length_take, Nat.min_eq_left hfits]

theorem bulkiEntityBulki_valid {b : Bulki} (hv : b.Valid) : (bulkiEntityBulki b).Valid := by
  refine Entity.Valid.sized ?_
  exact ⟨rfl, hv⟩

theorem bulkiEntityBulkis_valid {bs : List Bulki} (hv : ∀ b ∈ bs, b.Valid) :
    (bulkiEntityBulkis bs).Valid := by
  refine Entity.Valid.sized ?_
  exact bulkisValid_iff.mpr hv

theorem bulkiEntityEntities_valid {es : List Entity} (hv : ∀ e ∈ es, e.Valid) :
    (bulkiEntityEntities es).Valid := by
  refine Entity.Valid.sized ?_
  exact entitiesValid_iff.mpr hv

theorem appendBulki_valid {dest e : Entity} {src : Bulki} (h : appendBulki dest src = some e)
    (hdest : dest.Valid) (hsrc : src.Valid) : e.Valid := by
  cases dest with
  | bulkiArray size bs =>
    obtain rfl := Option.some.inj h
    rw [Entity.Valid, bulkisValid_iff] at hdest
    refine Entity.Valid.sized ?_
    rw [Entity.Valid, bulkisValid_iff, forall_mem_append, forall_mem_singleton]
    exact ⟨hdest, hsrc⟩
  | base | bulki | entityArray => cases h

theorem appendBulkiEntity_valid {dest src e : Entity} (h : appendBulkiEntity dest src = some e)
    (hdest : dest.Valid) (hsrc : src.Valid) : e.Valid := by
  cases dest with
  | entityArray size es =>
    obtain rfl := Option.some.inj h
    rw [Entity.Valid, entitiesValid_iff] at hdest
    refine Entity.Valid.sized ?_
    rw [Entity.Valid, entitiesValid_iff, forall_mem_append, forall_mem_singleton]
    exact ⟨hdest, hsrc⟩
  | base | bulki | bulkiArray => cases h

theorem bulkiInit_valid (n : Nat) : (bulkiInit n).bulki.Valid := by
  refine Bulki.Valid.sized ?_
  rw [Bulki.Valid, EntitiesValid]
  decide

theorem add64_lt (x y : Nat) : add64 x y < 2 ^ 64 := Nat.mod_lt _ (by decide)

theorem bulkiPut_valid {t : BulkiTable} {key value : Entity} (ht : t.bulki.Valid)
    (hkey : key.Valid) (hvalue : value.Valid) : (bulkiPut t key value).bulki.Valid := by
  obtain ⟨⟨total, header, data, keys, values⟩, capacity⟩ := t
  rw [Bulki.Valid, entitiesValid_iff, entitiesValid_iff] at ht
  obtain ⟨hlen, _, _, hkeys, hvalues⟩ := ht
  rw [bulkiPut]
  split
  next i _ =>
    refine Bulki.Valid.sized ?_
    rw [Bulki.Valid, length_set, entitiesValid_iff, entitiesValid_iff]
    refine ⟨hlen, add64_lt .., add64_lt .., hkeys, fun e he => ?_⟩
    rcases mem_or_eq_of_mem_set he with he | rfl
    · exact hvalues e he
    · exact hvalue
  next =>
    refine Bulki.Valid.sized ?_
    rw [Bulki.Valid, entitiesValid_iff, entitiesValid_iff, forall_mem_append,
      forall_mem_append, forall_mem_singleton, forall_mem_singleton,
      length_append, length_append]
    exact ⟨congrArg (· + 1) hlen, add64_lt .., add64_lt .., ⟨hkeys, hkey⟩, hvalues, hvalue⟩

mutual

/-- What `BULKI_ENTITY` and the append functions give, strings as items only. -/
inductive BuiltEntity : Entity → Prop where
  | base {data : Bytes} {count : Nat} {ty : CVarType} {cls : CVarClass} {e : Entity} :
      bulkiEntityBase data count ty cls = some e → ty ≠ .bulki → ty ≠ .bulkiEnt →
      (cls = .array → ty ≠ .string) → count < 2 ^ 64 → BuiltEntity e
  | bulki {t : BulkiTable} : BuiltTable t → BuiltEntity (bulkiEntityBulki t.bulki)
  | bulkis {ts : List BulkiTable} : (∀ t ∈ ts, BuiltTable t) →
      BuiltEntity (bulkiEntityBulkis (ts.map (·.bulki)))
  | entities {es : List Entity} : (∀ e ∈ es, BuiltEntity e) → BuiltEntity (bulkiEntityEntities es)
  | bulkiAppended {dest e : Entity} {t : BulkiTable} : BuiltEntity dest → BuiltTable t →
      appendBulki dest t.bulki = some e → BuiltEntity e
  | entityAppended {dest src e : Entity} : BuiltEntity dest → BuiltEntity src →
      appendBulkiEntity dest src = some e → BuiltEntity e

/-- What `BULKI_init` and `BULKI_put` give. -/
inductive BuiltTable : BulkiTable → Prop where
  | init {n : Nat} : 1 ≤ n → BuiltTable (bulkiInit n)
  | put {t : BulkiTable} {key value : Entity} : BuiltTable t → BuiltEntity key →
      BuiltEntity value → BuiltTable (bulkiPut t key value)

end

mutual

theorem BuiltEntity.valid {e : Entity} (h : BuiltEntity e) : e.Valid := by
  match h with
  | .base h hbulki hent hstring hcount => exact bulkiEntityBase_valid h hbulki hent hstring hcount
  | .bulki ht => exact bulkiEntityBulki_valid ht.valid
  | .bulkis hts =>
    refine bulkiEntityBulkis_valid ?_
    rw [forall_mem_map]
    exact fun t ht => (hts t ht).valid
  | .entities hes => exact bulkiEntityEntities_valid fun e he => (hes e he).valid
  | .bulkiAppended hdest ht h => exact appendBulki_valid h hdest.valid ht.valid
  | .entityAppended hdest hsrc h => exact appendBulkiEntity_valid h hdest.valid hsrc.valid

theorem BuiltTable.valid {t : BulkiTable} (h : BuiltTable t) : t.bulki.Valid := by
  match h with
  | .init _ => exact bulkiInit_valid _
  | .put ht hkey hvalue => exact bulkiPut_valid ht.valid hkey.valid hvalue.valid

end

/-! ## Comparing -/

mutual

theorem bulkiEntityEqual_self (e : Entity) : bulkiEntityEqual e e = true := by
  match e with
  | .base .. => simp [bulkiEntityEqual]
  | .bulki _ _ b => simp [bulkiEntityEqual, bulkiEqual_self b]
  | .bulkiArray _ bs => simp [bulkiEntityEqual, bulkisEqual_self bs]
  | .entityArray _ es => simp [bulkiEntityEqual, entitiesEqual_self es]

theorem bulkiEqual_self (b : Bulki) : bulkiEqual b b = true := by
  match b with
  | .mk _ _ _ keys values =>
    simp [bulkiEqual, entitiesEqual_self keys, entitiesEqual_self values]

theorem bulkisEqual_self (bs : List Bulki) : bulkisEqual bs bs = true := by
  match bs with
  | [] => rw [bulkisEqual]
  | b :: bs => rw [bulkisEqual, bulkiEqual_self b, bulkisEqual_self bs, Bool.and_self]

theorem entitiesEqual_self (es : List Entity) : entitiesEqual es es = true := by
  match es with
  | [] => rw [entitiesEqual]
  | e :: es => rw [entitiesEqual, bulkiEntityEqual_self e, entitiesEqual_self es, Bool.and_self]

end

mutual

theorem eq_of_bulkiEntityEqual {e e' : Entity} (hv : e.Valid) (hv' : e'.Valid)
    (hs : e.sized = e) (hs' : e'.sized = e') (h : bulkiEntityEqual e e' = true) : e = e' := by
  match e, e' with
  | .base cls ty count size data, .base cls' ty' count' size' data' =>
    simp only [bulkiEntityEqual, and_eq_true, beq_iff_eq] at h
    obtain ⟨⟨⟨⟨rfl, rfl⟩, rfl⟩, rfl⟩, hdata⟩ := h
    rw [Entity.sized, ← hv.2.2.2.2.2] at hs
    rw [Entity.sized, ← hv'.2.2.2.2.2] at hs'
    injection hs with _ _ _ hsize
    injection hs' with _ _ _ hsize'
    rw [take_of_length_le (by omega), take_of_length_le (by omega)] at hdata
    rw [hdata]
  | .bulki count size b, .bulki count' size' b' =>
    simp only [bulkiEntityEqual, and_eq_true, beq_iff_eq] at h
    obtain ⟨⟨rfl, rfl⟩, hb⟩ := h
    injection hs with _ _ hs
    injection hs' with _ _ hs'
    rw [eq_of_bulkiEqual hv.2 hv'.2 hs hs' hb]
  | .bulkiArray size bs, .bulkiArray size' bs' =>
    simp only [bulkiEntityEqual, and_eq_true, beq_iff_eq] at h
    obtain ⟨rfl, hbs⟩ := h
    injection hs with _ hs
    injection hs' with _ hs'
    rw [eq_of_bulkisEqual hv hv' hs hs' hbs]
  | .entityArray size es, .entityArray size' es' =>
    simp only [bulkiEntityEqual, and_eq_true, beq_iff_eq] at h
    obtain ⟨rfl, hes⟩ := h
    injection hs with _ hs
    injection hs' with _ hs'
    rw [eq_of_entitiesEqual hv hv' hs hs' hes]
  | .base .., .bulki .. | .base .., .bulkiArray .. | .base .., .entityArray ..
  | .bulki .., .base .. | .bulki .., .bulkiArray .. | .bulki .., .entityArray ..
  | .bulkiArray .., .base .. | .bulkiArray .., .bulki .. | .bulkiArray .., .entityArray ..
  | .entityArray .., .base .. | .entityArray .., .bulki .. | .entityArray .., .bulkiArray .. =>
    exact absurd h (by simp [bulkiEntityEqual])

theorem eq_of_bulkiEqual {b b' : Bulki} (hv : b.Valid) (hv' : b'.Valid)
    (hs : b.sized = b) (hs' : b'.sized = b') (h : bulkiEqual b b' = true) : b = b' := by
  match b, b' with
  | .mk total header data keys values, .mk total' header' data' keys' values' =>
    simp only [bulkiEqual, and_eq_true, beq_iff_eq] at h
    obtain ⟨⟨⟨⟨rfl, rfl⟩, rfl⟩, hkeys⟩, hvalues⟩ := h
    injection hs with _ _ _ hsk hsv
    injection hs' with _ _ _ hsk' hsv'
    rw [eq_of_entitiesEqual hv.2.2.2.1 hv'.2.2.2.1 hsk hsk' hkeys,
      eq_of_entitiesEqual hv.2.2.2.2 hv'.2.2.2.2 hsv hsv' hvalues]

theorem eq_of_bulkisEqual {bs bs' : List Bulki} (hv : BulkisValid bs) (hv' : BulkisValid bs')
    (hs : bulkisSized bs = bs) (hs' : bulkisSized bs' = bs') (h : bulkisEqual bs bs' = true) :
    bs = bs' := by
  match bs, bs' with
  | [], [] => rfl
  | [], _ :: _ | _ :: _, [] => exact absurd h (by simp [bulkisEqual])
  | b :: bs, b' :: bs' =>
    rw [bulkisEqual, and_eq_true] at h
    injection hs with hb hbs
    injection hs' with hb' hbs'
    rw [eq_of_bulkiEqual hv.1 hv'.1 hb hb' h.1, eq_of_bulkisEqual hv.2 hv'.2 hbs hbs' h.2]

theorem eq_of_entitiesEqual {es es' : List Entity} (hv : EntitiesValid es)
    (hv' : EntitiesValid es') (hs : entitiesSized es = es) (hs' : entitiesSized es' = es')
    (h : entitiesEqual es es' = true) : es = es' := by
  match es, es' with
  | [], [] => rfl
  | [], _ :: _ | _ :: _, [] => exact absurd h (by simp [entitiesEqual])
  | e :: es, e' :: es' =>
    rw [entitiesEqual, and_eq_true] at h
    injection hs with he hes
    injection hs' with he' hes'
    rw [eq_of_bulkiEntityEqual hv.1 hv'.1 he he' h.1, eq_of_entitiesEqual hv.2 hv'.2 hes hes' h.2]

end

/-- A well-formed entity whose cached sizes are its sizes. -/
structure Entity.Proper (e : Entity) : Prop where
  valid : e.Valid
  current : e.sized = e

theorem Entity.Proper.equal_iff {e e' : Entity} (he : e.Proper) (he' : e'.Proper) :
    bulkiEntityEqual e e' = true ↔ e = e' := by
  constructor
  · exact eq_of_bulkiEntityEqual he.valid he'.valid he.current he'.current
  · rintro rfl
    exact bulkiEntityEqual_self e

theorem BuiltEntity.proper {e : Entity} (h : BuiltEntity e) : e.Proper := by
  refine ⟨h.valid, ?_⟩
  cases h with
  | base h =>
    obtain ⟨_, h⟩ := Option.ite_none_right_eq_some.mp h
    obtain rfl := Option.some.inj h
    exact Entity.sized_sized _
  | bulki | bulkis | entities => exact Entity.sized_sized _
  | @bulkiAppended dest _ _ _ _ h =>
    cases dest with
    | bulkiArray =>
      obtain rfl := Option.some.inj h
      exact Entity.sized_sized _
    | base | bulki | entityArray => cases h
  | @entityAppended dest _ _ _ _ h =>
    cases dest with
    | entityArray =>
      obtain rfl := Option.some.inj h
      exact Entity.sized_sized _
    | base | bulki | bulkiArray => cases h

theorem BuiltTable.current {t : BulkiTable} (h : BuiltTable t) : t.bulki.sized = t.bulki := by
  cases h with
  | init => exact Bulki.sized_sized _
  | put =>
    rw [bulkiPut]
    split <;> exact Bulki.sized_sized _

theorem entitiesSized_of_proper {es : List Entity} (h : ∀ e ∈ es, e.Proper) :
    entitiesSized es = es := by
  induction es with
  | nil => rw [entitiesSized]
  | cons e es ih =>
    rw [forall_mem_cons] at h
    rw [entitiesSized, h.1.current, ih h.2]

end Pdc
