import Pdc.Lib.Slots
import Pdc.Proofs.Bulki

/-!
# A BULKI as a finite map

The keys and values of a BULKI are two parallel arrays, and `Holds t m` says
that they hold the map `m`, that no entity in them has a stale size, that the
two counters are the sums they should be, and that the arrays have room.
`BULKI_put` keeps this whatever it is given. `BULKI_delete` does not:
it lowers `numKeys` first and then copies slot `numKeys - 1` over the slot of
the key, which is the last but one of the slots that were live. Deleting any
key but the last one loses the last key, and a pointer to the slot is
returned after it has been written over.

What is left is a key that is not there, or the last of at least two keys if
the value before it is the same: `DeleteRight`. A run whose deletions are all
of that kind keeps the map.
-/

namespace Pdc

open List Lib Option

variable {k v : Entity} {es values keys : List Entity} {m : Entity → Option Entity} {t : BulkiTable}
  (stray : Entity) {capacity header total data n i x y z : Nat} {b : Bulki}

/-! ## Slots -/

theorem keySlot_eq_none_iff (hkeys : ∀ e ∈ b.keys, e.Proper) (hk : k.Proper) :
    keySlot b k = none ↔ k ∉ b.keys := by
  rw [keySlot, findIdx?_eq_none_iff]
  constructor
  · intro h hmem
    have := h k hmem
    rw [bulkiEntityEqual_self] at this
    cases this
  · intro h e he
    rw [Bool.eq_false_iff, Ne, (hkeys e he).equal_iff hk]
    rintro rfl
    exact h he

theorem keySlot_eq_some (hkeys : ∀ e ∈ b.keys, e.Proper) (hk : k.Proper)
    (h : keySlot b k = some i) : b.keys[i]? = some k := by
  obtain ⟨hi, heq, _⟩ := findIdx?_eq_some_iff_getElem.mp h
  rw [getElem?_eq_getElem hi, (hkeys _ (getElem_mem hi)).equal_iff hk |>.mp heq]

/-! ## The counters -/

def sizeSum (es : List Entity) : Nat := (es.map Entity.size).sum

theorem sizeSum_append_singleton (es : List Entity) (e : Entity) :
    sizeSum (es ++ [e]) = sizeSum es + e.size := by
  rw [sizeSum, map_append, sum_append]
  rfl

theorem sizeSum_set {old : Entity} (h : es[i]? = some old) (e : Entity) :
    sizeSum (es.set i e) + old.size = sizeSum es + e.size := by
  induction es generalizing i with
  | nil => cases h
  | cons x es ih =>
    cases i with
    | zero =>
      obtain rfl := some.inj h
      show e.size + sizeSum es + x.size = x.size + sizeSum es + e.size
      omega
    | succ i =>
      have := ih h
      show x.size + sizeSum (es.set i e) + old.size = x.size + sizeSum es + e.size
      omega

theorem add64_mod (x y : Nat) : add64 (x % 2 ^ 64) y = (x + y) % 2 ^ 64 := by
  rw [add64]
  omega

theorem sub64_mod (h : z + y = x) : sub64 (x % 2 ^ 64) y = z % 2 ^ 64 := by
  rw [sub64]
  omega

theorem add64_sub64_mod {w : Nat} (h : w + y = x + z) :
    add64 (sub64 (x % 2 ^ 64) y) z = w % 2 ^ 64 := by
  rw [add64, sub64]
  omega

/-! ## What the arrays hold -/

/-- The table holds the map. -/
structure Holds (t : BulkiTable) (m : Entity → Option Entity) : Prop where
  slots : Slots t.bulki.keys t.bulki.values m
  keys : ∀ e ∈ t.bulki.keys, e.Proper
  values : ∀ e ∈ t.bulki.values, e.Proper
  header : t.bulki.headerSize = sizeSum t.bulki.keys % 2 ^ 64
  data : t.bulki.dataSize = sizeSum t.bulki.values % 2 ^ 64
  room : t.bulki.numKeys ≤ t.capacity
  positive : 1 ≤ t.capacity

theorem Holds.of_mk
    (hslots : Slots keys values m) (hkeys : ∀ e ∈ keys, e.Proper) (hvalues : ∀ e ∈ values, e.Proper)
    (hheader : header = sizeSum keys % 2 ^ 64) (hdata : data = sizeSum values % 2 ^ 64)
    (hroom : keys.length ≤ capacity) (hpos : 1 ≤ capacity) :
    Holds ⟨(Bulki.mk total header data keys values).sized, capacity⟩ m := by
  rw [Bulki.sized, entitiesSized_of_proper hkeys, entitiesSized_of_proper hvalues]
  exact ⟨hslots, hkeys, hvalues, hheader, hdata, hroom, hpos⟩

theorem holds_init (hn : 1 ≤ n) : Holds (bulkiInit n) fun _ => none :=
  Holds.of_mk Slots.nil (by simp) (by simp) rfl rfl (Nat.zero_le n) hn

theorem Holds.get (h : Holds t m) (hk : k.Proper) : bulkiGet t.bulki k = m k := by
  rw [bulkiGet]
  cases hslot : keySlot t.bulki k with
  | none =>
    rw [bind_none, h.slots.eq_none ((keySlot_eq_none_iff h.keys hk).mp hslot)]
  | some i =>
    rw [bind_some, h.slots.value_eq (keySlot_eq_some h.keys hk hslot)]

theorem holds_mk_iff :
    Holds ⟨.mk total header data keys values, capacity⟩ m ↔
      Slots keys values m ∧ (∀ e ∈ keys, e.Proper) ∧ (∀ e ∈ values, e.Proper) ∧
        header = sizeSum keys % 2 ^ 64 ∧ data = sizeSum values % 2 ^ 64 ∧
        keys.length ≤ capacity ∧ 1 ≤ capacity :=
  ⟨fun h => ⟨h.slots, h.keys, h.values, h.header, h.data, h.room, h.positive⟩,
    fun ⟨h₁, h₂, h₃, h₄, h₅, h₆, h₇⟩ => ⟨h₁, h₂, h₃, h₄, h₅, h₆, h₇⟩⟩

/-! ## Put -/

theorem Holds.put (h : Holds t m) (hk : k.Proper) (hv : v.Proper) :
    Holds (bulkiPut t k v) (mapStep m (.put k v)) := by
  obtain ⟨⟨total, header, data, keys, values⟩, capacity⟩ := t
  obtain ⟨hslots, hkeys, hvalues, hheader, hdata, hroom, hpos⟩ := holds_mk_iff.mp h
  rw [bulkiPut]
  split
  next i hslot =>
    have hi : keys[i]? = some k := keySlot_eq_some h.keys hk hslot
    have hlt : i < values.length := hslots.length_eq ▸ (List.getElem?_eq_some_iff.mp hi).1
    have hold : values[i]? = some values[i] := getElem?_eq_getElem hlt
    refine Holds.of_mk (hslots.set hi v) hkeys ?_ ?_ ?_ hroom hpos
    · intro e he
      rcases mem_or_eq_of_mem_set he with he | rfl
      · exact hvalues e he
      · exact hv
    · show add64 (sub64 header k.size) k.size = sizeSum keys % 2 ^ 64
      rw [hheader, add64_sub64_mod rfl]
    · show add64 (sub64 data (values.getD i v).size) v.size = sizeSum (values.set i v) % 2 ^ 64
      rw [getD_eq_getElem?_getD, hold, getD_some, hdata,
        add64_sub64_mod (sizeSum_set hold v)]
  next hslot =>
    have hnew : k ∉ keys := (keySlot_eq_none_iff h.keys hk).mp hslot
    refine Holds.of_mk (hslots.append hnew v) ?_ ?_ ?_ ?_ ?_ ?_
    · show ∀ e ∈ keys ++ [k], e.Proper
      rw [forall_mem_append, forall_mem_singleton]
      exact ⟨hkeys, hk⟩
    · show ∀ e ∈ values ++ [v], e.Proper
      rw [forall_mem_append, forall_mem_singleton]
      exact ⟨hvalues, hv⟩
    · show add64 header k.size = sizeSum (keys ++ [k]) % 2 ^ 64
      rw [hheader, add64_mod, sizeSum_append_singleton]
    · show add64 data v.size = sizeSum (values ++ [v]) % 2 ^ 64
      rw [hdata, add64_mod, sizeSum_append_singleton]
    · show (keys ++ [k]).length ≤ if capacity ≤ keys.length then capacity * 2 else capacity
      rw [length_append, length_singleton]
      split <;> omega
    · show 1 ≤ if capacity ≤ keys.length then capacity * 2 else capacity
      split <;> omega

/-! ## Delete -/

/-- The deletions `BULKI_delete` gets right. -/
def DeleteRight (t : BulkiTable) : MapOp Entity Entity → Prop
  | .put _ _ => True
  | .delete k =>
    keySlot t.bulki k = none ∨
      2 ≤ t.bulki.numKeys ∧ keySlot t.bulki k = some (t.bulki.numKeys - 1) ∧
        t.bulki.values[t.bulki.numKeys - 2]? = t.bulki.values[t.bulki.numKeys - 1]?

theorem last_slots (a b : Entity) (hn : es.length = n) :
    slotBefore stray (es ++ [a, b]) (n + 1) = a ∧
      ((es ++ [a, b]).set (n + 1) a).take (n + 1) = es ++ [a] ∧
      ((es ++ [a, b]).set (n + 1) a).getD (n + 1) stray = a ∧
      (es ++ [a, b]).getD (n + 1) stray = b := by
  subst hn
  simp [slotBefore, take_append]

theorem bulkiDelete_last {stray kl vl : Entity}
    (hlen : keys.length = values.length)
    (h : keySlot (.mk total header data (keys ++ [kl, k]) (values ++ [vl,
      v])) k = some (keys.length + 1)) :
    bulkiDelete stray ⟨.mk total header data (keys ++ [kl, k]) (values ++ [vl, v]), capacity⟩ k =
      (⟨(Bulki.mk total (sub64 header k.size) (sub64 data v.size) (keys ++ [kl])
        (values ++ [vl])).sized, capacity⟩, some vl) := by
  have hnum : (Bulki.mk total header data (keys ++ [kl, k]) (values ++ [vl, v])).numKeys - 1 =
      keys.length + 1 := by simp [Bulki.numKeys, Bulki.keys]
  obtain ⟨hk₁, hk₂, -, -⟩ := last_slots stray kl k (rfl : keys.length = _)
  obtain ⟨hv₁, hv₂, hv₃, hv₄⟩ := last_slots stray vl v hlen.symm
  rw [bulkiDelete]
  simp only [h, hnum, Bulki.keys, Bulki.values, Bulki.totalSize, Bulki.headerSize, Bulki.dataSize,
    hk₁, hk₂, hv₁, hv₂, hv₃, hv₄]

theorem exists_last_two (h : 2 ≤ es.length) : ∃ init a b, es = init ++ [a, b] := by
  obtain ⟨rest, b, rfl⟩ := (eq_nil_or_concat es).resolve_left (by rintro rfl; simp at h)
  obtain ⟨init, a, rfl⟩ := (eq_nil_or_concat rest).resolve_left (by rintro rfl; simp at h)
  exact ⟨init, a, b, by simp⟩

theorem Holds.delete (h : Holds t m) (hk : k.Proper) (hright : DeleteRight t (.delete k))
    (stray : Entity) :
    Holds (bulkiDelete stray t k).1 (mapStep m (.delete k)) ∧ (bulkiDelete stray t k).2 = m k := by
  obtain ⟨⟨total, header, data, keys, values⟩, capacity⟩ := t
  obtain ⟨hslots, hkeys, hvalues, hheader, hdata, hroom, hpos⟩ := holds_mk_iff.mp h
  rcases hright with habsent | ⟨htwo, hlast, hsame⟩
  · have hnot : k ∉ keys := (keySlot_eq_none_iff h.keys hk).mp habsent
    rw [bulkiDelete, habsent, hslots.eq_none hnot]
    exact ⟨Holds.of_mk (hslots.delete_absent hnot) hkeys hvalues hheader hdata hroom hpos, rfl⟩
  · have hki : keys[keys.length - 1]? = some k := keySlot_eq_some h.keys hk hlast
    replace htwo : 2 ≤ keys.length := htwo
    replace hlast : keySlot (.mk total header data keys values) k = some (keys.length - 1) := hlast
    replace hsame : values[keys.length - 2]? = values[keys.length - 1]? := hsame
    obtain ⟨values, vl, v, rfl⟩ := exists_last_two (show 2 ≤ values.length from
      hslots.length_eq ▸ htwo)
    obtain ⟨keys, kl, k', rfl⟩ := exists_last_two htwo
    have hlen : keys.length = values.length := by simpa using hslots.length_eq
    have hnum : (keys ++ [kl, k']).length = keys.length + 2 := by simp
    rw [hnum] at hki hlast hsame hroom
    obtain rfl : k' = k := by simpa using hki
    obtain rfl : vl = v := by simpa [hlen] using hsame
    rw [bulkiDelete_last hlen hlast,
      @hslots.value (keys.length + 1) k' vl (by simp) (by simp [hlen])]
    -- The two arrays without their last slot.
    rw [append_cons keys, append_cons values] at hslots
    rw [append_cons keys] at hkeys hheader
    rw [append_cons values] at hvalues hdata
    rw [forall_mem_append] at hkeys hvalues
    rw [sizeSum_append_singleton] at hheader hdata
    refine ⟨Holds.of_mk hslots.dropLast hkeys.1 hvalues.1 ?_ ?_ ?_ hpos, rfl⟩
    · rw [hheader, sub64_mod rfl]
    · rw [hdata, sub64_mod rfl]
    · rw [length_append, length_singleton]
      omega

/-! ## Runs -/

def bulkiStep (stray : Entity) (t : BulkiTable) : MapOp Entity Entity → BulkiTable
  | .put k v => bulkiPut t k v
  | .delete k => (bulkiDelete stray t k).1

/-- The entities of an action are ones the library builds. -/
def OpProper : MapOp Entity Entity → Prop
  | .put k v => k.Proper ∧ v.Proper
  | .delete k => k.Proper

theorem Holds.step (h : Holds t m) {op : MapOp Entity Entity} (hop : OpProper op)
    (hright : DeleteRight t op) (stray : Entity) : Holds (bulkiStep stray t op) (mapStep m op) := by
  cases op with
  | put k v => exact h.put hop.1 hop.2
  | delete k => exact (h.delete hop hright stray).1

theorem Holds.run (hn : 1 ≤ n) (stray : Entity) {ops : List (MapOp Entity Entity)}
    (hops : ∀ op ∈ ops, OpProper op)
    (hrun : Along (bulkiStep stray) DeleteRight (bulkiInit n) ops) :
    Holds (run (bulkiStep stray) (bulkiInit n) ops) (mapAfter ops) := by
  refine Along.invariant_nil (I := fun ops t => Holds t (mapAfter ops)) ?_ (holds_init hn)
    (hrun.and_mem hops)
  intro hist t op h hop
  rw [mapAfter_append_singleton]
  exact h.step hop.1 hop.2 stray

/-- Along a run whose deletions are all of the kind `BULKI_delete` gets
right, the BULKI is the finite map of its history. The counters are the sums
as 64-bit numbers. -/
theorem bulki_finiteMap {n : Nat} (hn : 1 ≤ n) (stray : Entity) {ops : List (MapOp Entity Entity)}
    (hops : ∀ op ∈ ops, OpProper op) (hrun : Along (bulkiStep stray) DeleteRight (bulkiInit n) ops)
    {t : BulkiTable} (ht : run (bulkiStep stray) (bulkiInit n) ops = t) :
    (∀ k : Entity, k.Proper → bulkiGet t.bulki k = mapAfter ops k) ∧
      t.bulki.keys.Pairwise (fun k k' => bulkiEntityEqual k k' = false) ∧
      t.bulki.numKeys = {k | (mapAfter ops k).isSome}.ncard ∧
      t.bulki.numKeys ≤ t.capacity ∧
      t.bulki.headerSize = (t.bulki.keys.map Entity.size).sum % 2 ^ 64 ∧
      t.bulki.dataSize = (t.bulki.values.map Entity.size).sum % 2 ^ 64 ∧
      ∀ k : Entity, k.Proper → DeleteRight t (.delete k) →
        (bulkiDelete stray t k).2 = mapAfter ops k := by
  have h := Holds.run hn stray hops hrun
  rw [ht] at h
  refine ⟨fun k hk => h.get hk, ?_, h.slots.ncard_eq.symm, h.room, h.header, h.data,
    fun k hk hright => (h.delete hk hright stray).2⟩
  refine h.slots.nodup.imp_of_mem fun hk hk' hne => ?_
  rw [Bool.eq_false_iff, Ne, (h.keys _ hk).equal_iff (h.keys _ hk')]
  exact hne

def intItem (n : UInt8) : Entity := .base .item .int 1 22 [n, 0, 0, 0]

theorem intItem_proper (n : UInt8) : (intItem n).Proper := by
  have hbuilt : bulkiEntityBase [n, 0, 0, 0] 1 .int .item = some (intItem n) := rfl
  refine (BuiltEntity.base hbuilt ?_ ?_ ?_ ?_).proper <;> decide

/-- Two keys with the same value, and the second one deleted. -/
theorem bulki_finiteMap_two :
    bulkiGet (run (bulkiStep (intItem 0)) (bulkiInit 1) [.put (intItem 1) (intItem 7),
        .put (intItem 2) (intItem 7), .delete (intItem 2)]).bulki (intItem 1) =
      mapAfter [.put (intItem 1) (intItem 7), .put (intItem 2) (intItem 7),
        .delete (intItem 2)] (intItem 1) := by
  have hops : ∀ op ∈ [MapOp.put (intItem 1) (intItem 7), .put (intItem 2) (intItem 7),
      .delete (intItem 2)], OpProper op := by
    simp [OpProper, intItem_proper]
  exact (bulki_finiteMap (Nat.le_refl 1) (intItem 0) hops
    ⟨trivial, trivial, .inr ⟨by decide, rfl, rfl⟩, trivial⟩ rfl).1 _ (intItem_proper 1)

/-- The first of two keys deleted: it is the second that is gone. -/
theorem bulkiDelete_loses :
    bulkiGet (run (bulkiStep (intItem 0)) (bulkiInit 2) [.put (intItem 1) (intItem 7),
        .put (intItem 2) (intItem 8), .delete (intItem 1)]).bulki (intItem 2) = none ∧
      mapAfter [.put (intItem 1) (intItem 7), .put (intItem 2) (intItem 8),
        .delete (intItem 1)] (intItem 2) = some (intItem 8) := by
  refine ⟨rfl, mapAfter_eq_some_iff.mpr ⟨[.put (intItem 1) (intItem 7)], [.delete (intItem 1)],
    rfl, ?_⟩⟩
  simp [MapOp.key, intItem]

end Pdc
