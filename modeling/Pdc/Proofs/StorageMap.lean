import Pdc.Server.StorageMeta

/-!
# When an object's storage list is a map

Each report names a region, a file and an offset. The list of an object is right
when it has one entry for each region that was reported, with what the latest
report said: it holds the map `mapAfter` of the reports.

A single report keeps that. A batch does so if it starts with new regions,
each once, and goes on with regions that are in the list by then, because a
region that is added after one that was found is lost. When the list is empty
nothing is searched, so that the regions of the batch have to be different.
-/

namespace Pdc

open List Lib Function

variable {b : StorageReport} {k : RegionInfo} {known regions : List RegionInfo}
  (region : StorageEntry) (reports : List StorageReport)

/-- Where a region is: the file and the offset in it. -/
abbrev Placement := Bytes × Nat

def StorageEntry.placement (e : StorageEntry) : Placement := (e.storageLocation, e.offset)

def StorageReport.put (b : StorageReport) : MapOp RegionInfo Placement :=
  .put b.regionTransfer.info (b.storageLocation, b.offset)

def StorageEvent.puts : StorageEvent → List (MapOp RegionInfo Placement)
  | .bulk reports => reports.map StorageReport.put
  | .update region => [.put region.region region.placement]

/-- A storage list has one entry for each region in the map, with its location. -/
abbrev ListHolds (list : List StorageEntry) (m : RegionInfo → Option Placement) : Prop :=
  Slots (list.map StorageEntry.region) (list.map StorageEntry.placement) m

variable {list : List StorageEntry} {m : RegionInfo → Option Placement}
  {reports : List StorageReport}

/-! ## Single reports -/

@[simp] theorem withSize_region (e : StorageEntry) : e.withSize.region = e.region := by
  unfold StorageEntry.withSize
  split <;> rfl

@[simp] theorem withSize_placement (e : StorageEntry) : e.withSize.placement = e.placement := by
  unfold StorageEntry.withSize
  split <;> rfl

@[simp] theorem relocate_region (type : UpdateType) (region elt : StorageEntry) :
    (StorageEntry.relocate type region elt).region = elt.region := by
  cases type <;> exact withSize_region _

@[simp] theorem relocate_storage_placement (elt : StorageEntry) :
    (StorageEntry.relocate .storage region elt).placement = region.placement :=
  withSize_placement _

theorem ListHolds.putStorageLoc (h : ListHolds list m) (region : StorageEntry) :
    ListHolds (putStorageLoc .storage region list)
      (mapStep m (.put region.region region.placement)) := by
  have hp : ∀ elt : StorageEntry,
      isSameRegionList elt.region region.region = true ↔ elt.region = region.region :=
    fun _ => isSameRegionList_iff
  unfold Pdc.putStorageLoc
  split
  · next hfound =>
    exact Slots.modifyFirst h hp (relocate_region .storage region)
      (relocate_storage_placement region) hfound
  · next hnone =>
    have hadded := Slots.append_record h (by
      rw [withSize_region]
      exact (modifyFirst_eq_none_iff_notMem hp).mp hnone)
    rwa [withSize_region, withSize_placement] at hadded

/-! ## Batches -/

theorem newRegion_region (b : StorageReport) : b.newRegion.region = b.regionTransfer.info :=
  info_regionTransferToList b.one_le_ndim b.ndim_le_four _

theorem bulkLocalStep_found (h : ListHolds list m) (success : Bool)
    (hb : b.regionTransfer.info ∈ list.map StorageEntry.region) :
    ∃ list', bulkLocalStep false (list, success) b = (list', true) ∧
      list'.map StorageEntry.region = list.map StorageEntry.region ∧
      ListHolds list' (mapStep m b.put) := by
  have hp : ∀ elt : StorageEntry,
      isSameRegionList elt.region b.newRegion.region = true ↔ elt.region = b.regionTransfer.info :=
    fun _ => by rw [isSameRegionList_iff, newRegion_region]
  unfold bulkLocalStep
  simp only [Bool.false_eq_true, if_false]
  split
  · next hfound =>
    refine ⟨_, rfl, map_modifyFirst ?_ hfound, Slots.modifyFirst h hp ?_ ?_ hfound⟩
    · exact fun _ _ => rfl
    · exact fun _ => rfl
    · exact fun _ => rfl
  · next hnone => exact absurd hb ((modifyFirst_eq_none_iff_notMem hp).mp hnone)

theorem bulkLocalStep_new (success : Bool)
    (hb : b.regionTransfer.info ∉ list.map StorageEntry.region) :
    bulkLocalStep false (list, success) b =
      if success then (list, true) else (list ++ [b.newRegion], false) := by
  have hp : ∀ elt : StorageEntry,
      isSameRegionList elt.region b.newRegion.region = true ↔ elt.region = b.regionTransfer.info :=
    fun _ => by rw [isSameRegionList_iff, newRegion_region]
  unfold bulkLocalStep
  simp only [Bool.false_eq_true, if_false, (modifyFirst_eq_none_iff_notMem hp).mpr hb]
  cases success with
  | true => rfl
  | false => rfl

theorem ListHolds.append_newRegion (h : ListHolds list m)
    (hb : b.regionTransfer.info ∉ list.map StorageEntry.region) :
    ListHolds (list ++ [b.newRegion]) (mapStep m b.put) := by
  have hadded := Slots.append_record h (by rwa [newRegion_region])
  rwa [newRegion_region] at hadded

def batchRegions (reports : List StorageReport) : List RegionInfo :=
  reports.map fun b => b.regionTransfer.info

noncomputable def mapBatch (m : RegionInfo → Option Placement) (reports : List StorageReport) :
    RegionInfo → Option Placement :=
  (reports.map StorageReport.put).foldl mapStep m

theorem mapBatch_isSome (h : (m k).isSome ∨ k ∈ batchRegions reports) :
    (mapBatch m reports k).isSome := by
  induction reports generalizing m with
  | nil => exact h.resolve_right not_mem_nil
  | cons b reports ih =>
    refine ih ?_
    by_cases hk : k = b.regionTransfer.info
    · left
      subst hk
      rw [StorageReport.put, mapStep_put_self]
      rfl
    · rcases h with h | h
      · left
        rw [mapStep_of_ne (Ne.symm hk)]
        exact h
      · exact .inr ((mem_cons.mp h).resolve_left hk)

theorem ListHolds.mem_of_isSome (h : ListHolds list m) (hk : (m k).isSome) :
    k ∈ list.map StorageEntry.region := by
  obtain ⟨v, hv⟩ := Option.isSome_iff_exists.mp hk
  exact h.mem hv

theorem foldl_found_regions (h : ListHolds list m) (reports : List StorageReport) :
    ((reports.foldl (bulkLocalStep false) (list, true)).1).map StorageEntry.region =
      list.map StorageEntry.region := by
  induction reports generalizing list m with
  | nil => rfl
  | cons b reports ih =>
    rw [foldl_cons]
    by_cases hb : b.regionTransfer.info ∈ list.map StorageEntry.region
    · obtain ⟨list', hstep, hregions, hlist'⟩ := bulkLocalStep_found h true hb
      rw [hstep, ih hlist', hregions]
    · rw [bulkLocalStep_new true hb, if_pos rfl, ih h]

/-- After a region was found, the rest is right if all of it is in the list. -/
theorem foldl_found_iff (h : ListHolds list m) (reports : List StorageReport) :
    ListHolds (reports.foldl (bulkLocalStep false) (list, true)).1 (mapBatch m reports) ↔
      ∀ k ∈ batchRegions reports, k ∈ list.map StorageEntry.region := by
  refine ⟨fun hholds k hk => ?_, fun hall => ?_⟩
  · rw [← foldl_found_regions h reports]
    exact hholds.mem_of_isSome (mapBatch_isSome (.inr hk))
  · induction reports generalizing list m with
    | nil => exact h
    | cons b reports ih =>
      have hb := hall _ mem_cons_self
      obtain ⟨list', hstep, hregions, hlist'⟩ := bulkLocalStep_found h true hb
      rw [foldl_cons, hstep]
      refine ih hlist' fun k hk => ?_
      rw [hregions]
      exact hall k (mem_cons_of_mem _ hk)

/-- New regions, each once, and then regions that are there by then. -/
def NewFirst (known : List RegionInfo) (regions : List RegionInfo) : Prop :=
  ∃ new old, regions = new ++ old ∧ new.Nodup ∧ (∀ k ∈ new, k ∉ known) ∧
    ∀ k ∈ old, k ∈ known ∨ k ∈ new

theorem newFirst_cons_known (hk : k ∈ known) :
    NewFirst known (k :: regions) ↔ ∀ k' ∈ regions, k' ∈ known := by
  refine ⟨fun ⟨new, old, heq, _, hnew, hold⟩ => ?_, fun hall => ?_⟩
  · cases new with
    | nil =>
      rw [nil_append] at heq
      intro k' hk'
      exact (hold k' (heq ▸ mem_cons_of_mem _ hk')).resolve_right not_mem_nil
    | cons k₁ new =>
      have hk₁ := (List.cons.inj heq).1
      exact absurd (hk₁ ▸ hk) (hnew k₁ mem_cons_self)
  · refine ⟨[], k :: regions, rfl, nodup_nil, by simp, ?_⟩
    rw [forall_mem_cons]
    exact ⟨.inl hk, fun k' hk' => .inl (hall k' hk')⟩

theorem newFirst_cons_new (hk : k ∉ known) :
    NewFirst known (k :: regions) ↔ NewFirst (known ++ [k]) regions := by
  refine ⟨fun ⟨new, old, heq, hnodup, hnew, hold⟩ => ?_,
    fun ⟨new, old, heq, hnodup, hnew, hold⟩ => ?_⟩
  · cases new with
    | nil =>
      have hmem : k ∈ [] ++ old := heq ▸ mem_cons_self
      have hhead := hold k hmem
      exact absurd hhead (not_or.mpr ⟨hk, not_mem_nil⟩)
    | cons k₁ new =>
      obtain ⟨rfl, hrest⟩ := List.cons.inj heq
      rw [nodup_cons] at hnodup
      refine ⟨new, old, hrest, hnodup.2, fun k' hk' hmem => ?_, fun k' hk' => ?_⟩
      · rcases mem_append.mp hmem with hmem | hmem
        · exact hnew k' (mem_cons_of_mem _ hk') hmem
        · exact hnodup.1 (mem_singleton.mp hmem ▸ hk')
      · rcases hold k' hk' with hmem | hmem
        · exact .inl (mem_append_left _ hmem)
        · rcases mem_cons.mp hmem with rfl | hmem
          · exact .inl (mem_append_right _ mem_cons_self)
          · exact .inr hmem
  · refine ⟨k :: new, old, by rw [heq]; rfl, ?_, fun k' hk' => ?_, fun k' hk' => ?_⟩
    · rw [nodup_cons]
      exact ⟨fun hmem => hnew k hmem (mem_append_right _ mem_cons_self), hnodup⟩
    · rcases mem_cons.mp hk' with rfl | hk'
      · exact hk
      · exact fun hmem => hnew k' hk' (mem_append_left _ hmem)
    · rcases hold k' hk' with hmem | hmem
      · rcases mem_append.mp hmem with hmem | hmem
        · exact .inl hmem
        · exact .inr (mem_cons.mpr (.inl (mem_singleton.mp hmem)))
      · exact .inr (mem_cons_of_mem _ hmem)

theorem newFirst_nil : NewFirst known [] :=
  ⟨[], [], rfl, nodup_nil, fun _ h => absurd h not_mem_nil,
    fun _ h => absurd h not_mem_nil⟩

theorem foldl_search_iff (h : ListHolds list m) (reports : List StorageReport) :
    ListHolds (reports.foldl (bulkLocalStep false) (list, false)).1 (mapBatch m reports) ↔
      NewFirst (list.map StorageEntry.region) (batchRegions reports) := by
  induction reports generalizing list m with
  | nil => exact iff_of_true h newFirst_nil
  | cons b reports ih =>
    rw [foldl_cons, batchRegions, map_cons]
    by_cases hb : b.regionTransfer.info ∈ list.map StorageEntry.region
    · obtain ⟨list', hstep, hregions, hlist'⟩ := bulkLocalStep_found h false hb
      rw [hstep, newFirst_cons_known hb, ← hregions]
      exact foldl_found_iff hlist' reports
    · rw [bulkLocalStep_new false hb, newFirst_cons_new hb]
      have hrest := ih (h.append_newRegion hb)
      rw [map_append, map_singleton, newRegion_region] at hrest
      exact hrest

theorem foldl_express (list : List StorageEntry) :
    (reports.foldl (bulkLocalStep true) (list, false)).1 =
      list ++ reports.map StorageReport.newRegion := by
  induction reports generalizing list with
  | nil => rw [map_nil, append_nil]; rfl
  | cons b reports ih =>
    rw [map_cons, append_cons]
    exact ih (list ++ [b.newRegion])

theorem ListHolds.append_batch (h : ListHolds list m) (hnodup : (batchRegions reports).Nodup)
    (hnew : ∀ k ∈ batchRegions reports, k ∉ list.map StorageEntry.region) :
    ListHolds (list ++ reports.map StorageReport.newRegion) (mapBatch m reports) := by
  induction reports generalizing list m with
  | nil =>
    rw [map_nil, append_nil]
    exact h
  | cons b reports ih =>
    rw [batchRegions, map_cons, nodup_cons] at hnodup
    rw [map_cons, append_cons]
    refine ih (h.append_newRegion (hnew _ mem_cons_self)) hnodup.2 fun k hk hmem => ?_
    rw [map_append, map_singleton, newRegion_region, mem_append, mem_singleton] at hmem
    rcases hmem with hmem | rfl
    · exact hnew k (mem_cons_of_mem _ hk) hmem
    · exact hnodup.1 hk

theorem foldl_express_iff (h : ListHolds [] m) (reports : List StorageReport) :
    ListHolds (reports.foldl (bulkLocalStep true) ([], false)).1 (mapBatch m reports) ↔
      (batchRegions reports).Nodup := by
  have hregions : (reports.map StorageReport.newRegion).map StorageEntry.region =
      batchRegions reports := by
    rw [map_map]
    exact map_congr_left fun b _ => newRegion_region b
  rw [foldl_express]
  refine ⟨fun hholds => hregions ▸ hholds.nodup, fun hnodup => ?_⟩
  exact h.append_batch hnodup fun k _ hmem => absurd hmem not_mem_nil

/-- What a batch has to be like, with the regions that are in the list. -/
def BatchFits (known regions : List RegionInfo) : Prop :=
  if known = [] then regions.Nodup else NewFirst known regions

theorem ListHolds.putStorageBatch_iff (h : ListHolds list m) (reports : List StorageReport) :
    ListHolds (putStorageBatch reports list) (mapBatch m reports) ↔
      BatchFits (list.map StorageEntry.region) (batchRegions reports) := by
  cases list with
  | nil => exact foldl_express_iff h reports
  | cons e list => exact foldl_search_iff h reports

/-! ## Runs -/

/-- The storage list of an object holds what the reports say. -/
def StorageMap (objId : UInt64) (events : List StorageEvent) (lists : StorageLists) : Prop :=
  ∃ list, lists objId = some list ∧ ListHolds list (mapAfter (events.flatMap StorageEvent.puts))

/-- A batch fits the object's list. -/
def EventFits (objId : UInt64) (lists : StorageLists) : StorageEvent → Prop
  | .bulk reports => ∀ list, lists objId = some list →
      BatchFits (list.map StorageEntry.region) (batchRegions reports)
  | .update _ => True

theorem batchFits_nil (known : List RegionInfo) : BatchFits known [] := by
  unfold BatchFits
  split
  · exact nodup_nil
  · exact newFirst_nil

theorem storageMap_step {objId : UInt64} {hist : List StorageEvent} {lists : StorageLists}
    (h : StorageMap objId hist lists) (ev : StorageEvent) :
    StorageMap objId (hist ++ [ev]) (storageStep objId lists ev) ↔ EventFits objId lists ev := by
  obtain ⟨list, hlist, hholds⟩ := h
  have hmap : mapAfter ((hist ++ [ev]).flatMap StorageEvent.puts) =
      ev.puts.foldl mapStep (mapAfter (hist.flatMap StorageEvent.puts)) := by
    rw [flatMap_append, mapAfter, foldl_append]
    simp only [flatMap_cons, flatMap_nil, append_nil]
    rfl
  have hself : ∀ list' : List StorageEntry,
      StorageMap objId (hist ++ [ev]) (update lists objId (some list')) ↔
        ListHolds list' (ev.puts.foldl mapStep (mapAfter (hist.flatMap StorageEvent.puts))) := by
    intro list'
    rw [StorageMap, update_self, hmap]
    refine ⟨fun hex => ?_, fun hholds' => ⟨list', rfl, hholds'⟩⟩
    obtain ⟨list₁, heq, hholds'⟩ := hex
    rwa [Option.some.inj heq]
  cases ev with
  | bulk reports =>
    have hfits : EventFits objId lists (.bulk reports) ↔
        BatchFits (list.map StorageEntry.region) (batchRegions reports) := by
      refine ⟨fun hall => hall list hlist, fun hfits list' hlist' => ?_⟩
      rwa [← Option.some.inj (hlist.symm.trans hlist')]
    rw [hfits]
    cases reports with
    | nil =>
      refine iff_of_true ⟨list, hlist, ?_⟩ (batchFits_nil _)
      rw [hmap]
      exact hholds
    | cons b reports =>
      have hstep : storageStep objId lists (.bulk (b :: reports)) =
          update lists objId (some (putStorageBatch (b :: reports) list)) := by
        unfold storageStep updateRegionStorageMetaBulkLocal
        rw [hlist]
      rw [hstep]
      exact (hself _).trans (hholds.putStorageBatch_iff (b :: reports))
  | update region =>
    rw [storageStep, updateLocalRegionStorageLoc, hlist]
    exact iff_of_true ((hself _).mpr (hholds.putStorageLoc region)) trivial

/-- At every moment of a sequence of reports about an object, from an empty list on, the
list holds the latest report of each region, just if each batch fits the list it is
added to. -/
theorem storageMap_iff (objId : UInt64) (lists : StorageLists) (hempty : lists objId = some [])
    (events : List StorageEvent) :
    (∀ pre, pre <+: events → StorageMap objId pre (run (storageStep objId) lists pre)) ↔
      Along (storageStep objId) (EventFits objId) lists events := by
  have hstart : StorageMap objId [] lists := ⟨[], hempty, Slots.nil⟩
  exact Along.forall_isPrefix_iff_of_history (fun _ _ ev _ hI => storageMap_step hI ev) hstart

def lineTransfer (start count : UInt64) : RegionInfoTransfer :=
  { ndim := 1, start0 := start, count0 := count }

theorem one_le_ndim_lineTransfer (start count : UInt64) : 1 ≤ (lineTransfer start count).ndim :=
  Nat.le_refl 1

theorem ndim_lineTransfer_le_four (start count : UInt64) : (lineTransfer start count).ndim ≤ 4 :=
  Nat.le_add_left 1 3

def tenBytesAt (start : UInt64) (offset : Nat) : StorageReport where
  regionTransfer := lineTransfer start 10
  storageLocation := [102]
  offset := offset
  one_le_ndim := one_le_ndim_lineTransfer start 10
  ndim_le_four := ndim_lineTransfer_le_four start 10

def emptyObject : StorageLists := fun objId => if objId = 7 then some [] else none

theorem eq_nil_of_emptyObject (o : UInt64) (entries : List StorageEntry)
    (h : emptyObject o = some entries) : entries = [] := by
  rw [emptyObject, Option.ite_none_right_eq_some] at h
  exact (Option.some.inj h.2).symm

/-- A new region before one that is known. -/
theorem storageMap_new_first :
    StorageMap 7 [.bulk [tenBytesAt 0 0], .bulk [tenBytesAt 10 20, tenBytesAt 0 10]]
      (run (storageStep 7) emptyObject
        [.bulk [tenBytesAt 0 0], .bulk [tenBytesAt 10 20, tenBytesAt 0 10]]) := by
  refine (storageMap_iff 7 emptyObject rfl
    [.bulk [tenBytesAt 0 0], .bulk [tenBytesAt 10 20, tenBytesAt 0 10]]).mpr
      ⟨fun list hlist => ?_, fun list hlist => ?_, trivial⟩ _ (prefix_refl _)
  · obtain rfl : list = [] := (Option.some.inj hlist).symm
    exact nodup_singleton _
  · obtain rfl : list = [(tenBytesAt 0 0).newRegion] := (Option.some.inj hlist).symm
    refine ⟨[(tenBytesAt 10 20).regionTransfer.info], [(tenBytesAt 0 10).regionTransfer.info], rfl,
      nodup_singleton _, ?_, ?_⟩
    all_goals decide

/-- The new region after the one that is known is not added. -/
theorem not_storageMap_known_first :
    ¬ StorageMap 7 [.bulk [tenBytesAt 0 0], .bulk [tenBytesAt 0 10, tenBytesAt 10 20]]
      (run (storageStep 7) emptyObject
        [.bulk [tenBytesAt 0 0], .bulk [tenBytesAt 0 10, tenBytesAt 10 20]]) := by
  intro h
  obtain ⟨list, hlist, hholds⟩ := h
  have hregions : list.map StorageEntry.region = [(tenBytesAt 0 0).regionTransfer.info] := by
    have hmap := congrArg (Option.map (List.map StorageEntry.region)) hlist
    exact (Option.some.inj hmap).symm
  have hmem : (tenBytesAt 10 20).regionTransfer.info ∈ list.map StorageEntry.region :=
    hholds.mem (mapStep_put_self _ _ _)
  rw [hregions] at hmem
  exact absurd hmem (by decide)

end Pdc
