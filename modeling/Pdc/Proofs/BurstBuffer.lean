import Pdc.Proofs.DataIo
import Pdc.Server.BurstBuffer

/-!
# Copies and the data they were made of

An entry of a storage list has two places. `StoresMap` is about the first of
them, which every write moves to the data it has just appended; a copy leaves it
alone. What a look-up gives is the second one once it is set, and only a copy
moves that (`StorageEntry.available`).

So a write is seen at once if there is no copy of its region, and otherwise only
if the copy happens to have the same data already. A copy is right if it is one
of the data that was written last: the server copies what it has in memory, which
may have been read before a later write. These two conditions on the state before
each event (`CopyEvent.Fits`) are what it takes for look-ups to be right at every
moment.
-/

namespace Pdc

open List Lib Option

variable {elt : IoRegion}

/-! ## The places of an entry -/

section Entries

variable {region elt e : StorageEntry} {list : List StorageEntry}

theorem withSize_available (e : StorageEntry) : e.withSize.available = e.available := by
  rw [StorageEntry.withSize]
  split <;> rfl

theorem available_relocate_storage (region elt : StorageEntry) :
    (StorageEntry.relocate .storage region elt).available =
      if strstr elt.cacheLocation pdcCache then (elt.cacheLocation, elt.cacheOffset)
      else region.placement := withSize_available _

theorem available_relocate_cache (hpath : strstr region.storageLocation pdcCache = true)
    (elt : StorageEntry) :
    (StorageEntry.relocate .cache region elt).available = region.placement :=
  (withSize_available _).trans (if_pos hpath)

theorem isSameRegion_iff (k : RegionInfo) (e : StorageEntry) :
    isSameRegionList e.region k = true ↔ e.region = k := isSameRegionList_iff

theorem mem_putStorageLoc (type : UpdateType) (region : StorageEntry)
    (hnodup : (list.map StorageEntry.region).Nodup) :
    e ∈ putStorageLoc type region list ↔ (e ∈ list ∧ e.region ≠ region.region) ∨
        (∃ elt ∈ list, elt.region = region.region ∧ e = StorageEntry.relocate type region elt) ∨
        (region.region ∉ list.map StorageEntry.region ∧ e = region.withSize) := by
  have hsame := isSameRegion_iff region.region
  rw [putStorageLoc]
  split
  · next list' hfound =>
    have hmem : region.region ∈ list.map StorageEntry.region := by
      by_contra hnew
      rw [(modifyFirst_eq_none_iff_notMem hsame).mpr hnew] at hfound
      cases hfound
    rw [mem_modifyFirst hsame hnodup hfound]
    exact or_congr_right (or_iff_left fun hnew => hnew.1 hmem).symm
  · next hnone =>
    have hnew := (modifyFirst_eq_none_iff_notMem hsame).mp hnone
    have hne : ∀ elt ∈ list, elt.region ≠ region.region := fun elt helt heq =>
      hnew (heq ▸ mem_map_of_mem helt)
    rw [mem_append, mem_singleton]
    constructor
    · rintro (hmem | rfl)
      · exact .inl ⟨hmem, hne e hmem⟩
      · exact .inr (.inr ⟨hnew, rfl⟩)
    · rintro (⟨hmem, -⟩ | ⟨elt, helt, heq, -⟩ | ⟨-, rfl⟩)
      · exact .inl hmem
      · exact absurd heq (hne elt helt)
      · exact .inr rfl

theorem ListHolds.putCache {m : RegionInfo → Option Placement} (h : ListHolds list m)
    (hmem : region.region ∈ list.map StorageEntry.region) :
    ListHolds (Pdc.putStorageLoc .cache region list) m := by
  rw [Pdc.putStorageLoc]
  split
  · next list' hfound =>
    have hregions := map_modifyFirst
      (fun elt _ => relocate_region .cache region elt) hfound
    have hplaces := map_modifyFirst (g := StorageEntry.placement)
      (fun elt _ => by rw [StorageEntry.relocate, withSize_placement]; rfl) hfound
    rw [ListHolds, hregions, hplaces]
    exact h
  · next hnone =>
    exact absurd hmem ((modifyFirst_eq_none_iff_notMem (isSameRegion_iff region.region)).mp hnone)

end Entries

/-! ## Events -/

/-- What happens on a server. -/
inductive CopyEvent where
  | write (elt : IoRegion)
  | copy (elt : IoRegion)

/-- An event is handled; copies go to the file at `path`. -/
def copyStep (path : Bytes) (s : FileServer) : CopyEvent → FileServer
  | .write elt => s.afterIo [elt]
  | .copy elt => (cacheRegionToBB path s elt).1

/-- What an event puts into the map of the last data written. -/
def CopyEvent.puts : CopyEvent → List (MapOp IoKey Bytes)
  | .write elt => [.put elt.key elt.buf]
  | .copy _ => []

noncomputable def writtenBy (events : List CopyEvent) : Written :=
  mapAfter (events.flatMap CopyEvent.puts)

/-- The data of a request is that of its region, for an object of which the server has the
metadata. -/
structure WholeData (lists : StorageLists) (elt : IoRegion) : Prop where
  known : (lists elt.objId).isSome
  whole : elt.buf.take elt.dataSize.toNat = elt.buf
  length : elt.buf.length = (getRegionSize elt.region).toNat

/-- A new request of a client. -/
structure NewWrite (elt : IoRegion) : Prop where
  access : elt.accessType = .write
  notDone : elt.isIoDone = false
  path : elt.storageLocation ≠ []
  noCopy : elt.cacheLocation = []

/-- An event that can happen after those before. Only what has been written is read, and
only what has been read is copied. -/
def CopyEvent.Valid (lists : StorageLists) (before : List CopyEvent) : CopyEvent → Prop
  | .write elt => WholeData lists elt ∧ NewWrite elt
  | .copy elt => WholeData lists elt ∧ ∃ w, .write w ∈ before ∧ w.key = elt.key

/-- A look-up gives each region that was written, with a place where the last data is. -/
def GivesLastData (s : FileServer) (W : Written) : Prop :=
  ∀ o r data, W (o, r) = some data → ∃ metas, copyAllStorageMeta s.lists o = some metas ∧
    (∃ info ∈ metas, info.regionTransfer.info = r) ∧
    ∀ info ∈ metas, info.regionTransfer.info = r →
      FileHolds s.files info.storageLocation info.offset data

/-- The copy of a region that is written again has the data already, and what is copied is
what the storage has. -/
def CopyEvent.Fits (s : FileServer) : CopyEvent → Prop
  | .write elt => ∀ entries, s.lists elt.objId = some entries → ∀ e ∈ entries,
      e.region = elt.region → strstr e.cacheLocation pdcCache = true →
        FileHolds s.files e.cacheLocation e.cacheOffset elt.buf
  | .copy elt => ∀ entries, s.lists elt.objId = some entries → ∀ e ∈ entries,
      e.region = elt.region → FileHolds s.files e.storageLocation e.offset elt.buf

instance (s : FileServer) (ev : CopyEvent) : Decidable (ev.Fits s) :=
  match ev with
  | .write elt =>
    decidable_of_iff (∀ entries ∈ s.lists elt.objId, ∀ e ∈ entries, e.region = elt.region →
      strstr e.cacheLocation pdcCache = true →
        FileHolds s.files e.cacheLocation e.cacheOffset elt.buf) Iff.rfl
  | .copy elt =>
    decidable_of_iff (∀ entries ∈ s.lists elt.objId, ∀ e ∈ entries, e.region = elt.region →
      FileHolds s.files e.storageLocation e.offset elt.buf) Iff.rfl

/-! ## Look-ups -/

theorem map_range_getD {l : List UInt64} {f : Nat → UInt64}
    (hf : ∀ i < l.length, f i = l.getD i 0) : (range l.length).map f = l := by
  refine ext_getElem (by simp) fun i _ hi => ?_
  rw [getElem_map, getElem_range, hf i hi, getD_eq_getElem?_getD,
    getElem?_eq_getElem hi, getD_some]

theorem regionListToTransfer_info {r : RegionInfo} (h : r.ndim ≤ 4) :
    (regionListToTransfer r).info = r := by
  have hcases : ∀ i < r.ndim, i = 0 ∨ i = 1 ∨ i = 2 ∨ i = 3 := fun i hi => by omega
  have hstart : (range r.ndim).map (regionListToTransfer r).start = r.offset := by
    rw [← r.offset_length]
    refine map_range_getD fun i hi => ?_
    rcases hcases i (r.offset_length ▸ hi) with rfl | rfl | rfl | rfl <;> rfl
  have hcount : (range r.ndim).map (regionListToTransfer r).count = r.size := by
    rw [← r.size_length]
    refine map_range_getD fun i hi => ?_
    rcases hcases i (r.size_length ▸ hi) with rfl | rfl | rfl | rfl <;> rfl
  cases r
  simp only [RegionInfoTransfer.info, RegionInfo.mk.injEq]
  exact ⟨rfl, hstart, hcount⟩

/-- Each entry leads to the last data of its region. -/
def EntriesShow (s : FileServer) (W : Written) : Prop :=
  ∀ o entries, s.lists o = some entries → ∀ e ∈ entries, ∀ data, W (o, e.region) = some data →
    FileHolds s.files e.available.1 e.available.2 data

section Steps

variable {s : FileServer} {W : Written} {elt : IoRegion} {path : Bytes}

theorem givesLastData_iff (h : StoresMap s W) : GivesLastData s W ↔ EntriesShow s W := by
  have hinfo : ∀ e : StorageEntry, (regionListToTransfer e.region).info = e.region :=
    fun e => regionListToTransfer_info e.ndim_le_four
  constructor
  · intro hgives o entries hlist e he data hdata
    obtain ⟨metas, hmetas, -, hall⟩ := hgives o e.region data hdata
    rw [copyAllStorageMeta, hlist, map_some, some.injEq] at hmetas
    subst hmetas
    exact hall _ (mem_map_of_mem he) (hinfo e)
  · intro hshow o r data hdata
    obtain ⟨entries, hlist, e, he, rfl⟩ := h.exists_entry (by rw [hdata]; rfl)
    refine ⟨_, by rw [copyAllStorageMeta, hlist, map_some], ?_, ?_⟩
    · exact ⟨_, mem_map_of_mem he, hinfo e⟩
    · intro info hinfo' hregion
      obtain ⟨e', he', rfl⟩ := mem_map.mp hinfo'
      refine hshow o entries hlist e' he' data ?_
      rw [← hinfo e', hregion]
      exact hdata

def copyOut (path : Bytes) (s : FileServer) (elt : IoRegion) : FileServer :=
  { s with
    files := appendFile s.files path (elt.buf.take elt.dataSize.toNat)
    lists := Function.update s.lists elt.objId ((s.lists elt.objId).map
      (putStorageLoc .cache (elt.copiedTo path ((s.files path).getD []).length).entry)) }

theorem cacheRegionToBB_eq (hknown : (s.lists elt.objId).isSome) :
    (cacheRegionToBB path s elt).1 = copyOut path s elt := by
  obtain ⟨entries, hlist⟩ := isSome_iff_exists.mp hknown
  have hupdate : updateLocalRegionStorageLoc s.lists
      (elt.copiedTo path ((s.files path).getD []).length).entry elt.objId .cache =
        ((copyOut path s elt).lists, .succeed) := by
    rw [updateLocalRegionStorageLoc, copyOut, hlist]
    rfl
  rw [cacheRegionToBB]
  simp only [show ∀ offset, (elt.copiedTo path offset).objId = elt.objId from fun _ => rfl, hupdate]
  rfl

section

variable (path : Bytes) (s : FileServer) (elt : IoRegion)

theorem copyOut_lists_self :
    (copyOut path s elt).lists elt.objId = (s.lists elt.objId).map
      (putStorageLoc .cache (elt.copiedTo path ((s.files path).getD []).length).entry) :=
  Function.update_self ..

theorem copyOut_lists_of_ne {o : UInt64}
    (h : o ≠ elt.objId) : (copyOut path s elt).lists o = s.lists o := Function.update_of_ne h _ _

theorem isSome_copyOut (o : UInt64) :
    ((copyOut path s elt).lists o).isSome = (s.lists o).isSome := by
  by_cases ho : o = elt.objId
  · rw [ho, copyOut_lists_self, isSome_map]
  · rw [copyOut_lists_of_ne path s elt ho]

theorem grows_copyOut : Grows s.files (copyOut path s elt).files := grows_appendFile _ _ _

end

theorem StoresMap.copy (h : StoresMap s W) (hwritten : (W elt.key).isSome) :
    StoresMap (copyOut path s elt) W where
  known := by
    intro o r hsome
    rw [isSome_copyOut]
    exact h.known o r hsome
  held := by
    intro o entries' hlist'
    have hgrows := grows_copyOut path s elt
    by_cases ho : o = elt.objId
    · subst ho
      obtain ⟨entries, hlist, e, he, hregion⟩ := h.exists_entry hwritten
      obtain ⟨m, hm, hrel⟩ := h.held _ entries hlist
      rw [copyOut_lists_self, hlist, map_some, some.injEq] at hlist'
      subst hlist'
      refine ⟨m, hm.putCache ?_, fun r => fileHolds_rel_mono hgrows (hrel r)⟩
      exact mem_map.mpr ⟨e, he, hregion⟩
    · rw [copyOut_lists_of_ne path s elt ho] at hlist'
      obtain ⟨m, hm, hrel⟩ := h.held o entries' hlist'
      exact ⟨m, hm, fun r => fileHolds_rel_mono hgrows (hrel r)⟩

theorem writeOut_holds (hpath : elt.storageLocation ≠ [])
    (hwhole : elt.buf.take elt.dataSize.toNat = elt.buf) :
    FileHolds (writeOut s elt).files elt.storageLocation (elt.placed s.files).offset elt.buf := by
  show FileHolds (appendFile s.files elt.storageLocation (elt.buf.take elt.dataSize.toNat))
    elt.storageLocation _ elt.buf
  rw [hwhole]
  exact fileHolds_appendFile hpath

theorem copyOut_holds (hpath : path ≠ []) (hwhole : elt.buf.take elt.dataSize.toNat = elt.buf) :
    FileHolds (copyOut path s elt).files path ((s.files path).getD []).length elt.buf := by
  show FileHolds (appendFile s.files path (elt.buf.take elt.dataSize.toNat)) path _ elt.buf
  rw [hwhole]
  exact fileHolds_appendFile hpath

theorem entriesShow_writeOut_iff (h : StoresMap s W) (hshow : EntriesShow s W)
    (hdata : WholeData s.lists elt) (hnew : NewWrite elt)
    (hsized : ∀ old, W elt.key = some old → old.length = elt.buf.length) :
    EntriesShow (writeOut s elt) (mapStep W (.put elt.key elt.buf)) ↔
      (CopyEvent.write elt).Fits s := by
  have hgrows := grows_writeOut s elt
  have hholds := writeOut_holds (s := s) hnew.path hdata.whole
  constructor
  · intro hafter entries hlist e he hregion hcopy
    have hmem := (mem_putStorageLoc .storage (elt.placed s.files).entry (h.nodup hlist)).mpr
      (.inr (.inl ⟨e, he, hregion, rfl⟩))
    have hseen := hafter elt.objId _ (by rw [writeOut_lists_self, hlist]; rfl) _ hmem elt.buf (by
      rw [relocate_region, hregion]
      exact mapStep_put_self W elt.key elt.buf)
    rw [available_relocate_storage, if_pos hcopy] at hseen
    -- The copy has had data of this length all along.
    obtain ⟨old, hold, -⟩ := h.of_mem hlist he
    have hbefore := hshow elt.objId entries hlist e he old hold
    rw [StorageEntry.available, if_pos hcopy] at hbefore
    have hlen : old.length = elt.buf.length := hsized old
      (by rw [IoRegion.key, ← hregion]; exact hold)
    exact (hbefore.mono hgrows).unique hseen hlen ▸ hbefore
  · intro hfits o entries' hlist' e' he' data hlast
    by_cases ho : o = elt.objId
    · subst ho
      obtain ⟨entries, hlist⟩ := isSome_iff_exists.mp hdata.known
      rw [writeOut_lists_self, hlist, map_some, some.injEq] at hlist'
      subst hlist'
      have hbuf : e'.region = elt.region → elt.buf = data := by
        intro hregion
        rw [hregion] at hlast
        exact some.inj ((mapStep_put_self W elt.key elt.buf).symm.trans hlast)
      rcases (mem_putStorageLoc .storage _ (h.nodup hlist)).mp he' with
        ⟨hmem, hne⟩ | ⟨e, he, hregion, rfl⟩ | ⟨-, rfl⟩
      · have hkey : elt.key ≠ (elt.objId, e'.region) := fun heq => hne (congrArg Prod.snd heq).symm
        rw [mapStep_put_of_ne W elt.buf hkey] at hlast
        exact (hshow _ entries hlist e' hmem data hlast).mono hgrows
      · obtain rfl := hbuf (by rw [relocate_region, hregion]; rfl)
        rw [available_relocate_storage]
        split
        · next hcopy => exact (hfits entries hlist e he hregion hcopy).mono hgrows
        · exact hholds
      · obtain rfl := hbuf (by rw [withSize_region]; rfl)
        have hnone : ¬strstr (elt.placed s.files).entry.cacheLocation pdcCache = true := by
          show ¬strstr elt.cacheLocation pdcCache = true
          rw [hnew.noCopy]
          decide
        rw [withSize_available, StorageEntry.available, if_neg hnone]
        exact hholds
    · have hkey : elt.key ≠ (o, e'.region) := fun heq => ho (congrArg Prod.fst heq).symm
      rw [writeOut_lists_of_ne s elt ho] at hlist'
      rw [mapStep_put_of_ne W elt.buf hkey] at hlast
      exact (hshow o entries' hlist' e' he' data hlast).mono hgrows

theorem entriesShow_copyOut_iff (h : StoresMap s W) (hshow : EntriesShow s W)
    (hdata : WholeData s.lists elt) (hpath : path ≠ []) (hname : strstr path pdcCache = true)
    {last : Bytes} (hlast : W elt.key = some last) (hsized : last.length = elt.buf.length) :
    EntriesShow (copyOut path s elt) W ↔ (CopyEvent.copy elt).Fits s := by
  have hgrows := grows_copyOut path s elt
  have hholds := copyOut_holds (s := s) hpath hdata.whole
  obtain ⟨known, hknown, e₀, he₀, hregion₀⟩ := h.exists_entry (by rw [← IoRegion.key, hlast]; rfl)
  have hsame : ∀ entries, s.lists elt.objId = some entries → ∀ e ∈ entries,
      e.region = elt.region → FileHolds s.files e.storageLocation e.offset last := by
    intro entries hlist e he hregion
    obtain ⟨d, hd, hplace⟩ := h.of_mem hlist he
    rw [hregion] at hd
    exact some.inj (hd.symm.trans hlast) ▸ hplace
  constructor
  · intro hafter entries hlist e he hregion
    have hmem := (mem_putStorageLoc .cache
      (elt.copiedTo path ((s.files path).getD []).length).entry (h.nodup hlist)).mpr
      (.inr (.inl ⟨e, he, hregion, rfl⟩))
    have hseen := hafter elt.objId _ (by rw [copyOut_lists_self, hlist]; rfl) _ hmem last (by
      rw [relocate_region, hregion]
      exact hlast)
    rw [available_relocate_cache hname] at hseen
    exact hseen.unique hholds hsized ▸ hsame entries hlist e he hregion
  · intro hfits o entries' hlist' e' he' data hd
    by_cases ho : o = elt.objId
    · subst ho
      rw [copyOut_lists_self, hknown, map_some, some.injEq] at hlist'
      subst hlist'
      rcases (mem_putStorageLoc .cache _ (h.nodup hknown)).mp he' with
        ⟨hmem, -⟩ | ⟨e, he, hregion, rfl⟩ | ⟨hnew, -⟩
      · exact (hshow _ known hknown e' hmem data hd).mono hgrows
      · rw [relocate_region, hregion] at hd
        obtain rfl : last = data := some.inj (hlast.symm.trans hd)
        rw [available_relocate_cache hname,
          (hsame known hknown e he hregion).unique (hfits known hknown e he hregion) hsized]
        exact hholds
      · exact absurd (mem_map.mpr ⟨e₀, he₀, hregion₀⟩) hnew
    · rw [copyOut_lists_of_ne path s elt ho] at hlist'
      exact (hshow o entries' hlist' e' he' data hd).mono hgrows

end Steps

/-! ## Runs -/

theorem writtenBy_append (events : List CopyEvent) (ev : CopyEvent) :
    writtenBy (events ++ [ev]) = ev.puts.foldl mapStep (writtenBy events) := by
  rw [writtenBy, flatMap_append, flatMap_singleton, mapAfter, foldl_append]
  rfl

theorem isSome_writtenBy {events : List CopyEvent} {w : IoRegion} (h : .write w ∈ events) :
    (writtenBy events w.key).isSome := by
  induction events using reverseRecOn with
  | nil => simp at h
  | append_singleton events ev ih =>
    rw [writtenBy_append]
    rw [mem_append, mem_singleton] at h
    cases ev with
    | copy elt =>
      rcases h with h | h
      · exact ih h
      · cases h
    | write elt =>
      show (mapStep (writtenBy events) (.put elt.key elt.buf) w.key).isSome
      by_cases hkey : elt.key = w.key
      · rw [hkey, mapStep_put_self]
        rfl
      · rw [mapStep_put_of_ne _ elt.buf hkey]
        rcases h with h | h
        · exact ih h
        · cases h
          exact absurd rfl hkey

/-- What holds after any events: the storage has the last data of each region, with all its
bytes, and the objects are those of the start. -/
structure AfterEvents (s₀ s : FileServer) (W : Written) : Prop where
  stores : StoresMap s W
  known : ∀ o, (s.lists o).isSome = (s₀.lists o).isSome
  length : ∀ o r data, W (o, r) = some data → data.length = (getRegionSize r).toNat

theorem WholeData.of_known {lists lists' : StorageLists}
    (h : WholeData lists elt) (hknown : ∀ o, (lists' o).isSome = (lists o).isSome) :
    WholeData lists' elt :=
  ⟨by rw [hknown]; exact h.known, h.whole, h.length⟩

theorem afterIo_new_write {s : FileServer} (hdata : WholeData s.lists elt)
    (hnew : NewWrite elt) : s.afterIo [elt] = writeOut s elt := by
  have hwritable : ∀ e ∈ [elt], Writable s.lists e := by
    rw [forall_mem_singleton]
    exact ⟨hnew.access, fun _ => hnew.path, fun _ => hdata.known⟩
  rw [FileServer.afterIo, serverPosixOneFileIo_writes (cons_ne_nil elt []) hwritable]
  simp only [writeAll, hnew.notDone, Bool.false_eq_true, if_false]

section Runs

variable {s₀ s : FileServer} {before : List CopyEvent} {ev : CopyEvent} {path : Bytes}

theorem AfterEvents.step (h : AfterEvents s₀ s (writtenBy before))
    (hvalid : ev.Valid s₀.lists before) :
    AfterEvents s₀ (copyStep path s ev) (writtenBy (before ++ [ev])) := by
  rw [writtenBy_append]
  cases ev with
  | write elt =>
    have hdata := hvalid.1.of_known h.known
    rw [copyStep, afterIo_new_write hdata hvalid.2]
    refine ⟨h.stores.step hvalid.2.path hdata.known hdata.whole, fun o => ?_,
      fun o r data hd => ?_⟩
    · rw [isSome_writeOut, h.known]
    · change mapStep _ (.put elt.key elt.buf) (o, r) = some data at hd
      by_cases hkey : elt.key = (o, r)
      · rw [hkey, mapStep_put_self, some.injEq] at hd
        obtain rfl : elt.region = r := congrArg Prod.snd hkey
        rw [← hd]
        exact hdata.length
      · rw [mapStep_put_of_ne _ elt.buf hkey] at hd
        exact h.length o r data hd
  | copy elt =>
    obtain ⟨hdata, w, hw, hkey⟩ := hvalid
    rw [copyStep, cacheRegionToBB_eq (hdata.of_known h.known).known]
    refine ⟨h.stores.copy (hkey ▸ isSome_writtenBy hw), fun o => ?_, h.length⟩
    rw [isSome_copyOut, h.known]

theorem AfterEvents.givesLastData_iff (h : AfterEvents s₀ s (writtenBy before))
    (hgives : GivesLastData s (writtenBy before)) (hvalid : ev.Valid s₀.lists before)
    (hpath : path ≠ []) (hname : strstr path pdcCache = true) :
    GivesLastData (copyStep path s ev) (writtenBy (before ++ [ev])) ↔ ev.Fits s := by
  have hshow := (Pdc.givesLastData_iff h.stores).mp hgives
  rw [Pdc.givesLastData_iff (h.step hvalid).stores, writtenBy_append]
  cases ev with
  | write elt =>
    have hdata := hvalid.1.of_known h.known
    rw [copyStep, afterIo_new_write hdata hvalid.2]
    refine entriesShow_writeOut_iff h.stores hshow hdata hvalid.2 fun old hold => ?_
    rw [h.length elt.objId elt.region old hold, hdata.length]
  | copy elt =>
    obtain ⟨hdata, w, hw, hkey⟩ := hvalid
    have hdata := hdata.of_known h.known
    obtain ⟨last, hlast⟩ := isSome_iff_exists.mp (isSome_writtenBy hw)
    rw [hkey] at hlast
    rw [copyStep, cacheRegionToBB_eq hdata.known]
    refine entriesShow_copyOut_iff h.stores hshow hdata hpath hname hlast ?_
    rw [h.length elt.objId elt.region last hlast, hdata.length]

end Runs

theorem strstr_cacheFilePath (bbDataPath : Bytes) (rank : Nat) :
    strstr (cacheFilePath bbDataPath rank) pdcCache = true := by
  refine decide_eq_true ⟨bbDataPath ++ [47], [66, 66, 46] ++ decimal rank, ?_⟩
  simp [cacheFilePath, pdcCacheBB, pdcCache]

/-- Look-ups are right at every moment of a run just if each event fits: a region is only
written again with what its copy has, and copies are made of what the storage has. -/
theorem givesLastData_iff_fits (bbDataPath : Bytes) (rank : Nat) (s : FileServer)
    (hempty : ∀ o entries, s.lists o = some entries → entries = []) (events : List CopyEvent)
    (hvalid : ∀ before ev after, events = before ++ ev :: after → ev.Valid s.lists before) :
    (∀ pre, pre <+: events →
      GivesLastData (run (copyStep (cacheFilePath bbDataPath rank)) s pre) (writtenBy pre)) ↔
      Along (copyStep (cacheFilePath bbDataPath rank)) (fun s ev => ev.Fits s) s events := by
  have hstart : AfterEvents s s (writtenBy []) := by
    refine ⟨⟨fun o r hsome => absurd hsome Bool.false_ne_true, fun o entries hlist => ?_⟩,
      fun _ => rfl, fun o r data hd => absurd hd (Option.some_ne_none data).symm⟩
    rw [hempty o entries hlist]
    exact ⟨_, Slots.nil, fun _ => .none⟩
  have hinv : ∀ pre, pre <+: events →
      AfterEvents s (run (copyStep (cacheFilePath bbDataPath rank)) s pre) (writtenBy pre) := by
    intro pre
    induction pre using List.reverseRecOn with
    | nil => exact fun _ => hstart
    | append_singleton pre ev ih =>
      rintro ⟨post, hpost⟩
      rw [append_assoc] at hpost
      rw [run_append]
      exact (ih ⟨_, hpost⟩).step (hvalid pre ev post hpost.symm)
  refine Along.forall_isPrefix_iff_of_split
    (I := fun pre s => GivesLastData s (writtenBy pre)) ?_ fun pre ev post heq hgives => ?_
  · exact fun o r data hd => absurd hd (Option.some_ne_none data).symm
  · exact (hinv pre ⟨_, heq.symm⟩).givesLastData_iff hgives (hvalid pre ev post heq)
      (by simp [cacheFilePath]) (strstr_cacheFilePath bbDataPath rank)

/-! ## A region that is written again -/

def twoBytes (start : UInt64) (a b : UInt8) : IoRegion where
  objId := 7
  region := (lineTransfer start 2).info
  accessType := .write
  dataSize := 2
  buf := [a, b]
  storageLocation := [102]
  one_le_ndim := one_le_ndim_lineTransfer start 2
  ndim_le_four := ndim_lineTransfer_le_four start 2

theorem wholeData_twoBytes (start : UInt64) (a b : UInt8) :
    WholeData emptyObject (twoBytes start a b) := ⟨rfl, rfl, rfl⟩

theorem newWrite_twoBytes (start : UInt64) (a b : UInt8) : NewWrite (twoBytes start a b) :=
  ⟨rfl, rfl, cons_ne_nil _ _, rfl⟩

/-- A region is written and copied, then another one is written. -/
theorem givesLastData_other_region :
    GivesLastData (run (copyStep (cacheFilePath [46] 0)) { lists := emptyObject }
        [.write (twoBytes 0 1 2), .copy (twoBytes 0 1 2), .write (twoBytes 2 3 4)])
      (writtenBy [.write (twoBytes 0 1 2), .copy (twoBytes 0 1 2), .write (twoBytes 2 3 4)]) := by
  refine (givesLastData_iff_fits [46] 0 { lists := emptyObject } eq_nil_of_emptyObject _ ?_).mpr
    ?_ _ (prefix_refl _)
  · intro before ev after hsplit
    rcases before with _ | ⟨a, _ | ⟨b, _ | ⟨c, before⟩⟩⟩ <;>
      simp only [nil_append, cons_append, List.cons.injEq] at hsplit
    · obtain ⟨rfl, -⟩ := hsplit
      exact ⟨wholeData_twoBytes 0 1 2, newWrite_twoBytes 0 1 2⟩
    · obtain ⟨rfl, rfl, -⟩ := hsplit
      exact ⟨wholeData_twoBytes 0 1 2, twoBytes 0 1 2, mem_cons_self, rfl⟩
    · obtain ⟨-, -, rfl, -⟩ := hsplit
      exact ⟨wholeData_twoBytes 2 3 4, newWrite_twoBytes 2 3 4⟩
    · exact absurd hsplit.2.2.2.symm (append_ne_nil_of_right_ne_nil _ (cons_ne_nil _ _))
  · exact ⟨by decide +kernel, by decide +kernel, by decide +kernel, trivial⟩

/-- A region is written, copied and written again: a look-up leads to the copy, which has the
first data. -/
theorem not_givesLastData_rewritten :
    ¬GivesLastData (run (copyStep (cacheFilePath [46] 0)) { lists := emptyObject }
        [.write (twoBytes 0 1 2), .copy (twoBytes 0 1 2), .write (twoBytes 0 3 4)])
      (writtenBy [.write (twoBytes 0 1 2), .copy (twoBytes 0 1 2), .write (twoBytes 0 3 4)]) := by
  intro hgives
  have hlast : writtenBy ([.write (twoBytes 0 1 2), .copy (twoBytes 0 1 2)] ++
      [.write (twoBytes 0 3 4)]) (twoBytes 0 3 4).key = some [3, 4] := by
    exact mapStep_put_self _ _ _
  obtain ⟨metas, hmetas, ⟨info, hinfo, hregion⟩, hall⟩ := hgives 7 _ _ hlast
  have hholds := hall info hinfo hregion
  have hplaces : (copyAllStorageMeta (run (copyStep (cacheFilePath [46] 0))
      { lists := emptyObject } [.write (twoBytes 0 1 2), .copy (twoBytes 0 1 2),
        .write (twoBytes 0 3 4)]).lists 7).map (List.map fun info =>
          (info.storageLocation, info.offset)) = some [(cacheFilePath [46] 0, 0)] := by
    decide +kernel
  rw [hmetas, Option.map_some, Option.some.injEq] at hplaces
  have hplace : (info.storageLocation, info.offset) ∈ [(cacheFilePath [46] 0, 0)] :=
    hplaces ▸ mem_map_of_mem hinfo
  rw [mem_singleton, Prod.mk.injEq] at hplace
  rw [hplace.1, hplace.2] at hholds
  revert hholds
  decide +kernel

end Pdc
