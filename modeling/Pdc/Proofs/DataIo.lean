import Pdc.Proofs.StorageMap
import Pdc.Proofs.WholeRegion
import Pdc.Server.DataIo

/-!
# What the data server does with its requests

Requests are told apart by object and region (`IoRegion.key`). A queue of writes
has at most one request for each, the latest; a queue of reads has one for each
that was ever read.

What the storage holds is a map from keys to data (`Stored`). A write that is
made puts its data into the map. When a list of writes has been gone through, the
map has what the requests asked for, `T`, wherever there was one that had not been
made before, and is otherwise as it was (`Advances`). A read that is made has the
data of the map in its buffer, and keeps the place it was found at (`ReadElt`).
-/

namespace Pdc

open List Lib

variable {lists : List IoList} {elts regions : List IoRegion} {entries : List StorageEntry}
  {files f' f : Bytes → Option Bytes} {elt : IoRegion} {list : IoList} {s' : FileServer}
  {info : IoInfo}

/-! ## Queues -/

/-- What a request is for. -/
abbrev IoKey := UInt64 × RegionInfo

def IoRegion.key (elt : IoRegion) : IoKey := (elt.objId, elt.region)

def IoInfo.key (info : IoInfo) : IoKey := (info.objId, info.region.info)

theorem request_region (info : IoInfo) : info.request.region = info.region.info :=
  info_regionTransferToList info.one_le_ndim info.ndim_le_four _

theorem request_key (info : IoInfo) : info.request.key = info.key := by
  rw [IoRegion.key, request_region]
  rfl

def eltsOf (lists : List IoList) : List IoRegion := lists.flatMap IoList.regions

theorem mem_eltsOf :
    elt ∈ eltsOf lists ↔ ∃ list ∈ lists, elt ∈ list.regions := mem_flatMap

/-- There is one list for an object, with requests for it. -/
structure ListsWF (lists : List IoList) : Prop where
  nodup : (lists.map IoList.objId).Nodup
  objId : ∀ list ∈ lists, ∀ elt ∈ list.regions, elt.objId = list.objId
  ne_nil : ∀ list ∈ lists, list.regions ≠ []

theorem listsWF_nil : ListsWF [] where
  nodup := nodup_nil
  objId := fun _ h => absurd h not_mem_nil
  ne_nil := fun _ h => absurd h not_mem_nil

theorem mem_add_write (h : info.ioType ≠ .read) :
    elt ∈ (list.add info).regions ↔
      elt = info.request ∨ (elt ∈ list.regions ∧ elt.region ≠ info.region.info) := by
  rw [IoList.add, if_neg h]
  rw [mem_append, mem_filter, mem_singleton, Bool.not_eq_true', Bool.eq_false_iff,
    Ne, isSameRegionList_iff, request_region, or_comm, eq_comm (b := elt.region)]

theorem mem_add_read (h : info.ioType = .read) :
    elt ∈ (list.add info).regions ↔ elt ∈ list.regions ∨
        (elt = info.request ∧ ∀ e ∈ list.regions, e.region ≠ info.region.info) := by
  have hany : list.regions.any (fun e => isSameRegionList info.request.region e.region) = true ↔
      ∃ e ∈ list.regions, e.region = info.region.info := by
    rw [any_eq_true]
    simp only [isSameRegionList_iff, request_region]
    exact exists_congr fun e => and_congr_right fun _ => eq_comm
  rw [IoList.add, if_pos h]
  split
  · next hsame =>
    obtain ⟨e, he, hregion⟩ := hany.mp hsame
    exact ⟨.inl, fun hor => hor.resolve_right fun hnew => hnew.2 e he hregion⟩
  · next hnew =>
    rw [mem_append, mem_singleton]
    refine or_congr_right (iff_self_and.mpr fun _ e he hregion => hnew (hany.mpr ⟨e, he,
      hregion⟩))

theorem add_objId (info : IoInfo) (list : IoList) : (list.add info).objId = list.objId := by
  rw [IoList.add]
  split
  · split
    · rfl
    · rfl
  · rfl

theorem add_ne_nil (info : IoInfo) (list : IoList) : (list.add info).regions ≠ [] := by
  rw [IoList.add]
  split
  · split
    · next hany =>
      intro hnil
      rw [hnil] at hany
      exact absurd hany Bool.false_ne_true
    · exact append_ne_nil_of_right_ne_nil _ (cons_ne_nil _ _)
  · exact append_ne_nil_of_right_ne_nil _ (cons_ne_nil _ _)

theorem mem_eltsOf_middle {before after : List IoList} :
    elt ∈ eltsOf (before ++ list :: after) ↔ elt ∈ list.regions ∨
      elt ∈ eltsOf (before ++ after) := by
  have hperm : (before ++ list :: after).Perm (list :: (before ++ after)) := perm_middle
  rw [mem_eltsOf, mem_eltsOf]
  simp only [hperm.mem_iff, mem_cons, exists_eq_or_imp]

theorem receive_lists (cfg : IoConfig) {q : IoQueue} (hq : ListsWF q.lists) (info : IoInfo) :
    ∃ before list after, (q.receive cfg info).lists = before ++ list.add info :: after ∧
      list.objId = info.objId ∧ (∀ l ∈ before ++ after, l ∈ q.lists ∧ l.objId ≠ info.objId) ∧
      ((before ++ after).map IoList.objId).Nodup ∧ (list ∈ q.lists ∨ list.regions = []) ∧
      ∀ elt, elt ∈ eltsOf q.lists ↔ elt ∈ list.regions ∨ elt ∈ eltsOf (before ++ after) := by
  rw [IoQueue.receive]
  split
  · next lists hfound =>
    obtain ⟨before, list, after, hsplit, -, hobj, rfl⟩ := modifyFirst_eq_some hfound
    have hid : list.objId = info.objId := (of_decide_eq_true hobj).symm
    have hperm : (before ++ list :: after).Perm (list :: (before ++ after)) :=
      perm_middle
    have hnodup := hq.nodup
    rw [hsplit, (hperm.map IoList.objId).nodup_iff, map_cons, nodup_cons] at hnodup
    refine ⟨before, list, after, rfl, hid, fun l hl => ⟨?_, fun heq => ?_⟩, hnodup.2, .inl ?_,
      fun elt => ?_⟩
    · rw [hsplit, hperm.mem_iff]
      exact mem_cons_of_mem list hl
    · exact hnodup.1 (hid.trans heq.symm ▸ mem_map_of_mem hl)
    · rw [hsplit]
      exact mem_append_right before mem_cons_self
    · rw [hsplit]
      exact mem_eltsOf_middle
  · next hnone =>
    refine ⟨q.lists, cfg.newList info, [], rfl, rfl, fun l hl => ?_, ?_, .inr rfl, fun elt => ?_⟩
    · rw [append_nil] at hl
      exact ⟨hl, fun heq => of_decide_eq_false (modifyFirst_eq_none.mp hnone l hl) heq.symm⟩
    · rw [append_nil]
      exact hq.nodup
    · rw [append_nil]
      exact (or_iff_right (not_mem_nil)).symm

section Receive

variable (cfg : IoConfig) {q : IoQueue} (hq : ListsWF q.lists) {info : IoInfo}

include hq

theorem key_ne_of_mem_others {others : List IoList}
    (hothers : ∀ l ∈ others, l ∈ q.lists ∧ l.objId ≠ info.objId)
    (helt : elt ∈ eltsOf others) : elt.key ≠ info.key := by
  obtain ⟨l, hl, hmem⟩ := mem_eltsOf.mp helt
  intro hkey
  refine (hothers l hl).2 ?_
  rw [← hq.objId l (hothers l hl).1 elt hmem]
  exact congrArg Prod.fst hkey

theorem key_eq_iff (hlist : list ∈ q.lists ∨ list.regions = [])
    (hid : list.objId = info.objId) (helt : elt ∈ list.regions) :
    elt.key = info.key ↔ elt.region = info.region.info := by
  have hmem : list ∈ q.lists := hlist.resolve_right fun hnil => by
    rw [hnil] at helt
    exact not_mem_nil helt
  have hobj : elt.objId = info.objId := (hq.objId list hmem elt helt).trans hid
  rw [IoRegion.key, IoInfo.key, Prod.mk.injEq, and_iff_right hobj]

theorem mem_receive_write (h : info.ioType ≠ .read) :
    elt ∈ eltsOf (q.receive cfg info).lists ↔
      elt = info.request ∨ (elt ∈ eltsOf q.lists ∧ elt.key ≠ info.key) := by
  obtain ⟨before, list, after, hlists, hid, hothers, -, hlist, helts⟩ := receive_lists cfg hq info
  rw [hlists, mem_eltsOf_middle, mem_add_write h, helts, or_assoc]
  refine or_congr_right ⟨?_, ?_⟩
  · rintro (⟨hmem, hne⟩ | hmem)
    · exact ⟨.inl hmem, (key_eq_iff hq hlist hid hmem).not.mpr hne⟩
    · exact ⟨.inr hmem, key_ne_of_mem_others hq hothers hmem⟩
  · rintro ⟨hmem | hmem, hne⟩
    · exact .inl ⟨hmem, (key_eq_iff hq hlist hid hmem).not.mp hne⟩
    · exact .inr hmem

theorem mem_receive_read (h : info.ioType = .read) :
    elt ∈ eltsOf (q.receive cfg info).lists ↔
      elt ∈ eltsOf q.lists ∨ (elt = info.request ∧ ∀ e ∈ eltsOf q.lists, e.key ≠ info.key) := by
  obtain ⟨before, list, after, hlists, hid, hothers, -, hlist, helts⟩ := receive_lists cfg hq info
  have hnone : (∀ e ∈ list.regions, e.region ≠ info.region.info) ↔
      ∀ e ∈ eltsOf q.lists, e.key ≠ info.key := by
    refine ⟨fun hall e he => ?_, fun hall e he => ?_⟩
    · rcases (helts e).mp he with hmem | hmem
      · exact (key_eq_iff hq hlist hid hmem).not.mpr (hall e hmem)
      · exact key_ne_of_mem_others hq hothers hmem
    · exact (key_eq_iff hq hlist hid he).not.mp (hall e ((helts e).mpr (.inl he)))
  rw [hlists, mem_eltsOf_middle, mem_add_read h, helts, hnone]
  exact or_right_comm

theorem listsWF_receive (info : IoInfo) : ListsWF (q.receive cfg info).lists := by
  obtain ⟨before, list, after, hlists, hid, hothers, hnodup, hlist, -⟩ := receive_lists cfg hq info
  have hperm : (before ++ list.add info :: after).Perm (list.add info :: (before ++ after)) :=
    perm_middle
  have hregions : ∀ elt ∈ (list.add info).regions, elt = info.request ∨ elt ∈ list.regions := by
    intro elt helt
    by_cases hread : info.ioType = .read
    · exact ((mem_add_read hread).mp helt).symm.imp And.left id
    · exact ((mem_add_write hread).mp helt).imp id And.left
  rw [hlists]
  refine ⟨?_, fun l hl => ?_, fun l hl => ?_⟩
  · rw [(hperm.map IoList.objId).nodup_iff, map_cons, nodup_cons, add_objId, hid]
    refine ⟨fun hmem => ?_, hnodup⟩
    obtain ⟨l, hl, heq⟩ := mem_map.mp hmem
    exact (hothers l hl).2 heq
  · rcases mem_cons.mp (hperm.mem_iff.mp hl) with rfl | hl
    · intro elt helt
      rw [add_objId]
      rcases hregions elt helt with rfl | helt
      · exact hid.symm
      · rcases hlist with hmem | hnil
        · exact hq.objId list hmem elt helt
        · rw [hnil] at helt
          simp at helt
    · exact hq.objId l (hothers l hl).1
  · rcases mem_cons.mp (hperm.mem_iff.mp hl) with rfl | hl
    · exact add_ne_nil info list
    · exact hq.ne_nil l (hothers l hl).1

end Receive

/-! ## What is stored -/

/-- Data under keys. -/
abbrev Written := IoKey → Option Bytes

/-- The storage lists and the files hold the data. -/
structure StoresMap (s : FileServer) (W : Written) : Prop where
  known : ∀ o r, (W (o, r)).isSome → (s.lists o).isSome
  held : ∀ o entries, s.lists o = some entries → ∃ m, ListHolds entries m ∧
    ∀ r, Option.Rel (fun (p : Placement) data => FileHolds s.files p.1 p.2 data) (m r) (W (o, r))

theorem fileHolds_rel_mono (hgrows : Grows f f') {place : Option Placement} {data : Option Bytes}
    (h : Option.Rel (fun p d => FileHolds f p.1 p.2 d) place data) :
    Option.Rel (fun p d => FileHolds f' p.1 p.2 d) place data := by
  cases h with
  | some hholds => exact .some (hholds.mono hgrows)
  | none => exact .none

theorem Grows.trans {f'' : Bytes → Option Bytes} (h : Grows f f') (h' : Grows f' f'') :
    Grows f f'' := by
  intro path content hcontent
  obtain ⟨more, hmore⟩ := h path content hcontent
  obtain ⟨more', hmore'⟩ := h' path _ hmore
  exact ⟨more ++ more', by rw [hmore', append_assoc]⟩

section Writes

variable {s : FileServer} {W T W' : Written} {elt : IoRegion}

theorem grows_writeOut (s : FileServer) (elt : IoRegion) : Grows s.files (writeOut s elt).files :=
  grows_appendFile _ _ _

theorem StoresMap.step (h : StoresMap s W) (hpath : elt.storageLocation ≠ [])
    (hknown : (s.lists elt.objId).isSome) (hwhole : elt.buf.take elt.dataSize.toNat = elt.buf) :
    StoresMap (writeOut s elt) (mapStep W (.put elt.key elt.buf)) where
  known := by
    intro o r hsome
    rw [isSome_writeOut]
    by_cases hkey : elt.key = (o, r)
    · obtain rfl : elt.objId = o := congrArg Prod.fst hkey
      exact hknown
    · rw [mapStep_put_of_ne W elt.buf hkey] at hsome
      exact h.known o r hsome
  held := by
    have hgrows := grows_writeOut s elt
    intro o entries hlist
    by_cases ho : o = elt.objId
    · subst ho
      obtain ⟨old, hold⟩ := Option.isSome_iff_exists.mp hknown
      obtain ⟨m, hm, hrel⟩ := h.held _ old hold
      rw [writeOut_lists_self, hold, Option.map_some, Option.some.injEq] at hlist
      subst hlist
      refine ⟨_, hm.putStorageLoc (elt.placed s.files).entry, fun r => ?_⟩
      by_cases hr : elt.region = r
      · subst hr
        rw [show (elt.placed s.files).entry.region = elt.region from rfl, mapStep_put_self,
          show (elt.objId, elt.region) = elt.key from rfl, mapStep_put_self]
        refine .some ?_
        show FileHolds (appendFile s.files elt.storageLocation
          (elt.buf.take elt.dataSize.toNat)) elt.storageLocation _ elt.buf
        rw [hwhole]
        exact fileHolds_appendFile hpath
      · have hkey : elt.key ≠ (elt.objId, r) := fun heq => hr (congrArg Prod.snd heq)
        rw [mapStep_put_of_ne m _ (show (elt.placed s.files).entry.region ≠ r from hr),
          mapStep_put_of_ne W elt.buf hkey]
        exact fileHolds_rel_mono hgrows (hrel r)
    · rw [writeOut_lists_of_ne s elt ho] at hlist
      obtain ⟨m, hm, hrel⟩ := h.held o entries hlist
      refine ⟨m, hm, fun r => ?_⟩
      have hkey : elt.key ≠ (o, r) := fun heq => ho (congrArg Prod.fst heq).symm
      rw [mapStep_put_of_ne W elt.buf hkey]
      exact fileHolds_rel_mono hgrows (hrel r)

/-- After some writes the map has what was asked for where one of them had to be made, and
is otherwise as it was. -/
def Advances (T W W' : Written) (elts : List IoRegion) : Prop :=
  ∀ k, W' k = T k ∨ (W' k = W k ∧ ∀ elt ∈ elts, elt.isIoDone = false → elt.key ≠ k)

theorem Advances.append {W'' : Written} {elts' : List IoRegion} (h : Advances T W W' elts)
    (h' : Advances T W' W'' elts') : Advances T W W'' (elts ++ elts') := by
  intro k
  rcases h' k with heq | ⟨heq, hnone⟩
  · exact .inl heq
  · rcases h k with heq' | ⟨heq', hnone'⟩
    · exact .inl (heq.trans heq')
    · refine .inr ⟨heq.trans heq', ?_⟩
      rw [forall_mem_append]
      exact ⟨hnone', hnone⟩

/-- A write that has to be made, of the data that was asked for. -/
structure Due (lists : StorageLists) (T : Written) (elt : IoRegion) : Prop where
  path : elt.storageLocation ≠ []
  known : (lists elt.objId).isSome
  whole : elt.buf.take elt.dataSize.toNat = elt.buf
  asked : T elt.key = some elt.buf

/-- What a server keeps through writes. -/
structure Follows (s s' : FileServer) : Prop where
  grows : Grows s.files s'.files
  known : ∀ o, (s'.lists o).isSome = (s.lists o).isSome

theorem Follows.refl (s : FileServer) : Follows s s := ⟨Grows.refl s.files, fun _ => rfl⟩

theorem Follows.trans {s s'' : FileServer} (h : Follows s s') (h' : Follows s' s'') :
    Follows s s'' := ⟨h.grows.trans h'.grows, fun o => (h'.known o).trans (h.known o)⟩

theorem storesMap_writeAll (h : StoresMap s W)
    (helts : ∀ elt ∈ elts, elt.isIoDone = false → Due s.lists T elt) :
    ∃ W', StoresMap (writeAll s elts).1 W' ∧ Advances T W W' elts ∧
      Follows s (writeAll s elts).1 := by
  induction elts generalizing s W with
  | nil =>
    exact ⟨W, h, fun k => .inr ⟨rfl, by simp⟩, Follows.refl s⟩
  | cons elt rest ih =>
    rw [forall_mem_cons] at helts
    rw [writeAll]
    cases hdone : elt.isIoDone with
    | true =>
      obtain ⟨W', hW', hadv, hfollows⟩ := ih h helts.2
      refine ⟨W', hW', fun k => (hadv k).imp id fun hk => ⟨hk.1, ?_⟩, hfollows⟩
      rw [forall_mem_cons]
      exact ⟨fun hnot => absurd (hdone.symm.trans hnot) (Bool.false_ne_true ∘ Eq.symm), hk.2⟩
    | false =>
      have hdue := helts.1 hdone
      have hstep : Follows s (writeOut s elt) := ⟨grows_writeOut s elt, isSome_writeOut s elt⟩
      have hrest : ∀ e ∈ rest, e.isIoDone = false → Due (writeOut s elt).lists T e := by
        intro e he hnot
        obtain ⟨hpath, hknown, hwhole, hasked⟩ := helts.2 e he hnot
        exact ⟨hpath, (hstep.known e.objId).trans hknown, hwhole, hasked⟩
      obtain ⟨W', hW', hadv, hfollows⟩ :=
        ih (h.step hdue.path hdue.known hdue.whole) hrest
      refine ⟨W', hW', fun k => ?_, hstep.trans hfollows⟩
      rcases hadv k with heq | ⟨heq, hnone⟩
      · exact .inl heq
      · by_cases hkey : elt.key = k
        · subst hkey
          left
          rw [heq, mapStep_put_self, hdue.asked]
        · rw [mapStep_put_of_ne W elt.buf hkey] at heq
          refine .inr ⟨heq, ?_⟩
          rw [forall_mem_cons]
          exact ⟨fun _ => hkey, hnone⟩

theorem mem_writeAll {elt' : IoRegion} (h : elt' ∈ (writeAll s elts).2) :
    elt'.isIoDone = true ∧ ∃ elt ∈ elts, elt'.key = elt.key ∧ elt'.accessType = elt.accessType := by
  induction elts generalizing s with
  | nil => exact absurd h not_mem_nil
  | cons elt rest ih =>
    rw [writeAll] at h
    have htail : ∀ s, elt' ∈ (writeAll s rest).2 → elt'.isIoDone = true ∧
        ∃ e ∈ elt :: rest, elt'.key = e.key ∧ elt'.accessType = e.accessType := by
      intro s hmem
      obtain ⟨hdone, e, he, hsame⟩ := ih hmem
      exact ⟨hdone, e, mem_cons_of_mem elt he, hsame⟩
    cases hdone : elt.isIoDone with
    | true =>
      rw [hdone] at h
      rcases mem_cons.mp h with rfl | hmem
      · exact ⟨hdone, elt', mem_cons_self, rfl, rfl⟩
      · exact htail s hmem
    | false =>
      rw [hdone] at h
      rcases mem_cons.mp h with rfl | hmem
      · exact ⟨rfl, elt, mem_cons_self, rfl, rfl⟩
      · exact htail (writeOut s elt) hmem

theorem writeAll_ne_nil (h : elts ≠ []) : (writeAll s elts).2 ≠ [] := by
  cases elts with
  | nil => exact absurd rfl h
  | cons elt rest =>
    rw [writeAll]
    split
    · exact cons_ne_nil _ _
    · exact cons_ne_nil _ _

/-! ## Lists of writes -/

/-- A request on a list of writes. If it has not been made, it is for the data that was
asked for last. -/
structure WriteElt (lists : StorageLists) (T : Written) (elt : IoRegion) : Prop where
  access : elt.accessType = .write
  known : elt.isIoDone = false → (lists elt.objId).isSome
  asked : elt.isIoDone = false → T elt.key = some elt.buf
  dataSize : elt.isIoDone = false → elt.dataSize = 0
  size : elt.isIoDone = false → getRegionSize elt.region ≠ 0
  length : elt.isIoDone = false → elt.buf.length = (getRegionSize elt.region).toNat

structure WriteDone (elt : IoRegion) : Prop where
  access : elt.accessType = .write
  done : elt.isIoDone = true

theorem serverFile_ne_nil (rank : Nat) (path : Bytes) : serverFile rank path ≠ [] :=
  append_ne_nil_of_right_ne_nil _ (cons_ne_nil _ _)

theorem storageLocation_ne_nil (cfg : IoConfig) (list : IoList) (i : Nat) :
    cfg.storageLocation list i ≠ [] := by
  unfold IoConfig.storageLocation
  dsimp only
  generalize (if cfg.rank % 2 = 0 then _ else _ : Bool) = toBB
  split
  · exact serverFile_ne_nil _ _
  · exact serverFile_ne_nil _ _

section Lists

variable (cfg : IoConfig) {list : IoList}

theorem mem_located (h : elt ∈ cfg.located list) :
    ∃ e ∈ list.regions, ∃ path, path ≠ [] ∧ elt = e.locatedAt path := by
  obtain ⟨i, hi, rfl⟩ := mem_mapIdx.mp h
  exact ⟨_, (mem_insertionSort _).mp (getElem_mem hi), _, storageLocation_ne_nil cfg list i, rfl⟩

theorem locatedAt_mem_located (h : elt ∈ list.regions) :
    ∃ path, elt.locatedAt path ∈ cfg.located list := by
  obtain ⟨i, hi, hget⟩ := getElem_of_mem ((mem_insertionSort
    fun a b => regionListCmpByClientId a b ≤ 0).mpr h)
  exact ⟨_, mem_mapIdx.mpr ⟨i, hi, by rw [hget]⟩⟩

theorem located_ne_nil (h : list.regions ≠ []) : cfg.located list ≠ [] := by
  obtain ⟨elt, helt⟩ := exists_mem_of_ne_nil _ h
  obtain ⟨path, hmem⟩ := locatedAt_mem_located cfg helt
  exact ne_nil_of_mem hmem

def IoRegion.opened (elt : IoRegion) : IoRegion :=
  if elt.isIoDone then elt else elt.withDataSize

theorem opened_key (elt : IoRegion) : elt.opened.key = elt.key := by
  rw [IoRegion.opened]
  split
  · rfl
  · rfl

theorem opened_accessType (elt : IoRegion) : elt.opened.accessType = elt.accessType := by
  rw [IoRegion.opened]
  split
  · rfl
  · rfl

theorem opened_isIoDone (elt : IoRegion) : elt.opened.isIoDone = elt.isIoDone := by
  rw [IoRegion.opened]
  split
  · rfl
  · rfl

theorem openClientShm_eq (h : ∀ elt ∈ elts, elt.isIoDone = false → elt.shmSize ≠ 0) :
    openClientShm elts = (elts.map IoRegion.opened, .succeed) := by
  induction elts with
  | nil => rfl
  | cons elt rest ih =>
    rw [forall_mem_cons] at h
    rw [openClientShm, ih h.2, map_cons, IoRegion.opened]
    cases hdone : elt.isIoDone with
    | true => rfl
    | false => rw [if_neg Bool.false_ne_true, if_neg (h.1 hdone), if_neg Bool.false_ne_true]

theorem WriteElt.shmSize (h : WriteElt s.lists T elt) (hdone : elt.isIoDone = false) :
    elt.shmSize = getRegionSize elt.region := if_pos (h.dataSize hdone)

theorem WriteElt.due (h : WriteElt s.lists T elt) (hdone : elt.isIoDone = false) {path : Bytes}
    (hpath : path ≠ []) : Due s.lists T (elt.locatedAt path).opened := by
  have hopened : (elt.locatedAt path).opened = (elt.locatedAt path).withDataSize := by
    refine if_neg (fun hnot => Bool.false_ne_true ?_)
    rw [← hdone]
    exact hnot
  rw [hopened]
  refine ⟨hpath, h.known hdone, ?_, h.asked hdone⟩
  show elt.buf.take elt.shmSize.toNat = elt.buf
  rw [h.shmSize hdone, ← h.length hdone, take_length]

/-- The requests of a list as they are written. -/
def IoConfig.prepared (list : IoList) : List IoRegion := (cfg.located list).map IoRegion.opened

theorem mem_prepared (helts : ∀ elt ∈ list.regions, WriteElt s.lists T elt)
    (h : elt ∈ cfg.prepared list) :
    elt.accessType = .write ∧ (elt.isIoDone = false → Due s.lists T elt) ∧
      ∃ e ∈ list.regions, elt.key = e.key := by
  obtain ⟨located, hlocated, rfl⟩ := mem_map.mp h
  obtain ⟨e, he, path, hpath, rfl⟩ := mem_located cfg hlocated
  refine ⟨?_, fun hdone => ?_, e, he, opened_key _⟩
  · rw [opened_accessType]
    exact (helts e he).access
  · rw [opened_isIoDone] at hdone
    exact (helts e he).due hdone hpath

theorem prepared_ne_nil (h : list.regions ≠ []) : cfg.prepared list ≠ [] :=
  fun hnil => located_ne_nil cfg h (map_eq_nil_iff.mp hnil)

theorem openClientShm_located (helts : ∀ elt ∈ list.regions, WriteElt s.lists T elt) :
    openClientShm (cfg.located list) = (cfg.prepared list, .succeed) := by
  refine openClientShm_eq fun elt helt hdone => ?_
  obtain ⟨e, he, path, -, rfl⟩ := mem_located cfg helt
  show e.shmSize ≠ 0
  rw [(helts e he).shmSize hdone]
  exact (helts e he).size hdone

theorem Advances.of_prepared (h : Advances T W W' (cfg.prepared list)) :
    Advances T W W' list.regions := by
  intro k
  refine (h k).imp id fun hk => ⟨hk.1, fun e he hnot => ?_⟩
  obtain ⟨path, hlocated⟩ := locatedAt_mem_located cfg he
  have hopened := hk.2 _ (mem_map_of_mem hlocated)
  rw [opened_isIoDone, opened_key] at hopened
  exact hopened hnot

theorem dataWriteFromShm_list (hne : list.regions ≠ []) (h : StoresMap s W)
    (helts : ∀ elt ∈ list.regions, WriteElt s.lists T elt) :
    ∃ s' regions W', dataWriteFromShm s (cfg.located list) = some (s', regions, .succeed) ∧
      StoresMap s' W' ∧ Advances T W W' list.regions ∧ Follows s s' ∧ regions ≠ [] ∧
      ∀ elt' ∈ regions, WriteDone elt' ∧ ∃ elt ∈ list.regions, elt'.key = elt.key := by
  have hprepared := fun (elt : IoRegion) (helt : elt ∈ cfg.prepared list) =>
    mem_prepared cfg helts helt
  have hwritable : ∀ elt ∈ cfg.prepared list, Writable s.lists elt := fun elt helt =>
    ⟨(hprepared elt helt).1, fun hnot => ((hprepared elt helt).2.1 hnot).path,
      fun hnot => ((hprepared elt helt).2.1 hnot).known⟩
  obtain ⟨W', hW', hadv, hfollows⟩ :=
    storesMap_writeAll h fun elt helt => (hprepared elt helt).2.1
  have hmade := writeAll_ne_nil (s := s) (prepared_ne_nil cfg hne)
  have hany : (writeAll s (cfg.prepared list)).2.any IoRegion.isIoDone = true := by
    obtain ⟨elt, helt⟩ := exists_mem_of_ne_nil _ hmade
    exact any_eq_true.mpr ⟨elt, helt, (mem_writeAll helt).1⟩
  refine ⟨_, (closeDone (writeAll s (cfg.prepared list)).2 .succeed).1, W', ?_, hW',
    hadv.of_prepared cfg, hfollows, fun hnil => hmade (map_eq_nil_iff.mp hnil), ?_⟩
  · rw [dataWriteFromShm, openClientShm_located cfg helts]
    simp only [serverPosixOneFileIo_writes (prepared_ne_nil cfg hne) hwritable, closeDone, hany,
      if_true]
  · intro elt' helt'
    obtain ⟨elt, helt, rfl⟩ := mem_map.mp helt'
    obtain ⟨hdone, e, he, hkey, haccess⟩ := mem_writeAll helt
    obtain ⟨hwrite, -, e', he', hkey'⟩ := hprepared e he
    rw [if_pos hdone, IoRegion.closeShm]
    split
    · exact ⟨⟨haccess.trans hwrite, hdone⟩, e', he', hkey.trans hkey'⟩
    · exact ⟨⟨haccess.trans hwrite, hdone⟩, e', he', hkey.trans hkey'⟩

theorem writeLists_eq (hne : ∀ list ∈ lists, list.regions ≠ []) (h : StoresMap s W)
    (helts : ∀ elt ∈ eltsOf lists, WriteElt s.lists T elt) :
    ∃ s' lists' W', writeLists cfg s lists = some (s', lists', .succeed) ∧ StoresMap s' W' ∧
      Advances T W W' (eltsOf lists) ∧ Follows s s' ∧
      List.Forall₂ (fun list list' => list'.objId = list.objId ∧ list'.regions ≠ [] ∧
        ∀ elt' ∈ list'.regions, WriteDone elt' ∧ ∃ elt ∈ list.regions, elt'.key = elt.key)
        lists lists' := by
  induction lists generalizing s W with
  | nil =>
    exact ⟨s, [], W, rfl, h, fun k => .inr ⟨rfl, fun _ hmem => absurd hmem not_mem_nil⟩,
      Follows.refl s, .nil⟩
  | cons list rest ih =>
    rw [forall_mem_cons] at hne
    have hsplit : eltsOf (list :: rest) = list.regions ++ eltsOf rest := flatMap_cons
    rw [hsplit, forall_mem_append] at helts
    obtain ⟨s₁, regions, W₁, hwrite, hW₁, hadv₁, hfollows₁, hregions⟩ :=
      dataWriteFromShm_list cfg hne.1 h helts.1
    have hrest : ∀ elt ∈ eltsOf rest, WriteElt s₁.lists T elt := fun elt helt =>
      { helts.2 elt helt with
        known := fun hdone => (hfollows₁.known _).trans ((helts.2 elt helt).known hdone) }
    obtain ⟨s₂, lists', W₂, hlists, hW₂, hadv₂, hfollows₂, hall⟩ := ih hne.2 hW₁ hrest
    refine ⟨s₂, list.withRegions regions :: lists', W₂, ?_, hW₂, ?_, hfollows₁.trans hfollows₂,
      .cons ⟨rfl, hregions⟩ hall⟩
    · rw [writeLists, hwrite]
      simp only [hlists]
    · rw [hsplit]
      exact hadv₁.append hadv₂

end Lists

end Writes

/-! ## Reads -/

/-- A request on a list of reads. If it has been made, its buffer has the data of its key,
and so has the file where it was found. -/
structure ReadElt (files : Bytes → Option Bytes) (T : Written) (elt : IoRegion) : Prop where
  access : elt.accessType = .read
  box : elt.region.Box
  notClosed : elt.isShmClosed = false
  notInBB : elt.cacheLocation = []
  dataSize : elt.dataSize = 0 ∨ elt.dataSize = getRegionSize elt.region
  made : elt.isIoDone = true → elt.isDataReady = 1 ∧ T elt.key = some elt.buf ∧
    ∃ e : StorageEntry, elt.overlaps = [e] ∧ e.region = elt.region ∧
      FileHolds files e.storageLocation e.offset elt.buf

/-- The data is that of regions which are apart, each with all its bytes. -/
structure MapWF (T : Written) : Prop where
  box : ∀ {o r d}, T (o, r) = some d → r.Box
  length : ∀ {o r d}, T (o, r) = some d → d.length = (getRegionSize r).toNat
  apart : ∀ {o r r' d d'}, T (o, r) = some d → T (o, r') = some d' → r ≠ r' → r.Apart r'

section Reads

variable {s : FileServer} {T : Written} {elt : IoRegion} {o : UInt64} {e : StorageEntry}
  {r : RegionInfo}

theorem ListHolds.of_mem {m : RegionInfo → Option Placement} (h : ListHolds entries m)
    (he : e ∈ entries) : m e.region = some e.placement := by
  obtain ⟨i, hi⟩ := getElem?_of_mem he
  refine Slots.value h (i := i) ?_ ?_
  · rw [getElem?_map, hi]
    rfl
  · rw [getElem?_map, hi]
    rfl

theorem StoresMap.nodup (h : StoresMap s T) (hlist : s.lists o = some entries) :
    (entries.map StorageEntry.region).Nodup := by
  obtain ⟨m, hm, -⟩ := h.held o entries hlist
  exact hm.nodup

theorem StoresMap.of_mem (h : StoresMap s T) (hlist : s.lists o = some entries) (he : e ∈ entries) :
    ∃ d, T (o, e.region) = some d ∧ FileHolds s.files e.storageLocation e.offset d := by
  obtain ⟨m, hm, hrel⟩ := h.held o entries hlist
  have hr := hrel e.region
  rw [hm.of_mem he] at hr
  cases hd : T (o, e.region) with
  | none =>
    rw [hd] at hr
    cases hr
  | some d =>
    rw [hd] at hr
    cases hr with
    | some hholds => exact ⟨d, rfl, hholds⟩

theorem StoresMap.exists_entry (h : StoresMap s T) (hr : (T (o, r)).isSome) :
    ∃ entries, s.lists o = some entries ∧ ∃ e ∈ entries, e.region = r := by
  obtain ⟨entries, hlist⟩ := Option.isSome_iff_exists.mp (h.known o r hr)
  obtain ⟨m, hm, hrel⟩ := h.held o entries hlist
  obtain ⟨d, hd⟩ := Option.isSome_iff_exists.mp hr
  have hplace := hrel r
  rw [hd] at hplace
  have hmr : (m r).isSome := by
    cases hm' : m r with
    | none =>
      rw [hm'] at hplace
      cases hplace
    | some p => rfl
  exact ⟨entries, hlist, mem_map.mp (hm.mem_of_isSome hmr)⟩

theorem StoresMap.lookup (h : StoresMap s T) (hT : MapWF T) {d : Bytes} (hd : T (o, r) = some d) :
    ∃ e : StorageEntry, getLocalStorageLocationOfRegion s.lists o r = some [e] ∧ e.region = r ∧
      FileHolds s.files e.storageLocation e.offset d := by
  obtain ⟨entries, hlist, e, he, rfl⟩ := h.exists_entry (by rw [hd]; rfl)
  obtain ⟨d', hd', hholds⟩ := h.of_mem hlist he
  obtain rfl : d' = d := Option.some.inj (hd'.symm.trans hd)
  have hown := filter_overlap_own (h.nodup hlist) he
    (fun e' he' => hT.box (h.of_mem hlist he').choose_spec.1)
    (fun e' he' hne => hT.apart (h.of_mem hlist he').choose_spec.1 hd hne)
  refine ⟨e, ?_, rfl, hholds⟩
  rw [getLocalStorageLocationOfRegion, hlist]
  simp only [hown]
  refine if_neg fun hor => hor.elim (fun hlt => ?_) (cons_ne_nil _ _)
  rw [maxOverlapRegionNum, length_singleton] at hlt
  omega

/-- A read whose own storage region has been found. -/
structure Fetchable (files : Bytes → Option Bytes) (T : Written) (elt : IoRegion) : Prop where
  readElt : ReadElt files T elt
  found : ∃ (e : StorageEntry) (d : Bytes), elt.overlaps = [e] ∧ e.region = elt.region ∧
    T elt.key = some d ∧ FileHolds files e.storageLocation e.offset d

theorem ReadElt.fetchable (h : ReadElt files T elt) (hdone : elt.isIoDone = true) :
    Fetchable files T elt := by
  obtain ⟨-, hT, e, hoverlaps, hregion, hholds⟩ := h.made hdone
  exact ⟨h, e, elt.buf, hoverlaps, hregion, hT, hholds⟩

theorem ReadElt.fetchable_lookUp (h : ReadElt s.files T elt) (hs : StoresMap s T) (hT : MapWF T)
    (hstored : (T elt.key).isSome) : Fetchable s.files T (lookUp s.lists elt) := by
  obtain ⟨d, hd⟩ := Option.isSome_iff_exists.mp hstored
  obtain ⟨e, hfound, hregion, hholds⟩ := hs.lookup hT hd
  have hlookUp : lookUp s.lists elt = elt.withOverlaps [e] := by
    rw [lookUp, hfound]
    rfl
  rw [hlookUp]
  refine ⟨{ h with made := fun hdone => ?_ }, e, d, rfl, hregion, hd, hholds⟩
  obtain ⟨hready, hbuf, -⟩ := h.made hdone
  obtain rfl : d = elt.buf := Option.some.inj (hd.symm.trans hbuf)
  exact ⟨hready, hbuf, e, rfl, hregion, hholds⟩

theorem ReadElt.shmSize (h : ReadElt files T elt) : elt.shmSize = getRegionSize elt.region := by
  rw [IoRegion.shmSize]
  split
  · rfl
  · next hne => exact h.dataSize.resolve_left hne

theorem readRequest_fetchable (hT : MapWF T) (st : IoLoop)
    (h : Fetchable st.server.files T elt) (hret : st.ret = .succeed) (hf : st.file.Tracks) :
    ∃ st' elt', readRequest st elt = .next st' elt' ∧ st'.server.files = st.server.files ∧
      st'.server.lists = st.server.lists ∧ st'.file.Tracks ∧ st'.ret = .succeed ∧
      elt'.key = elt.key ∧ elt'.isIoDone = true ∧ ReadElt st.server.files T elt' := by
  obtain ⟨hread, e, d, hoverlaps, hregion, hd, hholds⟩ := h
  have hinto : ReadsInto st.server.files elt d :=
    readsInto_own hread.box hread.shmSize hoverlaps hregion hholds (hT.length hd)
  have hsize : elt.shmSize ≠ 0 := by
    rw [hread.shmSize]
    exact hread.box.size
  have hBB : strstr elt.cacheLocation pdcCacheBB = false := by
    rw [hread.notInBB]
    rfl
  by_cases hskip : (elt.isIoDone && !elt.isShmClosed) = true ∧
      st.server.totalReadFromCache ≤ st.server.currentReadFromCache
  · have hdone : elt.isIoDone = true := (Bool.and_eq_true _ _ ▸ hskip.1).1
    refine ⟨st, elt, ?_, rfl, rfl, hf, hret, rfl, hdone, hread⟩
    rw [readRequest]
    simp only [hskip.1, Bool.true_and]
    rw [if_pos (decide_eq_true hskip.2)]
  · have hgo : (elt.isIoDone && !elt.isShmClosed) = false ∨
        st.server.currentReadFromCache < st.server.totalReadFromCache := by
      rw [not_and_or, Bool.not_eq_true, Nat.not_le] at hskip
      exact hskip
    obtain ⟨st', hreq, hfiles, hlists, htracks, hret'⟩ :=
      readRequest_eq st hgo hsize hBB hinto hf
    refine ⟨st', _, hreq, hfiles, hlists, htracks, hret', rfl, rfl, ?_⟩
    exact
      { access := hread.access
        box := hread.box
        notClosed := hread.notClosed
        notInBB := hread.notInBB
        dataSize := .inr hread.shmSize
        made := fun _ => ⟨rfl, hd, e, hoverlaps, hregion, hholds⟩ }

theorem ioPass_reads (hT : MapWF T) (st : IoLoop)
    (h : ∀ elt ∈ regions, Fetchable st.server.files T elt) (hret : st.ret = .succeed)
    (hf : st.file.Tracks) :
    ∃ st' regions', ioPass regions st = .done regions' st' ∧
      st'.server.files = st.server.files ∧ st'.server.lists = st.server.lists ∧
      st'.ret = .succeed ∧ regions'.map IoRegion.key = regions.map IoRegion.key ∧
      ∀ elt' ∈ regions', elt'.isIoDone = true ∧ ReadElt st.server.files T elt' := by
  induction regions generalizing st with
  | nil => exact ⟨st, [], rfl, rfl, rfl, hret, rfl, by simp⟩
  | cons elt rest ih =>
    rw [forall_mem_cons] at h
    obtain ⟨st₁, elt', hreq, hfiles, hlists, htracks, hret₁, hkey, hdone, hread⟩ :=
      readRequest_fetchable hT st h.1 hret hf
    obtain ⟨st₂, regions', hpass, hfiles₂, hlists₂, hret₂, hkeys, hall⟩ :=
      ih st₁ (hfiles.symm ▸ h.2) hret₁ htracks
    refine ⟨st₂, elt' :: regions', ?_, hfiles₂.trans hfiles, hlists₂.trans hlists, hret₂, ?_, ?_⟩
    · rw [ioPass, h.1.readElt.access]
      simp only [hreq, hpass]
      rfl
    · rw [map_cons, map_cons, hkey, hkeys]
    · rw [forall_mem_cons, ← hfiles]
      exact ⟨⟨hdone, hfiles.symm ▸ hread⟩, hall⟩

theorem serverPosixOneFileIo_reads (hs : StoresMap s T) (hT : MapWF T) (hne : regions ≠ [])
    (hlen : regions.length ≤ serverMaxProcPerNode) (hobj : ∀ elt ∈ regions, elt.objId = o)
    (hstored : ∀ elt ∈ regions, (T elt.key).isSome)
    (helts : ∀ elt ∈ regions, ReadElt s.files T elt) :
    ∃ s' regions', serverPosixOneFileIo s regions = some (s', regions', .succeed) ∧
      s'.files = s.files ∧ s'.lists = s.lists ∧
      regions'.map IoRegion.key = regions.map IoRegion.key ∧
      ∀ elt' ∈ regions', elt'.isIoDone = true ∧ ReadElt s.files T elt' := by
  have hfindable : ∀ elt ∈ regions, Findable s.lists o elt := by
    intro elt helt
    obtain ⟨d, hd⟩ := Option.isSome_iff_exists.mp (hstored elt helt)
    obtain ⟨e, hfound, -⟩ := hs.lookup hT hd
    refine ⟨(helts elt helt).access, hobj elt helt, ?_⟩
    rw [← hobj elt helt, hfound]
    rfl
  obtain ⟨looked, hlooked⟩ : ∃ looked, looked = regions.takeWhile IoRegion.isIoDone ++
      (regions.dropWhile IoRegion.isIoDone).map (lookUp s.lists) := ⟨_, rfl⟩
  have hfetchable : ∀ elt ∈ looked, Fetchable s.files T elt := by
    rw [hlooked, forall_mem_append, forall_mem_map]
    refine ⟨fun elt helt => ?_, fun elt helt => ?_⟩
    · have hmem : elt ∈ regions := (takeWhile_sublist _).subset helt
      exact (helts elt hmem).fetchable (all_eq_true.mp all_takeWhile elt helt)
    · have hmem : elt ∈ regions := (dropWhile_sublist _).subset helt
      exact (helts elt hmem).fetchable_lookUp hs hT (hstored elt hmem)
  have hkeys : looked.map IoRegion.key = regions.map IoRegion.key := by
    have hdrop : ((regions.dropWhile IoRegion.isIoDone).map (lookUp s.lists)).map IoRegion.key =
        (regions.dropWhile IoRegion.isIoDone).map IoRegion.key := by
      rw [map_map]
      rfl
    rw [hlooked, map_append, hdrop, ← map_append, takeWhile_append_dropWhile]
  obtain ⟨st', regions', hpass, hfiles, hlists, hret, hkeys', hall⟩ :=
    ioPass_reads hT { server := s } hfetchable rfl OpenFile.tracks_closed
  refine ⟨st'.server, regions', ?_, hfiles, hlists, hkeys'.trans hkeys, hall⟩
  rw [serverPosixOneFileIo, if_neg hne, lookupPass_reads hfindable hlen, ← hlooked]
  simp only [hpass, hret]

theorem StoresMap.congr (h : StoresMap s T) (hfiles : s'.files = s.files)
    (hlists : s'.lists = s.lists) : StoresMap s' T := by
  refine ⟨fun o r => ?_, fun o entries => ?_⟩
  · rw [hlists]
    exact h.known o r
  · rw [hlists, hfiles]
    exact h.held o entries

theorem readLists_eq (hT : MapWF T) (cachePercentage : Nat) (hs : StoresMap s T)
    (hne : ∀ list ∈ lists, list.regions ≠ [])
    (hobj : ∀ list ∈ lists, ∀ elt ∈ list.regions, elt.objId = list.objId)
    (hlen : ∀ list ∈ lists, list.regions.length ≤ serverMaxProcPerNode)
    (hstored : ∀ elt ∈ eltsOf lists, (T elt.key).isSome)
    (helts : ∀ elt ∈ eltsOf lists, ReadElt s.files T elt) :
    ∃ s' lists', readLists cachePercentage s lists = some (s', lists', .succeed) ∧
      s'.files = s.files ∧ s'.lists = s.lists ∧
      List.Forall₂ (fun list list' => list'.objId = list.objId ∧
        list'.regions.map IoRegion.key = list.regions.map IoRegion.key ∧
        ∀ elt' ∈ list'.regions, elt'.isIoDone = true ∧ ReadElt s.files T elt') lists lists' := by
  induction lists generalizing s with
  | nil => exact ⟨s, [], rfl, rfl, rfl, .nil⟩
  | cons list rest ih =>
    have hsplit : eltsOf (list :: rest) = list.regions ++ eltsOf rest := flatMap_cons
    rw [hsplit, forall_mem_append] at hstored helts
    rw [forall_mem_cons] at hne hobj hlen
    rw [readLists]
    split
    · next hcached =>
      obtain ⟨s', lists', hread, hfiles, hlists, hall⟩ :=
        ih hs hne.2 hobj.2 hlen.2 hstored.2 helts.2
      refine ⟨s', list :: lists', by rw [hread], hfiles, hlists, .cons ⟨rfl, rfl, ?_⟩ hall⟩
      exact fun elt helt => ⟨all_eq_true.mp hcached.2 elt helt, helts.1 elt helt⟩
    · obtain ⟨s₁, regions, hio, hfiles₁, hlists₁, hkeys, hregions⟩ :=
        serverPosixOneFileIo_reads hs hT hne.1 hlen.1 hobj.1 hstored.1 helts.1
      obtain ⟨s', lists', hread, hfiles, hlists, hall⟩ :=
        ih (hs.congr hfiles₁ hlists₁) hne.2 hobj.2 hlen.2 hstored.2 (hfiles₁.symm ▸ helts.2)
      rw [hfiles₁] at hall hfiles
      refine ⟨s', list.withRegions regions :: lists', ?_, hfiles, hlists.trans hlists₁,
        .cons ⟨rfl, hkeys, hregions⟩ hall⟩
      rw [hio]
      simp only [hread]

end Reads

end Pdc
