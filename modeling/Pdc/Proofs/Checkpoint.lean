import Pdc.Proofs.ObjectIdentity
import Pdc.Proofs.StorageMap
import Pdc.Server.Checkpoint

/-!
# What a restarted server finds

The readers take the records of a checkpoint in the order they were written in,
each its own bytes and no more. What they make of an object is the object, but for
three things: the storage regions are sorted, their data sizes are computed from
the counts, and the mark that they have been sent to other servers is cleared.

The bytes of a struct with a pointer in it do not say where the pointer leads. For
an object nothing depends on that, since the reader sets what is behind its
pointers: a region without a histogram is the one case where it leaves a pointer as
it is, and then it is null.
-/

namespace Pdc

open List Lib

variable {B : Type}

variable {layout : StructLayout} {s : CheckpointState B} (ops : BloomOps B) {e : StorageEntry}

/-! ## What can be written

The numbers of records are written as `int`, and the fields of a struct have a
fixed size. -/

structure Kvtag.Storable (tag : Kvtag) : Prop where
  name_string : 0 ∉ tag.name
  name_lt : tag.name.length + 1 < 2 ^ 31
  value_lt : tag.value.length < 2 ^ 32

structure Metadata.Storable (layout : StructLayout) (m : Metadata) : Prop where
  fits : layout.metadata.Fits m
  kvtags_lt : m.kvtags.length < 2 ^ 31
  kvtags : ∀ tag ∈ m.kvtags, tag.Storable
  regions_lt : m.regions.length < 2 ^ 31
  regions : ∀ e ∈ m.regions, layout.region.Fits e
  hists : ∀ e ∈ m.regions, ∀ h, e.hist = some h → h.WF

/-- A list of the table has at least one object, and is as long as it says. -/
structure HashEntry.Storable (layout : StructLayout) (entry : HashEntry B) : Prop where
  nObj : entry.nObj = entry.metadata.length
  ne_nil : entry.metadata ≠ []
  nObj_lt : entry.metadata.length < 2 ^ 31
  objects : ∀ m ∈ entry.metadata, m.Storable layout

/-- The regions of the data server do not have histograms. -/
structure SavedDataServerRegion.Storable (layout : StructLayout) (r : SavedDataServerRegion) :
    Prop where
  regions_lt : r.regionStorage.length < 2 ^ 31
  regions : ∀ e ∈ r.regionStorage, layout.region.Fits e
  hists : ∀ e ∈ r.regionStorage, e.hist = none

/-- A server whose state can be written, with entries under the hashes of their names. -/
structure CheckpointState.Storable (layout : StructLayout) (s : CheckpointState B) : Prop where
  containers_lt : s.server.containers.entries.length < 2 ^ 31
  containers : ∀ pair ∈ s.server.containers.entries, layout.container.Fits pair.2
  contKeys : ∀ pair ∈ s.server.containers.entries, getHashByName pair.2.contName = pair.1
  entries_lt : s.server.table.entries.length < 2 ^ 31
  entries : ∀ pair ∈ s.server.table.entries, pair.2.Storable layout
  keys : ∀ pair ∈ s.server.table.entries, getHashByName pair.2.firstName = pair.1
  dataServerRegions_lt : s.dataServerRegions.length < 2 ^ 31
  dataServerRegions : ∀ r ∈ s.dataServerRegions, r.Storable layout
  transferCheckpoint_lt : s.transferCheckpoint.length < 2 ^ 64

/-! ## What is read -/

def StorageEntry.restored (e : StorageEntry) : StorageEntry :=
  { e with dataSize := getRegionSize e.region }

def Metadata.restored (m : Metadata) : Metadata :=
  { m with
    regions := sortRegions (m.regions.map StorageEntry.restored)
    allStorageRegionDistributed := 0 }

def CheckpointState.restored (ops : BloomOps B) (idSeq : UInt64) (s : CheckpointState B) :
    CheckpointState B where
  server :=
    { table := restoreTable ops (s.server.table.entries.map fun pair =>
        (getHashByName pair.2.firstName, pair.2.metadata.map Metadata.restored))
      containers := restoreContainers (s.server.containers.entries.map fun pair =>
        (getHashByName pair.2.contName, pair.2.forget))
      idSeq }
  dataServerRegions := s.dataServerRegions
  transferCheckpoint := s.transferCheckpoint

theorem reads_length {n : Nat} (h : n < 2 ^ 31) : Reads readInt (intBytes n) n :=
  Reads.int (by omega) (by omega)

theorem reads_kvtag {tag : Kvtag} (h : tag.Storable) : Reads readKvtag (kvtagBytes tag) tag := by
  have hkey : Reads readInt (intBytes (tag.name.length + 1)) ((tag.name.length + 1 : Nat) : Int) :=
    reads_length h.name_lt
  have hname : Reads (readBytes (tag.name.length + 1)) (tag.name ++ [0]) (tag.name ++ [0]) := by
    have hbytes := Reads.bytes (tag.name ++ [0])
    rwa [length_append] at hbytes
  have hstring : (tag.name ++ [0]).takeWhile (· ≠ 0) = tag.name := by
    rw [takeWhile_append_of_pos fun c hc => by
      simpa using fun heq : c = 0 => h.name_string (heq ▸ hc)]
    simp
  have htype : Reads (readNat 1) [tag.type.toUInt8] tag.type.toUInt8.toNat := by
    have hbyte := Reads.nat (k := 1) tag.type.toUInt8.toNat_lt
    rwa [leBytes, UInt8.ofNat_toNat] at hbyte
  have hvalue : Reads (readBytes (UInt32.ofNat tag.value.length).toNat) tag.value tag.value := by
    rw [UInt32.toNat_ofNat', Nat.mod_eq_of_lt h.value_lt]
    exact Reads.bytes tag.value
  rw [kvtagBytes, append_assoc, append_assoc]
  refine hkey.bind ?_
  refine hname.bind ?_
  refine (Reads.u32 _).bind ?_
  refine htype.bind ?_
  refine hvalue.map_eq ?_
  rw [hstring, UInt8.ofNat_toNat, Int8.toInt8_toUInt8]

theorem reads_regionHist {hist raw : Option Histogram} (hwf : ∀ h, hist = some h → h.WF)
    (hraw : hist = none → raw = none) :
    Reads (readRegionHist raw) (regionHistBytes hist) hist := by
  cases hist with
  | none =>
    refine (Reads.int (by decide) (by decide)).bind ?_
    rw [hraw rfl]
    exact Reads.pure none
  | some h =>
    have hh := hwf h rfl
    have hrange : Reads (readMany readU64 (2 * h.nbin)) (u64sBytes h.range) h.range := by
      rw [← hh.range_length]
      exact Reads.u64s h.range
    have hbin : Reads (readMany readU64 h.nbin) (u64sBytes h.bin) h.bin := by
      have hbins := Reads.u64s h.bin
      rwa [hh.bin_length] at hbins
    rw [regionHistBytes]
    simp only [append_assoc]
    refine (Reads.int (by decide) (by decide)).bind ?_
    refine (Reads.int hh.dtype_ge hh.dtype_lt).bind ?_
    refine (reads_length hh.nbin_lt).bind ?_
    refine hrange.bind ?_
    refine hbin.bind ?_
    exact (Reads.u64 h.incr).map_eq rfl

theorem reads_regionList (hfits : layout.region.Fits e) (hwf : ∀ h, e.hist = some h → h.WF) :
    Reads (readRegionList layout) (regionListBytes layout e) e.restored := by
  obtain ⟨hfields, hnull⟩ := layout.region.kept hfits
  refine (layout.region.reads hfits).bind ?_
  refine (reads_regionHist hwf hnull).map_eq ?_
  exact congrArg (fun f : StorageEntry =>
    { f with dataSize := getRegionSize f.region, hist := e.hist }) hfields

theorem reads_metadata {m : Metadata} (h : m.Storable layout) :
    Reads (readMetadata layout) (metadataBytes layout m) m.restored := by
  have hkvtags : Reads (readMany readKvtag m.kvtags.length) (m.kvtags.flatMap kvtagBytes)
      (m.kvtags.map id) := Reads.many fun tag htag => reads_kvtag (h.kvtags tag htag)
  have hregions : Reads (readMany (readRegionList layout) m.regions.length)
      (m.regions.flatMap (regionListBytes layout)) (m.regions.map StorageEntry.restored) :=
    Reads.many fun e he => reads_regionList (h.regions e he) (h.hists e he)
  rw [metadataBytes]
  simp only [append_assoc]
  refine (layout.metadata.reads h.fits).bind ?_
  refine (reads_length h.kvtags_lt).bind ?_
  refine hkvtags.bind ?_
  refine (reads_length h.regions_lt).bind ?_
  refine hregions.map_eq ?_
  rw [map_id]
  exact congrArg (fun f : Metadata =>
    { f with
      kvtags := m.kvtags
      regions := sortRegions (m.regions.map StorageEntry.restored)
      allStorageRegionDistributed := 0 }) (layout.metadata.kept h.fits)

theorem reads_hashEntry {entry : HashEntry B} (h : entry.Storable layout) :
    Reads (readHashEntry layout) (hashEntryBytes layout entry)
      (getHashByName entry.firstName, entry.metadata.map Metadata.restored) := by
  rw [hashEntryBytes, h.nObj]
  refine (reads_length h.nObj_lt).bind ?_
  refine (Reads.u32 _).bind ?_
  exact (Reads.many fun m hm => reads_metadata (h.objects m hm)).map_eq rfl

theorem StorageEntry.fields_of_hist (h : e.hist = none) : e.fields = e := by
  cases e
  cases h
  rfl

theorem reads_dataServerRegion {r : SavedDataServerRegion} (h : r.Storable layout) :
    Reads (readDataServerRegion layout) (dataServerRegionBytes layout r) r := by
  have hregion : ∀ e ∈ r.regionStorage,
      Reads layout.region.read (layout.region.image e) (id e) := by
    intro e he
    obtain ⟨hfields, hnull⟩ := layout.region.kept (h.regions e he)
    have hhist := h.hists e he
    have hread := layout.region.reads (h.regions e he)
    rwa [← StorageEntry.fields_of_hist (hnull hhist), hfields,
      StorageEntry.fields_of_hist hhist] at hread
  refine (Reads.u64 _).bind ?_
  refine (reads_length h.regions_lt).bind ?_
  refine (Reads.many hregion).map_eq ?_
  rw [map_id]

theorem reads_checkpoint (h : s.Storable layout) (ops : BloomOps B) (idSeq : UInt64) :
    Reads (restart layout ops idSeq) (checkpoint layout s) (s.restored ops idSeq) := by
  have hcontainers : Reads (readMany (readContainer layout) s.server.containers.entries.length)
      (s.server.containers.entries.flatMap fun pair => containerBytes layout pair.2)
      (s.server.containers.entries.map fun pair =>
        (getHashByName pair.2.contName, pair.2.forget)) :=
    Reads.many fun pair hpair => by
      have hfits := h.containers pair hpair
      refine (Reads.u32 _).bind ((layout.container.reads hfits).map_eq ?_)
      rw [layout.container.kept hfits]
  have hentries : Reads (readMany (readHashEntry layout) s.server.table.entries.length)
      (s.server.table.entries.flatMap fun pair => hashEntryBytes layout pair.2)
      (s.server.table.entries.map fun pair =>
        (getHashByName pair.2.firstName, pair.2.metadata.map Metadata.restored)) :=
    Reads.many fun pair hpair => reads_hashEntry (h.entries pair hpair)
  have hdata : Reads (readMany (readDataServerRegion layout) s.dataServerRegions.length)
      (s.dataServerRegions.flatMap (dataServerRegionBytes layout)) (s.dataServerRegions.map id) :=
    Reads.many fun r hr => reads_dataServerRegion (h.dataServerRegions r hr)
  have htransfer : Reads (readBytes (UInt64.ofNat s.transferCheckpoint.length).toNat)
      s.transferCheckpoint s.transferCheckpoint := by
    rw [UInt64.toNat_ofNat', Nat.mod_eq_of_lt h.transferCheckpoint_lt]
    exact Reads.bytes s.transferCheckpoint
  rw [checkpoint]
  simp only [append_assoc]
  refine (reads_length h.containers_lt).bind ?_
  refine hcontainers.bind ?_
  refine (reads_length h.entries_lt).bind ?_
  refine hentries.bind ?_
  refine (reads_length h.dataServerRegions_lt).bind ?_
  refine hdata.bind ?_
  refine (Reads.u64 _).bind ?_
  refine htransfer.map_eq ?_
  rw [map_id]
  rfl

/-! ## The tables -/

theorem metadata_foldl_insert (ms : List Metadata) (entry : HashEntry B) :
    (ms.foldl (hashTableListInsert ops) entry).metadata = entry.metadata ++ ms := by
  induction ms generalizing entry with
  | nil => exact (append_nil _).symm
  | cons m ms ih =>
    rw [foldl_cons, ih]
    exact append_assoc _ _ _

section

variable (h : s.Storable layout) (ops : BloomOps B) (idSeq : UInt64) (key : UInt32)
include h

theorem lookup_restored :
    (s.restored ops idSeq).server.table.lookup key = (s.server.table.lookup key).map fun entry =>
        (entry.metadata.map Metadata.restored).foldl (hashTableListInsert ops) {} := by
  have hpairs : (s.server.table.entries.map fun pair =>
      (getHashByName pair.2.firstName, pair.2.metadata.map Metadata.restored)) =
        s.server.table.entries.map fun pair => (pair.1, pair.2.metadata.map Metadata.restored) :=
    map_congr_left fun pair hpair => by rw [h.keys pair hpair]
  rw [← lookup_foldl_insert_entries]
  show (restoreTable ops _).lookup key = _
  rw [hpairs, restoreTable, foldl_map, foldl_map]

theorem lookup_restored_container :
    (s.restored ops idSeq).server.containers.lookup key =
      (s.server.containers.lookup key).map Container.forget := by
  have hpairs : (s.server.containers.entries.map fun pair =>
      (getHashByName pair.2.contName, pair.2.forget)) =
        s.server.containers.entries.map fun pair => (pair.1, pair.2.forget) :=
    map_congr_left fun pair hpair => by rw [h.contKeys pair hpair]
  rw [← lookup_foldl_insert_entries]
  show (restoreContainers _).lookup key = _
  rw [hpairs, restoreContainers]

end

/-! ## Objects -/

/-- What a storage region is: where it starts and what it counts, where it is stored, and its
histogram. -/
def StorageEntry.description (e : StorageEntry) : RegionInfo × Nat × Bytes × Option Histogram :=
  (e.region, e.offset, e.storageLocation, e.hist)

/-- An object as it was, but for the mark that its regions have been distributed, which is
cleared. -/
structure ObjectKept (m m' : Metadata) : Prop where
  fields : m'.fields = { m.fields with allStorageRegionDistributed := 0 }
  kvtags : m'.kvtags = m.kvtags
  regions : (m'.regions.map StorageEntry.description).Perm (m.regions.map StorageEntry.description)

theorem objectKept_restored (m : Metadata) : ObjectKept m m.restored where
  fields := rfl
  kvtags := rfl
  regions := by
    have hsort : (sortRegions (m.regions.map StorageEntry.restored)).Perm
        (m.regions.map StorageEntry.restored) := mergeSort_perm _ _
    refine (hsort.map StorageEntry.description).trans ?_
    rw [map_map]
    rfl

/-- The lists of objects under each key, and the regions of the data server. -/
structure ObjectsKept (s s' : CheckpointState B) : Prop where
  objects : ∀ key, Option.Rel
    (fun entry entry' => List.Forall₂ ObjectKept entry.metadata entry'.metadata)
    (s.server.table.lookup key) (s'.server.table.lookup key)
  dataServerRegions : s'.dataServerRegions = s.dataServerRegions

theorem objectsKept_restored (h : s.Storable layout) (ops : BloomOps B) (idSeq : UInt64) :
    ObjectsKept s (s.restored ops idSeq) where
  objects key := by
    rw [lookup_restored h]
    cases s.server.table.lookup key with
    | none => exact .none
    | some entry =>
      refine .some ?_
      rw [metadata_foldl_insert, nil_append, List.forall₂_map_right_iff]
      exact List.forall₂_same.mpr fun m _ => objectKept_restored m
  dataServerRegions := rfl

/-- A server that is restarted from a checkpoint takes exactly the bytes that were written, and
has the same objects, with their tags and storage regions, under the same keys, and the same
regions of the data server. -/
theorem restart_checkpoint_keeps_objects (layout : StructLayout) (ops : BloomOps B) (idSeq : UInt64)
    (s : CheckpointState B) (h : s.Storable layout) :
    ∃ s', restart layout ops idSeq (checkpoint layout s) = some (s', []) ∧ ObjectsKept s s' :=
  ⟨_, (reads_checkpoint h ops idSeq).run_eq, objectsKept_restored h ops idSeq⟩

/-! ## A checkpoint of one object -/

def singleImage {α : Type} {Kept : α → α → Prop} (a b : α) (h : Kept a b) : StructImage α Kept where
  size := 1
  Fits := (· = a)
  image _ := [0]
  ofImage _ := b
  length_image _ := rfl
  kept hfits := hfits ▸ h

def savedRegion : StorageEntry where
  region := (lineTransfer 0 2).info
  dataSize := 2
  storageLocation := [47, 97]
  hist := some { dtype := 13, nbin := 1, incr := 0, range := [0, 0], bin := [2] }
  one_le_ndim := one_le_ndim_lineTransfer 0 2
  ndim_le_four := ndim_lineTransfer_le_four 0 2

/-- An object with a tag and a storage region that has been sent to other servers. -/
def savedObject : Metadata where
  objId := 1000000000
  objName := [97]
  regions := [savedRegion]
  kvtags := [⟨[98], 6, [1]⟩]
  allStorageRegionDistributed := 1

def savedState : CheckpointState (List Bytes) where
  server :=
    { table := AList.singleton (getHashByName [97]) { nObj := 1, metadata := [savedObject] }
      idSeq := 1000000001 }

def savedLayout : StructLayout where
  container := singleImage ⟨0, [], 0, 0, 0, .null, .null⟩ _ rfl
  metadata := singleImage savedObject _ rfl
  region := singleImage savedRegion _ ⟨rfl, fun h => h⟩

theorem savedObject_storable : savedObject.Storable savedLayout where
  fits := rfl
  kvtags_lt := by simp [savedObject]
  kvtags tag htag := by
    obtain rfl := mem_singleton.mp htag
    exact ⟨by simp, by simp, by simp⟩
  regions_lt := by simp [savedObject]
  regions e he := mem_singleton.mp he
  hists e he h hh := by
    obtain rfl := mem_singleton.mp he
    obtain rfl := Option.some.inj hh
    exact ⟨by simp, by simp, by simp, rfl, rfl⟩

theorem savedState_storable : savedState.Storable savedLayout where
  containers_lt := by simp [savedState]
  containers pair hpair := absurd hpair not_mem_nil
  contKeys pair hpair := absurd hpair not_mem_nil
  entries_lt := by simp [savedState]
  entries pair hpair := by
    obtain rfl := mem_singleton.mp hpair
    refine ⟨rfl, cons_ne_nil _ _, by simp, fun m hm => ?_⟩
    obtain rfl := mem_singleton.mp hm
    exact savedObject_storable
  keys pair hpair := by
    obtain rfl := mem_singleton.mp hpair
    rfl
  dataServerRegions_lt := by simp [savedState]
  dataServerRegions r hr := absurd hr not_mem_nil
  transferCheckpoint_lt := by simp [savedState]

theorem restart_checkpoint_keeps_one_object :
    ∃ s', restart savedLayout exactBloom 1000000000 (checkpoint savedLayout savedState) =
      some (s', []) ∧ ObjectsKept savedState s' :=
  restart_checkpoint_keeps_objects savedLayout exactBloom 1000000000 savedState savedState_storable

/-- One field of the object is not what it was: the mark is cleared. -/
theorem restart_checkpoint_clears_mark :
    ∃ s', restart savedLayout exactBloom 1000000000 (checkpoint savedLayout savedState) =
        some (s', []) ∧
      ¬Option.Rel (fun entry entry' =>
          List.Forall₂ (fun m m' => m'.fields = m.fields) entry.metadata entry'.metadata)
        (savedState.server.table.lookup (getHashByName [97]))
        (s'.server.table.lookup (getHashByName [97])) := by
  refine ⟨_, (reads_checkpoint savedState_storable exactBloom 1000000000).run_eq, fun hrel => ?_⟩
  have hentry : savedState.server.table.lookup (getHashByName [97]) =
      some { nObj := 1, metadata := [savedObject] } := AList.lookup_insert ∅
  cases hrel with
  | some hlists =>
    cases hlists with
    | cons hfields _ =>
      have hmark := congrArg Metadata.allStorageRegionDistributed hfields
      exact absurd hmark (by decide)

end Pdc
