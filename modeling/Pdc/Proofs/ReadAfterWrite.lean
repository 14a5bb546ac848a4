import Pdc.Proofs.FileIo
import Pdc.Proofs.StorageMap

/-!
# Reading back what was written, in one dimension

A write appends its data and gets an entry in the storage list, or its entry
is changed when the same region was written before. A read lays the entries it
overlaps over each other in list order. So it returns the last writes just as
far as the list is in the order of the last writes, which is the case when no
region is written again after another that overlaps it has been added behind
it. The look-up of a read fails when more than eight entries overlap it.
-/

namespace Pdc

open List Lib

variable {e : StorageEntry} {o : UInt64} {elt : IoRegion} {s : FileServer}
  {files' : Bytes → Option Bytes}

/-! ## Regions as intervals -/

namespace RegionInfo

def startByte (r : RegionInfo) : Nat := r.offset[0]!.toNat

def byteCount (r : RegionInfo) : Nat := r.size[0]!.toNat

def bytes (r : RegionInfo) : Set Nat := {c | r.startByte ≤ c ∧ c < r.startByte + r.byteCount}

/-- A region of one dimension, inside an object. -/
structure OneDim (r : RegionInfo) : Prop where
  ndim : r.ndim = 1
  fits : r.startByte + r.byteCount < 2 ^ 64

variable {r r' : RegionInfo}

theorem size_ne_zero (hpos : 0 < r.byteCount) : r.size[0]! ≠ 0 := by
  intro h
  rw [byteCount, h] at hpos
  exact Nat.lt_irrefl 0 hpos

theorem OneDim.toNat_end (h : r.OneDim) :
    (r.offset[0]! + r.size[0]!).toNat = r.startByte + r.byteCount := by
  exact Nat.mod_eq_of_lt h.fits

theorem OneDim.toNat_last (h : r.OneDim) (hpos : 0 < r.byteCount) :
    (r.last 0).toNat = r.startByte + r.byteCount - 1 := by
  have hle : (1 : UInt64) ≤ r.offset[0]! + r.size[0]! := by
    rw [UInt64.le_iff_toNat_le, h.toNat_end, UInt64.toNat_one]
    omega
  rw [last, UInt64.toNat_sub_of_le _ _ hle, h.toNat_end, UInt64.toNat_one]

section

variable (h : r.OneDim) (h' : r'.OneDim) (hpos : 0 < r.byteCount) (hpos' : 0 < r'.byteCount)
include h h' hpos hpos'

theorem OneDim.isOverlap_iff :
    isOverlap 1 r r' = true ↔
      r.startByte < r'.startByte + r'.byteCount ∧ r'.startByte < r.startByte + r.byteCount := by
  have hlast := h.toNat_last hpos
  have hlast' := h'.toNat_last hpos'
  simp only [isOverlap, isOverlap1D, range_one, all_cons, all_nil, Bool.and_true,
    Bool.and_eq_true, decide_eq_true_eq, UInt64.le_iff_toNat_le, hlast, hlast']
  show r'.startByte ≤ _ ∧ r.startByte ≤ _ ↔ _
  omega

theorem OneDim.isContiguousRegionOverlap_iff :
    RegionInfo.isContiguousRegionOverlap r r' = true ↔
      r.startByte < r'.startByte + r'.byteCount ∧ r'.startByte < r.startByte + r.byteCount := by
  rw [RegionInfo.isContiguousRegionOverlap, if_neg (by rw [h.ndim, h'.ndim]; omega), h.ndim]
  exact h.isOverlap_iff h' hpos hpos'

end

end RegionInfo

open RegionInfo

variable {files : Bytes → Option Bytes} {req stor r : RegionInfo} {ws : List IoRegion} {buf : Bytes}

/-! ## Reading one storage region -/

/-- Where the overlap starts, and how long it is. -/
def overlapStart (r r' : RegionInfo) : Nat := max r.startByte r'.startByte

def overlapCount (r r' : RegionInfo) : Nat :=
  min (r.startByte + r.byteCount) (r'.startByte + r'.byteCount) - overlapStart r r'

theorem readOverlapRegions_ndim_one (hndim : req.ndim = 1) (hreq : req.size[0]! ≠ 0)
    (hoverlap : isOverlap 1 req stor = true) (file : Bytes) (fileOffset : Nat) (buf : Bytes) :
    readOverlapRegions req stor file fileOffset buf = readRows file
        (min (req.offset[0]! + req.size[0]!) (stor.offset[0]! + stor.size[0]!) -
          max req.offset[0]! stor.offset[0]!).toNat
        [((max req.offset[0]! stor.offset[0]! - req.offset[0]!).toNat,
          fileOffset + (max req.offset[0]! stor.offset[0]! - stor.offset[0]!).toNat)] buf := by
  unfold readOverlapRegions
  simp only [hndim, getOverlapStartCount, hoverlap, hreq]
  simp

theorem readOverlapRegions_oneDim (hreq : req.OneDim) (hstor : stor.OneDim)
    (hpos : 0 < req.byteCount) (hpos' : 0 < stor.byteCount)
    (hoverlap : isOverlap 1 req stor = true) (file : Bytes) (fileOffset : Nat) (buf : Bytes) :
    readOverlapRegions req stor file fileOffset buf = readRows file (overlapCount req stor)
        [(overlapStart req stor - req.startByte,
          fileOffset + (overlapStart req stor - stor.startByte))] buf := by
  have hsub : ∀ {a b : UInt64}, b.toNat ≤ a.toNat → (a - b).toNat = a.toNat - b.toNat :=
    fun hle => UInt64.toNat_sub_of_le _ _ (UInt64.le_iff_toNat_le.mpr hle)
  have hstart : (max req.offset[0]! stor.offset[0]!).toNat = overlapStart req stor :=
    UInt64.toNat_max _ _
  have hend : (min (req.offset[0]! + req.size[0]!) (stor.offset[0]! + stor.size[0]!)).toNat =
      min (req.startByte + req.byteCount) (stor.startByte + stor.byteCount) := by
    rw [UInt64.toNat_min, hreq.toNat_end, hstor.toNat_end]
  have hmeet := (hreq.isOverlap_iff hstor hpos hpos').mp hoverlap
  have hle : overlapStart req stor ≤
      min (req.startByte + req.byteCount) (stor.startByte + stor.byteCount) := by
    rw [overlapStart]
    omega
  rw [readOverlapRegions_ndim_one hreq.ndim (size_ne_zero hpos) hoverlap, hsub (by omega),
    hsub (hstart ▸ Nat.le_max_left _ _), hsub (hstart ▸ Nat.le_max_right _ _), hstart, hend]
  rfl

/-! ## Reading the storage regions one after the other -/

def dataPatch (r : RegionInfo) (data : Bytes) : Patch Nat UInt8 where
  cells := r.bytes
  value := fun c => data.getD (c - r.startByte) 0

/-- What a storage region has in its file. -/
def StorageEntry.data (e : StorageEntry) (files : Bytes → Option Bytes) : Bytes :=
  slice ((files e.storageLocation).getD []) e.offset e.region.byteCount

def StorageEntry.patch (e : StorageEntry) (files : Bytes → Option Bytes) : Patch Nat UInt8 :=
  dataPatch e.region (e.data files)

/-- A one-dimensional storage region whose bytes are in its file. -/
structure StorageEntry.Stored (e : StorageEntry) (files : Bytes → Option Bytes) : Prop where
  oneDim : e.region.OneDim
  pos : 0 < e.region.byteCount
  path : e.storageLocation ≠ []
  content : ∃ content, files e.storageLocation = some content ∧
    e.offset + e.region.byteCount ≤ content.length

def bufferAt (req : RegionInfo) (buf : Bytes) : Nat → Option UInt8 :=
  fun c => buf[c - req.startByte]?

theorem readOverlapRegions_overlay {content : Bytes} (hreq : req.OneDim) (hpos : 0 < req.byteCount)
    (he : e.Stored files) (hcontent : files e.storageLocation = some content)
    (hbuf : buf.length = req.byteCount) (hoverlap : isOverlap 1 req e.region = true) :
    ∃ buf', readOverlapRegions req e.region content e.offset buf = (buf', .succeed) ∧
      buf'.length = req.byteCount ∧
      ∀ c ∈ req.bytes, bufferAt req buf' c = overlay (bufferAt req buf) (e.patch files) c := by
  obtain ⟨content', hcontent', hlen⟩ := he.content
  obtain rfl : content = content' := Option.some.inj (hcontent.symm.trans hcontent')
  have hmeet := (hreq.isOverlap_iff he.oneDim hpos he.pos).mp hoverlap
  have hstart : overlapStart req e.region = max req.startByte e.region.startByte := rfl
  have hcount : overlapCount req e.region = min (req.startByte + req.byteCount)
    (e.region.startByte + e.region.byteCount) - max req.startByte e.region.startByte := rfl
  have hfile : e.offset + (overlapStart req e.region - e.region.startByte) +
      overlapCount req e.region ≤ content.length := by
    omega
  rw [readOverlapRegions_oneDim hreq he.oneDim hpos he.pos hoverlap, readRows_one hfile]
  refine ⟨_, rfl, by rw [length_memcpy, hbuf], fun c hc => ?_⟩
  have hc' : req.startByte ≤ c ∧ c < req.startByte + req.byteCount := hc
  rw [bufferAt]
  by_cases hin : c ∈ e.region.bytes
  · have hin' : e.region.startByte ≤ c ∧ c < e.region.startByte + e.region.byteCount := hin
    have hidx : e.offset + (c - e.region.startByte) < content.length := by omega
    rw [overlay_of_mem (show c ∈ (e.patch files).cells from hin),
      memcpy_getElem?_of_mem (by rw [hbuf, hcount, hstart]; omega) hfile (by rw [hstart]; omega)
        (by rw [hcount, hstart]; omega)]
    have hpos' : e.offset + (overlapStart req e.region - e.region.startByte) +
        (c - req.startByte - (overlapStart req e.region - req.startByte)) =
          e.offset + (c - e.region.startByte) := by
      omega
    rw [hpos']
    show _ = some ((e.data files).getD (c - e.region.startByte) 0)
    rw [StorageEntry.data, hcontent, Option.getD_some, getD_eq_getElem?_getD, slice_getElem?,
      if_pos (by omega), getElem?_eq_getElem hidx, Option.getD_some]
  · have hout : ¬ (e.region.startByte ≤ c ∧ c < e.region.startByte + e.region.byteCount) := hin
    rw [overlay_of_not_mem (show c ∉ (e.patch files).cells from hin), memcpy_getElem?_of_not]
    · rfl
    · rw [hstart]
      omega

theorem readStorage_overlay (hreq : req.OneDim) (hpos : 0 < req.byteCount)
    {entries : List StorageEntry}
    (hentries : ∀ e ∈ entries, e.Stored files ∧ isOverlap 1 req e.region = true)
    (hbuf : buf.length = req.byteCount) :
    ∃ buf', (∀ elt : IoRegion, elt.region = req → ∀ f : OpenFile, f.Tracks →
        ∃ f' : OpenFile, f'.Tracks ∧
          readStorage files entries f (elt.withBuf buf) = (f', elt.withBuf buf', .succeed)) ∧
      buf'.length = req.byteCount ∧
      ∀ c ∈ req.bytes, bufferAt req buf' c =
        (entries.map fun e => e.patch files).foldl overlay (bufferAt req buf) c := by
  induction entries generalizing buf with
  | nil => exact ⟨buf, fun elt _ f hf => ⟨f, hf, rfl⟩, hbuf, fun _ _ => rfl⟩
  | cons e entries ih =>
    rw [forall_mem_cons] at hentries
    obtain ⟨⟨he, hoverlap⟩, hrest⟩ := hentries
    obtain ⟨content, hcontent, -⟩ := he.content
    obtain ⟨buf₁, hread, hlen₁, hbuf₁⟩ :=
      readOverlapRegions_overlay hreq hpos he hcontent hbuf hoverlap
    obtain ⟨buf', hrun, hlen', hbuf'⟩ := ih hrest hlen₁
    refine ⟨buf', fun elt helt f hf => ?_, hlen', fun c hc => ?_⟩
    · have hopen := reopen_fpRead hf he.path hcontent
      obtain ⟨f', hf', hrun'⟩ := hrun elt helt
        { f.reopen files e.storageLocation with prevPath := some e.storageLocation }
        fun p hp => hopen.trans hp
      refine ⟨f', hf', ?_⟩
      have hregion : (elt.withBuf buf).region = req := helt
      have hne : (elt.withBuf buf).region.size[0]! ≠ 0 := hregion ▸ size_ne_zero hpos
      have hread' : readOverlapRegions (elt.withBuf buf).region e.region content e.offset
          (elt.withBuf buf).buf = (buf₁, .succeed) := hregion ▸ hread
      rw [readStorage]
      simp only [hopen, hcontent, Option.getD_some]
      rw [requested_eq hne e.region, hread']
      simp only [hopen] at hrun'
      exact hrun'
    · rw [hbuf' c hc]
      exact foldl_overlay_congr (.inl (hbuf₁ c hc))

/-! ## A read -/

/-- A request for a region of an object that has not been done. -/
structure ReadRequest (o : UInt64) (elt : IoRegion) : Prop where
  access : elt.accessType = .read
  objId : elt.objId = o
  notDone : elt.isIoDone = false
  oneDim : elt.region.OneDim
  dataSize : elt.dataSize = 0 ∨ elt.dataSize = elt.region.size[0]!
  notInBB : strstr elt.cacheLocation pdcCacheBB = false

theorem getRegionSize_oneDim (h : r.ndim = 1) : getRegionSize r = r.size[0]! := by
  obtain ⟨ndim, offset, size, hoffset, hsize⟩ := r
  obtain rfl : ndim = 1 := h
  obtain ⟨n, rfl⟩ := length_eq_one_iff.mp hsize
  simp [getRegionSize]

theorem ReadRequest.shmSize (h : ReadRequest o elt) : elt.shmSize = elt.region.size[0]! := by
  rw [IoRegion.shmSize]
  split
  · exact getRegionSize_oneDim h.oneDim.ndim
  · next hne => exact h.dataSize.resolve_left hne

theorem serverPosixOneFileIo_read (h : ReadRequest o elt) (hpos : 0 < elt.region.byteCount)
    {found : List StorageEntry}
    (hfound : getLocalStorageLocationOfRegion s.lists o elt.region = some found)
    (hentries : ∀ e ∈ found, e.Stored s.files ∧ isOverlap 1 elt.region e.region = true) :
    ∃ s' elt', serverPosixOneFileIo s [elt] = some (s', [elt'], .succeed) ∧
      elt'.isDataReady = 1 ∧ elt'.buf.length = elt.region.byteCount ∧
      ∀ c ∈ elt.region.bytes, bufferAt elt.region elt'.buf c =
        (found.map fun e => e.patch s.files).foldl overlay
          (bufferAt elt.region (replicate elt.region.byteCount 0)) c := by
  have hfindable : ∀ e ∈ [elt], Findable s.lists o e := by
    rw [forall_mem_singleton]
    exact ⟨h.access, h.objId, by rw [hfound]; rfl⟩
  have hlookup := lookupPass_reads hfindable (by simp [serverMaxProcPerNode])
  have hfirst : lookUp s.lists elt = elt.withOverlaps found := by
    rw [lookUp, h.objId, hfound]
    rfl
  rw [takeWhile_cons_of_neg (by rw [h.notDone]; exact Bool.false_ne_true),
    dropWhile_cons_of_neg (by rw [h.notDone]; exact Bool.false_ne_true),
    map_singleton, nil_append, hfirst] at hlookup
  have hsize : (elt.withOverlaps found).shmSize = elt.region.size[0]! := h.shmSize
  have hsize0 : (elt.withOverlaps found).shmSize ≠ 0 := by
    intro hzero
    rw [byteCount, ← hsize, hzero] at hpos
    exact Nat.lt_irrefl 0 hpos
  have hzeros : (replicate elt.region.byteCount (0 : UInt8)).length = elt.region.byteCount :=
    length_replicate
  obtain ⟨buf', hstorage, hlen, hbuf⟩ := readStorage_overlay h.oneDim hpos hentries hzeros
  have hinto : ReadsInto s.files (elt.withOverlaps found) buf' := by
    intro addr f hf
    have hmapped : ((elt.withOverlaps found).mapped addr).withBuf
        (replicate elt.region.byteCount 0) = (elt.withOverlaps found).mapped addr := by
      rw [IoRegion.mapped, hsize]
      rfl
    rw [← hmapped]
    exact hstorage ((elt.withOverlaps found).mapped addr) rfl f hf
  have hnotDone : ((elt.withOverlaps found).isIoDone && !(elt.withOverlaps found).isShmClosed) =
      false := by
    rw [show (elt.withOverlaps found).isIoDone = false from h.notDone]
    rfl
  have hstart : OpenFile.Tracks {} := OpenFile.tracks_closed
  have hstep := readRequest_eq { server := s } (.inl hnotDone) hsize0 h.notInBB hinto hstart
  obtain ⟨st', hreq, -, -, -, hret⟩ := hstep
  refine ⟨st'.server, (((elt.withOverlaps found).mapped s.nextShm).withBuf buf').ready, ?_, rfl,
    hlen,
    hbuf⟩
  have haccess : (elt.withOverlaps found).accessType = .read := h.access
  rw [serverPosixOneFileIo, if_neg (cons_ne_nil _ _), hlookup]
  simp only [ioPass, haccess, hreq, Pass.cons, hret]

/-! ## Writes -/

/-- A request to write a region of an object that has not been done. -/
structure WriteRequest (o : UInt64) (elt : IoRegion) : Prop where
  access : elt.accessType = .write
  objId : elt.objId = o
  notDone : elt.isIoDone = false
  oneDim : elt.region.OneDim
  dataSize : elt.dataSize = elt.region.size[0]!
  buf : elt.buf.length = elt.region.byteCount
  path : elt.storageLocation ≠ []

def IoRegion.patch (elt : IoRegion) : Patch Nat UInt8 := dataPatch elt.region elt.buf

/-- The regions of the storage list after a region has been written. -/
def addWritten (known : List RegionInfo) (r : RegionInfo) : List RegionInfo :=
  if r ∈ known then known else known ++ [r]

/-- A region is not empty, and is written for the first time or does not overlap the
regions that were written for the first time after it. -/
def InOrder (known : List RegionInfo) (r : RegionInfo) : Prop :=
  0 < r.byteCount ∧ ∀ before after, known = before ++ r :: after →
    ∀ r' ∈ after, ∀ c ∈ r'.bytes, c ∉ r.bytes

theorem inOrder_of_notMem {known : List RegionInfo} (hpos : 0 < r.byteCount)
    (h : r ∉ known) : InOrder known r := by
  refine ⟨hpos, fun before after heq => absurd ?_ h⟩
  rw [heq]
  simp

/-- The storage list of an object has the regions that were written and, read in its
order, the last writes. -/
structure StoresWrites (o : UInt64) (ws : List IoRegion) (s : FileServer)
    (list : List StorageEntry) : Prop where
  entries : s.lists o = some list
  stored : ∀ e ∈ list, e.Stored s.files
  regions : list.map StorageEntry.region = run addWritten [] (ws.map IoRegion.region)
  array : lastWrite (list.map fun e => e.patch s.files) = lastWrite (ws.map IoRegion.patch)

theorem data_of_grows (h : Grows files files') (he : e.Stored files) :
    e.data files' = e.data files := by
  obtain ⟨content, hcontent, hlen⟩ := he.content
  obtain ⟨more, hmore⟩ := h _ content hcontent
  rw [StorageEntry.data, StorageEntry.data, hmore, hcontent, Option.getD_some, Option.getD_some,
    slice_append_left hlen]

theorem stored_of_grows (h : Grows files files') (he : e.Stored files) : e.Stored files' := by
  obtain ⟨content, hcontent, hlen⟩ := he.content
  obtain ⟨more, hmore⟩ := h _ content hcontent
  refine ⟨he.oneDim, he.pos, he.path, content ++ more, hmore, ?_⟩
  rw [length_append]
  omega

theorem written_entry (h : WriteRequest o elt) (hpos : 0 < elt.region.byteCount)
    (hregion : e.region = elt.region)
    (hplace : e.placement = (elt.placed s.files).entry.placement) :
    e.Stored (writeOut s elt).files ∧ e.data (writeOut s elt).files = elt.buf := by
  have htake : elt.buf.take elt.dataSize.toNat = elt.buf := by
    rw [h.dataSize]
    exact take_of_length_le (Nat.le_of_eq h.buf)
  have hloc : e.storageLocation = elt.storageLocation := congrArg Prod.fst hplace
  have hoff : e.offset = ((s.files elt.storageLocation).getD []).length := congrArg Prod.snd hplace
  have hcontent : (writeOut s elt).files e.storageLocation =
      some ((s.files elt.storageLocation).getD [] ++ elt.buf) := by
    rw [hloc, writeOut, htake]
    exact Function.update_self ..
  refine ⟨⟨hregion ▸ h.oneDim, hregion ▸ hpos, hloc ▸ h.path, _, hcontent, ?_⟩, ?_⟩
  · rw [hoff, hregion, length_append, h.buf]
  · rw [StorageEntry.data, hcontent, hoff, hregion, ← h.buf]
    exact slice_append_right _ _

theorem StoresWrites.step {list : List StorageEntry} (h : StoresWrites o ws s list)
    (helt : WriteRequest o elt) (horder : InOrder (list.map StorageEntry.region) elt.region) :
    ∃ list', StoresWrites o (ws ++ [elt]) (writeOut s elt) list' := by
  have hgrows : Grows s.files (writeOut s elt).files := grows_appendFile _ _ _
  have hgrown : ∀ e ∈ list, e.Stored (writeOut s elt).files :=
    fun e he => stored_of_grows hgrows (h.stored e he)
  have hlists : (writeOut s elt).lists o =
      some (putStorageLoc .storage (elt.placed s.files).entry list) := by
    rw [← helt.objId, writeOut_lists_self, helt.objId, h.entries]
    rfl
  have hold : lastWrite (list.map fun e => e.patch (writeOut s elt).files) =
      lastWrite (ws.map IoRegion.patch) := by
    rw [← h.array]
    congr 1
    refine map_congr_left fun e he => ?_
    rw [StorageEntry.patch, StorageEntry.patch, data_of_grows hgrows (h.stored e he)]
  have hregions : run addWritten [] ((ws ++ [elt]).map IoRegion.region) =
      addWritten (list.map StorageEntry.region) elt.region := by
    rw [map_append, run_append, h.regions]
    rfl
  have hws : lastWrite ((ws ++ [elt]).map IoRegion.patch) =
      overlay (lastWrite (ws.map IoRegion.patch)) elt.patch := by
    rw [map_append, map_singleton, lastWrite_append_singleton]
  have hnew : ∀ e : StorageEntry, e.region = elt.region →
      e.placement = (elt.placed s.files).entry.placement →
      e.Stored (writeOut s elt).files ∧ e.patch (writeOut s elt).files = elt.patch := by
    intro e hregion hplace
    obtain ⟨hstored, hdata⟩ := written_entry helt horder.1 hregion hplace
    rw [StorageEntry.patch, hdata, hregion]
    exact ⟨hstored, rfl⟩
  unfold putStorageLoc at hlists
  split at hlists
  · next list' hfound =>
    obtain ⟨before, e, after, rfl, -, he, rfl⟩ := modifyFirst_eq_some hfound
    have hregion : e.region = elt.region := isSameRegionList_iff.mp he
    obtain ⟨hstored, hdata⟩ := hnew (.relocate .storage (elt.placed s.files).entry e)
      ((relocate_region ..).trans hregion) (relocate_storage_placement ..)
    have hknown : elt.region ∈ (before ++ e :: after).map StorageEntry.region :=
      mem_map.mpr ⟨e, by simp, hregion⟩
    have hkept := hgrown
    rw [forall_mem_append, forall_mem_cons] at hkept
    refine ⟨_, hlists, ?_, ?_, ?_⟩
    · rw [forall_mem_append, forall_mem_cons]
      exact ⟨hkept.1, hstored, hkept.2.2⟩
    · rw [hregions, addWritten, if_pos hknown]
      simp only [map_append, map_cons, relocate_region]
    · -- The entries behind it do not overlap it.
      have hcells : ((StorageEntry.relocate .storage (elt.placed s.files).entry e).patch
          (writeOut s elt).files).cells = (e.patch (writeOut s elt).files).cells :=
        congrArg RegionInfo.bytes (relocate_region ..)
      have hafter : ∀ q ∈ after.map fun e => e.patch (writeOut s elt).files,
          ∀ c ∈ q.cells, c ∉ (e.patch (writeOut s elt).files).cells := by
        rw [forall_mem_map]
        intro e' he'
        show ∀ c ∈ e'.region.bytes, c ∉ e.region.bytes
        rw [hregion]
        refine horder.2 (before.map StorageEntry.region) (after.map StorageEntry.region) ?_ _
          (mem_map_of_mem he')
        rw [map_append, map_cons, hregion]
      rw [hws, ← hold, ← hdata, map_append, map_append]
      exact lastWrite_replace hcells hafter
  · next hnone =>
    have hp : ∀ e : StorageEntry, isSameRegionList e.region (elt.placed s.files).entry.region =
        true ↔ e.region = elt.region := fun _ => isSameRegionList_iff
    have hfresh := (modifyFirst_eq_none_iff_notMem hp).mp hnone
    obtain ⟨hstored, hdata⟩ := hnew (elt.placed s.files).entry.withSize
      (withSize_region _) (withSize_placement _)
    refine ⟨_, hlists, ?_, ?_, ?_⟩
    · rw [forall_mem_append, forall_mem_singleton]
      exact ⟨hgrown, hstored⟩
    · rw [hregions, addWritten, if_neg hfresh, map_append, map_singleton, withSize_region]
      rfl
    · rw [hws, map_append, map_singleton, lastWrite_append_singleton, hold, hdata]

theorem afterIo_writes (hobj : (s.lists o).isSome) {regions : List IoRegion} (hne : regions ≠ [])
    (h : ∀ elt ∈ regions, WriteRequest o elt) : s.afterIo regions = run writeOut s regions := by
  have hwritable : ∀ elt ∈ regions, Writable s.lists elt := fun elt he =>
    ⟨(h elt he).access, fun _ => (h elt he).path, fun _ => (h elt he).objId ▸ hobj⟩
  have hall : ∀ (regions : List IoRegion) (s : FileServer),
      (∀ elt ∈ regions, elt.isIoDone = false) →
        (writeAll s regions).1 = run writeOut s regions := by
    intro regions
    induction regions with
    | nil => intro s _; rfl
    | cons elt rest ih =>
      intro s h
      rw [forall_mem_cons] at h
      rw [writeAll, h.1]
      exact ih (writeOut s elt) h.2
  rw [FileServer.afterIo, serverPosixOneFileIo_writes hne hwritable]
  exact hall regions s fun elt he => (h elt he).notDone

theorem afterIo_lists (hobj : (s.lists o).isSome) {writes : List (List IoRegion)}
    (hne : ∀ l ∈ writes, l ≠ []) (h : ∀ l ∈ writes, ∀ elt ∈ l, WriteRequest o elt) :
    run FileServer.afterIo s writes = run writeOut s writes.flatten := by
  have hkeep : ∀ (regions : List IoRegion) (s : FileServer),
      ((run writeOut s regions).lists o).isSome = (s.lists o).isSome := by
    intro regions
    induction regions with
    | nil => intro s; rfl
    | cons elt rest ih => intro s; rw [run_cons, ih, isSome_writeOut]
  induction writes generalizing s with
  | nil => rfl
  | cons l writes ih =>
    rw [forall_mem_cons] at hne h
    rw [run_cons, flatten_cons, run_append, afterIo_writes hobj hne.1 h.1]
    exact ih (by rw [hkeep]; exact hobj) hne.2 h.2

theorem storesWrites_run (hs : s.lists o = some []) (hws : ∀ elt ∈ ws, WriteRequest o elt)
    (horder : Along addWritten InOrder [] (ws.map IoRegion.region)) :
    ∃ list, StoresWrites o ws (run writeOut s ws) list := by
  induction ws using reverseRecOn with
  | nil => exact ⟨[], hs, fun e he => absurd he not_mem_nil, rfl, rfl⟩
  | append_singleton ws elt ih =>
    rw [forall_mem_append, forall_mem_singleton] at hws
    rw [map_append, Along.append] at horder
    obtain ⟨list, hlist⟩ := ih hws.1 horder.1
    rw [run_append]
    refine hlist.step hws.2 ?_
    rw [hlist.regions]
    exact horder.2.1

/-! ## Reading back -/

/-- A read succeeds, and each byte it returns is that of the last write of it. -/
def ReturnsLastWrites (s : FileServer) (read : IoRegion) (ws : List IoRegion) : Prop :=
  ∃ s' elt, serverPosixOneFileIo s [read] = some (s', [elt], .succeed) ∧ elt.isDataReady = 1 ∧
    elt.buf.length = read.region.byteCount ∧ ∀ k < read.region.byteCount,
      elt.buf[k]? = lastWrite (ws.map IoRegion.patch) (read.region.startByte + k)

/-- A read after writes, each of which is in order, of bytes that have all been written,
in at most eight regions. -/
theorem returnsLastWrites_of_inOrder (o : UInt64) (s : FileServer) (hs : s.lists o = some [])
    (writes : List (List IoRegion)) (hne : ∀ l ∈ writes, l ≠ [])
    (hwrites : ∀ l ∈ writes, ∀ elt ∈ l, WriteRequest o elt)
    (horder : Along addWritten InOrder [] (writes.flatten.map IoRegion.region))
    (read : IoRegion) (hread : ReadRequest o read) (hpos : 0 < read.region.byteCount)
    (hwritten : ∀ c ∈ read.region.bytes, ∃ w ∈ writes.flatten, c ∈ w.region.bytes)
    (hfew : ((run addWritten [] (writes.flatten.map IoRegion.region)).filter
      fun r => RegionInfo.isContiguousRegionOverlap r read.region).length ≤ maxOverlapRegionNum) :
    ReturnsLastWrites (run FileServer.afterIo s writes) read writes.flatten := by
  have hws : ∀ elt ∈ writes.flatten, WriteRequest o elt := forall_mem_flatten.mpr hwrites
  rw [afterIo_lists (by rw [hs]; rfl) hne hwrites]
  obtain ⟨list, hlist⟩ := storesWrites_run hs hws horder
  generalize run writeOut s writes.flatten = s at hlist
  have hoverlap : ∀ e ∈ list, RegionInfo.isContiguousRegionOverlap e.region read.region = true ↔
      e.region.startByte < read.region.startByte + read.region.byteCount ∧
        read.region.startByte < e.region.startByte + e.region.byteCount := fun e he =>
    (hlist.stored e he).oneDim.isContiguousRegionOverlap_iff hread.oneDim (hlist.stored e he).pos
      hpos
  have hcovers : ∀ c ∈ read.region.bytes, ∀ e ∈ list, c ∈ (e.patch s.files).cells →
      RegionInfo.isContiguousRegionOverlap e.region read.region = true := by
    intro c hc e he hce
    have hc' : read.region.startByte ≤ c ∧ c < read.region.startByte + read.region.byteCount := hc
    have hce' : e.region.startByte ≤ c ∧ c < e.region.startByte + e.region.byteCount := hce
    rw [hoverlap e he]
    omega
  have hsome : ∀ c ∈ read.region.bytes, ∃ p ∈ list.map (fun e => e.patch s.files), c ∈ p.cells := by
    intro c hc
    obtain ⟨w, hw, hcw⟩ := hwritten c hc
    rw [← lastWrite_isSome_iff, hlist.array, lastWrite_isSome_iff]
    exact ⟨w.patch, mem_map_of_mem hw, hcw⟩
  obtain ⟨found, hfound⟩ : ∃ found, found = list.filter fun e =>
      RegionInfo.isContiguousRegionOverlap e.region read.region := ⟨_, rfl⟩
  have hlookup : getLocalStorageLocationOfRegion s.lists o read.region = some found := by
    have hlength : found.length ≤ maxOverlapRegionNum := by
      have hmap := congrArg List.length (filter_map (f := StorageEntry.region) (l := list)
        (p := fun r => RegionInfo.isContiguousRegionOverlap r read.region))
      rw [hlist.regions, length_map] at hmap
      rw [hfound]
      exact hmap ▸ hfew
    have hfirst : found ≠ [] := by
      obtain ⟨p, hp, hc⟩ := hsome read.region.startByte ⟨Nat.le_refl _, by omega⟩
      obtain ⟨e, he, rfl⟩ := mem_map.mp hp
      have hmem : e ∈ found := by
        rw [hfound]
        exact mem_filter.mpr ⟨he, hcovers _ ⟨Nat.le_refl _, by omega⟩ e he hc⟩
      exact ne_nil_of_mem hmem
    rw [getLocalStorageLocationOfRegion, hlist.entries]
    simp only [← hfound]
    rw [if_neg (not_or.mpr ⟨Nat.not_lt.mpr hlength, hfirst⟩)]
  have hentries : ∀ e ∈ found, e.Stored s.files ∧ isOverlap 1 read.region e.region = true := by
    intro e he
    rw [hfound, mem_filter] at he
    refine ⟨hlist.stored e he.1, ?_⟩
    have hmeet := (hoverlap e he.1).mp he.2
    rw [hread.oneDim.isOverlap_iff (hlist.stored e he.1).oneDim hpos (hlist.stored e he.1).pos]
    exact ⟨hmeet.2, hmeet.1⟩
  obtain ⟨s', elt, hrun, hready, hlen, hbuf⟩ :=
    serverPosixOneFileIo_read hread hpos hlookup hentries
  refine ⟨s', elt, hrun, hready, hlen, fun k hk => ?_⟩
  have hc : read.region.startByte + k ∈ read.region.bytes := ⟨by omega, by omega⟩
  have hbyte := hbuf _ hc
  rw [bufferAt, Nat.add_sub_cancel_left] at hbyte
  rw [hbyte, hfound, foldl_overlay_filter (hcovers _ hc), ← hlist.array]
  exact foldl_overlay_congr (.inr (hsome _ hc))

/-! ## Two regions that overlap -/

/-- Bytes of a one-dimensional object, in a request. -/
def bytesOf (access : Access) (start : UInt64) (data : Bytes) : IoRegion where
  objId := 7
  region := (lineTransfer start (UInt64.ofNat data.length)).info
  accessType := access
  dataSize := UInt64.ofNat data.length
  buf := data
  storageLocation := [102]
  one_le_ndim := one_le_ndim_lineTransfer start (UInt64.ofNat data.length)
  ndim_le_four := ndim_lineTransfer_le_four start (UInt64.ofNat data.length)

/-- The second write covers a part of the first. -/
theorem returnsLastWrites_two :
    ReturnsLastWrites (run FileServer.afterIo { lists := emptyObject }
        [[bytesOf .write 0 [1, 2]], [bytesOf .write 1 [3, 4]]])
      (bytesOf .read 0 [0, 0, 0]) [bytesOf .write 0 [1, 2], bytesOf .write 1 [3, 4]] := by
  have hwrites : ∀ l ∈ [[bytesOf .write 0 [1, 2]], [bytesOf .write 1 [3, 4]]],
      ∀ elt ∈ l, WriteRequest 7 elt := by
    simp only [forall_mem_cons, not_mem_nil, false_implies, implies_true, and_true]
    exact ⟨⟨rfl, rfl, rfl, ⟨rfl, by decide⟩, rfl, rfl, by decide⟩,
      ⟨rfl, rfl, rfl, ⟨rfl, by decide⟩, rfl, rfl, by decide⟩⟩
  refine returnsLastWrites_of_inOrder 7 { lists := emptyObject } rfl
    [[bytesOf .write 0 [1, 2]], [bytesOf .write 1 [3, 4]]] (by simp) hwrites
    ⟨inOrder_of_notMem (by decide) (by decide), inOrder_of_notMem (by decide) (by decide), trivial⟩
    (bytesOf .read 0 [0, 0, 0]) ⟨rfl, rfl, rfl, ⟨rfl, by decide⟩, .inr rfl, by decide⟩ (by decide)
    (fun c hc => ?_) (by decide)
  have hc' : 0 ≤ c ∧ c < 0 + 3 := hc
  by_cases hfirst : c < 2
  · exact ⟨bytesOf .write 0 [1, 2], by simp, show 0 ≤ c ∧ c < 0 + 2 by omega⟩
  · exact ⟨bytesOf .write 1 [3, 4], by simp, show 1 ≤ c ∧ c < 1 + 2 by omega⟩

/-- The first region is written again. Its byte 1 is read from the entry of the second,
which is behind it in the list. -/
theorem not_returnsLastWrites_rewrite :
    ¬ ReturnsLastWrites (run FileServer.afterIo { lists := emptyObject }
        [[bytesOf .write 0 [1, 2]], [bytesOf .write 1 [3, 4]], [bytesOf .write 0 [5, 6]]])
      (bytesOf .read 1 [0])
      [bytesOf .write 0 [1, 2], bytesOf .write 1 [3, 4], bytesOf .write 0 [5, 6]] := by
  rintro ⟨s', elt, hrun, -, -, hbytes⟩
  have hbuf : elt.buf = [3] := by
    have hmap := congrArg (Option.map fun r => r.2.1.map IoRegion.buf) hrun
    exact (List.cons.inj (Option.some.inj hmap)).1.symm
  have hbyte := hbytes 0 (by decide)
  have hlast : lastWrite ([bytesOf .write 0 [1, 2], bytesOf .write 1 [3, 4],
      bytesOf .write 0 [5, 6]].map IoRegion.patch) 1 = some 6 :=
    lastWrite_last [(bytesOf .write 0 [1, 2]).patch, (bytesOf .write 1 [3, 4]).patch]
      (show (0 ≤ 1 ∧ 1 < 0 + 2) by decide)
  rw [hbuf] at hbyte
  exact absurd (hbyte.trans hlast) (by decide)

end Pdc
