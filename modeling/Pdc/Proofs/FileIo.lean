import Pdc.Server.FileIo
import Pdc.Lib.Copies

/-!
# What a list of requests does

The writes of a list are made one after the other: each appends to a file and
changes the storage list of its object (`writeOut`). Files only grow, so that
what a storage region names stays where it is (`FileHolds`).

For reads in one dimension the overlap of two regions is the intersection of two
intervals, as long as the regions are not empty and end below `2 ^ 64`.
-/

namespace Pdc

open List Lib Function Bool

variable {elt : IoRegion} {regions : List IoRegion} (s : FileServer)

/-! ## Files that grow -/

def FileHolds (files : Bytes → Option Bytes) (path : Bytes) (offset : Nat) (data : Bytes) : Prop :=
  path ≠ [] ∧ ∃ content, files path = some content ∧ offset + data.length ≤ content.length ∧
    slice content offset data.length = data

instance (files : Bytes → Option Bytes) (path : Bytes) (offset : Nat) (data : Bytes) :
    Decidable (FileHolds files path offset data) :=
  match h : files path with
  | none => isFalse fun ⟨_, _, hcontent, _⟩ => absurd (h.symm.trans hcontent) (by simp)
  | some content =>
    decidable_of_iff (path ≠ [] ∧ offset + data.length ≤ content.length ∧
        slice content offset data.length = data)
      (by simp only [FileHolds, h, Option.some.injEq, exists_eq_left'])

/-- Each file is continued. -/
def Grows (files files' : Bytes → Option Bytes) : Prop :=
  ∀ path content, files path = some content → ∃ more, files' path = some (content ++ more)

variable {files files' : Bytes → Option Bytes} {path : Bytes} {offset : Nat} {data : Bytes}
  {st : IoLoop}

theorem Grows.refl (files : Bytes → Option Bytes) : Grows files files :=
  fun _ content h => ⟨[], by rw [append_nil]; exact h⟩

theorem FileHolds.mono (h : FileHolds files path offset data) (hgrows : Grows files files') :
    FileHolds files' path offset data := by
  obtain ⟨hpath, content, hcontent, hle, hslice⟩ := h
  obtain ⟨more, hmore⟩ := hgrows path content hcontent
  refine ⟨hpath, content ++ more, hmore, ?_, ?_⟩
  · rw [length_append]
    omega
  · rw [slice_append_left hle]
    exact hslice

theorem FileHolds.unique {data' : Bytes} (h : FileHolds files path offset data)
    (h' : FileHolds files path offset data') (hlen : data.length = data'.length) :
    data = data' := by
  obtain ⟨-, content, hcontent, -, hslice⟩ := h
  obtain ⟨-, content', hcontent', -, hslice'⟩ := h'
  obtain rfl : content = content' := Option.some.inj (hcontent.symm.trans hcontent')
  rw [← hslice, ← hslice', hlen]

def appendFile (files : Bytes → Option Bytes) (path data : Bytes) : Bytes → Option Bytes :=
  Function.update files path (some ((files path).getD [] ++ data))

theorem grows_appendFile (files : Bytes → Option Bytes) (path data : Bytes) :
    Grows files (appendFile files path data) := by
  intro path' content h
  by_cases hpath : path' = path
  · subst hpath
    exact ⟨data, by rw [appendFile, update_self, h]; rfl⟩
  · exact ⟨[], by rw [appendFile, update_of_ne hpath, append_nil]; exact h⟩

theorem fileHolds_appendFile (hpath : path ≠ []) :
    FileHolds (appendFile files path data) path ((files path).getD []).length data := by
  refine ⟨hpath, (files path).getD [] ++ data, ?_, ?_, slice_append_right _ _⟩
  · rw [appendFile, update_self]
  · rw [length_append]

/-! ## Writes -/

def IoRegion.placed (elt : IoRegion) (files : Bytes → Option Bytes) : IoRegion :=
  { elt with offset := ((files elt.storageLocation).getD []).length }

def writeOut (s : FileServer) (elt : IoRegion) : FileServer :=
  { s with
    files := appendFile s.files elt.storageLocation (elt.buf.take elt.dataSize.toNat)
    lists := Function.update s.lists elt.objId
      ((s.lists elt.objId).map (putStorageLoc .storage (elt.placed s.files).entry)) }

theorem writeRequest_done (h : elt.isIoDone = true) :
    writeRequest st elt = .next st elt := by
  rw [writeRequest, if_pos h]

theorem writeRequest_eq (hdone : elt.isIoDone = false)
    (hpath : elt.storageLocation ≠ []) (hobj : (st.server.lists elt.objId).isSome) :
    writeRequest st elt = .next { st with server := writeOut st.server elt, ret := .succeed }
        (elt.placed st.server.files).ready := by
  obtain ⟨list, hlist⟩ := Option.isSome_iff_exists.mp hobj
  rw [writeRequest, if_neg (by rw [hdone]; exact false_ne_true), if_neg hpath]
  simp only [updateLocalRegionStorageLoc, hlist]
  rw [writeOut, hlist]
  rfl

/-- A write that can be made, on one of the objects the server knows. -/
structure Writable (lists : StorageLists) (elt : IoRegion) : Prop where
  access : elt.accessType = .write
  path : elt.isIoDone = false → elt.storageLocation ≠ []
  obj : elt.isIoDone = false → (lists elt.objId).isSome

theorem writeOut_lists_self (elt : IoRegion) :
    (writeOut s elt).lists elt.objId =
      (s.lists elt.objId).map (putStorageLoc .storage (elt.placed s.files).entry) :=
  update_self ..

theorem writeOut_lists_of_ne (elt : IoRegion) {o : UInt64} (h : o ≠ elt.objId) :
    (writeOut s elt).lists o = s.lists o := update_of_ne h _ _

theorem isSome_writeOut (elt : IoRegion) (o : UInt64) :
    ((writeOut s elt).lists o).isSome = (s.lists o).isSome := by
  by_cases ho : o = elt.objId
  · rw [ho, writeOut_lists_self, Option.isSome_map]
  · rw [writeOut_lists_of_ne s elt ho]

def writeAll (s : FileServer) : List IoRegion → FileServer × List IoRegion
  | [] => (s, [])
  | elt :: rest =>
    if elt.isIoDone then
      let r := writeAll s rest
      (r.1, elt :: r.2)
    else
      let r := writeAll (writeOut s elt) rest
      (r.1, (elt.placed s.files).ready :: r.2)

theorem ioPass_writes (st : IoLoop) (hret : st.ret = .succeed)
    (h : ∀ elt ∈ regions, Writable st.server.lists elt) :
    ioPass regions st = .done (writeAll st.server regions).2 { st with server :=
        (writeAll st.server regions).1 } := by
  induction regions generalizing st with
  | nil => rfl
  | cons elt rest ih =>
    rw [forall_mem_cons] at h
    obtain ⟨helt, hrest⟩ := h
    rw [ioPass, helt.access, writeAll]
    cases hdone : elt.isIoDone with
    | true =>
      simp only [writeRequest_done hdone, if_true]
      rw [ih st hret hrest]
      rfl
    | false =>
      simp only [writeRequest_eq hdone (helt.path hdone) (helt.obj hdone),
        false_eq_true, if_false]
      rw [ih { st with server := writeOut st.server elt, ret := .succeed } rfl
        fun e he => ⟨(hrest e he).access, (hrest e he).path, fun hd => ?_⟩]
      · simp only [Pass.cons, hret]
      · show ((writeOut st.server elt).lists e.objId).isSome = true
        rw [isSome_writeOut]
        exact (hrest e he).obj hd

theorem lookupPass_writes (lists : StorageLists) (h : ∀ elt ∈ regions, elt.accessType = .write) :
    lookupPass lists regions.length regions = .done regions () := by
  induction regions with
  | nil => rfl
  | cons elt rest ih =>
    rw [forall_mem_cons] at h
    rw [length_cons, lookupPass, if_neg, ih h.2]
    · rfl
    · rw [h.1]
      exact fun hread => nomatch hread.1

theorem serverPosixOneFileIo_writes {s : FileServer} (hne : regions ≠ [])
    (h : ∀ elt ∈ regions, Writable s.lists elt) :
    serverPosixOneFileIo s regions =
      some ((writeAll s regions).1, (writeAll s regions).2, .succeed) := by
  rw [serverPosixOneFileIo, if_neg hne, lookupPass_writes _ fun elt he => (h elt he).access]
  simp only [ioPass_writes { server := s } rfl h]

/-! ## Look-ups -/

def lookUp (lists : StorageLists) (elt : IoRegion) : IoRegion :=
  elt.withOverlaps ((getLocalStorageLocationOfRegion lists elt.objId elt.region).getD [])

/-- A read of an object for which something is found. -/
structure Findable (lists : StorageLists) (o : UInt64) (elt : IoRegion) : Prop where
  access : elt.accessType = .read
  objId : elt.objId = o
  found : (getLocalStorageLocationOfRegion lists o elt.region).isSome

variable {lists : StorageLists} {o : UInt64}

theorem Findable.lookUp (h : Findable lists o elt) :
    Findable lists o (lookUp lists elt) := ⟨h.access, h.objId, h.found⟩

section

variable (h : ∀ elt ∈ regions, Findable lists o elt)
include h

theorem placeOverlaps_eq : placeOverlaps lists regions = some (regions.map (lookUp lists)) := by
  induction regions with
  | nil => rfl
  | cons elt rest ih =>
    rw [forall_mem_cons] at h
    obtain ⟨found, hfound⟩ := Option.isSome_iff_exists.mp h.1.found
    rw [placeOverlaps, if_pos h.1.access, ih h.2, map_cons, lookUp, h.1.objId, hfound]
    rfl

section

variable (hlen : regions.length ≤ serverMaxProcPerNode)
include hlen

theorem getStorageLocationOfRegionMpi_eq :
    getStorageLocationOfRegionMpi lists o regions = .found (regions.map (lookUp lists)) := by
  have hreads : (regions.filter fun elt => elt.accessType = .read) = regions :=
    filter_eq_self.mpr fun elt he => decide_eq_true (h elt he).access
  have hobj : (regions.any fun elt => elt.objId ≠ o) = false :=
    any_eq_false.mpr fun elt he hne => of_decide_eq_true hne (h elt he).objId
  rw [getStorageLocationOfRegionMpi]
  simp only [hreads, hobj, false_eq_true, if_false, if_neg (Nat.not_lt.mpr hlen),
    placeOverlaps_eq h]

theorem lookupPass_lookUp :
    lookupPass lists regions.length (regions.map (lookUp lists)) =
      .done (regions.map (lookUp lists)) () := by
  induction regions with
  | nil => rfl
  | cons elt rest ih =>
    have hall := h
    rw [forall_mem_cons] at h
    rw [length_cons] at hlen
    have hagain : ((elt :: rest).map (lookUp lists)).map (lookUp lists) =
        (elt :: rest).map (lookUp lists) := by
      rw [map_map]
      rfl
    have hmapped : ∀ e ∈ (elt :: rest).map (lookUp lists), Findable lists o e :=
      forall_mem_map.mpr fun e he => (hall e he).lookUp
    have hmpi := getStorageLocationOfRegionMpi_eq hmapped
      (by rw [length_map, length_cons]; exact hlen)
    rw [hagain] at hmpi
    rw [length_cons, map_cons, lookupPass]
    split
    · rw [show (lookUp lists elt).objId = o from h.1.objId]
      rw [map_cons] at hmpi
      simp only [hmpi, ih h.2 (by omega)]
      rfl
    · rw [ih h.2 (by omega)]
      rfl

theorem lookupPass_reads :
    lookupPass lists regions.length regions = .done (regions.takeWhile IoRegion.isIoDone ++
        (regions.dropWhile IoRegion.isIoDone).map (lookUp lists)) () := by
  induction regions with
  | nil => rfl
  | cons elt rest ih =>
    have hall := h
    rw [forall_mem_cons] at h
    have hmpi := getStorageLocationOfRegionMpi_eq hall hlen
    rw [length_cons] at hlen
    rw [length_cons, lookupPass, takeWhile_cons, dropWhile_cons]
    cases hdone : elt.isIoDone with
    | true =>
      rw [if_neg (fun hd => nomatch hd.2), ih h.2 (by omega)]
      rfl
    | false =>
      rw [if_pos ⟨h.1.access, rfl⟩, h.1.objId, hmpi]
      simp only [map_cons, lookupPass_lookUp h.2 (by omega)]
      rfl

end

end

/-! ## Reads -/

theorem readRows_one {file buf : Bytes} {k pos n : Nat} (h : pos + n ≤ file.length) :
    readRows file n [(k, pos)] buf = (memcpy buf k file pos n, .succeed) := by
  simp [readRows, freadInto, h]

theorem requested_eq (hne : elt.region.size[0]! ≠ 0) (stor : RegionInfo) :
    elt.requested stor = elt := by
  have hregion : elt.region.requested stor = elt.region := by
    generalize elt.region = r at hne
    obtain ⟨ndim, offset, size, hoffset, hsize⟩ := r
    have hno : ¬ (ndim ≤ 3 ∧ size[0]! = 0) := fun h => hne h.2
    simp only [RegionInfo.requested, if_neg hno]
  obtain ⟨objId, region⟩ := elt
  unfold IoRegion.requested
  congr

/-- The file that is open is the one of `prev_path`. -/
def OpenFile.Tracks (f : OpenFile) : Prop := ∀ p, f.prevPath = some p → f.fpRead = some p

theorem OpenFile.tracks_closed : OpenFile.Tracks {} := by
  intro p hp
  cases hp

theorem reopen_fpRead {f : OpenFile} (hf : f.Tracks) {content : Bytes} (hpath : path ≠ [])
    (hcontent : files path = some content) : (f.reopen files path).fpRead = some path := by
  rw [OpenFile.reopen]
  split
  · next h => exact hf path h
  · exact if_pos ⟨hpath, by rw [hcontent]; rfl⟩

/-- The storage regions of a request give it the data, whatever file is open. -/
def ReadsInto (files : Bytes → Option Bytes) (elt : IoRegion) (data : Bytes) : Prop :=
  ∀ addr f, OpenFile.Tracks f → ∃ f', OpenFile.Tracks f' ∧
    readStorage files elt.overlaps f (elt.mapped addr) =
      (f', (elt.mapped addr).withBuf data, .succeed)

theorem readRequest_eq (st : IoLoop) {data : Bytes}
    (hgo : (elt.isIoDone && !elt.isShmClosed) = false ∨
      st.server.currentReadFromCache < st.server.totalReadFromCache)
    (hsize : elt.shmSize ≠ 0) (hBB : strstr elt.cacheLocation pdcCacheBB = false)
    (hdata : ReadsInto st.server.files elt data) (hf : st.file.Tracks) :
    ∃ st', readRequest st elt = .next st' ((elt.mapped st.server.nextShm).withBuf data).ready ∧
      st'.server.files = st.server.files ∧ st'.server.lists = st.server.lists ∧
      st'.file.Tracks ∧ st'.ret = .succeed := by
  obtain ⟨f', hf', hread⟩ := hdata st.server.nextShm st.file hf
  have hskip : ((elt.isIoDone && !elt.isShmClosed) &&
      decide (st.server.totalReadFromCache ≤ st.server.currentReadFromCache)) = false := by
    rcases hgo with h | h
    · rw [h]
      rfl
    · rw [decide_eq_false (by omega), Bool.and_false]
  have hmapped : createShmSegment elt st.server.nextShm = some (elt.mapped st.server.nextShm) :=
    if_neg hsize
  rw [readRequest]
  simp only [hskip, Bool.false_eq_true, if_false, hmapped, readIntoShm]
  rw [show (elt.mapped st.server.nextShm).cacheLocation = elt.cacheLocation from rfl, hBB]
  rw [show (elt.mapped st.server.nextShm).overlaps = elt.overlaps from rfl,
    show (st.server.countRead (elt.isIoDone && !elt.isShmClosed)).files = st.server.files from rfl,
    hread]
  exact ⟨_, rfl, rfl, rfl, hf', rfl⟩

end Pdc
