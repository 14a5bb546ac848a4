import Pdc.Server.ReadRegion
import Pdc.Proofs.FileIo
import Pdc.Proofs.StorageMap

/-!
# Files that cannot be read

After a file that could not be opened or read no file is open, but `prev_path`
still is the path of the last one that was read. A storage region in that file
which comes next is read through a handle that is not there. `stale` says when
that happens, in terms of the storage regions alone. Otherwise each of them is
read from its own file, whichever of the others can be.
-/

namespace Pdc

open List Lib Option

section

variable (files : Bytes → Option Bytes) (req : RegionInfo)

def StorageEntry.opens (stor : StorageEntry) : Bool :=
  decide (stor.storageLocation ≠ []) && (files stor.storageLocation).isSome

/-- What the request and a storage region have in common can be read. -/
def StorageEntry.readable (stor : StorageEntry) : Bool :=
  stor.opens files && decide ((readOverlapRegions req stor.region
    ((files stor.storageLocation).getD []) stor.offset []).2 = .succeed)

/-- The path of the last storage region that was read. -/
def lastRead (done : List StorageEntry) : Option Bytes :=
  (done.filter (·.readable files req)).getLast?.map StorageEntry.storageLocation

/-- The last storage region that has a path was read, if there is one. -/
def stillOpen (done : List StorageEntry) : Bool :=
  (done.filter fun s => s.storageLocation ≠ []).getLast?.all (·.readable files req)

/-- A storage region is in the file that was read last, with one that could not be read
in between. -/
def stale (done : List StorageEntry) (stor : StorageEntry) : Bool :=
  decide (lastRead files req done = some stor.storageLocation) && !stillOpen files req done

end

variable {files : Bytes → Option Bytes} {req : RegionInfo} {st : ReadLoop}
  {done : List StorageEntry} {stor : StorageEntry}

theorem readRows_snd (file : Bytes) (n : Nat) (rows : List (Nat × Nat)) (buf buf' : Bytes) :
    (readRows file n rows buf).2 = (readRows file n rows buf').2 := by
  induction rows generalizing buf buf' with
  | nil => rfl
  | cons row rows ih =>
    simp only [readRows, freadInto]
    cases decide (n = 0 ∨ row.2 + n ≤ file.length) with
    | true => exact ih _ _
    | false => rfl

/-- Whether a read succeeds does not depend on the buffer. -/
theorem readOverlapRegions_snd (req stor : RegionInfo) (file : Bytes) (offset : Nat)
    (buf buf' : Bytes) : (readOverlapRegions req stor file offset buf).2 =
      (readOverlapRegions req stor file offset buf').2 := by
  unfold readOverlapRegions
  dsimp only
  split
  · rfl
  · split
    · exact readRows_snd ..
    · split
      · rfl
      · split <;> exact readRows_snd ..

theorem opens_of_lastRead (h : lastRead files req done = some stor.storageLocation) :
    stor.opens files = true := by
  obtain ⟨s, hs, hpath⟩ := map_eq_some_iff.mp h
  have hreadable := (mem_filter.mp (mem_of_getLast? hs)).2
  rw [StorageEntry.readable, Bool.and_eq_true, StorageEntry.opens, hpath] at hreadable
  exact hreadable.1

/-- Where the loop is after some storage regions. -/
structure LoopAfter (files : Bytes → Option Bytes) (req : RegionInfo) (done : List StorageEntry)
    (st : ReadLoop) : Prop where
  region : st.elt.region = req
  prevPath : st.file.prevPath = lastRead files req done
  fpRead : st.file.fpRead = if stillOpen files req done then lastRead files req done else none
  reads : st.reads = (done.filter (·.opens files)).map fun s => (s.storageLocation, s)

section

variable (hsize : req.size[0]! ≠ 0) (h : LoopAfter files req done st)
include hsize h

theorem LoopAfter.read (hopens : stor.opens files = true)
    (hopen : (st.file.reopen files stor.storageLocation).fpRead = some stor.storageLocation)
    (hprev : (st.file.reopen files stor.storageLocation).prevPath = st.file.prevPath) :
    ∃ st', readOneStep files st stor = some st' ∧ LoopAfter files req (done ++ [stor]) st' := by
  have hne : stor.storageLocation ≠ [] := by
    rw [StorageEntry.opens, Bool.and_eq_true] at hopens
    exact of_decide_eq_true hopens.1
  have hreadable : stor.readable files req = decide ((readOverlapRegions st.elt.region stor.region
      ((files stor.storageLocation).getD []) stor.offset st.elt.buf).2 = .succeed) := by
    rw [StorageEntry.readable, hopens, Bool.true_and, h.region, readOverlapRegions_snd]
  rw [readOneStep, if_neg hne]
  simp only [hopen, requested_eq (h.region ▸ hsize)]
  cases hret : (readOverlapRegions st.elt.region stor.region
      ((files stor.storageLocation).getD []) stor.offset st.elt.buf).2 with
  | fail =>
    simp only [hret, reduceCtorEq, decide_false] at hreadable
    exact ⟨_, rfl, h.region, by simp [lastRead, hreadable, hprev, h.prevPath],
      by simp [stillOpen, hreadable, hne], by simp [hopens, h.reads]⟩
  | succeed =>
    simp only [hret, decide_true] at hreadable
    exact ⟨_, rfl, h.region, by simp [lastRead, hreadable],
      by simp [stillOpen, lastRead, hreadable, hne], by simp [hopens, h.reads]⟩

theorem LoopAfter.step (hstale : stale files req done stor = false) :
    ∃ st', readOneStep files st stor = some st' ∧ LoopAfter files req (done ++ [stor]) st' := by
  by_cases hprev : st.file.prevPath = some stor.storageLocation
  · have hlast := h.prevPath.symm.trans hprev
    have hsame : st.file.reopen files stor.storageLocation = st.file := if_pos hprev
    refine h.read hsize (opens_of_lastRead hlast) ?_ (by rw [hsame])
    have hopen : stillOpen files req done = true := by simpa [stale, hlast] using hstale
    rw [hsame, h.fpRead, hopen, if_pos rfl, hlast]
  · have hreopen : st.file.reopen files stor.storageLocation = _ := if_neg hprev
    cases hopens : stor.opens files with
    | true =>
      refine h.read hsize hopens ?_ (by rw [hreopen])
      rw [hreopen]
      simpa [StorageEntry.opens, isSome_iff_ne_none] using hopens
    | false =>
      have hreadable : stor.readable files req = false := by simp [StorageEntry.readable, hopens]
      by_cases hnil : stor.storageLocation = []
      · exact ⟨st, if_pos hnil, h.region, by simp [lastRead, hreadable, h.prevPath],
          by simp [stillOpen, lastRead, hreadable, hnil, h.fpRead], by simp [hopens, h.reads]⟩
      · have hfile : files stor.storageLocation = none := by
          simpa [StorageEntry.opens, hnil] using hopens
        rw [readOneStep, if_neg hnil, hreopen]
        simp only [hfile, isSome_none, Bool.false_eq_true, and_false, if_false, hprev]
        exact ⟨_, rfl, h.region, by simp [lastRead, hreadable, h.prevPath],
          by simp [stillOpen, hreadable, hnil], by simp [hopens, h.reads]⟩

omit hsize in
theorem LoopAfter.stale (hstale : stale files req done stor = true) :
    readOneStep files st stor = none := by
  rw [Pdc.stale, Bool.and_eq_true, decide_eq_true_eq, Bool.not_eq_true'] at hstale
  have hprev := h.prevPath.trans hstale.1
  have hsame : st.file.reopen files stor.storageLocation = st.file := if_pos hprev
  have hclosed : st.file.fpRead = none := by simp [h.fpRead, hstale.2]
  have hopens := opens_of_lastRead hstale.1
  rw [StorageEntry.opens, Bool.and_eq_true] at hopens
  simp only [readOneStep, if_neg (of_decide_eq_true hopens.1), hsame, hclosed, if_pos hprev]

theorem LoopAfter.run (rest : List StorageEntry) :
    (∀ st', rest.foldlM (readOneStep files) st = some st' →
      LoopAfter files req (done ++ rest) st') ∧
    ((rest.foldlM (readOneStep files) st).isSome ↔ ∀ (i : Nat) stor, rest[i]? = some stor →
        Pdc.stale files req (done ++ rest.take i) stor = false) := by
  induction rest generalizing done st with
  | nil => simpa using h
  | cons s rest ih =>
    rw [foldlM_cons]
    cases hstale : Pdc.stale files req done s with
    | true =>
      rw [h.stale hstale]
      refine ⟨nofun, iff_of_false nofun fun hall => ?_⟩
      have hfirst := hall 0 s rfl
      rw [take_zero, append_nil, hstale] at hfirst
      cases hfirst
    | false =>
      obtain ⟨st₁, hst₁, h₁⟩ := h.step hsize hstale
      obtain ⟨hafter, hiff⟩ := ih h₁
      rw [append_assoc] at hafter
      rw [hst₁, bind_eq_bind, bind_some, hiff]
      refine ⟨hafter, fun hall i t ht => ?_, fun hall i t ht => ?_⟩
      · cases i with
        | zero =>
          obtain rfl := some.inj ht
          simpa using hstale
        | succ i => simpa using hall i t ht
      · simpa using hall (i + 1) t ht

end

/-- Each storage region with a file that can be opened is read from that file. -/
def ReadsEach (files : Bytes → Option Bytes) (elt : IoRegion) (addr : Nat) : Prop :=
  ∃ st, serverReadOneRegion files elt addr = some st ∧
    st.reads = (elt.overlaps.filter (·.opens files)).map fun s => (s.storageLocation, s)

/-- Each storage region is read from its own file just if none of them is stale. -/
theorem readsEach_iff (files : Bytes → Option Bytes) (elt : IoRegion) (addr : Nat)
    (haccess : elt.accessType = .read) (hsize : elt.region.size[0]! ≠ 0) (hshm : elt.shmSize ≠ 0) :
    ReadsEach files elt addr ↔ ∀ p ∈ elt.overlaps.zipIdx,
      stale files elt.region (elt.overlaps.take p.2) p.1 = false := by
  have hstart : LoopAfter files elt.region [] { elt := elt.mapped addr } := ⟨rfl, rfl, rfl, rfl⟩
  obtain ⟨hafter, hiff⟩ := hstart.run hsize elt.overlaps
  have hforall : (∀ p ∈ elt.overlaps.zipIdx,
      stale files elt.region (elt.overlaps.take p.2) p.1 = false) ↔
        (elt.overlaps.foldlM (readOneStep files) { elt := elt.mapped addr }).isSome := by
    rw [hiff, Prod.forall, forall_comm]
    simp only [mem_zipIdx_iff_getElem?, nil_append]
  rw [hforall, ReadsEach]
  by_cases hnil : elt.overlaps = []
  · have hrun : serverReadOneRegion files elt addr = some { elt } := if_pos (.inr hnil)
    exact iff_of_true ⟨_, hrun, by rw [hnil]; rfl⟩ (by rw [hnil]; rfl)
  · rw [serverReadOneRegion, if_neg (by simp [haccess, hnil]), createShmSegment, if_neg hshm]
    refine ⟨fun ⟨st, hst, _⟩ => ?_, fun hsome => ?_⟩
    · obtain ⟨st', hst', -⟩ := Option.map_eq_some_iff.mp hst
      exact Option.isSome_of_eq_some hst'
    · obtain ⟨st, hst⟩ := Option.isSome_iff_exists.mp hsome
      exact ⟨_, Option.map_eq_some_iff.mpr ⟨st, hst, rfl⟩, (hafter st hst).reads⟩

/-- One byte of a line, in a file. -/
def byteIn (path : Bytes) (start : UInt64) : StorageEntry where
  region := (lineTransfer start 1).info
  storageLocation := path
  one_le_ndim := one_le_ndim_lineTransfer start 1
  ndim_le_four := ndim_lineTransfer_le_four start 1

/-- Three bytes, of which the one in the middle is in the file `[1]`. -/
def threeBytes (first last : Bytes) : IoRegion where
  objId := 7
  region := (lineTransfer 0 3).info
  accessType := .read
  overlaps := [byteIn first 0, byteIn [1] 1, byteIn last 2]
  one_le_ndim := one_le_ndim_lineTransfer 0 3
  ndim_le_four := ndim_lineTransfer_le_four 0 3

def allBut (path : Bytes) : Bytes → Option Bytes := fun p => if p = path then none else some [9]

/-- The second of three files is missing. -/
theorem readsEach_three_files : ReadsEach (allBut [1]) (threeBytes [0] [2]) 0 :=
  (readsEach_iff (allBut [1]) (threeBytes [0] [2]) 0 rfl (by decide) (by decide)).mpr
    (by decide +kernel)

/-- The third byte is in the same file as the first. -/
theorem not_readsEach_two_files : ¬ ReadsEach (allBut [1]) (threeBytes [0] [0]) 0 := by
  have hundefined : serverReadOneRegion (allBut [1]) (threeBytes [0] [0]) 0 |>.isNone := by
    decide +kernel
  rintro ⟨st, hst, -⟩
  rw [hst] at hundefined
  cases hundefined

end Pdc
