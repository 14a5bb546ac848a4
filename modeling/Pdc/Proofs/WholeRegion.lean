import Pdc.Proofs.FileIo

/-!
# Reading a region as it was written

When the regions of an object are pairwise apart or the same, a read overlaps
just one storage region, its own, and gets all of it. That is so in one to three
dimensions, for a region that has some bytes and does not reach beyond `2 ^ 64`
in any of them: the overlap is then computed without wrapping around, all of the
storage region is selected, and its bytes are read in one piece.
-/

namespace Pdc

open List Lib UInt64

namespace RegionInfo

/-- A region that can be read back whole. -/
structure Box (r : RegionInfo) : Prop where
  one_le : 1 ≤ r.ndim
  le_three : r.ndim ≤ 3
  fits : ∀ i, i < r.ndim → r.offset[i]!.toNat + r.size[i]!.toNat ≤ 2 ^ 64
  size : getRegionSize r ≠ 0

/-- In some dimension one region ends before the other one starts. -/
def Apart (r r' : RegionInfo) : Prop :=
  r.ndim = r'.ndim → ∃ i, i < r.ndim ∧
    (r.offset[i]!.toNat + r.size[i]!.toNat ≤ r'.offset[i]!.toNat ∨
      r'.offset[i]!.toNat + r'.size[i]!.toNat ≤ r.offset[i]!.toNat)

variable {r r' : RegionInfo}

theorem foldl_mul_zero (l : List UInt64) : l.foldl (· * ·) 0 = 0 := by
  induction l with
  | nil => rfl
  | cons a l ih => rw [foldl_cons, zero_mul, ih]

theorem foldl_mul_of_mem_zero {l : List UInt64} (h : 0 ∈ l) (n : UInt64) :
    l.foldl (· * ·) n = 0 := by
  induction l generalizing n with
  | nil => simp at h
  | cons a l ih =>
    rw [foldl_cons]
    rcases mem_cons.mp h with rfl | hl
    · rw [mul_zero, foldl_mul_zero]
    · exact ih hl _

section

variable (h : r.Box) {i : Nat} (hi : i < r.ndim)
include h hi

theorem Box.size_ne_zero : r.size[i]! ≠ 0 := by
  intro hzero
  have hlt : i < r.size.length := r.size_length ▸ hi
  refine h.size (foldl_mul_of_mem_zero ?_ 1)
  rw [← hzero, getElem!_pos r.size i hlt]
  exact getElem_mem hlt

theorem Box.pos : 0 < r.size[i]!.toNat :=
  Nat.pos_of_ne_zero fun hzero => h.size_ne_zero hi (UInt64.toNat_inj.mp hzero)

theorem Box.toNat_last : (r.last i).toNat = r.offset[i]!.toNat + r.size[i]!.toNat - 1 := by
  have hpos := h.pos hi
  have hfits := h.fits i hi
  rw [last, UInt64.toNat_sub, UInt64.toNat_add, UInt64.toNat_one]
  omega

end

/-! ## Overlaps -/

theorem Box.isOverlap_self (h : r.Box) : isOverlap r.ndim r r = true := by
  rw [isOverlap, all_eq_true]
  intro i hi
  have hi' := mem_range.mp hi
  have hpos := h.pos hi'
  have hlast := h.toNat_last hi'
  rw [isOverlap1D, Bool.and_self, decide_eq_true_eq, le_iff_toNat_le]
  omega

theorem Box.isContiguousRegionOverlap_self (h : r.Box) : isContiguousRegionOverlap r r = true := by
  have hone := h.one_le
  rw [isContiguousRegionOverlap, if_neg (by omega), if_pos h.le_three]
  exact h.isOverlap_self

theorem Box.isContiguousRegionOverlap_of_apart (h : r.Box) (h' : r'.Box) (hapart : r.Apart r') :
    isContiguousRegionOverlap r r' = false := by
  have hone := h.one_le
  rw [isContiguousRegionOverlap]
  by_cases hndim : r.ndim = r'.ndim
  · rw [if_neg (by omega), if_pos h.le_three, isOverlap, all_eq_false]
    obtain ⟨i, hi, hor⟩ := hapart hndim
    refine ⟨i, mem_range.mpr hi, ?_⟩
    have hlast := h.toNat_last hi
    have hlast' := h'.toNat_last (hndim ▸ hi)
    have hpos := h.pos hi
    have hpos' := h'.pos (hndim ▸ hi)
    rw [isOverlap1D, Bool.and_eq_true, decide_eq_true_eq, decide_eq_true_eq,
      le_iff_toNat_le, le_iff_toNat_le]
    omega
  · rw [if_pos (.inl hndim)]

/-! ## The read -/

def extents (r : RegionInfo) : List (UInt64 × UInt64) :=
  (List.range r.ndim).map fun i => (r.offset[i]!, r.size[i]!)

theorem extents_getElem! (r : RegionInfo) {i : Nat} (hi : i < r.ndim) :
    r.extents[i]! = (r.offset[i]!, r.size[i]!) := by
  have hlt : i < r.extents.length := by
    rw [extents, length_map, length_range]
    exact hi
  rw [getElem!_pos r.extents i hlt]
  simp only [extents, getElem_map, getElem_range]

theorem foldl_extents (r : RegionInfo) :
    (List.range r.ndim).foldl (fun n i => n * (r.extents[i]!).2) 1 = getRegionSize r := by
  have hsize : (List.range r.ndim).map (fun i => (r.extents[i]!).2) = r.size := by
    refine Eq.trans (map_congr_left fun i hi => ?_) (map_range_getElem! r.size_length)
    rw [extents_getElem! r (mem_range.mp hi)]
  rw [getRegionSize, ← hsize, foldl_map]

theorem Box.getOverlapStartCount_self (h : r.Box) :
    getOverlapStartCount r.ndim r r = some r.extents := by
  rw [getOverlapStartCount, if_pos h.isOverlap_self]
  refine congrArg some (map_congr_left fun i _ => ?_)
  have hmax : ∀ a : UInt64, max a a = a := fun a => by
    rw [← UInt64.toNat_inj, UInt64.toNat_max, Nat.max_self]
  have hmin : ∀ a : UInt64, min a a = a := fun a => by
    rw [← UInt64.toNat_inj, UInt64.toNat_min, Nat.min_self]
  simp only [hmax, hmin]
  rw [UInt64.add_comm, UInt64.add_sub_cancel]

theorem Box.readOverlapRegions_self (h : r.Box) (file : Bytes) (fileOffset : Nat) (buf : Bytes) :
    readOverlapRegions r r file fileOffset buf =
      readRows file (getRegionSize r).toNat [(0, fileOffset)] buf := by
  have hone := h.one_le
  have hle := h.le_three
  have hall : ((List.range r.ndim).all fun i =>
      decide ((r.extents[i]!).1 = r.offset[i]!) && decide ((r.extents[i]!).2 = r.size[i]!)) =
        true := by
    rw [all_eq_true]
    intro i hi
    rw [extents_getElem! r (mem_range.mp hi)]
    simp
  have hstart : ∀ i, i < r.ndim → (r.extents[i]!).1 - r.offset[i]! = 0 := by
    intro i hi
    rw [extents_getElem! r hi, UInt64.sub_self]
  have hrow : ∀ x : UInt64,
      (if 2 ≤ r.ndim then ((r.extents[1]!).1 - r.offset[1]!) * x else 0) = 0 := by
    intro x
    split
    · next h2 => rw [hstart 1 (by omega), UInt64.zero_mul]
    · rfl
  have hplane : ∀ x y : UInt64,
      (if 3 ≤ r.ndim then ((r.extents[2]!).1 - r.offset[2]!) * x * y else 0) = 0 := by
    intro x y
    split
    · next h3 => rw [hstart 2 (by omega), UInt64.zero_mul, UInt64.zero_mul]
    · rfl
  unfold readOverlapRegions
  simp only [h.getOverlapStartCount_self]
  rw [if_neg (by omega), if_neg (h.size_ne_zero (by omega)), if_pos (.inr hall), foldl_extents,
    hstart 0 (by omega), hrow, hplane]
  rfl

end RegionInfo

open RegionInfo

variable {files : Bytes → Option Bytes} {data : Bytes} {e : StorageEntry}

theorem readsInto_own {elt : IoRegion} (hbox : elt.region.Box)
    (hsize : elt.shmSize = getRegionSize elt.region) (hoverlaps : elt.overlaps = [e])
    (he : e.region = elt.region) (hholds : FileHolds files e.storageLocation e.offset data)
    (hlen : data.length = (getRegionSize elt.region).toNat) : ReadsInto files elt data := by
  obtain ⟨hpath, content, hcontent, hle, hslice⟩ := hholds
  intro addr f hf
  have hopen := reopen_fpRead hf hpath hcontent
  have hmapped : (elt.mapped addr).buf.length = data.length := by
    rw [IoRegion.mapped, length_replicate, hsize, hlen]
  have hread : readOverlapRegions (elt.mapped addr).region e.region content e.offset
      (elt.mapped addr).buf = (data, .succeed) := by
    rw [he, show (elt.mapped addr).region = elt.region from rfl, hbox.readOverlapRegions_self,
      ← hlen, readRows_one hle, memcpy_full hmapped hle, hslice]
  have hne : (elt.mapped addr).region.size[0]! ≠ 0 := hbox.size_ne_zero hbox.one_le
  refine ⟨{ f.reopen files e.storageLocation with prevPath := some e.storageLocation },
    fun p hp => hopen.trans hp, ?_⟩
  rw [hoverlaps, readStorage]
  simp only [hopen, hcontent, Option.getD_some, requested_eq hne, hread]
  rfl

theorem filter_overlap_own {entries : List StorageEntry}
    (hnodup : (entries.map StorageEntry.region).Nodup) (he : e ∈ entries)
    (hbox : ∀ e' ∈ entries, e'.region.Box)
    (hapart : ∀ e' ∈ entries, e'.region ≠ e.region → e'.region.Apart e.region) :
    (entries.filter fun e' => RegionInfo.isContiguousRegionOverlap e'.region e.region) = [e] := by
  obtain ⟨before, after, rfl⟩ := append_of_mem he
  have hnone : ∀ l : List StorageEntry, (∀ e' ∈ l, e' ∈ before ++ e :: after) →
      (∀ e' ∈ l, e'.region ≠ e.region) →
      (l.filter fun e' => RegionInfo.isContiguousRegionOverlap e'.region e.region) = [] := by
    intro l hmem hne
    rw [filter_eq_nil_iff]
    intro e' he'
    rw [(hbox e' (hmem e' he')).isContiguousRegionOverlap_of_apart (hbox e he)
      (hapart e' (hmem e' he') (hne e' he'))]
    exact Bool.false_ne_true
  rw [map_append, nodup_append] at hnodup
  obtain ⟨-, hcons, hdisj⟩ := hnodup
  rw [filter_append, filter_cons, if_pos (hbox e he).isContiguousRegionOverlap_self,
    hnone before (fun e' he' => mem_append_left _ he') ?_,
    hnone after (fun e' he' => mem_append_right _ (mem_cons_of_mem e he')) ?_]
  · rfl
  · intro e' he' heq
    exact (nodup_cons.mp hcons).1 (heq ▸ mem_map_of_mem he')
  · intro e' he'
    exact hdisj _ (mem_map_of_mem he') _ mem_cons_self

end Pdc
