import Pdc.Client.LocalRegion
import Pdc.Proofs.RegionCells

/-!
# Writing from a local region and reading back into it

A write takes the bytes of the local region row by row. The rows follow each
other in the user's buffer, because the row length the source uses is that of
the region itself, so the positions are one stretch: it starts at the region's
offset and is as long as the region. A read of one dimension delivers to that
stretch. A read of two or three dimensions delivers to a stretch of the same
length at the start of the buffer, whatever the offset is.

So the two agree for one dimension, for offsets that are all zero, and where
there is nothing to copy, and only then.
-/

namespace Pdc

open List Lib

variable {ndim : Nat} {region : Region}

/-! ## Positions -/

/-- The positions of the user's buffer that `pack_region_buffer` reads, in the
order it reads them. -/
def packPositions (ndim unit : Nat) (region : Region) : List Nat :=
  match ndim with
  | 1 => List.range' (region.off 0 * unit) (region.len 0 * unit)
  | 2 =>
    (List.range (region.len 0)).flatMap fun i =>
      List.range' (((region.off 0 + i) * region.len 1 + region.off 1) * unit) (region.len 1 * unit)
  | 3 =>
    (List.range (region.len 0)).flatMap fun i =>
      (List.range (region.len 1)).flatMap fun j =>
        List.range' (((region.off 0 + i) * region.len 1 * region.len 2 +
            (region.off 1 + j) * region.len 2 + region.off 2) * unit)
          (region.len 2 * unit)
  | _ => []

/-- The positions a read delivers to, in the order of its bytes. -/
def readPositions (ndim unit : Nat) (region : Region) : List Nat :=
  match ndim with
  | 1 => List.range' (region.off 0 * unit) (region.len 0 * unit)
  | 2 => List.range' 0 (region.len 0 * region.len 1 * unit)
  | 3 => List.range' 0 (region.len 0 * region.len 1 * region.len 2 * unit)
  | _ => []

theorem flatMap_range'_rows (b m n : Nat) :
    ((range n).flatMap fun i => range' (b + i * m) m) = range' b (n * m) := by
  induction n with
  | zero => simp
  | succ n ih =>
    rw [range_succ, flatMap_append, ih, flatMap_singleton, Nat.add_mul,
      Nat.one_mul, range'_append_1]

def localStart (ndim : Nat) (region : Region) : Nat :=
  match ndim with
  | 1 => region.off 0
  | 2 => region.off 0 * region.len 1 + region.off 1
  | _ => region.off 0 * region.len 1 * region.len 2 + region.off 1 * region.len 2 + region.off 2

section

variable {ndim : Nat} (hndim : ndim = 1 ∨ ndim = 2 ∨ ndim = 3) (unit : Nat) (region : Region)

include hndim

theorem packPositions_eq :
    packPositions ndim unit region =
      range' (localStart ndim region * unit) (region.count ndim * unit) := by
  rcases hndim with rfl | rfl | rfl
  · rw [Region.count_one]
    rfl
  · rw [Region.count_two, Nat.mul_assoc, ← flatMap_range'_rows]
    refine flatMap_congr fun i _ => ?_
    congr 1
    simp only [localStart]
    ring
  · rw [Region.count_three, show region.len 0 * region.len 1 * region.len 2 * unit =
      region.len 0 * (region.len 1 * (region.len 2 * unit)) by ring, ← flatMap_range'_rows]
    refine flatMap_congr fun i _ => ?_
    rw [← flatMap_range'_rows]
    refine flatMap_congr fun j _ => ?_
    congr 1
    simp only [localStart]
    ring

theorem readPositions_eq :
    readPositions ndim unit region =
      range' (if ndim = 1 then localStart 1 region * unit else 0)
        (region.count ndim * unit) := by
  rcases hndim with rfl | rfl | rfl
  · rw [Region.count_one]
    rfl
  · rw [Region.count_two]
    rfl
  · rw [Region.count_three]
    rfl

end

/-! ## What is read and what is delivered -/

theorem slice_eq_filterMap {α : Type*} (l : List α) (p n : Nat) :
    slice l p n = (List.range' p n).filterMap fun k => l[k]? := by
  induction n generalizing p with
  | zero => simp [slice]
  | succ n ih =>
    rw [List.range'_succ, filterMap_cons, ← ih]
    cases hp : l[p]? with
    | none =>
      have hlen := List.getElem?_eq_none_iff.mp hp
      simp only [slice]
      rw [drop_eq_nil_of_le hlen, drop_eq_nil_of_le (by omega)]
      simp
    | some a =>
      obtain ⟨hlt, rfl⟩ := List.getElem?_eq_some_iff.mp hp
      rw [slice, drop_eq_getElem_cons hlt]
      rfl

theorem packRegionBuffer_eq (hndim : ndim = 1 ∨ ndim = 2 ∨ ndim = 3) (unit : Nat)
    (region : Region) (buf : List UInt8) :
    packRegionBuffer ndim unit region buf =
      some ((packPositions ndim unit region).filterMap fun p => buf[p]?) := by
  rcases hndim with rfl | rfl | rfl
  · simp only [packRegionBuffer, packPositions, slice_eq_filterMap]
  · simp only [packRegionBuffer, packPositions, slice_eq_filterMap, filterMap_flatMap]
  · simp only [packRegionBuffer, packPositions, slice_eq_filterMap, filterMap_flatMap]

section

variable {ndim unit : Nat} {region : Region} {buf data : List UInt8}

theorem releaseRegionBuffer_eq (hndim : ndim = 1 ∨ ndim = 2 ∨ ndim = 3) :
    releaseRegionBuffer ndim unit region buf data =
      memcpy buf (if ndim = 1 then localStart 1 region * unit else 0) data 0
        (region.count ndim * unit) := by
  rcases hndim with rfl | rfl | rfl
  · rw [Region.count_one]
    rfl
  · rw [Region.count_two]
    rfl
  · rw [Region.count_three]
    rfl

theorem releaseRegionBuffer_at (hndim : ndim = 1 ∨ ndim = 2 ∨ ndim = 3)
    (hfit : ∀ p ∈ readPositions ndim unit region, p < buf.length)
    (hdata : data.length = region.count ndim * unit) {k p : Nat}
    (hp : (readPositions ndim unit region)[k]? = some p) :
    (releaseRegionBuffer ndim unit region buf data)[p]? = data[k]? := by
  rw [readPositions_eq hndim] at hfit hp
  obtain ⟨hk, rfl⟩ := List.getElem?_eq_some_iff.mp hp
  rw [length_range'] at hk
  rw [getElem_range', releaseRegionBuffer_eq hndim]
  generalize (if ndim = 1 then localStart 1 region * unit else 0) = start at hfit ⊢
  have hlast := hfit (start + (region.count ndim * unit - 1)) (by
    rw [mem_range'_1]; omega)
  rw [memcpy_getElem?_of_mem (by omega) (by omega) (by omega) (by omega)]
  congr 1
  omega

end

/-! ## Symmetry -/

/-- A write reads the user's buffer where a read delivers, in the same order,
and reading back what was written changes nothing. -/
structure LocalSymmetric (ndim unit : Nat) (region : Region) : Prop where
  positions : packPositions ndim unit region = readPositions ndim unit region
  roundTrip : ∀ buf : List UInt8, (∀ p ∈ packPositions ndim unit region, p < buf.length) →
    ∃ data, packRegionBuffer ndim unit region buf = some data ∧
      releaseRegionBuffer ndim unit region buf data = buf

theorem roundTrip_of_positions {unit : Nat} (hndim : ndim = 1 ∨ ndim = 2 ∨ ndim = 3)
    (hpos : packPositions ndim unit region = readPositions ndim unit region) {buf : List UInt8}
    (hfit : ∀ p ∈ packPositions ndim unit region, p < buf.length) :
    ∃ data, packRegionBuffer ndim unit region buf = some data ∧
      releaseRegionBuffer ndim unit region buf data = buf := by
  have hmap : ((packPositions ndim unit region).filterMap fun p => buf[p]?) =
      (packPositions ndim unit region).map fun p => buf.getD p 0 := by
    rw [← filterMap_eq_map]
    refine filterMap_congr fun p hp => ?_
    simp [getD_eq_getElem?_getD, getElem?_eq_getElem (hfit p hp)]
  refine ⟨_, packRegionBuffer_eq hndim unit region buf, ?_⟩
  rw [hmap]
  refine ext_getElem? fun p => ?_
  by_cases hp : p ∈ readPositions ndim unit region
  · obtain ⟨k, hk⟩ := mem_iff_getElem?.mp hp
    rw [releaseRegionBuffer_at hndim (hpos ▸ hfit) (by
      rw [length_map, packPositions_eq hndim, length_range']) hk, getElem?_map,
      hpos, hk]
    simp [getD_eq_getElem?_getD, getElem?_eq_getElem (hfit p (hpos ▸ hp))]
  · rw [readPositions_eq hndim, mem_range'_1] at hp
    rw [releaseRegionBuffer_eq hndim, memcpy_getElem?_of_not hp]

theorem localStart_eq_zero (hndim : ndim = 1 ∨ ndim = 2 ∨ ndim = 3)
    (hsize : ∀ i < ndim, 0 < region.len i) :
    localStart ndim region = 0 ↔ ∀ i < ndim, region.off i = 0 := by
  rcases hndim with rfl | rfl | rfl
  · simp [localStart]
  · have h1 := hsize 1 (by omega)
    simp only [localStart, Nat.add_eq_zero_iff, Nat.mul_eq_zero, h1.ne', or_false,
      Nat.forall_lt_succ_right, Nat.not_lt_zero, false_implies, implies_true, true_and]
  · have h1 := hsize 1 (by omega)
    have h2 := hsize 2 (by omega)
    simp only [localStart, Nat.add_eq_zero_iff, Nat.mul_eq_zero, h1.ne', h2.ne', or_false,
      Nat.forall_lt_succ_right, Nat.not_lt_zero, false_implies, implies_true, true_and, and_assoc]

theorem range'_inj_left {a b n : Nat} : range' a n = range' b n ↔ n = 0 ∨ a = b := by
  cases n with
  | zero => simp
  | succ n =>
    constructor
    · intro h
      exact .inr (cons.inj h).1
    · rintro (h | rfl)
      · cases h
      · rfl

/-- Writing and reading are symmetric for one dimension, for regions at the
start of the user's buffer and where there is nothing to copy, and for no
other region. -/
theorem localSymmetric_iff {ndim : Nat} (hndim : ndim = 1 ∨ ndim = 2 ∨ ndim = 3) (unit : Nat)
    {region : Region} (hsize : ∀ i < ndim, 0 < region.len i) :
    LocalSymmetric ndim unit region ↔ ndim = 1 ∨ unit = 0 ∨ ∀ i < ndim, region.off i = 0 := by
  have hcount : region.count ndim ≠ 0 := by
    rcases hndim with rfl | rfl | rfl
    · rw [Region.count_one]
      exact (hsize 0 (by omega)).ne'
    · rw [Region.count_two]
      exact Nat.mul_ne_zero (hsize 0 (by omega)).ne' (hsize 1 (by omega)).ne'
    · rw [Region.count_three]
      exact Nat.mul_ne_zero (Nat.mul_ne_zero (hsize 0 (by omega)).ne' (hsize 1 (by omega)).ne')
        (hsize 2 (by omega)).ne'
  have hpositions : packPositions ndim unit region = readPositions ndim unit region ↔
      ndim = 1 ∨ unit = 0 ∨ ∀ i < ndim, region.off i = 0 := by
    rw [packPositions_eq hndim, readPositions_eq hndim, range'_inj_left, Nat.mul_eq_zero]
    by_cases hone : ndim = 1
    · subst hone
      simp
    · rw [if_neg hone, Nat.mul_eq_zero, localStart_eq_zero hndim hsize]
      tauto
  rw [← hpositions]
  exact ⟨fun h => h.positions, fun h => ⟨h, fun _ => roundTrip_of_positions hndim h⟩⟩

/-- A block of two rows at the start of the buffer. -/
theorem localSymmetric_at_start : LocalSymmetric 2 4 ⟨[0, 0], [2, 3]⟩ :=
  (localSymmetric_iff (.inr (.inl rfl)) 4 (by decide)).mpr (.inr (.inr (by decide)))

/-- Two elements of a row, at column 1: byte 1 and 2 of the buffer are written,
and come back as bytes 0 and 1. -/
theorem not_localSymmetric_at_column :
    packRegionBuffer 2 1 ⟨[0, 1], [1, 2]⟩ [10, 11, 12] = some [11, 12] ∧
      releaseRegionBuffer 2 1 ⟨[0, 1], [1, 2]⟩ [10, 11, 12] [11, 12] = [11, 12, 12] ∧
      ¬ LocalSymmetric 2 1 ⟨[0, 1], [1, 2]⟩ :=
  ⟨by decide, by decide, fun h => absurd h.positions (by decide)⟩

end Pdc
