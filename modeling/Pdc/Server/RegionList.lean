import Mathlib.Data.List.Basic

/-!
# Regions in lists and in messages (`pdc_client_server_common.c`)

A region is kept in three forms. Clients hold its offset and size in arrays of
their own length, servers in arrays with room for four dimensions, and a
message has a field for each of the four. The conversions copy the dimensions
there are. The arrays of a server's region are not cleared, so what a
conversion does not write is left from before.
-/

namespace Pdc

/-- The dimensions of a `struct pdc_region_info`, or the `ndim` first entries of the
arrays of a `region_list_t`. -/
structure RegionInfo where
  ndim : Nat
  offset : List UInt64
  size : List UInt64
  offset_length : offset.length = ndim
  size_length : size.length = ndim

instance : DecidableEq RegionInfo := fun a b =>
  decidable_of_iff (a.ndim = b.ndim ∧ a.offset = b.offset ∧ a.size = b.size)
    (RegionInfo.mk.injEq .. ▸ Iff.rfl)

/-- `region_info_transfer_t`, which `calloc` sets to zero. -/
structure RegionInfoTransfer where
  ndim : Nat := 0
  start0 : UInt64 := 0
  start1 : UInt64 := 0
  start2 : UInt64 := 0
  start3 : UInt64 := 0
  count0 : UInt64 := 0
  count1 : UInt64 := 0
  count2 : UInt64 := 0
  count3 : UInt64 := 0

/-- `ndim`, `start` and `count` of a `region_list_t`; the arrays have `DIM_MAX` entries. -/
structure RegionList where
  ndim : Nat
  start : List UInt64
  count : List UInt64
  start_length : start.length = 4
  count_length : count.length = 4

/-- `PDC_region_info_t_to_transfer`; other dimensions than one to four leave the
transfer region alone. -/
def regionInfoToTransfer (r : RegionInfo) (t : RegionInfoTransfer) : RegionInfoTransfer :=
  if r.ndim = 0 ∨ 5 ≤ r.ndim then t
  else
    { ndim := r.ndim
      start0 := if 1 ≤ r.ndim then r.offset[0]! else 0
      start1 := if 2 ≤ r.ndim then r.offset[1]! else 0
      start2 := if 3 ≤ r.ndim then r.offset[2]! else 0
      start3 := if 4 ≤ r.ndim then r.offset[3]! else 0
      count0 := if 1 ≤ r.ndim then r.size[0]! else 0
      count1 := if 2 ≤ r.ndim then r.size[1]! else 0
      count2 := if 3 ≤ r.ndim then r.size[2]! else 0
      count3 := if 4 ≤ r.ndim then r.size[3]! else 0 }

/-- One dimension of a `region_list_t`. -/
def RegionList.setDim (r : RegionList) (i : Nat) (start count : UInt64) : RegionList where
  ndim := r.ndim
  start := r.start.set i start
  count := r.count.set i count
  start_length := by rw [List.length_set, r.start_length]
  count_length := by rw [List.length_set, r.count_length]

/-- `PDC_region_transfer_t_to_list_t`, into memory that held another region. -/
def regionTransferToList (t : RegionInfoTransfer) (old : RegionList) : RegionList :=
  let r := { old with ndim := t.ndim }.setDim 0 t.start0 t.count0
  let r := if 1 < t.ndim then r.setDim 1 t.start1 t.count1 else r
  let r := if 2 < t.ndim then r.setDim 2 t.start2 t.count2 else r
  if 3 < t.ndim then r.setDim 3 t.start3 t.count3 else r

/-! ## What the conversions keep -/

namespace RegionInfoTransfer

def start (t : RegionInfoTransfer) : Nat → UInt64
  | 0 => t.start0
  | 1 => t.start1
  | 2 => t.start2
  | _ => t.start3

def count (t : RegionInfoTransfer) : Nat → UInt64
  | 0 => t.count0
  | 1 => t.count1
  | 2 => t.count2
  | _ => t.count3

/-- A message has the dimensions of a region. -/
structure Carries (t : RegionInfoTransfer) (r : RegionInfo) : Prop where
  ndim : t.ndim = r.ndim
  start : ∀ i, i < r.ndim → t.start i = r.offset[i]!
  count : ∀ i, i < r.ndim → t.count i = r.size[i]!

end RegionInfoTransfer

/-- A server's region is the one that was sent, if one was. -/
def RegionList.Is (rc : RegionList) : Option RegionInfo → Prop
  | none => rc.ndim = 0
  | some r => rc.ndim = r.ndim ∧ rc.start.take r.ndim = r.offset ∧ rc.count.take r.ndim = r.size

theorem regionInfoToTransfer_carries {r : RegionInfo} (h₁ : 1 ≤ r.ndim) (h₄ : r.ndim ≤ 4)
    (t : RegionInfoTransfer) : (regionInfoToTransfer r t).Carries r := by
  rw [regionInfoToTransfer, if_neg (by omega)]
  refine ⟨rfl, fun i hi => ?_, fun i hi => ?_⟩
  · match i with
    | 0 => exact if_pos h₁
    | 1 => exact if_pos hi
    | 2 => exact if_pos hi
    | 3 => exact if_pos hi
    | _ + 4 => omega
  · match i with
    | 0 => exact if_pos h₁
    | 1 => exact if_pos hi
    | 2 => exact if_pos hi
    | 3 => exact if_pos hi
    | _ + 4 => omega

theorem exists_four {l : List UInt64} (h : l.length = 4) : ∃ a b c d, l = [a, b, c, d] := by
  match l, h with
  | [a, b, c, d], _ => exact ⟨a, b, c, d, rfl⟩

theorem regionTransferToList_take {t : RegionInfoTransfer} (h₁ : 1 ≤ t.ndim) (h₄ : t.ndim ≤ 4)
    (old : RegionList) :
    (regionTransferToList t old).ndim = t.ndim ∧
      (regionTransferToList t old).start.take t.ndim = (List.range t.ndim).map t.start ∧
      (regionTransferToList t old).count.take t.ndim = (List.range t.ndim).map t.count := by
  obtain ⟨_, start, count, hstart, hcount⟩ := old
  obtain ⟨_, _, _, _, rfl⟩ := exists_four hstart
  obtain ⟨_, _, _, _, rfl⟩ := exists_four hcount
  have hndim : t.ndim = 1 ∨ t.ndim = 2 ∨ t.ndim = 3 ∨ t.ndim = 4 := by omega
  obtain h | h | h | h := hndim <;>
    simp [regionTransferToList, RegionList.setDim, h, List.range_succ, RegionInfoTransfer.start,
      RegionInfoTransfer.count]

theorem map_range_getElem! {l : List UInt64} {n : Nat} (h : l.length = n) :
    (List.range n).map (fun i => l[i]!) = l := by
  refine List.ext_getElem (by simp [h]) fun i hi hi' => ?_
  rw [List.getElem_map, List.getElem_range, getElem!_pos l i hi']

theorem RegionInfoTransfer.Carries.is {t : RegionInfoTransfer} {r : RegionInfo} (h : t.Carries r)
    (h₁ : 1 ≤ r.ndim) (h₄ : r.ndim ≤ 4) (old : RegionList) :
    (regionTransferToList t old).Is (some r) := by
  have hstart : (List.range r.ndim).map t.start = r.offset :=
    (List.map_congr_left fun i hi => h.start i (List.mem_range.mp hi)).trans
      (map_range_getElem! r.offset_length)
  have hcount : (List.range r.ndim).map t.count = r.size :=
    (List.map_congr_left fun i hi => h.count i (List.mem_range.mp hi)).trans
      (map_range_getElem! r.size_length)
  have htake := regionTransferToList_take (h.ndim ▸ h₁) (h.ndim ▸ h₄) old
  rwa [h.ndim, hstart, hcount] at htake

/-- The dimensions a server's region has. -/
def RegionList.info (r : RegionList) : RegionInfo where
  ndim := r.ndim
  offset := (List.range r.ndim).map fun i => r.start[i]!
  size := (List.range r.ndim).map fun i => r.count[i]!
  offset_length := by simp
  size_length := by simp

/-- The dimensions a message has. -/
def RegionInfoTransfer.info (t : RegionInfoTransfer) : RegionInfo where
  ndim := t.ndim
  offset := (List.range t.ndim).map t.start
  size := (List.range t.ndim).map t.count
  offset_length := by simp
  size_length := by simp

theorem map_range_getElem!_take {l : List UInt64} {n : Nat} (h : n ≤ l.length) :
    (List.range n).map (fun i => l[i]!) = l.take n := by
  refine List.ext_getElem (by simp [h]) fun i hi _ => ?_
  have hi' : i < l.length := by
    rw [List.length_map, List.length_range] at hi
    omega
  rw [List.getElem_map, List.getElem_range, List.getElem_take, getElem!_pos l i hi']

theorem info_regionTransferToList {t : RegionInfoTransfer} (h₁ : 1 ≤ t.ndim) (h₄ : t.ndim ≤ 4)
    (old : RegionList) : (regionTransferToList t old).info = t.info := by
  obtain ⟨hndim, hstart, hcount⟩ := regionTransferToList_take h₁ h₄ old
  generalize regionTransferToList t old = r at hndim hstart hcount
  obtain ⟨n, start, count, hs, hc⟩ := r
  obtain rfl : n = t.ndim := hndim
  rw [RegionList.info, RegionInfoTransfer.info, RegionInfo.mk.injEq]
  refine ⟨rfl, ?_, ?_⟩
  · exact (map_range_getElem!_take (hs ▸ h₄)).trans hstart
  · exact (map_range_getElem!_take (hc ▸ h₄)).trans hcount

/-! ## Comparing regions -/

/-- The comparison of the dimensions of two regions. -/
def sameDims (a b : RegionInfo) : Bool :=
  a.ndim == b.ndim && (List.range a.ndim).all fun i =>
    a.offset[i]! == b.offset[i]! && a.size[i]! == b.size[i]!

/-- `PDC_is_same_region_list`, whether it is 1. -/
def isSameRegionList (a b : RegionInfo) : Bool := sameDims a b

/-- `is_overlap_1D`. -/
def isOverlap1D (xmin1 xmax1 xmin2 xmax2 : UInt64) : Bool :=
  decide (xmin2 ≤ xmax1) && decide (xmin1 ≤ xmax2)

/-- `is_region_identical`, whether it is 1. -/
def isRegionIdentical (a b : RegionInfo) : Bool := sameDims a b

theorem sameDims_iff {a b : RegionInfo} : sameDims a b = true ↔ a = b := by
  obtain ⟨n, off, size, hoff, hsize⟩ := a
  obtain ⟨n', off', size', hoff', hsize'⟩ := b
  have entries : ∀ {l l' : List UInt64}, l.length = n → l'.length = n →
      (∀ i, i < n → l[i]! = l'[i]!) → l = l' := by
    intro l l' hl hl' h
    refine List.ext_getElem (hl.trans hl'.symm) fun i hi hi' => ?_
    have hsame := h i (hl ▸ hi)
    rwa [getElem!_pos l i hi, getElem!_pos l' i hi'] at hsame
  simp only [sameDims, Bool.and_eq_true, beq_iff_eq, List.all_eq_true, List.mem_range,
    RegionInfo.mk.injEq]
  refine ⟨fun h => ?_, fun h => ?_⟩
  · obtain ⟨rfl, hdims⟩ := h
    exact ⟨rfl, entries hoff hoff' fun i hi => (hdims i hi).1,
      entries hsize hsize' fun i hi => (hdims i hi).2⟩
  · obtain ⟨rfl, rfl, rfl⟩ := h
    exact ⟨rfl, fun i _ => ⟨rfl, rfl⟩⟩

@[simp] theorem isSameRegionList_iff {a b : RegionInfo} : isSameRegionList a b = true ↔ a = b :=
  sameDims_iff

@[simp] theorem isRegionIdentical_iff {a b : RegionInfo} : isRegionIdentical a b = true ↔ a = b :=
  sameDims_iff

end Pdc
