import Pdc.Lib.RowMajor
import Pdc.Lib.Copies
import Pdc.Utils.Region

/-!
# What the region utilities do to cells

The source compares and clips regions array by array. Here a region is read
as the box of cells it names, and each utility is given the one fact its
callers need: the overlap test misses no common cell, the overlap it returns
is the intersection, the containment test is inclusion, and
`memcpyOverlapSubregion` moves exactly the overlap's cells.

The facts about 64-bit sums hold for regions that do not wrap, which is what
it means for a region to lie in an object: its extent is a `uint64_t` too.
-/

namespace Pdc

open List Lib

variable {n i o₂ x o b : Nat} {r r₂ ov : Region}

namespace Region

/-- No extent of the region passes the end of the 64-bit coordinates. -/
def NoWrap (n : Nat) (r : Region) : Prop := ∀ i < n, r.off i + r.len i < 2 ^ 64

instance (n : Nat) (r : Region) : Decidable (NoWrap n r) :=
  inferInstanceAs (Decidable (∀ i < n, r.off i + r.len i < 2 ^ 64))

/-- The cells of an `n`-dimensional object the region names. -/
def cells (n : Nat) (r : Region) : Set (Fin n → ℕ) :=
  Set.univ.pi fun i => Set.Ico (r.off i) (r.off i + r.len i)

theorem mem_cells {c : Fin n → ℕ} :
    c ∈ r.cells n ↔ ∀ i : Fin n, r.off i ≤ c i ∧ c i < r.off i + r.len i := by
  simp [cells, Set.mem_pi]

instance (n : Nat) (r : Region) (c : Fin n → ℕ) : Decidable (c ∈ r.cells n) :=
  decidable_of_iff _ mem_cells.symm

/-- One region inside another, dimension by dimension. -/
def Inside (n : Nat) (a b : Region) : Prop :=
  ∀ i < n, b.off i ≤ a.off i ∧ a.off i + a.len i ≤ b.off i + b.len i

instance (n : Nat) (a b : Region) : Decidable (Inside n a b) :=
  inferInstanceAs (Decidable (∀ i < n, b.off i ≤ a.off i ∧ a.off i + a.len i ≤ b.off i + b.len i))

/-- One region ends before the other starts in some dimension. -/
def Apart (n : Nat) (a b : Region) : Prop :=
  ∃ i < n, a.off i + a.len i ≤ b.off i ∨ b.off i + b.len i ≤ a.off i

instance (n : Nat) (a b : Region) : Decidable (Apart n a b) :=
  inferInstanceAs (Decidable (∃ i < n, a.off i + a.len i ≤ b.off i ∨ b.off i + b.len i ≤ a.off i))

theorem Apart.not_mem {a b : Region} (h : Apart n a b) {c : Fin n → ℕ}
    (hc : c ∈ a.cells n) : c ∉ b.cells n := by
  intro hc'
  obtain ⟨i, hi, hsep⟩ := h
  have h₁ := mem_cells.mp hc ⟨i, hi⟩
  have h₂ := mem_cells.mp hc' ⟨i, hi⟩
  dsimp only at h₁ h₂
  omega

theorem Inside.refl (n : Nat) (a : Region) : Inside n a a :=
  fun _ _ => ⟨Nat.le_refl _, Nat.le_refl _⟩

theorem Inside.cells_subset {a b : Region} (h : Inside n a b) :
    a.cells n ⊆ b.cells n := by
  intro c hc
  rw [mem_cells] at hc ⊢
  intro i
  have := h i i.isLt
  have := hc i
  omega

/-- Where a cell of the region sits in the region's buffer. -/
def index (n : Nat) (r : Region) (c : Fin n → ℕ) : Nat :=
  rowMajor ((List.finRange n).map fun i => (c i - r.off i, r.len i))

theorem index_one (r : Region) (c : Fin 1 → ℕ) : r.index 1 c = c 0 - r.off 0 := by
  simp [index, rowMajor, finRange_succ]

theorem index_two (r : Region) (c : Fin 2 → ℕ) :
    r.index 2 c = (c 0 - r.off 0) * r.len 1 + (c 1 - r.off 1) := by
  simp [index, rowMajor, finRange_succ]

theorem index_three (r : Region) (c : Fin 3 → ℕ) :
    r.index 3 c = ((c 0 - r.off 0) * r.len 1 + (c 1 - r.off 1)) * r.len 2 + (c 2 - r.off 2) := by
  simp [index, rowMajor, finRange_succ]

theorem count_one (r : Region) : r.count 1 = r.len 0 := by
  simp [count, range_succ]

theorem count_two (r : Region) : r.count 2 = r.len 0 * r.len 1 := by
  simp [count, range_succ]

theorem count_three (r : Region) : r.count 3 = r.len 0 * r.len 1 * r.len 2 := by
  simp [count, range_succ]

theorem writeSize_eq (hn : n = 1 ∨ n = 2 ∨ n = 3) (unit : Nat) (r : Region) :
    r.writeSize n unit = r.count n * unit := by
  rcases hn with rfl | rfl | rfl
  · rw [count_one]; simp [writeSize, Nat.mul_comm]
  · rw [count_two]; simp [writeSize]; ring
  · rw [count_three]; simp [writeSize]; ring

end Region

/-! ## The overlap test and the overlap -/

theorem getElem!_map_range (f : Nat → UInt64) (hi : i < n) :
    ((List.range n).map f)[i]! = f i := by
  simp [getElem!_eq_getElem?_getD, getElem?_range hi]

theorem toNat_sum (h : r.NoWrap n) (hi : i < n) :
    (r.offset[i]! + r.size[i]!).toNat = r.off i + r.len i := by
  rw [UInt64.toNat_add, Nat.mod_eq_of_lt]
  · rfl
  · exact h i hi

section

variable {n : Nat} {a b ov : Region} (ha : a.NoWrap n) (hb : b.NoWrap n)
include ha hb

theorem checkOverlap_iff :
    checkOverlap n a b = true ↔ ∀ i < n, (b.off i < a.off i + a.len i ∧ a.off i ≤ b.off i) ∨
        (a.off i < b.off i + b.len i ∧ b.off i ≤ a.off i) := by
  simp only [checkOverlap, all_eq_true, mem_range, Bool.or_eq_true, Bool.and_eq_true,
    decide_eq_true_eq, gt_iff_lt, ge_iff_le]
  refine forall₂_congr fun i hi => ?_
  rw [UInt64.lt_iff_toNat_lt, UInt64.lt_iff_toNat_lt, toNat_sum ha hi, toNat_sum hb hi]
  rfl

theorem checkOverlap_of_mem {c : Fin n → ℕ} (hca : c ∈ a.cells n) (hcb : c ∈ b.cells n) :
    checkOverlap n a b = true := by
  rw [checkOverlap_iff ha hb]
  intro i hi
  have h₁ := Region.mem_cells.mp hca ⟨i, hi⟩
  have h₂ := Region.mem_cells.mp hcb ⟨i, hi⟩
  dsimp only at h₁ h₂
  omega

section

variable (h : regionOverlapDetect n a b = some ov)
include h

theorem regionOverlapDetect_bounds :
    ∀ i < n, ov.off i = max (a.off i) (b.off i) ∧
      ov.off i + ov.len i = min (a.off i + a.len i) (b.off i + b.len i) := by
  intro i hi
  rw [regionOverlapDetect] at h
  split at h
  · next hov =>
    injection h with h
    subst h
    have hcase := (checkOverlap_iff ha hb).mp hov i hi
    have hlo : (if b.offset[i]! < a.offset[i]! then a.offset[i]! else b.offset[i]!).toNat =
        max (a.off i) (b.off i) := by
      split
      · next hlt =>
        have hlt' : b.off i < a.off i := UInt64.lt_iff_toNat_lt.mp hlt
        change a.off i = _
        omega
      · next hlt =>
        have hlt' : ¬ b.off i < a.off i := fun h => hlt (UInt64.lt_iff_toNat_lt.mpr h)
        change b.off i = _
        omega
    have hhi : (if b.offset[i]! + b.size[i]! < a.offset[i]! + a.size[i]! then
          b.offset[i]! + b.size[i]! else a.offset[i]! + a.size[i]!).toNat =
        min (a.off i + a.len i) (b.off i + b.len i) := by
      have hsum := @UInt64.lt_iff_toNat_lt (b.offset[i]! + b.size[i]!) (a.offset[i]! + a.size[i]!)
      rw [toNat_sum ha hi, toNat_sum hb hi] at hsum
      split
      · next hlt =>
        rw [toNat_sum hb hi]
        have := hsum.mp hlt
        omega
      · next hlt =>
        rw [toNat_sum ha hi]
        have : ¬ b.off i + b.len i < a.off i + a.len i := fun h => hlt (hsum.mpr h)
        omega
    rw [Region.off, Region.len]
    simp only [getElem!_map_range _ hi]
    rw [UInt64.toNat_sub_of_le _ _ (by rw [UInt64.le_iff_toNat_le, hlo, hhi]; omega)]
    omega
  · cases h

theorem regionOverlapDetect_inside : ov.Inside n a ∧ ov.Inside n b := by
  have hbounds := regionOverlapDetect_bounds ha hb h
  constructor <;> intro i hi <;> have := hbounds i hi <;> omega

theorem regionOverlapDetect_cells : ov.cells n = a.cells n ∩ b.cells n := by
  have hbounds := regionOverlapDetect_bounds ha hb h
  ext c
  simp only [Set.mem_inter_iff, Region.mem_cells, ← forall_and]
  refine forall_congr' fun i => ?_
  have := hbounds i i.isLt
  omega

end

theorem regionOverlapDetect_none (h : regionOverlapDetect n a b = none) {c : Fin n → ℕ}
    (hca : c ∈ a.cells n) : c ∉ b.cells n := by
  intro hcb
  rw [regionOverlapDetect, if_pos (checkOverlap_of_mem ha hb hca hcb)] at h
  cases h

theorem detectRegionContained_iff : detectRegionContained n a b = true ↔ a.Inside n b := by
  simp only [detectRegionContained, all_eq_true, mem_range, Bool.not_eq_true',
    Bool.or_eq_false_iff, decide_eq_false_iff_not, gt_iff_lt, UInt64.not_lt, Region.Inside]
  refine forall₂_congr fun i hi => ?_
  rw [UInt64.le_iff_toNat_le, UInt64.le_iff_toNat_le, toNat_sum ha hi, toNat_sum hb hi]
  rfl

end

/-! ## The copy

Each dimension count is a list of rows: where a row of the overlap starts in
the target, where it starts in the source, and how long it is. The three
lists differ, the argument about them does not. -/

/-- The rows `memcpyOverlapSubregion` copies, as element positions in the
target and in the source. -/
def overlapRows (n : Nat) (r r₂ ov : Region) : List (Nat × Nat) :=
  match n with
  | 1 => [(ov.off 0 - r₂.off 0, ov.off 0 - r.off 0)]
  | 2 =>
    (List.range (ov.len 0)).map fun i =>
      ((ov.off 0 - r₂.off 0 + i) * r₂.len 1 + (ov.off 1 - r₂.off 1),
        (ov.off 0 - r.off 0 + i) * r.len 1 + (ov.off 1 - r.off 1))
  | 3 =>
    (List.range (ov.len 0)).flatMap fun i => (List.range (ov.len 1)).map fun j =>
      (((ov.off 0 - r₂.off 0 + i) * r₂.len 1 + (ov.off 1 - r₂.off 1 + j)) * r₂.len 2
          + (ov.off 2 - r₂.off 2),
        ((ov.off 0 - r.off 0 + i) * r.len 1 + (ov.off 1 - r.off 1 + j)) * r.len 2
          + (ov.off 2 - r.off 2))
  | _ => []

section

variable {n unit : Nat} (hn : n = 1 ∨ n = 2 ∨ n = 3) {buf buf2 : List UInt8} {r r₂ ov : Region}
  (h : ov.Inside n r) (h₂ : ov.Inside n r₂)
include hn h h₂

theorem memcpyOverlapSubregion_eq_copyRows :
    memcpyOverlapSubregion n unit buf r buf2 r₂ ov =
      copyRows unit (ov.len (n - 1)) buf (overlapRows n r r₂ ov) buf2 := by
  rcases hn with rfl | rfl | rfl
  · simp [memcpyOverlapSubregion, overlapRows, Nat.mul_comm unit]
  · simp only [memcpyOverlapSubregion, overlapRows, copyRows, foldl_map,
      Nat.add_sub_assoc (h 1 (by omega)).1, Nat.add_sub_assoc (h₂ 1 (by omega)).1]
  · simp only [memcpyOverlapSubregion, overlapRows, copyRows, foldl_flatMap,
      foldl_map, Nat.add_sub_assoc (h 2 (by omega)).1,
      Nat.add_sub_assoc (h₂ 2 (by omega)).1]

theorem overlapRows_fit
    (hbuf : r.count n * unit ≤ buf.length) (hbuf2 : r₂.count n * unit ≤ buf2.length) :
    RowsFit unit (ov.len (n - 1)) buf buf2 (overlapRows n r r₂ ov) := by
  intro row hrow
  refine And.imp hbuf2.trans' hbuf.trans' ?_
  rcases hn with rfl | rfl | rfl
  · rw [overlapRows, mem_singleton] at hrow
    subst hrow
    have h0 := h 0 (by omega)
    have h0' := h₂ 0 (by omega)
    rw [Region.count_one, Region.count_one, Nat.sub_self]
    constructor <;> refine Nat.mul_le_mul_right unit ?_ <;> dsimp only <;> omega
  · obtain ⟨i, hi, rfl⟩ := mem_map.mp hrow
    rw [mem_range] at hi
    have h0 := h 0 (by omega)
    have h0' := h₂ 0 (by omega)
    have h1 := h 1 (by omega)
    have h1' := h₂ 1 (by omega)
    rw [Region.count_two, Region.count_two, Nat.add_one_sub_one]
    constructor <;> refine Nat.mul_le_mul_right unit ?_ <;>
      exact row_run_le (by omega) (by omega)
  · obtain ⟨i, hi, hrow⟩ := mem_flatMap.mp hrow
    obtain ⟨j, hj, rfl⟩ := mem_map.mp hrow
    rw [mem_range] at hi hj
    have h0 := h 0 (by omega)
    have h0' := h₂ 0 (by omega)
    have h1 := h 1 (by omega)
    have h1' := h₂ 1 (by omega)
    have h2 := h 2 (by omega)
    have h2' := h₂ 2 (by omega)
    rw [Region.count_three, Region.count_three, Nat.add_one_sub_one]
    constructor <;> refine Nat.mul_le_mul_right unit ?_ <;>
      refine row_run_le ?_ (by omega) <;>
      exact @row_run_le _ _ _ 1 _ (by omega) (by omega)

end

theorem sub_eq_add_of_sub_eq_add (ho : o ≤ b) (ho₂ : o₂ ≤ b) (hx : o₂ ≤ x)
    (h : x - o₂ = b - o₂ + i) : x = b + i ∧ x - o = b - o + i := by
  omega

theorem row_shift {p q : Nat} (ho : o ≤ b) (ho₂ : o₂ ≤ b) (hb : b ≤ x) :
    p + (b - o) + (q + (x - o₂) - (q + (b - o₂))) = p + (x - o) := by
  omega

/-- A row that covers a target cell's position is a row of the overlap at
that cell, and it fetches the cell from its position in the source. -/
theorem overlapRows_sound (hn : n = 1 ∨ n = 2 ∨ n = 3) (h : ov.Inside n r) (h₂ : ov.Inside n r₂)
    {c : Fin n → ℕ} (hc : c ∈ r₂.cells n) {row : Nat × Nat} (hrow : row ∈ overlapRows n r r₂ ov)
    (hlo : row.1 ≤ r₂.index n c) (hhi : r₂.index n c < row.1 + ov.len (n - 1)) :
    c ∈ ov.cells n ∧ row.2 + (r₂.index n c - row.1) = r.index n c := by
  rw [Region.mem_cells] at hc
  rcases hn with rfl | rfl | rfl
  · rw [overlapRows, mem_singleton] at hrow
    subst hrow
    have h0 := h 0 (by omega)
    have h0' := h₂ 0 (by omega)
    have hc0 : _ ∧ _ := hc 0
    simp only [Region.index_one, Region.mem_cells, Fin.forall_fin_one, Fin.val_zero,
      Nat.sub_self] at *
    omega
  · obtain ⟨i, hi, rfl⟩ := mem_map.mp hrow
    rw [mem_range] at hi
    have h0 := h 0 (by omega)
    have h0' := h₂ 0 (by omega)
    have h1 := h 1 (by omega)
    have h1' := h₂ 1 (by omega)
    simp only [Region.index_two, Region.mem_cells, Fin.forall_fin_two, Fin.val_zero,
      Fin.val_one, Nat.add_one_sub_one] at *
    obtain ⟨hx, hy, hy'⟩ := (row_mem_iff (by omega) (by omega)).mp ⟨hlo, hhi⟩
    obtain ⟨hc0, hx'⟩ := sub_eq_add_of_sub_eq_add h0.1 h0'.1 hc.1.1 hx
    have hb : ov.off 1 ≤ c 1 := (Nat.sub_le_sub_iff_right hc.2.1).mp hy
    rw [hx, hx']
    exact ⟨by omega, row_shift h1.1 h1'.1 hb⟩
  · obtain ⟨i, hi, hrow⟩ := mem_flatMap.mp hrow
    obtain ⟨j, hj, rfl⟩ := mem_map.mp hrow
    rw [mem_range] at hi hj
    have h0 := h 0 (by omega)
    have h0' := h₂ 0 (by omega)
    have h1 := h 1 (by omega)
    have h1' := h₂ 1 (by omega)
    have h2 := h 2 (by omega)
    have h2' := h₂ 2 (by omega)
    have hc0 : _ ∧ _ := hc 0
    have hc1 : _ ∧ _ := hc 1
    have hc2 : _ ∧ _ := hc 2
    simp only [Region.index_three, Region.mem_cells, Fin.forall_fin_succ, Fin.val_zero,
      Fin.succ_zero_eq_one, Fin.succ_one_eq_two, Fin.val_one, Fin.val_two,
      Nat.add_one_sub_one, IsEmpty.forall_iff, and_true] at *
    obtain ⟨hxy, hz, hz'⟩ := (row_mem_iff (by omega) (by omega)).mp ⟨hlo, hhi⟩
    obtain ⟨hx, hy⟩ := (row_eq_iff (by omega) (by omega)).mp hxy
    obtain ⟨hc0', hx'⟩ := sub_eq_add_of_sub_eq_add h0.1 h0'.1 hc0.1 hx
    obtain ⟨hc1', hy'⟩ := sub_eq_add_of_sub_eq_add h1.1 h1'.1 hc1.1 hy
    have hb : ov.off 2 ≤ c 2 := (Nat.sub_le_sub_iff_right hc2.1).mp hz
    rw [hx, hy, hx', hy']
    exact ⟨by omega, row_shift h2.1 h2'.1 hb⟩

theorem overlapRows_complete (hn : n = 1 ∨ n = 2 ∨ n = 3)
    (h₂ : ov.Inside n r₂) {c : Fin n → ℕ} (hc : c ∈ ov.cells n) :
    ∃ row ∈ overlapRows n r r₂ ov,
      row.1 ≤ r₂.index n c ∧ r₂.index n c < row.1 + ov.len (n - 1) := by
  rw [Region.mem_cells] at hc
  rcases hn with rfl | rfl | rfl
  · have h0' := h₂ 0 (by omega)
    have hc0 : _ ∧ _ := hc 0
    refine ⟨_, mem_singleton.mpr rfl, ?_⟩
    simp only [Region.index_one, Fin.val_zero, Nat.sub_self] at *
    omega
  · have h0' := h₂ 0 (by omega)
    have h1' := h₂ 1 (by omega)
    simp only [Region.index_two, Fin.forall_fin_two, Fin.val_zero, Fin.val_one,
      Nat.add_one_sub_one] at *
    refine ⟨_, mem_map.mpr ⟨c 0 - ov.off 0, mem_range.mpr (by omega), rfl⟩, ?_⟩
    exact (row_mem_iff (by omega) (by omega)).mpr ⟨by omega, by omega, by omega⟩
  · have h0' := h₂ 0 (by omega)
    have h1' := h₂ 1 (by omega)
    have h2' := h₂ 2 (by omega)
    have hc0 : _ ∧ _ := hc 0
    have hc1 : _ ∧ _ := hc 1
    have hc2 : _ ∧ _ := hc 2
    simp only [Region.index_three, Fin.val_zero, Fin.val_one, Fin.val_two, Nat.add_one_sub_one] at *
    refine ⟨_, mem_flatMap.mpr ⟨c 0 - ov.off 0, mem_range.mpr (by omega),
      mem_map.mpr ⟨c 1 - ov.off 1, mem_range.mpr (by omega), rfl⟩⟩, ?_⟩
    refine (row_mem_iff (by omega) (by omega)).mpr ⟨?_, by omega, by omega⟩
    exact (row_eq_iff (by omega) (by omega)).mpr ⟨by omega, by omega⟩

@[simp] theorem length_memcpyOverlapSubregion (n unit : Nat) (buf : List UInt8) (r : Region)
    (buf2 : List UInt8) (r₂ ov : Region) :
    (memcpyOverlapSubregion n unit buf r buf2 r₂ ov).length = buf2.length := by
  unfold memcpyOverlapSubregion
  split
  · exact length_memcpy ..
  · exact length_foldl (fun b i => length_memcpy ..) _ _
  · exact length_foldl (fun b i => length_foldl (fun b j => length_memcpy ..) _ _) _ _
  · rfl

/-- The copy, cell by cell: the target's cells inside the overlap take the
source's value, the others keep theirs. -/
theorem memcpyOverlapSubregion_elem {unit : Nat} (hn : n = 1 ∨ n = 2 ∨ n = 3)
    {buf buf2 : List UInt8} (h : ov.Inside n r) (h₂ : ov.Inside n r₂)
    (hbuf : r.count n * unit ≤ buf.length) (hbuf2 : r₂.count n * unit ≤ buf2.length)
    {c : Fin n → ℕ} (hc : c ∈ r₂.cells n) :
    (c ∈ ov.cells n → elem unit (memcpyOverlapSubregion n unit buf r buf2 r₂ ov) (r₂.index n c) =
        elem unit buf (r.index n c)) ∧
    (c ∉ ov.cells n → elem unit (memcpyOverlapSubregion n unit buf r buf2 r₂ ov) (r₂.index n c) =
        elem unit buf2 (r₂.index n c)) := by
  rw [memcpyOverlapSubregion_eq_copyRows hn h h₂, copyRows_elem (overlapRows_fit hn h h₂ hbuf hbuf2)
      fun row hrow hlo hhi => (overlapRows_sound hn h h₂ hc hrow hlo hhi).2]
  constructor
  · intro hov
    rw [if_pos (overlapRows_complete hn h₂ hov)]
  · intro hov
    rw [if_neg]
    rintro ⟨row, hrow, hlo, hhi⟩
    exact hov (overlapRows_sound hn h h₂ hc hrow hlo hhi).1

/-! ## Packing and unpacking a sub-region

`memcpySubregion` for a write packs a sub-region of one buffer into a buffer
of its own, and for a read it unpacks it. That is the overlap copy, with the
sub-region as the target or as the source. -/

theorem planePos_eq (x y z l₁ l₂ : Nat) : x * l₁ * l₂ + y * l₂ + z = (x * l₁ + y) * l₂ + z := by
  ring

section

variable {n unit : Nat} (hn : n = 1 ∨ n = 2 ∨ n = 3) {buf subBuf : List UInt8} {r ov : Region}
  (h : ov.Inside n r) {sub : List UInt64} (hsub : ∀ i < n, (sub[i]!).toNat = ov.off i - r.off i)
include hn h hsub

theorem memcpySubregion_write :
    memcpySubregion n unit .write buf r.size subBuf sub ov.size =
      (buf, memcpyOverlapSubregion n unit buf r subBuf ov ov) := by
  have hlen (a : Region) (i : Nat) : (a.size[i]!).toNat = a.len i := rfl
  rcases hn with rfl | rfl | rfl
  · simp only [memcpySubregion, memcpyOverlapSubregion, copyRow, if_true, hsub 0 (by omega), hlen,
      Nat.sub_self, Nat.zero_mul]
  · simp only [memcpySubregion, memcpyOverlapSubregion, hsub 0 (by omega), hsub 1 (by omega), hlen]
    refine foldl_hom (buf, ·) fun b i => ?_
    simp only [copyRow, if_true, Nat.sub_self, Nat.zero_add, Nat.add_sub_cancel,
      Nat.add_sub_assoc (h 1 (by omega)).1, Nat.mul_assoc]
  · simp only [memcpySubregion, memcpyOverlapSubregion, hsub 0 (by omega), hsub 1 (by omega),
      hsub 2 (by omega), hlen]
    refine foldl_hom (buf, ·) fun b i => foldl_hom (buf, ·) fun b j => ?_
    simp only [copyRow, if_true, Nat.sub_self, Nat.zero_add, Nat.add_sub_cancel, planePos_eq,
      Nat.add_sub_assoc (h 2 (by omega)).1]
    simp only [Nat.mul_assoc]

theorem memcpySubregion_read :
    memcpySubregion n unit .read buf r.size subBuf sub ov.size =
      (memcpyOverlapSubregion n unit subBuf ov buf r ov, subBuf) := by
  have hlen (a : Region) (i : Nat) : (a.size[i]!).toNat = a.len i := rfl
  rcases hn with rfl | rfl | rfl
  · simp only [memcpySubregion, memcpyOverlapSubregion, copyRow, reduceCtorEq, if_false,
      hsub 0 (by omega), hlen, Nat.sub_self, Nat.zero_mul]
  · simp only [memcpySubregion, memcpyOverlapSubregion, hsub 0 (by omega), hsub 1 (by omega), hlen]
    refine foldl_hom (·, subBuf) fun b i => ?_
    simp only [copyRow, reduceCtorEq, if_false, Nat.sub_self, Nat.zero_add, Nat.add_sub_cancel,
      Nat.add_sub_assoc (h 1 (by omega)).1, Nat.mul_assoc]
  · simp only [memcpySubregion, memcpyOverlapSubregion, hsub 0 (by omega), hsub 1 (by omega),
      hsub 2 (by omega), hlen]
    refine foldl_hom (·, subBuf) fun b i => foldl_hom (·, subBuf) fun b j => ?_
    simp only [copyRow, reduceCtorEq, if_false, Nat.sub_self, Nat.zero_add, Nat.add_sub_cancel,
      planePos_eq, Nat.add_sub_assoc (h 2 (by omega)).1]
    simp only [Nat.mul_assoc]

end

end Pdc
