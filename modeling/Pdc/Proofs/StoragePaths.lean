import Pdc.Proofs.RegionCells
import Pdc.Server.Data

/-!
# The storage paths agree

`PDC_Server_data_write_out` has six ways to patch a stored region and
`PDC_Server_data_read_from` as many to read one. Here they are shown to be
one: whichever is taken, the file afterwards is the file with the stored
region loaded, patched by `memcpy_overlap_subregion` and stored back, and the
buffer read is the one `memcpy_overlap_subregion` copies out of the stored
region's bytes.

The overlap is a list of rows. Row `k` starts at `rowStart` in the stored
region and in the request, and the ways differ only in how they group the
rows: all of them inside a loaded window, each on its own, or, when the rows
are whole rows of the stored region, as one block. A block is gathered into
a temporary first unless the rows are whole rows of the request too.

All of this needs the stored region's bytes to be in the file, which is
`StorageRegion.Backed`. When they are not, sieving writes back bytes of its
uninitialised temporary and the paths come apart.
-/

namespace Pdc

open List Lib

variable {n unit k : Nat} {r ov : Region} {bytes : List UInt8} (junk : Nat → UInt8)

/-! ## Rows -/

def rowStart (n : Nat) (r ov : Region) (k : Nat) : Nat :=
  match n with
  | 1 => ov.off 0 - r.off 0
  | 2 => (ov.off 0 - r.off 0 + k) * r.len 1 + (ov.off 1 - r.off 1)
  | 3 =>
    ((ov.off 0 - r.off 0 + k / ov.len 1) * r.len 1 + (ov.off 1 - r.off 1 + k % ov.len 1))
        * r.len 2 + (ov.off 2 - r.off 2)
  | _ => 0

def rowCount (n : Nat) (ov : Region) : Nat :=
  match n with
  | 1 => 1
  | 2 => ov.len 0
  | 3 => ov.len 0 * ov.len 1
  | _ => 0

/-- The overlap is as wide as the region in every dimension but the first, so
its rows are whole rows of the region. -/
def Region.Spans (n : Nat) (ov r : Region) : Prop :=
  ∀ i < n, 0 < i → ov.off i = r.off i ∧ ov.len i = r.len i

theorem Region.Spans.refl (n : Nat) (r : Region) : Region.Spans n r r := fun _ _ _ => ⟨rfl, rfl⟩

theorem rowStart_two_spans (h : ov.Spans 2 r) :
    rowStart 2 r ov 0 = (ov.off 0 - r.off 0) * r.len 1 := by
  simp [rowStart, (h 1 (by omega) (by omega)).1]

theorem rowStart_three_spans (h : ov.Spans 3 r) :
    rowStart 3 r ov 0 = (ov.off 0 - r.off 0) * r.len 1 * r.len 2 := by
  simp [rowStart, (h 1 (by omega) (by omega)).1, (h 2 (by omega) (by omega)).1]

theorem Region.spans_two (h : ov.off 1 = r.off 1 ∧ ov.len 1 = r.len 1) : ov.Spans 2 r := by
  intro i hi hpos
  have hi1 : i = 1 := by omega
  subst hi1
  exact h

theorem Region.spans_three
    (h : ov.off 2 = r.off 2 ∧ ov.len 2 = r.len 2 ∧ ov.off 1 = r.off 1 ∧ ov.len 1 = r.len 1) :
    ov.Spans 3 r := by
  intro i hi hpos
  have hi' : i = 1 ∨ i = 2 := by omega
  rcases hi' with rfl | rfl
  · exact h.2.2
  · exact ⟨h.1, h.2.1⟩

section Rows

variable (hn : n = 1 ∨ n = 2 ∨ n = 3)
include hn

theorem overlapRows_eq_range (r r₂ ov : Region) :
    overlapRows n r r₂ ov =
      (range (rowCount n ov)).map fun k => (rowStart n r₂ ov k, rowStart n r ov k) := by
  rcases hn with rfl | rfl | rfl
  · rfl
  · rfl
  · simp only [overlapRows, rowStart, rowCount]
    exact range_flatMap_map (ov.len 0) (ov.len 1) fun i j =>
      (((ov.off 0 - r₂.off 0 + i) * r₂.len 1 + (ov.off 1 - r₂.off 1 + j)) * r₂.len 2
          + (ov.off 2 - r₂.off 2),
        ((ov.off 0 - r.off 0 + i) * r.len 1 + (ov.off 1 - r.off 1 + j)) * r.len 2
          + (ov.off 2 - r.off 2))

theorem count_eq_rows (ov : Region) : ov.count n = rowCount n ov * ov.len (n - 1) := by
  rcases hn with rfl | rfl | rfl
  · rw [Region.count_one, rowCount, Nat.one_mul]
  · exact Region.count_two ov
  · exact Region.count_three ov

theorem rowStart_spans (h : ov.Spans n r) (hk : k < rowCount n ov) :
    rowStart n r ov k = rowStart n r ov 0 + k * ov.len (n - 1) := by
  rcases hn with rfl | rfl | rfl
  · have hk0 : k = 0 := by rw [rowCount] at hk; omega
    subst hk0
    simp
  · have h1 := h 1 (by omega) (by omega)
    simp only [rowStart, h1.1, h1.2, Nat.sub_self, Nat.add_zero]
    rw [Nat.add_mul]
  · have h1 := h 1 (by omega) (by omega)
    have h2 := h 2 (by omega) (by omega)
    simp only [rowStart, h1.1, h1.2, h2.1, h2.2, Nat.sub_self, Nat.add_zero, Nat.zero_add,
      Nat.zero_div, Nat.zero_mod]
    rw [← Nat.add_mul]
    congr 1
    rw [Nat.add_mul, Nat.add_assoc, Nat.mul_comm (k / r.len 1), Nat.div_add_mod]

theorem rowStart_self (hk : k < rowCount n ov) : rowStart n ov ov k = k * ov.len (n - 1) := by
  rw [rowStart_spans hn (Region.Spans.refl n ov) hk]
  rcases hn with rfl | rfl | rfl <;> simp [rowStart]

theorem rowStart_block_le (hin : ov.Inside n r) (h : ov.Spans n r) :
    rowStart n r ov 0 + ov.count n ≤ r.count n := by
  have h0 := hin 0 (by omega)
  rcases hn with rfl | rfl | rfl
  · rw [Region.count_one, Region.count_one, rowStart]
    omega
  · have h1 := h 1 (by omega) (by omega)
    simp only [rowStart, Region.count_two, h1.1, h1.2, Nat.sub_self, Nat.add_zero]
    rw [← Nat.add_mul]
    exact Nat.mul_le_mul_right _ (by omega)
  · have h1 := h 1 (by omega) (by omega)
    have h2 := h 2 (by omega) (by omega)
    simp only [rowStart, Region.count_three, h1.1, h1.2, h2.1, h2.2, Nat.sub_self, Nat.add_zero,
      Nat.zero_div, Nat.zero_mod]
    rw [← Nat.add_mul, ← Nat.add_mul]
    exact Nat.mul_le_mul_right _ (Nat.mul_le_mul_right _ (by omega))

theorem rowStart_le (h : ov.Inside n r) (hk : k < rowCount n ov) :
    rowStart n r ov k + ov.len (n - 1) ≤ r.count n := by
  have hfit := @overlapRows_fit n 1 hn (replicate (r.count n) 0)
    (replicate (r.count n) 0) r r ov h h (by simp) (by simp)
  have hrow := (hfit (rowStart n r ov k, rowStart n r ov k) (by
    rw [overlapRows_eq_range hn]
    exact mem_map.mpr ⟨k, mem_range.mpr hk, rfl⟩)).1
  simpa using hrow

variable (unit)

theorem rowStart_bytes_le (h : ov.Inside n r) (hk : k < rowCount n ov) :
    rowStart n r ov k * unit + ov.len (n - 1) * unit ≤ r.count n * unit := by
  rw [← Nat.add_mul]
  exact Nat.mul_le_mul_right _ (rowStart_le hn h hk)

theorem rowStart_block_bytes_le (hin : ov.Inside n r) (h : ov.Spans n r) :
    rowStart n r ov 0 * unit + ov.count n * unit ≤ r.count n * unit := by
  rw [← Nat.add_mul]
  exact Nat.mul_le_mul_right _ (rowStart_block_le hn hin h)

theorem rowStart_spans_bytes (h : ov.Spans n r) (hk : k < rowCount n ov) :
    rowStart n r ov k * unit = rowStart n r ov 0 * unit + k * (ov.len (n - 1) * unit) := by
  rw [rowStart_spans hn h hk, Nat.add_mul, Nat.mul_assoc]

end Rows

/-! ## The patch -/

/-- The stored region names cells of the object and its bytes are in the file. -/
structure StorageRegion.Backed (n unit : Nat) (bytes : List UInt8) (sr : StorageRegion) :
    Prop where
  noWrap : sr.region.NoWrap n
  dataSize_eq : sr.dataSize = sr.region.count n * unit
  fits : sr.offset + sr.dataSize ≤ bytes.length

/-- The file with the overlap of a request patched into a stored region. -/
def StorageRegion.patch (n unit : Nat) (bytes : List UInt8) (sr : StorageRegion)
    (info : Region) (buf : List UInt8) (ov : Region) : List UInt8 :=
  memcpy bytes sr.offset
    (memcpyOverlapSubregion n unit buf info (slice bytes sr.offset sr.dataSize) sr.region ov) 0
    sr.dataSize

/-- What every way to patch or read relies on: the stored region is backed,
the request's buffer holds its cells, and the overlap lies in both. -/
structure StorageRegion.Meets (n unit : Nat) (bytes : List UInt8) (sr : StorageRegion)
    (info : Region) (buf : List UInt8) (ov : Region) : Prop where
  dim : n = 1 ∨ n = 2 ∨ n = 3
  backed : sr.Backed n unit bytes
  length_eq : buf.length = info.count n * unit
  inside : ov.Inside n info
  inStored : ov.Inside n sr.region

variable {f : File} {sr : StorageRegion} {info : Region} {buf : List UInt8} {m s : Nat}

namespace StorageRegion.Meets

variable (h : sr.Meets n unit bytes info buf ov)
include h

theorem fits : sr.offset + sr.region.count n * unit ≤ bytes.length :=
  h.backed.dataSize_eq ▸ h.backed.fits

theorem dataSize_le : sr.region.count n * unit ≤ (slice bytes sr.offset sr.dataSize).length := by
  rw [length_slice h.backed.fits, h.backed.dataSize_eq]

theorem row_fits : ∀ k ∈ range (rowCount n ov),
    sr.offset + rowStart n sr.region ov k * unit + ov.len (n - 1) * unit ≤ bytes.length ∧
      rowStart n info ov k * unit + ov.len (n - 1) * unit ≤ buf.length := by
  intro k hk
  rw [mem_range] at hk
  have hle := rowStart_bytes_le unit h.dim h.inStored hk
  have hle' := rowStart_bytes_le unit h.dim h.inside hk
  have hfits := h.fits
  have hbuf := h.length_eq
  omega

theorem block_fits (hspan : ov.Spans n sr.region) :
    sr.offset + rowStart n sr.region ov 0 * unit + ov.count n * unit ≤ bytes.length := by
  have hle := rowStart_block_bytes_le unit h.dim h.inStored hspan
  have hfits := h.fits
  omega

theorem block_fits_buf (hspan : ov.Spans n info) :
    rowStart n info ov 0 * unit + ov.count n * unit ≤ buf.length := by
  rw [h.length_eq]
  exact rowStart_block_bytes_le unit h.dim h.inside hspan

theorem patch_eq_rows :
    sr.patch n unit bytes info buf ov = (range (rowCount n ov)).foldl (fun b k =>
        memcpy b (sr.offset + rowStart n sr.region ov k * unit) buf
          (rowStart n info ov k * unit) (ov.len (n - 1) * unit)) bytes := by
  have hrows := overlapRows_fit h.dim h.inside h.inStored h.length_eq.ge h.dataSize_le
  rw [RowsFit, length_slice h.backed.fits] at hrows
  rw [StorageRegion.patch, memcpyOverlapSubregion_eq_copyRows h.dim h.inside h.inStored,
    memcpy_copyRows_window h.backed.fits hrows, overlapRows_eq_range h.dim, foldl_map]

theorem patch_eq_block (hspan : ov.Spans n sr.region) (hspan' : ov.Spans n info) :
    sr.patch n unit bytes info buf ov =
      memcpy bytes (sr.offset + rowStart n sr.region ov 0 * unit) buf
        (rowStart n info ov 0 * unit) (ov.count n * unit) := by
  have hle := h.block_fits hspan
  have hle' := h.block_fits_buf hspan'
  rw [count_eq_rows h.dim, Nat.mul_assoc] at hle hle' ⊢
  rw [h.patch_eq_rows, ← foldl_memcpy_contiguous hle hle']
  refine foldl_ext _ _ _ fun b k hk => ?_
  rw [mem_range] at hk
  rw [rowStart_spans_bytes unit h.dim hspan hk, rowStart_spans_bytes unit h.dim hspan' hk,
    Nat.add_assoc]

theorem patch_eq_gather {tmp : List UInt8} (hspan : ov.Spans n sr.region)
    (htmp : tmp.length = ov.count n * unit) :
    sr.patch n unit bytes info buf ov = memcpy bytes (sr.offset + rowStart n sr.region ov 0 * unit)
        (memcpyOverlapSubregion n unit buf info tmp ov ov) 0 (ov.count n * unit) := by
  have hle := h.block_fits hspan
  have hblock : memcpyOverlapSubregion n unit buf info tmp ov ov =
      (range (rowCount n ov)).foldl (fun b k => memcpy b (k * (ov.len (n - 1) * unit)) buf
        (rowStart n info ov k * unit) (ov.len (n - 1) * unit)) tmp := by
    rw [memcpyOverlapSubregion_eq_copyRows h.dim h.inside (Region.Inside.refl n ov),
      overlapRows_eq_range h.dim, copyRows, foldl_map]
    refine foldl_ext _ _ _ fun b k hk => ?_
    rw [rowStart_self h.dim (mem_range.mp hk), Nat.mul_assoc]
  rw [count_eq_rows h.dim, Nat.mul_assoc] at htmp hle ⊢
  rw [hblock, memcpy_gather hle htmp.ge fun k hk => (h.row_fits k (mem_range.mpr hk)).2,
    h.patch_eq_rows]
  refine foldl_ext _ _ _ fun b k hk => ?_
  rw [rowStart_spans_bytes unit h.dim hspan (mem_range.mp hk), Nat.add_assoc]

end StorageRegion.Meets

/-! ### The ways to write it

Each lands on the patch and succeeds. The descriptor's position afterwards
depends on the way; every later use seeks first. -/

theorem foldl_serverPosixWrite {σ : Type} {g : File → σ} {step : σ → Nat → σ}
    {dst src : Nat → Nat}
    (hstep : ∀ f k, src k + m ≤ buf.length → dst k + m ≤ f.bytes.length →
      step (g f) k = g (serverPosixWrite (f.seekSet (dst k)) buf (src k) m).1) :
    ∀ {ks : List Nat} {f : File}, (∀ k ∈ ks, dst k + m ≤ f.bytes.length ∧ src k + m ≤ buf.length) →
      ∃ pos, ks.foldl step (g f) =
        g { bytes := ks.foldl (fun b k => memcpy b (dst k) buf (src k) m) f.bytes, pos } := by
  intro ks
  induction ks with
  | nil => intro f _; exact ⟨f.pos, rfl⟩
  | cons k ks ih =>
    intro f h
    have hk := h k (by simp)
    rw [foldl_cons, hstep f k hk.2 hk.1, serverPosixWrite_inside hk.2 hk.1]
    refine ih fun j hj => ?_
    rw [length_memcpy]
    exact h j (mem_cons_of_mem _ hj)

theorem writeOverlapSieving_eq (hback : sr.Backed n unit f.bytes) :
    ∃ pos, writeOverlapSieving junk n unit f sr info buf ov =
      ({ bytes := sr.patch n unit f.bytes info buf ov, pos }, .succeed) := by
  have hload : preadInto f (malloc junk sr.dataSize) 0 sr.dataSize sr.offset =
      slice f.bytes sr.offset sr.dataSize := by
    rw [preadInto_inside hback.fits (by simp), memcpy_full (by simp) hback.fits]
  rw [writeOverlapSieving, hload]
  refine ⟨_, serverPosixWrite_inside ?_ hback.fits⟩
  rw [length_memcpyOverlapSubregion, length_slice hback.fits, Nat.zero_add]

section Write

variable (h : sr.Meets n unit f.bytes info buf ov) {pos : Nat}
include h

theorem serverPosixWrite_gather (hspan : ov.Spans n sr.region)
    (hpos : pos = sr.offset + rowStart n sr.region ov 0 * unit) :
    ∃ pos', serverPosixWrite (f.seekSet pos)
        (memcpyOverlapSubregion n unit buf info (malloc junk (ov.count n * unit)) ov ov) 0
        (ov.count n * unit) =
      ({ bytes := sr.patch n unit f.bytes info buf ov, pos := pos' }, .succeed) := by
  subst hpos
  rw [h.patch_eq_gather hspan (length_malloc junk _)]
  refine ⟨_, serverPosixWrite_inside ?_ (h.block_fits hspan)⟩
  rw [length_memcpyOverlapSubregion, length_malloc, Nat.zero_add]

theorem serverPosixWrite_block (hspan : ov.Spans n sr.region)
    (hspan' : ov.Spans n info) (hpos : pos = sr.offset + rowStart n sr.region ov 0 * unit)
    (hs : s = rowStart n info ov 0 * unit) :
    ∃ pos', serverPosixWrite (f.seekSet pos) buf s (ov.count n * unit) =
      ({ bytes := sr.patch n unit f.bytes info buf ov, pos := pos' }, .succeed) := by
  subst hpos hs
  rw [h.patch_eq_block hspan hspan']
  exact ⟨_, serverPosixWrite_inside (h.block_fits_buf hspan') (h.block_fits hspan)⟩

end Write

theorem Region.spans_one (ov r : Region) : ov.Spans 1 r := by
  intro i hi hpos
  omega

theorem writeOverlap1D_eq (h : sr.Meets 1 unit f.bytes info buf ov)
    (hpos : (ov.off 0 - sr.region.off 0) * unit ≤ info.writeSize 1 unit) :
    ∃ pos, writeOverlap1D unit f sr info buf ov =
      ({ bytes := sr.patch 1 unit f.bytes info buf ov, pos }, .succeed) := by
  rw [writeOverlap1D, if_neg (by omega), ← Region.count_one]
  exact serverPosixWrite_block h (ov.spans_one _) (ov.spans_one _) rfl rfl

theorem writeOverlap2D_eq (h : sr.Meets 2 unit f.bytes info buf ov) :
    ∃ pos, writeOverlap2D junk unit f sr info buf ov =
      ({ bytes := sr.patch 2 unit f.bytes info buf ov, pos }, .succeed) := by
  rw [writeOverlap2D, ← Region.count_two]
  split
  · next hspan =>
    have hspan := Region.spans_two hspan
    split
    · next hspan' =>
      have hspan' := Region.spans_two hspan'
      exact serverPosixWrite_block h hspan hspan' (by rw [rowStart_two_spans hspan])
        (by rw [rowStart_two_spans hspan'])
    · exact serverPosixWrite_gather junk h hspan (by rw [rowStart_two_spans hspan])
  · rw [h.patch_eq_rows]
    simp only [Nat.add_sub_assoc (h.inside 1 (by omega)).1,
      Nat.add_sub_assoc (h.inStored 1 (by omega)).1]
    -- A round whose write is inside the file goes on to the next one.
    refine foldl_serverPosixWrite (g := (·, Perr.succeed)) (fun f k hs hd => ?_) h.row_fits
    have hwrite := serverPosixWrite_inside (f := f.seekSet _) hs hd
    exact hwrite.trans (by rw [hwrite])

theorem writeOverlap3D_eq (h : sr.Meets 3 unit f.bytes info buf ov) :
    ∃ pos, writeOverlap3D junk unit f sr info buf ov =
      ({ bytes := sr.patch 3 unit f.bytes info buf ov, pos }, .succeed) := by
  rw [writeOverlap3D, ← Region.count_three]
  split
  · next hspan =>
    have hspan := Region.spans_three hspan
    split
    · next hspan' =>
      have hspan' := Region.spans_three hspan'
      obtain ⟨pos, h⟩ := serverPosixWrite_block h hspan hspan' rfl rfl
      rw [rowStart_three_spans hspan, rowStart_three_spans hspan'] at h
      exact ⟨pos, congrArg (fun st => (st.1, Perr.succeed)) h⟩
    · obtain ⟨pos, h⟩ := serverPosixWrite_gather junk h hspan rfl
      rw [rowStart_three_spans hspan] at h
      exact ⟨pos, congrArg (fun st => (st.1, Perr.succeed)) h⟩
  · rw [h.patch_eq_rows]
    simp only [Nat.add_sub_assoc (h.inside 2 (by omega)).1,
      Nat.add_sub_assoc (h.inStored 2 (by omega)).1]
    rw [foldl_range_range]
    refine (foldl_serverPosixWrite (g := id) (fun f k _ _ => ?_) h.row_fits).imp
      fun pos hrows => congrArg (·, Perr.succeed) hrows
    rfl

/-- Every way of `PDC_Server_data_write_out` to patch a stored region is the
patch. In one dimension the source's sanity check has to let it through. -/
theorem writeOverlap_eq (sieving : Bool) (h : sr.Meets n unit f.bytes info buf ov)
    (hpos : n = 1 → (ov.off 0 - sr.region.off 0) * unit ≤ info.writeSize 1 unit) :
    ∃ pos, writeOverlap sieving junk n unit f sr info buf ov =
      ({ bytes := sr.patch n unit f.bytes info buf ov, pos }, .succeed) := by
  rw [writeOverlap]
  split
  · next h1 =>
    subst h1
    exact writeOverlap1D_eq h (hpos rfl)
  · next h1 =>
    split
    · exact writeOverlapSieving_eq junk h.backed
    · rcases h.dim with rfl | rfl | rfl
      · exact absurd rfl h1
      · exact writeOverlap2D_eq junk h
      · exact writeOverlap3D_eq junk h

/-! ## Reading -/

theorem readLarge_eq : ∀ {fuel : Nat} {tmp : List UInt8} {bufOff regOff leftover readSize : Nat},
    regOff + leftover ≤ f.bytes.length → bufOff + leftover ≤ tmp.length →
    readSize ≤ leftover → leftover ≤ fuel * readSize →
    readLarge f fuel tmp bufOff regOff leftover readSize =
      memcpy tmp bufOff f.bytes regOff leftover := by
  intro fuel
  induction fuel with
  | zero =>
    intro tmp bufOff regOff leftover readSize _ _ _ hfuel
    have h0 : leftover = 0 := by omega
    subst h0
    rw [readLarge, memcpy_zero]
  | succ fuel ih =>
    intro tmp bufOff regOff leftover readSize hf hb hle hfuel
    rw [readLarge]
    split
    · rw [Nat.add_mul] at hfuel
      rw [preadInto_inside (by omega) (by omega), ih]
      · rw [memcpy_memcpy_adjacent (by omega) (by omega)]
        congr 1
        omega
      · omega
      · rw [length_memcpy]; omega
      · split <;> omega
      · -- The last piece is shorter; one more round is left for it.
        split
        · rcases Nat.eq_zero_or_pos fuel with rfl | hpos
          · omega
          · exact Nat.le_mul_of_pos_left _ hpos
        · omega
    · next h0 =>
      rw [show leftover = 0 by omega, memcpy_zero]

theorem readOverlapSieving_eq (hback : sr.Backed n unit f.bytes) :
    readOverlapSieving junk n unit f sr info buf ov =
      memcpyOverlapSubregion n unit (slice f.bytes sr.offset sr.dataSize) sr.region buf info
        ov := by
  rw [readOverlapSieving]
  congr 1
  split
  · next hlarge =>
    have hfuel : sr.dataSize ≤ (sr.dataSize / readMax + 1) * readMax := by
      rw [readMax] at *
      omega
    rw [readLarge_eq hback.fits (by simp) (by omega) hfuel, memcpy_full (by simp) hback.fits]
  · rw [preadInto_inside hback.fits (by simp), memcpy_full (by simp) hback.fits]

theorem foldl_preadInto {dst src : Nat → Nat} :
    ∀ {ks : List Nat} {buf : List UInt8},
      (∀ k ∈ ks, src k + m ≤ f.bytes.length ∧ dst k + m ≤ buf.length) →
      ks.foldl (fun b k => preadInto f b (dst k) m (src k)) buf =
        ks.foldl (fun b k => memcpy b (dst k) f.bytes (src k) m) buf := by
  intro ks
  induction ks with
  | nil => intro buf _; rfl
  | cons k ks ih =>
    intro buf h
    have hk := h k (by simp)
    rw [foldl_cons, preadInto_inside hk.1 hk.2]
    refine ih fun j hj => ?_
    rw [length_memcpy]
    exact h j (mem_cons_of_mem _ hj)

section Read

variable (h : sr.Meets n unit f.bytes info buf ov) {off : Nat}
include h

theorem read_eq_rows :
    memcpyOverlapSubregion n unit (slice f.bytes sr.offset sr.dataSize) sr.region buf info ov =
      (range (rowCount n ov)).foldl (fun b k =>
        memcpy b (rowStart n info ov k * unit) f.bytes
          (sr.offset + rowStart n sr.region ov k * unit) (ov.len (n - 1) * unit)) buf := by
  have hrows := overlapRows_fit h.dim h.inStored h.inside h.dataSize_le h.length_eq.ge
  rw [RowsFit, length_slice h.backed.fits] at hrows
  rw [memcpyOverlapSubregion_eq_copyRows h.dim h.inStored h.inside,
    copyRows_slice_src h.backed.fits hrows, overlapRows_eq_range h.dim, foldl_map]

theorem preadInto_block (hspan : ov.Spans n sr.region) (hspan' : ov.Spans n info)
    (hoff : off = sr.offset + rowStart n sr.region ov 0 * unit)
    (hs : s = rowStart n info ov 0 * unit) :
    preadInto f buf s (ov.count n * unit) off =
      memcpyOverlapSubregion n unit (slice f.bytes sr.offset sr.dataSize) sr.region buf info
        ov := by
  subst hoff hs
  have hle := h.block_fits hspan
  have hle' := h.block_fits_buf hspan'
  rw [preadInto_inside hle hle', read_eq_rows h]
  rw [count_eq_rows h.dim, Nat.mul_assoc] at hle hle' ⊢
  rw [← foldl_memcpy_contiguous hle' hle]
  refine foldl_ext _ _ _ fun b k hk => ?_
  rw [mem_range] at hk
  rw [rowStart_spans_bytes unit h.dim hspan hk, rowStart_spans_bytes unit h.dim hspan' hk,
    Nat.add_assoc]

theorem preadInto_scatter (hspan : ov.Spans n sr.region)
    (hoff : off = sr.offset + rowStart n sr.region ov 0 * unit) :
    memcpyOverlapSubregion n unit
        (preadInto f (malloc junk (ov.count n * unit)) 0 (ov.count n * unit) off) ov buf info ov =
      memcpyOverlapSubregion n unit (slice f.bytes sr.offset sr.dataSize) sr.region buf info
        ov := by
  subst hoff
  have hle := h.block_fits hspan
  have hrows := overlapRows_fit h.dim (Region.Inside.refl n ov) h.inside (length_slice hle).ge
    h.length_eq.ge
  rw [RowsFit, length_slice hle] at hrows
  rw [preadInto_inside hle (by simp), memcpy_full (by simp) hle,
    memcpyOverlapSubregion_eq_copyRows h.dim (Region.Inside.refl n ov) h.inside,
    copyRows_slice_src hle hrows, overlapRows_eq_range h.dim, foldl_map, read_eq_rows h]
  refine foldl_ext _ _ _ fun b k hk => ?_
  rw [mem_range] at hk
  rw [rowStart_self h.dim hk, rowStart_spans_bytes unit h.dim hspan hk, Nat.add_assoc,
    Nat.mul_assoc]

end Read

theorem readOverlap2D_eq (h : sr.Meets 2 unit f.bytes info buf ov) :
    readOverlap2D junk unit f sr info buf ov =
      memcpyOverlapSubregion 2 unit (slice f.bytes sr.offset sr.dataSize) sr.region buf info
        ov := by
  rw [readOverlap2D, ← Region.count_two]
  split
  · next hspan =>
    have hspan := Region.spans_two hspan
    split
    · next hspan' =>
      have hspan' := Region.spans_two hspan'
      exact preadInto_block h hspan hspan' (by rw [rowStart_two_spans hspan])
        (by rw [rowStart_two_spans hspan'])
    · exact preadInto_scatter junk h hspan (by rw [rowStart_two_spans hspan])
  · rw [read_eq_rows h]
    simp only [Nat.add_sub_assoc (h.inside 1 (by omega)).1,
      Nat.add_sub_assoc (h.inStored 1 (by omega)).1]
    exact foldl_preadInto h.row_fits

theorem readOverlap3D_eq (h : sr.Meets 3 unit f.bytes info buf ov) :
    readOverlap3D junk unit f sr info buf ov =
      memcpyOverlapSubregion 3 unit (slice f.bytes sr.offset sr.dataSize) sr.region buf info
        ov := by
  rw [readOverlap3D, ← Region.count_three]
  split
  · next hspan =>
    have hspan := Region.spans_three hspan
    split
    · next hspan' =>
      have hspan' := Region.spans_three hspan'
      exact preadInto_block h hspan hspan' (by rw [rowStart_three_spans hspan])
        (by rw [rowStart_three_spans hspan'])
    · exact preadInto_scatter junk h hspan (by rw [rowStart_three_spans hspan])
  · rw [read_eq_rows h]
    simp only [Nat.add_sub_assoc (h.inside 2 (by omega)).1,
      Nat.add_sub_assoc (h.inStored 2 (by omega)).1]
    rw [foldl_range_range]
    exact foldl_preadInto h.row_fits

/-- Every way of `PDC_Server_data_read_from` to read a stored region is the
copy out of its bytes. -/
theorem readOverlap_eq (sieving : Bool) (h : sr.Meets n unit f.bytes info buf ov) :
    readOverlap sieving junk n unit f sr info buf ov =
      memcpyOverlapSubregion n unit (slice f.bytes sr.offset sr.dataSize) sr.region buf info
        ov := by
  rw [readOverlap]
  split
  · next h1 =>
    subst h1
    rw [← Region.count_one]
    exact preadInto_block h (ov.spans_one _) (ov.spans_one _) rfl rfl
  · next h1 =>
    split
    · exact readOverlapSieving_eq junk h.backed
    · rcases h.dim with rfl | rfl | rfl
      · exact absurd rfl h1
      · exact readOverlap2D_eq junk h
      · exact readOverlap3D_eq junk h

end Pdc
