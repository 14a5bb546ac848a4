import Pdc.Client.StartAll
import Pdc.Server.RequestAll
import Pdc.Lib.Words
import Mathlib.Data.List.Induction

/-!
# The format of aggregated requests

The client's two loops and the server's two loops agree on every field, so the
server reads back what was packed as long as all of it is in the buffer. That
is a question about sizes only. The client reserves three arrays of
`remote_region_ndim` numbers for each package and writes two of them and one of
`obj_ndim` numbers, and nothing makes the object and the region have the same
number of dimensions. `packFits_iff` says when the buffer is large enough.
-/

namespace Pdc

open List Lib

variable {access : Access} {p : StartAllPkg}

/-! ## Filling the buffer -/

theorem memcpyInc_foldl_snd : ∀ (chunks : List Bytes) (st : Bytes × Nat),
    (chunks.foldl memcpyInc st).2 = st.2 + chunks.flatten.length := by
  intro chunks
  induction chunks with
  | nil => intro st; rfl
  | cons a chunks ih =>
    intro st
    rw [foldl_cons, ih, flatten_cons, length_append, memcpyInc, Nat.add_assoc]

theorem memcpyInc_foldl_fst : ∀ (chunks : List Bytes) (front back : Bytes),
    chunks.flatten.length ≤ back.length → (chunks.foldl memcpyInc (front ++ back, front.length)).1 =
        front ++ (chunks.flatten ++ back.drop chunks.flatten.length) := by
  intro chunks
  induction chunks with
  | nil => intro front back _; rfl
  | cons a chunks ih =>
    intro front back h
    rw [flatten_cons, length_append] at h
    have hstep : memcpyInc (front ++ back, front.length) a =
        ((front ++ a) ++ back.drop a.length, (front ++ a).length) := by
      rw [memcpyInc, memcpy_append_front (by omega), length_append, append_assoc]
    rw [foldl_cons, hstep, ih _ _ (by rw [length_drop]; omega), flatten_cons,
      length_append, drop_drop, append_assoc, append_assoc]

/-! ## What is packed -/

def headBytes (p : StartAllPkg) : Bytes :=
  u64Bytes p.objId ++ (intBytes p.objNdim ++ (intBytes p.remoteRegionNdim ++ u64Bytes p.unit))

def bodyBytes (access : Access) (p : StartAllPkg) : Bytes :=
  u64sBytes p.remoteOffset ++ (u64sBytes p.remoteSize ++ (u64sBytes p.objDims ++
    if access = .write then slice p.buf 0 (objDataSize p).toNat else []))

theorem packHead_flatten (p : StartAllPkg) : (packHead p).flatten = headBytes p := by
  simp [packHead, headBytes]

theorem packBody_flatten (access : Access) (p : StartAllPkg) :
    (packBody access p).flatten = bodyBytes access p := by
  rw [packBody, bodyBytes]
  split <;> simp

def packBytes (access : Access) (pkgs : List StartAllPkg) : Bytes :=
  pkgs.flatMap headBytes ++ pkgs.flatMap (bodyBytes access)

theorem flatten_chunks (access : Access) (pkgs : List StartAllPkg) :
    (pkgs.flatMap packHead ++ pkgs.flatMap (packBody access)).flatten = packBytes access pkgs := by
  have hflat (f : StartAllPkg → List Bytes) :
      (pkgs.flatMap f).flatten = pkgs.flatMap fun p => (f p).flatten := by
    rw [flatMap_def, flatten_flatten, map_map]
    rfl
  rw [flatten_append, hflat, hflat, packBytes]
  simp only [packHead_flatten, packBody_flatten]

/-! ## Reading it back -/

def headOf (p : StartAllPkg) : RequestHead where
  objId := p.objId
  objNdim := p.objNdim
  remoteNdim := p.remoteRegionNdim
  unit := p.unit

def requestOf (access : Access) (p : StartAllPkg) : RequestData where
  toRequestHead := headOf p
  remoteOffset := p.remoteOffset
  remoteLength := p.remoteSize
  objDims := p.objDims
  dataBuf := if access = .write then some (slice p.buf 0 (objDataSize p).toNat) else none

theorem reads_head (p : StartAllPkg) : Reads readRequestHead (headBytes p) (headOf p) := by
  have h₁ := p.ndim_le
  have h₂ := p.objNdim_lt
  refine (Reads.u64 p.objId).bind ?_
  refine (Reads.int (by omega) (by omega)).bind ?_
  refine (Reads.int (by omega) (by omega)).bind ?_
  exact (Reads.u64 p.unit).map _

theorem reads_body (hbuf : access = .write → (objDataSize p).toNat ≤ p.buf.length) :
    Reads (readRequestBody access (headOf p)) (bodyBytes access p) (requestOf access p) := by
  have hoff := Reads.u64s p.remoteOffset
  have hsize := Reads.u64s p.remoteSize
  have hdims := Reads.u64s p.objDims
  rw [p.offset_length] at hoff
  rw [p.size_length] at hsize
  rw [p.dims_length] at hdims
  refine hoff.bind (hsize.bind (hdims.bind ?_))
  rw [requestOf]
  split
  · next hw =>
    have hdata := Reads.bytes (slice p.buf 0 (objDataSize p).toNat)
    rw [length_slice (by have := hbuf hw; omega)] at hdata
    exact hdata.map _
  · exact Reads.pure _

theorem parseBulkData_packBytes {pkgs : List StartAllPkg}
    (hbuf : access = .write → ∀ p ∈ pkgs, (objDataSize p).toNat ≤ p.buf.length) (rest : Bytes) :
    parseBulkData pkgs.length access (packBytes access pkgs ++ rest) =
      some (pkgs.map (requestOf access)) := by
  have hheads : Reads (readMany readRequestHead pkgs.length) (pkgs.flatMap headBytes)
      (pkgs.map headOf) := Reads.many fun p _ => reads_head p
  have hbodies : Reads (readEach (readRequestBody access) (pkgs.map headOf))
      (pkgs.flatMap (bodyBytes access)) (pkgs.map (requestOf access)) :=
    Reads.each fun p hp => reads_body fun hw => hbuf hw p hp
  rw [parseBulkData, packBytes, hheads.bind hbodies, Option.map_some]

/-! ## Sizes -/

def pkgBytes (p : StartAllPkg) : Nat := p.unit.toNat * (p.remoteSize.map UInt64.toNat).prod

theorem memSize_requestOf (access : Access) (p : StartAllPkg) :
    memSize (requestOf access p) = objDataSize p := by
  obtain ⟨m, hm⟩ := Nat.exists_eq_add_of_le' p.ndim_pos
  have hndim : (requestOf access p).remoteNdim.toNat = m + 1 := hm
  rw [memSize, objDataSize, hndim, hm, range_eq_range', UInt64.mul_comm]
  rfl

theorem objDataSize_toNat (p : StartAllPkg) : (objDataSize p).toNat = pkgBytes p % 2 ^ 64 := by
  have hndim : (requestOf .read p).remoteNdim.toNat = p.remoteSize.length := p.size_length.symm
  have hmap : (range p.remoteSize.length).map (fun j => (p.remoteSize[j]!).toNat) =
      p.remoteSize.map UInt64.toNat := by
    refine ext_getElem (by simp) fun j h₁ h₂ => ?_
    rw [length_map] at h₂
    rw [getElem_map, getElem_map, getElem_range, getElem!_pos p.remoteSize j h₂]
  rw [← memSize_requestOf .read, memSize, toNat_foldl_mul, hndim, pkgBytes]
  change p.unit.toNat * ((range _).map fun j => (p.remoteSize[j]!).toNat).prod % _ = _
  rw [hmap]

section Sizes

variable (pkgs : List StartAllPkg)

def objNdims : Nat := (pkgs.map StartAllPkg.objNdim).sum

def remoteNdims : Nat := (pkgs.map StartAllPkg.remoteRegionNdim).sum

/-- The bytes of all regions together, each as it is counted in 64 bits. -/
def pkgsBytes : Nat := (pkgs.map fun p => pkgBytes p % 2 ^ 64).sum

theorem remoteNdims_le : remoteNdims pkgs ≤ 3 * pkgs.length := by
  induction pkgs with
  | nil => exact Nat.zero_le _
  | cons p pkgs ih =>
    have hp := p.ndim_le
    rw [remoteNdims] at ih ⊢
    rw [map_cons, sum_cons, length_cons]
    omega

theorem length_headBytes (p : StartAllPkg) : (headBytes p).length = 24 := by
  simp [headBytes]

theorem length_bodyBytes (hbuf : access = .write → (objDataSize p).toNat ≤ p.buf.length) :
    (bodyBytes access p).length = 16 * p.remoteRegionNdim + 8 * p.objNdim +
      if access = .write then pkgBytes p % 2 ^ 64 else 0 := by
  simp only [bodyBytes, length_append, length_u64sBytes, p.offset_length, p.size_length,
    p.dims_length]
  split
  · next hw =>
    rw [length_slice (by have := hbuf hw; omega), objDataSize_toNat]
    omega
  · rw [length_nil]
    omega

theorem length_packBytes :
    ∀ {pkgs : List StartAllPkg},
      (access = .write → ∀ p ∈ pkgs, (objDataSize p).toNat ≤ p.buf.length) →
      (packBytes access pkgs).length = 24 * pkgs.length + 16 * remoteNdims pkgs +
        8 * objNdims pkgs + if access = .write then pkgsBytes pkgs else 0 := by
  intro pkgs
  induction pkgs with
  | nil => intro _; split <;> rfl
  | cons p pkgs ih =>
    intro hbuf
    have hp := length_bodyBytes fun hw => hbuf hw p (by simp)
    have hrest := ih fun hw q hq => hbuf hw q (mem_cons_of_mem _ hq)
    simp only [packBytes, remoteNdims, objNdims, pkgsBytes, flatMap_cons,
      length_append, map_cons, sum_cons, length_cons, length_headBytes,
      hp] at hrest ⊢
    split at hrest
    · next hw => rw [if_pos hw, if_pos hw] ; omega
    · next hw => rw [if_neg hw, if_neg hw] ; omega

theorem toNat_arrays (p : StartAllPkg) :
    (8 * UInt64.ofNat p.remoteRegionNdim * 3).toNat = 24 * p.remoteRegionNdim := by
  have hp := p.ndim_le
  rw [UInt64.toNat_mul, UInt64.toNat_mul, toNat_ofNat64 (by omega)]
  change 8 * p.remoteRegionNdim % 2 ^ 64 * 3 % 2 ^ 64 = _
  omega

theorem packSizes_append_singleton (access : Access) (p : StartAllPkg) :
    packSizes access (pkgs ++ [p]) =
      if access = .write then
        ((packSizes access pkgs).1 + (8 * UInt64.ofNat p.remoteRegionNdim * 3 + objDataSize p),
          (packSizes access pkgs).2)
      else
        ((packSizes access pkgs).1 + 8 * UInt64.ofNat p.remoteRegionNdim * 3,
          (packSizes access pkgs).2 + objDataSize p) := by
  rw [packSizes, foldl_append]
  rfl

theorem packSizes_toNat (access : Access) :
    (packSizes access pkgs).1.toNat =
        (24 * remoteNdims pkgs + if access = .write then pkgsBytes pkgs else 0) % 2 ^ 64 ∧
      (packSizes access pkgs).2.toNat =
        (if access = .write then 0 else pkgsBytes pkgs) % 2 ^ 64 := by
  induction pkgs using reverseRecOn with
  | nil => split <;> exact ⟨rfl, rfl⟩
  | append_singleton pkgs p ih =>
    have hp := toNat_arrays p
    have hsize := objDataSize_toNat p
    simp only [packSizes_append_singleton, remoteNdims, pkgsBytes, map_append,
      sum_append, map_singleton, sum_singleton] at ih ⊢
    split
    · next hw =>
      rw [if_pos hw, if_pos hw] at ih
      rw [UInt64.toNat_add, UInt64.toNat_add, ih.2]
      omega
    · next hw =>
      rw [if_neg hw, if_neg hw] at ih
      rw [UInt64.toNat_add, UInt64.toNat_add]
      omega

theorem packMetadataSize_toNat {n : Nat} (h : n < 2 ^ 31) :
    (packMetadataSize n).toNat = 24 * n := by
  rw [packMetadataSize, UInt64.toNat_mul, toNat_ofNat64 (by omega)]
  change n * 24 % 2 ^ 64 = 24 * n
  omega

theorem totalBufSize_toNat {pkgs : List StartAllPkg} (hlen : pkgs.length < 2 ^ 31)
    (access : Access) :
    (totalBufSize access pkgs).toNat =
      if access = .write then
        (24 * pkgs.length + 24 * remoteNdims pkgs + pkgsBytes pkgs) % 2 ^ 64
      else max (24 * pkgs.length + 24 * remoteNdims pkgs) (pkgsBytes pkgs % 2 ^ 64) := by
  have hmeta := packMetadataSize_toNat hlen
  have hle := remoteNdims_le pkgs
  obtain ⟨hdata, htotal⟩ := packSizes_toNat pkgs access
  rw [totalBufSize]
  dsimp only
  split
  · next hw =>
    rw [if_pos hw] at hdata
    rw [UInt64.toNat_add]
    omega
  · next hw =>
    rw [if_neg hw] at hdata htotal
    have hsum : (packMetadataSize pkgs.length + (packSizes access pkgs).1).toNat =
        24 * pkgs.length + 24 * remoteNdims pkgs := by
      rw [UInt64.toNat_add]
      omega
    split
    · next hlt =>
      rw [UInt64.lt_iff_toNat_lt] at hlt
      omega
    · next hlt =>
      rw [UInt64.lt_iff_toNat_lt] at hlt
      omega

end Sizes

/-! ## The round trip -/

/-- The packed request fits: a write needs the objects to have no more
dimensions than the regions and the whole to be less than `2 ^ 64` bytes; for a
read it is also enough that the reply is as large as the request. -/
def PackFits (access : Access) (pkgs : List StartAllPkg) : Prop :=
  if access = .write then
    objNdims pkgs ≤ remoteNdims pkgs ∧
      24 * pkgs.length + 24 * remoteNdims pkgs + pkgsBytes pkgs < 2 ^ 64
  else
    objNdims pkgs ≤ remoteNdims pkgs ∨
      24 * pkgs.length + 16 * remoteNdims pkgs + 8 * objNdims pkgs ≤ pkgsBytes pkgs % 2 ^ 64

instance (access : Access) (pkgs : List StartAllPkg) : Decidable (PackFits access pkgs) :=
  inferInstanceAs (Decidable (ite _ _ _))

section RoundTrip

variable {junk : Nat → UInt8} {access : Access} {pkgs : List StartAllPkg}
  (hlen : pkgs.length < 2 ^ 31)
  (hbuf : access = .write → ∀ p ∈ pkgs, (objDataSize p).toNat ≤ p.buf.length)

theorem written_eq : (clientPackAllRequests junk access pkgs).written =
    (packBytes access pkgs).length := by
  rw [clientPackAllRequests, memcpyInc_foldl_snd, flatten_chunks, Nat.zero_add]

include hlen hbuf in
theorem packFits_iff :
    (clientPackAllRequests junk access pkgs).written ≤
        (clientPackAllRequests junk access pkgs).totalBufSize.toNat ↔ PackFits access pkgs := by
  have htotal := totalBufSize_toNat hlen access
  change _ ≤ (totalBufSize access pkgs).toNat ↔ _
  rw [written_eq, length_packBytes hbuf, htotal, PackFits]
  split
  · omega
  · omega

include hbuf in
theorem parseBulkData_packed
    (hfit : (packBytes access pkgs).length ≤ (totalBufSize access pkgs).toNat) :
    parseBulkData pkgs.length access (clientPackAllRequests junk access pkgs).bulkBuf =
      some (pkgs.map (requestOf access)) := by
  have hfill := memcpyInc_foldl_fst (pkgs.flatMap packHead ++ pkgs.flatMap (packBody access)) []
    (malloc junk (totalBufSize access pkgs).toNat) (by rw [flatten_chunks]; simpa [malloc] using
      hfit)
  rw [nil_append, nil_append, flatten_chunks] at hfill
  change parseBulkData _ _ (foldl memcpyInc _ _).1 = _
  rw [show ([] : Bytes).length = 0 from rfl] at hfill
  rw [hfill, parseBulkData_packBytes hbuf]

theorem readBulkBuf_eq_replyPositions (access : Access) :
    ∀ (pkgs : List StartAllPkg) (ptr : UInt64),
      readBulkBuf ptr pkgs = replyPositions ptr (pkgs.map (requestOf access)) := by
  intro pkgs
  induction pkgs with
  | nil => intro ptr; rfl
  | cons p pkgs ih =>
    intro ptr
    rw [readBulkBuf, map_cons, replyPositions, memSize_requestOf, ih]

/-- The format is right: the client stays inside its buffer, the server reads
back every package, and for a read both sides have the reply's data in the same
places. -/
def FormatRight (junk : Nat → UInt8) (access : Access) (pkgs : List StartAllPkg) : Prop :=
  (clientPackAllRequests junk access pkgs).written ≤
      (clientPackAllRequests junk access pkgs).totalBufSize.toNat ∧
    parseBulkData pkgs.length access (clientPackAllRequests junk access pkgs).bulkBuf =
      some (pkgs.map (requestOf access)) ∧
    (access = .read → (clientPackAllRequests junk access pkgs).readBulkBuf =
      replyPositions 0 (pkgs.map (requestOf access)))

include hlen hbuf in
theorem formatRight_iff : FormatRight junk access pkgs ↔ PackFits access pkgs := by
  rw [← @packFits_iff junk access pkgs hlen hbuf]
  refine ⟨fun h => h.1, fun hfit => ⟨hfit, ?_, fun hread => ?_⟩⟩
  · exact parseBulkData_packed hbuf (by rwa [written_eq] at hfit)
  · rw [clientPackAllRequests]
    simp only [if_pos hread]
    exact readBulkBuf_eq_replyPositions access pkgs 0

end RoundTrip

def onePkg (objDims : List UInt64) (h : objDims.length < 2 ^ 31) : StartAllPkg where
  objId := 1
  objNdim := objDims.length
  remoteRegionNdim := 1
  unit := 1
  remoteOffset := [0]
  remoteSize := [1]
  objDims := objDims
  buf := [7]
  offset_length := rfl
  size_length := rfl
  dims_length := rfl
  ndim_pos := Nat.le_refl 1
  ndim_le := by decide
  objNdim_lt := h

theorem formatRight_iff_one : FormatRight (fun _ => 0) .write [onePkg [4] (by decide)] :=
  (formatRight_iff (by decide) (by decide)).mpr (by decide)

/-- A region of one dimension on an object of two: 57 bytes go into a buffer of
49. -/
theorem formatRight_overflow :
    (clientPackAllRequests (fun _ => 0) .write [onePkg [4, 4] (by decide)]).written = 57 ∧
      (clientPackAllRequests (fun _ => 0) .write [onePkg [4, 4] (by decide)]).totalBufSize = 49 ∧
      ¬ FormatRight (fun _ => 0) .write [onePkg [4, 4] (by decide)] := by
  refine ⟨by decide, by decide, fun h => ?_⟩
  exact absurd h.1 (by decide)

end Pdc
