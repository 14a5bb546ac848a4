import Pdc.Client.StaticPartition
import Pdc.Lib.Slabs
import Pdc.Lib.Words
import Pdc.Proofs.RegionCells

/-!
# The static partition

The servers' slabs are the slabs of the remainder scheme. When the split
dimension has fewer elements than there are servers the quotient is zero, the
source puts one in its place, and the slabs reach past the end of the object;
they are cuts of a line all the same, so they still give every cell of the
object to exactly one server. What a request gets from a server is the part
of its region in the server's slab.

Everything here is about one dimension, the split one, until `mem_output` says
what it means for cells.
-/

namespace Pdc

open Lib List Option UInt64

variable {r : Region} {n : Nat}

/-! ## Slabs in 64 bits -/

theorem slabCut_static (hpos : 0 < n) (hlt : n < 2 ^ 31) (d : UInt64) :
    d.toNat ≤ slabCut (staticS (UInt64.ofNat n) d).toNat (staticX (UInt64.ofNat n) d).toNat n ∧
      slabCut (staticS (UInt64.ofNat n) d).toNat (staticX (UInt64.ofNat n) d).toNat n < 2 ^ 64 := by
  have hn : (UInt64.ofNat n).toNat = n := toNat_ofNat64 (by omega)
  have hmod := Nat.mod_lt d.toNat hpos
  have hd := UInt64.toNat_lt d
  have hx : (staticX (UInt64.ofNat n) d).toNat = n - d.toNat % n := by
    rw [staticX, UInt64.toNat_sub_of_le _ _ (UInt64.le_iff_toNat_le.mpr ?_), UInt64.toNat_mod, hn]
    rw [UInt64.toNat_mod, hn]
    exact hmod.le
  have hq : (d / UInt64.ofNat n).toNat = d.toNat / n := by rw [UInt64.toNat_div, hn]
  rw [hx, staticS]
  split
  · next hzero =>
    -- Fewer elements than servers.
    have hsmall : d.toNat / n = 0 := by rw [← hq, hzero]; rfl
    have hdn : d.toNat < n := by
      rcases Nat.div_eq_zero_iff.mp hsmall with h | h <;> omega
    rw [slabCut, if_neg (by omega), show (1 : UInt64).toNat = 1 from rfl]
    omega
  · rw [hq, slabCut_end hpos]
    exact ⟨Nat.le_refl _, hd⟩

section

variable {s x i : UInt64} (h : slabCut s.toNat x.toNat (i.toNat + 1) < 2 ^ 64)
include h

theorem toNat_staticS_succ (hi : ¬ i < x) : (s + 1).toNat = s.toNat + 1 := by
  have hi' : ¬ i.toNat < x.toNat := fun hlt => hi (UInt64.lt_iff_toNat_lt.mpr hlt)
  rw [slabCut_succ, slabSize, if_neg hi'] at h
  rw [UInt64.toNat_add, show (1 : UInt64).toNat = 1 from rfl, Nat.mod_eq_of_lt (by omega)]

theorem staticSize_toNat : (staticSize s x i).toNat = slabSize s.toNat x.toNat i.toNat := by
  rw [staticSize, slabSize]
  by_cases hi : i < x
  · rw [if_pos hi, if_pos (lt_iff_toNat_lt.mp hi)]
  · rw [if_neg hi, if_neg fun hlt => hi (lt_iff_toNat_lt.mpr hlt), toNat_staticS_succ h hi]

theorem staticOffset_toNat : (staticOffset s x i).toNat = slabCut s.toNat x.toNat i.toNat := by
  have hcut : slabCut s.toNat x.toNat i.toNat < 2 ^ 64 :=
    lt_of_le_of_lt (slabCut_mono _ _ (Nat.le_succ _)) h
  rw [staticOffset]
  by_cases hi : i < x
  · have hi' : i.toNat < x.toNat := UInt64.lt_iff_toNat_lt.mp hi
    rw [slabCut, if_pos hi'] at hcut ⊢
    rw [if_pos hi, UInt64.toNat_mul, Nat.mod_eq_of_lt hcut]
  · have hi' : ¬ i.toNat < x.toNat := fun hlt => hi (UInt64.lt_iff_toNat_lt.mpr hlt)
    rw [slabCut, if_neg hi'] at hcut ⊢
    have hsub : (i - x).toNat = i.toNat - x.toNat :=
      UInt64.toNat_sub_of_le _ _ (UInt64.le_iff_toNat_le.mpr (by omega))
    rw [if_neg hi, UInt64.toNat_add, UInt64.toNat_mul, UInt64.toNat_mul, hsub,
      toNat_staticS_succ h hi, Nat.mod_eq_of_lt (by omega : x.toNat * s.toNat < 2 ^ 64),
      Nat.mod_eq_of_lt (by omega : (i.toNat - x.toNat) * (s.toNat + 1) < 2 ^ 64),
      Nat.mod_eq_of_lt hcut]

end

/-! ## A request and a slab -/

section

variable {o z a b : UInt64} (ho : o.toNat + z.toNat < 2 ^ 64) (hb : a.toNat + b.toNat < 2 ^ 64)
include ho hb

theorem fitsStatic_iff : fitsStatic o z a b = true ↔
    (o.toNat < a.toNat + b.toNat ∧ a.toNat ≤ o.toNat) ∨
      (a.toNat < o.toNat + z.toNat ∧ o.toNat ≤ a.toNat) := by
  simp only [fitsStatic, Bool.or_eq_true, Bool.and_eq_true, decide_eq_true_eq, gt_iff_lt, ge_iff_le,
    UInt64.lt_iff_toNat_lt, UInt64.le_iff_toNat_le, UInt64.toNat_add, Nat.mod_eq_of_lt ho,
    Nat.mod_eq_of_lt hb]

theorem clipStatic_toNat (hfit : fitsStatic o z a b = true) :
    (clipStatic o z a b).1.toNat = max o.toNat a.toNat ∧
      (clipStatic o z a b).1.toNat + (clipStatic o z a b).2.1.toNat =
        min (o.toNat + z.toNat) (a.toNat + b.toNat) := by
  have hcase := (fitsStatic_iff ho hb).mp hfit
  have hend : a + b < o + z ↔ a.toNat + b.toNat < o.toNat + z.toNat := by
    rw [UInt64.lt_iff_toNat_lt, UInt64.toNat_add, UInt64.toNat_add, Nat.mod_eq_of_lt ho,
      Nat.mod_eq_of_lt hb]
  have hsum : (a + b).toNat = a.toNat + b.toNat := by rw [UInt64.toNat_add, Nat.mod_eq_of_lt hb]
  have hsum' : (o + z).toNat = o.toNat + z.toNat := by rw [UInt64.toNat_add, Nat.mod_eq_of_lt ho]
  rw [clipStatic]
  by_cases hlt : a < o
  · have hlt' : a.toNat < o.toNat := UInt64.lt_iff_toNat_lt.mp hlt
    rw [if_pos hlt]
    refine ⟨by dsimp only; omega, ?_⟩
    dsimp only
    split
    · next h =>
      have h' := hend.mp h
      rw [UInt64.toNat_sub_of_le _ _ (UInt64.le_iff_toNat_le.mpr (by omega))]
      omega
    · next h =>
      have h' : ¬ a.toNat + b.toNat < o.toNat + z.toNat := fun hlt => h (hend.mpr hlt)
      omega
  · have hlt' : ¬ a.toNat < o.toNat := fun h => hlt (UInt64.lt_iff_toNat_lt.mpr h)
    rw [if_neg hlt]
    refine ⟨by dsimp only; omega, ?_⟩
    dsimp only
    split
    · next h =>
      have h' := hend.mp h
      omega
    · next h =>
      have h' : ¬ a.toNat + b.toNat < o.toNat + z.toNat := fun hlt => h (hend.mpr hlt)
      rw [UInt64.toNat_sub_of_le _ _ (UInt64.le_iff_toNat_le.mpr (by omega))]
      omega

end

theorem clipStatic_sub (o z a b : UInt64) :
    (clipStatic o z a b).2.2 = (clipStatic o z a b).1 - o := by
  rw [clipStatic]
  split
  · exact (UInt64.sub_self o).symm
  · rfl

/-! ## Parts and cells -/

def Region.InObject (n : Nat) (objDims : List UInt64) (r : Region) : Prop :=
  ∀ j < n, r.off j + r.len j ≤ (objDims[j]!).toNat

instance (n : Nat) (objDims : List UInt64) (r : Region) : Decidable (r.InObject n objDims) :=
  inferInstanceAs (Decidable (∀ j < n, r.off j + r.len j ≤ (objDims[j]!).toNat))

theorem Region.InObject.noWrap {objDims : List UInt64} (h : r.InObject n objDims) : r.NoWrap n :=
  fun j hj => lt_of_le_of_lt (h j hj) (toNat_lt _)

section Parts

variable (num n : Nat) (objDims : List UInt64)

def serverDim : Nat := splitDim n (UInt64.ofNat num) objDims

def serverCut (i : Nat) : Nat :=
  slabCut (staticS (UInt64.ofNat num) objDims[serverDim num n objDims]!).toNat
    (staticX (UInt64.ofNat num) objDims[serverDim num n objDims]!).toNat i

/-- `static_offset` of server `i`. -/
def serverOffset (i : Nat) : UInt64 :=
  staticOffset (staticS (UInt64.ofNat num) objDims[serverDim num n objDims]!)
    (staticX (UInt64.ofNat num) objDims[serverDim num n objDims]!) (UInt64.ofNat i)

/-- `static_size` of server `i`. -/
def serverSize (i : Nat) : UInt64 :=
  staticSize (staticS (UInt64.ofNat num) objDims[serverDim num n objDims]!)
    (staticX (UInt64.ofNat num) objDims[serverDim num n objDims]!) (UInt64.ofNat i)

def Reached (r : Region) (i : Nat) : Prop :=
  fitsStatic r.offset[serverDim num n objDims]! r.size[serverDim num n objDims]!
    (serverOffset num n objDims i) (serverSize num n objDims i) = true

instance (r : Region) (i : Nat) : Decidable (Reached num n objDims r i) :=
  inferInstanceAs (Decidable (_ = true))

/-- The region and the sub-offset of server `i`'s part. -/
def serverPart (r : Region) (i : Nat) : Region × List UInt64 :=
  staticOverlap n (serverDim num n objDims) r (serverOffset num n objDims i)
    (serverSize num n objDims i)

/-- The coordinate in the split dimension is in the slab of server `i`. -/
def InSlab (i : Nat) (c : Fin n → ℕ) : Prop :=
  ∀ j : Fin n, (j : Nat) = serverDim num n objDims →
    serverCut num n objDims i ≤ c j ∧ c j < serverCut num n objDims (i + 1)

theorem serverDim_lt (hn : 0 < n) : serverDim num n objDims < n := by
  rw [serverDim, splitDim]
  split <;> omega

def staticPartOf (buf : List UInt8) (unit : UInt64) (access : Access) (r : Region)
    (setOutputBuf : Bool) (i : Nat) : StaticPart :=
  { dataServerId := UInt32.ofNat i
    output := (serverPart num n objDims r i).1
    subOffset := (serverPart num n objDims r i).2
    outputBuf :=
      if setOutputBuf then
        some (staticOutputBuf buf n unit access r (serverPart num n objDims r i).1
          (serverPart num n objDims r i).2)
      else none }

variable {num n objDims} {i j : Nat} {c : Fin n → ℕ}

theorem staticRegionPartition_eq (buf : List UInt8) (unit : UInt64) (access : Access) (r : Region)
    (setOutputBuf : Bool) :
    staticRegionPartition num buf n unit access objDims r setOutputBuf =
      (range num).filterMap fun i => if Reached num n objDims r i then
        some (staticPartOf num n objDims buf unit access r setOutputBuf i) else none := rfl

theorem mem_staticRegionPartition {buf : List UInt8} {unit : UInt64} {access : Access}
    {setOutputBuf : Bool} {p : StaticPart} :
    p ∈ staticRegionPartition num buf n unit access objDims r setOutputBuf ↔
      ∃ i < num, Reached num n objDims r i ∧
        staticPartOf num n objDims buf unit access r setOutputBuf i = p := by
  rw [staticRegionPartition_eq, mem_filterMap]
  refine exists_congr fun i => ?_
  rw [mem_range]
  refine and_congr_right fun _ => ?_
  by_cases h : Reached num n objDims r i
  · rw [and_iff_right h, if_pos h, some.injEq]
  · rw [if_neg h]
    exact ⟨fun hnone => (some_ne_none p hnone.symm).elim, fun hp => absurd hp.1 h⟩

section Bounds

variable (n objDims) (hnum : 0 < num) (hlt : num < 2 ^ 31)
include hnum hlt

theorem serverCut_lt (hi : i < num) : serverCut num n objDims (i + 1) < 2 ^ 64 :=
  lt_of_le_of_lt (slabCut_mono _ _ hi) (slabCut_static hnum hlt _).2

theorem serverSlab_toNat (hi : i < num) :
    (serverOffset num n objDims i).toNat = serverCut num n objDims i ∧
      (serverOffset num n objDims i).toNat + (serverSize num n objDims i).toNat =
        serverCut num n objDims (i + 1) := by
  have hof : (ofNat i).toNat = i := toNat_ofNat64 (by omega)
  have h := serverCut_lt n objDims hnum hlt hi
  rw [← hof] at h
  have hoff : (serverOffset num n objDims i).toNat = serverCut num n objDims i := by
    rw [serverOffset, staticOffset_toNat h, hof, serverCut]
  refine ⟨hoff, ?_⟩
  rw [hoff, serverSize, staticSize_toNat h, hof, serverCut, serverCut, slabCut_succ]

theorem exists_inSlab (hn : 0 < n) (hr : r.InObject n objDims)
    (hc : c ∈ r.cells n) : ∃ i < num, InSlab num n objDims i c := by
  have hsplit := serverDim_lt num n objDims hn
  have hcell := Region.mem_cells.mp hc ⟨serverDim num n objDims, hsplit⟩
  have hobj := hr (serverDim num n objDims) hsplit
  have hend := (slabCut_static hnum hlt objDims[serverDim num n objDims]!).1
  obtain ⟨i, hi, hslab⟩ := @exists_slab (serverCut num n objDims) num
    (c ⟨serverDim num n objDims, hsplit⟩) (by rw [serverCut, slabCut_zero]; exact Nat.zero_le _)
    (by rw [serverCut]; dsimp only at hcell; omega)
  refine ⟨i, hi, fun j hj => ?_⟩
  rwa [show j = ⟨serverDim num n objDims, hsplit⟩ from Fin.ext hj]

end Bounds

theorem inSlab_unique (hn : 0 < n) (hi : InSlab num n objDims i c)
    (hj : InSlab num n objDims j c) : i = j :=
  slab_unique (slabCut_mono _ _) (hi ⟨_, serverDim_lt num n objDims hn⟩ rfl)
    (hj ⟨_, serverDim_lt num n objDims hn⟩ rfl)

section Cells

variable (hnum : 0 < num) (hlt : num < 2 ^ 31) (hn : 0 < n) {r : Region} (hr : r.NoWrap n) {i : Nat}
  (hi : i < num)
include hnum hlt hn hr hi

theorem reached_of_inSlab (hc : c ∈ r.cells n) (hslab : InSlab num n objDims i c) :
    Reached num n objDims r i := by
  have hsplit := serverDim_lt num n objDims hn
  have hcell := Region.mem_cells.mp hc ⟨_, hsplit⟩
  have hs := hslab ⟨_, hsplit⟩ rfl
  obtain ⟨hoff, hend⟩ := serverSlab_toNat n objDims hnum hlt hi
  have hbound := serverCut_lt n objDims hnum hlt hi
  rw [Reached, fitsStatic_iff (hr _ hsplit) (by omega)]
  dsimp only [Region.off, Region.len] at hcell hs
  omega

section

variable (hreach : Reached num n objDims r i)
include hreach

theorem serverPart_bounds (hj : j < n) :
    ((serverPart num n objDims r i).1.off j =
        if j = serverDim num n objDims then max (r.off j) (serverCut num n objDims i) else r.off j)
          ∧
      (serverPart num n objDims r i).1.off j + (serverPart num n objDims r i).1.len j =
        if j = serverDim num n objDims then
          min (r.off j + r.len j) (serverCut num n objDims (i + 1))
        else r.off j + r.len j := by
  have hsplit := serverDim_lt num n objDims hn
  obtain ⟨hoff, hend⟩ := serverSlab_toNat n objDims hnum hlt hi
  have hbound := serverCut_lt n objDims hnum hlt hi
  have hclip := clipStatic_toNat (hr _ hsplit) (by omega) hreach
  rw [hend, hoff] at hclip
  rw [serverPart, staticOverlap, Region.off, Region.len]
  simp only [getElem!_map_range _ hj]
  by_cases hjs : j = serverDim num n objDims
  · subst hjs
    simp only [if_true]
    exact hclip
  · simp only [if_neg hjs]
    exact ⟨rfl, rfl⟩

theorem mem_output (c : Fin n → ℕ) :
    c ∈ (serverPart num n objDims r i).1.cells n ↔ c ∈ r.cells n ∧ InSlab num n objDims i c := by
  rw [Region.mem_cells, Region.mem_cells, InSlab, ← forall_and]
  refine forall_congr' fun j => ?_
  obtain ⟨hlo, hhi⟩ := serverPart_bounds hnum hlt hn hr hi hreach j.isLt
  rw [hlo] at hhi ⊢
  rw [hhi]
  by_cases hjs : (j : Nat) = serverDim num n objDims
  · rw [if_pos hjs, if_pos hjs]
    omega
  · rw [if_neg hjs, if_neg hjs, forall_prop_of_false hjs, and_true]

theorem serverPart_inside : (serverPart num n objDims r i).1.Inside n r := by
  intro j hj
  obtain ⟨hlo, hhi⟩ := serverPart_bounds hnum hlt hn hr hi hreach hj
  rw [hhi, hlo]
  split <;> omega

end

end Cells

theorem serverPart_subOffset (hnum : 0 < num) (hlt : num < 2 ^ 31) (hn : 0 < n) (hr : r.NoWrap n)
    (hi : i < num) (hreach : Reached num n objDims r i) (hj : j < n) :
    r.off j + ((serverPart num n objDims r i).2[j]!).toNat =
      (serverPart num n objDims r i).1.off j := by
  have hle := (serverPart_inside hnum hlt hn hr hi hreach j hj).1
  have hsub : (serverPart num n objDims r i).2[j]! =
      (serverPart num n objDims r i).1.offset[j]! - r.offset[j]! := by
    rw [serverPart, staticOverlap]
    simp only [getElem!_map_range _ hj]
    split
    · next h => rw [h, clipStatic_sub]
    · exact (UInt64.sub_self _).symm
  rw [hsub, UInt64.toNat_sub_of_le _ _ (UInt64.le_iff_toNat_le.mpr hle)]
  change r.off j + ((serverPart num n objDims r i).1.off j - r.off j) = _
  omega

section Partition

variable (hnum : 0 < num) (hlt : num < 2 ^ 31) (hn : 0 < n) {r : Region}
  (hr : r.InObject n objDims) (buf : List UInt8) (unit : UInt64) (access : Access)
  (setOutputBuf : Bool)
include hnum hlt hn hr

theorem staticRegionPartition_pairwise :
    (staticRegionPartition num buf n unit access objDims r setOutputBuf).Pairwise fun p q =>
      ∀ c ∈ p.output.cells n, c ∉ q.output.cells n := by
  rw [staticRegionPartition_eq, pairwise_filterMap]
  refine pairwise_lt_range.imp_of_mem ?_
  intro i j hi hj hij p hp q hq
  rw [mem_range] at hi hj
  obtain ⟨hri, hp⟩ := ite_none_right_eq_some.mp hp
  obtain ⟨hrj, hq⟩ := ite_none_right_eq_some.mp hq
  injection hp with hp
  injection hq with hq
  subst hp hq
  intro c hci hcj
  have hsi := ((mem_output hnum hlt hn hr.noWrap hi hri c).mp hci).2
  have hsj := ((mem_output hnum hlt hn hr.noWrap hj hrj c).mp hcj).2
  exact hij.ne (inSlab_unique hn hsi hsj)

theorem staticRegionPartition_cells (c : Fin n → ℕ) :
    (∃ p ∈ staticRegionPartition num buf n unit access objDims r setOutputBuf,
      c ∈ p.output.cells n) ↔ c ∈ r.cells n := by
  constructor
  · rintro ⟨p, hp, hc⟩
    obtain ⟨i, hi, hreach, rfl⟩ := mem_staticRegionPartition.mp hp
    exact ((mem_output hnum hlt hn hr.noWrap hi hreach c).mp hc).1
  · intro hc
    obtain ⟨i, hi, hslab⟩ := exists_inSlab n objDims hnum hlt hn hr hc
    have hreach := reached_of_inSlab hnum hlt hn hr.noWrap hi hc hslab
    exact ⟨_, mem_staticRegionPartition.mpr ⟨i, hi, hreach, rfl⟩,
      (mem_output hnum hlt hn hr.noWrap hi hreach c).mpr ⟨hc, hslab⟩⟩

/-- The parts of a request are its cells, each in one part, each part with the
place it has in the request, and where a cell goes depends on the object and
not on the request. -/
theorem staticRegionPartition_partition :
    (staticRegionPartition num buf n unit access objDims r setOutputBuf).Pairwise
        (fun p q => ∀ c ∈ p.output.cells n, c ∉ q.output.cells n) ∧
      (∀ c : Fin n → ℕ, (∃ p ∈ staticRegionPartition num buf n unit access objDims r setOutputBuf,
        c ∈ p.output.cells n) ↔ c ∈ r.cells n) ∧
      (∀ p ∈ staticRegionPartition num buf n unit access objDims r setOutputBuf, ∀ j < n,
        r.off j + (p.subOffset[j]!).toNat = p.output.off j) ∧
      ∀ (buf' : List UInt8) (unit' : UInt64) (access' : Access) (setOutputBuf' : Bool)
        (r' : Region), r'.InObject n objDims →
        ∀ p ∈ staticRegionPartition num buf n unit access objDims r setOutputBuf,
        ∀ q ∈ staticRegionPartition num buf' n unit' access' objDims r' setOutputBuf',
        ∀ c : Fin n → ℕ, c ∈ p.output.cells n → c ∈ q.output.cells n →
          p.dataServerId = q.dataServerId := by
  refine ⟨staticRegionPartition_pairwise hnum hlt hn hr buf unit access setOutputBuf,
    staticRegionPartition_cells hnum hlt hn hr buf unit access setOutputBuf, ?_, ?_⟩
  · intro p hp j hj
    obtain ⟨i, hi, hreach, rfl⟩ := mem_staticRegionPartition.mp hp
    exact serverPart_subOffset hnum hlt hn hr.noWrap hi hreach hj
  · intro buf' unit' access' setOutputBuf' r' hr' p hp q hq c hcp hcq
    obtain ⟨i, hi, hreachi, rfl⟩ := mem_staticRegionPartition.mp hp
    obtain ⟨j, hj, hreachj, rfl⟩ := mem_staticRegionPartition.mp hq
    have hsi := ((mem_output hnum hlt hn hr.noWrap hi hreachi c).mp hcp).2
    have hsj := ((mem_output hnum hlt hn hr'.noWrap hj hreachj c).mp hcq).2
    change UInt32.ofNat i = UInt32.ofNat j
    rw [inSlab_unique hn hsi hsj]

end Partition

end Parts

/-- Three servers and a 7 × 2 object: the region of rows 1 to 5 is cut at rows
2 and 4. -/
theorem staticRegionPartition_partition_three :
    Region.InObject 2 [7, 2] ⟨[1, 0], [5, 2]⟩ ∧
      ∀ c : Fin 2 → ℕ, (∃ p ∈ staticRegionPartition 3 [] 2 1 .read [7, 2] ⟨[1, 0], [5, 2]⟩ false,
        c ∈ p.output.cells 2) ↔ c ∈ Region.cells 2 ⟨[1, 0], [5, 2]⟩ :=
  ⟨by decide, (staticRegionPartition_partition (by decide) (by decide) (by decide) (by decide) [] 1
    .read false).2.1⟩

end Pdc
