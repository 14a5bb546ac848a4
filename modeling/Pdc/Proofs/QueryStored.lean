import Pdc.Server.QueryEvaluate
import Mathlib.Data.List.Perm.Lattice
import Mathlib.Data.List.Range

/-!
# The regions of a stored object, and what a leaf does with them

`Stores` says that a list of regions holds an object: each region is a run of
its elements, no element is in two of them and every element is in one. The
regions' coordinates are then those of the object, in some order.

Over such a list the two macros are two filters. Without an earlier selection,
or with OR, the scan appends the coordinates of the object whose elements
match. With AND, a coordinate stays if it survives every region that claims
it, and what a region judges it by is not always its own element.
-/

namespace Pdc

open List Lib Bool

variable {r : QueryRegion} {c : Nat}

/-! ## Stored objects -/

def QueryRegion.Has (unit : Nat) (r : QueryRegion) (c : Nat) : Prop :=
  r.start ≤ c * unit ∧ c * unit < r.start + r.count

instance (unit : Nat) (r : QueryRegion) (c : Nat) : Decidable (r.Has unit c) :=
  inferInstanceAs (Decidable (_ ∧ _))

/-- A region is a run of the elements of an object, and they have been loaded
if there are any. -/
structure QueryRegion.Holds (unit : Nat) (data : Nat → Int) (r : QueryRegion) (off len : Nat) :
    Prop where
  start : r.start = off * unit
  count : r.count = len * unit
  dataSize : r.dataSize = len * unit
  ready : 0 < len → r.isDataReady = true
  buf : r.buf = (List.range len).map fun i => data (off + i)

/-- The regions hold an object of `n` elements. -/
structure Stores (unit n : Nat) (data : Nat → Int) (regions : List QueryRegion) : Prop where
  run : ∀ r ∈ regions, ∃ off len, r.Holds unit data off len
  bound : ∀ r ∈ regions, ∀ c, r.Has unit c → c < n
  cover : ∀ c < n, ∃ r ∈ regions, r.Has unit c
  disjoint : regions.Pairwise fun r r' => ∀ c, r.Has unit c → ¬ r'.Has unit c
  fits : n * unit < 2 ^ 64

def QueryRegion.coords (unit : Nat) (r : QueryRegion) : List Nat :=
  (List.range (r.count / unit)).map (· + r.start / unit)

section

variable {unit n off len c : Nat} {data : Nat → Int} {r : QueryRegion}

section

variable (h : r.Holds unit data off len) (hunit : 0 < unit)
include h hunit

theorem QueryRegion.Holds.has_iff : r.Has unit c ↔ off ≤ c ∧ c < off + len := by
  unfold QueryRegion.Has
  rw [h.start, h.count, ← Nat.add_mul, Nat.mul_le_mul_right_iff hunit, Nat.mul_lt_mul_right hunit]

theorem QueryRegion.Holds.coords_eq : r.coords unit = (range len).map (· + off) := by
  rw [QueryRegion.coords, h.count, h.start, Nat.mul_div_cancel _ hunit, Nat.mul_div_cancel _ hunit]

theorem QueryRegion.Holds.mem_coords : c ∈ r.coords unit ↔ r.Has unit c := by
  rw [h.coords_eq hunit, h.has_iff hunit, mem_map]
  constructor
  · rintro ⟨i, hi, rfl⟩
    have : i < len := mem_range.mp hi
    omega
  · intro hc
    exact ⟨c - off, mem_range.mpr (by omega), by omega⟩

end

theorem QueryRegion.nodup_coords (unit : Nat) (r : QueryRegion) : (r.coords unit).Nodup :=
  nodup_range.map fun _ _ h => Nat.add_right_cancel h

section

variable (h : r.Holds unit data off len) (stray : QueryRegion → Nat → Int) {i : Nat}
include h

theorem QueryRegion.Holds.edata_eq (hi : i < len) : r.edata stray i = data (off + i) := by
  rw [QueryRegion.edata, h.buf, getD_eq_getElem?_getD, getElem?_map, getElem?_range hi]
  rfl

theorem QueryRegion.Holds.edata_stray (hi : len ≤ i) : r.edata stray i = stray r i := by
  rw [QueryRegion.edata, h.buf, getD_eq_getElem?_getD, getElem?_eq_none]
  · rfl
  · rw [length_map, length_range]
    exact hi

end

theorem QueryRegion.Holds.scanRegion_eq (h : r.Holds unit data off len) (hunit : 0 < unit)
    (stray : QueryRegion → Nat → Int) (p : Int → Bool) :
    scanRegion stray p unit r = (r.coords unit).filter fun c => p (data c) := by
  rw [scanRegion, QueryRegion.coords, filter_map]
  congr 1
  refine filter_congr fun i hi => ?_
  have hlen : i < len := by
    have hlt : i < r.count / unit := mem_range.mp hi
    rwa [h.count, Nat.mul_div_cancel _ hunit] at hlt
  show p (r.edata stray i) = p (data (i + r.start / unit))
  rw [h.edata_eq stray hlen, h.start, Nat.mul_div_cancel _ hunit, Nat.add_comm]

end

section

variable {unit n : Nat} {data : Nat → Int} {regions : List QueryRegion}

theorem Stores.mem_coords (h : Stores unit n data regions) (hunit : 0 < unit)
    (hr : r ∈ regions) : c ∈ r.coords unit ↔ r.Has unit c := by
  obtain ⟨off, len, hold⟩ := h.run r hr
  exact hold.mem_coords hunit

theorem Stores.nil : Stores unit 0 data [] := ⟨nofun, nofun, nofun, .nil, by simp⟩

theorem Stores.concat {off : Nat} (h : Stores unit off data regions) (len : Nat)
    (hold : r.Holds unit data off len) (hunit : 0 < unit) (hfits : (off + len) * unit < 2 ^ 64) :
    Stores unit (off + len) data (regions ++ [r]) where
  run := forall_mem_append.mpr ⟨h.run, forall_mem_singleton.mpr ⟨off, len, hold⟩⟩
  bound := forall_mem_append.mpr ⟨fun r' hr' c hc => Nat.lt_add_right _ (h.bound r' hr' c hc),
    forall_mem_singleton.mpr fun c hc => ((hold.has_iff hunit).mp hc).2⟩
  cover c hc := by
    by_cases hlt : c < off
    · obtain ⟨r', hr', hhas⟩ := h.cover c hlt
      exact ⟨r', mem_append_left _ hr', hhas⟩
    · exact ⟨r, by simp, (hold.has_iff hunit).mpr (by omega)⟩
  disjoint := by
    refine pairwise_append.mpr ⟨h.disjoint, pairwise_singleton _ _, fun r' hr' => ?_⟩
    refine forall_mem_singleton.mpr fun c hc hc' => ?_
    have hlt := h.bound r' hr' c hc
    rw [hold.has_iff hunit] at hc'
    omega
  fits := hfits

section

variable (h : Stores unit n data regions)
include h

theorem Stores.coords_perm (hunit : 0 < unit) :
    (regions.flatMap (QueryRegion.coords unit)).Perm (range n) := by
  refine (perm_ext_iff_of_nodup ?_ nodup_range).mpr fun c => ?_
  · refine nodup_flatMap.mpr ⟨fun r _ => r.nodup_coords unit, ?_⟩
    refine h.disjoint.imp_of_mem fun {r r'} hr hr' hdis => ?_
    intro c hc hc'
    exact hdis c ((h.mem_coords hunit hr).mp hc) ((h.mem_coords hunit hr').mp hc')
  · rw [mem_flatMap, mem_range]
    constructor
    · rintro ⟨r, hr, hc⟩
      exact h.bound r hr c ((h.mem_coords hunit hr).mp hc)
    · intro hc
      obtain ⟨r, hr, hhas⟩ := h.cover c hc
      exact ⟨r, hr, (h.mem_coords hunit hr).mpr hhas⟩

theorem Stores.unique {r' : QueryRegion} (hr : r ∈ regions)
    (hr' : r' ∈ regions) (hc : r.Has unit c) (hc' : r'.Has unit c) : r = r' := by
  have : Std.Symm fun r r' : QueryRegion => ∀ c, r.Has unit c → ¬ r'.Has unit c :=
    ⟨fun _ _ hdis c ha hb => hdis c hb ha⟩
  by_contra hne
  exact h.disjoint.forall hr hr' hne c hc hc'

theorem Stores.isDataReady (hunit : 0 < unit)
    (hr : r ∈ regions) (hc : r.Has unit c) : r.isDataReady = true := by
  obtain ⟨off, len, hold⟩ := h.run r hr
  have := (hold.has_iff hunit).mp hc
  exact hold.ready (by omega)

theorem Stores.ne_ullongMax (hunit : 0 < unit) (hc : c < n) : c ≠ ullongMax := by
  intro hmax
  have hle : n ≤ n * unit := Nat.le_mul_of_pos_right n hunit
  have hfits := h.fits
  have hval : ullongMax = 2 ^ 64 - 1 := rfl
  omega

theorem Stores.totalElem_eq (hunit : 0 < unit) :
    (regions.map fun r => r.dataSize / unit).sum = n := by
  have hlen : ∀ r ∈ regions, r.dataSize / unit = (r.coords unit).length := by
    intro r hr
    obtain ⟨off, len, hold⟩ := h.run r hr
    rw [QueryRegion.coords, length_map, length_range, hold.dataSize, hold.count]
  rw [map_congr_left hlen, ← length_flatMap, (h.coords_perm hunit).length_eq, length_range]

theorem Stores.ready_flatMap_coords (hunit : 0 < unit) :
    (regions.filter (·.isDataReady)).flatMap (QueryRegion.coords unit) =
      regions.flatMap (QueryRegion.coords unit) := by
  have hempty : ∀ r ∈ regions, r.isDataReady = false → r.coords unit = [] := by
    intro r hr hready
    refine eq_nil_iff_forall_not_mem.mpr fun c hc => ?_
    rw [h.isDataReady hunit hr ((h.mem_coords hunit hr).mp hc)] at hready
    cases hready
  clear h
  induction regions with
  | nil => rfl
  | cons r regions ih =>
    have ih' := ih fun r' hr' => hempty r' (mem_cons_of_mem _ hr')
    cases hready : r.isDataReady with
    | true => rw [filter_cons_of_pos hready, flatMap_cons, flatMap_cons, ih']
    | false =>
      rw [filter_cons_of_neg (by rw [hready]; exact false_ne_true), ih',
        flatMap_cons, hempty r mem_cons_self hready, nil_append]

end

end

/-! ## The scan -/

section

variable {unit n : Nat} {data : Nat → Int} {regions : List QueryRegion} {op : CombineOp}
  {stray : QueryRegion → Nat → Int} {p : Int → Bool}

theorem scan_foldlM_eq (hop : op ≠ .and) : ∀ (rs : List QueryRegion) (coords : List Nat),
    rs.foldlM (queryEvaluateScanOpt stray (some p) unit op) coords =
      some (coords ++ rs.flatMap (scanRegion stray p unit))
  | [], coords => by rw [flatMap_nil, append_nil]; rfl
  | r :: rs, coords => by
      have hstep : queryEvaluateScanOpt stray (some p) unit op coords r =
          some (coords ++ scanRegion stray p unit r) := by
        have hscan : (if 0 < r.count / unit then
            (some p).map fun p => coords ++ scanRegion stray p unit r else some coords) =
              some (coords ++ scanRegion stray p unit r) := by
          split
          · rfl
          · next hzero =>
            rw [scanRegion, Nat.eq_zero_of_not_pos hzero]
            exact congrArg some (append_nil coords).symm
        cases op with
        | and => exact absurd rfl hop
        | none => exact hscan
        | or => exact hscan
      rw [foldlM_cons, hstep]
      show rs.foldlM _ (coords ++ scanRegion stray p unit r) = _
      rw [scan_foldlM_eq hop rs, flatMap_cons, append_assoc]

def matching (unit : Nat) (data : Nat → Int) (regions : List QueryRegion) (p : Int → Bool) :
    List Nat :=
  (regions.flatMap (QueryRegion.coords unit)).filter fun c => p (data c)

section

variable (h : Stores unit n data regions)
include h

theorem Stores.scan_eq (hunit : 0 < unit) (hop : op ≠ .and) (coords : List Nat) :
    (regions.filter (·.isDataReady)).foldlM (queryEvaluateScanOpt stray (some p) unit op) coords =
      some (coords ++ matching unit data regions p) := by
  rw [scan_foldlM_eq hop, matching, ← h.ready_flatMap_coords hunit, filter_flatMap]
  refine congrArg (fun l => some (coords ++ l)) (flatMap_congr fun r hr => ?_)
  obtain ⟨off, len, hold⟩ := h.run r (mem_of_mem_filter hr)
  exact hold.scanRegion_eq hunit stray p

theorem Stores.matching_perm (hunit : 0 < unit) :
    (matching unit data regions p).Perm ((range n).filter fun c => p (data c)) :=
  (h.coords_perm hunit).filter _

theorem Stores.nodup_matching (hunit : 0 < unit) : (matching unit data regions p).Nodup :=
  (h.matching_perm hunit).nodup_iff.mpr (nodup_range.filter _)

theorem Stores.mem_matching (hunit : 0 < unit) :
    c ∈ matching unit data regions p ↔ c < n ∧ p (data c) = true := by
  rw [(h.matching_perm hunit).mem_iff, mem_filter, mem_range]

end

end

/-! ## The walk over the selection -/

section

variable {unit n : Nat} {data : Nat → Int} {stray : QueryRegion → Nat → Int} {p : Int → Bool}

/-- Whether a region leaves a coordinate in the selection. -/
def survives (stray : QueryRegion → Nat → Int) (p : Int → Bool) (unit : Nat) (r : QueryRegion)
    (c : Nat) : Bool :=
  !isCoordWithinRegion unit r c || p (r.edata stray (coordToRegionIndex unit r c))

theorem markCoord_eq (hc : c ≠ ullongMax) :
    markCoord stray p unit r c = if survives stray p unit r c then c else ullongMax := by
  unfold markCoord survives
  cases isCoordWithinRegion unit r c with
  | true => rw [if_pos ⟨hc, rfl⟩, Bool.not_true, Bool.false_or]
  | false => rw [if_neg fun h => Bool.false_ne_true h.2, Bool.not_false, Bool.true_or, if_pos rfl]

section

variable {r : QueryRegion} {coords : List Nat} (hcoords : ∀ c ∈ coords, c ≠ ullongMax)
include hcoords

theorem filter_markCoord_eq :
    (coords.map (markCoord stray p unit r)).filter (· ≠ ullongMax) =
      coords.filter (survives stray p unit r) := by
  induction coords with
  | nil => rfl
  | cons c coords ih =>
    have hc : c ≠ ullongMax := hcoords c mem_cons_self
    have ih' := ih fun c hc => hcoords c (mem_cons_of_mem _ hc)
    rw [map_cons, markCoord_eq hc]
    cases hsur : survives stray p unit r c with
    | true =>
      rw [if_pos rfl, filter_cons_of_pos (by simpa using hc), filter_cons_of_pos hsur, ih']
    | false =>
      rw [filter_cons_of_neg (by simp), filter_cons_of_neg (by simp [hsur]), ih']

theorem filterRegion_eq :
    filterRegion stray p unit r coords = coords.filter (survives stray p unit r) := by
  rw [← filter_markCoord_eq hcoords]
  show (if _ then _ else _) = _
  split
  · next hsame =>
    rw [hsame]
    exact (filter_eq_self.mpr fun c hc => decide_eq_true (hcoords c hc)).symm
  · rfl

theorem filter_step_eq :
    queryEvaluateScanOpt stray (some p) unit .and coords r =
      some (coords.filter (survives stray p unit r)) := by
  show (if _ then _ else _) = _
  split
  · exact congrArg some (filterRegion_eq hcoords)
  · next hnone =>
    refine congrArg some (filter_eq_self.mpr fun c hc => ?_).symm
    have hout : isCoordWithinRegion unit r c = false := by
      by_contra hin
      refine hnone (any_eq_true.mpr ⟨c, hc, ?_⟩)
      rw [decide_eq_true (hcoords c hc)]
      exact Bool.eq_true_of_not_eq_false hin
    rw [survives, hout, Bool.not_false, Bool.true_or]

end

theorem filter_foldlM_eq : ∀ (rs : List QueryRegion) (coords : List Nat),
    (∀ c ∈ coords, c ≠ ullongMax) →
    rs.foldlM (queryEvaluateScanOpt stray (some p) unit .and) coords =
      some (coords.filter fun c => rs.all fun r => survives stray p unit r c)
  | [], coords, _ => congrArg some (filter_eq_self.mpr fun _ _ => rfl).symm
  | r :: rs, coords, hcoords => by
      rw [foldlM_cons, filter_step_eq hcoords]
      show rs.foldlM _ (coords.filter (survives stray p unit r)) = _
      rw [filter_foldlM_eq rs _ fun c hc => hcoords c (mem_of_mem_filter hc), filter_filter]
      refine congrArg some (filter_congr fun c _ => ?_)
      rw [all_cons, Bool.and_comm]

section

variable {off len c : Nat} {r : QueryRegion} (h : r.Holds unit data off len) (hunit : 0 < unit)
include h hunit

theorem QueryRegion.Holds.edata_of_has (hc : r.Has unit c) :
    r.edata stray (coordToRegionIndex unit r c) = if r.start = 0 then data 0 else data c := by
  have hbounds := (h.has_iff hunit).mp hc
  have hcount : r.count ≠ 0 := by
    have : 0 < len * unit := Nat.mul_pos (by omega) hunit
    rw [h.count]
    omega
  unfold coordToRegionIndex
  by_cases hstart : r.start = 0
  · have hoff : off = 0 := by
      rcases Nat.mul_eq_zero.mp (h.start.symm.trans hstart) with hoff | hzero
      · exact hoff
      · omega
    rw [if_pos (Or.inl hstart), if_pos hstart, h.edata_eq stray (by omega), hoff]
  · rw [if_neg (by rintro (h₁ | h₁); exacts [hstart h₁, hcount h₁]), if_neg hstart, h.start,
      Nat.mul_div_cancel _ hunit, h.edata_eq stray (by omega), Nat.add_sub_cancel' hbounds.1]

theorem QueryRegion.Holds.edata_of_not_has (hc : ¬ r.Has unit c)
    (hin : isCoordWithinRegion unit r c = true) :
    r.edata stray (coordToRegionIndex unit r c) =
      if r.start = 0 ∧ r.count ≠ 0 then data 0 else stray r (coordToRegionIndex unit r c) := by
  have hend : off ≤ c ∧ c ≤ off + len := by
    simp only [isCoordWithinRegion, not_eq_true', or_eq_false_iff,
      decide_eq_false_iff_not, Nat.not_lt] at hin
    rwa [h.start, h.count, ← Nat.add_mul, Nat.mul_le_mul_right_iff hunit,
      Nat.mul_le_mul_right_iff hunit] at hin
  have hlast : c = off + len := by
    rw [h.has_iff hunit] at hc
    omega
  by_cases hfirst : r.start = 0 ∧ r.count ≠ 0
  · have hoff : off = 0 := by
      rcases Nat.mul_eq_zero.mp (h.start.symm.trans hfirst.1) with hoff | hzero
      · exact hoff
      · omega
    have hlen : 0 < len := by
      rcases Nat.eq_zero_or_pos len with hzero | hpos
      · exact absurd (by rw [h.count, hzero, Nat.zero_mul]) hfirst.2
      · exact hpos
    rw [if_pos hfirst, coordToRegionIndex, if_pos (Or.inl hfirst.1), h.edata_eq stray hlen, hoff]
  · rw [if_neg hfirst]
    refine h.edata_stray stray ?_
    -- Either the region is empty, or the index is one past its last.
    unfold coordToRegionIndex
    split
    · next hor =>
      have hcount : r.count = 0 := by
        by_contra hne
        exact hor.elim (fun h₁ => hfirst ⟨h₁, hne⟩) hne
      rcases Nat.mul_eq_zero.mp (h.count.symm.trans hcount) with hzero | hzero <;> omega
    · rw [h.start, Nat.mul_div_cancel _ hunit]
      omega

end

theorem isCoordWithinRegion_of_has (h : r.Has unit c) :
    isCoordWithinRegion unit r c = true := by
  simp only [isCoordWithinRegion, not_eq_true', or_eq_false_iff, decide_eq_false_iff_not,
    Nat.not_lt]
  exact ⟨h.1, h.2.le⟩

end

/-! ## The whole leaf -/

section

variable {m : Machine} {stray : QueryRegion → Nat → Int} {n : Nat} {data : Nat → Int}
  {regions : List QueryRegion} {c : Constraint} {left : Option Query} {op : CombineOp}
  {s : QueryState}

section

variable (h : Stores (getVarTypeSize c.type) n data regions)
include h

section

variable (hunit : 0 < getVarTypeSize c.type)
include hunit

section

variable (htotal : s.totalElem = 0 ∨ s.totalElem = n)
include htotal

theorem Stores.total_eq :
    (if s.totalElem = 0 then (regions.map fun r => r.dataSize / getVarTypeSize c.type).sum
      else s.totalElem) = n := by
  rw [h.totalElem_eq hunit]
  split
  · rfl
  · next hne => exact htotal.resolve_left hne

theorem Stores.evaluate_of_done (hne : regions ≠ [])
    (hdone : (s.coords.length = n ∧ op = .or) ∨ (s.coords.length = 0 ∧ op = .and)) :
    queryEvaluateMergeOpt m stray regions c left op s = some ⟨n, s.coords⟩ := by
  unfold queryEvaluateMergeOpt
  simp only [h.total_eq hunit htotal]
  rw [if_neg hne]
  rcases hdone with hall | hnone
  · rw [if_pos hall]
  · split
    · rfl
    · rfl

theorem Stores.evaluate_of_error (hne : regions ≠ [])
    (hscan : (regions.filter (·.isDataReady)).foldlM
      (queryEvaluateScanOpt stray (c.test m) (getVarTypeSize c.type) op) s.coords = none) :
    queryEvaluateMergeOpt m stray regions c left op s = some ⟨n, s.coords⟩ := by
  unfold queryEvaluateMergeOpt
  simp only [h.total_eq hunit htotal, hscan]
  rw [if_neg hne]
  split
  · rfl
  · split
    · rfl
    · split <;> rfl

theorem Stores.evaluate_of_scan (hne : regions ≠ [])
    (hdone : ¬ ((s.coords.length = n ∧ op = .or) ∨ (s.coords.length = 0 ∧ op = .and)))
    (hty : c.isRange = true → c.type.hasRanges = true) {coords : List Nat}
    (hscan : (regions.filter (·.isDataReady)).foldlM
      (queryEvaluateScanOpt stray (c.test m) (getVarTypeSize c.type) op) s.coords = some coords) :
    queryEvaluateMergeOpt m stray regions c left op s = (removeDuplicates c left op
        (if regions.filter (·.isDataReady) = [] ∧ op = .and then [] else coords)).map
          fun coords => ⟨n, coords⟩ := by
  unfold queryEvaluateMergeOpt
  simp only [h.total_eq hunit htotal, hscan]
  rw [if_neg hne, if_neg fun hor => hdone (Or.inl hor), if_neg fun hand => hdone (Or.inr hand),
    if_neg]
  rintro ⟨hrange, hno⟩
  rw [hty hrange] at hno
  cases hno

end

end

end

end

end Pdc
