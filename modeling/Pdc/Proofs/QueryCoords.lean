import Pdc.Lib.Run
import Pdc.Server.QueryCoords

/-!
# Room for the hits of a query, and their coordinates

The array of a selection starts with 8192 entries and is doubled by a test
that counts every hit found before the scan several times, so that a hit is
stored inside it as long as there is anything to double. A leaf that is
combined with AND and has no region to evaluate frees the array, and then
there is not: doubling leaves it empty. Later leaves combined with AND do
nothing, since there are no hits, but one combined with OR stores its first
hit outside the array. So there is always room just if a leaf that is
evaluated while the array is empty finds nothing (`StoresFit`).

The coordinates of hits are right in one dimension only. What
`region_index_to_coord` subtracts is the size of a row or plane instead of
that of those before the element, and `coord_to_region_index` cannot make up
for it: for the first element of any region of two or three dimensions one is
not the inverse of the other.
-/

namespace Pdc

open List Lib Option

variable {t : CoordTask} {sel sel' : Selection} {c : CoordLeaf} {op : CombineOp} {r : CoordRegion}
  {rs : List CoordRegion} {nhits : Nat}

/-! ## Room -/

/-- Every coordinate so far was stored inside the array, and so are the hits. -/
structure HasRoom (t : CoordTask) (sel : Selection) : Prop where
  inside : sel.overrun = false
  length_le : sel.hits.length * t.ndim ≤ sel.coordsAlloc

/-- If the array is empty, the leaf is not evaluated or finds nothing. -/
def StoresFit (t : CoordTask) (sel : Selection) : CoordVisit → Prop
  | (c, _, op) => sel.coordsAlloc = 0 → op ≠ .and → ¬ c.Exits op sel →
      ∀ r ∈ c.evaluatedRegions, c.passing t r = []

/-- The array is freed, or can be doubled. -/
structure Roomy (t : CoordTask) (sel : Selection) : Prop extends HasRoom t sel where
  alloc : sel.coordsAlloc = 0 ∨ 3 ≤ sel.coordsAlloc

/-- No hit is added. -/
structure Shrinks (sel sel' : Selection) : Prop where
  overrun : sel'.overrun = sel.overrun
  alloc : sel'.coordsAlloc = sel.coordsAlloc
  length_le : sel'.hits.length ≤ sel.hits.length

theorem Shrinks.roomy (h : Shrinks sel sel') (hsel : Roomy t sel) : Roomy t sel' where
  inside := h.overrun.trans hsel.inside
  length_le := by
    rw [h.alloc]
    exact (Nat.mul_le_mul_right _ h.length_le).trans hsel.length_le
  alloc := by
    rw [h.alloc]
    exact hsel.alloc

theorem shrinks_removeDuplicateHits (c : CoordLeaf) (left : Option (QueryTree CoordLeaf))
    (op : CombineOp) (sel : Selection) : Shrinks sel (removeDuplicateHits c left op sel) := by
  unfold removeDuplicateHits
  split
  · split
    · split
      · exact ⟨rfl, rfl, length_sortUnique_le _ _⟩
      · exact ⟨rfl, rfl, le_refl _⟩
    · exact ⟨rfl, rfl, le_refl _⟩
  · exact ⟨rfl, rfl, le_refl _⟩

/-! ### Scans that add hits -/

section

variable (hsel : HasRoom t sel) (halloc : 3 ≤ sel.coordsAlloc)
include hsel halloc

/-- One hit. The test for room is conservative, and doubling makes room for a hit. -/
theorem storeHit_room (hn : nhits ≤ sel.hits.length) (write : (Nat → UInt64) → Nat → UInt64) :
    HasRoom t (storeHit t nhits write sel) ∧ 3 ≤ (storeHit t nhits write sel).coordsAlloc ∧
      nhits ≤ (storeHit t nhits write sel).hits.length := by
  have hle := hsel.length_le
  simp only [storeHit, length_append, length_singleton]
  refine ⟨⟨?_, ?_⟩, ?_, by omega⟩
  · simp only [hsel.inside, Bool.false_or, decide_eq_false_iff_not]
    rcases t.ndim_eq with hd | hd | hd <;> rw [hd] at hle ⊢ <;> split <;> omega
  · simp only [length_append, length_singleton]
    rcases t.ndim_eq with hd | hd | hd <;> rw [hd] at hle ⊢ <;> split <;> omega
  · split <;> omega

theorem scan_room (r : CoordRegion) :
    HasRoom t (c.scan t sel r) ∧ 3 ≤ (c.scan t sel r).coordsAlloc := by
  have hscan := foldlRecOn (motive := fun s => HasRoom t s ∧ 3 ≤ s.coordsAlloc ∧
      sel.hits.length ≤ s.hits.length) (c.passing t r) _ ⟨hsel, halloc, le_refl _⟩
    fun s hs i _ => storeHit_room hs.1 hs.2.1 hs.2.2 (r.hitCoord t.ndim c.unit · (UInt64.ofNat i))
  exact ⟨hscan.1, hscan.2.1⟩

theorem foldl_scan_room (rs : List CoordRegion) :
    HasRoom t (rs.foldl (c.scan t) sel) ∧ 3 ≤ (rs.foldl (c.scan t) sel).coordsAlloc :=
  foldlRecOn (motive := fun s => HasRoom t s ∧ 3 ≤ s.coordsAlloc) rs _ ⟨hsel, halloc⟩
    fun _ hs r _ => scan_room hs.1 hs.2 r

end

theorem foldl_storeHit_overrun {write : Nat → (Nat → UInt64) → Nat → UInt64}
    (h : sel.overrun = true) (is : List Nat) :
    (is.foldl (fun s i => storeHit t nhits (write i) s) sel).overrun = true :=
  foldlRecOn (motive := fun s : Selection => s.overrun = true) is _ h
    fun s hs i _ => by simp [storeHit, hs]

theorem scan_empty (h : sel.coordsAlloc = 0) (hr : c.passing t r ≠ []) :
    (c.scan t sel r).overrun = true := by
  obtain ⟨i, is, his⟩ := exists_cons_of_ne_nil hr
  rw [CoordLeaf.scan, his]
  exact foldl_storeHit_overrun (by simp [storeHit, h]) is

theorem scan_of_nil (hr : c.passing t r = []) : c.scan t sel r = sel := by
  rw [CoordLeaf.scan, hr]
  rfl

theorem foldl_scan_of_nil (h : ∀ r ∈ rs, c.passing t r = []) :
    rs.foldl (c.scan t) sel = sel :=
  foldlRecOn (motive := fun s => s = sel) rs _ rfl fun s hs r hr => by
    rw [scan_of_nil (h r hr), hs]

theorem foldl_scan_empty (h : sel.coordsAlloc = 0) (hover : sel.overrun = false)
    (rs : List CoordRegion) :
    (rs.foldl (c.scan t) sel).overrun = false ↔ ∀ r ∈ rs, c.passing t r = [] := by
  induction rs with
  | nil => simpa using hover
  | cons r rs ih =>
    rw [foldl_cons, forall_mem_cons]
    by_cases hr : c.passing t r = []
    · rw [scan_of_nil hr, and_iff_right hr]
      exact ih
    · have hstays := foldlRecOn (motive := fun s => s.overrun = true) rs (c.scan t)
        (scan_empty h hr) fun s hs r _ => foldl_storeHit_overrun hs _
      exact iff_of_false (by simp [hstays]) fun hall => hr hall.1

theorem scanOpt_of_ne (hop : op ≠ .and) (r : CoordRegion) :
    c.scanOpt t op sel r = if c.test.isNone ∧ r.compared t c.unit ≠ [] then none
      else some (c.scan t sel r) := by
  cases op with
  | and => exact absurd rfl hop
  | none => rfl
  | or => rfl

theorem foldlM_scanOpt (hop : op ≠ .and) (rs : List CoordRegion) :
    rs.foldlM (c.scanOpt t op) sel = some (rs.foldl (c.scan t) sel) ∨
      rs.foldlM (c.scanOpt t op) sel = none ∧ c.test = none := by
  induction rs generalizing sel with
  | nil => exact .inl rfl
  | cons r rs ih =>
    rw [foldlM_cons, scanOpt_of_ne hop]
    split
    · next h => exact .inr ⟨rfl, isNone_iff_eq_none.mp h.1⟩
    · exact ih

/-! ### Scans that remove hits -/

theorem shrinks_scanOpt_and (h : c.scanOpt t .and sel r = some sel') :
    Shrinks sel sel' := by
  simp only [CoordLeaf.scanOpt] at h
  split at h
  · obtain ⟨p, -, rfl⟩ := map_eq_some_iff.mp h
    refine ⟨rfl, rfl, ?_⟩
    split
    · exact le_refl _
    · exact (length_filter_le _ _).trans_eq (length_map _)
  · cases h
    exact ⟨rfl, rfl, le_refl _⟩

theorem roomy_foldlM_and (hsel : Roomy t sel)
    (h : rs.foldlM (c.scanOpt t .and) sel = some sel') : Roomy t sel' := by
  induction rs generalizing sel with
  | nil => cases h; exact hsel
  | cons r rs ih =>
    obtain ⟨s, hs, h⟩ := bind_eq_some_iff.mp h
    exact ih ((shrinks_scanOpt_and hs).roomy hsel) h

/-! ### Leaves -/

theorem evaluateMergeOpt_room (hsel : Roomy t sel) (v : CoordVisit) :
    (HasRoom t (evaluateMergeOpt t sel v) → StoresFit t sel v) ∧
      (StoresFit t sel v → Roomy t (evaluateMergeOpt t sel v)) := by
  obtain ⟨c, left, op⟩ := v
  simp only [evaluateMergeOpt]
  generalize hnew : { sel with totalElem := if c.regions = [] then sel.totalElem else c.total sel }
    = new
  have hshrinks : Shrinks sel new := by
    rw [← hnew]
    exact ⟨rfl, rfl, le_refl _⟩
  have hroomy := hshrinks.roomy hsel
  split
  · next hexit => exact ⟨fun _ _ _ hno => absurd hexit hno, fun _ => hroomy⟩
  next hexit =>
    by_cases hop : op = .and
    · subst hop
      refine ⟨fun _ _ hno => absurd rfl hno, fun _ => ?_⟩
      split
      · exact hroomy
      · next s hs =>
        refine (shrinks_removeDuplicateHits c left .and _).roomy ?_
        have hkept := roomy_foldlM_and hroomy hs
        split
        · exact ⟨⟨hkept.inside, by simp⟩, .inl rfl⟩
        · exact hkept
    · rcases @foldlM_scanOpt t new c op hop c.evaluatedRegions with
        hsome | ⟨hnone, htest⟩
      · rw [hsome]
        dsimp only
        rw [if_neg fun hand => hop hand.2]
        have hdup := shrinks_removeDuplicateHits c left op (c.evaluatedRegions.foldl (c.scan t) new)
        rcases hsel.alloc with hzero | hroom
        · have hempty := foldl_scan_empty (c := c) (t := t) (hshrinks.alloc.trans hzero)
            hroomy.inside c.evaluatedRegions
          refine ⟨fun hafter _ _ _ => hempty.mp (hdup.overrun ▸ hafter.inside), fun hfit => ?_⟩
          refine hdup.roomy ?_
          rw [foldl_scan_of_nil (hfit hzero hop hexit)]
          exact hroomy
        · obtain ⟨hafter, halloc⟩ := foldl_scan_room hroomy.toHasRoom
            (hshrinks.alloc ▸ hroom) c.evaluatedRegions
          exact ⟨fun _ hzero => by omega, fun _ => hdup.roomy ⟨hafter, .inr halloc⟩⟩
      · rw [hnone]
        refine ⟨fun _ _ _ _ r _ => ?_, fun _ => hroomy⟩
        simp [CoordLeaf.passing, htest]

/-- During the evaluation of a query there is room for every hit just if every leaf
evaluated while the array is empty finds nothing. -/
theorem hasRoom_iff (t : CoordTask) (query : QueryTree CoordLeaf) :
    (∀ pre, pre <+: query.leafVisits none .none → HasRoom t (run (evaluateMergeOpt t) {} pre)) ↔
      Along (evaluateMergeOpt t) (StoresFit t) {} (query.leafVisits none .none) :=
  Along.forall_isPrefix_iff_of_invariant (I := fun _ sel => Roomy t sel)
    ⟨⟨rfl, by simp⟩, .inr (by decide)⟩ (fun _ _ h => h.toHasRoom)
    fun _ v _ _ h => evaluateMergeOpt_room h v

def oneElement : CoordRegion := ⟨fun _ => 0, fun _ => 1, 1, fun _ => 5, true⟩

/-- A comparison that 5 passes, on regions of the kind. -/
def passingLeaf (objId : UInt64) (regions : List CoordRegion) : CoordLeaf :=
  ⟨objId, 1, some fun x => x = 5, true, regions⟩

/-- The first leaf has a hit, the second no region to evaluate, and the third, which is
combined with OR, a hit again. -/
def resetQuery : QueryTree CoordLeaf :=
  .node .or (.node .and (.leaf (passingLeaf 1 [oneElement]))
      (.leaf (passingLeaf 2 [{ oneElement with evaluated := false }])))
    (.leaf (passingLeaf 3 [oneElement]))

def oneDimTask : CoordTask := ⟨1, none, fun _ _ => 0, fun _ => 0, .inl rfl⟩

theorem not_hasRoom_resetQuery :
    (run (evaluateMergeOpt oneDimTask) {} (resetQuery.leafVisits none .none)).coordsAlloc = 0 ∧
      ¬ ∀ pre, pre <+: resetQuery.leafVisits none .none →
        HasRoom oneDimTask (run (evaluateMergeOpt oneDimTask) {} pre) := by
  refine ⟨by decide, fun h => ?_⟩
  have hover : (run (evaluateMergeOpt oneDimTask) {} (resetQuery.leafVisits none .none)).overrun =
      true := by decide
  exact absurd (h _ (prefix_refl _)).inside (by simp [hover])

/-! ## Coordinates -/

/-- The size of a region in elements. -/
def CoordRegion.extent (r : CoordRegion) (unit : UInt64) (d : Nat) : UInt64 := r.count d / unit

def CoordRegion.elements (r : CoordRegion) (ndim : Nat) (unit : UInt64) : UInt64 :=
  ((List.range ndim).map (r.extent unit)).foldl (· * ·) 1

/-- Where an element of a region is; dimension 0 is the one the index runs through first. -/
def CoordRegion.globalCoord (r : CoordRegion) (unit : UInt64) (i d : Nat) : UInt64 :=
  r.start d / unit + UInt64.ofNat (match d with
    | 0 => i % (r.extent unit 0).toNat
    | 1 => i / (r.extent unit 0).toNat % (r.extent unit 1).toNat
    | _ => i / ((r.extent unit 0).toNat * (r.extent unit 1).toNat))

def CoordRegion.HasCoord (r : CoordRegion) (ndim : Nat) (unit : UInt64) (coord : Nat → UInt64) :
    Prop :=
  ∀ d < ndim, r.start d / unit ≤ coord d ∧ coord d < r.start d / unit + r.extent unit d

/-- Hits are recorded with their coordinates, no two with the same, and the two conversions
are inverse to each other. -/
structure CoordsRight (t : CoordTask) (unit : UInt64) (r : CoordRegion) : Prop where
  recorded : ∀ (c : CoordLeaf) (op : CombineOp) (sel sel' : Selection), c.unit = unit →
    op ≠ .and → c.scanOpt t op sel r = some sel' →
      sel'.hits = sel.hits ++ (c.passing t r).map fun i =>
        (List.range t.ndim).map (r.globalCoord unit i)
  distinct : ∀ i ∈ r.compared t unit, ∀ j ∈ r.compared t unit, ∀ coords coords',
    (∀ d < t.ndim, r.hitCoord t.ndim unit coords (UInt64.ofNat i) d =
      r.hitCoord t.ndim unit coords' (UInt64.ofNat j) d) → i = j
  index_coord : ∀ i < r.elements t.ndim unit,
    r.coordToRegionIndex t.ndim (fun d =>
      regionIndexToCoord t.ndim i (r.extent unit) t.junk d + r.start d / unit) unit = i
  coord_index : ∀ coord, r.HasCoord t.ndim unit coord → ∀ d < t.ndim,
    regionIndexToCoord t.ndim (r.coordToRegionIndex t.ndim coord unit) (r.extent unit) t.junk d +
      r.start d / unit = coord d

/-- A region as it is stored: whole elements, an end in every dimension, and no more
elements than can be counted. -/
structure CoordRegion.Stored (ndim : Nat) (unit : UInt64) (r : CoordRegion) : Prop where
  whole : ∀ d < ndim, r.extent unit d * unit = r.count d
  noWrap : ∀ d < ndim, (r.start d / unit).toNat + (r.extent unit d).toNat < 2 ^ 64
  elements_lt : ((List.range ndim).map fun d => (r.extent unit d).toNat).foldl (· * ·) 1 < 2 ^ 64

theorem uint64_div_self {x : UInt64} (h : x ≠ 0) : x / x = 1 := by
  apply UInt64.toNat_inj.mp
  exact Nat.div_self (Nat.pos_of_ne_zero fun h0 => h (UInt64.toNat_inj.mp h0))

theorem regionIndexToCoord_ne {ndim : Nat} (hdim : ndim = 2 ∨ ndim = 3) (k : UInt64)
    {n : Nat → UInt64} (coord : Nat → UInt64) (h2 : n 0 ≠ 0) (h3 : ndim = 3 → n 1 * n 0 ≠ 0) :
    ¬ ∀ d < ndim, regionIndexToCoord ndim k n coord d = 0 := by
  intro h
  have hfirst := h 0 (by omega)
  rcases hdim with rfl | rfl
  · have hrow := h 1 (by omega)
    simp [regionIndexToCoord] at hfirst hrow
    have hk : k = n 0 := by grind
    rw [hk, uint64_div_self h2] at hrow
    exact absurd hrow (by decide)
  · have hplane := h 2 (by omega)
    simp [regionIndexToCoord] at hfirst hplane
    have hk : k = n 1 * n 0 := by grind
    rw [hk, uint64_div_self (h3 rfl)] at hplane
    exact absurd hplane (by decide)

theorem foldl_mul_dims_eq_zero (t : CoordTask) {f : Nat → UInt64} {d : Nat}
    (hd : d < t.ndim) (h : f d = 0) :
    ((List.range t.ndim).map f).foldl (· * ·) 1 = 0 := by
  have hd' : d = 0 ∨ d = 1 ∨ d = 2 := by have := t.ndim_eq; omega
  rcases t.ndim_eq with hn | hn | hn <;> rw [hn] at hd ⊢ <;> rcases hd' with rfl | rfl | rfl <;>
    first | omega | simp [range_succ, h]

/-- For a region of two or three dimensions the coordinates are right just if it has no
elements. -/
theorem coordsRight_iff (t : CoordTask) (hdim : t.ndim ≠ 1) (unit : UInt64) (r : CoordRegion)
    (hr : r.Stored t.ndim unit) : CoordsRight t unit r ↔ ∃ d < t.ndim, r.count d = 0 := by
  constructor
  · intro h
    by_contra hne
    have hpos : ∀ d < t.ndim, 0 < (r.extent unit d).toNat := by
      intro d hd
      refine Nat.pos_of_ne_zero fun h0 => hne ⟨d, hd, ?_⟩
      rw [← hr.whole d hd, UInt64.toNat_inj.mp (h0.trans UInt64.toNat_zero.symm), UInt64.zero_mul]
    have hstart : r.HasCoord t.ndim unit fun d => r.start d / unit := by
      intro d hd
      have hlt := hr.noWrap d hd
      have hextent := hpos d hd
      rw [UInt64.lt_iff_toNat_lt, UInt64.toNat_add, Nat.mod_eq_of_lt hlt]
      exact ⟨UInt64.le_refl _, Nat.lt_add_of_pos_right hextent⟩
    have hback := h.coord_index _ hstart
    refine regionIndexToCoord_ne (t.ndim_eq.resolve_left hdim)
      (r.coordToRegionIndex t.ndim (fun d => r.start d / unit) unit) t.junk
      (n := r.extent unit) ?_ ?_ fun d hd => ?_
    · exact fun h0 => absurd (hpos 0 (by have := t.ndim_eq; omega)) (by simp [h0])
    · intro h3 h0
      have hlt := hr.elements_lt
      have h0' := hpos 0 (by omega)
      have h1' := hpos 1 (by omega)
      have h2' := hpos 2 (by omega)
      simp [h3, range_succ] at hlt
      have hprod := congrArg UInt64.toNat h0
      rw [UInt64.toNat_mul, Nat.mod_eq_of_lt] at hprod
      · exact absurd hprod (Nat.mul_pos h1' h0').ne'
      · rw [Nat.mul_comm]
        exact (Nat.le_mul_of_pos_right _ h2').trans_lt hlt
    · have hd := hback d hd
      grind
  · intro ⟨d, hd, h0⟩
    have hnone : r.compared t unit = [] := by
      rw [CoordRegion.compared, CoordRegion.nelem, foldl_mul_dims_eq_zero t hd h0]
      simp
    have hextent : r.extent unit d = 0 := by rw [CoordRegion.extent, h0, UInt64.zero_div]
    refine ⟨fun c op sel sel' hunit hop hscan => ?_, fun i hi => ?_, fun i hi => ?_,
      fun coord hcoord => ?_⟩
    · have hpassing : c.passing t r = [] := by rw [CoordLeaf.passing, hunit, hnone]; rfl
      rw [scanOpt_of_ne hop, if_neg fun hne => hne.2 (hunit ▸ hnone), scan_of_nil hpassing] at hscan
      rw [hpassing, ← Option.some.inj hscan, map_nil, append_nil]
    · rw [hnone] at hi
      simp at hi
    · have hempty : r.elements t.ndim unit = 0 :=
        foldl_mul_dims_eq_zero t hd hextent
      rw [hempty] at hi
      exact absurd hi (UInt64.not_lt_zero)
    · have hin := hcoord d hd
      rw [hextent, UInt64.add_zero] at hin
      exact absurd (UInt64.lt_of_lt_of_le hin.2 hin.1) (UInt64.lt_irrefl _)

def twoDimTask : CoordTask := ⟨2, none, fun _ _ => 0, fun _ => 0, .inr (.inl rfl)⟩

def noColumns : CoordRegion := ⟨fun _ => 4, fun d => if d = 0 then 0 else 8, 0, fun _ => 0, true⟩

theorem coordsRight_noColumns : CoordsRight twoDimTask 4 noColumns :=
  (coordsRight_iff twoDimTask (by decide) 4 noColumns ⟨by decide, by decide, by decide⟩).mpr
    ⟨0, by decide, rfl⟩

/-- Two columns and two rows of `int` from (1, 1) on; the elements are their indices. -/
def twoByTwo : CoordRegion := ⟨fun _ => 4, fun _ => 8, 16, Int.ofNat, true⟩

/-- The last element is at (2, 2) and recorded at (0, 2). -/
theorem not_coordsRight_twoByTwo :
    twoByTwo.Stored 2 4 ∧
      (CoordLeaf.scanOpt twoDimTask ⟨1, 4, some fun x => x = 3, true, []⟩ .none {} twoByTwo).map
        Selection.hits = some [[0, 2]] ∧
      (List.range 2).map (twoByTwo.globalCoord 4 3) = [2, 2] ∧
      ¬ CoordsRight twoDimTask 4 twoByTwo := by
  have hscan : (CoordLeaf.scanOpt twoDimTask ⟨1, 4, some fun x => x = 3, true, []⟩ .none {}
      twoByTwo).map Selection.hits = some [[0, 2]] := by decide
  refine ⟨⟨by decide, by decide, by decide⟩, hscan, by decide, fun h => ?_⟩
  obtain ⟨sel, hsel, hhits⟩ := Option.map_eq_some_iff.mp hscan
  have hrecorded := h.recorded _ .none _ sel rfl (by decide) hsel
  rw [hhits] at hrecorded
  exact absurd hrecorded (by decide)

end Pdc
