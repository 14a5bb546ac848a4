import Pdc.Server.QuerySkip
import Pdc.Proofs.QueryLeaf

/-!
# The first leaf of a query with a region constraint

Without histograms no region is rejected. The first leaf loads all regions of
its object and scans those that overlap the region constraint and can be read.
The array of coordinates starts with room for some, and doubling it makes room
for one more, so that nothing is written behind its end.
-/

namespace Pdc

open List Lib

variable {e : QueryEnv} {c : Constraint} {s : SkipState} {iter : Nat} {r : QueryRegion}
  {p : Int → Bool}

/-! ## Loading -/

theorem loadQueryData_false (count : Nat) :
    ∃ loaded, loadQueryData e false c .none count s = { s with loaded := loaded } ∧
      ∀ i < count, (c.objId, i) ∈ loaded := by
  induction count with
  | zero => exact ⟨s.loaded, rfl, nofun⟩
  | succ count ih =>
    obtain ⟨loaded, heq, hmem⟩ := ih
    have hsucc : loadQueryData e false c .none (count + 1) s =
        loadRegion e false c .none { s with loaded := loaded } count := by
      rw [← heq, loadQueryData, range_succ, foldl_append]
      rfl
    rw [hsucc]
    simp only [loadRegion, reduceCtorEq, Bool.false_eq_true, false_and, if_false]
    split
    · next hold =>
      refine ⟨loaded, rfl, fun i hi => ?_⟩
      rcases Nat.lt_succ_iff_lt_or_eq.mp hi with hlt | rfl
      · exact hmem i hlt
      · exact hold
    · refine ⟨loaded ++ [(c.objId, count)], rfl, fun i hi => mem_append.mpr ?_⟩
      rcases Nat.lt_succ_iff_lt_or_eq.mp hi with hlt | rfl
      · exact .inl (hmem i hlt)
      · exact .inr (mem_singleton.mpr rfl)

/-! ## Room for the coordinates -/

/-- The array is not empty and has room for the coordinates selected so far. -/
structure SkipState.HasRoom (s : SkipState) : Prop where
  pos : 0 < s.coordsAlloc
  le : s.coords.length ≤ s.coordsAlloc

theorem SkipState.HasRoom.growAlloc (h : s.HasRoom) (coords : List Nat) :
    ∃ alloc, growAlloc s.coordsAlloc s.coords.length coords.length = some alloc ∧
      SkipState.HasRoom { s with coords := coords, coordsAlloc := alloc } := by
  -- One coordinate more always fits after the array has been doubled.
  have hgrow : ∀ m first alloc, 0 < alloc → first ≤ alloc → ∃ alloc',
      (List.range' first m).foldlM (fun alloc k =>
        if k + 1 ≤ alloc then some alloc
        else if k + 1 ≤ alloc * 2 then some (alloc * 2)
        else none) alloc = some alloc' ∧ 0 < alloc' ∧ first + m ≤ alloc' := by
    intro m
    induction m with
    | zero => exact fun first alloc hpos hle => ⟨alloc, rfl, hpos, hle⟩
    | succ m ih =>
      intro first alloc hpos hle
      rw [range'_succ, foldlM_cons]
      by_cases hfits : first + 1 ≤ alloc
      · obtain ⟨alloc', hrun, hpos', hle'⟩ := ih (first + 1) alloc hpos hfits
        exact ⟨alloc', by rw [if_pos hfits]; exact hrun, hpos', by omega⟩
      · have hdouble : first + 1 ≤ alloc * 2 := by omega
        obtain ⟨alloc', hrun, hpos', hle'⟩ := ih (first + 1) (alloc * 2) (by omega) hdouble
        exact ⟨alloc', by rw [if_neg hfits, if_pos hdouble]; exact hrun, hpos', by omega⟩
  obtain ⟨alloc, hrun, hpos, hle⟩ :=
    hgrow (coords.length - s.coords.length) s.coords.length s.coordsAlloc h.pos h.le
  exact ⟨alloc, hrun, hpos, by show coords.length ≤ alloc; omega⟩

/-! ## The region loop -/

/-- The regions that are scanned. -/
def QueryEnv.scans (e : QueryEnv) (c : Constraint) (r : QueryRegion) : Bool :=
  overlapsBounds (getVarTypeSize c.type) e.bounds r && r.isDataReady

section

variable {rs : List QueryRegion} (nEval : Nat)

theorem evaluateRegions_skip (hskip : e.scans c r = false) :
    evaluateRegions e false c .none iter (r :: rs) s nEval =
      evaluateRegions e false c .none (iter + 1) rs s nEval := by
  simp only [evaluateRegions, reduceCtorEq, false_and, if_false]
  rcases Bool.and_eq_false_iff.mp hskip with hover | hready
  · rw [if_pos hover]
  · rw [if_pos fun h => Bool.false_ne_true (hready.symm.trans h.2), ite_self]

section

variable (hscans : e.scans c r = true) (hload : (c.objId, iter) ∈ s.loaded)
include hscans hload

theorem evaluateRegions_error (hty : c.type.hasRanges = false) :
    evaluateRegions e false c .none iter (r :: rs) s nEval = some (.error s) := by
  obtain ⟨hover, hready⟩ := Bool.and_eq_true_iff.mp hscans
  simp [evaluateRegions, hover, hready, hload, hty]

theorem evaluateRegions_scan (htest : c.test e.machine = some p) (hty : c.type.hasRanges = true)
    {alloc : Nat} (halloc : growAlloc s.coordsAlloc s.coords.length (s.coords ++
      scanRegionWithin e.stray p (getVarTypeSize c.type) e.bounds r).length = some alloc) :
    evaluateRegions e false c .none iter (r :: rs) s nEval =
      evaluateRegions e false c .none (iter + 1) rs
        { s with
          coords := s.coords ++ scanRegionWithin e.stray p (getVarTypeSize c.type) e.bounds r
          coordsAlloc := alloc } (nEval + 1) := by
  obtain ⟨hover, hready⟩ := Bool.and_eq_true_iff.mp hscans
  have hscan : queryEvaluateScanWithin e.stray (c.test e.machine) (getVarTypeSize c.type) e.bounds
      .none s.coords r =
        some (s.coords ++ scanRegionWithin e.stray p (getVarTypeSize c.type) e.bounds r) := by
    rw [htest]
    simp only [queryEvaluateScanWithin]
    split
    · rfl
    · next hnone =>
      have hempty : scanRegionWithin e.stray p (getVarTypeSize c.type) e.bounds r = [] := by
        refine map_eq_nil_iff.mpr (filter_eq_nil_iff.mpr fun i hi hand => ?_)
        exact hnone (any_eq_true.mpr ⟨i, hi, (Bool.and_eq_true _ _ ▸ hand).1⟩)
      rw [hempty, append_nil]
  simp [evaluateRegions, hover, hready, hload, hty, hscan, halloc, -length_append]

end

variable (hload : ∀ i, iter ≤ i → i < iter + rs.length → (c.objId, i) ∈ s.loaded)
include hload

theorem evaluateRegions_of_test (htest : c.test e.machine = some p)
    (hty : c.type.hasRanges = true) (hroom : s.HasRoom) :
    ∃ s' nEval', evaluateRegions e false c .none iter rs s nEval = some (.ok (s', nEval')) ∧
      s'.coords = s.coords ++ (rs.filter (e.scans c)).flatMap
        (scanRegionWithin e.stray p (getVarTypeSize c.type) e.bounds) := by
  induction rs generalizing iter s nEval with
  | nil => exact ⟨s, nEval, rfl, (append_nil _).symm⟩
  | cons r rs ih =>
    have htail : ∀ i, iter + 1 ≤ i → i < iter + 1 + rs.length → (c.objId, i) ∈ s.loaded :=
      fun i hle hlt => hload i (by omega) (by rw [length_cons]; omega)
    cases hscans : e.scans c r with
    | false =>
      rw [evaluateRegions_skip nEval hscans, filter_cons_of_neg (by rw [hscans]; nofun)]
      exact ih nEval htail hroom
    | true =>
      have hmem := hload iter (Nat.le_refl _) (by rw [length_cons]; omega)
      obtain ⟨alloc, halloc, hroom'⟩ := hroom.growAlloc (s.coords ++
        scanRegionWithin e.stray p (getVarTypeSize c.type) e.bounds r)
      obtain ⟨s', nEval', hrun, hcoords⟩ := ih (s := ⟨s.totalElem, _, alloc, s.invalid, s.loaded⟩)
        (nEval + 1) htail hroom'
      refine ⟨s', nEval', ?_, ?_⟩
      · rw [evaluateRegions_scan nEval hscans hmem htest hty halloc, hrun]
      · rw [hcoords, filter_cons_of_pos hscans, flatMap_cons, append_assoc]

theorem evaluateRegions_of_not_hasRanges (hty : c.type.hasRanges = false) :
    evaluateRegions e false c .none iter rs s nEval = some (.ok (s, nEval)) ∨
      evaluateRegions e false c .none iter rs s nEval = some (.error s) := by
  induction rs generalizing iter with
  | nil => exact .inl rfl
  | cons r rs ih =>
    cases hscans : e.scans c r with
    | false =>
      rw [evaluateRegions_skip nEval hscans]
      exact ih fun i hle hlt => hload i (by omega) (by rw [length_cons]; omega)
    | true =>
      exact .inr (evaluateRegions_error nEval hscans
        (hload iter (Nat.le_refl _) (by rw [length_cons]; omega)) hty)

end

/-! ## The whole leaf -/

section

variable (hrange : c.isRange = false) (regions : UInt64 → List QueryRegion)
  (loaded : List (UInt64 × Nat))
include hrange

/-- The leaf begins to evaluate its regions with all of them loaded and nothing selected, and
ends with what has been selected then. -/
theorem exists_evaluateRegions (hrs : regions c.objId ≠ []) :
    ∃ s : SkipState, s.coords = [] ∧ s.HasRoom ∧
      (∀ i, 0 ≤ i → i < 0 + (regions c.objId).length → (c.objId, i) ∈ s.loaded) ∧
      ∀ s' nEval, evaluateRegions e false c .none 0 (regions c.objId) s 0 =
          some (.ok (s', nEval)) ∨
        evaluateRegions e false c .none 0 (regions c.objId) s 0 = some (.error s') →
      queryEvaluateSkip e false regions c none .none (.start loaded) = some s' := by
  obtain ⟨loaded', hload, hmem⟩ := @loadQueryData_false e c { SkipState.start loaded with
    totalElem := ((regions c.objId).map fun r => r.dataSize / getVarTypeSize c.type).sum }
    (regions c.objId).length
  refine ⟨{ SkipState.start loaded with
      totalElem := ((regions c.objId).map fun r => r.dataSize / getVarTypeSize c.type).sum
      loaded := loaded' }, rfl, ⟨Nat.zero_lt_succ _, Nat.zero_le _⟩,
    fun i _ hi => hmem i (by omega), fun s' nEval hrun => ?_⟩
  unfold queryEvaluateSkip
  simp only [SkipState.start] at hload hrun
  rcases hrun with hrun | hrun
  · simp [hrs, hrange, SkipState.start, hload, hrun, SkipState.afterRegions, removeDuplicates]
  · simp [hrs, hrange, SkipState.start, hload, hrun]

theorem queryEvaluateSkip_of_test (htest : c.test e.machine = some p)
    (hty : c.type.hasRanges = true) :
    (queryEvaluateSkip e false regions c none .none (.start loaded)).map SkipState.coords =
      some (((regions c.objId).filter (e.scans c)).flatMap
        (scanRegionWithin e.stray p (getVarTypeSize c.type) e.bounds)) := by
  by_cases hrs : regions c.objId = []
  · simp [queryEvaluateSkip, hrs, SkipState.start]
  obtain ⟨s, hnone, hroom, hload, hend⟩ := exists_evaluateRegions hrange regions loaded hrs
  obtain ⟨s', nEval', hrun, hcoords⟩ := evaluateRegions_of_test 0 hload htest hty hroom
  rw [hend s' nEval' (.inl hrun), Option.map_some, hcoords, hnone, nil_append]

theorem queryEvaluateSkip_of_not_hasRanges (hty : c.type.hasRanges = false) :
    (queryEvaluateSkip e false regions c none .none (.start loaded)).map SkipState.coords =
      some [] := by
  by_cases hrs : regions c.objId = []
  · simp [queryEvaluateSkip, hrs, SkipState.start]
  obtain ⟨s, hnone, -, hload, hend⟩ := exists_evaluateRegions hrange regions loaded hrs
  rw [hend s 0 (evaluateRegions_of_not_hasRanges 0 hload hty), Option.map_some, hnone]

end

end Pdc
