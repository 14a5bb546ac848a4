import Pdc.Proofs.Refresh
import Pdc.Server.RegionCache

/-!
# What `merge_requests` lays out

The flush of a one-dimensional object replaces the cached regions by runs.
When the regions agree with an array on every element they hold, so should
the runs, and the runs should hold every element the regions held.

The run that is open ends where some region already merged ends. The next
region starts at or after that one. If it starts inside the run and ends past
it, only its tail is copied, and the source finds the tail by adding an
element count to a byte pointer. That is right for one-byte elements and when
the region starts exactly where the run ends, so the property holds under
`MergeOk`: elements are single bytes, or no region starts inside another one
and ends past it.
-/

namespace Pdc

open List Lib UInt64

variable {rc : CacheRegion} {run : MergedRun} {regions : List CacheRegion}

/-- Merging copies whole regions or single bytes: no region starts inside
another and ends past it, unless the elements are bytes. -/
def MergeOk (unit : Nat) (regions : List Region) : Prop :=
  unit ≠ 1 → ∀ a ∈ regions, ∀ b ∈ regions, a.off 0 ≤ b.off 0 →
    b.off 0 < a.off 0 + a.len 0 → b.off 0 + b.len 0 ≤ a.off 0 + a.len 0

instance (unit : Nat) (regions : List Region) : Decidable (MergeOk unit regions) :=
  inferInstanceAs (Decidable (_ → _))

/-- A cached region of the object: its dimension count and unit are the
object's, and its buffer has its size. -/
structure CacheRegion.Sized (n unit : Nat) (rc : CacheRegion) : Prop where
  ndim_eq : rc.ndim = n
  unit_eq : rc.unit = unit
  noWrap : rc.region.NoWrap n
  length_buf : rc.buf.length = rc.region.count n * unit

def CacheRegion.copy (n unit : Nat) (rc : CacheRegion) : Patch (Fin n → ℕ) (List UInt8) :=
  boxPatch n unit rc.region rc.buf

section

variable {unit : Nat} {m : (Fin 1 → ℕ) → Option (List UInt8)}

/-- A run that agrees with the array on every element it holds. -/
structure MergedRun.Ok (unit : Nat) (m : (Fin 1 → ℕ) → Option (List UInt8))
    (run : MergedRun) : Prop where
  le : run.start.toNat ≤ run.stop.toNat
  length_buf : run.buf.length = (run.stop.toNat - run.start.toNat) * unit
  agrees : ∀ c : Fin 1 → ℕ, run.start.toNat ≤ c 0 → c 0 < run.stop.toNat →
    m c = some (elem unit run.buf (c 0 - run.start.toNat))

theorem CacheRegion.agrees (h : ∀ c ∈ (rc.copy 1 unit).cells, m c = some ((rc.copy 1 unit).value c))
    (c : Fin 1 → ℕ) (hlo : rc.region.off 0 ≤ c 0) (hhi : c 0 < rc.region.off 0 + rc.region.len 0) :
    m c = some (elem unit rc.buf (c 0 - rc.region.off 0)) := by
  have hc : c ∈ rc.region.cells 1 := by
    rw [Region.mem_cells, Fin.forall_fin_one]
    exact ⟨hlo, hhi⟩
  have := h c hc
  rwa [CacheRegion.copy, boxPatch_value, Region.index_one] at this

theorem MergedRun.ofRegion_ok (hrc : rc.Sized 1 unit)
    (h : ∀ c ∈ (rc.copy 1 unit).cells, m c = some ((rc.copy 1 unit).value c)) :
    (MergedRun.ofRegion unit rc).Ok unit m ∧
      (MergedRun.ofRegion unit rc).start.toNat = rc.region.off 0 ∧
      (MergedRun.ofRegion unit rc).stop.toNat = rc.region.off 0 + rc.region.len 0 := by
  have hstop : (rc.region.offset[0]! + rc.region.size[0]!).toNat =
      rc.region.off 0 + rc.region.len 0 := toNat_sum hrc.noWrap (by omega)
  have hbuf : (MergedRun.ofRegion unit rc).buf = rc.buf := by
    refine slice_eq_self ?_
    rw [hrc.length_buf, Region.count_one, UInt64.toNat_sub_of_le _ _ (by
      rw [UInt64.le_iff_toNat_le, hstop]; exact Nat.le_add_right _ _), hstop]
    congr 1
    exact (Nat.add_sub_cancel_left ..).symm
  refine ⟨⟨?_, ?_, ?_⟩, rfl, hstop⟩
  · exact le_of_le_of_eq (Nat.le_add_right _ _) hstop.symm
  · rw [hbuf, hrc.length_buf, Region.count_one]
    congr 1
    exact (Nat.sub_eq_of_eq_add (by rw [Nat.add_comm]; exact hstop)).symm
  · intro c hlo hhi
    rw [hbuf]
    exact CacheRegion.agrees h c hlo (lt_of_lt_of_eq hhi hstop)

/-- The tail of a region past `e` is where the source looks for it: as many
bytes into the buffer as elements lie before it. -/
def CacheRegion.TailRight (unit e : Nat) (rc : CacheRegion) : Prop :=
  rc.region.off 0 ≤ e → e < rc.region.off 0 + rc.region.len 0 →
    slice rc.buf (e - rc.region.off 0) ((rc.region.off 0 + rc.region.len 0 - e) * unit) =
      slice rc.buf ((e - rc.region.off 0) * unit) ((rc.region.off 0 + rc.region.len 0 - e) * unit)

instance CacheRegion.TailRight.decidable (unit e : Nat) (rc : CacheRegion) :
    Decidable (rc.TailRight unit e) :=
  inferInstanceAs (Decidable (_ → _))

theorem CacheRegion.tailRight_of_byte {e : Nat} (h : unit ≠ 1 → e ≤ rc.region.off 0) :
    rc.TailRight unit e := by
  intro hstart _
  by_cases hu : unit = 1
  · rw [hu, Nat.mul_one, Nat.mul_one]
  · rw [show e - rc.region.off 0 = 0 by have := h hu; omega, Nat.zero_mul]

def MergedRun.extended (unit : Nat) (run : MergedRun) (rc : CacheRegion) : MergedRun :=
  { run with
    stop := rc.region.offset[0]! + rc.region.size[0]!
    buf := run.buf ++ slice rc.buf (run.stop - rc.region.offset[0]!).toNat
      ((rc.region.offset[0]! + rc.region.size[0]! - run.stop).toNat * unit) }

theorem CacheRegion.Sized.stop_toNat (hrc : rc.Sized 1 unit) :
    (rc.region.offset[0]! + rc.region.size[0]!).toNat = rc.region.off 0 + rc.region.len 0 :=
  toNat_sum hrc.noWrap (by omega)

theorem MergedRun.extended_buf (hrc : rc.Sized 1 unit) (hstart : rc.region.off 0 ≤ run.stop.toNat)
    (hpast : run.stop.toNat < rc.region.off 0 + rc.region.len 0) :
    (run.extended unit rc).buf = run.buf ++ slice rc.buf (run.stop.toNat - rc.region.off 0)
      ((rc.region.off 0 + rc.region.len 0 - run.stop.toNat) * unit) := by
  have hskip : (run.stop - rc.region.offset[0]!).toNat = run.stop.toNat - rc.region.off 0 :=
    UInt64.toNat_sub_of_le _ _ (UInt64.le_iff_toNat_le.mpr hstart)
  have hlen : (rc.region.offset[0]! + rc.region.size[0]! - run.stop).toNat =
      rc.region.off 0 + rc.region.len 0 - run.stop.toNat := by
    rw [UInt64.toNat_sub_of_le _ _ (UInt64.le_iff_toNat_le.mpr (by
      rw [hrc.stop_toNat]; exact hpast.le)), hrc.stop_toNat]
  rw [MergedRun.extended, hskip, hlen]

theorem MergedRun.Ok.extend (hrun : run.Ok unit m) (hrc : rc.Sized 1 unit)
    (h : ∀ c ∈ (rc.copy 1 unit).cells, m c = some ((rc.copy 1 unit).value c))
    (hstart : rc.region.off 0 ≤ run.stop.toNat)
    (hpast : run.stop.toNat < rc.region.off 0 + rc.region.len 0)
    (htail : rc.TailRight unit run.stop.toNat) : (run.extended unit rc).Ok unit m := by
  have hstop : (run.extended unit rc).stop.toNat = rc.region.off 0 + rc.region.len 0 :=
    hrc.stop_toNat
  have hbuf := MergedRun.extended_buf hrc hstart hpast
  rw [htail hstart hpast] at hbuf
  have hfit : (run.stop.toNat - rc.region.off 0) * unit +
      (rc.region.off 0 + rc.region.len 0 - run.stop.toNat) * unit ≤ rc.buf.length := by
    rw [hrc.length_buf, Region.count_one, ← Nat.add_mul]
    exact Nat.mul_le_mul_right unit (by omega)
  have hle := hrun.le
  refine ⟨?_, ?_, ?_⟩
  · rw [hstop]
    exact hle.trans hpast.le
  · rw [hbuf, length_append, hrun.length_buf, length_slice hfit, ← Nat.add_mul]
    congr 1
    change _ = _ - run.start.toNat
    omega
  · intro c hlo hhi
    change run.start.toNat ≤ c 0 at hlo
    change m c = some (elem unit (run.extended unit rc).buf (c 0 - run.start.toNat))
    rw [hbuf]
    by_cases hin : c 0 < run.stop.toNat
    · rw [elem_append_left (by
        rw [hrun.length_buf]; exact Nat.mul_le_mul_right unit (by omega))]
      exact hrun.agrees c hlo hin
    · -- An element of the tail: its place in the run is its place in the region.
      rw [elem_append_right hrun.length_buf (by omega), elem_slice_elems (by omega),
        CacheRegion.agrees h c (by omega) (by omega)]
      congr 2
      omega

/-- The relation between a region and a later one that lets the later one be
merged. -/
def MergesAfter (unit : Nat) (a b : CacheRegion) : Prop :=
  unit ≠ 1 → b.region.off 0 < a.region.off 0 + a.region.len 0 →
    b.region.off 0 + b.region.len 0 ≤ a.region.off 0 + a.region.len 0

/-- What the loop needs of a region still to come while a run is open. -/
structure MergedRun.Follows (unit : Nat) (m : (Fin 1 → ℕ) → Option (List UInt8))
    (run : MergedRun) (rc : CacheRegion) : Prop where
  sized : rc.Sized 1 unit
  agrees : ∀ c ∈ (rc.copy 1 unit).cells, m c = some ((rc.copy 1 unit).value c)
  start_le : run.start.toNat ≤ rc.region.off 0
  tail : unit ≠ 1 → rc.region.off 0 < run.stop.toNat →
    rc.region.off 0 + rc.region.len 0 ≤ run.stop.toNat

/-- The positions a run or a region holds. -/
def MergedRun.Holds (run : MergedRun) (x : Nat) : Prop :=
  run.start.toNat ≤ x ∧ x < run.stop.toNat

def CacheRegion.Holds (rc : CacheRegion) (x : Nat) : Prop :=
  rc.region.off 0 ≤ x ∧ x < rc.region.off 0 + rc.region.len 0

/-- The loop, with the open run as its invariant: every run it produces
agrees with the array, and nothing the regions held is lost. -/
theorem mergeLoop_spec : ∀ {rest : List CacheRegion} {run : MergedRun}, run.Ok unit m →
    (∀ rc ∈ rest, run.Follows unit m rc) →
    rest.Pairwise (fun a b => a.region.off 0 ≤ b.region.off 0) →
    rest.Pairwise (MergesAfter unit) →
    (∀ out ∈ mergeLoop unit run rest, out.Ok unit m) ∧
    (∀ x, run.Holds x ∨ (∃ rc ∈ rest, rc.Holds x) → ∃ out ∈ mergeLoop unit run rest, out.Holds x) ∧
    (mergeLoop unit run rest).length ≤ rest.length + 1 := by
  intro rest
  induction rest with
  | nil =>
    intro run hrun _ _ _
    refine ⟨by simpa [mergeLoop] using hrun, ?_, by simp [mergeLoop]⟩
    rintro x (hx | ⟨rc, hrc, _⟩)
    · exact ⟨run, by simp [mergeLoop], hx⟩
    · cases hrc
  | cons rc rest ih =>
    intro run hrun hrest hsorted hmerge
    rw [pairwise_cons] at hsorted hmerge
    have hrc := hrest rc (by simp)
    have hrest' : ∀ q ∈ rest, run.Follows unit m q :=
      fun q hq => hrest q (mem_cons_of_mem _ hq)
    have hstop := hrc.sized.stop_toNat
    rw [mergeLoop]
    split
    · -- A gap: the open run is finished and the region opens the next one.
      obtain ⟨hnew, hnewStart, hnewStop⟩ := MergedRun.ofRegion_ok hrc.sized hrc.agrees
      obtain ⟨hok, hcover, hlength⟩ := ih hnew (fun q hq =>
        ⟨(hrest' q hq).sized, (hrest' q hq).agrees, by rw [hnewStart]; exact hsorted.1 q hq,
          by rw [hnewStop]; exact hmerge.1 q hq⟩) hsorted.2 hmerge.2
      refine ⟨forall_mem_cons.mpr ⟨hrun, hok⟩, ?_, by simpa using hlength⟩
      rintro x (hx | hx)
      · exact ⟨run, by simp, hx⟩
      · have hx' : (MergedRun.ofRegion unit rc).Holds x ∨ ∃ q ∈ rest, q.Holds x := by
          rw [exists_mem_cons_iff] at hx
          rwa [MergedRun.Holds, hnewStop]
        obtain ⟨out, hout, hin⟩ := hcover x hx'
        exact ⟨out, mem_cons_of_mem _ hout, hin⟩
    · next hgap =>
      have hgap' : rc.region.off 0 ≤ run.stop.toNat := by
        exact Nat.le_of_not_lt hgap
      have hstart := hrc.start_le
      split
      · next hpast =>
        have hpast' : run.stop.toNat < rc.region.off 0 + rc.region.len 0 := by
          rw [gt_iff_lt, lt_iff_toNat_lt, hstop] at hpast
          exact hpast
        have hext := hrun.extend hrc.sized hrc.agrees hgap' hpast'
          (CacheRegion.tailRight_of_byte fun hu => by
            have := hrc.tail hu
            omega)
        obtain ⟨hok, hcover, hlength⟩ := ih hext (fun q hq =>
          ⟨(hrest' q hq).sized, (hrest' q hq).agrees, (hrest' q hq).start_le, by
            rw [MergedRun.extended, hstop]
            exact hmerge.1 q hq⟩) hsorted.2 hmerge.2
        refine ⟨hok, fun x hx => hcover x ?_, hlength.trans (by simp)⟩
        rw [exists_mem_cons_iff] at hx
        simp only [MergedRun.Holds, CacheRegion.Holds, MergedRun.extended, hstop] at hx ⊢
        rcases hx with hx | hx | hx
        · exact .inl (by omega)
        · exact .inl (by omega)
        · exact .inr hx
      · next hpast =>
        have hpast' : rc.region.off 0 + rc.region.len 0 ≤ run.stop.toNat := by
          rw [gt_iff_lt, lt_iff_toNat_lt] at hpast
          omega
        obtain ⟨hok, hcover, hlength⟩ := ih hrun hrest' hsorted.2 hmerge.2
        refine ⟨hok, fun x hx => hcover x ?_, by simp only [length_cons]; omega⟩
        rw [exists_mem_cons_iff] at hx
        simp only [MergedRun.Holds, CacheRegion.Holds] at hx ⊢
        rcases hx with hx | hx | hx
        · exact .inl hx
        · exact .inl (by omega)
        · exact .inr hx

theorem mergeRequests_spec (hsized : ∀ rc ∈ regions, rc.Sized 1 unit)
    (hcoh : Coherent (regions.map (CacheRegion.copy 1 unit)) m)
    (hsorted : regions.Pairwise fun a b => a.region.off 0 ≤ b.region.off 0)
    (hmerge : regions.Pairwise (MergesAfter unit)) :
    (∀ out ∈ mergeRequests unit regions, out.Ok unit m) ∧
    (∀ x, (∃ rc ∈ regions, rc.Holds x) → ∃ out ∈ mergeRequests unit regions, out.Holds x) ∧
    (mergeRequests unit regions).length ≤ regions.length := by
  cases regions with
  | nil =>
    refine ⟨by simp [mergeRequests], ?_, by simp [mergeRequests]⟩
    rintro x ⟨rc, hrc, _⟩
    cases hrc
  | cons rc rest =>
    have hagrees : ∀ q ∈ rc :: rest, ∀ c ∈ (q.copy 1 unit).cells,
        m c = some ((q.copy 1 unit).value c) :=
      fun q hq => hcoh _ (mem_map.mpr ⟨q, hq, rfl⟩)
    rw [pairwise_cons] at hsorted hmerge
    obtain ⟨hfirst, hstart, hstop⟩ :=
      MergedRun.ofRegion_ok (hsized rc (by simp)) (hagrees rc (by simp))
    obtain ⟨hok, hcover, hlength⟩ := mergeLoop_spec hfirst (fun q hq =>
      ⟨hsized q (mem_cons_of_mem _ hq), hagrees q (mem_cons_of_mem _ hq),
        by rw [hstart]; exact hsorted.1 q hq, by rw [hstop]; exact hmerge.1 q hq⟩)
      hsorted.2 hmerge.2
    refine ⟨hok, fun x hx => hcover x ?_, hlength⟩
    rw [exists_mem_cons_iff] at hx
    rwa [MergedRun.Holds, hstop]

def CacheRegion.setRun (rc : CacheRegion) (run : MergedRun) : CacheRegion :=
  { rc with region := { offset := [run.start], size := [run.stop - run.start] }, buf := run.buf }

theorem MergedRun.Ok.mem_cells (hrun : run.Ok unit m) (rc : CacheRegion) (c : Fin 1 → ℕ) :
    c ∈ (rc.setRun run).region.cells 1 ↔ run.Holds (c 0) := by
  have hlen : (run.stop - run.start).toNat = run.stop.toNat - run.start.toNat :=
    UInt64.toNat_sub_of_le _ _ (UInt64.le_iff_toNat_le.mpr hrun.le)
  rw [Region.mem_cells, Fin.forall_fin_one]
  change run.start.toNat ≤ c 0 ∧ c 0 < run.start.toNat + (run.stop - run.start).toNat ↔ _
  rw [MergedRun.Holds]
  omega

theorem MergedRun.Ok.setRun (hrun : run.Ok unit m) (hrc : rc.Sized 1 unit) :
    (rc.setRun run).Sized 1 unit ∧ ∀ c ∈ ((rc.setRun run).copy 1 unit).cells,
        m c = some (((rc.setRun run).copy 1 unit).value c) := by
  have hlen : (run.stop - run.start).toNat = run.stop.toNat - run.start.toNat :=
    UInt64.toNat_sub_of_le _ _ (UInt64.le_iff_toNat_le.mpr hrun.le)
  have hle := hrun.le
  refine ⟨⟨hrc.ndim_eq, hrc.unit_eq, ?_, ?_⟩, ?_⟩
  · intro i hi
    have hi0 : i = 0 := by omega
    subst hi0
    change run.start.toNat + (run.stop - run.start).toNat < 2 ^ 64
    have := run.stop.toNat_lt
    omega
  · rw [Region.count_one]
    change run.buf.length = (run.stop - run.start).toNat * unit
    rw [hlen, hrun.length_buf]
  · intro c hc
    obtain ⟨hlo, hhi⟩ := (hrun.mem_cells rc c).mp hc
    rw [hrun.agrees c hlo hhi, CacheRegion.copy, boxPatch_value, Region.index_one]
    rfl

theorem mergedRegions_spec (qsort : OffsetSort) (hsized : ∀ rc ∈ regions, rc.Sized 1 unit)
    (hcoh : Coherent (regions.map (CacheRegion.copy 1 unit)) m)
    (hok : MergeOk unit (regions.map (·.region))) :
    (∀ rc ∈ mergedRegions qsort regions, rc.Sized 1 unit) ∧
    Coherent ((mergedRegions qsort regions).map (CacheRegion.copy 1 unit)) m ∧
    ∀ c, (∃ rc ∈ regions, c ∈ rc.region.cells 1) →
      ∃ rc ∈ mergedRegions qsort regions, c ∈ rc.region.cells 1 := by
  cases hregions : regions with
  | nil => simp [mergedRegions, Coherent]
  | cons first rest =>
    have hperm := qsort.perm regions
    have hmem : ∀ {rc}, rc ∈ qsort.sort regions → rc ∈ regions := fun h => hperm.mem_iff.mp h
    have hsorted : (qsort.sort regions).Pairwise
        fun a b => a.region.off 0 ≤ b.region.off 0 :=
      (qsort.sorted regions).imp fun h => le_iff_toNat_le.mp h
    have hmerge : (qsort.sort regions).Pairwise (MergesAfter unit) := by
      refine hsorted.imp_of_mem fun ha hb hle hu hlt => ?_
      exact hok hu _ (mem_map.mpr ⟨_, hmem ha, rfl⟩) _ (mem_map.mpr ⟨_, hmem hb, rfl⟩) hle hlt
    obtain ⟨hruns, hcover, hlength⟩ := mergeRequests_spec (fun rc hrc => hsized rc (hmem hrc))
      (fun p hp => hcoh p ((hperm.map _).mem_iff.mp hp)) hsorted hmerge
    have hunit : first.unit = unit := (hsized first (by rw [hregions]; simp)).unit_eq
    have hmerged : mergedRegions qsort (first :: rest) = List.zipWith CacheRegion.setRun regions
          (mergeRequests unit (qsort.sort regions)) := by
      rw [← hunit, hregions]
      rfl
    rw [hmerged, ← hregions]
    have hout : ∀ rc ∈ List.zipWith CacheRegion.setRun regions
        (mergeRequests unit (qsort.sort regions)),
        ∃ rc₀ ∈ regions, ∃ run, run.Ok unit m ∧ rc = rc₀.setRun run := by
      intro rc hrc
      obtain ⟨i, hi, rfl⟩ := getElem_of_mem hrc
      rw [length_zipWith] at hi
      exact ⟨regions[i], getElem_mem _, (mergeRequests unit (qsort.sort regions))[i],
        hruns _ (getElem_mem _), getElem_zipWith⟩
    refine ⟨?_, ?_, ?_⟩
    · intro rc hrc
      obtain ⟨rc₀, hrc₀, run, hrun, rfl⟩ := hout rc hrc
      exact (hrun.setRun (hsized rc₀ hrc₀)).1
    · intro p hp
      obtain ⟨rc, hrc, rfl⟩ := mem_map.mp hp
      obtain ⟨rc₀, hrc₀, run, hrun, rfl⟩ := hout rc hrc
      exact (hrun.setRun (hsized rc₀ hrc₀)).2
    · rintro c ⟨rc, hrc, hc⟩
      have hholds : rc.Holds (c 0) := by
        rw [Region.mem_cells, Fin.forall_fin_one] at hc
        exact hc
      obtain ⟨run, hrun, hin⟩ := hcover (c 0) ⟨rc, hperm.mem_iff.mpr hrc, hholds⟩
      -- There are at least as many regions as runs, so the run has one to overwrite.
      obtain ⟨i, hi, rfl⟩ := getElem_of_mem hrun
      rw [hperm.length_eq] at hlength
      refine ⟨regions[i].setRun (mergeRequests unit (qsort.sort regions))[i], ?_, ?_⟩
      · exact mem_iff_getElem.mpr ⟨i, by rw [length_zipWith]; omega, getElem_zipWith⟩
      · exact ((hruns _ hrun).mem_cells _ c).mpr hin

end

end Pdc
