import Mathlib.Data.List.Sort
import Pdc.Proofs.CacheMerge
import Pdc.Proofs.Storage

/-!
# Reading through the region cache

One object is watched, and the array its writes describe. Its cells are in
the cached regions, in storage, or in both; a cached region that holds a cell
holds its current value, and storage holds the current value of every written
cell no cached region holds. That is `CacheInv`. Flushing moves cells from
the first place to the second, whatever the order, because cached regions
that agree with the array can be laid over storage in any order.

Two things in the source can break the invariant. A write that is contained
in a cached region patches that region and stops looking, so a region behind
it in the list that overlaps the write keeps its old data. And merging
misplaces the tail of a region (`MergeOk`). The result is stated for runs in
which neither happens; `CacheOp.Ok` says what that asks of each call. Calls
on other objects are arbitrary. They share the cache's size limit, so they
may flush the object that is watched.
-/

namespace Pdc

open List Lib UInt64

variable {objs : List ObjCache} {regions : List CacheRegion} {rc : CacheRegion}
  (maximumCacheSize : UInt64) (qsort : OffsetSort) {objId k : UInt64} {obj : ObjCache}

/-! ## The object list -/

def regionsOf (objs : List ObjCache) (objId : UInt64) : List CacheRegion :=
  match findObj objs objId with
  | none => []
  | some obj => obj.regionCache

theorem regionsOf_of_find (h : findObj objs objId = some obj) :
    regionsOf objs objId = obj.regionCache := by
  rw [regionsOf, h]

theorem regionsOf_of_none (h : findObj objs objId = none) :
    regionsOf objs objId = [] := by
  rw [regionsOf, h]

theorem objId_of_findObj (h : findObj objs objId = some obj) :
    obj.objId = objId := by
  simpa using find?_some h

theorem findObj_cons (obj : ObjCache) (objs : List ObjCache) (objId : UInt64) :
    findObj (obj :: objs) objId = if obj.objId = objId then some obj else findObj objs objId := by
  rw [findObj, find?_cons]
  by_cases h : obj.objId = objId
  · simp [h]
  · have hbeq : (obj.objId == objId) = false := by simpa using h
    rw [hbeq, if_neg h]
    rfl

theorem findObj_eq_none :
    findObj objs objId = none ↔ objId ∉ objs.map (·.objId) := by
  simp only [findObj, find?_eq_none, beq_iff_eq, mem_map, not_exists, not_and]

theorem findLastObj_eq (h : (objs.map (·.objId)).Nodup) (objId : UInt64) :
    findLastObj objs objId = findObj objs objId := by
  have hgen : ∀ (objs : List ObjCache) (acc : Option ObjCache), (objs.map (·.objId)).Nodup →
      objs.foldl (fun found obj => if obj.objId == objId then some obj else found) acc =
        (findObj objs objId).or acc := by
    intro objs
    induction objs with
    | nil => intro acc _; rfl
    | cons obj objs ih =>
      intro acc hnodup
      rw [map_cons, nodup_cons] at hnodup
      rw [foldl_cons, ih _ hnodup.2, findObj_cons]
      by_cases hid : obj.objId = objId
      · have hnone : findObj objs objId = none := findObj_eq_none.mpr (hid ▸ hnodup.1)
        simp [hid, hnone]
      · simp [hid]
  rw [findLastObj, hgen objs none h, Option.or_none]

theorem findObj_setRegions (objs : List ObjCache) (k objId : UInt64) (regions : List CacheRegion) :
    findObj (setRegions objs k regions) objId = (findObj objs objId).map fun obj =>
        if k = objId then { obj with regionCache := regions } else obj := by
  have hpred : ((fun obj : ObjCache => obj.objId == objId) ∘ fun obj =>
      if obj.objId == k then { obj with regionCache := regions } else obj) =
      fun obj => obj.objId == objId := by
    funext obj
    simp only [Function.comp_apply]
    split <;> rfl
  rw [findObj, setRegions, find?_map, hpred]
  refine Option.map_congr fun obj hobj => ?_
  have hid : obj.objId = objId := objId_of_findObj hobj
  by_cases hk : k = objId
  · rw [if_pos hk, if_pos (by rw [hid, hk]; simp)]
  · rw [if_neg hk, if_neg (by rw [hid]; simpa using fun h => hk h.symm)]

theorem nodup_setRegions (h : (objs.map (·.objId)).Nodup) (k : UInt64) (regions : List CacheRegion)
    : ((setRegions objs k regions).map (·.objId)).Nodup := by
  have hids : (setRegions objs k regions).map (·.objId) = objs.map (·.objId) := by
    rw [setRegions, map_map]
    refine map_congr_left fun obj _ => ?_
    simp only [Function.comp_apply]
    split <;> rfl
  rw [hids]
  exact h

theorem findObj_setRegions_of_ne (h : k ≠ objId) :
    findObj (setRegions objs k regions) objId = findObj objs objId := by
  rw [findObj_setRegions]
  simp [h]

theorem findObj_setRegions_self (h : findObj objs objId = some obj) :
    findObj (setRegions objs objId regions) objId = some { obj with regionCache := regions } := by
  rw [findObj_setRegions, h]
  simp

theorem setRegions_of_none (h : findObj objs objId = none) :
    setRegions objs objId regions = objs := by
  conv_rhs => rw [← map_id objs]
  refine map_congr_left fun obj hobj => if_neg ?_
  rw [findObj, find?_eq_none] at h
  exact h obj hobj

theorem regionsOf_setRegions (h : findObj objs objId = none → regions = []) :
    regionsOf (setRegions objs objId regions) objId = regions := by
  cases hfind : findObj objs objId with
  | none => rw [setRegions_of_none hfind, regionsOf_of_none hfind, h hfind]
  | some obj => exact regionsOf_of_find (findObj_setRegions_self hfind)

theorem ndim_setRegions {n : Nat} (h : ∀ obj, findObj objs objId = some obj → obj.ndim = n) :
    ∀ obj, findObj (setRegions objs objId regions) objId = some obj → obj.ndim = n := by
  intro obj hobj
  rw [findObj_setRegions] at hobj
  obtain ⟨obj₀, hobj₀, rfl⟩ := Option.map_eq_some_iff.mp hobj
  rw [if_pos rfl]
  exact h obj₀ hobj₀

theorem findObj_appendRegion_of_ne {req : IoRequest} (h : k ≠ objId) :
    findObj (appendRegion objs k req rc) objId = findObj objs objId := by
  rw [appendRegion]
  split
  · rw [findObj]
    simp [findObj, h]
  · exact findObj_setRegions_of_ne h

theorem nodup_appendRegion (h : (objs.map (·.objId)).Nodup) (k : UInt64) (req : IoRequest)
    (rc : CacheRegion) : ((appendRegion objs k req rc).map (·.objId)).Nodup := by
  rw [appendRegion]
  split
  · next hnone =>
    rw [map_append]
    exact nodup_append.mpr ⟨h, pairwise_singleton _ _, fun a ha b hb => by
      rw [mem_singleton.mp hb]
      rintro rfl
      exact findObj_eq_none.mp hnone ha⟩
  · exact nodup_setRegions h k _

theorem findObj_appendRegion_self (objs : List ObjCache) (objId : UInt64) (req : IoRequest)
    (rc : CacheRegion) :
    ∃ obj, findObj (appendRegion objs objId req rc) objId = some obj ∧
      obj.regionCache = regionsOf objs objId ++ [rc] ∧
      (obj.ndim = req.objNdim ∨ ∃ obj₀, findObj objs objId = some obj₀ ∧ obj.ndim = obj₀.ndim) := by
  rw [appendRegion, regionsOf]
  cases hfind : findObj objs objId with
  | none =>
    refine ⟨{ objId, ndim := req.objNdim, dims := req.objDims, regionCache := [rc] }, ?_,
      rfl, .inl rfl⟩
    rw [findObj] at hfind
    simp [findObj, find?_append, hfind]
  | some obj =>
    exact ⟨_, findObj_setRegions_self hfind, rfl, .inr ⟨obj, rfl, rfl⟩⟩

/-! ## Flushing -/

/-- How the cache spells patches when it talks to storage. -/
def ioLayout (n unit : Nat) : Layout IoRequest (List UInt8) (Fin n → ℕ) (List UInt8) where
  cells req := req.region.cells n
  value req b c := elem unit b (req.region.index n c)
  Sized req b := req.objNdim = n ∧ req.ndim = n ∧ req.unit = unit ∧ req.region.NoWrap n ∧
    b.length = req.region.count n * unit

/-- A flush of these regions writes what they hold. -/
def FlushOk (n unit : Nat) (regions : List Region) : Prop := n = 1 → MergeOk unit regions

instance (n unit : Nat) (regions : List Region) : Decidable (FlushOk n unit regions) :=
  inferInstanceAs (Decidable (_ → _))

section Flush

variable {n unit : Nat} {io : StorageIO} {objId : UInt64} {obj : ObjCache}
  {m : (Fin n → ℕ) → Option (List UInt8)} (arr : io.ArrayAt objId (ioLayout n unit))

theorem foldl_flushRegion_rep (hid : obj.objId = objId) (hndim : obj.ndim = n) :
    ∀ {regions : List CacheRegion} {st : io.State × UInt64} {ma},
      (∀ rc ∈ regions, rc.Sized n unit) → arr.Rep st.1 ma →
      arr.Rep (regions.foldl (flushRegion io obj) st).1
        ((regions.map (CacheRegion.copy n unit)).foldl overlay ma) := by
  intro regions
  induction regions with
  | nil => intro st ma _ hrep; exact hrep
  | cons rc rest ih =>
    intro st ma hsized hrep
    have hrc := hsized rc (by simp)
    refine ih (fun q hq => hsized q (mem_cons_of_mem _ hq)) ?_
    rw [flushRegion, hid]
    exact arr.write hrep ⟨hndim, hrc.ndim_eq, hrc.unit_eq, hrc.noWrap, hrc.length_buf⟩

theorem foldl_flushRegion_other (hid : obj.objId ≠ objId) :
    ∀ {regions : List CacheRegion} {st : io.State × UInt64} {ma}, arr.Rep st.1 ma →
      arr.Rep (regions.foldl (flushRegion io obj) st).1 ma := by
  intro regions
  induction regions with
  | nil => intro st ma hrep; exact hrep
  | cons rc rest ih => intro st ma hrep; exact ih (arr.write_other hid hrep)

theorem flushByPointer_other (qsort : OffsetSort) (hid : obj.objId ≠ objId)
    {st : io.State × UInt64} {ma} (hrep : arr.Rep st.1 ma) :
    arr.Rep (regionCacheFlushByPointer qsort io obj st).1 ma :=
  foldl_flushRegion_other arr hid hrep

/-- After the object is flushed storage holds what it held and what the
cached regions held. -/
theorem flushByPointer_own (qsort : OffsetSort) (hid : obj.objId = objId) (hndim : obj.ndim = n)
    (hsized : ∀ rc ∈ obj.regionCache, rc.Sized n unit)
    (hcoh : Coherent (obj.regionCache.map (CacheRegion.copy n unit)) m)
    (hok : FlushOk n unit (obj.regionCache.map (·.region)))
    {st : io.State × UInt64} {ma} (hrep : arr.Rep st.1 ma) :
    ∃ ma', arr.Rep (regionCacheFlushByPointer qsort io obj st).1 ma' ∧ ∀ c v, m c = some v →
        (∃ rc ∈ obj.regionCache, c ∈ rc.region.cells n) ∨ ma c = some v → ma' c = some v := by
  -- Whichever regions are written, they are coherent and nothing is left out.
  have hwritten : ∃ regions : List CacheRegion,
      regionCacheFlushByPointer qsort io obj st = regions.foldl (flushRegion io obj) st ∧
      (∀ rc ∈ regions, rc.Sized n unit) ∧
      Coherent (regions.map (CacheRegion.copy n unit)) m ∧
      ∀ c, (∃ rc ∈ obj.regionCache, c ∈ rc.region.cells n) →
        ∃ rc ∈ regions, c ∈ rc.region.cells n := by
    by_cases h1 : n = 1
    · subst h1
      obtain ⟨hs, hc, hcover⟩ := mergedRegions_spec qsort hsized hcoh (hok rfl)
      refine ⟨mergedRegions qsort obj.regionCache, ?_, hs, hc, hcover⟩
      rw [regionCacheFlushByPointer, if_pos hndim]
    · refine ⟨obj.regionCache, ?_, hsized, hcoh, fun _ h => h⟩
      rw [regionCacheFlushByPointer, if_neg (by rw [hndim]; exact h1)]
  obtain ⟨regions, heq, hs, hc, hcover⟩ := hwritten
  rw [heq]
  refine ⟨_, foldl_flushRegion_rep arr hid hndim hs hrep, fun c v hv hheld => ?_⟩
  rw [foldl_overlay_coherent hc]
  split
  · exact hv
  · next hnot =>
    rcases hheld with hheld | hma
    · obtain ⟨rc, hrc, hin⟩ := hcover c hheld
      exact absurd ⟨_, mem_map.mpr ⟨rc, hrc, rfl⟩, hin⟩ hnot
    · exact hma

end Flush

/-! ## The invariant -/

/-- Every written cell of the object is in a cached region or in storage, and
what the cached regions hold is current. -/
structure CacheInv {io : StorageIO} {objId : UInt64} {n unit : Nat}
    (arr : io.ArrayAt objId (ioLayout n unit)) (m : (Fin n → ℕ) → Option (List UInt8))
    (s : CacheState io) : Prop where
  nodup : (s.objCacheList.map (·.objId)).Nodup
  ndim_eq : ∀ obj, findObj s.objCacheList objId = some obj → obj.ndim = n
  sized : ∀ rc ∈ regionsOf s.objCacheList objId, rc.Sized n unit
  coherent : Coherent ((regionsOf s.objCacheList objId).map (CacheRegion.copy n unit)) m
  held : ∃ ma, arr.Rep s.storage ma ∧ ∀ c v, m c = some v →
    (∃ rc ∈ regionsOf s.objCacheList objId, c ∈ rc.region.cells n) ∨ ma c = some v

section Step

variable {n unit : Nat} {io : StorageIO} {objId : UInt64}
  {m : (Fin n → ℕ) → Option (List UInt8)} {arr : io.ArrayAt objId (ioLayout n unit)}
  {s : CacheState io}

theorem CacheInv.empty {storage : io.State} {total : UInt64}
    (h : arr.Rep storage fun _ => none) : CacheInv arr (fun _ => none) ⟨[], total, storage⟩ where
  nodup := nodup_nil
  ndim_eq := fun obj h => by cases h
  sized := fun rc h => by cases h
  coherent := fun p h => by cases h
  held := ⟨_, h, fun c v h => by cases h⟩

theorem CacheInv.of_same (h : CacheInv arr m s) {s' : CacheState io}
    (hnodup : (s'.objCacheList.map (·.objId)).Nodup)
    (hfind : findObj s'.objCacheList objId = findObj s.objCacheList objId)
    (hrep : ∀ ma, arr.Rep s.storage ma → arr.Rep s'.storage ma) : CacheInv arr m s' := by
  have hregions : regionsOf s'.objCacheList objId = regionsOf s.objCacheList objId := by
    rw [regionsOf, regionsOf, hfind]
  obtain ⟨ma, hma, hheld⟩ := h.held
  refine ⟨hnodup, ?_, ?_, ?_, ma, hrep ma hma, ?_⟩
  · rw [hfind]; exact h.ndim_eq
  · rw [hregions]; exact h.sized
  · rw [hregions]; exact h.coherent
  · rw [hregions]; exact hheld

theorem CacheInv.of_flushed {s' : CacheState io} (hnodup : (s'.objCacheList.map (·.objId)).Nodup)
    (hndim : ∀ obj, findObj s'.objCacheList objId = some obj → obj.ndim = n)
    (hregions : regionsOf s'.objCacheList objId = [])
    (hheld : ∃ ma, arr.Rep s'.storage ma ∧ ∀ c v, m c = some v → ma c = some v) :
    CacheInv arr m s' := by
  obtain ⟨ma, hma, hall⟩ := hheld
  refine ⟨hnodup, hndim, ?_, ?_, ma, hma, fun c v hv => .inr (hall c v hv)⟩
  · rw [hregions]; intro rc h; cases h
  · rw [hregions]; intro p h; cases h

/-- What is not cached is stored, and a flush of the object stores the rest. -/
theorem CacheInv.stores (h : CacheInv arr m s) (qsort : OffsetSort)
    (hok : FlushOk n unit ((regionsOf s.objCacheList objId).map (·.region))) :
    ∃ ma, arr.Rep s.storage ma ∧
      (findObj s.objCacheList objId = none → ∀ c v, m c = some v → ma c = some v) ∧
      ∀ obj, findObj s.objCacheList objId = some obj → ∀ st : io.State × UInt64,
        arr.Rep st.1 ma → ∃ ma', arr.Rep (regionCacheFlushByPointer qsort io obj st).1 ma' ∧
          ∀ c v, m c = some v → ma' c = some v := by
  obtain ⟨ma, hma, hheld⟩ := h.held
  refine ⟨ma, hma, fun hnone c v hv => ?_, fun obj hfind st hst => ?_⟩
  · rw [regionsOf_of_none hnone] at hheld
    simpa using hheld c v hv
  · have hregions := regionsOf_of_find hfind
    have hsized := h.sized
    have hcoherent := h.coherent
    rw [hregions] at hok hheld hsized hcoherent
    obtain ⟨ma', hma', hall⟩ := flushByPointer_own arr qsort (objId_of_findObj hfind)
      (h.ndim_eq obj hfind) hsized hcoherent hok hst
    exact ⟨ma', hma', fun c v hv => hall c v hv (hheld c v hv)⟩

theorem CacheInv.flush_own (h : CacheInv arr m s) (qsort : OffsetSort)
    (hok : FlushOk n unit ((regionsOf s.objCacheList objId).map (·.region))) :
    CacheInv arr m (regionCacheFlush qsort s objId) ∧
      ∃ ma, arr.Rep (regionCacheFlush qsort s objId).storage ma ∧
        ∀ c v, m c = some v → ma c = some v := by
  obtain ⟨ma, hma, hnone, hsome⟩ := h.stores qsort hok
  rw [regionCacheFlush]
  cases hfind : findObj s.objCacheList objId with
  | none => exact ⟨h, ma, hma, hnone hfind⟩
  | some obj =>
    have hstored := hsome obj hfind (s.storage, s.totalCacheSize) hma
    refine ⟨CacheInv.of_flushed ?_ ?_ ?_ hstored, hstored⟩
    · exact nodup_setRegions h.nodup _ _
    · exact ndim_setRegions h.ndim_eq
    · exact regionsOf_setRegions fun _ => rfl

theorem CacheInv.flush_other (h : CacheInv arr m s) (qsort : OffsetSort)
    (hk : k ≠ objId) : CacheInv arr m (regionCacheFlush qsort s k) := by
  rw [regionCacheFlush]
  split
  · exact h
  · next obj hfind =>
    refine h.of_same ?_ (findObj_setRegions_of_ne hk) fun ma hma => ?_
    · exact nodup_setRegions h.nodup _ _
    · exact flushByPointer_other arr qsort (by rw [objId_of_findObj hfind]; exact hk) hma

theorem foldl_flushByPointer_other (hobjs : ∀ obj ∈ objs, obj.objId ≠ objId)
    {st : io.State × UInt64} {ma} (hrep : arr.Rep st.1 ma) :
    arr.Rep (objs.foldl (fun st obj => regionCacheFlushByPointer qsort io obj st) st).1 ma := by
  induction objs generalizing st with
  | nil => exact hrep
  | cons obj objs ih =>
    rw [forall_mem_cons] at hobjs
    exact ih hobjs.2 (flushByPointer_other arr qsort hobjs.1 hrep)

theorem CacheInv.flushAll (h : CacheInv arr m s) (qsort : OffsetSort)
    (hok : FlushOk n unit ((regionsOf s.objCacheList objId).map (·.region))) :
    CacheInv arr m (regionCacheFlushAll qsort s) := by
  obtain ⟨ma, hma, hnone, hsome⟩ := h.stores qsort hok
  refine CacheInv.of_flushed nodup_nil (fun obj h => by cases h) rfl ?_
  have hrep : arr.Rep (s.storage, s.totalCacheSize).1 ma := hma
  rw [regionCacheFlushAll]
  cases hfind : findObj s.objCacheList objId with
  | none =>
    have hothers : ∀ obj ∈ s.objCacheList, obj.objId ≠ objId := by
      simpa [findObj] using hfind
    exact ⟨ma, foldl_flushByPointer_other qsort hothers hrep, hnone hfind⟩
  | some obj =>
    -- Nothing before the object or behind it has its id.
    obtain ⟨-, pre, post, hobjs, hpre⟩ := find?_eq_some_iff_append.mp hfind
    have hnodup := h.nodup
    rw [hobjs, map_append, map_cons, nodup_append, nodup_cons, objId_of_findObj hfind] at hnodup
    rw [hobjs, foldl_append, foldl_cons]
    obtain ⟨ma', hma', hall⟩ := hsome obj hfind _
      (foldl_flushByPointer_other qsort (by simpa using hpre) hrep)
    refine ⟨ma', foldl_flushByPointer_other qsort (fun q hq heq => ?_) hma', hall⟩
    exact hnodup.2.1.1 (heq ▸ mem_map_of_mem hq)

end Step

/-! ## Writing -/

section Write

variable {n unit : Nat} {t : Transfer n unit}

/-- A cached region brought up to date with a write. -/
structure CacheRegion.Updated (t : Transfer n unit) (rc rc' : CacheRegion) : Prop where
  sized : rc'.Sized n unit
  refreshed : Refreshed t.patch (rc.copy n unit) (rc'.copy n unit)

theorem CacheRegion.updated_refresh (hn : n = 1 ∨ n = 2 ∨ n = 3) (t : Transfer n unit)
    (hrc : rc.Sized n unit) :
    rc.Updated t { rc with buf := refresh n unit t.region t.buf rc.region rc.buf } where
  sized := ⟨hrc.ndim_eq, hrc.unit_eq, hrc.noWrap, by rw [length_refresh]; exact hrc.length_buf⟩
  refreshed := refreshed_refresh hn t.noWrap hrc.noWrap t.length_buf hrc.length_buf

theorem CacheRegion.updated_of_apart (hrc : rc.Sized n unit)
    (h : t.region.Apart n rc.region) : rc.Updated t rc where
  sized := hrc
  refreshed := ⟨rfl, fun _ hc => ⟨fun hw => absurd hc (h.not_mem hw), fun _ => rfl⟩⟩

/-- The loop of a write: the regions keep their place and each comes out up
to date, provided none behind a region that contains the write overlaps it. -/
theorem cacheWriteLoop_spec (hn : n = 1 ∨ n = 2 ∨ n = 3) (t : Transfer n unit) :
    ∀ {regions : List CacheRegion}, (∀ rc ∈ regions, rc.Sized n unit) →
      regions.Pairwise (fun a b => t.region.Inside n a.region → t.region.Apart n b.region) →
      (∀ rc' ∈ (cacheWriteLoop n unit t.region t.buf regions).1, ∃ rc ∈ regions, rc.Updated t rc') ∧
      (cacheWriteLoop n unit t.region t.buf regions).1.map (·.region) = regions.map (·.region) ∧
      ((cacheWriteLoop n unit t.region t.buf regions).2 = true →
        ∃ r ∈ regions.map (·.region), t.region.Inside n r) := by
  intro regions
  induction regions with
  | nil => intro _ _; simp [cacheWriteLoop]
  | cons rc rest ih =>
    intro hsized hpair
    rw [pairwise_cons] at hpair
    have hrc := hsized rc (by simp)
    have hrest : ∀ q ∈ rest, q.Sized n unit := fun q hq => hsized q (mem_cons_of_mem _ hq)
    obtain ⟨hupdated, hregions, hflag⟩ := ih hrest hpair.2
    have hhead := CacheRegion.updated_refresh hn t hrc
    rw [refresh] at hhead
    have hgo : ∀ rc₁ : CacheRegion, rc.Updated t rc₁ →
        ∀ rc' ∈ rc₁ :: (cacheWriteLoop n unit t.region t.buf rest).1,
          ∃ rc₀ ∈ rc :: rest, rc₀.Updated t rc' := by
      intro rc₁ hrc₁ rc' hrc'
      rcases mem_cons.mp hrc' with rfl | hrc'
      · exact ⟨rc, by simp, hrc₁⟩
      · obtain ⟨rc₀, hrc₀, hup⟩ := hupdated rc' hrc'
        exact ⟨rc₀, mem_cons_of_mem _ hrc₀, hup⟩
    have hflag' : (cacheWriteLoop n unit t.region t.buf rest).2 = true →
        ∃ r ∈ (rc :: rest).map (·.region), t.region.Inside n r := by
      exact fun h => exists_mem_cons_of_exists (hflag h)
    rw [cacheWriteLoop]
    cases hov : regionOverlapDetect n t.region rc.region with
    | none =>
      rw [hov] at hhead
      exact ⟨hgo rc hhead, by simp [hregions], hflag'⟩
    | some ov =>
      rw [hov] at hhead
      simp only []
      split
      · next hcont =>
        have hin := (detectRegionContained_iff t.noWrap hrc.noWrap).mp hcont
        refine ⟨?_, rfl, fun _ => ⟨rc.region, by simp, hin⟩⟩
        intro rc' hrc'
        rcases mem_cons.mp hrc' with rfl | hrc'
        · exact ⟨rc, by simp, hhead⟩
        · exact ⟨rc', mem_cons_of_mem _ hrc',
            CacheRegion.updated_of_apart (hrest rc' hrc') (hpair.1 rc' hrc' hin)⟩
      · exact ⟨hgo _ hhead, by simp [hregions], hflag'⟩

variable {io : StorageIO} {objId : UInt64} {m : (Fin n → ℕ) → Option (List UInt8)}
  {arr : io.ArrayAt objId (ioLayout n unit)} {s : CacheState io}

/-- The region a write registers. -/
def CacheRegion.ofTransfer (t : Transfer n unit) : CacheRegion :=
  { ndim := n, region := t.region, buf := t.buf, unit := unit }

/-- The invariant after a write: each region is an earlier one brought up to
date or the write itself, the earlier regions are still there, and some region
holds all of the write. -/
theorem CacheInv.write_regions (h : CacheInv arr m s)
    {s' : CacheState io} (hnodup : (s'.objCacheList.map (·.objId)).Nodup)
    (hndim : ∀ obj, findObj s'.objCacheList objId = some obj → obj.ndim = n)
    (hstorage : s'.storage = s.storage)
    (hnew : ∀ rc' ∈ regionsOf s'.objCacheList objId,
      (∃ rc ∈ regionsOf s.objCacheList objId, rc.Updated t rc') ∨ rc' = CacheRegion.ofTransfer t)
    (hkept : ∀ rc ∈ regionsOf s.objCacheList objId,
      ∃ rc' ∈ regionsOf s'.objCacheList objId, rc'.region = rc.region)
    (hholds : ∃ rc' ∈ regionsOf s'.objCacheList objId, t.region.Inside n rc'.region) :
    CacheInv arr (overlay m t.patch) s' := by
  obtain ⟨ma, hma, hheld⟩ := h.held
  refine ⟨hnodup, hndim, ?_, h.coherent.write ?_, ma, by rw [hstorage]; exact hma, ?_⟩
  · intro rc' hrc'
    rcases hnew rc' hrc' with ⟨rc, _, hup⟩ | rfl
    · exact hup.sized
    · exact ⟨rfl, rfl, t.noWrap, t.length_buf⟩
  · intro p' hp'
    obtain ⟨rc', hrc', rfl⟩ := mem_map.mp hp'
    rcases hnew rc' hrc' with ⟨rc, hrc, hup⟩ | rfl
    · exact .inl ⟨_, mem_map.mpr ⟨rc, hrc, rfl⟩, hup.refreshed⟩
    · exact .inr ⟨subset_rfl, fun _ _ => rfl⟩
  · intro c v hv
    by_cases hw : c ∈ t.patch.cells
    · obtain ⟨rc', hrc', hin⟩ := hholds
      exact .inl ⟨rc', hrc', hin.cells_subset hw⟩
    · rw [overlay_of_not_mem hw] at hv
      rcases hheld c v hv with ⟨rc, hrc, hc⟩ | hma
      · obtain ⟨rc', hrc', heq⟩ := hkept rc hrc
        exact .inl ⟨rc', hrc', by rw [heq]; exact hc⟩
      · exact .inr hma

def CacheState.setRegions (s : CacheState io) (k : UInt64) (regions : List CacheRegion) :
    CacheState io :=
  { s with objCacheList := Pdc.setRegions s.objCacheList k regions }

/-- A write as one case split on the loop's `flag`; an object that is not
cached has no regions to loop over. -/
theorem transferRequestDataWriteOut_eq (hnodup : (s.objCacheList.map (·.objId)).Nodup) (k : UInt64)
    (req : IoRequest) (buf : List UInt8) :
    transferRequestDataWriteOut maximumCacheSize qsort s k req buf =
      if (cacheWriteLoop req.ndim req.unit req.region buf (regionsOf s.objCacheList k)).2 then
        s.setRegions k
          (cacheWriteLoop req.ndim req.unit req.region buf (regionsOf s.objCacheList k)).1
      else
        (regionCacheRegister maximumCacheSize qsort (s.setRegions k
            (cacheWriteLoop req.ndim req.unit req.region buf (regionsOf s.objCacheList k)).1)
          k req buf (req.region.writeSize req.ndim req.unit)).1 := by
  rw [transferRequestDataWriteOut, findLastObj_eq hnodup, regionsOf]
  cases hfind : findObj s.objCacheList k with
  | none =>
    have hsame : s.setRegions k [] = s := by
      rw [CacheState.setRegions, setRegions_of_none hfind]
    simp only [cacheWriteLoop, hsame]
  | some obj => rfl

theorem CacheInv.write_own (hn : n = 1 ∨ n = 2 ∨ n = 3) (h : CacheInv arr m s)
    (maximumCacheSize : UInt64) (qsort : OffsetSort) (objDims : List UInt64)
    (t : Transfer n unit)
    (hpair : (regionsOf s.objCacheList objId).Pairwise
      fun a b => t.region.Inside n a.region → t.region.Apart n b.region)
    (hflush : maximumCacheSize < s.totalCacheSize + ofNat (t.region.writeSize n unit) →
      FlushOk n unit ((regionsOf s.objCacheList objId).map (·.region) ++ [t.region])) :
    CacheInv arr (overlay m t.patch) (transferRequestDataWriteOut maximumCacheSize qsort s objId
        ⟨n, objDims, n, t.region, unit⟩ t.buf) := by
  rw [transferRequestDataWriteOut_eq maximumCacheSize qsort h.nodup]
  obtain ⟨hupdated, hregions, hflag⟩ := cacheWriteLoop_spec hn t h.sized hpair
  have hempty : findObj s.objCacheList objId = none →
      (cacheWriteLoop n unit t.region t.buf (regionsOf s.objCacheList objId)).1 = [] := by
    intro hnone
    rw [regionsOf_of_none hnone]
    rfl
  generalize cacheWriteLoop n unit t.region t.buf (regionsOf s.objCacheList objId) = loop at *
  obtain ⟨out, flag⟩ := loop
  have hkept : ∀ rc ∈ regionsOf s.objCacheList objId, ∃ rc' ∈ out, rc'.region = rc.region := by
    intro rc hrc
    have hmem : rc.region ∈ out.map (·.region) := by
      rw [hregions]
      exact mem_map.mpr ⟨rc, hrc, rfl⟩
    exact mem_map.mp hmem
  split
  · -- Contained: the regions are patched and nothing is registered.
    next hcont =>
      refine h.write_regions (nodup_setRegions h.nodup _ _) (ndim_setRegions h.ndim_eq) rfl
        ?_ ?_ ?_ <;> rw [CacheState.setRegions, regionsOf_setRegions hempty]
      · exact fun rc' hrc' => .inl (hupdated rc' hrc')
      · exact hkept
      · obtain ⟨r, hr, hin⟩ := hflag hcont
        rw [← hregions] at hr
        obtain ⟨rc', hrc', rfl⟩ := mem_map.mp hr
        exact ⟨rc', hrc', hin⟩
  · have hbuf : slice t.buf 0 (t.region.writeSize n unit) = t.buf :=
      slice_eq_self (by rw [t.length_buf, Region.writeSize_eq hn])
    unfold regionCacheRegister
    rw [if_neg (by simp)]
    dsimp only [CacheState.setRegions]
    rw [hbuf]
    obtain ⟨obj, hfind, hobj, hndim⟩ := findObj_appendRegion_self
      (setRegions s.objCacheList objId out) objId ⟨n, objDims, n, t.region, unit⟩
      (CacheRegion.ofTransfer t)
    rw [regionsOf_setRegions hempty] at hobj
    have hafter : regionsOf (appendRegion (setRegions s.objCacheList objId out) objId
        ⟨n, objDims, n, t.region, unit⟩ (CacheRegion.ofTransfer t)) objId =
        out ++ [CacheRegion.ofTransfer t] := by
      rw [regionsOf_of_find hfind, hobj]
    have hregistered : CacheInv arr (overlay m t.patch)
        { s with
          objCacheList := appendRegion (setRegions s.objCacheList objId out) objId
            ⟨n, objDims, n, t.region, unit⟩ (CacheRegion.ofTransfer t)
          totalCacheSize := s.totalCacheSize + ofNat (t.region.writeSize n unit) } := by
      refine h.write_regions (nodup_appendRegion (nodup_setRegions h.nodup _ _) _ _ _) ?_ rfl
        ?_ ?_ ?_
      · intro obj' hobj'
        rw [hfind] at hobj'
        injection hobj' with hobj'
        rw [← hobj']
        rcases hndim with hndim | ⟨obj₀, hobj₀, hndim⟩
        · exact hndim
        · rw [hndim]
          exact ndim_setRegions h.ndim_eq obj₀ hobj₀
      all_goals dsimp only; rw [hafter]
      · intro rc' hrc'
        rcases mem_append.mp hrc' with hrc' | hrc'
        · exact .inl (hupdated rc' hrc')
        · exact .inr (mem_singleton.mp hrc')
      · intro rc hrc
        obtain ⟨rc', hrc', heq⟩ := hkept rc hrc
        exact ⟨rc', mem_append_left _ hrc', heq⟩
      · exact ⟨_, mem_append_right _ (mem_singleton.mpr rfl), Region.Inside.refl n _⟩
    split
    · next hfull =>
      refine hregistered.flushAll qsort ?_
      rw [hafter, map_append, hregions]
      exact hflush hfull
    · exact hregistered

theorem CacheInv.write_other (h : CacheInv arr m s) (maximumCacheSize : UInt64)
    (qsort : OffsetSort) (hk : k ≠ objId) (req : IoRequest) (buf : List UInt8)
    (hflush : maximumCacheSize <
        s.totalCacheSize + ofNat (req.region.writeSize req.ndim req.unit) →
      FlushOk n unit ((regionsOf s.objCacheList objId).map (·.region))) :
    CacheInv arr m (transferRequestDataWriteOut maximumCacheSize qsort s k req buf) := by
  rw [transferRequestDataWriteOut_eq maximumCacheSize qsort h.nodup]
  generalize (cacheWriteLoop req.ndim req.unit req.region buf (regionsOf s.objCacheList k)) = loop
  have hpatched : CacheInv arr m (s.setRegions k loop.1) :=
    h.of_same (nodup_setRegions h.nodup _ _) (findObj_setRegions_of_ne hk) fun _ hma => hma
  split
  · exact hpatched
  · unfold regionCacheRegister
    split
    · exact hpatched
    · dsimp only
      have hregistered : ∀ (rc : CacheRegion) (total : UInt64), CacheInv arr m
          ⟨appendRegion (setRegions s.objCacheList k loop.1) k req rc, total, s.storage⟩ :=
        fun rc total => hpatched.of_same (nodup_appendRegion (nodup_setRegions h.nodup _ _) _ _ _)
          (findObj_appendRegion_of_ne hk) fun _ hma => hma
      split
      · next hfull =>
        refine (hregistered _ _).flushAll qsort ?_
        rw [regionsOf, findObj_appendRegion_of_ne hk, findObj_setRegions_of_ne hk]
        exact hflush hfull
      · exact hregistered _ _

end Write

/-! ## Reading -/

section Read

variable {n unit : Nat} {io : StorageIO} {objId : UInt64}
  {m : (Fin n → ℕ) → Option (List UInt8)} {arr : io.ArrayAt objId (ioLayout n unit)}
  {s : CacheState io}

theorem regionFetch_eq (hnodup : (s.objCacheList.map (·.objId)).Nodup) (k : UInt64)
    (req : IoRequest) (buf : List UInt8) :
    regionFetch qsort s k req buf =
      match (regionsOf s.objCacheList k).find? fun rc =>
          detectRegionContained req.ndim req.region rc.region with
      | some rc => (s, refresh req.ndim req.unit rc.region rc.buf req.region buf)
      | none => (regionCacheFlush qsort s k,
          io.read (regionCacheFlush qsort s k).storage k req buf) := by
  rw [regionFetch, findLastObj_eq hnodup, regionsOf, regionCacheFlush]
  cases findObj s.objCacheList k with
  | none => rfl
  | some obj =>
    dsimp only
    cases obj.regionCache.find? fun rc => detectRegionContained req.ndim req.region rc.region with
    | none => rfl
    | some rc =>
      have hcomm := regionOverlapDetect_comm req.ndim rc.region req.region
      cases hov : regionOverlapDetect req.ndim req.region rc.region with
      | none => simp only [refresh, hcomm.trans hov, hov]
      | some ov => simp only [refresh, hcomm.trans hov, hov]

theorem CacheInv.fetch_own (hn : n = 1 ∨ n = 2 ∨ n = 3) (h : CacheInv arr m s)
    (qsort : OffsetSort) (objDims : List UInt64) (t : Transfer n unit)
    (hok : (∀ rc ∈ regionsOf s.objCacheList objId, ¬ t.region.Inside n rc.region) →
      FlushOk n unit ((regionsOf s.objCacheList objId).map (·.region))) :
    CacheInv arr m (regionFetch qsort s objId ⟨n, objDims, n, t.region, unit⟩ t.buf).1 ∧
      ∀ c ∈ t.region.cells n, ∀ v, m c = some v →
        elem unit (regionFetch qsort s objId ⟨n, objDims, n, t.region, unit⟩ t.buf).2
          (t.region.index n c) = v := by
  rw [regionFetch_eq qsort h.nodup]
  cases hfind : (regionsOf s.objCacheList objId).find? fun rc =>
      detectRegionContained n t.region rc.region with
  | some rc =>
    refine ⟨h, fun c hc v hv => ?_⟩
    have hrc : rc ∈ regionsOf s.objCacheList objId := mem_of_find?_eq_some hfind
    have hsized := h.sized rc hrc
    have hcont : detectRegionContained n t.region rc.region = true := by
      simpa using find?_some hfind
    have hin := (detectRegionContained_iff t.noWrap hsized.noWrap).mp hcont
    have hval := ((refreshed_refresh hn hsized.noWrap t.noWrap hsized.length_buf
      t.length_buf).2 c hc).1 (hin.cells_subset hc)
    have hcoh := h.coherent _ (mem_map.mpr ⟨rc, hrc, rfl⟩) c (hin.cells_subset hc)
    rw [hv] at hcoh
    injection hcoh with hcoh
    rw [hcoh]
    exact hval
  | none =>
    have hmiss : ∀ rc ∈ regionsOf s.objCacheList objId, ¬ t.region.Inside n rc.region := by
      intro rc hrc hin
      exact find?_eq_none.mp hfind rc hrc
        ((detectRegionContained_iff t.noWrap (h.sized rc hrc).noWrap).mpr hin)
    obtain ⟨hinv, ma, hma, hall⟩ := h.flush_own qsort (hok hmiss)
    exact ⟨hinv, fun c hc v hv =>
      arr.read (r := ⟨n, objDims, n, t.region, unit⟩) hma
        ⟨rfl, rfl, rfl, t.noWrap, t.length_buf⟩ hc (hall c v hv)⟩

theorem CacheInv.fetch_other (h : CacheInv arr m s) (qsort : OffsetSort)
    (hk : k ≠ objId) (req : IoRequest) (buf : List UInt8) :
    CacheInv arr m (regionFetch qsort s k req buf).1 := by
  rw [regionFetch_eq qsort h.nodup]
  split
  · exact h
  · exact h.flush_other qsort hk

end Read

/-! ## The cache over storage by region

In two and three dimensions the storage of `Pdc.Server.Data` is an array
store, so the cache over it needs no assumption about storage. -/

/-- Storage by region behaves as an array for an object of two or three
dimensions. -/
def regionStoreArrayAt {n : Nat} (unit : Nat) (hn : n = 2 ∨ n = 3) (sieving : Bool)
    (junk : Nat → UInt8) (objId : UInt64) :
    (regionStore sieving junk).ArrayAt objId (ioLayout n unit) where
  Rep s m := StorageInv n unit m (s objId)
  write := by
    rintro s m ⟨objNdim, objDims, ndim, region, u⟩ b h ⟨_, rfl, rfl, hnoWrap, hlen⟩
    have hstep := h.write (.inr hn) sieving junk ⟨region, b, hnoWrap, hlen⟩
      fun sr _ h1 => absurd h1 (by omega)
    exact (congrArg (StorageInv ndim u _) (Function.update_self objId _ s)).mpr hstep
  write_other := by
    intro s m k r b hk h
    exact (congrArg (StorageInv n unit m) (Function.update_of_ne hk.symm _ s)).mpr h
  read := by
    rintro s m ⟨objNdim, objDims, ndim, region, u⟩ b c v h ⟨_, rfl, rfl, hnoWrap, hlen⟩ hc hv
    exact h.read (.inr hn) sieving junk ⟨region, b, hnoWrap, hlen⟩ hc hv

def offsetInsertionSort : OffsetSort where
  sort := List.insertionSort fun a b => a.region.off 0 ≤ b.region.off 0
  perm := perm_insertionSort _
  sorted regions := by
    have htotal : Std.Total fun a b : CacheRegion => a.region.off 0 ≤ b.region.off 0 :=
      ⟨fun a b => Nat.le_total _ _⟩
    have htrans : IsTrans CacheRegion fun a b => a.region.off 0 ≤ b.region.off 0 :=
      ⟨fun a b c => Nat.le_trans⟩
    exact (pairwise_insertionSort _ regions).imp fun h => UInt64.le_iff_toNat_le.mpr h

/-! ## Runs -/

/-- The calls on a server's cache, seen from one object of `n` dimensions and
`unit`-byte elements. -/
inductive CacheOp (objId : UInt64) (n unit : Nat) where
  | write (objDims : List UInt64) (t : Transfer n unit)
  | read (objDims : List UInt64) (t : Transfer n unit)
  | flush
  | flushAll
  | otherWrite (k : UInt64) (hk : k ≠ objId) (req : IoRequest) (buf : List UInt8)
  | otherRead (k : UInt64) (hk : k ≠ objId) (req : IoRequest) (buf : List UInt8)
  | otherFlush (k : UInt64) (hk : k ≠ objId)

section Run

variable {n unit : Nat} {io : StorageIO} {objId : UInt64}

def cacheStep (maximumCacheSize : UInt64) (qsort : OffsetSort) (s : CacheState io) :
    CacheOp objId n unit → CacheState io
  | .write objDims t =>
    transferRequestDataWriteOut maximumCacheSize qsort s objId ⟨n, objDims, n, t.region, unit⟩ t.buf
  | .read objDims t => (regionFetch qsort s objId ⟨n, objDims, n, t.region, unit⟩ t.buf).1
  | .flush => regionCacheFlush qsort s objId
  | .flushAll => regionCacheFlushAll qsort s
  | .otherWrite k _ req buf => transferRequestDataWriteOut maximumCacheSize qsort s k req buf
  | .otherRead k _ req buf => (regionFetch qsort s k req buf).1
  | .otherFlush k _ => regionCacheFlush qsort s k

/-- What a call needs of the cache before it. A write must not overlap a
region cached behind one that contains it, and whenever the object is flushed
its regions must be ones that merge. -/
def CacheOp.Ok (maximumCacheSize : UInt64) (s : CacheState io) : CacheOp objId n unit → Prop
  | .write _ t =>
    ((regionsOf s.objCacheList objId).Pairwise fun a b =>
      t.region.Inside n a.region → t.region.Apart n b.region) ∧
    (maximumCacheSize < s.totalCacheSize + UInt64.ofNat (t.region.writeSize n unit) →
      FlushOk n unit ((regionsOf s.objCacheList objId).map (·.region) ++ [t.region]))
  | .read _ t =>
    (∀ rc ∈ regionsOf s.objCacheList objId, ¬ t.region.Inside n rc.region) →
      FlushOk n unit ((regionsOf s.objCacheList objId).map (·.region))
  | .flush => FlushOk n unit ((regionsOf s.objCacheList objId).map (·.region))
  | .flushAll => FlushOk n unit ((regionsOf s.objCacheList objId).map (·.region))
  | .otherWrite _ _ req _ =>
    maximumCacheSize < s.totalCacheSize + UInt64.ofNat (req.region.writeSize req.ndim req.unit) →
      FlushOk n unit ((regionsOf s.objCacheList objId).map (·.region))
  | .otherRead _ _ _ _ => True
  | .otherFlush _ _ => True

def CacheOp.patch? : CacheOp objId n unit → Option (Patch (Fin n → ℕ) (List UInt8))
  | .write _ t => some t.patch
  | _ => none

section

variable (hn : n = 1 ∨ n = 2 ∨ n = 3) {arr : io.ArrayAt objId (ioLayout n unit)}
include hn

theorem CacheInv.step (maximumCacheSize : UInt64) (qsort : OffsetSort)
    {m : (Fin n → ℕ) → Option (List UInt8)} {s : CacheState io} {op : CacheOp objId n unit}
    (h : CacheInv arr m s) (hok : op.Ok maximumCacheSize s) :
    CacheInv arr (op.patch?.elim m (overlay m)) (cacheStep maximumCacheSize qsort s op) := by
  cases op with
  | write objDims t => exact h.write_own hn maximumCacheSize qsort objDims t hok.1 hok.2
  | read objDims t => exact (h.fetch_own hn qsort objDims t hok).1
  | flush => exact (h.flush_own qsort hok).1
  | flushAll => exact h.flushAll qsort hok
  | otherWrite k hk req buf => exact h.write_other maximumCacheSize qsort hk req buf hok
  | otherRead k hk req buf => exact h.fetch_other qsort hk req buf
  | otherFlush k hk => exact h.flush_other qsort hk

theorem CacheInv.of_run {maximumCacheSize : UInt64} {qsort : OffsetSort}
    {storage : io.State} (hstorage : arr.Rep storage fun _ => none)
    {ops : List (CacheOp objId n unit)}
    (hok : Along (cacheStep maximumCacheSize qsort) (CacheOp.Ok maximumCacheSize)
      ⟨[], 0, storage⟩ ops) :
    CacheInv arr (lastWrite (ops.filterMap CacheOp.patch?))
      (run (cacheStep maximumCacheSize qsort) ⟨[], 0, storage⟩ ops) := by
  refine Along.invariant_nil
    (I := fun hist s => CacheInv arr (lastWrite (hist.filterMap CacheOp.patch?)) s)
    (fun hist s op h hop => ?_) (CacheInv.empty hstorage) hok
  have hstep := h.step hn maximumCacheSize qsort hop
  cases hp : op.patch? with
  | none => simpa [filterMap_append, hp] using hstep
  | some p => simpa [filterMap_append, hp, lastWrite_append_singleton] using hstep

end

/-- A read after any run of calls that meet `CacheOp.Ok` returns the last
value written to every cell that was written. -/
theorem cache_read_lastWrite (hn : n = 1 ∨ n = 2 ∨ n = 3)
    (arr : io.ArrayAt objId (ioLayout n unit)) (maximumCacheSize : UInt64) (qsort : OffsetSort)
    (storage : io.State) (hstorage : arr.Rep storage fun _ => none)
    (ops : List (CacheOp objId n unit))
    (hok : Along (cacheStep maximumCacheSize qsort) (CacheOp.Ok maximumCacheSize)
      ⟨[], 0, storage⟩ ops)
    (objDims : List UInt64) (rd : Transfer n unit)
    (hrd : CacheOp.Ok maximumCacheSize (run (cacheStep maximumCacheSize qsort) ⟨[], 0, storage⟩ ops)
      (.read objDims rd : CacheOp objId n unit))
    (c : Fin n → ℕ) (hc : c ∈ rd.region.cells n) (v : List UInt8)
    (hv : lastWrite (ops.filterMap CacheOp.patch?) c = some v) :
    elem unit (regionFetch qsort (run (cacheStep maximumCacheSize qsort) ⟨[], 0, storage⟩ ops) objId
      ⟨n, objDims, n, rd.region, unit⟩ rd.buf).2 (rd.region.index n c) = v :=
  ((CacheInv.of_run hn hstorage hok).fetch_own hn qsort objDims rd hrd).2 c hc v hv

end Run

/-- Two overlapping writes and a read of the second, which is still cached. -/
theorem cache_read_lastWrite_cached :
    elem 1 (regionFetch offsetInsertionSort (run (cacheStep 100 offsetInsertionSort)
        (⟨[], 0, fun _ => ⟨⟨[], 0⟩, []⟩⟩ : CacheState (regionStore true fun _ => 0))
        [(.write [] ⟨⟨[0, 0], [1, 4]⟩, [1, 1, 1, 1], by decide, by decide⟩ : CacheOp 7 2 1),
          .write [] ⟨⟨[0, 2], [1, 4]⟩, [2, 2, 2, 2], by decide, by decide⟩])
      7 ⟨2, [], 2, ⟨[0, 2], [1, 4]⟩, 1⟩ [0, 0, 0, 0]).2 0 = [2] :=
  cache_read_lastWrite (.inr (.inl rfl)) (regionStoreArrayAt 1 (.inl rfl) true (fun _ => 0) 7)
    100 offsetInsertionSort (fun _ => ⟨⟨[], 0⟩, []⟩) (StorageInv.empty 2 1 ⟨[], 0⟩)
    [.write [] ⟨⟨[0, 0], [1, 4]⟩, [1, 1, 1, 1], by decide, by decide⟩,
      .write [] ⟨⟨[0, 2], [1, 4]⟩, [2, 2, 2, 2], by decide, by decide⟩]
    ⟨⟨by decide, by decide⟩, ⟨by decide, by decide⟩, trivial⟩ []
    ⟨⟨[0, 2], [1, 4]⟩, [0, 0, 0, 0], by decide, by decide⟩
    (fun _ h1 => absurd h1 (by decide)) (fun i => i + i) (by decide) [2]
    (lastWrite_last [_] (by change _ ∈ Region.cells _ _; decide))

/-- Three writes to one row: the third is contained in the first and overlaps
the second. Only the first is patched, and a read of the second's region is
served from the second, with the value it had before. -/
theorem cache_read_stale :
    ∃ (ops : List (CacheOp 7 2 1)) (rd : Transfer 2 1) (c : Fin 2 → ℕ),
      c ∈ rd.region.cells 2 ∧ lastWrite (ops.filterMap CacheOp.patch?) c = some [3] ∧
        elem 1 (regionFetch offsetInsertionSort (run (cacheStep 100 offsetInsertionSort)
            (⟨[], 0, fun _ => ⟨⟨[], 0⟩, []⟩⟩ : CacheState (regionStore true fun _ => 0)) ops)
          7 ⟨2, [], 2, rd.region, 1⟩ rd.buf).2 (rd.region.index 2 c) = [2] := by
  refine ⟨[.write [] ⟨⟨[0, 0], [1, 4]⟩, [1, 1, 1, 1], by decide, by decide⟩,
      .write [] ⟨⟨[0, 2], [1, 4]⟩, [2, 2, 2, 2], by decide, by decide⟩,
      .write [] ⟨⟨[0, 2], [1, 2]⟩, [3, 3], by decide, by decide⟩],
    ⟨⟨[0, 2], [1, 4]⟩, [0, 0, 0, 0], by decide, by decide⟩, fun i => i + i, ?_, ?_, ?_⟩
  · decide
  · exact lastWrite_last [_, _] (by change _ ∈ Region.cells _ _; decide)
  · decide

end Pdc
