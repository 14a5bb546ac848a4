import Pdc.Server.DataIo
import Pdc.Proofs.StorageMap

/-!
# Which request a check speaks about

A check looks for the request for a region and stops at the first that
`region_list_cmp` takes for it. The comparison reads the starts only. It returns
the first difference, a `uint64_t`, as an `int`, and so it also takes two starts
for one that differ by a multiple of `2 ^ 32`. A check is right just when none
of the requests in front of the one it is about looks like it, and none at all
when there is no such request.

The property is stated for the regions of the requests: whatever the requests'
own state is, the answer is that of the right one.
-/

namespace Pdc

open Lib List

variable {r : RegionInfo} {elt : IoRegion} {a : UInt64}

/-! ## The comparison -/

/-- Two lists of starts are the same, or the first that differ do so by a multiple of
`2 ^ 32`. -/
def StartsAgree (as bs : List UInt64) : Prop :=
  as = bs ∨ ∃ pre a b as' bs', as = pre ++ a :: as' ∧ bs = pre ++ b :: bs' ∧ a ≠ b ∧
    a.toNat % 2 ^ 32 = b.toNat % 2 ^ 32

/-- The comparison takes two regions for one. -/
def LooksLike (r target : RegionInfo) : Prop :=
  r.ndim = target.ndim ∧ StartsAgree r.offset target.offset

theorem bmod_sub_eq_zero_iff (a b : UInt64) :
    ((a - b).toNat : Int).bmod (2 ^ 32) = 0 ↔ a.toNat % 2 ^ 32 = b.toNat % 2 ^ 32 := by
  have hb := b.toNat_lt
  rw [← Int.dvd_iff_bmod_eq_zero, UInt64.toNat_sub]
  omega

theorem startsAgree_cons_self {as bs : List UInt64} :
    StartsAgree (a :: as) (a :: bs) ↔ StartsAgree as bs := by
  constructor
  · rintro (heq | ⟨pre, x, y, as', bs', has, hbs, hne, hmod⟩)
    · exact .inl (cons.inj heq).2
    · cases pre with
      | nil => exact absurd ((cons.inj has).1.symm.trans (cons.inj hbs).1) hne
      | cons c pre =>
        exact .inr ⟨pre, x, y, as', bs', (cons.inj has).2, (cons.inj hbs).2, hne, hmod⟩
  · rintro (heq | ⟨pre, x, y, as', bs', has, hbs, hne, hmod⟩)
    · exact .inl (by rw [heq])
    · exact .inr ⟨a :: pre, x, y, as', bs', by rw [has]; rfl, by rw [hbs]; rfl, hne, hmod⟩

theorem startsAgree_cons_of_ne {b : UInt64} (h : a ≠ b) {as bs : List UInt64} :
    StartsAgree (a :: as) (b :: bs) ↔ a.toNat % 2 ^ 32 = b.toNat % 2 ^ 32 := by
  constructor
  · rintro (heq | ⟨pre, x, y, as', bs', has, hbs, -, hmod⟩)
    · exact absurd (cons.inj heq).1 h
    · cases pre with
      | nil => rw [(cons.inj has).1, (cons.inj hbs).1, hmod]
      | cons c pre => exact absurd ((cons.inj has).1.trans (cons.inj hbs).1.symm) h
  · exact fun hmod => .inr ⟨[], a, b, as, bs, rfl, rfl, h, hmod⟩

theorem startsCmp_eq_zero_iff {as bs : List UInt64} (hlen : as.length = bs.length) :
    startsCmp as bs = 0 ↔ StartsAgree as bs := by
  induction as generalizing bs with
  | nil =>
    obtain rfl : bs = [] := length_eq_zero_iff.mp hlen.symm
    exact ⟨fun _ => .inl rfl, fun _ => rfl⟩
  | cons a as ih =>
    cases bs with
    | nil => cases hlen
    | cons b bs =>
      rw [startsCmp]
      by_cases hab : a = b
      · subst hab
        rw [if_neg (by rw [UInt64.sub_self]; exact not_not_intro rfl),
          ih (Nat.succ.inj hlen), startsAgree_cons_self]
      · have hsub : a - b ≠ 0 := by
          intro hzero
          refine hab (UInt64.toNat_inj.mp ?_)
          have hnat : (a - b).toNat = 0 := by rw [hzero]; rfl
          have ha := a.toNat_lt
          have hb := b.toNat_lt
          rw [UInt64.toNat_sub] at hnat
          omega
        rw [if_pos hsub, bmod_sub_eq_zero_iff, startsAgree_cons_of_ne hab]

theorem regionListCmp_eq_zero_iff {target : RegionInfo} :
    regionListCmp r target = 0 ↔ LooksLike r target := by
  rw [regionListCmp, LooksLike]
  by_cases hndim : r.ndim = target.ndim
  · rw [if_neg (not_not_intro hndim), and_iff_right hndim,
      startsCmp_eq_zero_iff (by rw [r.offset_length, target.offset_length, hndim])]
  · rw [if_pos hndim]
    exact ⟨fun h => absurd h (by decide), fun h => absurd h.1 hndim⟩

theorem LooksLike.refl (r : RegionInfo) : LooksLike r r := ⟨rfl, .inl rfl⟩

/-! ## The request a check is about -/

def requestsOf (lists : List IoList) (objId : UInt64) : List IoRegion :=
  match lists.find? fun list => objId = list.objId with
  | none => []
  | some list => list.regions

def requestFor (lists : List IoList) (objId : UInt64) (r : RegionInfo) : Option IoRegion :=
  (requestsOf lists objId).find? fun elt => elt.region = r

theorem findRequest_eq (lists : List IoList) (objId : UInt64) (r : RegionInfo) :
    findRequest lists objId r =
      (requestsOf lists objId).find? fun elt => regionListCmp elt.region r = 0 := by
  rw [findRequest, requestsOf]
  cases lists.find? fun list => objId = list.objId with
  | none => rfl
  | some list => rfl

/-- What a check answers about a request, or that there is none. -/
def readiness : Option IoRegion → Int
  | none => -1
  | some elt => elt.isDataReady

/-- The check for reads answers with the readiness and the address of the request for the
region. -/
def ReadCheckRight (isCacheFull : Bool) (lists : List IoList) (objId : UInt64)
    (t : RegionInfoTransfer) : Prop :=
  (readCheck isCacheFull lists objId t).ret = readiness (requestFor lists objId t.info) ∧
    ∀ elt, requestFor lists objId t.info = some elt → elt.isDataReady = 1 →
      (readCheck isCacheFull lists objId t).shmAddr = some elt.shmAddr

/-- The check for writes answers with its readiness. -/
def WriteCheckRight (lists : List IoList) (objId : UInt64) (t : RegionInfoTransfer) : Prop :=
  writeCheck lists objId t = readiness (requestFor lists objId t.info)

section Exact

variable {lists : List IoList} {objId : UInt64} {t : RegionInfoTransfer}

section

variable (h₁ : 1 ≤ t.ndim) (h₄ : t.ndim ≤ 4)
include h₁ h₄

theorem readCheck_ret (isCacheFull : Bool) :
    (readCheck isCacheFull lists objId t).ret = readiness (findRequest lists objId t.info) := by
  rw [readCheck, info_regionTransferToList h₁ h₄]
  cases findRequest lists objId t.info with
  | none => rfl
  | some elt =>
    show (if elt.isDataReady = 1 then _ else _ : ReadCheckOut).ret = elt.isDataReady
    split
    · rfl
    · rfl

theorem readCheck_shmAddr (isCacheFull : Bool) (hfind : findRequest lists objId t.info = some elt)
    (hready : elt.isDataReady = 1) :
    (readCheck isCacheFull lists objId t).shmAddr = some elt.shmAddr := by
  rw [readCheck, info_regionTransferToList h₁ h₄, hfind]
  show (if elt.isDataReady = 1 then _ else _ : ReadCheckOut).shmAddr = some elt.shmAddr
  rw [if_pos hready]

theorem writeCheck_eq : writeCheck lists objId t = readiness (findRequest lists objId t.info) := by
  rw [writeCheck, info_regionTransferToList h₁ h₄]
  cases findRequest lists objId t.info with
  | none => rfl
  | some elt => rfl

end

/-- No request in front of the one for the region looks like it. -/
theorem findRequest_eq_requestFor
    (h : ∀ r' ∈ ((requestsOf lists objId).map IoRegion.region).takeWhile fun r' => !decide (r' = r),
      ¬LooksLike r' r) : findRequest lists objId r = requestFor lists objId r := by
  rw [findRequest_eq]
  refine find?_eq_of_takeWhile (fun elt helt => ?_) fun elt helt => ?_
  · rw [of_decide_eq_true helt]
    exact decide_eq_true (regionListCmp_eq_zero_iff.mpr (LooksLike.refl r))
  · rw [takeWhile_map, forall_mem_map] at h
    exact decide_eq_false fun hzero => h elt helt (regionListCmp_eq_zero_iff.mp hzero)

end Exact

/-! ## Requests that differ in their state -/

/-- A request that is ready just if it is for the target. -/
def markedRequest (target : RegionInfo) (r : { r : RegionInfo // 1 ≤ r.ndim ∧ r.ndim ≤ 4 }) :
    IoRegion where
  objId := 0
  region := r.1
  accessType := .read
  isDataReady := if r.1 = target then 1 else 0
  one_le_ndim := r.2.1
  ndim_le_four := r.2.2

def markedLists (target : RegionInfo) (regions : List RegionInfo)
    (h : ∀ r ∈ regions, 1 ≤ r.ndim ∧ r.ndim ≤ 4) : List IoList :=
  [{ objId := 0, total := 1, regions := (regions.attachWith _ h).map (markedRequest target) }]

section Marked

variable (target : RegionInfo) {regions : List RegionInfo}
  (h : ∀ r ∈ regions, 1 ≤ r.ndim ∧ r.ndim ≤ 4)

theorem requestsOf_markedLists : requestsOf (markedLists target regions h) 0 =
    (regions.attachWith _ h).map (markedRequest target) := rfl

theorem regions_markedLists :
    (requestsOf (markedLists target regions h) 0).map IoRegion.region = regions := by
  rw [requestsOf_markedLists, map_map]
  exact attachWith_map_subtype_val h

theorem isDataReady_of_mem_markedLists (helt : elt ∈ requestsOf (markedLists target regions h) 0) :
    elt.isDataReady = if elt.region = target then 1 else 0 := by
  rw [requestsOf_markedLists, mem_map] at helt
  obtain ⟨r, -, rfl⟩ := helt
  rfl

theorem readiness_findRequest_markedLists
    (hr : r ∈ regions.takeWhile fun r' => !decide (r' = target)) (hlook : LooksLike r target) :
    readiness (findRequest (markedLists target regions h) 0 target) = 0 := by
  rw [← regions_markedLists target h, takeWhile_map] at hr
  obtain ⟨elt, helt, rfl⟩ := mem_map.mp hr
  obtain ⟨found, hmem, hfind, hne⟩ := find?_of_mem_takeWhile
    (q := fun elt : IoRegion => decide (regionListCmp elt.region target = 0)) helt
    (decide_eq_true (regionListCmp_eq_zero_iff.mpr hlook))
  rw [findRequest_eq, hfind]
  show found.isDataReady = 0
  rw [isDataReady_of_mem_markedLists target h hmem]
  exact if_neg (of_decide_eq_false hne)

theorem readiness_requestFor_markedLists :
    readiness (requestFor (markedLists target regions h) 0 target) ≠ 0 := by
  rw [requestFor]
  cases hfor : (requestsOf (markedLists target regions h) 0).find? fun elt =>
      elt.region = target with
  | none => exact fun hzero => nomatch hzero
  | some elt =>
    have hregion : elt.region = target :=
      of_decide_eq_true (find?_some (p := fun elt : IoRegion => elt.region = target) hfor)
    show elt.isDataReady ≠ 0
    rw [isDataReady_of_mem_markedLists target h (mem_of_find?_eq_some hfor), if_pos hregion]
    exact Int.one_ne_zero

end Marked

/-! ## The checks -/

/-- Requests with given regions are answered for rightly, whatever their state is. -/
def ReadChecksRight (regions : List RegionInfo) (t : RegionInfoTransfer) : Prop :=
  ∀ isCacheFull lists objId, (requestsOf lists objId).map IoRegion.region = regions →
    ReadCheckRight isCacheFull lists objId t

def WriteChecksRight (regions : List RegionInfo) (t : RegionInfoTransfer) : Prop :=
  ∀ lists objId, (requestsOf lists objId).map IoRegion.region = regions →
    WriteCheckRight lists objId t

/-- None of the regions in front of the target, or none at all when it is not there, looks
like it. -/
def FoundFirst (regions : List RegionInfo) (target : RegionInfo) : Prop :=
  ∀ r ∈ regions.takeWhile fun r => !decide (r = target), ¬LooksLike r target

/-- The checks for a region are right, for requests with these regions, just when none that
looks like it comes before the request for it. -/
theorem checksRight_iff_foundFirst (regions : List RegionInfo)
    (hdims : ∀ r ∈ regions, 1 ≤ r.ndim ∧ r.ndim ≤ 4) (t : RegionInfoTransfer) (h₁ : 1 ≤ t.ndim)
    (h₄ : t.ndim ≤ 4) :
    (ReadChecksRight regions t ↔ FoundFirst regions t.info) ∧
      (WriteChecksRight regions t ↔ FoundFirst regions t.info) := by
  have hregions := regions_markedLists t.info hdims
  refine ⟨⟨fun h r hr hlook => ?_, fun h isCacheFull lists objId hsame => ?_⟩,
    ⟨fun h r hr hlook => ?_, fun h lists objId hsame => ?_⟩⟩
  · -- Only the request for the target is ready, and another one is found.
    have hright := (h false (markedLists t.info regions hdims) 0 hregions).1
    rw [readCheck_ret h₁ h₄, readiness_findRequest_markedLists t.info hdims hr hlook] at hright
    exact readiness_requestFor_markedLists t.info hdims hright.symm
  · subst hsame
    have hfind : findRequest lists objId t.info = requestFor lists objId t.info :=
      findRequest_eq_requestFor h
    refine ⟨by rw [readCheck_ret h₁ h₄, hfind], fun elt helt hready => ?_⟩
    exact readCheck_shmAddr h₁ h₄ isCacheFull (hfind.trans helt) hready
  · have hright : writeCheck _ _ _ = _ := h (markedLists t.info regions hdims) 0 hregions
    rw [writeCheck_eq h₁ h₄, readiness_findRequest_markedLists t.info hdims hr hlook] at hright
    exact readiness_requestFor_markedLists t.info hdims hright.symm
  · subst hsame
    show writeCheck lists objId t = _
    rw [writeCheck_eq h₁ h₄, findRequest_eq_requestFor h]

/-- Two regions that start at different places. -/
theorem checksRight_different_starts :
    ReadChecksRight [(lineTransfer 0 10).info, (lineTransfer 10 10).info] (lineTransfer 10 10) ∧
      WriteChecksRight [(lineTransfer 0 10).info, (lineTransfer 10 10).info]
        (lineTransfer 10 10) := by
  have hdims : ∀ r ∈ [(lineTransfer 0 10).info, (lineTransfer 10 10).info],
      1 ≤ r.ndim ∧ r.ndim ≤ 4 := by
    decide
  have hiff := checksRight_iff_foundFirst [(lineTransfer 0 10).info, (lineTransfer 10 10).info]
    hdims (lineTransfer 10 10) (one_le_ndim_lineTransfer 10 10) (ndim_lineTransfer_le_four 10 10)
  have hfirst : FoundFirst [(lineTransfer 0 10).info, (lineTransfer 10 10).info]
      (lineTransfer 10 10).info := by
    intro r hr hlook
    obtain rfl : r = (lineTransfer 0 10).info := List.mem_singleton.mp hr
    exact absurd (regionListCmp_eq_zero_iff.mpr hlook) (by decide)
  exact ⟨hiff.1.mpr hfirst, hiff.2.mpr hfirst⟩

def lineRequest (start count : UInt64) (shmAddr : Option Nat) (isDataReady : Int) : IoRegion where
  objId := 7
  region := (lineTransfer start count).info
  accessType := .read
  shmAddr := shmAddr
  isDataReady := isDataReady
  one_le_ndim := one_le_ndim_lineTransfer start count
  ndim_le_four := ndim_lineTransfer_le_four start count

/-- A read of ten bytes is ready, one of twenty bytes from the same start is not. The check
for the latter answers that it is, with the address of the former. -/
theorem not_readCheckRight_same_start :
    ¬ReadCheckRight false [{ objId := 7, total := 1, regions := [lineRequest 0 10 (some 1) 1,
        lineRequest 0 20 none 0] }]
      7 (lineTransfer 0 20) := by
  intro h
  exact absurd h.1 (by decide)

end Pdc
