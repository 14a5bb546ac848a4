import Pdc.Proofs.QuerySkip
import Mathlib.Data.List.Flatten

/-!
# Queries with a region constraint

The constraint is a start and a count of elements. The server turns both into
bytes, which may overflow, and then looks at an element twice: whether its
region overlaps the constraint, and whether it lies in it itself. The first
test takes the last byte of the constraint for its end. The second takes the
byte behind it, so it also lets through the element after the last one.

What comes of it depends on how the regions are cut. If a region starts with
the element after the constraint, the first test has left it out. If the
region starts before that element, the element is selected.
-/

namespace Pdc

open Lib List Option UInt64

/-- A query of one comparison selects the elements inside the region
constraint that satisfy it, each once. -/
def BoundsSelect (e : QueryEnv) (b : RegionBounds) (c : Constraint) (n : Nat) (data : Nat → Int)
    (regions : UInt64 → List QueryRegion) : Prop :=
  ∀ loaded, ∃ task, doQuerySkip { e with bounds := some b } false regions loaded
      (.new (.leaf c) .sel) = some task ∧ task.coords.Nodup ∧
    ∀ x, x ∈ task.coords ↔ x < n ∧ (b.start.toNat ≤ x ∧ x < b.start.toNat + b.count.toNat) ∧
      c.holds (data x) = true

/-- The first byte of the constraint, as it is computed. -/
def RegionBounds.firstByte (unit : Nat) (b : RegionBounds) : Nat := b.start.toNat * unit % 2 ^ 64

def RegionBounds.endByte (unit : Nat) (b : RegionBounds) : Nat :=
  (b.start.toNat + b.count.toNat) * unit % 2 ^ 64

/-- An element that starts where the constraint ends is let through, unless it
is the first of a region that does not start at zero. -/
def LetThrough (unit : Nat) (regions : List QueryRegion) (x : Nat) : Prop :=
  x = 0 ∨ ¬ ∃ r ∈ regions, r.start = x * unit ∧ r.Has unit x

/-- If the constraint ends inside the 64 bits, the element after it must not be
let through as a match. If it does not, what it wraps around to must have the
same matches as the elements from its start on. And nothing inside may match
if the type is one that is not evaluated. -/
structure BoundsExact (b : RegionBounds) (c : Constraint) (n : Nat) (data : Nat → Int)
    (regions : List QueryRegion) : Prop where
  evaluated : c.type.hasRanges = false → ∀ x < n, b.start.toNat ≤ x →
    x < b.start.toNat + b.count.toNat → c.holds (data x) = false
  inside : c.type.hasRanges = true →
    (b.start.toNat + b.count.toNat) * getVarTypeSize c.type < 2 ^ 64 →
    b.start.toNat + b.count.toNat < n → c.holds (data (b.start.toNat + b.count.toNat)) = true →
    ¬ LetThrough (getVarTypeSize c.type) regions (b.start.toNat + b.count.toNat)
  wrapped : c.type.hasRanges = true →
    2 ^ 64 ≤ (b.start.toNat + b.count.toNat) * getVarTypeSize c.type →
    ∀ x < n, c.holds (data x) = true →
      (b.start.toNat ≤ x ↔ b.firstByte (getVarTypeSize c.type) ≤ x * getVarTypeSize c.type ∧
        (x * getVarTypeSize c.type < b.endByte (getVarTypeSize c.type) ∨
          (x * getVarTypeSize c.type = b.endByte (getVarTypeSize c.type) ∧
            LetThrough (getVarTypeSize c.type) regions x)))

/-! ## The two tests -/

section

variable {unit n off len x i : Nat} {data : Nat → Int} {regions : List QueryRegion}
  {r : QueryRegion} {b : RegionBounds}

theorem toBytes_start (hunit : unit < 2 ^ 64) :
    (b.toBytes unit).start.toNat = b.firstByte unit := by
  rw [RegionBounds.toBytes, UInt64.toNat_mul, UInt64.toNat_ofNat_of_lt' hunit,
    RegionBounds.firstByte]

theorem toBytes_end (hunit : unit < 2 ^ 64) :
    ((b.toBytes unit).start + (b.toBytes unit).count).toNat = b.endByte unit := by
  rw [UInt64.toNat_add, toBytes_start hunit, RegionBounds.toBytes, UInt64.toNat_mul,
    UInt64.toNat_ofNat_of_lt' hunit, RegionBounds.firstByte, RegionBounds.endByte, Nat.add_mul,
    ← Nat.add_mod]

theorem QueryRegion.Holds.idx_of_has (h : r.Holds unit data off len) (hunit : 0 < unit)
    (hx : r.Has unit x) : ∃ i < len, x = off + i := by
  have hbounds := (h.has_iff hunit).mp hx
  exact ⟨x - off, by omega, by omega⟩

theorem isIdxWithinRegion_iff (h : r.Holds unit data off len) (hi : i < len)
    (hfits : (off + len) * unit < 2 ^ 64) :
    isIdxWithinRegion unit r (b.toBytes unit) i = true ↔
      b.firstByte unit ≤ (off + i) * unit ∧ (off + i) * unit ≤ b.endByte unit := by
  have hunit' : unit < 2 ^ 64 := by
    have : 1 * unit ≤ (off + len) * unit := Nat.mul_le_mul_right unit (by omega)
    omega
  have hlt : (off + i) * unit < 2 ^ 64 :=
    Nat.lt_of_le_of_lt (Nat.mul_le_mul_right unit (by omega)) hfits
  have hcoord : (ofNat i * ofNat unit + ofNat r.start).toNat =
      (off + i) * unit := by
    rw [h.start, ← ofNat_mul, ← ofNat_add, ← Nat.add_mul, Nat.add_comm i off,
      toNat_ofNat_of_lt' hlt]
  simp only [isIdxWithinRegion, Bool.not_eq_true', Bool.or_eq_false_iff, decide_eq_false_iff_not,
    lt_iff_toNat_lt, Nat.not_lt, hcoord, toBytes_start hunit', toBytes_end hunit']

theorem toNat_sub_one (a : UInt64) : (a - 1).toNat = if a.toNat = 0 then 2 ^ 64 - 1
    else a.toNat - 1 := by
  have hlt := a.toNat_lt
  rw [UInt64.toNat_sub, UInt64.toNat_one]
  split <;> omega

theorem isContiguousRegionOverlap_iff (hunit : unit < 2 ^ 64) (hcount : 0 < r.count)
    (hfits : r.start + r.count < 2 ^ 64) :
    isContiguousRegionOverlap r (b.toBytes unit) = true ↔
      b.firstByte unit < r.start + r.count ∧ (b.endByte unit = 0 ∨ r.start < b.endByte unit) := by
  have hend : (ofNat r.start + ofNat r.count - 1).toNat = r.start + r.count - 1 := by
    rw [← ofNat_add, toNat_sub_one, toNat_ofNat_of_lt' hfits, if_neg (by omega)]
  have hstart : (ofNat r.start).toNat = r.start :=
    toNat_ofNat_of_lt' (Nat.lt_of_le_of_lt (Nat.le_add_right _ _) hfits)
  simp only [isContiguousRegionOverlap, isOverlap1D, Bool.and_eq_true, decide_eq_true_eq,
    le_iff_toNat_le, hend, hstart, toBytes_start hunit]
  rw [toNat_sub_one, toBytes_end hunit]
  split <;> omega

/-- An element passes both tests if it lies in the constraint, or starts where
the constraint ends and is let through. -/
theorem Stores.passes_iff (h : Stores unit n data regions) (hunit : 0 < unit) (hr : r ∈ regions)
    (hold : r.Holds unit data off len) (hi : i < len) :
    (overlapsBounds unit (some b) r = true ∧ idxWithinBounds unit (some b) r i = true) ↔
      b.firstByte unit ≤ (off + i) * unit ∧ ((off + i) * unit < b.endByte unit ∨
          ((off + i) * unit = b.endByte unit ∧ LetThrough unit regions (off + i))) := by
  have hhas : r.Has unit (off + i) := (hold.has_iff hunit).mpr (by omega)
  have hlast : off + (len - 1) < n :=
    h.bound r hr _ ((hold.has_iff hunit).mpr (by omega))
  have hfits : (off + len) * unit < 2 ^ 64 :=
    Nat.lt_of_le_of_lt (Nat.mul_le_mul_right unit (by omega)) h.fits
  have hcount : 0 < r.count := by
    rw [hold.count]
    exact Nat.mul_pos (by omega) hunit
  have hunit' : unit < 2 ^ 64 := by
    have : 1 * unit ≤ (off + len) * unit := Nat.mul_le_mul_right unit (by omega)
    omega
  have hsum : r.start + r.count = (off + len) * unit := by
    rw [hold.start, hold.count, Nat.add_mul]
  have hthrough : LetThrough unit regions (off + i) ↔
      (off + i) * unit = 0 ∨ r.start ≠ (off + i) * unit := by
    refine or_congr ?_ ⟨fun hno hstart => hno ⟨r, hr, hstart, hhas⟩, ?_⟩
    · rw [Nat.mul_eq_zero]
      omega
    · rintro hne ⟨r', hr', hstart, hhas'⟩
      exact hne (h.unique hr hr' hhas hhas' ▸ hstart)
  show isContiguousRegionOverlap r (b.toBytes unit) = true ∧
    isIdxWithinRegion unit r (b.toBytes unit) i = true ↔ _
  rw [isContiguousRegionOverlap_iff hunit' hcount (by omega),
    isIdxWithinRegion_iff hold hi hfits, hthrough]
  have hle := hhas.1
  have hlt := hhas.2
  omega

end

/-! ## The selection -/

section

variable {e : QueryEnv} {b : RegionBounds} {c : Constraint} {n unit : Nat} {data : Nat → Int}
  {regions : UInt64 → List QueryRegion} {hit : Nat → Prop}

/-- The coordinates that are selected, for a comparison the macros have. -/
def boundedScan (e : QueryEnv) (b : RegionBounds) (p : Int → Bool) (unit : Nat)
    (rs : List QueryRegion) : List Nat :=
  (rs.filter fun r => overlapsBounds unit (some b) r && r.isDataReady).flatMap
    (scanRegionWithin e.stray p unit (some b))

section

variable {unit : Nat} {rs : List QueryRegion} {p : Int → Bool} (h : Stores unit n data rs)
  (hunit : 0 < unit)
include h hunit

theorem Stores.mem_boundedScan {x : Nat} :
    x ∈ boundedScan e b p unit rs ↔ x < n ∧ p (data x) = true ∧ b.firstByte unit ≤ x * unit ∧
      (x * unit < b.endByte unit ∨ (x * unit = b.endByte unit ∧ LetThrough unit rs x)) := by
  rw [boundedScan, mem_flatMap]
  constructor
  · rintro ⟨r, hr, hx⟩
    obtain ⟨hmem, hlook⟩ := mem_filter.mp hr
    obtain ⟨hover, -⟩ := Bool.and_eq_true _ _ ▸ hlook
    obtain ⟨i, hi, rfl⟩ := mem_map.mp hx
    obtain ⟨hrange, hpass⟩ := mem_filter.mp hi
    obtain ⟨hin, hp⟩ := Bool.and_eq_true _ _ ▸ hpass
    obtain ⟨off, len, hold⟩ := h.run r hmem
    have hlen : i < len := by
      rwa [mem_range, hold.count, Nat.mul_div_cancel _ hunit] at hrange
    rw [hold.edata_eq e.stray hlen] at hp
    rw [hold.start, Nat.mul_div_cancel _ hunit, Nat.add_comm i off]
    exact ⟨h.bound r hmem _ ((hold.has_iff hunit).mpr (by omega)), hp,
      (h.passes_iff hunit hmem hold hlen).mp ⟨hover, hin⟩⟩
  · rintro ⟨hn, hp, hpass⟩
    obtain ⟨r, hr, hhas⟩ := h.cover x hn
    obtain ⟨off, len, hold⟩ := h.run r hr
    obtain ⟨i, hi, rfl⟩ := hold.idx_of_has hunit hhas
    obtain ⟨hover, hin⟩ := (h.passes_iff hunit hr hold hi).mpr hpass
    refine ⟨r, mem_filter.mpr ⟨hr, ?_⟩, mem_map.mpr ⟨i, mem_filter.mpr ⟨?_, ?_⟩, ?_⟩⟩
    · rw [hover, h.isDataReady hunit hr hhas, Bool.and_self]
    · rw [mem_range, hold.count, Nat.mul_div_cancel _ hunit]
      exact hi
    · rw [hin, hold.edata_eq e.stray hi, hp, Bool.and_self]
    · rw [hold.start, Nat.mul_div_cancel _ hunit, Nat.add_comm]

theorem Stores.nodup_boundedScan : (boundedScan e b p unit rs).Nodup := by
  have hall : (rs.flatMap (QueryRegion.coords unit)).Nodup :=
    (h.coords_perm hunit).nodup_iff.mpr nodup_range
  refine hall.sublist ((List.Sublist.flatMap_right _ fun r _ => ?_).trans
    (List.Sublist.flatMap filter_sublist _))
  exact filter_sublist.map _

end

theorem queryCreate_eq_leaf {objId : UInt64} {op : QueryOp} {ty : CVarType} {value : Bytes}
    (h : queryCreate objId op ty value = some (.leaf c)) :
    c.type = ty ∧ c.op ≠ .none ∧ c.isRange = false := by
  unfold queryCreate at h
  split at h
  · cases h
  · next hargs =>
    cases h
    exact ⟨rfl, (not_or.mp hargs).2, rfl⟩

theorem coords_doQuerySkip_leaf (regions : UInt64 → List QueryRegion)
    (loaded : List (UInt64 × Nat)) :
    (doQuerySkip e false regions loaded (.new (.leaf c) .sel)).map QueryTask.coords =
      (queryEvaluateSkip e false regions c none .none (.start loaded)).map SkipState.coords := by
  show Option.map _ (Option.map _
    (visitLeaves e false regions (.start loaded) [⟨c, none, .none⟩])) = _
  rw [visitLeaves, foldlM_cons]
  cases queryEvaluateSkip e false regions c none .none (.start loaded) with
  | none => rfl
  | some s => rfl

theorem boundsSelect_iff_mem {l : List Nat} (hnodup : l.Nodup)
    (hl : ∀ loaded, (doQuerySkip { e with bounds := some b } false regions loaded
      (.new (.leaf c) .sel)).map QueryTask.coords = some l) :
    BoundsSelect e b c n data regions ↔ ∀ x, x ∈ l ↔
      x < n ∧ (b.start.toNat ≤ x ∧ x < b.start.toNat + b.count.toNat) ∧
        c.holds (data x) = true := by
  constructor
  · intro h
    obtain ⟨task, htask, -, hmem⟩ := h []
    obtain ⟨task', htask', rfl⟩ := map_eq_some_iff.mp (hl [])
    rw [htask, some.injEq] at htask'
    rw [← htask']
    exact hmem
  · intro h loaded
    obtain ⟨task, htask, rfl⟩ := map_eq_some_iff.mp (hl loaded)
    exact ⟨task, htask, hnodup, h⟩

theorem firstByte_of_lt (h : (b.start.toNat + b.count.toNat) * unit < 2 ^ 64) :
    b.firstByte unit = b.start.toNat * unit ∧
      b.endByte unit = (b.start.toNat + b.count.toNat) * unit := by
  have hle : b.start.toNat * unit ≤ (b.start.toNat + b.count.toNat) * unit :=
    Nat.mul_le_mul_right unit (Nat.le_add_right _ _)
  exact ⟨Nat.mod_eq_of_lt (Nat.lt_of_le_of_lt hle h), Nat.mod_eq_of_lt h⟩

theorem selects_iff_of_lt {rs : List QueryRegion} (hunit : 0 < unit)
    (hlt : (b.start.toNat + b.count.toNat) * unit < 2 ^ 64) :
    (∀ x, (x < n ∧ hit x ∧ b.firstByte unit ≤ x * unit ∧ (x * unit < b.endByte unit ∨
        (x * unit = b.endByte unit ∧ LetThrough unit rs x))) ↔
      x < n ∧ (b.start.toNat ≤ x ∧ x < b.start.toNat + b.count.toNat) ∧ hit x) ↔
    (b.start.toNat + b.count.toNat < n → hit (b.start.toNat + b.count.toNat) →
      ¬ LetThrough unit rs (b.start.toNat + b.count.toNat)) := by
  obtain ⟨hfirst, hend⟩ := firstByte_of_lt hlt
  simp only [hfirst, hend, Nat.mul_le_mul_right_iff hunit, Nat.mul_lt_mul_right hunit,
    Nat.mul_left_inj hunit.ne']
  constructor
  · intro h hn hhit hthrough
    have hsel := (h _).mp ⟨hn, hhit, Nat.le_add_right _ _, Or.inr ⟨rfl, hthrough⟩⟩
    exact Nat.lt_irrefl _ hsel.2.1.2
  · refine fun h x => ⟨?_, fun hx => ⟨hx.1, hx.2.2, hx.2.1.1, Or.inl hx.2.1.2⟩⟩
    rintro ⟨hn, hhit, hlo, hhi | ⟨rfl, hthrough⟩⟩
    · exact ⟨hn, ⟨hlo, hhi⟩, hhit⟩
    · exact absurd hthrough (h hn hhit)

theorem selects_iff_of_le {P : Nat → Prop} (hle : n ≤ b.start.toNat + b.count.toNat) :
    (∀ x, (x < n ∧ hit x ∧ P x) ↔
      x < n ∧ (b.start.toNat ≤ x ∧ x < b.start.toNat + b.count.toNat) ∧ hit x) ↔
    ∀ x < n, hit x → (b.start.toNat ≤ x ↔ P x) := by
  constructor
  · intro h x hn hhit
    refine ⟨fun hlo => ((h x).mpr ⟨hn, ⟨hlo, by omega⟩, hhit⟩).2.2, fun hP => ?_⟩
    exact ((h x).mp ⟨hn, hhit, hP⟩).2.1.1
  · intro h x
    constructor
    · rintro ⟨hn, hhit, hP⟩
      exact ⟨hn, ⟨(h x hn hhit).mpr hP, by omega⟩, hhit⟩
    · rintro ⟨hn, ⟨hlo, -⟩, hhit⟩
      exact ⟨hn, hhit, (h x hn hhit).mp hlo⟩

/-- A query with a region constraint selects what it should just if no element
is let through at the end of the constraint, or after it has wrapped around. -/
theorem boundsSelect_iff {objId : UInt64} {op : QueryOp} {ty : CVarType} {value : Bytes}
    (hc : queryCreate objId op ty value = some (.leaf c)) (hty : ty.IsInteger)
    (hstores : Stores (getVarTypeSize ty) n data (regions c.objId)) (e : QueryEnv)
    (b : RegionBounds) :
    BoundsSelect e b c n data regions ↔ BoundsExact b c n data (regions c.objId) := by
  obtain ⟨rfl, hop, hrange⟩ := queryCreate_eq_leaf hc
  have hunit : 0 < getVarTypeSize c.type := hty.2.2
  have hleaf := coords_doQuerySkip_leaf (e := { e with bounds := some b }) (c := c) regions
  cases hev' : c.type.hasRanges with
  | false =>
    rw [boundsSelect_iff_mem List.nodup_nil fun loaded => (hleaf loaded).trans
      (queryEvaluateSkip_of_not_hasRanges hrange regions loaded hev')]
    refine ⟨fun h => ⟨fun _ x hx hlo hhi => ?_, ?_, ?_⟩, fun h x => ?_⟩
    · by_contra hmatch
      exact List.not_mem_nil ((h x).mpr ⟨hx, ⟨hlo, hhi⟩, Bool.eq_true_of_not_eq_false hmatch⟩)
    · exact fun hno => by rw [hev'] at hno; cases hno
    · exact fun hno => by rw [hev'] at hno; cases hno
    · refine ⟨fun hx => absurd hx List.not_mem_nil, ?_⟩
      rintro ⟨hx, ⟨hlo, hhi⟩, hmatch⟩
      rw [h.evaluated hev' x hx hlo hhi] at hmatch
      cases hmatch
  | true =>
    have htest : c.test e.machine = some c.holds := test_of_hasRanges hty hop hrange hev'
    rw [boundsSelect_iff_mem (hstores.nodup_boundedScan (e := e) (b := b) hunit) fun loaded =>
      (hleaf loaded).trans (queryEvaluateSkip_of_test hrange regions loaded htest hev')]
    simp only [hstores.mem_boundedScan hunit]
    have hknown : ¬ c.type.hasRanges = false := by
      rw [hev']
      exact fun h => Bool.false_ne_true h.symm
    by_cases hlt : (b.start.toNat + b.count.toNat) * getVarTypeSize c.type < 2 ^ 64
    · rw [selects_iff_of_lt hunit hlt]
      exact ⟨fun h => ⟨fun hno => absurd hno hknown, fun _ _ => h,
        fun _ hge => absurd hlt (Nat.not_lt.mpr hge)⟩, fun h => h.inside hev' hlt⟩
    · have hge := Nat.not_lt.mp hlt
      have hle : n ≤ b.start.toNat + b.count.toNat :=
        (Nat.lt_of_mul_lt_mul_right (Nat.lt_of_lt_of_le hstores.fits hge)).le
      rw [selects_iff_of_le hle]
      exact ⟨fun h => ⟨fun hno => absurd hno hknown, fun _ hlt' => absurd hlt' hlt,
        fun _ _ => h⟩, fun h => h.wrapped hev' hge⟩

end

def zeroEnv : QueryEnv :=
  ⟨⟨fun _ _ => 0, fun _ _ _ => false, fun _ _ => false⟩, fun _ _ => 0, fun _ _ => true, none⟩

/-- The elements 7, 8 and 3 in two regions, with a constraint to the first: the
second, which matches, is the first of its region. -/
theorem boundsSelect_two_regions :
    BoundsSelect zeroEnv ⟨0, 1⟩ ⟨1, .gt, .int, 5, false, .none, 0⟩ 3 (fun x => [7, 8, 3].getD x 0)
      fun _ => [⟨0, 4, 4, true, [7]⟩, ⟨4, 8, 8, true, [8, 3]⟩] := by
  have hcreate : queryCreate 1 .gt .int [5, 0, 0, 0] =
      some (.leaf ⟨1, .gt, .int, 5, false, .none, 0⟩) := rfl
  refine (boundsSelect_iff hcreate (by decide) oneSided_two_regions.stores zeroEnv ⟨0, 1⟩).mpr
    ⟨nofun, fun _ _ _ _ hthrough => ?_, fun _ hge => absurd hge (by decide)⟩
  rcases hthrough with hzero | hnot
  · exact absurd hzero (by decide)
  · exact hnot ⟨⟨4, 8, 8, true, [8, 3]⟩, by decide, by decide, by decide⟩

/-- The elements 1, 8 and 9 in one region, with a constraint to the second: the
third is selected too. -/
theorem boundsSelect_one_too_many :
    Stores 4 3 (fun x => [1, 8, 9].getD x 0) [⟨0, 12, 12, true, [1, 8, 9]⟩] ∧
    queryCreate 1 .gt .int [5, 0, 0, 0] = some (.leaf ⟨1, .gt, .int, 5, false, .none, 0⟩) ∧
    ¬ BoundsSelect zeroEnv ⟨1, 1⟩ ⟨1, .gt, .int, 5, false, .none, 0⟩ 3
      (fun x => [1, 8, 9].getD x 0) fun _ => [⟨0, 12, 12, true, [1, 8, 9]⟩] := by
  refine ⟨.concat .nil 3 ⟨rfl, rfl, rfl, fun _ => rfl, rfl⟩ (by decide) (by decide), rfl,
    fun h => ?_⟩
  obtain ⟨task, htask, -, hmem⟩ := h []
  have hcoords : some task.coords = some [1, 2] := by
    rw [← Option.map_some, ← htask]
    decide +kernel
  have hselected : 2 ∈ task.coords := by
    rw [Option.some.inj hcoords]
    decide
  exact absurd ((hmem 2).mp hselected).2.1.2 (by decide)

end Pdc
