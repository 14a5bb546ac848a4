import Pdc.Proofs.QueryAnd
import Pdc.Proofs.QueryStored

/-!
# Range queries on integers

A bound is copied into its constraint as bytes. A leaf with one bound reads an
integer back out of those bytes, but `PDCquery_and` and the evaluation of a
range convert the `double` that the bytes spell. So a range is evaluated with
other bounds than it was made with, and it selects the right elements just if
no element of the array lies between the one pair of bounds and not between
the other.

The bytes of a four-byte integer spell a subnormal number, which is converted
to zero. Every range of such a type is the range from zero to zero.
-/

namespace Pdc

open Lib

variable {ty : CVarType}

/-- The bytes a caller of `PDCquery_create` points to. -/
def valueBytes (ty : CVarType) (a : Int) : Bytes :=
  leBytes (getVarTypeSize ty) (a % 2 ^ (8 * getVarTypeSize ty)).toNat

/-- A bound's bits in the constraint that is made for it. -/
def valueBits (ty : CVarType) (a : Int) : UInt64 := UInt64.ofNat (leNat (valueBytes ty a))

/-- What the server and `PDCquery_and` take a bound of a range for. -/
def spelled (m : Machine) (ty : CVarType) (a : Int) : Int := castDouble m ty (valueBits ty a)

/-- An element satisfies both comparisons. -/
def between (lop rop : QueryOp) (a b x : Int) : Bool := lop.compare x a && rop.compare x b

/-- If `PDCquery_and` makes a range of two comparisons, in either order, then
it selects the elements that satisfy both. -/
def RangeSelects (m : Machine) (objId : UInt64) (ty : CVarType) (lop rop : QueryOp) (a b : Int)
    (n : Nat) (data : Nat → Int) (regions : List QueryRegion) : Prop :=
  ∀ q₁ q₂ c, queryCreate objId lop ty (valueBytes ty a) = some q₁ →
    queryCreate objId rop ty (valueBytes ty b) = some q₂ →
    queryAnd m q₁ q₂ = some (.leaf c) ∨ queryAnd m q₂ q₁ = some (.leaf c) →
    ∀ stray : QueryRegion → Nat → Int,
      ∃ s, queryEvaluateMergeOpt m stray regions c none .none ⟨0, []⟩ = some s ∧ s.coords.Nodup ∧
        ∀ x, x ∈ s.coords ↔ x < n ∧ between lop rop a b (data x) = true

/-- A range is made of the bounds as they are spelled, and no element of the
array is between the bounds as they are and not between those, or the other
way round. -/
def SpelledAlike (m : Machine) (ty : CVarType) (lop rop : QueryOp) (a b : Int) (n : Nat)
    (data : Nat → Int) : Prop :=
  spelled m ty a ≤ spelled m ty b → ∀ x < n, between lop rop a b (data x) =
      between lop rop (spelled m ty a) (spelled m ty b) (data x)

/-- The four types of the integer ranges. -/
def CVarType.IsRangeInteger (ty : CVarType) : Prop :=
  ty = .int ∨ ty = .uint ∨ ty = .int64 ∨ ty = .uint64

/-! ## Four-byte integers -/

/-- The bytes of a four-byte integer, as a `double`, are converted to zero. -/
theorem spelled_of_four_bytes (m : Machine) (hty : getVarTypeSize ty = 4)
    (a : Int) : spelled m ty a = 0 := by
  have hlt : (valueBits ty a).toNat < 2 ^ 52 := by
    have hnat : leNat (valueBytes ty a) < 256 ^ 4 := by
      rw [valueBytes, leNat_leBytes, hty]
      exact Nat.mod_lt _ (by decide)
    exact lt_of_le_of_lt (Nat.mod_le _ _) (lt_trans hnat (by decide))
  have hzero : ty.InRange 0 := by
    unfold CVarType.InRange CVarType.min CVarType.max
    rw [hty]
    cases ty.signed <;> decide
  rw [spelled, castDouble, truncBinary64_of_lt hlt]
  exact if_pos hzero

theorem spelledAlike_of_four_bytes (m : Machine) (hty : getVarTypeSize ty = 4)
    {lop rop : QueryOp} {a b : Int} {n : Nat} {data : Nat → Int} :
    SpelledAlike m ty lop rop a b n data ↔
      ∀ x < n, between lop rop a b (data x) = between lop rop 0 0 (data x) := by
  unfold SpelledAlike
  rw [spelled_of_four_bytes m hty a, spelled_of_four_bytes m hty b]
  exact ⟨fun h => h (le_refl 0), fun h _ => h⟩

section

variable {m : Machine} {objId : UInt64} {ty : CVarType} {op lop rop : QueryOp} {a b : Int} {n : Nat}
  {data : Nat → Int} {regions : List QueryRegion}

/-! ## Making the range -/

/-- The leaf that `PDCquery_create` makes of a comparison. -/
def comparison (objId : UInt64) (op : QueryOp) (ty : CVarType) (a : Int) : Constraint :=
  { objId := objId, op := op, type := ty, value := valueBits ty a
    isRange := false, op2 := .none, value2 := 0 }

theorem queryCreate_eq (hobj : objId ≠ 0) (hop : op ≠ .none) :
    queryCreate objId op ty (valueBytes ty a) = some (.leaf (comparison objId op ty a)) := by
  have htake : (valueBytes ty a).take (getVarTypeSize ty) = valueBytes ty a :=
    List.take_of_length_le (length_leBytes _ _).le
  rw [queryCreate, if_neg (by rintro (h | h); exacts [hobj h, hop h]), htake]
  rfl

/-- The range that `PDCquery_and` makes of two comparisons. -/
def rangeOf (objId : UInt64) (lop rop : QueryOp) (ty : CVarType) (a b : Int) : Constraint :=
  { comparison objId lop ty a with isRange := true, op2 := rop, value2 := valueBits ty b }

theorem combineConstraints_comparison (hty : ty.IsRangeInteger) (hlop : lop.isLower = true)
    (hrop : rop.isUpper = true) :
    combineConstraints m (comparison objId lop ty a) (comparison objId rop ty b) =
      if spelled m ty a ≤ spelled m ty b then some (.leaf (rangeOf objId lop rop ty a b))
      else some (.node .and (.leaf (comparison objId lop ty a))
        (.leaf (comparison objId rop ty b))) := by
  have horder : boundsInOrder m (comparison objId lop ty a).type
      (comparison objId lop ty a).value (comparison objId rop ty b).value =
        some (decide (spelled m ty a ≤ spelled m ty b)) := by
    rcases hty with rfl | rfl | rfl | rfl <;> rfl
  have hbounds : ((comparison objId lop ty a).op.isLower &&
      (comparison objId rop ty b).op.isUpper) = true := by
    show (lop.isLower && rop.isUpper) = true
    rw [hlop, hrop]
    rfl
  rw [combineConstraints, if_pos hbounds, horder]
  by_cases hle : spelled m ty a ≤ spelled m ty b
  · rw [if_pos hle, decide_eq_true hle]
    rfl
  · rw [if_neg hle, decide_eq_false hle]

theorem queryAnd_comparison (hty : ty.IsRangeInteger) (hlop : lop.isLower = true)
    (hrop : rop.isUpper = true) {c : Constraint} :
    (queryAnd m (.leaf (comparison objId lop ty a)) (.leaf (comparison objId rop ty b)) =
        some (.leaf c) ∨
      queryAnd m (.leaf (comparison objId rop ty b)) (.leaf (comparison objId lop ty a)) =
        some (.leaf c)) ↔
      spelled m ty a ≤ spelled m ty b ∧ rangeOf objId lop rop ty a b = c := by
  have hfirst : queryAnd m (.leaf (comparison objId lop ty a)) (.leaf (comparison objId rop ty b)) =
      combineConstraints m (comparison objId lop ty a) (comparison objId rop ty b) := by
    rw [queryAnd, if_pos ⟨rfl, rfl⟩, if_neg]
    show ¬ (rop.isLower && lop.isUpper) = true
    rw [isLower_eq_false_of_isUpper hrop]
    exact Bool.false_ne_true
  have hsecond : queryAnd m (.leaf (comparison objId rop ty b))
      (.leaf (comparison objId lop ty a)) =
        combineConstraints m (comparison objId lop ty a) (comparison objId rop ty b) := by
    rw [queryAnd, if_pos ⟨rfl, rfl⟩, if_pos]
    show (lop.isLower && rop.isUpper) = true
    rw [hlop, hrop]
    rfl
  rw [hfirst, hsecond, or_self, combineConstraints_comparison hty hlop hrop]
  by_cases hle : spelled m ty a ≤ spelled m ty b
  · rw [if_pos hle, Option.some_inj, QueryTree.leaf.injEq]
    exact ⟨fun h => ⟨hle, h⟩, And.right⟩
  · rw [if_neg hle]
    exact iff_of_false (by simp) fun h => hle h.1

/-! ## Evaluating it -/

theorem test_rangeOf (hty : ty.IsRangeInteger) (hlop : lop.isLower = true)
    (hrop : rop.isUpper = true) :
    (rangeOf objId lop rop ty a b).test m =
      some (between lop rop (spelled m ty a) (spelled m ty b)) := by
  have hbounds : (lop.isLower && rop.isUpper) = true := by
    rw [hlop, hrop]
    rfl
  rcases hty with rfl | rfl | rfl | rfl <;> exact if_pos hbounds

theorem unit_pos_of_isRangeInteger (hty : ty.IsRangeInteger) : 0 < getVarTypeSize ty := by
  rcases hty with rfl | rfl | rfl | rfl <;> decide

theorem evaluate_range (m : Machine) (objId : UInt64) (a b : Int)
    (stray : QueryRegion → Nat → Int) (hty : ty.IsRangeInteger) (hlop : lop.isLower = true)
    (hrop : rop.isUpper = true) (hstores : Stores (getVarTypeSize ty) n data regions) :
    ∃ s, queryEvaluateMergeOpt m stray regions (rangeOf objId lop rop ty a b) none .none ⟨0, []⟩ =
        some s ∧ s.coords.Nodup ∧
      ∀ x, x ∈ s.coords ↔
        x < n ∧ between lop rop (spelled m ty a) (spelled m ty b) (data x) = true := by
  have hunit := unit_pos_of_isRangeInteger hty
  by_cases hne : regions = []
  · subst hne
    refine ⟨⟨0, []⟩, rfl, List.nodup_nil, fun x => ⟨fun hx => (nomatch hx), fun hx => ?_⟩⟩
    obtain ⟨r, hr, _⟩ := hstores.cover x hx.1
    cases hr
  · let p := between lop rop (spelled m ty a) (spelled m ty b)
    refine ⟨⟨n, matching (getVarTypeSize ty) data regions p⟩, ?_, hstores.nodup_matching hunit,
      fun x => hstores.mem_matching hunit⟩
    have hscan : (regions.filter (·.isDataReady)).foldlM (queryEvaluateScanOpt stray
        ((rangeOf objId lop rop ty a b).test m) (getVarTypeSize ty) .none) [] =
          some (matching (getVarTypeSize ty) data regions p) := by
      rw [test_rangeOf hty hlop hrop]
      exact hstores.scan_eq hunit (show CombineOp.none ≠ .and from nofun) []
    have hknown : ty.hasRanges = true := by
      rcases hty with rfl | rfl | rfl | rfl <;> rfl
    have hdone : ¬ ((([] : List Nat).length = n ∧ CombineOp.none = .or) ∨
        (([] : List Nat).length = 0 ∧ CombineOp.none = .and)) := by
      rintro (⟨_, hop⟩ | ⟨_, hop⟩) <;> cases hop
    rw [hstores.evaluate_of_scan hunit
      (Or.inl rfl) hne hdone (fun _ => hknown) hscan, if_neg fun hand => nomatch hand.2]
    rfl

/-- A range selects the right elements just if none of them lies between the
bounds and not between what their bytes spell as doubles, or the other way. -/
theorem rangeSelects_iff (hobj : objId ≠ 0) (hty : ty.IsRangeInteger) (hlop : lop.isLower = true)
    (hrop : rop.isUpper = true) (hstores : Stores (getVarTypeSize ty) n data regions) :
    RangeSelects m objId ty lop rop a b n data regions ↔ SpelledAlike m ty lop rop a b n data := by
  have hlop' : lop ≠ .none := by rintro rfl; cases hlop
  have hrop' : rop ≠ .none := by rintro rfl; cases hrop
  constructor
  · intro hselects hle x hx
    obtain ⟨s, heval, _, hmem⟩ := hselects _ _ _ (queryCreate_eq hobj hlop')
      (queryCreate_eq hobj hrop') ((queryAnd_comparison hty hlop hrop).mpr ⟨hle, rfl⟩)
      (fun _ _ => 0)
    obtain ⟨s', heval', _, hmem'⟩ := evaluate_range m objId a b (fun _ _ => 0) hty hlop hrop hstores
    rw [heval] at heval'
    obtain rfl := Option.some.inj heval'
    have hboth := (hmem x).symm.trans (hmem' x)
    exact Bool.eq_iff_iff.mpr ⟨fun h => (hboth.mp ⟨hx, h⟩).2, fun h => (hboth.mpr ⟨hx, h⟩).2⟩
  · intro halike q₁ q₂ c hq₁ hq₂ hc stray
    rw [queryCreate_eq hobj hlop'] at hq₁
    rw [queryCreate_eq hobj hrop'] at hq₂
    obtain rfl := Option.some.inj hq₁
    obtain rfl := Option.some.inj hq₂
    obtain ⟨hle, rfl⟩ := (queryAnd_comparison hty hlop hrop).mp hc
    obtain ⟨s, heval, hnodup, hmem⟩ := evaluate_range m objId a b stray hty hlop hrop hstores
    refine ⟨s, heval, hnodup, fun x => (hmem x).trans (and_congr_right fun hx => ?_)⟩
    rw [halike hle x hx]

end

/-- The `int`s from 0 to 0, among 0 and 7. -/
theorem rangeSelects_zero :
    RangeSelects ⟨fun _ _ => 0, fun _ _ _ => false, fun _ _ => false⟩ 1 .int .gte .lte 0 0 2
      (fun x => [0, 7].getD x 0) [⟨0, 8, 8, true, [0, 7]⟩] := by
  have hstores : Stores 4 2 (fun x => [0, 7].getD x 0) [⟨0, 8, 8, true, [0, 7]⟩] :=
    .concat .nil 2 ⟨rfl, rfl, rfl, fun _ => rfl, rfl⟩ (by decide) (by decide)
  exact (rangeSelects_iff (by decide) (Or.inl rfl) rfl rfl hstores).mpr
    ((spelledAlike_of_four_bytes _ rfl).mpr fun _ _ => rfl)

/-- An `int` above 5 and below 10 is looked for between 0 and 0: the 7 is not
selected. -/
theorem rangeSelects_misses :
    ¬ RangeSelects ⟨fun _ _ => 0, fun _ _ _ => false, fun _ _ => false⟩ 1 .int .gt .lt 5 10 1
      (fun x => [7].getD x 0) [⟨0, 4, 4, true, [7]⟩] := by
  intro hselects
  obtain ⟨s, heval, _, hmem⟩ := hselects _ _ _ rfl rfl (Or.inl rfl) fun _ _ => 0
  have hnone : some (⟨1, []⟩ : QueryState) = some s := by
    rw [← heval]
    decide +kernel
  obtain rfl := Option.some.inj hnone
  exact absurd ((hmem 0).mpr ⟨by decide, by decide⟩) List.not_mem_nil

end Pdc
