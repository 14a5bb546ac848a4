import Pdc.Client.Query

/-!
# What `PDCquery_and` denotes

An AND node denotes the intersection by its definition. The other thing
`PDCquery_and` can return is a range, made of a lower and an upper bound on
one object: it takes the second comparison from the upper bound and
overwrites the one the lower bound may have had already. A range that gets
another upper bound keeps the new one only, and the old one is lost unless
the new one implies it.

Which of the two is returned depends on a comparison of the bounds read as
doubles, which has nothing to do with their values; either would denote the
same set if the second comparison were kept.
-/

namespace Pdc

open Lib

theorem denotes_leaf (c : Constraint) (element : UInt64 → Int) :
    (QueryTree.leaf c).denotes element = c.holds (element c.objId) := rfl

theorem denotes_and (q₁ q₂ : Query) (element : UInt64 → Int) :
    (QueryTree.node .and q₁ q₂).denotes element = (q₁.denotes element && q₂.denotes element) := rfl

/-- The call returns a query for the elements both queries were for. -/
def AndDenotes (m : Machine) (q₁ q₂ : Query) : Prop :=
  ∃ q, queryAnd m q₁ q₂ = some q ∧
    ∀ element, q.denotes element = (q₁.denotes element && q₂.denotes element)

/-- What lies between two bounds meets any second bound they have. -/
def SecondBounds (lo hi : Constraint) : Prop :=
  ∀ x, lo.op.compare x (rawValue lo.type lo.value) = true →
    hi.op.compare x (rawValue hi.type hi.value) = true →
    (lo.isRange = true → lo.op2.compare x (rawValue lo.type lo.value2) = true) ∧
      (hi.isRange = true → hi.op2.compare x (rawValue hi.type hi.value2) = true)

/-- The type of two bounds is one `PDCquery_and` handles, and no second bound
is lost if it makes a range of them. -/
def BoundsKept (m : Machine) (lo hi : Constraint) : Prop :=
  boundsInOrder m lo.type lo.value hi.value ≠ none ∧
    (boundsInOrder m lo.type lo.value hi.value = some true → SecondBounds lo hi)

/-- Two constraints on one object meet `BoundsKept`, if they are a lower and
an upper bound. -/
def RangeKept (m : Machine) : Query → Query → Prop
  | .leaf c₁, .leaf c₂ =>
    c₁.objId = c₂.objId → c₁.type = c₂.type →
      (c₁.op.isLower = true → c₂.op.isUpper = true → BoundsKept m c₁ c₂) ∧
        (c₂.op.isLower = true → c₁.op.isUpper = true → BoundsKept m c₂ c₁)
  | _, _ => True

theorem isLower_eq_false_of_isUpper {op : QueryOp} (h : op.isUpper = true) :
    op.isLower = false := by
  cases op <;> first | rfl | cases h

theorem range_holds_iff {lo hi : Constraint} (hty : lo.type = hi.type) (x : Int) :
    ({ lo with isRange := true, op2 := hi.op, value2 := hi.value } : Constraint).holds x =
        (lo.holds x && hi.holds x) ↔
      (lo.op.compare x (rawValue lo.type lo.value) = true →
        hi.op.compare x (rawValue hi.type hi.value) = true →
        (lo.isRange = true → lo.op2.compare x (rawValue lo.type lo.value2) = true) ∧
          (hi.isRange = true → hi.op2.compare x (rawValue hi.type hi.value2) = true)) := by
  simp only [Constraint.holds, hty, Bool.not_true, Bool.false_or]
  -- Six truth values: the four comparisons and the two flags.
  generalize lo.op.compare x _ = a
  generalize hi.op.compare x _ = b
  generalize lo.op2.compare x _ = a'
  generalize hi.op2.compare x _ = b'
  cases a <;> cases b <;> cases lo.isRange <;> cases hi.isRange <;> cases a' <;> cases b' <;>
    decide

theorem range_denotes_iff {lo hi : Constraint} (hobj : lo.objId = hi.objId)
    (hty : lo.type = hi.type) :
    (∀ element,
      (QueryTree.leaf { lo with isRange := true, op2 := hi.op, value2 := hi.value }).denotes
        element = ((QueryTree.leaf lo).denotes element && (QueryTree.leaf hi).denotes element)) ↔
      SecondBounds lo hi := by
  constructor
  · intro h x
    have hx := h fun _ => x
    exact (range_holds_iff hty x).mp hx
  · intro h element
    rw [denotes_leaf, denotes_leaf, denotes_leaf, ← hobj]
    exact (range_holds_iff hty _).mpr (h _)

theorem combineConstraints_denotes_iff {m : Machine} {lo hi : Constraint}
    (hobj : lo.objId = hi.objId) (hty : lo.type = hi.type) :
    (∃ q, combineConstraints m lo hi = some q ∧ ∀ element, q.denotes element =
        ((QueryTree.leaf lo).denotes element && (QueryTree.leaf hi).denotes element)) ↔
      (lo.op.isLower = true → hi.op.isUpper = true → BoundsKept m lo hi) := by
  rw [combineConstraints]
  split
  next hpair =>
    rw [Bool.and_eq_true] at hpair
    simp only [hpair.1, hpair.2, forall_const]
    rw [BoundsKept]
    cases horder : boundsInOrder m lo.type lo.value hi.value with
    | none => simp
    | some ordered =>
      cases ordered with
      | true =>
        simp only [Option.some.injEq, exists_eq_left']
        rw [range_denotes_iff hobj hty]
        simp
      | false =>
        simp only [Option.some.injEq, exists_eq_left', denotes_and]
        simp
  next hpair =>
    refine iff_of_true ⟨_, rfl, fun _ => denotes_and ..⟩ fun hlo hhi => ?_
    rw [hlo, hhi] at hpair
    exact absurd rfl hpair

/-- For every two queries: the call denotes the intersection exactly when no
bound is lost in a range. -/
theorem andDenotes_iff (m : Machine) (q₁ q₂ : Query) : AndDenotes m q₁ q₂ ↔ RangeKept m q₁ q₂ := by
  match q₁, q₂ with
  | .leaf c₁, .leaf c₂ =>
    rw [AndDenotes, queryAnd, RangeKept]
    split
    next hsame =>
      simp only [hsame.1, hsame.2, forall_const]
      split
      next hswap =>
        rw [Bool.and_eq_true] at hswap
        have hfirst : c₁.op.isLower = true → c₂.op.isUpper = true → BoundsKept m c₁ c₂ := by
          intro hlower _
          rw [isLower_eq_false_of_isUpper hswap.2] at hlower
          cases hlower
        have hcomm (element : UInt64 → Int) :=
          Bool.and_comm ((QueryTree.leaf c₁).denotes element) ((QueryTree.leaf c₂).denotes element)
        simp only [hcomm]
        rw [combineConstraints_denotes_iff hsame.1.symm hsame.2.symm]
        exact ⟨fun h => ⟨hfirst, h⟩, And.right⟩
      next hswap =>
        rw [combineConstraints_denotes_iff hsame.1 hsame.2]
        refine ⟨fun h => ⟨h, fun hlower hupper => ?_⟩, And.left⟩
        rw [hlower, hupper] at hswap
        exact absurd rfl hswap
    next hdiff =>
      refine iff_of_true ⟨_, rfl, fun _ => denotes_and ..⟩ fun hobj hty => ?_
      exact absurd ⟨hobj, hty⟩ hdiff
  | .node .., _ => exact iff_of_true ⟨_, rfl, fun _ => denotes_and ..⟩ trivial
  | .leaf _, .node .. => exact iff_of_true ⟨_, rfl, fun _ => denotes_and ..⟩ trivial

/-- The `int`s above 0 and below 5, and then below 10: the result is the
range above 0 and below 10, which has the 7. -/
theorem andDenotes_loses_bound :
    queryAnd ⟨fun _ _ => 0, fun _ _ _ => false, fun _ _ => false⟩
        (.leaf ⟨1, .gt, .int, 0, false, .none, 0⟩) (.leaf ⟨1, .lt, .int, 5, false, .none, 0⟩) =
      some (.leaf ⟨1, .gt, .int, 0, true, .lt, 5⟩) ∧
    ¬ AndDenotes ⟨fun _ _ => 0, fun _ _ _ => false, fun _ _ => false⟩
        (.leaf ⟨1, .gt, .int, 0, true, .lt, 5⟩) (.leaf ⟨1, .lt, .int, 10, false, .none, 0⟩) := by
  refine ⟨rfl, ?_⟩
  rintro ⟨q, hq, h⟩
  obtain rfl : QueryTree.leaf ⟨1, .gt, .int, 0, true, .lt, 10⟩ = q := Option.some.inj hq
  exact absurd (h fun _ => 7) (by decide)

end Pdc
