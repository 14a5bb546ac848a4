import Pdc.Proofs.QueryStored
import Mathlib.Data.List.Perm.Subperm

/-!
# One leaf and the selection before it

A leaf visited with AND should leave the selected coordinates whose element
matches, and one visited with OR should add the coordinates that match, each
once. Neither holds of every selection.

With AND a coordinate is looked up in every region it seems to be in. A region
that starts at zero judges all its coordinates by its first element, and a
region also claims the coordinate after its last one, which it judges by what
lies behind its buffer. The result is right if the verdicts happen to be.

With OR the matching coordinates are appended, and duplicates are removed only
if the two leaves are about different objects. On one object the result is
right if nothing that was selected matches. And if the left query is not a
leaf, the server follows a NULL pointer to find its object.
-/

namespace Pdc

open List Lib Option Bool

/-- A comparison with one bound, of an integer object that the regions store,
and a selection of coordinates of the object. -/
structure OneSided (c : Constraint) (n : Nat) (data : Nat → Int) (regions : List QueryRegion)
    (s : QueryState) : Prop where
  integer : c.type.IsInteger
  op : c.op ≠ .none
  notRange : c.isRange = false
  stores : Stores (getVarTypeSize c.type) n data regions
  inRange : ∀ x < n, c.type.InRange (data x)
  nodup : s.coords.Nodup
  bound : ∀ x ∈ s.coords, x < n
  total : s.totalElem = 0 ∨ s.totalElem = n

/-- AND leaves the matching coordinates of the selection, in order, whatever
lies behind the buffers. -/
def AndKeeps (m : Machine) (c : Constraint) (data : Nat → Int) (regions : List QueryRegion)
    (left : Option Query) (s : QueryState) : Prop :=
  ∀ stray : QueryRegion → Nat → Int, (∀ r i, c.type.InRange (stray r i)) →
    ∃ s', queryEvaluateMergeOpt m stray regions c left .and s = some s' ∧
      s'.coords = s.coords.filter fun x => c.holds (data x)

/-- OR adds the matching coordinates of the object, and has no duplicates. -/
def OrAdds (m : Machine) (c : Constraint) (n : Nat) (data : Nat → Int)
    (regions : List QueryRegion) (left : Option Query) (s : QueryState) : Prop :=
  ∀ stray : QueryRegion → Nat → Int, (∀ r i, c.type.InRange (stray r i)) →
    ∃ s', queryEvaluateMergeOpt m stray regions c left .or s = some s' ∧ s'.coords.Nodup ∧
      ∀ x, x ∈ s'.coords ↔ x ∈ s.coords ∨ (x < n ∧ c.holds (data x) = true)

/-- A region comes to the right verdict on a coordinate. If it has the
coordinate and starts at zero, its first element must match just when the
coordinate's does. If it only ends there, what it reads instead must match
when the coordinate's element does: the first element, or anything. -/
def JudgedRight (c : Constraint) (data : Nat → Int) (r : QueryRegion) (x : Nat) : Prop :=
  (r.Has (getVarTypeSize c.type) x → r.start = 0 → c.holds (data 0) = c.holds (data x)) ∧
    (¬ r.Has (getVarTypeSize c.type) x → c.holds (data x) = true →
      if r.start = 0 ∧ r.count ≠ 0 then c.holds (data 0) = true
      else ∀ v, c.type.InRange v → c.holds v = true)

/-- All verdicts on the selection are right. A leaf of a type that is not
evaluated removes nothing. -/
def AndJudged (c : Constraint) (data : Nat → Int) (regions : List QueryRegion) (s : QueryState) :
    Prop :=
  (c.type.hasRanges = true → ∀ x ∈ s.coords, ∀ r ∈ regions, r.isDataReady = true →
    isCoordWithinRegion (getVarTypeSize c.type) r x = true → JudgedRight c data r x) ∧
  (c.type.hasRanges = false → ∀ x ∈ s.coords, c.holds (data x) = true)

/-- There is nothing to add, or no more than one coordinate altogether, or the
left query is a leaf that is about another object or none of whose coordinates
match. A leaf of a type that is not evaluated adds nothing. -/
def OrDistinct (c : Constraint) (n : Nat) (data : Nat → Int) (left : Option Query)
    (s : QueryState) : Prop :=
  (c.type.hasRanges = true → s.coords.length = n ∨
    s.coords.length + ((List.range n).filter fun x => c.holds (data x)).length ≤ 1 ∨
    ∃ c', left = some (.leaf c') ∧
      (c'.objId ≠ c.objId ∨ ∀ x ∈ s.coords, c.holds (data x) = false)) ∧
  (c.type.hasRanges = false → ∀ x < n, c.holds (data x) = true → x ∈ s.coords)

/-! ## The comparison -/

section

variable {m : Machine} {c : Constraint} {n x : Nat} {data : Nat → Int} {regions : List QueryRegion}
  {left : Option Query} {s : QueryState} {stray : QueryRegion → Nat → Int} {α : Type}

theorem holds_of_not_range (h : c.isRange = false) (x : Int) :
    c.holds x = c.op.compare x (rawValue c.type c.value) := by
  rw [Constraint.holds, h, Bool.not_false, Bool.true_or, Bool.and_true]

theorem test_of_hasRanges (hint : c.type.IsInteger) (hop : c.op ≠ .none)
    (hrange : c.isRange = false) (hty : c.type.hasRanges = true) : c.test m = some c.holds := by
  have hcompare : (if c.isRange = true then
      if (c.op.isLower && c.op2.isUpper) = true then
        some fun x => c.op.compare x (castDouble m c.type c.value) &&
          c.op2.compare x (castDouble m c.type c.value2)
      else none
    else if c.op = .none then none
    else some fun x => c.op.compare x (rawValue c.type c.value)) = some c.holds := by
    rw [if_neg (by rw [hrange]; exact false_ne_true), if_neg hop]
    exact congrArg some (funext fun x => (holds_of_not_range hrange x).symm)
  unfold Constraint.test
  cases hc : c.type with
  | int | uint | int64 | uint64 => rw [hc] at hcompare; exact hcompare
  | float => exact absurd hc hint.1
  | double => exact absurd hc hint.2.1
  | _ => rw [hc] at hty; cases hty

theorem test_of_not_hasRanges (hty : c.type.hasRanges = false) : c.test m = none := by
  unfold Constraint.test
  cases hc : c.type with
  | int | uint | int64 | uint64 | float | double => rw [hc] at hty; cases hty
  | _ => rfl

section

variable (h : OneSided c n data regions s)
include h

theorem OneSided.unit_pos : 0 < getVarTypeSize c.type :=
  h.integer.2.2

theorem OneSided.ne_ullongMax : ∀ x ∈ s.coords, x ≠ ullongMax := fun x hx =>
  h.stores.ne_ullongMax h.unit_pos (h.bound x hx)

theorem OneSided.region_of_mem (hx : x ∈ s.coords) :
    ∃ r ∈ regions.filter (·.isDataReady), r.Has (getVarTypeSize c.type) x := by
  obtain ⟨r, hr, hhas⟩ := h.stores.cover x (h.bound x hx)
  exact ⟨r, mem_filter.mpr ⟨hr, h.stores.isDataReady h.unit_pos hr hhas⟩, hhas⟩

theorem OneSided.length_le : s.coords.length ≤ n := by
  have hsub : s.coords ⊆ range n := fun x hx => mem_range.mpr (h.bound x hx)
  have := (subperm_of_subset h.nodup hsub).length_le
  rwa [length_range] at this

theorem OneSided.pos_of_length_ne (hlen : s.coords.length ≠ n) : 0 < n := by
  have := h.length_le
  omega

theorem OneSided.mem_of_length_eq (hlen : s.coords.length = n) (hx : x < n) : x ∈ s.coords := by
  have hsub : s.coords ⊆ range n := fun x hx => mem_range.mpr (h.bound x hx)
  have hperm : s.coords.Perm (range n) :=
    (subperm_of_subset h.nodup hsub).perm_of_length_le (by rw [length_range, hlen])
  exact hperm.mem_iff.mpr (mem_range.mpr hx)

end

/-! ## A type that is not evaluated -/

theorem foldlM_eq_none {β : Type} {f : β → α → Option β} {b : β} : ∀ {as : List α},
    (∀ a ∈ as, f b a = none ∨ f b a = some b) → (∃ a ∈ as, f b a = none) → as.foldlM f b = none
  | [], _, hex => by
      obtain ⟨a, ha, _⟩ := hex
      cases ha
  | a :: as, hstep, hex => by
      rw [foldlM_cons]
      rcases hstep a mem_cons_self with hnone | hsome
      · rw [hnone]
        rfl
      · rw [hsome]
        refine foldlM_eq_none (fun a' ha' => hstep a' (mem_cons_of_mem _ ha')) ?_
        obtain ⟨a', ha', hnone⟩ := hex
        rcases mem_cons.mp ha' with rfl | hmem
        · rw [hsome] at hnone
          cases hnone
        · exact ⟨a', hmem, hnone⟩

theorem scanOpt_none (unit : Nat) (op : CombineOp) (coords : List Nat) (r : QueryRegion) :
    queryEvaluateScanOpt stray none unit op coords r = none ∨
      queryEvaluateScanOpt stray none unit op coords r = some coords := by
  unfold queryEvaluateScanOpt
  cases op <;> dsimp only <;> split <;> first | exact Or.inl rfl | exact Or.inr rfl

section

variable (m : Machine) (stray : QueryRegion → Nat → Int) (left : Option Query) {op : CombineOp}

theorem evaluate_done (h : OneSided c n data regions s)
    (hdone : (s.coords.length = n ∧ op = .or) ∨ (s.coords.length = 0 ∧ op = .and)) :
    ∃ s', queryEvaluateMergeOpt m stray regions c left op s = some s' ∧ s'.coords = s.coords := by
  by_cases hne : regions = []
  · subst hne
    exact ⟨s, rfl, rfl⟩
  · exact ⟨⟨n, s.coords⟩, h.stores.evaluate_of_done h.unit_pos h.total hne hdone, rfl⟩

theorem evaluate_not_evaluated (h : OneSided c n data regions s)
    (hty : c.type.hasRanges = false)
    (hstep : ((s.coords.length = n ∧ op = .or) ∨ (s.coords.length = 0 ∧ op = .and)) ∨
      ∃ r ∈ regions.filter (·.isDataReady),
        queryEvaluateScanOpt stray none (getVarTypeSize c.type) op s.coords r = none) :
    ∃ s', queryEvaluateMergeOpt m stray regions c left op s = some s' ∧ s'.coords = s.coords := by
  rcases hstep with hdone | hex
  · exact evaluate_done m stray left h hdone
  · obtain ⟨r, hr, hnone⟩ := hex
    have hne : regions ≠ [] := ne_nil_of_mem (mem_of_mem_filter hr)
    refine ⟨⟨n, s.coords⟩, h.stores.evaluate_of_error h.unit_pos h.total hne ?_, rfl⟩
    rw [test_of_not_hasRanges hty]
    exact foldlM_eq_none (fun r _ => scanOpt_none _ _ _ r) ⟨r, hr, hnone⟩

theorem evaluate_and_not_evaluated (h : OneSided c n data regions s)
    (hty : c.type.hasRanges = false) :
    ∃ s', queryEvaluateMergeOpt m stray regions c left .and s = some s' ∧ s'.coords = s.coords := by
  refine evaluate_not_evaluated m stray left h hty ?_
  by_cases hempty : s.coords.length = 0
  · exact Or.inl (Or.inr ⟨hempty, rfl⟩)
  · obtain ⟨x, hx⟩ := exists_mem_of_length_pos (Nat.pos_of_ne_zero hempty)
    obtain ⟨r, hr, hhas⟩ := h.region_of_mem hx
    refine Or.inr ⟨r, hr, if_pos (any_eq_true.mpr ⟨x, hx, ?_⟩)⟩
    rw [decide_eq_true (h.ne_ullongMax x hx), isCoordWithinRegion_of_has hhas]
    rfl

theorem evaluate_or_not_evaluated (h : OneSided c n data regions s)
    (hty : c.type.hasRanges = false) :
    ∃ s', queryEvaluateMergeOpt m stray regions c left .or s = some s' ∧ s'.coords = s.coords := by
  refine evaluate_not_evaluated m stray left h hty ?_
  by_cases hall : s.coords.length = n
  · exact Or.inl (Or.inl ⟨hall, rfl⟩)
  · -- The object has elements, so the scan of some region gets to one.
    obtain ⟨r, hr, hhas⟩ := h.stores.cover 0 (h.pos_of_length_ne hall)
    obtain ⟨off, len, hold⟩ := h.stores.run r hr
    have hlen : 0 < len := by
      have := (hold.has_iff h.unit_pos).mp hhas
      omega
    refine Or.inr ⟨r, mem_filter.mpr ⟨hr, hold.ready hlen⟩, if_pos ?_⟩
    rw [hold.count, Nat.mul_div_cancel _ h.unit_pos]
    exact hlen

end

/-! ## AND -/

theorem evaluate_and (m : Machine) (stray : QueryRegion → Nat → Int)
    (left : Option Query) (h : OneSided c n data regions s) (hty : c.type.hasRanges = true) :
    ∃ s', queryEvaluateMergeOpt m stray regions c left .and s = some s' ∧
      s'.coords = s.coords.filter fun x => (regions.filter (·.isDataReady)).all fun r =>
        survives stray c.holds (getVarTypeSize c.type) r x := by
  by_cases hempty : s.coords = []
  · obtain ⟨s', heval, hsame⟩ :=
      evaluate_done m stray left h (.inr ⟨by rw [hempty]; rfl, rfl⟩)
    exact ⟨s', heval, by rw [hsame, hempty]; rfl⟩
  · have hdone : ¬ ((s.coords.length = n ∧ CombineOp.and = .or) ∨
        (s.coords.length = 0 ∧ CombineOp.and = .and)) := by
      simp [hempty]
    obtain ⟨x, hx⟩ := exists_mem_of_ne_nil _ hempty
    obtain ⟨r, hr, -⟩ := h.region_of_mem hx
    have hscan : (regions.filter (·.isDataReady)).foldlM (queryEvaluateScanOpt stray (c.test m)
        (getVarTypeSize c.type) .and) s.coords =
          some (s.coords.filter fun x => (regions.filter (·.isDataReady)).all fun r =>
            survives stray c.holds (getVarTypeSize c.type) r x) := by
      rw [test_of_hasRanges h.integer h.op h.notRange hty]
      exact filter_foldlM_eq _ _ h.ne_ullongMax
    refine ⟨⟨n, _⟩, ?_, rfl⟩
    rw [h.stores.evaluate_of_scan h.unit_pos h.total (ne_nil_of_mem (mem_of_mem_filter hr)) hdone
      (fun _ => hty) hscan, if_neg fun hand => ne_nil_of_mem hr hand.1]
    rfl

section

variable (h : OneSided c n data regions s) {r : QueryRegion}
include h

theorem survives_of_has (hr : r ∈ regions) (hhas : r.Has (getVarTypeSize c.type) x) :
    survives stray c.holds (getVarTypeSize c.type) r x =
      c.holds (if r.start = 0 then data 0 else data x) := by
  obtain ⟨off, len, hold⟩ := h.stores.run r hr
  rw [survives, isCoordWithinRegion_of_has hhas, hold.edata_of_has h.unit_pos hhas, Bool.not_true,
    Bool.false_or]

theorem survives_of_not_has (hr : r ∈ regions) (hhas : ¬ r.Has (getVarTypeSize c.type) x)
    (hin : isCoordWithinRegion (getVarTypeSize c.type) r x = true) :
    survives stray c.holds (getVarTypeSize c.type) r x =
      c.holds (if r.start = 0 ∧ r.count ≠ 0 then data 0
        else stray r (coordToRegionIndex (getVarTypeSize c.type) r x)) := by
  obtain ⟨off, len, hold⟩ := h.stores.run r hr
  rw [survives, hin, hold.edata_of_not_has h.unit_pos hhas hin, Bool.not_true, Bool.false_or]

theorem all_survives_of_judged (hx : x ∈ s.coords)
    (hstray : ∀ r i, c.type.InRange (stray r i))
    (hjudged : ∀ r ∈ regions, r.isDataReady = true →
      isCoordWithinRegion (getVarTypeSize c.type) r x = true → JudgedRight c data r x) :
    ((regions.filter (·.isDataReady)).all fun r =>
        survives stray c.holds (getVarTypeSize c.type) r x) = c.holds (data x) := by
  cases hmatch : c.holds (data x) with
  | true =>
    refine all_eq_true.mpr fun r hr => ?_
    obtain ⟨hr, hready⟩ := mem_filter.mp hr
    cases hin : isCoordWithinRegion (getVarTypeSize c.type) r x with
    | false => rw [survives, hin]; rfl
    | true =>
      obtain ⟨hhas, hnot⟩ := hjudged r hr hready hin
      by_cases hc : r.Has (getVarTypeSize c.type) x
      · rw [survives_of_has h hr hc]
        split
        · next hstart => rw [hhas hc hstart, hmatch]
        · exact hmatch
      · rw [survives_of_not_has h hr hc hin]
        have hread := hnot hc hmatch
        split at hread
        · next hfirst => rw [if_pos hfirst, hread]
        · next hfirst => rw [if_neg hfirst, hread _ (hstray r _)]
  | false =>
    -- The region that has the coordinate removes it.
    obtain ⟨r, hr, hc⟩ := h.region_of_mem hx
    refine all_eq_false.mpr ⟨r, hr, ?_⟩
    obtain ⟨hr, hready⟩ := mem_filter.mp hr
    rw [survives_of_has h hr hc]
    split
    · next hstart =>
      rw [(hjudged r hr hready (isCoordWithinRegion_of_has hc)).1 hc hstart, hmatch]
      exact false_ne_true
    · rw [hmatch]
      exact false_ne_true

theorem judged_of_all_survives (hx : x ∈ s.coords)
    (hall : ∀ stray : QueryRegion → Nat → Int, (∀ r i, c.type.InRange (stray r i)) →
      ((regions.filter (·.isDataReady)).all fun r =>
        survives stray c.holds (getVarTypeSize c.type) r x) = c.holds (data x))
    (hr : r ∈ regions) (hready : r.isDataReady = true)
    (hin : isCoordWithinRegion (getVarTypeSize c.type) r x = true) : JudgedRight c data r x := by
  have hmem : r ∈ regions.filter (·.isDataReady) := mem_filter.mpr ⟨hr, hready⟩
  constructor
  · intro hc hstart
    -- Behind every buffer lies the object's first element.
    have hzero : ∀ (_ : QueryRegion) (_ : Nat), c.type.InRange (data 0) := fun _ _ =>
      h.inRange 0 (Nat.zero_lt_of_lt (h.bound x hx))
    have hkeep := hall (fun _ _ => data 0) hzero
    cases hmatch : c.holds (data x) with
    | true =>
      rw [hmatch] at hkeep
      have hsur := all_eq_true.mp hkeep r hmem
      rwa [survives_of_has h hr hc, if_pos hstart] at hsur
    | false =>
      rw [hmatch] at hkeep
      obtain ⟨r', hr', hsur⟩ := all_eq_false.mp hkeep
      obtain ⟨hr', _⟩ := mem_filter.mp hr'
      cases hin' : isCoordWithinRegion (getVarTypeSize c.type) r' x with
      | false =>
        rw [survives, hin'] at hsur
        exact absurd rfl hsur
      | true =>
        by_cases hc' : r'.Has (getVarTypeSize c.type) x
        · obtain rfl := h.stores.unique hr hr' hc hc'
          rw [survives_of_has h hr hc, if_pos hstart] at hsur
          exact eq_false_of_not_eq_true hsur
        · rw [survives_of_not_has h hr' hc' hin', ite_self] at hsur
          exact eq_false_of_not_eq_true hsur
  · intro hc hmatch
    have hsur : ∀ v, c.type.InRange v →
        c.holds (if r.start = 0 ∧ r.count ≠ 0 then data 0 else v) = true := by
      intro v hv
      have hkeep := hall (fun _ _ => v) fun _ _ => hv
      rw [hmatch] at hkeep
      have hsur := all_eq_true.mp hkeep r hmem
      rwa [survives_of_not_has h hr hc hin] at hsur
    split
    · next hfirst =>
      have := hsur (data x) (h.inRange x (h.bound x hx))
      rwa [if_pos hfirst] at this
    · next hfirst =>
      intro v hv
      have := hsur v hv
      rwa [if_neg hfirst] at this

end

theorem filter_eq_filter_iff {p q : α → Bool} {l : List α} :
    l.filter p = l.filter q ↔ ∀ x ∈ l, p x = q x := by
  refine ⟨fun heq x hx => eq_iff_iff.mpr ?_, fun h => filter_congr h⟩
  have hmem : x ∈ l.filter p ↔ x ∈ l.filter q := by rw [heq]
  rw [mem_filter, mem_filter] at hmem
  exact ⟨fun hp => (hmem.mp ⟨hx, hp⟩).2, fun hq => (hmem.mpr ⟨hx, hq⟩).2⟩

theorem andKeeps_iff (h : OneSided c n data regions s) :
    AndKeeps m c data regions left s ↔ AndJudged c data regions s := by
  cases hty : c.type.hasRanges with
  | true =>
    have hkeeps : AndKeeps m c data regions left s ↔
        ∀ stray : QueryRegion → Nat → Int, (∀ r i, c.type.InRange (stray r i)) →
          ∀ x ∈ s.coords, ((regions.filter (·.isDataReady)).all fun r =>
            survives stray c.holds (getVarTypeSize c.type) r x) = c.holds (data x) := by
      refine forall_congr' fun stray => imp_congr_right fun _ => ?_
      obtain ⟨s', heval, hcoords⟩ := evaluate_and m stray left h hty
      rw [← filter_eq_filter_iff, ← hcoords]
      simp only [heval, some.injEq, exists_eq_left']
    rw [hkeeps]
    constructor
    · intro hall
      refine ⟨fun _ x hx r hr hready hin => ?_, fun hno => by rw [hty] at hno; cases hno⟩
      exact judged_of_all_survives h hx (fun stray hstray => hall stray hstray x hx) hr hready hin
    · intro hjudged stray hstray x hx
      exact all_survives_of_judged h hx hstray (hjudged.1 hty x hx)
  | false =>
    constructor
    · intro hkeeps
      refine ⟨fun hyes => (by rw [hty] at hyes; cases hyes), fun _ x hx => ?_⟩
      have hright := hkeeps (fun _ _ => data x) fun _ _ => h.inRange x (h.bound x hx)
      obtain ⟨s', heval, hsame⟩ := evaluate_and_not_evaluated m (fun _ _ => data x) left h hty
      simp only [heval, some.injEq, exists_eq_left', hsame] at hright
      exact filter_eq_self.mp hright.symm x hx
    · intro hjudged stray _
      obtain ⟨s', heval, hsame⟩ := evaluate_and_not_evaluated m stray left h hty
      refine ⟨s', heval, ?_⟩
      rw [hsame]
      exact (filter_eq_self.mpr (hjudged.2 hty)).symm

/-! ## OR -/

theorem evaluate_or (m : Machine) (stray : QueryRegion → Nat → Int) (left : Option Query)
    (h : OneSided c n data regions s) (hty : c.type.hasRanges = true) (hall : s.coords.length ≠ n) :
    queryEvaluateMergeOpt m stray regions c left .or s = (removeDuplicates c left .or
        (s.coords ++ matching (getVarTypeSize c.type) data regions c.holds)).map
          fun coords => ⟨n, coords⟩ := by
  have hne : regions ≠ [] := by
    obtain ⟨r, hr, _⟩ := h.stores.cover 0 (h.pos_of_length_ne hall)
    exact ne_nil_of_mem hr
  have hdone : ¬ ((s.coords.length = n ∧ CombineOp.or = .or) ∨
      (s.coords.length = 0 ∧ CombineOp.or = .and)) := by
    rintro (⟨hlen, _⟩ | ⟨_, hop⟩)
    · exact hall hlen
    · cases hop
  have hscan : (regions.filter (·.isDataReady)).foldlM (queryEvaluateScanOpt stray (c.test m)
      (getVarTypeSize c.type) .or) s.coords =
        some (s.coords ++ matching (getVarTypeSize c.type) data regions c.holds) := by
    rw [test_of_hasRanges h.integer h.op h.notRange hty]
    exact h.stores.scan_eq h.unit_pos (show CombineOp.or ≠ .and from nofun) s.coords
  rw [h.stores.evaluate_of_scan h.unit_pos h.total hne hdone (fun _ => hty) hscan,
    if_neg fun hand => nomatch hand.2]

section

variable (h : OneSided c n data regions s)
include h

theorem OneSided.mem_append (x : Nat) :
    x ∈ s.coords ++ matching (getVarTypeSize c.type) data regions c.holds ↔
      x ∈ s.coords ∨ (x < n ∧ c.holds (data x) = true) := by
  rw [List.mem_append, h.stores.mem_matching h.unit_pos]

theorem OneSided.nodup_append_iff :
    (s.coords ++ matching (getVarTypeSize c.type) data regions c.holds).Nodup ↔
      ∀ x ∈ s.coords, c.holds (data x) = false := by
  rw [nodup_append']
  constructor
  · intro hnodup x hx
    refine eq_false_of_not_eq_true fun hmatch => ?_
    exact hnodup.2.2 hx ((h.stores.mem_matching h.unit_pos).mpr ⟨h.bound x hx, hmatch⟩)
  · intro hno
    refine ⟨h.nodup, h.stores.nodup_matching h.unit_pos, fun x hx hx' => ?_⟩
    have hmatch := ((h.stores.mem_matching h.unit_pos).mp hx').2
    rw [hno x hx] at hmatch
    cases hmatch

theorem OneSided.lt_of_mem_append :
    ∀ x ∈ s.coords ++ matching (getVarTypeSize c.type) data regions c.holds, x < 256 ^ 8 := by
  intro x hx
  have hlt : x < n := ((h.mem_append x).mp hx).elim (h.bound x) And.left
  have hle : n ≤ n * getVarTypeSize c.type := Nat.le_mul_of_pos_right n h.unit_pos
  have hfits := h.stores.fits
  omega

end

/-- What is left of the selection and the matches after the duplicates have
been dealt with is right. -/
def DistinctAfter (c : Constraint) (left : Option Query) (coords : List Nat) : Prop :=
  ∃ coords', removeDuplicates c left .or coords = some coords' ∧ coords'.Nodup ∧
    ∀ x, x ∈ coords' ↔ x ∈ coords

theorem distinctAfter_iff {coords : List Nat} (hcoords : ∀ x ∈ coords, x < 256 ^ 8) :
    DistinctAfter c left coords ↔ coords.length ≤ 1 ∨
        ∃ c', left = some (.leaf c') ∧ (c'.objId ≠ c.objId ∨ coords.Nodup) := by
  unfold DistinctAfter removeDuplicates
  by_cases hlen : 1 < coords.length
  · rw [if_pos ⟨rfl, hlen⟩]
    have hlong : ¬ coords.length ≤ 1 := Nat.not_le.mpr hlen
    rcases left with _ | ⟨c'⟩ | _
    · simp [hlong]
    · by_cases hobj : c'.objId = c.objId
      · simp [hobj, hlong]
      · refine ⟨fun _ => Or.inr ⟨c', rfl, Or.inl hobj⟩, fun _ => ?_⟩
        refine ⟨sortUnique (bytesLe 8) coords, ?_, nodup_sortUnique_bytesLe hcoords,
          fun _ => mem_sortUnique⟩
        show some (if c'.objId ≠ c.objId then _ else coords) = _
        rw [if_pos hobj]
    · simp [hlong]
  · rw [if_neg fun hor => hlen hor.2]
    have hshort : coords.length ≤ 1 := Nat.not_lt.mp hlen
    refine ⟨fun _ => Or.inl hshort, fun _ => ⟨coords, rfl, ?_, fun _ => Iff.rfl⟩⟩
    rcases coords with _ | ⟨x, _ | _⟩
    · exact nodup_nil
    · exact nodup_singleton x
    · exact absurd (Nat.succ_le_succ (Nat.succ_le_succ (Nat.zero_le _))) hlen

theorem OneSided.length_append (h : OneSided c n data regions s) :
    (s.coords ++ matching (getVarTypeSize c.type) data regions c.holds).length =
      s.coords.length + ((List.range n).filter fun x => c.holds (data x)).length := by
  rw [List.length_append, (h.stores.matching_perm h.unit_pos).length_eq]

theorem evaluate_or_iff (m : Machine) (stray : QueryRegion → Nat → Int) (left : Option Query)
    (h : OneSided c n data regions s) (hty : c.type.hasRanges = true) (hall : s.coords.length ≠ n) :
    (∃ s', queryEvaluateMergeOpt m stray regions c left .or s = some s' ∧ s'.coords.Nodup ∧
        ∀ x, x ∈ s'.coords ↔ x ∈ s.coords ∨ (x < n ∧ c.holds (data x) = true)) ↔
      s.coords.length + ((range n).filter fun x => c.holds (data x)).length ≤ 1 ∨
        ∃ c', left = some (.leaf c') ∧
          (c'.objId ≠ c.objId ∨ ∀ x ∈ s.coords, c.holds (data x) = false) := by
  rw [evaluate_or m stray left h hty hall, ← h.length_append, ← h.nodup_append_iff,
    ← distinctAfter_iff h.lt_of_mem_append]
  constructor
  · rintro ⟨s', hs', hnodup, hmem⟩
    obtain ⟨coords', hcoords, rfl⟩ := map_eq_some_iff.mp hs'
    exact ⟨coords', hcoords, hnodup, fun x => (hmem x).trans (h.mem_append x).symm⟩
  · rintro ⟨coords', hcoords, hnodup, hmem⟩
    refine ⟨⟨n, coords'⟩, ?_, hnodup, fun x => (hmem x).trans (h.mem_append x)⟩
    rw [hcoords]
    rfl

/-- When the selection is to stay as it is, it must have all matches already. -/
theorem unchanged_right_iff (h : OneSided c n data regions s) {s' : QueryState}
    (hsame : s'.coords = s.coords) :
    (s'.coords.Nodup ∧ ∀ x, x ∈ s'.coords ↔ x ∈ s.coords ∨ (x < n ∧ c.holds (data x) = true)) ↔
      ∀ x < n, c.holds (data x) = true → x ∈ s.coords := by
  rw [hsame]
  constructor
  · intro hright x hx hmatch
    exact (hright.2 x).mpr (Or.inr ⟨hx, hmatch⟩)
  · intro hhas
    refine ⟨h.nodup, fun x => ⟨Or.inl, fun hor => ?_⟩⟩
    exact hor.elim id fun hx => hhas x hx.1 hx.2

theorem orAdds_iff (h : OneSided c n data regions s) :
    OrAdds m c n data regions left s ↔ OrDistinct c n data left s := by
  cases hty : c.type.hasRanges with
  | true =>
    by_cases hall : s.coords.length = n
    · refine ⟨fun _ => ⟨fun _ => Or.inl hall, fun hno => by rw [hty] at hno; cases hno⟩,
        fun _ stray _ => ?_⟩
      obtain ⟨s', heval, hsame⟩ := evaluate_done m stray left h (.inl ⟨hall, rfl⟩)
      refine ⟨s', heval, (unchanged_right_iff h hsame).mpr fun x hx _ => ?_⟩
      exact h.mem_of_length_eq hall hx
    · constructor
      · intro hadds
        refine ⟨fun _ => Or.inr ?_, fun hno => by rw [hty] at hno; cases hno⟩
        have hright := hadds (fun _ _ => data 0) fun _ _ =>
          h.inRange 0 (h.pos_of_length_ne hall)
        exact (evaluate_or_iff m _ left h hty hall).mp hright
      · intro hdistinct stray _
        exact (evaluate_or_iff m stray left h hty hall).mpr ((hdistinct.1 hty).resolve_left hall)
  | false =>
    constructor
    · intro hadds
      refine ⟨fun hyes => (by rw [hty] at hyes; cases hyes), fun _ x hx => ?_⟩
      have hright := hadds (fun _ _ => data x) fun _ _ => h.inRange x hx
      obtain ⟨s', heval, hsame⟩ := evaluate_or_not_evaluated m (fun _ _ => data x) left h hty
      simp only [heval, some.injEq, exists_eq_left'] at hright
      exact (unchanged_right_iff h hsame).mp hright x hx
    · intro hdistinct stray _
      obtain ⟨s', heval, hsame⟩ := evaluate_or_not_evaluated m stray left h hty
      exact ⟨s', heval, (unchanged_right_iff h hsame).mpr (hdistinct.2 hty)⟩

/-! ## Both -/

end

theorem oneSided_two_regions :
    OneSided ⟨1, .gt, .int, 5, false, .none, 0⟩ 3 (fun x => [7, 8, 3].getD x 0)
      [⟨0, 4, 4, true, [7]⟩, ⟨4, 8, 8, true, [8, 3]⟩] ⟨3, [1, 2]⟩ where
  integer := by decide
  op := by decide
  notRange := rfl
  stores := .concat (.concat .nil 1 ⟨rfl, rfl, rfl, fun _ => rfl, rfl⟩ (by decide) (by decide)) 2
    ⟨rfl, rfl, rfl, fun _ => rfl, rfl⟩ (by decide) (by decide)
  inRange := by decide
  nodup := by decide
  bound := by decide
  total := Or.inr rfl

end Pdc
