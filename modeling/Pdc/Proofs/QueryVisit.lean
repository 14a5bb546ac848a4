import Pdc.Server.QueryEvaluate
import Mathlib.Data.List.Nodup
import Mathlib.Data.List.Range

/-!
# Visiting a query tree with one selection

Every leaf works on the same selection, and the result of a subtree is never
kept apart. So a tree is read from left to right: each leaf is joined to all
that came before it, by the operator of the node it is the first leaf on the
right of. That is the tree's formula only if the tree leans to the left. In
`a AND (b OR c)` the selection after `b` is that of `a AND b`, and `c` is
added to it.

The trees that are evaluated rightly, whatever their leaves select, are those
in which every right part is a single leaf or has the operator of its node
throughout, so that it does not matter how the part is bracketed. The proof is
about one coordinate, for which a leaf is true or false. `readFrom` is what
the visit makes of it. For every other tree there are leaves for which it
differs from the formula, and a tree with these leaves can be built.
-/

namespace Pdc

variable {p : Nat → Bool} {s : QueryState} (op : Connective) (b : Bool)

/-! ## Reading a formula from left to right -/

section

variable {α β : Type} {leaf : α → Bool}

/-- What a leaf does to a coordinate, which is selected or not. -/
def CombineOp.apply : CombineOp → Bool → Bool → Bool
  | .none, _, hit => hit
  | .and, selected, hit => selected && hit
  | .or, selected, hit => selected || hit

/-- What visiting a tree does to a coordinate. -/
def QueryTree.readFrom (leaf : α → Bool) : QueryTree α → CombineOp → Bool → Bool
  | .leaf a, op, selected => op.apply selected (leaf a)
  | .node op' l r, op, selected =>
    r.readFrom leaf op'.combineOp (l.readFrom leaf op selected)

/-- All operators of a tree are the same. -/
def QueryTree.Flat (op : Connective) : QueryTree α → Prop
  | .leaf _ => True
  | .node op' l r => op' = op ∧ l.Flat op ∧ r.Flat op

/-- Every right part of a tree has no operators but its node's. -/
def QueryTree.LeftToRight : QueryTree α → Prop
  | .leaf _ => True
  | .node op l r => l.LeftToRight ∧ r.Flat op

def QueryTree.map (f : α → β) : QueryTree α → QueryTree β
  | .leaf a => .leaf (f a)
  | .node op l r => .node op (l.map f) (r.map f)

def QueryTree.AllLeaves (P : α → Prop) : QueryTree α → Prop
  | .leaf a => P a
  | .node _ l r => l.AllLeaves P ∧ r.AllLeaves P

def QueryTree.shape (t : QueryTree α) : QueryTree Unit := t.map fun _ => ()

theorem eval_node (leaf : α → Bool) (op : Connective) (l r : QueryTree α) :
    (QueryTree.node op l r).eval leaf = op.combineOp.apply (l.eval leaf) (r.eval leaf) := by
  cases op <;> rfl

theorem apply_assoc (a b c : Bool) :
    op.combineOp.apply (op.combineOp.apply a b) c =
      op.combineOp.apply a (op.combineOp.apply b c) := by
  cases op with
  | and => exact Bool.and_assoc a b c
  | or => exact Bool.or_assoc a b c

theorem readFrom_of_flat {op : Connective} : ∀ {t : QueryTree α}, t.Flat op →
    ∀ selected, t.readFrom leaf op.combineOp selected = op.combineOp.apply selected (t.eval leaf)
  | .leaf _, _, _ => rfl
  | .node _ l r, ⟨rfl, hl, hr⟩, selected => by
      rw [QueryTree.readFrom, readFrom_of_flat hl, readFrom_of_flat hr, eval_node, apply_assoc]

theorem readFrom_of_leftToRight : ∀ {t : QueryTree α}, t.LeftToRight →
    ∀ selected, t.readFrom leaf .none selected = t.eval leaf
  | .leaf _, _, _ => rfl
  | .node op l r, ⟨hl, hr⟩, selected => by
      rw [QueryTree.readFrom, readFrom_of_leftToRight hl, readFrom_of_flat hr, eval_node]

/-! ### Maps -/

theorem readFrom_map (f : α → β) (leaf : β → Bool) : ∀ (t : QueryTree α) (op : CombineOp)
    (selected : Bool), (t.map f).readFrom leaf op selected = t.readFrom (leaf ∘ f) op selected
  | .leaf _, _, _ => rfl
  | .node _ l r, op, selected => by
      rw [QueryTree.map, QueryTree.readFrom, readFrom_map f leaf l, readFrom_map f leaf r,
        QueryTree.readFrom]

theorem eval_map (f : α → β) (leaf : β → Bool) : ∀ t : QueryTree α,
    (t.map f).eval leaf = t.eval (leaf ∘ f)
  | .leaf _ => rfl
  | .node _ l r => by
      rw [QueryTree.map, eval_node, eval_map f leaf l, eval_map f leaf r, eval_node]

theorem shape_map (f : α → β) : ∀ t : QueryTree α, (t.map f).shape = t.shape
  | .leaf _ => rfl
  | .node op l r => congrArg₂ (QueryTree.node op) (shape_map f l) (shape_map f r)

theorem flat_shape {op : Connective} : ∀ {t : QueryTree α}, t.shape.Flat op ↔ t.Flat op
  | .leaf _ => Iff.rfl
  | .node _ _ _ => and_congr Iff.rfl (and_congr flat_shape flat_shape)

theorem leftToRight_shape : ∀ {t : QueryTree α}, t.shape.LeftToRight ↔ t.LeftToRight
  | .leaf _ => Iff.rfl
  | .node _ _ _ => and_congr leftToRight_shape flat_shape

end

/-! ## Leaves for which a tree is misread -/

section

/-- The value that decides a connective. -/
def Connective.zero : Connective → Bool
  | .and => false
  | .or => true

theorem apply_zero_left : op.combineOp.apply op.zero b = op.zero := by
  cases op <;> rfl

theorem apply_zero_right : op.combineOp.apply b op.zero = op.zero := by
  cases op <;> cases b <;> rfl

theorem apply_not_zero_right : op.combineOp.apply b (!op.zero) = b := by
  cases op <;> cases b <;> rfl

theorem zero_ne_of_ne {op op' : Connective} (h : op' ≠ op) : op'.zero ≠ op.zero := by
  cases op <;> cases op' <;> first | exact absurd rfl h | decide

def fill (b : Bool) (t : QueryTree Unit) : QueryTree Bool := t.map fun _ => b

theorem shape_fill (b : Bool) : ∀ t : QueryTree Unit, (fill b t).shape = t
  | .leaf _ => rfl
  | .node op l r => congrArg₂ (QueryTree.node op) (shape_fill b l) (shape_fill b r)

theorem eval_fill (b : Bool) : ∀ t : QueryTree Unit, (fill b t).eval id = b
  | .leaf _ => rfl
  | .node op l r => by
      rw [fill, QueryTree.map, eval_node]
      show op.combineOp.apply ((fill b l).eval id) ((fill b r).eval id) = b
      rw [eval_fill b l, eval_fill b r]
      cases op <;> cases b <;> rfl

theorem readFrom_fill_node (op' : Connective) (l r : QueryTree Unit) (op : CombineOp)
    (selected : Bool) :
    (fill b (.node op' l r)).readFrom id op selected =
      (fill b r).readFrom id op'.combineOp ((fill b l).readFrom id op selected) := rfl

theorem readFrom_fill_self (b : Bool) : ∀ (t : QueryTree Unit) (op : CombineOp),
    (fill b t).readFrom id op b = b
  | .leaf _, op => by cases op <;> cases b <;> rfl
  | .node op' l r, op => by
      rw [readFrom_fill_node, readFrom_fill_self b l op, readFrom_fill_self b r]

theorem readFrom_fill_none (b : Bool) : ∀ (t : QueryTree Unit) (selected : Bool),
    (fill b t).readFrom id .none selected = b
  | .leaf _, _ => rfl
  | .node op' l r, selected => by
      rw [readFrom_fill_node, readFrom_fill_none b l, readFrom_fill_self b r]

theorem readFrom_fill_zero (op : Connective) : ∀ (t : QueryTree Unit) (selected : Bool),
    (fill op.zero t).readFrom id op.combineOp selected = op.zero
  | .leaf _, selected => apply_zero_right op selected
  | .node op' l r, selected => by
      rw [readFrom_fill_node, readFrom_fill_zero op l, readFrom_fill_self op.zero r]

/-- A part with another operator in it can undo the value that decides its
node. -/
theorem exists_readFrom_ne_zero {op : Connective} : ∀ {t : QueryTree Unit}, ¬ t.Flat op →
    ∃ v : QueryTree Bool, v.shape = t ∧ v.readFrom id op.combineOp op.zero ≠ op.zero
  | .leaf _, h => absurd trivial h
  | .node op' l r, h => by
      by_cases hop : op' = op
      · subst hop
        by_cases hl : l.Flat op'
        · -- The operator is on the right: all leaves before it agree.
          obtain ⟨v, hshape, hread⟩ := exists_readFrom_ne_zero fun hr => h ⟨rfl, hl, hr⟩
          refine ⟨.node op' (fill op'.zero l) v,
            congrArg₂ (QueryTree.node op') (shape_fill _ l) hshape, ?_⟩
          rwa [QueryTree.readFrom, readFrom_fill_self]
        · obtain ⟨v, hshape, hread⟩ := exists_readFrom_ne_zero hl
          refine ⟨.node op' v (fill (!op'.zero) r),
            congrArg₂ (QueryTree.node op') hshape (shape_fill _ r), ?_⟩
          rw [QueryTree.readFrom, Bool.eq_not_of_ne hread, readFrom_fill_self]
          exact Bool.not_ne_self _
      · refine ⟨.node op' (fill op.zero l) (fill op'.zero r),
          congrArg₂ (QueryTree.node op') (shape_fill _ l) (shape_fill _ r), ?_⟩
        rw [QueryTree.readFrom, readFrom_fill_zero]
        exact zero_ne_of_ne hop

theorem exists_misread : ∀ {t : QueryTree Unit}, ¬ t.LeftToRight →
    ∃ v : QueryTree Bool, v.shape = t ∧ v.readFrom id .none false ≠ v.eval id
  | .leaf _, h => absurd trivial h
  | .node op l r, h => by
      by_cases hr : r.Flat op
      · -- The right part is made neutral.
        obtain ⟨v, hshape, hread⟩ := exists_misread fun hl => h ⟨hl, hr⟩
        have hflat : (fill (!op.zero) r).Flat op := by
          rw [← flat_shape, shape_fill]
          exact hr
        refine ⟨.node op v (fill (!op.zero) r),
          congrArg₂ (QueryTree.node op) hshape (shape_fill _ r), ?_⟩
        rwa [QueryTree.readFrom, readFrom_of_flat hflat, eval_node, eval_fill,
          apply_not_zero_right, apply_not_zero_right]
      · -- The left part decides the node, and the right part undoes it.
        obtain ⟨v, hshape, hread⟩ := exists_readFrom_ne_zero hr
        refine ⟨.node op (fill op.zero l) v,
          congrArg₂ (QueryTree.node op) (shape_fill _ l) hshape, ?_⟩
        rwa [QueryTree.readFrom, readFrom_fill_none, eval_node, eval_fill, apply_zero_left]

end

/-! ## The visit -/

section

variable {α : Type} {n : Nat} {hits : α → Nat → Bool}
  {func : α → Option (QueryTree α) → CombineOp → QueryState → Option QueryState} {t : QueryTree α}

/-- The selection is that of the coordinates for which a predicate is true. -/
def Selected (n : Nat) (p : Nat → Bool) (s : QueryState) : Prop :=
  s.coords.Nodup ∧ ∀ x, x ∈ s.coords ↔ x < n ∧ p x = true

/-- Each single leaf does what it should: the first one selects what matches,
and the others keep what matches or add it. -/
structure LeafStepRight (n : Nat) (hits : α → Nat → Bool)
    (func : α → Option (QueryTree α) → CombineOp → QueryState → Option QueryState) : Prop where
  first : ∀ a left total, ∃ s', func a left .none ⟨total, []⟩ = some s' ∧ Selected n (hits a) s'
  and : ∀ a left p s, Selected n p s → ∃ s', func a left .and s = some s' ∧
    Selected n (fun x => p x && hits a x) s'
  or : ∀ a left p s, Selected n p s → ∃ s', func a left .or s = some s' ∧
    Selected n (fun x => p x || hits a x) s'

/-- A leaf or a tree is visited without an operator if it comes first, and
else with the selection of what came before. -/
def Before (n : Nat) (p : Nat → Bool) : CombineOp → QueryState → Prop
  | .none, s => s.coords = []
  | _, s => Selected n p s

theorem LeafStepRight.step (h : LeafStepRight n hits func) (a : α) (left : Option (QueryTree α))
    {op : CombineOp} (hs : Before n p op s) :
    ∃ s', func a left op s = some s' ∧ Selected n (fun x => op.apply (p x) (hits a x)) s' := by
  cases op with
  | none =>
    obtain ⟨s', hfunc, hsel⟩ := h.first a left s.totalElem
    have hempty : s = ⟨s.totalElem, []⟩ := by
      rw [← show s.coords = [] from hs]
    rw [hempty]
    exact ⟨s', hfunc, hsel⟩
  | and => exact h.and a left p s hs
  | or => exact h.or a left p s hs

theorem LeafStepRight.visit (h : LeafStepRight n hits func) : ∀ (t : QueryTree α)
    (left : Option (QueryTree α)) {op : CombineOp} {p : Nat → Bool} {s : QueryState},
    Before n p op s → ∃ s', queryVisit func t left op s = some s' ∧
      Selected n (fun x => t.readFrom (fun a => hits a x) op (p x)) s'
  | .leaf a, left, _, _, _, hs => h.step a left hs
  | .node op' l r, left, op, p, s, hs => by
      obtain ⟨s₁, hvisit₁, hsel₁⟩ := h.visit l left hs
      have hbefore : Before n (fun x => l.readFrom (fun a => hits a x) op (p x))
          op'.combineOp s₁ := by
        cases op' <;> exact hsel₁
      obtain ⟨s₂, hvisit₂, hsel₂⟩ := h.visit r (some l) hbefore
      refine ⟨s₂, ?_, hsel₂⟩
      rw [queryVisit, hvisit₁]
      exact hvisit₂

theorem Selected.length_eq (h : Selected n p s) :
    s.coords.length = ((List.range n).filter p).length := by
  refine List.Perm.length_eq ((List.perm_ext_iff_of_nodup h.1 (List.nodup_range.filter _)).mpr ?_)
  intro x
  rw [h.2 x, List.mem_filter, List.mem_range]

theorem LeafStepRight.doQuery (h : LeafStepRight n hits func) (t : QueryTree α) (getOp : GetOp) :
    ∃ task s, doQuery func (.new t getOp) = some task ∧
      Selected n (fun x => t.readFrom (fun a => hits a x) .none false) s ∧
      task.nhits = s.coords.length ∧ (getOp ≠ .nhits → task.coords = s.coords) := by
  obtain ⟨s, hvisit, hsel⟩ := h.visit t none
    (show Before n _ .none ⟨0, []⟩ from rfl)
  refine ⟨{ QueryTask.new t getOp with
    isDone := true, totalElem := s.totalElem, nhits := s.coords.length
    coords := if getOp = .nhits then [] else s.coords }, s, ?_, hsel, rfl, fun hop => if_neg hop⟩
  show (queryVisit func t none .none ⟨0, []⟩).map _ = _
  rw [hvisit]
  rfl

def idealStep (n : Nat) (hits : α → Nat → Bool) (a : α) (_ : Option (QueryTree α)) (op : CombineOp)
    (s : QueryState) : Option QueryState :=
  some { s with
    coords := (List.range n).filter fun x => op.apply (decide (x ∈ s.coords)) (hits a x) }

theorem idealStep_selected (op : CombineOp) (hs : ∀ x < n, decide (x ∈ s.coords) = p x) (a : α)
    (left : Option (QueryTree α)) :
    ∃ s', idealStep n hits a left op s = some s' ∧
      Selected n (fun x => op.apply (p x) (hits a x)) s' := by
  refine ⟨_, rfl, List.nodup_range.filter _, fun x => ?_⟩
  rw [List.mem_filter, List.mem_range]
  refine and_congr_right fun hx => ?_
  rw [hs x hx]

theorem idealStep_right (n : Nat) (hits : α → Nat → Bool) :
    LeafStepRight n hits (idealStep n hits) where
  first a left total :=
    idealStep_selected .none (p := fun _ => false) (s := ⟨total, []⟩) (fun _ _ => rfl) a left
  and a left p s hs := idealStep_selected .and (fun x hx => by simp [hs.2 x, hx]) a left
  or a left p s hs := idealStep_selected .or (fun x hx => by simp [hs.2 x, hx]) a left

/-- With right leaf steps, the selection after the query is the set of the
coordinates for which its formula is true, and `nhits` is their number. -/
def EvaluatesFormula (t : QueryTree α) : Prop :=
  ∀ (n : Nat) (hits : α → Nat → Bool)
    (func : α → Option (QueryTree α) → CombineOp → QueryState → Option QueryState) (getOp : GetOp),
    LeafStepRight n hits func → ∃ task, Pdc.doQuery func (.new t getOp) = some task ∧
      task.nhits = ((List.range n).filter fun x => t.eval fun a => hits a x).length ∧
      (getOp ≠ .nhits → task.coords.Nodup ∧
        ∀ x, x ∈ task.coords ↔ x < n ∧ t.eval (fun a => hits a x) = true)

theorem evaluatesFormula_of_leftToRight (ht : t.LeftToRight) :
    EvaluatesFormula t := by
  intro n hits func getOp h
  obtain ⟨task, s, htask, hsel, hnhits, hcoords⟩ := h.doQuery t getOp
  have hread : (fun x => t.readFrom (fun a => hits a x) .none false) =
      fun x => t.eval fun a => hits a x :=
    funext fun x => readFrom_of_leftToRight ht false
  rw [hread] at hsel
  refine ⟨task, htask, by rw [hnhits, hsel.length_eq], fun hop => ?_⟩
  rw [hcoords hop]
  exact hsel

theorem readFrom_eq_eval (h : EvaluatesFormula t) (leaf : α → Bool) :
    t.readFrom leaf .none false = t.eval leaf := by
  -- One coordinate, and leaves that match it or not.
  have hright : LeafStepRight 1 (fun a _ => leaf a) (idealStep 1 fun a _ => leaf a) :=
    idealStep_right 1 _
  obtain ⟨task, htask, _, hcoords⟩ := h 1 _ _ .sel hright
  obtain ⟨task', s, htask', hsel, _, hcoords'⟩ := hright.doQuery t .sel
  rw [htask] at htask'
  obtain rfl := Option.some.inj htask'
  have hmem := (hcoords (by decide)).2 0
  rw [hcoords' (by decide), hsel.2 0] at hmem
  refine Bool.eq_iff_iff.mpr ⟨fun hread => ?_, fun heval => ?_⟩
  · exact (hmem.mp ⟨Nat.one_pos, hread⟩).2
  · exact (hmem.mpr ⟨Nat.one_pos, heval⟩).2

end

/-! ## The trees that can be built -/

/-- The queries that calls of `PDCquery_create`, `PDCquery_and` and
`PDCquery_or` make. -/
inductive BuiltQuery (m : Machine) : Query → Prop
  | create (objId : UInt64) (op : QueryOp) (ty : CVarType) (value : Lib.Bytes) {q : Query}
      (h : queryCreate objId op ty value = some q) : BuiltQuery m q
  | and {q₁ q₂ q : Query} (h₁ : BuiltQuery m q₁) (h₂ : BuiltQuery m q₂)
      (h : queryAnd m q₁ q₂ = some q) : BuiltQuery m q
  | or {q₁ q₂ : Query} (h₁ : BuiltQuery m q₁) (h₂ : BuiltQuery m q₂) :
      BuiltQuery m (queryOr q₁ q₂)

def objectLeaf (b : Bool) : Constraint :=
  ⟨if b then 1 else 2, .gt, .int, 0, false, .none, 0⟩

theorem queryAnd_objectLeaf (m : Machine) (v w : QueryTree Bool) :
    queryAnd m (v.map objectLeaf) (w.map objectLeaf) =
      some (.node .and (v.map objectLeaf) (w.map objectLeaf)) := by
  cases v with
  | leaf b =>
    cases w with
    | leaf b' => cases b <;> cases b' <;> rfl
    | node _ _ _ => rfl
  | node _ _ _ => rfl

theorem builtQuery_objectLeaf (m : Machine) : ∀ v : QueryTree Bool, BuiltQuery m (v.map objectLeaf)
  | .leaf true => .create 1 .gt .int [0, 0, 0, 0] rfl
  | .leaf false => .create 2 .gt .int [0, 0, 0, 0] rfl
  | .node .and v w =>
    .and (builtQuery_objectLeaf m v) (builtQuery_objectLeaf m w) (queryAnd_objectLeaf m v w)
  | .node .or v w => .or (builtQuery_objectLeaf m v) (builtQuery_objectLeaf m w)

/-- The trees of a shape are all evaluated as their formula, for right leaf
steps, just if every right part in the shape has no operators but its node's. -/
theorem evaluatesFormula_iff (m : Machine) (shape : QueryTree Unit) :
    (∀ q, BuiltQuery m q → q.shape = shape → EvaluatesFormula q) ↔ shape.LeftToRight := by
  constructor
  · intro h
    by_contra hshape
    obtain ⟨v, rfl, hread⟩ := exists_misread hshape
    have heval := h (v.map objectLeaf) (builtQuery_objectLeaf m v) (shape_map objectLeaf v)
    -- The leaves of the first object match, those of the second do not.
    have hleaf : (fun c : Constraint => decide (c.objId = 1)) ∘ objectLeaf = id := by
      funext b
      cases b <;> rfl
    have hsame := readFrom_eq_eval heval fun c => decide (c.objId = 1)
    rw [readFrom_map, eval_map, hleaf] at hsame
    exact hread hsame
  · rintro hshape q - rfl
    exact evaluatesFormula_of_leftToRight (leftToRight_shape.mp hshape)

/-- `a AND (b OR c)`, where `a` and `b` match nothing and `c` matches a
coordinate: it is selected. -/
theorem evaluatesFormula_fails :
    BuiltQuery ⟨fun _ _ => 0, fun _ _ _ => false, fun _ _ => false⟩
        (.node .and (.leaf (objectLeaf false))
          (.node .or (.leaf (objectLeaf false)) (.leaf (objectLeaf true)))) ∧
      ¬ EvaluatesFormula (.node .and (.leaf (objectLeaf false))
          (.node .or (.leaf (objectLeaf false)) (.leaf (objectLeaf true)))) := by
  refine ⟨builtQuery_objectLeaf _ (.node .and (.leaf false) (.node .or (.leaf false) (.leaf true))),
    fun heval => ?_⟩
  exact absurd (readFrom_eq_eval heval fun c => decide (c.objId = 1)) (by decide)

end Pdc
