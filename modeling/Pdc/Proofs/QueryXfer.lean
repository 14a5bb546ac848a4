import Pdc.Server.QueryXfer

/-!
# A query is received as it was sent

The two arrays of a message are the operators of the tree from the root, left
part first, and its leaves. `ops` and `leaves` say so of a tree, without
counters. The walks that count nodes and leaves give their lengths, so both
arrays are filled to the last entry; and reading them back at the place where
a tree starts gives the tree, and leaves both counters behind it.
-/

namespace Pdc

open List Lib Lib.Fill

/-! ## What is written -/

/-- The operators of a tree, with the children its leaves do not have. -/
def QueryTree.ops : Query → List Int
  | .leaf _ => [0, -1, -1]
  | .node op l r => op.combineOp.value :: (l.ops ++ r.ops)

def QueryTree.leaves : Query → List Constraint
  | .leaf c => [c]
  | .node _ l r => l.leaves ++ r.leaves

theorem ptr_ne_null (q : Query) : q.ptr ≠ .null := by
  cases q <;> exact nofun

theorem length_ops (q : Query) : q.ops.length = q.ptr.nnode * 2 + 1 := by
  induction q with
  | leaf c => rfl
  | node op l r hl hr =>
    simp only [QueryTree.ops, QueryTree.ptr, QueryPtr.nnode, length_cons, length_append, hl, hr]
    omega

theorem nleaf_ptr (q : Query) (n : Nat) : q.ptr.nleaf n = n + q.leaves.length := by
  induction q generalizing n with
  | leaf c => rfl
  | node op l r hl hr =>
    rw [QueryTree.ptr, QueryPtr.nleaf, hl, hr, QueryTree.leaves, length_append, Nat.add_assoc]
    exact fun h _ => ptr_ne_null l h

/-- Which entries of both arrays have been written. -/
structure QueryArrays.Written (n m : Nat) (ops : List Int) (cs : List Constraint)
    (a : QueryArrays) : Prop where
  combineOps : a.combineOps.Filled n ops
  constraints : a.constraints.Filled m cs

section

variable {n m : Nat} {ops : List Int} {cs : List Constraint} {a : QueryArrays}

theorem QueryArrays.Written.putOp (h : a.Written n m ops cs) (op : Int)
    (hfit : ops.length + 1 ≤ n) : ∃ a', a.putOp op = some a' ∧ a'.Written n m (ops ++ [op]) cs := by
  obtain ⟨f, hputs, hf⟩ := h.combineOps.puts [op] hfit
  refine ⟨{ a with combineOps := f }, ?_, hf, h.constraints⟩
  rw [QueryArrays.putOp, hputs]
  rfl

theorem QueryArrays.Written.putConstraint (h : a.Written n m ops cs) (c : Constraint)
    (hfit : cs.length + 1 ≤ m) :
    ∃ a', a.putConstraint (some c) = some a' ∧ a'.Written n m ops (cs ++ [c]) := by
  obtain ⟨f, hputs, hf⟩ := h.constraints.puts [c] hfit
  refine ⟨{ a with constraints := f }, ?_, h.combineOps, hf⟩
  simp [QueryArrays.putConstraint, hputs]

theorem QueryArrays.Written.serialize (q : Query) (h : a.Written n m ops cs)
    (hops : ops.length + q.ops.length ≤ n) (hcs : cs.length + q.leaves.length ≤ m) :
    ∃ a', serialize q.ptr a = some a' ∧ a'.Written n m (ops ++ q.ops) (cs ++ q.leaves) := by
  induction q generalizing ops cs a with
  | leaf c =>
    simp only [QueryTree.ops, QueryTree.leaves, length_cons, length_nil] at hops hcs
    obtain ⟨a₁, h₁, w₁⟩ := h.putConstraint c hcs
    obtain ⟨a₂, h₂, w₂⟩ := w₁.putOp 0 (by omega)
    obtain ⟨a₃, h₃, w₃⟩ := w₂.putOp (-1) (by rw [length_append]; exact Nat.le_of_lt hops)
    obtain ⟨a₄, h₄, w₄⟩ := w₃.putOp (-1) (by rw [append_assoc, length_append]; exact hops)
    refine ⟨a₄, ?_, ?_⟩
    · simp [QueryTree.ptr, Pdc.serialize, CombineOp.value, h₁, h₂, h₃, h₄]
    · simpa [QueryTree.ops, QueryTree.leaves] using w₄
  | node op l r hl hr =>
    simp only [QueryTree.ops, QueryTree.leaves, length_cons, length_append] at hops hcs
    obtain ⟨a₁, h₁, w₁⟩ := h.putOp op.combineOp.value (by omega)
    have hlen : (ops ++ [op.combineOp.value]).length = ops.length + 1 := length_append
    obtain ⟨a₂, h₂, w₂⟩ := hl w₁ (by omega) (by omega)
    obtain ⟨a₃, h₃, w₃⟩ := hr w₂ (by rw [length_append]; omega) (by rw [length_append]; omega)
    refine ⟨a₃, ?_, ?_⟩
    · simp [QueryTree.ptr, Pdc.serialize, ptr_ne_null, h₁, h₂, h₃]
    · simpa [QueryTree.ops, QueryTree.leaves] using w₃

end

/-! ## What is read -/

section

variable {constraints : List Constraint} {combineOps rest : List Int} {i j fuel k : Nat} {α : Type}

theorem getElem?_of_drop_eq {l : List α} {x : α} {rest : List α}
    (h : l.drop k = x :: rest) : l[k]? = some x ∧ l.drop (k + 1) = rest := by
  have hk : l[k]? = some x := by
    rw [← Nat.add_zero k, ← getElem?_drop, h]
    rfl
  refine ⟨hk, ?_⟩
  rw [← drop_drop, h]
  rfl

theorem drop_append_eq {l : List α} {xs rest : List α}
    (h : l.drop k = xs ++ rest) : l.drop (k + xs.length) = rest := by
  rw [← drop_drop, h, drop_left]

theorem deSerialize_null (h : combineOps.drop j = -1 :: rest) :
    deSerialize constraints combineOps (fuel + 1) i j = some (.null, i, j + 1) := by
  simp [deSerialize, (getElem?_of_drop_eq h).1]

theorem connective_value (op : Connective) : op.combineOp.value ≠ -1 ∧ op.combineOp.value ≠ 0 := by
  cases op <;> decide

theorem deSerialize_ptr (q : Query) {rest' : List Constraint}
    (hops : combineOps.drop j = q.ops ++ rest)
    (hcs : constraints.drop i = q.leaves ++ rest') (hfuel : q.ops.length ≤ fuel) :
    deSerialize constraints combineOps fuel i j =
      some (q.ptr, i + q.leaves.length, j + q.ops.length) := by
  induction q generalizing i j rest rest' fuel with
  | leaf c =>
    obtain ⟨fuel, rfl⟩ : ∃ k, fuel = k + 2 :=
      ⟨fuel - 2, by simp only [QueryTree.ops, length_cons, length_nil] at hfuel; omega⟩
    obtain ⟨hop, hrest⟩ := getElem?_of_drop_eq hops
    obtain ⟨hc, -⟩ := getElem?_of_drop_eq hcs
    have hleft : deSerialize constraints combineOps (fuel + 1) (i + 1) (j + 1) = _ :=
      deSerialize_null hrest
    have hright : deSerialize constraints combineOps (fuel + 1) (i + 1) (j + 1 + 1) = _ :=
      deSerialize_null (getElem?_of_drop_eq hrest).2
    rw [deSerialize]
    simp [hop, hc, hleft, hright, QueryTree.ptr, QueryTree.ops, QueryTree.leaves, CombineOp.value]
  | node op l r hl hr =>
    simp only [QueryTree.ops, length_cons, length_append] at hfuel
    obtain ⟨fuel, rfl⟩ : ∃ k, fuel = k + 1 := ⟨fuel - 1, by omega⟩
    rw [QueryTree.leaves, append_assoc] at hcs
    rw [QueryTree.ops, cons_append, append_assoc] at hops
    obtain ⟨hop, hrest⟩ := getElem?_of_drop_eq hops
    have hleft := hl hrest hcs (by omega : l.ops.length ≤ fuel)
    have hright := hr (drop_append_eq hrest) (drop_append_eq hcs) (by omega : r.ops.length ≤ fuel)
    have hi : i + l.leaves.length + r.leaves.length =
        i + (QueryTree.node op l r).leaves.length := by
      rw [QueryTree.leaves, length_append, Nat.add_assoc]
    have hj : j + 1 + l.ops.length + r.ops.length = j + (QueryTree.node op l r).ops.length := by
      rw [QueryTree.ops, length_cons, length_append]
      omega
    rw [deSerialize]
    simp [hop, connective_value op, hleft, hright, QueryTree.ptr, hi, hj]

end

/-! ## Built queries -/

/-- The queries made with the functions of the interface, and restricted to regions
of one to four dimensions. -/
inductive BuiltRegionQuery (m : Machine) : RegionQuery → Prop
  | create (objId : UInt64) (op : QueryOp) (ty : CVarType) (value : Bytes) {q : RegionQuery}
      (h : RegionQuery.create objId op ty value = some q) : BuiltRegionQuery m q
  | selRegion {q : RegionQuery} (h : BuiltRegionQuery m q) (r : RegionInfo) (h₁ : 1 ≤ r.ndim)
      (h₄ : r.ndim ≤ 4) : BuiltRegionQuery m (q.selRegion r)
  | and {q₁ q₂ q : RegionQuery} (h₁ : BuiltRegionQuery m q₁) (h₂ : BuiltRegionQuery m q₂)
      (h : q₁.and m q₂ = some q) : BuiltRegionQuery m q
  | or {q₁ q₂ : RegionQuery} (h₁ : BuiltRegionQuery m q₁) (h₂ : BuiltRegionQuery m q₂) :
      BuiltRegionQuery m (q₁.or q₂)

theorem BuiltRegionQuery.region_ndim {m : Machine} {q : RegionQuery} (h : BuiltRegionQuery m q) :
    ∀ r, q.region = some r → 1 ≤ r.ndim ∧ r.ndim ≤ 4 := by
  -- The region of a joined query is that of one of the two.
  have join : ∀ {o₁ o₂ : Option RegionInfo} {r : RegionInfo}, (o₁ <|> o₂) = some r →
      o₁ = some r ∨ o₂ = some r := by
    intro o₁ o₂ r ho
    cases o₁ with
    | none => exact .inr ho
    | some r' => exact .inl ho
  induction h with
  | create objId op ty value h =>
    obtain ⟨tree, -, rfl⟩ := Option.map_eq_some_iff.mp h
    exact fun r hr => nomatch hr
  | selRegion h r h₁ h₄ _ =>
    intro r' hr
    cases hr
    exact ⟨h₁, h₄⟩
  | and h₁ h₂ h ih₁ ih₂ =>
    obtain ⟨tree, -, rfl⟩ := Option.map_eq_some_iff.mp h
    intro r hr
    split at hr
    · exact (join hr).elim (ih₂ r) (ih₁ r)
    · exact (join hr).elim (ih₁ r) (ih₂ r)
  | or h₁ h₂ ih₁ ih₂ => exact fun r hr => (join hr).elim (ih₁ r) (ih₂ r)

/-- Every entry of the two arrays of a message has been written, and none twice. -/
structure QueryXfer.Full (xfer : QueryXfer) : Prop where
  combineOps_length : xfer.arrays.combineOps.cells.length = xfer.nCombineOps
  combineOps_next : xfer.arrays.combineOps.next = xfer.nCombineOps
  constraints_length : xfer.arrays.constraints.cells.length = xfer.nConstraints
  constraints_next : xfer.arrays.constraints.next = xfer.nConstraints

/-- A built query fills its message, and is received with its operators and
constraints in their places and with its region. -/
theorem deserializeQuery_serializeQuery {m : Machine} {q : RegionQuery} (h : BuiltRegionQuery m q) :
    ∃ xfer, serializeQuery q = some xfer ∧ xfer.Full ∧
      ∀ stray, ∃ received, deserializeQuery stray xfer = some received ∧
        received.root = q.tree.ptr ∧ received.regionConstraint.Is q.region := by
  have hleaf : q.tree.ptr.nleaf 0 = q.tree.leaves.length := by rw [nleaf_ptr, Nat.zero_add]
  have hstart : QueryArrays.Written (q.tree.ptr.nnode * 2 + 1) (q.tree.ptr.nleaf 0) [] []
      { combineOps := ⟨List.replicate (q.tree.ptr.nnode * 2 + 1) 0, 0⟩
        constraints := ⟨List.replicate (q.tree.ptr.nleaf 0) Constraint.zero, 0⟩ } :=
    ⟨Filled.start length_replicate, Filled.start length_replicate⟩
  obtain ⟨a, ha, hw⟩ := hstart.serialize q.tree
    (by rw [length_ops]; exact Nat.le_of_eq (Nat.zero_add _))
    (by rw [hleaf]; exact Nat.le_of_eq (Nat.zero_add _))
  have hops : a.combineOps.cells = q.tree.ops := hw.combineOps.cells_eq (length_ops q.tree)
  have hcs : a.constraints.cells = q.tree.leaves := hw.constraints.cells_eq hleaf.symm
  have hread : deSerialize a.constraints.cells a.combineOps.cells (q.tree.ptr.nnode * 2 + 1) 0 0 =
      some (q.tree.ptr, _, _) :=
    deSerialize_ptr q.tree (by rw [hops, drop_zero, append_nil])
      (by rw [hcs, drop_zero, append_nil]) (Nat.le_of_eq (length_ops q.tree))
  refine ⟨⟨q.tree.ptr.nnode * 2 + 1, q.tree.ptr.nleaf 0, a, regionXfer q.region⟩, ?_, ?_,
    fun stray => ?_⟩
  · rw [serializeQuery, ha]
    rfl
  · exact ⟨hw.combineOps.length, hw.combineOps.next.trans (length_ops q.tree),
      hw.constraints.length, hw.constraints.next.trans hleaf.symm⟩
  · refine ⟨⟨q.tree.ptr, regionTransferToList (regionXfer q.region) stray⟩, ?_, rfl, ?_⟩
    · rw [deserializeQuery, hread]
      rfl
    · cases hregion : q.region with
      | none => rfl
      | some r =>
        obtain ⟨h₁, h₄⟩ := h.region_ndim r hregion
        exact (regionInfoToTransfer_carries h₁ h₄ {}).is h₁ h₄ stray

/-- A restricted lower bound, or an upper bound on another object. -/
theorem deserializeQuery_serializeQuery_or :
    ∃ xfer, serializeQuery ⟨.node .or (.leaf ⟨1, .gt, .int, 5, false, .none, 0⟩)
          (.leaf ⟨2, .lt, .int, 9, false, .none, 0⟩), some ⟨2, [1, 2], [3, 4], rfl, rfl⟩⟩ =
        some xfer ∧ xfer.Full ∧
      ∀ stray, ∃ received, deserializeQuery stray xfer = some received ∧
        received.root = .node 2 none (.node 0 (some ⟨1, .gt, .int, 5, false, .none, 0⟩) .null .null)
          (.node 0 (some ⟨2, .lt, .int, 9, false, .none, 0⟩) .null .null) ∧
        received.regionConstraint.Is (some ⟨2, [1, 2], [3, 4], rfl, rfl⟩) :=
  deserializeQuery_serializeQuery (m := ⟨fun _ _ => 0, fun _ _ _ => false, fun _ _ => false⟩)
    (.or (.selRegion (.create 1 .gt .int [5, 0, 0, 0] rfl) ⟨2, [1, 2], [3, 4], rfl, rfl⟩
      (by decide) (by decide)) (.create 2 .lt .int [9, 0, 0, 0] rfl))

end Pdc
