import Mathlib.Data.List.AList

/-!
# Tables with keys

Facts about association lists that hash tables of a program are modelled by: what
is found after an entry was put in, and what a walk over all entries finds.
-/

namespace Pdc.Lib

variable {K V : Type*} [DecidableEq K] {t t' : AList fun _ : K => V} {k k' : K} {v v' : V}

theorem lookup_insert_eq_some_iff :
    (t.insert k v).lookup k' = some v' ↔ (k' = k ∧ v' = v) ∨ (k' ≠ k ∧ t.lookup k' = some v') := by
  by_cases h : k' = k
  · subst h
    simp [eq_comm]
  · rw [AList.lookup_insert_ne h]
    simp [h]

theorem lookup_erase_eq_some_iff :
    (t.erase k).lookup k' = some v ↔ k' ≠ k ∧ t.lookup k' = some v := by
  by_cases h : k' = k
  · subst h
    simp [AList.lookup_erase]
  · rw [AList.lookup_erase_ne h]
    simp [h]

theorem lookup_foldl_insert_iff {pairs : List (K × V)} (h : (pairs.map Prod.fst).Nodup) :
    (pairs.foldl (fun t p => t.insert p.1 p.2) t).lookup k = some v ↔
      (k, v) ∈ pairs ∨ (k ∉ pairs.map Prod.fst ∧ t.lookup k = some v) := by
  induction pairs generalizing t with
  | nil => simp
  | cons p pairs ih =>
    rw [List.map_cons, List.nodup_cons] at h
    rw [List.foldl_cons, ih h.2, lookup_insert_eq_some_iff, List.map_cons, List.mem_cons,
      List.mem_cons, not_or]
    constructor
    · rintro (hmem | ⟨hnot, ⟨rfl, rfl⟩ | ⟨hne, hold⟩⟩)
      · exact .inl (.inr hmem)
      · exact .inl (.inl rfl)
      · exact .inr ⟨⟨hne, hnot⟩, hold⟩
    · rintro ((rfl | hmem) | ⟨⟨hne, hnot⟩, hold⟩)
      · exact .inr ⟨h.1, .inl ⟨rfl, rfl⟩⟩
      · exact .inl hmem
      · exact .inr ⟨hnot, .inr ⟨hne, hold⟩⟩

theorem lookup_foldl_insert_entries {W : Type*} (f : V → W) :
    ((t.entries.map fun pair => (pair.1, f pair.2)).foldl
      (fun (t : AList fun _ : K => W) p => t.insert p.1 p.2) ∅).lookup k = (t.lookup k).map f := by
  have hkeys : ((t.entries.map fun pair => (pair.1, f pair.2)).map Prod.fst).Nodup := by
    rw [List.map_map]
    exact t.keys_nodup
  refine Option.ext fun w => ?_
  rw [lookup_foldl_insert_iff hkeys, AList.lookup_empty, Option.map_eq_some_iff]
  simp only [List.mem_map, reduceCtorEq, and_false, or_false, Prod.mk.injEq]
  constructor
  · rintro ⟨pair, hmem, rfl, rfl⟩
    exact ⟨pair.2, AList.mem_lookup_iff.mpr hmem, rfl⟩
  · rintro ⟨v, hv, rfl⟩
    exact ⟨⟨k, v⟩, AList.mem_lookup_iff.mp hv, rfl, rfl⟩

/-! ## All values -/

section Gathered

variable {U W : Type*}

/-- What the values of a table have, one after the other. -/
def allValues (f : V → List W) (t : AList fun _ : K => V) : List W :=
  t.entries.flatMap fun pair => f pair.2

theorem perm_entries_of_lookup (h : ∀ k, t.lookup k = t'.lookup k) : t.entries.Perm t'.entries :=
  List.lookup_ext t.nodupKeys t'.nodupKeys fun k v => by
    have hk : t.entries.dlookup k = t'.entries.dlookup k := h k
    rw [hk]

theorem allValues_insert_self (f : V → List W) :
    allValues f (t.insert k v) = f v ++ allValues f (t.erase k) := rfl

theorem allValues_perm_of_lookup (f : V → List W) (h : t.lookup k = some v) :
    (allValues f t).Perm (f v ++ allValues f (t.erase k)) := by
  rw [← allValues_insert_self]
  refine List.Perm.flatMap_right _ (perm_entries_of_lookup fun k' => ?_)
  by_cases heq : k' = k
  · rw [heq, AList.lookup_insert, h]
  · rw [AList.lookup_insert_ne heq]

theorem allValues_erase_of_lookup (f : V → List W) (h : t.lookup k = none) :
    allValues f (t.erase k) = allValues f t := by
  have hkey : k ∉ t.entries.keys := AList.lookup_eq_none.mp h
  show (t.entries.kerase k).flatMap _ = _
  rw [List.kerase_of_notMem_keys hkey]
  rfl

theorem allValues_insert_perm (f : V → List W) {ws : List W}
    (h : (f v).Perm (ws ++ ((t.lookup k).map f).getD [])) :
    (allValues f (t.insert k v)).Perm (ws ++ allValues f t) := by
  rw [allValues_insert_self]
  cases hold : t.lookup k with
  | none =>
    rw [hold, Option.map_none, Option.getD_none, List.append_nil] at h
    rw [allValues_erase_of_lookup f hold]
    exact h.append_right _
  | some old =>
    rw [hold] at h
    refine (h.append_right _).trans ?_
    rw [List.append_assoc]
    exact (allValues_perm_of_lookup f hold).symm.append_left ws

theorem allValues_perm_of_map {u : AList fun _ : K => U} (f : V → List W) (g : U → V)
    (h : ∀ k, t.lookup k = (u.lookup k).map g) :
    (allValues f t).Perm (allValues (fun v => f (g v)) u) := by
  let changed : List (Σ _ : K, V) := u.entries.map (Sigma.map id fun _ => g)
  have hkeys : changed.NodupKeys := List.NodupKeys.map₂ _ u.entries u.nodupKeys
  have hperm : t.entries.Perm changed :=
    List.lookup_ext t.nodupKeys hkeys fun k v => by
      have hk : t.entries.dlookup k = (u.entries.dlookup k).map g := h k
      rw [hk, List.dlookup_map₂]
  refine (List.Perm.flatMap_right _ hperm).trans (List.Perm.of_eq ?_)
  rw [List.flatMap_map]
  rfl

end Gathered

end Pdc.Lib
