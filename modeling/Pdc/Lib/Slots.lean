import Pdc.Lib.Run
import Mathlib.Data.Set.Card

/-!
# A finite map in two parallel arrays

`mapAfter` is the map a history of insertions and deletions describes, and
`mapAfter_eq_some_iff` its meaning: the value of the last insertion under the
key that no later action on the same key follows.

`Slots keys values m` says that two arrays hold the map `m`, the value of a
key in the slot of the key. The rules below are the ways such arrays are
changed: writing into the value slot of a key, adding a slot at the end, and
dropping the last slot. The order of the slots is not part of the map.
-/

namespace Pdc.Lib

open List Function Option

open Classical

variable {K V : Type*} {k k' : K}

/-- An action on a map. -/
inductive MapOp (K V : Type*) where
  | put (k : K) (v : V)
  | delete (k : K)

def MapOp.key : MapOp K V → K
  | .put k _ | .delete k => k

noncomputable def mapStep (m : K → Option V) : MapOp K V → K → Option V
  | .put k v => Function.update m k (some v)
  | .delete k => Function.update m k none

/-- The map after a history of actions on an empty one, the oldest first. -/
noncomputable def mapAfter (ops : List (MapOp K V)) : K → Option V :=
  ops.foldl mapStep fun _ => none

theorem mapAfter_append_singleton (ops : List (MapOp K V)) (op : MapOp K V) :
    mapAfter (ops ++ [op]) = mapStep (mapAfter ops) op := by
  rw [mapAfter, foldl_append]
  rfl

theorem mapStep_put_self (m : K → Option V) (k : K) (v : V) : mapStep m (.put k v) k = some v := by
  rw [mapStep, update_self]

theorem mapStep_delete_self (m : K → Option V) (k : K) : mapStep m (.delete k) k = none := by
  rw [mapStep, update_self]

theorem mapStep_of_ne {m : K → Option V} {op : MapOp K V} (h : op.key ≠ k) :
    mapStep m op k = m k := by
  cases op with
  | put k' v => exact update_of_ne (Ne.symm h) _ _
  | delete k' => exact update_of_ne (Ne.symm h) _ _

theorem mapStep_put_of_ne (m : K → Option V) (v : V) (h : k ≠ k') :
    mapStep m (.put k v) k' = m k' := update_of_ne (Ne.symm h) _ _

theorem mapStep_delete_of_ne (m : K → Option V) (h : k ≠ k') :
    mapStep m (.delete k) k' = m k' := update_of_ne (Ne.symm h) _ _

theorem mapAfter_eq_some_iff {ops : List (MapOp K V)} {v : V} :
    mapAfter ops k = some v ↔
      ∃ before after, ops = before ++ .put k v :: after ∧ ∀ op ∈ after, op.key ≠ k := by
  have hset : ∀ (m : K → Option V) (op : MapOp K V), op.key = k →
      mapStep m op k = mapStep (fun _ => none) op k := by
    rintro m (⟨k, v⟩ | k) rfl
    · rw [MapOp.key, mapStep_put_self, mapStep_put_self]
    · rw [MapOp.key, mapStep_delete_self, mapStep_delete_self]
  refine (run_eq_iff_last mapStep ops (f := fun m => m k) hset (fun _ _ => mapStep_of_ne)
    (some_ne_none v).symm).trans ?_
  constructor
  · intro ⟨before, op, after, hsplit, hkey, hvalue, hlater⟩
    refine ⟨before, after, ?_, hlater⟩
    cases op with
    | put k' v' =>
      obtain rfl : k' = k := hkey
      rw [mapStep_put_self] at hvalue
      rw [hsplit, some.inj hvalue]
    | delete k' =>
      obtain rfl : k' = k := hkey
      rw [mapStep_delete_self] at hvalue
      cases hvalue
  · intro ⟨before, after, hsplit, hlater⟩
    exact ⟨before, .put k v, after, hsplit, rfl, mapStep_put_self _ k v, hlater⟩

/-! ## The arrays -/

/-- The two arrays hold the map. -/
structure Slots (keys : List K) (values : List V) (m : K → Option V) : Prop where
  nodup : keys.Nodup
  length_eq : keys.length = values.length
  value : ∀ {i : Nat} {k v}, keys[i]? = some k → values[i]? = some v → m k = some v
  mem : ∀ {k v}, m k = some v → k ∈ keys

namespace Slots

variable {keys : List K} {values : List V} {m : K → Option V} {k : K} {v : V}

theorem nil : Slots ([] : List K) ([] : List V) fun _ => none where
  nodup := nodup_nil
  length_eq := rfl
  value := by simp
  mem := by simp

section

variable (h : Slots keys values m) {i : Nat}
include h

theorem value_eq (hk : keys[i]? = some k) : values[i]? = m k := by
  have hi : i < values.length := h.length_eq ▸ (List.getElem?_eq_some_iff.mp hk).1
  have hv := getElem?_eq_getElem hi
  rw [hv, h.value hk hv]

theorem eq_none (hk : k ∉ keys) : m k = none := by
  cases hm : m k with
  | none => rfl
  | some v => exact absurd (h.mem hm) hk

theorem index_unique {j : Nat} (hi : keys[i]? = some k) (hj : keys[j]? = some k) : i = j := by
  obtain ⟨hi', hik⟩ := List.getElem?_eq_some_iff.mp hi
  obtain ⟨hj', hjk⟩ := List.getElem?_eq_some_iff.mp hj
  exact (h.nodup.getElem_inj_iff).mp (hik.trans hjk.symm)

theorem set (hk : keys[i]? = some k) (v : V) :
    Slots keys (values.set i v) (update m k (some v)) where
  nodup := h.nodup
  length_eq := by rw [length_set, h.length_eq]
  value := by
    intro j k' v' hj hv'
    by_cases hij : i = j
    · subst hij
      rw [hk, some.injEq] at hj
      subst hj
      rw [getElem?_set_self (h.length_eq ▸ (List.getElem?_eq_some_iff.mp hk).1)] at hv'
      rw [update_self, hv']
    · rw [getElem?_set_ne hij] at hv'
      have hne : k' ≠ k := fun hkk => hij (h.index_unique hk (hkk ▸ hj))
      rw [update_of_ne hne]
      exact h.value hj hv'
  mem := by
    intro k' v' hm
    by_cases hkk : k' = k
    · rw [hkk]
      exact mem_of_getElem? hk
    · rw [update_of_ne hkk] at hm
      exact h.mem hm

theorem append (hk : k ∉ keys) (v : V) :
    Slots (keys ++ [k]) (values ++ [v]) (update m k (some v)) where
  nodup := nodup_append.mpr ⟨h.nodup, nodup_singleton k, by
    rintro a ha b hb rfl
    exact hk (mem_singleton.mp hb ▸ ha)⟩
  length_eq := by rw [length_append, length_append, h.length_eq]; rfl
  value := by
    intro j k' v' hj hv'
    have hlen := h.length_eq
    rcases Nat.lt_trichotomy j keys.length with hlt | heq | hgt
    · rw [getElem?_append_left hlt] at hj
      rw [getElem?_append_left (by omega)] at hv'
      have hne : k' ≠ k := fun hkk => hk (hkk ▸ mem_of_getElem? hj)
      rw [update_of_ne hne]
      exact h.value hj hv'
    · subst heq
      rw [getElem?_concat_length, some.injEq] at hj
      rw [hlen, getElem?_concat_length] at hv'
      rw [← hj, update_self, hv']
    · rw [List.getElem?_eq_none (by rw [length_append, length_singleton]; omega)] at hj
      cases hj
  mem := by
    intro k' v' hm
    rw [mem_append, mem_singleton]
    by_cases hkk : k' = k
    · exact .inr hkk
    · rw [update_of_ne hkk] at hm
      exact .inl (h.mem hm)

end

theorem dropLast (h : Slots (keys ++ [k]) (values ++ [v]) m) :
    Slots keys values (update m k none) := by
  have hnodup := nodup_append.mp h.nodup
  have hnot : k ∉ keys := fun hk => hnodup.2.2 k hk k (mem_singleton_self k) rfl
  have hlen : keys.length = values.length := by
    have := h.length_eq
    rw [length_append, length_append] at this
    exact Nat.add_right_cancel this
  refine ⟨hnodup.1, hlen, ?_, ?_⟩
  · intro j k' v' hj hv'
    have hlt := (List.getElem?_eq_some_iff.mp hj).1
    have hne : k' ≠ k := fun hkk => hnot (hkk ▸ mem_of_getElem? hj)
    rw [update_of_ne hne]
    refine @h.value j k' v' ?_ ?_
    · rw [getElem?_append_left hlt, hj]
    · rw [getElem?_append_left (by omega), hv']
  · intro k' v' hm
    by_cases hkk : k' = k
    · rw [hkk, update_self] at hm
      cases hm
    · rw [update_of_ne hkk] at hm
      exact (mem_append.mp (h.mem hm)).resolve_right fun hmem =>
        hkk (mem_singleton.mp hmem)

theorem delete_absent (h : Slots keys values m) (hk : k ∉ keys) :
    Slots keys values (update m k none) := by
  have hsame : update m k none = m := by
    rw [← h.eq_none hk, update_eq_self]
  rw [hsame]
  exact h

theorem ncard_eq (h : Slots keys values m) : {k | (m k).isSome}.ncard = keys.length := by
  have hset : {k | (m k).isSome} = (keys.toFinset : Set K) := by
    ext k
    rw [coe_toFinset]
    show (m k).isSome ↔ k ∈ keys
    rw [isSome_iff_exists]
    constructor
    · rintro ⟨v, hv⟩
      exact h.mem hv
    · intro hk
      obtain ⟨i, hi⟩ := getElem?_of_mem hk
      have hlt : i < values.length := h.length_eq ▸ (List.getElem?_eq_some_iff.mp hi).1
      exact ⟨values[i], h.value hi (getElem?_eq_getElem hlt)⟩
  rw [hset, Set.ncard_coe_finset, toFinset_card_of_nodup h.nodup]

end Slots

end Pdc.Lib
