import Mathlib.Algebra.BigOperators.Group.List.Basic
import Mathlib.Data.List.Nodup
import Mathlib.Data.List.Range
import Mathlib.Tactic.Ring

/-!
# Collecting parts by rank

Parts arrive in any order, each with the rank of its sender, and are put into
an array with one slot for every rank. Once each sender has been heard the
array does not show in which order they came: `placed_eq` says that a slot
holds the part with its rank, and `inRank_perm` that going through the slots
visits each part once.
-/

namespace Pdc.Lib

open List

variable {α β : Type*} {key : α → Nat} {l : List α} {n k : Nat} {x : α}

theorem find?_key_eq_some (h : (l.map key).Nodup) :
    l.find? (fun y => key y = k) = some x ↔ x ∈ l ∧ key x = k := by
  induction l with
  | nil => simp
  | cons a l ih =>
    rw [map_cons, nodup_cons] at h
    rw [find?_cons]
    by_cases ha : key a = k
    · have hnot : ∀ y ∈ l, key y ≠ k := fun y hy hk =>
        h.1 (by rw [ha, ← hk]; exact mem_map_of_mem hy)
      simp only [ha, decide_true, Option.some.injEq, mem_cons]
      refine ⟨fun hax => ⟨.inl hax.symm, hax ▸ ha⟩, fun hx => ?_⟩
      exact hx.1.elim Eq.symm fun hmem => absurd hx.2 (hnot x hmem)
    · simp only [ha, decide_false, ih h.2, mem_cons]
      refine and_congr_left fun hx => ⟨.inr, fun hmem => hmem.resolve_left ?_⟩
      rintro rfl
      exact ha hx

/-- The array with a slot for each of `n` ranks, after parts have arrived. -/
def placed (n : Nat) (key : α → Nat) (l : List α) : List (Option α) :=
  l.foldl (fun slots x => slots.set (key x) (some x)) (List.replicate n none)

theorem placed_append_singleton (n : Nat) (key : α → Nat) (l : List α) (x : α) :
    placed n key (l ++ [x]) = (placed n key l).set (key x) (some x) := by
  rw [placed, foldl_append]
  rfl

@[simp] theorem length_placed (n : Nat) (key : α → Nat) (l : List α) :
    (placed n key l).length = n := by
  induction l using reverseRecOn with
  | nil => exact length_replicate
  | append_singleton l x ih => rw [placed_append_singleton, length_set, ih]

theorem placed_eq (h : (l.map key).Nodup) :
    placed n key l = (range n).map fun k => l.find? fun x => key x = k := by
  induction l using reverseRecOn with
  | nil =>
    refine ext_getElem? fun i => ?_
    simp only [placed, foldl_nil, getElem?_replicate, getElem?_map, find?_nil]
    rcases Nat.lt_or_ge i n with hi | hi
    · rw [getElem?_range hi, if_pos hi]
      rfl
    · rw [getElem?_eq_none (by rw [length_range]; exact hi), if_neg (by omega)]
      rfl
  | append_singleton l x ih =>
    rw [map_append, nodup_append] at h
    obtain ⟨hl, -, hdisj⟩ := h
    have hfresh : ∀ y ∈ l, key y ≠ key x := fun y hy =>
      hdisj _ (mem_map_of_mem hy) _ (mem_map_of_mem (by simp))
    rw [placed_append_singleton, ih hl]
    refine ext_getElem? fun i => ?_
    simp only [getElem?_set, length_map, length_range, getElem?_map]
    rcases Nat.lt_or_ge i n with hi | hi
    · rw [getElem?_range hi, Option.map_some, Option.map_some, find?_append]
      by_cases hx : key x = i
      · have hnone : l.find? (fun y => key y = i) = none :=
          find?_eq_none.mpr fun y hy => by simpa [← hx] using hfresh y hy
        rw [if_pos hx, if_pos (hx ▸ hi), hnone]
        simp [hx]
      · rw [if_neg hx]
        simp [hx]
    · rw [getElem?_eq_none (by rw [length_range]; exact hi)]
      by_cases hx : key x = i
      · rw [if_pos hx, if_neg (by omega)]
        rfl
      · rw [if_neg hx]
        rfl

/-- The parts in the order of their ranks. -/
def inRank (n : Nat) (key : α → Nat) (l : List α) : List α := (placed n key l).filterMap id

theorem mem_inRank (h : (l.map key).Nodup) (hn : ∀ x ∈ l, key x < n) :
    x ∈ inRank n key l ↔ x ∈ l := by
  simp only [inRank, placed_eq h, mem_filterMap, mem_map, mem_range, id]
  refine ⟨fun hx => ?_, fun hx => ?_⟩
  · obtain ⟨_, ⟨k, -, rfl⟩, hfind⟩ := hx
    exact ((find?_key_eq_some h).mp hfind).1
  · exact ⟨_, ⟨key x, hn x hx, rfl⟩, (find?_key_eq_some h).mpr ⟨hx, rfl⟩⟩

theorem inRank_perm (h : (l.map key).Nodup) (hn : ∀ x ∈ l, key x < n) :
    (inRank n key l).Perm l := by
  refine (perm_ext_iff_of_nodup ?_ h.of_map).mpr fun x => mem_inRank h hn
  rw [inRank, placed_eq h, filterMap_map]
  refine nodup_range.filterMap fun i j x hi hj => ?_
  exact ((find?_key_eq_some h).mp hi).2.symm.trans ((find?_key_eq_some h).mp hj).2

theorem flatMap_inRank (f : α → List β) :
    (inRank n key l).flatMap f = (placed n key l).flatMap fun slot => (slot.map f).getD [] := by
  rw [inRank]
  induction placed n key l with
  | nil => rfl
  | cons slot slots ih =>
    cases slot with
    | none => exact ih
    | some x => exact congrArg (f x ++ ·) ih

theorem sum_inRank (f : α → Nat) :
    ((placed n key l).map fun slot => (slot.map f).getD 0).sum = ((inRank n key l).map f).sum := by
  rw [inRank]
  induction placed n key l with
  | nil => rfl
  | cons slot slots ih =>
    cases slot with
    | none => exact (Nat.zero_add _).trans ih
    | some x => exact congrArg (f x + ·) ih

/-! ## Grouping by rank -/

theorem flatMap_filter_key (key : α → Nat) {l : List α} {n : Nat} (h : ∀ x ∈ l, key x < n) :
    ((range n).flatMap fun k => l.filter fun x => key x = k).Perm l := by
  have hbelow : ∀ n, ((range n).flatMap fun k => l.filter fun x => key x = k).Perm
      (l.filter fun x => key x < n) := by
    intro n
    induction n with
    | zero => simp
    | succ n ih =>
      rw [range_succ, flatMap_append, flatMap_singleton]
      have hsplit := filter_append_perm (fun x => decide (key x < n))
        (l.filter fun x => key x < n + 1)
      rw [filter_filter, filter_filter] at hsplit
      refine (ih.append_right _).trans ((List.Perm.of_eq ?_).trans hsplit)
      congr 1
      · refine filter_congr fun x _ => ?_
        rw [← Bool.decide_and, decide_eq_decide]
        omega
      · refine filter_congr fun x _ => ?_
        rw [← decide_not, ← Bool.decide_and, decide_eq_decide]
        omega
  refine (hbelow n).trans (List.Perm.of_eq ?_)
  exact filter_eq_self.mpr fun x hx => decide_eq_true (h x hx)

theorem flatMap_eq_of_unique {S : List Nat} (hS : S.Nodup) {f : Nat → List β}
    (h : ∀ s ∈ S, s ≠ k → f s = []) : S.flatMap f = if k ∈ S then f k else [] := by
  induction S with
  | nil => rfl
  | cons s S ih =>
    rw [nodup_cons] at hS
    rw [forall_mem_cons] at h
    rw [flatMap_cons, ih hS.2 h.2]
    by_cases hk : s = k
    · subst hk
      rw [if_neg hS.1, if_pos mem_cons_self, append_nil]
    · rw [h.1 hk]
      simp [Ne.symm hk]

end Pdc.Lib
