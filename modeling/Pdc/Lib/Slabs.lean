import Mathlib.Order.Monotone.Basic

/-!
# Cutting a line into slabs

A line of cells is cut at the points `f 0 ≤ f 1 ≤ …`; slab `i` runs from
`f i` to `f (i + 1)`. Between the first and the last cut every cell lies in
exactly one slab (`exists_slab`, `slab_unique`), whatever the sizes are.

The cuts used here are those of the remainder scheme: `n` slabs, the first
`x` of them of `s` cells and the rest of one more. With `s` the quotient and
`x` what the remainder leaves over, the last cut is the length of the line
(`slabCut_end`).
-/

namespace Pdc.Lib

theorem exists_slab {f : Nat → Nat} {n c : Nat} (h0 : f 0 ≤ c) (hn : c < f n) :
    ∃ i < n, f i ≤ c ∧ c < f (i + 1) := by
  induction n with
  | zero => omega
  | succ n ih =>
    by_cases hc : c < f n
    · obtain ⟨i, hi, hslab⟩ := ih hc
      exact ⟨i, by omega, hslab⟩
    · exact ⟨n, by omega, by omega, hn⟩

theorem slab_unique {f : Nat → Nat} (hf : Monotone f) {i j c : Nat} (hi : f i ≤ c ∧ c < f (i + 1))
    (hj : f j ≤ c ∧ c < f (j + 1)) : i = j := by
  rcases Nat.lt_trichotomy i j with h | h | h
  · have := hf (show i + 1 ≤ j from h)
    omega
  · exact h
  · have := hf (show j + 1 ≤ i from h)
    omega

/-- The cuts of the remainder scheme. -/
def slabCut (s x i : Nat) : Nat := if i < x then i * s else x * s + (i - x) * (s + 1)

/-- The size of a slab of the remainder scheme. -/
def slabSize (s x i : Nat) : Nat := if i < x then s else s + 1

theorem slabCut_zero (s x : Nat) : slabCut s x 0 = 0 := by
  rw [slabCut]
  split
  · exact Nat.zero_mul s
  · next h => rw [show x = 0 by omega, Nat.zero_mul, Nat.zero_mul]

theorem slabCut_succ (s x i : Nat) : slabCut s x (i + 1) = slabCut s x i + slabSize s x i := by
  rcases Nat.lt_trichotomy (i + 1) x with h | h | h
  · rw [slabCut, slabCut, slabSize, if_pos h, if_pos (by omega), if_pos (by omega), Nat.add_mul,
      Nat.one_mul]
  · rw [slabCut, slabCut, slabSize, if_neg (by omega), if_pos (by omega), if_pos (by omega), ← h,
      Nat.sub_self, Nat.zero_mul, Nat.add_zero, Nat.add_mul, Nat.one_mul]
  · rw [slabCut, slabCut, slabSize, if_neg (by omega), if_neg (by omega), if_neg (by omega),
      show i + 1 - x = i - x + 1 by omega, Nat.add_mul (i - x) 1, Nat.one_mul, Nat.add_assoc]

theorem slabCut_mono (s x : Nat) : Monotone (slabCut s x) :=
  monotone_nat_of_le_succ fun i => by rw [slabCut_succ]; exact Nat.le_add_right _ _

/-- `n` slabs of the quotient, one more cell in as many as the remainder says,
are the whole line. -/
theorem slabCut_end {d n : Nat} (hn : 0 < n) : slabCut (d / n) (n - d % n) n = d := by
  have hlt := Nat.mod_lt d hn
  have hdiv := Nat.div_add_mod d n
  rw [slabCut]
  split
  · omega
  · rw [Nat.sub_sub_self hlt.le, Nat.mul_add, Nat.mul_one, Nat.sub_mul, ← Nat.add_assoc,
      Nat.sub_add_cancel (Nat.mul_le_mul_right _ hlt.le)]
    exact hdiv

end Pdc.Lib
