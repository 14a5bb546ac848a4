import Mathlib.Algebra.Order.Floor.Div
import Mathlib.Data.List.Flatten
import Mathlib.Data.List.Range
import Mathlib.Tactic.Ring

/-!
# Dealing a list out in blocks

A list is cut into consecutive blocks of `n` entries, the last one of what is
left, and the blocks go to the places `0, 1, …` with one of them left out.
`flatten_blocks` says that the blocks are the list, and `ceilDiv_ceilDiv_le`
that a block size found by dividing among `k` places does not need more than
these.
-/

namespace Pdc.Lib

variable {α σ : Type*} {n c i k : Nat}

theorem ceilDiv_pos (hc : 0 < c) (hn : 0 < n) : 0 < c ⌈/⌉ n := by
  rw [Nat.pos_iff_ne_zero]
  intro hzero
  have hle := (ceilDiv_le_iff_le_mul hn).mp (le_of_eq hzero)
  omega

theorem le_mul_ceilDiv (c : Nat) (hn : 0 < n) : c ≤ n * (c ⌈/⌉ n) :=
  (ceilDiv_le_iff_le_mul hn).mp le_rfl

theorem mul_lt_of_lt_ceilDiv (hn : 0 < n) (h : i < c ⌈/⌉ n) : n * i < c := by
  by_contra hle
  exact absurd ((ceilDiv_le_iff_le_mul hn).mpr (Nat.le_of_not_lt hle)) (Nat.not_le.mpr h)

theorem ceilDiv_ceilDiv_le (hc : 0 < c) (hk : 0 < k) : c ⌈/⌉ (c ⌈/⌉ k) ≤ k := by
  rw [ceilDiv_le_iff_le_mul (ceilDiv_pos hc hk), Nat.mul_comm]
  exact le_mul_ceilDiv c hk

/-! ## Blocks -/

/-- The `i`-th block of `n` entries. -/
def block (n : Nat) (l : List α) (i : Nat) : List α := (l.drop (n * i)).take n

/-- All blocks of a list. -/
def blocks (n : Nat) (l : List α) : List (List α) :=
  (List.range (l.length ⌈/⌉ n)).map (block n l)

theorem length_block (n : Nat) (l : List α) (i : Nat) :
    (block n l i).length = min n (l.length - n * i) := by
  rw [block, List.length_take, List.length_drop]

section

variable {n i : Nat} {l : List α} (hn : 0 < n)
include hn

theorem block_ne_nil (h : i < l.length ⌈/⌉ n) : block n l i ≠ [] := by
  have hlt := mul_lt_of_lt_ceilDiv hn h
  rw [← List.length_pos_iff, length_block]
  omega

theorem length_block_of_succ_lt (h : i + 1 < l.length ⌈/⌉ n) : (block n l i).length = n := by
  have hlt := mul_lt_of_lt_ceilDiv hn h
  rw [Nat.mul_add] at hlt
  rw [length_block]
  omega

theorem length_block_last
    (h : i + 1 = l.length ⌈/⌉ n) : (block n l i).length = l.length - n * i := by
  have hle := le_mul_ceilDiv l.length hn
  rw [← h, Nat.mul_add] at hle
  rw [length_block]
  omega

end

theorem flatten_map_block (n : Nat) (l : List α) (k : Nat) :
    ((List.range k).map (block n l)).flatten = l.take (n * k) := by
  induction k with
  | zero => simp
  | succ k ih =>
    rw [List.range_succ, List.map_append, List.flatten_append, ih, Nat.mul_add, List.take_add]
    simp [block]

theorem flatten_blocks (hn : 0 < n) (l : List α) : (blocks n l).flatten = l := by
  rw [blocks, flatten_map_block, List.take_of_length_le (le_mul_ceilDiv _ hn)]

/-! ## Places -/

/-- The `i`-th place when `m` is left out. -/
def skipping (m i : Nat) : Nat := if i < m then i else i + 1

theorem skipping_ne (m i : Nat) : skipping m i ≠ m := by
  unfold skipping
  split <;> omega

theorem skipping_injective (m : Nat) : Function.Injective (skipping m) := by
  intro i j h
  unfold skipping at h
  split at h <;> split at h <;> omega

theorem skipping_lt {m size : Nat} (h : i + 1 < size) : skipping m i < size := by
  unfold skipping
  split <;> omega

theorem skipping_succ (m i : Nat) :
    skipping m (i + 1) = if skipping m i + 1 = m then skipping m i + 2 else skipping m i + 1 := by
  unfold skipping
  split <;> split <;> split <;> omega

/-! ## Folding over the blocks -/

/-- The invariant rule for a loop that counts up. -/
theorem foldl_range_induction {f : σ → Nat → σ} {I : Nat → σ → Prop}
    (hstep : ∀ i s, i < k → I i s → I (i + 1) (f s i)) {s : σ} (h : I 0 s) :
    I k ((List.range k).foldl f s) := by
  have hall : ∀ j, j ≤ k → I j ((List.range j).foldl f s) := by
    intro j
    induction j with
    | zero => intro _; exact h
    | succ j ih =>
      intro hj
      rw [List.range_succ, List.foldl_append]
      exact hstep j _ (by omega) (ih (by omega))
  exact hall k le_rfl

theorem foldl_eq_foldl_blocks (hn : 0 < n) (f : σ → α → σ) (s : σ) (l : List α) :
    l.foldl f s = (List.range (l.length ⌈/⌉ n)).foldl (fun s i => (block n l i).foldl f s) s := by
  conv_lhs => rw [← flatten_blocks hn l]
  rw [List.foldl_flatten, blocks, List.foldl_map]

end Pdc.Lib
