import Mathlib.Algebra.BigOperators.Group.List.Basic
import Mathlib.Tactic.Ring

/-!
# 64-bit sums and products

A loop that adds up or multiplies `uint64_t` numbers returns the sum or the
product modulo `2 ^ 64`, whatever wraps on the way.
-/

namespace Pdc.Lib

theorem toNat_ofNat64 {n : Nat} (h : n < 2 ^ 64) : (UInt64.ofNat n).toNat = n := by
  rw [UInt64.toNat_ofNat', Nat.mod_eq_of_lt h]

variable {α : Type*}

theorem toNat_foldl_mul (f : α → UInt64) : ∀ (xs : List α) (acc : UInt64),
    (xs.foldl (fun s x => s * f x) acc).toNat =
      acc.toNat * (xs.map fun x => (f x).toNat).prod % 2 ^ 64 := by
  intro xs
  induction xs with
  | nil =>
    intro acc
    rw [List.map_nil, List.prod_nil, Nat.mul_one]
    exact (Nat.mod_eq_of_lt acc.toNat_lt).symm
  | cons x xs ih =>
    intro acc
    rw [List.foldl_cons, ih, UInt64.toNat_mul, Nat.mod_mul_mod, List.map_cons, List.prod_cons,
      Nat.mul_assoc]

end Pdc.Lib
