import Mathlib.Tactic.Ring

/-!
# Converting a `double` to an integer

A `double` is its 64 bits: a sign, eleven bits of exponent and fifty-two of
fraction. `truncBinary64` is the integer part of the number they spell, which
is what C's conversion gives when it is defined. Words below `2 ^ 52` are
subnormal numbers, all of them below one.
-/

namespace Pdc.Lib

/-- The integer part of a `double`. An infinity and a NaN have none. -/
def truncBinary64 (bits : UInt64) : Option Int :=
  let exponent := bits.toNat / 2 ^ 52 % 2 ^ 11
  let significand := 2 ^ 52 + bits.toNat % 2 ^ 52
  let magnitude : Nat :=
    if 1075 ≤ exponent then significand * 2 ^ (exponent - 1075)
    else significand / 2 ^ (1075 - exponent)
  if exponent = 2047 then none
  else if exponent = 0 then some 0
  else some (if bits.toNat / 2 ^ 63 = 1 then -magnitude else magnitude)

theorem truncBinary64_of_lt {bits : UInt64} (h : bits.toNat < 2 ^ 52) :
    truncBinary64 bits = some 0 := by
  have hexp : bits.toNat / 2 ^ 52 % 2 ^ 11 = 0 := by omega
  rw [truncBinary64]
  simp only [hexp]
  rfl

end Pdc.Lib
