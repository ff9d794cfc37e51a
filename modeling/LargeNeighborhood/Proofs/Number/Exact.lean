import LargeNeighborhood.Number.Scalar
import Mathlib.Algebra.Order.Ring.Rat
import Mathlib.Data.Rat.Cast.Defs

set_option autoImplicit false

/-! # Exact scalars

The selection mechanism is written for any kind of scalar. Read with rational numbers, it is what
its arithmetic means before rounding.
-/

namespace LargeNeighborhood

instance : Scalar ℚ where
  ofNat n := n
  one := 1
  decLt := inferInstance
  decLe := inferInstance
  text q := toString q

namespace Scalar

@[simp] theorem zero_rat : (zero : ℚ) = 0 := Nat.cast_zero

@[simp] theorem ofNat_rat (n : ℕ) : (ofNat n : ℚ) = n := rfl

@[simp] theorem share_rat (x : ℚ) (n : ℕ) : Tally.share x n = x / n := rfl

/-- No rational number is undefined. -/
@[simp] theorem before_rat {p q : ℚ} : before p q ↔ p < q := by
  simp [before, undefined]

end Scalar

end LargeNeighborhood
