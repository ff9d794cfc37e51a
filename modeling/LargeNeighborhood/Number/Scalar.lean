import LargeNeighborhood.Number.Shortest

set_option autoImplicit false

/-! # Scalars: the numbers that weights are made of

Weights, scores and the draws that select by them are measured in one kind of number. Searching
uses 64-bit reals; nothing in the selection mechanism depends on that, so it is written for any
`Scalar` and can be read with exact numbers as well. How often an operator was used is counted
by a `Tally`, for which natural numbers do with any kind of scalar.
-/

namespace LargeNeighborhood

/-- Numbers with arithmetic, a decidable order and a written form. -/
class Scalar (ν : Type) extends Add ν, Sub ν, Mul ν, Div ν, LT ν, LE ν where
  ofNat : Nat → ν
  /-- One, as the measure of a weight. -/
  one : ν
  decLt : DecidableLT ν
  decLe : DecidableLE ν
  text : ν → String

attribute [reducible, instance] Scalar.decLt Scalar.decLe

instance : Scalar Float where
  ofNat := Float.ofNat
  one := 1.0
  decLt := inferInstance
  decLe := inferInstance
  text := shortest

namespace Scalar

variable {ν : Type} [Scalar ν]

def zero : ν := ofNat 0

/-- An undefined number is not even at most itself. -/
def undefined (x : ν) : Prop := ¬ x ≤ x

instance (x : ν) : Decidable (undefined x) := inferInstanceAs (Decidable (¬ x ≤ x))

/-- The order of a sorted list in which undefined numbers come last, all equal. -/
def before (x y : ν) : Prop := x < y ∨ (undefined y ∧ ¬ undefined x)

instance (x y : ν) : Decidable (before x y) :=
  inferInstanceAs (Decidable (x < y ∨ (undefined y ∧ ¬ undefined x)))

/-- Numbers that are neither below nor above zero, and not undefined. -/
def isZero (x : ν) : Prop := x ≤ zero ∧ zero ≤ x

instance (x : ν) : Decidable (isZero x) := inferInstanceAs (Decidable (x ≤ zero ∧ zero ≤ x))

end Scalar

/-- Counts in which scores are divided up. -/
class Tally (ν τ : Type) where
  none : τ
  next : τ → τ
  isPositive : τ → Bool
  share : ν → τ → ν

instance {ν : Type} [Scalar ν] : Tally ν Nat where
  none := 0
  next n := n + 1
  isPositive n := decide (0 < n)
  share x n := x / Scalar.ofNat n

end LargeNeighborhood
