import LargeNeighborhood.Number.Arithmetic
import LargeNeighborhood.Number.Scalar

set_option autoImplicit false

/-! # Checked quantities

A checked quantity is a quantity, or the fault that was met in computing it. A fault passes
through all further arithmetic, so checked quantities are scalars, and whoever keeps one looks at
the fault in the end. They also serve as tallies.
-/

namespace LargeNeighborhood

/-- A quantity, or the fault met in computing it. -/
structure Checked where
  result : Except Fault Quantity

namespace Checked

def of (q : Quantity) : Checked := ⟨.ok q⟩

/-- Computes with two quantities, unless there is a fault already. -/
def combine (f : Quantity → Quantity → Except Fault Quantity) (a b : Checked) : Checked :=
  ⟨do f (← a.result) (← b.result)⟩

/-- Compares two quantities; a fault compares to nothing. -/
def holds (p : Quantity → Quantity → Bool) (a b : Checked) : Bool :=
  match a.result, b.result with
  | .ok x, .ok y => p x y
  | _, _ => false

/-- The quantity itself, zero in place of a fault. -/
def value (a : Checked) : Quantity :=
  match a.result with
  | .ok q => q
  | .error _ => .whole 0

instance : Scalar Checked where
  add := combine Quantity.add?
  sub := combine Quantity.sub?
  mul := combine Quantity.mul?
  div := combine Quantity.ratio?
  lt a b := holds (fun x y => decide (x < y)) a b = true
  le a b := holds (fun x y => decide (x ≤ y)) a b = true
  ofNat n := of (.whole n)
  one := of (.real 1.0)
  decLt _ _ := inferInstanceAs (Decidable (_ = true))
  decLe _ _ := inferInstanceAs (Decidable (_ = true))
  text a := a.value.text

instance : Tally Checked Checked where
  none := of (.whole 0)
  next := combine Quantity.add? (of (.whole 1))
  isPositive a := decide (Quantity.whole 0 < a.value)
  share := combine Quantity.ratio?

end Checked

end LargeNeighborhood
