import LargeNeighborhood.Fault

set_option autoImplicit false

/-! # Arithmetic on quantities

Two whole numbers are added, subtracted and multiplied exactly, and divided with one rounding of
the exact quotient.
As soon as a real takes part, the whole number becomes the nearest real first. A whole number
out of the range of the reals, and a quotient of whole numbers out of that range, is refused;
arithmetic on reals overflows silently to an infinity.
-/

namespace LargeNeighborhood

namespace Quantity

/-- The nearest real, refused when there is no finite one for a whole number. -/
def toReal? : Quantity → Except Fault Float
  | .whole n =>
      let x := Float.ofInt n
      if x.isInf then .error .overflow else .ok x
  | .real x => .ok x

def add? : Quantity → Quantity → Except Fault Quantity
  | .whole a, .whole b => .ok (.whole (a + b))
  | a, b => do return .real ((← a.toReal?) + (← b.toReal?))

def mul? : Quantity → Quantity → Except Fault Quantity
  | .whole a, .whole b => .ok (.whole (a * b))
  | a, b => do return .real ((← a.toReal?) * (← b.toReal?))

def sub? : Quantity → Quantity → Except Fault Quantity
  | .whole a, .whole b => .ok (.whole (a - b))
  | a, b => do return .real ((← a.toReal?) - (← b.toReal?))

def div? : Quantity → Quantity → Except Fault Float
  | .whole a, .whole b =>
      if b = 0 then .error .divisionByZero
      else
        -- whole numbers of any size are divided exactly, and rounded once
        let x := nearestRatio a b
        if x.isInf then .error .overflow else .ok x
  | a, b => do
      let x ← a.toReal?
      let y ← b.toReal?
      if y == 0 then .error .divisionByZero else .ok (x / y)

/-- A quotient as a quantity. -/
def ratio? (a b : Quantity) : Except Fault Quantity := do return .real (← a.div? b)

/-- A quantity with a fixed number of places, as a real. -/
def fixed? (places : Nat) (q : Quantity) : Except Fault String := do
  return fixed places (← q.toReal?)

/-- The whole part of a quantity, of any size. -/
def truncate? : Quantity → Except Fault Int
  | .whole n => .ok n
  | .real x =>
      match Binary.ofFloat x with
      | .undefined => .error .undefinedWhole
      | .infinite _ => .error .overflow
      | .finite negative m e => .ok (Binary.truncate negative m e)

@[simp] theorem sub?_whole_whole (a b : Int) :
    sub? (.whole a) (.whole b) = .ok (.whole (a - b)) := rfl

end Quantity

/-- The whole part of a real that is known to be finite and not negative; zero otherwise. -/
def wholePart (x : Float) : Nat :=
  match Binary.ofFloat x with
  | .finite negative m e => (Binary.truncate negative m e).toNat
  | _ => 0

end LargeNeighborhood
