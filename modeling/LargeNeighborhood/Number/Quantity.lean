import LargeNeighborhood.Number.Shortest

set_option autoImplicit false

/-! # Quantities: whole numbers and reals side by side

Costs, thresholds, rewards and the like are given either as whole numbers of any size or as
64-bit reals. The two are written differently (`1` and `1.0`) but compared by value: whole
numbers with each other at any size, a whole number with a real without rounding either.
An undefined real is neither below, above nor equal to anything.
-/

namespace LargeNeighborhood

/-- A whole number of any size, or a 64-bit real. -/
inductive Quantity where
  | whole (n : Int)
  | real (x : Float)
  deriving Inhabited, DecidableEq

/-- The cost of a solution. -/
abbrev Cost := Quantity

namespace Quantity

/-- How two quantities compare by value; `none` when one of them is undefined. -/
def compare? : Quantity → Quantity → Option Ordering
  | .whole a, .whole b => some (compare a b)
  | .whole a, .real y => Binary.compareWhole a (.ofFloat y)
  | .real x, .whole b => (Binary.compareWhole b (.ofFloat x)).map Ordering.swap
  | .real x, .real y =>
      if x < y then some .lt else if y < x then some .gt else if x == y then some .eq else none

instance : LT Quantity := ⟨fun a b => compare? a b = some .lt⟩

instance : LE Quantity := ⟨fun a b => compare? a b = some .lt ∨ compare? a b = some .eq⟩

instance : DecidableLT Quantity := fun a b => inferInstanceAs (Decidable (compare? a b = some .lt))

instance : DecidableLE Quantity := fun a b =>
  inferInstanceAs (Decidable (compare? a b = some .lt ∨ compare? a b = some .eq))

/-- Equality by value: `8` and `8.0` are the same, an undefined real is not the same as
itself. -/
def same (a b : Quantity) : Bool := compare? a b == some .eq

@[simp] theorem whole_lt_whole (a b : Int) : Quantity.whole a < Quantity.whole b ↔ a < b := by
  show some (compare a b) = some Ordering.lt ↔ a < b
  rw [Option.some_inj, Int.compare_eq_lt]

@[simp] theorem whole_le_whole (a b : Int) : Quantity.whole a ≤ Quantity.whole b ↔ a ≤ b := by
  show (some (compare a b) = some Ordering.lt ∨ some (compare a b) = some Ordering.eq) ↔ a ≤ b
  rw [Option.some_inj, Option.some_inj, Int.compare_eq_lt, Int.compare_eq_eq, Int.le_iff_lt_or_eq]

@[simp] theorem same_whole_whole (a b : Int) :
    same (.whole a) (.whole b) = true ↔ a = b := by
  show (some (compare a b) == some Ordering.eq) = true ↔ a = b
  rw [beq_iff_eq, Option.some_inj, Int.compare_eq_eq]

def isWhole : Quantity → Bool
  | .whole _ => true
  | .real _ => false

/-- Whole numbers that take more than 64 bits. -/
def isWide : Quantity → Bool
  | .whole n => decide (n < Int64.minValue.toInt ∨ (UInt64.size : Int) ≤ n)
  | .real _ => false

/-- Whole numbers above those of 64 bits with a sign. -/
def isLarge : Quantity → Bool
  | .whole n => decide (Int64.maxValue.toInt < n)
  | .real _ => false

/-- Whether a number is a whole multiple of a quantity. Nothing is a multiple of an infinite or
undefined one. -/
def divides (q : Quantity) (n : Nat) : Bool :=
  match q with
  | .whole d => decide ((n : Int) % d = 0)
  | .real x =>
      match Binary.ofFloat x with
      | .finite _ m e =>
          let (num, den) := Binary.magnitude m e
          decide (n * den % num = 0)
      | _ => false

/-- The nearest real, infinite when the whole number is out of range. -/
def toFloat : Quantity → Float
  | .whole n => .ofInt n
  | .real x => x

/-- How a quantity is written: a whole number by its digits, a real by its shortest decimal. -/
def text : Quantity → String
  | .whole n => toString n
  | .real x => shortest x

/-- Quantities in brackets, separated by commas. -/
def listText (qs : List Quantity) : String := "[" ++ ", ".intercalate (qs.map text) ++ "]"

end Quantity

/-- Whole numbers in brackets, separated by commas. -/
def intListText (ns : List Int) : String := "[" ++ ", ".intercalate (ns.map toString) ++ "]"

end LargeNeighborhood
