import LargeNeighborhood.Number.Arithmetic

set_option autoImplicit false

/-! # Nested lists of numbers

Tables and points are given as lists of lists. They form an array when the lists at each depth
have one length; `shape?` gives these lengths from the outside in, and `leaves` the numbers in
reading order.
-/

namespace LargeNeighborhood

inductive Nested where
  | number (q : Quantity)
  | list (items : List Nested)
  deriving Inhabited

namespace Nested

/-- The shape that all members of a list have in common; the empty list has none to agree on. -/
def agree : List (List Nat) → Option (List Nat)
  | [] => some []
  | shape :: shapes => if shapes.all (· == shape) then some shape else none

mutual

/-- The lengths at each depth, `none` if the lists are ragged. -/
def shape? : Nested → Option (List Nat)
  | .number _ => some []
  | .list items => do
      let shapes ← shapes? items
      let inner ← agree shapes
      return shapes.length :: inner

def shapes? : List Nested → Option (List (List Nat))
  | [] => some []
  | item :: items => do
      let shape ← shape? item
      let shapes ← shapes? items
      return shape :: shapes

end

mutual

/-- The numbers in reading order. -/
def leaves : Nested → List Quantity
  | .number q => [q]
  | .list items => leavesOf items

def leavesOf : List Nested → List Quantity
  | [] => []
  | item :: items => leaves item ++ leavesOf items

end

end Nested

/-- Cuts a list into pieces of a given length. -/
def pieces {α : Type} (length : Nat) : Nat → List α → List (List α)
  | 0, _ => []
  | count + 1, xs => xs.take length :: pieces length count (xs.drop length)

/-- How many axes an array may have. -/
def Nested.axisLimit : Nat := 64

/-- The shape of an array. Lists that are too deep do not form one. -/
def Nested.shape (nested : Nested) : Except Fault (List Nat) :=
  match nested.shape? with
  | some shape => if axisLimit < shape.length then .error .ragged else .ok shape
  | none => .error .ragged

/-- A shape together with the reals of an array of that shape. -/
def Nested.reals (nested : Nested) : Except Fault (List Nat × List Float) := do
  let shape ← nested.shape
  return (shape, ← nested.leaves.mapM Quantity.toReal?)

/-- The rows of an array with two axes. -/
def Nested.points (nested : Nested) : Except Fault (List (List Float)) := do
  match ← nested.reals with
  | ([n, d], xs) => return pieces d n xs
  | _ => throw .tooFewAxes

end LargeNeighborhood
