import LargeNeighborhood.Tour.Distances
import LargeNeighborhood.Tour.Nested

set_option autoImplicit false

/-! # Tour problems

A problem has a name, a list of visits, a distance table with one row and one column for each
visit, and possibly the points that the distances come from. Two problems with the same contents
are still two problems: a tag tells them apart.

`Problem.create` takes a table as nested lists, `Problem.ofPoints` takes points and measures.
-/

namespace LargeNeighborhood

structure Problem where
  tag : Nat
  name : String
  visits : List Int
  distances : DistanceTable
  points : Option (List (List Float))
  square : distances.size = visits.length

namespace Problem

def dimension (p : Problem) : Nat := p.visits.length

/-- A whole number as an entry of a table, refused when it does not fit. -/
def entry? (n : Int) : Except Fault Int64 :=
  if Fault.fits n then .ok (Int64.ofInt n) else .error .overflow

/-- A problem with a given table. Visits and distances lose their fractions. -/
def create (tag : Nat) (name : String) (visits : List Quantity) (table : Nested) :
    Except Fault Problem := do
  let visits ← visits.mapM Quantity.truncate?
  let shape ← table.shape
  let entries ← table.leaves.mapM fun q => do entry? (← q.truncate?)
  let entries := entries.toArray
  let n := visits.length
  if h : shape = [n, n] ∧ entries.size = n * n then
    return { tag, name, visits, points := none, square := rfl,
             distances := { size := n, entries, complete := h.2 } }
  else throw (.tableShape shape n)

/-- A problem whose visits are points, numbered from zero, with their straight distances. -/
def measured (tag : Nat) (name : String) (points : List (List Float)) : Problem where
  tag := tag
  name := name
  visits := (List.range points.length).map fun (i : Nat) => (i : Int)
  distances := .ofPoints points.toArray
  points := some points
  square := by simp

/-- A problem of points given as nested lists. Points that are arrays themselves have distances
with more axes than a table; measuring takes one axis more than the points have. -/
def ofPoints (tag : Nat) (name : String) (points : Nested) : Except Fault Problem := do
  match ← points.reals with
  | ([n, d], xs) => return measured tag name (pieces d n xs)
  | (n :: m :: inner, _) =>
      if Nested.axisLimit ≤ inner.length + 2 then throw .tooManyAxes
      else throw (.tableShape (n :: n :: (m :: inner).dropLast) n)
  | _ => throw .tooFewAxes

/-- Replaces one distance. The place is looked for before the distance is looked at. -/
def withDistance (p : Problem) (a b : Int) (d : Quantity) : Except Fault Problem := do
  let _ ← p.distances.get a b
  let entry ← entry? (← d.truncate?)
  match h : p.distances.set a b entry with
  | .ok distances =>
      return { p with distances, square := (DistanceTable.size_set h).trans p.square }
  | .error fault => throw fault

end Problem

end LargeNeighborhood
