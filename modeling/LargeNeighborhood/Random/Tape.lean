import LargeNeighborhood.Random.Generator
import LargeNeighborhood.Number.Arithmetic
import LargeNeighborhood.Position

set_option autoImplicit false

/-! # Draws from a tape

A tape is a list of reals read round and round: every draw takes the next one, and after the
last comes the first again. An empty tape has no next one, so its draws fail. A draw below `n` is
the whole part of the real times `n`. Nothing keeps the reals inside the unit interval, so such a
draw may miss its range.
-/

namespace LargeNeighborhood

structure Tape where
  values : Array Float
  position : Nat

namespace Tape

def ofList (values : List Float) : Tape := ⟨values.toArray, 0⟩

/-- The next real. Its place is found by dividing by the length of the tape. -/
def unit (t : Tape) : Except Fault Float × Tape :=
  match t.values[t.position % t.values.size]? with
  | some u => (.ok u, { t with position := t.position + 1 })
  | none => (.error .divisionByZero, t)

def below (n : Int) (t : Tape) : Except Fault Int × Tape :=
  let (u, t) := t.unit
  (do (Quantity.real ((← u) * (← (Quantity.whole n).toReal?))).truncate?, t)

/-- An index up to `i`, refused when the draw names no item. -/
def index (size : Nat) (i : Nat) (t : Tape) : Except Fault Nat × Tape :=
  match t.below (i + 1) with
  | (.error fault, t) => (.error fault, t)
  | (.ok j, t) =>
      match Position.resolve? size j with
      | some k => (.ok k, t)
      | none => (.error .indexOutOfRange, t)

def shuffle (xs : List Int) (t : Tape) : Except Fault (List Int) × Tape :=
  shuffleDown (index xs.length) (xs.length - 1) xs.toArray t

end Tape

end LargeNeighborhood
