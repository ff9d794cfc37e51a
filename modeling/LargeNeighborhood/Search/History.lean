import LargeNeighborhood.Number.Quantity

set_option autoImplicit false

/-! # The history of a run

A run records one `Entry` per iteration, written after the iteration is over, and one `Snapshot`
of the weights per segment. The columns that a chart or a report reads are views of the rows, so
they always belong together.
-/

namespace LargeNeighborhood

/-- What became of a candidate. -/
inductive Move where
  | newBest
  | better
  | accepted
  | rejected
  deriving DecidableEq, Repr

def Move.name : Move → String
  | .newBest => "new_best"
  | .better => "better"
  | .accepted => "accepted"
  | .rejected => "rejected"

/-- One iteration: the costs after it, the cost of its candidate, the reading of the criterion,
and the operators that made the candidate. -/
structure Entry (ν π : Type) where
  iteration : Nat
  best : Cost
  current : Cost
  candidate : Cost
  reading : π
  move : Move
  novel : Bool
  score : ν
  destroyer : String
  repairer : String

/-- The weights of both pools at the end of a segment. -/
structure Snapshot (ν : Type) where
  iteration : Nat
  destroy : List (String × ν)
  repair : List (String × ν)

/-- What a run has recorded so far. -/
structure Trace (ν π : Type) where
  entries : Array (Entry ν π)
  snapshots : Array (Snapshot ν)

namespace Trace

variable {ν π : Type}

def empty : Trace ν π := ⟨#[], #[]⟩

/-- Whether a run has found anything better than its initial solution. -/
def improved (t : Trace ν π) : Bool := t.entries.any fun e => e.move == .newBest

end Trace

end LargeNeighborhood
