import LargeNeighborhood.Fault
import LargeNeighborhood.Search.History

set_option autoImplicit false

/-! # The history in columns

Charts are drawn from the columns of a history. The columns of a recorded run are views of its
rows; columns from elsewhere may differ in length, and some may be missing.
-/

namespace LargeNeighborhood

/-- The columns of a history that charts are drawn from. -/
structure Columns where
  iteration : Option (List Quantity)
  best : Option (List Quantity)
  current : Option (List Quantity)
  candidate : Option (List Quantity)
  reading : Option (List (Option Quantity))
  move : Option (List String)
  novel : Option (List Bool)

/-- The weights of both pools at the end of each segment, in columns. -/
structure WeightColumns (ν : Type) where
  iteration : Option (List Quantity)
  destroy : Option (List (List (String × ν)))
  repair : Option (List (List (String × ν)))

/-- A column that has to be there. -/
def column {α : Type} (name : String) : Option (List α) → Except Fault (List α)
  | some values => .ok values
  | none => .error (.missingColumn name)

namespace Trace

variable {ν : Type}

/-- The columns of a recorded run. -/
def columns (t : Trace ν (Option Quantity)) : Columns where
  iteration := some (t.entries.toList.map fun e => .whole e.iteration)
  best := some (t.entries.toList.map Entry.best)
  current := some (t.entries.toList.map Entry.current)
  candidate := some (t.entries.toList.map Entry.candidate)
  reading := some (t.entries.toList.map Entry.reading)
  move := some (t.entries.toList.map fun e => e.move.name)
  novel := some (t.entries.toList.map Entry.novel)

/-- The snapshots of a recorded run. -/
def weightColumns {π : Type} (t : Trace ν π) : WeightColumns ν where
  iteration := some (t.snapshots.toList.map fun s => .whole s.iteration)
  destroy := some (t.snapshots.toList.map Snapshot.destroy)
  repair := some (t.snapshots.toList.map Snapshot.repair)

end Trace

end LargeNeighborhood
