import LargeNeighborhood.Chart.Columns
import LargeNeighborhood.Chart.Figure

set_option autoImplicit false

/-! # The convergence of a run

The best and the current cost are drawn over the iterations. When the criterion has a reading
in every iteration, the readings are drawn on axes of their own over the same iterations. The
title stands on the axes drawn last.
-/

namespace LargeNeighborhood

namespace Convergence

def fileName : String := "1_convergence.png"

def title : String := "Algorithm Convergence"

/-- The readings, if there are any and none of them is missing. -/
def readings? (c : Columns) : Option (List Quantity) :=
  match (c.reading.getD []).mapM id with
  | some (r :: rs) => some (r :: rs)
  | _ => none

/-- The axes of the costs. -/
def costs (c : Columns) (title : String) : Except Fault Axes := do
  let iteration ← column "iteration" c.iteration
  let best ← column "best_cost" c.best
  let bestLine ← Line.ofColumns "Best Cost" .green .solid iteration best
  let current ← column "current_cost" c.current
  let currentLine ← Line.ofColumns "Current Cost" .cornflowerBlue .solid iteration current
  return { title, xlabel := "Iteration", ylabel := "Cost", lines := bestLine ++ currentLine,
           legend := some ⟨"", ["Best Cost", "Current Cost"]⟩ }

/-- The axes of the readings. -/
def readingAxes (c : Columns) (readings : List Quantity) : Except Fault Axes := do
  let iteration ← column "iteration" c.iteration
  let label := "Temperature / Threshold"
  let lines ← Line.ofColumns label ⟨0xd62728⟩ .dashed iteration readings
  return { title, xlabel := "", ylabel := "Acceptance Parameter", lines,
           legend := some ⟨"", [label]⟩ }

def figure (c : Columns) (path : String) : Except Fault Figure := do
  match readings? c with
  | none => return { path, title := none, axes := [← costs c title] }
  | some readings =>
      let first ← costs c ""
      return { path, title := none, axes := [first, ← readingAxes c readings] }

end Convergence

end LargeNeighborhood
