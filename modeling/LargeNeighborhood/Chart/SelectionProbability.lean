import LargeNeighborhood.Chart.Palette
import LargeNeighborhood.Chart.Shares

set_option autoImplicit false

/-! # Selection probabilities over the segments

For each pool the shares of its operators are drawn over the iterations at which segments end,
one line for each operator, with the share of uniform selection for reference. Where several
segments end at the same iteration the mean share is drawn, and undefined shares are left out.
-/

namespace LargeNeighborhood

namespace SelectionProbability

def fileName : String := "3_operator_weights.png"

/-- How many places of a share are drawn. -/
def places : Nat := 12

/-- The points of an operator that can be drawn, by iteration. -/
def points (rows : List (ShareRow Float)) (operator : String) : List (Float × Float) :=
  let all := (rows.filter fun r => r.operator == operator).filterMap fun r =>
    r.share.map fun share => (r.iteration.toFloat, share)
  (all.filter fun (x, y) => x.isFinite && y.isFinite).mergeSort fun a b => decide (a.1 ≤ b.1)

def mean (xs : List Float) : Float := xs.foldl (· + ·) 0 / Float.ofNat xs.length

/-- Points at the same iteration are replaced by one at their mean. -/
def averaged (points : List (Float × Float)) : List (Float × Float) :=
  (points.map Prod.fst).eraseDups.map fun x =>
    (x, mean ((points.filter fun p => p.1 == x).map Prod.snd))

/-- The line of an operator, if there is anything to draw. -/
def line (rows : List (ShareRow Float)) (operator : String) (color : Color) : List Line :=
  match averaged (points rows operator) with
  | [] => []
  | points =>
      [{ label := none, color, stroke := .solid, dotted := true,
         xs := points.map fun p => .real p.1,
         ys := points.map fun p => .real (roundTo places p.2) }]

/-- The line of uniform selection among `n` operators. -/
def reference (n : Nat) : Except Fault Line := do
  let share := Quantity.real (roundTo places (← (Quantity.whole 1).div? (.whole n)))
  return { label := none, color := .grey, stroke := .dashed, dotted := false,
           xs := [.whole 0, .whole 1], ys := [share, share] }

/-- Empty names and names that begin with an underscore do not appear in a legend. -/
def legend? (operators : List String) : Option Legend :=
  match operators.filter fun name => !name.isEmpty && !name.startsWith "_" with
  | [] => none
  | entries => some ⟨"operator", entries⟩

/-- The axes of one pool. -/
def axes (kind xlabel : String) (rows : List (ShareRow Float)) : Except Fault Axes := do
  let operators := (rows.map ShareRow.operator).eraseDups
  let lines := operators.mapIdx fun i operator =>
    line rows operator (Palette.color operators.length i)
  return { title := kind ++ " Operators: Selection Probability per Segment", xlabel,
           ylabel := "Share of pool weight",
           lines := lines.flatten ++ [← reference operators.length],
           legend := legend? operators }

def figure (w : WeightColumns Float) (path : String) : Except Fault Figure := do
  let rows ← Shares.table w
  let destroy ← axes "Destroy" "iteration" (rows.filter fun r => r.pool == .destroy)
  let repair ← axes "Repair" "Iteration" (rows.filter fun r => r.pool == .repair)
  return { path, title := some "Operator Weight Evolution", axes := [destroy, repair] }

end SelectionProbability

end LargeNeighborhood
