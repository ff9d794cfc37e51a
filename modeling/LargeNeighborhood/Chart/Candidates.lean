import LargeNeighborhood.Chart.MoveTypes

set_option autoImplicit false

/-! # The costs of all candidates

A point for each candidate, at its iteration and cost, coloured by the type of the move and
shaped by whether the candidate was novel. Points that do not lie in the plane are left out; the
legend still shows every type of move.
-/

namespace LargeNeighborhood

namespace Candidates

def fileName : String := "4_candidate_costs.png"

/-- A candidate as it is drawn. -/
structure Dot where
  x : Float
  y : Float
  color : Color
  move : String
  novel : Bool

/-- The colour of a candidate, whose type of move has to be known. -/
def color (move : String) : Except Fault Color :=
  match MoveTypes.color? move with
  | some c => .ok c
  | none => .error (.unknownMoveType move)

/-- The candidates of a history. All are coloured before one of them is placed. -/
def dots (c : Columns) : Except Fault (List Dot) := do
  let xs ← column "iteration" c.iteration
  let ys ← column "candidate_cost" c.candidate
  let moves ← column "accepted_move_type" c.move
  let novel ← column "is_novel" c.novel
  if xs.length ≠ ys.length ∨ xs.length ≠ moves.length ∨ xs.length ≠ novel.length then
    throw .unequalLengths
  let colors ← moves.mapM color
  let rows := xs.zip (ys.zip (colors.zip (moves.zip novel)))
  rows.mapM fun (x, y, color, move, novel) => do
    return { x := ← x.toReal?, y := ← y.toReal?, color, move, novel }

def isVisible (d : Dot) : Bool := d.x.isFinite && d.y.isFinite

/-- Numbers for the members of a list, in the order in which they first appear. -/
def numbered {α : Type} [BEq α] (xs : List α) : List Nat :=
  xs.map fun x => xs.eraseDups.idxOf x

def legendEntries (dots : List Dot) : List String :=
  let novel := dots.map Dot.novel
  ["accepted_move_type"] ++ (dots.map Dot.move).eraseDups ++ ["is_novel"] ++
    (if novel.contains false then ["False"] else []) ++
    (if novel.contains true then ["True"] else [])

def figure (c : Columns) (path : String) : Except Fault Figure := do
  let dots ← dots c
  let shown := dots.filter isVisible
  let scatter : Scatter :=
    { label := none, points := shown.map fun d => (d.x, d.y), colors := shown.map Dot.color,
      shapes := numbered (shown.map Dot.novel) }
  return {
    path
    title := none
    axes := [{
      title := "Candidate Cost per Iteration"
      xlabel := "Iteration"
      ylabel := "Candidate Cost"
      scatters := if shown.isEmpty then [] else [scatter]
      legend := some ⟨"Move Type", if shown.isEmpty then [] else legendEntries dots⟩ }] }

end Candidates

end LargeNeighborhood
