import LargeNeighborhood.Chart.Columns
import LargeNeighborhood.Chart.Figure

set_option autoImplicit false

/-! # How often each type of move was made

A pie with a wedge for each type of move, the most frequent first and among equals the one that
was made first. The share of a wedge is computed in 32 bits.
-/

namespace LargeNeighborhood

namespace MoveTypes

def fileName : String := "2_acceptance_criteria.png"

/-- The colour of a type of move that has one. -/
def color? (name : String) : Option Color :=
  if name = Move.newBest.name then some .gold
  else if name = Move.better.name then some .limeGreen
  else if name = Move.accepted.name then some .coral
  else if name = Move.rejected.name then some .lightGrey
  else none

/-- Every name with the number of times it occurs. -/
def counts (names : List String) : List (String × Nat) :=
  let first := names.eraseDups.map fun name => (name, names.count name)
  first.mergeSort fun a b => decide (b.2 ≤ a.2)

/-- A share in per cent, with one place. -/
def percent (count total : Nat) : String :=
  let share := Float32.ofNat count / Float32.ofNat total
  fixed 1 (100 * share).toFloat ++ "%"

def figure (names : List String) (path : String) : Figure :=
  let wedges := counts names
  let captions := wedges.map Prod.fst ++ wedges.map fun (_, n) => percent n names.length
  { path, title := none,
    axes := [{ title := "Move Acceptance Distribution", xlabel := "", ylabel := "",
               captions := captions.map fun text => ⟨text, none⟩,
               wedges := wedges.map fun (name, _) => (color? name).getD .grey }] }

end MoveTypes

end LargeNeighborhood
