import LargeNeighborhood.Chart.Columns
import LargeNeighborhood.Number.Scalar
import LargeNeighborhood.Search.Selector

set_option autoImplicit false

/-! # Shares of the weights

The weights of a pool at the end of each segment become a table with one row for each operator
and segment: the weight, and its share of all weights of the pool in that segment, which is the
probability of the operator's selection. An operator that a snapshot does not list has no weight
there; of one that it lists more than once the last weight counts. Where the iteration is
undefined there is no share.

The rows go by operator, in the order in which the operators first appear, and within one
operator by segment. The table has columns `iteration` and `weight` of its own: an operator of
the first name is not seen, one of the second is refused.
-/

namespace LargeNeighborhood

structure ShareRow (ν : Type) where
  iteration : Quantity
  operator : String
  weight : Option ν
  share : Option ν
  pool : Role

namespace Shares

/-- The weights of one pool at the end of one segment, by name. -/
abbrev Weights (ν : Type) := List (String × ν)

/-- The names in all snapshots, in the order in which they first appear. -/
def names {ν : Type} (snapshots : List (Weights ν)) : List String :=
  (snapshots.flatMap fun s => s.map Prod.fst).eraseDups

/-- The operators that the table shows. -/
def operators {ν : Type} (snapshots : List (Weights ν)) : List String :=
  (names snapshots).filter fun name => name != "iteration"

variable {ν : Type} [Scalar ν]

/-- The weight of an operator in a snapshot, unless it is missing or undefined. -/
def weight? (s : Weights ν) (name : String) : Option ν :=
  (s.reverse.lookup name).filter fun x => !decide (Scalar.undefined x)

/-- The iterations of a table. Whole numbers become reals when there is a real among them. They
stay what they are if one of them takes more than 64 bits, or if some are negative and others
need 64 bits without a sign. -/
def iterations (qs : List Quantity) : List Quantity :=
  let isNegative (q : Quantity) : Bool := q.isWhole && decide (q < Quantity.whole 0)
  let split := qs.any isNegative && qs.any Quantity.isLarge
  if qs.any Quantity.isWide || split || qs.all Quantity.isWhole then qs
  else qs.map fun q => .real q.toFloat

/-- Adds up numbers and keeps what each addition has rounded away, to be taken off the next
number. -/
def compensatedSum (xs : List ν) : ν :=
  (xs.foldl (fun (sum, lost) x =>
      let y := x - lost
      let next := sum + y
      let lost := next - sum - y
      (next, if Scalar.undefined lost then Scalar.zero else lost))
    (Scalar.zero, Scalar.zero)).1

/-- The sum of all weights of a pool in the segments that end at an iteration. -/
def total (operators : List String) (rows : List (Quantity × Weights ν)) (iteration : Quantity) :
    ν :=
  let here := (rows.filter fun row => row.1.same iteration).map Prod.snd
  compensatedSum (operators.flatMap fun name => here.filterMap fun s => weight? s name)

/-- The rows of one pool. -/
def poolTable (pool : Role) (iteration : List Quantity) (snapshots : List (Weights ν)) :
    Except Fault (List (ShareRow ν)) := do
  if snapshots ≠ [] ∧ snapshots.length ≠ iteration.length then throw .unequalLengths
  let operators := operators snapshots
  if "weight" ∈ operators then throw (.reservedName "weight")
  let rows := (iterations iteration).zip snapshots
  return operators.flatMap fun operator =>
    rows.map fun (iteration, s) =>
      let weight := weight? s operator
      { iteration, operator, weight, pool,
        share :=
          -- a row of an undefined iteration belongs to no group
          if iteration.same iteration then weight.map fun x => x / total operators rows iteration
          else none }

/-- The rows of the destroy operators and then those of the repair operators. -/
def table (w : WeightColumns ν) : Except Fault (List (ShareRow ν)) := do
  let destroy ← column "destroy_weights" w.destroy
  let iteration ← column "iteration" w.iteration
  let first ← poolTable .destroy iteration destroy
  let repair ← column "repair_weights" w.repair
  return first ++ (← poolTable .repair iteration repair)

end Shares

end LargeNeighborhood
