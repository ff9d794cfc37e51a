import LargeNeighborhood.Random.Generator
import LargeNeighborhood.Tour.Basic

set_option autoImplicit false

/-! # Cheapest insertion

The visits of the bank are put on the route one by one, in random order, each at the place where
the way over it is shortest: between the visits `a` and `b` a visit `v` costs the distance from
`a` to `v` and from `v` to `b`. Of several cheapest places the first is taken, the place in
front of the route being the one between its last and its first visit.
-/

namespace LargeNeighborhood

namespace Insertion

def name : String := "GreedyRepair"

/-- Each visit of a closed route with the one before it. -/
def slots (route : List Int) : List (Int × Int) :=
  (route.drop (route.length - 1) ++ route.take (route.length - 1)).zip route

/-- The cost of the way over `v` at each place of a route. -/
def slotCosts (table : DistanceTable) (v : Int) (route : List Int) : Except Fault (List Int64) :=
  (slots route).mapM fun (a, b) => do return (← table.get a v) + (← table.get v b)

/-- The index of the least member, the first of several; zero for the empty list. -/
def firstLeast : List Int64 → Nat
  | [] => 0
  | cost :: costs => go cost 0 1 costs
where
  /-- `least`, found at index `found`, is the least so far; the list goes on at index `next`. -/
  go (least : Int64) (found next : Nat) : List Int64 → Nat
    | [] => found
    | cost :: costs =>
        if cost < least then go cost next (next + 1) costs else go least found (next + 1) costs

/-- Puts one visit on the route. -/
def insert (table : DistanceTable) (route : List Int) (v : Int) : Except Fault (List Int) :=
  if route.isEmpty then .ok [v]
  else do
    let costs ← slotCosts table v route
    return route.insertIdx (firstLeast costs) v

variable {ω : Type}

/-- Puts every visit of the bank on the route. -/
def apply (g : Generator ω) : Action Tour ω := fun t w =>
  match g.shuffle t.bank w with
  | (.error fault, w) => (.error fault, w)
  | (.ok order, w) =>
      match order.foldlM (insert t.problem.distances) t.route with
      | .error fault => (.error fault, w)
      | .ok route => (.ok { t with route, bank := [] }, w)

end Insertion

/-- What is printed of the first tour. -/
def constructionLine (cost : String) : String :=
  "--- Greedy construction complete. Initial cost: " ++ cost ++ " ---\n"

end LargeNeighborhood
