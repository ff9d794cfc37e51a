import LargeNeighborhood.Search.Walk
import LargeNeighborhood.Tour.Problem

set_option autoImplicit false

/-! # Tours

A tour of a problem is a route, the visits in the order in which they are made, and a bank, the
visits that wait to be put on the route. The route is closed: after the last visit it leads back
to the first. Its cost is the sum of its legs, in 64-bit arithmetic; a route with fewer than two
visits has no legs and costs nothing. Every visit in the bank costs a penalty on top.

The order of the bank does not matter. Tours of one problem are the same when their routes are
equal and their banks hold the same visits equally often, which is decided on the sorted bank.
-/

namespace LargeNeighborhood

structure Tour where
  problem : Problem
  route : List Int
  bank : List Int

namespace Tour

/-- What a visit in the bank costs. -/
def penalty : Int := 1000

/-- The tour with every visit in the bank. -/
def empty (p : Problem) : Tour := ⟨p, [], p.visits⟩

/-- Each visit of a closed route with the one after it. -/
def legs (route : List Int) : List (Int × Int) := route.zip (route.drop 1 ++ route.take 1)

/-- The cost of the route. -/
def routeCost (t : Tour) : Except Fault Int64 :=
  if t.route.length < 2 then .ok 0
  else
    (legs t.route).foldlM (fun sum (a, b) => do return sum + (← t.problem.distances.get a b)) 0

/-- The cost of the route and the penalties of the bank. -/
def objective (t : Tour) : Except Fault Int := do
  return (← t.routeCost).toInt + penalty * t.bank.length

/-- The bank in increasing order. -/
def sortedBank (t : Tour) : List Int := t.bank.mergeSort fun a b => decide (a ≤ b)

/-- The route and the sorted bank: what a tour is hashed by. -/
def content (t : Tour) : List Int × List Int := (t.route, t.sortedBank)

/-- The key by which tours are told apart. -/
def key (t : Tour) : Nat × List Int × List Int := (t.problem.tag, t.content)

/-- Whether two tours are the same. -/
def same (a b : Tour) : Bool := a.key == b.key

/-- The hash of a tour, made of its content. The problem has no part in it. -/
def hashWith (mix : List Int × List Int → UInt64) (t : Tour) : UInt64 := mix t.content

/-- How a search sees tours. -/
def landscape : Landscape Tour (Nat × List Int × List Int) where
  cost t := t.objective.map Quantity.whole
  key t := .ok t.key

/-- Visits with arrows between them. -/
def arrows (visits : List Int) : String :=
  if visits.isEmpty then "(empty)" else " -> ".intercalate (visits.map toString)

/-- A tour in one line, with its cost. -/
def text (t : Tour) (cost : Int) : String :=
  "TSPState(cost=" ++ toString cost ++ ", route=" ++ arrows t.route ++ ", bank=" ++
    intListText t.sortedBank ++ ")"

end Tour

end LargeNeighborhood
