import LargeNeighborhood.Report
import LargeNeighborhood.Tour.Basic

set_option autoImplicit false

/-! # The final report on a tour

The report shows the cost of a tour, what is on its route and in its bank, the shortest, longest
and mean leg, and the route itself. Legs are added up as whole numbers of any size here.
-/

namespace LargeNeighborhood

namespace Tour

/-- The lengths of the legs of a route with at least two visits. -/
def legLengths (t : Tour) : Except Fault (List Int) :=
  if t.route.length < 2 then .ok []
  else (legs t.route).mapM fun (a, b) => do return (← t.problem.distances.get a b).toInt

/-- The least of a list of whole numbers; zero for the empty list. -/
def least : List Int → Int
  | [] => 0
  | n :: ns => ns.foldl min n

/-- The greatest of a list of whole numbers; zero for the empty list. -/
def greatest : List Int → Int
  | [] => 0
  | n :: ns => ns.foldl max n

/-- The sum of a list of whole numbers. -/
def total (ns : List Int) : Int := ns.foldl (· + ·) 0

/-- Shortest, longest and mean leg of a tour. -/
structure LegStatistics where
  shortest : Int
  longest : Int
  mean : Float

def legStatistics (t : Tour) : Except Fault LegStatistics := do
  match ← t.legLengths with
  | [] => return ⟨0, 0, 0.0⟩
  | lengths =>
      let mean ← (Quantity.whole (total lengths)).div? (.whole lengths.length)
      return ⟨least lengths, greatest lengths, mean⟩

/-- A text in a column of at least twenty characters. -/
def column (s : String) : String := Report.padRight 20 s

/-- The width of the three columns of the leg statistics. -/
def tableWidth : Nat := 62

/-- The visits of a route and the first one again. -/
def closedRoute (route : List Int) : List Int := route ++ route.take 1

/-- The report on a tour with a known cost, and the seconds it took to find it. -/
def details (t : Tour) (cost : Except Fault Int) (seconds : Quantity) : Report :=
  [.ok ("\n" ++ Report.rule '#' 70 ++ "\n### FINAL SOLUTION ###\n" ++ Report.rule '#' 70 ++ "\n"),
   do return "Total execution time: " ++ (← seconds.fixed? 2) ++ " seconds\n",
   .ok "\n[SUMMARY]\n",
   do return "Objective Cost: " ++ (← (Quantity.whole (← cost)).fixed? 2) ++ "\n",
   do return "  -> Route Length: " ++ (← (Quantity.whole (← t.routeCost).toInt).fixed? 2) ++ "\n",
   Report.line ("Visits on Route: " ++ toString t.route.length ++ " / " ++
     toString t.problem.dimension),
   Report.line ("Unassigned Visits: " ++ toString t.bank.length),
   .ok (if t.bank.isEmpty then "" else "  -> IDs: " ++ intListText t.sortedBank ++ "\n"),
   do
     let s ← t.legStatistics
     let line := Report.rule '-' tableWidth ++ "\n"
     return "\n[EDGE STATISTICS]\n" ++ line ++ column "Shortest Edge" ++ " " ++
       column "Longest Edge" ++ " " ++ column "Mean Edge" ++ "\n" ++ line ++
       column (toString s.shortest) ++ " " ++ column (toString s.longest) ++ " " ++
       column (fixed 2 s.mean) ++ "\n" ++ line,
   .ok ("\n[TOUR]\n" ++ arrows (closedRoute t.route) ++ "\n")]

end Tour

end LargeNeighborhood
