import LargeNeighborhood.Report
import LargeNeighborhood.Tour.Basic

set_option autoImplicit false

/-! # Feasibility of a tour

A tour is feasible when its route makes every visit of the problem exactly once and its bank is
empty. `Tour.issues` lists what speaks against that, in this order: visits made more than once,
visits neither on the route nor in the bank, numbers that are no visits, visits in the bank, and
a known cost that differs from the one computed anew. Each kind of issue appears at most once
and names all visits it is about, in increasing order.
-/

namespace LargeNeighborhood

inductive Issue where
  | duplicate (visits : List Int)
  | missing (visits : List Int)
  | unknown (visits : List Int)
  | unassigned (visits : List Int)
  | mismatch (known recomputed : Int)
  deriving DecidableEq, Repr

def Issue.text : Issue → String
  | .duplicate vs => "DUPLICATE visits on route: " ++ intListText vs
  | .missing vs => "MISSING visits (neither on route nor in bank): " ++ intListText vs
  | .unknown vs => "UNKNOWN visit ids: " ++ intListText vs
  | .unassigned vs => "UNASSIGNED visits left in bank: " ++ intListText vs
  | .mismatch known recomputed =>
      "MISMATCH: objective (" ++ toString known ++ ") vs. recomputed cost (" ++
        toString recomputed ++ ")"

namespace Tour

/-- The members of a list, each once, in increasing order. -/
def sortedSet (vs : List Int) : List Int :=
  (vs.mergeSort fun a b => decide (a ≤ b)).eraseDups

/-- The visits made more than once. -/
def duplicates (t : Tour) : List Int :=
  sortedSet (t.route.filter fun v => decide (1 < t.route.count v))

/-- The visits neither on the route nor in the bank. -/
def missing (t : Tour) : List Int :=
  sortedSet (t.problem.visits.filter fun v => decide (v ∉ t.route ∧ v ∉ t.bank))

/-- The numbers on the route or in the bank that are no visits. -/
def unknown (t : Tour) : List Int :=
  sortedSet ((t.route ++ t.bank).filter fun v => decide (v ∉ t.problem.visits))

/-- An issue about visits, if there are any. -/
def issueOf (make : List Int → Issue) (vs : List Int) : List Issue :=
  if vs.isEmpty then [] else [make vs]

/-- The issues that can be seen without the distances. -/
def visitIssues (t : Tour) : List Issue :=
  issueOf .duplicate t.duplicates ++ issueOf .missing t.missing ++
    issueOf .unknown t.unknown ++ issueOf .unassigned t.sortedBank

/-- All issues of a tour with a known cost. The cost is computed anew, which fails for a route
with visits that have no distances. -/
def issues (t : Tour) (cost : Except Fault Int) : Except Fault (List Issue) := do
  let recomputed ← t.objective
  let known ← cost
  return t.visitIssues ++ if recomputed = known then [] else [.mismatch known recomputed]

/-- Numbered lines, from one on. -/
def numbered (texts : List String) : String :=
  String.join (texts.mapIdx fun i text => "  " ++ toString (i + 1) ++ ". " ++ text ++ "\n")

/-- The report on the feasibility of a tour. -/
def validation (t : Tour) (cost : Except Fault Int) : Report :=
  [.ok ("\n" ++ Report.rule '=' 60 ++ "\n--- SOLUTION FEASIBILITY VALIDATION ---\n" ++
     Report.rule '=' 60 ++ "\n"),
   do
     match ← t.issues cost with
     | [] => return "\n[VALIDATION SUCCESS] Tour visits every node exactly once.\n"
     | found =>
         return "\n[VALIDATION FAILED] Found the following potential issues:\n" ++
           numbered (found.map Issue.text),
   Report.line (Report.rule '=' 60)]

end Tour

end LargeNeighborhood
