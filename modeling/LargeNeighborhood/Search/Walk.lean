import LargeNeighborhood.Search.Criterion
import LargeNeighborhood.Search.History
import LargeNeighborhood.Search.Selector

set_option autoImplicit false

/-! # The walk of a search

A search walks from solution to solution. In each iteration a destroy and a repair operator,
drawn by weight, turn the current solution into a candidate; the criterion decides whether the
candidate becomes the current solution; the best solution is replaced when the current one has
become cheaper. Both operators are credited for what came of it: most for a new best solution,
less for a novel candidate below the current cost, least for a novel one that was accepted.
A candidate is novel when nothing equal to it was accepted before. At the end of a segment the
weights adapt.

`iterate` is one iteration: `attempt` makes a candidate and has it judged, `settle` draws the
consequences. It either completes, with its entry recorded, or stops with a fault; then the walk
is returned as the fault left it, and nothing of the iteration is recorded. The
solutions, the world, the gauge of the criterion and the numbers of the weights are all
parameters.
-/

namespace LargeNeighborhood

/-- What an operator does: it makes a solution from a solution, may change the world, and may
fail. -/
abbrev Action (σ ω : Type) := σ → ω → Except Fault σ × ω

/-- How a search sees solutions: what they cost, and the key by which it tells them apart. -/
structure Landscape (σ κ : Type) where
  cost : σ → Except Fault Cost
  key : σ → Except Fault κ

/-- What the operators of an iteration earn. -/
structure Rewards (ν : Type) where
  newBest : ν
  better : ν
  accepted : ν

/-- What stays the same during a walk. `closes` says after which iterations a segment ends, and
`announce` is the text printed after an iteration. -/
structure Setting (σ κ ω γ π ν : Type) where
  landscape : Landscape σ κ
  criterion : Criterion σ ω γ π
  draw : ω → Except Fault ν × ω
  rewards : Rewards ν
  closes : Nat → Bool
  announce : Entry ν π → Except Fault String

/-- Where a walk stands. `accepted` holds the keys of all accepted candidates, the last one
first. -/
structure Walk (σ κ ω γ π ν : Type) where
  world : ω
  gauge : γ
  selector : Selector ν Nat (Action σ ω)
  best : Rated σ
  current : Rated σ
  accepted : List κ
  trace : Trace ν π
  printed : String

/-- What the iteration found out about its candidate. -/
structure Verdict where
  accepted : Bool
  novel : Bool
  /-- The candidate costs less than the current solution did. -/
  better : Bool
  newBest : Bool

namespace Verdict

def move (v : Verdict) : Move :=
  if v.newBest then .newBest
  else if v.accepted && v.better then .better
  else if v.accepted then .accepted
  else .rejected

def score {ν : Type} [Scalar ν] (r : Rewards ν) (v : Verdict) : ν :=
  -- a new best solution is rewarded whether it is novel or not
  if v.accepted && v.newBest then r.newBest
  else if v.novel && v.better then r.better
  else if v.novel && v.accepted then r.accepted
  else Scalar.zero

end Verdict

/-- What an iteration has tried: the operators drawn, the candidate they made with its key,
whether it is novel, and whether the criterion has accepted it. -/
structure Turn (σ κ ω ν : Type) where
  destroyer : Operator ν Nat (Action σ ω)
  repairer : Operator ν Nat (Action σ ω)
  candidate : Rated σ
  key : κ
  novel : Bool
  accepted : Bool

/-- A solution with its cost. -/
def Landscape.rate {σ κ : Type} (l : Landscape σ κ) (x : σ) : Except Fault (Rated σ) := do
  return ⟨x, ← l.cost x⟩

namespace Walk

variable {σ κ ω γ π ν : Type}

/-- Where a walk has stopped, and why. -/
abbrev Stop (σ κ ω γ π ν : Type) := Fault × Walk σ κ ω γ π ν

/-- Stops the walk where it stands when a step has failed. -/
def orStop {α : Type} (w : Walk σ κ ω γ π ν) : Except Fault α → Except (Stop σ κ ω γ π ν) α
  | .ok a => .ok a
  | .error fault => .error (fault, w)

/-- Lets an operator act on a solution. -/
def perform (w : Walk σ κ ω γ π ν) (action : Action σ ω) (x : σ) :
    Except (Stop σ κ ω γ π ν) (σ × Walk σ κ ω γ π ν) :=
  let (result, world) := action x w.world
  let w := { w with world }
  (w.orStop result).map fun y => (y, w)

/-- Lets the criterion decide on a candidate. -/
def judge (c : Criterion σ ω γ π) (w : Walk σ κ ω γ π ν) (candidate : Rated σ) :
    Except (Stop σ κ ω γ π ν) (Bool × Walk σ κ ω γ π ν) :=
  let (result, gauge, world) := c.judge w.best w.current candidate w.gauge w.world
  let w := { w with gauge, world }
  (w.orStop result).map fun accepted => (accepted, w)

/-- Moves to an accepted candidate and remembers its key. -/
def accept (w : Walk σ κ ω γ π ν) (candidate : Rated σ) (key : κ) : Walk σ κ ω γ π ν :=
  { w with current := candidate, accepted := key :: w.accepted }

/-- Whether the current solution has become cheaper than the best one. -/
def improves (w : Walk σ κ ω γ π ν) : Bool := decide (w.current.cost < w.best.cost)

/-- Makes the current solution the best one if it has become cheaper. -/
def keepBest (w : Walk σ κ ω γ π ν) : Walk σ κ ω γ π ν :=
  if w.improves then { w with best := w.current } else w

/-- Adds a row to the history. -/
def record (w : Walk σ κ ω γ π ν) (e : Entry ν π) : Walk σ κ ω γ π ν :=
  { w with trace := { w.trace with entries := w.trace.entries.push e } }

variable [Scalar ν]

/-- Draws an operator of one kind. -/
def choose (draw : ω → Except Fault ν × ω) (w : Walk σ κ ω γ π ν) (role : Role) :
    Except (Stop σ κ ω γ π ν) (Operator ν Nat (Action σ ω) × Walk σ κ ω γ π ν) :=
  let (result, selector, world) := w.selector.select draw role w.world
  let w := { w with selector, world }
  (w.orStop result).map fun op => (op, w)

/-- Adapts the weights and takes a snapshot of them when iteration `i` closes a segment. -/
def closeSegment (closes : Nat → Bool) (i : Nat) (w : Walk σ κ ω γ π ν) : Walk σ κ ω γ π ν :=
  if closes i then
    let selector := w.selector.adapt
    let snapshot := ⟨i, Pool.weights selector.destroyers, Pool.weights selector.repairers⟩
    { w with selector, trace := { w.trace with snapshots := w.trace.snapshots.push snapshot } }
  else w

/-- Draws the operators, lets them make a candidate of the current solution, and has it judged.
The solutions of the walk and its trace stay as they are. -/
def attempt [BEq κ] (s : Setting σ κ ω γ π ν) (w : Walk σ κ ω γ π ν) :
    Except (Stop σ κ ω γ π ν) (Turn σ κ ω ν × Walk σ κ ω γ π ν) := do
  let (destroyer, w) ← w.choose s.draw .destroy
  let (repairer, w) ← w.choose s.draw .repair
  let (opened, w) ← w.perform destroyer.action w.current.state
  let (closed, w) ← w.perform repairer.action opened
  let candidate ← w.orStop (s.landscape.rate closed)
  let key ← w.orStop (s.landscape.key closed)
  let novel := !w.accepted.contains key
  let (accepted, w) ← w.judge s.criterion candidate
  return ({ destroyer, repairer, candidate, key, novel, accepted }, w)

/-- Completes iteration `i` once its candidate is judged: moves, credits the operators, closes
the segment if it is over, and records the entry. -/
def settle (s : Setting σ κ ω γ π ν) (i : Nat) (t : Turn σ κ ω ν) (w : Walk σ κ ω γ π ν) :
    Entry ν π × Walk σ κ ω γ π ν :=
  let better := decide (t.candidate.cost < w.current.cost)
  let moved := if t.accepted then w.accept t.candidate t.key else w
  let verdict : Verdict :=
    { accepted := t.accepted, novel := t.novel, better, newBest := moved.improves }
  let score := verdict.score s.rewards
  let kept := moved.keepBest
  let credited := { kept with
    selector := kept.selector.credit t.destroyer.index t.repairer.index score }
  let closed := credited.closeSegment s.closes i
  -- the row shows what the iteration leaves, and the gauge behind its decision
  let entry : Entry ν π :=
    { iteration := i, best := closed.best.cost, current := closed.current.cost,
      candidate := t.candidate.cost, reading := s.criterion.reading closed.gauge,
      move := verdict.move, novel := t.novel, score, destroyer := t.destroyer.name,
      repairer := t.repairer.name }
  (entry, closed.record entry)

/-- Prints what there is to print after an iteration. -/
def announce (s : Setting σ κ ω γ π ν) (e : Entry ν π) (w : Walk σ κ ω γ π ν) :
    Except (Stop σ κ ω γ π ν) (Walk σ κ ω γ π ν) :=
  (w.orStop (s.announce e)).map fun text => { w with printed := w.printed ++ text }

/-- Iteration `i`. -/
def iterate [BEq κ] (s : Setting σ κ ω γ π ν) (w : Walk σ κ ω γ π ν) (i : Nat) :
    Except (Stop σ κ ω γ π ν) (Walk σ κ ω γ π ν) := do
  let (turn, w) ← w.attempt s
  let (entry, w) := w.settle s i turn
  w.announce s entry

/-- The first `n` iterations. -/
def run [BEq κ] (s : Setting σ κ ω γ π ν) (n : Nat) (w : Walk σ κ ω γ π ν) :
    Except (Stop σ κ ω γ π ν) (Walk σ κ ω γ π ν) :=
  (List.range' 1 n).foldlM (iterate s) w

end Walk

end LargeNeighborhood
