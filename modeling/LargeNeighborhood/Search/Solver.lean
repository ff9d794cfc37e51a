import LargeNeighborhood.Number.Arithmetic
import LargeNeighborhood.Report
import LargeNeighborhood.Search.Walk

set_option autoImplicit false

/-! # The solver

A solver holds a criterion, the operators registered with it and the record of its last run. A
run first checks its request; a refused request changes nothing and prints nothing. It then
starts over with equal weights and an empty record, whatever earlier runs have left, and walks
the requested number of iterations. It prints a heading, a line for every new best solution and
every so many iterations, and a closing line. When a run fails midway, the solver is left with
what was recorded until then.
-/

namespace LargeNeighborhood

/-- What is asked of a run. -/
structure Request where
  rewards : List Quantity
  reaction : Quantity
  iterations : Quantity

/-- A solver over solutions `σ`, told apart by keys `κ`, in a world `ω`, with a criterion whose
gauge is `γ` and reads `π`. -/
structure Solver (σ κ ω γ π : Type) where
  landscape : Landscape σ κ
  criterion : Criterion σ ω γ π
  criterionName : String
  draw : ω → Except Fault Float × ω
  /-- A segment ends with every iteration that is a multiple of it. -/
  segment : Quantity
  /-- A line is printed every so many iterations; a number that is not positive means never. -/
  logInterval : Quantity
  selector : Selector Float Nat (Action σ ω)
  trace : Trace Float π

/-- What a run has led to: its result, the text printed, and the solver, the gauge and the world
as they are afterwards. -/
structure Outcome (σ κ ω γ π : Type) where
  result : Except Fault (Rated σ)
  printed : String
  solver : Solver σ κ ω γ π
  gauge : γ
  world : ω

namespace Solver

variable {σ κ ω γ π : Type}

/-- The reaction factor before the first run. -/
def standardReaction : Float := 0.8

/-- A solver without operators. What is offered as a criterion may not be one; `kind` says what
kind of thing it is. -/
def create (landscape : Landscape σ κ) (criterion : Option (Criterion σ ω γ π))
    (kind criterionName : String) (draw : ω → Except Fault Float × ω)
    (segment logInterval : Quantity) :
    Except Fault (Solver σ κ ω γ π) :=
  match criterion with
  | none => .error (.notACriterion kind)
  | some criterion =>
      if segment < Quantity.whole 1 then .error (.segmentTooShort segment)
      else .ok { landscape, criterion, criterionName, draw, segment, logInterval,
                 selector := .empty standardReaction, trace := .empty }

/-- Registers an operator with the solver. -/
def register (s : Solver σ κ ω γ π) (role : Role) (o : Offer (Action σ ω))
    (given : Option String) : Except Fault (Operator Float Nat (Action σ ω) × Solver σ κ ω γ π) := do
  let (op, selector) ← s.selector.register role o given
  return (op, { s with selector })

/-! ## Requests -/

/-- Zero to one, both included. -/
def isShare (q : Quantity) : Prop := Quantity.real 0.0 ≤ q ∧ q ≤ Quantity.real 1.0

instance (q : Quantity) : Decidable (isShare q) :=
  inferInstanceAs (Decidable (Quantity.real 0.0 ≤ q ∧ q ≤ Quantity.real 1.0))

/-- Checks a request against the operators registered. -/
def check (s : Solver σ κ ω γ π) (r : Request) : Except Fault Unit :=
  if s.selector.destroyers.isEmpty then .error .noDestroyOperator
  else if s.selector.repairers.isEmpty then .error .noRepairOperator
  else if r.iterations < Quantity.whole 1 then .error (.tooFewIterations r.iterations)
  else if ¬ isShare r.reaction then .error (.reactionOutOfRange r.reaction)
  else if r.rewards.length ≠ 3 then .error (.rewardCount r.rewards.length)
  else if r.rewards.any fun q => decide (q < Quantity.whole 0) then
    .error (.negativeReward r.rewards)
  else .ok ()

/-- The three rewards of a request, as reals. -/
def rewards? : List Quantity → Except Fault (Rewards Float)
  | [newBest, better, accepted] => do
      return ⟨← newBest.toReal?, ← better.toReal?, ← accepted.toReal?⟩
  | rewards => .error (.rewardCount rewards.length)

/-! ## What a run prints -/

def opening : String := "\n--- Starting ALNS ---\n"

def heading (s : Solver σ κ ω γ π) (r : Request) (initial : String) : String :=
  "  Iterations: " ++ r.iterations.text ++ ", Segment: " ++ s.segment.text ++
    ", Reaction: " ++ r.reaction.text ++ ", Acceptance: " ++ s.criterionName ++
    ", Initial Cost: " ++ initial ++ "\n"

/-- Whether a line is due after an iteration whatever its outcome. -/
def isDue (logInterval : Quantity) (iteration : Nat) : Bool :=
  decide (Quantity.whole 0 < logInterval) && logInterval.divides iteration

/-- The line after an iteration, if there is one. Its numbers are written in the order of the
line, and the note on a new best solution before all others. -/
def progress (iterations logInterval : Quantity) (e : Entry Float π) : Except Fault String :=
  if e.move = .newBest ∨ isDue logInterval e.iteration then do
    let best ← e.best.fixed? 2
    let note := if e.move = .newBest then "(NEW BEST: " ++ best ++ ")" else ""
    let current ← e.current.fixed? 2
    return "  Iter " ++ Report.padLeft 6 (toString e.iteration) ++ "/" ++ iterations.text ++
      " | Best: " ++ Report.padRight 10 best ++ " | Current: " ++ Report.padRight 10 current ++
      " | Ops: " ++ e.destroyer ++ "/" ++ e.repairer ++ " | " ++ note ++ "\n"
  else return ""

def closing (best : String) : String := "--- ALNS complete. Best cost found: " ++ best ++ " ---\n"

/-! ## Runs -/

/-- The solver with equal weights, an empty record and the reaction factor of a request. -/
def startOver (s : Solver σ κ ω γ π) (reaction : Float) : Solver σ κ ω γ π :=
  { s with selector := { s.selector with reaction }.reset, trace := .empty }

/-- What stays the same during a run. -/
def setting (s : Solver σ κ ω γ π) (r : Request) (rewards : Rewards Float) :
    Setting σ κ ω γ π Float :=
  { landscape := s.landscape, criterion := s.criterion, draw := s.draw, rewards,
    closes := s.segment.divides, announce := progress r.iterations s.logInterval }

/-- The start of a walk. -/
def departure (s : Solver σ κ ω γ π) (initial : Rated σ) (gauge : γ) (world : ω)
    (printed : String) : Walk σ κ ω γ π Float :=
  { world, gauge, selector := s.selector, best := initial, current := initial, accepted := [],
    trace := s.trace, printed }

/-- The outcome of a run that has stopped, or come to its end, at a walk. -/
def outcome (s : Solver σ κ ω γ π) (w : Walk σ κ ω γ π Float) (result : Except Fault (Rated σ))
    (printed : String) : Outcome σ κ ω γ π :=
  { result, printed, solver := { s with selector := w.selector, trace := w.trace },
    gauge := w.gauge, world := w.world }

/-- The outcome of a run that has ended before its walk began. -/
def refuse (s : Solver σ κ ω γ π) (gauge : γ) (world : ω) (printed : String) (fault : Fault) :
    Outcome σ κ ω γ π :=
  { result := .error fault, printed, solver := s, gauge, world }

/-- How many iterations a request asks for. -/
def count? (r : Request) : Except Fault Nat :=
  match r.iterations with
  | .whole n => .ok n.toNat
  | .real _ => .error (.uncountable r.iterations)

/-- Walks from a rated solution and prints the closing line. -/
def travel [BEq κ] (s : Solver σ κ ω γ π) (r : Request) (rewards : Rewards Float)
    (w : Walk σ κ ω γ π Float) : Outcome σ κ ω γ π :=
  match count? r with
  | .error fault => s.outcome w (.error fault) w.printed
  | .ok n =>
      match Walk.run (s.setting r rewards) n w with
      | .error (fault, w) => s.outcome w (.error fault) w.printed
      | .ok w =>
          match w.best.cost.fixed? 2 with
          | .error fault => s.outcome w (.error fault) w.printed
          | .ok best => s.outcome w (.ok w.best) (w.printed ++ closing best)

/-- Runs the solver from an initial solution. -/
def run [BEq κ] (s : Solver σ κ ω γ π) (initial : σ) (r : Request) (gauge : γ) (world : ω) :
    Outcome σ κ ω γ π :=
  match s.check r with
  | .error fault => s.refuse gauge world "" fault
  | .ok () =>
      let s := s.startOver r.reaction.toFloat
      match rewards? r.rewards with
      | .error fault => s.refuse gauge world "" fault
      | .ok rewards =>
          -- from here on the opening has been printed
          match s.landscape.rate initial with
          | .error fault => s.refuse gauge world opening fault
          | .ok start =>
              match start.cost.fixed? 2 with
              | .error fault => s.refuse gauge world opening fault
              | .ok cost =>
                  s.travel r rewards
                    (s.departure start gauge world (opening ++ s.heading r cost))

end Solver

end LargeNeighborhood
