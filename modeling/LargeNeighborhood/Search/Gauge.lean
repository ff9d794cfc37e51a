import LargeNeighborhood.Search.Annealing
import LargeNeighborhood.Search.RecordToRecord
import LargeNeighborhood.Random.Generator
import LargeNeighborhood.Text.Blank
import LargeNeighborhood.Text.Uppercase

set_option autoImplicit false

/-! # The built-in criteria

Hill climbing accepts what costs less than the current solution; simulated annealing and
record-to-record travel have modules of their own. A `Gauge` is one of the three with its state,
and `Gauge.criterion` the criterion that all of them share. `Gauge.named` picks one by name, in
any case and with blanks around it.
-/

namespace LargeNeighborhood

inductive Gauge where
  | hillClimbing
  | annealing (a : Annealing)
  | recordToRecord (r : RecordToRecord Quantity)

namespace Gauge

def hillClimbingName : String := "HILL_CLIMBING"

def annealingName : String := "SIMULATED_ANNEALING"

def recordToRecordName : String := "RECORD_TO_RECORD"

def name : Gauge → String
  | .hillClimbing => hillClimbingName
  | .annealing _ => annealingName
  | .recordToRecord _ => recordToRecordName

/-- The temperature or the threshold. -/
def reading : Gauge → Option Quantity
  | .hillClimbing => none
  | .annealing a => some (.real a.temperature)
  | .recordToRecord r => some r.threshold

/-- Decides on a candidate by its cost, the current cost and the best cost. -/
def judge {ω : Type} (exp : Float → Float) (unit : ω → Except Fault Float × ω)
    (best current candidate : Cost) (g : Gauge) (w : ω) : Except Fault Bool × Gauge × ω :=
  match g with
  | .hillClimbing => (.ok (decide (candidate < current)), g, w)
  | .annealing a =>
      let (result, a, w) := a.judge exp unit current candidate w
      (result, .annealing a, w)
  | .recordToRecord r =>
      let (result, r) := r.judge Quantity.sub? relativeGap best candidate
      (result, .recordToRecord r, w)

/-- The criterion that a gauge stands for. -/
def criterion {σ ω : Type} (exp : Float → Float) (unit : ω → Except Fault Float × ω) :
    Criterion σ ω Gauge (Option Quantity) where
  judge best current candidate g w := judge exp unit best.cost current.cost candidate.cost g w
  reading := reading

/-- The standard settings of simulated annealing. -/
def standardAnnealing (initial : Cost) : Except Fault Gauge := do
  return .annealing (← Annealing.create initial (.real 0.5) (.real 0.9998))

/-- The standard settings of record-to-record travel. -/
def standardRecordToRecord (steps : Quantity) : Except Fault Gauge := do
  return .recordToRecord (← RecordToRecord.create (.real 0.05) (.real 0.0) steps)

/-- The built-in criterion of a given name, in its standard settings. -/
def named (text : String) (initial : Cost) (steps : Quantity) : Except Fault Gauge :=
  let key := upper (strip text)
  if key = hillClimbingName then .ok .hillClimbing
  else if key = annealingName then standardAnnealing initial
  else if key = recordToRecordName then standardRecordToRecord steps
  else .error (.unknownCriterion text)

end Gauge

end LargeNeighborhood
