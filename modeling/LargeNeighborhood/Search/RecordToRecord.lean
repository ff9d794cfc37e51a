import LargeNeighborhood.Search.Criterion

set_option autoImplicit false

/-! # Record-to-record travel

A candidate is accepted when the share of its cost by which it lies above the best cost is below
a threshold. The threshold falls by the same step at every decision, from its start down to its
finish, and stays there. A candidate that costs nothing is always accepted.
-/

namespace LargeNeighborhood

/-- A falling threshold, measured in any kind of number that can be compared. -/
structure RecordToRecord (ν : Type) where
  start : ν
  finish : ν
  step : ν
  threshold : ν
  deriving DecidableEq

namespace RecordToRecord

variable {ν : Type}

/-- A threshold at its start, with the step that leads down to its finish in a number of steps. -/
def fresh (sub div : ν → ν → Except Fault ν) (start finish steps : ν) :
    Except Fault (RecordToRecord ν) := do
  return ⟨start, finish, ← div (← sub start finish) steps, start⟩

/-- The share of a candidate's cost by which it lies above the best cost. -/
def share (sub div : ν → ν → Except Fault ν) (best candidate : ν) : Except Fault ν := do
  div (← sub candidate best) candidate

variable [LT ν] [DecidableLT ν]

/-- One step down by subtraction, but not below the finish. -/
def lower (sub : ν → ν → Except Fault ν) (r : RecordToRecord ν) :
    Except Fault (RecordToRecord ν) := do
  let next ← sub r.threshold r.step
  return { r with threshold := if r.finish < next then next else r.finish }

/-- Whether a candidate is accepted, given the gap as a share of its cost. -/
def accepts (gap : Cost → Cost → Except Fault ν) (best candidate : Cost)
    (r : RecordToRecord ν) : Except Fault Bool :=
  if candidate.same (.whole 0) then .ok true
  else (gap best candidate).map fun share => decide (share < r.threshold)

/-- Decides with the threshold of the moment and lowers it afterwards. A failed decision leaves
it as it is. -/
def judge (sub : ν → ν → Except Fault ν) (gap : Cost → Cost → Except Fault ν)
    (best candidate : Cost) (r : RecordToRecord ν) : Except Fault Bool × RecordToRecord ν :=
  match r.accepts gap best candidate, r.lower sub with
  | .ok accepted, .ok lowered => (.ok accepted, lowered)
  | .ok _, .error fault => (.error fault, r)
  | .error fault, _ => (.error fault, r)

end RecordToRecord

/-- How far a candidate lies above the best cost, measured in quantities. -/
def relativeGap (best candidate : Cost) : Except Fault Quantity :=
  RecordToRecord.share Quantity.sub? Quantity.ratio? best candidate

/-- A threshold that falls from `start` to `finish` in a number of steps. -/
def RecordToRecord.create (start finish steps : Quantity) :
    Except Fault (RecordToRecord Quantity) := do
  if steps ≤ Quantity.whole 0 then throw (.thresholdSteps steps)
  if finish < Quantity.whole 0 then throw (.negativeThreshold finish)
  if start < finish then throw (.risingThreshold finish start)
  fresh Quantity.sub? Quantity.ratio? start finish steps

end LargeNeighborhood
