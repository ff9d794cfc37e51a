import LargeNeighborhood.Search.Criterion

set_option autoImplicit false

/-! # Simulated annealing

A candidate that costs `d` more than the current solution is accepted with probability
`exp (-d / T)` at temperature `T`; one that costs no more is always accepted. The start
temperature is such that a candidate five per cent above the initial cost is accepted with a
given probability. Every decision multiplies the temperature by the cooling rate. At a
temperature that is not positive the exponential is replaced by its limit.

The exponential is a parameter: all that matters of it is that it grows and that `exp 0 = 1`.
-/

namespace LargeNeighborhood

structure Annealing where
  startTemperature : Float
  temperature : Float
  rate : Float

namespace Annealing

/-- The worsening, as a share of the initial cost, that the start temperature is tuned to. -/
def worsening : Float := 0.05

/-- Strictly between zero and one. -/
def isProperShare (q : Quantity) : Prop := Quantity.whole 0 < q ∧ q < Quantity.whole 1

instance (q : Quantity) : Decidable (isProperShare q) :=
  inferInstanceAs (Decidable (Quantity.whole 0 < q ∧ q < Quantity.whole 1))

/-- Annealing from an initial cost, where `w` is the probability of accepting a candidate five
per cent above it at the start, and `rate` the cooling rate. -/
def create (initial w rate : Quantity) : Except Fault Annealing := do
  if ¬ isProperShare w then throw (.startProbability w)
  if ¬ isProperShare rate then throw (.coolingRate rate)
  if initial < Quantity.whole 0 then throw (.negativeObjective initial)
  let start := -worsening * (← initial.toReal?) / w.toFloat.log
  return ⟨start, start, rate.toFloat⟩

/-- The probability of accepting a candidate whose cost is below the current one by `gain`,
which is negative for a worsening. The exponent is cut off at zero. -/
def probability (exp : Float → Float) (a : Annealing) (gain : Quantity) : Except Fault Float :=
  if 0 < a.temperature then do
    let x ← gain.div? (.real a.temperature)
    return exp (if x < 0 then x else 0)
  else .ok (if Quantity.whole 0 ≤ gain then 1 else 0)

def cool (a : Annealing) : Annealing := { a with temperature := a.temperature * a.rate }

/-- Accepts when the draw does not exceed the probability. The draw is made before the
probability is computed; a failed decision does not cool. -/
def judge {ω : Type} (exp : Float → Float) (unit : ω → Except Fault Float × ω)
    (current candidate : Cost) (a : Annealing) (w : ω) : Except Fault Bool × Annealing × ω :=
  match current.sub? candidate with
  | .error fault => (.error fault, a, w)
  | .ok gain =>
      let (u, w) := unit w
      match u.bind fun u => (a.probability exp gain).map fun p => decide (u ≤ p) with
      | .error fault => (.error fault, a, w)
      | .ok accepted => (.ok accepted, a.cool, w)

end Annealing

end LargeNeighborhood
