import LargeNeighborhood.Random.Generator
import LargeNeighborhood.Tour.Basic

set_option autoImplicit false

/-! # Removing visits from a route

Three operators take a share of the visits off the route and append them to the bank: visits at
random, the visits with the longest legs behind them, or a stretch of the route that starts at
random. The share is the destruction degree; the number of visits is cut off to a whole number.
-/

namespace LargeNeighborhood

/-- Which visits are removed. -/
inductive Removal where
  | random
  | worst
  | path
  deriving DecidableEq, Repr

namespace Removal

def name : Removal → String
  | .random => "RandomRemoval"
  | .worst => "WorstRemoval"
  | .path => "PathRemoval"

/-- The destruction degree that an operator has unless another is given. -/
def standardDegree : Quantity := .real 0.25

/-- A destruction degree, refused when it is no share. -/
def degree? (q : Quantity) : Except Fault Float :=
  if Quantity.real 0.0 ≤ q ∧ q ≤ Quantity.real 1.0 then .ok q.toFloat
  else .error (.destructionDegree q)

/-- How many of `n` visits are removed. -/
def count (degree : Float) (n : Nat) : Nat := wholePart (Float.ofNat n * degree)

/-- The tour with a shorter route and the removed visits at the end of its bank. -/
def result (t : Tour) (route removed : List Int) : Tour :=
  { t with route, bank := t.bank ++ removed }

variable {ω : Type}

/-- Takes visits at random positions off a route, one after the other. A position that takes more
than 64 bits overflows. -/
def takeRandom (g : Generator ω) : Nat → List Int → List Int → ω →
    Except Fault (List Int × List Int) × ω
  | 0, route, removed, w => (.ok (route, removed), w)
  | n + 1, route, removed, w =>
      match g.below route.length w with
      | (.error fault, w) => (.error fault, w)
      | (.ok i, w) =>
          -- like any index, a draw below zero counts from the end
          match Position.resolve? route.length i with
          | none => (.error (if Fault.fits i then .indexOutOfRange else .overflow), w)
          | some k =>
              takeRandom g n (route.eraseIdx k) (removed ++ (route[k]?).toList) w

/-- The visits of a route in the order of their outgoing legs, the longest first; among equals
the order of the route is kept. -/
def byLeg (t : Tour) : Except Fault (List Int) := do
  let costed ← (Tour.legs t.route).mapM fun (a, b) => do
    return (a, ← t.problem.distances.get a b)
  return (costed.mergeSort fun a b => decide (b.2 ≤ a.2)).map Prod.fst

/-- The stretch of `n` visits that starts at position `start` and may run past the end. -/
def stretch (route : List Int) (start : Int) (n : Nat) : List Int :=
  (List.range n).filterMap fun (i : Nat) => route[((start + i) % route.length).toNat]?

/-- The tour without the given visits on its route. -/
def without (t : Tour) (removed : List Int) : Tour :=
  result t (t.route.filter fun v => decide (v ∉ removed)) removed

/-- Removes visits. When there is nothing to remove, nothing is drawn. -/
def apply (g : Generator ω) (degree : Float) : Removal → Action Tour ω
  | .random, t, w =>
      match takeRandom g (count degree t.route.length) t.route [] w with
      | (.ok (route, removed), w) => (.ok (result t route removed), w)
      | (.error fault, w) => (.error fault, w)
  | .worst, t, w =>
      let q := count degree t.route.length
      if q = 0 then (.ok (result t t.route []), w)
      else
        match byLeg t with
        | .ok visits => (.ok (without t (visits.take q)), w)
        | .error fault => (.error fault, w)
  | .path, t, w =>
      let q := count degree t.route.length
      if q = 0 then (.ok (result t t.route []), w)
      else
        match g.below t.route.length w with
        | (.error fault, w) => (.error fault, w)
        | (.ok start, w) => (.ok (without t (stretch t.route start q)), w)

end Removal

end LargeNeighborhood
