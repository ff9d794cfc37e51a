import LargeNeighborhood.Chart.Figure
import LargeNeighborhood.Position
import LargeNeighborhood.Tour.Basic

set_option autoImplicit false

/-! # The map of a tour

All points are drawn with the visits beside them, the route as a closed line, and the visits in
the bank once more in another colour. A visit names a point by its position, counted from either
end; only the first two coordinates of a point are drawn.
-/

namespace LargeNeighborhood

namespace TourMap

def fileName : String := "solution_tour.png"

/-- A point in the plane of the map. -/
def flat : List Float → Except Fault (Float × Float)
  | x :: y :: _ => .ok (x, y)
  | _ => .error .indexOutOfRange

/-- The point of a visit. -/
def locate (points : List (Float × Float)) (visit : Int) : Except Fault (Float × Float) :=
  match Position.get? points visit with
  | some p => .ok p
  | none => .error (.ofPosition visit)

/-- The points of several visits. When all of them fit 64 bits only without a sign, they wrap
around to negative numbers. -/
def locateAll (points : List (Float × Float)) (visits : List Int) :
    Except Fault (List (Float × Float)) :=
  let visits :=
    if visits.all Fault.fitsUnsigned then visits.map (· - (UInt64.size : Int)) else visits
  match visits.mapM (Position.get? points) with
  | some ps => .ok ps
  | none => .error .indexOutOfRange

/-- Points of one colour. -/
def dots (label : String) (color : Color) (points : List (Float × Float)) : Scatter :=
  { label := some label, points, colors := [color], shapes := [0] }

/-- The line along a closed route. -/
def routeLine (points : List (Float × Float)) (route : List Int) : Except Fault (List Line) := do
  let stops ← locateAll points (route ++ route.take 1)
  return if stops.isEmpty then []
    else [{ label := none, color := ⟨0x2ca02c⟩, stroke := .solid, dotted := false,
            xs := stops.map fun p => .real p.1, ys := stops.map fun p => .real p.2 }]

/-- The map of a tour without its title. -/
def axes (t : Tour) (points : List (List Float)) : Except Fault Axes := do
  let points ← points.mapM flat
  let captions ← t.problem.visits.mapM fun v => do
    return Caption.mk (toString v) (some (← locate points v))
  let lines ← routeLine points t.route
  let banked ← locateAll points t.bank
  let scatters := dots "Visit" .cornflowerBlue points ::
    if t.bank.isEmpty then [] else [dots "Unassigned" .red banked]
  return {
    title := ""
    xlabel := "X Coordinate"
    ylabel := "Y Coordinate"
    lines, scatters, captions
    legend := some ⟨"", scatters.filterMap Scatter.label⟩ }

/-- The map of a tour with a given cost. -/
def figure (t : Tour) (cost : Except Fault Int) (points : List (List Float)) (path : String) :
    Except Fault Figure := do
  let axes ← axes t points
  let cost ← (Quantity.whole (← cost)).fixed? 2
  let title := t.problem.name ++ " Tour (Cost: " ++ cost ++ ")"
  return { path, title := none, axes := [{ axes with title }] }

end TourMap

end LargeNeighborhood
