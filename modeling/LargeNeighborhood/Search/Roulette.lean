import LargeNeighborhood.Fault
import LargeNeighborhood.Number.Scalar

set_option autoImplicit false

/-! # Roulette wheel

Items are laid end to end, each as long as its weight; a draw `u` of the unit interval points at
`u` times the total length, and the item it falls on is picked. Item `i` covers the lengths from
its running sum exclusive of `i` up to, but without, the one inclusive of `i`, so a draw exactly
on a border belongs to the upper item. Rounding may carry the pointer to the very end; then the
last item with a weight is picked.

An empty wheel, a negative weight and a wheel without length are refused before anything is
drawn.
-/

namespace LargeNeighborhood

namespace Roulette

variable {ν : Type} [Scalar ν]

/-- Running sums that start from `sum`, added from the left. -/
def sumsFrom (sum : ν) : List ν → List ν
  | [] => []
  | w :: ws => (sum + w) :: sumsFrom (sum + w) ws

/-- The sums of the weights up to and including each. -/
def runningSums : List ν → List ν
  | [] => []
  | w :: ws => w :: sumsFrom w ws

@[simp] theorem length_sumsFrom (sum : ν) (ws : List ν) :
    (sumsFrom sum ws).length = ws.length := by
  induction ws generalizing sum with
  | nil => rfl
  | cons w ws ih => simp [sumsFrom, ih]

@[simp] theorem length_runningSums (ws : List ν) : (runningSums ws).length = ws.length := by
  cases ws with
  | nil => rfl
  | cons w ws => simp [runningSums]

/-- The length of the wheel, once the weights are fit to be selected from. -/
def total? (ws : List ν) : Except Fault ν :=
  match (runningSums ws).getLast? with
  | none => .error .noWeights
  | some total =>
      if ws.any fun w => decide (w < Scalar.zero) then
        .error (.negativeWeights (ws.map Scalar.text))
      else if total ≤ Scalar.zero then .error .noPositiveWeight
      else .ok total

/-- The index of the last weight that is not zero. -/
def lastUsable (ws : List ν) : Nat :=
  match ws.reverse.findIdx? fun w => !decide (Scalar.isZero w) with
  | some i => ws.length - 1 - i
  | none => 0

/-- The item that a pointer falls on. -/
def itemAt (ws : List ν) (pointer : ν) : Nat :=
  match (runningSums ws).findIdx? fun sum => decide (Scalar.before pointer sum) with
  | some i => i
  | none => lastUsable ws

/-- The item picked by the draw `u`. -/
def pick (ws : List ν) (u : ν) : Except Fault Nat := do
  let total ← total? ws
  return itemAt ws (u * total)

/-- Draws and picks. Nothing is drawn when the weights are refused. -/
def spin {ω : Type} (draw : ω → Except Fault ν × ω) (ws : List ν) (w : ω) :
    Except Fault Nat × ω :=
  match total? ws with
  | .error fault => (.error fault, w)
  | .ok _ =>
      let (u, w) := draw w
      (u.bind (pick ws), w)

theorem lastUsable_lt {ws : List ν} (h : ws ≠ []) : lastUsable ws < ws.length := by
  have hpos : 0 < ws.length := List.length_pos_iff.mpr h
  unfold lastUsable
  split <;> omega

theorem itemAt_lt {ws : List ν} (h : ws ≠ []) (pointer : ν) : itemAt ws pointer < ws.length := by
  unfold itemAt
  split
  · rename_i i hi
    have := (List.findIdx?_eq_some_iff_getElem.mp hi).1
    simpa using this
  · exact lastUsable_lt h

end Roulette

end LargeNeighborhood
