import LargeNeighborhood.Number.Arithmetic

set_option autoImplicit false

/-! # Acceptance criteria

After each iteration a criterion decides whether the candidate replaces the current solution. It
sees the best, the current and the candidate solution, each with its cost, may draw from the
world `ω`, and carries a gauge `γ` (a temperature, a threshold) that it may change at every
decision. `reading` is what the history shows of the gauge.
-/

namespace LargeNeighborhood

/-- A solution with its cost. -/
structure Rated (σ : Type) where
  state : σ
  cost : Cost
  deriving DecidableEq

structure Criterion (σ ω γ π : Type) where
  /-- Decides on a candidate, given the best, the current and the candidate solution. -/
  judge : Rated σ → Rated σ → Rated σ → γ → ω → Except Fault Bool × γ × ω
  reading : γ → π

end LargeNeighborhood
