import LargeNeighborhood.Search.Pool

set_option autoImplicit false

/-! # The adaptive selector

A selector keeps the two pools of a search, those that destroy and those that repair, and the
reaction factor by which the score of a segment overrides the weight so far.
-/

namespace LargeNeighborhood

structure Selector (ν τ β : Type) where
  destroyers : Pool ν τ β
  repairers : Pool ν τ β
  reaction : ν

/-- The two kinds of operators. -/
inductive Role where
  | destroy
  | repair
  deriving DecidableEq, Repr

namespace Selector

variable {ν τ β : Type}

def empty (reaction : ν) : Selector ν τ β := ⟨[], [], reaction⟩

/-- The pool of one kind. -/
def pool (s : Selector ν τ β) : Role → Pool ν τ β
  | .destroy => s.destroyers
  | .repair => s.repairers

/-- Replaces the pool of one kind. -/
def setPool (s : Selector ν τ β) (role : Role) (p : Pool ν τ β) : Selector ν τ β :=
  match role with
  | .destroy => { s with destroyers := p }
  | .repair => { s with repairers := p }

variable [Scalar ν] [Tally ν τ]

def register (s : Selector ν τ β) (role : Role) (o : Offer β) (given : Option String) :
    Except Fault (Operator ν τ β × Selector ν τ β) := do
  let (op, p) ← (s.pool role).register o given
  return (op, s.setPool role p)

/-- Draws an operator of one kind by weight and counts the use. -/
def select {ω : Type} (draw : ω → Except Fault ν × ω) (s : Selector ν τ β) (role : Role) (w : ω) :
    Except Fault (Operator ν τ β) × Selector ν τ β × ω :=
  let (result, p, w) := Pool.select draw (s.pool role) w
  (result, s.setPool role p, w)

/-- Credits both operators of an iteration, each in its pool. -/
def credit (s : Selector ν τ β) (destroyer repairer : Nat) (amount : ν) : Selector ν τ β :=
  { s with destroyers := Pool.credit s.destroyers destroyer amount,
           repairers := Pool.credit s.repairers repairer amount }

/-- Starts a new segment in both pools. -/
def restart (s : Selector ν τ β) : Selector ν τ β :=
  { s with destroyers := Pool.restart s.destroyers, repairers := Pool.restart s.repairers }

/-- Closes a segment: adapts the weights and starts the next one. -/
def adapt (s : Selector ν τ β) : Selector ν τ β :=
  restart { s with destroyers := Pool.adapt s.reaction s.destroyers,
                   repairers := Pool.adapt s.reaction s.repairers }

/-- Starts over with equal weights. -/
def reset (s : Selector ν τ β) : Selector ν τ β :=
  { s with destroyers := Pool.reset s.destroyers, repairers := Pool.reset s.repairers }

end Selector

namespace Operator

/-- An operator with its numbers turned into others. -/
def convert {ν τ μ ρ β : Type} (f : ν → μ) (g : τ → ρ) (op : Operator ν τ β) : Operator μ ρ β :=
  { index := op.index, name := op.name, action := op.action, weight := f op.weight,
    score := f op.score, timesUsed := g op.timesUsed }

/-- An operator with its numbers, for display. -/
def text {β : Type} (op : Operator Quantity Quantity β) : String :=
  "Operator(#" ++ toString op.index ++ " " ++ op.name ++ ", weight=" ++
    fixed 4 op.weight.toFloat ++ ", score=" ++ fixed 2 op.score.toFloat ++ ", used=" ++
    op.timesUsed.text ++ ")"

end Operator

end LargeNeighborhood
