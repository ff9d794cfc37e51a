import LargeNeighborhood.Number.Checked
import LargeNeighborhood.Position
import LargeNeighborhood.Search.Selector

set_option autoImplicit false

/-! # Tuning a selector by hand

Outside of a run a selector may be used on its own. Operators are named by their positions, and
their numbers can be set to any quantities, whole or real. Arithmetic on them can then fail; what
was changed before the fault stays changed, and the operator at fault and those behind it stay as
they were.
-/

namespace LargeNeighborhood

namespace Pool

variable {τ β : Type}

/-- Takes over the operators of a changed pool up to the first one with a number that could not be
computed. -/
def adopt (number : Operator Checked τ β → Checked) :
    Pool Checked τ β → Pool Checked τ β → Except Fault Unit × Pool Checked τ β
  | op :: p, changed :: q =>
      match (number changed).result with
      | .error fault => (.error fault, op :: p)
      | .ok _ =>
          let (ended, p) := adopt number p q
          (ended, changed :: p)
  | p, _ => (.ok (), p)

end Pool

/-- A selector that is tuned by hand. -/
abbrev TunedSelector (β : Type) := Selector Checked Checked β

namespace TunedSelector

variable {β : Type}

/-- The index that a position names in the pool of one kind. -/
def index (s : TunedSelector β) (role : Role) (position : Int) : Except Fault Nat :=
  match Position.resolve? (s.pool role).length position with
  | some i => .ok i
  | none => .error .indexOutOfRange

/-- Changes the pool of one kind, as far as numbers can be computed. -/
def change (s : TunedSelector β) (role : Role) (number : Operator Checked Checked β → Checked)
    (changed : Pool Checked Checked β) : Except Fault Unit × TunedSelector β :=
  let (ended, p) := Pool.adopt number (s.pool role) changed
  (ended, s.setPool role p)

/-- Goes on unless there was a fault. -/
def andThen (first : Except Fault Unit × TunedSelector β)
    (next : TunedSelector β → Except Fault Unit × TunedSelector β) :
    Except Fault Unit × TunedSelector β :=
  match first with
  | (.ok (), s) => next s
  | stopped => stopped

/-- Credits one operator. -/
def creditOne (role : Role) (position : Int) (amount : Quantity) (s : TunedSelector β) :
    Except Fault Unit × TunedSelector β :=
  match s.index role position with
  | .error fault => (.error fault, s)
  | .ok i => s.change role Operator.score (Pool.credit (s.pool role) i (.of amount))

/-- Credits a destroy operator and then a repair operator. -/
def credit (destroyer repairer : Int) (amount : Quantity) (s : TunedSelector β) :
    Except Fault Unit × TunedSelector β :=
  andThen (creditOne .destroy destroyer amount s) (creditOne .repair repairer amount)

/-- Adapts the weights of one pool. -/
def adaptOne (role : Role) (s : TunedSelector β) : Except Fault Unit × TunedSelector β :=
  s.change role Operator.weight (Pool.adapt s.reaction (s.pool role))

/-- Closes a segment: adapts the weights and starts the next one, unless a weight cannot be
computed. -/
def adapt (s : TunedSelector β) : Except Fault Unit × TunedSelector β :=
  andThen (andThen (adaptOne .destroy s) (adaptOne .repair)) fun s => (.ok (), s.restart)

/-- Draws an operator of one kind by weight, as reals, and counts the use. -/
def select {ω : Type} (draw : ω → Except Fault Float × ω) (s : TunedSelector β) (role : Role)
    (w : ω) : Except Fault (Operator Checked Checked β) × TunedSelector β × ω :=
  let spin (ws : List Checked) (w : ω) : Except Fault Nat × ω :=
    match ws.mapM fun x => x.result.bind Quantity.toReal? with
    | .ok xs => Roulette.spin draw xs w
    | .error fault => (.error fault, w)
  let (result, p, w) := Pool.selectBy spin (s.pool role) w
  (result, s.setPool role p, w)

/-- Sets those numbers of one operator that are given. -/
def assign (s : TunedSelector β) (role : Role) (position : Int)
    (weight score timesUsed : Option Quantity) : Except Fault (TunedSelector β) := do
  let i ← s.index role position
  return s.setPool role ((s.pool role).modify i fun op =>
    { op with
      weight := (weight.map Checked.of).getD op.weight
      score := (score.map Checked.of).getD op.score
      timesUsed := (timesUsed.map Checked.of).getD op.timesUsed })

end TunedSelector

end LargeNeighborhood
