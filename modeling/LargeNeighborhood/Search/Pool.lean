import LargeNeighborhood.Search.Roulette

set_option autoImplicit false

/-! # Operator pools

A pool lists the operators of one kind in the order of their registration. An operator has a
name of its own within the pool, a weight that lasts, and the score and the count of uses of the
current segment. The start weight is one; a segment starts with a score of one and no uses.

`Offer` is what a caller registers: something that can be applied, or called, or neither.
-/

namespace LargeNeighborhood

/-- A registered operator that performs `action : β`. Its weight and score are scalars `ν`, its
uses are counted by `τ`. -/
structure Operator (ν τ β : Type) where
  index : Nat
  name : String
  action : β
  weight : ν
  score : ν
  timesUsed : τ

/-- What is offered as an operator: the kind of thing it is, the name it carries, the title it
was defined under, and what it does when it is applied or called. -/
structure Offer (β : Type) where
  kind : String
  name : Option String
  title : Option String
  apply : Option β
  call : Option β

namespace Offer

variable {β : Type}

/-- The name given on registration, unless it is empty. -/
def givenName (given : Option String) : Option String := given.filter fun s => s != ""

/-- The action of an offer and the name it asks for. What can be applied goes by the name it
carries, what can only be called by its title, and both by their kind if they have none. A name
given on registration comes first. -/
def resolve (o : Offer β) (given : Option String) : Except Fault (String × β) :=
  match o.apply, o.call with
  | some action, _ => .ok ((givenName given).getD (o.name.getD o.kind), action)
  | none, some action => .ok ((givenName given).getD (o.title.getD o.kind), action)
  | none, none => .error (.notAnOperator o.kind)

end Offer

/-- The operators of one kind, in the order of registration. -/
abbrev Pool (ν τ β : Type) := List (Operator ν τ β)

namespace Pool

variable {ν τ β : Type}

def names (p : Pool ν τ β) : List String := p.map Operator.name

/-- The weight of each operator under its name. -/
def weights (p : Pool ν τ β) : List (String × ν) := p.map fun op => (op.name, op.weight)

/-- A name with a number behind it. -/
def numbered (name : String) (k : Nat) : String := name ++ "_" ++ toString k

/-- The name itself if it is free, otherwise the name with the first number, from the size of
the pool on, that makes it free. Of one number more than there are operators, one is free. -/
def freshName (taken : List String) (name : String) : String :=
  if name ∈ taken then
    match (List.range' taken.length (taken.length + 1)).find? fun k =>
        decide (numbered name k ∉ taken) with
    | some k => numbered name k
    | none => name
  else name

variable [Scalar ν] [Tally ν τ]

/-- A new operator, at the end of the pool. -/
def newOperator (p : Pool ν τ β) (name : String) (action : β) : Operator ν τ β :=
  { index := p.length, name := freshName (names p) name, action,
    weight := Scalar.one, score := Scalar.one, timesUsed := Tally.none ν }

/-- Registers an offer. A refused offer leaves the pool as it was. -/
def register (p : Pool ν τ β) (o : Offer β) (given : Option String) :
    Except Fault (Operator ν τ β × Pool ν τ β) := do
  let (name, action) ← o.resolve given
  let op := newOperator p name action
  return (op, p ++ [op])

/-- Counts one use of the operator at an index. -/
def use (p : Pool ν τ β) (i : Nat) : Pool ν τ β :=
  p.modify i fun op => { op with timesUsed := Tally.next ν op.timesUsed }

/-- Adds to the score of the operator at an index. -/
def credit (p : Pool ν τ β) (i : Nat) (amount : ν) : Pool ν τ β :=
  p.modify i fun op => { op with score := op.score + amount }

/-- The weight that blends the old one with the mean score of the segment. -/
def blend (reaction weight score : ν) (timesUsed : τ) : ν :=
  (Scalar.ofNat 1 - reaction) * weight + reaction * Tally.share score timesUsed

/-- Folds the scores of a segment into the weights. An operator that was not used keeps its
weight. -/
def adapt (reaction : ν) (p : Pool ν τ β) : Pool ν τ β :=
  p.map fun op =>
    if Tally.isPositive ν op.timesUsed then
      { op with weight := blend reaction op.weight op.score op.timesUsed }
    else op

/-- Starts a new segment. -/
def restart (p : Pool ν τ β) : Pool ν τ β :=
  p.map fun op => { op with score := Scalar.one, timesUsed := Tally.none ν }

/-- Starts over: all weights are equal again, and a new segment begins. -/
def reset (p : Pool ν τ β) : Pool ν τ β :=
  restart (p.map fun op => { op with weight := Scalar.one })

/-- Draws an operator by a wheel that picks one of several weights, and counts the use. -/
def selectBy {ω : Type} (spin : List ν → ω → Except Fault Nat × ω) (p : Pool ν τ β) (w : ω) :
    Except Fault (Operator ν τ β) × Pool ν τ β × ω :=
  match spin (p.map Operator.weight) w with
  | (.error fault, w) => (.error fault, p, w)
  | (.ok i, w) =>
      match p[i]? with
      | some op => (.ok op, use p i, w)
      | none => (.error .indexOutOfRange, p, w)

/-- Draws an operator by weight and counts the use. -/
def select {ω : Type} (draw : ω → Except Fault ν × ω) (p : Pool ν τ β) (w : ω) :
    Except Fault (Operator ν τ β) × Pool ν τ β × ω :=
  selectBy (Roulette.spin draw) p w

end Pool

end LargeNeighborhood
