import LargeNeighborhood.Random.Congruential
import LargeNeighborhood.Random.Tape

set_option autoImplicit false

/-! # The two sources of draws

A search draws either from a seeded generator or from a tape. `Source.generator` presents both
through one interface.
-/

namespace LargeNeighborhood

inductive Source where
  | seeded (g : Congruential)
  | tape (t : Tape)

namespace Source

/-- The seeded source; a negative seed is refused. -/
def ofSeed (seed : Int) : Except Fault Source :=
  if seed < 0 then .error .negativeSeed else .ok (.seeded (.ofSeed seed.toNat))

/-- Draws from whichever kind of source it is, and puts the source back. -/
def draw {α : Type} (fromSeeded : Congruential → α × Congruential) (fromTape : Tape → α × Tape) :
    Source → α × Source
  | .seeded g => let (a, g) := fromSeeded g; (a, .seeded g)
  | .tape t => let (a, t) := fromTape t; (a, .tape t)

def generator : Generator Source where
  unit := draw (fun g => let (u, g) := g.unit; (.ok u, g)) Tape.unit
  below n := draw (Congruential.below n) (Tape.below n)
  shuffle xs := draw (Congruential.shuffle xs) (Tape.shuffle xs)

end Source

end LargeNeighborhood
