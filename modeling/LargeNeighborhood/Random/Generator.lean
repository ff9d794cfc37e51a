import LargeNeighborhood.Fault

set_option autoImplicit false

/-! # Sources of random draws

A search needs three kinds of draw from its world `ω`: a real of the unit interval, a whole
number below a bound, and a list in random order. `Generator` is these three as functions that
also return the world after the draw. A source that has nothing to draw from refuses every draw,
and a draw below a bound that is not positive is refused.

What the search relies on is collected in `Generator.Lawful`: draws succeed and lie in their
range, and shuffling permutes.
-/

namespace LargeNeighborhood

structure Generator (ω : Type) where
  /-- A real in `[0, 1)`. -/
  unit : ω → Except Fault Float × ω
  /-- A whole number in `[0, n)`. -/
  below : Int → ω → Except Fault Int × ω
  shuffle : List Int → ω → Except Fault (List Int) × ω

namespace Generator

/-- The promises a generator keeps. -/
structure Lawful {ω : Type} (g : Generator ω) : Prop where
  unit_ok : ∀ w : ω, ∃ (u : Float) (w' : ω), g.unit w = (.ok u, w') ∧ 0 ≤ u ∧ u < 1
  below_ok : ∀ (n : Int) (w : ω), 1 ≤ n → ∃ i w', g.below n w = (.ok i, w') ∧ 0 ≤ i ∧ i < n
  shuffle_ok : ∀ (xs : List Int) (w : ω), ∃ ys w', g.shuffle xs w = (.ok ys, w') ∧ ys.Perm xs

end Generator

/-- Exchanges the items at two indices. -/
def exchange {α : Type} (xs : Array α) (i j : Nat) : Array α := xs.swapIfInBounds i j

/-- Shuffling from the back: for each index `i` from the last down to the first but one, the
item there changes places with one drawn from the indices up to `i`. -/
def shuffleDown {ω : Type} (draw : Nat → ω → Except Fault Nat × ω) :
    Nat → Array Int → ω → Except Fault (List Int) × ω
  | 0, xs, w => (.ok xs.toList, w)
  | i + 1, xs, w =>
      match draw (i + 1) w with
      | (.ok j, w) => shuffleDown draw i (exchange xs (i + 1) j) w
      | (.error fault, w) => (.error fault, w)

end LargeNeighborhood
