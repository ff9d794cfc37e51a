set_option autoImplicit false

/-! # Sums of reals

Rounding makes the sum of reals depend on the order of adding. Fewer than eight reals are added
from the left. Up to a block of them are dealt out to eight running sums, which are added in
pairs in the end, before the reals that do not fill a round. A longer list is cut in two near the
middle, at a multiple of eight.
-/

namespace LargeNeighborhood

namespace Summation

/-- How many reals are added without cutting their list. -/
def block : Nat := 128

/-- Deals out reals to running sums, one round at a time, as long as there are reals enough for a
round. Returns the sums and the reals left over. -/
def deal (sums xs : List Float) : List Float × List Float :=
  if sums.length = 0 ∨ xs.length < sums.length then (sums, xs)
  else deal (sums.zipWith (· + ·) (xs.take sums.length)) (xs.drop sums.length)
termination_by xs.length
decreasing_by simp only [List.length_drop]; omega

/-- Adds neighbours. -/
def pairUp : List Float → List Float
  | x :: y :: rest => (x + y) :: pairUp rest
  | xs => xs

/-- The sum of at most a block of reals. -/
def ofBlock (xs : List Float) : Float :=
  if xs.length < 8 then xs.foldl (· + ·) 0
  else
    let (sums, rest) := deal (xs.take 8) (xs.drop 8)
    rest.foldl (· + ·) ((pairUp (pairUp (pairUp sums))).headD 0)

end Summation

/-- The sum of reals. -/
def sumReals (xs : List Float) : Float :=
  if xs.length ≤ Summation.block then Summation.ofBlock xs
  else
    let cut := xs.length / 2 - xs.length / 2 % 8
    sumReals (xs.take cut) + sumReals (xs.drop cut)
termination_by xs.length
decreasing_by
  all_goals simp_all only [Summation.block, List.length_take, List.length_drop]; omega

end LargeNeighborhood
