import LargeNeighborhood.Number.Power

set_option autoImplicit false

/-! # Reals of 64 bits, taken apart

A 64-bit real is undefined, infinite, or `± m · 2 ^ e` with a natural mantissa `m`. Taking it
apart (`Binary.ofFloat`) turns questions that ordinary arithmetic would round into questions
about whole numbers: cutting off the fraction, comparing with a whole number of any size, and
writing decimal digits. In the other direction `nearestRatio` is the real nearest to a quotient
of two whole numbers of any size, a tie going to the even mantissa.
-/

namespace LargeNeighborhood

/-- What a 64-bit real stands for. A finite one is `± mantissa · 2 ^ exponent`. -/
inductive Binary where
  | undefined
  | infinite (negative : Bool)
  | finite (negative : Bool) (mantissa : Nat) (exponent : Int)
  deriving Repr, DecidableEq

namespace Binary

/-- The sign bit, the eleven bits of the exponent and the 52 bits of the fraction. An exponent
field of zero marks the numbers below the normal range, one of 2047 what is not a number. -/
def ofFloat (x : Float) : Binary :=
  let bits := x.toBits.toNat
  let negative := decide (twoTo 63 ≤ bits)
  let field : Nat := bits / twoTo 52 % twoTo 11
  let fraction := bits % twoTo 52
  if field = 2047 then
    if fraction = 0 then .infinite negative else .undefined
  else if field = 0 then .finite negative fraction (-1074)
  else .finite negative (twoTo 52 + fraction) ((field : Int) - 1075)

/-- The magnitude `m · 2 ^ e` as a numerator over a positive denominator. -/
def magnitude (m : Nat) (e : Int) : Nat × Nat :=
  if 0 ≤ e then (m * twoTo e.toNat, 1) else (m, twoTo (-e).toNat)

theorem magnitude_snd_pos (m : Nat) (e : Int) : 0 < (magnitude m e).2 := by
  unfold magnitude
  split
  · exact Nat.one_pos
  · exact twoTo_pos _

/-- A natural number with a sign. -/
def signed (negative : Bool) (n : Nat) : Int := if negative then -(n : Int) else n

/-- The whole part of a finite real, the fraction cut off towards zero. -/
def truncate (negative : Bool) (m : Nat) (e : Int) : Int :=
  let (num, den) := magnitude m e
  signed negative (num / den)

/-- How a whole number compares with a real, without rounding either; `none` when the real is
undefined. -/
def compareWhole (n : Int) : Binary → Option Ordering
  | .undefined => none
  | .infinite true => some .gt
  | .infinite false => some .lt
  | .finite negative m e =>
      let (num, den) := magnitude m e
      some (compare (n * den) (signed negative num))

end Binary

/-- The sign and magnitude of a whole number, in the form in which reals are divided. -/
def unrounded (n : Int) : Float.Model.UnpackedFloat :=
  if h : n = 0 then .zero .positive
  else .finite (if n < 0 then .negative else .positive) n.natAbs 0 (Int.natAbs_pos.mpr h)

/-- The real nearest to `num / den`, infinite when the quotient is out of range. Both numbers
enter unrounded, so this is one rounding of the exact quotient. -/
def nearestRatio (num den : Int) : Float :=
  .ofModel (.pack (.div .binary64 (unrounded num) (unrounded den)))

end LargeNeighborhood
