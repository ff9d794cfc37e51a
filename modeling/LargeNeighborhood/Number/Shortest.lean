import LargeNeighborhood.Number.Fixed

set_option autoImplicit false

/-! # The shortest decimal that reads back

Among the decimals that round to a given real, `Shortest.search` takes one with the fewest
digits, and of those the nearest. For each digit count from 1 to 17 it looks at the two
neighbours of the value on the grid of decimals with that many digits: if a point of the grid
reads back at all, one of these two does.

`shortest` writes the result positionally as long as the first digit stands between the
fourth place behind the point and the sixteenth in front of it, and with an exponent of at
least two digits otherwise.
-/

namespace LargeNeighborhood

namespace Shortest

/-- The real nearest to `digits · 10 ^ exponent`. -/
def read (digits : Nat) (exponent : Int) : Float :=
  .ofScientific digits (exponent < 0) exponent.natAbs

/-- The `k` with `10 ^ (k - 1) ≤ num / den < 10 ^ k`, for positive `num` and `den`. -/
def pointPosition (num den : Nat) : Int :=
  let k : Int := (Nat.toDigits 10 num).length - (Nat.toDigits 10 den).length
  let below := if 0 ≤ k then decide (num < tenTo k.toNat * den)
    else decide (num * tenTo (-k).toNat < den)
  if below then k else k + 1

/-- The two multiples of `10 ^ exponent` around `num / den`, as counts of that unit, the nearer
one first and the even one of two that are equally near. -/
def neighbours (num den : Nat) (exponent : Int) : Nat × Nat :=
  let (num, den) := if 0 ≤ exponent then (num, den * tenTo exponent.toNat)
    else (num * tenTo (-exponent).toNat, den)
  let low := num / den
  let near := roundHalfEven num den
  (near, if near = low then low + 1 else low)

/-- Moves zeros at the end of the digits into the exponent. -/
def dropZeros : Nat → Nat → Int → Nat × Int
  | 0, digits, exponent => (digits, exponent)
  | fuel + 1, digits, exponent =>
      if digits ≠ 0 ∧ digits % 10 = 0 then dropZeros fuel (digits / 10) (exponent + 1)
      else (digits, exponent)

/-- The first digit count, among those listed, with a neighbour that reads back as `x`. -/
def search (x : Float) (num den : Nat) (position : Int) : List Nat → Option (Nat × Int)
  | [] => none
  | count :: counts =>
      let exponent := position - count
      let (near, far) := neighbours num den exponent
      if read near exponent == x then some (near, exponent)
      else if read far exponent == x then some (far, exponent)
      else search x num den position counts

/-- Digits and exponent of the shortest decimal of a positive real `x = num / den`. Seventeen
digits always suffice. -/
def decimal (x : Float) (num den : Nat) : Nat × Int :=
  let position := pointPosition num den
  let (digits, exponent) :=
    (search x num den position (List.range' 1 17)).getD
      ((neighbours num den (position - 17)).1, position - 17)
  dropZeros 20 digits exponent

/-- Whole digits are written out, with `.0` behind them; an exponent has two digits at least. -/
def render (digits : Nat) (exponent : Int) : String :=
  let cs := Nat.toDigits 10 digits
  let position : Int := cs.length + exponent
  if position ≤ -4 ∨ 16 < position then
    -- one digit in front of the point
    let power := position - 1
    let text := toString power.natAbs
    let point := if cs.length ≤ 1 then "" else "."
    String.ofList (cs.take 1) ++ point ++ String.ofList (cs.drop 1) ++ "e" ++
      (if power < 0 then "-" else "+") ++ (if text.length < 2 then "0" else "") ++ text
  else if position ≤ 0 then
    "0." ++ String.ofList (List.replicate position.natAbs '0' ++ cs)
  else if 0 ≤ exponent then
    String.ofList (cs ++ List.replicate exponent.natAbs '0') ++ ".0"
  else
    String.ofList (cs.take position.toNat) ++ "." ++ String.ofList (cs.drop position.toNat)

end Shortest

/-- The shortest decimal that reads back as `x`. -/
def shortest (x : Float) : String :=
  match Binary.ofFloat x with
  | .undefined => "nan"
  | .infinite negative => Fixed.sign negative ++ "inf"
  | .finite negative m e =>
      if m = 0 then Fixed.sign negative ++ "0.0"
      else
        let (num, den) := Binary.magnitude m e
        let (digits, exponent) := Shortest.decimal x.abs num den
        Fixed.sign negative ++ Shortest.render digits exponent

end LargeNeighborhood
