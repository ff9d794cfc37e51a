import LargeNeighborhood.Text.Blank
import LargeNeighborhood.Text.Digit

set_option autoImplicit false

/-! # Numerals

How numbers are read from text. A whole number is an optional sign and decimal digits of any
script, single underscores allowed between digits. A real may have a point and an exponent as
well, digits standing on at least one side of the point, or be one of the words for infinity and
for the undefined real. Blanks around a numeral do not matter.
-/

namespace LargeNeighborhood

namespace Numeral

/-- Takes a sign off the front. -/
def takeSign : List Char → Bool × List Char
  | '-' :: cs => (true, cs)
  | '+' :: cs => (false, cs)
  | cs => (false, cs)

/-- The digits at the front, as their number and count. An underscore is skipped when a digit
stands on both sides of it. -/
def takeDigits (digit? : Char → Option Nat) (underscores : Bool) (seen : Bool) (n count : Nat) :
    List Char → Nat × Nat × List Char
  | [] => (n, count, [])
  | c :: cs =>
      match digit? c with
      | some d => takeDigits digit? underscores true (10 * n + d) (count + 1) cs
      | none =>
          match cs with
          | d :: _ =>
              if underscores && seen && c == '_' && (digit? d).isSome then
                takeDigits digit? underscores false n count cs
              else (n, count, c :: cs)
          | [] => (n, count, [c])

/-- Blanks at both ends removed. -/
def trimmed (s : String) : List Char := Blank.trim Blank.aroundNumeral s.toList

/-- The exponent at the front, zero when there is none; `none` when its digits are missing. -/
def takeExponent (digit? : Char → Option Nat) (underscores : Bool) :
    List Char → Option (Int × List Char)
  | [] => some (0, [])
  | c :: cs =>
      if c = 'e' ∨ c = 'E' then
        let (negative, cs) := takeSign cs
        let (n, count, rest) := takeDigits digit? underscores false 0 0 cs
        if count = 0 then none else some (if negative then -(n : Int) else n, rest)
      else some (0, c :: cs)

/-- An unsigned decimal as `digits · 10 ^ exponent`, with nothing behind it. -/
def decimal? (digit? : Char → Option Nat) (underscores : Bool) (cs : List Char) :
    Option (Nat × Int) :=
  let (n, count, rest) := takeDigits digit? underscores false 0 0 cs
  let (n, places, rest) :=
    match rest with
    | '.' :: rest =>
        let (n, places, rest) := takeDigits digit? underscores false n 0 rest
        (n, places, rest)
    | _ => (n, 0, rest)
  -- digits have to stand on one side of the point at least
  if count = 0 ∧ places = 0 then none
  else
    match takeExponent digit? underscores rest with
    | some (exponent, []) => some (n, exponent - places)
    | _ => none

/-- Letters in lower case, for comparing words. -/
def lowered (cs : List Char) : String := String.ofList (cs.map Char.toLower)

/-- The real nearest to `± digits · 10 ^ exponent`. -/
def toFloat (negative : Bool) (digits : Nat) (exponent : Int) : Float :=
  let x := Float.ofScientific digits (exponent < 0) exponent.natAbs
  if negative then -x else x

end Numeral

/-- How many digits a whole number may have, zeros in front of it included. -/
def Numeral.digitLimit : Nat := 4300

/-- Why a text is no whole number. -/
inductive Numeral.Refusal where
  | malformed
  | tooLong (digits : Nat)

/-- Reads a whole number. Its digits are counted before what follows them is looked at, unless
that is an underscore. -/
def readWhole (s : String) : Except Numeral.Refusal Int :=
  let (negative, cs) := Numeral.takeSign (Numeral.trimmed s)
  let (n, count, rest) := Numeral.takeDigits Digit.value? true false 0 0 cs
  if Numeral.digitLimit < count ∧ rest.head? ≠ some '_' then .error (.tooLong count)
  else if count = 0 ∨ rest ≠ [] then .error .malformed
  else .ok (if negative then -(n : Int) else n)

/-- Reads a real. -/
def readReal? (s : String) : Option Float :=
  let (negative, cs) := Numeral.takeSign (Numeral.trimmed s)
  match Numeral.decimal? Digit.value? true cs with
  | some (digits, exponent) => some (Numeral.toFloat negative digits exponent)
  | none =>
      let word := Numeral.lowered cs
      if word = "inf" ∨ word = "infinity" then some (if negative then -(1 / 0) else 1 / 0)
      else if word = "nan" then some (0 / 0)
      else none

end LargeNeighborhood
