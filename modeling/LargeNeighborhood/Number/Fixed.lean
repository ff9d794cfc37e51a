import LargeNeighborhood.Number.Binary

set_option autoImplicit false

/-! # Decimals with a fixed number of places

`fixed places x` writes `x` with `places` digits behind the point. The binary value is rounded
once and exactly; a value half-way between two decimals goes to the even one. A sign is written
also when all digits are zero, and the three values that are not finite have names.
-/

namespace LargeNeighborhood

/-- The whole number nearest to `num / den`, the even one of two that are equally near. -/
def roundHalfEven (num den : Nat) : Nat :=
  let quotient := num / den
  match compare (2 * (num % den)) den with
  | .lt => quotient
  | .eq => quotient + quotient % 2
  | .gt => quotient + 1

theorem roundHalfEven_of_dvd (num den : Nat) (hden : 0 < den) (h : den ∣ num) :
    roundHalfEven num den = num / den := by
  have hmod : num % den = 0 := Nat.mod_eq_zero_of_dvd h
  simp [roundHalfEven, hmod, Nat.compare_eq_lt.mpr hden]

/-- A rounded quotient is off by at most half a unit. -/
theorem roundHalfEven_near (num den : Nat) (hden : 0 < den) :
    2 * num ≤ (2 * roundHalfEven num den + 1) * den ∧
      2 * roundHalfEven num den * den ≤ 2 * num + den := by
  have hdiv : den * (num / den) + num % den = num := Nat.div_add_mod num den
  have hlt : num % den < den := Nat.mod_lt num hden
  generalize hq : num / den = q at hdiv
  generalize hr : num % den = r at hdiv hlt
  subst hdiv
  unfold roundHalfEven
  simp only [hq, hr]
  rcases hc : compare (2 * r) den with _ | _ | _
  · have h : 2 * r < den := Nat.compare_eq_lt.mp hc
    constructor <;> grind
  · have h : 2 * r = den := Nat.compare_eq_eq.mp hc
    rcases Nat.mod_two_eq_zero_or_one q with h2 | h2 <;> simp only [h2] <;> constructor <;> grind
  · have h : den < 2 * r := Nat.compare_eq_gt.mp hc
    constructor <;> grind

namespace Fixed

/-- The digits of `n` with a point before the last `places` of them, at least one digit in
front of it. -/
def insertPoint (places : Nat) (n : Nat) : String :=
  let digits := Nat.toDigits 10 n
  let padded := List.replicate (places + 1 - digits.length) '0' ++ digits
  let split := padded.length - places
  if places = 0 then String.ofList padded
  else String.ofList (padded.take split) ++ "." ++ String.ofList (padded.drop split)

/-- The minus sign of a negative value. -/
def sign (negative : Bool) : String := if negative then "-" else ""

/-- A number taken apart, written with a fixed number of places. -/
def render (places : Nat) : Binary → String
  | .undefined => "nan"
  | .infinite negative => sign negative ++ "inf"
  | .finite negative m e =>
      let (num, den) := Binary.magnitude m e
      sign negative ++ insertPoint places (roundHalfEven (num * tenTo places) den)

end Fixed

/-- A real written with a fixed number of places. -/
def fixed (places : Nat) (x : Float) : String := Fixed.render places (.ofFloat x)

/-- The real nearest to `x` rounded to a fixed number of places. -/
def roundTo (places : Nat) (x : Float) : Float :=
  match Binary.ofFloat x with
  | .finite negative m e =>
      let (num, den) := Binary.magnitude m e
      let y := Float.ofScientific (roundHalfEven (num * tenTo places) den) true places
      if negative then -y else y
  | _ => x

end LargeNeighborhood
