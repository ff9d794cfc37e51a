import LargeNeighborhood.Text.Numeral

set_option autoImplicit false

/-! # Columns of a table

The fields of a column are read alike: all as whole numbers if they all are whole, else all as
reals, else all as truth values, and as words when nothing else fits them all. A mark for a
missing value fits every reading. Whole numbers are those of 64 bits, with or without a sign; a
column that needs both kinds, or larger ones, holds words.

The reals of a column are read by a rule of their own: seventeen digits count, leading zeros
among them, the rest only by their places, and the power of ten is applied to the number of the
digits afterwards. A real out of range is none.
-/

namespace LargeNeighborhood

/-- A column: numbers, or words, with nothing for what is missing. -/
inductive Column where
  | numbers (values : List (Option Float))
  | words (fields : List (Option String))
  deriving Inhabited

namespace Column

/-- Words that mark a missing value. -/
def missingMarks : List String :=
  ["", "#N/A", "#N/A N/A", "#NA", "-1.#IND", "-1.#QNAN", "-NaN", "-nan", "1.#IND", "1.#QNAN",
   "<NA>", "N/A", "NA", "NULL", "NaN", "None", "n/a", "nan", "null"]

/-- A field, unless it marks a missing value. -/
def given? (field : String) : Option String := if field ∈ missingMarks then none else some field

/-- Blanks that may stand around a number in a column. -/
def isSpace (c : Char) : Bool := c == ' ' || decide (9 ≤ c.toNat ∧ c.toNat ≤ 13)

/-- Why a field is no number of a kind. -/
inductive Misfit where
  | notNumeral
  | outOfRange

/-- A whole number between two bounds. The bounds are looked at before what follows the
digits. -/
def bounded (low high : Int) (cs : List Char) : Except Misfit Int :=
  let (negative, cs) := Numeral.takeSign cs
  let (n, count, rest) := Numeral.takeDigits Digit.ascii? false false 0 0 cs
  let n := if negative then -(n : Int) else n
  if count = 0 then .error .notNumeral
  else if n < low ∨ high < n then .error .outOfRange
  else if rest.all isSpace then .ok n
  else .error .notNumeral

/-- A whole number with a sign. -/
def signed (field : String) : Except Misfit Int :=
  bounded Int64.minValue.toInt Int64.maxValue.toInt (field.toList.dropWhile isSpace)

/-- A whole number without a sign; nothing for a field that starts with a minus. -/
def unsigned (field : String) : Except Misfit (Option Int) :=
  match field.toList.dropWhile isSpace with
  | '-' :: _ => .ok none
  | cs => (bounded 0 (UInt64.size - 1) cs).map some

/-- How many digits of a real count. -/
def digitLimit : Nat := 17

/-- The number that digits stand for, one rounding a digit. -/
def ofDigits (ds : List Char) : Float :=
  ds.foldl (fun x d => 10 * x + Float.ofNat (d.toNat - 48)) 0

/-- A power of ten. -/
def powerOfTen (n : Nat) : Float := Float.ofScientific 1 false n

/-- A number times a power of ten, if that is in range. -/
def scale? (x : Float) (exponent : Int) : Option Float :=
  if 308 < exponent then none
  else
    let y :=
      if 0 < exponent then x * powerOfTen exponent.toNat
      else if -308 ≤ exponent then x / powerOfTen (-exponent).toNat
      -- no power beyond the 308th is finite, so the rest is divided by another one
      else if -616 ≤ exponent then x / powerOfTen (-308 - exponent).toNat / powerOfTen 308
      else 0
    if y.isInf then none else some y

/-- The exponent at the front of a text, zero when there is none, and the text behind it. It is
kept in 32 bits. -/
def takeExponent (cs : List Char) : Option (Int × List Char) :=
  match cs with
  | [] => some (0, [])
  | c :: cs =>
      if c = 'e' ∨ c = 'E' then
        let (negative, cs) := Numeral.takeSign cs
        let ds := (cs.takeWhile Char.isDigit).take digitLimit
        let (n, count, _) := Numeral.takeDigits Digit.ascii? false false 0 0 ds
        if count = 0 then none
        else some (if negative then -(n : Int) else n, cs.drop count)
      else some (0, c :: cs)

/-- A real in digits. -/
def decimal? (field : String) : Option Float := do
  let (negative, cs) := Numeral.takeSign (field.toList.dropWhile isSpace)
  let wholes := cs.takeWhile Char.isDigit
  let rest := cs.drop wholes.length
  let places := match rest with
    | '.' :: rest => rest.takeWhile Char.isDigit
    | _ => []
  let rest := if rest.head? = some '.' then rest.drop (places.length + 1) else rest
  -- digits beyond the limit are dropped; in front of the point they still count as places
  let leading := wholes.take digitLimit
  let following := places.take (digitLimit - leading.length)
  if (leading ++ following).isEmpty then none
  let (n, rest) ← takeExponent rest
  if !rest.all isSpace then none
  let x := ofDigits (leading ++ following)
  let exponent := (wholes.length : Int) - leading.length - following.length + n
  scale? (if negative then -x else x) (Int.bmod exponent UInt32.size)

/-- A real of a column: digits, or a word for infinity. -/
def real? (field : String) : Option Float :=
  match decimal? field with
  | some x => some x
  | none =>
      let (negative, cs) := Numeral.takeSign field.toList
      let word := Numeral.lowered cs
      if word = "inf" ∨ word = "infinity" then some (if negative then -(1 / 0) else 1 / 0)
      else none

/-- A truth value as a number. -/
def truth? (field : String) : Option Float :=
  let word := Numeral.lowered field.toList
  if word = "true" then some 1 else if word = "false" then some 0 else none

/-- Reads every field that is not missing. -/
def readAll? {α : Type} (read : String → Option α) (fields : List (Option String)) :
    Option (List (Option α)) :=
  fields.mapM fun field =>
    match field with
    | none => some none
    | some text => (read text).map some

/-- A column that is not whole. -/
def ofParts (fields : List (Option String)) : Column :=
  match readAll? real? fields with
  | some values => .numbers values
  | none =>
      match readAll? truth? fields with
      | some values => .numbers values
      | none => .words fields

/-- A column of whole numbers that do not all fit with a sign. Words next to an unsigned number
that is too large for a sign keep their marks for missing values as they are. -/
def ofLarge (fields : List String) : Column :=
  let given := fields.map given?
  match given.mapM fun field => field.mapM unsigned with
  | .error .notNumeral => ofParts given
  | .error .outOfRange => .words given
  | .ok values =>
      let isLarge (n : Int) : Bool := decide (Int64.maxValue.toInt < n)
      -- a column is unsigned only when it has to be
      if values.any fun v => (v.bind id).any isLarge then
        if values.any fun v => (v.bind id).isNone then .words (fields.map some)
        else .numbers (values.map fun v => (v.bind id).map Float.ofInt)
      else .words given

/-- The column of the given fields. The least whole number stands for a missing one when
something is missing. -/
def ofFields (fields : List String) : Column :=
  let given := fields.map given?
  match given.mapM fun field => field.mapM signed with
  | .error .notNumeral => ofParts given
  | .error .outOfRange => ofLarge fields
  | .ok values =>
      let isMissing (n : Int) : Bool := values.contains none && n == Int64.minValue.toInt
      .numbers (values.map fun v => (v.filter (!isMissing ·)).map Float.ofInt)

/-- Which fields of the column are numbers. -/
def numbered : Column → List Bool
  | .numbers values => values.map Option.isSome
  | .words fields => fields.map fun field => (field.bind real?).isSome

/-- The numbers of the chosen fields; a missing one is undefined. Words are read as reals at large,
and the first that is none is returned in their place. -/
def reals (c : Column) (chosen : List Bool) : Except String (List Float) :=
  let select {α : Type} (xs : List α) : List α := ((xs.zip chosen).filter Prod.snd).map Prod.fst
  match c with
  | .numbers values => .ok ((select values).map fun v => v.getD (0 / 0))
  | .words fields => (select fields).mapM fun field =>
      match field with
      | none => .ok (0 / 0)
      | some text =>
          match readReal? text with
          | some x => .ok x
          | none => .error text

end Column

end LargeNeighborhood
