import LargeNeighborhood.Text.Column
import LargeNeighborhood.Text.Lines
import LargeNeighborhood.Text.Path
import LargeNeighborhood.Text.Table
import LargeNeighborhood.Text.Uppercase
import LargeNeighborhood.Tour.Problem

set_option autoImplicit false

/-! # Instance files

An instance file in the TSPLIB format begins with header lines `KEY : value`. The line that
starts with `NODE_COORD_SECTION` ends the header; rows of an identifier and two coordinates
follow. Of a repeated key the last line counts. `DIMENSION` limits how many rows are read, and
`NAME` names the instance, which otherwise goes by the file's name without its extension.

Rows are split at spaces and tabs, and blank rows are skipped. A row whose identifier is not a
number, such as the closing `EOF`, is dropped after the rows are counted out; fewer rows left
than `DIMENSION` says is a fault, and so is a coordinate that is not a number. The visits are
numbered in the order of the rows whatever their identifiers are.
-/

namespace LargeNeighborhood

namespace Instance

/-- What the line that ends the header starts with. -/
def sectionMark : String := "NODE_COORD_SECTION"

/-- A header as its lines in order. -/
abbrev Header := List (String × String)

/-- The value of the last header line with a given key. -/
def Header.value? (h : Header) (key : String) : Option String :=
  (h.reverse.find? fun entry => entry.1 == key).map Prod.snd

/-- Splits a text at the first colon. -/
def splitColon (cs : List Char) : Option (List Char × List Char) :=
  match cs.span (· != ':') with
  | (key, ':' :: value) => some (key, value)
  | _ => none

/-- A header line: its key in upper case and its value, without blanks around them. -/
def headerLine? (line : String) : Option (String × String) :=
  (splitColon line.toList).map fun (key, value) =>
    (upper (strip (String.ofList key)), strip (String.ofList value))

/-- The header, and the number of lines down to the one that ends it. -/
def splitHeader : List String → Option (Header × Nat)
  | [] => none
  | line :: lines =>
      if (strip line).startsWith sectionMark then some ([], 1)
      else do
        let (header, count) ← splitHeader lines
        return ((headerLine? (strip line)).toList ++ header, count + 1)

/-- The row limit that a header sets. -/
def dimension? (h : Header) : Except Fault (Option Int) :=
  match h.value? "DIMENSION" with
  | none => .ok none
  | some text =>
      match readWhole text with
      | .ok n => .ok (some n)
      | .error (.tooLong count) => .error (.tooManyDigits count)
      | .error .malformed => .error (.invalidWhole text)

/-- A column of a table, empty where rows are too short for it. -/
def column (rows : List (List String)) (i : Nat) : Column :=
  .ofFields (rows.map fun row => row[i]?.getD "")

/-- The points of the rows that are numbered; all first coordinates are read before the second
ones. -/
def points (rows : List (List String)) : Except Fault (List (List Float)) :=
  let kept := (column rows 0).numbered
  let coordinates (i : Nat) : Except Fault (List Float) :=
    match (column rows i).reals kept with
    | .ok xs => .ok xs
    | .error text => .error (.invalidReal text)
  do
    let xs ← coordinates 1
    let ys ← coordinates 2
    return (xs.zip ys).map fun (x, y) => [x, y]

/-- The rows of a table, at most a limit of them. The first row is looked at in any case. -/
def rows (passed : Nat) (limit : Option Int) (text : String) :
    Except Fault (List (List String)) :=
  match Table.rows passed (limit.map fun n => max 1 n.toNat) text, limit with
  | .error line, _ => .error (.openQuote line)
  | .ok rows, none => .ok rows
  | .ok rows, some n => if n < 0 then .error .negativeRowCount else .ok (rows.take n.toNat)

/-- Reads the text of an instance file. -/
def parse (tag : Nat) (path text : String) : Except Fault Problem := do
  let some (header, passed) := splitHeader (linesOf text) | throw (.noCoordinateSection path)
  let dimension ← dimension? header
  -- a packed file has been read as a text this far
  if let some format := Packing.ofName? path then throw (.notPacked format)
  let rows ← rows passed dimension text
  if !rows.isEmpty && Table.widest rows < 3 then throw (.missingColumns 3 (Table.widest rows))
  let points ← points rows
  if let some n := dimension then
    if points.length < n then throw (.tooFewCoordinates n path points.length)
  return .measured tag ((header.value? "NAME").getD (Path.stem (Path.fileName path))) points

/-- Reads the bytes of an instance file. -/
def read (tag : Nat) (path : String) (content : ByteArray) : Except Fault Problem :=
  match String.fromUTF8? content with
  | some text => parse tag path text
  | none => .error .undecodableText

end Instance

end LargeNeighborhood
