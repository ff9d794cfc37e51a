set_option autoImplicit false

/-! # Tables of fields separated by blanks

A table is a text of rows, one a line, whose fields are separated by spaces and tabs. Lines
without fields are no rows. A field that starts with a double quote goes on to the next one,
whatever stands between them; a doubled quote inside stands for one, and characters that follow
the closing quote belong to the field still. A quote inside any other field is a character like
the rest.

A line ends with a line feed, a carriage return, or the two together. Some lines at the top may
be passed over. Their quotes count where a field starts, so that a quoted line end does not end
such a line, and neither does an end that is the very first character of it, unless it is a line
feed.

`Table.rows` reads a table by a scan that takes one character at a time. It fails at a quote that
is never closed.
-/

namespace LargeNeighborhood

namespace Table

/-- Where in a line a scan stands. -/
inductive Stage where
  /-- At the start of a line. -/
  | lineStart
  /-- Behind the carriage return of a line without a row. -/
  | emptyReturn
  /-- Behind blanks at the start of a line. -/
  | indented
  /-- Inside a field. -/
  | field
  /-- Between the quotes of a field. -/
  | quoted
  /-- Behind a quote that may close a field or be doubled. -/
  | quotedQuote
  /-- Behind blanks that follow a field. -/
  | gap
  /-- Behind the carriage return of a row. -/
  | rowReturn
  /-- In a line that is passed over, where a field may start. -/
  | passedGap
  /-- In a line that is passed over, inside a field. -/
  | passedField
  /-- In a line that is passed over, between quotes. -/
  | passedQuoted
  /-- In a line that is passed over, behind a quote that may be doubled. -/
  | passedQuote
  deriving DecidableEq

/-- A scan of a table: the stage, the field and the row at hand, both backwards, the rows found,
and how many lines have ended. -/
structure Scan where
  stage : Stage
  field : List Char
  row : List String
  found : Array (List String)
  ended : Nat

def isBlank (c : Char) : Bool := c == ' ' || c == '\t'

/-- A field ends at a null character, whatever follows it. -/
def fieldText (cs : List Char) : String := String.ofList (cs.takeWhile (· != '\x00'))

namespace Scan

def start : Scan := ⟨.lineStart, [], [], #[], 0⟩

def goto (s : Scan) (stage : Stage) : Scan := { s with stage }

def push (s : Scan) (c : Char) (stage : Stage) : Scan := { s with stage, field := c :: s.field }

def endField (s : Scan) (stage : Stage) : Scan :=
  { s with stage, field := [], row := fieldText s.field.reverse :: s.row }

/-- Ends a line that is a row. -/
def endRow (s : Scan) (stage : Stage) : Scan :=
  { s with stage, row := [], found := s.found.push s.row.reverse, ended := s.ended + 1 }

/-- Ends a line that is no row. -/
def endEmpty (s : Scan) (stage : Stage) : Scan := { s with stage, ended := s.ended + 1 }

/-- The first character of a field. -/
def startField (s : Scan) (c : Char) : Scan :=
  if c = '"' then s.goto .quoted else s.push c .field

/-- A character in front of the first field of a line. -/
def beforeFields (s : Scan) (c : Char) : Scan :=
  if c = '\n' then s.endEmpty .lineStart
  else if c = '\r' then s.endEmpty .emptyReturn
  else if isBlank c then s.goto .indented
  else s.startField c

/-- The first character of a line. The first `passed` lines are passed over. -/
def startLine (passed : Nat) (s : Scan) (c : Char) : Scan :=
  if s.ended < passed then
    if c = '"' then s.goto .passedQuoted
    else if c = '\n' then s.endEmpty .lineStart
    else s.goto .passedField
  else s.beforeFields c

/-- A character behind a field. -/
def afterField (s : Scan) (c : Char) : Scan :=
  if c = '\n' then s.endRow .lineStart
  else if c = '\r' then s.goto .rowReturn
  else s.goto .gap

/-- A character behind the end of a field in a line that is passed over. -/
def afterPassed (s : Scan) (c : Char) (other : Stage) : Scan :=
  if c = '\n' then s.endEmpty .lineStart
  else if c = '\r' then s.endEmpty .emptyReturn
  else if isBlank c then s.goto .passedGap
  else s.goto other

/-- Whether a character ends a field. -/
def endsField (c : Char) : Bool := c == '\n' || c == '\r' || isBlank c

/-- Takes one character. -/
def step (passed : Nat) (s : Scan) (c : Char) : Scan :=
  match s.stage with
  | .lineStart => s.startLine passed c
  | .emptyReturn => if c = '\n' then s.goto .lineStart else s.startLine passed c
  | .indented => s.beforeFields c
  | .field => if endsField c then (s.endField .gap).afterField c else s.push c .field
  | .quoted => if c = '"' then s.goto .quotedQuote else s.push c .quoted
  | .quotedQuote =>
      -- two quotes inside quotes are one
      if c = '"' then s.push c .quoted
      else if endsField c then (s.endField .gap).afterField c
      else s.push c .field
  | .gap => if endsField c then s.afterField c else s.startField c
  | .rowReturn =>
      -- a line feed behind the carriage return belongs to the same end of line
      if c = '\n' then s.endRow .lineStart
      else if isBlank c then s.endRow .gap
      else (s.endRow .lineStart).startLine passed c
  | .passedGap => s.afterPassed c (if c = '"' then .passedQuoted else .passedField)
  | .passedField => s.afterPassed c .passedField
  | .passedQuoted => if c = '"' then s.goto .passedQuote else s
  | .passedQuote => s.afterPassed c (if c = '"' then .passedQuoted else .passedField)

/-- The end of the text. It fails inside quotes, with the number of lines that have ended. -/
def finish (s : Scan) : Except Nat (List (List String)) :=
  match s.stage with
  | .quoted => .error s.ended
  | .field | .quotedQuote => .ok (((s.endField .gap).endRow .lineStart).found.toList)
  | .gap | .rowReturn => .ok ((s.endRow .lineStart).found.toList)
  | _ => .ok s.found.toList

/-- Whether a scan has found as many rows as are wanted. -/
def isFull (limit : Option Nat) (s : Scan) : Bool := limit.any (· ≤ s.found.size)

/-- Scans a text up to its end, or until there are rows enough. -/
def run (passed : Nat) (limit : Option Nat) (s : Scan) :
    List Char → Except Nat (List (List String))
  | [] => s.finish
  | c :: cs =>
      let next := s.step passed c
      if next.isFull limit then .ok next.found.toList else next.run passed limit cs

end Scan

/-- The rows of a table behind the lines that are passed over, at most a positive limit of them.
A byte order mark at the very front is no part of the table. Fails with the number of lines in
front of a field that is never closed. -/
def rows (passed : Nat) (limit : Option Nat) (text : String) : Except Nat (List (List String)) :=
  let cs := text.toList
  Scan.start.run passed limit (if cs.head? = some '\ufeff' then cs.drop 1 else cs)

/-- The largest number of fields in a row. -/
def widest (rows : List (List String)) : Nat := (rows.map List.length).foldl max 0

end Table

end LargeNeighborhood
