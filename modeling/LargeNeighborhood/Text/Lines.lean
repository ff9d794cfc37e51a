import LargeNeighborhood.Text.Blank

set_option autoImplicit false

/-! # Lines

A line ends with a line feed, a carriage return, or the two together. The last line needs no
end, and an end at the very last opens no further line.

A message for people may end its lines with other characters too: the controls for a vertical
step, the information separators but the last, and the line and paragraph separators.
-/

namespace LargeNeighborhood

namespace Lines

/-- Splits off lines; `line` holds the current one backwards. -/
def split (line : List Char) : List Char → List (List Char)
  | [] => if line.isEmpty then [] else [line.reverse]
  | '\r' :: '\n' :: rest => line.reverse :: split [] rest
  | c :: rest =>
      if c = '\n' ∨ c = '\r' then line.reverse :: split [] rest
      else split (c :: line) rest

end Lines

/-- The lines of a text, without their ends. -/
def linesOf (s : String) : List String := (Lines.split [] s.toList).map String.ofList

/-- Whether a character ends a line of a message. -/
def Lines.isBreak (c : Char) : Bool :=
  let n := c.toNat
  decide ((10 ≤ n ∧ n ≤ 13) ∨ (0x1c ≤ n ∧ n ≤ 0x1e) ∨ n = 0x85 ∨ n = 0x2028 ∨ n = 0x2029)

/-- The last line of a message, blanks at the ends of the message aside. -/
def lastLine (message : String) : String :=
  String.ofList (((strip message).toList.reverse.takeWhile (!Lines.isBreak ·)).reverse)

end LargeNeighborhood
