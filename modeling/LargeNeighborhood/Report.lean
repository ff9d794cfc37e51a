import LargeNeighborhood.Fault

set_option autoImplicit false

/-! # Reports

A report is a list of pieces of text, each of which may turn out to be impossible to write.
Printing goes through the pieces in order and stops at the first such one; what stands before it
is printed nevertheless.
-/

namespace LargeNeighborhood

abbrev Report := List (Except Fault String)

namespace Report

/-- The text that is printed, and how printing ends. -/
def print : Report → Except Fault Unit × String
  | [] => (.ok (), "")
  | .error fault :: _ => (.error fault, "")
  | .ok text :: rest =>
      let (result, printed) := print rest
      (result, text ++ printed)

/-- A line of fixed text. -/
def line (text : String) : Except Fault String := .ok (text ++ "\n")

/-- A character many times. -/
def rule (c : Char) (n : Nat) : String := String.ofList (List.replicate n c)

/-- A text in a column of at least `width` characters, on the right. -/
def padLeft (width : Nat) (s : String) : String := rule ' ' (width - s.length) ++ s

/-- A text in a column of at least `width` characters, on the left. -/
def padRight (width : Nat) (s : String) : String := s ++ rule ' ' (width - s.length)

end Report

end LargeNeighborhood
