import LargeNeighborhood.Text.Visible

set_option autoImplicit false

/-! # Quoted text

A text in quotes shows every character it holds. The quotes are single unless the text holds a
single quote and no double one. The quote in use and the backslash are marked by a backslash,
line ends and tabs have a letter, and other characters that are not visible are written by
their number with two, four or eight hexadecimal digits.
-/

namespace LargeNeighborhood

namespace Quoted

/-- A number with at least `width` hexadecimal digits. -/
def hex (width : Nat) (n : Nat) : String :=
  let digits := Nat.toDigits 16 n
  String.ofList (List.replicate (width - digits.length) '0' ++ digits)

/-- One character between quotes `quote`. -/
def encodeChar (quote : Char) (c : Char) : String :=
  if c = quote ∨ c = '\\' then String.ofList ['\\', c]
  else if c = '\t' then "\\t"
  else if c = '\n' then "\\n"
  else if c = '\r' then "\\r"
  else if Visible.test c then String.singleton c
  else if c.toNat < 0x100 then "\\x" ++ hex 2 c.toNat
  else if c.toNat < 0x10000 then "\\u" ++ hex 4 c.toNat
  else "\\U" ++ hex 8 c.toNat

end Quoted

/-- A text in quotes, every character shown. -/
def quoted (s : String) : String :=
  let quote := if s.contains '\'' && !s.contains '"' then '"' else '\''
  String.singleton quote ++ String.join (s.toList.map (Quoted.encodeChar quote)) ++
    String.singleton quote

end LargeNeighborhood
