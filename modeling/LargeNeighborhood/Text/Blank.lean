set_option autoImplicit false

/-! # Blank characters

Blanks separate words in any script; `strip` takes them from both ends of a text. The four
information separators count as blanks around a word but not around a numeral, so the set comes
in two sizes.
-/

namespace LargeNeighborhood

namespace Blank

/-- Blanks around numerals: the space characters of all scripts and the line controls. -/
def aroundNumeral (c : Char) : Bool :=
  let n := c.toNat
  decide ((9 ≤ n ∧ n ≤ 13) ∨ n = 0x20 ∨ n = 0x85 ∨ n = 0xa0 ∨ n = 0x1680 ∨
    (0x2000 ≤ n ∧ n ≤ 0x200a) ∨ n = 0x2028 ∨ n = 0x2029 ∨ n = 0x202f ∨ n = 0x205f ∨ n = 0x3000)

/-- Blanks around words: the information separators as well. -/
def aroundWord (c : Char) : Bool :=
  aroundNumeral c || decide (0x1c ≤ c.toNat ∧ c.toNat ≤ 0x1f)

/-- A list without the members at both ends that satisfy `p`. -/
def trim {α : Type} (p : α → Bool) (xs : List α) : List α :=
  ((xs.dropWhile p).reverse.dropWhile p).reverse

end Blank

/-- A text without the blanks at both ends. -/
def strip (s : String) : String := String.ofList (Blank.trim Blank.aroundWord s.toList)

end LargeNeighborhood
