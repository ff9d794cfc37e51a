set_option autoImplicit false

/-! # Powers of two and ten

The two bases that numbers are taken apart in: binary words and mantissas, and decimal digits.
-/

namespace LargeNeighborhood

def twoTo (n : Nat) : Nat := Nat.pow 2 n

def tenTo (n : Nat) : Nat := Nat.pow 10 n

theorem twoTo_pos (n : Nat) : 0 < twoTo n := Nat.two_pow_pos n

end LargeNeighborhood
