set_option autoImplicit false

/-! # Positions counted from either end

A position `i` of a sequence of `n` items names the item `i` counted from the front when it is
not negative, and the item `-i` counted from the back otherwise. All other positions name
nothing.
-/

namespace LargeNeighborhood

namespace Position

/-- The index that position `i` names in a sequence of `n` items. -/
def resolve? (n : Nat) (i : Int) : Option Nat :=
  if 0 ≤ i then
    if i < n then some i.toNat else none
  else if -(n : Int) ≤ i then some (i + n).toNat
  else none

theorem resolve?_lt {n : Nat} {i : Int} {k : Nat} (h : resolve? n i = some k) : k < n := by
  unfold resolve? at h
  split at h
  · split at h
    · cases h; omega
    · cases h
  · split at h
    · cases h; omega
    · cases h

theorem resolve?_natCast {n k : Nat} (h : k < n) : resolve? n (k : Int) = some k := by
  have h0 : (0 : Int) ≤ k := by omega
  have h1 : (k : Int) < n := by omega
  simp [resolve?, h]

/-- The item at a position counted from either end. -/
def get? {α : Type} (xs : List α) (i : Int) : Option α :=
  (resolve? xs.length i).bind fun k => xs[k]?

end Position

end LargeNeighborhood
