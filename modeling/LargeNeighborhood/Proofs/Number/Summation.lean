import LargeNeighborhood.Number.Summation
import LargeNeighborhood.Proofs.Number.Unrounded

set_option autoImplicit false

/-! # Sums of whole reals

Rounding makes a sum depend on the order of adding, but a sum of natural numbers of 53 bits in all
is not rounded anywhere on its way. So whatever the order is in which `sumReals` adds, the sum is
the exact one (`holds_sumReals`).
-/

namespace LargeNeighborhood

open Rounding

/-- A real that stands for a natural number. -/
def Holds (x : Float) (n : ℕ) : Prop := worth x = some (exactly n)

theorem holds_zero : Holds 0 0 := by
  unfold Holds
  rw [worth_zero, Nat.cast_zero]

theorem Holds.add {x y : Float} {m n : ℕ} (hx : Holds x m) (hy : Holds y n)
    (h : m + n ≤ 2 ^ 53) : Holds (x + y) (m + n) := by
  have hkept : Kept ((m : ℚ) + n) := by exact_mod_cast kept_natCast h
  have hadd := worth_add hx (Nat.cast_nonneg m) hy (Nat.cast_nonneg n) hkept
  rwa [← Nat.cast_add] at hadd

namespace Summation

variable {sums xs : List Float} {ms ns : List ℕ}

theorem holds_foldl {x : Float} {n : ℕ} (hx : Holds x n) (hxs : List.Forall₂ Holds xs ns)
    (h : n + ns.sum ≤ 2 ^ 53) : Holds (xs.foldl (· + ·) x) (n + ns.sum) := by
  induction hxs generalizing x n with
  | nil => simpa using hx
  | @cons y m ys ms hy hys ih =>
      rw [List.sum_cons, ← Nat.add_assoc] at h ⊢
      exact ih (hx.add hy (by omega)) h

/-- A round that is dealt out is added number by number. -/
theorem holds_zipWith (hsums : List.Forall₂ Holds sums ms) (hxs : List.Forall₂ Holds xs ns)
    (h : ms.sum + ns.sum ≤ 2 ^ 53) :
    List.Forall₂ Holds (sums.zipWith (· + ·) xs) (ms.zipWith (· + ·) ns) := by
  induction hsums generalizing xs ns with
  | nil => exact .nil
  | cons hx hsums ih =>
      cases hxs with
      | nil => exact .nil
      | cons hy hxs =>
          rw [List.sum_cons, List.sum_cons] at h
          exact .cons (hx.add hy (by omega)) (ih hxs (by omega))

/-- Dealing out keeps the sum of all numbers and the number of the running sums. -/
theorem holds_deal (hsums : List.Forall₂ Holds sums ms) (hxs : List.Forall₂ Holds xs ns)
    (h : ms.sum + ns.sum ≤ 2 ^ 53) :
    ∃ ms' ns', List.Forall₂ Holds (deal sums xs).1 ms' ∧ List.Forall₂ Holds (deal sums xs).2 ns' ∧
      ms'.length = ms.length ∧ ms'.sum + ns'.sum = ms.sum + ns.sum := by
  fun_induction deal sums xs generalizing ms ns with
  | case1 sums xs hdone => exact ⟨ms, ns, hsums, hxs, rfl, rfl⟩
  | case2 sums xs hround ih =>
      have hlength : sums.length = ms.length := hsums.length_eq
      have hlength' : xs.length = ns.length := hxs.length_eq
      have htake : (ns.take sums.length).length = ms.length := by
        rw [List.length_take]
        omega
      have hsplit : (ns.take sums.length).sum + (ns.drop sums.length).sum = ns.sum := by
        rw [← List.sum_append, List.take_append_drop]
      -- one round adds a number to each of the running sums
      have hsum : (ms.zipWith (· + ·) (ns.take sums.length)).sum =
          ms.sum + (ns.take sums.length).sum := by
        have hall := List.sum_add_sum_eq_sum_zipWith_add_sum_drop ms (ns.take sums.length)
        rw [htake, List.drop_length, ← htake, List.drop_length] at hall
        simpa using hall.symm
      have hadded := holds_zipWith hsums (List.forall₂_take sums.length hxs) (by omega)
      obtain ⟨ms', ns', hms, hns, hcount, htotal⟩ :=
        ih hadded (List.forall₂_drop sums.length hxs) (by omega)
      refine ⟨ms', ns', hms, hns, ?_, by omega⟩
      rw [hcount, List.length_zipWith]
      omega

/-- Adding neighbours keeps the sum and halves the number of summands. -/
theorem holds_pairUp (hxs : List.Forall₂ Holds xs ns) (h : ns.sum ≤ 2 ^ 53) :
    ∃ ms, List.Forall₂ Holds (pairUp xs) ms ∧ ms.length = (ns.length + 1) / 2 ∧
      ms.sum = ns.sum := by
  fun_induction pairUp xs generalizing ns with
  | case1 x y rest ih =>
      obtain _ | ⟨hx, _ | ⟨hy, hrest⟩⟩ := hxs
      simp only [List.sum_cons] at h
      obtain ⟨ms, hms, hcount, hsum⟩ := ih hrest (by omega)
      refine ⟨_ :: ms, .cons (hx.add hy (by omega)) hms, ?_, ?_⟩
      · simp only [List.length_cons]
        omega
      · simp only [List.sum_cons]
        omega
  | case2 xs hshort =>
      have hlength := hxs.length_eq
      have hone : xs.length ≤ 1 := by
        match xs, hshort with
        | [], _ => exact Nat.zero_le 1
        | [x], _ => exact le_refl 1
        | x :: y :: rest, hshort => exact absurd rfl (hshort x y rest)
      exact ⟨ns, hxs, by omega, rfl⟩

theorem holds_ofBlock (hxs : List.Forall₂ Holds xs ns) (h : ns.sum ≤ 2 ^ 53) :
    Holds (ofBlock xs) ns.sum := by
  unfold ofBlock
  split
  · simpa using holds_foldl holds_zero hxs (by omega)
  · rename_i hlong
    have hlength := hxs.length_eq
    have hsplit : (ns.take 8).sum + (ns.drop 8).sum = ns.sum := by
      rw [← List.sum_append, List.take_append_drop]
    obtain ⟨ms, rest, hms, hrest, hcount, htotal⟩ :=
      holds_deal (List.forall₂_take 8 hxs) (List.forall₂_drop 8 hxs) (by omega)
    -- eight running sums come to four, to two and to one, and what is left over is added at the end
    obtain ⟨ms₄, hms₄, hcount₄, hsum₄⟩ := holds_pairUp hms (by omega)
    obtain ⟨ms₂, hms₂, hcount₂, hsum₂⟩ := holds_pairUp hms₄ (by omega)
    obtain ⟨ms₁, hms₁, hcount₁, hsum₁⟩ := holds_pairUp hms₂ (by omega)
    have hone : ms₁.length = 1 := by
      rw [List.length_take] at hcount
      omega
    obtain ⟨total, rfl⟩ := List.length_eq_one_iff.mp hone
    rw [List.sum_singleton] at hsum₁
    dsimp only
    generalize pairUp (pairUp (pairUp (deal (xs.take 8) (xs.drop 8)).1)) = pairs at hms₁
    obtain _ | ⟨hx, -⟩ := hms₁
    have hfold := holds_foldl hx hrest (by omega)
    have htotal' : total + rest.sum = ns.sum := by omega
    rw [htotal'] at hfold
    exact hfold

end Summation

/-- A sum of natural numbers that has 53 bits is exact. -/
theorem holds_sumReals {xs : List Float} {ns : List ℕ} (hxs : List.Forall₂ Holds xs ns)
    (h : ns.sum ≤ 2 ^ 53) : Holds (sumReals xs) ns.sum := by
  fun_induction sumReals xs generalizing ns with
  | case1 xs hshort => exact Summation.holds_ofBlock hxs h
  | case2 xs hlong cut ih =>
      rename_i ih'
      have hsplit : (ns.take cut).sum + (ns.drop cut).sum = ns.sum := by
        rw [← List.sum_append, List.take_append_drop]
      have hleft := ih (List.forall₂_take cut hxs) (by omega)
      have hright := ih' (List.forall₂_drop cut hxs) (by omega)
      rw [← hsplit]
      exact hleft.add hright (by omega)

end LargeNeighborhood
