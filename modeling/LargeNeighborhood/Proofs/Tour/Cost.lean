import LargeNeighborhood.Proofs.Tour.CheapestPlace
import LargeNeighborhood.Tour.Details
import Mathlib.Algebra.Order.BigOperators.Group.List

set_option autoImplicit false

/-! # Costs and lengths

Two sums are made of the legs of a tour. The leg statistics add them up as whole numbers of any
size, and their total is the length of the route. The cost adds them up in 64 bits and becomes a
whole number only afterwards, so it is the remainder of the length that 64 bits with a sign can
hold. The two agree exactly where the length itself fits (`Tour.objective_eq_iff_fits`), which it
does unless distances are enormous; where it does not, the cost of a long route may be negative.
-/

namespace LargeNeighborhood

/-- A whole number comes back from 64 bits just when it fits them. -/
theorem Fault.fits_iff_toInt_ofInt (n : Int) : Fault.fits n ↔ (Int64.ofInt n).toInt = n := by
  constructor
  · rintro ⟨hlow, hhigh⟩
    rw [Int64.toInt_minValue] at hlow
    rw [Int64.toInt_maxValue] at hhigh
    exact Int64.toInt_ofInt_of_le (by omega) (by omega)
  · intro h
    rw [← h]
    exact ⟨Int64.minValue_le_toInt _, Int64.toInt_le _⟩

namespace Tour

variable {t : Tour} {lengths : List Int}

/-! ## The length of a route -/

/-- Every leg of a tour on its table has a length. -/
theorem Placed.legLengths_eq (ht : t.Placed) :
    t.legLengths = .ok (if t.route.length < 2 then []
      else (legs t.route).map fun leg => t.problem.distances.between leg.1 leg.2) := by
  unfold legLengths
  split
  · rfl
  · rw [mapM_eq_ok, List.forall₂_map_right_iff, List.forall₂_same]
    intro leg hleg
    obtain ⟨d, hd⟩ := ht.exists_leg_ok hleg
    exact bind_eq_ok.mpr ⟨d, hd, by rw [DistanceTable.between_of_get hd]; rfl⟩

theorem total_eq_sum (ns : List Int) : total ns = ns.sum := List.sum_eq_foldl.symm

/-- The legs of a tour add up to the length of its route. -/
theorem Placed.total_legLengths (ht : t.Placed) (h : t.legLengths = .ok lengths) :
    total lengths = closedLength t.problem.distances.between t.route := by
  rw [ht.legLengths_eq] at h
  cases h
  unfold closedLength
  split
  · rfl
  · rw [total_eq_sum]

/-- The length of every leg stands in the table. -/
theorem Placed.exists_entry (ht : t.Placed) {leg : Int × Int} (hleg : leg ∈ legs t.route) :
    ∃ d ∈ t.problem.distances.entries, t.problem.distances.between leg.1 leg.2 = d.toInt := by
  obtain ⟨d, hd⟩ := ht.exists_leg_ok hleg
  exact ⟨d, DistanceTable.mem_entries hd, DistanceTable.between_of_get hd⟩

theorem Placed.closedLength_nonneg (ht : t.Placed)
    (hentries : ∀ d ∈ t.problem.distances.entries, 0 ≤ d.toInt) :
    0 ≤ closedLength t.problem.distances.between t.route := by
  unfold closedLength
  split
  · exact le_rfl
  · apply List.sum_nonneg
    rw [List.forall_mem_map]
    intro leg hleg
    obtain ⟨d, hd, hbetween⟩ := ht.exists_entry hleg
    rw [hbetween]
    exact hentries d hd

/-- A route is at most as long as its number of legs times the greatest distance. -/
theorem Placed.natAbs_closedLength_le (ht : t.Placed) {bound : Nat}
    (hentries : ∀ d ∈ t.problem.distances.entries, d.toInt.natAbs ≤ bound) :
    (closedLength t.problem.distances.between t.route).natAbs ≤ t.route.length * bound := by
  unfold closedLength
  split
  · exact Nat.zero_le _
  · have hlegs : ∀ n ∈ (legs t.route).map fun leg => t.problem.distances.between leg.1 leg.2,
        -(bound : Int) ≤ n ∧ n ≤ bound := by
      rw [List.forall_mem_map]
      intro leg hleg
      obtain ⟨d, hd, hbetween⟩ := ht.exists_entry hleg
      have hsmall := hentries d hd
      omega
    -- As many legs as visits, each within the bound on both sides.
    have hlow := List.card_nsmul_le_sum _ _ fun n hn => (hlegs n hn).1
    have hhigh := List.sum_le_card_nsmul _ _ fun n hn => (hlegs n hn).2
    rw [List.length_map, length_legs, nsmul_eq_mul] at hlow hhigh
    rw [mul_neg, ← Nat.cast_mul] at hlow
    rw [← Nat.cast_mul] at hhigh
    omega

/-- Where the number of visits times the greatest distance fits 64 bits, the length does. -/
theorem Placed.fits_closedLength (ht : t.Placed) {bound : Nat}
    (hentries : ∀ d ∈ t.problem.distances.entries, d.toInt.natAbs ≤ bound)
    (hbound : t.route.length * bound ≤ Int64.maxValue.toInt) :
    Fault.fits (closedLength t.problem.distances.between t.route) := by
  have hlength := ht.natAbs_closedLength_le hentries
  unfold Fault.fits
  rw [Int64.toInt_maxValue] at hbound ⊢
  rw [Int64.toInt_minValue]
  omega

/-! ## Cost and length -/

/-- The cost of a tour is what 64 bits keep of its length, with the penalties on top. -/
theorem Placed.objective_eq (ht : t.Placed) :
    t.objective = .ok ((Int64.ofInt (closedLength t.problem.distances.between t.route)).toInt +
      penalty * t.bank.length) := by
  rw [objective, ht.routeCost_eq]
  rfl

/-- Where the table has all visits of a tour, the edge statistics add up to the length of the route
as a whole number of any size; the cost of the route is what 64 bits keep of that length, and the
penalties come on top of it without a limit. Cost and length agree just when the length fits 64
bits, as it does where the number of visits times the greatest distance fits; then no tour of
nonnegative distances has a negative cost. -/
theorem objective_eq_iff_fits (ht : t.Placed) :
    let length := closedLength t.problem.distances.between t.route
    let entries := t.problem.distances.entries
    ∃ cost routeCost lengths, t.objective = .ok cost ∧ t.routeCost = .ok routeCost ∧
      t.legLengths = .ok lengths ∧ total lengths = length ∧
      routeCost.toInt = length.bmod (2 ^ 64) ∧
      cost = routeCost.toInt + penalty * t.bank.length ∧
      (cost = length + penalty * t.bank.length ↔ Fault.fits length) ∧
      (routeCost.toInt = total lengths ↔ Fault.fits length) ∧
      ((∀ d ∈ entries, 0 ≤ d.toInt) → 0 ≤ length ∧ (Fault.fits length → 0 ≤ cost)) ∧
      (∀ bound : Nat, (∀ d ∈ entries, d.toInt.natAbs ≤ bound) →
        t.route.length * bound ≤ Int64.maxValue.toInt → Fault.fits length) := by
  intro length entries
  have htotal := ht.total_legLengths ht.legLengths_eq
  have hfits := Fault.fits_iff_toInt_ofInt length
  refine ⟨_, _, _, ht.objective_eq, ht.routeCost_eq, ht.legLengths_eq, htotal, Int64.toInt_ofInt, rfl, ?_,
    ?_, ?_, ?_⟩
  · rw [Int.add_left_inj]
    exact hfits.symm
  · rw [htotal]
    exact hfits.symm
  · intro hentries
    have hlength : 0 ≤ length := ht.closedLength_nonneg hentries
    refine ⟨hlength, ?_⟩
    intro hfit
    rw [hfits.mp hfit, penalty]
    omega
  · exact fun _ hentries hbound => ht.fits_closedLength hentries hbound

end Tour

/-! ### Three visits, all equally far apart -/

/-- Three visits, each as far from the others as the others are from it. -/
def Problem.apart (d : Int64) : Problem where
  tag := 0
  name := "apart"
  visits := [0, 1, 2]
  distances := .ofFunction 3 fun i j => if i = j then 0 else d
  points := none
  square := rfl

namespace Tour

theorem placed_apart (d : Int64) {route : List Int} (hroute : ∀ v ∈ route, v ∈ [(0 : Int), 1, 2])
    (bank : List Int) : Tour.Placed ⟨.apart d, route, bank⟩ := by
  intro v hv
  have hbounds : ∀ v ∈ [(0 : Int), 1, 2], -3 ≤ v ∧ v < 3 := by decide
  exact DistanceTable.places_iff.mpr (hbounds v (hroute v hv))

/-- There and back the length is the greatest even number of 64 bits, and the penalty of the visit
in the bank leads beyond them. -/
theorem objective_eq_iff_fits_apart :
    let t : Tour := ⟨.apart 4611686018427387903, [0, 1], [2]⟩
    t.Placed ∧ Fault.fits (closedLength t.problem.distances.between t.route) ∧
      t.objective = .ok (9223372036854775806 + 1000) := by
  intro t
  have ht : t.Placed := placed_apart _ (by decide) _
  have hentries : (t.problem.distances.entries.all fun d =>
      decide (d.toInt.natAbs ≤ 4611686018427387903)) = true := by decide +kernel
  rw [Array.all_eq_true_iff_forall_mem] at hentries
  have hlength : closedLength t.problem.distances.between t.route = 9223372036854775806 := by
    decide +kernel
  obtain ⟨cost, routeCost, lengths, hcost, -, -, -, -, -, hiff, -, -, hbound⟩ :=
    objective_eq_iff_fits ht
  have hfits := hbound 4611686018427387903 (fun d hd => of_decide_eq_true (hentries d hd))
    (by decide)
  refine ⟨ht, hfits, ?_⟩
  rw [hcost, hiff.mpr hfits, hlength]
  rfl

/-- Three legs of `2 ^ 62` do not fit: the tour costs less than nothing. -/
theorem objective_negative_apart :
    let t : Tour := ⟨.apart 4611686018427387904, [0, 1, 2], []⟩
    let d := t.problem.distances
    t.Placed ∧ (∀ e ∈ d.entries, 0 ≤ e.toInt) ∧
      t.legLengths = .ok [4611686018427387904, 4611686018427387904, 4611686018427387904] ∧
      total [4611686018427387904, 4611686018427387904, 4611686018427387904] =
        13835058055282163712 ∧
      t.objective = .ok (-4611686018427387904) := by
  intro t d
  have hentries : (d.entries.all fun e => decide (0 ≤ e.toInt)) = true := by decide +kernel
  rw [Array.all_eq_true_iff_forall_mem] at hentries
  exact ⟨placed_apart _ (by decide) _, fun e he => of_decide_eq_true (hentries e he),
    by decide +kernel, by decide, by decide +kernel⟩

end Tour

end LargeNeighborhood
