import LargeNeighborhood.Proofs.Tour.Cost
import Mathlib.Data.List.Zip

set_option autoImplicit false

/-! # Where and which way a tour is read

A closed route has no first visit, so the tour that starts elsewhere is the same loop
(`Tour.SameLoop`), and so is the one that goes round the other way where the way between two visits
is as long as the way back. Which order the bank is in matters even less. All readings of a loop cost
the same (`Tour.SameLoop.cost_of_sameLoop`), for short routes too and where the sum of the legs wraps around.
-/

namespace LargeNeighborhood

namespace DistanceTable

/-- The way from one visit to another is as long as the way back. -/
def Symmetric (t : DistanceTable) : Prop :=
  ∀ i < t.size, ∀ j < t.size, t.at? i j = t.at? j i

instance (t : DistanceTable) : Decidable t.Symmetric := inferInstanceAs (Decidable (∀ _, _))

/-- In a symmetric table the distances between visits that are counted from its end are the same
there and back, too. -/
theorem Symmetric.at?_comm {t : DistanceTable} (ht : t.Symmetric) (a b : Int) :
    t.at? a b = t.at? b a := by
  -- A position is looked up at the index that it resolves to.
  have hindex : ∀ {v k}, Position.resolve? t.size v = some k →
      k < t.size ∧ Position.resolve? t.size k = some k := by
    intro v k hk
    have hlt := Position.resolve?_lt hk
    exact ⟨hlt, Position.resolve?_natCast hlt⟩
  cases ha : Position.resolve? t.size a with
  | none => cases hb : Position.resolve? t.size b <;> simp [at?, ha, hb]
  | some i =>
      cases hb : Position.resolve? t.size b with
      | none => simp [at?, ha, hb]
      | some j =>
          obtain ⟨hi, hii⟩ := hindex ha
          obtain ⟨hj, hjj⟩ := hindex hb
          have hij := ht i hi j hj
          simp only [at?, hii, hjj] at hij
          simp only [at?, ha, hb]
          exact hij

theorem Symmetric.between_comm {t : DistanceTable} (ht : t.Symmetric) (a b : Int) :
    t.between a b = t.between b a := by
  rw [between, between, ht.at?_comm]

end DistanceTable

namespace Tour

/-! ## The other way round -/

theorem rotate_one_reverse_rotate_one (route : List Int) :
    (route.rotate 1).reverse.rotate 1 = route.reverse := by
  cases route with
  | nil => rfl
  | cons v route => simp

/-- The other way round, every leg leads back, and the last leg comes first. -/
theorem legs_reverse (route : List Int) :
    legs route.reverse = ((legs route).map Prod.swap).reverse.rotate 1 := by
  have hlength : (route.rotate 1).reverse.length = route.reverse.length := by simp
  -- Legs pair a route with the route turned by one, and turning back is turning the reverse.
  calc legs route.reverse
      = List.zip ((route.rotate 1).reverse.rotate 1) (route.reverse.rotate 1) := by
        rw [legs_eq, rotate_one_reverse_rotate_one]
    _ = ((route.rotate 1).reverse.zip route.reverse).rotate 1 :=
        (List.zipWith_rotate_distrib _ _ _ _ hlength).symm
    _ = ((legs route).map Prod.swap).reverse.rotate 1 := by
        rw [legs_eq, List.zip_swap, List.zip_eq_zipWith, List.zip_eq_zipWith,
          List.reverse_zipWith (by simp)]

/-- Where ways back are as long, it does not matter which way round a closed route goes. -/
theorem closedLength_reverse {d : Int → Int → Int} (hd : ∀ a b, d a b = d b a)
    (route : List Int) : closedLength d route.reverse = closedLength d route := by
  have hback : ((legs route).map Prod.swap).map (fun leg => d leg.1 leg.2) =
      (legs route).map fun leg => d leg.1 leg.2 := by
    rw [List.map_map]
    exact List.map_congr_left fun leg _ => hd leg.2 leg.1
  have hsum : ((legs route.reverse).map fun leg => d leg.1 leg.2).sum =
      ((legs route).map fun leg => d leg.1 leg.2).sum := by
    rw [legs_reverse, List.map_rotate, (List.rotate_perm _ 1).sum_eq, List.map_reverse,
      List.sum_reverse, hback]
  rw [closedLength, closedLength, List.length_reverse, hsum]

/-! ## Readings of a loop -/

/-- Two tours that are one loop, read from some visit in some direction, with the same visits in the
bank. The direction may differ only where distances are symmetric. -/
structure SameLoop (t u : Tour) : Prop where
  problem : u.problem = t.problem
  bank : t.bank.Perm u.bank
  route : t.route.IsRotated u.route ∨
    t.problem.distances.Symmetric ∧ t.route.reverse.IsRotated u.route

namespace SameLoop

variable {t u : Tour}

theorem route_perm (h : t.SameLoop u) : t.route.Perm u.route := by
  rcases h.route with hturned | ⟨-, hturned⟩
  · exact hturned.perm
  · exact (List.reverse_perm t.route).symm.trans hturned.perm

theorem placed (h : t.SameLoop u) (ht : t.Placed) : u.Placed := by
  intro v hv
  rw [h.problem]
  exact ht v (h.route_perm.mem_iff.mpr hv)

theorem closedLength_eq (h : t.SameLoop u) :
    closedLength u.problem.distances.between u.route =
      closedLength t.problem.distances.between t.route := by
  rw [h.problem]
  rcases h.route with ⟨n, hturned⟩ | ⟨hsymmetric, n, hturned⟩
  · rw [← hturned, closedLength_rotate]
  · rw [← hturned, closedLength_rotate, closedLength_reverse hsymmetric.between_comm]

/-- All readings of a loop cost the same. -/
theorem cost_of_sameLoop (h : t.SameLoop u) (ht : t.Placed) :
    ∃ length cost, t.routeCost = .ok length ∧ t.objective = .ok cost ∧
      u.routeCost = .ok length ∧ u.objective = .ok cost := by
  have hlength : u.routeCost = t.routeCost := by
    rw [ht.routeCost_eq, (h.placed ht).routeCost_eq, h.closedLength_eq]
  have hcost : u.objective = t.objective := by
    rw [objective, objective, hlength, h.bank.length_eq]
  obtain ⟨cost, ht'⟩ := ht.exists_objective_ok
  exact ⟨_, cost, ht.routeCost_eq, ht', hlength.trans ht.routeCost_eq, hcost.trans ht'⟩

/-- Three of five visits, read backwards from the second one. One of them is counted from the end of
the table. -/
theorem cost_of_sameLoop_fiveVisits :
    let t : Tour := ⟨.fiveVisits, [0, 3, -3], [1, 4]⟩
    let u : Tour := ⟨.fiveVisits, [3, 0, -3], [4, 1]⟩
    t.SameLoop u ∧ t.Placed ∧ u.routeCost = .ok 14 ∧ u.objective = .ok 2014 := by
  intro t u
  have hloop : t.SameLoop u := ⟨rfl, by decide, Or.inr ⟨by decide +kernel, 1, rfl⟩⟩
  have ht : t.Placed := by
    intro v hv
    exact Problem.fiveVisits_sound.placed v (by revert v; decide)
  obtain ⟨length, cost, hlength, hcost, hlength', hcost'⟩ := hloop.cost_of_sameLoop ht
  have hforth : t.routeCost = .ok 14 ∧ t.objective = .ok 2014 := by decide +kernel
  rw [hforth.1] at hlength
  rw [hforth.2] at hcost
  cases hlength
  cases hcost
  exact ⟨hloop, ht, hlength', hcost'⟩

end SameLoop

/-- In a street of one direction the way round is not the way back. -/
example :
    let p : Problem := { Problem.apart 5 with
      distances := .ofFunction 3 fun i j => if j = (i + 1) % 3 then 1 else 5
      square := rfl }
    ¬ p.distances.Symmetric ∧ (⟨p, [0, 1, 2], []⟩ : Tour).routeCost = .ok 3 ∧
      (⟨p, [2, 1, 0], []⟩ : Tour).routeCost = .ok 15 := by decide +kernel

end Tour

end LargeNeighborhood
