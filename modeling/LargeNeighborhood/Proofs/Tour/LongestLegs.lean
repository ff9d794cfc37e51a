import LargeNeighborhood.Proofs.Tour.Length
import LargeNeighborhood.Proofs.Tour.Removal
import Mathlib.Data.List.Nodup

set_option autoImplicit false

/-! # The longest legs

The visits of a route are ordered by their outgoing legs with a sort that is stable: among equal
members the order of the list is kept (`mergeSort_stable`). So every visit precedes the ones behind
it with a longer leg, or with an equal one from an earlier place (`Removal.Precedes`), and a number
of visits from the front of that order precede all others. The leg of the last visit leads back to
the first one.
-/

namespace LargeNeighborhood

/-- A sorted list is in order, and equal members stand in the order in which they stood. -/
theorem mergeSort_stable {α : Type} {le : α → α → Bool}
    (htrans : ∀ a b c, le a b = true → le b c = true → le a c = true)
    (htotal : ∀ a b, (le a b || le b a) = true) (xs : List α) :
    (xs.mergeSort le).Pairwise fun a b => ∃ i j : Nat, xs[i]? = some a ∧ xs[j]? = some b ∧
      le a b = true ∧ (le b a = true → i < j) := by
  -- The members are sorted along with their indices, which break the ties.
  rw [← List.mergeSort_zipIdx, List.pairwise_map]
  have hperm : (xs.zipIdx.mergeSort (List.zipIdxLE le)).Perm xs.zipIdx := List.mergeSort_perm _ _
  have hsorted := List.pairwise_mergeSort (List.zipIdxLE_trans htrans)
    (List.zipIdxLE_total htotal) xs.zipIdx
  have hindices : (xs.zipIdx.mergeSort (List.zipIdxLE le)).Pairwise fun a b => a.2 ≠ b.2 := by
    have hnodup := (hperm.map Prod.snd).nodup_iff.mpr (List.nodup_zipIdx_map_snd xs)
    exact List.pairwise_map.mp hnodup
  refine (hsorted.and hindices).imp_of_mem ?_
  rintro ⟨a, i⟩ ⟨b, j⟩ ha hb ⟨hle, hne⟩
  refine ⟨i, j, List.mk_mem_zipIdx_iff_getElem?.mp (hperm.mem_iff.mp ha),
    List.mk_mem_zipIdx_iff_getElem?.mp (hperm.mem_iff.mp hb), ?_⟩
  unfold List.zipIdxLE at hle
  split at hle
  · rename_i hab
    refine ⟨hab, ?_⟩
    intro hba
    rw [if_pos hba, decide_eq_true_iff] at hle
    exact Nat.lt_of_le_of_ne hle hne
  · cases hle

namespace Removal

/-! ## The order of the visits -/

/-- The visit `a` stands at place `i` of the closed route, and its leg has the length `d`. -/
structure Leg (t : Tour) (i : Nat) (a : Int) (d : Int64) : Prop where
  visit : t.route[i]? = some a
  distance : ∃ b, t.route[(i + 1) % t.route.length]? = some b ∧ t.problem.distances.get a b = .ok d

/-- The visit `a` has a longer leg than `b`, or one of the same length and an earlier place. -/
def Precedes (t : Tour) (a b : Int) : Prop :=
  ∃ i j d e, Leg t i a d ∧ Leg t j b e ∧ (e < d ∨ d = e ∧ i < j)

variable {t : Tour}

/-- The list of the visits with the lengths of their legs goes by the places of the route. -/
theorem leg_of_costed {costed : List (Int × Int64)}
    (h : (Tour.legs t.route).mapM (fun (a, b) => do
      return (a, ← t.problem.distances.get a b)) = .ok costed)
    {i : Nat} {a : Int} {d : Int64} (hi : costed[i]? = some (a, d)) : Leg t i a d := by
  have hlegs := mapM_eq_ok.mp h
  obtain ⟨hlt, hcosted⟩ := List.getElem?_eq_some_iff.mp hi
  have hlt' : i < (Tour.legs t.route).length := by
    rw [hlegs.length_eq]
    exact hlt
  have hleg := hlegs.get hlt' hlt
  simp only [List.get_eq_getElem, hcosted] at hleg
  obtain ⟨d', hd', hleg⟩ := bind_eq_ok.mp hleg
  cases hleg
  obtain ⟨hvisit, hnext⟩ := Tour.getElem?_legs.mp (List.getElem?_eq_getElem hlt')
  exact ⟨hvisit, _, hnext, hd'⟩

theorem byLeg_precedes {visits : List Int} (h : byLeg t = .ok visits) :
    visits.Pairwise (Precedes t) := by
  obtain ⟨costed, hcosted, h⟩ := bind_eq_ok.mp h
  cases h
  rw [List.pairwise_map]
  -- the sort is stable, so legs of one length keep their order
  refine (mergeSort_stable ?_ ?_ costed).imp ?_
  · intro a b c hab hbc
    rw [decide_eq_true_iff] at hab hbc ⊢
    exact Int64.le_trans hbc hab
  · intro a b
    rw [Bool.or_eq_true, decide_eq_true_iff, decide_eq_true_iff]
    exact Int64.le_total b.2 a.2
  · rintro ⟨a, d⟩ ⟨b, e⟩ ⟨i, j, hi, hj, hle, htie⟩
    rw [decide_eq_true_iff] at hle htie
    refine ⟨i, j, d, e, leg_of_costed hcosted hi, leg_of_costed hcosted hj, ?_⟩
    rcases Int64.lt_or_eq_of_le hle with hlt | heq
    · exact Or.inl hlt
    · exact Or.inr ⟨heq.symm, htie (Int64.le_of_eq heq.symm)⟩

/-! ## Removing the first visits of the order -/

theorem without_nil (t : Tour) : without t [] = t := by
  simp [without, result]

variable {ω : Type} {degree : Float}

theorem apply_worst {visits : List Int} (h : byLeg t = .ok visits) (g : Generator ω) (w : ω) :
    Removal.worst.apply g degree t w =
      (.ok (without t (visits.take (count degree t.route.length))), w) := by
  by_cases hzero : count degree t.route.length = 0
  · rw [apply_none hzero, hzero, List.take_zero, without_nil]
  · simp only [apply, if_neg hzero, h]

/-- The visits with the longest legs are removed, as many as are counted. They come to the bank in
the order of their legs, and precede every visit that is left; that order is the one of the route
where legs are equal, and it is the one in which the visits that are left stay. -/
theorem worst_removes_longest (hroute : t.route.Nodup) (ht : t.Placed)
    (haddressable : t.problem.distances.entries.size < 2 ^ 64) {q : Quantity}
    (hdegree : degree? q = .ok degree) (g : Generator ω) (w : ω) :
    ∃ t' removed, Removal.worst.apply g degree t w = (.ok t', w) ∧ Moves t t' removed ∧
      removed.length = count degree t.route.length ∧ removed.Pairwise (Precedes t) ∧
      (∀ v ∈ removed, ∀ u ∈ t'.route, Precedes t v u) ∧
      t'.route = t.route.filter fun v => decide (v ∉ removed) := by
  have hcount : count degree t.route.length ≤ t.route.length :=
    count_le_of_degree hdegree (ht.length_route_le hroute haddressable)
  obtain ⟨visits, hvisits⟩ := exists_byLeg_ok ht
  have hperm := byLeg_perm hvisits
  obtain ⟨hmoves, hlength⟩ := without_take_moves hroute hperm hcount
  -- The order of all visits is that of the visits removed and, behind them, of the others.
  have horder := byLeg_precedes hvisits
  rw [← List.take_append_drop (count degree t.route.length) visits, List.pairwise_append] at horder
  obtain ⟨hfront, -, hacross⟩ := horder
  refine ⟨_, _, apply_worst hvisits g w, hmoves, hlength, hfront, ?_, rfl⟩
  intro v hv u hu
  obtain ⟨hu, hkept⟩ := List.mem_filter.mp hu
  rw [decide_eq_true_iff] at hkept
  have hmem := hperm.mem_iff.mpr hu
  rw [← List.take_append_drop (count degree t.route.length) visits] at hmem
  exact hacross v hv u ((List.mem_append.mp hmem).resolve_left hkept)

/-- Of the three legs of length 1 the first two go, behind the longer ones. -/
theorem worst_removes_longest_ties :
    let t : Tour := ⟨.fiveVisits, [3, -3, 0, 1, 4], [7]⟩
    t.route.Nodup ∧ t.Placed ∧ t.problem.distances.entries.size < 2 ^ 64 ∧
      degree? (.real 0.8) = .ok 0.8 ∧
      ∃ t', Removal.worst.apply .counting 0.8 t 0 = (.ok t', 0) ∧ t'.route = [4] ∧
        Moves t t' [1, -3, 3, 0] ∧ [1, -3, 3, 0].Pairwise (Precedes t) ∧
        ∀ v ∈ [1, -3, 3, 0], Precedes t v 4 := by
  intro t
  have hroute : t.route.Nodup := by decide
  have hvisits : ∀ v ∈ t.route, v ∈ Problem.fiveVisits.visits := by decide
  have ht : t.Placed := fun v hv => Problem.fiveVisits_sound.placed v (hvisits v hv)
  have hdegree : degree? (.real 0.8) = .ok 0.8 := by decide +kernel
  obtain ⟨t', removed, happly, hmoves, -, hfront, hacross, -⟩ :=
    worst_removes_longest hroute ht Problem.fiveVisits_sound.addressable hdegree .counting 0
  have hvisits' : byLeg t = .ok [1, -3, 3, 0, 4] := by cbv
  have hfour : count 0.8 t.route.length = 4 := by decide +kernel
  have hresult := happly.symm.trans (apply_worst hvisits' .counting 0)
  rw [hfour] at hresult
  cases hresult
  have hremoved : [7] ++ [1, -3, 3, 0] = [7] ++ removed := hmoves.bank
  obtain rfl := List.append_cancel_left hremoved
  exact ⟨hroute, ht, Problem.fiveVisits_sound.addressable, hdegree, _, happly, by decide, hmoves,
    hfront, fun v hv => hacross v hv 4 (by decide)⟩

end Removal

end LargeNeighborhood
