import LargeNeighborhood.Proofs.Tour.Stretch
import Mathlib.Data.Int.Interval

set_option autoImplicit false

/-! # Removals keep the visits together

A removal takes visits off the route and puts them into the bank: as many as it counts, and none is
lost on the way (`Removal.Moves`). Visits that are drawn one after the other move one by one. The
two other operators name the visits first and then drop them from the route, which is the same thing
where no visit is named twice (`Removal.without_moves`): the visits with the longest legs are the
first ones of a list of all visits, and a stretch of the route names its places once as long as it
is not longer than the route. Where draws succeed and the visits have distances, no removal fails.
-/

namespace LargeNeighborhood

variable {ω : Type} {g : Generator ω} {p : Problem} {t t' : Tour}

/-- A table has two names for a visit, so a route without repetitions is at most twice as long as
the table, and a table that is addressed with 64 bits has fewer than 2 ^ 32 rows. -/
theorem Tour.Placed.length_route_le (h : t.Placed) (hroute : t.route.Nodup)
    (haddressable : t.problem.distances.entries.size < 2 ^ 64) : t.route.length ≤ 2 ^ 53 := by
  have hmem : ∀ v ∈ t.route, v ∈ Finset.Ico (-(t.problem.distances.size : ℤ))
      t.problem.distances.size := by
    intro v hv
    exact Finset.mem_Ico.mpr (DistanceTable.places_iff.mp (h v hv))
  have hcard : t.route.length ≤ 2 * t.problem.distances.size := by
    calc t.route.length = t.route.toFinset.card := (List.toFinset_card_of_nodup hroute).symm
      _ ≤ (Finset.Ico (-(t.problem.distances.size : ℤ)) t.problem.distances.size).card := by
        apply Finset.card_le_card
        intro v hv
        exact hmem v (List.mem_toFinset.mp hv)
      _ = 2 * t.problem.distances.size := by
        rw [Int.card_Ico]
        omega
  rw [t.problem.distances.complete] at haddressable
  by_contra hlong
  have hlow : 2 ^ 52 * 2 ^ 52 ≤ t.problem.distances.size * t.problem.distances.size :=
    Nat.mul_le_mul (by omega) (by omega)
  omega

namespace Removal

/-- What a removal does to a tour. Visits leave the route, on which the others keep their order, and
come to the end of the bank. -/
structure Moves (t t' : Tour) (removed : List Int) : Prop where
  problem : t'.problem = t.problem
  route : t'.route.Sublist t.route
  bank : t'.bank = t.bank ++ removed
  visits : (t'.route ++ removed).Perm t.route

theorem moves_nil (t : Tour) : Moves t t [] where
  problem := rfl
  route := List.Sublist.refl _
  bank := (List.append_nil _).symm
  visits := by rw [List.append_nil]

theorem Moves.balanced {removed : List Int} (h : Moves t t' removed) (ht : Tour.Balanced p t) :
    Tour.Balanced p t' := by
  refine ⟨h.problem.trans ht.problem, ?_⟩
  rw [h.bank]
  calc (t'.route ++ (t.bank ++ removed)).Perm (t'.route ++ (removed ++ t.bank)) :=
        List.perm_append_comm.append_left t'.route
    _ = (t'.route ++ removed) ++ t.bank := (List.append_assoc _ _ _).symm
    (t'.route ++ removed ++ t.bank).Perm (t.route ++ t.bank) := h.visits.append_right t.bank
    (t.route ++ t.bank).Perm p.visits := ht.visits

/-! ## Visits at random -/

/-- What is taken off the route is put behind the visits removed before. -/
theorem eraseIdx_perm {route : List Int} {k : Nat} (hk : k < route.length) (removed : List Int) :
    (route.eraseIdx k ++ (removed ++ (route[k]?).toList)).Perm (route ++ removed) := by
  rw [List.getElem?_eq_getElem hk, Option.toList_some, ← List.append_assoc]
  have hfront : (route.eraseIdx k ++ removed ++ [route[k]]).Perm
      (route[k] :: (route.eraseIdx k ++ removed)) := List.perm_append_singleton _ _
  have hback : (route[k] :: route.eraseIdx k ++ removed).Perm (route ++ removed) :=
    (List.getElem_cons_eraseIdx_perm hk).append_right removed
  exact hfront.trans hback

theorem takeRandom_moves {n : Nat} {route removed route' removed' : List Int} {w : ω}
    (h : (takeRandom g n route removed w).1 = .ok (route', removed')) :
    route'.Sublist route ∧ (route' ++ removed').Perm (route ++ removed) ∧
      removed'.length = removed.length + n := by
  induction n generalizing route removed w with
  | zero =>
      cases h
      exact ⟨List.Sublist.refl _, List.Perm.refl _, rfl⟩
  | succ n ih =>
      unfold takeRandom at h
      split at h
      · cases h
      split at h
      · cases h
      rename_i k hk
      have hlt := Position.resolve?_lt hk
      obtain ⟨hroute, hvisits, hlength⟩ := ih h
      refine ⟨hroute.trans (List.eraseIdx_sublist route k),
        hvisits.trans (eraseIdx_perm hlt removed), ?_⟩
      rw [hlength, List.getElem?_eq_getElem hlt, Option.toList_some, List.length_append,
        List.length_singleton]
      omega

/-- As long as there are visits left, one more can be taken. -/
theorem exists_takeRandom_ok {W : ω → Prop} {limit : ℤ} (hg : g.DrawsIn W limit) {n : Nat}
    {route : List Int} (hlimit : route.length ≤ limit) (hn : n ≤ route.length) (removed : List Int)
    {w : ω} (hw : W w) : ∃ r w', takeRandom g n route removed w = (.ok r, w') ∧ W w' := by
  induction n generalizing route removed w with
  | zero => exact ⟨(route, removed), w, rfl, hw⟩
  | succ n ih =>
      obtain ⟨i, w', hi, hlow, hhigh, hw'⟩ := hg route.length w hw (by omega) hlimit
      obtain ⟨k, rfl⟩ := Int.eq_ofNat_of_zero_le hlow
      have hk : k < route.length := by omega
      -- The route has lost a visit, and one visit less is to be taken.
      have hlength : (route.eraseIdx k).length = route.length - 1 := List.length_eraseIdx_of_lt hk
      have hlimit' : ((route.eraseIdx k).length : ℤ) ≤ limit := by omega
      obtain ⟨r, w'', hr, hw''⟩ := ih hlimit' (by omega) (removed ++ (route[k]?).toList) hw'
      refine ⟨r, w'', ?_, hw''⟩
      unfold takeRandom
      simp only [hi, Position.resolve?_natCast hk]
      exact hr

/-- As long as there are visits left, no draw is made below an empty bound. -/
theorem takeRandom_congr {g' : Generator ω} (hg : ∀ n u, 1 ≤ n → g'.below n u = g.below n u)
    {n : Nat} {route : List Int} (hn : n ≤ route.length) (removed : List Int) (w : ω) :
    takeRandom g' n route removed w = takeRandom g n route removed w := by
  induction n generalizing route removed w with
  | zero => rfl
  | succ n ih =>
      unfold takeRandom
      rw [hg route.length w (by omega)]
      split
      · rfl
      split
      · rfl
      rename_i k hk
      apply ih
      rw [List.length_eraseIdx_of_lt (Position.resolve?_lt hk)]
      omega

/-! ## Visits by their legs -/

/-- Ordering the visits leaves none out and adds none. -/
theorem byLeg_perm {visits : List Int} (h : byLeg t = .ok visits) : visits.Perm t.route := by
  obtain ⟨costed, hcosted, h⟩ := bind_eq_ok.mp h
  cases h
  have hfirst : (Tour.legs t.route).map Prod.fst = costed.map Prod.fst := by
    rw [← List.forall₂_eq_eq_eq, List.forall₂_map_left_iff, List.forall₂_map_right_iff]
    refine (mapM_eq_ok.mp hcosted).imp ?_
    intro leg entry hentry
    obtain ⟨d, -, hentry⟩ := bind_eq_ok.mp hentry
    cases hentry
    rfl
  rw [Tour.map_fst_legs] at hfirst
  rw [hfirst]
  exact (List.mergeSort_perm costed _).map Prod.fst

theorem exists_byLeg_ok (ht : t.Placed) : ∃ visits, byLeg t = .ok visits := by
  refine exists_bind_ok (exists_mapM_ok ?_) ?_
  · intro leg hleg
    apply exists_bind_ok (ht.exists_leg_ok hleg)
    intro d _
    exact ⟨(leg.1, d), rfl⟩
  · intro costed _
    exact ⟨_, rfl⟩

/-! ## The three operators -/

/-- Visits of the route that are named once each move to the bank. -/
theorem without_moves (hroute : t.route.Nodup) {removed : List Int} (hnodup : removed.Nodup)
    (hmem : ∀ v ∈ removed, v ∈ t.route) : Moves t (without t removed) removed where
  problem := rfl
  route := List.filter_sublist
  bank := rfl
  visits := by
    have hdisjoint : (t.route.filter fun v => decide (v ∉ removed)).Disjoint removed := by
      intro v hv hv'
      have hnot := List.of_mem_filter hv
      simp [hv'] at hnot
    -- Both sides name no visit twice, so it is enough that they name the same ones.
    show ((t.route.filter fun v => decide (v ∉ removed)) ++ removed).Perm t.route
    rw [List.perm_ext_iff_of_nodup ((hroute.filter _).append hnodup hdisjoint) hroute]
    intro v
    rw [List.mem_append, List.mem_filter, decide_eq_true_iff]
    constructor
    · rintro (⟨hv, -⟩ | hv)
      · exact hv
      · exact hmem v hv
    · intro hv
      by_cases hremoved : v ∈ removed
      · exact Or.inr hremoved
      · exact Or.inl ⟨hv, hremoved⟩

/-- The first visits of an order of the route are distinct, however many of them are taken. -/
theorem without_take_moves (hroute : t.route.Nodup) {visits : List Int}
    (hvisits : visits.Perm t.route) {n : Nat} (hn : n ≤ t.route.length) :
    Moves t (without t (visits.take n)) (visits.take n) ∧ (visits.take n).length = n := by
  have hnodup : visits.Nodup := hvisits.nodup_iff.mpr hroute
  constructor
  · apply without_moves hroute (hnodup.sublist (List.take_sublist n visits))
    intro v hv
    exact hvisits.mem_iff.mp (List.mem_of_mem_take hv)
  · rw [List.length_take, hvisits.length_eq]
    omega

/-- Where nothing is to be removed, nothing is drawn and nothing is changed. -/
theorem apply_none {degree : Float} (hcount : count degree t.route.length = 0) (g : Generator ω)
    (removal : Removal) (w : ω) : removal.apply g degree t w = (.ok t, w) := by
  cases removal <;> simp [apply, hcount, takeRandom, result]

/-- Removals move as many visits as they count. -/
theorem apply_moves (hroute : t.route.Nodup) {degree : Float}
    (hcount : count degree t.route.length ≤ t.route.length) {removal : Removal} {w : ω}
    (h : (removal.apply g degree t w).1 = .ok t') :
    ∃ removed, Moves t t' removed ∧ removed.length = count degree t.route.length := by
  by_cases hzero : count degree t.route.length = 0
  · rw [apply_none hzero] at h
    cases h
    exact ⟨[], moves_nil t, hzero.symm⟩
  cases removal with
  | random =>
      simp only [apply] at h
      split at h
      · rename_i route removed w' htake
        cases h
        obtain ⟨hsublist, hperm, hlength⟩ := takeRandom_moves (congrArg Prod.fst htake)
        rw [List.append_nil] at hperm
        rw [List.length_nil, Nat.zero_add] at hlength
        exact ⟨removed, ⟨rfl, hsublist, rfl, hperm⟩, hlength⟩
      · cases h
  | worst =>
      simp only [apply, if_neg hzero] at h
      split at h
      · rename_i visits hvisits
        cases h
        exact ⟨_, without_take_moves hroute (byLeg_perm hvisits) hcount⟩
      · cases h
  | path =>
      simp only [apply, if_neg hzero] at h
      split at h
      · cases h
      · rename_i start w' hstart
        cases h
        -- Only here a count above the length would do harm: the stretch would overlap itself.
        have hstretch := stretch_nodup hroute start hcount
        exact ⟨_, without_moves hroute hstretch fun v hv => mem_stretch hv,
          length_stretch start hcount⟩

/-- Removals keep tours balanced. -/
theorem apply_balanced (ht : Tour.Balanced p t) (hroute : t.route.Nodup) {degree : Float}
    (hcount : count degree t.route.length ≤ t.route.length) {removal : Removal} {w : ω}
    (h : (removal.apply g degree t w).1 = .ok t') : Tour.Balanced p t' := by
  obtain ⟨removed, hmoves, -⟩ := apply_moves hroute hcount h
  exact hmoves.balanced ht

/-- Removals do not fail where numbers can be drawn below the length of the route. -/
theorem exists_apply_in {W : ω → Prop} {limit : ℤ} (hg : g.DrawsIn W limit) (ht : t.Placed)
    (hlimit : t.route.length ≤ limit) {degree : Float}
    (hcount : count degree t.route.length ≤ t.route.length) (removal : Removal) {w : ω} (hw : W w) :
    ∃ t' w', removal.apply g degree t w = (.ok t', w') ∧ W w' := by
  by_cases hzero : count degree t.route.length = 0
  · exact ⟨t, w, apply_none hzero g removal w, hw⟩
  cases removal with
  | random =>
      obtain ⟨⟨route, removed⟩, w', htake, hw'⟩ := exists_takeRandom_ok hg hlimit hcount [] hw
      exact ⟨result t route removed, w', by simp only [apply, htake], hw'⟩
  | worst =>
      obtain ⟨visits, hvisits⟩ := exists_byLeg_ok ht
      exact ⟨without t (visits.take (count degree t.route.length)), w, by
        simp only [apply, if_neg hzero, hvisits], hw⟩
  | path =>
      obtain ⟨start, w', hstart, -, -, hw'⟩ := hg t.route.length w hw (by omega) hlimit
      exact ⟨without t (stretch t.route start (count degree t.route.length)), w', by
        simp only [apply, if_neg hzero, hstart], hw'⟩

/-- Removals do not fail. -/
theorem exists_apply_ok (hg : g.DrawsBelow) (ht : t.Placed) {degree : Float}
    (hcount : count degree t.route.length ≤ t.route.length) (removal : Removal) (w : ω) :
    ∃ t' w', removal.apply g degree t w = (.ok t', w') := by
  obtain ⟨t', w', happly, -⟩ := exists_apply_in (hg.drawsIn t.route.length) ht le_rfl hcount removal
    (w := w) trivial
  exact ⟨t', w', happly⟩

/-- Removals make no draw below an empty bound. -/
theorem apply_congr {g' : Generator ω} (hg : ∀ n u, 1 ≤ n → g'.below n u = g.below n u)
    {degree : Float} (hcount : count degree t.route.length ≤ t.route.length) (removal : Removal)
    (w : ω) : removal.apply g' degree t w = removal.apply g degree t w := by
  by_cases hzero : count degree t.route.length = 0
  · rw [apply_none hzero, apply_none hzero]
  cases removal with
  | random => simp only [apply, takeRandom_congr hg hcount]
  | worst => rfl
  | path => simp only [apply, hg t.route.length w (by omega)]

/-- Every removal moves exactly as many visits as it counts, which are not more than there are on a
route of visits that a table in memory has. It does not fail, whatever would be drawn below an empty
bound, and where nothing is to be removed it draws nothing and changes nothing. -/
theorem apply_moves_count (hg : g.DrawsBelow) (hroute : t.route.Nodup) (ht : t.Placed)
    (haddressable : t.problem.distances.entries.size < 2 ^ 64) {q : Quantity} {degree : Float}
    (hdegree : degree? q = .ok degree) (removal : Removal) (w : ω) :
    count degree t.route.length ≤ t.route.length ∧
      (∃ t' w' removed, removal.apply g degree t w = (.ok t', w') ∧ Moves t t' removed ∧
        removed.length = count degree t.route.length) ∧
      (∀ g' : Generator ω, (∀ n u, 1 ≤ n → g'.below n u = g.below n u) →
        removal.apply g' degree t w = removal.apply g degree t w) ∧
      (count degree t.route.length = 0 →
        ∀ g' : Generator ω, removal.apply g' degree t w = (.ok t, w)) := by
  have hcount : count degree t.route.length ≤ t.route.length :=
    count_le_of_degree hdegree (ht.length_route_le hroute haddressable)
  obtain ⟨t', w', happly⟩ := exists_apply_ok hg ht hcount removal w
  obtain ⟨removed, hmoves, hlength⟩ := apply_moves hroute hcount (congrArg Prod.fst happly)
  exact ⟨hcount, ⟨t', w', removed, happly, hmoves, hlength⟩,
    fun g' hg' => apply_congr hg' hcount removal w,
    fun hzero g' => apply_none hzero g' removal w⟩

/-- Half of five visits are two; the last one is drawn first, then the second one. -/
theorem apply_moves_count_random :
    let t : Tour := ⟨.fiveVisits, [3, -3, 0, 1, 4], [7]⟩
    Generator.counting.DrawsBelow ∧ t.route.Nodup ∧ t.Placed ∧
      t.problem.distances.entries.size < 2 ^ 64 ∧ degree? (.real 0.5) = .ok 0.5 ∧
      count 0.5 t.route.length = 2 ∧
      ∃ t', Removal.random.apply .counting 0.5 t 4 = (.ok t', 6) ∧ t'.route = [3, 0, 1] ∧
        Moves t t' [4, -3] := by
  intro t
  have hroute : t.route.Nodup := by decide
  have hvisits : ∀ v ∈ t.route, v ∈ Problem.fiveVisits.visits := by decide
  have ht : t.Placed := fun v hv => Problem.fiveVisits_sound.placed v (hvisits v hv)
  have hdegree : degree? (.real 0.5) = .ok 0.5 := by decide +kernel
  obtain ⟨-, ⟨t', w', removed, happly, hmoves, -⟩, -⟩ :=
    apply_moves_count Generator.counting_lawful.below_ok hroute ht
      Problem.fiveVisits_sound.addressable hdegree .random 4
  have hparts : ((Removal.random.apply .counting 0.5 t 4).1.map fun t => (t.route, t.bank)) =
      .ok ([3, 0, 1], [7, 4, -3]) := by decide +kernel
  have hworld : (Removal.random.apply .counting 0.5 t 4).2 = 6 := by decide +kernel
  rw [happly] at hparts hworld
  obtain ⟨hroute', hbank⟩ := Prod.mk.inj (Except.ok.inj hparts)
  have hremoved : [7] ++ [4, -3] = [7] ++ removed := hbank.symm.trans hmoves.bank
  obtain rfl := List.append_cancel_left hremoved
  obtain rfl : w' = 6 := hworld
  exact ⟨Generator.counting_lawful.below_ok, hroute, ht, Problem.fiveVisits_sound.addressable,
    hdegree, by decide +kernel, t', happly, hroute', hmoves⟩

end Removal

end LargeNeighborhood
