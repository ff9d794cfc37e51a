import LargeNeighborhood.Proofs.Random.Shuffle
import LargeNeighborhood.Proofs.Tour.Complete
import LargeNeighborhood.Proofs.Tour.Share
import Mathlib.Data.List.Rotate

set_option autoImplicit false

/-! # Stretches of a closed route

Where a closed route is cut open does not matter to a stretch of it: turned to the place where the
stretch starts, the route begins with it (`Removal.stretch_eq_take`), also where the stretch runs
past the end of the list. So a stretch that is no longer than the route names no visit twice, and
when it is removed the rest of the turned route is left, cut open where the route was
(`Removal.path_cuts_stretch`).
-/

namespace LargeNeighborhood

namespace Removal

/-! ## A stretch is the front of the turned route -/

/-- The place `i` places behind `start` is, counted round the route, `i` places behind the place of
`start`. -/
theorem place_eq (start : ℤ) (i : ℕ) {length : ℕ} (hpos : 0 < length) :
    ((start + i) % length).toNat = (i + (start % length).toNat) % length := by
  have hstart : ((start % length).toNat : ℤ) = start % length :=
    Int.toNat_of_nonneg (Int.emod_nonneg _ (by omega))
  have hplace : (((start + i) % length).toNat : ℤ) = (start + i) % length :=
    Int.toNat_of_nonneg (Int.emod_nonneg _ (by omega))
  have hcast : (((start + i) % length).toNat : ℤ) =
      ((i + (start % length).toNat) % length : ℕ) := by
    rw [Int.natCast_emod, Int.natCast_add, hplace, hstart, Int.add_emod_emod, add_comm]
  exact_mod_cast hcast

theorem stretch_succ (route : List ℤ) (start : ℤ) (n : ℕ) :
    stretch route start (n + 1) =
      stretch route start n ++ (route[((start + n) % route.length).toNat]?).toList := by
  unfold stretch
  rw [List.range_succ, List.filterMap_append]
  rfl

/-- Turned to its start, the route begins with the stretch. -/
theorem stretch_eq_take {route : List ℤ} (start : ℤ) {n : ℕ} (hn : n ≤ route.length) :
    stretch route start n = (route.rotate (start % route.length).toNat).take n := by
  induction n with
  | zero => rfl
  | succ n ih =>
      rw [stretch_succ, ih (by omega), List.take_add_one, List.getElem?_rotate (by omega),
        place_eq start n (by omega)]

theorem length_stretch {route : List ℤ} (start : ℤ) {n : ℕ} (hn : n ≤ route.length) :
    (stretch route start n).length = n := by
  rw [stretch_eq_take start hn, List.length_take, List.length_rotate]
  omega

theorem mem_stretch {route : List ℤ} {start : ℤ} {n : ℕ} {v : ℤ}
    (hv : v ∈ stretch route start n) : v ∈ route := by
  obtain ⟨i, -, hi⟩ := List.mem_filterMap.mp hv
  exact List.mem_of_getElem? hi

theorem stretch_nodup {route : List ℤ} (hroute : route.Nodup) (start : ℤ) {n : ℕ}
    (hn : n ≤ route.length) : (stretch route start n).Nodup := by
  rw [stretch_eq_take start hn]
  exact (List.nodup_rotate.mpr hroute).sublist (List.take_sublist _ _)

/-! ## What is left of the route -/

/-- Leaving out visits of a turned route turns what is left. -/
theorem filter_rotate_isRotated (p : ℤ → Bool) (route : List ℤ) (n : ℕ) :
    ((route.rotate n).filter p).IsRotated (route.filter p) := by
  have hparts : route.filter p = (route.take (n % route.length)).filter p ++
      (route.drop (n % route.length)).filter p := by
    rw [← List.filter_append, List.take_append_drop]
  rw [List.rotate_eq_drop_append_take_mod, List.filter_append, hparts]
  exact List.isRotated_append

/-- Without its first visits a route is the rest. -/
theorem filter_notMem_take {route : List ℤ} (hroute : route.Nodup) (n : ℕ) :
    (route.filter fun v => decide (v ∉ route.take n)) = route.drop n := by
  have hapart : (route.take n).Disjoint (route.drop n) := List.disjoint_take_drop hroute le_rfl
  have hfront : ((route.take n).filter fun v => decide (v ∉ route.take n)) = [] := by
    rw [List.filter_eq_nil_iff]
    intro v hv
    simp [hv]
  have hback : ((route.drop n).filter fun v => decide (v ∉ route.take n)) = route.drop n := by
    rw [List.filter_eq_self]
    intro v hv
    exact decide_eq_true fun hv' => hapart hv' hv
  calc (route.filter fun v => decide (v ∉ route.take n))
      = ((route.take n ++ route.drop n).filter fun v => decide (v ∉ route.take n)) := by
        rw [List.take_append_drop]
    _ = route.drop n := by rw [List.filter_append, hfront, hback, List.nil_append]

/-- A stretch that starts at a place of the route is what the route turned there begins with. -/
theorem stretch_natCast {route : List ℤ} {s n : ℕ} (hs : s < route.length)
    (hn : n ≤ route.length) : stretch route s n = (route.rotate s).take n := by
  rw [stretch_eq_take s hn, Int.emod_eq_of_lt (by omega) (by omega), Int.toNat_natCast]

/-- Removing a stretch leaves the rest of the turned route, cut open where the route was. -/
theorem drop_isRotated_without {t : Tour} (hroute : t.route.Nodup) {s n : ℕ}
    (hs : s < t.route.length) (hn : n ≤ t.route.length) :
    ((t.route.rotate s).drop n).IsRotated (without t (stretch t.route s n)).route := by
  rw [← filter_notMem_take (List.nodup_rotate.mpr hroute) n]
  unfold without result
  rw [stretch_natCast hs hn]
  exact filter_rotate_isRotated _ t.route s

/-! ## Removing a stretch -/

variable {ω : Type} {g : Generator ω} {t : Tour} {w w' : ω}

/-- Removing a stretch cuts the closed route in two. Turned to the place drawn, the route is what
is removed, in the order in which it comes to the bank, and behind it what is left; and what is left
keeps its order on the route. No memory has room for a route so long that its length is rounded when
it becomes a real. -/
theorem path_cuts_stretch (hroute : t.route.Nodup) (hlength : t.route.length ≤ 2 ^ 53)
    {q : Quantity} {degree : Float} (hdegree : degree? q = .ok degree)
    (hcount : 1 ≤ count degree t.route.length) {s : ℕ} (hs : s < t.route.length)
    (hdraw : g.below t.route.length w = (.ok (s : ℤ), w')) :
    ∃ (t' : Tour) (removed rest : List ℤ), Removal.path.apply g degree t w = (.ok t', w') ∧
      t'.problem = t.problem ∧ t'.bank = t.bank ++ removed ∧
      removed.length = count degree t.route.length ∧
      t'.route = (t.route.filter fun v => decide (v ∉ removed)) ∧
      t.route.rotate s = removed ++ rest ∧ rest.IsRotated t'.route := by
  have hle : count degree t.route.length ≤ t.route.length := count_le_of_degree hdegree hlength
  refine ⟨without t (stretch t.route s (count degree t.route.length)), _, _, ?_, rfl, rfl,
    length_stretch s hle, rfl, ?_, drop_isRotated_without hroute hs hle⟩
  · have hzero : count degree t.route.length ≠ 0 := by omega
    simp only [apply, if_neg hzero, hdraw]
  · rw [stretch_natCast hs hle, List.take_append_drop]

/-- Eight visits of which four are removed, over the end of the list. -/
theorem path_cuts_stretch_overEnd :
    let t : Tour := ⟨.fiveVisits, [4, 7, 1, 0, 6, 2, 5, -3], [9]⟩
    t.route.Nodup ∧ t.route.length ≤ 2 ^ 53 ∧ degree? (.real 0.5) = .ok 0.5 ∧
      1 ≤ count 0.5 t.route.length ∧ Generator.counting.below 8 6 = (.ok 6, 7) ∧
      Removal.path.apply .counting 0.5 t 6 =
        (.ok ⟨.fiveVisits, [1, 0, 6, 2], [9, 5, -3, 4, 7]⟩, 7) ∧
      ∃ rest, t.route.rotate 6 = [5, -3, 4, 7] ++ rest ∧ rest.IsRotated [1, 0, 6, 2] := by
  intro t
  have hroute : t.route.Nodup := by decide
  have hlength : t.route.length ≤ 2 ^ 53 := by decide
  have hdegree : degree? (.real 0.5) = .ok 0.5 := by decide +kernel
  have hcount : 1 ≤ count 0.5 t.route.length := by decide +kernel
  have hdraw : Generator.counting.below t.route.length 6 = (.ok ((6 : ℕ) : ℤ), 7) := rfl
  obtain ⟨⟨problem, route, bank⟩, removed, rest, happly, rfl, rfl, hlen, rfl, hrest, hrotated⟩ :=
    path_cuts_stretch hroute hlength hdegree hcount (by decide) hdraw
  -- Four visits are removed, so they are the first four of the turned route.
  have hfour : removed.length = 4 := by
    rw [hlen]
    decide +kernel
  have hremoved : [5, -3, 4, 7] = removed := by
    rw [← List.take_left' hfour, ← hrest]
    rfl
  subst hremoved
  exact ⟨hroute, hlength, hdegree, hcount, hdraw, happly, rest, hrest, hrotated⟩

end Removal

end LargeNeighborhood
