import LargeNeighborhood.Proofs.Number.SquareRoot
import LargeNeighborhood.Proofs.Number.Unrounded
import LargeNeighborhood.Proofs.Search.Decisions
import LargeNeighborhood.Proofs.Tour.Cost
import LargeNeighborhood.Tour.Feasibility

set_option autoImplicit false

/-! # Tours in the range of 64 bits

A problem of points is in range when every distance between them has its place in the table and every
tour has a length of 64 bits (`Problem.InRange`). No distance is negative then, since no root is, and
what a complete tour costs is its length (`Tour.Complete.exists_length`). So nothing that is reported
on such a tour is impossible to write.
-/

namespace LargeNeighborhood

open Rounding

namespace DistanceTable

/-- Whether a real has a place in a table: its whole part is a number of 64 bits. -/
def Fits (x : Float) : Prop :=
  match Binary.ofFloat x with
  | .finite negative m e => Fault.fits (Binary.truncate negative m e)
  | _ => False

instance (x : Float) : Decidable (Fits x) :=
  match h : Binary.ofFloat x with
  | .finite negative m e =>
      decidable_of_iff (Fault.fits (Binary.truncate negative m e)) (by rw [Fits, h])
  | .infinite _ => isFalse (by simp [Fits, h])
  | .undefined => isFalse (by simp [Fits, h])

/-- A root that has a place in the table is no negative entry. -/
theorem entryOfFloat_nonneg {x : Float} (h : Fits x.sqrt) : 0 ≤ (entryOfFloat x.sqrt).toInt := by
  unfold Fits at h
  cases hfloat : Binary.ofFloat x.sqrt with
  | finite negative m e =>
    rw [hfloat] at h
    have hentry : entryOfFloat x.sqrt = Int64.ofInt (Binary.truncate negative m e) := by
      unfold entryOfFloat
      rw [hfloat]
      exact if_pos h
    rw [hentry, (Fault.fits_iff_toInt_ofInt _).mp h]
    exact truncate_nonneg (unsigned_sqrt x) hfloat
  | infinite negative =>
    rw [hfloat] at h
    exact h.elim
  | undefined =>
    rw [hfloat] at h
    exact h.elim

end DistanceTable

/-- The points of a problem are not too far apart for a table of 64 bits, tours between them are not
too long for a sum of 64 bits, and the table is addressed with 64 bits. -/
structure Problem.InRange (p : Problem) : Prop where
  distances : ∀ points, p.points = some points → ∀ a ∈ points, ∀ b ∈ points,
    DistanceTable.Fits (DistanceTable.squaredDistance a b).sqrt
  lengths : ∀ route : List Int, route.Perm p.visits →
    Fault.fits (Tour.closedLength p.distances.between route)
  addressable : p.distances.entries.size < 2 ^ 64

section Measured

variable {tag : ℕ} {name : String} {points : List (List Float)}

/-- Every visit of a problem of points has a place of its own. -/
theorem Problem.sound_measured
    (h : (Problem.measured tag name points).distances.entries.size < 2 ^ 64) :
    (Problem.measured tag name points).Sound where
  distinct := Problem.nodup_measured tag name points
  placed := by
    intro v hv
    obtain ⟨i, hi, rfl⟩ := List.mem_map.mp hv
    have hi' : i < points.length := List.mem_range.mp hi
    exact ⟨i, Position.resolve?_natCast (by simpa [Problem.measured] using hi')⟩
  addressable := h

/-- A problem in range has no negative distance. -/
theorem Problem.InRange.nonneg (h : (Problem.measured tag name points).InRange) :
    ∀ d ∈ (Problem.measured tag name points).distances.entries, 0 ≤ d.toInt := by
  intro d hd
  obtain ⟨k, rfl⟩ := Array.mem_ofFn.mp hd
  have hpoint : ∀ i < points.length, (points.toArray[i]?).getD [] ∈ points := by
    intro i hi
    simp [hi]
  have hk : k.val < points.length * points.length := by simpa using k.isLt
  have hrow : k.val / points.length < points.length := Nat.div_lt_of_lt_mul hk
  have hcolumn : k.val % points.length < points.length := Nat.mod_lt _ (by nlinarith)
  exact DistanceTable.entryOfFloat_nonneg (h.distances points rfl _ (hpoint _ hrow) _
    (hpoint _ hcolumn))

end Measured

/-! ## Complete tours -/

/-- A sound problem whose distances are not negative and whose tours have lengths of 64 bits. -/
structure Problem.Ranged (p : Problem) : Prop extends Sound p where
  nonneg : ∀ d ∈ p.distances.entries, 0 ≤ d.toInt
  lengths : ∀ route : List Int, route.Perm p.visits →
    Fault.fits (Tour.closedLength p.distances.between route)

theorem Problem.InRange.ranged {tag : ℕ} {name : String} {points : List (List Float)}
    (h : (Problem.measured tag name points).InRange) : (Problem.measured tag name points).Ranged :=
  { Problem.sound_measured h.addressable with nonneg := h.nonneg, lengths := h.lengths }

namespace Tour

variable {p : Problem} {t : Tour}

/-- Where the number of visits times the greatest distance fits, every tour does. -/
theorem fits_closedLength (hp : p.Sound) {bound : ℕ}
    (hentries : ∀ d ∈ p.distances.entries, d.toInt.natAbs ≤ bound)
    (hbound : p.visits.length * bound ≤ Int64.maxValue.toInt) {route : List Int}
    (hroute : route.Perm p.visits) : Fault.fits (closedLength p.distances.between route) := by
  have ht : Complete p ⟨p, route, []⟩ := ⟨rfl, rfl, hroute⟩
  exact (ht.balanced.placed hp).fits_closedLength hentries (hroute.length_eq ▸ hbound)

/-- What a complete tour costs is its length, by each of the two sums. -/
theorem Complete.exists_length (ht : Complete p t) (hp : p.Ranged) :
    ∃ (length : ℤ) (routeCost : Int64) (lengths : List ℤ), 0 ≤ length ∧ length < 2 ^ 63 ∧
      t.objective = .ok length ∧ t.routeCost = .ok routeCost ∧ routeCost.toInt = length ∧
      t.legLengths = .ok lengths ∧ total lengths = length := by
  obtain rfl := ht.problem
  have hplaced := ht.balanced.placed hp.toSound
  have hfits := hp.lengths t.route ht.route
  have hsame := (Fault.fits_iff_toInt_ofInt _).mp hfits
  have hcost := hplaced.objective_eq
  rw [hsame, ht.bank, List.length_nil, Nat.cast_zero, Int.mul_zero, Int.add_zero] at hcost
  have hmax : Int64.maxValue.toInt = 2 ^ 63 - 1 := rfl
  have hhigh := hfits.2
  exact ⟨_, _, _, hplaced.closedLength_nonneg hp.nonneg, by omega, hcost, hplaced.routeCost_eq, hsame,
    hplaced.legLengths_eq, hplaced.total_legLengths hplaced.legLengths_eq⟩

theorem Complete.exists_cost (ht : Complete p t) (hp : p.Ranged) :
    ∃ q, landscape.cost t = .ok q ∧ q.IsLength := by
  obtain ⟨length, -, -, hnonneg, hsmall, hcost, -⟩ := ht.exists_length hp
  exact ⟨.whole length, map_eq_ok.mpr ⟨length, hcost, rfl⟩, length, rfl, hnonneg, hsmall⟩

/-- A tour that has a length has a mean leg. -/
theorem Complete.exists_legStatistics_ok (ht : Complete p t) (hp : p.Ranged) :
    ∃ s, t.legStatistics = .ok s := by
  obtain ⟨length, -, lengths, hnonneg, hsmall, -, -, -, hlengths, htotal⟩ := ht.exists_length hp
  unfold legStatistics
  rw [hlengths]
  cases lengths with
  | nil => exact ⟨_, rfl⟩
  | cons first rest =>
      have hmean := Quantity.div?_whole (a := total (first :: rest)) (by omega)
        (Int.natCast_pos.mpr (List.length_pos_of_ne_nil (List.cons_ne_nil first rest)))
      exact ⟨_, bind_eq_ok.mpr ⟨_, rfl, bind_eq_ok.mpr ⟨_, hmean, rfl⟩⟩⟩

end Tour

/-! ## Reports -/

/-- A report of which every piece can be written is printed. -/
theorem Report.exists_print_ok {r : Report} (h : ∀ piece ∈ r, ∃ text, piece = .ok text) :
    ∃ text, r.print = (.ok (), text) := by
  induction r with
  | nil => exact ⟨"", rfl⟩
  | cons piece r ih =>
      obtain ⟨text, rfl⟩ := h piece List.mem_cons_self
      obtain ⟨rest, hrest⟩ := ih fun other hother => h other (List.mem_cons_of_mem _ hother)
      exact ⟨text ++ rest, by rw [print, hrest]⟩

namespace Tour

variable {p : Problem} {t : Tour}

theorem Complete.exists_validation_ok (ht : Complete p t) (hp : p.Sound) :
    ∃ text, (t.validation t.objective).print = (.ok (), text) := by
  apply Report.exists_print_ok
  unfold validation
  rw [ht.issues_eq hp]
  simp only [List.mem_cons, List.not_mem_nil, or_false]
  rintro piece (rfl | rfl | rfl)
  · exact ⟨_, rfl⟩
  · exact ⟨_, rfl⟩
  · exact ⟨_, rfl⟩

theorem Complete.exists_details_ok (ht : Complete p t) (hp : p.Ranged) (seconds : Float) :
    ∃ text, (t.details t.objective (.real seconds)).print = (.ok (), text) := by
  obtain ⟨length, routeCost, -, hnonneg, hsmall, hcost, hroute, hsame, -⟩ := ht.exists_length hp
  obtain ⟨s, hs⟩ := ht.exists_legStatistics_ok hp
  have hfixed : (Quantity.whole length).fixed? 2 = .ok (fixed 2 (Float.ofInt length)) :=
    bind_eq_ok.mpr ⟨_, Quantity.toReal?_whole (by omega), rfl⟩
  have hfixed' := hsame ▸ hfixed
  apply Report.exists_print_ok
  unfold details
  rw [hcost, hroute, hs]
  -- The seconds, the cost twice and the statistics are computed; all else is text.
  simp only [List.forall_mem_cons]
  refine ⟨⟨_, rfl⟩, ⟨_, rfl⟩, ⟨_, rfl⟩, ⟨_, bind_eq_ok.mpr ⟨_, rfl, bind_eq_ok.mpr ⟨_, hfixed, rfl⟩⟩⟩,
    ⟨_, bind_eq_ok.mpr ⟨_, rfl, bind_eq_ok.mpr ⟨_, hfixed', rfl⟩⟩⟩, ⟨_, rfl⟩, ⟨_, rfl⟩, ⟨_, rfl⟩,
    ⟨_, rfl⟩, ⟨_, rfl⟩, ?_⟩
  exact fun piece hpiece => absurd hpiece List.not_mem_nil

end Tour

end LargeNeighborhood
