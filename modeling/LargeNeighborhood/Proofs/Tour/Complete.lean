import LargeNeighborhood.Proofs.Except
import LargeNeighborhood.Tour.Feasibility
import Mathlib.Algebra.Group.Nat.Defs
import Mathlib.Data.List.Nodup

set_option autoImplicit false

/-! # Tours that make every visit

A complete tour has an empty bank and a route on which every visit of the problem stands once.
Between a removal and the insertion that follows it a tour is not complete: then its visits are
spread over the route and the bank (`Tour.Balanced`). Both kinds of tour have only visits of the
problem on their route, so all their legs have distances and their cost is defined, and nothing
speaks against the feasibility of a complete tour.
-/

namespace LargeNeighborhood

/-- What a problem promises. The positions of its visits are counted from either end of the table,
and the table is an array that is addressed with 64 bits. -/
structure Problem.Sound (p : Problem) : Prop where
  distinct : p.visits.Nodup
  placed : ∀ v ∈ p.visits, ∃ k, Position.resolve? p.distances.size v = some k
  addressable : p.distances.entries.size < 2 ^ 64

/-- No problem has so many visits that their number is rounded when it becomes a real. -/
theorem Problem.Sound.length_le {p : Problem} (h : p.Sound) : p.visits.length ≤ 2 ^ 53 := by
  have hsize := h.addressable
  rw [p.distances.complete, p.square] at hsize
  by_contra hlong
  have hlow : 2 ^ 53 * 2 ^ 53 ≤ p.visits.length * p.visits.length :=
    Nat.mul_le_mul (by omega) (by omega)
  omega

/-- The visits of a problem that is measured are numbered. -/
theorem Problem.nodup_measured (tag : Nat) (name : String) (points : List (List Float)) :
    (measured tag name points).visits.Nodup :=
  List.nodup_range.map fun _ _ h => Int.ofNat.inj h

/-- Five visits, of which one is counted from the end of the table. Distances are the squares of the
differences of positions. -/
def Problem.fiveVisits : Problem where
  tag := 0
  name := "five visits"
  visits := [0, 3, -3, 1, 4]
  distances := .ofFunction 5 fun i j => Int64.ofNat ((i - j) * (i - j) + (j - i) * (j - i))
  points := none
  square := rfl

theorem Problem.fiveVisits_sound : fiveVisits.Sound where
  distinct := by decide
  placed := by
    have h : ∀ v ∈ fiveVisits.visits,
        (Position.resolve? fiveVisits.distances.size v).isSome := by decide
    exact fun v hv => Option.isSome_iff_exists.mp (h v hv)
  addressable := by
    rw [fiveVisits.distances.complete]
    decide

/-! ## Distances -/

namespace DistanceTable

/-- Whether a visit has a row and a column in the table. -/
def Places (t : DistanceTable) (v : Int) : Prop := ∃ k, Position.resolve? t.size v = some k

theorem places_iff {t : DistanceTable} {v : Int} :
    t.Places v ↔ -(t.size : Int) ≤ v ∧ v < t.size := by
  rw [Places, ← Option.isSome_iff_exists]
  unfold Position.resolve?
  split_ifs with hfront hlt hback
  · exact ⟨fun _ => by omega, fun _ => rfl⟩
  · exact ⟨fun h => absurd h (by decide), fun h => by omega⟩
  · exact ⟨fun _ => by omega, fun _ => rfl⟩
  · exact ⟨fun h => absurd h (by decide), fun h => by omega⟩

/-- Between positions of the table there is a distance. -/
theorem exists_get_ok {t : DistanceTable} {a b : Int} (ha : t.Places a) (hb : t.Places b) :
    ∃ d, t.get a b = .ok d := by
  obtain ⟨i, hi⟩ := ha
  obtain ⟨j, hj⟩ := hb
  have hilt := Position.resolve?_lt hi
  have hjlt := Position.resolve?_lt hj
  have hlt : i * t.size + j < t.entries.size := by
    rw [t.complete]
    calc i * t.size + j < i * t.size + t.size := by omega
      _ = (i + 1) * t.size := (Nat.succ_mul i t.size).symm
      _ ≤ t.size * t.size := Nat.mul_le_mul_right _ hilt
  have hat : t.at? a b = some t.entries[i * t.size + j] := by
    simp only [at?, hi, hj, Option.bind_eq_bind, Option.bind_some]
    exact Array.getElem?_eq_getElem hlt
  exact ⟨t.entries[i * t.size + j], by simp only [get, hat]⟩

theorem places_of_get {t : DistanceTable} {a b : Int} {d : Int64} (h : t.get a b = .ok d) :
    t.Places a := by
  unfold get at h
  split at h
  · rename_i hat
    obtain ⟨k, hk, -⟩ := Option.bind_eq_some_iff.mp hat
    exact ⟨k, hk⟩
  · cases h

end DistanceTable

namespace Tour

variable {p : Problem} {t : Tour}

/-- Every visit of the problem is on the route or in the bank, and nothing else is. -/
structure Balanced (p : Problem) (t : Tour) : Prop where
  problem : t.problem = p
  visits : (t.route ++ t.bank).Perm p.visits

/-- Every visit of the problem is on the route, once, and the bank is empty. -/
structure Complete (p : Problem) (t : Tour) : Prop where
  problem : t.problem = p
  bank : t.bank = []
  route : t.route.Perm p.visits

theorem balanced_empty (p : Problem) : Balanced p (empty p) := ⟨rfl, List.Perm.refl _⟩

theorem Complete.balanced (h : Complete p t) : Balanced p t := by
  refine ⟨h.problem, ?_⟩
  rw [h.bank, List.append_nil]
  exact h.route

theorem Complete.nodup_route (h : Complete p t) (hp : p.visits.Nodup) : t.route.Nodup :=
  h.route.nodup_iff.mpr hp

theorem Balanced.mem_visits (h : Balanced p t) {v : Int} (hv : v ∈ t.route) : v ∈ p.visits :=
  h.visits.subset (List.mem_append_left _ hv)

/-- The table has a place for every visit on the route. -/
def Placed (t : Tour) : Prop := ∀ v ∈ t.route, t.problem.distances.Places v

theorem Balanced.placed (h : Balanced p t) (hp : p.Sound) : t.Placed := by
  intro v hv
  rw [h.problem]
  exact hp.placed v (h.mem_visits hv)

theorem Balanced.length_route_le (h : Balanced p t) : t.route.length ≤ p.visits.length := by
  have hlength := h.visits.length_eq
  rw [List.length_append] at hlength
  omega

/-! ## Costs -/

/-- Every visit of a route is the start of one leg. -/
theorem map_fst_legs (route : List Int) : (legs route).map Prod.fst = route := by
  unfold legs
  apply List.map_fst_zip
  rw [List.length_append, List.length_drop, List.length_take]
  omega

theorem length_legs (route : List Int) : (legs route).length = route.length := by
  rw [← List.length_map Prod.fst, map_fst_legs]

/-- Both ends of a leg are on the route. -/
theorem mem_of_mem_legs {route : List Int} {leg : Int × Int} (h : leg ∈ legs route) :
    leg.1 ∈ route ∧ leg.2 ∈ route := by
  obtain ⟨hfirst, hsecond⟩ := List.of_mem_zip h
  refine ⟨hfirst, ?_⟩
  rcases List.mem_append.mp hsecond with hmem | hmem
  · exact List.mem_of_mem_drop hmem
  · exact List.mem_of_mem_take hmem

/-- Every leg of a route of visits that the table has has a distance. -/
theorem Placed.exists_leg_ok (h : t.Placed) {leg : Int × Int} (hleg : leg ∈ legs t.route) :
    ∃ d, t.problem.distances.get leg.1 leg.2 = .ok d := by
  obtain ⟨hfirst, hsecond⟩ := mem_of_mem_legs hleg
  exact DistanceTable.exists_get_ok (h _ hfirst) (h _ hsecond)

theorem Placed.exists_objective_ok (h : t.Placed) : ∃ cost, t.objective = .ok cost := by
  have hroute : ∃ cost, t.routeCost = .ok cost := by
    unfold routeCost
    split
    · exact ⟨0, rfl⟩
    · apply exists_foldlM_ok
      intro sum leg hleg
      apply exists_bind_ok (h.exists_leg_ok hleg)
      intro d _
      exact ⟨sum + d, rfl⟩
  apply exists_bind_ok hroute
  intro cost _
  exact ⟨_, rfl⟩

/-- A cost that can be computed is that of a route without legs, or all its visits have places. -/
theorem exists_objective_ok_iff :
    (∃ cost, t.objective = .ok cost) ↔ t.route.length < 2 ∨ t.Placed := by
  constructor
  · rintro ⟨cost, h⟩
    obtain ⟨sum, hsum, -⟩ := bind_eq_ok.mp h
    unfold routeCost at hsum
    split at hsum
    · exact Or.inl ‹_›
    · -- Every visit starts a leg, and the distance of every leg has been looked up.
      right
      intro v hv
      rw [← map_fst_legs t.route] at hv
      obtain ⟨leg, hleg, rfl⟩ := List.mem_map.mp hv
      obtain ⟨before, after, hstep⟩ := foldlM_ok_mem hsum hleg
      obtain ⟨d, hd, -⟩ := bind_eq_ok.mp hstep
      exact DistanceTable.places_of_get hd
  · rintro (hshort | h)
    · have hroute : t.routeCost = .ok 0 := if_pos hshort
      exact ⟨_, bind_eq_ok.mpr ⟨0, hroute, rfl⟩⟩
    · exact h.exists_objective_ok

theorem Balanced.exists_objective_ok (h : Balanced p t) (hp : p.Sound) :
    ∃ cost, t.objective = .ok cost := (h.placed hp).exists_objective_ok

/-! ## Feasibility -/

theorem mem_sortedSet {vs : List Int} {v : Int} : v ∈ sortedSet vs ↔ v ∈ vs := by
  rw [sortedSet, List.mem_eraseDups, List.mem_mergeSort]

theorem mem_duplicates {v : Int} : v ∈ t.duplicates ↔ 1 < t.route.count v := by
  rw [duplicates, mem_sortedSet, List.mem_filter, decide_eq_true_iff, and_iff_right_iff_imp]
  intro h
  exact List.count_pos_iff.mp (by omega)

theorem mem_missing {v : Int} :
    v ∈ t.missing ↔ v ∈ t.problem.visits ∧ v ∉ t.route ∧ v ∉ t.bank := by
  rw [missing, mem_sortedSet, List.mem_filter, decide_eq_true_iff]

theorem mem_unknown {v : Int} :
    v ∈ t.unknown ↔ (v ∈ t.route ∨ v ∈ t.bank) ∧ v ∉ t.problem.visits := by
  rw [unknown, mem_sortedSet, List.mem_filter, decide_eq_true_iff, List.mem_append]

theorem mem_sortedBank {v : Int} : v ∈ t.sortedBank ↔ v ∈ t.bank := List.mem_mergeSort

theorem issueOf_eq_nil_iff {make : List Int → Issue} {vs : List Int} :
    issueOf make vs = [] ↔ vs = [] := by
  cases vs with
  | nil => simp [issueOf]
  | cons v vs => simp [issueOf]

/-- Without looking at the distances, nothing speaks against a tour just when it is complete. -/
theorem visitIssues_eq_nil_iff (hp : t.problem.visits.Nodup) :
    t.visitIssues = [] ↔ Complete t.problem t := by
  simp only [visitIssues, List.append_eq_nil_iff, issueOf_eq_nil_iff]
  simp only [List.eq_nil_iff_forall_not_mem, mem_duplicates, mem_missing, mem_unknown,
    mem_sortedBank]
  constructor
  · rintro ⟨⟨⟨hduplicates, hmissing⟩, hunknown⟩, hbank⟩
    have hnodup : t.route.Nodup :=
      List.nodup_iff_count_le_one.mpr fun v => Nat.not_lt.mp (hduplicates v)
    refine ⟨rfl, List.eq_nil_iff_forall_not_mem.mpr hbank, ?_⟩
    -- Without repetitions, the same members are the same list in another order.
    rw [List.perm_ext_iff_of_nodup hnodup hp]
    intro v
    constructor
    · intro hv
      by_contra hstranger
      exact hunknown v ⟨Or.inl hv, hstranger⟩
    · intro hv
      by_contra habsent
      exact hmissing v ⟨hv, habsent, hbank v⟩
  · intro h
    have hmem : ∀ v, v ∈ t.route ↔ v ∈ t.problem.visits := fun v => h.route.mem_iff
    have hbank : ∀ v, v ∉ t.bank := List.eq_nil_iff_forall_not_mem.mp h.bank
    have hcount := List.nodup_iff_count_le_one.mp (h.nodup_route hp)
    refine ⟨⟨⟨fun v => Nat.not_lt.mpr (hcount v), ?_⟩, ?_⟩, hbank⟩
    · rintro v ⟨hv, habsent, -⟩
      exact habsent ((hmem v).mpr hv)
    · rintro v ⟨hv | hv, hstranger⟩
      · exact hstranger ((hmem v).mp hv)
      · exact hbank v hv

/-- The issues can be listed when both costs are known. -/
theorem issues_eq_ok {cost : Except Fault Int} {found : List Issue} : t.issues cost = .ok found ↔
    ∃ recomputed known, t.objective = .ok recomputed ∧ cost = .ok known ∧
      found = t.visitIssues ++ if recomputed = known then [] else [.mismatch known recomputed] := by
  constructor
  · intro h
    obtain ⟨recomputed, hrecomputed, h⟩ := bind_eq_ok.mp h
    obtain ⟨known, hknown, h⟩ := bind_eq_ok.mp h
    cases h
    exact ⟨recomputed, known, hrecomputed, hknown, rfl⟩
  · rintro ⟨recomputed, known, hrecomputed, hknown, rfl⟩
    exact bind_eq_ok.mpr ⟨recomputed, hrecomputed, bind_eq_ok.mpr ⟨known, hknown, rfl⟩⟩

/-- The issues of a complete tour with its own cost, if they can be listed, are none. -/
theorem Complete.issues_ok (h : Complete p t) (hp : p.visits.Nodup) {found : List Issue}
    (hfound : t.issues t.objective = .ok found) : found = [] := by
  obtain rfl := h.problem
  obtain ⟨recomputed, known, hrecomputed, hknown, rfl⟩ := issues_eq_ok.mp hfound
  cases hrecomputed.symm.trans hknown
  rw [(visitIssues_eq_nil_iff hp).mpr h, if_pos rfl, List.nil_append]

/-- A complete tour is feasible. -/
theorem Complete.issues_eq (h : Complete p t) (hp : p.Sound) : t.issues t.objective = .ok [] := by
  obtain ⟨cost, hcost⟩ := h.balanced.exists_objective_ok hp
  have hlisted := issues_eq_ok.mpr ⟨cost, cost, hcost, hcost, rfl⟩
  rw [hlisted, h.issues_ok hp.distinct hlisted]

end Tour

end LargeNeighborhood
