import LargeNeighborhood.Console.Session
import LargeNeighborhood.Proofs.Console.Emit
import LargeNeighborhood.Proofs.Tour.Reading
import LargeNeighborhood.Proofs.Tour.Search

set_option autoImplicit false

/-! # Sessions end with a feasible tour or with none

What is known of the result of work, whatever it prints and saves, is told by `Emit.Yields`, which
goes through the steps of a session one by one. Its first tour is made by insertion, and its search
has operators that meet the contract of a search for tours, so the tour that it reports on makes
every visit. This holds whatever is drawn: where a draw fails there is no tour, and the session ends
with a fault. A quarter of a route is never more than the route, so no bound on the size of an
instance is needed (`Session.status_ne_two`).

`Solver.run_keeps_tours_complete` says this of searches in general.
-/

namespace LargeNeighborhood

/-! ## Instances -/

/-- An instance that is read is measured. -/
theorem Instance.parse_ok {tag : Nat} {path text : String} {p : Problem}
    (h : parse tag path text = .ok p) : ∃ name points, p = .measured tag name points := by
  obtain ⟨-, -, -, -, points, -, -, -, -, -, -, -, rfl⟩ := parse_eq_ok_iff.mp h
  exact ⟨_, points, rfl⟩

namespace Session

/-- An instance that is loaded is measured, be it bundled or in a file. -/
theorem load_measured {f : Folder} {o : Options} {p : Problem} (h : load f o = .ok p) :
    ∃ name points, p = .measured 0 name points := by
  unfold load at h
  split at h
  · exact Instance.parse_ok h
  · obtain ⟨content, -, h⟩ := bind_eq_ok.mp h
    unfold Instance.read at h
    split at h
    · exact Instance.parse_ok h
    · cases h

theorem load_nodup {f : Folder} {o : Options} {p : Problem} (h : load f o = .ok p) :
    p.visits.Nodup := by
  obtain ⟨name, points, rfl⟩ := load_measured h
  exact Problem.nodup_measured 0 name points

/-! ## The solver of a session -/

variable {p : Problem}

/-- A quarter of the visits is never more than there are. -/
theorem count_standardDegree_le {degree : Float}
    (h : Removal.degree? Removal.standardDegree = .ok degree) (n : Nat) :
    Removal.count degree n ≤ n := by
  have hquarter : Rounding.worth 0.25 = some (Rounding.exactly (1 / 4)) := by
    have hscaled : Rounding.scaled (2 ^ 52) (-54) = 1 / 4 := by norm_num [Rounding.scaled]
    rw [← hscaled]
    rfl
  unfold Removal.degree? at h
  split at h
  · cases h
    exact Removal.count_le_of_le_half hquarter (by norm_num) (by norm_num) n
  · cases h

theorem offer_resolve {name name' : String} {action a : Action Tour Source}
    (h : (offer name action).resolve none = .ok (name', a)) : a = action := by
  cases h
  rfl

/-- The operators of a session meet the contract of a search for tours. -/
theorem solver_contract {g : Gauge} {s : Solver Tour Tour.Key Source Gauge (Option Quantity)}
    (hp : p.visits.Nodup) (h : solver g = .ok s) :
    s.selector.Contract (Tour.Complete p) (Tour.Balanced p) := by
  obtain ⟨created, hcreated, h⟩ := bind_eq_ok.mp h
  obtain ⟨⟨op, repairing⟩, hrepairing, h⟩ := bind_eq_ok.mp h
  -- Nothing is registered at first, then an insertion, and then one removal after the other.
  have hempty : created.selector.Contract (Tour.Complete p) (Tour.Balanced p) := by
    unfold Solver.create at hcreated
    dsimp only at hcreated
    split at hcreated
    · cases hcreated
    · cases hcreated
      intro role a ha
      cases role <;> cases ha
  have hrepair : repairing.selector.Contract (Tour.Complete p) (Tour.Balanced p) := by
    apply Solver.register_contract hempty hrepairing
    intro name a ha
    rw [offer_resolve ha]
    intro t w t' ht h'
    exact Insertion.apply_complete Source.permutes ht h'
  refine foldlM_ok (P := fun s => s.selector.Contract (Tour.Complete p) (Tour.Balanced p)) ?_
    hrepair h
  intro before removal after hbefore _ hstep
  obtain ⟨degree, hdegree, hstep⟩ := bind_eq_ok.mp hstep
  obtain ⟨⟨op', registered⟩, hregistered, hstep⟩ := bind_eq_ok.mp hstep
  cases hstep
  apply Solver.register_contract hbefore hregistered
  intro name a ha
  rw [offer_resolve ha]
  intro t w t' ht h'
  exact Removal.apply_balanced ht.balanced (ht.nodup_route hp) (count_standardDegree_le hdegree _) h'

/-! ## The tour found -/

open Emit

/-- The first tour is complete. -/
theorem construct_yields (p : Problem) (w : Source) :
    Yields (construct p w) fun first => Tour.Complete p first.1 := by
  have hcomplete : ∀ t, (Insertion.apply Source.generator (.empty p) w).1 = .ok t →
      Tour.Complete p t := fun t ht =>
    Insertion.apply_complete Source.permutes (Tour.balanced_empty p) ht
  unfold construct
  apply (yields_orFail hcomplete).bind
  intro t ht
  apply yields_after
  intro cost
  apply yields_after
  intro text
  apply yields_after
  intro _
  exact yields_pure ht

/-- The tour that improves on a complete one is complete. -/
theorem improve_yields (o : Options) {first : Tour} (hp : p.visits.Nodup)
    (hfirst : Tour.Complete p first) (w : Source) :
    Yields (improve o first w) fun found => Tour.Complete p found.tour := by
  unfold improve
  apply yields_after
  intro cost
  apply yields_after
  intro gauge
  apply (yields_orFail fun s hs => solver_contract hp hs).bind
  intro s hs
  apply yields_after
  intro _
  apply (yields_orFail fun best hbest => Solver.whole_of_run hs hfirst hbest).bind
  intro best hbest
  exact yields_pure hbest

/-- The tour that a session finds makes every visit of its instance. -/
theorem search_yields (s : Setting) (f : Folder) (o : Options) :
    Yields (search s f o) fun found => ∀ x, found = some x →
      ∃ p : Problem, p.visits.Nodup ∧ Tour.Complete p x.tour := by
  unfold search
  dsimp only
  apply yields_when
  apply yields_after
  intro source
  apply yields_after
  intro _
  split
  · -- An instance that cannot be read leads to no tour.
    split
    · exact yields_throw _
    · apply yields_after
      intro _
      apply yields_after
      intro _
      apply yields_pure
      intro x hx
      cases hx
  · rename_i p hload
    have hp := load_nodup hload
    apply yields_after
    intro _
    apply (construct_yields p source).bind
    intro first hfirst
    apply yields_after
    intro _
    apply (improve_yields o hp hfirst _).bind
    intro found hfound
    apply yields_pure
    intro x hx
    cases hx
    exact ⟨p, hp, hfound⟩

/-- The status is read off the issues of the tour. -/
theorem verdict_yields {t : Tour} (hp : p.visits.Nodup) (ht : Tour.Complete p t) (line : String) :
    Yields (do
      sayLine line
      let issues ← orFail (t.issues t.objective)
      return if issues.isEmpty then 0 else 2) fun status => status = 0 := by
  apply yields_after
  intro _
  apply (yields_orFail fun issues hissues => ht.issues_ok hp hissues).bind
  intro issues hissues
  apply yields_pure
  rw [hissues]
  rfl

/-- A session that has found a complete tour ends with status 0. -/
theorem conclude_yields (s : Setting) (f : Folder) (o : Options) (seconds : Quantity)
    {found : Found} (hp : p.visits.Nodup) (hfound : Tour.Complete p found.tour) :
    Yields (conclude s f o seconds found) fun status => status = 0 := by
  unfold conclude
  dsimp only
  apply yields_after
  intro _
  apply yields_after
  intro _
  split
  · apply yields_after
    intro _
    apply yields_after
    intro _
    apply yields_after
    intro _
    exact verdict_yields hp hfound _
  · exact verdict_yields hp hfound _

theorem work_yields (s : Setting) (f : Folder) (o : Options) (seconds : Quantity) :
    Yields (work s f o seconds) fun status => status ≠ 2 := by
  unfold work
  apply (search_yields s f o).bind
  intro found hfound
  cases found with
  | none => exact yields_pure (by decide)
  | some x =>
      obtain ⟨p, hp, hcomplete⟩ := hfound x rfl
      apply (conclude_yields s f o seconds hp hcomplete).mono
      intro status hstatus
      rw [hstatus]
      decide

/-- No session ends with status 2. -/
theorem status_ne_two (s : Setting) (f : Folder) (o : Options) (seconds : Quantity) :
    (run s f o seconds).status ≠ .ok 2 := by
  unfold run
  split
  · simp
  split
  · simp
  dsimp only
  split
  · intro hstatus
    exact (work_yields _ _ _ _).result .empty _ 2 (Prod.ext hstatus rfl) rfl
  · simp

end Session

/-! ## Every search for a tour -/

namespace Solver

/-- A search for a tour of a sound problem sets out from the tour that insertion makes of no tour at
all. Its operators do not fail, all its tours make every visit once, and nothing speaks against the
tour it returns; so no session ends with the status of a tour that is not feasible. -/
theorem run_keeps_tours_complete {ω γ π : Type} {p : Problem} (hp : p.Sound)
    {s : Solver Tour Tour.Key ω γ π} (hs : s.OnTours) {g : Generator ω} (hg : g.Lawful) :
    (∀ w : ω, ∃ first w', Insertion.apply g (.empty p) w = (.ok first, w') ∧
      Tour.Complete p first ∧
      ∀ (r : Request) (gauge : γ) (world : ω), s.KeepsTours p first r gauge world) ∧
    ∀ (setting : Session.Setting) (folder : Folder) (o : Options) (seconds : Quantity),
      (Session.run setting folder o seconds).status ≠ .ok 2 := by
  refine ⟨?_, Session.status_ne_two⟩
  intro w
  obtain ⟨first, w', happly⟩ := Insertion.exists_apply_ok hg hp (Tour.balanced_empty p) w
  have hfirst : Tour.Complete p first :=
    Insertion.apply_complete hg.permutes (Tour.balanced_empty p) (by rw [happly])
  exact ⟨first, w', happly, hfirst, fun r gauge world => hs.keepsTours hp hfirst r gauge world⟩

end Solver

/-! ### A search for a tour of five visits -/

namespace Solver

/-- A removal of half of the route. -/
def halving (i : Nat) (removal : Removal) : Operator Float Nat (Action Tour Nat) :=
  ⟨i, removal.name, removal.apply .counting 0.5, 1, 1, 0⟩

/-- A solver with all removals, of half of the route each, and a criterion that reads its decisions
off its gauge. -/
def halvingTours : Solver Tour Tour.Key Nat (List Bool) Unit where
  landscape := Tour.landscape
  criterion := decided
  criterionName := "script"
  draw := Generator.counting.unit
  segment := .whole 3
  logInterval := .whole 0
  selector :=
    { destroyers := [halving 0 .random, halving 1 .worst, halving 2 .path]
      repairers := [⟨0, Insertion.name, Insertion.apply .counting, 1, 1, 0⟩]
      reaction := standardReaction }
  trace := .empty

/-- The tour that insertion makes of no tour at all. -/
def firstTour : Tour := ⟨.fiveVisits, [3, -3, 0, 1, 4], []⟩

theorem halvingTours_onTours : halvingTours.OnTours where
  destroyers := by
    have hdegree : Removal.degree? (.real 0.5) = .ok 0.5 := by decide +kernel
    have hhalving : ∀ (i : Nat) (removal : Removal),
        ∃ (g : Generator Nat) (removal' : Removal) (q : Quantity) (degree : Float), g.Lawful ∧
          Removal.degree? q = .ok degree ∧ (halving i removal).action = removal'.apply g degree :=
      fun i removal => ⟨.counting, removal, .real 0.5, 0.5, Generator.counting_lawful, hdegree, rfl⟩
    intro op hop
    have hcases : op = halving 0 .random ∨ op = halving 1 .worst ∨ op = halving 2 .path := by
      simpa [halvingTours] using hop
    rcases hcases with rfl | rfl | rfl
    · exact hhalving 0 .random
    · exact hhalving 1 .worst
    · exact hhalving 2 .path
  repairers := by
    intro op hop
    rw [List.mem_singleton.mp hop]
    exact ⟨.counting, Generator.counting_lawful, rfl⟩

theorem insertion_firstTour :
    Insertion.apply .counting (.empty .fiveVisits) 0 = (.ok firstTour, 1) := by rfl

theorem run_keeps_tours_complete_halvingTours :
    let decisions := [true, false, true, true]
    Problem.fiveVisits.Sound ∧ halvingTours.OnTours ∧ Generator.counting.Lawful ∧
      Insertion.apply .counting (.empty .fiveVisits) 0 = (.ok firstTour, 1) ∧
      ((halvingTours.run firstTour fourIterations decisions 1).result.map
        fun best => (best.state.route, best.cost)) = .ok ([-3, 4, 3, 1, 0], .whole 14) ∧
      halvingTours.KeepsTours .fiveVisits firstTour fourIterations decisions 1 := by
  obtain ⟨hrun, -⟩ := run_keeps_tours_complete Problem.fiveVisits_sound halvingTours_onTours
    Generator.counting_lawful
  obtain ⟨first, w', happly, -, hkeeps⟩ := hrun 0
  rw [insertion_firstTour] at happly
  cases happly
  exact ⟨Problem.fiveVisits_sound, halvingTours_onTours, Generator.counting_lawful,
    insertion_firstTour, by decide +kernel, hkeeps fourIterations _ 1⟩

end Solver

end LargeNeighborhood
