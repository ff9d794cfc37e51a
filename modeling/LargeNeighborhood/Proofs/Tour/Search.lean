import LargeNeighborhood.Proofs.Search.Operators
import LargeNeighborhood.Proofs.Tour.Insertion
import LargeNeighborhood.Proofs.Tour.Removal

set_option autoImplicit false

/-! # Searches for tours

The removals and the insertion meet a contract (`Action.Meets`): a removal makes a balanced tour of
a complete one, an insertion makes a complete tour of a balanced one. So a search that sets out from
a complete tour meets complete tours only, under every criterion. Where the problem is sound and the
sources of draws keep their promises, its operators never fail (`Solver.OnTours.keepsTours`).
-/

namespace LargeNeighborhood

namespace Tour

/-- A tour is known by its problem, its route and its bank. -/
abbrev Key := Nat × List Int × List Int

end Tour

/-- Nowhere on a tour of a sound problem are more visits removed than there are. -/
theorem Problem.Sound.count_le {p : Problem} (hp : p.Sound) {t : Tour}
    (ht : Tour.Balanced p t) {q : Quantity} {degree : Float}
    (hdegree : Removal.degree? q = .ok degree) :
    Removal.count degree t.route.length ≤ t.route.length :=
  Removal.count_le_of_degree hdegree (ht.length_route_le.trans hp.length_le)

namespace Solver

variable {ω γ π : Type}

/-- A solver for tours, with removals of shares of the route and insertions. Each operator may have
a source of draws of its own; what the solver takes a tour to cost is left open. -/
structure OnTours (s : Solver Tour Tour.Key ω γ π) : Prop where
  destroyers : ∀ op ∈ s.selector.destroyers,
    ∃ (g : Generator ω) (removal : Removal) (q : Quantity) (degree : Float),
      g.Lawful ∧ Removal.degree? q = .ok degree ∧ op.action = removal.apply g degree
  repairers : ∀ op ∈ s.selector.repairers,
    ∃ g : Generator ω, g.Lawful ∧ op.action = Insertion.apply g

/-- What a run keeps to: all its tours are complete, accepted or not, its operators do not fail
wherever they may be drawn, and nothing speaks against the tour returned. -/
structure KeepsTours (p : Problem) (s : Solver Tour Tour.Key ω γ π) (first : Tour) (r : Request)
    (gauge : γ) (world : ω) : Prop where
  solutions : ∀ w ∈ s.walks first r gauge world,
    Tour.Complete p w.current.state ∧ Tour.Complete p w.best.state
  candidates : ∀ st ∈ s.stages first r gauge world, Tour.Complete p st.turn.candidate.state
  operators : ∀ w ∈ s.walks first r gauge world, ∀ d ∈ w.selector.destroyers, ∀ u,
    ∃ opened u', d.action w.current.state u = (.ok opened, u') ∧
      ∀ e ∈ w.selector.repairers, ∀ v,
        ∃ closed v' cost, e.action opened v = (.ok closed, v') ∧ Tour.Complete p closed ∧
          closed.objective = .ok cost
  returned : ∀ best, (s.run first r gauge world).result = .ok best →
    Tour.Complete p best.state ∧ best.state.issues best.state.objective = .ok []

namespace OnTours

variable {s : Solver Tour Tour.Key ω γ π} {p : Problem}

theorem destroyer_cases (hs : s.OnTours) {a : Action Tour ω}
    (ha : a ∈ s.selector.actions .destroy) :
    ∃ (g : Generator ω) (removal : Removal) (q : Quantity) (degree : Float),
      g.Lawful ∧ Removal.degree? q = .ok degree ∧ a = removal.apply g degree := by
  obtain ⟨op, hop, rfl⟩ := List.mem_map.mp ha
  exact hs.destroyers op hop

theorem repairer_cases (hs : s.OnTours) {a : Action Tour ω} (ha : a ∈ s.selector.actions .repair) :
    ∃ g : Generator ω, g.Lawful ∧ a = Insertion.apply g := by
  obtain ⟨op, hop, rfl⟩ := List.mem_map.mp ha
  exact hs.repairers op hop

/-- Removals and insertions meet their contract. -/
theorem contract (hs : s.OnTours) (hp : p.Sound) :
    s.selector.Contract (Tour.Complete p) (Tour.Balanced p) := by
  intro role a ha
  cases role with
  | destroy =>
      obtain ⟨g, removal, q, degree, -, hdegree, rfl⟩ := hs.destroyer_cases ha
      intro t w t' ht h
      exact Removal.apply_balanced ht.balanced (ht.nodup_route hp.distinct)
        (hp.count_le ht.balanced hdegree) h
  | repair =>
      obtain ⟨g, hg, rfl⟩ := hs.repairer_cases ha
      intro t w t' ht h
      exact Insertion.apply_complete hg.permutes ht h

/-- A removal from a complete tour does not fail. -/
theorem exists_destroy_ok (hs : s.OnTours) (hp : p.Sound) {a : Action Tour ω}
    (ha : a ∈ s.selector.actions .destroy) {t : Tour} (ht : Tour.Complete p t) (w : ω) :
    ∃ t' w', a t w = (.ok t', w') := by
  obtain ⟨g, removal, q, degree, hg, hdegree, rfl⟩ := hs.destroyer_cases ha
  exact Removal.exists_apply_ok hg.below_ok (ht.balanced.placed hp)
    (hp.count_le ht.balanced hdegree) removal w

/-- An insertion into a balanced tour does not fail, and makes a complete tour that has a cost. -/
theorem exists_repair_ok (hs : s.OnTours) (hp : p.Sound) {a : Action Tour ω}
    (ha : a ∈ s.selector.actions .repair) {t : Tour} (ht : Tour.Balanced p t) (w : ω) :
    ∃ t' w' cost, a t w = (.ok t', w') ∧ Tour.Complete p t' ∧ t'.objective = .ok cost := by
  have hcomplete := hs.contract hp .repair a ha t w
  obtain ⟨g, hg, rfl⟩ := hs.repairer_cases ha
  obtain ⟨t', w', happly⟩ := Insertion.exists_apply_ok hg hp ht w
  have ht' : Tour.Complete p t' := hcomplete t' ht (by rw [happly])
  obtain ⟨cost, hcost⟩ := ht'.balanced.exists_objective_ok hp
  exact ⟨t', w', cost, happly, ht', hcost⟩

/-- A search that sets out from a complete tour keeps to complete tours. -/
theorem keepsTours (hs : s.OnTours) (hp : p.Sound) {first : Tour} (hfirst : Tour.Complete p first)
    (r : Request) (gauge : γ) (world : ω) : s.KeepsTours p first r gauge world where
  solutions := fun w hw => whole_of_mem_walks (hs.contract hp) hfirst hw
  candidates := fun st hst => whole_of_mem_stages (hs.contract hp) hfirst hst
  operators := by
    intro w hw d hd u
    obtain ⟨hcurrent, -⟩ := whole_of_mem_walks (hs.contract hp) hfirst hw
    -- The operators of a walk are those of the solver, with other weights.
    have hda : d.action ∈ s.selector.actions .destroy := by
      rw [← actions_of_mem_walks hw]
      exact Selector.mem_actions hd
    obtain ⟨opened, u', hopened⟩ := hs.exists_destroy_ok hp hda hcurrent u
    refine ⟨opened, u', hopened, ?_⟩
    intro e he v
    have hea : e.action ∈ s.selector.actions .repair := by
      rw [← actions_of_mem_walks hw]
      exact Selector.mem_actions he
    have hbalanced : Tour.Balanced p opened :=
      hs.contract hp .destroy _ hda _ u _ hcurrent (by rw [hopened])
    exact hs.exists_repair_ok hp hea hbalanced v
  returned := by
    intro best hbest
    have hcomplete := whole_of_run (hs.contract hp) hfirst hbest
    exact ⟨hcomplete, hcomplete.issues_eq hp⟩

end OnTours

end Solver

end LargeNeighborhood
