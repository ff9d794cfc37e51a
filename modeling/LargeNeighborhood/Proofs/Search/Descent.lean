import LargeNeighborhood.Proofs.Search.Chronicle
import LargeNeighborhood.Search.Gauge

set_option autoImplicit false

/-! # Hill climbing descends

Hill climbing accepts what costs less than the current solution. So the current solution is the
best one at all times, every accepted candidate becomes a new best solution, and the costs of the
solutions visited fall strictly (`Course.Descending`). Of the four moves only two are left, and of
the three rewards only the first one: a candidate that is cheaper than the current solution is
accepted, so nothing is paid for one that was not, and an accepted one is a new best solution before
it can be anything less.

Whole costs that fall strictly fall by one at least, which bounds the number of candidates that are
accepted.
-/

namespace LargeNeighborhood

variable {σ κ ω ν : Type} {exp : Float → Float} {unit : ω → Except Fault Float × ω}

/-- Hill climbing accepts what is cheaper, and stays what it is. -/
theorem Stage.Sound.climbs [BEq κ] [Scalar ν] {s : Setting σ κ ω Gauge (Option Quantity) ν}
    {i : Nat} {st : Stage σ κ ω Gauge (Option Quantity) ν} (hst : st.Sound s i)
    (hcriterion : s.criterion = Gauge.criterion exp unit)
    (hgauge : st.before.gauge = .hillClimbing) :
    st.after.gauge = .hillClimbing ∧
      st.turn.accepted = decide (st.turn.candidate.cost < st.before.current.cost) := by
  obtain ⟨opened, first, second, third, -, -, hjudge⟩ := hst.made
  rw [hcriterion, hgauge] at hjudge
  have haccepted : (.ok (decide (st.turn.candidate.cost < st.before.current.cost)) :
      Except Fault Bool) = .ok st.turn.accepted := congrArg Prod.fst hjudge
  have hafter : Gauge.hillClimbing = st.after.gauge := congrArg (fun x => x.2.1) hjudge
  exact ⟨hafter.symm, (Except.ok.inj haccepted).symm⟩

/-! ## The invariant -/

variable {start : Rated σ} {done : List (Stage σ κ ω Gauge (Option Quantity) ν)}
  {first w : Walk σ κ ω Gauge (Option Quantity) ν} {st : Stage σ κ ω Gauge (Option Quantity) ν}

/-- What stages of hill climbing keep of a walk that has started from `start`. -/
structure Course.Descending (start : Rated σ)
    (done : List (Stage σ κ ω Gauge (Option Quantity) ν))
    (w : Walk σ κ ω Gauge (Option Quantity) ν) : Prop extends Course.Kept start done w where
  gauge : w.gauge = .hillClimbing
  current_eq : w.current = w.best
  falling : ((visitedOf start done).map Rated.cost).Pairwise fun a b => b < a
  drop : ∃ a b : Int, start.cost = .whole a ∧ w.best.cost = .whole b ∧
    ((acceptedOf done).length : Int) ≤ a - b

namespace Course.Descending

theorem outset (hbest : w.best = start) (hcurrent : w.current = start) (hwhole : start.cost.isWhole)
    (hgauge : w.gauge = .hillClimbing) :
    Descending start ([] : List (Stage σ κ ω Gauge (Option Quantity) ν)) w where
  toKept := .outset hbest hcurrent hwhole
  gauge := hgauge
  current_eq := by rw [hcurrent, hbest]
  falling := List.pairwise_singleton _ _
  drop := by
    obtain ⟨a, ha⟩ := Quantity.isWhole_iff.mp hwhole
    exact ⟨a, a, ha, by rw [hbest, ha], by simp [acceptedOf]⟩

variable [BEq κ] [Scalar ν] {s : Setting σ κ ω Gauge (Option Quantity) ν} {i : Nat}

/-- What is accepted is a new best solution, and what is cheaper is accepted. -/
theorem verdict_eq (h : Descending start done st.before) (hst : st.Sound s i)
    (hcriterion : s.criterion = Gauge.criterion exp unit) :
    st.verdict.newBest = st.turn.accepted ∧ st.verdict.better = st.turn.accepted := by
  obtain ⟨-, haccepted⟩ := hst.climbs hcriterion h.gauge
  refine ⟨?_, haccepted.symm⟩
  cases hrejected : st.turn.accepted with
  | false => exact h.not_newBest_of_rejected hst hrejected
  | true =>
      rw [hrejected, eq_comm, decide_eq_true_iff, h.current_eq] at haccepted
      have hcurrent := hst.current
      rw [hrejected, if_pos rfl] at hcurrent
      simp only [Stage.verdict, hcurrent, haccepted, decide_true]

theorem step (h : Descending start done st.before) (hst : st.Sound s i)
    (hcriterion : s.criterion = Gauge.criterion exp unit)
    (hcandidate : st.turn.candidate.cost.isWhole) :
    Descending start (done ++ [st]) st.after := by
  obtain ⟨hgauge, haccepted⟩ := hst.climbs hcriterion h.gauge
  have hkept := h.toKept.step hst hcandidate
  obtain ⟨a, b, ha, hb, hdrop⟩ := h.drop
  rcases h.step_cases hst with ⟨hmoved, hcurrent, hbest⟩ | ⟨hmoved, hcurrent, hlt, hbest⟩ |
    ⟨hmoved, -, hlt, -⟩
  · have hvisited : visitedOf start (done ++ [st]) = visitedOf start done := by
      rw [visitedOf_snoc, hmoved, if_neg Bool.false_ne_true]
    have haccepts : acceptedOf (done ++ [st]) = acceptedOf done := List.cons.inj hvisited |>.2
    exact {
      toKept := hkept
      gauge := hgauge
      current_eq := by rw [hcurrent, hbest, h.current_eq]
      falling := by rw [hvisited]; exact h.falling
      drop := ⟨a, b, ha, by rw [hbest, hb], by rw [haccepts]; exact hdrop⟩ }
  · have hvisited : visitedOf start (done ++ [st]) =
        visitedOf start done ++ [st.turn.candidate] := by
      rw [visitedOf_snoc, hmoved, if_pos rfl]
    have haccepts : acceptedOf (done ++ [st]) = acceptedOf done ++ [st.turn.candidate] :=
      List.cons.inj hvisited |>.2
    obtain ⟨c, hc⟩ := Quantity.isWhole_iff.mp hcandidate
    exact {
      toKept := hkept
      gauge := hgauge
      current_eq := by rw [hcurrent, hbest]
      falling := by
        -- The best solution so far is the cheapest of those that have been visited.
        rw [hvisited, List.map_append, List.pairwise_append]
        refine ⟨h.falling, List.pairwise_singleton _ _, ?_⟩
        intro x hx y hy
        obtain ⟨z, hz, rfl⟩ := List.mem_map.mp hx
        obtain rfl := List.mem_singleton.mp hy
        exact Quantity.lt_of_lt_of_le_of_isWhole hcandidate h.best_isWhole (h.whole z hz) hlt
          (h.best_le hz)
      drop := by
        rw [hb, hc, Quantity.whole_lt_whole] at hlt
        refine ⟨a, c, ha, by rw [hbest, hc], ?_⟩
        rw [haccepts, List.length_append, List.length_singleton]
        omega }
  · -- What is accepted is cheaper than the current solution, which is the best one.
    rw [hmoved, eq_comm, decide_eq_true_iff, h.current_eq] at haccepted
    exact absurd haccepted hlt

/-- Nothing that equals an earlier solution is cheaper than the current one. -/
theorem novel (h : Descending start done st.before) (hcourse : Course s first done st.before)
    (hst : st.Sound s i) (hfirst : first.accepted = []) (hcoherent : s.landscape.Coherent)
    (hcriterion : s.criterion = Gauge.criterion exp unit) (haccepted : st.turn.accepted = true) :
    st.turn.novel = true := by
  by_contra hnovel
  have hnewBest := hcourse.not_newBest h.toKept hst hfirst hcoherent (Bool.eq_false_iff.mpr hnovel)
  rw [(h.verdict_eq hst hcriterion).1, haccepted] at hnewBest
  cases hnewBest

/-- An iteration finds a new best solution and earns the first reward, or is rejected and earns
nothing. -/
theorem row (h : Descending start done st.before) (hst : st.Sound s i)
    (hcriterion : s.criterion = Gauge.criterion exp unit) :
    st.entry.move = (if st.turn.accepted = true then .newBest else .rejected) ∧
      st.entry.score = if st.turn.accepted = true then s.rewards.newBest else Scalar.zero := by
  obtain ⟨hnewBest, hbetter⟩ := h.verdict_eq hst hcriterion
  have haccepted : st.verdict.accepted = st.turn.accepted := rfl
  rw [hst.entry]
  cases hmoved : st.turn.accepted <;>
    simp [Verdict.move, Verdict.score, haccepted, hnewBest, hbetter, hmoved]

end Course.Descending

theorem Course.descending [BEq κ] [Scalar ν] {s : Setting σ κ ω Gauge (Option Quantity) ν}
    (h : Course s first done w) (hcriterion : s.criterion = Gauge.criterion exp unit)
    (hgauge : first.gauge = .hillClimbing) (hbest : first.best = start)
    (hcurrent : first.current = start) (hstart : start.cost.isWhole)
    (hwhole : ∀ st ∈ done, st.turn.candidate.cost.isWhole) : Descending start done w := by
  induction h with
  | start => exact .outset hbest hcurrent hstart hgauge
  | step h hst ih =>
      obtain ⟨hbefore, hsound⟩ := Walk.stage_ok hst
      have hdone := ih fun st hmem => hwhole st (List.mem_append_left _ hmem)
      exact .step (hbefore ▸ hdone) hsound hcriterion (hwhole _ (by simp))

/-! ## Runs -/

namespace Solver

variable [BEq κ] {s : Solver σ κ ω Gauge (Option Quantity)} {initial : σ} {r : Request} {world : ω}
  {best : Rated σ}

/-- Under hill climbing the current solution is the best one after every iteration. An accepted
candidate is novel, a new best solution and earns the first reward; all else is rejected and earns
nothing. The costs of the solutions visited fall strictly, so that no more candidates are accepted
than the cost has dropped. -/
theorem run_descends (hcriterion : s.criterion = Gauge.criterion exp unit)
    (hwhole : s.CostsWhole initial r .hillClimbing world) (hcoherent : s.landscape.Coherent)
    (hrun : (s.run initial r .hillClimbing world).result = .ok best) :
    ∃ (start : Rated σ) (rewards : Rewards Float), start.state = initial ∧
      s.landscape.cost initial = .ok start.cost ∧ rewards? r.rewards = .ok rewards ∧
      s.history initial r .hillClimbing world =
        (s.stages initial r .hillClimbing world).map Stage.entry ∧
      (∀ st ∈ s.stages initial r .hillClimbing world,
        st.after.current = st.after.best ∧
        st.entry.move = (if st.turn.accepted = true then .newBest else .rejected) ∧
        st.entry.score = (if st.turn.accepted = true then rewards.newBest else 0) ∧
        (st.turn.accepted = true → st.entry.novel = true)) ∧
      ((visitedOf start (s.stages initial r .hillClimbing world)).map Rated.cost).Pairwise
        (fun a b => b < a) ∧
      ∃ a b : Int, start.cost = .whole a ∧ best.cost = .whole b ∧
        ((acceptedOf (s.stages initial r .hillClimbing world)).length : Int) ≤ a - b := by
  obtain ⟨setting, first, last, n, h⟩ := run_ok hrun
  have hcriterion' : setting.criterion = Gauge.criterion exp unit := h.criterion.trans hcriterion
  have hdescending : ∀ {done rest w}, Course setting first done w →
      s.stages initial r .hillClimbing world = done ++ rest →
      Course.Descending first.best done w := by
    intro done rest w hcourse hdone
    refine hcourse.descending hcriterion' h.startGauge rfl h.current (hwhole.start _ h.cost) ?_
    intro st hst
    exact hwhole.candidates st (by rw [hdone]; exact List.mem_append_left _ hst)
  have hlast := hdescending h.course (List.append_nil _).symm
  refine ⟨first.best, setting.rewards, h.origin, h.cost, h.rewards, h.history_eq, ?_, hlast.falling,
    ?_⟩
  · intro st hst
    -- every stage is the last one of a shorter course
    obtain ⟨done, rest, hstages⟩ := List.append_of_mem hst
    obtain ⟨hbefore, hafter, hsound⟩ := Course.of_stages (h.stages ▸ hstages)
    have hfront := hdescending hbefore hstages
    have hsplit : s.stages initial r .hillClimbing world = (done ++ [st]) ++ rest := by
      simpa using hstages
    have hbehind := hdescending hafter hsplit
    obtain ⟨hmove, hscore⟩ := hfront.row hsound hcriterion'
    refine ⟨hbehind.current_eq, hmove, hscore, ?_⟩
    intro haccepted
    rw [hsound.entry]
    exact hfront.novel hbefore hsound h.accepted (h.landscape ▸ hcoherent) hcriterion' haccepted
  · rw [← h.returned]
    exact hlast.drop

/-- Of four candidates, one of them as cheap as the best solution so far, two are accepted. -/
theorem run_descends_scripted :
    let exp : Float → Float := Float.exp
    let unit : List Nat → Except Fault Float × List Nat := fun script => (.ok 0.5, script)
    let s := scripted (Gauge.criterion exp unit)
    let script := [52, 57, 31, 58]
    (s.run 80 fourIterations .hillClimbing script).result = .ok ⟨31, .whole 3⟩ ∧
      s.CostsWhole 80 fourIterations .hillClimbing script ∧ s.landscape.Coherent ∧
      (s.history 80 fourIterations .hillClimbing script).map Entry.move =
        [.newBest, .rejected, .newBest, .rejected] ∧
      (s.history 80 fourIterations .hillClimbing script).map Entry.score = [3, 0, 3, 0] ∧
      ∃ a b : Int, ((acceptedOf (s.stages 80 fourIterations .hillClimbing script)).length : Int) ≤
        a - b := by
  intro exp unit s script
  have hrun : (s.run 80 fourIterations .hillClimbing script).result = .ok ⟨31, .whole 3⟩ := by
    decide +kernel
  have hwhole : s.CostsWhole 80 fourIterations .hillClimbing script :=
    scripted_costsWhole (Gauge.criterion exp unit) 80 fourIterations .hillClimbing script
  have hcoherent : s.landscape.Coherent := scripted_coherent (Gauge.criterion exp unit)
  obtain ⟨start, rewards, -, -, -, -, -, -, a, b, -, -, hdrop⟩ :=
    run_descends rfl hwhole hcoherent hrun
  exact ⟨hrun, hwhole, hcoherent, by decide +kernel, by decide +kernel, a, b, hdrop⟩

end Solver

end LargeNeighborhood
