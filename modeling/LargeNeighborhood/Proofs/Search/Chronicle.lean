import LargeNeighborhood.Proofs.Search.Novelty
import Mathlib.Data.List.Basic

set_option autoImplicit false

/-! # The history as a chronicle

The rows of a history follow from one another. What a row says of the costs after its iteration, of
its move and of its score is told by its candidate, by whether that was novel, and by the costs that
the row in front of it has recorded (`Entry.Follows`); the first row follows from the initial cost.
So a history can be checked without the run that has written it (`Consistent`), and the history of
every completed run passes (`Solver.run_history_consistent`).

A score is given by what was accepted, a move by what is best. They agree because the best cost is
never above the current one: nothing becomes a new best solution without having been accepted.
-/

namespace LargeNeighborhood

variable {σ κ ω γ π ν : Type}

/-! ## Rows that follow -/

/-- Row `i` of a history, when `held` is the current cost in front of it and `least` the best
one. -/
structure Entry.Follows [Scalar ν] (rewards : Rewards ν) (i : Nat) (held least : Cost)
    (e : Entry ν π) : Prop where
  iteration : e.iteration = i
  current : e.current = if e.move = .rejected then held else e.candidate
  best : e.best = if e.current < least then e.current else least
  newBest : e.move = .newBest ↔ e.best < least
  better : e.move = .better ↔ e.move ≠ .rejected ∧ e.move ≠ .newBest ∧ e.candidate < held
  score : e.score =
    if e.move = .newBest then rewards.newBest
    else if e.novel = true ∧ e.candidate < held then rewards.better
    else if e.novel = true ∧ e.move ≠ .rejected then rewards.accepted
    else Scalar.zero

/-- Rows from number `i` on, each of which follows from the one in front of it. -/
inductive Consistent [Scalar ν] (rewards : Rewards ν) :
    Nat → Cost → Cost → List (Entry ν π) → Prop
  | nil {i : Nat} {held least : Cost} : Consistent rewards i held least []
  | cons {i : Nat} {held least : Cost} {e : Entry ν π} {rows : List (Entry ν π)} :
      e.Follows rewards i held least → Consistent rewards (i + 1) e.current e.best rows →
      Consistent rewards i held least (e :: rows)

namespace Consistent

variable [Scalar ν] {rewards : Rewards ν} {i : Nat} {held least : Cost} {rows : List (Entry ν π)}

/-- One more row has to follow from the last one. -/
theorem snoc {e : Entry ν π} (h : Consistent rewards i held least rows)
    (hrow : e.Follows rewards (i + rows.length) ((rows.map Entry.current).getLastD held)
      ((rows.map Entry.best).getLastD least)) :
    Consistent rewards i held least (rows ++ [e]) := by
  induction h with
  | nil => exact .cons hrow .nil
  | @cons i held least e' rows hfirst hrest ih =>
      refine .cons hfirst (ih ?_)
      have hnumber : i + 1 + rows.length = i + (e' :: rows).length := by
        rw [List.length_cons]
        omega
      rw [hnumber]
      simpa only [List.map_cons, List.getLastD_cons] using hrow

/-- The rows are numbered without a gap. -/
theorem iterations (h : Consistent rewards i held least rows) :
    rows.map Entry.iteration = List.range' i rows.length := by
  induction h with
  | nil => rfl
  | cons hrow hrest ih =>
      rw [List.map_cons, hrow.iteration, ih, List.length_cons, List.range'_succ]

end Consistent

/-! ## Verdicts -/

theorem Verdict.move_eq_better {v : Verdict} :
    v.move = .better ↔ v.newBest = false ∧ v.accepted = true ∧ v.better = true := by
  cases hb : v.newBest <;> cases ha : v.accepted <;> cases hc : v.better <;>
    simp [move, hb, ha, hc]

/-- Where only an accepted candidate becomes a new best one, the move tells what is earned. -/
theorem Verdict.score_eq [Scalar ν] (r : Rewards ν) {v : Verdict} {cheaper : Prop}
    [Decidable cheaper] (hbetter : v.better = true ↔ cheaper)
    (h : v.accepted = false → v.newBest = false) :
    v.score r = if v.move = .newBest then r.newBest
      else if v.novel = true ∧ cheaper then r.better
      else if v.novel = true ∧ v.move ≠ .rejected then r.accepted
      else Scalar.zero := by
  have hrejected : v.move = .rejected ↔ v.accepted = false := by
    rw [Verdict.move_eq_rejected]
    exact ⟨fun hmove => hmove.2, fun haccepted => ⟨h haccepted, haccepted⟩⟩
  cases haccepted : v.accepted with
  | false =>
      simp [score, Verdict.move_eq_newBest, hrejected, h haccepted, haccepted, hbetter]
  | true => simp [score, Verdict.move_eq_newBest, hrejected, haccepted, hbetter]

/-! ## Stages -/

variable [BEq κ] [Scalar ν] {s : Setting σ κ ω γ π ν} {first w : Walk σ κ ω γ π ν}
  {start : Rated σ} {done : List (Stage σ κ ω γ π ν)} {st : Stage σ κ ω γ π ν} {i : Nat}

namespace Course

/-- The row of an iteration follows from the costs in front of it. -/
theorem Kept.follows (h : Kept start done st.before) (hst : st.Sound s i) :
    st.entry.Follows s.rewards i st.before.current.cost st.before.best.cost := by
  have hrejected := h.move_rejected_iff hst
  have hbetter : st.verdict.better = true ↔
      st.turn.candidate.cost < st.before.current.cost := decide_eq_true_iff
  have hnewBest : st.verdict.newBest = true ↔
      st.after.current.cost < st.before.best.cost := decide_eq_true_iff
  have hbest : st.after.best.cost = if st.after.current.cost < st.before.best.cost then
      st.after.current.cost else st.before.best.cost := by
    rw [hst.best]
    split <;> rfl
  -- a best cost that stays is not below itself, as it is a whole number
  have hlower : st.verdict.move = .newBest ↔ st.after.best.cost < st.before.best.cost := by
    rw [Verdict.move_eq_newBest, hnewBest, hbest]
    split
    · rfl
    · rename_i hlt
      simp only [hlt, false_iff]
      rw [Quantity.not_lt_of_isWhole h.best_isWhole h.best_isWhole]
      exact Quantity.le_refl_of_isWhole h.best_isWhole
  rw [hst.entry] at hrejected ⊢
  exact {
    iteration := rfl
    current := by
      rw [if_congr hrejected rfl rfl, hst.current]
      cases st.turn.accepted <;> rfl
    best := hbest
    newBest := hlower
    better := by
      rw [Ne, hrejected, Ne, Verdict.move_eq_newBest, Verdict.move_eq_better, hbetter,
        Bool.not_eq_true, Bool.not_eq_false]
      exact and_left_comm
    score := Verdict.score_eq s.rewards hbetter (h.not_newBest_of_rejected hst) }

/-- The rows of a course are consistent, and the last one has the costs that it has led to. -/
theorem consistent (h : Course s first done w) (hbest : first.best = start)
    (hcurrent : first.current = start) (hstart : start.cost.isWhole)
    (hwhole : ∀ st ∈ done, st.turn.candidate.cost.isWhole) :
    Consistent s.rewards 1 start.cost start.cost (done.map Stage.entry) ∧
      w.current.cost = ((done.map Stage.entry).map Entry.current).getLastD start.cost ∧
      w.best.cost = ((done.map Stage.entry).map Entry.best).getLastD start.cost := by
  induction h with
  | start => exact ⟨.nil, by rw [hcurrent]; rfl, by rw [hbest]; rfl⟩
  | @step done w st h hst ih =>
      obtain ⟨hbefore, hsound⟩ := Walk.stage_ok hst
      have hdone : ∀ st ∈ done, st.turn.candidate.cost.isWhole :=
        fun st hmem => hwhole st (List.mem_append_left _ hmem)
      obtain ⟨hrows, hlastCurrent, hlastBest⟩ := ih hdone
      have hkept := h.kept hbest hcurrent hstart hdone
      rw [← hbefore] at hkept hlastCurrent hlastBest
      have hrow := hkept.follows hsound
      refine ⟨?_, ?_, ?_⟩
      · rw [List.map_append]
        apply hrows.snoc
        rw [← hlastCurrent, ← hlastBest, List.length_map, Nat.add_comm]
        exact hrow
      · simp [hsound.entry]
      · simp [hsound.entry]

end Course

/-! ## Runs -/

namespace Solver

variable {s : Solver σ κ ω γ π} {initial : σ} {r : Request} {gauge : γ} {world : ω}
  {best : Rated σ}

/-- The history of a completed run has one row for each iteration, and these follow from the
initial cost; a row is rejected when its candidate was. -/
theorem run_history_consistent (hrun : (s.run initial r gauge world).result = .ok best)
    (hwhole : s.CostsWhole initial r gauge world) :
    ∃ (n : Nat) (cost : Cost) (rewards : Rewards Float),
      r.iterations = .whole n ∧ s.landscape.cost initial = .ok cost ∧
      rewards? r.rewards = .ok rewards ∧
      (s.history initial r gauge world).length = n ∧
      (s.history initial r gauge world).map Entry.iteration = List.range' 1 n ∧
      Consistent rewards 1 cost cost (s.history initial r gauge world) ∧
      s.history initial r gauge world = (s.stages initial r gauge world).map Stage.entry ∧
      ∀ st ∈ s.stages initial r gauge world,
        (st.entry.move = .rejected ↔ st.turn.accepted = false) := by
  obtain ⟨setting, first, last, n, h⟩ := run_ok hrun
  obtain ⟨hrows, -, -⟩ := h.course.consistent rfl h.current (hwhole.start _ h.cost)
    hwhole.candidates
  have hlength : ((s.stages initial r gauge world).map Stage.entry).length = n := by
    rw [List.length_map, h.length]
  have hnumbers := hrows.iterations
  rw [hlength] at hnumbers
  rw [h.history_eq]
  refine ⟨n, first.best.cost, setting.rewards, h.count, h.cost, h.rewards, hlength, hnumbers, hrows,
    rfl, ?_⟩
  intro st hst
  obtain ⟨done, rest, hstages⟩ := List.append_of_mem hst
  obtain ⟨-, hkept, -, hsound⟩ := h.split hwhole hstages
  exact hkept.move_rejected_iff hsound

/-- The second candidate is dearer than the current solution and accepted, the third one is cheaper
than that but not the best, and the last one is cheap but rejected. -/
theorem run_history_consistent_scripted :
    let decisions := [true, true, true, false]
    let script := [52, 71, 63, 31]
    let rows := (scripted decided).history 80 fourIterations decisions script
    ((scripted decided).run 80 fourIterations decisions script).result = .ok ⟨52, .whole 5⟩ ∧
      (scripted decided).CostsWhole 80 fourIterations decisions script ∧
      rows.map Entry.move = [.newBest, .accepted, .better, .rejected] ∧
      rows.map Entry.score = [3, 1, 2, 2] ∧
      ∃ cost rewards, Consistent rewards 1 cost cost rows := by
  have hrun : ((scripted decided).run 80 fourIterations [true, true, true, false]
      [52, 71, 63, 31]).result = .ok ⟨52, .whole 5⟩ := by decide +kernel
  have hwhole := scripted_costsWhole decided 80 fourIterations [true, true, true, false]
    [52, 71, 63, 31]
  obtain ⟨-, cost, rewards, -, -, -, -, -, hrows, -⟩ := run_history_consistent hrun hwhole
  exact ⟨hrun, hwhole, by decide +kernel, by decide +kernel, cost, rewards, hrows⟩

end Solver

end LargeNeighborhood
