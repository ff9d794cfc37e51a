import LargeNeighborhood.Proofs.Search.Operators

set_option autoImplicit false

/-! # Runs that stop early

An attempt that fails has only counted uses of operators, and moved the gauge and the world on; the
solutions of the walk, its record and the weights are as they were (`Walk.Drift`,
`Walk.attempt_error`). A run that stops early stands in front of such an attempt, or behind a row
that could not be announced (`Walk.run_error`). Every row that it has recorded is that of an iteration
(`Solver.recorded_of_history`).

So whatever becomes of a run, the solver keeps its operators and changes only their numbers
(`Solver.run_identities`).
-/

namespace LargeNeighborhood

variable {σ κ ω γ π ν : Type}

namespace Pool

variable {τ β : Type} [Tally ν τ]

@[simp] theorem identities_foldl_use (uses : List Nat) (p : Pool ν τ β) :
    identities (uses.foldl use p) = identities p := by
  induction uses generalizing p with
  | nil => rfl
  | cons i uses ih => rw [List.foldl_cons, ih, identities_use]

@[simp] theorem weights_foldl_use (uses : List Nat) (p : Pool ν τ β) :
    weights (uses.foldl use p) = weights p := by
  induction uses generalizing p with
  | nil => rfl
  | cons i uses ih => rw [List.foldl_cons, ih, weights_use]

end Pool

namespace Walk

/-! ## Steps that fail -/

/-- A walk that has drawn operators and let things happen in the world, no more. -/
structure Drift [Scalar ν] (w w' : Walk σ κ ω γ π ν) : Prop where
  selector : ∃ drawn drawn' : List Nat, w'.selector = { w.selector with
    destroyers := drawn.foldl Pool.use w.selector.destroyers
    repairers := drawn'.foldl Pool.use w.selector.repairers }
  best : w'.best = w.best
  current : w'.current = w.current
  accepted : w'.accepted = w.accepted
  trace : w'.trace = w.trace
  printed : w'.printed = w.printed

namespace Drift

variable [Scalar ν]

theorem of_world (w : Walk σ κ ω γ π ν) (gauge : γ) (world : ω) :
    Drift w { w with gauge, world } where
  selector := ⟨[], [], rfl⟩
  best := rfl
  current := rfl
  accepted := rfl
  trace := rfl
  printed := rfl

theorem trans {w₁ w₂ w₃ : Walk σ κ ω γ π ν} (h : Drift w₁ w₂) (h' : Drift w₂ w₃) :
    Drift w₁ w₃ := by
  obtain ⟨d, r, hselector⟩ := h.selector
  obtain ⟨d', r', hselector'⟩ := h'.selector
  exact {
    selector := ⟨d ++ d', r ++ r', by
      rw [hselector', hselector, List.foldl_append, List.foldl_append]⟩
    best := h'.best.trans h.best
    current := h'.current.trans h.current
    accepted := h'.accepted.trans h.accepted
    trace := h'.trace.trans h.trace
    printed := h'.printed.trans h.printed }

theorem identities_eq {w w' : Walk σ κ ω γ π ν} (h : Drift w w') (role : Role) :
    w'.selector.identities role = w.selector.identities role := by
  obtain ⟨d, r, hselector⟩ := h.selector
  rw [hselector]
  cases role <;> simp [Selector.identities, Selector.pool]

theorem weights_eq {w w' : Walk σ κ ω γ π ν} (h : Drift w w') (role : Role) :
    Pool.weights (w'.selector.pool role) = Pool.weights (w.selector.pool role) := by
  obtain ⟨d, r, hselector⟩ := h.selector
  rw [hselector]
  cases role <;> simp [Selector.pool]

end Drift

variable {w w' : Walk σ κ ω γ π ν} {fault : Fault}

theorem orStop_eq_error {α : Type} {x : Except Fault α}
    (h : w.orStop x = .error (fault, w')) : w' = w := by
  cases x with
  | ok a => cases h
  | error fault' =>
      cases h
      rfl

variable [Scalar ν]

theorem perform_error {action : Action σ ω} {x : σ}
    (h : w.perform action x = .error (fault, w')) : Drift w w' := by
  rw [orStop_eq_error (map_eq_error.mp h)]
  exact .of_world w w.gauge _

theorem judge_error {c : Criterion σ ω γ π} {candidate : Rated σ}
    (h : w.judge c candidate = .error (fault, w')) : Drift w w' := by
  rw [orStop_eq_error (map_eq_error.mp h)]
  exact .of_world w _ _

/-- A draw that fails leaves the pools as they are. -/
theorem choose_error {draw : ω → Except Fault ν × ω} {role : Role}
    (h : w.choose draw role = .error (fault, w')) : Drift w w' := by
  rcases hsel : Pool.selectBy (Roulette.spin draw) (w.selector.pool role) w.world with
    ⟨result, p, world⟩
  simp only [choose, Selector.select, Pool.select, hsel] at h
  have hstop := map_eq_error.mp h
  -- nothing is marked as used when nothing is picked, so the pool is put back as it was
  cases result with
  | ok op => cases hstop
  | error fault' =>
      have hpool : p = w.selector.pool role := by
        unfold Pool.selectBy at hsel
        split at hsel
        · cases hsel
          rfl
        · split at hsel
          · cases hsel
          · cases hsel
            rfl
      have hsame : w.selector.setPool role p = w.selector := by
        rw [hpool]
        cases role <;> rfl
      rw [orStop_eq_error hstop, hsame]
      exact .of_world w w.gauge world

theorem choose_drift {draw : ω → Except Fault ν × ω} {role : Role}
    {op : Operator ν Nat (Action σ ω)} (h : w.choose draw role = .ok (op, w')) : Drift w w' := by
  obtain ⟨i, world, -, -, rfl⟩ := choose_ok h
  have hselector : ∃ drawn drawn' : List Nat,
      w.selector.setPool role (Pool.use (w.selector.pool role) i) = { w.selector with
        destroyers := drawn.foldl Pool.use w.selector.destroyers
        repairers := drawn'.foldl Pool.use w.selector.repairers } := by
    cases role with
    | destroy => exact ⟨[i], [], rfl⟩
    | repair => exact ⟨[], [i], rfl⟩
  exact {
    selector := hselector
    best := rfl
    current := rfl
    accepted := rfl
    trace := rfl
    printed := rfl }

theorem perform_drift {action : Action σ ω} {x y : σ} (h : w.perform action x = .ok (y, w')) :
    Drift w w' := by
  obtain ⟨-, rfl⟩ := perform_ok h
  exact .of_world w w.gauge _

/-! ## Attempts that fail -/

variable [BEq κ] {s : Setting σ κ ω γ π ν}

theorem attempt_error (h : w.attempt s = .error (fault, w')) : Drift w w' := by
  rcases bind_eq_error.mp h with h | ⟨⟨destroyer, w₁⟩, hd, h⟩
  · exact choose_error h
  have h₁ := choose_drift hd
  rcases bind_eq_error.mp h with h | ⟨⟨repairer, w₂⟩, hr, h⟩
  · exact h₁.trans (choose_error h)
  have h₂ := h₁.trans (choose_drift hr)
  rcases bind_eq_error.mp h with h | ⟨⟨opened, w₃⟩, ho, h⟩
  · exact h₂.trans (perform_error h)
  have h₃ := h₂.trans (perform_drift ho)
  rcases bind_eq_error.mp h with h | ⟨⟨closed, w₄⟩, hc, h⟩
  · exact h₃.trans (perform_error h)
  have h₄ := h₃.trans (perform_drift hc)
  -- Rating a candidate and taking its key leave the walk alone.
  rcases bind_eq_error.mp h with h | ⟨candidate, -, h⟩
  · rwa [orStop_eq_error h]
  rcases bind_eq_error.mp h with h | ⟨key, -, h⟩
  · rwa [orStop_eq_error h]
  rcases bind_eq_error.mp h with h | ⟨⟨accepted, w₅⟩, -, h⟩
  · exact h₄.trans (judge_error h)
  · cases h

/-- An iteration fails in its attempt or when its row is announced. -/
theorem stage_error {i : Nat} (h : w.stage s i = .error (fault, w')) :
    Drift w w' ∨ ∃ turn judged, w.attempt s = .ok (turn, judged) ∧
      w' = (judged.settle s i turn).2 := by
  rcases bind_eq_error.mp h with h | ⟨⟨turn, judged⟩, hattempt, h⟩
  · exact Or.inl (attempt_error h)
  · right
    refine ⟨turn, judged, hattempt, ?_⟩
    rcases hsettle : judged.settle s i turn with ⟨entry, settled⟩
    simp only [hsettle] at h
    rcases bind_eq_error.mp h with h | ⟨after, -, h⟩
    · exact orStop_eq_error (map_eq_error.mp h)
    · cases h

/-- A run that has stopped early has done so in the iteration behind the completed ones: in its
attempt, or when its row was to be announced. -/
theorem run_error {n : Nat} (h : run s n w = .error (fault, w')) :
    ∃ done w₁, Course s w done w₁ ∧
      (Drift w₁ w' ∨ ∃ turn judged, w₁.attempt s = .ok (turn, judged) ∧
        w' = (judged.settle s (done.length + 1) turn).2) := by
  obtain ⟨done, w₁, hcourse, -, hstop⟩ := course_of_stop .start n h
  exact ⟨done, w₁, hcourse, stage_error hstop⟩

/-- Wherever a run has stopped, its operators are those that it has started with. -/
theorem run_error_identities {n : Nat} (h : run s n w = .error (fault, w')) (role : Role) :
    w'.selector.identities role = w.selector.identities role := by
  obtain ⟨done, w₁, hcourse, hdrift | ⟨turn, judged, hattempt, rfl⟩⟩ := run_error h
  · rw [hdrift.identities_eq, hcourse.identities_eq]
  · have hsound := (attempt_sound hattempt (done.length + 1)).identities_eq role
    exact hsound.trans (hcourse.identities_eq role)

end Walk

/-! ## Rows -/

section Rows

variable [BEq κ] [Scalar ν] {s : Setting σ κ ω γ π ν} {first w : Walk σ κ ω γ π ν}
  {done : List (Stage σ κ ω γ π ν)} {k : ℕ} {e : Entry ν π}

/-- Row `k`, counted from zero, is that of an iteration that the walk has come to. -/
def Recorded (s : Setting σ κ ω γ π ν) (first : Walk σ κ ω γ π ν) (k : ℕ) (e : Entry ν π) : Prop :=
  ∃ (done : List (Stage σ κ ω γ π ν)) (st : Stage σ κ ω γ π ν),
    Course s first done st.before ∧ done.length = k ∧ st.Sound s (k + 1) ∧ st.entry = e

/-- One more row belongs to one more iteration. -/
theorem Recorded.snoc {st : Stage σ κ ω γ π ν} (h : Course s first done st.before)
    (hst : st.Sound s (done.length + 1))
    (hrows : (done.map Stage.entry)[k]? = some e → Recorded s first k e)
    (hrow : (done.map Stage.entry ++ [st.entry])[k]? = some e) : Recorded s first k e := by
  have hlength : (done.map Stage.entry).length = done.length := List.length_map Stage.entry
  by_cases hk : k < done.length
  · rw [List.getElem?_append_left (by omega)] at hrow
    exact hrows hrow
  · rw [List.getElem?_append_right (by omega), hlength] at hrow
    obtain ⟨hlt, hentry⟩ := List.getElem?_eq_some_iff.mp hrow
    obtain rfl : done.length = k := by
      rw [List.length_singleton] at hlt
      omega
    exact ⟨done, st, h, rfl, hst, by simpa using hentry⟩

theorem Course.recorded (h : Course s first done w) (hrow : (done.map Stage.entry)[k]? = some e) :
    Recorded s first k e := by
  induction h with
  | start => cases hrow
  | @step done w st h hst ih =>
      obtain ⟨hbefore, hsound⟩ := Walk.stage_ok hst
      rw [List.map_append, List.map_singleton] at hrow
      exact Recorded.snoc (hbefore ▸ h) hsound ih hrow

/-- Wherever a run has come to, its rows are those of iterations. The last row may be one that could
not be announced. -/
theorem Walk.recorded_of_run {n : ℕ} (htrace : first.trace = .empty)
    (hrun : run s n first = .ok w ∨ ∃ fault, run s n first = .error (fault, w))
    (hrow : w.trace.entries.toList[k]? = some e) : Recorded s first k e := by
  have hentries : ∀ {done w}, Course s first done w →
      w.trace.entries.toList = done.map Stage.entry := by
    intro done w hcourse
    rw [hcourse.entries, htrace]
    rfl
  rcases hrun with hrun | ⟨fault, hrun⟩
  · obtain ⟨hcourse, -⟩ := course_of_run .start n hrun
    exact hcourse.recorded (hentries hcourse ▸ hrow)
  obtain ⟨done, w₁, hcourse, hdrift | ⟨turn, judged, hattempt, rfl⟩⟩ := run_error hrun
  · rw [hdrift.trace, hentries hcourse] at hrow
    exact hcourse.recorded hrow
  · have hsound := attempt_sound hattempt (done.length + 1)
    rw [hsound.entries, Array.toList_push, hentries hcourse] at hrow
    exact Recorded.snoc hcourse hsound hcourse.recorded hrow

end Rows

/-! ## Runs of a solver -/

namespace Solver

/-- Starting over changes only the numbers of the operators. -/
@[simp] theorem identities_startOver (s : Solver σ κ ω γ π) (reaction : Float) (role : Role) :
    (s.startOver reaction).selector.identities role = s.selector.identities role := by
  unfold startOver
  rw [Selector.identities_reset]
  cases role <;> rfl

variable [BEq κ] {s : Solver σ κ ω γ π} {initial : σ} {r : Request} {gauge : γ} {world : ω}

/-- A run that does not set out is refused, or fails behind the start with equal weights and an
empty record. -/
theorem run_of_embark_error {fault : Fault} (h : s.embark initial r gauge world = .error fault) :
    (s.check r = .error fault ∧ s.run initial r gauge world = s.refuse gauge world "" fault) ∨
      (s.check r = .ok () ∧ ∃ printed, s.run initial r gauge world =
        (s.startOver r.reaction.toFloat).refuse gauge world printed fault) := by
  rcases bind_eq_error.mp h with hcheck | ⟨⟨⟩, hcheck, h⟩
  · left
    simp only [run, hcheck]
    exact ⟨trivial, trivial⟩
  -- the checks stand in front of the start, everything else behind it
  right
  refine ⟨hcheck, ?_⟩
  rcases bind_eq_error.mp h with hrewards | ⟨rewards, hrewards, h⟩
  · simp only [run, hcheck, hrewards]
    exact ⟨_, rfl⟩
  rcases bind_eq_error.mp h with hstart | ⟨start, hstart, h⟩
  · have hstart' : (s.startOver r.reaction.toFloat).landscape.rate initial = .error fault := hstart
    simp only [run, hcheck, hrewards, hstart']
    exact ⟨_, rfl⟩
  have hstart' : (s.startOver r.reaction.toFloat).landscape.rate initial = .ok start := hstart
  rcases bind_eq_error.mp h with hcost | ⟨cost, hcost, h⟩
  · simp only [run, hcheck, hrewards, hstart', hcost]
    exact ⟨_, rfl⟩
  rcases bind_eq_error.mp h with hcount | ⟨n, hcount, h⟩
  · simp only [run, hcheck, hrewards, hstart', hcost, travel, hcount]
    exact ⟨_, rfl⟩
  · cases h

/-- A run leaves a solver with other weights and another record. -/
theorem run_solver_eq : ∃ selector trace,
    (s.run initial r gauge world).solver = { s with selector, trace } := by
  cases hembark : s.embark initial r gauge world with
  | error fault =>
      rcases run_of_embark_error hembark with ⟨-, hrun⟩ | ⟨-, printed, hrun⟩
      · exact ⟨_, _, by rw [hrun]; rfl⟩
      · exact ⟨_, _, by rw [hrun]; rfl⟩
  | ok made =>
      obtain ⟨setting, first, n⟩ := made
      rw [run_of_embark hembark]
      cases Walk.run setting n first with
      | error stop => exact ⟨_, _, rfl⟩
      | ok last =>
          dsimp only
          cases last.best.cost.fixed? 2 <;> exact ⟨_, _, rfl⟩

/-- Whatever becomes of a run, it changes only the numbers of the operators. -/
theorem run_identities (role : Role) :
    (s.run initial r gauge world).solver.selector.identities role = s.selector.identities role := by
  cases hembark : s.embark initial r gauge world with
  | error fault =>
      rcases run_of_embark_error hembark with ⟨-, hrun⟩ | ⟨-, printed, hrun⟩
      · rw [hrun]
        rfl
      · rw [hrun]
        exact identities_startOver s _ role
  | ok made =>
      obtain ⟨setting, first, n⟩ := made
      have hfirst := (embark_ok hembark).identities_eq role
      rw [run_of_embark hembark]
      cases hwalk : Walk.run setting n first with
      | error stop =>
          obtain ⟨fault, w⟩ := stop
          exact (Walk.run_error_identities hwalk role).trans hfirst
      | ok last =>
          obtain ⟨hcourse, -⟩ := Walk.course_of_run .start n hwalk
          have hlast := (hcourse.identities_eq role).trans hfirst
          dsimp only
          cases last.best.cost.fixed? 2 <;> exact hlast

/-- The rows of a run that has not been refused are those of its iterations, whether it is completed
or not. -/
theorem recorded_of_history (hcheck : s.check r = .ok ()) {k : ℕ} {e : Entry Float π}
    (hrow : (s.history initial r gauge world)[k]? = some e) :
    ∃ setting first n, s.Embarked initial r gauge world setting first n ∧
      Recorded setting first k e := by
  unfold history at hrow
  cases hembark : s.embark initial r gauge world with
  | error fault =>
      rcases run_of_embark_error hembark with ⟨hfault, -⟩ | ⟨-, printed, hrun⟩
      · rw [hcheck] at hfault
        cases hfault
      · rw [hrun] at hrow
        cases hrow
  | ok made =>
      obtain ⟨setting, first, n⟩ := made
      have hembarked := embark_ok hembark
      refine ⟨setting, first, n, hembarked, ?_⟩
      rw [run_of_embark hembark] at hrow
      cases hwalk : Walk.run setting n first with
      | error stop =>
          rw [hwalk] at hrow
          exact Walk.recorded_of_run hembarked.trace (Or.inr ⟨stop.1, hwalk⟩) hrow
      | ok last =>
          rw [hwalk] at hrow
          refine Walk.recorded_of_run hembarked.trace (Or.inl hwalk) ?_
          -- the best cost is only printed then: the record is complete
          dsimp only at hrow
          cases htext : last.best.cost.fixed? 2 with
          | error fault => rwa [htext] at hrow
          | ok text => rwa [htext] at hrow

end Solver

end LargeNeighborhood
