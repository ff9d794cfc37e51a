import LargeNeighborhood.Proofs.Except
import LargeNeighborhood.Search.Solver
import Mathlib.Data.List.Basic

set_option autoImplicit false

/-! # The stages of a search

A run is told by its stages, one for each completed iteration: the walk in front of the
iteration, what it has tried, the row it has recorded and the walk behind it (`Walk.stages`,
`Solver.stages`). `Stage.Sound` says all that one iteration does to the solutions of a walk and to
its record; whatever holds of every walk of a run is proved by induction on `Course`, a walk
together with the stages that have led to it.
-/

namespace LargeNeighborhood

variable {σ κ ω γ π ν : Type}

/-- A completed iteration between the walk in front of it and the walk behind it. -/
structure Stage (σ κ ω γ π ν : Type) where
  before : Walk σ κ ω γ π ν
  turn : Turn σ κ ω ν
  entry : Entry ν π
  after : Walk σ κ ω γ π ν

/-! ## Steps of an iteration -/

theorem Pool.selectBy_ok {τ β : Type} [Scalar ν] [Tally ν τ]
    {spin : List ν → ω → Except Fault Nat × ω} {p : Pool ν τ β} {w : ω} {op : Operator ν τ β}
    (h : (selectBy spin p w).1 = .ok op) :
    ∃ (i : Nat) (w' : ω), p[i]? = some op ∧ spin (p.map Operator.weight) w = (.ok i, w') ∧
      selectBy spin p w = (.ok op, use p i, w') := by
  unfold selectBy at h ⊢
  split at h
  · cases h
  · rename_i i w' hspin
    cases hget : p[i]? with
    | none => rw [hget] at h; cases h
    | some found =>
        rw [hget] at h
        cases h
        exact ⟨i, w', hget, hspin, rfl⟩

namespace Walk

theorem orStop_eq_ok {α : Type} {w : Walk σ κ ω γ π ν} {x : Except Fault α} {a : α} :
    w.orStop x = .ok a ↔ x = .ok a := by
  cases x <;> simp [orStop]

theorem perform_ok {w w' : Walk σ κ ω γ π ν} {action : Action σ ω} {x y : σ}
    (h : w.perform action x = .ok (y, w')) :
    (action x w.world).1 = .ok y ∧ w' = { w with world := (action x w.world).2 } := by
  obtain ⟨z, hz, hzw⟩ := map_eq_ok.mp h
  cases hzw
  exact ⟨orStop_eq_ok.mp hz, rfl⟩

theorem judge_ok {c : Criterion σ ω γ π} {w w' : Walk σ κ ω γ π ν} {candidate : Rated σ}
    {accepted : Bool} (h : w.judge c candidate = .ok (accepted, w')) :
    let verdict := c.judge w.best w.current candidate w.gauge w.world
    verdict.1 = .ok accepted ∧ w' = { w with gauge := verdict.2.1, world := verdict.2.2 } := by
  obtain ⟨b, hb, hbw⟩ := map_eq_ok.mp h
  cases hbw
  exact ⟨orStop_eq_ok.mp hb, rfl⟩

@[simp] theorem keepBest_current (w : Walk σ κ ω γ π ν) : w.keepBest.current = w.current := by
  unfold keepBest
  split <;> rfl

@[simp] theorem keepBest_best (w : Walk σ κ ω γ π ν) :
    w.keepBest.best = if w.current.cost < w.best.cost then w.current else w.best := by
  simp only [keepBest, improves, decide_eq_true_eq]
  split <;> rfl

/-- Making the current solution the best one changes nothing else. -/
theorem keepBest_eq (w : Walk σ κ ω γ π ν) : w.keepBest = { w with best := w.keepBest.best } := by
  unfold keepBest
  split <;> rfl

variable [Scalar ν]

theorem choose_ok {draw : ω → Except Fault ν × ω} {w w' : Walk σ κ ω γ π ν} {role : Role}
    {op : Operator ν Nat (Action σ ω)} (h : w.choose draw role = .ok (op, w')) :
    ∃ (i : Nat) (world : ω), (w.selector.pool role)[i]? = some op ∧
      Roulette.spin draw ((w.selector.pool role).map Operator.weight) w.world = (.ok i, world) ∧
      w' = { w with
        selector := w.selector.setPool role (Pool.use (w.selector.pool role) i), world } := by
  cases hr : Pool.selectBy (Roulette.spin draw) (w.selector.pool role) w.world with
  | mk result rest =>
      simp only [choose, Selector.select, Pool.select, hr] at h
      obtain ⟨op', hop, hopw⟩ := map_eq_ok.mp h
      cases hopw
      have hok : (Pool.selectBy (Roulette.spin draw) (w.selector.pool role) w.world).1 = .ok op := by
        rw [hr]
        exact orStop_eq_ok.mp hop
      obtain ⟨i, world, hget, hspin, hsel⟩ := Pool.selectBy_ok hok
      rw [hr] at hsel
      cases hsel
      exact ⟨i, world, hget, hspin, rfl⟩

/-- All that an attempt does: the operators come from the pools, which only count their use, the
candidate is what they make of the current solution, and the criterion has decided on it. -/
structure Attempted [BEq κ] (s : Setting σ κ ω γ π ν) (w : Walk σ κ ω γ π ν) (t : Turn σ κ ω ν)
    (w' : Walk σ κ ω γ π ν) : Prop where
  drawn : ∃ i j, w.selector.destroyers[i]? = some t.destroyer ∧
    w.selector.repairers[j]? = some t.repairer ∧
    w'.selector = { w.selector with
      destroyers := Pool.use w.selector.destroyers i,
      repairers := Pool.use w.selector.repairers j }
  made : ∃ (opened : σ) (first second third : ω),
    t.destroyer.action w.current.state first = (.ok opened, second) ∧
    t.repairer.action opened second = (.ok t.candidate.state, third) ∧
    s.criterion.judge w.best w.current t.candidate w.gauge third =
      (.ok t.accepted, w'.gauge, w'.world)
  cost : s.landscape.cost t.candidate.state = .ok t.candidate.cost
  key : s.landscape.key t.candidate.state = .ok t.key
  novel : t.novel = !w.accepted.contains t.key
  best : w'.best = w.best
  current : w'.current = w.current
  accepted : w'.accepted = w.accepted
  trace : w'.trace = w.trace
  printed : w'.printed = w.printed

theorem attempt_ok [BEq κ] {s : Setting σ κ ω γ π ν} {w w' : Walk σ κ ω γ π ν} {t : Turn σ κ ω ν}
    (h : w.attempt s = .ok (t, w')) : Attempted s w t w' := by
  -- all calls of the iteration have succeeded, and each says what it has left
  obtain ⟨⟨destroyer, w₁⟩, hd, h⟩ := bind_eq_ok.mp h
  obtain ⟨⟨repairer, w₂⟩, hr, h⟩ := bind_eq_ok.mp h
  obtain ⟨⟨opened, w₃⟩, ho, h⟩ := bind_eq_ok.mp h
  obtain ⟨⟨closed, w₄⟩, hc, h⟩ := bind_eq_ok.mp h
  obtain ⟨candidate, hrate, h⟩ := bind_eq_ok.mp h
  obtain ⟨key, hkey, h⟩ := bind_eq_ok.mp h
  obtain ⟨⟨accepted, w₅⟩, hj, h⟩ := bind_eq_ok.mp h
  cases h
  obtain ⟨i, world₁, hi, -, rfl⟩ := choose_ok hd
  obtain ⟨j, world₂, hk, -, rfl⟩ := choose_ok hr
  obtain ⟨hopened, rfl⟩ := perform_ok ho
  obtain ⟨hclosed, rfl⟩ := perform_ok hc
  obtain ⟨hjudged, rfl⟩ := judge_ok hj
  obtain ⟨cost, hcost, hrate⟩ := bind_eq_ok.mp (orStop_eq_ok.mp hrate)
  cases hrate
  exact {
    drawn := ⟨i, j, hi, hk, rfl⟩
    made := ⟨opened, world₂, _, _, Prod.ext hopened rfl, Prod.ext hclosed rfl, Prod.ext hjudged rfl⟩
    cost := hcost
    key := orStop_eq_ok.mp hkey
    novel := rfl
    best := rfl
    current := rfl
    accepted := rfl
    trace := rfl
    printed := rfl }

/-! ## Consequences of an iteration -/

/-- Closing a segment changes the selector and the snapshots only. -/
theorem closeSegment_eq (closes : Nat → Bool) (i : Nat) (w : Walk σ κ ω γ π ν) :
    w.closeSegment closes i = { w with
      selector := if closes i then w.selector.adapt else w.selector
      trace := { w.trace with
        snapshots := if closes i then
            w.trace.snapshots.push ⟨i, Pool.weights w.selector.adapt.destroyers,
              Pool.weights w.selector.adapt.repairers⟩
          else w.trace.snapshots } } := by
  unfold closeSegment
  split <;> rfl

variable (s : Setting σ κ ω γ π ν) (i : Nat) (t : Turn σ κ ω ν) (w : Walk σ κ ω γ π ν)

theorem settle_current :
    (w.settle s i t).2.current = if t.accepted then t.candidate else w.current := by
  simp only [settle, record, closeSegment_eq, keepBest_current]
  split <;> rfl

theorem settle_best : (w.settle s i t).2.best =
    if (w.settle s i t).2.current.cost < w.best.cost then (w.settle s i t).2.current
    else w.best := by
  simp only [settle, record, closeSegment_eq, keepBest_current, keepBest_best]
  cases t.accepted <;> rfl

theorem settle_accepted :
    (w.settle s i t).2.accepted = if t.accepted then t.key :: w.accepted else w.accepted := by
  simp only [settle, record, closeSegment_eq]
  rw [keepBest_eq]
  split <;> rfl

theorem settle_gauge : (w.settle s i t).2.gauge = w.gauge := by
  simp only [settle, record, closeSegment_eq]
  rw [keepBest_eq]
  split <;> rfl

theorem settle_world : (w.settle s i t).2.world = w.world := by
  simp only [settle, record, closeSegment_eq]
  rw [keepBest_eq]
  split <;> rfl

/-- The verdict of an iteration, told from the walk behind it. -/
def verdict : Verdict :=
  { accepted := t.accepted
    novel := t.novel
    better := decide (t.candidate.cost < w.current.cost)
    newBest := decide ((w.settle s i t).2.current.cost < w.best.cost) }

theorem settle_selector : (w.settle s i t).2.selector =
    let credited := w.selector.credit t.destroyer.index t.repairer.index
      ((w.verdict s i t).score s.rewards)
    if s.closes i then credited.adapt else credited := by
  simp only [settle, record, closeSegment_eq, verdict, keepBest_current]
  rw [keepBest_eq]
  cases t.accepted <;> rfl

theorem settle_entry : (w.settle s i t).1 =
    { iteration := i, best := (w.settle s i t).2.best.cost,
      current := (w.settle s i t).2.current.cost, candidate := t.candidate.cost,
      reading := s.criterion.reading w.gauge, move := (w.verdict s i t).move, novel := t.novel,
      score := (w.verdict s i t).score s.rewards, destroyer := t.destroyer.name,
      repairer := t.repairer.name } := by
  rw [← settle_gauge s i t w]
  simp only [settle, record, closeSegment_eq, verdict, keepBest_current]
  cases t.accepted <;> rfl

theorem settle_entries : (w.settle s i t).2.trace.entries =
    w.trace.entries.push (w.settle s i t).1 := by
  simp only [settle, record, closeSegment_eq]
  rw [keepBest_eq]
  cases t.accepted <;> rfl

theorem settle_snapshots : (w.settle s i t).2.trace.snapshots =
    if s.closes i then
      w.trace.snapshots.push ⟨i, Pool.weights (w.settle s i t).2.selector.destroyers,
        Pool.weights (w.settle s i t).2.selector.repairers⟩
    else w.trace.snapshots := by
  simp only [settle, record, closeSegment_eq]
  rw [keepBest_eq]
  cases t.accepted <;> cases s.closes i <;> rfl

end Walk

/-- What an iteration has found out about its candidate. -/
def Stage.verdict (st : Stage σ κ ω γ π ν) : Verdict :=
  { accepted := st.turn.accepted
    novel := st.turn.novel
    better := decide (st.turn.candidate.cost < st.before.current.cost)
    newBest := decide (st.after.current.cost < st.before.best.cost) }

variable [Scalar ν]

/-- The selector after an iteration whose operators were drawn from positions `j` and `k`. -/
def Stage.credited (s : Setting σ κ ω γ π ν) (st : Stage σ κ ω γ π ν) (j k : Nat) :
    Selector ν Nat (Action σ ω) :=
  Selector.credit
    { st.before.selector with
      destroyers := Pool.use st.before.selector.destroyers j
      repairers := Pool.use st.before.selector.repairers k }
    st.turn.destroyer.index st.turn.repairer.index (st.verdict.score s.rewards)

/-- All that iteration `i` does. -/
structure Stage.Sound [BEq κ] (s : Setting σ κ ω γ π ν) (i : Nat) (st : Stage σ κ ω γ π ν) :
    Prop where
  drawn : ∃ j k, st.before.selector.destroyers[j]? = some st.turn.destroyer ∧
    st.before.selector.repairers[k]? = some st.turn.repairer ∧
    st.after.selector =
      if s.closes i then (st.credited s j k).adapt else st.credited s j k
  made : ∃ (opened : σ) (first second third : ω),
    st.turn.destroyer.action st.before.current.state first = (.ok opened, second) ∧
    st.turn.repairer.action opened second = (.ok st.turn.candidate.state, third) ∧
    s.criterion.judge st.before.best st.before.current st.turn.candidate st.before.gauge third =
      (.ok st.turn.accepted, st.after.gauge, st.after.world)
  cost : s.landscape.cost st.turn.candidate.state = .ok st.turn.candidate.cost
  key : s.landscape.key st.turn.candidate.state = .ok st.turn.key
  novel : st.turn.novel = !st.before.accepted.contains st.turn.key
  current : st.after.current = if st.turn.accepted then st.turn.candidate else st.before.current
  best : st.after.best =
    if st.after.current.cost < st.before.best.cost then st.after.current else st.before.best
  accepted : st.after.accepted =
    if st.turn.accepted then st.turn.key :: st.before.accepted else st.before.accepted
  entry : st.entry =
    { iteration := i, best := st.after.best.cost, current := st.after.current.cost,
      candidate := st.turn.candidate.cost, reading := s.criterion.reading st.after.gauge,
      move := st.verdict.move, novel := st.turn.novel, score := st.verdict.score s.rewards,
      destroyer := st.turn.destroyer.name, repairer := st.turn.repairer.name }
  entries : st.after.trace.entries = st.before.trace.entries.push st.entry
  snapshots : st.after.trace.snapshots =
    if s.closes i then
      st.before.trace.snapshots.push ⟨i, Pool.weights st.after.selector.destroyers,
        Pool.weights st.after.selector.repairers⟩
    else st.before.trace.snapshots

/-- What holds of all snapshots so far, and of one of the weights that an iteration leaves, holds of
all snapshots behind it. -/
theorem Stage.Sound.forall_snapshots [BEq κ] {s : Setting σ κ ω γ π ν} {i : Nat}
    {st : Stage σ κ ω γ π ν} (h : st.Sound s i) {P : Snapshot ν → Prop}
    (hbefore : ∀ x ∈ st.before.trace.snapshots.toList, P x)
    (hafter : P ⟨i, Pool.weights st.after.selector.destroyers,
      Pool.weights st.after.selector.repairers⟩) :
    ∀ x ∈ st.after.trace.snapshots.toList, P x := by
  rw [h.snapshots]
  split
  · intro x hx
    rw [Array.toList_push] at hx
    rcases List.mem_append.mp hx with hx | hx
    · exact hbefore x hx
    · rw [List.mem_singleton.mp hx]
      exact hafter
  · exact hbefore

namespace Walk

/-- Iteration `i` with all that it goes through. -/
def stage [BEq κ] (s : Setting σ κ ω γ π ν) (w : Walk σ κ ω γ π ν) (i : Nat) :
    Except (Stop σ κ ω γ π ν) (Stage σ κ ω γ π ν) := do
  let (turn, judged) ← w.attempt s
  let (entry, settled) := judged.settle s i turn
  let after ← settled.announce s entry
  return ⟨w, turn, entry, after⟩

theorem iterate_eq_stage [BEq κ] (s : Setting σ κ ω γ π ν) (w : Walk σ κ ω γ π ν) (i : Nat) :
    w.iterate s i = (w.stage s i).map Stage.after := by
  unfold iterate stage
  cases w.attempt s with
  | error stop => rfl
  | ok made =>
      obtain ⟨turn, judged⟩ := made
      show (judged.settle s i turn).2.announce s (judged.settle s i turn).1 =
        Except.map Stage.after (((judged.settle s i turn).2.announce s
          (judged.settle s i turn).1).bind fun after => .ok ⟨w, turn, _, after⟩)
      cases (judged.settle s i turn).2.announce s (judged.settle s i turn).1 <;> rfl

/-- An attempt that succeeds, with its turn settled, is a sound stage before anything is printed
about it. -/
theorem attempt_sound [BEq κ] {s : Setting σ κ ω γ π ν} {w judged : Walk σ κ ω γ π ν}
    {turn : Turn σ κ ω ν} (h : w.attempt s = .ok (turn, judged)) (i : Nat) :
    Stage.Sound s i ⟨w, turn, (judged.settle s i turn).1, (judged.settle s i turn).2⟩ := by
  have ha := attempt_ok h
  have hgauge := settle_gauge s i turn judged
  have hverdict : judged.verdict s i turn = Stage.verdict ⟨w, turn, (judged.settle s i turn).1,
      (judged.settle s i turn).2⟩ := by
    simp only [Stage.verdict, verdict, ha.best, ha.current]
  obtain ⟨j, k, hj, hk, hused⟩ := ha.drawn
  exact {
    drawn := ⟨j, k, hj, hk, by rw [settle_selector, hverdict, hused]; rfl⟩
    made := by
      dsimp only
      rw [hgauge, settle_world]
      exact ha.made
    cost := ha.cost
    key := ha.key
    novel := ha.novel
    current := by rw [settle_current, ha.current]
    best := by rw [settle_best, ha.best]
    accepted := by rw [settle_accepted, ha.accepted]
    entry := by
      dsimp only
      rw [settle_entry, hverdict, hgauge]
      rfl
    entries := by rw [settle_entries, ha.trace]
    snapshots := by rw [settle_snapshots, ha.trace] }

theorem stage_ok [BEq κ] {s : Setting σ κ ω γ π ν} {w : Walk σ κ ω γ π ν} {i : Nat}
    {st : Stage σ κ ω γ π ν} (h : w.stage s i = .ok st) : st.before = w ∧ st.Sound s i := by
  obtain ⟨⟨turn, judged⟩, hattempt, h⟩ := bind_eq_ok.mp h
  have hsound := attempt_sound hattempt i
  rcases hsettle : judged.settle s i turn with ⟨entry, settled⟩
  simp only [hsettle] at h hsound
  obtain ⟨after, hannounce, h⟩ := bind_eq_ok.mp h
  cases h
  -- Announcing an entry only adds to what has been printed.
  obtain ⟨text, -, rfl⟩ := map_eq_ok.mp hannounce
  refine ⟨rfl, ?_⟩
  exact {
    drawn := hsound.drawn
    made := hsound.made
    cost := hsound.cost
    key := hsound.key
    novel := hsound.novel
    current := hsound.current
    best := hsound.best
    accepted := hsound.accepted
    entry := hsound.entry
    entries := hsound.entries
    snapshots := hsound.snapshots }

/-! ## Runs -/

/-- The stages of iterations, as far as they are completed. -/
def stagesOf [BEq κ] (s : Setting σ κ ω γ π ν) (w : Walk σ κ ω γ π ν) :
    List Nat → List (Stage σ κ ω γ π ν)
  | [] => []
  | i :: is =>
      match w.stage s i with
      | .ok st => st :: stagesOf s st.after is
      | .error _ => []

/-- The stages of the first `n` iterations, as far as they are completed. -/
def stages [BEq κ] (s : Setting σ κ ω γ π ν) (n : Nat) (w : Walk σ κ ω γ π ν) :
    List (Stage σ κ ω γ π ν) := stagesOf s w (List.range' 1 n)

end Walk

/-- A walk that the first iterations from another one have led to, and their stages. -/
inductive Course [BEq κ] (s : Setting σ κ ω γ π ν) (first : Walk σ κ ω γ π ν) :
    List (Stage σ κ ω γ π ν) → Walk σ κ ω γ π ν → Prop
  | start : Course s first [] first
  | step {done : List (Stage σ κ ω γ π ν)} {w : Walk σ κ ω γ π ν} {st : Stage σ κ ω γ π ν} :
      Course s first done w → w.stage s (done.length + 1) = .ok st →
      Course s first (done ++ [st]) st.after

namespace Walk

variable [BEq κ] {s : Setting σ κ ω γ π ν} {first w : Walk σ κ ω γ π ν}

/-- Every prefix of further stages leads on. -/
theorem course_stagesOf {done : List (Stage σ κ ω γ π ν)} (h : Course s first done w) (n : Nat)
    {more rest : List (Stage σ κ ω γ π ν)}
    (hstages : stagesOf s w (List.range' (done.length + 1) n) = more ++ rest) :
    ∃ w', Course s first (done ++ more) w' := by
  -- On the iterations still to come; each completed one moves from `more` to `done`.
  induction n generalizing done w more with
  | zero =>
      have hmore : more = [] := (List.append_eq_nil_iff.mp hstages.symm).1
      exact ⟨w, by rwa [hmore, List.append_nil]⟩
  | succ n ih =>
      cases more with
      | nil => exact ⟨w, by rwa [List.append_nil]⟩
      | cons st more =>
          rw [List.range'_succ, stagesOf] at hstages
          cases hst : w.stage s (done.length + 1) with
          | error stop => rw [hst] at hstages; cases hstages
          | ok st' =>
              rw [hst] at hstages
              injection hstages with hhead htail
              subst hhead
              have hlen : (done ++ [st']).length = done.length + 1 := List.length_append
              obtain ⟨w', hw'⟩ := ih (h.step hst) (by rwa [hlen])
              exact ⟨w', by rwa [List.append_assoc] at hw'⟩

/-- A run that completes has one stage for each iteration, and they lead to its last walk. -/
theorem course_of_run {done : List (Stage σ κ ω γ π ν)} (h : Course s first done w) (n : Nat)
    {last : Walk σ κ ω γ π ν}
    (hrun : (List.range' (done.length + 1) n).foldlM (iterate s) w = .ok last) :
    Course s first (done ++ stagesOf s w (List.range' (done.length + 1) n)) last ∧
      (stagesOf s w (List.range' (done.length + 1) n)).length = n := by
  induction n generalizing done w with
  | zero =>
      cases hrun
      exact ⟨by simpa [stagesOf] using h, rfl⟩
  | succ n ih =>
      rw [List.range'_succ, List.foldlM_cons, iterate_eq_stage] at hrun
      obtain ⟨w', hw', hrun⟩ := bind_eq_ok.mp hrun
      obtain ⟨st, hst, rfl⟩ := map_eq_ok.mp hw'
      have hlen : (done ++ [st]).length = done.length + 1 := List.length_append
      obtain ⟨hcourse, hcount⟩ := ih (h.step hst) (by rwa [hlen])
      rw [hlen, List.append_assoc] at hcourse
      rw [hlen] at hcount
      rw [List.range'_succ, stagesOf, hst]
      exact ⟨hcourse, by simp [hcount]⟩

/-- Where a run has stopped early, the iterations before have led to a walk whose next iteration
fails. -/
theorem course_of_stop {done : List (Stage σ κ ω γ π ν)} (h : Course s first done w) (n : Nat)
    {stop : Stop σ κ ω γ π ν}
    (hrun : (List.range' (done.length + 1) n).foldlM (iterate s) w = .error stop) :
    ∃ more w', Course s first (done ++ more) w' ∧ more.length < n ∧
      w'.stage s ((done ++ more).length + 1) = .error stop := by
  induction n generalizing done w with
  | zero => cases hrun
  | succ n ih =>
      rw [List.range'_succ, List.foldlM_cons, iterate_eq_stage] at hrun
      cases hst : w.stage s (done.length + 1) with
      | error stop' =>
          rw [hst] at hrun
          cases hrun
          exact ⟨[], w, by rwa [List.append_nil], Nat.succ_pos n, by rwa [List.append_nil]⟩
      | ok st =>
          rw [hst] at hrun
          have hlen : (done ++ [st]).length = done.length + 1 := List.length_append
          obtain ⟨more, w', hw', hmore, hstop⟩ := ih (h.step hst) (by rw [hlen]; exact hrun)
          exact ⟨st :: more, w', by rwa [List.append_assoc] at hw', Nat.succ_lt_succ hmore,
            by rwa [List.append_assoc] at hstop⟩

end Walk

namespace Course

variable [BEq κ] {s : Setting σ κ ω γ π ν} {first w : Walk σ κ ω γ π ν}
  {done : List (Stage σ κ ω γ π ν)} {st : Stage σ κ ω γ π ν}

/-- The last stage of a course starts where the stages in front of it have led. -/
theorem last (h : Course s first (done ++ [st]) w) :
    Course s first done st.before ∧ st.Sound s (done.length + 1) ∧ st.after = w := by
  generalize hall : done ++ [st] = all at h
  cases h with
  | start => simp at hall
  | step h hst =>
      obtain ⟨hdone, hlast⟩ := List.append_inj' hall rfl
      cases hlast
      subst hdone
      obtain ⟨hbefore, hsound⟩ := Walk.stage_ok hst
      exact ⟨hbefore ▸ h, hsound, rfl⟩

/-- The trace grows by one entry a stage. -/
theorem entries (h : Course s first done w) :
    w.trace.entries.toList = first.trace.entries.toList ++ done.map Stage.entry := by
  induction h with
  | start => simp
  | step h hst ih =>
      obtain ⟨hbefore, hsound⟩ := Walk.stage_ok hst
      rw [hsound.entries, hbefore]
      simp [ih]

/-- Every stage of a course is an iteration. -/
theorem sound (h : Course s first done w) : ∀ st ∈ done, ∃ i, st.Sound s i := by
  induction h with
  | start => simp
  | step h hst ih =>
      intro st hmem
      rcases List.mem_append.mp hmem with hmem | hmem
      · exact ih st hmem
      · rw [List.mem_singleton.mp hmem]
        exact ⟨_, (Walk.stage_ok hst).2⟩

/-- The stages of a run in front of one of its stages lead to the walk that this stage starts from,
and together with it to the one that it leaves. -/
theorem of_stages {n : Nat} {rest : List (Stage σ κ ω γ π ν)}
    (h : first.stages s n = done ++ st :: rest) :
    Course s first done st.before ∧ Course s first (done ++ [st]) st.after ∧
      st.Sound s (done.length + 1) := by
  have hsplit : Walk.stagesOf s first (List.range' (([] : List (Stage σ κ ω γ π ν)).length + 1) n) =
      (done ++ [st]) ++ rest := by
    rw [List.append_assoc]
    exact h
  obtain ⟨w, hw⟩ := Walk.course_stagesOf .start n hsplit
  obtain ⟨hbefore, hsound, hafter⟩ := last hw
  exact ⟨hbefore, hafter ▸ hw, hsound⟩

end Course

end LargeNeighborhood
