import LargeNeighborhood.Proofs.Search.Continuation
import LargeNeighborhood.Proofs.Search.Lockstep

set_option autoImplicit false

/-! # Runs that are cut short

A run may be stopped by what it calls: the draws of the selector, the two operators, the cost and
the key of the candidate, or the criterion (`Walk.culprit`). Then it leaves what the run of the
iterations in front of it leaves, down to the last weight. And a run that is asked for fewer
iterations leaves the first part of the record of a longer one (`Solver.run_cut_short`).

The number of iterations asked for shows in what is printed only, so runs that differ in it walk in
lockstep (`Walk.run_reannounced`).
-/

namespace LargeNeighborhood

variable {σ κ ω γ π ν : Type}

/-! ## Who has raised a fault -/

/-- What an iteration calls until its candidate is judged. -/
inductive Call where
  | draw
  | destroyer
  | repairer
  | cost
  | key
  | criterion
  deriving DecidableEq, Repr

namespace Walk

/-- Notes which call has failed, in place of where the walk has stopped. -/
def blame {α : Type} (call : Call) (x : Except (Stop σ κ ω γ π ν) α) : Except (Call × Fault) α :=
  x.mapError fun stop => (call, stop.1)

theorem blame_agrees {α : Type} (call : Call) (x : Except (Stop σ κ ω γ π ν) α) :
    Agrees (fun stop blamed => stop.1 = blamed.2) Eq x (blame call x) := by
  cases x with
  | error stop => exact .error rfl
  | ok a => exact .ok rfl

variable [Scalar ν] [BEq κ]

/-- An attempt whose fault is told with the call that has raised it. -/
def culprit (s : Setting σ κ ω γ π ν) (w : Walk σ κ ω γ π ν) : Except (Call × Fault) Unit := do
  let (destroyer, w) ← blame .draw (w.choose s.draw .destroy)
  let (repairer, w) ← blame .draw (w.choose s.draw .repair)
  let (opened, w) ← blame .destroyer (w.perform destroyer.action w.current.state)
  let (closed, w) ← blame .repairer (w.perform repairer.action opened)
  let candidate ← blame .cost (w.orStop (s.landscape.rate closed))
  let _ ← blame .key (w.orStop (s.landscape.key closed))
  let _ ← blame .criterion (w.judge s.criterion candidate)

/-- An attempt fails with the fault of one of its calls, and succeeds if none of them fails. -/
theorem attempt_culprit (s : Setting σ κ ω γ π ν) (w : Walk σ κ ω γ π ν) :
    Agrees (fun stop blamed => stop.1 = blamed.2) (fun _ _ => True) (w.attempt s) (w.culprit s) := by
  unfold attempt culprit
  apply (blame_agrees _ _).bind
  rintro ⟨destroyer, w₁⟩ _ - - rfl
  apply (blame_agrees _ _).bind
  rintro ⟨repairer, w₂⟩ _ - - rfl
  apply (blame_agrees _ _).bind
  rintro ⟨opened, w₃⟩ _ - - rfl
  apply (blame_agrees _ _).bind
  rintro ⟨closed, w₄⟩ _ - - rfl
  apply (blame_agrees _ _).bind
  rintro candidate _ - - rfl
  apply (blame_agrees _ _).bind
  rintro key _ - - rfl
  apply (blame_agrees _ _).bind
  rintro ⟨accepted, w₅⟩ _ - - rfl
  exact .ok trivial

theorem attempt_of_culprit {s : Setting σ κ ω γ π ν} {w : Walk σ κ ω γ π ν} {call : Call}
    {fault : Fault} (h : w.culprit s = .error (call, fault)) :
    ∃ w', w.attempt s = .error (fault, w') := by
  have hagrees := attempt_culprit s w
  rw [h] at hagrees
  generalize w.attempt s = x at hagrees ⊢
  cases hagrees with
  | @error stop _ hfault =>
      obtain ⟨fault', w'⟩ := stop
      cases hfault
      exact ⟨w', rfl⟩

/-! ## Runs that differ in what they announce -/

theorem run_reannounced {s s' : Setting σ κ ω γ π ν} {first first' : Walk σ κ ω γ π ν} {n : Nat}
    (hlandscape : s.landscape = s'.landscape) (hcriterion : s.criterion = s'.criterion)
    (hdraw : s.draw = s'.draw) (hrewards : s.rewards = s'.rewards) (hcloses : s.closes = s'.closes)
    (hannounce : ∀ e, Agrees Eq (fun _ _ => True) (s.announce e) (s'.announce e))
    (hfirst : first.Abreast Eq Eq Eq first') :
    Agrees (StopsAlike Eq Eq Eq) (Abreast Eq Eq Eq) (run s n first) (run s' n first') := by
  apply run_lockstep hfirst
  intro done done' w w' _ _ _ _ h
  apply iterate_agrees (.eq s.draw) (fun _ _ hsame => hsame) hdraw hlandscape h
  · intro p p' w₁ w₁' _ _ hp h₁
    exact decision_agrees h₁ hcriterion hp
  · intro t t' w₁ w₁' _ _ ht h₁
    generalize done.length + 1 = i
    have hselector : (w₁.settle s i t).2.selector = (w₁'.settle s' i t').2.selector :=
      settle_selector_eq h₁ ht (by rw [hcloses]) hrewards
    have hsnapshots : (w₁.settle s i t).2.trace.snapshots =
        (w₁'.settle s' i t').2.trace.snapshots :=
      settle_snapshots_eq (by rw [hcloses]) hselector (by rw [h₁.trace])
    have hentry : (w₁.settle s i t).1 = (w₁'.settle s' i t').1 := by
      have hverdict : w₁.verdict s i t = w₁'.verdict s' i t' := verdict_eq h₁ ht
      rw [settle_entry_eq h₁ ht, hverdict, hcriterion, hrewards, h₁.gauge, settle_entry]
    have hentries : (w₁.settle s i t).2.trace.entries = (w₁'.settle s' i t').2.trace.entries := by
      rw [settle_entries, settle_entries, hentry, h₁.trace]
    refine ⟨hselector, ?_, ?_⟩
    -- a trace is its rows and its snapshots
    · generalize (w₁.settle s i t).2.trace = trace, (w₁'.settle s' i t').2.trace = trace' at *
      cases trace
      cases trace'
      cases hentries
      cases hsnapshots
      rfl
    · rw [hentry]
      exact hannounce _

end Walk

namespace Solver

theorem progress_agrees (iterations iterations' logInterval : Quantity) (e : Entry Float π) :
    Agrees Eq (fun _ _ => True) (progress iterations logInterval e)
      (progress iterations' logInterval e) := by
  unfold progress
  split
  · apply (Agrees.refl _).bind
    rintro best _ - - rfl
    apply (Agrees.refl _).bind
    rintro current _ - - rfl
    exact .ok trivial
  · exact .ok trivial

/-- A new best cost has been shown in the line that announces it. -/
theorem shown_of_progress {iterations logInterval : Quantity} {e : Entry Float π} {text : String}
    (h : progress iterations logInterval e = .ok text) (hmove : e.move = .newBest) :
    ∃ shown, e.best.fixed? 2 = .ok shown := by
  unfold progress at h
  rw [if_pos (Or.inl hmove)] at h
  obtain ⟨shown, hshown, -⟩ := bind_eq_ok.mp h
  exact ⟨shown, hshown⟩

end Solver

/-- A completed iteration has announced its row. -/
theorem Walk.announced_of_stage [Scalar ν] [BEq κ] {s : Setting σ κ ω γ π ν}
    {w : Walk σ κ ω γ π ν} {i : Nat} {st : Stage σ κ ω γ π ν} (h : w.stage s i = .ok st) :
    ∃ text, s.announce st.entry = .ok text := by
  obtain ⟨⟨turn, judged⟩, -, h⟩ := bind_eq_ok.mp h
  rcases hsettle : judged.settle s i turn with ⟨entry, settled⟩
  simp only [hsettle] at h
  obtain ⟨after, hannounce, h⟩ := bind_eq_ok.mp h
  cases h
  obtain ⟨text, htext, -⟩ := map_eq_ok.mp hannounce
  exact ⟨text, orStop_eq_ok.mp htext⟩

/-- The best cost of a walk has been shown: in the heading, or when it was new. -/
theorem Course.shown [BEq κ] {setting : Setting σ κ ω γ π Float} {first w : Walk σ κ ω γ π Float}
    {done : List (Stage σ κ ω γ π Float)} {iterations logInterval : Quantity}
    (hannounce : setting.announce = Solver.progress iterations logInterval)
    (hfirst : ∃ text, first.best.cost.fixed? 2 = .ok text) (h : Course setting first done w) :
    ∃ text, w.best.cost.fixed? 2 = .ok text := by
  induction h with
  | start => exact hfirst
  | @step done w st h hst ih =>
      obtain ⟨hbefore, hsound⟩ := Walk.stage_ok hst
      -- a new best cost was printed in its row, an older one before
      by_cases hnew : st.after.current.cost < st.before.best.cost
      · obtain ⟨text, htext⟩ := Walk.announced_of_stage hst
        have hverdict : st.verdict.newBest = true := decide_eq_true hnew
        have hmove : st.entry.move = .newBest := by
          rw [hsound.entry]
          dsimp only
          unfold Verdict.move
          rw [if_pos hverdict]
        have hbest : st.entry.best = st.after.best.cost := by rw [hsound.entry]
        rw [hannounce] at htext
        rw [← hbest]
        exact Solver.shown_of_progress htext hmove
      · rw [hsound.best, if_neg hnew, hbefore]
        exact ih

theorem Walk.reached_abreast
    {S : Selector ν Nat (Action σ ω) → Selector ν Nat (Action σ ω) → Prop} {G : γ → γ → Prop}
    {T : Trace ν π → Trace ν π → Prop} {x x' : Except (Stop σ κ ω γ π ν) (Walk σ κ ω γ π ν)}
    (h : Agrees (StopsAlike S G T) (Abreast S G T) x x') :
    (reached x).Abreast S G T (reached x') := by
  cases h with
  | error hstop => exact hstop.2
  | ok hw => exact hw

/-! ## Runs of a solver -/

/-- The same request for another number of iterations. -/
def Request.lasting (r : Request) (n : Nat) : Request := { r with iterations := .whole n }

/-- The walk that a course leads to, told from its stages. -/
theorem Course.walk_eq [Scalar ν] [BEq κ] {s : Setting σ κ ω γ π ν} {first w : Walk σ κ ω γ π ν}
    {done : List (Stage σ κ ω γ π ν)} (h : Course s first done w) :
    (done.getLast?.map Stage.after).getD first = w := by
  cases h with
  | start => rfl
  | step h hst => rw [List.getLast?_concat]; rfl

namespace Solver

variable [BEq κ] {s : Solver σ κ ω γ π} {initial : σ} {r : Request} {gauge : γ} {world : ω}

/-- The iteration in which a call has stopped a run, the call, and the fault that it has raised. -/
def broken (s : Solver σ κ ω γ π) (initial : σ) (r : Request) (gauge : γ) (world : ω) :
    Option (Nat × Call × Fault) :=
  match s.embark initial r gauge world with
  | .error _ => none
  | .ok (setting, first, n) =>
      let done := first.stages setting n
      let w := (done.getLast?.map Stage.after).getD first
      if done.length < n then
        match w.culprit setting with
        | .ok _ => none
        | .error (call, fault) => some (done.length + 1, call, fault)
      else none

/-- Behind the iterations that were completed, the next attempt has failed. -/
theorem broken_some {k : Nat} {call : Call} {fault : Fault}
    (h : s.broken initial r gauge world = some (k, call, fault)) :
    ∃ setting first n done w w', s.embark initial r gauge world = .ok (setting, first, n) ∧
      Course setting first done w ∧ done.length < n ∧ k = done.length + 1 ∧
      w.attempt setting = .error (fault, w') := by
  unfold broken at h
  split at h
  · cases h
  rename_i setting first n hembark
  obtain ⟨w, hcourse⟩ : ∃ w, Course setting first ([] ++ first.stages setting n) w :=
    Walk.course_stagesOf .start n (List.append_nil _).symm
  rw [List.nil_append] at hcourse
  dsimp only at h
  rw [hcourse.walk_eq] at h
  split at h
  · rename_i hlt
    split at h
    · cases h
    · rename_i call' fault' hculprit
      cases h
      obtain ⟨w', hw'⟩ := Walk.attempt_of_culprit hculprit
      exact ⟨setting, first, n, _, w, w', hembark, hcourse, hlt, rfl, hw'⟩
  · cases h

omit [BEq κ] in
theorem check_lasting {n m : Nat} (hn : 1 ≤ n) (h : s.check (r.lasting m) = .ok ()) :
    s.check (r.lasting n) = .ok () := by
  obtain ⟨hd, hr, -, hrest⟩ := check_ok_iff.mp h
  refine check_ok_iff.mpr ⟨hd, hr, ?_, hrest⟩
  show ¬ Quantity.whole n < Quantity.whole 1
  rw [Quantity.whole_lt_whole]
  omega

/-- Runs for different numbers of iterations set out together and walk in lockstep. -/
theorem embark_lasting {n m : Nat} (hn : 1 ≤ n) (h : s.check (r.lasting m) = .ok ())
    {setting : Setting σ κ ω γ π Float} {first : Walk σ κ ω γ π Float} {m' : Nat}
    (hembark : s.embark initial (r.lasting m) gauge world = .ok (setting, first, m')) :
    m' = m ∧ ∃ setting' first',
      s.embark initial (r.lasting n) gauge world = .ok (setting', first', n) ∧
      Agrees (Walk.StopsAlike Eq Eq Eq) (Walk.Abreast Eq Eq Eq) (Walk.run setting n first)
        (Walk.run setting' n first') := by
  have hcheck := check_lasting hn h
  -- nothing in front of the walk reads how long it will be
  have hmade : Agrees Eq (fun _ _ => True) (s.embark initial (r.lasting m) gauge world)
      (s.embark initial (r.lasting n) gauge world) :=
    embark_agrees (h.trans hcheck.symm) (.of_eq rfl) rfl
      (.ok trivial)
  cases hembark' : s.embark initial (r.lasting n) gauge world with
  | error fault =>
      rw [hembark, hembark'] at hmade
      cases hmade
  | ok made =>
      obtain ⟨setting', first', n'⟩ := made
      have hout := embark_ok hembark
      have hout' := embark_ok hembark'
      obtain rfl : m' = m := hout.count_eq rfl
      obtain rfl : n' = n := hout'.count_eq rfl
      refine ⟨rfl, setting', first', rfl, ?_⟩
      apply Walk.run_reannounced
      · exact hout.landscape.trans hout'.landscape.symm
      · exact hout.criterion.trans hout'.criterion.symm
      · exact hout.draw.trans hout'.draw.symm
      · exact Except.ok.inj (hout.rewards.symm.trans hout'.rewards)
      · exact hout.closes.trans hout'.closes.symm
      · intro e
        rw [hout.announce, hout'.announce]
        exact progress_agrees _ _ _ e
      · exact hout.abreast hout' rfl rfl rfl rfl

/-- An attempt that fails leaves the record and the weights of the walk in front of it. -/
theorem run_of_attempt_error {setting : Setting σ κ ω γ π Float} {first w w' : Walk σ κ ω γ π Float}
    {n : Nat} {done : List (Stage σ κ ω γ π Float)} {fault : Fault}
    (hembark : s.embark initial r gauge world = .ok (setting, first, n))
    (hcourse : Course setting first done w) (hlt : done.length < n)
    (hattempt : w.attempt setting = .error (fault, w')) :
    let o := s.run initial r gauge world
    o.result = .error fault ∧ o.solver.trace = w.trace ∧
      ∀ role, Pool.weights (o.solver.selector.pool role) =
        Pool.weights (w.selector.pool role) := by
  intro o
  have hrun := hcourse.run_of_attempt_error hlt hattempt
  have hdrift := Walk.attempt_error hattempt
  obtain ⟨hselector, htrace⟩ := run_reached hembark
  rw [hrun] at hselector htrace
  refine ⟨?_, htrace.trans hdrift.trace, ?_⟩
  · show (s.run initial r gauge world).result = .error fault
    rw [run_of_embark hembark, hrun]
    rfl
  · intro role
    rw [hselector]
    exact hdrift.weights_eq role

/-- A run that is asked for the iterations of a course leaves what they have led to. -/
theorem run_lasting_of_course {setting : Setting σ κ ω γ π Float} {first w : Walk σ κ ω γ π Float}
    {n : Nat} {done : List (Stage σ κ ω γ π Float)}
    (hembark : s.embark initial r gauge world = .ok (setting, first, n))
    (hcourse : Course setting first done w) (hpos : 1 ≤ done.length) :
    let shorter := (s.run initial (r.lasting done.length) gauge world).solver
    shorter.trace = w.trace ∧ shorter.selector = w.selector := by
  intro shorter
  have hout := embark_ok hembark
  have hr : r.lasting n = r := by
    unfold Request.lasting
    rw [← hout.count]
  obtain ⟨-, setting', first', hembark', hagrees⟩ :=
    embark_lasting (n := done.length) (m := n) (r := r) hpos (by rw [hr]; exact hout.check)
      (by rw [hr]; exact hembark)
  -- a run of this many iterations is the course itself
  have hwalk : Walk.run setting done.length first = .ok w := by
    rw [hcourse.run_eq (Nat.le_refl _), Nat.sub_self]
    rfl
  rw [hwalk] at hagrees
  have hreached := Walk.reached_abreast hagrees
  obtain ⟨hselector, htrace⟩ := run_reached hembark'
  exact ⟨htrace.trans hreached.trace.symm, hselector.trans hreached.selector.symm⟩

/-- A call that fails leaves the record and the weights of the iterations in front of it. -/
theorem run_of_broken {k : Nat} {call : Call} {fault : Fault}
    (h : s.broken initial r gauge world = some (k, call, fault)) :
    let o := s.run initial r gauge world
    o.result = .error fault ∧ o.solver.trace.entries.size = k - 1 ∧
      (k = 1 → o.solver.trace = .empty ∧
        ∀ role, ∀ op ∈ o.solver.selector.pool role, op.weight = 1.0) ∧
      (1 < k →
        let shorter := (s.run initial (r.lasting (k - 1)) gauge world).solver
        o.solver.trace = shorter.trace ∧
          ∀ role, Pool.weights (o.solver.selector.pool role) =
            Pool.weights (shorter.selector.pool role)) := by
  intro o
  obtain ⟨setting, first, n, done, w, w', hembark, hcourse, hlt, rfl, hattempt⟩ := broken_some h
  have hout := embark_ok hembark
  obtain ⟨hresult, htrace, hweights⟩ := run_of_attempt_error hembark hcourse hlt hattempt
  refine ⟨hresult, ?_, ?_, ?_⟩
  · rw [htrace, Array.size_eq_length_toList, hcourse.entries, hout.trace]
    simp [Trace.empty]
  · intro hk
    -- the first iteration has only the start in front of it
    have hnil : done = [] := List.eq_nil_of_length_eq_zero (by omega)
    subst hnil
    have hw : first = w := hcourse.walk_eq
    subst hw
    refine ⟨htrace.trans hout.trace, ?_⟩
    intro role op hop
    have hmem : (op.name, op.weight) ∈ Pool.weights (o.solver.selector.pool role) :=
      List.mem_map_of_mem hop
    rw [hweights, hout.selector] at hmem
    obtain ⟨op', hop', hsame⟩ := List.mem_map.mp hmem
    injection hsame with _ hweight
    rw [← hweight]
    cases role <;> exact (Pool.fresh_of_mem_reset hop').1
  · intro hk shorter
    -- a later one has the iterations that make up a shorter run
    obtain ⟨htrace', hselector'⟩ := run_lasting_of_course hembark hcourse (by omega)
    refine ⟨htrace.trans htrace'.symm, ?_⟩
    intro role
    rw [hweights]
    exact congrArg (fun a => Pool.weights (a.pool role)) hselector'.symm

/-- A request that two runs do not set out on leaves neither of them a record. -/
theorem run_lasting_of_embark_error {n m : Nat} (hn : 1 ≤ n) (hnm : n ≤ m)
    (h : s.check (r.lasting m) = .ok ()) {fault : Fault}
    (hembark : s.embark initial (r.lasting m) gauge world = .error fault) :
    (s.run initial (r.lasting n) gauge world).solver.trace = .empty ∧
      (s.run initial (r.lasting m) gauge world).solver.trace = .empty ∧
      (s.run initial (r.lasting m) gauge world).result = .error fault := by
  have hcheck := check_lasting hn h
  cases hembark' : s.embark initial (r.lasting n) gauge world with
  | ok made =>
      obtain ⟨setting', first', n'⟩ := made
      obtain ⟨-, setting, first, hmade, -⟩ := embark_lasting (Nat.le_trans hn hnm) hcheck hembark'
      rw [hembark] at hmade
      cases hmade
  | error fault' =>
      rcases run_of_embark_error hembark with ⟨hrefused, -⟩ | ⟨-, printed, hlong⟩
      · rw [h] at hrefused
        cases hrefused
      rcases run_of_embark_error hembark' with ⟨hrefused, -⟩ | ⟨-, printed', hshort⟩
      · rw [hcheck] at hrefused
        cases hrefused
      rw [hshort, hlong]
      exact ⟨rfl, rfl, rfl⟩

/-- The first iterations of a run that returns a solution make a run that returns one. -/
theorem exists_result_of_course {setting setting' : Setting σ κ ω γ π Float}
    {first first' w : Walk σ κ ω γ π Float} {n n' : Nat} {done : List (Stage σ κ ω γ π Float)}
    (hout : s.Embarked initial r gauge world setting first n) (hcourse : Course setting first done w)
    {r' : Request} (hembark : s.embark initial r' gauge world = .ok (setting', first', n'))
    (hagrees : Agrees (Walk.StopsAlike Eq Eq Eq) (Walk.Abreast Eq Eq Eq) (.ok w)
      (Walk.run setting' n' first')) :
    ∃ best, (s.run initial r' gauge world).result = .ok best := by
  obtain ⟨text, htext⟩ := hcourse.shown hout.announce hout.shown
  rw [run_of_embark hembark]
  generalize Walk.run setting' n' first' = x at hagrees ⊢
  cases hagrees with
  | @ok _ w' hw' =>
      dsimp only
      rw [← hw'.best, htext]
      exact ⟨_, rfl⟩

/-- A run for fewer iterations leaves the first part of the record of a longer one, and returns if
that one does. -/
theorem run_lasting {n m : Nat} (hn : 1 ≤ n) (hnm : n ≤ m) (h : s.check (r.lasting m) = .ok ()) :
    let short := s.run initial (r.lasting n) gauge world
    let long := s.run initial (r.lasting m) gauge world
    short.solver.trace.entries.toList = long.solver.trace.entries.toList.take n ∧
      short.solver.trace.snapshots.toList =
        long.solver.trace.snapshots.toList.filter (fun x => decide (x.iteration ≤ n)) ∧
      ∀ best, long.result = .ok best →
        (∃ best', short.result = .ok best') ∧ short.solver.trace.entries.size = n ∧
          long.solver.trace.entries.size = m := by
  intro short long
  cases hembark : s.embark initial (r.lasting m) gauge world with
  | error fault =>
      obtain ⟨hshort, hlong, hresult⟩ := run_lasting_of_embark_error hn hnm h hembark
      rw [hshort, hlong]
      refine ⟨List.take_nil.symm, rfl, ?_⟩
      intro best hbest
      cases hresult.symm.trans hbest
  | ok made =>
      obtain ⟨setting, first, m'⟩ := made
      obtain ⟨rfl, setting', first', hembark', hagrees⟩ := embark_lasting hn h hembark
      have hout := embark_ok hembark
      have hshort : short.solver.trace = (Walk.reached (Walk.run setting n first)).trace :=
        (run_reached hembark').2.trans (Walk.reached_abreast hagrees).trace.symm
      have hlong : long.solver.trace = (Walk.reached (Walk.run setting m' first)).trace :=
        (run_reached hembark).2
      obtain ⟨hentries, hsnapshots⟩ := Walk.run_trace_take (s := setting) hout.trace hnm
      rw [hshort, hlong]
      refine ⟨hentries, hsnapshots, ?_⟩
      intro best hbest
      rw [show long = _ from run_of_embark hembark] at hbest
      cases hrun : Walk.run setting m' first with
      | error stop =>
          rw [hrun] at hbest
          cases hbest
      | ok last =>
          -- The shorter run has come through its iterations too.
          obtain ⟨w, hw, -⟩ := bind_eq_ok.mp ((Walk.run_add first hnm).symm.trans hrun)
          rw [hw] at hagrees ⊢
          obtain ⟨hcourse, -⟩ := Walk.course_of_run .start n hw
          exact ⟨exists_result_of_course hout hcourse hembark' hagrees,
            Walk.length_entries_of_run hout.trace hw, Walk.length_entries_of_run hout.trace hrun⟩

/-- When a call of iteration `k` fails, its fault reaches the caller, and the solver keeps the
record and the weights that `k - 1` iterations have led to: empty ones and weights of one if there
are none. And whatever becomes of a run, for fewer iterations its record would be the first part of
what it is; a run that returns has a row for each iteration. -/
theorem run_cut_short (s : Solver σ κ ω γ π) (initial : σ) (r : Request) (gauge : γ) (world : ω) :
    (∀ k call fault, s.broken initial r gauge world = some (k, call, fault) →
      let o := s.run initial r gauge world
      o.result = .error fault ∧ o.solver.trace.entries.size = k - 1 ∧
        (k = 1 → o.solver.trace = .empty ∧
          ∀ role, ∀ op ∈ o.solver.selector.pool role, op.weight = 1.0) ∧
        (1 < k →
          let shorter := (s.run initial (r.lasting (k - 1)) gauge world).solver
          o.solver.trace = shorter.trace ∧
            ∀ role, Pool.weights (o.solver.selector.pool role) =
              Pool.weights (shorter.selector.pool role))) ∧
      ∀ n m, 1 ≤ n → n ≤ m → s.check (r.lasting m) = .ok () →
        let short := s.run initial (r.lasting n) gauge world
        let long := s.run initial (r.lasting m) gauge world
        short.solver.trace.entries.toList = long.solver.trace.entries.toList.take n ∧
          short.solver.trace.snapshots.toList =
            long.solver.trace.snapshots.toList.filter (fun x => decide (x.iteration ≤ n)) ∧
          ∀ best, long.result = .ok best →
            (∃ best', short.result = .ok best') ∧ short.solver.trace.entries.size = n ∧
              long.solver.trace.entries.size = m :=
  ⟨fun _ _ _ h => run_of_broken h, fun _ _ hn hnm h => run_lasting hn hnm h⟩

/-- The scripted solver with segments of two iterations and a repair operator that fails on 99. -/
def faltering : Solver Nat Nat (List Nat) (List Bool) Unit :=
  { scripted decided with
    segment := .whole 2
    selector := { (scripted decided).selector with
      repairers := [⟨0, "keep",
        fun n script => (if n = 99 then .error .indexOutOfRange else .ok n, script), 1, 1, 0⟩] } }

/-- The third iteration fails behind the first segment. What it leaves is what two iterations leave,
and one iteration leaves the first row of that. -/
theorem run_cut_short_faltering :
    let decisions := [true, true, false, true]
    let script := [52, 71, 99, 25]
    let o := faltering.run 80 fourIterations decisions script
    let two := faltering.run 80 (fourIterations.lasting 2) decisions script
    let one := faltering.run 80 (fourIterations.lasting 1) decisions script
    ∃ fault, faltering.broken 80 fourIterations decisions script = some (3, .repairer, fault) ∧
      o.result = .error fault ∧ o.solver.trace = two.solver.trace ∧
      Pool.weights (o.solver.selector.pool .destroy) = [("read", 1.75)] ∧
      Pool.weights (two.solver.selector.pool .destroy) = [("read", 1.75)] ∧
      two.solver.trace.entries.size = 2 ∧
      one.solver.trace.entries.toList = two.solver.trace.entries.toList.take 1 := by
  intro decisions script o two one
  have hbroken : (faltering.broken 80 fourIterations decisions script).map
      (fun x => (x.1, x.2.1)) = some (3, .repairer) := by decide +kernel
  obtain ⟨⟨k, call, fault⟩, hfault, hsame⟩ := Option.map_eq_some_iff.mp hbroken
  injection hsame with hk hcall
  dsimp only at hk hcall
  subst hk hcall
  obtain ⟨hfailed, hfewer⟩ := run_cut_short faltering 80 fourIterations decisions script
  obtain ⟨hresult, -, -, hlater⟩ := hfailed 3 .repairer fault hfault
  obtain ⟨htrace, hweights⟩ := hlater (by decide)
  have htwo : two.result = .ok ⟨52, .whole 5⟩ := by decide +kernel
  have hcheck : faltering.check (fourIterations.lasting 2) = .ok () := by decide +kernel
  obtain ⟨hentries, -, hreturned⟩ := hfewer 1 2 (by decide) (by decide) hcheck
  obtain ⟨-, -, hsize⟩ := hreturned _ htwo
  have hfirst : Pool.weights (o.solver.selector.pool .destroy) = [("read", 1.75)] := by
    decide +kernel
  exact ⟨fault, hfault, hresult, htrace, hfirst, (hweights .destroy).symm.trans hfirst, hsize,
    hentries⟩

end Solver

end LargeNeighborhood
