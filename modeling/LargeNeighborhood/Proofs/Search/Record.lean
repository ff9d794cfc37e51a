import LargeNeighborhood.Proofs.Number.Difference
import LargeNeighborhood.Proofs.Search.Improvement
import LargeNeighborhood.Proofs.Search.Operators

set_option autoImplicit false

/-! # Record-to-record travel stays near the record

A candidate is tested against the best cost of the moment, but the best cost goes on falling while
the current solution stays. Still the current solution never lies further above the best cost than
the first threshold allows (`Solver.run_stays_near_record`). For the best cost falls in two ways
only: either the current solution becomes the best one, which leaves no gap at all, or it does not
fall in that iteration. And no later threshold is above the first one, since each is its
predecessor less a step that is not negative, or the last threshold of all.

Nothing is assumed of the thresholds but that they are finite; they may be equal, and the number of
steps may be any quantity that is accepted, an infinite or undefined one included.
-/

namespace LargeNeighborhood

open Rounding

/-! ## Thresholds -/

namespace RecordToRecord

/-- A threshold that does not exceed its start, neither now nor later on. -/
structure Capped (start : Float) (r : RecordToRecord Quantity) : Prop extends Sound r where
  threshold_le : r.threshold ≤ .real start
  finish_le : r.finish ≤ .real start
  step : ∃ d : Float, r.step = .real d ∧ ¬ d < 0

/-- A number of steps that is not at most zero is none of the reals at most zero either. -/
theorem not_le_zero_of_steps {steps : Quantity} {y : Float} (hsteps : ¬ steps ≤ Quantity.whole 0)
    (hy : steps.toReal? = .ok y) (hne : ¬ (y == 0) = true) : ¬ y ≤ 0 := by
  intro hle
  obtain ⟨p, q, hp, hq, hpq⟩ := le_iff.mp hle
  rcases hpq.eq_or_lt with heq | hlt
  · -- Zero is not divided by.
    apply hne
    rw [beq_iff_compare, compare_view, hp, hq, heq]
    simp
  have hneg : y < 0 := lt_iff.mpr ⟨p, q, hp, hq, hlt⟩
  have hnonneg : ¬ steps < Quantity.whole 0 := fun hlt => hsteps (Or.inl hlt)
  exact Quantity.not_lt_zero_of_toReal? hnonneg hy hneg

theorem create_capped {start finish : Float} {steps : Quantity} {r : RecordToRecord Quantity}
    (hstart : start.isFinite = true) (hfinish : finish.isFinite = true)
    (h : create (.real start) (.real finish) steps = .ok r) : r.Capped start := by
  have hsound := create_sound hstart hfinish h
  obtain ⟨hsteps, -, hfalling, fall, step, hfall, hstep, rfl⟩ := create_ok h
  obtain ⟨p, hp⟩ := worth_of_isFinite hstart
  obtain ⟨q, hq⟩ := worth_of_isFinite hfinish
  rw [Quantity.real_lt_real] at hfalling
  have hle : finish ≤ start := real_le_of_not_lt hp hq hfalling
  obtain ⟨x, hx, hfall⟩ := bind_eq_ok.mp hfall
  obtain ⟨y, hy, hfall⟩ := bind_eq_ok.mp hfall
  cases hx
  cases hy
  cases hfall
  obtain ⟨fall, hfall', hstep⟩ := bind_eq_ok.mp hstep
  obtain ⟨count, hcount, hstep⟩ := bind_eq_ok.mp hstep
  cases hfall'
  split at hstep
  · cases hstep
  rename_i hne
  cases hstep
  obtain ⟨f, hf, hf0⟩ := hsound.finish
  cases hf
  have hnonneg : ¬ finish < 0 := fun hneg => real_not_le_of_lt hneg hf0
  -- the step is a fall that is not negative over a number of steps that is positive
  exact {
    toSound := hsound
    threshold_le := Quantity.real_le_real.mpr (le_iff.mpr ⟨_, _, hp, hp, le_rfl⟩)
    finish_le := Quantity.real_le_real.mpr hle
    step := ⟨_, rfl, not_div_lt_zero (not_sub_lt_zero hnonneg hle)
      (not_le_zero_of_steps hsteps hcount hne)⟩ }

/-- Lowering a threshold does not raise it. -/
theorem lower_capped {start : Float} {r lowered : RecordToRecord Quantity} (hr : r.Capped start)
    (h : r.lower Quantity.sub? = .ok lowered) : lowered.Capped start := by
  have hsound := lower_sound hr.toSound h
  obtain ⟨f, hf, -⟩ := hr.finish
  obtain ⟨t, ht, ht0⟩ := hr.threshold
  obtain ⟨d, hd, hd0⟩ := hr.step
  have hthreshold := hr.threshold_le
  obtain ⟨next, hnext, h⟩ := bind_eq_ok.mp h
  cases h
  rw [ht, hd] at hnext
  rw [ht, Quantity.real_le_real] at hthreshold
  obtain ⟨x, hx, hnext⟩ := bind_eq_ok.mp hnext
  obtain ⟨y, hy, hnext⟩ := bind_eq_ok.mp hnext
  cases hx
  cases hy
  cases hnext
  refine { toSound := hsound, threshold_le := ?_, finish_le := hr.finish_le, step := hr.step }
  -- the threshold goes down by a step, or stops at its finish
  by_cases hlt : r.finish < Quantity.real (t - d)
  · have hnonneg : ¬ t < 0 := fun hneg => real_not_le_of_lt hneg ht0
    have hbelow : f < t - d := by rwa [hf, Quantity.real_lt_real] at hlt
    simp only [hlt, if_true]
    rw [Quantity.real_le_real]
    exact real_le_trans (real_sub_le_self hnonneg hd0 hbelow) hthreshold
  · simp only [hlt, if_false]
    exact hr.finish_le

theorem judge_capped {start : Float} {r r' : RecordToRecord Quantity} {best candidate : Cost}
    {result : Except Fault Bool} (hr : r.Capped start)
    (h : r.judge Quantity.sub? relativeGap best candidate = (result, r')) : r'.Capped start :=
  judge_keeps hr (fun _ hlowered => lower_capped hr hlowered) h

end RecordToRecord

/-! ## Costs near the record -/

/-- The current cost is the best one, or lies above it by a share of itself that is below a
limit. -/
def NearRecord (limit : Float) (best current : Cost) : Prop :=
  current = best ∨ ∃ (b c : ℤ) (gap : Float), best = .whole b ∧ current = .whole c ∧ 0 < c ∧
    relativeGap best current = .ok (.real gap) ∧ gap < limit

/-- Near the record, the exact share is below the limit, too. -/
theorem NearRecord.share_lt {limit : Float} {q : ℚ} (hlimit : worth limit = some (exactly q))
    {b c : ℤ} (h : NearRecord limit (.whole b) (.whole c)) (hle : b ≤ c) :
    c = b ∨ 0 < c ∧ ((c : ℚ) - b) / c < q := by
  rcases h with heq | ⟨b', c', gap, hb, hc, hpos, hgap, hbelow⟩
  · cases heq
    exact Or.inl rfl
  · cases hb
    cases hc
    have hnearest := RecordToRecord.relativeGap_whole hgap
    rw [Quantity.real.injEq] at hnearest
    rw [hnearest] at hbelow
    have hshare := div_lt_of_nearestRatio_lt (sub_nonneg.mpr hle) hpos hlimit hbelow
    rw [Int.cast_sub] at hshare
    exact Or.inr ⟨hpos, hshare⟩

/-- What has been accepted costs nothing, or its gap is below the threshold. -/
theorem RecordToRecord.nearRecord_of_accepted {limit : Float} {r r' : RecordToRecord Quantity}
    (hr : r.Capped limit) {b c : ℤ} (hb : 0 ≤ b) (hc : 0 ≤ c) (hle : b ≤ c)
    (h : r.judge Quantity.sub? relativeGap (.whole b) (.whole c) = (.ok true, r')) :
    NearRecord limit (.whole b) (.whole c) := by
  have haccepts := accepts_of_judge h
  unfold accepts at haccepts
  by_cases hzero : c = 0
  · left
    rw [Quantity.whole.injEq]
    omega
  · rw [if_neg (by rw [Quantity.same_whole_whole]; exact hzero)] at haccepts
    obtain ⟨share, hshare, haccepts⟩ := map_eq_ok.mp haccepts
    have hnearest := relativeGap_whole hshare
    obtain ⟨t, ht, -⟩ := hr.threshold
    have hthreshold := hr.threshold_le
    rw [ht, Quantity.real_le_real] at hthreshold
    rw [hnearest, ht, decide_eq_true_iff, Quantity.real_lt_real] at haccepts
    rw [hnearest] at hshare
    exact Or.inr ⟨b, c, _, rfl, rfl, by omega, hshare, real_lt_of_lt_of_le haccepts hthreshold⟩

/-! ## Stages -/

variable {σ κ ω : Type} [BEq κ] {exp : Float → Float} {unit : ω → Except Fault Float × ω}

/-- A gauge of record-to-record travel that does not exceed a limit. -/
def Gauge.Capped (limit : Float) : Gauge → Prop
  | .hillClimbing => False
  | .annealing _ => False
  | .recordToRecord r => r.Capped limit

theorem Gauge.judge_capped (exp : Float → Float) (unit : ω → Except Fault Float × ω)
    {limit : Float} {g : Gauge} (h : g.Capped limit) (best current candidate : Cost) (w : ω) :
    (judge exp unit best current candidate g w).2.1.Capped limit := by
  cases g with
  | hillClimbing => exact h
  | annealing a => exact h
  | recordToRecord r => exact RecordToRecord.judge_capped h rfl

namespace Course

variable {s : Setting σ κ ω Gauge (Option Quantity) Float}
  {first w : Walk σ κ ω Gauge (Option Quantity) Float}
  {done : List (Stage σ κ ω Gauge (Option Quantity) Float)}
  {st : Stage σ κ ω Gauge (Option Quantity) Float} {start : Rated σ} {limit : Float} {i : Nat}

/-- An iteration stays near the record: the best cost falls only where the current solution becomes
the best one. -/
theorem Kept.nearRecord_step (h : Kept start done st.before) (hst : st.Sound s i)
    (hcriterion : s.criterion = Gauge.criterion exp unit) (hgauge : st.before.gauge.Capped limit)
    (hbest : st.before.best.cost.IsExact) (hcandidate : st.turn.candidate.cost.IsExact)
    (hnear : NearRecord limit st.before.best.cost st.before.current.cost) :
    NearRecord limit st.after.best.cost st.after.current.cost := by
  rcases h.step_cases hst with ⟨-, hcurrent, hafter⟩ | ⟨-, hcurrent, -, hafter⟩ |
    ⟨haccepted, hcurrent, hlt, hafter⟩
  · rw [hcurrent, hafter]
    exact hnear
  · exact Or.inl (by rw [hcurrent, hafter])
  · -- Only here the candidate has come near the record by its own gap.
    obtain ⟨b, hb, hb0, -⟩ := hbest
    obtain ⟨c, hc, hc0, -⟩ := hcandidate
    rw [hb, hc, Quantity.whole_lt_whole, not_lt] at hlt
    obtain ⟨opened, w₁, w₂, w₃, -, -, hjudge⟩ := hst.made
    rw [hcriterion, haccepted] at hjudge
    rw [hcurrent, hafter, hb, hc]
    cases hstate : st.before.gauge with
    | hillClimbing =>
        rw [hstate] at hgauge
        exact hgauge.elim
    | annealing a =>
        rw [hstate] at hgauge
        exact hgauge.elim
    | recordToRecord r =>
        rw [hstate] at hgauge hjudge
        rcases hdecided : r.judge Quantity.sub? relativeGap (.whole b) (.whole c) with ⟨result, r'⟩
        simp only [Gauge.criterion, Gauge.judge, hb, hc, hdecided] at hjudge
        have hresult : result = .ok true := congrArg Prod.fst hjudge
        rw [hresult] at hdecided
        exact RecordToRecord.nearRecord_of_accepted hgauge hb0 hc0 hlt hdecided

theorem nearRecord (h : Course s first done w) (hcriterion : s.criterion = Gauge.criterion exp unit)
    (hgauge : first.gauge.Capped limit) (hbest : first.best = start)
    (hcurrent : first.current = start) (hstart : start.cost.IsExact)
    (hexact : ∀ st ∈ done, st.turn.candidate.cost.IsExact) :
    NearRecord limit w.best.cost w.current.cost := by
  induction h with
  | start => exact Or.inl (by rw [hbest, hcurrent])
  | @step done w st h hst ih =>
      obtain ⟨hbefore, hsound⟩ := Walk.stage_ok hst
      have hdone : ∀ st ∈ done, st.turn.candidate.cost.IsExact :=
        fun st hmem => hexact st (List.mem_append_left _ hmem)
      have hkept := h.kept hbest hcurrent hstart.isWhole fun st hmem => (hdone st hmem).isWhole
      have hcapped := h.gauge_keeps (P := Gauge.Capped limit)
        (fun _ best current candidate w hg =>
          Gauge.judge_capped exp unit hg best current candidate w)
        hcriterion hgauge
      have hnear := ih hdone
      rw [← hbefore] at hkept hcapped hnear
      exact hkept.nearRecord_step hsound hcriterion hcapped
        (visitedOf_isExact hstart hdone _ hkept.best.mem) (hexact st (by simp)) hnear

end Course

/-! ## Runs -/

namespace Solver

variable {s : Solver σ κ ω Gauge (Option Quantity)} {initial : σ} {r : Request} {world : ω}

/-- Under record-to-record travel from finite thresholds, the current cost is the best one after
every iteration, or lies above it by less than the first threshold, rounded and exactly. This holds
of all iterations that are completed, whether the run is completed or not; the rows of a completed
run are theirs. -/
theorem run_stays_near_record {start finish : Float} {steps : Quantity}
    {rr : RecordToRecord Quantity} (hstart : start.isFinite = true)
    (hfinish : finish.isFinite = true)
    (hcreate : RecordToRecord.create (.real start) (.real finish) steps = .ok rr)
    (hcriterion : s.criterion = Gauge.criterion exp unit)
    (hexact : s.CostsExact initial r (.recordToRecord rr) world) :
    (∃ limit : ℚ, worth start = some (exactly limit) ∧
      ∀ st ∈ s.stages initial r (.recordToRecord rr) world,
        NearRecord start st.entry.best st.entry.current ∧
        ∀ b c : ℤ, st.entry.best = .whole b → st.entry.current = .whole c →
          c = b ∨ 0 < c ∧ ((c : ℚ) - b) / c < limit) ∧
    ∀ best, (s.run initial r (.recordToRecord rr) world).result = .ok best →
      s.history initial r (.recordToRecord rr) world =
        (s.stages initial r (.recordToRecord rr) world).map Stage.entry := by
  obtain ⟨limit, hlimit⟩ := worth_of_isFinite hstart
  refine ⟨⟨limit, hlimit, ?_⟩, ?_⟩
  · intro st hst
    obtain ⟨done, rest, hstages⟩ := List.append_of_mem hst
    obtain ⟨setting, first, n, h, -, hcourse, hsound⟩ := course_of_stages hstages
    have hcapped : first.gauge.Capped start := by
      rw [h.startGauge]
      exact RecordToRecord.create_capped hstart hfinish hcreate
    have hdone : ∀ st' ∈ done ++ [st], st'.turn.candidate.cost.IsExact := by
      intro st' hst'
      apply hexact.candidates
      rw [hstages]
      rcases List.mem_append.mp hst' with hst' | hst'
      · exact List.mem_append_left _ hst'
      · rw [List.mem_singleton.mp hst']
        simp
    have hnear := hcourse.nearRecord (h.criterion.trans hcriterion) hcapped rfl h.current
      (hexact.start _ h.cost) hdone
    have hkept := hcourse.kept rfl h.current (hexact.start _ h.cost).isWhole
      fun st' hst' => (hdone st' hst').isWhole
    rw [hsound.entry]
    refine ⟨hnear, ?_⟩
    intro b c hb hc
    have hle := hkept.best_le_current
    dsimp only at hb hc
    rw [hb, hc] at hnear hle
    exact hnear.share_lt hlimit ((Quantity.whole_le_whole b c).mp hle)
  · intro best hrun
    obtain ⟨setting, first, last, n, h⟩ := run_ok hrun
    exact h.history_eq

/-- The second candidate stays within the threshold of its moment, the third one within a lower one,
and the last one does not. -/
theorem run_stays_near_record_scripted :
    let exp : Float → Float := Float.exp
    let unit : List Nat → Except Fault Float × List Nat := fun script => (.ok 0.5, script)
    let rr : RecordToRecord Quantity := ⟨.real 0.5, .real 0, .real 0.125, .real 0.5⟩
    let s := scripted (Gauge.criterion exp unit)
    let rows := s.history 80 fourIterations (.recordToRecord rr) [52, 71, 63, 94]
    RecordToRecord.create (.real 0.5) (.real 0) (.whole 4) = .ok rr ∧
      s.CostsExact 80 fourIterations (.recordToRecord rr) [52, 71, 63, 94] ∧
      (s.run 80 fourIterations (.recordToRecord rr) [52, 71, 63, 94]).result = .ok ⟨52, .whole 5⟩ ∧
      rows.map Entry.best = [.whole 5, .whole 5, .whole 5, .whole 5] ∧
      rows.map Entry.current = [.whole 5, .whole 7, .whole 6, .whole 6] ∧
      ∀ e ∈ rows, NearRecord 0.5 e.best e.current := by
  intro exp unit rr s rows
  have hcreate : RecordToRecord.create (.real 0.5) (.real 0) (.whole 4) = .ok rr := by
    decide +kernel
  have hexact : s.CostsExact 80 fourIterations (.recordToRecord rr) [52, 71, 63, 94] :=
    .of_costs [8, 5, 7, 6, 9] (by decide) (by decide +kernel) (by decide +kernel)
  have hrun : (s.run 80 fourIterations (.recordToRecord rr) [52, 71, 63, 94]).result =
      .ok ⟨52, .whole 5⟩ := by decide +kernel
  obtain ⟨⟨limit, -, hnear⟩, hhistory⟩ :=
    run_stays_near_record (by decide +kernel) (by decide +kernel) hcreate rfl hexact
  have hrows : rows = _ := hhistory _ hrun
  refine ⟨hcreate, hexact, hrun, by decide +kernel, by decide +kernel, ?_⟩
  intro e he
  rw [hrows] at he
  obtain ⟨st, hst, rfl⟩ := List.mem_map.mp he
  exact (hnear st hst).1

end Solver

end LargeNeighborhood
