import LargeNeighborhood.Proofs.Number.Exact
import LargeNeighborhood.Proofs.Number.Order
import LargeNeighborhood.Proofs.Search.Improvement
import LargeNeighborhood.Proofs.Search.Interruption
import Mathlib.Algebra.Order.Field.Basic
import Mathlib.Order.Monotone.Basic
import Mathlib.Tactic.Linarith
import Mathlib.Tactic.Ring

set_option autoImplicit false

/-! # The schedule of a threshold

Record-to-record travel is written for any kind of number, so it can be read with rational numbers
and without rounding. Then the threshold keeps to a schedule (`thresholdAt`): it falls by equal steps
and stops at its finish. What is decided has no part in this. Each decision is taken with the
threshold in front of it, while a row of the history shows the threshold behind it.

The threshold is never put down by more than one step, and a clamp comes after every step. That the
schedule clamps once is `max_thresholdAt_sub`: a step is not negative, so where one clamp has
taken hold, the next one takes hold as well.
-/

namespace LargeNeighborhood

open Rounding

/-! ## The schedule -/

/-- The threshold behind `k` decisions. -/
def thresholdAt (start finish steps : ℚ) (k : ℕ) : ℚ :=
  max finish (start - k * ((start - finish) / steps))

section Schedule

variable {start finish steps : ℚ}

theorem thresholdAt_zero (hfalling : finish ≤ start) : thresholdAt start finish steps 0 = start := by
  simp [thresholdAt, hfalling]

/-- One more clamped step is one more step in front of the clamp. -/
theorem max_thresholdAt_sub (hfalling : finish ≤ start) (hsteps : 0 < steps) (k : ℕ) :
    max finish (thresholdAt start finish steps k - (start - finish) / steps) =
      thresholdAt start finish steps (k + 1) := by
  have hstep : 0 ≤ (start - finish) / steps := div_nonneg (by linarith) hsteps.le
  have hnext : start - ((k + 1 : ℕ) : ℚ) * ((start - finish) / steps) =
      start - k * ((start - finish) / steps) - (start - finish) / steps := by
    push_cast
    ring
  rw [thresholdAt, thresholdAt, hnext]
  by_cases hclamped : start - k * ((start - finish) / steps) ≤ finish
  · -- The clamp holds already, and another step leads further below it.
    rw [max_eq_left hclamped, max_eq_left (by linarith), max_eq_left (by linarith)]
  · rw [max_eq_right (le_of_not_ge hclamped)]

theorem finish_le_thresholdAt (k : ℕ) : finish ≤ thresholdAt start finish steps k := le_max_left _ _

theorem thresholdAt_antitone (hfalling : finish ≤ start) (hsteps : 0 < steps) :
    Antitone (thresholdAt start finish steps) := by
  have hstep : 0 ≤ (start - finish) / steps := div_nonneg (by linarith) hsteps.le
  apply antitone_nat_of_succ_le
  intro k
  rw [← max_thresholdAt_sub hfalling hsteps]
  apply max_le (finish_le_thresholdAt k)
  linarith

/-- When all steps are taken, the threshold is where it should be in the end. -/
theorem thresholdAt_of_le (hfalling : finish ≤ start) (hsteps : 0 < steps) {k : ℕ}
    (hk : steps ≤ k) : thresholdAt start finish steps k = finish := by
  have hfall : 0 ≤ start - finish := by linarith
  apply max_eq_left
  have hway : start - finish ≤ k * ((start - finish) / steps) := by
    calc start - finish = steps * ((start - finish) / steps) := by field_simp
      _ ≤ k * ((start - finish) / steps) :=
        mul_le_mul_of_nonneg_right hk (div_nonneg hfall hsteps.le)
  linarith

end Schedule

/-! ## Exact arithmetic -/

def exactSub (x y : ℚ) : Except Fault ℚ := .ok (x - y)

def exactDiv (x y : ℚ) : Except Fault ℚ :=
  if y = 0 then .error .divisionByZero else .ok (x / y)

theorem Rounding.exactly_inj {x y : ℚ} : exactly x = exactly y ↔ x = y := by
  constructor
  · intro h
    exact le_antisymm (exactly_le_exactly.mp h.le) (exactly_le_exactly.mp h.ge)
  · rintro rfl
    rfl

namespace Quantity

/-- The rational number that a quantity is. One that is infinite or undefined is refused. -/
def rational? (q : Quantity) : Except Fault ℚ :=
  match q.amount with
  | some (some (some x)) => .ok x
  | _ => .error .overflow

theorem rational?_eq_ok {q : Quantity} {x : ℚ} :
    q.rational? = .ok x ↔ q.amount = some (exactly x) := by
  unfold rational?
  rcases q.amount with _ | _ | _ | y
  · exact ⟨nofun, nofun⟩
  · exact ⟨nofun, nofun⟩
  · exact ⟨nofun, nofun⟩
  · show Except.ok y = .ok x ↔ some (exactly y) = some (exactly x)
    rw [Except.ok.injEq, Option.some_inj]
    exact exactly_inj.symm

@[simp] theorem rational?_whole (n : ℤ) : (whole n).rational? = .ok (n : ℚ) := rfl

theorem same_zero_iff {q : Quantity} {x : ℚ} (hq : q.rational? = .ok x) :
    q.same (.whole 0) = true ↔ x = 0 := by
  rw [rational?_eq_ok] at hq
  have hzero : (whole 0).amount = some (exactly 0) := rfl
  rw [same_iff_amount, hq, hzero]
  constructor
  · rintro ⟨p, hp, hp'⟩
    exact exactly_inj.mp (Option.some_inj.mp (hp.trans hp'.symm))
  · rintro rfl
    exact ⟨_, rfl, rfl⟩

theorem le_iff_rational {p q : Quantity} {x y : ℚ} (hp : p.rational? = .ok x)
    (hq : q.rational? = .ok y) : p ≤ q ↔ x ≤ y := by
  rw [rational?_eq_ok] at hp hq
  rw [le_iff_amount, hp, hq]
  simp

theorem lt_iff_rational {p q : Quantity} {x y : ℚ} (hp : p.rational? = .ok x)
    (hq : q.rational? = .ok y) : p < q ↔ x < y := by
  rw [rational?_eq_ok] at hp hq
  rw [lt_iff_amount, hp, hq]
  simp

end Quantity

/-- How far a candidate lies above the best cost, as a rational share of its own cost. -/
def exactGap (best candidate : Cost) : Except Fault ℚ := do
  RecordToRecord.share exactSub exactDiv (← best.rational?) (← candidate.rational?)

theorem exactGap_eq {best candidate : Cost} {x y : ℚ} (hbest : best.rational? = .ok x)
    (hcandidate : candidate.rational? = .ok y) (hy : y ≠ 0) :
    exactGap best candidate = .ok ((y - x) / y) := by
  unfold exactGap
  rw [hbest, hcandidate]
  show exactDiv (y - x) y = _
  rw [exactDiv, if_neg hy]

/-! ## Decisions in a row -/

namespace RecordToRecord

/-- Record-to-record travel on its schedule, behind `k` decisions. -/
def scheduled (start finish steps : ℚ) (k : ℕ) : RecordToRecord ℚ :=
  ⟨start, finish, (start - finish) / steps, thresholdAt start finish steps k⟩

section

variable {start finish steps : ℚ}

/-- Settings that are accepted are in order when they are read exactly. -/
theorem create_valid {p q m : Quantity} {r : RecordToRecord Quantity} (h : create p q m = .ok r)
    (hp : p.rational? = .ok start) (hq : q.rational? = .ok finish) (hm : m.rational? = .ok steps) :
    0 ≤ finish ∧ finish ≤ start ∧ 0 < steps := by
  obtain ⟨hsteps, hnonneg, hfalling, -⟩ := create_ok h
  rw [Quantity.le_iff_rational hm (Quantity.rational?_whole 0), Int.cast_zero] at hsteps
  rw [Quantity.lt_iff_rational hq (Quantity.rational?_whole 0), Int.cast_zero] at hnonneg
  rw [Quantity.lt_iff_rational hp hq] at hfalling
  exact ⟨not_lt.mp hnonneg, not_lt.mp hfalling, not_le.mp hsteps⟩

theorem fresh_eq (hfalling : finish ≤ start) (hsteps : steps ≠ 0) :
    fresh exactSub exactDiv start finish steps = .ok (scheduled start finish steps 0) := by
  have hdiv : exactDiv (start - finish) steps = .ok ((start - finish) / steps) := if_neg hsteps
  rw [scheduled, thresholdAt_zero hfalling]
  show Except.bind (exactDiv (start - finish) steps) _ = _
  rw [hdiv]
  rfl

theorem lower_exact (r : RecordToRecord ℚ) :
    r.lower exactSub = .ok { r with threshold := max r.finish (r.threshold - r.step) } := by
  have hclamp : (if r.finish < r.threshold - r.step then r.threshold - r.step else r.finish) =
      max r.finish (r.threshold - r.step) := by
    by_cases hlt : r.finish < r.threshold - r.step
    · simp [hlt, max_eq_right hlt.le]
    · simp [hlt, max_eq_left (not_lt.mp hlt)]
  rw [← hclamp]
  rfl

theorem lower_scheduled (hfalling : finish ≤ start) (hsteps : 0 < steps) (k : ℕ) :
    (scheduled start finish steps k).lower exactSub = .ok (scheduled start finish steps (k + 1)) := by
  rw [lower_exact]
  simp only [scheduled, max_thresholdAt_sub hfalling hsteps]

/-- On its schedule, record-to-record travel decides with the threshold in front of the decision, and
moves on. -/
theorem judge_scheduled (hfalling : finish ≤ start) (hsteps : 0 < steps) (k : ℕ)
    {best candidate : Cost} {x y : ℚ} (hbest : best.rational? = .ok x)
    (hcandidate : candidate.rational? = .ok y) :
    (scheduled start finish steps k).judge exactSub exactGap best candidate =
      (.ok (decide (y = 0 ∨ (y - x) / y < thresholdAt start finish steps k)),
        scheduled start finish steps (k + 1)) := by
  have haccepts : (scheduled start finish steps k).accepts exactGap best candidate =
      .ok (decide (y = 0 ∨ (y - x) / y < thresholdAt start finish steps k)) := by
    unfold accepts
    by_cases hy : y = 0
    · rw [if_pos ((Quantity.same_zero_iff hcandidate).mpr hy)]
      simp [hy]
    · rw [if_neg (mt (Quantity.same_zero_iff hcandidate).mp hy), exactGap_eq hbest hcandidate hy]
      refine congrArg Except.ok (decide_eq_decide.mpr ?_)
      simp [hy, scheduled]
  unfold judge
  rw [haccepts, lower_scheduled hfalling hsteps]

/-- What has been decided leaves no trace on the schedule. -/
theorem judge_scheduled_moves (hfalling : finish ≤ start) (hsteps : 0 < steps) {k : ℕ}
    {gap : Cost → Cost → Except Fault ℚ} {best candidate : Cost} {accepted : Bool}
    {r : RecordToRecord ℚ}
    (h : (scheduled start finish steps k).judge exactSub gap best candidate = (.ok accepted, r)) :
    r = scheduled start finish steps (k + 1) := by
  unfold judge at h
  rw [lower_scheduled hfalling hsteps] at h
  split at h
  · rename_i hlowered
    cases h
    exact Except.ok.inj hlowered.symm
  · cases h
  · cases h

/-- What a row of decisions makes of a threshold. Each is a decision on the best and the candidate
cost of its moment. -/
def after (gap : Cost → Cost → Except Fault ℚ) (calls : List (Cost × Cost)) (r : RecordToRecord ℚ) :
    RecordToRecord ℚ :=
  calls.foldl (fun r call => (r.judge exactSub gap call.1 call.2).2) r

/-- A row of decisions moves on along the schedule, whatever was decided on. -/
theorem after_scheduled (hfalling : finish ≤ start) (hsteps : 0 < steps)
    {calls : List (Cost × Cost)}
    (hcalls : ∀ call ∈ calls, ∃ x y, call.1.rational? = .ok x ∧ call.2.rational? = .ok y) (k : ℕ) :
    (scheduled start finish steps k).after exactGap calls =
      scheduled start finish steps (k + calls.length) := by
  -- The place on the schedule moves with the calls, so it is general in the induction.
  induction calls generalizing k with
  | nil => rfl
  | cons call calls ih =>
      obtain ⟨⟨x, y, hx, hy⟩, hrest⟩ := List.forall_mem_cons.mp hcalls
      rw [after, List.foldl_cons, judge_scheduled hfalling hsteps k hx hy]
      calc calls.foldl _ (scheduled start finish steps (k + 1))
          = scheduled start finish steps (k + 1 + calls.length) := ih hrest (k + 1)
        _ = scheduled start finish steps (k + (call :: calls).length) := by
          rw [List.length_cons, Nat.add_assoc, Nat.add_comm 1]

end

end RecordToRecord

/-! ## Runs -/

section Runs

variable {σ κ ω γ π : Type}

/-- Record-to-record travel as a criterion, read exactly. -/
def exactTravel : Criterion σ ω (RecordToRecord ℚ) ℚ where
  judge best _ candidate r w :=
    let (accepted, r) := r.judge exactSub exactGap best.cost candidate.cost
    (accepted, r, w)
  reading := RecordToRecord.threshold

/-- What every decision moves on by one, a course has moved on by the number of its stages. -/
theorem Course.gauge_counts {ν : Type} [BEq κ] [Scalar ν] {s : Setting σ κ ω γ π ν}
    {first w : Walk σ κ ω γ π ν} {done : List (Stage σ κ ω γ π ν)} {schedule : ℕ → γ}
    (hmoves : ∀ k best current candidate w accepted g w',
      s.criterion.judge best current candidate (schedule k) w = (.ok accepted, g, w') →
        g = schedule (k + 1))
    (h : Course s first done w) (hfirst : first.gauge = schedule 0) :
    w.gauge = schedule done.length := by
  induction h with
  | start => exact hfirst
  | @step done w st h hst ih =>
      obtain ⟨hbefore, hsound⟩ := Walk.stage_ok hst
      obtain ⟨opened, w₁, w₂, w₃, -, -, hjudge⟩ := hsound.made
      -- The decision was taken with the gauge of all stages before.
      rw [hbefore, ih] at hjudge
      rw [List.length_append, List.length_singleton]
      exact hmoves _ _ _ _ _ _ _ _ hjudge

variable {start finish steps : ℚ}

theorem exactTravel_moves (hfalling : finish ≤ start) (hsteps : 0 < steps) (k : ℕ)
    (best current candidate : Rated σ) (w : ω) (accepted : Bool) (g : RecordToRecord ℚ) (w' : ω)
    (h : exactTravel.judge best current candidate (.scheduled start finish steps k) w =
      (.ok accepted, g, w')) : g = .scheduled start finish steps (k + 1) := by
  rcases hjudge : (RecordToRecord.scheduled start finish steps k).judge exactSub exactGap best.cost
    candidate.cost with ⟨result, r⟩
  simp only [exactTravel, hjudge] at h
  cases h
  exact RecordToRecord.judge_scheduled_moves hfalling hsteps hjudge

/-- An iteration decides with the threshold in front of it, and its row shows the one behind it. -/
theorem Course.on_schedule {ν : Type} [BEq κ] [Scalar ν]
    {s : Setting σ κ ω (RecordToRecord ℚ) ℚ ν} {first : Walk σ κ ω (RecordToRecord ℚ) ℚ ν}
    {done : List (Stage σ κ ω (RecordToRecord ℚ) ℚ ν)} {st : Stage σ κ ω (RecordToRecord ℚ) ℚ ν}
    (hfalling : finish ≤ start) (hsteps : 0 < steps) (hcriterion : s.criterion = exactTravel)
    (hfirst : first.gauge = .scheduled start finish steps 0) (h : Course s first done st.before)
    (hst : st.Sound s (done.length + 1)) :
    st.entry.reading = thresholdAt start finish steps (done.length + 1) ∧
      ∀ x y, st.before.best.cost.rational? = .ok x → st.turn.candidate.cost.rational? = .ok y →
        st.turn.accepted =
          decide (y = 0 ∨ (y - x) / y < thresholdAt start finish steps done.length) := by
  have hmoves := exactTravel_moves (σ := σ) (ω := ω) hfalling hsteps
  have hbefore : st.before.gauge = .scheduled start finish steps done.length :=
    h.gauge_counts (by rw [hcriterion]; exact hmoves) hfirst
  obtain ⟨opened, w₁, w₂, w₃, -, -, hjudge⟩ := hst.made
  rw [hcriterion, hbefore] at hjudge
  have hafter := hmoves _ _ _ _ _ _ _ _ hjudge
  constructor
  · rw [hst.entry, hafter, hcriterion]
    rfl
  · intro x y hx hy
    simp only [exactTravel, RecordToRecord.judge_scheduled hfalling hsteps _ hx hy] at hjudge
    exact (Except.ok.inj (congrArg Prod.fst hjudge)).symm

/-- Read exactly, a threshold keeps to its schedule. Behind `k` decisions, on whatever costs and however
they were taken, it is the start less `k` steps, or the finish if that is more; it never rises, never
falls below the finish, and is there when all steps have been taken. A decision is taken with the
threshold in front of it. In a run from a fresh threshold, row `k` of the history shows the threshold
behind the decision of that row, whether the run is completed or not. -/
theorem threshold_keeps_schedule [BEq κ] (hfalling : finish ≤ start) (hsteps : 0 < steps) :
    Antitone (thresholdAt start finish steps) ∧
    (∀ k, finish ≤ thresholdAt start finish steps k) ∧
    (∀ k : ℕ, steps ≤ k → thresholdAt start finish steps k = finish) ∧
    ∃ travel, RecordToRecord.fresh exactSub exactDiv start finish steps = .ok travel ∧
      (∀ calls : List (Cost × Cost),
        (∀ call ∈ calls, ∃ x y, call.1.rational? = .ok x ∧ call.2.rational? = .ok y) →
        (travel.after exactGap calls).threshold = thresholdAt start finish steps calls.length ∧
        ∀ (best candidate : Cost) x y, best.rational? = .ok x → candidate.rational? = .ok y →
          ((travel.after exactGap calls).judge exactSub exactGap best candidate).1 =
            .ok (decide (y = 0 ∨ (y - x) / y < thresholdAt start finish steps calls.length))) ∧
      ∀ (s : Solver σ κ ω (RecordToRecord ℚ) ℚ) initial r world, s.criterion = exactTravel →
        s.check r = .ok () →
        (∀ k e, (s.history initial r travel world)[k]? = some e →
          e.reading = thresholdAt start finish steps (k + 1)) ∧
        ∀ done st rest, s.stages initial r travel world = done ++ st :: rest →
          ∀ x y, st.before.best.cost.rational? = .ok x → st.turn.candidate.cost.rational? = .ok y →
            st.turn.accepted =
              decide (y = 0 ∨ (y - x) / y < thresholdAt start finish steps done.length) := by
  refine ⟨thresholdAt_antitone hfalling hsteps, fun k => finish_le_thresholdAt k,
    fun k hk => thresholdAt_of_le hfalling hsteps hk, .scheduled start finish steps 0,
    RecordToRecord.fresh_eq hfalling hsteps.ne', ?_, ?_⟩
  · intro calls hcalls
    rw [RecordToRecord.after_scheduled hfalling hsteps hcalls, Nat.zero_add]
    refine ⟨rfl, ?_⟩
    intro best candidate x y hx hy
    rw [RecordToRecord.judge_scheduled hfalling hsteps _ hx hy]
  · intro s initial r world hcriterion hcheck
    constructor
    · intro k e hrow
      obtain ⟨setting, first, n, h, done, st, hcourse, rfl, hsound, rfl⟩ :=
        Solver.recorded_of_history hcheck hrow
      exact (hcourse.on_schedule hfalling hsteps (h.criterion.trans hcriterion) h.startGauge
        hsound).1
    · intro done st rest hstages
      obtain ⟨setting, first, n, h, hbefore, -, hsound⟩ := Solver.course_of_stages hstages
      exact (hbefore.on_schedule hfalling hsteps (h.criterion.trans hcriterion) h.startGauge
        hsound).2

/-- Four steps from one half down to one tenth. The third candidate is turned down with the threshold
at which it is met, and so is the last one. -/
theorem threshold_keeps_schedule_scripted :
    let travel : RecordToRecord ℚ := ⟨1 / 2, 1 / 10, 1 / 10, 1 / 2⟩
    let rows := (Solver.scripted exactTravel).history 80 Solver.fourIterations travel [52, 71, 83, 94]
    RecordToRecord.fresh exactSub exactDiv (1 / 2) (1 / 10) 4 = .ok travel ∧
      rows.map Entry.current = [.whole 5, .whole 7, .whole 7, .whole 7] ∧
      rows.map Entry.reading = [2 / 5, 3 / 10, 1 / 5, 1 / 10] ∧
      (∀ k e, rows[k]? = some e → e.reading = thresholdAt (1 / 2) (1 / 10) 4 (k + 1)) ∧
      (travel.after exactGap [(.whole 5, .whole 0), (.whole 5, .real 2.5)]).threshold = 3 / 10 ∧
      thresholdAt (1 / 2) (1 / 10) 4 7 = 1 / 10 := by
  intro travel rows
  have hfresh : RecordToRecord.fresh exactSub exactDiv (1 / 2) (1 / 10) 4 = .ok travel := by
    decide +kernel
  have hfalling : (1 / 10 : ℚ) ≤ 1 / 2 := by norm_num
  have hsteps : (0 : ℚ) < 4 := by norm_num
  obtain ⟨-, -, hend, travel', hfresh', hcalls, hruns⟩ :=
    threshold_keeps_schedule (σ := ℕ) (κ := ℕ) (ω := List ℕ) hfalling hsteps
  cases hfresh.symm.trans hfresh'
  obtain ⟨hrows, -⟩ := hruns (Solver.scripted exactTravel) 80 Solver.fourIterations
    [52, 71, 83, 94] rfl (by decide +kernel)
  obtain ⟨hbehind, -⟩ := hcalls [(.whole 5, .whole 0), (.whole 5, .real 2.5)] (by
    intro call hcall
    rcases List.mem_cons.mp hcall with rfl | hcall
    · exact ⟨5, 0, by decide +kernel, by decide +kernel⟩
    · rw [List.mem_singleton.mp hcall]
      exact ⟨5, 5 / 2, by decide +kernel, by decide +kernel⟩)
  refine ⟨hfresh, by decide +kernel, by decide +kernel, hrows, ?_, hend 7 (by norm_num)⟩
  rw [hbehind]
  decide +kernel

end Runs

end LargeNeighborhood
