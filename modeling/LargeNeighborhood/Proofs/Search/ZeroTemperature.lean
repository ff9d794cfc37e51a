import LargeNeighborhood.Proofs.Number.Nonnegative
import LargeNeighborhood.Proofs.Search.Improvement
import LargeNeighborhood.Random.Tape

set_option autoImplicit false

/-! # Annealing at temperature zero

Cooling a temperature of zero leaves it at zero (`Annealing.Frozen.cool`), so that whatever is
decided, and in whatever order, a search that starts there stays there. A candidate that costs no
more than the current solution is then accepted with probability one and any other with
probability zero.

Probability zero is not the same as never. A candidate is accepted when the draw does not exceed
the probability, and a draw from `[0, 1)` may be zero itself: on that draw alone a frozen search
accepts a worsening, whatever it costs (`Gauge.judge_frozen`).
-/

namespace LargeNeighborhood

open Float.Model Float.Model.UnpackedFloat Rounding

/-! ## Freezing -/

namespace Annealing

/-- Annealing at temperature zero, with a cooling rate that is a proper share. -/
structure Frozen (a : Annealing) : Prop where
  temperature : (a.temperature == 0) = true
  rate : isProperShare (.real a.rate)

/-- A share that is no whole number is the real that it is. -/
theorem isProperShare_toFloat {q : Quantity} (h : isProperShare q) :
    q = .real q.toFloat := by
  cases q with
  | real x => rfl
  | whole n =>
      have hlow := (Quantity.whole_lt_whole 0 n).mp h.1
      have hhigh := (Quantity.whole_lt_whole n 1).mp h.2
      omega

theorem create_ok {initial w rate : Quantity} {a : Annealing}
    (h : create initial w rate = .ok a) :
    isProperShare w ∧ isProperShare rate ∧ ¬ initial < Quantity.whole 0 ∧
      ∃ cost, initial.toReal? = .ok cost ∧
        a = ⟨-worsening * cost / w.toFloat.log, -worsening * cost / w.toFloat.log,
          rate.toFloat⟩ := by
  unfold create at h
  by_cases hw : isProperShare w
  · rw [if_neg (not_not.mpr hw)] at h
    by_cases hrate : isProperShare rate
    · rw [if_neg (not_not.mpr hrate)] at h
      by_cases hinitial : initial < Quantity.whole 0
      · rw [if_pos hinitial] at h
        cases h
      · rw [if_neg hinitial] at h
        obtain ⟨cost, hcost, h⟩ := bind_eq_ok.mp h
        cases h
        exact ⟨hw, hrate, hinitial, cost, hcost, rfl⟩
    · rw [if_pos hrate] at h
      cases h
  · rw [if_pos hw] at h
    cases h

/-- A search that starts from a solution that costs nothing is frozen from the start. Of the
logarithm it matters only that it is negative below one. -/
theorem create_frozen {initial w rate : Quantity} {a : Annealing}
    (hlog : w.toFloat.log < 0) {cost : Float} (hcost : initial.toReal? = .ok cost)
    (hzero : (cost == 0) = true) (h : create initial w rate = .ok a) : a.Frozen := by
  obtain ⟨-, hrate, -, cost', hcost', rfl⟩ := create_ok h
  cases hcost.symm.trans hcost'
  refine ⟨zero_div_beq_zero ?_ hlog, isProperShare_toFloat hrate ▸ hrate⟩
  obtain ⟨s, hs⟩ := view_of_beq_zero hzero
  refine beq_zero_of_view (s := .negative * s) ?_
  rw [view_mul, hs]
  exact repack_zero _

theorem exists_worth_of_isProperShare {x : Float} (h : isProperShare (.real x)) :
    ∃ q : ℚ, worth x = some (exactly q) := by
  obtain ⟨p, r, hp, hr, hpr⟩ := Quantity.lt_iff_amount.mp h.1
  obtain ⟨r', t, hr', ht, hrt⟩ := Quantity.lt_iff_amount.mp h.2
  cases hr.symm.trans hr'
  cases hp
  cases ht
  obtain ⟨q, rfl⟩ := between hpr.le hrt.le
  exact ⟨q, hr⟩

theorem Frozen.cool {a : Annealing} (h : a.Frozen) : a.cool.Frozen := by
  obtain ⟨q, hq⟩ := exists_worth_of_isProperShare h.rate
  exact ⟨zero_mul_beq_zero h.temperature hq, h.rate⟩

/-- At temperature zero the probability is one or zero. -/
theorem Frozen.probability_eq {a : Annealing} (h : a.Frozen) (exp : Float → Float) (n : ℤ) :
    a.probability exp (.whole n) = .ok (if 0 ≤ n then 1 else 0) := by
  have hcold : ¬ 0 < a.temperature := fun hpos => not_beq_zero hpos h.temperature
  unfold probability
  rw [if_neg hcold, if_congr (Quantity.whole_le_whole 0 n) rfl rfl]

variable {ω : Type} {exp : Float → Float} {unit : ω → Except Fault Float × ω}

/-- A frozen search stays frozen, whatever is decided, and whether or not a decision is reached at
all. -/
theorem Frozen.judge {a : Annealing} (h : a.Frozen) (current candidate : Cost) (w : ω) :
    (a.judge exp unit current candidate w).2.1.Frozen := by
  unfold Annealing.judge
  split
  · exact h
  · dsimp only
    split
    · exact h
    · exact h.cool

/-- A frozen search accepts what costs no more, and on a draw of zero anything. -/
theorem Frozen.judge_eq {a : Annealing} (h : a.Frozen) {w w' : ω} {u : Float}
    (hdraw : unit w = (.ok u, w')) (hu : 0 ≤ u) (hu' : u < 1) (m n : ℤ) :
    a.judge exp unit (.whole m) (.whole n) w = (.ok (decide (n ≤ m) || u == 0), a.cool, w') := by
  rw [Annealing.judge_eq hdraw (h.probability_eq exp (m - n))]
  by_cases hle : n ≤ m
  · have hgain : 0 ≤ m - n := by omega
    simp only [hgain, hle, if_true, decide_true, Bool.true_or, real_le_of_lt hu']
  · have hgain : ¬ 0 ≤ m - n := by omega
    simp only [hgain, hle, if_false, decide_false, Bool.false_or, le_zero_iff_beq hu,
      Bool.decide_eq_true]

end Annealing

/-! ## Decisions in a row -/

namespace Gauge

variable {ω : Type} (exp : Float → Float) (unit : ω → Except Fault Float × ω)

/-- The gauge and the world behind a row of decisions, each on the best, the current and the
candidate cost of its moment. -/
def after : List (Cost × Cost × Cost) → Gauge → ω → Gauge × ω
  | [], g, w => (g, w)
  | (best, current, candidate) :: calls, g, w =>
      let (_, g, w) := judge exp unit best current candidate g w
      after calls g w

/-- No row of decisions thaws a search. -/
theorem after_frozen (calls : List (Cost × Cost × Cost)) {a : Annealing} (h : a.Frozen) (w : ω) :
    ∃ a' : Annealing, (after exp unit calls (.annealing a) w).1 = .annealing a' ∧ a'.Frozen := by
  induction calls generalizing a w with
  | nil => exact ⟨a, rfl, h⟩
  | cons call calls ih =>
      obtain ⟨best, current, candidate⟩ := call
      exact ih (h.judge current candidate w) _

/-- At temperature zero, after any decisions, a candidate is accepted when it costs no more than the
current solution, and besides when the draw is zero. The temperature stays where it is. -/
theorem judge_frozen {a : Annealing} (ha : a.Frozen) (calls : List (Cost × Cost × Cost))
    {w w' w'' : ω} {g : Gauge} (hafter : after exp unit calls (.annealing a) w = (g, w'))
    {u : Float} (hdraw : unit w' = (.ok u, w'')) (hu : 0 ≤ u) (hu' : u < 1) (best : Cost)
    (m n : ℤ) :
    ∃ g', judge exp unit best (.whole m) (.whole n) g w' =
        (.ok (decide (n ≤ m) || u == 0), g', w'') ∧
      ∃ b b' : Annealing, g = .annealing b ∧ g' = .annealing b' ∧
        (b.temperature == 0) = true ∧ (b'.temperature == 0) = true := by
  obtain ⟨b, hb, hfrozen⟩ := after_frozen exp unit calls ha w
  rw [hafter] at hb
  subst hb
  refine ⟨.annealing b.cool, ?_, b, b.cool, rfl, rfl, hfrozen.temperature,
    hfrozen.cool.temperature⟩
  unfold judge
  dsimp only
  rw [hfrozen.judge_eq hdraw hu hu']

/-- Behind an improvement, the draw of one half turns a worsening down. -/
theorem judge_frozen_half :
    let calls : List (Cost × Cost × Cost) := [(.whole 5, .whole 5, .whole 4)]
    let before := after Float.exp Tape.unit calls (.annealing ⟨0, 0, 0.5⟩) (.ofList [0.25, 0.5])
    ∃ g' tape, judge Float.exp Tape.unit (.whole 4) (.whole 4) (.whole 6) before.1 before.2 =
        (.ok false, g', tape) ∧
      ∃ b' : Annealing, g' = .annealing b' ∧ (b'.temperature == 0) = true := by
  intro calls before
  have ha : Annealing.Frozen ⟨0, 0, 0.5⟩ := ⟨by decide +kernel, by decide +kernel⟩
  have hbefore : before.2 = ⟨#[0.25, 0.5], 1⟩ := rfl
  have hdraw : Tape.unit before.2 = (.ok 0.5, ⟨#[0.25, 0.5], 2⟩) := by
    rw [hbefore]
    rfl
  obtain ⟨g', hjudge, b, b', -, hg', -, hzero⟩ := judge_frozen Float.exp Tape.unit ha calls
    (Prod.mk.eta.symm : before = _) hdraw (by decide +kernel) (by decide +kernel) (.whole 4) 4 6
  have hanswer : (decide ((6 : ℤ) ≤ 4) || (0.5 : Float) == 0) = false := by decide +kernel
  rw [hanswer] at hjudge
  exact ⟨g', _, hjudge, b', hg', hzero⟩

/-- On a draw of zero a candidate that costs six replaces a solution that costs five. -/
theorem judge_frozen_accepts_worsening :
    let a : Annealing := ⟨0, 0, 0.5⟩
    (a.temperature == 0) = true ∧ ¬ Quantity.whole 6 ≤ Quantity.whole 5 ∧
      (judge Float.exp Tape.unit (.whole 5) (.whole 5) (.whole 6) (.annealing a)
        (.ofList [0])).1 = .ok true := by
  intro a
  have ha : a.Frozen := ⟨by decide +kernel, by decide +kernel⟩
  refine ⟨ha.temperature, by decide, ?_⟩
  have hdraw : Tape.unit (.ofList [0]) = (.ok 0, ⟨#[0], 1⟩) := rfl
  unfold judge
  dsimp only
  rw [ha.judge_eq hdraw (by decide +kernel) (by decide +kernel)]
  have hanswer : (decide ((6 : ℤ) ≤ 5) || (0 : Float) == 0) = true := by decide +kernel
  rw [hanswer]

end Gauge

end LargeNeighborhood
