import LargeNeighborhood.Proofs.Search.Cheaper
import LargeNeighborhood.Proofs.Search.Indifference

set_option autoImplicit false

/-! # Decisions that do not fail

Where costs are lengths, of at most 63 bits, a built-in criterion decides on all of them, whatever
temperature or threshold it has come to (`Gauge.exists_judge_ok`). A criterion that is made by its
name for such a cost is there as well, with one exception: the step of a threshold is a share of the
number of steps, and a number beyond the range of the reals has no share (`Gauge.exists_named_ok`).
-/

namespace LargeNeighborhood

open Rounding

/-- A whole number that is not negative and has at most 63 bits, as the length of a tour has. -/
def Quantity.IsLength (q : Quantity) : Prop := ∃ n : ℤ, q = .whole n ∧ 0 ≤ n ∧ n < 2 ^ 63

theorem Quantity.IsLength.inRange {q : Quantity} (h : q.IsLength) : q.InRange := by
  obtain ⟨n, rfl, hn, hn'⟩ := h
  exact ⟨Float.ofInt n, toReal?_whole (by omega)⟩

/-! ## Decisions -/

/-- At every temperature a gain has a probability. -/
theorem Annealing.exists_probability_ok (exp : Float → Float) (a : Annealing) {gain : ℤ}
    (h : gain.natAbs ≤ 2 ^ 64) : ∃ p, a.probability exp (.whole gain) = .ok p := by
  unfold probability
  by_cases hpos : 0 < a.temperature
  · rw [if_pos hpos, Quantity.div?_real h hpos]
    exact ⟨_, rfl⟩
  · rw [if_neg hpos]
    exact ⟨_, rfl⟩

/-- A candidate is accepted or not, at every threshold. -/
theorem RecordToRecord.exists_accepts_ok (r : RecordToRecord Quantity) {b c : ℤ} (hb : 0 ≤ b)
    (hb' : b < 2 ^ 63) (hc : 0 ≤ c) (hc' : c < 2 ^ 63) :
    ∃ accepted, r.accepts relativeGap (.whole b) (.whole c) = .ok accepted := by
  rcases hc.eq_or_lt with rfl | hpos
  · exact ⟨true, rfl⟩
  · exact ⟨_, accepts_eq hpos (by omega)⟩

namespace Gauge

variable {ω : Type} {exp : Float → Float} {unit : ω → Except Fault Float × ω}

/-- A decision on lengths does not fail, and leaves a gauge that can decide on the next ones. -/
theorem exists_judge_ok {W : ω → Prop}
    (hunit : ∀ w, W w → ∃ u w', unit w = (.ok u, w') ∧ W w') {g : Gauge} (hg : g.Measured)
    {best current candidate : Cost} (hbest : best.IsLength) (hcurrent : current.IsLength)
    (hcandidate : candidate.IsLength) {w : ω} (hw : W w) :
    ∃ accepted g' w', judge exp unit best current candidate g w = (.ok accepted, g', w') ∧
      g'.Measured ∧ W w' := by
  have hkept : (judge exp unit best current candidate g w).2.1.Measured :=
    judge_measured hg best current candidate w
  obtain ⟨b, rfl, hb, hb'⟩ := hbest
  obtain ⟨m, rfl, hm, hm'⟩ := hcurrent
  obtain ⟨c, rfl, hc, hc'⟩ := hcandidate
  -- that the gauge can decide again is known of any decision
  suffices h : ∃ accepted g' w', judge exp unit (.whole b) (.whole m) (.whole c) g w =
      (.ok accepted, g', w') ∧ W w' by
    obtain ⟨accepted, g', w', hjudge, hw'⟩ := h
    rw [hjudge] at hkept
    exact ⟨accepted, g', w', hjudge, hkept, hw'⟩
  cases g with
  | hillClimbing => exact ⟨_, _, w, rfl, hw⟩
  | annealing a =>
      obtain ⟨u, w', hu, hw'⟩ := hunit w hw
      have hgain : (m - c).natAbs ≤ 2 ^ 64 := by omega
      obtain ⟨p, hp⟩ := a.exists_probability_ok exp hgain
      exact ⟨decide (u ≤ p), .annealing a.cool, w', by
        simp only [judge, Annealing.judge_eq hu hp], hw'⟩
  | recordToRecord r =>
      obtain ⟨start, hr⟩ := hg
      obtain ⟨accepted, haccepts⟩ := r.exists_accepts_ok hb hb' hc hc'
      obtain ⟨lowered, hlowered⟩ := hr.exists_lower_ok
      exact ⟨accepted, .recordToRecord lowered, w, by
        simp only [judge, RecordToRecord.judge_eq haccepts hlowered], hw⟩

/-! ## Criteria by their names -/

/-- The names of the built-in criteria. -/
def names : List String := [hillClimbingName, annealingName, recordToRecordName]

/-- The names of the built-in criteria are in capitals and without blanks, so that each is looked up
as it is. -/
theorem upper_strip_of_mem_names : ∀ name ∈ names, upper (strip name) = name := by
  decide +kernel

section Named

variable (cost : Cost) (steps : Quantity)

theorem named_hillClimbing : named hillClimbingName cost steps = .ok .hillClimbing := by
  have hkey := upper_strip_of_mem_names hillClimbingName (by simp [names])
  unfold named
  rw [hkey]
  exact if_pos rfl

theorem named_annealing : named annealingName cost steps = standardAnnealing cost := by
  have hkey := upper_strip_of_mem_names annealingName (by simp [names])
  unfold named
  rw [hkey]
  rfl

theorem named_recordToRecord :
    named recordToRecordName cost steps = standardRecordToRecord steps := by
  have hkey := upper_strip_of_mem_names recordToRecordName (by simp [names])
  unfold named
  rw [hkey]
  rfl

end Named

theorem exists_standardAnnealing_ok {cost : Cost} (hcost : cost.IsLength) :
    ∃ g, standardAnnealing cost = .ok g ∧ g.Measured := by
  obtain ⟨n, rfl, hn, hn'⟩ := hcost
  have hnonneg : ¬ Quantity.whole n < Quantity.whole 0 := by
    rw [Quantity.whole_lt_whole]
    omega
  have hcreate : ∃ a, Annealing.create (.whole n) (.real 0.5) (.real 0.9998) = .ok a := by
    unfold Annealing.create
    rw [if_neg (not_not.mpr (by decide +kernel)), if_neg (not_not.mpr (by decide +kernel)),
      if_neg hnonneg, Quantity.toReal?_whole (by omega)]
    exact ⟨_, rfl⟩
  obtain ⟨a, ha⟩ := hcreate
  exact ⟨.annealing a, bind_eq_ok.mpr ⟨a, ha, rfl⟩, trivial⟩

section Steps

variable {n : ℤ}

/-- All that is asked of a number of steps is that it is in the range of the reals. -/
theorem standardRecordToRecord_eq (hn : 1 ≤ n) : standardRecordToRecord (.whole n) =
    (Quantity.toReal? (.whole n)).map fun steps =>
      .recordToRecord ⟨.real 0.05, .real 0.0, .real ((0.05 - 0.0) / steps), .real 0.05⟩ := by
  have hpos : ¬ Quantity.whole n ≤ Quantity.whole 0 := by
    rw [Quantity.whole_le_whole]
    omega
  -- a positive number of steps is a positive real, so the division by it is not refused
  have hratio : ∀ x : Float, Quantity.ratio? (.real x) (.whole n) =
      (Quantity.toReal? (.whole n)).map fun steps => .real (x / steps) := by
    intro x
    cases hsteps : Quantity.toReal? (.whole n) with
    | error fault =>
        simp only [Quantity.ratio?, Quantity.div?, hsteps]
        rfl
    | ok steps =>
        have hne : ¬ (steps == 0) = true := by
          rw [Quantity.toReal?_eq_ofInt hsteps]
          exact not_beq_zero (zero_lt_ofInt (by omega))
        simp only [Quantity.ratio?, Quantity.div?, hsteps]
        show Except.bind (if (steps == 0) = true then _ else _) _ = _
        rw [if_neg hne]
        rfl
  unfold standardRecordToRecord RecordToRecord.create RecordToRecord.fresh
  rw [if_neg hpos, if_neg (by decide +kernel), if_neg (by decide +kernel)]
  show Except.bind (Except.bind (Quantity.ratio? (.real (0.05 - 0.0)) (.whole n)) _) _ = _
  rw [hratio]
  cases Quantity.toReal? (.whole n) <;> rfl

/-- A criterion that is named exists, if the number of steps is in range where it is asked for. -/
theorem exists_named_ok {name : String} (hname : name ∈ names) {cost : Cost}
    (hcost : cost.IsLength) (hn : 1 ≤ n)
    (hrange : name = recordToRecordName → (Quantity.whole n).InRange) :
    ∃ g, named name cost (.whole n) = .ok g ∧ g.Measured := by
  rcases (by simpa [names] using hname : name = hillClimbingName ∨ name = annealingName ∨
    name = recordToRecordName) with rfl | rfl | rfl
  · exact ⟨.hillClimbing, named_hillClimbing cost _, trivial⟩
  · rw [named_annealing]
    exact exists_standardAnnealing_ok hcost
  · obtain ⟨steps, hsteps⟩ := hrange rfl
    have hstandard : standardRecordToRecord (.whole n) = .ok (.recordToRecord
        ⟨.real 0.05, .real 0.0, .real ((0.05 - 0.0) / steps), .real 0.05⟩) := by
      rw [standardRecordToRecord_eq hn, hsteps]
      rfl
    obtain ⟨r, hr, hgauge⟩ := bind_eq_ok.mp hstandard
    refine ⟨.recordToRecord r, ?_, 0.05, ?_⟩
    · rw [named_recordToRecord]
      exact hstandard.trans hgauge.symm
    · exact RecordToRecord.create_capped (by decide +kernel) (by decide +kernel) hr

/-- Record-to-record travel with a number of steps beyond the range of the reals overflows. -/
theorem named_of_overflow (cost : Cost) (hn : 1 ≤ n) (hrange : ¬ (Quantity.whole n).InRange) :
    named recordToRecordName cost (.whole n) = .error .overflow := by
  have hoverflow : Quantity.toReal? (.whole n) = .error .overflow := by
    unfold Quantity.toReal?
    dsimp only
    split
    · rfl
    · rename_i hfinite
      exact absurd ⟨Float.ofInt n, if_neg hfinite⟩ hrange
  rw [named_recordToRecord, standardRecordToRecord_eq hn, hoverflow]
  rfl

end Steps

end Gauge

end LargeNeighborhood
