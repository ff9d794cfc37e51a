import LargeNeighborhood.Proofs.Number.Monotone
import LargeNeighborhood.Proofs.Number.Nonnegative
import LargeNeighborhood.Proofs.Search.Record
import LargeNeighborhood.Random.Tape

set_option autoImplicit false

/-! # Cheaper candidates are accepted where dearer ones are

Whatever state a built-in criterion is in, a candidate that costs no more than another one is
accepted where that one is, on the same draw, and both leave the criterion in the same state
(`Gauge.judge_favours_cheaper`). For hill climbing this is plain. Annealing divides the gain by the
temperature, cuts the quotient off at zero and takes the exponential, and all three keep the order;
at a temperature that is not positive the probability is a step function of the gain. In
record-to-record travel the gap `(c - b) / c` grows with `c`, since it is `1 - b / c`, and a
candidate that costs nothing is accepted without one.

Quotients are rounded here, and rounding keeps the order of the exact quotients
(`Rounding.nearestRatio_mono`, `Rounding.real_div_le_div`). Costs are whole numbers that a real holds
exactly; for them no decision fails.
-/

namespace LargeNeighborhood

open Rounding

/-! ## Annealing -/

/-- A whole number is divided by a positive real, as a real. -/
theorem Quantity.div?_real {n : ℤ} (hn : n.natAbs ≤ 2 ^ 64) {x : Float} (hx : 0 < x) :
    div? (.whole n) (.real x) = .ok (Float.ofInt n / x) := by
  unfold div?
  simp only [toReal?_whole hn]
  show (if (x == 0) = true then _ else _) = _
  rw [if_neg (not_beq_zero hx)]

namespace Annealing

variable {ω : Type} {exp : Float → Float} {unit : ω → Except Fault Float × ω}

theorem cutOff_mono {x y : Float} (h : x ≤ y) :
    (if x < 0 then x else 0) ≤ if y < 0 then y else 0 := by
  by_cases hy : y < 0
  · rw [if_pos hy, if_pos (real_lt_of_le_of_lt h hy)]
    exact h
  · rw [if_neg hy]
    split_ifs with hx
    · exact real_le_of_lt hx
    · decide

/-- The larger gain has no smaller probability, at every temperature. -/
theorem probability_mono (hmono : ∀ x y, x ≤ y → exp x ≤ exp y) (a : Annealing) {m n : ℤ}
    (hm : m.natAbs ≤ 2 ^ 53) (hn : n.natAbs ≤ 2 ^ 53) (h : m ≤ n) :
    ∃ p q, a.probability exp (.whole m) = .ok p ∧ a.probability exp (.whole n) = .ok q ∧
      p ≤ q := by
  unfold probability
  by_cases hpos : 0 < a.temperature
  · have hdiv : ∀ {k : ℤ}, k.natAbs ≤ 2 ^ 53 →
        Quantity.div? (.whole k) (.real a.temperature) = .ok (Float.ofInt k / a.temperature) :=
      fun hk => Quantity.div?_real (hk.trans (by norm_num)) hpos
    have hquotients : Float.ofInt m / a.temperature ≤ Float.ofInt n / a.temperature :=
      real_div_le_div (worth_ofInt hm) (worth_ofInt hn) (by exact_mod_cast h) hpos
    rw [if_pos hpos, if_pos hpos, hdiv hm, hdiv hn]
    exact ⟨_, _, rfl, rfl, hmono _ _ (cutOff_mono hquotients)⟩
  -- at a temperature of zero only the sign of the gain counts
  · rw [if_neg hpos, if_neg hpos]
    refine ⟨_, _, rfl, rfl, ?_⟩
    rw [if_congr (Quantity.whole_le_whole 0 m) rfl rfl,
      if_congr (Quantity.whole_le_whole 0 n) rfl rfl]
    split_ifs
    · decide
    · omega
    · decide
    · decide

end Annealing

/-! ## Record-to-record travel -/

namespace RecordToRecord

/-- A threshold that is made of reals can always be lowered. -/
theorem Capped.exists_lower_ok {start : Float} {r : RecordToRecord Quantity} (h : r.Capped start) :
    ∃ lowered, r.lower Quantity.sub? = .ok lowered := by
  obtain ⟨t, ht, -⟩ := h.threshold
  obtain ⟨d, hd, -⟩ := h.step
  have hnext : r.threshold.sub? r.step = .ok (.real (t - d)) := by
    rw [ht, hd]
    rfl
  exact exists_bind_ok ⟨_, hnext⟩ fun _ _ => ⟨_, rfl⟩

/-- The gap of the smaller cost is no larger. -/
theorem gap_mono {b c c' : ℤ} (hb : 0 ≤ b) (hc' : 0 < c') (hle : c' ≤ c) :
    nearestRatio (c' - b) c' ≤ nearestRatio (c - b) c := by
  have hc : 0 < c := by omega
  apply nearestRatio_mono hc' hc
  have hpos' : (0 : ℚ) < c' := by exact_mod_cast hc'
  have hpos : (0 : ℚ) < c := by exact_mod_cast hc
  have hb' : (0 : ℚ) ≤ b := by exact_mod_cast hb
  have hle' : (c' : ℚ) ≤ c := by exact_mod_cast hle
  push_cast
  calc ((c' : ℚ) - b) / c' = 1 - b / c' := by rw [sub_div, div_self hpos'.ne']
    _ ≤ 1 - b / c := sub_le_sub_left (div_le_div_of_nonneg_left hb' hpos' hle') 1
    _ = (c - b) / c := by rw [sub_div, div_self hpos.ne']

/-- The cheaper candidate is accepted where the other one is. -/
theorem accepts_mono {r : RecordToRecord Quantity} {t : Float} (ht : r.threshold = .real t)
    {b c c' : ℤ} (hb : 0 ≤ b) (hb' : b < 2 ^ 53) (hc' : 0 ≤ c') (hle : c' ≤ c) (hc : c < 2 ^ 53) :
    ∃ accepted accepted', r.accepts relativeGap (.whole b) (.whole c) = .ok accepted ∧
      r.accepts relativeGap (.whole b) (.whole c') = .ok accepted' ∧
      (accepted = true → accepted' = true) := by
  have hgap : ∀ {k : ℤ}, 0 < k → k ≤ c → r.accepts relativeGap (.whole b) (.whole k) =
      .ok (decide (nearestRatio (k - b) k < t)) := by
    intro k hk hkc
    rw [accepts_eq hk (by omega), ht, decide_eq_decide.mpr Quantity.real_lt_real]
  have hfree : r.accepts relativeGap (.whole b) (.whole 0) = .ok true := rfl
  rcases hc'.eq_or_lt with rfl | hpos
  · -- Nothing is asked of a candidate that costs nothing.
    rcases hle.eq_or_lt with rfl | hpos
    · exact ⟨_, _, hfree, hfree, id⟩
    · exact ⟨_, _, hgap hpos le_rfl, hfree, fun _ => rfl⟩
  · refine ⟨_, _, hgap (by omega) le_rfl, hgap hpos hle, ?_⟩
    rw [decide_eq_true_iff, decide_eq_true_iff]
    exact real_lt_of_le_of_lt (gap_mono hb hpos hle)

end RecordToRecord

/-! ## All built-in criteria -/

namespace Gauge

variable {ω : Type} {exp : Float → Float} {unit : ω → Except Fault Float × ω}

/-- What is known of the numbers that record-to-record travel computes with. -/
def Measured : Gauge → Prop
  | .hillClimbing => True
  | .annealing _ => True
  | .recordToRecord r => ∃ start : Float, r.Capped start

theorem judge_measured {g : Gauge} (h : g.Measured) (best current candidate : Cost) (w : ω) :
    (judge exp unit best current candidate g w).2.1.Measured := by
  cases g with
  | hillClimbing => trivial
  | annealing a => trivial
  | recordToRecord r =>
      obtain ⟨start, hr⟩ := h
      exact ⟨start, RecordToRecord.judge_capped hr rfl⟩

theorem Reachable.measured {g : Gauge} (h : Reachable exp unit g) : g.Measured := by
  induction h with
  | hillClimbing => trivial
  | annealing h => trivial
  | recordToRecord hstart hfinish h => exact ⟨_, RecordToRecord.create_capped hstart hfinish h⟩
  | judged h best current candidate w ih => exact judge_measured ih best current candidate w

/-- On one draw and in one state, a candidate that costs no more is accepted where the other one is,
and the next state is the same. Annealing accepts every candidate that costs no more than the current
solution, at every temperature and on every draw. -/
theorem judge_favours_cheaper (hzero : exp 0 = 1) (hmono : ∀ x y, x ≤ y → exp x ≤ exp y)
    {g : Gauge} (hg : g.Reachable exp unit) {best current candidate cheaper : Cost}
    (hbest : best.IsExact) (hcurrent : current.IsExact) (hcandidate : candidate.IsExact)
    (hcheaper : cheaper.IsExact) (hle : cheaper ≤ candidate) {w w' : ω} {u : Float}
    (hdraw : unit w = (.ok u, w')) (hu : u < 1) :
    ∃ accepted accepted' g' w'',
      judge exp unit best current candidate g w = (.ok accepted, g', w'') ∧
      judge exp unit best current cheaper g w = (.ok accepted', g', w'') ∧
      (accepted = true → accepted' = true) ∧
      (∀ a, g = .annealing a → cheaper ≤ current → accepted' = true) := by
  obtain ⟨b, rfl, hb, hb'⟩ := hbest
  obtain ⟨m, rfl, hm, hm'⟩ := hcurrent
  obtain ⟨c, rfl, hc, hc'⟩ := hcandidate
  obtain ⟨c', rfl, hd, hd'⟩ := hcheaper
  rw [Quantity.whole_le_whole] at hle
  rw [Quantity.whole_le_whole]
  cases g with
  | hillClimbing =>
      refine ⟨_, _, .hillClimbing, w, rfl, rfl, ?_, fun a ha => by cases ha⟩
      rw [decide_eq_true_iff, decide_eq_true_iff, Quantity.whole_lt_whole, Quantity.whole_lt_whole]
      omega
  | annealing a =>
      obtain ⟨p, p', hp, hp', hpp⟩ := a.probability_mono hmono (m := m - c) (n := m - c')
        (by omega) (by omega) (by omega)
      refine ⟨decide (u ≤ p), decide (u ≤ p'), .annealing a.cool, w', ?_, ?_, ?_, ?_⟩
      · simp only [judge, Annealing.judge_eq hdraw hp]
      · simp only [judge, Annealing.judge_eq hdraw hp']
      · rw [decide_eq_true_iff, decide_eq_true_iff]
        exact fun hup => real_le_trans hup hpp
      · intro a' ha' hfree
        rw [decide_eq_true_iff, Annealing.probability_eq_one hzero (by omega) hp']
        exact real_le_of_lt hu
  | recordToRecord r =>
      obtain ⟨start, hr⟩ := hg.measured
      obtain ⟨t, ht, -⟩ := hr.threshold
      obtain ⟨lowered, hlowered⟩ := hr.exists_lower_ok
      obtain ⟨accepted, accepted', haccepts, haccepts', himp⟩ :=
        RecordToRecord.accepts_mono ht hb hb' hd hle hc'
      refine ⟨accepted, accepted', .recordToRecord lowered, w, ?_, ?_, himp, fun a ha => by cases ha⟩
      · simp only [judge, RecordToRecord.judge_eq haccepts hlowered]
      · simp only [judge, RecordToRecord.judge_eq haccepts' hlowered]

/-- Where seven is accepted by a threshold that has been lowered once, so is six; and whatever
becomes of nine at the temperature that annealing starts with, three is accepted in place of four. -/
theorem judge_favours_cheaper_lowered :
    let exp : Float → Float := fun x => if x < 0 then 0 else 1
    let judge := Gauge.judge exp Tape.unit (.whole 5)
    let tape := Tape.ofList [0.25]
    let threshold (t : Float) : Gauge := .recordToRecord ⟨.real 0.5, .real 0, .real 0.125, .real t⟩
    (∃ g' tape', judge (.whole 8) (.whole 7) (threshold 0.375) tape = (.ok true, g', tape') ∧
      judge (.whole 8) (.whole 6) (threshold 0.375) tape = (.ok true, g', tape')) ∧
    ∃ a : Annealing, Annealing.create (.whole 4) (.real 0.5) (.real 0.75) = .ok a ∧
      ∃ accepted g' tape',
        judge (.whole 4) (.whole 9) (.annealing a) tape = (.ok accepted, g', tape') ∧
        judge (.whole 4) (.whole 3) (.annealing a) tape = (.ok true, g', tape') := by
  intro exp judge tape threshold
  have hmono : ∀ x y, x ≤ y → exp x ≤ exp y := by
    intro x y h
    show (if x < 0 then (0 : Float) else 1) ≤ if y < 0 then 0 else 1
    split_ifs with hx hy hy
    · decide
    · decide
    · exact absurd (real_lt_of_le_of_lt h hy) hx
    · decide
  have hexact : ∀ n ∈ [(3 : ℤ), 4, 5, 6, 7, 8, 9], (Quantity.whole n).IsExact := by
    intro n hn
    have hsmall : 0 ≤ n ∧ n < 2 ^ 53 := by
      revert n
      decide
    exact ⟨n, rfl, hsmall⟩
  have hdraw : Tape.unit tape = (.ok 0.25, ⟨#[0.25], 1⟩) := rfl
  have hu : (0.25 : Float) < 1 := by decide +kernel
  constructor
  · have hcreate : RecordToRecord.create (.real 0.5) (.real 0) (.whole 4) =
        .ok ⟨.real 0.5, .real 0, .real 0.125, .real 0.5⟩ := by decide +kernel
    have hg : (threshold 0.5).Reachable exp Tape.unit :=
      .recordToRecord (by decide +kernel) (by decide +kernel) hcreate
    have hlowered : (RecordToRecord.judge Quantity.sub? relativeGap (.whole 5) (.whole 8)
        ⟨.real 0.5, .real 0, .real 0.125, .real 0.5⟩).2 =
          ⟨.real 0.5, .real 0, .real 0.125, .real 0.375⟩ := by decide +kernel
    have hgauge : (judge (.whole 8) (.whole 8) (threshold 0.5) tape).2.1 = threshold 0.375 :=
      congrArg Gauge.recordToRecord hlowered
    have hg' : (threshold 0.375).Reachable exp Tape.unit :=
      hgauge ▸ hg.judged (.whole 5) (.whole 8) (.whole 8) tape
    obtain ⟨accepted, accepted', g', tape', hjudge, hjudge', himp, -⟩ :=
      judge_favours_cheaper rfl hmono hg' (hexact 5 (by decide)) (hexact 8 (by decide))
        (hexact 7 (by decide)) (hexact 6 (by decide)) (by decide) hdraw hu
    have haccepted : (judge (.whole 8) (.whole 7) (threshold 0.375) tape).1 = .ok true := by
      decide +kernel
    have hresult := congrArg Prod.fst hjudge
    cases haccepted.symm.trans hresult
    rw [himp rfl] at hjudge'
    exact ⟨g', tape', hjudge, hjudge'⟩
  · have hcreate : Annealing.create (.whole 4) (.real 0.5) (.real 0.75) = .ok _ := rfl
    obtain ⟨accepted, accepted', g', tape', hjudge, hjudge', -, hfree⟩ :=
      judge_favours_cheaper rfl hmono (.annealing hcreate) (hexact 5 (by decide))
        (hexact 4 (by decide)) (hexact 9 (by decide)) (hexact 3 (by decide)) (by decide) hdraw hu
    rw [hfree _ rfl (by decide)] at hjudge'
    exact ⟨_, hcreate, accepted, g', tape', hjudge, hjudge'⟩

end Gauge

end LargeNeighborhood
