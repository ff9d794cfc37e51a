import LargeNeighborhood.Proofs.Number.Arithmetic
import LargeNeighborhood.Proofs.Search.Best
import LargeNeighborhood.Search.Gauge

set_option autoImplicit false

/-! # No improvement is lost

The built-in criteria accept whatever is cheaper than the best solution so far, in whatever state
they are: hill climbing because the current solution costs no less than the best one, annealing
because its exponent is cut off at zero, and record-to-record travel because a threshold is never
negative while the gap of an improvement is (`Gauge.judge_accepts`). So a run under one of them
returns a solution that costs as much as the cheapest candidate it has seen.

Costs are whole numbers that a real holds exactly.
-/

namespace LargeNeighborhood

open Rounding

namespace Quantity

/-- A whole number that is not negative and has at most 53 bits. -/
def IsExact (q : Quantity) : Prop := ∃ n : ℤ, q = .whole n ∧ 0 ≤ n ∧ n < 2 ^ 53

theorem IsExact.isWhole {q : Quantity} (h : q.IsExact) : q.isWhole = true := by
  obtain ⟨n, rfl, -, -⟩ := h
  rfl

/-- Whole numbers of 64 bits have a quotient. -/
theorem div?_whole {a b : ℤ} (ha : a.natAbs ≤ 2 ^ 64) (hb : 0 < b) :
    div? (.whole a) (.whole b) = .ok (nearestRatio a b) := by
  unfold div?
  dsimp only
  rw [if_neg hb.ne', isInf_nearestRatio ha hb]
  rfl

/-- A difference of two reals is a real. -/
theorem sub?_real {x : Float} {q r : Quantity} (h : (Quantity.real x).sub? q = .ok r) :
    ∃ y, r = .real y := by
  cases q <;>
    obtain ⟨a, -, h⟩ := bind_eq_ok.mp h <;>
    obtain ⟨b, -, h⟩ := bind_eq_ok.mp h <;>
    cases h <;>
    exact ⟨_, rfl⟩

end Quantity

/-! ## Annealing -/

namespace Annealing

variable {ω : Type} {exp : Float → Float} {unit : ω → Except Fault Float × ω}

/-- What costs no more is accepted with probability one, at every temperature. -/
theorem probability_eq_one (hexp : exp 0 = 1) {a : Annealing} {n : ℤ} (hn : 0 ≤ n) {p : Float}
    (h : a.probability exp (.whole n) = .ok p) : p = 1 := by
  unfold probability at h
  by_cases hpos : 0 < a.temperature
  · rw [if_pos hpos] at h
    obtain ⟨x, hx, h⟩ := bind_eq_ok.mp h
    obtain ⟨gain, hgain, hx⟩ := bind_eq_ok.mp hx
    obtain ⟨t, ht, hx⟩ := bind_eq_ok.mp hx
    cases ht
    have hgain' : gain = Float.ofInt n := Quantity.toReal?_eq_ofInt hgain
    split at hx
    · cases hx
    · cases hx
      -- So the exponent is cut off at zero.
      have hnonneg : ¬ gain / a.temperature < 0 := by
        rw [hgain']
        exact not_div_lt_zero (not_lt_zero_iff.mpr (hasSign_ofInt hn).unsigned)
          (real_not_le_of_lt hpos)
      rw [if_neg hnonneg, hexp] at h
      cases h
      rfl
  · rw [if_neg hpos, if_pos ((Quantity.whole_le_whole 0 n).mpr hn)] at h
    cases h
    rfl

/-- Annealing accepts a candidate when the draw is at most the probability of its gain, and cools
down. -/
theorem judge_eq {a : Annealing} {m n : ℤ} {u p : Float} {w w' : ω}
    (hdraw : unit w = (.ok u, w')) (hp : a.probability exp (.whole (m - n)) = .ok p) :
    a.judge exp unit (.whole m) (.whole n) w = (.ok (decide (u ≤ p)), a.cool, w') := by
  unfold judge
  rw [Quantity.sub?_whole_whole]
  dsimp only
  rw [hdraw, hp]
  rfl

theorem judge_accepts (hexp : exp 0 = 1)
    (hunit : ∀ w u w', unit w = (.ok u, w') → 0 ≤ u ∧ u < 1) {a a' : Annealing} {w w' : ω}
    {m n : ℤ} (hle : n ≤ m) {accepted : Bool}
    (h : a.judge exp unit (.whole m) (.whole n) w = (.ok accepted, a', w')) : accepted = true := by
  unfold judge at h
  rw [Quantity.sub?_whole_whole] at h
  dsimp only at h
  split at h
  · cases h
  · rename_i decided hdecided
    cases h
    obtain ⟨u, hu, hdecided⟩ := bind_eq_ok.mp hdecided
    obtain ⟨p, hp, hdecided⟩ := map_eq_ok.mp hdecided
    have hone := probability_eq_one hexp (by omega) hp
    have hbound := hunit w u _ (Prod.ext hu rfl)
    -- Every draw is below one.
    rw [← hdecided, hone, decide_eq_true_iff]
    exact real_le_of_lt hbound.2

end Annealing

/-! ## Record-to-record travel -/

namespace RecordToRecord

/-- A threshold that is a real and is not negative, now and at its finish. -/
structure Sound (r : RecordToRecord Quantity) : Prop where
  threshold : ∃ t : Float, r.threshold = .real t ∧ 0 ≤ t
  finish : ∃ f : Float, r.finish = .real f ∧ 0 ≤ f

/-- Settings that make a threshold are in order, and its step is the difference of its start and its
finish divided by the number of steps. -/
theorem create_ok {start finish steps : Quantity} {r : RecordToRecord Quantity}
    (h : create start finish steps = .ok r) :
    ¬ steps ≤ Quantity.whole 0 ∧ ¬ finish < Quantity.whole 0 ∧ ¬ start < finish ∧
      ∃ fall step, start.sub? finish = .ok fall ∧ fall.div? steps = .ok step ∧
        r = ⟨start, finish, .real step, start⟩ := by
  unfold create at h
  by_cases hsteps : steps ≤ Quantity.whole 0
  · rw [if_pos hsteps] at h
    cases h
  rw [if_neg hsteps] at h
  by_cases hnonneg : finish < Quantity.whole 0
  · rw [if_pos hnonneg] at h
    cases h
  rw [if_neg hnonneg] at h
  by_cases hfalling : start < finish
  · rw [if_pos hfalling] at h
    cases h
  rw [if_neg hfalling] at h
  obtain ⟨fall, hfall, h⟩ := bind_eq_ok.mp h
  obtain ⟨ratio, hratio, h⟩ := bind_eq_ok.mp h
  obtain ⟨step, hstep, hreal⟩ := bind_eq_ok.mp hratio
  cases hreal
  cases h
  exact ⟨hsteps, hnonneg, hfalling, fall, step, hfall, hstep, rfl⟩

theorem create_sound {start finish : Float} {steps : Quantity} {r : RecordToRecord Quantity}
    (hstart : start.isFinite = true) (hfinish : finish.isFinite = true)
    (h : create (.real start) (.real finish) steps = .ok r) : r.Sound := by
  obtain ⟨-, hnonneg, hfalling, fall, step, -, -, rfl⟩ := create_ok h
  rw [Quantity.real_lt_real] at hfalling
  obtain ⟨p, hp⟩ := worth_of_isFinite hstart
  obtain ⟨q, hq⟩ := worth_of_isFinite hfinish
  have hzero := Quantity.zero_le_of_not_lt hfinish hnonneg
  exact ⟨⟨start, rfl, real_le_trans hzero (real_le_of_not_lt hp hq hfalling)⟩, finish, rfl, hzero⟩

/-- Lowering a threshold keeps it from becoming negative. -/
theorem lower_sound {r lowered : RecordToRecord Quantity} (hr : r.Sound)
    (h : r.lower Quantity.sub? = .ok lowered) : lowered.Sound := by
  obtain ⟨f, hf, hf0⟩ := hr.finish
  obtain ⟨t, ht, -⟩ := hr.threshold
  obtain ⟨next, hnext, h⟩ := bind_eq_ok.mp h
  cases h
  refine ⟨?_, f, hf, hf0⟩
  rw [ht] at hnext
  obtain ⟨y, rfl⟩ := Quantity.sub?_real hnext
  by_cases hlt : r.finish < Quantity.real y
  · rw [hf, Quantity.real_lt_real] at hlt
    refine ⟨y, ?_, real_le_trans hf0 (real_le_of_lt hlt)⟩
    simp only [hf, Quantity.real_lt_real, hlt, if_true]
  · exact ⟨f, by rw [← hf, if_neg hlt], hf0⟩

/-- What lowering keeps of a threshold holds of it after a decision. -/
theorem judge_keeps {P : RecordToRecord Quantity → Prop} {r r' : RecordToRecord Quantity}
    {best candidate : Cost} {result : Except Fault Bool} (hr : P r)
    (hlower : ∀ lowered, r.lower Quantity.sub? = .ok lowered → P lowered)
    (h : r.judge Quantity.sub? relativeGap best candidate = (result, r')) : P r' := by
  unfold judge at h
  split at h
  · rename_i hlowered
    cases h
    exact hlower _ hlowered
  · cases h
    exact hr
  · cases h
    exact hr

theorem judge_sound {r r' : RecordToRecord Quantity} {best candidate : Cost}
    {result : Except Fault Bool} (hr : r.Sound)
    (h : r.judge Quantity.sub? relativeGap best candidate = (result, r')) : r'.Sound :=
  judge_keeps hr (fun _ hlowered => lower_sound hr hlowered) h

/-- A decision is taken with the threshold in front of it. -/
theorem accepts_of_judge {r r' : RecordToRecord Quantity} {best candidate : Cost}
    {accepted : Bool}
    (h : r.judge Quantity.sub? relativeGap best candidate = (.ok accepted, r')) :
    r.accepts relativeGap best candidate = .ok accepted := by
  unfold judge at h
  split at h
  · rename_i haccepted _
    cases h
    exact haccepted
  · cases h
  · cases h

/-- The gap of a whole cost is the real nearest to its share. -/
theorem relativeGap_whole {b c : ℤ} {gap : Quantity}
    (h : relativeGap (.whole b) (.whole c) = .ok gap) : gap = .real (nearestRatio (c - b) c) := by
  obtain ⟨d, hd, h⟩ := bind_eq_ok.mp h
  rw [Quantity.sub?_whole_whole] at hd
  cases hd
  obtain ⟨x, hx, h⟩ := bind_eq_ok.mp h
  cases h
  unfold Quantity.div? at hx
  dsimp only at hx
  split at hx
  · cases hx
  split at hx
  · cases hx
  · cases hx
    rfl

/-- Costs of 64 bits have a gap. -/
theorem relativeGap_ok {b c : ℤ} (hc : 0 < c) (hsmall : (c - b).natAbs ≤ 2 ^ 64) :
    relativeGap (.whole b) (.whole c) = .ok (.real (nearestRatio (c - b) c)) := by
  show Except.bind (Quantity.div? (.whole (c - b)) (.whole c)) _ = _
  rw [Quantity.div?_whole hsmall hc]
  rfl

/-- For a candidate that costs something, the gap is compared with the threshold. -/
theorem accepts_eq {r : RecordToRecord Quantity} {b c : ℤ} (hc : 0 < c)
    (hsmall : (c - b).natAbs ≤ 2 ^ 64) : r.accepts relativeGap (.whole b) (.whole c) =
      .ok (decide (Quantity.real (nearestRatio (c - b) c) < r.threshold)) := by
  unfold accepts
  rw [if_neg (by rw [Quantity.same_whole_whole]; exact hc.ne'), relativeGap_ok hc hsmall]
  rfl

theorem judge_eq {r lowered : RecordToRecord Quantity} {best candidate : Cost} {accepted : Bool}
    (haccepts : r.accepts relativeGap best candidate = .ok accepted)
    (hlower : r.lower Quantity.sub? = .ok lowered) :
    r.judge Quantity.sub? relativeGap best candidate = (.ok accepted, lowered) := by
  unfold judge
  rw [haccepts, hlower]

/-- The gap of an improvement is negative. -/
theorem relativeGap_lt_zero {b c : ℤ} (hc : 0 < c) (hlt : c < b) (hsmall : c < 2 ^ 53)
    {gap : Quantity} (h : relativeGap (.whole b) (.whole c) = .ok gap) :
    ∃ x, gap = .real x ∧ x < 0 := by
  refine ⟨_, relativeGap_whole h, nearestRatio_lt_zero (by omega) hc ?_⟩
  exact hsmall.le.trans (pow_le_pow_right₀ (by norm_num) (by norm_num))

theorem judge_accepts {r r' : RecordToRecord Quantity} {b c : ℤ} (hr : r.Sound) (hc : 0 ≤ c)
    (hlt : c < b) (hsmall : c < 2 ^ 53) {accepted : Bool}
    (h : r.judge Quantity.sub? relativeGap (.whole b) (.whole c) = (.ok accepted, r')) :
    accepted = true := by
  have haccepts := accepts_of_judge h
  unfold accepts at haccepts
  -- A candidate that costs nothing has no relative gap, and is accepted without one.
  by_cases hzero : c = 0
  · rw [if_pos ((Quantity.same_whole_whole c 0).mpr hzero)] at haccepts
    cases haccepts
    rfl
  · rw [if_neg (by rw [Quantity.same_whole_whole]; exact hzero)] at haccepts
    obtain ⟨gap, hgap, haccepts⟩ := map_eq_ok.mp haccepts
    obtain ⟨x, rfl, hx⟩ := relativeGap_lt_zero (by omega) hlt hsmall hgap
    obtain ⟨t, ht, ht0⟩ := hr.threshold
    rw [← haccepts, ht, decide_eq_true_iff, Quantity.real_lt_real]
    exact real_lt_of_lt_of_le hx ht0

end RecordToRecord

/-! ## Gauges -/

namespace Gauge

variable {σ ω : Type} {exp : Float → Float} {unit : ω → Except Fault Float × ω}

/-- A built-in criterion in one of its states: as it was made from valid settings, or after a
decision. -/
inductive Reachable (exp : Float → Float) (unit : ω → Except Fault Float × ω) : Gauge → Prop
  | hillClimbing : Reachable exp unit .hillClimbing
  | annealing {initial start rate : Quantity} {a : Annealing}
      (h : Annealing.create initial start rate = .ok a) : Reachable exp unit (.annealing a)
  | recordToRecord {start finish : Float} {steps : Quantity} {r : RecordToRecord Quantity}
      (hstart : start.isFinite = true) (hfinish : finish.isFinite = true)
      (h : RecordToRecord.create (.real start) (.real finish) steps = .ok r) :
      Reachable exp unit (.recordToRecord r)
  | judged {g : Gauge} (h : Reachable exp unit g) (best current candidate : Cost) (w : ω) :
      Reachable exp unit (judge exp unit best current candidate g w).2.1

/-- What all states of the built-in criteria have in common: a threshold, where there is one, is
sound. -/
def Sound : Gauge → Prop
  | .hillClimbing => True
  | .annealing _ => True
  | .recordToRecord r => r.Sound

theorem judge_sound (exp : Float → Float) (unit : ω → Except Fault Float × ω) {g : Gauge}
    (h : g.Sound) (best current candidate : Cost) (w : ω) :
    (judge exp unit best current candidate g w).2.1.Sound := by
  cases g with
  | hillClimbing => trivial
  | annealing a => trivial
  | recordToRecord r => exact RecordToRecord.judge_sound h rfl

theorem Reachable.sound {g : Gauge} (h : Reachable exp unit g) : g.Sound := by
  induction h with
  | hillClimbing => trivial
  | annealing h => trivial
  | recordToRecord hstart hfinish h => exact RecordToRecord.create_sound hstart hfinish h
  | judged h best current candidate w ih => exact judge_sound exp unit ih best current candidate w

/-- A candidate that is cheaper than the best solution is accepted. -/
theorem judge_accepts (hexp : exp 0 = 1)
    (hunit : ∀ w u w', unit w = (.ok u, w') → 0 ≤ u ∧ u < 1) {g g' : Gauge} (hg : g.Sound)
    {best current candidate : Cost} (hbest : best.IsExact) (hcurrent : current.IsExact)
    (hcandidate : candidate.IsExact) (hlt : candidate < best) (hle : best ≤ current)
    {w w' : ω} {accepted : Bool}
    (h : judge exp unit best current candidate g w = (.ok accepted, g', w')) :
    accepted = true := by
  obtain ⟨b, rfl, -, -⟩ := hbest
  obtain ⟨m, rfl, -, -⟩ := hcurrent
  obtain ⟨c, rfl, hc, hsmall⟩ := hcandidate
  rw [Quantity.whole_lt_whole] at hlt
  rw [Quantity.whole_le_whole] at hle
  cases g with
  | hillClimbing =>
      cases h
      rw [decide_eq_true_iff, Quantity.whole_lt_whole]
      omega
  | annealing a =>
      rcases hjudge : a.judge exp unit (.whole m) (.whole c) w with ⟨result, a', w''⟩
      simp only [judge, hjudge] at h
      cases h
      exact Annealing.judge_accepts hexp hunit (by omega) hjudge
  | recordToRecord r =>
      rcases hjudge : r.judge Quantity.sub? relativeGap (.whole b) (.whole c) with ⟨result, r'⟩
      simp only [judge, hjudge] at h
      cases h
      exact RecordToRecord.judge_accepts hg hc hlt hsmall hjudge

end Gauge

/-! ## Runs -/

variable {σ κ ω : Type} [BEq κ] {exp : Float → Float} {unit : ω → Except Fault Float × ω}

/-- What every decision keeps of a gauge holds at the end of a course. -/
theorem Course.gauge_keeps {P : Gauge → Prop}
    (hkeeps : ∀ g best current candidate w, P g →
      P (Gauge.judge exp unit best current candidate g w).2.1)
    {s : Setting σ κ ω Gauge (Option Quantity) Float}
    {first w : Walk σ κ ω Gauge (Option Quantity) Float}
    {done : List (Stage σ κ ω Gauge (Option Quantity) Float)} (h : Course s first done w)
    (hcriterion : s.criterion = Gauge.criterion exp unit) (hfirst : P first.gauge) :
    P w.gauge := by
  induction h with
  | start => exact hfirst
  | @step done w st h hst ih =>
      obtain ⟨hbefore, hsound⟩ := Walk.stage_ok hst
      obtain ⟨opened, w₁, w₂, w₃, -, -, hjudge⟩ := hsound.made
      rw [hcriterion] at hjudge
      have hgauge := hkeeps st.before.gauge st.before.best.cost st.before.current.cost
        st.turn.candidate.cost w₃ (hbefore ▸ ih)
      have heq : (Gauge.judge exp unit st.before.best.cost st.before.current.cost
          st.turn.candidate.cost st.before.gauge w₃).2.1 = st.after.gauge :=
        congrArg (fun result => result.2.1) hjudge
      exact heq ▸ hgauge

theorem Course.gauge_sound {s : Setting σ κ ω Gauge (Option Quantity) Float}
    {first w : Walk σ κ ω Gauge (Option Quantity) Float}
    {done : List (Stage σ κ ω Gauge (Option Quantity) Float)} (h : Course s first done w)
    (hcriterion : s.criterion = Gauge.criterion exp unit) (hfirst : first.gauge.Sound) :
    w.gauge.Sound := by
  refine h.gauge_keeps (P := Gauge.Sound) ?_ hcriterion hfirst
  intro g best current candidate w hg
  exact Gauge.judge_sound exp unit hg best current candidate w

omit [BEq κ] in
/-- What is visited on the way costs whole numbers that reals hold exactly. -/
theorem visitedOf_isExact {start : Rated σ}
    {done : List (Stage σ κ ω Gauge (Option Quantity) Float)}
    (hstart : start.cost.IsExact) (hdone : ∀ st ∈ done, st.turn.candidate.cost.IsExact) :
    ∀ x ∈ visitedOf start done, x.cost.IsExact := by
  intro x hx
  rcases List.mem_cons.mp hx with rfl | hx
  · exact hstart
  · obtain ⟨st, hst, -, rfl⟩ := mem_acceptedOf.mp hx
    exact hdone st hst

namespace Solver

variable {s : Solver σ κ ω Gauge (Option Quantity)} {initial : σ} {r : Request} {gauge : Gauge}
  {world : ω} {best : Rated σ}

/-- The initial solution and all candidates of a run cost whole numbers that reals hold
exactly. -/
structure CostsExact (s : Solver σ κ ω Gauge (Option Quantity)) (initial : σ) (r : Request)
    (gauge : Gauge) (world : ω) : Prop where
  start : ∀ c, s.landscape.cost initial = .ok c → c.IsExact
  candidates : ∀ st ∈ s.stages initial r gauge world, st.turn.candidate.cost.IsExact

theorem CostsExact.whole (h : s.CostsExact initial r gauge world) :
    s.CostsWhole initial r gauge world where
  start c hc := (h.start c hc).isWhole
  candidates st hst := (h.candidates st hst).isWhole

theorem CostsExact.visited (h : s.CostsExact initial r gauge world)
    {done rest : List (Stage σ κ ω Gauge (Option Quantity) Float)}
    (hstages : s.stages initial r gauge world = done ++ rest) {start : Rated σ}
    (hstart : s.landscape.cost initial = .ok start.cost) :
    ∀ x ∈ visitedOf start done, x.cost.IsExact := by
  apply visitedOf_isExact (h.start _ hstart)
  intro st hst
  exact h.candidates st (by rw [hstages]; exact List.mem_append_left _ hst)

/-- A candidate that is cheaper than the best solution so far becomes the best solution. -/
theorem Completed.improves {setting : Setting σ κ ω Gauge (Option Quantity) Float}
    {first last : Walk σ κ ω Gauge (Option Quantity) Float} {n : Nat}
    (h : s.Completed initial r gauge world best setting first last n) (hexp : exp 0 = 1)
    (hunit : ∀ w u w', unit w = (.ok u, w') → 0 ≤ u ∧ u < 1)
    (hcriterion : s.criterion = Gauge.criterion exp unit) (hgauge : gauge.Sound)
    (hexact : s.CostsExact initial r gauge world)
    {done rest : List (Stage σ κ ω Gauge (Option Quantity) Float)}
    {st : Stage σ κ ω Gauge (Option Quantity) Float}
    (hstages : s.stages initial r gauge world = done ++ st :: rest)
    (hlt : st.turn.candidate.cost < st.before.best.cost) :
    st.turn.accepted = true ∧ st.after.best = st.turn.candidate := by
  obtain ⟨hbefore, hkept, -, hsound⟩ := h.split hexact.whole hstages
  have hcriterion' : setting.criterion = Gauge.criterion exp unit := h.criterion.trans hcriterion
  have hstate := hbefore.gauge_sound hcriterion' (h.startGauge ▸ hgauge)
  have hvisited := hexact.visited hstages h.cost
  have hcandidate := hexact.candidates st (by rw [hstages]; simp)
  obtain ⟨opened, w₁, w₂, w₃, -, -, hjudge⟩ := hsound.made
  rw [hcriterion'] at hjudge
  have haccepted : st.turn.accepted = true :=
    Gauge.judge_accepts hexp hunit hstate (hvisited _ hkept.best.mem) (hvisited _ hkept.current)
      hcandidate hlt hkept.best_le_current hjudge
  have hcurrent := hsound.current
  rw [if_pos haccepted] at hcurrent
  have hbest := hsound.best
  rw [hcurrent, if_pos hlt] at hbest
  exact ⟨haccepted, hbest⟩

/-- Under a built-in criterion no candidate of a run is cheaper than the solution returned. -/
theorem Completed.best_le_candidate {setting : Setting σ κ ω Gauge (Option Quantity) Float}
    {first last : Walk σ κ ω Gauge (Option Quantity) Float} {n : Nat}
    (h : s.Completed initial r gauge world best setting first last n) (hexp : exp 0 = 1)
    (hunit : ∀ w u w', unit w = (.ok u, w') → 0 ≤ u ∧ u < 1)
    (hcriterion : s.criterion = Gauge.criterion exp unit) (hgauge : gauge.Sound)
    (hexact : s.CostsExact initial r gauge world)
    (hbest : EarliestCheapest best (visitedOf first.best (s.stages initial r gauge world)))
    (hwhole : best.cost.isWhole) {st : Stage σ κ ω Gauge (Option Quantity) Float}
    (hst : st ∈ s.stages initial r gauge world) : best.cost ≤ st.turn.candidate.cost := by
  obtain ⟨done, rest, hstages⟩ := List.append_of_mem hst
  have hcandidate := hexact.whole.candidates st hst
  by_cases hlt : st.turn.candidate.cost < st.before.best.cost
  · -- It was accepted, so that the run has visited it.
    have haccepted := (h.improves hexp hunit hcriterion hgauge hexact hstages hlt).1
    exact hbest.cost_le hwhole
      (List.mem_cons_of_mem _ (mem_acceptedOf.mpr ⟨st, hst, haccepted, rfl⟩))
  · -- The best solution in front of it, which is no more expensive, has been visited.
    obtain ⟨-, hkept, -, -⟩ := h.split hexact.whole hstages
    have hseen : st.before.best ∈ visitedOf first.best (s.stages initial r gauge world) := by
      rw [hstages, visitedOf_append]
      exact List.mem_append_left _ hkept.best.mem
    exact Quantity.le_trans_of_isWhole hwhole hkept.best_isWhole hcandidate
      (hbest.cost_le hwhole hseen)
      ((Quantity.not_lt_of_isWhole hcandidate hkept.best_isWhole).mp hlt)

/-- Under a built-in criterion every candidate that is cheaper than the best solution so far is
accepted and becomes the best one in the same iteration, so that the solution returned costs as
much as the cheapest of the initial solution and all candidates. -/
theorem run_loses_no_improvement (hexp : exp 0 = 1)
    (hunit : ∀ w u w', unit w = (.ok u, w') → 0 ≤ u ∧ u < 1)
    (hcriterion : s.criterion = Gauge.criterion exp unit) (hgauge : gauge.Reachable exp unit)
    (hexact : s.CostsExact initial r gauge world)
    (hrun : (s.run initial r gauge world).result = .ok best) :
    (∀ st ∈ s.stages initial r gauge world, st.turn.candidate.cost < st.before.best.cost →
      st.turn.accepted = true ∧ st.after.best = st.turn.candidate) ∧
    ∃ c, s.landscape.cost initial = .ok c ∧
      best.cost ∈ c :: (s.history initial r gauge world).map Entry.candidate ∧
      ∀ c' ∈ c :: (s.history initial r gauge world).map Entry.candidate, best.cost ≤ c' := by
  obtain ⟨setting, first, last, n, h⟩ := run_ok hrun
  have hlast := h.kept hexact.whole h.course (List.append_nil _).symm
  have hbest : EarliestCheapest best (visitedOf first.best (s.stages initial r gauge world)) := by
    rw [← h.returned]
    exact hlast.best
  have hwhole : best.cost.isWhole = true := hlast.whole _ hbest.mem
  have hcandidates : (s.history initial r gauge world).map Entry.candidate =
      (s.stages initial r gauge world).map fun st => st.turn.candidate.cost :=
    h.map_history fun st i hsound => by rw [hsound.entry]
  refine ⟨?_, first.best.cost, h.cost, ?_, ?_⟩
  · intro st hst hlt
    obtain ⟨done, rest, hstages⟩ := List.append_of_mem hst
    exact h.improves hexp hunit hcriterion hgauge.sound hexact hstages hlt
  · rw [hcandidates]
    rcases List.mem_cons.mp hbest.mem with heq | hmem
    · rw [heq]
      exact List.mem_cons_self ..
    · obtain ⟨st, hst, -, heq⟩ := mem_acceptedOf.mp hmem
      exact List.mem_cons_of_mem _ (List.mem_map.mpr ⟨st, hst, congrArg Rated.cost heq⟩)
  · rw [hcandidates]
    intro c hc
    rcases List.mem_cons.mp hc with rfl | hc
    · exact hbest.cost_le hwhole List.mem_cons_self
    · obtain ⟨st, hst, rfl⟩ := List.mem_map.mp hc
      exact h.best_le_candidate hexp hunit hcriterion hgauge.sound hexact hbest hwhole hst

theorem CostsExact.of_costs (costs : List ℤ) (hcosts : ∀ n ∈ costs, 0 ≤ n ∧ n < 2 ^ 53)
    (hstart : ∃ n ∈ costs, s.landscape.cost initial = .ok (.whole n))
    (hstages : ∀ q ∈ (s.stages initial r gauge world).map fun st => st.turn.candidate.cost,
      ∃ n ∈ costs, q = .whole n) : s.CostsExact initial r gauge world where
  start c hc := by
    obtain ⟨n, hn, hcost⟩ := hstart
    rw [hcost] at hc
    cases hc
    exact ⟨n, rfl, hcosts n hn⟩
  candidates st hst := by
    obtain ⟨n, hn, hcost⟩ := hstages _ (List.mem_map.mpr ⟨st, hst, rfl⟩)
    exact ⟨n, hcost, hcosts n hn⟩

/-- Record-to-record travel takes the third candidate, which is the cheapest, and not the last
one. -/
theorem run_loses_no_improvement_scripted :
    let exp : Float → Float := fun x => if x == 0 then 1 else x.exp
    let unit : List Nat → Except Fault Float × List Nat := fun script => (.ok 0.5, script)
    let start : Gauge := .recordToRecord ⟨.real 0.5, .real 0, .real 0.125, .real 0.5⟩
    let s := scripted (Gauge.criterion exp unit)
    RecordToRecord.create (.real 0.5) (.real 0) (.whole 4) =
        .ok ⟨.real 0.5, .real 0, .real 0.125, .real 0.5⟩ ∧
      (s.run 80 fourIterations start [52, 57, 31, 58]).result = .ok ⟨31, .whole 3⟩ ∧
      (s.history 80 fourIterations start [52, 57, 31, 58]).map Entry.move =
        [.newBest, .accepted, .newBest, .rejected] ∧
      ∃ c, s.landscape.cost 80 = .ok c ∧
        ∀ c' ∈ c :: (s.history 80 fourIterations start [52, 57, 31, 58]).map Entry.candidate,
          Quantity.whole 3 ≤ c' := by
  intro exp unit start s
  have hcreate : RecordToRecord.create (.real 0.5) (.real 0) (.whole 4) =
      .ok ⟨.real 0.5, .real 0, .real 0.125, .real 0.5⟩ := by decide +kernel
  have hrun : (s.run 80 fourIterations start [52, 57, 31, 58]).result = .ok ⟨31, .whole 3⟩ := by
    decide +kernel
  have hunit : ∀ w u w', unit w = (.ok u, w') → 0 ≤ u ∧ u < 1 := by
    intro w u w' h
    cases h
    decide +kernel
  have hgauge : start.Reachable exp unit :=
    .recordToRecord (by decide +kernel) (by decide +kernel) hcreate
  have hexact : s.CostsExact 80 fourIterations start [52, 57, 31, 58] :=
    .of_costs [8, 5, 3] (by decide) (by decide +kernel) (by decide +kernel)
  obtain ⟨-, c, hc, -, hleast⟩ := run_loses_no_improvement rfl hunit rfl hgauge hexact hrun
  exact ⟨hcreate, hrun, by decide +kernel, c, hc, hleast⟩

end Solver

end LargeNeighborhood
