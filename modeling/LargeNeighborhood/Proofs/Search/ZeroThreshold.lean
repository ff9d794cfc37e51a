import LargeNeighborhood.Proofs.Search.Continuation
import LargeNeighborhood.Proofs.Search.Descent
import LargeNeighborhood.Proofs.Search.Lockstep
import LargeNeighborhood.Proofs.Search.Record

set_option autoImplicit false

/-! # Record-to-record travel without tolerance

With thresholds of zero, record-to-record travel accepts a candidate if its gap to the best cost is
negative, and hill climbing accepts one that is cheaper than the current solution. Under hill
climbing the current solution is the best one (`Course.climbing`), and for positive whole costs of
53 bits the rounded gap is negative just when the candidate is cheaper
(`RecordToRecord.AtZero.judge_eq`). So the two criteria take the same decisions in lockstep, and
their runs differ in what the history shows of the gauge only (`Solver.run_zero_threshold`).
-/

namespace LargeNeighborhood

open Rounding

/-- A positive whole number of at most 53 bits. -/
def Quantity.IsPrice (q : Quantity) : Prop := ∃ n : ℤ, q = .whole n ∧ 0 < n ∧ n < 2 ^ 53

instance (q : Quantity) : Decidable q.IsPrice :=
  match q with
  | .whole n => decidable_of_iff (0 < n ∧ n < 2 ^ 53) (by simp [Quantity.IsPrice])
  | .real _ => isFalse (by simp [Quantity.IsPrice])

/-! ## Thresholds of zero -/

namespace RecordToRecord

/-- A threshold that is zero and stays so, whatever its steps. -/
structure AtZero (r : RecordToRecord Quantity) : Prop where
  threshold : r.threshold = .whole 0
  finish : r.finish = .whole 0
  step : ∃ d : Float, r.step = .real d ∧ ¬ d < 0

/-- Nothing divided up into steps is nothing. -/
theorem exists_div_zero {steps : Quantity} (hpos : ¬ steps ≤ Quantity.whole 0) :
    ∃ d, Quantity.div? (.whole 0) steps = .ok d ∧ ¬ d < 0 := by
  cases steps with
  | whole n =>
      rw [Quantity.whole_le_whole] at hpos
      have hn : 0 < n := by omega
      exact ⟨nearestRatio 0 n, Quantity.div?_whole (Nat.zero_le _) hn,
        not_lt_zero_iff.mpr (unsigned_nearestRatio le_rfl hn)⟩
  | real x =>
      have hx : ¬ x ≤ 0 := fun hle => hpos (Quantity.le_iff_amount.mpr (le_iff.mp hle))
      have hne : ¬ (x == 0) = true := by
        intro heq
        apply hx
        rw [le_iff_compare, beq_iff_compare.mp heq]
        rfl
      refine ⟨Float.ofInt 0 / x, ?_, not_div_lt_zero (by decide) hx⟩
      have hzero : Quantity.toReal? (.whole 0) = .ok (Float.ofInt 0) := rfl
      unfold Quantity.div?
      simp only [hzero]
      show (if (x == 0) = true then _ else _) = _
      rw [if_neg hne]

theorem exists_create_atZero {steps : Quantity} (hsteps : Quantity.whole 1 ≤ steps) :
    ∃ r, create (.whole 0) (.whole 0) steps = .ok r ∧ r.AtZero := by
  have hpos : ¬ steps ≤ Quantity.whole 0 := by
    intro hle
    obtain ⟨p, q, hp, hq, hpq⟩ := Quantity.le_iff_amount.mp hsteps
    obtain ⟨q', p', hq', hp', hqp⟩ := Quantity.le_iff_amount.mp hle
    cases hp
    cases hp'
    cases hq.symm.trans hq'
    exact absurd (exactly_le_exactly.mp (hpq.trans hqp)) (by norm_num)
  obtain ⟨d, hd, hd0⟩ := exists_div_zero hpos
  have hcreate : create (.whole 0) (.whole 0) steps =
      .ok ⟨.whole 0, .whole 0, .real d, .whole 0⟩ := by
    unfold create
    rw [if_neg hpos, if_neg (by decide), if_neg (by decide)]
    show Except.bind (Except.bind (Quantity.div? (.whole 0) steps) _) _ = _
    rw [hd]
    rfl
  exact ⟨_, hcreate, rfl, rfl, d, rfl, hd0⟩

/-- Lowering a threshold of zero leaves it where it is. -/
theorem AtZero.lower {r : RecordToRecord Quantity} (h : r.AtZero) :
    ∃ lowered, r.lower Quantity.sub? = .ok lowered ∧ lowered.AtZero := by
  obtain ⟨d, hd, hd0⟩ := h.step
  have hnext : Quantity.sub? r.threshold r.step = .ok (.real (Float.ofInt 0 - d)) := by
    rw [h.threshold, hd]
    rfl
  -- The step is not negative, so the lowered threshold is not above the finish.
  have hbelow : ¬ r.finish < Quantity.real (Float.ofInt 0 - d) := by
    intro hlt
    rw [h.finish] at hlt
    obtain ⟨p, q, hp, hq, hpq⟩ := Quantity.lt_iff_amount.mp hlt
    have hlt : Float.ofInt 0 < Float.ofInt 0 - d := lt_iff.mpr ⟨p, q, hp, hq, hpq⟩
    exact real_not_le_of_lt hlt (real_sub_le_self (by decide) hd0 hlt)
  refine ⟨{ r with threshold := r.finish }, ?_, h.finish, h.finish, d, hd, hd0⟩
  unfold RecordToRecord.lower
  rw [hnext]
  show Except.ok { r with threshold := if r.finish < _ then _ else r.finish } = _
  rw [if_neg hbelow]

/-- At zero a candidate is accepted just when it is cheaper than the best solution. -/
theorem AtZero.judge_eq {r : RecordToRecord Quantity} (h : r.AtZero) {best candidate : Cost}
    (hbest : best.IsPrice) (hcandidate : candidate.IsPrice) :
    ∃ r', r.judge Quantity.sub? relativeGap best candidate =
      (.ok (decide (candidate < best)), r') ∧ r'.AtZero := by
  obtain ⟨b, rfl, hb, hbsmall⟩ := hbest
  obtain ⟨c, rfl, hc, hcsmall⟩ := hcandidate
  obtain ⟨lowered, hlowered, hzero⟩ := h.lower
  -- A gap that is not zero is not rounded to zero, so its sign tells which cost is less.
  have hshare : Quantity.real (nearestRatio (c - b) c) < r.threshold ↔
      Quantity.whole c < Quantity.whole b := by
    have hsmall : c ≤ 2 ^ 1074 :=
      hcsmall.le.trans (pow_le_pow_right₀ (by norm_num) (by norm_num))
    rw [h.threshold, Quantity.real_lt_whole_zero, nearestRatio_lt_zero_iff hc hsmall,
      Quantity.whole_lt_whole]
    omega
  refine ⟨lowered, ?_, hzero⟩
  rw [← decide_eq_decide.mpr hshare]
  exact RecordToRecord.judge_eq (accepts_eq hc (by omega)) hlowered

end RecordToRecord

/-! ## Hill climbing stays at the best solution -/

variable {σ κ ω ν : Type} {exp : Float → Float} {unit : ω → Except Fault Float × ω}

theorem Course.climbing [BEq κ] [Scalar ν] {s : Setting σ κ ω Gauge (Option Quantity) ν}
    {first w : Walk σ κ ω Gauge (Option Quantity) ν}
    {done : List (Stage σ κ ω Gauge (Option Quantity) ν)} (h : Course s first done w)
    (hcriterion : s.criterion = Gauge.criterion exp unit) (hgauge : first.gauge = .hillClimbing)
    (hfirst : first.current = first.best) : w.gauge = .hillClimbing ∧ w.current = w.best := by
  induction h with
  | start => exact ⟨hgauge, hfirst⟩
  | @step done w st h hst ih =>
      obtain ⟨hbefore, hsound⟩ := Walk.stage_ok hst
      rw [← hbefore] at ih
      obtain ⟨hafter, haccepted⟩ := hsound.climbs hcriterion ih.1
      refine ⟨hafter, ?_⟩
      rw [ih.2] at haccepted
      rw [hsound.best, hsound.current, haccepted, ih.2]
      by_cases hlt : st.turn.candidate.cost < st.before.best.cost
      · simp only [hlt, decide_true, if_true]
      · simp only [hlt, decide_false, Bool.false_eq_true, if_false, ite_self]

/-! ## The two criteria in lockstep -/

/-- A row without what it shows of the gauge. -/
def Entry.unread {π : Type} (e : Entry ν π) : Entry ν Unit := { e with reading := () }

/-- Hill climbing beside record-to-record travel at zero. -/
def Gauge.BesideZero (g g' : Gauge) : Prop :=
  g = .hillClimbing ∧ ∃ r : RecordToRecord Quantity, g' = .recordToRecord r ∧ r.AtZero

/-- Two records that differ in what they show of the gauge only. -/
def Trace.SameUnread {π : Type} (t t' : Trace ν π) : Prop :=
  t.entries.map Entry.unread = t'.entries.map Entry.unread ∧ t.snapshots = t'.snapshots

namespace Walk

variable {s s' : Setting σ κ ω Gauge (Option Quantity) ν}
  {w w' w₁ w₁' : Walk σ κ ω Gauge (Option Quantity) ν} {p p' : Proposal σ κ ω ν}

/-- The two criteria decide alike. -/
theorem sameDecision (hcriterion : s.criterion = Gauge.criterion exp unit)
    (hcriterion' : s'.criterion = Gauge.criterion exp unit)
    (h : w₁.Abreast Eq Gauge.BesideZero Trace.SameUnread w₁') (hp : p.Matches p')
    (hcurrent : w₁.current = w₁.best) (hbest : w₁.best.cost.IsPrice)
    (hcandidate : p.candidate.cost.IsPrice) :
    Criterion.SameDecision Gauge.BesideZero (w₁.decision s.criterion p)
      (w₁'.decision s'.criterion p') := by
  obtain ⟨hgauge, r, hgauge', hzero⟩ := h.gauge
  obtain ⟨r', hjudge, hzero'⟩ := hzero.judge_eq hbest hcandidate
  have hdecision : w₁.decision s.criterion p =
      (.ok (decide (p.candidate.cost < w₁.best.cost)), .hillClimbing, w₁.world) := by
    unfold decision
    rw [hcriterion, hgauge, hcurrent]
    rfl
  have hdecision' : w₁'.decision s'.criterion p' =
      (.ok (decide (p.candidate.cost < w₁.best.cost)), .recordToRecord r', w₁.world) := by
    unfold decision
    rw [hcriterion', hgauge', ← hp.candidate, ← h.best, ← h.world]
    show ((r.judge Quantity.sub? relativeGap w₁.best.cost p.candidate.cost).1,
      Gauge.recordToRecord (r.judge Quantity.sub? relativeGap w₁.best.cost p.candidate.cost).2,
      w₁.world) = _
    rw [hjudge]
  rw [hdecision, hdecision']
  exact ⟨rfl, ⟨rfl, r', rfl, hzero'⟩, rfl⟩

variable [Scalar ν]

/-- Rows of walks abreast differ in what they show of the gauge only. -/
theorem settle_unread_eq {i : Nat} {t t' : Turn σ κ ω ν}
    (h : w.Abreast Eq Gauge.BesideZero Trace.SameUnread w') (ht : t.Matches t')
    (hrewards : s.rewards = s'.rewards) :
    (w.settle s i t).1.unread = (w'.settle s' i t').1.unread := by
  have hverdict : w.verdict s i t = w'.verdict s' i t' := verdict_eq h ht
  rw [settle_entry_eq h ht, hverdict, hrewards, settle_entry]
  rfl

variable [BEq κ]

/-- What is proposed leaves the best and the current solution alone, and under hill climbing it is
judged. -/
theorem attempt_of_propose (hcriterion : s.criterion = Gauge.criterion exp unit)
    (hgauge : w₁.gauge = .hillClimbing) (hp : w.propose s = .ok (p, w₁)) :
    ∃ turn judged, w.attempt s = .ok (turn, judged) ∧ turn.candidate = p.candidate ∧
      w₁.best = w.best ∧ w₁.current = w.current := by
  have hjudge : w₁.judge s.criterion p.candidate =
      .ok (decide (p.candidate.cost < w₁.current.cost), { w₁ with gauge := .hillClimbing }) := by
    rw [hcriterion]
    unfold judge Gauge.criterion
    dsimp only
    rw [hgauge]
    rfl
  have hattempt : w.attempt s =
      .ok (p.turn (decide (p.candidate.cost < w₁.current.cost)),
        { w₁ with gauge := .hillClimbing }) := by
    rw [attempt_eq_propose, hp]
    show Except.bind (w₁.judge s.criterion p.candidate) _ = _
    rw [hjudge]
    rfl
  have hout := attempt_ok hattempt
  exact ⟨_, _, hattempt, rfl, hout.best, hout.current⟩

theorem run_besideZero {first first' : Walk σ κ ω Gauge (Option Quantity) ν} {n : Nat}
    (hcriterion : s.criterion = Gauge.criterion exp unit)
    (hcriterion' : s'.criterion = Gauge.criterion exp unit)
    (hlandscape : s.landscape = s'.landscape) (hdraw : s.draw = s'.draw)
    (hrewards : s.rewards = s'.rewards) (hcloses : s.closes = s'.closes)
    (hannounce : ∀ e e' : Entry ν (Option Quantity), e.unread = e'.unread →
      s.announce e = s'.announce e')
    (hfirst : first.Abreast Eq Gauge.BesideZero Trace.SameUnread first')
    (hcurrent : first.current = first.best) (hprice : first.best.cost.IsPrice)
    (hrecorded : ∀ e ∈ (reached (run s n first)).trace.entries.toList, e.candidate.IsPrice) :
    Agrees (StopsAlike Eq Gauge.BesideZero Trace.SameUnread)
      (Abreast Eq Gauge.BesideZero Trace.SameUnread) (run s n first) (run s' n first') := by
  apply run_lockstep hfirst
  intro done done' w w' hcourse _ _ hn h
  obtain ⟨-, hbest⟩ := hcourse.climbing hcriterion hfirst.gauge.1 hcurrent
  obtain ⟨⟨hbestPrice, -⟩, hcandidatePrice⟩ :=
    hcourse.costs hn hprice (hcurrent ▸ hprice) hrecorded
  apply iterate_agrees (.eq s.draw) (fun _ _ hsame => hsame) hdraw hlandscape h
  · intro p p' w₁ w₁' hp _ hmatches h₁
    -- hill climbing stays at its best solution, so both decisions compare with the same cost
    obtain ⟨turn, judged, hattempt, hturn, hbest₁, hcurrent₁⟩ :=
      attempt_of_propose hcriterion h₁.gauge.1 hp
    apply sameDecision hcriterion hcriterion' h₁ hmatches
    · rw [hbest₁, hcurrent₁, hbest]
    · rw [hbest₁]
      exact hbestPrice
    · rw [← hturn]
      exact hcandidatePrice turn judged hattempt
  · intro t t' w₁ w₁' _ _ ht h₁
    generalize done.length + 1 = i
    have hselector : (w₁.settle s i t).2.selector = (w₁'.settle s' i t').2.selector :=
      settle_selector_eq h₁ ht (by rw [hcloses]) hrewards
    have hunread := settle_unread_eq (i := i) h₁ ht hrewards
    refine ⟨hselector, ⟨?_, ?_⟩, ?_⟩
    · rw [settle_entries, settle_entries, Array.map_push, Array.map_push, h₁.trace.1, hunread]
    · exact settle_snapshots_eq (by rw [hcloses]) hselector h₁.trace.2
    · rw [hannounce _ _ hunread]
      exact .of_eq rfl

end Walk

/-! ## Runs of a solver -/

namespace Solver

variable [BEq κ]

/-- A run that is not refused goes the same way by a threshold of zero as by hill climbing. -/
theorem abreast_of_atZero {s : Solver σ κ ω Gauge (Option Quantity)}
    (hcriterion : s.criterion = Gauge.criterion exp unit) (criterionName : String)
    {travel : RecordToRecord Quantity} (hzero : travel.AtZero) {initial : σ} {r : Request}
    {world : ω} (hcheck : s.check r = .ok ())
    (hinitial : ∀ cost, s.landscape.cost initial = .ok cost → cost.IsPrice)
    (hcandidates : ∀ e ∈ s.history initial r .hillClimbing world, e.candidate.IsPrice) :
    (s.run initial r .hillClimbing world).Abreast Eq Gauge.BesideZero Trace.SameUnread
      ({ s with criterionName }.run initial r (.recordToRecord travel) world) := by
  have hcheck' : { s with criterionName }.check r = .ok () := hcheck
  refine run_abreast hcheck hcheck' (.of_eq rfl) rfl (.of_eq rfl)
    ⟨rfl, travel, rfl, hzero⟩ rfl ⟨rfl, rfl⟩ ?_
  intro setting setting' first first' n n' hembark hembark'
  have hout := embark_ok hembark
  have hout' := embark_ok hembark'
  obtain rfl : n = n' := hout.count_eq hout'.count
  apply Walk.run_besideZero (hout.criterion.trans hcriterion)
    (hout'.criterion.trans hcriterion) (hout.landscape.trans hout'.landscape.symm)
    (hout.draw.trans hout'.draw.symm)
    (Except.ok.inj (hout.rewards.symm.trans hout'.rewards))
    (hout.closes.trans hout'.closes.symm)
  · intro e e' hunread
    rw [hout.announce, hout'.announce]
    show progress r.iterations s.logInterval e.unread =
      progress r.iterations s.logInterval e'.unread
    rw [hunread]
  · exact hout.abreast hout' rfl ⟨rfl, travel, rfl, hzero⟩ rfl ⟨rfl, rfl⟩
  · exact hout.current
  · exact hinitial _ hout.cost
  · rw [← (run_reached hembark).2]
    exact hcandidates

/-- Record-to-record travel with thresholds of zero, whatever the number of its steps, makes the
same run as hill climbing, as long as the costs are positive whole numbers of 53 bits: the same
solution is returned, or the same fault, the same weights are adapted, and the histories are the
same but for the reading of the gauge. -/
theorem run_zero_threshold {s : Solver σ κ ω Gauge (Option Quantity)}
    (hcriterion : s.criterion = Gauge.criterion exp unit) (criterionName : String)
    {steps : Quantity} (hsteps : Quantity.whole 1 ≤ steps) {initial : σ} {r : Request} {world : ω}
    (hinitial : ∀ cost, s.landscape.cost initial = .ok cost → cost.IsPrice)
    (hcandidates : ∀ e ∈ s.history initial r .hillClimbing world, e.candidate.IsPrice) :
    ∃ travel, RecordToRecord.create (.whole 0) (.whole 0) steps = .ok travel ∧
      let climbing := s.run initial r .hillClimbing world
      let travelling := { s with criterionName }.run initial r (.recordToRecord travel) world
      travelling.result = climbing.result ∧ travelling.world = climbing.world ∧
        travelling.solver.selector = climbing.solver.selector ∧
        travelling.solver.trace.snapshots = climbing.solver.trace.snapshots ∧
        travelling.solver.trace.entries.map Entry.unread =
          climbing.solver.trace.entries.map Entry.unread := by
  obtain ⟨travel, hcreate, hzero⟩ := RecordToRecord.exists_create_atZero hsteps
  refine ⟨travel, hcreate, ?_⟩
  intro climbing travelling
  cases hcheck : s.check r with
  | error fault =>
      have hcheck' : { s with criterionName }.check r = .error fault := hcheck
      have hclimbing : climbing = s.refuse .hillClimbing world "" fault :=
        run_of_check_error hcheck
      have htravelling : travelling =
          { s with criterionName }.refuse (.recordToRecord travel) world "" fault :=
        run_of_check_error hcheck'
      rw [hclimbing, htravelling]
      exact ⟨rfl, rfl, rfl, rfl, rfl⟩
  | ok =>
      have habreast : climbing.Abreast Eq Gauge.BesideZero Trace.SameUnread travelling :=
        abreast_of_atZero hcriterion criterionName hzero hcheck hinitial hcandidates
      exact ⟨habreast.result.symm, habreast.world.symm, habreast.selector.symm,
        habreast.trace.2.symm, habreast.trace.1.symm⟩

/-- Both criteria take the first, the third and the fourth candidate, and not the second one, which
costs as much as the first. -/
theorem run_zero_threshold_scripted :
    let unit : List Nat → Except Fault Float × List Nat := fun script => (.ok 0.5, script)
    let s := scripted (Gauge.criterion Float.exp unit)
    let script := [52, 57, 31, 18]
    ∃ travel, RecordToRecord.create (.whole 0) (.whole 0) (.whole 10) = .ok travel ∧
      let climbing := s.run 80 fourIterations .hillClimbing script
      let travelling := { s with criterionName := "RECORD_TO_RECORD" }.run 80 fourIterations
        (.recordToRecord travel) script
      climbing.result = .ok ⟨18, .whole 1⟩ ∧ travelling.result = .ok ⟨18, .whole 1⟩ ∧
        climbing.solver.trace.entries.toList.map Entry.move =
          [.newBest, .rejected, .newBest, .newBest] ∧
        travelling.solver.trace.snapshots = climbing.solver.trace.snapshots ∧
        travelling.solver.trace.entries.map Entry.unread =
          climbing.solver.trace.entries.map Entry.unread := by
  intro unit s script
  have hinitial : ∀ cost, s.landscape.cost 80 = .ok cost → cost.IsPrice := by
    intro cost hcost
    cases hcost
    decide
  have hcandidates : ∀ e ∈ s.history 80 fourIterations .hillClimbing script,
      e.candidate.IsPrice := by decide +kernel
  have hsteps : Quantity.whole 1 ≤ Quantity.whole 10 := by decide
  obtain ⟨travel, hcreate, hresult, -, -, hsnapshots, hentries⟩ :=
    run_zero_threshold rfl "RECORD_TO_RECORD" hsteps hinitial hcandidates
  have hclimbing : (s.run 80 fourIterations .hillClimbing script).result = .ok ⟨18, .whole 1⟩ := by
    decide +kernel
  exact ⟨travel, hcreate, hclimbing, hresult.trans hclimbing, by decide +kernel, hsnapshots,
    hentries⟩

end Solver

end LargeNeighborhood
