import LargeNeighborhood.Proofs.Search.Indifference

set_option autoImplicit false

/-! # Searches that come to their end

A search keeps to a realm: its solutions are whole, and in parts while they are being repaired, its
world, its gauge and its costs are of some kind. If all that an iteration calls succeeds within the
realm and does not lead out of it (`Setting.Carries`), the iteration succeeds as well
(`Walk.exists_stage_ok`), because the weights stay fit to be drawn from: within a segment no operator
is used more often than the segment is long. So however many iterations are asked for, the run
returns a solution (`Solver.exists_run_ok`).
-/

namespace LargeNeighborhood

open Rounding

variable {σ κ ω γ π : Type}

/-- What holds throughout a search, of its solutions, while they are whole and while they are in
parts, of its world, of its gauge and of its costs. -/
structure Realm (σ ω γ : Type) where
  whole : σ → Prop
  part : σ → Prop
  world : ω → Prop
  gauge : γ → Prop
  cost : Cost → Prop

/-- An operator that does not fail: to destroy is to make a part of a whole solution, to repair is to
make a whole solution of a part. -/
def Action.Delivers (R : Realm σ ω γ) : Role → Action σ ω → Prop
  | .destroy, a => ∀ x w, R.whole x → R.world w → ∃ y w', a x w = (.ok y, w') ∧ R.part y ∧ R.world w'
  | .repair, a => ∀ x w, R.part x → R.world w → ∃ y w', a x w = (.ok y, w') ∧ R.whole y ∧ R.world w'

def Selector.Delivers (R : Realm σ ω γ) (a : Selector Float Nat (Action σ ω)) : Prop :=
  ∀ role, ∀ f ∈ a.actions role, Action.Delivers R role f

theorem Selector.Delivers.congr {R : Realm σ ω γ} {a b : Selector Float Nat (Action σ ω)}
    (h : a.Delivers R) (hsame : ∀ role, b.identities role = a.identities role) : b.Delivers R := by
  intro role
  rw [Selector.actions_congr (hsame role)]
  exact h role

/-- What an iteration calls, its operators apart, succeeds within a realm. -/
structure Carries (R : Realm σ ω γ) (draw : ω → Except Fault Float × ω) (l : Landscape σ κ)
    (c : Criterion σ ω γ π) : Prop where
  draw : ∀ w, R.world w → ∃ u w', draw w = (.ok u, w') ∧ R.world w'
  cost : ∀ x, R.whole x → ∃ q, l.cost x = .ok q ∧ R.cost q
  key : ∀ x, R.whole x → ∃ k, l.key x = .ok k
  judge : ∀ (best current candidate : Rated σ) g w, R.cost best.cost → R.cost current.cost →
    R.cost candidate.cost → R.gauge g → R.world w →
    ∃ accepted g' w', c.judge best current candidate g w = (.ok accepted, g', w') ∧ R.gauge g' ∧
      R.world w'
  range : ∀ q, R.cost q → q.InRange

namespace Walk

/-! ## Steps of an iteration -/

/-- A draw from weights that are not refused picks an operator of the pool. It may change the world
and the pool drawn from, and leaves the gauge and the other pool alone. -/
theorem exists_choose_ok {W : ω → Prop} {draw : ω → Except Fault Float × ω}
    (hdraw : ∀ w, W w → ∃ u w', draw w = (.ok u, w') ∧ W w') {w : Walk σ κ ω γ π Float}
    (hw : W w.world) (role : Role) (hne : w.selector.pool role ≠ [])
    (htotal : ∃ total, Roulette.total? ((w.selector.pool role).map Operator.weight) = .ok total) :
    ∃ op w', w.choose draw role = .ok (op, w') ∧ op ∈ w.selector.pool role ∧ W w'.world ∧
      w'.gauge = w.gauge ∧
      ∀ other, other ≠ role → w'.selector.pool other = w.selector.pool other := by
  obtain ⟨total, htotal⟩ := htotal
  obtain ⟨u, world, hu, hworld⟩ := hdraw w.world hw
  obtain ⟨op, w', hchoose, hop⟩ := (choose_of_total hne htotal).1 hu
  obtain ⟨i, world', -, hspin, rfl⟩ := choose_ok hchoose
  rw [Roulette.spin_eq htotal hu] at hspin
  cases hspin
  exact ⟨op, _, hchoose, hop, hworld, rfl, fun other hother =>
    Selector.pool_setPool_of_ne _ hother _⟩

theorem perform_of_ok {w : Walk σ κ ω γ π Float} {a : Action σ ω} {x y : σ} {world : ω}
    (h : a x w.world = (.ok y, world)) : w.perform a x = .ok (y, { w with world }) := by
  simp only [perform, h, orStop, Except.map]

theorem judge_of_ok {c : Criterion σ ω γ π} {w : Walk σ κ ω γ π Float} {candidate : Rated σ}
    {accepted : Bool} {gauge : γ} {world : ω}
    (h : c.judge w.best w.current candidate w.gauge w.world = (.ok accepted, gauge, world)) :
    w.judge c candidate = .ok (accepted, { w with gauge, world }) := by
  simp only [judge, h, orStop, Except.map]

/-! ## Iterations -/

/-- A walk within a realm, `k` iterations after the last segment was closed. -/
structure Afoot (R : Realm σ ω γ) (k : Nat) (w : Walk σ κ ω γ π Float) : Prop where
  world : R.world w.world
  gauge : R.gauge w.gauge
  current : R.whole w.current.state ∧ R.cost w.current.cost
  best : R.whole w.best.state ∧ R.cost w.best.cost
  operators : w.selector.Delivers R
  manned : ∀ role, w.selector.pool role ≠ []
  usable : w.selector.All (Operator.Usable k)
  reaction : ∃ q, worth w.selector.reaction = some (exactly q) ∧ 0 ≤ q ∧ q ≤ 1

variable [BEq κ] {R : Realm σ ω γ} {s : Setting σ κ ω γ π Float} {w : Walk σ κ ω γ π Float} {k : Nat}

theorem Afoot.exists_attempt_ok (h : w.Afoot R k) (hs : Carries R s.draw s.landscape s.criterion) :
    ∃ turn judged, w.attempt s = .ok (turn, judged) ∧ R.world judged.world ∧
      R.gauge judged.gauge ∧ R.whole turn.candidate.state ∧ R.cost turn.candidate.cost := by
  obtain ⟨destroyer, w₁, hchoose, hd, hworld₁, hgauge₁, hother⟩ :=
    exists_choose_ok hs.draw h.world .destroy (h.manned .destroy)
      (h.usable.exists_total_ok (h.manned .destroy))
  -- The second draw finds the pool of its kind as it was.
  have hpool : w₁.selector.pool .repair = w.selector.pool .repair := hother .repair (by decide)
  obtain ⟨repairer, w₂, hchoose', hr, hworld₂, hgauge₂, -⟩ :=
    exists_choose_ok hs.draw hworld₁ .repair (hpool ▸ h.manned .repair)
      (hpool ▸ h.usable.exists_total_ok (h.manned .repair))
  rw [hpool] at hr
  have hdrift := (choose_drift hchoose).trans (choose_drift hchoose')
  obtain ⟨opened, world₃, hopened, hpart, hworld₃⟩ :=
    h.operators .destroy _ (Selector.mem_actions hd) w.current.state w₂.world h.current.1 hworld₂
  obtain ⟨closed, world₄, hclosed, hwhole, hworld₄⟩ :=
    h.operators .repair _ (Selector.mem_actions hr) opened world₃ hpart hworld₃
  obtain ⟨cost, hcost, hrange⟩ := hs.cost closed hwhole
  obtain ⟨key, hkey⟩ := hs.key closed hwhole
  obtain ⟨accepted, gauge, world₅, hjudge, hgauge, hworld₅⟩ :=
    hs.judge w.best w.current ⟨closed, cost⟩ w.gauge world₄ h.best.2 h.current.2 hrange h.gauge
      hworld₄
  rw [← hdrift.current] at hopened
  rw [← hdrift.best, ← hdrift.current, ← hgauge₁, ← hgauge₂] at hjudge
  have hrate : s.landscape.rate closed = .ok ⟨closed, cost⟩ := bind_eq_ok.mpr ⟨cost, hcost, rfl⟩
  refine ⟨⟨destroyer, repairer, ⟨closed, cost⟩, key, !w₂.accepted.contains key, accepted⟩,
    { w₂ with gauge, world := world₅ }, ?_, hworld₅, hgauge, hwhole, hrange⟩
  unfold attempt
  refine bind_eq_ok.mpr ⟨_, hchoose, bind_eq_ok.mpr ⟨_, hchoose', ?_⟩⟩
  refine bind_eq_ok.mpr ⟨_, perform_of_ok hopened, bind_eq_ok.mpr ⟨_, perform_of_ok hclosed, ?_⟩⟩
  refine bind_eq_ok.mpr ⟨_, orStop_eq_ok.mpr hrate, bind_eq_ok.mpr ⟨_, orStop_eq_ok.mpr hkey, ?_⟩⟩
  exact bind_eq_ok.mpr ⟨_, judge_of_ok hjudge, rfl⟩

/-- Within a segment the uses of operators are counted on, and its end sets them back. -/
theorem usable_of_stage {i L : Nat} {st : Stage σ κ ω γ π Float} (h : st.Sound s (i + 1))
    (hcloses : s.closes (i + 1) = decide (L ∣ i + 1)) (hL : 0 < L) (hlimit : L ≤ 2 ^ 1023)
    (hbefore : st.before.selector.All (Operator.Usable (i % L))) {q : ℚ}
    (hreaction : worth st.before.selector.reaction = some (exactly q)) (hq : 0 ≤ q) (hq' : q ≤ 1)
    (hscore : Unsigned (view (st.verdict.score s.rewards))) :
    st.after.selector.All (Operator.Usable ((i + 1) % L)) := by
  have hmod : i % L < L := Nat.mod_lt i hL
  obtain ⟨j, j', -, -, hselector⟩ := h.drawn
  have hcredited : (st.credited s j j').All (Operator.Usable (i % L + 1)) :=
    Stage.all_credited hbefore (fun _ hop => hop.mono (Nat.le_succ _)) (fun _ hop => hop.used)
      (fun _ hop => hop.credited hscore) j j'
  rw [hselector, hcloses]
  by_cases hdvd : L ∣ i + 1
  · rw [if_pos (decide_eq_true hdvd), Nat.mod_eq_zero_of_dvd hdvd]
    exact hcredited.adapt fun op hop => hop.closed (Nat.le_trans hmod hlimit) hreaction hq hq'
  -- within a segment the iterations are counted on
  · have hnext : (i + 1) % L = i % L + 1 := by
      have hdiv : (i + 1) % L = (i % L + 1) % L := (Nat.mod_add_mod i L 1).symm
      have hne : i % L + 1 ≠ L := by
        intro heq
        rw [heq, Nat.mod_self] at hdiv
        exact hdvd (Nat.dvd_of_mod_eq_zero hdiv)
      rw [hdiv, Nat.mod_eq_of_lt (by omega)]
    rw [if_neg (by simpa using hdvd), hnext]
    exact hcredited

/-- What a search does not leave its realm by. -/
structure Safe (R : Realm σ ω γ) (L : Nat) (s : Setting σ κ ω γ π Float) : Prop where
  carries : Carries R s.draw s.landscape s.criterion
  announce : ∀ e, e.best.InRange → e.current.InRange → ∃ text, s.announce e = .ok text
  closes : ∀ i, s.closes i = decide (L ∣ i)
  pos : 0 < L
  limit : L ≤ 2 ^ 1023
  rewards : ∀ v : Verdict, Unsigned (view (v.score s.rewards))

/-- An attempt makes an iteration once its row can be announced. -/
theorem stage_of_attempt {i : Nat} {turn : Turn σ κ ω Float} {judged : Walk σ κ ω γ π Float}
    {text : String} (hattempt : w.attempt s = .ok (turn, judged))
    (htext : s.announce (judged.settle s i turn).1 = .ok text) :
    w.stage s i = .ok ⟨w, turn, (judged.settle s i turn).1, { (judged.settle s i turn).2 with
      printed := (judged.settle s i turn).2.printed ++ text }⟩ := by
  have hannounce : (judged.settle s i turn).2.announce s (judged.settle s i turn).1 =
      .ok { (judged.settle s i turn).2 with
        printed := (judged.settle s i turn).2.printed ++ text } :=
    map_eq_ok.mpr ⟨text, orStop_eq_ok.mpr htext, rfl⟩
  unfold stage
  exact bind_eq_ok.mpr ⟨_, hattempt, bind_eq_ok.mpr ⟨_, hannounce, rfl⟩⟩

/-- An iteration within a realm succeeds. -/
theorem Afoot.exists_stage_ok {L i : Nat} (h : w.Afoot R (i % L)) (hs : Safe R L s) :
    ∃ st, w.stage s (i + 1) = .ok st ∧ st.after.Afoot R ((i + 1) % L) := by
  obtain ⟨turn, judged, hattempt, hworld, hgauge, hwhole, hcost⟩ := h.exists_attempt_ok hs.carries
  have hout := attempt_ok hattempt
  -- the row shows costs of the realm, and those can be printed
  obtain ⟨hrowBest, hrowCurrent⟩ : R.cost (judged.settle s (i + 1) turn).1.best ∧
      R.cost (judged.settle s (i + 1) turn).1.current :=
    settle_costs (hout.best ▸ h.best.2) (hout.current ▸ h.current.2) hcost
  obtain ⟨text, htext⟩ := hs.announce _ (hs.carries.range _ hrowBest)
    (hs.carries.range _ hrowCurrent)
  obtain ⟨st, hst, hafterWorld, hafterGauge, rfl⟩ : ∃ st, w.stage s (i + 1) = .ok st ∧
      st.after.world = judged.world ∧ st.after.gauge = judged.gauge ∧ st.turn = turn :=
    ⟨_, stage_of_attempt hattempt htext, settle_world s _ turn judged,
      settle_gauge s _ turn judged, rfl⟩
  obtain ⟨rfl, hsound⟩ := stage_ok hst
  obtain ⟨q, hq, hq0, hq1⟩ := h.reaction
  have hcurrent : R.whole st.after.current.state ∧ R.cost st.after.current.cost := by
    rw [hsound.current]
    split
    · exact ⟨hwhole, hcost⟩
    · exact h.current
  refine ⟨st, hst, ?_⟩
  exact {
    world := hafterWorld ▸ hworld
    gauge := hafterGauge ▸ hgauge
    current := hcurrent
    best := by
      rw [hsound.best]
      split
      · exact hcurrent
      · exact h.best
    operators := h.operators.congr hsound.identities_eq
    manned := fun role hnil =>
      h.manned role ((Selector.pool_eq_nil_congr (hsound.identities_eq role)).mp hnil)
    usable := usable_of_stage hsound (hs.closes _) hs.pos hs.limit h.usable hq hq0 hq1 (hs.rewards _)
    reaction := ⟨q, hsound.reaction_eq ▸ hq, hq0, hq1⟩ }

/-- Iterations of a setting that does not leave a realm lead from a walk within the realm to another
one. -/
theorem Afoot.of_course {L : Nat} {first : Walk σ κ ω γ π Float}
    {done : List (Stage σ κ ω γ π Float)} (hfirst : first.Afoot R 0) (hs : Safe R L s)
    (hcourse : Course s first done w) : w.Afoot R (done.length % L) := by
  induction hcourse with
  | start =>
      rw [List.length_nil, Nat.zero_mod]
      exact hfirst
  | step _ hst ih =>
      obtain ⟨st, hst', hafter⟩ := ih.exists_stage_ok hs
      cases hst.symm.trans hst'
      rw [List.length_append]
      exact hafter

/-- Where the setting does not leave a realm, any number of iterations from a walk within it is
completed, and leads to a walk within it. -/
theorem Afoot.exists_run_ok {L : Nat} {first : Walk σ κ ω γ π Float} (hfirst : first.Afoot R 0)
    (hs : Safe R L s) (n : Nat) : ∃ last, run s n first = .ok last ∧ last.Afoot R (n % L) := by
  cases hrun : run s n first with
  | ok last =>
      obtain ⟨hcourse, hlength⟩ := course_of_run .start n hrun
      have hlast := hfirst.of_course hs hcourse
      rw [List.nil_append, hlength] at hlast
      exact ⟨last, rfl, hlast⟩
  | error stop =>
      -- The walk in front of the iteration that has failed is still within the realm.
      obtain ⟨done, w', hcourse, -, hstop⟩ := course_of_stop .start n hrun
      obtain ⟨st, hst, -⟩ := (hfirst.of_course hs hcourse).exists_stage_ok hs
      cases hstop.symm.trans hst

end Walk

/-! ## Runs of a solver -/

namespace Solver

variable {R : Realm σ ω γ} {s : Solver σ κ ω γ π} {initial : σ} {r : Request} {gauge : γ} {world : ω}
  {setting : Setting σ κ ω γ π Float} {first : Walk σ κ ω γ π Float} {n : Nat}

/-- A solver whose operators and criterion do not leave a realm. -/
structure Carries (R : Realm σ ω γ) (s : Solver σ κ ω γ π) : Prop where
  carries : LargeNeighborhood.Carries R s.draw s.landscape s.criterion
  operators : s.selector.Delivers R
  segment : ∃ L : Nat, s.segment = .whole L ∧ 0 < L ∧ L ≤ 2 ^ 1023

/-- The costs of a realm can be shown. -/
theorem Carries.exists_shown (hs : s.Carries R) {q : Cost} (hq : R.cost q) :
    ∃ text, q.fixed? 2 = .ok text := by
  obtain ⟨x, hx⟩ := hs.carries.range q hq
  exact ⟨fixed 2 x, bind_eq_ok.mpr ⟨x, hx, rfl⟩⟩

/-- If a solver does not leave a realm, the setting of each of its runs does not leave it either. -/
theorem Carries.exists_safe (hs : s.Carries R)
    (h : s.Embarked initial r gauge world setting first n) : ∃ L, Walk.Safe R L setting := by
  obtain ⟨L, hsegment, hpos, hlimit⟩ := hs.segment
  exact ⟨L, {
    carries := by
      rw [h.draw, h.landscape, h.criterion]
      exact hs.carries
    announce := by
      rw [h.announce]
      exact fun e => exists_progress_ok
    closes := by
      intro i
      rw [h.closes, hsegment, Quantity.divides_whole]
    pos := hpos
    limit := hlimit
    rewards := unsigned_score h.check h.rewards }⟩

variable [BEq κ]

/-- The first walk of a run is within a realm if the solver does not leave the realm and the initial
solution, the gauge and the world are in it. -/
theorem Carries.afoot (hs : s.Carries R) (h : s.Embarked initial r gauge world setting first n)
    (hinitial : R.whole initial) (hgauge : R.gauge gauge) (hworld : R.world world) :
    first.Afoot R 0 := by
  obtain ⟨hd, hr, -, hshare, -⟩ := check_ok_iff.mp h.check
  obtain ⟨q, hq, -, hq0, hq1⟩ := Quantity.worth_of_share hshare.1 hshare.2
  have hbest : R.whole first.best.state ∧ R.cost first.best.cost := by
    obtain ⟨cost, hcost, hrange⟩ := hs.carries.cost initial hinitial
    cases h.cost.symm.trans hcost
    exact ⟨h.origin ▸ hinitial, hrange⟩
  exact {
    world := h.startWorld ▸ hworld
    gauge := h.startGauge ▸ hgauge
    current := h.current ▸ hbest
    best := hbest
    operators := hs.operators.congr h.identities_eq
    manned := by
      intro role hnil
      have hempty := (Selector.pool_eq_nil_congr (h.identities_eq role)).mp hnil
      cases role with
      | destroy => exact hd hempty
      | repair => exact hr hempty
    usable := h.usable .start (Nat.zero_le _)
    reaction := ⟨q, h.reaction_eq ▸ hq, hq0, hq1⟩ }

/-- A run that is not refused and sets out within a realm returns a solution of the realm, however
many iterations it is asked for. -/
theorem exists_run_ok (hs : s.Carries R) (hcheck : s.check r = .ok ())
    (hrewards : ∃ rewards, rewards? r.rewards = .ok rewards)
    (hcount : r.iterations = .whole n) (hinitial : R.whole initial) (hgauge : R.gauge gauge)
    (hworld : R.world world) :
    ∃ best, (s.run initial r gauge world).result = .ok best ∧ R.whole best.state := by
  obtain ⟨cost, hcost, hrange⟩ := hs.carries.cost initial hinitial
  obtain ⟨setting, first, hembark⟩ : ∃ setting first,
      s.embark initial r gauge world = .ok (setting, first, n) :=
    exists_embark_ok hcheck hrewards hcount hcost (hs.exists_shown hrange)
  have hout := embark_ok hembark
  obtain ⟨L, hsafe⟩ := hs.exists_safe hout
  obtain ⟨last, hrun, hlast⟩ := (hs.afoot hout hinitial hgauge hworld).exists_run_ok hsafe n
  -- What is left is the closing line, which shows the cost of the best solution.
  obtain ⟨text, htext⟩ := hs.exists_shown hlast.best.2
  refine ⟨last.best, ?_, hlast.best.1⟩
  rw [run_of_embark hembark, hrun]
  dsimp only
  rw [htext]
  rfl

end Solver

end LargeNeighborhood
