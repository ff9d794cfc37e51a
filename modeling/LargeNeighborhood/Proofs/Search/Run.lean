import LargeNeighborhood.Proofs.Search.Stage

set_option autoImplicit false

/-! # Runs of a solver

A run that is not refused sets out (`Solver.embark`) with a setting, a first walk and a number of
iterations; what becomes of it is what becomes of the walk (`Solver.run_of_embark`). A run that
returns a solution has completed every iteration, and its stages lead to the solution returned
(`Solver.Completed`).
-/

namespace LargeNeighborhood

namespace Solver

variable {σ κ ω γ π : Type}

/-- The setting, the first walk and the number of iterations of a run, unless it is refused. -/
def embark (s : Solver σ κ ω γ π) (initial : σ) (r : Request) (gauge : γ) (world : ω) :
    Except Fault (Setting σ κ ω γ π Float × Walk σ κ ω γ π Float × Nat) := do
  s.check r
  let rewards ← rewards? r.rewards
  let start ← s.landscape.rate initial
  let cost ← start.cost.fixed? 2
  let n ← count? r
  let s := s.startOver r.reaction.toFloat
  return (s.setting r rewards, s.departure start gauge world (opening ++ s.heading r cost), n)

/-- A request passes its check just when there are operators of both kinds, at least one iteration
is asked for, the reaction is a share, and there are three rewards, none of them negative. -/
theorem check_ok_iff {s : Solver σ κ ω γ π} {r : Request} :
    s.check r = .ok () ↔ s.selector.destroyers ≠ [] ∧ s.selector.repairers ≠ [] ∧
      ¬ r.iterations < Quantity.whole 1 ∧ isShare r.reaction ∧ r.rewards.length = 3 ∧
      ∀ q ∈ r.rewards, ¬ q < Quantity.whole 0 := by
  unfold check
  constructor
  · intro h
    split at h
    · cases h
    split at h
    · cases h
    split at h
    · cases h
    split at h
    · cases h
    split at h
    · cases h
    split at h
    · cases h
    simp_all
  · rintro ⟨hd, hr, hi, hshare, hlength, hpos⟩
    simp [hd, hr, hi, hshare, hlength]
    exact hpos

theorem count?_ok {s : Solver σ κ ω γ π} {r : Request} {n : Nat} (hcheck : s.check r = .ok ())
    (h : count? r = .ok n) : r.iterations = .whole n ∧ 0 < n := by
  have hpos := (check_ok_iff.mp hcheck).2.2.1
  unfold count? at h
  split at h
  · rename_i k hk
    rw [hk, Quantity.whole_lt_whole] at hpos
    cases h
    exact ⟨by rw [hk, Int.toNat_of_nonneg (by omega)], by omega⟩
  · cases h

variable {s : Solver σ κ ω γ π} {initial : σ} {r : Request} {gauge : γ} {world : ω}

/-- What a run sets out with. -/
structure Embarked (s : Solver σ κ ω γ π) (initial : σ) (r : Request) (gauge : γ) (world : ω)
    (setting : Setting σ κ ω γ π Float) (first : Walk σ κ ω γ π Float) (n : Nat) : Prop where
  check : s.check r = .ok ()
  count : r.iterations = .whole n
  pos : 0 < n
  landscape : setting.landscape = s.landscape
  criterion : setting.criterion = s.criterion
  draw : setting.draw = s.draw
  closes : setting.closes = s.segment.divides
  announce : setting.announce = progress r.iterations s.logInterval
  rewards : rewards? r.rewards = .ok setting.rewards
  origin : first.best.state = initial
  cost : s.landscape.cost initial = .ok first.best.cost
  shown : ∃ text, first.best.cost.fixed? 2 = .ok text
  current : first.current = first.best
  accepted : first.accepted = []
  selector : first.selector = { s.selector with reaction := r.reaction.toFloat }.reset
  trace : first.trace = .empty
  startGauge : first.gauge = gauge
  startWorld : first.world = world

theorem embark_ok {setting : Setting σ κ ω γ π Float} {first : Walk σ κ ω γ π Float} {n : Nat}
    (h : s.embark initial r gauge world = .ok (setting, first, n)) :
    s.Embarked initial r gauge world setting first n := by
  obtain ⟨⟨⟩, hcheck, h⟩ := bind_eq_ok.mp h
  obtain ⟨rewards, hrewards, h⟩ := bind_eq_ok.mp h
  obtain ⟨start, hstart, h⟩ := bind_eq_ok.mp h
  obtain ⟨text, htext, h⟩ := bind_eq_ok.mp h
  obtain ⟨m, hcount, h⟩ := bind_eq_ok.mp h
  cases h
  obtain ⟨cost, hcost, hrate⟩ := bind_eq_ok.mp hstart
  cases hrate
  obtain ⟨hiterations, hpos⟩ := count?_ok hcheck hcount
  exact {
    check := hcheck
    count := hiterations
    pos := hpos
    landscape := rfl
    criterion := rfl
    draw := rfl
    closes := rfl
    announce := rfl
    rewards := hrewards
    origin := rfl
    cost := hcost
    shown := ⟨text, htext⟩
    current := rfl
    accepted := rfl
    selector := rfl
    trace := rfl
    startGauge := rfl
    startWorld := rfl }

/-- A request that passes its check is set out on from a solution whose cost can be shown. -/
theorem exists_embark_ok (hcheck : s.check r = .ok ())
    (hrewards : ∃ rewards, rewards? r.rewards = .ok rewards) {n : Nat}
    (hcount : r.iterations = .whole n) {cost : Cost} (hcost : s.landscape.cost initial = .ok cost)
    (hshown : ∃ text, cost.fixed? 2 = .ok text) :
    ∃ setting first, s.embark initial r gauge world = .ok (setting, first, n) := by
  obtain ⟨rewards, hrewards⟩ := hrewards
  obtain ⟨text, htext⟩ := hshown
  have hrate : s.landscape.rate initial = .ok ⟨initial, cost⟩ := bind_eq_ok.mpr ⟨cost, hcost, rfl⟩
  have hn : count? r = .ok n := by
    unfold count?
    rw [hcount]
    rfl
  exact ⟨_, _, bind_eq_ok.mpr ⟨(), hcheck, bind_eq_ok.mpr ⟨rewards, hrewards, bind_eq_ok.mpr
    ⟨_, hrate, bind_eq_ok.mpr ⟨text, htext, bind_eq_ok.mpr ⟨n, hn, rfl⟩⟩⟩⟩⟩⟩

/-- A run sets out for as many iterations as it is asked for. -/
theorem Embarked.count_eq {setting : Setting σ κ ω γ π Float} {first : Walk σ κ ω γ π Float}
    {n m : Nat} (h : s.Embarked initial r gauge world setting first n)
    (hm : r.iterations = .whole m) : n = m := by
  have hcount := h.count.symm.trans hm
  injection hcount with hcount
  exact Int.ofNat.inj hcount

variable [BEq κ]

/-- The stages of a run; there are none when it is refused. -/
def stages (s : Solver σ κ ω γ π) (initial : σ) (r : Request) (gauge : γ) (world : ω) :
    List (Stage σ κ ω γ π Float) :=
  match s.embark initial r gauge world with
  | .ok (setting, first, n) => first.stages setting n
  | .error _ => []

/-- The rows that a run has recorded. -/
def history (s : Solver σ κ ω γ π) (initial : σ) (r : Request) (gauge : γ) (world : ω) :
    List (Entry Float π) := (s.run initial r gauge world).solver.trace.entries.toList

/-- A request that is refused changes nothing and prints nothing. -/
theorem run_of_check_error {fault : Fault} (h : s.check r = .error fault) :
    s.run initial r gauge world = s.refuse gauge world "" fault := by
  unfold run
  rw [h]

theorem travel_of_count {n : Nat} (hcount : count? r = .ok n) {rewards : Rewards Float}
    {w : Walk σ κ ω γ π Float} : s.travel r rewards w =
      match Walk.run (s.setting r rewards) n w with
      | .error (fault, w) => s.outcome w (.error fault) w.printed
      | .ok w =>
          match w.best.cost.fixed? 2 with
          | .error fault => s.outcome w (.error fault) w.printed
          | .ok best => s.outcome w (.ok w.best) (w.printed ++ closing best) := by
  unfold travel
  rewrite [hcount]
  rfl

theorem run_of_embark {setting : Setting σ κ ω γ π Float} {first : Walk σ κ ω γ π Float} {n : Nat}
    (h : s.embark initial r gauge world = .ok (setting, first, n)) :
    s.run initial r gauge world =
      let s := s.startOver r.reaction.toFloat
      match Walk.run setting n first with
      | .error (fault, w) => s.outcome w (.error fault) w.printed
      | .ok w =>
          match w.best.cost.fixed? 2 with
          | .error fault => s.outcome w (.error fault) w.printed
          | .ok best => s.outcome w (.ok w.best) (w.printed ++ closing best) := by
  obtain ⟨⟨⟩, hcheck, h⟩ := bind_eq_ok.mp h
  obtain ⟨rewards, hrewards, h⟩ := bind_eq_ok.mp h
  obtain ⟨start, hstart, h⟩ := bind_eq_ok.mp h
  obtain ⟨cost, hcost, h⟩ := bind_eq_ok.mp h
  obtain ⟨m, hcount, h⟩ := bind_eq_ok.mp h
  cases h
  -- the run passes the same tests in the same order
  unfold run
  simp only [hcheck, hrewards]
  have hstart' : (s.startOver r.reaction.toFloat).landscape.rate initial = .ok start := hstart
  simp only [hstart', hcost]
  exact travel_of_count hcount

theorem embark_of_run {best : Rated σ} (h : (s.run initial r gauge world).result = .ok best) :
    ∃ start, s.embark initial r gauge world = .ok start := by
  -- a run that returns has passed all that a start has to pass
  unfold run at h
  split at h
  · cases h
  rename_i hcheck
  dsimp only at h
  split at h
  · cases h
  rename_i rewards hrewards
  split at h
  · cases h
  rename_i start hstart
  split at h
  · cases h
  rename_i cost hcost
  unfold travel at h
  split at h
  · cases h
  rename_i n hcount
  have hstart' : s.landscape.rate initial = .ok start := hstart
  simp only [embark, hcheck, hrewards, hstart', hcost, hcount, bind, Except.bind]
  exact ⟨_, rfl⟩

/-- A run that has returned a solution. -/
structure Completed (s : Solver σ κ ω γ π) (initial : σ) (r : Request) (gauge : γ) (world : ω)
    (best : Rated σ) (setting : Setting σ κ ω γ π Float) (first last : Walk σ κ ω γ π Float)
    (n : Nat) : Prop extends Embarked s initial r gauge world setting first n where
  course : Course setting first (s.stages initial r gauge world) last
  stages : s.stages initial r gauge world = first.stages setting n
  length : (s.stages initial r gauge world).length = n
  returned : last.best = best
  recorded : (s.run initial r gauge world).solver.trace = last.trace
  adapted : (s.run initial r gauge world).solver.selector = last.selector

theorem run_ok {best : Rated σ} (h : (s.run initial r gauge world).result = .ok best) :
    ∃ setting first last n, s.Completed initial r gauge world best setting first last n := by
  obtain ⟨⟨setting, first, n⟩, hembark⟩ := embark_of_run h
  have hstages : s.stages initial r gauge world = first.stages setting n := by
    simp only [stages, hembark]
  have hrun := run_of_embark hembark
  rw [hrun] at h
  cases hwalk : Walk.run setting n first with
  | error stop => rw [hwalk] at h; cases h
  | ok last =>
      simp only [hwalk] at h hrun
      cases htext : last.best.cost.fixed? 2 with
      | error fault => rw [htext] at h; cases h
      | ok text =>
          simp only [htext] at h hrun
          obtain ⟨hcourse, hlength⟩ := Walk.course_of_run .start n hwalk
          refine ⟨setting, first, last, n, ?_⟩
          exact {
            embark_ok hembark with
            course := by rw [hstages]; exact hcourse
            stages := hstages
            length := by rw [hstages]; exact hlength
            returned := by injection h
            recorded := by rw [hrun]; rfl
            adapted := by rw [hrun]; rfl }

namespace Completed

variable {best : Rated σ} {setting : Setting σ κ ω γ π Float} {first last : Walk σ κ ω γ π Float}
  {n : Nat}

/-- Every stage of a run records its row. -/
theorem history_eq (h : s.Completed initial r gauge world best setting first last n) :
    s.history initial r gauge world = (s.stages initial r gauge world).map Stage.entry := by
  rw [history, h.recorded, h.course.entries, h.trace]
  rfl

/-- The last stage of a run leads to its last walk. -/
theorem stages_eq (h : s.Completed initial r gauge world best setting first last n) :
    ∃ done st, s.stages initial r gauge world = done ++ [st] ∧ st.after = last := by
  have hne : s.stages initial r gauge world ≠ [] := by
    intro hnil
    have hlength := h.length
    have hpos := h.pos
    rw [hnil, List.length_nil] at hlength
    omega
  obtain ⟨done, st, hstages⟩ := (List.eq_nil_or_concat' _).resolve_left hne
  exact ⟨done, st, hstages, (Course.last (hstages ▸ h.course)).2.2⟩

end Completed

/-! ## A scripted solver -/

/-- A solver that reads its candidates off a script. Its solutions are numbers, which cost their
tens. -/
def scripted {γ π : Type} (criterion : Criterion Nat (List Nat) γ π) :
    Solver Nat Nat (List Nat) γ π where
  landscape := { cost := fun n => .ok (.whole (n / 10 : Nat)), key := .ok }
  criterion := criterion
  criterionName := "script"
  draw := fun script => (.ok 0, script)
  segment := .whole 3
  logInterval := .whole 0
  selector :=
    { destroyers := [⟨0, "read", fun n script => (.ok (script.headD n), script.tail), 1, 1, 0⟩]
      repairers := [⟨0, "keep", fun n script => (.ok n, script), 1, 1, 0⟩]
      reaction := standardReaction }
  trace := .empty

/-- A criterion that reads its decisions off its gauge. -/
def decided {σ ω : Type} : Criterion σ ω (List Bool) Unit where
  judge := fun _ _ _ decisions world => (.ok (decisions.headD false), decisions.tail, world)
  reading := fun _ => ()

/-- A request for four iterations. -/
def fourIterations : Request := ⟨[.real 3, .real 2, .real 1], .real 0.5, .whole 4⟩

end Solver

end LargeNeighborhood
