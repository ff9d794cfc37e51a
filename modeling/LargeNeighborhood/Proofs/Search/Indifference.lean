import LargeNeighborhood.Proofs.Search.Lockstep
import LargeNeighborhood.Proofs.Search.Positivity

set_option autoImplicit false

/-! # When adaptation makes no difference

Rewards, the reaction factor and the length of the segments act on a search through the weights, and
the weights through the wheel only. Two wheels turn alike if all their weights are one, as they are
by a reaction of zero (`Selector.alike_of_level`), or if each has one weight that is not refused
(`Selector.alike_of_single`). Then two runs walk in lockstep, and their histories are the same but
for the scores (`Walk.run_alike`, `Solver.run_indifferent`).
-/

namespace LargeNeighborhood

open Rounding

variable {σ κ ω γ π ν : Type}

/-! ## Wheels with one weight -/

namespace Roulette

variable [Scalar ν] {draw : ω → Except Fault ν × ω}

theorem total?_of_spin {ws : List ν} {world : ω} {i : Nat} (h : (spin draw ws world).1 = .ok i) :
    ∃ total, total? ws = .ok total := by
  unfold spin at h
  split at h
  · cases h
  · exact ⟨_, ‹_›⟩

/-- The only item is picked, whatever is drawn. -/
theorem spin_singleton {w total : ν} (h : total? [w] = .ok total) (world : ω) :
    spin draw [w] world = ((draw world).1.map fun _ => 0, (draw world).2) := by
  have hpick : ∀ u, pick [w] u = .ok 0 := by
    intro u
    have hlt : itemAt [w] (u * total) < 1 := itemAt_lt (List.cons_ne_nil w []) _
    unfold pick
    rw [h]
    exact congrArg Except.ok (Nat.lt_one_iff.mp hlt)
  unfold spin
  rw [h]
  dsimp only
  cases (draw world).1 with
  | error fault => rfl
  | ok u => exact congrArg (·, (draw world).2) (hpick u)

end Roulette

/-! ## Selectors whose wheels turn alike -/

namespace Selector

/-- The same operators, with whatever numbers. -/
def SameOperators (a a' : Selector ν Nat (Action σ ω)) : Prop :=
  ∀ role, a.identities role = a'.identities role

variable [Scalar ν] {draw : ω → Except Fault ν × ω} {a a' : Selector ν Nat (Action σ ω)}

/-- The same operators, with weights between which no draw makes a difference. -/
structure Alike (draw : ω → Except Fault ν × ω) (a a' : Selector ν Nat (Action σ ω)) : Prop where
  operators : a.SameOperators a'
  spin : ∀ role world, Roulette.spin draw ((a.pool role).map Operator.weight) world =
    Roulette.spin draw ((a'.pool role).map Operator.weight) world

theorem drawing_alike (draw : ω → Except Fault ν × ω) :
    Drawing draw (Alike draw : Selector ν Nat (Action σ ω) → Selector ν Nat (Action σ ω) → Prop) where
  identities := fun h => h.operators
  spin := fun h => h.spin
  use := by
    intro a a' h role i
    -- to count a use changes no identity and no weight
    have hused : ∀ (b : Selector ν Nat (Action σ ω)) other,
        (b.setPool role (Pool.use (b.pool role) i)).identities other = b.identities other ∧
          ((b.setPool role (Pool.use (b.pool role) i)).pool other).map Operator.weight =
            (b.pool other).map Operator.weight := by
      intro b other
      cases role <;> cases other <;> simp [identities, setPool, pool]
    constructor
    · intro other
      rw [(hused a other).1, (hused a' other).1]
      exact h.operators other
    · intro other world
      rw [(hused a other).2, (hused a' other).2]
      exact h.spin other world

theorem alike_of_single (h : a.SameOperators a') (hlength : ∀ role, (a.pool role).length = 1)
    (htotal : ∀ role, ∃ total, Roulette.total? ((a.pool role).map Operator.weight) = .ok total)
    (htotal' : ∀ role, ∃ total, Roulette.total? ((a'.pool role).map Operator.weight) = .ok total) :
    Alike draw a a' where
  operators := h
  spin := by
    intro role world
    obtain ⟨total, htotal⟩ := htotal role
    obtain ⟨total', htotal'⟩ := htotal' role
    have hlength' : (a'.pool role).length = 1 := by
      rw [← Pool.length_congr (h role)]
      exact hlength role
    obtain ⟨op, hop⟩ := List.length_eq_one_iff.mp (hlength role)
    obtain ⟨op', hop'⟩ := List.length_eq_one_iff.mp hlength'
    rw [hop, List.map_singleton] at htotal ⊢
    rw [hop', List.map_singleton] at htotal' ⊢
    rw [Roulette.spin_singleton htotal, Roulette.spin_singleton htotal']

end Selector

namespace Selector

variable {draw : ω → Except Fault Float × ω} {a a' : Selector Float Nat (Action σ ω)}

theorem alike_of_level (h : a.SameOperators a') (hlevel : a.All fun op => op.weight = 1.0)
    (hlevel' : a'.All fun op => op.weight = 1.0) : Alike draw a a' where
  operators := h
  spin := by
    intro role world
    have hones : ∀ b : Selector Float Nat (Action σ ω), (b.All fun op => op.weight = 1.0) →
        (b.pool role).map Operator.weight = List.replicate (b.pool role).length 1.0 := by
      intro b hb
      rw [List.eq_replicate_iff]
      refine ⟨List.length_map _, ?_⟩
      intro weight hweight
      obtain ⟨op, hop, rfl⟩ := List.mem_map.mp hweight
      exact hb role op hop
    rw [hones a hlevel, hones a' hlevel', Pool.length_congr (h role)]

/-- A wheel with one positive or undefined weight is not refused. -/
theorem All.total_of_single {k : Nat} (h : a.All (Operator.Usable k))
    (hlength : ∀ role, (a.pool role).length = 1) (role : Role) :
    ∃ total, Roulette.total? ((a.pool role).map Operator.weight) = .ok total := by
  apply h.exists_total_ok
  intro hnil
  have hone := hlength role
  rw [hnil] at hone
  cases hone

end Selector

/-! ## Walks -/

/-- A row without its score. -/
def Entry.unscored {π : Type} (e : Entry ν π) : Entry Unit π := { e with score := () }

/-- Two records whose rows differ in their scores only. -/
def Trace.SameUnscored {π : Type} (t t' : Trace ν π) : Prop :=
  t.entries.map Entry.unscored = t'.entries.map Entry.unscored

variable {γ π : Type}

namespace Walk

variable [Scalar ν] {s s' : Setting σ κ ω γ π ν} {w w' : Walk σ κ ω γ π ν} {i : Nat}
  {t t' : Turn σ κ ω ν}

theorem settle_identities (role : Role) :
    (w.settle s i t).2.selector.identities role = w.selector.identities role := by
  rw [settle_selector]
  dsimp only
  split
  · rw [Selector.identities_adapt, Selector.identities_credit]
  · rw [Selector.identities_credit]

/-- What holds of the costs that an iteration meets holds of those in its row. -/
theorem settle_costs {P : Cost → Prop} (hbest : P w.best.cost) (hcurrent : P w.current.cost)
    (hcandidate : P t.candidate.cost) :
    P (w.settle s i t).1.best ∧ P (w.settle s i t).1.current := by
  have hmoved : P (w.settle s i t).2.current.cost := by
    rw [settle_current]
    split
    · exact hcandidate
    · exact hcurrent
  rw [settle_entry]
  dsimp only
  refine ⟨?_, hmoved⟩
  rw [settle_best]
  split
  · exact hmoved
  · exact hbest

theorem settle_unscored_eq (hcriterion : s.criterion = s'.criterion)
    (h : w.Abreast Selector.SameOperators Eq Trace.SameUnscored w') (ht : t.Matches t') :
    (w.settle s i t).1.unscored = (w'.settle s' i t').1.unscored := by
  have hreading : (w'.settle s' i t').1.reading = s.criterion.reading w.gauge := by
    rw [settle_entry, hcriterion, h.gauge]
  rw [settle_entry_eq h ht, ← hreading]
  rfl

variable [BEq κ]

/-- Two runs walk in lockstep as long as their wheels turn alike and their rows can be
announced. -/
theorem run_alike {P : Cost → Prop} {first first' : Walk σ κ ω γ π ν} {n : Nat}
    (hlandscape : s.landscape = s'.landscape) (hcriterion : s.criterion = s'.criterion)
    (hdraw : s.draw = s'.draw)
    (hannounce : ∀ e, P e.best → P e.current → ∃ text, s.announce e = .ok text)
    (hannounce' : ∀ e, P e.best → P e.current → ∃ text, s'.announce e = .ok text)
    (hfirst : first.Abreast Selector.SameOperators Eq Trace.SameUnscored first')
    (hbest : P first.best.cost) (hcurrent : P first.current.cost)
    (hrecorded : ∀ e ∈ (reached (run s n first)).trace.entries.toList, P e.candidate)
    (halike : ∀ done done' w w', Course s first done w → Course s' first' done' w' →
      done'.length = done.length → done.length < n → w.selector.SameOperators w'.selector →
      Selector.Alike s.draw w.selector w'.selector) :
    Agrees (StopsAlike Selector.SameOperators Eq Trace.SameUnscored)
      (Abreast Selector.SameOperators Eq Trace.SameUnscored) (run s n first) (run s' n first') := by
  apply run_lockstep hfirst
  intro done done' w w' hcourse hcourse' hlength hn h
  have hselector := halike done done' w w' hcourse hcourse' hlength hn h.selector
  obtain ⟨⟨hbest, hcurrent⟩, hcandidate⟩ := hcourse.costs hn hbest hcurrent hrecorded
  have hsame : ∀ a a' : Selector ν Nat (Action σ ω), a.Alike s.draw a' → a.SameOperators a' :=
    fun _ _ hop => hop.operators
  apply iterate_agrees (Selector.drawing_alike s.draw) hsame hdraw hlandscape
    { h with selector := hselector }
  · intro p p' w₁ w₁' _ _ hp h₁
    exact decision_agrees h₁ hcriterion hp
  · intro t t' w₁ w₁' hw₁ _ ht h₁
    generalize done.length + 1 = i
    have hout := attempt_ok hw₁
    have hunscored : (w₁.settle s i t).1.unscored = (w₁'.settle s' i t').1.unscored :=
      settle_unscored_eq hcriterion (h₁.imp hsame) ht
    refine ⟨?_, ?_, ?_⟩
    · intro role
      rw [settle_identities, settle_identities]
      exact h₁.selector.operators role
    · unfold Trace.SameUnscored
      rw [settle_entries, settle_entries, Array.map_push, Array.map_push, h₁.trace, hunscored]
    · -- The rows may be announced at other times, so it matters that announcing succeeds.
      obtain ⟨hrowBest, hrowCurrent⟩ : P (w₁.settle s i t).1.best ∧ P (w₁.settle s i t).1.current :=
        settle_costs (hout.best ▸ hbest) (hout.current ▸ hcurrent) (hcandidate t w₁ hw₁)
      have hsameBest : (w₁.settle s i t).1.best = (w₁'.settle s' i t').1.best :=
        congrArg (fun e : Entry Unit π => e.best) hunscored
      have hsameCurrent : (w₁.settle s i t).1.current = (w₁'.settle s' i t').1.current :=
        congrArg (fun e : Entry Unit π => e.current) hunscored
      obtain ⟨text, htext⟩ := hannounce _ hrowBest hrowCurrent
      obtain ⟨text', htext'⟩ := hannounce' _ (hsameBest ▸ hrowBest) (hsameCurrent ▸ hrowCurrent)
      rw [htext, htext']
      exact .ok trivial

/-- An attempt that succeeds has found both wheels fit to be spun. -/
theorem total_of_attempt {turn : Turn σ κ ω ν} {judged : Walk σ κ ω γ π ν}
    (h : w.attempt s = .ok (turn, judged)) (role : Role) :
    ∃ total, Roulette.total? ((w.selector.pool role).map Operator.weight) = .ok total := by
  obtain ⟨⟨destroyer, w₁⟩, hdestroyer, h⟩ := bind_eq_ok.mp h
  obtain ⟨⟨repairer, w₂⟩, hrepairer, -⟩ := bind_eq_ok.mp h
  obtain ⟨i, world, -, hspin, rfl⟩ := choose_ok hdestroyer
  cases role with
  | destroy => exact Roulette.total?_of_spin (congrArg Prod.fst hspin)
  | repair =>
      -- The first draw has left the other pool alone.
      obtain ⟨j, world', -, hspin', -⟩ := choose_ok hrepairer
      have htotal := Roulette.total?_of_spin (congrArg Prod.fst hspin')
      exact htotal

end Walk

/-! ## Costs in range -/

/-- A quantity that is a real, or a whole number within the range of the reals. -/
def Quantity.InRange (q : Quantity) : Prop := ∃ x, q.toReal? = .ok x

instance (q : Quantity) : Decidable q.InRange :=
  match h : q.toReal? with
  | .ok x => isTrue ⟨x, h⟩
  | .error _ => isFalse (by rintro ⟨x, hx⟩; rw [h] at hx; cases hx)

namespace Solver

/-- Rows with costs in range can be announced. -/
theorem exists_progress_ok {iterations logInterval : Quantity} {e : Entry Float π}
    (hbest : e.best.InRange) (hcurrent : e.current.InRange) :
    ∃ text, progress iterations logInterval e = .ok text := by
  have hfixed : ∀ q : Quantity, q.InRange → ∃ text, q.fixed? 2 = .ok text := by
    rintro q ⟨x, hx⟩
    exact ⟨fixed 2 x, bind_eq_ok.mpr ⟨x, hx, rfl⟩⟩
  unfold progress
  split
  · apply exists_bind_ok (hfixed _ hbest)
    intro best _
    apply exists_bind_ok (hfixed _ hcurrent)
    intro current _
    exact ⟨_, rfl⟩
  · exact ⟨_, rfl⟩

end Solver

/-! ## Runs of a solver -/

/-- Two outcomes of the same search: the same result in the same world, and histories that are the
same but for the scores. -/
def Outcome.SameSearch (o o' : Outcome σ κ ω γ π) : Prop :=
  o.Abreast Selector.SameOperators Eq Trace.SameUnscored o'

/-- All weights that a run has recorded are one. -/
def Outcome.Level (o : Outcome σ κ ω γ π) : Prop :=
  ∀ x ∈ o.solver.trace.snapshots.toList, x.Level

namespace Solver

/-- The same solver with segments of another length and lines at another interval. -/
def paced (s : Solver σ κ ω γ π) (segment logInterval : Quantity) : Solver σ κ ω γ π :=
  { s with segment, logInterval }

variable [BEq κ] {s : Solver σ κ ω γ π} {initial : σ} {r r' : Request} {gauge : γ} {world : ω}
  {segment logInterval : Quantity}

/-- Two requests that may differ in their rewards and in the reaction. Both are accepted, and the
costs that a run meets by the first one are numbers within the range of the reals. -/
structure Comparable (s : Solver σ κ ω γ π) (initial : σ) (r r' : Request) (gauge : γ) (world : ω) :
    Prop where
  check : s.check r = .ok ()
  check' : s.check r' = .ok ()
  iterations : r'.iterations = r.iterations
  rewards : ∃ rewards, rewards? r.rewards = .ok rewards
  rewards' : ∃ rewards, rewards? r'.rewards = .ok rewards
  initialCost : ∀ cost, s.landscape.cost initial = .ok cost → cost.InRange
  candidates : ∀ e ∈ s.history initial r gauge world, e.candidate.InRange

/-- Runs whose wheels turn alike make the same search. -/
theorem sameSearch_of_alike (h : s.Comparable initial r r' gauge world)
    (halike : ∀ setting setting' first first' n,
      s.embark initial r gauge world = .ok (setting, first, n) →
      (s.paced segment logInterval).embark initial r' gauge world = .ok (setting', first', n) →
      ∀ done done' w w', Course setting first done w → Course setting' first' done' w' →
        done'.length = done.length → done.length < n → w.selector.SameOperators w'.selector →
        Selector.Alike setting.draw w.selector w'.selector) :
    (s.run initial r gauge world).SameSearch
      ((s.paced segment logInterval).run initial r' gauge world) := by
  have hoperators : (s.startOver r.reaction.toFloat).selector.SameOperators
      ((s.paced segment logInterval).startOver r'.reaction.toFloat).selector := by
    intro role
    rw [identities_startOver, identities_startOver]
    rfl
  have hempty : Trace.SameUnscored (.empty : Trace Float π) .empty := rfl
  have hcount : count? r = count? r' := by
    unfold count?
    rw [h.iterations]
  have hrewards : Agrees Eq (fun _ _ => True) (rewards? r.rewards) (rewards? r'.rewards) := by
    obtain ⟨rewards, hrewards⟩ := h.rewards
    obtain ⟨rewards', hrewards'⟩ := h.rewards'
    rw [hrewards, hrewards']
    exact .ok trivial
  have hcheck' : (s.paced segment logInterval).check r' = .ok () := h.check'
  apply run_abreast h.check hcheck' hrewards rfl (.of_eq hcount)
    rfl hoperators hempty
  intro setting setting' first first' n n' hembark hembark'
  have hout := embark_ok hembark
  have hout' := embark_ok hembark'
  obtain rfl : n = n' := by
    have hboth := hout.count.symm.trans (h.iterations.symm.trans hout'.count)
    injection hboth with hboth
    omega
  have hbest : first.best.cost.InRange := h.initialCost _ hout.cost
  apply Walk.run_alike (P := Quantity.InRange)
  · exact hout.landscape.trans hout'.landscape.symm
  · exact hout.criterion.trans hout'.criterion.symm
  · exact hout.draw.trans hout'.draw.symm
  · intro e hbest hcurrent
    rw [hout.announce]
    exact exists_progress_ok hbest hcurrent
  · intro e hbest hcurrent
    rw [hout'.announce]
    exact exists_progress_ok hbest hcurrent
  · exact hout.abreast hout' rfl rfl hoperators hempty
  · exact hbest
  · rw [hout.current]
    exact hbest
  · rw [← (run_reached hembark).2]
    exact h.candidates
  · exact halike setting setting' first first' n hembark hembark'

/-! ### Frozen weights -/

theorem sameSearch_of_zero (h : s.Comparable initial r r' gauge world)
    (hzero : r.reaction.same (.whole 0) = true) (hzero' : r'.reaction.same (.whole 0) = true)
    (hscores : s.ScoresFinite initial r gauge world)
    (hscores' : (s.paced segment logInterval).ScoresFinite initial r' gauge world) :
    (s.run initial r gauge world).SameSearch
      ((s.paced segment logInterval).run initial r' gauge world) := by
  apply sameSearch_of_alike h
  intro setting setting' first first' n hembark hembark' done done' w w' hcourse hcourse' hlength hn
    hoperators
  have hn' : done'.length ≤ n := by omega
  obtain ⟨hlevel, -⟩ := level_of_embark hembark hcourse hn.le hzero hscores
  obtain ⟨hlevel', -⟩ := level_of_embark hembark' hcourse' hn' hzero' hscores'
  exact Selector.alike_of_level hoperators hlevel hlevel'

/-- By a reaction of zero the snapshots of a run show weights of one. -/
theorem run_level (hcheck : s.check r = .ok ())
    (hinitial : ∀ cost, s.landscape.cost initial = .ok cost → cost.InRange)
    (hcandidates : ∀ e ∈ s.history initial r gauge world, e.candidate.InRange)
    (hzero : r.reaction.same (.whole 0) = true) (hscores : s.ScoresFinite initial r gauge world) :
    (s.run initial r gauge world).Level := by
  unfold Outcome.Level
  cases hembark : s.embark initial r gauge world with
  | error fault =>
      rcases run_of_embark_error hembark with ⟨hrefused, -⟩ | ⟨-, printed, hrun⟩
      · rw [hcheck] at hrefused
        cases hrefused
      · rw [hrun]
        intro x hx
        cases hx
  | ok made =>
      obtain ⟨setting, first, n⟩ := made
      have hout := embark_ok hembark
      have hbest : first.best.cost.InRange := hinitial _ hout.cost
      have hcurrent : first.current.cost.InRange := by
        rw [hout.current]
        exact hbest
      obtain ⟨-, htrace⟩ := run_reached hembark
      unfold history at hcandidates
      rw [htrace] at hcandidates ⊢
      -- costs in range pass from the record to the solutions, so that every row can be printed
      have hannounced : ∀ done w turn judged, Course setting first done w → done.length < n →
          w.attempt setting = .ok (turn, judged) →
          ∃ text, setting.announce (judged.settle setting (done.length + 1) turn).1 = .ok text := by
        intro done w turn judged hcourse hlt hattempt
        obtain ⟨⟨hbest, hcurrent⟩, hcandidate⟩ := hcourse.costs hlt hbest hcurrent hcandidates
        have hjudged := Walk.attempt_ok hattempt
        obtain ⟨hrowBest, hrowCurrent⟩ :=
          Walk.settle_costs (s := setting) (i := done.length + 1) (hjudged.best ▸ hbest)
            (hjudged.current ▸ hcurrent) (hcandidate turn judged hattempt)
        rw [hout.announce]
        exact exists_progress_ok hrowBest hrowCurrent
      obtain ⟨done, w, hcourse, hn, hdrift⟩ := Walk.reached_of_announced hannounced
      rw [hdrift.trace]
      exact (level_of_embark hembark hcourse hn hzero hscores).2

/-- The candidates of two runs that make the same search cost the same. -/
theorem candidates_of_sameSearch {s' : Solver σ κ ω γ π}
    (h : (s.run initial r gauge world).SameSearch (s'.run initial r' gauge world))
    (hcandidates : ∀ e ∈ s.history initial r gauge world, e.candidate.InRange) :
    ∀ e ∈ s'.history initial r' gauge world, e.candidate.InRange := by
  intro e' he'
  have hunscored : e'.unscored ∈
      ((s'.run initial r' gauge world).solver.trace.entries.map Entry.unscored).toList := by
    rw [Array.toList_map]
    exact List.mem_map_of_mem he'
  rw [← h.trace, Array.toList_map] at hunscored
  obtain ⟨e, he, heq⟩ := List.mem_map.mp hunscored
  have hcandidate : e.candidate = e'.candidate :=
    congrArg (fun x : Entry Unit π => x.candidate) heq
  rw [← hcandidate]
  exact hcandidates e he

/-! ### Single operators -/

theorem length_pool_of_course {setting : Setting σ κ ω γ π Float} {first w : Walk σ κ ω γ π Float}
    {n : Nat} {done : List (Stage σ κ ω γ π Float)}
    (hembark : s.embark initial r gauge world = .ok (setting, first, n))
    (hcourse : Course setting first done w) (role : Role) :
    (w.selector.pool role).length = (s.selector.pool role).length :=
  Pool.length_congr ((hcourse.identities_eq role).trans ((embark_ok hembark).identities_eq role))

/-- Of two pools of one operator, neither is refused in a run of no more than so many iterations. -/
theorem sameSearch_of_single (h : s.Comparable initial r r' gauge world)
    (hlength : ∀ role, (s.selector.pool role).length = 1) {m : Nat} (hm : r.iterations = .whole m)
    (hbound : m ≤ 2 ^ 1023) :
    (s.run initial r gauge world).SameSearch
      ((s.paced segment logInterval).run initial r' gauge world) := by
  apply sameSearch_of_alike h
  intro setting setting' first first' n hembark hembark' done done' w w' hcourse hcourse' hdone hn
    hoperators
  have hout := embark_ok hembark
  have hout' := embark_ok hembark'
  have hnm : n = m := hout.count_eq hm
  have hone : ∀ role, (w.selector.pool role).length = 1 :=
    fun role => (length_pool_of_course hembark hcourse role).trans (hlength role)
  have hone' : ∀ role, (w'.selector.pool role).length = 1 :=
    fun role => (length_pool_of_course hembark' hcourse' role).trans (hlength role)
  have husable := hout.usable hcourse (by omega)
  have husable' := hout'.usable hcourse' (by omega)
  exact Selector.alike_of_single hoperators hone (husable.total_of_single hone)
    (husable'.total_of_single hone')

/-- A run that returns a solution has succeeded in every attempt. -/
theorem attempt_of_result {setting : Setting σ κ ω γ π Float} {first w : Walk σ κ ω γ π Float}
    {n : Nat} {done : List (Stage σ κ ω γ π Float)} (h : Course setting first done w)
    (hembark : s.embark initial r gauge world = .ok (setting, first, n)) {best : Rated σ}
    (hbest : (s.run initial r gauge world).result = .ok best) (hn : done.length < n) :
    ∃ turn judged, w.attempt setting = .ok (turn, judged) := by
  cases hattempt : w.attempt setting with
  | ok made => exact ⟨made.1, made.2, rfl⟩
  | error stop =>
      rw [run_of_embark hembark, h.run_of_attempt_error hn hattempt] at hbest
      cases hbest

theorem sameSearch_of_results (h : s.Comparable initial r r' gauge world)
    (hlength : ∀ role, (s.selector.pool role).length = 1) {best best' : Rated σ}
    (hbest : (s.run initial r gauge world).result = .ok best)
    (hbest' : ((s.paced segment logInterval).run initial r' gauge world).result = .ok best') :
    (s.run initial r gauge world).SameSearch
      ((s.paced segment logInterval).run initial r' gauge world) := by
  apply sameSearch_of_alike h
  intro setting setting' first first' n hembark hembark' done done' w w' hcourse hcourse' hdone hn
    hoperators
  have hone : ∀ role, (w.selector.pool role).length = 1 :=
    fun role => (length_pool_of_course hembark hcourse role).trans (hlength role)
  obtain ⟨turn, judged, hattempt⟩ := attempt_of_result hcourse hembark hbest hn
  obtain ⟨turn', judged', hattempt'⟩ :=
    attempt_of_result hcourse' hembark' hbest' (hdone.trans_lt hn)
  exact Selector.alike_of_single hoperators hone (Walk.total_of_attempt hattempt)
    (Walk.total_of_attempt hattempt')

/-- Where adaptation cannot matter, it does not. Take two runs from the same start that differ in
their rewards, in the length of their segments and in what they print. By a reaction of zero they
make the same search as long as no score overflows, and all weights that they record are one. If
each pool has one operator, they make the same search whatever the reactions are; only beyond `2 ^
1023` iterations might a weight vanish and the wheel be refused in one of them, but where both
return a solution their searches are the same still. -/
theorem run_indifferent (s : Solver σ κ ω γ π) (segment logInterval : Quantity) {initial : σ}
    {r r' : Request} {gauge : γ} {world : ω} (h : s.Comparable initial r r' gauge world) :
    let s' := s.paced segment logInterval
    let o := s.run initial r gauge world
    let o' := s'.run initial r' gauge world
    (r.reaction.same (.whole 0) = true → r'.reaction.same (.whole 0) = true →
      s.ScoresFinite initial r gauge world → s'.ScoresFinite initial r' gauge world →
        o.SameSearch o' ∧ o.Level ∧ o'.Level) ∧
      ((∀ role, (s.selector.pool role).length = 1) →
        (∀ n : Nat, r.iterations = .whole n → n ≤ 2 ^ 1023 → o.SameSearch o') ∧
        ∀ best best', o.result = .ok best → o'.result = .ok best' → o.SameSearch o') := by
  intro s' o o'
  constructor
  · intro hzero hzero' hscores hscores'
    have hsame : o.SameSearch o' := sameSearch_of_zero h hzero hzero' hscores hscores'
    have hlevel : o.Level := run_level h.check h.initialCost h.candidates hzero hscores
    have hlevel' : o'.Level := run_level (s := s') h.check' h.initialCost
      (candidates_of_sameSearch hsame h.candidates) hzero' hscores'
    exact ⟨hsame, hlevel, hlevel'⟩
  · intro hlength
    constructor
    · intro n hn hbound
      exact sameSearch_of_single h hlength hn hbound
    · intro best best' hbest hbest'
      exact sameSearch_of_results h hlength hbest hbest'

/-- Two destroy operators with frozen weights take turns in the same order, whatever the rewards and
the segments are; a single operator is drawn in every iteration, whatever it weighs. -/
theorem run_indifferent_manned :
    let decisions := [true, true, false, true, true]
    let script := [52, 71, 33, 25, 24]
    let frozen : Request := ⟨[.real 3, .real 2, .real 1], .whole 0, .whole 5⟩
    let dear : Request := ⟨[.whole 7, .real 0.5, .real 0], .real 0.0, .whole 5⟩
    let plain := manned.run 80 frozen decisions script
    let other := (manned.paced (.whole 3) (.whole 1)).run 80 dear decisions script
    let single : Solver Nat Nat (List Nat) (List Bool) Unit := scripted decided
    let keen : Request := ⟨dear.rewards, .whole 1, .whole 4⟩
    let mild := single.run 80 fourIterations decisions script
    let sharp := (single.paced (.whole 1) (.whole 2)).run 80 keen decisions script
    plain.result = .ok ⟨25, .whole 2⟩ ∧ plain.SameSearch other ∧
      other.solver.trace.entries.toList.map Entry.destroyer =
        ["read_1", "read", "read_1", "read", "read_1"] ∧
      plain.solver.trace.entries.toList.map Entry.score = [3, 1, 2, 3, 1] ∧
      other.solver.trace.entries.toList.map Entry.score = [7, 0, 0.5, 7, 0] ∧
      other.Level ∧
      mild.SameSearch sharp ∧
      sharp.solver.trace.snapshots.toList.map Snapshot.destroy =
        [[("read", 8)], [("read", 1)], [("read", 1.5)], [("read", 8)]] := by
  intro decisions script frozen dear plain other single keen mild sharp
  have hinitial : ∀ cost, manned.landscape.cost 80 = .ok cost → cost.InRange := by
    intro cost hcost
    cases hcost
    decide
  have hscores : manned.ScoresFinite 80 frozen decisions script := by
    intro role
    cases role <;> decide +kernel
  have hscores' : (manned.paced (.whole 3) (.whole 1)).ScoresFinite 80 dear decisions script := by
    intro role
    cases role <;> decide +kernel
  have hlength : ∀ role, (single.selector.pool role).length = 1 := by
    intro role
    cases role <;> rfl
  have hcomparable : manned.Comparable 80 frozen dear decisions script := {
    check := by decide +kernel
    check' := by decide +kernel
    iterations := rfl
    rewards := ⟨_, rfl⟩
    rewards' := ⟨_, rfl⟩
    initialCost := hinitial
    candidates := by decide +kernel }
  have hcomparable' : single.Comparable 80 fourIterations keen decisions script := {
    check := by decide +kernel
    check' := by decide +kernel
    iterations := rfl
    rewards := ⟨_, rfl⟩
    rewards' := ⟨_, rfl⟩
    initialCost := hinitial
    candidates := by decide +kernel }
  obtain ⟨hzero, -⟩ := run_indifferent manned (.whole 3) (.whole 1) hcomparable
  obtain ⟨hsame, -, hlevel⟩ := hzero (by decide +kernel) (by decide +kernel) hscores hscores'
  obtain ⟨-, hone⟩ := run_indifferent single (.whole 1) (.whole 2) hcomparable'
  have hsharp : mild.SameSearch sharp := (hone hlength).1 4 rfl (by decide +kernel)
  exact ⟨by decide +kernel, hsame, by decide +kernel, by decide +kernel, by decide +kernel, hlevel,
    hsharp, by decide +kernel⟩

end Solver

end LargeNeighborhood
