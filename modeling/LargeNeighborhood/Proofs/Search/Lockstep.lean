import LargeNeighborhood.Proofs.Search.Interruption

set_option autoImplicit false

/-! # Two runs in lockstep

Two walks are abreast when they stand at the same solutions in the same world, while their
selectors, their gauges and their records are related in some way (`Walk.Abreast`). If the selectors
draw alike, both walks propose the same candidate; if the criteria decide alike, both settle it
alike. So an iteration keeps two walks abreast, or stops both with the same fault
(`Walk.iterate_agrees`), and so does a whole run (`Walk.run_lockstep`); then the solvers have the
same outcome (`Solver.run_abreast`).
-/

namespace LargeNeighborhood

variable {σ κ ω γ π ν : Type}

/-! ## Selectors that draw alike -/

/-- A relation of selectors that draw the same operators, and keep to it when they count uses. -/
structure Selector.Drawing [Scalar ν] (draw : ω → Except Fault ν × ω)
    (S : Selector ν Nat (Action σ ω) → Selector ν Nat (Action σ ω) → Prop) : Prop where
  identities : ∀ {a a'}, S a a' → ∀ role, a.identities role = a'.identities role
  spin : ∀ {a a'}, S a a' → ∀ role world,
    Roulette.spin draw ((a.pool role).map Operator.weight) world =
      Roulette.spin draw ((a'.pool role).map Operator.weight) world
  use : ∀ {a a'}, S a a' → ∀ role i,
    S (a.setPool role (Pool.use (a.pool role) i)) (a'.setPool role (Pool.use (a'.pool role) i))

namespace Selector

theorem Drawing.eq [Scalar ν] (draw : ω → Except Fault ν × ω) :
    Drawing draw (Eq : Selector ν Nat (Action σ ω) → Selector ν Nat (Action σ ω) → Prop) where
  identities := fun h role => by rw [h]
  spin := fun h role world => by rw [h]
  use := fun h role i => by rw [h]

@[simp] theorem setPool_pool {τ β : Type} (a : Selector ν τ β) (role : Role) :
    a.setPool role (a.pool role) = a := by
  cases role <;> rfl

/-- Operators at the same position of two pools with the same operators. -/
theorem getElem?_identity {τ β : Type} {a a' : Selector ν τ β} {role : Role}
    (h : a.identities role = a'.identities role) (i : Nat) :
    (a.pool role)[i]?.map Operator.identity = (a'.pool role)[i]?.map Operator.identity := by
  rw [← List.getElem?_map, ← List.getElem?_map]
  exact congrArg (fun ids : List (Nat × String × β) => ids[i]?) h

end Selector

/-! ## Walks abreast -/

/-- Two walks at the same solutions in the same world. -/
structure Walk.Abreast
    (S : Selector ν Nat (Action σ ω) → Selector ν Nat (Action σ ω) → Prop) (G : γ → γ → Prop)
    (T : Trace ν π → Trace ν π → Prop) (w w' : Walk σ κ ω γ π ν) : Prop where
  world : w.world = w'.world
  gauge : G w.gauge w'.gauge
  selector : S w.selector w'.selector
  best : w.best = w'.best
  current : w.current = w'.current
  accepted : w.accepted = w'.accepted
  trace : T w.trace w'.trace

/-- Two walks that have stopped abreast, for the same reason. -/
def Walk.StopsAlike
    (S : Selector ν Nat (Action σ ω) → Selector ν Nat (Action σ ω) → Prop) (G : γ → γ → Prop)
    (T : Trace ν π → Trace ν π → Prop) (stop stop' : Walk.Stop σ κ ω γ π ν) : Prop :=
  stop.1 = stop'.1 ∧ stop.2.Abreast S G T stop'.2

/-- What an iteration proposes to the criterion. -/
structure Proposal (σ κ ω ν : Type) where
  destroyer : Operator ν Nat (Action σ ω)
  repairer : Operator ν Nat (Action σ ω)
  candidate : Rated σ
  key : κ
  novel : Bool

namespace Proposal

/-- The proposal with the decision on it. -/
def turn (p : Proposal σ κ ω ν) (accepted : Bool) : Turn σ κ ω ν :=
  { destroyer := p.destroyer, repairer := p.repairer, candidate := p.candidate, key := p.key,
    novel := p.novel, accepted }

/-- The same candidate, made by the same operators with whatever numbers. -/
structure Matches (p p' : Proposal σ κ ω ν) : Prop where
  destroyer : p.destroyer.identity = p'.destroyer.identity
  repairer : p.repairer.identity = p'.repairer.identity
  candidate : p.candidate = p'.candidate
  key : p.key = p'.key
  novel : p.novel = p'.novel

end Proposal

/-- What the criterion has decided on. -/
def Turn.proposal (t : Turn σ κ ω ν) : Proposal σ κ ω ν :=
  { destroyer := t.destroyer, repairer := t.repairer, candidate := t.candidate, key := t.key,
    novel := t.novel }

/-- The same proposal with the same decision on it. -/
structure Turn.Matches (t t' : Turn σ κ ω ν) : Prop extends
    Proposal.Matches t.proposal t'.proposal where
  accepted : t.accepted = t'.accepted

/-- Two decisions that come out the same. -/
structure Criterion.SameDecision (G : γ → γ → Prop) (d d' : Except Fault Bool × γ × ω) : Prop where
  result : d.1 = d'.1
  gauge : G d.2.1 d'.2.1
  world : d.2.2 = d'.2.2

/-- What a criterion decides on the candidate of a proposal. -/
def Walk.decision (c : Criterion σ ω γ π) (w : Walk σ κ ω γ π ν) (p : Proposal σ κ ω ν) :
    Except Fault Bool × γ × ω :=
  c.judge w.best w.current p.candidate w.gauge w.world

namespace Walk

section Propose

variable [Scalar ν] [BEq κ]

/-- An attempt up to the decision of the criterion. -/
def propose (s : Setting σ κ ω γ π ν) (w : Walk σ κ ω γ π ν) :
    Except (Stop σ κ ω γ π ν) (Proposal σ κ ω ν × Walk σ κ ω γ π ν) := do
  let (destroyer, w) ← w.choose s.draw .destroy
  let (repairer, w) ← w.choose s.draw .repair
  let (opened, w) ← w.perform destroyer.action w.current.state
  let (closed, w) ← w.perform repairer.action opened
  let candidate ← w.orStop (s.landscape.rate closed)
  let key ← w.orStop (s.landscape.key closed)
  return (⟨destroyer, repairer, candidate, key, !w.accepted.contains key⟩, w)

theorem attempt_eq_propose (s : Setting σ κ ω γ π ν) (w : Walk σ κ ω γ π ν) :
    w.attempt s = do
      let (p, w) ← w.propose s
      let (accepted, w) ← w.judge s.criterion p.candidate
      return (p.turn accepted, w) := by
  simp only [attempt, propose, bind_assoc, pure_bind]
  rfl

end Propose

variable {S S' : Selector ν Nat (Action σ ω) → Selector ν Nat (Action σ ω) → Prop}
  {G : γ → γ → Prop} {T : Trace ν π → Trace ν π → Prop} {w w' : Walk σ κ ω γ π ν}

theorem Abreast.imp (h : w.Abreast S G T w') (hS : ∀ a a', S a a' → S' a a') :
    w.Abreast S' G T w' :=
  { h with selector := hS _ _ h.selector }

theorem Abreast.withWorld (h : w.Abreast S G T w') (world : ω) :
    Abreast S G T { w with world } { w' with world } :=
  { h with world := rfl }

/-! ## Steps of an attempt -/

theorem orStop_agrees {α : Type} (h : w.Abreast S G T w') {x x' : Except Fault α} (hx : x = x') :
    Agrees (StopsAlike S G T) Eq (w.orStop x) (w'.orStop x') := by
  subst hx
  cases x with
  | error fault => exact .error ⟨rfl, h⟩
  | ok a => exact .ok rfl

theorem perform_agrees (h : w.Abreast S G T w') (action : Action σ ω) (x : σ) :
    Agrees (StopsAlike S G T) (fun r r' => r.1 = r'.1 ∧ r.2.Abreast S G T r'.2)
      (w.perform action x) (w'.perform action x) := by
  unfold perform
  rw [← h.world]
  have h' := h.withWorld (action x w.world).2
  exact (orStop_agrees h' rfl).map fun _ _ hy => ⟨hy, h'⟩

theorem judge_agrees {c c' : Criterion σ ω γ π} {p p' : Proposal σ κ ω ν}
    (h : w.Abreast S G T w')
    (hdecision : Criterion.SameDecision G (w.decision c p) (w'.decision c' p')) :
    Agrees (StopsAlike S G T) (fun r r' => r.1 = r'.1 ∧ r.2.Abreast S G T r'.2)
      (w.judge c p.candidate) (w'.judge c' p'.candidate) := by
  have h' : Abreast S G T
      { w with gauge := (w.decision c p).2.1, world := (w.decision c p).2.2 }
      { w' with gauge := (w'.decision c' p').2.1, world := (w'.decision c' p').2.2 } :=
    { h with gauge := hdecision.gauge, world := hdecision.world }
  exact (orStop_agrees h' hdecision.result).map fun _ _ hy => ⟨hy, h'⟩

/-- Announcing a row only adds to what has been printed, which walks abreast need not share. -/
theorem announce_agrees {s s' : Setting σ κ ω γ π ν} {e e' : Entry ν π} (h : w.Abreast S G T w')
    (hannounce : Agrees Eq (fun _ _ => True) (s.announce e) (s'.announce e')) :
    Agrees (StopsAlike S G T) (Abreast S G T) (w.announce s e) (w'.announce s' e') := by
  unfold announce
  generalize s.announce e = x, s'.announce e' = x' at hannounce
  cases hannounce with
  | error he => exact .error ⟨he, h⟩
  | ok => exact .ok { h with }

/-- The same criterion with the same gauge decides alike. -/
theorem decision_agrees {c c' : Criterion σ ω γ π} {p p' : Proposal σ κ ω ν}
    (h : w.Abreast S Eq T w') (hcriterion : c = c') (hp : p.Matches p') :
    Criterion.SameDecision Eq (w.decision c p) (w'.decision c' p') := by
  have hdecision : w.decision c p = w'.decision c' p' := by
    unfold decision
    rw [h.best, h.current, h.gauge, h.world, hp.candidate, hcriterion]
  rw [hdecision]
  exact ⟨rfl, rfl, rfl⟩

variable [Scalar ν]

theorem choose_agrees {draw : ω → Except Fault ν × ω} (hS : Selector.Drawing draw S)
    (h : w.Abreast S G T w') (role : Role) :
    Agrees (StopsAlike S G T)
      (fun r r' => r.1.identity = r'.1.identity ∧ r.2.Abreast S G T r'.2)
      (w.choose draw role) (w'.choose draw role) := by
  have hspin := hS.spin h.selector role w.world
  rcases hdraw : Roulette.spin draw ((w.selector.pool role).map Operator.weight) w.world with
    ⟨result, world⟩
  have hdraw' : Roulette.spin draw ((w'.selector.pool role).map Operator.weight) w'.world =
      (result, world) := by
    rw [← h.world, ← hspin, hdraw]
  have hmoved := h.withWorld world
  cases result with
  | error fault =>
      simp only [choose, Selector.select, Pool.select, Pool.selectBy, hdraw, hdraw',
        Selector.setPool_pool]
      exact .error ⟨rfl, hmoved⟩
  | ok i =>
      -- At this position both pools have the same operator, with whatever numbers, or none.
      have hop := Selector.getElem?_identity (hS.identities h.selector role) i
      cases hi : (w.selector.pool role)[i]? with
      | none =>
          rw [hi, Option.map_none] at hop
          have hi' := Option.map_eq_none_iff.mp hop.symm
          simp only [choose, Selector.select, Pool.select, Pool.selectBy, hdraw, hdraw', hi, hi',
            Selector.setPool_pool]
          exact .error ⟨rfl, hmoved⟩
      | some op =>
          rw [hi, Option.map_some] at hop
          obtain ⟨op', hi', hidentity⟩ := Option.map_eq_some_iff.mp hop.symm
          simp only [choose, Selector.select, Pool.select, Pool.selectBy, hdraw, hdraw', hi, hi']
          exact .ok ⟨hidentity.symm, { hmoved with selector := hS.use h.selector role i }⟩

variable {s s' : Setting σ κ ω γ π ν}

section Attempt

variable [BEq κ]

theorem propose_agrees (hS : Selector.Drawing s.draw S) (hdraw : s.draw = s'.draw)
    (hlandscape : s.landscape = s'.landscape) (h : w.Abreast S G T w') :
    Agrees (StopsAlike S G T) (fun r r' => r.1.Matches r'.1 ∧ r.2.Abreast S G T r'.2)
      (w.propose s) (w'.propose s') := by
  unfold propose
  rw [← hdraw, ← hlandscape]
  -- two draws, two calls, the cost and the key, in the order of an iteration
  apply (choose_agrees hS h .destroy).bind
  rintro ⟨destroyer, w₁⟩ ⟨destroyer', w₁'⟩ - - ⟨hdestroyer, h₁⟩
  apply (choose_agrees hS h₁ .repair).bind
  rintro ⟨repairer, w₂⟩ ⟨repairer', w₂'⟩ - - ⟨hrepairer, h₂⟩
  have hopen : destroyer.action = destroyer'.action := congrArg (fun x => x.2.2) hdestroyer
  have hclose : repairer.action = repairer'.action := congrArg (fun x => x.2.2) hrepairer
  dsimp only at hdestroyer hrepairer h₁ h₂ ⊢
  rw [← hopen, ← hclose, ← h₂.current]
  apply (perform_agrees h₂ _ _).bind
  rintro ⟨opened, w₃⟩ ⟨opened', w₃'⟩ - - ⟨hopened, h₃⟩
  dsimp only at hopened h₃ ⊢
  subst hopened
  apply (perform_agrees h₃ _ _).bind
  rintro ⟨closed, w₄⟩ ⟨closed', w₄'⟩ - - ⟨hclosed, h₄⟩
  dsimp only at hclosed h₄ ⊢
  subst hclosed
  apply (orStop_agrees h₄ rfl).bind
  rintro candidate _ - - rfl
  apply (orStop_agrees h₄ rfl).bind
  rintro key _ - - rfl
  refine .ok ⟨?_, h₄⟩
  exact {
    destroyer := hdestroyer
    repairer := hrepairer
    candidate := rfl
    key := rfl
    novel := by rw [h₄.accepted] }

theorem attempt_agrees (hS : Selector.Drawing s.draw S) (hdraw : s.draw = s'.draw)
    (hlandscape : s.landscape = s'.landscape) (h : w.Abreast S G T w')
    (hdecision : ∀ p p' w₁ w₁', w.propose s = .ok (p, w₁) → w'.propose s' = .ok (p', w₁') →
      p.Matches p' → w₁.Abreast S G T w₁' →
      Criterion.SameDecision G (w₁.decision s.criterion p) (w₁'.decision s'.criterion p')) :
    Agrees (StopsAlike S G T) (fun r r' => r.1.Matches r'.1 ∧ r.2.Abreast S G T r'.2)
      (w.attempt s) (w'.attempt s') := by
  rw [attempt_eq_propose, attempt_eq_propose]
  apply (propose_agrees hS hdraw hlandscape h).bind
  rintro ⟨p, w₁⟩ ⟨p', w₁'⟩ hp hp' ⟨hmatches, h₁⟩
  apply (judge_agrees h₁ (hdecision p p' w₁ w₁' hp hp' hmatches h₁)).bind
  rintro ⟨accepted, w₂⟩ ⟨accepted', w₂'⟩ - - ⟨haccepted, h₂⟩
  exact .ok ⟨{ toMatches := hmatches, accepted := haccepted }, h₂⟩

end Attempt

/-! ## Consequences of an iteration -/

variable {i : Nat} {t t' : Turn σ κ ω ν}

theorem verdict_eq (h : w.Abreast S G T w') (ht : t.Matches t') :
    w.verdict s i t = w'.verdict s' i t' := by
  have hcandidate : t.candidate = t'.candidate := ht.candidate
  have hnovel : t.novel = t'.novel := ht.novel
  simp only [verdict, settle_current, ht.accepted, hcandidate, hnovel, h.current, h.best]

theorem settle_abreast (h : w.Abreast S G T w') (ht : t.Matches t')
    (hselector : S' (w.settle s i t).2.selector (w'.settle s' i t').2.selector)
    (htrace : T (w.settle s i t).2.trace (w'.settle s' i t').2.trace) :
    (w.settle s i t).2.Abreast S' G T (w'.settle s' i t').2 := by
  have hcandidate : t.candidate = t'.candidate := ht.candidate
  have hkey : t.key = t'.key := ht.key
  exact {
    world := by rw [settle_world, settle_world, h.world]
    gauge := by
      rw [settle_gauge, settle_gauge]
      exact h.gauge
    selector := hselector
    best := by simp only [settle_best, settle_current, ht.accepted, hcandidate, h.current, h.best]
    current := by simp only [settle_current, ht.accepted, hcandidate, h.current]
    accepted := by simp only [settle_accepted, ht.accepted, hkey, h.accepted]
    trace := htrace }

/-- Rows of two walks abreast differ at most in what they show of the gauge and in the score. -/
theorem settle_entry_eq (h : w.Abreast S G T w') (ht : t.Matches t') :
    (w.settle s i t).1 = { (w'.settle s' i t').1 with
      reading := s.criterion.reading w.gauge
      score := (w.verdict s i t).score s.rewards } := by
  have hcandidate : t.candidate = t'.candidate := ht.candidate
  have hnovel : t.novel = t'.novel := ht.novel
  have hdestroyer : t.destroyer.name = t'.destroyer.name :=
    congrArg (fun x => x.2.1) ht.destroyer
  have hrepairer : t.repairer.name = t'.repairer.name := congrArg (fun x => x.2.1) ht.repairer
  have hverdict : w.verdict s i t = w'.verdict s' i t' := verdict_eq h ht
  simp only [settle_entry, hverdict, settle_best, settle_current, ht.accepted, hcandidate, hnovel,
    hdestroyer, hrepairer, h.current, h.best]

/-- Walks abreast with the same selector credit the same operators. -/
theorem settle_selector_eq (h : w.Abreast Eq G T w') (ht : t.Matches t')
    (hcloses : s.closes i = s'.closes i) (hrewards : s.rewards = s'.rewards) :
    (w.settle s i t).2.selector = (w'.settle s' i t').2.selector := by
  have hverdict : w.verdict s i t = w'.verdict s' i t' := verdict_eq h ht
  have hdestroyer : t.destroyer.index = t'.destroyer.index := congrArg Prod.fst ht.destroyer
  have hrepairer : t.repairer.index = t'.repairer.index := congrArg Prod.fst ht.repairer
  rw [settle_selector, settle_selector, hverdict, hdestroyer, hrepairer, hcloses, hrewards,
    h.selector]

theorem settle_snapshots_eq (hcloses : s.closes i = s'.closes i)
    (hselector : (w.settle s i t).2.selector = (w'.settle s' i t').2.selector)
    (hsnapshots : w.trace.snapshots = w'.trace.snapshots) :
    (w.settle s i t).2.trace.snapshots = (w'.settle s' i t').2.trace.snapshots := by
  rw [settle_snapshots, settle_snapshots, hselector, hsnapshots, hcloses]

/-! ## Iterations and runs -/

variable [BEq κ]

/-- Two iterations that propose and decide alike keep their walks abreast, or stop both for the
same reason. The selectors may be less alike behind the iterations than in front of them. -/
theorem iterate_agrees (hS : Selector.Drawing s.draw S) (hS' : ∀ a a', S a a' → S' a a')
    (hdraw : s.draw = s'.draw) (hlandscape : s.landscape = s'.landscape)
    (h : w.Abreast S G T w')
    (hdecision : ∀ p p' w₁ w₁', w.propose s = .ok (p, w₁) → w'.propose s' = .ok (p', w₁') →
      p.Matches p' → w₁.Abreast S G T w₁' →
      Criterion.SameDecision G (w₁.decision s.criterion p) (w₁'.decision s'.criterion p'))
    (hsettle : ∀ t t' w₁ w₁', w.attempt s = .ok (t, w₁) → w'.attempt s' = .ok (t', w₁') →
      t.Matches t' → w₁.Abreast S G T w₁' →
      S' (w₁.settle s i t).2.selector (w₁'.settle s' i t').2.selector ∧
        T (w₁.settle s i t).2.trace (w₁'.settle s' i t').2.trace ∧
        Agrees Eq (fun _ _ => True) (s.announce (w₁.settle s i t).1)
          (s'.announce (w₁'.settle s' i t').1)) :
    Agrees (StopsAlike S' G T) (Abreast S' G T) (w.iterate s i) (w'.iterate s' i) := by
  unfold iterate
  have hattempt := attempt_agrees hS hdraw hlandscape h hdecision
  apply (hattempt.imp (fun _ _ hstop => ⟨hstop.1, hstop.2.imp hS'⟩) fun _ _ hr => hr).bind
  rintro ⟨t, w₁⟩ ⟨t', w₁'⟩ hw₁ hw₁' ⟨ht, h₁⟩
  obtain ⟨hselector, htrace, hannounce⟩ := hsettle t t' w₁ w₁' hw₁ hw₁' ht h₁
  exact announce_agrees (settle_abreast h₁ ht hselector htrace) hannounce

/-- A relation that iterations keep, or stop with, is kept by runs. -/
theorem run_lockstep {first first' : Walk σ κ ω γ π ν} {n : Nat}
    {E : Stop σ κ ω γ π ν → Stop σ κ ω γ π ν → Prop}
    {R : Walk σ κ ω γ π ν → Walk σ κ ω γ π ν → Prop} (hfirst : R first first')
    (hstep : ∀ done done' w w', Course s first done w → Course s' first' done' w' →
      done'.length = done.length → done.length < n → R w w' →
      Agrees E R (w.iterate s (done.length + 1)) (w'.iterate s' (done.length + 1))) :
    Agrees E R (run s n first) (run s' n first') := by
  -- On the iterations still to come, for any iterations that both walks have behind them.
  have hfrom : ∀ k done done' w w', Course s first done w → Course s' first' done' w' →
      done'.length = done.length → done.length + k = n → R w w' →
      Agrees E R ((List.range' (done.length + 1) k).foldlM (iterate s) w)
        ((List.range' (done.length + 1) k).foldlM (iterate s') w') := by
    intro k
    induction k with
    | zero =>
        intro done done' w w' _ _ _ _ hR
        exact .ok hR
    | succ k ih =>
        intro done done' w w' hcourse hcourse' hlength hn hR
        rw [List.range'_succ, List.foldlM_cons, List.foldlM_cons]
        apply (hstep done done' w w' hcourse hcourse' hlength (by omega) hR).bind
        intro w₁ w₁' hw₁ hw₁' hR₁
        rw [iterate_eq_stage] at hw₁ hw₁'
        obtain ⟨st, hst, rfl⟩ := map_eq_ok.mp hw₁
        obtain ⟨st', hst', rfl⟩ := map_eq_ok.mp hw₁'
        have hcount : (done ++ [st]).length = done.length + 1 := List.length_append
        have hcount' : (done' ++ [st']).length = done.length + 1 := by
          rw [List.length_append, hlength]
          rfl
        rw [← hlength] at hst'
        have hrest := ih (done ++ [st]) (done' ++ [st']) st.after st'.after (hcourse.step hst)
          (hcourse'.step hst') (by rw [hcount, hcount']) (by rw [hcount]; omega) hR₁
        rwa [hcount] at hrest
  exact hfrom n [] [] first first' .start .start rfl (by simp) hfirst

end Walk

/-! ## Runs of two solvers -/

/-- Two outcomes with the same result in the same world. What has been printed may differ. -/
structure Outcome.Abreast
    (S : Selector Float Nat (Action σ ω) → Selector Float Nat (Action σ ω) → Prop)
    (G : γ → γ → Prop) (T : Trace Float π → Trace Float π → Prop) (o o' : Outcome σ κ ω γ π) :
    Prop where
  result : o.result = o'.result
  world : o.world = o'.world
  gauge : G o.gauge o'.gauge
  selector : S o.solver.selector o'.solver.selector
  trace : T o.solver.trace o'.solver.trace

namespace Solver

variable {s s' : Solver σ κ ω γ π} {initial : σ} {r r' : Request} {gauge gauge' : γ} {world : ω}

/-- Whether a run sets out depends on its request and its initial solution only. -/
theorem embark_agrees (hcheck : s.check r = s'.check r')
    (hrewards : Agrees Eq (fun _ _ => True) (rewards? r.rewards) (rewards? r'.rewards))
    (hlandscape : s.landscape = s'.landscape)
    (hcount : Agrees Eq (fun _ _ => True) (count? r) (count? r')) :
    Agrees Eq (fun _ _ => True) (s.embark initial r gauge world)
      (s'.embark initial r' gauge' world) := by
  unfold embark
  rw [← hcheck, ← hlandscape]
  apply (Agrees.refl _).bind
  rintro ⟨⟩ ⟨⟩ - - -
  apply hrewards.bind
  rintro rewards rewards' - - -
  apply (Agrees.refl _).bind
  rintro start _ - - rfl
  apply (Agrees.refl _).bind
  rintro cost _ - - rfl
  apply hcount.bind
  rintro n n' - - -
  exact .ok trivial

variable {S : Selector Float Nat (Action σ ω) → Selector Float Nat (Action σ ω) → Prop}
  {G : γ → γ → Prop} {T : Trace Float π → Trace Float π → Prop}

/-- Runs from the same solution set out abreast. -/
theorem Embarked.abreast {setting setting' : Setting σ κ ω γ π Float}
    {first first' : Walk σ κ ω γ π Float} {n n' : Nat}
    (h : s.Embarked initial r gauge world setting first n)
    (h' : s'.Embarked initial r' gauge' world setting' first' n')
    (hlandscape : s.landscape = s'.landscape) (hgauge : G gauge gauge')
    (hselector : S (s.startOver r.reaction.toFloat).selector
      (s'.startOver r'.reaction.toFloat).selector)
    (htrace : T .empty .empty) : first.Abreast S G T first' := by
  have hcost : first.best.cost = first'.best.cost := by
    have hcost := h.cost
    rw [hlandscape, h'.cost] at hcost
    injection hcost with hcost
    exact hcost.symm
  -- a rated solution is its state and its cost
  have hbest : first.best = first'.best := by
    have hstate := h.origin.trans h'.origin.symm
    generalize first.best = best, first'.best = best' at hcost hstate
    cases best
    cases best'
    cases hcost
    cases hstate
    rfl
  exact {
    world := h.startWorld.trans h'.startWorld.symm
    gauge := by
      rw [h.startGauge, h'.startGauge]
      exact hgauge
    selector := by
      rw [h.selector, h'.selector]
      exact hselector
    best := hbest
    current := by rw [h.current, h'.current, hbest]
    accepted := by rw [h.accepted, h'.accepted]
    trace := by
      rw [h.trace, h'.trace]
      exact htrace }

variable [BEq κ]

theorem outcome_abreast {setting setting' : Setting σ κ ω γ π Float}
    {first first' : Walk σ κ ω γ π Float} {n n' : Nat}
    (h : s.embark initial r gauge world = .ok (setting, first, n))
    (h' : s'.embark initial r' gauge' world = .ok (setting', first', n'))
    (hrun : Agrees (Walk.StopsAlike S G T) (Walk.Abreast S G T) (Walk.run setting n first)
      (Walk.run setting' n' first')) :
    (s.run initial r gauge world).Abreast S G T (s'.run initial r' gauge' world) := by
  rw [run_of_embark h, run_of_embark h']
  generalize Walk.run setting n first = x, Walk.run setting' n' first' = x' at hrun
  cases hrun with
  | @error stop stop' hstop =>
      obtain ⟨fault, w⟩ := stop
      obtain ⟨fault', w'⟩ := stop'
      obtain ⟨rfl, hw⟩ := hstop
      exact ⟨rfl, hw.world, hw.gauge, hw.selector, hw.trace⟩
  | @ok w w' hw =>
      -- The best cost is written in the closing line, which fails for both of them or for neither.
      dsimp only
      rw [← hw.best]
      cases w.best.cost.fixed? 2 with
      | error fault => exact ⟨rfl, hw.world, hw.gauge, hw.selector, hw.trace⟩
      | ok text => exact ⟨rfl, hw.world, hw.gauge, hw.selector, hw.trace⟩

/-- Runs that set out abreast and stay abreast have the same outcome. -/
theorem run_abreast (hcheck : s.check r = .ok ()) (hcheck' : s'.check r' = .ok ())
    (hrewards : Agrees Eq (fun _ _ => True) (rewards? r.rewards) (rewards? r'.rewards))
    (hlandscape : s.landscape = s'.landscape)
    (hcount : Agrees Eq (fun _ _ => True) (count? r) (count? r')) (hgauge : G gauge gauge')
    (hselector : S (s.startOver r.reaction.toFloat).selector
      (s'.startOver r'.reaction.toFloat).selector)
    (htrace : T .empty .empty)
    (hrun : ∀ setting setting' first first' n n',
      s.embark initial r gauge world = .ok (setting, first, n) →
      s'.embark initial r' gauge' world = .ok (setting', first', n') →
      Agrees (Walk.StopsAlike S G T) (Walk.Abreast S G T) (Walk.run setting n first)
        (Walk.run setting' n' first')) :
    (s.run initial r gauge world).Abreast S G T (s'.run initial r' gauge' world) := by
  have hembark : Agrees Eq (fun _ _ => True) (s.embark initial r gauge world)
      (s'.embark initial r' gauge' world) :=
    embark_agrees (hcheck.trans hcheck'.symm) hrewards hlandscape hcount
  -- neither start succeeds alone
  cases h : s.embark initial r gauge world with
  | error fault =>
      cases h' : s'.embark initial r' gauge' world with
      | ok made =>
          rw [h, h'] at hembark
          cases hembark
      | error fault' =>
          rw [h, h'] at hembark
          cases hembark with
          | error hfault =>
              subst hfault
              rcases run_of_embark_error h with ⟨hrefused, -⟩ | ⟨-, printed, hrun⟩
              · rw [hcheck] at hrefused
                cases hrefused
              rcases run_of_embark_error h' with ⟨hrefused, -⟩ | ⟨-, printed', hrun'⟩
              · rw [hcheck'] at hrefused
                cases hrefused
              rw [hrun, hrun']
              exact ⟨rfl, rfl, hgauge, hselector, htrace⟩
  | ok made =>
      obtain ⟨setting, first, n⟩ := made
      cases h' : s'.embark initial r' gauge' world with
      | error fault' =>
          rw [h, h'] at hembark
          cases hembark
      | ok made' =>
          obtain ⟨setting', first', n'⟩ := made'
          exact outcome_abreast h h' (hrun setting setting' first first' n n' h h')

end Solver

end LargeNeighborhood
