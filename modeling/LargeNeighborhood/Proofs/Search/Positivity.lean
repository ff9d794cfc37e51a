import LargeNeighborhood.Proofs.Number.Blend
import LargeNeighborhood.Proofs.Search.Continuation
import LargeNeighborhood.Proofs.Search.Roulette
import LargeNeighborhood.Proofs.Search.Weights

set_option autoImplicit false

/-! # Weights that can be drawn from

What holds of the numbers of all operators is carried through an iteration step by step: their use is
counted, they are credited, and at the end of a segment they are adapted (`Stage.all_credited`,
`Selector.All.adapt`). Two things are carried through whole runs in this way. By any share weights
stay positive, unless they become undefined (`Course.usable`), so the wheel does not refuse them
(`Selector.All.exists_total_ok`). By a reaction of zero they stay at one (`Course.level`).
-/

namespace LargeNeighborhood

open Rounding

variable {σ κ ω γ π ν β : Type}

/-! ## The numbers of all operators -/

/-- What holds of every operator of a selector. -/
def Selector.All (F : Operator ν Nat β → Prop) (a : Selector ν Nat β) : Prop :=
  ∀ role, ∀ op ∈ a.pool role, F op

theorem Pool.forall_modify {F G : Operator ν Nat β → Prop} {f : Operator ν Nat β → Operator ν Nat β}
    {p : Pool ν Nat β} (h : ∀ op ∈ p, F op) (hkept : ∀ op, F op → G op)
    (hchanged : ∀ op, F op → G (f op)) (i : Nat) : ∀ op ∈ p.modify i f, G op := by
  intro op hop
  obtain ⟨k, hk⟩ := List.mem_iff_getElem?.mp hop
  rw [List.getElem?_modify] at hk
  obtain ⟨op', hop', rfl⟩ := Option.map_eq_some_iff.mp hk
  have hmem := h op' (List.mem_of_getElem? hop')
  split
  · exact hchanged op' hmem
  · exact hkept op' hmem

variable [Scalar ν]

/-- An operator at the end of a segment. -/
def Operator.closed (reaction : ν) (op : Operator ν Nat β) : Operator ν Nat β :=
  { op with
    weight := if 0 < op.timesUsed then Pool.blend reaction op.weight op.score op.timesUsed
      else op.weight
    score := Scalar.one
    timesUsed := 0 }

theorem Pool.restart_adapt (reaction : ν) (p : Pool ν Nat β) :
    restart (adapt reaction p) = p.map (Operator.closed reaction) := by
  unfold restart adapt
  rw [List.map_map]
  apply List.map_congr_left
  intro op _
  simp only [Function.comp_apply, Operator.closed, Tally.isPositive, decide_eq_true_eq]
  split <;> rfl

theorem Selector.All.adapt {F G : Operator ν Nat β → Prop} {a : Selector ν Nat β} (h : a.All F)
    (hclosed : ∀ op, F op → G (op.closed a.reaction)) : a.adapt.All G := by
  have hpool : ∀ role, a.adapt.pool role = (a.pool role).map (Operator.closed a.reaction) := by
    intro role
    cases role <;> exact Pool.restart_adapt _ _
  intro role op hop
  rw [hpool] at hop
  obtain ⟨op', hop', rfl⟩ := List.mem_map.mp hop
  exact hclosed op' (h role op' hop')

/-- What drawing and crediting operators keep holds of all of them behind it. -/
theorem Stage.all_credited {F G : Operator ν Nat (Action σ ω) → Prop} {s : Setting σ κ ω γ π ν}
    {st : Stage σ κ ω γ π ν} (h : st.before.selector.All F) (hkept : ∀ op, F op → G op)
    (hused : ∀ op, F op → G { op with timesUsed := op.timesUsed + 1 })
    (hcredited : ∀ op, G op → G { op with score := op.score + st.verdict.score s.rewards })
    (j k : Nat) : (st.credited s j k).All G := by
  have hpool : ∀ role i i', ∀ op ∈ Pool.credit (Pool.use (st.before.selector.pool role) i) i'
      (st.verdict.score s.rewards), G op := by
    intro role i i'
    have hafter : ∀ op ∈ Pool.use (st.before.selector.pool role) i, G op :=
      Pool.forall_modify (h role) hkept hused i
    exact Pool.forall_modify hafter (fun _ hop => hop) hcredited i'
  intro role
  cases role with
  | destroy => exact hpool .destroy j st.turn.destroyer.index
  | repair => exact hpool .repair k st.turn.repairer.index

/-! ## Positive weights -/

/-- A wheel that is not refused picks an operator whenever the draw succeeds. -/
theorem Walk.choose_of_total {draw : ω → Except Fault ν × ω}
    {w : Walk σ κ ω γ π ν} {role : Role} {total : ν} (hne : w.selector.pool role ≠ [])
    (htotal : Roulette.total? ((w.selector.pool role).map Operator.weight) = .ok total) :
    (∀ {u world}, draw w.world = (.ok u, world) →
      ∃ op w', w.choose draw role = .ok (op, w') ∧ op ∈ w.selector.pool role) ∧
    ∀ {fault w'}, w.choose draw role = .error (fault, w') → (draw w.world).1 = .error fault := by
  have hspin : Roulette.spin draw ((w.selector.pool role).map Operator.weight) w.world = _ :=
    Roulette.spin_of_total htotal w.world
  have hweights : (w.selector.pool role).map Operator.weight ≠ [] := mt List.map_eq_nil_iff.mp hne
  have hchosen : ∀ {u world}, draw w.world = (.ok u, world) →
      ∃ op w', w.choose draw role = .ok (op, w') ∧ op ∈ w.selector.pool role := by
    intro u world hdraw
    have hlt := Roulette.itemAt_lt hweights (u * total)
    rw [List.length_map] at hlt
    rw [hdraw] at hspin
    simp only [choose, Selector.select, Pool.select, Pool.selectBy, hspin, Except.map,
      List.getElem?_eq_getElem hlt]
    exact ⟨_, _, rfl, List.getElem_mem hlt⟩
  refine ⟨hchosen, ?_⟩
  intro fault w' h
  -- a draw that succeeds picks an operator, so it is the draw that has failed
  rcases hdraw : draw w.world with ⟨fault' | u, world⟩
  · rw [hdraw] at hspin
    simp only [choose, Selector.select, Pool.select, Pool.selectBy, hspin, Except.map] at h
    cases h
    rfl
  · obtain ⟨op, w'', hok, -⟩ := hchosen hdraw
    rw [hok] at h
    cases h

/-- An operator with a positive or undefined weight and a score of at least one, which has been used
at most so often. -/
structure Operator.Usable (k : Nat) (op : Operator Float Nat β) : Prop where
  weight : AtLeast least (view op.weight)
  score : AtLeast 1 (view op.score)
  timesUsed : op.timesUsed ≤ k

namespace Operator.Usable

variable {k : Nat} {op : Operator Float Nat β}

theorem mono (h : op.Usable k) {k' : Nat} (hk : k ≤ k') : op.Usable k' :=
  { h with timesUsed := h.timesUsed.trans hk }

theorem used (h : op.Usable k) :
    Usable (k + 1) { op with timesUsed := op.timesUsed + 1 } :=
  { h with timesUsed := Nat.succ_le_succ h.timesUsed }

theorem credited (h : op.Usable k) {amount : Float} (hamount : Unsigned (view amount)) :
    Usable k { op with score := op.score + amount } :=
  { h with
    score := by
      have hone : Representable 1 := representable_natCast (n := 1) (by norm_num)
      dsimp only
      rw [view_add]
      exact atLeast_add one_pos hone h.score (held_view _) hamount }

theorem closed (h : op.Usable k) (hk : k ≤ 2 ^ 1023) {reaction : Float} {q : ℚ}
    (hreaction : worth reaction = some (exactly q)) (hq : 0 ≤ q) (hq' : q ≤ 1) :
    (op.closed reaction).Usable 0 where
  weight := by
    unfold Operator.closed
    dsimp only
    split
    · rename_i hused
      exact Pool.atLeast_blend hreaction hq hq' h.weight h.score hused (h.timesUsed.trans hk)
    · exact h.weight
  score := atLeast_of_value worth_one le_rfl
  timesUsed := Nat.le_refl 0

end Operator.Usable

namespace Roulette

/-- Sums of positive or undefined weights are positive or undefined. -/
theorem atLeast_sumsFrom {sum : Float} {ws : List Float} (hsum : AtLeast least (view sum))
    (hws : ∀ w ∈ ws, AtLeast least (view w)) :
    ∀ x ∈ sumsFrom sum ws, AtLeast least (view x) := by
  induction ws generalizing sum with
  | nil => simp [sumsFrom]
  | cons w ws ih =>
      obtain ⟨hw, hws⟩ := List.forall_mem_cons.mp hws
      have hnext : AtLeast least (view (sum + w)) := by
        rw [view_add]
        exact atLeast_add least_pos representable_least hsum (held_view _)
          (hw.unsigned least_pos.le)
      exact List.forall_mem_cons.mpr ⟨hnext, ih hnext hws⟩

/-- A wheel of positive or undefined weights is not refused. -/
theorem exists_total_ok {ws : List Float} (hne : ws ≠ [])
    (hws : ∀ w ∈ ws, AtLeast least (view w)) : ∃ total, total? ws = .ok total := by
  have hsums : ∀ x ∈ runningSums ws, AtLeast least (view x) := by
    cases ws with
    | nil => exact absurd rfl hne
    | cons w ws =>
        obtain ⟨hw, hws⟩ := List.forall_mem_cons.mp hws
        exact List.forall_mem_cons.mpr ⟨hw, atLeast_sumsFrom hw hws⟩
  have hsome : runningSums ws ≠ [] := by
    intro hnil
    have hlength := length_runningSums ws
    rw [hnil] at hlength
    exact hne (List.length_eq_zero_iff.mp hlength.symm)
  -- the total is the last of the sums, and all of them are bounded from below
  have hpositive : ¬ (runningSums ws).getLast hsome ≤ Scalar.zero := by
    intro hle
    obtain ⟨p, hp, hnonpos⟩ := le_zero_iff.mp hle
    have hleast := exactly_le_exactly.mp ((hsums _ (List.getLast_mem hsome) p hp).trans hnonpos)
    exact absurd least_pos (not_lt.mpr hleast)
  exact ⟨_, total?_eq_ok (List.getLast?_eq_some_getLast hsome)
    (fun w hw => not_lt_zero_iff.mpr ((hws w hw).unsigned least_pos.le)) hpositive⟩

end Roulette

theorem Selector.All.exists_total_ok {a : Selector Float Nat β} {k : Nat}
    (h : a.All (Operator.Usable k)) {role : Role} (hne : a.pool role ≠ []) :
    ∃ total, Roulette.total? ((a.pool role).map Operator.weight) = .ok total := by
  apply Roulette.exists_total_ok (mt List.map_eq_nil_iff.mp hne)
  intro w hw
  obtain ⟨op, hop, rfl⟩ := List.mem_map.mp hw
  exact (h role op hop).weight

theorem Stage.Sound.usable [BEq κ] {s : Setting σ κ ω γ π Float} {i k : Nat}
    {st : Stage σ κ ω γ π Float} (h : st.Sound s i)
    (hbefore : st.before.selector.All (Operator.Usable k)) (hk : k + 1 ≤ 2 ^ 1023) {q : ℚ}
    (hreaction : worth st.before.selector.reaction = some (exactly q)) (hq : 0 ≤ q) (hq' : q ≤ 1)
    (hscore : Unsigned (view (st.verdict.score s.rewards))) :
    st.after.selector.All (Operator.Usable (k + 1)) := by
  obtain ⟨j, j', -, -, hselector⟩ := h.drawn
  have hcredited : (st.credited s j j').All (Operator.Usable (k + 1)) :=
    Stage.all_credited hbefore (fun _ hop => hop.mono (Nat.le_succ k)) (fun _ hop => hop.used)
      (fun _ hop => hop.credited hscore) j j'
  rw [hselector]
  split
  · exact hcredited.adapt fun op hop =>
      (hop.closed hk hreaction hq hq').mono (Nat.zero_le (k + 1))
  · exact hcredited

namespace Course

variable [BEq κ] {s : Setting σ κ ω γ π Float} {first w : Walk σ κ ω γ π Float}
  {done : List (Stage σ κ ω γ π Float)}

theorem reaction_eq (h : Course s first done w) :
    w.selector.reaction = first.selector.reaction := by
  induction h with
  | start => rfl
  | step h hst ih =>
      obtain ⟨hbefore, hsound⟩ := Walk.stage_ok hst
      rw [hsound.reaction_eq, hbefore, ih]

/-- Weights that are positive at first stay positive, or become undefined. -/
theorem usable (h : Course s first done w) (hn : done.length ≤ 2 ^ 1023) {q : ℚ}
    (hreaction : worth first.selector.reaction = some (exactly q)) (hq : 0 ≤ q) (hq' : q ≤ 1)
    (hrewards : ∀ v : Verdict, Unsigned (view (v.score s.rewards)))
    (hfirst : first.selector.All (Operator.Usable 0)) :
    w.selector.All (Operator.Usable done.length) := by
  induction h with
  | start => exact hfirst
  | @step done w st h hst ih =>
      obtain ⟨hbefore, hsound⟩ := Walk.stage_ok hst
      have hlength : (done ++ [st]).length = done.length + 1 := List.length_append
      rw [hlength] at hn ⊢
      have hw := ih (by omega)
      rw [← h.reaction_eq, ← hbefore] at hreaction
      rw [← hbefore] at hw
      exact hsound.usable hw hn hreaction hq hq' (hrewards _)

end Course

/-! ## Weights of one -/

/-- The weights of a snapshot are all one. -/
def Snapshot.Level (x : Snapshot Float) : Prop := ∀ p ∈ x.destroy ++ x.repair, p.2 = 1.0

/-- What the scores of the segment have become with an iteration, before the segment is closed. -/
def Stage.scored (st : Stage σ κ ω γ π ν) : Selector ν Nat (Action σ ω) :=
  st.before.selector.credit st.turn.destroyer.index st.turn.repairer.index st.entry.score

theorem Pool.map_score_credit (p : Pool ν Nat β) (i : Nat) (amount : ν) :
    (credit p i amount).map Operator.score = (p.map Operator.score).modify i (· + amount) := by
  apply List.ext_getElem?
  intro k
  unfold credit
  rw [List.getElem?_map, List.getElem?_modify, List.getElem?_modify, List.getElem?_map]
  cases p[k]? with
  | none => rfl
  | some op => by_cases hk : i = k <;> simp [hk]

/-- Whether an operator has been used makes no difference to its score. -/
theorem Stage.map_score_credited {s : Setting σ κ ω γ π ν} {st : Stage σ κ ω γ π ν}
    (hscore : st.entry.score = st.verdict.score s.rewards) (j k : Nat) (role : Role) :
    ((st.credited s j k).pool role).map Operator.score =
      (st.scored.pool role).map Operator.score := by
  have hpool : ∀ i i', (Pool.credit (Pool.use (st.before.selector.pool role) i) i'
      (st.verdict.score s.rewards)).map Operator.score =
      (Pool.credit (st.before.selector.pool role) i' st.entry.score).map Operator.score := by
    intro i i'
    rw [Pool.map_score_credit, Pool.map_score_credit, Pool.map_score_use, hscore]
  cases role with
  | destroy => exact hpool j st.turn.destroyer.index
  | repair => exact hpool k st.turn.repairer.index

theorem Operator.closed_level {op : Operator Float Nat β} {reaction : Float}
    (hreaction : worth reaction = some (exactly 0)) (hweight : op.weight = 1.0)
    (hscore : op.score.isFinite = true) : (op.closed reaction).weight = 1.0 := by
  obtain ⟨q, hq⟩ := worth_of_isFinite hscore
  unfold closed
  dsimp only
  split
  · rename_i hused
    rw [hweight]
    exact Pool.blend_of_zero hreaction hq hused
  · exact hweight

theorem Selector.All.level_snapshot {a : Selector Float Nat β} (h : a.All fun op => op.weight = 1.0)
    (i : Nat) :
    Snapshot.Level ⟨i, Pool.weights a.destroyers, Pool.weights a.repairers⟩ := by
  intro p hp
  rcases List.mem_append.mp hp with hp | hp
  · obtain ⟨op, hop, rfl⟩ := List.mem_map.mp hp
    exact h .destroy op hop
  · obtain ⟨op, hop, rfl⟩ := List.mem_map.mp hp
    exact h .repair op hop

theorem Stage.Sound.level [BEq κ] {s : Setting σ κ ω γ π Float} {i : Nat}
    {st : Stage σ κ ω γ π Float} (h : st.Sound s i)
    (hreaction : worth st.before.selector.reaction = some (exactly 0))
    (hscores : st.scored.All fun op => op.score.isFinite = true)
    (hbefore : st.before.selector.All fun op => op.weight = 1.0) :
    st.after.selector.All fun op => op.weight = 1.0 := by
  obtain ⟨j, k, -, -, hselector⟩ := h.drawn
  have hweights : (st.credited s j k).All fun op => op.weight = 1.0 :=
    Stage.all_credited hbefore (fun _ hop => hop) (fun _ hop => hop) (fun _ hop => hop) j k
  rw [hselector]
  split
  · -- An infinite score would make the new weight undefined, even by a reaction of zero.
    have hfinite : (st.credited s j k).All fun op => op.score.isFinite = true := by
      intro role op hop
      have hscore : op.score ∈ ((st.credited s j k).pool role).map Operator.score :=
        List.mem_map_of_mem hop
      rw [Stage.map_score_credited (by rw [h.entry])] at hscore
      obtain ⟨op', hop', heq⟩ := List.mem_map.mp hscore
      rw [← heq]
      exact hscores role op' hop'
    have hboth : (st.credited s j k).All fun op =>
        op.weight = 1.0 ∧ op.score.isFinite = true :=
      fun role op hop => ⟨hweights role op hop, hfinite role op hop⟩
    exact hboth.adapt fun op hop => Operator.closed_level hreaction hop.1 hop.2
  · exact hweights

/-- By a reaction of zero weights of one stay at one, and so do those in the snapshots. -/
theorem Course.level [BEq κ] {s : Setting σ κ ω γ π Float} {first w : Walk σ κ ω γ π Float}
    {done : List (Stage σ κ ω γ π Float)} (h : Course s first done w)
    (hreaction : worth first.selector.reaction = some (exactly 0))
    (hscores : ∀ st ∈ done, st.scored.All fun op => op.score.isFinite = true)
    (hfirst : first.selector.All fun op => op.weight = 1.0)
    (hsnapshots : ∀ x ∈ first.trace.snapshots.toList, x.Level) :
    (w.selector.All fun op => op.weight = 1.0) ∧ ∀ x ∈ w.trace.snapshots.toList, x.Level := by
  induction h with
  | start => exact ⟨hfirst, hsnapshots⟩
  | @step done w st h hst ih =>
      obtain ⟨hbefore, hsound⟩ := Walk.stage_ok hst
      obtain ⟨hw, htaken⟩ := ih fun st' hst' => hscores st' (List.mem_append_left _ hst')
      rw [← h.reaction_eq, ← hbefore] at hreaction
      rw [← hbefore] at hw htaken
      have hafter := hsound.level hreaction
        (hscores st (List.mem_append_right _ List.mem_cons_self)) hw
      exact ⟨hafter, hsound.forall_snapshots htaken (hafter.level_snapshot _)⟩

/-! ## Runs of a solver -/

namespace Solver

variable {s : Solver σ κ ω γ π} {initial : σ} {r : Request} {gauge : γ} {world : ω}

/-- What an iteration earns is not negative when the rewards are not. -/
theorem unsigned_score {rewards : Rewards Float} (hcheck : s.check r = .ok ())
    (hrewards : rewards? r.rewards = .ok rewards) (v : Verdict) :
    Unsigned (view (v.score rewards)) := by
  obtain ⟨-, -, -, -, -, hpositive⟩ := check_ok_iff.mp hcheck
  have hreal : ∀ q ∈ r.rewards, ∀ x, q.toReal? = .ok x → Unsigned (view x) := fun q hq x hx =>
    not_lt_zero_iff.mp (Quantity.not_lt_zero_of_toReal? (hpositive q hq) hx)
  unfold rewards? at hrewards
  split at hrewards
  · rename_i newBest better accepted hlist
    rw [hlist] at hreal
    obtain ⟨x, hx, hrewards⟩ := bind_eq_ok.mp hrewards
    obtain ⟨y, hy, hrewards⟩ := bind_eq_ok.mp hrewards
    obtain ⟨z, hz, hrewards⟩ := bind_eq_ok.mp hrewards
    cases hrewards
    unfold Verdict.score
    dsimp only
    split
    · exact hreal newBest (by simp) x hx
    split
    · exact hreal better (by simp) y hy
    split
    · exact hreal accepted (by simp) z hz
    · exact .zero .positive
  · cases hrewards

/-- A run starts with weights and scores of one, and no uses. -/
theorem Embarked.fresh {setting : Setting σ κ ω γ π Float} {first : Walk σ κ ω γ π Float} {n : Nat}
    (h : s.Embarked initial r gauge world setting first n) :
    first.selector.All fun op => op.weight = 1.0 ∧ op.score = 1.0 ∧ op.timesUsed = 0 := by
  rw [h.selector]
  intro role op hop
  cases role <;> exact Pool.fresh_of_mem_reset hop

theorem Embarked.reaction_eq {setting : Setting σ κ ω γ π Float} {first : Walk σ κ ω γ π Float}
    {n : Nat} (h : s.Embarked initial r gauge world setting first n) :
    first.selector.reaction = r.reaction.toFloat := by
  rw [h.selector]
  rfl

/-- A share that is zero is zero as a real. -/
theorem worth_of_zero {q : Quantity} (hshare : isShare q) (hzero : q.same (.whole 0) = true) :
    worth q.toFloat = some (exactly 0) := by
  obtain ⟨x, hx, hamount, -, -⟩ := Quantity.worth_of_share hshare.1 hshare.2
  obtain ⟨p, hp, hp'⟩ := Quantity.same_iff_amount.mp hzero
  cases hp'
  rw [hamount] at hp
  rw [hx, hp]
  rfl

variable [BEq κ]

/-- No score overflows: behind every iteration, before its segment is closed, all scores are
finite. -/
def ScoresFinite (s : Solver σ κ ω γ π) (initial : σ) (r : Request) (gauge : γ) (world : ω) :
    Prop :=
  ∀ role, ∀ st ∈ s.stages initial r gauge world, ∀ op ∈ st.scored.pool role,
    op.score.isFinite = true

/-- By a reaction of zero all weights of a run are one. -/
theorem level_of_embark {setting : Setting σ κ ω γ π Float} {first w : Walk σ κ ω γ π Float}
    {n : Nat} {done : List (Stage σ κ ω γ π Float)}
    (hembark : s.embark initial r gauge world = .ok (setting, first, n))
    (hcourse : Course setting first done w) (hn : done.length ≤ n)
    (hzero : r.reaction.same (.whole 0) = true) (hscores : s.ScoresFinite initial r gauge world) :
    (w.selector.All fun op => op.weight = 1.0) ∧ ∀ x ∈ w.trace.snapshots.toList, x.Level := by
  have hout := embark_ok hembark
  obtain ⟨-, -, -, hshare, -⟩ := check_ok_iff.mp hout.check
  have hstages : s.stages initial r gauge world = first.stages setting n := by
    simp only [stages, hembark]
  apply hcourse.level
  · rw [hout.reaction_eq]
    exact worth_of_zero hshare hzero
  · intro st hst role
    apply hscores role st
    rw [hstages, hcourse.stages_eq hn]
    exact List.mem_append_left _ hst
  · exact fun role op hop => (hout.fresh role op hop).1
  · rw [hout.trace]
    intro x hx
    cases hx

/-- Whatever the reaction, no weight of a run becomes zero or negative. -/
theorem Embarked.usable {setting : Setting σ κ ω γ π Float} {first w : Walk σ κ ω γ π Float}
    {n : Nat} {done : List (Stage σ κ ω γ π Float)}
    (hout : s.Embarked initial r gauge world setting first n)
    (hcourse : Course setting first done w) (hn : done.length ≤ 2 ^ 1023) :
    w.selector.All (Operator.Usable done.length) := by
  obtain ⟨-, -, -, hshare, -⟩ := check_ok_iff.mp hout.check
  obtain ⟨q, hq, -, hlow, hhigh⟩ := Quantity.worth_of_share hshare.1 hshare.2
  rw [← hout.reaction_eq] at hq
  apply hcourse.usable hn hq hlow hhigh (unsigned_score hout.check hout.rewards)
  intro role op hop
  obtain ⟨hweight, hscore, hused⟩ := hout.fresh role op hop
  have hone : worth 1.0 = some (exactly 1) := worth_one
  exact {
    weight := by
      rw [hweight]
      have hle : least ≤ 1 := by
        unfold least
        exact zpow_le_one_of_nonpos₀ (by norm_num) (by norm_num)
      exact atLeast_of_value hone hle
    score := by
      rw [hscore]
      exact atLeast_of_value hone le_rfl
    timesUsed := by rw [hused] }

end Solver

end LargeNeighborhood
