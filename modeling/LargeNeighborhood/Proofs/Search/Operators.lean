import LargeNeighborhood.Proofs.Search.Run

set_option autoImplicit false

/-! # What the operators of a search keep to

Weights, scores and counts of use change from iteration to iteration, all else about an operator
stays the same: its position, its name and what it does (`Operator.identity`,
`Course.identities_eq`). So a contract between the operators holds through a whole run: when
destroy operators turn whole solutions into parts, and repair operators turn parts into whole
solutions, every solution that a run meets is whole (`Solver.whole_of_mem_walks`), however its
operators are drawn and whatever the criterion decides.
-/

namespace LargeNeighborhood

/-! ## Identities -/

/-- All about an operator but its numbers. -/
def Operator.identity {ν τ β : Type} (op : Operator ν τ β) : Nat × String × β :=
  (op.index, op.name, op.action)

namespace Pool

variable {ν τ β : Type}

/-- The operators of a pool without their numbers, in their order. -/
def identities (p : Pool ν τ β) : List (Nat × String × β) := p.map Operator.identity

/-- What the operators of a pool do, in their order. -/
def actions (p : Pool ν τ β) : List β := p.map Operator.action

theorem actions_eq (p : Pool ν τ β) : actions p = (identities p).map fun x => x.2.2 := by
  unfold actions identities
  rw [List.map_map]
  rfl

theorem names_eq (p : Pool ν τ β) : names p = (identities p).map fun x => x.2.1 := by
  unfold names identities
  rw [List.map_map]
  rfl

theorem length_congr {p p' : Pool ν τ β} (h : identities p = identities p') :
    p.length = p'.length := by
  have hlength := congrArg List.length h
  simpa only [identities, List.length_map] using hlength

/-- What a change to the operator at one position leaves alone, it leaves alone everywhere. -/
theorem map_modify {α : Type} {f : Operator ν τ β → Operator ν τ β} {g : Operator ν τ β → α}
    (hf : ∀ op, g (f op) = g op) (p : Pool ν τ β) (i : Nat) : (p.modify i f).map g = p.map g := by
  apply List.ext_getElem?
  intro k
  rw [List.getElem?_map, List.getElem?_map, List.getElem?_modify]
  cases p[k]? with
  | none => rfl
  | some op =>
      by_cases hk : i = k
      · simp [hk, hf]
      · simp [hk]

theorem identities_map {f : Operator ν τ β → Operator ν τ β}
    (hf : ∀ op, (f op).identity = op.identity) (p : Pool ν τ β) :
    identities (p.map f) = identities p := by
  unfold identities
  rw [List.map_map]
  apply List.map_congr_left
  intro op _
  exact hf op

variable (p : Pool ν τ β)

@[simp] theorem identities_use [Tally ν τ] (i : Nat) : identities (use p i) = identities p := by
  unfold identities use
  apply map_modify
  intro op
  rfl

@[simp] theorem identities_credit [Scalar ν] (i : Nat) (amount : ν) :
    identities (credit p i amount) = identities p := by
  unfold identities credit
  apply map_modify
  intro op
  rfl

@[simp] theorem map_weight_use [Tally ν τ] (i : Nat) :
    (use p i).map Operator.weight = p.map Operator.weight := by
  unfold use
  apply map_modify
  intro op
  rfl

@[simp] theorem map_score_use [Tally ν τ] (i : Nat) :
    (use p i).map Operator.score = p.map Operator.score := by
  unfold use
  apply map_modify
  intro op
  rfl

@[simp] theorem weights_use [Tally ν τ] (i : Nat) : weights (use p i) = weights p := by
  unfold weights use
  apply map_modify
  intro op
  rfl

variable [Scalar ν] [Tally ν τ]

@[simp] theorem identities_restart : identities (restart p) = identities p := by
  unfold restart
  apply identities_map
  intro op
  rfl

@[simp] theorem identities_reset : identities (reset p) = identities p := by
  unfold reset
  rw [identities_restart]
  apply identities_map
  intro op
  rfl

@[simp] theorem identities_adapt (reaction : ν) :
    identities (adapt reaction p) = identities p := by
  unfold adapt
  apply identities_map
  intro op
  split <;> rfl

variable {p}

/-- The numbers of an operator that has started over. -/
theorem fresh_of_mem_reset {op : Operator ν τ β} (h : op ∈ reset p) :
    op.weight = Scalar.one ∧ op.score = Scalar.one ∧ op.timesUsed = Tally.none ν := by
  unfold reset restart at h
  rw [List.map_map] at h
  obtain ⟨op', -, rfl⟩ := List.mem_map.mp h
  exact ⟨rfl, rfl, rfl⟩

end Pool

namespace Selector

variable {ν τ β : Type}

/-- The operators of one kind without their numbers. -/
def identities (s : Selector ν τ β) (role : Role) : List (Nat × String × β) :=
  Pool.identities (s.pool role)

/-- What the operators of one kind do. -/
def actions (s : Selector ν τ β) (role : Role) : List β := Pool.actions (s.pool role)

theorem actions_congr {s s' : Selector ν τ β} {role : Role}
    (h : s.identities role = s'.identities role) : s.actions role = s'.actions role := by
  unfold actions
  rw [Pool.actions_eq, Pool.actions_eq]
  exact congrArg (List.map fun x => x.2.2) h

/-- Pools of the same operators are empty together. -/
theorem pool_eq_nil_congr {s s' : Selector ν τ β} {role : Role}
    (h : s.identities role = s'.identities role) : s.pool role = [] ↔ s'.pool role = [] := by
  rw [← List.length_eq_zero_iff, ← List.length_eq_zero_iff, Pool.length_congr h]

theorem mem_actions {s : Selector ν τ β} {role : Role} {op : Operator ν τ β}
    (h : op ∈ s.pool role) : op.action ∈ s.actions role := List.mem_map_of_mem h

variable [Scalar ν] (s : Selector ν τ β)

@[simp] theorem identities_credit (destroyer repairer : Nat) (amount : ν) (role : Role) :
    (s.credit destroyer repairer amount).identities role = s.identities role := by
  cases role <;> simp [identities, credit, pool]

variable [Tally ν τ]

@[simp] theorem identities_adapt (role : Role) : s.adapt.identities role = s.identities role := by
  cases role <;> simp [identities, adapt, restart, pool]

@[simp] theorem identities_reset (role : Role) : s.reset.identities role = s.identities role := by
  cases role <;> simp [identities, reset, pool]

end Selector

/-! ## Contracts -/

variable {σ κ ω γ π ν : Type}

/-- What is asked of an operator: to destroy is to make a part of a whole solution, to repair is to
make a whole solution of a part. -/
def Action.Meets (whole part : σ → Prop) : Role → Action σ ω → Prop
  | .destroy, a => ∀ x w y, whole x → (a x w).1 = .ok y → part y
  | .repair, a => ∀ x w y, part x → (a x w).1 = .ok y → whole y

/-- A contract that all operators of a selector meet. -/
def Selector.Contract {τ : Type} (whole part : σ → Prop) (s : Selector ν τ (Action σ ω)) : Prop :=
  ∀ role, ∀ a ∈ s.actions role, Action.Meets whole part role a

namespace Selector

variable {τ : Type} [Scalar ν] [Tally ν τ] {whole part : σ → Prop} {s : Selector ν τ (Action σ ω)}

/-- Registering adds what the offer does to the operators of its kind. -/
theorem register_ok {role : Role} {o : Offer (Action σ ω)} {given : Option String}
    {op : Operator ν τ (Action σ ω)} {s' : Selector ν τ (Action σ ω)}
    (h : s.register role o given = .ok (op, s')) :
    ∃ name a, o.resolve given = .ok (name, a) ∧ s'.actions role = s.actions role ++ [a] ∧
      ∀ other, other ≠ role → s'.actions other = s.actions other := by
  obtain ⟨⟨op', pool⟩, hpool, h⟩ := bind_eq_ok.mp h
  cases h
  obtain ⟨⟨name, a⟩, hresolve, hpool⟩ := bind_eq_ok.mp hpool
  cases hpool
  refine ⟨name, a, hresolve, ?_, ?_⟩
  · cases role <;> simp [actions, setPool, pool, Pool.actions, Pool.newOperator]
  · intro other hother
    cases role <;> cases other <;> first | rfl | exact absurd rfl hother

theorem Contract.register {role : Role} {o : Offer (Action σ ω)} {given : Option String}
    {op : Operator ν τ (Action σ ω)} {s' : Selector ν τ (Action σ ω)} (hs : s.Contract whole part)
    (h : s.register role o given = .ok (op, s'))
    (ho : ∀ name a, o.resolve given = .ok (name, a) → Action.Meets whole part role a) :
    s'.Contract whole part := by
  obtain ⟨name, a, hresolve, hrole, hother⟩ := register_ok h
  intro other b hb
  -- Only the operators of this kind have become more.
  by_cases heq : other = role
  · rw [heq] at hb ⊢
    rw [hrole] at hb
    rcases List.mem_append.mp hb with hb | hb
    · exact hs role b hb
    · rw [List.mem_singleton.mp hb]
      exact ho name a hresolve
  · rw [hother other heq] at hb
    exact hs other b hb

end Selector

/-- An iteration changes only the numbers of the operators. -/
theorem Stage.Sound.identities_eq [BEq κ] [Scalar ν] {s : Setting σ κ ω γ π ν} {i : Nat}
    {st : Stage σ κ ω γ π ν} (h : st.Sound s i) (role : Role) :
    st.after.selector.identities role = st.before.selector.identities role := by
  obtain ⟨j, k, -, -, hselector⟩ := h.drawn
  have hcredited : (st.credited s j k).identities role = st.before.selector.identities role := by
    unfold Stage.credited
    rw [Selector.identities_credit]
    cases role <;> simp [Selector.identities, Selector.pool]
  rw [hselector]
  split
  · rw [Selector.identities_adapt, hcredited]
  · exact hcredited

/-- An iteration from a whole solution makes a whole candidate. -/
theorem Stage.Sound.whole_candidate [BEq κ] [Scalar ν] {s : Setting σ κ ω γ π ν} {i : Nat}
    {st : Stage σ κ ω γ π ν} {whole part : σ → Prop} (h : st.Sound s i)
    (hcontract : st.before.selector.Contract whole part) (hcurrent : whole st.before.current.state) :
    whole st.turn.candidate.state := by
  obtain ⟨j, k, hdestroyer, hrepairer, -⟩ := h.drawn
  obtain ⟨opened, world, world', world'', hopened, hclosed, -⟩ := h.made
  have hpart : part opened :=
    hcontract .destroy _ (Selector.mem_actions (List.mem_of_getElem? hdestroyer)) _ world _ hcurrent
      (by rw [hopened])
  exact hcontract .repair _ (Selector.mem_actions (List.mem_of_getElem? hrepairer)) _ world' _ hpart
    (by rw [hclosed])

theorem Stage.Sound.whole_after [BEq κ] [Scalar ν] {s : Setting σ κ ω γ π ν} {i : Nat}
    {st : Stage σ κ ω γ π ν} {whole part : σ → Prop} (h : st.Sound s i)
    (hcontract : st.before.selector.Contract whole part) (hcurrent : whole st.before.current.state)
    (hbest : whole st.before.best.state) :
    whole st.after.current.state ∧ whole st.after.best.state := by
  have hmoved : whole st.after.current.state := by
    rw [h.current]
    split
    · exact h.whole_candidate hcontract hcurrent
    · exact hcurrent
  refine ⟨hmoved, ?_⟩
  rw [h.best]
  split
  · exact hmoved
  · exact hbest

namespace Course

variable [BEq κ] [Scalar ν] {s : Setting σ κ ω γ π ν} {first w : Walk σ κ ω γ π ν}
  {done : List (Stage σ κ ω γ π ν)} {whole part : σ → Prop}

theorem identities_eq (h : Course s first done w) (role : Role) :
    w.selector.identities role = first.selector.identities role := by
  induction h with
  | start => rfl
  | step h hst ih =>
      obtain ⟨hbefore, hsound⟩ := Walk.stage_ok hst
      rw [hsound.identities_eq, hbefore, ih]

theorem contract (h : Course s first done w) (hfirst : first.selector.Contract whole part) :
    w.selector.Contract whole part := by
  intro role
  rw [Selector.actions_congr (h.identities_eq role)]
  exact hfirst role

/-- Under a contract all solutions of a course are whole. -/
theorem solutions_whole (h : Course s first done w)
    (hfirst : first.selector.Contract whole part) (hcurrent : whole first.current.state)
    (hbest : whole first.best.state) : whole w.current.state ∧ whole w.best.state := by
  induction h with
  | start => exact ⟨hcurrent, hbest⟩
  | step h hst ih =>
      obtain ⟨hbefore, hsound⟩ := Walk.stage_ok hst
      have hcontract := h.contract hfirst
      rw [← hbefore] at hcontract ih
      exact hsound.whole_after hcontract ih.1 ih.2

end Course

namespace Solver

variable {s : Solver σ κ ω γ π} {initial : σ} {r : Request} {gauge : γ} {world : ω}
  {whole part : σ → Prop}

/-- A solver that has registered an operator still meets a contract if the offer does. -/
theorem register_contract {role : Role} {o : Offer (Action σ ω)} {given : Option String}
    {op : Operator Float Nat (Action σ ω)} {s' : Solver σ κ ω γ π}
    (hs : s.selector.Contract whole part) (h : s.register role o given = .ok (op, s'))
    (ho : ∀ name a, o.resolve given = .ok (name, a) → Action.Meets whole part role a) :
    s'.selector.Contract whole part := by
  obtain ⟨⟨op', selector⟩, hselector, h⟩ := bind_eq_ok.mp h
  cases h
  exact hs.register hselector ho

/-- A run starts with the operators registered. -/
theorem Embarked.identities_eq {setting : Setting σ κ ω γ π Float} {first : Walk σ κ ω γ π Float}
    {n : Nat} (h : s.Embarked initial r gauge world setting first n) (role : Role) :
    first.selector.identities role = s.selector.identities role := by
  rw [h.selector, Selector.identities_reset]
  cases role <;> rfl

theorem Embarked.contract {setting : Setting σ κ ω γ π Float} {first : Walk σ κ ω γ π Float}
    {n : Nat} (h : s.Embarked initial r gauge world setting first n)
    (hs : s.selector.Contract whole part) : first.selector.Contract whole part := by
  intro role
  rw [Selector.actions_congr (h.identities_eq role)]
  exact hs role

variable [BEq κ]

/-- The walks that a run reaches, in front of its first iteration and behind each one that is
completed. -/
def walks (s : Solver σ κ ω γ π) (initial : σ) (r : Request) (gauge : γ) (world : ω) :
    List (Walk σ κ ω γ π Float) :=
  match s.embark initial r gauge world with
  | .ok (setting, first, n) => first :: (first.stages setting n).map Stage.after
  | .error _ => []

/-- A walk that a run reaches has come there by a course. -/
theorem course_of_mem_walks {w : Walk σ κ ω γ π Float} (hw : w ∈ s.walks initial r gauge world) :
    ∃ setting first n done, s.Embarked initial r gauge world setting first n ∧
      Course setting first done w := by
  unfold walks at hw
  split at hw
  · rename_i setting first n hembark
    refine ⟨setting, first, n, ?_⟩
    rcases List.mem_cons.mp hw with rfl | hw
    · exact ⟨[], embark_ok hembark, .start⟩
    · obtain ⟨st, hst, rfl⟩ := List.mem_map.mp hw
      obtain ⟨done, rest, hstages⟩ := List.append_of_mem hst
      exact ⟨done ++ [st], embark_ok hembark, (Course.of_stages hstages).2.1⟩
  · cases hw

/-- A stage of a run stands between the walks that the stages in front of it, and it too, have led
to. -/
theorem course_of_stages {done rest : List (Stage σ κ ω γ π Float)} {st : Stage σ κ ω γ π Float}
    (hstages : s.stages initial r gauge world = done ++ st :: rest) :
    ∃ setting first n, s.Embarked initial r gauge world setting first n ∧
      Course setting first done st.before ∧ Course setting first (done ++ [st]) st.after ∧
      st.Sound setting (done.length + 1) := by
  unfold stages at hstages
  split at hstages
  · rename_i setting first n hembark
    obtain ⟨hbefore, hafter, hsound⟩ := Course.of_stages hstages
    exact ⟨setting, first, n, embark_ok hembark, hbefore, hafter, hsound⟩
  · simp at hstages

/-- A stage of a run starts from a walk that the run has reached. -/
theorem course_of_mem_stages {st : Stage σ κ ω γ π Float}
    (hst : st ∈ s.stages initial r gauge world) :
    ∃ setting first n done, s.Embarked initial r gauge world setting first n ∧
      Course setting first done st.before ∧ st.Sound setting (done.length + 1) := by
  obtain ⟨done, rest, hstages⟩ := List.append_of_mem hst
  obtain ⟨setting, first, n, hembarked, hbefore, -, hsound⟩ := course_of_stages hstages
  exact ⟨setting, first, n, done, hembarked, hbefore, hsound⟩

theorem Embarked.solutions_whole {setting : Setting σ κ ω γ π Float}
    {first w : Walk σ κ ω γ π Float} {n : Nat} {done : List (Stage σ κ ω γ π Float)}
    (h : s.Embarked initial r gauge world setting first n) (hcourse : Course setting first done w)
    (hs : s.selector.Contract whole part) (hinitial : whole initial) :
    whole w.current.state ∧ whole w.best.state := by
  have hbest : whole first.best.state := by
    rw [h.origin]
    exact hinitial
  have hcurrent : whole first.current.state := by
    rw [h.current]
    exact hbest
  exact hcourse.solutions_whole (h.contract hs) hcurrent hbest

/-- The operators of a walk that a run reaches do what those of the solver do. -/
theorem actions_of_mem_walks {w : Walk σ κ ω γ π Float}
    (hw : w ∈ s.walks initial r gauge world) (role : Role) :
    w.selector.actions role = s.selector.actions role := by
  obtain ⟨setting, first, n, done, hembarked, hcourse⟩ := course_of_mem_walks hw
  exact Selector.actions_congr
    ((hcourse.identities_eq role).trans (hembarked.identities_eq role))

/-- Under a contract every walk that a run from a whole solution reaches has a whole current and a
whole best solution. -/
theorem whole_of_mem_walks (hs : s.selector.Contract whole part) (hinitial : whole initial)
    {w : Walk σ κ ω γ π Float} (hw : w ∈ s.walks initial r gauge world) :
    whole w.current.state ∧ whole w.best.state := by
  obtain ⟨setting, first, n, done, hembarked, hcourse⟩ := course_of_mem_walks hw
  exact hembarked.solutions_whole hcourse hs hinitial

/-- Under a contract every candidate of a run from a whole solution is whole, whether it is accepted
or not. -/
theorem whole_of_mem_stages (hs : s.selector.Contract whole part) (hinitial : whole initial)
    {st : Stage σ κ ω γ π Float} (hst : st ∈ s.stages initial r gauge world) :
    whole st.turn.candidate.state := by
  obtain ⟨setting, first, n, done, hembarked, hcourse, hsound⟩ := course_of_mem_stages hst
  obtain ⟨hcurrent, -⟩ := hembarked.solutions_whole hcourse hs hinitial
  exact hsound.whole_candidate (hcourse.contract (hembarked.contract hs)) hcurrent

/-- Under a contract a run from a whole solution returns a whole one, if it returns any. -/
theorem whole_of_run (hs : s.selector.Contract whole part) (hinitial : whole initial)
    {best : Rated σ} (hbest : (s.run initial r gauge world).result = .ok best) :
    whole best.state := by
  obtain ⟨setting, first, last, n, hcompleted⟩ := run_ok hbest
  obtain ⟨-, hlast⟩ := hcompleted.toEmbarked.solutions_whole hcompleted.course hs hinitial
  rw [← hcompleted.returned]
  exact hlast

end Solver

end LargeNeighborhood
