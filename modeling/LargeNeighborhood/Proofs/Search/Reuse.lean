import LargeNeighborhood.Proofs.Search.Weights

set_option autoImplicit false

/-! # Using a solver again

A run starts over: what it does depends on the parts of the solver and on what its operators are,
not on their numbers or on the record (`Solver.Kin.run_eq`). Whatever has become of earlier runs,
they have changed nothing else. So a solver that has been used runs like one on which the same
operators have been registered and which has never run (`Solver.run_forgets_runs`), and a request
that is refused leaves everything as it was.
-/

namespace LargeNeighborhood

/-! ## Pools with the same operators -/

namespace Pool

variable {ν τ β : Type} {p p' : Pool ν τ β}

theorem isEmpty_congr (h : identities p = identities p') : p.isEmpty = p'.isEmpty := by
  rw [Bool.eq_iff_iff, List.isEmpty_iff_length_eq_zero, List.isEmpty_iff_length_eq_zero,
    length_congr h]

theorem names_congr (h : identities p = identities p') : names p = names p' := by
  rw [names_eq, names_eq, h]

variable [Scalar ν] [Tally ν τ]

/-- Starting over forgets all numbers. -/
theorem reset_eq_map (p : Pool ν τ β) : reset p = (identities p).map fun x =>
    { index := x.1, name := x.2.1, action := x.2.2, weight := Scalar.one, score := Scalar.one,
      timesUsed := Tally.none ν } := by
  unfold reset restart identities
  rw [List.map_map, List.map_map]
  rfl

theorem reset_congr (h : identities p = identities p') : reset p = reset p' := by
  rw [reset_eq_map, reset_eq_map, h]

/-- An offer is registered under the same name and index in both pools, or in neither. -/
theorem register_agrees (h : identities p = identities p') (o : Offer β) (given : Option String) :
    Agrees Eq (fun a a' => identities a.2 = identities a'.2) (register p o given)
      (register p' o given) := by
  unfold register
  apply (Agrees.refl (o.resolve given)).bind
  rintro ⟨name, action⟩ _ - - rfl
  have hoperator : (newOperator p name action).identity = (newOperator p' name action).identity := by
    simp only [newOperator, Operator.identity, length_congr h, names_congr h]
  have hoperators : identities (p ++ [newOperator p name action]) =
      identities (p' ++ [newOperator p' name action]) := by
    unfold identities at h ⊢
    rw [List.map_append, List.map_append, h, List.map_singleton, List.map_singleton, hoperator]
  exact .ok hoperators

end Pool

/-! ## Solvers with the same operators -/

namespace Solver

variable {σ κ ω γ π : Type} {s s' : Solver σ κ ω γ π}

/-- Two solvers with the same parts and the same operators. Their weights, scores and counts of use,
their reaction factors and their records may differ. -/
structure Kin (s s' : Solver σ κ ω γ π) : Prop where
  landscape : s.landscape = s'.landscape
  criterion : s.criterion = s'.criterion
  criterionName : s.criterionName = s'.criterionName
  draw : s.draw = s'.draw
  segment : s.segment = s'.segment
  logInterval : s.logInterval = s'.logInterval
  operators : ∀ role, s.selector.identities role = s'.selector.identities role

namespace Kin

theorem refl (s : Solver σ κ ω γ π) : Kin s s := ⟨rfl, rfl, rfl, rfl, rfl, rfl, fun _ => rfl⟩

theorem trans {s'' : Solver σ κ ω γ π} (h : Kin s s') (h' : Kin s' s'') : Kin s s'' where
  landscape := h.landscape.trans h'.landscape
  criterion := h.criterion.trans h'.criterion
  criterionName := h.criterionName.trans h'.criterionName
  draw := h.draw.trans h'.draw
  segment := h.segment.trans h'.segment
  logInterval := h.logInterval.trans h'.logInterval
  operators role := (h.operators role).trans (h'.operators role)

theorem check_eq (h : Kin s s') (r : Request) : s.check r = s'.check r := by
  have hdestroyers : s.selector.destroyers.isEmpty = s'.selector.destroyers.isEmpty :=
    Pool.isEmpty_congr (h.operators .destroy)
  have hrepairers : s.selector.repairers.isEmpty = s'.selector.repairers.isEmpty :=
    Pool.isEmpty_congr (h.operators .repair)
  unfold check
  rw [hdestroyers, hrepairers]

/-- Kin solvers become the same solver when they start over with the same reaction factor. -/
theorem startOver_eq (h : Kin s s') (reaction : Float) :
    s.startOver reaction = s'.startOver reaction := by
  have hdestroyers : Pool.reset s.selector.destroyers = Pool.reset s'.selector.destroyers :=
    Pool.reset_congr (h.operators .destroy)
  have hrepairers : Pool.reset s.selector.repairers = Pool.reset s'.selector.repairers :=
    Pool.reset_congr (h.operators .repair)
  simp only [startOver, Selector.reset, hdestroyers, hrepairers, h.landscape, h.criterion,
    h.criterionName, h.draw, h.segment, h.logInterval]

theorem run_eq [BEq κ] (h : Kin s s') {r : Request} (hcheck : s.check r = .ok ()) (initial : σ)
    (gauge : γ) (world : ω) : s.run initial r gauge world = s'.run initial r gauge world := by
  have hcheck' : s'.check r = .ok () := by rw [← h.check_eq, hcheck]
  simp only [run, hcheck, hcheck', h.startOver_eq]

/-- The solver that a run leaves is kin to the one that has made it. -/
theorem of_run [BEq κ] (s : Solver σ κ ω γ π) (initial : σ) (r : Request) (gauge : γ) (world : ω) :
    Kin (s.run initial r gauge world).solver s := by
  have hoperators : ∀ role, (s.run initial r gauge world).solver.selector.identities role =
      s.selector.identities role := run_identities
  obtain ⟨selector, trace, hsolver⟩ : ∃ selector trace,
      (s.run initial r gauge world).solver = { s with selector, trace } := run_solver_eq
  rw [hsolver] at hoperators ⊢
  exact ⟨rfl, rfl, rfl, rfl, rfl, rfl, hoperators⟩

/-- Kin solvers register the same offers and stay kin. -/
theorem register_agrees (h : Kin s s') (role : Role) (o : Offer (Action σ ω))
    (given : Option String) :
    Agrees Eq (fun a a' => Kin a.2 a'.2) (s.register role o given) (s'.register role o given) := by
  unfold register Selector.register
  rw [bind_assoc, bind_assoc]
  apply (Pool.register_agrees (h.operators role) o given).bind
  rintro ⟨op, p⟩ ⟨op', p'⟩ - - hp
  have hoperators : ∀ role', (s.selector.setPool role p).identities role' =
      (s'.selector.setPool role p').identities role' := by
    intro role'
    have hother := h.operators role'
    cases role <;> cases role' <;> first | exact hp | exact hother
  exact .ok { h with operators := hoperators }

end Kin

/-! ## What happens to a solver -/

/-- An operator is registered, or a run is made. -/
inductive Event (σ ω γ : Type) where
  | register (role : Role) (o : Offer (Action σ ω)) (given : Option String)
  | run (initial : σ) (r : Request) (gauge : γ) (world : ω)

def Event.isRegistration : Event σ ω γ → Bool
  | .register _ _ _ => true
  | .run _ _ _ _ => false

variable [BEq κ]

/-- The solver after an event. An offer that is refused leaves it as it was. -/
def next (s : Solver σ κ ω γ π) : Event σ ω γ → Solver σ κ ω γ π
  | .register role o given =>
      match s.register role o given with
      | .ok (_, s') => s'
      | .error _ => s
  | .run initial r gauge world => (s.run initial r gauge world).solver

/-- The solver after several events. -/
def after (s : Solver σ κ ω γ π) (events : List (Event σ ω γ)) : Solver σ κ ω γ π :=
  events.foldl next s

theorem Kin.next_register (h : Kin s s') (role : Role) (o : Offer (Action σ ω))
    (given : Option String) :
    Kin (s.next (.register role o given)) (s'.next (.register role o given)) := by
  have hregister := h.register_agrees role o given
  dsimp only [next]
  generalize s.register role o given = x, s'.register role o given = x' at hregister
  cases hregister with
  | error => exact h
  | ok hkin => exact hkin

/-- The runs among the events make no difference but in numbers. -/
theorem Kin.after_registrations (h : Kin s s') (events : List (Event σ ω γ)) :
    Kin (s.after events) (s'.after (events.filter Event.isRegistration)) := by
  induction events generalizing s s' with
  | nil => exact h
  | cons event events ih =>
      cases event with
      | register role o given => exact ih (h.next_register role o given)
      | run initial r gauge world => exact ih ((Kin.of_run s initial r gauge world).trans h)

/-- Whatever runs a solver has made between the registrations of its operators, and whatever has
become of them, it accepts the same requests as a solver that has only registered the operators, and
a run on it has the same outcome. A run that is refused leaves the solver, the criterion and the
world as they were and prints nothing. -/
theorem run_forgets_runs (s : Solver σ κ ω γ π) (events : List (Event σ ω γ)) (initial : σ)
    (r : Request) (gauge : γ) (world : ω) :
    let used := s.after events
    let fresh := s.after (events.filter Event.isRegistration)
    used.check r = fresh.check r ∧
      (used.check r = .ok () →
        used.run initial r gauge world = fresh.run initial r gauge world) ∧
      ∀ fault, used.check r = .error fault →
        used.run initial r gauge world =
          { result := .error fault, printed := "", solver := used, gauge, world } := by
  intro used fresh
  have hkin : Kin used fresh := (Kin.refl s).after_registrations events
  refine ⟨hkin.check_eq r, fun hcheck => hkin.run_eq hcheck initial gauge world, ?_⟩
  intro fault hcheck
  exact run_of_check_error hcheck

/-- Reads the next candidate off the script, and fails at its end. -/
def consuming : Action Nat (List Nat)
  | _, [] => (.error .indexOutOfRange, [])
  | _, x :: script => (.ok x, script)

/-- A solver is asked to run before it has a repair operator, is stopped in the second iteration of
a run, in the middle of a segment, and completes another one. Then it runs as if for the first
time. -/
theorem run_forgets_runs_unmanned :
    let script := [52, 71, 33, 25]
    let decisions := [true, true, false, true]
    let events : List (Event Nat (List Nat) (List Bool)) :=
      [.register .destroy (titled "read" consuming) none, .run 80 fourIterations decisions script,
        .register .repair (titled "keep" keeping) none, .run 80 fourIterations decisions [52],
        .run 80 fourIterations decisions script]
    let used := unmanned.after events
    let fresh := unmanned.after (events.filter Event.isRegistration)
    let idle := { fourIterations with iterations := .whole 0 }
    used.check fourIterations = .ok () ∧
      (used.run 80 fourIterations decisions script).result = .ok ⟨25, .whole 2⟩ ∧
      (used.selector.pool .destroy).map Operator.weight = [2.375] ∧
      (fresh.selector.pool .destroy).map Operator.weight = [1] ∧
      used.run 80 fourIterations decisions script =
        fresh.run 80 fourIterations decisions script ∧
      used.run 80 idle decisions script =
        { result := .error (.tooFewIterations (.whole 0)), printed := "", solver := used,
          gauge := decisions, world := script } := by
  intro script decisions events used fresh idle
  have hcheck : used.check fourIterations = .ok () := by decide +kernel
  obtain ⟨-, hrun, -⟩ :=
    run_forgets_runs unmanned events 80 fourIterations decisions script
  obtain ⟨hsame, -, hrefused⟩ := run_forgets_runs unmanned events 80 idle decisions script
  have hidle : fresh.check idle = .error (.tooFewIterations (.whole 0)) := rfl
  exact ⟨hcheck, by decide +kernel, by decide +kernel, by decide +kernel, hrun hcheck,
    hrefused _ (hsame.trans hidle)⟩

end Solver

end LargeNeighborhood
