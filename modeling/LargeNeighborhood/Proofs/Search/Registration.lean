import LargeNeighborhood.Proofs.Search.Interruption
import Mathlib

set_option autoImplicit false

/-! # Registered operators

An operator is registered under a name that no other operator of its pool has, and at the end of
the pool, which makes its index its position (`Pool.Labelled`). Nothing that a solver can be asked
for spoils that: what is left by creating, registering and running, in any order and with any
outcome, is a solver whose pools are labelled (`Solver.Built.labelled`) and whose segments have at
least one iteration (`Solver.Built.segment`).
-/

namespace LargeNeighborhood

/-! ## Names -/

/-- In a list whose members are told apart by their keys, each is alone with its key. -/
theorem filter_key_eq {α δ : Type} [DecidableEq δ] {f : α → δ} {xs : List α} (h : (xs.map f).Nodup)
    {x : α} (hx : x ∈ xs) : (xs.filter fun y => f y = f x) = [x] := by
  induction xs with
  | nil => exact absurd hx List.not_mem_nil
  | cons first xs ih =>
      obtain ⟨hfirst, hrest⟩ := List.nodup_cons.mp h
      rcases List.mem_cons.mp hx with rfl | hx
      · have hnone : (xs.filter fun y => f y = f x) = [] := by
          rw [List.filter_eq_nil_iff]
          intro y hy heq
          exact hfirst (of_decide_eq_true heq ▸ List.mem_map_of_mem hy)
        rw [List.filter_cons_of_pos (by simp), hnone]
      · have hne : f first ≠ f x := by
          intro heq
          exact hfirst (heq ▸ List.mem_map_of_mem hx)
        rw [List.filter_cons_of_neg (by simpa using hne)]
        exact ih hrest hx

namespace Pool

theorem numbered_injective (name : String) : Function.Injective (numbered name) := by
  intro a b h
  exact Nat.repr_injective ((String.append_right_inj _).mp h)

/-- Of one number more than there are names, from any number on, not all can be taken. -/
theorem exists_numbered_notMem (taken : List String) (name : String) (start : Nat) :
    ∃ k ∈ List.range' start (taken.length + 1), numbered name k ∉ taken := by
  by_contra hall
  have hsubset : (List.range' start (taken.length + 1)).map (numbered name) ⊆ taken := by
    intro x hx
    obtain ⟨k, hk, rfl⟩ := List.mem_map.mp hx
    by_contra hfree
    exact hall ⟨k, hk, hfree⟩
  have hnodup : ((List.range' start (taken.length + 1)).map (numbered name)).Nodup :=
    List.Nodup.map (numbered_injective name) List.nodup_range'
  have hlength := (List.Nodup.subperm hnodup hsubset).length_le
  rw [List.length_map, List.length_range'] at hlength
  omega

theorem freshName_notMem (taken : List String) (name : String) : freshName taken name ∉ taken := by
  unfold freshName
  split
  · obtain ⟨k, hk, hfree⟩ := exists_numbered_notMem taken name taken.length
    split
    · rename_i j hj
      have hpicked := List.find?_some hj
      exact of_decide_eq_true hpicked
    · rename_i hnone
      exact absurd (decide_eq_true hfree) (List.find?_eq_none.mp hnone k hk)
  · rename_i hfree
    exact hfree

/-! ## Labelled pools -/

variable {ν τ β : Type}

/-- A pool whose operators stand at their indices, each under a name of its own. -/
structure Labelled (p : Pool ν τ β) : Prop where
  index : p.map Operator.index = List.range p.length
  names : (names p).Nodup

namespace Labelled

variable {p : Pool ν τ β}

theorem empty : Labelled ([] : Pool ν τ β) where
  index := rfl
  names := List.nodup_nil

/-- Pools of the same operators are labelled together, whatever the numbers of the operators are. -/
theorem congr {p' : Pool ν τ β} (hp : Labelled p) (h : identities p' = identities p) :
    Labelled p' := by
  have hindex : ∀ q : Pool ν τ β, q.map Operator.index = (identities q).map fun x => x.1 := by
    intro q
    unfold identities
    rw [List.map_map]
    rfl
  have hlength : p'.length = p.length := by
    have := congrArg List.length h
    rwa [identities, identities, List.length_map, List.length_map] at this
  exact {
    index := by rw [hindex, h, ← hindex, hp.index, hlength]
    names := by
      have hnames := hp.names
      rwa [names_eq, ← h, ← names_eq] at hnames }

theorem index_eq (h : Labelled p) {i : Nat} {op : Operator ν τ β} (hop : p[i]? = some op) :
    op.index = i := by
  have hindex : (p.map Operator.index)[i]? = some op.index := by rw [List.getElem?_map, hop]; rfl
  rw [h.index, List.getElem?_range (List.getElem?_eq_some_iff.mp hop).1] at hindex
  exact (Option.some_inj.mp hindex).symm

/-- An operator is known by its name. -/
theorem name_eq_iff (h : Labelled p) {i j : Nat} {op op' : Operator ν τ β}
    (hop : p[i]? = some op) (hop' : p[j]? = some op') : op'.name = op.name ↔ j = i := by
  have hname : (Pool.names p)[i]? = some op.name := by rw [Pool.names, List.getElem?_map, hop]; rfl
  have hname' : (Pool.names p)[j]? = some op'.name := by
    rw [Pool.names, List.getElem?_map, hop']
    rfl
  have hlt : j < (Pool.names p).length := (List.getElem?_eq_some_iff.mp hname').1
  rw [← List.getElem?_inj hlt h.names, hname, hname', Option.some_inj]

variable [Scalar ν] [Tally ν τ]

theorem register {o : Offer β} {given : Option String} {op : Operator ν τ β} {p' : Pool ν τ β}
    (hp : Labelled p) (h : Pool.register p o given = .ok (op, p')) : Labelled p' := by
  obtain ⟨⟨name, action⟩, -, h⟩ := bind_eq_ok.mp h
  cases h
  exact {
    index := by
      rw [List.map_append, hp.index, List.length_append, List.length_singleton, List.range_succ]
      rfl
    names := by
      have hnew : Pool.names (p ++ [newOperator p name action]) =
          Pool.names p ++ [freshName (Pool.names p) name] := List.map_append
      rw [hnew, ← List.concat_eq_append]
      exact hp.names.concat (freshName_notMem _ _) }

end Labelled

end Pool

/-! ## The pools of a selector -/

namespace Selector

variable {ν τ β : Type}

@[simp] theorem pool_setPool (s : Selector ν τ β) (role : Role) (p : Pool ν τ β) :
    (s.setPool role p).pool role = p := by
  cases role <;> rfl

theorem pool_setPool_of_ne (s : Selector ν τ β) {role other : Role} (h : other ≠ role)
    (p : Pool ν τ β) : (s.setPool role p).pool other = s.pool other := by
  cases role <;> cases other <;> first | rfl | exact absurd rfl h

variable [Scalar ν] [Tally ν τ]

/-- Registering fails exactly if the offer is refused, and what is registered is one new operator
at the end of the pool of its kind. -/
theorem register_eq (s : Selector ν τ β) (role : Role) (o : Offer β) (given : Option String) :
    s.register role o given = (o.resolve given).map fun entry =>
      (Pool.newOperator (s.pool role) entry.1 entry.2,
        s.setPool role (s.pool role ++ [Pool.newOperator (s.pool role) entry.1 entry.2])) := by
  unfold register Pool.register
  cases o.resolve given <;> rfl

end Selector

/-! ## Solvers -/

namespace Solver

variable {σ κ ω γ π : Type} [BEq κ]

/-- A solver that has been created, and has registered operators and made runs since. -/
inductive Built : Solver σ κ ω γ π → Prop
  | create {landscape : Landscape σ κ} {criterion : Option (Criterion σ ω γ π)}
      {kind criterionName : String} {draw : ω → Except Fault Float × ω}
      {segment logInterval : Quantity} {s : Solver σ κ ω γ π} :
      Solver.create landscape criterion kind criterionName draw segment logInterval = .ok s →
      Built s
  | register {s s' : Solver σ κ ω γ π} {role : Role} {o : Offer (Action σ ω)}
      {given : Option String} {op : Operator Float Nat (Action σ ω)} :
      Built s → s.register role o given = .ok (op, s') → Built s'
  | run {s : Solver σ κ ω γ π} (initial : σ) (r : Request) (gauge : γ) (world : ω) :
      Built s → Built (s.run initial r gauge world).solver

namespace Built

variable {s : Solver σ κ ω γ π}

theorem labelled (h : Built s) (role : Role) : (s.selector.pool role).Labelled := by
  induction h with
  | create h =>
      unfold Solver.create at h
      split at h
      · cases h
      split at h
      · cases h
      cases h
      cases role <;> exact .empty
  | @register s s' registered o given op hs h ih =>
      obtain ⟨⟨op', selector⟩, hselector, h⟩ := bind_eq_ok.mp h
      cases h
      obtain ⟨⟨op'', pool⟩, hpool, h⟩ := bind_eq_ok.mp hselector
      cases h
      -- Only the pool of the operator registered has changed.
      by_cases heq : role = registered
      · subst heq
        simpa using ih.register hpool
      · simpa [Selector.pool_setPool_of_ne _ heq] using ih
  | run initial r gauge world hs ih => exact ih.congr (run_identities role)

theorem segment (h : Built s) : ¬ s.segment < Quantity.whole 1 := by
  induction h with
  | create h =>
      unfold Solver.create at h
      split at h
      · cases h
      split at h
      · cases h
      rename_i hsegment
      cases h
      exact hsegment
  | register hs h ih =>
      obtain ⟨⟨op', selector⟩, -, h⟩ := bind_eq_ok.mp h
      cases h
      exact ih
  | @run s initial r gauge world hs ih =>
      obtain ⟨selector, trace, hrun⟩ : ∃ selector trace,
          (s.run initial r gauge world).solver = { s with selector, trace } := run_solver_eq
      rw [hrun]
      exact ih

end Built

end Solver

end LargeNeighborhood
