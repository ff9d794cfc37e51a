import LargeNeighborhood.Proofs.Search.Registration
import Mathlib

set_option autoImplicit false

/-! # The names of registered operators

A name that is taken gets a number, which is looked for by trying one number after the other, from
the size of the pool on (`Pool.firstFree`). The search ends, since of the numbers in question no
more can be taken than there are names, and it finds what `Pool.freshName` picks
(`Pool.freshName_eq`). So whatever is registered with a selector, in whatever order and with
whatever names, the operators of a pool are told apart by their names, and a table of their weights
by name has one entry for each of them (`Selector.enterAll_labelled`).
-/

namespace LargeNeighborhood

/-! ## The search for a free number -/

namespace Pool

theorem exists_free (taken : List String) (name : String) (k : Nat) :
    ∃ j, k ≤ j ∧ numbered name j ∉ taken := by
  obtain ⟨j, hj, hfree⟩ := exists_numbered_notMem taken name k
  exact ⟨j, (List.mem_range'_1.mp hj).1, hfree⟩

/-- The first free number from `k` on, by trying one after the other. -/
def firstFree (taken : List String) (name : String) (k : Nat) : Nat :=
  if numbered name k ∈ taken then firstFree taken name (k + 1) else k
termination_by Nat.find (exists_free taken name k) - k
decreasing_by
  rename_i htaken
  -- The number that is free stays the same, and a taken number is one step nearer to it.
  have hfree := Nat.find_spec (exists_free taken name k)
  have hne : k ≠ Nat.find (exists_free taken name k) := by
    intro heq
    rw [← heq] at hfree
    exact hfree.2 htaken
  have hnext : Nat.find (exists_free taken name (k + 1)) ≤ Nat.find (exists_free taken name k) :=
    Nat.find_le ⟨by omega, hfree.2⟩
  omega

/-- The search stops at the least number that is free. -/
theorem firstFree_isLeast (taken : List String) (name : String) (k : Nat) :
    IsLeast {j | k ≤ j ∧ numbered name j ∉ taken} (firstFree taken name k) := by
  fun_induction firstFree taken name k with
  | case1 k htaken ih =>
      constructor
      · have hle := ih.1.1
        exact ⟨by omega, ih.1.2⟩
      · intro j hj
        have hne : j ≠ k := by
          intro heq
          rw [heq] at hj
          exact hj.2 htaken
        have hlt : k + 1 ≤ j := by
          have hle := hj.1
          omega
        exact ih.2 ⟨hlt, hj.2⟩
  | case2 k hfree => exact ⟨⟨le_refl k, hfree⟩, fun j hj => hj.1⟩

/-- The search meets no more taken numbers than there are names. -/
theorem firstFree_le (taken : List String) (name : String) (k : Nat) :
    firstFree taken name k ≤ k + taken.length := by
  obtain ⟨j, hj, hfree⟩ := exists_numbered_notMem taken name k
  have hrange := List.mem_range'_1.mp hj
  calc firstFree taken name k ≤ j := (firstFree_isLeast taken name k).2 ⟨hrange.1, hfree⟩
    _ ≤ k + taken.length := by omega

/-- A free name is kept, and a taken one gets the number that the search finds. -/
theorem freshName_eq (taken : List String) (name : String) :
    freshName taken name =
      if name ∈ taken then numbered name (firstFree taken name taken.length) else name := by
  unfold freshName
  split
  · have hleast := firstFree_isLeast taken name taken.length
    have hle := firstFree_le taken name taken.length
    -- one number more than there are names taken, so one of them is free
    have hfind : (List.range' taken.length (taken.length + 1)).find?
        (fun k => decide (numbered name k ∉ taken)) =
          some (firstFree taken name taken.length) := by
      rw [List.find?_range'_eq_some]
      refine ⟨decide_eq_true hleast.1.2, List.mem_range'_1.mpr ⟨hleast.1.1, by omega⟩, ?_⟩
      intro j hj hlt
      rw [Bool.not_eq_true', decide_eq_false_iff_not]
      intro hfree
      have hge : firstFree taken name taken.length ≤ j := hleast.2 ⟨hj, hfree⟩
      omega
    rw [hfind]
  · rfl

/-! ## The table of weights -/

variable {ν τ β : Type}

/-- Of operators that are told apart by their names, each has one entry. -/
theorem filter_weights {p : Pool ν τ β} (hp : (names p).Nodup) {op : Operator ν τ β} (hop : op ∈ p) :
    ((weights p).filter fun entry => entry.1 = op.name) = [(op.name, op.weight)] := by
  unfold weights
  rw [List.filter_map]
  have halone : (p.filter fun other => other.name = op.name) = [op] := filter_key_eq hp hop
  exact congrArg (List.map fun other => (other.name, other.weight)) halone

/-! ## A new operator -/

/-- A new operator at the end of a pool: at its index, under the name it asks for if that is free,
otherwise under that name with the first free number from the size of the pool on. -/
structure Joins (p : Pool ν τ β) (name : String) (action : β) (op : Operator ν τ β) : Prop where
  index : op.index = p.length
  action : op.action = action
  kept : name ∉ names p → op.name = name
  renamed : name ∈ names p → op.name = numbered name (firstFree (names p) name p.length) ∧
    IsLeast {k | p.length ≤ k ∧ numbered name k ∉ names p} (firstFree (names p) name p.length) ∧
    firstFree (names p) name p.length ≤ 2 * p.length

theorem newOperator_joins [Scalar ν] [Tally ν τ] (p : Pool ν τ β) (name : String) (action : β) :
    Joins p name action (newOperator p name action) := by
  have hname : (newOperator p name action).name =
      if name ∈ names p then numbered name (firstFree (names p) name (names p).length) else name :=
    freshName_eq (names p) name
  have hlength : (names p).length = p.length := List.length_map _
  rw [hlength] at hname
  exact {
    index := rfl
    action := rfl
    kept := fun hfree => by rw [hname, if_neg hfree]
    renamed := by
      intro htaken
      have hle := firstFree_le (names p) name p.length
      rw [hlength] at hle
      exact ⟨by rw [hname, if_pos htaken], firstFree_isLeast (names p) name p.length, by omega⟩ }

end Pool

/-! ## Registrations in a row -/

/-- What is asked of a selector when an operator is registered with it. -/
structure Registration (β : Type) where
  role : Role
  offer : Offer β
  given : Option String

namespace Registration

variable {β : Type}

/-- The name that is asked for and what the operator does, or why the offer is refused. -/
def resolve (r : Registration β) : Except Fault (String × β) := r.offer.resolve r.given

/-- A registration of one kind that is not refused. -/
def adds (role : Role) (r : Registration β) : Bool := r.role = role ∧ r.resolve.isOk

end Registration

namespace Selector

variable {ν τ β : Type} [Scalar ν] [Tally ν τ]

/-- What a registration leaves of a selector. -/
def enter (s : Selector ν τ β) (r : Registration β) : Selector ν τ β :=
  match s.register r.role r.offer r.given with
  | .ok (_, s') => s'
  | .error _ => s

def enterAll (s : Selector ν τ β) (rs : List (Registration β)) : Selector ν τ β :=
  rs.foldl enter s

/-- How a selector answers a registration. A refused one leaves both pools as they were, another
one adds an operator to the pool of its kind and leaves the other pool as it was. -/
def Answers (s : Selector ν τ β) (r : Registration β) : Prop :=
  match r.resolve with
  | .error fault => s.register r.role r.offer r.given = .error fault ∧ s.enter r = s
  | .ok (name, action) => ∃ op,
      s.register r.role r.offer r.given = .ok (op, s.enter r) ∧
      Pool.Joins (s.pool r.role) name action op ∧
      (s.enter r).pool r.role = s.pool r.role ++ [op] ∧
      ∀ other, other ≠ r.role → (s.enter r).pool other = s.pool other

theorem answers (s : Selector ν τ β) (r : Registration β) : s.Answers r := by
  have hregister := s.register_eq r.role r.offer r.given
  unfold Answers enter
  rw [hregister]
  unfold Registration.resolve
  cases r.offer.resolve r.given with
  | error fault => exact ⟨rfl, rfl⟩
  | ok entry =>
      refine ⟨_, rfl, Pool.newOperator_joins _ _ _, ?_, ?_⟩
      · exact pool_setPool s r.role _
      · intro other hother
        exact pool_setPool_of_ne s hother _

/-- A registration keeps the pools labelled. -/
theorem labelled_enter {s : Selector ν τ β} (hs : ∀ role, (s.pool role).Labelled)
    (r : Registration β) (role : Role) : ((s.enter r).pool role).Labelled := by
  unfold enter register
  cases hpool : (s.pool r.role).register r.offer r.given with
  | error fault => exact hs role
  | ok added =>
      by_cases hrole : role = r.role
      · rw [hrole]
        simpa [bind, Except.bind, pure, Except.pure] using (hs r.role).register hpool
      · simpa [bind, Except.bind, pure, Except.pure, pool_setPool_of_ne s hrole] using hs role

theorem length_enter (s : Selector ν τ β) (r : Registration β) (role : Role) :
    ((s.enter r).pool role).length = (s.pool role).length + if r.adds role then 1 else 0 := by
  have hanswers := s.answers r
  unfold Answers at hanswers
  unfold Registration.adds
  cases hresolve : r.resolve with
  | error fault =>
      rw [hresolve] at hanswers
      simp [hanswers.2, Except.isOk, Except.toBool]
  | ok entry =>
      rw [hresolve] at hanswers
      obtain ⟨op, -, -, hpool, hother⟩ := hanswers
      by_cases hrole : r.role = role
      · subst hrole
        simp [hpool, Except.isOk, Except.toBool]
      · simp [hother role (Ne.symm hrole), hrole]

/-- Whatever is registered, in whatever order and under whatever names, the operators of a pool are
at their indices under names of their own, there is one for each registration that was not refused,
and a table of the weights by name has one entry for each of them. -/
theorem enterAll_labelled (reaction : ν) (rs : List (Registration β)) :
    let s := (empty reaction : Selector ν τ β).enterAll rs
    (∀ role, (s.pool role).Labelled ∧
      (s.pool role).length = rs.countP (Registration.adds role) ∧
      (Pool.weights (s.pool role)).length = (s.pool role).length ∧
      ∀ op ∈ s.pool role, ((Pool.weights (s.pool role)).filter fun entry => entry.1 = op.name) =
        [(op.name, op.weight)]) ∧
    ∀ r, s.Answers r := by
  intro s
  -- From any selector on: what one registration keeps, a row of them keeps.
  have hrun : ∀ (s : Selector ν τ β), (∀ role, (s.pool role).Labelled) → ∀ role,
      ((s.enterAll rs).pool role).Labelled ∧
        ((s.enterAll rs).pool role).length =
          (s.pool role).length + rs.countP (Registration.adds role) := by
    induction rs with
    | nil => exact fun s hs role => ⟨hs role, rfl⟩
    | cons r rs ih =>
        intro s hs role
        have hrest := ih (s.enter r) (labelled_enter hs r) role
        have hstep := length_enter s r role
        refine ⟨hrest.1, ?_⟩
        calc ((s.enterAll (r :: rs)).pool role).length
            = ((s.enter r).pool role).length + rs.countP (Registration.adds role) := hrest.2
          _ = (s.pool role).length + (r :: rs).countP (Registration.adds role) := by
            rw [hstep, List.countP_cons]
            omega
  have hempty : ∀ role, ((empty reaction : Selector ν τ β).pool role).Labelled := by
    intro role
    cases role <;> exact .empty
  refine ⟨fun role => ?_, s.answers⟩
  obtain ⟨hlabelled, hlength⟩ := hrun (empty reaction) hempty role
  have hnone : ((empty reaction : Selector ν τ β).pool role).length = 0 := by cases role <;> rfl
  rw [hnone, Nat.zero_add] at hlength
  exact ⟨hlabelled, hlength, List.length_map _,
    fun op hop => Pool.filter_weights hlabelled.names hop⟩

/-- A number that another operator already carries in its name is passed over. -/
example :
    let offer : Offer Unit := ⟨"function", none, some "f", none, some ()⟩
    let s : Selector Float Nat Unit := (empty Scalar.one).enterAll
      [⟨.destroy, offer, none⟩, ⟨.destroy, offer, some "f_2"⟩, ⟨.destroy, offer, none⟩]
    Pool.names (s.pool .destroy) = ["f", "f_2", "f_3"] := by
  decide +kernel

end Selector

end LargeNeighborhood
