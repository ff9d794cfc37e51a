import LargeNeighborhood.Proofs.Random.Shuffle
import LargeNeighborhood.Proofs.Tour.Complete
import LargeNeighborhood.Tour.Insertion

set_option autoImplicit false

/-! # Insertion completes tours

Cheapest insertion makes a complete tour of a balanced one. The place of a visit is the first of the
cheapest ones (`exists_firstLeast`), so it is a place that the route has, the visit is added to what
is there (`insert_perm`), and the visits that are put there are those of the bank in some order.
Where the visits have distances, no insertion fails.
-/

namespace LargeNeighborhood

namespace Insertion

/-! ## Places -/

/-- The first of the least members: `c`, at index `i`. -/
structure FirstLeast (costs : List Int64) (i : Nat) (c : Int64) : Prop where
  found : costs[i]? = some c
  least : ∀ (j : Nat) (c' : Int64), costs[j]? = some c' → c ≤ c'
  first : ∀ (j : Nat) (c' : Int64), j < i → costs[j]? = some c' → c < c'

theorem getElem?_snoc {costs : List Int64} {cost c : Int64} {j : Nat}
    (h : (costs ++ [cost])[j]? = some c) :
    costs[j]? = some c ∨ j = costs.length ∧ c = cost := by
  by_cases hj : j < costs.length
  · rw [List.getElem?_append_left hj] at h
    exact Or.inl h
  · rw [List.getElem?_append_right (by omega), List.getElem?_singleton] at h
    split at h
    · cases h
      exact Or.inr ⟨by omega, rfl⟩
    · cases h

/-- A member that is less than the least one so far is the new one. -/
theorem FirstLeast.snoc_of_lt {costs : List Int64} {i : Nat} {c cost : Int64}
    (h : FirstLeast costs i c) (hlt : cost < c) :
    FirstLeast (costs ++ [cost]) costs.length cost where
  found := by rw [List.getElem?_concat_length]
  least := by
    intro j c' hj
    rcases getElem?_snoc hj with hj | ⟨-, rfl⟩
    · exact Int64.le_of_lt (Int64.lt_of_lt_of_le hlt (h.least j c' hj))
    · exact Int64.le_refl _
  first := by
    intro j c' hj hcost
    rw [List.getElem?_append_left hj] at hcost
    exact Int64.lt_of_lt_of_le hlt (h.least j c' hcost)

/-- A member that is not less than the least one so far changes nothing. -/
theorem FirstLeast.snoc_of_not_lt {costs : List Int64} {i : Nat} {c cost : Int64}
    (h : FirstLeast costs i c) (hle : ¬cost < c) : FirstLeast (costs ++ [cost]) i c where
  found := by
    rw [List.getElem?_append_left (List.getElem?_eq_some_iff.mp h.found).1]
    exact h.found
  least := by
    intro j c' hj
    rcases getElem?_snoc hj with hj | ⟨-, rfl⟩
    · exact h.least j c' hj
    · exact Int64.not_lt.mp hle
  first := by
    intro j c' hj hcost
    have hi := (List.getElem?_eq_some_iff.mp h.found).1
    rw [List.getElem?_append_left (Nat.lt_trans hj hi)] at hcost
    exact h.first j c' hj hcost

theorem firstLeast_go {seen : List Int64} {found : Nat} {least : Int64}
    (h : FirstLeast seen found least) (costs : List Int64) :
    ∃ c, FirstLeast (seen ++ costs) (firstLeast.go least found seen.length costs) c := by
  -- On the members still to be seen; those that have been seen stand in front of them.
  induction costs generalizing seen found least with
  | nil =>
      rw [List.append_nil]
      exact ⟨least, h⟩
  | cons cost costs ih =>
      have hseen : seen ++ cost :: costs = seen ++ [cost] ++ costs := by simp
      have hlength : seen.length + 1 = (seen ++ [cost]).length := by simp
      unfold firstLeast.go
      rw [hseen, hlength]
      split
      · rename_i hlt
        exact ih (h.snoc_of_lt hlt)
      · rename_i hle
        exact ih (h.snoc_of_not_lt hle)

/-- The place found is the first of the least ones. -/
theorem exists_firstLeast {costs : List Int64} (h : costs ≠ []) :
    ∃ c, FirstLeast costs (firstLeast costs) c := by
  cases costs with
  | nil => exact absurd rfl h
  | cons cost costs =>
      have hfirst : FirstLeast [cost] 0 cost := by
        refine ⟨rfl, ?_, ?_⟩
        · intro j c' hj
          rw [List.getElem?_singleton] at hj
          split at hj
          · cases hj
            exact Int64.le_refl _
          · cases hj
        · intro j c' hj
          omega
      exact firstLeast_go hfirst costs

theorem length_slots (route : List Int) : (slots route).length = route.length := by
  unfold slots
  rw [List.length_zip, List.length_append, List.length_drop, List.length_take]
  omega

/-- On both sides of a place there are visits of the route. -/
theorem mem_of_mem_slots {route : List Int} {slot : Int × Int} (h : slot ∈ slots route) :
    slot.1 ∈ route ∧ slot.2 ∈ route := by
  obtain ⟨hfirst, hsecond⟩ := List.of_mem_zip h
  refine ⟨?_, hsecond⟩
  rcases List.mem_append.mp hfirst with hmem | hmem
  · exact List.mem_of_mem_drop hmem
  · exact List.mem_of_mem_take hmem

variable {table : DistanceTable} {v : Int} {route : List Int}

theorem length_slotCosts {costs : List Int64} (h : slotCosts table v route = .ok costs) :
    costs.length = route.length := by
  have hlength := (mapM_eq_ok.mp h).length_eq
  rw [length_slots] at hlength
  exact hlength.symm

/-! ## One visit -/

/-- A visit stands alone, or in the first of the cheapest places. -/
theorem insert_cases {route' : List Int} (h : insert table route v = .ok route') :
    route = [] ∧ route' = [v] ∨
      ∃ costs i c, slotCosts table v route = .ok costs ∧ FirstLeast costs i c ∧ i < route.length ∧
        route' = route.insertIdx i v := by
  unfold insert at h
  split at h
  · rename_i hempty
    cases h
    exact Or.inl ⟨List.isEmpty_iff.mp hempty, rfl⟩
  · rename_i hne
    obtain ⟨costs, hcosts, h⟩ := bind_eq_ok.mp h
    cases h
    have hlength := length_slotCosts hcosts
    have hpos : costs ≠ [] := by
      intro hnil
      rw [hnil, List.length_nil] at hlength
      exact hne (List.isEmpty_iff_length_eq_zero.mpr hlength.symm)
    obtain ⟨c, hleast⟩ := exists_firstLeast hpos
    have hlt := (List.getElem?_eq_some_iff.mp hleast.found).1
    exact Or.inr ⟨costs, _, c, hcosts, hleast, hlength ▸ hlt, rfl⟩

theorem insert_perm {route' : List Int} (h : insert table route v = .ok route') :
    route'.Perm (v :: route) := by
  rcases insert_cases h with ⟨rfl, rfl⟩ | ⟨costs, i, c, -, -, hlt, rfl⟩
  · exact List.Perm.refl [v]
  · exact List.perm_insertIdx v route (Nat.le_of_lt hlt)

/-- Visits that have distances can be put on the route. -/
theorem exists_insert_ok (hv : table.Places v) (hroute : ∀ u ∈ route, table.Places u) :
    ∃ route', insert table route v = .ok route' := by
  unfold insert
  split
  · exact ⟨[v], rfl⟩
  · obtain ⟨costs, hcosts⟩ : ∃ costs, slotCosts table v route = .ok costs := by
      apply exists_mapM_ok
      intro slot hslot
      obtain ⟨hfirst, hsecond⟩ := mem_of_mem_slots hslot
      apply exists_bind_ok (DistanceTable.exists_get_ok (hroute _ hfirst) hv)
      intro d _
      apply exists_bind_ok (DistanceTable.exists_get_ok hv (hroute _ hsecond))
      intro d' _
      exact ⟨d + d', rfl⟩
    exact ⟨_, bind_eq_ok.mpr ⟨costs, hcosts, rfl⟩⟩

/-! ## All visits -/

theorem foldlM_insert_perm {order route' : List Int}
    (h : order.foldlM (insert table) route = .ok route') : route'.Perm (route ++ order) := by
  -- On the visits still to be put, while the route grows.
  induction order generalizing route with
  | nil =>
      cases h
      rw [List.append_nil]
  | cons v order ih =>
      rw [List.foldlM_cons] at h
      obtain ⟨middle, hmiddle, h⟩ := bind_eq_ok.mp h
      have hrest : route'.Perm (middle ++ order) := ih h
      have hfirst : (middle ++ order).Perm (v :: route ++ order) :=
        (insert_perm hmiddle).append_right order
      exact (hrest.trans hfirst).trans List.perm_middle.symm

theorem exists_foldlM_insert_ok {order : List Int} (horder : ∀ v ∈ order, table.Places v)
    (hroute : ∀ u ∈ route, table.Places u) :
    ∃ route', order.foldlM (insert table) route = .ok route' := by
  -- It is kept that the table has all visits on the route.
  obtain ⟨route', hroute', -⟩ : ∃ route', order.foldlM (insert table) route = .ok route' ∧
      ∀ u ∈ route', table.Places u := by
    apply exists_foldlM_ok_and (P := fun route => ∀ u ∈ route, table.Places u) _ hroute
    intro route v hplaced hv
    obtain ⟨route', hroute'⟩ := exists_insert_ok (horder v hv) hplaced
    refine ⟨route', hroute', ?_⟩
    intro u hu
    rcases List.mem_cons.mp ((insert_perm hroute').mem_iff.mp hu) with rfl | hu
    · exact horder u hv
    · exact hplaced u hu
  exact ⟨route', hroute'⟩

variable {ω : Type} {g : Generator ω} {p : Problem} {t t' : Tour} {w : ω}

/-- Insertion makes complete tours. -/
theorem apply_complete (hg : g.Permutes) (ht : Tour.Balanced p t)
    (h : (apply g t w).1 = .ok t') : Tour.Complete p t' := by
  unfold apply at h
  split at h
  · cases h
  rename_i order w' hshuffle
  split at h
  · cases h
  rename_i route hroute
  cases h
  have horder : order.Perm t.bank := hg t.bank w order (by rw [hshuffle])
  exact ⟨ht.problem, rfl, (foldlM_insert_perm hroute).trans
    ((horder.append_left t.route).trans ht.visits)⟩

/-- Insertion does not fail where lists can be shuffled. -/
theorem exists_apply_in {W : ω → Prop} (hg : g.ShufflesIn W) (hp : p.Sound)
    (ht : Tour.Balanced p t) (hw : W w) : ∃ t' w', apply g t w = (.ok t', w') ∧ W w' := by
  obtain ⟨order, w', hshuffle, hperm, hw'⟩ := hg t.bank w hw
  have horder : ∀ v ∈ order, t.problem.distances.Places v := by
    intro v hv
    rw [ht.problem]
    exact hp.placed v (ht.visits.subset (List.mem_append_right _ (hperm.mem_iff.mp hv)))
  obtain ⟨route, hroute⟩ := exists_foldlM_insert_ok horder (ht.placed hp)
  exact ⟨{ t with route, bank := [] }, w', by simp only [apply, hshuffle, hroute], hw'⟩

/-- Insertion does not fail. -/
theorem exists_apply_ok (hg : g.Lawful) (hp : p.Sound) (ht : Tour.Balanced p t) (w : ω) :
    ∃ t' w', apply g t w = (.ok t', w') := by
  have hshuffles : g.Shuffles := hg.shuffle_ok
  obtain ⟨t', w', happly, -⟩ := exists_apply_in hshuffles.shufflesIn hp ht (w := w) trivial
  exact ⟨t', w', happly⟩

end Insertion

end LargeNeighborhood
