import LargeNeighborhood.Proofs.Tour.Insertion
import LargeNeighborhood.Proofs.Tour.Length

set_option autoImplicit false

/-! # Cheapest places

Insertion puts the visits of the bank on the route one after the other, in the order of the shuffle,
and each at the first of the places where the way over it is shortest (`Insertion.Put`). What it
compares are sums of two distances in 64 bits; where no such sum overflows, they are compared as the
whole numbers that they are. Since a place lies between two visits of the closed route, the route
grows by the way over the new visit less the leg that it takes the place of
(`Tour.closedLength_insertIdx`).
-/

namespace LargeNeighborhood

/-- The sum of any two distances of the table fits into 64 bits. -/
def DistanceTable.SumsFit (t : DistanceTable) : Prop :=
  ∀ a ∈ t.entries, ∀ b ∈ t.entries,
    Int64.minValue.toInt ≤ a.toInt + b.toInt ∧ a.toInt + b.toInt ≤ Int64.maxValue.toInt

theorem DistanceTable.mem_entries {t : DistanceTable} {a b : Int} {d : Int64}
    (h : t.get a b = .ok d) : d ∈ t.entries := by
  unfold get at h
  split at h
  · rename_i d' hat
    cases h
    unfold at? at hat
    obtain ⟨i, -, hat⟩ := Option.bind_eq_some_iff.mp hat
    obtain ⟨j, -, hat⟩ := Option.bind_eq_some_iff.mp hat
    exact Array.mem_of_getElem? hat
  · cases h

theorem toInt_add_of_fit {a b : Int64} (hlow : Int64.minValue.toInt ≤ a.toInt + b.toInt)
    (hhigh : a.toInt + b.toInt ≤ Int64.maxValue.toInt) : (a + b).toInt = a.toInt + b.toInt := by
  rw [Int64.toInt_minValue] at hlow
  rw [Int64.toInt_maxValue] at hhigh
  rw [Int64.toInt_add]
  exact Int.bmod_eq_of_le (by omega) (by omega)

namespace Insertion

/-! ## What insertion promises -/

/-- The first of the places of a closed route where the way over `v` is shortest: place `i`,
between `a` and `b`. -/
structure Cheapest (d : Int → Int → Int) (v : Int) (route : List Int) (i : Nat) (a b : Int) :
    Prop where
  between : Tour.Between route i a b
  least : ∀ (j : Nat) (a' b' : Int), Tour.Between route j a' b' → d a v + d v b ≤ d a' v + d v b'
  first : ∀ (j : Nat) (a' b' : Int), Tour.Between route j a' b' → j < i →
    d a v + d v b < d a' v + d v b'

/-- A visit is put on a route: alone, or at the cheapest place. -/
inductive Put (d : Int → Int → Int) (v : Int) : List Int → List Int → Prop
  | alone : Put d v [] [v]
  | cheapest {route : List Int} {i : Nat} {a b : Int} :
      Cheapest d v route i a b → Put d v route (route.insertIdx i v)

/-- Visits are put on a route one after the other. -/
inductive PutInTurn (d : Int → Int → Int) : List Int → List Int → List Int → Prop
  | nil (route : List Int) : PutInTurn d [] route route
  | cons {v : Int} {order route middle last : List Int} :
      Put d v route middle → PutInTurn d order middle last → PutInTurn d (v :: order) route last

variable {d : Int → Int → Int} {table : DistanceTable} {v : Int} {route route' : List Int}

theorem Put.sublist (h : Put d v route route') : route.Sublist route' := by
  cases h with
  | alone => exact List.nil_sublist _
  | cheapest _ => exact List.sublist_insertIdx _ _ _

theorem PutInTurn.sublist {order : List Int} (h : PutInTurn d order route route') :
    route.Sublist route' := by
  induction h with
  | nil route => exact List.Sublist.refl route
  | cons hput _ ih => exact hput.sublist.trans ih

/-! ## Slots are places -/

theorem slots_eq (route : List Int) :
    slots route = (route.rotate (route.length - 1)).zip route := by
  rw [slots, List.rotate_eq_drop_append_take (Nat.sub_le _ _)]

/-- Turned by one to the back, a route has at each place the visit in front of it. -/
theorem getElem?_rotate_previous {i : Nat} (hi : i < route.length) :
    (route.rotate (route.length - 1))[i]? = Position.get? route ((i : Int) - 1) := by
  rw [List.getElem?_rotate hi]
  cases i with
  | zero =>
      have hlast : (0 + (route.length - 1)) % route.length = route.length - 1 := by
        rw [Nat.zero_add, Nat.mod_eq_of_lt (by omega)]
      rw [hlast, ← List.getLast?_eq_getElem?]
      exact (Position.get?_neg_one route).symm
  | succ i =>
      have hback : (i + 1 + (route.length - 1)) % route.length = i := by
        have hsum : i + 1 + (route.length - 1) = i + route.length := by omega
        rw [hsum, Nat.add_mod_right, Nat.mod_eq_of_lt (by omega)]
      have hcast : ((i + 1 : Nat) : Int) - 1 = i := by omega
      rw [hback, hcast, Position.get?_natCast]

theorem getElem?_slots {i : Nat} {a b : Int} :
    (slots route)[i]? = some (a, b) ↔ Tour.Between route i a b := by
  rw [slots_eq, List.getElem?_zip_eq_some]
  constructor
  · rintro ⟨hprevious, hnext⟩
    have hi := (List.getElem?_eq_some_iff.mp hnext).1
    exact ⟨(getElem?_rotate_previous hi).symm.trans hprevious, hnext⟩
  · intro h
    exact ⟨(getElem?_rotate_previous h.lt).trans h.previous, h.next⟩

theorem exists_between {i : Nat} (hi : i < route.length) : ∃ a b, Tour.Between route i a b := by
  rw [← length_slots] at hi
  exact ⟨_, _, getElem?_slots.mp (List.getElem?_eq_getElem hi)⟩

/-- The cost of a place is the way over it. -/
theorem slotCosts_between (hfit : table.SumsFit) {costs : List Int64}
    (h : slotCosts table v route = .ok costs) {i : Nat} {a b : Int}
    (hplace : Tour.Between route i a b) :
    ∃ c, costs[i]? = some c ∧ c.toInt = table.between a v + table.between v b := by
  have hslots := mapM_eq_ok.mp h
  obtain ⟨hi, hslot⟩ := List.getElem?_eq_some_iff.mp (getElem?_slots.mpr hplace)
  have hi' : i < costs.length := by
    rw [← hslots.length_eq]
    exact hi
  have hcost := hslots.get hi hi'
  simp only [List.get_eq_getElem, hslot] at hcost
  obtain ⟨d, hd, hcost⟩ := bind_eq_ok.mp hcost
  obtain ⟨d', hd', hcost⟩ := bind_eq_ok.mp hcost
  -- the two distances are added in 64 bits, where their sum fits
  obtain ⟨hlow, hhigh⟩ := hfit d (DistanceTable.mem_entries hd) d' (DistanceTable.mem_entries hd')
  refine ⟨d + d', ?_, ?_⟩
  · rw [List.getElem?_eq_getElem hi']
    exact congrArg some (Except.ok.inj hcost).symm
  · rw [toInt_add_of_fit hlow hhigh, DistanceTable.between_of_get hd,
      DistanceTable.between_of_get hd']

/-! ## One visit, and all visits -/

theorem insert_put (hfit : table.SumsFit) (h : insert table route v = .ok route') :
    Put table.between v route route' := by
  rcases insert_cases h with ⟨rfl, rfl⟩ | ⟨costs, i, c, hcosts, hleast, hlt, rfl⟩
  · exact .alone
  · -- costs are listed place by place, so what is least of them is least of the places
    obtain ⟨a, b, hplace⟩ := exists_between hlt
    obtain ⟨c₀, hfound, hc⟩ := slotCosts_between hfit hcosts hplace
    cases hleast.found.symm.trans hfound
    refine .cheapest (a := a) (b := b) ⟨hplace, ?_, ?_⟩
    · intro j a' b' hplace'
      obtain ⟨c', hcost, hc'⟩ := slotCosts_between hfit hcosts hplace'
      rw [← hc, ← hc']
      exact Int64.le_iff_toInt_le.mp (hleast.least j c' hcost)
    · intro j a' b' hplace' hj
      obtain ⟨c', hcost, hc'⟩ := slotCosts_between hfit hcosts hplace'
      rw [← hc, ← hc']
      exact Int64.lt_iff_toInt_lt.mp (hleast.first j c' hj hcost)

theorem foldlM_insert_put (hfit : table.SumsFit) {order : List Int}
    (h : order.foldlM (insert table) route = .ok route') :
    PutInTurn table.between order route route' := by
  induction order generalizing route with
  | nil =>
      cases h
      exact .nil _
  | cons v order ih =>
      rw [List.foldlM_cons] at h
      obtain ⟨middle, hmiddle, h⟩ := bind_eq_ok.mp h
      exact .cons (insert_put hfit hmiddle) (ih h)

/-- A visit put on a route of two visits or more comes between two of them. -/
theorem Put.closedLength_eq (h : Put d v route route') (hlong : 2 ≤ route.length) :
    ∃ i a b, Cheapest d v route i a b ∧ route' = route.insertIdx i v ∧
      Tour.closedLength d route' = Tour.closedLength d route + (d a v + d v b) - d a b := by
  cases h with
  | alone => simp at hlong
  | cheapest hcheapest =>
      exact ⟨_, _, _, hcheapest, rfl, Tour.closedLength_insertIdx hcheapest.between hlong v⟩

/-- Insertion is cheapest insertion and nothing else. The visits of the bank, in the order of the
shuffle, are put on the route one after the other, each at the first of the cheapest places; the
other visits keep their order, and nothing is left in the bank. A visit that comes between two
others makes the closed route longer by the cost of its place less their leg, and the cost of a
route is its length in 64 bits. -/
theorem apply_inserts_cheapest {ω : Type} {g : Generator ω} (hg : g.Shuffles) {t : Tour}
    (hroute : t.Placed) (hbank : ∀ v ∈ t.bank, t.problem.distances.Places v)
    (hfit : t.problem.distances.SumsFit) (w : ω) :
    let d := t.problem.distances.between
    ∃ order route w', g.shuffle t.bank w = (.ok order, w') ∧ order.Perm t.bank ∧
      apply g t w = (.ok { t with route, bank := [] }, w') ∧ PutInTurn d order t.route route ∧
      t.route.Sublist route ∧ route.Perm (t.route ++ t.bank) ∧
      (∀ v before after, Put d v before after → 2 ≤ before.length →
        ∃ i a b, Cheapest d v before i a b ∧ after = before.insertIdx i v ∧
          Tour.closedLength d after = Tour.closedLength d before + (d a v + d v b) - d a b) ∧
      ∀ r, Tour.Placed { t with route := r } →
        Tour.routeCost { t with route := r } = .ok (Int64.ofInt (Tour.closedLength d r)) := by
  intro d
  obtain ⟨order, w', hshuffle, horder⟩ := hg t.bank w
  obtain ⟨route, hfold⟩ := exists_foldlM_insert_ok
    (fun v hv => hbank v (horder.mem_iff.mp hv)) hroute
  have hput : PutInTurn d order t.route route := foldlM_insert_put hfit hfold
  refine ⟨order, route, w', hshuffle, horder, by simp only [apply, hshuffle, hfold], hput,
    hput.sublist, ?_, fun v before after h hlong => h.closedLength_eq hlong,
    fun r hr => hr.routeCost_eq⟩
  exact (foldlM_insert_perm hfold).trans (horder.append_left t.route)

end Insertion

/-! ### A circle of four visits -/

/-- Four visits in a circle that is gone round in one direction. -/
def Problem.oneWay : Problem where
  tag := 0
  name := "one way"
  visits := [0, 1, 2, -1]
  distances := .ofFunction 4 fun i j => Int64.ofNat ((j + 4 - i) % 4)
  points := none
  square := rfl

namespace Insertion

/-- The last visit is inserted in front of the first, and visit 0 a second time, where it costs as
much in front of itself as behind itself. -/
theorem apply_inserts_cheapest_oneWay :
    let t : Tour := ⟨.oneWay, [1, 2], [0, -1, 0]⟩
    let d := t.problem.distances.between
    Generator.counting.Shuffles ∧ t.Placed ∧ (∀ v ∈ t.bank, t.problem.distances.Places v) ∧
      t.problem.distances.SumsFit ∧
      apply .counting t 0 = (.ok ⟨.oneWay, [-1, 0, 0, 1, 2], []⟩, 1) ∧
      PutInTurn d [0, -1, 0] [1, 2] [-1, 0, 0, 1, 2] ∧
      Tour.closedLength d [1, 2] = 4 ∧ Tour.closedLength d [-1, 0, 0, 1, 2] = 4 := by
  intro t d
  have hplaces : ∀ v ∈ Problem.oneWay.visits, Problem.oneWay.distances.Places v := by
    have h : ∀ v ∈ Problem.oneWay.visits,
        (Position.resolve? Problem.oneWay.distances.size v).isSome := by decide
    exact fun v hv => Option.isSome_iff_exists.mp (h v hv)
  have hvisits : ∀ v ∈ t.route ++ t.bank, v ∈ Problem.oneWay.visits := by decide
  have hroute : t.Placed := fun v hv => hplaces v (hvisits v (List.mem_append_left _ hv))
  have hbank : ∀ v ∈ t.bank, t.problem.distances.Places v :=
    fun v hv => hplaces v (hvisits v (List.mem_append_right _ hv))
  have hfit : t.problem.distances.SumsFit := by
    intro a ha b hb
    -- The entries are gone through, not all numbers of 64 bits.
    have hsmall : (t.problem.distances.entries.all fun e =>
        decide (0 ≤ e.toInt ∧ e.toInt ≤ 3)) = true := by decide +kernel
    rw [Array.all_eq_true_iff_forall_mem] at hsmall
    have ha' := of_decide_eq_true (hsmall a ha)
    have hb' := of_decide_eq_true (hsmall b hb)
    rw [Int64.toInt_minValue, Int64.toInt_maxValue]
    omega
  obtain ⟨order, route, w', hshuffle, -, happly, hput, -⟩ :=
    apply_inserts_cheapest Generator.counting_lawful.shuffle_ok hroute hbank hfit 0
  have hresult : ((apply .counting t 0).1.map fun t => t.route) = .ok [-1, 0, 0, 1, 2] := by
    decide +kernel
  rw [happly] at hresult
  obtain rfl : route = [-1, 0, 0, 1, 2] := Except.ok.inj hresult
  cases hshuffle
  exact ⟨Generator.counting_lawful.shuffle_ok, hroute, hbank, hfit, happly, hput,
    by decide +kernel, by decide +kernel⟩

end Insertion

end LargeNeighborhood
