import LargeNeighborhood.Proofs.Tour.Complete
import Mathlib.Algebra.BigOperators.Group.List.Basic
import Mathlib.Data.List.Rotate
import Mathlib.Tactic.Ring

set_option autoImplicit false

/-! # Lengths of closed routes

The legs of a closed route are the pairs of the route and the route turned by one
(`Tour.legs_eq`), so turning the route turns its legs, and its length stays what it is. Lengths are
whole numbers here and do not overflow; the cost of a route is its length in 64 bits
(`Tour.routeCost_eq`). A visit that is put between two others adds the way over it and takes away
the leg between them (`Tour.closedLength_insertIdx`): it is enough to see this at the end of the
list, where the route can be turned to.
-/

namespace LargeNeighborhood

namespace Position

variable {α : Type} (xs : List α)

theorem get?_natCast (k : Nat) : get? xs (k : Int) = xs[k]? := by
  unfold get?
  by_cases hk : k < xs.length
  · rw [resolve?_natCast hk, Option.bind_some]
  · have hnone : resolve? xs.length (k : Int) = none := by
      unfold resolve?
      rw [if_pos (by omega), if_neg (by omega)]
    rw [hnone, Option.bind_none, List.getElem?_eq_none (by omega)]

theorem get?_neg_one : get? xs (-1) = xs.getLast? := by
  rw [List.getLast?_eq_getElem?]
  unfold get? resolve?
  by_cases hlength : xs.length = 0
  · rw [List.length_eq_zero_iff.mp hlength]
    rfl
  · have hlast : ((-1 : Int) + xs.length).toNat = xs.length - 1 := by omega
    rw [if_neg (by omega), if_pos (by omega), Option.bind_some, hlast]

end Position

namespace DistanceTable

/-- The distance between two visits as a whole number; zero where the table has none. -/
def between (t : DistanceTable) (a b : Int) : Int := ((t.at? a b).getD 0).toInt

theorem between_of_get {t : DistanceTable} {a b : Int} {d : Int64} (h : t.get a b = .ok d) :
    t.between a b = d.toInt := by
  unfold get at h
  split at h
  · rename_i d' hat
    cases h
    rw [between, hat, Option.getD_some]
  · cases h

end DistanceTable

namespace Tour

/-! ## Legs -/

theorem legs_eq (route : List Int) : legs route = route.zip (route.rotate 1) := by
  cases route with
  | nil => rfl
  | cons v route =>
      unfold legs
      rw [List.rotate_eq_drop_append_take (by simp)]

/-- A leg leads from a place to the next one. -/
theorem getElem?_legs {route : List Int} {i : Nat} {a b : Int} :
    (legs route)[i]? = some (a, b) ↔
      route[i]? = some a ∧ route[(i + 1) % route.length]? = some b := by
  rw [legs_eq, List.getElem?_zip_eq_some]
  by_cases hi : i < route.length
  · rw [List.getElem?_rotate hi]
  · have hnone : route[i]? = none := List.getElem?_eq_none (by omega)
    simp [hnone]

theorem legs_rotate (route : List Int) (n : Nat) :
    legs (route.rotate n) = (legs route).rotate n := by
  rw [legs_eq, legs_eq, List.zip_eq_zipWith, List.zip_eq_zipWith,
    List.zipWith_rotate_distrib _ _ _ _ (List.length_rotate route 1).symm, List.rotate_rotate,
    List.rotate_rotate, Nat.add_comm]

/-- A visit `v` put between `a`, the last visit of a route, and `b`, its first one, replaces the leg
from `a` to `b` by one to `v` and one from `v`. -/
theorem legs_concat_cons {b : Int} {middle front : List Int} {a : Int}
    (h : b :: middle = front ++ [a]) :
    legs (b :: middle) = front.zip middle ++ [(a, b)] ∧
      ∀ v, legs (v :: b :: middle) = (v, b) :: (front.zip middle ++ [(a, v)]) := by
  have hlength : front.length = middle.length := by
    have hlength := congrArg List.length h
    simpa using hlength.symm
  have hzip : ∀ v, (b :: middle).zip (middle ++ [v]) = front.zip middle ++ [(a, v)] := by
    intro v
    rw [h, List.zip_append hlength]
    rfl
  refine ⟨hzip b, ?_⟩
  intro v
  show (v, b) :: (b :: middle).zip (middle ++ [v]) = _
  rw [hzip]

/-! ## Lengths -/

/-- The length of a closed route under the distances `d`. -/
def closedLength (d : Int → Int → Int) (route : List Int) : Int :=
  if route.length < 2 then 0 else ((legs route).map fun leg => d leg.1 leg.2).sum

variable {d : Int → Int → Int} {route : List Int}

theorem closedLength_of_le (h : 2 ≤ route.length) :
    closedLength d route = ((legs route).map fun leg => d leg.1 leg.2).sum := by
  rw [closedLength, if_neg (by omega)]

/-- It does not matter where a closed route starts. -/
theorem closedLength_rotate (d : Int → Int → Int) (route : List Int) (n : Nat) :
    closedLength d (route.rotate n) = closedLength d route := by
  unfold closedLength
  rw [List.length_rotate, legs_rotate, List.map_rotate, (List.rotate_perm _ n).sum_eq]

/-- At the end of the list a visit is put between the last visit and the first one. -/
theorem closedLength_cons {a b : Int} {middle front : List Int} (h : b :: middle = front ++ [a])
    (hlong : 2 ≤ (b :: middle).length) (v : Int) :
    closedLength d (v :: b :: middle) =
      closedLength d (b :: middle) + (d a v + d v b) - d a b := by
  obtain ⟨hlegs, hlegs'⟩ := legs_concat_cons h
  rw [closedLength_of_le hlong, closedLength_of_le (by simp), hlegs, hlegs' v]
  simp only [List.map_cons, List.map_append, List.map_nil, List.sum_cons, List.sum_append,
    List.sum_nil]
  ring

/-- Distances that are added up in 64 bits make what 64 bits keep of their sum. -/
theorem foldlM_get {table : DistanceTable} {legs : List (Int × Int)}
    (h : ∀ leg ∈ legs, ∃ d, table.get leg.1 leg.2 = .ok d) (sum : Int64) :
    legs.foldlM (fun sum leg => do return sum + (← table.get leg.1 leg.2)) sum =
      .ok (sum + Int64.ofInt (legs.map fun leg => table.between leg.1 leg.2).sum) := by
  induction legs generalizing sum with
  | nil => exact congrArg Except.ok (Int64.add_zero sum).symm
  | cons leg legs ih =>
      obtain ⟨d, hd⟩ := h leg List.mem_cons_self
      rw [List.foldlM_cons, bind_eq_ok]
      refine ⟨sum + d, by rw [hd]; rfl, ?_⟩
      rw [ih fun leg hleg => h leg (List.mem_cons_of_mem _ hleg), List.map_cons, List.sum_cons,
        DistanceTable.between_of_get hd, Int64.ofInt_add, Int64.ofInt_toInt, Int64.add_assoc]

/-- The cost of a route is its length, in 64 bits. -/
theorem Placed.routeCost_eq {t : Tour} (ht : t.Placed) :
    t.routeCost = .ok (Int64.ofInt (closedLength t.problem.distances.between t.route)) := by
  unfold routeCost closedLength
  split
  · rfl
  · have hsum := foldlM_get (fun leg hleg => ht.exists_leg_ok hleg) 0
    rw [Int64.zero_add] at hsum
    exact hsum

/-! ## Places between visits -/

/-- Place `i` of a closed route lies between the visits `a` and `b`; in front of the first visit
stands the last one. -/
structure Between (route : List Int) (i : Nat) (a b : Int) : Prop where
  previous : Position.get? route ((i : Int) - 1) = some a
  next : route[i]? = some b

theorem Between.lt {i : Nat} {a b : Int} (h : Between route i a b) : i < route.length :=
  (List.getElem?_eq_some_iff.mp h.next).1

theorem insertIdx_eq (v : Int) {route : List Int} {i : Nat} (hi : i ≤ route.length) :
    route.insertIdx i v = route.take i ++ v :: route.drop i := by
  induction i generalizing route with
  | zero => rfl
  | succ i ih =>
      cases route with
      | nil => simp at hi
      | cons u route =>
          rw [List.insertIdx_succ_cons, List.take_succ_cons, List.drop_succ_cons,
            ih (by simpa using hi)]
          rfl

/-- Turned to the place, a route starts with the visit that has been put there. -/
theorem rotate_insertIdx (v : Int) {i : Nat} (hi : i ≤ route.length) :
    (route.insertIdx i v).rotate i = v :: route.rotate i := by
  have hlength : (route.take i).length = i := by
    rw [List.length_take]
    omega
  have hturn := List.rotate_append_length_eq (route.take i) (v :: route.drop i)
  rw [hlength] at hturn
  rw [insertIdx_eq v hi, hturn, List.rotate_eq_drop_append_take hi, List.cons_append]

/-- Turned to a place, a route starts and ends with the visits on both sides of it. -/
theorem Between.rotate_eq {i : Nat} {a b : Int} (h : Between route i a b) :
    ∃ middle front, route.rotate i = b :: middle ∧ b :: middle = front ++ [a] := by
  obtain ⟨hlt, hb⟩ := List.getElem?_eq_some_iff.mp h.next
  have hturn : route.rotate i = b :: (route.drop (i + 1) ++ route.take i) := by
    rw [List.rotate_eq_drop_append_take hlt.le, List.drop_eq_getElem_cons hlt, hb, List.cons_append]
  refine ⟨_, (route.rotate i).dropLast, hturn, ?_⟩
  have hlast : (route.rotate i).getLast? = some a := by
    cases i with
    -- the last visit is in front of the first one
    | zero => rw [List.rotate_zero, ← Position.get?_neg_one]; exact h.previous
    | succ i =>
        have ha : route[i]? = some a := by
          rw [← Position.get?_natCast]
          simpa using h.previous
        rw [List.rotate_eq_drop_append_take hlt.le, List.take_add_one, ha, Option.toList_some,
          ← List.append_assoc, List.getLast?_concat]
  rw [← hturn]
  exact (List.dropLast_append_getLast? a hlast).symm

/-- A visit put between two others adds the way over it and takes away their leg. -/
theorem closedLength_insertIdx {i : Nat} {a b : Int} (h : Between route i a b)
    (hlong : 2 ≤ route.length) (v : Int) :
    closedLength d (route.insertIdx i v) = closedLength d route + (d a v + d v b) - d a b := by
  obtain ⟨middle, front, hturn, hends⟩ := h.rotate_eq
  have hlong' : 2 ≤ (b :: middle).length := by
    rw [← hturn, List.length_rotate]
    exact hlong
  calc closedLength d (route.insertIdx i v)
      = closedLength d (v :: b :: middle) := by
        rw [← closedLength_rotate d _ i, rotate_insertIdx v h.lt.le, hturn]
    _ = closedLength d (b :: middle) + (d a v + d v b) - d a b := closedLength_cons hends hlong' v
    _ = closedLength d route + (d a v + d v b) - d a b := by rw [← hturn, closedLength_rotate]

end Tour

end LargeNeighborhood
