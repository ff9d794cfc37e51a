import LargeNeighborhood.Proofs.Search.Run
import Mathlib.Data.List.Basic

set_option autoImplicit false

/-! # The best solution of a run

Whatever a criterion accepts, the best solution of a run is the cheapest of those that have been
visited, which are the initial solution and the accepted candidates; of several cheapest ones it is
the first (`EarliestCheapest`). The invariant that carries this is `Course.Kept`: the walk stands
on a visited solution, and its best solution is the earliest cheapest of all. Costs are whole
numbers here, so that any two of them compare.
-/

namespace LargeNeighborhood

/-! ## Whole costs -/

namespace Quantity

theorem isWhole_iff {q : Quantity} : q.isWhole = true ↔ ∃ n, q = .whole n := by
  cases q <;> simp [isWhole]

variable {a b c : Quantity}

theorem le_refl_of_isWhole (ha : a.isWhole) : a ≤ a := by
  obtain ⟨m, rfl⟩ := isWhole_iff.mp ha
  exact (whole_le_whole m m).mpr (Int.le_refl m)

theorem lt_of_lt_of_le_of_isWhole (ha : a.isWhole) (hb : b.isWhole) (hc : c.isWhole)
    (hab : a < b) (hbc : b ≤ c) : a < c := by
  obtain ⟨m, rfl⟩ := isWhole_iff.mp ha
  obtain ⟨n, rfl⟩ := isWhole_iff.mp hb
  obtain ⟨k, rfl⟩ := isWhole_iff.mp hc
  rw [whole_lt_whole] at hab ⊢
  rw [whole_le_whole] at hbc
  omega

theorem le_trans_of_isWhole (ha : a.isWhole) (hb : b.isWhole) (hc : c.isWhole) (hab : a ≤ b)
    (hbc : b ≤ c) : a ≤ c := by
  obtain ⟨m, rfl⟩ := isWhole_iff.mp ha
  obtain ⟨n, rfl⟩ := isWhole_iff.mp hb
  obtain ⟨k, rfl⟩ := isWhole_iff.mp hc
  rw [whole_le_whole] at hab hbc ⊢
  omega

theorem not_lt_of_isWhole (ha : a.isWhole) (hb : b.isWhole) : ¬ a < b ↔ b ≤ a := by
  obtain ⟨m, rfl⟩ := isWhole_iff.mp ha
  obtain ⟨n, rfl⟩ := isWhole_iff.mp hb
  rw [whole_lt_whole, whole_le_whole, Int.not_lt]

theorem le_of_lt {a b : Quantity} (h : a < b) : a ≤ b := Or.inl h

end Quantity

/-! ## The earliest cheapest solution -/

variable {σ κ ω γ π ν : Type}

/-- The first of the cheapest solutions of a list. -/
def EarliestCheapest (x : Rated σ) (xs : List (Rated σ)) : Prop :=
  ∃ earlier later, xs = earlier ++ x :: later ∧
    (∀ y ∈ earlier, x.cost < y.cost) ∧ ∀ y ∈ later, x.cost ≤ y.cost

namespace EarliestCheapest

variable {x y : Rated σ} {xs : List (Rated σ)}

theorem singleton (x : Rated σ) : EarliestCheapest x [x] :=
  ⟨[], [], rfl, by simp, by simp⟩

theorem mem (h : EarliestCheapest x xs) : x ∈ xs := by
  obtain ⟨earlier, later, rfl, -, -⟩ := h
  simp

theorem cost_le (h : EarliestCheapest x xs) (hx : x.cost.isWhole) (hy : y ∈ xs) :
    x.cost ≤ y.cost := by
  obtain ⟨earlier, later, rfl, hearlier, hlater⟩ := h
  rw [List.mem_append, List.mem_cons] at hy
  rcases hy with hy | rfl | hy
  · exact Quantity.le_of_lt (hearlier y hy)
  · exact Quantity.le_refl_of_isWhole hx
  · exact hlater y hy

/-- A new solution that costs no less changes nothing. -/
theorem append_of_le (h : EarliestCheapest x xs) (hxy : x.cost ≤ y.cost) :
    EarliestCheapest x (xs ++ [y]) := by
  obtain ⟨earlier, later, rfl, hearlier, hlater⟩ := h
  refine ⟨earlier, later ++ [y], by simp, hearlier, ?_⟩
  intro z hz
  rcases List.mem_append.mp hz with hz | hz
  · exact hlater z hz
  · rw [List.mem_singleton.mp hz]
    exact hxy

/-- A new solution that costs less takes over. -/
theorem append_of_lt (h : EarliestCheapest x xs) (hxs : ∀ z ∈ xs, z.cost.isWhole)
    (hy : y.cost.isWhole) (hyx : y.cost < x.cost) : EarliestCheapest y (xs ++ [y]) := by
  refine ⟨xs, [], rfl, ?_, by simp⟩
  intro z hz
  have hx : x.cost.isWhole := hxs x h.mem
  exact Quantity.lt_of_lt_of_le_of_isWhole hy hx (hxs z hz) hyx (h.cost_le hx hz)

end EarliestCheapest

/-! ## Visited solutions -/

/-- The accepted candidates of stages, in order. -/
def acceptedOf (stages : List (Stage σ κ ω γ π ν)) : List (Rated σ) :=
  (stages.filter fun st => st.turn.accepted).map fun st => st.turn.candidate

/-- The solutions a run has visited: the first one and the accepted candidates, in order. -/
def visitedOf (start : Rated σ) (stages : List (Stage σ κ ω γ π ν)) : List (Rated σ) :=
  start :: acceptedOf stages

section

variable {start x : Rated σ} {done rest : List (Stage σ κ ω γ π ν)} {st : Stage σ κ ω γ π ν}

theorem mem_acceptedOf :
    x ∈ acceptedOf done ↔ ∃ st ∈ done, st.turn.accepted = true ∧ st.turn.candidate = x := by
  simp only [acceptedOf, List.mem_map, List.mem_filter, and_assoc]

theorem visitedOf_append :
    visitedOf start (done ++ rest) = visitedOf start done ++ acceptedOf rest := by
  simp [visitedOf, acceptedOf]

theorem visitedOf_snoc (start : Rated σ) (done : List (Stage σ κ ω γ π ν))
    (st : Stage σ κ ω γ π ν) : visitedOf start (done ++ [st]) =
    if st.turn.accepted then visitedOf start done ++ [st.turn.candidate]
    else visitedOf start done := by
  rw [visitedOf_append]
  cases h : st.turn.accepted <;> simp [acceptedOf, h]

end

/-! ## The invariant -/

variable {start : Rated σ} {done : List (Stage σ κ ω γ π ν)} {w : Walk σ κ ω γ π ν}

/-- What stages keep of the solutions of a walk that has started from `start`. -/
structure Course.Kept (start : Rated σ) (done : List (Stage σ κ ω γ π ν)) (w : Walk σ κ ω γ π ν) :
    Prop where
  whole : ∀ x ∈ visitedOf start done, x.cost.isWhole
  current : w.current ∈ visitedOf start done
  best : EarliestCheapest w.best (visitedOf start done)

namespace Course.Kept

theorem best_isWhole (h : Kept start done w) : w.best.cost.isWhole := h.whole _ h.best.mem

theorem current_isWhole (h : Kept start done w) : w.current.cost.isWhole := h.whole _ h.current

theorem best_le (h : Kept start done w) {x : Rated σ} (hx : x ∈ visitedOf start done) :
    w.best.cost ≤ x.cost := h.best.cost_le h.best_isWhole hx

theorem best_le_current (h : Kept start done w) : w.best.cost ≤ w.current.cost :=
  h.best_le h.current

theorem outset (hbest : w.best = start) (hcurrent : w.current = start) (hwhole : start.cost.isWhole) :
    Kept start ([] : List (Stage σ κ ω γ π ν)) w where
  whole x hx := by rwa [List.mem_singleton.mp hx]
  current := by simp [visitedOf, acceptedOf, hcurrent]
  best := by
    rw [hbest]
    exact .singleton start

variable [BEq κ] [Scalar ν] {s : Setting σ κ ω γ π ν} {first : Walk σ κ ω γ π ν}

variable {st : Stage σ κ ω γ π ν} {i : Nat}

/-- What an iteration may do: reject its candidate, move to one that is the best solution from now
on, or move to one that is not. -/
theorem step_cases (h : Kept start done st.before) (hst : st.Sound s i) :
    (st.turn.accepted = false ∧ st.after.current = st.before.current ∧
        st.after.best = st.before.best) ∨
      (st.turn.accepted = true ∧ st.after.current = st.turn.candidate ∧
        st.turn.candidate.cost < st.before.best.cost ∧ st.after.best = st.turn.candidate) ∨
      (st.turn.accepted = true ∧ st.after.current = st.turn.candidate ∧
        ¬ st.turn.candidate.cost < st.before.best.cost ∧ st.after.best = st.before.best) := by
  have hcurrent := hst.current
  have hbest := hst.best
  cases haccepted : st.turn.accepted with
  | false =>
      -- The best cost is below the current one already, so that it stays.
      rw [haccepted, if_neg Bool.false_ne_true] at hcurrent
      have hkeep : ¬ st.before.current.cost < st.before.best.cost :=
        (Quantity.not_lt_of_isWhole h.current_isWhole h.best_isWhole).mpr h.best_le_current
      rw [hcurrent, if_neg hkeep] at hbest
      exact Or.inl ⟨rfl, hcurrent, hbest⟩
  | true =>
      rw [haccepted, if_pos rfl] at hcurrent
      rw [hcurrent] at hbest
      by_cases hlt : st.turn.candidate.cost < st.before.best.cost
      · rw [if_pos hlt] at hbest
        exact Or.inr (Or.inl ⟨rfl, hcurrent, hlt, hbest⟩)
      · rw [if_neg hlt] at hbest
        exact Or.inr (Or.inr ⟨rfl, hcurrent, hlt, hbest⟩)

theorem step (h : Kept start done st.before) (hst : st.Sound s i)
    (hcandidate : st.turn.candidate.cost.isWhole) : Kept start (done ++ [st]) st.after := by
  have hvisited := visitedOf_snoc start done st
  rcases h.step_cases hst with ⟨haccepted, hcurrent, hbest⟩ | hmoved
  · simp only [haccepted, Bool.false_eq_true, if_false] at hvisited
    refine ⟨?_, ?_, ?_⟩
    · rw [hvisited]
      exact h.whole
    · rw [hvisited, hcurrent]
      exact h.current
    · rw [hvisited, hbest]
      exact h.best
  · have haccepted : st.turn.accepted = true := by
      rcases hmoved with hmoved | hmoved <;> exact hmoved.1
    -- The candidate is the current solution now, and the last one that has been visited.
    simp only [haccepted, if_true] at hvisited
    refine ⟨?_, ?_, ?_⟩
    · intro x hx
      rw [hvisited, List.mem_append, List.mem_singleton] at hx
      rcases hx with hx | rfl
      · exact h.whole x hx
      · exact hcandidate
    · have hcurrent : st.after.current = st.turn.candidate := by
        rcases hmoved with hmoved | hmoved <;> exact hmoved.2.1
      rw [hvisited, hcurrent]
      simp
    · rcases hmoved with ⟨-, -, hlt, hbest⟩ | ⟨-, -, hlt, hbest⟩
      · rw [hvisited, hbest]
        exact h.best.append_of_lt h.whole hcandidate hlt
      · rw [hvisited, hbest]
        exact h.best.append_of_le ((Quantity.not_lt_of_isWhole hcandidate h.best_isWhole).mp hlt)

end Course.Kept

namespace Course

variable [BEq κ] [Scalar ν] {s : Setting σ κ ω γ π ν} {first : Walk σ κ ω γ π ν}

theorem kept (h : Course s first done w) (hbest : first.best = start) (hcurrent : first.current = start)
    (hstart : start.cost.isWhole) (hwhole : ∀ st ∈ done, st.turn.candidate.cost.isWhole) :
    Kept start done w := by
  induction h with
  | start => exact .outset hbest hcurrent hstart
  | step h hst ih =>
      obtain ⟨hbefore, hsound⟩ := Walk.stage_ok hst
      have hdone := ih fun st hmem => hwhole st (List.mem_append_left _ hmem)
      exact .step (hbefore ▸ hdone) hsound (hwhole _ (by simp))

/-- Every best solution on the way has been visited. -/
theorem best_visited (h : Course s first done w) (hbest : first.best = start)
    (hcurrent : first.current = start) (hstart : start.cost.isWhole)
    (hwhole : ∀ st ∈ done, st.turn.candidate.cost.isWhole) :
    ∀ st ∈ done, st.after.best ∈ visitedOf start done := by
  induction h with
  | start => simp
  | @step done w st h hst ih =>
      intro st' hst'
      rcases List.mem_append.mp hst' with hst' | hst'
      · rw [visitedOf_append]
        exact List.mem_append_left _
          (ih (fun st hmem => hwhole st (List.mem_append_left _ hmem)) st' hst')
      · rw [List.mem_singleton.mp hst']
        exact ((h.step hst).kept hbest hcurrent hstart hwhole).best.mem

/-- The best cost never rises. -/
theorem best_pairwise (h : Course s first done w) (hbest : first.best = start)
    (hcurrent : first.current = start) (hstart : start.cost.isWhole)
    (hwhole : ∀ st ∈ done, st.turn.candidate.cost.isWhole) :
    (done.map fun st => st.after.best.cost).Pairwise fun a b => b ≤ a := by
  induction h with
  | start => simp
  | @step done w st h hst ih =>
      have hwhole' : ∀ st ∈ done, st.turn.candidate.cost.isWhole :=
        fun st hmem => hwhole st (List.mem_append_left _ hmem)
      have hkept := (h.step hst).kept hbest hcurrent hstart hwhole
      have hseen := h.best_visited hbest hcurrent hstart hwhole'
      -- Each earlier best solution has been visited, and the new one is the cheapest of those.
      rw [List.map_append, List.pairwise_append]
      refine ⟨ih hwhole', by simp, ?_⟩
      intro a ha b hb
      obtain ⟨st', hst', rfl⟩ := List.mem_map.mp ha
      rw [List.mem_singleton.mp hb]
      apply hkept.best_le
      rw [visitedOf_append]
      exact List.mem_append_left _ (hseen st' hst')

end Course

/-! ## Runs -/

namespace Solver

variable [BEq κ] {s : Solver σ κ ω γ π} {initial : σ} {r : Request} {gauge : γ} {world : ω}
  {best : Rated σ}

/-- The initial solution and all candidates of a run cost whole numbers. -/
structure CostsWhole (s : Solver σ κ ω γ π) (initial : σ) (r : Request) (gauge : γ) (world : ω) :
    Prop where
  start : ∀ c, s.landscape.cost initial = .ok c → c.isWhole
  candidates : ∀ st ∈ s.stages initial r gauge world, st.turn.candidate.cost.isWhole

theorem CostsWhole.of_landscape (h : ∀ x c, s.landscape.cost x = .ok c → c.isWhole) :
    s.CostsWhole initial r gauge world where
  start c hc := h initial c hc
  candidates st hst := by
    unfold stages at hst
    cases hembark : s.embark initial r gauge world with
    | error fault => simp [hembark] at hst
    | ok made =>
        obtain ⟨setting, first, n⟩ := made
        simp only [hembark] at hst
        obtain ⟨done, rest, hsplit⟩ := List.append_of_mem hst
        obtain ⟨-, -, hsound⟩ := Course.of_stages hsplit
        have hcost := hsound.cost
        rw [(embark_ok hembark).landscape] at hcost
        exact h _ _ hcost

/-- A column of the history can be told by the stages. -/
theorem Completed.map_history {setting : Setting σ κ ω γ π Float} {first last : Walk σ κ ω γ π Float}
    {n : Nat} (h : s.Completed initial r gauge world best setting first last n) {α : Type}
    {f : Entry Float π → α} {g : Stage σ κ ω γ π Float → α}
    (hfg : ∀ st i, st.Sound setting i → f st.entry = g st) :
    (s.history initial r gauge world).map f = (s.stages initial r gauge world).map g := by
  rw [h.history_eq, List.map_map]
  apply List.map_congr_left
  intro st hst
  obtain ⟨i, hsound⟩ := h.course.sound st hst
  exact hfg st i hsound

/-- The best costs of the history are those of the best solutions behind the stages. -/
theorem Completed.bests_eq {setting : Setting σ κ ω γ π Float} {first last : Walk σ κ ω γ π Float}
    {n : Nat} (h : s.Completed initial r gauge world best setting first last n) :
    (s.history initial r gauge world).map Entry.best =
      (s.stages initial r gauge world).map fun st => st.after.best.cost :=
  h.map_history fun st i hsound => by rw [hsound.entry]

/-- What holds of the best solution after some stages holds after each further one. -/
theorem Completed.kept {setting : Setting σ κ ω γ π Float} {first last : Walk σ κ ω γ π Float}
    {n : Nat} (h : s.Completed initial r gauge world best setting first last n)
    (hwhole : s.CostsWhole initial r gauge world) {done rest : List (Stage σ κ ω γ π Float)}
    {w : Walk σ κ ω γ π Float} (hcourse : Course setting first done w)
    (hdone : s.stages initial r gauge world = done ++ rest) :
    Course.Kept first.best done w := by
  refine hcourse.kept rfl h.current (hwhole.start _ h.cost) ?_
  intro st hst
  exact hwhole.candidates st (by rw [hdone]; exact List.mem_append_left _ hst)

/-- In front of each of its stages and behind it, a run has kept the earliest cheapest of the
solutions visited. -/
theorem Completed.split {setting : Setting σ κ ω γ π Float} {first last : Walk σ κ ω γ π Float}
    {n : Nat} (h : s.Completed initial r gauge world best setting first last n)
    (hwhole : s.CostsWhole initial r gauge world) {done rest : List (Stage σ κ ω γ π Float)}
    {st : Stage σ κ ω γ π Float} (hstages : s.stages initial r gauge world = done ++ st :: rest) :
    Course setting first done st.before ∧ Course.Kept first.best done st.before ∧
      Course.Kept first.best (done ++ [st]) st.after ∧ st.Sound setting (done.length + 1) := by
  obtain ⟨hbefore, hafter, hsound⟩ := Course.of_stages (h.stages ▸ hstages)
  have hsplit : s.stages initial r gauge world = (done ++ [st]) ++ rest := by simpa using hstages
  exact ⟨hbefore, h.kept hwhole hbefore hstages, h.kept hwhole hafter hsplit, hsound⟩

/-- A run returns the earliest cheapest of the solutions it has visited, and so it stands after
each of its stages. -/
theorem run_best_earliestCheapest (hrun : (s.run initial r gauge world).result = .ok best)
    (hwhole : s.CostsWhole initial r gauge world) :
    ∃ start : Rated σ, start.state = initial ∧ s.landscape.cost initial = .ok start.cost ∧
      (∀ done st rest, s.stages initial r gauge world = done ++ st :: rest →
        st.after.best.cost ≤ st.after.current.cost ∧
        EarliestCheapest st.after.best (visitedOf start (done ++ [st]))) ∧
      EarliestCheapest best (visitedOf start (s.stages initial r gauge world)) ∧
      (best = start ∨
        ∃ st ∈ s.stages initial r gauge world, st.turn.accepted ∧ st.turn.candidate = best) ∧
      ((s.history initial r gauge world).map Entry.best).Pairwise (fun a b => b ≤ a) ∧
      ((s.history initial r gauge world).map Entry.best).getLast? = some best.cost ∧
      best.cost ≤ start.cost := by
  obtain ⟨setting, first, last, n, h⟩ := run_ok hrun
  have hlast := h.kept hwhole h.course (List.append_nil _).symm
  have hbests := h.bests_eq
  have hfinal : EarliestCheapest best (visitedOf first.best (s.stages initial r gauge world)) := by
    rw [← h.returned]
    exact hlast.best
  refine ⟨first.best, h.origin, h.cost, ?_, hfinal, ?_, ?_, ?_, ?_⟩
  · intro done st rest hstages
    obtain ⟨-, -, hkept, -⟩ := h.split hwhole hstages
    exact ⟨hkept.best_le_current, hkept.best⟩
  · rcases List.mem_cons.mp hfinal.mem with hbest | hbest
    · exact Or.inl hbest
    · exact Or.inr (mem_acceptedOf.mp hbest)
  · rw [hbests]
    exact h.course.best_pairwise rfl h.current (hwhole.start _ h.cost) hwhole.candidates
  · obtain ⟨done, st, hstages, hst⟩ := h.stages_eq
    rw [hbests, hstages, List.map_append, List.map_singleton, List.getLast?_concat, hst, h.returned]
  · rw [← h.returned]
    exact hlast.best_le (List.mem_cons_self ..)

theorem scripted_costsWhole (criterion : Criterion Nat (List Nat) γ π) (initial : Nat) (r : Request)
    (gauge : γ) (script : List Nat) : (scripted criterion).CostsWhole initial r gauge script := by
  apply CostsWhole.of_landscape
  intro x c h
  cases h
  rfl

/-- A cheaper candidate is never returned when it was rejected, and of two that cost the same the
earlier one is. -/
theorem run_best_earliestCheapest_scripted :
    let decisions := [true, true, false, true]
    let script := [52, 57, 31, 58]
    let stages := (scripted decided).stages 80 fourIterations decisions script
    ((scripted decided).run 80 fourIterations decisions script).result = .ok ⟨52, .whole 5⟩ ∧
      (scripted decided).CostsWhole 80 fourIterations decisions script ∧
      visitedOf ⟨80, .whole 8⟩ stages =
        [⟨80, .whole 8⟩, ⟨52, .whole 5⟩, ⟨57, .whole 5⟩, ⟨58, .whole 5⟩] ∧
      ∃ start : Rated Nat, start.state = 80 ∧
        EarliestCheapest ⟨52, .whole 5⟩ (visitedOf start stages) := by
  have hrun : ((scripted decided).run 80 fourIterations [true, true, false, true]
      [52, 57, 31, 58]).result = .ok ⟨52, .whole 5⟩ := by decide +kernel
  have hwhole := scripted_costsWhole decided 80 fourIterations [true, true, false, true]
    [52, 57, 31, 58]
  obtain ⟨start, hstart, -, -, hbest, -⟩ := run_best_earliestCheapest hrun hwhole
  exact ⟨hrun, hwhole, by decide +kernel, start, hstart, hbest⟩

end Solver

end LargeNeighborhood
