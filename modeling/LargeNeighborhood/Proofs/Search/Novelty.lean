import LargeNeighborhood.Proofs.Search.Best
import Mathlib.Data.List.Basic

set_option autoImplicit false

/-! # Novel candidates

A candidate is novel when no equal one was accepted before. Only a novel candidate earns anything:
a new best solution is always novel, although the reward for it does not ask for that, because
every accepted solution has cost at least as much as the best one since
(`Course.Kept.not_newBest_of_seen`). So the rows that are novel and not rejected are as many as
there are distinct accepted candidates.
-/

namespace LargeNeighborhood

/-! ## Equal solutions -/

namespace Landscape

variable {σ κ : Type} [BEq κ] {l : Landscape σ κ}

/-- Solutions that a search cannot tell apart. -/
def Alike (l : Landscape σ κ) (x y : σ) : Prop :=
  ∃ kx ky, l.key x = .ok kx ∧ l.key y = .ok ky ∧ (kx == ky) = true

theorem alike_iff {x y : σ} {kx ky : κ} (hx : l.key x = .ok kx) (hy : l.key y = .ok ky) :
    l.Alike x y ↔ (kx == ky) = true := by
  constructor
  · rintro ⟨kx', ky', hx', hy', heq⟩
    rw [hx] at hx'
    rw [hy] at hy'
    cases hx'
    cases hy'
    exact heq
  · intro heq
    exact ⟨kx, ky, hx, hy, heq⟩

/-- Equal solutions cost the same. -/
def Coherent (l : Landscape σ κ) : Prop :=
  ∀ x y a b, l.Alike x y → l.cost x = .ok a → l.cost y = .ok b → a = b

end Landscape

/-- One more member is one more distinct member, unless it was there. -/
theorem length_eraseDups_snoc {α : Type} [BEq α] [EquivBEq α] (xs : List α) (a : α) :
    (xs ++ [a]).eraseDups.length = xs.eraseDups.length + if xs.contains a then 0 else 1 := by
  -- What `eraseDups` goes on with is not the tail but what is left of it.
  generalize hn : xs.length = n
  induction n using Nat.strongRecOn generalizing xs with
  | _ n ih =>
      cases xs with
      | nil => simp [List.eraseDups_cons]
      | cons x xs =>
          have hlt : (xs.filter fun b => !b == x).length < n := by
            have hle := List.length_filter_le (fun b => !b == x) xs
            simp only [List.length_cons] at hn
            omega
          rw [List.cons_append, List.eraseDups_cons, List.eraseDups_cons, List.filter_append]
          cases hax : a == x with
          | true => simp [hax]
          | false =>
              -- What equals `x` does not equal `a`, so `a` is not missed where it is taken out.
              have hcontains : (xs.filter fun b => !b == x).contains a = xs.contains a := by
                rw [Bool.eq_iff_iff, List.contains_iff_exists_mem_beq,
                  List.contains_iff_exists_mem_beq]
                constructor
                · rintro ⟨b, hb, hab⟩
                  exact ⟨b, List.mem_of_mem_filter hb, hab⟩
                · rintro ⟨b, hb, hab⟩
                  have hbx : (b == x) = false := by
                    rw [← BEq.congr_left hab]
                    exact hax
                  exact ⟨b, List.mem_filter.mpr ⟨hb, by simp [hbx]⟩, hab⟩
              have ih' := ih _ hlt (xs.filter fun b => !b == x) rfl
              simp only [List.filter_singleton, hax, Bool.not_false, cond_true, List.length_cons,
                List.contains_cons, Bool.false_or, ih', hcontains]
              omega

/-! ## Verdicts -/

namespace Verdict

variable {ν : Type} {v : Verdict}

theorem move_eq_newBest : v.move = .newBest ↔ v.newBest = true := by
  cases hb : v.newBest <;> cases ha : v.accepted <;> cases hc : v.better <;>
    simp [move, hb, ha, hc]

theorem move_eq_rejected : v.move = .rejected ↔ v.newBest = false ∧ v.accepted = false := by
  cases hb : v.newBest <;> cases ha : v.accepted <;> cases hc : v.better <;>
    simp [move, hb, ha, hc]

/-- What is neither novel nor a new best earns nothing. -/
theorem score_of_not_novel [Scalar ν] (r : Rewards ν) (hnovel : v.novel = false)
    (hbest : v.newBest = false) : v.score r = Scalar.zero := by
  simp [score, hnovel, hbest]

end Verdict

/-! ## What was accepted -/

variable {σ κ ω γ π ν : Type}

/-- The keys of the accepted candidates of stages, in order. -/
def keysOf (stages : List (Stage σ κ ω γ π ν)) : List κ :=
  (stages.filter fun st => st.turn.accepted).map fun st => st.turn.key

theorem keysOf_snoc {done : List (Stage σ κ ω γ π ν)} {st : Stage σ κ ω γ π ν} :
    keysOf (done ++ [st]) = if st.turn.accepted then keysOf done ++ [st.turn.key] else keysOf done := by
  cases h : st.turn.accepted <;> simp [keysOf, h]

variable [BEq κ] [Scalar ν] {s : Setting σ κ ω γ π ν} {first w : Walk σ κ ω γ π ν}
  {start : Rated σ} {done : List (Stage σ κ ω γ π ν)} {st : Stage σ κ ω γ π ν} {i : Nat}

namespace Course

/-- A walk remembers what was accepted, the last one first. -/
theorem accepted_eq (h : Course s first done w) (hfirst : first.accepted = []) :
    w.accepted = (keysOf done).reverse := by
  induction h with
  | start => rw [hfirst]; rfl
  | step h hst ih =>
      obtain ⟨hbefore, hsound⟩ := Walk.stage_ok hst
      rw [hsound.accepted, hbefore, ih, keysOf_snoc]
      split <;> simp

/-- A candidate is novel when no equal one was accepted before. -/
theorem novel_iff (h : Course s first done st.before) (hst : st.Sound s i)
    (hfirst : first.accepted = []) :
    st.turn.novel = true ↔
      ∀ prior ∈ done, prior.turn.accepted = true →
        ¬ s.landscape.Alike st.turn.candidate.state prior.turn.candidate.state := by
  rw [hst.novel, h.accepted_eq hfirst, Bool.not_eq_true', ← Bool.not_eq_true,
    List.contains_iff_exists_mem_beq]
  constructor
  · intro hnone prior hprior haccepted halike
    obtain ⟨j, hsound⟩ := h.sound prior hprior
    apply hnone
    refine ⟨prior.turn.key, ?_, (Landscape.alike_iff hst.key hsound.key).mp halike⟩
    rw [List.mem_reverse]
    exact List.mem_map.mpr ⟨prior, List.mem_filter.mpr ⟨hprior, haccepted⟩, rfl⟩
  · rintro hnone ⟨key, hkey, heq⟩
    obtain ⟨prior, hprior, rfl⟩ := List.mem_map.mp (List.mem_reverse.mp hkey)
    obtain ⟨hdone, haccepted⟩ := List.mem_filter.mp hprior
    obtain ⟨j, hsound⟩ := h.sound prior hdone
    exact hnone prior hdone haccepted ((Landscape.alike_iff hst.key hsound.key).mpr heq)

namespace Kept

/-- Nothing becomes a new best solution without being accepted. -/
theorem not_newBest_of_rejected (h : Kept start done st.before) (hst : st.Sound s i)
    (hrejected : st.turn.accepted = false) : st.verdict.newBest = false := by
  have hcurrent := hst.current
  rw [hrejected, if_neg Bool.false_ne_true] at hcurrent
  simp only [Stage.verdict, hcurrent, decide_eq_false_iff_not]
  rw [Quantity.not_lt_of_isWhole h.current_isWhole h.best_isWhole]
  exact h.best_le_current

/-- A candidate that costs as much as a visited solution does not become a new best one. -/
theorem not_newBest_of_seen (h : Kept start done st.before) (hst : st.Sound s i) {x : Rated σ}
    (hx : x ∈ visitedOf start done) (hcost : st.turn.candidate.cost = x.cost) :
    st.verdict.newBest = false := by
  cases haccepted : st.turn.accepted with
  | false => exact h.not_newBest_of_rejected hst haccepted
  | true =>
      have hcurrent := hst.current
      rw [haccepted, if_pos rfl] at hcurrent
      simp only [Stage.verdict, hcurrent, hcost, decide_eq_false_iff_not]
      rw [Quantity.not_lt_of_isWhole (h.whole x hx) h.best_isWhole]
      exact h.best_le hx

/-- The move of a row tells whether its candidate was accepted. -/
theorem move_rejected_iff (h : Kept start done st.before) (hst : st.Sound s i) :
    st.entry.move = .rejected ↔ st.turn.accepted = false := by
  simp only [hst.entry, Verdict.move_eq_rejected]
  constructor
  · rintro ⟨-, hrejected⟩
    exact hrejected
  · intro hrejected
    exact ⟨h.not_newBest_of_rejected hst hrejected, hrejected⟩

theorem novel_and_not_rejected (h : Kept start done st.before) (hst : st.Sound s i) :
    (st.entry.novel && decide (st.entry.move ≠ .rejected)) =
      (st.turn.novel && st.turn.accepted) := by
  have hnovel : st.entry.novel = st.turn.novel := by rw [hst.entry]
  cases haccepted : st.turn.accepted with
  | false =>
      have hmove : st.entry.move = .rejected := (h.move_rejected_iff hst).mpr haccepted
      simp [hmove]
  | true =>
      have hmove : st.entry.move ≠ .rejected := by simp [h.move_rejected_iff hst, haccepted]
      simp [hmove, hnovel]

end Kept

/-- A candidate that is not novel does not become a new best solution. -/
theorem not_newBest (h : Course s first done st.before) (hkept : Kept start done st.before)
    (hst : st.Sound s i) (hfirst : first.accepted = []) (hcoherent : s.landscape.Coherent)
    (hnovel : st.turn.novel = false) : st.verdict.newBest = false := by
  have hseen : ¬ st.turn.novel = true := by simp [hnovel]
  rw [h.novel_iff hst hfirst] at hseen
  push Not at hseen
  -- An equal candidate was accepted, so a solution of the same cost has been visited.
  obtain ⟨prior, hprior, haccepted, halike⟩ := hseen
  obtain ⟨j, hsound⟩ := h.sound prior hprior
  have hcost := hcoherent _ _ _ _ halike hst.cost hsound.cost
  refine hkept.not_newBest_of_seen hst ?_ hcost
  exact List.mem_cons_of_mem _ (mem_acceptedOf.mpr ⟨prior, hprior, haccepted, rfl⟩)

/-- A row that is not novel scores nothing and is no new best. -/
theorem lost (h : Course s first done st.before) (hkept : Kept start done st.before)
    (hst : st.Sound s i) (hfirst : first.accepted = []) (hcoherent : s.landscape.Coherent)
    (hnovel : st.entry.novel = false) :
    st.entry.score = Scalar.zero ∧ st.entry.move ≠ .newBest := by
  rw [hst.entry] at hnovel ⊢
  have hbest := h.not_newBest hkept hst hfirst hcoherent hnovel
  refine ⟨Verdict.score_of_not_novel _ hnovel hbest, ?_⟩
  intro hmove
  rw [Verdict.move_eq_newBest.mp hmove] at hbest
  cases hbest

/-- Novel candidates that were accepted are as many as the distinct accepted ones. -/
theorem count_novel [EquivBEq κ] (h : Course s first done w) (hfirst : first.accepted = []) :
    (done.filter fun st => st.turn.novel && st.turn.accepted).length =
      (keysOf done).eraseDups.length := by
  induction h with
  | start => rfl
  | @step done w st h hst ih =>
      obtain ⟨hbefore, hsound⟩ := Walk.stage_ok hst
      have hnovel := hsound.novel
      rw [hbefore, h.accepted_eq hfirst, List.contains_reverse] at hnovel
      rw [List.filter_append, List.length_append, ih, keysOf_snoc]
      -- A rejected stage adds to neither side; an accepted one adds a key to the list.
      cases haccepted : st.turn.accepted with
      | false => simp [haccepted]
      | true =>
          rw [if_pos rfl, length_eraseDups_snoc, List.filter_singleton, haccepted, hnovel]
          cases (keysOf done).contains st.turn.key <;> simp

end Course

/-! ## Runs -/

namespace Solver

variable {s : Solver σ κ ω γ π} {initial : σ} {r : Request} {gauge : γ} {world : ω}
  {best : Rated σ}

/-- A row is novel when no candidate equal to its own was accepted in an earlier iteration. A row
that is not novel scores nothing and is no new best, and the rows that are novel and not rejected
are as many as there are distinct accepted candidates. -/
theorem run_rewards_once [EquivBEq κ] (hrun : (s.run initial r gauge world).result = .ok best)
    (hwhole : s.CostsWhole initial r gauge world) (hcoherent : s.landscape.Coherent) :
    s.history initial r gauge world = (s.stages initial r gauge world).map Stage.entry ∧
      (∀ done st rest, s.stages initial r gauge world = done ++ st :: rest →
        (st.entry.novel = true ↔ ∀ prior ∈ done, prior.turn.accepted = true →
          ¬ s.landscape.Alike st.turn.candidate.state prior.turn.candidate.state)) ∧
      (∀ e ∈ s.history initial r gauge world,
        e.novel = false → e.score = 0 ∧ e.move ≠ .newBest) ∧
      (∀ e ∈ s.history initial r gauge world, e.move = .newBest → e.novel = true) ∧
      ((s.history initial r gauge world).filter fun e => e.novel && e.move ≠ .rejected).length =
        (keysOf (s.stages initial r gauge world)).eraseDups.length := by
  obtain ⟨setting, first, last, n, h⟩ := run_ok hrun
  have hfirst := h.accepted
  rw [← h.landscape] at hcoherent ⊢
  have hlost : ∀ st ∈ s.stages initial r gauge world,
      st.entry.novel = false → st.entry.score = 0 ∧ st.entry.move ≠ .newBest := by
    intro st hst
    obtain ⟨done, rest, hstages⟩ := List.append_of_mem hst
    obtain ⟨hbefore, hkept, -, hsound⟩ := h.split hwhole hstages
    exact hbefore.lost hkept hsound hfirst hcoherent
  rw [h.history_eq]
  refine ⟨rfl, ?_, ?_, ?_, ?_⟩
  · intro done st rest hstages
    obtain ⟨hbefore, -, -, hsound⟩ := h.split hwhole hstages
    rw [hsound.entry]
    exact hbefore.novel_iff hsound hfirst
  · intro e he
    obtain ⟨st, hst, rfl⟩ := List.mem_map.mp he
    exact hlost st hst
  · intro e he hmove
    obtain ⟨st, hst, rfl⟩ := List.mem_map.mp he
    by_contra hnovel
    exact (hlost st hst (Bool.eq_false_iff.mpr hnovel)).2 hmove
  · rw [List.filter_map, List.length_map, ← h.course.count_novel hfirst]
    -- Row by row, not to be rejected is to have been accepted.
    congr 1
    refine List.filter_congr ?_
    intro st hst
    obtain ⟨done, rest, hstages⟩ := List.append_of_mem hst
    obtain ⟨-, hkept, -, hsound⟩ := h.split hwhole hstages
    exact hkept.novel_and_not_rejected hsound

theorem scripted_coherent (criterion : Criterion Nat (List Nat) γ π) :
    (scripted criterion).landscape.Coherent := by
  rintro x y a b ⟨kx, ky, hx, hy, heq⟩ ha hb
  cases hx
  cases hy
  rw [eq_of_beq heq] at ha
  rw [ha] at hb
  exact Except.ok.inj hb

/-- The third candidate is the first one again. It is accepted, but earns nothing. -/
theorem run_rewards_once_scripted :
    let decisions := [true, true, true, true]
    let script := [52, 57, 52, 31]
    let rows := (scripted decided).history 80 fourIterations decisions script
    ((scripted decided).run 80 fourIterations decisions script).result = .ok ⟨31, .whole 3⟩ ∧
      (scripted decided).CostsWhole 80 fourIterations decisions script ∧
      (scripted decided).landscape.Coherent ∧
      rows.map Entry.novel = [true, true, false, true] ∧
      ∀ e ∈ rows, e.novel = false → e.score = 0 ∧ e.move ≠ .newBest := by
  have hrun : ((scripted decided).run 80 fourIterations [true, true, true, true]
      [52, 57, 52, 31]).result = .ok ⟨31, .whole 3⟩ := by decide +kernel
  have hwhole := scripted_costsWhole decided 80 fourIterations [true, true, true, true]
    [52, 57, 52, 31]
  exact ⟨hrun, hwhole, scripted_coherent decided, by decide +kernel,
    (run_rewards_once hrun hwhole (scripted_coherent decided)).2.2.1⟩

end Solver

end LargeNeighborhood
