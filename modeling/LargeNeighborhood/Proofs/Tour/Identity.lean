import LargeNeighborhood.Proofs.Search.Novelty
import LargeNeighborhood.Proofs.Tour.Issues
import LargeNeighborhood.Proofs.Tour.Search
import Std.Data.HashSet.Lemmas

set_option autoImplicit false

/-! # When tours are the same

Sorting the bank makes a canonical form: two banks sort to the same list just when one is the other in
another order (`Tour.sortedBank_eq_iff`). So tours are the same when they belong to one problem, have
equal routes, and wait for the same visits equally often (`Tour.Congruent`). This is an equivalence,
and it does not go apart from the hash of a tour or from its cost: a hashed set of tours finds a tour
just when a tour congruent to it has been put in (`Tour.isStored_iff`). What a search takes for
novel is what such a set does not find.
-/

namespace LargeNeighborhood

namespace Tour

variable {a b c t : Tour}

/-- Tours of one problem with equal routes, and with banks that hold the same visits equally often. -/
structure Congruent (a b : Tour) : Prop where
  problem : a.problem.tag = b.problem.tag
  route : a.route = b.route
  bank : a.bank.Perm b.bank

namespace Congruent

theorem refl (a : Tour) : a.Congruent a := ⟨rfl, rfl, List.Perm.refl _⟩

theorem symm (h : a.Congruent b) : b.Congruent a := ⟨h.problem.symm, h.route.symm, h.bank.symm⟩

theorem trans (h : a.Congruent b) (h' : b.Congruent c) : a.Congruent c :=
  ⟨h.problem.trans h'.problem, h.route.trans h'.route, h.bank.trans h'.bank⟩

end Congruent

/-- Banks that hold the same visits equally often are the same list when sorted, and no others. -/
theorem sortedBank_eq_iff : a.sortedBank = b.sortedBank ↔ a.bank.Perm b.bank := by
  have ha := a.sortedBank_perm
  have hb := b.sortedBank_perm
  constructor
  · intro h
    rw [← h] at hb
    exact ha.symm.trans hb
  · intro h
    -- A list has one order only in which it is increasing.
    have hperm : a.sortedBank.Perm b.sortedBank := (ha.trans h).trans hb.symm
    exact hperm.eq_of_pairwise' (List.pairwise_mergeSort' (· ≤ ·) a.bank)
      (List.pairwise_mergeSort' (· ≤ ·) b.bank)

theorem content_eq_iff : a.content = b.content ↔ a.route = b.route ∧ a.bank.Perm b.bank := by
  rw [content, content, Prod.mk.injEq, sortedBank_eq_iff]

theorem same_iff : a.same b = true ↔ a.Congruent b := by
  rw [same, beq_iff_eq, key, key, Prod.mk.injEq, content_eq_iff]
  constructor
  · rintro ⟨hproblem, hroute, hbank⟩
    exact ⟨hproblem, hroute, hbank⟩
  · intro h
    exact ⟨h.problem, h.route, h.bank⟩

theorem landscape_alike_iff : landscape.Alike a b ↔ a.Congruent b := by
  rw [Landscape.alike_iff rfl rfl, ← same_iff]
  rfl

/-- Congruent tours of a problem cost the same. -/
theorem Congruent.cost_eq (h : a.Congruent b) (hproblem : a.problem = b.problem) :
    a.routeCost = b.routeCost ∧ a.objective = b.objective := by
  have hlength : a.routeCost = b.routeCost := by
    rw [routeCost, routeCost, h.route, hproblem]
  refine ⟨hlength, ?_⟩
  rw [objective, objective, hlength, h.bank.length_eq]

/-! ## Hashed sets -/

instance : BEq Tour := ⟨same⟩

instance : EquivBEq Tour where
  rfl := same_iff.mpr (.refl _)
  symm := fun h => same_iff.mpr (same_iff.mp h).symm
  trans := fun h h' => same_iff.mpr ((same_iff.mp h).trans (same_iff.mp h'))

variable (mix : List Int × List Int → UInt64)

/-- Hashing by the content. -/
abbrev hashing : Hashable Tour := ⟨hashWith mix⟩

theorem hashWith_eq (h : a.same b = true) : hashWith mix a = hashWith mix b := by
  have hcontent : a.content = b.content :=
    content_eq_iff.mpr ⟨(same_iff.mp h).route, (same_iff.mp h).bank⟩
  rw [hashWith, hashWith, hcontent]

/-- Whether a tour is found in a set of tours that is kept by their hashes. -/
def isStored (tours : List Tour) (t : Tour) : Bool :=
  letI := hashing mix
  (Std.HashSet.ofList tours).contains t

/-- Whichever hash is used, a set finds a tour just when a congruent one has been put in. -/
theorem isStored_iff {tours : List Tour} :
    isStored mix tours t = true ↔ ∃ u ∈ tours, t.Congruent u := by
  let := hashing mix
  have : LawfulHashable Tour := ⟨fun _ _ h => hashWith_eq mix h⟩
  rw [isStored, Std.HashSet.contains_ofList, List.contains_iff_exists_mem_beq]
  simp only [← same_iff]
  rfl

/-! ## Novel tours -/

variable {ω γ π : Type} {s : Solver Tour Key ω γ π} {initial : Tour} {r : Request} {gauge : γ}
  {world : ω}

/-- In a search for tours a candidate is novel when no congruent one was accepted before. -/
theorem novel_eq_false_iff (hs : s.landscape = landscape)
    {done rest : List (Stage Tour Key ω γ π Float)} {st : Stage Tour Key ω γ π Float}
    (hstages : s.stages initial r gauge world = done ++ st :: rest) :
    st.entry.novel = false ↔
      ∃ u ∈ (acceptedOf done).map Rated.state, st.turn.candidate.state.Congruent u := by
  obtain ⟨setting, first, n, h, hbefore, -, hsound⟩ := Solver.course_of_stages hstages
  have hnovel := hbefore.novel_iff hsound h.accepted
  rw [h.landscape, hs] at hnovel
  simp only [landscape_alike_iff] at hnovel
  rw [hsound.entry, ← Bool.not_eq_true, hnovel]
  push Not
  constructor
  · rintro ⟨prior, hprior, haccepted, hcongruent⟩
    exact ⟨_, List.mem_map_of_mem (mem_acceptedOf.mpr ⟨prior, hprior, haccepted, rfl⟩), hcongruent⟩
  · rintro ⟨u, hu, hcongruent⟩
    obtain ⟨x, hx, rfl⟩ := List.mem_map.mp hu
    obtain ⟨prior, hprior, haccepted, rfl⟩ := mem_acceptedOf.mp hx
    exact ⟨prior, hprior, haccepted, hcongruent⟩

/-- Tours of a problem are the same when their routes are equal and their banks hold the same visits
equally often; tours of two problems never are. This is an equivalence, the same tours have the same
hash and the same cost, and whether a tour is in a set of tours, or novel in a search, is decided by
its route and by what its bank holds, in whatever order. -/
theorem same_canonical :
    Equivalence (fun a b : Tour => a.same b = true) ∧
    (∀ a b : Tour, a.problem = b.problem →
      (a.same b = true ↔ a.route = b.route ∧ a.bank.Perm b.bank)) ∧
    (∀ a b : Tour, a.problem.tag ≠ b.problem.tag → a.same b = false) ∧
    (∀ a b : Tour, a.same b = true → hashWith mix a = hashWith mix b ∧
      (a.problem = b.problem → a.routeCost = b.routeCost ∧ a.objective = b.objective)) ∧
    (∀ tours (a b : Tour), a.problem = b.problem → a.route = b.route → a.bank.Perm b.bank →
      isStored mix tours a = isStored mix tours b) ∧
    ∀ (s : Solver Tour Key ω γ π) initial r gauge world, s.landscape = landscape →
      ∀ done st rest, s.stages initial r gauge world = done ++ st :: rest →
        let accepted := (acceptedOf done).map Rated.state
        st.entry.novel = !isStored mix accepted st.turn.candidate.state ∧
        (st.entry.novel = false ↔ ∃ u ∈ accepted, st.turn.candidate.state.Congruent u) := by
  refine ⟨?_, ?_, ?_, ?_, ?_, ?_⟩
  · simp only [same_iff]
    exact ⟨Congruent.refl, Congruent.symm, Congruent.trans⟩
  · intro a b hproblem
    rw [same_iff]
    exact ⟨fun h => ⟨h.route, h.bank⟩, fun h => ⟨congrArg Problem.tag hproblem, h.1, h.2⟩⟩
  · intro a b htag
    rw [← Bool.not_eq_true, same_iff]
    exact fun h => htag h.problem
  · intro a b h
    exact ⟨hashWith_eq mix h, (same_iff.mp h).cost_eq⟩
  · intro tours a b hproblem hroute hbank
    have hab : a.Congruent b := ⟨congrArg Problem.tag hproblem, hroute, hbank⟩
    rw [Bool.eq_iff_iff, isStored_iff, isStored_iff]
    constructor
    · rintro ⟨u, hu, h⟩
      exact ⟨u, hu, hab.symm.trans h⟩
    · rintro ⟨u, hu, h⟩
      exact ⟨u, hu, hab.trans h⟩
  · intro s initial r gauge world hs done st rest hstages
    have hnovel := novel_eq_false_iff hs hstages
    refine ⟨?_, hnovel⟩
    rw [← isStored_iff mix] at hnovel
    cases hstored : isStored mix ((acceptedOf done).map Rated.state) st.turn.candidate.state with
    | true => exact hnovel.mpr hstored
    | false =>
        rw [hstored] at hnovel
        simpa using hnovel

/-- A search that does nothing but turn the bank round, over and over. -/
def bankTurning : Solver Tour Key Unit (List Bool) Unit where
  landscape := landscape
  criterion := Solver.decided
  criterionName := "script"
  draw := fun w => (.ok 0, w)
  segment := .whole 10
  logInterval := .whole 0
  selector :=
    { destroyers := [⟨0, "turn", fun t w => (.ok { t with bank := t.bank.reverse }, w), 1, 1, 0⟩]
      repairers := [⟨0, "keep", fun t w => (.ok t, w), 1, 1, 0⟩]
      reaction := Solver.standardReaction }
  trace := .empty

/-- A bank turned round makes no other tour. So only the first candidate is novel, before which none
has been accepted, although the second one has its bank in another order. -/
theorem same_canonical_bankTurning :
    let t : Tour := ⟨.fiveVisits, [0, 3], [4, 1, -3, 1]⟩
    let u : Tour := ⟨.fiveVisits, [0, 3], [1, -3, 1, 4]⟩
    let mix : List Int × List Int → UInt64 := fun content => content.1.length.toUInt64
    let stages := bankTurning.stages t Solver.fourIterations [true, true] ()
    t.same u = true ∧ t.objective = u.objective ∧ hashWith mix t = hashWith mix u ∧
      isStored mix [t] t = isStored mix [t] u ∧
      ∃ first second rest, stages = first :: second :: rest ∧
        first.turn.candidate.state.bank = [1, -3, 1, 4] ∧ first.entry.novel = true ∧
        second.turn.candidate.state.bank = [4, 1, -3, 1] ∧ second.entry.novel = false := by
  intro t u mix stages
  obtain ⟨-, hsame, -, hhash, hstored, hnovel⟩ :=
    same_canonical (ω := Unit) (γ := List Bool) (π := Unit) mix
  have htu : t.same u = true := (hsame t u rfl).mpr ⟨rfl, by decide⟩
  obtain ⟨hmix, hcost⟩ := hhash t u htu
  refine ⟨htu, (hcost rfl).2, hmix, hstored [t] t u rfl rfl (by decide), ?_⟩
  have hcandidates : stages.map (fun st => (st.turn.accepted, st.turn.candidate.state.problem.tag,
      st.turn.candidate.state.route, st.turn.candidate.state.bank)) =
      [(true, 0, [0, 3], [1, -3, 1, 4]), (true, 0, [0, 3], [4, 1, -3, 1]),
        (false, 0, [0, 3], [1, -3, 1, 4]), (false, 0, [0, 3], [1, -3, 1, 4])] := by decide +kernel
  obtain ⟨first, rest, hstages, hfirst, hrest⟩ := List.map_eq_cons_iff.mp hcandidates
  obtain ⟨second, rest, rfl, hsecond, -⟩ := List.map_eq_cons_iff.mp hrest
  simp only [Prod.mk.injEq] at hfirst hsecond
  obtain ⟨haccepted, hproblem, hroute, hbank⟩ := hfirst
  obtain ⟨-, hproblem', hroute', hbank'⟩ := hsecond
  have hnone := (hnovel bankTurning t Solver.fourIterations [true, true] () rfl [] first _
    hstages).2
  have hseen := (hnovel bankTurning t Solver.fourIterations [true, true] () rfl [first] second _
    hstages).2
  refine ⟨first, second, rest, hstages, hbank, ?_, hbank', ?_⟩
  · rw [← Bool.not_eq_false, hnone]
    rintro ⟨prior, hprior, -⟩
    cases hprior
  · have hturned : second.turn.candidate.state.Congruent first.turn.candidate.state :=
      ⟨hproblem'.trans hproblem.symm, hroute'.trans hroute.symm, by rw [hbank, hbank']; decide⟩
    have hfirst : first.turn.candidate ∈ acceptedOf [first] :=
      mem_acceptedOf.mpr ⟨first, List.mem_singleton_self _, haccepted, rfl⟩
    exact hseen.mpr ⟨_, List.mem_map_of_mem hfirst, hturned⟩

end Tour

end LargeNeighborhood
