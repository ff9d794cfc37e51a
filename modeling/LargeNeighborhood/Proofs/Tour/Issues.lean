import LargeNeighborhood.Proofs.Tour.Cost
import Mathlib

set_option autoImplicit false

/-! # Issues of broken tours

Whatever numbers stand on the route and in the bank, the issues of a tour name the right visits:
there is an issue of a kind just when some number gives reason for it, and then it names all those
numbers, each once and in increasing order (`Tour.Reports`). This holds wherever the issues can be
listed at all, and there the check of the tour has a gap. After it has seen which numbers are no
visits, it asks the table for the cost of the route over these same numbers, and the table has no
place for most of them (`Tour.issues_report`).

A tour without issues is a complete one (`Tour.issues_eq_nil_iff`). That no visit is made twice and
that none is missing are separate issues; together with an empty bank they leave no other route than
a permutation of the visits.
-/

namespace LargeNeighborhood

/-- The visits are numbered from zero on, and stand in any order. -/
def Problem.Numbered (p : Problem) : Prop :=
  p.visits.Perm ((List.range p.dimension).map fun (i : Nat) => (i : Int))

theorem Problem.Numbered.nodup {p : Problem} (h : p.Numbered) : p.visits.Nodup :=
  h.nodup_iff.mpr (List.nodup_range.map Int.ofNat_injective)

/-- The table has a place for every visit. -/
theorem Problem.Numbered.places {p : Problem} (h : p.Numbered) {v : Int} (hv : v ∈ p.visits) :
    p.distances.Places v := by
  obtain ⟨i, hi, rfl⟩ := List.mem_map.mp (h.mem_iff.mp hv)
  have hlt : i < p.distances.size := by
    rw [p.square]
    exact List.mem_range.mp hi
  exact DistanceTable.places_iff.mpr ⟨by omega, by omega⟩

namespace Tour

/-! ## Sorted sets -/

/-- Erasing repetitions from a list in order leaves it strictly increasing. -/
theorem pairwise_lt_eraseDups : ∀ {vs : List Int}, vs.Pairwise (· ≤ ·) →
    vs.eraseDups.Pairwise (· < ·)
  | [], _ => List.Pairwise.nil
  | v :: vs, h => by
      obtain ⟨hhead, htail⟩ := List.pairwise_cons.mp h
      rw [List.eraseDups_cons, List.pairwise_cons]
      constructor
      · -- What stays behind the first member is not equal to it.
        intro u hu
        rw [List.mem_eraseDups, List.mem_filter] at hu
        have hle := hhead u hu.1
        have hne : u ≠ v := by simpa using hu.2
        omega
      · exact pairwise_lt_eraseDups (htail.filter _)
termination_by vs => vs.length
decreasing_by exact Nat.lt_succ_of_le (List.length_filter_le _ _)

theorem pairwise_lt_sortedSet (vs : List Int) : (sortedSet vs).Pairwise (· < ·) :=
  pairwise_lt_eraseDups (List.pairwise_mergeSort' (· ≤ ·) vs)

theorem sortedBank_perm (t : Tour) : t.sortedBank.Perm t.bank := List.mergeSort_perm _ _

/-! ## What the issues name -/

variable {t : Tour} {cost : Except Fault Int} {found : List Issue}

theorem mem_issueOf {make : List Int → Issue} {vs : List Int} {i : Issue} :
    i ∈ issueOf make vs ↔ vs ≠ [] ∧ i = make vs := by
  cases vs with
  | nil => simp [issueOf]
  | cons v vs => simp [issueOf]

/-- There is at most one issue of each kind. -/
theorem mem_issues (h : t.issues cost = .ok found) {i : Issue} : i ∈ found ↔
    (t.duplicates ≠ [] ∧ i = .duplicate t.duplicates) ∨
    (t.missing ≠ [] ∧ i = .missing t.missing) ∨
    (t.unknown ≠ [] ∧ i = .unknown t.unknown) ∨
    (t.sortedBank ≠ [] ∧ i = .unassigned t.sortedBank) ∨
    ∃ known recomputed, cost = .ok known ∧ t.objective = .ok recomputed ∧ known ≠ recomputed ∧
      i = .mismatch known recomputed := by
  obtain ⟨recomputed, known, hrecomputed, hknown, rfl⟩ := issues_eq_ok.mp h
  have hmismatch : i ∈ (if recomputed = known then [] else [Issue.mismatch known recomputed]) ↔
      ∃ known recomputed, cost = .ok known ∧ t.objective = .ok recomputed ∧ known ≠ recomputed ∧
        i = .mismatch known recomputed := by
    rw [hrecomputed, hknown]
    split_ifs with heq
    · simp [heq]
    · simp [eq_comm, heq]
  simp only [visitIssues, List.mem_append, mem_issueOf, hmismatch, or_assoc]

/-- There is an issue of a kind just when some number gives reason for it, and it names all numbers
that do, each once and in increasing order. -/
structure Reports (found : List Issue) (kind : List Int → Issue) (reason : Int → Prop) : Prop where
  raised : (∃ vs, kind vs ∈ found) ↔ ∃ v, reason v
  increasing : ∀ vs, kind vs ∈ found → vs.Pairwise (· < ·)
  names : ∀ vs, kind vs ∈ found → ∀ v, v ∈ vs ↔ reason v

/-- An issue that is raised about a list in order, just when the list is not empty, reports the
numbers on the list. -/
theorem reports_of_mem_iff {kind : List Int → Issue} {reason : Int → Prop} (named : List Int)
    (hmem : ∀ vs, kind vs ∈ found ↔ named ≠ [] ∧ vs = named) (hsorted : named.Pairwise (· < ·))
    (hnames : ∀ v, v ∈ named ↔ reason v) : Reports found kind reason where
  raised := by
    constructor
    · rintro ⟨vs, hvs⟩
      obtain ⟨v, hv⟩ := List.exists_mem_of_ne_nil named ((hmem vs).mp hvs).1
      exact ⟨v, (hnames v).mp hv⟩
    · rintro ⟨v, hv⟩
      exact ⟨named, (hmem named).mpr ⟨List.ne_nil_of_mem ((hnames v).mpr hv), rfl⟩⟩
  increasing := by
    intro vs hvs
    rw [((hmem vs).mp hvs).2]
    exact hsorted
  names := by
    intro vs hvs
    rw [((hmem vs).mp hvs).2]
    exact hnames

/-- Visits made more than once, visits that are missing, numbers that are no visits and a bank that
is not empty are all reported, and nothing else is; so is a known cost that is not the cost. But the
list is there only if the route has no legs, or if the table has places for all numbers on the
route, which are those from `-n` up to `n - 1`, although it is not the distances that most issues
are about. -/
theorem issues_report (t : Tour) (noted : Option Int) :
    let cost := noted.elim t.objective Except.ok
    let n := t.problem.dimension
    ((∃ found, t.issues cost = .ok found) ↔
      t.route.length < 2 ∨ ∀ v ∈ t.route, -(n : Int) ≤ v ∧ v < n) ∧
    ∀ found, t.issues cost = .ok found →
      Reports found .duplicate (fun v => 1 < t.route.count v) ∧
      Reports found .missing (fun v => v ∈ t.problem.visits ∧ v ∉ t.route ∧ v ∉ t.bank) ∧
      Reports found .unknown (fun v => (v ∈ t.route ∨ v ∈ t.bank) ∧ v ∉ t.problem.visits) ∧
      ((∃ vs, .unassigned vs ∈ found) ↔ t.bank ≠ []) ∧
      (∀ vs, .unassigned vs ∈ found → vs.Pairwise (· ≤ ·) ∧ vs.Perm t.bank) ∧
      ∀ known recomputed, .mismatch known recomputed ∈ found ↔
        cost = .ok known ∧ t.objective = .ok recomputed ∧ known ≠ recomputed := by
  intro cost n
  have hplaced : t.Placed ↔ ∀ v ∈ t.route, -(n : Int) ≤ v ∧ v < n := by
    simp only [Placed, DistanceTable.places_iff, t.problem.square]
    rfl
  constructor
  · rw [← hplaced, ← exists_objective_ok_iff]
    constructor
    · rintro ⟨found, hfound⟩
      obtain ⟨recomputed, -, hrecomputed, -⟩ := issues_eq_ok.mp hfound
      exact ⟨recomputed, hrecomputed⟩
    · -- The list needs two costs; a noted one is there without any distances.
      rintro ⟨recomputed, hrecomputed⟩
      have hcost : ∃ known, cost = .ok known := by
        cases noted with
        | none => exact ⟨recomputed, hrecomputed⟩
        | some known => exact ⟨known, rfl⟩
      obtain ⟨known, hknown⟩ := hcost
      exact ⟨_, issues_eq_ok.mpr ⟨recomputed, known, hrecomputed, hknown, rfl⟩⟩
  · intro found hfound
    refine ⟨?_, ?_, ?_, ?_, ?_, ?_⟩
    · exact reports_of_mem_iff t.duplicates (by simp [mem_issues hfound])
        (pairwise_lt_sortedSet _) fun v => mem_duplicates
    · exact reports_of_mem_iff t.missing (by simp [mem_issues hfound])
        (pairwise_lt_sortedSet _) fun v => mem_missing
    · exact reports_of_mem_iff t.unknown (by simp [mem_issues hfound])
        (pairwise_lt_sortedSet _) fun v => mem_unknown
    · have hempty : t.sortedBank = [] ↔ t.bank = [] := by
        rw [← List.length_eq_zero_iff, t.sortedBank_perm.length_eq, List.length_eq_zero_iff]
      simp [mem_issues hfound, hempty]
    · intro vs hvs
      have hvs' : t.sortedBank ≠ [] ∧ vs = t.sortedBank := by simpa [mem_issues hfound] using hvs
      rw [hvs'.2]
      exact ⟨List.pairwise_mergeSort' (· ≤ ·) t.bank, t.sortedBank_perm⟩
    · intro known recomputed
      simp [mem_issues hfound]

/-- A visit that is made twice, one that is missing, numbers on the route and in the bank that are
no visits: -3 has a place in the table, and 9 needs none. -/
theorem issues_report_broken :
    let t : Tour := ⟨.apart 5, [1, 1, -3], [9, 0]⟩
    ∃ found, t.issues t.objective = .ok found ∧
      Reports found .unknown (fun v => (v ∈ t.route ∨ v ∈ t.bank) ∧ v ∉ t.problem.visits) ∧
      found = [.duplicate [1], .missing [2], .unknown [-3, 9], .unassigned [0, 9]] := by
  intro t
  obtain ⟨hlisted, hreports⟩ := issues_report t none
  obtain ⟨found, hfound⟩ := hlisted.mpr (Or.inr (by decide))
  obtain ⟨-, -, hunknown, -, -, -⟩ := hreports found hfound
  refine ⟨found, hfound, hunknown, ?_⟩
  have hall : t.issues t.objective =
      .ok [.duplicate [1], .missing [2], .unknown [-3, 9], .unassigned [0, 9]] := by cbv
  exact Except.ok.inj (hfound.symm.trans hall)

/-- Seven has been found to be no visit when the table is asked for the distance to it. -/
theorem issues_unlisted_apart :
    let t : Tour := ⟨.apart 5, [0, 1, 7], []⟩
    t.problem.Numbered ∧ t.visitIssues = [.missing [2], .unknown [7]] ∧
      ∀ noted : Option Int, t.issues (noted.elim t.objective Except.ok) = .error .indexOutOfRange := by
  intro t
  refine ⟨List.Perm.refl _, by decide +kernel, ?_⟩
  intro noted
  rfl

/-! ## Tours without issues -/

theorem issues_eq_ok_nil_iff : t.issues cost = .ok [] ↔
    t.visitIssues = [] ∧ ∃ recomputed, t.objective = .ok recomputed ∧ cost = .ok recomputed := by
  rw [issues_eq_ok]
  constructor
  · rintro ⟨recomputed, known, hrecomputed, hknown, hfound⟩
    obtain ⟨hvisits, hmismatch⟩ := List.append_eq_nil_iff.mp hfound.symm
    have heq : recomputed = known := by
      by_contra hne
      rw [if_neg hne] at hmismatch
      cases hmismatch
    exact ⟨hvisits, recomputed, hrecomputed, heq ▸ hknown⟩
  · rintro ⟨hvisits, recomputed, hrecomputed, hcost⟩
    refine ⟨recomputed, recomputed, hrecomputed, hcost, ?_⟩
    rw [hvisits, if_pos rfl, List.nil_append]

/-- The issues of a tour are none just when its bank is empty and its route makes every visit once.
A cost that has been noted before must be the one that the tour has now. -/
theorem issues_eq_nil_iff (hp : t.problem.Numbered) :
    (t.issues t.objective = .ok [] ↔ t.bank = [] ∧ t.route.Perm t.problem.visits) ∧
    ∀ noted, t.issues (.ok noted) = .ok [] ↔
      (t.bank = [] ∧ t.route.Perm t.problem.visits) ∧ t.objective = .ok noted := by
  have hcomplete : t.visitIssues = [] ↔ t.bank = [] ∧ t.route.Perm t.problem.visits := by
    rw [visitIssues_eq_nil_iff hp.nodup]
    exact ⟨fun h => ⟨h.bank, h.route⟩, fun h => ⟨rfl, h.1, h.2⟩⟩
  simp only [issues_eq_ok_nil_iff, hcomplete, and_self]
  constructor
  · rw [and_iff_left_iff_imp]
    rintro ⟨-, hroute⟩
    have hplaced : t.Placed := fun v hv => hp.places (hroute.mem_iff.mp hv)
    exact hplaced.exists_objective_ok
  · intro noted
    simp only [Except.ok.injEq, exists_eq_right']

/-- A tour through all three visits, whichever comes first. -/
theorem issues_eq_nil_iff_apart :
    let t : Tour := ⟨.apart 5, [2, 0, 1], []⟩
    t.problem.Numbered ∧ t.issues t.objective = .ok [] ∧ t.issues (.ok 15) = .ok [] := by
  intro t
  have hp : t.problem.Numbered := List.Perm.refl _
  have hroute : t.route.Perm t.problem.visits := by decide
  obtain ⟨hown, hnoted⟩ := issues_eq_nil_iff hp
  exact ⟨hp, hown.mpr ⟨rfl, hroute⟩, (hnoted 15).mpr ⟨⟨rfl, hroute⟩, by decide +kernel⟩⟩

end Tour

end LargeNeighborhood
