import LargeNeighborhood.Proofs.Console.Folder
import LargeNeighborhood.Proofs.Console.Options
import LargeNeighborhood.Proofs.Console.Session
import LargeNeighborhood.Proofs.Random.Seeded
import LargeNeighborhood.Proofs.Search.Progress
import LargeNeighborhood.Proofs.Tour.Instance
import LargeNeighborhood.Proofs.Tour.Range

set_option autoImplicit false

/-! # Sessions that come to their end

A session keeps to a realm (`Session.realm`): its generator was seeded, its problem is in range, its
criterion can decide on every length. So its solver is made, runs for as many iterations as it is asked
for, and finds a complete tour, on which nothing is impossible to report. Its directory, once opened,
takes what is left to be written (`Session.run_of_opened`).

What is asked of the options is not enough for all of this (`Session.status_of_parse`). Two of them
are let through that fail later on, when the directory has been made: a negative seed, and more
iterations than a real can count, from which no step of a threshold can be computed.
-/

namespace LargeNeighborhood

/-! ## The solver of a session -/

namespace Session

open Emit

/-- Where a session searches: among tours of a problem whose cost is a length of 64 bits, with draws
from a seeded generator, and with a threshold that can be lowered. -/
def realm (p : Problem) : Realm Tour Source Gauge where
  whole := Tour.Complete p
  part := Tour.Balanced p
  world := Source.Seeded
  gauge := Gauge.Measured
  cost := Quantity.IsLength

variable {p : Problem}

theorem delivers_removal (hp : p.Sound) {degree : Float}
    (hdegree : Removal.degree? Removal.standardDegree = .ok degree) (removal : Removal) :
    Action.Delivers (realm p) .destroy (removal.apply Source.generator degree) := by
  intro t w ht hw
  have hcount := count_standardDegree_le hdegree t.route.length
  have hlength : (t.route.length : ℤ) ≤ 2 ^ 63 := by
    have hle := ht.balanced.length_route_le.trans hp.length_le
    omega
  obtain ⟨t', w', happly, hw'⟩ := Removal.exists_apply_in Source.lawfulIn.below_ok
    (ht.balanced.placed hp) hlength hcount removal hw
  exact ⟨t', w', happly, Removal.apply_balanced ht.balanced (ht.nodup_route hp.distinct) hcount
    (congrArg Prod.fst happly), hw'⟩

theorem delivers_insertion (hp : p.Sound) :
    Action.Delivers (realm p) .repair (Insertion.apply Source.generator) := by
  intro t w ht hw
  obtain ⟨t', w', happly, hw'⟩ := Insertion.exists_apply_in Source.lawfulIn.shuffle_ok hp ht hw
  exact ⟨t', w', happly, Insertion.apply_complete Source.permutes ht (congrArg Prod.fst happly), hw'⟩

theorem exists_unit_ok (w : Source) (hw : w.Seeded) :
    ∃ u w', Source.generator.unit w = (.ok u, w') ∧ w'.Seeded := by
  obtain ⟨u, w', hu, -, -, hw'⟩ := Source.lawfulIn.unit_ok w hw
  exact ⟨u, w', hu, hw'⟩

/-- What an iteration of a session calls, its operators apart, succeeds within the realm of the
session, whatever the gauge of the criterion is. -/
theorem carries (hp : p.Ranged) : Carries (realm p) Source.generator.unit Tour.landscape
    (Gauge.criterion Float.exp Source.generator.unit) where
  draw := exists_unit_ok
  cost := fun t ht => Tour.Complete.exists_cost ht hp
  key := fun t _ => ⟨t.key, rfl⟩
  judge := by
    intro best current candidate g w hbest hcurrent hcandidate hg hw
    exact Gauge.exists_judge_ok exists_unit_ok hg hbest hcurrent hcandidate hw
  range := fun q hq => hq.inRange

/-- An operator that does not fail is registered. No pool becomes empty by it, and one is not empty
any more. -/
theorem exists_register_ok {R : Realm Tour Source Gauge}
    {s : Solver Tour Tour.Key Source Gauge (Option Quantity)} (hs : s.Carries R) {role : Role}
    (name : String) {action : Action Tour Source} (haction : Action.Delivers R role action) :
    ∃ op s', s.register role (offer name action) none = .ok (op, s') ∧ s'.Carries R ∧
      s'.selector.pool role ≠ [] ∧
      ∀ other, s.selector.pool other ≠ [] → s'.selector.pool other ≠ [] := by
  obtain ⟨op, hop⟩ : ∃ op, op = Pool.newOperator (s.selector.pool role) name action := ⟨_, rfl⟩
  -- the new operator stands in the pool of its own role and nowhere else
  have hkept : ∀ other, other ≠ role →
      (s.selector.setPool role (s.selector.pool role ++ [op])).pool other = s.selector.pool other :=
    fun other hother => Selector.pool_setPool_of_ne _ hother _
  have hmanned : (s.selector.setPool role (s.selector.pool role ++ [op])).pool role ≠ [] := by
    rw [Selector.pool_setPool]
    exact List.append_ne_nil_of_right_ne_nil _ (List.cons_ne_nil op [])
  refine ⟨op, { s with selector := s.selector.setPool role (s.selector.pool role ++ [op]) },
    by rw [hop]; rfl, ?_, hmanned, ?_⟩
  · refine { carries := hs.carries, segment := hs.segment, operators := ?_ }
    intro other f hf
    obtain ⟨registered, hregistered, rfl⟩ := List.mem_map.mp hf
    by_cases hother : other = role
    · subst hother
      rw [Selector.pool_setPool] at hregistered
      rcases List.mem_append.mp hregistered with hold | hnew
      · exact hs.operators other _ (Selector.mem_actions hold)
      · rw [List.mem_singleton.mp hnew, hop]
        exact haction
    · rw [hkept other hother] at hregistered
      exact hs.operators other _ (Selector.mem_actions hregistered)
  · intro other hne
    by_cases hother : other = role
    · rw [hother]
      exact hmanned
    · dsimp only
      rw [hkept other hother]
      exact hne

/-- How a removal is registered. -/
def addRemoval (s : Solver Tour Tour.Key Source Gauge (Option Quantity)) (removal : Removal) :
    Except Fault (Solver Tour Tour.Key Source Gauge (Option Quantity)) := do
  let degree ← Removal.degree? Removal.standardDegree
  let (_, s) ← s.register .destroy
    (offer removal.name (removal.apply Source.generator degree)) none
  return s

theorem exists_addRemoval_ok (hp : p.Sound)
    {s : Solver Tour Tour.Key Source Gauge (Option Quantity)} (hs : s.Carries (realm p))
    (removal : Removal) : ∃ s', addRemoval s removal = .ok s' ∧ s'.Carries (realm p) ∧
      s'.selector.pool .destroy ≠ [] ∧
      ∀ other, s.selector.pool other ≠ [] → s'.selector.pool other ≠ [] := by
  have hdegree : Removal.degree? Removal.standardDegree = .ok 0.25 := rfl
  obtain ⟨op, s', hregister, hs'⟩ :=
    exists_register_ok hs removal.name (delivers_removal hp hdegree removal)
  exact ⟨s', bind_eq_ok.mpr ⟨_, hdegree, bind_eq_ok.mpr ⟨_, hregister, rfl⟩⟩, hs'⟩

/-- The solver of a session is there, and its operators do not fail. -/
theorem exists_solver_ok (hp : p.Ranged) (g : Gauge) :
    ∃ s, solver g = .ok s ∧ s.Carries (realm p) ∧ ∀ role, s.selector.pool role ≠ [] := by
  have hlimit : ∀ n, 200 ≤ n → 200 ≤ 2 ^ n := fun n hn => hn.trans Nat.lt_two_pow_self.le
  obtain ⟨created, hcreated, hempty⟩ : ∃ created, Solver.create Tour.landscape
      (some (Gauge.criterion Float.exp Source.generator.unit)) g.name g.name Source.generator.unit
      (.whole 200) (.whole 1000) = .ok created ∧ created.Carries (realm p) :=
    ⟨_, rfl, carries hp, fun role => by cases role <;> nofun, 200, rfl, by norm_num,
      hlimit 1023 (by norm_num)⟩
  obtain ⟨op, repairing, hrepairing, hcarries, hrepairers, -⟩ :=
    exists_register_ok hempty Insertion.name (delivers_insertion hp.toSound)
  -- After the first removal no pool is empty, and none becomes empty by the others.
  obtain ⟨first, hfirst, hcarries', hdestroyers, hkeeps⟩ :=
    exists_addRemoval_ok hp.toSound hcarries .random
  have hmanned : ∀ role, first.selector.pool role ≠ [] := by
    intro role
    cases role with
    | destroy => exact hdestroyers
    | repair => exact hkeeps .repair hrepairers
  have hrest : ∃ s, [Removal.worst, .path].foldlM addRemoval first = .ok s ∧
      s.Carries (realm p) ∧ ∀ role, s.selector.pool role ≠ [] := by
    apply exists_foldlM_ok_and
      (P := fun s : Solver Tour Tour.Key Source Gauge (Option Quantity) =>
        s.Carries (realm p) ∧ ∀ role, s.selector.pool role ≠ [])
    · rintro s removal ⟨hs, hmanned⟩ -
      obtain ⟨s', hs', hcarries, -, hkeeps⟩ := exists_addRemoval_ok hp.toSound hs removal
      exact ⟨s', hs', hcarries, fun role => hkeeps role (hmanned role)⟩
    · exact ⟨hcarries', hmanned⟩
  obtain ⟨s, hs, hsolver⟩ := hrest
  refine ⟨s, bind_eq_ok.mpr ⟨created, hcreated, bind_eq_ok.mpr ⟨_, hrepairing, ?_⟩⟩, hsolver⟩
  exact bind_eq_ok.mpr ⟨first, hfirst, hs⟩

/-! ## From the instance to the status -/

variable {o : Options}

theorem succeeds_construct (hp : p.Ranged) {w : Source} (hw : w.Seeded) :
    Succeeds (construct p w) fun first => Tour.Complete p first.1 ∧ first.2.Seeded := by
  obtain ⟨t, w', happly, ht, hw'⟩ := delivers_insertion hp.toSound _ w (Tour.balanced_empty p) hw
  obtain ⟨length, -, -, hnonneg, hsmall, hcost, -⟩ := ht.exists_length hp
  -- the cost is in range, so it can be printed
  have hfixed : ∃ text, (Quantity.whole length).fixed? 2 = .ok text :=
    ⟨_, bind_eq_ok.mpr ⟨_, Quantity.toReal?_whole (by omega), rfl⟩⟩
  unfold construct
  rw [happly]
  apply (succeeds_pure (P := (· = t)) rfl).bind
  rintro _ rfl
  apply (succeeds_orFail (P := (· = length)) ⟨length, hcost, rfl⟩).bind
  rintro _ rfl
  obtain ⟨text, htext⟩ := hfixed
  apply (succeeds_orFail (P := fun _ => True) ⟨text, htext, trivial⟩).bind
  intro text' _
  apply (succeeds_say _).bind
  intro _ _
  exact succeeds_pure ⟨ht, hw'⟩

/-- A search with a criterion that is there finds a tour. -/
theorem exists_outcome_ok (ho : o.Checked)
    {s : Solver Tour Tour.Key Source Gauge (Option Quantity)} (hs : s.Carries (realm p))
    (hmanned : ∀ role, s.selector.pool role ≠ []) {g : Gauge} (hg : g.Measured) {first : Tour}
    (hfirst : Tour.Complete p first) {w : Source} (hw : w.Seeded) :
    ∃ best, (s.run first ⟨rewards, .real o.reaction, .whole o.iterations⟩ g w).result = .ok best ∧
      Tour.Complete p best.state := by
  obtain ⟨n, hn⟩ := Int.eq_ofNat_of_zero_le (le_trans zero_le_one ho.iterations)
  have hcount : ¬ Quantity.whole o.iterations < Quantity.whole 1 := by
    rw [Quantity.whole_lt_whole]
    exact not_lt.mpr ho.iterations
  have hrewards : ∀ q ∈ rewards, ¬ q < Quantity.whole 0 := by decide
  have hcheck : s.check ⟨rewards, .real o.reaction, .whole o.iterations⟩ = .ok () :=
    Solver.check_ok_iff.mpr ⟨hmanned .destroy, hmanned .repair, hcount, ho.reaction, rfl,
      hrewards⟩
  exact Solver.exists_run_ok hs hcheck ⟨_, rfl⟩ (congrArg Quantity.whole hn) hfirst hg hw

/-- A first tour is improved, unless the number of steps is beyond the reals and is asked for. -/
theorem succeeds_improve (hp : p.Ranged) (ho : o.Checked)
    (hrange : o.acceptance = Gauge.recordToRecordName → (Quantity.whole o.iterations).InRange)
    {first : Tour} (hfirst : Tour.Complete p first) {w : Source} (hw : w.Seeded) :
    Succeeds (improve o first w) fun found => Tour.Complete p found.tour := by
  obtain ⟨length, -, -, hnonneg, hsmall, hcost, -⟩ := hfirst.exists_length hp
  have hlength : (Quantity.whole length).IsLength := ⟨length, rfl, hnonneg, hsmall⟩
  obtain ⟨g, hnamed, hg⟩ := Gauge.exists_named_ok ho.acceptance hlength ho.iterations hrange
  obtain ⟨s, hsolver, hs, hmanned⟩ := exists_solver_ok hp g
  unfold improve
  apply (succeeds_orFail (P := (· = length)) ⟨length, hcost, rfl⟩).bind
  rintro _ rfl
  apply (succeeds_orFail (P := (· = g)) ⟨g, hnamed, rfl⟩).bind
  rintro _ rfl
  apply (succeeds_orFail (P := (· = s)) ⟨s, hsolver, rfl⟩).bind
  rintro _ rfl
  apply (succeeds_say _).bind
  intro _ _
  apply (succeeds_orFail (exists_outcome_ok ho hs hmanned hg hfirst hw)).bind
  intro best hbest
  exact succeeds_pure hbest

theorem improve_of_overflow (hp : p.Ranged) (ho : o.Checked)
    (hname : o.acceptance = Gauge.recordToRecordName)
    (hrange : ¬ (Quantity.whole o.iterations).InRange) {first : Tour}
    (hfirst : Tour.Complete p first) (w : Source) :
    Ends (improve o first w) (· = .error .overflow) := by
  obtain ⟨length, -, -, -, -, hcost, -⟩ := hfirst.exists_length hp
  have hnamed := Gauge.named_of_overflow (.whole length) ho.iterations hrange
  rw [← hname] at hnamed
  unfold improve
  apply (succeeds_orFail (P := (· = length)) ⟨length, hcost, rfl⟩).bind
  rintro _ rfl
  exact (ends_orFail (E := (· = .error .overflow)) hnamed).bind_error _

variable {s : Setting} {f : Folder}

/-- A search begins with a warning if the settings are not kept. -/
theorem ends_warning {work : Emit (Option Found)} {E : Except Fault (Option Found) → Prop}
    (h : Ends work E) : Ends (do
      if !s.keepsSettings then
        sayLine "Warning: Could not copy the config module to create a snapshot."
      work) E := by
  split
  · exact (succeeds_say _).bind fun _ _ => h
  · exact h

/-- A negative seed is found out before an instance is looked for. -/
theorem search_of_negative (hseed : o.seed < 0) (s : Setting) (f : Folder) :
    Ends (search s f o) (· = .error .negativeSeed) := by
  have hsource : Source.ofSeed o.seed = .error .negativeSeed := if_pos hseed
  unfold search
  apply ends_warning
  exact (ends_orFail (E := (· = .error .negativeSeed)) hsource).bind_error _

/-- With a seed that is not negative, an instance that is loaded is given a first tour. -/
theorem ends_search (hseed : 0 ≤ o.seed) (hload : load f o = .ok p) (hp : p.Ranged)
    {E : Except Fault (Option Found) → Prop}
    (h : ∀ first w, Tour.Complete p first → Source.Seeded w →
      Ends (do return some (← improve o first w)) E) : Ends (search s f o) E := by
  obtain ⟨w, hsource, hw⟩ : ∃ w, Source.ofSeed o.seed = .ok w ∧ w.Seeded := by
    rcases Source.ofSeed_eq o.seed with ⟨hneg, -⟩ | ⟨-, hw⟩
    · omega
    · exact hw
  unfold search
  apply ends_warning
  apply (succeeds_orFail (P := (· = w)) ⟨w, hsource, rfl⟩).bind
  rintro _ rfl
  apply (succeeds_lines _).bind
  intro _ _
  rw [hload]
  apply (succeeds_say _).bind
  intro _ _
  apply (succeeds_construct hp hw).bind
  rintro ⟨first, w'⟩ ⟨hfirst, hw'⟩
  apply (succeeds_say _).bind
  intro _ _
  exact h first w' hfirst hw'

/-- Without charts, a session that has found a complete tour says so and ends with status 0. -/
theorem ends_conclude (hp : p.Ranged) (hplots : o.plots = false) {found : Found}
    (hfound : Tour.Complete p found.tour) (s : Setting) (f : Folder) (seconds : Float) :
    Ends (conclude s f o (.real seconds) found) (· = .ok 0) := by
  unfold conclude
  apply (succeeds_report (hfound.exists_details_ok hp seconds)).bind
  intro _ _
  apply (succeeds_report (hfound.exists_validation_ok hp.toSound)).bind
  intro _ _
  dsimp only
  rw [hplots]
  apply (succeeds_say _).bind
  intro _ _
  apply (succeeds_orFail (P := (· = [])) ⟨[], hfound.issues_eq hp.toSound, rfl⟩).bind
  rintro _ rfl
  exact ⟨fun _ => rfl, fun _ => rfl⟩

/-- Work on an instance that is loaded, with options that are let through, fails for a negative seed
and for a number of iterations that record-to-record travel cannot step through, and otherwise ends
with status 0. -/
theorem ends_work (ho : o.Checked) (hplots : o.plots = false) (hload : load f o = .ok p)
    (hp : p.Ranged) (s : Setting) (seconds : Float) :
    Ends (work s f o (.real seconds)) (· = if o.seed < 0 then .error .negativeSeed
      else if o.acceptance = Gauge.recordToRecordName ∧ ¬ (Quantity.whole o.iterations).InRange then
        .error .overflow
      else .ok 0) := by
  by_cases hseed : o.seed < 0
  · rw [if_pos hseed]
    exact (search_of_negative hseed s f).bind_error _
  rw [if_neg hseed]
  -- only a threshold that falls step by step needs the number of iterations as a real
  by_cases hoverflow : o.acceptance = Gauge.recordToRecordName ∧
      ¬ (Quantity.whole o.iterations).InRange
  · rw [if_pos hoverflow]
    refine Ends.bind_error (ends_search (by omega) hload hp ?_) _
    intro first w hfirst _
    exact (improve_of_overflow hp ho hoverflow.1 hoverflow.2 hfirst w).bind_error _
  · rw [if_neg hoverflow]
    have hrange : o.acceptance = Gauge.recordToRecordName → (Quantity.whole o.iterations).InRange :=
      fun hname => not_not.mp fun hout => hoverflow ⟨hname, hout⟩
    have hsearch : Succeeds (search s f o) fun found => ∃ x, found = some x ∧
        Tour.Complete p x.tour := by
      apply ends_search (by omega) hload hp
      intro first w hfirst hw
      apply (succeeds_improve hp ho hrange hfirst hw).bind
      intro found hfound
      exact succeeds_pure ⟨found, rfl, hfound⟩
    apply hsearch.bind
    rintro _ ⟨found, rfl, hfound⟩
    exact ends_conclude hp hplots hfound s f seconds

/-! ## The directory of a session -/

/-- The directory of a session with its log, and with a copy of the settings if one can be kept. -/
def opened (s : Setting) (f : Folder) (o : Options) : Except Fault (Setting × Folder) := do
  let (cleared, f, _) := clear s f o
  cleared
  let f ← prepare s f o
  return match if s.keepsSettings then copySettings s f o else .ok f with
    | .ok f => (s, f)
    | .error _ => ({ s with keepsSettings := false }, f)

/-- What was opened was cleared, prepared, and given a copy of the settings if that did not fail. -/
theorem opened_ok {s' : Setting} {f' : Folder} (h : opened s f o = .ok (s', f')) :
    ∃ (cleared : Folder) (printed : String) (prepared : Folder) (copied : Except Fault Folder),
      clear s f o = (.ok (), cleared, printed) ∧ prepare s cleared o = .ok prepared ∧
      (if s.keepsSettings then copySettings s prepared o else .ok prepared) = copied ∧
      (copied = .ok f' ∧ s' = s ∨
        (∃ fault, copied = .error fault) ∧ f' = prepared ∧ s' = { s with keepsSettings := false }) := by
  unfold opened at h
  rcases hclear : clear s f o with ⟨ended, cleared, printed⟩
  rw [hclear] at h
  obtain ⟨⟨⟩, hended, h⟩ := bind_eq_ok.mp h
  obtain ⟨prepared, hprepare, h⟩ := bind_eq_ok.mp h
  refine ⟨cleared, printed, prepared, _, by rw [hended], hprepare, rfl, ?_⟩
  split at h
  · rename_i hcopied
    cases h
    exact Or.inl ⟨hcopied, rfl⟩
  · rename_i fault hcopied
    cases h
    exact Or.inr ⟨⟨fault, hcopied⟩, rfl, rfl⟩

/-- The log of a directory that was opened can be written to. -/
theorem exists_store_ok {s' : Setting} {f' : Folder} (h : opened s f o = .ok (s', f'))
    (printed : String) : ∃ left, store s o f' ⟨printed, []⟩ = .ok left := by
  obtain ⟨cleared, -, prepared, copied, -, hprepare, hcopied, hf'⟩ := opened_ok h
  obtain ⟨made, -, hlog⟩ := bind_eq_ok.mp hprepare
  obtain ⟨target, htarget⟩ := Folder.exists_write_ok hlog
  -- The copy of the settings is a file, so it is not in the way.
  have hwritable : f'.placeOfFile (logPath s o) = .ok target := by
    rcases hf' with ⟨rfl, -⟩ | ⟨-, rfl, -⟩
    · split at hcopied
      · unfold copySettings at hcopied
        dsimp only at hcopied
        split at hcopied
        · exact Folder.placeOfFile_of_write hcopied htarget
        · exact Folder.placeOfFile_of_write hcopied htarget
      · cases hcopied
        exact htarget
    · exact htarget
  refine ⟨_, bind_eq_ok.mpr ⟨_, map_eq_ok.mpr ⟨target, hwritable, rfl⟩, rfl⟩⟩

/-- The status of a session whose directory was opened is that of its work. -/
theorem run_of_opened {s' : Setting} {f' : Folder} (h : opened s f o = .ok (s', f'))
    {status : Except Fault Nat} {seconds : Quantity} (hwork : Ends (work s' f' o seconds) (· = status)) :
    (run s f o seconds).status = status := by
  obtain ⟨output, houtput, hfigures⟩ : ∃ output, (work s' f' o seconds).perform = (status, output) ∧
      output.figures = [] :=
    ⟨_, Prod.ext (hwork.result .empty) rfl, hwork.figures .empty⟩
  obtain ⟨left, hleft⟩ := exists_store_ok h output.printed
  have hstore : store s o f' output = .ok left := by
    rw [← hleft, ← hfigures]
  obtain ⟨cleared, printed, prepared, copied, hclear, hprepare, hcopied, hf'⟩ := opened_ok h
  unfold run
  rw [hclear]
  dsimp only
  rw [hprepare]
  dsimp only
  rw [hcopied]
  -- whether the instance could be copied or not, the work is done and its log is stored
  rcases hf' with ⟨rfl, rfl⟩ | ⟨⟨fault, rfl⟩, rfl, rfl⟩
  · dsimp only
    rw [houtput]
    dsimp only
    rw [hstore]
  · dsimp only
    rw [houtput]
    dsimp only
    rw [hstore]

/-! ## From the arguments to the status -/

/-- A session with options that are let through, on an instance in range and without charts, comes to
its end with status 0 if the seed is not negative and, for record-to-record travel, the number of
iterations is in the range of the reals. Otherwise it fails, after its directory has been opened. -/
theorem status_of_parse {arguments : List String} (hparse : Options.parse arguments = .ok o)
    (hplots : o.plots = false) {s' : Setting} {f' : Folder}
    (hopened : opened s f o = .ok (s', f')) (hload : load f' o = .ok p) (hp : p.InRange)
    (seconds : Float) :
    (run s f o (.real seconds)).status =
      if o.seed < 0 then .error .negativeSeed
      else if o.acceptance = Gauge.recordToRecordName ∧ ¬ (Quantity.whole o.iterations).InRange then
        .error .overflow
      else .ok 0 := by
  obtain ⟨name, points, rfl⟩ := load_measured hload
  exact run_of_opened hopened
    (ends_work (Options.parse_checked hparse) hplots hload hp.ranged s' seconds)

/-! ### A session on two visits -/

/-- What is asked for on the command line, but for the seed. -/
def pairArguments (seed : String) : List String :=
  ["--input=maps/pair.tsp", "--iter", "2", "--acceptance", "record_to_record", "--reaction=1",
    "--seed", seed, "--no-plots"]

def pairOptions (seed : ℤ) : Options where
  input := some "maps/pair.tsp"
  iterations := 2
  acceptance := Gauge.recordToRecordName
  reaction := 1
  seed := seed
  resultsDir := "results"
  plots := false

/-- An instance of two visits, and the directory of an earlier session. -/
def pairFolder : Folder :=
  ⟨[(["results"], .directory), (["results", "first"], .directory), (["maps"], .directory),
    (["maps", "pair.tsp"], .file Instance.twoVisits.text.toUTF8)]⟩

def pairSetting : Setting := ⟨"first", false, false⟩

/-- The directory `pairFolder` with an empty log for the session. -/
def pairOpened : Folder := pairFolder.put ["results", "first", "log.txt"] (.file .empty)

theorem paths_pair :
    Path.join "results" "first" = "results/first" ∧
      Path.join (Path.join "results" "first") "log.txt" = "results/first/log.txt" ∧
      (Path.parts "results/first").reverse = ["first", "results"] ∧
      Path.parts "results/first/log.txt" = ["results", "first", "log.txt"] ∧
      Path.parts "maps/pair.tsp" = ["maps", "pair.tsp"] ∧
      Instance.twoVisits.name "maps/pair.tsp" = "a : b" := by
  decide +kernel

theorem find_pair : ∀ parts ∈ [["results"], ["results", "first"], ["results", "first", "log.txt"]],
    pairFolder.find parts = .ok parts := by
  have hplain : ∀ parts ∈ [["results"], ["results", "first"], ["results", "first", "log.txt"]],
      (∀ part ∈ parts, '\x00' ∉ part.toList) ∧
        ("/".intercalate parts).utf8ByteSize ≤ Path.pathLimit ∧ parts.isEmpty = false := by
    decide
  have hfollow : ∀ parts ∈ [["results"], ["results", "first"], ["results", "first", "log.txt"]],
      pairFolder.follow [] parts = .ok parts := by
    simp only [List.forall_mem_cons]
    exact ⟨rfl, rfl, rfl, fun _ h => absurd h List.not_mem_nil⟩
  intro parts hparts
  obtain ⟨hzero, hshort, hne⟩ := hplain parts hparts
  exact Folder.find_of_follow hzero hshort hne (hfollow parts hparts)

theorem opened_pair (seed : ℤ) :
    opened pairSetting pairFolder (pairOptions seed) = .ok (pairSetting, pairOpened) := by
  obtain ⟨hdirectory, hpath, hreversed, hparts, -, -⟩ := paths_pair
  have hdirectory : runDirectory pairSetting (pairOptions seed) = "results/first" := hdirectory
  have hpath : logPath pairSetting (pairOptions seed) = "results/first/log.txt" := hpath
  have hlookup : pairFolder.lookup ["results"] = .ok .directory :=
    bind_eq_ok.mpr ⟨_, find_pair _ (by simp), rfl⟩
  have hlookup' : pairFolder.lookup ["results", "first"] = .ok .directory :=
    bind_eq_ok.mpr ⟨_, find_pair _ (by simp), rfl⟩
  -- the directory is there already
  have hmade : pairFolder.makeDirectories "results/first" = .ok pairFolder := by
    unfold Folder.makeDirectories
    rw [hreversed]
    simp only [Folder.ensure, List.reverse_cons, List.reverse_nil, List.nil_append,
      List.cons_append, hlookup, Folder.makeDirectory, Folder.isDirectory, hlookup']
    rfl
  have hplace : pairFolder.placeOfFile "results/first/log.txt" =
      .ok ["results", "first", "log.txt"] := by
    have hfree : pairFolder.node? ["results", "first", "log.txt"] = none := rfl
    rw [Folder.placeOfFile_eq_ok, hparts, hfree]
    exact ⟨find_pair _ (by simp), by simp⟩
  have hold : oldLog pairFolder "results/first/log.txt" = .empty := by
    unfold oldLog Folder.read Folder.lookup
    rw [hparts, find_pair _ (by simp)]
    rfl
  have hprepare : prepare pairSetting pairFolder (pairOptions seed) = .ok pairOpened := by
    unfold prepare
    rw [hdirectory, hpath, hmade]
    show pairFolder.write _ _ = _
    rw [hold]
    exact map_eq_ok.mpr ⟨_, hplace, rfl⟩
  exact bind_eq_ok.mpr ⟨(), rfl, bind_eq_ok.mpr ⟨_, hprepare, rfl⟩⟩

/-- The two visits as points. -/
def pairProblem : Problem :=
  .measured 0 "a : b" [[Float.ofInt (-3), Float.ofInt 4], [Float.ofInt 999999999999999, Float.ofInt 0]]

theorem load_pair (seed : ℤ) : load pairOpened (pairOptions seed) = .ok pairProblem := by
  obtain ⟨-, -, -, -, hparts, hname⟩ := paths_pair
  have hplace : pairOpened.find ["maps", "pair.tsp"] = .ok ["maps", "pair.tsp"] :=
    Folder.find_of_follow (by decide) (by decide) rfl rfl
  have hcontent : pairOpened.read "maps/pair.tsp" = .ok Instance.twoVisits.text.toUTF8 := by
    unfold Folder.read Folder.lookup
    rw [hparts, hplace]
    rfl
  have hparse := Instance.Layout.parse_text 0 Instance.readable_twoVisits
  rw [hname] at hparse
  refine bind_eq_ok.mpr ⟨_, hcontent, ?_⟩
  rw [Instance.read_toUTF8]
  exact hparse

theorem inRange_pair : pairProblem.InRange where
  distances := by
    intro points hpoints
    cases hpoints
    decide +kernel
  lengths := by
    intro route hroute
    have hentries : (pairProblem.distances.entries.all fun d =>
        decide (d.toInt.natAbs ≤ 10 ^ 15 + 2)) = true := by decide +kernel
    rw [Array.all_eq_true_iff_forall_mem] at hentries
    exact Tour.fits_closedLength (Problem.sound_measured (by decide +kernel))
      (fun d hd => of_decide_eq_true (hentries d hd)) (by decide) hroute
  addressable := by decide +kernel

theorem parse_pair : Options.parse (pairArguments "7") = .ok (pairOptions 7) ∧
    Options.parse (pairArguments "-1") = .ok (pairOptions (-1)) := by
  decide +kernel

/-- With a seed of seven, two visits are toured. -/
theorem status_of_parse_pair : ∃ o s' f' p,
    Options.parse (pairArguments "7") = .ok o ∧ o.plots = false ∧
      opened pairSetting pairFolder o = .ok (s', f') ∧ load f' o = .ok p ∧ p.InRange ∧
      (run pairSetting pairFolder o (.real 0.5)).status = .ok 0 := by
  obtain ⟨hparse, -⟩ := parse_pair
  have hrange : (Quantity.whole 2).InRange := by decide
  refine ⟨_, _, _, _, hparse, rfl, opened_pair 7, load_pair 7, inRange_pair, ?_⟩
  rw [status_of_parse hparse rfl (opened_pair 7) (load_pair 7) inRange_pair, if_neg (by decide),
    if_neg fun hout => hout.2 hrange]

/-- A seed of minus one is let through, and is a fault when everything else is in order. -/
theorem status_negativeSeed_pair : ∃ o s' f' p,
    Options.parse (pairArguments "-1") = .ok o ∧ o.plots = false ∧
      opened pairSetting pairFolder o = .ok (s', f') ∧ load f' o = .ok p ∧ p.InRange ∧
      (run pairSetting pairFolder o (.real 0.5)).status = .error .negativeSeed := by
  obtain ⟨-, hparse⟩ := parse_pair
  refine ⟨_, _, _, _, hparse, rfl, opened_pair (-1), load_pair (-1), inRange_pair, ?_⟩
  exact run_of_opened (opened_pair (-1)) ((search_of_negative (by decide) _ _).bind_error _)

end Session

end LargeNeighborhood
