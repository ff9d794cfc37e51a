import LargeNeighborhood.Console.Options
import LargeNeighborhood.Proofs.Search.Decisions

set_option autoImplicit false

/-! # Options that are let through

The iterations and the reaction factor are checked once all options are read, and the name of the
criterion when it is read (`Options.Checked`). Nothing is asked of the seed: of the numbers that can be
read, all are let through.
-/

namespace LargeNeighborhood

deriving instance DecidableEq for Options

namespace Options

/-- What is known of options that are let through. -/
structure Checked (o : Options) : Prop where
  iterations : 1 ≤ o.iterations
  reaction : Solver.isShare (.real o.reaction)
  acceptance : o.acceptance ∈ Gauge.names

/-- A value that is set leaves a name of a criterion where one was. -/
theorem set_acceptance {o o' : Options} {f : Flag} {value : String} (h : set o f value = .ok o')
    (ho : o.acceptance ∈ Gauge.names) : o'.acceptance ∈ Gauge.names := by
  unfold set at h
  cases f with
  -- the one flag that sets the name checks it
  | acceptance =>
      dsimp only at h
      split at h
      · rename_i hname
        cases h
        exact hname
      · cases h
  | iterations | reaction | seed =>
      dsimp only at h
      split at h
      · cases h
        exact ho
      · cases h
  | input | resultsDir | noPlots | help =>
      cases h
      exact ho

theorem switch_acceptance {o o' : Options} {f : Flag} {spelling : String}
    {attached : Option String} (h : switch o f spelling attached = .ok o') :
    o'.acceptance = o.acceptance := by
  unfold switch at h
  split at h
  · cases h
  · cases h
    rfl
  · split at h <;> cases h

/-- Reading goes on from options to options, so the criterion always has one of the names. -/
theorem consume_acceptance {words : List Word} {o o' : Options} {extra extra' : List String}
    (h : consume o extra words = .ok (o', extra')) (ho : o.acceptance ∈ Gauge.names) :
    o'.acceptance ∈ Gauge.names := by
  fun_induction consume o extra words with
  | case1 =>
      cases h
      exact ho
  | case2 _ _ _ _ ih => exact ih h ho
  | case3 _ _ _ ih => exact ih h ho
  | case4 _ _ _ _ ih => exact ih h ho
  | case5 _ _ _ _ _ _ _ ih =>
      -- A value that is attached.
      obtain ⟨next, hnext, h⟩ := bind_eq_ok.mp h
      exact ih next h (set_acceptance (mapError_eq_ok.mp hnext) ho)
  | case6 _ _ _ _ _ _ _ ih =>
      -- A value that comes next.
      obtain ⟨next, hnext, h⟩ := bind_eq_ok.mp h
      exact ih next h (set_acceptance (mapError_eq_ok.mp hnext) ho)
  | case7 => cases h
  | case8 _ _ _ _ _ _ _ ih =>
      obtain ⟨next, hnext, h⟩ := bind_eq_ok.mp h
      exact ih next h (switch_acceptance hnext ▸ ho)

theorem parse_checked {arguments : List String} {o : Options} (h : parse arguments = .ok o) :
    o.Checked := by
  obtain ⟨words, -, h⟩ := bind_eq_ok.mp h
  obtain ⟨⟨read, extra⟩, hread, h⟩ := bind_eq_ok.mp h
  have hchecked : check read = .ok o := by
    dsimp only at h
    split at h
    · cases h
    · exact mapError_eq_ok.mp h
  unfold check at hchecked
  split at hchecked
  · cases hchecked
  · split at hchecked
    · cases hchecked
    · rename_i hiterations hreaction
      cases hchecked
      exact ⟨by omega, not_not.mp hreaction, consume_acceptance hread (by decide)⟩

end Options

end LargeNeighborhood
