import LargeNeighborhood.Proofs.Number.Bounds
import LargeNeighborhood.Search.Pool

set_option autoImplicit false

/-! # What blending makes of a weight

A weight is blended with what its score makes for each use. By a reaction of zero a weight of one
is not changed, not even by rounding, as long as the score is finite (`Pool.blend_of_zero`). By any
share a positive weight stays positive (`Pool.atLeast_blend`): either three quarters of it are kept,
and those are not rounded to nothing, or a quarter of the share is added, which is far from the
least real.
-/

namespace LargeNeighborhood

open Float.Model Float.Model.UnpackedFloat

namespace Rounding

/-- What stands for a number is a zero or finite. -/
theorem definite_cases {u : UnpackedFloat} {q : ℚ} (h : value u = some (exactly q)) :
    (∃ s, u = .zero s) ∨ ∃ s m e, ∃ hm : 0 < m, u = .finite s m e hm := by
  rcases u with s | _ | s | ⟨s, m, e, hm⟩
  · cases s with
    | positive => exact absurd (Option.some_inj.mp h).le (not_top_le_exactly q)
    | negative => exact absurd (Option.some_inj.mp h).ge (not_le.mpr (WithBot.bot_lt_coe _))
  · cases h
  · exact Or.inl ⟨s, rfl⟩
  · exact Or.inr ⟨s, m, e, hm, rfl⟩

/-! ## Shares -/

/-- What stands for a number still does when it is divided by a whole number. -/
theorem exists_worth_share {x : Float} {q : ℚ} (hx : worth x = some (exactly q)) {n : ℕ}
    (hn : 0 < n) : ∃ p : ℚ, worth (x / Float.ofNat n) = some (exactly p) := by
  have hzero : ∀ s, ∃ p : ℚ, value (repack (.zero s)) = some (exactly p) := by
    intro s
    rw [repack_zero]
    exact ⟨0, rfl⟩
  obtain ⟨u, hview, hround⟩ := rounded_ofNat hn
  have hheld := held_view x
  have hone : (1 : ℚ) ≤ n := by exact_mod_cast hn
  obtain ⟨m', e', hm', rfl, -⟩ := hround.finite_of_le (t := 0) (by norm_num)
    (by rwa [zpow_zero])
  have hdivisor : 1 ≤ scaled m' e' := hround.ge 1 (representable_natCast (n := 1) (by norm_num)) hone
  unfold worth at hx ⊢
  rw [view_div, hview]
  generalize view x = v at hx hheld
  rcases hround.repack_eq with hrepack | hrepack <;> rw [hrepack]
  · rcases definite_cases hx with ⟨s, rfl⟩ | ⟨s, m, e, hm, rfl⟩
    · exact hzero _
    · obtain ⟨hshape, he⟩ := hheld _ _ _ _ rfl
      have hquotient := rounded_div s .positive e e' hm hm'
      obtain ⟨hkept, -⟩ := hquotient.repack_of_le_scaled hshape he
        (div_le_self (scaled_nonneg m e) hdivisor)
      rw [hkept]
      rcases hquotient.form with hform | ⟨m'', e'', hm'', hform, -⟩
      · rw [hform]
        exact ⟨0, rfl⟩
      · rw [hform]
        cases s <;> exact ⟨_, rfl⟩
  · -- A divisor out of range is infinite.
    rcases definite_cases hx with ⟨s, rfl⟩ | ⟨s, m, e, hm, rfl⟩
    · exact hzero _
    · exact hzero _

/-- A score of at least one makes a share that is far from the least real. -/
theorem atLeast_share {x : Float} {n : ℕ} (hx : AtLeast 1 (view x)) (hn : 0 < n)
    (hle : n ≤ 2 ^ 1023) : AtLeast (2 ^ (-1023 : ℤ)) (view (x / Float.ofNat n)) := by
  obtain ⟨u, hview, hround⟩ := rounded_ofNat hn
  have hbound : (n : ℚ) ≤ 2 ^ (1023 : ℤ) := natCast_le_two_zpow hle le_rfl
  obtain ⟨m, e, hm, rfl, -⟩ := hround.finite_of_le (t := 0) (by norm_num)
    (by rw [zpow_zero]; exact_mod_cast hn)
  rw [view_div, hview, hround.repack_of_le hbound]
  apply atLeast_div one_pos (representable_two_zpow (by norm_num)) _ hx hm
    (hround.le _ (representable_two_zpow (by norm_num)) hbound)
  rw [one_div, ← zpow_neg]

/-! ## Complements -/

/-- What is left of one is at least three quarters when no more than a quarter is taken. -/
theorem atLeast_complement {u : UnpackedFloat} {q : ℚ} (hu : value u = some (exactly q))
    (hq : 0 ≤ q) (hle : q ≤ 1 / 4) :
    AtLeast (3 / 4) (repack (UnpackedFloat.sub .binary64 one u)) := by
  have hquarters : Representable (3 / 4) :=
    ⟨3, -2, by norm_num, by norm_num, by norm_num [scaled]⟩
  rcases nonneg_cases hu hq with ⟨rfl, s, rfl⟩ | ⟨m, e, hm, rfl, rfl⟩
  · have hsub : UnpackedFloat.sub .binary64 one (.zero s) = one := rfl
    have hone : value (repack one) = some (exactly 1) := by
      rw [← scaled_one]
      rfl
    rw [hsub]
    exact atLeast_of_value hone (by norm_num)
  · have hcases := difference_cases (-52) e (show 0 < 2 ^ 52 by norm_num) hm
    rw [scaled_one] at hcases
    rcases hcases with ⟨-, hround⟩ | ⟨heq, -⟩ | ⟨hlt, -⟩
    · exact hround.atLeast hquarters (by linarith)
    · linarith
    · linarith

theorem unsigned_complement {r : Float} {q : ℚ} (hr : worth r = some (exactly q)) (hq : 0 ≤ q)
    (hle : q ≤ 1) : Unsigned (view (Float.ofNat 1 - r)) := by
  have hunsigned : Unsigned (view r) := (atLeast_of_value hr hq).unsigned le_rfl
  have hone : r ≤ Float.ofNat 1 := le_iff.mpr ⟨_, _, hr, worth_one, exactly_le_exactly.mpr hle⟩
  exact not_lt_zero_iff.mp (not_sub_lt_zero (not_lt_zero_iff.mpr hunsigned) hone)

end Rounding

open Rounding

namespace Pool

variable {r weight score : Float} {uses : ℕ} {q : ℚ}

/-- By a reaction of zero nothing is added to a weight of one, and nothing taken from it. -/
theorem blend_of_zero (hr : worth r = some (exactly 0)) (hscore : worth score = some (exactly q))
    (huses : 0 < uses) : blend r 1.0 score uses = 1.0 := by
  obtain ⟨p, hp⟩ := exists_worth_share hscore huses
  obtain ⟨s, hs⟩ : ∃ s, view r = .zero s := by
    rcases nonneg_cases hr le_rfl with ⟨-, hs⟩ | ⟨m, e, hm, -, h0⟩
    · exact hs
    · exact absurd h0 (scaled_pos hm e).ne
  have hrest : Float.ofNat 1 - r = 1.0 := by
    show Float.ofModel (.pack (UnpackedFloat.sub .binary64 one (view r))) = 1.0
    rw [hs]
    rfl
  obtain ⟨s', hadded⟩ : ∃ s', r * (score / Float.ofNat uses) =
      Float.ofModel (.pack (.zero s')) := by
    show ∃ s', Float.ofModel (.pack (mul .binary64 (view r) (view (score / Float.ofNat uses)))) = _
    rw [hs]
    rcases definite_cases hp with ⟨s', hs'⟩ | ⟨s', m, e, hm, hs'⟩
    · rw [hs']
      exact ⟨_, rfl⟩
    · rw [hs']
      exact ⟨_, rfl⟩
  show (Float.ofNat 1 - r) * 1.0 + r * (score / Float.ofNat uses) = 1.0
  rw [hrest, hadded]
  cases s' <;> rfl

/-- By a share a positive weight and a score of at least one are blended into a positive weight. -/
theorem atLeast_blend (hr : worth r = some (exactly q)) (hq : 0 ≤ q) (hq' : q ≤ 1)
    (hweight : AtLeast least (view weight)) (hscore : AtLeast 1 (view score)) (huses : 0 < uses)
    (hle : uses ≤ 2 ^ 1023) : AtLeast least (view (blend r weight score uses)) := by
  have hleast := least_pos
  have hshare := atLeast_share hscore huses hle
  show AtLeast least (view ((Float.ofNat 1 - r) * weight + r * (score / Float.ofNat uses)))
  rw [view_add]
  by_cases hsmall : q ≤ 1 / 4
  · -- Enough is kept of the weight, and nothing negative is added.
    have hkept : AtLeast least (view ((Float.ofNat 1 - r) * weight)) := by
      have hrest : AtLeast (3 / 4) (view (Float.ofNat 1 - r)) := atLeast_complement hr hq hsmall
      rw [view_mul]
      exact survives_mul hrest hweight (formed_view _) (formed_view _)
    have hadded : Unsigned (view (r * (score / Float.ofNat uses))) := by
      rw [view_mul]
      exact unsigned_mul ((atLeast_of_value hr hq).unsigned le_rfl)
        (hshare.unsigned (by positivity)) (formed_view _) (formed_view _)
    exact atLeast_add hleast representable_least hkept (held_view _) hadded
  · -- Enough of the share is added to what is kept, which is not negative.
    have hkept : Unsigned (view ((Float.ofNat 1 - r) * weight)) := by
      rw [view_mul]
      exact unsigned_mul (unsigned_complement hr hq hq') (hweight.unsigned hleast.le)
        (formed_view _) (formed_view _)
    have hadded : AtLeast least (view (r * (score / Float.ofNat uses))) := by
      have hquarter : AtLeast (1 / 4) (view r) := atLeast_of_value hr (by linarith)
      have hproduct : least ≤ 1 / 4 * 2 ^ (-1023 : ℤ) := by
        unfold least
        rw [show (1 / 4 : ℚ) = 2 ^ (-2 : ℤ) by norm_num, ← zpow_add₀ (by norm_num)]
        exact two_zpow_le (by norm_num)
      rw [view_mul]
      exact atLeast_mul (by norm_num) (by positivity) representable_least hproduct hquarter hshare
        (formed_view _) (formed_view _)
    rw [add_commutes]
    exact atLeast_add hleast representable_least hadded (held_view _) hkept

end Pool

end LargeNeighborhood
