import LargeNeighborhood.Proofs.Number.Blend

set_option autoImplicit false

/-! # Rounding keeps the order

The last place of an exact magnitude and the mantissa that it is rounded to there depend on the
magnitude alone, and a larger magnitude is not rounded to a smaller real (`Nearest.magnitude_le`):
at one last place the mantissas are in order, and with a larger last place there are 53 bits, which
is more than the smaller places reach. A sign in front of the magnitude turns the order round or
keeps it, and what is too large becomes infinite on its own side (`Rounds.exists_le`). So quotients
are in the order of the exact quotients.
-/

namespace LargeNeighborhood

open Float.Model Float.Model.UnpackedFloat

namespace Rounding

/-! ## Magnitudes -/

/-- A mantissa is rounded down below the half, up above it, and to the even one on it. -/
theorem roundedMantissa_eq {em : ExtendedMantissa} {x : ℚ} (h : Marks em x) :
    em.roundedMantissa = em.mantissa +
      if x < em.mantissa + 1 / 2 then 0 else if em.mantissa + 1 / 2 < x then 1
      else em.mantissa % 2 := by
  obtain ⟨m, r, s⟩ := em
  cases r <;> cases s <;> simp only [Marks] at h
  · rw [if_pos (by linarith)]
    rfl
  · rw [if_pos h.2]
    rfl
  · rw [if_neg (by linarith), if_neg (by linarith)]
    rfl
  · rw [if_neg (by linarith [h.1]), if_pos h.1]
    rfl

/-- The larger of two exact mantissas is not rounded to the smaller whole number. -/
theorem roundedMantissa_mono {em em' : ExtendedMantissa} {x y : ℚ} (hx : Marks em x)
    (hy : Marks em' y) (h : x ≤ y) : em.roundedMantissa ≤ em'.roundedMantissa := by
  have hlt : em.mantissa < em'.mantissa + 1 := by
    have hlt : (em.mantissa : ℚ) < (em'.mantissa + 1 : ℕ) := by
      push_cast
      linarith [mantissa_le hx, lt_mantissa hy]
    exact_mod_cast hlt
  rw [roundedMantissa_eq hx, roundedMantissa_eq hy]
  rcases (Nat.lt_succ_iff.mp hlt).lt_or_eq with hlt | heq
  · split_ifs <;> omega
  · -- On one mantissa the two lie on the same side of the half, or in order on both sides of it.
    rw [heq]
    by_cases hdown : x < em'.mantissa + 1 / 2
    · rw [if_pos hdown]
      omega
    · rw [if_neg hdown, if_neg (by linarith : ¬ y < em'.mantissa + 1 / 2)]
      by_cases hup : em'.mantissa + 1 / 2 < y
      · rw [if_pos hup]
        split_ifs <;> omega
      · rw [if_neg hup, if_neg (by linarith : ¬ em'.mantissa + 1 / 2 < x)]

/-- A larger magnitude is not rounded to a smaller one, whatever the signs. -/
theorem Nearest.magnitude_le {s s' : Sign} {x y : ℚ} {u v : UnpackedFloat} (hu : Nearest s x u)
    (hv : Nearest s' y v) (h : x ≤ y) : magnitude u ≤ magnitude v := by
  obtain ⟨em, t, hplace, rfl⟩ := hu
  obtain ⟨em', t', hplace', rfl⟩ := hv
  have hr := roundedMantissa_le hplace.marks (n := 2 ^ 53) (by exact_mod_cast hplace.short.le)
  have hr' := roundedMantissa_le hplace'.marks (n := 2 ^ 53) (by exact_mod_cast hplace'.short.le)
  rw [magnitude_carried s hr, magnitude_carried s' hr']
  have hpos : ∀ t : ℤ, (0 : ℚ) < 2 ^ t := fun t => by positivity
  have hfar : ∀ {t t' : ℤ}, t < t' → (2 : ℚ) ^ 53 * 2 ^ t ≤ 2 ^ 52 * 2 ^ t' := by
    intro t t' hlt
    calc (2 : ℚ) ^ 53 * 2 ^ t = 2 ^ ((53 : ℕ) + t) := by
          rw [zpow_add₀ (by norm_num), zpow_natCast]
      _ ≤ 2 ^ ((52 : ℕ) + t') := two_zpow_le (by push_cast; omega)
      _ = 2 ^ 52 * 2 ^ t' := by rw [zpow_add₀ (by norm_num), zpow_natCast]
  rcases lt_trichotomy t t' with hlt | rfl | hlt
  · have hleast := hplace.least
    have hlong := le_roundedMantissa hplace'.marks (n := 2 ^ 52)
      (by exact_mod_cast hplace'.long (by omega))
    have hshort' : (em.roundedMantissa : ℚ) ≤ 2 ^ 53 := by exact_mod_cast hr
    have hlong' : (2 : ℚ) ^ 52 ≤ em'.roundedMantissa := by exact_mod_cast hlong
    calc scaled em.roundedMantissa t ≤ 2 ^ 53 * 2 ^ t :=
          mul_le_mul_of_nonneg_right hshort' (hpos t).le
      _ ≤ 2 ^ 52 * 2 ^ t' := hfar hlt
      _ ≤ scaled em'.roundedMantissa t' := mul_le_mul_of_nonneg_right hlong' (hpos t').le
  · have hmantissa := roundedMantissa_mono hplace.marks hplace'.marks
      (div_le_div_of_nonneg_right h (hpos t).le)
    have hmantissa' : (em.roundedMantissa : ℚ) ≤ em'.roundedMantissa := by exact_mod_cast hmantissa
    exact mul_le_mul_of_nonneg_right hmantissa' (hpos t).le
  · -- The smaller magnitude would have the larger last place.
    have hleast := hplace'.least
    have hlong := (le_div_iff₀ (hpos t)).mp (hplace.long (by omega))
    have hshort := (div_lt_iff₀ (hpos t')).mp hplace'.short
    have hgap := hfar hlt
    linarith

namespace Rounded

variable {s : Sign} {x y : ℚ} {u v : UnpackedFloat}

/-- Of two magnitudes in order, the larger one becomes infinite or both are kept as they are. -/
theorem repack_of_magnitude_le (hu : Rounded s x u) (hv : Rounded s y v)
    (h : magnitude u ≤ magnitude v) : repack v = .infinity s ∨ repack u = u ∧ repack v = v := by
  rcases hv.form with rfl | ⟨m', e', hm', rfl, hshape'⟩
  · rcases hu.form with rfl | ⟨m, e, hm, rfl, -⟩
    · exact Or.inr ⟨repack_zero s, repack_zero s⟩
    · exact absurd h (not_le.mpr (scaled_pos hm e))
  by_cases he' : e' ≤ 971
  · refine Or.inr ⟨?_, repack_finite hm' hshape' he'⟩
    rcases hu.form with rfl | ⟨m, e, hm, rfl, hshape⟩
    · exact repack_zero s
    · apply repack_finite hm hshape
      by_contra he
      exact absurd h (not_le.mpr (scaled_lt_scaled hshape' hshape (by omega)))
  · exact Or.inl (repack_large hm' (by omega))

theorem value_positive (h : Rounded .positive x u) : value u = some (exactly (magnitude u)) := by
  rcases h.form with rfl | ⟨m, e, hm, rfl, -⟩ <;> rfl

theorem value_negative (h : Rounded .negative x u) : value u = some (exactly (-magnitude u)) := by
  rcases h.form with rfl | ⟨m, e, hm, rfl, -⟩
  · show some (exactly 0) = some (exactly (-0))
    rw [neg_zero]
  · rfl

end Rounded

/-! ## Numbers with a sign -/

/-- The real that an exact number is rounded to. It may be infinite. -/
inductive Rounds : ℚ → UnpackedFloat → Prop
  | zero (s : Sign) : Rounds 0 (.zero s)
  | positive {x : ℚ} {u : UnpackedFloat} (hx : 0 < x) (h : Nearest .positive x u) :
      Rounds x (repack u)
  | negative {x : ℚ} {u : UnpackedFloat} (hx : 0 < x) (h : Nearest .negative x u) :
      Rounds (-x) (repack u)

namespace Rounds

variable {x y : ℚ} {u v : UnpackedFloat}

theorem exists_nonneg (h : Rounds x u) (hx : 0 ≤ x) : ∃ p, value u = some p ∧ exactly 0 ≤ p := by
  cases h with
  | zero s => exact ⟨_, rfl, le_rfl⟩
  | positive _ h =>
      have hzero : Representable 0 := by simpa using representable_natCast (Nat.zero_le (2 ^ 53))
      exact h.rounded.le_value hzero hx
  | negative hpos h => linarith

theorem exists_nonpos (h : Rounds x u) (hx : x ≤ 0) : ∃ p, value u = some p ∧ p ≤ exactly 0 := by
  cases h with
  | zero s => exact ⟨_, rfl, le_rfl⟩
  | positive hpos h => linarith
  | negative _ h => exact h.rounded.value_nonpos

/-- Rounding keeps the order of exact numbers. -/
theorem exists_le (hu : Rounds x u) (hv : Rounds y v) (h : x ≤ y) :
    ∃ p q, value u = some p ∧ value v = some q ∧ p ≤ q := by
  -- Zero lies between numbers of different signs.
  have hacross : x ≤ 0 → 0 ≤ y → ∃ p q, value u = some p ∧ value v = some q ∧ p ≤ q := by
    intro hx hy
    obtain ⟨p, hp, hp0⟩ := hu.exists_nonpos hx
    obtain ⟨q, hq, hq0⟩ := hv.exists_nonneg hy
    exact ⟨p, q, hp, hq, hp0.trans hq0⟩
  cases hu with
  | zero s => exact hacross le_rfl h
  | @positive _ u hx hu =>
      cases hv with
      | zero s => linarith
      | negative hy hv => linarith
      | @positive _ v hy hv =>
          rcases hu.rounded.repack_of_magnitude_le hv.rounded (hu.magnitude_le hv h) with
            hinf | ⟨hkeep, hkeep'⟩
          · obtain ⟨p, hp, -⟩ := (Rounds.positive hx hu).exists_nonneg hx.le
            exact ⟨p, ⊤, hp, by rw [hinf]; rfl, le_top⟩
          · rw [hkeep, hkeep', hu.rounded.value_positive, hv.rounded.value_positive]
            exact ⟨_, _, rfl, rfl, exactly_le_exactly.mpr (hu.magnitude_le hv h)⟩
  | @negative x u hx hu =>
      cases hv with
      | zero s => exact hacross (by linarith) le_rfl
      | positive hy hv => exact hacross (by linarith) hy.le
      | @negative y v hy hv =>
          have hmagnitude := hv.magnitude_le hu (by linarith)
          rcases hv.rounded.repack_of_magnitude_le hu.rounded hmagnitude with
            hinf | ⟨hkeep, hkeep'⟩
          · obtain ⟨q, hq, -⟩ := (Rounds.negative hy hv).exists_nonpos (by linarith)
            exact ⟨⊥, q, by rw [hinf]; rfl, hq, bot_le⟩
          · rw [hkeep, hkeep', hu.rounded.value_negative, hv.rounded.value_negative]
            exact ⟨_, _, rfl, rfl, exactly_le_exactly.mpr (neg_le_neg hmagnitude)⟩

end Rounds

/-! ## Quotients -/

/-- A quotient by a positive number that is finite is what the exact quotient is rounded to. -/
theorem rounds_div {u : UnpackedFloat} {p : ℚ} (hu : value u = some (exactly p)) {m : ℕ} (e : ℤ)
    (hm : 0 < m) : Rounds (p / scaled m e)
      (repack (UnpackedFloat.div .binary64 u (.finite .positive m e hm))) := by
  rcases definite_cases hu with ⟨s, rfl⟩ | ⟨s, m', e', hm', rfl⟩
  · cases hu
    rw [zero_div]
    show Rounds 0 (repack (.zero _))
    rw [repack_zero]
    exact .zero _
  · have hpos : 0 < scaled m' e' / scaled m e := div_pos (scaled_pos hm' e') (scaled_pos hm e)
    cases s with
    | positive =>
        cases hu
        exact .positive hpos (nearest_div .positive .positive e' e hm' hm)
    | negative =>
        cases hu
        rw [neg_div]
        exact .negative hpos (nearest_div .negative .positive e' e hm' hm)

/-- The larger of two numbers is also larger when both are divided by something positive. -/
theorem real_div_le_div {x y t : Float} {p q : ℚ} (hx : worth x = some (exactly p))
    (hy : worth y = some (exactly q)) (h : p ≤ q) (ht : 0 < t) : x / t ≤ y / t := by
  have hpositive : ∀ r, value (view t) = some r → exactly 0 < r := by
    intro r hr
    obtain ⟨r', hr', hlt⟩ := zero_lt_iff.mp ht
    cases hr.symm.trans hr'
    exact hlt
  suffices hquotients : ∃ a b, worth (x / t) = some a ∧ worth (y / t) = some b ∧ a ≤ b by
    obtain ⟨a, b, ha, hb, hab⟩ := hquotients
    exact le_iff.mpr ⟨a, b, ha, hb, hab⟩
  unfold worth
  rw [view_div, view_div]
  rcases positive_cases hpositive with hview | hview | ⟨m, e, hm, hview⟩
  · -- What is undefined is not positive.
    obtain ⟨r, hr, -⟩ := zero_lt_iff.mp ht
    unfold worth at hr
    rw [hview] at hr
    cases hr
  · -- By an infinity both become zero.
    have hzero : ∀ {z : Float} {r : ℚ}, worth z = some (exactly r) →
        value (repack (UnpackedFloat.div .binary64 (view z) (.infinity .positive))) =
          some (exactly 0) := by
      intro z r hz
      rcases definite_cases hz with ⟨s, hs⟩ | ⟨s, m, e, hm, hs⟩ <;>
        rw [hs] <;> exact congrArg value (repack_zero _)
    rw [hview]
    exact ⟨_, _, hzero hx, hzero hy, le_rfl⟩
  · rw [hview]
    exact (rounds_div hx e hm).exists_le (rounds_div hy e hm)
      (div_le_div_of_nonneg_right h (scaled_nonneg m e))

theorem rounds_nearestRatio (a : ℤ) {b : ℤ} (hb : 0 < b) :
    Rounds ((a : ℚ) / b) (view (nearestRatio a b)) := by
  have hdivisor : scaled b.natAbs 0 = b := by
    rw [scaled_zero_exponent, Nat.cast_natAbs, abs_of_pos hb]
  have hdividend : value (unrounded a) = some (exactly a) := by
    rcases lt_trichotomy a 0 with ha | rfl | ha
    · have hvalue : -scaled a.natAbs 0 = a := by
        rw [scaled_zero_exponent, Nat.cast_natAbs, abs_of_neg ha]
        simp
      rw [unrounded_of_neg ha, ← hvalue]
      rfl
    · rw [Int.cast_zero]
      rfl
    · have hvalue : scaled a.natAbs 0 = a := by
        rw [scaled_zero_exponent, Nat.cast_natAbs, abs_of_pos ha]
      rw [unrounded_of_pos ha, ← hvalue]
      rfl
  rw [view_nearestRatio, unrounded_of_pos hb, ← hdivisor]
  exact rounds_div hdividend 0 _

/-- The reals of two shares are in the order of the shares. -/
theorem nearestRatio_mono {a b c d : ℤ} (hb : 0 < b) (hd : 0 < d) (h : (a : ℚ) / b ≤ (c : ℚ) / d) :
    nearestRatio a b ≤ nearestRatio c d := by
  obtain ⟨p, q, hp, hq, hpq⟩ := (rounds_nearestRatio a hb).exists_le (rounds_nearestRatio c hd) h
  exact le_iff.mpr ⟨p, q, hp, hq, hpq⟩

end Rounding

end LargeNeighborhood
