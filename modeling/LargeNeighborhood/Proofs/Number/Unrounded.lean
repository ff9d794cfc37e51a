import LargeNeighborhood.Proofs.Number.Nonnegative

set_option autoImplicit false

/-! # Results that rounding leaves alone

A result that has a mantissa of 53 bits itself comes out as it is (`Kept`). So differences, squares
and sums of whole numbers are exact as long as they stay within 53 bits.
-/

namespace LargeNeighborhood

open Float.Model Float.Model.UnpackedFloat

namespace Rounding

/-- A number that has a mantissa of 53 bits and is in range, be it negative or not. -/
structure Kept (x : ℚ) : Prop where
  representable : Representable |x|
  le : |x| ≤ 2 ^ (1023 : ℤ)

theorem kept_intCast {n : ℤ} (h : n.natAbs ≤ 2 ^ 53) : Kept n := by
  have habs : |(n : ℚ)| = (n.natAbs : ℕ) := by rw [Nat.cast_natAbs, Int.cast_abs]
  constructor
  · rw [habs]
    exact representable_natCast h
  · rw [habs]
    exact natCast_le_two_zpow h (by norm_num)

theorem kept_natCast {n : ℕ} (h : n ≤ 2 ^ 53) : Kept n := by
  have hkept := kept_intCast (n := n) (by omega)
  rwa [Int.cast_natCast] at hkept

/-- A magnitude with a sign. -/
def directed : Sign → ℚ → ℚ
  | .positive, x => x
  | .negative, x => -x

theorem abs_directed (s : Sign) {x : ℚ} (hx : 0 ≤ x) : |directed s x| = x := by
  cases s with
  | positive => exact abs_of_nonneg hx
  | negative => exact (abs_neg x).trans (abs_of_nonneg hx)

theorem value_finite (s : Sign) {m : ℕ} (e : ℤ) (hm : 0 < m) :
    value (.finite s m e hm) = some (exactly (directed s (scaled m e))) := by
  cases s <;> rfl

theorem Rounded.value_eq {s : Sign} {x : ℚ} {u : UnpackedFloat} (h : Rounded s x u)
    (hx : Kept (directed s x)) (hx0 : 0 ≤ x) :
    value (repack u) = some (exactly (directed s x)) := by
  have hrep : Representable x := abs_directed s hx0 ▸ hx.representable
  have hle : x ≤ 2 ^ (1023 : ℤ) := abs_directed s hx0 ▸ hx.le
  have hmagnitude := h.magnitude_eq hrep
  rw [h.repack_of_le hle]
  rcases h.form with rfl | ⟨m, e, hm, rfl, -⟩
  · have hzero : x = 0 := hmagnitude.symm
    cases s <;> simp [directed, hzero, value]
  · rw [value_finite, ← hmagnitude]
    rfl

theorem value_normalize (s : Sign) {z : ℤ} {t : ℤ} (h : Kept (z * 2 ^ t)) :
    value (repack (normalize .binary64 z t s)) = some (exactly (z * 2 ^ t)) := by
  unfold UnpackedFloat.normalize
  -- the sign is taken off, and what is left is rounded once
  rcases lt_trichotomy z 0 with hneg | rfl | hpos
  · have hcompare : compare z 0 = .lt := Int.compare_eq_lt.mpr hneg
    have hcast : (((-z).toNat : ℕ) : ℚ) = -z := by
      have hnat : (((-z).toNat : ℕ) : ℤ) = -z := by omega
      exact_mod_cast hnat
    have hvalue : directed .negative (scaled (-z).toNat t) = z * 2 ^ t := by
      unfold directed scaled
      rw [hcast]
      ring
    rw [hcompare, ← hvalue]
    exact (rounded_round .negative t (by omega)).value_eq (hvalue ▸ h) (scaled_nonneg _ t)
  · have hcompare : compare (0 : ℤ) 0 = .eq := rfl
    rw [hcompare]
    simp only [repack_zero, value, Int.cast_zero, zero_mul]
  · have hcompare : compare z 0 = .gt := Int.compare_eq_gt.mpr hpos
    have hcast : ((z.toNat : ℕ) : ℚ) = z := by
      have hnat : ((z.toNat : ℕ) : ℤ) = z := by omega
      exact_mod_cast hnat
    have hvalue : directed .positive (scaled z.toNat t) = z * 2 ^ t := by
      unfold directed scaled
      rw [hcast]
    rw [hcompare, ← hvalue]
    exact (rounded_round .positive t (by omega)).value_eq (hvalue ▸ h) (scaled_nonneg _ t)

/-- A magnitude with its sign is the same number at a smaller exponent. -/
theorem apply_decrease (s : Sign) (m : ℕ) {e t : ℤ} (h : t ≤ e) :
    ((s.apply (m * 2 ^ (e - t).toNat : ℕ) : ℤ) : ℚ) * 2 ^ t = directed s (scaled m e) := by
  rw [← scaled_decrease m h]
  cases s <;> simp [Sign.apply, directed, scaled]

section Operations

variable {x y : Float} {p q : ℚ}

/-- What is finite is a zero, or a magnitude with a sign. -/
theorem directed_cases (hx : worth x = some (exactly p)) :
    (p = 0 ∧ ∃ s, view x = .zero s) ∨
      ∃ s m e, ∃ hm : 0 < m, view x = .finite s m e hm ∧ p = directed s (scaled m e) := by
  unfold worth at hx
  rcases definite_cases hx with ⟨s, hs⟩ | ⟨s, m, e, hm, hu⟩
  · rw [hs] at hx
    cases hx
    exact Or.inl ⟨rfl, s, hs⟩
  · rw [hu, value_finite] at hx
    cases hx
    exact Or.inr ⟨s, m, e, hm, hu, rfl⟩

theorem worth_sub (hx : worth x = some (exactly p)) (hy : worth y = some (exactly q))
    (h : Kept (p - q)) : worth (x - y) = some (exactly (p - q)) := by
  unfold worth
  rw [view_sub]
  rcases directed_cases hx with ⟨rfl, s, hu⟩ | ⟨s, m, e, hm, hu, rfl⟩
  · rcases directed_cases hy with ⟨rfl, s', hv⟩ | ⟨s', m', e', hm', hv, rfl⟩
    · rw [hu, hv, sub_zero]
      cases s <;> cases s' <;> exact congrArg value (repack_zero _)
    · obtain ⟨hshape, he⟩ := shape_view hv
      have hsub : UnpackedFloat.sub .binary64 (.zero s) (.finite s' m' e' hm') =
          .finite (-s') m' e' hm' := rfl
      have hvalue : directed (-s') (scaled m' e') = 0 - directed s' (scaled m' e') := by
        cases s' <;> simp [directed]
      rw [hu, hv, hsub, repack_finite hm' hshape he, value_finite, hvalue]
  · rcases directed_cases hy with ⟨rfl, s', hv⟩ | ⟨s', m', e', hm', hv, rfl⟩
    · obtain ⟨hshape, he⟩ := shape_view hu
      have hsub : UnpackedFloat.sub .binary64 (.finite s m e hm) (.zero s') =
          .finite s m e hm := rfl
      rw [hu, hv, hsub, repack_finite hm hshape he, value_finite, sub_zero]
    · -- Both magnitudes are brought to the smaller exponent.
      have hsub : UnpackedFloat.sub .binary64 (.finite s m e hm) (.finite s' m' e' hm') =
          normalize .binary64 (s.apply (m * 2 ^ (e - min e e').toNat : ℕ) -
            s'.apply (m' * 2 ^ (e' - min e e').toNat : ℕ)) (min e e') .positive := by
        unfold UnpackedFloat.sub decreaseExponent
        simp only [Nat.shiftLeft_eq]
      have hvalue : ((s.apply (m * 2 ^ (e - min e e').toNat : ℕ) -
          s'.apply (m' * 2 ^ (e' - min e e').toNat : ℕ) : ℤ) : ℚ) * 2 ^ min e e' =
            directed s (scaled m e) - directed s' (scaled m' e') := by
        rw [Int.cast_sub, sub_mul, apply_decrease s m (min_le_left e e'),
          apply_decrease s' m' (min_le_right e e')]
      rw [hu, hv, hsub, ← hvalue]
      exact value_normalize .positive (hvalue ▸ h)

theorem worth_mul_self (hx : worth x = some (exactly p)) (h : Kept (p * p)) :
    worth (x * x) = some (exactly (p * p)) := by
  unfold worth
  rw [view_mul]
  rcases directed_cases hx with ⟨rfl, s, hu⟩ | ⟨s, m, e, hm, hu, rfl⟩
  · rw [hu, mul_zero]
    exact congrArg value (repack_zero _)
  · have hshape := (shape_view hu).1
    have hsquare : directed (s * s) (scaled m e * scaled m e) =
        directed s (scaled m e) * directed s (scaled m e) := by
      cases s
      · exact (neg_mul_neg _ _).symm
      · rfl
    rw [hu, ← hsquare]
    exact (rounded_mul s s hm hm hshape hshape).value_eq (hsquare ▸ h)
      (mul_nonneg (scaled_nonneg m e) (scaled_nonneg m e))

/-- A quotient of a number that is not negative and a positive one is exact if it has a mantissa of
53 bits and is in range. -/
theorem worth_div (hx : worth x = some (exactly p)) (hp : 0 ≤ p) (hy : worth y = some (exactly q))
    (hq : 0 < q) (h : Kept (p / q)) : worth (x / y) = some (exactly (p / q)) := by
  have hdivisor : ∃ m e, ∃ hm : 0 < m, view y = .finite .positive m e hm ∧ q = scaled m e := by
    rcases nonneg_cases hy hq.le with ⟨hzero, -⟩ | hfinite
    · exact absurd hzero hq.ne'
    · exact hfinite
  obtain ⟨m', e', hm', hv, rfl⟩ := hdivisor
  unfold worth
  rw [view_div, hv]
  rcases nonneg_cases hx hp with ⟨rfl, s, hu⟩ | ⟨m, e, hm, hu, rfl⟩
  · rw [hu, zero_div]
    exact congrArg value (repack_zero _)
  · rw [hu]
    exact (rounded_div .positive .positive e e' hm hm').value_eq h (div_nonneg hp hq.le)

theorem worth_add (hx : worth x = some (exactly p)) (hp : 0 ≤ p) (hy : worth y = some (exactly q))
    (hq : 0 ≤ q) (h : Kept (p + q)) : worth (x + y) = some (exactly (p + q)) := by
  rcases nonneg_cases hy hq with ⟨rfl, s, hs⟩ | ⟨m', e', hm', hv, rfl⟩
  · rw [worth_add_zero (zero_le_of_worth hx hp) (beq_zero_of_view hs), hx, add_zero]
  rcases nonneg_cases hx hp with ⟨rfl, s, hs⟩ | ⟨m, e, hm, hu, rfl⟩
  · have hcomm : worth (x + y) = worth (y + x) := by
      unfold worth
      rw [view_add, view_add, add_commutes]
    rw [hcomm, worth_add_zero (zero_le_of_worth hy hq) (beq_zero_of_view hs), hy, zero_add]
  · unfold worth
    rw [view_add, hu, hv]
    exact (rounded_add e e' hm hm').value_eq h (add_nonneg hp hq)

end Operations

/-! ## Whole parts -/

theorem quotient_eq {m n : ℕ} {e : ℤ} (hlow : n ≤ scaled m e) (hhigh : scaled m e < n + 1) :
    (Binary.magnitude m e).1 / (Binary.magnitude m e).2 = n := by
  have hden := Binary.magnitude_snd_pos m e
  have hden' : (0 : ℚ) < (Binary.magnitude m e).2 := by exact_mod_cast hden
  rw [← magnitude_ratio, le_div_iff₀ hden'] at hlow
  rw [← magnitude_ratio, div_lt_iff₀ hden'] at hhigh
  have hlow' : n * (Binary.magnitude m e).2 ≤ (Binary.magnitude m e).1 := by exact_mod_cast hlow
  have hhigh' : (Binary.magnitude m e).1 < (n + 1) * (Binary.magnitude m e).2 := by
    exact_mod_cast hhigh
  rw [Nat.div_eq_iff hden]
  rw [Nat.add_mul, Nat.one_mul] at hhigh'
  omega

/-- Cutting the fraction off a number that is not negative leaves its whole part. -/
theorem exists_truncate {x : Float} {r : ℚ} {n : ℕ} (hx : worth x = some (exactly r))
    (hlow : n ≤ r) (hhigh : r < n + 1) :
    ∃ negative m e, Binary.ofFloat x = .finite negative m e ∧ Binary.truncate negative m e = n := by
  have hr : 0 ≤ r := (Nat.cast_nonneg n).trans hlow
  have hwhole : ∀ {negative m e}, scaled m e = r → (n = 0 ∨ negative = false) →
      Binary.truncate negative m e = n := by
    intro negative m e hscaled hsign
    have hquotient : (Binary.magnitude m e).1 / (Binary.magnitude m e).2 = n :=
      quotient_eq (hscaled ▸ hlow) (hscaled ▸ hhigh)
    show Binary.signed negative ((Binary.magnitude m e).1 / (Binary.magnitude m e).2) = n
    rw [hquotient]
    -- a minus stands in front of nothing but a zero
    rcases hsign with rfl | rfl
    · cases negative <;> rfl
    · rfl
  rw [ofFloat_eq]
  rcases nonneg_cases hx hr with ⟨rfl, s, hs⟩ | ⟨m, e, hm, hu, rfl⟩
  · have hn : n = 0 := by
      have hle : n ≤ 0 := by exact_mod_cast hlow
      omega
    exact ⟨isNegative s, 0, -1074, congrArg toBinary hs,
      hwhole (by rw [scaled, Nat.cast_zero, zero_mul]) (Or.inl hn)⟩
  · exact ⟨false, m, e, congrArg toBinary hu, hwhole rfl (Or.inr rfl)⟩

theorem truncate_zero (negative : Bool) (e : ℤ) : Binary.truncate negative 0 e = 0 := by
  have hzero : (Binary.magnitude 0 e).1 = 0 := by
    unfold Binary.magnitude
    split
    · exact Nat.zero_mul _
    · rfl
  show Binary.signed negative ((Binary.magnitude 0 e).1 / (Binary.magnitude 0 e).2) = 0
  rw [hzero, Nat.zero_div]
  cases negative <;> rfl

/-- Cutting the fraction off a number that is not negative does not make it negative. -/
theorem truncate_nonneg {x : Float} (hx : Unsigned (view x)) {negative : Bool} {m : ℕ} {e : ℤ}
    (h : Binary.ofFloat x = .finite negative m e) : 0 ≤ Binary.truncate negative m e := by
  rw [ofFloat_eq] at h
  generalize view x = u at hx h
  cases hx with
  | undefined => cases h
  | infinity => cases h
  | zero s =>
      cases h
      exact (truncate_zero _ _).ge
  | finite m e hm =>
      cases h
      exact Int.natCast_nonneg _

end Rounding

end LargeNeighborhood
