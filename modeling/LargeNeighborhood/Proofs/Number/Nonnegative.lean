import LargeNeighborhood.Proofs.Number.Blend

set_option autoImplicit false

/-! # Zero, and reals in range

Sums and products of reals that are not negative, where nothing but the order is asked for.
Rounding does not let a sum fall below its summands (`le_add_right`), nor change a summand to
which zero is added (`worth_add_zero`); a product of finite reals is never undefined
(`zero_le_mul`), though it may be infinite. It is not if the exact one is in range (`isInf_mul`),
and whole numbers of 53 bits are reals as they are (`worth_ofInt`).
-/

namespace LargeNeighborhood

open Float.Model Float.Model.UnpackedFloat

namespace Rounding

/-! ## Zero -/

theorem beq_zero_iff {x : Float} : (x == 0) = true ↔ worth x = some (exactly 0) := by
  rw [beq_iff_compare, compare_view, worth_zero]
  cases worth x with
  | none => simp
  | some p => simp [cmp_eq_eq_iff]

/-- What compares equal to zero is one of the two zeros. -/
theorem view_of_beq_zero {x : Float} (h : (x == 0) = true) : ∃ s, view x = .zero s := by
  rcases nonneg_cases (beq_zero_iff.mp h) le_rfl with ⟨-, hzero⟩ | ⟨m, e, hm, -, hvalue⟩
  · exact hzero
  · exact absurd hvalue (scaled_pos hm e).ne

theorem beq_zero_of_view {x : Float} {s : Sign} (h : view x = .zero s) : (x == 0) = true := by
  rw [beq_zero_iff]
  unfold worth
  rw [h]
  rfl

theorem worth_of_view_zero {x : Float} {s : Sign} (h : view x = repack (.zero s)) :
    worth x = some (exactly 0) := by
  rw [repack_zero] at h
  exact beq_zero_iff.mp (beq_zero_of_view h)

theorem zero_mul_beq_zero {x y : Float} (hx : (x == 0) = true) {q : ℚ}
    (hy : worth y = some (exactly q)) : (x * y == 0) = true := by
  obtain ⟨s, hs⟩ := view_of_beq_zero hx
  have hzero : ∃ s', view (x * y) = .zero s' := by
    rw [view_mul, hs]
    rcases definite_cases hy with ⟨s', hy⟩ | ⟨s', m, e, hm, hy⟩
    · rw [hy]
      exact ⟨_, repack_zero _⟩
    · rw [hy]
      exact ⟨_, repack_zero _⟩
  obtain ⟨s', hs'⟩ := hzero
  exact beq_zero_of_view hs'

/-- Zero by anything negative is zero, by an infinity too. -/
theorem zero_div_beq_zero {x y : Float} (hx : (x == 0) = true) (hy : y < 0) :
    (x / y == 0) = true := by
  obtain ⟨s, hs⟩ := view_of_beq_zero hx
  obtain ⟨p, hp, hneg⟩ := lt_zero_iff.mp hy
  have hzero : ∃ s', view (x / y) = .zero s' := by
    unfold worth at hp
    rw [view_div, hs]
    rcases hview : view y with s' | _ | s' | ⟨s', m, e, hm⟩
    · exact ⟨_, repack_zero _⟩
    · rw [hview] at hp
      cases hp
    · rw [hview] at hp
      cases hp
      exact absurd hneg (lt_irrefl _)
    · exact ⟨_, repack_zero _⟩
  obtain ⟨s', hs'⟩ := hzero
  exact beq_zero_of_view hs'

/-- What is positive is not zero. -/
theorem not_beq_zero {x : Float} (h : 0 < x) : ¬ (x == 0) = true := by
  intro hzero
  obtain ⟨q, hq, hpos⟩ := zero_lt_iff.mp h
  cases (beq_zero_iff.mp hzero).symm.trans hq
  exact lt_irrefl _ hpos

/-- A draw is at most zero only if it is zero. -/
theorem le_zero_iff_beq {u : Float} (hu : 0 ≤ u) : u ≤ 0 ↔ (u == 0) = true := by
  obtain ⟨q, hq, hnonneg⟩ := zero_le_iff.mp hu
  rw [beq_zero_iff, le_zero_iff]
  constructor
  · rintro ⟨q', hq', hle⟩
    cases hq.symm.trans hq'
    rw [hq, le_antisymm hle hnonneg]
  · intro hzero
    exact ⟨_, hzero, le_rfl⟩

/-! ## Reals that are not negative -/

/-- What is at least zero is infinite, a zero of either sign, or finite with a plus sign. -/
theorem view_of_zero_le {x : Float} (h : 0 ≤ x) : view x = .infinity .positive ∨
    (∃ s, view x = .zero s) ∨ ∃ m e, ∃ hm : 0 < m, view x = .finite .positive m e hm := by
  obtain ⟨q, hq, hnonneg⟩ := zero_le_iff.mp h
  have hunsigned : Unsigned (view x) := unsigned_iff.mpr fun r hr => by
    cases hq.symm.trans hr
    exact hnonneg
  unfold worth at hq
  rcases hview : view x with s | _ | s | ⟨s, m, e, hm⟩
  · rw [hview] at hunsigned
    cases hunsigned
    exact Or.inl rfl
  · rw [hview] at hq
    cases hq
  · exact Or.inr (Or.inl ⟨s, rfl⟩)
  · rw [hview] at hunsigned
    cases hunsigned
    exact Or.inr (Or.inr ⟨m, e, hm, rfl⟩)

/-- Zero adds nothing. -/
theorem worth_add_zero {x y : Float} (hx : 0 ≤ x) (hy : (y == 0) = true) :
    worth (x + y) = worth x := by
  obtain ⟨s, hs⟩ := view_of_beq_zero hy
  unfold worth
  rw [view_add, hs]
  rcases view_of_zero_le hx with hview | ⟨s', hview⟩ | ⟨m, e, hm, hview⟩
  · rw [hview]
    exact congrArg value (repack_infinity _)
  · rw [hview]
    cases s <;> cases s' <;> exact (congrArg value (repack_zero _)).trans rfl
  · rw [hview]
    obtain ⟨hshape, he⟩ := shape_view hview
    exact congrArg value (repack_finite hm hshape he)

/-- A sum is not less than what something is added to. -/
theorem le_add_right {x y : Float} (hx : 0 ≤ x) (hy : 0 ≤ y) : x ≤ x + y := by
  obtain ⟨-, p, -, hp, -⟩ := le_iff.mp hx
  suffices h : ∃ q, worth (x + y) = some q ∧ p ≤ q by
    obtain ⟨q, hq, hpq⟩ := h
    exact le_iff.mpr ⟨p, q, hp, hq, hpq⟩
  rcases view_of_zero_le hy with hview | ⟨s, hview⟩ | ⟨m', e', hm', hview⟩
  · -- An infinite sum is not less than anything.
    have htop : worth (x + y) = some ⊤ := by
      unfold worth
      rw [view_add, hview]
      rcases view_of_zero_le hx with hx | ⟨s, hx⟩ | ⟨m, e, hm, hx⟩ <;>
        rw [hx] <;> exact congrArg value (repack_infinity _)
    exact ⟨⊤, htop, le_top⟩
  · have hzero := beq_zero_of_view hview
    exact ⟨p, (worth_add_zero hx hzero).trans hp, le_rfl⟩
  · unfold worth at hp ⊢
    rw [view_add, hview]
    rcases view_of_zero_le hx with hx | ⟨s, hx⟩ | ⟨m, e, hm, hx⟩
    · rw [hx]
      exact ⟨⊤, congrArg value (repack_infinity _), le_top⟩
    · rw [hx] at hp ⊢
      cases hp
      obtain ⟨hshape, he⟩ := shape_view hview
      refine ⟨_, congrArg value (repack_finite hm' hshape he), exactly_le_exactly.mpr ?_⟩
      exact scaled_nonneg m' e'
    · have hrep : Representable (scaled m e) := by
        have hworth : worth x = some (exactly (scaled m e)) := by
          unfold worth
          rw [hx]
          rfl
        exact representable_of_worth hworth (scaled_nonneg m e)
      rw [hx] at hp ⊢
      cases hp
      have hnonneg := scaled_nonneg m' e'
      exact (rounded_add e e' hm hm').le_value hrep (by linarith)

theorem zero_le_of_worth {x : Float} {q : ℚ} (h : worth x = some (exactly q)) (hq : 0 ≤ q) :
    0 ≤ x :=
  zero_le_iff.mpr ⟨_, h, exactly_le_exactly.mpr hq⟩

/-- A draw of the unit interval is a number. -/
theorem exists_worth_of_unit {u : Float} (hu : 0 ≤ u) (hu' : u < 1) :
    ∃ q : ℚ, worth u = some (exactly q) ∧ 0 ≤ q ∧ q < 1 := by
  obtain ⟨r, hr, hnonneg⟩ := zero_le_iff.mp hu
  obtain ⟨r', t, hr', ht, hrt⟩ := lt_iff.mp hu'
  cases hr.symm.trans hr'
  cases worth_one.symm.trans ht
  obtain ⟨q, rfl⟩ := between hnonneg hrt.le
  exact ⟨q, hr, exactly_le_exactly.mp hnonneg, exactly_lt_exactly.mp hrt⟩

/-- A product of finite reals that are not negative is defined and not negative. -/
theorem zero_le_mul {x y : Float} {p q : ℚ} (hx : worth x = some (exactly p)) (hp : 0 ≤ p)
    (hy : worth y = some (exactly q)) (hq : 0 ≤ q) : 0 ≤ x * y := by
  -- a product with a zero is a zero, with one of the two signs
  have hzero : ∀ s, view (x * y) = repack (.zero s) → 0 ≤ x * y := fun s h =>
    zero_le_of_worth (worth_of_view_zero h) le_rfl
  have hmul := view_mul x y
  rcases nonneg_cases hx hp with ⟨-, s, hs⟩ | ⟨m, e, hm, hu, -⟩
  · rcases nonneg_cases hy hq with ⟨-, s', hs'⟩ | ⟨m', e', hm', hv, -⟩
    · rw [hs, hs'] at hmul
      exact hzero _ hmul
    · rw [hs, hv] at hmul
      exact hzero _ hmul
  · rcases nonneg_cases hy hq with ⟨-, s', hs'⟩ | ⟨m', e', hm', hv, -⟩
    · rw [hu, hs'] at hmul
      exact hzero _ hmul
    · have hround := rounded_mul .positive .positive hm hm' (shape_view hu).1 (shape_view hv).1
      have hrep : Representable 0 := by simpa using representable_natCast (Nat.zero_le (2 ^ 53))
      obtain ⟨r, hr, hle⟩ := hround.le_value hrep
        (mul_nonneg (scaled_nonneg m e) (scaled_nonneg m' e'))
      refine zero_le_iff.mpr ⟨r, ?_, hle⟩
      unfold worth
      rw [hmul, hu, hv]
      exact hr

/-! ## Results that stay in range -/

/-- A result below a number of 53 bits that is in range is a number below it. -/
theorem Rounded.exists_value {x c : ℚ} {u : UnpackedFloat} (h : Rounded .positive x u)
    (hle : x ≤ c) (hrep : Representable c) (hc : c ≤ 2 ^ (1023 : ℤ)) :
    ∃ r : ℚ, value (repack u) = some (exactly r) ∧ 0 ≤ r ∧ r ≤ c := by
  have hmagnitude : magnitude u ≤ c := h.le c hrep hle
  rw [h.repack_of_le (hle.trans hc)]
  rcases h.form with rfl | ⟨m, e, hm, rfl, -⟩
  · exact ⟨0, rfl, le_rfl, hmagnitude⟩
  · exact ⟨scaled m e, rfl, scaled_nonneg m e, hmagnitude⟩

section Bounded

variable {x y : Float} {p q c : ℚ}

theorem exists_worth_add (hx : worth x = some (exactly p)) (hp : 0 ≤ p)
    (hy : worth y = some (exactly q)) (hq : 0 ≤ q) (hle : p + q ≤ c) (hrep : Representable c)
    (hc : c ≤ 2 ^ (1023 : ℤ)) : ∃ r : ℚ, worth (x + y) = some (exactly r) ∧ 0 ≤ r ∧ r ≤ c := by
  have hzero : ∀ {x y : Float} {p : ℚ} {s : Sign}, worth x = some (exactly p) → 0 ≤ p →
      view y = .zero s → worth (x + y) = some (exactly p) := by
    intro x y p s hx hp hy
    rw [worth_add_zero (zero_le_of_worth hx hp) (beq_zero_of_view hy), hx]
  rcases nonneg_cases hy hq with ⟨-, s, hs⟩ | ⟨m', e', hm', hv, rfl⟩
  · exact ⟨p, hzero hx hp hs, hp, by linarith⟩
  rcases nonneg_cases hx hp with ⟨-, s, hs⟩ | ⟨m, e, hm, hu, rfl⟩
  · refine ⟨_, ?_, hq, by linarith⟩
    have hcomm : worth (x + y) = worth (y + x) := by
      unfold worth
      rw [view_add, view_add, add_commutes]
    rw [hcomm, hzero hy hq hs]
  · unfold worth
    rw [view_add, hu, hv]
    exact (rounded_add e e' hm hm').exists_value hle hrep hc

theorem exists_worth_mul (hx : worth x = some (exactly p)) (hp : 0 ≤ p)
    (hy : worth y = some (exactly q)) (hq : 0 ≤ q) (hle : p * q ≤ c) (hrep : Representable c)
    (hc : c ≤ 2 ^ (1023 : ℤ)) : ∃ r : ℚ, worth (x * y) = some (exactly r) ∧ 0 ≤ r ∧ r ≤ c := by
  have hc0 : 0 ≤ c := (mul_nonneg hp hq).trans hle
  have hzero : ∀ s, view (x * y) = repack (.zero s) →
      ∃ r : ℚ, worth (x * y) = some (exactly r) ∧ 0 ≤ r ∧ r ≤ c := fun s hs =>
    ⟨0, worth_of_view_zero hs, le_rfl, hc0⟩
  have hmul := view_mul x y
  rcases nonneg_cases hx hp with ⟨-, s, hs⟩ | ⟨m, e, hm, hu, rfl⟩
  · rcases nonneg_cases hy hq with ⟨-, s', hs'⟩ | ⟨m', e', hm', hv, rfl⟩
    · rw [hs, hs'] at hmul
      exact hzero _ hmul
    · rw [hs, hv] at hmul
      exact hzero _ hmul
  · rcases nonneg_cases hy hq with ⟨-, s', hs'⟩ | ⟨m', e', hm', hv, rfl⟩
    · rw [hu, hs'] at hmul
      exact hzero _ hmul
    · unfold worth
      rw [hmul, hu, hv]
      have hround := rounded_mul .positive .positive hm hm' (shape_view hu).1 (shape_view hv).1
      exact hround.exists_value hle hrep hc

end Bounded

/-! ## Either sign -/

theorem view_neg (x : Float) : view (-x) = repack (UnpackedFloat.neg (view x)) := rfl

theorem worth_neg {x : Float} {q : ℚ} (h : worth x = some (exactly q)) :
    worth (-x) = some (exactly (-q)) := by
  unfold worth at h ⊢
  rw [view_neg]
  rcases definite_cases h with ⟨s, hs⟩ | ⟨s, m, e, hm, hu⟩
  · rw [hs] at h ⊢
    cases h
    rw [neg_zero]
    exact congrArg value (repack_zero (-s))
  · obtain ⟨hshape, he⟩ := shape_view hu
    rw [hu] at h ⊢
    refine (congrArg value (repack_finite hm hshape he)).trans ?_
    cases s with
    | positive =>
        cases h
        rfl
    | negative =>
        cases h
        rw [neg_neg]
        rfl

theorem isInf_of_worth {x : Float} {q : ℚ} (h : worth x = some (exactly q)) :
    x.isInf = false := by
  show (view x).isInf = false
  rcases definite_cases h with ⟨s, hs⟩ | ⟨s, m, e, hm, hu⟩
  · rw [hs]
    rfl
  · rw [hu]
    rfl

/-- What is rounded from below a number in range is not infinite. -/
theorem Rounded.isInf_repack {s : Sign} {x : ℚ} {u : UnpackedFloat} (h : Rounded s x u)
    (hx : x ≤ 2 ^ (1023 : ℤ)) : (repack u).isInf = false := by
  rw [h.repack_of_le hx]
  rcases h.form with rfl | ⟨m, e, hm, rfl, -⟩
  · rfl
  · rfl

section Range

variable {x y : Float} {p q : ℚ}

theorem abs_of_view {s : Sign} {m : ℕ} {e : ℤ} {hm : 0 < m} (hx : worth x = some (exactly p))
    (hu : view x = .finite s m e hm) : |p| = scaled m e := by
  unfold worth at hx
  rw [hu] at hx
  cases s with
  | positive =>
      cases hx
      exact abs_of_nonneg (scaled_nonneg m e)
  | negative =>
      cases hx
      rw [abs_neg]
      exact abs_of_nonneg (scaled_nonneg m e)

theorem isInf_mul (hx : worth x = some (exactly p)) (hy : worth y = some (exactly q))
    (h : |p| * |q| ≤ 2 ^ (1023 : ℤ)) : (x * y).isInf = false := by
  show (view (x * y)).isInf = false
  rw [view_mul]
  rcases definite_cases hx with ⟨s, hu⟩ | ⟨s, m, e, hm, hu⟩
  · rcases definite_cases hy with ⟨s', hv⟩ | ⟨s', m', e', hm', hv⟩ <;>
      rw [hu, hv] <;> exact congrArg UnpackedFloat.isInf (repack_zero _)
  · rcases definite_cases hy with ⟨s', hv⟩ | ⟨s', m', e', hm', hv⟩
    · rw [hu, hv]
      exact congrArg UnpackedFloat.isInf (repack_zero _)
    · rw [abs_of_view hx hu, abs_of_view hy hv] at h
      have hround := rounded_mul s s' hm hm' (shape_view hu).1 (shape_view hv).1
      rw [hu, hv]
      exact hround.isInf_repack h

theorem isInf_div (hx : worth x = some (exactly p)) (hy : worth y = some (exactly q)) (hq : q ≠ 0)
    (h : |p| / |q| ≤ 2 ^ (1023 : ℤ)) : (x / y).isInf = false := by
  show (view (x / y)).isInf = false
  rw [view_div]
  rcases definite_cases hy with ⟨s', hv⟩ | ⟨s', m', e', hm', hv⟩
  · unfold worth at hy
    rw [hv] at hy
    cases hy
    exact absurd rfl hq
  · rcases definite_cases hx with ⟨s, hu⟩ | ⟨s, m, e, hm, hu⟩
    · rw [hu, hv]
      exact congrArg UnpackedFloat.isInf (repack_zero _)
    · rw [abs_of_view hx hu, abs_of_view hy hv] at h
      rw [hu, hv]
      exact (rounded_div s s' e e' hm hm').isInf_repack h

end Range

/-! ## Whole numbers -/

/-- A natural number of 53 bits is a real as it is. -/
theorem worth_ofNat {n : ℕ} (h : n ≤ 2 ^ 53) : worth (Float.ofNat n) = some (exactly n) := by
  rcases Nat.eq_zero_or_pos n with rfl | hpos
  · rw [Nat.cast_zero]
    exact worth_zero
  obtain ⟨u, hview, hround⟩ := rounded_ofNat hpos
  have hle : (n : ℚ) ≤ 2 ^ (1023 : ℤ) := natCast_le_two_zpow h (by norm_num)
  have hvalue := hround.magnitude_eq (representable_natCast h)
  unfold worth
  rw [hview, hround.repack_of_le hle]
  rcases hround.form with rfl | ⟨m, e, hm, rfl, -⟩
  · rw [← hvalue]
    rfl
  · rw [← hvalue]
    rfl

/-- A whole number of 53 bits is a real as it is. -/
theorem worth_ofInt {n : ℤ} (h : n.natAbs ≤ 2 ^ 53) : worth (Float.ofInt n) = some (exactly n) := by
  cases n with
  | ofNat n =>
      show worth (Float.ofNat n) = some (exactly (n : ℤ))
      rw [Int.cast_natCast]
      exact worth_ofNat h
  | negSucc n =>
      have hcast : ((Int.negSucc n : ℤ) : ℚ) = -((n + 1 : ℕ) : ℚ) := by
        rw [Int.cast_negSucc]
      rw [hcast]
      exact worth_neg (worth_ofNat h)

/-- A natural number of 64 bits is rounded to a finite real. -/
theorem exists_worth_ofNat {n : ℕ} (h : n ≤ 2 ^ 64) :
    ∃ q, worth (Float.ofNat n) = some (exactly q) := by
  rcases Nat.eq_zero_or_pos n with rfl | hpos
  · exact ⟨0, worth_zero⟩
  obtain ⟨u, hview, hround⟩ := rounded_ofNat hpos
  have hle : (n : ℚ) ≤ 2 ^ (1023 : ℤ) := natCast_le_two_zpow h (by norm_num)
  unfold worth
  rw [hview, hround.repack_of_le hle]
  rcases hround.form with rfl | ⟨m, e, hm, rfl, -⟩
  · exact ⟨0, rfl⟩
  · exact ⟨scaled m e, rfl⟩

/-- A whole number of 64 bits is rounded to a finite real. -/
theorem exists_worth_ofInt {n : ℤ} (h : n.natAbs ≤ 2 ^ 64) :
    ∃ q, worth (Float.ofInt n) = some (exactly q) := by
  cases n with
  | ofNat n => exact exists_worth_ofNat h
  | negSucc n =>
      obtain ⟨q, hq⟩ := exists_worth_ofNat h
      exact ⟨-q, worth_neg hq⟩

/-- A positive whole number of any size becomes a positive real, possibly infinite. -/
theorem zero_lt_ofInt {n : ℤ} (hn : 0 < n) : 0 < Float.ofInt n := by
  obtain ⟨k, rfl⟩ := Int.eq_ofNat_of_zero_le hn.le
  have hk : 0 < k := by omega
  obtain ⟨u, hview, hround⟩ := rounded_ofNat hk
  have hone : Representable 1 := by simpa using representable_natCast (n := 1) (by norm_num)
  obtain ⟨p, hp, hle⟩ := hround.le_value hone (by exact_mod_cast hk : (1 : ℚ) ≤ k)
  have hworth : worth (Float.ofNat k) = some p := by
    unfold worth
    rw [hview]
    exact hp
  exact zero_lt_iff.mpr ⟨p, hworth, (exactly_lt_exactly.mpr one_pos).trans_le hle⟩

end Rounding

open Rounding in
/-- Whole numbers of 64 bits are in the range of the reals. -/
theorem Quantity.toReal?_whole {n : ℤ} (h : n.natAbs ≤ 2 ^ 64) :
    Quantity.toReal? (.whole n) = .ok (Float.ofInt n) := by
  obtain ⟨q, hq⟩ := exists_worth_ofInt h
  unfold Quantity.toReal?
  dsimp only
  rw [if_neg]
  rw [isInf_of_worth hq]
  exact Bool.false_ne_true

end LargeNeighborhood
