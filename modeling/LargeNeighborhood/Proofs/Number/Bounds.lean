import LargeNeighborhood.Proofs.Number.Difference

set_option autoImplicit false

/-! # Lower bounds of computed reals

A lower bound is carried through sums, products and quotients as long as it is a number of 53 bits
(`atLeast_add`, `atLeast_mul`, `atLeast_div`). A real may be undefined instead; so no assumption is
needed that nothing overflows. Where the exact product is smaller than every real, it is still not
rounded to nothing as long as it is more than half of the least one (`survives_mul`).
-/

namespace LargeNeighborhood

open Float.Model Float.Model.UnpackedFloat

namespace Rounding

/-- The least positive real. -/
def least : ℚ := 2 ^ (-1074 : ℤ)

theorem least_pos : 0 < least := by
  unfold least
  positivity

theorem representable_least : Representable least := representable_two_zpow le_rfl

/-- A real that is undefined or no less than a number. -/
def AtLeast (y : ℚ) (u : UnpackedFloat) : Prop := ∀ p, value u = some p → exactly y ≤ p

theorem unsigned_iff_atLeast {u : UnpackedFloat} : Unsigned u ↔ AtLeast 0 u := unsigned_iff

theorem atLeast_of_value {u : UnpackedFloat} {q y : ℚ} (h : value u = some (exactly q))
    (hle : y ≤ q) : AtLeast y u := by
  intro p hp
  cases h.symm.trans hp
  exact exactly_le_exactly.mpr hle

namespace AtLeast

variable {x y : ℚ} {u : UnpackedFloat}

theorem mono (h : AtLeast y u) (hle : x ≤ y) : AtLeast x u :=
  fun p hp => (exactly_le_exactly.mpr hle).trans (h p hp)

theorem unsigned (h : AtLeast y u) (hy : 0 ≤ y) : Unsigned u :=
  unsigned_iff_atLeast.mpr (h.mono hy)

theorem undefined : AtLeast y (repack .notANumber) := fun _ hp => by cases hp

theorem infinity : AtLeast y (repack (.infinity .positive)) := by
  intro p hp
  cases hp
  exact le_top

theorem cases (h : AtLeast y u) (hy : 0 < y) :
    u = .notANumber ∨ u = .infinity .positive ∨
      ∃ m e, ∃ hm : 0 < m, u = .finite .positive m e hm ∧ y ≤ scaled m e := by
  have hpos : ∀ q, value u = some q → exactly 0 < q :=
    fun q hq => lt_of_lt_of_le (exactly_lt_exactly.mpr hy) (h q hq)
  rcases positive_cases hpos with hu | hu | ⟨m, e, hm, hu⟩
  · exact Or.inl hu
  · exact Or.inr (Or.inl hu)
  · refine Or.inr (Or.inr ⟨m, e, hm, hu, ?_⟩)
    subst hu
    exact exactly_le_exactly.mp (h _ rfl)

end AtLeast

namespace Rounded

variable {x : ℚ} {u : UnpackedFloat}

theorem atLeast (h : Rounded .positive x u) {y : ℚ} (hy : Representable y) (hx : y ≤ x) :
    AtLeast y (repack u) := by
  obtain ⟨p, hp, hle⟩ := h.le_value hy hx
  intro q hq
  cases hp.symm.trans hq
  exact hle

theorem atLeast_least (h : Rounded .positive x u) (hx : 2 ^ (-1075 : ℤ) < x) :
    AtLeast least (repack u) := by
  have hle : least ≤ magnitude u := h.survives hx
  rcases h.repack_eq with hrepack | hrepack
  · rw [hrepack]
    intro p hp
    rcases h.form with rfl | ⟨m, e, hm, rfl, -⟩
    · cases hp
      exact exactly_le_exactly.mpr hle
    · cases hp
      exact exactly_le_exactly.mpr hle
  · rw [hrepack, ← repack_infinity]
    exact .infinity

end Rounded

/-! ## Sums -/

theorem view_add (x y : Float) :
    view (x + y) = repack (UnpackedFloat.add .binary64 (view x) (view y)) := rfl

theorem add_commutes (u v : UnpackedFloat) :
    UnpackedFloat.add .binary64 u v = UnpackedFloat.add .binary64 v u := by
  rcases u with s | _ | s | ⟨s, m, e, hm⟩ <;> rcases v with s' | _ | s' | ⟨s', m', e', hm'⟩ <;>
    try rfl
  case infinity.infinity => cases s <;> cases s' <;> rfl
  case zero.zero => cases s <;> cases s' <;> rfl
  case finite.finite =>
    unfold UnpackedFloat.add
    dsimp only
    rw [min_comm e e', Int.add_comm]

/-- A sum of positive reals is rounded once. -/
theorem rounded_add {m m' : ℕ} (e e' : ℤ) (hm : 0 < m) (hm' : 0 < m') :
    Rounded .positive (scaled m e + scaled m' e')
      (UnpackedFloat.add .binary64 (.finite .positive m e hm) (.finite .positive m' e' hm')) := by
  have hsum : UnpackedFloat.add .binary64 (.finite .positive m e hm) (.finite .positive m' e' hm') =
      normalize .binary64 (((m * 2 ^ (e - min e e').toNat : ℕ) : ℤ) +
        ((m' * 2 ^ (e' - min e e').toNat : ℕ) : ℤ)) (min e e') .positive := by
    unfold UnpackedFloat.add decreaseExponent
    simp only [Nat.shiftLeft_eq, Sign.apply]
  have hleft := scaled_decrease m (min_le_left e e')
  have hright := scaled_decrease m' (min_le_right e e')
  have hpos : 0 < m * 2 ^ (e - min e e').toNat := by positivity
  -- at the smaller exponent both mantissas are whole, and their sum is exact
  generalize m * 2 ^ (e - min e e').toNat = a at hsum hleft hpos
  generalize m' * 2 ^ (e' - min e e').toNat = b at hsum hright
  generalize min e e' = t at hsum hleft hright
  have hcompare : compare ((a : ℤ) + b) 0 = .gt := Int.compare_eq_gt.mpr (by omega)
  have hnat : ((a : ℤ) + b).toNat = a + b := by omega
  have hscaled : scaled a t + scaled b t = scaled (a + b) t := by
    unfold scaled
    push_cast
    ring
  rw [← hleft, ← hright, hsum, hscaled]
  unfold UnpackedFloat.normalize
  rw [hcompare]
  dsimp only
  rw [hnat]
  exact rounded_round .positive t (by omega)

/-- A lower bound is kept when something is added that is not negative. -/
theorem atLeast_add {u v : UnpackedFloat} {y : ℚ} (hy : 0 < y) (hrep : Representable y)
    (hu : AtLeast y u) (hu' : Held u) (hv : Unsigned v) :
    AtLeast y (repack (UnpackedFloat.add .binary64 u v)) := by
  rcases hu.cases hy with rfl | rfl | ⟨m, e, hm, rfl, hle⟩
  · have hadd : UnpackedFloat.add .binary64 .notANumber v = .notANumber := by cases hv <;> rfl
    rw [hadd]
    exact .undefined
  · cases hv with
    | undefined => exact .undefined
    | infinity => exact .infinity
    | zero s => exact .infinity
    | finite m' e' hm' => exact .infinity
  · cases hv with
    | undefined => exact .undefined
    | infinity => exact .infinity
    | zero s =>
        obtain ⟨hshape, he⟩ := hu' _ _ _ _ rfl
        show AtLeast y (repack (.finite .positive m e hm))
        rw [repack_finite hm hshape he]
        exact hu
    | finite m' e' hm' =>
        have hnonneg := scaled_nonneg m' e'
        exact (rounded_add e e' hm hm').atLeast hrep (by linarith)

/-! ## Products -/

theorem atLeast_mul {u v : UnpackedFloat} {a b y : ℚ} (ha : 0 < a) (hb : 0 < b)
    (hrep : Representable y) (hle : y ≤ a * b) (hu : AtLeast a u) (hv : AtLeast b v)
    (hu' : Formed u) (hv' : Formed v) : AtLeast y (repack (mul .binary64 u v)) := by
  rcases hu.cases ha with rfl | rfl | ⟨m, e, hm, rfl, ham⟩ <;>
    rcases hv.cases hb with rfl | rfl | ⟨m', e', hm', rfl, hbm⟩
  case inr.inr.inr.inr =>
    have hround := rounded_mul .positive .positive hm hm' (hu' _ _ _ _ rfl) (hv' _ _ _ _ rfl)
    apply hround.atLeast hrep
    calc y ≤ a * b := hle
      _ ≤ scaled m e * scaled m' e' := mul_le_mul ham hbm hb.le (scaled_nonneg m e)
  all_goals first | exact .undefined | exact .infinity

/-- More than one half of the least real is not rounded to nothing. -/
theorem survives_mul {u v : UnpackedFloat} (hu : AtLeast (3 / 4) u) (hv : AtLeast least v)
    (hu' : Formed u) (hv' : Formed v) : AtLeast least (repack (mul .binary64 u v)) := by
  rcases hu.cases (by norm_num) with rfl | rfl | ⟨m, e, hm, rfl, ham⟩ <;>
    rcases hv.cases least_pos with rfl | rfl | ⟨m', e', hm', rfl, hbm⟩
  case inr.inr.inr.inr =>
    have hround := rounded_mul .positive .positive hm hm' (hu' _ _ _ _ rfl) (hv' _ _ _ _ rfl)
    apply hround.atLeast_least
    have hhalf : (2 : ℚ) ^ (-1075 : ℤ) = 1 / 2 * least := by
      unfold least
      rw [show (-1075 : ℤ) = -1 + -1074 from rfl, zpow_add₀ (by norm_num)]
      norm_num
    have hpos := least_pos
    calc (2 : ℚ) ^ (-1075 : ℤ) < 3 / 4 * least := by rw [hhalf]; linarith
      _ ≤ scaled m e * scaled m' e' := mul_le_mul ham hbm hpos.le (scaled_nonneg m e)
  all_goals first | exact .undefined | exact .infinity

theorem unsigned_mul {u v : UnpackedFloat} (hu : Unsigned u) (hv : Unsigned v) (hu' : Formed u)
    (hv' : Formed v) : Unsigned (repack (mul .binary64 u v)) := by
  cases hu with
  | undefined => cases hv <;> exact unsigned_repack_notANumber
  | infinity =>
      cases hv with
      | undefined => exact unsigned_repack_notANumber
      | infinity => exact unsigned_repack_infinity
      | zero s => exact unsigned_repack_notANumber
      | finite m e hm => exact unsigned_repack_infinity
  | zero s =>
      cases hv with
      | undefined => exact unsigned_repack_notANumber
      | infinity => exact unsigned_repack_notANumber
      | zero s' =>
          have hmul : mul .binary64 (.zero s) (.zero s') = .zero (s * s') := rfl
          rw [hmul]
          exact unsigned_repack_zero _
      | finite m e hm =>
          have hmul : mul .binary64 (.zero s) (.finite .positive m e hm) = .zero (s * .positive) :=
            rfl
          rw [hmul]
          exact unsigned_repack_zero _
  | finite m e hm =>
      cases hv with
      | undefined => exact unsigned_repack_notANumber
      | infinity => exact unsigned_repack_infinity
      | zero s =>
          have hmul : mul .binary64 (.finite .positive m e hm) (.zero s) = .zero (.positive * s) :=
            rfl
          rw [hmul]
          exact unsigned_repack_zero _
      | finite m' e' hm' =>
          exact (rounded_mul .positive .positive hm hm' (hu' _ _ _ _ rfl)
            (hv' _ _ _ _ rfl)).hasSign.unsigned

/-! ## Quotients -/

/-- A quotient of something that is at least `a` by a real that is at most `b` is at least every
number of 53 bits up to `a / b`. -/
theorem atLeast_div {u : UnpackedFloat} {m' : ℕ} {e' : ℤ} {a b y : ℚ} (ha : 0 < a)
    (hrep : Representable y) (hle : y ≤ a / b) (hu : AtLeast a u) (hm' : 0 < m')
    (hv : scaled m' e' ≤ b) :
    AtLeast y (repack (UnpackedFloat.div .binary64 u (.finite .positive m' e' hm'))) := by
  rcases hu.cases ha with rfl | rfl | ⟨m, e, hm, rfl, ham⟩
  · exact .undefined
  · exact .infinity
  · apply (rounded_div .positive .positive e e' hm hm').atLeast hrep
    have hpos := scaled_pos hm' e'
    calc y ≤ a / b := hle
      _ ≤ scaled m e / scaled m' e' := div_le_div₀ (scaled_nonneg m e) ham hpos hv

end Rounding

end LargeNeighborhood
