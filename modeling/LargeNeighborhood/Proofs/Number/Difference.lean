import LargeNeighborhood.Proofs.Number.Arithmetic

set_option autoImplicit false

/-! # Differences and shares

The difference of two magnitudes is exact at the smaller of their exponents, and rounded once after
that (`difference_cases`). So a real does not grow when something is taken from it that is not
negative (`sub_le_self`), and a difference is not negative when the larger one comes first
(`not_sub_lt_zero`).

Nor is a share of whole numbers rounded past a real: when its real is below another one, then so is
the exact share (`div_lt_of_nearestRatio_lt`).
-/

namespace LargeNeighborhood

open Float.Model Float.Model.UnpackedFloat

namespace Rounding

/-! ## Differences of magnitudes -/

/-- A magnitude is the same at a smaller exponent. -/
theorem scaled_decrease (m : ℕ) {e t : ℤ} (h : t ≤ e) :
    scaled (m * 2 ^ (e - t).toNat) t = scaled m e := by
  rw [scaled_add]
  congr 1
  omega

theorem scaled_sub {m m' : ℕ} (h : m' ≤ m) (e : ℤ) :
    scaled (m - m') e = scaled m e - scaled m' e := by
  unfold scaled
  rw [Nat.cast_sub h]
  ring

/-- A difference of two magnitudes is taken at their smaller exponent and rounded after that. -/
theorem sub_eq_normalize {m m' : ℕ} (e e' : ℤ) (hm : 0 < m) (hm' : 0 < m') :
    UnpackedFloat.sub .binary64 (.finite .positive m e hm) (.finite .positive m' e' hm') =
      normalize .binary64 (((m * 2 ^ (e - min e e').toNat : ℕ) : ℤ) -
        ((m' * 2 ^ (e' - min e e').toNat : ℕ) : ℤ)) (min e e') .positive := by
  unfold UnpackedFloat.sub decreaseExponent
  simp only [Nat.shiftLeft_eq, Sign.apply]

/-- A difference of magnitudes has the sign of the larger one, and is rounded once. -/
theorem difference_cases {m m' : ℕ} (e e' : ℤ) (hm : 0 < m) (hm' : 0 < m') :
    let d := UnpackedFloat.sub .binary64 (.finite .positive m e hm) (.finite .positive m' e' hm')
    (scaled m' e' < scaled m e ∧ Rounded .positive (scaled m e - scaled m' e') d) ∨
      (scaled m e = scaled m' e' ∧ d = .zero .positive) ∨
      (scaled m e < scaled m' e' ∧ Rounded .negative (scaled m' e' - scaled m e) d) := by
  intro d
  have hd : d = _ := sub_eq_normalize e e' hm hm'
  have hleft := scaled_decrease m (min_le_left e e')
  have hright := scaled_decrease m' (min_le_right e e')
  -- at the smaller exponent both mantissas are whole, and the sign is that of their difference
  generalize m * 2 ^ (e - min e e').toNat = a at hd hleft
  generalize m' * 2 ^ (e' - min e e').toNat = b at hd hright
  generalize min e e' = t at hd hleft hright
  rw [← hleft, ← hright, hd]
  unfold UnpackedFloat.normalize
  rcases lt_trichotomy a b with hlt | rfl | hlt
  · have hcompare : compare ((a : ℤ) - b) 0 = .lt := Int.compare_eq_lt.mpr (by omega)
    have hnat : (-((a : ℤ) - b)).toNat = b - a := by omega
    rw [hcompare]
    dsimp only
    rw [hnat, ← scaled_sub hlt.le]
    exact Or.inr (Or.inr ⟨scaled_mono hlt t, rounded_round .negative t (by omega)⟩)
  · have hcompare : compare ((a : ℤ) - a) 0 = .eq := Int.compare_eq_eq.mpr (by omega)
    rw [hcompare]
    exact Or.inr (Or.inl ⟨rfl, rfl⟩)
  · have hcompare : compare ((a : ℤ) - b) 0 = .gt := Int.compare_eq_gt.mpr (by omega)
    have hnat : ((a : ℤ) - b).toNat = a - b := by omega
    rw [hcompare]
    dsimp only
    rw [hnat, ← scaled_sub hlt.le]
    exact Or.inl ⟨scaled_mono hlt t, rounded_round .positive t (by omega)⟩

/-! ## Values of rounded results -/

namespace Rounded

variable {s : Sign} {x : ℚ} {u : UnpackedFloat}

/-- A result of which the exact value is at most a real is kept as it is. -/
theorem repack_of_le_scaled (h : Rounded s x u) {m : ℕ} {e : ℤ} (hshape : Shape m e) (he : e ≤ 971)
    (hx : x ≤ scaled m e) : repack u = u ∧ magnitude u ≤ scaled m e := by
  have hm : m ≤ 2 ^ 53 := by
    rcases hshape with ⟨-, hhigh, -⟩ | ⟨-, hhigh, -⟩ <;> omega
  have hmin : -1074 ≤ e := by
    rcases hshape with ⟨-, -, hmin⟩ | ⟨-, -, hmin⟩ <;> omega
  have hle := h.le _ (representable_scaled hm hmin) hx
  refine ⟨?_, hle⟩
  rcases h.form with rfl | ⟨m', e', hm', rfl, hshape'⟩
  · exact repack_zero s
  · -- With a larger exponent it would be larger.
    have he' : e' ≤ 971 := by
      by_contra hlarge
      exact absurd hle (not_le.mpr (scaled_lt_scaled hshape hshape' (by omega)))
    exact repack_finite hm' hshape' he'

/-- A result of which the exact value is at most a real has a value that is at most that real. -/
theorem value_le (h : Rounded .positive x u) {m : ℕ} {e : ℤ} (hshape : Shape m e) (he : e ≤ 971)
    (hx : x ≤ scaled m e) : ∃ p, value (repack u) = some p ∧ p ≤ exactly (scaled m e) := by
  obtain ⟨hrepack, hle⟩ := h.repack_of_le_scaled hshape he hx
  rw [hrepack]
  rcases h.form with rfl | ⟨m', e', hm', rfl, -⟩
  · exact ⟨_, rfl, exactly_le_exactly.mpr (scaled_nonneg m e)⟩
  · exact ⟨_, rfl, exactly_le_exactly.mpr hle⟩

/-- A negative result is not above zero. -/
theorem value_nonpos (h : Rounded .negative x u) :
    ∃ p, value (repack u) = some p ∧ p ≤ exactly 0 := by
  rcases h.repack_eq with hrepack | hrepack
  · rw [hrepack]
    rcases h.form with rfl | ⟨m, e, hm, rfl, -⟩
    · exact ⟨_, rfl, le_rfl⟩
    · refine ⟨_, rfl, exactly_le_exactly.mpr ?_⟩
      have hpos := scaled_pos hm e
      linarith
  · rw [hrepack]
    exact ⟨_, rfl, bot_le⟩

/-- A result of which the exact value is at least a number of 53 bits has a value that is at least
that number. -/
theorem le_value (h : Rounded .positive x u) {y : ℚ} (hy : Representable y) (hx : y ≤ x) :
    ∃ p, value (repack u) = some p ∧ exactly y ≤ p := by
  have hle := h.ge y hy hx
  rcases h.repack_eq with hrepack | hrepack
  · rw [hrepack]
    rcases h.form with rfl | ⟨m, e, hm, rfl, -⟩
    · exact ⟨_, rfl, exactly_le_exactly.mpr hle⟩
    · exact ⟨_, rfl, exactly_le_exactly.mpr hle⟩
  · rw [hrepack]
    exact ⟨_, rfl, le_top⟩

end Rounded

/-! ## Differences -/

theorem view_sub (x y : Float) :
    view (x - y) = repack (UnpackedFloat.sub .binary64 (view x) (view y)) := rfl

/-- An unpacked real as a real of 64 bits holds it. -/
def Held (u : UnpackedFloat) : Prop := ∀ s m e hm, u = .finite s m e hm → Shape m e ∧ e ≤ 971

theorem held_view (x : Float) : Held (view x) := fun _ _ _ _ h => shape_view h

theorem not_top_le_exactly (q : ℚ) : ¬ (⊤ : Extended) ≤ exactly q :=
  not_le.mpr (WithBot.coe_lt_coe.mpr (WithTop.coe_lt_top q))

/-- What a difference has to do with the real that something is taken from: it is no larger, and not
negative where no more is taken than there is. -/
def Remains (u v d : UnpackedFloat) : Prop :=
  ∀ r, value d = some r →
    ∃ p, value u = some p ∧ r ≤ p ∧ ∀ q, value v = some q → q ≤ p → exactly 0 ≤ r

namespace Remains

variable {u v d : UnpackedFloat} {p q r : Extended}

/-- Nothing is promised of a difference that is undefined. -/
theorem undefined : Remains u v (repack .notANumber) := by
  intro r hr
  rw [repack_notANumber] at hr
  cases hr

/-- Any difference between zero and the real that something is taken from may remain of it. -/
theorem of_between (hu : value u = some p) (hd : value d = some r) (hnonneg : exactly 0 ≤ r)
    (hle : r ≤ p) : Remains u v d := by
  intro r' hr
  cases hd.symm.trans hr
  exact ⟨p, hu, hle, fun _ _ _ => hnonneg⟩

/-- Where more is taken than there is, any difference that is no larger than the real may remain of
it. -/
theorem of_lt (hu : value u = some p) (hd : value d = some r) (hle : r ≤ p)
    (hv : value v = some q) (hlt : p < q) : Remains u v d := by
  intro r' hr
  cases hd.symm.trans hr
  refine ⟨p, hu, hle, ?_⟩
  intro q' hq hle'
  cases hv.symm.trans hq
  exact absurd hle' (not_le.mpr hlt)

/-- What is not infinite becomes so when infinity is taken from it. -/
theorem of_infinity {x : ℚ} (hu : value u = some (exactly x)) :
    Remains u (.infinity .positive) (repack (.infinity .negative)) :=
  of_lt hu (congrArg value (repack_infinity .negative)) bot_le rfl (not_le.mp (not_top_le_exactly x))

end Remains

/-- Taking what is not negative from zero leaves nothing or less. -/
theorem remains_zero_sub {v : UnpackedFloat} (s : Sign) (hv : Unsigned v) (hv' : Held v) :
    Remains (.zero s) v (repack (UnpackedFloat.sub .binary64 (.zero s) v)) := by
  have hzero : value (.zero s) = some (exactly 0) := rfl
  cases hv with
  | undefined => exact .undefined
  | infinity => exact .of_infinity hzero
  | zero s' =>
      obtain ⟨s'', hsub⟩ : ∃ s'', UnpackedFloat.sub .binary64 (.zero s) (.zero s') = .zero s'' := by
        cases s <;> cases s' <;> exact ⟨_, rfl⟩
      rw [hsub, repack_zero]
      exact .of_between hzero rfl le_rfl le_rfl
  | finite m e hm =>
      obtain ⟨hshape, he⟩ := hv' _ _ _ _ rfl
      have hsub : UnpackedFloat.sub .binary64 (.zero s) (.finite .positive m e hm) =
          .finite .negative m e hm := rfl
      have hpos := scaled_pos hm e
      rw [hsub, repack_finite hm hshape he]
      exact .of_lt hzero rfl (exactly_le_exactly.mpr (by linarith)) rfl
        (exactly_lt_exactly.mpr hpos)

theorem remains_finite_sub {m : ℕ} {e : ℤ} {hm : 0 < m} {v : UnpackedFloat} (hv : Unsigned v)
    (hu' : Held (.finite .positive m e hm)) :
    Remains (.finite .positive m e hm) v
      (repack (UnpackedFloat.sub .binary64 (.finite .positive m e hm) v)) := by
  obtain ⟨hshape, he⟩ := hu' _ _ _ _ rfl
  have hnonneg : exactly 0 ≤ exactly (scaled m e) := exactly_le_exactly.mpr (scaled_nonneg m e)
  have hvalue : value (.finite .positive m e hm) = some (exactly (scaled m e)) := rfl
  cases hv with
  | undefined => exact .undefined
  | infinity => exact .of_infinity hvalue
  | zero s' =>
      have hsub : UnpackedFloat.sub .binary64 (.finite .positive m e hm) (.zero s') =
          .finite .positive m e hm := rfl
      rw [hsub, repack_finite hm hshape he]
      exact .of_between hvalue rfl hnonneg le_rfl
  | finite m' e' hm' =>
      -- the three signs that a difference can have
      rcases difference_cases e e' hm hm' with ⟨-, h⟩ | ⟨-, h⟩ | ⟨hlt, h⟩
      · obtain ⟨r, hr, hle⟩ := h.value_le hshape he (sub_le_self _ (scaled_nonneg m' e'))
        exact .of_between hvalue hr (unsigned_iff.mp h.hasSign.unsigned r hr) hle
      · rw [h, repack_zero]
        exact .of_between hvalue rfl le_rfl hnonneg
      · obtain ⟨r, hr, hle⟩ := h.value_nonpos
        exact .of_lt hvalue hr (hle.trans hnonneg) rfl (exactly_lt_exactly.mpr hlt)

theorem remains_infinity_sub {v : UnpackedFloat} (hv : Unsigned v) :
    Remains (.infinity .positive) v
      (repack (UnpackedFloat.sub .binary64 (.infinity .positive) v)) := by
  have hleft : Remains (.infinity .positive) v (repack (.infinity .positive)) :=
    .of_between rfl (congrArg value (repack_infinity .positive)) le_top le_rfl
  -- infinity stays what it is, unless what is taken from it is infinite or undefined
  cases hv with
  | undefined => exact .undefined
  | infinity => exact .undefined
  | zero s => exact hleft
  | finite m e hm => exact hleft

theorem remains_sub {u v : UnpackedFloat} (hu : Unsigned u) (hv : Unsigned v) (hu' : Held u)
    (hv' : Held v) : Remains u v (repack (UnpackedFloat.sub .binary64 u v)) := by
  cases hu with
  | undefined =>
      have hsub : UnpackedFloat.sub .binary64 .notANumber v = .notANumber := by cases hv <;> rfl
      rw [hsub]
      exact .undefined
  | infinity => exact remains_infinity_sub hv
  | zero s => exact remains_zero_sub s hv hv'
  | finite m e hm => exact remains_finite_sub hv hu'

/-- Taking away what is not negative leaves no more than there was. -/
theorem real_sub_le_self {x y z : Float} (hx : ¬ x < 0) (hy : ¬ y < 0) (h : z < x - y) :
    x - y ≤ x := by
  obtain ⟨-, r, -, hr, -⟩ := lt_iff.mp h
  obtain ⟨p, hp, hle, -⟩ := remains_sub (not_lt_zero_iff.mp hx) (not_lt_zero_iff.mp hy)
    (held_view x) (held_view y) r hr
  exact le_iff.mpr ⟨r, p, hr, hp, hle⟩

/-- A difference is not negative when no more is taken away than there is. -/
theorem not_sub_lt_zero {x y : Float} (hy : ¬ y < 0) (hle : y ≤ x) : ¬ x - y < 0 := by
  obtain ⟨q, p, hq, hp, hqp⟩ := le_iff.mp hle
  have hx : ¬ x < 0 := fun h => hy (real_lt_of_le_of_lt hle h)
  rw [not_lt_zero_iff, view_sub, unsigned_iff]
  intro r hr
  obtain ⟨p', hp', -, hnonneg⟩ := remains_sub (not_lt_zero_iff.mp hx) (not_lt_zero_iff.mp hy)
    (held_view x) (held_view y) r hr
  unfold worth at hp hq
  rw [hp] at hp'
  cases hp'
  exact hnonneg q hq hqp

/-! ## Shares -/

/-- What stands for a number that is not negative is a zero or finite with a plus sign. -/
theorem nonneg_cases {u : UnpackedFloat} {q : ℚ} (h : value u = some (exactly q)) (hq : 0 ≤ q) :
    (q = 0 ∧ ∃ s, u = .zero s) ∨
      ∃ m e, ∃ hm : 0 < m, u = .finite .positive m e hm ∧ q = scaled m e := by
  have hunsigned : Unsigned u := unsigned_iff.mpr fun p hp => by
    cases h.symm.trans hp
    exact exactly_le_exactly.mpr hq
  cases hunsigned with
  | undefined => cases h
  | infinity => exact absurd (Option.some_inj.mp h).le (not_top_le_exactly q)
  | zero s =>
      cases h
      exact Or.inl ⟨rfl, s, rfl⟩
  | finite m e hm =>
      cases h
      exact Or.inr ⟨m, e, hm, rfl, rfl⟩

/-- What is finite and not negative is a number of 53 bits. -/
theorem representable_of_worth {x : Float} {q : ℚ} (hq : worth x = some (exactly q))
    (hnonneg : 0 ≤ q) : Representable q := by
  have hheld := held_view x
  unfold worth at hq
  rcases nonneg_cases hq hnonneg with ⟨rfl, -⟩ | ⟨m, e, hm, hu, rfl⟩
  · exact representable_natCast (n := 0) (by norm_num)
  · obtain ⟨hshape, -⟩ := hheld _ _ _ _ hu
    rcases hshape with ⟨-, hhigh, hmin⟩ | ⟨-, hhigh, rfl⟩
    · exact representable_scaled hhigh.le hmin
    · exact representable_scaled (by omega) le_rfl

/-- The real of a share is at least as large as every number of 53 bits that the share is not
below. -/
theorem le_worth_nearestRatio {a b : ℤ} (ha : 0 < a) (hb : 0 < b) {y : ℚ} (hy : Representable y)
    (hle : y ≤ (a : ℚ) / b) : ∃ p, worth (nearestRatio a b) = some p ∧ exactly y ≤ p := by
  have hm : 0 < a.natAbs := by omega
  have hm' : 0 < b.natAbs := by omega
  have hround := rounded_div .positive .positive 0 0 hm hm'
  have hleft : scaled a.natAbs 0 = a := by
    rw [scaled_zero_exponent, Nat.cast_natAbs, abs_of_pos ha]
  have hright : scaled b.natAbs 0 = b := by
    rw [scaled_zero_exponent, Nat.cast_natAbs, abs_of_pos hb]
  rw [hleft, hright] at hround
  unfold worth
  rw [view_nearestRatio, unrounded_of_pos ha, unrounded_of_pos hb]
  exact Rounded.le_value hround hy hle

/-- A share of whole numbers is below a real when its own real is. -/
theorem div_lt_of_nearestRatio_lt {a b : ℤ} (ha : 0 ≤ a) (hb : 0 < b) {t : Float} {q : ℚ}
    (ht : worth t = some (exactly q)) (h : nearestRatio a b < t) : (a : ℚ) / b < q := by
  obtain ⟨p, p', hp, hp', hlt⟩ := lt_iff.mp h
  rw [ht] at hp'
  cases hp'
  rcases ha.eq_or_lt with rfl | hpos
  · -- No share at all is zero.
    have hzero : worth (nearestRatio 0 b) = some (exactly 0) := by
      unfold worth
      rw [view_nearestRatio, unrounded_of_pos hb]
      show value (repack (.zero _)) = some (exactly 0)
      rw [repack_zero]
      rfl
    rw [hzero] at hp
    cases hp
    rw [Int.cast_zero, zero_div]
    exact exactly_lt_exactly.mp hlt
  · by_contra hle
    have hshare : (0 : ℚ) ≤ (a : ℚ) / b := by positivity
    have hbound : Representable (max q 0) := by
      rcases le_total q 0 with hq | hq
      · rw [max_eq_right hq]
        exact representable_natCast (n := 0) (by norm_num)
      · rw [max_eq_left hq]
        exact representable_of_worth ht hq
    obtain ⟨p', hp', hqp⟩ := le_worth_nearestRatio hpos hb hbound (max_le (not_lt.mp hle) hshare)
    rw [hp] at hp'
    cases hp'
    have hq : exactly q ≤ exactly (max q 0) := exactly_le_exactly.mpr (le_max_left q 0)
    exact absurd hlt (not_lt.mpr (hq.trans hqp))

end Rounding

end LargeNeighborhood
