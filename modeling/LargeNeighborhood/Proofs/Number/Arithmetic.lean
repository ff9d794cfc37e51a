import LargeNeighborhood.Number.Arithmetic
import LargeNeighborhood.Proofs.Number.Order

set_option autoImplicit false

/-! # Computed reals

Products, quotients and conversions of whole numbers are rounded once (`rounded_mul`,
`rounded_div`, `rounded_normalize`), so each of them stays within every bound that is a number of
53 bits. Signs follow the usual rules, with zeros and infinities keeping theirs.
-/

namespace LargeNeighborhood

open Float.Model Float.Model.UnpackedFloat

namespace Rounding

/-! ## Rounded results -/

theorem scaled_mul (m m' : ℕ) (e e' : ℤ) : scaled m e * scaled m' e' = scaled (m * m') (e + e') := by
  unfold scaled
  rw [zpow_add₀ (by norm_num)]
  push_cast
  ring

/-- A product of which enough bits are given is rounded once. -/
theorem rounded_mul_of_le (s s' : Sign) {m m' : ℕ} {e e' : ℤ} (hm : 0 < m) (hm' : 0 < m')
    (hexp : e + e' ≤ target (m * m') (e + e')) :
    Rounded (s * s') (scaled m e * scaled m' e')
      (mul .binary64 (.finite s m e hm) (.finite s' m' e' hm')) := by
  rw [scaled_mul]
  exact rounded_roundWithAccuracy (s * s') (marks_exact (m * m')) hexp

/-- A product of reals is rounded once. -/
theorem rounded_mul (s s' : Sign) {m m' : ℕ} {e e' : ℤ} (hm : 0 < m) (hm' : 0 < m')
    (h : Shape m e) (h' : Shape m' e') :
    Rounded (s * s') (scaled m e * scaled m' e')
      (mul .binary64 (.finite s m e hm) (.finite s' m' e' hm')) := by
  apply rounded_mul_of_le
  have hprod : m * m' ≠ 0 := by positivity
  have hleft : m ≤ m * m' := Nat.le_mul_of_pos_right m hm'
  have hright : m' ≤ m * m' := Nat.le_mul_of_pos_left m' hm
  -- One long mantissa makes the product long enough; two short ones are both at the last exponent.
  unfold target
  rcases h with ⟨hlow, -, -⟩ | ⟨-, -, he⟩
  · have hlog : 52 ≤ (m * m').log2 := (Nat.le_log2 hprod).mpr (by omega)
    omega
  rcases h' with ⟨hlow, -, -⟩ | ⟨-, -, he'⟩
  · have hlog : 52 ≤ (m * m').log2 := (Nat.le_log2 hprod).mpr (by omega)
    omega
  · omega

/-- A dividend that has been shifted to be longer than the divisor by 53 bits leaves a quotient of at
least 53 bits. -/
theorem le_quotient {m m' k : ℕ} (hm : 0 < m) (hm' : 0 < m') (hk : 53 + m'.log2 ≤ m.log2 + k) :
    2 ^ 52 ≤ m * 2 ^ k / m' := by
  have hlow : 2 ^ (52 + (m'.log2 + 1)) ≤ m * 2 ^ k := by
    calc 2 ^ (52 + (m'.log2 + 1)) ≤ 2 ^ (m.log2 + k) :=
          Nat.pow_le_pow_right (by norm_num) (by omega)
      _ = 2 ^ m.log2 * 2 ^ k := pow_add 2 _ _
      _ ≤ m * 2 ^ k := Nat.mul_le_mul_right _ (Nat.log2_self_le (by omega))
  rw [Nat.le_div_iff_mul_le hm']
  calc 2 ^ 52 * m' ≤ 2 ^ 52 * 2 ^ (m'.log2 + 1) := Nat.mul_le_mul_left _ Nat.lt_log2_self.le
    _ = 2 ^ (52 + (m'.log2 + 1)) := (pow_add 2 _ _).symm
    _ ≤ m * 2 ^ k := hlow

/-- A division shifts the dividend, takes the whole quotient and notes what remains. -/
theorem div_eq_roundWithAccuracy (s s' : Sign) {m m' : ℕ} {e e' t : ℤ} {k : ℕ} (hm : 0 < m)
    (hm' : 0 < m') (ht : t = min (e - e') (max ((m.log2 + 1 + e) - (m'.log2 + 1 + e') - 53) (-1074)))
    (hk : (e - e' - t).toNat = k) :
    div .binary64 (.finite s m e hm) (.finite s' m' e' hm') =
      roundWithAccuracy .binary64 (s / s') (m * 2 ^ k / m') t
        (accuracyOfFraction (m * 2 ^ k % m') m') := by
  have hcore : divCore .binary64 m e m' e' =
      (m * 2 ^ k / m', t, accuracyOfFraction (m * 2 ^ k % m') m') := by
    have htarget : min (e - e') (Format.binary64.targetExponent
        (totalExponent m e - totalExponent m' e')) = t := ht.symm
    unfold divCore
    simp only [htarget, hk, Nat.shiftLeft_eq]
  unfold UnpackedFloat.div
  simp only [hcore]

/-- A quotient is computed to at least 53 bits, or down to the last exponent, and rounded once. -/
theorem nearest_div (s s' : Sign) {m m' : ℕ} (e e' : ℤ) (hm : 0 < m) (hm' : 0 < m') :
    Nearest (s / s') (scaled m e / scaled m' e')
      (div .binary64 (.finite s m e hm) (.finite s' m' e' hm')) := by
  obtain ⟨t, ht⟩ : ∃ t : ℤ, t = min (e - e')
      (max ((m.log2 + 1 + e) - (m'.log2 + 1 + e') - 53) (-1074)) := ⟨_, rfl⟩
  obtain ⟨k, hk⟩ : ∃ k : ℕ, e - e' = t + k := ⟨(e - e' - t).toNat, by omega⟩
  have hshift : (e - e' - t).toNat = k := by omega
  -- above the last exponent the dividend is shifted until the quotient has 53 bits
  have hexp : t ≤ target (m * 2 ^ k / m') t := by
    unfold target
    by_cases hlast : t ≤ -1074
    · omega
    · have hquotient : 2 ^ 52 ≤ m * 2 ^ k / m' := le_quotient hm hm' (by omega)
      have hlog := (Nat.le_log2 (by omega)).mpr hquotient
      omega
  have hround := nearest_roundWithAccuracy (s / s') (marks_quotient (m * 2 ^ k) m' hm') hexp
  have hpos : (0 : ℚ) < m' := by exact_mod_cast hm'
  have hvalue : ((m * 2 ^ k : ℕ) : ℚ) / m' * 2 ^ t = scaled m e / scaled m' e' := by
    have he : e = t + k + e' := by omega
    unfold scaled
    rw [he, zpow_add₀ (by norm_num), zpow_add₀ (by norm_num), zpow_natCast]
    push_cast
    field_simp
  rw [div_eq_roundWithAccuracy s s' hm hm' ht hshift, ← hvalue]
  exact hround

theorem rounded_div (s s' : Sign) {m m' : ℕ} (e e' : ℤ) (hm : 0 < m) (hm' : 0 < m') :
    Rounded (s / s') (scaled m e / scaled m' e')
      (div .binary64 (.finite s m e hm) (.finite s' m' e' hm')) :=
  (nearest_div s s' e e' hm hm').rounded

theorem log2_mul_two_pow {m : ℕ} (hm : 0 < m) (k : ℕ) : (m * 2 ^ k).log2 = m.log2 + k := by
  have hne : m * 2 ^ k ≠ 0 := by positivity
  have h1 : m.log2 + k ≤ (m * 2 ^ k).log2 := by
    rw [Nat.le_log2 hne, pow_add]
    exact Nat.mul_le_mul_right _ (Nat.log2_self_le (by omega))
  have h2 : (m * 2 ^ k).log2 < m.log2 + 1 + k := by
    rw [Nat.log2_lt hne, pow_add]
    exact Nat.mul_lt_mul_of_pos_right Nat.lt_log2_self (by positivity)
  omega

/-- A number with a sign is rounded once. -/
theorem rounded_round (s : Sign) {m : ℕ} (e : ℤ) (hm : 0 < m) :
    Rounded s (scaled m e) (round .binary64 s m e) := by
  obtain ⟨k, hk⟩ : ∃ k : ℕ, (e - target m e).toNat = k := ⟨_, rfl⟩
  have hround : round .binary64 s m e =
      roundWithAccuracy .binary64 s (m * 2 ^ k) (e - k) .exact := by
    unfold UnpackedFloat.round decreaseExponent
    rw [targetExponent_eq]
    simp only [hk, Nat.shiftLeft_eq]
  -- a shift to the left adds the bits that it takes from the exponent
  have hexp : e - k ≤ target (m * 2 ^ k) (e - k) := by
    have hlog := log2_mul_two_pow hm k
    unfold target at hk ⊢
    omega
  have hrounded := rounded_roundWithAccuracy s (marks_exact (m * 2 ^ k)) hexp
  have hvalue : scaled (m * 2 ^ k) (e - k) = scaled m e := by
    rw [scaled_add]
    congr 1
    omega
  rw [hround, ← hvalue]
  exact hrounded

/-! ## Signs -/

/-- A real with a given sign, not undefined. -/
inductive HasSign (s : Sign) : UnpackedFloat → Prop
  | zero : HasSign s (.zero s)
  | infinity : HasSign s (.infinity s)
  | finite (m : ℕ) (e : ℤ) (hm : 0 < m) : HasSign s (.finite s m e hm)

/-- A real that is not below zero. It may be undefined, and a zero may have any sign. -/
inductive Unsigned : UnpackedFloat → Prop
  | undefined : Unsigned .notANumber
  | infinity : Unsigned (.infinity .positive)
  | zero (s : Sign) : Unsigned (.zero s)
  | finite (m : ℕ) (e : ℤ) (hm : 0 < m) : Unsigned (.finite .positive m e hm)

theorem HasSign.unsigned {u : UnpackedFloat} (h : HasSign .positive u) : Unsigned u := by
  cases h <;> constructor

/-! What is no number of its own is held as it is. -/

theorem unsigned_repack_notANumber : Unsigned (repack .notANumber) := by
  rw [repack_notANumber]
  exact .undefined

theorem unsigned_repack_infinity : Unsigned (repack (.infinity .positive)) := by
  rw [repack_infinity]
  exact .infinity

theorem unsigned_repack_zero (s : Sign) : Unsigned (repack (.zero s)) := by
  rw [repack_zero]
  exact .zero s

theorem unsigned_iff {u : UnpackedFloat} :
    Unsigned u ↔ ∀ p, value u = some p → exactly 0 ≤ p := by
  constructor
  · intro h p hp
    cases h with
    | undefined => cases hp
    | infinity =>
        cases hp
        exact le_top
    | zero s =>
        cases hp
        exact le_rfl
    | finite m e hm =>
        cases hp
        exact exactly_le_exactly.mpr (scaled_nonneg m e)
  · intro h
    rcases u with s | _ | s | ⟨s, m, e, hm⟩
    · cases s with
      | positive => exact .infinity
      | negative => exact absurd (h _ rfl) (not_le.mpr (WithBot.bot_lt_coe _))
    · exact .undefined
    · exact .zero s
    · cases s with
      | positive => exact .finite m e hm
      | negative =>
          have hneg := exactly_le_exactly.mp (h _ rfl)
          have hpos := scaled_pos hm e
          linarith

theorem not_lt_zero_iff {x : Float} : ¬ x < 0 ↔ Unsigned (view x) := by
  rw [unsigned_iff, lt_zero_iff]
  constructor
  · intro h p hp
    by_contra hlt
    exact h ⟨p, hp, not_le.mp hlt⟩
  · rintro h ⟨p, hp, hneg⟩
    exact absurd hneg (not_lt.mpr (h p hp))

namespace Rounded

variable {s : Sign} {x : ℚ} {u : UnpackedFloat}

/-- A rounded result is kept as it is or has become infinite. -/
theorem repack_eq (h : Rounded s x u) : repack u = u ∨ repack u = .infinity s := by
  rcases h.form with rfl | ⟨m, e, hm, rfl, hshape⟩
  · exact Or.inl (repack_zero s)
  · by_cases he : e ≤ 971
    · exact Or.inl (repack_finite hm hshape he)
    · exact Or.inr (repack_large hm (by omega))

theorem hasSign (h : Rounded s x u) : HasSign s (repack u) := by
  rcases h.repack_eq with hrepack | hrepack
  · rw [hrepack]
    rcases h.form with rfl | ⟨m, e, hm, rfl, -⟩
    · exact .zero
    · exact .finite m e hm
  · rw [hrepack]
    exact .infinity

/-- A result that is not too large is kept as it is. -/
theorem repack_of_le (h : Rounded s x u) (hx : x ≤ 2 ^ (1023 : ℤ)) : repack u = u := by
  rcases h.form with rfl | ⟨m, e, hm, rfl, hshape⟩
  · exact repack_zero s
  · apply repack_finite hm hshape
    have hle : scaled m e ≤ 2 ^ (1023 : ℤ) := h.le _ (representable_two_zpow (by norm_num)) hx
    -- at a larger exponent the mantissa is full, and the value beyond the bound
    by_contra he
    have hlow : 2 ^ 52 ≤ m := by
      rcases hshape with ⟨hlow, -, -⟩ | ⟨-, -, hmin⟩
      · exact hlow
      · omega
    have hlarge : (2 : ℚ) ^ (1024 : ℤ) ≤ scaled m e := by
      calc (2 : ℚ) ^ (1024 : ℤ) ≤ 2 ^ (e + (52 : ℕ)) := two_zpow_le (by push_cast; omega)
        _ ≤ scaled m e := two_zpow_le_scaled hlow e
    have hlt : (2 : ℚ) ^ (1023 : ℤ) < 2 ^ (1024 : ℤ) :=
      zpow_lt_zpow_right₀ (by norm_num) (by norm_num)
    exact absurd (hlarge.trans hle) (not_le.mpr hlt)

/-- A number of 53 bits is not changed by rounding. -/
theorem magnitude_eq (h : Rounded s x u) (hx : Representable x) : magnitude u = x :=
  le_antisymm (h.le x hx le_rfl) (h.ge x hx le_rfl)

/-- A result that is at least a power of two does not vanish. -/
theorem finite_of_le (h : Rounded s x u) {t : ℤ} (ht : -1074 ≤ t) (hx : 2 ^ t ≤ x) :
    ∃ m e, ∃ hm : 0 < m, u = .finite s m e hm ∧ Shape m e := by
  rcases h.form with rfl | hfinite
  · have hle : (2 : ℚ) ^ t ≤ 0 := h.ge _ (representable_two_zpow ht) hx
    have hpos : (0 : ℚ) < 2 ^ t := by positivity
    linarith
  · exact hfinite

end Rounded

/-! ## Whole numbers -/

theorem scaled_zero_exponent (n : ℕ) : scaled n 0 = n := by
  unfold scaled
  rw [zpow_zero, mul_one]

/-- A positive whole number of 64 bits is rounded once. -/
theorem view_toFloat {n : UInt64} (hn : 0 < n.toNat) :
    view n.toFloat = repack (round .binary64 .positive n.toNat 0) := by
  have hcompare : compare (n.toNat : ℤ) 0 = .gt := Int.compare_eq_gt.mpr (by omega)
  have hnormalize : normalize .binary64 (n.toNat : ℤ) 0 .positive =
      round .binary64 .positive n.toNat 0 := by
    unfold UnpackedFloat.normalize
    rw [hcompare]
    simp
  show repack (normalize .binary64 (n.toNat : ℤ) 0 .positive) = _
  rw [hnormalize]

theorem natCast_le_two_zpow {n k : ℕ} (hn : n ≤ 2 ^ k) {t : ℤ} (hk : k ≤ t) : (n : ℚ) ≤ 2 ^ t := by
  calc (n : ℚ) ≤ 2 ^ k := by exact_mod_cast hn
    _ = 2 ^ (k : ℤ) := (zpow_natCast 2 k).symm
    _ ≤ 2 ^ t := two_zpow_le hk

theorem view_mul (x y : Float) : view (x * y) = repack (mul .binary64 (view x) (view y)) := rfl

theorem view_div (x y : Float) :
    view (x / y) = repack (UnpackedFloat.div .binary64 (view x) (view y)) := rfl

/-- One as a real. -/
def one : UnpackedFloat := .finite .positive (2 ^ 52) (-52) (by norm_num)

theorem scaled_one : scaled (2 ^ 52) (-52) = 1 := by
  unfold scaled
  norm_num

theorem shape_one : Shape (2 ^ 52) (-52) := Or.inl (by norm_num)

/-- A natural number of 53 bits becomes a real with one rounding: it is exact, and so is its product
with one. -/
theorem rounded_ofNat_short {n : ℕ} (hn : 0 < n) (hsmall : n < 2 ^ 53) :
    ∃ u, view (Float.ofNat n) = repack u ∧ Rounded .positive n u := by
  have hword : n.toUInt64.toNat = n := by
    rw [UInt64.toNat_ofNat']
    omega
  -- such a number is rounded as a word and once more as the product with `10 ^ 0`
  have hview : view (Float.ofNat n) =
      repack (mul .binary64 (view n.toUInt64.toFloat) one) := by
    have hfast : n < 2 ^ 53 ∧ 0 ≤ 22 := ⟨hsmall, by norm_num⟩
    show view (Float.ofScientific n false 0) = _
    unfold Float.ofScientific
    rw [dif_pos hfast]
    have hone : view Float.exactlyRepresentablePowersOfTen[0] = one := rfl
    simp only [Bool.false_eq_true, if_false]
    rw [view_mul, hone]
  have hround := rounded_round .positive 0 hn
  rw [scaled_zero_exponent] at hround
  have hn' : (n : ℚ) ≤ 2 ^ (1023 : ℤ) := natCast_le_two_zpow hsmall.le (by norm_num)
  rw [view_toFloat (by omega), hword, hround.repack_of_le hn'] at hview
  -- the first rounding is exact, so the product is that of the number itself
  have hrep : Representable n := representable_natCast hsmall.le
  obtain ⟨m, e, hm, hu, hshape⟩ := hround.finite_of_le (t := 0) (by norm_num)
    (by rw [zpow_zero]; exact_mod_cast hn)
  have hmagnitude := hround.magnitude_eq hrep
  rw [hu] at hview hmagnitude
  refine ⟨_, hview, ?_⟩
  have hmul := rounded_mul .positive .positive hm (by norm_num) hshape shape_one
  rw [scaled_one, mul_one] at hmul
  rw [← hmagnitude]
  exact hmul

/-- A natural number of more than 53 bits becomes a real with one rounding: it is multiplied by a
power of ten, which is one, and rounded after that. -/
theorem rounded_ofNat_long {n : ℕ} (hn : 0 < n) (hlong : ¬ n < 2 ^ 53) :
    ∃ u, view (Float.ofNat n) = repack u ∧ Rounded .positive n u := by
  have hslow : ¬ (n < 2 ^ 53 ∧ 0 ≤ 22) := fun h => hlong h.1
  have hpos : 0 < n <<< 53 := by
    rw [Nat.shiftLeft_eq]
    positivity
  -- here nothing is rounded in front of the product: the mantissa is only shifted
  refine ⟨mul .binary64 (.finite .positive (n <<< 53) (-53) hpos)
    (.finite .positive (10 ^ 0) 0 (by norm_num)), ?_, ?_⟩
  · show view (Float.ofScientific n false 0) = _
    unfold Float.ofScientific
    rw [dif_neg hslow]
    show repack (UnpackedFloat.ofScientific .binary64 n 0) = _
    have hlow : ¬ (0 : ℤ) < -((2 ^ 11 : ℤ) + n.log2) := by omega
    unfold UnpackedFloat.ofScientific
    rw [dif_neg (by omega), if_neg (by norm_num), if_neg hlow, if_pos le_rfl]
    rfl
  · have hvalue : scaled (n <<< 53) (-53) * scaled (10 ^ 0) 0 = n := by
      rw [Nat.shiftLeft_eq, scaled_add, scaled_zero_exponent]
      norm_num [scaled]
    have hexp : (-53 : ℤ) + 0 ≤ target (n <<< 53 * 10 ^ 0) (-53 + 0) := by
      rw [pow_zero, mul_one, Nat.shiftLeft_eq]
      have hlog := log2_mul_two_pow hn 53
      unfold target
      omega
    rw [← hvalue]
    exact rounded_mul_of_le .positive .positive hpos (by norm_num) hexp

/-- A natural number becomes a real with one rounding. -/
theorem rounded_ofNat {n : ℕ} (hn : 0 < n) :
    ∃ u, view (Float.ofNat n) = repack u ∧ Rounded .positive n u := by
  by_cases hsmall : n < 2 ^ 53
  · exact rounded_ofNat_short hn hsmall
  · exact rounded_ofNat_long hn hsmall

/-- A whole number keeps its sign. -/
theorem hasSign_ofInt {n : ℤ} (hn : 0 ≤ n) : HasSign .positive (view (Float.ofInt n)) := by
  obtain ⟨k, rfl⟩ := Int.eq_ofNat_of_zero_le hn
  show HasSign .positive (view (Float.ofNat k))
  by_cases hk : k = 0
  · rw [hk]
    exact .zero
  · obtain ⟨u, hview, hround⟩ := rounded_ofNat (Nat.pos_of_ne_zero hk)
    rw [hview]
    exact hround.hasSign

/-! ## Quotients -/

/-- What is not at most zero is undefined, infinite, or finite with a plus sign. -/
theorem positive_cases {u : UnpackedFloat} (h : ∀ q, value u = some q → exactly 0 < q) :
    u = .notANumber ∨ u = .infinity .positive ∨
      ∃ m e, ∃ hm : 0 < m, u = .finite .positive m e hm := by
  have hunsigned : Unsigned u := unsigned_iff.mpr fun q hq => (h q hq).le
  cases hunsigned with
  | undefined => exact Or.inl rfl
  | infinity => exact Or.inr (Or.inl rfl)
  | zero s => exact absurd (h _ rfl) (lt_irrefl _)
  | finite m e hm => exact Or.inr (Or.inr ⟨m, e, hm, rfl⟩)

theorem unsigned_div {u v : UnpackedFloat} (hu : Unsigned u)
    (hv : ∀ q, value v = some q → exactly 0 < q) :
    Unsigned (repack (UnpackedFloat.div .binary64 u v)) := by
  rcases positive_cases hv with rfl | rfl | ⟨m', e', hm', rfl⟩
  · have hdiv : UnpackedFloat.div .binary64 u .notANumber = .notANumber := by cases hu <;> rfl
    rw [hdiv]
    exact unsigned_repack_notANumber
  · cases hu with
    | undefined => exact unsigned_repack_notANumber
    | infinity => exact unsigned_repack_notANumber
    | zero s => exact unsigned_repack_zero _
    | finite m e hm => exact unsigned_repack_zero _
  · cases hu with
    | undefined => exact unsigned_repack_notANumber
    | infinity => exact unsigned_repack_infinity
    | zero s => exact unsigned_repack_zero _
    | finite m e hm => exact (rounded_div .positive .positive e e' hm hm').hasSign.unsigned

/-- A quotient of a real that is not negative and a positive one is not negative. -/
theorem not_div_lt_zero {x y : Float} (hx : ¬ x < 0) (hy : ¬ y ≤ 0) : ¬ x / y < 0 := by
  rw [not_lt_zero_iff] at hx ⊢
  rw [view_div]
  apply unsigned_div hx
  intro q hq
  by_contra hlt
  exact hy (le_zero_iff.mpr ⟨q, hq, not_lt.mp hlt⟩)

/-! ## Quotients of whole numbers -/

theorem unrounded_of_pos {n : ℤ} (hn : 0 < n) :
    unrounded n = .finite .positive n.natAbs 0 (by omega) := by
  unfold unrounded
  rw [dif_neg (by omega)]
  simp only [not_lt.mpr hn.le, if_false]

theorem unrounded_of_neg {n : ℤ} (hn : n < 0) :
    unrounded n = .finite .negative n.natAbs 0 (by omega) := by
  unfold unrounded
  rw [dif_neg (by omega)]
  simp only [hn, if_true]

theorem view_nearestRatio (a b : ℤ) : view (nearestRatio a b) =
    repack (UnpackedFloat.div .binary64 (unrounded a) (unrounded b)) := rfl

/-- A quotient of whole numbers is negative when one of them is, however small it is. -/
theorem nearestRatio_lt_zero {a b : ℤ} (ha : a < 0) (hb : 0 < b) (hb' : b ≤ 2 ^ 1074) :
    nearestRatio a b < 0 := by
  have hm : 0 < a.natAbs := by omega
  have hm' : 0 < b.natAbs := by omega
  have hview : view (nearestRatio a b) = repack (UnpackedFloat.div .binary64
      (.finite .negative a.natAbs 0 hm) (.finite .positive b.natAbs 0 hm')) := by
    rw [view_nearestRatio, unrounded_of_neg ha, unrounded_of_pos hb]
  have hround := rounded_div .negative .positive 0 0 hm hm'
  -- The quotient is not below the least real, so it does not vanish.
  have hlarge : (2 : ℚ) ^ (-1074 : ℤ) ≤ scaled a.natAbs 0 / scaled b.natAbs 0 := by
    rw [scaled_zero_exponent, scaled_zero_exponent]
    have hpos : (0 : ℚ) < b.natAbs := by exact_mod_cast hm'
    have hone : (1 : ℚ) ≤ a.natAbs := by exact_mod_cast hm
    have hnat : b.natAbs ≤ 2 ^ 1074 := by omega
    have hbound : (b.natAbs : ℚ) ≤ 2 ^ (1074 : ℤ) := natCast_le_two_zpow hnat (by norm_num)
    rw [zpow_neg, inv_le_comm₀ (by positivity) (by positivity), inv_div]
    calc (b.natAbs : ℚ) / a.natAbs ≤ b.natAbs / 1 := by gcongr
      _ ≤ 2 ^ (1074 : ℤ) := by rw [div_one]; exact hbound
  obtain ⟨m, e, hpos, hu, hshape⟩ := hround.finite_of_le le_rfl hlarge
  rw [lt_zero_iff]
  unfold worth
  rw [hview]
  rcases hround.repack_eq with hrepack | hrepack
  · rw [hrepack, hu]
    refine ⟨_, rfl, exactly_lt_exactly.mpr ?_⟩
    have hscaled := scaled_pos hpos e
    linarith
  · rw [hrepack]
    exact ⟨_, rfl, WithBot.bot_lt_coe _⟩

theorem view_nearestRatio_zero {b : ℤ} (hb : 0 < b) : view (nearestRatio 0 b) = .zero .positive := by
  rw [view_nearestRatio, unrounded_of_pos hb]
  exact repack_zero .positive

theorem unsigned_nearestRatio {a b : ℤ} (ha : 0 ≤ a) (hb : 0 < b) :
    Unsigned (view (nearestRatio a b)) := by
  rcases ha.eq_or_lt with rfl | hpos
  · rw [view_nearestRatio_zero hb]
    exact .zero .positive
  · rw [view_nearestRatio, unrounded_of_pos hpos, unrounded_of_pos hb]
    exact (rounded_div .positive .positive 0 0 _ _).hasSign.unsigned

theorem nearestRatio_lt_zero_iff {a b : ℤ} (hb : 0 < b) (hb' : b ≤ 2 ^ 1074) :
    nearestRatio a b < 0 ↔ a < 0 := by
  constructor
  · intro h
    by_contra ha
    exact not_lt_zero_iff.mpr (unsigned_nearestRatio (not_lt.mp ha) hb) h
  · intro ha
    exact nearestRatio_lt_zero ha hb hb'

/-- A quotient of whole numbers is in range when the dividend has 64 bits. -/
theorem isInf_nearestRatio {a b : ℤ} (ha : a.natAbs ≤ 2 ^ 64) (hb : 0 < b) :
    (nearestRatio a b).isInf = false := by
  show (view (nearestRatio a b)).isInf = false
  by_cases hzero : a = 0
  · rw [hzero, view_nearestRatio_zero hb]
    rfl
  have hm : 0 < a.natAbs := by omega
  have hm' : 0 < b.natAbs := by omega
  obtain ⟨s, hs⟩ : ∃ s, unrounded a = .finite s a.natAbs 0 hm := by
    rcases lt_or_gt_of_ne hzero with hneg | hpos
    · exact ⟨.negative, unrounded_of_neg hneg⟩
    · exact ⟨.positive, unrounded_of_pos hpos⟩
  have hround := rounded_div s .positive 0 0 hm hm'
  have hle : scaled a.natAbs 0 / scaled b.natAbs 0 ≤ 2 ^ (1023 : ℤ) := by
    rw [scaled_zero_exponent, scaled_zero_exponent]
    have hone : (1 : ℚ) ≤ b.natAbs := by exact_mod_cast hm'
    calc (a.natAbs : ℚ) / b.natAbs ≤ a.natAbs / 1 := by gcongr
      _ = a.natAbs := div_one _
      _ ≤ 2 ^ (1023 : ℤ) := natCast_le_two_zpow ha (by norm_num)
  rw [view_nearestRatio, hs, unrounded_of_pos hb, hround.repack_of_le hle]
  rcases hround.form with hu | ⟨m, e, hpos, hu, -⟩
  · rw [hu]
    rfl
  · rw [hu]
    rfl

theorem worth_one : worth 1 = some (exactly 1) := by
  rw [← scaled_one]
  rfl

end Rounding

namespace Quantity

open Rounding

/-- A whole number that becomes a real becomes the nearest one. -/
theorem toReal?_eq_ofInt {n : ℤ} {x : Float} (h : toReal? (.whole n) = .ok x) :
    x = Float.ofInt n := by
  unfold toReal? at h
  dsimp only at h
  split at h
  · cases h
  · cases h
    rfl

/-- What is not negative becomes no negative real. -/
theorem not_lt_zero_of_toReal? {q : Quantity} {x : Float} (hq : ¬ q < .whole 0)
    (h : q.toReal? = .ok x) : ¬ x < 0 := by
  cases q with
  | whole n =>
      rw [whole_lt_whole, not_lt] at hq
      rw [toReal?_eq_ofInt h]
      exact not_lt_zero_iff.mpr (hasSign_ofInt hq).unsigned
  | real y =>
      cases h
      rwa [real_lt_whole_zero] at hq

/-- A share is not changed by becoming a real. -/
theorem worth_of_share {q : Quantity} (hlow : Quantity.real 0.0 ≤ q)
    (hhigh : q ≤ Quantity.real 1.0) :
    ∃ r : ℚ, worth q.toFloat = some (exactly r) ∧ q.amount = some (exactly r) ∧ 0 ≤ r ∧ r ≤ 1 := by
  obtain ⟨p, r, hp, hr, hpr⟩ := Quantity.le_iff_amount.mp hlow
  obtain ⟨r', t, hr', ht, hrt⟩ := Quantity.le_iff_amount.mp hhigh
  rw [hr] at hr'
  cases hr'
  cases hp.symm.trans worth_zero
  cases ht.symm.trans worth_one
  obtain ⟨r, rfl⟩ := between hpr hrt
  rw [exactly_le_exactly] at hpr hrt
  refine ⟨r, ?_, hr, hpr, hrt⟩
  cases q with
  | real x => exact hr
  | whole n =>
      -- Zero and one are the only whole shares.
      have hn : (n : ℚ) = r := by
        have hn : some (exactly n) = some (exactly r) := hr
        simpa [exactly] using hn
      rw [← hn] at hpr hrt ⊢
      have h0 : 0 ≤ n := by exact_mod_cast hpr
      have h1 : n ≤ 1 := by exact_mod_cast hrt
      obtain rfl | rfl : n = 0 ∨ n = 1 := by omega
      · exact worth_zero
      · exact worth_one

end Quantity

end LargeNeighborhood
