import Mathlib

set_option autoImplicit false

/-! # Rounding to 53 bits

A real of 64 bits is computed from an exact value that is kept as a whole mantissa with two more
bits, which tell the exact value apart from the mantissa, from the mantissa and a half, and from
what lies between (`Marks`). Shifting keeps that, so that the mantissa is rounded only once, and
what comes out is the nearest real (`Nearest`) and never passes a number that has a mantissa of 53
bits itself (`Rounded`). All that is said about the size of a computed real follows from this.
-/

namespace LargeNeighborhood

open Float.Model Float.Model.UnpackedFloat

namespace Rounding

/-! ## Extended mantissas -/

/-- An extended mantissa says where an exact value lies. -/
def Marks (em : ExtendedMantissa) (x : ℚ) : Prop :=
  match em with
  | ⟨m, false, false⟩ => x = m
  | ⟨m, false, true⟩ => m < x ∧ x < m + 1 / 2
  | ⟨m, true, false⟩ => x = m + 1 / 2
  | ⟨m, true, true⟩ => m + 1 / 2 < x ∧ x < m + 1

theorem marks_exact (m : ℕ) : Marks (.ofMantissaAndAccuracy m .exact) m := rfl

/-- A whole quotient, with the accuracy of what remains, marks the exact quotient. -/
theorem marks_quotient (n d : ℕ) (hd : 0 < d) :
    Marks (.ofMantissaAndAccuracy (n / d) (accuracyOfFraction (n % d) d)) (n / d) := by
  have hd' : (0 : ℚ) < d := by exact_mod_cast hd
  have hlt : ((n % d : ℕ) : ℚ) < d := by exact_mod_cast Nat.mod_lt n hd
  have hsplit : (n / d : ℚ) = (n / d : ℕ) + ((n % d : ℕ) : ℚ) / d := by
    rw [eq_comm, ← mul_left_inj' hd'.ne', add_mul, div_mul_cancel₀ _ hd'.ne',
      div_mul_cancel₀ _ hd'.ne']
    exact_mod_cast Nat.div_add_mod' n d
  rw [hsplit]
  unfold accuracyOfFraction
  by_cases hzero : n % d = 0
  · rw [if_pos hzero, hzero]
    simp [ExtendedMantissa.ofMantissaAndAccuracy, Marks]
  rw [if_neg hzero]
  have hpos : (0 : ℚ) < (n % d : ℕ) := by exact_mod_cast Nat.pos_of_ne_zero hzero
  have hfrac : (0 : ℚ) < ((n % d : ℕ) : ℚ) / d := div_pos hpos hd'
  have hone : ((n % d : ℕ) : ℚ) / d < 1 := (div_lt_one hd').mpr hlt
  -- The two bits tell how the rest compares with half of the divisor.
  rcases hc : compare (2 * (n % d)) d with _ | _ | _
  · have h : (2 * (n % d : ℕ) : ℚ) < d := by exact_mod_cast Nat.compare_eq_lt.mp hc
    have hhalf : ((n % d : ℕ) : ℚ) / d < 1 / 2 := by
      rw [div_lt_iff₀ hd']
      linarith
    exact ⟨by linarith, by linarith⟩
  · have h : (2 * (n % d : ℕ) : ℚ) = d := by exact_mod_cast Nat.compare_eq_eq.mp hc
    have hhalf : ((n % d : ℕ) : ℚ) / d = 1 / 2 := by
      rw [div_eq_iff hd'.ne']
      linarith
    simp only [ExtendedMantissa.ofMantissaAndAccuracy, Marks, hhalf]
  · have h : (d : ℚ) < (2 * (n % d : ℕ) : ℚ) := by exact_mod_cast Nat.compare_eq_gt.mp hc
    have hhalf : 1 / 2 < ((n % d : ℕ) : ℚ) / d := by
      rw [lt_div_iff₀ hd']
      linarith
    exact ⟨by linarith, by linarith⟩

theorem marks_shiftRightOne {em : ExtendedMantissa} {x : ℚ} (h : Marks em x) :
    Marks em.shiftRightOne (x / 2) := by
  obtain ⟨m, r, s⟩ := em
  obtain ⟨k, hk⟩ := Nat.even_or_odd' m
  -- The half bit becomes the bit shifted out; the old one only tells that more follows.
  rcases hk with rfl | rfl
  · have hhalf : 2 * k / 2 = k := by omega
    have hrest : 2 * k % 2 = 0 := by omega
    cases r <;> cases s <;>
      simp only [Marks, ExtendedMantissa.shiftRightOne, hhalf, hrest, bne_self_eq_false,
        Bool.or_false, Bool.or_true, Bool.or_self] at h ⊢ <;>
      push_cast at h
    · linarith
    · exact ⟨by linarith, by linarith⟩
    · exact ⟨by linarith, by linarith⟩
    · exact ⟨by linarith, by linarith⟩
  · have hhalf : (2 * k + 1) / 2 = k := by omega
    have hrest : (2 * k + 1) % 2 = 1 := by omega
    have hodd : (1 != 0) = true := rfl
    cases r <;> cases s <;>
      simp only [Marks, ExtendedMantissa.shiftRightOne, hhalf, hrest, hodd,
        Bool.or_false, Bool.or_true, Bool.or_self] at h ⊢ <;>
      push_cast at h
    · linarith
    · exact ⟨by linarith, by linarith⟩
    · exact ⟨by linarith, by linarith⟩
    · exact ⟨by linarith, by linarith⟩

theorem marks_shift {em : ExtendedMantissa} {x : ℚ} (h : Marks em x) (n : ℕ) :
    Marks (em >>> n) (x / 2 ^ n) := by
  induction n with
  | zero =>
      rw [pow_zero, div_one]
      exact h
  | succ n ih =>
      have hstep := marks_shiftRightOne ih
      rw [div_div, ← pow_succ] at hstep
      exact hstep

/-- A mantissa is not rounded past a whole number above its exact value. -/
theorem roundedMantissa_le {em : ExtendedMantissa} {x : ℚ} (h : Marks em x) {n : ℕ}
    (hx : x ≤ n) : em.roundedMantissa ≤ n := by
  obtain ⟨m, r, s⟩ := em
  cases r <;> cases s <;>
    simp only [Marks, ExtendedMantissa.roundedMantissa, ExtendedMantissa.accuracy,
      Accuracy.roundToNearestEven] at h ⊢
  · rw [h] at hx
    exact_mod_cast hx
  · have hlt : (m : ℚ) < n := lt_of_lt_of_le h.1 hx
    exact_mod_cast hlt.le
  · have hlt : (m : ℚ) < n := by linarith
    have hlt' : m < n := by exact_mod_cast hlt
    omega
  · have hlt : (m : ℚ) < n := by linarith
    have hlt' : m < n := by exact_mod_cast hlt
    omega

/-- A mantissa is not rounded past a whole number below its exact value. -/
theorem le_roundedMantissa {em : ExtendedMantissa} {x : ℚ} (h : Marks em x) {n : ℕ}
    (hx : n ≤ x) : n ≤ em.roundedMantissa := by
  obtain ⟨m, r, s⟩ := em
  -- Rounding goes down to the mantissa at worst, and that is the whole part of the exact value.
  have hlt : x < m + 1 := by
    cases r <;> cases s <;> simp only [Marks] at h <;> linarith
  have hle : n ≤ m := by
    have hlt' : (n : ℚ) < (m + 1 : ℕ) := by push_cast; linarith
    have hlt'' : n < m + 1 := by exact_mod_cast hlt'
    omega
  cases r <;> cases s <;>
    simp only [ExtendedMantissa.roundedMantissa, ExtendedMantissa.accuracy,
      Accuracy.roundToNearestEven] <;>
    omega

/-- A mantissa of more than one half is not rounded to nothing. -/
theorem roundedMantissa_pos {em : ExtendedMantissa} {x : ℚ} (h : Marks em x) (hx : 1 / 2 < x) :
    0 < em.roundedMantissa := by
  obtain ⟨m, r, s⟩ := em
  by_cases hm : m = 0
  · subst hm
    cases r <;> cases s <;> simp only [Marks, Nat.cast_zero] at h
    · linarith
    · linarith [h.2]
    · linarith
    · exact Nat.succ_pos 0
  · -- Rounding does not go below the mantissa.
    cases r <;> cases s <;>
      simp only [ExtendedMantissa.roundedMantissa, ExtendedMantissa.accuracy,
        Accuracy.roundToNearestEven] <;>
      omega

/-! ## Numbers of 53 bits -/

/-- A mantissa with its exponent as a number. -/
def scaled (m : ℕ) (e : ℤ) : ℚ := m * 2 ^ e

/-- Numbers that have a mantissa of 53 bits. -/
def Representable (y : ℚ) : Prop := ∃ (n : ℕ) (t : ℤ), n < 2 ^ 53 ∧ -1074 ≤ t ∧ y = scaled n t

theorem scaled_nonneg (m : ℕ) (e : ℤ) : 0 ≤ scaled m e := by
  unfold scaled
  positivity

theorem scaled_pos {m : ℕ} (hm : 0 < m) (e : ℤ) : 0 < scaled m e := by
  have hm' : (0 : ℚ) < m := by exact_mod_cast hm
  unfold scaled
  positivity

/-- Exponents are compared when mantissas are powers of two. -/
theorem two_zpow_le {a b : ℤ} (h : a ≤ b) : (2 : ℚ) ^ a ≤ 2 ^ b :=
  zpow_le_zpow_right₀ (by norm_num) h

theorem scaled_add (m k : ℕ) (e : ℤ) : scaled (m * 2 ^ k) e = scaled m (e + k) := by
  unfold scaled
  rw [zpow_add₀ (by norm_num), zpow_natCast]
  push_cast
  ring

theorem scaled_lt_two_zpow {m k : ℕ} (hm : m < 2 ^ k) (e : ℤ) : scaled m e < 2 ^ (e + k) := by
  unfold scaled
  have hm' : (m : ℚ) < 2 ^ k := by exact_mod_cast hm
  rw [zpow_add₀ (by norm_num), zpow_natCast, mul_comm]
  exact mul_lt_mul_of_pos_left hm' (by positivity)

theorem two_zpow_le_scaled {m k : ℕ} (hm : 2 ^ k ≤ m) (e : ℤ) : 2 ^ (e + k) ≤ scaled m e := by
  unfold scaled
  have hm' : (2 : ℚ) ^ k ≤ m := by exact_mod_cast hm
  rw [zpow_add₀ (by norm_num), zpow_natCast, mul_comm]
  exact mul_le_mul_of_nonneg_right hm' (by positivity)

theorem representable_scaled {n : ℕ} {t : ℤ} (hn : n ≤ 2 ^ 53) (ht : -1074 ≤ t) :
    Representable (scaled n t) := by
  by_cases hlt : n < 2 ^ 53
  · exact ⟨n, t, hlt, ht, rfl⟩
  · have heq : n = 2 ^ 52 * 2 ^ 1 := by omega
    rw [heq, scaled_add]
    exact ⟨2 ^ 52, t + (1 : ℕ), by norm_num, by omega, rfl⟩

theorem representable_natCast {n : ℕ} (hn : n ≤ 2 ^ 53) : Representable n := by
  have h := representable_scaled hn (t := 0) (by norm_num)
  rwa [scaled, zpow_zero, mul_one] at h

theorem representable_two_zpow {t : ℤ} (ht : -1074 ≤ t) : Representable (2 ^ t) := by
  have h := representable_scaled (n := 1) (by norm_num) ht
  rwa [scaled, Nat.cast_one, one_mul] at h

/-! ## Rounding -/

/-- The least exponent at which a number has at most 53 bits. -/
def target (m : ℕ) (e : ℤ) : ℤ := max (m.log2 + 1 + e - 53) (-1074)

theorem targetExponent_eq (m : ℕ) (e : ℤ) :
    Format.binary64.targetExponent (totalExponent m e) = target m e := rfl

/-- A mantissa and an exponent in the one form that a real has. -/
def Shape (m : ℕ) (e : ℤ) : Prop :=
  (2 ^ 52 ≤ m ∧ m < 2 ^ 53 ∧ -1074 ≤ e) ∨ (0 < m ∧ m < 2 ^ 52 ∧ e = -1074)

/-- The magnitude of a finite real; zero for the others. -/
def magnitude : UnpackedFloat → ℚ
  | .finite _ m e _ => scaled m e
  | _ => 0

/-- An exact magnitude rounded to a real of a given sign, which passes no number of 53 bits. It
vanishes only when it is at most half of the least real. -/
structure Rounded (s : Sign) (x : ℚ) (u : UnpackedFloat) : Prop where
  form : u = .zero s ∨ ∃ m e, ∃ hm : 0 < m, u = .finite s m e hm ∧ Shape m e
  le : ∀ y, Representable y → x ≤ y → magnitude u ≤ y
  ge : ∀ y, Representable y → y ≤ x → y ≤ magnitude u
  survives : 2 ^ (-1075 : ℤ) < x → 2 ^ (-1074 : ℤ) ≤ magnitude u

/-- A real with a rounded mantissa. A mantissa that has grown to 54 bits is halved. -/
def carried (s : Sign) (r : ℕ) (t : ℤ) : UnpackedFloat :=
  if hzero : r = 0 then .zero s
  else if r < 2 ^ 53 then .finite s r t (Nat.pos_of_ne_zero hzero)
  else .finite s (2 ^ 52) (t + 1) (by decide)

theorem magnitude_carried (s : Sign) {r : ℕ} (hr : r ≤ 2 ^ 53) (t : ℤ) :
    magnitude (carried s r t) = scaled r t := by
  unfold carried
  split
  · rename_i hzero
    simp [magnitude, hzero, scaled]
  split
  · rfl
  · have heq : r = 2 ^ 52 * 2 ^ 1 := by omega
    rw [heq, scaled_add]
    rfl

theorem carried_form (s : Sign) {r : ℕ} {t : ℤ} (ht : -1074 ≤ t)
    (hlow : -1074 < t → 2 ^ 52 ≤ r) :
    carried s r t = .zero s ∨
      ∃ m e, ∃ hm : 0 < m, carried s r t = .finite s m e hm ∧ Shape m e := by
  unfold carried
  split
  · exact Or.inl rfl
  rename_i hzero
  split
  · rename_i hlt
    refine Or.inr ⟨r, t, Nat.pos_of_ne_zero hzero, rfl, ?_⟩
    by_cases h : 2 ^ 52 ≤ r
    · exact Or.inl ⟨h, hlt, ht⟩
    · have hsub : ¬ -1074 < t := fun h' => h (hlow h')
      exact Or.inr ⟨Nat.pos_of_ne_zero hzero, by omega, by omega⟩
  · exact Or.inr ⟨2 ^ 52, t + 1, by norm_num, rfl, Or.inl ⟨le_refl _, by norm_num, by omega⟩⟩

/-- A number of 53 bits with a smaller exponent is below all that is rounded at a given one. -/
theorem scaled_lt_of_lt {n : ℕ} {t t' : ℤ} (hn : n < 2 ^ 53) (hlt : t' < t) :
    scaled n t' < 2 ^ 52 * 2 ^ t :=
  calc scaled n t' < 2 ^ (t' + (53 : ℕ)) := scaled_lt_two_zpow hn t'
    _ ≤ 2 ^ ((52 : ℕ) + t) := two_zpow_le (by push_cast; omega)
    _ = 2 ^ 52 * 2 ^ t := by rw [zpow_add₀ (by norm_num), zpow_natCast]

/-- A number with a larger exponent has a whole mantissa at a given one too. -/
theorem exists_scaled_eq (n : ℕ) {t t' : ℤ} (h : t ≤ t') :
    ∃ k : ℕ, scaled n t' = scaled (n * 2 ^ k) t := by
  obtain ⟨k, hk⟩ := Int.eq_ofNat_of_zero_le (show 0 ≤ t' - t by omega)
  refine ⟨k, ?_⟩
  rw [scaled_add]
  congr 1
  omega

/-- At a given exponent a number of 53 bits has a whole mantissa, unless it is below all that is
rounded there. -/
theorem Representable.lt_or_eq_scaled {y : ℚ} (hy : Representable y) (t : ℤ) :
    (-1074 < t ∧ y < 2 ^ 52 * 2 ^ t) ∨ ∃ k : ℕ, y = scaled k t := by
  obtain ⟨n, t', hn, ht', rfl⟩ := hy
  -- a smaller exponent means less than a full mantissa, any other a multiple of the unit
  by_cases hlt : t' < t
  · exact Or.inl ⟨by omega, scaled_lt_of_lt hn hlt⟩
  · obtain ⟨k, hk⟩ := exists_scaled_eq n (not_lt.mp hlt)
    exact Or.inr ⟨_, hk⟩

section Carried

variable {em : ExtendedMantissa} {x y : ℚ} {t : ℤ}

/-- A mantissa rounded at its target exponent does not pass a number of 53 bits above its exact
value. -/
theorem carried_le (s : Sign) (hx : Marks em x) (hhigh : x ≤ 2 ^ 53)
    (hnormal : -1074 < t → 2 ^ 52 ≤ x) (hy : Representable y) (hle : x * 2 ^ t ≤ y) :
    magnitude (carried s em.roundedMantissa t) ≤ y := by
  have hpos : (0 : ℚ) < 2 ^ t := by positivity
  rw [magnitude_carried s (roundedMantissa_le hx (by exact_mod_cast hhigh))]
  rcases hy.lt_or_eq_scaled t with ⟨ht, hsmall⟩ | ⟨k, rfl⟩
  · have hlong := mul_le_mul_of_nonneg_right (hnormal ht) hpos.le
    linarith
  · have hxk : x ≤ k := le_of_mul_le_mul_right hle hpos
    have hrk : (em.roundedMantissa : ℚ) ≤ k := by exact_mod_cast roundedMantissa_le hx hxk
    exact mul_le_mul_of_nonneg_right hrk hpos.le

/-- A mantissa rounded at its target exponent does not pass a number of 53 bits below its exact
value. -/
theorem le_carried (s : Sign) (hx : Marks em x) (hhigh : x ≤ 2 ^ 53)
    (hnormal : -1074 < t → 2 ^ 52 ≤ x) (hy : Representable y) (hle : y ≤ x * 2 ^ t) :
    y ≤ magnitude (carried s em.roundedMantissa t) := by
  have hpos : (0 : ℚ) < 2 ^ t := by positivity
  rw [magnitude_carried s (roundedMantissa_le hx (by exact_mod_cast hhigh))]
  rcases hy.lt_or_eq_scaled t with ⟨ht, hsmall⟩ | ⟨k, rfl⟩
  · have hlow : 2 ^ 52 ≤ em.roundedMantissa :=
      le_roundedMantissa hx (by exact_mod_cast hnormal ht)
    have hlow' : (2 ^ 52 : ℚ) ≤ em.roundedMantissa := by exact_mod_cast hlow
    exact hsmall.le.trans (mul_le_mul_of_nonneg_right hlow' hpos.le)
  · have hkx : k ≤ x := le_of_mul_le_mul_right hle hpos
    have hkr : (k : ℚ) ≤ em.roundedMantissa := by exact_mod_cast le_roundedMantissa hx hkx
    exact mul_le_mul_of_nonneg_right hkr hpos.le

/-- A mantissa at its target exponent whose exact value is above half of the least real does not
vanish when it is rounded. -/
theorem carried_survives (s : Sign) (hx : Marks em x) (ht : -1074 ≤ t) (hhigh : x ≤ 2 ^ 53)
    (hnormal : -1074 < t → 2 ^ 52 ≤ x) (hhalf : 2 ^ (-1075 : ℤ) < x * 2 ^ t) :
    2 ^ (-1074 : ℤ) ≤ magnitude (carried s em.roundedMantissa t) := by
  have hpos : (0 : ℚ) < 2 ^ t := by positivity
  have hr0 : 0 < em.roundedMantissa := by
    by_cases hsub : -1074 < t
    · exact lt_of_lt_of_le (by norm_num)
        (le_roundedMantissa hx (by exact_mod_cast hnormal hsub) : 2 ^ 52 ≤ em.roundedMantissa)
    · obtain rfl : t = -1074 := by omega
      apply roundedMantissa_pos hx
      rw [show (-1075 : ℤ) = -1 + -1074 from rfl, zpow_add₀ (by norm_num)] at hhalf
      have hlt := lt_of_mul_lt_mul_right hhalf hpos.le
      norm_num at hlt ⊢
      exact hlt
  rw [magnitude_carried s (roundedMantissa_le hx (by exact_mod_cast hhigh))]
  calc (2 : ℚ) ^ (-1074 : ℤ) ≤ 2 ^ (t + (0 : ℕ)) := two_zpow_le (by push_cast; omega)
    _ ≤ scaled em.roundedMantissa t := two_zpow_le_scaled (by rw [pow_zero]; exact hr0) t

/-- A mantissa at its target exponent is rounded to the nearest one. -/
theorem rounded_carried (s : Sign) (hx : Marks em x) (ht : -1074 ≤ t) (hhigh : x ≤ 2 ^ 53)
    (hnormal : -1074 < t → 2 ^ 52 ≤ x) :
    Rounded s (x * 2 ^ t) (carried s em.roundedMantissa t) where
  form := carried_form s ht fun h => le_roundedMantissa hx (by exact_mod_cast hnormal h)
  le := fun _ hy hle => carried_le s hx hhigh hnormal hy hle
  ge := fun _ hy hle => le_carried s hx hhigh hnormal hy hle
  survives := carried_survives s hx ht hhigh hnormal

end Carried

/-! ## Nearest reals -/

/-- An extended mantissa marks an exact magnitude at its last place: with 53 bits, or at the last
exponent. -/
structure AtLastPlace (em : ExtendedMantissa) (t : ℤ) (x : ℚ) : Prop where
  marks : Marks em (x / 2 ^ t)
  least : -1074 ≤ t
  short : x / 2 ^ t < 2 ^ 53
  long : -1074 < t → 2 ^ 52 ≤ x / 2 ^ t

/-- The real of a given sign that is nearest to an exact magnitude. The magnitude alone decides on
its last place, and there the mantissa is rounded. -/
def Nearest (s : Sign) (x : ℚ) (u : UnpackedFloat) : Prop :=
  ∃ em t, AtLastPlace em t x ∧ u = carried s em.roundedMantissa t

theorem Nearest.rounded {s : Sign} {x : ℚ} {u : UnpackedFloat} (h : Nearest s x u) :
    Rounded s x u := by
  obtain ⟨em, t, hplace, rfl⟩ := h
  have hround := rounded_carried s hplace.marks hplace.least hplace.short.le hplace.long
  rwa [div_mul_cancel₀ _ (by positivity)] at hround

/-! ## The arithmetic of reals -/

theorem mantissa_le {em : ExtendedMantissa} {x : ℚ} (h : Marks em x) : em.mantissa ≤ x := by
  obtain ⟨m, r, s⟩ := em
  cases r <;> cases s <;> simp only [Marks] at h <;> linarith

theorem lt_mantissa {em : ExtendedMantissa} {x : ℚ} (h : Marks em x) : x < em.mantissa + 1 := by
  obtain ⟨m, r, s⟩ := em
  cases r <;> cases s <;> simp only [Marks] at h <;> linarith

@[simp] theorem mantissa_ofMantissaAndAccuracy (m : ℕ) (a : Accuracy) :
    (ExtendedMantissa.ofMantissaAndAccuracy m a).mantissa = m := by
  rcases a with _ | _ | _ | _ <;> rfl

/-- A mantissa of at most 53 bits is left alone by the second shift. -/
theorem shiftToTargetExponent_small {r : ℕ} {t : ℤ} (hr : r < 2 ^ 53) (ht : -1074 ≤ t) :
    shiftToTargetExponent .binary64 r t .exact = (.ofMantissaAndAccuracy r .exact, t) := by
  have hlog : r.log2 ≤ 52 := by
    by_cases hzero : r = 0
    · simp [hzero]
    · have h := (Nat.log2_lt hzero).mpr hr
      omega
  have hshift : (target r t - t).toNat = 0 := by
    unfold target
    omega
  unfold shiftToTargetExponent shiftToExponent
  rw [targetExponent_eq]
  simp only [hshift]
  simp only [Int.ofNat_zero, Int.add_zero]
  rfl

theorem shiftToTargetExponent_carry {t : ℤ} (ht : -1074 ≤ t) :
    shiftToTargetExponent .binary64 (2 ^ 53) t .exact = (⟨2 ^ 52, false, false⟩, t + 1) := by
  have hshift : (target (2 ^ 53) t - t).toNat = 1 := by
    unfold target
    rw [Nat.log2_two_pow]
    omega
  unfold shiftToTargetExponent shiftToExponent
  rw [targetExponent_eq]
  simp only [hshift]
  rfl

/-- Rounding shifts once, rounds once and carries. -/
theorem roundWithAccuracy_eq (s : Sign) {m : ℕ} {e : ℤ} {a : Accuracy} {r : ℕ}
    (he : e ≤ target m e) (hr : r ≤ 2 ^ 53)
    (heq : (ExtendedMantissa.ofMantissaAndAccuracy m a >>>
      (target m e - e).toNat).roundedMantissa = r) :
    roundWithAccuracy .binary64 s m e a = carried s r (target m e) := by
  have ht : -1074 ≤ target m e := le_max_right _ _
  have hfirst : shiftToTargetExponent .binary64 m e a =
      (ExtendedMantissa.ofMantissaAndAccuracy m a >>> (target m e - e).toNat, target m e) := by
    unfold shiftToTargetExponent shiftToExponent
    rw [targetExponent_eq]
    have hexp : e + ((target m e - e).toNat : ℤ) = target m e := by omega
    simp only [hexp]
  unfold roundWithAccuracy
  simp only [hfirst, heq]
  unfold carried
  -- There is something to shift a second time only when rounding has carried to 54 bits.
  by_cases hlt : r < 2 ^ 53
  · simp only [shiftToTargetExponent_small hlt ht, mantissa_ofMantissaAndAccuracy, hlt, if_true]
  · have hmax : r = 2 ^ 53 := by omega
    simp only [hmax, shiftToTargetExponent_carry ht]
    rfl

/-- An exact value is rounded to the nearest real if at least 53 of its bits, or all bits down to
the last exponent, are given. -/
theorem nearest_roundWithAccuracy (s : Sign) {m : ℕ} {e : ℤ} {a : Accuracy} {x : ℚ}
    (hx : Marks (.ofMantissaAndAccuracy m a) x) (he : e ≤ target m e) :
    Nearest s (x * 2 ^ e) (roundWithAccuracy .binary64 s m e a) := by
  have hmx : (m : ℚ) ≤ x := by simpa using mantissa_le hx
  have hxm : x < m + 1 := by simpa using lt_mantissa hx
  obtain ⟨k, hk⟩ : ∃ k : ℕ, target m e = e + k := ⟨(target m e - e).toNat, by omega⟩
  have hshift : (target m e - e).toNat = k := by omega
  have hpos : (0 : ℚ) < 2 ^ k := by positivity
  have hmarks := marks_shift hx k
  -- The shift leaves at most 53 bits, and no fewer unless it has reached the last exponent.
  have hhigh : x / 2 ^ k < 2 ^ 53 := by
    have hlog : m + 1 ≤ 2 ^ (53 + k) := by
      have h1 : m < 2 ^ (m.log2 + 1) := Nat.lt_log2_self
      have h2 : 2 ^ (m.log2 + 1) ≤ 2 ^ (53 + k) := by
        apply Nat.pow_le_pow_right (by norm_num)
        unfold target at hk
        omega
      omega
    have hlog' : ((m : ℚ) + 1) ≤ 2 ^ (53 + k) := by exact_mod_cast hlog
    rw [div_lt_iff₀ hpos, ← pow_add]
    linarith
  have hnormal : -1074 < target m e → 2 ^ 52 ≤ x / 2 ^ k := by
    intro h
    have hlog : 52 + k = m.log2 := by
      unfold target at hk h
      omega
    have hm : m ≠ 0 := by
      rintro rfl
      simp at hlog
    have hpow : 2 ^ (52 + k) ≤ m := hlog ▸ Nat.log2_self_le hm
    have hpow' : (2 : ℚ) ^ (52 + k) ≤ m := by exact_mod_cast hpow
    rw [le_div_iff₀ hpos, ← pow_add]
    linarith
  have hvalue : x * 2 ^ e / 2 ^ target m e = x / 2 ^ k := by
    rw [hk, zpow_add₀ (by norm_num), zpow_natCast]
    field_simp
  rw [← hvalue] at hmarks hhigh hnormal
  refine ⟨_, target m e, ⟨hmarks, le_max_right _ _, hhigh, hnormal⟩, ?_⟩
  exact roundWithAccuracy_eq s he (roundedMantissa_le hmarks (by exact_mod_cast hhigh.le))
    (by rw [hshift])

theorem rounded_roundWithAccuracy (s : Sign) {m : ℕ} {e : ℤ} {a : Accuracy} {x : ℚ}
    (hx : Marks (.ofMantissaAndAccuracy m a) x) (he : e ≤ target m e) :
    Rounded s (x * 2 ^ e) (roundWithAccuracy .binary64 s m e a) :=
  (nearest_roundWithAccuracy s hx he).rounded

end Rounding

end LargeNeighborhood
