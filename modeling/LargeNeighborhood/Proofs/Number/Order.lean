import LargeNeighborhood.Number.Quantity
import LargeNeighborhood.Proofs.Number.Packing

set_option autoImplicit false

/-! # The order of reals

A real that is not undefined has a value, which is rational or infinite (`value`). Reals compare
as their values do (`compare_eq`): in the one form that a real has, the larger exponent belongs to
the larger magnitude, and the mantissa decides between equal exponents. So the order of reals is
that of a line with the undefined ones left out.
-/

namespace LargeNeighborhood

open Float.Model Float.Model.UnpackedFloat

namespace Rounding

/-! ## Values -/

/-- The rational numbers with an infinity at either end. -/
abbrev Extended := WithBot (WithTop ℚ)

/-- A rational number as an extended one. -/
def exactly (q : ℚ) : Extended := ((q : WithTop ℚ) : WithBot (WithTop ℚ))

@[simp] theorem exactly_lt_exactly {p q : ℚ} : exactly p < exactly q ↔ p < q := by
  simp [exactly]

@[simp] theorem exactly_le_exactly {p q : ℚ} : exactly p ≤ exactly q ↔ p ≤ q := by
  simp [exactly]

/-- What lies between two rational numbers is one. -/
theorem between {p : Extended} {a b : ℚ} (ha : exactly a ≤ p) (hb : p ≤ exactly b) :
    ∃ q : ℚ, p = exactly q := by
  rcases p with _ | _ | q
  · exact absurd ha (not_le.mpr (WithBot.bot_lt_coe _))
  · exact absurd hb (not_le.mpr (WithBot.coe_lt_coe.mpr (WithTop.coe_lt_top b)))
  · exact ⟨q, rfl⟩

/-- What an unpacked real stands for. -/
def value : UnpackedFloat → Option Extended
  | .notANumber => none
  | .infinity .negative => some ⊥
  | .infinity .positive => some ⊤
  | .zero _ => some (exactly 0)
  | .finite .negative m e _ => some (exactly (-scaled m e))
  | .finite .positive m e _ => some (exactly (scaled m e))

/-- An unpacked real in its own form. -/
def Formed (u : UnpackedFloat) : Prop := ∀ s m e hm, u = .finite s m e hm → Shape m e

theorem formed_view (x : Float) : Formed (view x) := by
  intro s m e hm h
  exact (shape_view h).1

/-! ## Comparing -/

/-- The larger exponent belongs to the larger magnitude. -/
theorem scaled_lt_scaled {m m' : ℕ} {e e' : ℤ} (h : Shape m e) (h' : Shape m' e') (he : e < e') :
    scaled m e < scaled m' e' := by
  have hm : m < 2 ^ 53 := by
    rcases h with ⟨-, hm, -⟩ | ⟨-, hm, -⟩ <;> omega
  have hm' : 2 ^ 52 ≤ m' := by
    rcases h with ⟨-, -, hmin⟩ | ⟨-, -, hmin⟩ <;>
      rcases h' with ⟨hm', -, -⟩ | ⟨-, -, hmin'⟩ <;> omega
  calc scaled m e < 2 ^ (e + (53 : ℕ)) := scaled_lt_two_zpow hm e
    _ ≤ 2 ^ (e' + (52 : ℕ)) := two_zpow_le (by push_cast; omega)
    _ ≤ scaled m' e' := two_zpow_le_scaled hm' e'

theorem scaled_mono {m m' : ℕ} (h : m < m') (e : ℤ) : scaled m e < scaled m' e := by
  unfold scaled
  have h' : (m : ℚ) < m' := by exact_mod_cast h
  exact mul_lt_mul_of_pos_right h' (by positivity)

/-- Magnitudes compare by their exponents, and by their mantissas when these are equal. -/
theorem compare_magnitude {m m' : ℕ} {e e' : ℤ} (h : Shape m e) (h' : Shape m' e') :
    (compare e e').then (compare m m') = cmp (scaled m e) (scaled m' e') := by
  rcases lt_trichotomy e e' with he | rfl | he
  · rw [compare_lt_iff_lt.mpr he, (cmp_eq_lt_iff _ _).mpr (scaled_lt_scaled h h' he)]
    rfl
  · rw [compare_eq_iff_eq.mpr rfl]
    rcases lt_trichotomy m m' with hm | rfl | hm
    · rw [compare_lt_iff_lt.mpr hm, (cmp_eq_lt_iff _ _).mpr (scaled_mono hm e)]
      rfl
    · rw [compare_eq_iff_eq.mpr rfl, (cmp_eq_eq_iff _ _).mpr rfl]
      rfl
    · rw [compare_gt_iff_gt.mpr hm, (cmp_eq_gt_iff _ _).mpr (scaled_mono hm e)]
      rfl
  · rw [compare_gt_iff_gt.mpr he, (cmp_eq_gt_iff _ _).mpr (scaled_lt_scaled h' h he)]
    rfl

theorem cmp_bot {q : ℚ} : cmp (⊥ : Extended) (exactly q) = .lt :=
  (cmp_eq_lt_iff _ _).mpr (WithBot.bot_lt_coe _)

theorem cmp_top {q : ℚ} : cmp (⊤ : Extended) (exactly q) = .gt := by
  rw [cmp_eq_gt_iff]
  exact WithBot.coe_lt_coe.mpr (WithTop.coe_lt_top q)

theorem cmp_exactly (p q : ℚ) : cmp (exactly p) (exactly q) = cmp p q := by
  rcases lt_trichotomy p q with h | rfl | h
  · rw [(cmp_eq_lt_iff _ _).mpr h, (cmp_eq_lt_iff _ _).mpr (exactly_lt_exactly.mpr h)]
  · rw [cmp_self_eq_eq, cmp_self_eq_eq]
  · rw [(cmp_eq_gt_iff _ _).mpr h, (cmp_eq_gt_iff _ _).mpr (exactly_lt_exactly.mpr h)]

theorem cmp_exactly_bot {q : ℚ} : cmp (exactly q) (⊥ : Extended) = .gt := by
  rw [← cmp_swap, cmp_bot]
  rfl

theorem cmp_exactly_top {q : ℚ} : cmp (exactly q) (⊤ : Extended) = .lt := by
  rw [← cmp_swap, cmp_top]
  rfl

theorem cmp_neg_neg (p q : ℚ) : cmp (-p) (-q) = (cmp p q).swap := by
  rw [cmp_swap]
  rcases lt_trichotomy p q with h | rfl | h
  · rw [(cmp_eq_gt_iff _ _).mpr h, (cmp_eq_gt_iff _ _).mpr (neg_lt_neg h)]
  · rw [cmp_self_eq_eq, cmp_self_eq_eq]
  · rw [(cmp_eq_lt_iff _ _).mpr h, (cmp_eq_lt_iff _ _).mpr (neg_lt_neg h)]

/-- Finite reals of one sign compare by their magnitudes, and others by their signs. -/
theorem compare_finite {s s' : Sign} {m m' : ℕ} {e e' : ℤ} (hm : 0 < m) (hm' : 0 < m')
    (h : Shape m e) (h' : Shape m' e') :
    (UnpackedFloat.finite s m e hm).compare (.finite s' m' e' hm') =
      match value (.finite s m e hm), value (.finite s' m' e' hm') with
      | some x, some y => some (cmp x y)
      | _, _ => none := by
  have hmagnitude := compare_magnitude h h'
  have hpos := scaled_pos hm e
  have hpos' := scaled_pos hm' e'
  cases s <;> cases s' <;> simp only [UnpackedFloat.compare, value, cmp_exactly, hmagnitude]
  · -- Below zero the larger magnitude is the smaller number.
    rw [cmp_neg_neg]
  · have hlt : -scaled m e < scaled m' e' := by linarith
    rw [(cmp_eq_lt_iff _ _).mpr hlt]
  · have hgt : -scaled m' e' < scaled m e := by linarith
    rw [(cmp_eq_gt_iff _ _).mpr hgt]

/-- Reals compare as their values do. -/
theorem compare_eq {a b : UnpackedFloat} (ha : Formed a) (hb : Formed b) :
    a.compare b = match value a, value b with
      | some x, some y => some (cmp x y)
      | _, _ => none := by
  have hpos : ∀ m e, 0 < m → cmp (scaled m e) 0 = .gt :=
    fun m e hm => (cmp_eq_gt_iff _ _).mpr (scaled_pos hm e)
  have hpos' : ∀ m e, 0 < m → cmp 0 (scaled m e) = .lt :=
    fun m e hm => (cmp_eq_lt_iff _ _).mpr (scaled_pos hm e)
  have hneg : ∀ m e, 0 < m → cmp (-scaled m e) 0 = .lt :=
    fun m e hm => (cmp_eq_lt_iff _ _).mpr (neg_neg_of_pos (scaled_pos hm e))
  have hneg' : ∀ m e, 0 < m → cmp 0 (-scaled m e) = .gt :=
    fun m e hm => (cmp_eq_gt_iff _ _).mpr (neg_neg_of_pos (scaled_pos hm e))
  -- Only two finite reals of one sign are compared by their magnitudes.
  rcases a with s | _ | s | ⟨s, m, e, hm⟩
  · rcases b with s' | _ | s' | ⟨s', m', e', hm'⟩
    · cases s <;> cases s' <;> rfl
    · cases s <;> rfl
    · cases s <;> simp only [UnpackedFloat.compare, value, cmp_bot, cmp_top]
    · cases s <;> cases s' <;> simp only [UnpackedFloat.compare, value, cmp_bot, cmp_top]
  · rfl
  · rcases b with s' | _ | s' | ⟨s', m', e', hm'⟩
    · cases s' <;> simp only [UnpackedFloat.compare, value, cmp_exactly_bot, cmp_exactly_top]
    · rfl
    · simp only [UnpackedFloat.compare, value, cmp_self_eq_eq]
    · cases s' <;> simp only [UnpackedFloat.compare, value, cmp_exactly, hpos', hneg', hm']
  · rcases b with s' | _ | s' | ⟨s', m', e', hm'⟩
    · cases s <;> cases s' <;>
        simp only [UnpackedFloat.compare, value, cmp_exactly_bot, cmp_exactly_top]
    · cases s <;> rfl
    · cases s <;> simp only [UnpackedFloat.compare, value, cmp_exactly, hpos, hneg, hm]
    · exact compare_finite hm hm' (ha _ _ _ _ rfl) (hb _ _ _ _ rfl)

/-! ## Reals in order -/

section

variable {x y z : Float}

/-- What a real stands for, unless it is undefined. -/
def worth (x : Float) : Option Extended := value (view x)

theorem worth_zero : worth 0 = some (exactly 0) := rfl

theorem compare_view (x y : Float) : (view x).compare (view y) =
    match worth x, worth y with
      | some p, some q => some (cmp p q)
      | _, _ => none := compare_eq (formed_view x) (formed_view y)

theorem lt_iff_compare : x < y ↔ (view x).compare (view y) = some .lt := by
  show (decide ((x.toModel.lt y.toModel) = true)) = true ↔ _
  rw [decide_eq_true_iff]
  exact beq_iff_eq

theorem le_iff_compare : x ≤ y ↔ ((view x).compare (view y)).any Ordering.isLE = true := by
  show (decide ((x.toModel.le y.toModel) = true)) = true ↔ _
  rw [decide_eq_true_iff]
  rfl

theorem lt_iff : x < y ↔ ∃ p q, worth x = some p ∧ worth y = some q ∧ p < q := by
  rw [lt_iff_compare, compare_view]
  rcases worth x with _ | p <;> rcases worth y with _ | q <;> simp [cmp_eq_lt_iff]

theorem le_iff : x ≤ y ↔ ∃ p q, worth x = some p ∧ worth y = some q ∧ p ≤ q := by
  rw [le_iff_compare, compare_view]
  rcases worth x with _ | p <;> rcases worth y with _ | q <;>
    simp [Ordering.isLE_iff_ne_gt, cmp_eq_gt_iff]

theorem zero_lt_iff : 0 < x ↔ ∃ q, worth x = some q ∧ exactly 0 < q := by
  simp [lt_iff, worth_zero]

theorem zero_le_iff : 0 ≤ x ↔ ∃ q, worth x = some q ∧ exactly 0 ≤ q := by
  simp [le_iff, worth_zero]

theorem lt_zero_iff : x < 0 ↔ ∃ p, worth x = some p ∧ p < exactly 0 := by
  simp [lt_iff, worth_zero]

theorem le_zero_iff : x ≤ 0 ↔ ∃ p, worth x = some p ∧ p ≤ exactly 0 := by
  simp [le_iff, worth_zero]

theorem gt_iff_compare : y < x ↔ (view x).compare (view y) = some .gt := by
  rw [lt_iff, compare_view]
  rcases worth x with _ | p <;> rcases worth y with _ | q <;> simp [cmp_eq_gt_iff]

theorem beq_iff_compare : (x == y) = true ↔ (view x).compare (view y) = some .eq := by
  show ((view x).compare (view y) == some .eq) = true ↔ _
  exact beq_iff_eq

theorem real_le_of_lt (h : x < y) : x ≤ y := by
  obtain ⟨p, q, hx, hy, hpq⟩ := lt_iff.mp h
  exact le_iff.mpr ⟨p, q, hx, hy, hpq.le⟩

theorem real_not_le_of_lt (h : x < y) : ¬ y ≤ x := by
  intro hle
  obtain ⟨p, q, hx, hy, hpq⟩ := lt_iff.mp h
  obtain ⟨q', p', hy', hx', hqp⟩ := le_iff.mp hle
  rw [hx] at hx'
  rw [hy] at hy'
  cases hx'
  cases hy'
  exact absurd hpq (not_lt.mpr hqp)

theorem real_le_trans (hxy : x ≤ y) (hyz : y ≤ z) : x ≤ z := by
  obtain ⟨p, q, hx, hy, hpq⟩ := le_iff.mp hxy
  obtain ⟨q', r, hy', hz, hqr⟩ := le_iff.mp hyz
  rw [hy] at hy'
  cases hy'
  exact le_iff.mpr ⟨p, r, hx, hz, hpq.trans hqr⟩

theorem real_lt_of_lt_of_le (hxy : x < y) (hyz : y ≤ z) : x < z := by
  obtain ⟨p, q, hx, hy, hpq⟩ := lt_iff.mp hxy
  obtain ⟨q', r, hy', hz, hqr⟩ := le_iff.mp hyz
  rw [hy] at hy'
  cases hy'
  exact lt_iff.mpr ⟨p, r, hx, hz, hpq.trans_le hqr⟩

theorem real_lt_of_le_of_lt (hxy : x ≤ y) (hyz : y < z) : x < z := by
  obtain ⟨p, q, hx, hy, hpq⟩ := le_iff.mp hxy
  obtain ⟨q', r, hy', hz, hqr⟩ := lt_iff.mp hyz
  rw [hy] at hy'
  cases hy'
  exact lt_iff.mpr ⟨p, r, hx, hz, hpq.trans_lt hqr⟩

/-- What is finite has a value. -/
theorem worth_of_isFinite (h : x.isFinite = true) : ∃ q : ℚ, worth x = some (exactly q) := by
  have hfinite : (view x).isFinite = true := h
  unfold worth
  rcases hview : view x with s | _ | s | ⟨s, m, e, hm⟩
  · rw [hview] at hfinite
    cases hfinite
  · rw [hview] at hfinite
    cases hfinite
  · exact ⟨0, rfl⟩
  · cases s
    · exact ⟨-scaled m e, rfl⟩
    · exact ⟨scaled m e, rfl⟩

/-- Reals that have values are in order. -/
theorem real_le_of_not_lt {p q : Extended} (hx : worth x = some p) (hy : worth y = some q)
    (h : ¬ x < y) : y ≤ x := by
  refine le_iff.mpr ⟨q, p, hy, hx, ?_⟩
  by_contra hlt
  exact h (lt_iff.mpr ⟨p, q, hx, hy, not_le.mp hlt⟩)

end

/-! ## Whole numbers and reals -/

theorem magnitude_ratio (m : ℕ) (e : ℤ) :
    ((Binary.magnitude m e).1 : ℚ) / (Binary.magnitude m e).2 = scaled m e := by
  unfold Binary.magnitude scaled
  split
  · rename_i he
    obtain ⟨k, rfl⟩ := Int.eq_ofNat_of_zero_le he
    simp [twoTo]
  · rename_i he
    obtain ⟨k, hk⟩ : ∃ k : ℕ, e = -(k : ℤ) := ⟨(-e).toNat, by omega⟩
    subst hk
    simp [twoTo, div_eq_mul_inv]

/-- Whole numbers are compared with a quotient by cross multiplication. -/
theorem compare_mul (n k : ℤ) {d : ℕ} (hd : 0 < d) :
    compare (n * d) k = cmp (exactly n) (exactly (k / d)) := by
  have hd' : (0 : ℚ) < d := by exact_mod_cast hd
  rw [cmp_exactly]
  rcases lt_trichotomy (n * d) k with h | h | h
  · have hlt : (n : ℚ) < k / d := by
      rw [lt_div_iff₀ hd']
      exact_mod_cast h
    rw [Int.compare_eq_lt.mpr h, (cmp_eq_lt_iff _ _).mpr hlt]
  · have heq : (n : ℚ) = k / d := by
      rw [eq_div_iff hd'.ne']
      exact_mod_cast h
    rw [Int.compare_eq_eq.mpr h, heq, cmp_self_eq_eq]
  · have hgt : (k : ℚ) / d < n := by
      rw [div_lt_iff₀ hd']
      exact_mod_cast h
    rw [Int.compare_eq_gt.mpr h, (cmp_eq_gt_iff _ _).mpr hgt]

/-- A whole number compares with a finite real as with its magnitude under its sign. -/
theorem compareWhole_finite (n : ℤ) (s : Sign) (m : ℕ) (e : ℤ) :
    Binary.compareWhole n (.finite (isNegative s) m e) =
      some (cmp (exactly n) (exactly (if isNegative s then -scaled m e else scaled m e))) := by
  show some (compare (n * ((Binary.magnitude m e).2 : ℤ))
    (Binary.signed (isNegative s) (Binary.magnitude m e).1)) = _
  rw [compare_mul n _ (Binary.magnitude_snd_pos m e), ← magnitude_ratio]
  cases s with
  | positive => rfl
  | negative =>
      have hsigned : (Binary.signed (isNegative .negative) (Binary.magnitude m e).1 : ℤ) =
          -((Binary.magnitude m e).1 : ℤ) := rfl
      rw [hsigned]
      push_cast
      rw [neg_div]
      rfl

/-- A whole number compares with a real as their values do. -/
theorem compareWhole_eq (n : ℤ) (x : Float) :
    Binary.compareWhole n (.ofFloat x) = (worth x).map (cmp (exactly n)) := by
  unfold worth
  rw [ofFloat_eq]
  rcases view x with s | _ | s | ⟨s, m, e, hm⟩
  · cases s with
    | positive =>
      show some Ordering.lt = some (cmp (exactly n) ⊤)
      rw [cmp_exactly_top]
    | negative =>
      show some Ordering.gt = some (cmp (exactly n) ⊥)
      rw [cmp_exactly_bot]
  · rfl
  · show Binary.compareWhole n (.finite (isNegative s) 0 (-1074)) = some (cmp (exactly n) (exactly 0))
    rw [compareWhole_finite]
    cases s <;> simp [scaled]
  · show Binary.compareWhole n (.finite (isNegative s) m e) = _
    rw [compareWhole_finite]
    cases s <;> rfl

end Rounding

/-! ## Quantities in order -/

namespace Quantity

open Rounding

/-- Quantities that are reals compare as the reals do. -/
theorem compare?_real (x y : Float) :
    compare? (.real x) (.real y) = (view x).compare (view y) := by
  have hdef : compare? (.real x) (.real y) = if x < y then some .lt else if y < x then some .gt
      else if x == y then some .eq else none := rfl
  rw [hdef, if_congr lt_iff_compare rfl
    (if_congr gt_iff_compare rfl (if_congr beq_iff_compare rfl rfl))]
  rcases (view x).compare (view y) with _ | _ | _ | _ <;> rfl

theorem real_lt_real {x y : Float} : Quantity.real x < Quantity.real y ↔ x < y := by
  show compare? (.real x) (.real y) = some .lt ↔ x < y
  rw [compare?_real, lt_iff_compare]

theorem real_le_real {x y : Float} : Quantity.real x ≤ Quantity.real y ↔ x ≤ y := by
  show (compare? (.real x) (.real y) = some .lt ∨ compare? (.real x) (.real y) = some .eq) ↔ x ≤ y
  rw [compare?_real, le_iff_compare]
  rcases (view x).compare (view y) with _ | _ | _ | _ <;> simp

/-- What a quantity stands for, unless it is undefined. -/
def amount : Quantity → Option Extended
  | .whole n => some (exactly n)
  | .real x => worth x

/-- Quantities compare as their values do. -/
theorem compare?_amount (a b : Quantity) : compare? a b =
    match a.amount, b.amount with
      | some p, some q => some (cmp p q)
      | _, _ => none := by
  cases a with
  | whole m =>
      cases b with
      | whole n =>
          show some (compare m n) = some (cmp (exactly m) (exactly n))
          have h := compare_mul m n Nat.one_pos
          simpa using h
      | real y =>
          show Binary.compareWhole m (.ofFloat y) = _
          rw [compareWhole_eq]
          show (worth y).map _ = match some (exactly m), worth y with
            | some p, some q => some (cmp p q)
            | _, _ => none
          cases worth y <;> rfl
  | real x =>
      cases b with
      | whole n =>
          -- compared the other way round, and swapped
          show (Binary.compareWhole n (.ofFloat x)).map Ordering.swap = _
          rw [compareWhole_eq]
          show ((worth x).map _).map Ordering.swap = match worth x, some (exactly n) with
            | some p, some q => some (cmp p q)
            | _, _ => none
          cases worth x with
          | none => rfl
          | some p =>
              show some (cmp (exactly n) p).swap = some (cmp p (exactly n))
              rw [cmp_swap]
      | real y =>
          rw [compare?_real, compare_view]
          rfl

theorem lt_iff_amount {a b : Quantity} :
    a < b ↔ ∃ p q, a.amount = some p ∧ b.amount = some q ∧ p < q := by
  show compare? a b = some .lt ↔ _
  rw [compare?_amount]
  rcases a.amount with _ | p <;> rcases b.amount with _ | q <;> simp [cmp_eq_lt_iff]

theorem le_iff_amount {a b : Quantity} :
    a ≤ b ↔ ∃ p q, a.amount = some p ∧ b.amount = some q ∧ p ≤ q := by
  show (compare? a b = some .lt ∨ compare? a b = some .eq) ↔ _
  rw [compare?_amount]
  rcases a.amount with _ | p <;> rcases b.amount with _ | q <;>
    simp [cmp_eq_lt_iff, le_iff_lt_or_eq]

theorem same_iff_amount {a b : Quantity} :
    a.same b = true ↔ ∃ p, a.amount = some p ∧ b.amount = some p := by
  show (compare? a b == some .eq) = true ↔ _
  rw [compare?_amount, beq_iff_eq]
  rcases a.amount with _ | p
  · simp
  rcases b.amount with _ | q
  · simp
  · show some (cmp p q) = some .eq ↔ _
    rw [Option.some_inj, cmp_eq_eq_iff]
    simp [eq_comm]

/-- A real compares with zero as a whole number as it does with zero as a real. -/
theorem real_lt_whole_zero {x : Float} : Quantity.real x < Quantity.whole 0 ↔ x < 0 := by
  rw [lt_iff_amount, lt_iff]
  rfl

/-- A finite real is not negative unless it compares so with zero as a whole number. -/
theorem zero_le_of_not_lt {x : Float} (hx : x.isFinite = true)
    (h : ¬ Quantity.real x < Quantity.whole 0) : 0 ≤ x := by
  obtain ⟨q, hq⟩ := worth_of_isFinite hx
  exact real_le_of_not_lt hq worth_zero fun hneg => h (real_lt_whole_zero.mpr hneg)

end Quantity

end LargeNeighborhood
