import LargeNeighborhood.Proofs.Number.Difference

set_option autoImplicit false

/-! # Square roots

The root of a real is rounded once. The exact root is no rational number in general, but rounding
only asks on which side of some rational number it lies, and there is always a rational number on
the same side that the mantissa of the root marks (`exists_marks_root`). So the rounded root never
passes a number of 53 bits that the exact one does not pass (`le_sqrt`, `sqrt_le`).

For whole numbers up to `2 ^ 52` that is enough to find the whole part of the root
(`exists_worth_sqrt`): below a perfect square there is a number of 53 bits between the root and
the next whole number. Above `2 ^ 52` there need not be one.
-/

namespace LargeNeighborhood

open Float.Model Float.Model.UnpackedFloat

namespace Rounding

/-! ## Roots of whole numbers -/

/-- Between two bounds of a root there is a number on the same side of a given one as the root. -/
theorem exists_between_root {n low high y : ℚ} (hlow : 0 ≤ low) (hy : 0 ≤ y) (hn : low ^ 2 < n)
    (hn' : n < high ^ 2) (hlt : low < high) :
    ∃ x, (low < x ∧ x < high) ∧ (y ^ 2 ≤ n → y ≤ x) ∧ (n ≤ y ^ 2 → x ≤ y) := by
  by_cases hbelow : y ≤ low
  · have hsquare : y ^ 2 ≤ low ^ 2 := pow_le_pow_left₀ hy hbelow 2
    exact ⟨(low + high) / 2, ⟨by linarith, by linarith⟩, fun _ => by linarith,
      fun h => absurd h (by linarith)⟩
  by_cases habove : high ≤ y
  · have hsquare : high ^ 2 ≤ y ^ 2 := pow_le_pow_left₀ (by linarith) habove 2
    exact ⟨(low + high) / 2, ⟨by linarith, by linarith⟩, fun h => absurd h (by linarith),
      fun _ => by linarith⟩
  · exact ⟨y, ⟨not_le.mp hbelow, not_le.mp habove⟩, fun _ => le_rfl, fun _ => le_rfl⟩

/-- How the root of a whole number compares with its whole part and a half. -/
def rootAccuracy (n : ℕ) : Accuracy :=
  if n - n.sqrt * n.sqrt = 0 then .exact
  else .inexact (if n - n.sqrt * n.sqrt ≤ n.sqrt then .lt else .gt)

/-- The whole part of a root, with its accuracy, marks a number on the same side of a given one as
the root. -/
theorem exists_marks_root (n : ℕ) {y : ℚ} (hy : 0 ≤ y) :
    ∃ x, Marks (.ofMantissaAndAccuracy n.sqrt (rootAccuracy n)) x ∧
      (y ^ 2 ≤ n → y ≤ x) ∧ (n ≤ y ^ 2 → x ≤ y) := by
  have hle : n.sqrt * n.sqrt ≤ n := Nat.sqrt_le n
  have hlt : n < (n.sqrt + 1) * (n.sqrt + 1) := Nat.lt_succ_sqrt n
  unfold rootAccuracy
  generalize n.sqrt = r at hle hlt ⊢
  have hr : (0 : ℚ) ≤ r := Nat.cast_nonneg r
  have hnext : (n : ℚ) < (r + 1) ^ 2 := by
    have hcast : (n : ℚ) < ((r + 1) * (r + 1) : ℕ) := by exact_mod_cast hlt
    push_cast at hcast
    linarith
  by_cases hexact : n - r * r = 0
  · have hn : (n : ℚ) = r ^ 2 := by
      have hsquare : n = r * r := by omega
      rw [hsquare]
      push_cast
      ring
    rw [if_pos hexact, hn]
    exact ⟨r, rfl, fun h => (pow_le_pow_iff_left₀ hy hr two_ne_zero).mp h,
      fun h => (pow_le_pow_iff_left₀ hr hy two_ne_zero).mp h⟩
  have habove : (r : ℚ) ^ 2 < n := by
    have hcast : ((r * r : ℕ) : ℚ) < n := by exact_mod_cast (by omega : r * r < n)
    push_cast at hcast
    linarith
  rw [if_neg hexact]
  -- Twice the root is odd when it is whole, so that the root is never a half.
  by_cases hhalf : n - r * r ≤ r
  · have hn : (n : ℚ) < (r + 1 / 2) ^ 2 := by
      have hcast : (n : ℚ) ≤ (r * r + r : ℕ) := by exact_mod_cast (by omega : n ≤ r * r + r)
      push_cast at hcast
      linarith
    rw [if_pos hhalf]
    exact exists_between_root hr hy habove hn (by linarith)
  · have hn : ((r : ℚ) + 1 / 2) ^ 2 < n := by
      have hcast : ((r * r + r + 1 : ℕ) : ℚ) ≤ n := by
        exact_mod_cast (by omega : r * r + r + 1 ≤ n)
      push_cast at hcast
      linarith
    rw [if_neg hhalf]
    exact exists_between_root (by linarith) hy hn hnext (by linarith)

/-! ## Roots of reals -/

/-- The exponent of a root: such that twice as much is left over to the radicand for all bits of the
root to be there. -/
def rootExponent (m : ℕ) (e : ℤ) : ℤ :=
  min (e / 2) (max ((m.log2 + 1 + e + 1) / 2 - 53) (-1074))

/-- The radicand at twice the exponent of the root. -/
def radicand (m : ℕ) (e : ℤ) : ℕ := m * 2 ^ (e - 2 * rootExponent m e).toNat

theorem sqrt_eq {m : ℕ} (e : ℤ) (hm : 0 < m) :
    UnpackedFloat.sqrt .binary64 (.finite .positive m e hm) =
      roundWithAccuracy .binary64 .positive (radicand m e).sqrt (rootExponent m e)
        (rootAccuracy (radicand m e)) := by
  unfold UnpackedFloat.sqrt sqrtCore
  simp only [Nat.shiftLeft_eq]
  rfl

theorem scaled_radicand (m : ℕ) (e : ℤ) :
    scaled m e = radicand m e * (2 ^ rootExponent m e) ^ 2 := by
  have hle : 2 * rootExponent m e ≤ e := by
    have hhalf : rootExponent m e ≤ e / 2 := min_le_left _ _
    omega
  have hshift := scaled_decrease m hle
  rw [← hshift]
  unfold scaled radicand
  rw [← zpow_natCast, ← zpow_mul]
  congr 2
  push_cast
  ring

/-- The root has 53 bits, or all bits down to the last exponent. -/
theorem rootExponent_le_target {m : ℕ} (e : ℤ) (hm : 0 < m) :
    rootExponent m e ≤ target (radicand m e).sqrt (rootExponent m e) := by
  by_cases hlast : rootExponent m e ≤ -1074
  · exact hlast.trans (le_max_right _ _)
  have hexp : rootExponent m e ≤ (m.log2 + 1 + e + 1) / 2 - 53 ∧ 2 * rootExponent m e ≤ e := by
    unfold rootExponent at hlast ⊢
    omega
  obtain ⟨k, hk⟩ : ∃ k : ℕ, (e - 2 * rootExponent m e).toNat = k := ⟨_, rfl⟩
  -- above the last exponent the radicand has at least 105 bits, hence its root 53
  have hlog : 104 ≤ (radicand m e).log2 := by
    unfold radicand
    rw [hk, log2_mul_two_pow hm]
    omega
  have hpow : 2 ^ 104 ≤ radicand m e := by
    have hne : radicand m e ≠ 0 := by
      intro hzero
      rw [hzero] at hlog
      simp at hlog
    exact (Nat.le_log2 hne).mp hlog
  have hroot : 2 ^ 52 ≤ (radicand m e).sqrt := by
    rw [Nat.le_sqrt]
    exact hpow
  have hbits : 52 ≤ (radicand m e).sqrt.log2 := (Nat.le_log2 (by omega)).mpr hroot
  unfold target
  omega

/-- The root of a real is rounded once, from a number that lies on the same side of a given one as
the exact root. -/
theorem exists_rounded_sqrt {m : ℕ} (e : ℤ) (hm : 0 < m) {y : ℚ} (hy : 0 ≤ y) :
    ∃ x, Rounded .positive x (UnpackedFloat.sqrt .binary64 (.finite .positive m e hm)) ∧
      (y ^ 2 ≤ scaled m e → y ≤ x) ∧ (scaled m e ≤ y ^ 2 → x ≤ y) := by
  have hpos : (0 : ℚ) < 2 ^ rootExponent m e := by positivity
  have hscaled : (y / 2 ^ rootExponent m e) ^ 2 * (2 ^ rootExponent m e) ^ 2 = y ^ 2 := by
    rw [← mul_pow, div_mul_cancel₀ _ hpos.ne']
  obtain ⟨x, hmarks, hle, hge⟩ := exists_marks_root (radicand m e)
    (div_nonneg hy hpos.le : 0 ≤ y / 2 ^ rootExponent m e)
  refine ⟨x * 2 ^ rootExponent m e, ?_, ?_, ?_⟩
  · rw [sqrt_eq]
    exact rounded_roundWithAccuracy .positive hmarks (rootExponent_le_target e hm)
  · intro h
    rw [scaled_radicand, ← hscaled] at h
    exact (div_le_iff₀ hpos).mp (hle (le_of_mul_le_mul_right h (by positivity)))
  · intro h
    rw [scaled_radicand, ← hscaled] at h
    exact (le_div_iff₀ hpos).mp (hge (le_of_mul_le_mul_right h (by positivity)))

theorem view_sqrt (x : Float) : view x.sqrt = repack (UnpackedFloat.sqrt .binary64 (view x)) := rfl

/-- No root is negative; of what is, there is none. -/
theorem unsigned_sqrt (x : Float) : Unsigned (view x.sqrt) := by
  rw [view_sqrt]
  rcases view x with s | _ | s | ⟨s, m, e, hm⟩
  · cases s with
    | negative => exact unsigned_repack_notANumber
    | positive => exact unsigned_repack_infinity
  · exact unsigned_repack_notANumber
  · exact unsigned_repack_zero s
  · cases s with
    | negative => exact unsigned_repack_notANumber
    | positive =>
        obtain ⟨r, hround, -⟩ := exists_rounded_sqrt e hm le_rfl
        exact hround.hasSign.unsigned

/-! ## Whole parts of roots -/

/-- A root of at most 26 bits that is not whole is at most the next whole number less `2 ^ (-27)`,
which has 53 bits. -/
theorem exists_root_bound_of_lt {n k : ℕ} (hk : k + 1 ≤ 2 ^ 26) (hlt : n < (k + 1) * (k + 1)) :
    ∃ c : ℚ, Representable c ∧ (n : ℚ) ≤ c ^ 2 ∧ 0 ≤ c ∧ c < k + 1 := by
  have hk' : ((k : ℚ) + 1) ≤ 2 ^ 26 := by exact_mod_cast hk
  have hbits : (k + 1) * 2 ^ 27 - 1 ≤ 2 ^ 53 := by
    have hbound := Nat.mul_le_mul_right (2 ^ 27) hk
    omega
  have hc : scaled ((k + 1) * 2 ^ 27 - 1) (-27) = (k : ℚ) + 1 - 2 ^ (-27 : ℤ) := by
    have hone : 1 ≤ (k + 1) * 2 ^ 27 := by omega
    unfold scaled
    rw [Nat.cast_sub hone]
    push_cast
    norm_num
    ring
  -- below the next square is at least one below it
  have hnext : (n : ℚ) ≤ (k + 1) ^ 2 - 1 := by
    have hcast : ((n + 1 : ℕ) : ℚ) ≤ ((k + 1) * (k + 1) : ℕ) := by exact_mod_cast hlt
    push_cast at hcast
    linarith
  have hsmall : (2 : ℚ) ^ (-27 : ℤ) = 1 / 2 ^ 27 := by norm_num
  refine ⟨_, representable_scaled hbits (show -1074 ≤ -27 by norm_num), ?_, scaled_nonneg _ _, ?_⟩
  · rw [hc, hsmall]
    have hk0 : (0 : ℚ) ≤ k := Nat.cast_nonneg k
    nlinarith
  · rw [hc, hsmall]
    linarith [show (0 : ℚ) < 1 / 2 ^ 27 by norm_num]

/-- Below the next whole number there is a number of 53 bits that the root of a whole number up to
`2 ^ 52` does not pass. -/
theorem exists_root_bound {n : ℕ} (hn : n ≤ 2 ^ 52) :
    ∃ c : ℚ, Representable c ∧ (n : ℚ) ≤ c ^ 2 ∧ 0 ≤ c ∧ c < n.sqrt + 1 := by
  have hle : n.sqrt * n.sqrt ≤ n := Nat.sqrt_le n
  have hlt : n < (n.sqrt + 1) * (n.sqrt + 1) := Nat.lt_succ_sqrt n
  have hroot : n.sqrt ≤ 2 ^ 26 := by
    by_contra h
    have hmore : (2 ^ 26 + 1) * (2 ^ 26 + 1) ≤ n.sqrt * n.sqrt := Nat.mul_self_le_mul_self (by omega)
    omega
  generalize n.sqrt = k at hle hlt hroot ⊢
  by_cases hsquare : n = k * k
  · -- The root is whole.
    refine ⟨k, representable_natCast (hroot.trans (by norm_num)), ?_, Nat.cast_nonneg k, by linarith⟩
    rw [hsquare]
    push_cast
    linarith
  · have hk : k + 1 ≤ 2 ^ 26 := by
      by_contra h
      have hmax : k = 2 ^ 26 := by omega
      rw [hmax] at hle hsquare
      omega
    exact exists_root_bound_of_lt hk hlt

/-- The whole part of the rounded root of a whole number up to `2 ^ 52` is that of the root. -/
theorem exists_worth_sqrt {x : Float} {n : ℕ} (hx : worth x = some (exactly n)) (hn : n ≤ 2 ^ 52) :
    ∃ r : ℚ, worth x.sqrt = some (exactly r) ∧ (n.sqrt : ℚ) ≤ r ∧ r < n.sqrt + 1 := by
  unfold worth
  rw [view_sqrt]
  rcases nonneg_cases hx (Nat.cast_nonneg n) with ⟨hzero, s, hs⟩ | ⟨m, e, hm, hview, hvalue⟩
  · have hn0 : n = 0 := by exact_mod_cast hzero
    rw [hs, hn0]
    exact ⟨0, congrArg value (repack_zero s), by simp, by simp⟩
  rw [hview]
  obtain ⟨c, hrep, hsquare, hc0, hc⟩ := exists_root_bound hn
  have hroot : ((n.sqrt : ℕ) : ℚ) ^ 2 ≤ scaled m e := by
    rw [← hvalue]
    exact_mod_cast Nat.sqrt_le' n
  have hshort : n.sqrt ≤ 2 ^ 53 := (Nat.sqrt_le_self n).trans (hn.trans (by norm_num))
  -- the whole root and `c` are both representable, and rounding leads past neither
  obtain ⟨below, hbelow, hle, -⟩ := exists_rounded_sqrt e hm (Nat.cast_nonneg n.sqrt)
  obtain ⟨above, habove, -, hge⟩ := exists_rounded_sqrt e hm hc0
  have hlow := hbelow.ge _ (representable_natCast hshort) (hle hroot)
  have hhigh := hge (hvalue ▸ hsquare)
  have hrange : above ≤ 2 ^ (1023 : ℤ) := by
    calc above ≤ c := hhigh
      _ ≤ n.sqrt + 1 := hc.le
      _ = ((n.sqrt + 1 : ℕ) : ℚ) := (Nat.cast_succ _).symm
      _ ≤ 2 ^ (1023 : ℤ) := natCast_le_two_zpow (by omega : n.sqrt + 1 ≤ 2 ^ 54) (by norm_num)
  rw [habove.repack_of_le hrange]
  have hmagnitude := habove.le c hrep hhigh
  refine ⟨magnitude (UnpackedFloat.sqrt .binary64 (.finite .positive m e hm)), ?_, hlow, by linarith⟩
  rcases habove.form with hform | ⟨m', e', hm', hform, -⟩ <;> rw [hform] <;> rfl

end Rounding

end LargeNeighborhood
