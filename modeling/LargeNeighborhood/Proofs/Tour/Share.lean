import LargeNeighborhood.Proofs.Number.Arithmetic
import LargeNeighborhood.Tour.Removal

set_option autoImplicit false

/-! # How many visits are removed

The number of visits that a removal takes off a route is the whole part of a product that has been
rounded twice, once when the length of the route has become a real and once when it has been
multiplied. A degree is a share (`Removal.degree?_ok`), and neither rounding passes a number of
53 bits, so no more visits are removed than there are (`Removal.count_le`). Longer routes may be
rounded up; for them a degree of at most one half makes up for it (`Removal.count_le_of_le_half`).
-/

namespace LargeNeighborhood

open Float.Model Float.Model.UnpackedFloat

namespace Rounding

/-! ## Whole parts -/

theorem toNat_signed_le (negative : Bool) (n : ℕ) : (Binary.signed negative n).toNat ≤ n := by
  unfold Binary.signed
  split <;> omega

theorem toNat_truncate_le (negative : Bool) (m : ℕ) (e : ℤ) :
    ((Binary.truncate negative m e).toNat : ℚ) ≤ scaled m e := by
  have hle : (Binary.truncate negative m e).toNat ≤
      (Binary.magnitude m e).1 / (Binary.magnitude m e).2 := toNat_signed_le negative _
  calc ((Binary.truncate negative m e).toNat : ℚ)
      ≤ ((Binary.magnitude m e).1 / (Binary.magnitude m e).2 : ℕ) := by exact_mod_cast hle
    _ ≤ (Binary.magnitude m e).1 / (Binary.magnitude m e).2 := Nat.cast_div_le
    _ = scaled m e := magnitude_ratio m e

/-- Cutting off the fraction never leads away from zero. -/
theorem wholePart_le (x : Float) : (wholePart x : ℚ) ≤ magnitude (view x) := by
  unfold wholePart
  rw [ofFloat_eq]
  rcases view x with s | _ | s | ⟨s, m, e, hm⟩
  · simp [toBinary, magnitude]
  · simp [toBinary, magnitude]
  · have h := toNat_truncate_le (isNegative s) 0 (-1074)
    rwa [scaled, Nat.cast_zero, zero_mul] at h
  · exact toNat_truncate_le (isNegative s) m e

/-! ## Magnitudes of results -/

theorem magnitude_nonneg (u : UnpackedFloat) : 0 ≤ magnitude u := by
  rcases u with s | _ | s | ⟨s, m, e, hm⟩
  · exact le_rfl
  · exact le_rfl
  · exact le_rfl
  · exact scaled_nonneg m e

theorem Rounded.magnitude_repack_le {s : Sign} {x y : ℚ} {u : UnpackedFloat} (h : Rounded s x u)
    (hy : Representable y) (hy0 : 0 ≤ y) (hxy : x ≤ y) : magnitude (repack u) ≤ y := by
  rcases h.repack_eq with hrepack | hrepack
  · rw [hrepack]
    exact h.le y hy hxy
  · rw [hrepack]
    exact hy0

/-- A product passes no number of 53 bits that the exact product does not pass. -/
theorem magnitude_mul_le {u v : UnpackedFloat} (hu : Formed u) (hv : Formed v) {y : ℚ}
    (hy : Representable y) (h : magnitude u * magnitude v ≤ y) :
    magnitude (repack (mul .binary64 u v)) ≤ y := by
  have hy0 : 0 ≤ y := (mul_nonneg (magnitude_nonneg u) (magnitude_nonneg v)).trans h
  rcases u with s | _ | s | ⟨s, m, e, hm⟩ <;> rcases v with s' | _ | s' | ⟨s', m', e', hm'⟩
  case finite.finite =>
    have hround := rounded_mul s s' hm hm' (hu s m e hm rfl) (hv s' m' e' hm' rfl)
    exact hround.magnitude_repack_le hy hy0 h
  all_goals
    simp only [UnpackedFloat.mul, repack_infinity, repack_zero, repack_notANumber]
    exact hy0

theorem magnitude_ofNat_le (n : ℕ) {y : ℚ} (hy : Representable y) (h : n ≤ y) :
    magnitude (view (Float.ofNat n)) ≤ y := by
  have hy0 : 0 ≤ y := (Nat.cast_nonneg n).trans h
  by_cases hn : n = 0
  · rw [hn]
    exact hy0
  · obtain ⟨u, hview, hround⟩ := rounded_ofNat (Nat.pos_of_ne_zero hn)
    rw [hview]
    exact hround.magnitude_repack_le hy hy0 h

theorem magnitude_of_worth {x : Float} {q : ℚ} (hx : worth x = some (exactly q)) (hq : 0 ≤ q) :
    magnitude (view x) = q := by
  unfold worth at hx
  rcases hview : view x with s | _ | s | ⟨s, m, e, hm⟩
  · rw [hview] at hx
    cases s <;> cases hx
  · rw [hview] at hx
    cases hx
  · rw [hview] at hx
    cases hx
    rfl
  · rw [hview] at hx
    cases s with
    | positive =>
        cases hx
        rfl
    | negative =>
        cases hx
        have hpos := scaled_pos hm e
        linarith

/-- The whole part of `n` times a share `q` is at most a number of 53 bits that is at least `y * q`,
where `y` is a number of 53 bits that is at least `n`. -/
theorem wholePart_mul_le {n : ℕ} {x : Float} {q y z : ℚ} (hx : worth x = some (exactly q))
    (hq : 0 ≤ q) (hy : Representable y) (hny : n ≤ y) (hz : Representable z) (hyz : y * q ≤ z) :
    (wholePart (Float.ofNat n * x) : ℚ) ≤ z := by
  have hmagnitude : magnitude (view (Float.ofNat n)) * magnitude (view x) ≤ z := by
    rw [magnitude_of_worth hx hq]
    calc magnitude (view (Float.ofNat n)) * q ≤ y * q :=
          mul_le_mul_of_nonneg_right (magnitude_ofNat_le n hy hny) hq
      _ ≤ z := hyz
  have hmul := magnitude_mul_le (formed_view _) (formed_view _) hz hmagnitude
  rw [← view_mul] at hmul
  exact (wholePart_le _).trans hmul

end Rounding

open Rounding

/-! ## Degrees -/

namespace Removal

/-- A degree that is not refused is a share. -/
theorem degree?_ok {q : Quantity} {d : Float} (h : degree? q = .ok d) :
    ∃ r : ℚ, worth d = some (exactly r) ∧ 0 ≤ r ∧ r ≤ 1 := by
  unfold degree? at h
  split at h
  · rename_i hshare
    cases h
    obtain ⟨r, hr, -, h0, h1⟩ := Quantity.worth_of_share hshare.1 hshare.2
    exact ⟨r, hr, h0, h1⟩
  · cases h

/-! ## Counts -/

theorem count_le {d : Float} {r : ℚ} (hd : worth d = some (exactly r)) (h0 : 0 ≤ r) (h1 : r ≤ 1)
    {n : ℕ} (hn : n ≤ 2 ^ 53) : count d n ≤ n := by
  have hrep : Representable (n : ℚ) := representable_natCast hn
  have hle : (n : ℚ) * r ≤ n := mul_le_of_le_one_right (Nat.cast_nonneg n) h1
  exact_mod_cast wholePart_mul_le hd h0 hrep le_rfl hrep hle

/-- As many visits as a real can count are not fewer than any share of them. -/
theorem count_le_of_degree {q : Quantity} {d : Float} (h : degree? q = .ok d) {n : ℕ}
    (hn : n ≤ 2 ^ 53) : count d n ≤ n := by
  obtain ⟨r, hworth, h0, h1⟩ := degree?_ok h
  exact count_le hworth h0 h1 hn

theorem count_le_of_le_half {d : Float} {r : ℚ} (hd : worth d = some (exactly r)) (h0 : 0 ≤ r)
    (h1 : r ≤ 1 / 2) (n : ℕ) : count d n ≤ n := by
  by_cases hn : n = 0
  · rw [hn]
    exact count_le hd h0 (h1.trans (by norm_num)) (Nat.zero_le _)
  · -- The length is rounded to at most the next power of two.
    have hup : (n : ℚ) ≤ 2 ^ ((n.log2 : ℤ) + 1) :=
      natCast_le_two_zpow (k := n.log2 + 1) Nat.lt_log2_self.le (by push_cast; exact le_rfl)
    have hhalf : (2 : ℚ) ^ ((n.log2 : ℤ) + 1) * r ≤ 2 ^ (n.log2 : ℤ) := by
      rw [zpow_add_one₀ (by norm_num)]
      have hpos : (0 : ℚ) < 2 ^ (n.log2 : ℤ) := by positivity
      nlinarith
    have hcount := wholePart_mul_le hd h0 (representable_two_zpow (by omega)) hup
      (representable_two_zpow (by omega)) hhalf
    have hcount' : count d n ≤ 2 ^ n.log2 := by
      rw [zpow_natCast] at hcount
      exact_mod_cast hcount
    exact hcount'.trans (Nat.log2_self_le hn)

end Removal

end LargeNeighborhood
