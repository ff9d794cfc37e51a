import LargeNeighborhood.Proofs.Except
import LargeNeighborhood.Proofs.Number.Nonnegative
import LargeNeighborhood.Proofs.Text.Numeral
import LargeNeighborhood.Text.Column

set_option autoImplicit false

/-! # Reals of a column

Seventeen digits and a power of ten make a real as long as it is in range (`Column.isSome_scale?`).
So three hundred digits do (`Column.isSome_real?_of_digits`), whether they come from a number
(`Column.isSome_real?_toString`) or have been read as one (`Column.isSome_real?_of_bounded`). Longer
ones may be out of range, even if there are only zeros in front.
-/

namespace LargeNeighborhood

open Rounding Float.Model Float.Model.UnpackedFloat

namespace Column

/-! ## Powers of ten -/

/-- A number with a mantissa of 53 bits and an exponent that is not too large. -/
def isModerate : Binary → Bool
  | .finite negative m e => !negative && decide (0 < m ∧ m < 2 ^ 53 ∧ e ≤ 888)
  | _ => false

/-- The powers of ten that are kept in a table are moderate. -/
theorem isModerate_powerOfTen : ∀ n < 23, isModerate (Binary.ofFloat (powerOfTen n)) = true := by
  decide +kernel

/-- A power of ten beyond the table is the rounded product of two exact factors. -/
theorem view_powerOfTen {n : ℕ} (h : 22 < n) (h' : n ≤ 2048) :
    ∃ hm hm', view (powerOfTen n) = repack (mul .binary64
      (.finite .positive (2 ^ 53) (-53) hm) (.finite .positive (10 ^ n) 0 hm')) := by
  refine ⟨by positivity, by positivity, ?_⟩
  have hlow : ¬ (n : ℤ) > 2 ^ Format.exponentBits .binary64 := by
    show ¬ (n : ℤ) > 2 ^ 11
    omega
  have hhigh : ¬ (n : ℤ) < -(2 ^ Format.exponentBits .binary64 + (Nat.log2 1 : ℕ)) := by
    show ¬ (n : ℤ) < -(2 ^ 11 + (Nat.log2 1 : ℕ))
    omega
  unfold powerOfTen Float.ofScientific
  rw [dif_neg (by omega)]
  show view { toModel := Float.Model.ofScientific 1 (n : ℤ) } = _
  unfold view Float.Model.ofScientific UnpackedFloat.ofScientific
  rw [dif_neg (by decide), if_neg hlow, if_neg hhigh, if_pos (by omega)]
  rfl

theorem exists_worth_of_isModerate {x : Float} (h : isModerate (Binary.ofFloat x) = true) :
    ∃ q : ℚ, worth x = some (exactly q) ∧ 0 ≤ q ∧ q ≤ 2 ^ (944 : ℤ) := by
  rw [ofFloat_eq] at h
  unfold worth
  rcases hview : view x with s | _ | s | ⟨s, m, e, hm⟩ <;> rw [hview] at h
  · cases h
  · cases h
  · cases s <;> simp [toBinary, isModerate] at h
  · cases s with
    | negative => simp [toBinary, isModerate, isNegative] at h
    | positive =>
        simp only [toBinary, isModerate, isNegative, Bool.not_false, Bool.true_and,
          decide_eq_true_eq] at h
        obtain ⟨-, hsmall, he⟩ := h
        refine ⟨scaled m e, rfl, scaled_nonneg m e, ?_⟩
        calc scaled m e ≤ 2 ^ (e + (53 : ℕ)) := (scaled_lt_two_zpow hsmall e).le
          _ ≤ 2 ^ (944 : ℤ) := two_zpow_le (by push_cast; omega)

/-- Three decimal places take less than ten binary ones. -/
theorem ten_pow_le {n : ℕ} (h : n < 284) : ((10 ^ n : ℕ) : ℚ) ≤ 2 ^ 944 := by
  rw [Nat.cast_pow]
  calc ((10 : ℕ) : ℚ) ^ n ≤ (10 : ℕ) ^ (3 * 94 + 1) := pow_le_pow_right₀ (by norm_num) (by omega)
    _ = (10 ^ 3) ^ 94 * 10 := by
        rw [pow_add, pow_mul, pow_one]
        norm_cast
    _ ≤ (2 ^ 10) ^ 94 * 2 ^ 4 := by gcongr <;> norm_num
    _ = 2 ^ 944 := by rw [← pow_mul, ← pow_add]

theorem exists_worth_powerOfTen {n : ℕ} (h : n < 284) :
    ∃ q : ℚ, worth (powerOfTen n) = some (exactly q) ∧ 0 ≤ q ∧ q ≤ 2 ^ (944 : ℤ) := by
  by_cases htable : n < 23
  · exact exists_worth_of_isModerate (isModerate_powerOfTen n htable)
  -- behind the table a power is a literal, and rounded once
  · obtain ⟨hm, hm', hview⟩ := view_powerOfTen (by omega) (by omega : n ≤ 2048)
    have hexp : (-53 : ℤ) + 0 ≤ target ((2 ^ 53) * 10 ^ n) (-53 + 0) := by
      unfold target
      have hlog := log2_mul_two_pow hm' 53
      rw [Nat.mul_comm] at hlog
      omega
    have hround := rounded_mul_of_le .positive .positive hm hm' hexp
    have hone : scaled (2 ^ 53) (-53) = 1 := by
      have hcancel := scaled_add 1 53 (-53)
      rw [one_mul] at hcancel
      rw [hcancel]
      norm_num [scaled]
    have hle : scaled (2 ^ 53) (-53) * scaled (10 ^ n) 0 ≤ 2 ^ (944 : ℤ) := by
      rw [hone, one_mul, scaled_zero_exponent]
      exact ten_pow_le h
    unfold worth
    rw [hview]
    exact hround.exists_value hle (representable_two_zpow (by norm_num)) (two_zpow_le (by norm_num))

theorem worth_powerOfTen_zero : worth (powerOfTen 0) = some (exactly 1) := worth_one

/-! ## Whole numbers as reals -/

/-- Each digit makes a number at most sixteen times as large. -/
theorem exists_worth_digit {d : Char} (hd : d.isDigit = true) {x : Float} {p : ℚ} {k : ℕ}
    (hx : worth x = some (exactly p)) (hp : 0 ≤ p) (hle : p ≤ 2 ^ (4 * k + 1)) (hk : k < 17) :
    ∃ q : ℚ, worth (10 * x + Float.ofNat (d.toNat - 48)) = some (exactly q) ∧ 0 ≤ q ∧
      q ≤ 2 ^ (4 * (k + 1) + 1) := by
  have hdigit : d.toNat - 48 ≤ 9 := by
    have hd := toNat_of_isDigit hd
    omega
  have hten : worth 10 = some (exactly (10 : ℕ)) := worth_ofNat (n := 10) (by norm_num)
  have hlast : worth (Float.ofNat (d.toNat - 48)) = some (exactly (d.toNat - 48 : ℕ)) :=
    worth_ofNat (hdigit.trans (by norm_num))
  have hlast9 : ((d.toNat - 48 : ℕ) : ℚ) ≤ 9 := by exact_mod_cast hdigit
  have hrange : ∀ t : ℕ, t ≤ 1023 → (2 : ℚ) ^ t ≤ 2 ^ (1023 : ℤ) := by
    intro t ht
    rw [← zpow_natCast]
    exact two_zpow_le (by exact_mod_cast ht)
  -- Ten times the number is rounded below five times a power of two, the sum below the next one.
  have hfive : Representable (5 * 2 ^ (4 * k + 2)) := by
    refine ⟨5, (4 * k + 2 : ℕ), by norm_num, by omega, ?_⟩
    unfold scaled
    rw [zpow_natCast]
    norm_num
  have hpower : Representable (2 ^ (4 * (k + 1) + 1)) := by
    rw [← zpow_natCast]
    exact representable_two_zpow (by omega)
  have hgrow : (2 : ℚ) ^ (4 * k + 2) = 2 * 2 ^ (4 * k + 1) := by ring
  have hfour : (2 : ℚ) ^ 2 ≤ 2 ^ (4 * k + 2) := pow_le_pow_right₀ (by norm_num) (by omega)
  have hnext : (2 : ℚ) ^ (4 * (k + 1) + 1) = 8 * 2 ^ (4 * k + 2) := by ring
  obtain ⟨r, hr, hr0, hrle⟩ := exists_worth_mul hten (by norm_num) hx hp
    (by push_cast; linarith) hfive
    (le_trans (by linarith) (hrange (4 * (k + 1) + 1) (by omega)))
  exact exists_worth_add hr hr0 hlast (Nat.cast_nonneg _) (by linarith) hpower (hrange _ (by omega))

theorem exists_worth_foldl {ds : List Char} (hds : ∀ c ∈ ds, c.isDigit = true) {x : Float} {p : ℚ}
    {k : ℕ} (hx : worth x = some (exactly p)) (hp : 0 ≤ p) (hle : p ≤ 2 ^ (4 * k + 1))
    (hk : k + ds.length ≤ 17) :
    ∃ q : ℚ, worth (ds.foldl (fun x d => 10 * x + Float.ofNat (d.toNat - 48)) x) =
      some (exactly q) ∧ 0 ≤ q ∧ q ≤ 2 ^ (4 * (k + ds.length) + 1) := by
  induction ds generalizing x p k with
  | nil => exact ⟨p, hx, hp, hle⟩
  | cons d ds ih =>
      obtain ⟨hd, hds⟩ := List.forall_mem_cons.mp hds
      rw [List.length_cons] at hk ⊢
      obtain ⟨r, hr, hr0, hrle⟩ := exists_worth_digit hd hx hp hle (by omega)
      obtain ⟨q, hq, hq0, hqle⟩ := ih hds hr hr0 hrle (by omega)
      rw [Nat.add_right_comm] at hqle
      exact ⟨q, hq, hq0, hqle⟩

theorem exists_worth_ofDigits {ds : List Char} (hds : ∀ c ∈ ds, c.isDigit = true)
    (hlength : ds.length ≤ 17) :
    ∃ q : ℚ, worth (ofDigits ds) = some (exactly q) ∧ 0 ≤ q ∧ q ≤ 2 ^ (69 : ℤ) := by
  obtain ⟨q, hq, hq0, hqle⟩ := exists_worth_foldl (k := 0) hds worth_zero le_rfl
    (by norm_num) (by omega)
  refine ⟨q, hq, hq0, hqle.trans ?_⟩
  rw [← zpow_natCast]
  exact two_zpow_le (by push_cast; omega)

/-- A number of seventeen digits with 283 places behind them is in range. -/
theorem isSome_scale? {x : Float} {q : ℚ} (hx : worth x = some (exactly q))
    (hq : |q| ≤ 2 ^ (69 : ℤ)) {n : ℕ} (hn : n < 284) : (scale? x n).isSome = true := by
  have hfinite : (if 0 < (n : ℤ) then x * powerOfTen (n : ℤ).toNat
      else x / powerOfTen (-(n : ℤ)).toNat).isInf = false := by
    by_cases hpos : 0 < (n : ℤ)
    · rw [if_pos hpos, Int.toNat_natCast]
      obtain ⟨r, hr, hr0, hrle⟩ := exists_worth_powerOfTen hn
      refine isInf_mul hx hr ?_
      calc |q| * |r| ≤ 2 ^ (69 : ℤ) * 2 ^ (944 : ℤ) := by
            rw [abs_of_nonneg hr0]
            gcongr
        _ = 2 ^ (1013 : ℤ) := (zpow_add₀ (by norm_num) 69 944).symm
        _ ≤ 2 ^ (1023 : ℤ) := two_zpow_le (by norm_num)
    · have hzero : n = 0 := by omega
      rw [if_neg hpos, hzero]
      refine isInf_div hx worth_powerOfTen_zero one_ne_zero ?_
      rw [abs_one, div_one]
      exact hq.trans (two_zpow_le (by norm_num))
  have hlow : -308 ≤ (n : ℤ) := by omega
  unfold scale?
  rw [if_neg (by omega), if_pos hlow]
  simp only [hfinite]
  rfl

/-! ## Reading a field -/

theorem ne_of_isSpace {c d : Char} (hc : isSpace c = true) (hd : isSpace d = false) : c ≠ d := by
  rintro rfl
  rw [hc] at hd
  cases hd

theorem takeExponent_spaces {rest : List Char} (h : ∀ c ∈ rest, isSpace c = true) :
    takeExponent rest = some (0, rest) := by
  cases rest with
  | nil => rfl
  | cons c rest =>
      have hc := h c List.mem_cons_self
      have hsmall : c ≠ 'e' := ne_of_isSpace hc (by decide)
      have hlarge : c ≠ 'E' := ne_of_isSpace hc (by decide)
      simp [takeExponent, hsmall, hlarge]

/-- Digits between spaces are read by their first seventeen and the number of the others. -/
theorem decimal?_digits {field : String} {negative : Bool} {cs : List Char}
    (hsign : Numeral.takeSign (field.toList.dropWhile isSpace) = (negative, cs))
    (hdigits : cs.takeWhile Char.isDigit ≠ [])
    (hspaces : ∀ c ∈ cs.drop (cs.takeWhile Char.isDigit).length, isSpace c = true) {e : ℕ}
    (he : (cs.takeWhile Char.isDigit).length =
      ((cs.takeWhile Char.isDigit).take digitLimit).length + e) (hsmall : e < 284) :
    decimal? field =
      scale? (if negative = true then -ofDigits ((cs.takeWhile Char.isDigit).take digitLimit)
        else ofDigits ((cs.takeWhile Char.isDigit).take digitLimit)) e := by
  have hne : ((cs.takeWhile Char.isDigit).take digitLimit).isEmpty = false := by
    rw [List.isEmpty_eq_false_iff, ← List.length_pos_iff, List.length_take, Nat.lt_min]
    exact ⟨by decide, List.length_pos_iff.mpr hdigits⟩
  have hmod : Int.bmod e UInt32.size = e := by
    have hsize : UInt32.size = 4294967296 := rfl
    rw [hsize]
    exact Int.bmod_eq_of_le (by push_cast; omega) (by push_cast; omega)
  have hexp : ((cs.takeWhile Char.isDigit).length : ℤ) -
      ((cs.takeWhile Char.isDigit).take digitLimit).length = e := by omega
  unfold decimal?
  rw [hsign]
  dsimp only
  generalize cs.drop (cs.takeWhile Char.isDigit).length = rest at hspaces ⊢
  generalize UInt32.size = size at hmod ⊢
  have hall : rest.all isSpace = true := List.all_eq_true.mpr hspaces
  -- What follows the digits is no point and no exponent.
  cases rest with
  | nil =>
      simp only [List.take_nil, List.append_nil, hne]
      show scale? _ (Int.bmod (_ - _ - (0 : ℕ) + 0) size) = _
      rw [Nat.cast_zero, sub_zero, add_zero, hexp, hmod]
  | cons c rest =>
      have hpoint : c ≠ '.' := ne_of_isSpace (hspaces c List.mem_cons_self) (by decide)
      have hhead : ¬ (c :: rest).head? = some '.' := by simpa using hpoint
      simp only [List.cons.injEq, hpoint, false_and, imp_self, implies_true, List.take_nil,
        List.append_nil, hne, if_neg hhead]
      rw [takeExponent_spaces hspaces]
      show (if (!(c :: rest).all isSpace) = true then _ else _) = _
      rw [hall]
      show scale? _ (Int.bmod (_ - _ - (0 : ℕ) + 0) size) = _
      rw [Nat.cast_zero, sub_zero, add_zero, hexp, hmod]

/-- Three hundred digits between spaces are a real. -/
theorem isSome_real?_of_digits {field : String} {negative : Bool} {cs : List Char}
    (hsign : Numeral.takeSign (field.toList.dropWhile isSpace) = (negative, cs))
    (hdigits : cs.takeWhile Char.isDigit ≠ [])
    (hspaces : ∀ c ∈ cs.drop (cs.takeWhile Char.isDigit).length, isSpace c = true)
    (hlength : (cs.takeWhile Char.isDigit).length ≤ 300) : (real? field).isSome = true := by
  obtain ⟨e, he⟩ : ∃ e, (cs.takeWhile Char.isDigit).length =
      ((cs.takeWhile Char.isDigit).take digitLimit).length + e :=
    Nat.exists_eq_add_of_le (List.length_take_le' _ _)
  have hlimit : digitLimit = 17 := rfl
  -- digits behind the seventeenth count only as places
  have hsmall : e < 284 := by
    rw [List.length_take] at he
    omega
  obtain ⟨q, hq, hq0, hqle⟩ := exists_worth_ofDigits
    (fun c hc => List.mem_takeWhile_imp (List.mem_of_mem_take hc))
    (by rw [List.length_take]; omega : ((cs.takeWhile Char.isDigit).take digitLimit).length ≤ 17)
  have hscale : (decimal? field).isSome = true := by
    rw [decimal?_digits hsign hdigits hspaces he hsmall]
    by_cases hneg : negative = true
    · rw [if_pos hneg]
      refine isSome_scale? (worth_neg hq) ?_ hsmall
      rwa [abs_neg, abs_of_nonneg hq0]
    · rw [if_neg hneg]
      refine isSome_scale? hq ?_ hsmall
      rwa [abs_of_nonneg hq0]
  obtain ⟨x, hx⟩ := Option.isSome_iff_exists.mp hscale
  unfold real?
  rw [hx]
  rfl

theorem InNumeral.isSpace_eq_false {c : Char} (h : InNumeral c) : isSpace c = false := by
  have hc := h.toNat_eq
  unfold isSpace
  have hspace : c ≠ ' ' := by
    rintro rfl
    revert hc
    decide
  simp only [Bool.or_eq_false_iff, beq_eq_false_iff_ne, decide_eq_false_iff_not]
  exact ⟨hspace, by omega⟩

theorem dropWhile_isSpace_toString (n : ℤ) :
    (toString n).toList.dropWhile isSpace = (toString n).toList := by
  rw [List.dropWhile_eq_self_iff]
  intro hpos
  simpa using InNumeral.isSpace_eq_false (inNumeral_of_mem_toString (List.getElem_mem hpos))

/-- Whole numbers of three hundred digits are reals. -/
theorem isSome_real?_toString {n : ℤ} {k : ℕ} (hk : k ≤ 300) (h : n.natAbs < 10 ^ k) :
    (real? (toString n)).isSome = true := by
  -- zero has a digit too
  have hbound : n.natAbs < 10 ^ max 1 k :=
    h.trans_le (Nat.pow_le_pow_right (by decide) (le_max_right 1 k))
  have hlength : (digitsOf n.natAbs).length ≤ max 1 k :=
    Nat.toDigits_length 10 n.natAbs (max 1 k) (by omega) hbound
  have hdigits : (digitsOf n.natAbs).takeWhile Char.isDigit = digitsOf n.natAbs :=
    List.takeWhile_eq_self_iff.mpr fun c hc => isDigit_of_mem_digitsOf hc
  have hsign : Numeral.takeSign ((toString n).toList.dropWhile isSpace) =
      (decide (n < 0), digitsOf n.natAbs) := by
    rw [dropWhile_isSpace_toString, Numeral.takeSign_toString]
  apply isSome_real?_of_digits hsign
  · rw [hdigits]
    exact Nat.toDigits_ne_nil
  · simp [hdigits]
  · rw [hdigits]
    omega

end Column

end LargeNeighborhood
