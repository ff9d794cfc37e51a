import LargeNeighborhood.Number.Binary
import LargeNeighborhood.Proofs.Number.Rounding

set_option autoImplicit false

/-! # Reals and their bits

A real of 64 bits is kept as its bits, and computed with as a sign, a mantissa and an exponent
(`view`). What is packed comes out again as it was when it has the form of a real
(`repack_finite`); what is too large for one comes out infinite. `Binary.ofFloat` reads the same sign,
mantissa and exponent off the bits (`ofFloat_eq`), so that what is known of computed reals is
known of what they stand for.
-/

namespace LargeNeighborhood

open Float.Model Float.Model.UnpackedFloat

namespace Rounding

/-! ## The parts of a real -/

/-- What a sign, an exponent field and a fraction stand for. -/
def ofParts (s : Sign) (field fraction : ℕ) : UnpackedFloat :=
  if field = 2047 then
    if fraction = 0 then .infinity s else .notANumber
  else if field = 0 then
    if h : fraction = 0 then .zero s else .finite s fraction (-1074) (Nat.pos_of_ne_zero h)
  else .finite s (2 ^ 52 + fraction) (field - 1075) (by positivity)

theorem toNat_implicit (fraction : BitVec 52) :
    (1#1 ++ fraction).toNat = 2 ^ 52 + fraction.toNat := by
  rw [BitVec.toNat_append, ← Nat.shiftLeft_add_eq_or_of_lt fraction.isLt]
  rfl

theorem unpack_eq (b : BitVec 64) : unpack .binary64 b =
    ofParts (.ofBitVec (@unpackSign .binary64 b))
      (@unpackExponent .binary64 b).toNat
      (@unpackMantissa .binary64 b).toNat := by
  -- fields are told apart by their numbers
  have hfield : ∀ field : BitVec 11, field = -1#11 ↔ field.toNat = 2047 := by
    intro field
    rw [← BitVec.toNat_inj]
    rfl
  have hzero : ∀ field : BitVec 11, field = 0#11 ↔ field.toNat = 0 := by
    intro field
    rw [← BitVec.toNat_inj]
    rfl
  have hfraction : ∀ fraction : BitVec 52, fraction = 0#52 ↔ fraction.toNat = 0 := by
    intro fraction
    rw [← BitVec.toNat_inj]
    rfl
  have hbias : (Format.binary64.exponentBias : ℤ) + (52 : ℕ) = 1075 := rfl
  unfold UnpackedFloat.unpack ofParts
  simp only [hfield, hzero, hfraction, toNat_implicit, hbias]
  split
  · rfl
  split
  · rename_i h
    simp only [h]
    rfl
  · rfl

theorem unpack_packComponents (s : Sign) (field : BitVec 11) (fraction : BitVec 52) :
    unpack .binary64 (packComponents .binary64 s field fraction) =
      ofParts s field.toNat fraction.toNat := by
  rw [unpack_eq, unpackSign_packComponents, unpackExponent_packComponents,
    unpackMantissa_packComponents, Sign.ofBitVec_toBitVec]

/-! ## Packing and unpacking -/

/-- An unpacked real as it comes out after packing. -/
def repack (u : UnpackedFloat) : UnpackedFloat := unpack .binary64 (pack .binary64 u)

@[simp] theorem repack_notANumber : repack .notANumber = .notANumber := rfl

@[simp] theorem repack_infinity (s : Sign) : repack (.infinity s) = .infinity s := by
  cases s <;> rfl

@[simp] theorem repack_zero (s : Sign) : repack (.zero s) = .zero s := by
  cases s <;> rfl

theorem pack_finite (s : Sign) {m : ℕ} (e : ℤ) (hm : 0 < m) :
    pack .binary64 (.finite s m e hm) =
      if 2 ^ 11 ≤ (e + 1075).toNat + 1 then packedInfinity .binary64 s
      else if m.log2 + 1 = 53 then
        packComponents .binary64 s (BitVec.ofNat 11 (e + 1075).toNat) (BitVec.ofNat 52 m)
      else packComponents .binary64 s 0#11 (BitVec.ofNat 52 m) := by
  have hbias : e + 1075 = e + (1023 : ℕ) + (52 : ℕ) := by omega
  rw [hbias]
  rfl

/-- A real that is too large becomes infinite. -/
theorem repack_large {s : Sign} {m : ℕ} {e : ℤ} (hm : 0 < m) (he : 971 < e) :
    repack (.finite s m e hm) = .infinity s := by
  rw [repack, pack_finite, if_pos (by omega)]
  cases s <;> rfl

/-- A real in its own form comes out as it went in. -/
theorem repack_finite {s : Sign} {m : ℕ} {e : ℤ} (hm : 0 < m) (hshape : Shape m e)
    (he : e ≤ 971) : repack (.finite s m e hm) = .finite s m e hm := by
  rcases hshape with ⟨hlow, hhigh, hmin⟩ | ⟨-, hhigh, rfl⟩
  -- a full mantissa is stored without its leading bit, and its exponent field is not zero
  · have hlog : m.log2 + 1 = 53 := by
      have h1 := (Nat.le_log2 (by omega)).mpr hlow
      have h2 := (Nat.log2_lt (by omega)).mpr hhigh
      omega
    have hfield : (BitVec.ofNat 11 (e + 1075).toNat).toNat = (e + 1075).toNat := by
      rw [BitVec.toNat_ofNat]
      omega
    have hfraction : 2 ^ 52 + (BitVec.ofNat 52 m).toNat = m := by
      rw [BitVec.toNat_ofNat]
      omega
    have hexp : ((e + 1075).toNat : ℤ) - 1075 = e := by omega
    rw [repack, pack_finite, if_neg (by omega), if_pos hlog, unpack_packComponents, ofParts,
      hfield, if_neg (by omega), if_neg (by omega)]
    simp only [hfraction, hexp]
  -- a shorter one stands at the last exponent, with an exponent field of zero
  · have hlog : ¬ m.log2 + 1 = 53 := by
      have h2 := (Nat.log2_lt (by omega)).mpr hhigh
      omega
    have hfraction : (BitVec.ofNat 52 m).toNat = m := by
      rw [BitVec.toNat_ofNat]
      omega
    rw [repack, pack_finite, if_neg (by omega), if_neg hlog, unpack_packComponents, ofParts,
      BitVec.toNat_zero, if_neg (by omega), if_pos rfl]
    simp only [hfraction, Nat.ne_of_gt hm]
    rfl

/-- An unpacked real has its own form. -/
theorem shape_unpack {b : BitVec 64} {s : Sign} {m : ℕ} {e : ℤ} {hm : 0 < m}
    (h : unpack .binary64 b = .finite s m e hm) : Shape m e ∧ e ≤ 971 := by
  rw [unpack_eq] at h
  have hfield := (@unpackExponent .binary64 b).isLt
  have hfraction := (@unpackMantissa .binary64 b).isLt
  -- What is left depends on the widths of the two fields only.
  generalize (@unpackExponent .binary64 b).toNat = field at h hfield
  generalize (@unpackMantissa .binary64 b).toNat = fraction at h hfraction
  unfold ofParts at h
  split at h
  · split at h <;> cases h
  split at h
  · split at h
    · cases h
    · cases h
      exact ⟨Or.inr ⟨hm, hfraction, rfl⟩, by norm_num⟩
  · cases h
    refine ⟨Or.inl ⟨by omega, ?_, by omega⟩, ?_⟩
    · have h52 : fraction < 2 ^ 52 := hfraction
      omega
    · have h11 : field < 2 ^ 11 := hfield
      omega

/-! ## What a real stands for -/

/-- A real as it is computed with. -/
def view (x : Float) : UnpackedFloat := x.toModel.unpack

theorem shape_view {x : Float} {s : Sign} {m : ℕ} {e : ℤ} {hm : 0 < m}
    (h : view x = .finite s m e hm) : Shape m e ∧ e ≤ 971 := shape_unpack h

/-- Whether a sign is the minus sign. -/
def isNegative : Sign → Bool
  | .negative => true
  | .positive => false

/-- An unpacked real, taken apart. -/
def toBinary : UnpackedFloat → Binary
  | .notANumber => .undefined
  | .infinity s => .infinite (isNegative s)
  | .zero s => .finite (isNegative s) 0 (-1074)
  | .finite s m e _ => .finite (isNegative s) m e

theorem toNat_unpackExponent (b : BitVec 64) :
    (@unpackExponent .binary64 b).toNat = b.toNat / 2 ^ 52 % 2 ^ 11 := by
  simp only [unpackExponent, BitVec.toNat_cast, BitVec.extractLsb_toNat]
  rw [Nat.shiftRight_eq_div_pow]

theorem toNat_unpackMantissa (b : BitVec 64) :
    (@unpackMantissa .binary64 b).toNat = b.toNat % 2 ^ 52 := by
  simp only [unpackMantissa, BitVec.toNat_cast, BitVec.extractLsb_toNat]
  rfl

theorem isNegative_unpackSign (b : BitVec 64) :
    isNegative (.ofBitVec (@unpackSign .binary64 b)) = decide (2 ^ 63 ≤ b.toNat) := by
  have hsign : (@unpackSign .binary64 b).toNat = b.toNat / 2 ^ 63 := by
    simp only [unpackSign, BitVec.toNat_cast, BitVec.extractLsb_toNat]
    rw [Nat.shiftRight_eq_div_pow]
    have hlt := b.isLt
    show b.toNat / 2 ^ 63 % 2 = b.toNat / 2 ^ 63
    omega
  have hlt := b.isLt
  unfold Sign.ofBitVec
  by_cases h : 2 ^ 63 ≤ b.toNat
  · have hne : @unpackSign .binary64 b ≠ 0#1 := by
      intro hzero
      rw [hzero] at hsign
      simp at hsign
      omega
    rw [if_neg hne, decide_eq_true h]
    rfl
  · have heq : @unpackSign .binary64 b = 0#1 := by
      apply BitVec.eq_of_toNat_eq
      rw [hsign]
      simp
      omega
    rw [if_pos heq, decide_eq_false h]
    rfl

/-- The bits of a real and its view tell the same. -/
theorem ofFloat_eq (x : Float) : Binary.ofFloat x = toBinary (view x) := by
  have hbits : ∀ b : BitVec 64, b = x.toModel.toBits.toBitVec → x.toBits.toNat = b.toNat := by
    rintro b rfl
    rfl
  have hview : view x = UnpackedFloat.unpack .binary64 x.toModel.toBits.toBitVec := rfl
  rw [hview]
  -- the same 64 bits are taken apart on both sides, by division on one and by bit fields on the
  -- other
  generalize hb : x.toModel.toBits.toBitVec = b
  unfold Binary.ofFloat
  rw [hbits b hb.symm, unpack_eq, toNat_unpackExponent, toNat_unpackMantissa]
  have hsign := isNegative_unpackSign b
  generalize Sign.ofBitVec (@unpackSign .binary64 b) = s at hsign
  have h63 : twoTo 63 = 2 ^ 63 := rfl
  have h52 : twoTo 52 = 2 ^ 52 := rfl
  have h11 : twoTo 11 = 2 ^ 11 := rfl
  simp only [h63, h52, h11, ← hsign]
  unfold ofParts
  split
  · split <;> rfl
  split
  · split
    · rename_i h
      rw [h]
      rfl
    · rfl
  · rfl

end Rounding

end LargeNeighborhood
