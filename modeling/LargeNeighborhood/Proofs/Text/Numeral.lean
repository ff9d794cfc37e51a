import LargeNeighborhood.Text.Numeral
import Mathlib

set_option autoImplicit false

/-! # Whole numbers as text

A whole number is written as its decimal digits, with a minus in front if it is negative
(`toList_toString`). There is no blank in it, and reading it digit by digit gives the number back
(`Numeral.takeDigits_digits`, `readWhole_toString`).
-/

namespace LargeNeighborhood

/-! ## Digits -/

/-- The digits of a natural number. -/
abbrev digitsOf (n : ℕ) : List Char := Nat.toDigits 10 n

theorem isDigit_of_mem_digitsOf {n : ℕ} {c : Char} (h : c ∈ digitsOf n) : c.isDigit = true :=
  Nat.isDigit_of_mem_toDigits (by omega) (by omega) h

theorem toNat_of_isDigit {c : Char} (h : c.isDigit = true) : 48 ≤ c.toNat ∧ c.toNat ≤ 57 :=
  Char.isDigit_iff_toNat.mp h

/-- The characters that whole numbers are written in. -/
def InNumeral (c : Char) : Prop := c.isDigit = true ∨ c = '-'

theorem InNumeral.toNat_eq {c : Char} (h : InNumeral c) :
    c.toNat = 45 ∨ (48 ≤ c.toNat ∧ c.toNat ≤ 57) := by
  rcases h with h | rfl
  · exact Or.inr (toNat_of_isDigit h)
  · exact Or.inl rfl

theorem toList_toString (n : ℤ) :
    (toString n).toList = (if n < 0 then ['-'] else []) ++ digitsOf n.natAbs := by
  cases n with
  | ofNat n =>
      have hnonneg : ¬ Int.ofNat n < 0 := by
        rw [Int.ofNat_eq_natCast]
        omega
      rw [if_neg hnonneg]
      show (toString n).toList = _
      rw [Nat.toString_eq_ofList_toDigits, String.toList_ofList]
      rfl
  | negSucc n =>
      rw [if_pos (Int.negSucc_lt_zero n)]
      show ("-" ++ toString (n + 1)).toList = _
      simp only [String.toList_append, Nat.toString_eq_ofList_toDigits, String.toList_ofList]
      rfl

theorem inNumeral_of_mem_toString {n : ℤ} {c : Char} (h : c ∈ (toString n).toList) :
    InNumeral c := by
  rw [toList_toString] at h
  rcases List.mem_append.mp h with h | h
  · split at h
    · exact Or.inr (List.mem_singleton.mp h)
    · cases h
  · exact Or.inl (isDigit_of_mem_digitsOf h)

theorem toString_ne_nil (n : ℤ) : (toString n).toList ≠ [] := by
  rw [toList_toString]
  intro h
  exact Nat.toDigits_ne_nil (List.append_eq_nil_iff.mp h).2

namespace Numeral

/-- The sign comes off, and the digits are left. -/
theorem takeSign_toString (n : ℤ) :
    takeSign (toString n).toList = (decide (n < 0), digitsOf n.natAbs) := by
  rw [toList_toString]
  by_cases h : n < 0
  · simp only [h, if_true, decide_true]
    rfl
  · simp only [h, if_false, decide_false, List.nil_append]
    cases hdigits : digitsOf n.natAbs with
    | nil => rfl
    | cons c cs =>
        have hc := toNat_of_isDigit (isDigit_of_mem_digitsOf (hdigits ▸ List.mem_cons_self))
        unfold takeSign
        split
        · rename_i heq
          cases heq
          exact absurd hc.1 (by decide)
        · rename_i heq
          cases heq
          exact absurd hc.1 (by decide)
        · rfl

/-- Digits are taken to the last one, and add up to their number. -/
theorem takeDigits_digits {digit? : Char → Option ℕ}
    (hdigit : ∀ c : Char, c.isDigit = true → digit? c = some (c.toNat - 48)) {cs : List Char}
    (hcs : ∀ c ∈ cs, c.isDigit = true) (underscores seen : Bool) (n count : ℕ) :
    takeDigits digit? underscores seen n count cs =
      (Nat.ofDigitChars 10 cs n, count + cs.length, []) := by
  induction cs generalizing seen n count with
  | nil => rfl
  | cons c cs ih =>
      obtain ⟨hc, hcs⟩ := List.forall_mem_cons.mp hcs
      rw [takeDigits.eq_def]
      dsimp only
      rw [hdigit c hc]
      dsimp only
      rw [ih hcs, List.length_cons, Nat.ofDigitChars_eq_foldl, Nat.ofDigitChars_eq_foldl]
      simp only [List.foldl_cons, Prod.mk.injEq, and_true]
      refine ⟨rfl, by omega⟩

theorem takeDigits_digitsOf {digit? : Char → Option ℕ}
    (hdigit : ∀ c : Char, c.isDigit = true → digit? c = some (c.toNat - 48)) (underscores : Bool)
    (n : ℕ) : takeDigits digit? underscores false 0 0 (digitsOf n) =
      (n, (digitsOf n).length, []) := by
  rw [takeDigits_digits hdigit (fun c hc => isDigit_of_mem_digitsOf hc),
    Nat.ofDigitChars_ten_toDigits, Nat.zero_add]

end Numeral

theorem Digit.ascii?_of_isDigit (c : Char) (h : c.isDigit = true) :
    Digit.ascii? c = some (c.toNat - 48) := by
  unfold Digit.ascii?
  rw [if_pos h]

/-- Western digits are the first row. -/
theorem Digit.value?_of_isDigit (c : Char) (h : c.isDigit = true) :
    Digit.value? c = some (c.toNat - 48) := by
  have hc := toNat_of_isDigit h
  have hfirst : decide (0x30 ≤ c.toNat ∧ c.toNat < 0x30 + 10) = true := by
    rw [decide_eq_true_iff]
    omega
  have hzeros : Digit.zeros = 0x30 :: Digit.zeros.tail := rfl
  unfold Digit.value?
  rw [hzeros, List.find?_cons, hfirst]
  rfl

/-! ## Blanks -/

theorem Blank.trim_eq_self {α : Type} {p : α → Bool} {xs : List α} (h : ∀ x ∈ xs, p x = false) :
    Blank.trim p xs = xs := by
  have hdrop : ∀ ys : List α, (∀ y ∈ ys, p y = false) → ys.dropWhile p = ys := by
    intro ys hys
    cases ys with
    | nil => rfl
    | cons y ys => simp [hys y List.mem_cons_self]
  unfold Blank.trim
  rw [hdrop xs h, hdrop _ fun x hx => h x (List.mem_reverse.mp hx), List.reverse_reverse]

theorem InNumeral.aroundNumeral_eq_false {c : Char} (h : InNumeral c) :
    Blank.aroundNumeral c = false := by
  have hc := h.toNat_eq
  unfold Blank.aroundNumeral
  rw [decide_eq_false_iff_not]
  omega

/-! ## Reading -/

/-- A whole number is its magnitude with its sign. -/
theorem signed_natAbs (n : ℤ) :
    (if decide (n < 0) = true then -(n.natAbs : ℤ) else n.natAbs) = n := by
  by_cases h : n < 0
  · simp only [h, decide_true, if_true]
    omega
  · simp only [h, decide_false, Bool.false_eq_true, if_false]
    omega

theorem readWhole_toString {n : ℤ} (h : n.natAbs < 10 ^ Numeral.digitLimit) :
    readWhole (toString n) = .ok n := by
  have htrimmed : Numeral.trimmed (toString n) = (toString n).toList :=
    Blank.trim_eq_self fun c hc => (inNumeral_of_mem_toString hc).aroundNumeral_eq_false
  have hlength : (digitsOf n.natAbs).length ≤ Numeral.digitLimit :=
    Nat.toDigits_length 10 n.natAbs Numeral.digitLimit (by decide) h
  have hpos : (digitsOf n.natAbs).length ≠ 0 :=
    fun hzero => Nat.toDigits_ne_nil (List.length_eq_zero_iff.mp hzero)
  unfold readWhole
  rw [htrimmed, Numeral.takeSign_toString]
  dsimp only
  rw [Numeral.takeDigits_digitsOf Digit.value?_of_isDigit]
  dsimp only
  rw [if_neg (fun hlong => by omega), if_neg (by simp [hpos]), signed_natAbs]

end LargeNeighborhood
