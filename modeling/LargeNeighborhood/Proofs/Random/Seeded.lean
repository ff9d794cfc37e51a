import LargeNeighborhood.Proofs.Number.Unrounded
import LargeNeighborhood.Proofs.Random.Shuffle

set_option autoImplicit false

/-! # The seeded generator keeps its promises

Between two draws the generator may hold the upper half of a word, which has 32 bits
(`Congruential.Held`). As long as it does, every draw of so many bits is below the power of two, so
the upper half of its product with a bound is below the bound, whichever draws are rejected on the
way. Bounds of more than 63 bits are refused, and nothing else is (`Source.lawfulIn`).
-/

namespace LargeNeighborhood

open Rounding

namespace Congruential

/-- What is kept of a word is one half of it. -/
def Held (g : Congruential) : Prop := ∀ v, g.saved = some v → v < twoTo 32

theorem held_ofSeed (n : Nat) : (ofSeed n).Held := by
  unfold ofSeed step Held
  simp

/-- A way of drawing that draws below a bound and keeps to halves of words. -/
def Bounds (next : Congruential → Nat × Congruential) (bound : Nat) : Prop :=
  ∀ g : Congruential, g.Held → (next g).1 < bound ∧ (next g).2.Held

theorem saved_step (g : Congruential) : g.step.saved = g.saved := by
  obtain ⟨state, increment, saved⟩ := g
  dsimp only [step]

theorem next64_lt (g : Congruential) : g.next64.1 < twoTo 64 := by
  unfold next64 rotateRight
  exact Nat.mod_lt _ (twoTo_pos 64)

theorem next64_bounds : Bounds next64 (twoTo 64) := by
  intro g hg
  refine ⟨g.next64_lt, ?_⟩
  intro v hv
  unfold next64 at hv
  rw [saved_step] at hv
  exact hg v hv

theorem next32_bounds : Bounds next32 (twoTo 32) := by
  intro g hg
  unfold next32
  split
  · rename_i v hv
    exact ⟨hg v hv, by intro v' hv'; cases hv'⟩
  · have hword := (next64_bounds g hg).1
    refine ⟨Nat.mod_lt _ (twoTo_pos 32), ?_⟩
    intro v hv
    cases hv
    exact Nat.div_lt_of_lt_mul hword

/-- Rejected draws do no harm: one of the draws is the last. -/
theorem Bounds.drawUntil {next : Congruential → Nat × Congruential} {bound : Nat}
    (h : Bounds next bound) (keep : Nat → Bool) (fuel : Nat) :
    Bounds (Congruential.drawUntil next keep fuel) bound := by
  intro g hg
  induction fuel generalizing g with
  | zero => exact h g hg
  | succ fuel ih =>
      unfold Congruential.drawUntil
      dsimp only
      split
      · exact h g hg
      · exact ih _ (h g hg).2

theorem Bounds.scaled {next : Congruential → Nat × Congruential} {bits n : Nat}
    (h : Bounds next (twoTo bits)) (hn : 0 < n) : Bounds (Congruential.scaled next bits n) n := by
  intro g hg
  obtain ⟨hlt, hheld⟩ := h.drawUntil
    (fun v => decide ((twoTo bits - n) % n ≤ v * n % twoTo bits)) attempts g hg
  unfold Congruential.scaled
  dsimp only
  exact ⟨Nat.div_lt_of_lt_mul (Nat.mul_lt_mul_of_pos_right hlt hn), hheld⟩

theorem bounded_bounds {n : Nat} (hn : 0 < n) : Bounds (bounded n) n := by
  intro g hg
  unfold bounded
  by_cases hone : n ≤ 1
  · rw [if_pos hone]
    exact ⟨hn, hg⟩
  by_cases hsmall : n ≤ twoTo 32
  · rw [if_neg hone, if_pos hsmall]
    exact next32_bounds.scaled hn g hg
  · rw [if_neg hone, if_neg hsmall]
    exact next64_bounds.scaled hn g hg

/-- A draw of 53 bits is a share. -/
theorem worth_unit (g : Congruential) :
    ∃ k : ℕ, k < 2 ^ 53 ∧ worth g.unit.1 = some (exactly (k / 2 ^ 53)) := by
  have hdivisor : worth 9007199254740992.0 = some (exactly (2 ^ 53)) := by
    have hscaled : Rounding.scaled (2 ^ 52) 1 = 2 ^ 53 := by norm_num [Rounding.scaled]
    rw [← hscaled]
    rfl
  have hk : g.next64.1 / twoTo 11 < 2 ^ 53 := by
    have hword : g.next64.1 < 2 ^ 64 := g.next64_lt
    have hpower : twoTo 11 = 2 ^ 11 := rfl
    rw [hpower]
    omega
  refine ⟨g.next64.1 / twoTo 11, hk, ?_⟩
  unfold unit
  dsimp only
  -- to divide 53 bits by a power of two changes only the exponent, so nothing is rounded
  generalize g.next64.1 / twoTo 11 = k at hk ⊢
  have hpos : (0 : ℚ) < 2 ^ 53 := by positivity
  have hquotient : |(k : ℚ) / 2 ^ 53| = (k : ℚ) / 2 ^ 53 := abs_of_nonneg (by positivity)
  have hkept : Kept ((k : ℚ) / 2 ^ 53) := by
    constructor
    · rw [hquotient]
      exact ⟨k, -53, hk, by norm_num, by norm_num [Rounding.scaled, div_eq_mul_inv]⟩
    · calc |(k : ℚ) / 2 ^ 53| = (k : ℚ) / 2 ^ 53 := hquotient
        _ ≤ 1 := by
          rw [div_le_one hpos]
          exact_mod_cast hk.le
        _ ≤ 2 ^ (1023 : ℤ) := one_le_zpow₀ (by norm_num) (by norm_num)
  exact worth_div (worth_ofNat hk.le) (Nat.cast_nonneg k) hdivisor hpos hkept

theorem unit_bounds (g : Congruential) : 0 ≤ g.unit.1 ∧ g.unit.1 < 1 := by
  obtain ⟨k, hk, hunit⟩ := worth_unit g
  have hshare : (k : ℚ) / 2 ^ 53 < 1 := by
    rw [div_lt_one (by positivity)]
    exact_mod_cast hk
  constructor
  · exact zero_le_of_worth hunit (by positivity)
  · rw [lt_iff]
    exact ⟨_, _, hunit, worth_one, exactly_lt_exactly.mpr hshare⟩

theorem unit_held {g : Congruential} (hg : g.Held) : g.unit.2.Held := by
  unfold unit
  exact (next64_bounds g hg).2

/-- Below bounds of 63 bits every draw succeeds. -/
theorem exists_below_ok {n : Int} (hn : 1 ≤ n) (hlimit : n ≤ 2 ^ 63) {g : Congruential}
    (hg : g.Held) : ∃ i g', g.below n = (.ok i, g') ∧ 0 ≤ i ∧ i < n ∧ g'.Held := by
  have hrange : ¬ (n ≤ 0 ∨ (twoTo 63 : ℤ) < n) := by
    have hpower : (twoTo 63 : ℤ) = 2 ^ 63 := rfl
    omega
  obtain ⟨hlt, hheld⟩ := bounded_bounds (n := n.toNat) (by omega) g hg
  refine ⟨(bounded n.toNat g).1, (bounded n.toNat g).2, ?_, ?_, ?_, hheld⟩
  · unfold below
    rw [if_neg hrange]
  · omega
  · omega

theorem index_held (i : Nat) {g : Congruential} (hg : g.Held) : (index i g).2.Held := by
  unfold index
  dsimp only
  exact (next32_bounds.drawUntil _ attempts g hg).2

theorem exists_shuffle_ok (xs : List Int) {g : Congruential} (hg : g.Held) :
    ∃ ys g', g.shuffle xs = (.ok ys, g') ∧ ys.Perm xs ∧ g'.Held := by
  have hdraw : ∀ i g, Held g → ∃ j g', (Except.ok (index i g).1, (index i g).2) =
      ((Except.ok j : Except Fault Nat), g') ∧ g'.Held :=
    fun i g hg => ⟨(index i g).1, (index i g).2, rfl, index_held i hg⟩
  obtain ⟨ys, g', hys, hg'⟩ := exists_shuffleDown_ok hdraw (xs.length - 1) xs.toArray hg
  exact ⟨ys, g', hys, shuffleDown_perm (congrArg Prod.fst hys), hg'⟩

end Congruential

namespace Source

/-- A source that has been made from a seed. -/
def Seeded : Source → Prop
  | .seeded g => g.Held
  | .tape _ => False

/-- A source is made of every seed that is not negative. -/
theorem ofSeed_eq (seed : Int) :
    (seed < 0 ∧ ofSeed seed = .error .negativeSeed) ∨
      (0 ≤ seed ∧ ∃ w, ofSeed seed = .ok w ∧ w.Seeded) := by
  unfold ofSeed
  by_cases hseed : seed < 0
  · rw [if_pos hseed]
    exact Or.inl ⟨hseed, rfl⟩
  · rw [if_neg hseed]
    exact Or.inr ⟨by omega, _, rfl, Congruential.held_ofSeed _⟩

/-- What a seeded source promises of its draws. -/
theorem lawfulIn : generator.LawfulIn Seeded (2 ^ 63) where
  unit_ok := by
    intro w hw
    cases w with
    | tape t => exact hw.elim
    | seeded g =>
        obtain ⟨hlow, hhigh⟩ := g.unit_bounds
        exact ⟨g.unit.1, .seeded g.unit.2, rfl, hlow, hhigh, Congruential.unit_held hw⟩
  below_ok := by
    intro n w hw hn hlimit
    cases w with
    | tape t => exact hw.elim
    | seeded g =>
        obtain ⟨i, g', hi, hlow, hhigh, hheld⟩ := Congruential.exists_below_ok hn hlimit hw
        refine ⟨i, .seeded g', ?_, hlow, hhigh, hheld⟩
        simp only [generator, draw, hi]
  shuffle_ok := by
    intro xs w hw
    cases w with
    | tape t => exact hw.elim
    | seeded g =>
        obtain ⟨ys, g', hys, hperm, hheld⟩ := Congruential.exists_shuffle_ok xs hw
        refine ⟨ys, .seeded g', ?_, hperm, hheld⟩
        simp only [generator, draw, hys]

end Source

end LargeNeighborhood
