import LargeNeighborhood.Random.Source

set_option autoImplicit false

/-! # Promises of draws

A search relies on all promises of a generator (`Generator.Lawful`). A removal alone needs numbers
below a bound (`Generator.DrawsBelow`), and an insertion alone needs a list in another order
(`Generator.Shuffles`).

Whatever the draws are, an exchange of two items leaves the same items, so a list that has been
shuffled is a permutation of what it was. This holds of both sources, also where their draws miss
their range: then there is no list (`Source.permutes`).

Not all worlds that a source can be written in are worlds that it comes to. What a source promises
in some worlds, which it does not leave, is `Generator.LawfulIn`.
-/

namespace LargeNeighborhood

variable {ω : Type}

namespace Generator

/-- A list that comes out of a shuffle is a permutation of the one that has gone in. -/
def Permutes (g : Generator ω) : Prop :=
  ∀ (xs : List Int) (w : ω) (ys : List Int), (g.shuffle xs w).1 = .ok ys → ys.Perm xs

/-- Below every bound that leaves a number to draw, one is drawn. Of other bounds nothing is
promised. -/
def DrawsBelow (g : Generator ω) : Prop :=
  ∀ (n : Int) (w : ω), 1 ≤ n → ∃ i w', g.below n w = (.ok i, w') ∧ 0 ≤ i ∧ i < n

/-- Every list can be shuffled, and comes out as a permutation. -/
def Shuffles (g : Generator ω) : Prop :=
  ∀ (xs : List Int) (w : ω), ∃ ys w', g.shuffle xs w = (.ok ys, w') ∧ ys.Perm xs

/-- In the worlds `W` numbers are drawn below all bounds up to a limit, and `W` is not left. -/
def DrawsIn (g : Generator ω) (W : ω → Prop) (limit : Int) : Prop :=
  ∀ (n : Int) (w : ω), W w → 1 ≤ n → n ≤ limit →
    ∃ i w', g.below n w = (.ok i, w') ∧ 0 ≤ i ∧ i < n ∧ W w'

/-- In the worlds `W` every list can be shuffled, and `W` is not left. -/
def ShufflesIn (g : Generator ω) (W : ω → Prop) : Prop :=
  ∀ (xs : List Int) (w : ω), W w → ∃ ys w', g.shuffle xs w = (.ok ys, w') ∧ ys.Perm xs ∧ W w'

/-- The promises that a generator keeps in the worlds `W`, which it does not leave. -/
structure LawfulIn (g : Generator ω) (W : ω → Prop) (limit : Int) : Prop where
  unit_ok : ∀ w : ω, W w → ∃ (u : Float) (w' : ω), g.unit w = (.ok u, w') ∧ 0 ≤ u ∧ u < 1 ∧ W w'
  below_ok : g.DrawsIn W limit
  shuffle_ok : g.ShufflesIn W

theorem DrawsBelow.drawsIn {g : Generator ω} (h : g.DrawsBelow) (limit : Int) :
    g.DrawsIn (fun _ => True) limit := by
  intro n w _ hn _
  obtain ⟨i, w', hi, hlow, hhigh⟩ := h n w hn
  exact ⟨i, w', hi, hlow, hhigh, trivial⟩

theorem Shuffles.shufflesIn {g : Generator ω} (h : g.Shuffles) :
    g.ShufflesIn fun _ => True := by
  intro xs w _
  obtain ⟨ys, w', hys, hperm⟩ := h xs w
  exact ⟨ys, w', hys, hperm, trivial⟩

theorem Lawful.permutes {g : Generator ω} (h : g.Lawful) : g.Permutes := by
  intro xs w ys hys
  obtain ⟨zs, w', hzs, hperm⟩ := h.shuffle_ok xs w
  rw [hzs] at hys
  cases hys
  exact hperm

/-- A source that counts its draws, and reverses lists. -/
def counting : Generator Nat where
  unit := fun w => (.ok (if w % 3 = 0 then 0.1 else 0.9), w + 1)
  below := fun n w => (.ok (w % n), w + 1)
  shuffle := fun xs w => (.ok xs.reverse, w + 1)

theorem counting_lawful : counting.Lawful where
  unit_ok := by
    intro w
    refine ⟨if w % 3 = 0 then 0.1 else 0.9, w + 1, rfl, ?_⟩
    split
    · decide +kernel
    · decide +kernel
  below_ok := by
    intro n w hn
    refine ⟨w % n, w + 1, rfl, Int.emod_nonneg _ (by omega), Int.emod_lt_of_pos _ (by omega)⟩
  shuffle_ok := fun xs w => ⟨xs.reverse, w + 1, rfl, List.reverse_perm xs⟩

end Generator

theorem exchange_perm (xs : Array Int) (i j : Nat) : (exchange xs i j).toList.Perm xs.toList := by
  unfold exchange Array.swapIfInBounds
  split
  · split
    · exact (Array.swap_perm _ _).toList
    · exact List.Perm.refl _
  · exact List.Perm.refl _

theorem shuffleDown_perm {draw : Nat → ω → Except Fault Nat × ω} {n : Nat} {xs : Array Int} {w : ω}
    {ys : List Int} (h : (shuffleDown draw n xs w).1 = .ok ys) : ys.Perm xs.toList := by
  induction n generalizing xs w with
  | zero =>
      cases h
      exact List.Perm.refl _
  | succ n ih =>
      unfold shuffleDown at h
      split at h
      · exact (ih h).trans (exchange_perm xs _ _)
      · cases h

/-- Whatever indices are drawn, a list can be shuffled as long as they are drawn. -/
theorem exists_shuffleDown_ok {draw : Nat → ω → Except Fault Nat × ω} {W : ω → Prop}
    (hdraw : ∀ i w, W w → ∃ j w', draw i w = (.ok j, w') ∧ W w') (n : Nat) (xs : Array Int) {w : ω}
    (hw : W w) : ∃ ys w', shuffleDown draw n xs w = (.ok ys, w') ∧ W w' := by
  induction n generalizing xs w with
  | zero => exact ⟨xs.toList, w, rfl, hw⟩
  | succ n ih =>
      obtain ⟨j, w', hj, hw'⟩ := hdraw (n + 1) w hw
      unfold shuffleDown
      rw [hj]
      exact ih _ hw'

theorem Source.permutes : Source.generator.Permutes := by
  intro xs w ys h
  cases w with
  | seeded g =>
      have hshuffle : (Congruential.shuffle xs g).1 = .ok ys := h
      exact shuffleDown_perm hshuffle
  | tape t =>
      have hshuffle : (Tape.shuffle xs t).1 = .ok ys := h
      exact shuffleDown_perm hshuffle

end LargeNeighborhood
