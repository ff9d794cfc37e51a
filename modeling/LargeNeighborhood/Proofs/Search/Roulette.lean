import LargeNeighborhood.Proofs.Number.Exact
import LargeNeighborhood.Proofs.Number.Nonnegative
import LargeNeighborhood.Search.Roulette
import Mathlib.Algebra.Order.BigOperators.Group.List
import Mathlib.Algebra.Order.Field.Basic
import Mathlib.Order.Interval.Set.Basic

set_option autoImplicit false

/-! # What the wheel picks

A draw `u` points at `u` times the total weight. The item picked is the first one whose running sum
is beyond the pointer, or the last one with a weight when rounding has carried the pointer to the
end (`itemAt_cases`). Among reals the running sums rise from item to item and stand still at an item
without a weight, so that such an item is never the first beyond anything.

With exact numbers the pointer never gets to the end, and the draws that pick an item are an
interval as long as its share of the total (`bucket`), closed below and open above.
-/

namespace LargeNeighborhood

open Rounding

namespace Roulette

section Items

variable {ν ω : Type} [Scalar ν] {ws : List ν} {pointer : ν} {i : ℕ}

/-- Item `i` is the first whose running sum exceeds the pointer. -/
def FirstBeyond (ws : List ν) (pointer : ν) (i : ℕ) : Prop :=
  (∃ sum, (runningSums ws)[i]? = some sum ∧ pointer < sum) ∧
    ∀ j < i, ∀ sum, (runningSums ws)[j]? = some sum → ¬ pointer < sum

/-- Item `i` is the last one with a positive weight. -/
def LastWeighted (ws : List ν) (i : ℕ) : Prop :=
  (∃ w, ws[i]? = some w ∧ Scalar.zero < w) ∧
    ∀ j, i < j → ∀ w, ws[j]? = some w → ¬ Scalar.zero < w

/-- The first item whose running sum exceeds the pointer or, when there is none, the last one with a
positive weight. -/
def Selected (ws : List ν) (pointer : ν) (i : ℕ) : Prop :=
  FirstBeyond ws pointer i ∨ (∀ sum ∈ runningSums ws, ¬ pointer < sum) ∧ LastWeighted ws i

theorem FirstBeyond.unique {j : ℕ} (hi : FirstBeyond ws pointer i)
    (hj : FirstBeyond ws pointer j) : i = j := by
  obtain ⟨⟨sum, hsum, hlt⟩, hfirst⟩ := hi
  obtain ⟨⟨sum', hsum', hlt'⟩, hfirst'⟩ := hj
  rcases lt_trichotomy i j with h | h | h
  · exact absurd hlt (hfirst' i h sum hsum)
  · exact h
  · exact absurd hlt' (hfirst j h sum' hsum')

/-- Every running sum but the first adds a weight to the one in front of it. -/
theorem sumsFrom_getElem? {sum s : ν} (h : (sumsFrom sum ws)[i]? = some s) :
    ∃ before w, (sum :: sumsFrom sum ws)[i]? = some before ∧ ws[i]? = some w ∧ s = before + w := by
  induction ws generalizing sum i with
  | nil => cases h
  | cons w ws ih =>
      cases i with
      | zero =>
          cases h
          exact ⟨sum, w, rfl, rfl, rfl⟩
      | succ i =>
          obtain ⟨before, w', hbefore, hw, hs⟩ := ih h
          exact ⟨before, w', hbefore, hw, hs⟩

theorem runningSums_zero : (runningSums ws)[0]? = ws[0]? := by
  cases ws <;> rfl

theorem runningSums_succ {s : ν} (h : (runningSums ws)[i + 1]? = some s) :
    ∃ before w, (runningSums ws)[i]? = some before ∧ ws[i + 1]? = some w ∧ s = before + w := by
  cases ws with
  | nil => cases h
  | cons w ws => exact sumsFrom_getElem? h

theorem total?_eq_ok {total : ν} (htotal : (runningSums ws).getLast? = some total)
    (hws : ∀ w ∈ ws, ¬ w < Scalar.zero) (hpos : ¬ total ≤ Scalar.zero) :
    total? ws = .ok total := by
  have hnone : (ws.any fun w => decide (w < Scalar.zero)) = false := by
    simpa using hws
  unfold total?
  rw [htotal]
  dsimp only
  rw [hnone, if_neg hpos]
  rfl

/-- Weights that are not refused leave it to the draw alone whether an item is picked. -/
theorem spin_of_total {draw : ω → Except Fault ν × ω} {total : ν} (h : total? ws = .ok total)
    (world : ω) :
    spin draw ws world = ((draw world).1.map fun u => itemAt ws (u * total), (draw world).2) := by
  have hpick : ∀ u, pick ws u = .ok (itemAt ws (u * total)) := by
    intro u
    unfold pick
    rw [h]
    rfl
  unfold spin
  rw [h]
  dsimp only
  cases (draw world).1 with
  | error fault => rfl
  | ok u => exact congrArg (·, (draw world).2) (hpick u)

theorem spin_eq {draw : ω → Except Fault ν × ω} {total u : ν} {world world' : ω}
    (htotal : total? ws = .ok total) (hdraw : draw world = (.ok u, world')) :
    spin draw ws world = (.ok (itemAt ws (u * total)), world') := by
  rw [spin_of_total htotal, hdraw]
  rfl

/-- If the running sums are defined, the item of a pointer is the first one beyond it or, when there
is none, the last usable one. -/
theorem itemAt_cases (hbefore : ∀ sum ∈ runningSums ws, Scalar.before pointer sum → pointer < sum) :
    FirstBeyond ws pointer (itemAt ws pointer) ∨
      (∀ sum ∈ runningSums ws, ¬ pointer < sum) ∧ itemAt ws pointer = lastUsable ws := by
  unfold itemAt
  cases hfind : (runningSums ws).findIdx? fun sum => decide (Scalar.before pointer sum) with
  | none =>
      right
      refine ⟨?_, rfl⟩
      intro sum hsum hlt
      have hnot := List.findIdx?_eq_none_iff.mp hfind sum hsum
      exact of_decide_eq_false hnot (Or.inl hlt)
  | some i =>
      left
      obtain ⟨hi, hbeyond, hfirst⟩ := List.findIdx?_eq_some_iff_getElem.mp hfind
      refine ⟨⟨_, List.getElem?_eq_getElem hi, ?_⟩, ?_⟩
      · exact hbefore _ (List.getElem_mem hi) (of_decide_eq_true hbeyond)
      · intro j hj sum hsum hlt
        obtain ⟨hj', rfl⟩ := List.getElem?_eq_some_iff.mp hsum
        exact hfirst j hj (decide_eq_true (Or.inl hlt))

/-- The last usable item is the last one whose weight is not zero, if there is one. -/
theorem lastUsable_spec (h : ∃ w ∈ ws, ¬ Scalar.isZero w) :
    (∃ w, ws[lastUsable ws]? = some w ∧ ¬ Scalar.isZero w) ∧
      ∀ j, lastUsable ws < j → ∀ w, ws[j]? = some w → Scalar.isZero w := by
  unfold lastUsable
  cases hfind : ws.reverse.findIdx? fun w => !decide (Scalar.isZero w) with
  | none =>
      obtain ⟨w, hw, hzero⟩ := h
      have hnot := List.findIdx?_eq_none_iff.mp hfind w (List.mem_reverse.mpr hw)
      exact absurd (by simpa using hnot) hzero
  | some k =>
      obtain ⟨hk, hfound, hfirst⟩ := List.findIdx?_eq_some_iff_getElem.mp hfind
      have hk' : k < ws.length := by simpa using hk
      dsimp only
      constructor
      · refine ⟨ws[ws.length - 1 - k], List.getElem?_eq_getElem (by omega), ?_⟩
        rw [List.getElem_reverse] at hfound
        simpa using hfound
      · intro j hj w hw
        obtain ⟨hj', rfl⟩ := List.getElem?_eq_some_iff.mp hw
        -- Counted from the back, what follows the item comes in front of it.
        have hlater := hfirst (ws.length - 1 - j) (by omega)
        rw [List.getElem_reverse] at hlater
        have hindex : ws.length - 1 - (ws.length - 1 - j) = j := by omega
        simpa [hindex] using hlater

end Items

/-! ## Among reals -/

section Reals

variable {ws : List Float} {pointer : Float}

theorem sum_le_sumsFrom {sum : Float} (hsum : 0 ≤ sum) (hws : ∀ w ∈ ws, 0 ≤ w) :
    ∀ s ∈ sumsFrom sum ws, sum ≤ s := by
  induction ws generalizing sum with
  | nil => simp [sumsFrom]
  | cons w ws ih =>
      intro s hs
      obtain ⟨hw, hws⟩ := List.forall_mem_cons.mp hws
      have hle := le_add_right hsum hw
      rcases List.mem_cons.mp hs with rfl | hs
      · exact hle
      · exact real_le_trans hle (ih (real_le_trans hsum hle) hws s hs)

theorem zero_le_runningSums (hws : ∀ w ∈ ws, 0 ≤ w) : ∀ s ∈ runningSums ws, 0 ≤ s := by
  cases ws with
  | nil => simp [runningSums]
  | cons w ws =>
      intro s hs
      obtain ⟨hw, hws⟩ := List.forall_mem_cons.mp hws
      rcases List.mem_cons.mp hs with rfl | hs
      · exact hw
      · exact real_le_trans hw (sum_le_sumsFrom hw hws s hs)

/-- Weights of which none is positive leave the wheel without length. -/
theorem runningSums_of_zeros (hws : ∀ w ∈ ws, 0 ≤ w) (hzero : ∀ w ∈ ws, (w == 0) = true)
    {i : ℕ} {s : Float} (hs : (runningSums ws)[i]? = some s) : (s == 0) = true := by
  induction i generalizing s with
  | zero =>
      rw [runningSums_zero] at hs
      exact hzero s (List.mem_of_getElem? hs)
  | succ i ih =>
      obtain ⟨before, w, hbefore, hw, rfl⟩ := runningSums_succ hs
      have hnonneg := zero_le_runningSums hws before (List.mem_of_getElem? hbefore)
      rw [beq_zero_iff, worth_add_zero hnonneg (hzero w (List.mem_of_getElem? hw)),
        ← beq_zero_iff]
      exact ih hbefore

theorem zero_lt_or_beq_zero {w : Float} (h : 0 ≤ w) : 0 < w ∨ (w == 0) = true := by
  obtain ⟨q, hq, hnonneg⟩ := zero_le_iff.mp h
  rcases hnonneg.lt_or_eq with hlt | rfl
  · exact Or.inl (zero_lt_iff.mpr ⟨q, hq, hlt⟩)
  · exact Or.inr (beq_zero_iff.mpr hq)

/-- The first item beyond a pointer has a weight: at an item without one the running sum stands
still. -/
theorem FirstBeyond.weighted {i : ℕ} (h : FirstBeyond ws pointer i) (hws : ∀ w ∈ ws, 0 ≤ w)
    (hpointer : 0 ≤ pointer) : ∃ w, ws[i]? = some w ∧ 0 < w := by
  obtain ⟨⟨sum, hsum, hlt⟩, hfirst⟩ := h
  cases i with
  | zero =>
      rw [runningSums_zero] at hsum
      exact ⟨sum, hsum, real_lt_of_le_of_lt hpointer hlt⟩
  | succ i =>
      obtain ⟨before, w, hbefore, hw, rfl⟩ := runningSums_succ hsum
      refine ⟨w, hw, ?_⟩
      rcases zero_lt_or_beq_zero (hws w (List.mem_of_getElem? hw)) with hpos | hzero
      · exact hpos
      · have hnonneg := zero_le_runningSums hws before (List.mem_of_getElem? hbefore)
        obtain ⟨p, q, hp, hq, hpq⟩ := lt_iff.mp hlt
        rw [worth_add_zero hnonneg hzero] at hq
        exact absurd (lt_iff.mpr ⟨p, q, hp, hq, hpq⟩) (hfirst i (Nat.lt_succ_self i) before hbefore)

/-- Of weights that are not negative, one of them positive, the last one that is not zero is the
last one that is positive. -/
theorem lastWeighted_lastUsable (hws : ∀ w ∈ ws, 0 ≤ w) (hpos : ∃ w ∈ ws, 0 < w) :
    LastWeighted ws (lastUsable ws) := by
  obtain ⟨w, hw, hlt⟩ := hpos
  obtain ⟨⟨w', hw', hnonzero⟩, hlater⟩ :=
    lastUsable_spec ⟨w, hw, fun hzero => real_not_le_of_lt hlt hzero.1⟩
  constructor
  · refine ⟨w', hw', ?_⟩
    have hnonneg := hws w' (List.mem_of_getElem? hw')
    rcases zero_lt_or_beq_zero hnonneg with hpos | hzero
    · exact hpos
    · exact absurd ⟨(le_zero_iff_beq hnonneg).mpr hzero, hnonneg⟩ hnonzero
  · intro j hj x hx hlt
    exact real_not_le_of_lt hlt (hlater j hj x hx).1

/-- A pointer that is not negative selects an item with a weight. -/
theorem itemAt_selected (hws : ∀ w ∈ ws, 0 ≤ w) (hpos : ∃ w ∈ ws, 0 < w) (hpointer : 0 ≤ pointer) :
    Selected ws pointer (itemAt ws pointer) ∧ ∃ w, ws[itemAt ws pointer]? = some w ∧ 0 < w := by
  have hbefore : ∀ sum ∈ runningSums ws, Scalar.before pointer sum → pointer < sum := by
    rintro sum hsum (hlt | ⟨hundefined, -⟩)
    · exact hlt
    · obtain ⟨-, q, -, hq, -⟩ := le_iff.mp (zero_le_runningSums hws sum hsum)
      exact absurd (le_iff.mpr ⟨q, q, hq, hq, le_rfl⟩) hundefined
  rcases itemAt_cases hbefore with hfirst | ⟨hnone, hlast⟩
  · exact ⟨Or.inl hfirst, hfirst.weighted hws hpointer⟩
  · have hweighted := lastWeighted_lastUsable hws hpos
    rw [← hlast] at hweighted
    exact ⟨Or.inr ⟨hnone, hweighted⟩, hweighted.1⟩

theorem exists_pos_of_total (hws : ∀ w ∈ ws, 0 ≤ w) {total : Float}
    (htotal : (runningSums ws).getLast? = some total) (hpos : 0 < total) : ∃ w ∈ ws, 0 < w := by
  by_contra hnone
  have hzeros : ∀ w ∈ ws, (w == 0) = true := by
    intro w hw
    exact (zero_lt_or_beq_zero (hws w hw)).resolve_left fun hlt => hnone ⟨w, hw, hlt⟩
  rw [List.getLast?_eq_getElem?] at htotal
  exact not_beq_zero hpos (runningSums_of_zeros hws hzeros htotal)

end Reals

/-! ## With exact numbers -/

section Exact

variable {ws : List ℚ} {pointer u : ℚ} {i : ℕ}

theorem sumsFrom_rat (sum : ℚ) (ws : List ℚ) (i : ℕ) :
    (sumsFrom sum ws)[i]? = if i < ws.length then some (sum + (ws.take (i + 1)).sum) else none := by
  induction ws generalizing sum i with
  | nil => rfl
  | cons w ws ih =>
      cases i with
      | zero => simp [sumsFrom]
      | succ i => simp [sumsFrom, ih, add_assoc]

/-- A running sum is the sum of the weights so far. -/
theorem runningSums_rat (ws : List ℚ) (i : ℕ) :
    (runningSums ws)[i]? = if i < ws.length then some (ws.take (i + 1)).sum else none := by
  cases ws with
  | nil => rfl
  | cons w ws =>
      cases i with
      | zero => simp [runningSums]
      | succ i => simp [runningSums, sumsFrom_rat]

theorem getLast?_runningSums_rat (hne : ws ≠ []) :
    (runningSums ws).getLast? = some ws.sum := by
  have hpos : 0 < ws.length := List.length_pos_iff.mpr hne
  rw [List.getLast?_eq_getElem?, runningSums_rat, length_runningSums, if_pos (by omega),
    List.take_of_length_le (by omega)]

theorem ne_nil_of_sum_pos (hpos : 0 < ws.sum) : ws ≠ [] := by
  rintro rfl
  exact lt_irrefl _ hpos

/-- The length of the wheel is the sum of its weights. -/
theorem total?_rat (hws : ∀ w ∈ ws, 0 ≤ w) (hpos : 0 < ws.sum) : total? ws = .ok ws.sum := by
  refine total?_eq_ok (getLast?_runningSums_rat (ne_nil_of_sum_pos hpos)) ?_ ?_
  · intro w hw
    rw [Scalar.zero_rat]
    exact not_lt.mpr (hws w hw)
  · rw [Scalar.zero_rat]
    exact not_le.mpr hpos

theorem sum_take_mono (hws : ∀ w ∈ ws, 0 ≤ w) {i j : ℕ} (h : i ≤ j) :
    (ws.take i).sum ≤ (ws.take j).sum := by
  obtain ⟨k, rfl⟩ := Nat.exists_eq_add_of_le h
  have hrest : 0 ≤ ((ws.drop i).take k).sum :=
    List.sum_nonneg fun w hw => hws w (List.mem_of_mem_drop (List.mem_of_mem_take hw))
  rw [List.take_add, List.sum_append]
  linarith

/-- The draws that belong to an item: from the sum in front of it up to the sum behind it, as shares
of the total. -/
def bucket (ws : List ℚ) (i : ℕ) : Set ℚ :=
  Set.Ico ((ws.take i).sum / ws.sum) ((ws.take (i + 1)).sum / ws.sum)

/-- No draw belongs to an item that is not there. -/
theorem lt_length_of_mem_bucket (h : u ∈ bucket ws i) : i < ws.length := by
  by_contra hlength
  obtain ⟨hlow, hhigh⟩ := h
  rw [List.take_of_length_le (by omega)] at hlow hhigh
  exact absurd hhigh (not_lt.mpr hlow)

theorem mem_bucket (hpos : 0 < ws.sum) :
    u ∈ bucket ws i ↔ (ws.take i).sum ≤ u * ws.sum ∧ u * ws.sum < (ws.take (i + 1)).sum := by
  unfold bucket
  rw [Set.mem_Ico, div_le_iff₀ hpos, lt_div_iff₀ hpos]

/-- A bucket is as long as the share of its item. -/
theorem bucket_length {w : ℚ} (h : ws[i]? = some w) :
    (ws.take (i + 1)).sum / ws.sum - (ws.take i).sum / ws.sum = w / ws.sum := by
  rw [List.take_add_one, h, List.sum_append, ← sub_div]
  simp

theorem firstBeyond_iff (hws : ∀ w ∈ ws, 0 ≤ w) (hpointer : 0 ≤ pointer) (hi : i < ws.length) :
    FirstBeyond ws pointer i ↔ (ws.take i).sum ≤ pointer ∧ pointer < (ws.take (i + 1)).sum := by
  have hsum : (runningSums ws)[i]? = some (ws.take (i + 1)).sum := by
    rw [runningSums_rat, if_pos hi]
  constructor
  · rintro ⟨⟨sum, hsum', hlt⟩, hfirst⟩
    cases hsum.symm.trans hsum'
    refine ⟨?_, hlt⟩
    cases i with
    | zero => simpa using hpointer
    | succ i =>
        have hbefore : (runningSums ws)[i]? = some (ws.take (i + 1)).sum := by
          rw [runningSums_rat, if_pos (by omega)]
        exact not_lt.mp (hfirst i (Nat.lt_succ_self i) _ hbefore)
  · rintro ⟨hle, hlt⟩
    refine ⟨⟨_, hsum, hlt⟩, ?_⟩
    intro j hj sum hsum' hlt'
    rw [runningSums_rat, if_pos (by omega)] at hsum'
    cases hsum'
    have hmono := sum_take_mono hws (show j + 1 ≤ i by omega)
    linarith

/-- Below the total there is always a first item beyond the pointer. -/
theorem itemAt_rat (hne : ws ≠ []) (hlt : pointer < ws.sum) :
    FirstBeyond ws pointer (itemAt ws pointer) := by
  rcases itemAt_cases (fun _ _ => Scalar.before_rat.mp) with hfirst | ⟨hnone, -⟩
  · exact hfirst
  · exact absurd hlt (hnone _ (List.mem_of_getLast? (getLast?_runningSums_rat hne)))

/-- A draw picks the item to whose bucket it belongs, and no other. -/
theorem spin_rat {ω : Type} {draw : ω → Except Fault ℚ × ω} {world world' : ω}
    (hws : ∀ w ∈ ws, 0 ≤ w) (hpos : 0 < ws.sum) (hdraw : draw world = (.ok u, world'))
    (hu : 0 ≤ u) (hu' : u < 1) :
    ∃ i, spin draw ws world = (.ok i, world') ∧ ∀ j, u ∈ bucket ws j ↔ j = i := by
  have hne := ne_nil_of_sum_pos hpos
  have hpointer : 0 ≤ u * ws.sum := mul_nonneg hu hpos.le
  have hlt : u * ws.sum < ws.sum := mul_lt_of_lt_one_left hpos hu'
  have hfirst := itemAt_rat hne hlt
  refine ⟨_, spin_eq (total?_rat hws hpos) hdraw, ?_⟩
  intro j
  constructor
  · intro hj
    have hlength := lt_length_of_mem_bucket hj
    exact ((firstBeyond_iff hws hpointer hlength).mpr ((mem_bucket hpos).mp hj)).unique hfirst
  · rintro rfl
    exact (mem_bucket hpos).mpr
      ((firstBeyond_iff hws hpointer (itemAt_lt hne _)).mp hfirst)

/-- All draws of a bucket are draws of the unit interval. -/
theorem bucket_subset (hws : ∀ w ∈ ws, 0 ≤ w) (hpos : 0 < ws.sum) :
    bucket ws i ⊆ Set.Ico 0 1 := by
  intro u hu
  obtain ⟨hlow, hhigh⟩ := hu
  have hzero : 0 ≤ (ws.take i).sum := List.sum_nonneg fun w hw => hws w (List.mem_of_mem_take hw)
  have hle : (ws.take (i + 1)).sum ≤ ws.sum := by
    have hmono := sum_take_mono hws (Nat.le_max_left (i + 1) ws.length)
    rwa [List.take_of_length_le (Nat.le_max_right (i + 1) ws.length)] at hmono
  constructor
  · exact (div_nonneg hzero hpos.le).trans hlow
  · exact hhigh.trans_le ((div_le_one hpos).mpr hle)

/-- A draw that is not below the sum in front of an item picks that item or a later one. -/
theorem le_of_mem_bucket (hws : ∀ w ∈ ws, 0 ≤ w) (hpos : 0 < ws.sum) {j : ℕ}
    (hle : (ws.take i).sum / ws.sum ≤ u) (hj : u ∈ bucket ws j) : i ≤ j := by
  by_contra hlt
  have hmono := sum_take_mono hws (show j + 1 ≤ i by omega)
  have hshare : (ws.take (j + 1)).sum / ws.sum ≤ (ws.take i).sum / ws.sum :=
    div_le_div_of_nonneg_right hmono hpos.le
  exact absurd hj.2 (not_lt.mpr (hshare.trans hle))

end Exact

/-! ## The wheel -/

/-- With exact numbers the draws are divided among the items in proportion to their weights. -/
structure Proportional {ω : Type} (draw : ω → Except Fault ℚ × ω) (ws : List ℚ) : Prop where
  /-- The draws that pick an item are those of its bucket. -/
  picks : ∀ {u world world'}, draw world = (.ok u, world') → 0 ≤ u → u < 1 →
    ∃ i, spin draw ws world = (.ok i, world') ∧ ∀ j, u ∈ bucket ws j ↔ j = i
  unit : ∀ i, bucket ws i ⊆ Set.Ico 0 1
  length : ∀ {i w}, ws[i]? = some w →
    (ws.take (i + 1)).sum / ws.sum - (ws.take i).sum / ws.sum = w / ws.sum
  /-- A larger draw picks the same item or a later one. -/
  monotone : ∀ {u v x x' y y' i j}, draw x = (.ok u, x') → draw y = (.ok v, y') → 0 ≤ u → u ≤ v →
    v < 1 → spin draw ws x = (.ok i, x') → spin draw ws y = (.ok j, y') → i ≤ j
  /-- A draw on the border in front of an item does not pick what lies in front of the border. -/
  border : ∀ {i j u world world'}, draw world = (.ok u, world') → u = (ws.take i).sum / ws.sum →
    u < 1 → spin draw ws world = (.ok j, world') → i ≤ j

theorem proportional {ω : Type} {draw : ω → Except Fault ℚ × ω} {ws : List ℚ}
    (hws : ∀ w ∈ ws, 0 ≤ w) (hpos : 0 < ws.sum) : Proportional draw ws := by
  -- what is picked tells in which bucket the draw lies
  have hmem : ∀ {u world world' i}, draw world = (.ok u, world') → 0 ≤ u → u < 1 →
      spin draw ws world = (.ok i, world') → u ∈ bucket ws i := by
    intro u world world' i hdraw hu hu' hspin
    obtain ⟨i', hspin', hbucket⟩ := spin_rat hws hpos hdraw hu hu'
    cases hspin.symm.trans hspin'
    exact (hbucket i).mpr rfl
  refine ⟨spin_rat hws hpos, fun i => bucket_subset hws hpos, bucket_length, ?_, ?_⟩
  · intro u v x x' y y' i j hx hy hu huv hv hspin hspin'
    have hi := hmem hx hu (huv.trans_lt hv) hspin
    exact le_of_mem_bucket hws hpos (hi.1.trans huv) (hmem hy (hu.trans huv) hv hspin')
  · intro i j u world world' hdraw hborder hu hspin
    have hzero : 0 ≤ u := by
      rw [hborder]
      exact div_nonneg (List.sum_nonneg fun w hw => hws w (List.mem_of_mem_take hw)) hpos.le
    exact le_of_mem_bucket hws hpos hborder.ge (hmem hdraw hzero hu hspin)

/-- The wheel is an exact roulette. Among reals every draw selects the first item whose running sum
exceeds the pointer, or the last item with a weight if none does, and never an item without one.
With exact numbers each item has the draws of an interval as long as its share. -/
theorem spin_exact {ω : Type} {draw : ω → Except Fault Float × ω} {ws : List Float}
    (hws : ∀ w ∈ ws, w.isFinite = true ∧ 0 ≤ w) {total : Float}
    (htotal : (runningSums ws).getLast? = some total) (hfinite : total.isFinite = true)
    (hpos : 0 < total) {u : Float} {world world' : ω} (hdraw : draw world = (.ok u, world'))
    (hu : 0 ≤ u) (hu' : u < 1) {exact : ω → Except Fault ℚ × ω} {vs : List ℚ}
    (hvs : ∀ v ∈ vs, 0 ≤ v) (hpos' : 0 < vs.sum) :
    (∃ i, spin draw ws world = (.ok i, world') ∧ Selected ws (u * total) i ∧
      ∃ w, ws[i]? = some w ∧ 0 < w) ∧ Proportional exact vs := by
  have hnonneg : ∀ w ∈ ws, 0 ≤ w := fun w hw => (hws w hw).2
  have hfit : total? ws = .ok total := by
    refine total?_eq_ok htotal ?_ (real_not_le_of_lt hpos)
    intro w hw hlt
    exact real_not_le_of_lt hlt (hnonneg w hw)
  obtain ⟨t, ht⟩ := worth_of_isFinite hfinite
  obtain ⟨q, hq, hq0, -⟩ := exists_worth_of_unit hu hu'
  have ht0 : 0 ≤ t := by
    obtain ⟨p, r, hp, hr, hpr⟩ := lt_iff.mp hpos
    cases worth_zero.symm.trans hp
    cases ht.symm.trans hr
    exact exactly_le_exactly.mp hpr.le
  have hpointer : 0 ≤ u * total := zero_le_mul hq hq0 ht ht0
  obtain ⟨hselected, hweighted⟩ :=
    itemAt_selected hnonneg (exists_pos_of_total hnonneg htotal hpos) hpointer
  exact ⟨⟨_, spin_eq hfit hdraw, hselected, hweighted⟩, proportional hvs hpos'⟩

/-- A draw of one half points at the border between two equal weights, among items without any. -/
theorem spin_exact_border :
    let half : Unit → Except Fault Float × Unit := fun world => (.ok 0.5, world)
    let exactHalf : Unit → Except Fault ℚ × Unit := fun world => (.ok (1 / 2), world)
    spin half [0, 1, 0, 1, 0] () = (.ok 3, ()) ∧ Selected [0, 1, 0, 1, 0] ((0.5 : Float) * 2) 3 ∧
      spin exactHalf [0, 1, 0, 1, 0] () = (.ok 3, ()) ∧ 1 / 2 ∈ bucket [0, 1, 0, 1, 0] 3 := by
  intro half exactHalf
  have hws : ∀ w ∈ ([0, 1, 0, 1, 0] : List Float), w.isFinite = true ∧ 0 ≤ w := by decide +kernel
  have htotal : (runningSums ([0, 1, 0, 1, 0] : List Float)).getLast? = some 2 := by
    decide +kernel
  have hvs : ∀ v ∈ ([0, 1, 0, 1, 0] : List ℚ), 0 ≤ v := by decide +kernel
  have hdraw : half () = (.ok 0.5, ()) := rfl
  have hdraw' : exactHalf () = (.ok (1 / 2), ()) := rfl
  have hexact : (∃ i, spin half [0, 1, 0, 1, 0] () = (.ok i, ()) ∧
      Selected [0, 1, 0, 1, 0] (0.5 * 2) i ∧ ∃ w : Float, [0, 1, 0, 1, 0][i]? = some w ∧ 0 < w) ∧
      Proportional exactHalf [0, 1, 0, 1, 0] :=
    spin_exact hws htotal (by decide +kernel) (by decide +kernel) hdraw (by decide +kernel)
      (by decide +kernel) hvs (by decide +kernel)
  obtain ⟨⟨i, hspin, hselected, -⟩, hproportional⟩ := hexact
  have hi : (spin half [0, 1, 0, 1, 0] ()).1.toOption = some 3 := by decide +kernel
  rw [hspin] at hi
  cases hi
  have hbucket : (1 / 2 : ℚ) ∈ bucket [0, 1, 0, 1, 0] 3 := by
    rw [mem_bucket (by decide +kernel)]
    decide +kernel
  obtain ⟨j, hspin', hpicks⟩ := hproportional.picks hdraw' (by norm_num) (by norm_num)
  obtain rfl := (hpicks 3).mp hbucket
  exact ⟨hspin, hselected, hspin', hbucket⟩

end Roulette

end LargeNeighborhood
