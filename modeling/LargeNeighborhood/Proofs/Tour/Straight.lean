import LargeNeighborhood.Proofs.Number.SquareRoot
import LargeNeighborhood.Proofs.Number.Summation
import LargeNeighborhood.Proofs.Tour.Orientation
import LargeNeighborhood.Proofs.Tour.Points

set_option autoImplicit false

/-! # Straight distances between whole points

Between points with whole coordinates the differences, their squares and the sum of the squares are
exact as long as the sum does not exceed `2 ^ 52`, in whatever order it is added up
(`DistanceTable.holds_squaredDistance`). The root of the sum is rounded, but never up to a whole
number that the exact root does not reach, so that cutting off its fraction leaves the whole part of
the exact root (`DistanceTable.entryOfFloat_sqrt`). Hence a problem that is measured from such points
has exact distances, the same in both directions (`Problem.ofPoints_straight`).
-/

namespace LargeNeighborhood

open Rounding

/-- A number, whole or real, that stands for a whole number of at most 53 bits. -/
structure Quantity.Denotes (q : Quantity) (n : ℤ) : Prop where
  amount : q.amount = some (exactly n)
  small : n.natAbs ≤ 2 ^ 53

theorem Quantity.Denotes.toReal? {q : Quantity} {n : ℤ} (h : q.Denotes n) :
    q.toReal? = .ok q.toFloat ∧ worth q.toFloat = some (exactly n) := by
  have hamount := h.amount
  cases q with
  | whole k =>
      have hk : k = n := by
        have hcast : exactly (k : ℚ) = exactly n := Option.some_inj.mp hamount
        have hle : (k : ℚ) ≤ n := exactly_le_exactly.mp hcast.le
        have hge : (n : ℚ) ≤ k := exactly_le_exactly.mp hcast.ge
        exact_mod_cast le_antisymm hle hge
      rw [hk]
      exact ⟨toReal?_whole (h.small.trans (by norm_num)), worth_ofInt h.small⟩
  | real x => exact ⟨rfl, hamount⟩

/-- The sum of the squared differences of two points. -/
def squaredGap (p q : List ℤ) : ℕ := (p.zipWith (fun x y => (x - y).natAbs ^ 2) q).sum

theorem squaredGap_comm (p q : List ℤ) : squaredGap p q = squaredGap q p := by
  unfold squaredGap
  rw [List.zipWith_comm]
  have hcomm : ∀ x y : ℤ, (y - x).natAbs ^ 2 = (x - y).natAbs ^ 2 := by
    intro x y
    rw [← Int.natAbs_neg, Int.neg_sub]
  simp only [hcomm]

theorem squaredGap_self (p : List ℤ) : squaredGap p p = 0 := by
  unfold squaredGap
  rw [List.zipWith_self]
  simp

namespace DistanceTable

/-- The square of a difference of whole numbers is exact if it is at most `2 ^ 52`. -/
theorem holds_square {x y : Float} {m n : ℤ} (hx : worth x = some (exactly m))
    (hy : worth y = some (exactly n)) (h : (m - n).natAbs ^ 2 ≤ 2 ^ 52) :
    Holds ((x - y) * (x - y)) ((m - n).natAbs ^ 2) := by
  have hgap : (m - n).natAbs ≤ 2 ^ 53 := by
    calc (m - n).natAbs ≤ (m - n).natAbs ^ 2 := Nat.le_self_pow two_ne_zero _
      _ ≤ 2 ^ 53 := h.trans (by norm_num)
  have hsub : worth (x - y) = some (exactly ((m - n : ℤ) : ℚ)) := by
    have hkept : Kept ((m : ℚ) - n) := by exact_mod_cast kept_intCast hgap
    rw [Int.cast_sub]
    exact worth_sub hx hy hkept
  have hsquare : ((m - n : ℤ) : ℚ) * ((m - n : ℤ) : ℚ) = (((m - n).natAbs ^ 2 : ℕ) : ℚ) := by
    have hint : (m - n) * (m - n) = (((m - n).natAbs ^ 2 : ℕ) : ℤ) := by
      rw [Nat.cast_pow, Int.natCast_natAbs, sq_abs, sq]
    rw [← Int.cast_mul, hint, Int.cast_natCast]
  have hkept : Kept (((m - n).natAbs ^ 2 : ℕ) : ℚ) := kept_natCast (h.trans (by norm_num))
  have hmul := worth_mul_self hsub (hsquare ▸ hkept)
  rwa [hsquare] at hmul

theorem holds_squares {xs ys : List Float} {p q : List ℤ}
    (hxs : List.Forall₂ (fun x m => worth x = some (exactly (m : ℤ))) xs p)
    (hys : List.Forall₂ (fun y n => worth y = some (exactly (n : ℤ))) ys q)
    (h : squaredGap p q ≤ 2 ^ 52) :
    List.Forall₂ Holds (xs.zipWith (fun x y => (x - y) * (x - y)) ys)
      (p.zipWith (fun m n => (m - n).natAbs ^ 2) q) := by
  induction hxs generalizing ys q with
  | nil => exact .nil
  | @cons x m xs p hx hxs ih =>
      cases hys with
      | nil => exact .nil
      | @cons y n ys q hy hys =>
          have hsum : squaredGap (m :: p) (n :: q) = (m - n).natAbs ^ 2 + squaredGap p q :=
            List.sum_cons
          exact .cons (holds_square hx hy (by omega)) (ih hys (by omega))

theorem holds_squaredDistance {xs ys : List Float} {p q : List ℤ}
    (hxs : List.Forall₂ (fun x m => worth x = some (exactly (m : ℤ))) xs p)
    (hys : List.Forall₂ (fun y n => worth y = some (exactly (n : ℤ))) ys q)
    (h : squaredGap p q ≤ 2 ^ 52) : Holds (squaredDistance xs ys) (squaredGap p q) :=
  holds_sumReals (holds_squares hxs hys h) (h.trans (by norm_num))

/-- The entry of a distance is the whole part of the exact root. -/
theorem entryOfFloat_sqrt {x : Float} {n : ℕ} (hx : Holds x n) (hn : n ≤ 2 ^ 52) :
    (entryOfFloat x.sqrt).toInt = n.sqrt := by
  obtain ⟨r, hr, hlow, hhigh⟩ := exists_worth_sqrt hx hn
  obtain ⟨negative, m, e, hfloat, htruncate⟩ := exists_truncate hr hlow hhigh
  have hroot : n.sqrt ≤ 2 ^ 52 := (Nat.sqrt_le_self n).trans hn
  have hmin : Int64.minValue.toInt = -2 ^ 63 := rfl
  have hmax : Int64.maxValue.toInt = 2 ^ 63 - 1 := rfl
  unfold entryOfFloat
  rw [hfloat]
  dsimp only
  rw [htruncate, if_pos (by omega)]
  exact Int64.toInt_ofInt_of_le (by omega) (by omega)

/-- Rows and columns of a table that is filled by a function. -/
theorem at?_ofFunction {n : ℕ} {f : ℕ → ℕ → Int64} {i j : ℕ} (hi : i < n) (hj : j < n) :
    (ofFunction n f).at? i j = some (f i j) := by
  have hindex : i * n + j < n * n := by
    calc i * n + j < i * n + n := by omega
      _ = (i + 1) * n := by rw [Nat.add_mul, Nat.one_mul]
      _ ≤ n * n := Nat.mul_le_mul_right n hi
  have hrow : (i * n + j) / n = i := by
    rw [Nat.mul_comm, Nat.mul_add_div (by omega), Nat.div_eq_of_lt hj, Nat.add_zero]
  have hcolumn : (i * n + j) % n = j := by
    rw [Nat.mul_comm, Nat.mul_add_mod, Nat.mod_eq_of_lt hj]
  unfold at? ofFunction
  simp only [Position.resolve?_natCast hi, Position.resolve?_natCast hj, Option.bind_eq_bind,
    Option.bind_some]
  rw [Array.getElem?_ofFn, dif_pos hindex, hrow, hcolumn]

/-- A position that is counted from the end of the table is looked up at an index as well. -/
theorem exists_index_of_get {t : DistanceTable} {a b : Int} {d : Int64} (h : t.get a b = .ok d) :
    ∃ i < t.size, ∃ j < t.size, t.at? i j = t.at? a b := by
  have hat : t.at? a b = some d := by
    unfold get at h
    cases hentry : t.at? a b with
    | none => simp [hentry] at h
    | some d' => simpa [hentry] using h
  cases ha : Position.resolve? t.size a with
  | none => simp [at?, ha] at hat
  | some i =>
      cases hb : Position.resolve? t.size b with
      | none => simp [at?, ha, hb] at hat
      | some j =>
          have hi := Position.resolve?_lt ha
          have hj := Position.resolve?_lt hb
          refine ⟨i, hi, j, hj, ?_⟩
          simp only [at?, ha, hb, Position.resolve?_natCast hi, Position.resolve?_natCast hj]

end DistanceTable

/-! ## Problems -/

/-- Points with whole coordinates, in one number of dimensions, no two of which are further apart
than `2 ^ 26`. -/
structure WholePoints (rows : List (List Quantity)) (points : List (List ℤ)) : Prop where
  denotes : List.Forall₂ (List.Forall₂ Quantity.Denotes) rows points
  nonempty : points ≠ []
  dimension : ∃ d, ∀ p ∈ points, p.length = d
  near : ∀ p ∈ points, ∀ q ∈ points, squaredGap p q ≤ 2 ^ 52

namespace WholePoints

variable {rows : List (List Quantity)} {points : List (List ℤ)}

theorem ofPoints_eq (h : WholePoints rows points) (tag : ℕ) (name : String) :
    Problem.ofPoints tag name (.ofRows rows) =
      .ok (Problem.measured tag name (rows.map (List.map Quantity.toFloat))) := by
  obtain ⟨d, hd⟩ := h.dimension
  have hrow : ∀ row ∈ rows, ∃ p ∈ points, List.Forall₂ Quantity.Denotes row p := by
    intro row hrow
    obtain ⟨i, hi, rfl⟩ := List.mem_iff_getElem.mp hrow
    have hlength := h.denotes.length_eq
    exact ⟨points[i], List.getElem_mem _, h.denotes.get hi (by omega)⟩
  refine Problem.ofPoints_rows tag name (d := d) ?_ ?_ ?_
  · intro hnil
    have hlength := h.denotes.length_eq
    rw [hnil] at hlength
    exact h.nonempty (List.length_eq_zero_iff.mp hlength.symm)
  · intro row hmem
    obtain ⟨p, hp, hdenotes⟩ := hrow row hmem
    rw [hdenotes.length_eq, hd p hp]
  · intro row hmem q hq
    obtain ⟨p, -, hdenotes⟩ := hrow row hmem
    obtain ⟨j, hj, rfl⟩ := List.mem_iff_getElem.mp hq
    have hlength := hdenotes.length_eq
    exact (hdenotes.get hj (by omega)).toReal?.1

/-- The reals of a row are exact. -/
theorem worth_row (h : WholePoints rows points) {i : ℕ} (hi : i < points.length) :
    List.Forall₂ (fun x m => worth x = some (exactly (m : ℤ)))
      (((rows.map (List.map Quantity.toFloat)).toArray[i]?).getD []) points[i] := by
  have hrows : i < rows.length := h.denotes.length_eq ▸ hi
  have hrow : ((rows.map (List.map Quantity.toFloat)).toArray[i]?).getD [] =
      rows[i].map Quantity.toFloat := by
    simp [hrows]
  rw [hrow, List.forall₂_map_left_iff]
  exact (h.denotes.get hrows hi).imp fun q n hq => hq.toReal?.2

/-- The distance of two points, looked up by their indices, is the whole part of the root of the sum
of the squared differences. -/
theorem exists_at (h : WholePoints rows points) (tag : ℕ) (name : String) {i j : ℕ}
    (hi : i < points.length) (hj : j < points.length) :
    ∃ d, (Problem.measured tag name (rows.map (List.map Quantity.toFloat))).distances.at? i j =
      some d ∧ d.toInt = (squaredGap points[i] points[j]).sqrt := by
  have hsize : (rows.map (List.map Quantity.toFloat)).toArray.size = points.length := by
    simp [h.denotes.length_eq]
  have hnear := h.near points[i] (List.getElem_mem hi) points[j] (List.getElem_mem hj)
  have hsquared := DistanceTable.holds_squaredDistance (h.worth_row hi) (h.worth_row hj) hnear
  exact ⟨_, DistanceTable.at?_ofFunction (hsize ▸ hi) (hsize ▸ hj),
    DistanceTable.entryOfFloat_sqrt hsquared hnear⟩

end WholePoints

/-- A problem of whole points: its visits are numbered from zero, and the distance between two of
them is the whole part of the root of the sum of the squared differences. So the way back is as long
as the way there, no distance is negative, and no visit is away from itself. -/
theorem Problem.ofPoints_straight {rows : List (List Quantity)} {points : List (List ℤ)}
    (h : WholePoints rows points) (tag : ℕ) (name : String) :
    ∃ p, ofPoints tag name (.ofRows rows) = .ok p ∧
      p.visits = (List.range points.length).map (fun (i : ℕ) => (i : ℤ)) ∧
      p.distances.size = points.length ∧
      (∀ i j (hi : i < points.length) (hj : j < points.length), ∃ d, p.distances.get i j = .ok d ∧
        d.toInt = (squaredGap points[i] points[j]).sqrt) ∧
      p.distances.Symmetric ∧
      (∀ a b d, p.distances.get a b = .ok d → 0 ≤ d.toInt) ∧
      ∀ i < points.length, p.distances.get i i = .ok 0 := by
  have hlength : rows.length = points.length := h.denotes.length_eq
  have hsize : (measured tag name (rows.map (List.map Quantity.toFloat))).distances.size =
      points.length := by
    simp [measured, hlength]
  have hget : ∀ {i j : ℕ} (hi : i < points.length) (hj : j < points.length), ∃ d,
      (measured tag name (rows.map (List.map Quantity.toFloat))).distances.get i j = .ok d ∧
        d.toInt = (squaredGap points[i] points[j]).sqrt := by
    intro i j hi hj
    obtain ⟨d, hat, hd⟩ := h.exists_at tag name hi hj
    exact ⟨d, by rw [DistanceTable.get, hat], hd⟩
  refine ⟨_, h.ofPoints_eq tag name, ?_, hsize, fun i j hi hj => hget hi hj, ?_, ?_, ?_⟩
  · simp [measured, hlength]
  · intro i hi j hj
    rw [hsize] at hi hj
    obtain ⟨d, hat, hd⟩ := h.exists_at tag name hi hj
    obtain ⟨e, hat', he⟩ := h.exists_at tag name hj hi
    rw [squaredGap_comm, ← hd] at he
    rw [hat, hat', Int64.toInt_inj.mp he]
  · intro a b d hd
    obtain ⟨i, hi, j, hj, hij⟩ := DistanceTable.exists_index_of_get hd
    obtain ⟨d', hat, hroot⟩ := h.exists_at tag name (hsize ▸ hi) (hsize ▸ hj)
    rw [DistanceTable.get, ← hij, hat] at hd
    cases hd
    rw [hroot]
    exact Int.natCast_nonneg _
  · intro i hi
    obtain ⟨d, hd, hroot⟩ := hget hi hi
    rw [squaredGap_self, Nat.sqrt_zero] at hroot
    rw [hd, Int64.toInt_inj.mp (hroot.trans Int64.toInt_zero.symm)]

/-- Three points of the plane, one coordinate of which is given as a real. -/
theorem Problem.ofPoints_straight_threePoints :
    let rows : List (List Quantity) := [[.whole 0, .whole 0], [.real (Float.ofInt 3), .whole 4],
      [.whole (-1), .whole 1]]
    WholePoints rows [[0, 0], [3, 4], [-1, 1]] ∧
      ∃ p, ofPoints 0 "points" (.ofRows rows) = .ok p ∧ p.visits = [0, 1, 2] ∧
        p.distances.get 0 1 = .ok 5 ∧ p.distances.get 2 0 = .ok 1 ∧ p.distances.Symmetric := by
  intro rows
  have hwhole : ∀ n : ℤ, n.natAbs ≤ 4 → (Quantity.whole n).Denotes n :=
    fun n hn => ⟨rfl, by omega⟩
  have hreal : (Quantity.real (Float.ofInt 3)).Denotes 3 :=
    ⟨worth_ofInt (by norm_num), by norm_num⟩
  have hpoints : WholePoints rows [[0, 0], [3, 4], [-1, 1]] := by
    refine ⟨.cons ?_ (.cons ?_ (.cons ?_ .nil)), by decide, ⟨2, by decide⟩, by decide⟩
    · exact .cons (hwhole 0 (by decide)) (.cons (hwhole 0 (by decide)) .nil)
    · exact .cons hreal (.cons (hwhole 4 (by decide)) .nil)
    · exact .cons (hwhole (-1) (by decide)) (.cons (hwhole 1 (by decide)) .nil)
  obtain ⟨p, hp, hvisits, -, hget, hsymmetric, -, -⟩ := Problem.ofPoints_straight hpoints 0 "points"
  have hentry : ∀ (i j : ℕ) (hi : i < 3) (hj : j < 3) (k : Int64),
      ((squaredGap ([[0, 0], [3, 4], [-1, 1]][i]) ([[0, 0], [3, 4], [-1, 1]][j])).sqrt : ℤ) =
        k.toInt → p.distances.get i j = .ok k := by
    intro i j hi hj k hk
    obtain ⟨d, hd, hroot⟩ := hget i j hi hj
    rw [hd, Int64.toInt_inj.mp (hroot.trans hk)]
  have hfive : Nat.sqrt 25 = 5 := by norm_num
  have hone : Nat.sqrt 2 = 1 := by norm_num
  exact ⟨hpoints, p, hp, hvisits, hentry 0 1 (by decide) (by decide) 5 (congrArg _ hfive),
    hentry 2 0 (by decide) (by decide) 1 (congrArg _ hone), hsymmetric⟩

end LargeNeighborhood
