import LargeNeighborhood.Proofs.Except
import LargeNeighborhood.Proofs.Number.Nonnegative
import LargeNeighborhood.Tour.Problem

set_option autoImplicit false

/-! # Problems of given points

Points that have one number of coordinates make the problem that is measured from their reals
(`Problem.ofPoints_rows`). Whole coordinates of no more than 53 bits have reals of their own, the
nearest ones (`Problem.ofPoints_whole`).
-/

namespace LargeNeighborhood

open Rounding

namespace Nested

/-- Rows of numbers as nested lists. -/
def ofRows (rows : List (List Quantity)) : Nested :=
  .list (rows.map fun row => .list (row.map .number))

theorem agree_replicate {n : ℕ} (hn : n ≠ 0) (shape : List ℕ) :
    agree (List.replicate n shape) = some shape := by
  obtain ⟨k, rfl⟩ := Nat.exists_eq_succ_of_ne_zero hn
  simp [agree, List.replicate_succ]

theorem shapes?_numbers (row : List Quantity) :
    shapes? (row.map .number) = some (List.replicate row.length []) := by
  induction row with
  | nil =>
      rw [List.map_nil, shapes?]
      rfl
  | cons q row ih =>
      rw [List.map_cons, shapes?, ih, shape?]
      rfl

theorem shape?_row (row : List Quantity) :
    shape? (.list (row.map .number)) = some [row.length] := by
  have hagree : agree (List.replicate row.length []) = some [] := by
    by_cases hrow : row.length = 0
    · rw [hrow]
      rfl
    · exact agree_replicate hrow []
  rw [shape?, shapes?_numbers]
  simp [hagree]

theorem leavesOf_numbers (row : List Quantity) : leavesOf (row.map .number) = row := by
  induction row with
  | nil =>
      rw [List.map_nil, leavesOf]
  | cons q row ih =>
      rw [List.map_cons, leavesOf, ih, leaves]
      rfl

section Rows

variable {rows : List (List Quantity)} {d : ℕ}

theorem shapes?_rows (h : ∀ row ∈ rows, row.length = d) :
    shapes? (rows.map fun row => .list (row.map .number)) =
      some (List.replicate rows.length [d]) := by
  induction rows with
  | nil =>
      rw [List.map_nil, shapes?]
      rfl
  | cons row rows ih =>
      obtain ⟨hrow, hrows⟩ := List.forall_mem_cons.mp h
      rw [List.map_cons, shapes?, ih hrows, shape?_row, hrow]
      rfl

theorem leavesOf_rows (rows : List (List Quantity)) :
    leavesOf (rows.map fun row => .list (row.map .number)) = rows.flatten := by
  induction rows with
  | nil =>
      rw [List.map_nil, leavesOf]
      rfl
  | cons row rows ih =>
      rw [List.map_cons, leavesOf, ih, leaves, leavesOf_numbers, List.flatten_cons]

theorem shape_ofRows (hne : rows ≠ []) (h : ∀ row ∈ rows, row.length = d) :
    (ofRows rows).shape = .ok [rows.length, d] := by
  have hagree : agree (List.replicate rows.length [d]) = some [d] :=
    agree_replicate (mt List.length_eq_zero_iff.mp hne) [d]
  have hshape : (ofRows rows).shape? = some [rows.length, d] := by
    unfold ofRows
    rw [shape?, shapes?_rows h]
    simp [hagree]
  unfold shape
  rw [hshape]
  rfl

/-- The reals of an array are those of its numbers, in reading order. -/
theorem reals_ofRows (hne : rows ≠ []) (h : ∀ row ∈ rows, row.length = d)
    (hreal : ∀ row ∈ rows, ∀ q ∈ row, q.toReal? = .ok q.toFloat) :
    (ofRows rows).reals = .ok ([rows.length, d], (rows.map (List.map Quantity.toFloat)).flatten) := by
  have hleaves : (ofRows rows).leaves = rows.flatten := by
    unfold ofRows
    rw [leaves, leavesOf_rows]
  have hreals : rows.flatten.mapM Quantity.toReal? =
      .ok (rows.map (List.map Quantity.toFloat)).flatten := by
    rw [← List.map_flatten, mapM_eq_ok, List.forall₂_map_right_iff, List.forall₂_same]
    intro q hq
    obtain ⟨row, hrow, hq⟩ := List.mem_flatten.mp hq
    exact hreal row hrow q hq
  unfold reals
  rw [shape_ofRows hne h, hleaves, hreals]
  rfl

theorem pieces_flatten {α : Type} {xss : List (List α)} (h : ∀ xs ∈ xss, xs.length = d) :
    pieces d xss.length xss.flatten = xss := by
  induction xss with
  | nil => rfl
  | cons xs xss ih =>
      obtain ⟨hxs, hxss⟩ := List.forall_mem_cons.mp h
      rw [List.length_cons, List.flatten_cons, pieces, List.take_left' hxs, List.drop_left' hxs,
        ih hxss]

end Rows

/-- Points in the plane with whole coordinates, as nested lists. -/
def ofWholes (points : List (ℤ × ℤ)) : Nested :=
  .list (points.map fun (x, y) => .list [.number (.whole x), .number (.whole y)])

/-- The coordinates of points in reading order. -/
def coordinates (points : List (ℤ × ℤ)) : List ℤ := points.flatMap fun (x, y) => [x, y]

theorem ofWholes_eq (points : List (ℤ × ℤ)) :
    ofWholes points = ofRows (points.map fun (x, y) => [.whole x, .whole y]) := by
  unfold ofWholes ofRows
  rw [List.map_map]
  rfl

end Nested

namespace Problem

/-- A problem of points is measured from the reals of their coordinates. -/
theorem ofPoints_rows (tag : ℕ) (name : String) {rows : List (List Quantity)} {d : ℕ}
    (hne : rows ≠ []) (h : ∀ row ∈ rows, row.length = d)
    (hreal : ∀ row ∈ rows, ∀ q ∈ row, q.toReal? = .ok q.toFloat) :
    ofPoints tag name (.ofRows rows) =
      .ok (measured tag name (rows.map (List.map Quantity.toFloat))) := by
  have hlength : ∀ xs ∈ rows.map (List.map Quantity.toFloat), xs.length = d := by
    intro xs hxs
    obtain ⟨row, hrow, rfl⟩ := List.mem_map.mp hxs
    rw [List.length_map, h row hrow]
  have hpieces := Nested.pieces_flatten hlength
  rw [List.length_map] at hpieces
  unfold ofPoints
  rw [Nested.reals_ofRows hne h hreal]
  show Except.ok (measured tag name (pieces d rows.length _)) = _
  rw [hpieces]

/-- A problem of whole points is measured from the nearest reals. -/
theorem ofPoints_whole (tag : ℕ) (name : String) {points : List (ℤ × ℤ)} (h : points ≠ [])
    (hsmall : ∀ n ∈ Nested.coordinates points, n.natAbs ≤ 2 ^ 53) :
    ofPoints tag name (Nested.ofWholes points) =
      .ok (measured tag name (points.map fun (x, y) => [Float.ofInt x, Float.ofInt y])) := by
  have hrows : ∀ row ∈ points.map (fun (x, y) => [Quantity.whole x, .whole y]), row.length = 2 ∧
      ∀ q ∈ row, q.toReal? = .ok q.toFloat := by
    intro row hrow
    obtain ⟨⟨x, y⟩, hpoint, rfl⟩ := List.mem_map.mp hrow
    have hreal : ∀ n ∈ [x, y], (Quantity.whole n).toReal? = .ok (Quantity.whole n).toFloat :=
      fun n hn => Quantity.toReal?_whole
        ((hsmall n (List.mem_flatMap.mpr ⟨(x, y), hpoint, hn⟩)).trans (by norm_num))
    refine ⟨rfl, ?_⟩
    intro q hq
    obtain ⟨n, hn, rfl⟩ : ∃ n ∈ [x, y], q = .whole n := by simpa using hq
    exact hreal n hn
  have hofRows := ofPoints_rows tag name (mt List.map_eq_nil_iff.mp h)
    (fun row hrow => (hrows row hrow).1) (fun row hrow => (hrows row hrow).2)
  rw [Nested.ofWholes_eq, hofRows, List.map_map]
  rfl

end Problem

end LargeNeighborhood
