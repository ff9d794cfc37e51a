import LargeNeighborhood.Tour.Instance
import Mathlib

set_option autoImplicit false

/-! # Headers

A header line is read after the blanks at its ends have been taken off. They do not matter to what
is read, as key and value lose theirs anyway (`Instance.headerLine?_strip`). So the header is what
the lines in front of the mark say, each by itself (`Instance.splitHeader_append`).
-/

namespace LargeNeighborhood

namespace Blank

variable {α : Type} {p : α → Bool}

/-- What is no blank separates the blanks in front of it from those behind. -/
theorem trim_append_cons {x : α} (hx : p x = false) (front back : List α) :
    trim p (front ++ x :: back) =
      front.dropWhile p ++ x :: (back.reverse.dropWhile p).reverse := by
  have hfront : ∀ xs ys : List α, (xs ++ x :: ys).dropWhile p = xs.dropWhile p ++ x :: ys := by
    intro xs ys
    rw [List.dropWhile_append]
    split
    · rename_i hempty
      rw [List.isEmpty_iff.mp hempty, List.dropWhile_cons, hx]
      rfl
    · rfl
  unfold trim
  rw [hfront, List.reverse_append, List.reverse_cons, List.append_assoc]
  show (List.dropWhile p (back.reverse ++ x :: (front.dropWhile p).reverse)).reverse = _
  rw [hfront]
  simp

theorem trim_dropWhile (xs : List α) : trim p (xs.dropWhile p) = trim p xs := by
  unfold trim
  rw [List.dropWhile_idempotent]

theorem trim_append {ys : List α} (hys : ∀ y ∈ ys, p y = true) (xs : List α) :
    trim p (xs ++ ys) = trim p xs := by
  have hblank : ys.dropWhile p = [] := List.dropWhile_eq_nil_iff.mpr hys
  unfold trim
  rw [List.dropWhile_append]
  split
  · rename_i hempty
    rw [hblank, List.isEmpty_iff.mp hempty]
  · rw [List.reverse_append, List.dropWhile_append_of_pos]
    intro y hy
    exact hys y (List.mem_reverse.mp hy)

theorem trim_reverse_dropWhile (xs : List α) :
    trim p (xs.reverse.dropWhile p).reverse = trim p xs := by
  have hsplit : (xs.reverse.dropWhile p).reverse ++ (xs.reverse.takeWhile p).reverse = xs := by
    rw [← List.reverse_append, List.takeWhile_append_dropWhile, List.reverse_reverse]
  have hblank : ∀ x ∈ (xs.reverse.takeWhile p).reverse, p x = true := by
    intro x hx
    exact List.mem_takeWhile_imp (List.mem_reverse.mp hx)
  rw [← trim_append hblank, hsplit]

theorem mem_of_mem_trim {x : α} {xs : List α} (h : x ∈ trim p xs) : x ∈ xs := by
  have hdrop := (List.dropWhile_sublist p).mem (List.mem_reverse.mp h)
  exact (List.dropWhile_sublist p).mem (List.mem_reverse.mp hdrop)

end Blank

namespace Instance

theorem bne_colon_of_not_mem {cs : List Char} (h : ':' ∉ cs) : ∀ c ∈ cs, (c != ':') = true := by
  intro c hc
  rw [bne_iff_ne]
  rintro rfl
  exact h hc

theorem splitColon_append {key : List Char} (h : ':' ∉ key) (value : List Char) :
    splitColon (key ++ ':' :: value) = some (key, value) := by
  have hkey := bne_colon_of_not_mem h
  unfold splitColon
  rw [List.span_eq_takeWhile_dropWhile, List.takeWhile_append_of_pos hkey,
    List.dropWhile_append_of_pos hkey]
  simp

theorem splitColon_eq_none {line : List Char} (h : ':' ∉ line) : splitColon line = none := by
  unfold splitColon
  rw [List.span_eq_takeWhile_dropWhile, List.dropWhile_eq_nil_iff.mpr (bne_colon_of_not_mem h)]

/-- Blanks at the ends of a header line do not matter. -/
theorem headerLine?_strip (line : String) : headerLine? (strip line) = headerLine? line := by
  have hcolon : Blank.aroundWord ':' = false := by decide
  unfold headerLine? strip
  rw [String.toList_ofList]
  by_cases h : ':' ∈ line.toList
  · -- The first colon is none of the blanks taken off, and stays the first.
    obtain ⟨key, value, hline, hkey⟩ := List.eq_append_cons_of_mem h
    have hkey' : ':' ∉ key.dropWhile Blank.aroundWord :=
      fun hmem => hkey ((List.dropWhile_sublist _).mem hmem)
    rw [hline, Blank.trim_append_cons hcolon, splitColon_append hkey', splitColon_append hkey]
    simp only [Option.map_some, String.toList_ofList, Blank.trim_dropWhile,
      Blank.trim_reverse_dropWhile]
  · have htrim : ':' ∉ Blank.trim Blank.aroundWord line.toList :=
      fun hmem => h (Blank.mem_of_mem_trim hmem)
    rw [splitColon_eq_none h, splitColon_eq_none htrim]

/-- The header is what the lines in front of the mark say. -/
theorem splitHeader_append {header : List String} {mark : String}
    (hheader : ∀ line ∈ header, (strip line).startsWith sectionMark = false)
    (hmark : (strip mark).startsWith sectionMark = true) (rest : List String) :
    splitHeader (header ++ mark :: rest) =
      some (header.filterMap headerLine?, header.length + 1) := by
  induction header with
  | nil =>
      rw [List.nil_append, splitHeader, if_pos hmark]
      rfl
  | cons line header ih =>
      obtain ⟨hline, hheader⟩ := List.forall_mem_cons.mp hheader
      rw [List.cons_append, splitHeader, hline, if_neg Bool.false_ne_true, ih hheader,
        headerLine?_strip]
      cases hread : headerLine? line with
      | none =>
          rw [List.filterMap_cons_none hread]
          rfl
      | some entry =>
          rw [List.filterMap_cons_some hread]
          rfl

end Instance

end LargeNeighborhood
