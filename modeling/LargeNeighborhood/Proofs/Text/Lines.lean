import LargeNeighborhood.Text.Lines
import Mathlib

set_option autoImplicit false

/-! # Lines and their ends

A text is either one line without an end, or a line, its end and a text behind it. What holds of a
line alone, and of a line in front of a text of which it holds, holds of every text
(`Lines.induction`); and the lines of such a text are the line and those behind it
(`Lines.split_line`).

A text of lines, between any two of which stands the same line end, is split into these lines
again (`Lines.split_joined`), but for an empty line at the very end.
-/

namespace LargeNeighborhood

/-- How the lines of a text end. -/
inductive LineEnd where
  | feed
  | carriageReturn
  | both
  deriving DecidableEq

/-- The characters of a line end. -/
def LineEnd.marks : LineEnd → List Char
  | .feed => ['\n']
  | .carriageReturn => ['\r']
  | .both => ['\r', '\n']

namespace Lines

/-- Whether a character belongs to a line end. -/
def EndsLine (c : Char) : Prop := c = '\n' ∨ c = '\r'

instance : DecidablePred EndsLine := fun c => inferInstanceAs (Decidable (c = '\n' ∨ c = '\r'))

/-- The text of some lines, with line ends between them. -/
def joined (e : LineEnd) (lines : List (List Char)) : List Char := e.marks.intercalate lines

theorem joined_nil (e : LineEnd) : joined e [] = [] := List.intercalate_nil

theorem joined_singleton (e : LineEnd) (line : List Char) : joined e [line] = line :=
  List.intercalate_singleton

theorem joined_cons (e : LineEnd) (line : List Char) {lines : List (List Char)} (h : lines ≠ []) :
    joined e (line :: lines) = line ++ e.marks ++ joined e lines :=
  List.intercalate_cons_of_ne_nil h

theorem split_append {line : List Char} (h : ∀ c ∈ line, ¬ EndsLine c) (front rest : List Char) :
    split front (line ++ rest) = split (line.reverse ++ front) rest := by
  induction line generalizing front with
  | nil => rfl
  | cons c line ih =>
      obtain ⟨hc, hline⟩ := List.forall_mem_cons.mp h
      have hstep : split front (c :: (line ++ rest)) = split (c :: front) (line ++ rest) := by
        rw [split.eq_def]
        split
        · rename_i heq
          cases heq
        · rename_i heq
          obtain ⟨rfl, -⟩ := List.cons.inj heq
          exact absurd (Or.inr rfl) hc
        · rename_i heq
          cases heq
          exact if_neg hc
      rw [List.cons_append, hstep, ih hline, List.reverse_cons, List.append_assoc]
      rfl

/-- A line end closes a line. A carriage return does so by itself unless a line feed follows. -/
theorem split_marks (e : LineEnd) {front rest : List Char}
    (h : e = .carriageReturn → rest.head? ≠ some '\n') :
    split front (e.marks ++ rest) = front.reverse :: split [] rest := by
  cases e with
  | feed => simp [LineEnd.marks, split]
  | both => simp [LineEnd.marks, split]
  | carriageReturn =>
      -- no line feed follows, so the carriage return ends the line alone
      have hrest := h rfl
      show split front ('\r' :: rest) = _
      rw [split.eq_def]
      split
      · rename_i heq
        cases heq
      · rename_i heq
        cases heq
        exact absurd rfl hrest
      · rename_i heq
        cases heq
        exact if_pos (Or.inr rfl)

/-! ## Texts line by line -/

/-- A text with an end in it has a first line. -/
theorem exists_line (cs : List Char) : (∀ c ∈ cs, ¬ EndsLine c) ∨
    ∃ (line : List Char) (e : LineEnd) (rest : List Char), cs = line ++ (e.marks ++ rest) ∧
      (∀ c ∈ line, ¬ EndsLine c) ∧ (e = .carriageReturn → rest.head? ≠ some '\n') := by
  induction cs with
  | nil => exact Or.inl fun c hc => absurd hc List.not_mem_nil
  | cons c cs ih =>
      by_cases hfeed : c = '\n'
      · exact Or.inr ⟨[], .feed, cs, by rw [hfeed]; rfl, by simp, by simp⟩
      by_cases hreturn : c = '\r'
      · -- It depends on the next character whether the return is the whole end.
        subst hreturn
        by_cases hnext : cs.head? = some '\n'
        · obtain ⟨rest, rfl⟩ := List.head?_eq_some_iff.mp hnext
          exact Or.inr ⟨[], .both, rest, rfl, by simp, by simp⟩
        · exact Or.inr ⟨[], .carriageReturn, cs, rfl, by simp, fun _ => hnext⟩
      have hc : ¬ EndsLine c := not_or.mpr ⟨hfeed, hreturn⟩
      rcases ih with hfree | ⟨line, e, rest, rfl, hline, hnext⟩
      · exact Or.inl (List.forall_mem_cons.mpr ⟨hc, hfree⟩)
      · exact Or.inr ⟨c :: line, e, rest, rfl, List.forall_mem_cons.mpr ⟨hc, hline⟩, hnext⟩

/-- Texts are taken line by line. -/
theorem induction {P : List Char → Prop} (last : ∀ line, (∀ c ∈ line, ¬ EndsLine c) → P line)
    (line : ∀ (line : List Char) (e : LineEnd) (rest : List Char), (∀ c ∈ line, ¬ EndsLine c) →
      (e = .carriageReturn → rest.head? ≠ some '\n') → P rest → P (line ++ (e.marks ++ rest)))
    (cs : List Char) : P cs := by
  induction hn : cs.length using Nat.strong_induction_on generalizing cs with
  | h n ih =>
      rcases exists_line cs with hfree | ⟨first, e, rest, rfl, hfirst, hnext⟩
      · exact last cs hfree
      · refine line first e rest hfirst hnext (ih rest.length ?_ rest rfl)
        have hmarks : 0 < e.marks.length := by cases e <;> decide
        simp only [List.length_append] at hn
        omega

theorem split_last {line : List Char} (h : ∀ c ∈ line, ¬ EndsLine c) :
    split [] line = if line = [] then [] else [line] := by
  have hsplit := split_append h [] []
  rw [List.append_nil, List.append_nil] at hsplit
  rw [hsplit, split, List.isEmpty_reverse, List.reverse_reverse]
  cases line <;> rfl

theorem split_line {line rest : List Char} {e : LineEnd} (h : ∀ c ∈ line, ¬ EndsLine c)
    (hnext : e = .carriageReturn → rest.head? ≠ some '\n') :
    split [] (line ++ (e.marks ++ rest)) = line :: split [] rest := by
  rw [split_append h, List.append_nil, split_marks e hnext, List.reverse_reverse]

/-- Whether a line of a text ends with a carriage return alone. -/
def HasLoneReturn : List Char → Prop
  | [] => False
  | c :: cs => (c = '\r' ∧ cs.head? ≠ some '\n') ∨ HasLoneReturn cs

instance decidableHasLoneReturn : DecidablePred HasLoneReturn
  | [] => inferInstanceAs (Decidable False)
  | _ :: cs =>
      have := decidableHasLoneReturn cs
      inferInstanceAs (Decidable (_ ∨ _))

theorem hasLoneReturn_append {line : List Char} (h : ∀ c ∈ line, ¬ EndsLine c) (rest : List Char) :
    HasLoneReturn (line ++ rest) ↔ HasLoneReturn rest := by
  induction line with
  | nil => rfl
  | cons c line ih =>
      obtain ⟨hc, hline⟩ := List.forall_mem_cons.mp h
      have hreturn : c ≠ '\r' := fun heq => hc (Or.inr heq)
      simp [HasLoneReturn, hreturn, ih hline]

theorem hasLoneReturn_line {line rest : List Char} {e : LineEnd} (h : ∀ c ∈ line, ¬ EndsLine c)
    (hnext : e = .carriageReturn → rest.head? ≠ some '\n') :
    HasLoneReturn (line ++ (e.marks ++ rest)) ↔ e = .carriageReturn ∨ HasLoneReturn rest := by
  rw [hasLoneReturn_append h]
  cases e with
  | feed => simp [LineEnd.marks, HasLoneReturn]
  | carriageReturn => simp [LineEnd.marks, HasLoneReturn, hnext rfl]
  | both => simp [LineEnd.marks, HasLoneReturn]

/-- Lines that all end alike end with a carriage return alone only if that is how. -/
theorem end_of_hasLoneReturn {e : LineEnd} {lines : List (List Char)}
    (h : ∀ line ∈ lines, ∀ c ∈ line, ¬ EndsLine c) (hlone : HasLoneReturn (joined e lines)) :
    e = .carriageReturn := by
  by_contra he
  induction lines with
  | nil =>
      rw [joined_nil] at hlone
      exact hlone
  | cons line lines ih =>
      obtain ⟨hline, hlines⟩ := List.forall_mem_cons.mp h
      cases lines with
      | nil =>
          rw [joined_singleton, ← List.append_nil line, hasLoneReturn_append hline] at hlone
          exact hlone
      | cons next lines =>
          rw [joined_cons e line (List.cons_ne_nil next lines), List.append_assoc,
            hasLoneReturn_line hline fun heq => absurd heq he] at hlone
          exact ih hlines (hlone.resolve_left he)

/-! ## Lines that all end alike -/

theorem not_mem_joined {lines : List (List Char)} (h : ∀ line ∈ lines, ∀ c ∈ line, ¬ EndsLine c) :
    '\n' ∉ joined .carriageReturn lines := by
  induction lines with
  | nil =>
      rw [joined_nil]
      exact List.not_mem_nil
  | cons line lines ih =>
      obtain ⟨hline, hlines⟩ := List.forall_mem_cons.mp h
      have hfeed : '\n' ∉ line := fun hmem => hline '\n' hmem (Or.inl rfl)
      cases lines with
      | nil => rwa [joined_singleton]
      | cons next lines =>
          rw [joined_cons _ line (List.cons_ne_nil next lines)]
          simpa [LineEnd.marks, hfeed] using ih hlines

/-- The lines are found again as far as there are further ones behind them. -/
theorem split_joined (e : LineEnd) {front lines : List (List Char)} (hlines : lines ≠ [])
    (h : ∀ line ∈ front ++ lines, ∀ c ∈ line, ¬ EndsLine c) :
    split [] (joined e (front ++ lines)) = front ++ split [] (joined e lines) := by
  induction front with
  | nil => rfl
  | cons line front ih =>
      rw [List.cons_append] at h ⊢
      obtain ⟨hline, hrest⟩ := List.forall_mem_cons.mp h
      have hnext : e = .carriageReturn → (joined e (front ++ lines)).head? ≠ some '\n' := by
        rintro rfl hhead
        exact not_mem_joined hrest (List.mem_of_mem_head? hhead)
      rw [joined_cons e line (by simp [hlines]), List.append_assoc, split_append hline,
        split_marks e hnext, ih hrest, List.append_nil, List.reverse_reverse]
      rfl

/-- All lines are found again, but for an empty one at the very end. -/
theorem split_joined_self (e : LineEnd) {lines : List (List Char)} (hlines : lines ≠ [])
    (h : ∀ line ∈ lines, ∀ c ∈ line, ¬ EndsLine c) :
    split [] (joined e lines) = lines ∨ split [] (joined e lines) ++ [[]] = lines := by
  obtain ⟨init, last, rfl⟩ := (List.eq_nil_or_concat' lines).resolve_left hlines
  have hlast := split_last (h last (List.mem_append_right init (List.mem_singleton_self last)))
  rw [split_joined e (List.cons_ne_nil last []) h, joined_singleton, hlast]
  by_cases hempty : last = []
  · subst hempty
    exact Or.inr (by simp)
  · exact Or.inl (by rw [if_neg hempty])

end Lines

end LargeNeighborhood
