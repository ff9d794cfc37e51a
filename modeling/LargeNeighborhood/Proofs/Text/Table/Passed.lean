import LargeNeighborhood.Proofs.Text.Lines
import LargeNeighborhood.Text.Table
import Mathlib

set_option autoImplicit false

/-! # Lines that a table passes over

In a line that is passed over, a scan follows nothing but the quotes, and it depends on the line
alone where they lead (`Scan.foldl_passed`). A line that leaves no quote open is passed over as
one line (`Scan.Skipped.foldl_line`); one that does takes the lines behind it along. An empty line
that ends with a carriage return alone takes the next one along as well.
-/

namespace LargeNeighborhood

namespace Table

/-- Whether a line that is passed over leaves a quote open. -/
def LeavesQuoteOpen (line : List Char) : Prop :=
  (line.foldl (Scan.step 1) Scan.start).stage = .passedQuoted

instance (line : List Char) : Decidable (LeavesQuoteOpen line) :=
  inferInstanceAs (Decidable (_ = _))

/-- A line that is passed over by itself: it leaves no quote open, and it is not empty where lines
end with a carriage return alone. -/
structure Passable (e : LineEnd) (line : List Char) : Prop where
  closed : ¬ LeavesQuoteOpen line
  nonempty : e = .carriageReturn → line ≠ []

/-- Where in a line that is passed over a character leads. -/
def Stage.pass (stage : Stage) (c : Char) : Stage :=
  match stage with
  | .passedQuoted => if c = '"' then .passedQuote else .passedQuoted
  | .passedField => if isBlank c then .passedGap else .passedField
  | .passedGap | .passedQuote =>
      if isBlank c then .passedGap else if c = '"' then .passedQuoted else .passedField
  | _ => if c = '"' then .passedQuoted else .passedField

/-- The stages of a line that is passed over. -/
def Stage.Passes (stage : Stage) : Prop :=
  stage = .passedGap ∨ stage = .passedField ∨ stage = .passedQuoted ∨ stage = .passedQuote

theorem Stage.passes_pass (stage : Stage) (c : Char) : (stage.pass c).Passes := by
  unfold Stage.pass Stage.Passes
  split <;> split_ifs <;> simp

theorem Stage.passes_foldl {stage : Stage} (h : stage.Passes) (line : List Char) :
    (line.foldl Stage.pass stage).Passes := by
  induction line generalizing stage with
  | nil => exact h
  | cons c line ih => exact ih (stage.passes_pass c)

theorem Stage.passes_line {line : List Char} (hne : line ≠ []) :
    (line.foldl Stage.pass .lineStart).Passes := by
  obtain ⟨c, line, rfl⟩ := List.exists_cons_of_ne_nil hne
  exact Stage.passes_foldl (Stage.passes_pass .lineStart c) line

namespace Scan

variable {passed : ℕ}

open Lines

theorem step_passed {s : Scan} {c : Char} (hended : s.ended < passed)
    (hstage : s.stage.Passes ∨ s.stage = .lineStart ∨ s.stage = .emptyReturn)
    (hc : ¬ EndsLine c) : s.step passed c = s.goto (s.stage.pass c) := by
  obtain ⟨stage, field, row, found, ended⟩ := s
  have hfeed : c ≠ '\n' := fun h => hc (Or.inl h)
  have hreturn : c ≠ '\r' := fun h => hc (Or.inr h)
  rcases hstage with (rfl | rfl | rfl | rfl) | rfl | rfl <;>
    simp only [step, afterPassed, startLine, Stage.pass, hfeed, hreturn, hended, if_true,
      if_false] <;>
    split_ifs <;> rfl

/-- Inside a line that is passed over, only the stage moves. -/
theorem foldl_passed {s : Scan} {line : List Char} (hended : s.ended < passed)
    (hstage : s.stage.Passes ∨ s.stage = .lineStart ∨ s.stage = .emptyReturn)
    (hline : ∀ c ∈ line, ¬ EndsLine c) :
    line.foldl (step passed) s = s.goto (line.foldl Stage.pass s.stage) := by
  induction line generalizing s with
  | nil => rfl
  | cons c line ih =>
      obtain ⟨hc, hline⟩ := List.forall_mem_cons.mp hline
      rw [List.foldl_cons, List.foldl_cons, step_passed hended hstage hc]
      exact ih hended (Or.inl (s.stage.passes_pass c)) hline

theorem leavesQuoteOpen_iff {line : List Char} (hline : ∀ c ∈ line, ¬ EndsLine c) :
    LeavesQuoteOpen line ↔ line.foldl Stage.pass .lineStart = .passedQuoted := by
  unfold LeavesQuoteOpen
  rw [foldl_passed (s := start) Nat.one_pos (Or.inr (Or.inl rfl)) hline]
  rfl

theorem not_leavesQuoteOpen_of_not_mem {line : List Char} (hline : ∀ c ∈ line, ¬ EndsLine c)
    (hquote : '"' ∉ line) : ¬ LeavesQuoteOpen line := by
  -- No stage but the quoted one itself leads there without a quote.
  suffices h : ∀ stage : Stage, stage ≠ .passedQuoted →
      line.foldl Stage.pass stage ≠ .passedQuoted by
    rw [leavesQuoteOpen_iff hline]
    exact h .lineStart (by decide)
  clear hline
  induction line with
  | nil => exact fun stage hstage => hstage
  | cons c line ih =>
      intro stage hstage
      obtain ⟨hc, hline⟩ := not_or.mp (mt List.mem_cons.mpr hquote)
      have hc' : c ≠ '"' := fun heq => hc heq.symm
      refine ih hline (stage.pass c) ?_
      unfold Stage.pass
      simp only [hc', if_false]
      split
      · exact absurd rfl hstage
      · split_ifs <;> decide
      · split_ifs <;> decide
      · split_ifs <;> decide
      · decide

/-- A scan behind a number of lines that were passed over, in front of the rest of its text. It may
stand behind a carriage return that was the whole end of a line. -/
structure Skipped (lone : Prop) (lines : ℕ) (rest : List Char) (s : Scan) : Prop where
  field_eq : s.field = []
  row_eq : s.row = []
  found_eq : s.found = #[]
  ended_eq : s.ended = lines
  stage_eq : s.stage = .lineStart ∨
    lone ∧ rest.head? ≠ some '\n' ∧ s.stage = .emptyReturn

theorem skipped_start (lone : Prop) (text : List Char) : Skipped lone 0 text start :=
  ⟨rfl, rfl, rfl, rfl, Or.inl rfl⟩

variable {lone : Prop} {lines : ℕ} {line rest : List Char} {s : Scan} {e : LineEnd}

/-- Unless a quote is open, the end of a line that is passed over ends the line without a row. -/
theorem foldl_marks_passed (e : LineEnd)
    (hstage : s.stage = .passedGap ∨ s.stage = .passedField ∨ s.stage = .passedQuote) :
    e.marks.foldl (step passed) s =
      s.endEmpty (if e = .carriageReturn then .emptyReturn else .lineStart) := by
  obtain ⟨stage, field, row, found, ended⟩ := s
  rcases hstage with rfl | rfl | rfl <;> cases e <;> rfl

theorem Skipped.starts {text : List Char} (h : Skipped lone lines text s) :
    s.stage = .lineStart ∨ s.stage = .emptyReturn :=
  h.stage_eq.imp_right fun hreturn => hreturn.2.2

theorem Skipped.endEmpty {text : List Char} (h : Skipped lone lines text s)
    (hnext : e = .carriageReturn → lone ∧ rest.head? ≠ some '\n') :
    Skipped lone (lines + 1) rest
      (s.endEmpty (if e = .carriageReturn then .emptyReturn else .lineStart)) where
  field_eq := h.field_eq
  row_eq := h.row_eq
  found_eq := h.found_eq
  ended_eq := congrArg (· + 1) h.ended_eq
  stage_eq := by
    by_cases he : e = .carriageReturn
    · exact Or.inr ⟨(hnext he).1, (hnext he).2, if_pos he⟩
    · exact Or.inl (if_neg he)

/-- Inside a line that is passed over, the scan follows its quotes. -/
theorem Skipped.foldl_within {text : List Char} (h : Skipped lone lines text s)
    (hlines : lines < passed) (hne : line ≠ []) (hline : ∀ c ∈ line, ¬ EndsLine c) :
    line.foldl (step passed) s = s.goto (line.foldl Stage.pass .lineStart) := by
  have hended : s.ended < passed := h.ended_eq ▸ hlines
  rw [foldl_passed hended (Or.inr h.starts) hline]
  obtain ⟨c, line, rfl⟩ := List.exists_cons_of_ne_nil hne
  rcases h.starts with hstage | hstage
  · rw [hstage]
  · rw [hstage]
    rfl

/-- Lines that leave no quote open are passed over one by one. An empty one takes the next line
along if its end is a carriage return. -/
theorem Skipped.foldl_line (h : Skipped lone lines (line ++ (e.marks ++ rest)) s) (hlines : lines < passed)
    (hline : ∀ c ∈ line, ¬ EndsLine c) (hclosed : ¬ LeavesQuoteOpen line)
    (hnonempty : lone → line ≠ []) (hnext : e = .carriageReturn → lone ∧ rest.head? ≠ some '\n') :
    Skipped lone (lines + 1) rest ((line ++ e.marks).foldl (step passed) s) := by
  suffices heq : (line ++ e.marks).foldl (step passed) s =
      s.endEmpty (if e = .carriageReturn then .emptyReturn else .lineStart) by
    rw [heq]
    exact h.endEmpty hnext
  by_cases hne : line = []
  · -- Its end is the first character of the line, and a carriage return does not end it there.
    subst hne
    have hlone : ¬ lone := fun hlone => hnonempty hlone rfl
    have hended : s.ended < passed := h.ended_eq ▸ hlines
    have hstage : s.stage = .lineStart := h.stage_eq.resolve_right fun hreturn => hlone hreturn.1
    obtain ⟨stage, field, row, found, ended⟩ := s
    dsimp only at hstage hended
    subst hstage
    cases e with
    | feed => simp [LineEnd.marks, step, startLine, hended]
    | carriageReturn => exact absurd (hnext rfl).1 hlone
    | both => simp [LineEnd.marks, step, startLine, hended, goto, afterPassed, Scan.endEmpty]
  · have hpasses := Stage.passes_line hne
    rw [leavesQuoteOpen_iff hline] at hclosed
    rw [List.foldl_append, h.foldl_within hlines hne hline]
    refine foldl_marks_passed e ?_
    rcases hpasses with hgap | hfield | hquoted | hquoted'
    · exact Or.inl hgap
    · exact Or.inr (Or.inl hfield)
    · exact absurd hquoted hclosed
    · exact Or.inr (Or.inr hquoted')

/-- A last line without an end is passed over as well. -/
theorem Skipped.finish_line {text : List Char} (h : Skipped lone lines text s)
    (hlines : lines < passed) (hline : ∀ c ∈ line, ¬ EndsLine c) :
    (line.foldl (step passed) s).finish = .ok [] := by
  have hfound := h.found_eq
  by_cases hne : line = []
  · subst hne
    obtain ⟨stage, field, row, found, ended⟩ := s
    dsimp only at hfound
    subst hfound
    rcases h.starts with rfl | rfl <;> rfl
  · have hpasses := Stage.passes_line hne
    rw [h.foldl_within hlines hne hline]
    obtain ⟨stage, field, row, found, ended⟩ := s
    dsimp only at hfound
    subst hfound
    unfold Scan.goto finish
    rcases hpasses with hstage | hstage | hstage | hstage <;> rw [hstage]

end Scan

end Table

end LargeNeighborhood
