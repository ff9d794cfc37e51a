import LargeNeighborhood.Proofs.Text.Table.Words

set_option autoImplicit false

/-! # Rows and blank lines of a table

A scan that stands between two lines (`Scan.Stands`) takes the next line for what it is, as long as
no word of it starts with a quote, and stands behind it with its row (`Scan.Stands.foldl_line`). So
the rows of a text are those of its lines in order (`Scan.Stands.finish_text`).
-/

namespace LargeNeighborhood

namespace Table

/-- A character that a field may start with. -/
structure Starts (c : Char) : Prop where
  feed : c ≠ '\n'
  carriageReturn : c ≠ '\r'
  blank : isBlank c = false
  quote : c ≠ '"'

namespace Scan

variable {passed : ℕ} {found : Array (List String)}

open Lines

/-! ## Scans between lines -/

/-- A scan behind the lines that are passed over. -/
def At (passed : ℕ) (stage : Stage) (field : List Char) (row : List String)
    (found : Array (List String)) (s : Scan) : Prop :=
  ∃ ended, passed ≤ ended ∧ s = ⟨stage, field, row, found, ended⟩

/-- A scan between two lines, in front of the rest of its text. Behind a row that ends with a carriage
return alone, the row is still to be added. -/
inductive Stands (passed : ℕ) (lone : Prop) (found : Array (List String)) (rest : List Char)
    (s : Scan) : Prop
  | fresh : At passed .lineStart [] [] found s → Stands passed lone found rest s
  | afterEmpty : lone → rest.head? ≠ some '\n' → At passed .emptyReturn [] [] found s →
      Stands passed lone found rest s
  | afterRow {row : List String} {front : Array (List String)} : lone →
      rest.head? ≠ some '\n' → At passed .rowReturn [] row front s →
      front.push row.reverse = found → Stands passed lone found rest s

/-- A scan that takes a character for the start of a field. -/
def Ready (passed : ℕ) (row : List String) (found : Array (List String)) (s : Scan) : Prop :=
  ∀ c, Starts c → At passed .field [c] row found (s.step passed c)

/-- A scan of a line that is going to be a row with the given fields. -/
def Holds (passed : ℕ) (fields : List String) (found : Array (List String)) (s : Scan) : Prop :=
  (∃ field row, At passed .field field row found s ∧
    (fieldText field.reverse :: row).reverse = fields) ∨
  ∃ row, At passed .gap [] row found s ∧ row.reverse = fields

/-- A scan behind blanks at the start of a line. -/
def Opens (passed : ℕ) (found : Array (List String)) (s : Scan) : Prop :=
  At passed .indented [] [] found s ∨ At passed .gap [] [] found s

/-! ### Fields -/

theorem endsField_eq_false {c : Char} (h : ¬ EndsLine c) (hblank : isBlank c = false) :
    endsField c = false := by
  have hfeed : c ≠ '\n' := fun heq => h (Or.inl heq)
  have hreturn : c ≠ '\r' := fun heq => h (Or.inr heq)
  simp [endsField, hfeed, hreturn, hblank]

theorem Starts.of_not {c : Char} (h : ¬ EndsLine c) (hblank : isBlank c = false) (hquote : c ≠ '"') :
    Starts c :=
  ⟨fun heq => h (Or.inl heq), fun heq => h (Or.inr heq), hblank, hquote⟩

theorem ready_gap {row : List String} {s : Scan} (h : At passed .gap [] row found s) :
    Ready passed row found s := by
  intro c hc
  have hends := endsField_eq_false (not_or.mpr ⟨hc.feed, hc.carriageReturn⟩) hc.blank
  obtain ⟨ended, hended, rfl⟩ := h
  refine ⟨ended, hended, ?_⟩
  simp [step, hends, startField, hc.quote, push]

theorem Opens.ready {s : Scan} (h : Opens passed found s) : Ready passed [] found s := by
  rcases h with ⟨ended, hended, rfl⟩ | hgap
  · intro c hc
    refine ⟨ended, hended, ?_⟩
    simp [step, beforeFields, hc.feed, hc.carriageReturn, hc.blank, startField, hc.quote, push]
  · exact ready_gap hgap

theorem eq_of_isBlank {c : Char} (h : isBlank c = true) : c = ' ' ∨ c = '\t' := by
  simpa [isBlank] using h

/-- A blank ends a field. -/
theorem at_gap_of_field {field : List Char} {row : List String} {s : Scan}
    (h : At passed .field field row found s) {c : Char} (hc : isBlank c = true) :
    At passed .gap [] (fieldText field.reverse :: row) found (s.step passed c) := by
  obtain ⟨ended, hended, rfl⟩ := h
  refine ⟨ended, hended, ?_⟩
  rcases eq_of_isBlank hc with rfl | rfl <;> rfl

/-- In front of the first field and between two fields, a further blank changes nothing. -/
theorem at_blank {stage : Stage} (hstage : stage = .gap ∨ stage = .indented) {row : List String}
    {s : Scan} (h : At passed stage [] row found s) {c : Char} (hc : isBlank c = true) :
    At passed stage [] row found (s.step passed c) := by
  obtain ⟨ended, hended, rfl⟩ := h
  refine ⟨ended, hended, ?_⟩
  rcases hstage with rfl | rfl <;> rcases eq_of_isBlank hc with rfl | rfl <;> rfl

theorem at_blanks {stage : Stage} (hstage : stage = .gap ∨ stage = .indented) {row : List String}
    {s : Scan} (h : At passed stage [] row found s) {line : List Char}
    (hblank : ∀ c ∈ line, isBlank c = true) :
    At passed stage [] row found (line.foldl (step passed) s) := by
  induction line generalizing s with
  | nil => exact h
  | cons c line ih =>
      obtain ⟨hc, hblank⟩ := List.forall_mem_cons.mp hblank
      exact ih (at_blank hstage h hc) hblank

theorem at_field_push {field : List Char} {row : List String} {s : Scan}
    (h : At passed .field field row found s) {c : Char} (hfree : ¬ EndsLine c)
    (hblank : isBlank c = false) :
    At passed .field (c :: field) row found (s.step passed c) := by
  obtain ⟨ended, hended, rfl⟩ := h
  refine ⟨ended, hended, ?_⟩
  simp [step, endsField_eq_false hfree hblank, push]

/-- The pieces of a line make its row. In a field, the first one goes on with it; the others, and in a
gap all of them, are fields of their own if they are not empty. -/
theorem holds_of_pieces {line first : List Char} {others : List (List Char)}
    (hline : ∀ c ∈ line, ¬ EndsLine c) (hpieces : line.splitOnP isBlank = first :: others)
    (hquote : ∀ piece ∈ others, piece.head? ≠ some '"') :
    (∀ {field : List Char} {row : List String} {s : Scan}, At passed .field field row found s →
      Holds passed (row.reverse ++ fieldText (field.reverse ++ first) ::
        (others.filter fun piece => !piece.isEmpty).map fieldText) found
        (line.foldl (step passed) s)) ∧
    (first.head? ≠ some '"' → ∀ {row : List String} {s : Scan}, At passed .gap [] row found s →
      Holds passed (row.reverse ++
        ((first :: others).filter fun piece => !piece.isEmpty).map fieldText) found
        (line.foldl (step passed) s)) := by
  -- Both hold together, since a blank leads from a field into a gap and a word back into a field.
  induction line generalizing first others with
  | nil =>
      rw [List.splitOnP_nil] at hpieces
      cases hpieces
      exact ⟨fun h => Or.inl ⟨_, _, h, by simp⟩, fun _ _ _ h => Or.inr ⟨_, h, by simp⟩⟩
  | cons c line ih =>
      obtain ⟨hc, hline⟩ := List.forall_mem_cons.mp hline
      obtain ⟨next, others', hnext⟩ := exists_pieces line
      cases hblank : isBlank c with
      | true =>
          -- The blank ends the piece at hand, so that all pieces behind it are fields of their own.
          rw [List.splitOnP_cons_eq_if_modifyHead, hblank, if_pos rfl, hnext] at hpieces
          cases hpieces
          obtain ⟨hfirst, hquote⟩ := List.forall_mem_cons.mp hquote
          obtain ⟨-, hgap⟩ := ih hline hnext hquote
          constructor
          · intro field row s h
            have hholds := hgap hfirst (at_gap_of_field h hblank)
            rw [List.reverse_cons, List.append_assoc] at hholds
            rw [List.append_nil]
            exact hholds
          · intro _ row s h
            exact hgap hfirst (at_blank (Or.inl rfl) h hblank)
      | false =>
          rw [pieces_cons hblank hnext] at hpieces
          cases hpieces
          obtain ⟨hfield, -⟩ := ih hline hnext hquote
          constructor
          · intro field row s h
            have hholds := hfield (at_field_push h hc hblank)
            rw [List.reverse_cons, List.append_assoc] at hholds
            exact hholds
          · intro hfirst row s h
            have hstarts := Starts.of_not hc hblank fun heq => hfirst (by rw [heq]; rfl)
            exact hfield (ready_gap h c hstarts)

/-- Where a field may start, a line that starts with a word makes its row. -/
theorem Ready.foldl_line {row : List String} {s : Scan} (h : Ready passed row found s) {c : Char}
    {line : List Char} (hline : ∀ d ∈ c :: line, ¬ EndsLine d) (hbare : Bare (c :: line))
    (hblank : isBlank c = false) :
    Holds passed (row.reverse ++ fieldsOf (c :: line)) found
      ((c :: line).foldl (step passed) s) := by
  obtain ⟨hc, hline⟩ := List.forall_mem_cons.mp hline
  obtain ⟨first, others, hpieces⟩ := exists_pieces line
  have hquote := hbare.pieces
  rw [pieces_cons hblank hpieces] at hquote
  obtain ⟨hfirst, hquote⟩ := List.forall_mem_cons.mp hquote
  have hstarts := Starts.of_not hc hblank fun heq => hfirst (by rw [heq]; rfl)
  have hfields : fieldsOf (c :: line) = fieldText (c :: first) ::
      (others.filter fun piece => !piece.isEmpty).map fieldText := by
    rw [fieldsOf, words, pieces_cons hblank hpieces]
    rfl
  rw [hfields]
  exact (holds_of_pieces hline hpieces hquote).1 (h c hstarts)

/-! ### Lines -/

section Lines

variable {lone : Prop} {text rest line : List Char} {s : Scan} {e : LineEnd}

theorem Opens.blank (h : Opens passed found s) {c : Char} (hc : isBlank c = true) :
    Opens passed found (s.step passed c) :=
  h.imp (fun h => at_blank (Or.inr rfl) h hc) fun h => at_blank (Or.inl rfl) h hc

/-- Blanks in front of the first word do not matter. -/
theorem Opens.foldl_line (h : Opens passed found s) (hline : ∀ c ∈ line, ¬ EndsLine c)
    (hbare : Bare line) (hne : fieldsOf line ≠ []) :
    Holds passed (fieldsOf line) found (line.foldl (step passed) s) := by
  induction line generalizing s with
  | nil => exact absurd (by simp [fieldsOf, words_nil]) hne
  | cons c line ih =>
      cases hblank : isBlank c with
      | true =>
          rw [fieldsOf_cons_blank hblank] at hne ⊢
          exact ih (h.blank hblank) (List.forall_mem_cons.mp hline).2 (hbare.of_cons_blank hblank) hne
      | false => exact h.ready.foldl_line hline hbare hblank

/-- Between two lines, a character is taken for the first one of a line. A blank behind a row is the
exception, and so is a line feed that belongs to the end of the line in front. -/
theorem Stands.step_eq (h : Stands passed lone found text s) {c : Char} (hblank : isBlank c = false)
    (hfeed : c = '\n' → text.head? = some '\n') : ∃ ended, passed ≤ ended ∧
      s.step passed c = (⟨.lineStart, [], [], found, ended⟩ : Scan).beforeFields c := by
  cases h with
  | fresh h =>
      obtain ⟨ended, hended, rfl⟩ := h
      exact ⟨ended, hended, if_neg hended.not_gt⟩
  | afterEmpty _ hhead h =>
      obtain ⟨ended, hended, rfl⟩ := h
      have hc : c ≠ '\n' := fun heq => hhead (hfeed heq)
      refine ⟨ended, hended, ?_⟩
      simp [step, startLine, hended.not_gt, hc, beforeFields, goto, startField, push, endEmpty]
  | afterRow _ hhead h hfound =>
      obtain ⟨ended, hended, rfl⟩ := h
      have hc : c ≠ '\n' := fun heq => hhead (hfeed heq)
      have hended' : ¬ ended + 1 < passed := by omega
      refine ⟨ended + 1, by omega, ?_⟩
      simp [step, startLine, hended', hc, hblank, endRow, hfound]

theorem Stands.ready (h : Stands passed lone found text s) : Ready passed [] found s := by
  intro c hc
  obtain ⟨ended, hended, hstep⟩ := h.step_eq hc.blank fun heq => absurd heq hc.feed
  refine ⟨ended, hended, ?_⟩
  rw [hstep]
  simp [beforeFields, hc.feed, hc.carriageReturn, hc.blank, startField, hc.quote, push]

theorem Stands.opens (h : Stands passed lone found text s) {c : Char} (hc : isBlank c = true) :
    Opens passed found (s.step passed c) := by
  cases h with
  | fresh h =>
      obtain ⟨ended, hended, rfl⟩ := h
      refine Or.inl ⟨ended, hended, ?_⟩
      rcases eq_of_isBlank hc with rfl | rfl <;>
        simp [step, startLine, hended.not_gt, beforeFields, isBlank, goto]
  | afterEmpty _ _ h =>
      obtain ⟨ended, hended, rfl⟩ := h
      refine Or.inl ⟨ended, hended, ?_⟩
      rcases eq_of_isBlank hc with rfl | rfl <;>
        simp [step, startLine, hended.not_gt, beforeFields, isBlank, goto]
  | afterRow _ _ h hfound =>
      obtain ⟨ended, hended, rfl⟩ := h
      refine Or.inr ⟨ended + 1, by omega, ?_⟩
      rcases eq_of_isBlank hc with rfl | rfl <;> simp [step, isBlank, endRow, hfound]

/-- A line with words makes a row of them. -/
theorem Stands.holds (h : Stands passed lone found text s) (hline : ∀ c ∈ line, ¬ EndsLine c)
    (hbare : Bare line) (hne : fieldsOf line ≠ []) :
    Holds passed (fieldsOf line) found (line.foldl (step passed) s) := by
  cases line with
  | nil => exact absurd (by simp [fieldsOf, words_nil]) hne
  | cons c line =>
      cases hblank : isBlank c with
      | true =>
          rw [fieldsOf_cons_blank hblank] at hne ⊢
          exact (h.opens hblank).foldl_line (List.forall_mem_cons.mp hline).2
            (hbare.of_cons_blank hblank) hne
      | false => exact h.ready.foldl_line hline hbare hblank

/-- The end of a line that is a row adds the row and leaves the scan between two lines. -/
theorem Holds.marks {fields : List String} (h : Holds passed fields found s)
    (hnext : e = .carriageReturn → lone ∧ rest.head? ≠ some '\n') :
    Stands passed lone (found.push fields) rest (e.marks.foldl (step passed) s) := by
  rcases h with ⟨field, row, ⟨ended, hended, rfl⟩, rfl⟩ | ⟨row, ⟨ended, hended, rfl⟩, rfl⟩
  · cases e with
    | feed => exact .fresh ⟨ended + 1, by omega, rfl⟩
    | carriageReturn => exact .afterRow (hnext rfl).1 (hnext rfl).2 ⟨ended, hended, rfl⟩ rfl
    | both => exact .fresh ⟨ended + 1, by omega, rfl⟩
  · cases e with
    | feed => exact .fresh ⟨ended + 1, by omega, rfl⟩
    | carriageReturn => exact .afterRow (hnext rfl).1 (hnext rfl).2 ⟨ended, hended, rfl⟩ rfl
    | both => exact .fresh ⟨ended + 1, by omega, rfl⟩

/-- At the end of the text a line that is going to be a row is added. -/
theorem Holds.finish {fields : List String} (h : Holds passed fields found s) :
    s.finish = .ok (found.push fields).toList := by
  rcases h with ⟨field, row, ⟨ended, -, rfl⟩, rfl⟩ | ⟨row, ⟨ended, -, rfl⟩, rfl⟩ <;> rfl

theorem Stands.finish (h : Stands passed lone found text s) : s.finish = .ok found.toList := by
  cases h with
  | fresh h =>
      obtain ⟨ended, -, rfl⟩ := h
      rfl
  | afterEmpty _ _ h =>
      obtain ⟨ended, -, rfl⟩ := h
      rfl
  | afterRow _ _ h hfound =>
      obtain ⟨ended, -, rfl⟩ := h
      rw [← hfound]
      rfl

/-- The end of an empty line adds no row and leaves the scan between two lines. -/
theorem Stands.marks (h : Stands passed lone found (e.marks ++ rest) s)
    (hnext : e = .carriageReturn → lone ∧ rest.head? ≠ some '\n') :
    Stands passed lone found rest (e.marks.foldl (step passed) s) := by
  cases e with
  | feed =>
      obtain ⟨ended, hended, hstep⟩ := h.step_eq (c := '\n') rfl fun _ => rfl
      exact .fresh ⟨ended + 1, by omega, hstep⟩
  | carriageReturn =>
      obtain ⟨ended, hended, hstep⟩ := h.step_eq (c := '\r') rfl fun heq => absurd heq (by decide)
      exact .afterEmpty (hnext rfl).1 (hnext rfl).2 ⟨ended + 1, by omega, hstep⟩
  | both =>
      obtain ⟨ended, hended, hstep⟩ := h.step_eq (c := '\r') rfl fun heq => absurd heq (by decide)
      refine .fresh ⟨ended + 1, by omega, ?_⟩
      show step passed (s.step passed '\r') '\n' = _
      rw [hstep]
      rfl

/-- Where every carriage return has its line feed, a line of blanks starts no field. -/
theorem Stands.indented (h : Stands passed lone found text s) (hlone : ¬ lone) (hne : line ≠ [])
    (hblank : ∀ c ∈ line, isBlank c = true) :
    At passed .indented [] [] found (line.foldl (step passed) s) := by
  obtain ⟨c, line, rfl⟩ := List.exists_cons_of_ne_nil hne
  obtain ⟨hc, hblank⟩ := List.forall_mem_cons.mp hblank
  suffices hfirst : At passed .indented [] [] found (s.step passed c) from
    at_blanks (Or.inr rfl) hfirst hblank
  cases h with
  | fresh h =>
      obtain ⟨ended, hended, rfl⟩ := h
      refine ⟨ended, hended, ?_⟩
      rcases eq_of_isBlank hc with rfl | rfl <;>
        simp [step, startLine, hended.not_gt, beforeFields, isBlank, goto]
  | afterEmpty h' _ _ => exact absurd h' hlone
  | afterRow h' _ _ _ => exact absurd h' hlone

/-- A line without words is no row, if it is empty where a carriage return may end it alone. -/
theorem Stands.foldl_blank (h : Stands passed lone found (line ++ (e.marks ++ rest)) s)
    (hblank : fieldsOf line = []) (hempty : lone → line = [])
    (hnext : e = .carriageReturn → lone ∧ rest.head? ≠ some '\n') :
    Stands passed lone found rest ((line ++ e.marks).foldl (step passed) s) := by
  rw [List.foldl_append]
  by_cases hne : line = []
  · subst hne
    exact h.marks hnext
  · have hlone : ¬ lone := fun hlone => hne (hempty hlone)
    obtain ⟨ended, hended, hat⟩ := h.indented hlone hne (fieldsOf_eq_nil_iff.mp hblank)
    rw [hat]
    cases e with
    | feed => exact .fresh ⟨ended + 1, by omega, rfl⟩
    | carriageReturn => exact absurd (hnext rfl).1 hlone
    | both => exact .fresh ⟨ended + 1, by omega, rfl⟩

/-- A line with its end adds its row, if it is one. -/
theorem Stands.foldl_line (h : Stands passed lone found (line ++ (e.marks ++ rest)) s)
    (hline : ∀ c ∈ line, ¬ EndsLine c) (hbare : Bare line)
    (hempty : lone → fieldsOf line = [] → line = [])
    (hnext : e = .carriageReturn → lone ∧ rest.head? ≠ some '\n') :
    Stands passed lone (found ++ (rowsOf [line]).toArray) rest
      ((line ++ e.marks).foldl (step passed) s) := by
  rw [rowsOf_cons]
  by_cases hblank : fieldsOf line = []
  · rw [if_pos hblank]
    show Stands passed lone (found ++ #[]) rest _
    rw [Array.append_empty]
    exact h.foldl_blank hblank (fun hlone => hempty hlone hblank) hnext
  · rw [if_neg hblank, List.foldl_append]
    exact (h.holds hline hbare hblank).marks hnext

/-- A last line without an end adds its row, if it is one, at the end of the text. -/
theorem Stands.finish_line (h : Stands passed lone found line s)
    (hline : ∀ c ∈ line, ¬ EndsLine c) (hbare : Bare line)
    (hempty : lone → fieldsOf line = [] → line = []) :
    (line.foldl (step passed) s).finish = .ok (found.toList ++ rowsOf [line]) := by
  rw [rowsOf_cons]
  by_cases hblank : fieldsOf line = []
  · rw [if_pos hblank]
    show _ = Except.ok (found.toList ++ [])
    rw [List.append_nil]
    by_cases hne : line = []
    · subst hne
      exact h.finish
    · have hlone : ¬ lone := fun hlone => hne (hempty hlone hblank)
      obtain ⟨ended, -, hat⟩ := h.indented hlone hne (fieldsOf_eq_nil_iff.mp hblank)
      rw [hat]
      rfl
  · rw [if_neg hblank, (h.holds hline hbare hblank).finish, Array.toList_push]
    rfl

/-- The lines of a text add their rows one after the other. -/
theorem Stands.finish_text (text : List Char) (h : Stands passed lone found text s)
    (hlone : HasLoneReturn text → lone) (hbare : ∀ line ∈ split [] text, Bare line)
    (hempty : lone → ∀ line ∈ split [] text, fieldsOf line = [] → line = []) :
    (text.foldl (step passed) s).finish = .ok (found.toList ++ rowsOf (split [] text)) := by
  -- line by line: the rows found so far grow by those of the first line
  induction text using Lines.induction generalizing found s with
  | last line hline =>
      rw [split_last hline] at hbare hempty ⊢
      by_cases hne : line = []
      · subst hne
        exact h.finish_line hline (by simp [Bare, words_nil]) fun _ _ => rfl
      · rw [if_neg hne] at hbare hempty ⊢
        exact h.finish_line hline (hbare line List.mem_cons_self) fun hlone =>
          hempty hlone line List.mem_cons_self
  | line line e rest hline hnext ih =>
      rw [hasLoneReturn_line hline hnext] at hlone
      rw [split_line hline hnext] at hbare hempty ⊢
      obtain ⟨hfirst, hbare⟩ := List.forall_mem_cons.mp hbare
      have hstands := h.foldl_line hline hfirst (fun hlone => hempty hlone line List.mem_cons_self)
        fun he => ⟨hlone (Or.inl he), hnext he⟩
      have hrows : rowsOf (line :: split [] rest) = rowsOf [line] ++ rowsOf (split [] rest) :=
        rowsOf_append [line] (split [] rest)
      rw [← List.append_assoc, List.foldl_append,
        ih hstands (fun hrest => hlone (Or.inr hrest)) hbare
          fun hlone other hother => hempty hlone other (List.mem_cons_of_mem line hother),
        hrows, Array.toList_append, List.append_assoc]

end Lines

end Scan

end Table

end LargeNeighborhood
