import LargeNeighborhood.Proofs.Text.Table.Passed
import LargeNeighborhood.Proofs.Text.Table.Rows

set_option autoImplicit false

/-! # Tables of a text

A scan finds at most one row with each character and loses none, so a limit cuts off the rows behind
it and changes nothing else (`Scan.run_some`). Where it takes the lines of a text one by one
(`Orderly`), the table has the rows of all lines behind those that are passed over, up to the limit
(`rows_eq`). So has a text of lines that all end alike and are made of their fields (`rows_joined`).
-/

namespace LargeNeighborhood

namespace Table

/-! ## Rows that are wanted -/

namespace Scan

variable {passed : ℕ}

/-- A step finds at most one row, and loses none. -/
def Grows (s t : Scan) : Prop := t.found = s.found ∨ ∃ row, t.found = s.found.push row

theorem found_beforeFields (s : Scan) (c : Char) : (s.beforeFields c).found = s.found := by
  unfold beforeFields startField
  split_ifs <;> rfl

theorem found_startLine (s : Scan) (c : Char) : (s.startLine passed c).found = s.found := by
  unfold startLine
  split_ifs
  · rfl
  · rfl
  · rfl
  · exact found_beforeFields s c

theorem found_afterPassed (s : Scan) (c : Char) (other : Stage) :
    (s.afterPassed c other).found = s.found := by
  unfold afterPassed
  split_ifs <;> rfl

theorem grows_afterField (s : Scan) (c : Char) : Grows s (s.afterField c) := by
  unfold afterField
  split_ifs
  · exact Or.inr ⟨_, rfl⟩
  · exact Or.inl rfl
  · exact Or.inl rfl

theorem grows_step (s : Scan) (c : Char) : Grows s (s.step passed c) := by
  -- a row is added where a field ends it or behind a carriage return, and nowhere else
  unfold step
  cases s.stage with
  | lineStart => exact Or.inl (found_startLine s c)
  | emptyReturn =>
      dsimp only
      split_ifs
      · exact Or.inl rfl
      · exact Or.inl (found_startLine s c)
  | indented => exact Or.inl (found_beforeFields s c)
  | field =>
      dsimp only
      split_ifs
      · exact grows_afterField (s.endField .gap) c
      · exact Or.inl rfl
  | quoted =>
      dsimp only
      split_ifs <;> exact Or.inl rfl
  | quotedQuote =>
      dsimp only
      split_ifs
      · exact Or.inl rfl
      · exact grows_afterField (s.endField .gap) c
      · exact Or.inl rfl
  | gap =>
      dsimp only
      split_ifs
      · exact grows_afterField s c
      · unfold startField
        split_ifs <;> exact Or.inl rfl
  | rowReturn =>
      dsimp only
      split_ifs
      · exact Or.inr ⟨_, rfl⟩
      · exact Or.inr ⟨_, rfl⟩
      · exact Or.inr ⟨_, found_startLine (s.endRow .lineStart) c⟩
  | passedGap => exact Or.inl (found_afterPassed s c _)
  | passedField => exact Or.inl (found_afterPassed s c _)
  | passedQuoted =>
      dsimp only
      split_ifs <;> exact Or.inl rfl
  | passedQuote => exact Or.inl (found_afterPassed s c _)

theorem run_none (s : Scan) (cs : List Char) :
    s.run passed none cs = (cs.foldl (step passed) s).finish := by
  induction cs generalizing s with
  | nil => rfl
  | cons c cs ih => exact ih (s.step passed c)

/-- What has been found is found to the end, and at the end there is at most one row more. -/
theorem prefix_finish {s : Scan} {rows : List (List String)} (h : s.finish = .ok rows) :
    s.found.toList <+: rows ∧ rows.length ≤ s.found.size + 1 := by
  have hpush : ∀ row, s.found.toList <+: (s.found.push row).toList ∧
      (s.found.push row).toList.length ≤ s.found.size + 1 := by
    intro row
    simp
  unfold finish at h
  split at h
  · cases h
  · cases h
    exact hpush _
  · cases h
    exact hpush _
  · cases h
    exact hpush _
  · cases h
    exact hpush _
  · cases h
    exact ⟨List.prefix_rfl, by simp⟩

theorem prefix_of_run {s : Scan} {cs : List Char} {rows : List (List String)}
    (h : s.run passed none cs = .ok rows) : s.found.toList <+: rows := by
  induction cs generalizing s with
  | nil => exact (prefix_finish h).1
  | cons c cs ih =>
      have hrest := ih (s := s.step passed c) h
      rcases grows_step s c with heq | ⟨row, heq⟩
      · rwa [heq] at hrest
      · rw [heq, Array.toList_push] at hrest
        exact (List.prefix_append _ _).trans hrest

/-- A limit cuts off the rows behind it. -/
theorem run_some {s : Scan} {cs : List Char} {rows : List (List String)} {limit : ℕ}
    (h : s.run passed none cs = .ok rows) (hlimit : s.found.size < limit) :
    s.run passed (some limit) cs = .ok (rows.take limit) := by
  induction cs generalizing s with
  | nil =>
      have hlength := (prefix_finish h).2
      rw [List.take_of_length_le (by omega)]
      exact h
  | cons c cs ih =>
      by_cases hfull : limit ≤ (s.step passed c).found.size
      · -- Only this step can have found the last row wanted.
        have hsize : (s.step passed c).found.toList.length = limit := by
          have hgrows : Grows s (s.step passed c) := grows_step s c
          rw [Array.length_toList]
          rcases hgrows with heq | ⟨row, heq⟩
          · rw [heq] at hfull ⊢
            omega
          · rw [heq, Array.size_push] at hfull ⊢
            omega
        have hstop : s.run passed (some limit) (c :: cs) = .ok (s.step passed c).found.toList :=
          if_pos (decide_eq_true hfull)
        obtain ⟨rest, hrest⟩ := prefix_of_run (s := s.step passed c) h
        rw [hstop, ← hrest, List.take_left' hsize]
      · have hgo : s.run passed (some limit) (c :: cs) =
            (s.step passed c).run passed (some limit) cs :=
          if_neg (by simpa [isFull] using hfull)
        rw [hgo]
        exact ih h (by omega)

end Scan

/-! ## Whole texts -/

/-- Lines that a table takes one by one: each line that is passed over closes its quotes, and no word
behind them starts with one. Where a carriage return may end a line alone, those that are passed over
are not empty, and a line without words behind them is. -/
structure Orderly (lone : Prop) (top body : List (List Char)) : Prop where
  closed : ∀ line ∈ top, ¬ LeavesQuoteOpen line
  nonempty : lone → ∀ line ∈ top, line ≠ []
  bare : ∀ line ∈ body, Bare line
  blank_empty : lone → ∀ line ∈ body, fieldsOf line = [] → line = []

namespace Scan

variable {passed : ℕ}

open Lines

/-- Behind the last line that is passed over, rows may follow. -/
theorem Skipped.stands {lone : Prop} {text : List Char} {s : Scan} (h : Skipped lone passed text s) :
    Stands passed lone #[] text s := by
  obtain ⟨stage, field, row, found, ended⟩ := s
  obtain ⟨rfl, rfl, rfl, rfl, hstage⟩ := h
  rcases hstage with rfl | ⟨hlone, hhead, rfl⟩
  · exact .fresh ⟨_, le_rfl, rfl⟩
  · exact .afterEmpty hlone hhead ⟨_, le_rfl, rfl⟩

/-- A scan behind lines that were passed over passes over those that are still to be, and the lines
behind them add their rows. -/
theorem Skipped.finish_text {lone : Prop} (text : List Char) {s : Scan} {skipped k : ℕ}
    (h : Skipped lone skipped text s) (hpassed : skipped + k = passed)
    (hlone : HasLoneReturn text → lone)
    (horderly : Orderly lone ((split [] text).take k) ((split [] text).drop k)) :
    (text.foldl (step passed) s).finish = .ok (rowsOf ((split [] text).drop k)) := by
  -- Line by line, `skipped` goes up and `k` down. Where `k` is zero, what is left is rows.
  induction text using Lines.induction generalizing s skipped k with
  | last line hline =>
      cases k with
      | zero =>
          subst hpassed
          exact h.stands.finish_text line hlone horderly.bare horderly.blank_empty
      | succ k =>
          have hnone : (split [] line).drop (k + 1) = [] := by
            rw [split_last hline]
            split <;> simp
          rw [hnone]
          exact h.finish_line (by omega) hline
  | line line e rest hline hnext ih =>
      cases k with
      | zero =>
          subst hpassed
          exact h.stands.finish_text _ hlone horderly.bare horderly.blank_empty
      | succ k =>
          rw [split_line hline hnext, List.take_succ_cons, List.drop_succ_cons] at horderly
          rw [hasLoneReturn_line hline hnext] at hlone
          obtain ⟨hfirst, hclosed⟩ := List.forall_mem_cons.mp horderly.closed
          have hrest : Orderly lone ((split [] rest).take k) ((split [] rest).drop k) :=
            { closed := hclosed
              nonempty := fun hlone => (List.forall_mem_cons.mp (horderly.nonempty hlone)).2
              bare := horderly.bare
              blank_empty := horderly.blank_empty }
          have hskipped := h.foldl_line (by omega : skipped < passed) hline hfirst
            (fun hlone => (List.forall_mem_cons.mp (horderly.nonempty hlone)).1)
            fun he => ⟨hlone (Or.inl he), hnext he⟩
          rw [split_line hline hnext, List.drop_succ_cons, ← List.append_assoc, List.foldl_append]
          exact ih hskipped (by omega) (fun hrest => hlone (Or.inr hrest)) hrest

end Scan

/-- A line without a byte order mark at its front. -/
def unmarked (line : List Char) : List Char :=
  if line.head? = some '\ufeff' then line.drop 1 else line

/-- The lines at the top of a text without the byte order mark of the text. -/
def unmarkedLines : List (List Char) → List (List Char)
  | [] => []
  | line :: lines => unmarked line :: lines

theorem mem_of_mem_unmarked {line : List Char} {c : Char} (h : c ∈ unmarked line) : c ∈ line := by
  unfold unmarked at h
  split at h
  · exact List.mem_of_mem_drop h
  · exact h

theorem not_endsLine_unmarkedLines {lines : List (List Char)}
    (h : ∀ line ∈ lines, ∀ c ∈ line, ¬ Lines.EndsLine c) :
    ∀ line ∈ unmarkedLines lines, ∀ c ∈ line, ¬ Lines.EndsLine c := by
  cases lines with
  | nil => exact h
  | cons line lines =>
      obtain ⟨hline, hlines⟩ := List.forall_mem_cons.mp h
      exact List.forall_mem_cons.mpr ⟨fun c hc => hline c (mem_of_mem_unmarked hc), hlines⟩

/-- The byte order mark of a text is that of its first line. -/
theorem unmarked_append (line : List Char) (e : LineEnd) (rest : List Char) :
    unmarked (line ++ (e.marks ++ rest)) = unmarked line ++ (e.marks ++ rest) := by
  cases line with
  | nil => cases e <;> rfl
  | cons c line =>
      unfold unmarked
      by_cases hc : c = '\ufeff'
      · subst hc
        rfl
      · simp [hc]

open Lines in
/-- The rows of a text are those of its lines behind the ones that are passed over, up to the
limit. -/
theorem rows_eq {passed : ℕ} {text : String} (hpassed : 0 < passed)
    (h : Orderly (HasLoneReturn text.toList) (unmarkedLines ((split [] text.toList).take passed))
      ((split [] text.toList).drop passed)) {limit : Option ℕ} (hlimit : ∀ k ∈ limit, 0 < k) :
    rows passed limit text =
      let found := rowsOf ((split [] text.toList).drop passed)
      .ok (limit.elim found found.take) := by
  have hrun : Scan.start.run passed none (unmarked text.toList) =
      .ok (rowsOf ((split [] text.toList).drop passed)) := by
    have hstart := Scan.skipped_start (HasLoneReturn text.toList) (unmarked text.toList)
    obtain ⟨k, rfl⟩ : ∃ k, passed = k + 1 := Nat.exists_eq_add_one.mpr hpassed
    rw [Scan.run_none]
    rcases exists_line text.toList with hline | ⟨line, e, rest, htext, hline, hnext⟩
    · -- The only line of the text is passed over.
      have hnone : (split [] text.toList).drop (k + 1) = [] := by
        rw [split_last hline]
        split <;> simp
      rw [hnone]
      exact hstart.finish_line hpassed fun c hc => hline c (mem_of_mem_unmarked hc)
    · have hfirst : ∀ c ∈ unmarked line, ¬ EndsLine c := fun c hc => hline c (mem_of_mem_unmarked hc)
      have hlone : HasLoneReturn (unmarked text.toList) ↔ HasLoneReturn text.toList := by
        rw [htext, unmarked_append, hasLoneReturn_line hfirst hnext, hasLoneReturn_line hline hnext]
      have hlines : split [] (unmarked text.toList) = unmarked line :: split [] rest := by
        rw [htext, unmarked_append, split_line hfirst hnext]
      have hdrop : (split [] text.toList).drop (k + 1) =
          (split [] (unmarked text.toList)).drop (k + 1) := by
        rw [hlines, htext, split_line hline hnext, List.drop_succ_cons, List.drop_succ_cons]
      have htake : unmarkedLines ((split [] text.toList).take (k + 1)) =
          (split [] (unmarked text.toList)).take (k + 1) := by
        rw [hlines, htext, split_line hline hnext, List.take_succ_cons, List.take_succ_cons]
        rfl
      rw [hdrop, htake] at h
      rw [hdrop]
      exact hstart.finish_text _ (Nat.zero_add _) hlone.mp h
  cases limit with
  | none => exact hrun
  | some k => exact Scan.run_some hrun (hlimit k rfl)

/-- Where each line at the top is passed over by itself, every line behind them adds its row, up to
the limit. -/
theorem rows_joined (e : LineEnd) {front lines : List (List Char)}
    {rowss : List (List (List String))} (hfront : front ≠ [])
    (hfree : ∀ line ∈ front, ∀ c ∈ line, ¬ Lines.EndsLine c)
    (hpass : ∀ line ∈ unmarkedLines front, Passable e line) (hlines : lines ≠ [])
    (hadds : List.Forall₂ (Adds e) lines rowss) {limit : Option ℕ} (hlimit : ∀ k ∈ limit, 0 < k) :
    rows front.length limit (String.ofList (Lines.joined e (front ++ lines))) =
      .ok (limit.elim rowss.flatten rowss.flatten.take) := by
  have hfree' : ∀ line ∈ front ++ lines, ∀ c ∈ line, ¬ Lines.EndsLine c := by
    intro line hline
    exact (List.mem_append.mp hline).elim (hfree line) (not_endsLine_of_adds hadds line)
  have hsplit := Lines.split_joined e hlines hfree'
  -- An empty line at the very end is no line of the text, but it is no row either.
  obtain ⟨hrows, hmem⟩ : rowsOf (Lines.split [] (Lines.joined e lines)) = rowsOf lines ∧
      ∀ line ∈ Lines.split [] (Lines.joined e lines), line ∈ lines := by
    rcases Lines.split_joined_self e hlines (not_endsLine_of_adds hadds) with hself | hself
    · rw [hself]
      exact ⟨rfl, fun line hline => hline⟩
    · rw [← hself, rowsOf_append, hself]
      refine ⟨(List.append_nil _).symm, fun line hline => ?_⟩
      rw [← hself]
      exact List.mem_append_left [[]] hline
  have hlone := Lines.end_of_hasLoneReturn (e := e) hfree'
  have horderly : Orderly (Lines.HasLoneReturn (Lines.joined e (front ++ lines)))
      (unmarkedLines front) (Lines.split [] (Lines.joined e lines)) :=
    { closed := fun line hline => (hpass line hline).closed
      nonempty := fun hreturn line hline => (hpass line hline).nonempty (hlone hreturn)
      bare := by
        intro line hline
        obtain ⟨rows, hadd⟩ := exists_adds hadds line (hmem line hline)
        exact hadd.bare
      blank_empty := by
        intro hreturn line hline hblank
        obtain ⟨rows, hadd⟩ := exists_adds hadds line (hmem line hline)
        exact hadd.eq_nil (hlone hreturn) hblank }
  have hread : rows front.length limit (String.ofList (Lines.joined e (front ++ lines))) = _ :=
    rows_eq (List.length_pos_iff.mpr hfront) (by
      rw [String.toList_ofList, hsplit, List.take_left, List.drop_left]
      exact horderly) hlimit
  rw [hread, String.toList_ofList, hsplit, List.drop_left, hrows, rowsOf_of_adds hadds]

end Table

end LargeNeighborhood
