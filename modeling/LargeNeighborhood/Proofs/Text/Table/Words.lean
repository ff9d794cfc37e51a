import LargeNeighborhood.Proofs.Text.Lines
import LargeNeighborhood.Text.Table
import Mathlib

set_option autoImplicit false

/-! # Words of a line

The words of a line stand between its blanks (`Table.words`). They make the fields of a row, and a
line without words is no row (`Table.rowsOf`). A line that is put together from its fields
(`Table.Adds`) has just these (`Table.Adds.rowsOf_eq`).
-/

namespace LargeNeighborhood

namespace Table

/-! ## Words -/

/-- The words of a line, between its blanks. -/
def words (line : List Char) : List (List Char) :=
  (line.splitOnP isBlank).filter fun piece => !piece.isEmpty

/-- The fields that the words of a line make. -/
def fieldsOf (line : List Char) : List String := (words line).map fieldText

/-- The rows of some lines. A line without words is no row. -/
def rowsOf (lines : List (List Char)) : List (List String) :=
  (lines.map fieldsOf).filter fun row => !row.isEmpty

/-- Whether no word of a line starts with a quote. -/
def Bare (line : List Char) : Prop := ∀ word ∈ words line, word.head? ≠ some '"'

instance : DecidablePred Bare := fun line =>
  inferInstanceAs (Decidable (∀ word ∈ words line, word.head? ≠ some '"'))

section Words

variable {c : Char} {line : List Char}

theorem words_nil : words [] = [] := by
  simp [words]

theorem words_cons_blank (hc : isBlank c = true) (line : List Char) :
    words (c :: line) = words line := by
  simp [words, List.splitOnP_cons_eq_if_modifyHead, hc]

theorem exists_pieces (line : List Char) : ∃ first others, line.splitOnP isBlank = first :: others :=
  List.exists_cons_of_ne_nil (List.splitOnP_ne_nil isBlank line)

/-- What is no blank belongs to the first piece. -/
theorem pieces_cons {first : List Char} {others : List (List Char)} (hc : isBlank c = false)
    (h : line.splitOnP isBlank = first :: others) :
    (c :: line).splitOnP isBlank = (c :: first) :: others := by
  rw [List.splitOnP_cons_eq_if_modifyHead, hc, if_neg Bool.false_ne_true, h, List.modifyHead_cons]

theorem fieldsOf_cons_blank (hc : isBlank c = true) (line : List Char) :
    fieldsOf (c :: line) = fieldsOf line := by
  rw [fieldsOf, words_cons_blank hc, fieldsOf]

theorem fieldsOf_eq_nil_iff : fieldsOf line = [] ↔ ∀ c ∈ line, isBlank c = true := by
  induction line with
  | nil => simp [fieldsOf, words_nil]
  | cons c line ih =>
      cases hc : isBlank c with
      | true => simp [fieldsOf_cons_blank hc, ih, hc]
      | false =>
          obtain ⟨first, others, hpieces⟩ := exists_pieces line
          simp [fieldsOf, words, pieces_cons hc hpieces, hc]

theorem Bare.of_cons_blank (hc : isBlank c = true) (h : Bare (c :: line)) : Bare line := by
  unfold Bare at h
  rwa [words_cons_blank hc] at h

/-- If no word of a line starts with a quote, none of its pieces does: those that are no words are
empty. -/
theorem Bare.pieces (h : Bare line) : ∀ piece ∈ line.splitOnP isBlank, piece.head? ≠ some '"' := by
  intro piece hpiece
  by_cases hempty : piece = []
  · simp [hempty]
  · exact h piece (List.mem_filter.mpr ⟨hpiece, by simpa using hempty⟩)

end Words

/-! ### Rows of lines -/

theorem rowsOf_cons (line : List Char) (lines : List (List Char)) :
    rowsOf (line :: lines) =
      if fieldsOf line = [] then rowsOf lines else fieldsOf line :: rowsOf lines := by
  unfold rowsOf
  rw [List.map_cons, List.filter_cons]
  by_cases hempty : fieldsOf line = [] <;> simp [hempty]

theorem rowsOf_append (front back : List (List Char)) :
    rowsOf (front ++ back) = rowsOf front ++ rowsOf back := by
  unfold rowsOf
  rw [List.map_append, List.filter_append]

/-! ## Lines made of fields -/

/-- A character that a field may start with and go on with. -/
structure Ordinary (c : Char) : Prop where
  feed : c ≠ '\n'
  carriageReturn : c ≠ '\r'
  blank : isBlank c = false
  quote : c ≠ '"'
  null : c ≠ '\x00'

/-- Fields with blanks between them, and possibly behind the last. -/
inductive Fields : List String → List Char → Prop
  | last {word margin : List Char} : word ≠ [] → (∀ c ∈ word, Ordinary c) →
      (∀ c ∈ margin, isBlank c = true) → Fields [String.ofList word] (word ++ margin)
  | cons {word gap rest : List Char} {fields : List String} : word ≠ [] →
      (∀ c ∈ word, Ordinary c) → gap ≠ [] → (∀ c ∈ gap, isBlank c = true) → Fields fields rest →
      Fields (String.ofList word :: fields) (word ++ (gap ++ rest))

/-- What a line adds to a table: nothing, or a row. A line of blanks adds nothing, but where lines
end with a carriage return alone it has to be empty. -/
inductive Adds (e : LineEnd) : List Char → List (List String) → Prop
  | blank {line : List Char} : (∀ c ∈ line, isBlank c = true) →
      (e = .carriageReturn → line = []) → Adds e line []
  | row {margin line : List Char} {fields : List String} : (∀ c ∈ margin, isBlank c = true) →
      Fields fields line → Adds e (margin ++ line) [fields]

theorem not_endsLine_of_isBlank {c : Char} (h : isBlank c = true) : ¬ Lines.EndsLine c := by
  rintro (rfl | rfl) <;> revert h <;> decide

theorem Ordinary.not_endsLine {c : Char} (h : Ordinary c) : ¬ Lines.EndsLine c :=
  not_or.mpr ⟨h.feed, h.carriageReturn⟩

theorem Fields.not_endsLine {fields : List String} {line : List Char} (h : Fields fields line) :
    ∀ c ∈ line, ¬ Lines.EndsLine c := by
  induction h with
  | last _ hword hmargin =>
      intro c hc
      rcases List.mem_append.mp hc with hc | hc
      · exact (hword c hc).not_endsLine
      · exact not_endsLine_of_isBlank (hmargin c hc)
  | cons _ hword _ hgap _ ih =>
      intro c hc
      rcases List.mem_append.mp hc with hc | hc
      · exact (hword c hc).not_endsLine
      rcases List.mem_append.mp hc with hc | hc
      · exact not_endsLine_of_isBlank (hgap c hc)
      · exact ih c hc

theorem Adds.not_endsLine {e : LineEnd} {line : List Char} {rows : List (List String)}
    (h : Adds e line rows) : ∀ c ∈ line, ¬ Lines.EndsLine c := by
  intro c hc
  cases h with
  | blank hline _ => exact not_endsLine_of_isBlank (hline c hc)
  | row hmargin hfields =>
      rcases List.mem_append.mp hc with hc | hc
      · exact not_endsLine_of_isBlank (hmargin c hc)
      · exact hfields.not_endsLine c hc

/-- Each of some lines that add rows adds one. -/
theorem exists_adds {e : LineEnd} {lines : List (List Char)}
    {rowss : List (List (List String))} (h : List.Forall₂ (Adds e) lines rowss) :
    ∀ line ∈ lines, ∃ rows, Adds e line rows := by
  induction h with
  | nil => exact fun line hline => absurd hline List.not_mem_nil
  | cons hadd _ ih => exact List.forall_mem_cons.mpr ⟨⟨_, hadd⟩, ih⟩

theorem not_endsLine_of_adds {e : LineEnd} {lines : List (List Char)}
    {rowss : List (List (List String))} (h : List.Forall₂ (Adds e) lines rowss) :
    ∀ line ∈ lines, ∀ c ∈ line, ¬ Lines.EndsLine c := by
  intro line hline
  obtain ⟨rows, hadd⟩ := exists_adds h line hline
  exact hadd.not_endsLine

/-! ### Their words -/

theorem words_margin {margin : List Char} (hmargin : ∀ c ∈ margin, isBlank c = true)
    (line : List Char) : words (margin ++ line) = words line := by
  induction margin with
  | nil => rfl
  | cons c margin ih =>
      obtain ⟨hc, hmargin⟩ := List.forall_mem_cons.mp hmargin
      rw [List.cons_append, words_cons_blank hc, ih hmargin]

theorem words_blank {line : List Char} (h : ∀ c ∈ line, isBlank c = true) : words line = [] := by
  rw [← List.append_nil line, words_margin h, words_nil]

/-- A word ends at the first blank behind it. -/
theorem words_word {word gap : List Char} (hne : word ≠ []) (hword : ∀ c ∈ word, Ordinary c)
    (hblank : ∀ c ∈ gap, isBlank c = true) (rest : List Char) (hgap : gap = [] → rest = []) :
    words (word ++ (gap ++ rest)) = word :: words rest := by
  have hpiece : ∀ c ∈ word, isBlank c = false := fun c hc => (hword c hc).blank
  have hempty : word.isEmpty = false := List.isEmpty_eq_false_iff.mpr hne
  cases gap with
  | nil =>
      rw [hgap rfl, List.append_nil, List.append_nil, words,
        List.splitOnP_eq_singleton fun c hc => by simpa using hpiece c hc]
      simp [hempty, words_nil]
  | cons c gap =>
      obtain ⟨hc, hblank⟩ := List.forall_mem_cons.mp hblank
      have hcut : (word ++ c :: (gap ++ rest)).splitOnP isBlank =
          word :: (gap ++ rest).splitOnP isBlank := by
        rw [List.splitOnP_append_cons word _ hc,
          List.splitOnP_eq_singleton fun c hc => by simpa using hpiece c hc]
        rfl
      rw [List.cons_append, words, hcut, List.filter_cons, hempty]
      exact congrArg (word :: ·) (words_margin hblank rest)

theorem fieldText_word {word : List Char} (hword : ∀ c ∈ word, Ordinary c) :
    fieldText word = String.ofList word := by
  unfold fieldText
  rw [List.takeWhile_eq_self_iff.mpr]
  intro c hc
  exact bne_iff_ne.mpr (hword c hc).null

theorem bare_of_words_cons {word : List Char} (hword : ∀ c ∈ word, Ordinary c) {line rest : List Char}
    (hline : words line = word :: words rest) (hrest : Bare rest) : Bare line := by
  unfold Bare
  rw [hline]
  refine List.forall_mem_cons.mpr ⟨?_, hrest⟩
  intro hhead
  exact (hword '"' (List.mem_of_mem_head? hhead)).quote rfl

/-- A line has the fields that it is made of. -/
theorem Fields.fieldsOf_eq {fields : List String} {line : List Char} (h : Fields fields line) :
    fieldsOf line = fields ∧ Bare line := by
  induction h with
  | @last word margin hne hword hmargin =>
      have hline := words_word hne hword hmargin [] fun _ => rfl
      rw [List.append_nil] at hline
      refine ⟨?_, bare_of_words_cons hword hline (by simp [Bare, words_nil])⟩
      rw [fieldsOf, hline, words_nil, List.map_cons, fieldText_word hword, List.map_nil]
  | @cons word gap rest fields hne hword hgap hblank _ ih =>
      have hline := words_word hne hword hblank rest fun hnil => absurd hnil hgap
      refine ⟨?_, bare_of_words_cons hword hline ih.2⟩
      rw [fieldsOf, hline, List.map_cons, fieldText_word hword, ← ih.1, fieldsOf]

theorem Adds.rowsOf_eq {e : LineEnd} {line : List Char} {rows : List (List String)}
    (h : Adds e line rows) : rowsOf [line] = rows := by
  cases h with
  | blank hline _ =>
      rw [rowsOf_cons, if_pos (fieldsOf_eq_nil_iff.mpr hline)]
      rfl
  | @row margin line fields hmargin hfields =>
      have hne : fields ≠ [] := by cases hfields <;> simp
      have hrow : fieldsOf (margin ++ line) = fields := by
        rw [fieldsOf, words_margin hmargin, ← hfields.fieldsOf_eq.1, fieldsOf]
      rw [rowsOf_cons, hrow, if_neg hne]
      rfl

theorem Adds.bare {e : LineEnd} {line : List Char} {rows : List (List String)}
    (h : Adds e line rows) : Bare line := by
  cases h with
  | blank hline _ => simp [Bare, words_blank hline]
  | row hmargin hfields =>
      unfold Bare
      rw [words_margin hmargin]
      exact hfields.fieldsOf_eq.2

theorem Adds.eq_nil {e : LineEnd} {line : List Char} {rows : List (List String)}
    (h : Adds e line rows) (he : e = .carriageReturn) (hblank : fieldsOf line = []) : line = [] := by
  cases h with
  | blank _ hempty => exact hempty he
  | @row margin line fields hmargin hfields =>
      rw [fieldsOf, words_margin hmargin, ← fieldsOf, hfields.fieldsOf_eq.1] at hblank
      subst hblank
      cases hfields

theorem rowsOf_of_adds {e : LineEnd} {lines : List (List Char)}
    {rowss : List (List (List String))} (h : List.Forall₂ (Adds e) lines rowss) :
    rowsOf lines = rowss.flatten := by
  induction h with
  | nil => rfl
  | @cons line rows lines rowss hadd _ ih =>
      have hrows : rowsOf (line :: lines) = rowsOf [line] ++ rowsOf lines :=
        rowsOf_append [line] lines
      rw [hrows, hadd.rowsOf_eq, ih, List.flatten_cons]

end Table

end LargeNeighborhood
