import LargeNeighborhood.Proofs.Tour.Layout
import LargeNeighborhood.Proofs.Tour.Points
import LargeNeighborhood.Proofs.Tour.Reading

set_option autoImplicit false

/-! # Reading instance files

Reading a file of whole points gives the problem of these points (`Instance.read_layout`): no matter
how the file is laid out, as long as the count of header lines and the table behind them agree on
where the rows start. A quote that a header line leaves open makes them disagree, and the rows are
lost (`Instance.read_quotedComment`).
-/

namespace LargeNeighborhood

namespace Instance

/-! ## Columns and points -/

section Table

variable (rows : List Row) (k : ℕ)

/-- Where the closing word stands behind rows, any number of times, only the rows are numbered. -/
theorem numbered_identifiers (h : ∀ r ∈ rows, (Column.real? (toString r.id)).isSome = true) :
    (column (rows.map Row.fields ++ List.replicate k [closingWord]) 0).numbered =
      List.replicate rows.length true ++ List.replicate k false := by
  have hfields : column (rows.map Row.fields ++ List.replicate k [closingWord]) 0 =
      .ofFields (rows.map (fun r => toString r.id) ++ List.replicate k closingWord) := by
    unfold column
    rw [List.map_append, List.map_map, List.map_replicate]
    rfl
  have hplain : ∀ field ∈ rows.map (fun r => toString r.id) ++ List.replicate k closingWord,
      Column.Plain field := by
    intro field hfield
    rcases List.mem_append.mp hfield with hrow | hword
    · obtain ⟨r, hr, rfl⟩ := List.mem_map.mp hrow
      exact Column.plain_toString (h r hr)
    · rw [List.eq_of_mem_replicate hword]
      exact Column.plain_EOF
  have hreal : rows.map (fun r => (Column.real? (toString r.id)).isSome) =
      List.replicate rows.length true :=
    List.eq_replicate_iff.mpr ⟨List.length_map .., fun b hb => by
      obtain ⟨r, hr, rfl⟩ := List.mem_map.mp hb
      exact h r hr⟩
  have hword : (Column.real? closingWord).isSome = false := by
    rw [closingWord, Column.real?_EOF]
    rfl
  have hgiven : ∀ field ∈ rows.map (fun r => toString r.id) ++ List.replicate k closingWord,
      field ∉ Column.missingMarks := by
    intro field hfield
    rcases List.mem_append.mp hfield with hrow | hword
    · obtain ⟨r, -, rfl⟩ := List.mem_map.mp hrow
      exact Column.toString_not_mem_missingMarks r.id
    · rw [List.eq_of_mem_replicate hword]
      decide +kernel
  -- no field is missing
  have hleast : ∀ P : Prop, (∃ field ∈ rows.map (fun r => toString r.id) ++
      List.replicate k closingWord, field ∈ Column.missingMarks) → P := by
    rintro P ⟨field, hfield, hmissing⟩
    exact absurd hmissing (hgiven field hfield)
  rw [hfields, Column.numbered_ofFields hplain (hleast _), List.map_append, List.map_map,
    List.map_replicate, hword, ← hreal]
  rfl

/-- The reals of a column of coordinates are those of the rows in front of the closing word. -/
theorem reals_coordinates (i : ℕ) (coordinate : Row → Coordinate)
    (hi : ∀ r : Row, r.fields[i]?.getD "" = toString (coordinate r).val) (hi0 : 0 < i) :
    (column (rows.map Row.fields ++ List.replicate k [closingWord]) i).reals
      (List.replicate rows.length true ++ List.replicate k false) =
      .ok (rows.map fun r => Float.ofInt (coordinate r).val) := by
  have hmissing : [closingWord][i]?.getD "" = "" := by
    rw [List.getElem?_eq_none (by rw [List.length_singleton]; exact hi0)]
    rfl
  have hfields : column (rows.map Row.fields ++ List.replicate k [closingWord]) i =
      .ofFields (((rows.map fun r => (coordinate r).val).map some ++ List.replicate k none).map
        Column.wholeField) := by
    unfold column
    rw [List.map_append, List.map_map, List.map_replicate, hmissing, List.map_append, List.map_map,
      List.map_map, List.map_replicate]
    congr 2
    exact List.map_congr_left fun r _ => hi r
  have hsmall : ∀ x ∈ rows.map fun r => (coordinate r).val, x.natAbs < 10 ^ 15 := by
    intro x hx
    obtain ⟨r, -, rfl⟩ := List.mem_map.mp hx
    exact (coordinate r).prop
  have hreals := Column.reals_wholeField hsmall k
  rw [List.length_map] at hreals
  rw [hfields, hreals, List.map_map]
  rfl

/-- The points of a table are those of its rows in order. -/
theorem points_rows (h : ∀ r ∈ rows, (Column.real? (toString r.id)).isSome = true) :
    Instance.points (rows.map Row.fields ++ List.replicate k [closingWord]) =
      .ok (rows.map fun r => [Float.ofInt r.x.val, Float.ofInt r.y.val]) := by
  have hx := reals_coordinates rows k 1 Row.x (fun r => rfl) (by decide)
  have hy := reals_coordinates rows k 2 Row.y (fun r => rfl) (by decide)
  unfold Instance.points
  rw [numbered_identifiers rows k h]
  dsimp only
  rw [hx, hy]
  show Except.ok _ = _
  rw [List.zip_map', List.map_map]
  rfl

end Table

/-! ## Files -/

theorem parse_eq_ok {tag passed : ℕ} {path text : String} {header : Header} {dimension : Option ℤ}
    {table : List (List String)} {points : List (List Float)}
    (hheader : splitHeader (linesOf text) = some (header, passed))
    (hdimension : dimension? header = .ok dimension) (hplain : Packing.ofName? path = none)
    (htable : rows passed dimension text = .ok table) (hwide : table ≠ [] → 3 ≤ Table.widest table)
    (hpoints : Instance.points table = .ok points)
    (hcount : ∀ n, dimension = some n → n ≤ points.length) :
    parse tag path text = .ok (.measured tag
      ((header.value? "NAME").getD (Path.stem (Path.fileName path))) points) :=
  parse_eq_ok_iff.mpr ⟨header, passed, dimension, table, points, hheader, hdimension, hplain, htable,
    hwide, hpoints, hcount, rfl⟩

theorem le_widest (row : List String) (rows : List (List String)) :
    row.length ≤ Table.widest (row :: rows) := by
  have hfold : ∀ (ns : List ℕ) (n : ℕ), n ≤ ns.foldl max n := by
    intro ns
    induction ns with
    | nil => exact fun n => le_rfl
    | cons m ns ih => exact fun n => (le_max_left n m).trans (ih (max n m))
  exact (le_max_right 0 row.length).trans (hfold _ _)

namespace Layout

variable {l : Layout} {path : String}

/-- A file of points is read as the problem of its points, under its name. -/
theorem parse_text (tag : ℕ) (h : l.Readable path) :
    parse tag path l.text = .ok (.measured tag (l.name path)
      (l.rows.map fun r => [Float.ofInt r.x.val, Float.ofInt r.y.val])) := by
  obtain ⟨dimension, hdimension, hcount⟩ := dimension?_header h
  obtain ⟨k, hrows⟩ := rows_text h hcount
  have hwide : 3 ≤ Table.widest (l.rows.map Row.fields ++ List.replicate k [closingWord]) := by
    obtain ⟨r, rows, hcons⟩ := List.exists_cons_of_ne_nil l.rows_ne_nil
    rw [hcons]
    exact le_widest r.fields _
  refine parse_eq_ok (splitHeader_text h) hdimension h.plain hrows (fun _ => hwide)
    (points_rows l.rows k h.id_real) ?_
  intro n hn
  rw [hcount n hn, List.length_map]

end Layout

/-- Reading a file of points gives the problem of these points, in the order of the file and under
the name that the header gives last. -/
theorem read_layout (l : Layout) (tag : ℕ) {path : String} (h : l.Readable path) :
    ∃ p, read tag path l.text.toUTF8 = .ok p ∧
      Problem.ofPoints tag (l.name path) (.ofWholes l.points) = .ok p ∧ p.name = l.name path ∧
      p.visits = (List.range l.points.length).map (fun i : ℕ => (i : ℤ)) ∧
      p.points = some (l.points.map fun (x, y) => [Float.ofInt x, Float.ofInt y]) := by
  have hne : l.points ≠ [] := by
    simpa [Layout.points] using l.rows_ne_nil
  have hsmall : ∀ n ∈ Nested.coordinates l.points, n.natAbs ≤ 2 ^ 53 := by
    intro n hn
    obtain ⟨point, hpoint, hn⟩ := List.mem_flatMap.mp hn
    obtain ⟨r, -, rfl⟩ := List.mem_map.mp hpoint
    have hx := r.x.prop
    have hy := r.y.prop
    rcases List.mem_cons.mp hn with rfl | hn
    · omega
    · rw [List.mem_singleton.mp hn]
      omega
  refine ⟨_, ?_, Problem.ofPoints_whole tag (l.name path) hne hsmall, rfl, ?_, rfl⟩
  · rw [read_toUTF8, Layout.parse_text tag h, Layout.points, List.map_map]
    rfl
  · simp [Problem.measured]

/-- No blanks. -/
def noMargin : Margin := ⟨[], by simp⟩

/-- One space. -/
def space : Gap := ⟨[' '], by simp [Table.isBlank]⟩

/-- A row with a single space between the fields. -/
def plainRow (id : ℤ) (x y : Coordinate) : Row := ⟨noMargin, id, space, x, space, y, noMargin⟩

/-- The line that is nothing but the mark. -/
def plainMark : Line := ⟨sectionMark, by simp [sectionMark, Lines.EndsLine]⟩

/-- Header lines with a quoted comment and two names, the second in small letters. -/
def twoNames : List Line :=
  [⟨"NAME: first", by simp [Lines.EndsLine]⟩,
    ⟨"COMMENT : \"two\" visits", by simp [Lines.EndsLine]⟩,
    ⟨"DIMENSION :2", by simp [Lines.EndsLine]⟩,
    ⟨" name : a : b ", by simp [Lines.EndsLine]⟩]

/-- Two visits with blank lines around them. -/
def twoVisits : Layout where
  lineEnd := .both
  header := twoNames
  mark := plainMark
  items := [.blank noMargin, .row (plainRow 40 ⟨-3, by decide⟩ ⟨4, by decide⟩),
    .blank ⟨['\t'], by simp [Table.isBlank]⟩,
    .row (plainRow (-7) ⟨999999999999999, by decide⟩ ⟨0, by decide⟩)]
  closing := some (noMargin, ⟨[' '], by simp [Table.isBlank]⟩)
  trailing := []
  header_unmarked := by decide +kernel
  mark_marks := by decide +kernel
  rows_ne := by simp [Item.row?]
  dimension_eq := by
    intro text h
    have htwo : (entries twoNames).value? "DIMENSION" = some "2" := by decide +kernel
    cases htwo.symm.trans h
    decide +kernel

theorem readable_twoVisits : twoVisits.Readable "maps/pair.tsp" where
  plain := by decide +kernel
  passable := by
    have hclosed : ((Table.unmarkedLines twoVisits.top).all fun line =>
        decide (¬ Table.LeavesQuoteOpen line)) = true := by
      decide +kernel
    intro line hline
    exact ⟨of_decide_eq_true (List.all_eq_true.mp hclosed line hline), fun he => by cases he⟩
  blank_empty := fun he => by cases he
  id_real := by
    intro r hr
    have hid : r.id ∈ [40, -7] := List.mem_map_of_mem (f := Row.id) hr
    have hsmall : r.id.natAbs < 10 ^ 2 := by
      rcases List.mem_pair.mp hid with h | h <;> rw [h] <;> decide
    exact Column.isSome_real?_toString (by decide) hsmall
  dimension_short _ := (by decide : twoVisits.rows.length < 10 ^ 1).trans
    (Nat.pow_lt_pow_right (by decide) (by decide))

theorem read_layout_twoVisits : twoVisits.Readable "maps/pair.tsp" ∧
    ∃ p, read 5 "maps/pair.tsp" twoVisits.text.toUTF8 = .ok p ∧ p.name = "a : b" ∧
      p.visits = [0, 1] ∧
      p.points = some [[Float.ofInt (-3), Float.ofInt 4],
        [Float.ofInt 999999999999999, Float.ofInt 0]] := by
  have h := readable_twoVisits
  obtain ⟨p, hread, -, hname, hvisits, hpoints⟩ := read_layout twoVisits 5 h
  exact ⟨h, p, hread, hname.trans (by decide +kernel), hvisits, hpoints⟩

/-- Header lines whose comment opens a quote. -/
def quotedHeader : List Line :=
  [⟨"NAME : tiny", by simp [Lines.EndsLine]⟩,
    ⟨"COMMENT : \"three visits", by simp [Lines.EndsLine]⟩]

/-- Three visits in a file whose comment opens a quote. -/
def quotedComment : Layout where
  lineEnd := .feed
  header := quotedHeader
  mark := plainMark
  items := [.row (plainRow 1 ⟨0, by decide⟩ ⟨0, by decide⟩),
    .row (plainRow 2 ⟨3, by decide⟩ ⟨4, by decide⟩),
    .row (plainRow 3 ⟨6, by decide⟩ ⟨8, by decide⟩)]
  closing := some (noMargin, noMargin)
  trailing := [noMargin]
  header_unmarked := by decide +kernel
  mark_marks := by decide +kernel
  rows_ne := by simp [Item.row?]
  dimension_eq := by
    intro text h
    have hnone : (entries quotedHeader).value? "DIMENSION" = none := by decide +kernel
    cases hnone.symm.trans h

/-- The open quote takes the rows of the file along. -/
theorem read_quotedComment : quotedComment.points = [(0, 0), (3, 4), (6, 8)] ∧
    ∃ p, read 0 "inst.tsp" quotedComment.text.toUTF8 = .ok p ∧ p.visits = [] := by
  refine ⟨rfl, .measured 0 "tiny" [], ?_, rfl⟩
  have hheader : splitHeader (linesOf quotedComment.text) =
      some ([("NAME", "tiny"), ("COMMENT", "\"three visits")], 3) := by
    decide +kernel
  have htable : rows 3 none quotedComment.text = .ok [] := by decide +kernel
  rw [read_toUTF8]
  exact parse_eq_ok hheader rfl (by decide +kernel) htable (fun hne => absurd rfl hne) rfl
    fun n hn => by cases hn

end Instance

end LargeNeighborhood
