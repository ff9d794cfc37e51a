import LargeNeighborhood.Proofs.Text.Column
import LargeNeighborhood.Proofs.Text.Table
import LargeNeighborhood.Proofs.Tour.Header

set_option autoImplicit false

/-! # Layouts of instance files

A file of points is laid out in many ways (`Instance.Layout`): header lines of any kind, one of
three line ends, blanks around the fields of a row, blank lines among the rows, and a closing word.
Two passes go over its lines. The first counts down to the mark that ends the header
(`Layout.splitHeader_text`), and the second passes over as many lines and takes the rows from those
behind them (`Layout.rows_text`). The second has rules of its own for what a line is, so the two
agree only if the lines keep to them (`Layout.Readable`).
-/

namespace LargeNeighborhood

namespace Instance

/-! ## Layouts -/

/-- Spaces and tabs. -/
abbrev Margin := { cs : List Char // ∀ c ∈ cs, Table.isBlank c = true }

/-- At least one space or tab. -/
abbrev Gap := { cs : List Char // cs ≠ [] ∧ ∀ c ∈ cs, Table.isBlank c = true }

/-- A line of a file, without its end. -/
abbrev Line := { line : String // ∀ c ∈ line.toList, ¬ Lines.EndsLine c }

/-- A whole number of at most fifteen digits. -/
abbrev Coordinate := { x : ℤ // x.natAbs < 10 ^ 15 }

/-- A row of a file: an identifier and two coordinates, with the blanks around them. -/
structure Row where
  before : Margin
  id : ℤ
  first : Gap
  x : Coordinate
  second : Gap
  y : Coordinate
  behind : Margin

/-- What stands in a line of the coordinate section. -/
inductive Item where
  | row (r : Row)
  | blank (margin : Margin)

def Item.row? : Item → Option Row
  | .row r => some r
  | .blank _ => none

def Item.blank? : Item → Option Margin
  | .row _ => none
  | .blank margin => some margin

/-- The header lines as keys and values. -/
def entries (header : List Line) : Header := header.filterMap fun line => headerLine? line.val

/-- A file of points. The closing word stands between blanks, and blank lines may follow it. Line
ends stand between the lines, so a file that ends with a line end has an empty line at last. -/
structure Layout where
  lineEnd : LineEnd
  header : List Line
  mark : Line
  items : List Item
  closing : Option (Margin × Margin)
  trailing : List Margin
  header_unmarked : ∀ line ∈ header, (strip line.val).startsWith sectionMark = false
  mark_marks : (strip mark.val).startsWith sectionMark = true
  rows_ne : items.filterMap Item.row? ≠ []
  dimension_eq : ∀ text, (entries header).value? "DIMENSION" = some text →
    text = toString ((items.filterMap Item.row?).length : ℤ)

def Row.fields (r : Row) : List String := [toString r.id, toString r.x.val, toString r.y.val]

def Row.text (r : Row) : List Char :=
  r.before.val ++ ((toString r.id).toList ++ (r.first.val ++ ((toString r.x.val).toList ++
    (r.second.val ++ ((toString r.y.val).toList ++ r.behind.val)))))

def Item.text : Item → List Char
  | .row r => r.text
  | .blank margin => margin.val

/-- The word that may close the rows. -/
def closingWord : String := "EOF"

/-- The closing word between blanks. -/
def closingText (margins : Margin × Margin) : List Char :=
  margins.1.val ++ (closingWord.toList ++ margins.2.val)

namespace Layout

variable (l : Layout)

def rows : List Row := l.items.filterMap Item.row?

/-- The points in the order of the file. -/
def points : List (ℤ × ℤ) := l.rows.map fun r => (r.x.val, r.y.val)

/-- The header lines and the one that ends the header. -/
def top : List (List Char) := (l.header ++ [l.mark]).map fun line => line.val.toList

/-- The lines behind the header. -/
def body : List (List Char) :=
  l.items.map Item.text ++ l.closing.toList.map closingText ++ l.trailing.map Subtype.val

def text : String := String.ofList (Lines.joined l.lineEnd (l.top ++ l.body))

/-- The name that the file gives the instance, or that of the file. -/
def name (path : String) : String :=
  ((entries l.header).value? "NAME").getD (Path.stem (Path.fileName path))

/-- The blank lines. -/
def blanks : List Margin := l.items.filterMap Item.blank? ++ l.trailing

/-- What keeps the two passes over a file together: the file is read as a plain one, the top lines
are passed over one by one, no blank line is taken for a row, and the identifiers and the number of
rows are numbers that can be read. -/
structure Readable (path : String) : Prop where
  plain : Packing.ofName? path = none
  passable : ∀ line ∈ Table.unmarkedLines l.top, Table.Passable l.lineEnd line
  blank_empty : l.lineEnd = .carriageReturn → ∀ margin ∈ l.blanks, margin.val = []
  id_real : ∀ r ∈ l.rows, (Column.real? (toString r.id)).isSome = true
  dimension_short : ((entries l.header).value? "DIMENSION").isSome = true →
    l.rows.length < 10 ^ Numeral.digitLimit

/-- The rows of the file as a table, the closing word among them. -/
def table : List (List String) :=
  l.rows.map Row.fields ++ List.replicate l.closing.toList.length [closingWord]

end Layout

/-! ## The lines behind the header -/

theorem ordinary_of_inNumeral {c : Char} (h : InNumeral c) : Table.Ordinary c := by
  have hc := h.toNat_eq
  have hne : ∀ d : Char, ¬ (d.toNat = 45 ∨ (48 ≤ d.toNat ∧ d.toNat ≤ 57)) → c ≠ d := by
    rintro d hd rfl
    exact hd hc
  refine ⟨hne _ (by decide), hne _ (by decide), ?_, hne _ (by decide), hne _ (by decide)⟩
  simp [Table.isBlank, hne ' ' (by decide), hne '\t' (by decide)]

theorem ordinary_of_mem_toString {n : ℤ} : ∀ c ∈ (toString n).toList, Table.Ordinary c :=
  fun _ hc => ordinary_of_inNumeral (inNumeral_of_mem_toString hc)

theorem Row.adds (r : Row) (e : LineEnd) : Table.Adds e r.text [r.fields] := by
  have hy := Table.Fields.last (toString_ne_nil r.y.val) ordinary_of_mem_toString r.behind.prop
  have hx := hy.cons (toString_ne_nil r.x.val) ordinary_of_mem_toString r.second.prop.1
    r.second.prop.2
  have hid := hx.cons (toString_ne_nil r.id) ordinary_of_mem_toString r.first.prop.1
    r.first.prop.2
  simp only [String.ofList_toList] at hid
  exact .row r.before.prop hid

/-- The rows that an item adds. -/
def Item.rows (item : Item) : List (List String) := (item.row?.map Row.fields).toList

theorem Item.adds {e : LineEnd} {item : Item}
    (h : e = .carriageReturn → ∀ margin, item.blank? = some margin → margin.val = []) :
    Table.Adds e item.text item.rows := by
  cases item with
  | row r => exact r.adds e
  | blank margin => exact .blank margin.prop fun he => h he margin rfl

theorem closing_adds (e : LineEnd) (margins : Margin × Margin) :
    Table.Adds e (closingText margins) [[closingWord]] := by
  have hword : ∀ c ∈ closingWord.toList, Table.Ordinary c := by
    intro c hc
    have hc : c = 'E' ∨ c = 'O' ∨ c = 'F' := by simpa [closingWord] using hc
    rcases hc with rfl | rfl | rfl <;> exact ⟨by decide, by decide, by decide, by decide, by decide⟩
  have hfields := Table.Fields.last (by decide) hword margins.2.prop
  rw [String.ofList_toList] at hfields
  exact .row margins.1.prop hfields

namespace Layout

variable {l : Layout} {path : String}

theorem flatten_items (items : List Item) :
    (items.map Item.rows).flatten = (items.filterMap Item.row?).map Row.fields := by
  rw [List.map_filterMap, List.filterMap_eq_flatMap_toList]
  rfl

theorem forall₂_map {α β γ : Type} {R : β → γ → Prop} {f : α → β} {g : α → γ} {xs : List α}
    (h : ∀ x ∈ xs, R (f x) (g x)) : List.Forall₂ R (xs.map f) (xs.map g) :=
  List.forall₂_map_left_iff.mpr (List.forall₂_map_right_iff.mpr (List.forall₂_same.mpr h))

/-- The lines behind the header add the rows of the file. -/
theorem body_adds (h : l.Readable path) :
    ∃ rowss, List.Forall₂ (Table.Adds l.lineEnd) l.body rowss ∧ rowss.flatten = l.table := by
  have hblank : ∀ margin ∈ l.blanks, l.lineEnd = .carriageReturn → margin.val = [] :=
    fun margin hmargin he => h.blank_empty he margin hmargin
  have hitems : List.Forall₂ (Table.Adds l.lineEnd) (l.items.map Item.text)
      (l.items.map Item.rows) := by
    refine forall₂_map fun item hitem => Item.adds fun he margin hmargin => ?_
    exact hblank margin (List.mem_append_left _ (List.mem_filterMap.mpr ⟨item, hitem, hmargin⟩)) he
  have hclosing : List.Forall₂ (Table.Adds l.lineEnd) (l.closing.toList.map closingText)
      (l.closing.toList.map fun _ => [[closingWord]]) :=
    forall₂_map fun margins _ => closing_adds l.lineEnd margins
  have htrailing : List.Forall₂ (Table.Adds l.lineEnd) (l.trailing.map Subtype.val)
      (l.trailing.map fun _ => []) := by
    refine forall₂_map fun margin hmargin => .blank margin.prop fun he => ?_
    exact hblank margin (List.mem_append_right _ hmargin) he
  refine ⟨_, List.rel_append (List.rel_append hitems hclosing) htrailing, ?_⟩
  have hempty : (l.trailing.map fun _ => ([] : List (List String))).flatten = [] := by simp
  have hword : (l.closing.toList.map fun _ => [[closingWord]]).flatten =
      List.replicate l.closing.toList.length [closingWord] := by
    cases l.closing <;> rfl
  rw [List.flatten_append, List.flatten_append, flatten_items, hempty, hword, List.append_nil]
  rfl

end Layout

/-! ## The two passes -/

namespace Layout

variable {l : Layout} {path : String}

theorem rows_ne_nil (l : Layout) : l.rows ≠ [] := l.rows_ne

theorem top_ne_nil (l : Layout) : l.top ≠ [] := by
  simp [top]

theorem length_top (l : Layout) : l.top.length = l.header.length + 1 := by
  simp [top]

theorem body_ne_nil (l : Layout) : l.body ≠ [] := by
  intro hnil
  have hitems : l.items = [] := by
    have hmap := (List.append_eq_nil_iff.mp (List.append_eq_nil_iff.mp hnil).1).1
    exact List.map_eq_nil_iff.mp hmap
  exact l.rows_ne (by rw [hitems]; rfl)

theorem not_endsLine_top (l : Layout) : ∀ line ∈ l.top, ∀ c ∈ line, ¬ Lines.EndsLine c := by
  intro line hline
  obtain ⟨line, -, rfl⟩ := List.mem_map.mp hline
  exact line.prop

theorem not_endsLine_body (h : l.Readable path) :
    ∀ line ∈ l.body, ∀ c ∈ line, ¬ Lines.EndsLine c := by
  obtain ⟨rowss, hadds, -⟩ := body_adds h
  exact Table.not_endsLine_of_adds hadds

/-- Ordinary files are readable: their lines end with a line feed, there is no quote at the top, and
identifiers have up to three hundred digits. -/
theorem readable_of_quoteless (hplain : Packing.ofName? path = none)
    (hend : l.lineEnd ≠ .carriageReturn) (hquote : ∀ line ∈ l.top, '"' ∉ line) {k : ℕ}
    (hk : k ≤ 300) (hid : ∀ r ∈ l.rows, r.id.natAbs < 10 ^ k)
    (hrows : l.rows.length < 10 ^ Numeral.digitLimit) : l.Readable path where
  plain := hplain
  passable := by
    intro line hline
    have hfree := Table.not_endsLine_unmarkedLines l.not_endsLine_top line hline
    refine ⟨Table.Scan.not_leavesQuoteOpen_of_not_mem hfree ?_, fun he => absurd he hend⟩
    obtain ⟨first, rest, htop⟩ := List.exists_cons_of_ne_nil l.top_ne_nil
    rw [htop] at hline hquote
    rcases List.mem_cons.mp hline with rfl | hline
    · exact fun hmem => hquote first List.mem_cons_self (Table.mem_of_mem_unmarked hmem)
    · exact hquote line (List.mem_cons_of_mem first hline)
  blank_empty := fun he => absurd he hend
  id_real := fun r hr => Column.isSome_real?_toString hk (hid r hr)
  dimension_short := fun _ => hrows

/-- The lines of the file show its header. -/
theorem splitHeader_text (h : l.Readable path) :
    splitHeader (linesOf l.text) = some (entries l.header, l.top.length) := by
  have hfree : ∀ line ∈ l.top ++ l.body, ∀ c ∈ line, ¬ Lines.EndsLine c := by
    intro line hline
    exact (List.mem_append.mp hline).elim (l.not_endsLine_top line) (not_endsLine_body h line)
  have hlines : linesOf l.text = l.header.map Subtype.val ++ l.mark.val ::
      (Lines.split [] (Lines.joined l.lineEnd l.body)).map String.ofList := by
    unfold linesOf text
    rw [String.toList_ofList, Lines.split_joined l.lineEnd l.body_ne_nil hfree]
    simp [top]
  have hheader : ∀ line ∈ l.header.map Subtype.val,
      (strip line).startsWith sectionMark = false := by
    intro line hline
    obtain ⟨entry, hentry, rfl⟩ := List.mem_map.mp hline
    exact l.header_unmarked entry hentry
  rw [hlines, splitHeader_append hheader l.mark_marks, List.length_map, List.filterMap_map,
    length_top]
  rfl

/-- The file shows its rows as a table, the closing word only where their number is not given. -/
theorem rows_text (h : l.Readable path) {dimension : Option ℤ}
    (hdimension : ∀ n, dimension = some n → n = l.rows.length) :
    ∃ k, Instance.rows l.top.length dimension l.text =
      .ok (l.rows.map Row.fields ++ List.replicate k [closingWord]) := by
  obtain ⟨rowss, hadds, htable⟩ := body_adds h
  have hrows : ∀ limit : Option ℕ, (∀ k ∈ limit, 0 < k) →
      Table.rows l.top.length limit l.text = .ok (limit.elim l.table l.table.take) := by
    intro limit hlimit
    rw [← htable]
    exact Table.rows_joined l.lineEnd l.top_ne_nil l.not_endsLine_top h.passable l.body_ne_nil hadds
      hlimit
  cases dimension with
  | none =>
      refine ⟨l.closing.toList.length, ?_⟩
      unfold Instance.rows
      rw [Option.map_none, hrows none (by simp)]
      rfl
  | some n =>
      have hn := hdimension n rfl
      have hpos : 0 < l.rows.length := List.length_pos_iff.mpr l.rows_ne_nil
      -- The limit is as many rows as there are, which leaves the closing word out.
      have hmax : max 1 n.toNat = l.rows.length := by omega
      have htake : l.table.take l.rows.length = l.rows.map Row.fields :=
        List.take_left' (List.length_map ..)
      refine ⟨0, ?_⟩
      unfold Instance.rows
      rw [Option.map_some, hmax, hrows (some l.rows.length) (by simpa using hpos)]
      show (if n < 0 then _ else Except.ok ((l.table.take l.rows.length).take n.toNat)) = _
      rw [if_neg (by omega), htake, List.take_of_length_le (by rw [List.length_map]; omega)]
      simp

theorem dimension?_header (h : l.Readable path) : ∃ dimension,
    dimension? (entries l.header) = .ok dimension ∧
      ∀ n, dimension = some n → n = l.rows.length := by
  unfold dimension?
  cases hvalue : (entries l.header).value? "DIMENSION" with
  | none => exact ⟨none, rfl, fun n hn => by cases hn⟩
  | some text =>
      have htext : text = toString (l.rows.length : ℤ) := l.dimension_eq text hvalue
      have hshort := h.dimension_short (by rw [hvalue]; rfl)
      refine ⟨some l.rows.length, ?_, fun n hn => (Option.some.inj hn).symm⟩
      dsimp only
      rw [htext, readWhole_toString (by simpa using hshort)]

end Layout

end Instance

end LargeNeighborhood
