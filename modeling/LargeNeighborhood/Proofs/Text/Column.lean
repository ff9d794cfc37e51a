import LargeNeighborhood.Proofs.Except
import LargeNeighborhood.Proofs.Text.Column.Reals

set_option autoImplicit false

/-! # Columns of whole numbers

Whatever kind of column the fields make together, a field counts as a number in it just if it is a
real by itself, as long as no field is a truth value (`Column.numbered_ofFields`). The kind of the
column decides how its fields are read, but each of them is read by itself
(`Column.uniform_ofFields`). A column of whole numbers of fifteen digits, some of them missing, is
read exactly (`Column.ofFields_wholeField`).
-/

namespace LargeNeighborhood

namespace Column

/-! ## What makes a field a number -/

/-- A mark for a missing value is empty or has a character that no whole number has. -/
theorem toString_not_mem_missingMarks (n : ℤ) : toString n ∉ missingMarks := by
  have hmarks : (missingMarks.all fun mark =>
      mark.toList.isEmpty || mark.toList.any fun c => !(c.isDigit || c == '-')) = true := by
    decide +kernel
  intro hmem
  have hmark := List.all_eq_true.mp hmarks _ hmem
  simp only [Bool.or_eq_true, List.isEmpty_iff, List.any_eq_true, Bool.not_eq_true',
    Bool.or_eq_false_iff, beq_eq_false_iff_ne] at hmark
  rcases hmark with hnil | ⟨c, hc, hdigit, hminus⟩
  · exact toString_ne_nil n hnil
  · rcases inNumeral_of_mem_toString hc with h | h
    · rw [hdigit] at h
      cases h
    · exact hminus h

theorem signed_toString {n : ℤ} (h : n.natAbs < 10 ^ 15) : signed (toString n) = .ok n := by
  have hbounds : Int64.minValue.toInt ≤ n ∧ n ≤ Int64.maxValue.toInt := by
    have hmin : Int64.minValue.toInt = -9223372036854775808 := rfl
    have hmax : Int64.maxValue.toInt = 9223372036854775807 := rfl
    rw [hmin, hmax]
    omega
  have hcount : (digitsOf n.natAbs).length ≠ 0 := fun hzero =>
    Nat.toDigits_ne_nil (List.length_eq_zero_iff.mp hzero)
  unfold signed bounded
  rw [dropWhile_isSpace_toString, Numeral.takeSign_toString]
  dsimp only
  rw [Numeral.takeDigits_digitsOf Digit.ascii?_of_isDigit]
  dsimp only
  rw [signed_natAbs, if_neg hcount, if_neg (by omega)]
  rfl

/-! ## Which fields are numbers -/

/-- All given fields are read, or none is. -/
theorem readAll?_eq {α : Type} (read : String → Option α) (fields : List (Option String)) :
    readAll? read fields =
      if (fields.all fun field => field.all fun text => (read text).isSome) = true then
        some (fields.map fun field => field.bind read)
      else none := by
  unfold readAll?
  induction fields with
  | nil => rfl
  | cons field fields ih =>
      rw [List.mapM_cons, ih]
      cases field with
      | none =>
          simp only [List.all_cons, Option.all_none, Bool.true_and, List.map_cons, Option.bind_none]
          split <;> rfl
      | some text =>
          cases hread : read text with
          | none => simp [hread]
          | some x =>
              simp only [List.all_cons, Option.all_some, List.map_cons, Option.bind_some, hread,
                Option.isSome_some, Bool.true_and]
              split <;> rfl

/-- A field that stands for itself: it is no truth value, and it is a real if it is a whole number
of a kind. -/
structure Plain (field : String) : Prop where
  untrue : truth? field = none
  signed_real : ∀ n, signed field = .ok n → (real? field).isSome = true
  unsigned_real : ∀ n, unsigned field = .ok (some n) → (real? field).isSome = true

/-- A mark for a missing value is no real. -/
theorem real?_of_mem_missingMarks : ∀ field ∈ missingMarks, real? field = none := by
  decide +kernel

theorem given?_cases (field : String) :
    (field ∈ missingMarks ∧ given? field = none) ∨
      field ∉ missingMarks ∧ given? field = some field := by
  by_cases hmissing : field ∈ missingMarks
  · exact Or.inl ⟨hmissing, if_pos hmissing⟩
  · exact Or.inr ⟨hmissing, if_neg hmissing⟩

theorem bind_given? (field : String) : (given? field).bind real? = real? field := by
  rcases given?_cases field with ⟨hmissing, hgiven⟩ | ⟨-, hgiven⟩
  · rw [hgiven, real?_of_mem_missingMarks field hmissing]
    rfl
  · rw [hgiven]
    rfl

variable {fields : List String}

theorem numbered_words : (words (fields.map given?)).numbered =
    fields.map fun field => (real? field).isSome := by
  simp [numbered, bind_given?]

theorem numbered_ofParts (h : ∀ field ∈ fields, Plain field) :
    (ofParts (fields.map given?)).numbered = fields.map fun field => (real? field).isSome := by
  unfold ofParts
  rw [readAll?_eq]
  split
  · -- All that are given are reals.
    rename_i values hvalues
    split at hvalues
    · cases hvalues
      simp [numbered, bind_given?]
    · cases hvalues
  · rename_i hnone
    split at hnone
    · cases hnone
    rename_i hreal
    -- One of them is no real, and no truth value either.
    have htruth : ¬ ((fields.map given?).all fun field =>
        field.all fun text => (truth? text).isSome) = true := by
      intro hall
      refine hreal (List.all_eq_true.mpr fun given hgiven => ?_)
      obtain ⟨field, hfield, rfl⟩ := List.mem_map.mp hgiven
      have htrue := List.all_eq_true.mp hall _ hgiven
      rcases given?_cases field with ⟨-, hgiven⟩ | ⟨-, hgiven⟩
      · rw [hgiven]
        rfl
      · rw [hgiven] at htrue
        simp [(h field hfield).untrue] at htrue
    rw [readAll?_eq, if_neg htruth]
    exact numbered_words

/-- A column that is read as whole numbers of a kind has no number for a field that is missing, and
the number of each other field. -/
theorem forall₂_of_mapM {α : Type} {read : String → Except Misfit α} {values : List (Option α)}
    (h : ((fields.map given?).mapM fun field => field.mapM read) = .ok values) :
    List.Forall₂ (fun field value => (field ∈ missingMarks ∧ value = none) ∨
      ∃ n, read field = .ok n ∧ value = some n) fields values := by
  refine (List.forall₂_map_left_iff.mp (mapM_eq_ok.mp h)).imp ?_
  intro field value hvalue
  rcases given?_cases field with ⟨hmissing, hgiven⟩ | ⟨-, hgiven⟩
  · rw [hgiven] at hvalue
    cases hvalue
    exact Or.inl ⟨hmissing, rfl⟩
  · rw [hgiven, Option.mapM_some] at hvalue
    obtain ⟨n, hn, rfl⟩ := map_eq_ok.mp hvalue
    exact Or.inr ⟨n, hn, rfl⟩

theorem map_isSome_eq {α β : Type} {values : List α} {number? : α → Option β}
    (h : List.Forall₂ (fun field value => (number? value).isSome = (real? field).isSome)
      fields values) :
    (values.map number?).map Option.isSome = fields.map fun field => (real? field).isSome := by
  induction h with
  | nil => rfl
  | cons hvalue _ ih => rw [List.map_cons, List.map_cons, List.map_cons, hvalue, ih]

theorem numbered_ofLarge (h : ∀ field ∈ fields, Plain field) :
    (ofLarge fields).numbered = fields.map fun field => (real? field).isSome := by
  -- The column is numbers only if every field is one, and words show what each field is.
  unfold ofLarge
  dsimp only
  split
  · exact numbered_ofParts h
  · exact numbered_words
  · rename_i values hvalues
    have hall := (List.forall₂_and_left _ _).mpr ⟨h, forall₂_of_mapM hvalues⟩
    split
    · split
      · simp [numbered]
      · rename_i hgiven
        have hsome : ∀ value ∈ values, ∃ n, value = some (some n) := by
          intro value hvalue
          by_contra hnone
          refine hgiven (List.any_eq_true.mpr ⟨value, hvalue, ?_⟩)
          rcases value with _ | _ | n
          · rfl
          · rfl
          · exact absurd ⟨n, rfl⟩ hnone
        refine map_isSome_eq (((List.forall₂_and_left _ _).mpr ⟨hsome, hall.flip⟩).flip.imp ?_)
        rintro field value ⟨⟨n, rfl⟩, hplain, ⟨-, hnone⟩ | ⟨n', hn, heq⟩⟩
        · cases hnone
        · cases heq
          rw [hplain.unsigned_real n hn]
          rfl
    · exact numbered_words

/-- A field counts as a number just if it is a real by itself. The least whole number is none where
something is missing. -/
theorem numbered_ofFields (h : ∀ field ∈ fields, Plain field)
    (hleast : (∃ field ∈ fields, field ∈ missingMarks) →
      ∀ field ∈ fields, signed field ≠ .ok Int64.minValue.toInt) :
    (ofFields fields).numbered = fields.map fun field => (real? field).isSome := by
  unfold ofFields
  dsimp only
  split
  · exact numbered_ofParts h
  · exact numbered_ofLarge h
  · rename_i values hvalues
    have hread := forall₂_of_mapM hvalues
    -- A number stays one unless it stands for what is missing.
    have hkept : ∀ field ∈ fields, ∀ n, signed field = .ok n →
        (values.contains none && n == Int64.minValue.toInt) = false := by
      intro field hfield n hn
      by_cases hmissing : ∃ field ∈ fields, field ∈ missingMarks
      · have hne : n ≠ Int64.minValue.toInt := by
          rintro rfl
          exact hleast hmissing field hfield hn
        rw [beq_false_of_ne hne, Bool.and_false]
      · have hpairs := (List.forall₂_and_left _ _).mpr
          ⟨fun field hfield hmem => hmissing ⟨field, hfield, hmem⟩, hread⟩
        have hgiven : List.Forall₂ (fun value _ => value ≠ none ∧ True) values fields := by
          refine hpairs.flip.imp ?_
          rintro value field ⟨hfield, ⟨hmem, -⟩ | ⟨n, -, rfl⟩⟩
          · exact absurd hmem hfield
          · exact ⟨Option.some_ne_none n, trivial⟩
        have hnone : values.contains none = false := by
          rw [List.contains_eq_mem, decide_eq_false_iff_not]
          exact fun hmem => ((List.forall₂_and_left _ _).mp hgiven).1 none hmem rfl
        rw [hnone, Bool.false_and]
    have hall := (List.forall₂_and_left _ _).mpr ⟨h, (List.forall₂_and_left _ _).mpr ⟨hkept, hread⟩⟩
    refine map_isSome_eq (hall.imp ?_)
    rintro field value ⟨hplain, hkept, ⟨hmissing, rfl⟩ | ⟨n, hn, rfl⟩⟩
    · rw [real?_of_mem_missingMarks field hmissing]
      rfl
    · rw [hplain.signed_real n hn, Option.filter_some, hkept n hn]
      rfl

/-! ## Fields read alike -/

section Rows

variable {α : Type} {rows : List α}

end Rows

/-! ## Plain fields -/

theorem toLower_of_inNumeral {c : Char} (h : InNumeral c) : c.toLower = c := by
  have hc := h.toNat_eq
  unfold Char.toLower
  rw [dif_neg]
  intro hupper
  have hlow : 65 ≤ c.toNat := hupper.1
  have hhigh : c.toNat ≤ 90 := hupper.2
  omega

/-- A truth value is a word of letters. -/
theorem truth?_toString (n : ℤ) : truth? (toString n) = none := by
  have hword : ∀ word : String, (∃ c ∈ word.toList, ¬ InNumeral c) →
      Numeral.lowered (toString n).toList ≠ word := by
    rintro _ ⟨c, hc, hforeign⟩ rfl
    rw [Numeral.lowered, String.toList_ofList] at hc
    obtain ⟨d, hd, rfl⟩ := List.mem_map.mp hc
    have hd := inNumeral_of_mem_toString hd
    rw [toLower_of_inNumeral hd] at hforeign
    exact hforeign hd
  have htrue := hword "true" ⟨'t', by decide, by unfold InNumeral; decide⟩
  have hfalse := hword "false" ⟨'f', by decide, by unfold InNumeral; decide⟩
  unfold truth?
  dsimp only
  rw [if_neg htrue, if_neg hfalse]

theorem plain_toString {n : ℤ} (h : (real? (toString n)).isSome = true) : Plain (toString n) where
  untrue := truth?_toString n
  signed_real _ _ := h
  unsigned_real _ _ := h

/-- The closing word of an instance file is no number of any kind. -/
theorem plain_EOF : Plain "EOF" where
  untrue := by decide +kernel
  signed_real := by
    intro n h
    have : signed "EOF" = .error .notNumeral := by rfl
    rw [this] at h
    cases h
  unsigned_real := by
    intro n h
    have : unsigned "EOF" = .error .notNumeral := by rfl
    rw [this] at h
    cases h

theorem real?_EOF : real? "EOF" = none := by decide +kernel

/-- A whole number as a field, nothing if it is missing. -/
def wholeField (value : Option ℤ) : String := value.elim "" toString

theorem given?_wholeField (value : Option ℤ) : given? (wholeField value) = value.map toString := by
  cases value with
  | none => exact if_pos (by decide : "" ∈ missingMarks)
  | some n => exact if_neg (toString_not_mem_missingMarks n)

/-- Whole numbers of fifteen digits are read as they are, also next to missing ones. -/
theorem ofFields_wholeField {values : List (Option ℤ)}
    (h : ∀ n, some n ∈ values → n.natAbs < 10 ^ 15) :
    ofFields (values.map wholeField) =
      .numbers (values.map fun value => value.map Float.ofInt) := by
  have hgiven : (values.map wholeField).map given? = values.map (Option.map toString) := by
    rw [List.map_map]
    exact List.map_congr_left fun value _ => given?_wholeField value
  have hread : (values.map (Option.map toString)).mapM (fun field => field.mapM signed) =
      .ok values := by
    rw [mapM_eq_ok, List.forall₂_map_left_iff, List.forall₂_same]
    intro value hvalue
    cases value with
    | none => rfl
    | some n =>
        rw [Option.map_some, Option.mapM_some, signed_toString (h n hvalue)]
        rfl
  unfold ofFields
  rw [hgiven]
  dsimp only
  rw [hread]
  dsimp only
  congr 1
  refine List.map_congr_left fun value hvalue => ?_
  cases value with
  | none => rfl
  | some n =>
      -- the least 64-bit number is the mark of a missing one, and it is too long
      have hleast : n ≠ Int64.minValue.toInt := by
        have hmin : Int64.minValue.toInt = -9223372036854775808 := rfl
        have hn := h n hvalue
        omega
      rw [Option.filter_some, beq_false_of_ne hleast]
      simp

/-- What stands in front is chosen, and nothing behind it. -/
theorem select_front {α : Type} (xs ys : List α) :
    (((xs ++ ys).zip (List.replicate xs.length true ++ List.replicate ys.length false)).filter
      Prod.snd).map Prod.fst = xs := by
  induction xs with
  | nil =>
      rw [List.map_eq_nil_iff, List.filter_eq_nil_iff]
      rintro ⟨y, chosen⟩ hmem
      have hchosen : chosen = false := List.eq_of_mem_replicate (List.of_mem_zip hmem).2
      simp [hchosen]
  | cons x xs ih => simpa [List.replicate_succ] using ih

theorem reals_wholeField {xs : List ℤ} (h : ∀ x ∈ xs, x.natAbs < 10 ^ 15) (k : ℕ) :
    (ofFields ((xs.map some ++ List.replicate k none).map wholeField)).reals
      (List.replicate xs.length true ++ List.replicate k false) = .ok (xs.map Float.ofInt) := by
  have hsmall : ∀ n, some n ∈ xs.map some ++ List.replicate k none → n.natAbs < 10 ^ 15 := by
    intro n hn
    exact h n (by simpa using hn)
  have hselect := select_front (xs.map fun x => some (Float.ofInt x)) (List.replicate k none)
  rw [List.length_map, List.length_replicate] at hselect
  rw [ofFields_wholeField hsmall, List.map_append, List.map_map, List.map_replicate,
    Option.map_none]
  show Except.ok ((((xs.map fun x => some (Float.ofInt x)) ++ List.replicate k none).zip _
    |>.filter Prod.snd).map Prod.fst |>.map _) = _
  rw [hselect, List.map_map]
  rfl

end Column

end LargeNeighborhood
