import TypedProperties.Proofs.Directive.Line
import TypedProperties.Proofs.Writing.Datum

/-! The logical lines of a written datum: its declaration, with directives around it. -/
namespace TypedProperties
namespace Lines

open Text

theorem isLine_directive {t : Text} (single : '\n' ∉ t)
    (last : ∀ c ∈ t.getLast?, c ≠ continuation ∧ c ≠ '\r') :
    IsLine (Role.commentMark :: Role.directiveMark :: t) where
  single := by simp [single, Role.commentMark, Role.directiveMark]
  last c hc := by
    rw [List.getLast?_cons_cons] at hc
    cases t with
    | nil =>
      obtain rfl : Role.directiveMark = c := by simpa using hc
      decide
    | cons d t => exact last c (by rwa [List.getLast?_cons_cons] at hc)
  role := by
    simp [Role.ofText_directive]
  shown := by
    have mark : isSpace Role.commentMark = false := by decide
    simp [mark]

theorem isLine_argument {name argument : Text} (single : '\n' ∉ name) (isArgument : argument.IsArgument) :
    IsLine (Role.commentMark :: Role.directiveMark :: (name ++ ' ' :: argument)) := by
  refine isLine_directive ?_ fun c hc => ?_
  · simp [single, isArgument.single]
  · rw [List.getLast?_append, List.getLast?_cons] at hc
    cases last : argument.getLast? with
    | none =>
      obtain rfl : ' ' = c := by simpa [last] using hc
      decide
    | some d =>
      obtain rfl : d = c := by simpa [last] using hc
      refine ⟨fun e => isArgument.unmarked (e ▸ last), ?_⟩
      rintro rfl
      exact absurd (isArgument.tightEnd _ last) (by decide)

/-- A line that starts like a key and ends in no white space is a declaration. -/
theorem isLine_key {key rest : Text} (isKey : key.IsKey) (single : '\n' ∉ rest) (some : rest ≠ [])
    (last : ∀ c ∈ rest.getLast?, isSpace c = false ∧ c ≠ continuation) :
    IsLine (key ++ rest) ∧ Role.ofText (key ++ rest) = .declaration (key ++ rest) := by
  have solid : ∀ c ∈ (key ++ rest).getLast?, isSpace c = false ∧ c ≠ continuation := by
    rw [List.getLast?_append, List.getLast?_eq_some_getLast some]
    rintro c ⟨⟩
    exact last _ (List.getLast?_eq_some_getLast some)
  cases e : key with
  | nil => exact absurd e isKey.some
  | cons k ks =>
    obtain ⟨mark, blank⟩ := isKey.first k (by simp [e])
    have trimmed : trim (key ++ rest) = key ++ rest := by
      refine trim_eq_self ?_ fun c hc => (solid c hc).1
      rw [e]
      rintro c ⟨⟩
      exact blank
    have role : Role.ofText (key ++ rest) = .declaration (key ++ rest) := by
      rw [Role.ofText, trimmed, e]
      simp [mark]
    rw [← e]
    refine ⟨⟨?_, fun c hc => ⟨(solid c hc).2, ?_⟩, ?_, ?_⟩, role⟩
    · simp [isKey.not_mem (c := '\n') (by decide), single]
    · rintro rfl
      exact absurd (solid _ hc).1 (by decide)
    · simp [role]
    · simp [e, blank]

end Lines

namespace Declaration.Shape

open ValueToken

variable {s : Shape} {units : UnitSystem} {realWithUnit : Bool} {key : Text}

def enableLine : Text := Text.ofString "#@enable_real_with_unit"
def disableLine : Text := Text.ofString "#@disable_real_with_unit"

def line (s : Shape) (key row : Text) : Text :=
  key ++ Text.ofString " : " ++ s.datum.typingText (s.unit.map Prod.fst) ++ Text.ofString " =" ++ row

def descriptionLines (d : Datum) : List Text :=
  if d.description = [] then [] else [Text.ofString "#@description " ++ d.description]

def toggleLines (s : Shape) (line : Text) : List Text := if s.unit.isSome then [line] else []

def lines (s : Shape) (key row : Text) : List Text :=
  s.toggleLines enableLine ++ (descriptionLines s.datum ++ [s.line key row] ++ s.toggleLines disableLine)

theorem isLine_line (isKey : key.IsKey) (valid : s.Valid units realWithUnit)
    (single : s.datum.data.SingleLine) {row : Text} (isRow : Row s.texts row) :
    Lines.IsLine (s.line key row) ∧ Role.ofText (s.line key row) = .declaration (s.line key row) := by
  have solid := isSolid_texts valid single
  have typing : '\n' ∉ s.datum.typingText (s.unit.map Prod.fst) := fun mem => by
    have := isTypingChar_of_mem valid mem
    revert this
    decide
  have values : '\n' ∉ row := fun mem => by
    rcases isRow.mem mem with blank | ⟨t, ht, mem⟩
    · exact absurd blank (by decide)
    · exact (solid t ht).single mem
  have e : s.line key row = key ++ (Text.ofString " : " ++
      (s.datum.typingText (s.unit.map Prod.fst) ++ (Text.ofString " =" ++ row))) := by
    simp [line]
  rw [e]
  refine Lines.isLine_key isKey ?_ (by simp [Text.ofString]) fun c hc => ?_
  · simp only [List.mem_append, not_or]
    exact ⟨by decide, typing, by decide, values⟩
  · rw [List.getLast?_append, List.getLast?_append, List.getLast?_append] at hc
    cases last : row.getLast? with
    | some d =>
      have end' := isRow.getLast? (fun t ht => (solid t ht).some) fun t ht => (solid t ht).last
      exact end' c (by simpa [last] using hc)
    | none =>
      have mark : (Text.ofString " =").getLast? = some '=' := by decide
      obtain rfl : '=' = c := by simpa [last, mark] using hc
      decide

theorem says_descriptionLine {d : Datum} (description : d.description.IsArgument) :
    Lines.Says (Datum.descriptionLine d.description) (descriptionLines d) := by
  unfold Datum.descriptionLine descriptionLines
  split_ifs
  · exact Lines.says_nil
  · have single : '\n' ∉ Text.ofString "description" := by decide
    exact Lines.says_line (Lines.isLine_argument single description)

theorem text_eq (wrap : Bool) (key : Text) : s.datum.text wrap key s.unit =
    (if s.unit.isSome then enableLine ++ ['\n'] else []) ++
      (Datum.descriptionLine s.datum.description ++
        (s.line key (Datum.valueBlock wrap (Datum.perLine s.datum.data) s.texts) ++ '\n' ::
          if s.unit.isSome then disableLine ++ ['\n'] else [])) := by
  obtain ⟨⟨data, cardinality, locked, description⟩, unit⟩ := s
  cases unit <;> cases cardinality <;>
    simp [Datum.text, line, texts, factor, enableLine, disableLine, Text.ofString]

/-- What a written datum says, where it is known what its description and its declaration say. -/
theorem says_text_of_says {wrap : Bool} {middle : List Text}
    (h : Lines.Says (Datum.descriptionLine s.datum.description ++
      (s.line key (Datum.valueBlock wrap (Datum.perLine s.datum.data) s.texts) ++ ['\n'])) middle) :
    Lines.Says (s.datum.text wrap key s.unit ++ ['\n'])
      (s.toggleLines enableLine ++ (middle ++ s.toggleLines disableLine)) := by
  have toggle (line : Text) (isLine : Lines.IsLine line) :
      Lines.Says (if s.unit.isSome then line ++ ['\n'] else []) (s.toggleLines line) := by
    unfold toggleLines
    split_ifs
    · exact Lines.says_line isLine
    · exact Lines.says_nil
  have enable := toggle enableLine (Lines.isLine_directive (by decide) (by decide))
  have disable := toggle disableLine (Lines.isLine_directive (by decide) (by decide))
  have whole := enable.append (h.append (disable.append Lines.says_blank))
  simpa [text_eq] using whole

/-- A declaration with its values broken over several lines says the same behind any text. -/
theorem says_declaration (s : Shape) (key : Text) (wrap : Bool) : ∃ row, Row s.texts row ∧ ∀ before,
    Lines.IsLine (before ++ s.line key row) →
      Lines.Says (before ++ (s.line key (Datum.valueBlock wrap (Datum.perLine s.datum.data) s.texts) ++ ['\n']))
        [before ++ s.line key row] := by
  obtain ⟨row, isRow, edits⟩ := Datum.breaks_valueBlock wrap (Datum.perLine s.datum.data) s.texts
  refine ⟨row, isRow, fun before isLine rest => ?_⟩
  rw [← Lines.says_line isLine]
  have same := Lines.significant_of_edits (edits (before ++ s.line key []) ('\n' :: rest))
  simpa [Shape.line] using same

theorem says_text (isKey : key.IsKey) (valid : s.Valid units realWithUnit)
    (single : s.datum.data.SingleLine) (description : s.datum.description.IsArgument) (wrap : Bool) :
    ∃ row, Row s.texts row ∧
      Lines.Says (s.datum.text wrap key s.unit ++ ['\n']) (s.lines key row) := by
  obtain ⟨row, isRow, line⟩ := s.says_declaration key wrap
  refine ⟨row, isRow, ?_⟩
  have declared := line [] (isLine_line isKey valid single isRow).1
  exact says_text_of_says ((says_descriptionLine description).append declared)

/-- A mark at the end of a description takes the declaration into the description. -/
theorem says_text_of_marked (isKey : key.IsKey) (valid : s.Valid units realWithUnit)
    (single : s.datum.data.SingleLine) {description : Text} (oneLine : '\n' ∉ description)
    (marked : s.datum.description = description ++ [Lines.continuation]) (wrap : Bool) :
    ∃ row, Row s.texts row ∧ Lines.Says (s.datum.text wrap key s.unit ++ ['\n'])
      (s.toggleLines enableLine ++ ([Text.ofString "#@description " ++ description ++ s.line key row] ++
        s.toggleLines disableLine)) := by
  obtain ⟨row, isRow, line⟩ := s.says_declaration key wrap
  refine ⟨row, isRow, says_text_of_says ?_⟩
  have isLine := (isLine_line isKey valid single isRow).1
  have some : s.line key row ≠ [] := by simp [Shape.line, isKey.some]
  have whole : Lines.IsLine (Text.ofString "#@description " ++ description ++ s.line key row) := by
    have directive : Lines.IsLine (Role.commentMark :: Role.directiveMark ::
        (Text.ofString "description " ++ description ++ s.line key row)) := by
      refine Lines.isLine_directive ?_ fun c hc => isLine.last c ?_
      · simp only [List.mem_append, not_or]
        exact ⟨⟨by decide, oneLine⟩, isLine.single⟩
      · rw [List.getLast?_append, List.getLast?_eq_some_getLast some] at hc
        rw [List.getLast?_eq_some_getLast some]
        exact hc
    exact directive
  have first : ∃ c ∈ (s.line key (Datum.valueBlock wrap (Datum.perLine s.datum.data) s.texts) ++ ['\n']).head?,
      c ≠ '\n' ∧ c ≠ '\r' := by
    cases e : key with
    | nil => exact absurd e isKey.some
    | cons k ks =>
      have solid := (isKey.first k (by simp [e])).2
      refine ⟨k, by simp [Shape.line], ?_, ?_⟩ <;> (rintro rfl; revert solid; decide)
  have broken := (line _ whole).broken first
  simpa [Datum.descriptionLine, marked] using broken

end Declaration.Shape
end TypedProperties
