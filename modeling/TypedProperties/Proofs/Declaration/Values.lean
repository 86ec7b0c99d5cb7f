import TypedProperties.Declaration.Values
import TypedProperties.Proofs.Declaration.Head
import TypedProperties.Proofs.Decimal.Layout

/-! The written values of a datum read back. -/
namespace TypedProperties
namespace Readout

open ValueToken

variable {α : Type} {kind : Kind} {key : Text} {read : ValueToken → Option α} {render : α → Text}
  {token : α → ValueToken}

/-- Values that are written as tokens of their own, and read back from these. -/
structure Written (read : ValueToken → Option α) (render : α → Text) (token : α → ValueToken) :
    Prop where
  spells : ∀ v, Spells (render v) (token v)
  value : ∀ v, (textOf (token v)).isSome = true
  read : ∀ v, read (token v) = some v

theorem takeValue_written (h : Written read render token) (v : α) (raw onward : Text) (rest : Rest) :
    takeValue kind key read (⟨token v, raw, onward⟩ :: rest) = .ok (v, rest) := by
  have value := h.value v
  have read := h.read v
  simp only [takeValue]
  split
  next t => simp [t, textOf] at value
  next t => simp [t, textOf] at value
  · rw [read]

theorem takeValues_written (kind : Kind) (key : Text) (h : Written read render token) {vs : List α} {t r : Text}
    (row : Row (vs.map render) t) (gap : AtGap r) :
    takeValues kind key read vs.length (scan (t ++ r)) = .ok (vs, scan r) := by
  induction vs generalizing t with
  | nil =>
    cases row
    rfl
  | cons v vs ih =>
    cases row with
    | cons _ some spaces row =>
      rw [List.append_assoc, List.append_assoc, scan_spaces spaces, h.spells v _ (row.atGap gap),
        List.length_cons, takeValues, takeValue_written h]
      simp only [ih row]

theorem written_boolean :
    Written (plain Text.readBoolean) Text.ofBoolean fun b => .word (Text.ofBoolean b) where
  spells b := (Text.isPlain_ofBoolean b).spells
  value _ := rfl
  read b := Text.readBoolean_ofBoolean b

theorem readInteger_ofInt (v : Int32) : readInteger (Text.ofInt v.toInt) = some v := by
  rw [readInteger, Text.readSigned_ofInt (Nat.pow 2 31) v.minValue_le_toInt v.toInt_lt]
  simp

theorem written_integer : Written (plain readInteger) (fun v : Int32 => Text.ofInt v.toInt)
    fun v => .word (Text.ofInt v.toInt) where
  spells v := (Text.isPlain_ofInt v.toInt).spells
  value _ := rfl
  read v := readInteger_ofInt v

theorem written_string : Written textOf quote .quoted where
  spells := spells_quote
  value _ := rfl
  read _ := rfl

theorem readable_realLayout : Datum.realLayout.Readable where
  nan := by decide +kernel
  infinity := by decide +kernel
  negativeInfinity := by decide +kernel

theorem isPlain_realText (x : Float) : (Datum.realText x).IsPlain := by
  refine Decimal.isPlain_text ?_ ?_ ?_ x <;> unfold Text.IsPlain <;> decide

theorem written_real :
    Written (plain Decimal.readFloat) Datum.realText fun x => .word (Datum.realText x) where
  spells x := (isPlain_realText x).spells
  value _ := rfl
  read x := Decimal.readFloat_text readable_realLayout x

theorem takeUnit_written (key : Text) {units : UnitSystem} {symbol : Text} {measure : Measure} (plain : symbol.IsPlain)
    (known : units.find? symbol = some measure) :
    takeUnit units true key .none (scan (' ' :: symbol)) =
      .ok (some (symbol, measure.factor), []) := by
  have lexeme : scan symbol = [⟨.word symbol, symbol, symbol⟩] := by
    simpa using plain.spells [] atGap_nil
  rw [scan_gap (by decide), lexeme]
  simp [takeUnit, textOf, known]

end Readout

namespace Declaration.Shape

open ValueToken Readout

variable (s : Shape)

def factor : Float := (s.unit.map Prod.snd).getD 1.0

/-- The written values; the unit of a scalar stands behind its value. -/
def texts : List Text :=
  match s.unit.map Prod.fst, s.datum.cardinality with
  | some symbol, .scalar => (Datum.valueTexts s.factor s.datum.data).map (· ++ ' ' :: symbol)
  | _, _ => Datum.valueTexts s.factor s.datum.data

/-- The data that the written values stand for: reals are as near as their unit allows. -/
def reread : Data :=
  match s.unit, s.datum.data with
  | some (symbol, factor), .real vs _ => .real (vs.map fun v => v / factor * factor) (some symbol)
  | _, data => data

def declaration (key values : Text) : Declaration :=
  ⟨key, .declare, s.datum.locked, s.datum.data.kind, s.size, s.clause, values⟩

variable {s} {units : UnitSystem} {realWithUnit : Bool} {key : Text} {values t : Text}

theorem getD_size (valid : s.Valid units realWithUnit) : s.size.getD 1 = s.datum.data.size := by
  unfold size
  cases h : s.datum.cardinality with
  | vector => simp [Datum.isVector, h]
  | scalar => simpa [Datum.isVector, h] using (valid.single h).symm

theorem unit_eq_none (valid : s.Valid units realWithUnit) (h : s.datum.data.kind ≠ .real) :
    s.unit = none := by
  cases unit : s.unit with
  | none => rfl
  | some u => exact absurd (valid.unit u unit).2.2.1 h

theorem texts_of_none (h : s.unit = none) : s.texts = Datum.valueTexts 1.0 s.datum.data := by
  simp [texts, factor, h]

theorem reread_of_none (h : s.unit = none) : s.reread = s.datum.data := by
  simp [reread, h]

theorem takeValues_texts {α : Type} (kind : Kind) (key : Text) {read : ValueToken → Option α} {render : α → Text}
    {token : α → ValueToken} (h : Written read render token) (valid : s.Valid units realWithUnit)
    {vs : List α} (size : s.datum.data.size = vs.length) (row : Row (vs.map render) t) :
    takeValues kind key read (s.size.getD 1) (scan t) = .ok (vs, []) := by
  have taken := takeValues_written kind key h row atGap_nil
  rw [getD_size valid, size]
  simpa using taken

theorem takeReals_bare (valid : s.Valid units realWithUnit) {vs : List Float}
    (data : s.datum.data = .real vs none) (unit : s.unit = none) (row : Row s.texts t) :
    takeReals units realWithUnit (s.declaration key values) (scan t) = .ok (.real vs none, []) := by
  have texts : s.texts = vs.map Datum.realText := by
    rw [texts_of_none unit, data]
    simp [Datum.valueTexts, Binary.div_one]
  have clause : s.clause = .none := by simp [clause, unit, data, Data.isPath]
  rw [texts] at row
  have taken := takeValues_texts .real key written_real valid
    (by rw [data]; rfl) row
  dsimp only [takeReals, declaration]
  rw [taken, clause]
  cases s.size <;> rfl

theorem takeReals_vector (valid : s.Valid units realWithUnit) {vs : List Float} {u : Option Text}
    (data : s.datum.data = .real vs u) {symbol : Text} {factor : Float}
    (unit : s.unit = some (symbol, factor)) (vector : s.datum.cardinality = .vector)
    (row : Row s.texts t) :
    takeReals units realWithUnit (s.declaration key values) (scan t) = .ok (s.reread, []) := by
  have texts : s.texts = (vs.map (· / factor)).map Datum.realText := by
    simp [texts, Shape.factor, unit, vector, data, Datum.valueTexts]
  have clause : s.clause = .symbol symbol factor := by
    simp [clause, unit, data, Data.isPath, Datum.isVector, vector]
  rw [texts] at row
  have taken := takeValues_texts .real key written_real valid
    (by rw [data, List.length_map]; rfl) row
  dsimp only [takeReals, declaration]
  rw [taken, clause]
  simp [reread, unit, data]

theorem takeReals_scalar (valid : s.Valid units realWithUnit) {vs : List Float} {u : Option Text}
    (data : s.datum.data = .real vs u) {symbol : Text} {factor : Float}
    (unit : s.unit = some (symbol, factor)) (scalar : s.datum.cardinality = .scalar)
    (row : Row s.texts t) :
    takeReals units realWithUnit (s.declaration key values) (scan t) = .ok (s.reread, []) := by
  obtain ⟨plain, ⟨measure, known, rfl⟩, -, rfl⟩ := valid.unit _ unit
  have single : vs.length = 1 := by simpa [data, Data.size] using valid.single scalar
  obtain ⟨v, rfl⟩ := List.length_eq_one_iff.mp single
  have texts : s.texts = [Datum.realText (v / measure.factor) ++ ' ' :: symbol] := by
    simp [texts, Shape.factor, unit, scalar, data, Datum.valueTexts]
  have size : s.size = none := by simp [size, Datum.isVector, scalar]
  have clause : s.clause = .none := by
    simp [clause, unit, data, Data.isPath, Datum.isVector, scalar]
  rw [texts] at row
  cases row with
  | cons _ some spaces rest =>
    cases rest with
    | nil =>
      have value : Row ([v / measure.factor].map Datum.realText) _ := .cons _ some spaces .nil
      have taken := takeValues_written .real key written_real value
        (atGap_space symbol)
      have found := takeUnit_written key plain known
      dsimp only [takeReals, declaration]
      simp only [List.append_nil, List.append_assoc, List.length_singleton] at taken ⊢
      rw [size, Option.getD_none, taken, clause]
      simp [found, reread, unit, data]

theorem takeData_written (valid : s.Valid units realWithUnit) (row : Row s.texts t) :
    takeData units realWithUnit (s.declaration key values) (scan t) = .ok (s.reread, []) := by
  cases data : s.datum.data with
  | boolean vs =>
    have unit := unit_eq_none valid (by rw [data]; nofun)
    rw [texts_of_none unit, data] at row
    have taken := takeValues_texts .boolean key written_boolean valid
      (by rw [data]; rfl) row
    dsimp only [takeData, declaration]
    rw [data, reread_of_none unit, data]
    exact congrArg (Except.map _) taken
  | integer vs =>
    have unit := unit_eq_none valid (by rw [data]; nofun)
    rw [texts_of_none unit, data] at row
    have taken := takeValues_texts .integer key written_integer valid
      (by rw [data]; rfl) row
    dsimp only [takeData, declaration]
    rw [data, reread_of_none unit, data]
    exact congrArg (Except.map _) taken
  | string vs path =>
    have unit := unit_eq_none valid (by rw [data]; nofun)
    have clause : decide (s.clause = .path) = path := by
      cases path <;> simp [clause, unit, data, Data.isPath]
    rw [texts_of_none unit, data] at row
    have taken := takeValues_texts .string key written_string valid
      (by rw [data]; rfl) row
    dsimp only [takeData, declaration]
    rw [data, reread_of_none unit, data, clause]
    exact congrArg (Except.map _) taken
  | real vs u =>
    have reals : takeData units realWithUnit (s.declaration key values) (scan t) =
        takeReals units realWithUnit (s.declaration key values) (scan t) := by
      simp [takeData, declaration, data, Data.kind]
    rw [reals]
    cases unit : s.unit with
    | none =>
      obtain rfl : u = none := by simpa [data, Data.unit] using valid.bare unit
      rw [reread_of_none unit, data]
      exact takeReals_bare valid data unit row
    | some chosen =>
      cases size : s.datum.cardinality with
      | vector => exact takeReals_vector valid data unit size row
      | scalar => exact takeReals_scalar valid data unit size row

theorem ofSegment_written (key values : Text) (valid : s.Valid units realWithUnit) (row : Row s.texts t) :
    ofSegment units realWithUnit (s.declaration key values) t = .ok ⟨s.reread, none⟩ := by
  rw [ofSegment, takeData_written valid row]
  rfl

end Declaration.Shape
end TypedProperties
