import TypedProperties.Include.Environment
import TypedProperties.Proofs.Fallible

/-! When references to environment variables can be replaced, and by what. -/
namespace TypedProperties
namespace PathPiece

/-- The variable that a piece refers to. -/
def name? : PathPiece → Option Text
  | .char _ => none
  | .braced name => some name
  | .bare name => some name

/-- Whether the variable that a piece refers to, if it does to one, is set to a text. -/
def HasValue (world : World) (piece : PathPiece) : Prop := ∀ name ∈ piece.name?, ∃ v, world.value? name = some v

variable {world : World} {piece : PathPiece} {pieces : List PathPiece} {name s v : Text}

theorem name?_eq_none : piece.name? = none ↔ ∃ c, piece = .char c := by
  cases piece <;> simp [name?]

theorem value_of_name? (refers : piece.name? = some name) :
    value world piece = (world.value? name).elim (.error name) .ok := by
  cases piece with
  | char c => cases refers
  | braced other =>
    obtain rfl := Option.some.inj refers
    rfl
  | bare other =>
    obtain rfl := Option.some.inj refers
    rfl

theorem elim_eq_ok {found : Option Text} : found.elim (.error name) .ok = (.ok v : Except Text Text) ↔ found = some v := by
  cases found <;> simp

theorem elim_eq_error {found : Option Text} {other : Text} :
    found.elim (.error other) .ok = (.error name : Except Text Text) ↔ other = name ∧ found = none := by
  cases found <;> simp

theorem value_eq_error : value world piece = .error name ↔ piece.name? = some name ∧ world.value? name = none := by
  constructor
  · intro failed
    cases refers : piece.name? with
    | none =>
      obtain ⟨c, rfl⟩ := name?_eq_none.mp refers
      cases failed
    | some other =>
      rw [value_of_name? refers, elim_eq_error] at failed
      obtain ⟨rfl, unset⟩ := failed
      exact ⟨rfl, unset⟩
  · rintro ⟨refers, unset⟩
    rw [value_of_name? refers]
    exact elim_eq_error.mpr ⟨rfl, unset⟩

theorem exists_value_eq_ok : (∃ v, value world piece = .ok v) ↔ piece.HasValue world := by
  cases refers : piece.name? with
  | none =>
    obtain ⟨c, rfl⟩ := name?_eq_none.mp refers
    exact ⟨fun _ => nofun, fun _ => ⟨[c], rfl⟩⟩
  | some name => simp [HasValue, refers, value_of_name? refers, elim_eq_ok]

theorem values_eq (world : World) (pieces : List PathPiece) :
    values world pieces = (pieces.mapM (value world)).map List.flatten := by
  induction pieces with
  | nil => rfl
  | cons piece rest ih =>
    rw [values, ih, List.mapM_cons]
    cases value world piece with
    | error name => rfl
    | ok v => cases rest.mapM (value world) <;> rfl

theorem values_eq_error : values world pieces = .error name ↔
    ∃ before piece after, pieces = before ++ piece :: after ∧ (∀ b ∈ before, b.HasValue world) ∧
      piece.name? = some name ∧ world.value? name = none := by
  simp only [values_eq, map_eq_error, mapM_eq_error, exists_value_eq_ok, value_eq_error]

theorem exists_values_eq_ok : (∃ s, values world pieces = .ok s) ↔ ∀ piece ∈ pieces, piece.HasValue world := by
  simp only [values_eq, map_eq_ok, ← exists_value_eq_ok, ← exists_mapM_eq_ok]
  exact ⟨fun ⟨_, parts, done, _⟩ => ⟨parts, done⟩, fun ⟨parts, done⟩ => ⟨parts.flatten, parts, done, rfl⟩⟩

end PathPiece

/-- A text cannot be expanded just when it refers to a variable that is not set to a text. -/
theorem World.exists_expand_eq_error {world : World} {t : Text} :
    (∃ name, world.expand t = .error name) ↔
      ∃ piece ∈ PathPiece.scan t, ∃ name, piece.name? = some name ∧ world.value? name = none := by
  constructor
  · rintro ⟨name, failed⟩
    obtain ⟨before, piece, after, whole, -, refers, unset⟩ := PathPiece.values_eq_error.mp failed
    exact ⟨piece, by simp [whole], name, refers, unset⟩
  · rintro ⟨piece, mem, name, refers, unset⟩
    cases done : world.expand t with
    | error other => exact ⟨other, rfl⟩
    | ok s =>
      obtain ⟨v, set⟩ := PathPiece.exists_values_eq_ok.mp ⟨s, done⟩ piece mem name refers
      cases unset.symm.trans set

end TypedProperties
