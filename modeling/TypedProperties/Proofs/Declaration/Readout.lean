import TypedProperties.Proofs.Declaration.Sound
import TypedProperties.Proofs.Token.Quoted

/-! The values that are read from a segment: as many tokens as the declaration says, the unit behind them if
there may be one, and the text that is left. -/
namespace TypedProperties
namespace ValueToken

variable {source rest : Text} {l first : Lexeme ValueToken} {front ls : List (Lexeme ValueToken)}

/-- The lexeme `l` stands in the source where it says, and scanning from there on gives it and what follows
it. -/
def Stands (source : Text) (l : Lexeme ValueToken) (ls : List (Lexeme ValueToken)) : Prop :=
  ∃ before, source = before ++ l.onward ∧ l.raw <+: l.onward ∧ scan l.onward = l :: ls

theorem stands_of_cons (onward : first.onward = source) (e : first.raw ++ rest = source)
    (scanned : scan source = first :: scan rest)
    (ih : ∀ front, scan rest = front ++ l :: ls → Stands rest l ls) (h : scan source = front ++ l :: ls) :
    Stands source l ls := by
  cases front with
  | nil =>
    obtain ⟨rfl, -⟩ := List.cons.inj (scanned.symm.trans h)
    subst onward
    exact ⟨[], rfl, ⟨rest, e⟩, h⟩
  | cons _ front =>
    obtain ⟨before, here, found⟩ := ih front (List.cons.inj (scanned.symm.trans h)).2
    exact ⟨first.raw ++ before, by rw [List.append_assoc, ← here, e], found⟩

theorem stands_of_scan (h : scan source = front ++ l :: ls) : Stands source l ls := by
  induction source using scan.induct generalizing front with
  | case1 => simp at h
  | case2 c cs gap ih =>
    rw [scan_gap gap] at h
    obtain ⟨before, rfl, found⟩ := ih h
    exact ⟨c :: before, rfl, found⟩
  | case3 cs text raw rest closed _ ih =>
    have e := Quotation.raw_append_rest cs
    rw [closed] at e
    exact stands_of_cons rfl (congrArg ('"' :: ·) e) (scan_quoted closed) (fun _ => ih) h
  | case4 cs raw rest unclosed _ ih =>
    have e := Quotation.raw_append_rest cs
    rw [unclosed] at e
    exact stands_of_cons rfl (congrArg ('"' :: ·) e) (scan_broken unclosed) (fun _ => ih) h
  | case5 cs _ _ ih =>
    have scanned : scan ('#' :: cs) =
        ⟨.comment, '#' :: cs.takeWhile (· ≠ '\n'), '#' :: cs⟩ :: scan (cs.dropWhile (· ≠ '\n')) := by
      rw [scan, if_neg (by decide), if_neg (by decide), if_pos rfl]
    exact stands_of_cons rfl (congrArg ('#' :: ·) List.takeWhile_append_dropWhile) scanned (fun _ => ih) h
  | case6 c cs gap quote mark ih =>
    have scanned : scan (c :: cs) =
        ⟨.word (c :: cs.takeWhile isWordChar), c :: cs.takeWhile isWordChar, c :: cs⟩ ::
          scan (cs.dropWhile isWordChar) := by
      rw [scan, if_neg gap, if_neg quote, if_neg mark]
    exact stands_of_cons rfl (congrArg (c :: ·) List.takeWhile_append_dropWhile) scanned (fun _ => ih) h

end ValueToken

theorem Declaration.exists_clausePart {units : UnitSystem} {realWithUnit : Bool} {line : Text} {d : Declaration}
    (h : ofLine units realWithUnit line = .ok d) :
    ∃ part, ClausePart units realWithUnit d.kind d.size part d.unit := by
  obtain ⟨head, append, values, -, headPart⟩ := declares_of_ofLine h
  generalize tokens (HeadToken.scan (Text.trimEnd head)) = ts at headPart
  cases headPart with
  | head _ typingPart _ =>
    cases typingPart with
    | bare => exact ⟨[], .none⟩
    | typed _ _ clausePart => exact ⟨_, clausePart⟩

namespace Readout

variable {α : Type} {kind : Kind} {key segment : Text} {read : ValueToken → Option α} {n : Nat}
  {ls values behind rest : Rest} {units : UnitSystem} {realWithUnit : Bool} {d : Declaration} {data : Data}

def ReadAs (read : ValueToken → Option α) (ls : Rest) (vs : List α) : Prop :=
  List.Forall₂ (fun l v => read l.token = some v) ls vs

def inUnit (vs : List Float) : Option (Text × Float) → Data
  | none => .real vs none
  | some (symbol, factor) => .real (vs.map (· * factor)) (some symbol)

/-- The data of the first lexemes, and what is left of those behind. -/
inductive Holds (units : UnitSystem) (realWithUnit : Bool) (d : Declaration) :
    (values behind : Rest) → Data → (rest : Rest) → Prop
  | boolean {values behind : Rest} {vs : List Bool} (kind : d.kind = .boolean)
      (reads : ReadAs (plain Text.readBoolean) values vs) :
      Holds units realWithUnit d values behind (.boolean vs) behind
  | integer {values behind : Rest} {vs : List Int32} (kind : d.kind = .integer)
      (reads : ReadAs (plain readInteger) values vs) :
      Holds units realWithUnit d values behind (.integer vs) behind
  | string {values behind : Rest} {vs : List Text} (kind : d.kind = .string) (reads : ReadAs textOf values vs) :
      Holds units realWithUnit d values behind (.string vs (d.unit = .path)) behind
  | symbol {values behind : Rest} {vs : List Float} {symbol : Text} {factor : Float} (kind : d.kind = .real)
      (unit : d.unit = .symbol symbol factor) (reads : ReadAs (plain Decimal.readFloat) values vs) :
      Holds units realWithUnit d values behind (inUnit vs (some (symbol, factor))) behind
  | vector {values behind : Rest} {vs : List Float} {n : Nat} (kind : d.kind = .real) (size : d.size = some n)
      (unit : d.unit = .none) (reads : ReadAs (plain Decimal.readFloat) values vs) :
      Holds units realWithUnit d values behind (inUnit vs none) behind
  | scalar {values behind rest : Rest} {vs : List Float} {unit : Option (Text × Float)} (kind : d.kind = .real)
      (size : d.size = none) (reads : ReadAs (plain Decimal.readFloat) values vs)
      (unitBehind : UnitBehind units realWithUnit d.unit behind unit rest) :
      Holds units realWithUnit d values behind (inUnit vs unit) rest

/-- The text of a segment that is left, unless that is a comment. -/
inductive Trailing (segment : Text) : Rest → Option Text → Prop
  | nothing : Trailing segment [] none
  | comment {l : Lexeme ValueToken} {ls : Rest} (comment : l.token = .comment) : Trailing segment (l :: ls) none
  | text {l : Lexeme ValueToken} {ls : Rest} (other : l.token ≠ .comment) (stands : ValueToken.Stands segment l ls) :
      Trailing segment (l :: ls) (some (Text.trimEnd l.onward))

def Readable : Kind → ValueToken → Prop
  | .boolean, t => ∃ v, plain Text.readBoolean t = some v
  | .integer, t => ∃ v, plain readInteger t = some v
  | .real, t => ∃ v, plain Decimal.readFloat t = some v
  | .string, t => ∃ v, textOf t = some v

/-- Neither a comment nor an open quote reads as a value. -/
structure Solid (read : ValueToken → Option α) : Prop where
  comment : read .comment = none
  broken : read .broken = none

theorem solid_plain (read : Text → Option α) : Solid (plain read) := ⟨rfl, rfl⟩

theorem solid_textOf : Solid textOf := ⟨rfl, rfl⟩

theorem takeValue_of_read (solid : Solid read) (kind : Kind) (key : Text) {l : Lexeme ValueToken} {v : α}
    (h : read l.token = some v) (rest : Rest) : takeValue kind key read (l :: rest) = .ok (v, rest) := by
  cases token : l.token with
  | comment =>
    rw [token, solid.comment] at h
    cases h
  | broken =>
    rw [token, solid.broken] at h
    cases h
  | _ =>
    rw [token] at h
    simp only [takeValue, token, h]

theorem takeValues_iff (solid : Solid read) {vs : List α} :
    takeValues kind key read n ls = .ok (vs, rest) ↔
      ∃ first, ls = first ++ rest ∧ first.length = n ∧ ReadAs read first vs := by
  constructor
  · intro taken
    obtain ⟨first, rfl, length, reads⟩ := takeValues_eq taken
    exact ⟨first, rfl, reads.length_eq.trans length, reads⟩
  · rintro ⟨first, rfl, rfl, reads⟩
    induction reads with
    | nil => rfl
    | cons here _ ih =>
      rw [List.length_cons, takeValues, List.cons_append, takeValue_of_read solid kind key here]
      simp only [ih]

theorem map_takeValues_iff {β : Type} (solid : Solid read) {f : List α → β} {x : β} :
    (takeValues kind key read n ls).map (fun r => (f r.1, r.2)) = .ok (x, rest) ↔
      ∃ values behind, ls = values ++ behind ∧ values.length = n ∧
        rest = behind ∧ ∃ vs, ReadAs read values vs ∧ x = f vs := by
  constructor
  · intro taken
    obtain ⟨⟨vs, rest'⟩, found, e⟩ := map_eq_ok.mp taken
    obtain ⟨rfl, rfl⟩ := Prod.mk.inj e
    obtain ⟨values, here, length, reads⟩ := (takeValues_iff solid).mp found
    exact ⟨values, rest', here, length, rfl, vs, reads, rfl⟩
  · rintro ⟨values, _, here, length, rfl, vs, reads, rfl⟩
    rw [(takeValues_iff solid).mpr ⟨values, here, length, reads⟩]
    rfl

theorem takeReals_symbol {symbol : Text} {factor : Float} (clause : d.unit = .symbol symbol factor) (ls : Rest) :
    takeReals units realWithUnit d ls = (takeValues .real d.key (plain Decimal.readFloat) (d.size.getD 1) ls).map
      fun r => (inUnit r.1 (some (symbol, factor)), r.2) := by
  rw [takeReals]
  cases takeValues .real d.key (plain Decimal.readFloat) (d.size.getD 1) ls with
  | error fault => rfl
  | ok r => simp only [clause]; rfl

theorem takeReals_vector (clause : d.unit = .none) (size : d.size = some n) (ls : Rest) :
    takeReals units realWithUnit d ls = (takeValues .real d.key (plain Decimal.readFloat) (d.size.getD 1) ls).map
      fun r => (inUnit r.1 none, r.2) := by
  rw [takeReals]
  cases takeValues .real d.key (plain Decimal.readFloat) (d.size.getD 1) ls with
  | error fault => rfl
  | ok r => simp only [clause, size]; rfl

theorem takeReals_scalar (clause : ∀ symbol factor, d.unit ≠ .symbol symbol factor) (size : d.size = none)
    (ls : Rest) :
    takeReals units realWithUnit d ls = (takeValues .real d.key (plain Decimal.readFloat) (d.size.getD 1) ls).bind
      fun r => (takeUnit units realWithUnit d.key d.unit r.2).map fun u => (inUnit r.1 u.1, u.2) := by
  rw [takeReals]
  cases takeValues .real d.key (plain Decimal.readFloat) (d.size.getD 1) ls with
  | error fault => rfl
  | ok r =>
    simp only [size, Except.bind]
    cases unit : d.unit with
    | symbol symbol factor => exact absurd unit (clause symbol factor)
    | _ => rcases takeUnit units realWithUnit d.key _ r.2 with fault | ⟨_ | ⟨symbol, factor⟩, rest⟩ <;> rfl

theorem holds_boolean_iff (kind : d.kind = .boolean) : Holds units realWithUnit d values behind data rest ↔
    rest = behind ∧ ∃ vs, ReadAs (plain Text.readBoolean) values vs ∧ data = .boolean vs := by
  constructor
  · intro holds
    cases holds <;> simp_all
  · rintro ⟨rfl, vs, reads, rfl⟩
    exact .boolean kind reads

theorem holds_integer_iff (kind : d.kind = .integer) : Holds units realWithUnit d values behind data rest ↔
    rest = behind ∧ ∃ vs, ReadAs (plain readInteger) values vs ∧ data = .integer vs := by
  constructor
  · intro holds
    cases holds <;> simp_all
  · rintro ⟨rfl, vs, reads, rfl⟩
    exact .integer kind reads

theorem holds_string_iff (kind : d.kind = .string) : Holds units realWithUnit d values behind data rest ↔
    rest = behind ∧ ∃ vs, ReadAs textOf values vs ∧ data = .string vs (d.unit = .path) := by
  constructor
  · intro holds
    cases holds <;> simp_all
  · rintro ⟨rfl, vs, reads, rfl⟩
    exact .string kind reads

theorem holds_symbol_iff {symbol : Text} {factor : Float} (kind : d.kind = .real)
    (clause : d.unit = .symbol symbol factor) (size : d.size = some n) :
    Holds units realWithUnit d values behind data rest ↔ rest = behind ∧
      ∃ vs, ReadAs (plain Decimal.readFloat) values vs ∧ data = inUnit vs (some (symbol, factor)) := by
  constructor
  · intro holds
    cases holds with
    | symbol _ given reads =>
      obtain ⟨rfl, rfl⟩ := UnitClause.symbol.inj (given.symm.trans clause)
      exact ⟨rfl, _, reads, rfl⟩
    | _ => simp_all
  · rintro ⟨rfl, vs, reads, rfl⟩
    exact .symbol kind clause reads

theorem holds_vector_iff (kind : d.kind = .real) (clause : d.unit = .none) (size : d.size = some n) :
    Holds units realWithUnit d values behind data rest ↔ rest = behind ∧
      ∃ vs, ReadAs (plain Decimal.readFloat) values vs ∧ data = inUnit vs none := by
  constructor
  · intro holds
    cases holds with
    | vector _ _ _ reads => exact ⟨rfl, _, reads, rfl⟩
    | _ => simp_all
  · rintro ⟨rfl, vs, reads, rfl⟩
    exact .vector kind size clause reads

theorem holds_scalar_iff (kind : d.kind = .real) (clause : ∀ symbol factor, d.unit ≠ .symbol symbol factor)
    (size : d.size = none) : Holds units realWithUnit d values behind data rest ↔
      ∃ vs unit, ReadAs (plain Decimal.readFloat) values vs ∧
        UnitBehind units realWithUnit d.unit behind unit rest ∧ data = inUnit vs unit := by
  constructor
  · intro holds
    cases holds with
    | scalar _ _ reads unitBehind => exact ⟨_, _, reads, unitBehind, rfl⟩
    | symbol _ given _ => exact absurd given (clause _ _)
    | _ => simp_all
  · rintro ⟨vs, unit, reads, unitBehind, rfl⟩
    exact .scalar kind size reads unitBehind

/-- Where a declaration of reals can have a clause: a symbol is one of a vector, and a label one of a scalar. -/
def ClearlyReal (d : Declaration) : Prop :=
  (∃ symbol factor n, d.unit = .symbol symbol factor ∧ d.size = some n) ∨
    (d.unit = .none ∧ ∃ n, d.size = some n) ∨
    (∀ symbol factor, d.unit ≠ .symbol symbol factor) ∧ d.size = none

theorem takeData_iff (clear : d.kind = .real → ClearlyReal d) :
    takeData units realWithUnit d ls = .ok (data, rest) ↔ ∃ values behind, ls = values ++ behind ∧
      values.length = d.size.getD 1 ∧ Holds units realWithUnit d values behind data rest := by
  unfold takeData
  cases kind : d.kind with
  | boolean =>
    simp only [holds_boolean_iff kind]
    exact map_takeValues_iff (solid_plain _)
  | integer =>
    simp only [holds_integer_iff kind]
    exact map_takeValues_iff (solid_plain _)
  | string =>
    simp only [holds_string_iff kind]
    exact map_takeValues_iff solid_textOf (f := fun vs => Data.string vs (d.unit = .path))
  | real =>
    rcases clear kind with ⟨symbol, factor, n, clause, size⟩ | ⟨clause, n, size⟩ | ⟨clause, size⟩
    · simp only [takeReals_symbol clause, holds_symbol_iff kind clause size]
      exact map_takeValues_iff (solid_plain _) (f := fun vs => inUnit vs (some (symbol, factor)))
    · simp only [takeReals_vector clause size, holds_vector_iff kind clause size]
      exact map_takeValues_iff (solid_plain _) (f := fun vs => inUnit vs none)
    · simp only [takeReals_scalar clause size, holds_scalar_iff kind clause size]
      constructor
      · intro taken
        obtain ⟨⟨vs, behind⟩, found, taken⟩ := bind_eq_ok.mp taken
        obtain ⟨⟨unit, rest'⟩, behind', e⟩ := map_eq_ok.mp taken
        obtain ⟨rfl, rfl⟩ := Prod.mk.inj e
        obtain ⟨values, here, length, reads⟩ := (takeValues_iff (solid_plain _)).mp found
        exact ⟨values, behind, here, length, vs, unit, reads, takeUnit_iff.mp behind', rfl⟩
      · rintro ⟨values, behind, here, length, vs, unit, reads, unitBehind, rfl⟩
        rw [(takeValues_iff (solid_plain _)).mpr ⟨values, here, length, reads⟩]
        simp only [Except.bind, takeUnit_iff.mpr unitBehind]
        rfl

theorem clearlyReal_of_ofLine {units : UnitSystem} {realWithUnit : Bool} {line : Text}
    (h : Declaration.ofLine units realWithUnit line = .ok d) (real : d.kind = .real) : ClearlyReal d := by
  obtain ⟨part, clausePart⟩ := Declaration.exists_clausePart h
  rw [real] at clausePart
  generalize size : d.size = n at clausePart
  generalize clause : d.unit = c at clausePart
  cases clausePart with
  | none =>
    cases n with
    | none => exact .inr (.inr ⟨by simp [clause], size⟩)
    | some n => exact .inr (.inl ⟨clause, n, size⟩)
  | label => exact .inr (.inr ⟨by simp [clause], size⟩)
  | symbol => exact .inl ⟨_, _, _, clause, size⟩

theorem suffix_of_holds (holds : Holds units realWithUnit d values behind data rest) : rest <:+ behind := by
  cases holds with
  | scalar _ _ _ unitBehind =>
    cases unitBehind with
    | unit => exact List.suffix_cons _ _
    | _ => exact List.suffix_rfl
  | _ => exact List.suffix_rfl

theorem trailing_iff {front : Rest} {t : Option Text} (h : ValueToken.scan segment = front ++ rest) :
    Trailing segment rest t ↔ trailingOf rest = t := by
  constructor
  · intro trailing
    cases trailing with
    | nothing => rfl
    | comment comment => rw [trailingOf, if_pos comment]
    | text other => rw [trailingOf, if_neg other]
  · rintro rfl
    cases rest with
    | nil => exact .nothing
    | cons l ls =>
      by_cases comment : l.token = .comment
      · rw [trailingOf, if_pos comment]
        exact .comment comment
      · rw [trailingOf, if_neg comment]
        exact .text comment (ValueToken.stands_of_scan h)

theorem exists_readAs_iff : (∃ vs, ReadAs read ls vs) ↔ ∀ l ∈ ls, ∃ v, read l.token = some v := by
  constructor
  · rintro ⟨vs, reads⟩
    induction reads with
    | nil => simp
    | cons here _ ih => exact List.forall_mem_cons.mpr ⟨⟨_, here⟩, ih⟩
  · intro each
    induction ls with
    | nil => exact ⟨[], .nil⟩
    | cons l ls ih =>
      obtain ⟨⟨v, here⟩, behind⟩ := List.forall_mem_cons.mp each
      obtain ⟨vs, reads⟩ := ih behind
      exact ⟨v :: vs, .cons here reads⟩

/-- The first lexemes hold data if and only if all are values of the kind, and a real scalar has nothing, a
comment or a unit behind it. -/
theorem exists_holds_iff (clear : d.kind = .real → ClearlyReal d) :
    (∃ data rest, Holds units realWithUnit d values behind data rest) ↔
      (∀ l ∈ values, Readable d.kind l.token) ∧
      (d.kind = .real → d.size = none → ∃ unit rest, UnitBehind units realWithUnit d.unit behind unit rest) := by
  cases kind : d.kind <;> simp only [Readable, ← exists_readAs_iff]
  case boolean => simp [holds_boolean_iff kind]
  case integer => simp [holds_integer_iff kind]
  case string => simp [holds_string_iff kind]
  case real =>
    rcases clear kind with ⟨symbol, factor, n, clause, size⟩ | ⟨clause, n, size⟩ | ⟨clause, size⟩
    · simp [holds_symbol_iff kind clause size, size]
    · simp [holds_vector_iff kind clause size, size]
    · simp only [holds_scalar_iff kind clause size, size]
      constructor
      · rintro ⟨_, rest, vs, unit, reads, unitBehind, -⟩
        exact ⟨⟨vs, reads⟩, fun _ _ => ⟨unit, rest, unitBehind⟩⟩
      · rintro ⟨⟨vs, reads⟩, ends⟩
        obtain ⟨unit, rest, unitBehind⟩ := ends trivial trivial
        exact ⟨_, rest, vs, unit, reads, unitBehind, rfl⟩

theorem trailing_of_holds {t : Option Text} (scanned : ValueToken.scan segment = values ++ behind)
    (holds : Holds units realWithUnit d values behind data rest) :
    Trailing segment rest t ↔ trailingOf rest = t := by
  obtain ⟨unit, rfl⟩ := suffix_of_holds holds
  exact trailing_iff (by rw [scanned, ← List.append_assoc])

/-- What is read from a segment is what its first lexemes hold and the text that is left behind them. -/
theorem ofSegment_eq_ok {readout : Readout} (clear : d.kind = .real → ClearlyReal d) :
    ofSegment units realWithUnit d segment = .ok readout ↔ ∃ values behind rest,
      ValueToken.scan segment = values ++ behind ∧ values.length = d.size.getD 1 ∧
        Holds units realWithUnit d values behind readout.data rest ∧ Trailing segment rest readout.trailing := by
  constructor
  · intro found
    obtain ⟨⟨data, rest⟩, taken, rfl⟩ := map_eq_ok.mp found
    obtain ⟨values, behind, scanned, length, holds⟩ := (takeData_iff clear).mp taken
    exact ⟨values, behind, rest, scanned, length, holds, (trailing_of_holds scanned holds).mpr rfl⟩
  · rintro ⟨values, behind, rest, scanned, length, holds, trailing⟩
    rw [ofSegment, (takeData_iff clear).mpr ⟨values, behind, scanned, length, holds⟩, Except.map,
      (trailing_of_holds scanned holds).mp trailing]

/-- A declaration is read with as many values as it declares: the first tokens of the segment, if all of them
are values of its kind, and a real scalar has nothing, a comment or a known unit behind it. The data are what
these tokens hold, and what is left of the segment is the text from the next one on, unless that is a comment. -/
theorem values_are_read_as_declared {declaring : UnitSystem} {withUnit : Bool} {line : Text}
    (declared : Declaration.ofLine declaring withUnit line = .ok d) (units : UnitSystem) (realWithUnit : Bool)
    (segment : Text) :
    (∀ readout, ofSegment units realWithUnit d segment = .ok readout ↔ ∃ values behind rest,
      ValueToken.scan segment = values ++ behind ∧ values.length = d.size.getD 1 ∧
        Holds units realWithUnit d values behind readout.data rest ∧ Trailing segment rest readout.trailing) ∧
    ((∃ readout, ofSegment units realWithUnit d segment = .ok readout) ↔ ∃ values behind,
      ValueToken.scan segment = values ++ behind ∧ values.length = d.size.getD 1 ∧
        (∀ l ∈ values, Readable d.kind l.token) ∧
        (d.kind = .real → d.size = none →
          ∃ unit rest, UnitBehind units realWithUnit d.unit behind unit rest)) := by
  have clear := clearlyReal_of_ofLine declared
  refine ⟨fun _ => ofSegment_eq_ok clear, ?_⟩
  constructor
  · rintro ⟨readout, found⟩
    obtain ⟨values, behind, rest, scanned, length, holds, -⟩ := (ofSegment_eq_ok clear).mp found
    exact ⟨values, behind, scanned, length, (exists_holds_iff clear).mp ⟨_, rest, holds⟩⟩
  · rintro ⟨values, behind, scanned, length, fits⟩
    obtain ⟨data, rest, holds⟩ := (exists_holds_iff clear).mpr fits
    have trailing := (trailing_of_holds (t := trailingOf rest) scanned holds).mpr rfl
    exact ⟨⟨data, trailingOf rest⟩,
      (ofSegment_eq_ok clear).mpr ⟨values, behind, rest, scanned, length, holds, trailing⟩⟩

/-- Two integers are read, and what stands behind them is left over. -/
theorem integers_are_read_as_declared :
    let line := Text.ofString "k : integer[2] = 1 2 3 # c"
    let d : Declaration := ⟨['k'], .declare, false, .integer, some 2, .none, Text.ofString "1 2 3 # c"⟩
    Declaration.ofLine StandardUnits.system true line = .ok d ∧
      ofSegment StandardUnits.system true d d.values = .ok ⟨.integer [1, 2], some (Text.ofString "3 # c")⟩ ∧
      ∃ values behind rest, ValueToken.scan d.values = values ++ behind ∧ values.length = 2 ∧
        Holds StandardUnits.system true d values behind (.integer [1, 2]) rest ∧
        Trailing d.values rest (some (Text.ofString "3 # c")) := by
  intro line d
  have declared : Declaration.ofLine StandardUnits.system true line = .ok d := by decide +kernel
  have found : ofSegment StandardUnits.system true d d.values =
      .ok ⟨.integer [1, 2], some (Text.ofString "3 # c")⟩ := by decide +kernel
  obtain ⟨read, -⟩ := values_are_read_as_declared declared StandardUnits.system true d.values
  exact ⟨declared, found, (read _).mp found⟩

end Readout
end TypedProperties
