import TypedProperties.Decimal.Numeral
import TypedProperties.Declaration.Head
import TypedProperties.Text.Boolean
import TypedProperties.Token.Value

/-! The values of a declaration: one token each, as many as the head declares. A real scalar may
have a unit symbol behind its value. -/
namespace TypedProperties

inductive ValueFault where
  | missing (kind : Kind) (key : Text)
  | unreadable (kind : Kind) (text key : Text)
  | unreadableUnit (text key : Text)
  | unitsDisabled (word key : Text)
  | unknownUnit (symbol key : Text)
  | wrongLabel (symbol key label expected : Text)
  deriving DecidableEq, Repr

namespace ValueFault

def kind : ValueFault → FaultKind
  | .unknownUnit _ _ => .unresolved
  | .wrongLabel _ _ _ _ => .forbidden
  | _ => .malformed

def message : ValueFault → String
  | .missing kind key => s!"missing {kind.label} value for key '{key.str}'"
  | .unreadable kind text key =>
    s!"cannot read {kind.label} value from '{text.str}' for key '{key.str}'"
  | .unreadableUnit text key => s!"cannot read unit symbol from '{text.str}' for key '{key.str}'"
  | .unitsDisabled word key =>
    s!"trailing token '{word.str}' is not allowed for real value with key '{key.str}'; " ++
      "the 'real with unit' feature is disabled"
  | .unknownUnit symbol key => s!"invalid unit symbol '{symbol.str}' for key '{key.str}'"
  | .wrongLabel symbol key label expected =>
    s!"unit symbol '{symbol.str}' of key '{key.str}' is a {label.str} unit, " ++
      s!"not a {expected.str} unit"

end ValueFault

/-- The data of a value segment, and the text behind the last value unless that is a comment. -/
structure Readout where
  data : Data
  trailing : Option Text
  deriving DecidableEq

namespace Readout

abbrev Rest := List (Lexeme ValueToken)

def plain {α : Type} (read : Text → Option α) : ValueToken → Option α
  | .word t => read t
  | _ => none

/-- The text of a word or a quoted string. -/
def textOf : ValueToken → Option Text
  | .word t => some t
  | .quoted t => some t
  | _ => none

def readInteger (t : Text) : Option Int32 := (Text.readSigned (Nat.pow 2 31) t).map Int32.ofInt

def takeValue {α : Type} (kind : Kind) (key : Text) (read : ValueToken → Option α) :
    Rest → Except ValueFault (α × Rest)
  | [] => .error (.missing kind key)
  | l :: rest =>
    match l.token with
    | .comment => .error (.missing kind key)
    | .broken => .error (.unreadable kind l.raw key)
    | token =>
      match read token with
      | some v => .ok (v, rest)
      | none => .error (.unreadable kind ((textOf token).getD []) key)

def takeValues {α : Type} (kind : Kind) (key : Text) (read : ValueToken → Option α) :
    Nat → Rest → Except ValueFault (List α × Rest)
  | 0, rest => .ok ([], rest)
  | n + 1, rest =>
    match takeValue kind key read rest with
    | .error fault => .error fault
    | .ok (v, rest) =>
      match takeValues kind key read n rest with
      | .error fault => .error fault
      | .ok (vs, rest) => .ok (v :: vs, rest)

/-- The unit behind a real scalar: its symbol and factor, or nothing. -/
def takeUnit (units : UnitSystem) (realWithUnit : Bool) (key : Text) (clause : UnitClause) :
    Rest → Except ValueFault (Option (Text × Float) × Rest)
  | [] => .ok (none, [])
  | l :: rest =>
    match l.token with
    | .comment => .ok (none, l :: rest)
    | .broken => .error (.unreadableUnit l.raw key)
    | token =>
      let word := (textOf token).getD []
      if !realWithUnit then .error (.unitsDisabled word key)
      else
        match units.find? word, clause with
        | none, _ => .error (.unknownUnit word key)
        | some unit, .label label =>
          if unit.label = label then .ok (some (word, unit.factor), rest)
          else .error (.wrongLabel word key unit.label label)
        | some unit, _ => .ok (some (word, unit.factor), rest)

def takeReals (units : UnitSystem) (realWithUnit : Bool) (d : Declaration) (rest : Rest) :
    Except ValueFault (Data × Rest) :=
  match takeValues .real d.key (plain Decimal.readFloat) (d.size.getD 1) rest with
  | .error fault => .error fault
  | .ok (vs, rest) =>
    match d.unit, d.size with
    | .symbol symbol factor, _ => .ok (.real (vs.map (· * factor)) (some symbol), rest)
    | _, some _ => .ok (.real vs none, rest)
    | clause, none =>
      match takeUnit units realWithUnit d.key clause rest with
      | .error fault => .error fault
      | .ok (none, rest) => .ok (.real vs none, rest)
      | .ok (some (symbol, factor), rest) =>
        .ok (.real (vs.map (· * factor)) (some symbol), rest)

def takeData (units : UnitSystem) (realWithUnit : Bool) (d : Declaration) (rest : Rest) :
    Except ValueFault (Data × Rest) :=
  let n := d.size.getD 1
  match d.kind with
  | .boolean =>
    (takeValues .boolean d.key (plain Text.readBoolean) n rest).map fun r => (.boolean r.1, r.2)
  | .integer =>
    (takeValues .integer d.key (plain readInteger) n rest).map fun r => (.integer r.1, r.2)
  | .real => takeReals units realWithUnit d rest
  | .string =>
    (takeValues .string d.key textOf n rest).map fun r => (.string r.1 (d.unit = .path), r.2)

def trailingOf : Rest → Option Text
  | [] => none
  | l :: _ => if l.token = .comment then none else some (Text.trimEnd l.onward)

def ofSegment (units : UnitSystem) (realWithUnit : Bool) (d : Declaration) (segment : Text) :
    Except ValueFault Readout :=
  (takeData units realWithUnit d (ValueToken.scan segment)).map fun r => ⟨r.1, trailingOf r.2⟩

end Readout
end TypedProperties
