import TypedProperties.FaultKind
import TypedProperties.Store.Collision
import TypedProperties.Text.Blank
import TypedProperties.Text.Cut
import TypedProperties.Text.Integer
import TypedProperties.Token.Head
import TypedProperties.Unit.Table

/-! Declarations, and their heads: what stands in front of the first `=`. A head is a key, an index
in brackets or none, and behind a colon the type with its size and unit; without a colon it
declares a string. A `+` before the `=` appends. -/
namespace TypedProperties

/-- What a head says about units or paths. -/
inductive UnitClause where
  | none
  /-- `as` and a label: the unit written behind a real has to be of this label. -/
  | label (label : Text)
  /-- `in` and a symbol: the unit of all elements of a vector of reals. -/
  | symbol (symbol : Text) (factor : Float)
  /-- `as path`: a string that names a file. -/
  | path
  deriving DecidableEq

structure Declaration where
  key : Text
  mode : Mode
  locked : Bool
  kind : Kind
  /-- The size of a vector; a scalar has none. -/
  size : Option Nat
  unit : UnitClause
  /-- The text behind the `=`, without white space around it. -/
  values : Text
  deriving DecidableEq

inductive HeadFault where
  | noAssignment (line : Text)
  | noKey (line : Text)
  | badIndex (key : Text)
  | noType (key : Text)
  | unknownType (word key : Text)
  | noSize (key : Text)
  | badSize (key word : Text)
  | negativeSize (size : Int) (key : Text)
  | openSize (key : Text)
  | noArgument (clause key : Text)
  | clauseOnString (clause argument key : Text)
  | clauseOnPlain (key : Text)
  | unitsDisabled (key : Text)
  | labelOnVector (key : Text)
  | unknownLabel (label key : Text)
  | symbolOnScalar (key : Text)
  | unknownSymbol (symbol key : Text)
  | strayToken (token key : Text)
  | trailing (rest key : Text)
  | appendToItem (key : Text)
  | itemOfVector (key : Text)
  | appendToScalar (key : Text)
  deriving DecidableEq, Repr

namespace HeadFault

def kind : HeadFault → FaultKind
  | .unknownLabel _ _ => .unresolved
  | .unknownSymbol _ _ => .unresolved
  | _ => .malformed

def message : HeadFault → String
  | .noAssignment line => s!"cannot find assignment symbol '=' in '{line.str}'"
  | .noKey line => s!"missing property key in '{line.str}'"
  | .badIndex key => s!"invalid array item format for key '{key.str}'"
  | .noType key => s!"missing type specifier for key '{key.str}'"
  | .unknownType word key => s!"invalid type specifier '{word.str}' for key '{key.str}'"
  | .noSize key => s!"cannot find vector size for key '{key.str}'"
  | .badSize key word => s!"cannot find vector size for key '{key.str}' in '{word.str}'"
  | .negativeSize size key => s!"invalid vector size {size} for key '{key.str}'"
  | .openSize key => s!"invalid vector size closing symbol for key '{key.str}'"
  | .noArgument clause key =>
    s!"missing argument after '{clause.str}' directive for key '{key.str}'"
  | .clauseOnString clause argument key =>
    s!"unsupported directive '{clause.str} {argument.str}' for string property with key '{key.str}'"
  | .clauseOnPlain key =>
    s!"non-real property with key '{key.str}' does not support explicit unit"
  | .unitsDisabled key =>
    s!"unit directive for key '{key.str}' requires the 'real with unit' feature"
  | .labelOnVector key =>
    s!"'as' unit label directive is not supported for real vector with key '{key.str}'; " ++
      "use 'in <unit symbol>'"
  | .unknownLabel label key => s!"invalid unit label '{label.str}' for key '{key.str}'"
  | .symbolOnScalar key =>
    "'in' unit symbol directive is only supported for real vector, " ++
      s!"not for scalar key '{key.str}'"
  | .unknownSymbol symbol key => s!"unknown unit symbol '{symbol.str}' for key '{key.str}'"
  | .strayToken token key => s!"unexpected token '{token.str}' after key '{key.str}'"
  | .trailing rest key =>
    s!"unsupported trailing token '{rest.str}' in declaration of key '{key.str}'"
  | .appendToItem key =>
    s!"append mode cannot be combined with an array item for key '{key.str}'"
  | .itemOfVector key =>
    s!"array item override of key '{key.str}' expects a scalar declaration"
  | .appendToScalar key =>
    s!"append mode is only supported for array property with key '{key.str}'"

end HeadFault

namespace Declaration

abbrev assignMark : Char := '='
abbrev appendMark : Char := '+'

def lockWord : Text := ['c', 'o', 'n', 's', 't']
def asWord : Text := ['a', 's']
def inWord : Text := ['i', 'n']
def pathWord : Text := ['p', 'a', 't', 'h']

def cardinality (d : Declaration) : Cardinality :=
  if d.size.isSome then .vector else .scalar

abbrev Rest := List (Lexeme HeadToken)

def takeWord (missing : HeadFault) : Rest → Except HeadFault (Text × Rest)
  | ⟨.word w, _, _⟩ :: rest => .ok (w, rest)
  | _ => .error missing

def takeIndex (key : Text) : Rest → Except HeadFault (Option Nat × Rest)
  | ⟨.opening, _, _⟩ :: ⟨.word w, _, _⟩ :: ⟨.closing, _, _⟩ :: rest =>
    match Text.readUnsigned (Nat.pow 2 64) w with
    | some n => .ok (some n, rest)
    | none => .error (.badIndex key)
  | ⟨.opening, _, _⟩ :: _ => .error (.badIndex key)
  | rest => .ok (none, rest)

def takeSize (key : Text) : Rest → Except HeadFault (Option Nat × Rest)
  | ⟨.opening, _, _⟩ :: ⟨.word w, _, _⟩ :: rest =>
    match Text.readSigned (Nat.pow 2 63) w with
    | none => .error (.badSize key w)
    | some n =>
      if n < 0 then .error (.negativeSize n key)
      else
        match rest with
        | ⟨.closing, _, _⟩ :: rest => .ok (some n.toNat, rest)
        | _ => .error (.openSize key)
  | ⟨.opening, _, _⟩ :: _ => .error (.noSize key)
  | rest => .ok (none, rest)

def clauseOf (units : UnitSystem) (realWithUnit : Bool) (key : Text) (kind : Kind)
    (size : Option Nat) (clause argument : Text) : Except HeadFault UnitClause :=
  match kind with
  | .string =>
    if clause = asWord ∧ argument = pathWord then .ok .path
    else .error (.clauseOnString clause argument key)
  | .boolean => .error (.clauseOnPlain key)
  | .integer => .error (.clauseOnPlain key)
  | .real =>
    if !realWithUnit then .error (.unitsDisabled key)
    else if clause = asWord then
      if size.isSome then .error (.labelOnVector key)
      else if units.hasLabel argument then .ok (.label argument)
      else .error (.unknownLabel argument key)
    else if size.isNone then .error (.symbolOnScalar key)
    else
      match units.find? argument with
      | some unit => .ok (.symbol argument unit.factor)
      | none => .error (.unknownSymbol argument key)

def takeClause (units : UnitSystem) (realWithUnit : Bool) (key : Text) (kind : Kind)
    (size : Option Nat) : Rest → Except HeadFault (UnitClause × Rest)
  | ⟨.word w, raw, onward⟩ :: rest =>
    if w = asWord ∨ w = inWord then do
      let (argument, rest) ← takeWord (.noArgument w key) rest
      let unit ← clauseOf units realWithUnit key kind size w argument
      return (unit, rest)
    else .ok (.none, ⟨.word w, raw, onward⟩ :: rest)
  | rest => .ok (.none, rest)

structure Typing where
  locked : Bool
  kind : Kind
  size : Option Nat
  unit : UnitClause
  deriving DecidableEq

def takeTyping (units : UnitSystem) (realWithUnit : Bool) (key : Text) (rest : Rest) :
    Except HeadFault (Typing × Rest) := do
  let (first, rest) ← takeWord (.noType key) rest
  let locked := decide (first = lockWord)
  let (word, rest) ← if locked then takeWord (.noType key) rest else .ok (first, rest)
  match Kind.ofWord word with
  | none => .error (.unknownType word key)
  | some kind =>
    let (size, rest) ← takeSize key rest
    let (unit, rest) ← takeClause units realWithUnit key kind size rest
    return (⟨locked, kind, size, unit⟩, rest)

/-- The part behind the key and its index. Nothing at all declares a string. -/
def takeColon (units : UnitSystem) (realWithUnit : Bool) (key : Text) :
    Rest → Except HeadFault (Typing × Rest)
  | [] => .ok (⟨false, .string, none, .none⟩, [])
  | ⟨.colon, _, _⟩ :: rest => takeTyping units realWithUnit key rest
  | l :: _ => .error (.strayToken l.token.text key)

def modeOf (key : Text) (size : Option Nat) : Option Nat → Bool → Except HeadFault Mode
  | some _, true => .error (.appendToItem key)
  | some index, false => if size.isSome then .error (.itemOfVector key) else .ok (.item index)
  | none, true => if size.isNone then .error (.appendToScalar key) else .ok .append
  | none, false => .ok .declare

def ofHead (units : UnitSystem) (realWithUnit : Bool) (line : Text) (append : Bool)
    (values : Text) : Rest → Except HeadFault Declaration
  | ⟨.word key, _, _⟩ :: rest => do
    let (index, rest) ← takeIndex key rest
    let (typing, rest) ← takeColon units realWithUnit key rest
    match rest with
    | l :: _ => .error (.trailing (Text.trimEnd l.onward) key)
    | [] =>
      let mode ← modeOf key typing.size index append
      return ⟨key, mode, typing.locked, typing.kind, typing.size, typing.unit, Text.trim values⟩
  | _ => .error (.noKey line)

def ofLine (units : UnitSystem) (realWithUnit : Bool) (line : Text) :
    Except HeadFault Declaration :=
  match Text.cutAt assignMark line with
  | none => .error (.noAssignment line)
  | some (head, values) =>
    let bare := Text.dropMark appendMark head
    ofHead units realWithUnit line bare.isSome values
      (HeadToken.scan (Text.trimEnd (bare.getD head)))

end Declaration
end TypedProperties
