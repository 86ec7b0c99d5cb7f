import TypedProperties.Decimal.Layout
import TypedProperties.Declaration.Head
import TypedProperties.Line.Logical
import TypedProperties.Text.Boolean
import TypedProperties.Token.Value
import TypedProperties.Files.Tree

/-! The written form of a property: its declaration, its description in front, and around a real
with a unit the directives that allow units. -/
namespace TypedProperties

structure WriteOptions where
  /-- Break long vectors over several lines. -/
  wrap : Bool
  headerFooter : Bool
  skipPrivate : Bool
  topic : Option Text
  /-- Symbols to write reals in, where the label is the same. -/
  preferredUnits : List Text
  deriving DecidableEq, Repr

def WriteOptions.standard : WriteOptions := ⟨true, false, false, none, []⟩

inductive WriteFault where
  | unknownUnit (symbol key : Text)
  | access (fault : AccessFault)
  deriving DecidableEq, Repr

def WriteFault.message : WriteFault → String
  | .unknownUnit symbol key => s!"unknown unit symbol '{symbol.str}' for property '{key.str}'"
  | .access fault => s!"write failed: {fault.message}"

namespace Datum

/-- Reals have no point where they are whole, and an exponent below `10 ^ -6` and from `10 ^ 16` on;
of two equally near digits the greater is taken. -/
def realLayout : Decimal.Layout where
  plainFrom := -6
  plainBelow := 16
  pointZero := false
  plus := false
  tie := .up
  nan := Text.ofString "nan"
  infinity := Text.ofString "inf"
  negativeInfinity := Text.ofString "-inf"

def realText (x : Float) : Text := Decimal.text realLayout x

/-- The first preferred symbol with the given label; each one up to it has to be known. -/
def preferredUnit (units : UnitSystem) (key : Text) (label : Text) :
    List Text → Except WriteFault (Option (Text × Float))
  | [] => .ok none
  | symbol :: rest =>
    match units.find? symbol with
    | none => .error (.unknownUnit symbol key)
    | some unit =>
      if unit.label = label then .ok (some (symbol, unit.factor))
      else preferredUnit units key label rest

def outputUnit (units : UnitSystem) (preferred : List Text) (key symbol : Text) :
    Except WriteFault (Text × Float) :=
  match units.find? symbol with
  | none => .error (.unknownUnit symbol key)
  | some unit =>
    match preferredUnit units key unit.label preferred with
    | .error fault => .error fault
    | .ok (some chosen) => .ok chosen
    | .ok none => .ok (symbol, unit.factor)

def valueTexts (factor : Float) : Data → List Text
  | .boolean vs => vs.map Text.ofBoolean
  | .integer vs => vs.map fun v => Text.ofInt v.toInt
  | .real vs _ => vs.map fun v => realText (v / factor)
  | .string vs _ => vs.map ValueToken.quote

def perLine : Data → Nat
  | .boolean _ => 10
  | .integer _ => 5
  | _ => 1

def lineBreak : Text := [' ', Lines.continuation, '\n']

/-- Values behind one blank each, with a break behind every `n`-th but the last. `i` values have
been written on this line. -/
def wrapped (n : Nat) : Nat → List Text → Text
  | _, [] => []
  | _, [v] => ' ' :: v
  | i, v :: w :: rest =>
    if n ≤ i + 1 then ' ' :: v ++ lineBreak ++ wrapped n 0 (w :: rest)
    else ' ' :: v ++ wrapped n (i + 1) (w :: rest)

def unwrapped (vs : List Text) : Text := vs.flatMap fun v => ' ' :: v

def valueBlock (wrap : Bool) (n : Nat) (vs : List Text) : Text :=
  if wrap ∧ 1 < vs.length ∧ n < vs.length then lineBreak ++ wrapped n 0 vs else unwrapped vs

def descriptionLine (text : Text) : Text :=
  if text = [] then [] else Text.ofString "#@description " ++ text ++ ['\n']

def typingText (d : Datum) (symbol : Option Text) : Text :=
  let lock := if d.locked then Declaration.lockWord ++ [' '] else []
  let size :=
    if d.isVector then
      '[' :: Text.ofNat d.data.size ++ ']' :: match symbol with
        | some s => Text.ofString " in " ++ s
        | none => []
    else []
  let path := if d.data.isPath then Text.ofString " as path" else []
  lock ++ d.data.kind.word ++ size ++ path

def text (wrap : Bool) (key : Text) (d : Datum) (unit : Option (Text × Float)) : Text :=
  let symbol := unit.map Prod.fst
  let values := valueTexts ((unit.map Prod.snd).getD 1.0) d.data
  let values := match symbol, d.cardinality with
    | some s, .scalar => values.map (· ++ ' ' :: s)
    | _, _ => values
  let enable := if unit.isSome then Text.ofString "#@enable_real_with_unit\n" else []
  let disable := if unit.isSome then Text.ofString "#@disable_real_with_unit\n" else []
  enable ++ descriptionLine d.description ++
    key ++ Text.ofString " : " ++ d.typingText symbol ++ Text.ofString " =" ++
    valueBlock wrap (perLine d.data) values ++ ['\n'] ++ disable

def write (units : UnitSystem) (o : WriteOptions) (key : Text) (d : Datum) :
    Except WriteFault Text :=
  match d.data.unit with
  | none => .ok (d.text o.wrap key none)
  | some symbol =>
    match outputUnit units o.preferredUnits key symbol with
    | .error fault => .error fault
    | .ok unit => .ok (d.text o.wrap key (some unit))

end Datum
end TypedProperties
