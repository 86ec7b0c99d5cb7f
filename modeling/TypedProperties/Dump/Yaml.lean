import TypedProperties.Decimal.Layout
import TypedProperties.Dump.Document
import TypedProperties.Dump.Yaml.Text
import TypedProperties.Text.Boolean

/-! Documents as YAML in block style. -/
namespace TypedProperties
namespace Yaml

def realLayout : Decimal.Layout where
  plainFrom := -5
  plainBelow := 16
  pointZero := true
  plus := false
  tie := .even
  nan := Text.ofString ".nan"
  infinity := Text.ofString ".inf"
  negativeInfinity := Text.ofString "-.inf"

def scalar (indent : Nat) : Scalar → Text
  | .boolean b => Text.ofBoolean b
  | .integer n => Text.ofInt n
  | .real x => Decimal.text realLayout x
  | .string t => string indent t

def endLine (t : Text) : Text := if t.getLast?.any isBreak then t else t ++ ['\n']

def printItems (indent : Nat) (items : List Scalar) : Text :=
  items.flatMap fun item => spaces indent ++ '-' :: ' ' :: endLine (scalar (indent + 2) item)

/-- A key with what separates it from its value. A key that does not fit on a line stands behind a
question mark. -/
def printKey (indent : Nat) (key : Text) : Text :=
  if isSimpleKey key then spaces indent ++ string (indent + 2) key ++ [':']
  else
    spaces indent ++ '?' :: ' ' :: endLine (string (indent + 2) key) ++ spaces indent ++ [':']

mutual

/-- A value behind its key. A mapping behind a long key starts on the line of the colon. -/
def printValue (indent : Nat) (simple : Bool) : Document → Text
  | .scalar s => ' ' :: endLine (scalar (indent + 2) s)
  | .list items => if items.isEmpty then [' ', '[', ']', '\n'] else '\n' :: printItems indent items
  | .mapping entries =>
    match entries with
    | [] => [' ', '{', '}', '\n']
    | entries =>
      let lines := printEntries (indent + 2) entries
      if simple then '\n' :: lines else ' ' :: lines.drop (indent + 2)

def printEntries (indent : Nat) : List (Text × Document) → Text
  | [] => []
  | (key, value) :: rest =>
    printKey indent key ++ printValue indent (isSimpleKey key) value ++ printEntries indent rest

end

def print : Document → Text
  | .mapping entries => printEntries 0 entries
  | .list items => printItems 0 items
  | .scalar s => endLine (scalar 2 s)

end Yaml

def Store.toYaml (s : Store) : Text := Yaml.print (Document.ofStore s)

end TypedProperties
