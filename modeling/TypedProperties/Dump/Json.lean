import TypedProperties.Decimal.Layout
import TypedProperties.Dump.Document
import TypedProperties.Text.Boolean

/-! Documents as JSON, indented by two blanks. -/
namespace TypedProperties
namespace Json

/-- Reals always have a point or an exponent; what is no finite number is null. -/
def realLayout : Decimal.Layout where
  plainFrom := -5
  plainBelow := 16
  pointZero := true
  plus := true
  tie := .even
  nan := Text.ofString "null"
  infinity := Text.ofString "null"
  negativeInfinity := Text.ofString "null"

def escapeChar (c : Char) : Text :=
  match c with
  | '"' => ['\\', '"']
  | '\\' => ['\\', '\\']
  | '\n' => ['\\', 'n']
  | '\r' => ['\\', 'r']
  | '\t' => ['\\', 't']
  | '\x08' => ['\\', 'b']
  | '\x0c' => ['\\', 'f']
  | c =>
    if c.toNat < 0x20 then
      ['\\', 'u', '0', '0', Nat.digitChar (c.toNat / 16), Nat.digitChar (c.toNat % 16)]
    else [c]

def quote (t : Text) : Text := '"' :: t.flatMap escapeChar ++ ['"']

def scalar : Scalar → Text
  | .boolean b => Text.ofBoolean b
  | .integer n => Text.ofInt n
  | .real x => Decimal.text realLayout x
  | .string t => quote t

def newline (indent : Nat) : Text := '\n' :: List.replicate indent ' '

def bracket (opening closing : Char) (indent : Nat) (items : List Text) : Text :=
  match items with
  | [] => [opening, closing]
  | first :: rest =>
    opening :: newline (indent + 2) ++ first ++
      rest.flatMap (fun item => ',' :: newline (indent + 2) ++ item) ++
      newline indent ++ [closing]

mutual

def print (indent : Nat) : Document → Text
  | .scalar s => scalar s
  | .list items => bracket '[' ']' indent (items.map scalar)
  | .mapping entries => bracket '{' '}' indent (printEntries (indent + 2) entries)

def printEntries (indent : Nat) : List (Text × Document) → List Text
  | [] => []
  | (key, value) :: rest =>
    (quote key ++ ':' :: ' ' :: print indent value) :: printEntries indent rest

end

end Json

def Store.toJson (s : Store) : Text := Json.print 0 (Document.ofStore s)

end TypedProperties
