import TypedProperties.Store.Basic

/-! A store as a document: nested values of the kinds that data formats share. -/
namespace TypedProperties

inductive Scalar where
  | boolean (value : Bool)
  | integer (value : Int)
  | real (value : Float)
  | string (value : Text)
  deriving DecidableEq

inductive Document where
  | scalar (value : Scalar)
  | list (items : List Scalar)
  | mapping (entries : List (Text × Document))

namespace Document

def string (t : Text) : Document := .scalar (.string t)

def optional (present : Bool) (key : String) (value : Document) : List (Text × Document) :=
  if present then [(Text.ofString key, value)] else []

def values : Data → List Scalar
  | .boolean vs => vs.map .boolean
  | .integer vs => vs.map fun v => .integer v.toInt
  | .real vs _ => vs.map .real
  | .string vs _ => vs.map .string

def ofDatum (d : Datum) : Document :=
  let cardinality := match d.cardinality with
    | .scalar => "scalar"
    | .vector => "vector"
  .mapping <| optional true "type" (string d.data.kind.word) ++
    optional true "values" (.list (values d.data)) ++
    optional d.data.unit.isSome "unit_symbol" (string (d.data.unit.getD [])) ++
    optional d.data.isPath "explicit_path" (.scalar (.boolean true)) ++
    optional true "cardinality" (string (Text.ofString cardinality)) ++
    optional d.locked "locked" (.scalar (.boolean true)) ++
    optional (!d.description.isEmpty) "description" (string d.description)

def ofStore (s : Store) : Document :=
  .mapping <| optional (!s.description.isEmpty) "description" (string s.description) ++
    optional true "properties" (.mapping (s.entries.map fun e => (e.1, ofDatum e.2)))

end Document
end TypedProperties
