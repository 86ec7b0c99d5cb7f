import TypedProperties.Text.Basic

/-! Typed values. A unit symbol exists only on reals and a path flag only on strings. -/
namespace TypedProperties

inductive Kind where
  | boolean
  | integer
  | real
  | string
  deriving DecidableEq, Repr

namespace Kind

def label : Kind → String
  | .boolean => "boolean"
  | .integer => "integer"
  | .real => "real"
  | .string => "string"

def word (k : Kind) : Text := Text.ofString k.label

def ofWord (t : Text) : Option Kind :=
  [Kind.boolean, .integer, .real, .string].find? fun k => k.word = t

@[simp] theorem ofWord_word (k : Kind) : ofWord k.word = some k := by
  cases k <;> decide

end Kind

inductive Cardinality where
  | scalar
  | vector
  deriving DecidableEq, Repr

/-- The values of a property, all of one kind. Reals are held in base units. -/
inductive Data where
  | boolean (values : List Bool)
  | integer (values : List Int32)
  | real (values : List Float) (unit : Option Text)
  | string (values : List Text) (isPath : Bool)
  deriving DecidableEq

namespace Data

def kind : Data → Kind
  | .boolean _ => .boolean
  | .integer _ => .integer
  | .real _ _ => .real
  | .string _ _ => .string

def size : Data → Nat
  | .boolean vs => vs.length
  | .integer vs => vs.length
  | .real vs _ => vs.length
  | .string vs _ => vs.length

def unit : Data → Option Text
  | .real _ u => u
  | _ => none

def isPath : Data → Bool
  | .string _ p => p
  | _ => false

def compatible (d e : Data) : Bool :=
  d.kind = e.kind && d.unit = e.unit && d.isPath = e.isPath

/-- Why values cannot be added to others or put in their place. -/
inductive Fault where
  | appendKind (more onto : Kind)
  | itemRange (index size : Nat)
  | itemKind (new old : Kind)
  | itemMissing
  deriving DecidableEq, Repr

/-- The values of `d`, then those of `e`. Unit and path flag are those of `d`. -/
def append : Data → Data → Except Fault Data
  | .boolean vs, .boolean ws => .ok (.boolean (vs ++ ws))
  | .integer vs, .integer ws => .ok (.integer (vs ++ ws))
  | .real vs u, .real ws _ => .ok (.real (vs ++ ws) u)
  | .string vs p, .string ws _ => .ok (.string (vs ++ ws) p)
  | d, e => .error (.appendKind e.kind d.kind)

def putFirst {α : Type} (i : Nat) (vs ws : List α) : Except Fault (List α) :=
  match ws with
  | w :: _ => .ok (vs.set i w)
  | [] => .error .itemMissing

def replaceItem (i : Nat) (d e : Data) : Except Fault Data :=
  if d.size ≤ i then .error (.itemRange i d.size)
  else
    match d, e with
    | .boolean vs, .boolean ws => (putFirst i vs ws).map .boolean
    | .integer vs, .integer ws => (putFirst i vs ws).map .integer
    | .real vs u, .real ws _ => (putFirst i vs ws).map fun r => .real r u
    | .string vs p, .string ws _ => (putFirst i vs ws).map fun r => .string r p
    | d, e => .error (.itemKind e.kind d.kind)

end Data

structure Datum where
  data : Data
  cardinality : Cardinality
  locked : Bool
  description : Text
  deriving DecidableEq

namespace Datum

def scalar (data : Data) : Datum := ⟨data, .scalar, false, []⟩

def vector (data : Data) : Datum := ⟨data, .vector, false, []⟩

def isVector (d : Datum) : Bool := d.cardinality = .vector

end Datum
end TypedProperties
