import TypedProperties.Decimal.Layout
import TypedProperties.Text.Boolean
import TypedProperties.Text.Cut

/-! Values of settings, and how they read as what a setting expects. -/
namespace TypedProperties

inductive Setting where
  | boolean (value : Bool)
  | integer (value : Int)
  | real (value : Float)
  | string (value : Text)
  | list (items : List Setting)
  | table (entries : List (Text × Setting))
  /-- What stands at a place of a list that was passed over when it was filled. -/
  | nothing

namespace Setting

/-- Reals in settings have no exponent, and no point where they are whole. -/
def realLayout : Decimal.Layout where
  plainFrom := -400
  plainBelow := 400
  pointZero := false
  plus := false
  tie := .up
  nan := Text.ofString "NaN"
  infinity := Text.ofString "inf"
  negativeInfinity := Text.ofString "-inf"

def toBoolean : Setting → Option Bool
  | .boolean b => some b
  | .integer n => some (n ≠ 0)
  | .real x => some (x != 0.0)
  | .string t =>
    let word := (Text.toLower t).str
    if ["1", "true", "on", "yes"].contains word then some true
    else if ["0", "false", "off", "no"].contains word then some false
    else none
  | _ => none

def toText : Setting → Option Text
  | .boolean b => some (Text.ofBoolean b)
  | .integer n => some (Text.ofInt n)
  | .real x => some (Decimal.text realLayout x)
  | .string t => some t
  | _ => none

def toTexts : Setting → Option (List Text)
  | .list items => items.mapM toText
  | _ => none

def get? (key : Text) : Setting → Option Setting
  | .table entries => entries.lookup key
  | _ => none

/-- `entries` with a value for `key`, in place of the one that is there. -/
def put (key : Text) (value : Setting) : List (Text × Setting) → List (Text × Setting)
  | [] => [(key, value)]
  | e :: rest => if e.1 = key then (key, value) :: rest else e :: put key value rest

@[simp] theorem lookup_put_self (key : Text) (value : Setting) (es : List (Text × Setting)) :
    (put key value es).lookup key = some value := by
  induction es with
  | nil => simp [put]
  | cons e es ih =>
    obtain ⟨k, v⟩ := e
    by_cases h : k = key
    · simp [put, h]
    · have hb : (key == k) = false := by simpa using Ne.symm h
      simp [put, h, List.lookup_cons, hb, ih]

theorem lookup_put_of_ne {key other : Text} (value : Setting) (es : List (Text × Setting))
    (h : other ≠ key) : (put key value es).lookup other = es.lookup other := by
  have hb : (other == key) = false := by simpa using h
  induction es with
  | nil => simp [put, List.lookup_cons, hb]
  | cons e es ih =>
    obtain ⟨k, v⟩ := e
    by_cases hk : k = key
    · subst hk
      simp [put, List.lookup_cons, hb]
    · simp [put, hk, List.lookup_cons, ih]

/-- The entries of a table; anything else gives way to an empty one. -/
def entries : Setting → List (Text × Setting)
  | .table es => es
  | _ => []

def items : Setting → List Setting
  | .list is => is
  | _ => []

/-- Keys that differ in case only are the same key. Outside ASCII only the Kelvin sign has a letter
of ASCII for its lower case, and the keys that mean something are words of ASCII. -/
def foldKey (key : Text) : Text :=
  key.map fun c => if c = '\u212a' then 'k' else c.toLower

mutual

/-- The value of a key once a layer has been put over it. Tables are merged key by key, and an
empty table changes nothing; any other value replaces what is there. -/
def layOver (below : Option Setting) : Setting → Setting
  | .table [] => below.getD (.table [])
  | .table (e :: es) => .table (overEntries ((below.map entries).getD []) (e :: es))
  | value => value

def overEntries (below : List (Text × Setting)) : List (Text × Setting) → List (Text × Setting)
  | [] => below
  | (key, value) :: rest =>
    let key := foldKey key
    overEntries (put key (layOver (below.lookup key) value) below) rest

end

end Setting
end TypedProperties
