import TypedProperties.Text.Basic

/-! Booleans as text. -/
namespace TypedProperties
namespace Text

/-- `1`, `T` or `true`, `0`, `F` or `false`; the case of the long forms does not matter. -/
def readBoolean (t : Text) : Option Bool :=
  if t = ['1'] ∨ t = ['T'] ∨ toLower t = ['t', 'r', 'u', 'e'] then some true
  else if t = ['0'] ∨ t = ['F'] ∨ toLower t = ['f', 'a', 'l', 's', 'e'] then some false
  else none

def ofBoolean (b : Bool) : Text := ofString (if b then "true" else "false")

@[simp] theorem readBoolean_ofBoolean (b : Bool) : readBoolean (ofBoolean b) = some b := by
  cases b <;> decide

end Text
end TypedProperties
