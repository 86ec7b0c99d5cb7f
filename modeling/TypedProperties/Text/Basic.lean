/-! Text as the rules of the format see it: a list of characters, measured in bytes where
positions are reported. -/
namespace TypedProperties

/-- A run of characters. Every rule of the format is stated on characters, never on indices. -/
abbrev Text := List Char

namespace Text

def ofString (s : String) : Text := s.toList

def str (t : Text) : String := String.ofList t

def byteLength : Text → Nat
  | [] => 0
  | c :: cs => c.utf8Size + byteLength cs

@[simp] theorem byteLength_append (s t : Text) :
    byteLength (s ++ t) = byteLength s + byteLength t := by
  induction s with
  | nil => simp [byteLength]
  | cons c s ih => simp [byteLength, ih, Nat.add_assoc]

def toLower (t : Text) : Text := t.map Char.toLower

end Text
end TypedProperties
