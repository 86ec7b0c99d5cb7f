import TypedProperties.Decimal.Basic
import TypedProperties.Text.Integer

/-! Reals as text: an optional sign, then digits with an optional point and exponent, or a name of
infinity or of the value that is no number. -/
namespace TypedProperties
namespace Decimal

def spanDigits (t : Text) : Text × Text := t.span Char.isDigit

/-- An exponent: `e` or `E`, an optional sign, digits. Nothing at all is the exponent 0. -/
def readExponent : Text → Option Int
  | [] => some 0
  | c :: cs =>
    if c = 'e' ∨ c = 'E' then
      match cs with
      | '-' :: r => (Text.readNat r).map fun n => -(n : Int)
      | '+' :: r => (Text.readNat r).map Int.ofNat
      | r => (Text.readNat r).map Int.ofNat
    else none

/-- Digits with an optional point among or around them, and an optional exponent. -/
def readUnsigned (t : Text) : Option Decimal :=
  let (whole, rest) := spanDigits t
  let (fraction, rest) := match rest with
    | '.' :: r => spanDigits r
    | r => ([], r)
  match Text.readNat (whole ++ fraction), readExponent rest with
  | some n, some e => some ⟨n, e - fraction.length⟩
  | _, _ => none

/-- The pattern that a text without a sign stands for; case does not matter in names. -/
def readBits (t : Text) : Option Nat :=
  let name := Text.toLower t
  if name = Text.ofString "inf" ∨ name = Text.ofString "infinity" then some Binary.infinity
  else if name = Text.ofString "nan" then some (Binary.infinity + Nat.pow 2 51)
  else (readUnsigned t).map toBits

def readFloat : Text → Option Float
  | '-' :: r => (readBits r).map (Binary.toFloat true)
  | '+' :: r => (readBits r).map (Binary.toFloat false)
  | t => (readBits t).map (Binary.toFloat false)

end Decimal
end TypedProperties
