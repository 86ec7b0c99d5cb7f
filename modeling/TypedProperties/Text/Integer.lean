import TypedProperties.Text.Basic

/-! Decimal integers as text: an optional sign, then digits, within the bounds of the reader. -/
namespace TypedProperties
namespace Text

def digitValue (c : Char) : Option Nat :=
  if c.isDigit then some (c.toNat - '0'.toNat) else none

def readDigits (start : Nat) : Text → Option Nat
  | [] => some start
  | c :: cs =>
    match digitValue c with
    | some d => readDigits (10 * start + d) cs
    | none => none

def readNat : Text → Option Nat
  | [] => none
  | c :: cs => readDigits 0 (c :: cs)

def readUnsigned (bound : Nat) (t : Text) : Option Nat :=
  let digits := match t with
    | '+' :: r => r
    | _ => t
  (readNat digits).filter (· < bound)

/-- Digits, optionally after `+` or `-`, with a value `v` such that `-bound ≤ v < bound`. -/
def readSigned (bound : Nat) : Text → Option Int
  | '-' :: r => ((readNat r).filter (· ≤ bound)).map fun n => -(n : Int)
  | '+' :: r => ((readNat r).filter (· < bound)).map Int.ofNat
  | t => ((readNat t).filter (· < bound)).map Int.ofNat

def ofNat (n : Nat) : Text := Nat.toDigits 10 n

def ofInt : Int → Text
  | .ofNat n => ofNat n
  | .negSucc n => '-' :: ofNat (n + 1)

end Text
end TypedProperties
