import TypedProperties.Decimal.Numeral
import TypedProperties.Settings.Toml.Text
import TypedProperties.Settings.Value

/-! Booleans and numbers of a settings file. -/
namespace TypedProperties
namespace Toml

/-- Digits with single underscores between them, without the underscores. -/
def digits (isDigit : Char → Bool) : Text → Option Text
  | [] => none
  | [c] => if isDigit c then some [c] else none
  | c :: '_' :: rest =>
    if isDigit c then (digits isDigit rest).map (c :: ·) else none
  | c :: d :: rest =>
    if isDigit c then (digits isDigit (d :: rest)).map (c :: ·) else none

def isBaseDigit (base : Nat) (c : Char) : Bool := (hexValue c).any (· < base)

def readBase (base : Nat) (t : Text) : Option Nat :=
  (digits (isBaseDigit base) t).map fun ds =>
    ds.foldl (fun v c => base * v + (hexValue c).getD 0) 0

def noLeadingZero : Text → Bool
  | '0' :: _ :: _ => false
  | _ => true

def integer (t : Text) : Option Int :=
  let value := match t with
    | '0' :: 'x' :: rest => (readBase 16 rest).map Int.ofNat
    | '0' :: 'o' :: rest => (readBase 8 rest).map Int.ofNat
    | '0' :: 'b' :: rest => (readBase 2 rest).map Int.ofNat
    | '-' :: rest => if noLeadingZero rest then (readBase 10 rest).map fun n => -(n : Int) else none
    | '+' :: rest => if noLeadingZero rest then (readBase 10 rest).map Int.ofNat else none
    | rest => if noLeadingZero rest then (readBase 10 rest).map Int.ofNat else none
  value.filter fun n => -(Nat.pow 2 63 : Int) ≤ n ∧ n < (Nat.pow 2 63 : Int)

/-- The digits of a fraction, with the exponent that may follow them. -/
def fraction (t : Text) : Option Text :=
  let (ds, rest) := t.span fun c => c ≠ 'e' && c ≠ 'E'
  match digits Char.isDigit ds, rest with
  | some ds, [] => some ds
  | some ds, _ :: '+' :: e => (digits Char.isDigit e).map fun e => ds ++ 'e' :: e
  | some ds, _ :: '-' :: e => (digits Char.isDigit e).map fun e => ds ++ 'e' :: '-' :: e
  | some ds, _ :: e => (digits Char.isDigit e).map fun e => ds ++ 'e' :: e
  | none, _ => none

/-- A real without its sign: digits, then a fraction, an exponent or both. -/
def unsignedReal (t : Text) : Option Text :=
  if t.str = "inf" ∨ t.str = "nan" then some t
  else
    match Text.cutAt '.' t with
    | some (whole, rest) =>
      match digits Char.isDigit whole, fraction rest with
      | some w, some f => if noLeadingZero w then some (w ++ '.' :: f) else none
      | _, _ => none
    | none =>
      if t.any (fun c => c = 'e' || c = 'E') then (fraction t).filter fun f =>
        noLeadingZero (f.takeWhile Char.isDigit)
      else none

def positiveReal (t : Text) : Option Float :=
  (unsignedReal t).bind fun r =>
    (Decimal.readFloat r).filter fun x => r.str = "inf" ∨ !x.isInf

def real (t : Text) : Option Float :=
  match t with
  | '-' :: rest => (unsignedReal rest).bind fun r => Decimal.readFloat ('-' :: r)
  | '+' :: rest => positiveReal rest
  | rest => positiveReal rest

def isBareChar (c : Char) : Bool := c.isAlphanum || c = '_' || c = '+' || c = '-' || c = '.'

def bare (t : Text) : Option (Setting × Text) :=
  let (word, rest) := t.span isBareChar
  let value : Option Setting :=
    if Text.str word = "true" then some (.boolean true)
    else if Text.str word = "false" then some (.boolean false)
    else
      match integer word, real word with
      | some n, _ => some (.integer n)
      | none, some x => some (.real x)
      | none, none => none
  value.map (·, rest)

end Toml
end TypedProperties
