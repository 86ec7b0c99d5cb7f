import TypedProperties.Decimal.Numeral

/-! In which ways a string may be written: plainly, where it then reads as the same string, in
single quotes, or as a literal block. -/
namespace TypedProperties
namespace Yaml

def words (ws : List String) : List Text := ws.map Text.ofString

/-- Words for the null value, for booleans, and for what is no finite number. -/
def reservedWords : List Text :=
  words ["", "~", "null", "Null", "NULL", "true", "True", "TRUE", "false", "False", "FALSE",
    ".inf", ".Inf", ".INF", "+.inf", "+.Inf", "+.INF", "-.inf", "-.Inf", "-.INF",
    ".nan", ".NaN", ".NAN"]

def dropSign : Text → Text
  | '+' :: r => r
  | '-' :: r => r
  | t => t

def hasLeadingZero (t : Text) : Bool :=
  match dropSign t with
  | '0' :: c :: r => (c :: r).all Char.isDigit
  | _ => false

def hexValue (c : Char) : Option Nat :=
  if c.isDigit then some (c.toNat - '0'.toNat)
  else if 'a' ≤ c ∧ c ≤ 'f' then some (c.toNat - 'a'.toNat + 10)
  else if 'A' ≤ c ∧ c ≤ 'F' then some (c.toNat - 'A'.toNat + 10)
  else none

def readBase (base : Nat) (t : Text) : Option Nat :=
  if t = [] then none
  else t.foldl (fun value c => do
    let v ← value
    let d ← hexValue c
    if d < base then some (base * v + d) else none) (some 0)

def isBasedInteger (t : Text) : Bool :=
  let (negative, t) := match t with
    | '-' :: r => (true, r)
    | '+' :: r => (false, r)
    | r => (false, r)
  let bound := if negative then Nat.pow 2 127 + 1 else Nat.pow 2 128
  let value := match t with
    | '0' :: 'x' :: r => readBase 16 r
    | '0' :: 'o' :: r => readBase 8 r
    | '0' :: 'b' :: r => readBase 2 r
    | _ => none
  value.any (· < bound)

def isDecimal (t : Text) : Bool :=
  let digits := match t with
    | '+' :: '+' :: _ => none
    | '+' :: '-' :: _ => none
    | '+' :: r => some r
    | r => some r
  match digits.bind Decimal.readFloat with
  | some x => Binary.magnitude x < Binary.infinity
  | none => false

/-- Whether a plain string would read as null, a boolean or a number, or has zeros in front of
other digits, which not every reader takes for a string. -/
def isAmbiguous (t : Text) : Bool :=
  reservedWords.contains t || hasLeadingZero t || isBasedInteger t || isDecimal t

def isBreak (c : Char) : Bool :=
  c = '\n' || c = '\r' || c = '\x85' || c = '\u2028' || c = '\u2029'

def isPrintable (c : Char) : Bool :=
  c = '\n' || (' ' ≤ c && c ≤ '~') || ('\u00a0' ≤ c && c ≠ '\ufeff' && c ≠ '\ufffe' && c ≠ '\uffff')

def endsWord : Text → Bool
  | [] => true
  | c :: _ => c = ' ' || c = '\t' || c = '\x00' || isBreak c

/-- Characters that mean something at the start of a plain string. -/
def indicatesAtStart (c : Char) (rest : Text) : Bool :=
  ['#', ',', '[', ']', '{', '}', '&', '*', '!', '|', '>', '\'', '"', '%', '@', '\x60'].contains c ||
    (['?', ':', '-'].contains c && endsWord rest)

def indicatesInside (before c : Char) (rest : Text) : Bool :=
  (c = ':' && endsWord rest) || (c = '#' && endsWord [before])

def hasInnerIndicator (before : Char) : Text → Bool
  | [] => false
  | c :: rest => indicatesInside before c rest || hasInnerIndicator c rest

def hasIndicator : Text → Bool
  | [] => false
  | c :: rest =>
    indicatesAtStart c rest || hasInnerIndicator c rest ||
      (c :: rest).take 3 = ['-', '-', '-'] || (c :: rest).take 3 = ['.', '.', '.']

/-- Whether a character for which `p` holds is followed by one for which `q` holds. -/
def hasPair (p q : Char → Bool) : Text → Bool
  | c :: d :: rest => (p c && q d) || hasPair p q (d :: rest)
  | _ => false

def isBlank (c : Char) : Bool := c = ' '

def edge (t : Text) (p : Char → Bool) : Bool := t.head?.any p || t.getLast?.any p

def isSpecial (t : Text) : Bool := t.any (fun c => !isPrintable c) || hasPair isBlank isBreak t

def isMultiline (t : Text) : Bool := t.any isBreak

def plainAllowed (t : Text) : Bool :=
  !isSpecial t && !isMultiline t && !edge t isBlank && !hasIndicator t

def singleAllowed (t : Text) : Bool := !isSpecial t && !hasPair isBreak isBlank t

def blockAllowed (t : Text) : Bool := t ≠ [] && !isSpecial t && !t.getLast?.any isBlank

end Yaml
end TypedProperties
