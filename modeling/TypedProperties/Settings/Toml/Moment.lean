import TypedProperties.Text.Cut
import TypedProperties.Text.Integer

/-! Dates and times of a settings file. Each reader gives the text in its one usual form, and what
is left behind it. -/
namespace TypedProperties
namespace Toml

/-- The number that the next digits spell, if it lies within bounds. -/
def numberWithin (width low high : Nat) (t : Text) : Option (Nat × Text) :=
  let (digits, rest) := t.splitAt width
  if digits.length < width then none
  else ((Text.readNat digits).filter fun n => low ≤ n ∧ n ≤ high).map (·, rest)

def padded (width n : Nat) : Text :=
  let digits := Text.ofNat n
  List.replicate (width - digits.length) '0' ++ digits

def isLeapYear (year : Nat) : Bool := year % 4 = 0 && (year % 100 ≠ 0 || year % 400 = 0)

def daysIn (year month : Nat) : Nat :=
  if month = 2 then if isLeapYear year then 29 else 28
  else if [4, 6, 9, 11].contains month then 30
  else 31

def date (t : Text) : Option (Text × Text) := do
  let (year, t) ← numberWithin 4 0 9999 t
  let (month, t) ← numberWithin 2 1 12 (← Text.dropLead ['-'] t)
  let (day, t) ← numberWithin 2 1 (daysIn year month) (← Text.dropLead ['-'] t)
  return (padded 4 year ++ '-' :: padded 2 month ++ '-' :: padded 2 day, t)

def hourMinute (t : Text) : Option (Text × Text) := do
  let (hour, t) ← numberWithin 2 0 23 t
  let (minute, t) ← numberWithin 2 0 59 (← Text.dropLead [':'] t)
  return (padded 2 hour ++ ':' :: padded 2 minute, t)

/-- The fraction of a second: nine digits count, and zeros at the end are left out. -/
def secondFraction : Text → Text × Text
  | '.' :: t =>
    match t.span Char.isDigit with
    | ([], _) => ([], '.' :: t)
    | (digits, rest) =>
      match (digits.take 9).reverse.dropWhile (· = '0') with
      | [] => ([], rest)
      | back => ('.' :: back.reverse, rest)
  | t => ([], t)

def time (t : Text) : Option (Text × Text) := do
  let (start, t) ← hourMinute t
  let (second, t) ← numberWithin 2 0 60 (← Text.dropLead [':'] t)
  let (fraction, t) := secondFraction t
  return (start ++ ':' :: padded 2 second ++ fraction, t)

/-- The offset of a time zone. Without a difference there is no minus sign. -/
def offset : Text → Option (Text × Text)
  | 'Z' :: t => some (['Z'], t)
  | 'z' :: t => some (['Z'], t)
  | '+' :: t => (hourMinute t).map fun r => ('+' :: r.1, r.2)
  | '-' :: t =>
    (hourMinute t).map fun r => ((if r.1.str = "00:00" then '+' else '-') :: r.1, r.2)
  | _ => none

def timeOfDate : Text → Option (Text × Text)
  | c :: t =>
    if c = 'T' ∨ c = 't' ∨ c = ' ' then
      (time t).map fun (clock, t) =>
        match offset t with
        | some (zone, t) => ('T' :: clock ++ zone, t)
        | none => ('T' :: clock, t)
    else none
  | [] => none

def moment (t : Text) : Option (Text × Text) :=
  match date t with
  | some (day, t) =>
    match timeOfDate t with
    | some (clock, t) => some (day ++ clock, t)
    | none => some (day, t)
  | none => time t

end Toml
end TypedProperties
