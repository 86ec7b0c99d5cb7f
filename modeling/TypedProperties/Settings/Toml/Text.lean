import TypedProperties.Text.Blank

/-! Blanks, comments, strings and keys of a settings file. Each reader takes a text and gives back
what is left of it. -/
namespace TypedProperties
namespace Toml

def skipGaps (t : Text) : Text := t.dropWhile Text.isInlineSpace

/-- Control characters other than the tab stand neither in comments nor in strings. -/
def isControl (c : Char) : Bool := (c.toNat < 0x20 && c ≠ '\t') || c.toNat = 0x7f

def takeNewline : Text → Option Text
  | '\n' :: rest => some rest
  | '\r' :: '\n' :: rest => some rest
  | _ => none

def skipComment : Text → Option Text
  | '#' :: rest =>
    let (comment, rest) := rest.span fun c => c ≠ '\n' && c ≠ '\r'
    if comment.any isControl then none else some rest
  | t => some t

def endOfLine (t : Text) : Option Text :=
  match skipComment (skipGaps t) with
  | some [] => some []
  | some rest => takeNewline rest
  | none => none

def skipWhite : Text → Text
  | ' ' :: rest => skipWhite rest
  | '\t' :: rest => skipWhite rest
  | '\n' :: rest => skipWhite rest
  | '\r' :: '\n' :: rest => skipWhite rest
  | t => t

def skipLines : Nat → Text → Option Text
  | 0, t => some t
  | fuel + 1, t =>
    match skipComment (skipGaps t) with
    | none => none
    | some rest =>
      match takeNewline rest with
      | some rest => skipLines fuel rest
      | none => some rest

def hexValue (c : Char) : Option Nat :=
  if c.isDigit then some (c.toNat - '0'.toNat)
  else if 'a' ≤ c ∧ c ≤ 'f' then some (c.toNat - 'a'.toNat + 10)
  else if 'A' ≤ c ∧ c ≤ 'F' then some (c.toNat - 'A'.toNat + 10)
  else none

def readCode (digits : Text) : Option Char :=
  match digits.mapM hexValue with
  | none => none
  | some ds =>
    let n := ds.foldl (fun v d => 16 * v + d) 0
    if n.isValidChar then some (Char.ofNat n) else none

/-- The character behind a backslash, and how many characters spell it. -/
def escaped : Text → Option (Char × Nat)
  | 'b' :: _ => some ('\x08', 1)
  | 't' :: _ => some ('\t', 1)
  | 'n' :: _ => some ('\n', 1)
  | 'f' :: _ => some ('\x0c', 1)
  | 'r' :: _ => some ('\r', 1)
  | '"' :: _ => some ('"', 1)
  | '\\' :: _ => some ('\\', 1)
  | 'u' :: rest => if 4 ≤ rest.length then (readCode (rest.take 4)).map (·, 5) else none
  | 'U' :: rest => if 8 ≤ rest.length then (readCode (rest.take 8)).map (·, 9) else none
  | _ => none

def basic : Nat → Text → Option (Text × Text)
  | 0, _ => none
  | _, [] => none
  | _, '"' :: rest => some ([], rest)
  | fuel + 1, '\\' :: rest =>
    match escaped rest with
    | some (c, n) => (basic fuel (rest.drop n)).map fun r => (c :: r.1, r.2)
    | none => none
  | fuel + 1, c :: rest =>
    if isControl c then none else (basic fuel rest).map fun r => (c :: r.1, r.2)

/-- A string of several lines up to its three closing quotes, in front of which two more may stand.
A backslash at the end of a line joins it to the next text, and each line end is one character. -/
def multiBasic : Nat → Text → Option (Text × Text)
  | 0, _ => none
  | _, [] => none
  | _, '"' :: '"' :: '"' :: '"' :: '"' :: rest => some (['"', '"'], rest)
  | _, '"' :: '"' :: '"' :: '"' :: rest => some (['"'], rest)
  | _, '"' :: '"' :: '"' :: rest => some ([], rest)
  | fuel + 1, '\\' :: rest =>
    match takeNewline (skipGaps rest) with
    | some rest => multiBasic fuel (skipWhite rest)
    | none =>
      match escaped rest with
      | some (c, n) => (multiBasic fuel (rest.drop n)).map fun r => (c :: r.1, r.2)
      | none => none
  | fuel + 1, '\r' :: '\n' :: rest => (multiBasic fuel rest).map fun r => ('\n' :: r.1, r.2)
  | fuel + 1, c :: rest =>
    if isControl c ∧ c ≠ '\n' then none else (multiBasic fuel rest).map fun r => (c :: r.1, r.2)

def literal : Text → Option (Text × Text)
  | [] => none
  | '\'' :: rest => some ([], rest)
  | c :: rest => if isControl c then none else (literal rest).map fun r => (c :: r.1, r.2)

def multiLiteral : Text → Option (Text × Text)
  | [] => none
  | '\'' :: '\'' :: '\'' :: '\'' :: '\'' :: rest => some (['\'', '\''], rest)
  | '\'' :: '\'' :: '\'' :: '\'' :: rest => some (['\''], rest)
  | '\'' :: '\'' :: '\'' :: rest => some ([], rest)
  | '\r' :: '\n' :: rest => (multiLiteral rest).map fun r => ('\n' :: r.1, r.2)
  | c :: rest =>
    if isControl c ∧ c ≠ '\n' then none else (multiLiteral rest).map fun r => (c :: r.1, r.2)

/-- A line end right behind the opening of a string of several lines is no part of it. -/
def dropFirstNewline (t : Text) : Text := (takeNewline t).getD t

def string (fuel : Nat) : Text → Option (Text × Text)
  | '"' :: '"' :: '"' :: rest => multiBasic fuel (dropFirstNewline rest)
  | '"' :: rest => basic fuel rest
  | '\'' :: '\'' :: '\'' :: rest => multiLiteral (dropFirstNewline rest)
  | '\'' :: rest => literal rest
  | _ => none

def isKeyChar (c : Char) : Bool := c.isAlphanum || c = '_' || c = '-'

def simpleKey (fuel : Nat) (t : Text) : Option (Text × Text) :=
  match t with
  | '"' :: rest => basic fuel rest
  | '\'' :: rest => literal rest
  | _ =>
    match t.span isKeyChar with
    | ([], _) => none
    | (key, rest) => some (key, rest)

def keyParts : Nat → Text → Option (List Text × Text)
  | 0, _ => none
  | fuel + 1, t =>
    match simpleKey fuel (skipGaps t) with
    | none => none
    | some (part, rest) =>
      match skipGaps rest with
      | '.' :: rest => (keyParts fuel rest).map fun r => (part :: r.1, r.2)
      | rest => some ([part], rest)

/-- Lists and tables nest less deeply than this, and a key has fewer parts. -/
def depthLimit : Nat := 80

def key (fuel : Nat) (t : Text) : Option (List Text × Text) :=
  (keyParts fuel t).filter fun r => r.1.length < depthLimit

end Toml
end TypedProperties
