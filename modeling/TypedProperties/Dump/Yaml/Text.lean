import TypedProperties.Dump.Yaml.Style

/-! Strings as YAML: plain, in quotes, or as a literal block. -/
namespace TypedProperties
namespace Yaml

def spaces (n : Nat) : Text := List.replicate n ' '

/-- Between single quotes, each of which is written twice inside. The line behind a break is
indented, also where only the closing quote stands on it. -/
def singleBody (indent : Nat) (broken : Bool) : Text → Text
  | [] => if broken then spaces indent else []
  | c :: rest =>
    if isBreak c then c :: singleBody indent true rest
    else
      (if broken then spaces indent else []) ++ (if c = '\'' then [c, c] else [c]) ++
        singleBody indent false rest

def single (indent : Nat) (t : Text) : Text := '\'' :: singleBody indent false t ++ ['\'']

def hexDigit (n : Nat) : Char := (Nat.digitChar n).toUpper

def hex : Nat → Nat → Text
  | 0, _ => []
  | width + 1, n => hex width (n / 16) ++ [hexDigit (n % 16)]

def escapeName (c : Char) : Option Char :=
  [('\x00', '0'), ('\x07', 'a'), ('\x08', 'b'), ('\t', 't'), ('\n', 'n'), ('\x0b', 'v'),
    ('\x0c', 'f'), ('\r', 'r'), ('\x1b', 'e'), ('"', '"'), ('\\', '\\'), ('\x85', 'N'),
    ('\u2028', 'L'), ('\u2029', 'P')].lookup c

def escapeChar (c : Char) : Text :=
  match escapeName c with
  | some name => ['\\', name]
  | none =>
    if isPrintable c then [c]
    else if c.toNat ≤ 0xff then '\\' :: 'x' :: hex 2 c.toNat
    else if c.toNat ≤ 0xffff then '\\' :: 'u' :: hex 4 c.toNat
    else '\\' :: 'U' :: hex 8 c.toNat

def double (t : Text) : Text := '"' :: t.flatMap escapeChar ++ ['"']

/-- What stands behind the bar of a literal block: its indentation if the text does not show it, and
what becomes of the breaks at its end. -/
def blockHints (t : Text) : Text :=
  let indentation := if t.head?.any (fun c => c = ' ' || isBreak c) then ['2'] else []
  let ending := match t.reverse with
    | [] => ['-']
    | [c] => if isBreak c then ['+'] else ['-']
    | c :: d :: _ => if !isBreak c then ['-'] else if isBreak d then ['+'] else []
  indentation ++ ending

def blockBody (indent : Nat) (broken : Bool) : Text → Text
  | [] => []
  | c :: rest =>
    if isBreak c then c :: blockBody indent true rest
    else (if broken then spaces indent else []) ++ c :: blockBody indent false rest

def block (indent : Nat) (t : Text) : Text :=
  '|' :: blockHints t ++ '\n' :: blockBody indent true t

/-- A string behind a key or a dash. `indent` is that of its further lines. -/
def string (indent : Nat) (t : Text) : Text :=
  if t.contains '\n' then if blockAllowed t then block indent t else double t
  else if !isAmbiguous t && plainAllowed t then t
  else if singleAllowed t then single indent t
  else double t

def isSimpleKey (t : Text) : Bool := !isMultiline t && Text.byteLength t ≤ 128

end Yaml
end TypedProperties
