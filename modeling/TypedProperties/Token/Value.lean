import TypedProperties.Token.Lexeme

/-! Tokens of a value segment: quoted strings, bare words, and comments; and the quoted form of a
string. -/
namespace TypedProperties

inductive ValueToken where
  | quoted (text : Text)
  | word (text : Text)
  | comment
  /-- A quote that is never closed. -/
  | broken
  deriving DecidableEq, Repr

namespace ValueToken

def escape : Text → Text
  | [] => []
  | c :: cs => if c = '"' ∨ c = '\\' then '\\' :: c :: escape cs else c :: escape cs

def quote (t : Text) : Text := '"' :: escape t ++ ['"']

/-- What follows an opening quote: a string with its closing quote, or an opening that no quote
closes. `raw` is what was read. -/
inductive Quotation where
  | closed (text raw rest : Text)
  | unclosed (raw rest : Text)
  deriving DecidableEq, Repr

namespace Quotation

def behind (read value : Text) : Quotation → Quotation
  | .closed text raw rest => .closed (value ++ text) (read ++ raw) rest
  | .unclosed raw rest => .unclosed (read ++ raw) rest

/-- Read up to the closing quote. A backslash takes the next character as it is, other than a line
feed; one with nothing to take ends an unclosed quotation in front of it. -/
def scan : Text → Quotation
  | [] => .unclosed [] []
  | '"' :: rest => .closed [] ['"'] rest
  | ['\\'] => .unclosed [] ['\\']
  | '\\' :: c :: rest =>
    if c = '\n' then .unclosed [] ('\\' :: c :: rest)
    else (scan rest).behind ['\\', c] [c]
  | c :: rest => (scan rest).behind [c] [c]

def rest : Quotation → Text
  | .closed _ _ r => r
  | .unclosed _ r => r

@[simp] theorem rest_behind (read value : Text) (q : Quotation) :
    (q.behind read value).rest = q.rest := by
  cases q <;> rfl

theorem length_rest_scan (t : Text) : (scan t).rest.length ≤ t.length := by
  fun_induction scan t with
  | case1 => simp [rest]
  | case2 => simp [rest]
  | case3 => simp [rest]
  | case4 => simp [rest]
  | case5 =>
    simp only [rest_behind, List.length_cons]
    omega
  | case6 =>
    simp only [rest_behind, List.length_cons]
    omega

end Quotation

def isWordChar (c : Char) : Bool := !isGap c && c ≠ '"'

/-- The lexemes of a value segment. A comment reaches to the end of its line, and a `#` inside a
word starts none. -/
def scan (source : Text) : List (Lexeme ValueToken) :=
  match source with
  | [] => []
  | c :: cs =>
    if isGap c then scan cs
    else if c = '"' then
      match _h : Quotation.scan cs with
      | .closed text raw rest => ⟨.quoted text, c :: raw, c :: cs⟩ :: scan rest
      | .unclosed raw rest => ⟨.broken, c :: raw, c :: cs⟩ :: scan rest
    else if c = '#' then
      let raw := c :: cs.takeWhile (· ≠ '\n')
      ⟨.comment, raw, c :: cs⟩ :: scan (cs.dropWhile (· ≠ '\n'))
    else
      let word := c :: cs.takeWhile isWordChar
      ⟨.word word, word, c :: cs⟩ :: scan (cs.dropWhile isWordChar)
termination_by source.length
decreasing_by
  · simp
  · have := Quotation.length_rest_scan cs
    simp only [*] at this
    exact Nat.lt_succ_of_le this
  · have := Quotation.length_rest_scan cs
    simp only [*] at this
    exact Nat.lt_succ_of_le this
  · exact Nat.lt_succ_of_le (List.dropWhile_sublist _).length_le
  · exact Nat.lt_succ_of_le (List.dropWhile_sublist _).length_le

end ValueToken
end TypedProperties
