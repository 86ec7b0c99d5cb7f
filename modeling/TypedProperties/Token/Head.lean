import TypedProperties.Token.Lexeme

/-! Tokens of a declaration head: words, and `:`, `[` and `]`. -/
namespace TypedProperties

inductive HeadToken where
  | word (text : Text)
  | colon
  | opening
  | closing
  deriving DecidableEq, Repr

namespace HeadToken

def text : HeadToken → Text
  | .word t => t
  | .colon => [':']
  | .opening => ['[']
  | .closing => [']']

def isWordChar (c : Char) : Bool := !isGap c && c ≠ ':' && c ≠ '[' && c ≠ ']'

def mark? : Char → Option HeadToken
  | ':' => some .colon
  | '[' => some .opening
  | ']' => some .closing
  | _ => none

/-- The lexemes of a head. Every character that is no blank belongs to one. -/
def scan (source : Text) : List (Lexeme HeadToken) :=
  match source with
  | [] => []
  | c :: cs =>
    if isGap c then scan cs
    else
      match mark? c with
      | some mark => ⟨mark, [c], c :: cs⟩ :: scan cs
      | none =>
        let word := c :: cs.takeWhile isWordChar
        ⟨.word word, word, c :: cs⟩ :: scan (cs.dropWhile isWordChar)
termination_by source.length
decreasing_by
  · simp
  · simp
  · exact Nat.lt_succ_of_le (List.dropWhile_sublist _).length_le

end HeadToken
end TypedProperties
