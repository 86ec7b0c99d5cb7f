import TypedProperties.Text.Basic

/-! Tokens in their source. -/
namespace TypedProperties

/-- The blanks that separate tokens: space, tab, carriage return, line feed and form feed only. -/
def isGap (c : Char) : Bool := c = ' ' || c = '\t' || c = '\r' || c = '\n' || c = '\x0c'

/-- A token, the text that it stands for, and the source from its first character to the end. -/
structure Lexeme (τ : Type) where
  token : τ
  raw : Text
  onward : Text
  deriving DecidableEq, Repr

namespace Lexeme

/-- First and last byte position of a lexeme of `source`, the last one excluded. -/
def span {τ : Type} (source : Text) (l : Lexeme τ) : Nat × Nat :=
  let start := Text.byteLength source - Text.byteLength l.onward
  (start, start + Text.byteLength l.raw)

end Lexeme
end TypedProperties
