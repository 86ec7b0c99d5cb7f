import TypedProperties.Text.Blank
import TypedProperties.Text.Cut

/-! What a logical line is: a comment, a directive or a declaration. -/
namespace TypedProperties

inductive Role where
  | comment
  /-- The text from the `@` on. -/
  | directive (text : Text)
  | declaration (text : Text)
  deriving DecidableEq, Repr

namespace Role

abbrev commentMark : Char := '#'
abbrev directiveMark : Char := '@'

/-- A line that starts with `#` is a comment, or a directive if `@` comes next; any other is a
declaration. White space around and between the marks does not count. -/
def ofText (line : Text) : Role :=
  match Text.trim line with
  | [] => .declaration []
  | c :: rest =>
    if c = commentMark then
      let rest := Text.trimStart rest
      if rest.head? = some directiveMark then .directive rest else .comment
    else .declaration (c :: rest)

end Role
end TypedProperties
