import TypedProperties.Line.Physical
import TypedProperties.Text.Blank

/-! Logical lines: a physical line that ends in a backslash goes on with the next one, and lines of
nothing but white space are left out. -/
namespace TypedProperties

/-- The joined text, and the 1-based numbers of its first and last physical lines. -/
structure Line where
  text : Text
  first : Nat
  last : Nat
  deriving DecidableEq, Repr

/-- The logical lines of an input, up to a physical line that is no text. -/
structure Lines where
  complete : List Line
  broken : Bool
  deriving DecidableEq, Repr

namespace Lines

abbrev continuation : Char := '\\'

/-- A line in the making: the number of its first physical line, and its text so far. -/
structure Draft where
  first : Nat
  text : Text
  deriving DecidableEq, Repr

def Draft.finish (d : Draft) (last : Nat) : List Line :=
  if Text.isBlank d.text then [] else [⟨d.text, d.first, last⟩]

def prepend (ls : List Line) (r : Lines) : Lines := { r with complete := ls ++ r.complete }

/-- Join the physical lines behind line `number`, the first of them to `draft` if there is one. -/
def assemble (number : Nat) (draft : Option Draft) : List (Option Text) → Lines
  | [] => ⟨(draft.map fun d => d.finish number).getD [], false⟩
  | none :: _ => ⟨[], true⟩
  | some piece :: rest =>
    let d := draft.getD ⟨number + 1, []⟩
    match Text.dropMark continuation piece with
    | some head => assemble (number + 1) (some ⟨d.first, d.text ++ head⟩) rest
    | none =>
      prepend (Draft.finish ⟨d.first, d.text ++ piece⟩ (number + 1))
        (assemble (number + 1) none rest)

def ofBytes (bytes : Bytes) : Lines :=
  assemble 0 none ((RawLine.cut bytes).map RawLine.text)

end Lines
end TypedProperties
